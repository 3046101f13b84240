import Dialect.Proofs.Layout

/-!
# Reading indentation

A text is read line by line. The copies of the indentation in front of a line give its depth, and the
depths give the blocks. Main statement: what is read from a written program is its layout.
-/

namespace Dialect

def Text.startsBlank (cs : List Char) : Bool :=
  cs.head?.any isBlank

namespace Indentation

/-- The number of copies of the indentation in front of a line, and the rest of the line. -/
def strip (indent cs : List Char) : Nat × List Char :=
  if indent ≠ [] ∧ indent <+: cs then
    let rest := strip indent (cs.drop indent.length)
    (rest.1 + 1, rest.2)
  else (0, cs)
termination_by cs.length
decreasing_by
  rename_i indented
  have start := List.length_pos_iff.mpr indented.1
  have fits := indented.2.length_le
  rw [List.length_drop]
  omega

/-- The depths and the texts of the lines of a text. Each line is ended by a line break. -/
def lines (indent text : String) : List (Nat × String) :=
  (text.toList.splitOn '\n').dropLast.map fun cs =>
    ((strip indent.toList cs).1, String.ofList (strip indent.toList cs).2)

def outlines? (indent text : String) : Option (List (Outline String)) :=
  Outline.nest? 0 (lines indent text)

theorem strip_replicate {indent rest : List Char} (given : indent ≠ []) (start : ¬indent <+: rest)
    (n : Nat) : strip indent ((List.replicate n indent).flatten ++ rest) = (n, rest) := by
  induction n with
  | zero =>
    rw [List.replicate_zero, List.flatten_nil, List.nil_append, strip, if_neg (start ·.2)]
  | succ n ih =>
    have shape : (List.replicate (n + 1) indent).flatten ++ rest =
        indent ++ ((List.replicate n indent).flatten ++ rest) := by
      rw [List.replicate_succ, List.flatten_cons, List.append_assoc]
    rw [shape, strip, if_pos ⟨given, List.prefix_append _ _⟩, List.drop_left, ih]

theorem splitOn_ended {rows : List (List Char)} (whole : ∀ row ∈ rows, '\n' ∉ row) :
    (rows.flatMap (· ++ ['\n'])).splitOn '\n' = rows ++ [[]] := by
  induction rows with
  | nil => rfl
  | cons row rows ih =>
    rw [List.forall_mem_cons] at whole
    rw [List.flatMap_cons, List.append_assoc, List.singleton_append,
      List.splitOn_append_cons_self_of_not_mem whole.1, ih whole.2, List.cons_append]

theorem not_prefix_of_blank {indent cs : List Char} (given : indent ≠ [])
    (blank : indent.all Text.isBlank = true) (starts : Text.startsBlank cs = false) :
    ¬indent <+: cs := by
  rintro ⟨rest, rfl⟩
  cases indent with
  | nil => contradiction
  | cons ch indent =>
    have isBlank : Text.isBlank ch = true := List.all_eq_true.mp blank ch List.mem_cons_self
    have notBlank : Text.isBlank ch = false := starts
    rw [isBlank] at notBlank
    contradiction

theorem toList_text (g : Grammar) (e : Emission) :
    (e.text g).toList =
      (e.lines.map fun l =>
        (List.replicate l.depth g.file.indent.toList).flatten ++ l.text.toList).flatMap
          (· ++ ['\n']) := by
  have indentation (depth : Nat) : (g.indentation depth).toList =
      (List.replicate depth g.file.indent.toList).flatten := by
    rw [Grammar.indentation, String.toList_join, List.flatMap_def, List.map_replicate]
  simp [Emission.text, Line.render, List.flatMap_map, indentation]

theorem lines_text {g : Grammar} {e : Emission} (given : g.file.indent ≠ "")
    (blank : g.file.indent.toList.all Text.isBlank = true)
    (unbroken : '\n' ∉ g.file.indent.toList) (whole : ∀ l ∈ e.lines, '\n' ∉ l.text.toList)
    (starts : ∀ l ∈ e.lines, Text.startsBlank l.text.toList = false) :
    lines g.file.indent (e.text g) = e.lines.map fun l => (l.depth, l.text) := by
  have nonempty : g.file.indent.toList ≠ [] := fun empty => given (String.toList_eq_nil_iff.mp empty)
  have single : ∀ row ∈ e.lines.map fun l =>
      (List.replicate l.depth g.file.indent.toList).flatten ++ l.text.toList, '\n' ∉ row := by
    intro row member
    obtain ⟨l, written, rfl⟩ := List.mem_map.mp member
    simp [unbroken, whole l written]
  rw [lines, toList_text, splitOn_ended single, List.dropLast_concat, List.map_map]
  refine List.map_congr_left fun l written => ?_
  have start := not_prefix_of_blank nonempty blank (starts l written)
  rw [Function.comp_apply, strip_replicate nonempty start, String.ofList_toList]

end Indentation

/-- The names and the source texts that the lines of a layout are made of. -/
def Layout.parts {g : Grammar} (layout : Layout g) : List String :=
  (Outline.levelsOf 0 layout).flatMap fun l => l.2.parts

def Layout.texts {g : Grammar} (layout : Layout g) : List (Outline String) :=
  Outline.mapAll Row.line layout

theorem Row.unbroken_line {g : Grammar} {row : Row g}
    (spelled : ∀ s ∈ g.spellings, '\n' ∉ s.toList) (made : ∀ part ∈ row.parts, '\n' ∉ part.toList) :
    '\n' ∉ row.line.toList := by
  have text : '\n' ∉ row.text.toList := by
    intro broken
    obtain ⟨part, member, inside⟩ := row.traced '\n' broken rfl
    rcases List.mem_append.mp member with spelling | part
    · exact spelled _ spelling inside
    · exact made _ part inside
  unfold Row.line Grammar.terminator Grammar.blockOpening
  cases row.kind <;> simp only <;> (repeat' split) <;> simp [text]

def Program.layout (g : Grammar) (source : List Char) (p : Program) : Layout g :=
  Context.layouts ⟨g, source⟩ p.body

/-- Reading the indentation of a written program gives its layout: the same lines in the same blocks,
and before every line the nearest one that is less deep is the header of its block. -/
theorem Program.read_emit_eq_layout (g : Grammar) (source : List Char) (p : Program)
    (given : g.file.indent ≠ "") (blank : g.file.indent.toList.all Text.isBlank = true)
    (spelled : ∀ s ∈ g.file.indent :: g.spellings, '\n' ∉ s.toList)
    (made : ∀ part ∈ (p.layout g source).parts, '\n' ∉ part.toList)
    (starts : ∀ l ∈ (p.emit g source).lines, Text.startsBlank l.text.toList = false) :
    let text := (p.emit g source).text g
    Indentation.outlines? g.file.indent text = some (p.layout g source).texts ∧
      Outline.shallower [] (Indentation.lines g.file.indent text) =
        Outline.ownersOf none 0 (p.layout g source).texts := by
  rw [List.forall_mem_cons] at spelled
  have written : (p.emit g source).lines = (p.layout g source).lines 0 :=
    Context.lines_stmts 0 p.body
  have whole : ∀ l ∈ (p.emit g source).lines, '\n' ∉ l.text.toList := by
    intro l member
    rw [written] at member
    obtain ⟨row, laid, rfl⟩ := List.mem_map.mp member
    exact Row.unbroken_line spelled.2 fun part own =>
      made part (List.mem_flatMap.mpr ⟨row, laid, own⟩)
  have read : Indentation.lines g.file.indent ((p.emit g source).text g) =
      Outline.levelsOf 0 (p.layout g source).texts := by
    rw [Indentation.lines_text given blank spelled.1 whole starts, written, Layout.lines,
      List.map_map, Layout.texts, Outline.levelsOf_mapAll]
    rfl
  constructor
  · rw [Indentation.outlines?, read, Outline.nest?_levelsOf]
  · rw [read, Outline.shallower_levelsOf rfl]
    rfl

/-- A class with a method of two branches, the second with an empty loop. -/
theorem Program.read_emit_class :
    let source := "B x return 1; y".toList
    let loop : Stmt := .whileLoop (.ident "y" ⟨14, 15⟩) (.block [] ⟨0, 0⟩) ⟨0, 0⟩
    let branches : Stmt := .ifElse (.ident "x" ⟨2, 3⟩) (.returnStmt ⟨4, 13⟩) (some loop) ⟨0, 0⟩
    let p : Program :=
      ⟨[.classDecl "A" (some ⟨0, 1⟩) [.method "run" [] [branches] ⟨0, 0⟩] ⟨0, 0⟩,
        .breakStmt ⟨0, 0⟩]⟩
    let text := (p.emit .python source).text .python
    Indentation.outlines? "    " text =
        some [.mk "class A(B):" [.mk "def run(self):" [.mk "if x:" [.mk "return 1" []],
          .mk "else:" [.mk "while y:" [.mk "pass" []]]]], .mk "break" []] ∧
      Outline.shallower [] (Indentation.lines "    " text) =
        [none, some 0, some 1, some 2, some 1, some 4, some 5, none] := by
  intro source loop branches p text
  obtain ⟨read, owners⟩ := read_emit_eq_layout .python source p (by decide) (by decide)
    (by decide) (by decide) (by decide)
  exact ⟨read.trans rfl, owners.trans (by decide)⟩

end Dialect
