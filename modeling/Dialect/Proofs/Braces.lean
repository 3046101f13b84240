import Dialect.Proofs.Indentation

/-!
# Blocks in braces

A header opens a block, a closing line closes it, and the header of a further branch does both on
one line. Main statement: in what is written for a program the braces are balanced, and every line is
indented by as many steps as blocks are open before it, one less if it begins with a closing brace.
-/

namespace Dialect

namespace RowKind

/-- The number of blocks that a line opens at its end. -/
def openings : RowKind → Nat
  | .header | .alternate => 1
  | .simple | .placeholder | .closing => 0

/-- The number of blocks that a line closes at its start. -/
def closings : RowKind → Nat
  | .alternate | .closing => 1
  | .simple | .placeholder | .header => 0

theorem closings_eq (kind : RowKind) : kind.closings = 0 ∨ kind.closings = 1 := by
  cases kind <;> simp [closings]

end RowKind

variable {g : Grammar}

/-- Rows between two numbers of open blocks. Each row stands at the depth of the blocks that are
open when it has closed its own, and a closing line holds nothing else. -/
inductive Nests : Nat → List (Nat × Row g) → Nat → Prop where
  | nil (n : Nat) : Nests n [] n
  | cons {depth m : Nat} {row : Row g} {rest : List (Nat × Row g)}
      (bare : row.kind = .closing → row.text = "")
      (behind : Nests (depth + row.kind.openings) rest m) :
      Nests (depth + row.kind.closings) ((depth, row) :: rest) m

theorem Nests.append {n k m : Nat} {as bs : List (Nat × Row g)} (first : Nests n as k)
    (second : Nests k bs m) : Nests n (as ++ bs) m := by
  induction first with
  | nil => exact second
  | cons bare behind ih => exact .cons bare (ih second)

theorem Nests.single (row : Row g) (bare : row.kind = .closing → row.text = "") (depth : Nat) :
    Nests (depth + row.kind.closings) [(depth, row)] (depth + row.kind.openings) :=
  .cons bare (.nil _)

namespace Layout

/-- Every block that a layout opens is closed in it. -/
def Closed (layout : Layout g) : Prop :=
  ∀ depth, Nests depth (Outline.levelsOf depth layout) depth

/-- A layout closes the block that is open before it, and every block that it opens. -/
def Closes (layout : Layout g) : Prop :=
  ∀ depth, Nests (depth + 1) (Outline.levelsOf depth layout) depth

theorem closed_nil : Closed ([] : Layout g) := fun depth => .nil depth

theorem Closed.append {a b : Layout g} (first : Closed a) (second : Closed b) :
    Closed (a ++ b) := by
  intro depth
  rw [Outline.levelsOf_append]
  exact (first depth).append (second depth)

theorem closed_flatMap {α : Type} {xs : List α} {f : α → Layout g} (each : ∀ x ∈ xs, Closed (f x)) :
    Closed (xs.flatMap f) := by
  induction xs with
  | nil => exact closed_nil
  | cons x xs ih =>
    rw [List.forall_mem_cons] at each
    rw [List.flatMap_cons]
    exact each.1.append (ih each.2)

theorem closed_single {row : Row g} (simple : row.kind = .simple) : Closed [.mk row []] := by
  intro depth
  have nests := Nests.single row (fun closing => by rw [simple] at closing; contradiction) depth
  rwa [simple] at nests

/-- A line with a block below it, and what closes the block. -/
theorem nests_cons {row : Row g} {body rest : Layout g} (opens : row.kind.openings = 1)
    (inside : Closed body) (behind : Closes rest) (depth : Nat) :
    Nests (depth + row.kind.closings) (Outline.levelsOf depth (.mk row body :: rest)) depth := by
  have below :
      Nests (depth + row.kind.openings) (Outline.levelsOf (depth + 1) body) (depth + 1) := by
    rw [opens]
    exact inside (depth + 1)
  rw [Outline.levelsOf, Outline.levels, List.cons_append]
  refine .cons (fun closing => ?_) (below.append (behind depth))
  rw [closing] at opens
  contradiction

theorem closed_cons {row : Row g} {body rest : Layout g} (header : row.kind = .header)
    (inside : Closed body) (behind : Closes rest) : Closed (.mk row body :: rest) := by
  intro depth
  have nests := nests_cons (by rw [header]; rfl) inside behind depth
  rwa [header] at nests

theorem closes_cons {row : Row g} {body rest : Layout g} (alternate : row.kind = .alternate)
    (inside : Closed body) (behind : Closes rest) : Closes (.mk row body :: rest) := by
  intro depth
  have nests := nests_cons (by rw [alternate]; rfl) inside behind depth
  rwa [alternate] at nests

section

variable (braces : g.file.useBraces = true)
include braces

theorem closes_closing : Closes (closing (g := g)) := by
  intro depth
  rw [closing, if_pos braces]
  exact Nests.single ⟨.closing, "", [], by simp⟩ (fun _ => rfl) depth

/-- Blocks with braces need no placeholder. -/
theorem filled_eq (body : Layout g) : filled body = body := by
  simp [filled, braces]

theorem closed_block {row : Row g} {body : Layout g} (header : row.kind = .header)
    (inside : Closed body) : Closed (block row body) := by
  rw [block, filled_eq braces]
  exact closed_cons header inside (closes_closing braces)

end

end Layout

namespace Context

variable {c : Context}

theorem closed_simple {text : String} {parts : List String}
    {traced : Text.Traced (c.grammar.spellings ++ parts) text.toList} :
    Layout.Closed (c.simpleLayout text parts traced) :=
  Layout.closed_single rfl

theorem closed_import (specifiers : List ImportSpecifier) (source : String) :
    Layout.Closed (c.importLayout specifiers source) := by
  unfold importLayout
  split
  · exact Layout.closed_nil
  · exact Layout.closed_flatMap fun _ _ => closed_simple

theorem kind_countingRow? {init : Option Stmt} {test update : Option Expr} {row : Row c.grammar}
    (found : c.countingRow? init test update = some row) : row.kind = .header := by
  unfold countingRow? at found
  split at found
  · cases found
    rfl
  · cases found

mutual

theorem closed_layout (braces : c.grammar.file.useBraces = true) (s : Stmt) :
    Layout.Closed (c.layout s) := by
  match s with
  | .block body _ =>
    rw [layout]
    exact closed_layouts braces body
  | .function name params body _ =>
    rw [layout]
    exact Layout.closed_block braces rfl (closed_layouts braces body)
  | .returnStmt span =>
    rw [layout]
    exact closed_simple
  | .expr value span =>
    rw [layout]
    exact closed_exprLayout braces value
  | .variableDecl _ declarators span =>
    rw [layout]
    exact closed_declaredLayout braces declarators
  | .classDecl name superclass members _ =>
    rw [layout]
    exact Layout.closed_block braces rfl
      ((closed_initializerLayout braces members).append (closed_methodsLayout braces members))
  | .importDecl specifiers source _ =>
    rw [layout]
    exact closed_import specifiers source
  | .ifElse test consequent alternate _ =>
    rw [layout, Layout.filled_eq braces]
    exact Layout.closed_cons rfl (closed_layout braces consequent)
      (closes_alternateLayout braces alternate)
  | .forLoop init test update body span =>
    simp only [layout]
    cases found : c.countingRow? init test update with
    | none => exact Layout.closed_nil
    | some row =>
      exact Layout.closed_block braces (kind_countingRow? found) (closed_layout braces body)
  | .forIn left right body _ span =>
    simp only [layout]
    cases left with
    | none => exact Layout.closed_nil
    | some name =>
      cases right.identName? with
      | none => exact Layout.closed_nil
      | some items => exact Layout.closed_block braces rfl (closed_layout braces body)
  | .whileLoop test body _ =>
    rw [layout]
    exact Layout.closed_block braces rfl (closed_layout braces body)
  | .breakStmt _ | .continueStmt _ =>
    rw [layout]
    exact closed_simple
  | .erased _ | .unsupported _ _ =>
    rw [layout]
    exact Layout.closed_nil

theorem closed_layouts (braces : c.grammar.file.useBraces = true) (body : List Stmt) :
    Layout.Closed (c.layouts body) := by
  match body with
  | [] => exact Layout.closed_nil
  | s :: ss =>
    rw [layouts]
    exact (closed_layout braces s).append (closed_layouts braces ss)

/-- What follows the first branch of an `if` closes the block of that branch. -/
theorem closes_alternateLayout (braces : c.grammar.file.useBraces = true)
    (alternate : Option Stmt) : Layout.Closes (c.alternateLayout alternate) := by
  match alternate with
  | none => exact Layout.closes_closing braces
  | some (.ifElse test consequent alternate _) =>
    rw [alternateLayout, Layout.filled_eq braces]
    exact Layout.closes_cons rfl (closed_layout braces consequent)
      (closes_alternateLayout braces alternate)
  | some (.block ..) | some (.function ..) | some (.returnStmt ..) | some (.expr ..)
  | some (.variableDecl ..) | some (.classDecl ..) | some (.importDecl ..) | some (.forLoop ..)
  | some (.forIn ..) | some (.whileLoop ..) | some (.breakStmt ..) | some (.continueStmt ..)
  | some (.erased ..) | some (.unsupported ..) =>
    rw [alternateLayout, Layout.block, Layout.filled_eq braces]
    · exact Layout.closes_cons rfl (closed_layout braces _) (Layout.closes_closing braces)
    · nofun

theorem closed_declaredLayout (braces : c.grammar.file.useBraces = true)
    (declarators : List Declarator) :
    Layout.Closed (c.declaredLayout declarators) := by
  match declarators with
  | [] | .mk none _ _ :: _ => exact Layout.closed_nil
  | .mk (some name) init _ :: _ =>
    rw [declaredLayout]
    exact closed_initializedLayout braces name init

theorem closed_initializedLayout (braces : c.grammar.file.useBraces = true)
    (name : String) (init : Option Expr) :
    Layout.Closed (c.initializedLayout name init) := by
  match init with
  | none => exact closed_simple
  | some init =>
    rw [initializedLayout]
    cases literal : c.literalLayout? name init with
    | none => exact closed_simple
    | some layout => exact closed_literalLayout braces name init layout literal

theorem closed_literalLayout (braces : c.grammar.file.useBraces = true)
    (name : String) (e : Expr) (written : Layout c.grammar)
    (literal : c.literalLayout? name e = some written) : Layout.Closed written := by
  match e with
  | .paren inner _ =>
    rw [literalLayout?] at literal
    exact closed_literalLayout braces name inner written literal
  | .function params (.block body) _ =>
    rw [literalLayout?] at literal
    cases literal
    exact Layout.closed_block braces rfl (closed_layouts braces body)
  | .function params (.value value) _ =>
    rw [literalLayout?] at literal
    cases literal
    exact Layout.closed_cons rfl closed_simple (Layout.closes_closing braces)
  | .ident .. | .literal .. | .template .. | .call .. | .construct .. | .assign .. | .update ..
  | .binary .. | .unary .. | .sequence .. | .member .. | .array .. | .object .. | .other .. =>
    cases literal

theorem closed_initializerLayout (braces : c.grammar.file.useBraces = true)
    (members : List Member) :
    Layout.Closed (c.initializerLayout members) := by
  match members with
  | [] => exact Layout.closed_nil
  | .initializer _ params body _ :: _ =>
    rw [initializerLayout]
    exact Layout.closed_block braces rfl (closed_layouts braces body)
  | .method .. :: ms | .field .. :: ms =>
    rw [initializerLayout]
    · exact closed_initializerLayout braces ms
    · nofun

theorem closed_methodsLayout (braces : c.grammar.file.useBraces = true)
    (members : List Member) :
    Layout.Closed (c.methodsLayout members) := by
  match members with
  | [] => exact Layout.closed_nil
  | .method name params body _ :: ms =>
    rw [methodsLayout]
    exact (Layout.closed_block braces rfl (closed_layouts braces body)).append
      (closed_methodsLayout braces ms)
  | .field .. :: ms | .initializer .. :: ms =>
    rw [methodsLayout]
    · exact closed_methodsLayout braces ms
    · nofun

theorem closed_exprLayout (braces : c.grammar.file.useBraces = true) (e : Expr) :
    Layout.Closed (c.exprLayout e) := by
  match e with
  | .call callee args place =>
    rw [exprLayout]
    split
    · exact closed_resourceLayout braces args
    · exact closed_simple
  | .assign left op right place =>
    rw [exprLayout, assignLayout]
    split <;> exact closed_simple
  | .update argument op _ => exact closed_simple
  | .sequence items _ =>
    rw [exprLayout]
    exact closed_exprLayouts braces items
  | .paren inner _ =>
    rw [exprLayout]
    exact closed_exprLayout braces inner
  | .ident .. | .literal .. | .template .. | .construct .. | .binary .. | .unary .. | .member ..
  | .function .. | .array .. | .object .. | .other .. => exact Layout.closed_nil

theorem closed_exprLayouts (braces : c.grammar.file.useBraces = true) (es : List Expr) :
    Layout.Closed (c.exprLayouts es) := by
  match es with
  | [] => exact Layout.closed_nil
  | e :: es =>
    rw [exprLayouts]
    exact (closed_exprLayout braces e).append (closed_exprLayouts braces es)

theorem closed_resourceLayout (braces : c.grammar.file.useBraces = true) (args : List Expr) :
    Layout.Closed (c.resourceLayout args) := by
  match args with
  | resource :: binding :: body :: _ =>
    rw [resourceLayout]
    cases literal : c.resourceBodyLayout? (c.withRow resource binding) body with
    | none => exact Layout.closed_nil
    | some written => exact closed_resourceBodyLayout braces _ rfl body written literal
  | [] | [_] | [_, _] => exact Layout.closed_nil

theorem closed_resourceBodyLayout (braces : c.grammar.file.useBraces = true) (row : Row c.grammar)
    (header : row.kind = .header) (e : Expr) (written : Layout c.grammar)
    (literal : c.resourceBodyLayout? row e = some written) :
    Layout.Closed written := by
  match e with
  | .paren inner _ =>
    rw [resourceBodyLayout?] at literal
    exact closed_resourceBodyLayout braces row header inner written literal
  | .function _ (.block body) _ =>
    rw [resourceBodyLayout?] at literal
    cases literal
    exact Layout.closed_block braces header (closed_layouts braces body)
  | .function _ (.value value) _ =>
    rw [resourceBodyLayout?] at literal
    cases literal
    exact Layout.closed_cons header (closed_exprLayout braces value) (Layout.closes_closing braces)
  | .ident .. | .literal .. | .template .. | .call .. | .construct .. | .assign .. | .update ..
  | .binary .. | .unary .. | .sequence .. | .member .. | .array .. | .object .. | .other .. =>
    cases literal

end

end Context

/-! ## Counting braces -/

/-- A text without line breaks and braces. -/
def Text.Plain (cs : List Char) : Prop :=
  ∀ ch ∈ cs, Text.isMark ch = false

instance (cs : List Char) : Decidable (Text.Plain cs) :=
  List.decidableBAll (Text.isMark · = false) cs

theorem Text.Plain.count_eq_zero {cs : List Char} (plain : Text.Plain cs) {mark : Char}
    (isMark : Text.isMark mark = true) : cs.count mark = 0 := by
  refine List.count_eq_zero.mpr fun member => ?_
  rw [plain mark member] at isMark
  contradiction

namespace Row

theorem plain_text {row : Row g} (spelled : ∀ s ∈ g.spellings, Text.Plain s.toList)
    (made : ∀ part ∈ row.parts, Text.Plain part.toList) : Text.Plain row.text.toList := by
  intro ch member
  by_contra mark
  obtain ⟨part, origin, inside⟩ := row.traced ch member (by simpa using mark)
  rcases List.mem_append.mp origin with spelling | part
  · exact mark (spelled _ spelling ch inside)
  · exact mark (made _ part ch inside)

/-- Between the braces that close and open its blocks, a line is plain. -/
theorem line_eq_braced {row : Row g} (braces : g.file.useBraces = true)
    (bare : row.kind = .closing → row.text = "") (plain : Text.Plain row.text.toList) :
    ∃ inner, Text.Plain inner ∧ row.line.toList =
      List.replicate row.kind.closings '}' ++ inner ++ List.replicate row.kind.openings '{' := by
  have append {as bs : List Char} (left : Text.Plain as) (right : Text.Plain bs) :
      Text.Plain (as ++ bs) := List.forall_mem_append.mpr ⟨left, right⟩
  have blank : Text.Plain [' '] := by simp [Text.Plain, Text.isMark]
  have terminator : Text.Plain g.terminator.toList := by
    unfold Grammar.terminator
    split <;> simp [Text.Plain, Text.isMark]
  have opening : g.blockOpening = " \x7b" := if_pos braces
  cases kind : row.kind with
  | simple =>
    exact ⟨_, append plain terminator, by simp [line, kind, RowKind.closings, RowKind.openings]⟩
  | header =>
    exact ⟨_, append plain blank, by simp [line, kind, opening, RowKind.closings, RowKind.openings]⟩
  | alternate =>
    exact ⟨_, append (append blank plain) blank,
      by simp [line, kind, opening, braces, RowKind.closings, RowKind.openings]⟩
  | placeholder => exact ⟨_, plain, by simp [line, kind, RowKind.closings, RowKind.openings]⟩
  | closing =>
    exact ⟨[], nofun, by simp [line, kind, bare kind, RowKind.closings, RowKind.openings]⟩

/-- A line with its indentation. -/
def indented (depth : Nat) (row : Row g) : List Char :=
  (List.replicate depth g.file.indent.toList).flatten ++ row.line.toList

/-- What a line of a text tells about its blocks: the braces that close and open them, and at its
start the depth of the line. -/
structure Shows (depth : Nat) (row : Row g) : Prop where
  closed : (row.indented depth).count '}' = row.kind.closings
  opened : (row.indented depth).count '{' = row.kind.openings
  unbroken : '\n' ∉ row.indented depth
  depth_eq : (Indentation.strip g.file.indent.toList (row.indented depth)).1 = depth
  head_eq : (if (Indentation.strip g.file.indent.toList (row.indented depth)).2.head? = some '}'
    then 1 else 0) = row.kind.closings

theorem shows {row : Row g} (braces : g.file.useBraces = true) (given : g.file.indent ≠ "")
    (indent : Text.Plain g.file.indent.toList) (bare : row.kind = .closing → row.text = "")
    (plain : Text.Plain row.text.toList) (start : ¬g.file.indent.toList <+: row.line.toList)
    (depth : Nat) : Shows depth row := by
  have nonempty : g.file.indent.toList ≠ [] := fun empty => given (String.toList_eq_nil_iff.mp empty)
  have blanks : Text.Plain (List.replicate depth g.file.indent.toList).flatten := by
    intro ch member
    obtain ⟨copy, copies, inside⟩ := List.mem_flatten.mp member
    rw [List.eq_of_mem_replicate copies] at inside
    exact indent ch inside
  obtain ⟨inner, between, shape⟩ := line_eq_braced braces bare plain
  have stripped := Indentation.strip_replicate nonempty start depth
  have count (mark : Char) (isMark : Text.isMark mark = true) : (row.indented depth).count mark =
      (List.replicate row.kind.closings '}').count mark +
        (List.replicate row.kind.openings '{').count mark := by
    rw [indented, shape, List.count_append, List.count_append, List.count_append,
      blanks.count_eq_zero isMark, between.count_eq_zero isMark]
    omega
  constructor
  · simpa [List.count_replicate] using count '}' rfl
  · simpa [List.count_replicate] using count '{' rfl
  · exact List.count_eq_zero.mp (by simpa [List.count_replicate] using count '\n' rfl)
  · rw [indented, stripped]
  · rw [indented, stripped, shape]
    rcases row.kind.closings_eq with none | one
    · rw [none, List.replicate_zero, List.nil_append, if_neg]
      intro head
      rcases List.mem_append.mp (List.mem_of_head? head) with inside | opening
      · exact absurd (between _ inside) (by decide)
      · exact absurd (List.eq_of_mem_replicate opening) (by decide)
    · rw [one]
      exact if_pos rfl

end Row

namespace Nests

variable {n m : Nat} {rows : List (Nat × Row g)}

/-- The text of rows, each ended by a line break. -/
def text (rows : List (Nat × Row g)) : List Char :=
  (rows.map fun l => l.2.indented l.1).flatMap (· ++ ['\n'])

theorem splitOn_text (shows : ∀ l ∈ rows, l.2.Shows l.1) :
    (text rows).splitOn '\n' = rows.map (fun l => l.2.indented l.1) ++ [[]] := by
  refine Indentation.splitOn_ended fun row member => ?_
  obtain ⟨l, laid, rfl⟩ := List.mem_map.mp member
  exact (shows l laid).unbroken

theorem count_ended {depth : Nat} {row : Row g} (shows : row.Shows depth) (cs : List Char) :
    (row.indented depth ++ ['\n'] ++ cs).count '}' = row.kind.closings + cs.count '}' ∧
      (row.indented depth ++ ['\n'] ++ cs).count '{' = row.kind.openings + cs.count '{' := by
  simp [shows.closed, shows.opened]

theorem count_eq (nests : Nests n rows m) (shows : ∀ l ∈ rows, l.2.Shows l.1) :
    n + (text rows).count '{' = m + (text rows).count '}' := by
  induction nests with
  | nil => rfl
  | @cons depth m row rest bare behind ih =>
    rw [List.forall_mem_cons] at shows
    have first : row.Shows depth := shows.1
    have later := ih shows.2
    obtain ⟨closed, opened⟩ := count_ended first (text rest)
    have shape : text ((depth, row) :: rest) = row.indented depth ++ ['\n'] ++ text rest := rfl
    rw [shape, closed, opened]
    omega

/-- No prefix closes a block that is not open. -/
theorem count_le (nests : Nests n rows m) (shows : ∀ l ∈ rows, l.2.Shows l.1) {pre : List Char}
    (start : pre <+: text rows) : pre.count '}' ≤ n + pre.count '{' := by
  induction nests generalizing pre with
  | nil =>
    rw [List.prefix_nil.mp start]
    exact Nat.zero_le _
  | @cons depth m row rest bare behind ih =>
    rw [List.forall_mem_cons] at shows
    have first : row.Shows depth := shows.1
    have whole : row.indented depth ++ ['\n'] <+: text ((depth, row) :: rest) :=
      List.prefix_append _ _
    -- a prefix ends inside the first line, which closes only what is open, or goes on behind it
    rcases List.prefix_or_prefix_of_prefix start whole with inside | ⟨more, rfl⟩
    · have few := inside.sublist.count_le '}'
      have closed := (count_ended first []).1
      rw [List.append_nil, List.count_nil, Nat.add_zero] at closed
      omega
    · have later := ih shows.2 ((List.prefix_append_right_inj _).mp start)
      obtain ⟨closed, opened⟩ := count_ended first more
      omega

/-- Every line stands at the depth of the blocks that are open before it, without the one it closes.
The piece behind the last line break counts as a line. -/
theorem depth_add_count (nests : Nests n rows 0) (shows : ∀ l ∈ rows, l.2.Shows l.1)
    {above below : List (List Char)} {line : List Char}
    (lines : rows.map (fun l => l.2.indented l.1) ++ [[]] = above ++ line :: below) :
    (Indentation.strip g.file.indent.toList line).1 +
      (if (Indentation.strip g.file.indent.toList line).2.head? = some '}' then 1 else 0) +
        above.flatten.count '}' = n + above.flatten.count '{' := by
  induction rows generalizing n above with
  | nil =>
    cases nests
    cases above with
    | cons first above => simp at lines
    | nil =>
      obtain ⟨rfl, -⟩ := List.cons.inj lines
      rw [Indentation.strip, if_neg (by simp_all)]
      rfl
  | cons l rest ih =>
    rw [List.forall_mem_cons] at shows
    cases nests with
    | @cons depth _ row _ bare behind =>
      have first : row.Shows depth := shows.1
      cases above with
      | nil =>
        obtain ⟨rfl, -⟩ := List.cons.inj lines
        rw [first.depth_eq, first.head_eq]
        rfl
      | cons top above =>
        obtain ⟨rfl, others⟩ := List.cons.inj lines
        have later := ih behind shows.2 others
        rw [List.flatten_cons, List.count_append, List.count_append, first.closed, first.opened]
        omega

theorem bare_of_mem (nests : Nests n rows m) :
    ∀ l ∈ rows, l.2.kind = .closing → l.2.text = "" := by
  induction nests with
  | nil => exact fun _ member => absurd member List.not_mem_nil
  | cons bare behind ih => exact List.forall_mem_cons.mpr ⟨bare, ih⟩

end Nests

/-- Where blocks have braces, what is written for a program is balanced: every prefix opens at least
as many blocks as it closes, the whole text as many, and every line is indented by the number of the
blocks that are open above it, one less if the line begins by closing one. -/
theorem Program.emit_balanced (g : Grammar) (source : List Char) (p : Program)
    (braces : g.file.useBraces = true) (given : g.file.indent ≠ "")
    (spelled : ∀ s ∈ g.file.indent :: g.spellings, Text.Plain s.toList)
    (made : ∀ part ∈ (p.layout g source).parts, Text.Plain part.toList)
    (starts : ∀ l ∈ (p.emit g source).lines, ¬g.file.indent.toList <+: l.text.toList) :
    let text := ((p.emit g source).text g).toList
    (∀ pre, pre <+: text → pre.count '}' ≤ pre.count '{') ∧ text.count '{' = text.count '}' ∧
      ∀ above line below, text.splitOn '\n' = above ++ line :: below →
        let indented := Indentation.strip g.file.indent.toList line
        indented.1 + (if indented.2.head? = some '}' then 1 else 0) + above.flatten.count '}' =
          above.flatten.count '{' := by
  rw [List.forall_mem_cons] at spelled
  have nests : Nests 0 (Outline.levelsOf 0 (p.layout g source)) 0 :=
    Context.closed_layouts braces p.body 0
  have lines : (p.emit g source).lines = (p.layout g source).lines 0 := Context.lines_stmts 0 p.body
  have shows : ∀ l ∈ Outline.levelsOf 0 (p.layout g source), l.2.Shows l.1 := by
    intro l member
    refine Row.shows braces given spelled.1 (nests.bare_of_mem l member) ?_ ?_ l.1
    · exact Row.plain_text spelled.2 fun part own =>
        made part (List.mem_flatMap.mpr ⟨l, member, own⟩)
    · rw [lines] at starts
      exact starts _ (List.mem_map_of_mem member)
  have written : ((p.emit g source).text g).toList =
      Nests.text (Outline.levelsOf 0 (p.layout g source)) := by
    rw [Indentation.toList_text, lines, Layout.lines, List.map_map]
    rfl
  rw [written]
  refine ⟨fun pre start => ?_, ?_, fun above line below split => ?_⟩
  · simpa using nests.count_le shows start
  · simpa using nests.count_eq shows
  · rw [Nests.splitOn_text shows] at split
    simpa using nests.depth_add_count shows split

/-- A class with a method of three branches, a function of one expression and a resource. -/
theorem Program.emit_balanced_class :
    let g : Grammar :=
      { functionKeyword := "function", template := ⟨"(", ")", "<", ">"⟩,
        file := { useBraces := true, indent := "  " } }
    let source := "x y return 1; y++".toList
    let chain : Stmt := .ifElse (.ident "x" ⟨0, 1⟩) (.returnStmt ⟨4, 13⟩)
      (some (.ifElse (.ident "y" ⟨2, 3⟩) (.block [] ⟨0, 0⟩) (some (.breakStmt ⟨0, 0⟩)) ⟨0, 0⟩)) ⟨0, 0⟩
    let constant : Stmt := .variableDecl .constant
      [.mk (some "f") (some (.function [] (.value (.ident "y" ⟨2, 3⟩)) ⟨0, 0⟩)) ⟨0, 0⟩] ⟨0, 0⟩
    let resource : Stmt := .expr (.call (.ident "withStatement" ⟨0, 0⟩)
      [.ident "x" ⟨0, 1⟩, .ident "y" ⟨2, 3⟩,
        .function [] (.value (.update (.ident "y" ⟨14, 15⟩) "++" ⟨14, 17⟩)) ⟨0, 0⟩] ⟨0, 0⟩) ⟨0, 0⟩
    let p : Program :=
      ⟨[.classDecl "A" none [.method "run" [] [chain, constant, resource] ⟨0, 0⟩] ⟨0, 0⟩]⟩
    let text := ((p.emit g source).text g).toList
    text.count '{' = 7 ∧ text.count '}' = 7 ∧
      ∀ pre, pre <+: text → pre.count '}' ≤ pre.count '{' := by
  intro g source chain constant resource p text
  obtain ⟨prefixes, whole, -⟩ := emit_balanced g source p rfl (by decide) (by decide +kernel)
    (by decide +kernel) (by decide +kernel)
  have opened : text.count '{' = 7 := by decide +kernel
  exact ⟨opened, whole.symm.trans opened, prefixes⟩

end Dialect
