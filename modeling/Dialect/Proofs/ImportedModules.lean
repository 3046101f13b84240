import Dialect.Compilation
import Dialect.Parsing.Program
import Dialect.Proofs.Erasing
import Dialect.Proofs.Qualifiers
import Mathlib.Data.List.DropRight

/-!
# Modules that are loaded and modules that are imported

The imports of a text are read when it is loaded, and again when it is compiled, after types are
erased and qualifiers are stripped. Nothing is assumed of the parser but what is said of the two
trees. Main statement: where the second tree has its imports at the places to which those of the
first have moved, the same modules are read in the same order, except that a module whose name
mentions a qualifier is read under its stripped name the second time.
-/

namespace Dialect

/-! ## The sources of imports -/

namespace Reading

mutual

/-- The node that names the module a statement imports; an import of types has none. -/
def importedSource? : Tree → Option Tree
  | .node role kind span children =>
    if kind = .error ||
        (Tree.hasError (.node role kind span children) && !isCompound kind.treated) then none
    else if kind.treated = .importStatement then
      if Tree.hasToken "type" children then none else Tree.find? .source children
    else if kind.treated = .exportStatement then declaredSource? children
    else none

def declaredSource? : List Tree → Option Tree
  | [] => none
  | t :: ts => if t.role = .declaration then importedSource? t else declaredSource? ts

end

/-- The sources of the imports among some statements, in order. -/
def importedSources (children : List Tree) : List Tree :=
  (Tree.parts children).filterMap importedSource?

def moduleAt (source : List Char) (s : Span) : String :=
  String.ofList (unquote (s.chars source))

variable {source : List Char}

theorem importedModule?_declared {ts : List Tree}
    (each : ∀ t ∈ ts, (stmt source t).importedModule? =
      (importedSource? t).map fun n => moduleAt source n.span) :
    (stmtIn? source .declaration ts).bind Stmt.importedModule? =
      (declaredSource? ts).map fun n => moduleAt source n.span := by
  induction ts with
  | nil => rfl
  | cons t ts ih =>
    obtain ⟨first, later⟩ := List.forall_mem_cons.mp each
    rw [stmtIn?, declaredSource?]
    split
    · exact first
    · exact ih later

/-- What a statement imports is the text of its source. -/
theorem importedModule?_stmt (source : List Char) (t : Tree) :
    (stmt source t).importedModule? =
      (importedSource? t).map fun n => moduleAt source n.span := by
  induction t using Tree.node_induction with
  | step t ih =>
    have declared := importedModule?_declared fun child member =>
      ih child (Tree.mem_allNodes.mpr ⟨child, member, child.mem_nodes_self⟩)
    rcases t with ⟨role, kind, span, children⟩
    rw [stmt.eq_def, importedSource?]
    dsimp only
    split
    · rfl
    · by_cases imports : kind.treated = .importStatement
      · rw [imports, if_pos rfl]
        dsimp only
        rw [importStmt]
        split
        · rfl
        · cases Tree.find? .source children <;> rfl
      · by_cases exports : kind.treated = .exportStatement
        · dsimp only [Tree.children] at declared
          rw [exports, if_neg (by decide), if_pos rfl, ← declared]
          dsimp only
          cases stmtIn? source .declaration children <;> rfl
        · rw [if_neg imports, if_neg exports, Option.map_none]
          split
          all_goals first
            | rfl
            | contradiction
            | (split <;> rfl)

theorem importedModules_ofTree (source : List Char) (t : Tree) :
    (Program.ofTree source t).importedModules =
      (importedSources t.children).map fun n => moduleAt source n.span := by
  rw [Program.importedModules, Program.ofTree]
  generalize t.children = ts
  induction ts with
  | nil => rfl
  | cons t ts ih =>
    rw [stmts, importedSources, Tree.parts, List.filter_cons]
    split
    · rw [List.filterMap_cons, List.filterMap_cons, importedModule?_stmt, ih]
      cases importedSource? t <;> rfl
    · exact ih

end Reading

/-! ## The places of sources -/

namespace Erasure

variable {source : List Char} {lo hi : Nat} {t child n : Tree}

/-- The node is a part of the text in which a tree has no types but those of the node. -/
structure Reaches (source : List Char) (t n : Tree) : Prop where
  valid : n.span.Valid source
  inside : n.span.Inside t.span
  alike : ∀ i, n.span.covers i = true →
    (ranges t).any (·.covers i) = (ranges n).any (·.covers i)

theorem Reaches.self (placed : n.isPlaced source lo hi = true) : Reaches source n n :=
  ⟨(Tree.span_of_isPlaced placed).1, .refl n.span, fun _ _ => rfl⟩

theorem Reaches.parent (placed : t.isPlaced source lo hi = true)
    (passed : ranges t = childRanges [] t.children) (member : child ∈ t.children)
    (reaches : Reaches source child n) : Reaches source t n := by
  have below := Tree.arePlaced_children placed
  have inside := (Tree.span_of_isPlaced (Tree.isPlaced_of_mem below member)).2
  refine ⟨reaches.valid, reaches.inside.trans inside, fun i covered => ?_⟩
  have around : child.span.covers i = true := by
    rw [Span.covers_iff] at covered ⊢
    exact ⟨Nat.le_trans reaches.inside.1 covered.1, Nat.lt_of_lt_of_le covered.2 reaches.inside.2⟩
  rw [passed]
  exact (any_childRanges below member around).trans (reaches.alike i covered)

end Erasure

namespace Reading

open Erasure

theorem find?_of_declaredSource? {ts : List Tree} {n : Tree}
    (found : declaredSource? ts = some n) :
    ∃ child, Tree.find? .declaration ts = some child ∧ importedSource? child = some n := by
  induction ts with
  | nil => cases found
  | cons t ts ih =>
    rw [declaredSource?] at found
    rw [Tree.find?, List.find?_cons]
    split at found
    next here =>
      rw [decide_eq_true here]
      exact ⟨t, rfl, found⟩
    next elsewhere =>
      rw [decide_eq_false elsewhere]
      exact ih found

theorem kind_of_importedSource? {t n : Tree} (found : importedSource? t = some n) :
    t.kind.treated = .importStatement ∨ t.kind.treated = .exportStatement := by
  rcases t with ⟨role, kind, span, children⟩
  rw [importedSource?] at found
  split at found
  · cases found
  · split at found
    · next imports => exact .inl imports
    · split at found
      · next exports => exact .inr exports
      · cases found

/-- An import of values is not cut out as a whole, and no more is the export of one. -/
theorem ranges_of_importedSource? {t n : Tree} (found : importedSource? t = some n) :
    ranges t = childRanges [] t.children ∧
      ∃ child ∈ t.children, child = n ∨ importedSource? child = some n := by
  have kinds := kind_of_importedSource? found
  rcases t with ⟨role, kind, span, children⟩
  rw [importedSource?] at found
  split at found
  · cases found
  · rcases kinds with imports | exports
    · have imports : kind.treated = .importStatement := imports
      rw [if_pos imports] at found
      split at found
      · cases found
      · next values =>
        have stays : isTypeOnly .importStatement children = false := Bool.eq_false_iff.mpr values
        refine ⟨?_, n, List.mem_of_find?_eq_some found, .inl rfl⟩
        rw [ranges, imports, stays]
        rfl
    · have exports : kind.treated = .exportStatement := exports
      rw [exports, if_neg (by decide), if_pos rfl] at found
      obtain ⟨child, first, found⟩ := find?_of_declaredSource? found
      have declared : isTypeDeclaration child.kind.treated = false := by
        rcases kind_of_importedSource? found with kind | kind <;> rw [kind] <;> rfl
      have stays : isTypeOnly .exportStatement children = false := by
        rw [isTypeOnly, first, Option.any_some, declared]
        rfl
      refine ⟨?_, child, List.mem_of_find?_eq_some first, .inr found⟩
      rw [ranges, exports, stays]
      rfl

variable {source : List Char}

theorem reaches_importedSource? {t n : Tree} (found : importedSource? t = some n) {lo hi : Nat}
    (placed : t.isPlaced source lo hi = true) : Reaches source t n := by
  induction t using Tree.node_induction generalizing lo hi with
  | step t ih =>
    obtain ⟨passed, child, member, source⟩ := ranges_of_importedSource? found
    have inner := Tree.isPlaced_of_mem (Tree.arePlaced_children placed) member
    rcases source with rfl | below
    · exact .parent placed passed member (.self inner)
    · have reached := Tree.mem_allNodes.mpr ⟨child, member, child.mem_nodes_self⟩
      exact .parent placed passed member (ih child reached below inner)

theorem reaches_importedSources {t n : Tree} (root : t.kind = .program)
    (member : n ∈ importedSources t.children) {lo hi : Nat}
    (placed : t.isPlaced source lo hi = true) : Reaches source t n := by
  obtain ⟨child, listed, found⟩ := List.mem_filterMap.mp member
  have among : child ∈ t.children := (List.mem_filter.mp listed).1
  have passed : ranges t = childRanges [] t.children := by
    rcases t with ⟨role, kind, span, children⟩
    have root : kind = .program := root
    rw [ranges, root]
    rfl
  exact .parent placed passed among
    (reaches_importedSource? found (Tree.isPlaced_of_mem (Tree.arePlaced_children placed) among))

/-! ## Stripping between quotes -/

open Qualifier

theorem isWall_of_isQuote {c : Char} (quote : isQuote c = true) : isWall c = true := by
  simp only [isQuote, Bool.or_eq_true, decide_eq_true_eq] at quote
  rcases quote with rfl | rfl <;> rfl

section

variable {qualifiers : List String}
  (unquoted : ∀ q ∈ qualifiers, ∀ c, isQuote c = true → c ∉ q.toList)
include unquoted

theorem stripAllChars_quote {c : Char} (quote : isQuote c = true) (as bs : List Char) :
    stripAllChars qualifiers (as ++ c :: bs) =
      stripAllChars qualifiers as ++ c :: stripAllChars qualifiers bs :=
  stripAllChars_wall (isWall_of_isQuote quote) (fun q member => unquoted q member c quote) as bs

theorem dropWhile_stripAllChars (cs : List Char) :
    (stripAllChars qualifiers cs).dropWhile isQuote =
      stripAllChars qualifiers (cs.dropWhile isQuote) := by
  induction cs with
  | nil => rw [stripAllChars_empty]; exact (stripAllChars_empty qualifiers).symm
  | cons c cs ih =>
    cases quote : isQuote c with
    | true =>
      have apart := stripAllChars_quote unquoted quote [] cs
      rw [stripAllChars_empty, List.nil_append, List.nil_append] at apart
      rw [apart, List.dropWhile_cons_of_pos quote, List.dropWhile_cons_of_pos quote, ih]
    | false =>
      rw [List.dropWhile_cons_of_neg (by rw [quote]; decide)]
      -- a quote in front would have stood there before
      cases stripped : stripAllChars qualifiers (c :: cs) with
      | nil => rfl
      | cons d ds =>
        apply List.dropWhile_cons_of_neg
        intro quote'
        have first := head?_of_stripAllChars (isWall_of_isQuote quote')
          (fun q member => unquoted q member d quote') (congrArg List.head? stripped)
        rw [List.head?_cons, Option.some.injEq] at first
        rw [first, quote'] at quote
        cases quote

theorem rdropWhile_stripAllChars (cs : List Char) :
    (stripAllChars qualifiers cs).rdropWhile isQuote =
      stripAllChars qualifiers (cs.rdropWhile isQuote) := by
  induction cs using List.reverseRecOn with
  | nil => rw [stripAllChars_empty]; exact (stripAllChars_empty qualifiers).symm
  | append_singleton cs c ih =>
    cases quote : isQuote c with
    | true =>
      rw [stripAllChars_quote unquoted quote, stripAllChars_empty,
        List.rdropWhile_concat_pos _ _ _ quote, List.rdropWhile_concat_pos _ _ _ quote, ih]
    | false =>
      have other : ¬isQuote c = true := by rw [quote]; decide
      rw [List.rdropWhile_concat_neg _ _ _ other, List.rdropWhile_eq_self_iff]
      intro given
      have last := getLast?_stripAllChars qualifiers (cs ++ [c])
      rw [List.getLast?_eq_some_getLast given, List.getLast?_concat, Option.some.injEq] at last
      rw [last]
      exact other

/-- It makes no difference whether the quotes are taken off first. -/
theorem unquote_stripAllChars (cs : List Char) :
    unquote (stripAllChars qualifiers cs) = stripAllChars qualifiers (unquote cs) := by
  have both (cs : List Char) : unquote cs = (cs.dropWhile isQuote).rdropWhile isQuote := rfl
  rw [both, both, dropWhile_stripAllChars unquoted, rdropWhile_stripAllChars unquoted]

end

/-! ## Where sources go -/

/-- A text between quotes. -/
def isQuoted (cs : List Char) : Bool :=
  2 ≤ cs.length && cs.head?.any isQuote && cs.getLast?.any isQuote

/-- The node is a text between quotes and no types. -/
def isLiteral (source : List Char) (n : Tree) : Bool :=
  (ranges n).isEmpty && isQuoted (n.span.chars source)

theorem exists_of_isQuoted {cs : List Char} (quoted : isQuoted cs = true) :
    ∃ c body d, cs = c :: (body ++ [d]) ∧ isQuote c = true ∧ isQuote d = true := by
  simp only [isQuoted, Bool.and_eq_true, decide_eq_true_eq] at quoted
  obtain ⟨⟨long, first⟩, last⟩ := quoted
  cases cs with
  | nil => cases first
  | cons c cs =>
    rcases List.eq_nil_or_concat cs with rfl | ⟨body, d, rfl⟩
    · simp at long
    · rw [List.concat_eq_append] at last ⊢
      rw [← List.cons_append, List.getLast?_concat] at last
      exact ⟨c, body, d, rfl, first, last⟩

end Reading

/-- Where an offset of a text goes when the cuts are made and the qualifiers stripped. -/
def movedOffset (qualifiers : List String) (source : List Char) (cuts : List Span) (n : Nat) : Nat :=
  Text.byteLength (Qualifier.stripAllChars qualifiers (Text.kept source cuts ⟨0, n⟩))

def movedSpan (qualifiers : List String) (source : List Char) (cuts : List Span) (s : Span) : Span :=
  ⟨movedOffset qualifiers source cuts s.start, movedOffset qualifiers source cuts s.stop⟩

namespace Reading

open Erasure Qualifier

variable {qualifiers : List String} {source : List Char} {t n : Tree}

/-- What stands between quotes is stripped on its own, and then stands where it went. -/
theorem chars_movedSpan (unquoted : ∀ q ∈ qualifiers, ∀ c, isQuote c = true → c ∉ q.toList)
    (placed : t.isPlaced source 0 (Text.byteLength source) = true)
    (reaches : Reaches source t n) (literal : isLiteral source n = true) :
    (movedSpan qualifiers source (ranges t) n.span).chars
        (stripAllChars qualifiers (t.erase source)) =
      stripAllChars qualifiers (n.span.chars source) := by
  rw [isLiteral, Bool.and_eq_true, List.isEmpty_iff] at literal
  obtain ⟨c, body, d, quoted, first, last⟩ := exists_of_isQuoted literal.2
  have inside := reaches.inside.trans (Tree.span_of_isPlaced placed).2
  have ordered := reaches.valid.ordered
  let before := Text.kept source (ranges t) ⟨0, n.span.start⟩
  let after := Text.kept source (ranges t) ⟨n.span.stop, Text.byteLength source⟩
  have own : Text.kept source (ranges t) ⟨n.span.start, n.span.stop⟩ = n.span.chars source := by
    refine Text.kept_eq_chars reaches.valid fun i covered => ?_
    rw [reaches.alike i covered, literal.1]
    rfl
  have upTo : Text.kept source (ranges t) ⟨0, n.span.stop⟩ = before ++ n.span.chars source := by
    rw [Text.kept_split (Nat.zero_le _) ordered, own]
  have whole : t.erase source = before ++ (n.span.chars source ++ after) := by
    rw [Tree.erase_eq_kept placed, Text.kept_split (Nat.zero_le _) inside.2, upTo,
      List.append_assoc]
  -- the quotes are walls on both sides
  have apart (as bs : List Char) :
      stripAllChars qualifiers (as ++ (n.span.chars source ++ bs)) =
        stripAllChars qualifiers as ++
          (stripAllChars qualifiers (n.span.chars source) ++ stripAllChars qualifiers bs) := by
    have front := stripAllChars_quote unquoted first [] (body ++ [d])
    have back := stripAllChars_quote unquoted last body []
    have both := stripAllChars_quote unquoted first as (body ++ d :: bs)
    rw [stripAllChars_quote unquoted last] at both
    rw [stripAllChars_empty, List.nil_append, List.nil_append] at front
    rw [stripAllChars_empty] at back
    rw [quoted, front, back]
    simpa only [List.cons_append, List.append_assoc, List.nil_append] using both
  have stop := apart before []
  rw [stripAllChars_empty, List.append_nil, List.append_nil, ← upTo] at stop
  rw [movedSpan, movedOffset, movedOffset, stop, Text.byteLength_append, whole, apart]
  exact Span.chars_between _ _ _

end Reading

/-! ## Modules of a text and of the prepared text -/

open Qualifier Reading

theorem importedModules_of_ok {parse : SourceParser} {source : List Char} {t : Tree}
    (parsed : parse source = .ok t) :
    importedModules parse source =
      (importedSources t.children).map fun n => moduleAt source n.span := by
  rw [importedModules, Program.ofSource, parsed]
  exact importedModules_ofTree source t

theorem prepare_of_ok {parse : SourceParser} {source : String} {t : Tree} (g : Grammar)
    (parsed : parse source.toList = .ok t) :
    prepare parse g source = .ok (stripAllChars g.qualifiers (t.erase source.toList)) := by
  simp only [prepare, eraseTypes, parsed]
  rfl

theorem moduleAt_movedSpan {qualifiers : List String} {source : List Char} {t n : Tree}
    (unquoted : ∀ q ∈ qualifiers, ∀ c, isQuote c = true → c ∉ q.toList)
    (placed : t.isPlaced source 0 (Text.byteLength source) = true)
    (reaches : Erasure.Reaches source t n) (literal : isLiteral source n = true) :
    moduleAt (stripAllChars qualifiers (t.erase source))
        (movedSpan qualifiers source (Erasure.ranges t) n.span) =
      stripAll qualifiers (moduleAt source n.span) := by
  rw [moduleAt, chars_movedSpan unquoted placed reaches literal, unquote_stripAllChars unquoted,
    stripAllChars, String.ofList_toList]
  rfl

theorem eq_map_stripAll_iff (qualifiers : List String) (ms : List String) :
    ms = ms.map (stripAll qualifiers) ↔ ∀ m ∈ ms, stripAll qualifiers m = m := by
  induction ms with
  | nil => exact ⟨fun _ => List.forall_mem_nil _, fun _ => rfl⟩
  | cons m ms ih =>
    rw [List.map_cons, List.cons.injEq, ih, List.forall_mem_cons, eq_comm]

end Dialect
