import Dialect.Compilation
import Dialect.Emission.Rendering
import Dialect.Parsing.Program
import Dialect.Proofs.KeptText
import Dialect.Proofs.Operands

/-!
# Cutting keywords

Where the spans of an expression lie in one another and siblings share nothing, the keywords of its
constructions lie apart. Main statement: the text of such an expression without `new` is the text of
its span without the keyword of every construction that is a node of it.
-/

namespace Dialect

/-! ## Keywords of an expression -/

namespace Expr

variable {source : List Char}

/-- Where the keyword of a construction stands, with the blanks behind it. -/
def keyword? (source : List Char) : Expr → Option Span
  | construct _ _ s =>
    (Text.stripStart? "new".toList (s.chars source)).map fun rest =>
      ⟨s.start, s.start + 3 + Text.byteLength (rest.takeWhile Text.isBlank)⟩
  | _ => none

/-- The keywords of the constructions among the nodes. -/
def keywordSpans (source : List Char) (e : Expr) : List Span :=
  e.nodes.filterMap (keyword? source)

/-- The nodes select parts of the text, operands lie inside the node they belong to and share
nothing with one another, and those of a construction lie behind its keyword. -/
structure Arranged (source : List Char) (e : Expr) : Prop where
  valid : ∀ n ∈ e.nodes, n.span.Valid source
  inside : ∀ n ∈ e.nodes, ∀ o ∈ n.operands, o.span.Inside n.span
  disjoint : ∀ n ∈ e.nodes, n.operands.Pairwise fun o p => o.span.Disjoint p.span
  behind : ∀ n ∈ e.nodes, ∀ k ∈ n.keyword? source, ∀ o ∈ n.operands, k.stop ≤ o.span.start

theorem Arranged.operand {e o : Expr} (arranged : e.Arranged source) (operand : o ∈ e.operands) :
    o.Arranged source where
  valid n below := arranged.valid n (mem_nodes_of_operand operand below)
  inside n below := arranged.inside n (mem_nodes_of_operand operand below)
  disjoint n below := arranged.disjoint n (mem_nodes_of_operand operand below)
  behind n below := arranged.behind n (mem_nodes_of_operand operand below)

theorem keywordSpans_eq (e : Expr) :
    e.keywordSpans source =
      (e.keyword? source).toList ++ e.operands.flatMap (keywordSpans source) := by
  have below : (e.operands.flatMap nodes).filterMap (keyword? source) =
      e.operands.flatMap (keywordSpans source) := List.filterMap_flatMap
  rw [keywordSpans, nodes_eq, List.filterMap_cons, below]
  cases e.keyword? source <;> rfl

theorem mem_keywordSpans {e : Expr} {k : Span} :
    k ∈ e.keywordSpans source ↔
      e.keyword? source = some k ∨ ∃ o ∈ e.operands, k ∈ o.keywordSpans source := by
  rw [keywordSpans_eq, List.mem_append, List.mem_flatMap, Option.mem_toList]

/-- A keyword stands at the front of its construction and is a part of the text. -/
theorem keyword?_placed {e : Expr} {k : Span} (valid : e.span.Valid source)
    (found : e.keyword? source = some k) :
    k.Inside e.span ∧ k.start < k.stop ∧ k.Valid source := by
  unfold keyword? at found
  split at found
  · next callee args s =>
    obtain ⟨rest, text, rfl⟩ := Option.map_eq_some_iff.mp found
    have divided := List.takeWhile_append_dropWhile (p := Text.isBlank) (l := rest)
    have whole := Text.stripStart?_eq_some_iff.mp text
    rw [← divided, ← List.append_assoc] at whole
    have length : Text.byteLength ("new".toList ++ rest.takeWhile Text.isBlank) =
        3 + Text.byteLength (rest.takeWhile Text.isBlank) := Text.byteLength_append _ _
    obtain ⟨front, within⟩ := Span.Valid.front valid whole
    simp only [span, length, ← Nat.add_assoc] at front within
    refine ⟨⟨Nat.le_refl _, within⟩, ?_, front⟩
    simp only
    omega
  · cases found

theorem Arranged.keywordSpans_placed {e : Expr} (arranged : e.Arranged source) :
    ∀ k ∈ e.keywordSpans source, k.Inside e.span ∧ k.start < k.stop ∧ k.Valid source := by
  induction e using operand_induction with
  | step e ih =>
    intro k member
    have self := e.mem_nodes_self
    rcases mem_keywordSpans.mp member with own | ⟨o, operand, below⟩
    · exact keyword?_placed (arranged.valid e self) own
    · obtain ⟨within, given, valid⟩ := ih o operand (arranged.operand operand) k below
      exact ⟨within.trans (arranged.inside e self o operand), given, valid⟩

/-- The keywords of different constructions lie apart, whether one is inside the other or not. -/
theorem Arranged.keywordSpans_apart {e : Expr} (arranged : e.Arranged source) :
    (e.keywordSpans source).Pairwise Span.Apart := by
  induction e using operand_induction with
  | step e ih =>
    have self := e.mem_nodes_self
    have placed (o : Expr) (operand : o ∈ e.operands) :=
      (arranged.operand operand).keywordSpans_placed
    rw [keywordSpans_eq, List.pairwise_append]
    refine ⟨?_, ?_, ?_⟩
    · cases e.keyword? source with
      | none => exact .nil
      | some k => exact List.pairwise_singleton _ k
    · rw [List.pairwise_flatMap]
      refine ⟨fun o operand => ih o operand (arranged.operand operand), ?_⟩
      refine (arranged.disjoint e self).imp_of_mem ?_
      intro o p left right disjoint k member l member'
      obtain ⟨within, given, -⟩ := placed o left k member
      obtain ⟨within', given', -⟩ := placed p right l member'
      exact disjoint.apart within within' given given'
    · intro k own l member
      obtain ⟨o, operand, below⟩ := List.mem_flatMap.mp member
      have behind := arranged.behind e self k (Option.mem_toList.mp own) o operand
      exact .inl (Nat.le_trans behind (placed o operand l below).1.1)

end Expr

namespace Construction

theorem keywordsOf_eq_flatMap (source : List Char) (es : List Expr) :
    keywordsOf source es = es.flatMap (keywords source) := by
  induction es with
  | nil => rfl
  | cons e es ih => rw [keywordsOf, ih, List.flatMap_cons]

theorem keyword?_eq (source : List Char) (callee : Expr) (args : List Expr) (s : Span) :
    keyword? source s = (Expr.construct callee args s).keyword? source := by
  have blanks (rest : List Char) : Text.byteLength rest - Text.byteLength (Text.trimStart rest) =
      Text.byteLength (rest.takeWhile Text.isBlank) := by
    have divided := List.takeWhile_append_dropWhile (p := Text.isBlank) (l := rest)
    have length := congrArg Text.byteLength divided
    rw [Text.byteLength_append] at length
    rw [Text.trimStart]
    omega
  rw [keyword?, Expr.keyword?]
  split
  · next rest text =>
    have begins : Text.stripStart? "new".toList (s.chars source) = some rest :=
      Text.stripStart?_eq_some_iff.mpr text
    rw [begins, Option.map_some, ← blanks, Nat.add_assoc]
  · next other =>
    cases begins : Text.stripStart? "new".toList (s.chars source) with
    | none => rfl
    | some rest => exact absurd (Text.stripStart?_eq_some_iff.mp begins) (other rest)

theorem keywords_eq_keywordSpans (source : List Char) (e : Expr) :
    keywords source e = e.keywordSpans source := by
  induction e using Expr.operand_induction with
  | step e ih =>
    have below : e.operands.flatMap (keywords source) =
        e.operands.flatMap (Expr.keywordSpans source) :=
      List.flatMap_congr ih
    rw [Expr.keywordSpans_eq, ← below]
    cases e with
    | construct callee args s =>
      rw [keywords, keyword?_eq source callee args, keywordsOf_eq_flatMap, Expr.operands,
        List.flatMap_cons, List.append_assoc]
    | _ => simp [keywords, keywordsOf_eq_flatMap, Expr.operands, Expr.keyword?]

end Construction

namespace Context

variable (c : Context) {e : Expr}

theorem withoutNew_eq_kept (plain : c.grammar.classes.keepsNew = false)
    (arranged : e.Arranged c.source) :
    (c.withoutNew e).toList = Text.kept c.source (e.keywordSpans c.source) e.span := by
  have placed := arranged.keywordSpans_placed
  rw [withoutNew, plain, if_neg Bool.false_ne_true, Construction.withoutKeywords,
    String.toList_ofList, Construction.keywords_eq_keywordSpans]
  exact Cut.within_eq_kept (arranged.valid e e.mem_nodes_self) (fun k member => (placed k member).1)
    (fun k member => (placed k member).2.2) arranged.keywordSpans_apart

/-- Where constructions lose their keyword, the text of an expression is that of its span without
the characters in the keyword of some construction among its nodes. -/
theorem withoutNew_cuts_keywords (plain : c.grammar.classes.keepsNew = false)
    (arranged : e.Arranged c.source) :
    (c.withoutNew e).toList =
      ((Text.placed 0 c.source).filter fun p =>
        e.span.covers p.1 &&
          !e.nodes.any fun n => (n.keyword? c.source).any fun k => k.covers p.1).map Prod.snd := by
  rw [c.withoutNew_eq_kept plain arranged, Text.kept]
  simp only [Expr.keywordSpans, List.any_filterMap]
  rfl

theorem withoutNew_cuts_keywords_nested :
    let text := "x = new new A(\"é new \")(f(new  B));".toList
    let c : Context := ⟨.python, text⟩
    let inner : Expr := .construct (.ident "A" ⟨12, 13⟩) [.literal .string ⟨14, 23⟩] ⟨8, 24⟩
    let last : Expr := .construct (.ident "B" ⟨32, 33⟩) [] ⟨27, 33⟩
    let e : Expr := .assign (.ident "x" ⟨0, 1⟩) "="
      (.construct (.call inner [.call (.ident "f" ⟨25, 26⟩) [last] ⟨25, 34⟩] ⟨8, 35⟩) [] ⟨4, 35⟩)
      ⟨0, 35⟩
    ((Program.ofTree text (Tree.parse text)).emit .python text).text .python = "x = A(\"é new \")(f(B))\n" ∧
      c.grammar.classes.keepsNew = false ∧ e.Arranged text ∧
      c.withoutNew e = "x = A(\"é new \")(f(B))" ∧
      (c.withoutNew e).toList =
        ((Text.placed 0 text).filter fun p =>
          e.span.covers p.1 &&
            !e.nodes.any fun n => (n.keyword? text).any fun k => k.covers p.1).map Prod.snd := by
  intro text c inner last e
  have plain : c.grammar.classes.keepsNew = false := rfl
  have arranged : e.Arranged text := ⟨by decide, by decide, by decide, by decide⟩
  exact ⟨by decide +kernel, plain, arranged, by decide +kernel,
    c.withoutNew_cuts_keywords plain arranged⟩

end Context

end Dialect
