import Dialect.Proofs.Nesting
import Dialect.Proofs.Places
import Mathlib.Data.List.Basic

/-!
# The text that cuts leave

The characters of a text have places, the offsets of their first bytes. Cuts that lie apart in a
span leave the characters of the span whose places lie in no cut: of all cuts only empty ones are
ever passed over.
-/

namespace Dialect

/-! ## Places -/

namespace Text

/-- The characters of a text, the first of which has the place `n`. -/
def placed (n : Nat) : List Char → List (Nat × Char)
  | [] => []
  | ch :: cs => (n, ch) :: placed (n + ch.utf8Size) cs

theorem placed_append (n : Nat) (as bs : List Char) :
    placed n (as ++ bs) = placed n as ++ placed (n + byteLength as) bs := by
  induction as generalizing n with
  | nil => rfl
  | cons ch as ih =>
    rw [List.cons_append, placed, placed, ih, byteLength_cons, Nat.add_assoc, List.cons_append]

theorem placed_between {n : Nat} {cs : List Char} :
    ∀ p ∈ placed n cs, n ≤ p.1 ∧ p.1 < n + byteLength cs := by
  induction cs generalizing n with
  | nil => exact List.forall_mem_nil _
  | cons ch cs ih =>
    have positive := ch.utf8Size_pos
    intro p member
    rw [byteLength_cons]
    rcases List.mem_cons.mp member with rfl | later
    · exact ⟨Nat.le_refl n, by omega⟩
    · have := ih p later
      omega

theorem placed_increasing (n : Nat) (cs : List Char) :
    (placed n cs).Pairwise fun p q => p.1 < q.1 := by
  induction cs generalizing n with
  | nil => exact .nil
  | cons ch cs ih =>
    have positive := ch.utf8Size_pos
    refine .cons (fun q later => ?_) (ih _)
    have := placed_between q later
    omega

theorem map_snd_placed (n : Nat) (cs : List Char) : (placed n cs).map Prod.snd = cs := by
  induction cs generalizing n with
  | nil => rfl
  | cons ch cs ih => rw [placed, List.map_cons, ih]

end Text

namespace Span

def covers (s : Span) (i : Nat) : Bool :=
  s.start ≤ i && i < s.stop

/-- The spans share no byte. -/
def Disjoint (s t : Span) : Prop :=
  min s.stop t.stop ≤ max s.start t.start

instance (s t : Span) : Decidable (s.Disjoint t) :=
  inferInstanceAs (Decidable (_ ≤ _))

/-- The span selects a part of the text. -/
structure Valid (source : List Char) (s : Span) : Prop where
  ordered : s.start ≤ s.stop
  starts : Text.isBoundary source s.start = true
  stops : Text.isBoundary source s.stop = true

instance (source : List Char) (s : Span) : Decidable (s.Valid source) :=
  decidable_of_iff
    (s.start ≤ s.stop ∧ Text.isBoundary source s.start = true ∧
      Text.isBoundary source s.stop = true)
    ⟨fun h => ⟨h.1, h.2.1, h.2.2⟩, fun h => ⟨h.ordered, h.starts, h.stops⟩⟩

theorem covers_iff {s : Span} {i : Nat} : s.covers i = true ↔ s.start ≤ i ∧ i < s.stop := by
  simp [covers]

theorem covers_mk_iff {lo hi i : Nat} : (⟨lo, hi⟩ : Span).covers i = true ↔ lo ≤ i ∧ i < hi :=
  covers_iff

theorem Disjoint.symm {s t : Span} (disjoint : s.Disjoint t) : t.Disjoint s := by
  unfold Disjoint at disjoint ⊢
  omega

/-- Of two spans that share nothing and are not empty, one lies before the other. -/
theorem Disjoint.apart {s t s' t' : Span} (disjoint : s.Disjoint t) (left : s'.Inside s)
    (right : t'.Inside t) (given : s'.start < s'.stop) (given' : t'.start < t'.stop) :
    s'.Apart t' := by
  unfold Disjoint at disjoint
  unfold Inside at left right
  unfold Apart Before
  omega

theorem Disjoint.not_covers {s t : Span} {i : Nat} (disjoint : s.Disjoint t)
    (inside : s.covers i = true) : t.covers i = false := by
  unfold Disjoint at disjoint
  rw [covers_iff] at inside
  rw [← Bool.not_eq_true, covers_iff]
  omega

theorem Valid.whole (source : List Char) : (⟨0, Text.byteLength source⟩ : Span).Valid source where
  ordered := Nat.zero_le _
  starts := Text.isBoundary_iff.mpr ⟨[], source, rfl, rfl⟩
  stops := Text.isBoundary_iff.mpr ⟨source, [], (List.append_nil source).symm, rfl⟩

/-- The text around a part of it. -/
theorem Valid.exists_split {source : List Char} {s : Span} (valid : s.Valid source) :
    ∃ before after, source = before ++ (s.chars source ++ after) ∧
      s.start = Text.byteLength before ∧
      s.stop = Text.byteLength before + Text.byteLength (s.chars source) := by
  obtain ⟨before, more, same, starts⟩ := Text.isBoundary_iff.mp valid.starts
  obtain ⟨upTo, after, same', stops⟩ := Text.isBoundary_iff.mp valid.stops
  have ordered := valid.ordered
  obtain ⟨part, rfl⟩ := Text.exists_append_of_byteLength_le (same.symm.trans same') (by omega)
  rw [List.append_assoc] at same'
  rw [Text.byteLength_append] at stops
  have text : s.chars source = part := by
    have whole : s = ⟨Text.byteLength before, Text.byteLength before + Text.byteLength part⟩ := by
      rw [stops, starts]
    rw [whole, same', chars_between]
  exact ⟨before, after, by rw [text]; exact same', starts.symm, by rw [text]; exact stops.symm⟩

/-- The front of a part of the text is one. -/
theorem Valid.front {source as bs : List Char} {s : Span} (valid : s.Valid source)
    (text : s.chars source = as ++ bs) :
    (⟨s.start, s.start + Text.byteLength as⟩ : Span).Valid source ∧
      s.start + Text.byteLength as ≤ s.stop := by
  obtain ⟨before, after, same, starts, stops⟩ := valid.exists_split
  rw [text, List.append_assoc] at same
  rw [text, Text.byteLength_append] at stops
  refine ⟨⟨Nat.le_add_right _ _, valid.starts, ?_⟩, by omega⟩
  refine Text.isBoundary_iff.mpr ⟨before ++ as, bs ++ after, ?_, ?_⟩
  · rw [List.append_assoc]
    exact same
  · rw [Text.byteLength_append, ← starts]

end Span

/-! ## What cuts leave -/

namespace Text

/-- The characters of a span that lie in none of the cuts. -/
def kept (source : List Char) (cuts : List Span) (s : Span) : List Char :=
  ((placed 0 source).filter fun p => s.covers p.1 && !cuts.any (·.covers p.1)).map Prod.snd

variable {source : List Char} {cuts : List Span}

theorem kept_congr {cuts' : List Span} {s : Span}
    (alike : ∀ i, s.covers i = true → cuts.any (·.covers i) = cuts'.any (·.covers i)) :
    kept source cuts s = kept source cuts' s := by
  unfold kept
  congr 1
  apply List.filter_congr
  intro p _
  cases inside : s.covers p.1 with
  | false => rfl
  | true => rw [alike p.1 inside]

theorem kept_split {lo mid hi : Nat} (before : lo ≤ mid) (behind : mid ≤ hi) :
    kept source cuts ⟨lo, hi⟩ = kept source cuts ⟨lo, mid⟩ ++ kept source cuts ⟨mid, hi⟩ := by
  unfold kept
  rw [← List.map_append]
  congr 1
  have sorted := placed_increasing 0 source
  generalize placed 0 source = ps at sorted
  induction ps with
  | nil => rfl
  | cons p ps ih =>
    obtain ⟨first, sorted⟩ := List.pairwise_cons.mp sorted
    simp only [List.filter_cons, ih sorted]
    by_cases low : p.1 < mid
    · have left : (⟨lo, hi⟩ : Span).covers p.1 = (⟨lo, mid⟩ : Span).covers p.1 := by
        simp only [Span.covers]
        grind
      have right : (⟨mid, hi⟩ : Span).covers p.1 = false := by
        simp only [Span.covers]
        grind
      rw [left, right]
      split <;> simp
    · -- from here on nothing lies below `mid`
      have none : ps.filter (fun q =>
          (⟨lo, mid⟩ : Span).covers q.1 && !cuts.any (·.covers q.1)) = [] := by
        apply List.filter_eq_nil_iff.mpr
        intro q later
        have := first q later
        simp only [Span.covers]
        grind
      have left : (⟨lo, mid⟩ : Span).covers p.1 = false := by
        simp only [Span.covers]
        grind
      have right : (⟨lo, hi⟩ : Span).covers p.1 = (⟨mid, hi⟩ : Span).covers p.1 := by
        simp only [Span.covers]
        grind
      rw [none, left, right]
      simp

theorem kept_eq_nil {s : Span} (cut : ∀ i, s.covers i = true → cuts.any (·.covers i) = true) :
    kept source cuts s = [] := by
  unfold kept
  rw [List.map_eq_nil_iff, List.filter_eq_nil_iff]
  intro p _
  cases inside : s.covers p.1 with
  | false => simp
  | true => simp [cut p.1 inside]

/-- Without cuts in it, a part of the text is kept. -/
theorem kept_eq_chars {s : Span} (valid : s.Valid source)
    (uncut : ∀ i, s.covers i = true → cuts.any (·.covers i) = false) :
    kept source cuts s = s.chars source := by
  obtain ⟨before, after, same, starts, stops⟩ := valid.exists_split
  have inside (p : Nat × Char) :
      (s.covers p.1 && !cuts.any (·.covers p.1)) = s.covers p.1 := by
    cases inside : s.covers p.1 with
    | false => rfl
    | true => rw [uncut p.1 inside]; rfl
  unfold kept
  simp only [inside]
  generalize s.chars source = part at same stops
  rw [same, placed_append, placed_append, List.filter_append, List.filter_append, Nat.zero_add]
  have first : (placed 0 before).filter (fun p => s.covers p.1) = [] := by
    apply List.filter_eq_nil_iff.mpr
    intro p member
    have := placed_between p member
    rw [Span.covers_iff]
    omega
  have second : (placed (byteLength before) part).filter (fun p => s.covers p.1) =
      placed (byteLength before) part := by
    apply List.filter_eq_self.mpr
    intro p member
    have := placed_between p member
    rw [Span.covers_iff]
    omega
  have third : (placed (byteLength before + byteLength part) after).filter
      (fun p => s.covers p.1) = [] := by
    apply List.filter_eq_nil_iff.mpr
    intro p member
    have := placed_between p member
    rw [Span.covers_iff]
    omega
  rw [first, second, third, List.append_nil, List.nil_append, map_snd_placed]

end Text

namespace Cut

theorem insertByStart_sorted {s : Span} {spans : List Span}
    (sorted : spans.Pairwise fun s t => s.start ≤ t.start) :
    (insertByStart s spans).Pairwise fun s t => s.start ≤ t.start := by
  induction spans with
  | nil => exact List.pairwise_singleton _ s
  | cons t ts ih =>
    obtain ⟨first, sorted'⟩ := List.pairwise_cons.mp sorted
    unfold insertByStart
    split
    · next le =>
      refine .cons (fun u member => ?_) sorted
      rcases List.mem_cons.mp member with rfl | later
      · exact le
      · exact Nat.le_trans le (first u later)
    · next lt =>
      refine .cons (fun u member => ?_) (ih sorted')
      rcases List.mem_cons.mp ((insertByStart_perm s ts).mem_iff.mp member) with rfl | later
      · omega
      · exact first u later

theorem sortByStart_sorted (spans : List Span) :
    (sortByStart spans).Pairwise fun s t => s.start ≤ t.start := by
  induction spans with
  | nil => exact .nil
  | cons s spans ih => exact insertByStart_sorted ih

/-- Everything up to `pos` has been dealt with: the cuts that are left are parts of the text up to
`stop`, in order of their starts and apart from one another. Only empty ones may begin before
`pos`. -/
structure Ready (source : List Char) (stop pos : Nat) (cuts : List Span) : Prop where
  valid : (⟨pos, stop⟩ : Span).Valid source
  valids : ∀ cut ∈ cuts, cut.Valid source
  inside : ∀ cut ∈ cuts, cut.stop ≤ stop
  ahead : ∀ cut ∈ cuts, pos ≤ cut.start ∨ cut.isEmpty = true
  sorted : cuts.Pairwise fun s t => s.start ≤ t.start
  apart : cuts.Pairwise Span.Apart

section

variable {source : List Char} {stop pos : Nat} {cut : Span} {cuts : List Span}

/-- A cut that is left alone is empty. -/
theorem Ready.skip (ready : Ready source stop pos (cut :: cuts))
    (skipped : (decide (cut.start < pos) || decide (stop < cut.stop)) = true) :
    cut.isEmpty = true ∧ Ready source stop pos cuts := by
  have inside := ready.inside cut List.mem_cons_self
  rw [Bool.or_eq_true, decide_eq_true_eq, decide_eq_true_eq] at skipped
  refine ⟨?_, ready.valid, (List.forall_mem_cons.mp ready.valids).2,
    (List.forall_mem_cons.mp ready.inside).2, (List.forall_mem_cons.mp ready.ahead).2,
    (List.pairwise_cons.mp ready.sorted).2, (List.pairwise_cons.mp ready.apart).2⟩
  rcases ready.ahead cut List.mem_cons_self with ahead | empty
  · omega
  · exact empty

/-- Behind a cut that is made, only empty cuts can begin before its end. -/
theorem Ready.take (ready : Ready source stop pos (cut :: cuts))
    (taken : ¬(decide (cut.start < pos) || decide (stop < cut.stop)) = true) :
    pos ≤ cut.start ∧ Ready source stop cut.stop cuts := by
  rw [Bool.or_eq_true, decide_eq_true_eq, decide_eq_true_eq] at taken
  obtain ⟨slice, valids⟩ := List.forall_mem_cons.mp ready.valids
  obtain ⟨inside, insides⟩ := List.forall_mem_cons.mp ready.inside
  obtain ⟨first, sorted⟩ := List.pairwise_cons.mp ready.sorted
  obtain ⟨alone, apart⟩ := List.pairwise_cons.mp ready.apart
  refine ⟨by omega, ⟨inside, slice.stops, ready.valid.stops⟩, valids, insides, ?_, sorted, apart⟩
  intro later member
  have starts := first later member
  rcases alone later member with before | behind
  · exact .inl before
  · -- it ends where the cut begins, and does not begin before that
    have ordered := slice.ordered
    unfold Span.Before at behind
    exact .inr (decide_eq_true (by omega))

/-- Cuts that lie apart in a span are ready to be made once they are in order. -/
theorem Ready.start {s : Span} (valid : s.Valid source) (inside : ∀ cut ∈ cuts, cut.Inside s)
    (valids : ∀ cut ∈ cuts, cut.Valid source) (apart : cuts.Pairwise Span.Apart) :
    Ready source s.stop s.start (sortByStart cuts) := by
  have perm := sortByStart_perm cuts
  constructor
  · exact valid
  · exact fun cut member => valids cut (perm.mem_iff.mp member)
  · exact fun cut member => (inside cut (perm.mem_iff.mp member)).2
  · exact fun cut member => .inl (inside cut (perm.mem_iff.mp member)).1
  · exact sortByStart_sorted cuts
  · exact (perm.pairwise_iff fun h => h.symm).mpr apart

/-- All that the cuts do not cover is kept. -/
theorem keep_eq_kept (ready : Ready source stop pos cuts) :
    keep source stop pos cuts = Text.kept source cuts ⟨pos, stop⟩ := by
  induction cuts generalizing pos with
  | nil => exact (Text.kept_eq_chars ready.valid fun i _ => rfl).symm
  | cons cut cuts ih =>
    rw [keep]
    split
    · next skipped =>
      obtain ⟨empty, ready⟩ := ready.skip skipped
      rw [ih ready]
      apply Text.kept_congr
      intro i _
      have nothing : cut.covers i = false := by
        rw [Span.isEmpty, decide_eq_true_eq] at empty
        rw [← Bool.not_eq_true, Span.covers_iff]
        omega
      rw [List.any_cons, nothing, Bool.false_or]
    · next taken =>
      obtain ⟨low, rest⟩ := ready.take taken
      have slice := ready.valids cut List.mem_cons_self
      have forward := slice.ordered
      have high := rest.valid.ordered
      have first := (List.pairwise_cons.mp ready.sorted).1
      have left : Text.kept source (cut :: cuts) ⟨pos, cut.start⟩ =
          Span.chars source ⟨pos, cut.start⟩ := by
        have early : (⟨pos, cut.start⟩ : Span).Valid source :=
          ⟨low, ready.valid.starts, slice.starts⟩
        apply Text.kept_eq_chars early
        intro i at_i
        rw [Span.covers_mk_iff] at at_i
        rw [List.any_eq_false]
        intro c member
        rw [Span.covers_iff]
        rcases List.mem_cons.mp member with rfl | later
        · omega
        · have := first c later
          omega
      have middle : Text.kept source (cut :: cuts) ⟨cut.start, cut.stop⟩ = [] :=
        Text.kept_eq_nil fun i at_i => by rw [List.any_cons, at_i, Bool.true_or]
      have right : Text.kept source (cut :: cuts) ⟨cut.stop, stop⟩ =
          Text.kept source cuts ⟨cut.stop, stop⟩ := by
        apply Text.kept_congr
        intro i at_i
        rw [Span.covers_mk_iff] at at_i
        have past : cut.covers i = false := by
          rw [← Bool.not_eq_true, Span.covers_iff]
          omega
        rw [List.any_cons, past, Bool.false_or]
      rw [ih rest, Text.kept_split low (Nat.le_trans forward high), Text.kept_split forward high,
        left, middle, right, List.nil_append]

end

/-- Cuts that lie apart in a span leave exactly what they do not cover. -/
theorem within_eq_kept {source : List Char} {cuts : List Span} {s : Span} (valid : s.Valid source)
    (inside : ∀ cut ∈ cuts, cut.Inside s) (valids : ∀ cut ∈ cuts, cut.Valid source)
    (apart : cuts.Pairwise Span.Apart) :
    within source s cuts = Text.kept source cuts s := by
  rw [within, keep_eq_kept (.start valid inside valids apart)]
  exact Text.kept_congr fun i _ => (sortByStart_perm cuts).any_eq

end Cut

end Dialect
