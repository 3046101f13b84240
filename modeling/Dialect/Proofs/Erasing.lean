import Dialect.Erasure
import Dialect.Parsing.Program
import Dialect.Proofs.KeptText

/-!
# Erasing types

The types of a tree lie apart from one another, however casts and operands are nested, so cutting
them out leaves every other byte of the text. Main statement: of a tree whose nodes lie in their
parents and behind their siblings, no type is passed over, every slice that is copied is a part of
the text, and the bytes that are left are those that lie in no type.
-/

namespace Dialect

/-! ## What the cutting copies and passes over -/

namespace Cut

/-- The parts of the text that are copied. -/
def copied (stop : Nat) : Nat → List Span → List Span
  | pos, [] => [⟨pos, stop⟩]
  | pos, cut :: cuts =>
    if cut.start < pos || stop < cut.stop then copied stop pos cuts
    else ⟨pos, cut.start⟩ :: copied stop cut.stop cuts

/-- The cuts that are left alone. -/
def skipped (stop : Nat) : Nat → List Span → List Span
  | _, [] => []
  | pos, cut :: cuts =>
    if cut.start < pos || stop < cut.stop then cut :: skipped stop pos cuts
    else skipped stop cut.stop cuts

theorem keep_eq_copied (source : List Char) (stop pos : Nat) (cuts : List Span) :
    keep source stop pos cuts = (copied stop pos cuts).flatMap (Span.chars source) := by
  induction cuts generalizing pos with
  | nil => simp [keep, copied]
  | cons cut cuts ih =>
    rw [keep, copied]
    split
    · exact ih pos
    · rw [ih, List.flatMap_cons]

variable {source : List Char} {stop pos : Nat} {cuts : List Span}

theorem Ready.valid_copied (ready : Ready source stop pos cuts) :
    ∀ part ∈ copied stop pos cuts, part.Valid source := by
  induction cuts generalizing pos with
  | nil => exact List.forall_mem_singleton.mpr ready.valid
  | cons cut cuts ih =>
    rw [copied]
    split
    · next skipped => exact ih (ready.skip skipped).2
    · next taken =>
      obtain ⟨low, rest⟩ := ready.take taken
      have slice := ready.valids cut List.mem_cons_self
      exact List.forall_mem_cons.mpr ⟨⟨low, ready.valid.starts, slice.starts⟩, ih rest⟩

theorem Ready.isEmpty_skipped (ready : Ready source stop pos cuts) :
    ∀ cut ∈ skipped stop pos cuts, cut.isEmpty = true := by
  induction cuts generalizing pos with
  | nil => exact List.forall_mem_nil _
  | cons cut cuts ih =>
    rw [skipped]
    split
    · next skipped =>
      obtain ⟨empty, rest⟩ := ready.skip skipped
      exact List.forall_mem_cons.mpr ⟨empty, ih rest⟩
    · next taken => exact ih (ready.take taken).2

end Cut

theorem Span.Valid.isSome_slice? {source : List Char} {s : Span} (valid : s.Valid source) :
    (s.slice? source).isSome = true := by
  obtain ⟨before, after, text, starts, stops⟩ := valid.exists_split
  generalize s.chars source = part at text stops
  have shape : s = ⟨Text.byteLength before, Text.byteLength before + Text.byteLength part⟩ := by
    rw [← stops, ← starts]
  rw [shape, text, slice?_between]
  rfl

/-! ## Bytes -/

namespace Text

/-- The bytes of a text. -/
def bytes (cs : List Char) : List UInt8 :=
  cs.flatMap String.utf8EncodeChar

/-- The bytes at the places that are not dropped. -/
def bytesLeft (dropped : Nat → Bool) (n : Nat) (bs : List UInt8) : List UInt8 :=
  ((bs.zipIdx n).filter fun b => !dropped b.2).map Prod.fst

theorem bytesLeft_append (dropped : Nat → Bool) (n : Nat) (as bs : List UInt8) :
    bytesLeft dropped n (as ++ bs) =
      bytesLeft dropped n as ++ bytesLeft dropped (n + as.length) bs := by
  rw [bytesLeft, List.zipIdx_append, List.filter_append, List.map_append]
  rfl

/-- Bytes that share their fate are kept or dropped together. -/
theorem bytesLeft_uniform {dropped : Nat → Bool} {n : Nat} {bs : List UInt8}
    (uniform : ∀ i, n ≤ i → i < n + bs.length → dropped i = dropped n) :
    bytesLeft dropped n bs = if dropped n then [] else bs := by
  have each : ∀ b ∈ bs.zipIdx n, dropped b.2 = dropped n := by
    intro b member
    obtain ⟨low, high, -⟩ := List.mem_zipIdx member
    exact uniform b.2 low high
  rw [bytesLeft]
  split
  · next drop =>
    rw [List.map_eq_nil_iff, List.filter_eq_nil_iff]
    intro b member
    simp [each b member, drop]
  · next keep =>
    rw [List.filter_eq_self.mpr, List.zipIdx_map_fst]
    intro b member
    simp [each b member, keep]

/-- Dropping characters drops their bytes, where no character is dropped in part. -/
theorem bytes_filter_placed (dropped : Nat → Bool) {n : Nat} {cs : List Char}
    (uniform : ∀ p ∈ placed n cs, ∀ i, p.1 ≤ i → i < p.1 + p.2.utf8Size → dropped i = dropped p.1) :
    bytes (((placed n cs).filter fun p => !dropped p.1).map Prod.snd) =
      bytesLeft dropped n (bytes cs) := by
  induction cs generalizing n with
  | nil => rfl
  | cons c cs ih =>
    obtain ⟨first, later⟩ := List.forall_mem_cons.mp uniform
    have size := String.length_utf8EncodeChar c
    have alike : bytesLeft dropped n (String.utf8EncodeChar c) =
        if dropped n then [] else String.utf8EncodeChar c := by
      apply bytesLeft_uniform
      rw [size]
      exact first
    have split : bytes (c :: cs) = String.utf8EncodeChar c ++ bytes cs := rfl
    rw [split, bytesLeft_append, size, alike, ← ih later, placed]
    cases drop : dropped n with
    | true => simp [drop]
    | false => simp [drop, bytes]

theorem mem_placed {n : Nat} {cs : List Char} {p : Nat × Char} (member : p ∈ placed n cs) :
    ∃ as bs, cs = as ++ p.2 :: bs ∧ p.1 = n + byteLength as := by
  induction cs generalizing n with
  | nil => cases member
  | cons c cs ih =>
    rcases List.mem_cons.mp member with rfl | later
    · exact ⟨[], cs, rfl, rfl⟩
    · obtain ⟨as, bs, rfl, place⟩ := ih later
      exact ⟨c :: as, bs, rfl, by rw [place, byteLength_cons, Nat.add_assoc]⟩

/-- A boundary does not lie inside a character. -/
theorem boundary_outside {source : List Char} {m : Nat} (boundary : isBoundary source m = true)
    {p : Nat × Char} (member : p ∈ placed 0 source) : m ≤ p.1 ∨ p.1 + p.2.utf8Size ≤ m := by
  obtain ⟨as, bs, same, place⟩ := mem_placed member
  obtain ⟨cs, ds, same', rfl⟩ := isBoundary_iff.mp boundary
  rw [Nat.zero_add] at place
  by_cases before : byteLength cs ≤ p.1
  · exact .inl before
  · -- what stands before the boundary goes on behind `as`, and so with the whole character
    have joined : as ++ p.2 :: bs = cs ++ ds := same.symm.trans same'
    obtain ⟨mid, rfl⟩ := exists_append_of_byteLength_le joined (by omega)
    rw [List.append_assoc, List.append_cancel_left_eq] at joined
    cases mid with
    | nil =>
      rw [List.append_nil] at before
      omega
    | cons c mid =>
      obtain ⟨rfl, -⟩ := List.cons.inj joined
      rw [byteLength_append, byteLength_cons, place]
      exact .inr (by omega)

end Text

theorem Span.Valid.covers_uniform {source : List Char} {s : Span} (valid : s.Valid source)
    {p : Nat × Char} (member : p ∈ Text.placed 0 source) {i : Nat} (low : p.1 ≤ i)
    (high : i < p.1 + p.2.utf8Size) : s.covers i = s.covers p.1 := by
  have starts := Text.boundary_outside valid.starts member
  have stops := Text.boundary_outside valid.stops member
  rw [Bool.eq_iff_iff, covers_iff, covers_iff]
  omega

/-- What cuts leave of a whole text are the bytes that lie in none of them. -/
theorem Text.bytes_kept {source : List Char} {cuts : List Span}
    (valids : ∀ cut ∈ cuts, cut.Valid source) :
    bytes (kept source cuts ⟨0, byteLength source⟩) =
      bytesLeft (fun i => cuts.any (·.covers i)) 0 (bytes source) := by
  have whole : kept source cuts ⟨0, byteLength source⟩ =
      ((placed 0 source).filter fun p => !cuts.any (·.covers p.1)).map Prod.snd := by
    unfold kept
    congr 1
    apply List.filter_congr
    intro p member
    obtain ⟨low, high⟩ := placed_between p member
    have inside : (⟨0, byteLength source⟩ : Span).covers p.1 = true :=
      Span.covers_mk_iff.mpr ⟨low, by omega⟩
    rw [inside, Bool.true_and]
  rw [whole]
  apply bytes_filter_placed fun i => cuts.any (·.covers i)
  intro p member i low high
  rw [Bool.eq_iff_iff, List.any_eq_true, List.any_eq_true]
  refine exists_congr fun cut => and_congr_right fun listed => ?_
  rw [(valids cut listed).covers_uniform member low high]

/-! ## The types of a tree -/

theorem Tree.span_of_isPlaced {source : List Char} {lo hi : Nat} {t : Tree}
    (placed : t.isPlaced source lo hi = true) : t.span.Valid source ∧ t.span.Inside ⟨lo, hi⟩ := by
  cases t with
  | node role kind span children =>
    simp only [isPlaced, Bool.and_eq_true, decide_eq_true_eq] at placed
    obtain ⟨⟨⟨⟨⟨first, ordered⟩, last⟩, starts⟩, stops⟩, -⟩ := placed
    exact ⟨⟨ordered, starts, stops⟩, first, last⟩

theorem Tree.arePlaced_children {source : List Char} {lo hi : Nat} {t : Tree}
    (placed : t.isPlaced source lo hi = true) :
    arePlaced source t.span.start t.span.stop t.children = true := by
  cases t with
  | node role kind span children =>
    rw [isPlaced, Bool.and_eq_true] at placed
    exact placed.2

theorem Tree.isPlaced_mono {source : List Char} {lo lo' hi : Nat} {t : Tree}
    (placed : t.isPlaced source lo hi = true) (lower : lo' ≤ lo) :
    t.isPlaced source lo' hi = true := by
  cases t with
  | node role kind span children =>
    simp only [isPlaced, Bool.and_eq_true, decide_eq_true_eq] at placed ⊢
    obtain ⟨⟨⟨⟨⟨first, ordered⟩, last⟩, starts⟩, stops⟩, below⟩ := placed
    exact ⟨⟨⟨⟨⟨Nat.le_trans lower first, ordered⟩, last⟩, starts⟩, stops⟩, below⟩

theorem Tree.isPlaced_of_mem {source : List Char} {lo hi : Nat} {t : Tree} {ts : List Tree}
    (placed : arePlaced source lo hi ts = true) (member : t ∈ ts) :
    t.isPlaced source lo hi = true := by
  induction ts generalizing lo with
  | nil => cases member
  | cons s ts ih =>
    rw [arePlaced, Bool.and_eq_true] at placed
    rcases List.mem_cons.mp member with rfl | later
    · exact placed.1
    · obtain ⟨valid, first, -⟩ := span_of_isPlaced placed.1
      exact isPlaced_mono (ih placed.2 later) (Nat.le_trans first valid.ordered)

namespace Erasure

/-- The cuts are parts of the text that lie in a span, none over another. -/
structure Fit (source : List Char) (s : Span) (cuts : List Span) : Prop where
  valids : ∀ cut ∈ cuts, cut.Valid source
  holds : s.Holds cuts

namespace Fit

variable {source : List Char} {s : Span} {xs ys : List Span} {lo mid hi : Nat}

theorem nil : Fit source s [] :=
  ⟨List.forall_mem_nil _, List.forall_mem_nil _, .nil⟩

theorem single (valid : s.Valid source) : Fit source s [s] :=
  ⟨List.forall_mem_singleton.mpr valid, List.forall_mem_singleton.mpr (.refl s),
    List.pairwise_singleton _ s⟩

theorem widen {t : Span} (fit : Fit source s xs) (inside : s.Inside t) : Fit source t xs :=
  ⟨fit.valids, fun cut member => (fit.holds.inside cut member).trans inside, fit.holds.apart⟩

theorem perm (fit : Fit source s xs) (same : xs.Perm ys) : Fit source s ys :=
  ⟨fun cut member => fit.valids cut (same.mem_iff.mpr member),
    fun cut member => fit.holds.inside cut (same.mem_iff.mpr member),
    (same.pairwise_iff fun h => h.symm).mp fit.holds.apart⟩

/-- Cuts before a place and cuts behind it. -/
theorem append (left : Fit source ⟨lo, mid⟩ xs) (right : Fit source ⟨mid, hi⟩ ys) (first : lo ≤ mid)
    (last : mid ≤ hi) : Fit source ⟨lo, hi⟩ (xs ++ ys) := by
  have wide := left.widen (t := ⟨lo, hi⟩) ⟨Nat.le_refl lo, last⟩
  have wide' := right.widen (t := ⟨lo, hi⟩) ⟨first, Nat.le_refl hi⟩
  refine ⟨List.forall_mem_append.mpr ⟨wide.valids, wide'.valids⟩,
    List.forall_mem_append.mpr ⟨wide.holds.inside, wide'.holds.inside⟩, ?_⟩
  refine List.pairwise_append.mpr ⟨left.holds.apart, right.holds.apart, ?_⟩
  intro cut before cut' behind
  exact .inl (Nat.le_trans (left.holds.inside cut before).2 (right.holds.inside cut' behind).1)

theorem not_covers {i : Nat} (fit : Fit source s xs) (outside : s.covers i = false) :
    xs.any (·.covers i) = false := by
  rw [List.any_eq_false]
  intro cut member covered
  have inside := fit.holds.inside cut member
  rw [Span.covers_iff] at covered
  rw [← Bool.not_eq_true, Span.covers_iff] at outside
  exact outside ⟨Nat.le_trans inside.1 covered.1, Nat.lt_of_lt_of_le covered.2 inside.2⟩

end Fit

variable {source : List Char} {lo hi : Nat} {ts : List Tree}

/-- The types below each of some nodes are known to fit into the node. -/
def Fitting (source : List Char) (ts : List Tree) : Prop :=
  ∀ t ∈ ts, ∀ lo hi, t.isPlaced source lo hi = true → Fit source t.span (ranges t)

theorem fit_childRanges (tokens : List String) (each : Fitting source ts)
    (placed : Tree.arePlaced source lo hi ts = true) :
    Fit source ⟨lo, hi⟩ (childRanges tokens ts) := by
  induction ts generalizing lo with
  | nil => exact .nil
  | cons t ts ih =>
    obtain ⟨fits, each⟩ := List.forall_mem_cons.mp each
    rw [Tree.arePlaced, Bool.and_eq_true] at placed
    obtain ⟨valid, first, last⟩ := Tree.span_of_isPlaced placed.1
    have join {own : List Span} (fit : Fit source t.span own) :
        Fit source ⟨lo, hi⟩ (own ++ childRanges tokens ts) := by
      have before := fit.widen (t := ⟨lo, t.span.stop⟩) ⟨first, Nat.le_refl _⟩
      exact before.append (ih each placed.2) (Nat.le_trans first valid.ordered) last
    rw [childRanges]
    split
    · exact join (.single valid)
    · exact join (fits lo hi placed.1)

/-- The type behind the operand of a cast, and the types in the operand. -/
theorem fit_castRanges (each : Fitting source ts) (boundary : Text.isBoundary source hi = true)
    (placed : Tree.arePlaced source lo hi ts = true) :
    Fit source ⟨lo, hi⟩ (castRanges hi ts) := by
  induction ts generalizing lo with
  | nil => exact .nil
  | cons t ts ih =>
    obtain ⟨fits, each⟩ := List.forall_mem_cons.mp each
    rw [Tree.arePlaced, Bool.and_eq_true] at placed
    obtain ⟨valid, first, last⟩ := Tree.span_of_isPlaced placed.1
    have passed := Nat.le_trans first valid.ordered
    rw [castRanges]
    split
    · have operand := (fits lo hi placed.1).widen (t := ⟨lo, t.span.stop⟩) ⟨first, Nat.le_refl _⟩
      have type : Fit source ⟨t.span.stop, hi⟩ [⟨t.span.stop, hi⟩] :=
        .single ⟨last, valid.stops, boundary⟩
      -- the type is listed first, though it stands behind the operand
      exact (operand.append type passed last).perm List.perm_append_comm
    · exact (ih each placed.2).widen ⟨passed, Nat.le_refl hi⟩

/-- The types of a node fit into it, whatever nodes it has. -/
theorem fit_ranges {t : Tree} (placed : t.isPlaced source lo hi = true) :
    Fit source t.span (ranges t) := by
  induction t using Tree.node_induction generalizing lo hi with
  | step t ih =>
    have each : Fitting source t.children := by
      intro child member lo hi
      exact ih child (Tree.mem_allNodes.mpr ⟨child, member, child.mem_nodes_self⟩)
    have valid := (Tree.span_of_isPlaced placed).1
    have below := Tree.arePlaced_children placed
    cases t with
    | node role kind span children =>
      rw [ranges]
      split
      · exact .single valid
      · split
        · exact fit_castRanges each valid.stops below
        · exact fit_childRanges _ each below

/-- In a node only its own types are cut, not those of its siblings. -/
theorem any_childRanges {t : Tree} {i : Nat} (placed : Tree.arePlaced source lo hi ts = true)
    (member : t ∈ ts) (inside : t.span.covers i = true) :
    (childRanges [] ts).any (·.covers i) = (ranges t).any (·.covers i) := by
  induction ts generalizing lo with
  | nil => cases member
  | cons s ts ih =>
    rw [Tree.arePlaced, Bool.and_eq_true] at placed
    rw [childRanges, if_neg (by simp), List.any_append]
    rcases List.mem_cons.mp member with rfl | later
    · have others := fit_childRanges [] (fun _ _ _ _ => fit_ranges) placed.2
      have outside : (⟨t.span.stop, hi⟩ : Span).covers i = false := by
        rw [Span.covers_iff] at inside
        rw [← Bool.not_eq_true, Span.covers_mk_iff]
        omega
      rw [others.not_covers outside, Bool.or_false]
    · have behind : s.span.stop ≤ t.span.start :=
        (Tree.span_of_isPlaced (Tree.isPlaced_of_mem placed.2 later)).2.1
      have outside : s.span.covers i = false := by
        rw [Span.covers_iff] at inside
        rw [← Bool.not_eq_true, Span.covers_iff]
        omega
      rw [(fit_ranges placed.1).not_covers outside, Bool.false_or, ih placed.2 later]

end Erasure

namespace Tree

/-- What is left of a text are the characters that lie in no type. -/
theorem erase_eq_kept {source : List Char} {t : Tree}
    (placed : t.isPlaced source 0 (Text.byteLength source) = true) :
    t.erase source = Text.kept source (Erasure.ranges t) ⟨0, Text.byteLength source⟩ := by
  have fit := (Erasure.fit_ranges placed).widen (span_of_isPlaced placed).2
  exact Cut.within_eq_kept (.whole source) fit.holds.inside fit.valids fit.holds.apart

/-- The types of a tree lie in the text and apart from one another. None of them is passed over
unless it is empty, each slice that is copied is a part of the text, and the bytes that are left are
all those that lie in no type. -/
theorem erase_deletes_ranges (source : List Char) (t : Tree)
    (placed : t.isPlaced source 0 (Text.byteLength source) = true) :
    let cuts := Erasure.ranges t
    let stop := Text.byteLength source
    let parts := Cut.copied stop 0 (Cut.sortByStart cuts)
    cuts.Pairwise Span.Apart ∧ (∀ cut ∈ cuts, cut.Inside ⟨0, stop⟩) ∧
      (∀ cut ∈ Cut.skipped stop 0 (Cut.sortByStart cuts), cut.isEmpty = true) ∧
      (∀ part ∈ parts, (part.slice? source).isSome = true) ∧
      t.erase source = parts.flatMap (Span.chars source) ∧
      Text.bytes (t.erase source) =
        Text.bytesLeft (fun i => cuts.any (·.covers i)) 0 (Text.bytes source) := by
  intro cuts stop parts
  have fit : Erasure.Fit source ⟨0, stop⟩ cuts :=
    (Erasure.fit_ranges placed).widen (span_of_isPlaced placed).2
  have ready := Cut.Ready.start (.whole source) fit.holds.inside fit.valids fit.holds.apart
  refine ⟨fit.holds.apart, fit.holds.inside, ready.isEmpty_skipped, ?_, ?_, ?_⟩
  · exact fun part member => (ready.valid_copied part member).isSome_slice?
  · exact Cut.keep_eq_copied source stop 0 (Cut.sortByStart cuts)
  · rw [erase_eq_kept placed, Text.bytes_kept fit.valids]

theorem erase_deletes_ranges_nested :
    let source := "let é: T = ((f<A>(y!) as B)! as C) satisfies D;".toList
    let t := Tree.parse source
    let cuts := Erasure.ranges t
    t.isPlaced source 0 (Text.byteLength source) = true ∧
      cuts = [⟨6, 9⟩, ⟨35, 47⟩, ⟨29, 34⟩, ⟨28, 29⟩, ⟨22, 27⟩, ⟨15, 18⟩, ⟨20, 21⟩] ∧
      t.erase source = "let é = ((f(y)));".toList ∧ cuts.Pairwise Span.Apart ∧
      Text.bytes (t.erase source) =
        Text.bytesLeft (fun i => cuts.any (·.covers i)) 0 (Text.bytes source) := by
  intro source t cuts
  have placed : t.isPlaced source 0 (Text.byteLength source) = true := by decide +kernel
  obtain ⟨apart, -, -, -, -, bytes⟩ := erase_deletes_ranges source t placed
  exact ⟨placed, by decide +kernel, by decide +kernel, apart, bytes⟩

-- a comment is not the operand of a cast
example :
    let cast : Tree := .node .plain .asExpression ⟨0, 14⟩
      [.node .plain .comment ⟨0, 7⟩ [], .node .plain .identifier ⟨8, 9⟩ [],
        .node .plain (.token "as") ⟨10, 12⟩ [], .node .plain (.other "type_identifier") ⟨13, 14⟩ []]
    cast.erase "/* c */ x as T".toList = "/* c */ x".toList := by
  decide +kernel

end Tree

end Dialect
