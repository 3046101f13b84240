import Dialect.Grammar
import Dialect.Proofs.Padding
import Dialect.Proofs.Words

/-!
# What a table of replacements leaves behind

An entry of a table takes away every occurrence of its key that counts, unless what it puts in makes
a new one; so may what later entries put in. Whether that can happen is seen from the entries alone.
Main statement: whatever the text, the Python table leaves none of its words and of its doubled marks
behind.
-/

namespace Dialect.Replacement

open Text

/-- The key counts at the front of a text behind the character `before`: it stands there, and would be
replaced. -/
def CountsAt (key : List Char) (before : Option Char) (text : List Char) : Prop :=
  ∃ rest, text = key ++ rest ∧ rejects key before rest.head? = false

/-- The key counts somewhere in a text behind the character `before`. -/
def Counts (key : List Char) (before : Option Char) (text : List Char) : Prop :=
  ∃ front back, text = front ++ back ∧ CountsAt key (lastOr before front) back

theorem rejects_eq_false_iff {key : List Char} {before after : Option Char} :
    rejects key before after = false ↔
      (startsIdent key = true → before.any isIdentChar = false) ∧
        (endsIdent key = true → after.any isIdentChar = false) := by
  simp only [rejects, Bool.or_eq_false_iff, Bool.and_eq_false_imp]

/-- All ways to divide a text into a front and a back. -/
def splits (cs : List Char) : List (List Char × List Char) :=
  (List.range (cs.length + 1)).map fun i => (cs.take i, cs.drop i)

theorem mem_splits {front back : List Char} : (front, back) ∈ splits (front ++ back) := by
  refine List.mem_map.mpr ⟨front.length, ?_, ?_⟩
  · rw [List.mem_range, List.length_append]
    omega
  · rw [List.take_left, List.drop_left]

/-- No occurrence of the goal begins before the value and reaches into it: an identifier is set off
from it or keeps the key from being replaced, or the goal goes on as the key does. -/
def NoneReaching (goal key value : List Char) : Prop :=
  ∀ p ∈ splits goal, p.1 ≠ [] → p.2 ≠ [] → p.2.head? = value.head? →
    (endsIdent p.1 && (startsIdent key || startsIdent value)) = true ∨
      p.2 <+: key ∧ endsIdent goal = false

/-- No occurrence of the goal that counts begins in the value. -/
def NoneBeginning (goal value : List Char) : Prop :=
  ∀ p ∈ splits value, p.2 ≠ [] → goal <+: p.2 ∨ p.2 <+: goal →
    (startsIdent goal && endsIdent p.1) = true

/-- Replacing the key by the value makes no new occurrence of the goal. -/
structure Harmless (goal key value : List Char) : Prop where
  named : goal ≠ []
  given : value ≠ []
  solid : ' ' ∉ goal
  reaching : NoneReaching goal key value
  beginning : NoneBeginning goal value
  ending : (startsIdent goal && endsIdent key) = true → endsIdent value = true

/-- Replacing the key by the value leaves no occurrence of the key. -/
structure Clears (key value : List Char) : Prop extends Harmless key key value where
  overlaps : ∀ p ∈ splits key, p.1 ≠ [] → p.2 ≠ [] → p.2 <+: key →
    (startsIdent key || endsIdent key) = false

instance (goal key value : List Char) : Decidable (NoneReaching goal key value) :=
  inferInstanceAs (Decidable (∀ p ∈ splits goal, _))

instance (goal value : List Char) : Decidable (NoneBeginning goal value) :=
  inferInstanceAs (Decidable (∀ p ∈ splits value, _))

instance (goal key value : List Char) : Decidable (Harmless goal key value) :=
  decidable_of_iff
    (goal ≠ [] ∧ value ≠ [] ∧ ' ' ∉ goal ∧ NoneReaching goal key value ∧ NoneBeginning goal value ∧
      ((startsIdent goal && endsIdent key) = true → endsIdent value = true))
    ⟨fun ⟨h, i, j, k, l, m⟩ => ⟨h, i, j, k, l, m⟩, fun ⟨h, i, j, k, l, m⟩ => ⟨h, i, j, k, l, m⟩⟩

instance (key value : List Char) : Decidable (Clears key value) :=
  decidable_of_iff
    (Harmless key key value ∧ ∀ p ∈ splits key, p.1 ≠ [] → p.2 ≠ [] → p.2 <+: key →
      (startsIdent key || endsIdent key) = false)
    ⟨fun ⟨h, i⟩ => ⟨h, i⟩, fun ⟨h, i⟩ => ⟨h, i⟩⟩

/-! ## Reading on in what was written -/

/-- Two ways to divide a text: the first part ends in the second one, or beyond it. -/
theorem append_cases {α : Type} {as bs cs ds : List α} (same : as ++ bs = cs ++ ds) :
    (∃ more, cs = as ++ more ∧ bs = more ++ ds) ∨
      ∃ d more, as = cs ++ d :: more ∧ ds = d :: (more ++ bs) := by
  rcases List.append_eq_append_iff.mp same with ⟨more, rfl, rfl⟩ | ⟨more, rfl, rfl⟩
  · exact .inl ⟨more, rfl, rfl⟩
  · cases more with
    | nil => exact .inl ⟨[], by rw [List.append_nil, List.append_nil], rfl⟩
    | cons d more => exact .inr ⟨d, more, rfl, rfl⟩

theorem lastOr_of_ne_nil {cs : List Char} (given : cs ≠ []) (before : Option Char) :
    lastOr before cs = cs.getLast? := by
  rw [lastOr, List.getLast?_eq_some_getLast given, Option.some_or]

section

variable {goal key value : List Char}

theorem leftPad_eq_nil_or (key value : List Char) (before : Option Char) :
    leftPad key value before = [] ∨ leftPad key value before = [' '] := by
  rw [leftPad]
  split
  · exact .inr rfl
  · exact .inl rfl

theorem rightPad_eq_nil_or (key value : List Char) (after : Option Char) :
    rightPad key value after = [] ∨ rightPad key value after = [' '] := by
  rw [rightPad]
  split
  · exact .inr rfl
  · exact .inl rfl

/-- Where nothing sets the value off, no identifier stands before it that it could run into. -/
theorem apart_of_leftPad {before after : Option Char} (taken : rejects key before after = false)
    (bare : leftPad key value before = []) (word : (startsIdent key || startsIdent value) = true) :
    before.any isIdentChar = false := by
  cases touches : before.any isIdentChar with
  | false => rfl
  | true =>
    cases opens : startsIdent key with
    | true => exact absurd ((rejects_eq_false_iff.mp taken).1 opens) (by simp [touches])
    | false =>
      rw [opens, Bool.false_or] at word
      rw [leftPad_of_touching opens word touches] at bare
      cases bare

variable (harmless : Harmless goal key value) (given : key ≠ [])
include harmless given

/-- What follows a part of the goal in the written text followed it in the text, if the goal goes on
with it. -/
theorem exists_of_reads (text front back rest : List Char) (whole : goal = front ++ back)
    (started : front ≠ [])
    (reads : rewriteFrom key (substitute key value) front.getLast? text = back ++ rest)
    (free : endsIdent goal = true → rest.head?.any isIdentChar = false) :
    ∃ tail, text = back ++ tail ∧
      (endsIdent goal = true → tail.head?.any isIdentChar = false) := by
  induction text using key_induction given generalizing front back rest with
  | nil =>
    obtain ⟨rfl, rfl⟩ := List.append_eq_nil_iff.mp reads.symm
    exact ⟨[], rfl, free⟩
  | other c cs stands ih =>
    rw [rewriteFrom_cons stands] at reads
    cases back with
    | nil =>
      rw [List.nil_append] at reads
      exact ⟨c :: cs, rfl, fun word => by simpa [← reads] using free word⟩
    | cons d back =>
      obtain ⟨rfl, reads⟩ := List.cons.inj reads
      obtain ⟨tail, rfl, free⟩ := ih (front ++ [c]) back rest (by rw [whole, List.append_cons])
        (List.append_ne_nil_of_right_ne_nil _ (List.cons_ne_nil c []))
        (by rwa [List.getLast?_concat]) free
      exact ⟨tail, rfl, free⟩
  | found text ih =>
    rw [rewriteFrom_key given, substitute_eq] at reads
    split at reads
    next kept =>
      -- the key has been kept, and what follows it is read on
      rcases append_cases reads with ⟨more, rfl, later⟩ | ⟨d, more, rfl, rfl⟩
      · rw [← List.append_assoc] at whole
        rw [lastOr_of_ne_nil given, ← List.getLast?_append_of_ne_nil front given] at later
        obtain ⟨tail, rfl, free⟩ := ih (front ++ key) more rest whole
          (List.append_ne_nil_of_right_ne_nil _ given) later free
        exact ⟨tail, (List.append_assoc ..).symm, free⟩
      · exact ⟨d :: (more ++ text), by rw [List.append_assoc, List.cons_append], free⟩
    next taken =>
      rw [Bool.not_eq_true] at taken
      have before : front.getLast?.any isIdentChar = endsIdent front := rfl
      cases back with
      | nil =>
        -- a goal that ends in an identifier does not stand before a word that is taken
        rw [List.append_nil] at whole
        refine ⟨key ++ text, rfl, fun word => ?_⟩
        have opens : startsIdent key = false := by
          rw [← Bool.not_eq_true]
          intro opens
          have apart := (rejects_eq_false_iff.mp taken).1 opens
          rw [before, ← whole, word] at apart
          cases apart
        exact (startsIdent_append given _).trans opens
      | cons d back =>
        rcases leftPad_eq_nil_or key value front.getLast? with bare | padded
        · rw [bare, List.nil_append] at reads
          have first : (d :: back).head? = value.head? := by
            rw [List.append_assoc] at reads
            have heads := congrArg List.head? reads
            rw [List.head?_append_of_ne_nil _ harmless.given] at heads
            exact heads.symm
          rcases harmless.reaching (front, d :: back) (whole ▸ mem_splits) started
            (List.cons_ne_nil d back) first with word | ⟨⟨tail, rfl⟩, other⟩
          · obtain ⟨ident, word⟩ := Bool.and_eq_true_iff.mp word
            have apart := apart_of_leftPad taken bare word
            rw [before, ident] at apart
            cases apart
          · refine ⟨tail ++ text, List.append_assoc .., fun word => ?_⟩
            rw [other] at word
            cases word
        · rw [padded] at reads
          obtain ⟨rfl, -⟩ := List.cons.inj reads
          exact absurd (by simp [whole]) harmless.solid

/-- An occurrence that begins in a part of the text that is written as it is. -/
theorem countsAt_of_written {before before' : Option Char} {part text : List Char}
    (started : part ≠ [])
    (link : startsIdent goal = true → before.any isIdentChar = true →
      before'.any isIdentChar = true)
    (counts : CountsAt goal before'
      (part ++ rewriteFrom key (substitute key value) part.getLast? text)) :
    CountsAt goal before (part ++ text) := by
  obtain ⟨rest, whole, free⟩ := counts
  obtain ⟨left, right⟩ := rejects_eq_false_iff.mp free
  have apart : startsIdent goal = true → before.any isIdentChar = false := by
    intro word
    rw [← Bool.not_eq_true]
    intro touches
    have other := left word
    rw [link word touches] at other
    cases other
  rcases append_cases whole with ⟨more, split, reads⟩ | ⟨d, more, rfl, rfl⟩
  · obtain ⟨tail, rfl, right⟩ :=
      exists_of_reads harmless given text part more rest split started reads right
    exact ⟨tail, by rw [split, List.append_assoc], rejects_eq_false_iff.mpr ⟨apart, right⟩⟩
  · exact ⟨d :: (more ++ text), by rw [List.append_assoc, List.cons_append],
      rejects_eq_false_iff.mpr ⟨apart, right⟩⟩

end

/-! ## Occurrences that are left -/

/-- The goal counts at characters of the text that are written as they are: at a character behind which
no key stands, or in a key that is kept. -/
inductive Survives (goal key : List Char) : Option Char → List Char → Prop
  | atChar {before : Option Char} {c : Char} {cs : List Char} (other : ¬key <+: c :: cs)
      (counts : CountsAt goal before (c :: cs)) : Survives goal key before (c :: cs)
  | inKey {before : Option Char} {front back rest : List Char}
      (kept : rejects key before rest.head? = true) (whole : key = front ++ back)
      (started : back ≠ []) (counts : CountsAt goal (lastOr before front) (back ++ rest)) :
      Survives goal key before (key ++ rest)
  | pastChar {before : Option Char} {c : Char} {cs : List Char} (other : ¬key <+: c :: cs)
      (later : Survives goal key (some c) cs) : Survives goal key before (c :: cs)
  | pastKey {before : Option Char} {rest : List Char}
      (later : Survives goal key (lastOr before key) rest) : Survives goal key before (key ++ rest)

theorem CountsAt.counts {goal text : List Char} {before : Option Char}
    (counts : CountsAt goal before text) : Counts goal before text :=
  ⟨[], text, rfl, counts⟩

theorem Counts.behind {goal text : List Char} {before : Option Char} (front : List Char)
    (counts : Counts goal (lastOr before front) text) : Counts goal before (front ++ text) := by
  obtain ⟨more, back, rfl, counts⟩ := counts
  rw [← lastOr_append] at counts
  exact ⟨front ++ more, back, (List.append_assoc ..).symm, counts⟩

/-- An occurrence begins in the first part of a text or in the second. -/
theorem Counts.of_append {goal as bs : List Char} {before : Option Char}
    (counts : Counts goal before (as ++ bs)) :
    (∃ front back, as = front ++ back ∧ back ≠ [] ∧
        CountsAt goal (lastOr before front) (back ++ bs)) ∨
      Counts goal (lastOr before as) bs := by
  obtain ⟨front, back, whole, counts⟩ := counts
  rcases append_cases whole with ⟨more, rfl, rfl⟩ | ⟨d, more, rfl, rfl⟩
  · rw [lastOr_append] at counts
    exact .inr ⟨more, back, rfl, counts⟩
  · exact .inl ⟨front, d :: more, rfl, List.cons_ne_nil d more, counts⟩

theorem counts_of_survives {goal key text : List Char} {before : Option Char}
    (survives : Survives goal key before text) : Counts goal before text := by
  induction survives with
  | atChar other counts => exact counts.counts
  | inKey kept whole started counts =>
    rw [whole, List.append_assoc]
    exact counts.counts.behind _
  | @pastChar before c cs other later ih => exact ih.behind [c]
  | pastKey later ih => exact ih.behind key

/-- No occurrence of a key survives its own replacement. -/
theorem Clears.not_survives {key value text : List Char} {before : Option Char}
    (clears : Clears key value) : ¬Survives key key before text := by
  intro survives
  induction survives with
  | atChar other counts =>
    obtain ⟨rest, whole, -⟩ := counts
    exact other ⟨rest, whole.symm⟩
  | @inKey before front back rest kept whole started counts =>
    obtain ⟨tail, same, free⟩ := counts
    cases front with
    | nil =>
      rw [List.nil_append] at whole
      rw [← whole] at same
      rw [← List.append_cancel_left same, lastOr_nil, kept] at free
      cases free
    | cons c front =>
      -- the key would begin again inside itself
      have shorter : back.length ≤ key.length := by
        rw [whole, List.length_append]
        omega
      have again : back <+: key :=
        List.prefix_of_prefix_length_le ⟨rest, same⟩ ⟨tail, rfl⟩ shorter
      have marks := clears.overlaps (c :: front, back) (whole ▸ mem_splits)
        (List.cons_ne_nil c front) started again
      obtain ⟨opens, closes⟩ := Bool.or_eq_false_iff.mp marks
      rw [rejects, opens, closes] at kept
      cases kept
  | pastChar other later ih => exact ih
  | pastKey later ih => exact ih

theorem not_countsAt_blank {goal text : List Char} {before : Option Char} (named : goal ≠ [])
    (solid : ' ' ∉ goal) : ¬CountsAt goal before (' ' :: text) := by
  rintro ⟨rest, whole, -⟩
  obtain ⟨c, cs, rfl⟩ := List.exists_cons_of_ne_nil named
  obtain ⟨rfl, -⟩ := List.cons.inj whole
  exact solid List.mem_cons_self

/-- No occurrence of the goal begins in a space that sets something off. -/
theorem Counts.past_pad {goal pad text : List Char} {before : Option Char} (named : goal ≠ [])
    (solid : ' ' ∉ goal) (space : pad = [] ∨ pad = [' '])
    (counts : Counts goal before (pad ++ text)) : Counts goal (lastOr before pad) text := by
  rcases space with rfl | rfl
  · exact counts
  · rcases counts.of_append with ⟨front, back, whole, started, counts⟩ | later
    · obtain ⟨rfl, rfl⟩ : front = [] ∧ back = [' '] := by
        simpa [List.singleton_eq_append_iff, started] using whole
      exact absurd counts (not_countsAt_blank named solid)
    · exact later

section

variable {goal key value : List Char} (harmless : Harmless goal key value) (given : key ≠ [])
include harmless

/-- No occurrence of the goal that counts begins in the value. -/
theorem Counts.past_value {text : List Char} {before : Option Char}
    (counts : Counts goal before (value ++ text)) : Counts goal (lastOr before value) text := by
  rcases counts.of_append with ⟨front, back, rfl, started, rest, whole, free⟩ | later
  · have joined : goal <+: back ∨ back <+: goal :=
      List.prefix_or_prefix_of_prefix ⟨rest, rfl⟩ ⟨text, whole⟩
    obtain ⟨word, ident⟩ :=
      Bool.and_eq_true_iff.mp (harmless.beginning (front, back) mem_splits started joined)
    have apart := (rejects_eq_false_iff.mp free).1 word
    rw [any_lastOr (ne_nil_of_endsIdent ident), ident] at apart
    cases apart
  · exact later

include given

/-- An occurrence of the goal in what was written is one in the text, at characters that were written
as they are. -/
theorem survives_of_counts (text : List Char) (before before' : Option Char)
    (link : startsIdent goal = true → before.any isIdentChar = true →
      before'.any isIdentChar = true)
    (counts : Counts goal before' (rewriteFrom key (substitute key value) before text)) :
    Survives goal key before text := by
  induction text using key_induction given generalizing before before' with
  | nil =>
    obtain ⟨front, back, whole, rest, rfl, -⟩ := counts
    simp [harmless.named] at whole
  | other c cs stands ih =>
    rw [rewriteFrom_cons stands, ← List.singleton_append] at counts
    rcases counts.of_append with ⟨front, back, whole, started, counts⟩ | later
    · obtain ⟨rfl, rfl⟩ : front = [] ∧ back = [c] := by
        simpa [List.singleton_eq_append_iff, started] using whole
      exact .atChar stands (countsAt_of_written harmless given started link counts)
    · exact .pastChar stands (ih _ _ (fun _ touches => touches) later)
  | found text ih =>
    rw [rewriteFrom_key given, substitute_eq] at counts
    split at counts
    next kept =>
      rcases counts.of_append with ⟨front, back, whole, started, counts⟩ | later
      · have last : lastOr before key = back.getLast? := by
          rw [whole, lastOr_append, lastOr_of_ne_nil started]
        have inner : startsIdent goal = true → (lastOr before front).any isIdentChar = true →
            (lastOr before' front).any isIdentChar = true := by
          cases front with
          | nil => exact link
          | cons c front =>
            rw [lastOr_cons, lastOr_cons]
            exact fun _ touches => touches
        rw [last] at counts
        exact .inKey kept whole started (countsAt_of_written harmless given started inner counts)
      · rw [lastOr_of_ne_nil given, ← lastOr_of_ne_nil given before] at later
        exact .pastKey (ih _ _ (fun _ touches => touches) later)
    next taken =>
      rw [List.append_assoc, List.append_assoc] at counts
      have behind := counts.past_pad harmless.named harmless.solid (leftPad_eq_nil_or ..)
      have later := (behind.past_value harmless).past_pad harmless.named harmless.solid
        (rightPad_eq_nil_or ..)
      refine .pastKey (ih _ _ (fun word touches => ?_) later)
      -- a key that ends in an identifier character gives way to a value that does, and no space follows
      rw [any_lastOr given] at touches
      have ends := harmless.ending (Bool.and_eq_true_iff.mpr ⟨word, touches⟩)
      have bare : rightPad key value text.head? = [] := by
        rw [rightPad, touches]
        rfl
      rw [bare, lastOr_nil, any_lastOr harmless.given, ends]

end

/-! ## Tables -/

theorem toList_apply {r : Replacement} (given : r.key.isEmpty = false) (text : String) :
    (r.apply text).toList = rewriteFrom r.key.toList (substitute r.key.toList r.value.toList) none
      text.toList := by
  rw [apply, given]
  exact String.toList_ofList

/-- A later entry makes no occurrence of a key that is not there. -/
theorem not_counts_apply {goal : List Char} {r : Replacement}
    (harmless : Harmless goal r.key.toList r.value.toList) {text : String}
    (absent : ¬Counts goal none text.toList) : ¬Counts goal none (r.apply text).toList := by
  cases given : r.key.isEmpty with
  | true =>
    rw [apply, given]
    exact absent
  | false =>
    have named : r.key.toList ≠ [] := by simpa using given
    rw [toList_apply given]
    intro counts
    exact absent (counts_of_survives
      (survives_of_counts harmless named text.toList none none (fun _ touches => touches) counts))

theorem not_counts_apply_self {r : Replacement} (clears : Clears r.key.toList r.value.toList)
    (text : String) : ¬Counts r.key.toList none (r.apply text).toList := by
  have named := clears.named
  have given : r.key.isEmpty = false := by simpa using named
  rw [toList_apply given]
  intro counts
  exact clears.not_survives (survives_of_counts clears.toHarmless named text.toList none none
    (fun _ touches => touches) counts)

theorem not_counts_applyAll {goal : List Char} {table : List Replacement}
    (harmless : ∀ r ∈ table, Harmless goal r.key.toList r.value.toList) {text : String}
    (absent : ¬Counts goal none text.toList) : ¬Counts goal none (applyAll table text).toList := by
  induction table generalizing text with
  | nil => exact absent
  | cons r table ih =>
    rw [List.forall_mem_cons] at harmless
    exact ih harmless.2 (not_counts_apply harmless.1 absent)

/-- A key that its own entry clears, and that no later entry brings back, is not left. -/
theorem not_counts_of_clears {table : List Replacement}
    (harmless : table.Pairwise fun r s => Harmless r.key.toList s.key.toList s.value.toList)
    {r : Replacement} (member : r ∈ table) (clears : Clears r.key.toList r.value.toList)
    (text : String) : ¬Counts r.key.toList none (applyAll table text).toList := by
  obtain ⟨before, after, rfl⟩ := List.append_of_mem member
  obtain ⟨later, -⟩ := List.pairwise_cons.mp (List.pairwise_append.mp harmless).2.1
  have parts : applyAll (before ++ r :: after) text =
      applyAll after (r.apply (applyAll before text)) := by
    rw [applyAll, List.foldl_append, List.foldl_cons]
    rfl
  rw [parts]
  exact not_counts_applyAll later (not_counts_apply_self clears _)

theorem harmless_defaultReplacements :
    defaultReplacements.Pairwise fun r s => Harmless r.key.toList s.key.toList s.value.toList := by
  decide +kernel

/-! ## Tokens that are not left -/

theorem counts_between {key : List Char} (front back : List Char)
    (free : rejects key front.getLast? back.head? = false) :
    Counts key none (front ++ (key ++ back)) := by
  refine ⟨front, key ++ back, rfl, back, rfl, ?_⟩
  rwa [lastOr, Option.or_none]

/-- A word counts where it is a maximal run of identifier characters. -/
theorem counts_of_mem_tokens {key : List Char} (word : isWord key = true) (text : List Char)
    (before : Option Char) (apart : before.any isIdentChar = false ∨ startsIdent text = false)
    (member : key ∈ tokens text) : Counts key before text := by
  induction text using token_induction generalizing before with
  | nil => exact absurd member List.not_mem_nil
  | mark c cs mark ih =>
    rw [tokens_mark mark] at member
    rcases List.mem_cons.mp member with rfl | later
    · have ident := startsIdent_of_isWord word
      rw [startsIdent, List.head?_cons, Option.any_some, mark] at ident
      cases ident
    · exact (ih (some c) (.inl mark) later).behind [c]
  | word run rest isRun behind ih =>
    rw [tokens_word isRun behind] at member
    rcases List.mem_cons.mp member with rfl | later
    · have starts := startsIdent_of_isWord word
      rw [startsIdent_append (isWord_iff.mp word).1, starts] at apart
      have free := apart.resolve_right Bool.noConfusion
      exact CountsAt.counts ⟨rest, rfl, rejects_eq_false_iff.mpr ⟨fun _ => free, fun _ => behind⟩⟩
    · exact (ih _ (.inr behind) later).behind run

/-- The key of an entry of the Python table that clears it is not left. -/
theorem not_counts_default {key : String}
    (entry : ∃ r ∈ defaultReplacements, r.key = key ∧ Clears r.key.toList r.value.toList)
    (text : String) : ¬Counts key.toList none (applyAll defaultReplacements text).toList := by
  obtain ⟨r, member, rfl, clears⟩ := entry
  exact not_counts_of_clears harmless_defaultReplacements member clears text

theorem clears_words : ∀ word ∈ ["true", "false", "this", "null", "undefined"],
    isWord word.toList = true ∧
      ∃ r ∈ defaultReplacements, r.key = word ∧ Clears r.key.toList r.value.toList := by
  decide +kernel

theorem clears_marks : ∀ marks ∈ ["&&", "||", "++", "--"],
    (∀ before after, rejects marks.toList before after = false) ∧
      ∃ r ∈ defaultReplacements, r.key = marks ∧ Clears r.key.toList r.value.toList := by
  have bare : ∀ marks ∈ ["&&", "||", "++", "--"],
      (startsIdent marks.toList || endsIdent marks.toList) = false ∧
        ∃ r ∈ defaultReplacements, r.key = marks ∧ Clears r.key.toList r.value.toList := by
    decide +kernel
  intro marks listed
  obtain ⟨opens, closes⟩ := Bool.or_eq_false_iff.mp (bare marks listed).1
  refine ⟨fun before after => ?_, (bare marks listed).2⟩
  rw [rejects, opens, closes]
  rfl

/-- The Python table leaves none of its words, no `console.log` that is a name of its own and none of
the doubled marks in any text. No entry brings back the key of an earlier one in a text without it. -/
theorem defaultReplacements_leave_no_token (text : String) :
    (∀ word ∈ ["true", "false", "this", "null", "undefined"],
        word.toList ∉ tokens (applyAll defaultReplacements text).toList) ∧
      (∀ front back : List Char,
        (applyAll defaultReplacements text).toList = front ++ ("console.log".toList ++ back) →
          endsIdent front = true ∨ startsIdent back = true) ∧
      (∀ marks ∈ ["&&", "||", "++", "--"],
        ¬marks.toList <:+: (applyAll defaultReplacements text).toList) ∧
      defaultReplacements.Pairwise fun r s => ∀ part : String,
        ¬Counts r.key.toList none part.toList →
          ¬Counts r.key.toList none (s.apply part).toList := by
  refine ⟨fun word listed member => ?_, fun front back whole => ?_, fun marks listed found => ?_, ?_⟩
  · obtain ⟨isRun, entry⟩ := clears_words word listed
    exact not_counts_default entry text (counts_of_mem_tokens isRun _ none (.inl rfl) member)
  · have entry : ∃ r ∈ defaultReplacements, r.key = "console.log" ∧
        Clears r.key.toList r.value.toList := by decide +kernel
    by_contra free
    rw [not_or, Bool.not_eq_true, Bool.not_eq_true] at free
    refine not_counts_default entry text ?_
    rw [whole]
    exact counts_between front back (rejects_eq_false_iff.mpr ⟨fun _ => free.1, fun _ => free.2⟩)
  · obtain ⟨free, entry⟩ := clears_marks marks listed
    obtain ⟨front, back, whole⟩ := found
    refine not_counts_default entry text ?_
    rw [← whole, List.append_assoc]
    exact counts_between front back (free _ _)
  · exact harmless_defaultReplacements.imp fun harmless part => not_counts_apply harmless

/-- Keys that follow each other, and a mark that is left of three. -/
theorem defaultReplacements_leave_no_token_joined :
    applyAll defaultReplacements "console.log(this&&&&true)+++i" =
        "print(self andand True) += 1+i" ∧
      "this".toList ∉
        tokens (applyAll defaultReplacements "console.log(this&&&&true)+++i").toList ∧
      ¬"++".toList <:+: (applyAll defaultReplacements "console.log(this&&&&true)+++i").toList := by
  obtain ⟨words, -, marks, -⟩ := defaultReplacements_leave_no_token "console.log(this&&&&true)+++i"
  exact ⟨by decide +kernel, words "this" (by decide), marks "++" (by decide)⟩

end Dialect.Replacement
