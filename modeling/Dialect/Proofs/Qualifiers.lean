import Dialect.Proofs.Occurrences
import Dialect.Qualifier

/-!
# Where qualifiers are stripped

Characters that belong to no qualified name divide a text, and each part is stripped on its own. No
such character comes to stand first or last in a text. Main statement: a text stays as it is exactly
if no qualifier stands on its own in it with a member behind its point.
-/

namespace Dialect.Qualifier

open Text

/-- The character belongs neither to a name nor to a chain of names. -/
def isWall (c : Char) : Bool :=
  !isIdentChar c && c ≠ '.'

/-- A qualifier and its point. -/
def key (qualifier : List Char) : List Char :=
  qualifier ++ ['.']

def rule (qualifier : List Char) (before after : Option Char) : List Char :=
  if standsAlone before && beginsMember after then [] else key qualifier

theorem key_ne_nil (qualifier : List Char) : key qualifier ≠ [] := by
  simp [key]

/-! ## Parts of a text -/

/-- A key at the front of a text does not reach beyond a character that is not in it. -/
theorem prefix_of_not_mem {key as bs : List Char} {d : Char} (apart : d ∉ key)
    (stands : key <+: as ++ d :: bs) : key <+: as := by
  obtain ⟨others, whole⟩ := stands
  rcases List.append_eq_append_iff.mp whole with ⟨rest, split, -⟩ | ⟨rest, split, reached⟩
  · exact ⟨rest, split.symm⟩
  · cases rest with
    | nil => exact ⟨[], by rw [split, List.append_nil, List.append_nil]⟩
    | cons c rest =>
      rw [List.cons_append, List.cons.injEq] at reached
      rw [split, reached.1] at apart
      exact absurd (by simp) apart

theorem standsAlone_of_isWall {d : Char} (wall : isWall d = true) : standsAlone (some d) = true := by
  simp only [isWall, Bool.and_eq_true, Bool.not_eq_true', decide_eq_true_eq] at wall
  simp [standsAlone, wall.1, wall.2]

theorem beginsMember_of_isWall {d : Char} (wall : isWall d = true) :
    beginsMember (some d) = false := by
  simp only [isWall, Bool.and_eq_true, Bool.not_eq_true'] at wall
  simp [beginsMember, wall.1]

variable {q : List Char}

/-- Of the character before a text only counts whether a qualifier can stand behind it. -/
theorem rewriteFrom_congr {before other : Option Char}
    (same : standsAlone before = standsAlone other) (text : List Char) :
    rewriteFrom (key q) (rule q) before text = rewriteFrom (key q) (rule q) other text := by
  by_cases stands : key q <+: text
  · obtain ⟨rest, rfl⟩ := stands
    have last (before : Option Char) : lastOr before (key q) = some '.' := by simp [key]
    rw [rewriteFrom_key (key_ne_nil q), rewriteFrom_key (key_ne_nil q), last, last, rule, rule, same]
  · cases text with
    | nil => rfl
    | cons c cs => rw [rewriteFrom_cons stands, rewriteFrom_cons stands]

section

variable {d : Char} (wall : isWall d = true) (apart : d ∉ q)
include wall apart

theorem not_mem_key : d ∉ key q := by
  simp only [isWall, Bool.and_eq_true, decide_eq_true_eq] at wall
  rw [key, List.mem_append, List.mem_singleton, not_or]
  exact ⟨apart, wall.2⟩

theorem rewriteFrom_wall (as bs : List Char) (before : Option Char) :
    rewriteFrom (key q) (rule q) before (as ++ d :: bs) =
      rewriteFrom (key q) (rule q) before as ++ d :: rewriteFrom (key q) (rule q) none bs := by
  have apart := not_mem_key wall apart
  induction as using key_induction (key_ne_nil q) generalizing before with
  | nil =>
    have alone : ¬key q <+: d :: bs := fun stands =>
      key_ne_nil q (List.prefix_nil.mp (prefix_of_not_mem apart stands))
    have same : standsAlone (some d) = standsAlone none := standsAlone_of_isWall wall
    rw [List.nil_append, rewriteFrom_cons alone, rewriteFrom_congr same]
    rfl
  | found rest ih =>
    -- behind the last key stands the wall or the end of the text, and neither begins a member
    have after : rule q before (rest ++ d :: bs).head? = rule q before rest.head? := by
      cases rest with
      | nil =>
        rw [rule, rule, List.nil_append, List.head?_cons, beginsMember_of_isWall wall]
        rfl
      | cons c rest => rfl
    rw [List.append_assoc, rewriteFrom_key (key_ne_nil q), rewriteFrom_key (key_ne_nil q), after, ih,
      List.append_assoc]
  | other c cs stands ih =>
    have alone : ¬key q <+: c :: (cs ++ d :: bs) := fun found =>
      stands (prefix_of_not_mem apart found)
    rw [List.cons_append, rewriteFrom_cons alone, rewriteFrom_cons stands, ih, List.cons_append]

/-- A wall divides a text into parts that are stripped on their own. -/
theorem stripChars_wall (as bs : List Char) :
    stripChars q (as ++ d :: bs) = stripChars q as ++ d :: stripChars q bs :=
  rewriteFrom_wall wall apart as bs none

/-- What is stripped does not stand before a wall. -/
theorem head?_of_rewriteFrom {text : List Char} {before : Option Char}
    (first : (rewriteFrom (key q) (rule q) before text).head? = some d) : text.head? = some d := by
  induction text using key_induction (key_ne_nil q) generalizing before with
  | nil => exact first
  | found rest ih =>
    rw [rewriteFrom_key (key_ne_nil q), rule] at first
    split at first
    next stripped =>
      -- what follows the point begins a member
      have member := (Bool.and_eq_true_iff.mp stripped).2
      rw [ih first, beginsMember_of_isWall wall] at member
      contradiction
    next =>
      obtain ⟨c, cs, same⟩ := List.exists_cons_of_ne_nil (key_ne_nil q)
      rw [same, List.cons_append, List.head?_cons, Option.some.injEq] at first
      have inside : d ∈ key q := by
        rw [same, first]
        exact List.mem_cons_self
      exact absurd inside (not_mem_key wall apart)
  | other c cs stands ih =>
    rw [rewriteFrom_cons stands] at first
    exact first

end

/-- What is stripped does not stand at the end. -/
theorem getLast?_rewriteFrom (text : List Char) (before : Option Char) :
    (rewriteFrom (key q) (rule q) before text).getLast? = text.getLast? := by
  induction text using key_induction (key_ne_nil q) generalizing before with
  | nil => rfl
  | found rest ih =>
    rw [rewriteFrom_key (key_ne_nil q), List.getLast?_append, List.getLast?_append, ih, rule]
    split
    next stripped =>
      -- what follows the point begins a member, so the text goes on
      have member := (Bool.and_eq_true_iff.mp stripped).2
      cases rest with
      | nil => cases member
      | cons c rest => simp [List.getLast?_cons]
    next => rfl
  | other c cs stands ih =>
    rw [rewriteFrom_cons stands, List.getLast?_cons, List.getLast?_cons, ih]

/-! ## Mentions -/

/-- Behind the character `before`, the qualifier stands on its own somewhere in the text with a member
behind its point. -/
def mentionsFrom (q : List Char) : Option Char → List Char → Bool
  | _, [] => false
  | before, c :: cs =>
    (key q).isPrefixOf (c :: cs) && standsAlone before &&
        beginsMember ((c :: cs).drop (key q).length).head? ||
      mentionsFrom q (some c) cs

def mentions (qualifier text : String) : Bool :=
  !qualifier.isEmpty && mentionsFrom qualifier.toList none text.toList

theorem mentionsFrom_cons {c : Char} {cs : List Char} (stands : ¬key q <+: c :: cs)
    (before : Option Char) : mentionsFrom q before (c :: cs) = mentionsFrom q (some c) cs := by
  have absent : (key q).isPrefixOf (c :: cs) = false := by
    rw [Bool.eq_false_iff]
    exact fun found => stands (List.isPrefixOf_iff_prefix.mp found)
  rw [mentionsFrom, absent]
  rfl

variable (word : q.all isIdentChar = true)

include word in
/-- No key begins inside another one, for the first point would have to be its own. -/
theorem mentionsFrom_inside {r : List Char} (shorter : r.length < q.length) (rest : List Char)
    (before : Option Char) :
    mentionsFrom q before (r ++ '.' :: rest) = mentionsFrom q (some '.') rest := by
  have apart {r : List Char} (shorter : r.length < q.length) : ¬key q <+: r ++ '.' :: rest := by
    intro stands
    have inside : r ++ ['.'] <+: q := by
      have front : r ++ ['.'] <+: r ++ '.' :: rest :=
        ⟨rest, by rw [List.append_assoc, List.singleton_append]⟩
      refine List.prefix_of_prefix_length_le front ((List.prefix_append q ['.']).trans stands) ?_
      rw [List.length_append, List.length_singleton]
      exact shorter
    have point : isIdentChar '.' = true :=
      List.all_eq_true.mp word '.' (inside.subset (by simp))
    exact absurd point (by decide)
  induction r generalizing before with
  | nil => exact mentionsFrom_cons (apart shorter) before
  | cons c r ih =>
    have stands : ¬key q <+: c :: (r ++ '.' :: rest) := apart shorter
    rw [List.length_cons] at shorter
    rw [List.cons_append, mentionsFrom_cons stands, ih (by omega)]

include word in
theorem mentionsFrom_key (given : q ≠ []) (rest : List Char) (before : Option Char) :
    mentionsFrom q before (key q ++ rest) =
      (standsAlone before && beginsMember rest.head? || mentionsFrom q (some '.') rest) := by
  cases q with
  | nil => contradiction
  | cons c r =>
    have stands : (key (c :: r)).isPrefixOf (c :: (r ++ '.' :: rest)) = true := by
      rw [List.isPrefixOf_iff_prefix]
      exact ⟨rest, by simp [key]⟩
    have behind : (c :: (r ++ '.' :: rest)).drop (key (c :: r)).length = rest := by simp [key]
    have text : key (c :: r) ++ rest = c :: (r ++ '.' :: rest) := by simp [key]
    rw [text, mentionsFrom, stands, behind, mentionsFrom_inside word (Nat.lt_succ_self r.length)]
    rfl

include word in
/-- A text with a mention becomes shorter; any other text stays as it is. -/
theorem rewriteFrom_cases (given : q ≠ []) (text : List Char) (before : Option Char) :
    let stripped := rewriteFrom (key q) (rule q) before text
    mentionsFrom q before text = true ∧ stripped.length < text.length ∨
      mentionsFrom q before text = false ∧ stripped = text := by
  intro stripped
  have last (before : Option Char) : lastOr before (key q) = some '.' := by simp [key]
  induction text using key_induction (key_ne_nil q) generalizing before with
  | nil => exact .inr ⟨rfl, rfl⟩
  | found rest ih =>
    simp only [stripped, mentionsFrom_key word given, rewriteFrom_key (key_ne_nil q), last, rule]
    by_cases alone : (standsAlone before && beginsMember rest.head?) = true
    · have shorter : (rewriteFrom (key q) (rule q) (some '.') rest).length ≤ rest.length := by
        rcases ih (some '.') with ⟨-, shorter⟩ | ⟨-, same⟩
        · exact Nat.le_of_lt shorter
        · exact Nat.le_of_eq (congrArg List.length same)
      have positive := List.length_pos_iff.mpr (key_ne_nil q)
      rw [if_pos alone, alone, List.nil_append, List.length_append]
      exact .inl ⟨rfl, by omega⟩
    · rw [Bool.not_eq_true] at alone
      rw [alone, Bool.false_or, List.length_append, List.length_append]
      rcases ih (some '.') with ⟨mention, shorter⟩ | ⟨none, same⟩
      · exact .inl ⟨mention, Nat.add_lt_add_left shorter _⟩
      · exact .inr ⟨none, congrArg (key q ++ ·) same⟩
  | other c cs stands ih =>
    simp only [stripped, mentionsFrom_cons stands, rewriteFrom_cons stands]
    rcases ih (some c) with ⟨mention, shorter⟩ | ⟨none, same⟩
    · exact .inl ⟨mention, Nat.succ_lt_succ shorter⟩
    · exact .inr ⟨none, congrArg (c :: ·) same⟩

/-! ## Several qualifiers -/

theorem strip_of_isEmpty {qualifier : String} (empty : qualifier.isEmpty = true) (text : String) :
    strip qualifier text = text :=
  if_pos empty

theorem toList_strip {qualifier : String} (given : qualifier.isEmpty = false) (text : String) :
    (strip qualifier text).toList = stripChars qualifier.toList text.toList := by
  rw [strip, given]
  exact String.toList_ofList

/-- Qualifiers dropped from a list of characters, one after the other. -/
def stripAllChars (qualifiers : List String) (cs : List Char) : List Char :=
  (stripAll qualifiers (String.ofList cs)).toList

theorem stripAllChars_cons (q : String) (qs : List String) (cs : List Char) :
    stripAllChars (q :: qs) cs =
      stripAllChars qs (if q.isEmpty then cs else stripChars q.toList cs) := by
  have step : stripAllChars (q :: qs) cs =
      stripAllChars qs (strip q (String.ofList cs)).toList := by
    simp only [stripAllChars, stripAll, List.foldl_cons, String.ofList_toList]
  rw [step]
  cases given : q.isEmpty with
  | true => rw [strip_of_isEmpty given, String.toList_ofList, if_pos rfl]
  | false => rw [toList_strip given, String.toList_ofList, if_neg (by decide)]

@[simp]
theorem stripAllChars_nil (cs : List Char) : stripAllChars [] cs = cs :=
  String.toList_ofList

section

variable {qualifiers : List String} {d : Char} (wall : isWall d = true)
  (apart : ∀ q ∈ qualifiers, d ∉ q.toList)
include wall apart

theorem stripAllChars_wall (as bs : List Char) :
    stripAllChars qualifiers (as ++ d :: bs) =
      stripAllChars qualifiers as ++ d :: stripAllChars qualifiers bs := by
  induction qualifiers generalizing as bs with
  | nil => simp only [stripAllChars_nil]
  | cons q qs ih =>
    obtain ⟨first, later⟩ := List.forall_mem_cons.mp apart
    rw [stripAllChars_cons, stripAllChars_cons, stripAllChars_cons]
    split
    · exact ih later as bs
    · rw [stripChars_wall wall first, ih later]

theorem head?_of_stripAllChars {cs : List Char}
    (first : (stripAllChars qualifiers cs).head? = some d) : cs.head? = some d := by
  induction qualifiers generalizing cs with
  | nil => rwa [stripAllChars_nil] at first
  | cons q qs ih =>
    obtain ⟨here, later⟩ := List.forall_mem_cons.mp apart
    rw [stripAllChars_cons] at first
    have stripped := ih later first
    split at stripped
    · exact stripped
    · exact head?_of_rewriteFrom wall here stripped

end

theorem getLast?_stripAllChars (qualifiers : List String) (cs : List Char) :
    (stripAllChars qualifiers cs).getLast? = cs.getLast? := by
  induction qualifiers generalizing cs with
  | nil => rw [stripAllChars_nil]
  | cons q qs ih =>
    rw [stripAllChars_cons, ih]
    split
    · rfl
    · exact getLast?_rewriteFrom cs none

theorem stripAllChars_empty (qualifiers : List String) : stripAllChars qualifiers [] = [] :=
  List.getLast?_eq_none_iff.mp (getLast?_stripAllChars qualifiers [])

theorem strip_cases {qualifier : String} (word : qualifier.toList.all isIdentChar = true)
    (text : String) :
    mentions qualifier text = true ∧ (strip qualifier text).length < text.length ∨
      mentions qualifier text = false ∧ strip qualifier text = text := by
  cases given : qualifier.isEmpty with
  | true => exact .inr ⟨by rw [mentions, given]; rfl, strip_of_isEmpty given text⟩
  | false =>
    have named : qualifier.toList ≠ [] := by simpa using given
    have whole := toList_strip given text
    rw [mentions, given]
    rcases rewriteFrom_cases word named text.toList none with ⟨mention, shorter⟩ | ⟨none, same⟩
    · refine .inl ⟨mention, ?_⟩
      rw [← String.length_toList, ← String.length_toList, whole]
      exact shorter
    · exact .inr ⟨none, String.toList_inj.mp (whole.trans same)⟩

section

variable {qualifiers : List String}
  (words : ∀ q ∈ qualifiers, q.toList.all isIdentChar = true)
include words

theorem length_stripAll_le (text : String) :
    (stripAll qualifiers text).length ≤ text.length := by
  induction qualifiers generalizing text with
  | nil => exact Nat.le_refl _
  | cons q qs ih =>
    rw [List.forall_mem_cons] at words
    refine Nat.le_trans (ih words.2 (strip q text)) ?_
    rcases strip_cases words.1 text with ⟨-, shorter⟩ | ⟨-, same⟩
    · exact Nat.le_of_lt shorter
    · exact Nat.le_of_eq (congrArg String.length same)

/-- A text stays as it is exactly if it mentions no qualifier. -/
theorem stripAll_eq_self_iff (text : String) :
    stripAll qualifiers text = text ↔ ∀ q ∈ qualifiers, mentions q text = false := by
  induction qualifiers with
  | nil => exact ⟨nofun, fun _ => rfl⟩
  | cons q qs ih =>
    rw [List.forall_mem_cons] at words
    rw [List.forall_mem_cons]
    have step : stripAll (q :: qs) text = stripAll qs (strip q text) := rfl
    rcases strip_cases words.1 text with ⟨mention, shorter⟩ | ⟨none, same⟩
    · have later := length_stripAll_le words.2 (strip q text)
      constructor
      · intro unchanged
        rw [step] at unchanged
        rw [unchanged] at later
        omega
      · intro unmentioned
        rw [mention] at unmentioned
        exact absurd unmentioned.1 (by decide)
    · rw [step, same, ih words.2]
      exact ⟨fun others => ⟨none, others⟩, fun all => all.2⟩

end

end Dialect.Qualifier
