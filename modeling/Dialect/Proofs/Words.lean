import Dialect.Proofs.Occurrences
import Dialect.Replacement
import Mathlib.Data.List.Nodup
import Mathlib.Data.List.SplitBy

/-!
# Replacing words

A table of words is applied one entry after the other, each to what the entries before it have left.
Main statement: unless a value brings in the key of a later entry, this is one pass over the text in
which every maximal run of identifier characters that is a key becomes its value. So the order of the
entries does not matter.
-/

namespace Dialect

namespace Text

/-- The maximal runs of identifier characters, and every other character on its own. -/
def tokens (text : List Char) : List (List Char) :=
  text.splitBy fun a b => isIdentChar a && isIdentChar b

/-- A text that is one run of identifier characters. -/
def isWord (cs : List Char) : Bool :=
  !cs.isEmpty && cs.all isIdentChar

theorem isWord_iff {cs : List Char} :
    isWord cs = true ↔ cs ≠ [] ∧ ∀ c ∈ cs, isIdentChar c = true := by
  simp [isWord]

open Replacement (startsIdent endsIdent)

/-- A text falls into words and the characters between them. -/
theorem token_induction {motive : List Char → Prop} (nil : motive [])
    (mark : ∀ c cs, isIdentChar c = false → motive cs → motive (c :: cs))
    (word : ∀ run rest, isWord run = true → startsIdent rest = false → motive rest →
      motive (run ++ rest)) (text : List Char) : motive text := by
  match text with
  | [] => exact nil
  | c :: cs =>
    cases ident : isIdentChar c with
    | false => exact mark c cs ident (token_induction nil mark word cs)
    | true =>
      have run : isWord (c :: cs.takeWhile isIdentChar) = true := by
        have tail : (cs.takeWhile isIdentChar).all isIdentChar = true := List.all_takeWhile
        simp [isWord, ident, tail]
      have behind : startsIdent (cs.dropWhile isIdentChar) = false := by
        have stop := List.head?_dropWhile_not isIdentChar cs
        unfold startsIdent
        cases first : (cs.dropWhile isIdentChar).head? with
        | none => rfl
        | some d => simpa [first] using stop
      have shorter := token_induction nil mark word (cs.dropWhile isIdentChar)
      have whole : (c :: cs.takeWhile isIdentChar) ++ cs.dropWhile isIdentChar = c :: cs := by
        rw [List.cons_append, List.takeWhile_append_dropWhile]
      exact whole ▸ word _ _ run behind shorter
termination_by text.length
decreasing_by
  · exact Nat.lt_succ_self _
  · exact Nat.lt_succ_of_le (List.dropWhile_sublist _).length_le

@[simp]
theorem tokens_nil : tokens [] = [] := rfl

@[simp]
theorem flatten_tokens (text : List Char) : (tokens text).flatten = text :=
  List.flatten_splitBy _ _

/-- Two texts have their own tokens where no word reaches from one into the other. -/
theorem tokens_append {as bs : List Char} (apart : endsIdent as = false ∨ startsIdent bs = false) :
    tokens (as ++ bs) = tokens as ++ tokens bs := by
  refine List.splitBy_append fun a last b first => ?_
  rw [Option.mem_def] at last first
  rcases apart with left | right
  · simp_all [endsIdent]
  · simp_all [startsIdent]

theorem tokens_of_isWord {run : List Char} (word : isWord run = true) : tokens run = [run] := by
  rw [isWord_iff] at word
  refine List.splitBy_of_isChain word.1 (List.Pairwise.isChain ?_)
  refine List.pairwise_of_forall_mem_list fun a left b right => ?_
  rw [word.2 a left, word.2 b right]
  rfl

theorem tokens_of_mem_tokens {text token : List Char} (member : token ∈ tokens text) :
    tokens token = [token] :=
  List.splitBy_of_isChain (List.ne_nil_of_mem_splitBy member) (List.isChain_of_mem_splitBy member)

theorem tokens_mark {c : Char} (mark : isIdentChar c = false) (cs : List Char) :
    tokens (c :: cs) = [c] :: tokens cs := by
  have apart : endsIdent [c] = false := mark
  have single : tokens [c] = [[c]] := rfl
  rw [← List.singleton_append, tokens_append (.inl apart), single, List.singleton_append]

theorem tokens_word {run rest : List Char} (word : isWord run = true)
    (behind : startsIdent rest = false) : tokens (run ++ rest) = run :: tokens rest := by
  rw [tokens_append (.inr behind), tokens_of_isWord word, List.singleton_append]

/-- Rewriting tokens one by one leaves their boundaries where they were: what takes the place of a word
stands between characters that belong to no word. -/
theorem tokens_flatMap {f : List Char → List Char}
    (fixed : ∀ c, isIdentChar c = false → f [c] = [c]) (text : List Char) :
    tokens ((tokens text).flatMap f) = (tokens text).flatMap fun t => tokens (f t) := by
  induction text using token_induction with
  | nil => rfl
  | mark c cs mark ih =>
    have single : tokens [c] = [[c]] := rfl
    rw [tokens_mark mark, List.flatMap_cons, List.flatMap_cons, fixed c mark, List.singleton_append,
      tokens_mark mark, ih, single, List.singleton_append]
  | word run rest word behind ih =>
    have still : startsIdent ((tokens rest).flatMap f) = false := by
      cases rest with
      | nil => rfl
      | cons c cs =>
        have mark : isIdentChar c = false := behind
        rw [tokens_mark mark, List.flatMap_cons, fixed c mark]
        exact mark
    rw [tokens_word word behind, List.flatMap_cons, List.flatMap_cons, tokens_append (.inr still), ih]

end Text

namespace Replacement

open Text

variable {key value : List Char}

/-- A word at the front of a text does not reach beyond the first word of the text. -/
theorem prefix_of_prefix_append {run rest : List Char} (word : ∀ c ∈ key, isIdentChar c = true)
    (behind : startsIdent rest = false) (stands : key <+: run ++ rest) : key <+: run := by
  obtain ⟨others, whole⟩ := stands
  rcases List.append_eq_append_iff.mp whole with ⟨tail, split, -⟩ | ⟨tail, split, reached⟩
  · exact ⟨tail, split.symm⟩
  · cases tail with
    | nil =>
      rw [List.append_nil] at split
      exact ⟨[], by rw [split, List.append_nil]⟩
    | cons c tail =>
      have inside : isIdentChar c = true := word c (by simp [split])
      rw [reached] at behind
      have outside : isIdentChar c = false := behind
      rw [inside] at outside
      contradiction

theorem startsIdent_of_isWord (word : isWord key = true) : startsIdent key = true := by
  obtain ⟨given, letters⟩ := isWord_iff.mp word
  obtain ⟨c, cs, rfl⟩ := List.exists_cons_of_ne_nil given
  exact letters c List.mem_cons_self

theorem lastOr_of_isWord (word : isWord key = true) (before : Option Char) :
    (lastOr before key).any isIdentChar = true := by
  obtain ⟨given, letters⟩ := isWord_iff.mp word
  rw [lastOr, List.getLast?_eq_some_getLast given]
  exact letters _ (List.getLast_mem given)

theorem endsIdent_of_isWord (word : isWord key = true) : endsIdent key = true := by
  have last := lastOr_of_isWord word none
  rwa [lastOr, Option.or_none] at last

/-- An occurrence that touches an identifier character is kept. -/
theorem substitute_touching (word : isWord key = true) {before after : Option Char}
    (touches : before.any isIdentChar = true ∨ after.any isIdentChar = true) :
    substitute key value before after = key := by
  rw [substitute]
  apply if_pos
  rcases touches with left | right
  · simp [startsIdent_of_isWord word, left]
  · simp [endsIdent_of_isWord word, right]

theorem substitute_free {before after : Option Char}
    (left : before.any isIdentChar = false) (right : after.any isIdentChar = false) :
    substitute key value before after = value := by
  simp [substitute, left, right]

/-- Inside a run of identifier characters that is not the key, every occurrence of the key touches
another identifier character and is kept. -/
theorem rewriteFrom_run (word : isWord key = true) {rest : List Char}
    (behind : startsIdent rest = false) (before : Option Char) (run : List Char)
    (letters : ∀ c ∈ run, isIdentChar c = true)
    (other : before.any isIdentChar = true ∨ run ≠ key) :
    rewriteFrom key (substitute key value) before (run ++ rest) =
      run ++ rewriteFrom key (substitute key value) (lastOr before run) rest := by
  obtain ⟨given, keyLetters⟩ := isWord_iff.mp word
  induction run using key_induction given generalizing before with
  | nil => rfl
  | found tail ih =>
    have touches : before.any isIdentChar = true ∨ (tail ++ rest).head?.any isIdentChar = true := by
      rcases other with left | more
      · exact .inl left
      · right
        cases tail with
        | nil => exact absurd (List.append_nil key) more
        | cons d ds => exact letters d (by simp)
    have inner := ih (lastOr before key)
      (fun d member => letters d (List.mem_append_right key member))
      (.inl (lastOr_of_isWord word before))
    rw [List.append_assoc, rewriteFrom_key given, substitute_touching word touches, inner,
      lastOr_append, List.append_assoc]
  | other c cs stands ih =>
    have absent : ¬key <+: c :: (cs ++ rest) := fun reached =>
      stands (prefix_of_prefix_append keyLetters behind reached)
    rw [List.forall_mem_cons] at letters
    have inner := ih (some c) letters.2 (.inl letters.1)
    rw [List.cons_append, rewriteFrom_cons absent, inner, lastOr_cons, List.cons_append]

/-- One entry replaces the runs that are its key. -/
theorem rewriteFrom_eq_tokens (word : isWord key = true) (text : List Char) (before : Option Char)
    (apart : before.any isIdentChar = false ∨ startsIdent text = false) :
    rewriteFrom key (substitute key value) before text =
      (tokens text).flatMap fun t => if t = key then value else t := by
  obtain ⟨given, letters⟩ := isWord_iff.mp word
  induction text using token_induction generalizing before with
  | nil => rfl
  | mark c cs mark ih =>
    have different : [c] ≠ key := by
      rintro rfl
      rw [letters c List.mem_cons_self] at mark
      contradiction
    have absent : ¬key <+: c :: cs := by
      intro stands
      obtain ⟨d, ds, rfl⟩ := List.exists_cons_of_ne_nil given
      rw [(List.cons_prefix_cons.mp stands).1.symm, letters d List.mem_cons_self] at mark
      contradiction
    rw [rewriteFrom_cons absent, tokens_mark mark, List.flatMap_cons, if_neg different,
      ih (some c) (.inl mark), List.singleton_append]
  | word run rest isRun behind ih =>
    rw [tokens_word isRun behind, List.flatMap_cons]
    by_cases same : run = key
    · subst same
      have free : before.any isIdentChar = false := by
        rcases apart with left | right
        · exact left
        · have starts := startsIdent_of_isWord isRun
          cases run with
          | nil => contradiction
          | cons c cs => exact absurd (right.symm.trans starts) Bool.false_ne_true
      rw [rewriteFrom_key given, substitute_free free behind, ih _ (.inr behind), if_pos rfl]
    · rw [rewriteFrom_run word behind before run (isWord_iff.mp isRun).2 (.inr same),
        ih _ (.inr behind), if_neg same]

theorem apply_eq_tokens {r : Replacement} (word : isWord r.key.toList = true) (text : String) :
    (r.apply text).toList =
      (tokens text.toList).flatMap fun t => if t = r.key.toList then r.value.toList else t := by
  have given : ¬r.key.isEmpty = true := by
    rw [String.isEmpty_iff, ← String.toList_eq_nil_iff]
    exact (isWord_iff.mp word).1
  rw [apply, if_neg given, String.toList_ofList]
  exact rewriteFrom_eq_tokens word text.toList none (.inl rfl)

/-! ## Tables -/

/-- A token that is a key becomes the value of the key. -/
def renamed (table : List Replacement) (token : List Char) : List Char :=
  ((table.find? (·.key.toList = token)).map (·.value.toList)).getD token

/-- No value has the key of a later entry among its tokens. -/
def Apart (table : List Replacement) : Prop :=
  table.Pairwise fun r s => s.key.toList ∉ tokens r.value.toList

instance (table : List Replacement) : Decidable (Apart table) :=
  inferInstanceAs (Decidable (table.Pairwise _))

theorem renamed_cons (r : Replacement) (table : List Replacement) (token : List Char) :
    renamed (r :: table) token =
      if token = r.key.toList then r.value.toList else renamed table token := by
  by_cases same : token = r.key.toList
  · simp [renamed, same]
  · simp [renamed, same, Ne.symm same]

/-- A text without the keys of a table is not changed by it. -/
theorem flatMap_renamed_of_absent {table : List Replacement} {text : List Char}
    (absent : ∀ r ∈ table, r.key.toList ∉ tokens text) :
    (tokens text).flatMap (renamed table) = text := by
  have kept : ∀ token ∈ tokens text, renamed table token = token := by
    intro token member
    have missing : table.find? (·.key.toList = token) = none := by
      rw [List.find?_eq_none]
      intro r entry same
      exact absent r entry (of_decide_eq_true same ▸ member)
    rw [renamed, missing]
    rfl
  rw [List.flatMap_def, List.map_congr_left kept, List.map_id', flatten_tokens]

theorem toList_applyAll {table : List Replacement}
    (words : ∀ r ∈ table, isWord r.key.toList = true) (apart : Apart table) (text : String) :
    (applyAll table text).toList = (tokens text.toList).flatMap (renamed table) := by
  induction table generalizing text with
  | nil => exact (flatMap_renamed_of_absent fun _ member => absurd member List.not_mem_nil).symm
  | cons r table ih =>
    rw [List.forall_mem_cons] at words
    obtain ⟨later, apart⟩ := List.pairwise_cons.mp apart
    have fixed : ∀ c, isIdentChar c = false →
        (if [c] = r.key.toList then r.value.toList else [c]) = [c] := by
      intro c mark
      apply if_neg
      intro same
      have letter := (isWord_iff.mp words.1).2 c (by simp [← same])
      rw [mark] at letter
      contradiction
    have rest : applyAll (r :: table) text = applyAll table (r.apply text) := rfl
    rw [rest, ih words.2 apart, apply_eq_tokens words.1, tokens_flatMap fixed, List.flatMap_assoc]
    -- a token that becomes the value has no later key in it, any other token is still one token
    refine List.flatMap_congr fun token member => ?_
    rw [renamed_cons]
    split
    · exact flatMap_renamed_of_absent later
    · rw [tokens_of_mem_tokens member, List.flatMap_singleton]

theorem find?_key_iff {table : List Replacement} (distinct : (table.map (·.key)).Nodup)
    {token : List Char} {r : Replacement} :
    table.find? (·.key.toList = token) = some r ↔ r ∈ table ∧ r.key.toList = token := by
  constructor
  · intro found
    exact ⟨List.mem_of_find?_eq_some found, by simpa using List.find?_some found⟩
  · rintro ⟨member, rfl⟩
    cases found : table.find? (·.key.toList = r.key.toList) with
    | none =>
      rw [List.find?_eq_none] at found
      exact absurd (decide_eq_true rfl) (found r member)
    | some s =>
      have keys : s.key.toList = r.key.toList := by simpa using List.find?_some found
      have entry := List.mem_of_find?_eq_some found
      rw [List.inj_on_of_nodup_map distinct entry member (String.toList_inj.mp keys)]

/-- Entries with different keys say the same in any order. -/
theorem renamed_perm {table other : List Replacement} (perm : other.Perm table)
    (distinct : (table.map (·.key)).Nodup) : renamed other = renamed table := by
  have distinct' : (other.map (·.key)).Nodup := (perm.map (·.key)).nodup_iff.mpr distinct
  funext token
  have found : other.find? (·.key.toList = token) = table.find? (·.key.toList = token) := by
    ext r
    rw [find?_key_iff distinct', find?_key_iff distinct, perm.mem_iff]
  rw [renamed, found, renamed]

/-- Applying the entries one after the other replaces every maximal run of identifier characters that
is a key, all at once. The same entries in any other order do the same if no value has a later key in
it there either. -/
theorem applyAll_eq_simultaneous (table : List Replacement)
    (words : ∀ r ∈ table, isWord r.key.toList = true) (apart : Apart table) (text : String) :
    applyAll table text = String.ofList ((tokens text.toList).flatMap (renamed table)) ∧
      ∀ other : List Replacement, other.Perm table → (table.map (·.key)).Nodup → Apart other →
        applyAll other text = applyAll table text := by
  have once {entries : List Replacement} (words : ∀ r ∈ entries, isWord r.key.toList = true)
      (apart : Apart entries) :
      applyAll entries text = String.ofList ((tokens text.toList).flatMap (renamed entries)) := by
    rw [← toList_applyAll words apart, String.ofList_toList]
  refine ⟨once words apart, fun other perm distinct apart' => ?_⟩
  have words' : ∀ r ∈ other, isWord r.key.toList = true := fun r member =>
    words r (perm.mem_iff.mp member)
  rw [once words' apart', once words apart, renamed_perm perm distinct]

/-- A value may hold its own key and keys of earlier entries. -/
theorem applyAll_eq_simultaneous_swapped :
    applyAll [⟨"self", "me"⟩, ⟨"this", "self.this"⟩] "this.x = thistle+self" =
        "self.this.x = thistle+me" ∧
      applyAll [⟨"true", "True"⟩, ⟨"null", "None"⟩] "[true,null]" =
        applyAll [⟨"null", "None"⟩, ⟨"true", "True"⟩] "[true,null]" := by
  constructor
  · have once := (applyAll_eq_simultaneous [⟨"self", "me"⟩, ⟨"this", "self.this"⟩] (by decide)
      (by decide) "this.x = thistle+self").1
    rw [once]
    decide
  · exact (applyAll_eq_simultaneous [⟨"null", "None"⟩, ⟨"true", "True"⟩] (by decide) (by decide)
      "[true,null]").2 _ (.swap _ _ _) (by decide) (by decide)

end Replacement

end Dialect
