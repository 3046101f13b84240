import Dialect.Parsing.Lexeme
import Dialect.Proofs.Arithmetic

/-!
# Arithmetic terms as texts

A text is divided into the longest tokens that it begins with. Main statements: where a text can be
divided, each part gives its own tokens; what is both a term and a floating point number is a word;
what is computed with as an integer of 64 bits is a literal with a minus sign or none.
-/

namespace Dialect.Arithmetic

/-! ## Dividing texts into tokens -/

/-- A character that may stand between tokens. -/
def isGap (ch : Char) : Bool :=
  Parsing.isSpace ch || Text.isBlank ch

def isWordChar (ch : Char) : Bool :=
  Parsing.isWordChar ch && !Text.isBlank ch

def Token.ofSymbol? : String → Option Token
  | "*" => some (.operator .times)
  | "+" => some (.operator .plus)
  | "-" => some (.operator .minus)
  | "<<" => some (.operator .left)
  | ">>" => some (.operator .right)
  | "(" => some .opening
  | ")" => some .closing
  | _ => none

/-- The token at the front of a text, and how many characters it has behind its first one. -/
def token? (cs : List Char) : Option (Token × Nat) :=
  let word := cs.takeWhile isWordChar
  let symbol := Parsing.symbolAt cs
  if word.isEmpty then (Token.ofSymbol? symbol).map fun t => (t, symbol.length - 1)
  else some (.word word, word.length - 1)

/-- The tokens of a text behind some characters that belong to the last token. -/
def tokens? : Nat → List Char → Option (List Token)
  | _, [] => some []
  | n + 1, _ :: cs => tokens? n cs
  | 0, ch :: cs =>
    if isGap ch then tokens? 0 cs
    else (token? (ch :: cs)).bind fun t => (tokens? t.2 cs).map (t.1 :: ·)

/-- The term that a text stands for. -/
def read? (cs : List Char) : Option Term :=
  (tokens? 0 cs).bind (assemble [] none)

theorem read?_eq_some_iff {cs : List Char} {e : Term} :
    read? cs = some e ↔ e.Fits ∧ tokens? 0 cs = some e.tokens := by
  rw [read?, Option.bind_eq_some_iff]
  constructor
  · rintro ⟨ts, divided, read⟩
    obtain ⟨fits, rfl⟩ := assemble_eq_some_iff.mp read
    exact ⟨fits, divided⟩
  · rintro ⟨fits, divided⟩
    exact ⟨e.tokens, divided, assemble_eq_some_iff.mpr ⟨fits, rfl⟩⟩

/-! ### Characters -/

/-- The code points of all characters that may stand between tokens. -/
def gapPoints : List Nat :=
  Numeral.blankPoints ++ [0x200B, 0x2060, 0xFEFF]

theorem mem_gapPoints {ch : Char} (gap : isGap ch = true) : ch.toNat ∈ gapPoints := by
  rw [isGap, Bool.or_eq_true] at gap
  rw [gapPoints, List.mem_append]
  rcases gap with space | blank
  · simp only [Parsing.isSpace, Bool.or_eq_true, Bool.and_eq_true, decide_eq_true_eq] at space
    simp only [Numeral.blankPoints, List.mem_append, List.mem_range'_1, List.mem_cons,
      List.not_mem_nil, or_false]
    omega
  · exact .inl (Numeral.mem_blankPoints blank)

/-- No character of a name may stand between tokens. -/
theorem isGap_of_isIdentChar {ch : Char} (ident : Text.isIdentChar ch = true) :
    isGap ch = false := by
  have foreign : gapPoints.all (fun n => !Text.isIdentChar (Char.ofNat n)) = true := by
    decide +kernel
  cases gap : isGap ch with
  | false => rfl
  | true =>
    have none := List.all_eq_true.mp foreign _ (mem_gapPoints gap)
    rw [Char.ofNat_toNat, ident] at none
    cases none

theorem isWordChar_of_isIdentChar {ch : Char} (ident : Text.isIdentChar ch = true) :
    isWordChar ch = true := by
  have visible := isGap_of_isIdentChar ident
  rw [isGap, Bool.or_eq_false_iff] at visible
  rw [isWordChar, visible.2, Parsing.isWordChar, visible.1]
  split
  · next ascii =>
    rw [Text.isIdentChar, Text.isAlphanumeric, if_pos (by omega)] at ident
    rw [Bool.not_false, Bool.and_true]
    exact ident
  · rfl

theorem not_isSpace_of_isWordChar {c : Char} (word : Parsing.isWordChar c = true) :
    Parsing.isSpace c = false := by
  unfold Parsing.isWordChar at word
  split at word
  · have visible : 0x20 < c.toNat := by
      have bound {m : UInt32} (low : c.val ≥ m) (least : 0x20 < m.toNat) : 0x20 < c.toNat :=
        Nat.lt_of_lt_of_le least (UInt32.le_iff_toNat_le.mp low)
      rw [Bool.or_eq_true, Bool.or_eq_true, decide_eq_true_eq, decide_eq_true_eq] at word
      rcases word with (alphanumeric | rfl) | rfl
      · rcases Bool.or_eq_true_iff.mp alphanumeric with letter | digit
        · rcases Bool.or_eq_true_iff.mp letter with upper | lower
          · exact bound (of_decide_eq_true upper).1 (by decide)
          · exact bound (of_decide_eq_true (Bool.and_eq_true_iff.mp lower).1) (by decide)
        · exact bound (of_decide_eq_true (Bool.and_eq_true_iff.mp digit).1) (by decide)
      · decide
      · decide
    simp only [Parsing.isSpace, Bool.or_eq_false_iff, Bool.and_eq_false_iff,
      decide_eq_false_iff_not]
    omega
  · simpa using word

theorem isGap_of_isWordChar {ch : Char} (word : isWordChar ch = true) : isGap ch = false := by
  rw [isWordChar, Bool.and_eq_true, Bool.not_eq_true'] at word
  rw [isGap, not_isSpace_of_isWordChar word.1, word.2]
  rfl

/-! ### Where a text can be divided -/

/-- The characters that symbols have behind their first ones. -/
def symbolTails : List Char :=
  ['>', '<', '=', '*', '&', '|', '?', '.', '+', '-']

/-- The character belongs to no token that begins before it. -/
structure Separates (ch : Char) : Prop where
  noWord : isWordChar ch = false
  noSymbol : ch ∉ symbolTails

theorem separates_of_isGap {ch : Char} (gap : isGap ch = true) : Separates ch where
  noWord := by
    cases word : isWordChar ch with
    | false => rfl
    | true => rw [isGap_of_isWordChar word] at gap; cases gap
  noSymbol member := by
    have visible : symbolTails.all (fun ch => !isGap ch) = true := by decide
    have other := List.all_eq_true.mp visible ch member
    rw [gap] at other
    cases other

theorem separates_closing : Separates ')' :=
  ⟨by decide, by decide⟩

theorem mem_symbolTails {ch : Char} {s : String} (symbol : s ∈ Parsing.symbolsFrom ch) :
    ∀ d ∈ s.toList.tail, d ∈ symbolTails := by
  have all :
      (Parsing.symbolsFrom ch).all (fun s => s.toList.tail.all symbolTails.contains) = true := by
    unfold Parsing.symbolsFrom
    split
    all_goals decide
  intro d member
  have inner := List.all_eq_true.mp (List.all_eq_true.mp all s symbol) d member
  exact List.contains_iff_mem.mp inner

theorem isPrefixOf_append_stop {s : List Char} {d : Char} (foreign : d ∉ s) (cs ds : List Char) :
    s.isPrefixOf (cs ++ d :: ds) = s.isPrefixOf cs := by
  induction s generalizing cs with
  | nil => simp
  | cons a s ih =>
    rw [List.mem_cons, not_or] at foreign
    obtain ⟨other, foreign⟩ := foreign
    cases cs with
    | nil => simp [List.isPrefixOf, Ne.symm other]
    | cons ch cs => simp only [List.cons_append, List.isPrefixOf, ih foreign]

theorem symbolAt_cons {ch : Char} (other : ch ≠ '?') (cs : List Char) :
    Parsing.symbolAt (ch :: cs) =
      ((Parsing.symbolsFrom ch).find? fun s => s.toList.isPrefixOf (ch :: cs)).getD "" := by
  rw [Parsing.symbolAt.eq_def]
  split
  case h_1 => contradiction
  case h_2 same => exact absurd (List.cons.inj same).1 other
  case h_3 same =>
    obtain ⟨rfl, -⟩ := List.cons.inj same
    rfl

/-- The longest symbol begins the text and is a symbol of its first character, if there is one. -/
theorem symbolAt_begins (ch : Char) (cs : List Char) :
    Parsing.symbolAt (ch :: cs) ∈ "" :: Parsing.symbolsFrom ch ∧
      (Parsing.symbolAt (ch :: cs)).toList.isPrefixOf (ch :: cs) = true := by
  rw [Parsing.symbolAt.eq_def]
  split
  case h_1 => contradiction
  case h_2 same =>
    obtain ⟨rfl, rfl⟩ := List.cons.inj same
    split <;> exact ⟨by decide, rfl⟩
  case h_3 same =>
    obtain ⟨rfl, rfl⟩ := List.cons.inj same
    cases found : (Parsing.symbolsFrom ch).find? fun s => s.toList.isPrefixOf (ch :: cs) with
    | none => exact ⟨List.mem_cons_self, rfl⟩
    | some s =>
      have begins := List.find?_some (p := fun s : String => s.toList.isPrefixOf (ch :: cs)) found
      exact ⟨List.mem_cons_of_mem _ (List.mem_of_find?_eq_some found), begins⟩

theorem find?_congr {α : Type} {p q : α → Bool} {xs : List α} (alike : ∀ x ∈ xs, p x = q x) :
    xs.find? p = xs.find? q := by
  induction xs with
  | nil => rfl
  | cons x xs ih =>
    obtain ⟨first, alike⟩ := List.forall_mem_cons.mp alike
    rw [List.find?_cons, List.find?_cons, first, ih alike]

theorem symbolAt_append {ch d : Char} (other : ch ≠ '?') (separates : Separates d)
    (cs ds : List Char) :
    Parsing.symbolAt (ch :: (cs ++ d :: ds)) = Parsing.symbolAt (ch :: cs) := by
  rw [symbolAt_cons other, symbolAt_cons other]
  congr 1
  apply find?_congr
  intro s symbol
  have tails := mem_symbolTails symbol
  cases shape : s.toList with
  | nil => rfl
  | cons a more =>
    rw [shape] at tails
    have foreign : d ∉ more := fun member => separates.noSymbol (tails d member)
    rw [List.isPrefixOf, List.isPrefixOf, isPrefixOf_append_stop foreign]

/-- A question mark begins no token. -/
theorem ofSymbol?_question (cs : List Char) :
    Token.ofSymbol? (Parsing.symbolAt ('?' :: cs)) = none := by
  have none : ("" :: Parsing.symbolsFrom '?').all (fun s => (Token.ofSymbol? s).isNone) = true := by
    decide
  exact Option.isNone_iff_eq_none.mp (List.all_eq_true.mp none _ (symbolAt_begins '?' cs).1)

theorem takeWhile_append_stop {p : Char → Bool} {d : Char} (stops : p d = false)
    (cs ds : List Char) : (cs ++ d :: ds).takeWhile p = cs.takeWhile p := by
  induction cs with
  | nil => simp [stops]
  | cons ch cs ih => rw [List.cons_append, List.takeWhile_cons, List.takeWhile_cons, ih]

theorem token?_append {d : Char} (separates : Separates d) (ch : Char) (cs ds : List Char) :
    token? (ch :: (cs ++ d :: ds)) = token? (ch :: cs) := by
  have word : (ch :: (cs ++ d :: ds)).takeWhile isWordChar = (ch :: cs).takeWhile isWordChar :=
    takeWhile_append_stop separates.noWord (ch :: cs) ds
  rw [token?, token?, word]
  by_cases question : ch = '?'
  · subst question
    rw [ofSymbol?_question, ofSymbol?_question]
    rfl
  · rw [symbolAt_append question separates]

theorem length_of_token? {ch : Char} {cs : List Char} {t : Token × Nat}
    (found : token? (ch :: cs) = some t) : t.2 ≤ cs.length := by
  have shorter {as : List Char} (begins : as <+: ch :: cs) : as.length - 1 ≤ cs.length := by
    have := begins.length_le
    rw [List.length_cons] at this
    omega
  rw [token?] at found
  split at found
  · obtain ⟨t, -, rfl⟩ := Option.map_eq_some_iff.mp found
    rw [← String.length_toList]
    exact shorter <| List.isPrefixOf_iff_prefix.mp (symbolAt_begins ch cs).2
  · rw [← Option.some.inj found]
    exact shorter <| List.takeWhile_prefix _

/-- A text is divided before a character that belongs to no earlier token. -/
theorem tokens?_append {d : Char} (separates : Separates d) {n : Nat} {cs : List Char}
    (inside : n ≤ cs.length) (ds : List Char) :
    tokens? n (cs ++ d :: ds) =
      (tokens? n cs).bind fun ts => (tokens? 0 (d :: ds)).map (ts ++ ·) := by
  induction cs generalizing n with
  | nil =>
    obtain rfl : n = 0 := Nat.le_zero.mp inside
    simp [tokens?]
  | cons ch cs ih =>
    cases n with
    | succ n => exact ih (Nat.le_of_succ_le_succ inside)
    | zero =>
      rw [List.cons_append, tokens?, tokens?]
      split
      · exact ih (Nat.zero_le _)
      · rw [token?_append separates]
        cases found : token? (ch :: cs) with
        | none => rfl
        | some t =>
          rw [Option.bind_some, Option.bind_some, ih (length_of_token? found)]
          cases tokens? t.2 cs <;> simp [Function.comp_def]

theorem tokens?_gap {gap : List Char} (blank : ∀ ch ∈ gap, isGap ch = true) (cs : List Char) :
    tokens? 0 (gap ++ cs) = tokens? 0 cs := by
  induction gap with
  | nil => rfl
  | cons ch gap ih =>
    obtain ⟨first, blank⟩ := List.forall_mem_cons.mp blank
    rw [List.cons_append, tokens?, if_pos first, ih blank]

theorem tokens?_append_gap {gap : List Char} (blank : ∀ ch ∈ gap, isGap ch = true)
    (cs : List Char) : tokens? 0 (cs ++ gap) = tokens? 0 cs := by
  cases gap with
  | nil => rw [List.append_nil]
  | cons d gap =>
    have none : tokens? 0 (d :: gap) = some [] := by
      have skipped := tokens?_gap blank []
      rw [List.append_nil] at skipped
      exact skipped
    have separates := separates_of_isGap (blank d List.mem_cons_self)
    rw [tokens?_append separates (Nat.zero_le _), none]
    cases tokens? 0 cs <;> simp

theorem isGap_of_mem_takeWhile (cs : List Char) :
    ∀ ch ∈ cs.takeWhile Text.isBlank, isGap ch = true := by
  intro ch member
  rw [isGap, List.all_eq_true.mp List.all_takeWhile ch member, Bool.or_true]

theorem tokens?_trimStart (cs : List Char) : tokens? 0 (Text.trimStart cs) = tokens? 0 cs := by
  have skipped := tokens?_gap (isGap_of_mem_takeWhile cs) (cs.dropWhile Text.isBlank)
  rw [List.takeWhile_append_dropWhile] at skipped
  exact skipped.symm

theorem tokens?_trimEnd (cs : List Char) : tokens? 0 (Text.trimEnd cs) = tokens? 0 cs := by
  have divided := List.takeWhile_append_dropWhile (p := Text.isBlank) (l := cs.reverse)
  have text : cs = Text.trimEnd cs ++ (cs.reverse.takeWhile Text.isBlank).reverse := by
    rw [Text.trimEnd, Text.dropEndWhile, ← List.reverse_append, divided, List.reverse_reverse]
  have dropped := tokens?_append_gap
    (fun ch member => isGap_of_mem_takeWhile cs.reverse ch (List.mem_reverse.mp member))
    (Text.trimEnd cs)
  rw [← text] at dropped
  exact dropped.symm

/-- Blanks around a text are no tokens. -/
theorem tokens?_trim (cs : List Char) : tokens? 0 (Text.trim cs) = tokens? 0 cs := by
  rw [Text.trim, tokens?_trimEnd, tokens?_trimStart]

/-! ### Single tokens -/

theorem tokens?_all {n : Nat} {cs : List Char} (inside : cs.length ≤ n) (ds : List Char) :
    tokens? n (cs ++ ds) = tokens? (n - cs.length) ds := by
  induction cs generalizing n with
  | nil => rfl
  | cons ch cs ih =>
    obtain ⟨m, rfl⟩ : ∃ m, n = m + 1 := ⟨n - 1, by rw [List.length_cons] at inside; omega⟩
    rw [List.length_cons] at inside
    rw [List.cons_append, tokens?, ih (by omega), List.length_cons, Nat.add_sub_add_right]

/-- A word that ends where no character of a word follows. -/
theorem tokens?_word {word rest : List Char} (given : word ≠ [])
    (chars : ∀ ch ∈ word, isWordChar ch = true)
    (ends : rest.head?.all (fun ch => !isWordChar ch) = true) :
    tokens? 0 (word ++ rest) = (tokens? 0 rest).map (.word word :: ·) := by
  cases word with
  | nil => contradiction
  | cons ch cs =>
    have stops : rest.takeWhile isWordChar = [] := by
      cases rest with
      | nil => rfl
      | cons d rest =>
        have other : isWordChar d = false := by simpa using ends
        rw [List.takeWhile_cons_of_neg (by simp [other])]
    have found : token? (ch :: cs ++ rest) = some (.word (ch :: cs), cs.length) := by
      rw [token?, List.takeWhile_append_of_pos chars, stops, List.append_nil]
      rfl
    rw [List.cons_append] at found ⊢
    rw [tokens?, isGap_of_isWordChar (chars ch List.mem_cons_self), found,
      if_neg Bool.false_ne_true, Option.bind_some, tokens?_all (Nat.le_refl _), Nat.sub_self]

theorem tokens?_opening (cs : List Char) :
    tokens? 0 ('(' :: cs) = (tokens? 0 cs).map (.opening :: ·) := by
  have found : token? ('(' :: cs) = some (.opening, 0) := by
    have symbol : Parsing.symbolAt ('(' :: cs) = "(" := by
      rw [symbolAt_cons (by decide)]
      simp [Parsing.symbolsFrom]
    rw [token?, symbol]
    rfl
  rw [tokens?, found]
  rfl

/-- A minus sign, unless it is part of a longer symbol. -/
theorem tokens?_minus {ch : Char} (other : ch ≠ '-' ∧ ch ≠ '=') (cs : List Char) :
    tokens? 0 ('-' :: ch :: cs) = (tokens? 0 (ch :: cs)).map (.operator .minus :: ·) := by
  have found : token? ('-' :: ch :: cs) = some (.operator .minus, 0) := by
    have symbol : Parsing.symbolAt ('-' :: ch :: cs) = "-" := by
      have double : ('-' == ch) = false := beq_false_of_ne other.1.symm
      have assign : ('=' == ch) = false := beq_false_of_ne other.2.symm
      rw [symbolAt_cons (by decide)]
      simp [Parsing.symbolsFrom, List.find?, List.isPrefixOf, double, assign]
    rw [token?, symbol]
    rfl
  rw [tokens?, found]
  rfl

/-- Where a sign begins the tokens of a text, they are followed by those of the rest. -/
theorem tokens?_of_sign {ch : Char} {op : Operator} {cs : List Char} {ts : List Token}
    (sign : ch = '-' ∧ op = .minus ∨ ch = '+' ∧ op = .plus)
    (divided : tokens? 0 (ch :: cs) = some ts) :
    ∃ more, ts = .operator op :: more ∧ tokens? 0 cs = some more := by
  have alone : token? (ch :: cs) = some (.operator op, 0) ∨ token? (ch :: cs) = none := by
    have symbols := (symbolAt_begins ch cs).1
    rcases sign with ⟨rfl, rfl⟩ | ⟨rfl, rfl⟩
    all_goals
      simp only [Parsing.symbolsFrom, List.mem_cons, List.not_mem_nil, or_false] at symbols
      rcases symbols with same | same | same | same <;> rw [token?, same]
    all_goals first | exact .inr rfl | exact .inl rfl
  have visible : isGap ch = false := by
    rcases sign with ⟨rfl, -⟩ | ⟨rfl, -⟩ <;> decide
  rw [tokens?, visible, if_neg Bool.false_ne_true] at divided
  rcases alone with found | none
  · rw [found, Option.bind_some, Option.map_eq_some_iff] at divided
    obtain ⟨more, rest, rfl⟩ := divided
    exact ⟨more, rfl, rest⟩
  · rw [none] at divided
    cases divided

/-! ## Words -/

/-- No term begins with a plus sign. -/
theorem ne_plus_of_read? {cs : List Char} {e : Term} (reads : read? cs = some e)
    (rest : List Char) : cs ≠ '+' :: rest := by
  rintro rfl
  obtain ⟨more, same, -⟩ := tokens?_of_sign (.inr ⟨rfl, rfl⟩) (read?_eq_some_iff.mp reads).2
  have sign := (e.head_tokens .plus).mp (by rw [same]; rfl)
  exact absurd sign.1 (by decide)

theorem tokens?_ident {word rest : List Char} (given : word ≠ [])
    (ident : ∀ ch ∈ word, Text.isIdentChar ch = true)
    (ends : rest.head?.all (fun ch => !isWordChar ch) = true) :
    tokens? 0 (word ++ rest) = (tokens? 0 rest).map (.word word :: ·) :=
  tokens?_word given (fun ch member => isWordChar_of_isIdentChar (ident ch member)) ends

theorem tokens?_minus_ident {word : List Char} (given : word ≠ [])
    (ident : ∀ ch ∈ word, Text.isIdentChar ch = true) :
    tokens? 0 ('-' :: word) = (tokens? 0 word).map (.operator .minus :: ·) := by
  cases word with
  | nil => contradiction
  | cons ch cs =>
    have first := ident ch List.mem_cons_self
    apply tokens?_minus
    constructor
    all_goals
      rintro rfl
      exact absurd first (by decide)

theorem tokens?_of_isIdentChar {word : List Char} (given : word ≠ [])
    (ident : ∀ ch ∈ word, Text.isIdentChar ch = true) : tokens? 0 word = some [.word word] := by
  have alone : tokens? 0 (word ++ []) = _ := tokens?_ident given ident rfl
  rw [List.append_nil] at alone
  exact alone

/-- A term whose text is a word is that word. -/
theorem eq_word_of_read? {word : List Char} {e : Term}
    (ident : ∀ ch ∈ word, Text.isIdentChar ch = true) (reads : read? word = some e) :
    word ≠ [] ∧ isOperand word = true ∧ e = .word word := by
  have given : word ≠ [] := by
    rintro rfl
    cases reads
  rw [read?, tokens?_of_isIdentChar given ident, Option.bind_some, assemble] at reads
  split at reads
  · next operand => exact ⟨given, operand, (Option.some.inj reads).symm⟩
  · cases reads

theorem eq_negative_of_read? {word : List Char} {e : Term} (given : word ≠ [])
    (ident : ∀ ch ∈ word, Text.isIdentChar ch = true) (reads : read? ('-' :: word) = some e) :
    isOperand word = true ∧ e = .negative (.word word) := by
  rw [read?, tokens?_minus_ident given ident, tokens?_of_isIdentChar given ident, Option.map_some,
    Option.bind_some, assemble, assemble] at reads
  split at reads
  · next operand => exact ⟨operand, (Option.some.inj reads).symm⟩
  · cases reads

/-! ## Numbers -/

theorem isDigit_of_extend? {n m : Nat} {cs : List Char}
    (found : Numeral.extend? 10 n cs = some m) : ∀ ch ∈ cs, ch.isDigit = true ∨ ch = '_' := by
  fun_induction Numeral.extend? 10 n cs with
  | case1 => exact List.forall_mem_nil _
  | case2 n ch cs ih =>
    obtain ⟨d, digit, rest⟩ := Option.bind_eq_some_iff.mp found
    exact List.forall_mem_cons.mpr ⟨.inr rfl,
      List.forall_mem_cons.mpr ⟨.inl (Numeral.isDigit_of_digit? digit), ih d rest⟩⟩
  | case3 n ch cs _ ih =>
    obtain ⟨d, digit, rest⟩ := Option.bind_eq_some_iff.mp found
    exact List.forall_mem_cons.mpr ⟨.inl (Numeral.isDigit_of_digit? digit), ih d rest⟩

/-- A decimal literal has digits and low lines only; any other literal has the mark of its base. -/
theorem decimal_or_marked {cs : List Char} {n : Nat} (found : Numeral.natural? cs = some n) :
    (∀ ch ∈ cs, ch.isDigit = true ∨ ch = '_') ∨ ∃ mark ∈ Numeral.baseMarks, mark ∈ cs := by
  rw [Numeral.natural?.eq_def] at found
  split at found
  · exact .inl (List.forall_mem_singleton.mpr (.inl rfl))
  · next mark cs =>
    obtain ⟨base, marked, -⟩ := Option.bind_eq_some_iff.mp found
    exact .inr ⟨mark, Numeral.mem_baseMarks marked, by simp⟩
  · cases cs with
    | nil => cases found
    | cons ch cs =>
      obtain ⟨d, digit, rest⟩ := Option.bind_eq_some_iff.mp found
      exact .inl (List.forall_mem_cons.mpr
        ⟨.inl (Numeral.isDigit_of_digit? digit), isDigit_of_extend? rest⟩)

/-- Digits with the mark of an exponent behind them are no literal. -/
theorem natural?_exponent {whole : List Char} (digits : ∀ ch ∈ whole, ch.isDigit = true)
    {mark : Char} (exponent : mark = 'e' ∨ mark = 'E') :
    Numeral.natural? (whole ++ [mark]) = none := by
  cases found : Numeral.natural? (whole ++ [mark]) with
  | none => rfl
  | some n =>
    rcases decimal_or_marked found with decimal | ⟨base, isMark, member⟩
    · have last := decimal mark (by simp)
      rcases exponent with rfl | rfl
      all_goals exact absurd last (by decide)
    · have marks :
          Numeral.baseMarks.all (fun ch => !ch.isDigit && ch != 'e' && ch != 'E') = true := by
        decide
      have other := List.all_eq_true.mp marks base isMark
      rcases List.mem_append.mp member with inside | last
      · rw [digits base inside] at other
        cases other
      · obtain rfl := List.mem_singleton.mp last
        rcases exponent with rfl | rfl <;> cases other

theorem isIdentChar_of_toLower {ch : Char} (lower : ch.toLower.isLower = true) :
    Text.isIdentChar ch = true := by
  apply Numeral.isIdentChar_of_isAlpha
  apply (Bool.or_eq_true _ _).mpr
  by_cases upper : ch.val ≥ 'A'.val ∧ ch.val ≤ 'Z'.val
  · exact .inl (decide_eq_true upper)
  · have same : ch.toLower = ch := dif_neg upper
    exact .inr (same ▸ lower)

theorem isIdentChar_of_isSpecialNumber {cs : List Char}
    (special : Bound.isSpecialNumber cs = true) : ∀ ch ∈ cs, Text.isIdentChar ch = true := by
  have letters : ["inf", "infinity", "nan"].all (fun s => s.toList.all Char.isLower) = true := by
    decide
  have lower := List.all_eq_true.mp letters _ (List.contains_iff_mem.mp special)
  rw [String.toList_ofList, List.all_map] at lower
  intro ch member
  exact isIdentChar_of_toLower (List.all_eq_true.mp lower ch member)

/-- A point is no token. -/
theorem tokens?_point (cs : List Char) : tokens? 0 ('.' :: cs) = none := by
  have symbols :
      ("" :: Parsing.symbolsFrom '.').all (fun s => (Token.ofSymbol? s).isNone) = true := by decide
  have none : Token.ofSymbol? (Parsing.symbolAt ('.' :: cs)) = none :=
    Option.isNone_iff_eq_none.mp (List.all_eq_true.mp symbols _ (symbolAt_begins '.' cs).1)
  have found : token? ('.' :: cs) = Option.none := by
    rw [token?, none]
    rfl
  rw [tokens?, found]
  rfl

theorem not_reads_point {word cs : List Char} {e : Term}
    (ident : ∀ ch ∈ word, Text.isIdentChar ch = true) : read? (word ++ '.' :: cs) ≠ some e := by
  have none : tokens? 0 (word ++ '.' :: cs) = none := by
    by_cases given : word = []
    · rw [given]
      exact tokens?_point cs
    · rw [tokens?_ident given ident rfl, tokens?_point]
      rfl
  rw [read?, none]
  exact fun reads => by cases reads

/-- Before the sign of an exponent stands a word that ends in the mark and is no operand. -/
theorem not_reads_signed_exponent {whole ds : List Char} {mark sign : Char} {e : Term}
    (given : whole ≠ []) (digits : ∀ ch ∈ whole, ch.isDigit = true)
    (exponent : mark = 'e' ∨ mark = 'E') (ends : isWordChar sign = false) :
    read? (whole ++ mark :: sign :: ds) ≠ some e := by
  intro reads
  obtain ⟨fits, divided⟩ := read?_eq_some_iff.mp reads
  have ident : ∀ ch ∈ whole ++ [mark], Text.isIdentChar ch = true := by
    intro ch member
    rcases List.mem_append.mp member with inside | last
    · exact Numeral.isIdentChar_of_isDigit (digits ch inside)
    · obtain rfl := List.mem_singleton.mp last
      rcases exponent with rfl | rfl <;> decide
  have stops : (sign :: ds).head?.all (fun ch => !isWordChar ch) = true := by
    rw [List.head?_cons, Option.all_some, ends]
    rfl
  rw [List.append_cons, tokens?_ident (by simp) ident stops] at divided
  obtain ⟨more, -, same⟩ := Option.map_eq_some_iff.mp divided
  have operand : isOperand (whole ++ [mark]) = true := by
    apply Term.isOperand_of_mem_tokens fits
    rw [← same]
    exact List.mem_cons_self
  obtain ⟨first, rest, rfl⟩ := List.exists_cons_of_ne_nil given
  have begins := digits first List.mem_cons_self
  rw [isOperand, natural?_exponent digits exponent] at operand
  simp [begins] at operand

theorem isIdentChar_of_isDigits {cs : List Char} (digits : Bound.isDigits cs = true) :
    ∀ ch ∈ cs, Text.isIdentChar ch = true := by
  rw [Bound.isDigits, Bool.and_eq_true] at digits
  intro ch member
  exact Numeral.isIdentChar_of_isDigit (List.all_eq_true.mp digits.2 ch member)

theorem isIdentChar_of_isExponent {whole rest : List Char} {e : Term} (given : whole ≠ [])
    (digits : ∀ ch ∈ whole, ch.isDigit = true) (reads : read? (whole ++ rest) = some e)
    (exponent : Bound.isExponent rest = true) : ∀ ch ∈ rest, Text.isIdentChar ch = true := by
  rw [Bound.isExponent.eq_def] at exponent
  split at exponent
  · exact List.forall_mem_nil _
  · next mark cs =>
    rw [Bool.and_eq_true, Bool.or_eq_true, decide_eq_true_eq, decide_eq_true_eq] at exponent
    obtain ⟨marked, power⟩ := exponent
    split at power
    · exact absurd reads (not_reads_signed_exponent given digits marked (by decide))
    · exact absurd reads (not_reads_signed_exponent given digits marked (by decide))
    · have letter : Text.isIdentChar mark = true := by
        rcases marked with rfl | rfl <;> decide
      exact List.forall_mem_cons.mpr ⟨letter, isIdentChar_of_isDigits power⟩

theorem isIdentChar_of_isDecimal {cs : List Char} {e : Term} (reads : read? cs = some e)
    (decimal : Bound.isDecimal cs = true) : ∀ ch ∈ cs, Text.isIdentChar ch = true := by
  have divided := List.takeWhile_append_dropWhile (p := Char.isDigit) (l := cs)
  have digits : ∀ ch ∈ cs.takeWhile Char.isDigit, ch.isDigit = true :=
    List.all_eq_true.mp List.all_takeWhile
  have ident : ∀ ch ∈ cs.takeWhile Char.isDigit, Text.isIdentChar ch = true :=
    fun ch member => Numeral.isIdentChar_of_isDigit (digits ch member)
  rw [Bound.isDecimal.eq_def] at decimal
  dsimp only at decimal
  split at decimal
  · next fraction point =>
    rw [point] at divided
    rw [← divided] at reads
    exact absurd reads (not_reads_point ident)
  · rw [Bool.and_eq_true, Bool.not_eq_true', List.isEmpty_eq_false_iff] at decimal
    rw [← divided] at reads ⊢
    have behind := isIdentChar_of_isExponent decimal.1 digits reads decimal.2
    exact List.forall_mem_append.mpr ⟨ident, behind⟩

/-- A floating point number that is also a term is a word. -/
theorem isIdentChar_of_isNumber {cs : List Char} {e : Term} (reads : read? cs = some e)
    (unsigned : cs.head? ≠ some '-') (number : Bound.isNumber cs = true) :
    ∀ ch ∈ cs, Text.isIdentChar ch = true := by
  rw [Bound.isNumber.eq_def] at number
  split at number
  · next rest => exact absurd rfl (ne_plus_of_read? reads rest)
  · exact absurd rfl unsigned
  · rw [Bool.or_eq_true] at number
    rcases number with decimal | special
    · exact isIdentChar_of_isDecimal reads decimal
    · exact isIdentChar_of_isSpecialNumber special

/-! ## Integers -/

theorem value_word {cs : List Char} {n : Nat} (found : Numeral.natural? cs = some n)
    (names : List Char → Int) : (Term.word cs).value names = some (n : Int) := by
  rw [Term.value, found]
  rfl

theorem isOperand_of_natural? {cs : List Char} {n : Nat} (found : Numeral.natural? cs = some n) :
    isOperand cs = true := by
  rw [isOperand, found]
  rfl

theorem read?_natural? {cs : List Char} {n : Nat} (found : Numeral.natural? cs = some n) :
    read? cs = some (.word cs) ∧ read? ('-' :: cs) = some (.negative (.word cs)) := by
  obtain ⟨⟨ch, rest, same, -⟩, ident⟩ := Numeral.natural?_shape found
  have given : cs ≠ [] := by rw [same]; exact List.cons_ne_nil ch rest
  have fits : (Term.word cs).Fits := isOperand_of_natural? found
  have divided := tokens?_of_isIdentChar given ident
  constructor
  · exact read?_eq_some_iff.mpr ⟨fits, divided⟩
  · refine read?_eq_some_iff.mpr ⟨⟨fits, signLevel_le_closedLevel⟩, ?_⟩
    rw [tokens?_minus_ident given ident, divided]
    rfl

/-- The text of an integer is a term that has its value. -/
theorem exists_read?_toString (n : Int) :
    ∃ e, read? (toString n).toList = some e ∧ ∀ names, e.value names = some n := by
  cases n with
  | ofNat n =>
    have literal := Numeral.natural?_toDigits n
    rw [Numeral.toList_toString_ofNat]
    exact ⟨_, (read?_natural? literal).1, value_word literal⟩
  | negSucc n =>
    have literal := Numeral.natural?_toDigits (n + 1)
    rw [Numeral.toList_toString_negSucc]
    refine ⟨_, (read?_natural? literal).2, fun names => ?_⟩
    rw [Term.value, value_word literal]
    rfl

theorem natural?_of_digits? {w : List Char} {n : Nat} (digits : Bound.digits? w = some n)
    (operand : isOperand w = true) : Numeral.natural? w = some n := by
  obtain ⟨all, rfl⟩ := Numeral.ofDigitChars_of_digits? digits
  cases found : Numeral.natural? w with
  | some k => rw [Numeral.natural?_of_isDigit all found]
  | none =>
    rw [isOperand, found] at operand
    cases w with
    | nil => cases operand
    | cons ch w => simp [all ch List.mem_cons_self] at operand

/-- What is computed with as an integer of 64 bits is a literal with a minus sign or none. -/
theorem literal_of_int64? {cs : List Char} {e : Term} {n : Int} (reads : read? cs = some e)
    (found : Bound.int64? cs = some n) :
    ∃ w, ∃ k : Nat, Numeral.natural? w = some k ∧
      (e = .word w ∧ n = k ∨ e = .negative (.word w) ∧ n = -k) := by
  have ident {w : List Char} {j : Nat} (digits : Bound.digits? w = some j) :
      ∀ ch ∈ w, Text.isIdentChar ch = true := fun ch member =>
    Numeral.isIdentChar_of_isDigit ((Numeral.ofDigitChars_of_digits? digits).1 ch member)
  have read := (Option.filter_eq_some_iff.mp found).1
  rw [Bound.integer?.eq_def] at read
  split at read
  · next rest => exact absurd rfl (ne_plus_of_read? reads rest)
  · next rest =>
    obtain ⟨j, digits, rfl⟩ := Option.map_eq_some_iff.mp read
    have given : rest ≠ [] := by
      rintro rfl
      cases digits
    obtain ⟨operand, same⟩ := eq_negative_of_read? given (ident digits) reads
    exact ⟨rest, j, natural?_of_digits? digits operand, .inr ⟨same, rfl⟩⟩
  · obtain ⟨j, digits, rfl⟩ := Option.map_eq_some_iff.mp read
    obtain ⟨-, operand, same⟩ := eq_word_of_read? (ident digits) reads
    exact ⟨cs, j, natural?_of_digits? digits operand, .inl ⟨same, rfl⟩⟩

theorem read?_trim (cs : List Char) : read? (Text.trim cs) = read? cs := by
  rw [read?, read?, tokens?_trim]

end Dialect.Arithmetic
