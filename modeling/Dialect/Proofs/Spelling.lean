import Dialect.Json.Parsing
import Dialect.Json.Writing
import Mathlib.Data.List.TakeWhile

/-!
# The spelling of JSON

A text spells a value when it follows the standard syntax, with blanks wherever they may stand. Main
statements: a text that spells a value is parsed as that value, and both ways of writing a value
spell it. Numbers are left out.
-/

namespace Dialect.Json

/-! ## Strings -/

theorem hexDigit?_hexDigit : ∀ n < 16, hexDigit? (hexDigit n) = some n := by
  decide

theorem lacksDigits_of_four (a b c d : Char) (cs : List Char) :
    lacksDigits (a :: b :: c :: d :: cs) = false := by
  have ha := a.utf8Size_pos
  have hb := b.utf8Size_pos
  have hc := c.utf8Size_pos
  have hd := d.utf8Size_pos
  simp only [lacksDigits, List.take_succ_cons, List.take_zero, Text.byteLength,
    decide_eq_false_iff_not]
  omega

/-- A control character is written with four digits. -/
theorem scanString_control {ch : Char} (control : ch.toNat < 0x20) (cs : List Char) :
    scanString .escape ('u' :: '0' :: '0' :: hexDigit (ch.toNat / 16) ::
      hexDigit (ch.toNat % 16) :: cs) = (scanString .plain cs).cons ch := by
  have upper := hexDigit?_hexDigit (ch.toNat / 16) (by omega)
  have lower := hexDigit?_hexDigit (ch.toNat % 16) (by omega)
  have zero : hexDigit? '0' = some 0 := by decide
  have value : ch.toNat / 16 * 16 + ch.toNat % 16 = ch.toNat := by omega
  have notLeading : isLeading ch.toNat = false := by simp [isLeading]; omega
  have notTrailing : isTrailing ch.toNat = false := by simp [isTrailing]; omega
  simp [scanString, lacksDigits_of_four, upper, lower, zero, value, notLeading, notTrailing]

/-- A written character is read back. -/
theorem scanString_escape (ch : Char) (cs : List Char) :
    scanString .plain (escape ch ++ cs) = (scanString .plain cs).cons ch := by
  unfold escape
  split
  · rfl
  · rfl
  · rfl
  · rfl
  · rfl
  · rfl
  · rfl
  · split
    · next control => exact scanString_control control cs
    · next visible =>
      have notQuote : ch ≠ '"' := by rintro rfl; contradiction
      have notBackslash : ch ≠ '\\' := by rintro rfl; contradiction
      simp [scanString, notQuote, notBackslash, visible]

theorem scanString_quoted (text rest : List Char) :
    scanString .plain (text.flatMap escape ++ '"' :: rest) = ⟨.ok text, .ok rest⟩ := by
  induction text with
  | nil => rfl
  | cons ch text ih =>
    rw [List.flatMap_cons, List.append_assoc, scanString_escape, ih]
    rfl

/-! ## Texts that spell a value -/

def Blank (cs : List Char) : Prop :=
  ∀ ch ∈ cs, isBlank ch = true

theorem blank_nil : Blank [] := by
  intro ch member
  cases member

theorem skipBlank_append {bs : List Char} {c : Char} (blank : Blank bs)
    (visible : isBlank c = false) (cs : List Char) : skipBlank (bs ++ c :: cs) = c :: cs := by
  rw [skipBlank, List.dropWhile_append_of_pos blank, List.dropWhile_cons_of_neg (by simp [visible])]

mutual

/-- A text that stands for a value without numbers. -/
inductive Spells : Json → List Char → Prop where
  | null : Spells .null "null".toList
  | bool (value : Bool) : Spells (.bool value) (if value then "true" else "false").toList
  | string (text : String) : Spells (.string text) (quoted text)
  | array {items cs} : SpellsItems true items cs → Spells (.array items none) ('[' :: cs)
  | object {members cs} : SpellsMembers true members cs → Spells (.object members none) ('{' :: cs)

/-- What stands behind the bracket of an array or, unless `first`, behind an item. -/
inductive SpellsItems : Bool → List Json → List Char → Prop where
  | close {first as} : Blank as → SpellsItems first [] (as ++ [']'])
  | first {as j cs js ds} : Blank as → Spells j cs → SpellsItems false js ds →
    SpellsItems true (j :: js) (as ++ cs ++ ds)
  | next {as bs j cs js ds} : Blank as → Blank bs → Spells j cs → SpellsItems false js ds →
    SpellsItems false (j :: js) (as ++ ',' :: (bs ++ cs ++ ds))

/-- What stands behind the brace of an object or, unless `first`, behind a member. -/
inductive SpellsMembers : Bool → List JsonMember → List Char → Prop where
  | close {first as} : Blank as → SpellsMembers first [] (as ++ ['}'])
  | first {as ms cs} : Blank as → SpellsMember ms cs → SpellsMembers true ms (as ++ cs)
  | next {as bs ms cs} : Blank as → Blank bs → SpellsMember ms cs →
    SpellsMembers false ms (as ++ ',' :: (bs ++ cs))

/-- A member and those behind it. -/
inductive SpellsMember : List JsonMember → List Char → Prop where
  | mk {key as bs j cs ms ds} : Blank as → Blank bs → Spells j cs → SpellsMembers false ms ds →
    SpellsMember (⟨.ok key, j⟩ :: ms) (quoted key ++ (as ++ ':' :: (bs ++ cs ++ ds)))

end

/-- A value begins with a character of its own. -/
theorem Spells.head {j : Json} {cs : List Char} (spelled : Spells j cs) :
    ∃ ch tail, cs = ch :: tail ∧ isBlank ch = false ∧ ch ≠ ']' := by
  cases spelled with
  | null => exact ⟨_, _, rfl, by decide, by decide⟩
  | bool value => cases value <;> exact ⟨_, _, rfl, by decide, by decide⟩
  | string text => exact ⟨_, _, rfl, by decide, by decide⟩
  | array items => exact ⟨_, _, rfl, by decide, by decide⟩
  | object members => exact ⟨_, _, rfl, by decide, by decide⟩

theorem SpellsMember.head {ms : List JsonMember} {cs : List Char} (spelled : SpellsMember ms cs) :
    ∃ tail, cs = '"' :: tail := by
  cases spelled
  exact ⟨_, rfl⟩

theorem SpellsItems.length_pos {first : Bool} {js : List Json} {cs : List Char}
    (spelled : SpellsItems first js cs) : 0 < cs.length := by
  cases spelled with
  | close => simp
  | first _ value _ =>
    obtain ⟨ch, tail, rfl, -⟩ := value.head
    simp only [List.length_append, List.length_cons]
    omega
  | next => simp only [List.length_append, List.length_cons]; omega

theorem SpellsMembers.length_pos {first : Bool} {ms : List JsonMember} {cs : List Char}
    (spelled : SpellsMembers first ms cs) : 0 < cs.length := by
  cases spelled with
  | close => simp
  | first _ member =>
    obtain ⟨tail, rfl⟩ := member.head
    simp only [List.length_append, List.length_cons]
    omega
  | next => simp only [List.length_append, List.length_cons]; omega

/-! ## Parsing -/

theorem stringValue_quoted (text : String) (rest : List Char) :
    stringValue (text.toList.flatMap escape ++ '"' :: rest) = (.string text, some rest) := by
  simp [stringValue, scanString_quoted]

mutual

/-- So many steps are enough as the text has characters, and blanks before it cost nothing. -/
theorem parseValue_spelled {j : Json} {as cs : List Char} :
    ∀ n, Blank as → Spells j cs → cs.length < n → ∀ rest,
      parseValue n (as ++ (cs ++ rest)) = (j, some rest)
  | 0, _, _, enough, _ => by omega
  | n + 1, blank, spelled, enough, rest => by
    obtain ⟨ch, tail, shape, visible, -⟩ := spelled.head
    rw [parseValue, shape, List.cons_append, skipBlank_append blank visible]
    cases spelled with
    | null => cases shape; rfl
    | bool value => cases value <;> (cases shape; rfl)
    | string text =>
      cases shape
      simp [stringValue_quoted]
    | array items =>
      cases shape
      have read := parseItems_spelled n items (by simpa using enough) rest
      simp [read]
    | object members =>
      cases shape
      have read := parseMembers_spelled n members (by simpa using enough) rest
      simp [read]

theorem parseItems_spelled {first : Bool} {js : List Json} {cs : List Char} :
    ∀ n, SpellsItems first js cs → cs.length < n → ∀ rest,
      parseItems n first (cs ++ rest) = (js, none, some rest)
  | 0, _, enough, _ => by omega
  | n + 1, spelled, enough, rest => by
    cases spelled with
    | close blank =>
      rw [parseItems, List.append_assoc, List.singleton_append,
        skipBlank_append blank (by decide)]
      rfl
    | first blank value items =>
      have size := items.length_pos
      obtain ⟨ch, tail, rfl, visible, other⟩ := value.head
      simp only [List.length_append, List.length_cons] at enough
      have read := parseValue_spelled n blank_nil value (by simp; omega)
      have behind := parseItems_spelled n items (by omega) rest
      simp only [List.nil_append, List.cons_append] at read
      rw [parseItems, List.append_assoc, List.append_assoc, List.cons_append,
        skipBlank_append blank visible]
      simp [other, read, behind]
    | next blank blank' value items =>
      simp only [List.length_append, List.length_cons] at enough
      have size := items.length_pos
      have read := parseValue_spelled n blank' value (by omega)
      have behind := parseItems_spelled n items (by omega) rest
      rw [parseItems, List.append_assoc, List.cons_append, skipBlank_append blank (by decide)]
      simp [read, behind]

theorem parseMembers_spelled {first : Bool} {ms : List JsonMember} {cs : List Char} :
    ∀ n, SpellsMembers first ms cs → cs.length < n → ∀ rest,
      parseMembers n first (cs ++ rest) = (ms, none, some rest)
  | 0, _, enough, _ => by omega
  | n + 1, spelled, enough, rest => by
    cases spelled with
    | close blank =>
      rw [parseMembers, List.append_assoc, List.singleton_append,
        skipBlank_append blank (by decide)]
      rfl
    | first blank member =>
      simp only [List.length_append] at enough
      have read := parseMember_spelled n member (by omega) rest
      obtain ⟨tail, rfl⟩ := member.head
      rw [List.cons_append] at read
      rw [parseMembers, List.append_assoc, List.cons_append, skipBlank_append blank (by decide)]
      simp [read]
    | next blank blank' member =>
      simp only [List.length_append, List.length_cons] at enough
      have read := parseMember_spelled n member (by omega) rest
      obtain ⟨tail, rfl⟩ := member.head
      rw [List.cons_append] at read
      rw [parseMembers, List.append_assoc, List.cons_append, skipBlank_append blank (by decide)]
      have skipped := skipBlank_append blank' (c := '"') (by decide) (tail ++ rest)
      simp [skipped, read]

theorem parseMember_spelled {ms : List JsonMember} {cs : List Char} :
    ∀ n, SpellsMember ms cs → cs.length ≤ n → ∀ rest,
      parseMember n (cs ++ rest) = (ms, none, some rest)
  | 0, spelled, enough, _ => by cases spelled; simp [quoted] at enough
  | n + 1, spelled, enough, rest => by
    cases spelled with
    | mk blank blank' value members =>
      simp only [quoted, List.length_append, List.length_cons] at enough
      have size := members.length_pos
      have read := parseValue_spelled n blank' value (by omega)
      have behind := parseMembers_spelled n members (by omega) rest
      have colon (cs : List Char) := skipBlank_append blank (c := ':') (by decide) cs
      simp [quoted, parseMember, scanString_quoted, colon, read, behind, Except.map]

end

/-- A text that spells a value is parsed as that value, whatever blanks stand around it. -/
theorem parse_spelled {j : Json} {cs bs : List Char} (spelled : Spells j cs) (blank : Blank bs) :
    parse (cs ++ bs) = ⟨j, none⟩ := by
  have read := parseValue_spelled (4 * (cs ++ bs).length + 4) blank_nil spelled (by simp; omega) bs
  have ended : skipBlank bs = [] := by
    rw [skipBlank, List.dropWhile_eq_nil_iff]
    exact blank
  rw [List.nil_append] at read
  simp only [parse, read, ended, Option.bind_some, List.isEmpty_nil, if_true]

/-! ## Writing -/

mutual

/-- A value without numbers and faults. -/
def Textual : Json → Prop
  | .null | .bool _ | .string _ => True
  | .number _ | .flawed _ _ => False
  | .array items fault => TextualItems items ∧ fault = none
  | .object members fault => TextualMembers members ∧ fault = none

def TextualItems : List Json → Prop
  | [] => True
  | j :: js => Textual j ∧ TextualItems js

def TextualMembers : List JsonMember → Prop
  | [] => True
  | .mk (.ok _) j :: ms => Textual j ∧ TextualMembers ms
  | .mk (.error _) _ :: _ => False

end

@[simp]
theorem textual_list {js : List Json} : Textual (.list js) ↔ ∀ j ∈ js, Textual j := by
  simp only [Json.list, Textual, and_true]
  induction js with
  | nil => simp [TextualItems]
  | cons j js ih => simp [TextualItems, ih]

@[simp]
theorem textual_record {ms : List (String × Json)} :
    Textual (.record ms) ↔ ∀ m ∈ ms, Textual m.2 := by
  simp only [Json.record, Textual, and_true]
  induction ms with
  | nil => simp [TextualMembers]
  | cons m ms ih => simp [TextualMembers, ih]

mutual

theorem spells_compactChars : ∀ {j : Json}, Textual j → Spells j (compactChars j)
  | .null, _ => .null
  | .bool value, _ => .bool value
  | .string text, _ => .string text
  | .array _ _, ⟨items, rfl⟩ => .array (spells_compactItems true items)
  | .object _ _, ⟨members, rfl⟩ => .object (spells_compactMembers true members)

theorem spells_compactItems (first : Bool) :
    ∀ {js : List Json}, TextualItems js → SpellsItems first js (compactItems first js ++ [']'])
  | [], _ => .close blank_nil
  | j :: js, ⟨value, items⟩ => by
    have head := spells_compactChars value
    have tail := spells_compactItems false items
    cases first with
    | true => simpa [compactItems] using SpellsItems.first blank_nil head tail
    | false => simpa [compactItems] using SpellsItems.next blank_nil blank_nil head tail

theorem spells_compactMembers (first : Bool) :
    ∀ {ms : List JsonMember}, TextualMembers ms →
      SpellsMembers first ms (compactMembers first ms ++ ['}'])
  | [], _ => .close blank_nil
  | .mk (.ok key) j :: ms, ⟨value, members⟩ => by
    have head := spells_compactChars value
    have tail := spells_compactMembers false members
    have member : SpellsMember (⟨.ok key, j⟩ :: ms) _ := .mk blank_nil blank_nil head tail
    cases first with
    | true => simpa [compactMembers, Except.toOption] using SpellsMembers.first blank_nil member
    | false =>
      simpa [compactMembers, Except.toOption] using SpellsMembers.next blank_nil blank_nil member

end

theorem blank_newline (depth : Nat) : Blank (newline depth) := by
  intro ch member
  rcases List.mem_cons.mp member with rfl | member
  · rfl
  · rw [List.eq_of_mem_replicate member]
    rfl

theorem blank_space : Blank [' '] := by
  intro ch member
  rw [List.mem_singleton.mp member]
  rfl

mutual

theorem spells_prettyChars (depth : Nat) :
    ∀ {j : Json}, Textual j → Spells j (prettyChars depth j)
  | .null, _ => .null
  | .bool value, _ => .bool value
  | .string text, _ => .string text
  | .array [] _, ⟨_, rfl⟩ => .array (.close blank_nil)
  | .array (j :: js) _, ⟨⟨value, items⟩, rfl⟩ => by
    have head := spells_prettyChars (depth + 1) value
    have tail := spells_prettyItems (depth + 1) depth items
    simpa [prettyChars] using Spells.array (.first (blank_newline (depth + 1)) head tail)
  | .object [] _, ⟨_, rfl⟩ => .object (.close blank_nil)
  | .object (.mk (.ok key) j :: ms) _, ⟨⟨value, members⟩, rfl⟩ => by
    have head := spells_prettyChars (depth + 1) value
    have tail := spells_prettyMembers (depth + 1) depth members
    have member : SpellsMember (⟨.ok key, j⟩ :: ms) _ := .mk blank_nil blank_space head tail
    simpa [prettyChars, Except.toOption] using
      Spells.object (.first (blank_newline (depth + 1)) member)

/-- The items behind the first one, and the line that closes the array. -/
theorem spells_prettyItems (depth outer : Nat) :
    ∀ {js : List Json}, TextualItems js →
      SpellsItems false js (prettyItems depth js ++ (newline outer ++ [']']))
  | [], _ => .close (blank_newline outer)
  | j :: js, ⟨value, items⟩ => by
    have head := spells_prettyChars depth value
    have tail := spells_prettyItems depth outer items
    simpa [prettyItems] using SpellsItems.next blank_nil (blank_newline depth) head tail

theorem spells_prettyMembers (depth outer : Nat) :
    ∀ {ms : List JsonMember}, TextualMembers ms →
      SpellsMembers false ms (prettyMembers depth ms ++ (newline outer ++ ['}']))
  | [], _ => .close (blank_newline outer)
  | .mk (.ok key) j :: ms, ⟨value, members⟩ => by
    have head := spells_prettyChars depth value
    have tail := spells_prettyMembers depth outer members
    have member : SpellsMember (⟨.ok key, j⟩ :: ms) _ := .mk blank_nil blank_space head tail
    simpa [prettyMembers, Except.toOption] using
      SpellsMembers.next blank_nil (blank_newline depth) member

end

end Dialect.Json
