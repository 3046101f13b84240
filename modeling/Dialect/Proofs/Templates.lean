import Dialect.Template
import Mathlib.Data.List.Infix

/-!
# Templates of two dialects

A template alternates texts and interpolations, and its conversion writes them one by one. Main
statements: a formatted string reads back as the template it was made of exactly when no
interpolation begins with a brace; and in its own dialect a template stays what it is exactly when
no backtick of its texts stands without a backslash.
-/

namespace Dialect.Template

/-! ## One step of the conversion -/

section

variable (t : TemplateSyntax)

theorem scan_nil (depth : Nat) : scan t depth [] = [] := by
  rw [scan]

theorem scan_within (depth : Nat) {c : Char} (cs : List Char) (first : c ≠ '{') (last : c ≠ '}') :
    scan t (depth + 1) (c :: cs) = c :: scan t (depth + 1) cs := by
  rw [scan, if_neg first, if_neg last]

theorem scan_open (depth : Nat) (cs : List Char) :
    scan t (depth + 1) ('{' :: cs) = '{' :: scan t (depth + 2) cs := by
  rw [scan, if_pos rfl]

theorem scan_close (depth : Nat) (cs : List Char) :
    scan t (depth + 2) ('}' :: cs) = '}' :: scan t (depth + 1) cs := by
  rw [scan, if_neg (by decide), if_pos rfl, if_neg (Nat.succ_ne_zero depth)]

theorem scan_end (cs : List Char) :
    scan t 1 ('}' :: cs) = t.interpolationEnd.toList ++ scan t 0 cs := by
  rw [scan, if_neg (by decide), if_pos rfl, if_pos rfl]

theorem scan_start (cs : List Char) :
    scan t 0 ('$' :: '{' :: cs) = t.interpolationStart.toList ++ scan t 1 cs := by
  rw [scan]

theorem scan_literal {c : Char} {cs : List Char} (plain : c ≠ '\\')
    (apart : c = '$' → cs.head? ≠ some '{') :
    scan t 0 (c :: cs) = literalChar t c ++ scan t 0 cs := by
  rw [scan.eq_def]
  split
  all_goals simp_all

end

/-! ## Texts and interpolations -/

def ticked (cs : List Char) : String :=
  String.ofList ('\x60' :: cs ++ ['\x60'])

theorem inner_ticked (cs : List Char) : inner (ticked cs).toList = cs := by
  simp [ticked, inner]

/-- The texts of a template, which may be empty, and the interpolations between them. -/
inductive Pieces where
  | last (text : List Char)
  | next (text content : List Char) (rest : Pieces)
  deriving DecidableEq, Repr

/-- The text closes `depth` braces and all that it opens, none before it is open. -/
inductive Balanced : Nat → List Char → Prop where
  | nil : Balanced 0 []
  | opening {depth : Nat} {cs : List Char} :
      Balanced (depth + 1) cs → Balanced depth ('{' :: cs)
  | closing {depth : Nat} {cs : List Char} :
      Balanced depth cs → Balanced (depth + 1) ('}' :: cs)
  | other {depth : Nat} {c : Char} {cs : List Char} :
      c ≠ '{' → c ≠ '}' → Balanced depth cs → Balanced depth (c :: cs)

def isBalanced : Nat → List Char → Bool
  | depth, [] => depth = 0
  | depth, c :: cs =>
    if c = '{' then isBalanced (depth + 1) cs
    else if c = '}' then depth ≠ 0 && isBalanced (depth - 1) cs
    else isBalanced depth cs

theorem isBalanced_iff {depth : Nat} {cs : List Char} :
    isBalanced depth cs = true ↔ Balanced depth cs := by
  constructor
  · intro checked
    induction cs generalizing depth with
    | nil =>
      obtain rfl : depth = 0 := by simpa [isBalanced] using checked
      exact .nil
    | cons c cs ih =>
      rw [isBalanced] at checked
      by_cases first : c = '{'
      · rw [if_pos first] at checked
        exact first ▸ .opening (ih checked)
      · rw [if_neg first] at checked
        by_cases last : c = '}'
        · rw [if_pos last, Bool.and_eq_true, decide_eq_true_eq] at checked
          obtain ⟨below, rfl⟩ := Nat.exists_eq_succ_of_ne_zero checked.1
          exact last ▸ .closing (ih checked.2)
        · rw [if_neg last] at checked
          exact .other first last (ih checked)
  · intro balanced
    induction balanced with
    | nil => rfl
    | opening _ ih => simpa [isBalanced] using ih
    | closing _ ih => simpa [isBalanced] using ih
    | other first last _ ih => simpa [isBalanced, first, last] using ih

instance (depth : Nat) (cs : List Char) : Decidable (Balanced depth cs) :=
  decidable_of_iff _ isBalanced_iff

namespace Pieces

def texts : Pieces → List (List Char)
  | last text => [text]
  | next text _ rest => text :: rest.texts

def contents : Pieces → List (List Char)
  | last _ => []
  | next _ content rest => content :: rest.contents

/-- The texts hold no escape and no start of an interpolation, the braces of an interpolation are
balanced, and no quote stands in it. -/
structure Regular (p : Pieces) : Prop where
  texts : ∀ text ∈ p.texts, '\\' ∉ text ∧ ¬['$', '{'] <:+: text
  contents : ∀ content ∈ p.contents, Balanced 0 content ∧ '\'' ∉ content

def inner : Pieces → List Char
  | last text => text
  | next text content rest => text ++ '$' :: '{' :: (content ++ '}' :: rest.inner)

def source (p : Pieces) : String :=
  ticked p.inner

def written (t : TemplateSyntax) : Pieces → List Char
  | last text => text.flatMap (literalChar t)
  | next text content rest =>
    text.flatMap (literalChar t) ++
      (t.interpolationStart.toList ++ (content ++ (t.interpolationEnd.toList ++ rest.written t)))

theorem Regular.rest {text content : List Char} {p : Pieces}
    (regular : (next text content p).Regular) : p.Regular where
  texts u member := regular.texts u (List.mem_cons_of_mem text member)
  contents u member := regular.contents u (List.mem_cons_of_mem content member)

end Pieces

/-- A text is converted character by character, up to what cannot be taken for its end. -/
theorem scan_text (t : TemplateSyntax) {text : List Char} (tail : List Char) (plain : '\\' ∉ text)
    (closed : ¬['$', '{'] <:+: text) (apart : tail.head? ≠ some '{') :
    scan t 0 (text ++ tail) = text.flatMap (literalChar t) ++ scan t 0 tail := by
  induction text with
  | nil => rfl
  | cons c text ih =>
    have rest : ¬['$', '{'] <:+: text := fun found => closed (List.infix_cons found)
    have next : c = '$' → (text ++ tail).head? ≠ some '{' := by
      rintro rfl
      cases text with
      | nil => exact apart
      | cons d text =>
        intro same
        obtain rfl : d = '{' := Option.some.inj same
        exact closed (List.prefix_append ['$', '{'] text).isInfix
    have first : c ≠ '\\' := fun same => plain (same ▸ List.mem_cons_self)
    have later : '\\' ∉ text := fun found => plain (List.mem_cons_of_mem c found)
    rw [List.cons_append, scan_literal t first next, ih later rest, List.flatMap_cons,
      List.append_assoc]

/-- Balanced braces lead back to the depth they began at, and everything up to there is kept. -/
theorem scan_content (t : TemplateSyntax) (outer : Nat) {depth : Nat} {content : List Char}
    (rest : List Char) (balanced : Balanced depth content) :
    scan t (outer + depth + 1) (content ++ rest) = content ++ scan t (outer + 1) rest := by
  induction balanced with
  | nil => rfl
  | opening _ ih =>
    rw [List.cons_append, List.cons_append, scan_open, ← ih]
    rfl
  | closing _ ih =>
    rw [List.cons_append, List.cons_append, ← ih]
    exact scan_close t _ _
  | other first last _ ih =>
    rw [List.cons_append, List.cons_append, scan_within _ _ _ first last, ih]

theorem scan_inner (t : TemplateSyntax) {p : Pieces} (regular : p.Regular) :
    scan t 0 p.inner = p.written t := by
  induction p with
  | last text =>
    obtain ⟨plain, closed⟩ := regular.texts text List.mem_cons_self
    have whole := scan_text t [] plain closed (by simp)
    rwa [List.append_nil, scan_nil, List.append_nil] at whole
  | next text content rest ih =>
    obtain ⟨plain, closed⟩ := regular.texts text List.mem_cons_self
    obtain ⟨balanced, -⟩ := regular.contents content List.mem_cons_self
    have inside := scan_content t 0 ('}' :: rest.inner) balanced
    rw [Pieces.inner, scan_text t _ plain closed (by simp), scan_start, Pieces.written]
    rw [inside, scan_end, ih regular.rest]

end Dialect.Template

/-! ## Formatted strings -/

namespace Dialect.Template.Pieces

def first : Pieces → List Char
  | last text => text
  | next text _ _ => text

def prepend (front : List Char) : Pieces → Pieces
  | last text => last (front ++ text)
  | next text content rest => next (front ++ text) content rest

theorem first_prepend (front : List Char) (p : Pieces) :
    (p.prepend front).first = front ++ p.first := by
  cases p <;> rfl

theorem prepend_prepend (as bs : List Char) (p : Pieces) :
    (p.prepend bs).prepend as = p.prepend (as ++ bs) := by
  cases p <;> simp [prepend]

end Dialect.Template.Pieces

namespace Dialect.FormattedString

open Template

mutual

/-- Reads texts: a brace stands twice for itself, alone it begins an interpolation; behind a
backslash a quote stands for itself, alone it would end the string. -/
def readText? : List Char → Option Pieces
  | [] => some (.last [])
  | ['\\'] => none
  | '\\' :: c :: cs => (readText? cs).map (.prepend (if c = '\'' then [c] else ['\\', c]))
  | '{' :: '{' :: cs => (readText? cs).map (.prepend ['{'])
  | '{' :: cs => (readContent? 0 cs).map fun found => .next [] found.1 found.2
  | '}' :: '}' :: cs => (readText? cs).map (.prepend ['}'])
  | '}' :: _ => none
  | '\'' :: _ => none
  | c :: cs => (readText? cs).map (.prepend [c])

/-- Reads an interpolation up to the brace that matches its first one, and what follows it; `depth`
braces have been opened in it. -/
def readContent? : Nat → List Char → Option (List Char × Pieces)
  | _, [] => none
  | depth, c :: cs =>
    if c = '\'' then none
    else if c = '{' then (readContent? (depth + 1) cs).map fun found => (c :: found.1, found.2)
    else if c = '}' then
      if depth = 0 then (readText? cs).map fun rest => ([], rest)
      else (readContent? (depth - 1) cs).map fun found => (c :: found.1, found.2)
    else (readContent? depth cs).map fun found => (c :: found.1, found.2)

end

def readChars? : List Char → Option Pieces
  | 'f' :: '\'' :: cs => if cs.getLast? = some '\'' then readText? cs.dropLast else none
  | _ => none

def read? (text : String) : Option Pieces :=
  readChars? text.toList

theorem readText?_open {cs : List Char} (apart : cs.head? ≠ some '{') :
    readText? ('{' :: cs) = (readContent? 0 cs).map fun found => .next [] found.1 found.2 := by
  rw [readText?]
  rintro more rfl
  exact apart rfl

theorem readText?_literal {c : Char} (plain : c ≠ '\\') (rest : List Char) :
    readText? (literalChar Grammar.python.template c ++ rest) =
      (readText? rest).map (.prepend [c]) := by
  by_cases first : c = '{'
  · subst first
    have doubled : literalChar Grammar.python.template '{' = ['{', '{'] := by decide
    rw [doubled, List.cons_append, List.singleton_append, readText?]
  · by_cases last : c = '}'
    · subst last
      have doubled : literalChar Grammar.python.template '}' = ['}', '}'] := by decide
      rw [doubled, List.cons_append, List.singleton_append, readText?]
    · by_cases quote : c = '\''
      · subst quote
        have escaped : literalChar Grammar.python.template '\'' = ['\\', '\''] := by decide
        rw [escaped, List.cons_append, List.singleton_append, readText?, if_pos rfl]
      · have closing : single? Grammar.python.template.closing = some '\'' := by decide
        have single : literalChar Grammar.python.template c = [c] := by
          simp [literalChar, first, last, closing, Ne.symm quote]
        rw [single, List.singleton_append, readText?]
        all_goals simp [plain, first, last, quote]

theorem readText?_literals {text : List Char} (plain : '\\' ∉ text) (rest : List Char) :
    readText? (text.flatMap (literalChar Grammar.python.template) ++ rest) =
      (readText? rest).map (.prepend text) := by
  induction text with
  | nil =>
    have same : Pieces.prepend [] = id := by
      funext p
      cases p <;> rfl
    rw [same, Option.map_id_fun]
    rfl
  | cons c text ih =>
    have first : c ≠ '\\' := fun same => plain (same ▸ List.mem_cons_self)
    have later : '\\' ∉ text := fun found => plain (List.mem_cons_of_mem c found)
    have both : Pieces.prepend [c] ∘ Pieces.prepend text = Pieces.prepend (c :: text) :=
      funext fun p => p.prepend_prepend [c] text
    rw [List.flatMap_cons, List.append_assoc, readText?_literal first, ih later, Option.map_map, both]

theorem readContent?_append (outer : Nat) {depth : Nat} {content : List Char} (rest : List Char)
    (balanced : Balanced depth content) (plain : '\'' ∉ content) :
    readContent? (outer + depth) (content ++ rest) =
      (readContent? outer rest).map fun found => (content ++ found.1, found.2) := by
  induction balanced with
  | nil => simp
  | opening _ ih =>
    have later := fun quote => plain (List.mem_cons_of_mem _ quote)
    rw [List.cons_append, readContent?, if_neg (by decide), if_pos rfl, Nat.add_assoc, ih later,
      Option.map_map]
    rfl
  | closing _ ih =>
    have later := fun quote => plain (List.mem_cons_of_mem _ quote)
    rw [List.cons_append, readContent?, if_neg (by decide), if_neg (by decide), if_pos rfl,
      if_neg (by omega), ← Nat.add_assoc, Nat.add_sub_cancel, ih later, Option.map_map]
    rfl
  | @other depth c cs first last _ ih =>
    have quote : c ≠ '\'' := fun same => plain (same ▸ List.mem_cons_self)
    have later := fun quote => plain (List.mem_cons_of_mem c quote)
    rw [List.cons_append, readContent?, if_neg quote, if_neg first, if_neg last, ih later,
      Option.map_map]
    rfl

theorem readText?_interpolation {content : List Char} (rest : List Char)
    (balanced : Balanced 0 content) (plain : '\'' ∉ content)
    (apart : content.head? ≠ some '{') :
    readText? ('{' :: (content ++ '}' :: rest)) = (readText? rest).map (.next [] content) := by
  have next : (content ++ '}' :: rest).head? ≠ some '{' := by
    cases content with
    | nil => simp
    | cons c content => exact apart
  have inside := readContent?_append 0 ('}' :: rest) balanced plain
  rw [readText?_open next, inside, readContent?, if_neg (by decide), if_neg (by decide), if_pos rfl,
    if_pos rfl, Option.map_map, Option.map_map]
  congr 1
  funext p
  simp

/-- The written pieces read back exactly when no interpolation begins with a brace: with the start of
the interpolation, it would read as a brace of the text. -/
theorem readText?_written_iff {p : Pieces} (regular : p.Regular) :
    readText? (p.written Grammar.python.template) = some p ↔
      ∀ content ∈ p.contents, content.head? ≠ some '{' := by
  induction p with
  | last text =>
    obtain ⟨plain, -⟩ := regular.texts text List.mem_cons_self
    have read := readText?_literals plain []
    rw [List.append_nil] at read
    rw [Pieces.written, read]
    simp [readText?, Pieces.prepend, Pieces.contents]
  | next text content rest ih =>
    obtain ⟨plain, -⟩ := regular.texts text List.mem_cons_self
    obtain ⟨balanced, quote⟩ := regular.contents content List.mem_cons_self
    have start : Grammar.python.template.interpolationStart.toList = ['{'] := by decide
    have stop : Grammar.python.template.interpolationEnd.toList = ['}'] := by decide
    rw [Pieces.written, readText?_literals plain, start, stop, List.singleton_append,
      List.singleton_append, Pieces.contents, List.forall_mem_cons]
    by_cases apart : content.head? = some '{'
    · obtain ⟨more, rfl⟩ := List.head?_eq_some_iff.mp apart
      constructor
      · -- the start and the brace are read as one brace of the text, which gets longer by it
        intro read
        rw [List.cons_append, readText?, Option.map_map] at read
        obtain ⟨p, -, same⟩ := Option.map_eq_some_iff.mp read
        have longer := congrArg Pieces.first same
        rw [Function.comp_apply, Pieces.first_prepend, Pieces.first_prepend] at longer
        have lengths := congrArg List.length longer
        simp [Pieces.first] at lengths
      · intro all
        exact absurd apart all.1
    · rw [readText?_interpolation _ balanced quote apart, Option.map_map, ← ih regular.rest]
      constructor
      · intro read
        obtain ⟨p, found, same⟩ := Option.map_eq_some_iff.mp read
        obtain ⟨-, -, rfl⟩ : text ++ [] = text ∧ content = content ∧ p = rest := by
          simpa [Pieces.prepend] using same
        exact ⟨apart, found⟩
      · rintro ⟨-, found⟩
        rw [found]
        simp [Pieces.prepend]

theorem readChars?_quoted (cs : List Char) :
    readChars? (Grammar.python.template.opening.toList ++ cs ++
      Grammar.python.template.closing.toList) = readText? cs := by
  have opening : Grammar.python.template.opening.toList = ['f', '\''] := by decide
  have closing : Grammar.python.template.closing.toList = ['\''] := by decide
  simp [opening, closing, readChars?]

/-- The formatted string that a template is converted to reads as the texts and interpolations of
the template exactly when no interpolation begins with a brace. -/
theorem convert_reads_back_iff (p : Pieces) (regular : p.Regular) :
    read? (convert Grammar.python.template p.source) = some p ↔
      ∀ content ∈ p.contents, content.head? ≠ some '{' := by
  rw [read?, convert, String.toList_ofList, convertChars, Pieces.source, inner_ticked,
    scan_inner _ regular, readChars?_quoted]
  exact readText?_written_iff regular

theorem convert_reads_back_adjacent :
    let p : Pieces := .next "it's $".toList "f(\x7ba: [\x7b\x7d]\x7d)".toList
      (.next "\x7d\x7b$".toList [] (.next [] "x\x7b\x7d".toList (.last "\x7d\x7d $".toList)))
    p.Regular ∧ (∀ content ∈ p.contents, content.head? ≠ some '{') ∧
      read? (convert Grammar.python.template p.source) = some p := by
  intro p
  have regular : p.Regular := ⟨by decide, by decide⟩
  have apart : ∀ content ∈ p.contents, content.head? ≠ some '{' := by decide
  exact ⟨regular, apart, (convert_reads_back_iff p regular).mpr apart⟩

/-- An interpolation that begins with a brace is lost: it reads as text. -/
theorem brace_behind_start_reads_as_text :
    let p : Pieces := .next "v=".toList "\x7ba\x7d".toList (.last [])
    p.Regular ∧ convert Grammar.python.template p.source = "f'v=\x7b\x7ba\x7d\x7d'" ∧
      read? (convert Grammar.python.template p.source) = some (.last "v=\x7ba\x7d".toList) := by
  intro p
  exact ⟨⟨by decide, by decide⟩, by decide +kernel, by decide +kernel⟩

end Dialect.FormattedString

/-! ## Templates in their own dialect -/

namespace Dialect.Template

/-- The delimiters templates have in the source. -/
def ownSyntax : TemplateSyntax where
  opening := "\x60"
  closing := "\x60"
  interpolationStart := "$\x7b"
  interpolationEnd := "\x7d"

/-- Where a character of a template stands. -/
inductive Place where
  | text
  /-- In a text, behind a dollar sign. -/
  | dollar
  /-- Behind a backslash. -/
  | escaped
  /-- In an interpolation, with so many braces opened in it. -/
  | interpolation (depth : Nat)
  deriving DecidableEq, Repr

namespace Place

/-- Where the character behind `c` stands. -/
def next : Place → Char → Place
  | escaped, _ => text
  | interpolation depth, c =>
    if c = '{' then interpolation (depth + 1)
    else if c = '}' then (if depth = 0 then text else interpolation (depth - 1))
    else interpolation depth
  | dollar, c =>
    if c = '{' then interpolation 0 else if c = '\\' then escaped else if c = '$' then dollar else text
  | text, c => if c = '\\' then escaped else if c = '$' then dollar else text

def ends : Place → Bool
  | text | dollar => true
  | escaped | interpolation _ => false

end Place

/-- The backticks of texts that stand without a backslash. -/
def bareTicks : Place → List Char → Nat
  | _, [] => 0
  | place, c :: cs => (if c = '\x60' && place.ends then 1 else 0) + bareTicks (place.next c) cs

/-- Puts a backslash before each bare backtick. -/
def escapeTicks : Place → List Char → List Char
  | _, [] => []
  | place, c :: cs =>
    (if c = '\x60' && place.ends then ['\\', c] else [c]) ++ escapeTicks (place.next c) cs

theorem length_escapeTicks (place : Place) (cs : List Char) :
    (escapeTicks place cs).length = cs.length + bareTicks place cs := by
  induction cs generalizing place with
  | nil => rfl
  | cons c cs ih =>
    rw [escapeTicks, bareTicks, List.length_append, ih, List.length_cons]
    split
    · simp only [List.length_cons, List.length_nil]
      omega
    · simp only [List.length_cons, List.length_nil]
      omega

theorem escapeTicks_eq_self_iff (place : Place) (cs : List Char) :
    escapeTicks place cs = cs ↔ bareTicks place cs = 0 := by
  constructor
  · intro same
    have length := length_escapeTicks place cs
    rw [same] at length
    omega
  · intro none
    induction cs generalizing place with
    | nil => rfl
    | cons c cs ih =>
      rw [bareTicks] at none
      rw [escapeTicks, ih _ (by omega)]
      split
      · next bare =>
        rw [if_pos bare] at none
        omega
      · rfl

theorem escapeTicks_dollar {cs : List Char} (apart : cs.head? ≠ some '{') :
    escapeTicks .dollar cs = escapeTicks .text cs := by
  cases cs with
  | nil => rfl
  | cons c cs =>
    have other : c ≠ '{' := fun same => apart (congrArg some same)
    rw [escapeTicks, escapeTicks, Place.next, Place.next, if_neg other]
    rfl

/-- The place of a character at which some braces are open. -/
def Place.atDepth : Nat → Place
  | 0 => text
  | depth + 1 => interpolation depth

theorem literalChar_ownSyntax (c : Char) :
    literalChar ownSyntax c = if c = '\x60' && Place.text.ends then ['\\', c] else [c] := by
  have closing : single? ownSyntax.closing = some '\x60' := by decide
  have start : ownSyntax.interpolationStart ≠ "\x7b" := by decide
  by_cases tick : c = '\x60'
  · simp [literalChar, closing, start, tick, Place.ends]
  · simp [literalChar, closing, start, tick, Ne.symm tick, Place.ends]

/-- In its own dialect a template only gets the backslashes that its backticks lack. -/
theorem scan_ownSyntax (depth : Nat) (cs : List Char) :
    scan ownSyntax depth cs = escapeTicks (.atDepth depth) cs := by
  induction depth, cs using scan.induct with
  | case1 depth => cases depth <;> rfl
  | case2 depth cs ih =>
    rw [scan_open, ih]
    rfl
  | case3 cs _ ih =>
    rw [scan_end, ih]
    rfl
  | case4 depth cs deeper _ ih =>
    obtain ⟨below, rfl⟩ := Nat.exists_eq_succ_of_ne_zero deeper
    rw [scan_close, ih]
    rfl
  | case5 depth c cs first last ih =>
    rw [scan_within _ _ _ first last, ih]
    simp [escapeTicks, Place.atDepth, Place.next, Place.ends, first, last]
  | case6 => rfl
  | case7 c cs ih =>
    rw [scan, ih]
    simp [escapeTicks, Place.atDepth, Place.next, Place.ends]
  | case8 cs ih =>
    rw [scan_start, ih]
    rfl
  | case9 c cs alone escaping starting ih =>
    have plain : c ≠ '\\' := by
      intro same
      cases cs with
      | nil => exact alone same rfl
      | cons d cs => exact escaping d cs same rfl
    have apart (dollar : c = '$') : cs.head? ≠ some '{' := by
      intro brace
      obtain ⟨more, same⟩ := List.head?_eq_some_iff.mp brace
      exact starting more dollar same
    have onward : escapeTicks (Place.text.next c) cs = escapeTicks .text cs := by
      rw [Place.next, if_neg plain]
      split
      · next dollar => exact escapeTicks_dollar (apart dollar)
      · rfl
    rw [scan_literal _ plain apart, literalChar_ownSyntax, ih, Place.atDepth, escapeTicks, onward]

/-- In its own dialect a template stays what it is exactly when no backtick of its texts stands
without a backslash, whatever else stands between its backticks. -/
theorem convert_ownSyntax_eq_self_iff (cs : List Char) :
    convert ownSyntax (ticked cs) = ticked cs ↔ bareTicks .text cs = 0 := by
  have converted : convert ownSyntax (ticked cs) = ticked (escapeTicks .text cs) := by
    rw [convert, convertChars, inner_ticked, scan_ownSyntax]
    rfl
  rw [converted, ticked, ticked, String.ofList_inj, ← escapeTicks_eq_self_iff]
  simp

end Dialect.Template
