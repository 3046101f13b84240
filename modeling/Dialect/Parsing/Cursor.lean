import Dialect.Tree
import Dialect.Parsing.Lexeme

/-!
# Cursors and parsers

A cursor stands before a token, with the blanks and comments since the last token behind it. A
parser either fails, leaving nothing behind, or moves the cursor.
-/

namespace Dialect.Parsing

/-- What a character between two tokens belongs to. An unfinished block comment is no comment, so
the place where it starts is kept. -/
inductive Between where
  | blank
  | line
  | block (start : List Char) (offset : Nat)

/-- Skips white space and comments. Returns the rest, its offset, and whether a line break outside a
block comment was passed. -/
def skipTrivia : Between → List Char → Nat → Bool → List Char × Nat × Bool
  | .blank, '/' :: '/' :: cs, n, fresh => skipTrivia .line cs (n + 2) fresh
  | .blank, '/' :: '*' :: cs, n, fresh => skipTrivia (.block ('/' :: '*' :: cs) n) cs (n + 2) fresh
  | .blank, c :: cs, n, fresh =>
    if isSpace c then skipTrivia .blank cs (n + c.utf8Size) (fresh || isLineBreak c)
    else (c :: cs, n, fresh)
  | .line, c :: cs, n, fresh =>
    if isLineBreak c then skipTrivia .blank cs (n + c.utf8Size) true
    else skipTrivia .line cs (n + c.utf8Size) fresh
  | .block _ _, '*' :: '/' :: cs, n, fresh => skipTrivia .blank cs (n + 2) fresh
  | .block start offset, c :: cs, n, fresh =>
    skipTrivia (.block start offset) cs (n + c.utf8Size) fresh
  | .block start offset, [], _, fresh => (start, offset, fresh)
  | _, [], n, fresh => ([], n, fresh)

structure Cursor where
  /-- The text from the next token on, and its byte offset. -/
  rest : List Char
  offset : Nat
  /-- The text from the end of the last token on, and its byte offset. -/
  gap : List Char
  gapStart : Nat
  /-- A line break separates the two tokens. -/
  fresh : Bool
  /-- The byte length of the whole source. -/
  limit : Nat
  /-- A broken statement fails as a whole; otherwise it becomes an error node. -/
  strict : Bool
  /-- The parameters of an arrow function may be followed by its result type. -/
  resultTypes : Bool

/-- The cursor after a token that ends where `rest` begins. -/
def Cursor.after (c : Cursor) (rest : List Char) (offset : Nat) : Cursor :=
  let (next, place, fresh) := skipTrivia .blank rest offset false
  { c with rest := next, offset := place, gap := rest, gapStart := offset, fresh := fresh }

def Cursor.ofChars (cs : List Char) : Cursor :=
  Cursor.after ⟨[], 0, [], 0, false, Text.byteLength cs, false, true⟩ cs 0

abbrev Parser := StateT Cursor Option

/-! ## Looking ahead -/

def ahead : Parser (List Char) :=
  return (← get).rest

def here : Parser Nat :=
  return (← get).offset

/-- Where the last token ended. -/
def lastStop : Parser Nat :=
  return (← get).gapStart

def onFreshLine : Parser Bool :=
  return (← get).fresh

def atEnd : Parser Bool :=
  return (← get).rest.isEmpty

def peekWord : Parser String :=
  return String.ofList (wordAt (← get).rest)

def peekSymbol : Parser String :=
  return symbolAt (← get).rest

def nextChar? : Parser (Option Char) :=
  return (← get).rest.head?

/-- Runs a parser and stays where it was. -/
def lookahead (p : Parser α) : Parser α := do
  let c ← get
  let a ← p
  set c
  return a

def succeeds (p : Parser α) : Parser Bool :=
  (do let _ ← lookahead p; return true) <|> return false

/-- Fails when the parser would succeed here. -/
def notAhead (p : Parser α) : Parser Unit := do
  if ← succeeds p then failure

def guardThat (b : Bool) : Parser Unit :=
  if b then return () else failure

/-! ## Tokens -/

/-- Moves past a token of `bytes` bytes. -/
def advance (bytes : Nat) (rest : List Char) : Parser Span := do
  let c ← get
  set (c.after rest (c.offset + bytes))
  return ⟨c.offset, c.offset + bytes⟩

/-- Moves on by `bytes` bytes without skipping blanks. -/
def advanceRaw (bytes : Nat) (rest : List Char) : Parser Unit :=
  modify fun c =>
    { c with rest := rest, offset := c.offset + bytes, gap := rest, gapStart := c.offset + bytes }

def leaf (kind : Kind) (span : Span) : Tree :=
  .node .plain kind span []

/-- A leaf for the token a scanner accepts. -/
def lexeme (kind : Kind) (scan : List Char → Option (Nat × List Char)) : Parser Tree := do
  match scan (← ahead) with
  | some (bytes, rest) => return leaf kind (← advance bytes rest)
  | none => failure

def word (w : String) : Parser Tree := do
  let cs ← ahead
  let found := wordAt cs
  if found = w.toList then
    return leaf (.token w) (← advance (Text.byteLength found) (cs.drop found.length))
  else
    failure

def anyWord : Parser Tree := do
  let cs ← ahead
  let found := wordAt cs
  if found.isEmpty then failure
  return leaf (.token (String.ofList found))
    (← advance (Text.byteLength found) (cs.drop found.length))

def symbol (s : String) : Parser Tree := do
  let cs ← ahead
  if symbolAt cs = s then
    return leaf (.token s) (← advance s.length (cs.drop s.length))
  else
    failure

/-- One punctuation character, whatever follows it. -/
def mark (c : Char) : Parser Tree := do
  match ← ahead with
  | d :: rest => if c = d then return leaf (.token (toString c)) (← advance 1 rest) else failure
  | [] => failure

def identifier : Parser Tree := do
  let w ← peekWord
  if reservedWords.contains w then failure
  let t ← anyWord
  return t.withKind .identifier

/-! ## Repetition -/

def optionally (p : Parser α) : Parser (Option α) :=
  (do return some (← p)) <|> return none

/-- Zero or one tree, as a list. -/
def maybe (p : Parser Tree) : Parser (List Tree) :=
  (do return [← p]) <|> return []

def manyWithin : Nat → Parser α → Parser (List α)
  | 0, _ => return []
  | n + 1, p => do
    match ← optionally p with
    | none => return []
    | some a => return a :: (← manyWithin n p)

/-- As many as there are. Every round moves on, so the bytes left bound their number. -/
def many (p : Parser α) : Parser (List α) := do
  let c ← get
  manyWithin (c.limit - c.offset + 1) p

def extendWithin : Nat → (Tree → Parser Tree) → Tree → Parser Tree
  | 0, _, t => return t
  | n + 1, step, t => do
    match ← optionally (step t) with
    | none => return t
    | some t => extendWithin n step t

/-- Extends a tree for as long as a step applies. -/
def extendTree (step : Tree → Parser Tree) (t : Tree) : Parser Tree := do
  let c ← get
  extendWithin (c.limit - c.offset + 1) step t

/-- Runs a parser in which arrow functions may, or may not, declare their results. -/
def withResultTypes (allowed : Bool) (p : Parser α) : Parser α := do
  let before := (← get).resultTypes
  modify fun c => { c with resultTypes := allowed }
  let a ← p
  modify fun c => { c with resultTypes := before }
  return a

def commaWithin : Nat → String → Parser Tree → Parser (List Tree)
  | 0, _, _ => failure
  | n + 1, close, item => do
    if (← peekSymbol) = close then return []
    if (← peekSymbol) = "," then
      discard (symbol ",")
      commaWithin n close item
    else
      let t ← item
      if (← peekSymbol) = close then return [t]
      discard (symbol ",")
      return t :: (← commaWithin n close item)

/-- Items separated by commas up to a closing symbol, which stays. Places may be left out. -/
def commaUntil (close : String) (item : Parser Tree) : Parser (List Tree) := do
  let c ← get
  withResultTypes true (commaWithin (c.limit - c.offset + 2) close item)

/-- One item or more, separated by commas. -/
def commaList (item : Parser Tree) : Parser (List Tree) := do
  let first ← item
  let more ← many (do discard (symbol ","); item)
  return first :: more

/-! ## Nodes -/

/-- A node from `start` to the end of the last token. -/
def node (kind : Kind) (start : Nat) (children : List Tree) : Parser Tree :=
  return .node .plain kind ⟨start, ← lastStop⟩ children

/-- A leaf that covers all that a parser reads. -/
def covering (kind : Kind) (p : Parser α) : Parser Tree := do
  let start ← here
  let _ ← p
  node kind start []

/-- Runs a parser in which a broken statement fails. -/
def strictly (p : Parser α) : Parser α := do
  let before := (← get).strict
  modify fun c => { c with strict := true }
  let a ← p
  modify fun c => { c with strict := before }
  return a

/-- What the rules of the language refer to recursively. -/
inductive Goal where
  | statement
  /-- A block in braces; one that ends an expression may be followed by an operator. -/
  | block (endsExpression : Bool)
  | sequence
  | expression
  | unary
  | binding
  | type
  | typeOperand
  deriving DecidableEq, Repr

abbrev Rules := Goal → Parser Tree

end Dialect.Parsing
