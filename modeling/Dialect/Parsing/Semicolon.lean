import Dialect.Parsing.Cursor

/-!
# Inserted semicolons

A statement ends at a semicolon, or where one may be inserted: before a closing brace, at the end of
the text, or at a line break unless the next line continues the statement. After a complete
expression more continues: an opening parenthesis or bracket does. Comments between the statement
and an inserted semicolon belong to the statement.
-/

namespace Dialect.Parsing

/-- The text after any white space and comments. -/
def pastTrivia (cs : List Char) : List Char :=
  (skipTrivia .blank cs 0 false).1

/-- Where the scan for an insertion point stands. -/
inductive Scan where
  | blank
  | line
  | block

/-- The white space between a token and an inserted semicolon. -/
def isAsciiSpace (c : Char) : Bool :=
  (0x9 ≤ c.toNat && c.toNat ≤ 0xD) || c = ' '

/-- The text on the next lines that may go on with a statement: what follows white space and
comments. -/
def nextText : Scan → List Char → List Char
  | .blank, '/' :: '/' :: cs => nextText .line cs
  | .blank, '/' :: '*' :: cs => nextText .block cs
  | .blank, c :: cs => if isAsciiSpace c then nextText .blank cs else c :: cs
  | .line, c :: cs => if c = '\n' then nextText .blank cs else nextText .line cs
  | .block, '*' :: '/' :: cs => nextText .blank cs
  | .block, _ :: cs => nextText .block cs
  | _, [] => []

/-- The keyword `in` or `instanceof` stands at the front, or a word that begins like it. -/
def startsRelation : List Char → Bool
  | 'i' :: 'n' :: cs =>
    match cs with
    | [] => true
    | c :: _ =>
      if !c.isAlpha then true
      else if "stanceof".toList.isPrefixOf cs then
        match cs.drop 8 with
        | [] => true
        | c :: _ => !c.isAlpha
      else false
  | _ => false

/-- Whether text on a new line goes on with the statement before it. -/
def continues (afterExpression : Bool) : List Char → Bool
  | [] => false
  | '+' :: cs => cs.head? != some '+'
  | '-' :: cs => cs.head? != some '-'
  | '!' :: cs => cs.head? == some '='
  | '(' :: _ => afterExpression
  | '[' :: _ => afterExpression
  | 'i' :: cs => startsRelation ('i' :: cs)
  | c :: _ => "`,.;*%><=?^|&/:".toList.contains c

/-- A colon follows a brace, as after an object pattern with a type. -/
def colonFollows (cs : List Char) : Bool :=
  (cs.dropWhile isAsciiSpace).head? == some ':'

/-- A place in the text: what follows it, and its byte offset. -/
structure Place where
  rest : List Char
  offset : Nat

/-- The place of the inserted semicolon, if there is one: the end of the last token, or of the last
comment that follows it on its line. `offset` is where the scan is. -/
def insertion? (afterExpression : Bool) : Scan → List Char → Nat → Place → Option Place
  | .blank, '/' :: '/' :: cs, offset, place =>
    insertion? afterExpression .line cs (offset + 2) place
  | .blank, '/' :: '*' :: cs, offset, place =>
    insertion? afterExpression .block cs (offset + 2) place
  | .blank, c :: cs, offset, place =>
    if c = '}' then if afterExpression || !colonFollows cs then some place else none
    else if c = '\n' then
      if continues afterExpression (nextText .blank cs) then none else some place
    else if isAsciiSpace c then insertion? afterExpression .blank cs (offset + 1) place
    else none
  | .blank, [], _, place => some place
  | .line, c :: cs, offset, place =>
    if c = '\n' then
      if continues afterExpression (nextText .blank cs) then none else some ⟨c :: cs, offset⟩
    else if c = '\r' then insertion? afterExpression .blank cs (offset + 1) ⟨c :: cs, offset⟩
    else insertion? afterExpression .line cs (offset + c.utf8Size) place
  | .line, [], offset, _ => some ⟨[], offset⟩
  | .block, '*' :: '/' :: cs, offset, _ =>
    insertion? afterExpression .blank cs (offset + 2) ⟨cs, offset + 2⟩
  | .block, c :: cs, offset, place =>
    insertion? afterExpression .block cs (offset + c.utf8Size) place
  | .block, [], _, _ => none

/-- Inserts a semicolon. What precedes it then ends with the comments on its line. -/
def insertedSemicolon (afterExpression : Bool) : Parser Unit := do
  let c ← get
  match insertion? afterExpression .blank c.gap c.gapStart ⟨c.gap, c.gapStart⟩ with
  | some place => set { c with gap := place.rest, gapStart := place.offset }
  | none => failure

/-- The word just read goes on with what follows it: no semicolon is inserted that would make it a
statement of its own. -/
def goesOn : Parser Unit :=
  notAhead (insertedSemicolon true)

/-- Ends a statement. -/
def semicolon (afterExpression : Bool) : Parser Unit := do
  if (← peekSymbol) = ";" then discard (symbol ";") else insertedSemicolon afterExpression

/-- A statement from `start` up to its semicolon. -/
def statementNode (kind : Kind) (start : Nat) (children : List Tree) (afterExpression : Bool) :
    Parser Tree := do
  semicolon afterExpression
  node kind start children

end Dialect.Parsing
