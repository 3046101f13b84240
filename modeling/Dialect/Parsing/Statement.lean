import Dialect.Parsing.Import

/-!
# Statements and declarations

A statement list survives a broken statement: where the rules fail, an error node takes the text up
to the next semicolon, unless the list is part of an expression.
-/

namespace Dialect.Parsing

variable (self : Rules)

/-- A statement whose last part is another statement ends where that part ends. -/
def endingWith (kind : Kind) (start : Nat) (children : List Tree) (last : Tree) : Tree :=
  .node .plain kind ⟨start, last.span.stop⟩ (children ++ [last])

/-! ## Statement lists -/

/-- The bytes of a broken statement: up to the next semicolon, or up to a brace that closes the
list. Brackets inside it are balanced. -/
def brokenLength : Nat → List Char → Nat
  | _, [] => 0
  | depth, c :: cs =>
    if c = ';' && depth = 0 then 1
    else if c = '}' && depth = 0 then 0
    else if ['(', '[', '{'].contains c then brokenLength (depth + 1) cs + 1
    else if [')', ']', '}'].contains c then brokenLength (depth - 1) cs + 1
    else brokenLength depth cs + c.utf8Size

def brokenStatement : Parser Tree := do
  let cs ← ahead
  match cs with
  | [] => failure
  | c :: _ =>
    let bytes := max (brokenLength 0 cs) c.utf8Size
    match Text.dropBytes? cs bytes with
    | some rest => return leaf .error (← advance bytes rest)
    | none => failure

def statementsWithin : Nat → Bool → Parser (List Tree)
  | 0, _ => failure
  | n + 1, nested => do
    if (← atEnd) || (nested && (← peekSymbol) = "\x7d") then
      return []
    else
      match ← optionally (self .statement) with
      | some t => return t :: (← statementsWithin n nested)
      | none =>
        if (← get).strict then failure
        let t ← brokenStatement
        return t :: (← statementsWithin n nested)

/-- Statements up to the end of the text, or up to the brace that closes a block. -/
def statements (nested : Bool) : Parser (List Tree) := do
  let c ← get
  statementsWithin self (c.limit - c.offset + 1) nested

/-- A block takes an inserted semicolon after its brace. -/
def blockRule (endsExpression : Bool) : Parser Tree := do
  let start ← here
  discard (symbol "\x7b")
  let body ← statements self true
  discard (symbol "\x7d")
  discard (optionally (insertedSemicolon endsExpression))
  node .statementBlock start body

/-! ## Control flow -/

def condition : Parser Tree := do
  let start ← here
  discard (symbol "(")
  let inner ← self .sequence
  discard (symbol ")")
  node .parenthesizedExpression start [inner]

def ifStatement : Parser Tree := do
  let start ← here
  discard (word "if")
  let test ← condition self
  let consequence ← self .statement
  let front := [test.as .condition]
  let place ← here
  let alternative ← optionally do
    discard (word "else")
    self .statement
  match alternative with
  | none => return endingWith .ifStatement start front (consequence.as .consequence)
  | some t =>
    let clause := endingWith .elseClause place [] t
    return endingWith .ifStatement start (front ++ [consequence.as .consequence])
      (clause.as .alternative)

def whileStatement : Parser Tree := do
  let start ← here
  discard (word "while")
  let test ← condition self
  let body ← self .statement
  return endingWith .whileStatement start [test.as .condition] (body.as .body)

def doStatement : Parser Tree := do
  let start ← here
  discard (word "do")
  let body ← self .statement
  discard (word "while")
  let test ← condition self
  statementNode (.other "do_statement") start [body, test] true <|>
    node (.other "do_statement") start [body, test]

def withStatement : Parser Tree := do
  let start ← here
  discard (word "with")
  let object ← condition self
  let body ← self .statement
  return endingWith (.other "with_statement") start [object] body

def returnStatement : Parser Tree := do
  let start ← here
  discard (word "return")
  statementNode .returnStatement start [] false <|> do
    let value ← self .sequence
    statementNode .returnStatement start [value] true

def jumpStatement (w : String) (kind : Kind) : Parser Tree := do
  let start ← here
  discard (word w)
  statementNode kind start [] false <|> do
    let label ← identifier
    statementNode kind start [label] false

def throwStatement : Parser Tree := do
  let start ← here
  discard (word "throw")
  let value ← self .sequence
  statementNode (.other "throw_statement") start [value] true

def debuggerStatement : Parser Tree := do
  let start ← here
  discard (word "debugger")
  statementNode (.other "debugger_statement") start [] false

def catchClause : Parser Tree := do
  let start ← here
  discard (word "catch")
  let parameter ← (do
    discard (symbol "(")
    let target ← self .binding
    let annotation ← maybe (typeAscription self)
    discard (symbol ")")
    return target :: annotation) <|> return []
  let body ← self (.block false)
  node (.other "catch_clause") start (parameter ++ [body])

def finallyClause : Parser Tree := do
  let start ← here
  discard (word "finally")
  let body ← self (.block false)
  node (.other "finally_clause") start [body]

def tryStatement : Parser Tree := do
  let start ← here
  discard (word "try")
  let body ← self (.block false)
  let handler ← maybe (catchClause self)
  let finalizer ← maybe (finallyClause self)
  node (.other "try_statement") start ([body] ++ handler ++ finalizer)

def switchCase : Parser Tree := do
  let start ← here
  let test ← (do
    discard (word "case")
    return [← beforeColon (self .sequence)]) <|> (do
    discard (word "default")
    discard (symbol ":")
    return [])
  let body ← many do
    if ["case", "default"].contains (← peekWord) then failure
    self .statement
  node (.other "switch_case") start (test ++ body)

def switchStatement : Parser Tree := do
  let start ← here
  discard (word "switch")
  let value ← condition self
  discard (symbol "\x7b")
  let cases ← many (switchCase self)
  discard (symbol "\x7d")
  node (.other "switch_statement") start (value :: cases)

/-! ## Variables and loops over them -/

def declarator : Parser Tree := do
  let target ← self .binding
  let flag ← maybe (symbol "!")
  let annotation ← maybe (typeAscription self)
  let value ← maybe do
    discard (symbol "=")
    let t ← self .expression
    return t.as .value
  node .variableDeclarator target.span.start ([target.as .name] ++ flag ++ annotation ++ value)

def hasValue (declarators : List Tree) : Bool :=
  match declarators.getLast? with
  | some t => (Tree.find? .value t.children).isSome
  | none => false

def variableKeyword : Parser Tree :=
  word "var" <|> word "let" <|> word "const"

def declarationKind (keyword : Tree) : Kind :=
  if keyword.kind = .token "var" then .variableDeclaration else .lexicalDeclaration

def variableStatement : Parser Tree := do
  let keyword ← variableKeyword
  let declarators ← commaList (declarator self)
  statementNode (declarationKind keyword) keyword.span.start (keyword.as .keyword :: declarators)
    (hasValue declarators)

def usingDeclaration : Parser Tree := do
  let start ← here
  discard (optionally (word "await"))
  discard (word "using")
  if ← onFreshLine then failure
  if ["in", "of"].contains (← peekWord) then failure
  let declarators ← commaList (declarator self)
  statementNode (.other "using_declaration") start declarators (hasValue declarators)

/-- The binding of a loop over the items or keys of a value. -/
def loopBinding : Parser (List Tree) := do
  let declared : Parser (List Tree) := do
    let keyword ← variableKeyword <|> word "using"
    let target ← self .binding
    discard (optionally do
      discard (symbol "=")
      self .expression)
    return [keyword.as .keyword, target.as .left]
  let assigned : Parser (List Tree) := do
    let target ← self .unary
    match target? true target with
    | some t => return [t.as .left]
    | none => failure
  declared <|> assigned

def iteration (start : Nat) : Parser Tree := do
  let binding ← loopBinding self
  let operator ← word "of" <|> word "in"
  let items ← self .sequence
  discard (symbol ")")
  let body ← self .statement
  return endingWith .forInStatement start
    (binding ++ [operator.as .operator, items.as .right]) (body.as .body)

def emptyStatement : Parser Tree := do
  let t ← symbol ";"
  return t.withKind .emptyStatement

def countingLoop (start : Nat) : Parser Tree := do
  let declared : Parser Tree := do
    let keyword ← variableKeyword
    let declarators ← commaList (declarator self)
    discard (symbol ";")
    node (declarationKind keyword) keyword.span.start (keyword.as .keyword :: declarators)
  let evaluated : Parser Tree := do
    let t ← self .sequence
    discard (symbol ";")
    return t
  let initializer ← emptyStatement <|> declared <|> evaluated
  let test ← emptyStatement <|> evaluated
  let increment ← maybe (self .sequence)
  discard (symbol ")")
  let body ← self .statement
  return endingWith .forStatement start
    ([initializer.as .initializer, test.as .condition] ++ increment.map (·.as .increment))
    (body.as .body)

def forStatement : Parser Tree := do
  let start ← here
  discard (word "for")
  discard (optionally (word "await"))
  discard (symbol "(")
  iteration self start <|> countingLoop self start

/-! ## Declarations -/

def functionDeclaration : Parser Tree := do
  let start ← here
  discard (optionally do
    discard (word "async")
    if ← onFreshLine then failure)
  discard (word "function")
  let star ← maybe (symbol "*")
  let name ← identifier
  let parts ← signature self
  let front := name.as .name :: parts
  if (← peekSymbol) = "\x7b" then
    let body ← self (.block false)
    let kind := if star.isEmpty then Kind.functionDeclaration else .generatorFunctionDeclaration
    node kind start (front ++ [body.as .body])
  else
    statementNode .functionSignature start front false

def enumMember : Parser Tree := do
  let start ← here
  let name ← propertyName self
  let value ← maybe do
    discard (symbol "=")
    self .expression
  node (.other "enum_member") start (name :: value)

def enumDeclaration : Parser Tree := do
  let start ← here
  discard (optionally (word "const"))
  discard (word "enum")
  let name ← identifier
  discard (symbol "\x7b")
  let members ← commaUntil "\x7d" (enumMember self)
  discard (symbol "\x7d")
  node (.other "enum_declaration") start (name :: members)

def interfaceDeclaration : Parser Tree :=
  covering .interfaceDeclaration do
    discard (word "interface")
    discard identifier
    discard (optionally (typeParameters self))
    discard (optionally do
      discard (word "extends")
      commaList (self .typeOperand))
    objectType self

def typeAlias : Parser Tree := do
  let start ← here
  discard (word "type")
  goesOn
  discard identifier
  discard (optionally (typeParameters self))
  discard (symbol "=")
  discard (self .type)
  statementNode .typeAliasDeclaration start [] false

def dottedName : Parser (List Tree) := do
  let head ← identifier
  let more ← many do
    discard (symbol ".")
    propertyWord
  return head :: more

def namespaceDeclaration : Parser Tree := do
  let start ← here
  discard (word "namespace")
  goesOn
  let name ← dottedName
  let body ← self (.block false)
  node (.other "internal_module") start (name ++ [body])

/-- A namespace counts as an expression where a semicolon may follow it. -/
def namespaceStatement : Parser Tree := do
  let t ← namespaceDeclaration self
  statementNode .expressionStatement t.span.start [t] true <|> return t

def moduleDeclaration : Parser Tree := do
  let start ← here
  discard (word "module")
  goesOn
  let named : Parser (List Tree) := do
    let name ← dottedName
    return name ++ [← self (.block false)]
  let quoted : Parser (List Tree) := do
    let name ← stringLiteral
    return name :: (← maybe (self (.block false)))
  let parts ← named <|> quoted
  node (.other "module") start parts

def ambientDeclaration : Parser Tree := do
  let start ← here
  discard (word "declare")
  goesOn
  let w ← peekWord
  let globally : Parser Tree := do
    discard (word "global")
    self (.block false)
  let inner ←
    if w = "global" then globally
    else if w = "namespace" then namespaceDeclaration self
    else if ["const", "let", "var", "function", "async", "class", "abstract", "enum", "module",
        "type", "interface", "import"].contains w then self .statement
    else failure
  return .node .plain .ambientDeclaration ⟨start, inner.span.stop⟩ []

def decoratedClass : Parser Tree := do
  let start ← here
  let decorators ← many (decorator self)
  classDeclaration self start decorators

/-! ## Exports of declarations -/

/-- A declaration that may follow `export`. -/
def exportable : Parser Tree := do
  match ← peekWord with
  | "namespace" => namespaceDeclaration self
  | "function" | "async" => functionDeclaration self
  | "class" => decoratedClass self
  | "abstract" => decoratedClass self
  | "" => decoratedClass self
  | w =>
    if ["let", "const", "var", "enum", "type", "interface", "module", "declare", "using",
        "import"].contains w then
      self .statement
    else
      failure

/-- A declaration that may follow `export default`. -/
def defaultDeclaration : Parser Tree :=
  functionDeclaration self <|> decoratedClass self <|> interfaceDeclaration self <|>
    enumDeclaration self

def exportStatement : Parser Tree := do
  let start ← here
  let decorators ← many (decorator self)
  discard (word "export")
  let declared (declaration : Parser Tree) : Parser Tree := do
    let t ← declaration
    return endingWith .exportStatement start decorators (t.as .declaration)
  let defaulted : Parser Tree := do
    discard (word "default")
    declared (defaultDeclaration self) <|> do
      let value ← self .expression
      statementNode .exportStatement start [value.as .value] true
  defaulted <|> exportNames self start <|> exportAssignment self start <|> exportGlobal start <|>
    declared (exportable self)

/-! ## The statement rule -/

def expressionStatement : Parser Tree := do
  let t ← self .sequence
  statementNode .expressionStatement t.span.start [t] true

def labeledStatement : Parser Tree := do
  let label ← identifier
  discard (symbol ":")
  let body ← self .statement
  return endingWith (.other "labeled_statement") label.span.start [label] body

def plainStatement : Parser Tree :=
  labeledStatement self <|> expressionStatement self

/-- `let` begins a declaration only before a pattern. -/
def letStatement : Parser Tree := do
  let opens ← succeeds do
    discard (word "let")
    goesOn
    guardThat (← patternAhead)
  if opens then variableStatement self else plainStatement self

def statementRule : Parser Tree := withResultTypes true do
  match ← peekWord with
  | "" =>
    match ← peekSymbol with
    | "\x7b" => self (.block false)
    | ";" => emptyStatement
    | "@" => decoratedClass self <|> exportStatement self <|> expressionStatement self
    | _ => expressionStatement self
  | "if" => ifStatement self
  | "for" => forStatement self
  | "while" => whileStatement self
  | "do" => doStatement self
  | "with" => withStatement self
  | "return" => returnStatement self
  | "break" => jumpStatement "break" .breakStatement
  | "continue" => jumpStatement "continue" .continueStatement
  | "throw" => throwStatement self
  | "debugger" => debuggerStatement
  | "try" => tryStatement self
  | "switch" => switchStatement self
  | "var" => variableStatement self
  | "const" => enumDeclaration self <|> variableStatement self
  | "let" => letStatement self
  | "function" => functionDeclaration self
  | "class" => decoratedClass self
  | "enum" => enumDeclaration self
  | "import" => importStatement self <|> expressionStatement self
  | "export" => exportStatement self
  | "async" => functionDeclaration self <|> plainStatement self
  | "abstract" => decoratedClass self <|> plainStatement self
  | "interface" => interfaceDeclaration self <|> plainStatement self
  | "type" => typeAlias self <|> plainStatement self
  | "namespace" => namespaceStatement self <|> plainStatement self
  | "module" => moduleDeclaration self <|> plainStatement self
  | "declare" => ambientDeclaration self <|> plainStatement self
  | "using" | "await" => usingDeclaration self <|> plainStatement self
  | _ => plainStatement self

end Dialect.Parsing
