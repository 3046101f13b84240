import Dialect.Parsing.Class
import Dialect.Parsing.Operator

/-!
# Expressions

Primary expressions, calls and member accesses, unary and binary operators, conditionals,
assignments and arrow functions.
-/

namespace Dialect.Parsing

variable (self : Rules)

/-! ## Lists and literals -/

def spreadElement : Parser Tree := do
  let start ← here
  discard (symbol "...")
  let t ← self .expression
  node (.other "spread_element") start [t]

def arguments : Parser Tree := do
  let start ← here
  discard (symbol "(")
  let items ← commaUntil ")" (spreadElement self <|> self .expression)
  discard (symbol ")")
  node .arguments start items

def arrayLiteral : Parser Tree := do
  let start ← here
  discard (symbol "[")
  let items ← commaUntil "]" (spreadElement self <|> self .expression)
  discard (symbol "]")
  node .array start items

def objectMethod : Parser Tree := do
  let start ← here
  let modifiers ← many classModifier
  let star ← maybe (symbol "*")
  let name ← propertyName self
  let flag ← maybe (symbol "?")
  let parts ← signature self
  let body ← self (.block false)
  node .methodDefinition start
    (modifiers ++ star ++ [name.as .name] ++ flag ++ parts ++ [body.as .body])

def objectPair : Parser Tree := do
  let start ← here
  let key ← propertyName self
  discard (symbol ":")
  let value ← self .expression
  node (.other "pair") start [key, value.as .value]

def objectShorthand : Parser Tree := do
  let name ← identifier
  withDefault self (name.withKind .shorthandPropertyIdentifier)

def objectLiteral : Parser Tree := do
  let start ← here
  discard (symbol "\x7b")
  let items ← commaUntil "\x7d"
    (spreadElement self <|> objectMethod self <|> objectPair self <|> objectShorthand self)
  discard (symbol "\x7d")
  node .object start items

def parenthesized : Parser Tree := do
  let start ← here
  discard (symbol "(")
  let inner ← withResultTypes true (self .sequence)
  let annotation ← maybe (typeAscription self)
  discard (symbol ")")
  node .parenthesizedExpression start (inner :: annotation)

/-! ## Functions -/

def functionExpression : Parser Tree := do
  let start ← here
  let asynchronous ← maybe do
    let t ← word "async"
    if ← onFreshLine then failure
    return t
  discard (word "function")
  let star ← maybe (symbol "*")
  let name ← maybe identifier
  let parts ← signature self
  let body ← self (.block true)
  let kind := if star.isEmpty then Kind.functionExpression else .other "generator_function"
  node kind start (asynchronous ++ name.map (·.as .name) ++ parts ++ [body.as .body])

inductive Nesting where
  | code
  | quoted (quote : Char)
  | line
  | block

/-- The text after the bracket that closes the one at the front. Strings, templates and comments are
passed over; `none` when the text ends first. -/
def pastGroup? : Nesting → Nat → List Char → Option (List Char)
  | _, _, [] => none
  | .code, depth, '/' :: '/' :: cs => pastGroup? .line depth cs
  | .code, depth, '/' :: '*' :: cs => pastGroup? .block depth cs
  | .code, depth, c :: cs =>
    if ['(', '[', '{'].contains c then pastGroup? .code (depth + 1) cs
    else if [')', ']', '}'].contains c then
      if depth ≤ 1 then some cs else pastGroup? .code (depth - 1) cs
    else if ['"', '\'', '\x60'].contains c then pastGroup? (.quoted c) depth cs
    else pastGroup? .code depth cs
  | .quoted quote, depth, '\\' :: _ :: cs => pastGroup? (.quoted quote) depth cs
  | .quoted quote, depth, c :: cs =>
    if c = quote then pastGroup? .code depth cs else pastGroup? (.quoted quote) depth cs
  | .line, depth, c :: cs =>
    if isLineBreak c then pastGroup? .code depth cs else pastGroup? .line depth cs
  | .block, depth, '*' :: '/' :: cs => pastGroup? .code depth cs
  | .block, depth, _ :: cs => pastGroup? .block depth cs

/-- The group at the front may be the parameters of an arrow function. -/
def mayBeParameters (cs : List Char) : Bool :=
  match pastGroup? .code 0 cs with
  | none => true
  | some rest =>
    let next := pastTrivia rest
    "=>".toList.isPrefixOf next || next.head? == some ':'

def arrowBody : Parser Tree := do
  discard (symbol "=>")
  if (← peekSymbol) = "\x7b" then self (.block true) else self .expression

def endsWithBlock (t : Tree) : Bool :=
  (Tree.find? .body t.children).any (·.kind = .statementBlock)

def arrowFunction : Parser Tree := do
  let start ← here
  let head : Parser (List Tree) :=
    (do
      let name ← identifier
      if (← peekSymbol) != "=>" then failure
      return [name.as .parameter]) <|>
    (do
      let cs ← ahead
      if cs.head? == some '(' then guardThat (mayBeParameters cs)
      if (← get).resultTypes then signature self else bareSignature self)
  let plain : Parser Tree := do
    let parts ← head
    let body ← arrowBody self
    node .arrowFunction start (parts ++ [body.as .body])
  let asynchronous : Parser Tree := do
    discard (word "async")
    goesOn
    let parts ← head
    let body ← arrowBody self
    node .arrowFunction start (parts ++ [body.as .body])
  if (← peekWord) = "async" then asynchronous <|> plain else plain

/-! ## Calls and members -/

def memberOf (object : Tree) : Parser Tree := do
  let property ← privateName <|> propertyWord
  node .memberExpression object.span.start [object.as .object, property.as .property]

def subscriptOf (object : Tree) : Parser Tree := do
  discard (symbol "[")
  let index ← withResultTypes true (self .sequence)
  discard (symbol "]")
  node (.other "subscript_expression") object.span.start [object.as .object, index]

def callOf (callee : Tree) (applied : List Tree) : Parser Tree := do
  let args ← arguments self
  node .callExpression callee.span.start ([callee.as .callee] ++ applied ++ [args.as .arguments])

def taggedOf (callee : Tree) (applied : List Tree) : Parser Tree := do
  let text ← template (self .sequence)
  node .callExpression callee.span.start ([callee.as .callee] ++ applied ++ [text.as .arguments])

/-- The symbols that end an expression or go on with it. -/
def followers : List String :=
  [")", "]", ":", ";", ",", ".", "?.", "\x7d", "?", "==", "===", "!=", "!==", "<=", ">", ">=", ">>",
   "&&", "||", "??", "^", "|", "&", "+", "-", "*", "**", "%"]

/-- Words that begin a statement and no operand. -/
def statementWords : List String :=
  ["abstract", "break", "const", "continue", "debugger", "declare", "do", "enum", "export", "for",
   "if", "interface", "let", "module", "namespace", "return", "switch", "throw", "try", "type",
   "var", "while", "with"]

/-- After type arguments that are not followed by call arguments: the next token ends the expression
or goes on with it. -/
def appliedAhead : Parser Bool := do
  if ← atEnd then return true
  match ← peekWord with
  | "" => return (number? (← ahead)).isNone && followers.contains (← peekSymbol)
  | "in" | "instanceof" => return true
  | "as" | "satisfies" =>
    return !(← onFreshLine) && (← succeeds do
      discard anyWord
      self .type)
  | w => return (← onFreshLine) && statementWords.contains w

/-- A word, a literal or an empty pair of brackets: what may be an operand or a type. -/
def shortType : Parser Tree :=
  anyWord <|> lexeme .string string? <|> lexeme .number number? <|>
    (do discard (symbol "["); symbol "]") <|> (do discard (symbol "\x7b"); symbol "\x7d")

/-- Type arguments of an operand. A single short one is followed by the longest symbol that stands
there, so that `a<b>=c` compares. -/
def operandTypes : Parser Tree := do
  notAhead do
    discard (mark '<')
    discard shortType
    guardThat ([">=", ">>", ">>=", ">>>", ">>>="].contains (← peekSymbol))
  typeArguments self

/-- Type arguments are followed by a call, a template or a subscript, or stand for themselves. -/
def appliedOf (callee : Tree) : Parser Tree := do
  let applied ← operandTypes self
  let alone := node (.other "instantiation_expression") callee.span.start [callee, applied]
  callOf self callee [applied] <|> taggedOf self callee [applied] <|>
    (do subscriptOf self (← alone)) <|> do
      guardThat (← appliedAhead self)
      alone

def nonNullOf (operand : Tree) : Parser Tree := do
  if ← onFreshLine then failure
  discard (symbol "!")
  node .nonNullExpression operand.span.start [operand]

def optionalOf (object : Tree) : Parser Tree := do
  discard (symbol "?.")
  memberOf object <|> subscriptOf self object <|> callOf self object [] <|> do
    let applied ← typeArguments self
    callOf self object [applied]

/-- One suffix of an expression. Under `new` calls belong to the construction. -/
def suffix (calls : Bool) (t : Tree) : Parser Tree := do
  match ← peekSymbol with
  | "." =>
    discard (symbol ".")
    memberOf t
  | "?." =>
    guardThat calls
    optionalOf self t
  | "[" => subscriptOf self t
  | "(" =>
    guardThat calls
    callOf self t []
  | "<" | "<<" =>
    guardThat calls
    appliedOf self t
  | "!" => nonNullOf t
  | _ =>
    guardThat calls
    taggedOf self t []

/-! ## Primary expressions -/

def keywordLeaf (w : String) (kind : Kind) : Parser Tree := do
  let t ← word w
  return t.withKind kind

def importExpression : Parser Tree := do
  let start ← here
  let t ← keywordLeaf "import" (.other "import")
  if (← peekSymbol) = "." then
    discard (symbol ".")
    discard (word "meta")
    node (.other "meta_property") start []
  else
    guardThat ((← peekSymbol) = "(")
    return t

def simplePrimary : Parser Tree := do
  match ← peekWord with
  | "this" => keywordLeaf "this" .thisExpression
  | "super" => keywordLeaf "super" .superExpression
  | "true" => keywordLeaf "true" .trueLiteral
  | "false" => keywordLeaf "false" .falseLiteral
  | "null" => keywordLeaf "null" .nullLiteral
  | "undefined" => keywordLeaf "undefined" .undefinedLiteral
  | "function" => functionExpression self
  | "async" => functionExpression self <|> identifier
  | "class" => classExpression self
  | "import" => importExpression
  | "" =>
    match ← nextChar? with
    | some '(' => parenthesized self
    | some '[' => arrayLiteral self
    | some '{' => objectLiteral self
    | some '/' => lexeme .regex regex?
    | some '@' => classExpression self
    | some '#' => privateName
    | some '\x60' => template (self .sequence)
    | _ => lexeme .string string? <|> lexeme .number number?
  | _ => identifier

/-- `new` with its constructor and arguments, or `new.target`. The constructor of `new new C()` is a
whole operand. -/
def newExpression : Parser Tree := do
  let start ← here
  discard (word "new")
  if (← peekSymbol) = "." then
    discard (symbol ".")
    discard (word "target")
    node (.other "meta_property") start []
  else
    let made ←
      if (← peekWord) = "new" then self .unary
      else do extendTree (suffix self false) (← simplePrimary self)
    let applied ← maybe do
      let t ← operandTypes self
      guardThat ((← peekSymbol) = "(" || (← appliedAhead self))
      return t
    let args ← maybe (arguments self)
    node .newExpression start ([made.as .constructed] ++ applied ++ args.map (·.as .arguments))

def callChain : Parser Tree := do
  let head ← if (← peekWord) = "new" then newExpression self else simplePrimary self
  extendTree (suffix self true) head

/-- An arrow function. One that ends with a block can be called on the spot. -/
def arrowChain : Parser Tree := do
  let t ← arrowFunction self
  if endsWithBlock t then extendTree (suffix self true) t else return t

/-! ## Operators -/

def updateOperator : Parser Tree :=
  symbol "++" <|> symbol "--"

def postfixExpression : Parser Tree := do
  let t ← callChain self
  if ["++", "--"].contains (← peekSymbol) && !(← onFreshLine) then
    let operator ← updateOperator
    node .updateExpression t.span.start [t.as .argument, operator.as .operator]
  else
    return t

def prefixed (kind : Kind) (operator : Parser Tree) : Parser Tree := do
  let start ← here
  let operator ← operator
  let operand ← self .unary
  node kind start [operator.as .operator, operand.as .argument]

def awaitExpression : Parser Tree := do
  let start ← here
  discard (word "await")
  let operand ← self .unary
  node (.other "await_expression") start [operand]

def typeAssertion : Parser Tree := do
  let start ← here
  let applied ← typeArguments self
  let operand ← self .unary
  node (.other "type_assertion") start [applied, operand]

def unaryRule : Parser Tree := strictly do
  match ← peekWord with
  | "typeof" => prefixed self .unaryExpression (word "typeof")
  | "void" => prefixed self .unaryExpression (word "void")
  | "delete" => prefixed self .unaryExpression (word "delete")
  | "await" => awaitExpression self <|> arrowChain self <|> postfixExpression self
  | _ =>
    match ← peekSymbol with
    | "!" => prefixed self .unaryExpression (symbol "!")
    | "~" => prefixed self .unaryExpression (symbol "~")
    | "+" => prefixed self .unaryExpression (symbol "+")
    | "-" => prefixed self .unaryExpression (symbol "-")
    | "++" => prefixed self .updateExpression (symbol "++")
    | "--" => prefixed self .updateExpression (symbol "--")
    | "<" | "<<" => arrowChain self <|> typeAssertion self
    | _ => arrowChain self <|> postfixExpression self

def castContinuation (kind : Kind) : Parser Continuation := do
  if ← onFreshLine then failure
  discard anyWord
  (do discard (word "const")) <|> discard (self .type)
  return .cast kind (← lastStop) []

def operationContinuation (operator : Parser Tree) (strength : Strength) : Parser Continuation := do
  let operator ← operator
  let right ← self .unary
  return .operation operator strength right

def continuation : Parser Continuation := do
  match ← peekWord with
  | "as" => castContinuation self .asExpression
  | "satisfies" => castContinuation self .satisfiesExpression
  | "" =>
    let s ← peekSymbol
    match strengthOf? s with
    | some strength => operationContinuation self (symbol s) strength
    | none => failure
  | w =>
    match strengthOf? w with
    | some strength => operationContinuation self (word w) strength
    | none => failure

def binaryRun : Parser Tree := do
  let first ← self .unary
  let rest ← many (continuation self)
  return assemble [] first rest

/-- What a colon follows, with the colon. In `a ? (b) : c => d` it is that of the conditional: when
an arrow function has taken it for its result type, the text is read again without result types. -/
def beforeColon (p : Parser Tree) : Parser Tree := do
  let c ← get
  let t ← p
  if (← peekSymbol) = ":" then
    discard (symbol ":")
    return t
  else
    guardThat c.resultTypes
    set c
    let t ← withResultTypes false p
    discard (symbol ":")
    return t

def conditional (condition : Tree) : Parser Tree := do
  discard (symbol "?")
  let first ← beforeColon (self .expression)
  let second ← self .expression
  node (.other "ternary_expression") condition.span.start [condition, first, second]

def assignmentOperators : List String :=
  ["=", "+=", "-=", "*=", "/=", "%=", "**=", "<<=", ">>=", ">>>=", "&=", "^=", "|=", "&&=", "||=",
   "??="]

/-- The target of an assignment; a literal on the left is a pattern. -/
def target? (plainly : Bool) (t : Tree) : Option Tree :=
  match t.kind with
  | .identifier | .undefinedLiteral | .memberExpression | .parenthesizedExpression
  | .nonNullExpression | .other "subscript_expression" => some t
  | .array => if plainly then some (t.withKind (.other "array_pattern")) else none
  | .object => if plainly then some (t.withKind (.other "object_pattern")) else none
  | _ => none

def assignment (left : Tree) (s : String) : Parser Tree := do
  match target? (s = "=") left with
  | none => failure
  | some left =>
    let operator ← symbol s
    let right ← self .expression
    node (if s = "=" then .assignmentExpression else .augmentedAssignment) left.span.start
      [left.as .left, operator.as .operator, right.as .right]

def yieldExpression : Parser Tree := do
  let start ← here
  discard (word "yield")
  let operand ← maybe do
    if ← onFreshLine then failure
    discard (optionally (symbol "*"))
    self .expression
  node (.other "yield_expression") start operand

def expressionRule : Parser Tree := strictly do
  if (← peekWord) = "yield" then
    yieldExpression self
  else
    let left ← binaryRun self
    let s ← peekSymbol
    if s = "?" then conditional self left
    else if assignmentOperators.contains s then assignment self left s
    else return left

def sequenceRule : Parser Tree := do
  let first ← self .expression
  if (← peekSymbol) = "," then
    let more ← many do
      discard (symbol ",")
      self .expression
    node .sequenceExpression first.span.start (first :: more)
  else
    return first

end Dialect.Parsing
