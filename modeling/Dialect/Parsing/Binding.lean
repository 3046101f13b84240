import Dialect.Parsing.Cursor

/-!
# Names, bindings and signatures

Property names, binding patterns, parameter lists and the annotations around them. The rules for
types and expressions are taken from `self`.
-/

namespace Dialect.Parsing

variable (self : Rules)

/-! ## Templates -/

/-- The text of a template up to its next substitution or its end. -/
def templateChunk? : List Char → Option (Nat × List Char)
  | '\\' :: c :: cs => (templateChunk? cs).map fun (n, rest) => (n + 1 + c.utf8Size, rest)
  | '$' :: '{' :: cs => some (0, '$' :: '{' :: cs)
  | c :: cs =>
    if c = '\x60' then some (0, c :: cs)
    else (templateChunk? cs).map fun (n, rest) => (n + c.utf8Size, rest)
  | [] => none

def templateChunk : Parser Unit := do
  match templateChunk? (← ahead) with
  | some (bytes, rest) => advanceRaw bytes rest
  | none => failure

def substitution (inner : Parser Tree) : Parser Tree := do
  templateChunk
  match ← ahead with
  | '$' :: '{' :: rest =>
    let opening ← advance 2 rest
    let t ← withResultTypes true inner
    match ← ahead with
    | '}' :: rest =>
      advanceRaw 1 rest
      return .node .plain (.other "template_substitution") ⟨opening.start, ← here⟩ [t]
    | _ => failure
  | _ => failure

/-- A template whose substitutions hold `inner`. -/
def template (inner : Parser Tree) : Parser Tree := do
  let start ← here
  match ← ahead with
  | '\x60' :: rest =>
    advanceRaw 1 rest
    let parts ← many (substitution inner)
    templateChunk
    discard (mark '\x60')
    node .templateString start parts
  | _ => failure

/-! ## Names -/

def privateName : Parser Tree := do
  let start ← here
  match ← ahead with
  | '#' :: rest =>
    if (wordAt rest).isEmpty then failure
    advanceRaw 1 rest
    discard anyWord
    node (.other "private_property_identifier") start []
  | _ => failure

def propertyWord : Parser Tree := do
  let t ← anyWord
  return t.withKind .propertyIdentifier

def computedName : Parser Tree := do
  let start ← here
  discard (symbol "[")
  let t ← self .expression
  discard (symbol "]")
  node (.other "computed_property_name") start [t]

def propertyName : Parser Tree :=
  propertyWord <|> lexeme .string string? <|> lexeme .number number? <|> privateName <|>
    computedName self

/-! ## Annotations -/

def typeAscription : Parser Tree :=
  covering .typeAscription do
    discard (symbol ":")
    self .type

def predicateSubject : Parser Unit :=
  discard (word "this") <|> discard identifier

/-- The annotation of a function that returns only where a condition on its subject holds. -/
def assertsAscription : Parser Tree :=
  covering .assertsAscription do
    discard (symbol ":")
    discard (word "asserts")
    if ← onFreshLine then failure
    predicateSubject
    discard (optionally do
      discard (word "is")
      self .type)

def predicateAscription : Parser Tree :=
  covering .predicateAscription do
    discard (symbol ":")
    predicateSubject
    discard (word "is")
    discard (self .type)

/-- A return annotation may also be a predicate on a parameter. -/
def returnAscription : Parser Tree :=
  assertsAscription self <|> predicateAscription self <|> typeAscription self

def typeArguments : Parser Tree :=
  covering .typeArguments do
    discard (mark '<')
    discard (commaList (self .type))
    discard (optionally (symbol ","))
    mark '>'

def typeParameter : Parser Tree :=
  covering (.other "type_parameter") do
    discard (many do
      let w ← peekWord
      guardThat (w = "const" || w = "in" || w = "out")
      discard anyWord
      discard (lookahead anyWord))
    discard identifier
    discard (optionally do
      discard (word "extends")
      self .type)
    discard (optionally do
      discard (symbol "=")
      self .type)

def typeParameters : Parser Tree :=
  covering .typeParameters do
    discard (mark '<')
    discard (commaList (typeParameter self))
    discard (optionally (symbol ","))
    mark '>'

/-! ## Patterns -/

/-- An optional default after a pattern. -/
def withDefault (target : Tree) : Parser Tree := do
  if (← peekSymbol) = "=" then
    discard (symbol "=")
    let value ← self .expression
    node .assignmentPattern target.span.start [target.as .left, value.as .right]
  else
    return target

def restPattern (inner : Parser Tree) : Parser Tree := do
  let start ← here
  discard (symbol "...")
  let t ← inner
  node .restPattern start [t]

def patternProperty : Parser Tree := do
  let start ← here
  let keyed : Parser Tree := do
    let key ← propertyName self
    discard (symbol ":")
    let target ← withDefault self (← self .binding)
    node (.other "pair_pattern") start [key, target]
  let shorthand : Parser Tree := do
    let name ← identifier
    withDefault self (name.withKind (.other "shorthand_property_identifier_pattern"))
  restPattern (self .binding) <|> keyed <|> shorthand

def bindingRule : Parser Tree := do
  let start ← here
  match ← peekSymbol with
  | "\x7b" =>
    discard (symbol "\x7b")
    let parts ← commaUntil "\x7d" (patternProperty self)
    discard (symbol "\x7d")
    node (.other "object_pattern") start parts
  | "[" =>
    discard (symbol "[")
    let parts ← commaUntil "]" (restPattern (self .binding) <|> do
      withDefault self (← self .binding))
    discard (symbol "]")
    node (.other "array_pattern") start parts
  | _ => identifier

/-! ## Parameters -/

def decorator : Parser Tree := do
  let start ← here
  discard (symbol "@")
  let parenthesized : Parser (List Tree) := do
    discard (symbol "(")
    let t ← self .sequence
    discard (symbol ")")
    return [t]
  let path : Parser (List Tree) := do
    let head ← identifier
    discard (many do
      discard (symbol ".")
      discard (privateName <|> propertyWord))
    let applied ← maybe (typeArguments self)
    let args ← (do
      discard (symbol "(")
      let args ← commaUntil ")" ((do discard (symbol "..."); self .expression) <|> self .expression)
      discard (symbol ")")
      return args) <|> return []
    return head :: (applied ++ args)
  let parts ← parenthesized <|> path
  node .decorator start parts

/-- The next token can begin a pattern. -/
def patternAhead : Parser Bool := do
  let s ← peekSymbol
  let w ← peekWord
  return s = "\x7b" || s = "[" || s = "..." || !w.isEmpty

/-- A leading word that modifies the parameter after it. -/
def parameterModifier : Parser Tree := do
  let w ← peekWord
  let t ← anyWord
  guardThat (← patternAhead)
  match w with
  | "public" | "private" | "protected" => return t.withKind .accessibilityModifier
  | "override" => return t.withKind .overrideModifier
  | "readonly" => return t
  | _ => failure

def formalParameter : Parser Tree := do
  let start ← here
  let decorators ← many (decorator self)
  let modifiers ← many parameterModifier
  let receiver : Parser Tree := do
    let t ← word "this"
    return t.withKind .thisExpression
  let target ← receiver <|> restPattern (self .binding) <|> self .binding
  let optionalMark ← maybe (symbol "?")
  let annotation ← maybe (typeAscription self)
  let value ← maybe do
    discard (symbol "=")
    let t ← self .expression
    return t.as .value
  let kind := if optionalMark.isEmpty then Kind.requiredParameter else .optionalParameter
  node kind start
    (decorators ++ modifiers ++ [target.as .pattern] ++ optionalMark ++ annotation ++ value)

def formalParameters : Parser Tree := do
  let start ← here
  discard (symbol "(")
  let parameters ← commaUntil ")" (formalParameter self)
  discard (symbol ")")
  node .formalParameters start parameters

/-- Type parameters and parameters of a function. -/
def bareSignature : Parser (List Tree) := do
  let generics ← maybe (typeParameters self)
  let parameters ← formalParameters self
  return generics ++ [parameters.as .parameters]

/-- Type parameters, parameters and result of a function. -/
def signature : Parser (List Tree) := do
  let front ← bareSignature self
  let result ← maybe (returnAscription self)
  return front ++ result

end Dialect.Parsing
