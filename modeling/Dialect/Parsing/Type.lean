import Dialect.Parsing.Binding

/-!
# Types

A recogniser for types. Later stages only need to know where a type ends, so a type is a leaf that
covers its text.
-/

namespace Dialect.Parsing

variable (self : Rules)

/-- Ends a member of an object type: a separator, a new line or the closing brace. -/
def memberEnd : Parser Unit := do
  match ← peekSymbol with
  | ";" => discard (symbol ";")
  | "," => discard (symbol ",")
  | "\x7d" => return ()
  | _ => guardThat (← onFreshLine)

/-- The optional mark of a member, possibly added or removed. -/
def optionality : Parser Unit := do
  discard (optionally (symbol "+" <|> symbol "-"))
  discard (symbol "?")

def indexMember : Parser Unit := do
  discard (optionally do
    discard (optionally (symbol "+" <|> symbol "-"))
    discard (word "readonly"))
  discard (symbol "[")
  discard identifier
  let indexed : Parser Unit := do
    discard (symbol ":")
    discard (self .type)
  let mapped : Parser Unit := do
    discard (word "in")
    discard (self .type)
    discard (optionally do
      discard (word "as")
      self .type)
  indexed <|> mapped
  discard (symbol "]")
  discard (optionally optionality)
  discard (optionally (typeAscription self))

/-- A word before the name of a member. -/
def memberModifier : Parser Unit := do
  let w ← peekWord
  guardThat (["readonly", "get", "set", "static", "async", "public", "private", "protected",
    "override", "declare", "abstract"].contains w)
  discard anyWord
  discard (lookahead (propertyName self))

def typeMember : Parser Unit := do
  let constructing : Parser Unit := do
    discard (word "new")
    discard (signature self)
  let named : Parser Unit := do
    discard (many (memberModifier self))
    discard (propertyName self)
    discard (optionally (symbol "?"))
    (do discard (signature self)) <|> discard (optionally (typeAscription self))
  (do discard (signature self)) <|> indexMember self <|> constructing <|> named

def objectType : Parser Unit := do
  discard (symbol "\x7b")
  discard (many do
    typeMember self
    memberEnd)
  discard (symbol "\x7d")

def tupleElement : Parser Tree :=
  covering (.other "tuple_element") do
    discard (optionally (symbol "..."))
    discard (optionally do
      discard anyWord
      discard (optionally (symbol "?"))
      symbol ":")
    discard (self .type)
    optionally (symbol "?")

def tupleType : Parser Unit := do
  discard (symbol "[")
  discard (commaUntil "]" (tupleElement self))
  discard (symbol "]")

def typePath : Parser Unit := do
  discard (many do
    discard (symbol ".")
    discard (privateName <|> propertyWord))
  discard (optionally (typeArguments self))

def importType : Parser Unit := do
  discard (word "import")
  discard (symbol "(")
  discard (self .type)
  discard (optionally do
    discard (symbol ",")
    self .expression)
  discard (symbol ")")

/-- A dotted name with type arguments, or one of the keyword types. -/
def namedType : Parser Unit := do
  match ← peekWord with
  | "import" =>
    importType self
    typePath self
  | "typeof" =>
    discard (word "typeof")
    importType self <|> discard (word "this") <|> discard identifier
    typePath self
  | "this" | "void" | "null" | "true" | "false" | "const" => discard anyWord
  | _ =>
    discard identifier
    typePath self

def parenthesizedType : Parser Unit := do
  discard (symbol "(")
  discard (self .type)
  discard (symbol ")")

def negativeType : Parser Unit := do
  discard (symbol "-")
  discard (lexeme .number number?)

def primaryType : Parser Unit :=
  objectType self <|> tupleType self <|> parenthesizedType self <|>
    discard (lexeme .string string?) <|> discard (lexeme .number number?) <|>
    negativeType <|> discard (template (self .type)) <|> namedType self

/-- Array and lookup suffixes stay on the line of the type. -/
def typeSuffix : Parser Unit := do
  if ← onFreshLine then failure
  discard (symbol "[")
  discard (optionally (self .type))
  discard (symbol "]")

def typeOperandRule : Parser Tree :=
  covering (.other "type") do
    let operated : Parser Unit := do
      let w ← peekWord
      guardThat (w = "keyof" || w = "unique" || w = "readonly")
      discard anyWord
      discard (self .typeOperand)
    let inferred : Parser Unit := do
      discard (word "infer")
      discard identifier
      discard (optionally do
        discard (word "extends")
        discard (self .typeOperand)
        notAhead (symbol "?"))
    let plain : Parser Unit := do
      primaryType self
      discard (many (typeSuffix self))
    operated <|> inferred <|> plain

def functionType : Parser Unit := do
  discard (optionally (word "abstract"))
  discard (optionally (word "new"))
  discard (optionally (typeParameters self))
  discard (formalParameters self)
  discard (symbol "=>")
  let predicate : Parser Unit := do
    discard (optionally (word "asserts"))
    predicateSubject
    discard (word "is")
    discard (self .type)
  predicate <|> discard (self .type)

def typeTerm : Parser Unit :=
  functionType self <|> discard (self .typeOperand)

def intersectionType : Parser Unit := do
  discard (optionally (symbol "&"))
  typeTerm self
  discard (many do
    discard (symbol "&")
    typeTerm self)

def unionType : Parser Unit := do
  discard (optionally (symbol "|"))
  intersectionType self
  discard (many do
    discard (symbol "|")
    intersectionType self)

def typeRule : Parser Tree :=
  covering (.other "type") do
    unionType self
    optionally do
      discard (word "extends")
      unionType self
      discard (symbol "?")
      discard (self .type)
      discard (symbol ":")
      self .type

end Dialect.Parsing
