import Dialect.Parsing.Semicolon
import Dialect.Parsing.Type

/-!
# Classes

Heritage and members, for class declarations and class expressions. A method starts after its
decorators, a field at its first one.
-/

namespace Dialect.Parsing

variable (self : Rules)

/-- The next token can be the name of a member. -/
def nameAhead : Parser Bool := do
  match ← ahead with
  | [] => return false
  | c :: cs =>
    return !(wordAt (c :: cs)).isEmpty || c.isDigit || ['"', '\'', '[', '#', '*'].contains c

/-- A word that modifies the member after it, on the same line. -/
def classModifier : Parser Tree := do
  let w ← peekWord
  let t ← anyWord
  if ← onFreshLine then failure
  guardThat (← nameAhead)
  match w with
  | "public" | "private" | "protected" => return t.withKind .accessibilityModifier
  | "override" => return t.withKind .overrideModifier
  | "static" | "readonly" | "declare" | "abstract" | "accessor" | "async" | "get" | "set" =>
    return t
  | _ => failure

def staticBlock : Parser Tree := do
  let start ← here
  discard (word "static")
  let body ← self (.block false)
  node (.other "class_static_block") start [body]

/-- Ends a member that is not a method. -/
def fieldEnd (afterExpression : Bool) : Parser Unit :=
  discard (symbol ",") <|> semicolon afterExpression

def classMember : Parser (List Tree) := do
  let outer ← here
  let decorators ← many (decorator self)
  let start ← here
  let indexed : Parser (List Tree) := do
    let t ← covering .indexSignature (indexMember self)
    fieldEnd false
    return decorators ++ [t]
  let named : Parser (List Tree) := do
    let modifiers ← many classModifier
    let star ← maybe (symbol "*")
    let name ← propertyName self
    let flag ← maybe (symbol "?" <|> symbol "!")
    let front := modifiers ++ star ++ [name.as .name] ++ flag
    if ["(", "<"].contains (← peekSymbol) then
      let parts ← signature self
      if (← peekSymbol) = "\x7b" then
        let body ← self (.block false)
        return decorators ++ [← node .methodDefinition start (front ++ parts ++ [body.as .body])]
      else
        let kind :=
          if Tree.hasToken "abstract" modifiers then Kind.abstractMethodSignature
          else .methodSignature
        let t ← node kind start (front ++ parts)
        fieldEnd false
        return decorators ++ [t]
    else
      let annotation ← maybe (typeAscription self)
      let value ← maybe do
        discard (symbol "=")
        let t ← self .expression
        return t.as .value
      let t ← node .publicFieldDefinition outer (decorators ++ front ++ annotation ++ value)
      fieldEnd (!value.isEmpty)
      return [t]
  (do return [← staticBlock self]) <|> indexed <|> named

def classBody : Parser Tree := do
  let start ← here
  discard (symbol "\x7b")
  let members ← many ((do discard (symbol ";"); return []) <|> classMember self)
  discard (symbol "\x7d")
  node .classBody start members.flatten

def extendsClause : Parser Tree := do
  let start ← here
  discard (word "extends")
  let value ← self .unary
  let applied ← maybe (typeArguments self)
  node .extendsClause start (value.as .value :: applied)

def implementsClause : Parser Tree :=
  covering .implementsClause do
    discard (word "implements")
    commaList (self .type)

def classHeritage : Parser Tree := do
  let start ← here
  let extended ← maybe (extendsClause self)
  let implemented ← maybe (implementsClause self)
  if extended.isEmpty && implemented.isEmpty then failure
  node .classHeritage start (extended ++ implemented)

def className : Parser Tree := do
  if (← peekWord) = "implements" then failure
  identifier

/-- What follows the keyword `class` and the name. -/
def classRest : Parser (List Tree) := do
  let generics ← maybe (typeParameters self)
  let heritage ← maybe (classHeritage self)
  let body ← classBody self
  return generics ++ heritage ++ [body.as .body]

def classExpression : Parser Tree := do
  let start ← here
  let decorators ← many (decorator self)
  discard (word "class")
  let name ← maybe className
  let rest ← classRest self
  node (.other "class") start (decorators ++ name ++ rest)

/-- A class declaration that starts at `start`, with the decorators read so far. -/
def classDeclaration (start : Nat) (decorators : List Tree) : Parser Tree := do
  let abstractness ← maybe (word "abstract")
  discard (word "class")
  let name ← className
  let rest ← classRest self
  if abstractness.isEmpty then
    discard (optionally (insertedSemicolon false))
  let kind := if abstractness.isEmpty then Kind.classDeclaration else .abstractClassDeclaration
  node kind start (decorators ++ abstractness ++ [name.as .name] ++ rest)

end Dialect.Parsing
