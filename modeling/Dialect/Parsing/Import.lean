import Dialect.Parsing.Expression

/-!
# Imports and exports
-/

namespace Dialect.Parsing

variable (self : Rules)

def stringLiteral : Parser Tree :=
  lexeme .string string?

/-- A name on either side of a module boundary: a word or a string. -/
def moduleName : Parser Tree := do
  stringLiteral <|> do
    let t ← anyWord
    return t.withKind .identifier

def fromClause : Parser Tree := do
  discard (word "from")
  let t ← stringLiteral
  return t.as .source

def importAttribute : Parser Tree := do
  let start ← here
  discard (word "with" <|> word "assert")
  let t ← objectLiteral self
  node (.other "import_attribute") start [t]

/-! ## Imports -/

def importSpecifier : Parser Tree := do
  let start ← here
  let renamed : Parser (List Tree) := do
    let name ← moduleName
    discard (word "as")
    let other ← identifier
    return [name.as .name, other.as .renamed]
  let plain : Parser (List Tree) := do
    let name ← identifier
    return [name.as .name]
  let specified : Parser (List Tree) := do
    let parts ← renamed <|> plain
    let s ← peekSymbol
    guardThat (s = "," || s = "\x7d")
    return parts
  let typed : Parser (List Tree) := do
    let marker ← word "type" <|> word "typeof"
    return marker :: (← specified)
  let parts ← specified <|> typed
  node .importSpecifier start parts

def namedImports : Parser Tree := do
  let start ← here
  discard (symbol "\x7b")
  let items ← commaUntil "\x7d" importSpecifier
  discard (symbol "\x7d")
  node .namedImports start items

def namespaceImport : Parser Tree := do
  let start ← here
  discard (symbol "*")
  discard (word "as")
  let name ← identifier
  node .namespaceImport start [name]

def importClause : Parser Tree := do
  let start ← here
  let group := namespaceImport <|> namedImports
  let leading : Parser (List Tree) := do
    let name ← identifier
    let more ← maybe do
      discard (symbol ",")
      group
    return name :: more
  let parts ← (do return [← group]) <|> leading
  node .importClause start parts

def importFrom (start : Nat) (marker : List Tree) : Parser Tree := do
  let clause ← importClause
  let source ← fromClause
  let options ← maybe (importAttribute self)
  statementNode .importStatement start (marker ++ [clause, source] ++ options) false

def importRequire (start : Nat) (marker : List Tree) : Parser Tree := do
  let inner ← here
  let name ← identifier
  discard (symbol "=")
  discard (word "require")
  discard (symbol "(")
  let source ← fromString
  discard (symbol ")")
  let clause ← node (.other "import_require_clause") inner [name, source]
  statementNode .importStatement start (marker ++ [clause]) false
where
  fromString : Parser Tree := do
    let t ← stringLiteral
    return t.as .source

def importAlias (start : Nat) : Parser Tree := do
  let name ← identifier
  discard (symbol "=")
  let parts ← identifier
  let more ← many do
    discard (symbol ".")
    propertyWord
  statementNode (.other "import_alias") start (name :: parts :: more) false

def importStatement : Parser Tree := do
  let start ← here
  discard (word "import")
  let bare : Parser Tree := do
    let source ← stringLiteral
    let options ← maybe (importAttribute self)
    statementNode .importStatement start (source.as .source :: options) false
  let typed : Parser Tree := do
    let marker ← word "type" <|> word "typeof"
    importFrom self start [marker] <|> importRequire start [marker]
  typed <|> importFrom self start [] <|> importRequire start [] <|> importAlias start <|> bare

/-! ## Exports -/

def exportSpecifier : Parser Tree := do
  let start ← here
  let renamed : Parser (List Tree) := do
    let name ← moduleName
    let other ← maybe do
      discard (word "as")
      moduleName
    let s ← peekSymbol
    guardThat (s = "," || s = "\x7d")
    return name :: other
  let typed : Parser (List Tree) := do
    let marker ← word "type" <|> word "typeof"
    return marker :: (← renamed)
  let parts ← renamed <|> typed
  node (.other "export_specifier") start parts

def exportClause : Parser Tree := do
  let start ← here
  discard (symbol "\x7b")
  let items ← commaUntil "\x7d" exportSpecifier
  discard (symbol "\x7d")
  node (.other "export_clause") start items

def namespaceExport : Parser Tree := do
  let start ← here
  discard (symbol "*")
  discard (optionally do
    discard (word "as")
    moduleName)
  node (.other "namespace_export") start []

/-- An export of names, without a declaration. -/
def exportNames (start : Nat) : Parser Tree := do
  let listed : Parser (List Tree) := do
    let marker ← maybe (word "type")
    let clause ← exportClause
    let source ← maybe fromClause
    return marker ++ [clause] ++ source
  let all : Parser (List Tree) := do
    let marker ← maybe (word "type")
    let names ← namespaceExport
    let source ← fromClause
    return marker ++ [names, source]
  let parts ← listed <|> all
  let options ← maybe (importAttribute self)
  statementNode .exportStatement start (parts ++ options) false

def exportAssignment (start : Nat) : Parser Tree := do
  discard (symbol "=")
  let value ← self .expression
  statementNode .exportStatement start [value] true

def exportGlobal (start : Nat) : Parser Tree := do
  discard (word "as")
  discard (word "namespace")
  let name ← identifier
  statementNode .exportStatement start [name] false

end Dialect.Parsing
