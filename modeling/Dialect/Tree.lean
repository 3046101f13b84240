import Dialect.Span

/-!
# Syntax trees

A tree of ranged nodes. A node has a kind, the role it plays in its parent, its byte range and its
children in source order. Punctuation and keywords are nodes of kind `token`; everything else is a
named node, comments included. Kinds are told apart by their names.
-/

namespace Dialect

inductive Role where
  | plain
  | name
  | renamed
  | body
  | parameters
  | parameter
  | pattern
  | value
  | left
  | right
  | operator
  | argument
  | arguments
  | callee
  | constructed
  | condition
  | consequence
  | alternative
  | initializer
  | increment
  | declaration
  | source
  | object
  | property
  | keyword
  deriving DecidableEq, Repr

/-- Kinds that some later stage treats on their own; `other` holds the name of any other kind. A node
that the text lacks is `missing`, with the kind it was expected to have. -/
inductive Kind where
  | token (text : String)
  | other (name : String)
  | missing (kind : Kind)
  | error
  | program
  | comment
  | emptyStatement
  | hashBangLine
  | interfaceDeclaration
  | typeAliasDeclaration
  | ambientDeclaration
  | functionSignature
  | statementBlock
  | expressionStatement
  | functionDeclaration
  | generatorFunctionDeclaration
  | returnStatement
  | lexicalDeclaration
  | variableDeclaration
  | variableDeclarator
  | classDeclaration
  | abstractClassDeclaration
  | classHeritage
  | extendsClause
  | implementsClause
  | classBody
  | methodDefinition
  | methodSignature
  | abstractMethodSignature
  | indexSignature
  | decorator
  | publicFieldDefinition
  | fieldDefinition
  | importStatement
  | importClause
  | namespaceImport
  | namedImports
  | importSpecifier
  | exportStatement
  | ifStatement
  | elseClause
  | forStatement
  | forInStatement
  | whileStatement
  | breakStatement
  | continueStatement
  | formalParameters
  | requiredParameter
  | optionalParameter
  | assignmentPattern
  | restPattern
  | identifier
  | propertyIdentifier
  | shorthandPropertyIdentifier
  | thisExpression
  | superExpression
  | number
  | string
  | trueLiteral
  | falseLiteral
  | nullLiteral
  | undefinedLiteral
  | regex
  | templateString
  | callExpression
  | arguments
  | newExpression
  | assignmentExpression
  | augmentedAssignment
  | updateExpression
  | binaryExpression
  | unaryExpression
  | sequenceExpression
  | memberExpression
  | parenthesizedExpression
  | arrowFunction
  | functionExpression
  | function
  | array
  | object
  | asExpression
  | satisfiesExpression
  | nonNullExpression
  | typeAscription
  | assertsAscription
  | predicateAscription
  | typeArguments
  | typeParameters
  | accessibilityModifier
  | overrideModifier
  deriving DecidableEq, Repr

namespace Kind

def name : Kind → String
  | token text => text
  | other name => name
  | missing kind => kind.name
  | error => "ERROR"
  | program => "program"
  | comment => "comment"
  | emptyStatement => "empty_statement"
  | hashBangLine => "hash_bang_line"
  | interfaceDeclaration => "interface_declaration"
  | typeAliasDeclaration => "type_alias_declaration"
  | ambientDeclaration => "ambient_declaration"
  | functionSignature => "function_signature"
  | statementBlock => "statement_block"
  | expressionStatement => "expression_statement"
  | functionDeclaration => "function_declaration"
  | generatorFunctionDeclaration => "generator_function_declaration"
  | returnStatement => "return_statement"
  | lexicalDeclaration => "lexical_declaration"
  | variableDeclaration => "variable_declaration"
  | variableDeclarator => "variable_declarator"
  | classDeclaration => "class_declaration"
  | abstractClassDeclaration => "abstract_class_declaration"
  | classHeritage => "class_heritage"
  | extendsClause => "extends_clause"
  | implementsClause => "implements_clause"
  | classBody => "class_body"
  | methodDefinition => "method_definition"
  | methodSignature => "method_signature"
  | abstractMethodSignature => "abstract_method_signature"
  | indexSignature => "index_signature"
  | decorator => "decorator"
  | publicFieldDefinition => "public_field_definition"
  | fieldDefinition => "field_definition"
  | importStatement => "import_statement"
  | importClause => "import_clause"
  | namespaceImport => "namespace_import"
  | namedImports => "named_imports"
  | importSpecifier => "import_specifier"
  | exportStatement => "export_statement"
  | ifStatement => "if_statement"
  | elseClause => "else_clause"
  | forStatement => "for_statement"
  | forInStatement => "for_in_statement"
  | whileStatement => "while_statement"
  | breakStatement => "break_statement"
  | continueStatement => "continue_statement"
  | formalParameters => "formal_parameters"
  | requiredParameter => "required_parameter"
  | optionalParameter => "optional_parameter"
  | assignmentPattern => "assignment_pattern"
  | restPattern => "rest_pattern"
  | identifier => "identifier"
  | propertyIdentifier => "property_identifier"
  | shorthandPropertyIdentifier => "shorthand_property_identifier"
  | thisExpression => "this"
  | superExpression => "super"
  | number => "number"
  | string => "string"
  | trueLiteral => "true"
  | falseLiteral => "false"
  | nullLiteral => "null"
  | undefinedLiteral => "undefined"
  | regex => "regex"
  | templateString => "template_string"
  | callExpression => "call_expression"
  | arguments => "arguments"
  | newExpression => "new_expression"
  | assignmentExpression => "assignment_expression"
  | augmentedAssignment => "augmented_assignment_expression"
  | updateExpression => "update_expression"
  | binaryExpression => "binary_expression"
  | unaryExpression => "unary_expression"
  | sequenceExpression => "sequence_expression"
  | memberExpression => "member_expression"
  | parenthesizedExpression => "parenthesized_expression"
  | arrowFunction => "arrow_function"
  | functionExpression => "function_expression"
  | function => "function"
  | array => "array"
  | object => "object"
  | asExpression => "as_expression"
  | satisfiesExpression => "satisfies_expression"
  | nonNullExpression => "non_null_expression"
  | typeAscription => "type_annotation"
  | assertsAscription => "asserts_annotation"
  | predicateAscription => "type_predicate_annotation"
  | typeArguments => "type_arguments"
  | typeParameters => "type_parameters"
  | accessibilityModifier => "accessibility_modifier"
  | overrideModifier => "override_modifier"

def isNamed : Kind → Bool
  | token _ => false
  | missing kind => kind.isNamed
  | _ => true

/-- Text that breaks the rules, or the lack of text. -/
def isError : Kind → Bool
  | error | missing _ => true
  | _ => false

/-- The kinds that have a name of their own. -/
def known : List Kind :=
  [.error, .program, .comment, .emptyStatement, .hashBangLine, .interfaceDeclaration,
   .typeAliasDeclaration, .ambientDeclaration, .functionSignature, .statementBlock,
   .expressionStatement, .functionDeclaration, .generatorFunctionDeclaration, .returnStatement,
   .lexicalDeclaration, .variableDeclaration, .variableDeclarator, .classDeclaration,
   .abstractClassDeclaration, .classHeritage, .extendsClause, .implementsClause, .classBody,
   .methodDefinition, .methodSignature, .abstractMethodSignature, .indexSignature, .decorator,
   .publicFieldDefinition, .fieldDefinition, .importStatement, .importClause, .namespaceImport,
   .namedImports, .importSpecifier, .exportStatement, .ifStatement, .elseClause, .forStatement,
   .forInStatement, .whileStatement, .breakStatement, .continueStatement, .formalParameters,
   .requiredParameter, .optionalParameter, .assignmentPattern, .restPattern, .identifier,
   .propertyIdentifier, .shorthandPropertyIdentifier, .thisExpression, .superExpression, .number,
   .string, .trueLiteral, .falseLiteral, .nullLiteral, .undefinedLiteral, .regex, .templateString,
   .callExpression, .arguments, .newExpression, .assignmentExpression, .augmentedAssignment,
   .updateExpression, .binaryExpression, .unaryExpression, .sequenceExpression, .memberExpression,
   .parenthesizedExpression, .arrowFunction, .functionExpression, .function, .array, .object,
   .asExpression, .satisfiesExpression, .nonNullExpression, .typeAscription, .assertsAscription,
   .predicateAscription, .typeArguments, .typeParameters, .accessibilityModifier, .overrideModifier]

/-- The kind of a name. -/
def ofName (name : String) : Kind :=
  (known.find? (·.name = name)).getD (other name)

/-- The kind a node is treated as, which only depends on its name. -/
def treated : Kind → Kind
  | token text => ofName text
  | other name => ofName name
  | missing kind => kind.treated
  | kind => kind

theorem ofName_name_of_known : known.all (fun kind => ofName kind.name = kind) := by
  decide +kernel

theorem treated_eq_ofName (kind : Kind) : kind.treated = ofName kind.name := by
  have found {kind : Kind} (listed : known.contains kind) : kind = ofName kind.name := by
    have same := List.all_eq_true.mp ofName_name_of_known kind (List.contains_iff_mem.mp listed)
    exact (of_decide_eq_true same).symm
  induction kind with
  | token | other => rfl
  | missing kind ih => exact ih
  | _ => exact found rfl

end Kind

inductive Tree where
  | node (role : Role) (kind : Kind) (span : Span) (children : List Tree)
  deriving Repr

namespace Tree

def role : Tree → Role
  | node role _ _ _ => role

def kind : Tree → Kind
  | node _ kind _ _ => kind

def span : Tree → Span
  | node _ _ span _ => span

def children : Tree → List Tree
  | node _ _ _ children => children

/-- The same node in another role. -/
def as (t : Tree) (role : Role) : Tree :=
  node role t.kind t.span t.children

def withKind (t : Tree) (kind : Kind) : Tree :=
  node t.role kind t.span t.children

def isNamed (t : Tree) : Bool :=
  t.kind.isNamed

/-- A named node that is no comment. -/
def isPart (t : Tree) : Bool :=
  t.isNamed && t.kind.name ≠ Kind.comment.name

def parts (children : List Tree) : List Tree :=
  children.filter isPart

/-- The first child in a role. -/
def find? (role : Role) (children : List Tree) : Option Tree :=
  children.find? (·.role = role)

def hasToken (text : String) (children : List Tree) : Bool :=
  children.any fun t => !t.isNamed && t.kind.name = text

mutual

/-- A syntax error at the node or below it; a missing node is one. -/
def hasError : Tree → Bool
  | node _ kind _ children => kind.isError || anyError children

def anyError : List Tree → Bool
  | [] => false
  | t :: ts => t.hasError || anyError ts

end

end Tree

/-! ## Parsers -/

/-- Why there is no tree for a text. -/
inductive ReadError where
  | parse (reason : String)
  deriving DecidableEq, Repr

def ReadError.message : ReadError → String
  | .parse reason => "parse error: " ++ reason

/-- Builds the syntax tree of a source text. -/
abbrev SourceParser := List Char → Except ReadError Tree

end Dialect
