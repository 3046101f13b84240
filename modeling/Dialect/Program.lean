import Dialect.Span

/-!
# Programs

What the writer of the target dialect needs to know about a source text. Statements are modelled by
their structure. Most expressions only keep the span of their text and the few parts that some rule
looks at.
-/

namespace Dialect

structure Param where
  name : String
  value : Option Span := none
  deriving DecidableEq, Repr

inductive VariableKind where
  | functionScoped
  | blockScoped
  | constant
  deriving DecidableEq, Repr

inductive LiteralKind where
  | number
  | string
  | boolean
  | null
  | undefined
  | regex
  deriving DecidableEq, Repr

inductive ImportSpecifier where
  /-- The default export under a local name. -/
  | main (name : String)
  /-- The whole module under a local name. -/
  | everything (name : String)
  | named (imported : String) (name : String)
  deriving DecidableEq, Repr

mutual

inductive Expr where
  | ident (name : String) (span : Span)
  | literal (kind : LiteralKind) (span : Span)
  | template (span : Span)
  | call (callee : Expr) (args : List Expr) (span : Span)
  | construct (callee : Expr) (args : List Expr) (span : Span)
  | assign (left : Expr) (op : String) (right : Expr) (span : Span)
  | update (argument : Expr) (op : String) (span : Span)
  | binary (left : Expr) (op : String) (right : Expr) (span : Span)
  | unary (op : String) (argument : Expr) (span : Span)
  | sequence (items : List Expr) (span : Span)
  | member (object : Expr) (property : String) (span : Span)
  | paren (inner : Expr) (span : Span)
  | function (params : List Param) (body : FunctionBody) (span : Span)
  | array (span : Span)
  | object (span : Span)
  | other (kind : String) (span : Span)

inductive FunctionBody where
  | block (body : List Stmt)
  | value (value : Expr)

inductive Stmt where
  | block (body : List Stmt) (span : Span)
  | function (name : String) (params : List Param) (body : List Stmt) (span : Span)
  | returnStmt (span : Span)
  | expr (value : Expr) (span : Span)
  | variableDecl (kind : VariableKind) (declarators : List Declarator) (span : Span)
  | classDecl (name : String) (superclass : Option Span) (members : List Member) (span : Span)
  | importDecl (specifiers : List ImportSpecifier) (source : String) (span : Span)
  | ifElse (test : Expr) (consequent : Stmt) (alternate : Option Stmt) (span : Span)
  | forLoop (init : Option Stmt) (test : Option Expr) (update : Option Expr) (body : Stmt)
      (span : Span)
  | forIn (left : Option String) (right : Expr) (body : Stmt) (ofItems : Bool) (span : Span)
  | whileLoop (test : Expr) (body : Stmt) (span : Span)
  | breakStmt (span : Span)
  | continueStmt (span : Span)
  | erased (span : Span)
  | unsupported (kind : String) (span : Span)

inductive Declarator where
  | mk (name : Option String) (init : Option Expr) (span : Span)

inductive Member where
  | initializer (name : String) (params : List Param) (body : List Stmt) (span : Span)
  | method (name : String) (params : List Param) (body : List Stmt) (span : Span)
  | field (name : String) (span : Span)

end

structure Program where
  body : List Stmt

namespace Expr

def span : Expr → Span
  | ident _ s | literal _ s | template s | call _ _ s | construct _ _ s | assign _ _ _ s
  | update _ _ s | binary _ _ _ s | unary _ _ s | sequence _ s | member _ _ s | paren _ s
  | function _ _ s | array s | object s | other _ s => s

/-- Without the parentheses around it. -/
def unparen : Expr → Expr
  | paren inner _ => inner.unparen
  | e => e

/-- The name of an identifier, through parentheses. -/
def identName? : Expr → Option String
  | ident name _ => some name
  | paren inner _ => inner.identName?
  | _ => none

/-- The elements of a comma sequence, or the expression itself as the only one. -/
def elements (e : Expr) : List Expr :=
  match e.unparen with
  | sequence items _ => items
  | single => [single]

/-- An element of a comma sequence with its number among all of them, the first being one. -/
structure Visit where
  element : Expr
  index : Nat
  total : Nat

def numbered (es : List Expr) : List Visit :=
  es.mapIdx fun i e => ⟨e, i + 1, es.length⟩

/-- The visits of a walk over the elements of an expression. -/
def visits (e : Expr) : List Visit :=
  numbered e.elements

end Expr

namespace Stmt

def span : Stmt → Span
  | block _ s | function _ _ _ s | returnStmt s | expr _ s | variableDecl _ _ s | classDecl _ _ _ s
  | importDecl _ _ s | ifElse _ _ _ s | forLoop _ _ _ _ s | forIn _ _ _ _ s | whileLoop _ _ s
  | breakStmt s | continueStmt s | erased s | unsupported _ s => s

end Stmt

namespace Declarator

def name : Declarator → Option String
  | mk name _ _ => name

def init : Declarator → Option Expr
  | mk _ init _ => init

def span : Declarator → Span
  | mk _ _ span => span

end Declarator

end Dialect
