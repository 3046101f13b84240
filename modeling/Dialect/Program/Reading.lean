import Dialect.Program
import Dialect.Tree

/-!
# Reading programs

A program is read off the syntax tree of its source. Every span comes from a tree node, every name
is the source text of one. A node that holds a syntax error becomes an unsupported statement of kind
`ERROR`, unless its parts are read one by one.
-/

namespace Dialect.Reading

/-- Kinds whose errors are reported by their parts. -/
def isCompound : Kind → Bool
  | .statementBlock | .functionDeclaration | .generatorFunctionDeclaration | .classDeclaration
  | .abstractClassDeclaration | .ifStatement | .elseClause | .forStatement | .forInStatement
  | .whileStatement | .exportStatement => true
  | _ => false

/-! ## Parts without statements in them -/

def isQuote (c : Char) : Bool :=
  c = '"' || c = '\''

/-- Without the quotes at either end. -/
def unquote (cs : List Char) : List Char :=
  ((cs.dropWhile isQuote).reverse.dropWhile isQuote).reverse

variable (source : List Char)

def textOf (t : Tree) : String :=
  t.span.text source

def restName (children : List Tree) : Option Param :=
  (Tree.parts children).head?.map fun t => ⟨textOf source t, none⟩

mutual

/-- A parameter of a function; a declared receiver is none. -/
def param? : Tree → Option Param
  | .node role kind span children =>
    match kind.treated with
    | .requiredParameter | .optionalParameter =>
      if (Tree.find? .pattern children).any (·.kind.treated = .thisExpression) then none
      else
        (paramIn? .pattern children).map fun p =>
          match Tree.find? .value children with
          | some value => { p with value := some value.span }
          | none => p
    | .assignmentPattern =>
      (paramIn? .left children).map fun p =>
        { p with value := (Tree.find? .right children).map (·.span) }
    | .restPattern => restName source children
    | _ => some ⟨textOf source (.node role kind span children), none⟩

def paramIn? (role : Role) : List Tree → Option Param
  | [] => none
  | t :: ts => if t.role = role then param? t else paramIn? role ts

end

def params (children : List Tree) : List Param :=
  match Tree.find? .parameters children with
  | some list => (Tree.parts list.children).filterMap (param? source)
  | none => []

def specifier? (t : Tree) : Option ImportSpecifier :=
  match t.kind.treated, Tree.find? .name t.children with
  | .importSpecifier, some name =>
    let imported := textOf source name
    match Tree.find? .renamed t.children with
    | some other => some (.named imported (textOf source other))
    | none => some (.named imported imported)
  | _, _ => none

def clausePart (t : Tree) : List ImportSpecifier :=
  match t.kind.treated with
  | .identifier => [.main (textOf source t)]
  | .namespaceImport =>
    match (Tree.parts t.children).head? with
    | some name => [.everything (textOf source name)]
    | none => []
  | .namedImports => (Tree.parts t.children).filterMap (specifier? source)
  | _ => []

def specifiers (children : List Tree) : List ImportSpecifier :=
  match (Tree.parts children).find? (·.kind.treated = .importClause) with
  | some clause => (Tree.parts clause.children).flatMap (clausePart source)
  | none => []

def importStmt (span : Span) (children : List Tree) : Stmt :=
  if Tree.hasToken "type" children then .erased span
  else
    match Tree.find? .source children with
    | some t =>
      .importDecl (specifiers source children) (String.ofList (unquote (t.span.chars source))) span
    | none => .unsupported Kind.importStatement.name span

/-- The superclass named by a class's heritage. -/
def superclass? (children : List Tree) : Option Span := do
  let heritage ← (Tree.parts children).find? (·.kind.treated = .classHeritage)
  let first ← (Tree.parts heritage.children).head?
  match first.kind.treated with
  | .extendsClause =>
    let value ← (Tree.find? .value first.children).or (Tree.parts first.children).head?
    return value.span
  | _ => return first.span

def variableKind (kind : Kind) (children : List Tree) : VariableKind :=
  match kind.treated with
  | .variableDeclaration => .functionScoped
  | _ =>
    match Tree.find? .keyword children with
    | some t => if textOf source t = "const" then .constant else .blockScoped
    | none => .blockScoped

def declaredName? (children : List Tree) : Option String :=
  match Tree.find? .name children with
  | some t => if t.kind.treated = .identifier then some (textOf source t) else none
  | none => none

def nameText? (children : List Tree) : Option String :=
  (Tree.find? .name children).map (textOf source)

def operatorText? (children : List Tree) : Option String :=
  (Tree.find? .operator children).map (textOf source)

/-- The name of a field, which older trees call its property. -/
def fieldName? (children : List Tree) : Option String :=
  ((Tree.find? .name children).or (Tree.find? .property children)).map (textOf source)

/-- The loop goes through values, not through names. -/
def goesThroughValues (children : List Tree) : Bool :=
  match operatorText? source children with
  | some op => op = "of"
  | none => Tree.hasToken "of" children

/-- Arguments stand in a list; a template can stand in its place. -/
def hasArgumentList (children : List Tree) : Bool :=
  (Tree.find? .arguments children).any (·.kind.treated = .arguments)

/-- The parameters of a function literal, or its single bare one. -/
def literalParams (children : List Tree) : List Param :=
  match Tree.find? .parameters children, Tree.find? .parameter children with
  | some _, _ => params source children
  | none, some t => [⟨textOf source t, none⟩]
  | none, none => []

/-! ## Statements and expressions -/

mutual

def stmt : Tree → Stmt
  | .node role kind span children =>
    if kind = .error ||
        (Tree.hasError (.node role kind span children) && !isCompound kind.treated) then
      .unsupported Kind.error.name span
    else
      match kind.treated with
      | .comment | .emptyStatement | .hashBangLine | .interfaceDeclaration | .typeAliasDeclaration
      | .ambientDeclaration | .functionSignature => .erased span
      | .statementBlock => .block (stmts children) span
      | .expressionStatement =>
        match firstExpr? children with
        | some e => .expr e span
        | none => .unsupported kind.name span
      | .functionDeclaration | .generatorFunctionDeclaration =>
        match nameText? source children, bodyIn? children with
        | some name, some body => .function name (params source children) body span
        | _, _ => .unsupported kind.name span
      | .returnStatement => .returnStmt span
      | .lexicalDeclaration | .variableDeclaration =>
        .variableDecl (variableKind source kind children) (declarators children) span
      | .classDeclaration | .abstractClassDeclaration =>
        match nameText? source children, membersIn? children with
        | some name, some members => .classDecl name (superclass? children) members span
        | _, _ => .unsupported kind.name span
      | .importStatement => importStmt source span children
      | .ifStatement =>
        match exprIn? .condition children, stmtIn? .consequence children with
        | some test, some consequent =>
          .ifElse test consequent (alternateIn? children) span
        | _, _ => .unsupported kind.name span
      | .forStatement =>
        match stmtIn? .body children with
        | some body =>
          .forLoop (loopInit? children) (loopTest? children) (exprIn? .increment children) body span
        | none => .unsupported kind.name span
      | .forInStatement =>
        match Tree.find? .left children, exprIn? .right children, stmtIn? .body children with
        | some left, some right, some body =>
          .forIn (if left.kind.treated = .identifier then some (textOf source left) else none)
            right body (goesThroughValues source children) span
        | _, _, _ => .unsupported kind.name span
      | .whileStatement =>
        match exprIn? .condition children, stmtIn? .body children with
        | some test, some body => .whileLoop test body span
        | _, _ => .unsupported kind.name span
      | .breakStatement => .breakStmt span
      | .continueStatement => .continueStmt span
      | .exportStatement =>
        match stmtIn? .declaration children with
        | some declared => declared
        | none => .unsupported kind.name span
      | _ => .unsupported kind.name span

/-- The parts of a list as statements. -/
def stmts : List Tree → List Stmt
  | [] => []
  | t :: ts => if t.isPart then stmt t :: stmts ts else stmts ts

/-- The first child in a role as a statement. -/
def stmtIn? (role : Role) : List Tree → Option Stmt
  | [] => none
  | t :: ts => if t.role = role then some (stmt t) else stmtIn? role ts

/-- The statements of a function body. -/
def bodyIn? : List Tree → Option (List Stmt)
  | [] => none
  | .node role kind span children :: ts =>
    if role = .body then
      if kind.treated = .statementBlock then some (stmts children)
      else some [stmt (.node role kind span children)]
    else bodyIn? ts

def firstStmt? : List Tree → Option Stmt
  | [] => none
  | t :: ts => if t.isPart then some (stmt t) else firstStmt? ts

/-- The statement under `else`. -/
def alternateIn? : List Tree → Option Stmt
  | [] => none
  | .node role _ _ children :: ts =>
    if role = .alternative then firstStmt? children else alternateIn? ts

def loopInit? : List Tree → Option Stmt
  | [] => none
  | .node role kind span children :: ts =>
    if role = .initializer then
      match kind.treated with
      | .emptyStatement | .other ";" => none
      | .lexicalDeclaration | .variableDeclaration | .expressionStatement =>
        some (stmt (.node role kind span children))
      | _ => some (.expr (expr (.node role kind span children)) span)
    else loopInit? ts

def loopTest? : List Tree → Option Expr
  | [] => none
  | .node role kind span children :: ts =>
    if role = .condition then
      match kind.treated with
      | .emptyStatement | .other ";" => none
      | .expressionStatement => firstExpr? children
      | _ => some (expr (.node role kind span children))
    else loopTest? ts

def declarators : List Tree → List Declarator
  | [] => []
  | .node role kind span children :: ts =>
    if Tree.isPart (.node role kind span children) && kind.treated = .variableDeclarator then
      .mk (declaredName? source children) (exprIn? .value children) span :: declarators ts
    else declarators ts

def membersIn? : List Tree → Option (List Member)
  | [] => none
  | .node role _ _ children :: ts => if role = .body then some (members children) else membersIn? ts

def members : List Tree → List Member
  | [] => []
  | t :: ts => if t.isPart then (member? t).toList ++ members ts else members ts

/-- A member of a class; a declaration without a body is none. -/
def member? : Tree → Option Member
  | .node _ kind span children =>
    match kind.treated with
    | .methodDefinition =>
      match nameText? source children, bodyIn? children with
      | some name, some body =>
        if name = "constructor" then some (.initializer name (params source children) body span)
        else some (.method name (params source children) body span)
      | _, _ => some (.field kind.name span)
    | .methodSignature | .abstractMethodSignature | .indexSignature | .decorator => none
    | .publicFieldDefinition | .fieldDefinition =>
      some (.field ((fieldName? source children).getD "") span)
    | _ => some (.field kind.name span)

def expr : Tree → Expr
  | .node role kind span children =>
    match kind.treated with
    | .identifier | .thisExpression | .superExpression | .propertyIdentifier
    | .shorthandPropertyIdentifier =>
      .ident (textOf source (.node role kind span children)) span
    | .number => .literal .number span
    | .string => .literal .string span
    | .trueLiteral | .falseLiteral => .literal .boolean span
    | .nullLiteral => .literal .null span
    | .undefinedLiteral => .literal .undefined span
    | .regex => .literal .regex span
    | .templateString => .template span
    | .callExpression =>
      match exprIn? .callee children, argsIn? children with
      | some callee, some args =>
        if hasArgumentList children then .call callee args span else .other kind.name span
      | _, _ => .other kind.name span
    | .newExpression =>
      match exprIn? .constructed children with
      | some callee => .construct callee ((argsIn? children).getD []) span
      | none => .other kind.name span
    | .assignmentExpression | .augmentedAssignment =>
      match exprIn? .left children, exprIn? .right children with
      | some left, some right =>
        .assign left ((operatorText? source children).getD "=") right span
      | _, _ => .other kind.name span
    | .updateExpression =>
      match exprIn? .argument children, operatorText? source children with
      | some argument, some op => .update argument op span
      | _, _ => .other kind.name span
    | .binaryExpression =>
      match exprIn? .left children, operatorText? source children, exprIn? .right children with
      | some left, some op, some right => .binary left op right span
      | _, _, _ => .other kind.name span
    | .unaryExpression =>
      match operatorText? source children, exprIn? .argument children with
      | some op, some argument => .unary op argument span
      | _, _ => .other kind.name span
    | .sequenceExpression => .sequence (elements children) span
    | .memberExpression =>
      match exprIn? .object children, Tree.find? .property children with
      | some object, some property => .member object (textOf source property) span
      | _, _ => .other kind.name span
    | .parenthesizedExpression =>
      match firstExpr? children with
      | some inner => .paren inner span
      | none => .other kind.name span
    | .arrowFunction | .functionExpression | .function =>
      match functionBodyIn? children with
      | some body => .function (literalParams source children) body span
      | none => .other kind.name span
    | .array => .array span
    | .object => .object span
    | _ => .other kind.name span

def exprs : List Tree → List Expr
  | [] => []
  | t :: ts => if t.isPart then expr t :: exprs ts else exprs ts

def exprIn? (role : Role) : List Tree → Option Expr
  | [] => none
  | t :: ts => if t.role = role then some (expr t) else exprIn? role ts

def firstExpr? : List Tree → Option Expr
  | [] => none
  | t :: ts => if t.isPart then some (expr t) else firstExpr? ts

/-- The arguments of a call or construction. -/
def argsIn? : List Tree → Option (List Expr)
  | [] => none
  | .node role _ _ children :: ts =>
    if role = .arguments then some (exprs children) else argsIn? ts

/-- The elements of a sequence, with sequences among them opened. -/
def elements : List Tree → List Expr
  | [] => []
  | .node role kind span children :: ts =>
    if Tree.isPart (.node role kind span children) then
      if kind.treated = .sequenceExpression then elements children ++ elements ts
      else expr (.node role kind span children) :: elements ts
    else elements ts

def functionBodyIn? : List Tree → Option FunctionBody
  | [] => none
  | .node role kind span children :: ts =>
    if role = .body then
      if kind.treated = .statementBlock then some (.block (stmts children))
      else some (.value (expr (.node role kind span children)))
    else functionBodyIn? ts

end

end Dialect.Reading

namespace Dialect

/-- The program a syntax tree of the source holds. -/
def Program.ofTree (source : List Char) (t : Tree) : Program :=
  ⟨Reading.stmts source t.children⟩

end Dialect
