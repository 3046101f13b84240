import Dialect.Emission.CountingLoop
import Dialect.Emission.Import
import Dialect.Program.Faults

/-!
# Emitting statements

Headers, block marks and indentation come from the grammar, expressions from the source. A construct
without counterpart gives a diagnostic and no line.
-/

namespace Dialect.Context

variable (c : Context)

/-- A simple statement. -/
def simple (depth : Nat) (text : String) : Emission :=
  .line depth (text ++ c.grammar.terminator)

/-- A simple statement with a rendered expression in it. -/
def simpleRendered (depth : Nat) (r : Rendering) (text : String) : Emission :=
  .reports r.diagnostics ++ c.simple depth text

def functionHeader (keyword : Option String) (name params : String) : String :=
  match keyword with
  | some keyword =>
    if keyword.isEmpty then name ++ "(" ++ params ++ ")"
    else keyword ++ " " ++ name ++ "(" ++ params ++ ")"
  | none => name ++ "(" ++ params ++ ")"

def methodHeader (name : String) (hasKeyword : Bool) (params : List Param) : String :=
  let keyword := if hasKeyword then some c.grammar.functionKeyword else none
  functionHeader keyword name (c.paramsText c.grammar.classes.receives params)

def classHeader (name : String) (superclass : Option Span) : String :=
  let syn := c.grammar.classes
  let parent := match superclass with
    | some s =>
      if syn.superclassInParens then "(" ++ c.text s ++ ")" else " extends " ++ c.text s
    | none => ""
  syn.keyword ++ " " ++ name ++ parent

/-- A return statement is copied up to its semicolon. -/
def returnText (s : Span) : String :=
  let cs := Text.trimEnd (s.chars c.source)
  String.ofList (Text.trimEnd (Text.dropEndWhile (· = ';') cs))

def extraDeclarator (d : Declarator) : Diagnostic :=
  .unsupported ("additional declarator \x60" ++ d.name.getD "pattern" ++ "\x60") d.span

def variableText (name value : String) : String :=
  let keyword := match c.grammar.variableKeyword with
    | some keyword => keyword ++ " "
    | none => ""
  keyword ++ name ++ " = " ++ value

/-- What stands before `else` on its line. -/
def alternateLead : String :=
  if c.grammar.file.useBraces then "\x7d " else ""

def withHeader (resource : String) (binding : Expr) : String :=
  let control := c.grammar.control
  control.withKeyword ++ " " ++ resource ++ " " ++ control.asKeyword ++ " " ++ c.bindingName binding

def isTemplate (e : Expr) : Bool :=
  match e.unparen with
  | .template _ => true
  | _ => false

mutual

def stmt (depth : Nat) : Stmt → Emission
  | .block body _ => stmts depth body
  | .function name params body _ =>
    let header := functionHeader (some c.grammar.functionKeyword) name (c.paramsText false params)
    .block c.grammar depth header (stmts (depth + 1) body)
  | .returnStmt span => c.simple depth (c.returnText span)
  | .expr value span => exprStmt depth span value
  | .variableDecl _ declarators span => declared depth span declarators
  | .classDecl name superclass members _ =>
    .block c.grammar depth (c.classHeader name superclass)
      (initializer (depth + 1) members ++ methods (depth + 1) members)
  | .importDecl specifiers source _ => Import.emission c.grammar depth specifiers source
  | .ifElse test consequent alternate _ =>
    .header c.grammar depth (c.grammar.control.ifKeyword ++ " " ++ c.condition test) ++
      .filled c.grammar (depth + 1) (stmt (depth + 1) consequent) ++ otherwise depth alternate
  | .forLoop init test update body span =>
    match c.countingLoop? init test update with
    | some l => .block c.grammar depth (c.countingHeader l) (stmt (depth + 1) body)
    | none =>
      .report
        (.unsupported "for statement outside \x60for (let i = START; i OP END; STEP)\x60" span)
  | .forIn left right body _ span =>
    match left, right.identName? with
    | none, _ => .report (.unsupported "for-in loop with a destructuring binding" span)
    | some _, none =>
      .report (.unsupported "for-in loop over a non-identifier iterable" right.span)
    | some name, some items =>
      let control := c.grammar.control
      let header := control.forKeyword ++ " " ++ name ++ " " ++ control.inKeyword ++ " " ++ items
      .block c.grammar depth header (stmt (depth + 1) body)
  | .whileLoop test body _ =>
    .block c.grammar depth (c.grammar.control.whileKeyword ++ " " ++ c.condition test)
      (stmt (depth + 1) body)
  | .breakStmt _ => c.simple depth c.grammar.control.breakKeyword
  | .continueStmt _ => c.simple depth c.grammar.control.continueKeyword
  | .erased _ => {}
  | .unsupported kind span =>
    .report (if kind = faultKind then .syntaxError span else .unsupported kind span)

def stmts (depth : Nat) : List Stmt → Emission
  | [] => {}
  | s :: ss => stmt depth s ++ stmts depth ss

/-- What follows the first branch of an `if`; one more `if` continues the chain at its depth. -/
def otherwise (depth : Nat) : Option Stmt → Emission
  | none => .closing c.grammar depth
  | some (.ifElse test consequent alternate _) =>
    .header c.grammar depth
        (c.alternateLead ++ c.grammar.control.elseIfKeyword ++ " " ++ c.condition test) ++
      .filled c.grammar (depth + 1) (stmt (depth + 1) consequent) ++ otherwise depth alternate
  | some s =>
    .block c.grammar depth (c.alternateLead ++ c.grammar.control.elseKeyword) (stmt (depth + 1) s)

/-- The first declarator; the others are reported. -/
def declared (depth : Nat) (span : Span) : List Declarator → Emission
  | [] => .report (.missing "variable declaration without declarators" span)
  | .mk name init place :: rest =>
    .reports (rest.map extraDeclarator) ++
      match name with
      | none => .report (.unsupported "destructuring declaration" place)
      | some name => initialized depth name init

def initialized (depth : Nat) (name : String) : Option Expr → Emission
  | none => c.simple depth (c.variableText name "undefined")
  | some init =>
    match functionLiteral depth name init with
    | some e => e
    | none =>
      let value := c.renderInitializer init
      c.simpleRendered depth value (c.variableText name value.text)

/-- A function literal becomes a function of the variable's name. -/
def functionLiteral (depth : Nat) (name : String) : Expr → Option Emission
  | .paren inner _ => functionLiteral depth name inner
  | .function params (.block body) _ =>
    let header := functionHeader (some c.grammar.functionKeyword) name (c.paramsText false params)
    some (.block c.grammar depth header (stmts (depth + 1) body))
  | .function params (.value e) _ =>
    let header :=
      c.grammar.functionKeyword ++ " " ++ name ++ "(" ++ c.paramsText false params ++ ")"
    let value := c.render e
    some (.header c.grammar depth header ++
      c.simpleRendered (depth + 1) value ("return " ++ value.text) ++ .closing c.grammar depth)
  | _ => none

/-- The first constructor of a class. -/
def initializer (depth : Nat) : List Member → Emission
  | [] => {}
  | .initializer _ params body _ :: _ =>
    let syn := c.grammar.classes
    let header := c.methodHeader syn.constructorName syn.constructorKeyword params
    .block c.grammar depth header (stmts (depth + 1) body)
  | _ :: ms => initializer depth ms

/-- The methods of a class; its fields are reported. -/
def methods (depth : Nat) : List Member → Emission
  | [] => {}
  | .method name params body _ :: ms =>
    let header := c.methodHeader name c.grammar.classes.methodKeyword params
    .block c.grammar depth header (stmts (depth + 1) body) ++ methods depth ms
  | .field name span :: ms =>
    .report (.unsupported ("class member \x60" ++ name ++ "\x60") span) ++ methods depth ms
  | .initializer _ _ _ _ :: ms => methods depth ms

def exprStmt (depth : Nat) (span : Span) : Expr → Emission
  | .call callee args place =>
    if Support.formOf c.grammar callee = some .scopedResource then resourceBlock depth place args
    else
      let r := c.renderCall callee args place
      c.simpleRendered depth r r.text
  | .assign left op right place =>
    if isTemplate right then
      let value := c.render right
      c.simpleRendered depth value (c.text left.span ++ " " ++ op ++ " " ++ value.text)
    else c.simple depth (c.withoutNew (.assign left op right place))
  | .update argument op _ => c.simple depth (c.text argument.span ++ op)
  | .sequence items _ => exprStmts depth items
  | .paren inner _ => exprStmt depth span inner
  | _ => .report (.unsupported "expression statement" span)

def exprStmts (depth : Nat) : List Expr → Emission
  | [] => {}
  | e :: es => exprStmt depth e.span e ++ exprStmts depth es

/-- A resource, the name it is bound to, and the function that uses it. -/
def resourceBlock (depth : Nat) (span : Span) : List Expr → Emission
  | resource :: binding :: body :: _ =>
    let r := c.render resource
    match resourceBody depth (c.withHeader r.text binding) body with
    | some e => .reports r.diagnostics ++ e
    | none => .report (.missing "withStatement body must be a function literal" body.span)
  | args =>
    .report
      (.missing ("withStatement expects 3 arguments, found " ++ toString args.length) span)

def resourceBody (depth : Nat) (header : String) : Expr → Option Emission
  | .paren inner _ => resourceBody depth header inner
  | .function _ (.block body) _ => some (.block c.grammar depth header (stmts (depth + 1) body))
  | .function _ (.value e) _ =>
    some (.header c.grammar depth header ++ exprStmt (depth + 1) e.span e ++
      .closing c.grammar depth)
  | _ => none

end

end Dialect.Context

namespace Dialect

/-- A program over a source, written in a target dialect. -/
def Program.emit (g : Grammar) (source : List Char) (p : Program) : Emission :=
  Context.stmts ⟨g, source⟩ 0 p.body

end Dialect
