import Dialect.Diagnostic
import Dialect.Emission.Construction
import Dialect.Quotation
import Dialect.Support
import Dialect.Template

/-!
# Rendering expressions

The text of an expression is copied from the source. Templates, named arguments, and what contains
them as an argument or element, are written anew.
-/

namespace Dialect

structure Rendering where
  text : String
  diagnostics : List Diagnostic := []
  deriving DecidableEq, Repr

def Rendering.commaSeparated (rs : List Rendering) : Rendering :=
  ⟨", ".intercalate (rs.map (·.text)), rs.flatMap (·.diagnostics)⟩

/-- What an expression is written with: the target dialect and the source its spans refer to. -/
structure Context where
  grammar : Grammar
  source : List Char

namespace Context

variable (c : Context)

def text (s : Span) : String :=
  s.text c.source

/-- A name given as a string literal or as an identifier. -/
def bindingName (e : Expr) : String :=
  let raw := c.text e.span
  match e.unparen with
  | .literal .string _ => (Quotation.content raw).getD raw
  | .ident name _ => name
  | _ => raw

def isNamedArgument (callee : Expr) : Bool :=
  Support.formOf c.grammar callee = some .namedArgument

mutual

/-- The expression is not written as it stands in the source. -/
def needsRendering : Expr → Bool
  | .paren inner _ => needsRendering inner
  | .template _ => true
  | .call callee args _ => c.isNamedArgument callee || anyRendering args
  | .sequence items _ => anyRendering items
  | _ => false

def anyRendering : List Expr → Bool
  | [] => false
  | e :: es => needsRendering e || anyRendering es

end

/-- Where a rendered expression stands. -/
inductive Placement where
  /-- Inside its parentheses, which cover a span of the source. -/
  | within (whole : Span)
  /-- As the value of a named argument, without its parentheses. -/
  | value

/-- The text of an expression as it stands in the source. -/
def Placement.copy (p : Placement) (e : Expr) : Rendering :=
  match p with
  | .within whole => ⟨c.text whole, []⟩
  | .value => ⟨c.text e.span, []⟩

mutual

def renderAt (p : Placement) : Expr → Rendering
  | .paren inner _ => renderAt p inner
  | .template span => ⟨Template.convert c.grammar.template (c.text span), []⟩
  | .call callee args span =>
    if c.isNamedArgument callee then renderNamed span args
    else if c.anyRendering args then
      let list := Rendering.commaSeparated (renderAll args)
      ⟨c.text callee.span ++ "(" ++ list.text ++ ")", list.diagnostics⟩
    else ⟨c.text span, []⟩
  | .sequence items span =>
    if c.anyRendering items then .commaSeparated (renderAll items)
    else p.copy c (.sequence items span)
  | .literal .string span =>
    match p with
    | .value => ⟨Quotation.requote c.grammar.file.stringQuote (c.text span), []⟩
    | .within whole => ⟨c.text whole, []⟩
  | e => p.copy c e

def renderAll : List Expr → List Rendering
  | [] => []
  | e :: es => renderAt (.within e.span) e :: renderAll es

/-- A name and a value. With other arguments the call is copied. -/
def renderNamed (span : Span) : List Expr → Rendering
  | [name, value] =>
    let rendered := renderAt .value value
    ⟨c.bindingName name ++ "=" ++ rendered.text, rendered.diagnostics⟩
  | args =>
    ⟨c.text span,
      [.missing ("named expects 2 arguments, found " ++ toString args.length) span]⟩

end

def render (e : Expr) : Rendering :=
  c.renderAt (.within e.span) e

/-- A call is copied unless one of its arguments has to be rendered. -/
def renderCall (callee : Expr) (args : List Expr) (span : Span) : Rendering :=
  if c.anyRendering args then
    let list := Rendering.commaSeparated (c.renderAll args)
    ⟨c.text callee.span ++ "(" ++ list.text ++ ")", list.diagnostics⟩
  else ⟨c.text span, []⟩

/-- The text of an expression without `new`, unless the target dialect keeps it. -/
def withoutNew (e : Expr) : String :=
  if c.grammar.classes.keepsNew then c.text e.span
  else Construction.withoutKeywords c.source e

/-- A construction with its arguments rendered. -/
def renderConstruction (callee : Expr) (args : List Expr) : Rendering :=
  let list := Rendering.commaSeparated (c.renderAll args)
  let keyword := if c.grammar.classes.keepsNew then "new " else ""
  ⟨keyword ++ c.text callee.span ++ "(" ++ list.text ++ ")", list.diagnostics⟩

def endsWithParen (s : Span) : Bool :=
  (s.chars c.source).getLast? = some ')'

/-- The value of a declared variable. -/
def renderInitializer (e : Expr) : Rendering :=
  match e with
  | .literal _ span => ⟨c.text span, []⟩
  | .construct callee args span =>
    if c.endsWithParen span && !c.anyRendering args then ⟨c.withoutNew e, []⟩
    else c.renderConstruction callee args
  | .unary op argument span =>
    if op = "-" then
      match argument.unparen with
      | .literal _ literal => ⟨"-" ++ c.text literal, []⟩
      | _ => ⟨c.text span, []⟩
    else c.render e
  | _ => c.render e

/-- The test of a branch or loop without its parentheses; they return where blocks have braces. -/
def condition (test : Expr) : String :=
  let raw := match test with
    | .paren inner _ => c.text inner.span
    | e => c.text e.span
  if c.grammar.file.useBraces then "(" ++ raw ++ ")" else raw

def paramText (p : Param) : String :=
  match p.value with
  | some s => p.name ++ "=" ++ c.text s
  | none => p.name

/-- A parameter list, with the receiver first if there is one. -/
def paramsText (receives : Bool) (params : List Param) : String :=
  let name := c.grammar.classes.receiverName
  let receiver := if receives && !name.isEmpty then [name] else []
  ", ".intercalate (receiver ++ params.map c.paramText)

end Context

end Dialect
