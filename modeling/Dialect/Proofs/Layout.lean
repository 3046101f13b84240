import Dialect.Proofs.Outline
import Dialect.Proofs.Provenance

/-!
# Layouts

The layout of a program says which lines it is written as and in whose blocks they stand. It follows
the nesting of the program and knows no depths. Main statement: what is written for a program are the
lines of its layout, each at the depth at which it stands there.
-/

namespace Dialect

/-- How a line takes part in the blocks around it. -/
inductive RowKind where
  | simple
  | header
  /-- The header of a further branch. -/
  | alternate
  /-- Stands in a block that would be empty. -/
  | placeholder
  | closing
  deriving DecidableEq, Repr

/-- A line without the marks of its kind, and the names and source texts it is made of. -/
structure Row (g : Grammar) where
  kind : RowKind
  text : String
  parts : List String
  traced : Text.Traced (g.spellings ++ parts) text.toList

/-- The line with the marks of its kind. -/
def Row.line {g : Grammar} (row : Row g) : String :=
  match row.kind with
  | .simple => row.text ++ g.terminator
  | .header => row.text ++ g.blockOpening
  | .alternate => (if g.file.useBraces then "\x7d " else "") ++ row.text ++ g.blockOpening
  | .placeholder => row.text
  | .closing => row.text ++ "\x7d"

abbrev Layout (g : Grammar) := List (Outline (Row g))

namespace Layout

variable {g : Grammar}

def lines (depth : Nat) (layout : Layout g) : List Line :=
  (Outline.levelsOf depth layout).map fun l => ⟨l.1, l.2.line⟩

/-- Where blocks have no braces, an empty one gets the placeholder. -/
def filled (body : Layout g) : Layout g :=
  if body.isEmpty && !g.file.useBraces && !g.file.emptyBlock.isEmpty then
    [.mk ⟨.placeholder, g.file.emptyBlock, [], by simp [Grammar.spellings]⟩ []]
  else body

def closing : Layout g :=
  if g.file.useBraces then [.mk ⟨.closing, "", [], by simp⟩ []] else []

/-- A header with its block, and the closing on the level of the header. -/
def block (header : Row g) (body : Layout g) : Layout g :=
  .mk header (filled body) :: closing

@[simp]
theorem lines_nil (depth : Nat) : lines depth ([] : Layout g) = [] := rfl

@[simp]
theorem lines_append (depth : Nat) (a b : Layout g) :
    lines depth (a ++ b) = lines depth a ++ lines depth b := by
  simp [lines]

@[simp]
theorem lines_cons (depth : Nat) (e : Row g) (body rest : Layout g) :
    lines depth (.mk e body :: rest) =
      ⟨depth, e.line⟩ :: (lines (depth + 1) body ++ lines depth rest) := by
  simp [lines, Outline.levelsOf, Outline.levels]

theorem lines_flatMap {α : Type} (depth : Nat) (xs : List α) (f : α → Layout g) :
    lines depth (xs.flatMap f) = xs.flatMap fun x => lines depth (f x) := by
  induction xs with
  | nil => rfl
  | cons x xs ih => rw [List.flatMap_cons, lines_append, ih, List.flatMap_cons]

theorem isEmpty_lines (depth : Nat) (layout : Layout g) :
    (lines depth layout).isEmpty = layout.isEmpty := by
  cases layout with
  | nil => rfl
  | cons t ts =>
    cases t with
    | mk e body => simp

theorem lines_filled {depth : Nat} {emitted : Emission} {body : Layout g}
    (same : emitted.lines = lines depth body) :
    (Emission.filled g depth emitted).lines = lines depth (filled body) := by
  unfold Emission.filled filled
  rw [same, isEmpty_lines]
  split
  · next empty =>
    -- an emission without lines comes from an empty layout, so both sides get the placeholder
    have nothing : body = [] := by simp_all
    simp [same, nothing, Emission.line, Row.line]
  · exact same

theorem lines_closing (depth : Nat) :
    (Emission.closing g depth).lines = lines depth (closing (g := g)) := by
  unfold Emission.closing closing
  split <;> simp [Emission.line, Row.line]

/-- A header, lines one level below it, and the closing. -/
theorem lines_enclosed {depth : Nat} {text : String} {emitted : Emission} {header : Row g}
    {body : Layout g} (same : emitted.lines = lines (depth + 1) body)
    (opens : header.line = text ++ g.blockOpening) :
    (Emission.header g depth text ++ emitted ++ Emission.closing g depth).lines =
      lines depth (.mk header body :: closing) := by
  simp only [Emission.header, Emission.line, Emission.lines_append, same, lines_closing, lines_cons,
    opens, List.cons_append, List.nil_append]

theorem lines_block {depth : Nat} {text : String} {emitted : Emission} {header : Row g}
    {body : Layout g} (same : emitted.lines = lines (depth + 1) body)
    (opens : header.line = text ++ g.blockOpening) :
    (Emission.block g depth text emitted).lines = lines depth (block header body) :=
  lines_enclosed (lines_filled same) opens

end Layout

namespace Context

variable (c : Context)

/-- The layout of a simple statement. -/
def simpleLayout (text : String) (parts : List String)
    (traced : Text.Traced (c.grammar.spellings ++ parts) text.toList) : Layout c.grammar :=
  [.mk ⟨.simple, text, parts, traced⟩ []]

def keywordLayout (keyword : String) (spelled : keyword ∈ c.grammar.spellings) :
    Layout c.grammar :=
  c.simpleLayout keyword [] (by simp [spelled])

theorem traced_ownParams (name : String) (params : List Param) :
    Text.Traced (c.grammar.spellings ++ name :: c.paramsParts params)
      (c.paramsText false params).toList :=
  traced_paramsText (List.subset_append_left _ _) (by simp) false

def functionRow (name : String) (params : List Param) : Row c.grammar where
  kind := .header
  text := functionHeader (some c.grammar.functionKeyword) name (c.paramsText false params)
  parts := name :: c.paramsParts params
  traced := traced_functionHeader (by simp [Grammar.spellings]) (by simp)
    (c.traced_ownParams name params)

/-- The header of a function whose body is a value. -/
def valueFunctionRow (name : String) (params : List Param) : Row c.grammar where
  kind := .header
  text := c.grammar.functionKeyword ++ " " ++ name ++ "(" ++ c.paramsText false params ++ ")"
  parts := name :: c.paramsParts params
  traced := by
    have keyword : c.grammar.functionKeyword ∈ c.grammar.spellings := by simp [Grammar.spellings]
    simp [keyword, c.traced_ownParams name params, Text.isMark]

def methodRow (name : String) (hasKeyword : Bool) (params : List Param) : Row c.grammar where
  kind := .header
  text := c.methodHeader name hasKeyword params
  parts := name :: c.paramsParts params
  traced := traced_methodHeader (List.subset_append_left _ _) (List.subset_append_right _ _) _

def classRow (name : String) (superclass : Option Span) : Row c.grammar where
  kind := .header
  text := c.classHeader name superclass
  parts := name :: superclass.toList.map c.text
  traced := traced_classHeader (List.subset_append_left _ _) (List.subset_append_right _ _)

/-- A keyword and the test of a branch or loop. -/
def testRow (kind : RowKind) (keyword : String) (spelled : keyword ∈ c.grammar.spellings)
    (test : Expr) : Row c.grammar where
  kind := kind
  text := keyword ++ " " ++ c.condition test
  parts := [c.conditionPart test]
  traced := by
    have tested : Text.Traced (c.grammar.spellings ++ [c.conditionPart test])
        (c.condition test).toList := traced_condition (by simp)
    simp [spelled, tested, Text.isMark]

def elseRow : Row c.grammar where
  kind := .alternate
  text := c.grammar.control.elseKeyword
  parts := []
  traced := by simp [Grammar.spellings]

def countingRow? (init : Option Stmt) (test update : Option Expr) : Option (Row c.grammar) :=
  match counts : c.countingLoop? init test update with
  | some l =>
    some {
      kind := .header
      text := c.countingHeader l
      parts := c.loopParts init test update
      traced := traced_countingHeader (List.subset_append_left _ _) counts
        (List.subset_append_right _ _) }
  | none => none

def itemsRow (name items : String) : Row c.grammar where
  kind := .header
  text := c.grammar.control.forKeyword ++ " " ++ name ++ " " ++ c.grammar.control.inKeyword ++ " " ++
    items
  parts := [name, items]
  traced := by
    have first : c.grammar.control.forKeyword ∈ c.grammar.spellings := by simp [Grammar.spellings]
    have second : c.grammar.control.inKeyword ∈ c.grammar.spellings := by simp [Grammar.spellings]
    simp [first, second, Text.isMark]

def withRow (resource binding : Expr) : Row c.grammar where
  kind := .header
  text := c.withHeader (c.render resource).text binding
  parts := c.renderParts (.within resource.span) resource ++ c.bindingParts binding
  traced := traced_withHeader (List.subset_append_left _ _) (List.subset_append_right _ _)

def variableLayout (name : String) (init : Expr) : Layout c.grammar :=
  c.simpleLayout (c.variableText name (c.renderInitializer init).text)
    (name :: c.initializerParts init)
    (traced_variableText (List.subset_append_left _ _) (by simp)
      (traced_renderInitializer (List.subset_append_left _ _) (by simp)))

def undefinedLayout (name : String) : Layout c.grammar :=
  c.simpleLayout (c.variableText name "undefined") [name]
    (traced_variableText (List.subset_append_left _ _) (by simp) (by simp [Text.isMark]))

def valueLayout (e : Expr) : Layout c.grammar :=
  c.simpleLayout ("return " ++ (c.render e).text) (c.renderParts (.within e.span) e) (by
    have value := traced_render (List.subset_append_left c.grammar.spellings _)
      (List.subset_append_right _ (c.renderParts (.within e.span) e))
    simp [value, Text.isMark])

def callLayout (callee : Expr) (args : List Expr) (span : Span) : Layout c.grammar :=
  c.simpleLayout (c.renderCall callee args span).text (c.callParts callee args span)
    (traced_renderCall (List.subset_append_left _ _) (List.subset_append_right _ _))

/-- An assigned template is rendered, anything else is copied without its `new`. -/
def assignLayout (left : Expr) (op : String) (right : Expr) (span : Span) : Layout c.grammar :=
  if isTemplate right then
    c.simpleLayout (c.text left.span ++ " " ++ op ++ " " ++ (c.render right).text)
      (c.text left.span :: op :: c.renderParts (.within right.span) right) (by
        have value : Text.Traced
            (c.grammar.spellings ++
              c.text left.span :: op :: c.renderParts (.within right.span) right)
            (c.render right).text.toList :=
          traced_render (List.subset_append_left _ _) (fun _ member => by simp [member])
        simp [value, Text.isMark])
  else
    c.simpleLayout (c.withoutNew (.assign left op right span))
      [c.withoutNew (.assign left op right span)] (by simp)

def updateLayout (argument : Expr) (op : String) : Layout c.grammar :=
  c.simpleLayout (c.text argument.span ++ op) [c.text argument.span, op] (by simp)

def importLayout (specifiers : List ImportSpecifier) (source : String) : Layout c.grammar :=
  if Support.isModule c.grammar source then []
  else
    (Import.linesOf (Import.modulePath c.grammar source) specifiers).attach.flatMap fun l =>
      c.simpleLayout l.1 (source :: specifiers.flatMap ImportSpecifier.names)
        (Import.traced_linesOf
          (Import.traced_modulePath (by simp [Grammar.spellings]) (by simp)) (by simp) l.1 l.2)

mutual

def layout : Stmt → Layout c.grammar
  | .block body _ => layouts body
  | .function name params body _ => .block (c.functionRow name params) (layouts body)
  | .returnStmt span => c.simpleLayout (c.returnText span) [c.returnText span] (by simp)
  | .expr value _ => exprLayout value
  | .variableDecl _ declarators _ => declaredLayout declarators
  | .classDecl name superclass members _ =>
    .block (c.classRow name superclass) (initializerLayout members ++ methodsLayout members)
  | .importDecl specifiers source _ => c.importLayout specifiers source
  | .ifElse test consequent alternate _ =>
    .mk (c.testRow .header c.grammar.control.ifKeyword (by simp [Grammar.spellings]) test)
      (Layout.filled (layout consequent)) :: alternateLayout alternate
  | .forLoop init test update body _ =>
    match c.countingRow? init test update with
    | some e => .block e (layout body)
    | none => []
  | .forIn left right body _ _ =>
    match left, right.identName? with
    | some name, some items => .block (c.itemsRow name items) (layout body)
    | _, _ => []
  | .whileLoop test body _ =>
    .block (c.testRow .header c.grammar.control.whileKeyword (by simp [Grammar.spellings]) test)
      (layout body)
  | .breakStmt _ => c.keywordLayout c.grammar.control.breakKeyword (by simp [Grammar.spellings])
  | .continueStmt _ =>
    c.keywordLayout c.grammar.control.continueKeyword (by simp [Grammar.spellings])
  | .erased _ | .unsupported _ _ => []

def layouts : List Stmt → Layout c.grammar
  | [] => []
  | s :: ss => layout s ++ layouts ss

def alternateLayout : Option Stmt → Layout c.grammar
  | none => .closing
  | some (.ifElse test consequent alternate _) =>
    .mk
        (c.testRow .alternate c.grammar.control.elseIfKeyword (by simp [Grammar.spellings]) test)
        (Layout.filled (layout consequent)) ::
      alternateLayout alternate
  | some s => .block c.elseRow (layout s)

def declaredLayout : List Declarator → Layout c.grammar
  | .mk (some name) init _ :: _ => initializedLayout name init
  | _ => []

def initializedLayout (name : String) : Option Expr → Layout c.grammar
  | none => c.undefinedLayout name
  | some init => (literalLayout? name init).getD (c.variableLayout name init)

def literalLayout? (name : String) : Expr → Option (Layout c.grammar)
  | .paren inner _ => literalLayout? name inner
  | .function params (.block body) _ => some (.block (c.functionRow name params) (layouts body))
  | .function params (.value e) _ =>
    some (.mk (c.valueFunctionRow name params) (c.valueLayout e) :: Layout.closing)
  | _ => none

def initializerLayout : List Member → Layout c.grammar
  | [] => []
  | .initializer _ params body _ :: _ =>
    let syn := c.grammar.classes
    .block (c.methodRow syn.constructorName syn.constructorKeyword params) (layouts body)
  | _ :: ms => initializerLayout ms

def methodsLayout : List Member → Layout c.grammar
  | [] => []
  | .method name params body _ :: ms =>
    .block (c.methodRow name c.grammar.classes.methodKeyword params) (layouts body) ++
      methodsLayout ms
  | _ :: ms => methodsLayout ms

def exprLayout : Expr → Layout c.grammar
  | .call callee args place =>
    if Support.formOf c.grammar callee = some .scopedResource then resourceLayout args
    else c.callLayout callee args place
  | .assign left op right place => c.assignLayout left op right place
  | .update argument op _ => c.updateLayout argument op
  | .sequence items _ => exprLayouts items
  | .paren inner _ => exprLayout inner
  | _ => []

def exprLayouts : List Expr → Layout c.grammar
  | [] => []
  | e :: es => exprLayout e ++ exprLayouts es

def resourceLayout : List Expr → Layout c.grammar
  | resource :: binding :: body :: _ =>
    (resourceBodyLayout? (c.withRow resource binding) body).getD []
  | _ => []

def resourceBodyLayout? (header : Row c.grammar) : Expr → Option (Layout c.grammar)
  | .paren inner _ => resourceBodyLayout? header inner
  | .function _ (.block body) _ => some (.block header (layouts body))
  | .function _ (.value e) _ => some (.mk header (exprLayout e) :: Layout.closing)
  | _ => none

end

variable {c}

theorem lines_simple {depth : Nat} {text : String} {parts : List String}
    {traced : Text.Traced (c.grammar.spellings ++ parts) text.toList} :
    (c.simple depth text).lines = Layout.lines depth (c.simpleLayout text parts traced) := by
  simp [simple, Emission.line, simpleLayout, Row.line]

theorem lines_import (depth : Nat) (specifiers : List ImportSpecifier) (source : String) :
    (Import.emission c.grammar depth specifiers source).lines =
      Layout.lines depth (c.importLayout specifiers source) := by
  unfold Import.emission importLayout
  split
  · rfl
  · simp [Layout.lines_flatMap, simpleLayout, Row.line, List.map_eq_flatMap]

/-- Both speak of the loops that count, with the same header. -/
theorem line_countingRow? (init : Option Stmt) (test update : Option Expr) :
    (c.countingRow? init test update).map Row.line =
      (c.countingLoop? init test update).map (c.countingHeader · ++ c.grammar.blockOpening) := by
  unfold countingRow?
  split
  · next l counts => simp [counts, Row.line]
  · next counts => simp [counts]

mutual

theorem lines_stmt (depth : Nat) (s : Stmt) :
    (c.stmt depth s).lines = Layout.lines depth (c.layout s) := by
  match s with
  | .block body _ =>
    rw [stmt, layout]
    exact lines_stmts depth body
  | .function name params body _ =>
    rw [stmt, layout]
    exact Layout.lines_block (lines_stmts (depth + 1) body) rfl
  | .returnStmt span =>
    rw [stmt, layout]
    exact lines_simple
  | .expr value span =>
    rw [stmt, layout]
    exact lines_exprStmt depth span value
  | .variableDecl _ declarators span =>
    rw [stmt, layout]
    exact lines_declared depth span declarators
  | .classDecl name superclass members _ =>
    rw [stmt, layout]
    refine Layout.lines_block ?_ rfl
    rw [Emission.lines_append, lines_initializer (depth + 1) members,
      lines_methods (depth + 1) members, Layout.lines_append]
  | .importDecl specifiers source _ =>
    rw [stmt, layout]
    exact lines_import depth specifiers source
  | .ifElse test consequent alternate _ =>
    rw [stmt, layout, Emission.lines_append, Emission.lines_append,
      Layout.lines_filled (lines_stmt (depth + 1) consequent), lines_otherwise depth alternate,
      Layout.lines_cons]
    rfl
  | .forLoop init test update body span =>
    have headers := c.line_countingRow? init test update
    simp only [stmt, layout]
    cases counts : c.countingLoop? init test update with
    | none =>
      rw [counts, Option.map_none, Option.map_eq_none_iff] at headers
      rw [headers]
      rfl
    | some l =>
      rw [counts, Option.map_some, Option.map_eq_some_iff] at headers
      obtain ⟨e, found, opens⟩ := headers
      rw [found]
      exact Layout.lines_block (lines_stmt (depth + 1) body) opens
  | .forIn left right body _ span =>
    simp only [stmt, layout]
    cases left with
    | none => rfl
    | some name =>
      cases right.identName? with
      | none => rfl
      | some items => exact Layout.lines_block (lines_stmt (depth + 1) body) rfl
  | .whileLoop test body _ =>
    rw [stmt, layout]
    exact Layout.lines_block (lines_stmt (depth + 1) body) rfl
  | .breakStmt _ | .continueStmt _ =>
    rw [stmt, layout]
    exact lines_simple
  | .erased _ | .unsupported _ _ =>
    rw [stmt, layout]
    rfl

theorem lines_stmts (depth : Nat) (body : List Stmt) :
    (c.stmts depth body).lines = Layout.lines depth (c.layouts body) := by
  match body with
  | [] => rfl
  | s :: ss =>
    rw [stmts, layouts, Emission.lines_append, lines_stmt depth s, lines_stmts depth ss,
      Layout.lines_append]

theorem lines_otherwise (depth : Nat) (alternate : Option Stmt) :
    (c.otherwise depth alternate).lines = Layout.lines depth (c.alternateLayout alternate) := by
  match alternate with
  | none => exact Layout.lines_closing depth
  | some (.ifElse test consequent alternate _) =>
    rw [otherwise, alternateLayout, Emission.lines_append, Emission.lines_append,
      Layout.lines_filled (lines_stmt (depth + 1) consequent), lines_otherwise depth alternate,
      Layout.lines_cons]
    simp [Emission.header, Emission.line, alternateLead, Row.line, testRow, String.append_assoc]
  | some (.block ..) | some (.function ..) | some (.returnStmt ..) | some (.expr ..)
  | some (.variableDecl ..) | some (.classDecl ..) | some (.importDecl ..) | some (.forLoop ..)
  | some (.forIn ..) | some (.whileLoop ..) | some (.breakStmt ..) | some (.continueStmt ..)
  | some (.erased ..) | some (.unsupported ..) =>
    -- only another `if` continues the chain, any other statement is the block of `else`
    rw [otherwise, alternateLayout]
    · exact Layout.lines_block (lines_stmt (depth + 1) _) rfl
    · nofun
    · nofun

theorem lines_declared (depth : Nat) (span : Span) (declarators : List Declarator) :
    (c.declared depth span declarators).lines =
      Layout.lines depth (c.declaredLayout declarators) := by
  match declarators with
  | [] | .mk none _ _ :: _ => rfl
  | .mk (some name) init _ :: _ =>
    rw [declared, declaredLayout, Emission.lines_append, lines_initialized depth name init]
    rfl

theorem lines_initialized (depth : Nat) (name : String) (init : Option Expr) :
    (c.initialized depth name init).lines =
      Layout.lines depth (c.initializedLayout name init) := by
  match init with
  | none => exact lines_simple
  | some init =>
    have emitted : (c.initialized depth name (some init)).lines =
        ((c.functionLiteral depth name init).map (·.lines)).getD
          (Layout.lines depth (c.variableLayout name init)) := by
      rw [initialized]
      cases c.functionLiteral depth name init with
      | none => exact lines_simple
      | some e => rfl
    rw [emitted, lines_functionLiteral depth name init, Option.getD_map, initializedLayout]

theorem lines_functionLiteral (depth : Nat) (name : String) (e : Expr) :
    (c.functionLiteral depth name e).map (·.lines) =
      (c.literalLayout? name e).map (Layout.lines depth) := by
  match e with
  | .paren inner _ =>
    rw [functionLiteral, literalLayout?]
    exact lines_functionLiteral depth name inner
  | .function params (.block body) _ =>
    rw [functionLiteral, literalLayout?]
    exact congrArg some (Layout.lines_block (lines_stmts (depth + 1) body) rfl)
  | .function params (.value e) _ =>
    rw [functionLiteral, literalLayout?]
    exact congrArg some (Layout.lines_enclosed lines_simple rfl)
  | .ident .. | .literal .. | .template .. | .call .. | .construct .. | .assign .. | .update ..
  | .binary .. | .unary .. | .sequence .. | .member .. | .array .. | .object .. | .other .. => rfl

theorem lines_initializer (depth : Nat) (members : List Member) :
    (c.initializer depth members).lines = Layout.lines depth (c.initializerLayout members) := by
  match members with
  | [] => rfl
  | .initializer _ params body _ :: _ =>
    exact Layout.lines_block (lines_stmts (depth + 1) body) rfl
  | .method .. :: ms | .field .. :: ms =>
    exact lines_initializer depth ms

theorem lines_methods (depth : Nat) (members : List Member) :
    (c.methods depth members).lines = Layout.lines depth (c.methodsLayout members) := by
  match members with
  | [] => rfl
  | .method name params body _ :: ms =>
    have block : (Emission.block c.grammar depth
          (c.methodHeader name c.grammar.classes.methodKeyword params)
          (c.stmts (depth + 1) body)).lines =
        Layout.lines depth (.block (c.methodRow name c.grammar.classes.methodKeyword params)
          (c.layouts body)) :=
      Layout.lines_block (lines_stmts (depth + 1) body) rfl
    rw [methods, methodsLayout, Emission.lines_append, Layout.lines_append, lines_methods depth ms,
      block]
  | .field .. :: ms => exact lines_methods depth ms
  | .initializer .. :: ms => exact lines_methods depth ms

theorem lines_exprStmt (depth : Nat) (span : Span) (e : Expr) :
    (c.exprStmt depth span e).lines = Layout.lines depth (c.exprLayout e) := by
  match e with
  | .call callee args place =>
    rw [exprStmt, exprLayout]
    split
    · exact lines_resourceBlock depth place args
    · exact lines_simple
  | .assign left op right place =>
    rw [exprStmt, exprLayout, assignLayout]
    split <;> exact lines_simple
  | .update argument op _ => exact lines_simple
  | .sequence items _ =>
    rw [exprStmt, exprLayout]
    exact lines_exprStmts depth items
  | .paren inner _ =>
    rw [exprStmt, exprLayout]
    exact lines_exprStmt depth span inner
  | .ident .. | .literal .. | .template .. | .construct .. | .binary .. | .unary .. | .member ..
  | .function .. | .array .. | .object .. | .other .. => rfl

theorem lines_exprStmts (depth : Nat) (es : List Expr) :
    (c.exprStmts depth es).lines = Layout.lines depth (c.exprLayouts es) := by
  match es with
  | [] => rfl
  | e :: es =>
    rw [exprStmts, exprLayouts, Emission.lines_append, lines_exprStmt depth e.span e,
      lines_exprStmts depth es, Layout.lines_append]

theorem lines_resourceBlock (depth : Nat) (span : Span) (args : List Expr) :
    (c.resourceBlock depth span args).lines = Layout.lines depth (c.resourceLayout args) := by
  match args with
  | resource :: binding :: body :: rest =>
    have emitted : (c.resourceBlock depth span (resource :: binding :: body :: rest)).lines =
        ((c.resourceBody depth (c.withRow resource binding).text body).map (·.lines)).getD
          (Layout.lines depth ([] : Layout c.grammar)) := by
      simp only [resourceBlock, withRow]
      cases c.resourceBody depth (c.withHeader (c.render resource).text binding) body <;> rfl
    rw [emitted, lines_resourceBody depth _ rfl body, Option.getD_map, resourceLayout]
  | [] | [_] | [_, _] => rfl

theorem lines_resourceBody (depth : Nat) (header : Row c.grammar)
    (opens : header.line = header.text ++ c.grammar.blockOpening) (e : Expr) :
    (c.resourceBody depth header.text e).map (·.lines) =
      (c.resourceBodyLayout? header e).map (Layout.lines depth) := by
  match e with
  | .paren inner _ =>
    rw [resourceBody, resourceBodyLayout?]
    exact lines_resourceBody depth header opens inner
  | .function _ (.block body) _ =>
    rw [resourceBody, resourceBodyLayout?]
    exact congrArg some (Layout.lines_block (lines_stmts (depth + 1) body) opens)
  | .function _ (.value e) _ =>
    rw [resourceBody, resourceBodyLayout?]
    exact congrArg some (Layout.lines_enclosed (lines_exprStmt (depth + 1) e.span e) opens)
  | .ident .. | .literal .. | .template .. | .call .. | .construct .. | .assign .. | .update ..
  | .binary .. | .unary .. | .sequence .. | .member .. | .array .. | .object .. | .other .. => rfl

end

end Context

end Dialect
