import Dialect.Emission.Statement
import Dialect.Proofs.Alignment

/-!
# Emissions do not depend on positions

A program over one source and the moved program over an aligned source are written alike, and the
diagnostics move with the program. Both halves of a program over two joined sources are instances: the
first is moved by nothing and must end where its source does, the second is moved by the length of the
first source.
-/

namespace Dialect

namespace Context.Aligned

variable {n : Nat} {reach : Nat → Prop} {c d : Context}

theorem loopStart? (aligned : Aligned n reach c d) {init : Option Stmt}
    (within : ∀ s ∈ Stmt.optionSpans init, reach s.stop) :
    d.loopStart? (Stmt.shiftOption n init) = c.loopStart? init := by
  match init with
  | some (.variableDecl _ [.mk (some name) (some value) place] s) =>
    have inValue : ∀ t ∈ value.spans, reach t.stop := fun t member =>
      within t (by simp [Stmt.optionSpans, Stmt.spans, Declarator.allSpans, Declarator.spans,
        Expr.optionSpans, member])
    simp only [Stmt.shiftOption, Stmt.shift, Declarator.shiftAll, Declarator.shift,
      Expr.shiftOption, Context.loopStart?, Expr.span_shift, aligned.exprText inValue]
  | some (.variableDecl _ [] _) | some (.variableDecl _ [.mk none none _] _)
  | some (.variableDecl _ [.mk none (some _) _] _)
  | some (.variableDecl _ [.mk (some _) none _] _) => rfl
  | some (.variableDecl _ (_ :: _ :: _) _) =>
    simp [Stmt.shiftOption, Stmt.shift, Declarator.shiftAll, Context.loopStart?]
  | none | some (.block ..) | some (.function ..) | some (.returnStmt ..) | some (.expr ..)
  | some (.classDecl ..) | some (.importDecl ..) | some (.ifElse ..) | some (.forLoop ..)
  | some (.forIn ..) | some (.whileLoop ..) | some (.breakStmt ..) | some (.continueStmt ..)
  | some (.erased ..) | some (.unsupported ..) => rfl

theorem loopStop? (aligned : Aligned n reach c d) (name : String) {test : Option Expr}
    (within : ∀ s ∈ Expr.optionSpans test, reach s.stop) :
    d.loopStop? name (Expr.shiftOption n test) = c.loopStop? name test := by
  cases test with
  | none => rfl
  | some e =>
    have inside : ∀ s ∈ e.unparen.spans, reach s.stop := fun s member =>
      within s (e.unparen_spans_subset member)
    simp only [Expr.shiftOption, Context.loopStop?, Option.map_some, Expr.unparen_shift]
    cases shape : e.unparen with
    | binary left op right s =>
      have bound := aligned.exprText (e := right) (fun t member =>
        inside t (by simp [shape, Expr.spans, member]))
      simp only [Expr.shift, Expr.identName?_shift, Expr.span_shift, bound]
    | _ => rfl

theorem loopStep? (aligned : Aligned n reach c d) (name : String) {update : Option Expr}
    (within : ∀ s ∈ Expr.optionSpans update, reach s.stop) :
    d.loopStep? name (Expr.shiftOption n update) = c.loopStep? name update := by
  cases update with
  | none => rfl
  | some e =>
    have inside : ∀ s ∈ e.unparen.spans, reach s.stop := fun s member =>
      within s (e.unparen_spans_subset member)
    simp only [Expr.shiftOption, Context.loopStep?, Option.map_some, Expr.unparen_shift]
    cases shape : e.unparen with
    | update argument op s => simp only [Expr.shift, Expr.identName?_shift]
    | assign left op right s =>
      have amount := aligned.exprText (e := right) (fun t member =>
        inside t (by simp [shape, Expr.spans, member]))
      simp only [Expr.shift, Expr.identName?_shift, Expr.span_shift, amount]
    | _ => rfl

theorem countingLoop? (aligned : Aligned n reach c d) {init : Option Stmt}
    {test update : Option Expr} (inInit : ∀ s ∈ Stmt.optionSpans init, reach s.stop)
    (inTest : ∀ s ∈ Expr.optionSpans test, reach s.stop)
    (inUpdate : ∀ s ∈ Expr.optionSpans update, reach s.stop) :
    d.countingLoop? (Stmt.shiftOption n init) (Expr.shiftOption n test) (Expr.shiftOption n update) =
      c.countingLoop? init test update := by
  simp only [Context.countingLoop?, aligned.loopStart? inInit, aligned.loopStop? _ inTest,
    aligned.loopStep? _ inUpdate]

end Context.Aligned

namespace Emission

def shift (n : Nat) (e : Emission) : Emission :=
  ⟨e.lines, e.diagnostics.map (·.shift n)⟩

variable (n : Nat)

@[simp]
theorem shift_line (depth : Nat) (text : String) : (line depth text).shift n = line depth text := rfl

@[simp]
theorem shift_report (d : Diagnostic) : (report d).shift n = report (d.shift n) := rfl

@[simp]
theorem shift_reports (ds : List Diagnostic) :
    (reports ds).shift n = reports (ds.map (·.shift n)) := rfl

@[simp]
theorem shift_append (a b : Emission) : (a ++ b).shift n = a.shift n ++ b.shift n := by
  simp only [shift, lines_append, diagnostics_append, List.map_append]
  rfl

@[simp]
theorem shift_filled (g : Grammar) (depth : Nat) (body : Emission) :
    (filled g depth body).shift n = filled g depth (body.shift n) := by
  have lines : (body.shift n).lines = body.lines := rfl
  simp only [filled, lines]
  split
  · rw [shift_append, shift_line]
  · rfl

@[simp]
theorem shift_closing (g : Grammar) (depth : Nat) : (closing g depth).shift n = closing g depth := by
  unfold closing
  split <;> rfl

@[simp]
theorem shift_header (g : Grammar) (depth : Nat) (text : String) :
    (header g depth text).shift n = header g depth text := rfl

theorem shift_zero (e : Emission) : e.shift 0 = e := by
  cases e with
  | mk lines diagnostics =>
    have unmoved : diagnostics.map (·.shift 0) = diagnostics := by
      refine (List.map_congr_left fun d _ => ?_).trans (List.map_id _)
      rw [Diagnostic.shift, Option.map_congr fun s _ => s.shift_zero, Option.map_id']
      rfl
    rw [shift, unmoved]

theorem append_assoc (a b c : Emission) : a ++ b ++ c = a ++ (b ++ c) := by
  have lines := List.append_assoc a.lines b.lines c.lines
  have diagnostics := List.append_assoc a.diagnostics b.diagnostics c.diagnostics
  exact Emission.mk.injEq .. ▸ ⟨lines, diagnostics⟩

@[simp]
theorem shift_block (g : Grammar) (depth : Nat) (text : String) (body : Emission) :
    (block g depth text body).shift n = block g depth text (body.shift n) := by
  simp only [block, shift_append, shift_header, shift_filled, shift_closing]

end Emission

namespace Context.Aligned

variable {n : Nat} {reach : Nat → Prop} {c d : Context}

theorem simpleRendered (aligned : Aligned n reach c d) (depth : Nat) (r : Rendering)
    (text : String) :
    d.simpleRendered depth (r.shift n) text = (c.simpleRendered depth r text).shift n := by
  simp [Context.simpleRendered, Context.simple, aligned.grammar]

theorem methodHeader (aligned : Aligned n reach c d) (name : String) (hasKeyword : Bool)
    {params : List Param} (within : ∀ s ∈ params.flatMap Param.spans, reach s.stop) :
    d.methodHeader name hasKeyword (params.map (Param.shift n)) =
      c.methodHeader name hasKeyword params := by
  simp only [Context.methodHeader, aligned.grammar, aligned.paramsText _ within]

theorem classHeader (aligned : Aligned n reach c d) (name : String) {superclass : Option Span}
    (within : ∀ s ∈ superclass.toList, reach s.stop) :
    d.classHeader name (superclass.map (·.shift n)) = c.classHeader name superclass := by
  cases superclass with
  | none => simp only [Context.classHeader, aligned.grammar, Option.map_none]
  | some s =>
    simp only [Context.classHeader, aligned.grammar, Option.map_some,
      aligned.text (within s (by simp))]

theorem returnText (aligned : Aligned n reach c d) {s : Span} (within : reach s.stop) :
    d.returnText (s.shift n) = c.returnText s := by
  simp only [Context.returnText, aligned.chars s within]

theorem variableText (aligned : Aligned n reach c d) (name value : String) :
    d.variableText name value = c.variableText name value := by
  simp only [Context.variableText, aligned.grammar]

theorem withHeader (aligned : Aligned n reach c d) (resource : String) {binding : Expr}
    (within : ∀ s ∈ binding.spans, reach s.stop) :
    d.withHeader resource (binding.shift n) = c.withHeader resource binding := by
  simp only [Context.withHeader, aligned.grammar, aligned.bindingName within]

theorem extraDeclarators (ds : List Declarator) :
    (Declarator.shiftAll n ds).map extraDeclarator =
      (ds.map extraDeclarator).map (·.shift n) := by
  induction ds with
  | nil => rfl
  | cons declarator ds ih =>
    cases declarator with
    | mk name init place =>
      rw [Declarator.shiftAll, List.map_cons, ih]
      rfl

end Context.Aligned

theorem Context.isTemplate_shift (n : Nat) (e : Expr) :
    Context.isTemplate (e.shift n) = Context.isTemplate e := by
  rw [Context.isTemplate, Expr.unparen_shift, Context.isTemplate]
  cases e.unparen <;> rfl

namespace Context.Aligned

variable {n : Nat} {reach : Nat → Prop} {c d : Context}

mutual

/-- Moving a statement moves its diagnostics and nothing else. -/
theorem stmt (aligned : Aligned n reach c d) (depth : Nat) (s : Stmt)
    (within : ∀ t ∈ s.spans, reach t.stop) :
    d.stmt depth (s.shift n) = (c.stmt depth s).shift n := by
  match s with
  | .block body _ =>
    simp only [Stmt.spans, List.forall_mem_cons] at within
    simp only [Stmt.shift, Context.stmt]
    exact stmts aligned depth body within.2
  | .function name params body _ =>
    simp only [Stmt.spans, List.cons_append, List.forall_mem_cons, List.forall_mem_append] at within
    obtain ⟨-, inParams, inBody⟩ := within
    simp only [Stmt.shift, Context.stmt, aligned.grammar, aligned.paramsText _ inParams,
      Emission.shift_block, stmts aligned (depth + 1) body inBody]
  | .returnStmt place =>
    simp only [Stmt.spans, List.forall_mem_cons] at within
    simp [Stmt.shift, Context.stmt, Context.simple, aligned.grammar, aligned.returnText within.1]
  | .expr value place =>
    simp only [Stmt.spans, List.forall_mem_cons] at within
    simp only [Stmt.shift, Context.stmt]
    exact exprStmt aligned depth place value within.2
  | .variableDecl _ declarators place =>
    simp only [Stmt.spans, List.forall_mem_cons] at within
    simp only [Stmt.shift, Context.stmt]
    exact declared aligned depth place declarators within.2
  | .classDecl name superclass members _ =>
    simp only [Stmt.spans, List.cons_append, List.forall_mem_cons, List.forall_mem_append] at within
    obtain ⟨-, inSuperclass, inMembers⟩ := within
    simp only [Stmt.shift, Context.stmt, aligned.grammar, aligned.classHeader name inSuperclass,
      Emission.shift_block, Emission.shift_append, initializer aligned (depth + 1) members inMembers,
      methods aligned (depth + 1) members inMembers]
  | .importDecl specifiers source _ =>
    simp only [Stmt.shift, Context.stmt, aligned.grammar, Import.emission]
    split <;> rfl
  | .ifElse test consequent alternate _ =>
    simp only [Stmt.spans, List.cons_append, List.forall_mem_cons, List.forall_mem_append] at within
    obtain ⟨-, ⟨inTest, inConsequent⟩, inAlternate⟩ := within
    simp only [Stmt.shift, Context.stmt, aligned.grammar, aligned.condition inTest,
      Emission.shift_append, Emission.shift_header, Emission.shift_filled,
      stmt aligned (depth + 1) consequent inConsequent, otherwise aligned depth alternate inAlternate]
  | .forLoop init test update body place =>
    simp only [Stmt.spans, List.cons_append, List.forall_mem_cons, List.forall_mem_append] at within
    obtain ⟨-, ⟨⟨inInit, inTest⟩, inUpdate⟩, inBody⟩ := within
    simp only [Stmt.shift, Context.stmt, aligned.countingLoop? inInit inTest inUpdate,
      stmt aligned (depth + 1) body inBody]
    cases c.countingLoop? init test update with
    | none => rfl
    | some l => simp only [Context.countingHeader, aligned.grammar, Emission.shift_block]
  | .forIn left right body _ place =>
    simp only [Stmt.spans, List.cons_append, List.forall_mem_cons, List.forall_mem_append] at within
    obtain ⟨-, -, inBody⟩ := within
    simp only [Stmt.shift, Context.stmt, aligned.grammar, Expr.identName?_shift, Expr.span_shift,
      stmt aligned (depth + 1) body inBody]
    cases left with
    | none => rfl
    | some name =>
      cases right.identName? with
      | none => rfl
      | some items => simp only [Emission.shift_block]
  | .whileLoop test body _ =>
    simp only [Stmt.spans, List.cons_append, List.forall_mem_cons, List.forall_mem_append] at within
    obtain ⟨-, inTest, inBody⟩ := within
    simp only [Stmt.shift, Context.stmt, aligned.grammar, aligned.condition inTest,
      Emission.shift_block, stmt aligned (depth + 1) body inBody]
  | .breakStmt _ | .continueStmt _ =>
    simp only [Stmt.shift, Context.stmt, Context.simple, aligned.grammar, Emission.shift_line]
  | .erased _ => rfl
  | .unsupported kind place =>
    simp only [Stmt.shift, Context.stmt, Emission.shift_report]
    split <;> rfl

theorem stmts (aligned : Aligned n reach c d) (depth : Nat) (body : List Stmt)
    (within : ∀ t ∈ Stmt.allSpans body, reach t.stop) :
    d.stmts depth (Stmt.shiftAll n body) = (c.stmts depth body).shift n := by
  match body with
  | [] => rfl
  | s :: ss =>
    simp only [Stmt.allSpans, List.forall_mem_append] at within
    simp only [Stmt.shiftAll, Context.stmts, Emission.shift_append, stmt aligned depth s within.1,
      stmts aligned depth ss within.2]

theorem otherwise (aligned : Aligned n reach c d) (depth : Nat) (alternate : Option Stmt)
    (within : ∀ t ∈ Stmt.optionSpans alternate, reach t.stop) :
    d.otherwise depth (Stmt.shiftOption n alternate) = (c.otherwise depth alternate).shift n := by
  match alternate with
  | none => simp only [Stmt.shiftOption, Context.otherwise, aligned.grammar, Emission.shift_closing]
  | some (.ifElse test consequent alternate _) =>
    simp only [Stmt.optionSpans, Stmt.spans, List.cons_append, List.forall_mem_cons,
      List.forall_mem_append] at within
    obtain ⟨-, ⟨inTest, inConsequent⟩, inAlternate⟩ := within
    simp only [Stmt.shiftOption, Stmt.shift, Context.otherwise, Context.alternateLead,
      aligned.grammar, aligned.condition inTest, Emission.shift_append, Emission.shift_header,
      Emission.shift_filled, stmt aligned (depth + 1) consequent inConsequent,
      otherwise aligned depth alternate inAlternate]
  | some (.block ..) | some (.function ..) | some (.returnStmt ..) | some (.expr ..)
  | some (.variableDecl ..) | some (.classDecl ..) | some (.importDecl ..) | some (.forLoop ..)
  | some (.forIn ..) | some (.whileLoop ..) | some (.breakStmt ..) | some (.continueStmt ..)
  | some (.erased ..) | some (.unsupported ..) =>
    have moved := stmt aligned (depth + 1) _ within
    simp only [Stmt.shift] at moved
    simp only [Stmt.shiftOption, Stmt.shift, Context.otherwise, Context.alternateLead,
      aligned.grammar, Emission.shift_block, moved]

theorem declared (aligned : Aligned n reach c d) (depth : Nat) (place : Span)
    (declarators : List Declarator)
    (within : ∀ t ∈ Declarator.allSpans declarators, reach t.stop) :
    d.declared depth (place.shift n) (Declarator.shiftAll n declarators) =
      (c.declared depth place declarators).shift n := by
  match declarators with
  | [] => rfl
  | .mk name init own :: rest =>
    simp only [Declarator.allSpans, Declarator.spans, List.cons_append, List.forall_mem_cons,
      List.forall_mem_append] at within
    simp only [Declarator.shiftAll, Declarator.shift, Context.declared, Emission.shift_append,
      Emission.shift_reports, extraDeclarators]
    cases name with
    | none => rfl
    | some name => simp only [initialized aligned depth name init within.2.1]

theorem initialized (aligned : Aligned n reach c d) (depth : Nat) (name : String)
    (init : Option Expr) (within : ∀ t ∈ Expr.optionSpans init, reach t.stop) :
    d.initialized depth name (Expr.shiftOption n init) =
      (c.initialized depth name init).shift n := by
  match init with
  | none =>
    simp only [Expr.shiftOption, Context.initialized, Context.simple, aligned.variableText,
      aligned.grammar, Emission.shift_line]
  | some init =>
    simp only [Expr.shiftOption, Context.initialized, functionLiteral aligned depth name init within,
      aligned.renderInitializer within]
    cases c.functionLiteral depth name init with
    | none =>
      simp only [Option.map_none, aligned.variableText, Rendering.shift_text,
        aligned.simpleRendered]
    | some e => rfl

theorem functionLiteral (aligned : Aligned n reach c d) (depth : Nat) (name : String) (e : Expr)
    (within : ∀ t ∈ e.spans, reach t.stop) :
    d.functionLiteral depth name (e.shift n) =
      (c.functionLiteral depth name e).map (Emission.shift n) := by
  match e with
  | .paren inner _ =>
    simp only [Expr.spans, List.forall_mem_cons] at within
    simp only [Expr.shift, Context.functionLiteral]
    exact functionLiteral aligned depth name inner within.2
  | .function params (.block body) _ =>
    simp only [Expr.spans, FunctionBody.spans, List.cons_append, List.forall_mem_cons,
      List.forall_mem_append] at within
    obtain ⟨-, inParams, inBody⟩ := within
    simp only [Expr.shift, FunctionBody.shift, Context.functionLiteral, aligned.grammar,
      aligned.paramsText _ inParams, stmts aligned (depth + 1) body inBody, Option.map_some,
      Emission.shift_block]
  | .function params (.value e) _ =>
    simp only [Expr.spans, FunctionBody.spans, List.cons_append, List.forall_mem_cons,
      List.forall_mem_append] at within
    obtain ⟨-, inParams, inValue⟩ := within
    simp only [Expr.shift, FunctionBody.shift, Context.functionLiteral, aligned.grammar,
      aligned.paramsText _ inParams, aligned.render inValue, Rendering.shift_text, Option.map_some,
      Emission.shift_append, Emission.shift_header, Emission.shift_closing, aligned.simpleRendered]
  | .ident .. | .literal .. | .template .. | .call .. | .construct .. | .assign .. | .update ..
  | .binary .. | .unary .. | .sequence .. | .member .. | .array .. | .object .. | .other .. => rfl

theorem initializer (aligned : Aligned n reach c d) (depth : Nat) (members : List Member)
    (within : ∀ t ∈ Member.allSpans members, reach t.stop) :
    d.initializer depth (Member.shiftAll n members) = (c.initializer depth members).shift n := by
  match members with
  | [] => rfl
  | .initializer _ params body _ :: ms =>
    simp only [Member.allSpans, Member.spans, List.cons_append, List.forall_mem_cons,
      List.forall_mem_append] at within
    obtain ⟨-, ⟨inParams, inBody⟩, -⟩ := within
    simp only [Member.shiftAll, Member.shift, Context.initializer, aligned.grammar,
      aligned.methodHeader _ _ inParams, stmts aligned (depth + 1) body inBody,
      Emission.shift_block]
  | .method .. :: ms | .field .. :: ms =>
    simp only [Member.allSpans, List.forall_mem_append] at within
    simp only [Member.shiftAll, Member.shift, Context.initializer]
    exact initializer aligned depth ms within.2

theorem methods (aligned : Aligned n reach c d) (depth : Nat) (members : List Member)
    (within : ∀ t ∈ Member.allSpans members, reach t.stop) :
    d.methods depth (Member.shiftAll n members) = (c.methods depth members).shift n := by
  match members with
  | [] => rfl
  | .method _ params body _ :: ms =>
    simp only [Member.allSpans, Member.spans, List.cons_append, List.forall_mem_cons,
      List.forall_mem_append] at within
    obtain ⟨-, ⟨inParams, inBody⟩, inRest⟩ := within
    simp only [Member.shiftAll, Member.shift, Context.methods, aligned.grammar,
      aligned.methodHeader _ _ inParams, stmts aligned (depth + 1) body inBody,
      methods aligned depth ms inRest, Emission.shift_append, Emission.shift_block]
  | .field name place :: ms =>
    simp only [Member.allSpans, List.forall_mem_append] at within
    simp only [Member.shiftAll, Member.shift, Context.methods, methods aligned depth ms within.2,
      Emission.shift_append, Emission.shift_report]
    rfl
  | .initializer .. :: ms =>
    simp only [Member.allSpans, List.forall_mem_append] at within
    simp only [Member.shiftAll, Member.shift, Context.methods]
    exact methods aligned depth ms within.2

theorem exprStmt (aligned : Aligned n reach c d) (depth : Nat) (place : Span) (e : Expr)
    (within : ∀ t ∈ e.spans, reach t.stop) :
    d.exprStmt depth (place.shift n) (e.shift n) = (c.exprStmt depth place e).shift n := by
  match e with
  | .call callee args own =>
    simp only [Expr.spans, List.cons_append, List.forall_mem_cons, List.forall_mem_append] at within
    obtain ⟨here, inCallee, inArgs⟩ := within
    simp only [Expr.shift, Context.exprStmt, aligned.grammar, Support.formOf_shift,
      resourceBlock aligned depth own args inArgs, aligned.renderCall here inCallee inArgs,
      Rendering.shift_text, aligned.simpleRendered]
    split <;> rfl
  | .assign left op right own =>
    have cut := aligned.withoutNew within
    simp only [Expr.spans, List.cons_append, List.forall_mem_cons, List.forall_mem_append] at within
    obtain ⟨-, inLeft, inRight⟩ := within
    simp only [Expr.shift] at cut
    simp only [Expr.shift, Context.exprStmt, isTemplate_shift, cut, aligned.render inRight,
      Expr.span_shift, aligned.exprText inLeft, Rendering.shift_text, aligned.simpleRendered,
      Context.simple, aligned.grammar]
    split <;> rfl
  | .update argument op _ =>
    simp only [Expr.spans, List.forall_mem_cons] at within
    simp only [Expr.shift, Context.exprStmt, Expr.span_shift, aligned.exprText within.2,
      Context.simple, aligned.grammar, Emission.shift_line]
  | .sequence items _ =>
    simp only [Expr.spans, List.forall_mem_cons] at within
    simp only [Expr.shift, Context.exprStmt]
    exact exprStmts aligned depth items within.2
  | .paren inner _ =>
    simp only [Expr.spans, List.forall_mem_cons] at within
    simp only [Expr.shift, Context.exprStmt]
    exact exprStmt aligned depth place inner within.2
  | .ident .. | .literal .. | .template .. | .construct .. | .binary .. | .unary .. | .member ..
  | .function .. | .array .. | .object .. | .other .. => rfl

theorem exprStmts (aligned : Aligned n reach c d) (depth : Nat) (es : List Expr)
    (within : ∀ t ∈ Expr.allSpans es, reach t.stop) :
    d.exprStmts depth (Expr.shiftAll n es) = (c.exprStmts depth es).shift n := by
  match es with
  | [] => rfl
  | e :: es =>
    simp only [Expr.allSpans, List.forall_mem_append] at within
    simp only [Expr.shiftAll, Context.exprStmts, Expr.span_shift, Emission.shift_append,
      exprStmt aligned depth e.span e within.1, exprStmts aligned depth es within.2]

theorem resourceBlock (aligned : Aligned n reach c d) (depth : Nat) (place : Span)
    (args : List Expr) (within : ∀ t ∈ Expr.allSpans args, reach t.stop) :
    d.resourceBlock depth (place.shift n) (Expr.shiftAll n args) =
      (c.resourceBlock depth place args).shift n := by
  match args with
  | resource :: binding :: body :: _ =>
    simp only [Expr.allSpans, List.forall_mem_append] at within
    obtain ⟨inResource, inBinding, inBody, -⟩ := within
    simp only [Expr.shiftAll, Context.resourceBlock, aligned.render inResource, Rendering.shift_text,
      aligned.withHeader _ inBinding, resourceBody aligned depth _ body inBody, Expr.span_shift]
    cases c.resourceBody depth (c.withHeader (c.render resource).text binding) body with
    | none => rfl
    | some e =>
      simp only [Option.map_some, Rendering.shift_diagnostics, Emission.shift_append,
        Emission.shift_reports]
  | [] | [_] | [_, _] => rfl

theorem resourceBody (aligned : Aligned n reach c d) (depth : Nat) (header : String) (e : Expr)
    (within : ∀ t ∈ e.spans, reach t.stop) :
    d.resourceBody depth header (e.shift n) =
      (c.resourceBody depth header e).map (Emission.shift n) := by
  match e with
  | .paren inner _ =>
    simp only [Expr.spans, List.forall_mem_cons] at within
    simp only [Expr.shift, Context.resourceBody]
    exact resourceBody aligned depth header inner within.2
  | .function _ (.block body) _ =>
    simp only [Expr.spans, FunctionBody.spans, List.cons_append, List.forall_mem_cons,
      List.forall_mem_append] at within
    simp only [Expr.shift, FunctionBody.shift, Context.resourceBody, aligned.grammar,
      stmts aligned (depth + 1) body within.2.2, Option.map_some, Emission.shift_block]
  | .function _ (.value e) _ =>
    simp only [Expr.spans, FunctionBody.spans, List.cons_append, List.forall_mem_cons,
      List.forall_mem_append] at within
    simp only [Expr.shift, FunctionBody.shift, Context.resourceBody, aligned.grammar,
      Expr.span_shift, exprStmt aligned (depth + 1) e.span e within.2.2, Option.map_some,
      Emission.shift_append, Emission.shift_header, Emission.shift_closing]
  | .ident .. | .literal .. | .template .. | .call .. | .construct .. | .assign .. | .update ..
  | .binary .. | .unary .. | .sequence .. | .member .. | .array .. | .object .. | .other .. => rfl

end

end Context.Aligned

theorem Emission.text_append (g : Grammar) (a b : Emission) :
    (a ++ b).text g = a.text g ++ b.text g := by
  rw [Emission.text, Emission.lines_append, List.map_append, String.join_append]
  rfl

theorem Context.stmts_append (c : Context) (depth : Nat) (ss ts : List Stmt) :
    c.stmts depth (ss ++ ts) = c.stmts depth ss ++ c.stmts depth ts := by
  induction ss with
  | nil => rfl
  | cons s ss ih =>
    rw [List.cons_append, Context.stmts, ih, Context.stmts, Emission.append_assoc]

namespace Context.Aligned

/-- What follows a source is not seen by spans that end inside it. -/
theorem of_longer_source (g : Grammar) (s t : List Char) :
    Aligned 0 (· ≤ Text.byteLength s) ⟨g, s⟩ ⟨g, s ++ t⟩ where
  grammar := rfl
  chars span fits := by rw [Span.shift_zero, Span.chars_append_left fits]
  nearer := Nat.le_trans

/-- Spans moved by the length of what precedes a source see that source. -/
theorem of_preceding_source (g : Grammar) (s t : List Char) :
    Aligned (Text.byteLength s) (fun _ => True) ⟨g, t⟩ ⟨g, s ++ t⟩ where
  grammar := rfl
  chars span _ := Span.chars_append_right s t span
  nearer _ _ := trivial

end Context.Aligned

/-- Two programs, one after the other over their joined sources, are written one after the other. -/
theorem Program.emit_append (g : Grammar) (s t : List Char) (p q : Program)
    (fits : ∀ span ∈ p.spans, span.stop ≤ Text.byteLength s) :
    let joined := (p.append (q.shift (Text.byteLength s))).emit g (s ++ t)
    joined.text g = (p.emit g s).text g ++ (q.emit g t).text g ∧
      joined.diagnostics =
        (p.emit g s).diagnostics ++ (q.emit g t).diagnostics.map (·.shift (Text.byteLength s)) := by
  -- the first program does not move, but only spans that end with its source read the same
  have first : p.emit g (s ++ t) = p.emit g s := by
    have moved := (Context.Aligned.of_longer_source g s t).stmts 0 p.body fits
    rwa [Stmt.shiftAll_zero, Emission.shift_zero] at moved
  have second : (q.shift (Text.byteLength s)).emit g (s ++ t) =
      (q.emit g t).shift (Text.byteLength s) :=
    (Context.Aligned.of_preceding_source g s t).stmts 0 q.body fun _ _ => trivial
  have joined : (p.append (q.shift (Text.byteLength s))).emit g (s ++ t) =
      p.emit g s ++ (q.emit g t).shift (Text.byteLength s) := by
    rw [← first, ← second]
    exact Context.stmts_append ⟨g, s ++ t⟩ 0 p.body (q.shift (Text.byteLength s)).body
  simp only [joined]
  exact ⟨Emission.text_append g _ _, rfl⟩

/-- Behind a return statement of ten bytes, an assignment that loses its `new`, and a fault. -/
theorem Program.emit_append_return_assignment :
    let s := "return é;".toList
    let t := "x = new A();)".toList
    let p : Program := ⟨[.returnStmt ⟨0, 10⟩]⟩
    let created : Expr := .construct (.ident "A" ⟨8, 9⟩) [] ⟨4, 11⟩
    let q : Program :=
      ⟨[.expr (.assign (.ident "x" ⟨0, 1⟩) "=" created ⟨0, 11⟩) ⟨0, 12⟩,
        .unsupported "ERROR" ⟨12, 13⟩]⟩
    let joined := (p.append (q.shift (Text.byteLength s))).emit .python (s ++ t)
    joined.text .python = "return é\nx = A()\n" ∧ joined.diagnostics = [.syntaxError ⟨22, 23⟩] := by
  intro s t p created q joined
  obtain ⟨text, diagnostics⟩ := emit_append .python s t p q (by decide)
  exact ⟨text.trans (by decide), diagnostics.trans (by decide)⟩

end Dialect
