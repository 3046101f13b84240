import Dialect.Build
import Dialect.Proofs.Walk

/-!
# Syntax errors in nested statements

A statement that could not be parsed is reported when the walk over the program reaches it. `Holds`
relates a statement to the statements in its bodies and branches, `Enters` to those the walk goes on
to. The two differ in the bodies of loops of other than the known shapes and of all constructors of a
class but the first, where a syntax error goes unreported.
-/

namespace Dialect

open Relation

/-- A statement directly in a body or branch of another. -/
inductive Stmt.Holds : Stmt → Stmt → Prop where
  | block {body span s} : s ∈ body → Holds (.block body span) s
  | function {name params body span s} : s ∈ body → Holds (.function name params body span) s
  | initializer {name superclass members span own params body place s} :
      .initializer own params body place ∈ members → s ∈ body →
        Holds (.classDecl name superclass members span) s
  | method {name superclass members span own params body place s} :
      .method own params body place ∈ members → s ∈ body →
        Holds (.classDecl name superclass members span) s
  | consequent {test s alternate span} : Holds (.ifElse test s alternate span) s
  | alternate {test consequent s span} : Holds (.ifElse test consequent (some s) span) s
  | forLoop {init test update s span} : Holds (.forLoop init test update s span) s
  | forIn {left right s ofItems span} : Holds (.forIn left right s ofItems span) s
  | whileLoop {test s span} : Holds (.whileLoop test s span) s

/-- A syntax error stands at some depth of the statement. -/
def Stmt.HoldsFault (s : Stmt) : Prop :=
  ∃ span, ReflTransGen Stmt.Holds s (.unsupported faultKind span)

/-- The members behind the first constructor. -/
def Member.afterInitializer : List Member → List Member
  | [] => []
  | .initializer _ _ _ _ :: ms => ms
  | _ :: ms => afterInitializer ms

namespace Context

variable (c : Context)

/-- The walk turns back before a statement that stands inside another. -/
inductive Skips : Stmt → Stmt → Prop where
  | forLoop {init test update s span} :
      c.countingLoop? init test update = none → Skips (.forLoop init test update s span) s
  | forIn {left right s ofItems span} :
      left = none ∨ right.identName? = none → Skips (.forIn left right s ofItems span) s
  | initializer {name superclass members span own params body place s} :
      .initializer own params body place ∈ Member.afterInitializer members → s ∈ body →
        Skips (.classDecl name superclass members span) s

/-- The walk reaches a syntax error. -/
def ReachesFault (s : Stmt) : Prop :=
  ∃ span, ReflTransGen c.Enters s (.unsupported faultKind span)

end Context

namespace Emission

/-- A syntax error was reported. -/
def HasSyntaxError (e : Emission) : Prop :=
  ∃ d ∈ e.diagnostics, d.kind = .parse

@[simp]
theorem not_hasSyntaxError_empty : ¬HasSyntaxError {} := by
  simp [HasSyntaxError]

@[simp]
theorem hasSyntaxError_append (a b : Emission) :
    (a ++ b).HasSyntaxError ↔ a.HasSyntaxError ∨ b.HasSyntaxError := by
  simp [HasSyntaxError, or_and_right, exists_or]

@[simp]
theorem not_hasSyntaxError_line (depth : Nat) (text : String) :
    ¬(line depth text).HasSyntaxError := by
  simp [HasSyntaxError, line]

@[simp]
theorem hasSyntaxError_report (d : Diagnostic) : (report d).HasSyntaxError ↔ d.kind = .parse := by
  simp [HasSyntaxError, report]

@[simp]
theorem hasSyntaxError_filled (g : Grammar) (depth : Nat) (body : Emission) :
    (filled g depth body).HasSyntaxError ↔ body.HasSyntaxError := by
  unfold filled
  split <;> simp

@[simp]
theorem not_hasSyntaxError_closing (g : Grammar) (depth : Nat) :
    ¬(closing g depth).HasSyntaxError := by
  unfold closing
  split <;> simp

@[simp]
theorem not_hasSyntaxError_header (g : Grammar) (depth : Nat) (text : String) :
    ¬(header g depth text).HasSyntaxError :=
  not_hasSyntaxError_line depth _

@[simp]
theorem hasSyntaxError_block (g : Grammar) (depth : Nat) (text : String) (body : Emission) :
    (block g depth text body).HasSyntaxError ↔ body.HasSyntaxError := by
  simp [block]

end Emission

namespace Context

variable (c : Context)

mutual

/-- Rendering an expression reports missing arguments only. -/
theorem renderAt_diagnostics (p : Placement) (e : Expr) :
    ∀ d ∈ (c.renderAt p e).diagnostics, d.kind = .missingStructure := by
  match e with
  | .paren inner _ =>
    rw [renderAt]
    exact renderAt_diagnostics p inner
  | .call callee args span =>
    rw [renderAt]
    split
    · exact renderNamed_diagnostics span args
    · split
      · exact renderAll_diagnostics args
      · simp
  | .sequence items span =>
    rw [renderAt]
    split
    · exact renderAll_diagnostics items
    · cases p <;> simp [Placement.copy]
  | .literal kind span => cases kind <;> cases p <;> simp [renderAt, Placement.copy]
  | .template _ => simp [renderAt]
  | .ident .. | .construct .. | .assign .. | .update .. | .binary .. | .unary .. | .member ..
  | .function .. | .array .. | .object .. | .other .. =>
    cases p <;> simp [renderAt, Placement.copy]

theorem renderAll_diagnostics (es : List Expr) :
    ∀ d ∈ (Rendering.commaSeparated (c.renderAll es)).diagnostics, d.kind = .missingStructure := by
  match es with
  | [] => simp [renderAll, Rendering.commaSeparated]
  | e :: es =>
    have head := renderAt_diagnostics (.within e.span) e
    have tail := renderAll_diagnostics es
    simp only [renderAll, Rendering.commaSeparated, List.flatMap_cons, List.mem_append] at tail ⊢
    rintro d (member | member)
    · exact head d member
    · exact tail d member

theorem renderNamed_diagnostics (span : Span) (args : List Expr) :
    ∀ d ∈ (c.renderNamed span args).diagnostics, d.kind = .missingStructure := by
  match args with
  | [name, value] =>
    rw [renderNamed]
    exact renderAt_diagnostics .value value
  | [] | [_] | _ :: _ :: _ :: _ => simp [renderNamed, Diagnostic.missing]

end

theorem renderInitializer_diagnostics (e : Expr) :
    ∀ d ∈ (c.renderInitializer e).diagnostics, d.kind = .missingStructure := by
  unfold renderInitializer
  split
  · simp
  · split
    · simp
    · exact c.renderAll_diagnostics _
  · split
    · split <;> simp
    · exact c.renderAt_diagnostics _ _
  · exact c.renderAt_diagnostics _ _

theorem renderCall_diagnostics (callee : Expr) (args : List Expr) (span : Span) :
    ∀ d ∈ (c.renderCall callee args span).diagnostics, d.kind = .missingStructure := by
  unfold renderCall
  split
  · exact c.renderAll_diagnostics args
  · simp

@[simp]
theorem not_hasSyntaxError_simple (depth : Nat) (text : String) :
    ¬(c.simple depth text).HasSyntaxError :=
  Emission.not_hasSyntaxError_line depth _

theorem not_hasSyntaxError_reports (ds : List Diagnostic)
    (missing : ∀ d ∈ ds, d.kind = .missingStructure) : ¬(Emission.reports ds).HasSyntaxError := by
  rintro ⟨d, member, parse⟩
  have kind := missing d member
  simp [parse] at kind

theorem not_hasSyntaxError_simpleRendered (depth : Nat) (r : Rendering) (text : String)
    (missing : ∀ d ∈ r.diagnostics, d.kind = .missingStructure) :
    ¬(c.simpleRendered depth r text).HasSyntaxError := by
  simp [simpleRendered, not_hasSyntaxError_reports r.diagnostics missing]

theorem not_hasSyntaxError_import (g : Grammar) (depth : Nat) (specifiers : List ImportSpecifier)
    (source : String) : ¬(Import.emission g depth specifiers source).HasSyntaxError := by
  unfold Import.emission
  split <;> simp [Emission.HasSyntaxError]

theorem reachesFault_iff (s : Stmt) :
    c.ReachesFault s ↔ c.Reaches (fun t => ∃ span, t = .unsupported faultKind span) s := by
  constructor
  · rintro ⟨span, path⟩
    exact ⟨_, path, span, rfl⟩
  · rintro ⟨t, path, span, rfl⟩
    exact ⟨span, path⟩

/-- Where a statement is no fault itself, one is reached from it through a statement it enters. -/
theorem reachesFault_iff_of_enters {s : Stmt} {P : Stmt → Prop}
    (entered : ∀ inner, c.Enters s inner ↔ P inner) (compound : ∀ kind span, s ≠ .unsupported kind span) :
    c.ReachesFault s ↔ ∃ inner, P inner ∧ c.ReachesFault inner := by
  have sound : ¬∃ span, s = .unsupported faultKind span := fun ⟨span, same⟩ => compound _ span same
  simp only [reachesFault_iff]
  rw [c.reaches_iff_of_enters entered, or_iff_right sound]

theorem not_reachesFault_of_enters {s : Stmt} (leaf : ∀ inner, ¬c.Enters s inner)
    (sound : ∀ span, s ≠ .unsupported faultKind span) : ¬c.ReachesFault s := by
  rw [reachesFault_iff, c.reaches_iff_of_enters fun inner => iff_false_intro (leaf inner)]
  simpa using sound

mutual

/-- What one statement reports: a syntax error exactly where the walk from it reaches one. Each case
of the walk is matched with the inversion of `Enters` at its constructor. -/
theorem stmt_hasSyntaxError_iff (depth : Nat) (s : Stmt) :
    (c.stmt depth s).HasSyntaxError ↔ c.ReachesFault s := by
  match s with
  | .block body _ =>
    rw [stmt, stmts_hasSyntaxError_iff depth body,
      c.reachesFault_iff_of_enters c.enters_block_iff nofun]
  | .function name params body _ =>
    rw [stmt, Emission.hasSyntaxError_block, stmts_hasSyntaxError_iff (depth + 1) body,
      c.reachesFault_iff_of_enters c.enters_function_iff nofun]
  | .expr value span =>
    rw [stmt, exprStmt_hasSyntaxError_iff depth span value,
      c.reachesFault_iff_of_enters c.enters_expr_iff nofun]
  | .variableDecl kind declarators span =>
    rw [stmt]
    exact declared_hasSyntaxError_iff depth kind span declarators
  | .classDecl name superclass members _ =>
    rw [stmt, Emission.hasSyntaxError_block, Emission.hasSyntaxError_append,
      initializer_hasSyntaxError_iff (depth + 1) members,
      methods_hasSyntaxError_iff (depth + 1) members,
      c.reachesFault_iff_of_enters c.enters_classDecl_iff nofun]
    simp only [or_and_right, exists_or]
  | .ifElse test consequent alternate _ =>
    simp only [stmt, Emission.hasSyntaxError_append, Emission.hasSyntaxError_filled,
      Emission.not_hasSyntaxError_header, false_or]
    rw [stmt_hasSyntaxError_iff (depth + 1) consequent,
      otherwise_hasSyntaxError_iff depth alternate,
      c.reachesFault_iff_of_enters c.enters_ifElse_iff nofun]
    simp only [or_and_right, exists_or, exists_eq_left]
  | .forLoop init test update body span =>
    rw [c.reachesFault_iff_of_enters c.enters_forLoop_iff nofun]
    simp only [stmt]
    split
    · next l counting =>
      rw [Emission.hasSyntaxError_block, stmt_hasSyntaxError_iff (depth + 1) body]
      simp [counting]
    · next counting => simp [counting, Diagnostic.unsupported]
  | .forIn left right body _ span =>
    rw [c.reachesFault_iff_of_enters c.enters_forIn_iff nofun]
    simp only [stmt]
    split
    · simp [Diagnostic.unsupported]
    · next iterable => simp [iterable, Diagnostic.unsupported]
    · next name items iterable =>
      rw [Emission.hasSyntaxError_block, stmt_hasSyntaxError_iff (depth + 1) body]
      simp [iterable]
  | .whileLoop test body _ =>
    rw [stmt, Emission.hasSyntaxError_block, stmt_hasSyntaxError_iff (depth + 1) body,
      c.reachesFault_iff_of_enters c.enters_whileLoop_iff nofun]
    simp only [exists_eq_left]
  | .unsupported kind span =>
    simp only [stmt, Emission.hasSyntaxError_report]
    split
    · next fault =>
      subst fault
      exact iff_of_true rfl ⟨span, .refl⟩
    · next fault =>
      refine iff_of_false (by simp [Diagnostic.unsupported]) ?_
      exact c.not_reachesFault_of_enters nofun (by simpa using fault)
  | .importDecl specifiers source _ =>
    rw [stmt]
    exact iff_of_false (not_hasSyntaxError_import _ _ _ _) (c.not_reachesFault_of_enters nofun nofun)
  | .returnStmt _ | .breakStmt _ | .continueStmt _ =>
    rw [stmt]
    exact iff_of_false (c.not_hasSyntaxError_simple _ _) (c.not_reachesFault_of_enters nofun nofun)
  | .erased _ =>
    rw [stmt]
    exact iff_of_false Emission.not_hasSyntaxError_empty (c.not_reachesFault_of_enters nofun nofun)

theorem stmts_hasSyntaxError_iff (depth : Nat) (ss : List Stmt) :
    (c.stmts depth ss).HasSyntaxError ↔ ∃ s, s ∈ ss ∧ c.ReachesFault s := by
  match ss with
  | [] => simp [stmts]
  | s :: ss =>
    rw [stmts, Emission.hasSyntaxError_append, stmt_hasSyntaxError_iff depth s,
      stmts_hasSyntaxError_iff depth ss]
    simp

theorem otherwise_hasSyntaxError_iff (depth : Nat) (alternate : Option Stmt) :
    (c.otherwise depth alternate).HasSyntaxError ↔ ∃ s, alternate = some s ∧ c.ReachesFault s := by
  match alternate with
  | none => simp [otherwise]
  | some (.ifElse test consequent alternate _) =>
    simp only [otherwise, Emission.hasSyntaxError_append, Emission.hasSyntaxError_filled,
      Emission.not_hasSyntaxError_header, false_or, Option.some.injEq, exists_eq_left']
    rw [stmt_hasSyntaxError_iff (depth + 1) consequent,
      otherwise_hasSyntaxError_iff depth alternate,
      c.reachesFault_iff_of_enters c.enters_ifElse_iff nofun]
    simp only [or_and_right, exists_or, exists_eq_left]
  | some (.block ..) | some (.function ..) | some (.returnStmt ..) | some (.expr ..)
  | some (.variableDecl ..) | some (.classDecl ..) | some (.importDecl ..) | some (.forLoop ..)
  | some (.forIn ..) | some (.whileLoop ..) | some (.breakStmt ..) | some (.continueStmt ..)
  | some (.erased ..) | some (.unsupported ..) =>
    rw [otherwise, Emission.hasSyntaxError_block, stmt_hasSyntaxError_iff]
    · simp only [Option.some.injEq, exists_eq_left']
    · nofun

theorem declared_hasSyntaxError_iff (depth : Nat) (kind : VariableKind) (span : Span)
    (ds : List Declarator) :
    (c.declared depth span ds).HasSyntaxError ↔ c.ReachesFault (.variableDecl kind ds span) := by
  match ds with
  | [] =>
    rw [declared, Emission.hasSyntaxError_report]
    refine iff_of_false (by simp [Diagnostic.missing]) ?_
    exact c.not_reachesFault_of_enters nofun nofun
  | .mk name init place :: rest =>
    have extra : ¬(Emission.reports (rest.map extraDeclarator)).HasSyntaxError := by
      simp [Emission.HasSyntaxError, Emission.reports, extraDeclarator, Diagnostic.unsupported]
    rw [c.reachesFault_iff_of_enters c.enters_variableDecl_iff nofun]
    cases name with
    | none => simp [declared, extra, Diagnostic.unsupported]
    | some name =>
      have value := initialized_hasSyntaxError_iff depth name init
      simpa [declared, extra] using value

theorem initialized_hasSyntaxError_iff (depth : Nat) (name : String) (init : Option Expr) :
    (c.initialized depth name init).HasSyntaxError ↔
      ∃ s, (∃ value, init = some value ∧ s ∈ value.literalBody) ∧ c.ReachesFault s := by
  match init with
  | none => simp [initialized]
  | some value =>
    have literal := functionLiteral_hasSyntaxError_iff depth name value
    simp only [Option.some.injEq, exists_eq_left', initialized]
    rw [← literal]
    split
    · next written => simp [written]
    · next plain =>
      simp [plain, c.not_hasSyntaxError_simpleRendered _ _ _ (c.renderInitializer_diagnostics value)]

theorem functionLiteral_hasSyntaxError_iff (depth : Nat) (name : String) (e : Expr) :
    (∃ written, c.functionLiteral depth name e = some written ∧ written.HasSyntaxError) ↔
      ∃ s, s ∈ e.literalBody ∧ c.ReachesFault s := by
  match e with
  | .paren inner _ =>
    simp only [functionLiteral, Expr.literalBody]
    exact functionLiteral_hasSyntaxError_iff depth name inner
  | .function params (.block body) _ =>
    simp only [functionLiteral, Option.some.injEq, exists_eq_left', Emission.hasSyntaxError_block]
    rw [stmts_hasSyntaxError_iff (depth + 1) body, Expr.literalBody]
  | .function params (.value value) _ =>
    simp [functionLiteral, Expr.literalBody,
      c.not_hasSyntaxError_simpleRendered _ _ _ (c.renderAt_diagnostics _ value), render]
  | .ident .. | .literal .. | .template .. | .call .. | .construct .. | .assign .. | .update ..
  | .binary .. | .unary .. | .sequence .. | .member .. | .array .. | .object .. | .other .. =>
    simp [functionLiteral, Expr.literalBody]

theorem initializer_hasSyntaxError_iff (depth : Nat) (ms : List Member) :
    (c.initializer depth ms).HasSyntaxError ↔
      ∃ s, s ∈ Member.initializerBody ms ∧ c.ReachesFault s := by
  match ms with
  | [] => simp [initializer, Member.initializerBody]
  | .initializer _ params body _ :: ms =>
    rw [initializer, Emission.hasSyntaxError_block, stmts_hasSyntaxError_iff (depth + 1) body]
    simp [Member.initializerBody]
  | .method .. :: ms | .field .. :: ms =>
    rw [initializer, initializer_hasSyntaxError_iff depth ms]
    · simp [Member.initializerBody]
    · nofun

theorem methods_hasSyntaxError_iff (depth : Nat) (ms : List Member) :
    (c.methods depth ms).HasSyntaxError ↔
      ∃ s, (∃ own params body place, .method own params body place ∈ ms ∧ s ∈ body) ∧
        c.ReachesFault s := by
  match ms with
  | [] => simp [methods]
  | .method name params body place :: ms =>
    rw [methods, Emission.hasSyntaxError_append, Emission.hasSyntaxError_block,
      stmts_hasSyntaxError_iff (depth + 1) body, methods_hasSyntaxError_iff depth ms,
      ← exists_or]
    apply exists_congr
    intro s
    rw [← or_and_right]
    simp only [List.mem_cons, or_and_right, exists_or, Member.method.injEq]
    simp only [and_assoc, exists_eq_left, exists_and_left]
  | .field name span :: ms =>
    rw [methods, Emission.hasSyntaxError_append, methods_hasSyntaxError_iff depth ms]
    simp [Diagnostic.unsupported]
  | .initializer .. :: ms =>
    rw [methods, methods_hasSyntaxError_iff depth ms]
    simp

theorem exprStmt_hasSyntaxError_iff (depth : Nat) (span : Span) (e : Expr) :
    (c.exprStmt depth span e).HasSyntaxError ↔ ∃ s, c.Runs e s ∧ c.ReachesFault s := by
  match e with
  | .call callee args place =>
    simp only [exprStmt, c.runs_call_iff]
    split
    · next form =>
      rw [resourceBlock_hasSyntaxError_iff depth place args]
      simp [form]
    · next form =>
      simp [form, c.not_hasSyntaxError_simpleRendered _ _ _ (c.renderCall_diagnostics _ _ _)]
  | .assign left op right place =>
    refine iff_of_false ?_ nofun
    simp only [exprStmt]
    split
    · exact c.not_hasSyntaxError_simpleRendered _ _ _ (c.renderAt_diagnostics _ right)
    · exact c.not_hasSyntaxError_simple _ _
  | .update argument op _ =>
    rw [exprStmt]
    exact iff_of_false (c.not_hasSyntaxError_simple _ _) nofun
  | .sequence items _ =>
    simp only [exprStmt, c.runs_sequence_iff]
    exact exprStmts_hasSyntaxError_iff depth items
  | .paren inner _ =>
    simp only [exprStmt, c.runs_paren_iff]
    exact exprStmt_hasSyntaxError_iff depth span inner
  | .ident .. | .literal .. | .template .. | .construct .. | .binary .. | .unary .. | .member ..
  | .function .. | .array .. | .object .. | .other .. =>
    refine iff_of_false ?_ nofun
    simp [exprStmt, Diagnostic.unsupported]

theorem exprStmts_hasSyntaxError_iff (depth : Nat) (es : List Expr) :
    (c.exprStmts depth es).HasSyntaxError ↔ ∃ s, (∃ e ∈ es, c.Runs e s) ∧ c.ReachesFault s := by
  match es with
  | [] => simp [exprStmts]
  | e :: es =>
    rw [exprStmts, Emission.hasSyntaxError_append, exprStmt_hasSyntaxError_iff depth e.span e,
      exprStmts_hasSyntaxError_iff depth es, ← exists_or]
    simp only [List.mem_cons, or_and_right, exists_or, exists_eq_left]

theorem resourceBlock_hasSyntaxError_iff (depth : Nat) (span : Span) (args : List Expr) :
    (c.resourceBlock depth span args).HasSyntaxError ↔
      ∃ s, (∃ body, args[2]? = some body ∧ c.RunsBody body s) ∧ c.ReachesFault s := by
  match args with
  | resource :: binding :: body :: rest =>
    have written := resourceBody_hasSyntaxError_iff depth
      (c.withHeader (c.render resource).text binding) body
    simp only [resourceBlock]
    split
    · next e shape =>
      have quiet := not_hasSyntaxError_reports _ (c.renderAt_diagnostics (.within resource.span) resource)
      rw [Emission.hasSyntaxError_append, render, or_iff_right quiet]
      simpa [shape] using written
    · next shape => simpa [shape, Diagnostic.missing] using written
  | [] | [_] | [_, _] => simp [resourceBlock, Diagnostic.missing]

theorem resourceBody_hasSyntaxError_iff (depth : Nat) (header : String) (e : Expr) :
    (∃ written, c.resourceBody depth header e = some written ∧ written.HasSyntaxError) ↔
      ∃ s, c.RunsBody e s ∧ c.ReachesFault s := by
  match e with
  | .paren inner _ =>
    simp only [resourceBody, RunsBody, Expr.literalBody, Expr.literalValue?]
    exact resourceBody_hasSyntaxError_iff depth header inner
  | .function params (.block body) _ =>
    simp only [resourceBody, Option.some.injEq, exists_eq_left', Emission.hasSyntaxError_block]
    rw [stmts_hasSyntaxError_iff (depth + 1) body]
    simp [RunsBody, Expr.literalBody, Expr.literalValue?]
  | .function params (.value value) _ =>
    simp only [resourceBody, Option.some.injEq, exists_eq_left', Emission.hasSyntaxError_append,
      Emission.not_hasSyntaxError_header, Emission.not_hasSyntaxError_closing, false_or, or_false]
    rw [exprStmt_hasSyntaxError_iff (depth + 1) value.span value]
    simp [RunsBody, Expr.literalBody, Expr.literalValue?]
  | .ident .. | .literal .. | .template .. | .call .. | .construct .. | .assign .. | .update ..
  | .binary .. | .unary .. | .sequence .. | .member .. | .array .. | .object .. | .other .. =>
    simp [resourceBody, RunsBody, Expr.literalBody, Expr.literalValue?]

end

theorem initializer_first_or_later {own : String} {params : List Param} {body : List Stmt}
    {place : Span} (ms : List Member) (member : .initializer own params body place ∈ ms) :
    body = Member.initializerBody ms ∨
      .initializer own params body place ∈ Member.afterInitializer ms := by
  induction ms with
  | nil => cases member
  | cons m ms ih =>
    cases m with
    | initializer name ps statements span =>
      rcases List.mem_cons.mp member with same | later
      · cases same
        exact .inl rfl
      · exact .inr later
    | method name ps statements span => exact ih (by simpa using member)
    | field name span => exact ih (by simpa using member)

/-- The walk enters every statement it does not skip. -/
theorem enters_or_skips {outer inner : Stmt} (holds : Stmt.Holds outer inner) :
    c.Enters outer inner ∨ c.Skips outer inner := by
  cases holds with
  | block member => exact .inl (.block member)
  | function member => exact .inl (.function member)
  | initializer own member =>
    rcases initializer_first_or_later _ own with rfl | later
    · exact .inl (.initializer member)
    · exact .inr (.initializer later member)
  | method own member => exact .inl (.method own member)
  | consequent => exact .inl .consequent
  | alternate => exact .inl .alternate
  | @forLoop init test update s span =>
    cases counting : c.countingLoop? init test update with
    | none => exact .inr (.forLoop counting)
    | some l => exact .inl (.forLoop counting)
  | @forIn left right s ofItems span =>
    cases left with
    | none => exact .inr (.forIn (.inl rfl))
    | some name =>
      cases iterable : right.identName? with
      | none => exact .inr (.forIn (.inr iterable))
      | some items => exact .inl (.forIn iterable)
  | whileLoop => exact .inl .whileLoop

/-- Along a path of nested statements to a fault, either the walk follows every step, or the first
step it does not follow leads into a skipped body that holds the fault. -/
theorem reachesFault_or_skips {s : Stmt} (holds : s.HoldsFault) :
    c.ReachesFault s ∨ ∃ outer inner, ReflTransGen Stmt.Holds s outer ∧ c.Skips outer inner ∧
      inner.HoldsFault := by
  obtain ⟨span, path⟩ := holds
  -- from the fault outwards: the outermost skipped step is the one that counts
  induction path using ReflTransGen.head_induction_on with
  | refl => exact .inl ⟨span, .refl⟩
  | @head outer inner step rest ih =>
    rcases c.enters_or_skips step with enters | skips
    · rcases ih with ⟨place, reached⟩ | ⟨o, i, path, skips, fault⟩
      · exact .inl ⟨place, .head enters reached⟩
      · exact .inr ⟨o, i, .head step path, skips, fault⟩
    · exact .inr ⟨outer, inner, .refl, skips, span, rest⟩

end Context

namespace Program

/-- A syntax error stands somewhere among the nested statements. -/
def HoldsFault (p : Program) : Prop :=
  ∃ s ∈ p.body, s.HoldsFault

/-- The walk over the program reaches a syntax error. -/
def ReachesFault (g : Grammar) (source : List Char) (p : Program) : Prop :=
  ∃ s ∈ p.body, Context.ReachesFault ⟨g, source⟩ s

/-- A body that the walk skips holds a syntax error. -/
def SkipsFault (g : Grammar) (source : List Char) (p : Program) : Prop :=
  ∃ s ∈ p.body, ∃ outer inner, ReflTransGen Stmt.Holds s outer ∧
    Context.Skips ⟨g, source⟩ outer inner ∧ inner.HoldsFault

theorem emit_hasSyntaxError_iff (g : Grammar) (source : List Char) (p : Program) :
    (p.emit g source).HasSyntaxError ↔ p.ReachesFault g source :=
  Context.stmts_hasSyntaxError_iff ⟨g, source⟩ 0 p.body

theorem reachesFault_or_skipsFault (g : Grammar) (source : List Char) (p : Program)
    (holds : p.HoldsFault) : p.ReachesFault g source ∨ p.SkipsFault g source := by
  obtain ⟨s, member, fault⟩ := holds
  rcases Context.reachesFault_or_skips ⟨g, source⟩ fault with reached | ⟨o, i, path, skips, held⟩
  · exact .inl ⟨s, member, reached⟩
  · exact .inr ⟨s, member, o, i, path, skips, held⟩

end Program

/-- A unit with a syntax error is not written, and the files stay as they are. -/
theorem Build.unit_unwritten {parse : SourceParser} {g : Grammar} {source : List Char} {p : Program}
    (outDir : Path) (fs : FileSystem) {u : SourceUnit}
    (prepared : prepare parse g u.text = .ok source) (read : Program.ofSource parse source = .ok p)
    (fault : (p.emit g source).HasSyntaxError) :
    (Build.unit parse g outDir fs u).1.output = none ∧ (Build.unit parse g outDir fs u).2 = fs := by
  obtain ⟨d, member, kind⟩ := fault
  have compiled := compile_of_ok prepared read
  have reported : (p.emit g source).diagnostics.any (·.kind = .parse) = true :=
    List.any_eq_true.mpr ⟨d, member, by simpa using kind⟩
  simp [Build.unit, compiled, List.any_append, List.any_map, Function.comp_def, Diagnostic.withPath,
    reported]

/-- A syntax error is reported exactly when the walk reaches one. So every one in a statement
position is reported, and its unit left unwritten, unless it stands in a skipped body. -/
theorem Program.syntax_error_reported_iff_reached (g : Grammar) (source : List Char) (p : Program) :
    ((∃ d ∈ (p.emit g source).diagnostics, d.kind = .parse) ↔ p.ReachesFault g source) ∧
    (p.HoldsFault → ¬p.SkipsFault g source →
      ∃ d ∈ (p.emit g source).diagnostics, d.kind = .parse) ∧
    ∀ (parse : SourceParser) (outDir : Path) (fs : FileSystem) (u : SourceUnit),
      prepare parse g u.text = .ok source → Program.ofSource parse source = .ok p →
        p.ReachesFault g source →
          (Build.unit parse g outDir fs u).1.output = none ∧
            (Build.unit parse g outDir fs u).2 = fs := by
  have exactly := p.emit_hasSyntaxError_iff g source
  refine ⟨exactly, ?_, ?_⟩
  · intro holds unskipped
    rcases p.reachesFault_or_skipsFault g source holds with reached | skipped
    · exact exactly.mpr reached
    · exact (unskipped skipped).elim
  · intro parse outDir fs u prepared read reached
    exact Build.unit_unwritten outDir fs prepared read (exactly.mpr reached)

/-- The body of a loop that is not written over a range hides its syntax error. -/
theorem unbounded_loop_hides_syntax_error :
    (⟨[.forLoop none none none (.block [.unsupported "ERROR" ⟨11, 20⟩] ⟨9, 22⟩) ⟨0, 22⟩]⟩ :
        Program).HoldsFault ∧
      ¬∃ d ∈ (Program.emit .python "for (;;) { let x = ; }".toList
        ⟨[.forLoop none none none (.block [.unsupported "ERROR" ⟨11, 20⟩] ⟨9, 22⟩) ⟨0, 22⟩]⟩).diagnostics,
        d.kind = .parse := by
  refine ⟨⟨_, List.mem_singleton_self _, ⟨11, 20⟩, ?_⟩, by decide⟩
  exact .head .forLoop (.head (.block (List.mem_singleton_self _)) .refl)

end Dialect
