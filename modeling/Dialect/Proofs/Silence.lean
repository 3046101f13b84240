import Dialect.Emission.Statement

/-!
# Silent statements

A statement is silent when writing it gives neither text nor a diagnostic. Only statements that mean
nothing in the target dialect are silent: erased ones, imports of the support library, and blocks and
comma sequences made of nothing else.
-/

namespace Dialect

mutual

/-- Parentheses and comma sequences around nothing. -/
def Expr.isVacuous : Expr → Bool
  | .paren inner _ => inner.isVacuous
  | .sequence items _ => Expr.allVacuous items
  | _ => false

def Expr.allVacuous : List Expr → Bool
  | [] => true
  | e :: es => e.isVacuous && Expr.allVacuous es

end

mutual

/-- A statement without counterpart in the target dialect by its meaning, not for lack of a rule. -/
def Stmt.isVacuous (g : Grammar) : Stmt → Bool
  | .erased _ => true
  | .importDecl _ source _ => Support.isModule g source
  | .block body _ => Stmt.allVacuous g body
  | .expr value _ => value.isVacuous
  | _ => false

def Stmt.allVacuous (g : Grammar) : List Stmt → Bool
  | [] => true
  | s :: ss => s.isVacuous g && Stmt.allVacuous g ss

end

namespace Emission

/-- Neither a line nor a diagnostic. -/
def Silent (e : Emission) : Prop :=
  e.lines = [] ∧ e.diagnostics = []

@[simp]
theorem silent_empty : Silent {} := ⟨rfl, rfl⟩

@[simp]
theorem silent_append (a b : Emission) : (a ++ b).Silent ↔ a.Silent ∧ b.Silent := by
  simp only [Silent, lines_append, diagnostics_append, List.append_eq_nil_iff]
  exact and_and_and_comm

@[simp]
theorem not_silent_line (depth : Nat) (text : String) : ¬(line depth text).Silent := by
  simp [Silent, line]

@[simp]
theorem not_silent_report (d : Diagnostic) : ¬(report d).Silent := by
  simp [Silent, report]

@[simp]
theorem not_silent_header (g : Grammar) (depth : Nat) (text : String) :
    ¬(header g depth text).Silent :=
  not_silent_line depth _

@[simp]
theorem not_silent_block (g : Grammar) (depth : Nat) (text : String) (body : Emission) :
    ¬(block g depth text body).Silent := by
  simp [block]

/-- Every line ends with a line feed, so only an emission without lines has an empty text. -/
theorem text_eq_empty_iff (g : Grammar) (e : Emission) : e.text g = "" ↔ e.lines = [] := by
  constructor
  · intro empty
    cases lines : e.lines with
    | nil => rfl
    | cons l ls =>
      have length := congrArg String.length empty
      simp [text, lines, Line.render] at length
  · intro none
    simp [text, none]

theorem silent_iff (g : Grammar) (e : Emission) :
    e.Silent ↔ e.text g = "" ∧ e.diagnostics = [] := by
  rw [Silent, text_eq_empty_iff]

end Emission

/-- Each specifier gets a line of its own or a place on the line of the named ones. -/
theorem Import.linesOf_ne_nil (module : String) (specifiers : List ImportSpecifier) :
    Import.linesOf module specifiers ≠ [] := by
  cases specifiers with
  | nil => simp [Import.linesOf]
  | cons specifier rest =>
    cases specifier with
    | main name => simp [Import.linesOf, Import.wholeLine?]
    | everything name => simp [Import.linesOf, Import.wholeLine?]
    | named imported name => simp [Import.linesOf, Import.namedItem?]

theorem Import.silent_emission_iff (g : Grammar) (depth : Nat) (specifiers : List ImportSpecifier)
    (source : String) :
    (Import.emission g depth specifiers source).Silent ↔ Support.isModule g source = true := by
  unfold Import.emission
  split
  · next support => simp [support]
  · next support => simp [Emission.Silent, Import.linesOf_ne_nil, support]

namespace Context

variable (c : Context)

@[simp]
theorem not_silent_simple (depth : Nat) (text : String) : ¬(c.simple depth text).Silent :=
  Emission.not_silent_line depth _

@[simp]
theorem not_silent_simpleRendered (depth : Nat) (r : Rendering) (text : String) :
    ¬(c.simpleRendered depth r text).Silent := by
  simp [simpleRendered]

/-- A function literal is written with a header, whatever its body. -/
theorem not_silent_functionLiteral (depth : Nat) (name : String) (e : Expr) (written : Emission)
    (literal : c.functionLiteral depth name e = some written) : ¬written.Silent := by
  induction e using Expr.unparen.induct with
  | case1 inner span ih =>
    rw [functionLiteral] at literal
    exact ih literal
  | case2 e bare =>
    cases e with
    | paren inner span => exact (bare inner span rfl).elim
    | function params body span =>
      cases body <;> simp only [functionLiteral, Option.some.injEq] at literal <;>
        subst literal <;> simp
    | _ => simp [functionLiteral] at literal

theorem not_silent_resourceBody (depth : Nat) (header : String) (e : Expr) (written : Emission)
    (body : c.resourceBody depth header e = some written) : ¬written.Silent := by
  induction e using Expr.unparen.induct with
  | case1 inner span ih =>
    rw [resourceBody] at body
    exact ih body
  | case2 e bare =>
    cases e with
    | paren inner span => exact (bare inner span rfl).elim
    | function params statements span =>
      cases statements <;> simp only [resourceBody, Option.some.injEq] at body <;>
        subst body <;> simp
    | _ => simp [resourceBody] at body

theorem not_silent_resourceBlock (depth : Nat) (span : Span) (args : List Expr) :
    ¬(c.resourceBlock depth span args).Silent := by
  rcases args with _ | ⟨resource, _ | ⟨binding, _ | ⟨body, rest⟩⟩⟩
  · simp [resourceBlock]
  · simp [resourceBlock]
  · simp [resourceBlock]
  · simp only [resourceBlock]
    split
    · next e written => simp [c.not_silent_resourceBody _ _ _ _ written]
    · simp

theorem not_silent_initialized (depth : Nat) (name : String) (init : Option Expr) :
    ¬(c.initialized depth name init).Silent := by
  cases init with
  | none => simp [initialized]
  | some value =>
    simp only [initialized]
    split
    · next e written => exact c.not_silent_functionLiteral _ _ _ _ written
    · simp

theorem not_silent_declared (depth : Nat) (span : Span) (ds : List Declarator) :
    ¬(c.declared depth span ds).Silent := by
  rcases ds with _ | ⟨⟨name, init, place⟩, rest⟩
  · simp [declared]
  · cases name with
    | none => simp [declared]
    | some name => simp [declared, not_silent_initialized]

mutual

theorem silent_exprStmt_iff (depth : Nat) (span : Span) (e : Expr) :
    (c.exprStmt depth span e).Silent ↔ e.isVacuous = true := by
  match e with
  | .call callee args place =>
    simp only [exprStmt, Expr.isVacuous]
    split <;> simp [not_silent_resourceBlock]
  | .assign left op right place =>
    simp only [exprStmt, Expr.isVacuous]
    split <;> simp
  | .update .. => simp [exprStmt, Expr.isVacuous]
  | .sequence items _ =>
    simp only [exprStmt, Expr.isVacuous]
    exact silent_exprStmts_iff depth items
  | .paren inner _ =>
    simp only [exprStmt, Expr.isVacuous]
    exact silent_exprStmt_iff depth span inner
  | .ident .. | .literal .. | .template .. | .construct .. | .binary .. | .unary .. | .member ..
  | .function .. | .array .. | .object .. | .other .. => simp [exprStmt, Expr.isVacuous]

theorem silent_exprStmts_iff (depth : Nat) (es : List Expr) :
    (c.exprStmts depth es).Silent ↔ Expr.allVacuous es = true := by
  match es with
  | [] => simp [exprStmts, Expr.allVacuous]
  | e :: es =>
    simp only [exprStmts, Expr.allVacuous, Emission.silent_append, Bool.and_eq_true]
    rw [silent_exprStmt_iff depth e.span e, silent_exprStmts_iff depth es]

end

mutual

/-- Every kind of statement that is not vacuous writes a line or reports a diagnostic, also where the
walk turns back early. -/
theorem silent_stmt_iff (depth : Nat) (s : Stmt) :
    (c.stmt depth s).Silent ↔ s.isVacuous c.grammar = true := by
  match s with
  | .block body _ =>
    simp only [stmt, Stmt.isVacuous]
    exact silent_stmts_iff depth body
  | .expr value span =>
    simp only [stmt, Stmt.isVacuous]
    exact c.silent_exprStmt_iff depth span value
  | .importDecl specifiers source _ =>
    simp only [stmt, Stmt.isVacuous]
    exact Import.silent_emission_iff c.grammar depth specifiers source
  | .variableDecl _ declarators span =>
    simp [stmt, Stmt.isVacuous, not_silent_declared]
  | .forLoop init test update body span =>
    simp only [stmt, Stmt.isVacuous]
    split <;> simp
  | .forIn left right body ofItems span =>
    simp only [stmt, Stmt.isVacuous]
    split <;> simp
  | .erased _ => simp [stmt, Stmt.isVacuous]
  | .function .. | .returnStmt .. | .classDecl .. | .ifElse .. | .whileLoop .. | .breakStmt ..
  | .continueStmt .. | .unsupported .. => simp [stmt, Stmt.isVacuous]

theorem silent_stmts_iff (depth : Nat) (ss : List Stmt) :
    (c.stmts depth ss).Silent ↔ Stmt.allVacuous c.grammar ss = true := by
  match ss with
  | [] => simp [stmts, Stmt.allVacuous]
  | s :: ss =>
    simp only [stmts, Stmt.allVacuous, Emission.silent_append, Bool.and_eq_true]
    rw [silent_stmt_iff depth s, silent_stmts_iff depth ss]

end

/-- No statement is lost without a trace: at every depth, in every target dialect and over every
source, only a vacuous statement is written as nothing and reported as nothing. -/
theorem stmt_writes_nothing_iff_vacuous (depth : Nat) (s : Stmt) :
    (c.stmt depth s).text c.grammar = "" ∧ (c.stmt depth s).diagnostics = [] ↔
      s.isVacuous c.grammar = true := by
  rw [← Emission.silent_iff, silent_stmt_iff]

end Context

end Dialect
