import Dialect.Emission.Statement
import Mathlib.Logic.Relation

/-!
# The walk over a program

Writing a statement goes on to the statements in its bodies. `Enters` relates a statement to those, and
`Runs` an expression statement to the statements in the resource blocks it is written as.
-/

namespace Dialect

open Relation

/-- The statements of a function literal, through parentheses. -/
def Expr.literalBody : Expr → List Stmt
  | .paren inner _ => inner.literalBody
  | .function _ (.block body) _ => body
  | _ => []

/-- The value of a function literal without statements. -/
def Expr.literalValue? : Expr → Option Expr
  | .paren inner _ => inner.literalValue?
  | .function _ (.value e) _ => some e
  | _ => none

/-- The statements of the first constructor. -/
def Member.initializerBody : List Member → List Stmt
  | [] => []
  | .initializer _ _ body _ :: _ => body
  | _ :: ms => initializerBody ms

namespace Context

variable (c : Context)

/-- A statement in a resource block that an expression statement is written as. -/
inductive Runs : Expr → Stmt → Prop where
  | paren {inner span s} : Runs inner s → Runs (.paren inner span) s
  | item {items span e s} : e ∈ items → Runs e s → Runs (.sequence items span) s
  | block {callee args body span s} :
      Support.formOf c.grammar callee = some .scopedResource → args[2]? = some body →
        s ∈ body.literalBody → Runs (.call callee args span) s
  | value {callee args body span e s} :
      Support.formOf c.grammar callee = some .scopedResource → args[2]? = some body →
        body.literalValue? = some e → Runs e s → Runs (.call callee args span) s

/-- The walk goes on from a statement to one inside it. -/
inductive Enters : Stmt → Stmt → Prop where
  | block {body span s} : s ∈ body → Enters (.block body span) s
  | function {name params body span s} : s ∈ body → Enters (.function name params body span) s
  | initializer {name superclass members span s} :
      s ∈ Member.initializerBody members → Enters (.classDecl name superclass members span) s
  | method {name superclass members span own params body place s} :
      .method own params body place ∈ members → s ∈ body →
        Enters (.classDecl name superclass members span) s
  | consequent {test s alternate span} : Enters (.ifElse test s alternate span) s
  | alternate {test consequent s span} : Enters (.ifElse test consequent (some s) span) s
  | forLoop {init test update s span l} :
      c.countingLoop? init test update = some l → Enters (.forLoop init test update s span) s
  | forIn {name right items s ofItems span} :
      right.identName? = some items → Enters (.forIn (some name) right s ofItems span) s
  | whileLoop {test s span} : Enters (.whileLoop test s span) s
  | literal {kind name init place rest span s} :
      s ∈ init.literalBody →
        Enters (.variableDecl kind (.mk (some name) (some init) place :: rest) span) s
  | resource {value span s} : c.Runs value s → Enters (.expr value span) s

/-- The walk from a statement comes to one with a property. -/
def Reaches (goal : Stmt → Prop) (s : Stmt) : Prop :=
  ∃ t, ReflTransGen c.Enters s t ∧ goal t

/-- What the walk reaches is the statement itself or reached from one that it enters. -/
theorem reaches_iff_of_enters {goal P : Stmt → Prop} {s : Stmt}
    (entered : ∀ inner, c.Enters s inner ↔ P inner) :
    c.Reaches goal s ↔ goal s ∨ ∃ inner, P inner ∧ c.Reaches goal inner := by
  constructor
  · rintro ⟨t, path, reached⟩
    rcases ReflTransGen.cases_head_iff.mp path with rfl | ⟨inner, step, rest⟩
    · exact .inl reached
    · exact .inr ⟨inner, (entered inner).mp step, t, rest, reached⟩
  · rintro (here | ⟨inner, position, t, rest, reached⟩)
    · exact ⟨s, .refl, here⟩
    · exact ⟨t, .head ((entered inner).mpr position) rest, reached⟩

theorem enters_block_iff {body : List Stmt} {span : Span} (inner : Stmt) :
    c.Enters (.block body span) inner ↔ inner ∈ body :=
  ⟨fun (.block member) => member, .block⟩

theorem enters_function_iff {name : String} {params : List Param} {body : List Stmt} {span : Span}
    (inner : Stmt) : c.Enters (.function name params body span) inner ↔ inner ∈ body :=
  ⟨fun (.function member) => member, .function⟩

theorem enters_classDecl_iff {name : String} {superclass : Option Span} {members : List Member}
    {span : Span} (inner : Stmt) :
    c.Enters (.classDecl name superclass members span) inner ↔
      inner ∈ Member.initializerBody members ∨
      ∃ own params body place, .method own params body place ∈ members ∧ inner ∈ body := by
  constructor
  · intro step
    cases step with
    | initializer member => exact .inl member
    | method own member => exact .inr ⟨_, _, _, _, own, member⟩
  · rintro (member | ⟨own, params, body, place, method, member⟩)
    · exact .initializer member
    · exact .method method member

theorem enters_ifElse_iff {test : Expr} {consequent : Stmt} {alternate : Option Stmt} {span : Span}
    (inner : Stmt) :
    c.Enters (.ifElse test consequent alternate span) inner ↔
      inner = consequent ∨ alternate = some inner := by
  constructor
  · intro step
    cases step with
    | consequent => exact .inl rfl
    | alternate => exact .inr rfl
  · rintro (rfl | rfl)
    · exact .consequent
    · exact .alternate

theorem enters_forLoop_iff {init : Option Stmt} {test update : Option Expr} {body : Stmt}
    {span : Span} (inner : Stmt) :
    c.Enters (.forLoop init test update body span) inner ↔
      (∃ l, c.countingLoop? init test update = some l) ∧ inner = body := by
  constructor
  · intro step
    cases step with
    | forLoop counting => exact ⟨⟨_, counting⟩, rfl⟩
  · rintro ⟨⟨l, counting⟩, rfl⟩
    exact .forLoop counting

theorem enters_forIn_iff {left : Option String} {right : Expr} {body : Stmt} {ofItems : Bool}
    {span : Span} (inner : Stmt) :
    c.Enters (.forIn left right body ofItems span) inner ↔
      (∃ name items, left = some name ∧ right.identName? = some items) ∧ inner = body := by
  constructor
  · intro step
    cases step with
    | forIn iterable => exact ⟨⟨_, _, rfl, iterable⟩, rfl⟩
  · rintro ⟨⟨name, items, rfl, iterable⟩, rfl⟩
    exact .forIn iterable

theorem enters_whileLoop_iff {test : Expr} {body : Stmt} {span : Span} (inner : Stmt) :
    c.Enters (.whileLoop test body span) inner ↔ inner = body := by
  constructor
  · intro step
    cases step with
    | whileLoop => rfl
  · rintro rfl
    exact .whileLoop

theorem enters_expr_iff {value : Expr} {span : Span} (inner : Stmt) :
    c.Enters (.expr value span) inner ↔ c.Runs value inner :=
  ⟨fun (.resource runs) => runs, .resource⟩

/-- A statement in the function literal that the first declarator is initialized with. -/
theorem enters_variableDecl_iff {kind : VariableKind} {name : Option String} {init : Option Expr}
    {place : Span} {rest : List Declarator} {span : Span} (inner : Stmt) :
    c.Enters (.variableDecl kind (.mk name init place :: rest) span) inner ↔
      (∃ own, name = some own) ∧ ∃ value, init = some value ∧ inner ∈ value.literalBody := by
  constructor
  · intro step
    cases step with
    | literal member => exact ⟨⟨_, rfl⟩, _, rfl, member⟩
  · rintro ⟨⟨own, rfl⟩, value, rfl, member⟩
    exact .literal member

theorem runs_paren_iff {inner : Expr} {span : Span} (s : Stmt) :
    c.Runs (.paren inner span) s ↔ c.Runs inner s :=
  ⟨fun (.paren runs) => runs, .paren⟩

theorem runs_sequence_iff {items : List Expr} {span : Span} (s : Stmt) :
    c.Runs (.sequence items span) s ↔ ∃ e ∈ items, c.Runs e s :=
  ⟨fun (.item member runs) => ⟨_, member, runs⟩, fun ⟨_, member, runs⟩ => .item member runs⟩

/-- The body of a resource block is a function literal with statements, or with a value that is
written as a statement. -/
def RunsBody (body : Expr) (s : Stmt) : Prop :=
  s ∈ body.literalBody ∨ ∃ e, body.literalValue? = some e ∧ c.Runs e s

theorem runs_call_iff {callee : Expr} {args : List Expr} {span : Span} (s : Stmt) :
    c.Runs (.call callee args span) s ↔
      Support.formOf c.grammar callee = some .scopedResource ∧
      ∃ body, args[2]? = some body ∧ c.RunsBody body s := by
  constructor
  · intro runs
    cases runs with
    | block form third member => exact ⟨form, _, third, .inl member⟩
    | value form third shape inner => exact ⟨form, _, third, .inr ⟨_, shape, inner⟩⟩
  · rintro ⟨form, body, third, member | ⟨e, shape, inner⟩⟩
    · exact .block form third member
    · exact .value form third shape inner

end Context

end Dialect
