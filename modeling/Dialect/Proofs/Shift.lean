import Dialect.Proofs.Slice
import Dialect.Support

/-!
# Programs moved along their source

`spans` lists every span of a program and `shift` moves all of them by a number of bytes. Moving
changes neither the shape of a program nor its names.
-/

namespace Dialect

def Param.spans (p : Param) : List Span :=
  p.value.toList

def Param.shift (n : Nat) (p : Param) : Param :=
  { p with value := p.value.map (·.shift n) }

mutual

def Expr.spans : Expr → List Span
  | .ident _ s | .literal _ s | .template s | .array s | .object s | .other _ s => [s]
  | .call callee args s | .construct callee args s => s :: callee.spans ++ Expr.allSpans args
  | .assign left _ right s | .binary left _ right s => s :: left.spans ++ right.spans
  | .update argument _ s | .unary _ argument s => s :: argument.spans
  | .sequence items s => s :: Expr.allSpans items
  | .member object _ s => s :: object.spans
  | .paren inner s => s :: inner.spans
  | .function params body s => s :: params.flatMap Param.spans ++ body.spans

def Expr.allSpans : List Expr → List Span
  | [] => []
  | e :: es => e.spans ++ Expr.allSpans es

def Expr.optionSpans : Option Expr → List Span
  | none => []
  | some e => e.spans

def FunctionBody.spans : FunctionBody → List Span
  | .block body => Stmt.allSpans body
  | .value value => value.spans

def Stmt.spans : Stmt → List Span
  | .block body s => s :: Stmt.allSpans body
  | .function _ params body s => s :: params.flatMap Param.spans ++ Stmt.allSpans body
  | .expr value s => s :: value.spans
  | .variableDecl _ declarators s => s :: Declarator.allSpans declarators
  | .classDecl _ superclass members s => s :: superclass.toList ++ Member.allSpans members
  | .ifElse test consequent alternate s =>
    s :: test.spans ++ consequent.spans ++ Stmt.optionSpans alternate
  | .forLoop init test update body s =>
    s :: Stmt.optionSpans init ++ Expr.optionSpans test ++ Expr.optionSpans update ++ body.spans
  | .forIn _ right body _ s => s :: right.spans ++ body.spans
  | .whileLoop test body s => s :: test.spans ++ body.spans
  | .returnStmt s | .importDecl _ _ s | .breakStmt s | .continueStmt s | .erased s
  | .unsupported _ s => [s]

def Stmt.allSpans : List Stmt → List Span
  | [] => []
  | s :: ss => s.spans ++ Stmt.allSpans ss

def Stmt.optionSpans : Option Stmt → List Span
  | none => []
  | some s => s.spans

def Declarator.spans : Declarator → List Span
  | .mk _ init s => s :: Expr.optionSpans init

def Declarator.allSpans : List Declarator → List Span
  | [] => []
  | d :: ds => d.spans ++ Declarator.allSpans ds

def Member.spans : Member → List Span
  | .initializer _ params body s | .method _ params body s =>
    s :: params.flatMap Param.spans ++ Stmt.allSpans body
  | .field _ s => [s]

def Member.allSpans : List Member → List Span
  | [] => []
  | m :: ms => m.spans ++ Member.allSpans ms

end

mutual

def Expr.shift (n : Nat) : Expr → Expr
  | .ident name s => .ident name (s.shift n)
  | .literal kind s => .literal kind (s.shift n)
  | .template s => .template (s.shift n)
  | .call callee args s => .call (callee.shift n) (Expr.shiftAll n args) (s.shift n)
  | .construct callee args s => .construct (callee.shift n) (Expr.shiftAll n args) (s.shift n)
  | .assign left op right s => .assign (left.shift n) op (right.shift n) (s.shift n)
  | .update argument op s => .update (argument.shift n) op (s.shift n)
  | .binary left op right s => .binary (left.shift n) op (right.shift n) (s.shift n)
  | .unary op argument s => .unary op (argument.shift n) (s.shift n)
  | .sequence items s => .sequence (Expr.shiftAll n items) (s.shift n)
  | .member object property s => .member (object.shift n) property (s.shift n)
  | .paren inner s => .paren (inner.shift n) (s.shift n)
  | .function params body s => .function (params.map (Param.shift n)) (body.shift n) (s.shift n)
  | .array s => .array (s.shift n)
  | .object s => .object (s.shift n)
  | .other kind s => .other kind (s.shift n)

def Expr.shiftAll (n : Nat) : List Expr → List Expr
  | [] => []
  | e :: es => e.shift n :: Expr.shiftAll n es

def Expr.shiftOption (n : Nat) : Option Expr → Option Expr
  | none => none
  | some e => some (e.shift n)

def FunctionBody.shift (n : Nat) : FunctionBody → FunctionBody
  | .block body => .block (Stmt.shiftAll n body)
  | .value value => .value (value.shift n)

def Stmt.shift (n : Nat) : Stmt → Stmt
  | .block body s => .block (Stmt.shiftAll n body) (s.shift n)
  | .function name params body s =>
    .function name (params.map (Param.shift n)) (Stmt.shiftAll n body) (s.shift n)
  | .returnStmt s => .returnStmt (s.shift n)
  | .expr value s => .expr (value.shift n) (s.shift n)
  | .variableDecl kind declarators s =>
    .variableDecl kind (Declarator.shiftAll n declarators) (s.shift n)
  | .classDecl name superclass members s =>
    .classDecl name (superclass.map (·.shift n)) (Member.shiftAll n members) (s.shift n)
  | .importDecl specifiers source s => .importDecl specifiers source (s.shift n)
  | .ifElse test consequent alternate s =>
    .ifElse (test.shift n) (consequent.shift n) (Stmt.shiftOption n alternate) (s.shift n)
  | .forLoop init test update body s =>
    .forLoop (Stmt.shiftOption n init) (Expr.shiftOption n test) (Expr.shiftOption n update)
      (body.shift n) (s.shift n)
  | .forIn left right body ofItems s =>
    .forIn left (right.shift n) (body.shift n) ofItems (s.shift n)
  | .whileLoop test body s => .whileLoop (test.shift n) (body.shift n) (s.shift n)
  | .breakStmt s => .breakStmt (s.shift n)
  | .continueStmt s => .continueStmt (s.shift n)
  | .erased s => .erased (s.shift n)
  | .unsupported kind s => .unsupported kind (s.shift n)

def Stmt.shiftAll (n : Nat) : List Stmt → List Stmt
  | [] => []
  | s :: ss => s.shift n :: Stmt.shiftAll n ss

def Stmt.shiftOption (n : Nat) : Option Stmt → Option Stmt
  | none => none
  | some s => some (s.shift n)

def Declarator.shift (n : Nat) : Declarator → Declarator
  | .mk name init s => .mk name (Expr.shiftOption n init) (s.shift n)

def Declarator.shiftAll (n : Nat) : List Declarator → List Declarator
  | [] => []
  | d :: ds => d.shift n :: Declarator.shiftAll n ds

def Member.shift (n : Nat) : Member → Member
  | .initializer name params body s =>
    .initializer name (params.map (Param.shift n)) (Stmt.shiftAll n body) (s.shift n)
  | .method name params body s =>
    .method name (params.map (Param.shift n)) (Stmt.shiftAll n body) (s.shift n)
  | .field name s => .field name (s.shift n)

def Member.shiftAll (n : Nat) : List Member → List Member
  | [] => []
  | m :: ms => m.shift n :: Member.shiftAll n ms

end

namespace Program

def spans (p : Program) : List Span :=
  Stmt.allSpans p.body

def shift (n : Nat) (p : Program) : Program :=
  ⟨Stmt.shiftAll n p.body⟩

/-- The statements of one program, then those of another. -/
def append (p q : Program) : Program :=
  ⟨p.body ++ q.body⟩

end Program

@[simp]
theorem Param.shift_zero (p : Param) : p.shift 0 = p := by
  cases p with
  | mk name value => cases value <;> rfl

theorem Param.map_shift_zero (params : List Param) : params.map (Param.shift 0) = params := by
  induction params with
  | nil => rfl
  | cons p ps ih => rw [List.map_cons, ih, Param.shift_zero]

mutual

theorem Expr.shift_zero (e : Expr) : e.shift 0 = e := by
  match e with
  | .ident .. | .literal .. | .template .. | .array .. | .object .. | .other .. => rfl
  | .call callee args _ | .construct callee args _ =>
    simp only [Expr.shift, Span.shift_zero]
    rw [Expr.shift_zero callee, Expr.shiftAll_zero args]
  | .assign left _ right _ | .binary left _ right _ =>
    simp only [Expr.shift, Span.shift_zero]
    rw [Expr.shift_zero left, Expr.shift_zero right]
  | .update argument _ _ | .unary _ argument _ =>
    simp only [Expr.shift, Span.shift_zero]
    rw [Expr.shift_zero argument]
  | .sequence items _ =>
    simp only [Expr.shift, Span.shift_zero]
    rw [Expr.shiftAll_zero items]
  | .member object _ _ =>
    simp only [Expr.shift, Span.shift_zero]
    rw [Expr.shift_zero object]
  | .paren inner _ =>
    simp only [Expr.shift, Span.shift_zero]
    rw [Expr.shift_zero inner]
  | .function params body _ =>
    simp only [Expr.shift, Span.shift_zero, Param.map_shift_zero]
    rw [FunctionBody.shift_zero body]

theorem Expr.shiftAll_zero (es : List Expr) : Expr.shiftAll 0 es = es := by
  match es with
  | [] => rfl
  | e :: es => rw [Expr.shiftAll, Expr.shift_zero e, Expr.shiftAll_zero es]

theorem Expr.shiftOption_zero (e : Option Expr) : Expr.shiftOption 0 e = e := by
  match e with
  | none => rfl
  | some e => rw [Expr.shiftOption, Expr.shift_zero e]

theorem FunctionBody.shift_zero (body : FunctionBody) : body.shift 0 = body := by
  match body with
  | .block body => rw [FunctionBody.shift, Stmt.shiftAll_zero body]
  | .value value => rw [FunctionBody.shift, Expr.shift_zero value]

theorem Stmt.shift_zero (s : Stmt) : s.shift 0 = s := by
  match s with
  | .returnStmt _ | .importDecl .. | .breakStmt _ | .continueStmt _ | .erased _
  | .unsupported .. => rfl
  | .block body _ =>
    simp only [Stmt.shift, Span.shift_zero]
    rw [Stmt.shiftAll_zero body]
  | .function name params body _ =>
    simp only [Stmt.shift, Span.shift_zero, Param.map_shift_zero]
    rw [Stmt.shiftAll_zero body]
  | .expr value _ =>
    simp only [Stmt.shift, Span.shift_zero]
    rw [Expr.shift_zero value]
  | .variableDecl _ declarators _ =>
    simp only [Stmt.shift, Span.shift_zero]
    rw [Declarator.shiftAll_zero declarators]
  | .classDecl _ superclass members _ =>
    simp only [Stmt.shift, Span.shift_zero, Option.map_id']
    rw [Member.shiftAll_zero members]
  | .ifElse test consequent alternate _ =>
    simp only [Stmt.shift, Span.shift_zero]
    rw [Expr.shift_zero test, Stmt.shift_zero consequent, Stmt.shiftOption_zero alternate]
  | .forLoop init test update body _ =>
    simp only [Stmt.shift, Span.shift_zero]
    rw [Stmt.shiftOption_zero init, Expr.shiftOption_zero test, Expr.shiftOption_zero update,
      Stmt.shift_zero body]
  | .forIn _ right body _ _ =>
    simp only [Stmt.shift, Span.shift_zero]
    rw [Expr.shift_zero right, Stmt.shift_zero body]
  | .whileLoop test body _ =>
    simp only [Stmt.shift, Span.shift_zero]
    rw [Expr.shift_zero test, Stmt.shift_zero body]

theorem Stmt.shiftAll_zero (ss : List Stmt) : Stmt.shiftAll 0 ss = ss := by
  match ss with
  | [] => rfl
  | s :: ss => rw [Stmt.shiftAll, Stmt.shift_zero s, Stmt.shiftAll_zero ss]

theorem Stmt.shiftOption_zero (s : Option Stmt) : Stmt.shiftOption 0 s = s := by
  match s with
  | none => rfl
  | some s => rw [Stmt.shiftOption, Stmt.shift_zero s]

theorem Declarator.shift_zero (d : Declarator) : d.shift 0 = d := by
  match d with
  | .mk name init _ => rw [Declarator.shift, Expr.shiftOption_zero init, Span.shift_zero]

theorem Declarator.shiftAll_zero (ds : List Declarator) : Declarator.shiftAll 0 ds = ds := by
  match ds with
  | [] => rfl
  | d :: ds => rw [Declarator.shiftAll, Declarator.shift_zero d, Declarator.shiftAll_zero ds]

theorem Member.shift_zero (m : Member) : m.shift 0 = m := by
  match m with
  | .initializer _ params body _ | .method _ params body _ =>
    simp only [Member.shift, Span.shift_zero, Param.map_shift_zero]
    rw [Stmt.shiftAll_zero body]
  | .field .. => rfl

theorem Member.shiftAll_zero (ms : List Member) : Member.shiftAll 0 ms = ms := by
  match ms with
  | [] => rfl
  | m :: ms => rw [Member.shiftAll, Member.shift_zero m, Member.shiftAll_zero ms]

end

namespace Expr

variable (n : Nat)

@[simp]
theorem span_shift (e : Expr) : (e.shift n).span = e.span.shift n := by
  cases e <;> rfl

theorem span_mem_spans (e : Expr) : e.span ∈ e.spans := by
  cases e <;> simp [span, spans]

theorem unparen_shift (e : Expr) : (e.shift n).unparen = e.unparen.shift n := by
  induction e using Expr.unparen.induct with
  | case1 inner s ih => exact ih
  | case2 e bare =>
    cases e with
    | paren inner s => exact (bare inner s rfl).elim
    | _ => rfl

/-- The spans of what stands in parentheses are among those of the whole. -/
theorem unparen_spans_subset (e : Expr) : e.unparen.spans ⊆ e.spans := by
  induction e using Expr.unparen.induct with
  | case1 inner s ih =>
    intro span member
    exact List.mem_cons_of_mem s (ih member)
  | case2 e bare =>
    cases e with
    | paren inner s => exact (bare inner s rfl).elim
    | _ => exact List.Subset.refl _

theorem identName?_shift (e : Expr) : (e.shift n).identName? = e.identName? := by
  induction e using Expr.unparen.induct with
  | case1 inner s ih => exact ih
  | case2 e bare =>
    cases e with
    | paren inner s => exact (bare inner s rfl).elim
    | _ => rfl

@[simp]
theorem length_shiftAll (es : List Expr) : (shiftAll n es).length = es.length := by
  induction es with
  | nil => rfl
  | cons e es ih => rw [shiftAll, List.length_cons, ih, List.length_cons]

end Expr

theorem Support.formOf_shift (g : Grammar) (n : Nat) (callee : Expr) :
    Support.formOf g (callee.shift n) = Support.formOf g callee := by
  rw [Support.formOf, Expr.unparen_shift, Support.formOf]
  cases callee.unparen with
  | member object property s => simp only [Expr.shift, Expr.identName?_shift]
  | _ => rfl

end Dialect
