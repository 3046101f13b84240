import Dialect.Program

/-!
# The expressions inside an expression

The operands of an expression are the expressions it is put together from; the body of a function is
none. Its nodes are itself and the nodes of its operands, outer ones first.
-/

namespace Dialect.Expr

def operands : Expr → List Expr
  | construct callee args _ | call callee args _ => callee :: args
  | assign left _ right _ | binary left _ right _ => [left, right]
  | sequence items _ => items
  | update inner _ _ | unary _ inner _ | member inner _ _ | paren inner _ => [inner]
  | ident _ _ | literal _ _ | template _ | function _ _ _ | array _ | object _ | other _ _ => []

mutual

def nodes : Expr → List Expr
  | construct callee args s => construct callee args s :: (callee.nodes ++ nodesOf args)
  | call callee args s => call callee args s :: (callee.nodes ++ nodesOf args)
  | assign left op right s => assign left op right s :: (left.nodes ++ right.nodes)
  | binary left op right s => binary left op right s :: (left.nodes ++ right.nodes)
  | sequence items s => sequence items s :: nodesOf items
  | update inner op s => update inner op s :: inner.nodes
  | unary op inner s => unary op inner s :: inner.nodes
  | member inner property s => member inner property s :: inner.nodes
  | paren inner s => paren inner s :: inner.nodes
  | e => [e]

def nodesOf : List Expr → List Expr
  | [] => []
  | e :: es => e.nodes ++ nodesOf es

end

theorem nodesOf_eq_flatMap (es : List Expr) : nodesOf es = es.flatMap nodes := by
  induction es with
  | nil => rfl
  | cons e es ih => rw [nodesOf, ih, List.flatMap_cons]

theorem nodes_eq (e : Expr) : e.nodes = e :: e.operands.flatMap nodes := by
  cases e <;> simp [nodes, operands, nodesOf_eq_flatMap]

theorem mem_nodes_self (e : Expr) : e ∈ e.nodes := by
  rw [nodes_eq]
  exact List.mem_cons_self

theorem mem_nodes_of_operand {e o n : Expr} (operand : o ∈ e.operands) (below : n ∈ o.nodes) :
    n ∈ e.nodes := by
  rw [nodes_eq]
  exact List.mem_cons_of_mem e (List.mem_flatMap.mpr ⟨o, operand, below⟩)

mutual

/-- What holds of an expression whenever it holds of its operands, holds of every expression. -/
theorem operand_induction {P : Expr → Prop} (step : ∀ e, (∀ o ∈ e.operands, P o) → P e) (e : Expr) :
    P e := by
  apply step
  match e with
  | construct callee args _ | call callee args _ =>
    exact List.forall_mem_cons.mpr ⟨operand_induction step callee, forall_operands step args⟩
  | assign left _ right _ | binary left _ right _ =>
    exact List.forall_mem_cons.mpr
      ⟨operand_induction step left, List.forall_mem_singleton.mpr (operand_induction step right)⟩
  | sequence items _ => exact forall_operands step items
  | update inner _ _ | unary _ inner _ | member inner _ _ | paren inner _ =>
    exact List.forall_mem_singleton.mpr (operand_induction step inner)
  | ident _ _ | literal _ _ | template _ | function _ _ _ | array _ | object _ | other _ _ =>
    exact List.forall_mem_nil P

theorem forall_operands {P : Expr → Prop} (step : ∀ e, (∀ o ∈ e.operands, P o) → P e)
    (es : List Expr) : ∀ e ∈ es, P e := by
  match es with
  | [] => exact List.forall_mem_nil P
  | e :: es =>
    exact List.forall_mem_cons.mpr ⟨operand_induction step e, forall_operands step es⟩

end

/-- What looks through parentheses sees the same with and without them. -/
theorem apply_unparen {α : Type} {f : Expr → α}
    (through : ∀ inner place, f (paren inner place) = f inner) (e : Expr) : f e.unparen = f e := by
  induction e using unparen.induct with
  | case1 inner place ih => rw [unparen, ih, through]
  | case2 e bare =>
    cases e with
    | paren inner place => exact (bare inner place rfl).elim
    | _ => rfl

end Dialect.Expr
