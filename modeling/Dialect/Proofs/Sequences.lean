import Dialect.Program
import Dialect.Proofs.Operands
import Mathlib.Data.List.Basic

/-!
# Comma sequences

The leaves of an expression are found by removing parentheses and dividing comma sequences, however
they are nested. A walk over the elements divides the outermost sequence only. Main statement: it
visits the leaves exactly if no element of that sequence is itself a sequence.
-/

namespace Dialect.Expr

mutual

/-- The parts of an expression that are neither sequences nor in parentheses. -/
def leaves : Expr → List Expr
  | .paren inner _ => leaves inner
  | .sequence items _ => leavesOf items
  | e => [e]

def leavesOf : List Expr → List Expr
  | [] => []
  | e :: es => leaves e ++ leavesOf es

end

/-- A comma sequence, perhaps in parentheses. -/
def isSequence (e : Expr) : Bool :=
  match e.unparen with
  | .sequence _ _ => true
  | _ => false

/-- A comma sequence with another one as an element. -/
def nestsSequences (e : Expr) : Bool :=
  match e.unparen with
  | .sequence items _ => items.any isSequence
  | _ => false

/-- A visit of the element without the parentheses around it. -/
def Visit.bare (v : Visit) : Visit :=
  { v with element := v.element.unparen }

/-! ## Numbers -/

@[simp]
theorem length_numbered (es : List Expr) : (numbered es).length = es.length :=
  List.length_mapIdx

@[simp]
theorem getElem_numbered {es : List Expr} {i : Nat} (inside : i < (numbered es).length) :
    (numbered es)[i] = ⟨es.get ⟨i, length_numbered es ▸ inside⟩, i + 1, es.length⟩ :=
  List.getElem_mapIdx

theorem element_numbered (es : List Expr) : (numbered es).map (·.element) = es :=
  List.ext_getElem (by simp) (by simp)

/-- The numbers go up from one. -/
theorem index_numbered (es : List Expr) :
    (numbered es).map (·.index) = List.range' 1 es.length :=
  List.ext_getElem (by simp) (by simp [Nat.add_comm])

theorem total_numbered {es : List Expr} {v : Visit} (visited : v ∈ numbered es) :
    v.total = es.length := by
  obtain ⟨i, inside, rfl⟩ := List.mem_iff_getElem.mp visited
  simp

theorem numbered_inj {es fs : List Expr} : numbered es = numbered fs ↔ es = fs := by
  refine ⟨fun same => ?_, fun same => same ▸ rfl⟩
  rw [← element_numbered es, same, element_numbered]

theorem bare_numbered (es : List Expr) :
    (numbered es).map Visit.bare = numbered (es.map unparen) :=
  List.ext_getElem (by simp) (by simp [Visit.bare])

/-! ## Leaves -/

theorem leavesOf_eq_flatMap (es : List Expr) : leavesOf es = es.flatMap leaves := by
  induction es with
  | nil => rfl
  | cons e es ih => rw [leavesOf, ih, List.flatMap_cons]

theorem leaves_unparen (e : Expr) : e.unparen.leaves = e.leaves :=
  apply_unparen (fun inner place => by rw [leaves]) e

theorem leaves_of_not_isSequence {e : Expr} (single : e.isSequence = false) :
    e.leaves = [e.unparen] := by
  induction e using operand_induction with
  | step e ih =>
    cases e with
    | paren inner place =>
      rw [leaves, unparen]
      exact ih inner (by simp [operands]) single
    | sequence items place => cases single
    | _ => rfl

/-- A leaf is in no parentheses and is no sequence. -/
theorem single_of_mem_leaves {e : Expr} :
    ∀ x ∈ e.leaves, x.unparen = x ∧ x.isSequence = false := by
  induction e using operand_induction with
  | step e ih =>
    intro x leaf
    cases e with
    | paren inner place => exact ih inner (by simp [operands]) x leaf
    | sequence items place =>
      rw [leaves, leavesOf_eq_flatMap] at leaf
      obtain ⟨item, inside, leaf⟩ := List.mem_flatMap.mp leaf
      exact ih item inside x leaf
    | _ =>
      obtain rfl := List.mem_singleton.mp leaf
      exact ⟨rfl, rfl⟩

/-- The leaves of the elements, one after the other, are the leaves of the whole. -/
theorem flatMap_leaves_elements (e : Expr) : e.elements.flatMap leaves = e.leaves := by
  rw [← leaves_unparen e, elements]
  cases e.unparen with
  | sequence items place => exact (leavesOf_eq_flatMap items).symm
  | _ => exact List.flatMap_singleton leaves _

theorem unparen_ne_paren (e inner : Expr) (place : Span) : e.unparen ≠ .paren inner place := by
  induction e using operand_induction with
  | step e ih =>
    cases e with
    | paren first _ => exact ih first (by simp [operands])
    | _ => exact fun same => Expr.noConfusion same

theorem isSequence_unparen (e : Expr) : e.unparen.isSequence = e.isSequence :=
  apply_unparen (fun _ _ => rfl) e

theorem nestsSequences_eq_false_iff {e : Expr} :
    e.nestsSequences = false ↔ ∀ x ∈ e.elements, x.isSequence = false := by
  unfold nestsSequences elements
  cases bare : e.unparen with
  | sequence items place => simp
  | paren inner place => exact absurd bare (unparen_ne_paren e inner place)
  | _ => simp [isSequence, unparen]

/-! ## The walk -/

theorem forall_visits {P : Expr → Prop} {e : Expr} :
    (∀ v ∈ e.visits, P v.element) ↔ ∀ x ∈ e.elements, P x := by
  rw [← element_numbered e.elements, List.forall_mem_map]
  rfl

/-- Without the parentheses around them, the elements are the leaves unless one of them is divided
once more. -/
theorem unparen_elements_eq_leaves_iff {e : Expr} :
    e.elements.map unparen = e.leaves ↔ e.nestsSequences = false := by
  rw [nestsSequences_eq_false_iff]
  constructor
  · intro same x element
    have leaf : x.unparen ∈ e.leaves := same ▸ List.mem_map_of_mem element
    rw [← isSequence_unparen]
    exact (single_of_mem_leaves x.unparen leaf).2
  · intro single
    calc e.elements.map unparen
      _ = e.elements.flatMap fun x => [x.unparen] := List.map_eq_flatMap
      _ = e.elements.flatMap leaves :=
        List.flatMap_congr fun x element => (leaves_of_not_isSequence (single x element)).symm
      _ = e.leaves := flatMap_leaves_elements e

theorem elements_eq_leaves_iff {e : Expr} :
    e.elements = e.leaves ↔
      e.nestsSequences = false ∧ ∀ x ∈ e.elements, x.unparen = x := by
  constructor
  · intro same
    have single : ∀ x ∈ e.elements, x.unparen = x ∧ x.isSequence = false :=
      same ▸ single_of_mem_leaves
    exact ⟨nestsSequences_eq_false_iff.mpr fun x element => (single x element).2,
      fun x element => (single x element).1⟩
  · rintro ⟨flat, bare⟩
    rw [← unparen_elements_eq_leaves_iff.mpr flat, List.map_congr_left bare, List.map_id']

/-- The leaves are visited, each once and in order, exactly if no sequence stands as an element in
another. In any case the visits are numbered from one to their number, and the leaves of what is
visited are all leaves. -/
theorem visits_leaves_iff (e : Expr) :
    (e.visits.map Visit.bare = numbered e.leaves ↔ e.nestsSequences = false) ∧
      (e.visits = numbered e.leaves ↔
        e.nestsSequences = false ∧ ∀ v ∈ e.visits, v.element.unparen = v.element) ∧
      ((∀ v ∈ e.visits, v.element.isSequence = false) ↔ e.nestsSequences = false) ∧
      (e.visits.map (·.index) = List.range' 1 e.visits.length ∧
        ∀ v ∈ e.visits, v.total = e.visits.length) ∧
      e.visits.flatMap (·.element.leaves) = e.leaves := by
  refine ⟨?_, ?_, ?_, ⟨?_, fun v visited => ?_⟩, ?_⟩
  · rw [visits, bare_numbered, numbered_inj, unparen_elements_eq_leaves_iff]
  · rw [forall_visits (P := fun x => x.unparen = x), visits, numbered_inj, elements_eq_leaves_iff]
  · rw [forall_visits (P := fun x => x.isSequence = false), nestsSequences_eq_false_iff]
  · rw [visits, index_numbered, length_numbered]
  · rw [visits, length_numbered]
    exact total_numbered visited
  · rw [visits, ← List.flatMap_map, element_numbered, flatMap_leaves_elements]

/-- A sequence in parentheses is visited as one element of two, though there are three leaves. -/
theorem nested_sequence_visited_whole :
    let inner : Expr := .sequence [.ident "b" ⟨4, 5⟩, .ident "c" ⟨7, 8⟩] ⟨4, 8⟩
    let e : Expr := .sequence [.ident "a" ⟨0, 1⟩, .paren inner ⟨3, 9⟩] ⟨0, 9⟩
    e.visits.map (fun v => (v.element.span, v.index, v.total)) = [(⟨0, 1⟩, 1, 2), (⟨3, 9⟩, 2, 2)] ∧
      (numbered e.leaves).map (fun v => (v.element.span, v.index, v.total)) =
        [(⟨0, 1⟩, 1, 3), (⟨4, 5⟩, 2, 3), (⟨7, 8⟩, 3, 3)] ∧
      e.visits.map Visit.bare ≠ numbered e.leaves := by
  intro inner e
  refine ⟨by decide, by decide, fun same => ?_⟩
  have lengths := congrArg List.length same
  revert lengths
  decide

end Dialect.Expr
