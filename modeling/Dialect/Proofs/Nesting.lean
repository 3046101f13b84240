import Dialect.Proofs.Shift
import Dialect.Tree
import Mathlib.Data.List.Pairwise

/-!
# Nested trees and programs

In a syntax tree every node lies inside its parent, and siblings lie one behind the other. A program
is nested alike: the parts of a construct lie inside it, none over another, and those of a list one
behind the other. What different children of a node give lies apart, so the parts of a construct are
found role by role.
-/

namespace Dialect

/-! ## Spans -/

namespace Span

def Inside (s t : Span) : Prop :=
  t.start ≤ s.start ∧ s.stop ≤ t.stop

def Before (s t : Span) : Prop :=
  s.stop ≤ t.start

def Apart (s t : Span) : Prop :=
  s.Before t ∨ t.Before s

instance (s t : Span) : Decidable (s.Inside t) :=
  inferInstanceAs (Decidable (_ ∧ _))

instance (s t : Span) : Decidable (s.Before t) :=
  inferInstanceAs (Decidable (_ ≤ _))

/-- The parts lie in the span, none over another. -/
structure Holds (s : Span) (parts : List Span) : Prop where
  inside : ∀ p ∈ parts, p.Inside s
  apart : parts.Pairwise Apart

def InOrder (spans : List Span) : Prop :=
  spans.Pairwise Before

theorem Inside.refl (s : Span) : s.Inside s :=
  ⟨Nat.le_refl _, Nat.le_refl _⟩

theorem Inside.trans {s t u : Span} (inner : s.Inside t) (outer : t.Inside u) : s.Inside u :=
  ⟨Nat.le_trans outer.1 inner.1, Nat.le_trans inner.2 outer.2⟩

theorem Before.inside {s t s' t' : Span} (before : s.Before t) (left : s'.Inside s)
    (right : t'.Inside t) : s'.Before t' :=
  Nat.le_trans left.2 (Nat.le_trans before right.1)

theorem Apart.symm {s t : Span} (apart : s.Apart t) : t.Apart s :=
  Or.symm apart

theorem Apart.inside {s t s' t' : Span} (apart : s.Apart t) (left : s'.Inside s)
    (right : t'.Inside t) : s'.Apart t' :=
  apart.imp (·.inside left right) (·.inside right left)

end Span

open Dialect.Span (InOrder)

/-! ## Trees -/

namespace Tree

mutual

def nodes : Tree → List Tree
  | node role kind span children => node role kind span children :: allNodes children

def allNodes : List Tree → List Tree
  | [] => []
  | t :: ts => t.nodes ++ allNodes ts

end

/-- Every node lies inside its parent, and siblings lie one behind the other. -/
structure WellNested (t : Tree) : Prop where
  inside : ∀ n ∈ t.nodes, ∀ child ∈ n.children, child.span.Inside n.span
  ordered : ∀ n ∈ t.nodes, InOrder (n.children.map span)

instance (spans : List Span) : Decidable (InOrder spans) :=
  inferInstanceAs (Decidable (spans.Pairwise _))

instance (t : Tree) : Decidable t.WellNested :=
  decidable_of_iff
    ((∀ n ∈ t.nodes, ∀ child ∈ n.children, child.span.Inside n.span) ∧
      ∀ n ∈ t.nodes, InOrder (n.children.map span))
    ⟨fun h => ⟨h.1, h.2⟩, fun h => ⟨h.inside, h.ordered⟩⟩

theorem nodes_eq (t : Tree) : t.nodes = t :: allNodes t.children := by
  cases t
  rw [nodes, children]

theorem mem_nodes_self (t : Tree) : t ∈ t.nodes := by
  rw [nodes_eq]
  exact List.mem_cons_self

theorem mem_allNodes {ts : List Tree} {n : Tree} : n ∈ allNodes ts ↔ ∃ t ∈ ts, n ∈ t.nodes := by
  induction ts with
  | nil => simp [allNodes]
  | cons t ts ih => simp [allNodes, ih]

theorem mem_nodes_of_allNodes {t n : Tree} (below : n ∈ allNodes t.children) : n ∈ t.nodes := by
  rw [nodes_eq]
  exact List.mem_cons_of_mem t below

mutual

theorem forall_nodes {P : Tree → Prop} (step : ∀ t, (∀ n ∈ allNodes t.children, P n) → P t)
    (t : Tree) : ∀ n ∈ t.nodes, P n := by
  match t with
  | node role kind span children =>
    have below := forall_allNodes step children
    rw [nodes]
    exact List.forall_mem_cons.mpr ⟨step (node role kind span children) below, below⟩

theorem forall_allNodes {P : Tree → Prop} (step : ∀ t, (∀ n ∈ allNodes t.children, P n) → P t)
    (ts : List Tree) : ∀ n ∈ allNodes ts, P n := by
  match ts with
  | [] => exact List.forall_mem_nil _
  | t :: ts =>
    rw [allNodes]
    exact List.forall_mem_append.mpr ⟨forall_nodes step t, forall_allNodes step ts⟩

end

/-- What holds of a node whenever it holds of all nodes below it, holds of every node. -/
theorem node_induction {P : Tree → Prop} (step : ∀ t, (∀ n ∈ allNodes t.children, P n) → P t)
    (t : Tree) : P t :=
  forall_nodes step t t t.mem_nodes_self

theorem nodes_subset {t : Tree} : ∀ n ∈ t.nodes, n.nodes ⊆ t.nodes := by
  induction t using node_induction with
  | step t ih =>
    intro n member
    rw [nodes_eq] at member
    rcases List.mem_cons.mp member with rfl | below
    · exact List.Subset.refl _
    · obtain ⟨child, among, member⟩ := mem_allNodes.mp below
      intro m deeper
      have reached := mem_allNodes.mpr ⟨child, among, child.mem_nodes_self⟩
      have within := ih child reached n member deeper
      exact mem_nodes_of_allNodes (mem_allNodes.mpr ⟨child, among, within⟩)

theorem WellNested.of_mem {t n : Tree} (nested : t.WellNested) (member : n ∈ t.nodes) :
    n.WellNested where
  inside m deeper := nested.inside m (nodes_subset n member deeper)
  ordered m deeper := nested.ordered m (nodes_subset n member deeper)

theorem WellNested.inside_of_mem {t : Tree} (nested : t.WellNested) :
    ∀ n ∈ t.nodes, n.span.Inside t.span := by
  induction t using node_induction with
  | step t ih =>
    intro n member
    rw [nodes_eq] at member
    rcases List.mem_cons.mp member with rfl | below
    · exact .refl _
    · obtain ⟨child, among, member⟩ := mem_allNodes.mp below
      have reached := mem_allNodes.mpr ⟨child, among, child.mem_nodes_self⟩
      have childNested := nested.of_mem (mem_nodes_of_allNodes reached)
      exact (ih child reached childNested n member).trans
        (nested.inside t t.mem_nodes_self child among)

end Tree

/-! ## Programs -/

def Member.span : Member → Span
  | .initializer _ _ _ s | .method _ _ _ s | .field _ s => s

/-- The statements of a function, or its value. -/
def FunctionBody.parts : FunctionBody → List Span
  | .block body => body.map Stmt.span
  | .value e => [e.span]

mutual

/-- The parts of the expression lie inside it, none over another, the elements of a list in their
order, and so do the parts of its parts. -/
def Expr.Nested : Expr → Prop
  | .ident _ _ | .literal _ _ | .template _ | .array _ | .object _ | .other _ _ => True
  | .call callee args s | .construct callee args s =>
    s.Holds (callee.span :: args.map Expr.span) ∧ InOrder (args.map Expr.span) ∧ callee.Nested ∧
      Expr.AllNested args
  | .assign left _ right s | .binary left _ right s =>
    s.Holds [left.span, right.span] ∧ left.Nested ∧ right.Nested
  | .update inner _ s | .unary _ inner s | .member inner _ s | .paren inner s =>
    s.Holds [inner.span] ∧ inner.Nested
  | .sequence items s =>
    s.Holds (items.map Expr.span) ∧ InOrder (items.map Expr.span) ∧ Expr.AllNested items
  | .function params body s =>
    s.Holds (params.flatMap Param.spans ++ body.parts) ∧ InOrder body.parts ∧ body.Nested

def Expr.AllNested : List Expr → Prop
  | [] => True
  | e :: es => e.Nested ∧ Expr.AllNested es

def Expr.OptionNested : Option Expr → Prop
  | none => True
  | some e => e.Nested

def FunctionBody.Nested : FunctionBody → Prop
  | .block body => Stmt.AllNested body
  | .value value => value.Nested

def Stmt.Nested : Stmt → Prop
  | .block body s =>
    s.Holds (body.map Stmt.span) ∧ InOrder (body.map Stmt.span) ∧ Stmt.AllNested body
  | .function _ params body s =>
    s.Holds (params.flatMap Param.spans ++ body.map Stmt.span) ∧ InOrder (body.map Stmt.span) ∧
      Stmt.AllNested body
  | .expr value s => s.Holds [value.span] ∧ value.Nested
  | .variableDecl _ declarators s =>
    s.Holds (declarators.map Declarator.span) ∧ InOrder (declarators.map Declarator.span) ∧
      Declarator.AllNested declarators
  | .classDecl _ superclass members s =>
    s.Holds (members.map Member.span) ∧ InOrder (members.map Member.span) ∧
      s.Holds superclass.toList ∧ Member.AllNested members
  | .ifElse test consequent alternate s =>
    s.Holds (test.span :: consequent.span :: alternate.toList.map Stmt.span) ∧ test.Nested ∧
      consequent.Nested ∧ Stmt.OptionNested alternate
  | .forLoop init test update body s =>
    s.Holds (init.toList.map Stmt.span ++ test.toList.map Expr.span ++
        update.toList.map Expr.span ++ [body.span]) ∧
      Stmt.OptionNested init ∧ Expr.OptionNested test ∧ Expr.OptionNested update ∧ body.Nested
  | .forIn _ right body _ s => s.Holds [right.span, body.span] ∧ right.Nested ∧ body.Nested
  | .whileLoop test body s => s.Holds [test.span, body.span] ∧ test.Nested ∧ body.Nested
  | .returnStmt _ | .importDecl _ _ _ | .breakStmt _ | .continueStmt _ | .erased _
  | .unsupported _ _ => True

def Stmt.AllNested : List Stmt → Prop
  | [] => True
  | s :: ss => s.Nested ∧ Stmt.AllNested ss

def Stmt.OptionNested : Option Stmt → Prop
  | none => True
  | some s => s.Nested

def Declarator.Nested : Declarator → Prop
  | .mk _ init s => s.Holds (init.toList.map Expr.span) ∧ Expr.OptionNested init

def Declarator.AllNested : List Declarator → Prop
  | [] => True
  | d :: ds => d.Nested ∧ Declarator.AllNested ds

def Member.Nested : Member → Prop
  | .initializer _ params body s | .method _ params body s =>
    s.Holds (params.flatMap Param.spans ++ body.map Stmt.span) ∧ InOrder (body.map Stmt.span) ∧
      Stmt.AllNested body
  | .field _ _ => True

def Member.AllNested : List Member → Prop
  | [] => True
  | m :: ms => m.Nested ∧ Member.AllNested ms

end

/-- The statements lie inside a span, one behind the other. -/
def Program.Nested (s : Span) (p : Program) : Prop :=
  s.Holds (p.body.map Stmt.span) ∧ InOrder (p.body.map Stmt.span) ∧ Stmt.AllNested p.body

/-! ## What is read off nodes -/

open Dialect.Tree (allNodes)

/-- What has these outer spans is read off a node: it lies inside the node, it is nested, and all
its spans are those of nodes. -/
structure Tree.Gives (t : Tree) (spans : List Span) (nested : Prop) (all : List Span) : Prop where
  ordered : InOrder spans
  inside : ∀ s ∈ spans, s.Inside t.span
  nested : nested
  known : ∀ s ∈ all, ∃ n ∈ t.nodes, n.span = s

/-- The same of siblings, of which only some give spans. -/
structure Give (siblings : List Tree) (giving : Tree → Prop) (spans : List Span) (nested : Prop)
    (all : List Span) : Prop where
  ordered : InOrder spans
  inside : ∀ s ∈ spans, ∃ t ∈ siblings, giving t ∧ s.Inside t.span
  nested : nested
  known : ∀ s ∈ all, ∃ n ∈ allNodes siblings, n.span = s

section

variable {t : Tree} {ts : List Tree} {giving : Tree → Prop} {spans spans' all all' : List Span}
  {nested nested' : Prop}

theorem Tree.Gives.imp (gives : t.Gives spans nested all) (h : nested → nested') :
    t.Gives spans nested' all :=
  { gives with nested := h gives.nested }

theorem Give.imp (give : Give ts giving spans nested all) (h : nested → nested') :
    Give ts giving spans nested' all :=
  { give with nested := h give.nested }

/-- A single node of the siblings gives it. -/
theorem Give.of_mem (gives : t.Gives spans nested all) (member : t ∈ ts) (chosen : giving t) :
    Give ts giving spans nested all where
  ordered := gives.ordered
  inside s outer := ⟨t, member, chosen, gives.inside s outer⟩
  nested := gives.nested
  known s inner := by
    obtain ⟨n, below, same⟩ := gives.known s inner
    exact ⟨n, Tree.mem_allNodes.mpr ⟨t, member, below⟩, same⟩

theorem Give.nothing (holds : nested) : Give ts giving [] nested [] where
  ordered := List.Pairwise.nil
  inside := List.forall_mem_nil _
  nested := holds
  known := List.forall_mem_nil _

/-- What later siblings give comes behind what an earlier one gives. -/
theorem Give.cons (ordered : InOrder ((t :: ts).map Tree.span)) (first : t.Gives spans nested all)
    (chosen : giving t) (rest : Give ts giving spans' nested' all') :
    Give (t :: ts) giving (spans ++ spans') (nested ∧ nested') (all ++ all') where
  ordered := by
    refine List.pairwise_append.mpr ⟨first.ordered, rest.ordered, fun s outer s' outer' => ?_⟩
    obtain ⟨t', member, -, inside⟩ := rest.inside s' outer'
    have before := (List.pairwise_cons.mp ordered).1 t'.span (List.mem_map_of_mem member)
    exact before.inside (first.inside s outer) inside
  inside := by
    refine List.forall_mem_append.mpr ⟨fun s outer => ?_, fun s outer => ?_⟩
    · exact ⟨t, List.mem_cons_self, chosen, first.inside s outer⟩
    · obtain ⟨t', member, chosen', inside⟩ := rest.inside s outer
      exact ⟨t', List.mem_cons_of_mem t member, chosen', inside⟩
  nested := ⟨first.nested, rest.nested⟩
  known := by
    rw [Tree.allNodes]
    refine List.forall_mem_append.mpr ⟨fun s inner => ?_, fun s inner => ?_⟩
    · obtain ⟨n, below, same⟩ := first.known s inner
      exact ⟨n, List.mem_append_left _ below, same⟩
    · obtain ⟨n, below, same⟩ := rest.known s inner
      exact ⟨n, List.mem_append_right _ below, same⟩

theorem Give.skip (rest : Give ts giving spans nested all) :
    Give (t :: ts) giving spans nested all where
  ordered := rest.ordered
  inside s outer := by
    obtain ⟨t', member, chosen, inside⟩ := rest.inside s outer
    exact ⟨t', List.mem_cons_of_mem t member, chosen, inside⟩
  nested := rest.nested
  known s inner := by
    obtain ⟨n, below, same⟩ := rest.known s inner
    exact ⟨n, by rw [Tree.allNodes]; exact List.mem_append_right _ below, same⟩

/-- What the children of a node give, the node gives. -/
theorem Give.parent (give : Give t.children giving spans nested all) (wellNested : t.WellNested) :
    t.Gives spans nested all where
  ordered := give.ordered
  inside s outer := by
    obtain ⟨child, member, -, inside⟩ := give.inside s outer
    exact inside.trans (wellNested.inside t t.mem_nodes_self child member)
  nested := give.nested
  known s inner := by
    obtain ⟨n, below, same⟩ := give.known s inner
    exact ⟨n, Tree.mem_nodes_of_allNodes below, same⟩

theorem Give.holds (give : Give t.children giving spans nested all) (wellNested : t.WellNested) :
    t.span.Holds spans where
  inside := (give.parent wellNested).inside
  apart := give.ordered.imp .inl

/-- A construct over a whole node. -/
theorem Tree.gives_own (holds : nested) (known : ∀ s ∈ all, ∃ n ∈ t.nodes, n.span = s) :
    t.Gives [t.span] nested (t.span :: all) where
  ordered := List.pairwise_singleton _ _
  inside := List.forall_mem_singleton.mpr (.refl _)
  nested := holds
  known := List.forall_mem_cons.mpr ⟨⟨t, t.mem_nodes_self, rfl⟩, known⟩

/-- A construct over a whole node, with the parts that the children give. -/
theorem Give.own (give : Give t.children giving spans nested all) (wellNested : t.WellNested) :
    t.Gives [t.span] (t.span.Holds spans ∧ InOrder spans ∧ nested) (t.span :: all) :=
  Tree.gives_own ⟨give.holds wellNested, give.ordered, give.nested⟩ (give.parent wellNested).known

/-! ### Parts in different roles -/

def inRole (role : Role) (t : Tree) : Prop :=
  t.role = role

/-- The children in these roles give the parts of a construct. -/
structure Tree.Parts (t : Tree) (roles : List Role) (spans : List Span) (nested : Prop)
    (all : List Span) : Prop where
  apart : spans.Pairwise Span.Apart
  inside : ∀ s ∈ spans, ∃ child ∈ t.children, child.role ∈ roles ∧ s.Inside child.span
  nested : nested
  known : ∀ s ∈ all, ∃ n ∈ t.nodes, n.span = s

variable {role : Role} {roles : List Role}

theorem Give.parts (give : Give t.children (inRole role) spans nested all) :
    t.Parts [role] spans nested all where
  apart := give.ordered.imp .inl
  inside s outer := by
    obtain ⟨child, member, chosen, inside⟩ := give.inside s outer
    exact ⟨child, member, List.mem_singleton.mpr chosen, inside⟩
  nested := give.nested
  known s inner := by
    obtain ⟨n, below, same⟩ := give.known s inner
    exact ⟨n, Tree.mem_nodes_of_allNodes below, same⟩

theorem Tree.WellNested.apart {a b : Tree} (wellNested : t.WellNested) (left : a ∈ t.children)
    (right : b ∈ t.children) (different : a ≠ b) : a.span.Apart b.span := by
  have ordered := List.pairwise_map.mp (wellNested.ordered t t.mem_nodes_self)
  have apart : t.children.Pairwise fun a b => a.span.Apart b.span := ordered.imp .inl
  have symmetric : Std.Symm fun a b : Tree => a.span.Apart b.span := ⟨fun _ _ => Span.Apart.symm⟩
  exact apart.forall left right different

/-- A part in another role lies apart from the others. -/
theorem Tree.Parts.and (parts : t.Parts roles spans nested all) (wellNested : t.WellNested)
    (give : Give t.children (inRole role) spans' nested' all') (other : role ∉ roles) :
    t.Parts (role :: roles) (spans ++ spans') (nested ∧ nested') (all ++ all') where
  apart := by
    refine List.pairwise_append.mpr ⟨parts.apart, give.parts.apart, fun s outer s' outer' => ?_⟩
    obtain ⟨a, left, chosen, inside⟩ := parts.inside s outer
    obtain ⟨b, right, chosen', inside'⟩ := give.inside s' outer'
    -- Children in different roles are different, so they lie apart, and so does what is in them.
    have different : a ≠ b := fun same => other (chosen' ▸ same ▸ chosen)
    exact (wellNested.apart left right different).inside inside inside'
  inside := by
    refine List.forall_mem_append.mpr ⟨fun s outer => ?_, fun s outer => ?_⟩
    · obtain ⟨child, member, chosen, inside⟩ := parts.inside s outer
      exact ⟨child, member, List.mem_cons_of_mem role chosen, inside⟩
    · obtain ⟨child, member, chosen, inside⟩ := give.inside s outer
      exact ⟨child, member, chosen ▸ List.mem_cons_self, inside⟩
  nested := ⟨parts.nested, give.nested⟩
  known := List.forall_mem_append.mpr ⟨parts.known, give.parts.known⟩

/-- A construct over a whole node, with its parts. -/
theorem Tree.Parts.own (parts : t.Parts roles spans nested all) (wellNested : t.WellNested) :
    t.Gives [t.span] (t.span.Holds spans ∧ nested) (t.span :: all) := by
  refine Tree.gives_own ⟨⟨fun s outer => ?_, parts.apart⟩, parts.nested⟩ parts.known
  obtain ⟨child, member, -, inside⟩ := parts.inside s outer
  exact inside.trans (wellNested.inside t t.mem_nodes_self child member)

end

end Dialect
