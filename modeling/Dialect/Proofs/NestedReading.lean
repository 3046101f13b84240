import Dialect.Parsing.Program
import Dialect.Program.Reading
import Dialect.Proofs.Nesting

/-!
# Programs of nested trees

Reading follows the tree: a part of a construct is read off a child in its own role, and the parts
of a list off siblings in their order. Main statement: the program of a nested tree is nested, and
all its spans are those of nodes of the tree.
-/

namespace Dialect.Reading

open Dialect.Span (InOrder)
open Dialect.Tree (allNodes)

variable (source : List Char)

/-- Every node below the siblings can be read, as a statement and as an expression. -/
structure Readable (ts : List Tree) : Prop where
  ordered : InOrder (ts.map Tree.span)
  wellNested : ∀ n ∈ allNodes ts, n.WellNested
  stmt : ∀ n ∈ allNodes ts,
    n.Gives [(stmt source n).span] (stmt source n).Nested (stmt source n).spans
  expr : ∀ n ∈ allNodes ts,
    n.Gives [(expr source n).span] (expr source n).Nested (expr source n).spans

variable {source} {t : Tree} {ts : List Tree} {role : Role}

theorem mem_allNodes_self (member : t ∈ ts) : t ∈ allNodes ts :=
  Tree.mem_allNodes.mpr ⟨t, member, t.mem_nodes_self⟩

namespace Readable

theorem tail (readable : Readable source (t :: ts)) : Readable source ts := by
  have below : ∀ n ∈ allNodes ts, n ∈ allNodes (t :: ts) := fun n member => by
    rw [allNodes]
    exact List.mem_append_right _ member
  exact ⟨(List.pairwise_cons.mp readable.ordered).2,
    fun n member => readable.wellNested n (below n member),
    fun n member => readable.stmt n (below n member),
    fun n member => readable.expr n (below n member)⟩

theorem children (readable : Readable source ts) (member : t ∈ ts) :
    Readable source t.children := by
  have below : ∀ n ∈ allNodes t.children, n ∈ allNodes ts := fun n deeper =>
    Tree.mem_allNodes.mpr ⟨t, member, Tree.mem_nodes_of_allNodes deeper⟩
  exact ⟨(readable.wellNested t (mem_allNodes_self member)).ordered t t.mem_nodes_self,
    fun n deeper => readable.wellNested n (below n deeper),
    fun n deeper => readable.stmt n (below n deeper),
    fun n deeper => readable.expr n (below n deeper)⟩

/-- What the children of a sibling give, the sibling gives. -/
theorem lift (readable : Readable source ts) {giving giving' : Tree → Prop}
    {spans all : List Span} {nested : Prop} (member : t ∈ ts) (chosen : giving t)
    (inner : Give t.children giving' spans nested all) : Give ts giving spans nested all :=
  .of_mem (inner.parent (readable.wellNested t (mem_allNodes_self member))) member chosen

end Readable

/-- Any sibling. -/
def anyOf (_ : Tree) : Prop := True

/-! ### Lists -/

theorem give_stmts (readable : Readable source ts) :
    Give ts anyOf ((stmts source ts).map Stmt.span) (Stmt.AllNested (stmts source ts))
      (Stmt.allSpans (stmts source ts)) := by
  induction ts with
  | nil => exact .nothing trivial
  | cons t ts ih =>
    have rest := ih readable.tail
    rw [stmts]
    split
    · have first := readable.stmt t (mem_allNodes_self List.mem_cons_self)
      exact .cons readable.ordered first trivial rest
    · exact rest.skip

theorem give_exprs (readable : Readable source ts) :
    Give ts anyOf ((exprs source ts).map Expr.span) (Expr.AllNested (exprs source ts))
      (Expr.allSpans (exprs source ts)) := by
  induction ts with
  | nil => exact .nothing trivial
  | cons t ts ih =>
    have rest := ih readable.tail
    rw [exprs]
    split
    · have first := readable.expr t (mem_allNodes_self List.mem_cons_self)
      exact .cons readable.ordered first trivial rest
    · exact rest.skip

/-! ### Single parts -/

/-- A search along siblings finds what one of them gives. -/
theorem exists_of_search {α : Type} {f : List Tree → Option α} {g : Tree → Option α}
    {p : Tree → Prop} [DecidablePred p] (none : f [] = none)
    (step : ∀ t ts, f (t :: ts) = if p t then g t else f ts) {a : α} (found : f ts = some a) :
    ∃ t ∈ ts, p t ∧ g t = some a := by
  induction ts with
  | nil =>
    rw [none] at found
    cases found
  | cons t ts ih =>
    rw [step] at found
    split at found
    · next chosen => exact ⟨t, List.mem_cons_self, chosen, found⟩
    · obtain ⟨t', member, chosen, given⟩ := ih found
      exact ⟨t', List.mem_cons_of_mem t member, chosen, given⟩

theorem give_stmtIn? (readable : Readable source ts) {s : Stmt}
    (found : stmtIn? source role ts = some s) :
    Give ts (inRole role) [s.span] s.Nested s.spans := by
  obtain ⟨t, member, chosen, given⟩ := exists_of_search (g := fun t => some (stmt source t))
    (stmtIn?.eq_1 source role) (stmtIn?.eq_2 source role) found
  obtain rfl := Option.some.inj given
  exact .of_mem (readable.stmt t (mem_allNodes_self member)) member chosen

theorem give_exprIn? (readable : Readable source ts) {e : Expr}
    (found : exprIn? source role ts = some e) :
    Give ts (inRole role) [e.span] e.Nested e.spans := by
  obtain ⟨t, member, chosen, given⟩ := exists_of_search (g := fun t => some (expr source t))
    (exprIn?.eq_1 source role) (exprIn?.eq_2 source role) found
  obtain rfl := Option.some.inj given
  exact .of_mem (readable.expr t (mem_allNodes_self member)) member chosen

theorem give_firstStmt? (readable : Readable source ts) {s : Stmt}
    (found : firstStmt? source ts = some s) : Give ts anyOf [s.span] s.Nested s.spans := by
  obtain ⟨t, member, -, given⟩ := exists_of_search (g := fun t => some (stmt source t))
    (firstStmt?.eq_1 source) (firstStmt?.eq_2 source) found
  obtain rfl := Option.some.inj given
  exact .of_mem (readable.stmt t (mem_allNodes_self member)) member trivial

theorem give_firstExpr? (readable : Readable source ts) {e : Expr}
    (found : firstExpr? source ts = some e) : Give ts anyOf [e.span] e.Nested e.spans := by
  obtain ⟨t, member, -, given⟩ := exists_of_search (g := fun t => some (expr source t))
    (firstExpr?.eq_1 source) (firstExpr?.eq_2 source) found
  obtain rfl := Option.some.inj given
  exact .of_mem (readable.expr t (mem_allNodes_self member)) member trivial

/-- A statement list of a single statement. -/
theorem give_single {giving : Tree → Prop} {s : Stmt}
    (give : Give ts giving [s.span] s.Nested s.spans) :
    Give ts giving ([s].map Stmt.span) (Stmt.AllNested [s]) (Stmt.allSpans [s]) := by
  have all : Stmt.allSpans [s] = s.spans := List.append_nil _
  rw [all]
  exact give.imp fun nested => ⟨nested, trivial⟩

theorem give_bodyIn? (readable : Readable source ts) {body : List Stmt}
    (found : bodyIn? source ts = some body) :
    Give ts (inRole .body) (body.map Stmt.span) (Stmt.AllNested body) (Stmt.allSpans body) := by
  obtain ⟨t, member, chosen, given⟩ := exists_of_search (p := fun t => t.role = .body)
    (g := fun t => if t.kind.treated = .statementBlock then some (stmts source t.children)
      else some [stmt source t])
    (bodyIn?.eq_1 source) (fun t ts => by cases t; exact bodyIn?.eq_2 ..) found
  split at given
  · obtain rfl := Option.some.inj given
    exact readable.lift member chosen (give_stmts (readable.children member))
  · obtain rfl := Option.some.inj given
    exact give_single (.of_mem (readable.stmt t (mem_allNodes_self member)) member chosen)

theorem give_functionBodyIn? (readable : Readable source ts) {body : FunctionBody}
    (found : functionBodyIn? source ts = some body) :
    Give ts (inRole .body) body.parts body.Nested body.spans := by
  obtain ⟨t, member, chosen, given⟩ := exists_of_search (p := fun t => t.role = .body)
    (g := fun t => if t.kind.treated = .statementBlock then some (.block (stmts source t.children))
      else some (.value (expr source t)))
    (functionBodyIn?.eq_1 source) (fun t ts => by cases t; exact functionBodyIn?.eq_2 ..) found
  split at given
  · obtain rfl := Option.some.inj given
    exact readable.lift member chosen (give_stmts (readable.children member))
  · obtain rfl := Option.some.inj given
    exact .of_mem (readable.expr t (mem_allNodes_self member)) member chosen

theorem give_argsIn? (readable : Readable source ts) {args : List Expr}
    (found : argsIn? source ts = some args) :
    Give ts (inRole .arguments) (args.map Expr.span) (Expr.AllNested args)
      (Expr.allSpans args) := by
  obtain ⟨t, member, chosen, given⟩ := exists_of_search (p := fun t => t.role = .arguments)
    (g := fun t => some (exprs source t.children))
    (argsIn?.eq_1 source) (fun t ts => by cases t; exact argsIn?.eq_2 ..) found
  obtain rfl := Option.some.inj given
  exact readable.lift member chosen (give_exprs (readable.children member))

theorem give_alternateIn? (readable : Readable source ts) {s : Stmt}
    (found : alternateIn? source ts = some s) :
    Give ts (inRole .alternative) [s.span] s.Nested s.spans := by
  obtain ⟨t, member, chosen, given⟩ := exists_of_search (p := fun t => t.role = .alternative)
    (g := fun t => firstStmt? source t.children)
    (alternateIn?.eq_1 source) (fun t ts => by cases t; exact alternateIn?.eq_2 ..) found
  exact readable.lift member chosen (give_firstStmt? (readable.children member) given)

/-- The test of a loop, read off its node. -/
def testOf? (source : List Char) (t : Tree) : Option Expr :=
  if t.kind.treated = .emptyStatement ∨ t.kind.treated = .other ";" then none
  else if t.kind.treated = .expressionStatement then firstExpr? source t.children
  else some (expr source t)

theorem loopTest?_cons (t : Tree) (ts : List Tree) :
    loopTest? source (t :: ts) =
      if t.role = .condition then testOf? source t else loopTest? source ts := by
  cases t with
  | node role kind span children =>
    rw [loopTest?.eq_def, testOf?, Tree.role, Tree.kind, Tree.children]
    dsimp only
    split
    · split
      · next empty => rw [if_pos (.inl empty)]
      · next semicolon => rw [if_pos (.inr semicolon)]
      · next wrapped => rw [wrapped, if_neg (by decide), if_pos rfl]
      · next empty semicolon wrapped =>
        rw [if_neg (not_or.mpr ⟨empty, semicolon⟩), if_neg wrapped]
    · rfl

theorem give_loopTest? (readable : Readable source ts) {e : Expr}
    (found : loopTest? source ts = some e) :
    Give ts (inRole .condition) [e.span] e.Nested e.spans := by
  obtain ⟨t, member, chosen, given⟩ := exists_of_search (loopTest?.eq_1 source) loopTest?_cons found
  rw [testOf?] at given
  split at given
  · cases given
  · split at given
    · exact readable.lift member chosen (give_firstExpr? (readable.children member) given)
    · obtain rfl := Option.some.inj given
      exact .of_mem (readable.expr t (mem_allNodes_self member)) member chosen

theorem gives_exprStmt {e : Expr} (gives : t.Gives [e.span] e.Nested e.spans) :
    t.Gives [t.span] (Stmt.Nested (.expr e t.span)) (Stmt.spans (.expr e t.span)) := by
  refine Tree.gives_own ⟨⟨gives.inside, List.pairwise_singleton _ _⟩, gives.nested⟩ gives.known

/-- The first part of a loop's head, read off its node. -/
def initOf? (source : List Char) (t : Tree) : Option Stmt :=
  if t.kind.treated = .emptyStatement ∨ t.kind.treated = .other ";" then none
  else if t.kind.treated = .lexicalDeclaration ∨ t.kind.treated = .variableDeclaration ∨
    t.kind.treated = .expressionStatement then some (stmt source t)
  else some (.expr (expr source t) t.span)

theorem loopInit?_cons (t : Tree) (ts : List Tree) :
    loopInit? source (t :: ts) =
      if t.role = .initializer then initOf? source t else loopInit? source ts := by
  cases t with
  | node role kind span children =>
    rw [loopInit?.eq_def, initOf?, Tree.role, Tree.kind, Tree.span]
    dsimp only
    split
    · split
      · next empty => rw [if_pos (.inl empty)]
      · next semicolon => rw [if_pos (.inr semicolon)]
      · next declared => rw [declared, if_neg (by decide), if_pos (by decide)]
      · next declared => rw [declared, if_neg (by decide), if_pos (by decide)]
      · next declared => rw [declared, if_neg (by decide), if_pos (by decide)]
      · next empty semicolon lexical declared expression =>
        rw [if_neg (not_or.mpr ⟨empty, semicolon⟩),
          if_neg fun kinds => kinds.elim lexical (·.elim declared expression)]
    · rfl

theorem give_loopInit? (readable : Readable source ts) {s : Stmt}
    (found : loopInit? source ts = some s) :
    Give ts (inRole .initializer) [s.span] s.Nested s.spans := by
  obtain ⟨t, member, chosen, given⟩ := exists_of_search (loopInit?.eq_1 source) loopInit?_cons found
  have below := mem_allNodes_self member
  rw [initOf?] at given
  split at given
  · cases given
  · split at given
    · obtain rfl := Option.some.inj given
      exact .of_mem (readable.stmt t below) member chosen
    · obtain rfl := Option.some.inj given
      exact .of_mem (gives_exprStmt (readable.expr t below)) member chosen

/-! ### Parameters -/

theorem mem_of_find? {children : List Tree} (found : Tree.find? role children = some t) :
    t ∈ children ∧ t.role = role :=
  ⟨List.mem_of_find?_eq_some found, by simpa using List.find?_some found⟩

theorem exists_of_paramIn? {children : List Tree} {q : Param}
    (found : paramIn? source role children = some q) :
    ∃ child ∈ children, param? source child = some q := by
  obtain ⟨child, member, -, given⟩ :=
    exists_of_search (paramIn?.eq_1 source role) (paramIn?.eq_2 source role) found
  exact ⟨child, member, given⟩

/-- The default of a parameter is a node below that of the parameter. -/
theorem exists_of_mem_param? {q : Param} {s : Span} (found : param? source t = some q)
    (default : s ∈ q.spans) : ∃ n ∈ allNodes t.children, n.span = s := by
  induction t using Tree.node_induction generalizing q with
  | step t ih =>
    rcases t with ⟨role, kind, span, children⟩
    rw [Tree.children] at ih ⊢
    have inner {role : Role} {p : Param} (found : paramIn? source role children = some p)
        (default : s ∈ p.spans) : ∃ n ∈ allNodes children, n.span = s := by
      obtain ⟨child, member, given⟩ := exists_of_paramIn? found
      obtain ⟨n, below, same⟩ := ih child (mem_allNodes_self member) given default
      exact ⟨n, Tree.mem_allNodes.mpr ⟨child, member, Tree.mem_nodes_of_allNodes below⟩, same⟩
    have own {role : Role} {value : Tree} (found : Tree.find? role children = some value)
        (default : s ∈ [value.span]) : ∃ n ∈ allNodes children, n.span = s :=
      ⟨value, mem_allNodes_self (mem_of_find? found).1, (List.mem_singleton.mp default).symm⟩
    rw [param?.eq_def] at found
    dsimp only at found
    split at found
    case h_1 | h_2 =>
      split at found
      · cases found
      · obtain ⟨p, pattern, rfl⟩ := Option.map_eq_some_iff.mp found
        split at default
        · next value given => exact own given default
        · exact inner pattern default
    case h_3 =>
      obtain ⟨p, pattern, rfl⟩ := Option.map_eq_some_iff.mp found
      rw [Param.spans] at default
      cases given : Tree.find? .right children with
      | none => simp [given] at default
      | some value => exact own given (by simpa [given] using default)
    case h_4 =>
      obtain ⟨t, -, rfl⟩ := Option.map_eq_some_iff.mp found
      cases default
    case h_5 =>
      obtain rfl := Option.some.inj found
      cases default

theorem gives_param {q : Param} (wellNested : t.WellNested) (found : param? source t = some q) :
    t.Gives q.spans True q.spans where
  ordered := by
    rw [Param.spans]
    cases q.value with
    | none => exact List.Pairwise.nil
    | some value => exact List.pairwise_singleton _ _
  inside s default := by
    obtain ⟨n, below, rfl⟩ := exists_of_mem_param? found default
    exact wellNested.inside_of_mem n (Tree.mem_nodes_of_allNodes below)
  nested := trivial
  known s default := by
    obtain ⟨n, below, same⟩ := exists_of_mem_param? found default
    exact ⟨n, Tree.mem_nodes_of_allNodes below, same⟩

theorem give_paramList (readable : Readable source ts) :
    Give ts anyOf (((Tree.parts ts).filterMap (param? source)).flatMap Param.spans) True
      (((Tree.parts ts).filterMap (param? source)).flatMap Param.spans) := by
  induction ts with
  | nil => exact .nothing trivial
  | cons t ts ih =>
    have rest := ih readable.tail
    by_cases isPart : t.isPart
    · have kept : Tree.parts (t :: ts) = t :: Tree.parts ts := List.filter_cons_of_pos isPart
      rw [kept]
      cases found : param? source t with
      | none =>
        rw [List.filterMap_cons_none found]
        exact rest.skip
      | some q =>
        rw [List.filterMap_cons_some found, List.flatMap_cons]
        have below := mem_allNodes_self (List.mem_cons_self (a := t) (l := ts))
        have first := gives_param (readable.wellNested t below) found
        exact (Give.cons readable.ordered first trivial rest).imp fun _ => trivial
    · have dropped : Tree.parts (t :: ts) = Tree.parts ts := List.filter_cons_of_neg isPart
      rw [dropped]
      exact rest.skip

theorem give_params (readable : Readable source ts) :
    Give ts (inRole .parameters) ((params source ts).flatMap Param.spans) True
      ((params source ts).flatMap Param.spans) := by
  rw [params]
  split
  · next list found =>
    obtain ⟨member, chosen⟩ := mem_of_find? found
    exact readable.lift member chosen (give_paramList (readable.children member))
  · exact .nothing trivial

theorem give_literalParams (readable : Readable source ts) :
    Give ts (inRole .parameters) ((literalParams source ts).flatMap Param.spans) True
      ((literalParams source ts).flatMap Param.spans) := by
  rw [literalParams]
  split
  · exact give_params readable
  · exact .nothing trivial
  · exact .nothing trivial

/-! ### Constructs -/

theorem give_optionStmt {giving : Tree → Prop} {o : Option Stmt}
    (given : ∀ s, o = some s → Give ts giving [s.span] s.Nested s.spans) :
    Give ts giving (o.toList.map Stmt.span) (Stmt.OptionNested o) (Stmt.optionSpans o) := by
  cases o with
  | none => exact .nothing trivial
  | some s => exact given s rfl

theorem give_optionExpr {giving : Tree → Prop} {o : Option Expr}
    (given : ∀ e, o = some e → Give ts giving [e.span] e.Nested e.spans) :
    Give ts giving (o.toList.map Expr.span) (Expr.OptionNested o) (Expr.optionSpans o) := by
  cases o with
  | none => exact .nothing trivial
  | some e => exact given e rfl

/-- A list of parts, with its order. -/
theorem give_listed {giving : Tree → Prop} {spans all : List Span} {nested : Prop}
    (give : Give ts giving spans nested all) : Give ts giving spans (InOrder spans ∧ nested) all :=
  { give with nested := ⟨give.ordered, give.nested⟩ }

/-- Whatever has parameters and a body of statements. -/
theorem gives_method (readable : Readable source t.children) (wellNested : t.WellNested)
    {body : List Stmt} (found : bodyIn? source t.children = some body) :
    t.Gives [t.span]
      (t.span.Holds ((params source t.children).flatMap Param.spans ++ body.map Stmt.span) ∧
        InOrder (body.map Stmt.span) ∧ Stmt.AllNested body)
      (t.span :: ((params source t.children).flatMap Param.spans ++ Stmt.allSpans body)) := by
  have parts := (give_params readable).parts.and wellNested
    (give_listed (give_bodyIn? readable found)) (by decide)
  exact (parts.own wellNested).imp fun ⟨holds, _, nested⟩ => ⟨holds, nested⟩

theorem give_declarators (readable : Readable source ts) :
    Give ts anyOf ((declarators source ts).map Declarator.span)
      (Declarator.AllNested (declarators source ts))
      (Declarator.allSpans (declarators source ts)) := by
  induction ts with
  | nil => exact .nothing trivial
  | cons t ts ih =>
    have rest := ih readable.tail
    have wellNested := readable.wellNested t (mem_allNodes_self List.mem_cons_self)
    have inner := readable.children List.mem_cons_self
    rcases t with ⟨role, kind, span, children⟩
    rw [declarators]
    split
    · have value := give_optionExpr fun e (found : exprIn? source .value children = some e) =>
        give_exprIn? inner found
      exact .cons readable.ordered (value.parts.own wellNested) trivial rest
    · exact rest.skip

theorem gives_member? (readable : Readable source t.children) (wellNested : t.WellNested)
    {m : Member} (found : member? source t = some m) : t.Gives [m.span] m.Nested m.spans := by
  have field (name : String) : t.Gives [t.span] (Member.Nested (.field name t.span))
      (Member.spans (.field name t.span)) :=
    Tree.gives_own trivial (List.forall_mem_nil _)
  rcases t with ⟨role, kind, span, children⟩
  rw [member?.eq_def] at found
  dsimp only at found
  split at found
  case h_1 =>
    split at found
    · next named given =>
      have method := gives_method readable wellNested given
      split at found
      · obtain rfl := Option.some.inj found
        exact method
      · obtain rfl := Option.some.inj found
        exact method
    · obtain rfl := Option.some.inj found
      exact field _
  case h_2 | h_3 | h_4 | h_5 => cases found
  case h_6 | h_7 | h_8 =>
    obtain rfl := Option.some.inj found
    exact field _

theorem give_members (readable : Readable source ts) :
    Give ts anyOf ((members source ts).map Member.span) (Member.AllNested (members source ts))
      (Member.allSpans (members source ts)) := by
  induction ts with
  | nil => exact .nothing trivial
  | cons t ts ih =>
    have rest := ih readable.tail
    have wellNested := readable.wellNested t (mem_allNodes_self List.mem_cons_self)
    have inner := readable.children List.mem_cons_self
    rw [members]
    split
    · cases found : member? source t with
      | none => exact rest.skip
      | some m =>
        exact .cons readable.ordered (gives_member? inner wellNested found) trivial rest
    · exact rest.skip

theorem give_membersIn? (readable : Readable source ts) {ms : List Member}
    (found : membersIn? source ts = some ms) :
    Give ts (inRole .body) (ms.map Member.span) (Member.AllNested ms) (Member.allSpans ms) := by
  obtain ⟨t, member, chosen, given⟩ := exists_of_search (p := fun t => t.role = .body)
    (g := fun t => some (members source t.children))
    (membersIn?.eq_1 source) (fun t ts => by cases t; exact membersIn?.eq_2 ..) found
  obtain rfl := Option.some.inj given
  exact readable.lift member chosen (give_members (readable.children member))

/-- The superclass is a node of the class. -/
theorem exists_of_superclass? {children : List Tree} {s : Span}
    (found : superclass? children = some s) : ∃ n ∈ allNodes children, n.span = s := by
  have child {ts : List Tree} {n : Tree} (first : (Tree.parts ts).head? = some n) : n ∈ ts :=
    (List.mem_filter.mp (List.mem_of_mem_head? first)).1
  rw [superclass?] at found
  obtain ⟨heritage, named, found⟩ := Option.bind_eq_some_iff.mp found
  obtain ⟨first, head, found⟩ := Option.bind_eq_some_iff.mp found
  have among := (List.mem_filter.mp (List.mem_of_find?_eq_some named)).1
  have reached {n : Tree} (below : n ∈ first.nodes) : n ∈ allNodes children := by
    have deeper := Tree.mem_allNodes.mpr ⟨first, child head, below⟩
    exact Tree.mem_allNodes.mpr ⟨heritage, among, Tree.mem_nodes_of_allNodes deeper⟩
  split at found
  · obtain ⟨value, given, found⟩ := Option.bind_eq_some_iff.mp found
    obtain rfl := Option.some.inj found
    have member : value ∈ first.children := by
      rcases Option.or_eq_some_iff.mp given with inRole | ⟨-, only⟩
      · exact (mem_of_find? inRole).1
      · exact child only
    exact ⟨value, reached (Tree.mem_nodes_of_allNodes (mem_allNodes_self member)), rfl⟩
  · obtain rfl := Option.some.inj found
    exact ⟨first, reached first.mem_nodes_self, rfl⟩

/-- Members in the order of the class, and a superclass inside it. -/
theorem gives_class (readable : Readable source t.children) (wellNested : t.WellNested)
    {ms : List Member} (found : membersIn? source t.children = some ms) (name : String) :
    t.Gives [t.span] (Stmt.Nested (.classDecl name (superclass? t.children) ms t.span))
      (Stmt.spans (.classDecl name (superclass? t.children) ms t.span)) := by
  have give := give_membersIn? readable found
  have heritage : ∀ s ∈ (superclass? t.children).toList, ∃ n ∈ t.nodes, n.span = s := by
    intro s named
    obtain ⟨n, below, same⟩ := exists_of_superclass? (Option.mem_toList.mp named)
    exact ⟨n, Tree.mem_nodes_of_allNodes below, same⟩
  have held : t.span.Holds (superclass? t.children).toList := by
    refine ⟨fun s named => ?_, ?_⟩
    · obtain ⟨n, below, rfl⟩ := heritage s named
      exact wellNested.inside_of_mem n below
    · cases superclass? t.children with
      | none => exact List.Pairwise.nil
      | some s => exact List.pairwise_singleton _ _
  exact Tree.gives_own ⟨give.holds wellNested, give.ordered, held, give.nested⟩
    (List.forall_mem_append.mpr ⟨heritage, (give.parent wellNested).known⟩)

/-! ### Sequences -/

theorem allNested_append {xs ys : List Expr} :
    Expr.AllNested (xs ++ ys) ↔ Expr.AllNested xs ∧ Expr.AllNested ys := by
  induction xs with
  | nil => simp [Expr.AllNested]
  | cons x xs ih => simp [Expr.AllNested, ih, and_assoc]

theorem allSpans_append (xs ys : List Expr) :
    Expr.allSpans (xs ++ ys) = Expr.allSpans xs ++ Expr.allSpans ys := by
  induction xs with
  | nil => simp [Expr.allSpans]
  | cons x xs ih => simp [Expr.allSpans, ih]

/-- A sequence among the elements gives its own elements. -/
theorem give_elements_of (readable : Readable source ts)
    (opened : ∀ t ∈ ts, Give t.children anyOf ((elements source t.children).map Expr.span)
      (Expr.AllNested (elements source t.children)) (Expr.allSpans (elements source t.children))) :
    Give ts anyOf ((elements source ts).map Expr.span) (Expr.AllNested (elements source ts))
      (Expr.allSpans (elements source ts)) := by
  induction ts with
  | nil => exact .nothing trivial
  | cons t ts ih =>
    have rest := ih readable.tail fun t member => opened t (List.mem_cons_of_mem _ member)
    have below := mem_allNodes_self (List.mem_cons_self (a := t) (l := ts))
    have first := (opened t List.mem_cons_self).parent (readable.wellNested t below)
    have whole := readable.expr t below
    rcases t with ⟨role, kind, span, children⟩
    rw [elements]
    split
    · split
      · rw [List.map_append, allSpans_append, allNested_append]
        exact .cons readable.ordered first trivial rest
      · exact .cons readable.ordered whole trivial rest
    · exact rest.skip

theorem give_elements (readable : Readable source t.children) :
    Give t.children anyOf ((elements source t.children).map Expr.span)
      (Expr.AllNested (elements source t.children))
      (Expr.allSpans (elements source t.children)) := by
  induction t using Tree.node_induction with
  | step t ih =>
    -- Sequences may be nested, so the induction is on the node and not on its children.
    exact give_elements_of readable fun child member =>
      ih child (mem_allNodes_self member) (readable.children member)

/-! ### Nodes -/

/-- A construct without parts. -/
theorem gives_leaf : t.Gives [t.span] True [t.span] :=
  Tree.gives_own trivial (List.forall_mem_nil _)

/-- A callee and its arguments. -/
theorem gives_call (readable : Readable source t.children) (wellNested : t.WellNested)
    {role : Role} {callee : Expr} {args : List Expr} (other : .arguments ∉ [role])
    (found : exprIn? source role t.children = some callee)
    (given : Give t.children (inRole .arguments) (args.map Expr.span) (Expr.AllNested args)
      (Expr.allSpans args)) :
    t.Gives [t.span]
      (t.span.Holds (callee.span :: args.map Expr.span) ∧ InOrder (args.map Expr.span) ∧
        callee.Nested ∧ Expr.AllNested args)
      (t.span :: (callee.spans ++ Expr.allSpans args)) := by
  have parts := (give_exprIn? readable found).parts.and wellNested (give_listed given) other
  exact (parts.own wellNested).imp fun ⟨holds, nested, ordered, all⟩ =>
    ⟨holds, ordered, nested, all⟩

/-- Parameters and body of a function literal. -/
theorem gives_literal (readable : Readable source t.children) (wellNested : t.WellNested)
    {body : FunctionBody} (found : functionBodyIn? source t.children = some body) :
    t.Gives [t.span] (Expr.Nested (.function (literalParams source t.children) body t.span))
      (Expr.spans (.function (literalParams source t.children) body t.span)) := by
  have parts := (give_literalParams readable).parts.and wellNested
    (give_listed (give_functionBodyIn? readable found)) (by decide)
  exact (parts.own wellNested).imp fun ⟨holds, _, nested⟩ => ⟨holds, nested⟩

theorem gives_expr (readable : Readable source t.children) (wellNested : t.WellNested) :
    t.Gives [(expr source t).span] (expr source t).Nested (expr source t).spans := by
  have leaf := gives_leaf (t := t)
  have operands {e e' : Expr} (left : exprIn? source .left t.children = some e)
      (right : exprIn? source .right t.children = some e') :=
    ((give_exprIn? readable left).parts.and wellNested (give_exprIn? readable right)
      (by decide)).own wellNested
  have operand {role : Role} {e : Expr} (found : exprIn? source role t.children = some e) :=
    (give_exprIn? readable found).parts.own wellNested
  have sequence := (give_elements readable).own wellNested
  rcases t with ⟨role, kind, span, children⟩
  rw [expr.eq_def]
  dsimp only
  split
  case h_14 =>
    split
    · next callee args found given =>
      split
      · exact gives_call readable wellNested (by decide) found (give_argsIn? readable given)
      · exact leaf
    · exact leaf
  case h_15 =>
    split
    · next callee found =>
      refine gives_call readable wellNested (by decide) found ?_
      cases given : argsIn? source children with
      | none => exact .nothing trivial
      | some args => exact give_argsIn? readable given
    · exact leaf
  case h_16 | h_17 =>
    split
    · next left right => exact operands left right
    · exact leaf
  case h_18 =>
    split
    · next found _ => exact operand found
    · exact leaf
  case h_19 =>
    split
    · next left _ right => exact operands left right
    · exact leaf
  case h_20 =>
    split
    · next _ found => exact operand found
    · exact leaf
  case h_21 => exact sequence
  case h_22 =>
    split
    · next found _ => exact operand found
    · exact leaf
  case h_23 =>
    split
    · next found =>
      exact ((give_firstExpr? readable found).own wellNested).imp fun ⟨holds, _, nested⟩ =>
        ⟨holds, nested⟩
    · exact leaf
  case h_24 | h_25 | h_26 =>
    split
    · next found => exact gives_literal readable wellNested found
    · exact leaf
  all_goals exact leaf

theorem gives_import : t.Gives [(importStmt source t.span t.children).span]
    (importStmt source t.span t.children).Nested (importStmt source t.span t.children).spans := by
  rw [importStmt]
  split
  · exact gives_leaf
  · split
    · exact gives_leaf
    · exact gives_leaf

theorem gives_if (readable : Readable source t.children) (wellNested : t.WellNested) {test : Expr}
    {consequent : Stmt} (tested : exprIn? source .condition t.children = some test)
    (chosen : stmtIn? source .consequence t.children = some consequent) :
    t.Gives [t.span]
      (Stmt.Nested (.ifElse test consequent (alternateIn? source t.children) t.span))
      (Stmt.spans (.ifElse test consequent (alternateIn? source t.children) t.span)) := by
  have parts := ((give_exprIn? readable tested).parts.and wellNested (give_stmtIn? readable chosen)
    (by decide)).and wellNested (give_optionStmt fun _ => give_alternateIn? readable) (by decide)
  exact (parts.own wellNested).imp fun ⟨holds, ⟨test, consequent⟩, alternate⟩ =>
    ⟨holds, test, consequent, alternate⟩

theorem gives_for (readable : Readable source t.children) (wellNested : t.WellNested) {body : Stmt}
    (found : stmtIn? source .body t.children = some body) :
    t.Gives [t.span]
      (Stmt.Nested (.forLoop (loopInit? source t.children) (loopTest? source t.children)
        (exprIn? source .increment t.children) body t.span))
      (Stmt.spans (.forLoop (loopInit? source t.children) (loopTest? source t.children)
        (exprIn? source .increment t.children) body t.span)) := by
  have init := give_optionStmt fun _ => give_loopInit? readable
  have test := give_optionExpr fun _ => give_loopTest? readable
  have update := give_optionExpr fun e
      (found : exprIn? source .increment t.children = some e) => give_exprIn? readable found
  have parts := ((init.parts.and wellNested test (by decide)).and wellNested update
    (by decide)).and wellNested (give_stmtIn? readable found) (by decide)
  exact (parts.own wellNested).imp fun ⟨holds, ⟨⟨init, test⟩, update⟩, body⟩ =>
    ⟨holds, init, test, update, body⟩

theorem gives_stmt (readable : Readable source t.children) (wellNested : t.WellNested) :
    t.Gives [(stmt source t).span] (stmt source t).Nested (stmt source t).spans := by
  have leaf := gives_leaf (t := t)
  have headed {role : Role} {head : Expr} {body : Stmt}
      (found : exprIn? source role t.children = some head)
      (given : stmtIn? source .body t.children = some body) (other : .body ∉ [role]) :=
    ((give_exprIn? readable found).parts.and wellNested (give_stmtIn? readable given) other).own
      wellNested
  rcases t with ⟨role, kind, span, children⟩
  rw [stmt.eq_def]
  dsimp only
  split
  · exact leaf
  · split
    case h_8 => exact (give_stmts readable).own wellNested
    case h_9 =>
      split
      · next found => exact gives_exprStmt ((give_firstExpr? readable found).parent wellNested)
      · exact leaf
    case h_10 | h_11 =>
      split
      · next found => exact gives_method readable wellNested found
      · exact leaf
    case h_13 | h_14 => exact (give_declarators readable).own wellNested
    case h_15 | h_16 =>
      split
      · next found => exact gives_class readable wellNested found _
      · exact leaf
    case h_17 => exact gives_import
    case h_18 =>
      split
      · next tested chosen => exact gives_if readable wellNested tested chosen
      · exact leaf
    case h_19 =>
      split
      · next found => exact gives_for readable wellNested found
      · exact leaf
    case h_20 =>
      split
      · next items body => exact headed items body (by decide)
      · exact leaf
    case h_21 =>
      split
      · next tested body => exact headed tested body (by decide)
      · exact leaf
    case h_24 =>
      -- An exported declaration is read in place of its node, which is longer.
      split
      · next found => exact (give_stmtIn? readable found).parent wellNested
      · exact leaf
    all_goals exact leaf

theorem readable_children (t : Tree) (wellNested : t.WellNested) : Readable source t.children := by
  induction t using Tree.node_induction with
  | step t ih =>
    have below := fun n member => wellNested.of_mem (Tree.mem_nodes_of_allNodes (n := n) member)
    have inner := fun n member => ih n member (below n member)
    exact ⟨wellNested.ordered t t.mem_nodes_self, below,
      fun n member => gives_stmt (inner n member) (below n member),
      fun n member => gives_expr (inner n member) (below n member)⟩

end Dialect.Reading

namespace Dialect

/-- The program of a nested tree is nested, and its spans are those of nodes. -/
theorem Program.ofTree_nested (source : List Char) (t : Tree) (wellNested : t.WellNested) :
    (Program.ofTree source t).Nested t.span ∧
      ∀ s ∈ (Program.ofTree source t).spans, ∃ n ∈ t.nodes, n.span = s := by
  have readable : Reading.Readable source t.children := Reading.readable_children t wellNested
  have give := Reading.give_stmts readable
  exact ⟨⟨give.holds wellNested, give.ordered, give.nested⟩, (give.parent wellNested).known⟩

/-- A comment and an exported class with a superclass, whose method has a default, a loop and a
sequence. -/
theorem Program.ofTree_nested_class :
    let source := ("/* A */ export class A extends B \x7b m(x = 1) \x7b for (let i = 0; i < x; i++) " ++
      "\x7b f((i, g(x, i)), i); \x7d if (x) return; else h(); \x7d \x7d").toList
    let tree : Tree := .node .plain .program ⟨0, Text.byteLength source⟩
      (.node .plain .comment ⟨0, 7⟩ [] :: (Tree.parse source).children)
    tree.WellNested ∧ (Program.ofTree source tree).Nested tree.span ∧
      (Program.ofTree source tree).spans.length = 32 ∧
      ∀ s ∈ (Program.ofTree source tree).spans, ∃ n ∈ tree.nodes, n.span = s := by
  intro source tree
  have wellNested : tree.WellNested := by decide +kernel
  obtain ⟨nested, known⟩ := Program.ofTree_nested source tree wellNested
  exact ⟨wellNested, nested, by decide +kernel, known⟩

end Dialect
