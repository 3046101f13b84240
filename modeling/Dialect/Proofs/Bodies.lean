import Dialect.Proofs.Indentation
import Dialect.Proofs.Walk

/-!
# Lines below headers

Where blocks have no braces, a block that would be empty gets the placeholder. The exception is the
block of a resource whose function gives a value: the value is written as a statement, and where that
gives no line the header stands alone. Main statement: every header is directly followed by a line one
level deeper exactly when the walk reaches no such block.
-/

namespace Dialect

namespace Outline

variable {α : Type} (opens : α → Bool)

mutual

/-- Some item that opens a block has nothing in it. -/
def HasBare : Outline α → Prop
  | .mk item body => (opens item = true ∧ body = []) ∨ AnyBare body

def AnyBare : List (Outline α) → Prop
  | [] => False
  | t :: ts => t.HasBare ∨ AnyBare ts

end

mutual

instance decidableHasBare : (t : Outline α) → Decidable (t.HasBare opens)
  | .mk item body =>
    have := decidableAnyBare body
    inferInstanceAs (Decidable ((opens item = true ∧ body = []) ∨ AnyBare opens body))

instance decidableAnyBare : (ts : List (Outline α)) → Decidable (AnyBare opens ts)
  | [] => inferInstanceAs (Decidable False)
  | t :: ts =>
    have := decidableHasBare t
    have := decidableAnyBare ts
    inferInstanceAs (Decidable (t.HasBare opens ∨ AnyBare opens ts))

end

theorem anyBare_iff (ts : List (Outline α)) : AnyBare opens ts ↔ ∃ t ∈ ts, t.HasBare opens := by
  induction ts with
  | nil => simp [AnyBare]
  | cons t ts ih => rw [AnyBare, ih, List.exists_mem_cons_iff]

@[simp]
theorem anyBare_append (ts us : List (Outline α)) :
    AnyBare opens (ts ++ us) ↔ AnyBare opens ts ∨ AnyBare opens us := by
  simp only [anyBare_iff, List.mem_append, or_and_right, exists_or]

/-- Every line that opens a block is directly followed by a line one level deeper. -/
def Followed : List (Nat × α) → Prop
  | [] => True
  | (depth, item) :: rest =>
    (opens item = true → ∃ next later, rest = (depth + 1, next) :: later) ∧ Followed rest

theorem followed_iff (ls : List (Nat × α)) :
    Followed opens ls ↔
      ∀ before depth item after, ls = before ++ (depth, item) :: after → opens item = true →
        ∃ next later, after = (depth + 1, next) :: later := by
  induction ls with
  | nil => simp [Followed]
  | cons l ls ih =>
    obtain ⟨depth, item⟩ := l
    rw [Followed, ih]
    constructor
    · rintro ⟨first, others⟩ before level entry after same opened
      cases before with
      | nil =>
        obtain ⟨⟨rfl, rfl⟩, rfl⟩ : (depth = level ∧ item = entry) ∧ ls = after := by
          simpa using same
        exact first opened
      | cons l before =>
        obtain ⟨-, rest⟩ : (depth, item) = l ∧ ls = before ++ (level, entry) :: after := by
          simpa using same
        exact others before level entry after rest opened
    · intro all
      refine ⟨all [] depth item ls rfl, fun before level entry after same => ?_⟩
      exact all ((depth, item) :: before) level entry after (by rw [same, List.cons_append])

/-- Before lines that are less deep, the first line of a block stands at the block's depth unless the
block is empty. -/
theorem levelsOf_starts_iff {depth : Nat} {after : List (Nat × α)}
    (shallow : ∀ l ∈ after.head?, l.1 < depth) (ts : List (Outline α)) :
    (∃ next later, levelsOf depth ts ++ after = (depth, next) :: later) ↔ ts ≠ [] := by
  cases ts with
  | nil =>
    refine iff_of_false ?_ (by simp)
    rintro ⟨next, later, same⟩
    have level : depth < depth := shallow (depth, next) (by simp_all [levelsOf])
    omega
  | cons t ts =>
    cases t with
    | mk item body => simp [levelsOf, levels]

mutual

/-- The lines of an outline and some that are not deeper: a header is followed by its block, so only
one without a block is not followed. -/
theorem followed_levels {depth : Nat} {after : List (Nat × α)}
    (shallow : ∀ l ∈ after.head?, l.1 ≤ depth) (t : Outline α) :
    Followed opens (t.levels depth ++ after) ↔ ¬t.HasBare opens ∧ Followed opens after := by
  match t with
  | .mk item body =>
    have deeper : ∀ l ∈ after.head?, l.1 < depth + 1 :=
      fun l first => Nat.lt_succ_of_le (shallow l first)
    have block := followed_levelsOf (fun l first => Nat.le_of_lt (deeper l first)) body
    rw [levels, List.cons_append, Followed, levelsOf_starts_iff deeper body, block, HasBare]
    tauto

theorem followed_levelsOf {depth : Nat} {after : List (Nat × α)}
    (shallow : ∀ l ∈ after.head?, l.1 ≤ depth) (ts : List (Outline α)) :
    Followed opens (levelsOf depth ts ++ after) ↔ ¬AnyBare opens ts ∧ Followed opens after := by
  match ts with
  | [] => simp [levelsOf, AnyBare]
  | t :: ts =>
    have next : ∀ l ∈ (levelsOf depth ts ++ after).head?, l.1 ≤ depth := by
      cases ts with
      | nil => exact shallow
      | cons u us =>
        cases u with
        | mk item body => simp [levelsOf, levels]
    rw [levelsOf, List.append_assoc, followed_levels next t, followed_levelsOf shallow ts, AnyBare]
    tauto

end

end Outline

/-- Blocks have no braces, and an empty one gets a placeholder. -/
structure Grammar.Indents (g : Grammar) : Prop where
  braceless : g.file.useBraces = false
  filler : g.file.emptyBlock ≠ ""

/-- The line opens a block. -/
def RowKind.opens : RowKind → Bool
  | .header | .alternate => true
  | .simple | .placeholder | .closing => false

namespace Layout

variable {g : Grammar}

/-- A header stands alone. -/
def HasBare (layout : Layout g) : Prop :=
  Outline.AnyBare (fun row => row.kind.opens) layout

instance (layout : Layout g) : Decidable (HasBare layout) :=
  inferInstanceAs (Decidable (Outline.AnyBare _ layout))

@[simp]
theorem not_hasBare_nil : ¬HasBare ([] : Layout g) := nofun

@[simp]
theorem hasBare_append (a b : Layout g) : HasBare (a ++ b) ↔ HasBare a ∨ HasBare b :=
  Outline.anyBare_append _ a b

theorem hasBare_cons (row : Row g) (body rest : Layout g) :
    HasBare (.mk row body :: rest) ↔
      (row.kind.opens = true ∧ body = []) ∨ HasBare body ∨ HasBare rest := by
  simp only [HasBare, Outline.AnyBare, Outline.HasBare, or_assoc]

theorem closing_eq_nil (style : g.Indents) : closing (g := g) = [] := by
  simp [closing, style.braceless]

/-- A filled block is not empty. -/
theorem filled_ne_nil (style : g.Indents) (body : Layout g) : filled body ≠ [] := by
  unfold filled
  split
  · simp
  · next given =>
    intro empty
    subst empty
    simp [style.braceless, style.filler] at given

theorem hasBare_filled (body : Layout g) : HasBare (filled body) ↔ HasBare body := by
  unfold filled
  split
  · next given =>
    have empty : body = [] := by simp_all
    simp [empty, hasBare_cons, RowKind.opens]
  · rfl

/-- With the placeholder only the headers inside a block can stand alone. -/
theorem hasBare_filled_cons (style : g.Indents) (row : Row g) (body rest : Layout g) :
    HasBare (.mk row (filled body) :: rest) ↔ HasBare body ∨ HasBare rest := by
  rw [hasBare_cons, hasBare_filled]
  simp [filled_ne_nil style]

theorem hasBare_block (style : g.Indents) (row : Row g) (body : Layout g) :
    HasBare (block row body) ↔ HasBare body := by
  rw [block, hasBare_filled_cons style, closing_eq_nil style]
  simp

end Layout

/-- A function literal, through parentheses. -/
def Expr.isFunction (e : Expr) : Bool :=
  match e.unparen with
  | .function _ _ _ => true
  | _ => false

mutual

/-- An expression that is written as no line when it is a statement. -/
def Expr.isUnwritten (g : Grammar) : Expr → Bool
  | .call callee args _ =>
    Support.formOf g callee = some .scopedResource && !args[2]?.any Expr.isFunction
  | .sequence items _ => Expr.allUnwritten g items
  | .paren inner _ => inner.isUnwritten g
  | .assign _ _ _ _ | .update _ _ _ => false
  | .ident _ _ | .literal _ _ | .template _ | .construct _ _ _ | .binary _ _ _ _ | .unary _ _ _
  | .member _ _ _ | .function _ _ _ | .array _ | .object _ | .other _ _ => true

def Expr.allUnwritten (g : Grammar) : List Expr → Bool
  | [] => true
  | e :: es => e.isUnwritten g && Expr.allUnwritten g es

end

namespace Context

variable (c : Context)

/-- An expression statement with a resource block whose function gives a value that is written as no
line. -/
inductive Hollow : Expr → Prop where
  | paren {inner span} : Hollow inner → Hollow (.paren inner span)
  | item {items span e} : e ∈ items → Hollow e → Hollow (.sequence items span)
  | here {callee args body span e} :
      Support.formOf c.grammar callee = some .scopedResource → args[2]? = some body →
        body.literalValue? = some e → e.isUnwritten c.grammar = true →
          Hollow (.call callee args span)
  | value {callee args body span e} :
      Support.formOf c.grammar callee = some .scopedResource → args[2]? = some body →
        body.literalValue? = some e → Hollow e → Hollow (.call callee args span)

def IsHollow (s : Stmt) : Prop :=
  ∃ value span, s = .expr value span ∧ c.Hollow value

/-- The value that a function in the place of a resource block gives leaves the block empty, or holds
one that is. -/
def HollowBody (body : Expr) : Prop :=
  ∃ e, body.literalValue? = some e ∧ (e.isUnwritten c.grammar = true ∨ c.Hollow e)

theorem hollow_paren_iff {inner : Expr} {span : Span} :
    c.Hollow (.paren inner span) ↔ c.Hollow inner :=
  ⟨fun (.paren hollow) => hollow, .paren⟩

theorem hollow_sequence_iff {items : List Expr} {span : Span} :
    c.Hollow (.sequence items span) ↔ ∃ e ∈ items, c.Hollow e :=
  ⟨fun (.item member hollow) => ⟨_, member, hollow⟩, fun ⟨_, member, hollow⟩ => .item member hollow⟩

theorem hollow_call_iff {callee : Expr} {args : List Expr} {span : Span} :
    c.Hollow (.call callee args span) ↔
      Support.formOf c.grammar callee = some .scopedResource ∧
      ∃ body, args[2]? = some body ∧ c.HollowBody body := by
  constructor
  · intro hollow
    cases hollow with
    | here form third shape unwritten => exact ⟨form, _, third, _, shape, .inl unwritten⟩
    | value form third shape inner => exact ⟨form, _, third, _, shape, .inr inner⟩
  · rintro ⟨form, body, third, e, shape, unwritten | inner⟩
    · exact .here form third shape unwritten
    · exact .value form third shape inner

/-- A statement other than an expression reaches a hollow one through those it enters. -/
theorem reachesHollow_iff_of_enters {s : Stmt} {P : Stmt → Prop}
    (entered : ∀ inner, c.Enters s inner ↔ P inner) (other : ∀ value span, s ≠ .expr value span) :
    c.Reaches c.IsHollow s ↔ ∃ inner, P inner ∧ c.Reaches c.IsHollow inner := by
  have solid : ¬c.IsHollow s := fun ⟨value, span, same, _⟩ => other value span same
  rw [c.reaches_iff_of_enters entered, or_iff_right solid]

theorem reachesHollow_expr_iff {value : Expr} {span : Span} :
    c.Reaches c.IsHollow (.expr value span) ↔
      c.Hollow value ∨ ∃ s, c.Runs value s ∧ c.Reaches c.IsHollow s := by
  have hollow : c.IsHollow (.expr value span) ↔ c.Hollow value := by simp [IsHollow]
  rw [c.reaches_iff_of_enters c.enters_expr_iff, hollow]

theorem not_reachesHollow_of_enters {s : Stmt} (leaf : ∀ inner, ¬c.Enters s inner)
    (other : ∀ value span, s ≠ .expr value span) : ¬c.Reaches c.IsHollow s := by
  rw [c.reachesHollow_iff_of_enters (fun inner => iff_false_intro (leaf inner)) other]
  simp

@[simp]
theorem not_hasBare_simpleLayout {text : String} {parts : List String}
    {traced : Text.Traced (c.grammar.spellings ++ parts) text.toList} :
    ¬Layout.HasBare (c.simpleLayout text parts traced) := by
  simp [simpleLayout, Layout.hasBare_cons, RowKind.opens]

theorem not_hasBare_importLayout (specifiers : List ImportSpecifier) (source : String) :
    ¬Layout.HasBare (c.importLayout specifiers source) := by
  unfold importLayout
  split
  · exact Layout.not_hasBare_nil
  · rw [Layout.HasBare, Outline.anyBare_iff]
    rintro ⟨t, member, bare⟩
    obtain ⟨l, -, same⟩ := List.mem_flatMap.mp member
    exact c.not_hasBare_simpleLayout ((Outline.anyBare_iff _ _).mpr ⟨t, same, bare⟩)

/-! ## Statements that are written as no line -/

theorem resourceBodyLayout?_eq_none_iff (header : Row c.grammar) (e : Expr) :
    c.resourceBodyLayout? header e = none ↔ e.isFunction = false := by
  induction e using Expr.unparen.induct with
  | case1 inner span ih =>
    rw [resourceBodyLayout?, ih]
    rfl
  | case2 e bare =>
    cases e with
    | paren inner span => exact (bare inner span rfl).elim
    | function params body span =>
      cases body <;> simp [resourceBodyLayout?, Expr.isFunction, Expr.unparen]
    | _ => simp [resourceBodyLayout?, Expr.isFunction, Expr.unparen]

theorem resourceBodyLayout?_ne_nil {header : Row c.grammar} {e : Expr} {written : Layout c.grammar}
    (literal : c.resourceBodyLayout? header e = some written) : written ≠ [] := by
  induction e using Expr.unparen.induct with
  | case1 inner span ih =>
    rw [resourceBodyLayout?] at literal
    exact ih literal
  | case2 e bare =>
    cases e with
    | paren inner span => exact (bare inner span rfl).elim
    | function params body span =>
      cases body <;> simp only [resourceBodyLayout?, Option.some.injEq] at literal <;>
        subst literal <;> simp [Layout.block]
    | _ => simp [resourceBodyLayout?] at literal

theorem resourceLayout_eq_nil_iff (args : List Expr) :
    c.resourceLayout args = [] ↔ args[2]?.any Expr.isFunction = false := by
  rcases args with _ | ⟨resource, _ | ⟨binding, _ | ⟨body, rest⟩⟩⟩
  · simp [resourceLayout]
  · simp [resourceLayout]
  · simp [resourceLayout]
  · have written := c.resourceBodyLayout?_eq_none_iff (c.withRow resource binding) body
    cases literal : c.resourceBodyLayout? (c.withRow resource binding) body with
    | none => simpa [resourceLayout, literal] using written
    | some layout =>
      have filled := c.resourceBodyLayout?_ne_nil literal
      simpa [resourceLayout, literal, filled] using written

mutual

theorem exprLayout_eq_nil_iff (e : Expr) :
    c.exprLayout e = [] ↔ e.isUnwritten c.grammar = true := by
  match e with
  | .call callee args place =>
    rw [exprLayout, Expr.isUnwritten]
    split
    · next form => simp [form, resourceLayout_eq_nil_iff]
    · next form => simp [form, callLayout, simpleLayout]
  | .assign left op right place =>
    rw [exprLayout, assignLayout, Expr.isUnwritten]
    split <;> simp [simpleLayout]
  | .update argument op _ => simp [exprLayout, updateLayout, simpleLayout, Expr.isUnwritten]
  | .sequence items _ =>
    rw [exprLayout, Expr.isUnwritten]
    exact exprLayouts_eq_nil_iff items
  | .paren inner _ =>
    rw [exprLayout, Expr.isUnwritten]
    exact exprLayout_eq_nil_iff inner
  | .ident .. | .literal .. | .template .. | .construct .. | .binary .. | .unary .. | .member ..
  | .function .. | .array .. | .object .. | .other .. => simp [exprLayout, Expr.isUnwritten]

theorem exprLayouts_eq_nil_iff (es : List Expr) :
    c.exprLayouts es = [] ↔ Expr.allUnwritten c.grammar es = true := by
  match es with
  | [] => simp [exprLayouts, Expr.allUnwritten]
  | e :: es =>
    rw [exprLayouts, Expr.allUnwritten, List.append_eq_nil_iff, Bool.and_eq_true,
      exprLayout_eq_nil_iff e, exprLayouts_eq_nil_iff es]

end

/-! ## Headers that stand alone -/

variable {c}

mutual

/-- One case for each kind of statement: its own header is followed by its block, and inside the
block the statements that the walk enters decide. -/
theorem hasBare_layout_iff (style : c.grammar.Indents) (s : Stmt) :
    Layout.HasBare (c.layout s) ↔ c.Reaches c.IsHollow s := by
  match s with
  | .block body _ =>
    rw [layout, hasBare_layouts_iff style body,
      c.reachesHollow_iff_of_enters c.enters_block_iff nofun]
  | .function name params body _ =>
    rw [layout, Layout.hasBare_block style, hasBare_layouts_iff style body,
      c.reachesHollow_iff_of_enters c.enters_function_iff nofun]
  | .expr value span =>
    rw [layout, hasBare_exprLayout_iff style value, c.reachesHollow_expr_iff]
  | .variableDecl kind declarators span =>
    rw [layout]
    exact hasBare_declaredLayout_iff style kind span declarators
  | .classDecl name superclass members _ =>
    rw [layout, Layout.hasBare_block style, Layout.hasBare_append,
      hasBare_initializerLayout_iff style members, hasBare_methodsLayout_iff style members,
      c.reachesHollow_iff_of_enters c.enters_classDecl_iff nofun]
    simp only [or_and_right, exists_or]
  | .ifElse test consequent alternate _ =>
    rw [layout, Layout.hasBare_filled_cons style, hasBare_layout_iff style consequent,
      hasBare_alternateLayout_iff style alternate,
      c.reachesHollow_iff_of_enters c.enters_ifElse_iff nofun]
    simp only [or_and_right, exists_or, exists_eq_left]
  | .forLoop init test update body span =>
    have headers := c.line_countingRow? init test update
    rw [c.reachesHollow_iff_of_enters c.enters_forLoop_iff nofun]
    simp only [layout]
    cases counts : c.countingLoop? init test update with
    | none =>
      rw [counts, Option.map_none, Option.map_eq_none_iff] at headers
      simp [headers]
    | some l =>
      rw [counts, Option.map_some, Option.map_eq_some_iff] at headers
      obtain ⟨row, found, -⟩ := headers
      rw [found]
      simp only [Layout.hasBare_block style, hasBare_layout_iff style body]
      simp
  | .forIn left right body _ span =>
    rw [c.reachesHollow_iff_of_enters c.enters_forIn_iff nofun]
    simp only [layout]
    cases left with
    | none => simp
    | some name =>
      cases iterable : right.identName? with
      | none => simp
      | some items =>
        simp only [Layout.hasBare_block style, hasBare_layout_iff style body]
        simp
  | .whileLoop test body _ =>
    rw [layout, Layout.hasBare_block style, hasBare_layout_iff style body,
      c.reachesHollow_iff_of_enters c.enters_whileLoop_iff nofun]
    simp only [exists_eq_left]
  | .importDecl specifiers source _ =>
    rw [layout]
    exact iff_of_false (c.not_hasBare_importLayout _ _) (c.not_reachesHollow_of_enters nofun nofun)
  | .returnStmt _ | .breakStmt _ | .continueStmt _ =>
    rw [layout]
    exact iff_of_false c.not_hasBare_simpleLayout (c.not_reachesHollow_of_enters nofun nofun)
  | .erased _ | .unsupported _ _ =>
    rw [layout]
    exact iff_of_false Layout.not_hasBare_nil (c.not_reachesHollow_of_enters nofun nofun)

theorem hasBare_layouts_iff (style : c.grammar.Indents) (ss : List Stmt) :
    Layout.HasBare (c.layouts ss) ↔ ∃ s, s ∈ ss ∧ c.Reaches c.IsHollow s := by
  match ss with
  | [] => simp [layouts]
  | s :: ss =>
    rw [layouts, Layout.hasBare_append, hasBare_layout_iff style s, hasBare_layouts_iff style ss]
    simp

theorem hasBare_alternateLayout_iff (style : c.grammar.Indents) (alternate : Option Stmt) :
    Layout.HasBare (c.alternateLayout alternate) ↔
      ∃ s, alternate = some s ∧ c.Reaches c.IsHollow s := by
  match alternate with
  | none => simp [alternateLayout, Layout.closing_eq_nil style]
  | some (.ifElse test consequent alternate _) =>
    rw [alternateLayout, Layout.hasBare_filled_cons style, hasBare_layout_iff style consequent,
      hasBare_alternateLayout_iff style alternate]
    simp only [Option.some.injEq, exists_eq_left']
    rw [c.reachesHollow_iff_of_enters c.enters_ifElse_iff nofun]
    simp only [or_and_right, exists_or, exists_eq_left]
  | some (.block ..) | some (.function ..) | some (.returnStmt ..) | some (.expr ..)
  | some (.variableDecl ..) | some (.classDecl ..) | some (.importDecl ..) | some (.forLoop ..)
  | some (.forIn ..) | some (.whileLoop ..) | some (.breakStmt ..) | some (.continueStmt ..)
  | some (.erased ..) | some (.unsupported ..) =>
    rw [alternateLayout, Layout.hasBare_block style, hasBare_layout_iff style]
    · simp only [Option.some.injEq, exists_eq_left']
    · nofun

theorem hasBare_declaredLayout_iff (style : c.grammar.Indents) (kind : VariableKind) (span : Span)
    (ds : List Declarator) :
    Layout.HasBare (c.declaredLayout ds) ↔ c.Reaches c.IsHollow (.variableDecl kind ds span) := by
  match ds with
  | [] => exact iff_of_false Layout.not_hasBare_nil (c.not_reachesHollow_of_enters nofun nofun)
  | .mk none init place :: rest =>
    rw [c.reachesHollow_iff_of_enters c.enters_variableDecl_iff nofun]
    simp [declaredLayout]
  | .mk (some name) init place :: rest =>
    rw [declaredLayout, hasBare_initializedLayout_iff style name init,
      c.reachesHollow_iff_of_enters c.enters_variableDecl_iff nofun]
    simp

theorem hasBare_initializedLayout_iff (style : c.grammar.Indents) (name : String)
    (init : Option Expr) :
    Layout.HasBare (c.initializedLayout name init) ↔
      ∃ s, (∃ value, init = some value ∧ s ∈ value.literalBody) ∧ c.Reaches c.IsHollow s := by
  match init with
  | none => simp [initializedLayout, undefinedLayout]
  | some value =>
    have literal := hasBare_literalLayout_iff style name value
    simp only [Option.some.injEq, exists_eq_left', initializedLayout]
    rw [← literal]
    cases c.literalLayout? name value with
    | none => simp [variableLayout]
    | some written => simp

theorem hasBare_literalLayout_iff (style : c.grammar.Indents) (name : String) (e : Expr) :
    (∃ written, c.literalLayout? name e = some written ∧ Layout.HasBare written) ↔
      ∃ s, s ∈ e.literalBody ∧ c.Reaches c.IsHollow s := by
  match e with
  | .paren inner _ =>
    simp only [literalLayout?, Expr.literalBody]
    exact hasBare_literalLayout_iff style name inner
  | .function params (.block body) _ =>
    simp only [literalLayout?, Option.some.injEq, exists_eq_left',
      Layout.hasBare_block style]
    rw [hasBare_layouts_iff style body, Expr.literalBody]
  | .function params (.value value) _ =>
    -- the block always has its `return`
    simp [literalLayout?, Expr.literalBody, Layout.hasBare_cons, Layout.closing_eq_nil style,
      valueLayout, simpleLayout, RowKind.opens]
  | .ident .. | .literal .. | .template .. | .call .. | .construct .. | .assign .. | .update ..
  | .binary .. | .unary .. | .sequence .. | .member .. | .array .. | .object .. | .other .. =>
    simp [literalLayout?, Expr.literalBody]

theorem hasBare_initializerLayout_iff (style : c.grammar.Indents) (ms : List Member) :
    Layout.HasBare (c.initializerLayout ms) ↔
      ∃ s, s ∈ Member.initializerBody ms ∧ c.Reaches c.IsHollow s := by
  match ms with
  | [] => simp [initializerLayout, Member.initializerBody]
  | .initializer _ params body _ :: ms =>
    rw [initializerLayout, Layout.hasBare_block style, hasBare_layouts_iff style body,
      Member.initializerBody]
  | .method .. :: ms | .field .. :: ms =>
    rw [initializerLayout, hasBare_initializerLayout_iff style ms]
    · simp [Member.initializerBody]
    · nofun

theorem hasBare_methodsLayout_iff (style : c.grammar.Indents) (ms : List Member) :
    Layout.HasBare (c.methodsLayout ms) ↔
      ∃ s, (∃ own params body place, .method own params body place ∈ ms ∧ s ∈ body) ∧
        c.Reaches c.IsHollow s := by
  match ms with
  | [] => simp [methodsLayout]
  | .method name params body place :: ms =>
    rw [methodsLayout, Layout.hasBare_append, Layout.hasBare_block style,
      hasBare_layouts_iff style body, hasBare_methodsLayout_iff style ms, ← exists_or]
    apply exists_congr
    intro s
    rw [← or_and_right]
    simp only [List.mem_cons, or_and_right, exists_or, Member.method.injEq]
    simp only [and_assoc, exists_eq_left, exists_and_left]
  | .field .. :: ms =>
    rw [methodsLayout, hasBare_methodsLayout_iff style ms]
    · simp
    · nofun
  | .initializer .. :: ms =>
    rw [methodsLayout, hasBare_methodsLayout_iff style ms]
    · simp
    · nofun

theorem hasBare_exprLayout_iff (style : c.grammar.Indents) (e : Expr) :
    Layout.HasBare (c.exprLayout e) ↔
      c.Hollow e ∨ ∃ s, c.Runs e s ∧ c.Reaches c.IsHollow s := by
  match e with
  | .call callee args place =>
    simp only [exprLayout, c.runs_call_iff, c.hollow_call_iff]
    split
    · next form =>
      rw [hasBare_resourceLayout_iff style args]
      simp [form]
    · next form => simp [form, callLayout]
  | .assign left op right place =>
    refine iff_of_false ?_ (by rintro (hollow | ⟨s, runs, -⟩) <;> contradiction)
    simp only [exprLayout, assignLayout]
    split <;> exact c.not_hasBare_simpleLayout
  | .update argument op _ =>
    refine iff_of_false ?_ (by rintro (hollow | ⟨s, runs, -⟩) <;> contradiction)
    exact c.not_hasBare_simpleLayout
  | .sequence items _ =>
    simp only [exprLayout, c.runs_sequence_iff, c.hollow_sequence_iff]
    exact hasBare_exprLayouts_iff style items
  | .paren inner _ =>
    simp only [exprLayout, c.runs_paren_iff, c.hollow_paren_iff]
    exact hasBare_exprLayout_iff style inner
  | .ident .. | .literal .. | .template .. | .construct .. | .binary .. | .unary .. | .member ..
  | .function .. | .array .. | .object .. | .other .. =>
    refine iff_of_false ?_ (by rintro (hollow | ⟨s, runs, -⟩) <;> contradiction)
    simp [exprLayout]

theorem hasBare_exprLayouts_iff (style : c.grammar.Indents) (es : List Expr) :
    Layout.HasBare (c.exprLayouts es) ↔
      (∃ e ∈ es, c.Hollow e) ∨ ∃ s, (∃ e ∈ es, c.Runs e s) ∧ c.Reaches c.IsHollow s := by
  match es with
  | [] => simp [exprLayouts]
  | e :: es =>
    rw [exprLayouts, Layout.hasBare_append, hasBare_exprLayout_iff style e,
      hasBare_exprLayouts_iff style es,
      or_or_or_comm, ← exists_or]
    simp only [List.mem_cons, or_and_right, exists_or, exists_eq_left]

theorem hasBare_resourceLayout_iff (style : c.grammar.Indents) (args : List Expr) :
    Layout.HasBare (c.resourceLayout args) ↔
      (∃ body, args[2]? = some body ∧ c.HollowBody body) ∨
      ∃ s, (∃ body, args[2]? = some body ∧ c.RunsBody body s) ∧ c.Reaches c.IsHollow s := by
  match args with
  | resource :: binding :: body :: rest =>
    have written := hasBare_resourceBodyLayout_iff style (c.withRow resource binding) rfl body
    rw [resourceLayout]
    cases literal : c.resourceBodyLayout? (c.withRow resource binding) body with
    | none => simpa [literal] using written
    | some layout => simpa [literal] using written
  | [] | [_] | [_, _] => simp [resourceLayout]

theorem hasBare_resourceBodyLayout_iff (style : c.grammar.Indents) (header : Row c.grammar)
    (opens : header.kind.opens = true)
    (e : Expr) :
    (∃ written, c.resourceBodyLayout? header e = some written ∧ Layout.HasBare written) ↔
      c.HollowBody e ∨ ∃ s, c.RunsBody e s ∧ c.Reaches c.IsHollow s := by
  match e with
  | .paren inner _ =>
    simp only [resourceBodyLayout?, HollowBody, RunsBody, Expr.literalBody, Expr.literalValue?]
    exact hasBare_resourceBodyLayout_iff style header opens inner
  | .function params (.block body) _ =>
    simp only [resourceBodyLayout?, Option.some.injEq, exists_eq_left',
      Layout.hasBare_block style]
    rw [hasBare_layouts_iff style body]
    simp [HollowBody, RunsBody, Expr.literalBody, Expr.literalValue?]
  | .function params (.value value) _ =>
    -- nothing fills the block of a value, so its header may stand alone
    simp only [resourceBodyLayout?, Option.some.injEq, exists_eq_left', Layout.hasBare_cons, opens,
      true_and, Layout.closing_eq_nil style, Layout.not_hasBare_nil, or_false]
    rw [c.exprLayout_eq_nil_iff value, hasBare_exprLayout_iff style value]
    simp [HollowBody, RunsBody, Expr.literalBody, Expr.literalValue?, or_assoc]
  | .ident .. | .literal .. | .template .. | .call .. | .construct .. | .assign .. | .update ..
  | .binary .. | .unary .. | .sequence .. | .member .. | .array .. | .object .. | .other .. =>
    simp [resourceBodyLayout?, HollowBody, RunsBody, Expr.literalBody, Expr.literalValue?]

end

end Context

namespace Program

/-- The walk over the program reaches a resource block that is left empty. -/
def ReachesHollow (g : Grammar) (source : List Char) (p : Program) : Prop :=
  ∃ s, s ∈ p.body ∧ Context.Reaches ⟨g, source⟩ (Context.IsHollow ⟨g, source⟩) s

/-- The text of a program has one line for each row of its layout, behind the indentation of its
depth, and nothing after the last line break. -/
theorem splitOn_text {g : Grammar} {source : List Char} {p : Program}
    (spelled : ∀ s ∈ g.file.indent :: g.spellings, '\n' ∉ s.toList)
    (made : ∀ part ∈ (p.layout g source).parts, '\n' ∉ part.toList) :
    ((p.emit g source).text g).toList.splitOn '\n' =
      (Outline.levelsOf 0 (p.layout g source)).map
        (fun l => (g.indentation l.1 ++ l.2.line).toList) ++ [[]] := by
  have written : (p.emit g source).lines = (p.layout g source).lines 0 :=
    Context.lines_stmts 0 p.body
  have rendered : ((p.emit g source).text g).toList =
      ((Outline.levelsOf 0 (p.layout g source)).map
        fun l => (g.indentation l.1 ++ l.2.line).toList).flatMap (· ++ ['\n']) := by
    simp [Emission.text, written, Layout.lines, Line.render, List.flatMap_map]
  rw [List.forall_mem_cons] at spelled
  rw [rendered, Indentation.splitOn_ended]
  intro cs member
  obtain ⟨l, laid, rfl⟩ := List.mem_map.mp member
  have line : '\n' ∉ l.2.line.toList := Row.unbroken_line spelled.2 fun part own =>
    made part (List.mem_flatMap.mpr ⟨l, laid, own⟩)
  have indentation : '\n' ∉ (g.indentation l.1).toList := by
    simp [Grammar.indentation, String.toList_join, spelled.1]
  simp [line, indentation]

theorem hasBare_layout_iff {g : Grammar} {source : List Char} {p : Program} (style : g.Indents) :
    Layout.HasBare (p.layout g source) ↔ p.ReachesHollow g source :=
  Context.hasBare_layouts_iff (c := ⟨g, source⟩) style p.body

/-- In the lines of a written program every header is directly followed by a line one level deeper,
exactly when no resource block is left empty. -/
theorem headers_followed_iff (g : Grammar) (source : List Char) (p : Program) (style : g.Indents)
    (spelled : ∀ s ∈ g.file.indent :: g.spellings, '\n' ∉ s.toList)
    (made : ∀ part ∈ (p.layout g source).parts, '\n' ∉ part.toList) :
    let rows := Outline.levelsOf 0 (p.layout g source)
    ((p.emit g source).text g).toList.splitOn '\n' =
        rows.map (fun l => (g.indentation l.1 ++ l.2.line).toList) ++ [[]] ∧
      ((∀ before depth header after, rows = before ++ (depth, header) :: after →
          header.kind.opens = true → ∃ next later, after = (depth + 1, next) :: later) ↔
        ¬p.ReachesHollow g source) := by
  intro rows
  refine ⟨splitOn_text spelled made, ?_⟩
  have followed : Outline.Followed (fun row : Row g => row.kind.opens) (rows ++ []) ↔
      ¬Layout.HasBare (p.layout g source) ∧ True :=
    Outline.followed_levelsOf _ (by simp) (p.layout g source)
  rw [List.append_nil, and_true] at followed
  rw [← Outline.followed_iff (fun row : Row g => row.kind.opens), followed,
    hasBare_layout_iff style]

/-- A loop without statements in a function, and a resource block whose value is a call. -/
theorem headers_followed_loop_and_call :
    let source := "y withStatement(r, f, () => g());".toList
    let loop : Stmt := .whileLoop (.ident "y" ⟨0, 1⟩) (.block [] ⟨0, 0⟩) ⟨0, 0⟩
    let body : Expr := .function [] (.value (.call (.ident "g" ⟨28, 29⟩) [] ⟨28, 31⟩)) ⟨22, 31⟩
    let resource : Stmt := .expr (.call (.ident "withStatement" ⟨2, 15⟩)
      [.ident "r" ⟨16, 17⟩, .ident "f" ⟨19, 20⟩, body] ⟨2, 32⟩) ⟨2, 33⟩
    let p : Program := ⟨[.function "run" [] [loop] ⟨0, 0⟩, resource]⟩
    let rows := Outline.levelsOf 0 (p.layout .python source)
    ((p.emit .python source).text .python).toList.splitOn '\n' =
        ["def run():".toList, "    while y:".toList, "        pass".toList,
          "with r as f:".toList, "    g()".toList, []] ∧
      ∀ before depth header after, rows = before ++ (depth, header) :: after →
        header.kind.opens = true → ∃ next later, after = (depth + 1, next) :: later := by
  intro source loop body resource p rows
  obtain ⟨lines, followed⟩ := headers_followed_iff .python source p ⟨by decide, by decide⟩
    (by decide) (by decide)
  refine ⟨lines.trans (by decide), followed.mpr ?_⟩
  have solid : ¬Layout.HasBare (p.layout .python source) := by decide
  rwa [hasBare_layout_iff ⟨by decide, by decide⟩] at solid

/-- The value of a resource block is a name, which is no statement. -/
theorem resource_header_stands_alone :
    let source := "withStatement(r, f, () => x);".toList
    let body : Expr := .function [] (.value (.ident "x" ⟨26, 27⟩)) ⟨20, 27⟩
    let resource : Stmt := .expr (.call (.ident "withStatement" ⟨0, 13⟩)
      [.ident "r" ⟨14, 15⟩, .ident "f" ⟨17, 18⟩, body] ⟨0, 28⟩) ⟨0, 29⟩
    let p : Program := ⟨[resource]⟩
    let rows := Outline.levelsOf 0 (p.layout .python source)
    Grammar.python.Indents ∧ Grammar.python.file.indent ≠ "" ∧
      (∀ s ∈ Grammar.python.file.indent :: Grammar.python.spellings, '\n' ∉ s.toList) ∧
      (∀ part ∈ (p.layout .python source).parts, '\n' ∉ part.toList) ∧
      (p.emit .python source).text .python = "with r as f:\n" ∧
      ¬∀ before depth header after, rows = before ++ (depth, header) :: after →
        header.kind.opens = true → ∃ next later, after = (depth + 1, next) :: later := by
  intro source body resource p rows
  refine ⟨⟨by decide, by decide⟩, by decide, by decide, by decide, by decide, fun followed => ?_⟩
  obtain ⟨next, later, below⟩ := followed [] 0 _ [] rfl rfl
  contradiction

end Program

end Dialect
