import Dialect.Compilation
import Dialect.Parsing.Program
import Dialect.Proofs.Operands
import Mathlib.Data.List.Basic

/-!
# Copied calls

A call or sequence with nothing to render in it is copied from the source. Beside that stands a
rendering that copies neither but writes them anew at every depth. Main statement: where calls and
sequences are laid out in the source as they are written, the two give one text and the same
diagnostics.
-/

namespace Dialect

/-! ## Rendering without copies -/

namespace Context

variable (c : Context)

/-- The value of a named argument: strings get the quotes of the target dialect. -/
def valueFully (value : Expr) (rendered : Rendering) : Rendering :=
  match value with
  | .literal .string s => ⟨Quotation.requote c.grammar.file.stringQuote (c.text s), []⟩
  | _ => rendered

mutual

/-- The expression with every call and sequence in it written anew. -/
def renderFully : Expr → Rendering
  | .template s => ⟨Template.convert c.grammar.template (c.text s), []⟩
  | .call callee args s =>
    if c.isNamedArgument callee then namedFully s args
    else
      let list := Rendering.commaSeparated (allFully args)
      ⟨c.text callee.span ++ "(" ++ list.text ++ ")", list.diagnostics⟩
  | .sequence items _ => .commaSeparated (allFully items)
  | e => ⟨c.text e.span, []⟩

def allFully : List Expr → List Rendering
  | [] => []
  | e :: es => renderFully e :: allFully es

def namedFully (s : Span) : List Expr → Rendering
  | [name, value] =>
    let rendered := c.valueFully value (renderFully value)
    ⟨c.bindingName name ++ "=" ++ rendered.text, rendered.diagnostics⟩
  | args =>
    ⟨c.text s, [.missing ("named expects 2 arguments, found " ++ toString args.length) s]⟩

end

/-- The texts of some expressions with commas between them. -/
def listText (es : List Expr) : String :=
  ", ".intercalate (es.map fun e => c.text e.span)

/-- The node is no parenthesis, and a call or sequence is laid out as it would be written. -/
def IsCanonical : Expr → Prop
  | .paren _ _ => False
  | .call callee args s => c.text s = c.text callee.span ++ "(" ++ c.listText args ++ ")"
  | .sequence items s => c.text s = c.listText items
  | _ => True

instance : DecidablePred c.IsCanonical
  | .paren _ _ => instDecidableFalse
  | .call _ _ _ | .sequence _ _ => inferInstanceAs (Decidable (_ = _))
  | .ident _ _ | .literal _ _ | .template _ | .construct _ _ _ | .assign _ _ _ _ | .update _ _ _
  | .binary _ _ _ _ | .unary _ _ _ | .member _ _ _ | .function _ _ _ | .array _ | .object _
  | .other _ _ => instDecidableTrue

variable {c}

theorem allFully_eq_map (es : List Expr) : c.allFully es = es.map c.renderFully := by
  induction es with
  | nil => rfl
  | cons e es ih => rw [allFully, ih, List.map_cons]

theorem renderAll_eq_map (es : List Expr) : c.renderAll es = es.map c.render := by
  induction es with
  | nil => rfl
  | cons e es ih => rw [renderAll, ih, List.map_cons, render]

theorem anyRendering_eq_false_iff {es : List Expr} :
    c.anyRendering es = false ↔ ∀ e ∈ es, c.needsRendering e = false := by
  induction es with
  | nil => simp [anyRendering]
  | cons e es ih => rw [anyRendering, Bool.or_eq_false_iff, ih, List.forall_mem_cons]

/-! ## Agreement -/

/-- Expressions written as they stand, in a list. -/
theorem commaSeparated_allFully {es : List Expr}
    (copied : ∀ e ∈ es, c.renderFully e = ⟨c.text e.span, []⟩) :
    Rendering.commaSeparated (c.allFully es) = ⟨c.listText es, []⟩ := by
  rw [allFully_eq_map, List.map_congr_left copied, Rendering.commaSeparated, listText]
  simp [Function.comp_def]

/-- What has nothing to render in it is written as it stands, also if it is written anew. -/
theorem renderFully_of_not_needsRendering {e : Expr} (canonical : ∀ n ∈ e.nodes, c.IsCanonical n)
    (unrendered : c.needsRendering e = false) : c.renderFully e = ⟨c.text e.span, []⟩ := by
  induction e using Expr.operand_induction with
  | step e ih =>
    have below (o : Expr) (operand : o ∈ e.operands) : ∀ n ∈ o.nodes, c.IsCanonical n :=
      fun n member => canonical n (Expr.mem_nodes_of_operand operand member)
    have own := canonical e e.mem_nodes_self
    cases e with
    | template s => cases unrendered
    | paren inner s => exact own.elim
    | call callee args s =>
      rw [needsRendering, Bool.or_eq_false_iff, anyRendering_eq_false_iff] at unrendered
      have copied : ∀ a ∈ args, c.renderFully a = ⟨c.text a.span, []⟩ := by
        intro a member
        have operand := List.mem_cons_of_mem callee member
        exact ih a operand (below a operand) (unrendered.2 a member)
      rw [renderFully, unrendered.1, commaSeparated_allFully copied, Expr.span, own]
      rfl
    | sequence items s =>
      rw [needsRendering, anyRendering_eq_false_iff] at unrendered
      have copied : ∀ a ∈ items, c.renderFully a = ⟨c.text a.span, []⟩ :=
        fun a member => ih a member (below a member) (unrendered a member)
      rw [renderFully, commaSeparated_allFully copied, Expr.span, own]
    | _ => rfl

/-- Both renderings of an expression, alone or as the value of a named argument. -/
theorem renderAt_eq_fully {e : Expr} (canonical : ∀ n ∈ e.nodes, c.IsCanonical n) :
    c.renderAt (.within e.span) e = c.renderFully e ∧
      c.renderAt .value e = c.valueFully e (c.renderFully e) := by
  induction e using Expr.operand_induction with
  | step e ih =>
    have each (o : Expr) (operand : o ∈ e.operands) :=
      ih o operand fun n member => canonical n (Expr.mem_nodes_of_operand operand member)
    cases e with
    | template s => exact ⟨rfl, rfl⟩
    | paren inner s => exact (canonical _ (Expr.mem_nodes_self _)).elim
    | literal kind s => cases kind <;> exact ⟨rfl, rfl⟩
    | call callee args s =>
      -- a call is written alike wherever it stands
      suffices same : ∀ p, c.renderAt p (.call callee args s) =
          c.renderFully (.call callee args s) from ⟨same _, same _⟩
      intro p
      cases named : c.isNamedArgument callee with
      | true =>
        have parts : c.renderNamed s args = c.namedFully s args := by
          rcases args with _ | ⟨name, _ | ⟨value, _ | ⟨third, more⟩⟩⟩
          · rfl
          · rfl
          · rw [renderNamed, namedFully, (each value (by simp [Expr.operands])).2]
          · rfl
        rw [renderAt, renderFully, named, if_pos rfl, if_pos rfl, parts]
      | false =>
        cases some : c.anyRendering args with
        | true =>
          have list : c.renderAll args = c.allFully args := by
            rw [renderAll_eq_map, allFully_eq_map]
            exact List.map_congr_left fun a member =>
              (each a (List.mem_cons_of_mem callee member)).1
          rw [renderAt, renderFully, named, some, list]
          rfl
        | false =>
          have unrendered : c.needsRendering (.call callee args s) = false := by
            rw [needsRendering, named, some, Bool.or_false]
          rw [renderFully_of_not_needsRendering canonical unrendered, renderAt, named, some]
          rfl
    | sequence items s =>
      cases some : c.anyRendering items with
      | true =>
        have list : c.renderAll items = c.allFully items := by
          rw [renderAll_eq_map, allFully_eq_map]
          exact List.map_congr_left fun a member => (each a member).1
        have same (p : Placement) :
            c.renderAt p (.sequence items s) = c.renderFully (.sequence items s) := by
          rw [renderAt, renderFully, some, list, if_pos rfl]
        exact ⟨same _, same _⟩
      | false =>
        have unrendered : c.needsRendering (.sequence items s) = false := by
          rw [needsRendering, some]
        have written := renderFully_of_not_needsRendering canonical unrendered
        constructor
        · rw [written, renderAt, some]
          rfl
        · have plain (r : Rendering) : c.valueFully (.sequence items s) r = r := rfl
          rw [plain, written, renderAt, some]
          rfl
    | _ => exact ⟨rfl, rfl⟩

/-- Copying calls and sequences cannot be seen where they are laid out as they would be written. -/
theorem render_eq_renderFully {e : Expr} (canonical : ∀ n ∈ e.nodes, c.IsCanonical n) :
    c.render e = c.renderFully e :=
  (renderAt_eq_fully canonical).1

theorem render_eq_renderFully_mixed :
    let text := "f(g(a, b), h(named(\"x\", \"v\"), \x60t\x60), named(y));".toList
    let c : Context := ⟨.python, text⟩
    let plain : Expr := .call (.ident "g" ⟨2, 3⟩) [.ident "a" ⟨4, 5⟩, .ident "b" ⟨7, 8⟩] ⟨2, 9⟩
    let named : Expr := .call (.ident "named" ⟨13, 18⟩)
      [.literal .string ⟨19, 22⟩, .literal .string ⟨24, 27⟩] ⟨13, 28⟩
    let short : Expr := .call (.ident "named" ⟨36, 41⟩) [.ident "y" ⟨42, 43⟩] ⟨36, 44⟩
    let e : Expr := .call (.ident "f" ⟨0, 1⟩)
      [plain, .call (.ident "h" ⟨11, 12⟩) [named, .template ⟨30, 33⟩] ⟨11, 34⟩, short] ⟨0, 45⟩
    ((Program.ofTree text (Tree.parse text)).emit .python text).text .python =
        "f(g(a, b), h(x='v', f't'), named(y))\n" ∧
      (∀ n ∈ e.nodes, c.IsCanonical n) ∧
      c.renderFully e = ⟨"f(g(a, b), h(x='v', f't'), named(y))",
        [.missing "named expects 2 arguments, found 1" ⟨36, 44⟩]⟩ ∧
      c.render e = c.renderFully e := by
  intro text c plain named short e
  have canonical : ∀ n ∈ e.nodes, c.IsCanonical n := by decide +kernel
  exact ⟨by decide +kernel, canonical, by decide +kernel, render_eq_renderFully canonical⟩

end Context

end Dialect
