import Dialect.Emission.Rendering
import Dialect.Proofs.Shift

/-!
# Aligned sources

Two contexts are aligned when the second source shows the texts of the first a number of bytes further
on. Whatever is rendered from an expression over the first is then rendered from the moved expression
over the second, and the diagnostics move along. Everything goes through the text of a span; the
pieces that remain between the cuts of a text end where one of its spans ends, or earlier.
-/

namespace Dialect

/-- The texts of the first source stand `n` bytes further on in the second, for all spans that end
within reach. -/
structure Context.Aligned (n : Nat) (reach : Nat → Prop) (c d : Context) : Prop where
  grammar : d.grammar = c.grammar
  chars : ∀ s : Span, reach s.stop → (s.shift n).chars d.source = s.chars c.source
  nearer : ∀ {i j : Nat}, i ≤ j → reach j → reach i

def Rendering.shift (n : Nat) (r : Rendering) : Rendering :=
  ⟨r.text, r.diagnostics.map (·.shift n)⟩

@[simp]
theorem Rendering.shift_text (n : Nat) (r : Rendering) : (r.shift n).text = r.text := rfl

@[simp]
theorem Rendering.shift_diagnostics (n : Nat) (r : Rendering) :
    (r.shift n).diagnostics = r.diagnostics.map (·.shift n) := rfl

theorem Rendering.commaSeparated_shift (n : Nat) (rs : List Rendering) :
    commaSeparated (rs.map (Rendering.shift n)) = (commaSeparated rs).shift n := by
  simp [commaSeparated, Rendering.shift, Function.comp_def, List.map_flatMap, List.flatMap_map]

def Context.Placement.shift (n : Nat) : Context.Placement → Context.Placement
  | .within whole => .within (whole.shift n)
  | .value => .value

namespace Cut

theorem insertByStart_shift (n : Nat) (s : Span) (ts : List Span) :
    insertByStart (s.shift n) (ts.map (·.shift n)) = (insertByStart s ts).map (·.shift n) := by
  induction ts with
  | nil => rfl
  | cons t ts ih =>
    simp only [List.map_cons, insertByStart, Span.shift_start, Nat.add_le_add_iff_right]
    split
    · rfl
    · rw [ih, List.map_cons]

theorem sortByStart_shift (n : Nat) (spans : List Span) :
    sortByStart (spans.map (·.shift n)) = (sortByStart spans).map (·.shift n) := by
  induction spans with
  | nil => rfl
  | cons s spans ih =>
    have step : sortByStart (s :: spans) = insertByStart s (sortByStart spans) := rfl
    rw [step, ← insertByStart_shift, ← ih]
    rfl

end Cut

namespace Context.Aligned

variable {n : Nat} {reach : Nat → Prop} {c d : Context}

theorem text (aligned : Aligned n reach c d) {s : Span} (within : reach s.stop) :
    d.text (s.shift n) = c.text s := by
  simp only [Context.text, Span.text, aligned.chars s within]

theorem exprText (aligned : Aligned n reach c d) {e : Expr}
    (within : ∀ s ∈ e.spans, reach s.stop) : d.text (e.span.shift n) = c.text e.span :=
  aligned.text (within _ e.span_mem_spans)

theorem bindingName (aligned : Aligned n reach c d) {e : Expr}
    (within : ∀ s ∈ e.spans, reach s.stop) : d.bindingName (e.shift n) = c.bindingName e := by
  simp only [Context.bindingName, Expr.span_shift, aligned.exprText within, Expr.unparen_shift]
  cases e.unparen with
  | literal kind s => cases kind <;> rfl
  | _ => rfl

theorem isNamedArgument (aligned : Aligned n reach c d) (callee : Expr) :
    d.isNamedArgument (callee.shift n) = c.isNamedArgument callee := by
  simp only [Context.isNamedArgument, aligned.grammar, Support.formOf_shift]

mutual

theorem needsRendering (aligned : Aligned n reach c d) (e : Expr) :
    d.needsRendering (e.shift n) = c.needsRendering e := by
  match e with
  | .paren inner _ =>
    simp only [Expr.shift, Context.needsRendering]
    exact needsRendering aligned inner
  | .call callee args _ =>
    simp only [Expr.shift, Context.needsRendering, aligned.isNamedArgument]
    rw [anyRendering aligned args]
  | .sequence items _ =>
    simp only [Expr.shift, Context.needsRendering]
    exact anyRendering aligned items
  | .ident .. | .literal .. | .template .. | .construct .. | .assign .. | .update .. | .binary ..
  | .unary .. | .member .. | .function .. | .array .. | .object .. | .other .. => rfl

theorem anyRendering (aligned : Aligned n reach c d) (es : List Expr) :
    d.anyRendering (Expr.shiftAll n es) = c.anyRendering es := by
  match es with
  | [] => rfl
  | e :: es =>
    simp only [Expr.shiftAll, Context.anyRendering]
    rw [needsRendering aligned e, anyRendering aligned es]

end

/-- The text of an expression is copied from the span it is placed in. -/
theorem copy (aligned : Aligned n reach c d) {p : Placement} {e : Expr}
    (within : ∀ s ∈ e.spans, reach s.stop) (placed : ∀ whole, p = .within whole → reach whole.stop) :
    (p.shift n).copy d (e.shift n) = (p.copy c e).shift n := by
  cases p with
  | within whole => simp [Placement.copy, Placement.shift, Rendering.shift, aligned.text (placed whole rfl)]
  | value => simp [Placement.copy, Placement.shift, Rendering.shift, aligned.exprText within]

mutual

theorem renderAt (aligned : Aligned n reach c d) (p : Placement) (e : Expr)
    (within : ∀ s ∈ e.spans, reach s.stop)
    (placed : ∀ whole, p = .within whole → reach whole.stop) :
    d.renderAt (p.shift n) (e.shift n) = (c.renderAt p e).shift n := by
  match e with
  | .paren inner s =>
    simp only [Expr.shift, Context.renderAt]
    exact renderAt aligned p inner (fun _ m => within _ (List.mem_cons_of_mem s m)) placed
  | .template s =>
    have here := aligned.text (within s (by simp [Expr.spans]))
    simp [Expr.shift, Context.renderAt, aligned.grammar, here, Rendering.shift]
  | .call callee args s =>
    simp only [Expr.spans, List.cons_append, List.forall_mem_cons, List.forall_mem_append] at within
    obtain ⟨here, inCallee, inArgs⟩ := within
    simp only [Expr.shift, Context.renderAt, aligned.isNamedArgument, aligned.anyRendering,
      renderAll aligned args inArgs, Rendering.commaSeparated_shift, Expr.span_shift,
      aligned.exprText inCallee, aligned.text here]
    split
    · exact renderNamed aligned s args here inArgs
    · split <;> rfl
  | .sequence items s =>
    have copied := aligned.copy within placed
    simp only [Expr.spans, List.forall_mem_cons] at within
    simp only [Expr.shift] at copied
    simp only [Expr.shift, Context.renderAt, aligned.anyRendering,
      renderAll aligned items within.2, Rendering.commaSeparated_shift, copied]
    split <;> rfl
  | .literal kind s =>
    have here := aligned.text (within s (by simp [Expr.spans]))
    cases p with
    | within whole =>
      have outer := aligned.text (placed whole rfl)
      cases kind <;>
        simp [Expr.shift, Context.renderAt, Placement.shift, Placement.copy, Rendering.shift, outer]
    | value =>
      cases kind <;>
        simp [Expr.shift, Context.renderAt, Placement.shift, Placement.copy, Rendering.shift, here,
          aligned.grammar, Expr.span]
  | .ident .. | .construct .. | .assign .. | .update .. | .binary .. | .unary .. | .member ..
  | .function .. | .array .. | .object .. | .other .. =>
    exact aligned.copy within placed

theorem renderAll (aligned : Aligned n reach c d) (es : List Expr)
    (within : ∀ s ∈ Expr.allSpans es, reach s.stop) :
    d.renderAll (Expr.shiftAll n es) = (c.renderAll es).map (Rendering.shift n) := by
  match es with
  | [] => rfl
  | e :: es =>
    simp only [Expr.allSpans, List.forall_mem_append] at within
    have head := renderAt aligned (.within e.span) e within.1
      (fun | _, rfl => within.1 _ e.span_mem_spans)
    simp only [Expr.shiftAll, Context.renderAll, List.map_cons, Expr.span_shift]
    rw [renderAll aligned es within.2, ← head]
    rfl

theorem renderNamed (aligned : Aligned n reach c d) (s : Span) (args : List Expr)
    (here : reach s.stop) (within : ∀ s ∈ Expr.allSpans args, reach s.stop) :
    d.renderNamed (s.shift n) (Expr.shiftAll n args) = (c.renderNamed s args).shift n := by
  match args with
  | [name, value] =>
    simp only [Expr.allSpans, List.append_nil, List.forall_mem_append] at within
    have rendered := renderAt aligned .value value within.2 nofun
    simp only [Placement.shift] at rendered
    simp [Expr.shiftAll, Context.renderNamed, aligned.bindingName within.1, rendered, Rendering.shift]
  | [] | [_] | _ :: _ :: _ :: _ =>
    simp [Expr.shiftAll, Context.renderNamed, aligned.text here, Rendering.shift, Diagnostic.missing,
      Diagnostic.shift]

end

theorem keyword? (aligned : Aligned n reach c d) {s : Span} (within : reach s.stop) :
    Construction.keyword? d.source (s.shift n) =
      (Construction.keyword? c.source s).map (·.shift n) := by
  simp only [Construction.keyword?, aligned.chars s within]
  split
  · simp only [Option.map_some, Span.shift, Nat.add_right_comm]
  · rfl

mutual

theorem keywords (aligned : Aligned n reach c d) (e : Expr)
    (within : ∀ s ∈ e.spans, reach s.stop) :
    Construction.keywords d.source (e.shift n) =
      (Construction.keywords c.source e).map (·.shift n) := by
  match e with
  | .construct callee args s =>
    simp only [Expr.spans, List.cons_append, List.forall_mem_cons, List.forall_mem_append] at within
    obtain ⟨here, inCallee, inArgs⟩ := within
    have own : ((Construction.keyword? c.source s).map (·.shift n)).toList =
        (Construction.keyword? c.source s).toList.map (·.shift n) := by
      cases Construction.keyword? c.source s <;> rfl
    simp only [Expr.shift, Construction.keywords, List.map_append, aligned.keyword? here, own]
    rw [keywords aligned callee inCallee, keywordsOf aligned args inArgs]
  | .call callee args s =>
    simp only [Expr.spans, List.cons_append, List.forall_mem_cons, List.forall_mem_append] at within
    simp only [Expr.shift, Construction.keywords, List.map_append]
    rw [keywords aligned callee within.2.1, keywordsOf aligned args within.2.2]
  | .assign left _ right s | .binary left _ right s =>
    simp only [Expr.spans, List.cons_append, List.forall_mem_cons, List.forall_mem_append] at within
    simp only [Expr.shift, Construction.keywords, List.map_append]
    rw [keywords aligned left within.2.1, keywords aligned right within.2.2]
  | .sequence items s =>
    simp only [Expr.shift, Construction.keywords]
    exact keywordsOf aligned items (fun _ m => within _ (List.mem_cons_of_mem s m))
  | .update argument _ s | .unary _ argument s | .member argument _ s | .paren argument s =>
    simp only [Expr.shift, Construction.keywords]
    exact keywords aligned argument (fun _ m => within _ (List.mem_cons_of_mem s m))
  | .ident .. | .literal .. | .template .. | .function .. | .array .. | .object .. | .other .. => rfl

theorem keywordsOf (aligned : Aligned n reach c d) (es : List Expr)
    (within : ∀ s ∈ Expr.allSpans es, reach s.stop) :
    Construction.keywordsOf d.source (Expr.shiftAll n es) =
      (Construction.keywordsOf c.source es).map (·.shift n) := by
  match es with
  | [] => rfl
  | e :: es =>
    simp only [Expr.allSpans, List.forall_mem_append] at within
    simp only [Expr.shiftAll, Construction.keywordsOf, List.map_append]
    rw [keywords aligned e within.1, keywordsOf aligned es within.2]

end

/-- The pieces between the cuts end before the whole does, so they stay within reach. -/
theorem keep (aligned : Aligned n reach c d) {stop : Nat} (within : reach stop) (cuts : List Span)
    (ordered : ∀ cut ∈ cuts, cut.start ≤ cut.stop) (pos : Nat) :
    Cut.keep d.source (stop + n) (pos + n) (cuts.map (·.shift n)) =
      Cut.keep c.source stop pos cuts := by
  induction cuts generalizing pos with
  | nil => exact aligned.chars ⟨pos, stop⟩ within
  | cons cut cuts ih =>
    simp only [List.forall_mem_cons] at ordered
    simp only [List.map_cons, Cut.keep, Span.shift_start, Span.shift_stop, Nat.add_lt_add_iff_right]
    split
    · exact ih ordered.2 pos
    · next taken =>
      have inside : cut.stop ≤ stop := by
        simp only [Bool.or_eq_true, decide_eq_true_eq, not_or] at taken
        omega
      have piece := aligned.chars ⟨pos, cut.start⟩
        (aligned.nearer (Nat.le_trans ordered.1 inside) within)
      rw [ih ordered.2 cut.stop, ← piece]
      rfl

end Context.Aligned

namespace Construction

theorem keyword?_ordered {source : List Char} {s cut : Span} (found : keyword? source s = some cut) :
    cut.start ≤ cut.stop := by
  unfold keyword? at found
  split at found
  · cases found
    exact Nat.le_add_right _ _
  · cases found

mutual

theorem keywords_ordered (source : List Char) (e : Expr) :
    ∀ cut ∈ keywords source e, cut.start ≤ cut.stop := by
  match e with
  | .construct callee args s =>
    simp only [keywords, List.forall_mem_append]
    refine ⟨⟨?_, keywords_ordered source callee⟩, keywordsOf_ordered source args⟩
    intro cut member
    exact keyword?_ordered (Option.mem_toList.mp member)
  | .call callee args _ =>
    simp only [keywords, List.forall_mem_append]
    exact ⟨keywords_ordered source callee, keywordsOf_ordered source args⟩
  | .assign left _ right _ | .binary left _ right _ =>
    simp only [keywords, List.forall_mem_append]
    exact ⟨keywords_ordered source left, keywords_ordered source right⟩
  | .sequence items _ => exact keywordsOf_ordered source items
  | .update argument _ _ | .unary _ argument _ | .member argument _ _ | .paren argument _ =>
    exact keywords_ordered source argument
  | .ident .. | .literal .. | .template .. | .function .. | .array .. | .object .. | .other .. =>
    exact nofun

theorem keywordsOf_ordered (source : List Char) (es : List Expr) :
    ∀ cut ∈ keywordsOf source es, cut.start ≤ cut.stop := by
  match es with
  | [] => exact nofun
  | e :: es =>
    simp only [keywordsOf, List.forall_mem_append]
    exact ⟨keywords_ordered source e, keywordsOf_ordered source es⟩

end

end Construction

namespace Context.Aligned

variable {n : Nat} {reach : Nat → Prop} {c d : Context}

theorem withoutNew (aligned : Aligned n reach c d) {e : Expr}
    (within : ∀ s ∈ e.spans, reach s.stop) : d.withoutNew (e.shift n) = c.withoutNew e := by
  have here := within _ e.span_mem_spans
  have ordered : ∀ cut ∈ Cut.sortByStart (Construction.keywords c.source e),
      cut.start ≤ cut.stop := by
    intro cut member
    exact Construction.keywords_ordered c.source e cut ((Cut.sortByStart_perm _).mem_iff.mp member)
  simp only [Context.withoutNew, aligned.grammar, Construction.withoutKeywords, Cut.within,
    Expr.span_shift, aligned.text here, aligned.keywords e within, Cut.sortByStart_shift,
    Span.shift_start, Span.shift_stop, aligned.keep here _ ordered]

theorem render (aligned : Aligned n reach c d) {e : Expr} (within : ∀ s ∈ e.spans, reach s.stop) :
    d.render (e.shift n) = (c.render e).shift n := by
  rw [Context.render, Expr.span_shift]
  exact aligned.renderAt (.within e.span) e within (fun | _, rfl => within _ e.span_mem_spans)

theorem renderCall (aligned : Aligned n reach c d) {callee : Expr} {args : List Expr} {s : Span}
    (here : reach s.stop) (inCallee : ∀ s ∈ callee.spans, reach s.stop)
    (inArgs : ∀ s ∈ Expr.allSpans args, reach s.stop) :
    d.renderCall (callee.shift n) (Expr.shiftAll n args) (s.shift n) =
      (c.renderCall callee args s).shift n := by
  simp only [Context.renderCall, aligned.anyRendering, aligned.renderAll args inArgs,
    Rendering.commaSeparated_shift, Expr.span_shift, aligned.exprText inCallee, aligned.text here]
  split <;> rfl

theorem renderConstruction (aligned : Aligned n reach c d) {callee : Expr} {args : List Expr}
    (inCallee : ∀ s ∈ callee.spans, reach s.stop)
    (inArgs : ∀ s ∈ Expr.allSpans args, reach s.stop) :
    d.renderConstruction (callee.shift n) (Expr.shiftAll n args) =
      (c.renderConstruction callee args).shift n := by
  simp only [Context.renderConstruction, aligned.grammar, aligned.renderAll args inArgs,
    Rendering.commaSeparated_shift, Expr.span_shift, aligned.exprText inCallee]
  rfl

theorem endsWithParen (aligned : Aligned n reach c d) {s : Span} (within : reach s.stop) :
    d.endsWithParen (s.shift n) = c.endsWithParen s := by
  simp only [Context.endsWithParen, aligned.chars s within]

theorem renderInitializer (aligned : Aligned n reach c d) {e : Expr}
    (within : ∀ s ∈ e.spans, reach s.stop) :
    d.renderInitializer (e.shift n) = (c.renderInitializer e).shift n := by
  have rendered := aligned.render within
  have cut := aligned.withoutNew within
  cases e with
  | literal kind s =>
    simp only [Expr.shift, Context.renderInitializer, aligned.text (within s (by simp [Expr.spans]))]
    rfl
  | construct callee args s =>
    simp only [Expr.spans, List.cons_append, List.forall_mem_cons, List.forall_mem_append] at within
    simp only [Expr.shift] at cut
    simp only [Expr.shift, Context.renderInitializer, aligned.endsWithParen within.1,
      aligned.anyRendering, aligned.renderConstruction within.2.1 within.2.2, cut]
    split <;> rfl
  | unary op argument s =>
    have inner : ∀ t ∈ argument.unparen.spans, reach t.stop := fun t member =>
      within t (List.mem_cons_of_mem s (argument.unparen_spans_subset member))
    have here := aligned.text (within s (by simp [Expr.spans]))
    simp only [Expr.shift] at rendered
    simp only [Expr.shift, Context.renderInitializer, Expr.unparen_shift, rendered, here]
    split
    · cases shape : argument.unparen with
      | literal kind t =>
        have literal := aligned.text (inner t (by simp [shape, Expr.spans]))
        simp only [Expr.shift, literal]
        rfl
      | _ => rfl
    · rfl
  | _ => exact rendered

theorem condition (aligned : Aligned n reach c d) {test : Expr}
    (within : ∀ s ∈ test.spans, reach s.stop) : d.condition (test.shift n) = c.condition test := by
  have here := aligned.exprText within
  cases test with
  | paren inner s =>
    have inside := aligned.exprText (e := inner) (fun _ m => within _ (List.mem_cons_of_mem s m))
    simp only [Expr.shift, Context.condition, Expr.span_shift, inside, aligned.grammar]
  | _ =>
    simp only [Expr.span] at here
    simp only [Expr.shift, Context.condition, Expr.span, here, aligned.grammar]

theorem paramsText (aligned : Aligned n reach c d) (receives : Bool) {params : List Param}
    (within : ∀ s ∈ params.flatMap Param.spans, reach s.stop) :
    d.paramsText receives (params.map (Param.shift n)) = c.paramsText receives params := by
  have each : (params.map (Param.shift n)).map d.paramText = params.map c.paramText := by
    rw [List.map_map]
    apply List.map_congr_left
    intro p member
    cases value : p.value with
    | none => simp [Context.paramText, Param.shift, value]
    | some s =>
      have here : reach s.stop :=
        within s (List.mem_flatMap.mpr ⟨p, member, by simp [Param.spans, value]⟩)
      simp [Context.paramText, Param.shift, value, aligned.text here]
  simp only [Context.paramsText, aligned.grammar, each]

end Context.Aligned

end Dialect
