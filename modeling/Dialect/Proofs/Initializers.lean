import Dialect.Proofs.Keywords

/-!
# Arguments of constructed values

A construction that initializes a variable is copied without its keywords, or written anew around
its rendered arguments. Main statement: an argument that is not rendered loses its keywords exactly
where the construction is copied; among rendered arguments it stands as in the source.
-/

namespace Dialect

namespace Text

variable {source : List Char} {cuts : List Span}

theorem kept_length_le {s : Span} (valid : s.Valid source) :
    (kept source cuts s).length ≤ (s.chars source).length := by
  have uncut : kept source [] s = s.chars source := kept_eq_chars valid fun _ _ => rfl
  rw [← uncut]
  unfold kept
  rw [List.length_map, List.length_map]
  apply List.Sublist.length_le
  apply List.monotone_filter_right
  intro p
  simp only [Bool.and_eq_true]
  exact fun inside => ⟨inside.1, rfl⟩

theorem kept_length_lt {s cut : Span} (valid : s.Valid source) (cutValid : cut.Valid source)
    (member : cut ∈ cuts) (inside : cut.Inside s) (given : cut.start < cut.stop) :
    (kept source cuts s).length < (s.chars source).length := by
  obtain ⟨low, high⟩ := inside
  have ordered := cutValid.ordered
  have left : (⟨s.start, cut.start⟩ : Span).Valid source := ⟨low, valid.starts, cutValid.starts⟩
  have right : (⟨cut.stop, s.stop⟩ : Span).Valid source := ⟨high, cutValid.stops, valid.stops⟩
  have gone : kept source cuts ⟨cut.start, cut.stop⟩ = [] :=
    kept_eq_nil fun i at_i => List.any_eq_true.mpr ⟨cut, member, at_i⟩
  have some : 0 < (Span.chars source ⟨cut.start, cut.stop⟩).length := by
    obtain ⟨before, -, -, starts, stops⟩ := cutValid.exists_split
    rw [List.length_pos_iff]
    intro none
    have empty : cut.chars source = [] := none
    rw [empty, byteLength_nil] at stops
    omega
  have first : (kept source cuts _).length ≤ _ := kept_length_le left
  have last : (kept source cuts _).length ≤ _ := kept_length_le right
  have whole := Span.chars_split low (Nat.le_trans ordered high) valid.starts cutValid.starts
    valid.stops
  have whole' := Span.chars_split ordered high cutValid.starts cutValid.stops valid.stops
  have kept_s : kept source cuts s = kept source cuts ⟨s.start, s.stop⟩ := rfl
  have chars_s : s.chars source = Span.chars source ⟨s.start, s.stop⟩ := rfl
  rw [kept_s, chars_s, kept_split low (Nat.le_trans ordered high), kept_split ordered high, gone,
    whole, whole', List.length_append, List.length_append, List.length_append, List.length_append,
    List.length_nil]
  omega

end Text

/-! ## Texts without keywords -/

namespace Expr

variable {source : List Char}

/-- Inside an operand only its own keywords are cut. -/
theorem Arranged.any_keywordSpans {e o : Expr} (arranged : e.Arranged source)
    (operand : o ∈ e.operands) {i : Nat} (inside : o.span.covers i = true) :
    (e.keywordSpans source).any (·.covers i) = (o.keywordSpans source).any (·.covers i) := by
  rw [Bool.eq_iff_iff, List.any_eq_true, List.any_eq_true]
  constructor
  · rintro ⟨k, member, at_i⟩
    have self := e.mem_nodes_self
    have start := (Span.covers_iff.mp inside).1
    rcases mem_keywordSpans.mp member with own | ⟨p, sibling, below⟩
    · have behind := arranged.behind e self k own o operand
      have stop := (Span.covers_iff.mp at_i).2
      omega
    · by_cases same : p = o
      · exact ⟨k, same ▸ below, at_i⟩
      · have : Std.Symm fun o p : Expr => o.span.Disjoint p.span := ⟨fun _ _ h => h.symm⟩
        have disjoint := (arranged.disjoint e self).forall operand sibling (Ne.symm same)
        have outside := disjoint.not_covers inside
        have within := ((arranged.operand sibling).keywordSpans_placed k below).1
        rw [Span.covers_iff] at at_i
        rw [← Bool.not_eq_true, Span.covers_iff] at outside
        exact absurd ⟨Nat.le_trans within.1 at_i.1, Nat.lt_of_lt_of_le at_i.2 within.2⟩ outside
  · rintro ⟨k, member, at_i⟩
    exact ⟨k, mem_keywordSpans.mpr (.inr ⟨o, operand, member⟩), at_i⟩

end Expr

namespace Context

variable {c : Context}

theorem withoutNew_operand {e o : Expr} (plain : c.grammar.classes.keepsNew = false)
    (arranged : e.Arranged c.source) (operand : o ∈ e.operands) :
    (c.withoutNew e).toList =
      Text.kept c.source (e.keywordSpans c.source) ⟨e.span.start, o.span.start⟩ ++
        ((c.withoutNew o).toList ++
          Text.kept c.source (e.keywordSpans c.source) ⟨o.span.stop, e.span.stop⟩) := by
  have inner := arranged.operand operand
  obtain ⟨low, high⟩ := arranged.inside e e.mem_nodes_self o operand
  have ordered := (inner.valid o o.mem_nodes_self).ordered
  have middle : Text.kept c.source (e.keywordSpans c.source) ⟨o.span.start, o.span.stop⟩ =
      (c.withoutNew o).toList := by
    rw [c.withoutNew_eq_kept plain inner]
    exact Text.kept_congr fun i inside => arranged.any_keywordSpans operand inside
  calc (c.withoutNew e).toList
      = Text.kept c.source (e.keywordSpans c.source) ⟨e.span.start, e.span.stop⟩ :=
        c.withoutNew_eq_kept plain arranged
    _ = _ := by
      rw [Text.kept_split low (Nat.le_trans ordered high), Text.kept_split ordered high, middle]

theorem withoutNew_eq_text_iff {e : Expr} (plain : c.grammar.classes.keepsNew = false)
    (arranged : e.Arranged c.source) :
    c.withoutNew e = c.text e.span ↔ e.keywordSpans c.source = [] := by
  have valid := arranged.valid e e.mem_nodes_self
  have cut := c.withoutNew_eq_kept plain arranged
  have copied : (c.text e.span).toList = e.span.chars c.source := String.toList_ofList
  rw [← String.toList_inj, cut, copied]
  constructor
  · intro same
    apply List.eq_nil_iff_forall_not_mem.mpr
    intro k member
    obtain ⟨inside, given, kValid⟩ := arranged.keywordSpans_placed k member
    have shorter := Text.kept_length_lt valid kValid member inside given
    rw [same] at shorter
    exact Nat.lt_irrefl _ shorter
  · intro none
    rw [none]
    exact Text.kept_eq_chars valid fun _ _ => rfl

end Context

/-! ## Arguments that are copied -/

/-- The span that is copied of an expression which is not rendered: of a call without the
parentheses around it, of anything else the whole. -/
def Expr.copiedWithin (whole : Span) (e : Expr) : Span :=
  match e.unparen with
  | .call _ _ s => s
  | _ => whole

def Expr.copiedSpan (e : Expr) : Span :=
  e.copiedWithin e.span

namespace Context

variable {c : Context}

theorem renderAt_of_not_needsRendering {e : Expr} (unrendered : c.needsRendering e = false)
    (whole : Span) : c.renderAt (.within whole) e = ⟨c.text (e.copiedWithin whole), []⟩ := by
  induction e using Expr.operand_induction with
  | step e ih =>
    cases e with
    | paren inner s =>
      rw [needsRendering] at unrendered
      rw [renderAt]
      exact ih inner (by simp [Expr.operands]) unrendered
    | template s => cases unrendered
    | call callee args s =>
      rw [needsRendering, Bool.or_eq_false_iff] at unrendered
      rw [renderAt, unrendered.1, unrendered.2]
      rfl
    | sequence items s =>
      rw [needsRendering] at unrendered
      rw [renderAt, unrendered]
      rfl
    | literal kind s => cases kind <;> rfl
    | _ => rfl

theorem render_of_not_needsRendering {e : Expr} (unrendered : c.needsRendering e = false) :
    c.render e = ⟨c.text e.copiedSpan, []⟩ :=
  renderAt_of_not_needsRendering unrendered e.span

theorem renderAll_append (es fs : List Expr) :
    c.renderAll (es ++ fs) = c.renderAll es ++ c.renderAll fs := by
  induction es with
  | nil => rfl
  | cons e es ih => rw [List.cons_append, renderAll, renderAll, ih, List.cons_append]

end Context

/-! ## Constructions as initializers -/

/-- An argument at its place among those of a construction. -/
structure Argument where
  callee : Expr
  front : List Expr
  arg : Expr
  later : List Expr
  span : Span

namespace Argument

def whole (a : Argument) : Expr :=
  .construct a.callee (a.front ++ a.arg :: a.later) a.span

variable (c : Context) (a : Argument)

/-- The construction is copied without its keywords. -/
def isCopied : Bool :=
  c.endsWithParen a.span && !c.anyRendering (a.front ++ a.arg :: a.later)

def before : List Char :=
  if a.isCopied c then
    Text.kept c.source (a.whole.keywordSpans c.source) ⟨a.span.start, a.arg.span.start⟩
  else
    (c.text a.callee.span).toList ++ "(".toList ++
      (c.renderAll a.front).flatMap fun r => r.text.toList ++ ", ".toList

def behind : List Char :=
  if a.isCopied c then
    Text.kept c.source (a.whole.keywordSpans c.source) ⟨a.arg.span.stop, a.span.stop⟩
  else
    ((c.renderAll a.later).flatMap fun r => ", ".toList ++ r.text.toList) ++ ")".toList

end Argument

theorem toList_intercalate_middle (separator text : String) (front later : List String) :
    (separator.intercalate (front ++ text :: later)).toList =
      (front.flatMap fun t => t.toList ++ separator.toList) ++
        (text.toList ++ later.flatMap fun t => separator.toList ++ t.toList) := by
  induction front with
  | nil =>
    induction later generalizing text with
    | nil => simp
    | cons t later ih =>
      have rest := ih t
      simp only [List.nil_append, List.flatMap_nil] at rest
      rw [List.nil_append, String.intercalate_cons_cons, String.toList_append, String.toList_append,
        rest]
      simp
  | cons t front ih =>
    obtain ⟨u, more, shape⟩ : ∃ u more, front ++ text :: later = u :: more := by
      cases front with
      | nil => exact ⟨text, later, rfl⟩
      | cons u front => exact ⟨u, front ++ text :: later, rfl⟩
    rw [shape] at ih
    rw [List.cons_append, shape, String.intercalate_cons_cons, String.toList_append,
      String.toList_append, ih, List.flatMap_cons]
    simp only [List.append_assoc]

namespace Argument

variable {c : Context} {a : Argument}

theorem mem_operands (a : Argument) : a.arg ∈ a.whole.operands := by
  simp [whole, Expr.operands]

theorem initializer_of_isCopied (plain : c.grammar.classes.keepsNew = false)
    (arranged : a.whole.Arranged c.source) (copied : a.isCopied c = true) :
    (c.renderInitializer a.whole).text.toList =
      a.before c ++ ((c.withoutNew a.arg).toList ++ a.behind c) := by
  have operand := Context.withoutNew_operand plain arranged a.mem_operands
  have written : c.renderInitializer a.whole = ⟨c.withoutNew a.whole, []⟩ := by
    rw [isCopied] at copied
    rw [whole, Context.renderInitializer, if_pos copied]
  rw [written, before, behind, if_pos copied, if_pos copied, operand]
  rfl

theorem initializer_of_not_isCopied (plain : c.grammar.classes.keepsNew = false)
    (unrendered : c.needsRendering a.arg = false) (rendered : a.isCopied c = false) :
    (c.renderInitializer a.whole).text.toList =
      a.before c ++ ((c.text a.arg.copiedSpan).toList ++ a.behind c) := by
  have written : c.renderInitializer a.whole =
      c.renderConstruction a.callee (a.front ++ a.arg :: a.later) := by
    rw [isCopied] at rendered
    rw [whole, Context.renderInitializer, rendered, if_neg Bool.false_ne_true]
  have one : c.renderAt (.within a.arg.span) a.arg = ⟨c.text a.arg.copiedSpan, []⟩ :=
    Context.render_of_not_needsRendering unrendered
  rw [written, Context.renderConstruction, plain, before, behind, rendered]
  simp only [Bool.false_eq_true, if_false, Rendering.commaSeparated, Context.renderAll_append,
    Context.renderAll, one, List.map_append, List.map_cons, String.toList_append,
    toList_intercalate_middle, List.flatMap_map]
  simp only [String.toList_empty, List.nil_append, List.append_assoc]

/-- An argument that is not rendered loses its keywords where the construction is copied. Where the
construction is written anew the argument stands as in the source, so its keywords are lost only if
there are none. -/
theorem initializer_argument_bare_iff (plain : c.grammar.classes.keepsNew = false)
    (arranged : a.whole.Arranged c.source) (unrendered : c.needsRendering a.arg = false) :
    (a.isCopied c = true → (c.renderInitializer a.whole).text.toList =
        a.before c ++ ((c.withoutNew a.arg).toList ++ a.behind c)) ∧
      (a.isCopied c = false → (c.renderInitializer a.whole).text.toList =
        a.before c ++ ((c.text a.arg.copiedSpan).toList ++ a.behind c)) ∧
      (a.arg.copiedSpan = a.arg.span →
        ((c.renderInitializer a.whole).text.toList =
            a.before c ++ ((c.withoutNew a.arg).toList ++ a.behind c) ↔
          a.isCopied c = true ∨ a.arg.keywordSpans c.source = [])) := by
  have inner := arranged.operand a.mem_operands
  refine ⟨initializer_of_isCopied plain arranged,
    initializer_of_not_isCopied plain unrendered, fun alone => ?_⟩
  cases copied : a.isCopied c with
  | true => simp [initializer_of_isCopied plain arranged copied]
  | false =>
    rw [initializer_of_not_isCopied plain unrendered copied, alone,
      ← Context.withoutNew_eq_text_iff plain inner, List.append_cancel_left_eq,
      List.append_cancel_right_eq, String.toList_inj]
    simp [eq_comm]

theorem initializer_argument_bare_iff_copied :
    let text := "let x = new A(new B(), [new C]);".toList
    let c : Context := ⟨.python, text⟩
    let a : Argument := ⟨.ident "A" ⟨12, 13⟩, [], .construct (.ident "B" ⟨18, 19⟩) [] ⟨14, 21⟩,
      [.array ⟨23, 30⟩], ⟨8, 31⟩⟩
    ((Program.ofTree text (Tree.parse text)).emit .python text).text .python = "x = A(B(), [new C])\n" ∧
      c.grammar.classes.keepsNew = false ∧ a.whole.Arranged text ∧
      c.needsRendering a.arg = false ∧ a.arg.copiedSpan = a.arg.span ∧
      (c.renderInitializer a.whole).text.toList =
        "A(".toList ++ ("B()".toList ++ ", [new C])".toList) ∧
      ((c.renderInitializer a.whole).text.toList =
          a.before c ++ ((c.withoutNew a.arg).toList ++ a.behind c) ↔
        a.isCopied c = true ∨ a.arg.keywordSpans text = []) := by
  intro text c a
  have plain : c.grammar.classes.keepsNew = false := rfl
  have arranged : a.whole.Arranged text := ⟨by decide, by decide, by decide, by decide⟩
  have unrendered : c.needsRendering a.arg = false := rfl
  exact ⟨by decide +kernel, plain, arranged, unrendered, rfl, by decide +kernel,
    (initializer_argument_bare_iff plain arranged unrendered).2.2 rfl⟩

/-- Beside a template, an argument keeps its keyword. -/
theorem rendered_sibling_keeps_keyword :
    let text := "let x = new A(new B(), \x60t\x60);".toList
    let c : Context := ⟨.python, text⟩
    let a : Argument := ⟨.ident "A" ⟨12, 13⟩, [], .construct (.ident "B" ⟨18, 19⟩) [] ⟨14, 21⟩,
      [.template ⟨23, 26⟩], ⟨8, 27⟩⟩
    ((Program.ofTree text (Tree.parse text)).emit .python text).text .python = "x = A(new B(), f't')\n" ∧
      c.grammar.classes.keepsNew = false ∧ a.whole.Arranged text ∧
      c.needsRendering a.arg = false ∧ a.arg.copiedSpan = a.arg.span ∧
      a.before c = "A(".toList ∧ c.withoutNew a.arg = "B()" ∧ a.behind c = ", f't')".toList ∧
      (c.renderInitializer a.whole).text = "A(new B(), f't')" := by
  intro text c a
  have arranged : a.whole.Arranged text := ⟨by decide, by decide, by decide, by decide⟩
  exact ⟨by decide +kernel, rfl, arranged, rfl, rfl, by decide +kernel, by decide +kernel,
    by decide +kernel, by decide +kernel⟩

end Argument

end Dialect
