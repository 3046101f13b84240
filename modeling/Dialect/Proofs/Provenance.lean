import Dialect.Emission.Statement
import Mathlib.Data.List.Basic

/-!
# Where line breaks and braces come from

Lines and blocks are told apart by line breaks and braces. Apart from the marks of blocks, the writer
puts in none of its own: those of a line stand in a spelling of the grammar, in a name of the program,
or in a text copied from the source. `parts` lists the names and the copied texts.
-/

namespace Dialect

namespace Text

/-- A character that ends a line, or opens or closes a block. -/
def isMark (ch : Char) : Bool :=
  ch = '\n' || ch = '{' || ch = '}'

/-- Every mark of a text stands in one of the parts. -/
def Traced (parts : List String) (cs : List Char) : Prop :=
  ∀ ch ∈ cs, isMark ch = true → ∃ part ∈ parts, ch ∈ part.toList

variable {parts : List String} {as bs : List Char}

@[simp]
theorem traced_nil : Traced parts [] := nofun

@[simp]
theorem traced_append : Traced parts (as ++ bs) ↔ Traced parts as ∧ Traced parts bs := by
  simp only [Traced, List.forall_mem_append]

@[simp]
theorem traced_cons_of_plain {ch : Char} (plain : isMark ch = false) :
    Traced parts (ch :: as) ↔ Traced parts as := by
  simp [Traced, plain]

theorem traced_cons {ch : Char} : Traced parts (ch :: as) ↔ Traced parts [ch] ∧ Traced parts as := by
  rw [← traced_append, List.singleton_append]

@[simp]
theorem traced_of_mem {part : String} (member : part ∈ parts) : Traced parts part.toList :=
  fun _ inside _ => ⟨part, member, inside⟩

theorem traced_of_plain (plain : ∀ ch ∈ as, isMark ch = false) : Traced parts as := by
  intro ch member mark
  rw [plain ch member] at mark
  contradiction

theorem Traced.subset (traced : Traced parts bs) (sub : as ⊆ bs) : Traced parts as :=
  fun ch member => traced ch (sub member)

theorem traced_flatMap {f : Char → List Char} (traced : Traced parts as)
    (image : ∀ ch, Traced parts [ch] → Traced parts (f ch)) : Traced parts (as.flatMap f) := by
  induction as with
  | nil => exact traced_nil
  | cons ch as ih =>
    rw [traced_cons] at traced
    rw [List.flatMap_cons, traced_append]
    exact ⟨image ch traced.1, ih traced.2⟩

theorem traced_intercalate {separator : String} {texts : List String}
    (between : Traced parts separator.toList) (each : ∀ t ∈ texts, Traced parts t.toList) :
    Traced parts (separator.intercalate texts).toList := by
  induction texts with
  | nil => exact traced_nil
  | cons t texts ih =>
    rw [List.forall_mem_cons] at each
    cases texts with
    | nil => simpa using each.1
    | cons u texts =>
      rw [String.intercalate_cons_cons, String.toList_append, String.toList_append, traced_append,
        traced_append]
      exact ⟨⟨each.1, between⟩, ih each.2⟩

theorem dropEndWhile_subset (p : Char → Bool) (cs : List Char) : dropEndWhile p cs ⊆ cs := by
  intro ch member
  have inside := (List.dropWhile_sublist p).subset (List.mem_reverse.mp member)
  exact List.mem_reverse.mp inside

theorem trim_subset (cs : List Char) : trim cs ⊆ cs := fun _ member =>
  (List.dropWhile_sublist isBlank).subset (dropEndWhile_subset isBlank _ member)

theorem traced_natRepr (n : Nat) : Traced parts n.repr.toList := by
  refine traced_of_plain fun ch member => ?_
  rw [Nat.repr_eq_ofList_toDigits, String.toList_ofList] at member
  have digit := Nat.isDigit_of_mem_toDigits (by decide) (by decide) member
  by_contra mark
  simp only [isMark, Bool.not_eq_false, Bool.or_eq_true, decide_eq_true_eq] at mark
  rcases mark with (rfl | rfl) | rfl <;> contradiction

theorem traced_intRepr (n : Int) : Traced parts n.repr.toList := by
  cases n with
  | ofNat n => exact traced_natRepr n
  | negSucc n => simpa [Int.repr, isMark] using traced_natRepr (n + 1)

end Text

open Text

variable {parts : List String}

theorem Template.traced_literalChar {t : TemplateSyntax} {ch : Char} (traced : Traced parts [ch]) :
    Traced parts (literalChar t ch) := by
  unfold literalChar
  split
  · exact traced_cons.mpr ⟨traced, traced⟩
  · split
    · exact (traced_cons_of_plain rfl).mpr traced
    · exact traced

theorem Template.traced_scan {t : TemplateSyntax} (start : t.interpolationStart ∈ parts)
    (stop : t.interpolationEnd ∈ parts) (depth : Nat) {cs : List Char} (traced : Traced parts cs) :
    Traced parts (scan t depth cs) := by
  fun_induction scan t depth cs with
  | case1 => exact traced_nil
  | case2 depth cs ih | case4 depth cs _ _ ih | case5 depth ch cs _ _ ih =>
    rw [traced_cons] at traced ⊢
    exact ⟨traced.1, ih traced.2⟩
  | case3 cs _ ih =>
    rw [traced_cons] at traced
    exact traced_append.mpr ⟨traced_of_mem stop, ih traced.2⟩
  | case6 => exact traced
  | case7 ch cs ih =>
    rw [traced_cons_of_plain rfl, traced_cons] at traced ⊢
    exact ⟨traced.1, ih traced.2⟩
  | case8 cs ih =>
    rw [traced_cons_of_plain rfl, traced_cons] at traced
    exact traced_append.mpr ⟨traced_of_mem start, ih traced.2⟩
  -- a brace may be doubled here, but only one that stands in the source
  | case9 ch cs _ _ _ ih =>
    rw [traced_cons] at traced
    exact traced_append.mpr ⟨traced_literalChar traced.1, ih traced.2⟩

theorem Template.inner_subset (cs : List Char) : inner cs ⊆ cs := by
  unfold inner
  split
  · next rest =>
    split
    · exact fun _ member => List.mem_cons_of_mem _ (List.dropLast_subset rest member)
    · exact List.Subset.refl _
  · exact List.Subset.refl _

theorem Template.traced_convert {t : TemplateSyntax} {raw : String} (copied : raw ∈ parts)
    (spelled : [t.opening, t.closing, t.interpolationStart, t.interpolationEnd] ⊆ parts) :
    Traced parts (convert t raw).toList := by
  simp only [List.cons_subset, List.nil_subset, and_true] at spelled
  obtain ⟨opening, closing, start, stop⟩ := spelled
  have scanned := traced_scan start stop 0 ((traced_of_mem copied).subset (inner_subset _))
  simp [convert, convertChars, opening, closing, scanned]

theorem Quotation.content?_subset {raw text : List Char} (found : content? raw = some text) :
    text ⊆ raw := by
  have inside {quote : Char} (found : between? quote raw = some text) : text ⊆ raw := by
    unfold between? at found
    split at found
    · split at found
      · cases found
        exact fun _ member => List.mem_cons_of_mem _ (List.dropLast_subset _ member)
      · cases found
    · cases found
  rcases Option.or_eq_some_iff.mp found with double | ⟨-, simple⟩
  · exact inside double
  · exact inside simple

theorem Quotation.traced_requote {quote raw : String} (spelled : quote ∈ parts)
    (copied : raw ∈ parts) : Traced parts (requote quote raw).toList := by
  simp only [requote, requoteChars, String.toList_ofList]
  split
  · next text found =>
    have inside := (traced_of_mem copied).subset (content?_subset found)
    split
    · simp [spelled, inside]
    · exact traced_of_mem copied
  · exact traced_of_mem copied

theorem Bound.traced_offset {bound : String} (copied : bound ∈ parts) (delta : Int) :
    Traced parts (offset delta bound).toList := by
  unfold offset
  split
  · exact traced_intRepr _
  · split <;> simp [copied, traced_intRepr, isMark]

theorem Bound.traced_negate {amount : String} (copied : amount ∈ parts) :
    Traced parts (negate amount).toList := by
  have trimmed := (traced_of_mem copied).subset (trim_subset amount.toList)
  simp only [negate, negateChars, String.toList_ofList]
  split
  · next cs shape =>
    have behind : Traced parts cs := by simpa [shape, isMark] using trimmed
    exact behind.subset (List.dropWhile_sublist isBlank).subset
  · split <;> simpa [isMark] using trimmed

namespace Import

theorem dropSteps_subset (cs : List Char) : dropSteps cs ⊆ cs := by
  fun_induction dropSteps cs with
  | case1 cs ih => exact fun _ member => by simp [ih member]
  | case2 cs ih => exact fun _ member => by simp [ih member]
  | case3 => exact List.Subset.refl _

theorem dropExtension_subset (cs : List Char) : dropExtension cs ⊆ cs := by
  unfold dropExtension
  cases found : [".js", ".ts", ".mjs"].findSome? fun ending => Text.stripEnd? ending.toList cs with
  | none => exact List.Subset.refl _
  | some rest =>
    obtain ⟨_, ending, _, _, stripped, _⟩ := List.findSome?_eq_some_iff.mp found
    rw [Text.stripEnd?_eq_some_iff.mp stripped]
    exact List.subset_append_left rest _

theorem submodule?_subset {g : Grammar} {specifier name : String}
    (found : Support.submodule? g specifier = some name) : name.toList ⊆ specifier.toList := by
  simp only [Support.submodule?] at found
  split at found
  · cases found
  · split at found
    · next stripped =>
      cases found
      rw [String.toList_ofList, Text.stripStart?_eq_some_iff.mp stripped]
      exact List.subset_append_right _ _
    · cases found

theorem traced_separated {separator : String} {cs : List Char} (spelled : separator ∈ parts)
    (traced : Traced parts cs) : Traced parts (separated separator cs).toList := by
  rw [separated, String.toList_ofList]
  refine traced_flatMap traced fun ch one => ?_
  split
  · exact traced_of_mem spelled
  · exact one

theorem traced_modulePath {g : Grammar} {specifier : String}
    (spelled : g.file.pathSeparator ∈ parts) (named : specifier ∈ parts) :
    Traced parts (modulePath g specifier).toList := by
  have whole := traced_of_mem named
  unfold modulePath
  split
  · next name found =>
    exact traced_separated spelled (whole.subset (submodule?_subset found))
  · exact traced_separated spelled (whole.subset fun _ member =>
      dropSteps_subset _ (dropExtension_subset _ member))

end Import

/-- The strings of a grammar that the writer puts into a line. -/
def Grammar.spellings (g : Grammar) : List String :=
  g.variableKeyword.toList ++
    [g.functionKeyword, g.classes.keyword, g.classes.constructorName, g.classes.receiverName,
      g.template.opening, g.template.closing, g.template.interpolationStart,
      g.template.interpolationEnd, g.control.ifKeyword, g.control.elseKeyword,
      g.control.elseIfKeyword, g.control.forKeyword, g.control.inKeyword, g.control.rangeFunction,
      g.control.whileKeyword, g.control.withKeyword, g.control.asKeyword, g.control.breakKeyword,
      g.control.continueKeyword, g.file.emptyBlock, g.file.stringQuote, g.file.pathSeparator]

namespace Context

variable (c : Context)

def bindingParts (e : Expr) : List String :=
  match e.unparen with
  | .ident name _ => [name]
  | _ => [c.text e.span]

mutual

/-- The names and source texts that a rendered expression is made of. -/
def renderParts (p : Placement) : Expr → List String
  | .paren inner _ => renderParts p inner
  | .template span => [c.text span]
  | .call callee args span =>
    if c.isNamedArgument callee then namedParts span args
    else if c.anyRendering args then c.text callee.span :: allParts args
    else [c.text span]
  | .sequence items span =>
    if c.anyRendering items then allParts items else [(p.copy c (.sequence items span)).text]
  | e => [(p.copy c e).text]

def allParts : List Expr → List String
  | [] => []
  | e :: es => renderParts (.within e.span) e ++ allParts es

def namedParts (span : Span) : List Expr → List String
  | [name, value] => c.bindingParts name ++ renderParts .value value
  | _ => [c.text span]

end

def callParts (callee : Expr) (args : List Expr) (span : Span) : List String :=
  if c.anyRendering args then c.text callee.span :: c.allParts args else [c.text span]

def initializerParts (e : Expr) : List String :=
  match e with
  | .literal _ span => [c.text span]
  | .construct callee args span =>
    if c.endsWithParen span && !c.anyRendering args then [c.withoutNew e]
    else c.text callee.span :: c.allParts args
  | .unary op argument span =>
    if op = "-" then
      match argument.unparen with
      | .literal _ literal => [c.text literal]
      | _ => [c.text span]
    else c.renderParts (.within e.span) e
  | _ => c.renderParts (.within e.span) e

/-- The test of a branch or loop without its parentheses. -/
def conditionPart (test : Expr) : String :=
  match test with
  | .paren inner _ => c.text inner.span
  | e => c.text e.span

def paramsParts (params : List Param) : List String :=
  params.flatMap fun p => p.name :: p.value.toList.map c.text

def startParts (init : Option Stmt) : List String :=
  (c.loopStart? init).elim [] fun start => [start.1, start.2]

def stopParts (test : Option Expr) : List String :=
  match test.map Expr.unparen with
  | some (.binary _ _ right _) => [c.text right.span]
  | _ => []

def stepParts (update : Option Expr) : List String :=
  match update.map Expr.unparen with
  | some (.assign _ _ right _) => [c.text right.span]
  | _ => []

/-- The name of a counting loop and the texts its range is computed from. -/
def loopParts (init : Option Stmt) (test update : Option Expr) : List String :=
  c.startParts init ++ c.stopParts test ++ c.stepParts update

variable {c} {parts : List String}

theorem traced_bindingName {e : Expr} (made : c.bindingParts e ⊆ parts) :
    Traced parts (c.bindingName e).toList := by
  unfold bindingName bindingParts at *
  -- a string literal loses its quotes, so its name is part of the copied text
  cases shape : e.unparen with
  | literal kind s =>
    simp only [shape, List.cons_subset, List.nil_subset, and_true] at made ⊢
    cases kind with
    | string =>
      simp only [Quotation.content]
      cases found : Quotation.content? (c.text e.span).toList with
      | none => exact traced_of_mem made
      | some cs =>
        have inside := (traced_of_mem made).subset (Quotation.content?_subset found)
        simpa using inside
    | _ => exact traced_of_mem made
  | _ =>
    simp only [shape, List.cons_subset, List.nil_subset, and_true] at made ⊢
    exact traced_of_mem made

theorem traced_copy {p : Placement} {e : Expr} (made : [(p.copy c e).text] ⊆ parts) :
    Traced parts (p.copy c e).text.toList :=
  traced_of_mem (made (List.mem_singleton_self _))

theorem traced_commaSeparated {rs : List Rendering}
    (each : ∀ r ∈ rs, Traced parts r.text.toList) :
    Traced parts (Rendering.commaSeparated rs).text.toList := by
  refine traced_intercalate (by simp [isMark]) ?_
  simpa using each

/-- A call is copied, or its callee is and its arguments are rendered. -/
theorem traced_call {callee : Expr} {args : List Expr} {span : Span}
    (each : c.allParts args ⊆ parts → ∀ r ∈ c.renderAll args, Traced parts r.text.toList)
    (made : c.callParts callee args span ⊆ parts) :
    Traced parts (c.renderCall callee args span).text.toList := by
  unfold renderCall callParts at *
  by_cases rendering : c.anyRendering args
  · rw [if_pos rendering, List.cons_subset] at made
    have list := traced_commaSeparated (each made.2)
    simp [rendering, made.1, list, isMark]
  · rw [if_neg rendering] at made ⊢
    exact traced_of_mem (made (List.mem_singleton_self _))

mutual

theorem traced_renderAt (spelled : c.grammar.spellings ⊆ parts) (p : Placement) (e : Expr)
    (made : c.renderParts p e ⊆ parts) : Traced parts (c.renderAt p e).text.toList := by
  match e with
  | .paren inner _ =>
    rw [renderAt]
    exact traced_renderAt spelled p inner made
  | .template span =>
    have copied := made (List.mem_singleton_self _)
    exact Template.traced_convert copied (List.Subset.trans (by simp [Grammar.spellings]) spelled)
  | .call callee args span =>
    simp only [renderAt, renderParts] at made ⊢
    by_cases named : c.isNamedArgument callee
    · rw [if_pos named] at made ⊢
      exact traced_renderNamed spelled span args made
    · rw [if_neg named] at made ⊢
      exact traced_call (traced_renderAll spelled args) made
  | .sequence items span =>
    simp only [renderAt, renderParts] at made ⊢
    by_cases rendering : c.anyRendering items
    · rw [if_pos rendering] at made ⊢
      exact traced_commaSeparated (traced_renderAll spelled items made)
    · rw [if_neg rendering] at made ⊢
      exact traced_copy made
  | .literal .string span =>
    cases p with
    | within whole => exact traced_of_mem (made (List.mem_singleton_self _))
    | value =>
      exact Quotation.traced_requote (spelled (by simp [Grammar.spellings]))
        (made (List.mem_singleton_self _))
  | .literal .number _ | .literal .boolean _ | .literal .null _ | .literal .undefined _
  | .literal .regex _ | .ident .. | .construct .. | .assign .. | .update .. | .binary ..
  | .unary .. | .member .. | .function .. | .array .. | .object .. | .other .. =>
    exact traced_copy made

theorem traced_renderAll (spelled : c.grammar.spellings ⊆ parts) (es : List Expr)
    (made : c.allParts es ⊆ parts) : ∀ r ∈ c.renderAll es, Traced parts r.text.toList := by
  match es with
  | [] => exact nofun
  | e :: es =>
    rw [allParts, List.append_subset] at made
    rw [renderAll, List.forall_mem_cons]
    exact ⟨traced_renderAt spelled _ e made.1, traced_renderAll spelled es made.2⟩

theorem traced_renderNamed (spelled : c.grammar.spellings ⊆ parts) (span : Span) (args : List Expr)
    (made : c.namedParts span args ⊆ parts) :
    Traced parts (c.renderNamed span args).text.toList := by
  match args with
  | [name, value] =>
    rw [namedParts, List.append_subset] at made
    have rendered := traced_renderAt spelled .value value made.2
    simp [renderNamed, traced_bindingName made.1, rendered, isMark]
  | [] | [_] | _ :: _ :: _ :: _ => exact traced_of_mem (made (List.mem_singleton_self _))

end

theorem traced_render (spelled : c.grammar.spellings ⊆ parts) {e : Expr}
    (made : c.renderParts (.within e.span) e ⊆ parts) : Traced parts (c.render e).text.toList :=
  traced_renderAt spelled (.within e.span) e made

theorem traced_renderCall (spelled : c.grammar.spellings ⊆ parts) {callee : Expr}
    {args : List Expr} {span : Span} (made : c.callParts callee args span ⊆ parts) :
    Traced parts (c.renderCall callee args span).text.toList :=
  traced_call (traced_renderAll spelled args) made

theorem traced_renderInitializer (spelled : c.grammar.spellings ⊆ parts) {e : Expr}
    (made : c.initializerParts e ⊆ parts) :
    Traced parts (c.renderInitializer e).text.toList := by
  cases e with
  | literal kind span => exact traced_of_mem (made (List.mem_singleton_self _))
  | construct callee args span =>
    simp only [renderInitializer, initializerParts] at *
    split at made
    · next kept =>
      rw [if_pos kept]
      exact traced_of_mem (made (List.mem_singleton_self _))
    · next anew =>
      rw [List.cons_subset] at made
      have list := traced_commaSeparated (traced_renderAll spelled args made.2)
      rw [if_neg anew, renderConstruction]
      split <;> simp [made.1, list, isMark]
  | unary op argument span =>
    simp only [renderInitializer, initializerParts] at *
    split at made
    · next minus =>
      rw [if_pos minus]
      cases shape : argument.unparen with
      | literal kind s =>
        simp only [shape] at made ⊢
        simp [made (List.mem_singleton_self _), isMark]
      | _ =>
        simp only [shape] at made ⊢
        exact traced_of_mem (made (List.mem_singleton_self _))
    · next other =>
      rw [if_neg other]
      exact traced_render spelled made
  | _ => exact traced_render spelled made

theorem traced_condition {test : Expr} (copied : c.conditionPart test ∈ parts) :
    Traced parts (c.condition test).toList := by
  have shape : c.condition test =
      if c.grammar.file.useBraces then "(" ++ c.conditionPart test ++ ")"
      else c.conditionPart test := by
    cases test <;> rfl
  rw [shape]
  split <;> simp [copied, isMark]

theorem traced_paramsText (spelled : c.grammar.spellings ⊆ parts) {params : List Param}
    (made : c.paramsParts params ⊆ parts) (receives : Bool) :
    Traced parts (c.paramsText receives params).toList := by
  refine traced_intercalate (by simp [isMark]) ?_
  simp only [List.forall_mem_append, List.forall_mem_map]
  constructor
  · intro name member
    have receiver : name = c.grammar.classes.receiverName := by
      split at member <;> simp_all
    exact receiver ▸ traced_of_mem (spelled (by simp [Grammar.spellings]))
  · intro p member
    have own : ∀ t ∈ p.name :: p.value.toList.map c.text, t ∈ parts := fun t inside =>
      made (List.mem_flatMap.mpr ⟨p, member, inside⟩)
    rw [List.forall_mem_cons] at own
    unfold paramText
    cases shape : p.value with
    | none => exact traced_of_mem own.1
    | some s =>
      have value : c.text s ∈ parts := own.2 _ (by simp [shape])
      simp [own.1, value, isMark]

theorem traced_functionHeader {keyword : Option String} {name params : String}
    (spelled : ∀ k, keyword = some k → k ∈ parts) (named : name ∈ parts)
    (listed : Traced parts params.toList) :
    Traced parts (functionHeader keyword name params).toList := by
  unfold functionHeader
  split
  · next k =>
    have keyword := spelled k rfl
    split <;> simp [keyword, named, listed, isMark]
  · simp [named, listed, isMark]

theorem traced_methodHeader (spelled : c.grammar.spellings ⊆ parts) {name : String}
    {params : List Param} (made : name :: c.paramsParts params ⊆ parts) (hasKeyword : Bool) :
    Traced parts (c.methodHeader name hasKeyword params).toList := by
  rw [List.cons_subset] at made
  refine traced_functionHeader ?_ made.1 (traced_paramsText spelled made.2 _)
  intro k chosen
  have keyword : c.grammar.functionKeyword = k := by simp_all
  exact keyword ▸ spelled (by simp [Grammar.spellings])

theorem traced_classHeader (spelled : c.grammar.spellings ⊆ parts) {name : String}
    {superclass : Option Span} (made : name :: superclass.toList.map c.text ⊆ parts) :
    Traced parts (c.classHeader name superclass).toList := by
  rw [List.cons_subset] at made
  have keyword : c.grammar.classes.keyword ∈ parts := spelled (by simp [Grammar.spellings])
  unfold classHeader
  cases superclass with
  | none => simp [keyword, made.1, isMark]
  | some s =>
    have parent : c.text s ∈ parts := made.2 (List.mem_singleton_self _)
    simp only
    split <;> simp [keyword, made.1, parent, isMark]

theorem traced_variableText (spelled : c.grammar.spellings ⊆ parts) {name value : String}
    (named : name ∈ parts) (valued : Traced parts value.toList) :
    Traced parts (c.variableText name value).toList := by
  unfold variableText
  split
  · next keyword given =>
    have spelt : keyword ∈ parts := spelled (by simp [Grammar.spellings, given])
    simp [spelt, named, valued, isMark]
  · simp [named, valued, isMark]

theorem traced_withHeader (spelled : c.grammar.spellings ⊆ parts) {resource binding : Expr}
    (made : c.renderParts (.within resource.span) resource ++ c.bindingParts binding ⊆ parts) :
    Traced parts (c.withHeader (c.render resource).text binding).toList := by
  rw [List.append_subset] at made
  have first : c.grammar.control.withKeyword ∈ parts := spelled (by simp [Grammar.spellings])
  have second : c.grammar.control.asKeyword ∈ parts := spelled (by simp [Grammar.spellings])
  have held := traced_render spelled made.1
  simp [withHeader, first, second, held, traced_bindingName made.2, isMark]

theorem traced_loopStop? {name stop : String} {test : Option Expr}
    (found : c.loopStop? name test = some stop) (made : c.stopParts test ⊆ parts) :
    Traced parts stop.toList := by
  unfold loopStop? stopParts at *
  split at found
  · next shape =>
    simp only [shape, List.cons_subset] at made
    have bound := traced_of_mem made.1
    have above := Bound.traced_offset made.1 1
    have below := Bound.traced_offset made.1 (-1)
    split at found
    · split at found
      case h_1 | h_2 | h_3 | h_4 => exact Option.some.inj found ▸ bound
      case h_5 => exact Option.some.inj found ▸ above
      case h_6 => exact Option.some.inj found ▸ below
      case h_7 => cases found
    · cases found
  · cases found

theorem traced_loopStep? {name step : String} {update : Option Expr}
    (found : c.loopStep? name update = some step) (made : c.stepParts update ⊆ parts) :
    Traced parts step.toList := by
  unfold loopStep? stepParts at *
  split at found
  · split at found
    · split at found <;> cases found <;> simp [isMark]
    · cases found
  · next shape =>
    simp only [shape, List.cons_subset] at made
    split at found
    · split at found
      · exact Option.some.inj found ▸ traced_of_mem made.1
      · exact Option.some.inj found ▸ Bound.traced_negate made.1
      · cases found
    · cases found
  · cases found

theorem traced_countingHeader (spelled : c.grammar.spellings ⊆ parts) {init : Option Stmt}
    {test update : Option Expr} {l : CountingLoop}
    (counts : c.countingLoop? init test update = some l)
    (made : c.loopParts init test update ⊆ parts) :
    Traced parts (c.countingHeader l).toList := by
  simp only [loopParts, List.append_subset] at made
  obtain ⟨⟨inStart, inStop⟩, inStep⟩ := made
  simp only [countingLoop?, Option.bind_eq_bind, Option.bind_eq_some_iff, Option.pure_def,
    Option.some.injEq] at counts
  obtain ⟨⟨name, start⟩, started, stop, stopped, step, stepped, rfl⟩ := counts
  simp only [startParts, started, Option.elim_some, List.cons_subset] at inStart
  have hasStop := traced_loopStop? stopped inStop
  have hasStep := traced_loopStep? stepped inStep
  have first : c.grammar.control.forKeyword ∈ parts := spelled (by simp [Grammar.spellings])
  have second : c.grammar.control.inKeyword ∈ parts := spelled (by simp [Grammar.spellings])
  have third : c.grammar.control.rangeFunction ∈ parts := spelled (by simp [Grammar.spellings])
  simp [countingHeader, first, second, third, inStart.1, inStart.2.1, hasStop, hasStep, isMark]

end Context

def ImportSpecifier.names : ImportSpecifier → List String
  | .main name | .everything name => [name]
  | .named imported name => [imported, name]

theorem Import.traced_linesOf {module : String} {specifiers : List ImportSpecifier}
    (path : Traced parts module.toList) (named : specifiers.flatMap ImportSpecifier.names ⊆ parts) :
    ∀ l ∈ linesOf module specifiers, Traced parts l.toList := by
  have inside : ∀ s ∈ specifiers, ∀ name ∈ s.names, name ∈ parts := fun s member name own =>
    named (List.mem_flatMap.mpr ⟨s, member, own⟩)
  simp only [linesOf, List.forall_mem_append]
  refine ⟨⟨?_, ?_⟩, ?_⟩
  · intro l member
    obtain ⟨s, given, written⟩ := List.mem_filterMap.mp member
    have own := inside s given
    cases s with
    | main name | everything name =>
      have known : name ∈ parts := own name (List.mem_singleton_self _)
      simp only [wholeLine?, Option.some.injEq] at written
      subst written
      split <;> simp [path, known, isMark]
    | named imported name => cases written
  · intro l member
    split at member
    · cases member
    · obtain rfl := List.mem_singleton.mp member
      have list : Traced parts (", ".intercalate (specifiers.filterMap namedItem?)).toList := by
        refine traced_intercalate (by simp [isMark]) fun item listed => ?_
        obtain ⟨s, given, written⟩ := List.mem_filterMap.mp listed
        have own := inside s given
        cases s with
        | main name | everything name => cases written
        | named imported name =>
          have first : imported ∈ parts := own imported (by simp [ImportSpecifier.names])
          have second : name ∈ parts := own name (by simp [ImportSpecifier.names])
          simp only [namedItem?, Option.some.injEq] at written
          subst written
          split <;> simp [first, second, isMark]
      simpa [path, isMark] using list
  · intro l member
    split at member
    · obtain rfl := List.mem_singleton.mp member
      simp [path, isMark]
    · cases member

end Dialect
