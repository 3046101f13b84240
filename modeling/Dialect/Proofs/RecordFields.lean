import Dialect.Proofs.NormalForms
import Dialect.Proofs.RoundTrip
import Mathlib.Data.Finset.Insert
import Mathlib.Data.List.Pairwise

/-!
# Records field by field

A record is read the same from members in any order if its fields do not get in each other's way. So
what is read off a document and off its normal form differs at most in what single fields make of
their own values, and what one field makes of its value does not depend on the others.
-/

namespace Dialect.Json

def isNull : Json → Bool
  | .null => true
  | .bool _ | .number _ | .string _ | .array _ _ | .object _ _ | .flawed _ _ => false

theorem isNull_normal (j : Json) : j.normal.isNull = j.isNull := by
  cases j <;> rfl

/-! ## Members in any order -/

variable {σ : Type} {fields : List (RecordField σ)}

theorem optionalField_set {α : Type} (name : String) (read : Json → Except Fault α)
    (put : α → σ → σ) (otherNames : List String) (j : Json) (s : σ) :
    (optionalField name read put otherNames).set j s =
      if j.isNull then .ok s else (read j).map (put · s) := by
  cases j <;> rfl

/-- Setting both fields comes to the same in either order. -/
def RecordField.Commutes (f g : RecordField σ) : Prop :=
  ∀ a b s, ((f.set a s).toOption.bind fun t => (g.set b t).toOption) =
    (g.set b s).toOption.bind fun t => (f.set a t).toOption

theorem RecordField.Commutes.symm {f g : RecordField σ} (commutes : f.Commutes g) : g.Commutes f :=
  fun a b s => (commutes b a s).symm

/-- Sets a field that is not yet among the names of the fields set so far. -/
def RecordField.setOnce (f : RecordField σ) (j : Json) (state : Finset String × σ) :
    Option (Finset String × σ) :=
  if f.name ∈ state.1 then none
  else (f.set j state.2).toOption.map (insert f.name state.1, ·)

/-- What a member makes of the names of the fields set so far and the record. -/
def step (fields : List (RecordField σ)) (state : Finset String × σ) (m : JsonMember) :
    Option (Finset String × σ) :=
  m.key.toOption.bind fun key =>
    match fields.find? (·.answersTo key) with
    | some field => field.setOnce m.value state
    | none => if m.value.skip.isNone then some state else none

section

variable {key : String} {j : Json} {state : Finset String × σ} {f : RecordField σ}

theorem step_of_found (found : fields.find? (·.answersTo key) = some f) :
    step fields state ⟨.ok key, j⟩ = f.setOnce j state := by
  simp only [step, JsonMember.key, JsonMember.value, Except.toOption, Option.bind_some, found]

theorem step_of_unknown (unknown : fields.find? (·.answersTo key) = none) :
    step fields state ⟨.ok key, j⟩ = if j.skip.isNone then some state else none := by
  simp [step, JsonMember.key, JsonMember.value, Except.toOption, unknown]

end

theorem toOption_setMembers (fields : List (RecordField σ)) (ms : List JsonMember)
    (seen : List String) (s : σ) :
    (setMembers fields ms seen s).toOption =
      (ms.foldlM (step fields) (seen.toFinset, s)).map Prod.snd := by
  induction ms generalizing seen s with
  | nil => rfl
  | cons m ms ih =>
    obtain ⟨key, value⟩ := m
    rw [List.foldlM_cons]
    cases key with
    | error f => rfl
    | ok key =>
      simp only [setMembers, bind, Except.bind]
      cases found : fields.find? (·.answersTo key) with
      | some f =>
        rw [step_of_found found, RecordField.setOnce]
        by_cases known : f.name ∈ seen
        · simp [known, Except.toOption]
        · cases set : f.set value s with
          | error fault => simp [known, set, Except.toOption]
          | ok t =>
            have rest := ih (f.name :: seen) t
            rw [List.toFinset_cons] at rest
            simpa [known, set, Except.toOption] using rest
      | none =>
        rw [step_of_unknown found]
        cases fault : value.skip with
        | some fault => rfl
        | none => exact ih seen s

theorem commutes_of_mem (commuting : fields.Pairwise RecordField.Commutes) {f g : RecordField σ}
    (left : f ∈ fields) (right : g ∈ fields) (different : f.name ≠ g.name) : f.Commutes g := by
  have symmetric : Std.Symm (RecordField.Commutes (σ := σ)) := ⟨fun _ _ => .symm⟩
  exact commuting.forall left right fun same => different (same ▸ rfl)

/-- A field that has been set, or is the same as the one before, is not set. -/
theorem setOnce_bind_eq_none {f g : RecordField σ} {seen : Finset String}
    (known : f.name ∈ seen ∨ f.name = g.name) (j j' : Json) (s : σ) :
    ((g.setOnce j' (seen, s)).bind fun next => f.setOnce j next) = none := by
  rw [Option.bind_eq_none_iff]
  intro next set
  unfold RecordField.setOnce at set
  split at set
  · cases set
  · obtain ⟨t, -, rfl⟩ := Option.map_eq_some_iff.mp set
    have among : f.name ∈ insert g.name seen := Finset.mem_insert.mpr known.symm
    exact if_pos among

theorem setOnce_comm {f g : RecordField σ} (commutes : f.name ≠ g.name → f.Commutes g)
    (j j' : Json) (state : Finset String × σ) :
    ((f.setOnce j state).bind fun next => g.setOnce j' next) =
      (g.setOnce j' state).bind fun next => f.setOnce j next := by
  obtain ⟨seen, s⟩ := state
  by_cases same : f.name = g.name
  · rw [setOnce_bind_eq_none (.inr same.symm), setOnce_bind_eq_none (.inr same)]
  · by_cases known : f.name ∈ seen
    · rw [setOnce_bind_eq_none (.inl known), RecordField.setOnce, if_pos known, Option.bind_none]
    · by_cases known' : g.name ∈ seen
      · rw [setOnce_bind_eq_none (.inl known'), RecordField.setOnce.eq_def g, if_pos known',
          Option.bind_none]
      · -- Only here both are set; otherwise neither order gets through.
        have swapped := congrArg (Option.map (insert g.name (insert f.name seen), ·))
          (commutes same j j' s)
        simp only [Option.map_bind] at swapped
        simpa [RecordField.setOnce, known, known', same, Ne.symm same, Option.bind_map,
          Finset.insert_comm, Function.comp_def] using swapped

/-- Fields that leave alone what has been set by one that is not set again. -/
theorem foldlM_step_ignores {put : σ → σ} {name : String}
    (ignores : ∀ f ∈ fields, f.name ≠ name → ∀ j s, f.set j (put s) = (f.set j s).map put)
    (ms : List JsonMember) {seen : Finset String} (set : name ∈ seen) (s : σ) :
    ((ms.foldlM (step fields) (seen, put s)).map Prod.snd) =
      ((ms.foldlM (step fields) (seen, s)).map Prod.snd).map put := by
  induction ms generalizing seen s with
  | nil => rfl
  | cons m ms ih =>
    obtain ⟨key, value⟩ := m
    rw [List.foldlM_cons, List.foldlM_cons]
    cases key with
    | error fault => rfl
    | ok key =>
      cases found : fields.find? (·.answersTo key) with
      | none =>
        rw [step_of_unknown found, step_of_unknown found]
        split
        · exact ih set s
        · rfl
      | some f =>
        rw [step_of_found found, step_of_found found, RecordField.setOnce, RecordField.setOnce]
        by_cases known : f.name ∈ seen
        · rw [if_pos known, if_pos known]
          rfl
        · have different : f.name ≠ name := fun same => known (same ▸ set)
          have ignored := ignores f (List.mem_of_find?_eq_some found) different value s
          rw [if_neg known, if_neg known, ignored]
          cases f.set value s with
          | error fault => rfl
          | ok t => exact ih (Finset.mem_insert_of_mem set) t

/-- Two members come to the same in either order. -/
theorem step_comm (commuting : fields.Pairwise RecordField.Commutes) (m m' : JsonMember)
    (state : Finset String × σ) :
    ((step fields state m).bind fun next => step fields next m') =
      (step fields state m').bind fun next => step fields next m := by
  obtain ⟨key, j⟩ := m
  obtain ⟨key', j'⟩ := m'
  cases key with
  | error f => cases step fields state ⟨key', j'⟩ <;> rfl
  | ok key =>
    cases key' with
    | error f => cases step fields state ⟨.ok key, j⟩ <;> rfl
    | ok key' =>
      cases found : fields.find? (·.answersTo key) with
      | none => cases skipped : j.skip <;> simp [step_of_unknown found, skipped]
      | some f =>
        cases found' : fields.find? (·.answersTo key') with
        | none => cases skipped : j'.skip <;> simp [step_of_unknown found', skipped]
        | some g =>
          simp only [step_of_found found, step_of_found found']
          exact setOnce_comm (commutes_of_mem commuting (List.mem_of_find?_eq_some found)
            (List.mem_of_find?_eq_some found')) j j' state

/-- The members in any order set the same record. -/
theorem foldlM_step_perm (commuting : fields.Pairwise RecordField.Commutes)
    {ms ms' : List JsonMember} (perm : ms.Perm ms') (state : Finset String × σ) :
    ms.foldlM (step fields) state = ms'.foldlM (step fields) state := by
  induction perm generalizing state with
  | nil => rfl
  | cons m _ ih =>
    rw [List.foldlM_cons, List.foldlM_cons]
    exact bind_congr ih
  | swap m m' ms =>
    simp only [List.foldlM_cons, ← bind_assoc]
    exact congrArg (· >>= ms.foldlM (step fields)) (step_comm commuting m' m state)
  | trans _ _ ih ih' => exact (ih state).trans (ih' state)

/-! ## Values and their normal forms -/

/-- The field makes related records of related ones, one from the normal form of a value and the
other from the value. -/
def RecordField.Alike (R : σ → σ → Prop) (f : RecordField σ) : Prop :=
  ∀ j, j.Clean → ∀ s t, R s t → Option.Rel R (f.set j.normal s).toOption (f.set j t).toOption

section Alike

variable {α β : Type} {R : σ → σ → Prop}

theorem rel_bind {Q : α → α → Prop} {S : β → β → Prop} {a b : Option α} {f g : α → Option β}
    (rel : Option.Rel Q a b) (next : ∀ x y, Q x y → Option.Rel S (f x) (g y)) :
    Option.Rel S (a.bind f) (b.bind g) := by
  cases rel with
  | none => exact .none
  | some related => exact next _ _ related

theorem rel_map {Q : α → α → Prop} {S : β → β → Prop} {a b : Option α} {f g : α → β}
    (rel : Option.Rel Q a b) (next : ∀ x y, Q x y → S (f x) (g y)) :
    Option.Rel S (a.map f) (b.map g) := by
  cases rel with
  | none => exact .none
  | some related => exact .some (next _ _ related)

theorem foldlM_rel {Q : β → β → Prop} {step : β → α → Option β} {change : α → α} {as : List α}
    (steps : ∀ a ∈ as, ∀ x y, Q x y → Option.Rel Q (step x (change a)) (step y a)) {x y : β}
    (start : Q x y) : Option.Rel Q ((as.map change).foldlM step x) (as.foldlM step y) := by
  induction as generalizing x y with
  | nil => exact .some start
  | cons a as ih =>
    obtain ⟨first, rest⟩ := List.forall_mem_cons.mp steps
    rw [List.map_cons, List.foldlM_cons, List.foldlM_cons]
    exact rel_bind (first x y start) fun _ _ => ih rest

/-- The same fields have been set, and the records are related. -/
def Lockstep (R : σ → σ → Prop) (p q : Finset String × σ) : Prop :=
  p.1 = q.1 ∧ R p.2 q.2

theorem step_normal (alike : ∀ f ∈ fields, f.Alike R) {m : JsonMember}
    (readable : (∃ key, m.key = .ok key) ∧ m.value.Clean) (p q : Finset String × σ)
    (related : Lockstep R p q) :
    Option.Rel (Lockstep R) (step fields p m.normal) (step fields q m) := by
  obtain ⟨key, j⟩ := m
  obtain ⟨⟨key, rfl⟩, clean⟩ := readable
  obtain ⟨seen, s⟩ := p
  obtain ⟨seen', t⟩ := q
  obtain ⟨rfl, related⟩ := related
  have normal : JsonMember.normal ⟨.ok key, j⟩ = ⟨.ok key, j.normal⟩ := rfl
  rw [normal]
  cases found : fields.find? (·.answersTo key) with
  | some f =>
    rw [step_of_found found, step_of_found found, RecordField.setOnce, RecordField.setOnce]
    split
    · exact .none
    · have set := alike f (List.mem_of_find?_eq_some found) j clean s t related
      exact rel_map set fun _ _ related => ⟨rfl, related⟩
  | none =>
    obtain ⟨skipped, skipped'⟩ : j.skip = none ∧ j.normal.skip = none := Clean.skip clean
    rw [step_of_unknown found, step_of_unknown found, skipped, skipped']
    exact .some ⟨rfl, related⟩

theorem toOption_eq_some {ε : Type} {a : Except ε α} {x : α} :
    a.toOption = some x ↔ a = .ok x := by
  cases a <;> simp [Except.toOption]

theorem toOption_bind {ε : Type} (a : Except ε α) (f : α → Except ε β) :
    (a >>= f).toOption = a.toOption.bind fun x => (f x).toOption := by
  cases a <;> rfl

theorem exists_of_bind {ε : Type} {a : Except ε α} {f : α → Except ε β} {y : β}
    (done : (a >>= f) = .ok y) : ∃ x, a = .ok x ∧ f x = .ok y := by
  cases a with
  | error e => cases done
  | ok x => exact ⟨x, rfl, done⟩

theorem eq_of_finish {fault : Option Fault} {x y : α} (done : finish fault x = .ok y) : x = y := by
  cases fault <;> cases done
  rfl

theorem toOption_map {ε : Type} (a : Except ε α) (f : α → β) :
    (a.map f).toOption = a.toOption.map f := by
  cases a <;> rfl

theorem setItems_normal (alike : ∀ f ∈ fields, f.Alike R) {js : List Json}
    (clean : ∀ j ∈ js, j.Clean) {s t : σ} (related : R s t) :
    Option.Rel R (setItems fields (js.map normal) s).toOption (setItems fields js t).toOption := by
  induction fields generalizing js s t with
  | nil =>
    cases js with
    | nil => exact .some related
    | cons j js => exact .none
  | cons f fields ih =>
    cases js with
    | nil => exact .some related
    | cons j js =>
      obtain ⟨first, rest⟩ := List.forall_mem_cons.mp clean
      obtain ⟨own, others⟩ := List.forall_mem_cons.mp alike
      rw [List.map_cons, setItems, setItems, toOption_bind, toOption_bind]
      exact rel_bind (own j first s t related) fun _ _ => ih others rest

theorem toOption_readRecord_object (ms : List JsonMember) (s : σ) :
    (readRecord fields s (.object ms none)).toOption = (setMembers fields ms [] s).toOption := by
  rw [readRecord]
  cases setMembers fields ms [] s <;> rfl

theorem toOption_readRecord_array (js : List Json) (s : σ) :
    (readRecord fields s (.array js none)).toOption = (setItems fields js s).toOption := by
  rw [readRecord]
  cases setItems fields js s <;> rfl

/-- A record is read off a normal form as its fields are. -/
theorem readRecord_normal (commuting : fields.Pairwise RecordField.Commutes)
    (alike : ∀ f ∈ fields, f.Alike R) {j : Json} (clean : j.Clean) {s t : σ} (related : R s t) :
    Option.Rel R (readRecord fields s j.normal).toOption (readRecord fields t j).toOption := by
  cases j with
  | object ms fault =>
    obtain ⟨rfl, distinct, inner⟩ := clean.of_object
    have perm := named_normalMembers_perm (fun m member => (inner m member).1) distinct
    have start : Lockstep R (([] : List String).toFinset, s) (([] : List String).toFinset, t) :=
      ⟨rfl, related⟩
    -- First the members in normal form but in their old order, then in the order of the keys.
    have folds := foldlM_rel (fun m member => step_normal alike (inner m member)) start
    rw [← foldlM_step_perm commuting perm] at folds
    rw [normal, record, ← named, toOption_readRecord_object, toOption_readRecord_object,
      toOption_setMembers, toOption_setMembers]
    exact rel_map folds fun _ _ related => related.2
  | array items fault =>
    obtain ⟨rfl, inner⟩ := clean.of_array
    rw [normal, list, normalItems_eq, toOption_readRecord_array, toOption_readRecord_array]
    exact setItems_normal alike inner related
  | null => exact .none
  | bool value => exact .none
  | number text => exact .none
  | string text => exact .none
  | flawed read skipped => exact .none

theorem alike_optionalField {name : String} {read : Json → Except Fault α} {put : α → σ → σ}
    {otherNames : List String} {V : α → α → Prop}
    (reads : ∀ j, j.Clean → Option.Rel V (read j.normal).toOption (read j).toOption)
    (puts : ∀ v w s t, V v w → R s t → R (put v s) (put w t)) :
    (optionalField name read put otherNames).Alike R := by
  intro j clean s t related
  rw [optionalField_set, optionalField_set, isNull_normal]
  split
  · exact .some related
  · rw [toOption_map, toOption_map]
    exact rel_map (reads j clean) fun v w same => puts v w s t same related

theorem alike_nestedField {τ : Type} {S : τ → τ → Prop} {name : String}
    {inner : List (RecordField τ)} {get : σ → τ} {put : τ → σ → σ}
    (commuting : inner.Pairwise RecordField.Commutes) (alike : ∀ f ∈ inner, f.Alike S)
    (gets : ∀ s t, R s t → S (get s) (get t))
    (puts : ∀ v w s t, S v w → R s t → R (put v s) (put w t)) :
    (nestedField name inner get put).Alike R := by
  intro j clean s t related
  simp only [nestedField, toOption_map]
  exact rel_map (readRecord_normal commuting alike clean (gets s t related)) fun v w same =>
    puts v w s t same related

end Alike

/-! ## What a single field sets -/

section Shows

variable {α : Type} {view : σ → α} {observe : Json → α → α} {before after : List (RecordField σ)}
  {f : RecordField σ}

/-- Only the field in the middle changes what is seen of a record, and it goes by one name. -/
structure Shows (view : σ → α) (observe : Json → α → α) (before : List (RecordField σ))
    (f : RecordField σ) (after : List (RecordField σ)) : Prop where
  own : ∀ j s s', f.set j s = .ok s' → view s' = observe j (view s)
  others : ∀ g ∈ before ++ after, ∀ x, g.Keeps (view · = x)
  single : f.otherNames = []
  apart : ∀ g ∈ before ++ after, g.answersTo f.name = false

namespace Shows

theorem found_cases (shows : Shows view observe before f after) {key : String} {g : RecordField σ}
    (found : (before ++ f :: after).find? (·.answersTo key) = some g) :
    key = f.name ∧ g = f ∨ key ≠ f.name ∧ g.name ≠ f.name ∧ g ∈ before ++ after := by
  have answers : g.answersTo key = true := List.find?_some found
  have among : g = f ∨ g ∈ before ++ after := by
    have member := List.mem_of_find?_eq_some found
    rw [List.mem_append, List.mem_cons] at member
    rw [List.mem_append]
    tauto
  rcases among with rfl | other
  · refine .inl ⟨?_, rfl⟩
    simpa [RecordField.answersTo, shows.single, eq_comm] using answers
  · have silent := shows.apart g other
    refine .inr ⟨?_, ?_, other⟩
    · rintro rfl
      rw [silent] at answers
      cases answers
    · intro same
      rw [← same, answersTo_name] at silent
      cases silent

theorem step_cases (shows : Shows view observe before f after) {key : String} {j : Json}
    {seen seen' : Finset String} {s s' : σ}
    (done : step (before ++ f :: after) (seen, s) ⟨.ok key, j⟩ = some (seen', s')) :
    key = f.name ∧ f.name ∉ seen ∧ f.name ∈ seen' ∧ view s' = observe j (view s) ∨
      key ≠ f.name ∧ (f.name ∈ seen' ↔ f.name ∈ seen) ∧ view s' = view s := by
  cases found : (before ++ f :: after).find? (·.answersTo key) with
  | none =>
    have other : key ≠ f.name := by
      rintro rfl
      have silent := List.find?_eq_none.mp found f (by simp)
      exact silent (answersTo_name f)
    rw [step_of_unknown found] at done
    split at done
    · cases done
      exact .inr ⟨other, Iff.rfl, rfl⟩
    · cases done
  | some g =>
    rw [step_of_found found, RecordField.setOnce] at done
    split at done
    · cases done
    · next unset =>
      obtain ⟨t, set, same⟩ := Option.map_eq_some_iff.mp done
      cases same
      have set := toOption_eq_some.mp set
      rcases shows.found_cases found with ⟨rfl, rfl⟩ | ⟨other, different, among⟩
      · exact .inl ⟨rfl, unset, Finset.mem_insert_self _ _, shows.own j s s' set⟩
      · refine .inr ⟨other, ?_, shows.others g among (view s) j s s' rfl set⟩
        rw [Finset.mem_insert, or_iff_right (Ne.symm different)]

theorem foldlM_step (shows : Shows view observe before f after) {ms : List JsonMember}
    {seen seen' : Finset String} {s s' : σ}
    (done : ms.foldlM (step (before ++ f :: after)) (seen, s) = some (seen', s')) :
    view s' =
      if f.name ∈ seen then view s
      else ((member? f.name ms).map (observe · (view s))).getD (view s) := by
  induction ms generalizing seen s with
  | nil =>
    cases done
    exact (ite_self _).symm
  | cons m ms ih =>
    rw [List.foldlM_cons] at done
    obtain ⟨⟨middle, t⟩, first, rest⟩ := Option.bind_eq_some_iff.mp done
    obtain ⟨key, j⟩ := m
    cases key with
    | error fault => cases first
    | ok key =>
      rw [ih rest, member?_cons_ok]
      rcases shows.step_cases first with ⟨rfl, unset, set, seenThere⟩ | ⟨other, same, unseen⟩
      · rw [if_pos set, if_neg unset, if_pos rfl, seenThere]
        rfl
      · simp only [same, unseen, if_neg other]

theorem setItems (shows : Shows view observe before f after) {js : List Json} {s s' : σ}
    (done : Json.setItems (before ++ f :: after) js s = .ok s') :
    view s' = (js[before.length]?.map (observe · (view s))).getD (view s) := by
  obtain ⟨own, others, -, -⟩ := shows
  obtain ⟨earlier, later⟩ := List.forall_mem_append.mp others
  clear others
  induction before generalizing js s with
  | nil =>
    cases js with
    | nil =>
      cases done
      rfl
    | cons j js =>
      obtain ⟨t, set, rest⟩ := exists_of_bind done
      have kept := setItems_keeps (fun g member => later g member (view t)) rfl rest
      exact kept.trans (own j s t set)
  | cons g before ih =>
    cases js with
    | nil =>
      cases done
      rfl
    | cons j js =>
      obtain ⟨t, set, rest⟩ := exists_of_bind done
      obtain ⟨first, earlier⟩ := List.forall_mem_cons.mp earlier
      rw [ih rest earlier, first (view s) j s t rfl set]
      rfl

theorem readRecord (shows : Shows view observe before f after) {j : Json} {s s' : σ}
    (done : Json.readRecord (before ++ f :: after) s j = .ok s') :
    view s' = ((j.field? f.name before.length).map (observe · (view s))).getD (view s) := by
  cases j with
  | object ms fault =>
    obtain ⟨t, set, finished⟩ := exists_of_bind done
    obtain rfl := eq_of_finish finished
    have fold := toOption_setMembers (before ++ f :: after) ms [] s
    rw [toOption_eq_some.mpr set] at fold
    obtain ⟨⟨seen, t⟩, folded, rfl⟩ := Option.map_eq_some_iff.mp fold.symm
    have shown := shows.foldlM_step folded
    rwa [if_neg (by simp)] at shown
  | array items fault =>
    obtain ⟨t, set, finished⟩ := exists_of_bind done
    obtain rfl := eq_of_finish finished
    exact shows.setItems set
  | null => cases done
  | bool value => cases done
  | number text => cases done
  | string text => cases done
  | flawed read skipped => cases done

end Shows

theorem keeps_view_optionalField {β : Type} {name : String} {read : Json → Except Fault β}
    {put : β → σ → σ} {otherNames : List String} (same : ∀ v s, view (put v s) = view s) (x : α) :
    (optionalField name read put otherNames).Keeps (view · = x) :=
  keeps_optionalField fun v s kept => (same v s).trans kept

theorem keeps_view_nestedField {τ : Type} {name : String} {inner : List (RecordField τ)}
    {get : σ → τ} {put : τ → σ → σ} (same : ∀ v s, view (put v s) = view s) (x : α) :
    (nestedField name inner get put).Keeps (view · = x) :=
  keeps_nestedField (Q := fun _ => True) (fun _ _ _ _ _ _ _ => trivial) (fun _ _ => trivial)
    fun v s kept _ => (same v s).trans kept

end Shows

/-! ## Fields that do not get in each other's way -/

section Commutes

variable {α β τ υ : Type} {f g : RecordField σ} {get : σ → τ} {get' : σ → υ}

/-- The field puts into the record what it makes of a value and of a part of the record. -/
structure RecordField.Acts (f : RecordField σ) (get : σ → τ) (change : Json → τ → Option α)
    (put : α → σ → σ) : Prop where
  set : ∀ j s, (f.set j s).toOption = (change j (get s)).map (put · s)

theorem RecordField.Acts.commutes {change : Json → τ → Option α} {change' : Json → υ → Option β}
    {put : α → σ → σ} {put' : β → σ → σ} (acts : f.Acts get change put)
    (acts' : g.Acts get' change' put') (gets : ∀ v s, get' (put v s) = get' s)
    (gets' : ∀ v s, get (put' v s) = get s) (puts : ∀ v w s, put' w (put v s) = put v (put' w s)) :
    f.Commutes g := by
  intro a b s
  cases left : change a (get s) <;> cases right : change' b (get' s) <;>
    simp [acts.set, acts'.set, gets, gets', left, right, puts]

theorem acts_nestedField (name : String) (inner : List (RecordField τ)) (get : σ → τ)
    (put : τ → σ → σ) :
    (nestedField name inner get put).Acts get (fun j s => (readRecord inner s j).toOption) put :=
  ⟨fun _ _ => toOption_map ..⟩

/-- Nothing is put for `null`. -/
def given (read : Json → Except Fault α) (j : Json) (_ : Unit) : Option (Option α) :=
  if j.isNull then some none else (read j).toOption.map some

theorem acts_optionalField (name : String) (read : Json → Except Fault α) (put : α → σ → σ)
    (otherNames : List String) :
    (optionalField name read put otherNames).Acts (fun _ => ()) (given read)
      fun v s => v.elim s (put · s) := by
  refine ⟨fun j s => ?_⟩
  rw [optionalField_set, given]
  split
  · rfl
  · rw [toOption_map, Option.map_map]
    rfl

variable {name name' : String} {read : Json → Except Fault α} {read' : Json → Except Fault β}
  {put : α → σ → σ} {otherNames otherNames' : List String}

theorem commutes_optionalField {put' : β → σ → σ}
    (puts : ∀ v w s, put' w (put v s) = put v (put' w s)) :
    (optionalField name read put otherNames).Commutes
      (optionalField name' read' put' otherNames') := by
  refine (acts_optionalField ..).commutes (acts_optionalField ..) (fun _ _ => rfl) (fun _ _ => rfl)
    fun v w s => ?_
  cases v with
  | none => rfl
  | some v =>
    cases w with
    | none => rfl
    | some w => exact puts v w s

theorem commutes_optionalField_nestedField {inner : List (RecordField τ)} {put' : τ → σ → σ}
    (gets : ∀ v s, get (put v s) = get s) (puts : ∀ v w s, put' w (put v s) = put v (put' w s)) :
    (optionalField name read put otherNames).Commutes (nestedField name' inner get put') := by
  refine (acts_optionalField ..).commutes (acts_nestedField ..) (fun v s => ?_) (fun _ _ => rfl)
    fun v w s => ?_
  · cases v with
    | none => rfl
    | some v => exact gets v s
  · cases v with
    | none => rfl
    | some v => exact puts v w s

theorem commutes_nestedField_optionalField {inner : List (RecordField τ)} {put' : τ → σ → σ}
    (gets : ∀ v s, get (put v s) = get s) (puts : ∀ v w s, put' w (put v s) = put v (put' w s)) :
    (nestedField name' inner get put').Commutes (optionalField name read put otherNames) :=
  (commutes_optionalField_nestedField gets puts).symm

theorem commutes_nestedField {inner : List (RecordField τ)} {inner' : List (RecordField υ)}
    {put : τ → σ → σ} {put' : υ → σ → σ} (gets : ∀ v s, get' (put v s) = get' s)
    (gets' : ∀ v s, get (put' v s) = get s)
    (puts : ∀ v w s, put' w (put v s) = put v (put' w s)) :
    (nestedField name inner get put).Commutes (nestedField name' inner' get' put') :=
  (acts_nestedField ..).commutes (acts_nestedField ..) gets gets' puts

end Commutes

end Dialect.Json
