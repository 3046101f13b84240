import Dialect.Proofs.RecordFields

/-!
# Fields and their own members

A field of a record is set by the member of an object that goes by one of its names. Main statement:
a record that is read from an object is what its fields make of their own members, one after the
other in the order of declaration, whatever the order of the members.
-/

namespace Dialect.Json

variable {σ : Type}

/-! ## Names -/

def RecordField.names (f : RecordField σ) : List String :=
  f.name :: f.otherNames

theorem answersTo_iff {f : RecordField σ} {key : String} :
    f.answersTo key = true ↔ key ∈ f.names := by
  rw [RecordField.answersTo, RecordField.names, Bool.or_eq_true, decide_eq_true_eq,
    List.contains_iff_mem, List.mem_cons]
  exact or_congr_left eq_comm

theorem names_optionalField {α : Type} (name : String) (read : Json → Except Fault α)
    (put : α → σ → σ) (otherNames : List String) :
    (optionalField name read put otherNames).names = name :: otherNames :=
  rfl

theorem names_nestedField {τ : Type} (name : String) (inner : List (RecordField τ)) (get : σ → τ)
    (put : τ → σ → σ) : (nestedField name inner get put).names = [name] :=
  rfl

/-- No two fields share a name. -/
def NamesApart (fields : List (RecordField σ)) : Prop :=
  fields.Pairwise fun f g => ∀ name ∈ f.names, name ∉ g.names

instance (fields : List (RecordField σ)) : Decidable (NamesApart fields) :=
  inferInstanceAs (Decidable (fields.Pairwise _))

/-- The value of the first member that goes by one of the names. -/
def ownValue? (names : List String) (ms : List JsonMember) : Option Json :=
  (ms.find? fun m => m.key.toOption.any (names.contains ·)).map (·.value)

theorem ownValue?_of_mem {names : List String} {key : String} (named : key ∈ names) (j : Json)
    (ms : List JsonMember) : ownValue? names (⟨.ok key, j⟩ :: ms) = some j := by
  simp [ownValue?, JsonMember.key, JsonMember.value, Except.toOption, named]

theorem ownValue?_of_not_mem {names : List String} {key : String} (other : key ∉ names) (j : Json)
    (ms : List JsonMember) : ownValue? names (⟨.ok key, j⟩ :: ms) = ownValue? names ms := by
  simp [ownValue?, JsonMember.key, Except.toOption, other]

/-- Sets a field from its own member, if there is one. -/
def RecordField.setOwn (ms : List JsonMember) (s : σ) (f : RecordField σ) : Option σ :=
  (ownValue? f.names ms).elim (some s) fun j => (f.set j s).toOption

/-! ## One field after the other -/

section Fold

variable {α : Type} {g h : σ → α → Option σ} {as : List α}

theorem foldlM_congr_mem (same : ∀ a ∈ as, ∀ s, g s a = h s a) (s : σ) :
    as.foldlM g s = as.foldlM h s := by
  induction as generalizing s with
  | nil => rfl
  | cons a as ih =>
    obtain ⟨first, rest⟩ := List.forall_mem_cons.mp same
    rw [List.foldlM_cons, List.foldlM_cons, first]
    exact bind_congr (ih rest)

theorem foldlM_eq_some_self (idle : ∀ a ∈ as, ∀ s, g s a = some s) (s : σ) :
    as.foldlM g s = some s := by
  induction as with
  | nil => rfl
  | cons a as ih =>
    obtain ⟨first, rest⟩ := List.forall_mem_cons.mp idle
    rw [List.foldlM_cons, first]
    exact ih rest

/-- What comes to the same before and after each step does so before and after all of them. -/
theorem bind_foldlM_comm (change : σ → Option σ)
    (commutes : ∀ a ∈ as, ∀ s, ((change s).bind fun t => g t a) = (g s a).bind change) (s : σ) :
    (change s).bind (as.foldlM g) = (as.foldlM g s).bind change := by
  induction as generalizing s with
  | nil => exact Option.bind_fun_some _
  | cons a as ih =>
    obtain ⟨first, rest⟩ := List.forall_mem_cons.mp commutes
    calc (change s).bind ((a :: as).foldlM g)
        = ((change s).bind fun t => g t a).bind (as.foldlM g) := by
          rw [Option.bind_assoc]
          rfl
      _ = (g s a).bind fun t => (change t).bind (as.foldlM g) := by rw [first, Option.bind_assoc]
      _ = (g s a).bind fun t => (as.foldlM g t).bind change :=
          Option.bind_congr fun t _ => ih rest t
      _ = ((a :: as).foldlM g s).bind change := by
          rw [List.foldlM_cons, Option.bind_eq_bind, Option.bind_assoc]

end Fold

/-- Sets a field that is not yet among the names of the fields set so far from its own member. -/
def RecordField.setRest (seen : Finset String) (ms : List JsonMember) (s : σ) (f : RecordField σ) :
    Option σ :=
  if f.name ∈ seen then some s else f.setOwn ms s

theorem setRest_cons_of_not_mem {f : RecordField σ} {key : String} (other : key ∉ f.names)
    (seen : Finset String) (j : Json) (ms : List JsonMember) (s : σ) :
    f.setRest seen (⟨.ok key, j⟩ :: ms) s = f.setRest seen ms s := by
  rw [RecordField.setRest, RecordField.setOwn, ownValue?_of_not_mem other]
  rfl

/-- A member for another field makes no difference. -/
theorem setRest_cons_of_apart {f g : RecordField σ} (apart : ∀ name ∈ f.names, name ∉ g.names)
    {key : String} (named : key ∈ f.names) (seen : Finset String) (j : Json)
    (ms : List JsonMember) (s : σ) :
    g.setRest seen (⟨.ok key, j⟩ :: ms) s = g.setRest (insert f.name seen) ms s := by
  have other : g.name ≠ f.name := fun same =>
    apart f.name List.mem_cons_self (same ▸ List.mem_cons_self)
  rw [setRest_cons_of_not_mem (apart key named)]
  simp only [RecordField.setRest, Finset.mem_insert, other, false_or]

theorem setRest_comm {f g : RecordField σ} (commutes : f.Commutes g) (seen : Finset String)
    (ms : List JsonMember) (j : Json) (s : σ) :
    ((f.set j s).toOption.bind fun t => g.setRest seen ms t) =
      (g.setRest seen ms s).bind fun t => (f.set j t).toOption := by
  simp only [RecordField.setRest, RecordField.setOwn]
  split
  · exact Option.bind_fun_some _
  · cases ownValue? g.names ms with
    | none => exact Option.bind_fun_some _
    | some v => exact commutes j v s

/-- The field that the first member is for may be set before the others. -/
theorem foldlM_setRest_cons {before after : List (RecordField σ)} {f : RecordField σ}
    (commuting : (before ++ f :: after).Pairwise RecordField.Commutes)
    (apart : NamesApart (before ++ f :: after)) {key : String} (named : key ∈ f.names)
    {seen : Finset String} (unset : f.name ∉ seen) (j : Json) (ms : List JsonMember) (s : σ) :
    (before ++ f :: after).foldlM (RecordField.setRest seen (⟨.ok key, j⟩ :: ms)) s =
      (f.set j s).toOption.bind
        ((before ++ f :: after).foldlM (RecordField.setRest (insert f.name seen) ms)) := by
  obtain ⟨-, inner, outer⟩ := List.pairwise_append.mp apart
  obtain ⟨behind, -⟩ := List.pairwise_cons.mp inner
  have earlier : ∀ g ∈ before, ∀ u, g.setRest seen (⟨.ok key, j⟩ :: ms) u =
      g.setRest (insert f.name seen) ms u := fun g member u =>
    setRest_cons_of_apart (fun name known other => outer g member f List.mem_cons_self name other known)
      named seen j ms u
  have later : ∀ g ∈ after, ∀ u, g.setRest seen (⟨.ok key, j⟩ :: ms) u =
      g.setRest (insert f.name seen) ms u := fun g member u =>
    setRest_cons_of_apart (behind g member) named seen j ms u
  have own (u : σ) : f.setRest seen (⟨.ok key, j⟩ :: ms) u = (f.set j u).toOption := by
    rw [RecordField.setRest, if_neg unset, RecordField.setOwn, ownValue?_of_mem named]
    rfl
  have done (u : σ) : f.setRest (insert f.name seen) ms u = some u :=
    if_pos (Finset.mem_insert_self _ _)
  have turn : (f.set j s).toOption.bind
        (before.foldlM (RecordField.setRest (insert f.name seen) ms)) =
      (before.foldlM (RecordField.setRest (insert f.name seen) ms) s).bind
        fun u => (f.set j u).toOption := by
    refine bind_foldlM_comm (fun u => (f.set j u).toOption) (fun g member u => ?_) s
    have commutes := (List.pairwise_append.mp commuting).2.2 g member f List.mem_cons_self
    exact setRest_comm commutes.symm _ ms j u
  calc (before ++ f :: after).foldlM (RecordField.setRest seen (⟨.ok key, j⟩ :: ms)) s
      = (before.foldlM (RecordField.setRest (insert f.name seen) ms) s).bind fun u =>
          (f.set j u).toOption.bind
            (after.foldlM (RecordField.setRest (insert f.name seen) ms)) := by
        simp only [List.foldlM_append, List.foldlM_cons, own, foldlM_congr_mem earlier,
          foldlM_congr_mem later, Option.bind_eq_bind]
    _ = (f.set j s).toOption.bind fun t =>
          (before.foldlM (RecordField.setRest (insert f.name seen) ms) t).bind
            (after.foldlM (RecordField.setRest (insert f.name seen) ms)) := by
        rw [← Option.bind_assoc, ← turn, Option.bind_assoc]
    _ = (f.set j s).toOption.bind
          ((before ++ f :: after).foldlM (RecordField.setRest (insert f.name seen) ms)) := by
        simp only [List.foldlM_append, List.foldlM_cons, done, Option.bind_eq_bind,
          Option.bind_some]

/-- What the members set, the fields set from their own members. -/
theorem foldlM_setRest {fields : List (RecordField σ)}
    (commuting : fields.Pairwise RecordField.Commutes) (apart : NamesApart fields)
    {ms : List JsonMember} {seen seen' : Finset String} {s s' : σ}
    (done : ms.foldlM (step fields) (seen, s) = some (seen', s')) :
    fields.foldlM (RecordField.setRest seen ms) s = some s' := by
  induction ms generalizing seen s with
  | nil =>
    cases done
    exact foldlM_eq_some_self (fun f _ t => ite_self _) s'
  | cons m ms ih =>
    obtain ⟨key, j⟩ := m
    rw [List.foldlM_cons] at done
    obtain ⟨⟨middle, t⟩, first, rest⟩ := Option.bind_eq_some_iff.mp done
    have later := ih rest
    cases key with
    | error fault => cases first
    | ok key =>
      cases found : fields.find? (·.answersTo key) with
      | none =>
        rw [step_of_unknown found] at first
        split at first
        · cases first
          rw [← later]
          refine foldlM_congr_mem (fun f member u => setRest_cons_of_not_mem ?_ seen j ms u) s
          exact fun named => List.find?_eq_none.mp found f member (answersTo_iff.mpr named)
        · cases first
      | some f =>
        obtain ⟨answers, before, after, rfl, -⟩ := List.find?_eq_some_iff_append.mp found
        rw [step_of_found found, RecordField.setOnce] at first
        split at first
        · cases first
        · next unset =>
          obtain ⟨u, set, same⟩ := Option.map_eq_some_iff.mp first
          cases same
          rw [foldlM_setRest_cons commuting apart (answersTo_iff.mp answers) unset, set]
          exact later

theorem foldlM_setOwn {fields : List (RecordField σ)}
    (commuting : fields.Pairwise RecordField.Commutes) (apart : NamesApart fields)
    {ms : List JsonMember} {fault : Option Fault} {s s' : σ}
    (read : readRecord fields s (.object ms fault) = .ok s') :
    fields.foldlM (RecordField.setOwn ms) s = some s' := by
  obtain ⟨t, set, finished⟩ := exists_of_bind read
  obtain rfl := eq_of_finish finished
  have fold := toOption_setMembers fields ms [] s
  rw [toOption_eq_some.mpr set] at fold
  obtain ⟨⟨seen, t⟩, folded, rfl⟩ := Option.map_eq_some_iff.mp fold.symm
  exact foldlM_setRest commuting apart folded

/-! ## Values -/

/-- The value that an object gives under one of the names. A `null` gives none. -/
def given? (names : List String) : Json → Option Json
  | .object ms _ => (ownValue? names ms).filter (!·.isNull)
  | _ => none

def text? (names : List String) (j : Json) : Option String :=
  (j.given? names).bind fun v => (asString v).toOption

def flag? (names : List String) (j : Json) : Option Bool :=
  (j.given? names).bind fun v => (asBool v).toOption

def texts? (names : List String) (j : Json) : Option (List String) :=
  (j.given? names).bind fun v => (asStrings v).toOption

def table? (names : List String) (j : Json) : Option (List (String × String)) :=
  (j.given? names).bind fun v => (asStringMap v).toOption

def isArray : Json → Bool
  | .array _ _ => true
  | _ => false

/-- The part of an object that is described under a name. -/
def part (name : String) (j : Json) : Json :=
  (j.given? [name]).getD .null

theorem given?_of_found {names : List String} {ms : List JsonMember} {j : Json}
    (found : ownValue? names ms = some j) (fault : Option Fault) :
    (Json.object ms fault).given? names = if j.isNull then none else some j := by
  rw [given?, found, Option.filter_some]
  cases j.isNull <;> rfl

theorem given?_of_missing {names : List String} {ms : List JsonMember}
    (missing : ownValue? names ms = none) (fault : Option Fault) :
    (Json.object ms fault).given? names = none := by
  rw [given?, missing]
  rfl

/-- What is read as a record and not written as an array is an object. -/
theorem exists_object {fields : List (RecordField σ)} {j : Json} {s s' : σ}
    (whole : j.isArray = false) (read : readRecord fields s j = .ok s') :
    ∃ ms fault, j = .object ms fault := by
  cases j with
  | object ms fault => exact ⟨ms, fault, rfl⟩
  | array items fault => cases whole
  | null => cases read
  | bool value => cases read
  | number text => cases read
  | string text => cases read
  | flawed fault skipped => cases read

section Values

variable {α β τ : Type} {name : String} {otherNames : List String} {read : Json → Except Fault α}
  {fields : List (RecordField σ)} {ms : List JsonMember} {s s' : σ}

/-- An optional field is left alone, or it is set to what is read from the value given for it. -/
theorem setOwn_optionalField_cases {put : α → σ → σ} {t : σ}
    (own : (optionalField name read put otherNames).setOwn ms s = some t) (fault : Option Fault) :
    ((Json.object ms fault).given? (name :: otherNames) = none ∧ t = s) ∨
      ∃ v x, (Json.object ms fault).given? (name :: otherNames) = some v ∧ read v = .ok x ∧
        t = put x s := by
  rw [RecordField.setOwn, names_optionalField] at own
  cases found : ownValue? (name :: otherNames) ms with
  | none =>
    rw [found] at own
    exact .inl ⟨given?_of_missing found fault, (Option.some.inj own).symm⟩
  | some v =>
    rw [found, Option.elim_some, optionalField_set] at own
    rw [given?_of_found found]
    cases null : v.isNull with
    | true =>
      rw [null] at own
      exact .inl ⟨rfl, (Option.some.inj own).symm⟩
    | false =>
      rw [null, if_neg Bool.false_ne_true, toOption_map] at own
      obtain ⟨x, value, rfl⟩ := Option.map_eq_some_iff.mp own
      exact .inr ⟨v, x, rfl, toOption_eq_some.mp value, rfl⟩

/-- An optional field is set to what the value that the object gives for it stands for. -/
theorem foldlM_describedField {put : α → σ → σ}
    (fold : (optionalField name read put otherNames :: fields).foldlM (RecordField.setOwn ms) s =
      some s') (fault : Option Fault) (get : σ → β) (set : β → σ → σ) (described : Json → β)
    (keeps : ∀ s, set (get s) s = s)
    (puts : ∀ v x, (Json.object ms fault).given? (name :: otherNames) = some v → read v = .ok x →
      ∀ s, put x s = set (described v) s) :
    fields.foldlM (RecordField.setOwn ms)
      (set (((Json.object ms fault).given? (name :: otherNames)).elim (get s) described) s) =
        some s' := by
  rw [List.foldlM_cons] at fold
  obtain ⟨t, own, rest⟩ := Option.bind_eq_some_iff.mp fold
  rw [← rest]
  congr 1
  obtain ⟨missing, rfl⟩ | ⟨v, x, given, value, rfl⟩ := setOwn_optionalField_cases own fault
  · rw [missing]
    exact keeps t
  · rw [given]
    exact (puts v x given value s).symm

/-- An optional field is set to what is read from the value that the object gives for it. -/
theorem foldlM_optionalField {put : α → σ → σ}
    (fold : (optionalField name read put otherNames :: fields).foldlM (RecordField.setOwn ms) s =
      some s') (fault : Option Fault) (get : σ → β) (set : β → σ → σ) (wrap : α → β)
    (keeps : ∀ s, set (get s) s = s) (puts : ∀ v s, put v s = set (wrap v) s) :
    fields.foldlM (RecordField.setOwn ms)
      (set ((((Json.object ms fault).given? (name :: otherNames)).bind fun v =>
        (read v).toOption).elim (get s) wrap) s) = some s' := by
  have value := foldlM_describedField fold fault get set
    (fun v => (read v).toOption.elim (get s) wrap) keeps fun v x _ value t => by
      rw [toOption_eq_some.mpr value, puts]
      rfl
  rw [← value]
  cases (Json.object ms fault).given? (name :: otherNames) <;> rfl

theorem foldlM_valueField {put : α → σ → σ}
    (fold : (optionalField name read put otherNames :: fields).foldlM (RecordField.setOwn ms) s =
      some s') (fault : Option Fault) (get : σ → α) (keeps : ∀ s, put (get s) s = s) :
    fields.foldlM (RecordField.setOwn ms)
      (put ((((Json.object ms fault).given? (name :: otherNames)).bind fun v =>
        (read v).toOption).getD (get s)) s) = some s' := by
  have value (x : Option α) (y : α) : x.elim y id = x.getD y := by cases x <;> rfl
  rw [← foldlM_optionalField fold fault get put id keeps fun _ _ => rfl, value]

/-- A nested record is what the part for it describes. -/
theorem foldlM_nestedField {inner : List (RecordField τ)} {get : σ → τ} {put : τ → σ → σ}
    (fold : (nestedField name inner get put :: fields).foldlM (RecordField.setOwn ms) s = some s')
    (fault : Option Fault) (described : Json → τ) (keeps : put (get s) s = s)
    (absent : described .null = get s)
    (present : ∀ v, readRecord inner (get s) ((Json.object ms fault).part name) = .ok v →
      v = described ((Json.object ms fault).part name)) :
    fields.foldlM (RecordField.setOwn ms) (put (described ((Json.object ms fault).part name)) s) =
      some s' := by
  rw [List.foldlM_cons] at fold
  obtain ⟨t, own, rest⟩ := Option.bind_eq_some_iff.mp fold
  rw [← rest]
  congr 1
  rw [RecordField.setOwn, names_nestedField] at own
  cases found : ownValue? [name] ms with
  | none =>
    rw [found] at own
    cases own
    rw [part, given?_of_missing found, Option.getD_none, absent, keeps]
  | some j =>
    rw [found, Option.elim_some] at own
    simp only [nestedField, toOption_map] at own
    obtain ⟨v, value, rfl⟩ := Option.map_eq_some_iff.mp own
    have value := toOption_eq_some.mp value
    have given : j.isNull = false := by
      cases j with
      | null => cases value
      | _ => rfl
    have whole : (Json.object ms fault).part name = j := by
      rw [part, given?_of_found found, given]
      rfl
    rw [present v (whole ▸ value)]

end Values

/-! ## Members that make no difference -/

section Edits

variable {fields : List (RecordField σ)} {ms : List JsonMember}

theorem toOption_readRecord_eq_foldlM (ms : List JsonMember) (s : σ) :
    (readRecord fields s (.object ms none)).toOption =
      (ms.foldlM (step fields) (∅, s)).map Prod.snd := by
  rw [toOption_readRecord_object, toOption_setMembers]
  rfl

theorem readRecord_perm (commuting : fields.Pairwise RecordField.Commutes)
    {ms' : List JsonMember} (perm : ms.Perm ms') (s : σ) :
    (readRecord fields s (.object ms' none)).toOption =
      (readRecord fields s (.object ms none)).toOption := by
  rw [toOption_readRecord_eq_foldlM, toOption_readRecord_eq_foldlM, foldlM_step_perm commuting perm]

theorem readRecord_cons_congr {m m' : JsonMember}
    (same : ∀ state, step fields state m' = step fields state m) (s : σ) :
    (readRecord fields s (.object (m' :: ms) none)).toOption =
      (readRecord fields s (.object (m :: ms) none)).toOption := by
  rw [toOption_readRecord_eq_foldlM, toOption_readRecord_eq_foldlM, List.foldlM_cons,
    List.foldlM_cons, same]

theorem readRecord_cons_unknown {name : String}
    (unknown : fields.find? (·.answersTo name) = none) {j : Json} (skipped : j.skip = none) (s : σ) :
    (readRecord fields s (.object (⟨.ok name, j⟩ :: ms) none)).toOption =
      (readRecord fields s (.object ms none)).toOption := by
  rw [toOption_readRecord_eq_foldlM, toOption_readRecord_eq_foldlM, List.foldlM_cons,
    step_of_unknown unknown, skipped]
  rfl

theorem NamesApart.eq_of_mem (apart : NamesApart fields) {f g : RecordField σ} (left : f ∈ fields)
    (right : g ∈ fields) {key : String} (known : key ∈ f.names) (known' : key ∈ g.names) :
    f = g := by
  have symmetric : Std.Symm fun f g : RecordField σ => ∀ name ∈ f.names, name ∉ g.names :=
    ⟨fun _ _ apart name known known' => apart name known' known⟩
  by_contra different
  exact apart.forall left right different key known known'

theorem NamesApart.name_ne (apart : NamesApart fields) {f g : RecordField σ} (left : f ∈ fields)
    (right : g ∈ fields) {key : String} (own : key ∈ g.names) (other : key ∉ f.names) :
    g.name ≠ f.name := by
  intro same
  have known : g.name ∈ f.names := same ▸ List.mem_cons_self
  obtain rfl := apart.eq_of_mem left right known List.mem_cons_self
  exact other own

theorem NamesApart.find?_eq (apart : NamesApart fields) {f : RecordField σ} (member : f ∈ fields)
    {key : String} (named : key ∈ f.names) : fields.find? (·.answersTo key) = some f := by
  cases found : fields.find? (·.answersTo key) with
  | none => exact absurd (answersTo_iff.mpr named) (List.find?_eq_none.mp found f member)
  | some g =>
    have answers := answersTo_iff.mp (List.find?_some found)
    rw [apart.eq_of_mem (List.mem_of_find?_eq_some found) member answers named]

/-- Whether a field has been set does not matter to members for other fields. -/
theorem foldlM_step_insert (apart : NamesApart fields) {f : RecordField σ} (member : f ∈ fields)
    (silent : ∀ m ∈ ms, ∀ key, m.key = .ok key → key ∉ f.names) (seen : Finset String) (s : σ) :
    (ms.foldlM (step fields) (insert f.name seen, s)).map Prod.snd =
      (ms.foldlM (step fields) (seen, s)).map Prod.snd := by
  induction ms generalizing seen s with
  | nil => rfl
  | cons m ms ih =>
    obtain ⟨first, rest⟩ := List.forall_mem_cons.mp silent
    obtain ⟨key, j⟩ := m
    rw [List.foldlM_cons, List.foldlM_cons]
    cases key with
    | error fault => rfl
    | ok key =>
      cases found : fields.find? (·.answersTo key) with
      | none =>
        rw [step_of_unknown found, step_of_unknown found]
        split
        · exact ih rest seen s
        · rfl
      | some g =>
        have own : key ∈ g.names := answersTo_iff.mp (List.find?_some found)
        have other : g.name ≠ f.name :=
          apart.name_ne member (List.mem_of_find?_eq_some found) own (first key rfl)
        have known : g.name ∈ insert f.name seen ↔ g.name ∈ seen := by
          rw [Finset.mem_insert, or_iff_right other]
        rw [step_of_found found, step_of_found found]
        simp only [RecordField.setOnce, known]
        split
        · rfl
        · cases g.set j s with
          | error fault => rfl
          | ok t =>
            rw [Finset.insert_comm]
            exact ih rest (insert g.name seen) t

/-- A `null` leaves everything as it is. -/
def RecordField.KeepsNull (f : RecordField σ) : Prop :=
  ∀ s, f.set .null s = .ok s

theorem keepsNull_optionalField {α : Type} {name : String} {read : Json → Except Fault α}
    {put : α → σ → σ} {otherNames : List String} :
    (optionalField name read put otherNames).KeepsNull :=
  fun _ => rfl

theorem readRecord_cons_null (apart : NamesApart fields) {name : String} {f : RecordField σ}
    (found : fields.find? (·.answersTo name) = some f) (idle : f.KeepsNull)
    (silent : ∀ m ∈ ms, ∀ key, m.key = .ok key → key ∉ f.names) (s : σ) :
    (readRecord fields s (.object (⟨.ok name, .null⟩ :: ms) none)).toOption =
      (readRecord fields s (.object ms none)).toOption := by
  have member := List.mem_of_find?_eq_some found
  rw [toOption_readRecord_eq_foldlM, toOption_readRecord_eq_foldlM, List.foldlM_cons,
    step_of_found found, RecordField.setOnce, if_neg (Finset.notMem_empty _), idle s,
    ← foldlM_step_insert apart member silent]
  rfl

theorem toOption_set_optionalField {α : Type} {name : String} {read : Json → Except Fault α}
    {put : α → σ → σ} {otherNames : List String} {j j' : Json} (given : j.isNull = false)
    (given' : j'.isNull = false) (same : (read j').toOption = (read j).toOption) (s : σ) :
    ((optionalField name read put otherNames).set j' s).toOption =
      ((optionalField name read put otherNames).set j s).toOption := by
  rw [optionalField_set, optionalField_set, given, given', if_neg Bool.false_ne_true,
    if_neg Bool.false_ne_true, toOption_map, toOption_map, same]

theorem toOption_set_nestedField {τ : Type} {name : String} {inner : List (RecordField τ)}
    {get : σ → τ} {put : τ → σ → σ} {j j' : Json}
    (same : ∀ t, (readRecord inner t j').toOption = (readRecord inner t j).toOption) (s : σ) :
    ((nestedField name inner get put).set j' s).toOption =
      ((nestedField name inner get put).set j s).toOption := by
  simp only [nestedField, toOption_map, same]

end Edits

end Dialect.Json
