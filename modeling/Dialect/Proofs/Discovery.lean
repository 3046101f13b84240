import Dialect.Loading
import Dialect.Parsing.Program
import Dialect.Proofs.Locations
import Mathlib.Data.List.Perm.Subperm
import Mathlib.Order.Bounds.Defs

/-!
# Discovery of units

The files met while loading are the entries followed by the imports of the units in their order, each
at its first place. Main statement: loading ends with all readable files that are reached from the
entries, those at a smaller distance first, and reports every import that leads nowhere.
-/

namespace Dialect

/-! ## First places -/

namespace FirstPlace

variable {α : Type} [BEq α] [LawfulBEq α]

/-- Of the elements kept by removing repetitions, an earlier one is different from a later one and
stands before every place of it. -/
theorem pairwise_eraseDups (xs : List α) :
    xs.eraseDups.Pairwise fun a b =>
      a ≠ b ∧ ∀ before after, xs = before ++ b :: after → a ∈ before := by
  match xs with
  | [] => simp
  | x :: xs =>
    have others := pairwise_eraseDups (xs.filter fun y => !y == x)
    have kept {b : α} (member : b ∈ (xs.filter fun y => !y == x).eraseDups) : b ≠ x := by
      rw [List.mem_eraseDups, List.mem_filter] at member
      simpa using member.2
    rw [List.eraseDups_cons, List.pairwise_cons]
    constructor
    · intro b member
      refine ⟨(kept member).symm, fun before after same => ?_⟩
      cases before with
      | nil => exact ((kept member) (List.cons.inj same).1.symm).elim
      | cons y before => simp [(List.cons.inj same).1]
    · refine others.imp_of_mem fun {a b} first second ⟨apart, precedes⟩ => ⟨apart, ?_⟩
      intro before after same
      cases before with
      | nil => exact ((kept second) (List.cons.inj same).1.symm).elim
      | cons y before =>
        -- without the copies of `x` the place of `b` stays a place of `b`
        have split : xs = before ++ b :: after := (List.cons.inj same).2
        have rest : xs.filter (fun y => !y == x) =
            before.filter (fun y => !y == x) ++ b :: after.filter (fun y => !y == x) := by
          rw [split, List.filter_append, List.filter_cons_of_pos (by simpa using kept second)]
        have inside := precedes _ _ rest
        exact List.mem_cons_of_mem _ (List.mem_of_mem_filter inside)
termination_by xs.length
decreasing_by exact Nat.lt_succ_of_le (List.length_filter_le _ _)

theorem nodup_eraseDups (xs : List α) : xs.eraseDups.Nodup :=
  (pairwise_eraseDups xs).imp And.left

theorem eraseDups_concat (xs : List α) (x : α) :
    (xs ++ [x]).eraseDups = xs.eraseDups ++ if xs.contains x then [] else [x] := by
  rw [List.eraseDups_append]
  by_cases met : x ∈ xs <;> simp [List.removeAll, met, List.eraseDups_cons]

end FirstPlace

def FileSystem.isReadable (fs : FileSystem) (path : Path) : Bool :=
  (fs.read path).isOk

theorem FileSystem.isReadable_iff {fs : FileSystem} {path : Path} :
    fs.isReadable path = true ↔ ∃ text, fs.read path = .ok text := by
  unfold isReadable
  cases fs.read path <;> simp [Except.isOk, Except.toBool]

theorem Resolution.isFile_of_findFile? {fs : FileSystem} {target path : Path}
    (found : findFile? fs target = some path) : fs.isFile path = true :=
  List.find?_some (p := fs.isFile) found

theorem Resolution.eq_of_ofFile {path target : Path} (same : ofFile path = .file target) :
    path = target := by
  unfold ofFile at same
  split at same
  · cases same
  · cases same
    rfl

/-- Whichever way a specifier is resolved, what is found is a file. -/
theorem Project.isFile_of_resolve {p : Project} {fs : FileSystem} {specifier : String}
    {importer target : Path} (resolved : p.resolve fs specifier importer = .file target) :
    fs.isFile target = true := by
  unfold resolve at resolved
  split at resolved
  · cases resolved
  · split at resolved
    · split at resolved
      · next path found =>
        obtain ⟨dir, -, looked⟩ := Option.bind_eq_some_iff.mp found
        rw [← Resolution.eq_of_ofFile resolved]
        exact Resolution.isFile_of_findFile? looked
      · cases resolved
    · split at resolved
      · next targets _ =>
        split at resolved
        · next path found =>
          obtain ⟨candidate, -, looked⟩ := List.exists_of_findSome?_eq_some found
          rw [← Resolution.eq_of_ofFile resolved]
          exact Resolution.isFile_of_findFile? looked
        · cases resolved
      · split at resolved
        · next path found =>
          obtain ⟨base, -, looked⟩ := Option.bind_eq_some_iff.mp found
          rw [← Resolution.eq_of_ofFile resolved]
          exact Resolution.isFile_of_findFile? looked
        · cases resolved

namespace Loading

variable (parse : SourceParser) (fs : FileSystem) (p : Project)

/-! ## What is reached -/

/-- The file of the project that a specifier leads to, by its canonical path. -/
def target? (importer : Path) (specifier : String) : Option Path :=
  match p.resolve fs specifier importer with
  | .file path => some (fs.canonical path)
  | .support | .external | .unresolved => none

def targets (u : SourceUnit) : List Path :=
  (importedModules parse u.text.toList).filterMap (target? fs p u.path)

def Imports (a b : Path) : Prop :=
  ∃ text, fs.read a = .ok text ∧
    ∃ specifier ∈ importedModules parse text.toList, target? fs p a specifier = some b

/-- A file is reached from the entries over so many imports. -/
inductive ReachedIn (entries : List Path) : Nat → Path → Prop where
  | entry {e} : e ∈ entries → ReachedIn entries 0 (fs.canonical e)
  | imported {n a b} : ReachedIn entries n a → Imports parse fs p a b → ReachedIn entries (n + 1) b

/-- The least number of imports over which a file is reached. -/
def Distance (entries : List Path) (path : Path) (n : Nat) : Prop :=
  IsLeast {k | ReachedIn parse fs p entries k path} n

/-! ## What is reported -/

/-- The files of a project are files, so what cannot be read is no text. -/
def unreadable (importer path : Path) : Diagnostic :=
  ⟨.io, "failed to read " ++ path.text ++ ": " ++ FileError.invalidText.message, none,
    some importer.text⟩

def unresolved (importer : Path) (specifier : String) : Diagnostic :=
  ⟨.resolution, "cannot resolve \x60" ++ specifier ++ "\x60", none, some importer.text⟩

/-- The diagnostics of a file with some imports, when some files have been met before: one for each
unreadable file met first here, one for each import that is not resolved, and no other. -/
structure Reported (met : List Path) (importer : Path) (specifiers : List String)
    (ds : List Diagnostic) : Prop where
  unreadable : ds.filter (·.kind = .io) =
    ((specifiers.filterMap (target? fs p importer)).eraseDups.filter fun path =>
      !fs.isReadable path && !met.contains path).map (unreadable importer)
  unresolved : ds.filter (·.kind = .resolution) =
    (specifiers.filter fun specifier => p.resolve fs specifier importer = .unresolved).map
      (unresolved importer)
  kinds : ∀ d ∈ ds, d.kind = .io ∨ d.kind = .resolution

structure Discovery (entries : List Path) (us : List SourceUnit) : Prop where
  distinct : (us.map (·.path)).Nodup
  canonical : ∀ u ∈ us, fs.canonical u.path = u.path
  read : ∀ u ∈ us, fs.read u.path = .ok u.text
  reached : ∀ path, path ∈ us.map (·.path) ↔
    fs.isReadable path = true ∧ ∃ n, ReachedIn parse fs p entries n path
  entriesFirst : (entries.map fs.canonical).eraseDups <+: us.map (·.path)
  ordered : us.Pairwise fun u v =>
    ∀ m n, Distance parse fs p entries u.path m → Distance parse fs p entries v.path n → m ≤ n
  reported : ∀ before u after, us = before ++ u :: after →
    Reported fs p (before.flatMap (targets parse fs p)) u.path (importedModules parse u.text.toList)
      u.diagnostics

/-- Units are followed until none is pending. -/
inductive Exhausts : Frontier → List SourceUnit → Prop where
  | done {f} : f.pending = [] → Exhausts f []
  | next {f u rest us} : f.pending = u :: rest →
      Exhausts (followAll parse fs p { f with pending := rest } u).1 us →
        Exhausts f
          ({ u with diagnostics := (followAll parse fs p { f with pending := rest } u).2 } :: us)

/-! ## What one import adds -/

variable {parse fs p} {entries met done : List Path} {f : Frontier}

/-- The state of loading after some files have been met and some units followed. -/
structure Met (parse : SourceParser) (fs : FileSystem) (p : Project)
    (entries met done : List Path) (f : Frontier) : Prop where
  seen : ∀ path, path ∈ f.seen ↔ path ∈ met
  loaded : done ++ f.pending.map (·.path) = met.eraseDups.filter fs.isReadable
  fresh : ∀ u ∈ f.pending, fs.read u.path = .ok u.text ∧ u.diagnostics = []
  reached : ∀ path ∈ met, ∃ n, ReachedIn parse fs p entries n path

theorem Met.start : Met parse fs p entries [] [] {} where
  seen := by simp
  loaded := by simp
  fresh := by simp
  reached := by simp

theorem Met.again {path : Path} (state : Met parse fs p entries met done f) (before : path ∈ met) :
    Met parse fs p entries (met ++ [path]) done f where
  seen other := by
    rw [state.seen, List.mem_append, List.mem_singleton]
    exact ⟨.inl, fun known => known.elim id fun same => same ▸ before⟩
  loaded := by
    rw [state.loaded, FirstPlace.eraseDups_concat]
    simp [before]
  fresh := state.fresh
  reached other member := by
    rcases List.mem_append.mp member with known | same
    · exact state.reached other known
    · exact List.mem_singleton.mp same ▸ state.reached path before

theorem Met.meet {path : Path} (state : Met parse fs p entries met done f) (first : path ∉ met)
    (unreadable : fs.isReadable path = false) (reached : ∃ n, ReachedIn parse fs p entries n path) :
    Met parse fs p entries (met ++ [path]) done (f.meet path) where
  seen other := by
    rw [Frontier.meet, List.mem_cons, state.seen, List.mem_append, List.mem_singleton, or_comm]
  loaded := by
    rw [FirstPlace.eraseDups_concat, List.filter_append, ← state.loaded]
    simp [first, unreadable, Frontier.meet]
  fresh := state.fresh
  reached other member := by
    rcases List.mem_append.mp member with known | same
    · exact state.reached other known
    · exact List.mem_singleton.mp same ▸ reached

theorem Met.push {path : Path} {text : String} (state : Met parse fs p entries met done f)
    (first : path ∉ met) (read : fs.read path = .ok text)
    (reached : ∃ n, ReachedIn parse fs p entries n path) :
    Met parse fs p entries (met ++ [path]) done ((f.meet path).push ⟨path, text, []⟩) where
  seen other := by
    rw [Frontier.push, Frontier.meet, List.mem_cons, state.seen, List.mem_append,
      List.mem_singleton, or_comm]
  loaded := by
    have readable : fs.isReadable path = true := FileSystem.isReadable_iff.mpr ⟨text, read⟩
    rw [FirstPlace.eraseDups_concat, List.filter_append, ← state.loaded]
    simp [first, readable, Frontier.push, Frontier.meet]
  fresh u member := by
    rcases List.mem_append.mp member with known | same
    · exact state.fresh u known
    · rw [List.mem_singleton.mp same]
      exact ⟨read, rfl⟩
  reached other member := by
    rcases List.mem_append.mp member with known | same
    · exact state.reached other known
    · exact List.mem_singleton.mp same ▸ reached

theorem Met.contains_seen (state : Met parse fs p entries met done f) (path : Path) :
    f.seen.contains path = met.contains path := by
  rw [Bool.eq_iff_iff, List.contains_iff_mem, List.contains_iff_mem, state.seen]

theorem target?_eq_some_iff {importer path : Path} {specifier : String} :
    target? fs p importer specifier = some path ↔
      ∃ found, p.resolve fs specifier importer = .file found ∧ fs.canonical found = path := by
  unfold target?
  cases p.resolve fs specifier importer <;> simp

theorem ReachedIn.file {n : Nat} {path : Path} (readable : ∀ e ∈ entries, fs.isReadable e = true)
    (reached : ReachedIn parse fs p entries n path) :
    ∃ found, fs.isFile found = true ∧ path = fs.canonical found := by
  cases reached with
  | entry member =>
    obtain ⟨text, read⟩ := FileSystem.isReadable_iff.mp (readable _ member)
    exact ⟨_, FileSystem.isFile_of_read read, rfl⟩
  | imported _ step =>
    obtain ⟨text, -, specifier, -, leads⟩ := step
    obtain ⟨found, resolved, same⟩ := target?_eq_some_iff.mp leads
    exact ⟨found, Project.isFile_of_resolve resolved, same.symm⟩

theorem enter_met (wf : fs.WellFormed) (state : Met parse fs p entries met [] f) {e : Path}
    (member : e ∈ entries) (readable : fs.isReadable e = true) :
    ∃ next, enter fs f e = .ok next ∧ Met parse fs p entries (met ++ [fs.canonical e]) [] next := by
  obtain ⟨text, read⟩ := FileSystem.isReadable_iff.mp readable
  have reached : ∃ n, ReachedIn parse fs p entries n (fs.canonical e) := ⟨0, .entry member⟩
  have again : fs.read (fs.canonical e) = .ok text := by
    rw [FileSystem.read_canonical wf (FileSystem.isFile_of_read read), read]
  simp only [enter, read, state.contains_seen]
  by_cases before : fs.canonical e ∈ met
  · exact ⟨f, by simp [before], state.again before⟩
  · exact ⟨_, by simp [before], state.push before again reached⟩

theorem enterAll_met (wf : fs.WellFormed) (given : List Path) (listed : given ⊆ entries)
    (readable : ∀ e ∈ entries, fs.isReadable e = true) :
    ∃ f, given.foldlM (enter fs) {} = .ok f ∧
      Met parse fs p entries (given.map fs.canonical) [] f := by
  induction given using List.reverseRecOn with
  | nil => exact ⟨{}, rfl, .start⟩
  | append_singleton given e ih =>
    obtain ⟨f, folded, state⟩ := ih fun x member => listed (List.mem_append_left _ member)
    have member : e ∈ entries := listed (by simp)
    obtain ⟨next, entered, after⟩ := enter_met wf state member (readable e member)
    refine ⟨next, ?_, by simpa using after⟩
    rw [List.foldlM_append, folded]
    simp [bind, Except.bind, pure, Except.pure, entered]

def report (fs : FileSystem) (p : Project) (met : List Path) (importer : Path)
    (specifier : String) : List Diagnostic :=
  match p.resolve fs specifier importer with
  | .file found =>
    if fs.isReadable (fs.canonical found) || met.contains (fs.canonical found) then []
    else [unreadable importer (fs.canonical found)]
  | .unresolved => [unresolved importer specifier]
  | .support | .external => []

/-- One import: the file it leads to has been met afterwards, and a new file that cannot be read or
an import that is not resolved is reported. -/
theorem follow_met (wf : fs.WellFormed) (state : Met parse fs p entries met done f)
    {importer : Path} {specifier : String} (ds : List Diagnostic)
    (reached : ∀ path, target? fs p importer specifier = some path →
      ∃ n, ReachedIn parse fs p entries n path) :
    Met parse fs p entries (met ++ (target? fs p importer specifier).toList) done
        (follow fs p importer (f, ds) specifier).1 ∧
      (follow fs p importer (f, ds) specifier).2 = ds ++ report fs p met importer specifier := by
  unfold follow report
  cases resolved : p.resolve fs specifier importer with
  | file found =>
    have leads : target? fs p importer specifier = some (fs.canonical found) :=
      target?_eq_some_iff.mpr ⟨found, resolved, rfl⟩
    have arrives := reached _ leads
    have file := Project.isFile_of_resolve resolved
    simp only [leads, Option.toList_some, state.contains_seen]
    by_cases before : fs.canonical found ∈ met
    · simp [before, state.again before]
    · rcases FileSystem.read_of_isFile file with ⟨text, read⟩ | read
      · rw [← FileSystem.read_canonical wf file] at read
        have readable := FileSystem.isReadable_iff.mpr ⟨text, read⟩
        simp [before, read, readable, state.push before read arrives]
      · rw [← FileSystem.read_canonical wf file] at read
        have fails : fs.isReadable (fs.canonical found) = false := by
          rw [FileSystem.isReadable, read]
          rfl
        simp [before, read, fails, state.meet before fails arrives, unreadable]
  | unresolved =>
    have nowhere : target? fs p importer specifier = none := by simp [target?, resolved]
    simpa [nowhere, unresolved] using state
  | support | external =>
    have nowhere : target? fs p importer specifier = none := by simp [target?, resolved]
    simpa [nowhere] using state

theorem Reported.none (met : List Path) (importer : Path) : Reported fs p met importer [] [] where
  unreadable := by simp
  unresolved := by simp
  kinds := by simp

/-- The diagnostics after one more import, when the files of the imports before have been met too. -/
theorem Reported.concat {importer : Path} {specifiers : List String} {ds : List Diagnostic}
    (reported : Reported fs p met importer specifiers ds) (specifier : String) :
    Reported fs p met importer (specifiers ++ [specifier])
      (ds ++ report fs p (met ++ specifiers.filterMap (target? fs p importer)) importer
        specifier) where
  unreadable := by
    rw [List.filter_append, reported.unreadable, List.filterMap_append]
    generalize specifiers.filterMap (target? fs p importer) = earlier
    cases resolved : p.resolve fs specifier importer with
    | file found =>
      have leads : [specifier].filterMap (target? fs p importer) = [fs.canonical found] := by
        simp [target?, resolved]
      simp only [report, resolved, leads, FirstPlace.eraseDups_concat]
      by_cases readable : fs.isReadable (fs.canonical found) <;>
        by_cases before : fs.canonical found ∈ met <;>
        by_cases here : fs.canonical found ∈ earlier <;>
        simp [readable, before, here, Loading.unreadable]
    | unresolved => simp [report, target?, resolved, Loading.unresolved]
    | support | external => simp [report, target?, resolved]
  unresolved := by
    rw [List.filter_append, reported.unresolved, List.filter_append, List.map_append]
    cases resolved : p.resolve fs specifier importer with
    | file found =>
      simp only [report, resolved]
      split <;> simp [resolved, Loading.unreadable]
    | unresolved => simp [report, resolved, Loading.unresolved]
    | support | external => simp [report, resolved]
  kinds d member := by
    rcases List.mem_append.mp member with before | added
    · exact reported.kinds d before
    · unfold report at added
      cases resolved : p.resolve fs specifier importer with
      | file found =>
        simp only [resolved] at added
        split at added
        · simp at added
        · rw [List.mem_singleton.mp added]
          exact .inl rfl
      | unresolved =>
        simp only [resolved, List.mem_singleton] at added
        rw [added]
        exact .inr rfl
      | support | external => simp [resolved] at added

theorem imports_of_mem_targets {u : SourceUnit} {path : Path} (read : fs.read u.path = .ok u.text)
    (member : path ∈ targets parse fs p u) : Imports parse fs p u.path path := by
  obtain ⟨specifier, listed, leads⟩ := List.mem_filterMap.mp member
  exact ⟨u.text, read, specifier, listed, leads⟩

/-- All imports of a unit, one after the other. -/
theorem followAll_met (wf : fs.WellFormed) (state : Met parse fs p entries met done f)
    {u : SourceUnit} (read : fs.read u.path = .ok u.text) (quiet : u.diagnostics = [])
    (reached : ∃ n, ReachedIn parse fs p entries n u.path) :
    Met parse fs p entries (met ++ targets parse fs p u) done (followAll parse fs p f u).1 ∧
      Reported fs p met u.path (importedModules parse u.text.toList)
        (followAll parse fs p f u).2 := by
  have followed : ∀ specifiers ⊆ importedModules parse u.text.toList,
      Met parse fs p entries (met ++ specifiers.filterMap (target? fs p u.path)) done
          (specifiers.foldl (follow fs p u.path) (f, [])).1 ∧
        Reported fs p met u.path specifiers
          (specifiers.foldl (follow fs p u.path) (f, [])).2 := by
    intro specifiers
    induction specifiers using List.reverseRecOn with
    | nil => exact fun _ => ⟨by simpa using state, .none met u.path⟩
    | append_singleton specifiers specifier ih =>
      intro listed
      obtain ⟨before, reported⟩ := ih fun x member => listed (List.mem_append_left _ member)
      obtain ⟨n, arrives⟩ := reached
      have onward : ∀ path, target? fs p u.path specifier = some path →
          ∃ n, ReachedIn parse fs p entries n path := fun path leads =>
        ⟨n + 1, arrives.imported ⟨u.text, read, specifier, listed (by simp), leads⟩⟩
      obtain ⟨after, added⟩ := follow_met wf before
        (specifiers.foldl (follow fs p u.path) (f, [])).2 onward
      rw [List.foldl_concat]
      refine ⟨?_, added ▸ reported.concat specifier⟩
      cases leads : target? fs p u.path specifier <;> simpa [leads] using after
  rw [followAll, quiet]
  exact followed _ (List.Subset.refl _)

/-! ## The whole loop -/

theorem Met.pop {u : SourceUnit} {rest : List SourceUnit}
    (state : Met parse fs p entries met done f) (pending : f.pending = u :: rest) :
    Met parse fs p entries met (done ++ [u.path]) { f with pending := rest } where
  seen := state.seen
  loaded := by
    rw [← state.loaded, pending, List.append_assoc]
    rfl
  fresh v member := state.fresh v (by rw [pending]; exact List.mem_cons_of_mem u member)
  reached := state.reached

theorem Met.reached_of_pending {u : SourceUnit} (state : Met parse fs p entries met done f)
    (pending : u ∈ f.pending) : ∃ n, ReachedIn parse fs p entries n u.path := by
  apply state.reached
  have loaded : u.path ∈ met.eraseDups.filter fs.isReadable := by
    rw [← state.loaded]
    exact List.mem_append_right _ (List.mem_map_of_mem pending)
  exact List.mem_eraseDups.mp (List.mem_of_mem_filter loaded)

/-- Every unit is a file of its own, so there are no more of them than entries. -/
theorem Met.bound (state : Met parse fs p entries met done f)
    (readable : ∀ e ∈ entries, fs.isReadable e = true) :
    done.length + f.pending.length ≤ fs.entries.length := by
  have distinct : (done ++ f.pending.map (·.path)).Nodup := by
    rw [state.loaded]
    exact (FirstPlace.nodup_eraseDups met).filter _
  have located : done ++ f.pending.map (·.path) ⊆ fs.entries.map fun x => x.1.toPath := by
    rw [state.loaded]
    intro path member
    obtain ⟨n, reached⟩ :=
      state.reached path (List.mem_eraseDups.mp (List.mem_of_mem_filter member))
    obtain ⟨found, file, rfl⟩ := reached.file readable
    exact FileSystem.canonical_mem_entries file
  simpa using distinct.length_le_of_subset located

/-- With as many steps as there are entries left, no unit stays pending. -/
theorem exhausts_units (wf : fs.WellFormed) (readable : ∀ e ∈ entries, fs.isReadable e = true)
    (n : Nat) (state : Met parse fs p entries met done f)
    (enough : fs.entries.length ≤ done.length + n) :
    Exhausts parse fs p f (units parse fs p n f) := by
  have bound := state.bound readable
  induction n generalizing met done f with
  | zero =>
    have empty : f.pending = [] := List.eq_nil_of_length_eq_zero (by omega)
    exact .done empty
  | succ n ih =>
    cases pending : f.pending with
    | nil =>
      rw [units, pending]
      exact .done pending
    | cons u rest =>
      obtain ⟨read, quiet⟩ := state.fresh u (by simp [pending])
      have arrives := state.reached_of_pending (u := u) (by simp [pending])
      obtain ⟨after, -⟩ := followAll_met wf (state.pop pending) read quiet arrives
      have remaining : fs.entries.length ≤ (done ++ [u.path]).length + n := by
        rw [List.length_append, List.length_singleton]
        omega
      rw [units, pending]
      exact .next pending (ih after remaining (after.bound readable))

/-- The invariant at the end of the loop. The units are the files met, without those that cannot be
read, each at its first place among the entries and the imports of all units. -/
theorem exhausts_spec (wf : fs.WellFormed) {us : List SourceUnit} (run : Exhausts parse fs p f us)
    (state : Met parse fs p entries met done f) :
    done ++ us.map (·.path) =
        (met ++ us.flatMap (targets parse fs p)).eraseDups.filter fs.isReadable ∧
      (∀ u ∈ us, fs.read u.path = .ok u.text ∧ ∃ n, ReachedIn parse fs p entries n u.path) ∧
      ∀ before u after, us = before ++ u :: after →
        Reported fs p (met ++ before.flatMap (targets parse fs p)) u.path
          (importedModules parse u.text.toList) u.diagnostics := by
  induction run generalizing met done with
  | done empty =>
    have loaded := state.loaded
    rw [empty] at loaded
    exact ⟨by simpa using loaded, by simp, by simp⟩
  | @next f u rest us pending run ih =>
    obtain ⟨read, quiet⟩ := state.fresh u (by simp [pending])
    have arrives := state.reached_of_pending (u := u) (by simp [pending])
    obtain ⟨next, reported⟩ := followAll_met wf (state.pop pending) read quiet arrives
    obtain ⟨loaded, sound, others⟩ := ih next
    refine ⟨?_, ?_, ?_⟩
    · rw [List.flatMap_cons, ← List.append_assoc, List.map_cons, List.append_cons]
      exact loaded
    · exact List.forall_mem_cons.mpr ⟨⟨read, arrives⟩, sound⟩
    · intro before v after split
      cases before with
      | nil =>
        obtain ⟨rfl, -⟩ := List.cons.inj split
        simpa using reported
      | cons w before =>
        obtain ⟨rfl, rest⟩ := List.cons.inj split
        rw [List.flatMap_cons, ← List.append_assoc]
        exact others before v after rest

/-! ## Distances -/

theorem reachedIn_zero_iff {path : Path} :
    ReachedIn parse fs p entries 0 path ↔ path ∈ entries.map fs.canonical := by
  rw [List.mem_map]
  constructor
  · intro reached
    cases reached with
    | entry member => exact ⟨_, member, rfl⟩
  · rintro ⟨e, member, rfl⟩
    exact .entry member

theorem reachedIn_succ_iff {n : Nat} {path : Path} :
    ReachedIn parse fs p entries (n + 1) path ↔
      ∃ a, ReachedIn parse fs p entries n a ∧ Imports parse fs p a path := by
  constructor
  · intro reached
    cases reached with
    | imported before step => exact ⟨_, before, step⟩
  · rintro ⟨a, before, step⟩
    exact before.imported step

variable {us : List SourceUnit}

/-- Units that are at their first places among the entries and their own imports. -/
structure Placed (parse : SourceParser) (fs : FileSystem) (p : Project) (entries : List Path)
    (us : List SourceUnit) : Prop where
  loaded : us.map (·.path) =
    (entries.map fs.canonical ++ us.flatMap (targets parse fs p)).eraseDups.filter fs.isReadable
  read : ∀ u ∈ us, fs.read u.path = .ok u.text
  reached : ∀ u ∈ us, ∃ n, ReachedIn parse fs p entries n u.path

theorem Placed.mem_iff (placed : Placed parse fs p entries us) (path : Path) :
    path ∈ us.map (·.path) ↔
      (path ∈ entries.map fs.canonical ∨ ∃ u ∈ us, path ∈ targets parse fs p u) ∧
        fs.isReadable path = true := by
  rw [placed.loaded, List.mem_filter, List.mem_eraseDups, List.mem_append, List.mem_flatMap]

theorem Placed.mem_of_reachedIn (placed : Placed parse fs p entries us) {n : Nat} {path : Path}
    (reached : ReachedIn parse fs p entries n path) (readable : fs.isReadable path = true) :
    path ∈ us.map (·.path) := by
  induction n generalizing path with
  | zero => exact (placed.mem_iff path).mpr ⟨.inl (reachedIn_zero_iff.mp reached), readable⟩
  | succ n ih =>
    obtain ⟨a, before, text, read, specifier, listed, leads⟩ := reachedIn_succ_iff.mp reached
    have source := FileSystem.isReadable_iff.mpr ⟨text, read⟩
    obtain ⟨u, member, rfl⟩ := List.mem_map.mp (ih before source)
    have same : u.text = text := Except.ok.inj ((placed.read u member).symm.trans read)
    have imported : path ∈ targets parse fs p u :=
      List.mem_filterMap.mpr ⟨specifier, same ▸ listed, leads⟩
    exact (placed.mem_iff path).mpr ⟨.inr ⟨u, member, imported⟩, readable⟩

theorem Placed.reached_iff (placed : Placed parse fs p entries us) (path : Path) :
    path ∈ us.map (·.path) ↔
      fs.isReadable path = true ∧ ∃ n, ReachedIn parse fs p entries n path := by
  constructor
  · intro member
    obtain ⟨u, loaded, rfl⟩ := List.mem_map.mp member
    exact ⟨FileSystem.isReadable_iff.mpr ⟨_, placed.read u loaded⟩, placed.reached u loaded⟩
  · rintro ⟨readable, n, reached⟩
    exact placed.mem_of_reachedIn reached readable

/-- A unit stands before every place at which a later one is met. -/
theorem Placed.precedes (placed : Placed parse fs p entries us) {earlier later : List SourceUnit}
    {u v : SourceUnit} (split : us = earlier ++ v :: later) (before : u ∈ earlier)
    {head tail : List Path}
    (place : entries.map fs.canonical ++ us.flatMap (targets parse fs p) = head ++ v.path :: tail) :
    u.path ∈ head := by
  have pairwise := (FirstPlace.pairwise_eraseDups
    (entries.map fs.canonical ++ us.flatMap (targets parse fs p))).filter fs.isReadable
  rw [← placed.loaded, List.pairwise_map] at pairwise
  have ordered := (List.pairwise_append.mp (split ▸ pairwise)).2.2 u before v List.mem_cons_self
  rw [← split] at ordered
  exact ordered.2 head tail place

/-- Whatever is loaded before a unit is no farther from the entries. The induction is on the number of
imports over which the unit is reached: the last of them is made by a unit, and what was met before
that import is an entry or imported by a unit no later than that one. -/
theorem Placed.reached_before (placed : Placed parse fs p entries us) {n : Nat}
    {earlier later : List SourceUnit} {u v : SourceUnit} (split : us = earlier ++ v :: later)
    (before : u ∈ earlier) (reached : ReachedIn parse fs p entries n v.path) :
    ∃ m ≤ n, ReachedIn parse fs p entries m u.path := by
  induction n generalizing earlier later u v with
  | zero =>
    obtain ⟨head, tail, entry⟩ := List.mem_iff_append.mp (reachedIn_zero_iff.mp reached)
    have place : entries.map fs.canonical ++ us.flatMap (targets parse fs p) =
        head ++ v.path :: (tail ++ us.flatMap (targets parse fs p)) := by
      rw [entry, List.append_assoc, List.cons_append]
    have first : u.path ∈ head := placed.precedes split before place
    exact ⟨0, Nat.le_refl 0, reachedIn_zero_iff.mpr (entry ▸ List.mem_append_left _ first)⟩
  | succ n ih =>
    obtain ⟨a, arrives, text, read, specifier, listed, leads⟩ := reachedIn_succ_iff.mp reached
    have member := placed.mem_of_reachedIn arrives (FileSystem.isReadable_iff.mpr ⟨text, read⟩)
    obtain ⟨w, loaded, rfl⟩ := List.mem_map.mp member
    have same : w.text = text := Except.ok.inj ((placed.read w loaded).symm.trans read)
    have imported : v.path ∈ targets parse fs p w :=
      List.mem_filterMap.mpr ⟨specifier, same ▸ listed, leads⟩
    obtain ⟨sooner, others, around⟩ := List.mem_iff_append.mp loaded
    obtain ⟨head, tail, inside⟩ := List.mem_iff_append.mp imported
    have place : entries.map fs.canonical ++ us.flatMap (targets parse fs p) =
        (entries.map fs.canonical ++ sooner.flatMap (targets parse fs p) ++ head) ++
          v.path :: (tail ++ others.flatMap (targets parse fs p)) := by
      rw [around, List.flatMap_append, List.flatMap_cons, inside]
      simp only [List.append_assoc, List.cons_append]
    have met := placed.precedes split before place
    rw [List.mem_append, List.mem_append] at met
    rcases met with (entry | sooner') | here
    · exact ⟨0, Nat.zero_le _, reachedIn_zero_iff.mpr entry⟩
    · obtain ⟨x, earlier', target⟩ := List.mem_flatMap.mp sooner'
      obtain ⟨m, close, reached'⟩ := ih around earlier' arrives
      have read' := placed.read x (around ▸ List.mem_append_left _ earlier')
      exact ⟨m + 1, Nat.succ_le_succ close, reached'.imported (imports_of_mem_targets read' target)⟩
    · have target : u.path ∈ targets parse fs p w := inside ▸ List.mem_append_left _ here
      have imports := imports_of_mem_targets (placed.read w loaded) target
      exact ⟨n + 1, Nat.le_refl _, arrives.imported imports⟩

theorem Placed.entriesFirst (placed : Placed parse fs p entries us)
    (texts : ∀ path ∈ entries.map fs.canonical, fs.isReadable path = true) :
    (entries.map fs.canonical).eraseDups <+: us.map (·.path) := by
  have kept : (entries.map fs.canonical).eraseDups.filter fs.isReadable =
      (entries.map fs.canonical).eraseDups :=
    List.filter_eq_self.mpr fun path member => texts path (List.mem_eraseDups.mp member)
  rw [placed.loaded, List.eraseDups_append, List.filter_append, kept]
  exact List.prefix_append _ _

theorem Placed.ordered (placed : Placed parse fs p entries us) :
    us.Pairwise fun u v =>
      ∀ m n, Distance parse fs p entries u.path m → Distance parse fs p entries v.path n →
        m ≤ n := by
  rw [List.pairwise_iff_forall_sublist]
  intro u v sublist m n nearest distance
  obtain ⟨earlier, rest, apart, before, after⟩ := List.cons_sublist_iff.mp sublist
  obtain ⟨between, later, around⟩ := List.mem_iff_append.mp (List.singleton_sublist.mp after)
  have split : us = (earlier ++ between) ++ v :: later := by
    rw [apart, around, List.append_assoc]
  obtain ⟨k, close, reached⟩ :=
    placed.reached_before split (List.mem_append_left _ before) distance.1
  exact Nat.le_trans (nearest.2 reached) close

/-- An entry is readable, so that it has been met does not matter to the reports of unreadable
files. -/
theorem Reported.of_readable {readable : List Path} {importer : Path} {specifiers : List String}
    {ds : List Diagnostic} (reported : Reported fs p (readable ++ met) importer specifiers ds)
    (texts : ∀ path ∈ readable, fs.isReadable path = true) :
    Reported fs p met importer specifiers ds where
  unreadable := by
    rw [reported.unreadable]
    congr 1
    apply List.filter_congr
    intro path _
    by_cases text : fs.isReadable path = true
    · simp [text]
    · have other : path ∉ readable := fun member => text (texts path member)
      simp [other]
  unresolved := reported.unresolved
  kinds := reported.kinds

end Loading

/-- From readable entries in a well-formed file system the loop of loading comes to an end, and the
units are discovered breadth first. -/
theorem Project.load_discovers (p : Project) (parse : SourceParser) (fs : FileSystem)
    (entries : List Path) (wf : fs.WellFormed) (readable : ∀ e ∈ entries, fs.isReadable e = true) :
    ∃ f us, entries.foldlM (Loading.enter fs) {} = .ok f ∧ Loading.Exhausts parse fs p f us ∧
      p.load parse fs entries = .ok us ∧ Loading.Discovery parse fs p entries us := by
  obtain ⟨f, entered, state⟩ :=
    Loading.enterAll_met (p := p) wf entries (List.Subset.refl entries) readable
  have run := Loading.exhausts_units wf readable fs.entries.length state (by simp)
  have loads : p.load parse fs entries = .ok (Loading.units parse fs p fs.entries.length f) := by
    rw [load, entered]
    rfl
  generalize Loading.units parse fs p fs.entries.length f = us at run loads
  refine ⟨f, us, entered, run, loads, ?_⟩
  obtain ⟨loaded, sound, reported⟩ := Loading.exhausts_spec wf run state
  have placed : Loading.Placed parse fs p entries us :=
    ⟨by simpa using loaded, fun u member => (sound u member).1, fun u member => (sound u member).2⟩
  have texts : ∀ path ∈ entries.map fs.canonical, fs.isReadable path = true := by
    intro path member
    obtain ⟨e, listed, rfl⟩ := List.mem_map.mp member
    obtain ⟨text, read⟩ := FileSystem.isReadable_iff.mp (readable e listed)
    rw [FileSystem.isReadable, FileSystem.read_canonical wf (FileSystem.isFile_of_read read)]
    exact readable e listed
  exact {
    distinct := by
      rw [placed.loaded]
      exact (FirstPlace.nodup_eraseDups _).filter _
    canonical := by
      intro u member
      obtain ⟨n, reached⟩ := placed.reached u member
      obtain ⟨found, file, same⟩ := reached.file readable
      rw [same, FileSystem.canonical_canonical wf file]
    read := placed.read
    reached := placed.reached_iff
    entriesFirst := placed.entriesFirst texts
    ordered := placed.ordered
    reported := fun before u after split =>
      (reported before u after split).of_readable texts }

/-- Two files that import each other and one that is no text, from an entry given by two spellings. -/
theorem Project.load_discovers_cycle :
    let fs : FileSystem :=
      ⟨[(["a.ts"], .file (.text "import './b'; import './c'; import './x';")),
        (["b.ts"], .file (.text "import './a.ts'; import './c.ts';")),
        (["c.ts"], .file .binary)], []⟩
    let entries : List Path := [⟨"a.ts"⟩, ⟨"/./a.ts"⟩]
    let p : Project := {}
    ∃ f us, entries.foldlM (Loading.enter fs) {} = .ok f ∧ Loading.Exhausts Tree.parser fs p f us ∧
      p.load Tree.parser fs entries = .ok us ∧ Loading.Discovery Tree.parser fs p entries us ∧
      us.map (fun u => (u.path, u.diagnostics)) =
        [(⟨"/a.ts"⟩, [Loading.unreadable ⟨"/a.ts"⟩ ⟨"/c.ts"⟩, Loading.unresolved ⟨"/a.ts"⟩ "./x"]),
         (⟨"/b.ts"⟩, [])] := by
  intro fs entries p
  obtain ⟨f, us, entered, run, loads, discovered⟩ :=
    load_discovers p Tree.parser fs entries (by decide) (by decide +kernel)
  refine ⟨f, us, entered, run, loads, discovered, ?_⟩
  have computed : (p.load Tree.parser fs entries).map
      (List.map fun u => (u.path, u.diagnostics)) = .ok
      [(⟨"/a.ts"⟩, [Loading.unreadable ⟨"/a.ts"⟩ ⟨"/c.ts"⟩, Loading.unresolved ⟨"/a.ts"⟩ "./x"]),
       (⟨"/b.ts"⟩, [])] := by
    decide +kernel
  rw [loads] at computed
  exact Except.ok.inj computed

end Dialect
