import Dialect.Proofs.Locations
import Mathlib.Data.List.TakeWhile

/-!
# Effects on file systems

Creating directories adds directories only, and writing a file fills one slot: the place of its name
in an existing directory. Neither takes away what is there, so paths keep leading where they led.
Main statement: which slot a name in an output directory has depends on the directories alone.
-/

namespace Dialect

/-- A slash at the end of a path serves as the slash before what is joined to it. -/
theorem Path.joinChars_eq {as bs : List Char} (relative : bs.head? ≠ some '/') (given : as ≠ []) :
    ∃ before, joinChars as bs = before ++ '/' :: bs ∧ (as = before ∨ as = before ++ ['/']) := by
  unfold joinChars
  rw [if_neg (by simp [relative, given])]
  split
  · next slash =>
    obtain ⟨before, split⟩ := List.getLast?_eq_some_iff.mp slash
    exact ⟨before, by simp [split], .inr split⟩
  · exact ⟨as, rfl, .inl rfl⟩

namespace FileSystem

variable {fs after : FileSystem} {l : Location}

/-! ## Setting one entry -/

theorem lookup_set_self (given : l ≠ []) (e : Entry) : FileSystem.entry? (fs.set l e) l = some e := by
  simp [set, entry?, given]

theorem lookup_set_of_ne {m : Location} (apart : m ≠ l) (e : Entry) :
    FileSystem.entry? (fs.set l e) m = fs.entry? m := by
  have looked (entries : List (Location × Entry)) :
      List.lookup m (entries.filter (·.1 ≠ l)) = List.lookup m entries := by
    induction entries with
    | nil => rfl
    | cons x entries ih =>
      by_cases same : x.1 = l
      · have other : (m == x.1) = false := by simpa [same] using apart
        rw [List.filter_cons_of_neg (by simpa using same), ih, List.lookup_cons, other]
      · rw [List.filter_cons_of_pos (by simpa using same), List.lookup_cons, List.lookup_cons, ih]
  have other : (m == l) = false := by simpa using apart
  simp only [set, entry?, List.lookup_cons, other, looked]

/-- What was there is still there, and directories are still directories. -/
structure Extends (fs after : FileSystem) : Prop where
  workingDirectory : after.workingDirectory = fs.workingDirectory
  directories : ∀ l, fs.entry? l = some .directory → after.entry? l = some .directory
  present : ∀ l, (fs.entry? l).isSome = true → (after.entry? l).isSome = true

theorem Extends.refl (fs : FileSystem) : fs.Extends fs :=
  ⟨rfl, fun _ => id, fun _ => id⟩

theorem Extends.trans {middle : FileSystem} (first : fs.Extends middle)
    (second : middle.Extends after) : fs.Extends after where
  workingDirectory := second.workingDirectory.trans first.workingDirectory
  directories l directory := second.directories l (first.directories l directory)
  present l found := second.present l (first.present l found)

theorem extends_set {e : Entry} (given : l ≠ []) (free : fs.entry? l ≠ some .directory) :
    fs.Extends (fs.set l e) where
  workingDirectory := rfl
  directories m directory := by
    have apart : m ≠ l := fun same => free (same ▸ directory)
    rw [lookup_set_of_ne apart, directory]
  present m found := by
    by_cases same : m = l
    · subst same
      rw [lookup_set_self given, Option.isSome_some]
    · rw [lookup_set_of_ne same, found]

/-- A path that leads somewhere keeps leading there. -/
theorem Extends.walk (larger : fs.Extends after) {names : List String} {start : Location}
    (walked : fs.walk start names = .ok l) : after.walk start names = .ok l := by
  induction names generalizing start with
  | nil => exact walked
  | cons name names ih =>
    cases entry : fs.entry? start with
    | none => simp [FileSystem.walk, entry] at walked
    | some e =>
      cases e with
      | file content => simp [FileSystem.walk, entry] at walked
      | directory =>
        simp only [FileSystem.walk, entry] at walked
        simp only [FileSystem.walk, larger.directories start entry]
        split at walked
        · next skip => rw [if_pos skip, ih walked]
        · next skip =>
          rw [if_neg skip]
          split at walked
          · next above => rw [if_pos above, ih walked]
          · next above =>
            rw [if_neg above]
            split at walked
            · next found => rw [if_pos (larger.present _ found), ih walked]
            · cases walked

theorem Extends.origin (larger : fs.Extends after) (p : Path) : after.origin p = fs.origin p := by
  unfold FileSystem.origin
  rw [larger.workingDirectory]

theorem Extends.locate (larger : fs.Extends after) {p : Path} (found : fs.locate p = .ok l) :
    after.locate p = .ok l := by
  unfold FileSystem.locate at found ⊢
  split at found
  · cases found
  · next given => rw [if_neg given, larger.origin, larger.walk found]

/-! ## Creating directories -/

/-- The content of the file at a location. -/
def file? (fs : FileSystem) (l : Location) : Option Content :=
  match fs.entry? l with
  | some (.file content) => some content
  | some .directory | none => none

/-- Only directories have been added. -/
structure Created (fs after : FileSystem) : Prop where
  larger : fs.Extends after
  files : ∀ l, after.file? l = fs.file? l

theorem Created.refl (fs : FileSystem) : fs.Created fs :=
  ⟨.refl fs, fun _ => rfl⟩

theorem Created.trans {middle : FileSystem} (first : fs.Created middle)
    (second : middle.Created after) : fs.Created after :=
  ⟨first.larger.trans second.larger, fun l => (second.files l).trans (first.files l)⟩

theorem created_set (given : l ≠ []) (free : fs.entry? l = none) :
    fs.Created (fs.set l .directory) where
  larger := extends_set given (by simp [free])
  files m := by
    by_cases same : m = l
    · subst same
      simp [file?, lookup_set_self given, free]
    · simp [file?, lookup_set_of_ne same]

theorem isDirectory_iff {p : Path} :
    fs.isDirectory p = true ↔ ∃ l, fs.locate p = .ok l ∧ fs.entry? l = some .directory := by
  unfold isDirectory
  cases fs.locate p <;> simp

/-- Empty parts lead nowhere else. -/
theorem walk_blanks (directory : fs.entry? l = some .directory) {names : List String}
    (blank : ∀ name ∈ names, name = "") : fs.walk l names = .ok l := by
  induction names with
  | nil => rfl
  | cons name names ih =>
    rw [List.forall_mem_cons] at blank
    simp [walk, directory, blank.1, ih blank.2]

/-- The parts of a path without the empty ones at the end. -/
def ownParts (p : Path) : List String :=
  (p.parts.reverse.dropWhile (· = "")).reverse

theorem parts_eq_ownParts (p : Path) :
    ∃ blanks, p.parts = ownParts p ++ blanks ∧ ∀ name ∈ blanks, name = "" := by
  refine ⟨(p.parts.reverse.takeWhile (· = "")).reverse, ?_, ?_⟩
  · rw [ownParts, ← List.reverse_append, List.takeWhile_append_dropWhile, List.reverse_reverse]
  · intro name member
    have blank := List.mem_takeWhile_imp (List.mem_reverse.mp member)
    simpa using blank

theorem ownParts_last {p : Path} {name : String} (last : (ownParts p).getLast? = some name) :
    name ≠ "" := by
  rw [ownParts, List.getLast?_reverse] at last
  have kept := List.head?_dropWhile_not (· = "") p.parts.reverse
  rw [last] at kept
  simpa using kept

theorem directoryOf_eq_ok_iff {p : Path} {parts : List String} :
    fs.directoryOf p parts = .ok l ↔
      fs.walk (fs.origin p) parts = .ok l ∧ fs.entry? l = some .directory := by
  unfold directoryOf
  cases fs.walk (fs.origin p) parts with
  | error e => simp [bind, Except.bind]
  | ok m =>
    simp only [bind, Except.bind, Except.ok.injEq]
    split
    · next entry =>
      simp only [Except.ok.injEq]
      exact ⟨fun same => ⟨same, same ▸ entry⟩, And.left⟩
    · next entry =>
      refine iff_of_false nofun ?_
      rintro ⟨rfl, directory⟩
      exact entry directory

theorem Extends.directoryOf (larger : fs.Extends after) {p : Path} {parts : List String}
    (found : fs.directoryOf p parts = .ok l) : after.directoryOf p parts = .ok l := by
  obtain ⟨walked, directory⟩ := directoryOf_eq_ok_iff.mp found
  refine directoryOf_eq_ok_iff.mpr ⟨?_, larger.directories l directory⟩
  rw [larger.origin, larger.walk walked]

/-- A path leads to the directory that has its last part for a name. -/
theorem locate_of_ownParts {p : Path} {name : String} (last : (ownParts p).getLast? = some name)
    (above : fs.directoryOf p (ownParts p).dropLast = .ok l) (notHere : name ≠ ".")
    (notAbove : name ≠ "..") (held : fs.entry? (l ++ [name]) = some .directory) :
    fs.locate p = .ok (l ++ [name]) := by
  obtain ⟨walked, directory⟩ := directoryOf_eq_ok_iff.mp above
  obtain ⟨blanks, parts, blank⟩ := parts_eq_ownParts p
  have own : ownParts p = (ownParts p).dropLast ++ [name] := by
    obtain ⟨front, split⟩ := List.getLast?_eq_some_iff.mp last
    rw [split, List.dropLast_concat]
  have written : ¬ p.text.isEmpty = true := by
    intro empty
    simp [ownParts, Path.parts, String.isEmpty_iff.mp empty, Path.partsOf] at last
  have step : fs.walk l [name] = .ok (l ++ [name]) := by
    simp [walk, directory, ownParts_last last, notHere, notAbove, held]
  have reached := walk_blanks held blank
  rw [locate, if_neg written, parts, own, walk_append, walk_append, walked]
  simp only [bind, Except.bind, step, reached]

theorem createDirectory_cases {p : Path} (made : fs.createDirectory p = .ok after) :
    ∃ l name, (ownParts p).getLast? = some name ∧
      fs.directoryOf p (ownParts p).dropLast = .ok l ∧ name ≠ "." ∧ name ≠ ".." ∧
      fs.entry? (l ++ [name]) = none ∧ after = fs.set (l ++ [name]) .directory := by
  unfold createDirectory at made
  rw [← ownParts] at made
  cases last : (ownParts p).getLast? with
  | none => simp [last] at made
  | some name =>
    simp only [last] at made
    cases above : fs.directoryOf p (ownParts p).dropLast with
    | error e => simp [above, bind, Except.bind] at made
    | ok l =>
      simp only [above, bind, Except.bind] at made
      split at made
      · cases made
      · next fresh =>
        simp only [Bool.or_eq_true, decide_eq_true_eq, not_or, Bool.not_eq_true,
          Option.isSome_eq_false_iff, Option.isNone_iff_eq_none] at fresh
        exact ⟨l, name, rfl, rfl, fresh.1.1, fresh.1.2, fresh.2, (Except.ok.inj made).symm⟩

/-- One directory more, where nothing was before, and the path leads there now. -/
theorem createDirectory_ok {p : Path} (made : fs.createDirectory p = .ok after) :
    fs.Created after ∧ after.isDirectory p = true := by
  obtain ⟨l, name, last, above, notHere, notAbove, free, rfl⟩ := createDirectory_cases made
  have given : l ++ [name] ≠ [] := by simp
  have created := created_set given free
  have held : FileSystem.entry? (fs.set (l ++ [name]) .directory) (l ++ [name]) = some .directory :=
    lookup_set_self given _
  have found := locate_of_ownParts last (created.larger.directoryOf above) notHere notAbove held
  exact ⟨created, isDirectory_iff.mpr ⟨l ++ [name], found, held⟩⟩

theorem createOrFind_effect (fs : FileSystem) (p : Path) :
    fs.Created (fs.createOrFind p).2 ∧
      ((fs.createOrFind p).1 = .ok () → (fs.createOrFind p).2.isDirectory p = true) := by
  unfold createOrFind
  cases made : fs.createDirectory p with
  | ok created => exact ⟨(createDirectory_ok made).1, fun _ => (createDirectory_ok made).2⟩
  | error e =>
    refine ⟨.refl fs, fun found => ?_⟩
    by_contra missing
    simp [missing] at found

/-- Directories are all that is added, also when a later one cannot be created. -/
theorem createWithin_effect (n : Nat) (fs : FileSystem) (p : Path) :
    fs.Created (createWithin n fs p).2 ∧
      ((createWithin n fs p).1 = .ok () →
        p.text = "" ∨ (createWithin n fs p).2.isDirectory p = true) := by
  induction n generalizing fs p with
  | zero => exact ⟨.refl fs, fun found => nomatch found⟩
  | succ n ih =>
    have direct := createOrFind_effect fs p
    unfold createWithin
    split
    · next empty => exact ⟨.refl fs, fun _ => .inl (String.isEmpty_iff.mp empty)⟩
    · split
      · exact ⟨.refl fs, fun found => nomatch found⟩
      · next above _ _ =>
        have before := (ih fs above).1
        split
        · next created made =>
          rw [made] at before
          obtain ⟨added, found⟩ := createOrFind_effect created p
          exact ⟨before.trans added, fun done => .inr (found done)⟩
        · next e created made =>
          rw [made] at before
          exact ⟨before, fun found => nomatch found⟩
      · exact ⟨direct.1, fun done => .inr (direct.2 done)⟩

theorem createDirectories_created (fs : FileSystem) (p : Path) :
    fs.Created (fs.createDirectories p).2 :=
  (createWithin_effect _ fs p).1

theorem isDirectory_of_createDirectories {p : Path} (made : (fs.createDirectories p).1 = .ok ()) :
    p.text = "" ∨ (fs.createDirectories p).2.isDirectory p = true :=
  (createWithin_effect _ fs p).2 made

/-! ## Writing files -/

/-- The location that writing to a path fills. -/
def slot (fs : FileSystem) (p : Path) : Except FileError Location := do
  if p.text.isEmpty then .error .notFound
  else
    let l ← fs.directoryOf p (ownParts p).dropLast
    let name := (ownParts p).getLast?.getD "."
    if name = "." || name = ".." || (ownParts p).length < p.parts.length then .error .isDirectory
    else if fs.entry? (l ++ [name]) = some .directory then .error .isDirectory
    else .ok (l ++ [name])

theorem write_eq_slot (fs : FileSystem) (p : Path) (text : String) :
    fs.write p text = (fs.slot p).map fun l => fs.set l (.file (.text text)) := by
  unfold write slot
  rw [← ownParts]
  split
  · rfl
  · cases above : fs.directoryOf p (ownParts p).dropLast with
    | error e => simp [above, bind, Except.bind, Except.map]
    | ok l =>
      simp only [above, bind, Except.bind]
      split
      · rfl
      · split
        · next directory => simp [directory, Except.map]
        · next other => rw [if_neg other, Except.map]

/-- Files have been written, and nothing else has changed. -/
structure Rewritten (fs after : FileSystem) : Prop where
  larger : fs.Extends after
  same : ∀ l, after.entry? l = some .directory → fs.entry? l = some .directory

theorem Rewritten.refl (fs : FileSystem) : fs.Rewritten fs :=
  ⟨.refl fs, fun _ => id⟩

theorem Rewritten.trans {middle : FileSystem} (first : fs.Rewritten middle)
    (second : middle.Rewritten after) : fs.Rewritten after :=
  ⟨first.larger.trans second.larger, fun l directory => first.same l (second.same l directory)⟩

theorem Rewritten.directory_iff (rewritten : fs.Rewritten after) (l : Location) :
    after.entry? l = some .directory ↔ fs.entry? l = some .directory :=
  ⟨rewritten.same l, rewritten.larger.directories l⟩

theorem rewritten_set (given : l ≠ []) (free : fs.entry? l ≠ some .directory) (content : Content) :
    fs.Rewritten (fs.set l (.file content)) where
  larger := extends_set given free
  same m directory := by
    by_cases same : m = l
    · subst same
      rw [lookup_set_self given] at directory
      cases directory
    · rwa [lookup_set_of_ne same] at directory

theorem slot_ok {p : Path} (filled : fs.slot p = .ok l) :
    l ≠ [] ∧ fs.entry? l ≠ some .directory := by
  unfold slot at filled
  split at filled
  · cases filled
  · cases above : fs.directoryOf p (ownParts p).dropLast with
    | error e => simp [above, bind, Except.bind] at filled
    | ok m =>
      simp only [above, bind, Except.bind] at filled
      split at filled
      · cases filled
      · split at filled
        · cases filled
        · next free =>
          cases filled
          exact ⟨by simp, free⟩

/-! ## Names in an output directory -/

/-- A path leads to a directory. The empty path stands for the working directory. -/
def LeadsTo (fs : FileSystem) (p : Path) (l : Location) : Prop :=
  fs.entry? l = some .directory ∧
    if p.text.isEmpty then l = fs.workingDirectory else fs.locate p = .ok l

/-- A file name: one part of a path that is not empty. -/
structure IsFileName (name : String) : Prop where
  plain : '/' ∉ name.toList
  given : name ≠ ""

/-- An empty part at the end is followed from where the others lead. -/
theorem walk_of_walk_blank {start : Location} {names : List String}
    (walked : fs.walk start (names ++ [""]) = .ok l) : fs.walk start names = .ok l := by
  rw [walk_append] at walked
  cases before : fs.walk start names with
  | error e => simp [before, bind, Except.bind] at walked
  | ok m =>
    cases entry : fs.entry? m with
    | none => simp [before, bind, Except.bind, walk, entry] at walked
    | some e =>
      cases e with
      | file content => simp [before, bind, Except.bind, walk, entry] at walked
      | directory => simpa [before, bind, Except.bind, walk, entry] using walked

/-- A name joined to a path is its last part, and the parts before it lead where the path leads. -/
theorem parts_join {name : String} (file : IsFileName name) (p : Path) :
    ∃ parts, (p.join name).parts = parts ++ [name] ∧
      (∀ fs : FileSystem, fs.origin (p.join name) = fs.origin p) ∧
      (∀ (fs : FileSystem) (l : Location), fs.LeadsTo p l → fs.walk (fs.origin p) parts = .ok l) ∧
      (p.text.isEmpty = true → parts = []) := by
  have first : name.toList.head? ≠ some '/' := fun head => file.plain (List.mem_of_mem_head? head)
  have last : (Path.partsOf name.toList).map String.ofList = [name] := by
    simp [Path.partsOf_eq_singleton file.plain]
  by_cases empty : p.text.isEmpty = true
  · have bare : p.text = "" := String.isEmpty_iff.mp empty
    have relative : (p.join name).isAbsolute = p.isAbsolute := by
      simp [Path.join, Path.joinChars, Path.isAbsolute, bare, first]
    refine ⟨[], ?_, fun fs => by simp only [origin, relative], ?_, fun _ => rfl⟩
    · simpa [Path.parts, Path.join, Path.joinChars, bare] using last
    · rintro fs l ⟨-, leads⟩
      rw [if_pos empty] at leads
      simp [walk, origin, Path.isAbsolute, bare, leads]
  · have nonempty : p.text.toList ≠ [] := by
      intro none
      exact empty (String.isEmpty_iff.mpr (String.toList_eq_nil_iff.mp none))
    obtain ⟨before, joined, parts⟩ := Path.joinChars_eq first nonempty
    have absolute : (p.join name).isAbsolute = p.isAbsolute := by
      simp only [Path.join, Path.isAbsolute, String.toList_ofList, joined]
      rcases parts with parts | parts <;> cases before <;> simp_all
    refine ⟨(Path.partsOf before).map String.ofList, ?_, fun fs => by simp only [origin, absolute],
      ?_, fun bare => (empty bare).elim⟩
    · simp only [Path.parts, Path.join, String.toList_ofList, joined, Path.partsOf_append_slash,
        List.map_append, last]
    · rintro fs l ⟨directory, leads⟩
      rw [if_neg empty, locate, if_neg empty, Path.parts] at leads
      rcases parts with parts | parts
      · rwa [parts] at leads
      · rw [parts, Path.partsOf_append_slash, List.map_append] at leads
        exact walk_of_walk_blank leads

/-- Files can be written to a directory, or the working directory is missing and none can. -/
def Ready (fs : FileSystem) (p : Path) : Prop :=
  (∃ l, fs.LeadsTo p l) ∨
    p.text.isEmpty = true ∧ fs.entry? fs.workingDirectory ≠ some .directory

theorem ready_of_createDirectories {p : Path} (made : (fs.createDirectories p).1 = .ok ()) :
    (fs.createDirectories p).2.Ready p := by
  rcases isDirectory_of_createDirectories made with empty | directory
  · have bare := String.isEmpty_iff.mpr empty
    by_cases here : FileSystem.entry? (fs.createDirectories p).2
        (fs.createDirectories p).2.workingDirectory = some .directory
    · exact .inl ⟨_, here, by rw [if_pos bare]⟩
    · exact .inr ⟨bare, here⟩
  · obtain ⟨l, leads, entry⟩ := isDirectory_iff.mp directory
    refine .inl ⟨l, entry, ?_⟩
    split
    · next bare => simp [locate, bare] at leads
    · exact leads

section Names

variable {p : Path} {name : String}

theorem written_of_parts {parts : List String} (given : name ≠ "")
    (split : p.parts = parts ++ [name]) : p.text.isEmpty = false := by
  rw [Bool.eq_false_iff]
  intro empty
  rw [Path.parts, String.isEmpty_iff.mp empty] at split
  cases parts <;> simp_all [Path.partsOf]

theorem slot_of_parts {parts : List String} (given : name ≠ "")
    (split : p.parts = parts ++ [name]) :
    fs.slot p =
      (fs.directoryOf p parts >>= fun l =>
        if name = "." || name = ".." || fs.entry? (l ++ [name]) = some .directory
        then .error .isDirectory else .ok (l ++ [name])) := by
  have own : ownParts p = parts ++ [name] := by simp [ownParts, split, given]
  have written := written_of_parts given split
  rw [slot, if_neg (by simp [written]), own, List.dropLast_concat, split]
  cases fs.directoryOf p parts with
  | error e => rfl
  | ok l =>
    simp only [bind, Except.bind, List.getLast?_concat, Option.getD_some]
    split <;> simp_all

/-- Which slot a name has depends on the directories alone. -/
theorem slot_join (file : IsFileName name) (leads : fs.LeadsTo p l) :
    fs.slot (p.join name) =
      if name = "." || name = ".." || fs.entry? (l ++ [name]) = some .directory
      then .error .isDirectory else .ok (l ++ [name]) := by
  obtain ⟨parts, split, origin, walked, -⟩ := parts_join file p
  have above : fs.directoryOf (p.join name) parts = .ok l :=
    directoryOf_eq_ok_iff.mpr ⟨(origin fs).symm ▸ walked fs l leads, leads.1⟩
  rw [slot_of_parts file.given split, above]
  rfl

theorem slot_join_missing (file : IsFileName name) (empty : p.text.isEmpty = true)
    (missing : fs.entry? fs.workingDirectory ≠ some .directory) :
    fs.slot (p.join name) = .error .notDirectory := by
  obtain ⟨parts, split, origin, -, bare⟩ := parts_join file p
  have here : fs.origin p = fs.workingDirectory := by
    simp [FileSystem.origin, Path.isAbsolute, String.isEmpty_iff.mp empty]
  have above : fs.directoryOf (p.join name) parts = .error .notDirectory := by
    simp only [directoryOf, bare empty, origin, here, walk, bind, Except.bind]
  rw [slot_of_parts file.given split, above]
  rfl

theorem LeadsTo.of_extends (larger : fs.Extends after) (leads : fs.LeadsTo p l) :
    after.LeadsTo p l := by
  refine ⟨larger.directories l leads.1, ?_⟩
  have target := leads.2
  split
  · next empty => rw [if_pos empty] at target; rw [larger.workingDirectory, target]
  · next given => rw [if_neg given] at target; exact larger.locate target

/-- Writing files moves no slot. -/
theorem Rewritten.slot_join (rewritten : fs.Rewritten after) (file : IsFileName name)
    (ready : fs.Ready p) : after.slot (p.join name) = fs.slot (p.join name) := by
  rcases ready with ⟨l, leads⟩ | ⟨empty, missing⟩
  · rw [FileSystem.slot_join file leads,
      FileSystem.slot_join file (leads.of_extends rewritten.larger)]
    simp only [rewritten.directory_iff]
  · have missing' : after.entry? after.workingDirectory ≠ some .directory := by
      rwa [rewritten.larger.workingDirectory, Ne, rewritten.directory_iff]
    rw [slot_join_missing file empty missing, slot_join_missing file empty missing']

/-- Different names have different slots. -/
theorem slot_join_injective {other : String} (file : IsFileName name) (file' : IsFileName other)
    (ready : fs.Ready p) (filled : fs.slot (p.join name) = .ok l)
    (filled' : fs.slot (p.join other) = .ok l) : name = other := by
  rcases ready with ⟨m, leads⟩ | ⟨empty, missing⟩
  · rw [slot_join file leads] at filled
    rw [slot_join file' leads] at filled'
    split at filled
    · cases filled
    · split at filled'
      · cases filled'
      · cases filled
        simpa using filled'.symm
  · rw [slot_join_missing file empty missing] at filled
    cases filled

/-- A slot that holds something is where the path leads. -/
theorem locate_join (file : IsFileName name) (ready : fs.Ready p) (larger : fs.Extends after)
    (filled : fs.slot (p.join name) = .ok l) (there : (after.entry? l).isSome = true) :
    after.locate (p.join name) = .ok l := by
  rcases ready with ⟨m, leads⟩ | ⟨empty, missing⟩
  · rw [slot_join file leads] at filled
    split at filled
    · cases filled
    · next fresh =>
      cases filled
      simp only [Bool.or_eq_true, decide_eq_true_eq, not_or] at fresh
      obtain ⟨parts, split, origin, walked, -⟩ := parts_join file p
      have leads' := leads.of_extends larger
      have step : after.walk m [name] = .ok (m ++ [name]) := by
        simp [walk, leads'.1, file.given, fresh.1.1, fresh.1.2, there]
      have written := written_of_parts file.given split
      rw [locate, if_neg (by simp [written]), split, origin, walk_append, walked after m leads']
      exact step
  · rw [slot_join_missing file empty missing] at filled
    cases filled

end Names

end FileSystem

end Dialect
