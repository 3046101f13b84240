import Dialect.FileSystem
import Mathlib.Data.List.Induction

/-!
# Paths and locations

The parts of a path are followed one after the other. In a well-formed file system the canonical path
of what a path leads to leads there again, so a canonical path is its own canonical path and is read
like the path it came from.
-/

namespace Dialect

namespace Path

theorem partsOf_ne_nil (cs : List Char) : partsOf cs ≠ [] := by
  cases cs with
  | nil => simp [partsOf]
  | cons ch cs =>
    rw [partsOf]
    split
    · simp
    · cases partsOf cs <;> simp

/-- A slash ends one part and begins the next. -/
theorem partsOf_append_slash (as bs : List Char) :
    partsOf (as ++ '/' :: bs) = partsOf as ++ partsOf bs := by
  induction as with
  | nil => simp [partsOf]
  | cons ch as ih =>
    rw [List.cons_append, partsOf, partsOf]
    split
    · rw [ih, List.cons_append]
    · rw [ih]
      cases parts : partsOf as with
      | nil => exact (partsOf_ne_nil as parts).elim
      | cons part others => rfl

theorem partsOf_eq_singleton {cs : List Char} (plain : '/' ∉ cs) : partsOf cs = [cs] := by
  induction cs with
  | nil => rfl
  | cons ch cs ih =>
    rw [List.mem_cons, not_or] at plain
    rw [partsOf, if_neg (Ne.symm plain.1), ih plain.2]

end Path

namespace Location

/-- The names of a location are the parts of its path behind the first slash. -/
theorem parts_toPath {l : Location} (given : l ≠ []) (plain : ∀ name ∈ l, '/' ∉ name.toList) :
    l.toPath.parts = "" :: l := by
  have joined : ∀ names : List String, names ≠ [] → (∀ name ∈ names, '/' ∉ name.toList) →
      Path.partsOf ("/".intercalate names).toList = names.map String.toList := by
    intro names
    induction names with
    | nil => exact fun given => (given rfl).elim
    | cons name names ih =>
      intro _ plain
      rw [List.forall_mem_cons] at plain
      cases names with
      | nil => simpa using Path.partsOf_eq_singleton plain.1
      | cons other names =>
        have rest := ih (List.cons_ne_nil other names) plain.2
        have split : ("/".intercalate (name :: other :: names)).toList =
            name.toList ++ '/' :: ("/".intercalate (other :: names)).toList := by
          simp [String.intercalate_cons_cons]
        rw [split, Path.partsOf_append_slash, Path.partsOf_eq_singleton plain.1, rest]
        rfl
  have text : l.toPath.text.toList = [] ++ '/' :: ("/".intercalate l).toList := by
    simp [toPath]
  rw [Path.parts, text, Path.partsOf_append_slash, joined l given plain]
  simp [Path.partsOf, Function.comp_def]

end Location

namespace FileSystem

variable {fs : FileSystem}

theorem walk_append (fs : FileSystem) (l : Location) (xs ys : List String) :
    fs.walk l (xs ++ ys) = fs.walk l xs >>= fun m => fs.walk m ys := by
  induction xs generalizing l with
  | nil => rfl
  | cons name xs ih =>
    rw [List.cons_append, walk, walk]
    cases fs.entry? l with
    | none => rfl
    | some e =>
      cases e with
      | file content => rfl
      | directory =>
        simp only
        split
        · exact ih l
        · split
          · exact ih l.dropLast
          · split
            · exact ih (l ++ [name])
            · rfl

theorem read_eq_ok_iff {p : Path} {text : String} :
    fs.read p = .ok text ↔
      ∃ l, fs.locate p = .ok l ∧ fs.entry? l = some (.file (.text text)) := by
  unfold read
  cases fs.locate p with
  | error e => simp [bind, Except.bind]
  | ok l =>
    simp only [bind, Except.bind, Except.ok.injEq, exists_eq_left']
    split <;> simp_all

theorem isFile_iff {p : Path} :
    fs.isFile p = true ↔ ∃ l content, fs.locate p = .ok l ∧ fs.entry? l = some (.file content) := by
  unfold isFile
  cases fs.locate p with
  | error e => simp
  | ok l =>
    simp only [Except.ok.injEq]
    cases entry : fs.entry? l with
    | none => simp [entry]
    | some e => cases e <;> simp [entry]

theorem mem_entries_of_file {l : Location} {content : Content}
    (file : fs.entry? l = some (.file content)) : (l, .file content) ∈ fs.entries := by
  unfold entry? at file
  split at file
  · cases file
  · obtain ⟨before, after, same, -⟩ := List.lookup_eq_some_iff.mp file
    simp [same]

theorem mem_entries_of_isSome {l : Location} (given : l ≠ []) (found : (fs.entry? l).isSome = true) :
    ∃ e, (l, e) ∈ fs.entries := by
  obtain ⟨e, entry⟩ := Option.isSome_iff_exists.mp found
  unfold entry? at entry
  rw [if_neg (by simpa using given)] at entry
  obtain ⟨before, after, same, -⟩ := List.lookup_eq_some_iff.mp entry
  exact ⟨e, by simp [same]⟩

/-- A name that stands for itself in a path. -/
def isName (name : String) : Bool :=
  name ≠ "" && name ≠ "." && name ≠ ".." && !name.toList.contains '/'

/-- Every entry has a name of its own and stands in a directory. -/
structure WellFormed (fs : FileSystem) : Prop where
  named : ∀ x ∈ fs.entries, x.1.all isName = true
  rooted : ∀ x ∈ fs.entries, fs.entry? x.1.dropLast = some .directory

instance (fs : FileSystem) : Decidable fs.WellFormed :=
  decidable_of_iff
    ((∀ x ∈ fs.entries, x.1.all isName = true) ∧
      ∀ x ∈ fs.entries, fs.entry? x.1.dropLast = some .directory)
    ⟨fun ⟨named, rooted⟩ => ⟨named, rooted⟩, fun wf => ⟨wf.named, wf.rooted⟩⟩

theorem walk_of_isSome (wf : fs.WellFormed) {l : Location} (found : (fs.entry? l).isSome = true) :
    fs.walk [] l = .ok l := by
  induction l using List.reverseRecOn with
  | nil => rfl
  | append_singleton l name ih =>
    obtain ⟨e, member⟩ := mem_entries_of_isSome (by simp) found
    have above : fs.entry? l = some .directory := by simpa using wf.rooted _ member
    have named : isName name = true := by
      have names := wf.named _ member
      simp_all
    simp only [isName, Bool.and_eq_true, decide_eq_true_eq] at named
    obtain ⟨⟨⟨nonempty, point⟩, points⟩, -⟩ := named
    rw [walk_append, ih (by simp [above])]
    simp [bind, Except.bind, walk, above, nonempty, point, points, found]

/-- What exists is found at its own path. -/
theorem locate_toPath (wf : fs.WellFormed) {l : Location} (found : (fs.entry? l).isSome = true) :
    fs.locate l.toPath = .ok l := by
  have rooted : fs.origin l.toPath = [] := by
    simp [origin, Path.isAbsolute, Location.toPath]
  have given : l.toPath.text.isEmpty = false := by
    simp [Location.toPath]
  have walked : fs.walk [] l.toPath.parts = .ok l := by
    by_cases root : l = []
    · subst root
      rfl
    · obtain ⟨e, member⟩ := mem_entries_of_isSome root found
      have plain : ∀ name ∈ l, '/' ∉ name.toList := by
        intro name inside
        have named := List.all_eq_true.mp (wf.named _ member) name inside
        simp only [isName, Bool.and_eq_true] at named
        simpa using named.2
      have first : fs.walk [] ("" :: l) = fs.walk [] l := by
        simp [walk, entry?]
      rw [Location.parts_toPath root plain, first, walk_of_isSome wf found]
  rw [locate, given, rooted, walked]
  rfl

theorem canonical_of_locate {p : Path} {l : Location} (found : fs.locate p = .ok l) :
    fs.canonical p = l.toPath := by
  rw [canonical, found]

/-- A file is read by its canonical path like by any other. -/
theorem read_canonical (wf : fs.WellFormed) {p : Path} (file : fs.isFile p = true) :
    fs.read (fs.canonical p) = fs.read p := by
  obtain ⟨l, content, found, entry⟩ := isFile_iff.mp file
  rw [canonical_of_locate found, read, read, locate_toPath wf (by simp [entry]), found]

theorem canonical_canonical (wf : fs.WellFormed) {p : Path} (file : fs.isFile p = true) :
    fs.canonical (fs.canonical p) = fs.canonical p := by
  obtain ⟨l, content, found, entry⟩ := isFile_iff.mp file
  rw [canonical_of_locate found, canonical_of_locate (locate_toPath wf (by simp [entry]))]

theorem isFile_of_read {p : Path} {text : String} (read : fs.read p = .ok text) :
    fs.isFile p = true := by
  obtain ⟨l, found, entry⟩ := read_eq_ok_iff.mp read
  exact isFile_iff.mpr ⟨l, .text text, found, entry⟩

/-- A file can be read unless it holds no text. -/
theorem read_of_isFile {p : Path} (file : fs.isFile p = true) :
    (∃ text, fs.read p = .ok text) ∨ fs.read p = .error .invalidText := by
  obtain ⟨l, content, found, entry⟩ := isFile_iff.mp file
  cases content with
  | text text => exact .inl ⟨text, read_eq_ok_iff.mpr ⟨l, found, entry⟩⟩
  | binary =>
    right
    simp [read, found, entry, bind, Except.bind]

/-- The canonical path of a file is the path of one of the entries. -/
theorem canonical_mem_entries {p : Path} (file : fs.isFile p = true) :
    fs.canonical p ∈ fs.entries.map fun x => Location.toPath x.1 := by
  obtain ⟨l, content, found, entry⟩ := isFile_iff.mp file
  rw [canonical_of_locate found]
  exact List.mem_map.mpr ⟨_, mem_entries_of_file entry, rfl⟩

end FileSystem

end Dialect
