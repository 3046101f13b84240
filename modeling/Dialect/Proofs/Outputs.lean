import Dialect.Build
import Dialect.Parsing.Program
import Dialect.Proofs.FileEffects

/-!
# What a build writes

Each unit has one slot in the output directory, and writing one unit moves no slot of another. So a
report depends on its own unit and on the directories, and of several units with one output path the
last is what the file holds. Main statement: the effect of a build on the files.
-/

namespace Dialect

theorem Path.mem_of_mem_stemChars {name : List Char} {ch : Char} (member : ch ∈ stemChars name) :
    ch ∈ name := by
  simp only [stemChars] at member
  split at member
  · next dot first rest stem =>
    have tail := List.dropWhile_suffix (l := name.reverse) (decide <| · ≠ '.')
    rw [stem] at tail
    have part : first :: rest <:+ name.reverse := (List.suffix_cons dot _).trans tail
    exact List.mem_reverse.mp (part.subset (List.mem_reverse.mp member))
  · exact member

theorem Path.plain_fileStem (p : Path) : '/' ∉ (p.fileStem?.getD "").toList := by
  have component : '/' ∉ (splitLast p.text.toList).2 := by
    intro member
    have other := List.mem_takeWhile_imp (List.mem_reverse.mp member)
    simp at other
  simp only [fileStem?, fileNameChars?]
  split
  · simp
  · simp only [Option.map_some, Option.getD_some, String.toList_ofList]
    exact fun member => component (mem_of_mem_stemChars member)

theorem isFileName_output {g : Grammar} (plain : '/' ∉ g.file.extension.toList) (source : Path) :
    FileSystem.IsFileName (source.fileStem?.getD "" ++ "." ++ g.file.extension) where
  plain := by simpa [plain] using source.plain_fileStem
  given := by
    intro empty
    have length := congrArg String.length empty
    simp at length

namespace Build

variable {parse : SourceParser} {g : Grammar} {outDir : Path} {fs : FileSystem} {u : SourceUnit}

/-! ## One unit -/

/-- What a unit gives. One that cannot be read gives no text, and the reason as a syntax error. -/
def given (parse : SourceParser) (g : Grammar) (u : SourceUnit) : Compiled :=
  match compile parse g u.text with
  | .ok compiled => compiled
  | .error error => ⟨"", [⟨.parse, error.message, none, none⟩]⟩

/-- The syntax errors of a unit, those found when it was loaded included. -/
def malformed (parse : SourceParser) (g : Grammar) (u : SourceUnit) : Bool :=
  (u.diagnostics ++ (given parse g u).diagnostics).any (·.kind = .parse)

/-- What is reported of a unit before it is written. -/
def reported (parse : SourceParser) (g : Grammar) (u : SourceUnit) : List Diagnostic :=
  (u.diagnostics.map fun d => if d.path.isNone then d.withPath u.path.text else d) ++
    (given parse g u).diagnostics.map (·.withPath u.path.text)

theorem any_parse_reported (parse : SourceParser) (g : Grammar) (u : SourceUnit) :
    (reported parse g u).any (·.kind = .parse) = malformed parse g u := by
  have loaded (d : Diagnostic) :
      (if d.path.isNone then d.withPath u.path.text else d).kind = d.kind := by
    split <;> rfl
  have emitted (d : Diagnostic) : (d.withPath u.path.text).kind = d.kind := rfl
  simp only [reported, malformed, List.any_append, List.any_map, Function.comp_def, loaded, emitted]

theorem unit_of_malformed (outDir : Path) (fs : FileSystem)
    (syntaxError : malformed parse g u = true) :
    unit parse g outDir fs u =
      (⟨u.path, none, (given parse g u).text, reported parse g u⟩, fs) := by
  rw [← any_parse_reported] at syntaxError
  cases result : compile parse g u.text with
  | error e => simp only [unit, reported, given, result, List.map_cons, List.map_nil,
      Diagnostic.withPath]
  | ok compiled =>
    simp only [reported, given, result] at syntaxError ⊢
    simp only [unit, result, syntaxError, if_true]

/-- Without syntax errors the unit has been read, and is written to its slot. -/
theorem unit_of_clean (outDir : Path) (fs : FileSystem) (clean : malformed parse g u = false) :
    (∀ l, fs.slot (outputPath g outDir u.path) = .ok l →
      unit parse g outDir fs u =
        (⟨u.path, some (outputPath g outDir u.path), (given parse g u).text, reported parse g u⟩,
          fs.set l (.file (.text (given parse g u).text)))) ∧
    ∀ e : FileError, fs.slot (outputPath g outDir u.path) = .error e →
      unit parse g outDir fs u =
        (⟨u.path, none, (given parse g u).text, reported parse g u ++
          [⟨.io, "failed to write " ++ (outputPath g outDir u.path).text ++ ": " ++ e.message, none,
            some u.path.text⟩]⟩, fs) := by
  rw [← any_parse_reported] at clean
  cases result : compile parse g u.text with
  | error e => simp [reported, given, result, Diagnostic.withPath] at clean
  | ok compiled =>
    simp only [reported, given, result] at clean ⊢
    constructor
    · intro l filled
      simp only [unit, result, clean, Bool.false_eq_true, if_false, FileSystem.write_eq_slot, filled,
        Except.map]
    · intro e closed
      simp only [unit, result, clean, Bool.false_eq_true, if_false, FileSystem.write_eq_slot, closed,
        Except.map]

/-- A unit is written to its slot, or it is reported as failed. -/
theorem unit_cases (parse : SourceParser) (g : Grammar) (outDir : Path) (fs : FileSystem)
    (u : SourceUnit) :
    ((malformed parse g u = true ∨ ∃ e, fs.slot (outputPath g outDir u.path) = .error e) ∧
      (unit parse g outDir fs u).1.output = none ∧ (unit parse g outDir fs u).1.failed = true ∧
      (unit parse g outDir fs u).2 = fs) ∨
    (malformed parse g u = false ∧
      (unit parse g outDir fs u).1.output = some (outputPath g outDir u.path) ∧
      ∃ l, fs.slot (outputPath g outDir u.path) = .ok l ∧ (unit parse g outDir fs u).2 =
        fs.set l (.file (.text (unit parse g outDir fs u).1.generated))) := by
  cases clean : malformed parse g u with
  | true =>
    rw [unit_of_malformed outDir fs clean]
    refine .inl ⟨.inl rfl, rfl, ?_, rfl⟩
    rw [← any_parse_reported, List.any_eq_true] at clean
    obtain ⟨d, member, parse⟩ := clean
    exact List.any_eq_true.mpr ⟨d, member, by simp_all⟩
  | false =>
    obtain ⟨written, unwritten⟩ := unit_of_clean outDir fs clean
    cases filled : fs.slot (outputPath g outDir u.path) with
    | error e =>
      rw [unwritten e filled]
      refine .inl ⟨.inr ⟨e, rfl⟩, rfl, ?_, rfl⟩
      simp [UnitReport.failed]
    | ok l =>
      rw [written l filled]
      exact .inr ⟨rfl, rfl, l, rfl, rfl⟩

/-- A report depends on the file system by the slot of its unit only. -/
theorem report_congr {after : FileSystem}
    (same : after.slot (outputPath g outDir u.path) = fs.slot (outputPath g outDir u.path)) :
    (unit parse g outDir after u).1 = (unit parse g outDir fs u).1 := by
  cases clean : malformed parse g u with
  | true => rw [unit_of_malformed outDir after clean, unit_of_malformed outDir fs clean]
  | false =>
    obtain ⟨written, unwritten⟩ := unit_of_clean outDir fs clean
    obtain ⟨written', unwritten'⟩ := unit_of_clean outDir after clean
    cases filled : fs.slot (outputPath g outDir u.path) with
    | error e => rw [unwritten e filled, unwritten' e (same.trans filled)]
    | ok l => rw [written l filled, written' l (same.trans filled)]

theorem generated_unit (parse : SourceParser) (g : Grammar) (outDir : Path) (fs : FileSystem)
    (u : SourceUnit) : (unit parse g outDir fs u).1.generated = (given parse g u).text := by
  cases clean : malformed parse g u with
  | true => rw [unit_of_malformed outDir fs clean]
  | false =>
    obtain ⟨written, unwritten⟩ := unit_of_clean outDir fs clean
    cases filled : fs.slot (outputPath g outDir u.path) with
    | error e => rw [unwritten e filled]
    | ok l => rw [written l filled]

theorem output_eq_some_of_write {next : FileSystem} (clean : malformed parse g u = false)
    (written : fs.write (outputPath g outDir u.path) (given parse g u).text = .ok next) :
    (unit parse g outDir fs u).1.output = some (outputPath g outDir u.path) := by
  rcases unit_cases parse g outDir fs u with ⟨syntaxError | ⟨e, closed⟩, -, -, -⟩ | ⟨-, output, -⟩
  · rw [clean] at syntaxError
    cases syntaxError
  · rw [FileSystem.write_eq_slot, closed] at written
    cases written
  · exact output

theorem output_eq_none_of_malformed (fs : FileSystem) (outDir : Path)
    (syntaxError : malformed parse g u = true) : (unit parse g outDir fs u).1.output = none := by
  rcases unit_cases parse g outDir fs u with ⟨-, output, -, -⟩ | ⟨clean, -, -⟩
  · exact output
  · rw [syntaxError] at clean
    cases clean

theorem failed_of_output_eq_none (missing : (unit parse g outDir fs u).1.output = none) :
    (unit parse g outDir fs u).1.failed = true := by
  rcases unit_cases parse g outDir fs u with ⟨-, -, failed, -⟩ | ⟨-, output, -⟩
  · exact failed
  · rw [missing] at output
    cases output

theorem unit_rewritten (parse : SourceParser) (g : Grammar) (outDir : Path) (fs : FileSystem)
    (u : SourceUnit) : fs.Rewritten (unit parse g outDir fs u).2 := by
  rcases unit_cases parse g outDir fs u with ⟨-, -, -, same⟩ | ⟨-, -, l, filled, written⟩
  · rw [same]
    exact .refl fs
  · obtain ⟨given, free⟩ := FileSystem.slot_ok filled
    rw [written]
    exact FileSystem.rewritten_set given free _

/-! ## All units -/

theorem units_rewritten (parse : SourceParser) (g : Grammar) (outDir : Path) (fs : FileSystem)
    (us : List SourceUnit) : fs.Rewritten (units parse g outDir fs us).2 := by
  induction us generalizing fs with
  | nil => exact .refl fs
  | cons u us ih => exact (unit_rewritten parse g outDir fs u).trans (ih _)

theorem units_append (parse : SourceParser) (g : Grammar) (outDir : Path) (fs : FileSystem)
    (us vs : List SourceUnit) :
    (units parse g outDir fs (us ++ vs)).2 =
      (units parse g outDir (units parse g outDir fs us).2 vs).2 := by
  induction us generalizing fs with
  | nil => rfl
  | cons u us ih => exact ih _

section Run

variable {created : FileSystem}

def Fills (parse : SourceParser) (g : Grammar) (outDir : Path) (created : FileSystem)
    (u : SourceUnit) (l : Location) : Prop :=
  (unit parse g outDir created u).1.output = some (outputPath g outDir u.path) ∧
    created.slot (outputPath g outDir u.path) = .ok l

theorem fills_of_output {path : Path}
    (written : (unit parse g outDir created u).1.output = some path) :
    path = outputPath g outDir u.path ∧ ∃ l, Fills parse g outDir created u l := by
  rcases unit_cases parse g outDir created u with ⟨-, none, -, -⟩ | ⟨-, output, l, filled, -⟩
  · rw [written] at none
    cases none
  · exact ⟨Option.some.inj (written.symm.trans output), l, output, filled⟩

variable (plain : '/' ∉ g.file.extension.toList) (ready : created.Ready outDir)

include plain ready

theorem unit_fst (rewritten : created.Rewritten fs) (u : SourceUnit) :
    (unit parse g outDir fs u).1 = (unit parse g outDir created u).1 :=
  report_congr (rewritten.slot_join (isFileName_output plain u.path) ready)

/-- One unit fills its slot and changes nothing else. -/
theorem lookup_unit (rewritten : created.Rewritten fs) (u : SourceUnit) (l : Location) :
    (Fills parse g outDir created u l → FileSystem.entry? (unit parse g outDir fs u).2 l =
      some (.file (.text (unit parse g outDir created u).1.generated))) ∧
    (¬ Fills parse g outDir created u l →
      FileSystem.entry? (unit parse g outDir fs u).2 l = fs.entry? l) := by
  have moved := rewritten.slot_join (isFileName_output plain u.path) ready
  rw [← outputPath] at moved
  have report : (unit parse g outDir fs u).1 = (unit parse g outDir created u).1 :=
    unit_fst plain ready rewritten u
  rcases unit_cases parse g outDir fs u with ⟨-, output, -, same⟩ | ⟨-, output, m, filled, written⟩
  · rw [same]
    refine ⟨fun fills => ?_, fun _ => rfl⟩
    rw [report, fills.1] at output
    cases output
  · rw [written, ← report]
    have fills : Fills parse g outDir created u m := ⟨report ▸ output, moved ▸ filled⟩
    constructor
    · intro fills'
      have same : m = l := Except.ok.inj (fills.2.symm.trans fills'.2)
      rw [← same, FileSystem.lookup_set_self (FileSystem.slot_ok filled).1]
    · intro other
      have apart : l ≠ m := fun same => other (same ▸ fills)
      rw [FileSystem.lookup_set_of_ne apart]

theorem units_fst (rewritten : created.Rewritten fs) (us : List SourceUnit) :
    (units parse g outDir fs us).1 = us.map fun u => (unit parse g outDir created u).1 := by
  induction us generalizing fs with
  | nil => rfl
  | cons u us ih =>
    have later := ih (rewritten.trans (unit_rewritten parse g outDir fs u))
    simp only [units, List.map_cons, later, unit_fst plain ready rewritten]

theorem lookup_units_of_not_fills (rewritten : created.Rewritten fs) {us : List SourceUnit}
    {l : Location} (none : ∀ u ∈ us, ¬ Fills parse g outDir created u l) :
    FileSystem.entry? (units parse g outDir fs us).2 l = fs.entry? l := by
  induction us generalizing fs with
  | nil => rfl
  | cons u us ih =>
    rw [List.forall_mem_cons] at none
    have later := ih (rewritten.trans (unit_rewritten parse g outDir fs u)) none.2
    exact later.trans ((lookup_unit plain ready rewritten u l).2 none.1)

theorem lookup_units_of_last (before : List SourceUnit) {later : List SourceUnit}
    {u : SourceUnit} {l : Location} (fills : Fills parse g outDir created u l)
    (last : ∀ v ∈ later, ¬ Fills parse g outDir created v l) :
    FileSystem.entry? (units parse g outDir created (before ++ u :: later)).2 l =
      some (.file (.text (unit parse g outDir created u).1.generated)) := by
  have first := units_rewritten parse g outDir created before
  have second := first.trans (unit_rewritten parse g outDir _ u)
  rw [units_append]
  exact (lookup_units_of_not_fills plain ready second last).trans
    ((lookup_unit plain ready first u l).1 fills)

theorem present_of_fills {us : List SourceUnit} {u : SourceUnit} (member : u ∈ us) {l : Location}
    (fills : Fills parse g outDir created u l) :
    (FileSystem.entry? (units parse g outDir created us).2 l).isSome = true := by
  obtain ⟨before, later, rfl⟩ := List.append_of_mem member
  have first := units_rewritten parse g outDir created before
  have written := (lookup_unit plain ready first u l).1 fills
  have later := units_rewritten parse g outDir
    (unit parse g outDir (units parse g outDir created before).2 u).2 later
  rw [units_append]
  exact later.larger.present l (by rw [written, Option.isSome_some])

theorem locate_of_fills {us : List SourceUnit} {u : SourceUnit} (member : u ∈ us) {l : Location}
    (fills : Fills parse g outDir created u l) :
    (units parse g outDir created us).2.locate (outputPath g outDir u.path) = .ok l :=
  FileSystem.locate_join (isFileName_output plain u.path) ready
    (units_rewritten parse g outDir created us).larger fills.2
    (present_of_fills plain ready member fills)

theorem outputPath_eq_of_fills {u v : SourceUnit} {l : Location}
    (fills : Fills parse g outDir created u l) (fills' : Fills parse g outDir created v l) :
    outputPath g outDir u.path = outputPath g outDir v.path := by
  have same := FileSystem.slot_join_injective (isFileName_output plain u.path)
    (isFileName_output plain v.path) ready fills.2 fills'.2
  rw [outputPath, same, outputPath]

end Run

/-! ## A whole build -/

/-- What compiling the loaded units does to the files, once the output directory is there. -/
structure Effect (parse : SourceParser) (g : Grammar) (outDir : Path)
    (fs created after : FileSystem) (us : List SourceUnit) (reports : List UnitReport) : Prop where
  /-- A report for each unit, in order, that no other unit has a part in. -/
  independent : reports = us.map fun u => (unit parse g outDir created u).1
  /-- Only the reported files have changed. -/
  untouched : ∀ l, (∀ r ∈ reports, ∀ path, r.output = some path → after.locate path ≠ .ok l) →
    after.file? l = fs.file? l
  /-- A reported file holds what the last unit that reports it gives. -/
  last : ∀ before r later path, reports = before ++ r :: later → r.output = some path →
    (∀ r' ∈ later, r'.output ≠ some path) → after.read path = .ok r.generated
  generated : ∀ u ∈ us, (unit parse g outDir created u).1.generated = (given parse g u).text
  /-- A unit without syntax errors is written where it can be. -/
  written : ∀ u ∈ us, malformed parse g u = false →
    ∀ next, created.write (outputPath g outDir u.path) (given parse g u).text = .ok next →
      (unit parse g outDir created u).1.output = some (outputPath g outDir u.path)
  /-- A unit with a syntax error has no output. -/
  unparsed : ∀ u ∈ us, malformed parse g u = true → (unit parse g outDir created u).1.output = none
  /-- A unit without output makes the build fail. -/
  failed : (∃ r ∈ reports, r.output = none) → reports.any (·.failed) = true

theorem units_effect {created : FileSystem} (plain : '/' ∉ g.file.extension.toList)
    (added : fs.Created created) (ready : created.Ready outDir) (us : List SourceUnit) :
    Effect parse g outDir fs created (units parse g outDir created us).2 us
      (units parse g outDir created us).1 := by
  have reports : (units parse g outDir created us).1 =
      us.map fun u => (unit parse g outDir created u).1 :=
    units_fst plain ready (.refl created) us
  refine ⟨reports, fun l unreported => ?_, fun before r later path split output last => ?_,
    fun u _ => generated_unit parse g outDir created u,
    fun u _ clean next written => output_eq_some_of_write clean written,
    fun u _ => output_eq_none_of_malformed created outDir, ?_⟩
  · have unfilled : ∀ u ∈ us, ¬ Fills parse g outDir created u l := by
      intro u member fills
      refine unreported _ ?_ _ fills.1 (locate_of_fills plain ready member fills)
      rw [reports]
      exact List.mem_map_of_mem member
    have same := lookup_units_of_not_fills plain ready (.refl created) unfilled
    rw [FileSystem.file?, same, ← FileSystem.file?, added.files l]
  · rw [reports] at split
    obtain ⟨us₁, us₂, rfl, -, tail⟩ := List.map_eq_append_iff.mp split
    obtain ⟨u, us₃, rfl, rfl, rfl⟩ := List.map_eq_cons_iff.mp tail
    obtain ⟨rfl, l, fills⟩ := fills_of_output output
    have final : ∀ v ∈ us₃, ¬ Fills parse g outDir created v l := by
      intro v member fills'
      refine last _ (List.mem_map_of_mem member) ?_
      rw [fills'.1, outputPath_eq_of_fills plain ready fills' fills]
    have held := lookup_units_of_last plain ready us₁ fills final
    have member : u ∈ us₁ ++ u :: us₃ := by simp
    have found := locate_of_fills plain ready member fills
    exact FileSystem.read_eq_ok_iff.mpr ⟨l, found, held⟩
  · rintro ⟨r, member, none⟩
    refine List.any_eq_true.mpr ⟨r, member, ?_⟩
    rw [reports] at member
    obtain ⟨u, -, rfl⟩ := List.mem_map.mp member
    exact failed_of_output_eq_none none

theorem run_of_ok (parse : SourceParser) (g : Grammar) (us : List SourceUnit)
    (made : (fs.createDirectories outDir).1 = .ok ()) :
    run parse g outDir fs (.ok us) =
      (.ok (units parse g outDir (fs.createDirectories outDir).2 us).1,
        (units parse g outDir (fs.createDirectories outDir).2 us).2) := by
  cases both : fs.createDirectories outDir with
  | mk result created =>
    rw [both] at made
    cases made
    simp only [run, both]

theorem run_of_error {error : FileError} (parse : SourceParser) (g : Grammar) (us : List SourceUnit)
    (failed : (fs.createDirectories outDir).1 = .error error) :
    run parse g outDir fs (.ok us) =
      (.error (.outputDirectory outDir error), (fs.createDirectories outDir).2) := by
  cases both : fs.createDirectories outDir with
  | mk result created =>
    rw [both] at failed
    cases failed
    simp only [run, both]

/-- A build that cannot load its units or create the output directory changes no file. Any other
build reports every unit by itself, and writes the reported files and no others. -/
theorem run_effect (parse : SourceParser) (g : Grammar) (outDir : Path) (fs : FileSystem)
    (loaded : Except LoadError (List SourceUnit)) (plain : '/' ∉ g.file.extension.toList) :
    ((∃ error, loaded = .error error) ∨ (∃ error, (fs.createDirectories outDir).1 = .error error) →
      (∃ error, (run parse g outDir fs loaded).1 = .error error) ∧
        ∀ l, (run parse g outDir fs loaded).2.file? l = fs.file? l) ∧
    ∀ us, loaded = .ok us → (fs.createDirectories outDir).1 = .ok () →
      ∃ reports, (run parse g outDir fs loaded).1 = .ok reports ∧
        Effect parse g outDir fs (fs.createDirectories outDir).2 (run parse g outDir fs loaded).2 us
          reports := by
  have added := fs.createDirectories_created outDir
  constructor
  · cases loaded with
    | error error => exact fun _ => ⟨⟨_, rfl⟩, fun _ => rfl⟩
    | ok us =>
      rintro (⟨error, loaded⟩ | ⟨error, failed⟩)
      · cases loaded
      · have result := run_of_error parse g us failed
        rw [result]
        exact ⟨⟨_, rfl⟩, added.files⟩
  · rintro us rfl made
    have result := run_of_ok parse g us made
    rw [result]
    exact ⟨_, rfl, units_effect plain added (FileSystem.ready_of_createDirectories made) us⟩

/-- Two units are named alike, and the file holds the second. One between them does not parse. -/
theorem run_effect_same_name :
    let g : Grammar := {}
    let fs : FileSystem := ⟨[], []⟩
    let us : List SourceUnit :=
      [⟨⟨"a/main.ts"⟩, "a = 1;", []⟩, ⟨⟨"b.ts"⟩, "a = ;", []⟩, ⟨⟨"main"⟩, "b = 2;", []⟩]
    '/' ∉ g.file.extension.toList ∧ (fs.createDirectories ⟨"out/py"⟩).1 = .ok () ∧
    ∃ reports, (run Tree.parser g ⟨"out/py"⟩ fs (.ok us)).1 = .ok reports ∧
      reports.map (·.output) = [some ⟨"out/py/main.py"⟩, none, some ⟨"out/py/main.py"⟩] ∧
      (run Tree.parser g ⟨"out/py"⟩ fs (.ok us)).2.read ⟨"out/py/main.py"⟩ = .ok "b = 2\n" ∧
      reports.any (·.failed) = true := by
  intro g fs us
  have plain : '/' ∉ g.file.extension.toList := by decide
  have made : (fs.createDirectories ⟨"out/py"⟩).1 = .ok () := by decide +kernel
  obtain ⟨reports, result, effect⟩ :=
    (run_effect Tree.parser g ⟨"out/py"⟩ fs (.ok us) plain).2 us rfl made
  have outputs : reports.map (·.output) =
      [some ⟨"out/py/main.py"⟩, none, some ⟨"out/py/main.py"⟩] := by
    rw [effect.independent]
    decide +kernel
  refine ⟨plain, made, reports, result, outputs, ?_, effect.failed ?_⟩
  · have generated := effect.generated ⟨⟨"main"⟩, "b = 2;", []⟩ (by simp [us])
    have text : (given Tree.parser g ⟨⟨"main"⟩, "b = 2;", []⟩).text = "b = 2\n" := by
      decide +kernel
    rw [← text, ← generated]
    have ends : us = us.take 2 ++ [⟨⟨"main"⟩, "b = 2;", []⟩] := rfl
    have split := effect.independent
    rw [ends, List.map_append] at split
    exact effect.last _ _ [] ⟨"out/py/main.py"⟩ split (by decide +kernel) (by simp)
  · have missing : none ∈ reports.map (·.output) := by simp [outputs]
    exact List.mem_map.mp missing

end Build

end Dialect
