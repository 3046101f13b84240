import Dialect.Proofs.Discovery
import Dialect.Proofs.Occurrences
import Dialect.Proofs.Outputs
import Dialect.Proofs.Provenance

/-!
# Module paths and output files

A module path is written from the specifier alone, the output of a unit is named after its file. Main
statement: the module path of an import names the output of the imported unit exactly when the
specifier gives the stem of the file and nothing in it reads as a separator. So it is for every plain
name, and for no file that is reached through a directory.
-/

namespace Dialect

/-! ## Names of files -/

namespace Path

/-- A text is empty, or ends with a slash, so that what follows it is a part of its own. -/
def EndsPart (cs : List Char) : Prop :=
  cs = [] ∨ ∃ before, cs = before ++ ['/']

theorem EndsPart.append_left {bs : List Char} (ends : EndsPart bs) (given : bs ≠ [])
    (as : List Char) : EndsPart (as ++ bs) := by
  rcases ends with empty | ⟨before, rfl⟩
  · exact absurd empty given
  · exact .inr ⟨as ++ before, (List.append_assoc ..).symm⟩

theorem EndsPart.append {as bs : List Char} (first : EndsPart as) (second : EndsPart bs) :
    EndsPart (as ++ bs) := by
  by_cases given : bs = []
  · rwa [given, List.append_nil]
  · exact second.append_left given as

/-- The text up to the last slash, and the part behind it. -/
theorem exists_last_part (cs : List Char) :
    ∃ before name, cs = before ++ name ∧ EndsPart before ∧ '/' ∉ name := by
  induction cs with
  | nil => exact ⟨[], [], rfl, .inl rfl, List.not_mem_nil⟩
  | cons c cs ih =>
    obtain ⟨before, name, rfl, ends, plain⟩ := ih
    by_cases more : before = []
    · subst more
      by_cases slash : c = '/'
      · exact ⟨[c], name, rfl, .inr ⟨[], by rw [slash]; rfl⟩, plain⟩
      · exact ⟨[], c :: name, rfl, .inl rfl, by simp [plain, Ne.symm slash]⟩
    · exact ⟨c :: before, name, rfl, ends.append_left more [c], plain⟩

theorem dropTrail_eq_self {cs : List Char} (slash : cs.head? ≠ some '/')
    (point : ¬['.', '/'] <+: cs) : dropTrail cs = cs := by
  unfold dropTrail
  split
  · exact absurd rfl slash
  · exact absurd (List.prefix_append ['.', '/'] _) point
  · rfl

theorem splitLast_append {before name : List Char} (ends : EndsPart before) (plain : '/' ∉ name)
    (given : name ≠ []) (point : name ≠ ['.']) : splitLast (before ++ name) = (before, name) := by
  have apart : ∀ c ∈ name.reverse, decide (c ≠ '/') = true :=
    Text.forall_ne_of_not_mem (mt List.mem_reverse.mp plain)
  have behind : before.reverse = [] ∨ ∃ rest, before.reverse = '/' :: rest := by
    rcases ends with rfl | ⟨rest, rfl⟩
    · exact .inl rfl
    · exact .inr ⟨rest.reverse, by simp⟩
  have trail : dropTrail (before ++ name).reverse = name.reverse ++ before.reverse := by
    rw [List.reverse_append]
    obtain ⟨c, cs, shape⟩ := List.exists_cons_of_ne_nil (mt List.reverse_eq_nil_iff.mp given)
    rw [shape] at apart ⊢
    have first := apart c List.mem_cons_self
    refine dropTrail_eq_self (by simpa using first) fun pointed => ?_
    -- a point before the slash would be the whole name
    obtain ⟨rfl, next⟩ := List.cons_prefix_cons.mp pointed
    cases cs with
    | nil => exact point (by simpa using congrArg List.reverse shape)
    | cons d cs =>
      obtain ⟨rfl, -⟩ := List.cons_prefix_cons.mp next
      exact absurd (apart '/' (by simp)) (by decide)
  have taken : (name.reverse ++ before.reverse).takeWhile (· ≠ '/') = name.reverse := by
    rw [List.takeWhile_append_of_pos apart]
    rcases behind with none | ⟨rest, some⟩
    · rw [none, List.takeWhile_nil, List.append_nil]
    · rw [some, List.takeWhile_cons_of_neg (by decide), List.append_nil]
  have dropped : (name.reverse ++ before.reverse).dropWhile (· ≠ '/') = before.reverse := by
    rw [List.dropWhile_append_of_pos apart]
    rcases behind with none | ⟨rest, some⟩
    · rw [none, List.dropWhile_nil]
    · rw [some, List.dropWhile_cons_of_neg (by decide)]
  rw [splitLast, trail, taken, dropped, List.reverse_reverse, List.reverse_reverse]

theorem isName_ofList {name : List Char} : FileSystem.isName (String.ofList name) = true ↔
    name ≠ [] ∧ name ≠ ['.'] ∧ name ≠ ['.', '.'] ∧ '/' ∉ name := by
  have spelled (text : String) : String.ofList name = text ↔ name = text.toList := by
    rw [← String.toList_inj, String.toList_ofList]
  simp [FileSystem.isName, spelled, and_assoc]

/-- The last part of a path is its file name, if it is a name. -/
theorem fileNameChars?_append {before name : List Char} (ends : EndsPart before)
    (named : FileSystem.isName (String.ofList name) = true) :
    fileNameChars? ⟨String.ofList (before ++ name)⟩ = some name := by
  obtain ⟨given, point, points, plain⟩ := isName_ofList.mp named
  rw [fileNameChars?, String.toList_ofList, splitLast_append ends plain given point]
  simp [given, point, points]

/-- The parts of a path up to its last one. -/
theorem exists_parts_append {before name : List Char} (ends : EndsPart before) (plain : '/' ∉ name) :
    ∃ above, parts ⟨String.ofList (before ++ name)⟩ = above ++ [String.ofList name] := by
  rw [parts, String.toList_ofList]
  rcases ends with rfl | ⟨before, rfl⟩
  · exact ⟨[], by rw [List.nil_append, partsOf_eq_singleton plain]; rfl⟩
  · refine ⟨(partsOf before).map String.ofList, ?_⟩
    rw [List.append_assoc, List.singleton_append, partsOf_append_slash, partsOf_eq_singleton plain,
      List.map_append]
    rfl

/-- What does not begin with a slash is joined by appending it. -/
theorem join_eq_append (p : Path) {rest : String} (relative : rest.toList.head? ≠ some '/') :
    p.join rest = (p.join "").append rest := by
  have chars : joinChars p.text.toList rest.toList = joinChars p.text.toList [] ++ rest.toList := by
    unfold joinChars
    by_cases empty : p.text.toList = []
    · simp [empty]
    · by_cases slash : p.text.toList.getLast? = some '/'
      · simp [relative, empty, slash]
      · simp [relative, empty, slash]
  rw [join, chars, String.ofList_append, String.ofList_toList]
  rfl

end Path

namespace Location

theorem toPath_concat (l : Location) (name : String) :
    ∃ before, Path.EndsPart before ∧
      (l ++ [name]).toPath = ⟨String.ofList (before ++ name.toList)⟩ := by
  have joined (names : List String) : ("/".intercalate (names ++ [name])).toList =
      names.flatMap (fun n => n.toList ++ ['/']) ++ name.toList := by
    induction names with
    | nil => simp
    | cons first names ih =>
      obtain ⟨second, others, shape⟩ : ∃ second others, names ++ [name] = second :: others :=
        List.exists_cons_of_ne_nil (by simp)
      rw [List.cons_append, shape, String.intercalate_cons_cons, ← shape, String.toList_append,
        String.toList_append, ih, List.flatMap_cons, List.append_assoc, List.append_assoc]
      simp
  refine ⟨'/' :: l.flatMap (fun n => n.toList ++ ['/']), ?_, ?_⟩
  · induction l using List.reverseRecOn with
    | nil => exact .inr ⟨[], rfl⟩
    | append_singleton l last ih =>
      exact .inr ⟨'/' :: (l.flatMap (fun n => n.toList ++ ['/']) ++ last.toList), by simp⟩
  · rw [toPath, ← String.ofList_toList (s := "/" ++ _), String.toList_append, joined]
    rfl

end Location

namespace FileSystem

variable {fs : FileSystem}

theorem directory_dropLast (wf : fs.WellFormed) {l : Location}
    (directory : fs.entry? l = some .directory) : fs.entry? l.dropLast = some .directory := by
  by_cases root : l = []
  · rw [root]
    rfl
  · obtain ⟨e, member⟩ := mem_entries_of_isSome root (by rw [directory]; rfl)
    exact wf.rooted _ member

/-- A step that leads to a file is the name of the file. -/
theorem walk_file (wf : fs.WellFormed) {l m : Location} {name : String} {content : Content}
    (walked : fs.walk m [name] = .ok l) (file : fs.entry? l = some (.file content)) :
    name ≠ "" ∧ name ≠ "." ∧ name ≠ ".." ∧ l = m ++ [name] := by
  rw [walk] at walked
  cases entry : fs.entry? m with
  | none => simp [entry] at walked
  | some e =>
    cases e with
    | file content => simp [entry] at walked
    | directory =>
      have above := directory_dropLast wf entry
      by_cases blank : name = "" ∨ name = "."
      · have same : m = l := by simpa [entry, blank, walk] using walked
        rw [← same, entry] at file
        cases file
      · by_cases up : name = ".."
        · have same : m.dropLast = l := by simpa [entry, blank, up, walk] using walked
          rw [← same, above] at file
          cases file
        · rw [not_or] at blank
          refine ⟨blank.1, blank.2, up, ?_⟩
          by_cases present : (fs.entry? (m ++ [name])).isSome = true
          · have same : m ++ [name] = l := by simpa [entry, blank, up, present, walk] using walked
            exact same.symm
          · simp [entry, blank, up, present] at walked

/-- The canonical path of a file ends with the same name. -/
theorem exists_fileName (wf : fs.WellFormed) {p : Path} (file : fs.isFile p = true) :
    ∃ name, p.fileNameChars? = some name ∧ (fs.canonical p).fileNameChars? = some name := by
  obtain ⟨l, content, found, entry⟩ := isFile_iff.mp file
  obtain ⟨before, name, shape, ends, plain⟩ := Path.exists_last_part p.text.toList
  have spelled : p = ⟨String.ofList (before ++ name)⟩ := by
    rw [← shape, String.ofList_toList]
  obtain ⟨above, parts⟩ := Path.exists_parts_append ends plain
  rw [← spelled] at parts
  have walked : fs.walk (fs.origin p) p.parts = .ok l := by
    unfold locate at found
    split at found
    · cases found
    · exact found
  rw [parts, walk_append] at walked
  cases start : fs.walk (fs.origin p) above with
  | error e => simp [start, bind, Except.bind] at walked
  | ok m =>
    rw [start] at walked
    obtain ⟨given, point, points, rfl⟩ := walk_file wf walked entry
    have named : isName (String.ofList name) = true := by
      simp [isName, given, point, points, plain]
    obtain ⟨root, rooted, path⟩ := Location.toPath_concat m (String.ofList name)
    refine ⟨name, ?_, ?_⟩
    · rw [spelled, Path.fileNameChars?_append ends named]
    · rw [canonical_of_locate found, path, String.toList_ofList,
        Path.fileNameChars?_append rooted named]

end FileSystem

/-! ## Plain names -/

/-- A name without points. -/
structure Path.IsPlain (name : List Char) : Prop where
  given : name ≠ []
  noPoint : '.' ∉ name
  noSlash : '/' ∉ name

namespace Path.IsPlain

variable {name : List Char}

theorem isName (plain : IsPlain name) : FileSystem.isName (String.ofList name) = true := by
  refine Path.isName_ofList.mpr ⟨plain.given, ?_, ?_, plain.noSlash⟩
  · rintro rfl
    exact plain.noPoint List.mem_cons_self
  · rintro rfl
    exact plain.noPoint List.mem_cons_self

theorem isName_extended (plain : IsPlain name) {extension : List Char} (noSlash : '/' ∉ extension) :
    FileSystem.isName (String.ofList (name ++ '.' :: extension)) = true := by
  obtain ⟨c, cs, rfl⟩ := List.exists_cons_of_ne_nil plain.given
  have first : c ≠ '.' := fun point => plain.noPoint (point ▸ List.mem_cons_self)
  refine Path.isName_ofList.mpr ⟨by simp, by simp, by simp [first], ?_⟩
  have inside := plain.noSlash
  simp_all

theorem stemChars_eq (plain : IsPlain name) : stemChars name = name := by
  have none : name.reverse.dropWhile (· ≠ '.') = [] :=
    Text.dropWhile_ne_eq_nil (mt List.mem_reverse.mp plain.noPoint)
  rw [stemChars, none]

theorem stemChars_extended (plain : IsPlain name) {extension : List Char}
    (noPoint : '.' ∉ extension) : stemChars (name ++ '.' :: extension) = name := by
  have stem : (name ++ '.' :: extension).reverse.dropWhile (· ≠ '.') = '.' :: name.reverse := by
    rw [List.reverse_append, List.reverse_cons, List.append_assoc]
    exact Text.dropWhile_ne_append (mt List.mem_reverse.mp noPoint) name.reverse
  obtain ⟨c, cs, shape⟩ := List.exists_cons_of_ne_nil (mt List.reverse_eq_nil_iff.mp plain.given)
  rw [stemChars, stem, shape]
  simpa using congrArg List.reverse shape.symm

end Path.IsPlain

theorem Resolution.plain_sourceExtensions :
    ∀ e ∈ sourceExtensions, '.' ∉ e.toList ∧ '/' ∉ e.toList := by
  decide

/-- What is found for a plain name has the name as its stem, unless it is the index of a directory. -/
theorem Resolution.fileStem?_of_findFile? {fs : FileSystem} {before name : List Char} {f : Path}
    (ends : Path.EndsPart before) (plain : Path.IsPlain name)
    (directory : fs.isDirectory ⟨String.ofList (before ++ name)⟩ = false)
    (found : findFile? fs ⟨String.ofList (before ++ name)⟩ = some f)
    (program : isDeclaration f = false) : f.fileStem? = some (String.ofList name) := by
  have extended {e : String} (noSlash : '/' ∉ e.toList) :
      Path.fileNameChars? ⟨String.ofList (before ++ name) ++ ("." ++ e)⟩ =
        some (name ++ '.' :: e.toList) := by
    have shape : String.ofList (before ++ name) ++ ("." ++ e) =
        String.ofList (before ++ (name ++ '.' :: e.toList)) := by
      rw [← String.toList_inj]
      simp
    rw [shape, Path.fileNameChars?_append ends (plain.isName_extended noSlash)]
  have replaced (e : String) : Path.withExtension ⟨String.ofList (before ++ name)⟩ e =
      Path.append ⟨String.ofList (before ++ name)⟩ ("." ++ e) := by
    obtain ⟨given, point, -, noSlash⟩ := Path.isName_ofList.mp plain.isName
    rw [Path.withExtension, Path.fileNameChars?_append ends plain.isName]
    simp only [String.toList_ofList, Path.splitLast_append ends noSlash given point,
      plain.stemChars_eq, Path.append, Path.mk.injEq]
    rw [← String.toList_inj]
    simp
  have among := List.mem_of_find?_eq_some found
  rw [candidates, directory, if_neg Bool.false_ne_true, List.append_nil] at among
  rw [List.mem_append, List.mem_cons, List.mem_flatMap, List.mem_singleton] at among
  rcases among with (rfl | ⟨e, source, listed⟩) | rfl
  · rw [Path.fileStem?, Path.fileNameChars?_append ends plain.isName, Option.map_some,
      plain.stemChars_eq]
  · obtain ⟨noPoint, noSlash⟩ := plain_sourceExtensions e source
    have spelled : f = Path.append ⟨String.ofList (before ++ name)⟩ ("." ++ e) := by
      rw [replaced] at listed
      simpa using listed
    rw [spelled, Path.fileStem?, Path.append, extended noSlash, Option.map_some,
      plain.stemChars_extended noPoint]
  · -- the last candidate only declares types
    have declares : isDeclaration (Path.append ⟨String.ofList (before ++ name)⟩ ".d.ts") = true := by
      have shape : (".d.ts" : String) = "." ++ "d.ts" := rfl
      rw [isDeclaration, Path.append, shape, extended (by decide), Option.any_some,
        List.isSuffixOf_iff_suffix]
      exact List.suffix_append name _
    rw [declares] at program
    cases program

/-! ## Separators -/

namespace Import

/-- A module path with each separator turned back into a slash. -/
def slashed (separator module : String) : String :=
  String.ofList (Text.mapOccurrences separator.toList (fun _ _ => ['/']) module.toList)

/-- The file of the output directory that a module path stands for. -/
def namedFile (g : Grammar) (outDir : Path) (module : String) : Path :=
  (outDir.join "").append (slashed g.file.pathSeparator module ++ "." ++ g.file.extension)

/-- Slashes written as separators and read back give a plain text only if there are none, and nothing
else reads as a separator. -/
theorem slashed_separated_iff {separator : String} (given : separator ≠ "") {cs : List Char}
    {plain : String} (noSlash : '/' ∉ plain.toList) :
    slashed separator (separated separator cs) = plain ↔
      String.ofList cs = plain ∧ Text.occursIn separator.toList cs = false := by
  have key : separator.toList ≠ [] := fun empty => given (String.toList_eq_nil_iff.mp empty)
  have kept (noSlash : '/' ∉ cs) : separated separator cs = String.ofList cs := by
    have each : ∀ c ∈ cs, (if c = '/' then separator.toList else [c]) = [c] := by
      intro c member
      exact if_neg fun slash : c = '/' => noSlash (slash ▸ member)
    rw [separated, List.flatMap_congr each, List.flatMap_singleton']
  constructor
  · rintro rfl
    -- a separator that occurs would have left a slash
    have absent : Text.occursIn separator.toList (separated separator cs).toList = false := by
      rw [Bool.eq_false_iff]
      intro occurs
      apply noSlash
      rw [slashed, String.toList_ofList]
      exact Text.mem_rewriteFrom_of_occursIn key '/' occurs none
    have same : slashed separator (separated separator cs) = separated separator cs := by
      rw [slashed, Text.mapOccurrences_eq_rewriteFrom, Text.rewriteFrom_of_not_occursIn absent,
        String.ofList_toList]
    have noSlash : '/' ∉ cs := by
      intro member
      obtain ⟨as, bs, rfl⟩ := List.append_of_mem member
      have occurs : separator.toList <:+: (separated separator (as ++ '/' :: bs)).toList := by
        rw [separated, String.toList_ofList, List.flatMap_append, List.flatMap_cons, if_pos rfl,
          ← List.append_assoc]
        exact List.infix_append _ _ _
      rw [Text.occursIn_iff.mpr occurs] at absent
      cases absent
    rw [kept noSlash, String.toList_ofList] at absent
    exact ⟨(same.trans (kept noSlash)).symm, absent⟩
  · rintro ⟨rfl, absent⟩
    rw [String.toList_ofList] at noSlash
    rw [kept noSlash, slashed, String.toList_ofList, Text.mapOccurrences_eq_rewriteFrom,
      Text.rewriteFrom_of_not_occursIn absent]

theorem namedFile_eq_outputPath_iff (g : Grammar) (outDir unit : Path) (module : String) :
    namedFile g outDir module = outputPath g outDir unit ↔
      slashed g.file.pathSeparator module = unit.fileStem?.getD "" := by
  have joined : outputPath g outDir unit =
      (outDir.join "").append (unit.fileStem?.getD "" ++ "." ++ g.file.extension) := by
    have relative : (unit.fileStem?.getD "" ++ "." ++ g.file.extension).toList.head? ≠ some '/' := by
      have noSlash := unit.plain_fileStem
      cases stem : (unit.fileStem?.getD "").toList with
      | nil => simp [stem]
      | cons c cs =>
        rw [stem, List.mem_cons, not_or] at noSlash
        simpa [stem] using Ne.symm noSlash.1
    exact Path.join_eq_append outDir relative
  rw [joined, namedFile, Path.append, Path.append, Path.mk.injEq, String.append_right_inj,
    String.append_left_inj, String.append_left_inj]

/-- The steps at the front of a specifier end with a slash. -/
theorem dropSteps_append (cs : List Char) :
    ∃ steps, cs = steps ++ dropSteps cs ∧ Path.EndsPart steps := by
  fun_induction dropSteps cs with
  | case1 cs ih =>
    obtain ⟨steps, shape, ends⟩ := ih
    have step : Path.EndsPart ['.', '/'] := .inr ⟨['.'], rfl⟩
    exact ⟨['.', '/'] ++ steps, congrArg (['.', '/'] ++ ·) shape, step.append ends⟩
  | case2 cs ih =>
    obtain ⟨steps, shape, ends⟩ := ih
    have step : Path.EndsPart ['.', '.', '/'] := .inr ⟨['.', '.'], rfl⟩
    exact ⟨['.', '.', '/'] ++ steps, congrArg (['.', '.', '/'] ++ ·) shape, step.append ends⟩
  | case3 cs => exact ⟨[], rfl, .inl rfl⟩

theorem dropExtension_of_plain {name : List Char} (plain : Path.IsPlain name) :
    dropExtension name = name := by
  have kept (ending : List Char) (pointed : '.' ∈ ending) : Text.stripEnd? ending name = none := by
    refine if_neg fun stands => plain.noPoint ?_
    exact (List.isSuffixOf_iff_suffix.mp stands).subset pointed
  simp [dropExtension, kept]

end Import

theorem Resolution.head?_of_isRelative {specifier : List Char}
    (relative : isRelative specifier = true) : specifier.head? = some '.' := by
  simp only [isRelative, Bool.or_eq_true, decide_eq_true_eq, List.isPrefixOf_iff_prefix] at relative
  rcases relative with ((rfl | rfl) | ⟨rest, rfl⟩) | ⟨rest, rfl⟩ <;> rfl

namespace Project

variable {p : Project} {fs : FileSystem} {specifier : String} {importer f : Path}

theorem submodule?_of_resolve (resolved : p.resolve fs specifier importer = .file f) :
    Support.submodule? p.grammar specifier = none := by
  unfold resolve at resolved
  split at resolved
  · cases resolved
  · next other =>
    rw [Bool.or_eq_true, not_or] at other
    simpa using other.2

/-- A relative specifier is looked up from the directory of the importing file. -/
theorem findFile?_of_resolve (relative : Resolution.isRelative specifier.toList = true)
    (resolved : p.resolve fs specifier importer = .file f) :
    ∃ dir, importer.parent? = some dir ∧
      Resolution.findFile? fs (dir.join specifier) = some f ∧ Resolution.isDeclaration f = false := by
  simp only [resolve, relative, if_true] at resolved
  split at resolved
  · cases resolved
  · split at resolved
    · next path found =>
      obtain ⟨dir, parent, looked⟩ := Option.bind_eq_some_iff.mp found
      cases declares : Resolution.isDeclaration path with
      | true => simp [Resolution.ofFile, declares] at resolved
      | false =>
        rw [Resolution.eq_of_ofFile resolved] at looked declares
        exact ⟨dir, parent, looked, declares⟩
    · cases resolved

end Project

/-- The module path of a relative import names the output of a unit exactly when the specifier,
without its steps and its ending, is the stem of the unit and holds no separator. For a name without
points and separators that is no directory that is the stem of the file it leads to, and the file is
loaded under a path with the same stem. -/
theorem Import.names_output_iff (p : Project) (fs : FileSystem) (specifier : String)
    (importer outDir f : Path) (wf : fs.WellFormed) (separator : p.grammar.file.pathSeparator ≠ "")
    (relative : Resolution.isRelative specifier.toList = true)
    (resolved : p.resolve fs specifier importer = .file f) :
    let g := p.grammar
    let named := namedFile g outDir (modulePath g specifier)
    let name := dropSteps specifier.toList
    let occurs := Text.occursIn g.file.pathSeparator.toList
    (∀ unit : Path, unit.fileStem?.isSome = true →
        (named = outputPath g outDir unit ↔
          unit.fileStem? = some (String.ofList (dropExtension name)) ∧
            occurs (dropExtension name) = false)) ∧
      (Path.IsPlain name → occurs name = false →
        (∀ dir, importer.parent? = some dir → fs.isDirectory (dir.join specifier) = false) →
          ∀ unit : Path, unit.fileStem? = f.fileStem? → named = outputPath g outDir unit) ∧
      (fs.canonical f).fileStem? = f.fileStem? ∧ f.fileStem?.isSome = true := by
  intro g named name occurs
  have module : modulePath g specifier =
      separated g.file.pathSeparator (dropExtension name) := by
    rw [modulePath, Project.submodule?_of_resolve resolved]
  have exactly (unit : Path) (given : unit.fileStem?.isSome = true) :
      named = outputPath g outDir unit ↔
        unit.fileStem? = some (String.ofList (dropExtension name)) ∧
          occurs (dropExtension name) = false := by
    obtain ⟨stem, unitStem⟩ := Option.isSome_iff_exists.mp given
    have noSlash := unit.plain_fileStem
    rw [namedFile_eq_outputPath_iff, module, slashed_separated_iff separator noSlash, unitStem,
      Option.getD_some, Option.some_inj, eq_comm]
  obtain ⟨fileName, own, canonical⟩ :=
    FileSystem.exists_fileName wf (Project.isFile_of_resolve resolved)
  have stem : f.fileStem? = some (String.ofList (Path.stemChars fileName)) := by
    rw [Path.fileStem?, own, Option.map_some]
  refine ⟨exactly, ?_, ?_, by rw [stem, Option.isSome_some]⟩
  · intro plain apart directory unit same
    rw [exactly unit (by rw [same, stem, Option.isSome_some]), dropExtension_of_plain plain]
    refine ⟨?_, apart⟩
    obtain ⟨dir, parent, found, program⟩ := Project.findFile?_of_resolve relative resolved
    obtain ⟨steps, shape, ends⟩ := dropSteps_append specifier.toList
    have head := Resolution.head?_of_isRelative relative
    have given : steps ≠ [] := by
      rintro rfl
      rw [shape] at head
      exact plain.noPoint (List.mem_of_head? head)
    have target : dir.join specifier =
        ⟨String.ofList (((dir.join "").text.toList ++ steps) ++ name)⟩ := by
      rw [Path.join_eq_append dir (by rw [head]; decide), Path.append, Path.mk.injEq,
        ← String.toList_inj, String.toList_append, String.toList_ofList, List.append_assoc, ← shape]
    rw [same]
    exact Resolution.fileStem?_of_findFile? (ends.append_left given _) plain
      (target ▸ directory dir parent) (target ▸ found) program
  · rw [stem, Path.fileStem?, canonical, Option.map_some]

/-- A file beside the importing one, with the ending of another, and a file above it. -/
theorem Import.names_output_siblings :
    let fs : FileSystem :=
      ⟨[(["src"], .directory), (["src", "main.ts"], .file (.text "import './a.js'; import '../b';")),
        (["src", "a.ts"], .file (.text "")), (["b.ts"], .file (.text ""))], ["src"]⟩
    let g : Grammar := .python
    namedFile g ⟨"out"⟩ (modulePath g "./a.js") =
        outputPath g ⟨"out"⟩ (fs.canonical ⟨"/src/./a.ts"⟩) ∧
      namedFile g ⟨"out"⟩ (modulePath g "../b") =
        outputPath g ⟨"out"⟩ (fs.canonical ⟨"/src/../b.ts"⟩) := by
  intro fs g
  have beside := names_output_iff {} fs "./a.js" ⟨"/src/main.ts"⟩ ⟨"out"⟩ ⟨"/src/./a.ts"⟩ (by decide)
    (by decide) (by decide) (by decide +kernel)
  have above := names_output_iff {} fs "../b" ⟨"/src/main.ts"⟩ ⟨"out"⟩ ⟨"/src/../b.ts"⟩ (by decide)
    (by decide) (by decide) (by decide +kernel)
  constructor
  · exact (beside.1 _ (by decide +kernel)).mpr (by decide +kernel)
  · exact above.2.1 ⟨by decide, by decide, by decide⟩ (by decide) (by decide +kernel) _ above.2.2.1

/-- What is imported through a directory is written beside the other units, but its module path names
the directory. -/
theorem Import.module_path_keeps_directory :
    let fs : FileSystem :=
      ⟨[(["main.ts"], .file (.text "import \x7b b \x7d from './lib/b';")), (["lib"], .directory),
        (["lib", "b.ts"], .file (.text "export const b = 1;"))], []⟩
    let p : Project := {}
    (p.load Tree.parser fs [⟨"main.ts"⟩]).map
          (List.map fun u => (u.path, importedModules Tree.parser u.text.toList)) =
        .ok [(⟨"/main.ts"⟩, ["./lib/b"]), (⟨"/lib/b.ts"⟩, [])] ∧
      p.grammar.file.pathSeparator ≠ "" ∧ Resolution.isRelative "./lib/b".toList = true ∧
      p.resolve fs "./lib/b" ⟨"/main.ts"⟩ = .file ⟨"/./lib/b.ts"⟩ ∧
      namedFile p.grammar ⟨"out"⟩ (modulePath p.grammar "./lib/b") = ⟨"out/lib/b.py"⟩ ∧
      outputPath p.grammar ⟨"out"⟩ (fs.canonical ⟨"/./lib/b.ts"⟩) = ⟨"out/b.py"⟩ ∧
      namedFile p.grammar ⟨"out"⟩ (modulePath p.grammar "./lib/b") ≠
        outputPath p.grammar ⟨"out"⟩ (fs.canonical ⟨"/./lib/b.ts"⟩) := by
  decide +kernel

end Dialect
