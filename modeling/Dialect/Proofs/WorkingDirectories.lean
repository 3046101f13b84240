import Dialect.Command
import Dialect.Proofs.FileLookup
import Mathlib.Data.List.Find

/-!
# Working directories

What a build is set up with is read by absolute paths, so it does not depend on the working
directory. Alias targets are taken from the base directory. Main statement: the working directory
makes a difference to the resolution of an import only where an alias is looked up without a base
directory. Its targets are then taken from the working directory.
-/

namespace Dialect

/-! ## Absolute paths -/

namespace Path

variable {p : Path}

theorem isAbsolute_iff : p.isAbsolute = true ↔ p.text.toList.head? = some '/' :=
  decide_eq_true_iff

theorem isAbsolute_of_front {front : List Char} (absolute : p.isAbsolute = true)
    (given : front ≠ []) (isFront : front <+: p.text.toList) (rest : List Char) :
    isAbsolute ⟨String.ofList (front ++ rest)⟩ = true := by
  obtain ⟨c, cs, rfl⟩ := List.exists_cons_of_ne_nil given
  obtain ⟨more, text⟩ := isFront
  rw [isAbsolute_iff, ← text] at absolute
  rw [isAbsolute_iff, String.toList_ofList]
  exact absolute

theorem isAbsolute_append (absolute : p.isAbsolute = true) (ending : String) :
    (p.append ending).isAbsolute = true := by
  rw [isAbsolute_iff] at absolute ⊢
  rw [append, String.toList_append, List.head?_append, absolute]
  rfl

/-- What is joined to an absolute path is absolute. -/
theorem isAbsolute_join (absolute : p.isAbsolute = true) (rest : String) :
    (p.join rest).isAbsolute = true := by
  by_cases rooted : rest.toList.head? = some '/'
  · rw [isAbsolute_iff, join, joinChars, String.toList_ofList, if_pos (by simp [rooted]), rooted]
  · obtain ⟨slash, joined⟩ := p.exists_text_join rest rooted
    rw [isAbsolute_iff] at absolute ⊢
    rw [joined, List.head?_append, absolute]
    rfl

theorem last_ne_nil {name : List Char} (named : p.fileNameChars? = some name) :
    (splitLast p.text.toList).2 ≠ [] := by
  intro none
  simp [fileNameChars?, none] at named

/-- A slash stands before the last component of an absolute path. -/
theorem before_ne_nil (absolute : p.isAbsolute = true) (given : (splitLast p.text.toList).2 ≠ []) :
    (splitLast p.text.toList).1 ≠ [] := by
  intro none
  have front := splitLast_front p.text.toList
  rw [none, List.nil_append] at front
  obtain ⟨c, cs, last⟩ := List.exists_cons_of_ne_nil given
  obtain ⟨rest, text⟩ := front
  have member : c ∈ (splitLast p.text.toList).2 := last ▸ List.mem_cons_self
  have plain : c ∈ (dropTrail p.text.toList.reverse).takeWhile (· ≠ '/') :=
    List.mem_reverse.mp member
  rw [isAbsolute_iff, ← text, last] at absolute
  have slash : c = '/' := Option.some.inj absolute
  simpa [slash] using List.mem_takeWhile_imp plain

theorem isAbsolute_of_parent? {dir : Path} (absolute : p.isAbsolute = true)
    (above : p.parent? = some dir) : dir.isAbsolute = true := by
  unfold parent? at above
  dsimp only at above
  split at above
  · cases above
  · next named =>
    have given := before_ne_nil absolute (by simpa using named)
    have front : (splitLast p.text.toList).1 <+: p.text.toList :=
      (List.prefix_append _ _).trans (splitLast_front _)
    have slash : (splitLast p.text.toList).1.head? = some '/' := by
      have whole := isAbsolute_of_front absolute given front []
      rwa [isAbsolute_iff, String.toList_ofList, List.append_nil] at whole
    obtain rfl := Option.some.inj above
    split
    · rfl
    · next named =>
      have shorter := List.reverse_prefix.mpr
        (dropTrail_suffix (splitLast p.text.toList).1.reverse)
      rw [List.reverse_reverse] at shorter
      have filled : (dropTrail (splitLast p.text.toList).1.reverse).reverse ≠ [] := by
        intro none
        simp [none, slash] at named
      have whole := isAbsolute_of_front absolute filled (shorter.trans front) []
      rwa [List.append_nil] at whole

theorem isAbsolute_withExtension (absolute : p.isAbsolute = true) (extension : String) :
    (p.withExtension extension).isAbsolute = true := by
  cases based : p.base? with
  | none => rwa [withExtension_of_no_base based]
  | some base =>
    rw [withExtension_of_base based]
    refine isAbsolute_of_front absolute ?_ (prefix_of_base based) _
    obtain ⟨name, named, rfl⟩ := Option.map_eq_some_iff.mp based
    simp [before_ne_nil absolute (last_ne_nil named)]

theorem exists_parent {name : List Char} (named : p.fileNameChars? = some name) :
    ∃ dir, p.parent? = some dir := by
  simp [parent?, last_ne_nil named]

end Path

/-! ## One file system, several working directories -/

namespace FileSystem

variable {fs : FileSystem} {p : Path} {dir : Location}

/-- The file system as it is seen from a directory. -/
def within (fs : FileSystem) (dir : Location) : FileSystem :=
  { fs with workingDirectory := dir }

theorem WellFormed.within (wf : fs.WellFormed) (dir : Location) : (fs.within dir).WellFormed :=
  ⟨wf.named, wf.rooted⟩

theorem walk_within (dir l : Location) (names : List String) :
    (fs.within dir).walk l names = fs.walk l names := by
  have same : FileSystem.entry? (fs.within dir) = fs.entry? := rfl
  induction names generalizing l with
  | nil => rfl
  | cons name names ih => simp only [walk, same, ih]

theorem locate_of_isAbsolute (absolute : p.isAbsolute = true) :
    fs.locate p = fs.walk [] p.parts := by
  have given : ¬p.text.isEmpty = true := by
    intro empty
    rw [Path.isAbsolute_iff, String.isEmpty_iff.mp empty] at absolute
    cases absolute
  rw [locate, if_neg given, origin, if_pos absolute]

theorem locate_within (absolute : p.isAbsolute = true) (dir : Location) :
    (fs.within dir).locate p = fs.locate p := by
  rw [locate_of_isAbsolute absolute, locate_of_isAbsolute absolute, walk_within]

theorem isFile_within (absolute : p.isAbsolute = true) (dir : Location) :
    (fs.within dir).isFile p = fs.isFile p := by
  rw [isFile, isFile, locate_within absolute]
  rfl

theorem isDirectory_within (absolute : p.isAbsolute = true) (dir : Location) :
    (fs.within dir).isDirectory p = fs.isDirectory p := by
  rw [isDirectory, isDirectory, locate_within absolute]
  rfl

theorem read_within (absolute : p.isAbsolute = true) (dir : Location) :
    (fs.within dir).read p = fs.read p := by
  rw [read, read, locate_within absolute]
  rfl

theorem canonical_within (absolute : p.isAbsolute = true) (dir : Location) :
    (fs.within dir).canonical p = fs.canonical p := by
  rw [canonical, canonical, locate_within absolute]

/-- A relative path that is joined to a directory is followed from there. -/
theorem locate_join_toPath (wf : fs.WellFormed) (here : fs.entry? dir = some .directory)
    (relative : p.text.toList.head? ≠ some '/') :
    fs.locate (dir.toPath.join p.text) = fs.walk dir p.parts := by
  have rooted : dir.toPath.isAbsolute = true := by simp [Path.isAbsolute, Location.toPath]
  have given : dir.toPath.text.toList ≠ [] := by simp [Location.toPath]
  have present : (fs.entry? dir).isSome = true := by simp [here]
  obtain ⟨before, joined, parts⟩ := Path.joinChars_eq relative given
  have reached : fs.walk [] ((Path.partsOf before).map String.ofList) = .ok dir := by
    have found := locate_toPath wf present
    rw [locate_of_isAbsolute rooted, Path.parts] at found
    rcases parts with parts | parts
    · rwa [parts] at found
    · rw [parts, Path.partsOf_append_slash, List.map_append] at found
      exact walk_of_walk_blank found
  rw [locate_of_isAbsolute (Path.isAbsolute_join rooted p.text), Path.parts, Path.join,
    String.toList_ofList, joined, Path.partsOf_append_slash, List.map_append, walk_append, reached]
  rfl

/-- A path leads from a directory where it leads when it is joined to the directory. -/
theorem locate_within_eq (wf : fs.WellFormed) (here : fs.entry? dir = some .directory)
    (given : p.text ≠ "") : (fs.within dir).locate p = fs.locate (dir.toPath.join p.text) := by
  by_cases absolute : p.text.toList.head? = some '/'
  · have same : dir.toPath.join p.text = p := by
      rw [Path.join, Path.joinChars, if_pos (by simp [absolute]), String.ofList_toList]
    rw [same, locate_within (Path.isAbsolute_iff.mpr absolute)]
  · have relative : ¬p.isAbsolute = true := mt Path.isAbsolute_iff.mp absolute
    rw [locate_join_toPath wf here absolute, locate, if_neg (mt String.isEmpty_iff.mp given),
      origin, if_neg relative, walk_within]
    rfl

theorem isFile_within_eq (wf : fs.WellFormed) (here : fs.entry? dir = some .directory) (p : Path) :
    (fs.within dir).isFile p = fs.isFile (dir.toPath.join p.text) := by
  by_cases given : p.text = ""
  · -- the empty path is no file, and joined to the directory it leads to the directory
    have located : fs.locate (dir.toPath.join p.text) = .ok dir := by
      rw [locate_join_toPath wf here (by simp [given]), Path.parts, given]
      simp [Path.partsOf, walk, here]
    have directory : fs.isFile (dir.toPath.join p.text) = false := by simp [isFile, located, here]
    rw [directory]
    simp [isFile, locate, given]
  · rw [isFile, isFile, locate_within_eq wf here given]
    rfl

theorem canonical_within_eq (wf : fs.WellFormed) (here : fs.entry? dir = some .directory)
    (file : (fs.within dir).isFile p = true) :
    (fs.within dir).canonical p = fs.canonical (dir.toPath.join p.text) := by
  have given : p.text ≠ "" := by
    intro empty
    simp [isFile, locate, empty] at file
  obtain ⟨l, content, found, -⟩ := isFile_iff.mp file
  rw [canonical_of_locate found, canonical_of_locate (locate_within_eq wf here given ▸ found)]

end FileSystem

/-! ## Setting up a build -/

namespace Config

variable {fs : FileSystem} {c : Config} {path : Path}

/-- The directories and files that are looked up later are given by absolute paths. -/
structure Anchored (c : Config) : Prop where
  baseUrl : ∀ base, c.baseUrl = some base → base.isAbsolute = true
  grammar : ∀ path, c.grammar = some (.path path) → path.isAbsolute = true

theorem anchored_relativeTo {root : Path} (absolute : root.isAbsolute = true) (c : Config) :
    (c.relativeTo root).Anchored where
  baseUrl base given := by
    obtain ⟨written, -, rfl⟩ := Option.map_eq_some_iff.mp given
    exact Path.isAbsolute_join absolute written.text
  grammar path given := by
    obtain ⟨source, -, placed⟩ := Option.map_eq_some_iff.mp given
    cases source with
    | inline value => cases placed
    | path written =>
      cases placed
      exact Path.isAbsolute_join absolute written.text

/-- A configuration file with an absolute path gives absolute paths. -/
theorem anchored_of_loadFile (wf : fs.WellFormed) (absolute : path.isAbsolute = true)
    (loaded : loadFile fs path = .ok c) : c.Anchored := by
  unfold loadFile at loaded
  split at loaded
  · cases loaded
  · next text read =>
    split at loaded
    · cases loaded
    · next written _ =>
      obtain ⟨name, named, -⟩ := FileSystem.exists_fileName wf (FileSystem.isFile_of_read read)
      obtain ⟨root, above⟩ := Path.exists_parent named
      rw [above, Option.getD_some] at loaded
      cases loaded
      exact anchored_relativeTo (Path.isAbsolute_of_parent? absolute above) written

theorem loadFile_within (absolute : path.isAbsolute = true) (dir : Location) :
    loadFile (fs.within dir) path = loadFile fs path := by
  rw [loadFile, loadFile, FileSystem.read_within absolute]

theorem loadGrammar_within (absolute : path.isAbsolute = true) (dir : Location) :
    loadGrammar (fs.within dir) path = loadGrammar fs path := by
  rw [loadGrammar, loadGrammar, FileSystem.read_within absolute]

theorem selectGrammar_within (anchored : c.Anchored) {given : Option Path}
    (absolute : given.all Path.isAbsolute = true) (dir : Location) :
    c.selectGrammar (fs.within dir) given = c.selectGrammar fs given := by
  unfold selectGrammar
  split
  · exact loadGrammar_within absolute dir
  · next path source => exact loadGrammar_within (anchored.grammar path source) dir
  · rfl
  · rfl

end Config

namespace Command

variable {fs : FileSystem} {a : Arguments} {path : Path}

/-- The plan of a build in two steps: the configuration, and what is taken from it. -/
theorem plan_eq (fs : FileSystem) (config : a.config = some path) :
    plan fs a = (Config.loadFile fs path).bind fun c => (c.selectGrammar fs a.grammar).bind fun g =>
      match a.entry.or c.entry with
      | none => .error .noEntry
      | some entry =>
        .ok ⟨⟨g, c.baseUrl, c.aliases⟩, entry,
          (a.outDir.or c.outDir).getD Config.defaultOutDir⟩ := by
  rw [plan, config]
  rfl

/-- A build whose configuration and grammar are given by absolute paths is set up in the same way
from every directory. -/
theorem plan_within (wf : fs.WellFormed) (config : a.config = some path)
    (absolute : path.isAbsolute = true) (grammar : a.grammar.all Path.isAbsolute = true)
    (dir : Location) : plan (fs.within dir) a = plan fs a := by
  rw [plan_eq _ config, plan_eq _ config, Config.loadFile_within absolute]
  cases loaded : Config.loadFile fs path with
  | error e => rfl
  | ok c =>
    have anchored := Config.anchored_of_loadFile wf absolute loaded
    simp only [Except.bind, Config.selectGrammar_within anchored grammar]

theorem isAbsolute_baseUrl {p : Plan} {base : Path} (wf : fs.WellFormed)
    (config : a.config = some path) (absolute : path.isAbsolute = true)
    (planned : plan fs a = .ok p) (given : p.project.baseUrl = some base) :
    base.isAbsolute = true := by
  rw [plan_eq _ config] at planned
  cases loaded : Config.loadFile fs path with
  | error e => simp [loaded, Except.bind] at planned
  | ok c =>
    cases selected : c.selectGrammar fs a.grammar with
    | error e => simp [loaded, selected, Except.bind] at planned
    | ok g =>
      simp only [loaded, selected, Except.bind] at planned
      split at planned
      · cases planned
      · cases planned
        exact (Config.anchored_of_loadFile wf absolute loaded).baseUrl base given

end Command

/-! ## Resolving imports -/

namespace Resolution

variable {fs : FileSystem} {target path : Path} {dir : Location}

theorem isAbsolute_of_mem_candidates (absolute : target.isAbsolute = true)
    (tried : path ∈ candidates fs target) : path.isAbsolute = true := by
  simp only [candidates, List.mem_append, List.mem_cons, List.mem_flatMap, List.not_mem_nil,
    or_false] at tried
  rcases tried with ((rfl | ⟨e, -, rfl | rfl⟩) | index) | rfl
  · exact absolute
  · exact Path.isAbsolute_withExtension absolute e
  · exact Path.isAbsolute_append absolute _
  · split at index
    · obtain ⟨e, -, rfl⟩ := List.mem_map.mp index
      exact Path.isAbsolute_join absolute _
    · cases index
  · exact Path.isAbsolute_append absolute _

theorem candidates_within (absolute : target.isAbsolute = true) (dir : Location) :
    candidates (fs.within dir) target = candidates fs target := by
  rw [candidates, candidates, FileSystem.isDirectory_within absolute]

/-- The resolution with a file told by its canonical path. -/
def located (fs : FileSystem) : Resolution → Resolution
  | .file path => .file (fs.canonical path)
  | r => r

theorem located_of_not_file {r : Resolution} (plain : ∀ path, r ≠ .file path) :
    r.located fs = r := by
  cases r with
  | file path => exact absurd rfl (plain path)
  | _ => rfl

theorem located_ofFile (wf : fs.WellFormed) (file : fs.isFile path = true) :
    (ofFile path).located fs = ofFile (fs.canonical path) := by
  obtain ⟨name, named, same⟩ := FileSystem.exists_fileName wf file
  have kind : isDeclaration (fs.canonical path) = isDeclaration path := by
    rw [isDeclaration, isDeclaration, named, same]
  unfold ofFile
  rw [kind]
  split <;> rfl

/-- The resolution of a list of targets, given what it is when none of them leads to a file. -/
def ofTargets (fs : FileSystem) (targets : List Path) (missing : Resolution) : Resolution :=
  (((targets.flatMap (candidates fs)).find? fs.isFile).map ofFile).getD missing

theorem ofTargets_eq (fs : FileSystem) (targets : List Path) (missing : Resolution) :
    ofTargets fs targets missing =
      ((targets.findSome? (findFile? fs)).map ofFile).getD missing := by
  rw [ofTargets, List.find?_flatMap]
  rfl

/-- The resolution of a list of targets, all joined to a directory. -/
def ofTargetsFrom (fs : FileSystem) (dir : Location) (targets : List Path) (missing : Resolution) :
    Resolution :=
  let tried := targets.flatMap (candidates (fs.within dir))
  (((tried.map fun path => dir.toPath.join path.text).find? fs.isFile).map fun path =>
    ofFile (fs.canonical path)).getD missing

/-- Absolute targets are resolved alike from every directory. -/
theorem located_ofTargets_of_isAbsolute {targets : List Path}
    (absolute : ∀ t ∈ targets, t.isAbsolute = true) {missing : Resolution}
    (plain : ∀ path, missing ≠ .file path) (dir : Location) :
    (ofTargets (fs.within dir) targets missing).located (fs.within dir) =
      (ofTargets fs targets missing).located fs := by
  have sameTried : targets.flatMap (candidates (fs.within dir)) = targets.flatMap (candidates fs) :=
    List.flatMap_congr fun t member => candidates_within (absolute t member) dir
  have triedAbsolute : ∀ path ∈ targets.flatMap (candidates fs), path.isAbsolute = true := by
    intro path tried
    obtain ⟨t, member, tried⟩ := List.mem_flatMap.mp tried
    exact isAbsolute_of_mem_candidates (absolute t member) tried
  have sameFound : (targets.flatMap (candidates fs)).find? (fs.within dir).isFile =
      (targets.flatMap (candidates fs)).find? fs.isFile :=
    List.find?_congr fun path tried => FileSystem.isFile_within (triedAbsolute path tried) dir
  rw [ofTargets, ofTargets, sameTried, sameFound]
  cases found : (targets.flatMap (candidates fs)).find? fs.isFile with
  | none =>
    rw [Option.map_none, Option.getD_none, located_of_not_file plain, located_of_not_file plain]
  | some path =>
    have isAbsolute := triedAbsolute path (List.mem_of_find?_eq_some found)
    rw [Option.map_some, Option.getD_some, ofFile]
    split
    · rfl
    · rw [located, located, FileSystem.canonical_within isAbsolute]

/-- Targets are looked up where they lead when they are joined to the working directory. -/
theorem located_ofTargets_within (wf : fs.WellFormed) (here : fs.entry? dir = some .directory)
    (targets : List Path) {missing : Resolution} (plain : ∀ path, missing ≠ .file path) :
    (ofTargets (fs.within dir) targets missing).located (fs.within dir) =
      ofTargetsFrom fs dir targets missing := by
  have joined : fs.isFile ∘ (fun path => dir.toPath.join path.text) = (fs.within dir).isFile :=
    funext fun path => (FileSystem.isFile_within_eq wf here path).symm
  rw [ofTargetsFrom, List.find?_map, joined, ofTargets]
  cases found : (targets.flatMap (candidates (fs.within dir))).find? (fs.within dir).isFile with
  | none =>
    simp only [Option.map_none, Option.getD_none]
    exact located_of_not_file plain
  | some path =>
    have file : (fs.within dir).isFile path = true := List.find?_some found
    simp only [Option.map_some, Option.getD_some]
    rw [located_ofFile (wf.within dir) file, FileSystem.canonical_within_eq wf here file]

end Resolution

namespace Project

open Resolution

variable {fs : FileSystem} {p : Project} {specifier : String} {importer : Path}

def isSupport (p : Project) (specifier : String) : Bool :=
  Support.isModule p.grammar specifier || (Support.submodule? p.grammar specifier).isSome

/-- The targets that are looked up for a specifier. They do not depend on any file. -/
def targets (p : Project) (specifier : String) (importer : Path) : List Path :=
  if p.isSupport specifier then []
  else if isRelative specifier.toList then (importer.parent?.map (·.join specifier)).toList
  else (p.aliasTargets? specifier).getD (p.baseUrl.map (·.join specifier)).toList

/-- The resolution of a specifier whose targets lead to no file. -/
def missing (p : Project) (specifier : String) : Resolution :=
  if p.isSupport specifier then .support
  else if isRelative specifier.toList || (p.aliasTargets? specifier).isSome then .unresolved
  else .external

theorem missing_ne_file (p : Project) (specifier : String) (path : Path) :
    p.missing specifier ≠ .file path := by
  unfold missing
  split
  · exact fun same => Resolution.noConfusion same
  · split <;> exact fun same => Resolution.noConfusion same

theorem resolve_eq_ofTargets (p : Project) (fs : FileSystem) (specifier : String)
    (importer : Path) :
    p.resolve fs specifier importer =
      ofTargets fs (p.targets specifier importer) (p.missing specifier) := by
  have only (o : Option Path) : (o.map (·.join specifier)).toList.findSome? (findFile? fs) =
      o.bind fun dir => findFile? fs (dir.join specifier) := by
    cases o with
    | none => rfl
    | some dir => simp
  rw [ofTargets_eq, targets, missing, resolve, isSupport]
  split
  · rfl
  · split
    · next relative =>
      rw [only, relative, Bool.true_or, if_pos rfl]
      cases importer.parent?.bind fun dir => findFile? fs (dir.join specifier) <;> rfl
    · next relative =>
      cases matched : p.aliasTargets? specifier with
      | some targets =>
        rw [Option.getD_some, Option.isSome_some, Bool.or_true, if_pos rfl]
        cases found : targets.findSome? (findFile? fs) <;> simp [found]
      | none =>
        rw [Option.getD_none, only, Option.isSome_none, Bool.or_false, if_neg relative]
        cases p.baseUrl.bind fun dir => findFile? fs (dir.join specifier) <;> rfl

/-- An alias is looked up, and no base directory is set for its targets. -/
structure LacksBase (p : Project) (specifier : String) : Prop where
  unset : p.baseUrl = none
  matched : (p.aliasTargets? specifier).isSome = true
  foreign : p.isSupport specifier = false
  unstepped : isRelative specifier.toList = false

/-- The resolution of an alias whose targets are joined to a directory. -/
def aliasedFrom (p : Project) (fs : FileSystem) (dir : Location) (specifier : String) :
    Resolution :=
  ofTargetsFrom fs dir ((p.aliasTargets? specifier).getD []) .unresolved

theorem exists_join_of_mem_aliasTargets {found : List Path} {target : Path}
    (matched : p.aliasTargets? specifier = some found) (member : target ∈ found) :
    ∃ text, target = (p.baseUrl.getD ⟨""⟩).join text := by
  obtain ⟨entry, -, filled⟩ := List.exists_of_findSome?_eq_some matched
  obtain ⟨captured, -, rfl⟩ := Option.map_eq_some_iff.mp filled
  obtain ⟨text, -, rfl⟩ := List.mem_map.mp member
  exact ⟨_, rfl⟩

/-- With a base directory, or where no alias is looked up, all targets are absolute. -/
theorem isAbsolute_of_mem_targets {target : Path}
    (base : ∀ dir, p.baseUrl = some dir → dir.isAbsolute = true)
    (absolute : importer.isAbsolute = true) (based : ¬p.LacksBase specifier)
    (member : target ∈ p.targets specifier importer) : target.isAbsolute = true := by
  unfold targets at member
  split at member
  · cases member
  · next foreign =>
    split at member
    · rw [Option.mem_toList, Option.map_eq_some_iff] at member
      obtain ⟨dir, above, rfl⟩ := member
      exact Path.isAbsolute_join (Path.isAbsolute_of_parent? absolute above) specifier
    · next unstepped =>
      cases matched : p.aliasTargets? specifier with
      | none =>
        rw [matched, Option.getD_none, Option.mem_toList, Option.map_eq_some_iff] at member
        obtain ⟨dir, given, rfl⟩ := member
        exact Path.isAbsolute_join (base dir given) specifier
      | some found =>
        rw [matched, Option.getD_some] at member
        obtain ⟨text, rfl⟩ := exists_join_of_mem_aliasTargets matched member
        cases given : p.baseUrl with
        | none =>
          have lacks : p.LacksBase specifier :=
            ⟨given, by simp [matched], by simpa using foreign, by simpa using unstepped⟩
          exact absurd lacks based
        | some dir => exact Path.isAbsolute_join (base dir given) text

theorem located_resolve_of_based (base : ∀ dir, p.baseUrl = some dir → dir.isAbsolute = true)
    (absolute : importer.isAbsolute = true) (based : ¬p.LacksBase specifier) (dir : Location) :
    (p.resolve (fs.within dir) specifier importer).located (fs.within dir) =
      (p.resolve fs specifier importer).located fs := by
  rw [resolve_eq_ofTargets, resolve_eq_ofTargets]
  exact located_ofTargets_of_isAbsolute
    (fun t member => isAbsolute_of_mem_targets base absolute based member)
    (p.missing_ne_file specifier) dir

/-- Without a base directory the targets of an alias are taken from the working directory. -/
theorem located_resolve_of_lacksBase (wf : fs.WellFormed) {dir : Location}
    (here : fs.entry? dir = some .directory) (lacks : p.LacksBase specifier) :
    (p.resolve (fs.within dir) specifier importer).located (fs.within dir) =
      p.aliasedFrom fs dir specifier := by
  obtain ⟨found, matched⟩ := Option.isSome_iff_exists.mp lacks.matched
  have targets : p.targets specifier importer = found := by
    simp [targets, lacks.foreign, lacks.unstepped, matched]
  have missing : p.missing specifier = .unresolved := by
    simp [missing, lacks.foreign, lacks.unstepped, matched]
  rw [resolve_eq_ofTargets, located_ofTargets_within wf here _ (p.missing_ne_file specifier),
    aliasedFrom, targets, missing, matched, Option.getD_some]

end Project

namespace Command

/-- From every working directory a build with an absolute configuration file is set up in the same
way. It resolves a specifier alike from two of them unless an alias is looked up without a base
directory, and the targets of the alias lead to different files from the one and from the other. -/
theorem resolution_agrees_iff (fs : FileSystem) (wf : fs.WellFormed) (a : Arguments) {path : Path}
    (config : a.config = some path) (absolute : path.isAbsolute = true)
    (grammar : a.grammar.all Path.isAbsolute = true) (dir other : Location)
    (here : fs.entry? dir = some .directory) (there : fs.entry? other = some .directory) :
    plan (fs.within dir) a = plan (fs.within other) a ∧
      ∀ p, plan (fs.within dir) a = .ok p →
        ∀ (specifier : String) (importer : Path), importer.isAbsolute = true →
          ((p.project.resolve (fs.within dir) specifier importer).located (fs.within dir) =
              (p.project.resolve (fs.within other) specifier importer).located (fs.within other) ↔
            (p.project.LacksBase specifier →
              p.project.aliasedFrom fs dir specifier = p.project.aliasedFrom fs other specifier)) ∧
          (p.project.LacksBase specifier →
            (p.project.resolve (fs.within dir) specifier importer).located (fs.within dir) =
              p.project.aliasedFrom fs dir specifier) := by
  have same (wd : Location) : plan (fs.within wd) a = plan fs a :=
    plan_within wf config absolute grammar wd
  refine ⟨(same dir).trans (same other).symm, fun p planned specifier importer rooted => ?_⟩
  rw [same dir] at planned
  have base (b : Path) (given : p.project.baseUrl = some b) : b.isAbsolute = true :=
    isAbsolute_baseUrl wf config absolute planned given
  refine ⟨?_, fun lacks => Project.located_resolve_of_lacksBase wf here lacks⟩
  by_cases lacks : p.project.LacksBase specifier
  · rw [Project.located_resolve_of_lacksBase wf here lacks,
      Project.located_resolve_of_lacksBase wf there lacks]
    exact ⟨fun agree _ => agree, fun agree => agree lacks⟩
  · rw [Project.located_resolve_of_based base rooted lacks,
      Project.located_resolve_of_based base rooted lacks]
    exact ⟨fun _ contra => absurd contra lacks, fun _ => rfl⟩

/-- With a base directory the alias finds the same file from both directories. -/
theorem resolution_agrees_with_base :
    let fs : FileSystem :=
      ⟨[(["p"], .directory), (["q"], .directory), (["p", "lib"], .directory),
        (["p", "apyconfig.json"], .file (.text
          ("\x7b\"entry\":\"main.ts\",\"baseUrl\":\".\"," ++
            "\"paths\":\x7b\"@lib/*\":[\"lib/*\"]\x7d\x7d"))),
        (["p", "main.ts"], .file (.text "import \"@lib/a\";")),
        (["p", "lib", "a.ts"], .file (.text ""))], []⟩
    let a : Arguments := { config := some ⟨"/p/apyconfig.json"⟩ }
    let main : Path := ⟨"/p/main.ts"⟩
    ∃ p, plan (fs.within ["p"]) a = .ok p ∧ plan (fs.within ["q"]) a = .ok p ∧
      (p.project.resolve (fs.within ["p"]) "@lib/a" main).located (fs.within ["p"]) =
        (p.project.resolve (fs.within ["q"]) "@lib/a" main).located (fs.within ["q"]) := by
  intro fs a main
  have base :
      (plan (fs.within ["p"]) a).toOption.map (·.project.baseUrl) = some (some ⟨"/p/."⟩) := by
    decide +kernel
  have wf : fs.WellFormed := by decide +kernel
  have agrees := resolution_agrees_iff fs wf a rfl (by decide +kernel) rfl ["p"] ["q"] (by decide)
    (by decide)
  cases planned : plan (fs.within ["p"]) a with
  | error e =>
    rw [planned] at base
    cases base
  | ok p =>
    rw [planned] at base
    have set : p.project.baseUrl = some ⟨"/p/."⟩ := Option.some.inj base
    refine ⟨p, rfl, agrees.1 ▸ planned, ?_⟩
    refine ((agrees.2 p planned "@lib/a" main (by decide +kernel)).1).mpr fun lacks => ?_
    rw [lacks.unset] at set
    cases set

/-- An alias without a base directory finds its file from the directory of the configuration, and
does not find it from another one. -/
theorem alias_lost_elsewhere :
    let fs : FileSystem :=
      ⟨[(["p"], .directory), (["q"], .directory), (["p", "lib"], .directory),
        (["p", "apyconfig.json"], .file (.text
          "\x7b\"entry\":\"main.ts\",\"paths\":\x7b\"@lib/*\":[\"lib/*\"]\x7d\x7d")),
        (["p", "main.ts"], .file (.text "import \"@lib/a\";")),
        (["p", "lib", "a.ts"], .file (.text ""))], []⟩
    let a : Arguments := { config := some ⟨"/p/apyconfig.json"⟩ }
    let resolved (dir : Location) : Option Resolution :=
      (plan (fs.within dir) a).toOption.map fun p =>
        (p.project.resolve (fs.within dir) "@lib/a" ⟨"/p/main.ts"⟩).located (fs.within dir)
    resolved ["p"] = some (.file ⟨"/p/lib/a.ts"⟩) ∧ resolved ["q"] = some .unresolved := by
  decide +kernel

end Command

end Dialect
