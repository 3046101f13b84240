import Dialect.Proofs.ModulePaths

/-!
# Looking up files

A module path that is no file is tried with each extension in turn, once in the place of what
follows the last point of its name and once behind it. Main statement: which file is found under a
text that leaves out a part of the module path, and when.
-/

namespace Dialect

/-! ## Extensions -/

namespace Path

/-- What an extension is put behind: the path up to the last point of its name. Slashes and single
points at the end do not count. -/
def base? (p : Path) : Option (List Char) :=
  p.fileNameChars?.map fun name => (splitLast p.text.toList).1 ++ stemChars name

def extended (base : List Char) (extension : String) : Path :=
  ⟨String.ofList (base ++ '.' :: extension.toList)⟩

theorem withExtension_of_base {p : Path} {base : List Char} (found : p.base? = some base)
    (extension : String) : p.withExtension extension = extended base extension := by
  obtain ⟨name, named, rfl⟩ := Option.map_eq_some_iff.mp found
  rw [withExtension, named]
  rfl

theorem withExtension_of_no_base {p : Path} (none : p.base? = none) (extension : String) :
    p.withExtension extension = p := by
  rw [withExtension, Option.map_eq_none_iff.mp none]

theorem append_eq_extended (p : Path) (extension : String) :
    p.append ("." ++ extension) = extended p.text.toList extension := by
  rw [append, extended, mk.injEq, ← String.toList_inj]
  simp

theorem dropTrail_suffix (cs : List Char) : dropTrail cs <:+ cs := by
  induction cs using dropTrail.induct with
  | case1 cs ih =>
    rw [dropTrail]
    exact ih.trans (List.suffix_cons '/' cs)
  | case2 cs ih =>
    rw [dropTrail]
    exact ih.trans (List.suffix_append ['.', '/'] cs)
  | case3 cs noSlash noPoint =>
    have same : dropTrail cs = cs := by
      rw [dropTrail]
      · exact noSlash
      · exact noPoint
    exact ⟨[], by rw [List.nil_append, same]⟩

theorem stemChars_front (name : List Char) : stemChars name <+: name := by
  unfold stemChars
  dsimp only
  split
  · next c cs rest =>
    have behind : c :: cs <:+ name.reverse :=
      (List.suffix_cons _ (c :: cs)).trans (rest ▸ List.dropWhile_suffix _)
    have front := List.reverse_prefix.mpr behind
    rwa [List.reverse_reverse] at front
  · exact List.prefix_refl name

theorem splitLast_front (cs : List Char) : (splitLast cs).1 ++ (splitLast cs).2 <+: cs := by
  have whole : (splitLast cs).1 ++ (splitLast cs).2 = (dropTrail cs.reverse).reverse := by
    rw [splitLast, ← List.reverse_append, List.takeWhile_append_dropWhile]
  have front := List.reverse_prefix.mpr (dropTrail_suffix cs.reverse)
  rwa [List.reverse_reverse, ← whole] at front

theorem prefix_of_base {p : Path} {base : List Char} (found : p.base? = some base) :
    base <+: p.text.toList := by
  obtain ⟨name, named, rfl⟩ := Option.map_eq_some_iff.mp found
  have last : (splitLast p.text.toList).2 = name := by
    unfold fileNameChars? at named
    dsimp only at named
    split at named
    · cases named
    · exact Option.some.inj named
  have front := splitLast_front p.text.toList
  rw [last] at front
  exact ((List.prefix_append_right_inj _).mpr (stemChars_front name)).trans front

theorem exists_text_join (p : Path) (rest : String) (relative : rest.toList.head? ≠ some '/') :
    ∃ slash, (p.join rest).text.toList = p.text.toList ++ (slash ++ rest.toList) := by
  rw [join, String.toList_ofList]
  by_cases given : p.text.toList = []
  · exact ⟨[], by simp [joinChars, given]⟩
  · obtain ⟨before, joined, rfl | slash⟩ := joinChars_eq relative given
    · exact ⟨['/'], joined⟩
    · exact ⟨[], by rw [joined, slash]; simp⟩

end Path

namespace Resolution

/-! ## Files that keep the name -/

/-- The file is the target itself, the target with a source extension or the extension of
declarations behind its text, or the index of the target. -/
def KeepsName (fs : FileSystem) (target f : Path) : Prop :=
  f = target ∨ (∃ e ∈ sourceExtensions, f = target.append ("." ++ e)) ∨
    (fs.isDirectory target = true ∧ ∃ e ∈ sourceExtensions, f = target.join ("index." ++ e)) ∨
    f = target.append ".d.ts"

instance (fs : FileSystem) (target f : Path) : Decidable (KeepsName fs target f) :=
  inferInstanceAs (Decidable (_ ∨ _))

variable {fs : FileSystem} {target f : Path}

theorem KeepsName.exists_text (keeps : KeepsName fs target f) :
    f = target ∨ ∃ more rest, f.text.toList = target.text.toList ++ (more ++ '.' :: rest) := by
  rcases keeps with rfl | ⟨e, -, rfl⟩ | ⟨-, e, -, rfl⟩ | rfl
  · exact .inl rfl
  · exact .inr ⟨[], e.toList, by simp [Path.append]⟩
  · obtain ⟨slash, joined⟩ := target.exists_text_join ("index." ++ e) (by simp)
    exact .inr ⟨slash ++ "index".toList, e.toList, by rw [joined]; simp⟩
  · exact .inr ⟨[], "d.ts".toList, by simp [Path.append]⟩

/-- An extension in the place of the end of a text does not keep the name, unless the end was that
extension. -/
theorem not_keepsName_extended {base : List Char} {e : String} (front : base <+: target.text.toList)
    (shorter : base ≠ target.text.toList) (source : e ∈ sourceExtensions)
    (foreign : ¬('.' :: e.toList) <:+ target.text.toList) :
    ¬KeepsName fs target (Path.extended base e) := by
  obtain ⟨noPoint, -⟩ := plain_sourceExtensions e source
  obtain ⟨ending, text⟩ := front
  intro keeps
  rcases keeps.exists_text with same | ⟨more, rest, longer⟩
  · have spelled := congrArg (fun p => p.text.toList) same
    simp only [Path.extended, String.toList_ofList] at spelled
    exact foreign (spelled ▸ List.suffix_append base _)
  · rw [Path.extended, String.toList_ofList, ← text, List.append_assoc,
      List.append_cancel_left_eq] at longer
    -- behind the base stand a point and `e`, and again a point that is not the first character
    cases ending with
    | nil => exact shorter (by rw [← text, List.append_nil])
    | cons c ending =>
      obtain ⟨-, tail⟩ := List.cons.inj longer
      apply noPoint
      rw [tail]
      simp

/-! ## The search -/

theorem findFile?_of_not_isFile (absent : fs.isFile target = false) :
    findFile? fs target =
      (sourceExtensions.findSome? fun e =>
        [target.withExtension e, target.append ("." ++ e)].find? fs.isFile).or
        (((if fs.isDirectory target then
            sourceExtensions.map fun e => target.join ("index." ++ e)
          else []) ++ [target.append ".d.ts"]).find? fs.isFile) := by
  rw [findFile?, candidates, List.append_assoc, List.cons_append, List.find?_cons, absent,
    List.find?_append, List.find?_flatMap]

theorem keepsName_of_find?
    (found : ((if fs.isDirectory target then
        sourceExtensions.map fun e => target.join ("index." ++ e)
      else []) ++ [target.append ".d.ts"]).find? fs.isFile = some f) : KeepsName fs target f := by
  rcases List.mem_append.mp (List.mem_of_find?_eq_some found) with index | declaration
  · split at index
    · next directory =>
      obtain ⟨e, source, rfl⟩ := List.mem_map.mp index
      exact .inr (.inr (.inl ⟨directory, e, source, rfl⟩))
    · cases index
  · exact .inr (.inr (.inr (List.mem_singleton.mp declaration)))

theorem find?_pair_eq_some_iff {p q : Path} :
    [p, q].find? fs.isFile = some f ↔
      fs.isFile f = true ∧ (f = p ∨ f = q ∧ fs.isFile p = false) := by
  rw [List.find?_cons, List.find?_cons, List.find?_nil]
  cases first : fs.isFile p <;> cases second : fs.isFile q <;> grind

/-- A module path that ends in no source extension is looked up under a text that leaves out a part
of it exactly when it is no file, something stands behind the last point of its name or behind its
name, and before any extension finds a file behind the whole path, one finds it in that place. -/
theorem lookup_loses_name_iff (fs : FileSystem) (target f : Path)
    (foreign : ∀ e ∈ sourceExtensions, ¬('.' :: e.toList) <:+ target.text.toList) :
    (findFile? fs target = some f ∧ ¬KeepsName fs target f) ↔
      fs.isFile target = false ∧ ∃ base, target.base? = some base ∧ base ≠ target.text.toList ∧
        ∃ earlier e later, sourceExtensions = earlier ++ e :: later ∧
          f = Path.extended base e ∧ fs.isFile f = true ∧
          ∀ tried ∈ earlier, fs.isFile (Path.extended base tried) = false ∧
            fs.isFile (Path.extended target.text.toList tried) = false := by
  constructor
  · rintro ⟨found, loses⟩
    cases present : fs.isFile target with
    | true =>
      rw [findFile?, candidates, List.cons_append, List.cons_append, List.find?_cons, present] at found
      exact absurd (.inl (Option.some.inj found).symm) loses
    | false =>
      rw [findFile?_of_not_isFile present, Option.or_eq_some_iff] at found
      rcases found with found | ⟨-, found⟩
      · obtain ⟨earlier, e, later, split, here, before⟩ := List.findSome?_eq_some_iff.mp found
        have source : e ∈ sourceExtensions := by simp [split]
        obtain ⟨file, rfl | ⟨rfl, -⟩⟩ := find?_pair_eq_some_iff.mp here
        · cases based : target.base? with
          | none =>
            rw [Path.withExtension_of_no_base based, present] at file
            cases file
          | some base =>
            rw [Path.withExtension_of_base based] at file loses ⊢
            refine ⟨rfl, base, rfl, ?_, earlier, e, later, split, rfl, file, ?_⟩
            · rintro rfl
              rw [← Path.append_eq_extended] at loses
              exact loses (.inr (.inl ⟨e, source, rfl⟩))
            · intro tried member
              have none := List.find?_eq_none.mp (before tried member)
              rw [Path.withExtension_of_base based, Path.append_eq_extended] at none
              simpa using none
        · exact absurd (.inr (.inl ⟨e, source, rfl⟩)) loses
      · exact absurd (keepsName_of_find? found) loses
  · rintro ⟨absent, base, based, shorter, earlier, e, later, split, rfl, file, before⟩
    have source : e ∈ sourceExtensions := by simp [split]
    constructor
    · rw [findFile?_of_not_isFile absent, Option.or_eq_some_iff]
      refine .inl (List.findSome?_eq_some_iff.mpr ⟨earlier, e, later, split, ?_, ?_⟩)
      · exact find?_pair_eq_some_iff.mpr ⟨file, .inl (Path.withExtension_of_base based e).symm⟩
      · intro tried member
        rw [Path.withExtension_of_base based, Path.append_eq_extended, List.find?_eq_none]
        simpa using before tried member
    · exact not_keepsName_extended (Path.prefix_of_base based) shorter source (foreign e source)

/-- The directory itself is looked up as a file beside it, before its index. -/
theorem lookup_loses_name_directory :
    let fs : FileSystem :=
      ⟨[(["src.ts"], .file (.text "")), (["src"], .directory), (["src", "index.ts"], .file (.text ""))],
        []⟩
    let target : Path := ⟨"src/."⟩
    (∀ e ∈ sourceExtensions, ¬('.' :: e.toList) <:+ target.text.toList) ∧
      fs.isFile ⟨"src/./index.ts"⟩ = true ∧ findFile? fs target = some ⟨"src.ts"⟩ ∧
      ¬KeepsName fs target ⟨"src.ts"⟩ := by
  intro fs target
  have foreign : ∀ e ∈ sourceExtensions, ¬('.' :: e.toList) <:+ target.text.toList := by decide
  have lost := (lookup_loses_name_iff fs target ⟨"src.ts"⟩ foreign).mpr
    ⟨by decide +kernel, "src".toList, by decide +kernel, by decide, [], "ts", _, rfl, by decide,
      by decide +kernel, List.forall_mem_nil _⟩
  exact ⟨foreign, by decide +kernel, lost⟩

/-- A name with a point in it is looked up without what follows the point, though the file of that
name exists. -/
theorem dotted_name_found_under_stem :
    let fs : FileSystem :=
      ⟨[(["main.ts"], .file (.text "")), (["foo.ts"], .file (.text "")),
        (["foo.service.ts"], .file (.text ""))], []⟩
    let target : Path := ⟨"./foo.service"⟩
    (∀ e ∈ sourceExtensions, ¬('.' :: e.toList) <:+ target.text.toList) ∧
      fs.isFile (target.append ".ts") = true ∧ findFile? fs target = some ⟨"./foo.ts"⟩ ∧
      ¬KeepsName fs target ⟨"./foo.ts"⟩ ∧
      Project.resolve {} fs "./foo.service" ⟨"main.ts"⟩ = .file ⟨"./foo.ts"⟩ := by
  decide +kernel

end Resolution

end Dialect
