import Dialect.Resolution
import Dialect.Span
import Mathlib.Data.List.Forall2

/-!
# Matching aliases

A pattern is matched against a specifier by what stands before and behind its first wildcard. Main
statement: a pattern captures exactly the text that gives the specifier when it is put in the place
of that wildcard. A target spelled like its pattern therefore leads to the specifier itself below
the base directory.
-/

namespace Dialect

namespace Resolution

/-! ## The first wildcard -/

/-- The pattern has its first wildcard between the two texts. Later ones stand for themselves. -/
structure Divides (before ending pattern : List Char) : Prop where
  split : pattern = before ++ '*' :: ending
  first : '*' ∉ before

variable {pattern before ending specifier captured : List Char}

theorem exists_divides (wild : '*' ∈ pattern) : ∃ before ending, Divides before ending pattern := by
  obtain ⟨before, ending, split, first⟩ := List.eq_append_cons_of_mem wild
  exact ⟨before, ending, split, first⟩

namespace Divides

theorem takeWhile_eq (d : Divides before ending pattern) :
    pattern.takeWhile (· ≠ '*') = before := by
  rw [d.split, Text.takeWhile_ne_append d.first]

theorem dropWhile_eq (d : Divides before ending pattern) :
    pattern.dropWhile (· ≠ '*') = '*' :: ending := by
  rw [d.split, Text.dropWhile_ne_append d.first]

theorem fillWildcard_eq (d : Divides before ending pattern) (captured : List Char) :
    fillWildcard captured pattern = before ++ captured ++ ending := by
  rw [fillWildcard, d.dropWhile_eq, d.takeWhile_eq]

theorem matchAlias?_eq_some_iff (d : Divides before ending pattern) :
    matchAlias? pattern specifier = some captured ↔ specifier = before ++ captured ++ ending := by
  rw [matchAlias?, d.dropWhile_eq, d.takeWhile_eq]
  simp only [Option.bind_eq_some_iff, Text.stripStart?_eq_some_iff, Text.stripEnd?_eq_some_iff,
    exists_eq_right, List.append_assoc]

/-- The ending is looked for behind the beginning, so a specifier has to have room for both. -/
theorem matchAlias?_eq_none_of_shorter (d : Divides before ending pattern)
    (shorter : specifier.length < before.length + ending.length ∨
      Text.byteLength specifier < Text.byteLength before + Text.byteLength ending) :
    matchAlias? pattern specifier = none := by
  cases matched : matchAlias? pattern specifier with
  | none => rfl
  | some captured =>
    rw [d.matchAlias?_eq_some_iff.mp matched] at shorter
    simp only [List.length_append, Text.byteLength_append] at shorter
    omega

end Divides

/-- With or without a wildcard, a pattern that is filled with what it captures is the specifier. -/
theorem fillWildcard_of_matchAlias? (matched : matchAlias? pattern specifier = some captured) :
    fillWildcard captured pattern = specifier := by
  by_cases wild : '*' ∈ pattern
  · obtain ⟨before, ending, d⟩ := exists_divides wild
    rw [d.fillWildcard_eq, d.matchAlias?_eq_some_iff.mp matched]
  · have plain : pattern.dropWhile (· ≠ '*') = [] := Text.dropWhile_ne_eq_nil wild
    rw [matchAlias?, plain] at matched
    rw [fillWildcard, plain]
    dsimp only at matched ⊢
    split at matched
    · assumption
    · cases matched

end Resolution

/-! ## The targets of an alias -/

namespace Project

open Resolution

variable {p : Project} {pattern specifier : String} {captured : List Char}
  {earlier later : List (String × List String)} {targets : List String}

/-- The first alias that matches gives the candidates, one for each of its targets. -/
theorem aliasTargets?_of_first (listed : p.aliases = earlier ++ (pattern, targets) :: later)
    (passed : ∀ a ∈ earlier, matchAlias? a.1.toList specifier.toList = none)
    (matched : matchAlias? pattern.toList specifier.toList = some captured) :
    p.aliasTargets? specifier = some (targets.map fun target =>
      (p.baseUrl.getD ⟨""⟩).join (String.ofList (fillWildcard captured target.toList))) := by
  refine List.findSome?_eq_some_iff.mpr ⟨earlier, (pattern, targets), later, listed, ?_, ?_⟩
  · exact Option.map_eq_some_iff.mpr ⟨captured, matched, rfl⟩
  · exact fun a member => Option.map_eq_none_iff.mpr (passed a member)

/-- A pattern with a wildcard captures a text exactly if the specifier is the pattern with its first
wildcard replaced by that text. The beginning and the ending of the pattern never overlap in the
specifier. A target spelled like the pattern gives the specifier, joined to the base directory. -/
theorem alias_captures_iff_filled (p : Project) (pattern specifier : String)
    (wild : '*' ∈ pattern.toList) :
    (∀ captured, matchAlias? pattern.toList specifier.toList = some captured ↔
      fillWildcard captured pattern.toList = specifier.toList) ∧
    (∃ before ending, Divides before ending pattern.toList ∧
      (∀ captured, fillWildcard captured pattern.toList = before ++ captured ++ ending) ∧
      (specifier.toList.length < before.length + ending.length ∨
          Text.byteLength specifier.toList < Text.byteLength before + Text.byteLength ending →
        matchAlias? pattern.toList specifier.toList = none)) ∧
    ∀ earlier targets later, p.aliases = earlier ++ (pattern, targets) :: later →
      (∀ a ∈ earlier, matchAlias? a.1.toList specifier.toList = none) →
      (matchAlias? pattern.toList specifier.toList).isSome = true →
      ∃ found, p.aliasTargets? specifier = some found ∧
        List.Forall₂ (fun target candidate =>
          target = pattern → candidate = (p.baseUrl.getD ⟨""⟩).join specifier) targets found := by
  obtain ⟨before, ending, d⟩ := exists_divides wild
  refine ⟨fun captured => ?_,
    ⟨before, ending, d, d.fillWildcard_eq, d.matchAlias?_eq_none_of_shorter⟩, ?_⟩
  · rw [d.matchAlias?_eq_some_iff, d.fillWildcard_eq]
    exact eq_comm
  · intro earlier targets later listed passed isMatched
    obtain ⟨captured, matched⟩ := Option.isSome_iff_exists.mp isMatched
    refine ⟨_, aliasTargets?_of_first listed passed matched, ?_⟩
    rw [List.forall₂_map_right_iff, List.forall₂_same]
    rintro target - rfl
    rw [fillWildcard_of_matchAlias? matched, String.ofList_toList]

/-- The text captured may hold a wildcard itself, and a later wildcard of the pattern is matched by
one only. Where the slash would have to end the beginning and begin the ending, nothing matches. -/
theorem alias_captures_wildcard :
    let p : Project :=
      { baseUrl := some ⟨"/p"⟩
        aliases := [("@lib", ["lib"]), ("@lib/*/*.js", ["src/*", "@lib/*/*.js"])] }
    '*' ∈ "@lib/*/*.js".toList ∧
      matchAlias? "@lib/*/*.js".toList "@lib/a*b/*.js".toList = some "a*b".toList ∧
      matchAlias? "@lib/*/*.js".toList "@lib/*.js".toList = none ∧
      ∃ other, p.aliasTargets? "@lib/a*b/*.js" = some [other, ⟨"/p/@lib/a*b/*.js"⟩] := by
  intro p
  have wild : '*' ∈ "@lib/*/*.js".toList := by decide
  obtain ⟨captures, -, leads⟩ := alias_captures_iff_filled p "@lib/*/*.js" "@lib/a*b/*.js" wild
  obtain ⟨-, ⟨before, ending, d, -, apart⟩, -⟩ :=
    alias_captures_iff_filled p "@lib/*/*.js" "@lib/*.js" wild
  have matched := (captures "a*b".toList).mpr (by decide)
  have length : 11 = (before ++ '*' :: ending).length := congrArg List.length d.split
  rw [List.length_append, List.length_cons] at length
  have room : 9 < before.length + ending.length := by omega
  obtain ⟨found, given, each⟩ :=
    leads [("@lib", ["lib"])] ["src/*", "@lib/*/*.js"] [] rfl
      (List.forall_mem_singleton.mpr (by decide)) (by rw [matched]; rfl)
  refine ⟨wild, matched, apart (.inl room), ?_⟩
  obtain ⟨other, rest, -, tail, rfl⟩ := List.forall₂_cons_left_iff.mp each
  obtain ⟨own, behind, spelled, last, rfl⟩ := List.forall₂_cons_left_iff.mp tail
  obtain rfl := List.forall₂_nil_left_iff.mp last
  have joined : (p.baseUrl.getD ⟨""⟩).join "@lib/a*b/*.js" = ⟨"/p/@lib/a*b/*.js"⟩ := by decide
  exact ⟨other, by rw [given, spelled rfl, joined]⟩

end Project

end Dialect
