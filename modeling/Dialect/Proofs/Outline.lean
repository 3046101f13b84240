import Mathlib.Data.List.Basic

/-!
# Outlines

An outline is a line with the outlines that stand below it as its block. From the top, every line has
the depth at which it stands. Main statements: the depths alone give back the outlines, and the nearest
line before a line that is less deep is the one whose block it stands in.
-/

namespace Dialect

inductive Outline (α : Type) where
  | mk (item : α) (body : List (Outline α))
  deriving Repr

namespace Outline

variable {α β : Type}

mutual

/-- The lines from the top, each with its depth. -/
def levels (depth : Nat) : Outline α → List (Nat × α)
  | .mk item body => (depth, item) :: levelsOf (depth + 1) body

def levelsOf (depth : Nat) : List (Outline α) → List (Nat × α)
  | [] => []
  | t :: ts => t.levels depth ++ levelsOf depth ts

end

mutual

def map (f : α → β) : Outline α → Outline β
  | .mk item body => .mk (f item) (mapAll f body)

def mapAll (f : α → β) : List (Outline α) → List (Outline β)
  | [] => []
  | t :: ts => t.map f :: mapAll f ts

end

mutual

theorem levels_map (f : α → β) (depth : Nat) (t : Outline α) :
    (t.map f).levels depth = (t.levels depth).map (Prod.map id f) := by
  match t with
  | .mk item body =>
    rw [map, levels, levels, List.map_cons, levelsOf_mapAll f (depth + 1) body]
    rfl

theorem levelsOf_mapAll (f : α → β) (depth : Nat) (ts : List (Outline α)) :
    levelsOf depth (mapAll f ts) = (levelsOf depth ts).map (Prod.map id f) := by
  match ts with
  | [] => rfl
  | t :: ts =>
    rw [mapAll, levelsOf, levelsOf, List.map_append, levels_map f depth t,
      levelsOf_mapAll f depth ts]

end

@[simp]
theorem levelsOf_append (depth : Nat) (ts us : List (Outline α)) :
    levelsOf depth (ts ++ us) = levelsOf depth ts ++ levelsOf depth us := by
  induction ts with
  | nil => rfl
  | cons t ts ih => rw [List.cons_append, levelsOf, ih, levelsOf, List.append_assoc]

mutual

theorem le_of_mem_levels {depth : Nat} {t : Outline α} :
    ∀ l ∈ t.levels depth, depth ≤ l.1 := by
  match t with
  | .mk item body =>
    rw [levels, List.forall_mem_cons]
    refine ⟨Nat.le_refl depth, fun l member => ?_⟩
    have deeper := le_of_mem_levelsOf l member
    omega

theorem le_of_mem_levelsOf {depth : Nat} {ts : List (Outline α)} :
    ∀ l ∈ levelsOf depth ts, depth ≤ l.1 := by
  match ts with
  | [] => exact nofun
  | t :: ts =>
    rw [levelsOf, List.forall_mem_append]
    exact ⟨le_of_mem_levels, le_of_mem_levelsOf⟩

end

/-! ## Reading depths -/

/-- Every line takes the deeper lines that follow as its block. A block stands exactly one level below
its line. -/
def nest? (depth : Nat) : List (Nat × α) → Option (List (Outline α))
  | [] => some []
  | (level, item) :: rest =>
    if level = depth then do
      let body ← nest? (depth + 1) (rest.takeWhile (depth < ·.1))
      let others ← nest? depth (rest.dropWhile (depth < ·.1))
      return .mk item body :: others
    else none
termination_by ls => ls.length
decreasing_by
  · exact Nat.lt_succ_of_le (List.takeWhile_sublist _).length_le
  · exact Nat.lt_succ_of_le (List.dropWhile_sublist _).length_le

theorem takeWhile_levelsOf (depth : Nat) (ts : List (Outline α)) :
    (levelsOf depth ts).takeWhile (depth < ·.1) = [] := by
  cases ts with
  | nil => rfl
  | cons t ts =>
    cases t with
    | mk item body => simp [levelsOf, levels]

theorem dropWhile_levelsOf (depth : Nat) (ts : List (Outline α)) :
    (levelsOf depth ts).dropWhile (depth < ·.1) = levelsOf depth ts := by
  cases ts with
  | nil => rfl
  | cons t ts =>
    cases t with
    | mk item body => simp [levelsOf, levels]

/-- The depths of the lines give back the outlines. -/
theorem nest?_levelsOf (depth : Nat) (ts : List (Outline α)) :
    nest? depth (levelsOf depth ts) = some ts := by
  match ts with
  | [] => rw [levelsOf, nest?]
  | .mk item body :: ts =>
    -- the block is what lies deeper: all of `body`, and nothing of `ts`, which starts at `depth`
    have deeper : ∀ l ∈ levelsOf (depth + 1) body, decide (depth < l.1) = true :=
      fun l member => decide_eq_true (le_of_mem_levelsOf l member)
    have inside := nest?_levelsOf (depth + 1) body
    have behind := nest?_levelsOf depth ts
    rw [levelsOf, levels, List.cons_append, nest?, if_pos rfl,
      List.takeWhile_append_of_pos deeper, takeWhile_levelsOf, List.append_nil,
      List.dropWhile_append_of_pos deeper, dropWhile_levelsOf, inside, behind]
    rfl

/-! ## The line a block belongs to -/

mutual

def size : Outline α → Nat
  | .mk _ body => sizeOfAll body + 1

def sizeOfAll : List (Outline α) → Nat
  | [] => 0
  | t :: ts => t.size + sizeOfAll ts

end

mutual

/-- For every line of an outline that stands at a position of a text, the position of the line whose
block it stands in. -/
def owners (owner : Option Nat) (position : Nat) : Outline α → List (Option Nat)
  | .mk _ body => owner :: ownersOf (some position) (position + 1) body

def ownersOf (owner : Option Nat) (position : Nat) : List (Outline α) → List (Option Nat)
  | [] => []
  | t :: ts => t.owners owner position ++ ownersOf owner (position + t.size) ts

end

/-- For every line, the position of the nearest line before it that is less deep. The lines before all
of them are given by position and depth, the last one first. -/
def shallower : List (Nat × Nat) → List (Nat × α) → List (Option Nat)
  | _, [] => []
  | seen, (depth, _) :: rest =>
    (seen.find? (·.2 < depth)).map (·.1) :: shallower ((seen.length, depth) :: seen) rest

/-- The lines seen after some more. -/
def seenAfter : List (Nat × Nat) → List (Nat × α) → List (Nat × Nat)
  | seen, [] => seen
  | seen, (depth, _) :: rest => seenAfter ((seen.length, depth) :: seen) rest

theorem shallower_append (seen : List (Nat × Nat)) (ls ms : List (Nat × α)) :
    shallower seen (ls ++ ms) = shallower seen ls ++ shallower (seenAfter seen ls) ms := by
  induction ls generalizing seen with
  | nil => rfl
  | cons l ls ih => rw [List.cons_append, shallower, ih, shallower, seenAfter, List.cons_append]

theorem length_seenAfter (seen : List (Nat × Nat)) (ls : List (Nat × α)) :
    (seenAfter seen ls).length = seen.length + ls.length := by
  induction ls generalizing seen with
  | nil => rfl
  | cons l ls ih =>
    rw [seenAfter, ih, List.length_cons, List.length_cons]
    omega

/-- Lines that are not less deep are passed over. -/
theorem find?_seenAfter {depth : Nat} {ls : List (Nat × α)} (deep : ∀ l ∈ ls, depth ≤ l.1)
    (seen : List (Nat × Nat)) :
    (seenAfter seen ls).find? (·.2 < depth) = seen.find? (·.2 < depth) := by
  induction ls generalizing seen with
  | nil => rfl
  | cons l ls ih =>
    rw [List.forall_mem_cons] at deep
    rw [seenAfter, ih deep.2, List.find?_cons_of_neg (by simpa using deep.1)]

mutual

theorem length_levels (depth : Nat) (t : Outline α) : (t.levels depth).length = t.size := by
  match t with
  | .mk item body => rw [levels, List.length_cons, length_levelsOf (depth + 1) body, size]

theorem length_levelsOf (depth : Nat) (ts : List (Outline α)) :
    (levelsOf depth ts).length = sizeOfAll ts := by
  match ts with
  | [] => rfl
  | t :: ts =>
    rw [levelsOf, List.length_append, length_levels depth t, length_levelsOf depth ts, sizeOfAll]

end

mutual

theorem shallower_levels {depth : Nat} {seen : List (Nat × Nat)} {owner : Option Nat}
    (above : (seen.find? (·.2 < depth)).map (·.1) = owner) (t : Outline α) :
    shallower seen (t.levels depth) = t.owners owner seen.length := by
  match t with
  | .mk item body =>
    have header : (((seen.length, depth) :: seen).find? (·.2 < depth + 1)).map (·.1) =
        some seen.length := by
      rw [List.find?_cons_of_pos (by simp)]
      rfl
    rw [levels, shallower, above, shallower_levelsOf header body, owners, List.length_cons]

/-- The nearest line before a line that is less deep is the one whose block it stands in. -/
theorem shallower_levelsOf {depth : Nat} {seen : List (Nat × Nat)} {owner : Option Nat}
    (above : (seen.find? (·.2 < depth)).map (·.1) = owner) (ts : List (Outline α)) :
    shallower seen (levelsOf depth ts) = ownersOf owner seen.length ts := by
  match ts with
  | [] => rfl
  | t :: ts =>
    have after : ((seenAfter seen (t.levels depth)).find? (·.2 < depth)).map (·.1) = owner := by
      rw [find?_seenAfter le_of_mem_levels, above]
    rw [levelsOf, shallower_append, shallower_levels above t, shallower_levelsOf after ts,
      length_seenAfter, length_levels, ownersOf]

end

end Outline

end Dialect
