import TagStamp.Text.Basic

namespace TagStamp.Diff

/-- One record of an edit script, with its line and the line's index on each side that has it. -/
inductive Change
  | same (old new : Nat) (line : Text)
  | removed (old : Nat) (line : Text)
  | added (new : Nat) (line : Text)
deriving DecidableEq, Repr

namespace Change

def old? : Change → Option Nat
  | same old _ _ | removed old _ => some old
  | added _ _ => none

def new? : Change → Option Nat
  | same _ new _ | added new _ => some new
  | removed _ _ => none

def isEdit : Change → Bool
  | same _ _ _ => false
  | _ => true

end Change

/-- How far ahead of a mismatch both sides are searched for agreement. -/
def lookahead : Nat := 20

/-- Whether both sides agree again at some distance from a mismatch, and how many lines each has to skip
to get there. A substitution is preferred to an insertion, and that to a deletion. -/
def syncAt? (old new : List Text) (distance : Nat) : Option (Nat × Nat) :=
  if (old[distance]?).isSome && old[distance]? == new[distance]? then
    some (distance, distance)
  else if (new[distance]?).isSome && old[0]? == new[distance]? then
    some (0, distance)
  else if (old[distance]?).isSome && old[distance]? == new[0]? then
    some (distance, 0)
  else none

/-- The nearest agreement after a mismatch at the head of both lists. -/
def sync? (old new : List Text) : Option (Nat × Nat) :=
  (List.range' 1 (lookahead - 1)).findSome? (syncAt? old new)

theorem sync?_pos {old new : List Text} {a b : Nat}
    (h : sync? old new = some (a, b)) : 0 < a + b := by
  obtain ⟨distance, hmem, hsync⟩ := List.exists_of_findSome?_eq_some h
  have hpos : 1 ≤ distance := (List.mem_range'_1.1 hmem).1
  unfold syncAt? at hsync
  split at hsync
  · simp at hsync; omega
  · split at hsync
    · simp at hsync; omega
    · split at hsync
      · simp at hsync; omega
      · simp at hsync

/-- Records that remove the given lines, counted from `index`. -/
def removals (index : Nat) : List Text → List Change
  | [] => []
  | line :: rest => .removed index line :: removals (index + 1) rest

/-- Records that add the given lines, counted from `index`. -/
def additions (index : Nat) : List Text → List Change
  | [] => []
  | line :: rest => .added index line :: additions (index + 1) rest

/-- The script for what is left of both sides, from line `i` of one and line `j` of the other. -/
def scriptFrom (i j : Nat) : List Text → List Text → List Change
  | [], new => additions j new
  | old, [] => removals i old
  | a :: old, b :: new =>
    if a = b then .same i j a :: scriptFrom (i + 1) (j + 1) old new
    else match _h : sync? (a :: old) (b :: new) with
      | none => removals i (a :: old) ++ additions j (b :: new)
      | some (m, n) =>
        removals i ((a :: old).take m) ++ additions j ((b :: new).take n) ++
          scriptFrom (i + m) (j + n) ((a :: old).drop m) ((b :: new).drop n)
termination_by old new => old.length + new.length
decreasing_by
  · simp; omega
  · have hskip := sync?_pos (by assumption)
    simp only [List.length_drop, List.length_cons]
    omega

def script (old new : List Text) : List Change :=
  scriptFrom 0 0 old new

end TagStamp.Diff
