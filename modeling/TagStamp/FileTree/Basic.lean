namespace TagStamp

/-- The names that lead to a place from the root, with no links along the way. -/
abbrev Location := List String

inductive Entry
  | directory
  | file (content : List UInt8)
  | link (target : String)
deriving DecidableEq, Repr

/-- What stands at each place below the root. -/
structure FileTree where
  entries : List (Location × Entry) := []
deriving DecidableEq, Repr

namespace FileTree

/-- What stands at a place. The root is always a directory. -/
def get? (t : FileTree) (place : Location) : Option Entry :=
  if place = [] then some .directory else (t.entries.find? (·.1 = place)).map Prod.snd

def isDirectory (t : FileTree) (place : Location) : Bool :=
  t.get? place == some .directory

/-- Puts an entry at a place, over what stood there. -/
def set (t : FileTree) (place : Location) (entry : Entry) : FileTree :=
  ⟨t.entries.filter (·.1 ≠ place) ++ [(place, entry)]⟩

/-- Removes everything strictly below a place. -/
def clear (t : FileTree) (place : Location) : FileTree :=
  ⟨t.entries.filter fun e => ¬(place <+: e.1 ∧ e.1 ≠ place)⟩

/-- Removes a place and everything below it. -/
def erase (t : FileTree) (place : Location) : FileTree :=
  ⟨t.entries.filter fun e => ¬place <+: e.1⟩

/-- Puts an entry at a place, with directories for the places above it that are empty. -/
def add (t : FileTree) (place : Location) (entry : Entry) : FileTree :=
  let above := (List.range' 1 (place.length - 1)).map place.take
  let missing := above.filter fun p => (t.get? p).isNone
  (missing.foldl (fun t p => t.set p .directory) t).set place entry

def linkCount (t : FileTree) : Nat :=
  t.entries.countP fun e => match e.2 with
    | .link _ => true
    | _ => false

/-- Dropping entries by their place takes away all that stands at a place, or nothing. -/
theorem find?_filter_place (entries : List (Location × Entry)) (keep : Location → Bool)
    (place : Location) :
    (entries.filter fun e => keep e.1).find? (·.1 = place) =
      if keep place then entries.find? (·.1 = place) else none := by
  induction entries with
  | nil => simp
  | cons e rest ih =>
    by_cases hplace : e.1 = place
    · by_cases hkeep : keep e.1 <;> simp_all
    · by_cases hkeep : keep e.1 <;> simp_all

@[simp]
theorem get?_root (t : FileTree) : t.get? [] = some .directory := by
  simp [get?]

theorem get?_of_ne_root (t : FileTree) {place : Location} (hplace : place ≠ []) :
    t.get? place = (t.entries.find? (·.1 = place)).map Prod.snd := by
  simp [get?, hplace]

@[simp]
theorem get?_set_self (t : FileTree) {place : Location} (entry : Entry) (hplace : place ≠ []) :
    (t.set place entry).get? place = some entry := by
  have hfind := find?_filter_place t.entries (fun p => p ≠ place) place
  rw [get?_of_ne_root _ hplace, set, List.find?_append, hfind]
  simp

theorem get?_set_of_ne (t : FileTree) {place other : Location} (entry : Entry) (hne : other ≠ place) :
    (t.set place entry).get? other = t.get? other := by
  by_cases hroot : other = []
  · simp [hroot]
  · have hfind := find?_filter_place t.entries (fun p => p ≠ place) other
    rw [get?_of_ne_root _ hroot, get?_of_ne_root _ hroot, set, List.find?_append, hfind]
    simp [hne, Ne.symm hne]

theorem get?_clear (t : FileTree) (place : Location) {other : Location} (hother : other ≠ []) :
    (t.clear place).get? other = if place <+: other ∧ other ≠ place then none else t.get? other := by
  have hfind := find?_filter_place t.entries (fun p => ¬(place <+: p ∧ p ≠ place)) other
  rw [get?_of_ne_root _ hother, get?_of_ne_root _ hother, clear, hfind]
  by_cases hbelow : place <+: other ∧ other ≠ place <;> simp [hbelow]

theorem get?_erase (t : FileTree) (place : Location) {other : Location} (hother : other ≠ []) :
    (t.erase place).get? other = if place <+: other then none else t.get? other := by
  have hfind := find?_filter_place t.entries (fun p => ¬place <+: p) other
  rw [get?_of_ne_root _ hother, get?_of_ne_root _ hother, erase, hfind]
  by_cases hbelow : place <+: other <;> simp [hbelow]

end FileTree

end TagStamp
