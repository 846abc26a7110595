import Mathlib.Data.List.Induction
import Mathlib.Data.List.Infix
import TagStamp.FileTree.Basic

namespace TagStamp

/-- A name that an entry of a directory can have. -/
@[mk_iff]
structure IsName (name : String) : Prop where
  nonempty : name ≠ ""
  dot : name ≠ "."
  dots : name ≠ ".."
  slash : '/' ∉ name.toList

instance (name : String) : Decidable (IsName name) :=
  decidable_of_iff _ (isName_iff name).symm

def Entry.isLink : Entry → Bool
  | .link _ => true
  | _ => false

namespace FileTree

/-- The content of the file at a place. -/
def content? (t : FileTree) (place : Location) : Option (List UInt8) :=
  match t.get? place with
  | some (.file content) => some content
  | _ => none

def Linkless (t : FileTree) : Prop :=
  ∀ place target, t.get? place ≠ some (.link target)

/-- Entries are directories and files with proper names, and each is in a directory. -/
@[mk_iff]
structure Plain (t : FileTree) : Prop where
  unlinked : ∀ e ∈ t.entries, e.2.isLink = false
  named : ∀ e ∈ t.entries, ∀ name ∈ e.1, IsName name
  housed : ∀ e ∈ t.entries, t.get? e.1.dropLast = some .directory

instance (t : FileTree) : Decidable t.Plain :=
  decidable_of_iff _ (plain_iff t).symm

variable {t : FileTree} {place other : Location} {entry : Entry} {content : List UInt8}

theorem content?_eq_some_iff : t.content? place = some content ↔ t.get? place = some (.file content) := by
  unfold content?
  cases t.get? place with
  | none => simp
  | some entry => cases entry <;> simp

theorem content?_congr {t' : FileTree} (h : t'.get? place = t.get? place) :
    t'.content? place = t.content? place := by
  rw [content?, content?, h]

theorem content?_set_file (hplace : place ≠ []) :
    (t.set place (.file content)).content? other =
      if other = place then some content else t.content? other := by
  split
  · next heq =>
    rw [heq, content?_eq_some_iff, get?_set_self t _ hplace]
  · next hne => exact content?_congr (get?_set_of_ne t _ hne)

theorem content?_set_directory (hfree : t.get? place = none) :
    (t.set place .directory).content? other = t.content? other := by
  by_cases heq : other = place
  · have hplace : place ≠ [] := by
      rintro rfl
      simp at hfree
    rw [heq, content?, content?, get?_set_self t _ hplace, hfree]
  · exact content?_congr (get?_set_of_ne t _ heq)

theorem content?_clear (t : FileTree) (place other : Location) :
    (t.clear place).content? other =
      if place <+: other ∧ other ≠ place then none else t.content? other := by
  by_cases hroot : other = []
  · simp [hroot, content?]
  · by_cases hbelow : place <+: other ∧ other ≠ place
    · rw [content?, get?_clear t place hroot, if_pos hbelow, if_pos hbelow]
    · rw [if_neg hbelow]
      exact content?_congr (by rw [get?_clear t place hroot, if_neg hbelow])

theorem content?_erase (t : FileTree) (place other : Location) :
    (t.erase place).content? other = if place <+: other then none else t.content? other := by
  by_cases hroot : other = []
  · simp [hroot, content?]
  · by_cases hbelow : place <+: other
    · rw [content?, get?_erase t place hroot, if_pos hbelow, if_pos hbelow]
    · rw [if_neg hbelow]
      exact content?_congr (by rw [get?_erase t place hroot, if_neg hbelow])

/-- The tree after a directory was emptied and removed. The root itself cannot be removed. -/
def prune (t : FileTree) (place : Location) : FileTree :=
  if place = [] then t.clear place else (t.clear place).erase place

theorem content?_prune (hplace : t.get? place = some .directory) (other : Location) :
    (t.prune place).content? other = if place <+: other then none else t.content? other := by
  have hself : t.content? place = none := by rw [content?, hplace]
  unfold prune
  split
  · next hroot =>
    rw [content?_clear]
    by_cases heq : other = place
    · simp [heq, hself]
    · simp [heq]
  · rw [content?_erase, content?_clear]
    by_cases hbelow : place <+: other <;> simp [hbelow]

/-- The tree after some of what is below a place was removed. -/
def thin (t : FileTree) (place : Location) (below : List Location) : FileTree :=
  (below.filter (· ≠ [])).foldl (fun t rest => t.erase (place ++ rest)) t

theorem content?_thin (below : List Location) (hother : ¬ place <+: other) :
    (t.thin place below).content? other = t.content? other := by
  unfold thin
  generalize below.filter (· ≠ []) = gone
  induction gone generalizing t with
  | nil => rfl
  | cons rest gone ih =>
    have hrest : ¬ place ++ rest <+: other := fun h => hother ((List.prefix_append place rest).trans h)
    rw [List.foldl_cons, ih, content?_erase, if_neg hrest]

/-- A directory stays one, whatever is put at a place that is none. -/
theorem get?_set_of_directory (hplace : t.get? place ≠ some .directory) (h : t.get? other = some .directory) :
    (t.set place entry).get? other = some .directory := by
  have hne : other ≠ place := by
    rintro rfl
    exact hplace h
  rw [get?_set_of_ne t entry hne, h]

private theorem get?_clear_of_not_below (h : ¬ (place <+: other ∧ other ≠ place)) :
    (t.clear place).get? other = t.get? other := by
  by_cases hroot : other = []
  · simp [hroot]
  · rw [get?_clear t place hroot, if_neg h]

/-- What leads to a place is not below it. -/
theorem get?_clear_above (h : other <+: place) : (t.clear place).get? other = t.get? other :=
  get?_clear_of_not_below fun hbelow => hbelow.2 (h.eq_of_length_le hbelow.1.length_le)

theorem Linkless.set (h : t.Linkless) (hentry : entry.isLink = false) : (t.set place entry).Linkless := by
  intro other target hlink
  by_cases hroot : other = []
  · simp [hroot] at hlink
  by_cases heq : other = place
  · rw [heq, get?_set_self t entry (heq ▸ hroot), Option.some.injEq] at hlink
    rw [hlink] at hentry
    cases hentry
  · rw [get?_set_of_ne t entry heq] at hlink
    exact h other target hlink

theorem Linkless.clear (h : t.Linkless) (place : Location) : (t.clear place).Linkless := by
  intro other target hlink
  by_cases hroot : other = []
  · simp [hroot] at hlink
  rw [get?_clear t place hroot] at hlink
  split at hlink
  · cases hlink
  · exact h other target hlink

theorem mem_entries_of_get? (hplace : place ≠ []) (h : t.get? place = some entry) : (place, entry) ∈ t.entries := by
  rw [get?_of_ne_root t hplace] at h
  obtain ⟨e, hfind, rfl⟩ := Option.map_eq_some_iff.1 h
  have heq : e.1 = place := by simpa using List.find?_some hfind
  rw [← heq]
  exact List.mem_of_find?_eq_some hfind

namespace Plain

theorem linkless (h : t.Plain) : t.Linkless := by
  intro place target hlink
  by_cases hroot : place = []
  · simp [hroot] at hlink
  have hmem := h.unlinked _ (mem_entries_of_get? hroot hlink)
  cases hmem

theorem isName_of_get? (h : t.Plain) (hget : t.get? place = some entry) : ∀ name ∈ place, IsName name := by
  by_cases hroot : place = []
  · simp [hroot]
  · exact h.named _ (mem_entries_of_get? hroot hget)

/-- Where nothing is, nothing is below either. -/
theorem get?_eq_none_below (h : t.Plain) (hnone : t.get? place = none) (hbelow : place <+: other) :
    t.get? other = none := by
  obtain ⟨rest, rfl⟩ := hbelow
  induction rest using List.reverseRecOn with
  | nil => simpa using hnone
  | append_singleton rest name ih =>
    rw [Option.eq_none_iff_forall_ne_some]
    intro entry hentry
    have hhoused := h.housed _ (mem_entries_of_get? (by simp) hentry)
    rw [← List.append_assoc, List.dropLast_concat, ih] at hhoused
    cases hhoused

/-- No file is in a directory that does not exist. -/
theorem not_prefix_of_content (h : t.Plain) (hnone : t.get? place = none)
    (hfile : t.content? other = some content) : ¬ place <+: other := by
  intro hbelow
  rw [content?_eq_some_iff, h.get?_eq_none_below hnone hbelow] at hfile
  cases hfile

end Plain

end FileTree

end TagStamp
