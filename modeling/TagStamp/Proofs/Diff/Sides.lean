import Mathlib.Data.List.Induction
import TagStamp.Diff.Hunk

namespace TagStamp.Diff

/-- The two sides of a diff. -/
inductive Side
  | old
  | new
deriving DecidableEq, Repr

namespace Side

def other : Side → Side
  | old => new
  | new => old

/-- The line number of a record on a side. -/
def index? : Side → Change → Option Nat
  | old => Change.old?
  | new => Change.new?

/-- The value for a side out of one for each. -/
def pick {α : Type} (old new : α) : Side → α
  | .old => old
  | .new => new

end Side

namespace Change

def line : Change → Text
  | same _ _ line | removed _ line | added _ line => line

/-- The line of a record on a side that has it. -/
def lineOn? (side : Side) (c : Change) : Option Text :=
  (side.index? c).map fun _ => c.line

end Change

/-- The lines of a script on a side. -/
def linesOn (side : Side) (changes : List Change) : List Text :=
  changes.filterMap (Change.lineOn? side)

@[simp]
theorem linesOn_nil (side : Side) : linesOn side [] = [] := rfl

@[simp]
theorem linesOn_cons (side : Side) (c : Change) (rest : List Change) :
    linesOn side (c :: rest) = (c.lineOn? side).toList ++ linesOn side rest := by
  simp only [linesOn, List.filterMap_cons]
  cases c.lineOn? side <;> rfl

@[simp]
theorem linesOn_append (side : Side) (a b : List Change) :
    linesOn side (a ++ b) = linesOn side a ++ linesOn side b :=
  List.filterMap_append

/-- A record that is no edit has the same line on both sides. -/
theorem lineOn?_of_not_isEdit {c : Change} (h : c.isEdit = false) (side : Side) :
    c.lineOn? side = some c.line := by
  cases c with
  | same old new line => cases side <;> rfl
  | removed old line => cases h
  | added new line => cases h

theorem linesOn_of_not_isEdit {changes : List Change} (h : ∀ c ∈ changes, c.isEdit = false) (side : Side) :
    linesOn side changes = changes.map Change.line := by
  induction changes with
  | nil => rfl
  | cons c rest ih =>
    rw [linesOn_cons, lineOn?_of_not_isEdit (h c List.mem_cons_self),
      ih fun d hd => h d (List.mem_cons_of_mem c hd)]
    rfl

/-- Every side counts the records that have a line on it. -/
theorem countP_index?_eq (side : Side) (changes : List Change) :
    (changes.countP fun c => (side.index? c).isSome) = (linesOn side changes).length := by
  rw [linesOn, List.length_filterMap_eq_countP]
  simp only [Change.lineOn?, Option.isSome_map]

/-- The records number the lines of each side, beginning with the given ones. -/
def NumberedFrom (start : Side → Nat) : List Change → Prop
  | [] => True
  | c :: rest =>
    (∀ side, ∀ k ∈ side.index? c, k = start side) ∧
      NumberedFrom (fun side => start side + (c.lineOn? side).toList.length) rest

theorem numberedFrom_append {start : Side → Nat} {a b : List Change} :
    NumberedFrom start (a ++ b) ↔
      NumberedFrom start a ∧ NumberedFrom (fun side => start side + (linesOn side a).length) b := by
  induction a generalizing start with
  | nil => simp [NumberedFrom]
  | cons c rest ih =>
    simp only [List.cons_append, NumberedFrom, ih, linesOn_cons, List.length_append, and_assoc, Nat.add_assoc]

theorem linesOn_removals (side : Side) (index : Nat) (lines : List Text) :
    linesOn side (removals index lines) = side.pick lines [] := by
  induction lines generalizing index with
  | nil => cases side <;> rfl
  | cons line rest ih =>
    rw [removals, linesOn_cons, ih]
    cases side <;> rfl

theorem linesOn_additions (side : Side) (index : Nat) (lines : List Text) :
    linesOn side (additions index lines) = side.pick [] lines := by
  induction lines generalizing index with
  | nil => cases side <;> rfl
  | cons line rest ih =>
    rw [additions, linesOn_cons, ih]
    cases side <;> rfl

theorem numberedFrom_removals (i j : Nat) (lines : List Text) :
    NumberedFrom (Side.pick i j) (removals i lines) := by
  induction lines generalizing i with
  | nil => trivial
  | cons line rest ih =>
    refine ⟨?_, ?_⟩
    · intro side k hk
      cases side with
      | old => simpa [Side.index?, Change.old?, Side.pick] using hk.symm
      | new => cases hk
    · have hnext : (fun side : Side => side.pick i j + ((Change.removed i line).lineOn? side).toList.length) =
          Side.pick (i + 1) j := by
        funext side
        cases side <;> rfl
      rw [hnext]
      exact ih (i + 1)

theorem numberedFrom_additions (i j : Nat) (lines : List Text) :
    NumberedFrom (Side.pick i j) (additions j lines) := by
  induction lines generalizing j with
  | nil => trivial
  | cons line rest ih =>
    refine ⟨?_, ?_⟩
    · intro side k hk
      cases side with
      | old => cases hk
      | new => simpa [Side.index?, Change.new?, Side.pick] using hk.symm
    · have hnext : (fun side : Side => side.pick i j + ((Change.added j line).lineOn? side).toList.length) =
          Side.pick i (j + 1) := by
        funext side
        cases side <;> rfl
      rw [hnext]
      exact ih (j + 1)

/-- A script has on each side the lines of that side. -/
theorem linesOn_scriptFrom (side : Side) (i j : Nat) (old new : List Text) :
    linesOn side (scriptFrom i j old new) = side.pick old new := by
  fun_induction scriptFrom i j old new with
  | case1 i j new => exact linesOn_additions side j new
  | case2 i j old => exact linesOn_removals side i old
  | case3 i j old a new ih =>
    rw [linesOn_cons, ih]
    cases side <;> rfl
  | case4 i j a old b new hne hsync =>
    rw [linesOn_append, linesOn_removals, linesOn_additions]
    cases side <;> simp [Side.pick]
  | case5 i j a old b new hne m n hsync ih =>
    rw [linesOn_append, linesOn_append, linesOn_removals, linesOn_additions, ih]
    cases side <;> simp [Side.pick]

/-- Where both sides agree again, they have the same line. -/
theorem sync?_agrees {old new : List Text} {m n : Nat} (h : sync? old new = some (m, n)) :
    ∃ line, old[m]? = some line ∧ new[n]? = some line := by
  obtain ⟨distance, -, hsync⟩ := List.exists_of_findSome?_eq_some h
  unfold syncAt? at hsync
  split at hsync
  · next hboth =>
    cases hsync
    simp only [Bool.and_eq_true, beq_iff_eq] at hboth
    obtain ⟨line, hline⟩ := Option.isSome_iff_exists.1 hboth.1
    exact ⟨line, hline, hboth.2 ▸ hline⟩
  · split at hsync
    · next hnew =>
      cases hsync
      simp only [Bool.and_eq_true, beq_iff_eq] at hnew
      obtain ⟨line, hline⟩ := Option.isSome_iff_exists.1 hnew.1
      exact ⟨line, hnew.2.trans hline, hline⟩
    · split at hsync
      · next hold =>
        cases hsync
        simp only [Bool.and_eq_true, beq_iff_eq] at hold
        obtain ⟨line, hline⟩ := Option.isSome_iff_exists.1 hold.1
        exact ⟨line, hline, hold.2.symm.trans hline⟩
      · cases hsync

/-- Both sides still have lines where they agree again. -/
theorem sync?_lt {old new : List Text} {m n : Nat} (h : sync? old new = some (m, n)) :
    m < old.length ∧ n < new.length := by
  obtain ⟨line, hold, hnew⟩ := sync?_agrees h
  exact ⟨(List.getElem?_eq_some_iff.1 hold).1, (List.getElem?_eq_some_iff.1 hnew).1⟩

/-- After a run of removals and one of additions the numbers go on. -/
theorem numberedFrom_replacement {i j : Nat} {gone come : List Text} {rest : List Change}
    (h : NumberedFrom (Side.pick (i + gone.length) (j + come.length)) rest) :
    NumberedFrom (Side.pick i j) (removals i gone ++ additions j come ++ rest) := by
  have hgone : (fun side : Side => side.pick i j + (linesOn side (removals i gone)).length) =
      Side.pick (i + gone.length) j := by
    funext side
    rw [linesOn_removals]
    cases side <;> rfl
  have hcome : (fun side : Side => side.pick (i + gone.length) j + (linesOn side (additions j come)).length) =
      Side.pick (i + gone.length) (j + come.length) := by
    funext side
    rw [linesOn_additions]
    cases side <;> rfl
  rw [List.append_assoc, numberedFrom_append, hgone, numberedFrom_append, hcome]
  exact ⟨numberedFrom_removals i j gone, numberedFrom_additions (i + gone.length) j come, h⟩

private theorem numberedFrom_scriptFrom (i j : Nat) (old new : List Text) :
    NumberedFrom (Side.pick i j) (scriptFrom i j old new) := by
  fun_induction scriptFrom i j old new with
  | case1 i j new => exact numberedFrom_additions i j new
  | case2 i j old => exact numberedFrom_removals i j old
  | case3 i j old a new ih =>
    refine ⟨?_, ?_⟩
    · intro side k hk
      cases side <;> simpa [Side.index?, Change.old?, Change.new?, Side.pick] using hk.symm
    · have hnext : (fun side : Side => side.pick i j + ((Change.same i j a).lineOn? side).toList.length) =
          Side.pick (i + 1) (j + 1) := by
        funext side
        cases side <;> rfl
      rw [hnext]
      exact ih
  | case4 i j a old b new hne hsync =>
    rw [← List.append_nil (removals i (a :: old) ++ additions j (b :: new))]
    exact numberedFrom_replacement trivial
  | case5 i j a old b new hne m n hsync ih =>
    obtain ⟨hm, hn⟩ := sync?_lt hsync
    apply numberedFrom_replacement
    rw [List.length_take_of_le (Nat.le_of_lt hm), List.length_take_of_le (Nat.le_of_lt hn)]
    exact ih

theorem linesOn_script (side : Side) (old new : List Text) :
    linesOn side (script old new) = side.pick old new :=
  linesOn_scriptFrom side 0 0 old new

theorem numbered_script (old new : List Text) : NumberedFrom (fun _ => 0) (script old new) := by
  have hstart : (fun _ => 0 : Side → Nat) = Side.pick 0 0 := by
    funext side
    cases side <;> rfl
  rw [hstart]
  exact numberedFrom_scriptFrom 0 0 old new

/-- The last number on a side is that of the last line. -/
theorem findSome?_reverse_of_numbered {changes : List Change} (side : Side)
    (h : NumberedFrom (fun _ => 0) changes) :
    changes.reverse.findSome? side.index? =
      if linesOn side changes = [] then none else some ((linesOn side changes).length - 1) := by
  induction changes using List.reverseRecOn with
  | nil => rfl
  | append_singleton changes c ih =>
    obtain ⟨hbefore, hnumber, -⟩ := numberedFrom_append.1 h
    rw [List.reverse_append, List.reverse_singleton, List.singleton_append, List.findSome?_cons, linesOn_append,
      linesOn_cons]
    cases hindex : side.index? c with
    | none => simpa [Change.lineOn?, hindex] using ih hbefore
    | some k =>
      have hk := hnumber side k hindex
      simp [Change.lineOn?, hindex, hk]

/-- A run of records starts on each side at the line after those before it. -/
theorem startOn_of_numbered {before records : List Change} (side : Side)
    (h : NumberedFrom (fun _ => 0) (before ++ records)) :
    startOn side.index? before records = (linesOn side before).length + 1 := by
  obtain ⟨hbefore, hrecords⟩ := numberedFrom_append.1 h
  unfold startOn
  cases hhead : records.head?.bind side.index? with
  | some k =>
    obtain ⟨c, hc, hk⟩ := Option.bind_eq_some_iff.1 hhead
    obtain ⟨rest, rfl⟩ := List.head?_eq_some_iff.1 hc
    have hnumber := hrecords.1 side k hk
    simp only [Nat.zero_add] at hnumber
    rw [hnumber]
  | none =>
    simp only [findSome?_reverse_of_numbered side hbefore]
    by_cases hnone : linesOn side before = []
    · simp [hnone]
    · have hpos := List.length_pos_iff.2 hnone
      simp only [if_neg hnone]
      omega

/-- Between equal lists there is nothing to edit. -/
theorem not_isEdit_of_mem_scriptFrom_self {i j : Nat} {lines : List Text} {c : Change}
    (h : c ∈ scriptFrom i j lines lines) : c.isEdit = false := by
  induction lines generalizing i j with
  | nil =>
    rw [scriptFrom] at h
    cases h
  | cons line rest ih =>
    rw [scriptFrom, if_pos rfl, List.mem_cons] at h
    obtain rfl | h := h
    · rfl
    · exact ih h

/-- A script has no edits exactly if both sides are equal. -/
theorem script_not_isEdit_iff {old new : List Text} :
    (∀ c ∈ script old new, c.isEdit = false) ↔ old = new := by
  constructor
  · intro h
    have hold := linesOn_script .old old new
    have hnew := linesOn_script .new old new
    rw [linesOn_of_not_isEdit h] at hold hnew
    exact hold.symm.trans hnew
  · rintro rfl c hc
    exact not_isEdit_of_mem_scriptFrom_self hc

end TagStamp.Diff
