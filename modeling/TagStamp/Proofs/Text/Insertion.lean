import Mathlib.Data.List.Perm.Basic
import Mathlib.Data.List.Pairwise
import TagStamp.Text.Basic

namespace TagStamp.Text

/-- What goes in front of the character at an offset. -/
def pending (insertions : List (Nat × Text)) (offset : Nat) : Text :=
  (insertions.filter fun i => i.1 = offset).flatMap Prod.snd

/-- The text with all insertions, each in front of the character at its offset in the text. -/
def insertAll (insertions : List (Nat × Text)) (text : Text) : Text :=
  (List.range (text.length + 1)).flatMap fun k => pending insertions k ++ text[k]?.toList

theorem flatMap_range_getElem? (text : Text) (k : Nat) :
    ((List.range k).flatMap fun j => text[j]?.toList) = text.take k := by
  induction k with
  | zero => rfl
  | succ k ih =>
    rw [List.range_succ, List.flatMap_append, ih, List.take_add_one]
    simp

theorem insertAll_nil (text : Text) : insertAll [] text = text := by
  have h := flatMap_range_getElem? text (text.length + 1)
  rw [List.take_of_length_le (by omega)] at h
  simpa [insertAll, pending] using h

theorem pending_of_lt {insertions : List (Nat × Text)} {k : Nat} (h : ∀ i ∈ insertions, k < i.1) :
    pending insertions k = [] := by
  have hnone : insertions.filter (fun i => i.1 = k) = [] := by
    rw [List.filter_eq_nil_iff]
    intro i hi
    simpa using Nat.ne_of_gt (h i hi)
  simp [pending, hnone]

/-- Up to the first insertion nothing changes. -/
theorem insertAll_eq_take_append {insertions : List (Nat × Text)} {k : Nat} {text : Text}
    (h : ∀ i ∈ insertions, k ≤ i.1) (hk : k ≤ text.length) :
    insertAll insertions text =
      text.take k ++ (List.range' k (text.length + 1 - k)).flatMap fun j =>
        pending insertions j ++ text[j]?.toList := by
  have hrange : List.range (text.length + 1) = List.range k ++ List.range' k (text.length + 1 - k) := by
    rw [List.range_eq_range', List.range_eq_range']
    have happend := List.range'_append_1 (s := 0) (m := k) (n := text.length + 1 - k)
    rw [Nat.zero_add, show k + (text.length + 1 - k) = text.length + 1 by omega] at happend
    exact happend.symm
  have hleft : ((List.range k).flatMap fun j => pending insertions j ++ text[j]?.toList) = text.take k := by
    rw [← flatMap_range_getElem? text k, List.flatMap_congr]
    intro j hj
    rw [List.mem_range] at hj
    rw [pending_of_lt fun i hi => Nat.lt_of_lt_of_le hj (h i hi), List.nil_append]
  rw [insertAll, hrange, List.flatMap_append, hleft]

theorem take_insertAll {insertions : List (Nat × Text)} {k : Nat} {text : Text}
    (h : ∀ i ∈ insertions, k ≤ i.1) (hk : k ≤ text.length) :
    (insertAll insertions text).take k = text.take k := by
  have hlength : (text.take k).length = k := List.length_take_of_le hk
  rw [insertAll_eq_take_append h hk, List.take_append_of_le_length (by omega),
    List.take_of_length_le (by omega)]

/-- The leftmost insertion can be made last. -/
theorem insertAll_cons {insertions : List (Nat × Text)} {k : Nat} {text x : Text}
    (h : ∀ i ∈ insertions, k < i.1) (hk : k ≤ text.length) :
    insertAll ((k, x) :: insertions) text =
      text.take k ++ x ++ (insertAll insertions text).drop k := by
  have hcons : ∀ i ∈ (k, x) :: insertions, k ≤ i.1 := by
    intro i hi
    rw [List.mem_cons] at hi
    obtain rfl | hi := hi
    · exact Nat.le_refl _
    · exact Nat.le_of_lt (h i hi)
  rw [insertAll_eq_take_append hcons hk,
    insertAll_eq_take_append (fun i hi => Nat.le_of_lt (h i hi)) hk]
  have hlength : (text.take k).length = k := List.length_take_of_le hk
  rw [List.drop_append_of_le_length (by omega), List.drop_of_length_le (by omega), List.nil_append,
    List.append_assoc]
  congr 1
  rw [show text.length + 1 - k = (text.length - k) + 1 by omega, List.range'_succ, List.flatMap_cons,
    List.flatMap_cons, pending_of_lt h]
  have hhere : pending ((k, x) :: insertions) k = x := by
    have hnone := pending_of_lt h
    simp only [pending] at hnone ⊢
    simp [hnone]
  rw [hhere]
  simp only [List.append_assoc, List.nil_append]
  congr 2
  apply List.flatMap_congr
  intro j hj
  rw [List.mem_range'_1] at hj
  have hother : pending ((k, x) :: insertions) j = pending insertions j := by
    have hne : ¬ k = j := by omega
    simp [pending, hne]
  rw [hother]

/-- The order in which insertions at different offsets are given does not matter. -/
theorem insertAll_perm {insertions insertions' : List (Nat × Text)} (hperm : insertions.Perm insertions')
    (hdistinct : insertions.Pairwise fun i j => i.1 ≠ j.1) (text : Text) :
    insertAll insertions text = insertAll insertions' text := by
  have hpending : ∀ k, pending insertions k = pending insertions' k := by
    intro k
    have hfilter := hperm.filter fun i => decide (i.1 = k)
    have hpairwise := hdistinct.filter fun i => decide (i.1 = k)
    have hsame : ∀ i ∈ insertions.filter fun i => decide (i.1 = k), i.1 = k := by
      intro i hi
      simpa using (List.mem_filter.1 hi).2
    have heq : insertions.filter (fun i => decide (i.1 = k)) = insertions'.filter fun i => decide (i.1 = k) := by
      -- At most one insertion is made at an offset.
      generalize insertions.filter (fun i => decide (i.1 = k)) = here at hfilter hpairwise hsame ⊢
      match here with
      | [] => exact hfilter.nil_eq
      | [i] => exact (List.perm_singleton.1 hfilter.symm).symm
      | i :: j :: rest =>
        refine absurd ?_ (List.rel_of_pairwise_cons hpairwise List.mem_cons_self)
        rw [hsame i (by simp), hsame j (by simp)]
    simp only [pending, heq]
  simp only [insertAll, hpending]

end TagStamp.Text
