import Mathlib.Data.List.Forall2
import TagStamp.Manifest.Schema

namespace TagStamp.Manifest

namespace Checked

variable {α β : Type}

/-- The check passes, with a value that has the property. -/
def Gives (x : Checked α) (P : α → Prop) : Prop :=
  ∃ a, x = .good a ∧ P a

theorem eq_good_iff_gives {x : Checked α} {a : α} : x = .good a ↔ x.Gives (· = a) := by
  simp [Gives]

@[simp]
theorem gives_map {f : α → β} {x : Checked α} {P : β → Prop} :
    (f <$> x).Gives P ↔ x.Gives fun a => P (f a) := by
  cases x with
  | good a => simp [Gives, Functor.map, map]
  | bad problems => simp [Gives, Functor.map, map]

@[simp]
theorem gives_seq {f : Checked (α → β)} {x : Checked α} {P : β → Prop} :
    (f <*> x).Gives P ↔ f.Gives fun g => x.Gives fun a => P (g a) := by
  cases f with
  | bad problems => simp [Gives, Seq.seq, seq]
  | good g =>
    cases x with
    | good a => simp [Gives, Seq.seq, seq]
    | bad problems => simp [Gives, Seq.seq, seq]

@[simp]
theorem gives_seqLeft {x : Checked α} {y : Checked β} {P : α → Prop} :
    (x <* y).Gives P ↔ x.Gives fun a => y.Gives fun _ => P a :=
  (gives_seq (f := Function.const β <$> x)).trans gives_map

@[simp]
theorem under_eq_good_iff {step : Step} {x : Checked α} {a : α} : x.under step = .good a ↔ x = .good a := by
  cases x with
  | good b => rfl
  | bad problems => simp [under]

/-- A list of checks passes if each of them does; it gives their values in order. -/
theorem all_eq_good_iff {xs : List (Checked α)} {as : List α} :
    all xs = .good as ↔ List.Forall₂ (fun x a => x = .good a) xs as := by
  have hcons (x : Checked α) (rest : List (Checked α)) : all (x :: rest) = List.cons <$> x <*> all rest := rfl
  induction xs generalizing as with
  | nil => simp [all, eq_comm]
  | cons x rest ih =>
    simp only [hcons, eq_good_iff_gives, gives_seq, gives_map]
    simp only [Gives, ih]
    cases as with
    | nil => simp
    | cons a as => simp

end Checked

namespace Field

variable {α : Type} {f : Field} {check : Json → Checked α} {members : List (CodeString × Json)} {default a : α}

/-- The value of the member that gives the field its value. -/
def of? (f : Field) : Json → Option Json
  | .object members => (f.given? members).map Prod.snd
  | _ => none

/-- The string that is given for a field. -/
def string? (f : Field) (item : Json) : Option CodeString :=
  match f.of? item with
  | some (.string value) => some value
  | _ => none

private theorem required_eq_good_iff :
    f.required check members = .good a ↔ ∃ value, f.of? (.object members) = some value ∧ check value = .good a := by
  cases hgiven : f.given? members with
  | none => simp [required, of?, hgiven, Checked.fail]
  | some member => simp [required, of?, hgiven]

theorem withDefault_eq_good_iff :
    f.withDefault default check members = .good a ↔
      (f.of? (.object members) = none ∧ default = a) ∨
        ∃ value, f.of? (.object members) = some value ∧ check value = .good a := by
  cases hgiven : f.given? members with
  | none => simp [withDefault, of?, hgiven]
  | some member => simp [withDefault, of?, hgiven]

private theorem eq_string?_of_optionalString {s : Option CodeString} (h : optionalString f members = .good s) :
    s = f.string? (.object members) := by
  obtain ⟨hnone, rfl⟩ | ⟨value, hvalue, hcheck⟩ := withDefault_eq_good_iff.1 h
  · simp [string?, hnone]
  · cases value <;> simp_all [string?, checkOptional, checkString, Checked.map, Checked.fail]

end Field

variable {value item document : Json} {s : String} {n : Int} {e : Element} {manifest : Manifest}

theorem checkText_eq_good_iff {test : String → Option Cause} :
    checkText test value = .good s ↔ value = .text s ∧ test s = none := by
  unfold checkText Json.text
  split
  · next chars =>
    cases htest : test chars with
    | none => grind
    | some cause => grind [Checked.fail]
  · simp [Checked.fail]
  · next hother => grind [Checked.fail]

private theorem checkAgentId_eq_good_iff : checkAgentId value = .good s ↔ value = .text s ∧ isAgentId s.toList := by
  simp [checkAgentId, checkText_eq_good_iff]

private theorem checkNonEmpty_eq_good_iff : checkNonEmpty value = .good s ↔ value = .text s ∧ s ≠ "" := by
  simp [checkNonEmpty, checkText_eq_good_iff]

private theorem checkPosition_eq_good_iff : checkPosition value = .good n ↔ checkInteger value = .good n ∧ 1 ≤ n := by
  unfold checkPosition
  cases checkInteger value with
  | bad problems => simp
  | good m => grind [Checked.fail]

/-- An element that a run can rely on. -/
structure Element.WellFormed (e : Element) : Prop where
  agentId : ∃ first rest, e.agentId.toList = first :: rest ∧ ('a' ≤ first ∧ first ≤ 'z') ∧
    ∀ c ∈ rest, ('a' ≤ c ∧ c ≤ 'z') ∨ ('0' ≤ c ∧ c ≤ '9') ∨ c = '.' ∨ c = '-'
  type : e.type ≠ ""
  filePath : e.filePath ≠ ""
  line : 1 ≤ e.line
  column : 1 ≤ e.column

/-- An item of a document gives an element what is asked for in its file. -/
structure Describes (item : Json) (e : Element) : Prop where
  agentId : Field.agentId.of? item = some (.text e.agentId)
  type : Field.type.of? item = some (.text e.type)
  filePath : Field.filePath.of? item = some (.text e.filePath)
  line : ∃ value, Field.line.of? item = some value ∧ checkInteger value = .good e.line
  column : ∃ value, Field.column.of? item = some value ∧ checkInteger value = .good e.column
  sourceTagName : e.sourceTagName = Field.sourceTagName.string? item

/-- The elements are what a document lists, one for each item and in their order; the list may be left out. -/
def Lists (document : Json) (elements : List Element) : Prop :=
  match Field.elements.of? document with
  | some value => ∃ items, value = .array items ∧ List.Forall₂ Describes items elements
  | none => elements = []

private theorem exists_of_isAgentId {text : Text} (h : isAgentId text) :
    ∃ first rest, text = first :: rest ∧ ('a' ≤ first ∧ first ≤ 'z') ∧
      ∀ c ∈ rest, ('a' ≤ c ∧ c ≤ 'z') ∨ ('0' ≤ c ∧ c ≤ '9') ∨ c = '.' ∨ c = '-' := by
  cases text with
  | nil => simp [isAgentId] at h
  | cons first rest =>
    simp only [isAgentId, isIdRest, isIdStart, Bool.and_eq_true, Bool.or_eq_true, List.all_eq_true,
      decide_eq_true_eq, beq_iff_eq, or_assoc] at h
    exact ⟨first, rest, rfl, h⟩

theorem Element.WellFormed.feed_notMem (h : e.WellFormed) : '\n' ∉ e.agentId.toList := by
  obtain ⟨first, rest, hid, hfirst, hrest⟩ := h.agentId
  rw [hid, List.mem_cons, not_or]
  constructor
  · rintro rfl
    exact absurd hfirst.1 (by decide)
  · intro hmem
    exact absurd (hrest '\n' hmem) (by decide)

/-- An item that passes the checks describes a well-formed element. -/
theorem describes_of_checkElement (h : checkElement item = .good e) : Describes item e ∧ e.WellFormed := by
  unfold checkElement at h
  split at h
  · next members =>
    split at h
    · simp [Checked.fail] at h
    rw [checkMembers, Checked.eq_good_iff_gives] at h
    simp only [Checked.gives_seqLeft, Checked.gives_seq, Checked.gives_map] at h
    -- of the fields that may be left out, only the last one says what to look for in the source
    obtain ⟨agentId, hagentId, type, htype, filePath, hfilePath, line, hline, column, hcolumn, -, -, -, -, -, -, -, -,
      -, -, -, -, -, -, -, -, sourceTagName, hsourceTagName, -, -, rfl⟩ := h
    simp only [Field.required_eq_good_iff, checkAgentId_eq_good_iff, checkNonEmpty_eq_good_iff,
      checkPosition_eq_good_iff] at hagentId htype hfilePath hline hcolumn
    obtain ⟨_, hagentId, rfl, hid⟩ := hagentId
    obtain ⟨_, htype, rfl, htypeNonempty⟩ := htype
    obtain ⟨_, hfilePath, rfl, hfilePathNonempty⟩ := hfilePath
    obtain ⟨_, hline, hlineRead, hlinePositive⟩ := hline
    obtain ⟨_, hcolumn, hcolumnRead, hcolumnPositive⟩ := hcolumn
    exact ⟨⟨hagentId, htype, hfilePath, ⟨_, hline, hlineRead⟩, ⟨_, hcolumn, hcolumnRead⟩,
        Field.eq_string?_of_optionalString hsourceTagName⟩,
      exists_of_isAgentId hid, htypeNonempty, hfilePathNonempty, hlinePositive, hcolumnPositive⟩
  · simp [Checked.fail] at h

/-- A list of items passes if each item does, and gives one element for each item. -/
theorem forall₂_of_checkElements {elements : List Element} (h : checkElements value = .good elements) :
    ∃ items, value = .array items ∧ List.Forall₂ Describes items elements ∧ ∀ e ∈ elements, e.WellFormed := by
  unfold checkElements at h
  split at h
  · next items =>
    rw [Checked.all_eq_good_iff, List.forall₂_map_left_iff] at h
    simp only [Checked.under_eq_good_iff] at h
    have hitems : List.Forall₂ (fun item e => checkElement item = .good e) items elements := by
      rw [← List.zipIdx_map_fst 0 items, List.forall₂_map_left_iff]
      exact h
    have hboth : List.Forall₂ (fun e item => e.WellFormed ∧ Describes item e) elements items :=
      .flip (hitems.imp fun _ _ hitem => (describes_of_checkElement hitem).symm)
    rw [List.forall₂_and_left] at hboth
    exact ⟨items, rfl, hboth.2.flip, hboth.1⟩
  · simp [Checked.fail] at h

/-- The elements of a manifest are what the document lists, and each of them is well-formed. -/
theorem elements_of_check (h : check document = .good manifest) :
    Lists document manifest.elements ∧ ∀ e ∈ manifest.elements, e.WellFormed := by
  unfold check at h
  split at h
  · next members =>
    rw [Checked.eq_good_iff_gives] at h
    simp only [Checked.gives_seq, Checked.gives_map] at h
    obtain ⟨-, -, -, -, -, -, -, -, elements, helements, rfl⟩ := h
    unfold Lists
    obtain ⟨hnone, rfl⟩ | ⟨value, hvalue, hcheck⟩ := Field.withDefault_eq_good_iff.1 helements
    · rw [hnone]
      exact ⟨rfl, by simp⟩
    · obtain ⟨items, hitems, hdescribes, hwell⟩ := forall₂_of_checkElements hcheck
      rw [hvalue]
      exact ⟨⟨items, hitems, hdescribes⟩, hwell⟩
  · simp [Checked.fail] at h

end TagStamp.Manifest
