import Mathlib.Data.List.Infix
import Mathlib.Data.List.TakeWhile
import TagStamp.Json.Reader

namespace TagStamp.Json

/-- Where a scan is: between strings, in a string, or behind a backslash in a string. -/
inductive Spot
  | outside
  | inside
  | escaped
deriving DecidableEq, Repr

/-- One character moves a scan, which knows how many more brackets may be opened. Brackets count outside of
strings only. -/
def scanStep : Spot × Nat → Char → Option (Spot × Nat)
  | (.outside, levels), c =>
    if c = '\x22' then some (.inside, levels)
    else if c = '[' ∨ c = '\x7b' then
      match levels with
      | 0 => none
      | levels + 1 => some (.outside, levels)
    else if c = ']' ∨ c = '\x7d' then some (.outside, levels + 1)
    else some (.outside, levels)
  | (.inside, levels), c =>
    if c = '\x22' then some (.outside, levels)
    else if c = '\\' then some (.escaped, levels)
    else some (.inside, levels)
  | (.escaped, levels), _ => some (.inside, levels)

def scan (start : Spot × Nat) (text : Text) : Option (Spot × Nat) :=
  text.foldlM scanStep start

/-- The scan passes the text, and no run of digits is too long for an integer. -/
structure Fits (start : Spot × Nat) (text : Text) : Prop where
  nested : (scan start text).isSome
  short : ∀ digits, digits <:+: text → (∀ c ∈ digits, c.isDigit) → digits.length ≤ maxIntegerDigits

/-- The scan passes over what is between two cursors. -/
def Passes (start : Spot × Nat) (c : Cursor) (stop : Spot × Nat) (c' : Cursor) : Prop :=
  ∃ front, c.rest = front ++ c'.rest ∧ scan start front = some stop

/-- A reader that comes to no limit, and takes a scan with it as far as it gets. -/
def Moves {α : Type} (start : Spot × Nat) (c : Cursor) (stop : α → Spot × Nat) :
    Except ReadError (α × Cursor) → Prop
  | .ok (value, after) => Passes start c (stop value) after
  | .error (.malformed _ _) => True
  | .error (.beyond _) => False

variable {α β : Type} {start middle stop : Spot × Nat} {c c' c'' : Cursor} {levels : Nat} {text : Text}

theorem scan_append (start : Spot × Nat) (a b : Text) : scan start (a ++ b) = (scan start a).bind (scan · b) := by
  simp only [scan, List.foldlM_append]
  rfl

private theorem scan_cons (start : Spot × Nat) (c : Char) (rest : Text) :
    scan start (c :: rest) = (scanStep start c).bind (scan · rest) := by
  simp only [scan, List.foldlM_cons]
  rfl

/-- Characters that a scan does not care for. -/
theorem scan_of_forall (h : ∀ c ∈ text, scanStep start c = some start) : scan start text = some start := by
  induction text with
  | nil => rfl
  | cons c rest ih =>
    rw [List.forall_mem_cons] at h
    rw [scan_cons, h.1]
    exact ih h.2

theorem Passes.refl (start : Spot × Nat) (c : Cursor) : Passes start c start c :=
  ⟨[], rfl, rfl⟩

theorem Passes.trans (h : Passes start c middle c') (h' : Passes middle c' stop c'') : Passes start c stop c'' := by
  obtain ⟨front, hrest, hscan⟩ := h
  obtain ⟨front', hrest', hscan'⟩ := h'
  exact ⟨front ++ front', by rw [hrest, hrest', List.append_assoc], by rw [scan_append, hscan]; exact hscan'⟩

theorem Passes.advance {n : Nat} (h : scan start (c.rest.take n) = some stop) :
    Passes start c stop (c.advance n) :=
  ⟨c.rest.take n, (List.take_append_drop n c.rest).symm, h⟩

/-- What is left of a text that fits still fits. -/
theorem Fits.of_passes (h : Fits start c.rest) (hpasses : Passes start c stop c') : Fits stop c'.rest := by
  obtain ⟨front, hrest, hscan⟩ := hpasses
  refine ⟨?_, fun digits hdigits => h.short digits ?_⟩
  · have hnested := h.nested
    rwa [hrest, scan_append, hscan] at hnested
  · rw [hrest]
    exact hdigits.trans (List.suffix_append _ _).isInfix

theorem Moves.bind {result : Except ReadError (α × Cursor)} {f : α × Cursor → Except ReadError (β × Cursor)}
    {middle : α → Spot × Nat} {stop : β → Spot × Nat} (h : Moves start c middle result)
    (hf : ∀ value c', Passes start c (middle value) c' → Moves (middle value) c' stop (f (value, c'))) :
    Moves start c stop (result >>= f) := by
  match result, h with
  | .ok (value, c'), h =>
    have hnext := hf value c' h
    change Moves start c stop (f (value, c'))
    match f (value, c'), hnext with
    | .ok (value', c''), hnext => exact h.trans hnext
    | .error (.malformed _ _), _ => exact trivial
  | .error (.malformed _ _), _ => exact trivial

/-- What is passed first takes no part in what is read then. -/
theorem Moves.of_passes {result : Except ReadError (α × Cursor)} {stop : α → Spot × Nat}
    (h : Passes start c middle c') (hresult : Moves middle c' stop result) : Moves start c stop result := by
  match result, hresult with
  | .ok (value, c''), hresult => exact h.trans hresult
  | .error (.malformed _ _), _ => exact trivial

/-- A character that neither a bracket nor a quote is. -/
def isPlain (c : Char) : Bool :=
  c ∉ ['\x22', '[', '\x7b', ']', '\x7d']

private theorem scanStep_of_isPlain {ch : Char} (h : isPlain ch) :
    scanStep (.outside, levels) ch = some (.outside, levels) := by
  simp only [isPlain, List.mem_cons, List.not_mem_nil, or_false, not_or, decide_eq_true_eq] at h
  simp [scanStep, h]

theorem passes_advance_of_isPlain {n : Nat} (h : ∀ ch ∈ c.rest.take n, isPlain ch) :
    Passes (.outside, levels) c (.outside, levels) (c.advance n) :=
  .advance (scan_of_forall fun ch hch => scanStep_of_isPlain (h ch hch))

theorem passes_skipSpace : Passes (.outside, levels) c (.outside, levels) c.skipSpace := by
  refine passes_advance_of_isPlain fun ch hch => ?_
  have hspaces := List.takeWhile_prefix isSpace (l := c.rest)
  rw [← List.prefix_iff_eq_take.1 hspaces] at hch
  have hspace := List.mem_takeWhile_imp hch
  simp only [isSpace, Bool.or_eq_true, beq_iff_eq] at hspace
  obtain ((rfl | rfl) | rfl) | rfl := hspace <;> decide

theorem moves_readSeparator {closing : Char} (hclosing : closing = ']' ∨ closing = '\x7d') (c : Cursor) :
    Moves (.outside, levels) c (fun more => (.outside, if more then levels else levels + 1))
      (readSeparator closing c) := by
  refine .of_passes passes_skipSpace ?_
  unfold readSeparator
  simp only
  split
  · next ch rest hrest =>
    split
    · next heq =>
      refine .advance ?_
      rw [hrest, heq]
      obtain rfl | rfl := hclosing <;> rfl
    · split
      · next hcomma =>
        have hcomma : Passes (.outside, levels) c.skipSpace (.outside, levels) (c.skipSpace.advance 1) :=
          passes_advance_of_isPlain (by simp [hrest, hcomma, isPlain])
        exact hcomma.trans passes_skipSpace
      · exact trivial
  · exact trivial

/-- The first characters of a text are plain. -/
def PlainFor (text : Text) (n : Nat) : Prop :=
  ∀ ch ∈ text.take n, isPlain ch

theorem PlainFor.add {a b : Nat} (ha : PlainFor text a) (hb : PlainFor (text.drop a) b) : PlainFor text (a + b) := by
  intro ch hch
  rw [List.take_add, List.mem_append] at hch
  exact hch.elim (ha ch) (hb ch)

theorem isPlain_of_isDigit {ch : Char} (h : ch.isDigit) : isPlain ch := by
  by_contra hplain
  simp only [isPlain, List.mem_cons, List.not_mem_nil, or_false, not_or, decide_eq_true_eq, not_and_or,
    not_not] at hplain
  obtain rfl | rfl | rfl | rfl | rfl := hplain <;> cases h

theorem plainFor_takeWhile_isDigit (text : Text) : PlainFor text (text.takeWhile Char.isDigit).length := by
  intro ch hch
  rw [← List.prefix_iff_eq_take.1 (List.takeWhile_prefix _)] at hch
  exact isPlain_of_isDigit (List.mem_takeWhile_imp hch)

private theorem plainFor_fraction? (text : Text) : PlainFor text (((fraction? text).map (·.length + 1)).getD 0) := by
  unfold fraction?
  split
  · next rest =>
    simp only
    split
    · simp [PlainFor]
    · simp only [Option.map_some, Option.getD_some, Nat.add_comm _ 1]
      have hpoint : PlainFor ('.' :: rest) 1 := by simp [PlainFor, isPlain]
      exact hpoint.add (plainFor_takeWhile_isDigit rest)
  · simp [PlainFor]

private theorem plainFor_exponent? (text : Text) :
    PlainFor text (((exponent? text).map fun e => e.2.2.length + 1 + if e.1 then 1 else 0).getD 0) := by
  unfold exponent?
  split
  · next mark rest =>
    split
    · next hmark =>
      have hmarked : PlainFor (mark :: rest) 1 := by
        obtain rfl | rfl := hmark <;> simp [PlainFor, isPlain]
      by_cases hsigned : rest.head? = some '+' ∨ rest.head? = some '-'
      · have hsign : PlainFor rest 1 := by
          obtain hsigned | hsigned := hsigned
          all_goals
            obtain ⟨_, rfl⟩ := List.head?_eq_some_iff.1 hsigned
            simp [PlainFor, isPlain]
        have hall := hmarked.add (hsign.add (plainFor_takeWhile_isDigit (rest.drop 1)))
        simp only [hsigned, if_true, decide_true]
        split
        · simp [PlainFor]
        · rwa [← Nat.add_assoc, Nat.add_comm, ← Nat.add_assoc] at hall
      · have hall := hmarked.add (plainFor_takeWhile_isDigit rest)
        simp only [hsigned, if_false, decide_false]
        split
        · simp [PlainFor]
        · rwa [Nat.add_comm] at hall
    · simp [PlainFor]
  · simp [PlainFor]

/-- The length of a number is that of its parts, and its integer is a run of digits. -/
theorem numeral?_eq_some {numeral : Numeral} {length : Nat} (h : numeral? text = some (numeral, length)) :
    PlainFor text length ∧ numeral.whole <:+: text ∧ ∀ ch ∈ numeral.whole, ch.isDigit := by
  unfold numeral? at h
  simp only at h
  split at h
  · cases h
  next first others hdigits =>
  have hsign : PlainFor text (if decide (text.head? = some '-') then 1 else 0) := by
    split
    · next hminus =>
      obtain ⟨_, rfl⟩ := List.head?_eq_some_iff.1 (of_decide_eq_true hminus)
      simp [PlainFor, isPlain]
    · simp [PlainFor]
  have hunsigned : (if decide (text.head? = some '-') then text.drop 1 else text) =
      text.drop (if decide (text.head? = some '-') then 1 else 0) := by
    split <;> rfl
  rw [hunsigned] at h hdigits
  generalize hafter : text.drop (if decide (text.head? = some '-') then 1 else 0) = unsigned at h hdigits
  generalize hwhole : (if first = '0' then ['0'] else unsigned.takeWhile Char.isDigit) = whole at h
  cases h
  have hwithin : whole <+: unsigned.takeWhile Char.isDigit := by
    rw [← hwhole, hdigits]
    split
    · next hzero => simp [hzero]
    · exact List.prefix_refl _
  have hall : ∀ ch ∈ whole, ch.isDigit := fun ch hch => List.mem_takeWhile_imp (hwithin.subset hch)
  have hfront := hwithin.trans (List.takeWhile_prefix _)
  have hplain : PlainFor unsigned whole.length := by
    intro ch hch
    rw [← List.prefix_iff_eq_take.1 hfront] at hch
    exact isPlain_of_isDigit (hall ch hch)
  refine ⟨?_, ?_, hall⟩
  · have hfraction := hplain.add (plainFor_fraction? (unsigned.drop whole.length))
    have hexponent := hfraction.add (by rw [← List.drop_drop]; exact plainFor_exponent? _)
    rw [← hafter] at hexponent
    have hparts := hsign.add hexponent
    rw [← Nat.add_assoc, ← Nat.add_assoc, hafter] at hparts
    unfold Numeral.length
    convert hparts using 2
    cases exponent? _ <;> rfl
  · rw [← hafter] at hfront
    exact hfront.isInfix.trans (List.drop_suffix _ _).isInfix

private theorem moves_readNumber (hfits : Fits (.outside, levels) c.rest) :
    Moves (.outside, levels) c (fun _ => (.outside, levels)) (readNumber c) := by
  unfold readNumber
  split
  · exact trivial
  · next numeral length hnumeral =>
    obtain ⟨hplain, hwhole, hdigits⟩ := numeral?_eq_some hnumeral
    have hshort := hfits.short numeral.whole hwhole hdigits
    have hpasses : Passes (.outside, levels) c (.outside, levels) (c.advance length) :=
      passes_advance_of_isPlain hplain
    unfold Numeral.value
    split
    · rw [if_neg (by omega)]
      exact hpasses
    · exact hpasses

private theorem moves_readScalar (hfits : Fits (.outside, levels) c.rest) :
    Moves (.outside, levels) c (fun _ => (.outside, levels)) (readScalar c) := by
  unfold readScalar
  split
  · next name value hfind =>
    have hliterals : ∀ literal ∈ literals, ∀ ch ∈ literal.1, isPlain ch := by simp [literals, isPlain]
    have hplain := hliterals _ (List.mem_of_find?_eq_some hfind)
    have hname : name <+: c.rest := by simpa using List.find?_some hfind
    refine passes_advance_of_isPlain fun ch hch => hplain ch ?_
    rwa [← List.prefix_iff_eq_take.1 hname] at hch
  · exact moves_readNumber hfits

theorem scanStep_inside {ch : Char} (hquote : ch ≠ '\x22') (hbackslash : ch ≠ '\\') :
    scanStep (.inside, levels) ch = some (.inside, levels) := by
  simp [scanStep, hquote, hbackslash]

private theorem not_special_of_foldlM {digits : Text} {n code : Nat}
    (h : digits.foldlM (fun n ch => (hexDigit? ch).map (16 * n + ·)) n = some code) :
    ∀ ch ∈ digits, ch ≠ '\x22' ∧ ch ≠ '\\' := by
  induction digits generalizing n with
  | nil => simp
  | cons first rest ih =>
    rw [List.foldlM_cons] at h
    cases hfirst : hexDigit? first with
    | none => simp [hfirst] at h
    | some digit =>
      rw [hfirst] at h
      refine List.forall_mem_cons.2 ⟨⟨?_, ?_⟩, ih h⟩
      · rintro rfl
        cases hfirst
      · rintro rfl
        cases hfirst

/-- The four digits of an escape end neither the string nor the escape. -/
theorem passes_unitEscape {digits : Text} {code : Nat} (hrest : c.rest = '\\' :: 'u' :: digits)
    (hcode : hexNumber? (digits.take 4) = some code) :
    Passes (.inside, levels) c (.inside, levels) (c.advance 6) := by
  have hdigits : scan (.inside, levels) (digits.take 4) = some (.inside, levels) := by
    refine scan_of_forall fun ch hch => ?_
    obtain ⟨hquote, hbackslash⟩ := not_special_of_foldlM hcode ch hch
    exact scanStep_inside hquote hbackslash
  refine .advance ?_
  rw [hrest]
  exact hdigits

theorem hexNumber?_of_escapedUnit? {rest : Text} {code : Nat} (h : escapedUnit? rest = some code) :
    hexNumber? (rest.take 4) = some code := by
  unfold escapedUnit? at h
  split at h
  · cases h
  · exact h

/-- A low surrogate comes from an escape; an escape that is none is a fault at most. -/
theorem lowSurrogate?_cases (position : Nat) (rest : Text) :
    (∃ low digits code, lowSurrogate? position rest = .ok (some low) ∧ rest = '\\' :: 'u' :: digits ∧
      hexNumber? (digits.take 4) = some code) ∨
    lowSurrogate? position rest = .ok none ∨
    ∃ fault spot, lowSurrogate? position rest = .error (.malformed fault spot) := by
  unfold lowSurrogate?
  split
  · next digits =>
    split
    · exact .inr (.inl rfl)
    · split
      · exact .inr (.inr ⟨_, _, rfl⟩)
      · next code hcode =>
        split
        · exact .inl ⟨code, digits, code, rfl, rfl, hcode⟩
        · exact .inr (.inl rfl)
  · exact .inr (.inl rfl)

/-- A string is passed up to its closing quote. -/
theorem moves_stringFrom (start fuel : Nat) (c : Cursor) (codes : List Nat) :
    Moves (.inside, levels) c (fun _ => (.outside, levels)) (stringFrom start fuel c codes) := by
  fun_induction stringFrom start fuel c codes with
  | case3 fuel c codes rest hrest =>
    refine .advance ?_
    rw [hrest]
    rfl
  | case6 fuel c codes rest hrest high hunit after hhigh ihpair ihsingle =>
    refine .of_passes (passes_unitEscape hrest (hexNumber?_of_escapedUnit? hunit)) ?_
    obtain ⟨low, digits, code, hlow, hafter, hdigits⟩ | hnone | ⟨fault, spot, herror⟩ :=
      lowSurrogate?_cases after.position after.rest
    · rw [hlow]
      exact .of_passes (passes_unitEscape hafter hdigits) (ihpair low)
    · rw [hnone]
      exact ihsingle
    · rw [herror]
      exact trivial
  | case7 fuel c codes rest hrest high hunit after hhigh ih =>
    exact .of_passes (passes_unitEscape hrest (hexNumber?_of_escapedUnit? hunit)) ih
  | case9 fuel c codes ch rest hunit hrest meant hmeant ih =>
    refine .of_passes (.advance ?_) ih
    rw [hrest]
    rfl
  | case11 fuel c codes ch rest hquote hlast hunit hescape hrest hcontrol ih =>
    have hbackslash : ch ≠ '\\' := by
      rintro rfl
      cases rest with
      | nil => exact hlast rfl rfl
      | cons next others => exact hescape next others rfl rfl
    refine .of_passes (.advance ?_) ih
    rw [hrest]
    exact scan_of_forall (by simpa using scanStep_inside hquote hbackslash)
  | _ => exact trivial

theorem moves_readString {fuel : Nat} (hquote : c.rest.head? = some '\x22') :
    Moves (.outside, levels) c (fun _ => (.outside, levels)) (readString fuel c) := by
  obtain ⟨rest, hrest⟩ := List.head?_eq_some_iff.1 hquote
  have hopen : Passes (.outside, levels) c (.inside, levels) (c.advance 1) := by
    refine .advance ?_
    rw [hrest]
    rfl
  exact .of_passes hopen ((moves_stringFrom c.position fuel (c.advance 1) []).bind fun _ _ _ => .refl _ _)

private theorem moves_readName {fuel : Nat} (c : Cursor) :
    Moves (.outside, levels) c (fun _ => (.outside, levels)) (readName fuel c) := by
  unfold readName
  split
  · next hquote =>
    refine (moves_readString hquote).bind fun name c' _ => ?_
    refine .of_passes passes_skipSpace ?_
    simp only
    split
    · next hcolon =>
      obtain ⟨rest, hrest⟩ := List.head?_eq_some_iff.1 hcolon
      have hpasses : Passes (.outside, levels) c'.skipSpace (.outside, levels) (c'.skipSpace.advance 1) :=
        passes_advance_of_isPlain (by simp [hrest, isPlain])
      exact hpasses.trans passes_skipSpace
    · exact trivial
  · exact trivial

/-- Values with so many levels below them are passed. -/
def ValuesMove (fuel : Nat) : Prop :=
  ∀ levels c, Fits (.outside, levels) c.rest →
    Moves (.outside, levels) c (fun _ => (.outside, levels)) (readValue fuel levels c)

/-- Items are passed with the bracket that closes them. -/
def ItemsMove (fuel : Nat) : Prop :=
  ∀ levels c, Fits (.outside, levels) c.rest →
    Moves (.outside, levels) c (fun _ => (.outside, levels + 1)) (readItems fuel levels c)

/-- Members are passed with the brace that closes them. -/
def MembersMove (fuel : Nat) : Prop :=
  ∀ levels c members, Fits (.outside, levels) c.rest →
    Moves (.outside, levels) c (fun _ => (.outside, levels + 1)) (readMembers fuel levels c members)

private theorem itemsMove_succ {fuel : Nat} (hvalue : ValuesMove fuel) (hitems : ItemsMove fuel) : ItemsMove (fuel + 1) := by
  intro levels c hfits
  rw [readItems]
  refine (hvalue levels c hfits).bind fun item c₁ h₁ => ?_
  refine (moves_readSeparator (.inl rfl) c₁).bind fun more c₂ h₂ => ?_
  cases more with
  | true => exact (hitems levels c₂ ((hfits.of_passes h₁).of_passes h₂)).bind fun _ _ _ => .refl _ _
  | false => exact .refl _ _

private theorem membersMove_succ {fuel : Nat} (hvalue : ValuesMove fuel) (hmembers : MembersMove fuel) :
    MembersMove (fuel + 1) := by
  intro levels c members hfits
  rw [readMembers]
  refine (moves_readName c).bind fun name c₁ h₁ => ?_
  refine (hvalue levels c₁ (hfits.of_passes h₁)).bind fun value c₂ h₂ => ?_
  refine (moves_readSeparator (.inr rfl) c₂).bind fun more c₃ h₃ => ?_
  cases more with
  | true => exact hmembers levels c₃ _ (((hfits.of_passes h₁).of_passes h₂).of_passes h₃)
  | false => exact .refl _ _

theorem not_fits_zero {bracket : Char} {rest : Text} (hbracket : bracket = '[' ∨ bracket = '\x7b') :
    ¬ Fits (.outside, 0) (bracket :: rest) := by
  intro hfits
  have hnested := hfits.nested
  obtain rfl | rfl := hbracket <;> cases hnested

/-- What stands between brackets is one level deeper. -/
theorem moves_bracketed {opening closing : Char} {rest : Text} (hopening : opening = '[' ∨ opening = '\x7b')
    (hclosing : closing = ']' ∨ closing = '\x7d') (hrest : c.rest = opening :: rest)
    (hfits : Fits (.outside, levels + 1) c.rest) {empty : α} {fill : β → α} {inner : Except ReadError (β × Cursor)}
    (hinner : Fits (.outside, levels) (c.advance 1).skipSpace.rest →
      Moves (.outside, levels) (c.advance 1).skipSpace (fun _ => (.outside, levels + 1)) inner) :
    Moves (.outside, levels + 1) c (fun _ => (.outside, levels + 1))
      (if (c.advance 1).skipSpace.rest.head? = some closing then
        .ok (empty, (c.advance 1).skipSpace.advance 1)
      else do
        let (content, after) ← inner
        return (fill content, after)) := by
  have hopen : Passes (.outside, levels + 1) c (.outside, levels) (c.advance 1).skipSpace := by
    refine .trans (.advance ?_) passes_skipSpace
    rw [hrest]
    obtain rfl | rfl := hopening <;> rfl
  refine .of_passes hopen ?_
  split
  · next hclose =>
    obtain ⟨rest, hrest⟩ := List.head?_eq_some_iff.1 hclose
    refine .advance ?_
    rw [hrest]
    obtain rfl | rfl := hclosing <;> rfl
  · exact (hinner (hfits.of_passes hopen)).bind fun _ _ _ => .refl _ _

private theorem valuesMove_succ {fuel : Nat} (hitems : ItemsMove fuel) (hmembers : MembersMove fuel) :
    ValuesMove (fuel + 1) := by
  intro levels c hfits
  unfold readValue
  split
  · next hrest => exact (moves_readString (by rw [hrest]; rfl)).bind fun _ _ _ => .refl _ _
  · next hrest =>
    rw [hrest] at hfits
    exact absurd hfits (not_fits_zero (.inl rfl))
  · next hrest =>
    rw [hrest] at hfits
    exact absurd hfits (not_fits_zero (.inr rfl))
  · next rest levels hrest => exact moves_bracketed (.inl rfl) (.inl rfl) hrest hfits (hitems levels _)
  · next rest levels hrest => exact moves_bracketed (.inr rfl) (.inr rfl) hrest hfits (hmembers levels _ [])
  · exact moves_readScalar hfits

private theorem all_move (fuel : Nat) : ValuesMove fuel ∧ ItemsMove fuel ∧ MembersMove fuel := by
  induction fuel with
  | zero =>
    refine ⟨fun _ _ _ => ?_, fun _ _ _ => ?_, fun _ _ _ _ => ?_⟩
    · rw [readValue]
      exact trivial
    · rw [readItems]
      exact trivial
    · rw [readMembers]
      exact trivial
  | succ fuel ih =>
    obtain ⟨hvalue, hitems, hmembers⟩ := ih
    exact ⟨valuesMove_succ hitems hmembers, itemsMove_succ hvalue hitems, membersMove_succ hvalue hmembers⟩

/-- A text with brackets that are not nested too deep and without long runs of digits is never beyond the
limits of the reader. -/
theorem readNested_ne_beyond (hfits : Fits (.outside, levels) text) (limit : Limit) :
    readNested levels text ≠ .error (.beyond limit) := by
  have hstart : Passes (.outside, levels) ⟨0, text⟩ (.outside, levels) (Cursor.mk 0 text).skipSpace := passes_skipSpace
  have hvalue := (all_move (2 * text.length + 1)).1 levels _ (hfits.of_passes hstart)
  unfold readNested
  split
  · exact nofun
  intro hread
  simp only at hread
  generalize readValue (2 * text.length + 1) levels (Cursor.mk 0 text).skipSpace = result at hvalue hread
  match result, hvalue with
  | .ok (value, after), _ =>
    change (if after.skipSpace.rest.isEmpty then pure value
      else throw (.malformed .extra after.skipSpace.position)) = Except.error (ReadError.beyond limit) at hread
    split at hread <;> cases hread
  | .error (.malformed fault position), _ => cases hread

end TagStamp.Json
