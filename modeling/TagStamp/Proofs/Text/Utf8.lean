import TagStamp.Text.Utf8

namespace TagStamp.Utf8

/-- The octets of one character, with its code point. -/
inductive Spells : List UInt8 → Nat → Prop
  | one {a : UInt8} {code : Nat} (ha : a.toNat < 0x80) (hcode : code = a.toNat) : Spells [a] code
  | two {a b : UInt8} {code : Nat} (ha : 0xc2 ≤ a.toNat ∧ a.toNat < 0xe0) (hb : isSecond a b)
      (hcode : code = extend (a.toNat % 32) b) : Spells [a, b] code
  | three {a b c : UInt8} {code : Nat} (ha : 0xe0 ≤ a.toNat ∧ a.toNat < 0xf0) (hb : isSecond a b)
      (hc : isContinuation c) (hcode : code = extend (extend (a.toNat % 16) b) c) : Spells [a, b, c] code
  | four {a b c d : UInt8} {code : Nat} (ha : 0xf0 ≤ a.toNat ∧ a.toNat ≤ 0xf4) (hb : isSecond a b)
      (hc : isContinuation c) (hd : isContinuation d)
      (hcode : code = extend (extend (extend (a.toNat % 8) b) c) d) : Spells [a, b, c, d] code

variable {a b : UInt8} {front octets : List UInt8} {code position : Nat} {text : Text}

theorem isContinuation_iff : isContinuation a ↔ 0x80 ≤ a.toNat ∧ a.toNat ≤ 0xbf := by
  simp [isContinuation, UInt8.le_iff_toNat_le]

theorem isSecond_iff : isSecond a b ↔
    (0x80 ≤ b.toNat ∧ b.toNat ≤ 0xbf) ∧ (a.toNat = 0xe0 → 0xa0 ≤ b.toNat) ∧ (a.toNat = 0xf0 → 0x90 ≤ b.toNat) ∧
      (a.toNat = 0xed → b.toNat ≤ 0x9f) ∧ (a.toNat = 0xf4 → b.toNat ≤ 0x8f) := by
  simp only [isSecond, Bool.and_eq_true, decide_eq_true_eq, UInt8.le_iff_toNat_le, ← UInt8.toNat_inj,
    apply_ite UInt8.toNat, UInt8.reduceToNat]
  split <;> split <;> (try split) <;> (try split) <;> omega

theorem Spells.isValidChar (h : Spells front code) : code.isValidChar := by
  cases h with
  | one ha hcode => exact .inl (by omega)
  | two ha hb hcode =>
    rw [isSecond_iff] at hb
    rw [extend] at hcode
    exact .inl (by omega)
  | three ha hb hc hcode =>
    rw [isSecond_iff] at hb
    rw [isContinuation_iff] at hc
    simp only [extend] at hcode
    unfold Nat.isValidChar
    omega
  | four ha hb hc hd hcode =>
    rw [isSecond_iff] at hb
    rw [isContinuation_iff] at hc hd
    simp only [extend] at hcode
    unfold Nat.isValidChar
    omega

/-- A character is spelled by its encoding. -/
theorem Spells.encode (h : Spells front code) : String.utf8EncodeChar (Char.ofNat code) = front := by
  have hvalue : (Char.ofNat code).val.toNat = code := by
    rw [Char.ofNat, dif_pos h.isValidChar]
    rfl
  rw [String.utf8EncodeChar, hvalue]
  cases h with
  | one ha hcode => rw [if_pos (by omega), hcode, UInt8.ofNat_toNat]
  | two ha hb hcode =>
    rw [isSecond_iff] at hb
    rw [extend] at hcode
    rw [if_neg (by omega), if_pos (by omega)]
    simp only [List.cons.injEq, ← UInt8.toNat_inj, UInt8.toNat_ofNat', and_true]
    omega
  | three ha hb hc hcode =>
    rw [isSecond_iff] at hb
    rw [isContinuation_iff] at hc
    simp only [extend] at hcode
    rw [if_neg (by omega), if_neg (by omega), if_pos (by omega)]
    simp only [List.cons.injEq, ← UInt8.toNat_inj, UInt8.toNat_ofNat', and_true]
    omega
  | four ha hb hc hd hcode =>
    rw [isSecond_iff] at hb
    rw [isContinuation_iff] at hc hd
    simp only [extend] at hcode
    rw [if_neg (by omega), if_neg (by omega), if_neg (by omega)]
    simp only [List.cons.injEq, ← UInt8.toNat_inj, UInt8.toNat_ofNat', and_true]
    omega

private theorem spells_utf8EncodeChar (c : Char) : Spells (String.utf8EncodeChar c) c.toNat := by
  have hvalid : c.val.toNat.isValidChar := c.valid
  have hcode : c.toNat = c.val.toNat := rfl
  rw [String.utf8EncodeChar, hcode]
  generalize c.val.toNat = code at hvalid
  unfold Nat.isValidChar at hvalid
  split
  · refine .one ?_ ?_ <;> simp only [UInt8.toNat_ofNat'] <;> omega
  split
  · refine .two ?_ ?_ ?_ <;> simp only [isSecond_iff, extend, UInt8.toNat_ofNat'] <;> omega
  split
  · refine .three ?_ ?_ ?_ ?_ <;> simp only [isSecond_iff, isContinuation_iff, extend, UInt8.toNat_ofNat'] <;> omega
  · refine .four ?_ ?_ ?_ ?_ ?_ <;> simp only [isSecond_iff, isContinuation_iff, extend, UInt8.toNat_ofNat'] <;> omega

theorem bind_pure_cons (result : Except Error Text) (c : Char) :
    (do return c :: (← result)) = result.map (c :: ·) := by
  cases result <;> rfl

/-- An octet that more octets of a character follow. -/
theorem not_lt_of_isStart (ha : 0xc2 ≤ a.toNat ∧ a.toNat ≤ 0xf4) :
    ¬ a < 0x80 ∧ (decide (a < 0xc2) || decide (0xf4 < a)) = false := by
  simp [UInt8.lt_iff_toNat_lt]
  omega

/-- Decoding takes one character after the other. -/
theorem decodeFrom_append (h : Spells front code) (position : Nat) (rest : List UInt8) :
    decodeFrom position (front ++ rest) =
      (decodeFrom (position + front.length) rest).map (Char.ofNat code :: ·) := by
  cases h with
  | @one a _ ha hcode =>
    have hone : a < 0x80 := by simpa [UInt8.lt_iff_toNat_lt] using ha
    rw [List.singleton_append, decodeFrom.eq_def, hcode]
    simp only [hone, if_true, bind_pure_cons]
    rfl
  | @two a b _ ha hb hcode =>
    obtain ⟨hone, hstart⟩ := not_lt_of_isStart (a := a) (by omega)
    have htwo : a < 0xe0 := by simpa [UInt8.lt_iff_toNat_lt] using ha.2
    rw [List.cons_append, List.singleton_append, decodeFrom.eq_def, hcode]
    simp only [hone, hstart, htwo, hb, if_true, if_false, Bool.false_eq_true, bind_pure_cons]
    rfl
  | @three a b c _ ha hb hc hcode =>
    obtain ⟨hone, hstart⟩ := not_lt_of_isStart (a := a) (by omega)
    have htwo : ¬ a < 0xe0 := by simpa [UInt8.lt_iff_toNat_lt] using ha.1
    have hthree : a < 0xf0 := by simpa [UInt8.lt_iff_toNat_lt] using ha.2
    rw [List.cons_append, List.cons_append, List.singleton_append, decodeFrom.eq_def, hcode]
    simp only [hone, hstart, htwo, hthree, hb, hc, if_true, if_false, Bool.false_eq_true, Bool.not_true,
      bind_pure_cons]
    rfl
  | @four a b c d _ ha hb hc hd hcode =>
    obtain ⟨hone, hstart⟩ := not_lt_of_isStart (a := a) (by omega)
    have htwo : ¬ a < 0xe0 := by simp [UInt8.lt_iff_toNat_lt]; omega
    have hthree : ¬ a < 0xf0 := by simpa [UInt8.lt_iff_toNat_lt] using ha.1
    rw [List.cons_append, List.cons_append, List.cons_append, List.singleton_append, decodeFrom.eq_def, hcode]
    simp only [hone, hstart, htwo, hthree, hb, hc, hd, if_true, if_false, Bool.false_eq_true, Bool.not_true,
      bind_pure_cons]
    rfl

private theorem decodeFrom_encode (text : Text) (position : Nat) : decodeFrom position (encode text) = .ok text := by
  induction text generalizing position with
  | nil => rfl
  | cons c rest ih =>
    have hcons : encode (c :: rest) = String.utf8EncodeChar c ++ encode rest := List.flatMap_cons
    rw [hcons, decodeFrom_append (spells_utf8EncodeChar c), ih, Char.ofNat_toNat]
    rfl

/-- A character that was taken from the front is encoded by what was taken. -/
theorem Spells.encode_cons (h : Spells front code) {result : Except Error Text} {rest : List UInt8}
    (hrest : ∀ text, result = .ok text → Utf8.encode text = rest)
    (htext : (do return Char.ofNat code :: (← result)) = .ok text) : Utf8.encode text = front ++ rest := by
  rw [bind_pure_cons] at htext
  cases result with
  | error error => cases htext
  | ok text' =>
    cases htext
    rw [← hrest text' rfl, ← h.encode]
    exact List.flatMap_cons

private theorem encode_of_decodeFrom (h : decodeFrom position octets = .ok text) : encode text = octets := by
  fun_induction decodeFrom position octets generalizing text with
  | case1 =>
    cases h
    rfl
  | case2 position a rest hone ih =>
    exact Spells.encode_cons (.one (by simpa [UInt8.lt_iff_toNat_lt] using hone) rfl) (fun _ => ih) h
  | case5 position a hone hstart htwo b rest hb ih =>
    simp only [Bool.or_eq_true, decide_eq_true_eq, UInt8.lt_iff_toNat_lt, UInt8.reduceToNat] at hstart htwo
    exact Spells.encode_cons (.two (by omega) hb rfl) (fun _ => ih) h
  | case12 position a hone hstart htwo hthree b c rest hb hc ih =>
    simp only [UInt8.lt_iff_toNat_lt, UInt8.reduceToNat] at htwo hthree
    exact Spells.encode_cons (.three (by omega) (by simpa using hb) (by simpa using hc) rfl) (fun _ => ih) h
  | case22 position a hone hstart htwo hthree b c d rest hb hc hd ih =>
    simp only [Bool.or_eq_true, decide_eq_true_eq, UInt8.lt_iff_toNat_lt, UInt8.reduceToNat] at hstart hthree
    exact Spells.encode_cons (.four (by omega) (by simpa using hb) (by simpa using hc) (by simpa using hd) rfl)
      (fun _ => ih) h
  | _ => cases h

/-- The octets that decode to a text are those that encode it, and no others. -/
theorem decode_eq_ok_iff : decode octets = .ok text ↔ encode text = octets := by
  constructor
  · exact encode_of_decodeFrom
  · rintro rfl
    exact decodeFrom_encode text 0

end TagStamp.Utf8
