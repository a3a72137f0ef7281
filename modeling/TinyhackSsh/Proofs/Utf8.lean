import TinyhackSsh.Spec.Wire

/-! UTF-8 decoding inverts encoding: the encoder's bytes meet exactly the range
tests of the decoder's branch for their length. -/

namespace Tinyhack.Wire

theorem encodeUtf8_append (s t : JString) : encodeUtf8 (s ++ t) = encodeUtf8 s ++ encodeUtf8 t := List.flatMap_append

private theorem toNat_byte {n : ℕ} (h : n < 256) : (UInt8.ofNat n).toNat = n := by
  simpa using Nat.mod_eq_of_lt h

/-- Characters are Unicode scalar values. -/
private theorem scalar_cases (c : Char) : c.toNat < 0xD800 ∨ (0xDFFF < c.toNat ∧ c.toNat < 0x110000) := by
  have h := c.valid
  simpa [UInt32.isValidChar, Nat.isValidChar] using h

section Bounds

variable {a b lead lo lo' hi hi' : UInt8} {n : ℕ}

private theorem between (hb : b.toNat = n) (h : lo.toNat ≤ n ∧ n ≤ hi.toNat) : lo ≤ b ∧ b ≤ hi := by
  rw [UInt8.le_iff_toNat_le, UInt8.le_iff_toNat_le, hb]
  exact h

private theorem not_between (hb : b.toNat = n) (h : hi.toNat < n) : ¬ (lo ≤ b ∧ b ≤ hi) := by
  rw [UInt8.le_iff_toNat_le, UInt8.le_iff_toNat_le, hb]
  omega

/-- A lower bound that is raised after one lead byte. -/
private theorem ite_le_byte (hb : b.toNat = n) (hlead : a = lead → lo.toNat ≤ n) (h : lo'.toNat ≤ n) :
    (if a = lead then lo else lo') ≤ b := by
  rw [UInt8.le_iff_toNat_le, hb]
  split_ifs with ha
  · exact hlead ha
  · exact h

/-- An upper bound that is lowered after one lead byte. -/
private theorem byte_le_ite (hb : b.toNat = n) (hlead : a = lead → n ≤ hi.toNat) (h : n ≤ hi'.toNat) :
    b ≤ (if a = lead then hi else hi') := by
  rw [UInt8.le_iff_toNat_le, hb]
  split_ifs with ha
  · exact hlead ha
  · exact h

end Bounds

private theorem continuation {b : UInt8} {m : ℕ} (hb : b.toNat = m % 0x40 + 0x80) : isContinuation b = true := by
  simp only [isContinuation, Bool.and_eq_true, decide_eq_true_eq, UInt8.le_iff_toNat_le, hb]
  refine ⟨?_, ?_⟩
  · simp
  · simp only [UInt8.reduceToNat]
    omega

theorem utf8EncodeChar_of_le {c : Char} (h : c.toNat ≤ 0x7f) : String.utf8EncodeChar c = [UInt8.ofNat c.toNat] := by
  unfold String.utf8EncodeChar
  simp only [Char.toNat] at h ⊢
  rw [if_pos h]

theorem decodeChar_one (c : Char) (rest : Bytes) (h : c.toNat ≤ 0x7f) :
    decodeChar (String.utf8EncodeChar c ++ rest) = (c, (String.utf8EncodeChar c).length) := by
  have ha : (UInt8.ofNat c.toNat).toNat = c.toNat := toNat_byte (by omega)
  rw [utf8EncodeChar_of_le h]
  generalize UInt8.ofNat c.toNat = a at ha ⊢
  have hlt : a < 0x80 := by
    rw [UInt8.lt_iff_toNat_lt, ha]
    simp only [UInt8.reduceToNat]
    omega
  simp [decodeChar, hlt, ha]

theorem decodeChar_two (c : Char) (rest : Bytes) (h1 : ¬ c.toNat ≤ 0x7f) (h2 : c.toNat ≤ 0x7ff) :
    decodeChar (String.utf8EncodeChar c ++ rest) = (c, (String.utf8EncodeChar c).length) := by
  have henc : String.utf8EncodeChar c =
      [UInt8.ofNat (c.toNat / 64 % 0x20 + 0xc0), UInt8.ofNat (c.toNat % 0x40 + 0x80)] := by
    unfold String.utf8EncodeChar
    simp only [Char.toNat] at h1 h2 ⊢
    rw [if_neg h1, if_pos h2]
  have ha : (UInt8.ofNat (c.toNat / 64 % 0x20 + 0xc0)).toNat = c.toNat / 64 % 0x20 + 0xc0 :=
    toNat_byte (by omega)
  have hb : (UInt8.ofNat (c.toNat % 0x40 + 0x80)).toNat = c.toNat % 0x40 + 0x80 := toNat_byte (by omega)
  rw [henc]
  generalize UInt8.ofNat (c.toNat / 64 % 0x20 + 0xc0) = a at ha ⊢
  generalize UInt8.ofNat (c.toNat % 0x40 + 0x80) = b at hb ⊢
  have hlt : ¬ a < 0x80 := by
    rw [UInt8.lt_iff_toNat_lt, ha]
    simp
  have htwo : 0xC2 ≤ a ∧ a ≤ 0xDF := between ha (by simp only [UInt8.reduceToNat]; omega)
  have hcode : codePoint (a.toNat % 32) [b] = c := by
    simp only [codePoint, List.foldl_cons, List.foldl_nil, ha, hb]
    rw [show (c.toNat / 64 % 0x20 + 0xc0) % 32 * 64 + (c.toNat % 0x40 + 0x80) % 64 = c.toNat by omega]
    exact Char.ofNat_toNat c
  simp [decodeChar, hlt, htwo, continuation hb, hcode]

theorem decodeChar_three (c : Char) (rest : Bytes) (h2 : ¬ c.toNat ≤ 0x7ff) (h3 : c.toNat ≤ 0xffff) :
    decodeChar (String.utf8EncodeChar c ++ rest) = (c, (String.utf8EncodeChar c).length) := by
  have henc : String.utf8EncodeChar c =
      [UInt8.ofNat (c.toNat / 4096 % 0x10 + 0xe0), UInt8.ofNat (c.toNat / 64 % 0x40 + 0x80),
       UInt8.ofNat (c.toNat % 0x40 + 0x80)] := by
    unfold String.utf8EncodeChar
    simp only [Char.toNat] at h2 h3 ⊢
    rw [if_neg (by omega), if_neg h2, if_pos h3]
  have ha : (UInt8.ofNat (c.toNat / 4096 % 0x10 + 0xe0)).toNat = c.toNat / 4096 % 0x10 + 0xe0 :=
    toNat_byte (by omega)
  have hb : (UInt8.ofNat (c.toNat / 64 % 0x40 + 0x80)).toNat = c.toNat / 64 % 0x40 + 0x80 :=
    toNat_byte (by omega)
  have hd : (UInt8.ofNat (c.toNat % 0x40 + 0x80)).toNat = c.toNat % 0x40 + 0x80 := toNat_byte (by omega)
  rw [henc]
  generalize UInt8.ofNat (c.toNat / 4096 % 0x10 + 0xe0) = a at ha ⊢
  generalize UInt8.ofNat (c.toNat / 64 % 0x40 + 0x80) = b at hb ⊢
  generalize UInt8.ofNat (c.toNat % 0x40 + 0x80) = d at hd ⊢
  have hlt : ¬ a < 0x80 := by
    rw [UInt8.lt_iff_toNat_lt, ha]
    simp
  have htwo : ¬ (0xC2 ≤ a ∧ a ≤ 0xDF) := not_between ha (by simp only [UInt8.reduceToNat]; omega)
  have hthree : 0xE0 ≤ a ∧ a ≤ 0xEF := between ha (by simp only [UInt8.reduceToNat]; omega)
  -- no overlong form and no surrogate
  have hlo : (if a = 0xE0 then 0xA0 else 0x80 : UInt8) ≤ b := by
    refine ite_le_byte hb (fun h0 => ?_) (by simp)
    have hlead : c.toNat / 4096 % 0x10 + 0xe0 = 0xE0 := by simpa [h0] using ha.symm
    simp only [UInt8.reduceToNat]
    omega
  have hhi : b ≤ (if a = 0xED then 0x9F else 0xBF : UInt8) := by
    refine byte_le_ite hb (fun h0 => ?_) (by simp only [UInt8.reduceToNat]; omega)
    have hlead : c.toNat / 4096 % 0x10 + 0xe0 = 0xED := by simpa [h0] using ha.symm
    have hs := scalar_cases c
    simp only [UInt8.reduceToNat]
    omega
  have hcode : codePoint (a.toNat % 16) [b, d] = c := by
    simp only [codePoint, List.foldl_cons, List.foldl_nil, ha, hb, hd]
    rw [show ((c.toNat / 4096 % 0x10 + 0xe0) % 16 * 64 + (c.toNat / 64 % 0x40 + 0x80) % 64) * 64 +
      (c.toNat % 0x40 + 0x80) % 64 = c.toNat by omega]
    exact Char.ofNat_toNat c
  simp [decodeChar, hlt, htwo, hthree, hlo, hhi, continuation hd, hcode]

theorem decodeChar_four (c : Char) (rest : Bytes) (h3 : ¬ c.toNat ≤ 0xffff) :
    decodeChar (String.utf8EncodeChar c ++ rest) = (c, (String.utf8EncodeChar c).length) := by
  have hs := scalar_cases c
  have henc : String.utf8EncodeChar c =
      [UInt8.ofNat (c.toNat / 262144 % 0x08 + 0xf0), UInt8.ofNat (c.toNat / 4096 % 0x40 + 0x80),
       UInt8.ofNat (c.toNat / 64 % 0x40 + 0x80), UInt8.ofNat (c.toNat % 0x40 + 0x80)] := by
    unfold String.utf8EncodeChar
    simp only [Char.toNat] at h3 ⊢
    rw [if_neg (by omega), if_neg (by omega), if_neg h3]
  have ha : (UInt8.ofNat (c.toNat / 262144 % 0x08 + 0xf0)).toNat = c.toNat / 262144 % 0x08 + 0xf0 :=
    toNat_byte (by omega)
  have hb : (UInt8.ofNat (c.toNat / 4096 % 0x40 + 0x80)).toNat = c.toNat / 4096 % 0x40 + 0x80 :=
    toNat_byte (by omega)
  have hd : (UInt8.ofNat (c.toNat / 64 % 0x40 + 0x80)).toNat = c.toNat / 64 % 0x40 + 0x80 :=
    toNat_byte (by omega)
  have he : (UInt8.ofNat (c.toNat % 0x40 + 0x80)).toNat = c.toNat % 0x40 + 0x80 := toNat_byte (by omega)
  rw [henc]
  generalize UInt8.ofNat (c.toNat / 262144 % 0x08 + 0xf0) = a at ha ⊢
  generalize UInt8.ofNat (c.toNat / 4096 % 0x40 + 0x80) = b at hb ⊢
  generalize UInt8.ofNat (c.toNat / 64 % 0x40 + 0x80) = d at hd ⊢
  generalize UInt8.ofNat (c.toNat % 0x40 + 0x80) = e at he ⊢
  have hlt : ¬ a < 0x80 := by
    rw [UInt8.lt_iff_toNat_lt, ha]
    simp
  have htwo : ¬ (0xC2 ≤ a ∧ a ≤ 0xDF) := not_between ha (by simp only [UInt8.reduceToNat]; omega)
  have hthree : ¬ (0xE0 ≤ a ∧ a ≤ 0xEF) := not_between ha (by simp only [UInt8.reduceToNat]; omega)
  have hfour : 0xF0 ≤ a ∧ a ≤ 0xF4 := between ha (by simp only [UInt8.reduceToNat]; omega)
  have hlo : (if a = 0xF0 then 0x90 else 0x80 : UInt8) ≤ b := by
    refine ite_le_byte hb (fun h0 => ?_) (by simp)
    have hlead : c.toNat / 262144 % 0x08 + 0xf0 = 0xF0 := by simpa [h0] using ha.symm
    simp only [UInt8.reduceToNat]
    omega
  have hhi : b ≤ (if a = 0xF4 then 0x8F else 0xBF : UInt8) := by
    refine byte_le_ite hb (fun h0 => ?_) (by simp only [UInt8.reduceToNat]; omega)
    have hlead : c.toNat / 262144 % 0x08 + 0xf0 = 0xF4 := by simpa [h0] using ha.symm
    simp only [UInt8.reduceToNat]
    omega
  have hcode : codePoint (a.toNat % 8) [b, d, e] = c := by
    simp only [codePoint, List.foldl_cons, List.foldl_nil, ha, hb, hd, he]
    rw [show (((c.toNat / 262144 % 0x08 + 0xf0) % 8 * 64 + (c.toNat / 4096 % 0x40 + 0x80) % 64) * 64 +
      (c.toNat / 64 % 0x40 + 0x80) % 64) * 64 + (c.toNat % 0x40 + 0x80) % 64 = c.toNat by omega]
    exact Char.ofNat_toNat c
  simp [decodeChar, hlt, htwo, hthree, hfour, hlo, hhi, continuation hd, continuation he, hcode]

theorem decodeChar_encode (c : Char) (rest : Bytes) :
    decodeChar (String.utf8EncodeChar c ++ rest) = (c, (String.utf8EncodeChar c).length) := by
  by_cases h1 : c.toNat ≤ 0x7f
  · exact decodeChar_one c rest h1
  · by_cases h2 : c.toNat ≤ 0x7ff
    · exact decodeChar_two c rest h1 h2
    · by_cases h3 : c.toNat ≤ 0xffff
      · exact decodeChar_three c rest h2 h3
      · exact decodeChar_four c rest h3

theorem decodeUtf8_go_encode (s : JString) (fuel : ℕ) (h : (encodeUtf8 s).length ≤ fuel) :
    decodeUtf8.go fuel (encodeUtf8 s) = s := by
  induction s generalizing fuel with
  | nil => cases fuel <;> rfl
  | cons c s ih =>
    have henc : encodeUtf8 (c :: s) = String.utf8EncodeChar c ++ encodeUtf8 s := rfl
    rw [henc, List.length_append] at h
    rw [henc]
    obtain ⟨b, bs, hc⟩ := List.exists_cons_of_ne_nil (String.utf8EncodeChar_ne_nil (c := c))
    cases fuel with
    | zero => simp [hc] at h
    | succ fuel =>
      have hstep : decodeUtf8.go (fuel + 1) (String.utf8EncodeChar c ++ encodeUtf8 s) =
          (decodeChar (String.utf8EncodeChar c ++ encodeUtf8 s)).1 :: decodeUtf8.go fuel
            ((String.utf8EncodeChar c ++ encodeUtf8 s).drop
              (decodeChar (String.utf8EncodeChar c ++ encodeUtf8 s)).2) := by
        rw [hc]
        rfl
      rw [hstep, decodeChar_encode, List.drop_left]
      rw [ih fuel (by rw [hc, List.length_cons] at h; omega)]

/-- `new String(s.getBytes(UTF_8), UTF_8)` is `s`. -/
theorem decodeUtf8_encodeUtf8 (s : JString) : decodeUtf8 (encodeUtf8 s) = s :=
  decodeUtf8_go_encode s _ (le_refl _)

end Tinyhack.Wire
