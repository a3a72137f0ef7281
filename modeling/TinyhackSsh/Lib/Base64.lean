import Mathlib.Data.List.GetD
import Mathlib.Tactic

/-! Base64 with padding and without line breaks. The decoder skips characters
outside the alphabet and accepts a missing padding. -/

namespace Base64

def alphabet : List Char := "ABCDEFGHIJKLMNOPQRSTUVWXYZabcdefghijklmnopqrstuvwxyz0123456789+/".toList

/-- The character of a six-bit value. -/
def char (d : ℕ) : Char := alphabet.getD d '='

def encode : List UInt8 → List Char
  | [] => []
  | [a] => [char (a.toNat / 4), char (a.toNat % 4 * 16), '=', '=']
  | [a, b] =>
    [char (a.toNat / 4), char (a.toNat % 4 * 16 + b.toNat / 16), char (b.toNat % 16 * 4), '=']
  | a :: b :: c :: rest =>
    char (a.toNat / 4) :: char (a.toNat % 4 * 16 + b.toNat / 16) ::
      char (b.toNat % 16 * 4 + c.toNat / 64) :: char (c.toNat % 64) :: encode rest

inductive Digit
  | value (d : ℕ)
  | equals
  | skip
  deriving DecidableEq

def digit (c : Char) : Digit :=
  if c = '=' then .equals
  else if c ∈ alphabet then .value (alphabet.idxOf c)
  else .skip

/-- What the decoder has read of the current group. -/
inductive Group
  | zero
  | one (v : ℕ)
  | two (v : ℕ)
  | three (v : ℕ)
  /-- the second of two padding characters is missing -/
  | pad
  | padded
  deriving DecidableEq

def decodeFrom : Group → List Char → Option (List UInt8)
  | .zero, [] | .padded, [] => some []
  | .two v, [] => some [UInt8.ofNat (v / 16)]
  | .three v, [] => some [UInt8.ofNat (v / 1024), UInt8.ofNat (v / 4)]
  | .one _, [] | .pad, [] => none
  | g, c :: cs =>
    match g, digit c with
    | g, .skip => decodeFrom g cs
    | .zero, .value d => decodeFrom (.one d) cs
    | .one v, .value d => decodeFrom (.two (v * 64 + d)) cs
    | .two v, .value d => decodeFrom (.three (v * 64 + d)) cs
    | .two v, .equals => (decodeFrom .pad cs).map fun bs => UInt8.ofNat (v / 16) :: bs
    | .three v, .value d => (decodeFrom .zero cs).map fun bs =>
        UInt8.ofNat ((v * 64 + d) / 65536) :: UInt8.ofNat ((v * 64 + d) / 256) :: UInt8.ofNat (v * 64 + d) :: bs
    | .three v, .equals => (decodeFrom .padded cs).map fun bs =>
        UInt8.ofNat (v / 1024) :: UInt8.ofNat (v / 4) :: bs
    | .pad, .equals => decodeFrom .padded cs
    | _, _ => none

def decode (cs : List Char) : Option (List UInt8) := decodeFrom .zero cs

section Alphabet

-- a literal is `String.ofList` of its characters: nothing is decoded here
theorem alphabet_eq : alphabet = [
    'A', 'B', 'C', 'D', 'E', 'F', 'G', 'H', 'I', 'J', 'K', 'L', 'M', 'N', 'O', 'P',
    'Q', 'R', 'S', 'T', 'U', 'V', 'W', 'X', 'Y', 'Z', 'a', 'b', 'c', 'd', 'e', 'f',
    'g', 'h', 'i', 'j', 'k', 'l', 'm', 'n', 'o', 'p', 'q', 'r', 's', 't', 'u', 'v',
    'w', 'x', 'y', 'z', '0', '1', '2', '3', '4', '5', '6', '7', '8', '9', '+', '/'] :=
  String.toList_ofList

theorem length_alphabet : alphabet.length = 64 := by
  rw [alphabet_eq]
  rfl

theorem nodup_alphabet : alphabet.Nodup := by
  refine List.Nodup.of_map Char.toNat ?_
  rw [alphabet_eq]
  decide

theorem notMem_alphabet {c : Char} (h : c = '=' ∨ c = ':') : c ∉ alphabet := by
  rw [alphabet_eq]
  rcases h with rfl | rfl <;> decide

variable {d : ℕ}

theorem char_eq_get (h : d < 64) : char d = alphabet.get ⟨d, length_alphabet.symm ▸ h⟩ :=
  List.getD_eq_get _ _ ⟨d, length_alphabet.symm ▸ h⟩

theorem char_mem_alphabet (h : d < 64) : char d ∈ alphabet := by
  rw [char_eq_get h]
  exact List.get_mem _ _

theorem char_ne (h : d < 64) {c : Char} (hc : c ∉ alphabet) : char d ≠ c := by
  rintro rfl
  exact hc (char_mem_alphabet h)

theorem char_ne_equals (h : d < 64) : char d ≠ '=' := char_ne h (notMem_alphabet (.inl rfl))

theorem char_ne_colon (h : d < 64) : char d ≠ ':' := char_ne h (notMem_alphabet (.inr rfl))

theorem digit_char (h : d < 64) : digit (char d) = .value d := by
  rw [digit, if_neg (char_ne_equals h), if_pos (char_mem_alphabet h), char_eq_get h]
  exact congrArg Digit.value (nodup_alphabet.idxOf_getElem d _)

end Alphabet

section Groups

variable {d v : ℕ} {cs : List Char}

/-- A digit is put to the group; the fourth one ends it. -/
theorem decodeFrom_char (h : d < 64) (v : ℕ) (cs : List Char) :
    decodeFrom .zero (char d :: cs) = decodeFrom (.one d) cs ∧
      decodeFrom (.one v) (char d :: cs) = decodeFrom (.two (v * 64 + d)) cs ∧
      decodeFrom (.two v) (char d :: cs) = decodeFrom (.three (v * 64 + d)) cs ∧
      decodeFrom (.three v) (char d :: cs) = (decodeFrom .zero cs).map fun bs =>
        UInt8.ofNat ((v * 64 + d) / 65536) :: UInt8.ofNat ((v * 64 + d) / 256) :: UInt8.ofNat (v * 64 + d) :: bs := by
  have hdigit := digit_char h
  generalize char d = c at hdigit ⊢
  simp [decodeFrom, hdigit]

theorem decodeFrom_zero_char (h : d < 64) : decodeFrom .zero (char d :: cs) = decodeFrom (.one d) cs :=
  (decodeFrom_char h 0 cs).1

theorem decodeFrom_one_char (h : d < 64) :
    decodeFrom (.one v) (char d :: cs) = decodeFrom (.two (v * 64 + d)) cs := (decodeFrom_char h v cs).2.1

theorem decodeFrom_two_char (h : d < 64) :
    decodeFrom (.two v) (char d :: cs) = decodeFrom (.three (v * 64 + d)) cs := (decodeFrom_char h v cs).2.2.1

theorem decodeFrom_three_char (h : d < 64) :
    decodeFrom (.three v) (char d :: cs) = (decodeFrom .zero cs).map fun bs =>
      UInt8.ofNat ((v * 64 + d) / 65536) :: UInt8.ofNat ((v * 64 + d) / 256) :: UInt8.ofNat (v * 64 + d) :: bs :=
  (decodeFrom_char h v cs).2.2.2

theorem decodeFrom_two_equals : decodeFrom (.two v) ['=', '='] = some [UInt8.ofNat (v / 16)] := rfl

theorem decodeFrom_three_equals :
    decodeFrom (.three v) ['='] = some [UInt8.ofNat (v / 1024), UInt8.ofNat (v / 4)] := rfl

end Groups

private theorem ofNat_eq {n : ℕ} {b : UInt8} (h : n % 256 = b.toNat) : UInt8.ofNat n = b := by
  apply UInt8.toNat_inj.mp
  simpa using h

theorem decode_encode (bs : List UInt8) : decode (encode bs) = some bs := by
  unfold decode
  induction bs using encode.induct with
  | case1 => rfl
  | case2 a =>
    have ha := a.toNat_lt
    have hv : (a.toNat / 4 * 64 + a.toNat % 4 * 16) / 16 % 256 = a.toNat := by omega
    rw [encode, decodeFrom_zero_char (by omega), decodeFrom_one_char (by omega), decodeFrom_two_equals, ofNat_eq hv]
  | case3 a b =>
    have ha := a.toNat_lt
    have hb := b.toNat_lt
    rw [encode, decodeFrom_zero_char (by omega), decodeFrom_one_char (by omega), decodeFrom_two_char (by omega),
      decodeFrom_three_equals]
    set v := (a.toNat / 4 * 64 + (a.toNat % 4 * 16 + b.toNat / 16)) * 64 + b.toNat % 16 * 4 with hv
    have h1 : v / 1024 % 256 = a.toNat := by omega
    have h2 : v / 4 % 256 = b.toNat := by omega
    rw [ofNat_eq h1, ofNat_eq h2]
  | case4 a b c rest ih =>
    have ha := a.toNat_lt
    have hb := b.toNat_lt
    have hc := c.toNat_lt
    rw [encode, decodeFrom_zero_char (by omega), decodeFrom_one_char (by omega), decodeFrom_two_char (by omega),
      decodeFrom_three_char (by omega), ih]
    set v := ((a.toNat / 4 * 64 + (a.toNat % 4 * 16 + b.toNat / 16)) * 64 + (b.toNat % 16 * 4 + c.toNat / 64)) * 64 +
      c.toNat % 64 with hv
    have h1 : v / 65536 % 256 = a.toNat := by omega
    have h2 : v / 256 % 256 = b.toNat := by omega
    have h3 : v % 256 = c.toNat := by omega
    simp [ofNat_eq h1, ofNat_eq h2, ofNat_eq h3]

theorem colon_notMem_encode : ∀ bs : List UInt8, ':' ∉ encode bs
  | [] => List.not_mem_nil
  | [a] => by
    have ha := a.toNat_lt
    simp [encode, (char_ne_colon (d := a.toNat / 4) (by omega)).symm,
      (char_ne_colon (d := a.toNat % 4 * 16) (by omega)).symm]
  | [a, b] => by
    have ha := a.toNat_lt
    have hb := b.toNat_lt
    simp [encode, (char_ne_colon (d := a.toNat / 4) (by omega)).symm,
      (char_ne_colon (d := a.toNat % 4 * 16 + b.toNat / 16) (by omega)).symm,
      (char_ne_colon (d := b.toNat % 16 * 4) (by omega)).symm]
  | a :: b :: c :: rest => by
    have ha := a.toNat_lt
    have hb := b.toNat_lt
    have hc := c.toNat_lt
    simp [encode, colon_notMem_encode rest, (char_ne_colon (d := a.toNat / 4) (by omega)).symm,
      (char_ne_colon (d := a.toNat % 4 * 16 + b.toNat / 16) (by omega)).symm,
      (char_ne_colon (d := b.toNat % 16 * 4 + c.toNat / 64) (by omega)).symm,
      (char_ne_colon (d := c.toNat % 64) (by omega)).symm]

end Base64
