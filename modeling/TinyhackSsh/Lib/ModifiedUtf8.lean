import Mathlib.Tactic

/-! Modified UTF-8: each UTF-16 code unit is encoded by itself, in one to three bytes,
and the unit 0 in two, so that no byte is zero. -/

namespace ModifiedUtf8

/-- A character as UTF-16. -/
def units (c : Char) : List UInt16 :=
  if c.toNat < 0x10000 then [UInt16.ofNat c.toNat]
  else [UInt16.ofNat (0xD800 + (c.toNat - 0x10000) / 0x400), UInt16.ofNat (0xDC00 + (c.toNat - 0x10000) % 0x400)]

def utf16 (s : List Char) : List UInt16 := s.flatMap units

def unitBytes (u : UInt16) : List UInt8 :=
  let v := u.toNat
  if v = 0 then [0xC0, 0x80]
  else if v ≤ 0x7f then [UInt8.ofNat v]
  else if v ≤ 0x7ff then [UInt8.ofNat (v / 64 % 0x20 + 0xc0), UInt8.ofNat (v % 0x40 + 0x80)]
  else
    [UInt8.ofNat (v / 4096 % 0x10 + 0xe0), UInt8.ofNat (v / 64 % 0x40 + 0x80), UInt8.ofNat (v % 0x40 + 0x80)]

def encode (us : List UInt16) : List UInt8 := us.flatMap unitBytes

def isTail (b : UInt8) : Bool := 0x80 ≤ b.toNat && b.toNat < 0xc0

/-- The unit of two bytes, in its shortest form or 0. -/
def unit₂ (a b : UInt8) : Option UInt16 :=
  let v := a.toNat % 0x20 * 64 + b.toNat % 0x40
  if 0xc0 ≤ a.toNat ∧ a.toNat < 0xe0 ∧ isTail b ∧ (v = 0 ∨ 0x7f < v) then some (UInt16.ofNat v) else none

def unit₃ (a b c : UInt8) : Option UInt16 :=
  let v := a.toNat % 0x10 * 4096 + b.toNat % 0x40 * 64 + c.toNat % 0x40
  if 0xe0 ≤ a.toNat ∧ a.toNat < 0xf0 ∧ isTail b ∧ isTail c ∧ 0x7ff < v then some (UInt16.ofNat v) else none

def decode : List UInt8 → Option (List UInt16)
  | [] => some []
  | a :: rest =>
    if a = 0 then none
    else if a.toNat ≤ 0x7f then (decode rest).map (UInt16.ofNat a.toNat :: ·)
    else
      match rest with
      | [] => none
      | b :: rest =>
        match unit₂ a b with
        | some u => (decode rest).map (u :: ·)
        | none =>
          match rest with
          | [] => none
          | c :: rest => (unit₃ a b c).bind fun u => (decode rest).map (u :: ·)

section Units

variable {a b : UInt8} {u : UInt16} {v n lead : ℕ}

theorem toNat_byte (h : v < 256) : (UInt8.ofNat v).toNat = v := UInt8.toNat_ofNat_of_lt' h

theorem isTail_byte (v : ℕ) : isTail (UInt8.ofNat (v % 0x40 + 0x80)) = true := by
  rw [isTail, toNat_byte (by omega)]
  simp
  omega

theorem lead_mod (hm : lead % n = 0) (v : ℕ) : (v % n + lead) % n = v % n := by
  rw [Nat.add_mod, hm, Nat.add_zero, Nat.mod_mod, Nat.mod_mod]

theorem unit₂_bytes (hu : 0x7f < u.toNat) (hlt : u.toNat ≤ 0x7ff) :
    unit₂ (UInt8.ofNat (u.toNat / 64 % 0x20 + 0xc0)) (UInt8.ofNat (u.toNat % 0x40 + 0x80)) = some u := by
  have hv : u.toNat / 64 % 0x20 * 64 + u.toNat % 0x40 = u.toNat := by omega
  simp only [unit₂, isTail_byte]
  rw [toNat_byte (by omega), toNat_byte (by omega), lead_mod rfl, lead_mod rfl, hv,
    if_pos ⟨by omega, by omega, trivial, by omega⟩, UInt16.ofNat_toNat]

theorem unit₂_eq_none (ha : 0xe0 ≤ a.toNat) : unit₂ a b = none := by
  simp only [unit₂]
  rw [if_neg]
  rintro ⟨-, hlt, -⟩
  omega

theorem unit₃_bytes (hu : 0x7ff < u.toNat) :
    unit₃ (UInt8.ofNat (u.toNat / 4096 % 0x10 + 0xe0)) (UInt8.ofNat (u.toNat / 64 % 0x40 + 0x80))
      (UInt8.ofNat (u.toNat % 0x40 + 0x80)) = some u := by
  have hlt := u.toNat_lt
  have hv : u.toNat / 4096 % 0x10 * 4096 + u.toNat / 64 % 0x40 * 64 + u.toNat % 0x40 = u.toNat := by omega
  simp only [unit₃, isTail_byte]
  rw [toNat_byte (by omega), toNat_byte (by omega), toNat_byte (by omega), lead_mod rfl, lead_mod rfl, lead_mod rfl,
    hv, if_pos ⟨by omega, by omega, trivial, trivial, hu⟩, UInt16.ofNat_toNat]

theorem decode_zero (rest : List UInt8) : decode (0 :: rest) = none := by
  rw [decode.eq_def]
  exact if_pos rfl

theorem decode_cons (hne : a ≠ 0) (rest : List UInt8) :
    decode (a :: rest) =
      if a.toNat ≤ 0x7f then (decode rest).map (UInt16.ofNat a.toNat :: ·)
      else
        match rest with
        | [] => none
        | b :: rest =>
          match unit₂ a b with
          | some u => (decode rest).map (u :: ·)
          | none =>
            match rest with
            | [] => none
            | c :: rest => (unit₃ a b c).bind fun u => (decode rest).map (u :: ·) := by
  rw [decode.eq_def]
  exact if_neg hne

theorem ne_zero_of_lead (h : 0x7f < a.toNat) : a ≠ 0 := by
  rintro rfl
  simp at h

/-! The three forms in front of other bytes. -/

theorem decode_one (hne : a ≠ 0) (h : a.toNat ≤ 0x7f) (rest : List UInt8) :
    decode (a :: rest) = (decode rest).map (UInt16.ofNat a.toNat :: ·) := by
  rw [decode_cons hne, if_pos h]

theorem decode_two (h : 0x7f < a.toNat) (hu : unit₂ a b = some u) (rest : List UInt8) :
    decode (a :: b :: rest) = (decode rest).map (u :: ·) := by
  rw [decode_cons (ne_zero_of_lead h), if_neg h.not_ge]
  dsimp only
  rw [hu]

theorem decode_three {c : UInt8} (h : 0x7f < a.toNat) (hnone : unit₂ a b = none) (rest : List UInt8) :
    decode (a :: b :: c :: rest) = (unit₃ a b c).bind fun u => (decode rest).map (u :: ·) := by
  rw [decode_cons (ne_zero_of_lead h), if_neg h.not_ge]
  dsimp only
  rw [hnone]

/-- One unit in front of others. -/
theorem decode_unitBytes (u : UInt16) (rest : List UInt8) :
    decode (unitBytes u ++ rest) = (decode rest).map (u :: ·) := by
  have hlt := u.toNat_lt
  unfold unitBytes
  dsimp only
  split_ifs with hzero hone htwo
  · have hu : u = 0 := UInt16.toNat_inj.mp hzero
    subst hu
    exact decode_two (by decide) (by decide) rest
  · have hbyte : (UInt8.ofNat u.toNat).toNat = u.toNat := toNat_byte (by omega)
    have hne : UInt8.ofNat u.toNat ≠ 0 := by
      intro h
      rw [h] at hbyte
      exact hzero hbyte.symm
    rw [List.singleton_append, decode_one hne (by omega), hbyte, UInt16.ofNat_toNat]
  · have hbyte : (UInt8.ofNat (u.toNat / 64 % 0x20 + 0xc0)).toNat = u.toNat / 64 % 0x20 + 0xc0 := toNat_byte (by omega)
    exact decode_two (by omega) (unit₂_bytes (by omega) htwo) rest
  · have hbyte : (UInt8.ofNat (u.toNat / 4096 % 0x10 + 0xe0)).toNat = u.toNat / 4096 % 0x10 + 0xe0 :=
      toNat_byte (by omega)
    rw [List.cons_append, List.cons_append, List.singleton_append,
      decode_three (by omega) (unit₂_eq_none (by omega)), unit₃_bytes (by omega), Option.bind_some]

theorem decode_encode (us : List UInt16) : decode (encode us) = some us := by
  induction us with
  | nil => rfl
  | cons u us ih =>
    change decode (unitBytes u ++ encode us) = _
    rw [decode_unitBytes, ih]
    rfl

theorem toNat_unit (h : v < 65536) : (UInt16.ofNat v).toNat = v := UInt16.toNat_ofNat_of_lt' h

theorem byte_of_toNat (h : a.toNat = v) : UInt8.ofNat v = a := by
  rw [← h]
  exact UInt8.ofNat_toNat

theorem unitBytes_of_unit₂ (h : unit₂ a b = some u) : unitBytes u = [a, b] := by
  simp only [unit₂, isTail, Bool.and_eq_true, decide_eq_true_eq, Option.ite_none_right_eq_some,
    Option.some.injEq] at h
  obtain ⟨⟨hlo, hhi, ⟨htail, htail'⟩, hform⟩, rfl⟩ := h
  simp only [unitBytes]
  rw [toNat_unit (by omega)]
  obtain hzero | hlong := hform
  · rw [if_pos hzero]
    have ha : a = 0xC0 := UInt8.toNat_inj.mp (by simp; omega)
    have hb : b = 0x80 := UInt8.toNat_inj.mp (by simp; omega)
    rw [ha, hb]
  · rw [if_neg (by omega), if_neg (by omega), if_pos (by omega)]
    rw [byte_of_toNat (a := a) (by omega), byte_of_toNat (a := b) (by omega)]

theorem unitBytes_of_unit₃ {c : UInt8} (h : unit₃ a b c = some u) : unitBytes u = [a, b, c] := by
  simp only [unit₃, isTail, Bool.and_eq_true, decide_eq_true_eq, Option.ite_none_right_eq_some,
    Option.some.injEq] at h
  obtain ⟨⟨hlo, hhi, ⟨htail, htail'⟩, ⟨hlast, hlast'⟩, hlong⟩, rfl⟩ := h
  simp only [unitBytes]
  rw [toNat_unit (by omega), if_neg (by omega), if_neg (by omega), if_neg (by omega)]
  rw [byte_of_toNat (a := a) (by omega), byte_of_toNat (a := b) (by omega), byte_of_toNat (a := c) (by omega)]

theorem encode_cons (u : UInt16) (us : List UInt16) : encode (u :: us) = unitBytes u ++ encode us := rfl

/-- What can be decoded is an encoding. -/
theorem encode_of_decode {bs : List UInt8} {us : List UInt16} (h : decode bs = some us) : encode us = bs := by
  induction bs using decode.induct generalizing us with
  | case1 =>
    obtain rfl := Option.some.inj h
    rfl
  | case2 rest => simp [decode_zero] at h
  | case3 a rest hne hone ih =>
    rw [decode_one hne hone] at h
    obtain ⟨us, hus, rfl⟩ := Option.map_eq_some_iff.mp h
    have hpos : a.toNat ≠ 0 := fun hzero => hne (UInt8.toNat_inj.mp hzero)
    have hbytes : unitBytes (UInt16.ofNat a.toNat) = [a] := by
      simp only [unitBytes]
      rw [toNat_unit (by omega), if_neg hpos, if_pos hone, UInt8.ofNat_toNat]
    rw [encode_cons, hbytes, ih hus]
    rfl
  | case4 a hne hone => simp [decode_cons hne, hone] at h
  | case5 a hne hone b rest u hu ih =>
    rw [decode_two (not_le.mp hone) hu] at h
    obtain ⟨us, hus, rfl⟩ := Option.map_eq_some_iff.mp h
    rw [encode_cons, unitBytes_of_unit₂ hu, ih hus]
    rfl
  | case6 a hne hone b hnone => simp [decode_cons hne, hone, hnone] at h
  | case7 a hne hone b hnone c rest ih =>
    rw [decode_three (not_le.mp hone) hnone] at h
    obtain ⟨u, hu, h⟩ := Option.bind_eq_some_iff.mp h
    obtain ⟨us, hus, rfl⟩ := Option.map_eq_some_iff.mp h
    rw [encode_cons, unitBytes_of_unit₃ hu, ih hus]
    rfl

theorem zero_notMem_unitBytes (u : UInt16) : 0 ∉ unitBytes u := by
  have hlt := u.toNat_lt
  have hbyte : ∀ v, v % 256 ≠ 0 → (0 : UInt8) ≠ UInt8.ofNat v := by
    intro v hv h
    have htoNat := congrArg UInt8.toNat h
    simp only [UInt8.toNat_ofNat', UInt8.reduceToNat] at htoNat
    exact hv htoNat.symm
  unfold unitBytes
  dsimp only
  split_ifs with hzero hone htwo
  · decide
  all_goals
    simp only [List.mem_cons, List.not_mem_nil, or_false, not_or]
  · exact hbyte _ (by omega)
  · exact ⟨hbyte _ (by omega), hbyte _ (by omega)⟩
  · exact ⟨hbyte _ (by omega), hbyte _ (by omega), hbyte _ (by omega)⟩

theorem toNat_lt_of_mem_unitBytes (h : a ∈ unitBytes u) : a.toNat < 0xf0 := by
  unfold unitBytes at h
  dsimp only at h
  split_ifs at h with hzero hone htwo
  all_goals
    simp only [List.mem_cons, List.not_mem_nil, or_false] at h
  · obtain rfl | rfl := h
    · decide
    · decide
  · rw [h, toNat_byte (by omega)]
    omega
  · obtain rfl | rfl := h
    · rw [toNat_byte (by omega)]
      omega
    · rw [toNat_byte (by omega)]
      omega
  · obtain rfl | rfl | rfl := h
    · rw [toNat_byte (by omega)]
      omega
    · rw [toNat_byte (by omega)]
      omega
    · rw [toNat_byte (by omega)]
      omega

end Units

/-! Against standard UTF-8. The two agree on characters of one unit that are not NUL; on
the others modified UTF-8 is longer. -/

def plain (c : Char) : Bool := 0 < c.toNat && c.toNat < 0x10000

section Standard

variable {c : Char} {s : List Char}

theorem scalar_range (c : Char) : c.toNat < 0xD800 ∨ 0xDFFF < c.toNat ∧ c.toNat < 0x110000 := by
  have hvalid := c.valid
  simp only [UInt32.isValidChar, Nat.isValidChar] at hvalid
  exact hvalid

theorem encode_units (h : plain c = true) : encode (units c) = String.utf8EncodeChar c := by
  simp only [plain, Bool.and_eq_true, decide_eq_true_eq] at h
  have hv : (UInt16.ofNat c.toNat).toNat = c.toNat := toNat_unit h.2
  have hval : c.val.toNat = c.toNat := rfl
  rw [units, if_pos h.2, encode, List.flatMap_singleton, unitBytes, hv, String.utf8EncodeChar, hval, if_neg h.1.ne']
  split_ifs
  · rfl
  · rfl
  · rfl
  · omega

theorem length_units_lt (h : plain c = false) : (String.utf8EncodeChar c).length < (encode (units c)).length := by
  have hthree : ∀ v, 0x7ff < v → v < 0x10000 → (unitBytes (UInt16.ofNat v)).length = 3 := by
    intro v hlo hhi
    simp only [unitBytes]
    rw [toNat_unit hhi, if_neg (by omega), if_neg (by omega), if_neg (by omega)]
    rfl
  by_cases hzero : c.toNat = 0
  · obtain rfl : c = '\x00' := Char.toNat_inj.mp hzero
    decide
  · have hlong : ¬ c.toNat < 0x10000 := by
      simp only [plain, Bool.and_eq_false_iff, decide_eq_false_iff_not] at h
      omega
    have hrange := scalar_range c
    have hfour : (String.utf8EncodeChar c).length = 4 := by
      have hval : c.val.toNat = c.toNat := rfl
      rw [String.utf8EncodeChar, hval, if_neg (by omega), if_neg (by omega), if_neg (by omega)]
      rfl
    rw [hfour, units, if_neg hlong, encode, List.flatMap_cons, List.flatMap_singleton, List.length_append,
      hthree _ (by omega) (by omega), hthree _ (by omega) (by omega)]
    decide

theorem length_units_le (c : Char) : (String.utf8EncodeChar c).length ≤ (encode (units c)).length := by
  cases h : plain c with
  | true => rw [encode_units h]
  | false => exact (length_units_lt h).le

theorem encode_utf16_cons (c : Char) (s : List Char) :
    encode (utf16 (c :: s)) = encode (units c) ++ encode (utf16 s) := by
  simp [encode, utf16]

theorem length_utf16_le (s : List Char) :
    (s.flatMap String.utf8EncodeChar).length ≤ (encode (utf16 s)).length := by
  induction s with
  | nil => rfl
  | cons c s ih =>
    have hc := length_units_le c
    rw [encode_utf16_cons, List.flatMap_cons, List.length_append, List.length_append]
    omega

/-- Texts whose modified UTF-8 is no longer than their UTF-8 have only plain characters. -/
theorem plain_of_length (h : (encode (utf16 s)).length ≤ (s.flatMap String.utf8EncodeChar).length) :
    ∀ c ∈ s, plain c = true := by
  induction s with
  | nil => nofun
  | cons c s ih =>
    have hs := length_utf16_le s
    have hc := length_units_le c
    rw [encode_utf16_cons, List.flatMap_cons, List.length_append, List.length_append] at h
    intro d hd
    obtain rfl | hd := List.mem_cons.mp hd
    · by_contra hplain
      have hlt := length_units_lt (Bool.eq_false_iff.mpr hplain)
      omega
    · exact ih (by omega) d hd

theorem encode_utf16 (h : ∀ c ∈ s, plain c = true) : encode (utf16 s) = s.flatMap String.utf8EncodeChar := by
  induction s with
  | nil => rfl
  | cons c s ih =>
    rw [encode_utf16_cons, List.flatMap_cons, encode_units (h c List.mem_cons_self),
      ih fun d hd => h d (List.mem_cons_of_mem c hd)]

/-- UTF-8 that can be read as modified UTF-8 has nothing beyond the basic plane. -/
theorem lt_of_encode_eq {us : List UInt16} (h : encode us = s.flatMap String.utf8EncodeChar) :
    ∀ c ∈ s, c.toNat < 0x10000 := by
  intro c hc
  by_contra hlong
  have hval : c.val.toNat = c.toNat := rfl
  have hfirst : UInt8.ofNat (c.toNat / 262144 % 0x08 + 0xf0) ∈ String.utf8EncodeChar c := by
    rw [String.utf8EncodeChar, hval, if_neg (by omega), if_neg (by omega), if_neg (by omega)]
    exact List.mem_cons_self
  have hmem : UInt8.ofNat (c.toNat / 262144 % 0x08 + 0xf0) ∈ encode us := by
    rw [h]
    exact List.mem_flatMap.mpr ⟨c, hc, hfirst⟩
  obtain ⟨u, -, hu⟩ := List.mem_flatMap.mp hmem
  have hlt := toNat_lt_of_mem_unitBytes hu
  rw [toNat_byte (by omega)] at hlt
  omega

/-- Where the two encodings of a text agree. -/
theorem encode_utf16_eq_iff : encode (utf16 s) = s.flatMap String.utf8EncodeChar ↔ ∀ c ∈ s, plain c = true :=
  ⟨fun h => plain_of_length (congrArg List.length h).le, encode_utf16⟩

end Standard

section Injective

variable {c d : Char} {us vs : List UInt16}

/-- The first character can be told from the units. -/
theorem units_append_inj (h : units c ++ us = units d ++ vs) : c = d ∧ us = vs := by
  have hc := scalar_range c
  have hd := scalar_range d
  have htoNat : ∀ {v w : ℕ}, v < 65536 → w < 65536 → UInt16.ofNat v = UInt16.ofNat w → v = w := by
    intro v w hv hw heq
    rw [← toNat_unit hv, heq, toNat_unit hw]
  unfold units at h
  split_ifs at h with hone hone'
  · obtain ⟨hu, hrest⟩ := List.cons.inj h
    exact ⟨Char.toNat_inj.mp (htoNat hone hone' hu), hrest⟩
  · have hu := htoNat hone (by omega) (List.cons.inj h).1
    omega
  · have hu := htoNat (by omega) ‹_› (List.cons.inj h).1
    omega
  · obtain ⟨hhigh, hrest⟩ := List.cons.inj h
    obtain ⟨hlow, hrest⟩ := List.cons.inj hrest
    have hhigh := htoNat (by omega) (by omega) hhigh
    have hlow := htoNat (by omega) (by omega) hlow
    exact ⟨Char.toNat_inj.mp (by omega), hrest⟩

theorem units_ne_nil (c : Char) : units c ≠ [] := by
  unfold units
  split_ifs
  · exact List.cons_ne_nil _ _
  · exact List.cons_ne_nil _ _

theorem utf16_injective : Function.Injective utf16 := by
  intro s t h
  induction s generalizing t with
  | nil =>
    cases t with
    | nil => rfl
    | cons d t => exact absurd (List.append_eq_nil_iff.mp h.symm).1 (units_ne_nil d)
  | cons c s ih =>
    cases t with
    | nil => exact absurd (List.append_eq_nil_iff.mp h).1 (units_ne_nil c)
    | cons d t =>
      obtain ⟨rfl, hrest⟩ := units_append_inj h
      rw [ih hrest]

end Injective

end ModifiedUtf8
