import TinyhackSsh.Proofs.NotificationAssembly

/-! A part that comes in base64, one string after the other, cut anywhere. Padding may stand
in the middle of the stream, and the last string may lack it. -/

namespace Tinyhack.Notify

open Wire

/-- The base64 of a string without its padding. -/
def unpadded (bytes : Bytes) : JString := (Base64.encode bytes).takeWhile (· ≠ '=')

/-- Strings one after the other, the last of them with padding or without. -/
def encodeStrings (padLast : Bool) : List Bytes → JString
  | [] => []
  | [last] => if padLast then Base64.encode last else unpadded last
  | string :: strings => Base64.encode string ++ encodeStrings padLast strings

section Quartets

theorem char_mem {d : ℕ} (h : d < 64) : Base64.char d ∈ Base64.alphabet ∧ Base64.char d ≠ '=' :=
  ⟨Base64.char_mem_alphabet h, Base64.char_ne_equals h⟩

/-! The digits that `Base64.encode` makes of one, two and three bytes. -/

theorem digits_one (a : UInt8) : a.toNat / 4 < 64 ∧ a.toNat % 4 * 16 < 64 := by
  have ha := a.toNat_lt
  omega

theorem digits_two (a b : UInt8) :
    a.toNat / 4 < 64 ∧ a.toNat % 4 * 16 + b.toNat / 16 < 64 ∧ b.toNat % 16 * 4 < 64 := by
  have ha := a.toNat_lt
  have hb := b.toNat_lt
  omega

theorem digits_three (a b c : UInt8) :
    a.toNat / 4 < 64 ∧ a.toNat % 4 * 16 + b.toNat / 16 < 64 ∧ b.toNat % 16 * 4 + c.toNat / 64 < 64 ∧
    c.toNat % 64 < 64 := by
  have ha := a.toNat_lt
  have hb := b.toNat_lt
  have hc := c.toNat_lt
  omega

/-- A quartet in front of a stream. -/
theorem decodeStream_quartet {a b c d : Char} {data : Bytes} (hq : isQuartet [a, b, c, d] = true)
    (hdata : Base64.decode [a, b, c, d] = some data) (chars : JString) :
    decodeStream (a :: b :: c :: d :: chars) = (decodeStream chars).map fun more => data ++ more := by
  rw [decodeStream, if_pos hq, hdata, Option.bind_some]

/-- Three bytes in front of a stream. -/
theorem decodeStream_three (a b c : UInt8) (chars : JString) :
    decodeStream (Base64.encode [a, b, c] ++ chars) = (decodeStream chars).map fun more => [a, b, c] ++ more := by
  obtain ⟨h₁, h₂, h₃, h₄⟩ := digits_three a b c
  refine decodeStream_quartet ?_ (Base64.decode_encode [a, b, c]) chars
  simp [isQuartet, char_mem h₁, char_mem h₂, char_mem h₃, char_mem h₄]

theorem encode_three (a b c : UInt8) (rest : Bytes) :
    Base64.encode (a :: b :: c :: rest) = Base64.encode [a, b, c] ++ Base64.encode rest := rfl

/-- A padded string in front of a stream. -/
theorem decodeStream_encode (bytes : Bytes) (chars : JString) :
    decodeStream (Base64.encode bytes ++ chars) = (decodeStream chars).map fun more => bytes ++ more := by
  induction bytes using Base64.encode.induct with
  | case1 => simp [Base64.encode]
  | case2 a =>
    obtain ⟨h₁, h₂⟩ := digits_one a
    refine decodeStream_quartet ?_ (Base64.decode_encode [a]) chars
    simp [isQuartet, char_mem h₁, char_mem h₂]
  | case3 a b =>
    obtain ⟨h₁, h₂, h₃⟩ := digits_two a b
    refine decodeStream_quartet ?_ (Base64.decode_encode [a, b]) chars
    simp [isQuartet, char_mem h₁, char_mem h₂, char_mem h₃]
  | case4 a b c rest ih =>
    rw [encode_three, List.append_assoc, decodeStream_three, ih, Option.map_map]
    rfl

/-- A stream that is one string without padding. -/
theorem decodeStream_unpadded (bytes : Bytes) : decodeStream (unpadded bytes) = some bytes := by
  induction bytes using Base64.encode.induct with
  | case1 => rfl
  | case2 a =>
    obtain ⟨h₁, h₂⟩ := digits_one a
    have hchars : unpadded [a] = [Base64.char (a.toNat / 4), Base64.char (a.toNat % 4 * 16)] := by
      simp [unpadded, Base64.encode, char_mem h₁, char_mem h₂]
    have hsame : Base64.decode (unpadded [a]) = Base64.decode (Base64.encode [a]) := by
      rw [hchars, Base64.encode, Base64.decode, Base64.decode, Base64.decodeFrom_zero_char h₁,
        Base64.decodeFrom_one_char h₂, Base64.decodeFrom_zero_char h₁, Base64.decodeFrom_one_char h₂]
      rfl
    rw [decodeStream_remainder (by simp [hchars]) (by simp [hchars]), hsame, Base64.decode_encode]
    exact if_pos (by simp [isRemainder, hchars, char_mem h₁, char_mem h₂])
  | case3 a b =>
    obtain ⟨h₁, h₂, h₃⟩ := digits_two a b
    have hchars : unpadded [a, b] = [Base64.char (a.toNat / 4), Base64.char (a.toNat % 4 * 16 + b.toNat / 16),
        Base64.char (b.toNat % 16 * 4)] := by
      simp [unpadded, Base64.encode, char_mem h₁, char_mem h₂, char_mem h₃]
    have hsame : Base64.decode (unpadded [a, b]) = Base64.decode (Base64.encode [a, b]) := by
      rw [hchars, Base64.encode, Base64.decode, Base64.decode, Base64.decodeFrom_zero_char h₁,
        Base64.decodeFrom_one_char h₂, Base64.decodeFrom_two_char h₃, Base64.decodeFrom_zero_char h₁,
        Base64.decodeFrom_one_char h₂, Base64.decodeFrom_two_char h₃]
      rfl
    rw [decodeStream_remainder (by simp [hchars]) (by simp [hchars]), hsame, Base64.decode_encode]
    exact if_pos (by simp [isRemainder, hchars, char_mem h₁, char_mem h₂, char_mem h₃])
  | case4 a b c rest ih =>
    obtain ⟨h₁, h₂, h₃, h₄⟩ := digits_three a b c
    have hchars : unpadded (a :: b :: c :: rest) = Base64.encode [a, b, c] ++ unpadded rest := by
      simp [unpadded, Base64.encode, char_mem h₁, char_mem h₂, char_mem h₃, char_mem h₄]
    rw [hchars, decodeStream_three, ih]
    rfl

theorem decodeStream_encodeStrings (padLast : Bool) (strings : List Bytes) :
    decodeStream (encodeStrings padLast strings) = some strings.flatten := by
  induction strings with
  | nil => rfl
  | cons string strings ih =>
    cases strings with
    | nil =>
      rw [encodeStrings, List.flatten_singleton]
      split_ifs
      · have hpadded := decodeStream_encode string []
        rw [List.append_nil] at hpadded
        rw [hpadded]
        simp [decodeStream_nil]
      · exact decodeStream_unpadded string
    | cons next strings =>
      have hcons : encodeStrings padLast (string :: next :: strings) =
        Base64.encode string ++ encodeStrings padLast (next :: strings) := rfl
      rw [hcons, decodeStream_encode, ih]
      rfl

end Quartets

theorem TextPart.finish_quartet {part part' : TextPart} (h : part.finish = some part') : part'.quartet = [] := by
  unfold finish at h
  split_ifs at h with hempty hrem
  · obtain rfl := Option.some.inj h
    exact List.isEmpty_iff.mp hempty
  · obtain ⟨data, -, happend⟩ := Option.bind_eq_some_iff.mp h
    rw [append_eq_some happend]

/-- Chunk after chunk is the same as all of it at once. -/
theorem foldlM_encoded (part : TextPart) (chunks : List Bytes) :
    chunks.foldlM TextPart.encoded part = part.encoded chunks.flatten := by
  induction chunks generalizing part with
  | nil => rfl
  | cons chunk chunks ih =>
    rw [List.foldlM_cons, List.flatten_cons, TextPart.encoded, TextPart.encoded, List.foldlM_append]
    exact congrArg _ (funext ih)

/-- What a part yields that is empty at first and gets a stream of base64. -/
theorem finish_encoded {data bytes : Bytes} (h : decodeStream (data.map asciiChar) = some bytes)
    (hsize : bytes.length ≤ MAX_TEXT_BYTES) :
    (TextPart.encoded ⟨[], []⟩ data).bind TextPart.finish = some ⟨bytes, []⟩ := by
  have hvalue : TextPart.value ⟨[], []⟩ [.encoded (data.map asciiChar)] = some bytes := by
    rw [TextPart.value, decodeAfter_encoded]
    change (decodeStream (data.map asciiChar)).map _ = _
    rw [h]
    rfl
  cases hpart : TextPart.encoded ⟨[], []⟩ data with
  | none =>
    have hlong := TextPart.encoded_eq_none (by decide) hpart [] bytes hvalue
    exact absurd hsize (not_le.mpr hlong)
  | some part =>
    obtain ⟨hq, hsame⟩ := TextPart.encoded_eq_some (by decide) hpart
    rw [hsame] at hvalue
    rw [Option.bind_some]
    cases hfinish : part.finish with
    | none => exact absurd hsize (not_le.mpr (TextPart.finish_eq_none hq hfinish bytes hvalue))
    | some done =>
      have hbytes := TextPart.finish_eq_some hq hfinish
      rw [hvalue] at hbytes
      have hquartet := TextPart.finish_quartet hfinish
      rw [Option.some.inj hbytes, ← hquartet]

/-- Base64 strings one after the other, cut into chunks anywhere, give the strings. -/
theorem encoded_chunks (padLast : Bool) (strings chunks : List Bytes)
    (hcut : chunks.flatten.map asciiChar = encodeStrings padLast strings)
    (hsize : strings.flatten.length ≤ MAX_TEXT_BYTES) :
    (chunks.foldlM TextPart.encoded ⟨[], []⟩).bind TextPart.finish = some ⟨strings.flatten, []⟩ := by
  rw [foldlM_encoded]
  refine finish_encoded ?_ hsize
  rw [hcut, decodeStream_encodeStrings]

/-- `SA==aQ`, cut inside both quartets. -/
theorem encoded_chunks_cut :
    [[0x53], [0x41, 0x3d, 0x3d, 0x61], [], [0x51]].flatten.map asciiChar = encodeStrings false [[72], [105]] ∧
    ([[0x53], [0x41, 0x3d, 0x3d, 0x61], [], [0x51]].foldlM TextPart.encoded ⟨[], []⟩).bind TextPart.finish =
      some ⟨[72, 105], []⟩ :=
  ⟨by decide, encoded_chunks false [[72], [105]] _ (by decide) (by decide)⟩

end Tinyhack.Notify
