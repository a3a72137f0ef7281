import TinyhackSsh.Spec.SecurityKeySignature
import TinyhackSsh.Proofs.Wire

/-! A verifier recovers from the answer of a security key what was signed. Each writer is
matched with its reader, with any bytes after it: DER lengths and integers with `DerReader`,
SSH integers, strings and mpints with the verifier. -/

namespace Tinyhack.SecurityKey

open Wire Agent

section Der

/-- The long form, with one or two bytes. -/
theorem derLength_long {first : UInt8} {count n : ℕ} (hcount : count = 1 ∨ count = 2)
    (hfirst : first.toNat = 128 + count) (h : n < 256 ^ count) (rest : Bytes) :
    derLength (first :: (beBytes count n ++ rest)) = some (n, rest) := by
  have hval : beNat (beBytes count n) = n := by
    have hmod := beNat_beBytes count n
    rw [Int.emod_eq_of_lt (by positivity) (by exact_mod_cast h)] at hmod
    exact_mod_cast hmod
  have hlong : ¬ first < 0x80 := by
    rw [UInt8.lt_iff_toNat_lt, hfirst]
    exact not_lt.mpr (Nat.le_add_right 128 count)
  have hmod : first.toNat % 128 = count := by omega
  simp only [derLength, derByte, Option.bind_eq_bind, Option.bind_some]
  rw [if_neg hlong, hmod, if_neg (by simp only [List.length_append, length_beBytes]; omega),
    List.take_left' (length_beBytes ..), List.drop_left' (length_beBytes ..), hval]

theorem derLength_derLengthBytes {n : ℕ} (h : n < 65536) (rest : Bytes) :
    derLength (derLengthBytes n ++ rest) = some (n, rest) := by
  unfold derLengthBytes
  split_ifs with hshort hone
  · have hbyte : (UInt8.ofNat ((n : ℤ) % 256).toNat).toNat = n := by
      have hmod : ((n : ℤ) % 256).toNat = n := by omega
      rw [hmod]
      exact UInt8.toNat_ofNat_of_lt' (hshort.trans (by decide))
    have hlt : UInt8.ofNat ((n : ℤ) % 256).toNat < 0x80 := by
      rw [UInt8.lt_iff_toNat_lt, hbyte]
      exact hshort
    simp only [beBytes, List.nil_append, List.cons_append, derLength, derByte, Option.bind_eq_bind, Option.bind_some,
      if_pos hlt, hbyte]
  · exact derLength_long (.inl rfl) rfl hone rest
  · exact derLength_long (.inr rfl) rfl h rest

theorem length_toByteArray_pos (n : ℤ) : 0 < (toByteArray n).length := by
  rw [toByteArray, length_beBytes]
  exact Nat.succ_pos _

theorem derInteger_derIntegerBytes {n : ℤ} (h : (toByteArray n).length < 65536) (rest : Bytes) :
    derInteger (derIntegerBytes n ++ rest) = some (n, rest) := by
  have hpos := length_toByteArray_pos n
  simp only [derIntegerBytes, List.cons_append, derInteger, derByte, Option.bind_eq_bind, Option.bind_some]
  rw [if_neg (by decide), List.append_assoc, derLength_derLengthBytes h, Option.bind_some]
  dsimp only
  rw [if_neg (by simp only [List.length_append]; omega), List.take_left, List.drop_left, ofByteArray_toByteArray]

/-- The two numbers are within the body. -/
theorem length_derBody (r s : ℤ) : (toByteArray r).length + (toByteArray s).length < (derBody r s).length := by
  simp only [derBody, derIntegerBytes, List.length_cons, List.length_append]
  omega

theorem ecdsaDerToSsh_derSignature {r s : ℤ} (h : (derBody r s).length < 65536) :
    ecdsaDerToSsh (derSignature r s) = some (writeString (toByteArray r) ++ writeString (toByteArray s)) := by
  have hbody := length_derBody r s
  have hr : (toByteArray r).length < 65536 := by omega
  have hs : (toByteArray s).length < 65536 := by omega
  have hlast := derInteger_derIntegerBytes hs []
  rw [List.append_nil] at hlast
  simp only [derSignature, ecdsaDerToSsh, derByte, Option.bind_eq_bind, Option.bind_some]
  rw [if_neg (by decide), derLength_derLengthBytes h, Option.bind_some]
  dsimp only
  rw [if_neg (by simp), derBody, derInteger_derIntegerBytes hr, Option.bind_some, hlast, Option.bind_some]

end Der

section Wire

theorem getUint32_writeInt (n : ℤ) (rest : Bytes) :
    getUint32 (writeInt n ++ rest) = some ((n % 2 ^ 32).toNat, rest) := by
  have hval : beNat (writeInt n) = (n % 2 ^ 32).toNat := by
    have h4 := beNat_beBytes 4 n
    rw [writeInt]
    omega
  unfold getUint32
  rw [if_neg (by simp), List.take_left' (length_writeInt n), List.drop_left' (length_writeInt n), hval]

theorem getString_writeString {value : Bytes} (h : value.length < 2 ^ 32) (rest : Bytes) :
    getString (writeString value ++ rest) = some (value, rest) := by
  have hlength : ((value.length : ℤ) % 2 ^ 32).toNat = value.length := by omega
  unfold getString writeString
  rw [List.append_assoc, getUint32_writeInt, hlength, Option.bind_eq_bind, Option.bind_some]
  dsimp only
  rw [if_neg (by simp), List.take_left, List.drop_left]

theorem ofByteArray_cons (a : UInt8) (bs : Bytes) : ofByteArray (a :: bs) =
    if 128 ≤ a.toNat then (a.toNat * 256 ^ bs.length + beNat bs : ℤ) - 256 ^ (bs.length + 1)
    else a.toNat * 256 ^ bs.length + beNat bs := by
  unfold ofByteArray
  rw [beNat_cons]
  push_cast
  rfl

/-- A superfluous sign byte does not change the value. -/
theorem ofByteArray_sign {a b : UInt8} {bs : Bytes} (h : a = 0 ∧ b < 128 ∨ a = 255 ∧ 128 ≤ b) :
    ofByteArray (a :: b :: bs) = ofByteArray (b :: bs) := by
  rw [ofByteArray_cons a, ofByteArray_cons b]
  have hbody := beNat_cons b bs
  obtain ⟨rfl, hb⟩ | ⟨rfl, hb⟩ := h
  · have hb' : ¬ 128 ≤ b.toNat := not_le.mpr (UInt8.lt_iff_toNat_lt.mp hb)
    rw [if_neg (by decide), if_neg hb', hbody]
    push_cast
    ring
  · have hb' : 128 ≤ b.toNat := UInt8.le_iff_toNat_le.mp hb
    rw [if_pos (by decide), if_pos hb', hbody, List.length_cons]
    push_cast
    ring

/-- `BigInteger.toByteArray` writes canonical mpints, except for zero. -/
theorem canonical_toByteArray {n : ℤ} (h : n ≠ 0) : canonical (toByteArray n) = true := by
  have hval := ofByteArray_toByteArray n
  cases hbytes : toByteArray n with
  | nil => rfl
  | cons a bs =>
    cases bs with
    | nil =>
      rw [hbytes] at hval
      refine decide_eq_true fun hzero => h ?_
      rw [← hval, hzero]
      rfl
    | cons b bs =>
      by_contra hno
      have hsign : a = 0 ∧ b < 128 ∨ a = 255 ∧ 128 ≤ b := by
        simp only [canonical, Bool.and_eq_true, Bool.not_eq_true', Bool.and_eq_false_iff,
          decide_eq_false_iff_not] at hno
        tauto
      -- the same number without the first byte
      have hshort := length_toByteArray_le (List.cons_ne_nil b bs)
      rw [← ofByteArray_sign hsign, ← hbytes, hval, hbytes] at hshort
      simp at hshort

theorem getMpint_writeString {n : ℤ} (h : n ≠ 0) (hlen : (toByteArray n).length < 2 ^ 32) (rest : Bytes) :
    getMpint (writeString (toByteArray n) ++ rest) = some (n, rest) := by
  unfold getMpint
  rw [getString_writeString hlen, Option.bind_eq_bind, Option.bind_some]
  dsimp only
  rw [if_pos (canonical_toByteArray h), ofByteArray_toByteArray]

theorem length_writeString (value : Bytes) : (writeString value).length = 4 + value.length := by
  rw [writeString, List.length_append, length_writeInt]

theorem parseSignature_eq {type : Bytes} {r s : ℤ} (flags : UInt8) (counter : ℤ) (hr : r ≠ 0) (hs : s ≠ 0)
    (htype : type.length < 2 ^ 32)
    (hlen : (writeString (toByteArray r) ++ writeString (toByteArray s)).length < 2 ^ 32) :
    parseSignature (writeString type ++ writeString (writeString (toByteArray r) ++ writeString (toByteArray s)) ++
      [flags] ++ writeInt counter) = some ⟨type, r, s, flags, (counter % 2 ^ 32).toNat⟩ := by
  have hlengths := hlen
  simp only [List.length_append, length_writeString] at hlengths
  have hlast := getMpint_writeString hs (by omega) []
  have hcounter := getUint32_writeInt counter []
  rw [List.append_nil] at hlast hcounter
  simp only [parseSignature, List.append_assoc, Option.bind_eq_bind]
  rw [getString_writeString htype, Option.bind_some, getString_writeString hlen, Option.bind_some,
    getMpint_writeString hr (by omega), Option.bind_some, hlast, Option.bind_some, List.singleton_append, getByte,
    Option.bind_some, hcounter, Option.bind_some]
  exact if_pos ⟨rfl, rfl⟩

theorem parseResponse_sendPayload {signature : Bytes} (h : signature.length < 2 ^ 31) :
    parseResponse (sendPayload (signResponse signature)) = parseSignature signature := by
  have hmessage : (signResponse signature).length < 2 ^ 32 := by
    rw [signResponse, List.length_cons, length_writeString]
    omega
  have houter := getString_writeString hmessage []
  have hinner := getString_writeString (show signature.length < 2 ^ 32 by omega) []
  rw [List.append_nil] at houter hinner
  change parseResponse (writeString (signResponse signature)) = _
  simp only [parseResponse, Option.bind_eq_bind]
  rw [houter, Option.bind_some, signResponse, getByte, Option.bind_some, hinner, Option.bind_some]
  exact if_pos ⟨rfl, rfl, rfl⟩

end Wire

theorem length_skEcdsaType : (encodeUtf8 SK_ECDSA_TYPE).length = 34 := by decide

/-- The verifier reads the key type, the signature as two canonical mpints, the flags and the
counter, and gets the signed bytes back from them. -/
theorem response_verifies (sha256 : Bytes → Bytes) (sign : Bytes → Option Bytes) (application : JString) (counter : ℤ)
    (message : Bytes) (r s : ℤ) (hr : 0 < r) (hs : 0 < s) (hlo : -2 ^ 31 ≤ counter) (hhi : counter < 2 ^ 31)
    (hsign : sign (signSecurityKeyOnce sha256 sign application counter message).signed = some (derSignature r s))
    (hlen : (derBody r s).length < 65536) :
    ∃ out p, (signSecurityKeyOnce sha256 sign application counter message).sent = some out ∧
      parseResponse out = some p ∧
      p.keyType = encodeUtf8 SK_ECDSA_TYPE ∧ p.r = r ∧ p.s = s ∧ p.flags = SK_USER_PRESENT ∧
      wrap32 p.counter = counter ∧ (0 ≤ counter → (p.counter : ℤ) = counter) ∧
      p.signed sha256 application message = (signSecurityKeyOnce sha256 sign application counter message).signed := by
  have hder := ecdsaDerToSsh_derSignature hlen
  have hecdsa : (writeString (toByteArray r) ++ writeString (toByteArray s)).length < 2 * 65536 := by
    have hbody := length_derBody r s
    simp only [List.length_append, length_writeString]
    omega
  have htype := length_skEcdsaType
  have hsent : (signSecurityKeyOnce sha256 sign application counter message).sent =
      some (sendPayload (signResponse (writeString (encodeUtf8 SK_ECDSA_TYPE) ++
        writeString (writeString (toByteArray r) ++ writeString (toByteArray s)) ++
        [SK_USER_PRESENT] ++ writeInt counter))) := by
    change ((sign (signSecurityKeyOnce sha256 sign application counter message).signed).bind
      (skSignResponse counter)).map sendPayload = _
    rw [hsign, Option.bind_some, skSignResponse, hder]
    rfl
  refine ⟨_, ⟨encodeUtf8 SK_ECDSA_TYPE, r, s, SK_USER_PRESENT, (counter % 2 ^ 32).toNat⟩, hsent, ?_, rfl, rfl, rfl,
    rfl, ?_, ?_, ?_⟩
  · rw [parseResponse_sendPayload, parseSignature_eq _ _ hr.ne' hs.ne' (by omega) (by omega)]
    rw [List.length_append, List.length_append, List.length_append, length_writeString, length_writeString, htype,
      length_writeInt, List.length_singleton]
    omega
  · dsimp only
    unfold wrap32
    omega
  · dsimp only
    omega
  · have hcounter : beBytes 4 ((counter % 2 ^ 32).toNat : ℤ) = writeInt counter := by
      rw [Int.toNat_of_nonneg (Int.emod_nonneg _ (by norm_num))]
      exact beBytes_emod 4 counter
    rw [Parsed.signed, hcounter]
    rfl

/-- A signature whose first number needs a sign byte. -/
theorem response_verifies_small :
    (derBody 200 3).length < 65536 ∧
    ∃ out p, (signSecurityKeyOnce (fun _ => [1, 2]) (fun _ => some (derSignature 200 3)) ['s', 's', 'h', ':'] 5
        [7]).sent = some out ∧ parseResponse out = some p ∧ p.r = 200 ∧ p.s = 3 ∧
      p.signed (fun _ => [1, 2]) ['s', 's', 'h', ':'] [7] = [1, 2, 1, 0, 0, 0, 5, 1, 2] := by
  have hlen : (derBody 200 3).length < 65536 := by decide
  obtain ⟨out, p, hsent, hparse, -, hr, hs, -, -, -, hsigned⟩ :=
    response_verifies (fun _ => [1, 2]) (fun _ => some (derSignature 200 3)) ['s', 's', 'h', ':'] 5 [7] 200 3
      (by decide) (by decide) (by decide) (by decide) rfl hlen
  exact ⟨hlen, out, p, hsent, hparse, hr, hs, hsigned.trans (by decide)⟩

end Tinyhack.SecurityKey
