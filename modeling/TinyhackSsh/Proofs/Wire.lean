import Mathlib.Data.Nat.Size
import TinyhackSsh.Spec.Wire

/-! Big-endian bytes and integers: reading inverts writing for a Java `int` and
for `BigInteger`, whose byte array is the shortest one with its value. -/

namespace Tinyhack

/-- An `int` is its own low 32 bits. -/
theorem wrap32_eq {n : ℤ} (h0 : -2 ^ 31 ≤ n) (h : n < 2 ^ 31) : wrap32 n = n := by
  unfold wrap32
  omega

namespace Wire

@[simp] theorem length_beBytes (k : ℕ) (n : ℤ) : (beBytes k n).length = k := by
  induction k generalizing n with
  | zero => rfl
  | succ k ih => simp [beBytes, ih]

theorem beNat_append_singleton (bs : Bytes) (b : UInt8) : beNat (bs ++ [b]) = beNat bs * 256 + b.toNat := by
  simp [beNat]

theorem beNat_lt (bs : Bytes) : beNat bs < 256 ^ bs.length := by
  induction bs using List.reverseRecOn with
  | nil => simp [beNat]
  | append_singleton bs b ih =>
    have hb := b.toNat_lt
    rw [beNat_append_singleton, List.length_append, List.length_singleton, pow_succ]
    omega

theorem beNat_beBytes (k : ℕ) (n : ℤ) : (beNat (beBytes k n) : ℤ) = n % 256 ^ k := by
  induction k generalizing n with
  | zero => simp [beBytes, beNat]
  | succ k ih =>
    have hlast : ((UInt8.ofNat (n % 256).toNat).toNat : ℤ) = n % 256 := by
      have hnonneg : 0 ≤ n % 256 := Int.emod_nonneg n (by norm_num)
      have hlt : n % 256 < 256 := Int.emod_lt_of_pos n (by norm_num)
      rw [UInt8.toNat_ofNat_of_lt' (by simp [UInt8.size]; omega)]
      exact Int.toNat_of_nonneg hnonneg
    rw [beBytes, beNat_append_singleton]
    push_cast
    rw [ih, hlast, pow_succ, Int.emod_def n (256 ^ k * 256), Int.emod_def (n / 256) (256 ^ k),
      Int.emod_def n 256, mul_comm ((256 : ℤ) ^ k) 256, ← Int.ediv_ediv_of_nonneg (by norm_num)]
    ring

theorem beBytes_beNat (bs : Bytes) : beBytes bs.length (beNat bs) = bs := by
  induction bs using List.reverseRecOn with
  | nil => rfl
  | append_singleton bs b ih =>
    have hb := b.toNat_lt
    have hdiv : ((beNat (bs ++ [b]) : ℕ) : ℤ) / 256 = beNat bs := by
      rw [beNat_append_singleton]
      omega
    have hmod : (((beNat (bs ++ [b]) : ℕ) : ℤ) % 256).toNat = b.toNat := by
      rw [beNat_append_singleton]
      omega
    rw [List.length_append, List.length_singleton, beBytes, hdiv, ih, hmod, UInt8.ofNat_toNat]

/-- The bytes depend on the value modulo their range only. -/
theorem beBytes_emod (k : ℕ) (n : ℤ) : beBytes k (n % 256 ^ k) = beBytes k n := by
  have h := beBytes_beNat (beBytes k n)
  rwa [length_beBytes, beNat_beBytes] at h

theorem beNat_cons (b : UInt8) (bs : Bytes) : beNat (b :: bs) = b.toNat * 256 ^ bs.length + beNat bs := by
  induction bs using List.reverseRecOn with
  | nil => simp [beNat]
  | append_singleton bs c ih =>
    rw [← List.cons_append, beNat_append_singleton, ih, beNat_append_singleton, List.length_append,
      List.length_singleton, pow_succ]
    ring

/-- The sign is the top bit of the unsigned value. -/
theorem ofByteArray_eq {bs : Bytes} {m : ℕ} (hlen : bs.length = m + 1) :
    ofByteArray bs = if 128 * 256 ^ m ≤ beNat bs then (beNat bs : ℤ) - 256 ^ (m + 1) else beNat bs := by
  cases bs with
  | nil => simp at hlen
  | cons b bs =>
    obtain rfl : bs.length = m := by simpa using hlen
    have hrest := beNat_lt bs
    have hiff : 128 ≤ b.toNat ↔ 128 * 256 ^ bs.length ≤ beNat (b :: bs) := by
      rw [beNat_cons]
      constructor
      · intro hb
        exact (Nat.mul_le_mul_right _ hb).trans (Nat.le_add_right _ _)
      · intro hle
        by_contra hb
        have hmul : b.toNat * 256 ^ bs.length ≤ 127 * 256 ^ bs.length := Nat.mul_le_mul_right _ (by omega)
        omega
    simp only [ofByteArray, List.headD_cons, hiff, List.length_cons]

theorem ofByteArray_range {bs : Bytes} {m : ℕ} (hlen : bs.length = m + 1) :
    -(128 * 256 ^ m) ≤ ofByteArray bs ∧ ofByteArray bs < 128 * 256 ^ m := by
  have hlt : (beNat bs : ℤ) < 256 ^ m * 256 := by
    have h := beNat_lt bs
    rw [hlen, pow_succ] at h
    exact_mod_cast h
  rw [ofByteArray_eq hlen, pow_succ]
  split_ifs with hsign
  · have hsign' : (128 * 256 ^ m : ℤ) ≤ beNat bs := by exact_mod_cast hsign
    constructor <;> linarith
  · have hsign' : (beNat bs : ℤ) < 128 * 256 ^ m := by exact_mod_cast not_le.mp hsign
    constructor <;> linarith [Int.natCast_nonneg (beNat bs)]

/-- Writing inverts reading. -/
theorem beBytes_ofByteArray (bs : Bytes) : beBytes bs.length (ofByteArray bs) = bs := by
  have hmod : ofByteArray bs % 256 ^ bs.length = (beNat bs : ℤ) % 256 ^ bs.length := by
    unfold ofByteArray
    split_ifs
    · exact Int.sub_emod_right _ _
    · rfl
  rw [← beBytes_emod, hmod, beBytes_emod, beBytes_beNat]

/-- Reading inverts writing where the value fits. -/
theorem ofByteArray_beBytes {m : ℕ} {n : ℤ} (hlo : -(128 * 256 ^ m) ≤ n) (hhi : n < 128 * 256 ^ m) :
    ofByteArray (beBytes (m + 1) n) = n := by
  have hval := beNat_beBytes (m + 1) n
  rw [ofByteArray_eq (length_beBytes (m + 1) n)]
  have hpow : (256 : ℤ) ^ (m + 1) = 256 ^ m * 256 := pow_succ 256 m
  have hpos : (0 : ℤ) < 256 ^ m := by positivity
  rcases lt_or_ge n 0 with hneg | hnonneg
  · have hmod : n % 256 ^ (m + 1) = n + 256 ^ (m + 1) := by
      rw [← Int.add_emod_right]
      exact Int.emod_eq_of_lt (by linarith) (by linarith)
    rw [hmod] at hval
    have hsign : 128 * 256 ^ m ≤ beNat (beBytes (m + 1) n) := by
      have : (128 * 256 ^ m : ℤ) ≤ beNat (beBytes (m + 1) n) := by linarith
      exact_mod_cast this
    rw [if_pos hsign, hval]
    ring
  · rw [Int.emod_eq_of_lt hnonneg (by linarith)] at hval
    have hsign : ¬ 128 * 256 ^ m ≤ beNat (beBytes (m + 1) n) := by
      intro hle
      have : (128 * 256 ^ m : ℤ) ≤ beNat (beBytes (m + 1) n) := by exact_mod_cast hle
      linarith
    rw [if_neg hsign, hval]

/-! A Java `int` on the wire. -/

@[simp] theorem length_writeInt (n : ℤ) : (writeInt n).length = 4 := length_beBytes 4 n

theorem readInt_eq_some {bs rest : Bytes} {n : ℤ} (h : readInt bs = some (n, rest)) :
    bs = writeInt n ++ rest ∧ -2 ^ 31 ≤ n ∧ n < 2 ^ 31 := by
  match bs, h with
  | a :: b :: c :: d :: tail, h =>
    simp only [readInt, Option.some.injEq, Prod.mk.injEq] at h
    obtain ⟨rfl, rfl⟩ := h
    have hrange := ofByteArray_range (show [a, b, c, d].length = 3 + 1 from rfl)
    have hbytes : writeInt (ofByteArray [a, b, c, d]) = [a, b, c, d] := beBytes_ofByteArray [a, b, c, d]
    rw [hbytes]
    norm_num at hrange ⊢
    exact hrange

theorem readInt_writeInt {n : ℤ} (hlo : -2 ^ 31 ≤ n) (hhi : n < 2 ^ 31) (rest : Bytes) :
    readInt (writeInt n ++ rest) = some (n, rest) := by
  have hval : ofByteArray (writeInt n) = n :=
    ofByteArray_beBytes (m := 3) (by norm_num at hlo ⊢; exact hlo) (by norm_num at hhi ⊢; exact hhi)
  match hb : writeInt n, length_writeInt n with
  | [a, b, c, d], _ =>
    rw [hb] at hval
    simp [readInt, hval]

/-! `BigInteger` and SSH multi-precision integers. -/

theorem bitLength_spec (n : ℤ) : -2 ^ bitLength n ≤ n ∧ n < 2 ^ bitLength n := by
  unfold bitLength
  split_ifs with hn
  · have hlt : n.toNat < 2 ^ n.toNat.size := Nat.lt_size_self _
    have hcast : (n.toNat : ℤ) < 2 ^ n.toNat.size := by exact_mod_cast hlt
    rw [Int.toNat_of_nonneg hn] at hcast
    exact ⟨by linarith [pow_pos (show (0 : ℤ) < 2 by norm_num) n.toNat.size], hcast⟩
  · have hlt : (-n - 1).toNat < 2 ^ (-n - 1).toNat.size := Nat.lt_size_self _
    have hcast : ((-n - 1).toNat : ℤ) < 2 ^ (-n - 1).toNat.size := by exact_mod_cast hlt
    rw [Int.toNat_of_nonneg (by omega)] at hcast
    exact ⟨by linarith, by linarith [pow_pos (show (0 : ℤ) < 2 by norm_num) (-n - 1).toNat.size]⟩

theorem bitLength_le {n : ℤ} {k : ℕ} (hlo : -2 ^ k ≤ n) (hhi : n < 2 ^ k) : bitLength n ≤ k := by
  unfold bitLength
  split_ifs with hn
  · have hlt : n.toNat < 2 ^ k := by
      zify
      rwa [Int.toNat_of_nonneg hn]
    exact Nat.size_le.mpr hlt
  · have hlt : (-n - 1).toNat < 2 ^ k := by
      zify
      rw [Int.toNat_of_nonneg (by omega)]
      linarith
    exact Nat.size_le.mpr hlt

theorem pow_eq (m : ℕ) : (128 * 256 ^ m : ℤ) = 2 ^ (8 * m + 7) := by
  rw [pow_add, pow_mul]
  norm_num
  ring

theorem ofByteArray_toByteArray (n : ℤ) : ofByteArray (toByteArray n) = n := by
  obtain ⟨hlo, hhi⟩ := bitLength_spec n
  have hle : (2 : ℤ) ^ bitLength n ≤ 2 ^ (8 * (bitLength n / 8) + 7) :=
    pow_le_pow_right₀ (by norm_num) (by omega)
  refine ofByteArray_beBytes ?_ ?_ <;> rw [pow_eq] <;> linarith

/-- No byte array with the same value is shorter. -/
theorem length_toByteArray_le {bs : Bytes} (hne : bs ≠ []) :
    (toByteArray (ofByteArray bs)).length ≤ bs.length := by
  obtain ⟨m, hm⟩ := Nat.exists_eq_succ_of_ne_zero (List.length_pos_iff.mpr hne).ne'
  obtain ⟨hlo, hhi⟩ := ofByteArray_range hm
  rw [pow_eq] at hlo hhi
  have hbits := bitLength_le hlo hhi
  rw [toByteArray, length_beBytes, hm]
  omega

end Wire
end Tinyhack
