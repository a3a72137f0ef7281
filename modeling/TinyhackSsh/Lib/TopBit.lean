import Mathlib.Data.Nat.Bitwise
import Mathlib.Tactic

/-! A number of `k` bits with a flag in the bit above them. -/

namespace TopBit

variable {k n : ℕ}

theorem and_two_pow_eq_zero (hn : n < 2 ^ k) : n &&& 2 ^ k = 0 := by
  rw [Nat.and_two_pow, Nat.testBit_lt_two_pow hn]
  exact Nat.zero_mul _

theorem or_eq_add (hn : n < 2 ^ k) (flag : Bool) : flag.toNat <<< k ||| n = flag.toNat * 2 ^ k + n := by
  rw [← Nat.shiftLeft_add_eq_or_of_lt hn, Nat.shiftLeft_eq]

theorem or_lt (hn : n < 2 ^ k) (flag : Bool) : flag.toNat <<< k ||| n < 2 ^ (k + 1) := by
  rw [or_eq_add hn, pow_succ]
  have := Nat.mul_le_mul_right (2 ^ k) (Bool.toNat_le flag)
  omega

theorem low (hn : n < 2 ^ k) (flag : Bool) : (flag.toNat <<< k ||| n) &&& (2 ^ k - 1) = n := by
  rw [Nat.and_two_pow_sub_one_eq_mod, or_eq_add hn, add_comm, Nat.add_mul_mod_self_right, Nat.mod_eq_of_lt hn]

theorem high (hn : n < 2 ^ k) (flag : Bool) : (flag.toNat <<< k ||| n) &&& 2 ^ k = flag.toNat * 2 ^ k := by
  have hbit : (flag.toNat <<< k ||| n).testBit k = flag := by
    rw [Nat.testBit_or, Nat.testBit_lt_two_pow hn, Bool.or_false, Nat.testBit_shiftLeft]
    cases flag <;> simp
  rw [Nat.and_two_pow, hbit]

end TopBit
