import Mathlib.Data.Nat.Bitwise
import Mathlib.Data.UInt

/-! # Exact arithmetic on words

The C++ counters wrap silently. These rules read one update as ordinary arithmetic
on naturals, provided that it stays in range, a mask of low bits as a division, and a word put
together from two parts as a sum. -/

namespace Word

/-- A part that is shifted and one that fits below it. -/
theorem shiftLeft_mod_or {high low k w : ℕ} (hhigh : high * 2 ^ k < 2 ^ w) (hlow : low < 2 ^ k) :
    high <<< k % 2 ^ w ||| low = high * 2 ^ k + low := by
  rw [Nat.mod_eq_of_lt (by rwa [Nat.shiftLeft_eq]), ← Nat.shiftLeft_add_eq_or_of_lt hlow,
    Nat.shiftLeft_eq]

end Word

namespace UInt32

theorem toNat_add_of_lt {a b : UInt32} (h : a.toNat + b.toNat < 2 ^ 32) :
    (a + b).toNat = a.toNat + b.toNat := by
  rw [UInt32.toNat_add, Nat.mod_eq_of_lt h]

theorem toNat_sub_of_toNat_le {a b : UInt32} (h : b.toNat ≤ a.toNat) :
    (a - b).toNat = a.toNat - b.toNat :=
  UInt32.toNat_sub_of_le a b (UInt32.le_iff_toNat_le.mpr h)

/-- Clearing the low bits is shifting them out and back. -/
theorem and_not_low {w : ℕ} (x : BitVec w) (k : ℕ) :
    x &&& ~~~ BitVec.ofNat w (2 ^ k - 1) = (x >>> k) <<< k := by
  apply BitVec.eq_of_getLsbD_eq
  intro i hi
  rw [BitVec.getLsbD_and, BitVec.getLsbD_not, BitVec.getLsbD_ofNat, Nat.testBit_two_pow_sub_one,
    BitVec.getLsbD_shiftLeft, BitVec.getLsbD_ushiftRight]
  by_cases hlow : i < k
  · simp [hi, hlow]
  · rw [Nat.add_sub_of_le (Nat.le_of_not_lt hlow)]
    simp [hi, hlow]

/-- Rounding down to a multiple of a power of two. -/
theorem toNat_and_not_low (x : UInt32) (k : ℕ) :
    (x.toBitVec &&& ~~~ BitVec.ofNat 32 (2 ^ k - 1)).toNat = x.toNat / 2 ^ k * 2 ^ k := by
  have hle : x.toNat / 2 ^ k * 2 ^ k < 2 ^ 32 :=
    Nat.lt_of_le_of_lt (Nat.div_mul_le_self _ _) x.toNat_lt
  rw [and_not_low, BitVec.toNat_shiftLeft, BitVec.toNat_ushiftRight, Nat.shiftRight_eq_div_pow,
    Nat.shiftLeft_eq, UInt32.toNat_toBitVec, Nat.mod_eq_of_lt hle]

end UInt32
