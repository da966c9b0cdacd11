import Mathlib.Algebra.Order.Ring.Nat
import Mathlib.Data.Nat.Bitwise
import Mathlib.Tactic.Ring

/-! # Fixed-point arithmetic

Numbers in units of `1 / B` have an integer part above `B` and a fractional part below it. A product
is put together from the products of the parts, a quotient from the remainder, and a division may be
a multiplication with a reciprocal. -/

namespace FixedPoint

/-- The truncated product of two numbers, from the products of their parts. -/
theorem mul_div {B aH aL bH bL : ℕ} (hB : 0 < B) :
    (aH * B + aL) * (bH * B + bL) / B = aH * bH * B + (aL * bH + aH * bL) + aL * bL / B := by
  have hsum : (aH * B + aL) * (bH * B + bL) =
      aL * bL + B * (aH * bH * B + (aL * bH + aH * bL)) := by ring
  rw [hsum, Nat.add_mul_div_left _ _ hB, Nat.add_comm]

theorem or_one (n : ℕ) : n ||| 1 = n + 1 - n % 2 := by
  have hone : 1 < 2 ^ 1 := by decide
  have hsplit : n = 2 ^ 1 * (n / 2) + n % 2 := (Nat.div_add_mod n 2).symm
  rcases Nat.mod_two_eq_zero_or_one n with hmod | hmod
  · rw [hmod, Nat.add_zero] at hsplit
    have hor := Nat.two_pow_add_eq_or_of_lt hone (n / 2)
    rw [← hsplit] at hor
    rw [← hor, hmod]
    rfl
  · rw [hmod] at hsplit
    have hor := Nat.two_pow_add_eq_or_of_lt hone (n / 2)
    rw [← hsplit] at hor
    rw [hmod, Nat.add_sub_cancel]
    nth_rewrite 1 [hor]
    rw [Nat.or_assoc, Nat.or_self, ← hor]

/-- A carry into a multiple of `2 ^ k` is lost by a bitwise or, unless its place is free. -/
theorem or_eq_add_iff {k high low : ℕ} (hlow : low < 2 ^ (k + 1)) :
    high <<< k ||| low = high <<< k + low ↔ low < 2 ^ k ∨ high % 2 = 0 := by
  rcases Nat.lt_or_ge low (2 ^ k) with hsmall | hbig
  · exact iff_of_true (Nat.shiftLeft_add_eq_or_of_lt hsmall high).symm (Or.inl hsmall)
  · obtain ⟨rest, rfl⟩ := Nat.exists_eq_add_of_le hbig
    have hrest : rest < 2 ^ k := by
      rw [Nat.pow_succ] at hlow
      omega
    have hcarry : 2 ^ k + rest = 1 <<< k ||| rest := by
      rw [← Nat.shiftLeft_add_eq_or_of_lt hrest, Nat.one_shiftLeft]
    have hor : high <<< k ||| (2 ^ k + rest) = (high + 1 - high % 2) <<< k + rest := by
      rw [hcarry, ← Nat.or_assoc, ← Nat.shiftLeft_or_distrib, or_one,
        Nat.shiftLeft_add_eq_or_of_lt hrest]
    have hsum : high <<< k + (2 ^ k + rest) = (high + 1) <<< k + rest := by
      rw [Nat.shiftLeft_eq, Nat.shiftLeft_eq, Nat.succ_mul, Nat.add_assoc]
    have hpos : 0 < 2 ^ k := Nat.two_pow_pos k
    rw [hor, hsum, Nat.add_right_cancel_iff, Nat.shiftLeft_eq, Nat.shiftLeft_eq,
      Nat.mul_right_cancel_iff hpos]
    omega

/-! ## Quotients -/

/-- The fractional part of a quotient comes from the remainder. -/
theorem mul_div_of_remainder (a B : ℕ) {b : ℕ} (hb : 0 < b) :
    a * B / b = a / b * B + a % b * B / b := by
  have hsum : a * B = a % b * B + b * (a / b * B) := by
    conv_lhs => rw [← Nat.div_add_mod a b]
    ring
  rw [hsum, Nat.add_mul_div_left _ _ hb, Nat.add_comm]

/-- To divide by the integer part of the divisor instead is not to fall short. -/
theorem mul_div_le_div_top {r b B : ℕ} (htop : 0 < b / B) : r * B / b ≤ r / (b / B) := by
  have hB : 0 < B := by
    by_contra hzero
    obtain rfl := Nat.eq_zero_of_not_pos hzero
    rw [Nat.div_zero] at htop
    exact Nat.lt_irrefl 0 htop
  have hle : b / B * B ≤ b := Nat.div_mul_le_self b B
  rw [Nat.le_div_iff_mul_le htop]
  have hquot : r * B / b * b ≤ r * B := Nat.div_mul_le_self _ _
  have hstep : r * B / b * (b / B) * B ≤ r * B := by
    rw [Nat.mul_assoc]
    exact (Nat.mul_le_mul_left _ hle).trans hquot
  exact Nat.le_of_mul_le_mul_right hstep hB

/-- It exceeds the quotient by one at most, exactly if the fractional part of the divisor is small
enough for the quotient. -/
theorem div_top_le_iff {r bH bL B : ℕ} (hbH : 0 < bH) (hB : 0 < B) :
    r / bH ≤ r * B / (bH * B + bL) + 1 ↔ (r / bH - 1) * bL ≤ (bH + r % bH) * B := by
  have hb : 0 < bH * B + bL := Nat.add_pos_left (Nat.mul_pos hbH hB) _
  rw [← Nat.sub_le_iff_le_add, Nat.le_div_iff_mul_le hb]
  have hr : r = bH * (r / bH) + r % bH := (Nat.div_add_mod r bH).symm
  rcases Nat.eq_zero_or_pos (r / bH) with hzero | hpos
  · rw [hzero]
    simp
  · obtain ⟨q, hq⟩ := Nat.exists_eq_succ_of_ne_zero hpos.ne'
    rw [hq] at hr ⊢
    have hleft : (q + 1 - 1) * (bH * B + bL) = q * bL + q * bH * B := by
      rw [Nat.add_sub_cancel]
      ring
    have hright : r * B = (bH + r % bH) * B + q * bH * B := by
      conv_lhs => rw [hr]
      rw [Nat.succ_eq_add_one]
      ring
    rw [Nat.succ_eq_add_one, hleft, hright, Nat.add_le_add_iff_right, Nat.add_sub_cancel]

/-! ## Reciprocals -/

/-- Multiplying with a reciprocal that is rounded up is dividing, as long as the error does not
reach the next multiple. -/
theorem mul_reciprocal_div {n c e v M : ℕ} (hv : 0 < v) (hc : c * v = M + e)
    (herror : n * e < M) : n * c / M = n / v := by
  apply Nat.div_eq_of_lt_le
  · apply Nat.le_of_mul_le_mul_right _ hv
    calc n / v * M * v = n / v * v * M := by ring
      _ ≤ n * M := Nat.mul_le_mul_right _ (Nat.div_mul_le_self n v)
      _ ≤ n * (M + e) := Nat.mul_le_mul_left _ (Nat.le_add_right _ _)
      _ = n * c * v := by rw [← hc, Nat.mul_assoc]
  · apply Nat.lt_of_mul_lt_mul_right (a := v)
    have hnext : n + 1 ≤ (n / v + 1) * v := Nat.lt_mul_of_div_lt (Nat.lt_succ_self _) hv
    calc n * c * v = n * M + n * e := by rw [Nat.mul_assoc, hc, Nat.mul_add]
      _ < n * M + M := Nat.add_lt_add_left herror _
      _ = (n + 1) * M := by ring
      _ ≤ (n / v + 1) * v * M := Nat.mul_le_mul_right _ hnext
      _ = (n / v + 1) * M * v := by ring

end FixedPoint
