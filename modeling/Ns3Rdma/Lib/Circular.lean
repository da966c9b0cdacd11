import Mathlib.Data.Fin.Basic

/-! # Circular numbers

Numbers modulo `n`, as they lie above a base `w`: `(a - w).val` is the distance of `a`. -/

namespace Circular

variable {n : ℕ} {w a b : Fin n}

theorem val_sub (a b : Fin n) :
    (a - b).val = if b.val ≤ a.val then a.val - b.val else n + a.val - b.val := by
  split
  · next hle => exact Fin.sub_val_of_le hle
  · next hlt => exact Fin.coe_sub_iff_lt.mpr (Nat.lt_of_not_le hlt)

/-- The distance from `b` to `a`, when both lie above `w`. -/
theorem val_sub_eq (w a b : Fin n) :
    (a - b).val = if (b - w).val ≤ (a - w).val then (a - w).val - (b - w).val
      else n + (a - w).val - (b - w).val := by
  have ha := a.isLt
  have hb := b.isLt
  have hw := w.isLt
  rw [val_sub, val_sub b, val_sub a w]
  split_ifs <;> omega

/-- The distance determines the number. -/
theorem eq_of_val_sub_eq (h : (a - w).val = (b - w).val) : a = b := by
  have ha := a.isLt
  have hb := b.isLt
  have hw := w.isLt
  apply Fin.ext
  rw [val_sub, val_sub b] at h
  split_ifs at h <;> omega

theorem val_sub_self (a : Fin n) : (a - a).val = 0 := by
  rw [val_sub, if_pos (Nat.le_refl _), Nat.sub_self]

theorem sub_add_sub_cancel (w a b : Fin n) : w + (a - b) - w = a - b := by
  apply Fin.ext
  have hw := w.isLt
  have hab := (a - b).isLt
  rw [val_sub, Fin.val_add_eq_ite]
  split_ifs <;> omega

theorem sub_sub_self (a b : Fin n) : (a - (a - b)).val = b.val := by
  have ha := a.isLt
  have hb := b.isLt
  rw [val_sub, val_sub a b]
  split_ifs <;> omega

theorem val_add_sub {d : Fin n} (h : (a - w).val + d.val < n) :
    (a + d - w).val = (a - w).val + d.val := by
  have ha := a.isLt
  have hw := w.isLt
  rw [val_sub] at h
  rw [val_sub, val_sub a w, Fin.val_add_eq_ite]
  split_ifs at h ⊢ <;> omega

theorem val_sub_sub {d : Fin n} (h : d.val ≤ (a - w).val) :
    (a - d - w).val = (a - w).val - d.val := by
  have ha := a.isLt
  have hw := w.isLt
  rw [val_sub] at h
  rw [val_sub, val_sub a w, val_sub a d]
  split_ifs at h ⊢ <;> omega

end Circular
