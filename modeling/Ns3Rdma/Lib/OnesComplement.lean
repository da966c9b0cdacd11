import Mathlib.Data.Nat.ModEq

/-! # Sums with an end-around carry

In ones' complement arithmetic on digits below `b` a carry is added back at the low end. The sum
keeps its class modulo `b - 1`, and its complement is the number that makes the class zero. -/

namespace OnesComplement

variable {b : ℕ}

/-- Add the carry back at the low end. -/
def fold (b x : ℕ) : ℕ := x % b + x / b

theorem fold_modEq (hb : 0 < b) (x : ℕ) : fold b x ≡ x [MOD b - 1] := by
  have hone : b ≡ 1 [MOD b - 1] := by
    have hsub : b = 1 + (b - 1) := by omega
    exact (Nat.modEq_iff_dvd' hb).mpr (dvd_refl _) |>.symm
  have hsplit : x % b + x / b * b = x := Nat.mod_add_div' x b
  calc fold b x = x % b + x / b * 1 := by rw [fold, Nat.mul_one]
    _ ≡ x % b + x / b * b [MOD b - 1] := ((hone.mul_left _).add_left _).symm
    _ = x := hsplit

theorem fold_of_lt {x : ℕ} (h : x < b) : fold b x = x := by
  rw [fold, Nat.mod_eq_of_lt h, Nat.div_eq_of_lt h, Nat.add_zero]

theorem fold_eq_zero {x : ℕ} : fold b x = 0 ↔ x = 0 := by
  have hsplit : x % b + x / b * b = x := Nat.mod_add_div' x b
  constructor
  · intro h
    rw [fold, Nat.add_eq_zero_iff] at h
    rw [h.1, h.2, Nat.zero_mul] at hsplit
    exact hsplit.symm
  · rintro rfl
    rw [fold, Nat.zero_mod, Nat.zero_div]

/-- Two foldings bring a two-digit number down to one digit. -/
theorem fold_fold_lt {x : ℕ} (hx : x < b * b) : fold b (fold b x) < b := by
  have hb : 0 < b := Nat.pos_of_ne_zero (by rintro rfl; simp at hx)
  have hlow : x % b < b := Nat.mod_lt x hb
  have hhigh : x / b < b := Nat.div_lt_of_lt_mul hx
  have hfold : fold b x < 2 * b - 1 := by
    unfold fold
    omega
  generalize fold b x = y at hfold
  by_cases hy : y < b
  · rwa [fold_of_lt hy]
  · have hdiv : y / b = 1 := Nat.div_eq_of_lt_le (by omega) (by omega)
    have hmod : y % b = y - b := by
      rw [Nat.mod_eq_sub_mod (by omega), Nat.mod_eq_of_lt (by omega)]
    rw [fold, hdiv, hmod]
    omega

/-- The complement of the folded sum. -/
def checksum (b x : ℕ) : ℕ := b - 1 - fold b (fold b x)

theorem checksum_lt (hb : 0 < b) (x : ℕ) : checksum b x < b := by
  unfold checksum
  omega

theorem checksum_add_modEq {x : ℕ} (hx : x < b * b) : checksum b x + x ≡ 0 [MOD b - 1] := by
  have hb : 0 < b := Nat.pos_of_ne_zero (by rintro rfl; simp at hx)
  have hlt := fold_fold_lt hx
  have hclass : x ≡ fold b (fold b x) [MOD b - 1] :=
    ((fold_modEq hb _).trans (fold_modEq hb x)).symm
  have hsum : checksum b x + fold b (fold b x) = b - 1 := by
    unfold checksum
    omega
  calc checksum b x + x ≡ checksum b x + fold b (fold b x) [MOD b - 1] := hclass.add_left _
    _ = b - 1 := hsum
    _ ≡ 0 [MOD b - 1] := Nat.modEq_zero_iff_dvd.mpr (dvd_refl _)

/-- The checksum vanishes for the sums in the class of zero, but not for the sum zero. -/
theorem checksum_eq_zero_iff (hb : 1 < b) {x : ℕ} (hx : x < b * b) :
    checksum b x = 0 ↔ x ≠ 0 ∧ x ≡ 0 [MOD b - 1] := by
  have hpos : 0 < b := by omega
  have hlt := fold_fold_lt hx
  have hclass : fold b (fold b x) ≡ x [MOD b - 1] :=
    (fold_modEq hpos _).trans (fold_modEq hpos x)
  have hzero : fold b (fold b x) = 0 ↔ x = 0 := by rw [fold_eq_zero, fold_eq_zero]
  constructor
  · intro h
    have htop : fold b (fold b x) = b - 1 := by
      unfold checksum at h
      omega
    refine ⟨fun hx0 => ?_, ?_⟩
    · have := hzero.mpr hx0
      omega
    · rw [htop] at hclass
      exact hclass.symm.trans (Nat.modEq_zero_iff_dvd.mpr (dvd_refl _))
  · rintro ⟨hne, hmod⟩
    have hdvd := Nat.modEq_zero_iff_dvd.mp (hclass.trans hmod)
    have hfold : fold b (fold b x) ≠ 0 := mt hzero.mp hne
    have hle := Nat.le_of_dvd (Nat.pos_of_ne_zero hfold) hdvd
    unfold checksum
    omega

/-- A sum that contains its own checksum has the checksum zero. -/
theorem checksum_add_checksum (hb : 1 < b) {x : ℕ} (hx : checksum b x + x < b * b) :
    checksum b (checksum b x + x) = 0 := by
  have hx' : x < b * b := by omega
  refine (checksum_eq_zero_iff hb hx).mpr ⟨?_, checksum_add_modEq hx'⟩
  intro hsum
  have hx0 : x = 0 := by omega
  have hfold : fold b 0 = 0 := fold_eq_zero.mpr rfl
  rw [hx0, Nat.add_zero, checksum, hfold, hfold] at hsum
  omega

/-- Exchange one digit of a sum whose checksum is zero. -/
theorem checksum_exchange (hb : 1 < b) {x d d' : ℕ} (hx : x + d < b * b)
    (hd : d < b) (hd' : d' < b) (hne : d ≠ d')
    (hends : ¬ (d = 0 ∧ d' = b - 1) ∧ ¬ (d = b - 1 ∧ d' = 0))
    (hx' : x + d' < b * b) (hzero : checksum b (x + d) = 0) : checksum b (x + d') ≠ 0 := by
  intro hzero'
  have hmod := ((checksum_eq_zero_iff hb hx).mp hzero).2
  have hmod' := ((checksum_eq_zero_iff hb hx').mp hzero').2
  have hsame : d ≡ d' [MOD b - 1] := Nat.ModEq.add_left_cancel' x (hmod.trans hmod'.symm)
  have hdiv : ∀ {m n : ℕ}, m ≤ n → n < b → m ≡ n [MOD b - 1] →
      m = n ∨ m = 0 ∧ n = b - 1 := by
    intro m n hmn hn h
    have hdvd : b - 1 ∣ n - m := (Nat.modEq_iff_dvd' hmn).mp h
    by_cases hzero : n - m = 0
    · left
      omega
    · have := Nat.le_of_dvd (Nat.pos_of_ne_zero hzero) hdvd
      right
      omega
  rcases Nat.le_total d d' with hle | hle
  · rcases hdiv hle hd' hsame with h | h
    · exact hne h
    · exact hends.1 h
  · rcases hdiv hle hd hsame.symm with h | h
    · exact hne h.symm
    · exact hends.2 ⟨h.2, h.1⟩

end OnesComplement
