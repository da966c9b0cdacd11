import Mathlib.Logic.Equiv.Basic
import Mathlib.Order.Lattice

/-!
# The order of a binary heap

The keys of a binary heap stand at the positions `1 … n`, with the children of `i` at `2 * i`
and `2 * i + 1`. An exchange on the way up or down moves the only position whose order may be
violated.
-/

namespace HeapOrder

variable {κ : Type*} [LinearOrder κ] {key : ℕ → κ} {n k : ℕ}

/-- No key is smaller than the one above it. -/
def Ordered (key : ℕ → κ) (n : ℕ) : Prop :=
  ∀ i, 1 < i → i ≤ n → key (i / 2) ≤ key i

/-- Only `k` may be smaller than its parent, and the children of `k` are in order with that
parent. -/
structure UpHole (key : ℕ → κ) (n k : ℕ) : Prop where
  except : ∀ i, 1 < i → i ≤ n → i ≠ k → key (i / 2) ≤ key i
  grand : 1 < k → ∀ i, 1 < i → i ≤ n → i / 2 = k → key (k / 2) ≤ key i

/-- Only the children of `k` may be smaller than `k`, and they are in order with its parent. -/
structure DownHole (key : ℕ → κ) (n k : ℕ) : Prop where
  except : ∀ i, 1 < i → i ≤ n → i / 2 ≠ k → key (i / 2) ≤ key i
  grand : 1 < k → ∀ i, 1 < i → i ≤ n → i / 2 = k → key (k / 2) ≤ key i

/-- The root has the smallest key. -/
theorem Ordered.root_le (h : Ordered key n) {i : ℕ} (hpos : 1 ≤ i) (hi : i ≤ n) :
    key 1 ≤ key i := by
  induction i using Nat.strongRecOn with
  | ind i ih =>
      rcases Nat.eq_or_lt_of_le hpos with rfl | hlt
      · exact le_refl _
      · exact le_trans (ih (i / 2) (by omega) (by omega) (by omega)) (h i hlt hi)

/-- The parent of the parent is in order with a grandchild. -/
theorem Ordered.grand_le (h : Ordered key n) {i : ℕ} (hi : 1 < i / 2) (hin : i ≤ n) :
    key (i / 2 / 2) ≤ key i :=
  le_trans (h (i / 2) hi (by omega)) (h i (by omega) hin)

theorem UpHole.ordered (h : UpHole key n k) (hk : 1 < k → k ≤ n → key (k / 2) ≤ key k) :
    Ordered key n := by
  intro i hi hin
  rcases eq_or_ne i k with rfl | hne
  · exact hk hi hin
  · exact h.except i hi hin hne

theorem DownHole.ordered (h : DownHole key n k)
    (hk : ∀ i, 1 < i → i ≤ n → i / 2 = k → key k ≤ key i) : Ordered key n := by
  intro i hi hin
  by_cases hparent : i / 2 = k
  · rw [hparent]
    exact hk i hi hin hparent
  · exact h.except i hi hin hparent

section Exchange

omit [LinearOrder κ]

/-- The keys after an exchange of two positions. -/
def exchanged (key : ℕ → κ) (a b : ℕ) : ℕ → κ := fun i => key (Equiv.swap a b i)

@[simp] theorem exchanged_left (a b : ℕ) : exchanged key a b a = key b := by
  rw [exchanged, Equiv.swap_apply_left]

@[simp] theorem exchanged_right (a b : ℕ) : exchanged key a b b = key a := by
  rw [exchanged, Equiv.swap_apply_right]

theorem exchanged_of_ne {a b i : ℕ} (ha : i ≠ a) (hb : i ≠ b) :
    exchanged key a b i = key i := by
  rw [exchanged, Equiv.swap_apply_of_ne_of_ne ha hb]

end Exchange

/-- Exchange with the parent. -/
theorem UpHole.exchange (h : UpHole key n k) (hk : 1 < k) (hkn : k ≤ n)
    (hlt : key k < key (k / 2)) : UpHole (exchanged key k (k / 2)) n (k / 2) where
  except i hi hin hne := by
    rcases eq_or_ne i k with rfl | hik
    · rw [exchanged_right, exchanged_left]
      exact le_of_lt hlt
    · rw [exchanged_of_ne hik hne]
      by_cases hpk : i / 2 = k
      · rw [hpk, exchanged_left]
        exact h.grand hk i hi hin hpk
      · by_cases hpp : i / 2 = k / 2
        · rw [hpp, exchanged_right]
          exact le_of_lt (lt_of_lt_of_le hlt (hpp ▸ h.except i hi hin hik))
        · rw [exchanged_of_ne hpk hpp]
          exact h.except i hi hin hik
  grand hp i hi hin hparent := by
    have hgrand : key (k / 2 / 2) ≤ key (k / 2) := h.except (k / 2) hp (by omega) (by omega)
    rw [exchanged_of_ne (by omega) (by omega)]
    rcases eq_or_ne i k with rfl | hik
    · rw [exchanged_left]
      exact hgrand
    · rw [exchanged_of_ne hik (by omega)]
      exact le_trans hgrand (hparent ▸ h.except i hi hin hik)

/-- Exchange with the smallest child. -/
theorem DownHole.exchange {c : ℕ} (h : DownHole key n k) (hc : 1 < c) (hcn : c ≤ n)
    (hparent : c / 2 = k) (hsmallest : ∀ i, 1 < i → i ≤ n → i / 2 = k → key c ≤ key i)
    (hle : key c ≤ key k) : DownHole (exchanged key k c) n c where
  except i hi hin hne := by
    rcases eq_or_ne i c with rfl | hic
    · rw [hparent, exchanged_right, exchanged_left]
      exact hle
    · rcases eq_or_ne i k with rfl | hik
      · rw [exchanged_left, exchanged_of_ne (by omega) hne]
        exact h.grand hi c hc hcn hparent
      · rw [exchanged_of_ne hik hic]
        by_cases hpk : i / 2 = k
        · rw [hpk, exchanged_left]
          exact hsmallest i hi hin hpk
        · rw [exchanged_of_ne hpk hne]
          exact h.except i hi hin hpk
  grand hc' i hi hin hpc := by
    rw [hparent, exchanged_left, exchanged_of_ne (by omega) (by omega), ← hpc]
    exact h.except i hi hin (by omega)

end HeapOrder
