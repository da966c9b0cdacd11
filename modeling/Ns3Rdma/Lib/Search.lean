import Mathlib.Data.List.Defs
import Mathlib.Logic.Function.Iterate
import Mathlib.Order.Defs.Unbundled

/-! # Searches in scan order

A scheduler scans its candidates in a fixed order and takes the first that is ready. An
allocator walks a cycle of candidates from its cursor and takes the first that is free. -/

namespace Search

variable {α : Type*}

/-- In a list sorted by a strict order, the search finds the candidate that is ready while
none before it is. -/
theorem find?_eq_some_iff_of_pairwise {R : α → α → Prop} [Std.Asymm R] {xs : List α}
    (hxs : xs.Pairwise R) {p : α → Bool} {b : α} :
    xs.find? p = some b ↔ b ∈ xs ∧ p b = true ∧ ∀ a ∈ xs, R a b → p a = false := by
  induction xs with
  | nil => simp
  | cons x rest ih =>
      rw [List.pairwise_cons] at hxs
      obtain ⟨hx, hrest⟩ := hxs
      rw [List.find?_cons]
      cases hpx : p x with
      | true =>
          simp only [Option.some.injEq, List.mem_cons]
          constructor
          · rintro rfl
            refine ⟨Or.inl rfl, hpx, ?_⟩
            rintro a (rfl | ha) hab
            · exact absurd hab (Std.Asymm.asymm _ _ hab)
            · exact absurd hab (Std.Asymm.asymm _ _ (hx a ha))
          · rintro ⟨rfl | hb, -, hnone⟩
            · rfl
            · rw [hnone x (Or.inl rfl) (hx b hb)] at hpx
              cases hpx
      | false =>
          simp only [ih hrest, List.mem_cons]
          constructor
          · rintro ⟨hb, hpb, hnone⟩
            refine ⟨Or.inr hb, hpb, ?_⟩
            rintro a (rfl | ha) hab
            · exact hpx
            · exact hnone a ha hab
          · rintro ⟨rfl | hb, hpb, hnone⟩
            · rw [hpx] at hpb
              cases hpb
            · exact ⟨hb, hpb, fun a ha => hnone a (Or.inr ha)⟩

/-- Step from the cursor until a free candidate turns up, for a bounded number of tries. -/
def scan (next : α → α) (used : α → Bool) : Nat → α → Option α
  | 0, _ => none
  | tries + 1, cursor =>
      if used (next cursor) then scan next used tries (next cursor) else some (next cursor)

variable {next : α → α} {used : α → Bool}

/-- What the walk finds is free, and it is one of the successors of the cursor. -/
theorem scan_eq_some {tries : Nat} {cursor found : α}
    (h : scan next used tries cursor = some found) :
    used found = false ∧ ∃ k, found = next^[k] (next cursor) := by
  induction tries generalizing cursor with
  | zero => cases h
  | succ tries ih =>
      rw [scan] at h
      split at h
      next =>
          obtain ⟨hfree, k, hk⟩ := ih h
          exact ⟨hfree, k + 1, hk⟩
      next hfree =>
          obtain rfl := Option.some.inj h
          exact ⟨Bool.not_eq_true _ ▸ hfree, 0, rfl⟩

/-- The walk gives up only after it has found every successor within its tries in use. -/
theorem scan_eq_none {tries : Nat} {cursor : α} (h : scan next used tries cursor = none) {k : Nat}
    (hk : k < tries) : used (next^[k] (next cursor)) = true := by
  induction tries generalizing cursor k with
  | zero => exact absurd hk (Nat.not_lt_zero k)
  | succ tries ih =>
      rw [scan] at h
      split at h
      next hused =>
          cases k with
          | zero => exact hused
          | succ k => exact ih h (Nat.lt_of_succ_lt_succ hk)
      next => cases h

end Search
