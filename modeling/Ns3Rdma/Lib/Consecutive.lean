import Mathlib.Data.List.Basic

/-! # Runs of consecutive numbers

A list whose items carry the numbers from `first` up to, but not including, `last`, in
increasing order and without gaps: the contents of a window over a numbered stream. -/

/-- The items of the list are numbered `first, first + 1, …, last - 1`. -/
def Consecutive {α : Type*} (number : α → ℕ) (items : List α) (first last : ℕ) : Prop :=
  first ≤ last ∧ items.map number = List.range' first (last - first)

namespace Consecutive

variable {α : Type*} {number : α → ℕ} {items : List α} {x : α} {first last : ℕ}

theorem nil_iff : Consecutive number [] first last ↔ first = last := by
  rw [Consecutive, List.map_nil, eq_comm (a := []), List.range'_eq_nil_iff]
  omega

theorem nil (n : ℕ) : Consecutive number [] n n := nil_iff.mpr rfl

theorem cons_iff : Consecutive number (x :: items) first last ↔
    number x = first ∧ first < last ∧ Consecutive number items (first + 1) last := by
  unfold Consecutive
  rw [List.map_cons]
  constructor
  · rintro ⟨hle, heq⟩
    obtain hzero | ⟨width, hwidth⟩ : last - first = 0 ∨ ∃ width, last - first = width + 1 := by
      cases last - first with
      | zero => exact Or.inl rfl
      | succ width => exact Or.inr ⟨width, rfl⟩
    · rw [hzero] at heq
      cases heq
    · rw [hwidth, List.range'_succ] at heq
      obtain ⟨hx, hitems⟩ := List.cons.inj heq
      refine ⟨hx, by omega, by omega, ?_⟩
      rw [hitems, show last - (first + 1) = width by omega]
  · rintro ⟨rfl, hlt, -, heq⟩
    refine ⟨Nat.le_of_lt hlt, ?_⟩
    rw [heq, show last - number x = last - (number x + 1) + 1 by omega, List.range'_succ]

theorem length (h : Consecutive number items first last) : items.length = last - first := by
  have hlength := congrArg List.length h.2
  rwa [List.length_map, List.length_range'] at hlength

/-- The number of every item lies in the window. -/
theorem mem (h : Consecutive number items first last) (hx : x ∈ items) :
    first ≤ number x ∧ number x < last := by
  have hnumber := List.mem_map_of_mem (f := number) hx
  rw [h.2, List.mem_range'_1] at hnumber
  have := h.1
  omega

/-- Appending the next item moves the upper end. -/
theorem append_singleton (h : Consecutive number items first last) (hx : number x = last) :
    Consecutive number (items ++ [x]) first (last + 1) := by
  refine ⟨Nat.le_succ_of_le h.1, ?_⟩
  have hwidth : last + 1 - first = last - first + 1 := by have := h.1; omega
  have hlast : first + 1 * (last - first) = last := by have := h.1; omega
  rw [List.map_append, h.2, List.map_singleton, hx, hwidth, List.range'_concat, hlast]

/-- Dropping the items below a number moves the lower end. -/
theorem dropWhile (h : Consecutive number items first last) (bound : ℕ) :
    Consecutive number (items.dropWhile fun x => number x < bound)
      (max first (min bound last)) last := by
  induction items generalizing first with
  | nil =>
      rw [nil_iff] at h
      rw [List.dropWhile_nil, nil_iff]
      omega
  | cons x rest ih =>
      have hcons := cons_iff.mp h
      rw [List.dropWhile_cons]
      by_cases hx : number x < bound
      · rw [if_pos (decide_eq_true hx)]
        have htail := ih hcons.2.2
        have hmax : max (first + 1) (min bound last) = max first (min bound last) := by
          have := hcons.1
          have := hcons.2.1
          omega
        rwa [hmax] at htail
      · rw [if_neg (by simpa using hx)]
        have hmax : max first (min bound last) = first := by
          have := hcons.1
          omega
        rwa [hmax]

end Consecutive
