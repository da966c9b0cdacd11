import Mathlib.Data.List.Basic

/-!
# Tilings of an interval of naturals

A list of items, each with a start and an end, that cover an interval in increasing order
without gaps or overlaps.
-/

/-- The items lie end to end from `first` to `last`. -/
def Tiles {α : Type*} (start stop : α → ℕ) : List α → ℕ → ℕ → Prop
  | [], first, last => first = last
  | x :: rest, first, last => start x = first ∧ first ≤ stop x ∧ Tiles start stop rest (stop x) last

namespace Tiles

variable {α : Type*} {start stop : α → ℕ} {items : List α} {x y : α} {first last point : ℕ}

theorem le (h : Tiles start stop items first last) : first ≤ last := by
  induction items generalizing first with
  | nil => exact Nat.le_of_eq h
  | cons x rest ih => exact Nat.le_trans h.2.1 (ih h.2.2)

theorem append {left right : List α} {middle : ℕ} (hleft : Tiles start stop left first middle)
    (hright : Tiles start stop right middle last) :
    Tiles start stop (left ++ right) first last := by
  induction left generalizing first with
  | nil =>
      obtain rfl : first = middle := hleft
      exact hright
  | cons x rest ih => exact ⟨hleft.1, hleft.2.1, ih hleft.2.2⟩

theorem of_append {left right : List α} (h : Tiles start stop (left ++ right) first last) :
    ∃ middle, Tiles start stop left first middle ∧ Tiles start stop right middle last := by
  induction left generalizing first with
  | nil => exact ⟨first, rfl, h⟩
  | cons x rest ih =>
      obtain ⟨middle, hrest, hright⟩ := ih h.2.2
      exact ⟨middle, ⟨h.1, h.2.1, hrest⟩, hright⟩

/-- One item may be replaced by a tiling of its own interval. -/
theorem replace {left middle right : List α}
    (h : Tiles start stop (left ++ x :: right) first last)
    (hmiddle : Tiles start stop middle (start x) (stop x)) :
    Tiles start stop (left ++ (middle ++ right)) first last := by
  obtain ⟨here, hleft, hstart, -, hright⟩ := h.of_append
  rw [hstart] at hmiddle
  exact hleft.append (hmiddle.append hright)

theorem mem (h : Tiles start stop items first last) (hx : x ∈ items) :
    first ≤ start x ∧ start x ≤ stop x ∧ stop x ≤ last := by
  induction items generalizing first with
  | nil => cases hx
  | cons y rest ih =>
      obtain ⟨hstart, hle, hrest⟩ := h
      rcases List.mem_cons.mp hx with rfl | hx
      · exact ⟨Nat.le_of_eq hstart.symm, hstart ▸ hle, hrest.le⟩
      · obtain ⟨hfirst, hmiddle, hlast⟩ := ih hrest hx
        exact ⟨Nat.le_trans hle hfirst, hmiddle, hlast⟩

/-- Two items with a common point are the same. -/
theorem eq_of_mem (h : Tiles start stop items first last) (hx : x ∈ items) (hy : y ∈ items)
    (hpx : start x ≤ point ∧ point < stop x) (hpy : start y ≤ point ∧ point < stop y) : x = y := by
  induction items generalizing first with
  | nil => cases hx
  | cons z rest ih =>
      obtain ⟨hstart, hle, hrest⟩ := h
      rcases List.mem_cons.mp hx with rfl | hxr <;> rcases List.mem_cons.mp hy with rfl | hyr
      · rfl
      · have := (hrest.mem hyr).1
        omega
      · have := (hrest.mem hxr).1
        omega
      · exact ih hrest hxr hyr

/-- An item that does not come first starts where another one ends. -/
theorem exists_before (h : Tiles start stop items first last) (hx : x ∈ items)
    (hfirst : start x ≠ first) : ∃ y ∈ items, stop y = start x ∧ start y ≤ start x := by
  induction items generalizing first with
  | nil => cases hx
  | cons z rest ih =>
      obtain ⟨hstart, hle, hrest⟩ := h
      rcases List.mem_cons.mp hx with rfl | hx
      · exact absurd hstart hfirst
      · rcases eq_or_ne (start x) (stop z) with heq | hne
        · exact ⟨z, List.mem_cons_self, heq.symm, by omega⟩
        · obtain ⟨y, hy, hstop⟩ := ih hrest hx hne
          exact ⟨y, List.mem_cons_of_mem _ hy, hstop⟩

end Tiles
