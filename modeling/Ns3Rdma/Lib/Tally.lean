import Mathlib.Algebra.BigOperators.Group.Finset.Piecewise
import Mathlib.Algebra.Order.BigOperators.Group.Finset
import Mathlib.Data.Fintype.BigOperators
import Mathlib.Algebra.Ring.Nat
import Mathlib.Tactic.Abel

/-! # Totals by key

A counter that aggregates many cells is the sum of the cells that share its key.
Changing one cell, or adding and removing one item, moves exactly the counter of
that cell's key. -/

namespace Tally

section Cells

variable {ι κ : Type*} [Fintype ι] [DecidableEq κ]

/-- Total weight of the cells with the given key. -/
def cells (key : ι → κ) (w : ι → ℕ) (k : κ) : ℕ :=
  ∑ i with key i = k, w i

theorem cells_update [DecidableEq ι] (key : ι → κ) (w : ι → ℕ) (i : ι) (x : ℕ) (k : κ) :
    cells key (Function.update w i x) k + (if key i = k then w i else 0) =
      cells key w k + (if key i = k then x else 0) := by
  unfold cells
  split
  next hkey =>
    have hmem : i ∈ Finset.univ.filter (fun j => key j = k) := by simpa using hkey
    rw [Finset.sum_update_of_mem hmem, Finset.sdiff_singleton_eq_erase,
      ← Finset.add_sum_erase _ w hmem]
    omega
  next hkey =>
    rw [Finset.sum_update_of_notMem (by simpa using hkey)]

omit [DecidableEq κ] in
theorem le_total (w : ι → ℕ) (i : ι) : w i ≤ ∑ j, w j :=
  Finset.single_le_sum (fun _ _ => Nat.zero_le _) (Finset.mem_univ i)

omit [DecidableEq κ] in
theorem total_update [DecidableEq ι] (w : ι → ℕ) (i : ι) (x : ℕ) :
    ∑ j, Function.update w i x j + w i = ∑ j, w j + x := by
  rw [Finset.sum_update_of_mem (Finset.mem_univ i), Finset.sdiff_singleton_eq_erase,
    ← Finset.add_sum_erase _ w (Finset.mem_univ i)]
  omega

theorem cells_le_total {key : ι → κ} {w : ι → ℕ} {k : κ} :
    cells key w k ≤ ∑ i, w i :=
  Finset.sum_le_sum_of_subset (Finset.filter_subset _ _)

theorem le_cells {key : ι → κ} {w : ι → ℕ} {k : κ} {i : ι} (hkey : key i = k) :
    w i ≤ cells key w k :=
  Finset.single_le_sum (f := w) (fun _ _ => Nat.zero_le _) (by simpa using hkey)

@[simp] theorem cells_zero (key : ι → κ) (k : κ) : cells key (fun _ => 0) k = 0 := by
  simp [cells]

end Cells

section Rows

variable {ι κ M : Type*} [Fintype ι] [Fintype κ] [DecidableEq ι] [AddCommMonoid M]

/-- The cells of a table in one row. -/
theorem sum_row (w : ι × κ → M) (i : ι) : ∑ q with Prod.fst q = i, w q = ∑ j, w (i, j) := by
  rw [Finset.sum_filter, Fintype.sum_prod_type, Finset.sum_comm]
  refine Finset.sum_congr rfl fun j _ => ?_
  rw [Finset.sum_ite_eq' Finset.univ i, if_pos (Finset.mem_univ i)]

end Rows

section Group

variable {ι κ M : Type*} [Fintype ι] [DecidableEq ι] [DecidableEq κ] [AddCommGroup M]

theorem sum_update (key : ι → κ) (w : ι → M) (i : ι) (x : M) (k : κ) :
    ∑ j with key j = k, Function.update w i x j =
      (∑ j with key j = k, w j) + if key i = k then x - w i else 0 := by
  split
  next hkey =>
    have hmem : i ∈ Finset.univ.filter (fun j => key j = k) := by simpa using hkey
    rw [Finset.sum_update_of_mem hmem, Finset.sdiff_singleton_eq_erase,
      ← Finset.add_sum_erase _ w hmem]
    abel
  next hkey =>
    rw [Finset.sum_update_of_notMem (by simpa using hkey), add_zero]

/-- In a group the totals follow a cell that is moved by any amount, if its total is moved by
the same amount. -/
theorem update_eq_sum {key : ι → κ} {total : κ → M} {w : ι → M}
    (h : ∀ k, total k = ∑ j with key j = k, w j) {i : ι} {x y : M}
    (hmove : y - total (key i) = x - w i) (k : κ) :
    Function.update total (key i) y k = ∑ j with key j = k, Function.update w i x j := by
  rw [sum_update, ← h]
  by_cases hk : key i = k
  · subst hk
    rw [Function.update_self, if_pos rfl, ← hmove]
    abel
  · rw [Function.update_of_ne (Ne.symm hk), if_neg hk, add_zero]

end Group

section Items

variable {α κ : Type*} [DecidableEq κ]

/-- Total weight of the items with the given key. -/
def items (key : α → κ) (w : α → ℕ) (stock : List α) (k : κ) : ℕ :=
  ((stock.filter fun a => key a = k).map w).sum

@[simp] theorem items_nil (key : α → κ) (w : α → ℕ) (k : κ) :
    items key w [] k = 0 := rfl

theorem items_cons (key : α → κ) (w : α → ℕ) (a : α) (stock : List α) (k : κ) :
    items key w (a :: stock) k =
      (if key a = k then w a else 0) + items key w stock k := by
  unfold items
  by_cases hkey : key a = k <;> simp [hkey]

theorem items_perm {key : α → κ} {w : α → ℕ} {first second : List α}
    (h : first.Perm second) (k : κ) : items key w first k = items key w second k :=
  ((h.filter _).map _).sum_eq

theorem items_le_total (key : α → κ) (w : α → ℕ) (stock : List α) (k : κ) :
    items key w stock k ≤ items (fun _ => ()) w stock () := by
  induction stock with
  | nil => simp
  | cons a rest ih =>
      rw [items_cons, items_cons, if_pos rfl]
      split <;> omega

/-- Taking one item out lowers the total of its key by its weight. -/
theorem items_erase [DecidableEq α] (key : α → κ) (w : α → ℕ) {a : α} {stock : List α}
    (hmem : a ∈ stock) (k : κ) :
    (if key a = k then w a else 0) + items key w (stock.erase a) k =
      items key w stock k := by
  rw [items_perm (List.perm_cons_erase hmem) k, items_cons]

end Items

section Shelves

variable {ι α : Type*} [DecidableEq ι]

/-- Putting one item on a shelf adds it to what all shelves hold. -/
theorem flatMap_update_perm {shelves : List ι} (hnodup : shelves.Nodup) {i : ι}
    (hi : i ∈ shelves) (held : ι → List α) {items : List α} {x : α}
    (hitems : items.Perm (x :: held i)) :
    (shelves.flatMap (Function.update held i items)).Perm (x :: shelves.flatMap held) := by
  obtain ⟨before, after, rfl⟩ := List.append_of_mem hi
  rw [List.nodup_middle, List.nodup_cons, List.mem_append, not_or] at hnodup
  have hother : ∀ others : List ι, i ∉ others →
      others.flatMap (Function.update held i items) = others.flatMap held := by
    intro others hnot
    apply List.flatMap_congr
    intro j hj
    apply Function.update_of_ne
    rintro rfl
    exact hnot hj
  rw [List.flatMap_append, List.flatMap_cons, List.flatMap_append, List.flatMap_cons,
    hother before hnodup.1.1, hother after hnodup.1.2, Function.update_self]
  have hmiddle := (hitems.append_right (after.flatMap held)).append_left (before.flatMap held)
  exact hmiddle.trans List.perm_middle

end Shelves

end Tally
