import Mathlib.Data.List.Basic

/-! # Slices of a memory

A memory is a function of its offsets. A slice reads a range of it as a list, a store writes a list
at an offset, and a splice is what a store does to a slice that contains it. -/

namespace Memory

variable {α : Type*} {f g : ℕ → α} {a b n off : ℕ} {l : List α}

/-- The cells from `a` on, `n` of them. -/
def slice (f : ℕ → α) (a n : ℕ) : List α := (List.range n).map fun i => f (a + i)

/-- Write the list from offset `off` on. -/
def store (f : ℕ → α) (off : ℕ) (l : List α) : ℕ → α := fun i =>
  if off ≤ i then (l[i - off]?).getD (f i) else f i

/-- Replace the elements from position `off` on, as many as there are new ones. -/
def splice (l : List α) (off : ℕ) (new : List α) : List α :=
  l.take off ++ new ++ l.drop (off + new.length)

@[simp] theorem length_slice (f : ℕ → α) (a n : ℕ) : (slice f a n).length = n := by
  rw [slice, List.length_map, List.length_range]

@[simp] theorem slice_zero (f : ℕ → α) (a : ℕ) : slice f a 0 = [] := rfl

theorem getElem?_slice (f : ℕ → α) (a n i : ℕ) :
    (slice f a n)[i]? = if i < n then some (f (a + i)) else none := by
  rw [slice, List.getElem?_map]
  split
  next hi => rw [List.getElem?_range hi, Option.map_some]
  next hi => rw [List.getElem?_eq_none (by simpa using hi), Option.map_none]

/-- Slices agree if their cells do. -/
theorem slice_congr (h : ∀ i < n, f (a + i) = g (b + i)) : slice f a n = slice g b n := by
  apply List.ext_getElem?
  intro i
  rw [getElem?_slice, getElem?_slice]
  split
  next hi => rw [h i hi]
  next hi => rfl

theorem slice_append (f : ℕ → α) (a m n : ℕ) :
    slice f a m ++ slice f (a + m) n = slice f a (m + n) := by
  apply List.ext_getElem?
  intro i
  rw [List.getElem?_append, length_slice, getElem?_slice, getElem?_slice, getElem?_slice]
  by_cases hm : i < m
  · rw [if_pos hm, if_pos hm, if_pos (by omega)]
  · rw [if_neg hm]
    by_cases hn : i < m + n
    · rw [if_pos hn, if_pos (by omega), show a + m + (i - m) = a + i by omega]
    · rw [if_neg hn, if_neg (by omega)]

theorem slice_const (c : α) (a n : ℕ) : slice (fun _ => c) a n = List.replicate n c := by
  rw [slice, List.map_const', List.length_range]

theorem drop_slice (f : ℕ → α) (a n k : ℕ) : (slice f a n).drop k = slice f (a + k) (n - k) := by
  apply List.ext_getElem?
  intro i
  rw [List.getElem?_drop, getElem?_slice, getElem?_slice, show a + (k + i) = a + k + i by omega]
  by_cases hi : i < n - k
  · rw [if_pos hi, if_pos (by omega)]
  · rw [if_neg hi, if_neg (by omega)]

theorem take_slice (f : ℕ → α) (a n k : ℕ) : (slice f a n).take k = slice f a (min k n) := by
  apply List.ext_getElem?
  intro i
  rw [List.getElem?_take, getElem?_slice, getElem?_slice]
  by_cases hk : i < k
  · rw [if_pos hk]
    by_cases hn : i < n
    · rw [if_pos hn, if_pos (by omega)]
    · rw [if_neg hn, if_neg (by omega)]
  · rw [if_neg hk, if_neg (by omega)]

theorem store_of_lt {i : ℕ} (h : i < off) : store f off l i = f i := if_neg (by omega)

theorem store_of_le {i : ℕ} (h : off + l.length ≤ i) : store f off l i = f i := by
  unfold store
  rw [if_pos (by omega), List.getElem?_eq_none (by omega), Option.getD_none]

theorem store_add {i : ℕ} (h : i < l.length) : store f off l (off + i) = l[i] := by
  unfold store
  rw [if_pos (by omega), Nat.add_sub_cancel_left, List.getElem?_eq_getElem h, Option.getD_some]

theorem store_congr {i : ℕ} (h : f i = g i) : store f off l i = store g off l i := by
  rw [store, store, h]

/-- Stores of different ranges commute. -/
theorem store_comm {off' : ℕ} {l' : List α} (h : off + l.length ≤ off') :
    store (store f off l) off' l' = store (store f off' l') off l := by
  funext i
  by_cases hi : i < off'
  · rw [store_of_lt hi, store_congr (store_of_lt hi)]
  · have hbehind : off + l.length ≤ i := by omega
    rw [store_of_le hbehind, store_congr (store_of_le hbehind)]

theorem store_nil (f : ℕ → α) (off : ℕ) : store f off [] = f := by
  funext i
  unfold store
  split <;> rfl

/-- A store leaves a slice beside it alone. -/
theorem slice_store_of_disjoint (h : a + n ≤ off ∨ off + l.length ≤ a) :
    slice (store f off l) a n = slice f a n := by
  apply slice_congr
  intro i hi
  rcases h with h | h
  · exact store_of_lt (by omega)
  · exact store_of_le (by omega)

theorem slice_store_self (f : ℕ → α) (off : ℕ) (l : List α) :
    slice (store f off l) off l.length = l := by
  apply List.ext_getElem?
  intro i
  rw [getElem?_slice]
  by_cases hi : i < l.length
  · rw [if_pos hi, store_add hi, List.getElem?_eq_getElem hi]
  · rw [if_neg hi, List.getElem?_eq_none (by omega)]

/-- A store inside a slice is a splice. -/
theorem slice_store (f : ℕ → α) {off : ℕ} (h : off + l.length ≤ n) :
    slice (store f (a + off) l) a n = splice (slice f a n) off l := by
  have hsplit : slice (store f (a + off) l) a n =
      slice (store f (a + off) l) a off ++ slice (store f (a + off) l) (a + off) l.length ++
        slice (store f (a + off) l) (a + off + l.length) (n - (off + l.length)) := by
    rw [slice_append, Nat.add_assoc a, slice_append, Nat.add_sub_cancel' h]
  rw [hsplit, slice_store_self, slice_store_of_disjoint (Or.inl (Nat.le_refl _)),
    slice_store_of_disjoint (Or.inr (Nat.le_refl _)), splice, take_slice, drop_slice,
    Nat.min_eq_left (by omega), Nat.add_assoc a]

/-- A splice into the left part of a list. -/
theorem splice_append_left {first second : List α} (h : off + l.length ≤ first.length) :
    splice (first ++ second) off l = splice first off l ++ second := by
  unfold splice
  rw [List.take_append_of_le_length (by omega), List.drop_append_of_le_length h, List.append_assoc,
    List.append_assoc, List.append_assoc]

/-- A splice into the right part of a list. -/
theorem splice_append_right {first second : List α} :
    splice (first ++ second) (first.length + off) l = first ++ splice second off l := by
  unfold splice
  rw [List.take_length_add_append, Nat.add_assoc, List.drop_length_add_append, List.append_assoc,
    List.append_assoc, List.append_assoc]

/-- A splice that replaces the whole left part. -/
theorem splice_left {first second : List α} (h : l.length = first.length) :
    splice (first ++ second) 0 l = l ++ second := by
  rw [splice_append_left (by omega), splice, List.take_zero, List.nil_append,
    List.drop_eq_nil_of_le (by omega), List.append_nil]

/-- A splice that replaces the whole right part. -/
theorem splice_right {first second : List α} (h : l.length = second.length) :
    splice (first ++ second) first.length l = first ++ l := by
  have hright : splice (second ++ []) 0 l = l ++ [] := splice_left h
  rw [List.append_nil, List.append_nil] at hright
  rw [← Nat.add_zero first.length, splice_append_right, hright]

/-- Two splices, one behind the other. -/
theorem splice_splice {off : ℕ} {l new : List α} (h : off ≤ l.length) (first : List α) :
    splice (splice l off first) (off + first.length) new = splice l off (first ++ new) := by
  have hlength : (l.take off ++ first).length = off + first.length := by
    rw [List.length_append, List.length_take, Nat.min_eq_left h]
  have hright : splice (l.drop (off + first.length)) 0 new =
      new ++ l.drop (off + (first ++ new).length) := by
    rw [splice, List.take_zero, List.nil_append, List.drop_drop, List.length_append, Nat.zero_add,
      Nat.add_assoc]
  rw [splice.eq_1 l off first, ← hlength, ← Nat.add_zero (l.take off ++ first).length,
    splice_append_right, Nat.add_zero, hlength, hright, splice, List.append_assoc, List.append_assoc,
    List.append_assoc]

end Memory
