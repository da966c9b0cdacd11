import Mathlib.Data.Finset.Basic
import Mathlib.Data.Multiset.Filter
import Mathlib.Logic.Function.Basic

/-! # Named instances

Finitely many names, of any type, each with a value. What is shared by the instances is stated over
the multiset of all values; an operation on one name sees it as one value and the others. -/

/-- The values of the names that are in use. -/
structure Registry (ι α : Type*) where
  names : Finset ι
  entry : ι → Option α
  mem_names : ∀ x, entry x ≠ none → x ∈ names

namespace Registry

variable {ι α : Type*} [DecidableEq ι] {r : Registry ι α} {x y : ι} {a c : α}

def empty : Registry ι α where
  names := ∅
  entry := fun _ => none
  mem_names := fun _ h => absurd rfl h

def put (r : Registry ι α) (x : ι) (a : α) : Registry ι α where
  names := insert x r.names
  entry := Function.update r.entry x (some a)
  mem_names := by
    intro z hz
    by_cases hzx : z = x
    · exact hzx ▸ Finset.mem_insert_self x r.names
    · rw [Function.update_of_ne hzx] at hz
      exact Finset.mem_insert_of_mem (r.mem_names z hz)

def drop (r : Registry ι α) (x : ι) : Registry ι α where
  names := r.names.erase x
  entry := Function.update r.entry x none
  mem_names := by
    intro z hz
    by_cases hzx : z = x
    · rw [hzx, Function.update_self] at hz
      exact absurd rfl hz
    · rw [Function.update_of_ne hzx] at hz
      exact Finset.mem_erase.mpr ⟨hzx, r.mem_names z hz⟩

/-- Change every value. -/
def map (r : Registry ι α) (f : α → α) : Registry ι α where
  names := r.names
  entry := fun x => (r.entry x).map f
  mem_names := by
    intro z hz
    refine r.mem_names z fun hnone => hz ?_
    rw [hnone, Option.map_none]

/-- All values. -/
def live (r : Registry ι α) : Multiset α := (r.names.val.map r.entry).filterMap id

/-- The values of all names but one. -/
def others (r : Registry ι α) (x : ι) : Multiset α :=
  ((r.names.erase x).val.map r.entry).filterMap id

omit [DecidableEq ι] in
theorem mem_live : a ∈ r.live ↔ ∃ x, r.entry x = some a := by
  unfold live
  rw [Multiset.mem_filterMap]
  constructor
  · rintro ⟨entry, hmem, hentry⟩
    obtain ⟨x, -, rfl⟩ := Multiset.mem_map.mp hmem
    exact ⟨x, hentry⟩
  · rintro ⟨x, hx⟩
    refine ⟨some a, Multiset.mem_map.mpr ⟨x, r.mem_names x ?_, hx⟩, rfl⟩
    rw [hx]
    exact Option.some_ne_none a

theorem live_eq_cons (hx : r.entry x = some a) : r.live = a ::ₘ r.others x := by
  have hmem : x ∈ r.names := r.mem_names x (by rw [hx]; exact Option.some_ne_none a)
  unfold live others
  rw [Finset.erase_val, ← Multiset.cons_erase hmem, Multiset.map_cons, Multiset.erase_cons_head, hx,
    Multiset.filterMap_cons_some id (some a) _ rfl]

theorem others_of_none (hx : r.entry x = none) : r.others x = r.live := by
  unfold live others
  by_cases hmem : x ∈ r.names
  · rw [Finset.erase_val, ← Multiset.cons_erase hmem, Multiset.map_cons, Multiset.erase_cons_head, hx,
      Multiset.filterMap_cons_none none _ rfl]
  · rw [Finset.erase_eq_of_notMem hmem]

theorem mem_others (hne : y ≠ x) (hy : r.entry y = some c) : c ∈ r.others x := by
  refine (Multiset.mem_filterMap id _).mpr ⟨some c, Multiset.mem_map.mpr ⟨y, ?_, hy⟩, rfl⟩
  refine Finset.mem_erase.mpr ⟨hne, r.mem_names y ?_⟩
  rw [hy]
  exact Option.some_ne_none c

/-- Two names: one value, the other one, and the rest. -/
theorem exists_others (hne : y ≠ x) (hy : r.entry y = some c) :
    ∃ rest, r.others x = c ::ₘ rest :=
  Multiset.exists_cons_of_mem (mem_others hne hy)

omit [DecidableEq ι] in
theorem map_live (r : Registry ι α) (f : α → α) : (r.map f).live = r.live.map f := by
  unfold live map
  dsimp only
  rw [Multiset.map_filterMap, Multiset.filterMap_map, Multiset.filterMap_map]
  rfl

@[simp] theorem put_entry_self (r : Registry ι α) (x : ι) (a : α) :
    (r.put x a).entry x = some a := by
  unfold put
  exact Function.update_self x (some a) r.entry

theorem put_entry_of_ne (hne : y ≠ x) (a : α) : (r.put x a).entry y = r.entry y := by
  unfold put
  exact Function.update_of_ne hne (some a) r.entry

theorem put_others (r : Registry ι α) (x : ι) (a : α) : (r.put x a).others x = r.others x := by
  unfold others put
  dsimp only
  rw [Finset.erase_insert_eq_erase]
  congr 1
  apply Multiset.map_congr rfl
  intro z hz
  exact Function.update_of_ne (Finset.ne_of_mem_erase hz) _ _

theorem put_live (r : Registry ι α) (x : ι) (a : α) : (r.put x a).live = a ::ₘ r.others x := by
  rw [live_eq_cons (put_entry_self r x a), put_others]

@[simp] theorem drop_entry_self (r : Registry ι α) (x : ι) : (r.drop x).entry x = none := by
  unfold drop
  exact Function.update_self x none r.entry

theorem drop_entry_of_ne (hne : y ≠ x) : (r.drop x).entry y = r.entry y := by
  unfold drop
  exact Function.update_of_ne hne none r.entry

theorem drop_live (r : Registry ι α) (x : ι) : (r.drop x).live = r.others x := by
  rw [← others_of_none (drop_entry_self r x)]
  unfold others drop
  dsimp only
  rw [Finset.erase_idem]
  congr 1
  apply Multiset.map_congr rfl
  intro z hz
  exact Function.update_of_ne (Finset.ne_of_mem_erase hz) _ _

end Registry
