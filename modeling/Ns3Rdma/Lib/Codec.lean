import Ns3Rdma.Lib.Memory

/-!
# Writing with a cursor and reading from a list

A cursor writes into a memory and can go back to fill a gap that it has left. A reader takes one
value after another from the front of a list, as long as a test of the rest says so.
-/

namespace Codec

open Memory

/-- A position in a memory that is written. -/
@[ext] structure Cursor (α : Type*) where
  data : ℕ → α
  current : ℕ

namespace Cursor

variable {α : Type*} (c : Cursor α) (first second l : List α)

/-- Write a list and go behind it. -/
def write (c : Cursor α) (l : List α) : Cursor α := ⟨store c.data c.current l, c.current + l.length⟩

/-- Leave a gap. -/
def next (c : Cursor α) (n : ℕ) : Cursor α := { c with current := c.current + n }

/-- Write a list at an earlier position. -/
def patch (c : Cursor α) (position : ℕ) (l : List α) : Cursor α :=
  { c with data := store c.data position l }

@[simp] theorem write_current : (c.write l).current = c.current + l.length := rfl

@[simp] theorem next_current (n : ℕ) : (c.next n).current = c.current + n := rfl

@[simp] theorem patch_current (position : ℕ) : (c.patch position l).current = c.current := rfl

@[simp] theorem write_nil : c.write [] = c := by
  ext
  · exact congrFun (store_nil _ _) _
  · rfl

@[simp] theorem write_write : (c.write first).write second = c.write (first ++ second) := by
  ext i
  · simp only [write]
    by_cases hlow : i < c.current
    · rw [store_of_lt (by omega), store_of_lt hlow, store_of_lt hlow]
    · obtain ⟨k, rfl⟩ := Nat.exists_eq_add_of_le (Nat.le_of_not_lt hlow)
      by_cases hfirst : k < first.length
      · rw [store_of_lt (by omega), store_add hfirst,
          store_add (by rw [List.length_append]; omega), List.getElem_append_left hfirst]
      · by_cases hsecond : k < first.length + second.length
        · obtain ⟨m, rfl⟩ := Nat.exists_eq_add_of_le (Nat.le_of_not_lt hfirst)
          rw [← Nat.add_assoc, store_add (by omega), Nat.add_assoc,
            store_add (by rw [List.length_append]; omega),
            List.getElem_append_right (Nat.le_add_right _ _)]
          congr 1
          omega
        · rw [store_of_le (by omega), store_of_le (by omega),
            store_of_le (by rw [List.length_append]; omega)]
  · simp only [write, List.length_append]
    omega

/-- What was written can be told from the memory and the position behind it. -/
theorem write_injective (h : c.write first = c.write second) : first = second := by
  have hdata := congrArg Cursor.data h
  have hcurrent := congrArg Cursor.current h
  rw [write_current, write_current] at hcurrent
  have hlength := Nat.add_left_cancel hcurrent
  apply List.ext_getElem hlength
  intro i hi hi'
  have hcell := congrFun hdata (c.current + i)
  unfold write at hcell
  dsimp only at hcell
  rwa [store_add hi, store_add hi'] at hcell

/-- Filling a gap gives what would have been written without it. -/
theorem patch_next {n : ℕ} (hn : l.length = n) :
    ((c.next n).write second).patch c.current l = c.write (l ++ second) := by
  ext i
  · simp only [write, next, patch]
    by_cases hlow : i < c.current
    · rw [store_of_lt hlow, store_of_lt (by omega), store_of_lt hlow]
    · obtain ⟨k, rfl⟩ := Nat.exists_eq_add_of_le (Nat.le_of_not_lt hlow)
      by_cases hfirst : k < l.length
      · rw [store_add hfirst, store_add (by rw [List.length_append]; omega),
          List.getElem_append_left hfirst]
      · rw [store_of_le (by omega)]
        by_cases hsecond : k < l.length + second.length
        · obtain ⟨m, rfl⟩ := Nat.exists_eq_add_of_le (Nat.le_of_not_lt hfirst)
          rw [← Nat.add_assoc, ← hn, store_add (by omega), Nat.add_assoc,
            store_add (by rw [List.length_append]; omega),
            List.getElem_append_right (Nat.le_add_right _ _)]
          congr 1
          omega
        · rw [store_of_le (by omega), store_of_le (by rw [List.length_append]; omega)]
  · simp only [write, next, patch, List.length_append]
    omega

/-- What is patched stays when more is written. -/
theorem patch_write {position : ℕ} (h : position + l.length ≤ c.current) :
    (c.patch position l).write second = (c.write second).patch position l := by
  ext1
  · exact store_comm h
  · rfl

theorem patch_patch {position position' : ℕ} (h : position + first.length ≤ position') :
    (c.patch position first).patch position' second =
      (c.patch position' second).patch position first := by
  ext1
  · exact store_comm h
  · rfl

/-- A list of values, each of which is written alone. -/
theorem foldl_write {β : Type*} {put : β → Cursor α → Cursor α} {encode : β → List α}
    {values : List β} (hput : ∀ v ∈ values, ∀ c, put v c = c.write (encode v)) (c : Cursor α) :
    values.foldl (fun c v => put v c) c = c.write (values.flatMap encode) := by
  induction values generalizing c with
  | nil => rw [List.flatMap_nil, write_nil, List.foldl_nil]
  | cons v rest ih =>
      rw [List.foldl_cons, hput v List.mem_cons_self,
        ih (fun u hu => hput u (List.mem_cons_of_mem v hu)), write_write, List.flatMap_cons]

end Cursor

/-! ## Reading -/

variable {α β : Type*}

/-- Read values as long as `more` says so of the rest. -/
def decodeWhile (more : List α → Bool) (decode : List α → Option (β × List α)) :
    ℕ → List α → Option (List β × List α)
  | 0, _ => none
  | fuel + 1, l =>
      if more l then
        (decode l).bind fun r => (decodeWhile more decode fuel r.2).map fun s => (r.1 :: s.1, s.2)
      else some ([], l)

/-- What was encoded is read again. -/
theorem decodeWhile_flatMap {γ : Type*} {more : List α → Bool}
    {decode : List α → Option (β × List α)} {encode : γ → List α} {image : γ → β}
    {values : List γ} {rest : List α} {fuel : ℕ} (hfuel : values.length < fuel)
    (hdecode : ∀ v ∈ values, ∀ l, decode (encode v ++ l) = some (image v, l))
    (hmore : ∀ v others, (v :: others).IsSuffix values →
      more ((v :: others).flatMap encode ++ rest) = true)
    (hstop : more rest = false) :
    decodeWhile more decode fuel (values.flatMap encode ++ rest) =
      some (values.map image, rest) := by
  induction values generalizing fuel with
  | nil =>
      obtain ⟨fuel, rfl⟩ := Nat.exists_eq_succ_of_ne_zero (Nat.ne_of_gt (Nat.zero_lt_of_lt hfuel))
      rw [decodeWhile, List.flatMap_nil, List.nil_append, hstop]
      rfl
  | cons v others ih =>
      obtain ⟨fuel, rfl⟩ := Nat.exists_eq_succ_of_ne_zero (Nat.ne_of_gt (Nat.zero_lt_of_lt hfuel))
      have hrest := ih (Nat.lt_of_succ_lt_succ hfuel)
        (fun u hu => hdecode u (List.mem_cons_of_mem v hu))
        (fun u us hsuffix => hmore u us (hsuffix.trans (List.suffix_cons v others)))
      rw [decodeWhile, if_pos (hmore v others (List.suffix_refl _)), List.flatMap_cons,
        List.append_assoc, hdecode v List.mem_cons_self, Option.bind_some, hrest, Option.map_some,
        List.map_cons]

/-- Encodings that are not empty bound the number of values. -/
theorem length_le_flatMap {γ : Type*} {encode : γ → List α} {values : List γ}
    (hnonempty : ∀ v ∈ values, encode v ≠ []) :
    values.length ≤ (values.flatMap encode).length := by
  induction values with
  | nil => exact Nat.le_refl _
  | cons v rest ih =>
      have hv := List.length_pos_of_ne_nil (hnonempty v List.mem_cons_self)
      have hrest := ih fun u hu => hnonempty u (List.mem_cons_of_mem v hu)
      rw [List.flatMap_cons, List.length_append, List.length_cons]
      omega

/-- The values are read if the loop ends after as many elements as were written, counted from
`offset` before the first of them. -/
theorem decodeWhile_size {γ : Type*} {decode : List α → Option (β × List α)}
    {encode : γ → List α} {image : γ → β} {values : List γ} {rest : List α}
    {front size offset fuel : ℕ}
    (hfront : front = offset + (values.flatMap encode ++ rest).length)
    (hsize : size = offset + (values.flatMap encode).length)
    (hnonempty : ∀ v ∈ values, encode v ≠ [])
    (hdecode : ∀ v ∈ values, ∀ l, decode (encode v ++ l) = some (image v, l))
    (hfuel : (values.flatMap encode ++ rest).length < fuel) :
    decodeWhile (fun l => front - l.length < size) decode fuel (values.flatMap encode ++ rest) =
      some (values.map image, rest) := by
  have hlength := length_le_flatMap hnonempty
  rw [List.length_append] at hfront hfuel
  refine decodeWhile_flatMap (by omega) hdecode ?_ (decide_eq_false (by omega))
  intro v others hsuffix
  have hv := List.length_pos_of_ne_nil (hnonempty v (hsuffix.subset List.mem_cons_self))
  obtain ⟨before, rfl⟩ := hsuffix
  rw [List.flatMap_append, List.flatMap_cons, List.length_append,
    List.length_append] at hfront hsize
  rw [List.flatMap_cons, List.length_append, List.length_append]
  exact decide_eq_true (by omega)

end Codec
