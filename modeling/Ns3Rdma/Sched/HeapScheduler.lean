import Ns3Rdma.Lib.HeapOrder
import Ns3Rdma.Sched.Scheduler

/-!
# The heap scheduler

`m_heap` is a binary heap with the root at index one; index zero is wasted. `Insert` and
`RemoveNext` restore the heap order. `Remove` only sifts down, so it restores the order unless
the last event, moved to the hole, is smaller than the parent of the hole.
-/

namespace Ns3Rdma.Sched.HeapScheduler

open HeapOrder

/-- The element in the wasted slot. -/
def empty : Event := ⟨0, ⟨0, 0, 0⟩⟩

/-- `m_heap[i]`. -/
def entry (heap : List Event) (i : Nat) : Event := heap.getD i empty

/-- The constructor. -/
def init : List Event := [empty]

def parent (id : Nat) : Nat := id / 2

def leftChild (id : Nat) : Nat := id * 2 % 2 ^ 32

def rightChild (id : Nat) : Nat := (id * 2 + 1) % 2 ^ 32

def root : Nat := 1

def last (heap : List Event) : Nat := heap.length - 1

def isBottom (heap : List Event) (id : Nat) : Bool := decide (id ≥ heap.length)

/-- `Exch` of two positions of the heap. -/
def exch (heap : List Event) (a b : Nat) : List Event :=
  (heap.set a (entry heap b)).set b (entry heap a)

def isLessStrictly (heap : List Event) (a b : Nat) : Bool := (entry heap a).lt (entry heap b)

def smallest (heap : List Event) (a b : Nat) : Nat := if isLessStrictly heap a b then a else b

def isEmpty (heap : List Event) : Bool := heap.length == 1

/-- The loop of `BottomUp` from `index`; each round halves the index. -/
def bottomUpLoop : Nat → List Event → Nat → List Event
  | 0, heap, _ => heap
  | fuel + 1, heap, index =>
      if index ≠ root ∧ isLessStrictly heap index (parent index) = true then
        bottomUpLoop fuel (exch heap index (parent index)) (parent index)
      else heap

def bottomUp (heap : List Event) : List Event := bottomUpLoop (last heap) heap (last heap)

/-- `TopDown` from `index`: the loop over positions with two children, and what follows it. -/
def topDownLoop : Nat → List Event → Nat → List Event
  | 0, heap, _ => heap
  | fuel + 1, heap, index =>
      let right := rightChild index
      let left := leftChild index
      if isBottom heap right = false then
        let tmp := smallest heap left right
        if isLessStrictly heap index tmp = true then heap
        else topDownLoop fuel (exch heap index tmp) tmp
      else if isBottom heap index = true then heap
      else if isBottom heap left = true then heap
      else if isLessStrictly heap index left = true then heap
      else exch heap index left

/-- `TopDown`; the index grows in each round. -/
def topDown (heap : List Event) (start : Nat) : List Event :=
  topDownLoop (heap.length + 1) heap start

def insert (heap : List Event) (ev : Event) : List Event := bottomUp (heap ++ [ev])

def peekNext (heap : List Event) : Event := entry heap root

/-- `RemoveNext`; `Exch` asserts that there is an event. -/
def removeNext (heap : List Event) : Option (Event × List Event) :=
  if root < heap.length then
    let next := entry heap root
    some (next, topDown (exch heap root (last heap)).dropLast root)
  else none

/-- The events of the heap. -/
def contents (heap : List Event) : List Event := heap.drop 1

/-- The position at which `Remove` finds the uid. -/
def position (heap : List Event) (ev : Event) : Option Nat :=
  ((contents heap).findIdx? fun e => e.key.uid == ev.key.uid).map (· + 1)

/-- `Remove`; the uid must be there, with this implementation. -/
def remove (heap : List Event) (ev : Event) : Option (List Event) :=
  (position heap ev).bind fun i =>
    if (entry heap i).impl = ev.impl then
      some (topDown (exch heap i (last heap)).dropLast i)
    else none

/-! ## Exchanges -/

/-- The order of the event at each position. -/
def keys (heap : List Event) (i : Nat) : ℕ ×ₗ ℕ := (entry heap i).order

theorem isLessStrictly_iff {heap : List Event} {a b : Nat} :
    isLessStrictly heap a b = true ↔ keys heap a < keys heap b :=
  Event.lt_iff

theorem entry_of_lt {heap : List Event} {i : Nat} (hi : i < heap.length) :
    entry heap i = heap[i] := by
  rw [entry, List.getD_eq_getElem?_getD, List.getElem?_eq_getElem hi, Option.getD_some]

theorem entry_mem {heap : List Event} {i : Nat} (hpos : 1 ≤ i) (hi : i < heap.length) :
    entry heap i ∈ contents heap := by
  have hget : (contents heap)[i - 1]? = some (entry heap i) := by
    rw [contents, List.getElem?_drop, Nat.add_sub_cancel' hpos, List.getElem?_eq_getElem hi,
      entry_of_lt hi]
  exact List.mem_of_getElem? hget

@[simp] theorem length_exch (heap : List Event) (a b : Nat) :
    (exch heap a b).length = heap.length := by
  rw [exch, List.length_set, List.length_set]

theorem entry_exch {heap : List Event} {a b : Nat} (ha : a < heap.length) (hb : b < heap.length)
    (i : Nat) : entry (exch heap a b) i = entry heap (Equiv.swap a b i) := by
  unfold entry exch
  rw [List.getD_eq_getElem?_getD, List.getElem?_set, List.getElem?_set, Equiv.swap_apply_def]
  by_cases hib : b = i
  · subst hib
    rw [if_pos rfl, List.length_set, if_pos hb, Option.getD_some]
    split
    next h => rw [h]; rfl
    next h => rw [if_pos rfl]; rfl
  · rw [if_neg hib]
    by_cases hia : a = i
    · subst hia
      rw [if_pos rfl, if_pos ha, Option.getD_some, if_pos rfl]
      rfl
    · rw [if_neg hia, if_neg (Ne.symm hia), if_neg (Ne.symm hib), List.getD_eq_getElem?_getD]

theorem keys_exch {heap : List Event} {a b : Nat} (ha : a < heap.length) (hb : b < heap.length) :
    keys (exch heap a b) = exchanged (keys heap) a b := by
  funext i
  rw [keys, entry_exch ha hb]
  rfl

/-- An exchange keeps the events. -/
theorem exch_perm {heap : List Event} {a b : Nat} (hapos : 1 ≤ a) (hbpos : 1 ≤ b)
    (ha : a < heap.length) (hb : b < heap.length) :
    (contents (exch heap a b)).Perm (contents heap) := by
  have hall : (exch heap a b).Perm heap := by
    unfold exch
    rw [entry_of_lt ha, entry_of_lt hb]
    exact List.set_set_perm ha hb
  cases heap with
  | nil => cases ha
  | cons first rest =>
      obtain ⟨a, rfl⟩ := Nat.exists_eq_add_of_le' hapos
      obtain ⟨b, rfl⟩ := Nat.exists_eq_add_of_le' hbpos
      unfold exch at hall ⊢
      rw [List.set_cons_succ, List.set_cons_succ] at hall ⊢
      exact hall.cons_inv

/-! ## Sifting -/

/-- A sifted heap: the same events in heap order. -/
structure Sifted (heap heap' : List Event) : Prop where
  length_eq : heap'.length = heap.length
  perm : (contents heap').Perm (contents heap)
  ordered : Ordered (keys heap') (last heap')

theorem Sifted.of_exch {heap heap' : List Event} {a b : Nat} (hapos : 1 ≤ a) (hbpos : 1 ≤ b)
    (ha : a < heap.length) (hb : b < heap.length) (h : Sifted (exch heap a b) heap') :
    Sifted heap heap' where
  length_eq := h.length_eq.trans (length_exch heap a b)
  perm := h.perm.trans (exch_perm hapos hbpos ha hb)
  ordered := h.ordered

theorem bottomUpLoop_sifted {heap : List Event} {fuel index : Nat} (hpos : 1 ≤ index)
    (hin : index < heap.length) (hfuel : index ≤ fuel)
    (hhole : UpHole (keys heap) (last heap) index) :
    Sifted heap (bottomUpLoop fuel heap index) := by
  induction fuel generalizing heap index with
  | zero => omega
  | succ fuel ih =>
      unfold bottomUpLoop
      split
      next h =>
          obtain ⟨hroot, hless⟩ := h
          have hlt := isLessStrictly_iff.mp hless
          have hroot' : 1 < index := by
            have : index ≠ 1 := hroot
            omega
          have hparent : parent index = index / 2 := rfl
          have hexch := hhole.exchange hroot' (by unfold last; omega) hlt
          rw [hparent] at *
          refine Sifted.of_exch hpos (by omega) hin (by omega)
            (ih (by omega) (by rw [length_exch]; omega) (by omega) ?_)
          rw [keys_exch hin (by omega), last, length_exch]
          exact hexch
      next h =>
          refine ⟨rfl, List.Perm.refl _, hhole.ordered ?_⟩
          intro hroot _
          have hnot : ¬ keys heap index < keys heap (parent index) := by
            rw [← isLessStrictly_iff]
            exact fun hless => h ⟨by unfold root; omega, hless⟩
          exact not_lt.mp hnot

/-- A position has at most two children. -/
theorem child_cases {i index : Nat} (h : i / 2 = index) : i = index * 2 ∨ i = index * 2 + 1 := by
  omega

theorem topDownLoop_sifted {heap : List Event} {fuel index : Nat} (hpos : 1 ≤ index)
    (hsize : heap.length < 2 ^ 31) (hin : index ≤ heap.length) (hfuel : heap.length < index + fuel)
    (hhole : DownHole (keys heap) (last heap) index) :
    Sifted heap (topDownLoop fuel heap index) := by
  induction fuel generalizing heap index with
  | zero => omega
  | succ fuel ih =>
      have hleft : leftChild index = index * 2 := Nat.mod_eq_of_lt (by omega)
      have hright : rightChild index = index * 2 + 1 := Nat.mod_eq_of_lt (by omega)
      unfold topDownLoop
      dsimp only
      rw [hleft, hright]
      simp only [isBottom, decide_eq_false_iff_not, decide_eq_true_eq, ge_iff_le, not_le]
      split
      next hboth =>
          -- the smaller one of two children
          have htmp : (smallest heap (index * 2) (index * 2 + 1) = index * 2 ∨
              smallest heap (index * 2) (index * 2 + 1) = index * 2 + 1) ∧
              ∀ i, 1 < i → i ≤ last heap → i / 2 = index →
                keys heap (smallest heap (index * 2) (index * 2 + 1)) ≤ keys heap i := by
            unfold smallest
            split
            next hless =>
                have hlt := isLessStrictly_iff.mp hless
                refine ⟨Or.inl rfl, fun i _ _ hparent => ?_⟩
                rcases child_cases hparent with rfl | rfl
                · exact le_refl _
                · exact le_of_lt hlt
            next hless =>
                have hle := not_lt.mp (mt isLessStrictly_iff.mpr hless)
                refine ⟨Or.inr rfl, fun i _ _ hparent => ?_⟩
                rcases child_cases hparent with rfl | rfl
                · exact hle
                · exact le_refl _
          obtain ⟨hchild, hsmallest⟩ := htmp
          generalize smallest heap (index * 2) (index * 2 + 1) = tmp at hchild hsmallest ⊢
          have hrange : 1 < tmp ∧ tmp < heap.length ∧ tmp / 2 = index ∧ index < tmp := by omega
          obtain ⟨hone, htmpin, hparent, hgrow⟩ := hrange
          split
          next hless =>
              have hlt := isLessStrictly_iff.mp hless
              refine ⟨rfl, List.Perm.refl _, hhole.ordered fun i hi hin hp => ?_⟩
              exact le_trans (le_of_lt hlt) (hsmallest i hi hin hp)
          next hless =>
              have hle := not_lt.mp (mt isLessStrictly_iff.mpr hless)
              have hexch := hhole.exchange hone (by unfold last; omega) hparent hsmallest hle
              refine Sifted.of_exch hpos (by omega) (by omega) htmpin
                (ih (by omega) (by rw [length_exch]; omega) (by rw [length_exch]; omega)
                  (by rw [length_exch]; omega) ?_)
              rw [keys_exch (by omega) htmpin, last, length_exch]
              exact hexch
      next hone =>
          split
          next hbottom =>
              refine ⟨rfl, List.Perm.refl _, hhole.ordered fun i _ hi hp => ?_⟩
              unfold last at hi
              omega
          next hinside =>
              split
              next hnone =>
                  refine ⟨rfl, List.Perm.refl _, hhole.ordered fun i _ hi hp => ?_⟩
                  unfold last at hi
                  omega
              next hsingle =>
                  -- the left child is the last event
                  have honly : ∀ i, 1 < i → i ≤ last heap → i / 2 = index → i = index * 2 := by
                    intro i _ hi hp
                    unfold last at hi
                    omega
                  split
                  next hless =>
                      have hlt := isLessStrictly_iff.mp hless
                      refine ⟨rfl, List.Perm.refl _, hhole.ordered fun i h1 hi hp => ?_⟩
                      rw [honly i h1 hi hp]
                      exact le_of_lt hlt
                  next hless =>
                      have hle := not_lt.mp (mt isLessStrictly_iff.mpr hless)
                      have hexch := hhole.exchange (by omega) (by unfold last; omega)
                        (by omega : index * 2 / 2 = index)
                        (fun i h1 hi hp => by rw [honly i h1 hi hp]) hle
                      refine ⟨length_exch _ _ _, exch_perm hpos (by omega) (by omega) (by omega), ?_⟩
                      rw [keys_exch (by omega) (by omega), last, length_exch]
                      refine hexch.ordered fun i _ hi hp => ?_
                      unfold last at hi
                      omega

/-! ## The operations -/

/-- A heap with its wasted slot, in heap order. -/
structure Heaped (heap : List Event) : Prop where
  slot : 1 ≤ heap.length
  ordered : Ordered (keys heap) (last heap)

theorem heaped_init : Heaped init where
  slot := Nat.le_refl _
  ordered i hi hin := by
    change i ≤ 0 at hin
    omega

theorem Sifted.heaped {heap heap' : List Event} (h : Sifted heap heap')
    (hslot : 1 ≤ heap.length) : Heaped heap' where
  slot := h.length_eq ▸ hslot
  ordered := h.ordered

theorem exists_entry {heap : List Event} {e : Event} (he : e ∈ contents heap) :
    ∃ i, 1 ≤ i ∧ i < heap.length ∧ entry heap i = e := by
  obtain ⟨k, hk, rfl⟩ := List.getElem_of_mem he
  have hlength : k < heap.length - 1 := by simpa [contents] using hk
  refine ⟨1 + k, by omega, by omega, ?_⟩
  rw [entry_of_lt (by omega)]
  simp only [contents, List.getElem_drop]

/-- The root is the smallest event. -/
theorem Heaped.root_le {heap : List Event} (h : Heaped heap) {e : Event}
    (he : e ∈ contents heap) : (entry heap root).order ≤ e.order := by
  obtain ⟨i, hpos, hi, rfl⟩ := exists_entry he
  exact h.ordered.root_le hpos (by unfold last; omega)

theorem insert_spec {heap : List Event} (h : Heaped heap) (ev : Event) :
    Heaped (insert heap ev) ∧ (contents (insert heap ev)).Perm (ev :: contents heap) := by
  have hslot := h.slot
  have hlast : last (heap ++ [ev]) = heap.length := by
    rw [last, List.length_append]
    rfl
  have hkeys (i : Nat) (hi : i < heap.length) : keys (heap ++ [ev]) i = keys heap i := by
    unfold keys
    rw [entry_of_lt (by rw [List.length_append]; omega), entry_of_lt hi,
      List.getElem_append_left hi]
  have hhole : UpHole (keys (heap ++ [ev])) (last (heap ++ [ev])) (last (heap ++ [ev])) := by
    rw [hlast]
    refine ⟨fun i hi hin hne => ?_, fun _ i hi hin hparent => by omega⟩
    rw [hkeys i (by omega), hkeys (i / 2) (by omega)]
    exact h.ordered i hi (by unfold last; omega)
  have hsifted : Sifted (heap ++ [ev]) (insert heap ev) :=
    bottomUpLoop_sifted (by rw [hlast]; exact hslot)
      (by rw [hlast, List.length_append]; exact Nat.lt_succ_self _) (Nat.le_refl _) hhole
  refine ⟨hsifted.heaped (by rw [List.length_append]; omega), hsifted.perm.trans ?_⟩
  rw [contents, List.drop_append_of_le_length hslot]
  exact List.perm_append_comm

/-- The heap without the event at position `i`, whose place the last event takes. -/
def without (heap : List Event) (i : Nat) : List Event := (exch heap i (last heap)).dropLast

/-- The last event may take the place of the one at `i`. -/
def Fits (heap : List Event) (i : Nat) : Prop :=
  i = root ∨ i = last heap ∨ isLessStrictly heap (last heap) (parent i) = false

theorem without_perm {heap : List Event} {i : Nat} (hpos : 1 ≤ i) (hi : i < heap.length) :
    (contents heap).Perm (entry heap i :: contents (without heap i)) := by
  have hlast : last heap < heap.length := by unfold last; omega
  have hlastPos : 1 ≤ last heap := by unfold last; omega
  refine (exch_perm hpos hlastPos hi hlast).symm.trans ?_
  have hne : exch heap i (last heap) ≠ [] := by
    rw [← List.length_pos_iff, length_exch]
    omega
  have hend : (exch heap i (last heap)).getLast hne = entry heap i := by
    have hswap : Equiv.swap i (last heap) (last heap) = i := Equiv.swap_apply_right i (last heap)
    have hentry := entry_exch hi hlast (last heap)
    rw [hswap, entry_of_lt (by rw [length_exch]; exact hlast)] at hentry
    rw [List.getLast_eq_getElem, ← hentry]
    congr 1
    rw [length_exch]
    rfl
  have hsplit : contents (exch heap i (last heap)) =
      contents (without heap i) ++ [entry heap i] := by
    conv => lhs; rw [← List.dropLast_concat_getLast hne]
    rw [hend, contents, contents, without, List.drop_append_of_le_length]
    rw [List.length_dropLast, length_exch]
    omega
  rw [hsplit]
  exact List.perm_append_comm

/-- Sifting down from the hole restores the order. -/
theorem topDown_without {heap : List Event} (h : Heaped heap) (hsize : heap.length < 2 ^ 31)
    {i : Nat} (hpos : 1 ≤ i) (hi : i < heap.length) (hfits : Fits heap i) :
    Heaped (topDown (without heap i) i) ∧
      (contents heap).Perm (entry heap i :: contents (topDown (without heap i) i)) := by
  have hlast : last heap < heap.length := by unfold last; omega
  have hlength : (without heap i).length = last heap := by
    rw [without, List.length_dropLast, length_exch]
    rfl
  have hkeys (j : Nat) (hj : j < last heap) :
      keys (without heap i) j = exchanged (keys heap) i (last heap) j := by
    rw [← keys_exch hi hlast]
    unfold keys
    rw [entry_of_lt (by rw [hlength]; exact hj), entry_of_lt (by rw [length_exch]; omega)]
    simp only [without, List.getElem_dropLast]
  have hsame (j : Nat) (hj : j < last heap) (hne : j ≠ i) :
      keys (without heap i) j = keys heap j := by
    rw [hkeys j hj, exchanged_of_ne hne (by omega)]
  have hhole : DownHole (keys (without heap i)) (last (without heap i)) i := by
    have hbound : last (without heap i) = last heap - 1 := by rw [last, hlength]
    rw [hbound]
    constructor
    · intro j hj hjn hparent
      rw [hsame (j / 2) (by omega) hparent]
      rcases eq_or_ne j i with rfl | hne
      · rw [hkeys j (by omega), exchanged_left]
        rcases hfits with hroot | hend | hle
        · exact absurd hroot (by unfold root; omega)
        · omega
        · rw [← Bool.not_eq_true, isLessStrictly_iff, not_lt] at hle
          exact hle
      · rw [hsame j (by omega) hne]
        exact h.ordered j hj (by omega)
    · intro hi' j hj hjn hparent
      rw [hsame (i / 2) (by omega) (by omega), hsame j (by omega) (by omega), ← hparent]
      exact h.ordered.grand_le (by omega) (by omega)
  have hsifted : Sifted (without heap i) (topDown (without heap i) i) :=
    topDownLoop_sifted hpos (by rw [hlength]; omega) (by rw [hlength]; unfold last; omega)
      (by omega) hhole
  refine ⟨hsifted.heaped (by rw [hlength]; unfold last; omega), ?_⟩
  exact (without_perm hpos hi).trans (hsifted.perm.symm.cons _)

theorem removeNext_spec {heap : List Event} (h : Heaped heap) (hsize : heap.length < 2 ^ 31)
    (hne : contents heap ≠ []) :
    ∃ heap', removeNext heap = some (entry heap root, heap') ∧ Heaped heap' ∧
      (contents heap).Perm (entry heap root :: contents heap') := by
  have hlength : root < heap.length := by
    have hpos := List.length_pos_iff.mpr hne
    rw [contents, List.length_drop] at hpos
    unfold root
    omega
  have hspec := topDown_without h hsize (Nat.le_refl 1) hlength (Or.inl rfl)
  refine ⟨topDown (without heap root) root, ?_, hspec⟩
  unfold removeNext
  rw [if_pos hlength]
  rfl

/-- `Remove` finds a stored event. -/
theorem position_spec {heap : List Event} {ev : Event} (huids : DistinctUids (contents heap))
    (hev : ev ∈ contents heap) :
    ∃ i, position heap ev = some i ∧ 1 ≤ i ∧ i < heap.length ∧ entry heap i = ev := by
  have hsome : ((contents heap).findIdx? fun e => e.key.uid == ev.key.uid).isSome := by
    rw [List.findIdx?_isSome]
    exact List.any_eq_true.mpr ⟨ev, hev, beq_self_eq_true _⟩
  obtain ⟨k, hk⟩ := Option.isSome_iff_exists.mp hsome
  obtain ⟨hlength, huid, -⟩ := List.findIdx?_eq_some_iff_getElem.mp hk
  have hfound : (contents heap)[k] = ev :=
    huids.eq_of_uid (List.getElem_mem _) hev (beq_iff_eq.mp huid)
  have hbound : k < heap.length - 1 := by simpa [contents] using hlength
  refine ⟨k + 1, by rw [position, hk, Option.map_some], by omega, by omega, ?_⟩
  rw [entry_of_lt (by omega), ← hfound]
  simp only [contents, List.getElem_drop, Nat.add_comm]

theorem remove_spec {heap : List Event} (h : Heaped heap) (hsize : heap.length < 2 ^ 31)
    (huids : DistinctUids (contents heap)) {ev : Event} (hev : ev ∈ contents heap)
    (hfits : ∀ i, position heap ev = some i → Fits heap i) :
    ∃ heap', remove heap ev = some heap' ∧ Heaped heap' ∧
      (contents heap).Perm (ev :: contents heap') := by
  obtain ⟨i, hposition, hpos, hi, hentry⟩ := position_spec huids hev
  have hspec := topDown_without h hsize hpos hi (hfits i hposition)
  rw [hentry] at hspec
  refine ⟨topDown (without heap i) i, ?_, hspec⟩
  unfold remove
  rw [hposition, Option.bind_some, if_pos (by rw [hentry])]
  rfl

end Ns3Rdma.Sched.HeapScheduler
