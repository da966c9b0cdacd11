import Ns3Rdma.Lib.StepSystem
import Ns3Rdma.Sched.HeapScheduler

/-!
# The heap scheduler against the list scheduler

Both schedulers execute the same calls. As long as no removal puts the last event below a
greater parent, they return the same events, which are the smallest ones stored.
-/

namespace Ns3Rdma.Sched.HeapScheduler

open StepSystem

inductive Call where
  | insert (ev : Event)
  | peekNext
  | removeNext
  | remove (ev : Event)
  deriving DecidableEq

/-- One call of the heap scheduler: the heap afterwards and the event returned. -/
def heapCall (heap : List Event) : Call → Option (List Event × Option Event)
  | .insert ev => some (insert heap ev, none)
  | .peekNext => if root < heap.length then some (heap, some (peekNext heap)) else none
  | .removeNext => (removeNext heap).map fun (ev, heap) => (heap, some ev)
  | .remove ev => (remove heap ev).map fun heap => (heap, none)

/-- One call of the list scheduler. -/
def listCall (list : List Event) : Call → Option (List Event × Option Event)
  | .insert ev => some (ListScheduler.insert ev list, none)
  | .peekNext => (ListScheduler.peekNext list).map fun ev => (list, some ev)
  | .removeNext => (ListScheduler.removeNext list).map fun (ev, list) => (list, some ev)
  | .remove ev => (ListScheduler.remove ev list).map fun list => (list, none)

/-- The two schedulers side by side. -/
structure World where
  heap : List Event
  list : List Event

def start : World := ⟨init, []⟩

/-- Both execute the call. -/
def step (w : World) (call : Call) : Option World :=
  (heapCall w.heap call).bind fun h =>
    (listCall w.list call).map fun l => ⟨h.1, l.1⟩

/-- What the callers promise: fresh uids, no query of an empty queue, removal of stored
events. Positions have 32 bits, so there are fewer than `2 ^ 31 - 1` events. -/
def Allowed (heap : List Event) : Call → Prop
  | .insert ev => (∀ e ∈ contents heap, e.uid ≠ ev.uid) ∧ heap.length + 1 < 2 ^ 31
  | .peekNext => contents heap ≠ []
  | .removeNext => contents heap ≠ []
  | .remove ev => ev ∈ contents heap

/-- A removal from the inside of the heap does not move the last event below a greater one. -/
def Harmless (heap : List Event) : Call → Prop
  | .remove ev => ∀ i, position heap ev = some i → Fits heap i
  | _ => True

/-- The smallest event of a list. -/
def Least (ev : Event) (events : List Event) : Prop :=
  ev ∈ events ∧ ∀ e ∈ events, ev.order ≤ e.order

/-- What a priority queue returns and stores. -/
def Exact (before after : List Event) (returned : Option Event) : Call → Prop
  | .insert ev => returned = none ∧ after.Perm (ev :: before)
  | .peekNext => ∃ ev, returned = some ev ∧ Least ev before ∧ after.Perm before
  | .removeNext => ∃ ev, returned = some ev ∧ Least ev before ∧ before.Perm (ev :: after)
  | .remove ev => returned = none ∧ before.Perm (ev :: after)

/-- The call succeeds on both schedulers with the same result, which is that of a priority
queue. -/
def Answered (w : World) (call : Call) : Prop :=
  ∃ heap list returned, heapCall w.heap call = some (heap, returned) ∧
    listCall w.list call = some (list, returned) ∧
    Exact (contents w.heap) (contents heap) returned call

/-- The heap and the list store the same events. -/
structure Represents (w : World) : Prop where
  heaped : Heaped w.heap
  size : w.heap.length < 2 ^ 31
  distinct : DistinctUids (contents w.heap)
  perm : (contents w.heap).Perm w.list
  sorted : ListScheduler.Sorted w.list

theorem represents_start : Represents start where
  heaped := heaped_init
  size := by decide
  distinct := List.Pairwise.nil
  perm := List.Perm.refl _
  sorted := List.Pairwise.nil

theorem heap_length {heap : List Event} (h : Heaped heap) :
    heap.length = (contents heap).length + 1 := by
  have := h.slot
  rw [contents, List.length_drop]
  omega

/-- Of two smallest events with distinct uids there is only one. -/
theorem Least.eq {a b : Event} {events : List Event} (huids : DistinctUids events)
    (ha : Least a events) (hb : Least b events) : a = b :=
  huids.eq_of_uid ha.1 hb.1 (Event.uid_eq_of_order (le_antisymm (ha.2 b hb.1) (hb.2 a ha.1)))

namespace Represents

variable {w : World}

theorem root_least (h : Represents w) (hne : contents w.heap ≠ []) :
    root < w.heap.length ∧ Least (entry w.heap root) (contents w.heap) := by
  have hlength : root < w.heap.length := by
    have hpos := List.length_pos_iff.mpr hne
    rw [heap_length h.heaped, root]
    omega
  exact ⟨hlength, entry_mem (Nat.le_refl 1) hlength, fun e he => h.heaped.root_le he⟩

/-- The front of the list is the root of the heap. -/
theorem list_eq (h : Represents w) (hne : contents w.heap ≠ []) :
    ∃ rest, w.list = entry w.heap root :: rest := by
  cases hlist : w.list with
  | nil => exact absurd (h.perm.trans (by rw [hlist])).eq_nil hne
  | cons next rest =>
      have hperm := h.perm
      have hsorted := h.sorted
      rw [hlist] at hperm hsorted
      have hleast : Least next (contents w.heap) :=
        ⟨hperm.mem_iff.mpr List.mem_cons_self,
          fun e he => ListScheduler.head_le hsorted e (hperm.mem_iff.mp he)⟩
      rw [hleast.eq h.distinct (h.root_least hne).2]
      exact ⟨rest, rfl⟩

/-- The common part of the two removals. -/
theorem removed (h : Represents w) {heap list : List Event} {ev : Event} (hheap : Heaped heap)
    (hperm : (contents w.heap).Perm (ev :: contents heap)) (hlist : w.list.Perm (ev :: list))
    (hsorted : ListScheduler.Sorted list) : Represents ⟨heap, list⟩ where
  heaped := hheap
  size := by
    have hlength := hperm.length_eq
    have hsize := h.size
    rw [heap_length h.heaped, hlength, List.length_cons] at hsize
    rw [heap_length hheap]
    omega
  distinct := (List.pairwise_cons.mp (h.distinct.perm hperm)).2
  perm := (hperm.symm.trans (h.perm.trans hlist)).cons_inv
  sorted := hsorted

/-- Every permitted call is answered, and the schedulers keep the same events. -/
theorem answered (h : Represents w) {call : Call} (hallowed : Allowed w.heap call)
    (hharmless : Harmless w.heap call) :
    Answered w call ∧ ∀ next, step w call = some next → Represents next := by
  cases call with
  | insert ev =>
      obtain ⟨hfresh, hsize⟩ := hallowed
      obtain ⟨hheaped, hperm⟩ := insert_spec h.heaped ev
      refine ⟨⟨_, _, none, rfl, rfl, rfl, hperm⟩, ?_⟩
      rintro next hstep
      obtain rfl := Option.some.inj hstep
      refine ⟨hheaped, ?_, ?_, ?_, ?_⟩
      · have hlength := hperm.length_eq
        have hold := heap_length h.heaped
        rw [heap_length hheaped, hlength, List.length_cons]
        omega
      · refine DistinctUids.perm ?_ hperm.symm
        exact List.pairwise_cons.mpr ⟨fun e he => (hfresh e he).symm, h.distinct⟩
      · exact hperm.trans ((h.perm.cons ev).trans (ListScheduler.insert_perm ev w.list).symm)
      · exact ListScheduler.insert_sorted h.sorted fun e he => hfresh e (h.perm.mem_iff.mpr he)
  | peekNext =>
      obtain ⟨hlength, hleast⟩ := h.root_least hallowed
      obtain ⟨rest, hlist⟩ := h.list_eq hallowed
      have hheapCall : heapCall w.heap .peekNext = some (w.heap, some (entry w.heap root)) :=
        if_pos hlength
      have hlistCall : listCall w.list .peekNext = some (w.list, some (entry w.heap root)) := by
        rw [hlist]
        rfl
      refine ⟨⟨_, _, _, hheapCall, hlistCall, _, rfl, hleast, List.Perm.refl _⟩, ?_⟩
      rintro next hstep
      rw [step, hheapCall, hlistCall] at hstep
      obtain rfl := Option.some.inj hstep
      exact h
  | removeNext =>
      obtain ⟨hlength, hleast⟩ := h.root_least hallowed
      obtain ⟨rest, hlist⟩ := h.list_eq hallowed
      obtain ⟨heap, hremove, hheaped, hperm⟩ := removeNext_spec h.heaped h.size hallowed
      have hheapCall : heapCall w.heap .removeNext = some (heap, some (entry w.heap root)) := by
        rw [heapCall, hremove]
        rfl
      have hlistCall : listCall w.list .removeNext = some (rest, some (entry w.heap root)) := by
        rw [hlist]
        rfl
      refine ⟨⟨_, _, _, hheapCall, hlistCall, _, rfl, hleast, hperm⟩, ?_⟩
      rintro next hstep
      rw [step, hheapCall, hlistCall] at hstep
      obtain rfl := Option.some.inj hstep
      have hsorted := h.sorted
      rw [hlist] at hsorted
      exact h.removed hheaped hperm (by rw [hlist]) (List.pairwise_cons.mp hsorted).2
  | remove ev =>
      obtain ⟨heap, hremove, hheaped, hperm⟩ :=
        remove_spec h.heaped h.size h.distinct hallowed hharmless
      obtain ⟨list, hlistRemove, hlistPerm, hsorted⟩ :=
        ListScheduler.remove_spec h.sorted (h.distinct.perm h.perm) (h.perm.mem_iff.mp hallowed)
      have hheapCall : heapCall w.heap (.remove ev) = some (heap, none) := by
        rw [heapCall, hremove]
        rfl
      have hlistCall : listCall w.list (.remove ev) = some (list, none) := by
        rw [listCall, hlistRemove]
        rfl
      refine ⟨⟨_, _, _, hheapCall, hlistCall, rfl, hperm⟩, ?_⟩
      rintro next hstep
      rw [step, hheapCall, hlistCall] at hstep
      obtain rfl := Option.some.inj hstep
      exact h.removed hheaped hperm hlistPerm hsorted

end Represents

/-- In every run whose removals are harmless, the heap scheduler is a priority queue and
answers every call like the list scheduler. -/
theorem heap_refines_list {calls : List Call}
    (hcalls : EachStep step
      (fun w call _ => Allowed w.heap call ∧ Harmless w.heap call) start calls) :
    Throughout step (fun w => ∀ call, Allowed w.heap call → Harmless w.heap call →
      Answered w call) start calls := by
  have hrepresents := throughout_of_eachStep (I := Represents)
    (fun w call next h hstep hcond => (h.answered hcond.1 hcond.2).2 next hstep)
    represents_start hcalls
  exact hrepresents.mono fun w h call hallowed hharmless => (h.answered hallowed hharmless).1

instance (heap : List Event) : (call : Call) → Decidable (Allowed heap call)
  | .insert ev =>
      inferInstanceAs
        (Decidable ((∀ e ∈ contents heap, e.uid ≠ ev.uid) ∧ heap.length + 1 < 2 ^ 31))
  | .peekNext => inferInstanceAs (Decidable (contents heap ≠ []))
  | .removeNext => inferInstanceAs (Decidable (contents heap ≠ []))
  | .remove ev => inferInstanceAs (Decidable (ev ∈ contents heap))

instance (heap : List Event) (i : Nat) : Decidable (Fits heap i) :=
  inferInstanceAs (Decidable (_ ∨ _ ∨ _))

instance (heap : List Event) : (call : Call) → Decidable (Harmless heap call)
  | .remove ev =>
      match h : position heap ev with
      | none => isTrue fun i hi => by rw [h] at hi; cases hi
      | some k =>
          decidable_of_iff (Fits heap k)
            ⟨fun hfits i hi => by rw [h] at hi; exact Option.some.inj hi ▸ hfits,
              fun hall => hall k h⟩
  | .insert _ => isTrue trivial
  | .peekNext => isTrue trivial
  | .removeNext => isTrue trivial

/-- An event whose time stamp and uid are `n`. -/
def sample (n : Nat) : Event := ⟨n, ⟨UInt64.ofNat n, UInt32.ofNat n, 0⟩⟩

theorem heap_refines_list_removeLast :
    Throughout step (fun w => ∀ call, Allowed w.heap call → Harmless w.heap call →
      Answered w call) start
      [.insert (sample 5), .insert (sample 3), .insert (sample 4), .remove (sample 3),
        .removeNext] :=
  heap_refines_list (eachStep_of_take (by decide +kernel))

/-- After the removal of an event inside the heap the third `RemoveNext` returns the event
at 4 although the one at 3 is stored. -/
theorem removeInside_not_least :
    ¬ ∀ calls : List Call,
      EachStep step (fun w call _ => Allowed w.heap call) start calls →
        Throughout step (fun w => ∀ call, Allowed w.heap call → Answered w call)
          start calls := by
  intro hall
  let calls : List Call :=
    [7, 6, 5, 4, 2, 1, 3].map (fun n => Call.insert (sample n)) ++
      [.remove (sample 7), .removeNext, .removeNext]
  have hthroughout := hall calls (eachStep_of_take (by decide +kernel))
  have hreturned : (run step start calls).any (fun w =>
      decide (Allowed w.heap .removeNext) &&
      (heapCall w.heap .removeNext).any (fun result => result.2 == some (sample 4)) &&
      (contents w.heap).contains (sample 3)) = true := by decide +kernel
  obtain ⟨w, hrun, hw⟩ := Option.any_eq_true _ _ |>.mp hreturned
  simp only [Bool.and_eq_true, decide_eq_true_eq, List.contains_iff_mem] at hw
  obtain ⟨⟨hallowed, hcall⟩, hstored⟩ := hw
  obtain ⟨result, hresult, hfour⟩ := Option.any_eq_true _ _ |>.mp hcall
  obtain ⟨heap, list, returned, hheap, -, ev, rfl, hleast, -⟩ :=
    hthroughout.last hrun .removeNext hallowed
  obtain rfl := Option.some.inj (hheap.symm.trans hresult)
  obtain rfl : ev = sample 4 := by simpa using hfour
  exact absurd (hleast.2 (sample 3) hstored) (by decide)

end Ns3Rdma.Sched.HeapScheduler
