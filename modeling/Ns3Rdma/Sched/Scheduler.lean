import Mathlib.Data.List.Pairwise
import Mathlib.Data.List.Perm.Basic
import Mathlib.Data.Prod.Lex
import Mathlib.Data.UInt

/-!
# Events of the simulator and the list scheduler

Events are ordered by time stamp, and by uid among equal time stamps. The list scheduler
keeps its events in that order: it is the reference for the other schedulers.
-/

namespace Ns3Rdma.Sched

/-- `Scheduler::EventKey`. -/
structure EventKey where
  ts : UInt64
  uid : UInt32
  context : UInt32
  deriving DecidableEq, Repr

/-- `Scheduler::Event`; `impl` stands for the pointer to the event's implementation. -/
structure Event where
  impl : Nat
  key : EventKey
  deriving DecidableEq, Repr

/-- `operator <` on event keys. -/
def EventKey.lt (a b : EventKey) : Bool :=
  if a.ts < b.ts then true
  else if a.ts = b.ts ∧ a.uid < b.uid then true
  else false

/-- `operator <` on events. -/
def Event.lt (a b : Event) : Bool := a.key.lt b.key

/-- The place of an event in the order of time stamps and uids. -/
def Event.order (e : Event) : ℕ ×ₗ ℕ := toLex (e.key.ts.toNat, e.key.uid.toNat)

def Event.uid (e : Event) : UInt32 := e.key.uid

theorem Event.lt_iff {a b : Event} : a.lt b = true ↔ a.order < b.order := by
  unfold Event.lt EventKey.lt Event.order
  rw [Prod.Lex.toLex_lt_toLex]
  simp only [UInt64.lt_iff_toNat_lt, UInt32.lt_iff_toNat_lt, ← UInt64.toNat_inj]
  split
  next h => simp [h]
  next h =>
      split
      next h' => simp [h']
      next h' =>
          simp only [Bool.false_eq_true, false_iff, not_or]
          exact ⟨h, h'⟩

theorem Event.not_lt_iff {a b : Event} : a.lt b = false ↔ b.order ≤ a.order := by
  rw [← Bool.not_eq_true, Event.lt_iff, not_lt]

/-- Events with the same place in the order have the same uid. -/
theorem Event.uid_eq_of_order {a b : Event} (h : a.order = b.order) : a.uid = b.uid := by
  have hpair := Prod.mk.inj (toLex.injective h)
  exact UInt32.toNat.inj hpair.2

/-- Uids are given out once. -/
def DistinctUids (events : List Event) : Prop :=
  events.Pairwise fun a b => a.uid ≠ b.uid

theorem DistinctUids.perm {events events' : List Event} (h : DistinctUids events)
    (hperm : events.Perm events') : DistinctUids events' :=
  (hperm.pairwise_iff fun hne => hne.symm).mp h

theorem DistinctUids.eq_of_uid {events : List Event} (h : DistinctUids events) {a b : Event}
    (ha : a ∈ events) (hb : b ∈ events) (huid : a.uid = b.uid) : a = b := by
  have : Std.Symm fun a b : Event => a.uid ≠ b.uid := ⟨fun _ _ hne => hne.symm⟩
  by_contra hne
  exact List.Pairwise.forall h ha hb hne huid

/-! ## The list scheduler -/

namespace ListScheduler

/-- `Insert`: before the first event that is greater. -/
def insert (ev : Event) : List Event → List Event
  | [] => [ev]
  | i :: rest => if ev.key.lt i.key then ev :: i :: rest else i :: insert ev rest

/-- `PeekNext`. -/
def peekNext (events : List Event) : Option Event := events.head?

/-- `RemoveNext`; there must be an event. -/
def removeNext : List Event → Option (Event × List Event)
  | [] => none
  | next :: rest => some (next, rest)

/-- `Remove`: erase the event with the uid; it must be there with this implementation. -/
def remove (ev : Event) : List Event → Option (List Event)
  | [] => none
  | i :: rest =>
      if i.key.uid = ev.key.uid then
        if ev.impl = i.impl then some rest else none
      else (remove ev rest).map (i :: ·)

/-- Strictly increasing in the order of events. -/
def Sorted (events : List Event) : Prop :=
  events.Pairwise fun a b => a.order < b.order

theorem insert_perm (ev : Event) (events : List Event) :
    (insert ev events).Perm (ev :: events) := by
  induction events with
  | nil => exact List.Perm.refl _
  | cons i rest ih =>
      unfold insert
      split
      next => exact List.Perm.refl _
      next => exact (List.Perm.cons i ih).trans (List.Perm.swap ev i rest)

theorem insert_sorted {ev : Event} {events : List Event} (h : Sorted events)
    (hfresh : ∀ e ∈ events, e.uid ≠ ev.uid) : Sorted (insert ev events) := by
  induction events with
  | nil => exact List.pairwise_singleton _ _
  | cons i rest ih =>
      obtain ⟨hi, hrest⟩ := List.pairwise_cons.mp h
      unfold insert
      split
      next hlt =>
          have hbefore : ev.order < i.order := Event.lt_iff.mp hlt
          refine List.pairwise_cons.mpr ⟨?_, h⟩
          intro e he
          rcases List.mem_cons.mp he with rfl | he
          · exact hbefore
          · exact lt_trans hbefore (hi e he)
      next hnot =>
          have hle : i.order ≤ ev.order := Event.not_lt_iff.mp (Bool.eq_false_iff.mpr hnot)
          have hafter : i.order < ev.order :=
            lt_of_le_of_ne hle fun heq =>
              hfresh i List.mem_cons_self (Event.uid_eq_of_order heq)
          refine List.pairwise_cons.mpr ⟨?_, ih hrest fun e he =>
            hfresh e (List.mem_cons_of_mem _ he)⟩
          intro e he
          rcases List.mem_cons.mp ((insert_perm ev rest).mem_iff.mp he) with rfl | he
          · exact hafter
          · exact hi e he

/-- The first event of a sorted list is the smallest one. -/
theorem head_le {next : Event} {rest : List Event} (h : Sorted (next :: rest)) :
    ∀ e ∈ next :: rest, next.order ≤ e.order := by
  intro e he
  rcases List.mem_cons.mp he with rfl | he
  · exact le_refl _
  · exact le_of_lt ((List.pairwise_cons.mp h).1 e he)

/-- Removing a stored event leaves exactly the others, in order. -/
theorem remove_spec {ev : Event} {events : List Event} (h : Sorted events)
    (huids : DistinctUids events) (hev : ev ∈ events) :
    ∃ rest, remove ev events = some rest ∧ events.Perm (ev :: rest) ∧ Sorted rest := by
  have hsub : ∃ rest, remove ev events = some rest ∧ events.Perm (ev :: rest) ∧
      rest.Sublist events := by
    clear h
    induction events with
    | nil => cases hev
    | cons i rest ih =>
        obtain ⟨hi, hrest⟩ := List.pairwise_cons.mp huids
        unfold remove
        by_cases huid : i.key.uid = ev.key.uid
        · have hie : i = ev := huids.eq_of_uid List.mem_cons_self hev huid
          rw [if_pos huid, if_pos (by rw [hie])]
          exact ⟨rest, rfl, by rw [hie], List.sublist_cons_self i rest⟩
        · have hmem : ev ∈ rest := by
            rcases List.mem_cons.mp hev with rfl | hmem
            · exact absurd rfl huid
            · exact hmem
          obtain ⟨rest', hremove, hperm, hsublist⟩ := ih hrest hmem
          rw [if_neg huid, hremove, Option.map_some]
          exact ⟨i :: rest', rfl, (hperm.cons i).trans (List.Perm.swap ev i rest'),
            hsublist.cons_cons i⟩
  obtain ⟨rest, hremove, hperm, hsublist⟩ := hsub
  exact ⟨rest, hremove, hperm, List.Pairwise.sublist hsublist h⟩

end ListScheduler

end Ns3Rdma.Sched
