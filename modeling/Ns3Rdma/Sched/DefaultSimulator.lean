import Mathlib.Logic.Function.Basic
import Ns3Rdma.Lib.StepSystem
import Ns3Rdma.Sched.Scheduler

/-!
# The simulator core

`DefaultSimulatorImpl` over an arbitrary correct scheduler. What an event's handler does is a
sequence of further calls, so calls may come at any time, also in the middle of an event.
Every event has its own implementation, made by the call that schedules it.
-/

namespace Ns3Rdma.Sched

/-- A correct scheduler: its calls, and the events it holds. -/
structure Scheduler where
  State : Type
  empty : State
  isEmpty : State → Bool
  insert : Event → State → State
  removeNext : State → Option (Event × State)
  remove : Event → State → Option State
  contents : State → List Event
  Valid : State → Prop
  valid_empty : Valid empty
  contents_empty : contents empty = []
  isEmpty_iff {s : State} : Valid s → (isEmpty s = true ↔ contents s = [])
  insert_spec {s : State} {ev : Event} : Valid s → (∀ e ∈ contents s, e.uid ≠ ev.uid) →
    Valid (insert ev s) ∧ (contents (insert ev s)).Perm (ev :: contents s)
  removeNext_spec {s : State} : Valid s → DistinctUids (contents s) → contents s ≠ [] →
    ∃ ev s', removeNext s = some (ev, s') ∧ Valid s' ∧
      (contents s).Perm (ev :: contents s') ∧ ∀ e ∈ contents s, ev.order ≤ e.order
  remove_spec {s : State} {ev : Event} : Valid s → DistinctUids (contents s) →
    ev ∈ contents s → ∃ s', remove ev s = some s' ∧ Valid s' ∧
      (contents s).Perm (ev :: contents s')

/-- The list scheduler is correct. -/
def listScheduler : Scheduler where
  State := List Event
  empty := []
  isEmpty := List.isEmpty
  insert := ListScheduler.insert
  removeNext := ListScheduler.removeNext
  remove := ListScheduler.remove
  contents events := events
  Valid := ListScheduler.Sorted
  valid_empty := List.Pairwise.nil
  contents_empty := rfl
  isEmpty_iff _ := List.isEmpty_iff
  insert_spec hs hfresh := ⟨ListScheduler.insert_sorted hs hfresh, ListScheduler.insert_perm _ _⟩
  removeNext_spec := by
    intro s hs _ hne
    cases s with
    | nil => exact absurd rfl hne
    | cons next rest =>
        exact ⟨next, rest, rfl, (List.pairwise_cons.mp hs).2, List.Perm.refl _,
          ListScheduler.head_le hs⟩
  remove_spec := by
    intro s ev hs huids hev
    obtain ⟨rest, hremove, hperm, hsorted⟩ := ListScheduler.remove_spec hs huids hev
    exact ⟨rest, hremove, hsorted, hperm⟩

/-- `EventId`; `impl` is the pointer `m_eventImpl`. -/
structure EventId where
  impl : Option Nat
  ts : UInt64
  context : UInt32
  uid : UInt32
  deriving DecidableEq, Repr

/-- The members of `DefaultSimulatorImpl` that the main thread uses, and the flag `m_cancel`
of every event implementation. -/
structure Simulator (S : Scheduler) where
  events : S.State
  destroyEvents : List EventId
  stop : Bool
  uid : UInt32
  currentUid : UInt32
  currentTs : UInt64
  currentContext : UInt32
  unscheduledEvents : Int
  cancelled : Nat → Bool

namespace Simulator

variable {S : Scheduler}

/-- The constructor, with an empty scheduler set. -/
def init (S : Scheduler) : Simulator S where
  events := S.empty
  destroyEvents := []
  stop := false
  uid := 4
  currentUid := 0
  currentTs := 0
  currentContext := 0xffffffff
  unscheduledEvents := 0
  cancelled _ := false

/-- The common end of the scheduling calls. `m_unscheduledEvents` is an `int`: there is no
step beyond its range. -/
def enqueue (s : Simulator S) (event : Nat) (ts : UInt64) (context : UInt32) :
    Option (Simulator S) :=
  let ev : Event := ⟨event, ⟨ts, s.uid, context⟩⟩
  if s.unscheduledEvents + 1 < 2 ^ 31 then
    some
      { s with
        uid := s.uid + 1
        unscheduledEvents := s.unscheduledEvents + 1
        events := S.insert ev s.events }
  else none

/-- The id of the event that is scheduled next. -/
def nextId (s : Simulator S) (event : Nat) (ts : UInt64) (context : UInt32) : EventId :=
  ⟨some event, ts, context, s.uid⟩

/-- `Schedule` with a delay of `time`; the assertion fails when the sum exceeds `int64_t`. -/
def schedule (s : Simulator S) (time event : Nat) : Option (EventId × Simulator S) :=
  let tAbsolute := time + s.currentTs.toNat
  if tAbsolute < 2 ^ 63 then
    (s.enqueue event (UInt64.ofNat tAbsolute) s.currentContext).map fun s' =>
      (s.nextId event (UInt64.ofNat tAbsolute) s.currentContext, s')
  else none

/-- `ScheduleWithContext` from the main thread; the sum is of signed 64-bit integers, whose
overflow is undefined. -/
def scheduleWithContext (s : Simulator S) (context : UInt32) (time event : Nat) :
    Option (Simulator S) :=
  let tAbsolute := time + s.currentTs.toNat
  if tAbsolute < 2 ^ 63 then s.enqueue event (UInt64.ofNat tAbsolute) context else none

/-- `ScheduleNow`. -/
def scheduleNow (s : Simulator S) (event : Nat) : Option (EventId × Simulator S) :=
  (s.enqueue event s.currentTs s.currentContext).map fun s' =>
    (s.nextId event s.currentTs s.currentContext, s')

/-- `ScheduleDestroy`. -/
def scheduleDestroy (s : Simulator S) (event : Nat) : EventId × Simulator S :=
  let id : EventId := ⟨some event, s.currentTs, 0xffffffff, 2⟩
  (id, { s with destroyEvents := s.destroyEvents ++ [id], uid := s.uid + 1 })

/-- `PeekEventImpl () == 0 || PeekEventImpl ()->IsCancelled ()`. -/
def nullOrCancelled (s : Simulator S) (id : EventId) : Bool :=
  id.impl.all s.cancelled

/-- `IsExpired`. -/
def isExpired (s : Simulator S) (ev : EventId) : Bool :=
  if ev.uid = 2 then
    if s.nullOrCancelled ev then true else !s.destroyEvents.contains ev
  else
    ev.impl.isNone || decide (ev.ts < s.currentTs) ||
      (decide (ev.ts = s.currentTs) && decide (ev.uid ≤ s.currentUid)) || s.nullOrCancelled ev

/-- `EventImpl::Cancel` of the implementation behind an id. -/
def cancelImpl (s : Simulator S) (id : EventId) : Simulator S :=
  match id.impl with
  | none => s
  | some event => { s with cancelled := Function.update s.cancelled event true }

/-- `Cancel`. -/
def cancel (s : Simulator S) (id : EventId) : Simulator S :=
  if s.isExpired id = false then s.cancelImpl id else s

/-- `Remove`. -/
def remove (s : Simulator S) (id : EventId) : Option (Simulator S) :=
  if id.uid = 2 then some { s with destroyEvents := s.destroyEvents.erase id }
  else if s.isExpired id = true then some s
  else
    id.impl.bind fun event =>
      (S.remove ⟨event, ⟨id.ts, id.uid, id.context⟩⟩ s.events).map fun events =>
        { ({ s with events := events }).cancelImpl id with
          unscheduledEvents := s.unscheduledEvents - 1 }

/-- `ProcessOneEvent` up to the end of `Invoke` without the handler's own calls: the event,
whether its handler runs, and the state in which it does. -/
def processOneEvent (s : Simulator S) : Option (Event × Bool × Simulator S) :=
  (S.removeNext s.events).bind fun (next, events) =>
    if next.key.ts ≥ s.currentTs then
      some (next, !s.cancelled next.impl,
        { s with
          events := events
          unscheduledEvents := s.unscheduledEvents - 1
          currentTs := next.key.ts
          currentContext := next.key.context
          currentUid := next.key.uid })
    else none

end Simulator

/-! ## Runs -/

namespace Simulation

inductive Call where
  | schedule (time : Nat)
  | scheduleWithContext (context : UInt32) (time : Nat)
  | scheduleNow
  | scheduleDestroy
  | cancel (id : EventId)
  | remove (id : EventId)
  /-- `Run` up to the test of its loop. -/
  | run
  | processOneEvent
  /-- The end of `Run` behind its loop. -/
  | finish
  | stop

/-- The simulator and the history of the run. -/
structure World (S : Scheduler) where
  sim : Simulator S
  /-- Inside `Run`. -/
  running : Bool
  /-- The number of calls that scheduled an event; it names the next implementation. -/
  count : Nat
  /-- The ids that were returned. -/
  ids : List EventId
  /-- All events but the destroy events. -/
  scheduled : List Event
  /-- The events taken by `ProcessOneEvent`, in order. -/
  executed : List Event
  /-- The events whose handler ran, in order. -/
  invoked : List Event
  /-- The ids given to `Cancel` or `Remove`. -/
  revoked : List EventId

variable {S : Scheduler}

def start (S : Scheduler) : World S where
  sim := Simulator.init S
  running := false
  count := 0
  ids := []
  scheduled := []
  executed := []
  invoked := []
  revoked := []

/-- The event that a scheduling call inserts. -/
def World.event (w : World S) (ts : UInt64) (context : UInt32) : Event :=
  ⟨w.count, ⟨ts, w.sim.uid, context⟩⟩

/-- Record an event that was scheduled. -/
def World.record (w : World S) (sim : Simulator S) (ev : Event) (ids : List EventId) : World S :=
  { w with
    sim := sim
    count := w.count + 1
    ids := w.ids ++ ids
    scheduled := w.scheduled ++ [ev] }

/-- The absolute time of a delay. -/
def World.absolute (w : World S) (time : Nat) : UInt64 := UInt64.ofNat (time + w.sim.currentTs.toNat)

/-- An id that a caller can have: one that was returned, or the default one. -/
def World.Knows (w : World S) (id : EventId) : Prop := id ∈ w.ids ∨ id = ⟨none, 0, 0, 0⟩

instance (w : World S) (id : EventId) : Decidable (w.Knows id) :=
  inferInstanceAs (Decidable (_ ∨ _))

/-- Execute one call. A failed assertion has no successor. -/
def step (w : World S) : Call → Option (World S)
  | .schedule time =>
      (w.sim.schedule time w.count).map fun (id, sim) =>
        w.record sim (w.event (w.absolute time) w.sim.currentContext) [id]
  | .scheduleWithContext context time =>
      (w.sim.scheduleWithContext context time w.count).map fun sim =>
        w.record sim (w.event (w.absolute time) context) []
  | .scheduleNow =>
      (w.sim.scheduleNow w.count).map fun (id, sim) =>
        w.record sim (w.event w.sim.currentTs w.sim.currentContext) [id]
  | .scheduleDestroy =>
      let (id, sim) := w.sim.scheduleDestroy w.count
      some { w with sim := sim, count := w.count + 1, ids := w.ids ++ [id] }
  | .cancel id =>
      if w.Knows id then
        some { w with sim := w.sim.cancel id, revoked := w.revoked ++ [id] }
      else none
  | .remove id =>
      if w.Knows id then
        (w.sim.remove id).map fun sim => { w with sim := sim, revoked := w.revoked ++ [id] }
      else none
  | .run =>
      if w.running then none
      else some { w with sim := { w.sim with stop := false }, running := true }
  | .processOneEvent =>
      if w.running = true ∧ S.isEmpty w.sim.events = false ∧ w.sim.stop = false then
        w.sim.processOneEvent.map fun (ev, runs, sim) =>
          { w with
            sim := sim
            executed := w.executed ++ [ev]
            invoked := if runs then w.invoked ++ [ev] else w.invoked }
      else none
  | .finish =>
      if w.running = true ∧ (S.isEmpty w.sim.events = true ∨ w.sim.stop = true) then
        if S.isEmpty w.sim.events = false ∨ w.sim.unscheduledEvents = 0 then
          some { w with running := false }
        else none
      else none
  | .stop => some { w with sim := { w.sim with stop := true } }

end Simulation

end Ns3Rdma.Sched
