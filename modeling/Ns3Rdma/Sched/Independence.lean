import Ns3Rdma.Lib.Simulation
import Ns3Rdma.Sched.Causality

/-!
# Independence of the scheduler

The simulator may use any correct scheduler, and exchange it at any time. The events, their order
and all answers stay the same.
-/

namespace Ns3Rdma.Sched

open StepSystem

/-! ## The map scheduler

A `std::map` from keys to implementations, in the order of the keys. -/

namespace MapScheduler

/-- `Insert`; `std::map::insert` leaves an entry of the same key as it is. -/
def insert (ev : Event) : List Event → List Event
  | [] => [ev]
  | i :: rest =>
      if ev.key.lt i.key then ev :: i :: rest
      else if i.key.lt ev.key then i :: insert ev rest
      else i :: rest

/-- `RemoveNext`; there must be an event. -/
def removeNext : List Event → Option (Event × List Event)
  | [] => none
  | next :: rest => some (next, rest)

/-- `Remove`: the entry of the key must be there, with this implementation. -/
def remove (ev : Event) : List Event → Option (List Event)
  | [] => none
  | i :: rest =>
      if ev.key.lt i.key then none
      else if i.key.lt ev.key then (remove ev rest).map (i :: ·)
      else if i.impl = ev.impl then some rest else none

/-- Keys with different uids are different. -/
theorem insert_eq {ev : Event} {events : List Event} (hfresh : ∀ e ∈ events, e.uid ≠ ev.uid) :
    insert ev events = ListScheduler.insert ev events := by
  induction events with
  | nil => rfl
  | cons i rest ih =>
      unfold insert ListScheduler.insert
      by_cases hbefore : ev.key.lt i.key = true
      · rw [if_pos hbefore, if_pos hbefore]
      · have hle := Event.not_lt_iff.mp (Bool.eq_false_iff.mpr hbefore)
        have hlt : i.order < ev.order := lt_of_le_of_ne hle fun heq =>
          hfresh i List.mem_cons_self (Event.uid_eq_of_order heq)
        have hafter : i.key.lt ev.key = true := Event.lt_iff.mpr hlt
        rw [if_neg hbefore, if_pos hafter, if_neg hbefore,
          ih fun e he => hfresh e (List.mem_cons_of_mem _ he)]

theorem remove_spec {ev : Event} {events : List Event} (h : ListScheduler.Sorted events)
    (hev : ev ∈ events) :
    ∃ rest, remove ev events = some rest ∧ events.Perm (ev :: rest) ∧
      ListScheduler.Sorted rest ∧ rest ⊆ events := by
  induction events with
  | nil => cases hev
  | cons i rest ih =>
      obtain ⟨hi, hrest⟩ := List.pairwise_cons.mp h
      unfold remove
      rcases List.mem_cons.mp hev with rfl | hmem
      · have hself : ev.key.lt ev.key = false := Event.not_lt_iff.mpr le_rfl
        rw [hself, if_neg Bool.false_ne_true, if_neg Bool.false_ne_true, if_pos rfl]
        exact ⟨rest, rfl, .refl _, hrest, List.subset_cons_self _ _⟩
      · have hafter : i.key.lt ev.key = true := Event.lt_iff.mpr (hi ev hmem)
        have hbefore : ev.key.lt i.key = false := Event.not_lt_iff.mpr (hi ev hmem).le
        obtain ⟨rest', hremove, hperm, hsorted, hsub⟩ := ih hrest hmem
        rw [hbefore, if_neg Bool.false_ne_true, if_pos hafter, hremove, Option.map_some]
        refine ⟨i :: rest', rfl, (hperm.cons i).trans (.swap ev i rest'), ?_,
          List.cons_subset_cons _ hsub⟩
        exact List.pairwise_cons.mpr ⟨fun e he => hi e (hsub he), hsorted⟩

end MapScheduler

/-- The map scheduler, which is the default one, is correct. -/
def mapScheduler : Scheduler where
  State := List Event
  empty := []
  isEmpty := List.isEmpty
  insert := MapScheduler.insert
  removeNext := MapScheduler.removeNext
  remove := MapScheduler.remove
  contents events := events
  Valid := ListScheduler.Sorted
  valid_empty := listScheduler.valid_empty
  contents_empty := listScheduler.contents_empty
  isEmpty_iff := listScheduler.isEmpty_iff
  insert_spec hs hfresh := by
    rw [MapScheduler.insert_eq hfresh]
    exact ⟨ListScheduler.insert_sorted hs hfresh, ListScheduler.insert_perm _ _⟩
  removeNext_spec := by
    intro s hs _ hne
    cases s with
    | nil => exact absurd rfl hne
    | cons next rest =>
        exact ⟨next, rest, rfl, (List.pairwise_cons.mp hs).2, .refl _, ListScheduler.head_le hs⟩
  remove_spec := by
    intro s ev hs _ hev
    obtain ⟨rest, hremove, hperm, hsorted, -⟩ := MapScheduler.remove_spec hs hev
    exact ⟨rest, hremove, hsorted, hperm⟩

/-! ## The exchange of the scheduler -/

variable {S S' : Scheduler}

/-- The loop of `SetScheduler`; each turn moves one event. -/
def moveEvents (S S' : Scheduler) : ℕ → S.State → S'.State → Option S'.State
  | 0, events, moved => if S.isEmpty events then some moved else none
  | fuel + 1, events, moved =>
      if S.isEmpty events then some moved
      else (S.removeNext events).bind fun next =>
        moveEvents S S' fuel next.2 (S'.insert next.1 moved)

namespace Simulator

/-- The same simulator with the events in another scheduler. -/
def withEvents (s : Simulator S) (events : S'.State) : Simulator S' where
  events := events
  destroyEvents := s.destroyEvents
  stop := s.stop
  uid := s.uid
  currentUid := s.currentUid
  currentTs := s.currentTs
  currentContext := s.currentContext
  unscheduledEvents := s.unscheduledEvents
  cancelled := s.cancelled

/-- `SetScheduler`. -/
def setScheduler (S' : Scheduler) (s : Simulator S) : Option (Simulator S') :=
  (moveEvents S S' (S.contents s.events).length s.events S'.empty).map s.withEvents

end Simulator

/-- Every event arrives in the other scheduler. -/
theorem moveEvents_spec {fuel : ℕ} {events : S.State} {moved : S'.State} (hvalid : S.Valid events)
    (hmoved : S'.Valid moved) (hdistinct : DistinctUids (S.contents events ++ S'.contents moved))
    (hfuel : (S.contents events).length ≤ fuel) :
    ∃ all, moveEvents S S' fuel events moved = some all ∧ S'.Valid all ∧
      (S'.contents all).Perm (S.contents events ++ S'.contents moved) := by
  induction fuel generalizing events moved with
  | zero =>
      have hnil := List.length_eq_zero_iff.mp (Nat.le_zero.mp hfuel)
      unfold moveEvents
      rw [if_pos ((S.isEmpty_iff hvalid).mpr hnil), hnil]
      exact ⟨moved, rfl, hmoved, .refl _⟩
  | succ fuel ih =>
      unfold moveEvents
      by_cases hnil : S.contents events = []
      · rw [if_pos ((S.isEmpty_iff hvalid).mpr hnil), hnil]
        exact ⟨moved, rfl, hmoved, .refl _⟩
      · rw [if_neg fun hempty => hnil ((S.isEmpty_iff hvalid).mp hempty)]
        obtain ⟨hevents, -, -⟩ := List.pairwise_append.mp hdistinct
        obtain ⟨next, rest, hnext, hrest, hperm, -⟩ := S.removeNext_spec hvalid hevents hnil
        have hall : (S.contents events ++ S'.contents moved).Perm
            (next :: (S.contents rest ++ S'.contents moved)) := hperm.append_right _
        obtain ⟨hfresh, hdistinct'⟩ := List.pairwise_cons.mp (hdistinct.perm hall)
        obtain ⟨hinsert, hinserted⟩ := S'.insert_spec hmoved fun e he =>
          (hfresh e (List.mem_append_right _ he)).symm
        have hmiddle : (S.contents rest ++ S'.contents (S'.insert next moved)).Perm
            (next :: (S.contents rest ++ S'.contents moved)) :=
          (hinserted.append_left _).trans List.perm_middle
        have hlength := hperm.length_eq
        rw [List.length_cons] at hlength
        obtain ⟨all, hmove, hvalid', hperm'⟩ :=
          ih hrest hinsert (hdistinct.perm (hall.trans hmiddle.symm)) (by omega)
        rw [hnext, Option.bind_some]
        exact ⟨all, hmove, hvalid', hperm'.trans (hmiddle.trans hall.symm)⟩

namespace Simulation

/-- The same world with the events in another scheduler. -/
def World.withEvents (w : World S) (events : S'.State) : World S' where
  sim := w.sim.withEvents events
  running := w.running
  count := w.count
  ids := w.ids
  scheduled := w.scheduled
  executed := w.executed
  invoked := w.invoked
  revoked := w.revoked

/-- The worlds differ in the scheduler only, and both schedulers hold the same events. -/
def World.Agrees (w : World S) (w' : World S') : Prop :=
  ∃ events, w' = w.withEvents events ∧ S'.Valid events ∧ (S'.contents events).Perm w.queue

namespace Invariant

variable {w : World S} {events : S'.State}

theorem withEvents (h : Invariant w) (hvalid : S'.Valid events)
    (hperm : (S'.contents events).Perm w.queue) : Invariant (w.withEvents events) :=
  { h with
    valid := hvalid
    queued := fun e he => h.queued e (hperm.mem_iff.mp he)
    queueDistinct := h.queueDistinct.perm hperm.symm
    later := fun e he => h.later e (hperm.mem_iff.mp he)
    size := h.size.trans (congrArg Nat.cast hperm.length_eq.symm)
    gone := fun e he => (h.gone e he).imp_left hperm.mem_iff.mpr
    flagged := fun e he => h.flagged e (hperm.mem_iff.mp he) }

/-- The uid of the next event is new. -/
theorem fresh_uid (h : Invariant w) : ∀ e ∈ w.queue, e.uid ≠ w.sim.uid := by
  intro e he heq
  obtain ⟨huid, hcount⟩ := h.impl e (h.queued e he)
  rw [heq, h.uid] at huid
  omega

end Invariant

/-! ## One call -/

section Step

variable {w : World S} {events : S'.State}

theorem enqueue_withEvents (s : Simulator S) (event : ℕ) (ts : UInt64) (context : UInt32) :
    (s.withEvents events).enqueue event ts context = (s.enqueue event ts context).map fun next =>
      next.withEvents (S'.insert ⟨event, ⟨ts, s.uid, context⟩⟩ events) := by
  unfold Simulator.enqueue
  dsimp only
  by_cases hsize : s.unscheduledEvents + 1 < 2 ^ 31
  · rw [if_pos hsize]
    exact if_pos hsize
  · rw [if_neg hsize]
    exact if_neg hsize

/-- The same event is inserted. -/
theorem agrees_enqueue (h : Invariant w) (hvalid : S'.Valid events)
    (hperm : (S'.contents events).Perm w.queue) {ts : UInt64} {context : UInt32}
    {sim : Simulator S} {ids : List EventId}
    (henqueue : w.sim.enqueue w.count ts context = some sim) :
    (w.record sim (w.event ts context) ids).Agrees ((w.withEvents events).record
      (sim.withEvents (S'.insert (w.event ts context) events)) (w.event ts context) ids) := by
  have hfresh := h.fresh_uid
  obtain ⟨-, hinserted⟩ := @Scheduler.insert_spec S _ (w.event ts context) h.valid hfresh
  obtain ⟨hvalid', hinserted'⟩ := @Scheduler.insert_spec S' _ (w.event ts context) hvalid
    fun e he => hfresh e (hperm.mem_iff.mp he)
  refine ⟨S'.insert (w.event ts context) events, rfl, hvalid', ?_⟩
  unfold Simulator.enqueue at henqueue
  dsimp only at henqueue
  split at henqueue
  next =>
      obtain rfl := Option.some.inj henqueue
      exact (hinserted'.trans (hperm.cons _)).trans hinserted.symm
  next => cases henqueue

theorem isEmpty_withEvents (h : Invariant w) (hvalid : S'.Valid events)
    (hperm : (S'.contents events).Perm w.queue) : S'.isEmpty events = S.isEmpty w.sim.events := by
  rw [Bool.eq_iff_iff, S'.isEmpty_iff hvalid, S.isEmpty_iff h.valid]
  constructor
  · intro hnil
    rw [hnil] at hperm
    exact hperm.symm.eq_nil
  · intro hnil
    rw [World.queue, hnil] at hperm
    exact hperm.eq_nil

/-- Both schedulers give the event up. -/
theorem rel_remove (h : Invariant w) (hvalid : S'.Valid events)
    (hperm : (S'.contents events).Perm w.queue) {id : EventId} (hid : w.Knows id) :
    Option.Rel (fun sim sim' => ∃ rest, sim' = sim.withEvents rest ∧ S'.Valid rest ∧
      (S'.contents rest).Perm (S.contents sim.events))
        (w.sim.remove id) ((w.sim.withEvents events).remove id) := by
  unfold Simulator.remove
  by_cases huid : id.uid = 2
  · rw [if_pos huid, if_pos huid]
    exact .some ⟨events, rfl, hvalid, hperm⟩
  · rw [if_neg huid, if_neg huid]
    by_cases hexpired : w.sim.isExpired id = true
    · rw [if_pos hexpired, if_pos (by exact hexpired)]
      exact .some ⟨events, rfl, hvalid, hperm⟩
    · rw [if_neg hexpired, if_neg (by exact hexpired)]
      have hknown : id ∈ w.ids := hid.resolve_right fun heq =>
        hexpired (by rw [heq]; rfl)
      obtain ⟨ev, hev, rfl⟩ := h.ids id hknown huid
      have hqueue := ((h.isExpired_iff hev).mp (Bool.eq_false_iff.mpr hexpired)).1
      obtain ⟨rest, hremove, -, hrest⟩ := S.remove_spec h.valid h.queueDistinct hqueue
      obtain ⟨rest', hremove', hvalid', hrest'⟩ := S'.remove_spec hvalid
        (h.queueDistinct.perm hperm.symm) (hperm.mem_iff.mpr hqueue)
      have hcall : S.remove ⟨ev.impl, ⟨ev.key.ts, ev.key.uid, ev.key.context⟩⟩ w.sim.events =
        some rest := hremove
      have hcall' : S'.remove ⟨ev.impl, ⟨ev.key.ts, ev.key.uid, ev.key.context⟩⟩ events =
        some rest' := hremove'
      have hboth := (hrest'.symm.trans hperm).trans hrest
      simp only [eventId, Option.bind_some]
      rw [hcall]
      change Option.Rel _ _ (((S'.remove ⟨ev.impl, _⟩ events).map _))
      rw [hcall']
      exact .some ⟨rest', rfl, hvalid', hboth.cons_inv⟩

/-- Both schedulers return the same event. -/
theorem rel_processOneEvent (h : Invariant w) (hvalid : S'.Valid events)
    (hperm : (S'.contents events).Perm w.queue) (hne : w.queue ≠ []) :
    Option.Rel (fun r r' => r'.1 = r.1 ∧ r'.2.1 = r.2.1 ∧
      ∃ rest, r'.2.2 = r.2.2.withEvents rest ∧ S'.Valid rest ∧
        (S'.contents rest).Perm (S.contents r.2.2.events))
        w.sim.processOneEvent (w.sim.withEvents events).processOneEvent := by
  have hdistinct := h.queueDistinct.perm hperm.symm
  have hne' : S'.contents events ≠ [] := fun hnil => hne (hnil ▸ hperm).symm.eq_nil
  obtain ⟨ev, rest, hnext, -, hrest, hleast⟩ := S.removeNext_spec h.valid h.queueDistinct hne
  obtain ⟨ev', rest', hnext', hvalid', hrest', hleast'⟩ :=
    S'.removeNext_spec hvalid hdistinct hne'
  have hmem : ev ∈ w.queue := hrest.mem_iff.mpr List.mem_cons_self
  have hmem' : ev' ∈ w.queue := hperm.mem_iff.mp (hrest'.mem_iff.mpr List.mem_cons_self)
  -- There is only one least event.
  obtain rfl : ev' = ev := h.queueDistinct.eq_of_uid hmem' hmem (Event.uid_eq_of_order
    (le_antisymm (hleast' ev (hperm.mem_iff.mpr hmem)) (hleast ev' hmem')))
  have hboth := ((hrest'.symm.trans hperm).trans hrest).cons_inv
  unfold Simulator.processOneEvent
  rw [hnext]
  change Option.Rel _ _ ((S'.removeNext events).bind _)
  rw [hnext']
  dsimp only [Option.bind_some]
  by_cases hts : ev'.key.ts ≥ w.sim.currentTs
  · rw [if_pos hts, if_pos (by exact hts)]
    exact .some ⟨rfl, rfl, rest', rfl, hvalid', hboth⟩
  · rw [if_neg hts, if_neg (by exact hts)]
    exact .none

theorem schedule_withEvents (s : Simulator S) (time event : ℕ) :
    (s.withEvents events).schedule time event = (s.schedule time event).map fun r =>
      (r.1, r.2.withEvents (S'.insert ⟨event,
        ⟨UInt64.ofNat (time + s.currentTs.toNat), s.uid, s.currentContext⟩⟩ events)) := by
  unfold Simulator.schedule
  dsimp only
  by_cases hlimit : time + s.currentTs.toNat < 2 ^ 63
  · rw [if_pos hlimit, if_pos (by exact hlimit), enqueue_withEvents, Option.map_map, Option.map_map]
    rfl
  · rw [if_neg hlimit, if_neg (by exact hlimit)]
    rfl

/-- The call is answered alike. -/
theorem rel_step (h : Invariant w) (hvalid : S'.Valid events)
    (hperm : (S'.contents events).Perm w.queue) (call : Call) :
    Option.Rel World.Agrees (step w call) (step (w.withEvents events) call) := by
  have hsame {v : World S} (hv : v.sim.events = w.sim.events) :
      Option.Rel World.Agrees (some v) (some (v.withEvents events)) := by
    refine .some ⟨events, rfl, hvalid, ?_⟩
    rw [World.queue, hv]
    exact hperm
  have hempty := isEmpty_withEvents h hvalid hperm
  cases call with
  | schedule time =>
      change Option.Rel _ _ (((w.sim.withEvents events).schedule time w.count).map _)
      rw [schedule_withEvents, Option.map_map]
      refine rel_map fun r hr => ?_
      unfold Simulator.schedule at hr
      dsimp only at hr
      split at hr
      next =>
          obtain ⟨sim, hsim, rfl⟩ := Option.map_eq_some_iff.mp hr
          exact agrees_enqueue h hvalid hperm hsim
      next => cases hr
  | scheduleWithContext context time =>
      change Option.Rel _ _ (((w.sim.withEvents events).scheduleWithContext context time
        w.count).map _)
      simp only [step]
      unfold Simulator.scheduleWithContext
      dsimp only
      by_cases hlimit : time + w.sim.currentTs.toNat < 2 ^ 63
      · rw [if_pos hlimit, if_pos (by exact hlimit), enqueue_withEvents, Option.map_map]
        exact rel_map fun sim hsim => agrees_enqueue h hvalid hperm hsim
      · rw [if_neg hlimit, if_neg (by exact hlimit)]
        exact .none
  | scheduleNow =>
      change Option.Rel _ _ (((w.sim.withEvents events).scheduleNow w.count).map _)
      simp only [step]
      unfold Simulator.scheduleNow
      rw [enqueue_withEvents, Option.map_map, Option.map_map, Option.map_map]
      exact rel_map fun sim hsim => agrees_enqueue h hvalid hperm hsim
  | scheduleDestroy => exact hsame rfl
  | cancel id =>
      by_cases hid : w.Knows id
      · have hcancel : (w.sim.withEvents events).cancel id =
            (w.sim.cancel id).withEvents events ∧ (w.sim.cancel id).events = w.sim.events := by
          unfold Simulator.cancel Simulator.cancelImpl
          by_cases hlive : w.sim.isExpired id = false
          · rw [if_pos hlive, if_pos (by exact hlive)]
            cases id.impl with
            | none => exact ⟨rfl, rfl⟩
            | some event => exact ⟨rfl, rfl⟩
          · rw [if_neg hlive, if_neg (by exact hlive)]
            exact ⟨rfl, rfl⟩
        simp only [step]
        rw [if_pos hid, if_pos (by exact hid)]
        refine .some ⟨events, ?_, hvalid, ?_⟩
        · unfold World.withEvents
          rw [hcancel.1]
        · rw [World.queue, hcancel.2]
          exact hperm
      · simp only [step]
        rw [if_neg hid, if_neg (by exact hid)]
        exact .none
  | remove id =>
      by_cases hid : w.Knows id
      · have hrel := rel_remove h hvalid hperm hid
        simp only [step]
        rw [if_pos hid, if_pos (by exact hid)]
        change Option.Rel _ _ (((w.sim.withEvents events).remove id).map _)
        refine rel_map_of_rel hrel ?_
        rintro sim _ ⟨rest, rfl, hvalid', hrest⟩
        exact ⟨rest, rfl, hvalid', hrest⟩
      · simp only [step]
        rw [if_neg hid, if_neg (by exact hid)]
        exact .none
  | run =>
      simp only [step]
      by_cases hrunning : w.running = true
      · rw [if_pos hrunning, if_pos (by exact hrunning)]
        exact .none
      · rw [if_neg hrunning, if_neg (by exact hrunning)]
        exact .some ⟨events, rfl, hvalid, hperm⟩
  | processOneEvent =>
      simp only [step]
      change Option.Rel _ _ (if w.running = true ∧ S'.isEmpty events = false ∧ w.sim.stop = false
        then ((w.sim.withEvents events).processOneEvent).map _ else none)
      rw [hempty]
      by_cases hguard : w.running = true ∧ S.isEmpty w.sim.events = false ∧ w.sim.stop = false
      · rw [if_pos hguard, if_pos hguard]
        have hne : w.queue ≠ [] := by
          intro hnil
          rw [(S.isEmpty_iff h.valid).mpr hnil] at hguard
          cases hguard.2.1
        have hrel := rel_processOneEvent h hvalid hperm hne
        refine rel_map_of_rel hrel ?_
        rintro ⟨ev, runs, sim⟩ ⟨ev', runs', sim'⟩ ⟨hev, hruns, rest, hsim, hvalid', hrest⟩
        dsimp only at hev hruns hsim
        subst hev hruns hsim
        exact ⟨rest, rfl, hvalid', hrest⟩
      · rw [if_neg hguard, if_neg hguard]
        exact .none
  | finish =>
      simp only [step]
      change Option.Rel _ _ (if w.running = true ∧ (S'.isEmpty events = true ∨ w.sim.stop = true)
        then (if S'.isEmpty events = false ∨ w.sim.unscheduledEvents = 0 then
          some ({ w with running := false }.withEvents events) else none) else none)
      rw [hempty]
      by_cases hend : w.running = true ∧ (S.isEmpty w.sim.events = true ∨ w.sim.stop = true)
      · rw [if_pos hend, if_pos hend]
        by_cases hassert : S.isEmpty w.sim.events = false ∨ w.sim.unscheduledEvents = 0
        · rw [if_pos hassert, if_pos hassert]
          exact .some ⟨events, rfl, hvalid, hperm⟩
        · rw [if_neg hassert, if_neg hassert]
          exact .none
      · rw [if_neg hend, if_neg hend]
        exact .none
  | stop => exact hsame rfl

end Step

/-! ## Runs -/

/-- The calls that count. -/
def Call.schedules : Call → Bool
  | .schedule _ => true
  | .scheduleWithContext _ _ => true
  | .scheduleNow => true
  | .scheduleDestroy => true
  | _ => false

theorem count_step {w next : World S} {call : Call} (hstep : step w call = some next) :
    next.count = w.count + if call.schedules then 1 else 0 := by
  cases call with
  | schedule time =>
      obtain ⟨⟨id, sim⟩, -, rfl⟩ := Option.map_eq_some_iff.mp hstep
      rfl
  | scheduleWithContext context time =>
      obtain ⟨sim, -, rfl⟩ := Option.map_eq_some_iff.mp hstep
      rfl
  | scheduleNow =>
      obtain ⟨⟨id, sim⟩, -, rfl⟩ := Option.map_eq_some_iff.mp hstep
      rfl
  | scheduleDestroy | stop =>
      obtain rfl := Option.some.inj hstep
      rfl
  | cancel id | remove id | run | processOneEvent | finish =>
      simp only [step] at hstep
      unfold Call.schedules
      grind [Option.map_eq_some_iff]

/-- A call, or `SetScheduler`. -/
inductive Command : Type 1
  | perform (call : Call)
  | setScheduler (S : Scheduler)

namespace Command

def call? : Command → Option Call
  | .perform call => some call
  | .setScheduler _ => none

def schedules : Command → Bool
  | .perform call => call.schedules
  | .setScheduler _ => false

/-- The world goes on with the scheduler that it has at the moment. -/
def step (w : Σ S, World S) : Command → Option (Σ S, World S)
  | .perform call => (Simulation.step w.2 call).map fun next => ⟨w.1, next⟩
  | .setScheduler S => (w.2.sim.setScheduler S).map fun sim => ⟨S, w.2.withEvents sim.events⟩

end Command

/-- After the exchange the other scheduler has the events. -/
theorem setScheduler_spec {w : World S} (h : Invariant w) (S' : Scheduler) :
    ∃ events, w.sim.setScheduler S' = some (w.sim.withEvents events) ∧ S'.Valid events ∧
      (S'.contents events).Perm w.queue := by
  have hdistinct : DistinctUids (w.queue ++ S'.contents S'.empty) := by
    rw [S'.contents_empty, List.append_nil]
    exact h.queueDistinct
  obtain ⟨events, hmove, hvalid, hperm⟩ :=
    moveEvents_spec h.valid S'.valid_empty hdistinct le_rfl
  rw [S'.contents_empty, List.append_nil] at hperm
  unfold Simulator.setScheduler
  rw [hmove]
  exact ⟨events, rfl, hvalid, hperm⟩

/-- The second system goes on with its scheduler, and the events to come can still be counted. -/
structure Matches (S' : Scheduler) (commands : List Command) (w : Σ S, World S) (w' : World S') :
    Prop where
  invariant : Invariant w.2
  agrees : w.2.Agrees w'
  count : w.2.count + commands.countP Command.schedules < 2 ^ 32 - 4

theorem Matches.step {S' : Scheduler} {command : Command} {rest : List Command}
    {w : Σ S, World S} {w' : World S'} (h : Matches S' (command :: rest) w w') :
    Option.Rel (Matches S' rest) (Command.step w command)
      (stepOrStay Simulation.step w' command.call?) := by
  obtain ⟨events, rfl, hvalid, hperm⟩ := h.agrees
  have hcount := h.count
  rw [List.countP_cons] at hcount
  cases command with
  | perform call =>
      have hrel := rel_step h.invariant hvalid hperm call
      have hpaired : Option.Rel (fun next next' => Matches S' rest ⟨w.1, next⟩ next')
          (Simulation.step w.2 call) (Simulation.step (w.2.withEvents events) call) := by
        refine rel_imp hrel fun next next' hnext hagrees => ?_
        have hbound : next.count + rest.countP Command.schedules < 2 ^ 32 - 4 := by
          rw [count_step hnext]
          change w.2.count + (_ + if call.schedules then 1 else 0) < _ at hcount
          omega
        exact ⟨h.invariant.step call hnext (Nat.lt_of_le_of_lt (Nat.le_add_right _ _) hbound),
          hagrees, hbound⟩
      have hmapped := rel_map_of_rel (f := Sigma.mk w.1) (g := id) hpaired
        fun next next' h => h
      rw [Option.map_id_fun, id] at hmapped
      exact hmapped
  | setScheduler S =>
      obtain ⟨events', hset, hvalid', hperm'⟩ := setScheduler_spec h.invariant S
      change Option.Rel _ ((w.2.sim.setScheduler S).map _) _
      rw [hset]
      exact .some ⟨h.invariant.withEvents hvalid' hperm',
        ⟨events, rfl, hvalid, hperm.trans hperm'.symm⟩, hcount⟩

/-- A run is the same with every correct scheduler, and the exchange of the scheduler cannot be
observed: fewer than `2 ^ 32 - 4` events are scheduled. -/
theorem run_independent (S S' : Scheduler) (commands : List Command)
    (hcount : commands.countP Command.schedules < 2 ^ 32 - 4) :
    Option.Rel (fun w w' => w.2.Agrees w')
      (run Command.step ⟨S, start S⟩ commands)
      (run step (start S') (commands.filterMap Command.call?)) := by
  have hagrees : (start S).Agrees (start S') := by
    refine ⟨S'.empty, rfl, S'.valid_empty, ?_⟩
    rw [World.queue, S'.contents_empty]
    exact .of_eq S.contents_empty.symm
  have hmatches : Matches S' commands ⟨S, start S⟩ (start S') :=
    ⟨invariant_start S, hagrees, by simpa [start] using hcount⟩
  have hrel := rel_run (fun _ _ _ _ => Matches.step) hmatches
  exact rel_imp hrel fun _ _ _ h => h.agrees

/-- The map scheduler is exchanged for a list in the middle of an event. -/
def exchanging : List Command :=
  [.perform (.schedule 7), .perform (.schedule 5), .perform (.scheduleWithContext 3 5),
    .perform .run, .perform .processOneEvent, .setScheduler listScheduler, .perform .scheduleNow,
    .perform (.remove ⟨some 0, 7, 0xffffffff, 4⟩), .perform .processOneEvent,
    .perform .processOneEvent, .perform .finish]

theorem run_independent_exchanging :
    Option.Rel (fun w w' => w.2.Agrees w')
      (run Command.step ⟨mapScheduler, start mapScheduler⟩ exchanging)
      (run step (start listScheduler) (exchanging.filterMap Command.call?)) :=
  run_independent mapScheduler listScheduler exchanging (by decide)

example : (run Command.step ⟨mapScheduler, start mapScheduler⟩ exchanging).map
    (fun w => w.2.invoked.map Event.impl) = some [1, 2, 3] := by
  decide

end Simulation

end Ns3Rdma.Sched
