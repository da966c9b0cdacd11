import Ns3Rdma.Sched.DefaultSimulator

/-!
# Causal order and exact bookkeeping of the simulator core

Expiry is decided by a comparison with the current event. It is right because every event
in the queue lies after the current one, and every event that left the queue was executed,
and lies not after the current one, or was removed, and is cancelled.
-/

namespace Ns3Rdma.Sched.Simulation

open StepSystem

variable {S : Scheduler}

/-- The id of an event. -/
def eventId (e : Event) : EventId := ⟨some e.impl, e.key.ts, e.key.context, e.key.uid⟩

/-- The place of the current event in the order of events. -/
def current (s : Simulator S) : ℕ ×ₗ ℕ := toLex (s.currentTs.toNat, s.currentUid.toNat)

/-- The events in `m_events`. -/
abbrev World.queue (w : World S) : List Event := S.contents w.sim.events

/-- The bookkeeping invariant, as long as the uids do not wrap. -/
structure Invariant (w : World S) : Prop where
  valid : S.Valid w.sim.events
  uid : w.sim.uid.toNat = w.count + 4
  currentUid : w.sim.currentUid.toNat < w.count + 4
  impl : ∀ e ∈ w.scheduled, e.uid.toNat = e.impl + 4 ∧ e.impl < w.count
  distinct : DistinctUids w.scheduled
  queued : ∀ e ∈ w.queue, e ∈ w.scheduled
  queueDistinct : DistinctUids w.queue
  later : ∀ e ∈ w.queue, current w.sim < e.order
  size : w.sim.unscheduledEvents = w.queue.length
  gone : ∀ e ∈ w.scheduled, e ∈ w.queue ∨ e ∈ w.executed ∨ w.sim.cancelled e.impl = true
  executed : ∀ e ∈ w.executed, e ∈ w.scheduled ∧ e.order ≤ current w.sim
  increasing : w.executed.Pairwise fun a b => a.order < b.order
  sublist : w.invoked.Sublist w.executed
  ran : ∀ e ∈ w.executed, w.sim.cancelled e.impl = false → e ∈ w.invoked
  fresh : ∀ i, w.sim.cancelled i = true → i < w.count
  revoked : ∀ e ∈ w.scheduled, w.sim.cancelled e.impl = true →
    ∃ id ∈ w.revoked, id.impl = some e.impl
  ids : ∀ id ∈ w.ids, id.uid ≠ 2 → ∃ e ∈ w.scheduled, id = eventId e
  destroyIds : ∀ id ∈ w.ids, id.uid = 2 → ∀ e ∈ w.scheduled, id.impl ≠ some e.impl
  idImpls : ∀ id ∈ w.ids, ∀ i, id.impl = some i → i < w.count
  known : ∀ id ∈ w.revoked, w.Knows id
  flagged : ∀ e ∈ w.queue, (∃ id ∈ w.revoked, id.impl = some e.impl) →
    w.sim.cancelled e.impl = true

theorem invariant_start (S : Scheduler) : Invariant (start S) := by
  have hqueue : (start S).queue = [] := S.contents_empty
  constructor
  case valid => exact S.valid_empty
  case uid => rfl
  case currentUid => exact (by decide : (0 : UInt32).toNat < 0 + 4)
  case queueDistinct => rw [hqueue]; exact List.Pairwise.nil
  case size => rw [hqueue]; rfl
  all_goals simp [start, Simulator.init, S.contents_empty, World.queue, DistinctUids]

/-- What a call that schedules does: an event not before the present time is inserted. -/
def Schedules (w next : World S) : Prop :=
  ∃ sim ts context ids, w.sim.enqueue w.count ts context = some sim ∧
    w.sim.currentTs.toNat ≤ ts.toNat ∧ (∀ id ∈ ids, id = eventId (w.event ts context)) ∧
      next = w.record sim (w.event ts context) ids

theorem absolute_toNat {w : World S} {time : Nat} (h : time + w.sim.currentTs.toNat < 2 ^ 63) :
    (w.absolute time).toNat = time + w.sim.currentTs.toNat :=
  UInt64.toNat_ofNat_of_lt' (Nat.lt_trans h (by decide))

theorem schedules_schedule {w next : World S} {time : Nat}
    (hstep : step w (.schedule time) = some next) : Schedules w next := by
  obtain ⟨⟨id, sim⟩, hcall, rfl⟩ := Option.map_eq_some_iff.mp hstep
  simp only [Simulator.schedule] at hcall
  split at hcall
  next hfit =>
      obtain ⟨sim', henqueue, hpair⟩ := Option.map_eq_some_iff.mp hcall
      obtain ⟨rfl, rfl⟩ := Prod.mk.inj hpair
      refine ⟨_, _, _, _, henqueue, ?_, fun id hid => List.mem_singleton.mp hid, rfl⟩
      have := absolute_toNat (w := w) hfit
      change _ ≤ (w.absolute time).toNat
      omega
  next => cases hcall

theorem schedules_scheduleWithContext {w next : World S} {context : UInt32} {time : Nat}
    (hstep : step w (.scheduleWithContext context time) = some next) : Schedules w next := by
  obtain ⟨sim, hcall, rfl⟩ := Option.map_eq_some_iff.mp hstep
  simp only [Simulator.scheduleWithContext] at hcall
  split at hcall
  next hfit =>
      refine ⟨_, _, _, [], hcall, ?_, fun id hid => absurd hid List.not_mem_nil, rfl⟩
      have := absolute_toNat (w := w) hfit
      change _ ≤ (w.absolute time).toNat
      omega
  next => cases hcall

theorem schedules_scheduleNow {w next : World S} (hstep : step w .scheduleNow = some next) :
    Schedules w next := by
  obtain ⟨⟨id, sim⟩, hcall, rfl⟩ := Option.map_eq_some_iff.mp hstep
  obtain ⟨sim', henqueue, hpair⟩ := Option.map_eq_some_iff.mp hcall
  obtain ⟨rfl, rfl⟩ := Prod.mk.inj hpair
  exact ⟨_, _, _, _, henqueue, Nat.le_refl _, fun id hid => List.mem_singleton.mp hid, rfl⟩

namespace Invariant

variable {w : World S}

/-- Events with the same implementation are the same. -/
theorem eq_of_impl (h : Invariant w) {a b : Event} (ha : a ∈ w.scheduled) (hb : b ∈ w.scheduled)
    (himpl : a.impl = b.impl) : a = b := by
  refine h.distinct.eq_of_uid ha hb (UInt32.toNat.inj ?_)
  rw [(h.impl a ha).1, (h.impl b hb).1, himpl]

/-- An event is not expired if it comes after the current one and is not cancelled. -/
theorem isExpired_eq (h : Invariant w) {e : Event} (he : e ∈ w.scheduled) :
    w.sim.isExpired (eventId e) = false ↔
      current w.sim < e.order ∧ w.sim.cancelled e.impl = false := by
  have huid : (eventId e).uid ≠ 2 := by
    intro heq
    have hnat := (h.impl e he).1
    rw [show e.uid = 2 from heq] at hnat
    change 2 = e.impl + 4 at hnat
    omega
  rw [Simulator.isExpired, if_neg huid]
  unfold current Event.order
  rw [Prod.Lex.toLex_lt_toLex]
  simp only [eventId, Simulator.nullOrCancelled, Option.isNone_some, Option.all_some,
    Bool.false_or, Bool.or_eq_false_iff, Bool.and_eq_false_iff, decide_eq_false_iff_not,
    UInt64.lt_iff_toNat_lt, ← UInt64.toNat_inj, UInt32.le_iff_toNat_le]
  constructor
  · rintro ⟨⟨hts, huid⟩, hcancel⟩
    exact ⟨by omega, hcancel⟩
  · rintro ⟨hlater, hcancel⟩
    exact ⟨⟨by omega, by omega⟩, hcancel⟩

/-- `IsExpired` is false exactly for the events in the queue that are not cancelled. -/
theorem isExpired_iff (h : Invariant w) {e : Event} (he : e ∈ w.scheduled) :
    w.sim.isExpired (eventId e) = false ↔ e ∈ w.queue ∧ w.sim.cancelled e.impl = false := by
  rw [h.isExpired_eq he]
  refine and_congr_left fun hcancel => ⟨fun hlater => ?_, h.later e⟩
  rcases h.gone e he with hqueue | hexecuted | hcancelled
  · exact hqueue
  · exact absurd hlater (not_lt.mpr (h.executed e hexecuted).2)
  · rw [hcancel] at hcancelled
    cases hcancelled

/-- The implementation of a revoked id is older than the next event. -/
theorem revoked_lt (h : Invariant w) {id : EventId} (hid : id ∈ w.revoked) {i : Nat}
    (himpl : id.impl = some i) : i < w.count := by
  rcases h.known id hid with hknown | rfl
  · exact h.idImpls id hknown i himpl
  · cases himpl

/-- An id that names no live event names no event of the queue, or a cancelled one. -/
theorem cancelled_of_expired (h : Invariant w) {id : EventId} (hid : w.Knows id)
    (hexpired : id.uid = 2 ∨ w.sim.isExpired id = true) {e : Event} (he : e ∈ w.queue)
    (himpl : id.impl = some e.impl) : w.sim.cancelled e.impl = true := by
  have hknown : id ∈ w.ids := by
    rcases hid with hid | rfl
    · exact hid
    · cases himpl
  have hscheduled := h.queued e he
  by_cases huid : id.uid = 2
  · exact absurd himpl (h.destroyIds id hknown huid e hscheduled)
  · obtain ⟨e', he', rfl⟩ := h.ids id hknown huid
    obtain rfl := h.eq_of_impl he' hscheduled (Option.some.inj himpl)
    have hover := hexpired.resolve_left huid
    by_contra hlive
    rw [(h.isExpired_iff he').mpr ⟨he, Bool.eq_false_iff.mpr hlive⟩] at hover
    cases hover

/-- A history that only gained revoked ids of no live event, and perhaps flags of the simulator
that the invariant does not read. -/
theorem of_revoked (h : Invariant w) (sim : Simulator S) (running : Bool) (ids : List EventId)
    (hids : ∀ id ∈ ids, w.Knows id ∧ (id.uid = 2 ∨ w.sim.isExpired id = true))
    (hsim : sim = { w.sim with destroyEvents := sim.destroyEvents, stop := sim.stop }) :
    Invariant { w with sim := sim, running := running, revoked := w.revoked ++ ids } := by
  rw [hsim]
  refine { h with revoked := ?_, known := ?_, flagged := ?_ }
  · intro e he hcancel
    obtain ⟨id, hid, himpl⟩ := h.revoked e he hcancel
    exact ⟨id, List.mem_append_left _ hid, himpl⟩
  · intro id hid
    rcases List.mem_append.mp hid with hid | hid
    · exact h.known id hid
    · exact (hids id hid).1
  · rintro e he ⟨id, hid, himpl⟩
    rcases List.mem_append.mp hid with hid | hid
    · exact h.flagged e he ⟨id, hid, himpl⟩
    · exact h.cancelled_of_expired (hids id hid).1 (hids id hid).2 he himpl

/-- Cancelling the implementation behind a known id. -/
theorem cancelImpl (h : Invariant w) {id : EventId} (hid : w.Knows id) :
    Invariant { w with sim := w.sim.cancelImpl id, revoked := w.revoked ++ [id] } := by
  cases himpl : id.impl with
  | none =>
      have hsame : w.sim.cancelImpl id = w.sim := by rw [Simulator.cancelImpl, himpl]
      have hdefault : id.uid = 2 ∨ w.sim.isExpired id = true := by
        by_cases huid : id.uid = 2
        · exact Or.inl huid
        · refine Or.inr ?_
          rw [Simulator.isExpired, if_neg huid, himpl]
          rfl
      rw [hsame]
      refine h.of_revoked _ _ [id] (fun id' hid' => ?_) rfl
      rw [List.mem_singleton.mp hid']
      exact ⟨hid, hdefault⟩
  | some event =>
      have hknown : id ∈ w.ids := by
        rcases hid with hid | rfl
        · exact hid
        · cases himpl
      have hsim : w.sim.cancelImpl id =
          { w.sim with cancelled := Function.update w.sim.cancelled event true } := by
        rw [Simulator.cancelImpl, himpl]
      have hmono {i : Nat} (hi : w.sim.cancelled i = true) :
          Function.update w.sim.cancelled event true i = true := by
        rw [Function.update_apply]
        split
        · rfl
        · exact hi
      have hfalse {i : Nat} (hi : Function.update w.sim.cancelled event true i = false) :
          w.sim.cancelled i = false := by
        by_contra hne
        rw [hmono (Bool.eq_true_of_not_eq_false hne)] at hi
        cases hi
      rw [hsim]
      refine { h with
        gone := ?_
        ran := fun e he hcancel => h.ran e he (hfalse hcancel)
        fresh := ?_
        revoked := ?_
        known := ?_
        flagged := ?_ }
      · intro e he
        exact (h.gone e he).imp_right (Or.imp_right hmono)
      · intro i hi
        by_cases hevent : i = event
        · rw [hevent]
          exact h.idImpls id hknown event himpl
        · have hold : Function.update w.sim.cancelled event true i = true := hi
          rw [Function.update_of_ne hevent] at hold
          exact h.fresh i hold
      · intro e he hcancel
        by_cases hevent : e.impl = event
        · exact ⟨id, by simp, by rw [himpl, hevent]⟩
        · have hold : w.sim.cancelled e.impl = true := by
            simpa [Function.update_of_ne hevent] using hcancel
          obtain ⟨id', hid', himpl'⟩ := h.revoked e he hold
          exact ⟨id', List.mem_append_left _ hid', himpl'⟩
      · intro id' hid'
        rcases List.mem_append.mp hid' with hid' | hid'
        · exact h.known id' hid'
        · rw [List.mem_singleton.mp hid']
          exact hid
      · rintro e he ⟨id', hid', himpl'⟩
        rcases List.mem_append.mp hid' with hid' | hid'
        · exact hmono (h.flagged e he ⟨id', hid', himpl'⟩)
        · rw [List.mem_singleton.mp hid', himpl] at himpl'
          obtain rfl := Option.some.inj himpl'
          exact Function.update_self _ _ _

/-- A new event at or after the current time. -/
theorem enqueue (h : Invariant w) {sim : Simulator S} {ts : UInt64} {context : UInt32}
    {ids : List EventId} (henqueue : w.sim.enqueue w.count ts context = some sim)
    (hts : w.sim.currentTs.toNat ≤ ts.toNat)
    (hids : ∀ id ∈ ids, id = eventId (w.event ts context)) (hbound : w.count + 1 < 2 ^ 32 - 4) :
    Invariant (w.record sim (w.event ts context) ids) := by
  unfold Simulator.enqueue at henqueue
  dsimp only at henqueue
  split at henqueue
  next hsize =>
      obtain rfl := Option.some.inj henqueue
      have huid : (w.event ts context).uid.toNat = w.count + 4 := h.uid
      have hnew : ∀ e ∈ w.scheduled, e.uid ≠ (w.event ts context).uid := by
        intro e he heq
        have himpl := h.impl e he
        rw [heq, huid] at himpl
        omega
      obtain ⟨hvalid, hperm⟩ := @Scheduler.insert_spec S _ (w.event ts context) h.valid
        fun e he => hnew e (h.queued e he)
      have hlater : current w.sim < (w.event ts context).order := by
        unfold current Event.order
        rw [Prod.Lex.toLex_lt_toLex]
        have hcurrent := h.currentUid
        change w.sim.currentTs.toNat < ts.toNat ∨
          w.sim.currentTs.toNat = ts.toNat ∧ w.sim.currentUid.toNat < w.sim.uid.toNat
        rw [h.uid]
        omega
      constructor
      case valid => exact hvalid
      case uid =>
        change (w.sim.uid + 1).toNat = w.count + 1 + 4
        rw [UInt32.toNat_add, h.uid]
        change (w.count + 4 + 1) % 2 ^ 32 = _
        omega
      case currentUid =>
        change w.sim.currentUid.toNat < w.count + 1 + 4
        have := h.currentUid
        omega
      case impl =>
        intro e he
        change e.uid.toNat = e.impl + 4 ∧ e.impl < w.count + 1
        rcases List.mem_append.mp he with he | he
        · have := h.impl e he
          omega
        · rw [List.mem_singleton.mp he]
          exact ⟨huid, Nat.lt_succ_self _⟩
      case distinct =>
        refine List.pairwise_append.mpr ⟨h.distinct, List.pairwise_singleton _ _, ?_⟩
        intro e he e' he'
        rw [List.mem_singleton.mp he']
        exact hnew e he
      case queued =>
        intro e he
        rcases List.mem_cons.mp (hperm.mem_iff.mp he) with rfl | he
        · exact List.mem_append_right _ (List.mem_singleton_self _)
        · exact List.mem_append_left _ (h.queued e he)
      case queueDistinct =>
        refine DistinctUids.perm (List.pairwise_cons.mpr ⟨?_, h.queueDistinct⟩) hperm.symm
        exact fun e he => (hnew e (h.queued e he)).symm
      case later =>
        intro e he
        rcases List.mem_cons.mp (hperm.mem_iff.mp he) with rfl | he
        · exact hlater
        · exact h.later e he
      case size =>
        have hlength := hperm.length_eq
        rw [List.length_cons] at hlength
        change w.sim.unscheduledEvents + 1 =
          ((S.contents (S.insert (w.event ts context) w.sim.events)).length : Int)
        rw [h.size, hlength]
        rfl
      case gone =>
        intro e he
        rcases List.mem_append.mp he with he | he
        · exact (h.gone e he).imp_left fun hq => hperm.mem_iff.mpr (List.mem_cons_of_mem _ hq)
        · rw [List.mem_singleton.mp he]
          exact Or.inl (hperm.mem_iff.mpr List.mem_cons_self)
      case executed =>
        exact fun e he => ⟨List.mem_append_left _ (h.executed e he).1, (h.executed e he).2⟩
      case increasing => exact h.increasing
      case sublist => exact h.sublist
      case ran => exact h.ran
      case fresh => exact fun i hi => Nat.lt_succ_of_lt (h.fresh i hi)
      case revoked =>
        intro e he hcancel
        rcases List.mem_append.mp he with he | he
        · exact h.revoked e he hcancel
        · rw [List.mem_singleton.mp he] at hcancel
          exact absurd (h.fresh w.count hcancel) (Nat.lt_irrefl _)
      case ids =>
        intro id hid huid'
        rcases List.mem_append.mp hid with hid | hid
        · obtain ⟨e, he, heq⟩ := h.ids id hid huid'
          exact ⟨e, List.mem_append_left _ he, heq⟩
        · exact ⟨_, List.mem_append_right _ (List.mem_singleton_self _), hids id hid⟩
      case destroyIds =>
        intro id hid hdestroy e he himpl
        rcases List.mem_append.mp hid with hid | hid
        · rcases List.mem_append.mp he with he | he
          · exact h.destroyIds id hid hdestroy e he himpl
          · rw [List.mem_singleton.mp he] at himpl
            exact absurd (h.idImpls id hid _ himpl) (Nat.lt_irrefl _)
        · have huid2 : w.sim.uid = 2 := by
            rw [hids id hid] at hdestroy
            exact hdestroy
          have hnat := h.uid
          rw [huid2] at hnat
          change 2 = _ at hnat
          omega
      case idImpls =>
        intro id hid i himpl
        change i < w.count + 1
        rcases List.mem_append.mp hid with hid | hid
        · exact Nat.lt_succ_of_lt (h.idImpls id hid i himpl)
        · rw [hids id hid] at himpl
          obtain rfl := Option.some.inj himpl
          exact Nat.lt_succ_self _
      case known => exact fun id hid => (h.known id hid).imp_left (List.mem_append_left _)
      case flagged =>
        rintro e he ⟨id, hid, himpl⟩
        rcases List.mem_cons.mp (hperm.mem_iff.mp he) with rfl | he
        · exact absurd (h.revoked_lt hid himpl) (Nat.lt_irrefl _)
        · exact h.flagged e he ⟨id, hid, himpl⟩
  next => cases henqueue

/-- `ScheduleDestroy` uses up a uid, and the implementation is that of no other event. -/
theorem scheduleDestroy (h : Invariant w) (hbound : w.count + 1 < 2 ^ 32 - 4) :
    Invariant { w with
      sim := (w.sim.scheduleDestroy w.count).2
      count := w.count + 1
      ids := w.ids ++ [(w.sim.scheduleDestroy w.count).1] } := by
  refine { h with
    uid := ?_
    currentUid := ?_
    impl := ?_
    fresh := ?_
    ids := ?_
    destroyIds := ?_
    idImpls := ?_
    known := fun id hid => (h.known id hid).imp_left (List.mem_append_left _) }
  · change (w.sim.uid + 1).toNat = w.count + 1 + 4
    rw [UInt32.toNat_add, h.uid]
    change (w.count + 4 + 1) % 2 ^ 32 = _
    omega
  · exact Nat.lt_trans h.currentUid (by change w.count + 4 < w.count + 1 + 4; omega)
  · exact fun e he => ⟨(h.impl e he).1, Nat.lt_succ_of_lt (h.impl e he).2⟩
  · exact fun i hi => Nat.lt_succ_of_lt (h.fresh i hi)
  · intro id hid huid
    rcases List.mem_append.mp hid with hid | hid
    · exact h.ids id hid huid
    · rw [List.mem_singleton.mp hid] at huid
      exact absurd rfl huid
  · intro id hid huid e he himpl
    rcases List.mem_append.mp hid with hid | hid
    · exact h.destroyIds id hid huid e he himpl
    · rw [List.mem_singleton.mp hid] at himpl
      have hcount : w.count = e.impl := Option.some.inj himpl
      have := (h.impl e he).2
      omega
  · intro id hid i himpl
    rcases List.mem_append.mp hid with hid | hid
    · exact Nat.lt_succ_of_lt (h.idImpls id hid i himpl)
    · rw [List.mem_singleton.mp hid] at himpl
      obtain rfl := Option.some.inj himpl
      exact Nat.lt_succ_self _

/-- A queue without one of its events. -/
theorem rest_of_perm (h : Invariant w) {ev : Event} {rest : List Event}
    (hperm : w.queue.Perm (ev :: rest)) :
    ev ∈ w.queue ∧ (∀ e ∈ rest, e ∈ w.queue ∧ e.uid ≠ ev.uid) ∧ DistinctUids rest ∧
      w.queue.length = rest.length + 1 := by
  obtain ⟨hne, hrest⟩ := List.pairwise_cons.mp (h.queueDistinct.perm hperm)
  refine ⟨hperm.mem_iff.mpr List.mem_cons_self, ?_, hrest, by rw [hperm.length_eq]; rfl⟩
  exact fun e he => ⟨hperm.mem_iff.mpr (List.mem_cons_of_mem _ he), (hne e he).symm⟩

/-- `Remove` of a known id. -/
theorem remove (h : Invariant w) {id : EventId} {sim : Simulator S} (hid : w.Knows id)
    (hremove : w.sim.remove id = some sim) :
    Invariant { w with sim := sim, revoked := w.revoked ++ [id] } := by
  unfold Simulator.remove at hremove
  split at hremove
  next huid =>
      obtain rfl := Option.some.inj hremove
      exact h.of_revoked _ _ [id] (by simpa using ⟨hid, Or.inl huid⟩) rfl
  next huid =>
  split at hremove
  next hexpired =>
      obtain rfl := Option.some.inj hremove
      exact h.of_revoked _ _ [id] (by simpa using ⟨hid, Or.inr hexpired⟩) rfl
  next hlive =>
      have hknown : id ∈ w.ids := by
        rcases hid with hid | rfl
        · exact hid
        · exact absurd (by simp [Simulator.isExpired]) hlive
      obtain ⟨ev, hev, rfl⟩ := h.ids id hknown huid
      have hqueue := ((h.isExpired_iff hev).mp (Bool.eq_false_iff.mpr hlive)).1
      obtain ⟨events, hevents, hvalid, hperm⟩ := S.remove_spec h.valid h.queueDistinct hqueue
      have hcall : (S.remove ⟨ev.impl, ⟨ev.key.ts, ev.key.uid, ev.key.context⟩⟩ w.sim.events) =
          some events := hevents
      simp only [eventId, Option.bind_some] at hremove
      rw [hcall, Option.map_some] at hremove
      obtain rfl := Option.some.inj hremove
      obtain ⟨-, hrest, hdistinct, hlength⟩ := h.rest_of_perm hperm
      have hcancelled := h.cancelImpl hid
      refine { hcancelled with
        valid := hvalid
        queued := fun e he => h.queued e (hrest e he).1
        queueDistinct := hdistinct
        later := fun e he => h.later e (hrest e he).1
        flagged := fun e he => hcancelled.flagged e (hrest e he).1
        size := ?_
        gone := ?_ }
      · change w.sim.unscheduledEvents - 1 = ((S.contents events).length : Int)
        rw [h.size, hlength]
        omega
      · intro e he
        rcases hcancelled.gone e he with hq | hq
        · rcases List.mem_cons.mp (hperm.mem_iff.mp hq) with rfl | hq
          · refine Or.inr (Or.inr ?_)
            change Function.update w.sim.cancelled e.impl true e.impl = true
            exact Function.update_self _ _ _
          · exact Or.inl hq
        · exact Or.inr hq

/-- `ProcessOneEvent` takes the first of the remaining events. -/
theorem processOneEvent (h : Invariant w) {ev : Event} {runs : Bool} {sim : Simulator S}
    (hprocess : w.sim.processOneEvent = some (ev, runs, sim)) (hne : w.queue ≠ []) :
    Invariant { w with
      sim := sim
      executed := w.executed ++ [ev]
      invoked := if runs then w.invoked ++ [ev] else w.invoked } := by
  obtain ⟨next, events, hnext, hvalid, hperm, hleast⟩ :=
    S.removeNext_spec h.valid h.queueDistinct hne
  unfold Simulator.processOneEvent at hprocess
  rw [hnext, Option.bind_some] at hprocess
  dsimp only at hprocess
  split at hprocess
  next hts =>
      obtain ⟨rfl, hrest⟩ := Prod.mk.inj (Option.some.inj hprocess)
      obtain ⟨rfl, rfl⟩ := Prod.mk.inj hrest
      obtain ⟨hmem, hrest, hdistinct, hlength⟩ := h.rest_of_perm hperm
      have hscheduled := h.queued next hmem
      have horder : current w.sim < next.order := h.later next hmem
      constructor
      case valid => exact hvalid
      case uid => exact h.uid
      case currentUid =>
        change next.uid.toNat < w.count + 4
        have := h.impl next hscheduled
        omega
      case impl => exact h.impl
      case distinct => exact h.distinct
      case queued => exact fun e he => h.queued e (hrest e he).1
      case queueDistinct => exact hdistinct
      case later =>
        intro e he
        change next.order < e.order
        refine lt_of_le_of_ne (hleast e (hrest e he).1) fun heq => (hrest e he).2 ?_
        exact (Event.uid_eq_of_order heq).symm
      case size =>
        change w.sim.unscheduledEvents - 1 = ((S.contents events).length : Int)
        rw [h.size, hlength]
        omega
      case gone =>
        intro e he
        rcases h.gone e he with hq | hq | hq
        · rcases List.mem_cons.mp (hperm.mem_iff.mp hq) with rfl | hq
          · exact Or.inr (Or.inl (List.mem_append_right _ (List.mem_singleton_self _)))
          · exact Or.inl hq
        · exact Or.inr (Or.inl (List.mem_append_left _ hq))
        · exact Or.inr (Or.inr hq)
      case executed =>
        intro e he
        change e ∈ w.scheduled ∧ e.order ≤ next.order
        rcases List.mem_append.mp he with he | he
        · exact ⟨(h.executed e he).1, le_of_lt (lt_of_le_of_lt (h.executed e he).2 horder)⟩
        · rw [List.mem_singleton.mp he]
          exact ⟨hscheduled, le_refl _⟩
      case increasing =>
        refine List.pairwise_append.mpr ⟨h.increasing, List.pairwise_singleton _ _, ?_⟩
        intro e he e' he'
        rw [List.mem_singleton.mp he']
        exact lt_of_le_of_lt (h.executed e he).2 horder
      case sublist =>
        change List.Sublist (if _ then _ else _) _
        split
        · exact h.sublist.append (List.Sublist.refl _)
        · exact h.sublist.trans (List.sublist_append_left _ _)
      case ran =>
        intro e he hcancel
        change e ∈ (if _ then _ else _)
        rcases List.mem_append.mp he with he | he
        · have hran := h.ran e he hcancel
          split
          · exact List.mem_append_left _ hran
          · exact hran
        · obtain rfl := List.mem_singleton.mp he
          have hfalse : w.sim.cancelled e.impl = false := hcancel
          rw [hfalse, if_pos (by rfl)]
          exact List.mem_append_right _ (List.mem_singleton_self _)
      case fresh => exact h.fresh
      case revoked => exact h.revoked
      case ids => exact h.ids
      case destroyIds => exact h.destroyIds
      case idImpls => exact h.idImpls
      case known => exact h.known
      case flagged => exact fun e he => h.flagged e (hrest e he).1
  next => cases hprocess

/-- The assertion of `ProcessOneEvent` holds. -/
theorem processOneEvent_isSome (h : Invariant w) (hne : w.queue ≠ []) :
    w.sim.processOneEvent.isSome = true := by
  obtain ⟨next, events, hnext, -, hperm, -⟩ := S.removeNext_spec h.valid h.queueDistinct hne
  have hlater := h.later next (hperm.mem_iff.mpr List.mem_cons_self)
  unfold current Event.order at hlater
  rw [Prod.Lex.toLex_lt_toLex] at hlater
  have hts : next.key.ts ≥ w.sim.currentTs := by
    rw [ge_iff_le, UInt64.le_iff_toNat_le]
    rcases hlater with hlt | ⟨heq, -⟩
    · exact Nat.le_of_lt hlt
    · exact Nat.le_of_eq heq
  rw [Simulator.processOneEvent, hnext, Option.bind_some]
  dsimp only
  rw [if_pos hts]
  rfl

theorem schedules {next : World S} (h : Invariant w) (hnext : Schedules w next)
    (hbound : next.count < 2 ^ 32 - 4) : Invariant next := by
  obtain ⟨sim, ts, context, ids, henqueue, hts, hids, rfl⟩ := hnext
  exact h.enqueue henqueue hts hids hbound

theorem step {next : World S} (h : Invariant w) (call : Call)
    (hstep : step w call = some next) (hbound : next.count < 2 ^ 32 - 4) : Invariant next := by
  cases call with
  | schedule time => exact h.schedules (schedules_schedule hstep) hbound
  | scheduleWithContext context time =>
      exact h.schedules (schedules_scheduleWithContext hstep) hbound
  | scheduleNow => exact h.schedules (schedules_scheduleNow hstep) hbound
  | scheduleDestroy =>
      obtain rfl := Option.some.inj hstep
      exact h.scheduleDestroy hbound
  | cancel id =>
      simp only [Simulation.step] at hstep
      split at hstep
      next hknown =>
          obtain rfl := Option.some.inj hstep
          unfold Simulator.cancel
          split
          · exact h.cancelImpl hknown
          next hexpired =>
            refine h.of_revoked _ _ [id] ?_ rfl
            simpa using ⟨hknown, Or.inr (Bool.eq_true_of_not_eq_false hexpired)⟩
      next => cases hstep
  | remove id =>
      simp only [Simulation.step] at hstep
      split at hstep
      next hknown =>
          obtain ⟨sim, hremove, rfl⟩ := Option.map_eq_some_iff.mp hstep
          exact h.remove hknown hremove
      next => cases hstep
  | run =>
      simp only [Simulation.step] at hstep
      split at hstep
      next => cases hstep
      next =>
          obtain rfl := Option.some.inj hstep
          simpa using h.of_revoked { w.sim with stop := false } true [] nofun rfl
  | processOneEvent =>
      simp only [Simulation.step] at hstep
      split at hstep
      next hguard =>
          obtain ⟨⟨ev, runs, sim⟩, hprocess, rfl⟩ := Option.map_eq_some_iff.mp hstep
          refine h.processOneEvent hprocess fun hempty => ?_
          rw [(S.isEmpty_iff h.valid).mpr hempty] at hguard
          simp at hguard
      next => cases hstep
  | finish =>
      simp only [Simulation.step] at hstep
      split at hstep
      next =>
          split at hstep
          next =>
              obtain rfl := Option.some.inj hstep
              simpa using h.of_revoked w.sim false [] nofun rfl
          next => cases hstep
      next => cases hstep
  | stop =>
      obtain rfl := Option.some.inj hstep
      simpa using h.of_revoked { w.sim with stop := true } w.running [] nofun rfl

end Invariant

/-! ## The main result -/

/-- What the simulator guarantees in a state. -/
structure Exact (w : World S) : Prop where
  /-- Executed events are strictly increasing in time stamp and uid. -/
  increasing : w.executed.Pairwise fun a b => a.order < b.order
  /-- No event is invoked twice, and only scheduled events are invoked. -/
  once : w.invoked.Nodup ∧ ∀ e ∈ w.invoked, e ∈ w.scheduled
  /-- With an empty queue every event that was not cancelled or removed was invoked once. -/
  complete : S.isEmpty w.sim.events = true → ∀ e ∈ w.scheduled,
    (∀ id ∈ w.revoked, id.impl ≠ some e.impl) → w.invoked.count e = 1
  counter : w.sim.unscheduledEvents = w.queue.length
  /-- `IsExpired` is false for the ids of queued events that nobody cancelled or removed. -/
  expiry : ∀ id ∈ w.ids, id.uid ≠ 2 →
    (w.sim.isExpired id = false ↔
      (∃ e ∈ w.queue, id = eventId e) ∧ ∀ id' ∈ w.revoked, id'.impl ≠ id.impl)
  /-- The assertions of `ProcessOneEvent` and of `Run` hold. -/
  assertions : w.running = true →
    (S.isEmpty w.sim.events = false → w.sim.stop = false → (step w .processOneEvent).isSome) ∧
    (S.isEmpty w.sim.events = true ∨ w.sim.stop = true → (step w .finish).isSome)

/-- An event of the queue is live unless it was cancelled or removed. -/
theorem Invariant.live_iff {w : World S} (h : Invariant w) {e : Event} (he : e ∈ w.queue) :
    w.sim.cancelled e.impl = false ↔ ¬ ∃ id ∈ w.revoked, id.impl = some e.impl := by
  rw [← Bool.not_eq_true]
  exact not_congr ⟨h.revoked e (h.queued e he), h.flagged e he⟩

theorem Invariant.executed_nodup {w : World S} (h : Invariant w) : w.executed.Nodup := by
  refine List.Pairwise.imp ?_ h.increasing
  rintro a b hlt rfl
  exact lt_irrefl _ hlt

theorem Invariant.exact {w : World S} (h : Invariant w) : Exact w where
  increasing := h.increasing
  once := by
    refine ⟨h.sublist.nodup h.executed_nodup, fun e he => (h.executed e (h.sublist.mem he)).1⟩
  complete hempty e he hnever := by
    have hnil := (S.isEmpty_iff h.valid).mp hempty
    have hlive : w.sim.cancelled e.impl = false := by
      by_contra hne
      obtain ⟨id, hid, himpl⟩ := h.revoked e he (Bool.eq_true_of_not_eq_false hne)
      exact hnever id hid himpl
    have hexecuted : e ∈ w.executed := by
      rcases h.gone e he with hq | hq | hq
      · rw [World.queue, hnil] at hq
        cases hq
      · exact hq
      · rw [hlive] at hq
        cases hq
    exact List.count_eq_one_of_mem (h.sublist.nodup h.executed_nodup) (h.ran e hexecuted hlive)
  counter := h.size
  expiry id hid huid := by
    obtain ⟨e, he, rfl⟩ := h.ids id hid huid
    rw [h.isExpired_iff he]
    constructor
    · rintro ⟨hq, hlive⟩
      exact ⟨⟨e, hq, rfl⟩, fun id' hid' himpl => (h.live_iff hq).mp hlive ⟨id', hid', himpl⟩⟩
    · rintro ⟨⟨e', he', heq⟩, hnever⟩
      have himpl : e.impl = e'.impl := Option.some.inj (congrArg EventId.impl heq)
      obtain rfl := h.eq_of_impl he (h.queued e' he') himpl
      exact ⟨he', (h.live_iff he').mpr fun ⟨id', hid', himpl'⟩ => hnever id' hid' himpl'⟩
  assertions hrunning := by
    constructor
    · intro hsome hstop
      have hne : w.queue ≠ [] := fun hnil => by
        rw [(S.isEmpty_iff h.valid).mpr hnil] at hsome
        cases hsome
      simp only [Simulation.step]
      rw [if_pos ⟨hrunning, hsome, hstop⟩, Option.isSome_map]
      exact h.processOneEvent_isSome hne
    · intro hend
      simp only [Simulation.step]
      rw [if_pos ⟨hrunning, hend⟩]
      split
      next => rfl
      next hassert =>
          refine absurd ?_ hassert
          cases hempty : S.isEmpty w.sim.events with
          | false => exact Or.inl rfl
          | true =>
              refine Or.inr ?_
              rw [h.size, World.queue, (S.isEmpty_iff h.valid).mp hempty]
              rfl

/-- `Remove` takes the event off the queue, unless it was cancelled before. -/
def Removes (w : World S) (call : Call) (next : World S) : Prop :=
  ∀ id, call = .remove id → id.uid ≠ 2 → ∀ e ∈ next.queue, id.impl = some e.impl →
    ∃ id' ∈ w.revoked, id'.impl = id.impl

end Ns3Rdma.Sched.Simulation
