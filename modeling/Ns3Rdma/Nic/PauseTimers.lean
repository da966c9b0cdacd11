import Mathlib.Data.List.Nodup
import Ns3Rdma.Lib.StepSystem
import Ns3Rdma.Nic.Device

/-! # The timers of paused classes

A PAUSE cancels the resume event of its class and schedules another one, or resumes the class at
once. The events of a class that are still to run are cancelled, all but the one its device
remembers, so a class is paused if and only if that event is pending. -/

namespace Ns3Rdma

open StepSystem

/-- A call of `PauseFinish` that the simulator still has to make. A cancelled event stays in its
list and does nothing when its time comes. -/
structure ResumeEvent where
  uid : Nat
  time : Nat
  qIndex : Fin qCnt
  cancelled : Bool

/-- A device and the simulator's events for it. `resumeId` holds the ids in `m_resumeEvt`. -/
structure PauseTimers where
  nic : Nic
  events : List ResumeEvent
  nextUid : Nat
  resumeId : Fin qCnt → Option Nat

namespace PauseTimers

variable (c : NicConfig)

def start (maxBytes : ℚ) : PauseTimers where
  nic := .start c maxBytes
  events := []
  nextUid := 0
  resumeId := fun _ => none

/-- `Simulator::Cancel (m_resumeEvt[qIndex])`. -/
def cancel (s : PauseTimers) (qIndex : Fin qCnt) : PauseTimers :=
  { s with
    events := s.events.map fun e =>
      if s.resumeId qIndex = some e.uid then { e with cancelled := true } else e }

/-- `Simulator::Schedule` of `PauseFinish`. -/
def schedule (s : PauseTimers) (time : Nat) (qIndex : Fin qCnt) : PauseTimers :=
  { s with
    events := s.events ++ [⟨s.nextUid, time, qIndex, false⟩]
    nextUid := s.nextUid + 1
    resumeId := Function.update s.resumeId qIndex (some s.nextUid) }

/-- `Resume`, with its assertion that the class is paused. -/
def resume (s : PauseTimers) (qIndex : Fin qCnt) : Option PauseTimers :=
  if s.nic.paused qIndex then some { s with nic := (s.nic.pauseFinish c qIndex).1 } else none

/-- `Receive` for a PFC frame. -/
def receivePause (s : PauseTimers) (pauseh : PauseHeader) : Option PauseTimers :=
  if !c.qbbEnabled then some s
  else
    let stopped := { s with
      nic := { s.nic with paused := Function.update s.nic.paused pauseh.qIndex true } }
    if pauseh.time > 0 then
      let scheduled := (stopped.cancel pauseh.qIndex).schedule
        (s.nic.now + microSeconds pauseh.time.toNat) pauseh.qIndex
      some { scheduled with
        nic := { scheduled.nic with
          resumeEvt := Function.update scheduled.nic.resumeEvt pauseh.qIndex true } }
    else (stopped.cancel pauseh.qIndex).resume c pauseh.qIndex

/-- The simulator takes an event from its list and runs it unless it is cancelled. -/
def fire (s : PauseTimers) (uid : Nat) : Option PauseTimers :=
  (s.events.find? fun e => e.uid = uid ∧ e.time ≤ s.nic.now).bind fun e =>
    let s := { s with events := s.events.filter fun e => e.uid ≠ uid }
    if e.cancelled then some s else s.resume c e.qIndex

inductive Event where
  | pause (pauseh : PauseHeader)
  | fire (uid : Nat)
  | send (p : Packet)
  | control (p : Packet)
  | transmitComplete
  | nextSend
  | retransmit (findex : Fin fCnt)
  | feedback (f : Feedback)
  | advance (time : Nat)

def step (s : PauseTimers) : Event → Option PauseTimers
  | .pause pauseh => s.receivePause c pauseh
  | .fire uid => s.fire c uid
  | .send p => (s.nic.send c p).map fun result => { s with nic := result.1 }
  | .control p => some { s with nic := (s.nic.sendControl c p).1 }
  | .transmitComplete => some { s with nic := (s.nic.transmitComplete c).1 }
  | .nextSend => some { s with nic := (Nic.dequeueAndTransmit c { s.nic with nextSend := none }).1 }
  | .retransmit findex => (s.nic.retransmit c findex).map fun result => { s with nic := result.1 }
  | .feedback f => (s.nic.receiveFeedback c f).map fun result => { s with nic := result.1 }
  | .advance time =>
      if s.nic.now ≤ time then some { s with nic := { s.nic with now := time } } else none

/-- The event in `m_resumeEvt[qIndex]` is still to run, and resumes that class. -/
def Pending (s : PauseTimers) (qIndex : Fin qCnt) : Prop :=
  ∃ e ∈ s.events, s.resumeId qIndex = some e.uid ∧ e.cancelled = false ∧ e.qIndex = qIndex

/-- Of the events still to run, those that are not cancelled are the ones the device remembers,
one for every paused class. -/
structure Timed (s : PauseTimers) : Prop where
  nodup : (s.events.map ResumeEvent.uid).Nodup
  event_lt : ∀ e ∈ s.events, e.uid < s.nextUid
  resumeId_lt : ∀ q uid, s.resumeId q = some uid → uid < s.nextUid
  owner : ∀ e ∈ s.events, ∀ q, s.resumeId q = some e.uid → e.qIndex = q
  live : ∀ e ∈ s.events, e.cancelled = false →
    s.resumeId e.qIndex = some e.uid ∧ s.nic.paused e.qIndex = true
  paused : ∀ q, s.nic.paused q = true → s.Pending q
  resumeEvt : s.nic.resumeEvt = s.nic.paused

/-- The invariant while class `q` is flagged as paused and has no event. -/
structure TimedBut (s : PauseTimers) (q : Fin qCnt) : Prop where
  nodup : (s.events.map ResumeEvent.uid).Nodup
  event_lt : ∀ e ∈ s.events, e.uid < s.nextUid
  resumeId_lt : ∀ i uid, s.resumeId i = some uid → uid < s.nextUid
  owner : ∀ e ∈ s.events, ∀ i, s.resumeId i = some e.uid → e.qIndex = i
  live : ∀ e ∈ s.events, e.cancelled = false →
    e.qIndex ≠ q ∧ s.resumeId e.qIndex = some e.uid ∧ s.nic.paused e.qIndex = true
  paused : ∀ i, i ≠ q → s.nic.paused i = true → s.Pending i
  paused_self : s.nic.paused q = true
  resumeEvt : ∀ i, i ≠ q → s.nic.resumeEvt i = s.nic.paused i

/-- The handler of the device leaves the pauses as they are. -/
def SamePauses (n next : Nic) : Prop :=
  next.paused = n.paused ∧ next.resumeEvt = n.resumeEvt

variable {c} {s next : PauseTimers} {q : Fin qCnt} {n : Nic}

theorem dequeueAndTransmit_samePauses (n : Nic) :
    SamePauses n (Nic.dequeueAndTransmit c n).1 := by
  unfold Nic.dequeueAndTransmit
  split
  · exact ⟨rfl, rfl⟩
  · split
    · exact ⟨rfl, rfl⟩
    · exact ⟨rfl, rfl⟩

theorem addFlow_samePauses (n : Nic) (i : Fin fCnt) (port : UInt16) :
    SamePauses n (n.addFlow c i port q) := by
  unfold Nic.addFlow
  split
  · exact ⟨rfl, rfl⟩
  · exact ⟨rfl, rfl⟩

theorem SamePauses.trans {middle after : Nic} (h : SamePauses n middle)
    (h' : SamePauses middle after) : SamePauses n after :=
  ⟨h'.1.trans h.1, h'.2.trans h.2⟩

theorem send_samePauses {p : Packet} {result : Nic × Option Packet}
    (h : n.send c p = some result) : SamePauses n result.1 := by
  unfold Nic.send at h
  dsimp only at h
  split at h
  · obtain rfl := Option.some.inj h
    exact dequeueAndTransmit_samePauses _
  · obtain ⟨i, -, h⟩ := Option.bind_eq_some_iff.mp h
    obtain ⟨buffer, -, rfl⟩ := Option.map_eq_some_iff.mp h
    exact (addFlow_samePauses n i _).trans (dequeueAndTransmit_samePauses _)

theorem receiveFeedback_samePauses {f : Feedback} {result : Nic × Option Packet}
    (h : n.receiveFeedback c f = some result) : SamePauses n result.1 := by
  cases f with
  | ack qbbh =>
      obtain ⟨i, -, h⟩ := Option.bind_eq_some_iff.mp h
      obtain ⟨kept, -, rfl⟩ := Option.map_eq_some_iff.mp h
      dsimp only
      split
      · exact dequeueAndTransmit_samePauses _
      · exact ⟨rfl, rfl⟩
  | nack qbbh =>
      obtain ⟨i, -, h⟩ := Option.bind_eq_some_iff.mp h
      obtain ⟨buffer, -, h⟩ := Option.bind_eq_some_iff.mp h
      obtain ⟨seq, -, h⟩ := Option.bind_eq_some_iff.mp h
      dsimp only at h
      split at h
      · cases h
      · split at h
        · obtain rfl := Option.some.inj h
          exact dequeueAndTransmit_samePauses _
        · obtain rfl := Option.some.inj h
          exact ⟨rfl, rfl⟩
  | cnp cnHead =>
      unfold Nic.receiveFeedback Nic.receiveCnp at h
      dsimp only at h
      split at h
      · obtain rfl := Option.some.inj h
        exact ⟨rfl, rfl⟩
      · obtain ⟨i, -, rfl⟩ := Option.map_eq_some_iff.mp h
        exact ⟨rfl, rfl⟩

namespace Timed

theorem congr (h : s.Timed) {n : Nic} (hsame : SamePauses s.nic n) : { s with nic := n }.Timed where
  nodup := h.nodup
  event_lt := h.event_lt
  resumeId_lt := h.resumeId_lt
  owner := h.owner
  live e he hlive := by
    obtain ⟨hid, hpaused⟩ := h.live e he hlive
    exact ⟨hid, (congrFun hsame.1 _).trans hpaused⟩
  paused q hq := h.paused q ((congrFun hsame.1 q).symm.trans hq)
  resumeEvt := hsame.2.trans (h.resumeEvt.trans hsame.1.symm)

/-- Once its event is cancelled, a class that is flagged as paused has none. -/
theorem cancel (h : s.Timed) (q : Fin qCnt) :
    ({ s with nic :=
        { s.nic with paused := Function.update s.nic.paused q true } }.cancel q).TimedBut q where
  nodup := by
    unfold PauseTimers.cancel
    dsimp only
    rw [List.map_map]
    have huid : (ResumeEvent.uid ∘ fun e =>
        if s.resumeId q = some e.uid then { e with cancelled := true } else e) =
          ResumeEvent.uid := by
      funext e
      rw [Function.comp_apply]
      split <;> rfl
    rw [huid]
    exact h.nodup
  event_lt e he := by
    obtain ⟨e', he', rfl⟩ := List.mem_map.mp he
    have hlt := h.event_lt e' he'
    split <;> exact hlt
  resumeId_lt := h.resumeId_lt
  owner e he i hi := by
    obtain ⟨e', he', rfl⟩ := List.mem_map.mp he
    split at hi <;> split <;> exact h.owner e' he' i hi
  live e he hlive := by
    obtain ⟨e', he', rfl⟩ := List.mem_map.mp he
    dsimp only at hlive ⊢
    split at hlive
    · cases hlive
    next hother =>
      rw [if_neg hother]
      obtain ⟨hid, hpaused⟩ := h.live e' he' hlive
      have hne : e'.qIndex ≠ q := by
        rintro rfl
        exact hother hid
      exact ⟨hne, hid, (Function.update_of_ne hne _ _).trans hpaused⟩
  paused i hi hpaused := by
    have hbefore : s.nic.paused i = true := (Function.update_of_ne hi _ _).symm.trans hpaused
    obtain ⟨e, he, hid, hlive, hclass⟩ := h.paused i hbefore
    refine ⟨e, List.mem_map.mpr ⟨e, he, if_neg fun hq => hi ?_⟩, hid, hlive, hclass⟩
    rw [← hclass]
    exact h.owner e he q hq
  paused_self := Function.update_self _ _ _
  resumeEvt i hi := (congrFun h.resumeEvt i).trans (Function.update_of_ne hi _ _).symm

end Timed

namespace TimedBut

/-- With a new event for the class, the invariant holds again. -/
theorem schedule (h : s.TimedBut q) (time : Nat) :
    { s.schedule time q with
      nic := { s.nic with resumeEvt := Function.update s.nic.resumeEvt q true } }.Timed where
  nodup := by
    unfold PauseTimers.schedule
    dsimp only
    rw [List.map_append, List.nodup_append']
    refine ⟨h.nodup, List.nodup_singleton _, fun uid huid hnew => ?_⟩
    obtain ⟨e, he, rfl⟩ := List.mem_map.mp huid
    exact Nat.ne_of_lt (h.event_lt e he) (List.mem_singleton.mp hnew)
  event_lt e he := by
    rcases List.mem_append.mp he with he | he
    · exact Nat.lt_succ_of_lt (h.event_lt e he)
    · obtain rfl := List.mem_singleton.mp he
      exact Nat.lt_succ_self _
  resumeId_lt i uid hi := by
    change Function.update s.resumeId q (some s.nextUid) i = some uid at hi
    by_cases hiq : i = q
    · subst hiq
      rw [Function.update_self] at hi
      obtain rfl := Option.some.inj hi
      exact Nat.lt_succ_self _
    · rw [Function.update_of_ne hiq] at hi
      exact Nat.lt_succ_of_lt (h.resumeId_lt i uid hi)
  owner e he i hi := by
    change Function.update s.resumeId q (some s.nextUid) i = some e.uid at hi
    rcases List.mem_append.mp he with hold | hnew
    · have hne : i ≠ q := by
        rintro rfl
        rw [Function.update_self] at hi
        exact Nat.ne_of_gt (h.event_lt e hold) (Option.some.inj hi)
      rw [Function.update_of_ne hne] at hi
      exact h.owner e hold i hi
    · obtain rfl := List.mem_singleton.mp hnew
      by_contra hne
      rw [Function.update_of_ne (Ne.symm hne)] at hi
      exact Nat.lt_irrefl _ (h.resumeId_lt i _ hi)
  live e he hlive := by
    rcases List.mem_append.mp he with he | he
    · obtain ⟨hne, hid, hpaused⟩ := h.live e he hlive
      exact ⟨(Function.update_of_ne hne _ _).trans hid, hpaused⟩
    · obtain rfl := List.mem_singleton.mp he
      exact ⟨Function.update_self _ _ _, h.paused_self⟩
  paused i hpaused := by
    by_cases hi : i = q
    · subst hi
      exact ⟨_, List.mem_append_right _ (List.mem_singleton_self _), Function.update_self _ _ _,
        rfl, rfl⟩
    · obtain ⟨e, he, hid, hlive, hclass⟩ := h.paused i hi hpaused
      exact ⟨e, List.mem_append_left _ he, (Function.update_of_ne hi _ _).trans hid, hlive, hclass⟩
  resumeEvt := by
    funext i
    change Function.update s.nic.resumeEvt q true i = s.nic.paused i
    by_cases hi : i = q
    · subst hi
      rw [Function.update_self, h.paused_self]
    · rw [Function.update_of_ne hi, h.resumeEvt i hi]

/-- `Resume` may run, and the invariant holds again. -/
theorem resume (h : s.TimedBut q) : ∃ next, s.resume c q = some next ∧ next.Timed := by
  refine ⟨_, if_pos h.paused_self, ?_⟩
  obtain ⟨hpaused, hresumeEvt⟩ := dequeueAndTransmit_samePauses (c := c)
    { s.nic with
      paused := Function.update s.nic.paused q false
      resumeEvt := Function.update s.nic.resumeEvt q false }
  constructor
  case nodup => exact h.nodup
  case event_lt => exact h.event_lt
  case resumeId_lt => exact h.resumeId_lt
  case owner => exact h.owner
  case live =>
    intro e he hlive
    obtain ⟨hne, hid, hset⟩ := h.live e he hlive
    exact ⟨hid, (congrFun hpaused _).trans ((Function.update_of_ne hne _ _).trans hset)⟩
  case paused =>
    intro i hi
    have hset := (congrFun hpaused i).symm.trans hi
    by_cases hiq : i = q
    · subst hiq
      dsimp only at hset
      rw [Function.update_self] at hset
      cases hset
    · exact h.paused i hiq ((Function.update_of_ne hiq _ _).symm.trans hset)
  case resumeEvt =>
    refine hresumeEvt.trans (Eq.trans ?_ hpaused.symm)
    funext i
    by_cases hi : i = q
    · subst hi
      change Function.update s.nic.resumeEvt i false i = Function.update s.nic.paused i false i
      rw [Function.update_self, Function.update_self]
    · exact (Function.update_of_ne hi _ _).trans
        ((h.resumeEvt i hi).trans (Function.update_of_ne hi _ _).symm)

end TimedBut

/-! ## The steps -/

theorem Timed.receivePause (h : s.Timed) (pauseh : PauseHeader) :
    ∃ next, s.receivePause c pauseh = some next ∧ next.Timed := by
  unfold PauseTimers.receivePause
  split
  · exact ⟨s, rfl, h⟩
  · dsimp only
    split
    · exact ⟨_, rfl, (h.cancel pauseh.qIndex).schedule _⟩
    · exact (h.cancel pauseh.qIndex).resume

/-- A cancelled event that runs changes nothing. -/
theorem Timed.drop (h : s.Timed) {e : ResumeEvent} (he : e ∈ s.events)
    (hcancelled : e.cancelled = true) :
    { s with events := s.events.filter fun e' => e'.uid ≠ e.uid }.Timed where
  nodup := h.nodup.sublist (List.filter_sublist.map _)
  event_lt e' he' := h.event_lt e' (List.mem_of_mem_filter he')
  resumeId_lt := h.resumeId_lt
  owner e' he' := h.owner e' (List.mem_of_mem_filter he')
  live e' he' := h.live e' (List.mem_of_mem_filter he')
  paused q hq := by
    obtain ⟨e', he', hid, hlive, hclass⟩ := h.paused q hq
    refine ⟨e', List.mem_filter.mpr ⟨he', decide_eq_true fun huid => ?_⟩, hid, hlive, hclass⟩
    obtain rfl := List.inj_on_of_nodup_map h.nodup he' he huid
    rw [hlive] at hcancelled
    cases hcancelled
  resumeEvt := h.resumeEvt

/-- While the event of a class runs, the class is paused and has no other event. -/
theorem Timed.take (h : s.Timed) {e : ResumeEvent} (he : e ∈ s.events)
    (hlive : e.cancelled = false) :
    { s with events := s.events.filter fun e' => e'.uid ≠ e.uid }.TimedBut e.qIndex where
  nodup := h.nodup.sublist (List.filter_sublist.map _)
  event_lt e' he' := h.event_lt e' (List.mem_of_mem_filter he')
  resumeId_lt := h.resumeId_lt
  owner e' he' := h.owner e' (List.mem_of_mem_filter he')
  live e' he' hlive' := by
    obtain ⟨hmem, huid⟩ := List.mem_filter.mp he'
    obtain ⟨hid, hpaused⟩ := h.live e' hmem hlive'
    refine ⟨fun hclass => of_decide_eq_true huid ?_, hid, hpaused⟩
    rw [hclass, (h.live e he hlive).1] at hid
    exact (Option.some.inj hid).symm
  paused i hi hpaused := by
    obtain ⟨e', he', hid, hlive', hclass⟩ := h.paused i hpaused
    refine ⟨e', List.mem_filter.mpr ⟨he', decide_eq_true fun huid => hi ?_⟩, hid, hlive', hclass⟩
    rw [← hclass, List.inj_on_of_nodup_map h.nodup he' he huid]
  paused_self := (h.live e he hlive).2
  resumeEvt i _ := congrFun h.resumeEvt i

theorem Timed.fire (h : s.Timed) {uid : Nat}
    (hdue : ∃ e ∈ s.events, e.uid = uid ∧ e.time ≤ s.nic.now) :
    ∃ next, s.fire c uid = some next ∧ next.Timed := by
  obtain ⟨e, hfind⟩ : ∃ e, (s.events.find? fun e => e.uid = uid ∧ e.time ≤ s.nic.now) = some e := by
    obtain ⟨e, he, huid, htime⟩ := hdue
    refine Option.isSome_iff_exists.mp (List.find?_isSome.mpr ⟨e, he, ?_⟩)
    exact decide_eq_true ⟨huid, htime⟩
  have he := List.mem_of_find?_eq_some hfind
  have hdueNow := List.find?_some hfind
  obtain ⟨rfl, -⟩ := of_decide_eq_true hdueNow
  unfold PauseTimers.fire
  rw [hfind, Option.bind_some]
  dsimp only
  split
  next hcancelled => exact ⟨_, rfl, h.drop he hcancelled⟩
  next hlive => exact (h.take he (Bool.eq_false_of_not_eq_true hlive)).resume

theorem Timed.step {event : Event} (h : s.Timed) (hstep : s.step c event = some next) :
    next.Timed := by
  cases event with
  | pause pauseh =>
      obtain ⟨next', hnext, hready⟩ := h.receivePause (c := c) pauseh
      obtain rfl := Option.some.inj (hnext.symm.trans hstep)
      exact hready
  | fire uid =>
      have hdue : ∃ e ∈ s.events, e.uid = uid ∧ e.time ≤ s.nic.now := by
        obtain ⟨e, hfind, -⟩ := Option.bind_eq_some_iff.mp hstep
        have hdueNow := List.find?_some hfind
        exact ⟨e, List.mem_of_find?_eq_some hfind, of_decide_eq_true hdueNow⟩
      obtain ⟨next', hnext, hready⟩ := h.fire (c := c) hdue
      obtain rfl := Option.some.inj (hnext.symm.trans hstep)
      exact hready
  | send p =>
      obtain ⟨result, hsend, rfl⟩ := Option.map_eq_some_iff.mp hstep
      exact h.congr (send_samePauses hsend)
  | control p =>
      obtain rfl := Option.some.inj hstep
      exact h.congr (dequeueAndTransmit_samePauses _)
  | transmitComplete =>
      obtain rfl := Option.some.inj hstep
      exact h.congr (dequeueAndTransmit_samePauses _)
  | nextSend =>
      obtain rfl := Option.some.inj hstep
      exact h.congr (dequeueAndTransmit_samePauses _)
  | retransmit findex =>
      obtain ⟨result, hresult, rfl⟩ := Option.map_eq_some_iff.mp hstep
      obtain ⟨buffer, -, rfl⟩ := Option.map_eq_some_iff.mp hresult
      exact h.congr (dequeueAndTransmit_samePauses _)
  | feedback f =>
      obtain ⟨result, hresult, rfl⟩ := Option.map_eq_some_iff.mp hstep
      exact h.congr (receiveFeedback_samePauses hresult)
  | advance time =>
      obtain ⟨-, hstep⟩ := Option.ite_none_right_eq_some.mp hstep
      obtain rfl := Option.some.inj hstep
      exact h.congr ⟨rfl, rfl⟩

end PauseTimers

end Ns3Rdma
