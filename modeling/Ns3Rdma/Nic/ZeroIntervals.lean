import Ns3Rdma.Nic.Answers
import Ns3Rdma.Nic.Link

/-! # Chunk size and ACK interval zero

Both attributes document that zero disables them. A chunk size of zero is divided by in two ways:
the check of the number that is expected and the handlers that go back to the start of a chunk.
With an ACK interval of zero every packet in order reaches its milestone. -/

namespace Ns3Rdma

open StepSystem

namespace RxFlow

variable {c : RxConfig} {f : RxFlow} {seq : UInt32} {now : Nat}

/-- Without chunks or without an interval, no packet of the flow was taken in order. -/
def Unstarted (c : RxConfig) (f : RxFlow) : Prop :=
  c.chunk = 0 ∨ c.ackInterval = 0 →
    f.receiverNextExpectedSeq = 0 ∧ f.milestoneRx = c.ackInterval

/-- The check of a packet is defined, and it asks for no ACK that is disabled. -/
def ChecksWell (c : RxConfig) (f : RxFlow) (seq : UInt32) (now : Nat) : Prop :=
  (f.receiverCheckSeq c seq now).isSome = true ∧ (c.ackInterval = 0 →
    ∀ checked, f.receiverCheckSeq c seq now = some checked → checked.1 ≠ .generateAck)

/-- A packet in order arrives only with both attributes set, and a NACK that goes back to the
start of a chunk is due only with a chunk size. -/
def AttributesSet (c : RxConfig) (f : RxFlow) (seq : UInt32) (now : Nat) : Prop :=
  (seq = f.receiverNextExpectedSeq → c.chunk ≠ 0 ∧ c.ackInterval ≠ 0) ∧
    (f.receiverNextExpectedSeq < seq → f.nackTimer < now ∨ f.lastNACK ≠ f.receiverNextExpectedSeq →
      c.backto0 = true → c.testRead = false → c.chunk ≠ 0)

theorem checksWell_of_chunk (hchunk : c.chunk ≠ 0) (hinterval : c.ackInterval ≠ 0) :
    f.ChecksWell c seq now :=
  ⟨receiverCheckSeq_isSome hchunk f seq now, fun hzero => absurd hzero hinterval⟩

/-- The first packet of a flow, with an attribute that is zero. -/
theorem not_checksWell_first (hunstarted : f.Unstarted c) (hseq : seq = f.receiverNextExpectedSeq)
    (hzero : c.chunk = 0 ∨ c.ackInterval = 0) : ¬ f.ChecksWell c seq now := by
  obtain ⟨hexpected, hmilestone⟩ := hunstarted hzero
  rintro ⟨hdefined, hack⟩
  unfold receiverCheckSeq at hdefined hack
  dsimp only at hdefined hack
  rw [if_pos hseq, hexpected, hmilestone] at hdefined hack
  by_cases hinterval : c.ackInterval = 0
  · -- The milestone 0 is reached.
    rw [hinterval, if_pos (by decide)] at hack
    exact hack rfl _ rfl rfl
  · have hchunk := hzero.resolve_right hinterval
    have hbelow : ¬ c.ackInterval < 0 + 1 := by
      rw [UInt32.lt_iff_toNat_lt]
      intro hlt
      exact hinterval (UInt32.toNat_inj.mp (Nat.lt_one_iff.mp hlt))
    rw [if_neg hbelow, if_pos hchunk] at hdefined
    cases hdefined

/-- A packet that is not the next one asks for no ACK. -/
theorem checksWell_iff_of_ne (hseq : seq ≠ f.receiverNextExpectedSeq) :
    f.ChecksWell c seq now ↔ (f.receiverCheckSeq c seq now).isSome = true := by
  refine ⟨fun h => h.1, fun h => ⟨h, fun _ checked hchecked hack => hseq ?_⟩⟩
  exact (receiverCheckSeq_result hchecked).1 hack

theorem isSome_iff_of_lt (hlt : f.receiverNextExpectedSeq < seq) :
    (f.receiverCheckSeq c seq now).isSome = true ↔
      (f.nackTimer < now ∨ f.lastNACK ≠ f.receiverNextExpectedSeq →
        c.backto0 = true → c.testRead = false → c.chunk ≠ 0) := by
  have hne : seq ≠ f.receiverNextExpectedSeq := fun heq => by
    rw [heq] at hlt
    exact UInt32.lt_irrefl _ hlt
  unfold receiverCheckSeq
  dsimp only
  rw [if_neg hne, if_pos hlt]
  split
  next hdue =>
    split
    next hback =>
      rw [Bool.and_eq_true, Bool.not_eq_true'] at hback
      split
      next hchunk =>
        refine iff_of_false Bool.false_ne_true fun h => ?_
        exact h hdue hback.1 hback.2 hchunk
      next hchunk => exact iff_of_true rfl fun _ _ _ => hchunk
    next hback =>
      refine iff_of_true rfl fun _ hbackto0 htestRead => absurd ?_ hback
      rw [hbackto0, htestRead]
      rfl
  next hdue => exact iff_of_true rfl fun h => absurd h hdue

theorem checksWell_iff (hunstarted : f.Unstarted c) :
    f.ChecksWell c seq now ↔ f.AttributesSet c seq now := by
  unfold AttributesSet
  by_cases hseq : seq = f.receiverNextExpectedSeq
  · have hnot : ¬ f.receiverNextExpectedSeq < seq := by
      rw [hseq]
      exact UInt32.lt_irrefl _
    constructor
    · intro hwell
      refine ⟨fun _ => ⟨fun hchunk => ?_, fun hinterval => ?_⟩, fun hlt => absurd hlt hnot⟩
      · exact not_checksWell_first hunstarted hseq (Or.inl hchunk) hwell
      · exact not_checksWell_first hunstarted hseq (Or.inr hinterval) hwell
    · intro hset
      obtain ⟨hchunk, hinterval⟩ := hset.1 hseq
      exact checksWell_of_chunk hchunk hinterval
  · rw [checksWell_iff_of_ne hseq, and_iff_right fun h => absurd h hseq]
    by_cases hlt : f.receiverNextExpectedSeq < seq
    · rw [isSome_iff_of_lt hlt]
      exact ⟨fun h _ => h, fun h => h hlt⟩
    · refine iff_of_true ?_ fun h => absurd h hlt
      unfold receiverCheckSeq
      dsimp only
      rw [if_neg hseq, if_neg hlt]
      rfl

/-- A flow that has not started does not start as long as the condition is met. -/
theorem Unstarted.check {checked : SeqCheck × RxFlow} (h : f.Unstarted c)
    (hset : f.AttributesSet c seq now) (hcheck : f.receiverCheckSeq c seq now = some checked) :
    checked.2.Unstarted c := by
  intro hzero
  obtain ⟨hexpected, hmilestone⟩ := h hzero
  have hseq : seq ≠ f.receiverNextExpectedSeq := fun heq => by
    obtain ⟨hchunk, hinterval⟩ := hset.1 heq
    exact hzero.elim hchunk hinterval
  unfold receiverCheckSeq at hcheck
  dsimp only at hcheck
  rw [if_neg hseq] at hcheck
  split at hcheck
  · split at hcheck
    · split at hcheck
      · split at hcheck
        · cases hcheck
        · obtain rfl := Option.some.inj hcheck
          -- The start of the chunk of 0 is 0.
          refine ⟨?_, hmilestone⟩
          dsimp only
          rw [hexpected, UInt32.zero_div, UInt32.zero_mul]
      · obtain rfl := Option.some.inj hcheck
        exact ⟨hexpected, hmilestone⟩
    · obtain rfl := Option.some.inj hcheck
      exact ⟨hexpected, hmilestone⟩
  · obtain rfl := Option.some.inj hcheck
    exact ⟨hexpected, hmilestone⟩

end RxFlow

/-- A NIC with both of its sides. -/
structure AckNic where
  receiver : Receiver
  nic : Nic

namespace AckNic

/-- A data packet or a feedback frame arrives, or the sending side does something of its own. -/
inductive Event where
  | arrival (a : Arrival)
  | feedback (f : Feedback)
  | send (p : Packet)
  | transmitComplete
  | retransmit (findex : Fin fCnt)

variable (c : NicConfig)

def start (maxBytes : ℚ) : AckNic where
  receiver := .start
  nic := .start c maxBytes

/-- What an event does, and the frames that answer it. -/
def handle (s : AckNic) : Event → Option (AckNic × List Feedback)
  | .arrival a => (s.receiver.receive c.toRxConfig a).map fun result =>
      ({ s with receiver := result.1 }, result.2)
  | .feedback f => (s.nic.receiveFeedback c f).map fun result => ({ s with nic := result.1 }, [])
  | .send p => (s.nic.send c p).map fun result => ({ s with nic := result.1 }, [])
  | .transmitComplete => some ({ s with nic := (s.nic.transmitComplete c).1 }, [])
  | .retransmit findex => (s.nic.retransmit c findex).map fun result =>
      ({ s with nic := result.1 }, [])

/-- A program that has stopped stays as it is. -/
def step (s : AckNic) (event : Event) : Option AckNic :=
  some ((s.handle c event).elim s Prod.fst)

/-- The feedback frame belongs to a flow whose sending buffer has a packet. -/
def Awaited (s : AckNic) (qbbh : QbbHeader) : Prop :=
  ∃ i buffer, s.nic.findFlow qbbh.port qbbh.pg = some i ∧ s.nic.sendingBuffer i = some buffer ∧
    buffer.packets ≠ []

/-- The program comes to a quotient or a remainder by zero. An ACK is not looked at while ACKs
are disabled. -/
def DividesByZero (s : AckNic) : Event → Prop
  | .arrival a => a.corrupt = false ∧ ∃ found, s.receiver.lookup c.toRxConfig a = some found ∧
      found.flow.receiverCheckSeq c.toRxConfig a.packet.seq a.now = none
  | .feedback (.nack qbbh) => s.Awaited qbbh ∧ Nic.gobackSeq c qbbh.seq = none
  | .feedback (.ack qbbh) =>
      s.Awaited qbbh ∧ c.ackInterval ≠ 0 ∧ Nic.gobackSeq c qbbh.seq = none
  | _ => False

/-- No division by zero, and no ACK while ACKs are disabled. -/
def WellDefined (s : AckNic) (event : Event) : Prop :=
  ¬ s.DividesByZero c event ∧ (c.ackInterval = 0 → ∀ result, s.handle c event = some result →
    ∀ qbbh, .ack qbbh ∉ result.2)

/-- The attributes that an event needs are not zero. -/
def AttributesSet (s : AckNic) : Event → Prop
  | .arrival a => a.corrupt = false → ∀ found, s.receiver.lookup c.toRxConfig a = some found →
      found.flow.AttributesSet c.toRxConfig a.packet.seq a.now
  | .feedback (.nack qbbh) => s.Awaited qbbh → c.backto0 = true → c.chunk ≠ 0
  | .feedback (.ack qbbh) => s.Awaited qbbh → c.ackInterval ≠ 0 → c.backto0 = true → c.chunk ≠ 0
  | _ => True

/-- No flow has started without both attributes. -/
def Unstarted (s : AckNic) : Prop :=
  ∀ k f, s.receiver.flows k = some f → f.Unstarted c.toRxConfig

variable {c} {s next : AckNic}

theorem gobackSeq_eq_none_iff (seq : UInt32) :
    Nic.gobackSeq c seq = none ↔ ¬ (c.backto0 = true → c.chunk ≠ 0) := by
  unfold Nic.gobackSeq
  split
  next hback =>
    rw [Bool.not_eq_true'] at hback
    refine iff_of_false (Option.some_ne_none _) fun h => h fun hbackto0 => ?_
    rw [hback] at hbackto0
    cases hbackto0
  next hback =>
    rw [Bool.not_eq_true', Bool.not_eq_false] at hback
    split
    next hchunk => exact iff_of_true rfl fun h => h hback hchunk
    next hchunk => exact iff_of_false (Option.some_ne_none _) fun h => h fun _ => hchunk

/-- The flow that a packet is checked against. -/
theorem Unstarted.lookup (h : s.Unstarted c) {a : Arrival} {found : Receiver.Found}
    (hlookup : s.receiver.lookup c.toRxConfig a = some found) :
    found.flow.Unstarted c.toRxConfig := by
  unfold Receiver.lookup at hlookup
  split at hlookup
  next f hf =>
    obtain rfl := Option.some.inj hlookup
    have hflow := h _ f hf
    unfold RxFlow.Unstarted at hflow
    unfold RxFlow.Unstarted RxFlow.countEcn
    split <;> exact hflow
  next =>
    split at hlookup
    · obtain rfl := Option.some.inj hlookup
      unfold RxFlow.Unstarted RxFlow.checkandSendQCN
      split <;> exact fun _ => ⟨rfl, rfl⟩
    · cases hlookup

/-- The answers to a packet hold an ACK if the check asks for one. -/
theorem ack_mem_receive_iff {a : Arrival} (hcorrupt : a.corrupt = false) :
    (∃ result qbbh, s.receiver.receive c.toRxConfig a = some result ∧ .ack qbbh ∈ result.2) ↔
      ∃ found checked, s.receiver.lookup c.toRxConfig a = some found ∧
        found.flow.receiverCheckSeq c.toRxConfig a.packet.seq a.now = some checked ∧
          checked.1 = .generateAck := by
  constructor
  · rintro ⟨result, qbbh, hreceive, hmem⟩
    obtain ⟨found, checked, hlookup, hcheck, hanswers⟩ :=
      Receiver.receive_eq_some hreceive hcorrupt
    refine ⟨found, checked, hlookup, hcheck, ?_⟩
    rw [hanswers] at hmem
    rcases List.mem_append.mp hmem with hsent | hanswer
    · obtain ⟨cnHead, hcnp⟩ := Receiver.lookup_sent hlookup hsent
      cases hcnp
    · cases hkind : checked.1 with
      | generateAck => rfl
      | generateNack =>
          rw [hkind] at hanswer
          cases List.mem_singleton.mp hanswer
      | duplicate => rw [hkind] at hanswer; cases hanswer
      | gap => rw [hkind] at hanswer; cases hanswer
      | inOrder => rw [hkind] at hanswer; cases hanswer
  · rintro ⟨found, checked, hlookup, hcheck, hack⟩
    have hreceive : ∃ received, s.receiver.receive c.toRxConfig a = some
        (received, found.sent ++ checked.2.answer (Receiver.key a.packet) checked.1) := by
      unfold Receiver.receive
      rw [hcorrupt, if_neg Bool.false_ne_true, hlookup, Option.bind_some, hcheck, Option.map_some]
      exact ⟨_, rfl⟩
    obtain ⟨received, hreceive⟩ := hreceive
    refine ⟨_, ⟨a.packet.pg, checked.2.receiverNextExpectedSeq, a.packet.sourcePort⟩, hreceive, ?_⟩
    rw [hack]
    exact List.mem_append_right _ (List.mem_singleton_self _)

theorem wellDefined_arrival_iff (h : s.Unstarted c) (a : Arrival) :
    s.WellDefined c (.arrival a) ↔ s.AttributesSet c (.arrival a) := by
  unfold WellDefined AttributesSet DividesByZero
  dsimp only
  cases hcorrupt : a.corrupt with
  | true =>
      refine iff_of_true ⟨fun hdivides => Bool.noConfusion hdivides.1, ?_⟩ nofun
      rintro - result hresult qbbh hmem
      obtain ⟨received, hreceive, rfl⟩ := Option.map_eq_some_iff.mp hresult
      rw [Receiver.receive_corrupt hreceive hcorrupt] at hmem
      cases hmem
  | false =>
      simp only [true_and, true_implies, not_exists, not_and]
      constructor
      · rintro ⟨hdefined, hnoAck⟩ found hlookup
        rw [← RxFlow.checksWell_iff (h.lookup hlookup)]
        refine ⟨Option.ne_none_iff_isSome.mp (hdefined found hlookup), ?_⟩
        intro hzero checked hcheck hack
        obtain ⟨result, qbbh, hreceive, hmem⟩ :=
          (ack_mem_receive_iff hcorrupt).mpr ⟨found, checked, hlookup, hcheck, hack⟩
        refine hnoAck hzero ({ s with receiver := result.1 }, result.2) ?_ qbbh hmem
        exact congrArg (Option.map fun result : Receiver × List Feedback =>
          (({ s with receiver := result.1 } : AckNic), result.2)) hreceive
      · intro hset
        refine ⟨fun found hlookup => ?_, fun hzero result hresult qbbh hmem => ?_⟩
        · have hwell := (RxFlow.checksWell_iff (h.lookup hlookup)).mpr (hset found hlookup)
          exact Option.ne_none_iff_isSome.mpr hwell.1
        · obtain ⟨received, hreceive, rfl⟩ := Option.map_eq_some_iff.mp hresult
          obtain ⟨found, checked, hlookup, hcheck, hack⟩ :=
            (ack_mem_receive_iff hcorrupt).mp ⟨received, qbbh, hreceive, hmem⟩
          have hwell := (RxFlow.checksWell_iff (h.lookup hlookup)).mpr (hset found hlookup)
          exact hwell.2 hzero checked hcheck hack

/-- Only arrivals are answered. -/
theorem no_answer {event : Event} (hevent : ∀ a, event ≠ .arrival a)
    {result : AckNic × List Feedback} (hresult : s.handle c event = some result) (f : Feedback) :
    f ∉ result.2 := by
  cases event with
  | arrival a => exact absurd rfl (hevent a)
  | feedback g =>
      obtain ⟨handled, -, rfl⟩ := Option.map_eq_some_iff.mp hresult
      exact List.not_mem_nil
  | send p =>
      obtain ⟨handled, -, rfl⟩ := Option.map_eq_some_iff.mp hresult
      exact List.not_mem_nil
  | transmitComplete =>
      obtain rfl := Option.some.inj hresult
      exact List.not_mem_nil
  | retransmit findex =>
      obtain ⟨handled, -, rfl⟩ := Option.map_eq_some_iff.mp hresult
      exact List.not_mem_nil

theorem wellDefined_of_not_arrival {event : Event} (hevent : ∀ a, event ≠ .arrival a)
    (hdivides : ¬ s.DividesByZero c event) : s.WellDefined c event :=
  ⟨hdivides, fun _ _ hresult _ => no_answer hevent hresult _⟩

theorem wellDefined_iff (h : s.Unstarted c) (event : Event) :
    s.WellDefined c event ↔ s.AttributesSet c event := by
  cases event with
  | arrival a => exact wellDefined_arrival_iff h a
  | feedback f =>
      unfold WellDefined
      rw [and_iff_left fun _ result hresult qbbh => no_answer (fun a h => by cases h) hresult _]
      cases f with
      | ack qbbh =>
          unfold DividesByZero AttributesSet
          dsimp only
          rw [gobackSeq_eq_none_iff, not_and, not_and, not_not]
      | nack qbbh =>
          unfold DividesByZero AttributesSet
          dsimp only
          rw [gobackSeq_eq_none_iff, not_and, not_not]
      | cnp cnHead => exact iff_of_true (fun h => h) trivial
  | send p =>
      exact iff_of_true (wellDefined_of_not_arrival (fun a h => by cases h) fun h => h) trivial
  | transmitComplete =>
      exact iff_of_true (wellDefined_of_not_arrival (fun a h => by cases h) fun h => h) trivial
  | retransmit findex =>
      exact iff_of_true (wellDefined_of_not_arrival (fun a h => by cases h) fun h => h) trivial

/-- The sending side leaves the flows of the receiving side alone. -/
theorem step_receiver {event : Event} (hevent : ∀ a, event ≠ .arrival a)
    (hstep : s.step c event = some next) : next.receiver = s.receiver := by
  obtain rfl := Option.some.inj hstep
  cases hhandle : s.handle c event with
  | none => rfl
  | some result =>
      rw [Option.elim_some]
      cases event with
      | arrival a => exact absurd rfl (hevent a)
      | feedback f =>
          obtain ⟨handled, -, rfl⟩ := Option.map_eq_some_iff.mp hhandle
          rfl
      | send p =>
          obtain ⟨handled, -, rfl⟩ := Option.map_eq_some_iff.mp hhandle
          rfl
      | transmitComplete =>
          obtain rfl := Option.some.inj hhandle
          rfl
      | retransmit findex =>
          obtain ⟨handled, -, rfl⟩ := Option.map_eq_some_iff.mp hhandle
          rfl

theorem Unstarted.arrival (h : s.Unstarted c) {a : Arrival}
    (hset : s.AttributesSet c (.arrival a)) (hstep : s.step c (.arrival a) = some next) :
    next.Unstarted c := by
  obtain rfl := Option.some.inj hstep
  cases hreceive : s.receiver.receive c.toRxConfig a with
  | none =>
      unfold handle
      dsimp only
      rw [hreceive]
      exact h
  | some result =>
      unfold handle
      dsimp only
      rw [hreceive, Option.map_some, Option.elim_some]
      have hstep := Receiver.step_of_receive hreceive
      cases hcorrupt : a.corrupt with
      | true =>
          intro k f hf
          rw [Receiver.step_corrupt hstep hcorrupt] at hf
          exact h k f hf
      | false =>
          obtain ⟨found, checked, hlookup, hcheck, hflows, -⟩ :=
            Receiver.step_eq_some hstep hcorrupt
          intro k f hf
          rw [hflows, Function.update_apply] at hf
          split at hf
          · obtain rfl := Option.some.inj hf
            exact (h.lookup hlookup).check (hset hcorrupt found hlookup) hcheck
          · exact h k f hf

theorem Unstarted.step {event : Event} (h : s.Unstarted c) (hset : s.AttributesSet c event)
    (hstep : s.step c event = some next) : next.Unstarted c := by
  by_cases hevent : ∀ a, event ≠ .arrival a
  · unfold Unstarted
    rw [step_receiver hevent hstep]
    exact h
  · obtain ⟨a, ha⟩ := not_forall.mp hevent
    obtain rfl := not_not.mp ha
    exact h.arrival hset hstep

theorem start_unstarted (c : NicConfig) (maxBytes : ℚ) : (start c maxBytes).Unstarted c := by
  intro k f hf
  cases hf

/-- The first packet of a flow is well handled only with both attributes set. -/
theorem attributes_of_first {c : NicConfig} {maxBytes : ℚ}
    (h : (start c maxBytes).WellDefined c (.arrival (Receiver.arrival 0))) :
    c.chunk ≠ 0 ∧ c.ackInterval ≠ 0 := by
  have hset := (wellDefined_iff (start_unstarted c maxBytes) _).mp h
  have hfirst := hset rfl _ rfl
  refine hfirst.1 ?_
  rw [Receiver.lookup_expected (s := Receiver.start) (a := Receiver.arrival 0) rfl]
  rfl

/-- In every run, no event divides by zero or causes an ACK that is disabled if and only if every
event finds the attributes set that it needs. -/
theorem wellDefined_iff_attributesSet (c : NicConfig) (maxBytes : ℚ) (events : List Event) :
    EachStep (step c) (fun s event _ => s.WellDefined c event) (start c maxBytes) events ↔
      EachStep (step c) (fun s event _ => s.AttributesSet c event) (start c maxBytes) events :=
  eachStep_iff_of_invariant (fun _ event _ h _ => wellDefined_iff h event)
    (fun _ _ _ h hstep hset => h.step hset hstep) (start_unstarted c maxBytes) events

/-- The attributes at their defaults. -/
def disabled : NicConfig := { Link.goBackN 0 false with ackInterval := 0 }

/-- The first packet of a flow is answered with an ACK. -/
theorem disabled_not_wellDefined :
    ¬ EachStep (step disabled) (fun s event _ => s.WellDefined disabled event)
      (start disabled 1000000) [.arrival (Receiver.arrival 0)] := by
  intro h
  exact (attributes_of_first (h [] _ [] _ _ rfl rfl rfl)).2 rfl

/-- All runs are well defined if and only if both attributes are set. -/
theorem wellDefined_always_iff (c : NicConfig) (maxBytes : ℚ) :
    (∀ events,
      EachStep (step c) (fun s event _ => s.WellDefined c event) (start c maxBytes) events) ↔
      c.chunk ≠ 0 ∧ c.ackInterval ≠ 0 := by
  constructor
  · intro hall
    exact attributes_of_first (hall [.arrival (Receiver.arrival 0)] [] _ [] _ _ rfl rfl rfl)
  · rintro ⟨hchunk, hinterval⟩ events done event rest s next _ _ _
    have hunstarted : s.Unstarted c := fun k f _ hzero =>
      absurd hzero (not_or.mpr ⟨hchunk, hinterval⟩)
    rw [wellDefined_iff hunstarted]
    cases event with
    | arrival a => exact fun _ found _ => ⟨fun _ => ⟨hchunk, hinterval⟩, fun _ _ _ _ => hchunk⟩
    | feedback f =>
        cases f with
        | ack qbbh => exact fun _ _ _ => hchunk
        | nack qbbh => exact fun _ _ => hchunk
        | cnp cnHead => trivial
    | send p => trivial
    | transmitComplete => trivial
    | retransmit findex => trivial

end AckNic

end Ns3Rdma
