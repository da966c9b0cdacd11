import Ns3Rdma.Nic.Link
import Ns3Rdma.Nic.Transmit

/-! # What a NACK touches

A NACK refills a FIFO from the sending buffer of the flow it names. In both modes that is the
FIFO with the index of the flow, but only a QCN NIC queues flows by their index: otherwise the
FIFO belongs to a class. -/

namespace Ns3Rdma

open StepSystem

namespace Nic

/-- The packet belongs to the flow with index `i`. -/
def InFlow (s : Nic) (i : Fin fCnt) (p : Packet) : Prop :=
  p.sourcePort = s.findexUdpportMap i ∧ sendClass p = s.findexQindexMap i

instance (s : Nic) (i : Fin fCnt) (p : Packet) : Decidable (s.InFlow i p) :=
  inferInstanceAs (Decidable (_ ∧ _))

/-- The packets that do not belong to flow `i`. -/
def others (s : Nic) (i : Fin fCnt) (packets : List Packet) : List Packet :=
  packets.filter fun p => ¬ s.InFlow i p

/-- What a handler put on the wire from FIFO `j`. -/
def sentFrom (result : Nic × Option Packet) (j : Fin fCnt) : List Packet :=
  if result.1.queue.qlast = j then result.2.toList else []

/-- The FIFO of the index holds packets of its flow only. -/
def OwnsQueue (s : Nic) (i : Fin fCnt) : Prop :=
  ∀ p ∈ (s.queue.queues i).packets, s.InFlow i p

/-- Every packet of another flow is still where it was, or was the head of its FIFO and has
been put on the wire. -/
def FramesQueues (s : Nic) (i : Fin fCnt) (result : Nic × Option Packet) : Prop :=
  ∀ j, s.others i (s.queue.queues j).packets =
    s.others i (sentFrom result j ++ (result.1.queue.queues j).packets)

/-- Only the buffer of flow `i` has changed, and it has lost a prefix of numbers below `seq`. -/
def FramesBuffers (s : Nic) (i : Fin fCnt) (seq : UInt32) (result : Nic × Option Packet) : Prop :=
  (∀ j, j ≠ i → result.1.sendingBuffer j = s.sendingBuffer j) ∧
    ∃ before after dropped, s.sendingBuffer i = some before ∧
      result.1.sendingBuffer i = some after ∧ before.packets = dropped ++ after.packets ∧
        ∀ p ∈ dropped, p.seq < seq

/-- A buffer holds at most 8000 packets, all of its flow. -/
def BuffersOwned (s : Nic) : Prop :=
  ∀ j buffer, s.sendingBuffer j = some buffer →
    buffer.packets.length ≤ 8000 ∧ ∀ p ∈ buffer.packets, s.InFlow j p

/-- The FIFO of every index holds packets of its flow only, and no packet has source port 0. -/
structure QueuesOwned (s : Nic) : Prop where
  queues : ∀ j, j ≠ 0 → ∀ p ∈ (s.queue.queues j).packets, s.InFlow j p ∧ p.sourcePort ≠ 0
  buffers : ∀ j buffer, s.sendingBuffer j = some buffer → ∀ p ∈ buffer.packets, p.sourcePort ≠ 0

variable {c : NicConfig} {s t : Nic} {i : Fin fCnt} {p : Packet}

/-! ## Transmission -/

/-- The parts of the device that a transmission leaves alone. -/
structure SameFlows (s t : Nic) : Prop where
  ports : t.findexUdpportMap = s.findexUdpportMap
  classes : t.findexQindexMap = s.findexQindexMap
  buffers : t.sendingBuffer = s.sendingBuffer

theorem SameFlows.inFlow_iff (h : s.SameFlows t) : t.InFlow i p ↔ s.InFlow i p := by
  unfold InFlow
  rw [h.ports, h.classes]

theorem SameFlows.buffersOwned (h : s.SameFlows t) (hs : s.BuffersOwned) : t.BuffersOwned := by
  intro j buffer hbuffer
  rw [h.buffers] at hbuffer
  obtain ⟨hlength, howned⟩ := hs j buffer hbuffer
  exact ⟨hlength, fun p hp => h.inFlow_iff.mpr (howned p hp)⟩

theorem dequeueNext_takes {p : Packet} {next : BEgressQueue}
    (h : s.dequeueNext c = some (p, next)) : ∃ rest,
      (s.queue.queues next.qlast).packets = p :: rest.packets ∧
        next.queues = Function.update s.queue.queues next.qlast rest := by
  have hpop : ∀ {i rrlast : Fin fCnt}, s.queue.popFrom i rrlast i = some (p, next) →
      ∃ rest, (s.queue.queues next.qlast).packets = p :: rest.packets ∧
        next.queues = Function.update s.queue.queues next.qlast rest := by
    intro i rrlast hpop
    obtain ⟨rest, hhead, rfl⟩ := BEgressQueue.popFrom_eq_some.mp hpop
    exact ⟨rest, hhead, rfl⟩
  unfold dequeueNext at h
  split at h
  · unfold BEgressQueue.dequeueQCN at h
    split at h
    · cases h
    · rw [Option.bind_eq_some_iff] at h
      obtain ⟨i, -, h⟩ := h
      exact hpop h
  · unfold BEgressQueue.dequeueNIC at h
    split at h
    · cases h
    · rw [Option.bind_eq_some_iff] at h
      obtain ⟨j, -, h⟩ := h
      exact hpop h

/-- `DequeueAndTransmit` takes the head of one FIFO, or no packet. -/
theorem dequeueAndTransmit_queues (c : NicConfig) (s : Nic) (j : Fin fCnt) :
    (s.queue.queues j).packets = sentFrom (dequeueAndTransmit c s) j ++
      ((dequeueAndTransmit c s).1.queue.queues j).packets := by
  unfold dequeueAndTransmit sentFrom
  split
  · rw [Option.toList_none, ite_self, List.nil_append]
  · split
    next popped hpopped =>
      obtain ⟨rest, hhead, hqueues⟩ := dequeueNext_takes hpopped
      change _ = (if popped.2.qlast = j then [popped.1] else []) ++ (popped.2.queues j).packets
      rw [hqueues]
      split
      next hj =>
        rw [← hj, Function.update_self, hhead]
        rfl
      next hj => rw [Function.update_of_ne (Ne.symm hj), List.nil_append]
    · rw [Option.toList_none, ite_self, List.nil_append]
      rfl

theorem dequeueAndTransmit_sameFlows (c : NicConfig) (s : Nic) :
    s.SameFlows (dequeueAndTransmit c s).1 := by
  unfold dequeueAndTransmit
  split
  · exact ⟨rfl, rfl, rfl⟩
  · split
    · exact ⟨rfl, rfl, rfl⟩
    · exact ⟨rfl, rfl, rfl⟩

theorem mem_of_mem_sent {j : Fin fCnt}
    (hp : p ∈ ((dequeueAndTransmit c s).1.queue.queues j).packets) :
    p ∈ (s.queue.queues j).packets := by
  rw [dequeueAndTransmit_queues c s j]
  exact List.mem_append_right _ hp

/-! ## The NACK -/

/-- The number that a NACK goes back to is not above its own. -/
theorem gobackSeq_le {seq goback : UInt32} (h : gobackSeq c seq = some goback) : goback ≤ seq := by
  unfold gobackSeq at h
  split at h
  · obtain rfl := Option.some.inj h
    exact UInt32.le_refl _
  · split at h
    · cases h
    · obtain rfl := Option.some.inj h
      have hle := Nat.div_mul_le_self seq.toNat c.chunk.toNat
      have hlt := seq.toNat_lt
      rw [UInt32.le_iff_toNat_le, UInt32.toNat_mul, UInt32.toNat_div,
        Nat.mod_eq_of_lt (Nat.lt_of_le_of_lt hle hlt)]
      exact hle

theorem keptFrom_split (buffer : DropTailQueue) (seq : UInt32) : ∃ dropped,
    buffer.packets = dropped ++ (keptFrom buffer seq).packets ∧ ∀ p ∈ dropped, p.seq < seq := by
  refine ⟨buffer.packets.takeWhile fun p => p.seq < seq, List.takeWhile_append_dropWhile.symm, ?_⟩
  intro p hp
  have hdropped := List.all_eq_true.mp List.all_takeWhile p hp
  exact of_decide_eq_true hdropped

section Nack

variable {qbbh : QbbHeader} {result : Nic × Option Packet}

/-- The effect of a NACK: the FIFO of the index is replaced by what is left of the buffer, and
then at most one packet is transmitted. -/
theorem receiveNack_effect (h : s.BuffersOwned) (hnack : s.receiveNack c qbbh = some result)
    (hi : s.findFlow qbbh.port qbbh.pg = some i) : ∃ buffer seq,
      s.sendingBuffer i = some buffer ∧ gobackSeq c qbbh.seq = some seq ∧
      result.1.sendingBuffer = Function.update s.sendingBuffer i (some (keptFrom buffer seq)) ∧
      ∀ j, (Function.update s.queue.queues i (keptFrom buffer seq) j).packets =
        sentFrom result j ++ (result.1.queue.queues j).packets := by
  obtain ⟨j, buffer, seq, hj, hbuffer, hseq, -, rfl⟩ := receiveNack_recovers hnack
  obtain rfl := Option.some.inj (hi.symm.trans hj)
  have hlength : (keptFrom buffer seq).packets.length ≤ 8000 :=
    (List.dropWhile_sublist _).length_le.trans (h i buffer hbuffer).1
  have hqueues := recover_queues (s := s) (i := i) hlength
  have hbuffers := recover_sendingBuffer (s := s) (i := i) hlength
  refine ⟨buffer, seq, hbuffer, hseq, ?_, ?_⟩
  · split
    · rw [(dequeueAndTransmit_sameFlows c _).buffers]
      exact hbuffers
    · exact hbuffers
  · intro j
    rw [← hqueues]
    split
    · exact dequeueAndTransmit_queues c ((s.recover i (keptFrom buffer seq)).stopWaiting i) j
    · unfold sentFrom
      rw [Option.toList_none, ite_self, List.nil_append]

theorem others_eq_nil_iff (packets : List Packet) :
    s.others i packets = [] ↔ ∀ p ∈ packets, s.InFlow i p := by
  unfold others
  simp only [List.filter_eq_nil_iff, decide_eq_true_eq, not_not]

/-- A NACK leaves all other flows alone exactly if the FIFO it refills held none of them. -/
theorem receiveNack_framesQueues_iff (h : s.BuffersOwned)
    (hnack : s.receiveNack c qbbh = some result)
    (hi : s.findFlow qbbh.port qbbh.pg = some i) :
    s.FramesQueues i result ↔ s.OwnsQueue i := by
  obtain ⟨buffer, seq, hbuffer, -, -, hqueues⟩ := receiveNack_effect h hnack hi
  have hkept : s.others i (keptFrom buffer seq).packets = [] := by
    rw [others_eq_nil_iff]
    intro p hp
    exact (h i buffer hbuffer).2 p ((List.dropWhile_sublist _).subset hp)
  constructor
  · intro hframes
    have hself := hframes i
    rw [← hqueues i, Function.update_self, hkept, others_eq_nil_iff] at hself
    exact hself
  · intro howns j
    rw [← hqueues j]
    by_cases hj : j = i
    · rw [hj, Function.update_self, hkept, others_eq_nil_iff]
      exact howns
    · rw [Function.update_of_ne hj]

theorem receiveNack_framesBuffers (h : s.BuffersOwned)
    (hnack : s.receiveNack c qbbh = some result)
    (hi : s.findFlow qbbh.port qbbh.pg = some i) : s.FramesBuffers i qbbh.seq result := by
  obtain ⟨buffer, seq, hbuffer, hseq, hbuffers, -⟩ := receiveNack_effect h hnack hi
  obtain ⟨dropped, hsplit, hdropped⟩ := keptFrom_split buffer seq
  refine ⟨fun j hj => ?_, buffer, keptFrom buffer seq, dropped, hbuffer, ?_, hsplit, ?_⟩
  · rw [hbuffers, Function.update_of_ne hj]
  · rw [hbuffers, Function.update_self]
  · intro p hp
    exact UInt32.lt_of_lt_of_le (hdropped p hp) (gobackSeq_le hseq)

end Nack

/-! ## Runs of a NIC -/

/-- Everything that happens to a NIC in either mode, at any time. -/
inductive Event where
  | send (p : Packet)
  | control (p : Packet)
  | transmitComplete
  | nextSend
  | retransmit (findex : Fin fCnt)
  | feedback (f : Feedback)
  | pause (pauseh : PauseHeader)
  | pauseFinish (qIndex : Fin qCnt)
  | rateTimer (fIndex : Fin fCnt)
  | alphaTimer (fIndex : Fin fCnt)
  | advance (time : Nat)

/-- The handler of an event. -/
def handle (c : NicConfig) (s : Nic) : Event → Option (Nic × Option Packet)
  | .send p => s.send c p
  | .control p => some (s.sendControl c p)
  | .transmitComplete => some (s.transmitComplete c)
  | .nextSend => some (dequeueAndTransmit c { s with nextSend := none })
  | .retransmit findex => s.retransmit c findex
  | .feedback f => s.receiveFeedback c f
  | .pause pauseh => some (s.receivePause c pauseh)
  | .pauseFinish qIndex => some (s.pauseFinish c qIndex)
  | .rateTimer fIndex => some
      ({ s with
        rp := Function.update s.rp fIndex ((s.rp fIndex).rprTimerWrapper c.toRpConfig) }, none)
  | .alphaTimer fIndex => some
      ({ s with
        rp := Function.update s.rp fIndex ((s.rp fIndex).resumeAlpha c.toRpConfig) }, none)
  | .advance time => some ({ s with now := max s.now time }, none)

/-- A run keeps the device and the frame that the last event put on the wire. -/
def step (c : NicConfig) (s : Nic × Option Packet) (event : Event) : Option (Nic × Option Packet) :=
  s.1.handle c event

/-- Every NACK leaves the packets and the buffers of the flows that it does not name alone, and
the buffer of its own flow apart from an acknowledged prefix. -/
def NackFrames (s : Nic) (event : Event) (result : Nic × Option Packet) : Prop :=
  ∀ qbbh i, event = .feedback (.nack qbbh) → s.findFlow qbbh.port qbbh.pg = some i →
    s.FramesQueues i result ∧ s.FramesBuffers i qbbh.seq result

/-- The FIFO that a NACK refills holds packets of the flow only. -/
def NackOwns (s : Nic) (event : Event) : Prop :=
  ∀ qbbh i, event = .feedback (.nack qbbh) → s.findFlow qbbh.port qbbh.pg = some i → s.OwnsQueue i

/-- Port 0 marks an unused index. -/
def PortGiven : Event → Prop
  | .send p => p.sourcePort ≠ 0
  | _ => True

theorem start_buffersOwned (c : NicConfig) (maxBytes : ℚ) : (start c maxBytes).BuffersOwned := by
  intro j buffer hbuffer
  cases hbuffer

theorem start_queuesOwned (c : NicConfig) (maxBytes : ℚ) : (start c maxBytes).QueuesOwned where
  queues := by
    intro j hj p hp
    cases hp
  buffers := by
    intro j buffer hbuffer
    cases hbuffer

/-- Cutting one buffer keeps all of them owned. -/
theorem BuffersOwned.cut (h : s.BuffersOwned) (hports : t.findexUdpportMap = s.findexUdpportMap)
    (hclasses : t.findexQindexMap = s.findexQindexMap) {buffer kept : DropTailQueue}
    (hbuffer : s.sendingBuffer i = some buffer) (hsub : kept.packets.Sublist buffer.packets)
    (hbuffers : t.sendingBuffer = Function.update s.sendingBuffer i (some kept)) :
    t.BuffersOwned := by
  intro j other hother
  have hflow : ∀ p, t.InFlow j p ↔ s.InFlow j p := by
    intro p
    unfold InFlow
    rw [hports, hclasses]
  simp only [hflow]
  rw [hbuffers] at hother
  by_cases hj : j = i
  · rw [hj, Function.update_self] at hother
    obtain rfl := Option.some.inj hother
    obtain ⟨hlength, howned⟩ := h i buffer hbuffer
    rw [hj]
    exact ⟨hsub.length_le.trans hlength, fun p hp => howned p (hsub.subset hp)⟩
  · rw [Function.update_of_ne hj] at hother
    exact h j other hother

/-- Feedback cuts at most one buffer. Only a NACK also changes a FIFO. -/
theorem receiveAck_cuts {qbbh : QbbHeader} {result : Nic × Option Packet}
    (h : s.receiveAck c qbbh = some result) : ∃ i buffer kept t,
      s.sendingBuffer i = some buffer ∧ kept.packets.Sublist buffer.packets ∧
        t.findexUdpportMap = s.findexUdpportMap ∧ t.findexQindexMap = s.findexQindexMap ∧
        t.sendingBuffer = Function.update s.sendingBuffer i (some kept) ∧ t.queue = s.queue ∧
          (result = (t, none) ∨ result = dequeueAndTransmit c t) := by
  unfold receiveAck at h
  rw [Option.bind_eq_some_iff] at h
  obtain ⟨i, -, h⟩ := h
  rw [Option.map_eq_some_iff] at h
  obtain ⟨kept, hkept, rfl⟩ := h
  rw [Option.bind_eq_some_iff] at hkept
  obtain ⟨buffer, hbuffer, hkept⟩ := hkept
  have hsub : kept.packets.Sublist buffer.packets := by
    unfold acknowledged at hkept
    split at hkept
    · cases hkept
    · split at hkept
      · rw [Option.some.inj hkept]
      · rw [Option.map_eq_some_iff] at hkept
        obtain ⟨seq, -, rfl⟩ := hkept
        exact List.dropWhile_sublist _
  dsimp only
  split
  · exact ⟨i, buffer, kept, advanced c (s.trimmed i kept) i, hbuffer, hsub, rfl, rfl, rfl, rfl,
      Or.inr rfl⟩
  · exact ⟨i, buffer, kept, s.trimmed i kept, hbuffer, hsub, rfl, rfl, rfl, rfl, Or.inl rfl⟩

theorem receiveCnp_sameFlows {cnHead : CnHeader} {result : Nic × Option Packet}
    (h : s.receiveCnp c cnHead = some result) :
    s.SameFlows result.1 ∧ result.1.queue = s.queue := by
  unfold receiveCnp at h
  split at h
  · obtain rfl := Option.some.inj h
    exact ⟨⟨rfl, rfl, rfl⟩, rfl⟩
  · rw [Option.map_eq_some_iff] at h
    obtain ⟨i, -, rfl⟩ := h
    exact ⟨⟨rfl, rfl, rfl⟩, rfl⟩

/-- What an event other than a NACK, an ACK, a retransmission or a new packet does to flows. -/
theorem receivePause_cases (c : NicConfig) (s : Nic) (pauseh : PauseHeader) :
    ∃ t, s.SameFlows t ∧ t.queue = s.queue ∧
      (s.receivePause c pauseh = (t, none) ∨ s.receivePause c pauseh = dequeueAndTransmit c t) := by
  unfold receivePause
  split
  · exact ⟨s, ⟨rfl, rfl, rfl⟩, rfl, Or.inl rfl⟩
  · dsimp only
    split
    · refine ⟨{ s with
        paused := Function.update s.paused pauseh.qIndex true
        resumeEvt := Function.update s.resumeEvt pauseh.qIndex true }, ?_, rfl, Or.inl rfl⟩
      exact ⟨rfl, rfl, rfl⟩
    · refine ⟨{ s with
        paused := Function.update (Function.update s.paused pauseh.qIndex true) pauseh.qIndex false
        resumeEvt := Function.update s.resumeEvt pauseh.qIndex false }, ?_, rfl, Or.inr rfl⟩
      exact ⟨rfl, rfl, rfl⟩

/-! ## Sending -/

/-- After the search of `Send` the packet belongs to the flow with the index it found. -/
theorem inFlow_addFlow (hi : s.flowSlot p.sourcePort (sendClass p) = some i) :
    (s.addFlow c i p.sourcePort (sendClass p)).InFlow i p := by
  obtain ⟨⟨-, hfound⟩, -⟩ := flowSlot_eq_some hi
  unfold InFlow addFlow
  split
  next =>
    dsimp only
    rw [Function.update_self, Function.update_self]
    exact ⟨rfl, rfl⟩
  next hused =>
    rcases hfound with hunused | ⟨hport, hclass⟩
    · exact absurd hunused hused
    · exact ⟨hport.symm, hclass.symm⟩

theorem inFlow_addFlow_of_ne {port : UInt16} {qIndex : Fin qCnt} {j : Fin fCnt} (hj : j ≠ i)
    {p : Packet} : (s.addFlow c i port qIndex).InFlow j p ↔ s.InFlow j p := by
  unfold InFlow addFlow
  split
  · dsimp only
    rw [Function.update_of_ne hj, Function.update_of_ne hj]
  · rfl

theorem BuffersOwned.addFlow (h : s.BuffersOwned) (port : UInt16) (qIndex : Fin qCnt) :
    (s.addFlow c i port qIndex).BuffersOwned := by
  intro j buffer hbuffer
  by_cases hj : j = i
  · by_cases hunused : s.findexUdpportMap i = 0
    · -- a new flow has an empty buffer
      unfold Nic.addFlow at hbuffer
      rw [if_pos hunused, hj] at hbuffer
      dsimp only at hbuffer
      rw [Function.update_self] at hbuffer
      obtain rfl := Option.some.inj hbuffer
      exact ⟨Nat.zero_le _, fun p hp => by cases hp⟩
    · have hsame : s.addFlow c i port qIndex = s := if_neg hunused
      rw [hsame] at hbuffer ⊢
      exact h j buffer hbuffer
  · simp only [inFlow_addFlow_of_ne hj]
    refine h j buffer ?_
    unfold Nic.addFlow at hbuffer
    split at hbuffer
    · dsimp only at hbuffer
      rwa [Function.update_of_ne hj] at hbuffer
    · exact hbuffer

theorem bufferPacket_subset {buffer : DropTailQueue} (h : buffer.packets.length ≤ 8000)
    {p q : Packet} (hq : q ∈ (bufferPacket buffer p).packets) : q ∈ buffer.packets ∨ q = p := by
  rw [bufferPacket_packets h, List.mem_append, List.mem_singleton] at hq
  rcases hq with hq | hq
  · split at hq
    · exact Or.inl (List.mem_of_mem_tail hq)
    · exact Or.inl hq
  · exact Or.inr hq

theorem bufferPacket_length {buffer : DropTailQueue} (h : buffer.packets.length ≤ 8000)
    (p : Packet) : (bufferPacket buffer p).packets.length ≤ 8000 := by
  rw [bufferPacket_packets h, List.length_append, List.length_singleton]
  split
  · rw [List.length_tail]
    omega
  · omega

/-! ## Invariants of the events -/

section Handle

variable {event : Event} {result : Nic × Option Packet}

theorem BuffersOwned.transmit (h : t.BuffersOwned) :
    (dequeueAndTransmit c t).1.BuffersOwned :=
  (dequeueAndTransmit_sameFlows c t).buffersOwned h

/-- A buffer takes a packet of its flow. -/
theorem BuffersOwned.store (h : s.BuffersOwned) {buffer : DropTailQueue}
    (hbuffer : s.sendingBuffer i = some buffer) (hp : s.InFlow i p) (queue : BEgressQueue) :
    BuffersOwned { s with
      sendingBuffer := Function.update s.sendingBuffer i (some (bufferPacket buffer p))
      queue := queue } := by
  obtain ⟨hlength, howned⟩ := h i buffer hbuffer
  intro j other hother
  dsimp only at hother
  by_cases hj : j = i
  · rw [hj, Function.update_self] at hother
    obtain rfl := Option.some.inj hother
    rw [hj]
    refine ⟨bufferPacket_length hlength p, fun q hq => ?_⟩
    rcases bufferPacket_subset hlength hq with hq | rfl
    · exact howned q hq
    · exact hp
  · rw [Function.update_of_ne hj] at hother
    exact h j other hother

/-- A packet of the highest class goes to the control queue. -/
theorem send_of_control (hsend : s.send c p = some result)
    (hcontrol : c.qcnEnabled = true ∧ sendClass p = 7) : result = s.sendControl c p := by
  unfold Nic.send at hsend
  dsimp only at hsend
  rw [if_pos (by simpa using hcontrol)] at hsend
  exact (Option.some.inj hsend).symm

theorem BuffersOwned.send (h : s.BuffersOwned) (hsend : s.send c p = some result) :
    result.1.BuffersOwned := by
  by_cases hcontrol : c.qcnEnabled = true ∧ sendClass p = 7
  · obtain rfl := send_of_control hsend hcontrol
    exact BuffersOwned.transmit h
  · obtain ⟨i, buffer, hi, hbuffer, rfl⟩ := send_eq_some hsend hcontrol
    have hadded := h.addFlow (c := c) (i := i) p.sourcePort (sendClass p)
    exact (hadded.store hbuffer (inFlow_addFlow hi) _).transmit

theorem BuffersOwned.handle (h : s.BuffersOwned) (hhandle : s.handle c event = some result) :
    result.1.BuffersOwned := by
  cases event with
  | send p => exact h.send hhandle
  | control p =>
      obtain rfl := Option.some.inj hhandle
      exact BuffersOwned.transmit h
  | transmitComplete =>
      obtain rfl := Option.some.inj hhandle
      exact BuffersOwned.transmit h
  | nextSend =>
      obtain rfl := Option.some.inj hhandle
      exact BuffersOwned.transmit h
  | retransmit findex =>
      obtain ⟨buffer, hbuffer, rfl⟩ := retransmit_eq_some hhandle
      have hlength := (h findex buffer hbuffer).1
      refine BuffersOwned.transmit (h.cut rfl rfl hbuffer (List.Sublist.refl _) ?_)
      exact recover_sendingBuffer hlength
  | feedback f =>
      cases f with
      | ack qbbh =>
          obtain ⟨i, buffer, kept, t, hbuffer, hsub, hports, hclasses, hbuffers, -, hresult⟩ :=
            receiveAck_cuts hhandle
          have ht := h.cut hports hclasses hbuffer hsub hbuffers
          rcases hresult with rfl | rfl
          · exact ht
          · exact ht.transmit
      | nack qbbh =>
          obtain ⟨i, buffer, seq, -, hbuffer, -, -, rfl⟩ := receiveNack_recovers hhandle
          have hsub : (keptFrom buffer seq).packets.Sublist buffer.packets :=
            List.dropWhile_sublist _
          have hlength := hsub.length_le.trans (h i buffer hbuffer).1
          have hbuffers := recover_sendingBuffer (s := s) (i := i) hlength
          split
          · exact BuffersOwned.transmit (h.cut rfl rfl hbuffer hsub hbuffers)
          · exact h.cut rfl rfl hbuffer hsub hbuffers
      | cnp cnHead => exact (receiveCnp_sameFlows hhandle).1.buffersOwned h
  | pause pauseh =>
      obtain ⟨t, hsame, -, hresult⟩ := receivePause_cases c s pauseh
      rw [← Option.some.inj hhandle]
      rcases hresult with hresult | hresult
      · rw [hresult]
        exact hsame.buffersOwned h
      · rw [hresult]
        exact (hsame.buffersOwned h).transmit
  | pauseFinish qIndex =>
      obtain rfl := Option.some.inj hhandle
      exact BuffersOwned.transmit h
  | rateTimer fIndex =>
      obtain rfl := Option.some.inj hhandle
      exact h
  | alphaTimer fIndex =>
      obtain rfl := Option.some.inj hhandle
      exact h
  | advance time =>
      obtain rfl := Option.some.inj hhandle
      exact h

/-- Packets that come from the FIFO or the buffer of their index are still of its flow. -/
theorem QueuesOwned.shrink (h : s.QueuesOwned) (hbuffersOwned : s.BuffersOwned)
    (hports : t.findexUdpportMap = s.findexUdpportMap)
    (hclasses : t.findexQindexMap = s.findexQindexMap)
    (hqueues : ∀ j, ∀ p ∈ (t.queue.queues j).packets, p ∈ (s.queue.queues j).packets ∨
      ∃ buffer, s.sendingBuffer j = some buffer ∧ p ∈ buffer.packets)
    (hbuffers : ∀ j buffer, t.sendingBuffer j = some buffer → ∀ p ∈ buffer.packets,
      ∃ larger, s.sendingBuffer j = some larger ∧ p ∈ larger.packets) : t.QueuesOwned where
  queues := by
    intro j hj p hp
    have hflow : t.InFlow j p ↔ s.InFlow j p := by
      unfold InFlow
      rw [hports, hclasses]
    rw [hflow]
    rcases hqueues j p hp with hp | ⟨buffer, hbuffer, hp⟩
    · exact h.queues j hj p hp
    · exact ⟨(hbuffersOwned j buffer hbuffer).2 p hp, h.buffers j buffer hbuffer p hp⟩
  buffers := by
    intro j buffer hbuffer p hp
    obtain ⟨larger, hlarger, hp⟩ := hbuffers j buffer hbuffer p hp
    exact h.buffers j larger hlarger p hp

theorem QueuesOwned.transmit (h : t.QueuesOwned) (hbuffersOwned : t.BuffersOwned) :
    (dequeueAndTransmit c t).1.QueuesOwned := by
  obtain ⟨hports, hclasses, hbuffers⟩ := dequeueAndTransmit_sameFlows c t
  refine h.shrink hbuffersOwned hports hclasses (fun j p hp => Or.inl (mem_of_mem_sent hp)) ?_
  intro j buffer hbuffer p hp
  rw [hbuffers] at hbuffer
  exact ⟨buffer, hbuffer, hp⟩

/-- What is in a buffer once one of them has been cut was there before. -/
theorem mem_of_mem_cut {buffer kept : DropTailQueue} (hbuffer : s.sendingBuffer i = some buffer)
    (hsub : kept.packets.Sublist buffer.packets) {j : Fin fCnt} {other : DropTailQueue}
    (hother : Function.update s.sendingBuffer i (some kept) j = some other) {p : Packet}
    (hp : p ∈ other.packets) : ∃ larger, s.sendingBuffer j = some larger ∧ p ∈ larger.packets := by
  by_cases hj : j = i
  · rw [hj, Function.update_self] at hother
    obtain rfl := Option.some.inj hother
    rw [hj]
    exact ⟨buffer, hbuffer, hsub.subset hp⟩
  · rw [Function.update_of_ne hj] at hother
    exact ⟨other, hother, hp⟩

theorem QueuesOwned.recover (h : s.QueuesOwned) (hbuffersOwned : s.BuffersOwned)
    {buffer kept : DropTailQueue} (hbuffer : s.sendingBuffer i = some buffer)
    (hsub : kept.packets.Sublist buffer.packets) : (s.recover i kept).QueuesOwned := by
  have hlength := hsub.length_le.trans (hbuffersOwned i buffer hbuffer).1
  refine h.shrink hbuffersOwned rfl rfl ?_ ?_
  · intro j p hp
    rw [recover_queues hlength] at hp
    by_cases hj : j = i
    · rw [hj, Function.update_self] at hp
      rw [hj]
      exact Or.inr ⟨buffer, hbuffer, hsub.subset hp⟩
    · rw [Function.update_of_ne hj] at hp
      exact Or.inl hp
  · intro j other hother p hp
    rw [recover_sendingBuffer hlength] at hother
    exact mem_of_mem_cut hbuffer hsub hother hp

/-- The FIFO of an unused index is empty. -/
theorem QueuesOwned.empty_of_unused (h : s.QueuesOwned) (hi : i ≠ 0)
    (hunused : s.findexUdpportMap i = 0) : (s.queue.queues i).packets = [] := by
  apply List.eq_nil_iff_forall_not_mem.mpr
  intro p hp
  obtain ⟨⟨hport, -⟩, hne⟩ := h.queues i hi p hp
  exact hne (hport.trans hunused)

theorem QueuesOwned.addFlow (h : s.QueuesOwned) (hi : i ≠ 0) (port : UInt16) (qIndex : Fin qCnt) :
    (s.addFlow c i port qIndex).QueuesOwned := by
  by_cases hunused : s.findexUdpportMap i = 0
  · have hempty := h.empty_of_unused hi hunused
    have hqueues : (s.addFlow c i port qIndex).queue.queues = s.queue.queues := by
      unfold Nic.addFlow
      rw [if_pos hunused]
      rfl
    refine ⟨fun j hj p hp => ?_, fun j buffer hbuffer p hp => ?_⟩
    · rw [hqueues] at hp
      by_cases hji : j = i
      · rw [hji, hempty] at hp
        cases hp
      · rw [inFlow_addFlow_of_ne hji]
        exact h.queues j hj p hp
    · unfold Nic.addFlow at hbuffer
      rw [if_pos hunused] at hbuffer
      dsimp only at hbuffer
      by_cases hji : j = i
      · rw [hji, Function.update_self] at hbuffer
        obtain rfl := Option.some.inj hbuffer
        cases hp
      · rw [Function.update_of_ne hji] at hbuffer
        exact h.buffers j buffer hbuffer p hp
  · have hsame : s.addFlow c i port qIndex = s := if_neg hunused
    rw [hsame]
    exact h

theorem mem_enqueue {q : BEgressQueue} {p x : Packet} {i j : Fin fCnt}
    (hx : x ∈ ((q.enqueue p i).queues j).packets) :
    x ∈ (q.queues j).packets ∨ j = i ∧ x = p := by
  by_cases hj : j = i
  · obtain ⟨taken, hpackets, -⟩ := q.enqueue_taken p i
    rw [hj, hpackets] at hx
    rw [hj]
    split at hx
    · rw [List.mem_append, List.mem_singleton] at hx
      exact hx.imp_right fun heq => ⟨rfl, heq⟩
    · exact Or.inl hx
  · rw [BEgressQueue.enqueue_queues_of_ne _ _ _ hj] at hx
    exact Or.inl hx

/-- A control frame goes to FIFO 0 of a QCN NIC. -/
theorem QueuesOwned.control (hqcn : c.qcnEnabled = true) (h : s.QueuesOwned)
    (hbuffersOwned : s.BuffersOwned) (p : Packet) : (s.sendControl c p).1.QueuesOwned := by
  unfold sendControl
  rw [if_pos hqcn]
  refine QueuesOwned.transmit ⟨fun j hj q hq => ?_, h.buffers⟩ hbuffersOwned
  rcases mem_enqueue hq with hq | ⟨hzero, -⟩
  · exact h.queues j hj q hq
  · exact absurd hzero hj

theorem QueuesOwned.send (hqcn : c.qcnEnabled = true) (h : s.QueuesOwned)
    (hbuffersOwned : s.BuffersOwned) (hport : p.sourcePort ≠ 0)
    (hsend : s.send c p = some result) : result.1.QueuesOwned := by
  by_cases hcontrol : c.qcnEnabled = true ∧ sendClass p = 7
  · obtain rfl := send_of_control hsend hcontrol
    exact h.control hqcn hbuffersOwned p
  · obtain ⟨i, buffer, hi, hbuffer, rfl⟩ := send_eq_some hsend hcontrol
    have hne := (flowSlot_eq_some hi).1.1
    have hadded := h.addFlow (c := c) hne p.sourcePort (sendClass p)
    have hbuffersAdded := hbuffersOwned.addFlow (c := c) (i := i) p.sourcePort (sendClass p)
    have hlength := (hbuffersAdded i buffer hbuffer).1
    have hflow := inFlow_addFlow (c := c) hi
    refine QueuesOwned.transmit ⟨fun j hj q hq => ?_, fun j other hother q hq => ?_⟩
      (hbuffersAdded.store hbuffer hflow _)
    · rw [if_pos hqcn] at hq
      rcases mem_enqueue hq with hq | ⟨rfl, rfl⟩
      · exact hadded.queues j hj q hq
      · exact ⟨hflow, hport⟩
    · dsimp only at hother
      by_cases hj : j = i
      · rw [hj, Function.update_self] at hother
        obtain rfl := Option.some.inj hother
        rcases bufferPacket_subset hlength hq with hq | rfl
        · exact hadded.buffers i buffer hbuffer q hq
        · exact hport
      · rw [Function.update_of_ne hj] at hother
        exact hadded.buffers j other hother q hq

/-- In a QCN NIC every FIFO belongs to one flow. -/
theorem QueuesOwned.handle (hqcn : c.qcnEnabled = true) (h : s.QueuesOwned)
    (hbuffersOwned : s.BuffersOwned) (hport : PortGiven event)
    (hhandle : s.handle c event = some result) : result.1.QueuesOwned := by
  have hsame : ∀ t : Nic, s.SameFlows t → t.queue = s.queue → t.QueuesOwned := by
    intro t hsame hqueue
    refine h.shrink hbuffersOwned hsame.ports hsame.classes (fun j p hp => Or.inl ?_) ?_
    · rwa [hqueue] at hp
    · intro j buffer hbuffer p hp
      rw [hsame.buffers] at hbuffer
      exact ⟨buffer, hbuffer, hp⟩
  cases event with
  | send p => exact h.send hqcn hbuffersOwned hport hhandle
  | control p =>
      obtain rfl := Option.some.inj hhandle
      exact h.control hqcn hbuffersOwned p
  | transmitComplete =>
      obtain rfl := Option.some.inj hhandle
      exact QueuesOwned.transmit (hsame _ ⟨rfl, rfl, rfl⟩ rfl) hbuffersOwned
  | nextSend =>
      obtain rfl := Option.some.inj hhandle
      exact QueuesOwned.transmit (hsame _ ⟨rfl, rfl, rfl⟩ rfl) hbuffersOwned
  | retransmit findex =>
      obtain ⟨buffer, hbuffer, rfl⟩ := retransmit_eq_some hhandle
      have hlength := (hbuffersOwned findex buffer hbuffer).1
      have hrecovered := h.recover hbuffersOwned hbuffer (List.Sublist.refl _)
      refine QueuesOwned.transmit ⟨hrecovered.queues, hrecovered.buffers⟩ ?_
      exact hbuffersOwned.cut rfl rfl hbuffer (List.Sublist.refl _)
        (recover_sendingBuffer hlength)
  | feedback f =>
      cases f with
      | ack qbbh =>
          obtain ⟨i, buffer, kept, t, hbuffer, hsub, hports, hclasses, hbuffers, hqueue, hresult⟩ :=
            receiveAck_cuts hhandle
          have howned := hbuffersOwned.cut hports hclasses hbuffer hsub hbuffers
          have ht : t.QueuesOwned := by
            refine h.shrink hbuffersOwned hports hclasses (fun j p hp => Or.inl ?_) ?_
            · rwa [hqueue] at hp
            · intro j other hother p hp
              rw [hbuffers] at hother
              exact mem_of_mem_cut hbuffer hsub hother hp
          rcases hresult with rfl | rfl
          · exact ht
          · exact ht.transmit howned
      | nack qbbh =>
          obtain ⟨i, buffer, seq, -, hbuffer, -, -, rfl⟩ := receiveNack_recovers hhandle
          have hsub : (keptFrom buffer seq).packets.Sublist buffer.packets :=
            List.dropWhile_sublist _
          have hlength := hsub.length_le.trans (hbuffersOwned i buffer hbuffer).1
          have hrecovered := h.recover hbuffersOwned hbuffer hsub
          split
          · refine QueuesOwned.transmit ⟨hrecovered.queues, hrecovered.buffers⟩ ?_
            exact hbuffersOwned.cut rfl rfl hbuffer hsub (recover_sendingBuffer hlength)
          · exact hrecovered
      | cnp cnHead =>
          obtain ⟨hflows, hqueue⟩ := receiveCnp_sameFlows hhandle
          exact hsame _ hflows hqueue
  | pause pauseh =>
      obtain ⟨t, hflows, hqueue, hresult⟩ := receivePause_cases c s pauseh
      have ht := hsame t hflows hqueue
      rw [← Option.some.inj hhandle]
      rcases hresult with hresult | hresult
      · rw [hresult]
        exact ht
      · rw [hresult]
        exact ht.transmit (hflows.buffersOwned hbuffersOwned)
  | pauseFinish qIndex =>
      obtain rfl := Option.some.inj hhandle
      exact QueuesOwned.transmit (hsame _ ⟨rfl, rfl, rfl⟩ rfl) hbuffersOwned
  | rateTimer fIndex =>
      obtain rfl := Option.some.inj hhandle
      exact hsame _ ⟨rfl, rfl, rfl⟩ rfl
  | alphaTimer fIndex =>
      obtain rfl := Option.some.inj hhandle
      exact hsame _ ⟨rfl, rfl, rfl⟩ rfl
  | advance time =>
      obtain rfl := Option.some.inj hhandle
      exact hsame _ ⟨rfl, rfl, rfl⟩ rfl

end Handle

/-! ## NACKs of a run -/

/-- The feedback search never returns index 0. -/
theorem findFlow_ne_zero {port : UInt16} {qIndex : Fin qCnt} (h : s.findFlow port qIndex = some i) :
    i ≠ 0 := by
  have hfound := List.find?_some h
  simp only [Bool.and_eq_true] at hfound
  simpa using hfound.1.1.1

/-- In every run, in either mode, a NACK leaves the other flows alone exactly if the FIFO it
refills holds packets of its own flow only. At a QCN NIC that is always the case, provided that
no packet is sent from port 0. -/
theorem nack_frames_iff (c : NicConfig) (maxBytes : ℚ) (events : List Event) :
    EachStep (step c) (fun s event next => s.1.NackFrames event next ↔ s.1.NackOwns event)
        (start c maxBytes, none) events ∧
      (c.qcnEnabled = true → (∀ event ∈ events, PortGiven event) →
        EachStep (step c) (fun s event _ => s.1.NackOwns event) (start c maxBytes, none)
          events) := by
  have hbuffers : Throughout (step c) (fun s => s.1.BuffersOwned) (start c maxBytes, none)
      events := by
    refine throughout_of_invariant (fun s event next h hstep => ?_) ?_ events
    · exact BuffersOwned.handle h hstep
    · exact start_buffersOwned c maxBytes
  constructor
  · intro done event rest s next heq hrun hstep
    have howned := hbuffers done (event :: rest) s heq hrun
    have hiff : ∀ qbbh i, event = .feedback (.nack qbbh) →
        s.1.findFlow qbbh.port qbbh.pg = some i →
          ((s.1.FramesQueues i next ∧ s.1.FramesBuffers i qbbh.seq next) ↔ s.1.OwnsQueue i) := by
      rintro qbbh i rfl hi
      rw [receiveNack_framesQueues_iff howned hstep hi]
      exact and_iff_left (receiveNack_framesBuffers howned hstep hi)
    constructor
    · intro hframes qbbh i hevent hi
      exact (hiff qbbh i hevent hi).mp (hframes qbbh i hevent hi)
    · intro howns qbbh i hevent hi
      exact (hiff qbbh i hevent hi).mpr (howns qbbh i hevent hi)
  · intro hqcn hports
    have hqueues : Throughout (step c) (fun s => s.1.BuffersOwned ∧ s.1.QueuesOwned)
        (start c maxBytes, none) events := by
      refine throughout_of_eachStep (D := fun _ event _ => PortGiven event)
        (fun s event next h hstep hport => ?_) ?_ ?_
      · exact ⟨h.1.handle hstep, h.2.handle hqcn h.1 hport hstep⟩
      · exact ⟨start_buffersOwned c maxBytes, start_queuesOwned c maxBytes⟩
      · intro done event rest s next heq _ _
        apply hports
        rw [heq]
        exact List.mem_append_right _ List.mem_cons_self
    refine hqueues.eachStep ?_
    rintro s event next ⟨-, hqueues⟩ qbbh i - hi p hp
    exact (hqueues.queues i (findFlow_ne_zero hi) p hp).1

/-- A packet of class 1 from port 2, which gets index 2. -/
def classOne : Packet := { Packet.sample 0 with sourcePort := 2, pg := 1 }

/-- Flow 1 has class 3. A packet of flow 2 waits when the first packet of flow 1 is NACKed. -/
def nackWhileWaiting : List Event :=
  [.send (.sample 0), .send classOne, .feedback (.nack ⟨3, 0, 1⟩)]

theorem nack_frames_iff_run :
    EachStep (step (Link.goBackN 1 false)) (fun s event next => s.1.NackFrames event next)
      (start (Link.goBackN 1 false) 1000000, none) nackWhileWaiting := by
  obtain ⟨hiff, howns⟩ := nack_frames_iff (Link.goBackN 1 false) 1000000 nackWhileWaiting
  have hports : ∀ event ∈ nackWhileWaiting, PortGiven event := by
    intro event hevent
    simp only [nackWhileWaiting, List.mem_cons, List.not_mem_nil, or_false] at hevent
    rcases hevent with rfl | rfl | rfl
    · exact fun h => absurd h (by decide)
    · exact fun h => absurd h (by decide)
    · trivial
  intro done event rest s next heq hrun hstep
  exact (hiff done event rest s next heq hrun hstep).mpr
    (howns rfl hports done event rest s next heq hrun hstep)

/-- Without QCN, FIFO 1 is the one of class 1, so the packet of flow 2 is lost. -/
theorem nack_drops_otherClass :
    ¬ EachStep (step { Link.goBackN 1 false with qcnEnabled := false })
      (fun s event next => s.1.NackFrames event next)
      (start { Link.goBackN 1 false with qcnEnabled := false } 1000000, none)
      nackWhileWaiting := by
  intro h
  have hrun : (run (step { Link.goBackN 1 false with qcnEnabled := false })
      (start { Link.goBackN 1 false with qcnEnabled := false } 1000000, none)
      (nackWhileWaiting.take 2)).any (fun s =>
        (step { Link.goBackN 1 false with qcnEnabled := false } s
          (.feedback (.nack ⟨3, 0, 1⟩))).any fun next =>
            s.1.findFlow 1 3 = some 1 ∧ next.2.isNone ∧
              (s.1.others 1 (s.1.queue.queues 1).packets).length = 1 ∧
                (s.1.others 1 (next.1.queue.queues 1).packets).length = 0) = true := by
    decide +kernel
  rw [Option.any_eq_true] at hrun
  obtain ⟨s, hrun, hnext⟩ := hrun
  rw [Option.any_eq_true] at hnext
  obtain ⟨next, hstep, hcheck⟩ := hnext
  obtain ⟨hfind, hwire, hbefore, hafter⟩ := of_decide_eq_true hcheck
  obtain ⟨hframes, -⟩ := h _ _ [] s next rfl hrun hstep ⟨3, 0, 1⟩ 1 rfl hfind
  have hself := congrArg List.length (hframes 1)
  have hsent : sentFrom next 1 = [] := by
    unfold sentFrom
    rw [Option.isNone_iff_eq_none.mp hwire, Option.toList_none, ite_self]
  rw [hsent, List.nil_append, hbefore, hafter] at hself
  cases hself

end Nic

end Ns3Rdma
