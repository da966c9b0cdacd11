import Ns3Rdma.Nic.Retention

/-! # One window at a time

A flow of a NIC that waits for ACKs is gated only by the time of its next transmission and
by what its queue holds. The queue runs from the next packet to the last one sent, and the
flow waits exactly when the next packet is the milestone. This needs every packet of the flow
to enter the queue: `Send` does not notice when the egress queue refuses one. -/

namespace Ns3Rdma

open StepSystem

/-! ## The flow -/

namespace Flow

/-- The queue is a window that does not reach beyond the milestone before the flow waits, and
neither the buffer, the receiver nor the packets in flight are beyond it. -/
structure StopAndWait (c : NicConfig) (f : Flow) : Prop extends Retained f where
  bound : f.sent + c.chunk.toNat < 2 ^ 31
  milestone_dvd : c.chunk.toNat ∣ f.milestone.toNat
  milestone_le : f.milestone.toNat ≤ f.sent + c.chunk.toNat
  head_lt : f.sent < f.milestone.toNat + f.buffer.length
  queue : ∃ first, Consecutive UInt32.toNat f.queue first f.sent ∧
    first ≤ f.milestone.toNat ∧ (f.waiting = true ↔ first = f.milestone.toNat)
  expected_le_milestone : f.expected.toNat ≤ f.milestone.toNat
  data_lt_milestone : ∀ n ∈ f.data, n.toNat < f.milestone.toNat
  nacks_lt_milestone : ∀ n ∈ f.nacks, n.toNat < f.milestone.toNat
  wire_lt : ∀ n, f.wire = some n → n.toNat < f.milestone.toNat

/-- The queue takes the packet, the buffer is not full, and the numbers fit into a signed
variable. -/
def Accepted (c : NicConfig) (f : Flow) (taken : Bool) : Prop :=
  taken = true ∧ f.buffer.length < 8000 ∧ f.sent + 1 + c.chunk.toNat < 2 ^ 31

variable {c : NicConfig} {f g : Flow}

theorem Accepted.dropsReceived {taken : Bool} (h : f.Accepted c taken) : f.DropsReceived taken := by
  intro hfull
  have hshort := h.2.1
  omega

theorem signed_of_lt {x : UInt32} (h : x.toNat < 2 ^ 31) : Nic.signed x = x.toNat := by
  unfold Nic.signed
  rw [BitVec.toInt_eq_toNat_of_lt]
  · rfl
  · change 2 * x.toNat < 2 ^ 32
    omega

theorem start_stopAndWait (hwaitAck : c.waitAck = true) (hchunk : 0 < c.chunk.toNat)
    (hbound : c.chunk.toNat < 2 ^ 31) : (start c).StopAndWait c := by
  have hmilestone : (start c).milestone = c.chunk := if_pos hwaitAck
  refine
    { start_retained c with
      bound := ?_, milestone_dvd := ?_, milestone_le := ?_, head_lt := ?_, queue := ?_
      expected_le_milestone := ?_, data_lt_milestone := ?_, nacks_lt_milestone := ?_
      wire_lt := ?_ }
  · exact (Nat.zero_add _).trans_lt hbound
  · rw [hmilestone]
  · rw [hmilestone]
    exact Nat.le_add_left _ _
  · rw [hmilestone]
    exact hchunk
  · refine ⟨0, Consecutive.nil 0, Nat.zero_le _, ?_⟩
    rw [hmilestone]
    exact iff_of_false Bool.false_ne_true (Nat.ne_of_lt hchunk)
  · exact Nat.zero_le _
  · intro n hn
    cases hn
  · intro n hn
    cases hn
  · intro n hn
    cases hn

theorem StopAndWait.milestone_pos (h : f.StopAndWait c) : 0 < f.milestone.toNat := by
  obtain ⟨head, -, hbuffer⟩ := h.buffer
  have hlength := hbuffer.length
  have hhead := h.head_lt
  omega

/-- The first number of the buffer is below the milestone. -/
theorem StopAndWait.first_lt (h : f.StopAndWait c) {head : Nat}
    (hbuffer : Consecutive UInt32.toNat f.buffer head f.sent) : head < f.milestone.toNat := by
  have hlength := hbuffer.length
  have hhead := h.head_lt
  have hle := hbuffer.1
  omega

theorem StopAndWait.milestone_lt (h : f.StopAndWait c) : f.milestone.toNat < 2 ^ 31 := by
  have hle := h.milestone_le
  have hbound := h.bound
  omega

/-- An ACK reaches the milestone, or does not advance the flow. -/
theorem StopAndWait.advances_iff (h : f.StopAndWait c) (hwaitAck : c.waitAck = true)
    {seq : UInt32} (hseq : seq ∈ f.acks) :
    f.advances c seq = true ↔ seq.toNat = f.milestone.toNat := by
  have hle := h.acks_le seq hseq
  have hexpected := h.expected_le_milestone
  have hmilestone := h.milestone_lt
  unfold advances
  rw [hwaitAck, Bool.true_and, decide_eq_true_eq, signed_of_lt (by omega),
    signed_of_lt (by omega)]
  omega

theorem StopAndWait.transmit (h : f.StopAndWait c) (hpatient : c.Patient) {seq : UInt32}
    {rest : List UInt32} (hqueue : f.queue = seq :: rest)
    (hwaiting : c.Patient → f.waiting = false) (hretained : Retained
      { f with
        queue := rest
        waiting := f.closesWindow c seq || f.waiting
        data := f.data ++ [seq]
        wire := some seq }) :
    StopAndWait c
      { f with
        queue := rest
        waiting := f.closesWindow c seq || f.waiting
        data := f.data ++ [seq]
        wire := some seq } := by
  obtain ⟨first, hconsecutive, hfirst, hiff⟩ := h.queue
  rw [hqueue, Consecutive.cons_iff] at hconsecutive
  obtain ⟨hseq, hlt, hrest⟩ := hconsecutive
  have hidle := hwaiting hpatient
  rw [hidle] at hiff
  have hne : first ≠ f.milestone.toNat := fun heq => Bool.false_ne_true (hiff.mpr heq)
  have hbelow : seq.toNat < f.milestone.toNat := by omega
  have hpos := h.milestone_pos
  -- the packet before the milestone closes the window
  have hcloses : f.closesWindow c seq = true ↔ first + 1 = f.milestone.toNat := by
    have hone : (f.milestone - 1).toNat = f.milestone.toNat - 1 :=
      UInt32.toNat_sub_of_toNat_le hpos
    unfold closesWindow
    rw [hpatient.1, Bool.true_and, decide_eq_true_eq, UInt32.le_iff_toNat_le, hone]
    omega
  refine
    { hretained, h with
      queue := ⟨first + 1, hrest, ?_, ?_⟩, data_lt_milestone := ?_, wire_lt := ?_ }
  · dsimp only
    omega
  · rw [hidle, Bool.or_false]
    exact hcloses
  · intro n hn
    rcases List.mem_append.mp hn with hn | hn
    · exact h.data_lt_milestone n hn
    · obtain rfl := List.mem_singleton.mp hn
      exact hbelow
  · intro n hn
    obtain rfl := Option.some.inj hn
    exact hbelow

/-- An ACK that reaches the milestone: the whole window was received, and the next one begins. -/
theorem StopAndWait.ack_window (h : f.StopAndWait c) (hwaitAck : c.waitAck = true)
    (hchunk : 0 < c.chunk.toNat) {seq : UInt32} (hseq : seq ∈ f.acks)
    (hreached : f.advances c seq = true) (hretained : Retained
      { f with
        buffer := if c.ackInterval = 0 then f.buffer else f.kept seq
        waiting := false
        milestone := f.milestone + c.chunk }) :
    StopAndWait c
      { f with
        buffer := if c.ackInterval = 0 then f.buffer else f.kept seq
        waiting := false
        milestone := f.milestone + c.chunk } := by
  obtain ⟨first, hqueue, hfirst, -⟩ := h.queue
  obtain ⟨head, -, hbuffer⟩ := h.buffer
  have hbelow := h.first_lt hbuffer
  have hexpected := h.expected_le
  have hexpected' := h.expected_le_milestone
  have hle := h.acks_le seq hseq
  have hmilestone := h.milestone_le
  have hbound := h.bound
  have hconsecutive := kept_consecutive hbuffer seq
  have hwindow := hconsecutive.1
  have hlength := hconsecutive.length
  have hnumber := (h.advances_iff hwaitAck hseq).mp hreached
  have hnext : (f.milestone + c.chunk).toNat = f.milestone.toNat + c.chunk.toNat :=
    UInt32.toNat_add_of_lt (by omega)
  refine
    { hretained, h with
      milestone_dvd := ?_, milestone_le := ?_, head_lt := ?_
      queue := ⟨first, hqueue, ?_, ?_⟩, expected_le_milestone := ?_
      data_lt_milestone := ?_, nacks_lt_milestone := ?_, wire_lt := ?_ }
  · rw [hnext]
    exact Nat.dvd_add h.milestone_dvd (Nat.dvd_refl _)
  · rw [hnext]
    dsimp only
    omega
  · rw [hnext]
    dsimp only
    have hlt := h.head_lt
    split
    · omega
    · omega
  · rw [hnext]
    omega
  · rw [hnext]
    refine iff_of_false Bool.false_ne_true ?_
    omega
  · rw [hnext]
    dsimp only
    omega
  · intro n hn
    rw [hnext]
    exact Nat.lt_add_right _ (h.data_lt_milestone n hn)
  · intro n hn
    rw [hnext]
    exact Nat.lt_add_right _ (h.nacks_lt_milestone n hn)
  · intro n hn
    rw [hnext]
    exact Nat.lt_add_right _ (h.wire_lt n hn)

/-- An ACK inside the window only frees packets of the buffer. -/
theorem StopAndWait.ack_inside (h : f.StopAndWait c) (hwaitAck : c.waitAck = true) {seq : UInt32}
    (hseq : seq ∈ f.acks) (hnot : ¬ f.advances c seq = true) (hretained : Retained
      { f with buffer := if c.ackInterval = 0 then f.buffer else f.kept seq }) :
    StopAndWait c { f with buffer := if c.ackInterval = 0 then f.buffer else f.kept seq } := by
  obtain ⟨head, -, hbuffer⟩ := h.buffer
  have hbelow := h.first_lt hbuffer
  have hexpected := h.expected_le
  have hexpected' := h.expected_le_milestone
  have hle := h.acks_le seq hseq
  have hlength := (kept_consecutive hbuffer seq).length
  have hlt : seq.toNat < f.milestone.toNat := by
    have hne : seq.toNat ≠ f.milestone.toNat := fun heq =>
      hnot ((h.advances_iff hwaitAck hseq).mpr heq)
    omega
  refine { hretained, h with head_lt := ?_ }
  dsimp only
  split
  · exact h.head_lt
  · omega

theorem StopAndWait.step (hpatient : c.Patient) (hchunk : 0 < c.chunk.toNat)
    (h : f.StopAndWait c)
    (hstep : Step c (Accepted c) f g) : g.StopAndWait c := by
  have hretained := h.toRetained.step (hstep.mono fun f taken h => h.dropsReceived)
  have hwaitAck := hpatient.1
  obtain ⟨first, hqueue, hfirst, hiff⟩ := h.queue
  obtain ⟨head, hhead, hbuffer⟩ := h.buffer
  have hbelow := h.first_lt hbuffer
  cases hstep with
  | begin data acks nacks hdata hacks hnacks =>
      exact
        { hretained, h with
          data_lt_milestone := fun n hn => h.data_lt_milestone n (hdata hn)
          nacks_lt_milestone := fun n hn => h.nacks_lt_milestone n (hnacks hn)
          wire_lt := fun n hn => by cases hn }
  | send seq taken hseq hsent hadmits =>
      obtain ⟨rfl, hshort, hbound⟩ := hadmits
      have hle := h.milestone_le
      have hlt := h.head_lt
      refine
        { hretained, h with
          bound := hbound, milestone_le := ?_, head_lt := ?_
          queue := ⟨first, hqueue.append_singleton hseq, hfirst, hiff⟩ }
      · dsimp only
        omega
      · have hne : f.buffer.length ≠ 8000 := Nat.ne_of_lt hshort
        dsimp only
        rw [buffered, if_neg hne, List.length_append, List.length_singleton]
        omega
  | transmit seq rest hrest hwaiting =>
      exact h.transmit hpatient hrest hwaiting hretained
  | retransmit hwaiting =>
      refine { hretained, h with queue := ⟨head, hbuffer, Nat.le_of_lt hbelow, ?_⟩ }
      exact iff_of_false Bool.false_ne_true (Nat.ne_of_lt hbelow)
  | nack seq hseq hkept =>
      have hconsecutive := kept_consecutive hbuffer seq
      have hlt := h.nacks_lt_milestone seq hseq
      have hlength := hconsecutive.length
      have hle := hconsecutive.1
      refine
        { hretained, h with
          head_lt := ?_, queue := ⟨_, hconsecutive, ?_, ?_⟩ }
      · dsimp only
        omega
      · dsimp only
        omega
      · rw [hwaitAck, Bool.not_true, Bool.false_and]
        refine iff_of_false Bool.false_ne_true ?_
        dsimp only
        omega
  | ack seq hseq =>
      by_cases hreached : f.advances c seq = true
      · simp only [hreached, if_true] at hretained ⊢
        exact h.ack_window hwaitAck hchunk hseq hreached hretained
      · simp only [hreached, if_false, Bool.false_eq_true] at hretained ⊢
        exact h.ack_inside hwaitAck hseq hreached hretained
  | receive seq acks nacks hseq hacks hnacks =>
      have hlt := h.data_lt_milestone seq hseq
      refine { hretained, h with expected_le_milestone := ?_, nacks_lt_milestone := ?_ }
      · dsimp only
        split
        next heq =>
          have hfits := h.milestone_lt
          rw [heq] at hlt
          rw [UInt32.toNat_add_of_lt (by rw [UInt32.toNat_one]; omega)]
          exact hlt
        next => exact h.expected_le_milestone
      · intro n hn
        rcases List.mem_append.mp hn with hn | hn
        · exact h.nacks_lt_milestone n hn
        · obtain ⟨hexpected, rfl⟩ := hnacks n hn
          rw [UInt32.lt_iff_toNat_lt] at hexpected
          exact hexpected.trans hlt

end Flow

/-! ## The link -/

/-- A QCN NIC in go-back-N mode waits for an ACK of every chunk. Its timer expires before
32767 seconds. -/
structure NicConfig.WaitsPerChunk (c : NicConfig) : Prop where
  qcnEnabled : c.qcnEnabled = true
  goBackN : c.backto0 = false
  patient : c.Patient
  chunk_pos : 0 < c.chunk.toNat
  chunk_lt : c.chunk.toNat < 2 ^ 31

namespace Link

variable (c : NicConfig) (k : FlowKey)

/-- The packet of the flow that was put on the wire is below the milestone. -/
def WindowRespected (s : Link) : Prop :=
  ∀ p i, s.wire = some p → k.Owns p → s.findex k = some i → p.seq < s.nic.milestoneTx i

/-- The queues take the packet of the flow, and fewer than 8000 packets are buffered. The
numbers stay below 2^31. -/
def Accepts (s : Link) (event : Event) : Prop :=
  ∀ p, event = .send p → k.Owns p →
    s.HasRoom k p ∧ (s.bufferOf k).length < 8000 ∧ s.sent + 1 + c.chunk.toNat < 2 ^ 31

variable {c k} {s next : Link} {event : Event}

theorem Accepts.admits (h : s.Accepts c k event) : s.Admits c k (Flow.Accepted c) event := by
  intro p hevent howns taken htaken
  obtain ⟨hroom, hshort, hbound⟩ := h p hevent howns
  refine ⟨htaken hroom, ?_, hbound⟩
  change ((s.bufferOf k).map Packet.seq).length < 8000
  rwa [List.length_map]

theorem windowRespected_of_stopAndWait (hwaitAck : c.waitAck = true)
    (h : s.Satisfies c k (Flow.StopAndWait c)) : s.WindowRespected k := by
  intro p i hp howns hi
  have hwire : (s.view c k (s.findex k)).wire = some p.seq := by
    unfold view
    rw [hp, Option.filter_some, if_pos (decide_eq_true howns)]
    rfl
  have hmilestone : (s.view c k (s.findex k)).milestone = s.nic.milestoneTx i := by
    unfold view
    dsimp only
    rw [if_pos hwaitAck, hi, Option.elim_some]
  have hlt := h.2.wire_lt p.seq hwire
  rw [hmilestone] at hlt
  exact UInt32.lt_iff_toNat_lt.mpr hlt

/-- In every run in which the queues take the packets of the flow, its windows are kept
throughout. -/
theorem stopAndWait_throughout (hc : c.WaitsPerChunk) (hport : k.port ≠ 0)
    (hclass : k.qIndex ≠ 7) (maxBytes : ℚ) {events : List Event}
    (haccepts : EachStep (step c k) (fun s event _ => s.Accepts c k event) (start c maxBytes)
      events) :
    Throughout (step c k) (Satisfies c k (Flow.StopAndWait c)) (start c maxBytes) events := by
  refine throughout_of_eachStep ?_ (start_satisfies hport
    (Flow.start_stopAndWait hc.patient.1 hc.chunk_pos hc.chunk_lt) maxBytes) haccepts
  intro s event next h hstep hevent
  exact h.step hc.qcnEnabled hc.goBackN hport hclass
    (fun f g hf hfg => hf.step hc.patient hc.chunk_pos hfg) hstep hevent.admits

/-- No packet of the flow at or beyond the milestone is put on the wire, as long as the
queues take every packet of the flow. -/
theorem window_respected (hc : c.WaitsPerChunk) (hport : k.port ≠ 0) (hclass : k.qIndex ≠ 7)
    (maxBytes : ℚ) (events : List Event)
    (haccepts : EachStep (step c k) (fun s event _ => s.Accepts c k event) (start c maxBytes)
      events) :
    Throughout (step c k) (WindowRespected k) (start c maxBytes) events :=
  (stopAndWait_throughout hc hport hclass maxBytes haccepts).mono fun _ h =>
    windowRespected_of_stopAndWait hc.patient.1 h

theorem goBackN_waitsPerChunk {chunk : UInt32} (hpos : 0 < chunk.toNat)
    (hlt : chunk.toNat < 2 ^ 31) : (goBackN chunk true).WaitsPerChunk where
  qcnEnabled := rfl
  goBackN := rfl
  patient := by
    refine ⟨rfl, ?_⟩
    change microSeconds 500 < seconds 32767
    decide +kernel
  chunk_pos := hpos
  chunk_lt := hlt

/-- A window of two packets, and a third packet that waits for its ACK. -/
def oneWindow : List Event :=
  [.send (.sample 0), .send (.sample 1), .send (.sample 2), .advance 1000000, .transmitComplete,
    .transmitComplete, .deliverData 0 false false 0, .deliverData 0 false false 0,
    .deliverFeedback 0, .transmitComplete]

/-- There is room for one more packet of any size. -/
def Roomy (c : NicConfig) (k : FlowKey) (s : Link) : Prop :=
  (s.nic.queue.bytesInQueueTotal.toNat + 65537 : Nat) < s.nic.queue.maxBytes ∧
    s.nic.queue.bytesInQueueTotal.toNat + 65537 < 2 ^ 32 ∧ (s.queueOf k).length < 8000 ∧
      (s.bufferOf k).length < 8000 ∧ s.sent + 1 + c.chunk.toNat < 2 ^ 31

instance (s : Link) : Decidable (s.Roomy c k) := inferInstanceAs (Decidable (_ ∧ _))

theorem Roomy.accepts (h : s.Roomy c k) (event : Event) : s.Accepts c k event := by
  obtain ⟨hmax, hfits, hqueue, hbuffer, hbound⟩ := h
  intro p _ _
  have hsize := p.size_le
  refine ⟨⟨?_, ?_⟩, hbuffer, hbound⟩
  · unfold BEgressQueue.accepts
    rw [decide_eq_true_iff, UInt32.toNat_add_of_lt (by omega)]
    have hle : s.nic.queue.bytesInQueueTotal.toNat + p.size.toNat ≤
        s.nic.queue.bytesInQueueTotal.toNat + 65537 := by omega
    exact (Nat.cast_le.mpr hle).trans_lt hmax
  · intro i hi
    have hbytes := byteSize_le (s.queueOf k)
    unfold queueOf at hbytes hqueue
    rw [hi, Option.elim_some] at hbytes hqueue
    omega

theorem window_respected_run :
    Throughout (step (goBackN 2 true) sampleKey) (WindowRespected sampleKey)
      (start (goBackN 2 true) 1000000) oneWindow := by
  refine window_respected (goBackN_waitsPerChunk (by decide) (by decide)) (by decide) (by decide)
    1000000 oneWindow ?_
  have hroomy : Throughout (step (goBackN 2 true) sampleKey) (Roomy (goBackN 2 true) sampleKey)
      (start (goBackN 2 true) 1000000) oneWindow := by
    apply throughout_of_take
    decide +kernel
  exact hroomy.eachStep fun s event _ h => h.accepts event

/-- A control frame fills the egress queue for a moment, so that the queue refuses packet 1. -/
def refusal : List Event :=
  [.send (.sample 0), .control { Packet.sample 0 with protocol := Protocol.ack },
    .send (.sample 1), .advance 1000000, .transmitComplete, .send (.sample 2), .transmitComplete]

/-- With windows of two packets, packet 2 follows packet 0 on the wire. -/
theorem refusedPacket_skips :
    ¬ Throughout (step (goBackN 2 true) sampleKey) (WindowRespected sampleKey)
      (start (goBackN 2 true) 1500) refusal := by
  intro h
  have hrun : (run (step (goBackN 2 true) sampleKey) (start (goBackN 2 true) 1500) refusal).any
      (fun s => s.wire.any fun p =>
        sampleKey.Owns p ∧ s.findex sampleKey = some 1 ∧ ¬ p.seq < s.nic.milestoneTx 1) = true := by
    decide +kernel
  rw [Option.any_eq_true] at hrun
  obtain ⟨s, hrun, hwire⟩ := hrun
  rw [Option.any_eq_true] at hwire
  obtain ⟨p, hp, hcheck⟩ := hwire
  obtain ⟨howns, hi, hbeyond⟩ := of_decide_eq_true hcheck
  exact hbeyond (h.last hrun p 1 hp howns hi)

end Link

end Ns3Rdma
