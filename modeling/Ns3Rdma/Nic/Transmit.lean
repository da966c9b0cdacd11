import Mathlib.Data.List.FinRange
import Ns3Rdma.Lib.Search
import Ns3Rdma.Nic.Device
import Ns3Rdma.Queue.Counters

/-! # What a QCN NIC transmits and recovers

`DequeueAndTransmit` either puts the head of one FIFO on the wire, or changes nothing but the
time of the next attempt. `RecoverQueue` replaces a FIFO by a copy of the sending buffer. -/

namespace Ns3Rdma

namespace BEgressQueue

variable {q next : BEgressQueue} {paused : Fin qCnt → Bool} {avail : Fin fCnt → Nat}
  {findexQindexMap : Fin fCnt → Fin qCnt} {now : Nat} {p : Packet}

theorem qcnFlow_lt (n : Nat) : (q.qcnFlow n).val < q.fcount := Nat.mod_lt _ q.fcount_pos

/-- The flow scheduler finds the control queue, or a flow in use that is ready. -/
theorem qcnIndex_eq_some {i : Fin fCnt}
    (h : q.qcnIndex paused avail findexQindexMap now = some i) :
    i.val < q.fcount ∧ (i ≠ 0 → q.qcnReady paused avail findexQindexMap now i = true) := by
  unfold qcnIndex at h
  split at h
  · obtain rfl := Option.some.inj h
    exact ⟨q.fcount_pos, fun hne => absurd rfl hne⟩
  · have hmem := List.mem_of_find?_eq_some h
    obtain ⟨n, -, rfl⟩ := List.mem_map.mp hmem
    exact ⟨qcnFlow_lt n, fun _ => List.find?_some h⟩

end BEgressQueue

namespace Nic

variable (c : NicConfig)

/-! ## Transmission -/

/-- Packet `p` heads FIFO `i`, which may be served now. -/
structure Serves (s : Nic) (i : Fin fCnt) (p : Packet) (rest : DropTailQueue) : Prop where
  idle : s.currentPkt = none
  inUse : i.val < s.queue.fcount
  head : (s.queue.queues i).packets = p :: rest.packets
  ready : i ≠ 0 → s.paused (s.findexQindexMap i) = false ∧ s.nextAvail i ≤ s.now

/-- The device once packet `p` of FIFO `i` is on the wire. -/
def served (s : Nic) (i : Fin fCnt) (p : Packet) (rest : DropTailQueue) : Nic :=
  ((Nic.pace c { s with
      queue := s.queue.removed i p rest (if i = 0 then s.queue.rrlast else i) i } i p).waitForAck
    c i p).transmitStart p

section Served

variable (s : Nic) (i : Fin fCnt) (p : Packet) (rest : DropTailQueue)

@[simp] theorem served_queue : (s.served c i p rest).queue =
    s.queue.removed i p rest (if i = 0 then s.queue.rrlast else i) i := rfl

@[simp] theorem served_currentPkt : (s.served c i p rest).currentPkt = some p := rfl

@[simp] theorem served_now : (s.served c i p rest).now = s.now := rfl

@[simp] theorem served_paused : (s.served c i p rest).paused = s.paused := rfl

@[simp] theorem served_resumeEvt : (s.served c i p rest).resumeEvt = s.resumeEvt := rfl

@[simp] theorem served_findexUdpportMap :
    (s.served c i p rest).findexUdpportMap = s.findexUdpportMap := rfl

@[simp] theorem served_findexQindexMap :
    (s.served c i p rest).findexQindexMap = s.findexQindexMap := rfl

@[simp] theorem served_sendingBuffer :
    (s.served c i p rest).sendingBuffer = s.sendingBuffer := rfl

@[simp] theorem served_milestoneTx : (s.served c i p rest).milestoneTx = s.milestoneTx := rfl

@[simp] theorem served_waitingAck : (s.served c i p rest).waitingAck =
    if s.closesWindow c i p then Function.update s.waitingAck i true else s.waitingAck := rfl

@[simp] theorem served_retransmitEvt : (s.served c i p rest).retransmitEvt =
    if s.closesWindow c i p && !s.waitingAck i then
      Function.update s.retransmitEvt i (some (s.now + microSeconds c.waitAckTimer))
    else s.retransmitEvt := rfl

theorem pace_nextAvail_of_ne {j : Fin fCnt} (hj : j ≠ i) :
    (s.pace c i p).nextAvail j = s.nextAvail j :=
  Function.update_of_ne hj _ _

theorem waitForAck_nextAvail_of_ne {j : Fin fCnt} (hj : j ≠ i) :
    (s.waitForAck c i p).nextAvail j = s.nextAvail j := by
  unfold waitForAck
  dsimp only
  split
  · exact Function.update_of_ne hj _ _
  · rfl

/-- Serving a FIFO paces no other flow. -/
theorem served_nextAvail_of_ne {j : Fin fCnt} (hj : j ≠ i) :
    (s.served c i p rest).nextAvail j = s.nextAvail j :=
  (waitForAck_nextAvail_of_ne c _ i p hj).trans (pace_nextAvail_of_ne c _ i p hj)

/-- The last packet of a window stops its flow for 32767 seconds. -/
theorem served_nextAvail_of_closesWindow (hcloses : s.closesWindow c i p = true) :
    (s.served c i p rest).nextAvail i = s.now + seconds 32767 := by
  have hpaced : ∀ n : Nic, n.closesWindow c i p = true →
      ((n.waitForAck c i p).transmitStart p).nextAvail i = n.now + seconds 32767 := by
    intro n hn
    unfold transmitStart waitForAck
    dsimp only
    rw [if_pos hn, Function.update_self]
  exact hpaced _ hcloses

end Served

variable {c}

theorem dequeueNext_eq_some (hqcn : c.qcnEnabled = true) {s : Nic} {p : Packet}
    {next : BEgressQueue} : s.dequeueNext c = some (p, next) ↔
      s.queue.bytesInQueueTotal ≠ 0 ∧ ∃ i rest,
        s.queue.qcnIndex s.paused s.nextAvail s.findexQindexMap s.now = some i ∧
          (s.queue.queues i).packets = p :: rest.packets ∧
            next = s.queue.removed i p rest (if i = 0 then s.queue.rrlast else i) i := by
  unfold dequeueNext
  rw [if_pos hqcn, BEgressQueue.dequeueQCN_eq_some]

theorem dequeueAndTransmit_of_busy {s : Nic} (hbusy : s.currentPkt ≠ none) :
    dequeueAndTransmit c s = (s, none) :=
  if_pos (Option.isSome_iff_ne_none.mpr hbusy)

theorem dequeueAndTransmit_of_none {s : Nic} (hidle : s.currentPkt = none)
    (hnext : s.dequeueNext c = none) : dequeueAndTransmit c s = (s.scheduleNextSend c, none) := by
  unfold dequeueAndTransmit
  rw [if_neg (by rw [hidle]; exact Bool.false_ne_true), hnext]

theorem dequeueAndTransmit_of_some {s : Nic} {p : Packet} {i : Fin fCnt} {rest : DropTailQueue}
    (hidle : s.currentPkt = none) (hnext : s.dequeueNext c =
      some (p, s.queue.removed i p rest (if i = 0 then s.queue.rrlast else i) i)) :
    dequeueAndTransmit c s = (s.served c i p rest, some p) := by
  unfold dequeueAndTransmit
  rw [if_neg (by rw [hidle]; exact Bool.false_ne_true), hnext]
  rfl

/-- All that `DequeueAndTransmit` can do at a QCN NIC. -/
theorem dequeueAndTransmit_cases (hqcn : c.qcnEnabled = true) (s : Nic) :
    (∃ t, dequeueAndTransmit c s = ({ s with nextSend := t }, none)) ∨
      ∃ i p rest, s.Serves i p rest ∧ dequeueAndTransmit c s = (s.served c i p rest, some p) := by
  by_cases hidle : s.currentPkt = none
  · cases hnext : s.dequeueNext c with
    | none => exact Or.inl ⟨(s.scheduleNextSend c).nextSend, dequeueAndTransmit_of_none hidle hnext⟩
    | some popped =>
        obtain ⟨-, i, rest, hindex, hhead, hqueue⟩ := (dequeueNext_eq_some hqcn).mp hnext
        obtain ⟨hinUse, hready⟩ := BEgressQueue.qcnIndex_eq_some hindex
        refine Or.inr ⟨i, popped.1, rest, ⟨hidle, hinUse, hhead, fun hne => ?_⟩, ?_⟩
        · have hready := hready hne
          simp only [BEgressQueue.qcnReady, Bool.and_eq_true, Bool.not_eq_true',
            decide_eq_true_eq] at hready
          exact ⟨hready.1.1, hready.2⟩
        · apply dequeueAndTransmit_of_some hidle
          rw [hnext, ← hqueue]
  · exact Or.inl ⟨s.nextSend, dequeueAndTransmit_of_busy hidle⟩

/-! ## Recovery -/

section Recover

variable {s : Nic} {i : Fin fCnt} {buffer : DropTailQueue}

theorem recover_queues (h : buffer.packets.length ≤ 8000) :
    (s.recover i buffer).queue.queues = Function.update s.queue.queues i buffer := by
  unfold recover
  rw [BEgressQueue.recoverQueue_eq (DropTailQueue.fits_of_length_le h)]

theorem recover_fcount (h : buffer.packets.length ≤ 8000) :
    (s.recover i buffer).queue.fcount = s.queue.fcount := by
  unfold recover
  rw [BEgressQueue.recoverQueue_eq (DropTailQueue.fits_of_length_le h)]

theorem recover_sendingBuffer (h : buffer.packets.length ≤ 8000) :
    (s.recover i buffer).sendingBuffer = Function.update s.sendingBuffer i (some buffer) := by
  unfold recover
  rw [BEgressQueue.recoverQueue_eq (DropTailQueue.fits_of_length_le h)]

end Recover

/-! ## Feedback -/

/-- The device whose buffer of flow `i` has been cut down by an ACK. -/
def trimmed (s : Nic) (i : Fin fCnt) (kept : DropTailQueue) : Nic :=
  { s with sendingBuffer := Function.update s.sendingBuffer i (some kept) }

/-- The device once flow `i` may send its next window. -/
def advanced (c : NicConfig) (s : Nic) (i : Fin fCnt) : Nic :=
  { s.stopWaiting i with
    milestoneTx := Function.update s.milestoneTx i (s.milestoneTx i + c.chunk) }

/-- The packets that an ACK or a NACK with number `seq` leaves in a buffer. -/
def keptFrom (buffer : DropTailQueue) (seq : UInt32) : DropTailQueue :=
  buffer.dropWhile fun p => p.seq < seq

section Feedback

variable {s : Nic} {qbbh : QbbHeader} {result : Nic × Option Packet}

theorem gobackSeq_of_goBackN (hback : c.backto0 = false) (seq : UInt32) :
    gobackSeq c seq = some seq := by
  unfold gobackSeq
  rw [hback]
  rfl

theorem retransmit_eq_some {j : Fin fCnt} (h : s.retransmit c j = some result) :
    ∃ buffer, s.sendingBuffer j = some buffer ∧
      result = dequeueAndTransmit c ((s.recover j buffer).stopWaiting j) := by
  unfold retransmit at h
  rw [Option.map_eq_some_iff] at h
  obtain ⟨buffer, hbuffer, rfl⟩ := h
  exact ⟨buffer, hbuffer, rfl⟩

/-- A NACK cuts the buffer of its flow and refills the FIFO of the flow's index from it. -/
theorem receiveNack_recovers (h : s.receiveNack c qbbh = some result) :
    ∃ i buffer seq, s.findFlow qbbh.port qbbh.pg = some i ∧ s.sendingBuffer i = some buffer ∧
      gobackSeq c qbbh.seq = some seq ∧ (keptFrom buffer seq).packets ≠ [] ∧
        result = if c.waitAck && s.waitingAck i then
            dequeueAndTransmit c ((s.recover i (keptFrom buffer seq)).stopWaiting i)
          else (s.recover i (keptFrom buffer seq), none) := by
  unfold receiveNack at h
  simp only [Option.bind_eq_some_iff] at h
  obtain ⟨i, hi, buffer, hbuffer, seq, hseq, h⟩ := h
  split at h
  · cases h
  next hkept =>
    refine ⟨i, buffer, seq, hi, hbuffer, hseq, hkept, ?_⟩
    change (if c.waitAck && s.waitingAck i then _ else _) = some result at h
    split at h
    next hwaiting =>
      rw [if_pos hwaiting]
      exact (Option.some.inj h).symm
    next hwaiting =>
      rw [if_neg hwaiting]
      exact (Option.some.inj h).symm

theorem receiveNack_eq_some (hback : c.backto0 = false) (h : s.receiveNack c qbbh = some result) :
    ∃ i buffer, s.findFlow qbbh.port qbbh.pg = some i ∧ s.sendingBuffer i = some buffer ∧
      (keptFrom buffer qbbh.seq).packets ≠ [] ∧
        result = if c.waitAck && s.waitingAck i then
            dequeueAndTransmit c ((s.recover i (keptFrom buffer qbbh.seq)).stopWaiting i)
          else (s.recover i (keptFrom buffer qbbh.seq), none) := by
  obtain ⟨i, buffer, seq, hi, hbuffer, hseq, hkept, hresult⟩ := receiveNack_recovers h
  rw [gobackSeq_of_goBackN hback] at hseq
  obtain rfl := Option.some.inj hseq
  exact ⟨i, buffer, hi, hbuffer, hkept, hresult⟩

theorem receiveAck_eq_some (hback : c.backto0 = false) (h : s.receiveAck c qbbh = some result) :
    ∃ i buffer kept, s.findFlow qbbh.port qbbh.pg = some i ∧ s.sendingBuffer i = some buffer ∧
      buffer.packets ≠ [] ∧
        kept = (if c.ackInterval = 0 then buffer else keptFrom buffer qbbh.seq) ∧
          result = if c.waitAck && signed (s.milestoneTx i) ≤ signed qbbh.seq then
              dequeueAndTransmit c (advanced c (s.trimmed i kept) i)
            else (s.trimmed i kept, none) := by
  unfold receiveAck at h
  rw [Option.bind_eq_some_iff] at h
  obtain ⟨i, hi, h⟩ := h
  rw [Option.map_eq_some_iff] at h
  obtain ⟨kept, hkept, h⟩ := h
  rw [Option.bind_eq_some_iff] at hkept
  obtain ⟨buffer, hbuffer, hkept⟩ := hkept
  unfold acknowledged at hkept
  split at hkept
  · cases hkept
  next hne =>
    refine ⟨i, buffer, kept, hi, hbuffer, hne, ?_, h.symm⟩
    split at hkept
    next hzero =>
      rw [if_pos hzero]
      exact (Option.some.inj hkept).symm
    next hpos =>
      rw [gobackSeq_of_goBackN hback] at hkept
      rw [if_neg hpos]
      exact (Option.some.inj hkept).symm

end Feedback

/-! ## Sending -/

/-- The buffer keeps the packet, and drops its oldest one if it is full. -/
theorem bufferPacket_packets {buffer : DropTailQueue} (h : buffer.packets.length ≤ 8000)
    (p : Packet) : (bufferPacket buffer p).packets =
      (if buffer.packets.length = 8000 then buffer.packets.tail else buffer.packets) ++ [p] := by
  have hsize := p.size_le
  unfold bufferPacket DropTailQueue.getNPackets
  by_cases hfull : buffer.packets.length = 8000
  · rw [if_pos hfull, if_pos hfull]
    cases hpop : buffer.dequeue with
    | none =>
        rw [DropTailQueue.dequeue_eq_none.mp hpop] at hfull
        cases hfull
    | some popped =>
        have hpackets := DropTailQueue.dequeue_eq_some.mp hpop
        have hbytes := byteSize_le popped.2.packets
        rw [hpackets, List.length_cons] at hfull
        rw [Option.elim_some, DropTailQueue.enqueue_packets (by omega), hpackets, List.tail_cons]
  · have hbytes := byteSize_le buffer.packets
    rw [if_neg hfull, if_neg hfull, DropTailQueue.enqueue_packets (by omega)]

/-- The search of `Send` stops at the first index that is unused or has the port and class. -/
theorem flowSlot_eq_some {s : Nic} {port : UInt16} {qIndex : Fin qCnt} {i : Fin fCnt}
    (h : s.flowSlot port qIndex = some i) :
    (i ≠ 0 ∧ (s.findexUdpportMap i = 0 ∨
      s.findexUdpportMap i = port ∧ s.findexQindexMap i = qIndex)) ∧
      ∀ j, j ≠ 0 → j < i → s.findexUdpportMap j ≠ 0 ∧
        ¬ (s.findexUdpportMap j = port ∧ s.findexQindexMap j = qIndex) := by
  unfold flowSlot at h
  rw [Search.find?_eq_some_iff_of_pairwise (List.pairwise_lt_finRange fCnt)] at h
  obtain ⟨-, hfound, hearlier⟩ := h
  constructor
  · simpa using hfound
  · intro j hne hj
    have hnot := hearlier j (List.mem_finRange j) hj
    simp only [ne_eq, hne, not_false_iff, decide_true, Bool.true_and, Bool.or_eq_false_iff,
      beq_eq_false_iff_ne, Bool.and_eq_false_iff] at hnot
    refine ⟨hnot.1, ?_⟩
    rintro ⟨hport, hqIndex⟩
    rcases hnot.2 with hport' | hqIndex'
    · exact hport' hport
    · exact hqIndex' hqIndex

theorem flowSlot_eq_none {s : Nic} {port : UInt16} {qIndex : Fin qCnt}
    (h : s.flowSlot port qIndex = none) (j : Fin fCnt) (hne : j ≠ 0) :
    s.findexUdpportMap j ≠ 0 ∧
      ¬ (s.findexUdpportMap j = port ∧ s.findexQindexMap j = qIndex) := by
  have hnot := List.find?_eq_none.mp h j (List.mem_finRange j)
  simpa [hne] using hnot

/-- If the indices below `m_fcount` are those in use, the first unused one is `m_fcount`. -/
theorem fcount_eq_of_unused {s : Nic} {i : Fin fCnt}
    (hused : ∀ j : Fin fCnt, j ≠ 0 → (j.val < s.queue.fcount ↔ s.findexUdpportMap j ≠ 0))
    (hne : i ≠ 0) (hunused : s.findexUdpportMap i = 0)
    (hearlier : ∀ j, j ≠ 0 → j < i → s.findexUdpportMap j ≠ 0) : s.queue.fcount = i.val := by
  have hge : s.queue.fcount ≤ i.val := by
    have hnot := (hused i hne).not.mpr (not_not.mpr hunused)
    omega
  have hpos := s.queue.fcount_pos
  have hi := i.isLt
  apply Nat.le_antisymm hge
  by_contra hlt
  -- the index before `i` is used
  have hprev := hearlier ⟨s.queue.fcount, by omega⟩
    (Fin.ne_of_val_ne (by simp only [Fin.val_zero]; omega)) (Fin.lt_def.mpr (by simp only; omega))
  rw [← hused _ (Fin.ne_of_val_ne (by simp only [Fin.val_zero]; omega))] at hprev
  simp only at hprev
  omega

theorem send_eq_some {s : Nic} {p : Packet} {result : Nic × Option Packet}
    (h : s.send c p = some result) (hdata : ¬ (c.qcnEnabled = true ∧ sendClass p = 7)) :
    ∃ i buffer, s.flowSlot p.sourcePort (sendClass p) = some i ∧
      (s.addFlow c i p.sourcePort (sendClass p)).sendingBuffer i = some buffer ∧
        result = dequeueAndTransmit c
          { s.addFlow c i p.sourcePort (sendClass p) with
            sendingBuffer := Function.update
              (s.addFlow c i p.sourcePort (sendClass p)).sendingBuffer i
              (some (bufferPacket buffer p))
            queue := (s.addFlow c i p.sourcePort (sendClass p)).queue.enqueue p
              (if c.qcnEnabled then i else BEgressQueue.classQueue (sendClass p)) } := by
  unfold send at h
  dsimp only at h
  rw [if_neg (by simpa using hdata), Option.bind_eq_some_iff] at h
  obtain ⟨i, hi, h⟩ := h
  rw [Option.map_eq_some_iff] at h
  obtain ⟨buffer, hbuffer, rfl⟩ := h
  exact ⟨i, buffer, hi, hbuffer, rfl⟩

end Nic

end Ns3Rdma
