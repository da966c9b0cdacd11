import Ns3Rdma.Lib.StepSystem
import Ns3Rdma.Nic.Device

/-! # A sender, a receiver and the network between them

One flow of a NIC is watched, together with everything else the NIC does. The network may
lose, duplicate, reorder and corrupt the packets of the flow and the frames that answer
them. Both ends have the same attributes. -/

namespace Ns3Rdma

/-- A packet of the flow. -/
def FlowKey.Owns (k : FlowKey) (p : Packet) : Prop :=
  p.protocol = Protocol.udp ∧ Receiver.key p = k

instance (k : FlowKey) (p : Packet) : Decidable (k.Owns p) :=
  inferInstanceAs (Decidable (_ ∧ _))

/-- An ACK or a NACK that the sender takes for one of the flow. -/
def FlowKey.Names (k : FlowKey) : Feedback → Prop
  | .ack qbbh => qbbh.port = k.port ∧ qbbh.pg = k.qIndex
  | .nack qbbh => qbbh.port = k.port ∧ qbbh.pg = k.qIndex
  | .cnp _ => False

instance (k : FlowKey) : (f : Feedback) → Decidable (k.Names f)
  | .ack qbbh => inferInstanceAs (Decidable (qbbh.port = k.port ∧ qbbh.pg = k.qIndex))
  | .nack qbbh => inferInstanceAs (Decidable (qbbh.port = k.port ∧ qbbh.pg = k.qIndex))
  | .cnp _ => inferInstanceAs (Decidable False)

/-- `data` and `feedback` are the packets of the flow and the answers to them in flight, `sent`
counts the packets of the flow that were sent, and `wire` is the frame that the last event put
on the wire. -/
structure Link where
  nic : Nic
  receiver : Receiver
  data : List Packet
  feedback : List Feedback
  sent : Nat
  wire : Option Packet

namespace Link

/-- `otherData` and `otherFeedback` are frames of other flows that arrive at the two ends.
Transmission delays are arbitrary, and so are those of the network. -/
inductive Event where
  | send (p : Packet)
  | control (p : Packet)
  | transmitComplete
  | nextSend
  | retransmit (findex : Fin fCnt)
  | pause (pauseh : PauseHeader)
  | pauseFinish (qIndex : Fin qCnt)
  | rateTimer (fIndex : Fin fCnt)
  | alphaTimer (fIndex : Fin fCnt)
  | advance (time : Nat)
  | deliverData (n : Nat) (corrupt corruptAgain : Bool) (indeterminate : UInt8)
  | loseData (n : Nat)
  | duplicateData (n : Nat)
  | deliverFeedback (n : Nat)
  | loseFeedback (n : Nat)
  | duplicateFeedback (n : Nat)
  | otherData (a : Arrival)
  | otherFeedback (f : Feedback)

variable (c : NicConfig) (k : FlowKey)

def start (maxBytes : ℚ) : Link where
  nic := .start c maxBytes
  receiver := .start
  data := []
  feedback := []
  sent := 0
  wire := none

/-- The outcome of a handler of the sender. -/
def emit (s : Link) (result : Nic × Option Packet) : Link :=
  { s with
    nic := result.1
    wire := result.2
    data := s.data ++ result.2.toList.filter fun p => k.Owns p }

/-- Source ports are not 0, and the packets that go to the index of the flow are the packets
of the flow, numbered from 0. Their 32-bit numbers do not come round to 0 again. -/
def MaySend (s : Link) (p : Packet) : Prop :=
  (Nic.sendClass p ≠ 7 → p.sourcePort ≠ 0) ∧
    (Nic.sendClass p = k.qIndex ∧ p.sourcePort = k.port →
      k.Owns p ∧ p.seq.toNat = s.sent ∧ s.sent + 1 < 2 ^ 32)

instance (s : Link) (p : Packet) : Decidable (s.MaySend k p) :=
  inferInstanceAs (Decidable (_ ∧ _))

/-- The index of the flow at the sender, once it has one. -/
def findex (s : Link) : Option (Fin fCnt) := s.nic.findFlow k.port k.qIndex

/-- The sending buffer of the flow. -/
def bufferOf (s : Link) : List Packet :=
  ((s.findex k).bind s.nic.sendingBuffer).elim [] DropTailQueue.packets

/-- The transmit queue of the flow. -/
def queueOf (s : Link) : List Packet :=
  (s.findex k).elim [] fun i => (s.nic.queue.queues i).packets

/-- Time stops at a pending retransmission of the flow. -/
def mayAdvance (s : Link) (time : Nat) : Bool :=
  decide (s.nic.now ≤ time) &&
    ((s.findex k).bind s.nic.retransmitEvt).all fun deadline => decide (time ≤ deadline)

/-- A timer is pending, and due. -/
def due (s : Link) (timer : Option Nat) : Bool := timer.any fun time => decide (time ≤ s.nic.now)

def step (s : Link) : Event → Option Link
  | .send p =>
      if s.MaySend k p then
        (s.nic.send c p).map fun result =>
          emit k { s with sent := if k.Owns p then s.sent + 1 else s.sent } result
      else none
  | .control p =>
      if p.protocol ≠ Protocol.udp then some (s.emit k (s.nic.sendControl c p)) else none
  | .transmitComplete =>
      if s.nic.currentPkt.isSome then some (s.emit k (s.nic.transmitComplete c)) else none
  | .nextSend =>
      if s.due s.nic.nextSend then
        some (s.emit k (Nic.dequeueAndTransmit c { s.nic with nextSend := none }))
      else none
  | .retransmit findex =>
      if s.due (s.nic.retransmitEvt findex) then (s.nic.retransmit c findex).map (s.emit k)
      else none
  | .pause pauseh => some (s.emit k (s.nic.receivePause c pauseh))
  | .pauseFinish qIndex =>
      if s.nic.resumeEvt qIndex then some (s.emit k (s.nic.pauseFinish c qIndex)) else none
  | .rateTimer fIndex =>
      some (s.emit k
        ({ s.nic with
          rp := Function.update s.nic.rp fIndex
            ((s.nic.rp fIndex).rprTimerWrapper c.toRpConfig) }, none))
  | .alphaTimer fIndex =>
      some (s.emit k
        ({ s.nic with
          rp := Function.update s.nic.rp fIndex ((s.nic.rp fIndex).resumeAlpha c.toRpConfig) },
          none))
  | .advance time =>
      if s.mayAdvance k time then some (s.emit k ({ s.nic with now := time }, none)) else none
  | .deliverData n corrupt corruptAgain indeterminate =>
      s.data[n]?.bind fun p =>
        (s.receiver.receive c.toRxConfig
            ⟨p, s.nic.now, corrupt, corruptAgain, indeterminate⟩).map fun result =>
          { s with
            receiver := result.1
            data := s.data.eraseIdx n
            feedback := s.feedback ++ result.2
            wire := none }
  | .loseData n =>
      if n < s.data.length then some { s with data := s.data.eraseIdx n, wire := none } else none
  | .duplicateData n =>
      s.data[n]?.map fun p => { s with data := s.data ++ [p], wire := none }
  | .deliverFeedback n =>
      s.feedback[n]?.bind fun f =>
        (s.nic.receiveFeedback c f).map
          (emit k { s with feedback := s.feedback.eraseIdx n })
  | .loseFeedback n =>
      if n < s.feedback.length then
        some { s with feedback := s.feedback.eraseIdx n, wire := none }
      else none
  | .duplicateFeedback n =>
      s.feedback[n]?.map fun f => { s with feedback := s.feedback ++ [f], wire := none }
  | .otherData a =>
      if Receiver.key a.packet = k then none
      else
        (s.receiver.step c.toRxConfig a).map fun next =>
          { s with receiver := next, wire := none }
  | .otherFeedback f =>
      if k.Names f then none else (s.nic.receiveFeedback c f).map (s.emit k)

/-! ## Attributes for concrete runs -/

/-- A QCN NIC in go-back-N mode that acknowledges every chunk. -/
def goBackN (chunk : UInt32) (waitAck : Bool) : NicConfig where
  bps := 10000000000
  minRate := 100000000
  rai := 5000000
  rhai := 50000000
  g := 1 / 16
  rpgThreshold := 1
  bc := 1000000
  ecnClampTgtRate := false
  ecnClampTgtRateAfterTimeInc := false
  qcnEnabled := true
  backto0 := false
  testRead := false
  chunk := chunk
  ackInterval := 1
  nackInterval := 500
  qbbEnabled := true
  waitAck := waitAck
  waitAckTimer := 500
  tInterframeGap := 0

/-- The flow of the packets `Packet.sample`. -/
def sampleKey : FlowKey := ⟨0, 3, 1⟩

end Link

end Ns3Rdma
