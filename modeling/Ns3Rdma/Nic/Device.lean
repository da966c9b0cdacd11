import Ns3Rdma.Nic.Receiver
import Ns3Rdma.Queue.BEgressQueue
import Ns3Rdma.Rate.ReactionPoint

/-! # The sending side of a NIC

Packets of a flow are queued for transmission and kept in a buffer until acknowledged. The
pacing of a flow, the wait for an acknowledgement and the retransmission all act on the
time from which its queue may be served. The link is up. Handlers return the frame they
put on the wire, if any; they are undefined where the program would dereference a null
pointer, index outside an array or divide by zero. -/

namespace Ns3Rdma

/-- Attributes of a device. `waitAckTimer` is in microseconds, truncated as `MicroSeconds`
does. -/
structure NicConfig extends RpConfig, RxConfig where
  qbbEnabled : Bool
  waitAck : Bool
  waitAckTimer : Nat
  tInterframeGap : Nat

/-- The transmitter is busy while there is a current packet. An event is pending at the time
it is scheduled for; of the resume events only that they are pending is kept. -/
structure Nic where
  now : Nat
  queue : BEgressQueue
  currentPkt : Option Packet
  paused : Fin qCnt → Bool
  resumeEvt : Fin qCnt → Bool
  nextAvail : Fin fCnt → Nat
  findexUdpportMap : Fin fCnt → UInt16
  findexQindexMap : Fin fCnt → Fin qCnt
  sendingBuffer : Fin fCnt → Option DropTailQueue
  milestoneTx : Fin fCnt → UInt32
  waitingAck : Fin fCnt → Bool
  retransmitEvt : Fin fCnt → Option Nat
  nextSend : Option Nat
  rp : Fin fCnt → RpFlow
  credits : Fin fCnt → ℚ

namespace Nic

variable (c : NicConfig)

/-- A new device. Port 0 marks an unused flow index. -/
def start (maxBytes : ℚ) : Nic where
  now := 0
  queue := .start maxBytes
  currentPkt := none
  paused := fun _ => false
  resumeEvt := fun _ => false
  nextAvail := fun _ => 0
  findexUdpportMap := fun _ => 0
  findexQindexMap := fun _ => 0
  sendingBuffer := fun _ => none
  milestoneTx := fun _ => 0
  waitingAck := fun _ => false
  retransmitEvt := fun _ => none
  nextSend := none
  rp := fun _ => .new c.toRpConfig
  credits := fun _ => 0

/-! ## Transmission -/

def dequeueNext (s : Nic) : Option (Packet × BEgressQueue) :=
  if c.qcnEnabled then s.queue.dequeueQCN s.paused s.nextAvail s.findexQindexMap s.now
  else s.queue.dequeueNIC s.paused

/-- Late initialization of the rate, the time of the next packet, the credits of the flows
that may send, and the byte counter. -/
def pace (s : Nic) (fIndex : Fin fCnt) (p : Packet) : Nic :=
  let f := (s.rp fIndex).lazyInit c.toRpConfig
  let creditsDue := max 0 ((c.bps : ℚ) / f.rate * (p.size.toNat - s.credits fIndex))
  let nextSend := c.tInterframeGap + seconds (DataRate.calculateTxTime c.bps ⌊creditsDue⌋₊)
  let nextAvail := Function.update s.nextAvail fIndex (s.now + nextSend)
  let distributed := fun i =>
    if i.val < s.queue.fcount ∧ nextAvail i ≤ s.now then
      s.credits i + (Function.update s.rp fIndex f i).rate / c.bps * creditsDue
    else s.credits i
  { s with
    nextAvail := nextAvail
    credits := Function.update distributed fIndex 0
    rp := Function.update s.rp fIndex (f.byteCounter c.toRpConfig p.size) }

/-- The packet is the last one that may be sent before the flow waits for an ACK. -/
def closesWindow (s : Nic) (fIndex : Fin fCnt) (p : Packet) : Bool :=
  p.protocol = Protocol.udp && c.waitAck && s.milestoneTx fIndex - 1 ≤ p.seq

/-- Stop the flow for 32767 seconds, and start the timer unless it waits already. -/
def waitForAck (s : Nic) (fIndex : Fin fCnt) (p : Packet) : Nic :=
  { s with
    nextAvail :=
      if s.closesWindow c fIndex p then
        Function.update s.nextAvail fIndex (s.now + seconds 32767)
      else s.nextAvail
    retransmitEvt :=
      if s.closesWindow c fIndex p && !s.waitingAck fIndex then
        Function.update s.retransmitEvt fIndex (some (s.now + microSeconds c.waitAckTimer))
      else s.retransmitEvt
    waitingAck :=
      if s.closesWindow c fIndex p then Function.update s.waitingAck fIndex true
      else s.waitingAck }

def transmitStart (s : Nic) (p : Packet) : Nic :=
  { s with currentPkt := some p }

/-- With nothing to send, try again at the earliest time of a flow that has bytes queued,
unless that time has passed or an attempt is scheduled already. -/
def scheduleNextSend (s : Nic) : Nic :=
  let times := ((List.finRange fCnt).filter fun i =>
    decide (i.val < s.queue.fcount) && s.queue.bytesInQueue i != 0).map s.nextAvail
  { s with
    nextSend :=
      if c.qcnEnabled ∧ s.nextSend = none then times.min?.filter fun t => s.now < t
      else s.nextSend }

def dequeueAndTransmit (s : Nic) : Nic × Option Packet :=
  if s.currentPkt.isSome then (s, none)
  else
    match s.dequeueNext c with
    | some popped =>
        let fIndex := popped.2.qlast
        let paced := Nic.pace c { s with queue := popped.2 } fIndex popped.1
        ((paced.waitForAck c fIndex popped.1).transmitStart popped.1, some popped.1)
    | none => (s.scheduleNextSend c, none)

def transmitComplete (s : Nic) : Nic × Option Packet :=
  dequeueAndTransmit c { s with currentPkt := none }

/-! ## Recovery -/

/-- `RecoverQueue` with the sending buffer of flow `i`. -/
def recover (s : Nic) (i : Fin fCnt) (buffer : DropTailQueue) : Nic :=
  { s with
    queue := (s.queue.recoverQueue buffer i).1
    sendingBuffer := Function.update s.sendingBuffer i (some (s.queue.recoverQueue buffer i).2) }

/-- Let flow `i` send at once. The retransmission event has expired or is cancelled. -/
def stopWaiting (s : Nic) (i : Fin fCnt) : Nic :=
  { s with
    nextAvail := Function.update s.nextAvail i s.now
    waitingAck := Function.update s.waitingAck i false
    retransmitEvt := Function.update s.retransmitEvt i none }

def retransmit (s : Nic) (findex : Fin fCnt) : Option (Nic × Option Packet) :=
  (s.sendingBuffer findex).map fun buffer =>
    dequeueAndTransmit c ((s.recover findex buffer).stopWaiting findex)

/-- The flow index that a feedback frame names. -/
def findFlow (s : Nic) (port : UInt16) (qIndex : Fin qCnt) : Option (Fin fCnt) :=
  (List.finRange fCnt).find? fun i =>
    i ≠ 0 && decide (i.val < s.queue.fcount) && s.findexUdpportMap i == port &&
      s.findexQindexMap i == qIndex

/-- The first number to keep: `seq`, or the start of its chunk. -/
def gobackSeq (seq : UInt32) : Option UInt32 :=
  if !c.backto0 then some seq
  else if c.chunk = 0 then none
  else some (seq / c.chunk * c.chunk)

/-- `Receive` for a NACK. Its loop ends at a packet to be kept. -/
def receiveNack (s : Nic) (qbbh : QbbHeader) : Option (Nic × Option Packet) :=
  (s.findFlow qbbh.port qbbh.pg).bind fun i =>
    (s.sendingBuffer i).bind fun buffer =>
      (gobackSeq c qbbh.seq).bind fun seq =>
        let kept := buffer.dropWhile fun p => p.seq < seq
        if kept.packets = [] then none
        else
          let s := s.recover i kept
          if c.waitAck && s.waitingAck i then some (dequeueAndTransmit c (s.stopWaiting i))
          else some (s, none)

/-- A 32-bit value as a signed one. -/
def signed (x : UInt32) : Int := x.toBitVec.toInt

/-- The buffer that an ACK leaves. -/
def acknowledged (buffer : DropTailQueue) (seq : UInt32) : Option DropTailQueue :=
  if buffer.packets = [] then none
  else if c.ackInterval = 0 then some buffer
  else (gobackSeq c seq).map fun seq => buffer.dropWhile fun p => p.seq < seq

/-- `Receive` for an ACK. -/
def receiveAck (s : Nic) (qbbh : QbbHeader) : Option (Nic × Option Packet) :=
  (s.findFlow qbbh.port qbbh.pg).bind fun i =>
    ((s.sendingBuffer i).bind fun buffer => acknowledged c buffer qbbh.seq).map fun kept =>
      let s := { s with sendingBuffer := Function.update s.sendingBuffer i (some kept) }
      if c.waitAck && signed (s.milestoneTx i) ≤ signed qbbh.seq then
        dequeueAndTransmit c
          { s.stopWaiting i with
            milestoneTx := Function.update s.milestoneTx i (s.milestoneTx i + c.chunk) }
      else (s, none)

/-- `Receive` for a congestion notification. An unknown flow is charged to the first unused
index. -/
def receiveCnp (s : Nic) (cnHead : CnHeader) : Option (Nic × Option Packet) :=
  if cnHead.qIndex = 1 ∨ cnHead.qfb = 0 then some (s, none)
  else
    let unused := if h : s.queue.fcount < fCnt then some ⟨s.queue.fcount, h⟩ else none
    ((s.findFlow cnHead.flow cnHead.qIndex).or unused).map fun i =>
      ({ s with
        rp := Function.update s.rp i
          ((s.rp i).receiveCnp c.toRpConfig cnHead.ecnbits cnHead.qfb) }, none)

def receiveFeedback (s : Nic) : Feedback → Option (Nic × Option Packet)
  | .ack qbbh => s.receiveAck c qbbh
  | .nack qbbh => s.receiveNack c qbbh
  | .cnp cnHead => s.receiveCnp c cnHead

/-! ## PFC -/

def pauseFinish (s : Nic) (qIndex : Fin qCnt) : Nic × Option Packet :=
  dequeueAndTransmit c
    { s with
      paused := Function.update s.paused qIndex false
      resumeEvt := Function.update s.resumeEvt qIndex false }

/-- `Receive` for a PFC frame. -/
def receivePause (s : Nic) (pauseh : PauseHeader) : Nic × Option Packet :=
  if !c.qbbEnabled then (s, none)
  else
    let s := { s with paused := Function.update s.paused pauseh.qIndex true }
    if pauseh.time > 0 then
      ({ s with resumeEvt := Function.update s.resumeEvt pauseh.qIndex true }, none)
    else s.pauseFinish c pauseh.qIndex

/-! ## Sending -/

/-- The class that `Send` puts a packet in. -/
def sendClass (p : Packet) : Fin qCnt :=
  if p.protocol = Protocol.cnp ∨ p.protocol = Protocol.pfc ∨ p.protocol = Protocol.nack then 7
  else if p.protocol = Protocol.udp then p.pg
  else 1

/-- Queue a control frame: a response of the receiving side, or a class-7 packet of a QCN NIC. -/
def sendControl (s : Nic) (p : Packet) : Nic × Option Packet :=
  dequeueAndTransmit c
    { s with
      queue := s.queue.enqueue p (if c.qcnEnabled then 0 else BEgressQueue.classQueue 7) }

/-- The search of `Send` stops at an unused index or at the flow itself. -/
def flowSlot (s : Nic) (port : UInt16) (qIndex : Fin qCnt) : Option (Fin fCnt) :=
  (List.finRange fCnt).find? fun i =>
    i ≠ 0 && (s.findexUdpportMap i == 0 ||
      s.findexUdpportMap i == port && s.findexQindexMap i == qIndex)

/-- Take an unused index for a new flow. -/
def addFlow (s : Nic) (i : Fin fCnt) (port : UInt16) (qIndex : Fin qCnt) : Nic :=
  if s.findexUdpportMap i = 0 then
    { s with
      queue := s.queue.setFcount i
      findexUdpportMap := Function.update s.findexUdpportMap i port
      findexQindexMap := Function.update s.findexQindexMap i qIndex
      sendingBuffer := Function.update s.sendingBuffer i (some .empty)
      milestoneTx :=
        if c.waitAck then Function.update s.milestoneTx i c.chunk else s.milestoneTx }
  else s

/-- Keep a copy of a packet. A buffer of 8000 packets drops its oldest one. -/
def bufferPacket (buffer : DropTailQueue) (p : Packet) : DropTailQueue :=
  (if buffer.getNPackets = 8000 then buffer.dequeue.elim buffer Prod.snd else buffer).enqueue p

/-- `Send` at a NIC. -/
def send (s : Nic) (p : Packet) : Option (Nic × Option Packet) :=
  let qIndex := sendClass p
  if c.qcnEnabled && qIndex = 7 then some (s.sendControl c p)
  else
    (s.flowSlot p.sourcePort qIndex).bind fun i =>
      let s := s.addFlow c i p.sourcePort qIndex
      (s.sendingBuffer i).map fun buffer =>
        dequeueAndTransmit c
          { s with
            sendingBuffer := Function.update s.sendingBuffer i (some (bufferPacket buffer p))
            queue := s.queue.enqueue p
              (if c.qcnEnabled then i else BEgressQueue.classQueue qIndex) }

end Nic

end Ns3Rdma
