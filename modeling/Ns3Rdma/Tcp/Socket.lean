import Ns3Rdma.Tcp.SocketBase
import Ns3Rdma.Tcp.TxBuffer

/-! # A TCP socket from ESTABLISHED on

The handlers of `TcpSocketBase`, without a deadline and without the handshake, whose states are
`none` here like a failed assertion. What the application does in a callback is a call of its own.
-/

namespace Ns3Rdma

/-- The flags that are honoured. -/
structure TcpFlags where
  fin : Bool
  syn : Bool
  rst : Bool
  ack : Bool
deriving DecidableEq

structure TcpHeader where
  sequenceNumber : SequenceNumber32
  ackNumber : SequenceNumber32
  flags : TcpFlags
  windowSize : UInt16

namespace TcpHeader

def NONE : TcpFlags := ⟨false, false, false, false⟩

def FIN : TcpFlags := ⟨true, false, false, false⟩

def SYN : TcpFlags := ⟨false, true, false, false⟩

def RST : TcpFlags := ⟨false, false, true, false⟩

def ACK : TcpFlags := ⟨false, false, false, true⟩

/-- `FIN | ACK`. -/
def FIN_ACK : TcpFlags := ⟨true, false, false, true⟩

/-- `SYN | ACK`. -/
def SYN_ACK : TcpFlags := ⟨false, true, false, true⟩

end TcpHeader

/-- What `m_retxEvent` calls. -/
inductive RetxEvent
  | reTxTimeout
  | sendEmptyPacket (flags : TcpFlags)
deriving DecidableEq

/-- What `TcpReno`, `TcpNewReno` and `TcpRfc793` do in `DupAck ()`. `TcpTahoe`, which goes back to the
head of its buffer there, is not among them. -/
inductive DupAckAction
  | ignore
  | sendPendingData
  | limitedTransmit
  | doRetransmit

/-- What a subclass decides in a call: `Window ()`, the action of `DupAck ()`, and whether `NewAck ()`
retransmits in the end. -/
structure Congestion where
  window : UInt32
  dupAck : DupAckAction
  partialAck : Bool

structure TcpSocketBase where
  state : TcpStates
  txBuffer : TcpTxBuffer
  rxBuffer : TcpRxBuffer
  nextTxSequence : SequenceNumber32
  highTxMark : SequenceNumber32
  rWnd : UInt32
  delAckCount : UInt32
  delAckMaxCount : UInt32
  segmentSize : UInt32
  maxWinSize : UInt16
  noDelay : Bool
  connected : Bool
  /-- Whether `m_endPoint` or `m_endPoint6` is set. -/
  endPoint : Bool
  closeOnEmpty : Bool
  closeNotified : Bool
  shutdownSend : Bool
  /-- The events are `none` or `false` once they have expired. -/
  retxEvent : Option RetxEvent
  delAckEvent : Bool
  persistEvent : Bool
  lastAckEvent : Bool
  timewaitEvent : Bool
  /-- The segments that the socket has sent. -/
  sent : List (TcpHeader × Payload)

namespace TcpSocketBase

/-- What the attributes of a socket decide. -/
structure Config where
  sndBufSize : UInt32
  rcvBufSize : UInt32
  segmentSize : UInt32
  delAckMaxCount : UInt32
  maxWinSize : UInt16
  noDelay : Bool

/-- A connection that is just established. -/
def established (c : Config) (head nextRx : SequenceNumber32) (rWnd : UInt32) : TcpSocketBase where
  state := .ESTABLISHED
  txBuffer := TcpTxBuffer.init head c.sndBufSize
  rxBuffer := TcpRxBuffer.init nextRx c.rcvBufSize
  nextTxSequence := head
  highTxMark := head
  rWnd := rWnd
  delAckCount := 0
  delAckMaxCount := c.delAckMaxCount
  segmentSize := c.segmentSize
  maxWinSize := c.maxWinSize
  noDelay := c.noDelay
  connected := true
  endPoint := true
  closeOnEmpty := false
  closeNotified := false
  shutdownSend := false
  retxEvent := none
  delAckEvent := false
  persistEvent := false
  lastAckEvent := false
  timewaitEvent := false
  sent := []

/-! ## Sending -/

/-- The header of a segment that the socket sends. -/
def header (s : TcpSocketBase) (seq : SequenceNumber32) (flags : TcpFlags) : TcpHeader where
  sequenceNumber := seq
  ackNumber := s.rxBuffer.nextRxSeq
  flags := flags
  windowSize := advertisedWindowSize s.rxBuffer s.maxWinSize

def sendEmptyPacket (s : TcpSocketBase) (flags : TcpFlags) : TcpSocketBase :=
  if s.endPoint = false then s
  else
    let closing := s.state = .FIN_WAIT_1 ∨ s.state = .LAST_ACK ∨ s.state = .CLOSING
    let seq := if flags.fin = false ∧ closing then s.nextTxSequence + (1 : UInt32)
      else s.nextTxSequence
    let flags := if flags.fin then { flags with ack := true } else flags
    { s with
      sent := s.sent ++ [(s.header seq flags, [])]
      delAckEvent := if flags.ack then false else s.delAckEvent
      delAckCount := if flags.ack then 0 else s.delAckCount
      retxEvent := if s.retxEvent = none ∧ flags.fin then some (.sendEmptyPacket flags)
        else s.retxEvent }

/-- The state once a data packet has carried the FIN. -/
def afterFin : TcpStates → TcpStates
  | .ESTABLISHED => .FIN_WAIT_1
  | .CLOSE_WAIT => .LAST_ACK
  | state => state

/-- `SendDataPacket (seq, maxSize, withAck)` and the size that it returns. -/
def sendDataPacket (s : TcpSocketBase) (seq : SequenceNumber32) (maxSize : UInt32)
    (withAck : Bool) : Option (TcpSocketBase × UInt32) :=
  (s.txBuffer.copyFromSequence maxSize seq).map fun p =>
    let sz := p.getSize
    let fin := s.closeOnEmpty && decide (s.txBuffer.sizeFromSequence (seq + sz) = 0)
    ({ s with
        state := if fin then afterFin s.state else s.state
        retxEvent := if s.retxEvent = none then some .reTxTimeout else s.retxEvent
        sent := s.sent ++ [(s.header seq ⟨fin, false, false, withAck⟩, p)]
        highTxMark := if seq + sz < s.highTxMark then s.highTxMark else seq + sz }, sz)

def unAckDataCount (s : TcpSocketBase) : UInt32 :=
  (s.nextTxSequence - s.txBuffer.headSequence).toUInt32

/-- `AvailableWindow ()`, when `Window ()` is `window`. -/
def availableWindow (s : TcpSocketBase) (window : UInt32) : UInt32 :=
  if window < s.unAckDataCount then 0 else window - s.unAckDataCount

/-- The loop of `SendPendingData`. -/
def sendLoop (window : UInt32) (withAck : Bool) : ℕ → TcpSocketBase → Option TcpSocketBase
  | 0, s => some s
  | fuel + 1, s =>
      let remaining := s.txBuffer.sizeFromSequence s.nextTxSequence
      let w := s.availableWindow window
      if remaining = 0 then some s
      else if s.shutdownSend then some s
      else if w < s.segmentSize ∧ w < remaining then some s
      else if s.noDelay = false ∧ 0 < s.unAckDataCount ∧ remaining < s.segmentSize then some s
      else
        (s.sendDataPacket s.nextTxSequence (min w s.segmentSize) withAck).bind fun r =>
          if 0 < r.2 then
            sendLoop window withAck fuel { r.1 with nextTxSequence := s.nextTxSequence + r.2 }
          else some r.1

/-- An iteration stops, or it sends a packet and goes on if that has data. -/
theorem sendLoop_succ {s s' : TcpSocketBase} {window : UInt32} {withAck : Bool} {fuel : ℕ}
    (hloop : sendLoop window withAck (fuel + 1) s = some s') :
    s' = s ∨ ∃ n r, s.sendDataPacket s.nextTxSequence n withAck = some r ∧
      (sendLoop window withAck fuel { r.1 with nextTxSequence := s.nextTxSequence + r.2 } =
        some s' ∨ s' = r.1) := by
  rw [sendLoop] at hloop
  dsimp only at hloop
  split at hloop
  next => exact Or.inl (Option.some.inj hloop).symm
  next =>
    split at hloop
    next => exact Or.inl (Option.some.inj hloop).symm
    next =>
      split at hloop
      next => exact Or.inl (Option.some.inj hloop).symm
      next =>
        split at hloop
        next => exact Or.inl (Option.some.inj hloop).symm
        next =>
          obtain ⟨r, hsend, hrest⟩ := Option.bind_eq_some_iff.mp hloop
          refine Or.inr ⟨_, r, hsend, ?_⟩
          split at hrest
          next => exact Or.inl hrest
          next => exact Or.inr (Option.some.inj hrest).symm

/-- `SendPendingData`. Every iteration that goes on sends a byte at least. -/
def sendPendingData (s : TcpSocketBase) (window : UInt32) (withAck : Bool) :
    Option TcpSocketBase :=
  if s.txBuffer.size = 0 then some s
  else if s.endPoint = false then some s
  else sendLoop window withAck (s.txBuffer.sizeFromSequence s.nextTxSequence).toNat s

def doRetransmit (s : TcpSocketBase) : Option TcpSocketBase :=
  if s.state = .SYN_SENT then none
  else if s.txBuffer.size = 0 then
    some (if s.state = .FIN_WAIT_1 ∨ s.state = .CLOSING then s.sendEmptyPacket TcpHeader.FIN else s)
  else
    (s.sendDataPacket s.txBuffer.headSequence s.segmentSize true).map fun r =>
      { r.1 with
        nextTxSequence :=
          if r.1.nextTxSequence < s.txBuffer.headSequence + r.2 then
            s.txBuffer.headSequence + r.2
          else r.1.nextTxSequence }

/-! ## Closing -/

def cancelAllTimers (s : TcpSocketBase) : TcpSocketBase :=
  { s with
    retxEvent := none
    persistEvent := false
    delAckEvent := false
    lastAckEvent := false
    timewaitEvent := false }

def closeAndNotify (s : TcpSocketBase) : TcpSocketBase :=
  { s.cancelAllTimers with
    closeNotified := true
    state := .CLOSED
    endPoint := false }

def sendRST (s : TcpSocketBase) : TcpSocketBase := s.sendEmptyPacket TcpHeader.RST

def timeWait (s : TcpSocketBase) : TcpSocketBase :=
  { s.cancelAllTimers with
    state := .TIME_WAIT
    timewaitEvent := true }

def doClose (s : TcpSocketBase) : TcpSocketBase :=
  match s.state with
  | .SYN_RCVD | .ESTABLISHED => { s.sendEmptyPacket TcpHeader.FIN with state := .FIN_WAIT_1 }
  | .CLOSE_WAIT => { s.sendEmptyPacket TcpHeader.FIN_ACK with state := .LAST_ACK }
  | .SYN_SENT | .CLOSING => s.sendRST.closeAndNotify
  | .LISTEN | .LAST_ACK => s.closeAndNotify
  | .CLOSED | .FIN_WAIT_1 | .FIN_WAIT_2 | .TIME_WAIT => s

def close (s : TcpSocketBase) : TcpSocketBase :=
  if s.rxBuffer.size ≠ 0 then s.sendRST.closeAndNotify
  else if 0 < s.txBuffer.sizeFromSequence s.nextTxSequence then { s with closeOnEmpty := true }
  else s.doClose

/-! ## Received data -/

/-- `DoPeerClose`, or `none` when its assertion fails. -/
def doPeerClose (s : TcpSocketBase) : Option TcpSocketBase :=
  if s.state = .ESTABLISHED ∨ s.state = .SYN_RCVD then
    let s := { s with state := .CLOSE_WAIT, closeNotified := true }
    let s := if s.shutdownSend then s.close else s.sendEmptyPacket TcpHeader.ACK
    some (if s.state = .LAST_ACK then { s with lastAckEvent := true } else s)
  else none

/-- `ReceivedData` acknowledges what `Add` has stored, at once or with a delay. -/
def acknowledge (s : TcpSocketBase) (expectedSeq : SequenceNumber32) (p : Payload) :
    TcpSocketBase :=
  if s.rxBuffer.availBytes < s.rxBuffer.size ∨ expectedSeq + p.getSize < s.rxBuffer.nextRxSeq then
    s.sendEmptyPacket TcpHeader.ACK
  else if s.delAckMaxCount ≤ s.delAckCount + 1 then
    { s with delAckEvent := false, delAckCount := 0 }.sendEmptyPacket TcpHeader.ACK
  else { s with delAckEvent := true, delAckCount := s.delAckCount + 1 }

def receivedData (s : TcpSocketBase) (p : Payload) (h : TcpHeader) : Option TcpSocketBase :=
  (s.rxBuffer.add p h.sequenceNumber).bind fun r =>
    if r.2 = false then some ({ s with rxBuffer := r.1 }.sendEmptyPacket TcpHeader.ACK)
    else
      let s' := { s with rxBuffer := r.1 }.acknowledge s.rxBuffer.nextRxSeq p
      if s.rxBuffer.nextRxSeq < s'.rxBuffer.nextRxSeq ∧ s'.rxBuffer.finished ∧
          h.flags.fin = false then
        s'.doPeerClose
      else some s'

def peerClose (s : TcpSocketBase) (p : Payload) (h : TcpHeader) : Option TcpSocketBase :=
  if h.sequenceNumber < s.rxBuffer.nextRxSeq ∨ s.rxBuffer.maxRxSequence < h.sequenceNumber then
    some s
  else
    let s := { s with rxBuffer := s.rxBuffer.setFinSequence (h.sequenceNumber + p.getSize) }
    (if p.getSize ≠ 0 then s.receivedData p h else some s).bind fun s =>
      if s.rxBuffer.finished = false then some s
      else if s.state = .FIN_WAIT_1 then some { s with state := .CLOSING }
      else s.doPeerClose

/-! ## Acknowledgements -/

variable (d : Congestion)

def dupAck (s : TcpSocketBase) : Option TcpSocketBase :=
  match d.dupAck with
  | .ignore => some s
  | .sendPendingData => s.sendPendingData d.window s.connected
  | .limitedTransmit =>
      if 0 < s.txBuffer.sizeFromSequence s.nextTxSequence then
        (s.sendDataPacket s.nextTxSequence s.segmentSize true).map fun r =>
          { r.1 with nextTxSequence := r.1.nextTxSequence + r.2 }
      else some s
  | .doRetransmit => s.doRetransmit

/-- The timers at the beginning of `NewAck`. -/
def restartTimers (s : TcpSocketBase) : TcpSocketBase :=
  if s.rWnd = 0 ∧ s.persistEvent = false then { s with retxEvent := none, persistEvent := true }
  else if s.state = .SYN_RCVD then s
  else { s with retxEvent := some .reTxTimeout }

/-- `NewAck (ack)` up to the call of `SendPendingData`. -/
def advance (s : TcpSocketBase) (ack : SequenceNumber32) : Option TcpSocketBase :=
  (s.txBuffer.discardUpTo ack).map fun txBuffer =>
    { s.restartTimers with
      txBuffer := txBuffer
      nextTxSequence := if s.nextTxSequence < ack then ack else s.nextTxSequence
      retxEvent :=
        if txBuffer.size = 0 ∧ s.state ≠ .FIN_WAIT_1 ∧ s.state ≠ .CLOSING then none
        else s.restartTimers.retxEvent }

def newAck (s : TcpSocketBase) (ack : SequenceNumber32) : Option TcpSocketBase :=
  (s.advance ack).bind fun s =>
    (s.sendPendingData d.window s.connected).bind fun s =>
      if d.partialAck then s.doRetransmit else some s

/-- `ReceivedAck` up to the data of the segment. -/
def receivedAckNumber (s : TcpSocketBase) (p : Payload) (h : TcpHeader) : Option TcpSocketBase :=
  if h.flags.ack = false then some s
  else if h.ackNumber < s.txBuffer.headSequence then some s
  else if h.ackNumber = s.txBuffer.headSequence then
    (if h.ackNumber < s.nextTxSequence ∧ p.getSize = 0 then s.dupAck d else some s).bind fun s =>
      if h.ackNumber ≤ s.nextTxSequence then some s else none
  else s.newAck d h.ackNumber

/-- An acknowledgement is ignored, repeats the head of the buffer, or is new. -/
theorem receivedAckNumber_cases {s s' : TcpSocketBase} {p : Payload} {h : TcpHeader}
    (hack : s.receivedAckNumber d p h = some s') :
    s' = s ∨ s.dupAck d = some s' ∨ h.flags.ack = true ∧
      s.txBuffer.headSequence < h.ackNumber ∧ s.newAck d h.ackNumber = some s' := by
  unfold receivedAckNumber at hack
  split at hack
  next => exact Or.inl (Option.some.inj hack).symm
  next hflag =>
    split at hack
    next => exact Or.inl (Option.some.inj hack).symm
    next hold =>
      split at hack
      next =>
        obtain ⟨s₁, hdup, hassert⟩ := Option.bind_eq_some_iff.mp hack
        split at hassert
        next =>
          obtain rfl := Option.some.inj hassert
          split at hdup
          · exact Or.inr (Or.inl hdup)
          · exact Or.inl (Option.some.inj hdup).symm
        next => cases hassert
      next hne =>
        have hnew : s.txBuffer.headSequence < h.ackNumber :=
          (SequenceNumber32.lt_or_eq_of_not_lt hold).resolve_right fun heq => hne heq.symm
        exact Or.inr (Or.inr ⟨by simpa using hflag, hnew, hack⟩)

def receivedAck (s : TcpSocketBase) (p : Payload) (h : TcpHeader) : Option TcpSocketBase :=
  (s.receivedAckNumber d p h).bind fun s =>
    if 0 < p.getSize then s.receivedData p h else some s

/-! ## The handlers of the states -/

def processEstablished (s : TcpSocketBase) (p : Payload) (h : TcpHeader) : Option TcpSocketBase :=
  if h.flags = TcpHeader.ACK then s.receivedAck d p h
  else if h.flags = TcpHeader.SYN ∨ h.flags = TcpHeader.SYN_ACK then some s
  else if h.flags = TcpHeader.FIN ∨ h.flags = TcpHeader.FIN_ACK then s.peerClose p h
  else if h.flags = TcpHeader.NONE then
    (s.receivedData p h).bind fun s => if s.rxBuffer.finished then s.peerClose p h else some s
  else some (if h.flags = TcpHeader.RST then s else s.sendRST).closeAndNotify

/-- The end of `ProcessWait`, where an in-sequence FIN is answered. -/
def finishWait (s : TcpSocketBase) (h : TcpHeader) : TcpSocketBase :=
  if (s.state = .FIN_WAIT_1 ∨ s.state = .FIN_WAIT_2) ∧ s.rxBuffer.finished then
    let s :=
      if s.state = .FIN_WAIT_1 then
        let s := { s with state := .CLOSING }
        if s.txBuffer.size = 0 ∧ h.ackNumber = s.highTxMark + (1 : UInt32) then s.timeWait else s
      else s.timeWait
    s.sendEmptyPacket TcpHeader.ACK
  else s

def processWait (s : TcpSocketBase) (p : Payload) (h : TcpHeader) : Option TcpSocketBase :=
  if 0 < p.getSize ∧ h.flags ≠ TcpHeader.ACK then
    (s.receivedData p h).map fun s => s.finishWait h
  else if h.flags = TcpHeader.ACK then
    (s.receivedAck d p h).map fun s =>
      let s :=
        if s.state = .FIN_WAIT_1 ∧ s.txBuffer.size = 0 ∧
            h.ackNumber = s.highTxMark + (1 : UInt32) then
          { s with state := .FIN_WAIT_2 }
        else s
      s.finishWait h
  else if h.flags = TcpHeader.FIN ∨ h.flags = TcpHeader.FIN_ACK then
    (if h.flags.ack then s.receivedAck d p h else some s).map fun s =>
      { s with rxBuffer := s.rxBuffer.setFinSequence h.sequenceNumber }.finishWait h
  else if h.flags = TcpHeader.SYN ∨ h.flags = TcpHeader.SYN_ACK then some s
  else some (if h.flags = TcpHeader.RST then s else s.sendRST).closeAndNotify

def processClosing (s : TcpSocketBase) (h : TcpHeader) : TcpSocketBase :=
  if h.flags = TcpHeader.ACK then
    if h.sequenceNumber = s.rxBuffer.nextRxSeq then s.timeWait else s
  else if h.flags = TcpHeader.FIN ∨ h.flags = TcpHeader.FIN_ACK then
    (s.sendEmptyPacket TcpHeader.ACK).closeAndNotify
  else (if h.flags = TcpHeader.RST then s else s.sendRST).closeAndNotify

def processLastAck (s : TcpSocketBase) (p : Payload) (h : TcpHeader) : Option TcpSocketBase :=
  if h.flags = TcpHeader.NONE then s.receivedData p h
  else if h.flags = TcpHeader.ACK then
    some (if h.sequenceNumber = s.rxBuffer.nextRxSeq then s.closeAndNotify else s)
  else if h.flags = TcpHeader.FIN then some (s.sendEmptyPacket TcpHeader.FIN_ACK)
  else if h.flags = TcpHeader.FIN_ACK ∨ h.flags = TcpHeader.RST then some s.closeAndNotify
  else some s.sendRST.closeAndNotify

/-- The handler of the state. -/
def process (s : TcpSocketBase) (p : Payload) (h : TcpHeader) : Option TcpSocketBase :=
  match s.state with
  | .ESTABLISHED => s.processEstablished d p h
  | .TIME_WAIT => some s
  | .CLOSED =>
      some
        (if h.flags = TcpHeader.RST then s
        else { s with sent := s.sent ++ [(s.header s.nextTxSequence TcpHeader.RST, [])] })
  | .FIN_WAIT_1 | .FIN_WAIT_2 | .CLOSE_WAIT => s.processWait d p h
  | .CLOSING => some (s.processClosing h)
  | .LAST_ACK => s.processLastAck p h
  | .LISTEN | .SYN_SENT | .SYN_RCVD => none

def doForwardUp (s : TcpSocketBase) (p : Payload) (h : TcpHeader) : Option TcpSocketBase :=
  let s :=
    { s with
      persistEvent := if s.rWnd = 0 ∧ h.windowSize ≠ 0 then false else s.persistEvent
      rWnd := h.windowSize.toUInt32 }
  if p.getSize ≠ 0 ∧
      outOfRange s.state s.rxBuffer h.sequenceNumber (h.sequenceNumber + p.getSize) then
    some (if s.state = .ESTABLISHED ∧ h.flags.rst = false then s.sendEmptyPacket TcpHeader.ACK
      else s)
  else s.process d p h

/-! ## The calls of the application and the timeouts -/

/-- Whether `Send (p)` stores the packet. -/
def accepts (s : TcpSocketBase) (p : Payload) : Bool :=
  (s.state = .ESTABLISHED ∨ s.state = .SYN_SENT ∨ s.state = .CLOSE_WAIT) && (s.txBuffer.add p).2

def send (s : TcpSocketBase) (p : Payload) : Option TcpSocketBase :=
  if s.accepts p then
    let s := { s with txBuffer := (s.txBuffer.add p).1 }
    if s.state = .ESTABLISHED ∨ s.state = .CLOSE_WAIT then
      s.sendPendingData d.window s.connected
    else some s
  else some s

def recv (s : TcpSocketBase) (maxSize : UInt32) : Option TcpSocketBase :=
  if s.rxBuffer.size = 0 ∧ s.state = .CLOSE_WAIT then some s
  else (s.rxBuffer.extract maxSize).map fun r => { s with rxBuffer := r.1 }

def retransmit (s : TcpSocketBase) : Option TcpSocketBase :=
  { s with nextTxSequence := s.txBuffer.headSequence }.doRetransmit

def reTxTimeout (s : TcpSocketBase) : Option TcpSocketBase :=
  let open' := s.state = .LISTEN ∨ s.state = .SYN_SENT ∨ s.state = .SYN_RCVD ∨
    s.state = .ESTABLISHED
  if s.state = .CLOSED ∨ s.state = .TIME_WAIT then some s
  else if open' ∧ s.highTxMark ≤ s.txBuffer.headSequence then some s
  else s.retransmit

/-- The retransmission event runs. -/
def expire (s : TcpSocketBase) : Option TcpSocketBase :=
  match s.retxEvent with
  | none => none
  | some .reTxTimeout => { s with retxEvent := none }.reTxTimeout
  | some (.sendEmptyPacket flags) => some ({ s with retxEvent := none }.sendEmptyPacket flags)

/-- The event goes off, retransmits, or sends the packet it carries. -/
theorem expire_cases {s s' : TcpSocketBase} (hexpire : s.expire = some s') :
    s' = { s with retxEvent := none } ∨
      { s with retxEvent := none }.retransmit = some s' ∨
        ∃ flags, s.retxEvent = some (.sendEmptyPacket flags) ∧
          s' = { s with retxEvent := none }.sendEmptyPacket flags := by
  unfold expire at hexpire
  split at hexpire
  next => cases hexpire
  next =>
    unfold reTxTimeout at hexpire
    dsimp only at hexpire
    split at hexpire
    next => exact Or.inl (Option.some.inj hexpire).symm
    next =>
      split at hexpire
      next => exact Or.inl (Option.some.inj hexpire).symm
      next => exact Or.inr (Or.inl hexpire)
  next flags hretx => exact Or.inr (Or.inr ⟨flags, hretx, (Option.some.inj hexpire).symm⟩)

def delAckTimeout (s : TcpSocketBase) : TcpSocketBase :=
  { s with delAckCount := 0, delAckEvent := false }.sendEmptyPacket TcpHeader.ACK

def lastAckTimeout (s : TcpSocketBase) : TcpSocketBase :=
  if s.state = .LAST_ACK then { s with lastAckEvent := false }.closeAndNotify
  else { s with lastAckEvent := false, closeNotified := true }

def persistTimeout (s : TcpSocketBase) : Option TcpSocketBase :=
  (s.txBuffer.copyFromSequence 1 s.nextTxSequence).map fun p =>
    { s with sent := s.sent ++ [(s.header s.nextTxSequence TcpHeader.NONE, p)] }

inductive Event
  | doForwardUp (p : Payload) (h : TcpHeader)
  | send (p : Payload)
  | recv (maxSize : UInt32)
  | close
  | shutdownSend
  | retxEvent
  | delAckEvent
  | persistEvent
  | lastAckEvent
  | timewaitEvent

/-- A packet arrives, the application calls, or an event that is not expired runs. -/
def step (s : TcpSocketBase) : Congestion × Event → Option TcpSocketBase
  | (d, .doForwardUp p h) => s.doForwardUp d p h
  | (d, .send p) => s.send d p
  | (_, .recv maxSize) => s.recv maxSize
  | (_, .close) => some s.close
  | (_, .shutdownSend) => some { s with shutdownSend := true }
  | (_, .retxEvent) => s.expire
  | (_, .delAckEvent) => if s.delAckEvent then some s.delAckTimeout else none
  | (_, .persistEvent) => if s.persistEvent then s.persistTimeout else none
  | (_, .lastAckEvent) => if s.lastAckEvent then some s.lastAckTimeout else none
  | (_, .timewaitEvent) => if s.timewaitEvent then some s.closeAndNotify else none

end TcpSocketBase

end Ns3Rdma
