import Mathlib.Algebra.Order.Floor.Ring
import Mathlib.Data.Rat.Floor
import Ns3Rdma.Lib.StepSystem
import Ns3Rdma.Tcp.TxBuffer

/-! # The sender of a NewReno socket

The congestion window, the transmit buffer and the loop that sends what the window allows, in the
ESTABLISHED state. Doubles are rational numbers here. -/

namespace Ns3Rdma

open StepSystem

structure NewRenoConfig where
  segmentSize : UInt32
  retxThresh : UInt32
  limitedTx : Bool
  noDelay : Bool
  ecnConn : Bool

structure TcpNewReno where
  txBuffer : TcpTxBuffer
  nextTxSequence : SequenceNumber32
  highTxMark : SequenceNumber32
  rWnd : UInt32
  dupAckCount : UInt32
  shutdownSend : Bool
  cWnd : UInt32
  ssThresh : UInt32
  recover : SequenceNumber32
  inFastRec : Bool
  ssThreshLastChange : ℕ
  alpha : ℚ
  received : UInt32
  marked : UInt32
  lastwin : UInt32
  /-- The first number and the size of the segments that `SendPendingData` transmitted in the last
  step. -/
  sent : List (SequenceNumber32 × UInt32)

namespace TcpNewReno

/-- `m_g`. -/
def g : ℚ := 1 / 64

/-- A connection on which nothing is sent yet. -/
def established (head : SequenceNumber32) (maxBuffer cWnd ssThresh rWnd : UInt32) : TcpNewReno where
  txBuffer := TcpTxBuffer.init head maxBuffer
  nextTxSequence := head
  highTxMark := head
  rWnd := rWnd
  dupAckCount := 0
  shutdownSend := false
  cWnd := cWnd
  ssThresh := ssThresh
  recover := ⟨0⟩
  inFastRec := false
  ssThreshLastChange := 0
  alpha := 0
  received := 1
  marked := 0
  lastwin := 0
  sent := []

def unAckDataCount (st : TcpNewReno) : UInt32 :=
  (st.nextTxSequence - st.txBuffer.headSequence).toUInt32

def bytesInFlight (st : TcpNewReno) : UInt32 :=
  (st.highTxMark - st.txBuffer.headSequence).toUInt32

/-- The receiver's window is not looked at. -/
def window (st : TcpNewReno) : UInt32 := st.cWnd

def availableWindow (st : TcpNewReno) : UInt32 :=
  if st.window < st.unAckDataCount then 0 else st.window - st.unAckDataCount

variable (c : NewRenoConfig)

/-! ## Sending -/

/-- `SendDataPacket (seq, maxSize)` and the size that it returns. -/
def sendDataPacket (st : TcpNewReno) (seq : SequenceNumber32) (maxSize : UInt32) :
    Option (TcpNewReno × UInt32) :=
  (st.txBuffer.copyFromSequence maxSize seq).map fun p =>
    ({ st with
        highTxMark := if seq + p.getSize < st.highTxMark then st.highTxMark
          else seq + p.getSize }, p.getSize)

/-- The loop of `SendPendingData`. -/
def sendLoop : ℕ → TcpNewReno → Option TcpNewReno
  | 0, st => some st
  | fuel + 1, st =>
      let remaining := st.txBuffer.sizeFromSequence st.nextTxSequence
      let w := st.availableWindow
      if remaining = 0 then some st
      else if st.shutdownSend then some st
      else if w < c.segmentSize ∧ w < remaining then some st
      else if c.noDelay = false ∧ 0 < st.unAckDataCount ∧ remaining < c.segmentSize then some st
      else
        (st.sendDataPacket st.nextTxSequence (min w c.segmentSize)).bind fun r =>
          if 0 < r.2 then
            sendLoop fuel
              { r.1 with
                nextTxSequence := st.nextTxSequence + r.2
                sent := r.1.sent ++ [(st.nextTxSequence, r.2)] }
          else some r.1

/-- `SendPendingData`. An iteration that goes on sends a byte at least, so the number of bytes that
are left bounds the loop. -/
def sendPendingData (st : TcpNewReno) : Option TcpNewReno :=
  if st.txBuffer.size = 0 then some st
  else sendLoop c (st.txBuffer.sizeFromSequence st.nextTxSequence).toNat st

def doRetransmit (st : TcpNewReno) : Option TcpNewReno :=
  if st.txBuffer.size = 0 then some st
  else
    (st.sendDataPacket st.txBuffer.headSequence c.segmentSize).map fun r =>
      { r.1 with
        nextTxSequence :=
          if r.1.nextTxSequence < st.txBuffer.headSequence + r.2 then
            st.txBuffer.headSequence + r.2
          else r.1.nextTxSequence }

/-! ## Acknowledgements -/

/-- `TcpSocketBase::NewAck (ack)` up to the call of `SendPendingData`. -/
def advance (st : TcpNewReno) (ack : SequenceNumber32) : Option TcpNewReno :=
  (st.txBuffer.discardUpTo ack).map fun txBuffer =>
    { st with
      txBuffer := txBuffer
      nextTxSequence := if st.nextTxSequence < ack then ack else st.nextTxSequence }

/-- The estimate of the marked fraction, once for each window. -/
def updateAlpha (st : TcpNewReno) : TcpNewReno :=
  if st.lastwin ≤ st.received then
    { st with
      alpha := (1 - g) * st.alpha + g * st.marked.toNat / st.received.toNat
      received := 0
      marked := 0
      lastwin := st.cWnd }
  else st

/-- `static_cast<uint32_t>` of a double that is not negative. -/
def toUInt32 (x : ℚ) : UInt32 := UInt32.ofNat ⌊x⌋₊

/-- How much a new acknowledgement adds to the window in congestion avoidance. -/
def adder (st : TcpNewReno) : UInt32 :=
  toUInt32 (max 1 ((c.segmentSize * c.segmentSize).toNat / st.cWnd.toNat))

/-- Whether an acknowledgement in fast recovery covers less than `m_recover`. -/
def IsPartial (st : TcpNewReno) (seq : SequenceNumber32) : Prop :=
  st.inFastRec = true ∧ seq < st.recover

instance (st : TcpNewReno) (seq : SequenceNumber32) : Decidable (st.IsPartial seq) :=
  inferInstanceAs (Decidable (_ ∧ _))

def partialAck (st : TcpNewReno) (seq : SequenceNumber32) : TcpNewReno :=
  { st with cWnd := st.cWnd - (seq - st.txBuffer.headSequence).toUInt32 + c.segmentSize }

def fullAck (st : TcpNewReno) (seq : SequenceNumber32) : TcpNewReno :=
  if st.inFastRec = true ∧ st.recover ≤ seq then
    { st with
      cWnd := min st.ssThresh (st.bytesInFlight + c.segmentSize)
      inFastRec := false
      received := st.received + c.segmentSize }
  else st

def increase (st : TcpNewReno) : TcpNewReno :=
  { st with
    cWnd := if st.cWnd < st.ssThresh then st.cWnd + c.segmentSize else st.cWnd + st.adder c
    received := st.received + c.segmentSize }

/-- The window after an acknowledgement of new data. -/
def ackWindow (st : TcpNewReno) (seq : SequenceNumber32) : TcpNewReno :=
  if st.updateAlpha.IsPartial seq then st.updateAlpha.partialAck c seq
  else (st.updateAlpha.fullAck c seq).increase c

/-- `NewAck (seq)`. -/
def newAck (st : TcpNewReno) (seq : SequenceNumber32) : Option TcpNewReno :=
  ((st.ackWindow c seq).advance seq).bind fun st₁ =>
    (st₁.sendPendingData c).bind fun st₂ =>
      if st.IsPartial seq then
        (st₂.doRetransmit c).map fun st₃ => { st₃ with received := st₃.received + c.segmentSize }
      else some st₂

def enterFastRecovery (st : TcpNewReno) (now : ℕ) : TcpNewReno :=
  let ssThresh := max (2 * c.segmentSize) (st.bytesInFlight / 2)
  { st with
    ssThresh := ssThresh
    ssThreshLastChange := now
    cWnd := ssThresh + 3 * c.segmentSize
    recover := st.highTxMark
    inFastRec := true }

def inflate (st : TcpNewReno) : TcpNewReno := { st with cWnd := st.cWnd + c.segmentSize }

/-- `DupAck (t, count)`. -/
def dupAck (st : TcpNewReno) (count : UInt32) (now : ℕ) : Option TcpNewReno :=
  if count = c.retxThresh ∧ st.inFastRec = false then (st.enterFastRecovery c now).doRetransmit c
  else if st.inFastRec = true then (st.inflate c).sendPendingData c
  else if c.limitedTx = true ∧ 0 < st.txBuffer.sizeFromSequence st.nextTxSequence then
    (st.sendDataPacket st.nextTxSequence c.segmentSize).map fun r =>
      { r.1 with nextTxSequence := r.1.nextTxSequence + r.2 }
  else some st

/-- `Retransmit`, when `ReTxTimeout` finds data that are not acknowledged. -/
def retransmit (st : TcpNewReno) (now : ℕ) : Option TcpNewReno :=
  if st.highTxMark ≤ st.txBuffer.headSequence then some st
  else
    doRetransmit c
      { st with
        inFastRec := false
        ssThresh := max (2 * c.segmentSize) (st.bytesInFlight / 2)
        ssThreshLastChange := now
        cWnd := c.segmentSize
        nextTxSequence := st.txBuffer.headSequence }

/-- `tmp` of `HalveCwnd`. -/
def halved (st : TcpNewReno) : ℚ := st.cWnd.toNat - st.alpha / 2 * c.segmentSize.toNat

/-- `HalveCwnd`, where `estimate` is the current one of the round trip time. -/
def halveCwnd (st : TcpNewReno) (now estimate : ℕ) : TcpNewReno :=
  let changes := st.ssThreshLastChange + estimate < now
  { st with
    ssThreshLastChange := if changes then now else st.ssThreshLastChange
    ssThresh := if changes then max (2 * c.segmentSize) (st.bytesInFlight / 2) else st.ssThresh
    marked := st.marked + c.segmentSize
    cWnd := max (toUInt32 (st.halved c)) c.segmentSize }

/-! ## The handlers that a run calls -/

/-- What `ReceivedAck` looks at in a segment, and when. -/
structure AckHeader where
  ackNumber : SequenceNumber32
  windowSize : UInt16
  ece : Bool
  packetSize : UInt32
  now : ℕ
  estimate : ℕ

inductive Event
  | send (p : Payload)
  | shutdownSend
  | window (windowSize : UInt16)
  | halveCwnd (ackNumber : SequenceNumber32) (now estimate : ℕ)
  | newAck (ackNumber : SequenceNumber32)
  | dupAck (now : ℕ)
  | retransmit (now : ℕ)

/-- A handler runs in the case of `ReceivedAck` that calls it. -/
def step (st : TcpNewReno) (e : Event) : Option TcpNewReno :=
  let st := { st with sent := [] }
  match e with
  | .send p =>
      let r := st.txBuffer.add p
      if r.2 then sendPendingData c { st with txBuffer := r.1 } else some st
  | .shutdownSend => some { st with shutdownSend := true }
  | .window windowSize => some { st with rWnd := windowSize.toUInt32 }
  | .halveCwnd ack now estimate =>
      if st.txBuffer.headSequence < ack then some (st.halveCwnd c now estimate) else none
  | .newAck ack =>
      if st.txBuffer.headSequence < ack then
        (st.newAck c ack).map fun st => { st with dupAckCount := 0 }
      else none
  | .dupAck now =>
      if st.txBuffer.headSequence < st.nextTxSequence then
        dupAck c { st with dupAckCount := st.dupAckCount + 1 } (st.dupAckCount + 1) now
      else none
  | .retransmit now => st.retransmit c now

/-- The segment as `DoForwardUp` and `ReceivedAck` treat it. -/
def receivedAck (st : TcpNewReno) (h : AckHeader) : Option TcpNewReno :=
  let st := { st with sent := [], rWnd := h.windowSize.toUInt32 }
  if h.ackNumber < st.txBuffer.headSequence then some st
  else if h.ackNumber = st.txBuffer.headSequence then
    (if h.ackNumber < st.nextTxSequence ∧ h.packetSize = 0 then
      dupAck c { st with dupAckCount := st.dupAckCount + 1 } (st.dupAckCount + 1) h.now
    else some st).bind fun st => if h.ackNumber ≤ st.nextTxSequence then some st else none
  else
    let st := if c.ecnConn = true ∧ h.ece = true then st.halveCwnd c h.now h.estimate else st
    (st.newAck c h.ackNumber).map fun st => { st with dupAckCount := 0 }

/-- The handlers that a segment calls. -/
def calls (st : TcpNewReno) (h : AckHeader) : List Event :=
  if h.ackNumber < st.txBuffer.headSequence then [.window h.windowSize]
  else if h.ackNumber = st.txBuffer.headSequence then
    if h.ackNumber < st.nextTxSequence ∧ h.packetSize = 0 then
      [.window h.windowSize, .dupAck h.now]
    else [.window h.windowSize]
  else if c.ecnConn = true ∧ h.ece = true then
    [.window h.windowSize, .halveCwnd h.ackNumber h.now h.estimate, .newAck h.ackNumber]
  else [.window h.windowSize, .newAck h.ackNumber]

variable {c} {st st' : TcpNewReno}

/-- A segment does what the handlers do that it calls. -/
theorem receivedAck_eq_run {h : AckHeader} (hack : st.receivedAck c h = some st') :
    run (step c) st (st.calls c h) = some st' := by
  obtain ⟨st₁, hst₁⟩ : ∃ st₁ : TcpNewReno,
      st₁ = { st with sent := [], rWnd := h.windowSize.toUInt32 } := ⟨_, rfl⟩
  have hwindow : step c st (.window h.windowSize) = some st₁ := congrArg some hst₁.symm
  have hbuffer : st.txBuffer = st₁.txBuffer := by rw [hst₁]
  have hnext : st.nextTxSequence = st₁.nextTxSequence := by rw [hst₁]
  unfold receivedAck at hack
  rw [← hst₁] at hack
  dsimp only at hack
  unfold calls
  rw [hbuffer, hnext]
  by_cases hold : h.ackNumber < st₁.txBuffer.headSequence
  · rw [if_pos hold] at hack ⊢
    rw [run_cons_of_step _ hwindow]
    exact hack
  rw [if_neg hold] at hack ⊢
  by_cases heq : h.ackNumber = st₁.txBuffer.headSequence
  · rw [if_pos heq] at hack ⊢
    obtain ⟨st₂, hdup, hassert⟩ := Option.bind_eq_some_iff.mp hack
    split at hassert
    next =>
      obtain rfl := Option.some.inj hassert
      by_cases hcase : h.ackNumber < st₁.nextTxSequence ∧ h.packetSize = 0
      · rw [if_pos hcase] at hdup ⊢
        have hstep : step c st₁ (.dupAck h.now) = some st₂ := by
          subst hst₁
          exact (if_pos (heq ▸ hcase.1)).trans hdup
        rw [run_cons_of_step _ hwindow, run_cons_of_step _ hstep]
        rfl
      · rw [if_neg hcase] at hdup ⊢
        rw [run_cons_of_step _ hwindow]
        exact hdup
    next => cases hassert
  · have hnew : st₁.txBuffer.headSequence < h.ackNumber :=
      (SequenceNumber32.lt_or_eq_of_not_lt hold).resolve_right fun h => heq h.symm
    rw [if_neg heq] at hack ⊢
    by_cases hece : c.ecnConn = true ∧ h.ece = true
    · rw [if_pos hece] at hack ⊢
      have hhalve : step c st₁ (.halveCwnd h.ackNumber h.now h.estimate) =
          some (st₁.halveCwnd c h.now h.estimate) := by
        subst hst₁
        exact if_pos hnew
      have hstep : step c (st₁.halveCwnd c h.now h.estimate) (.newAck h.ackNumber) = some st' := by
        subst hst₁
        exact (if_pos hnew).trans hack
      rw [run_cons_of_step _ hwindow, run_cons_of_step _ hhalve,
        run_cons_of_step _ hstep]
      rfl
    · rw [if_neg hece] at hack ⊢
      have hstep : step c st₁ (.newAck h.ackNumber) = some st' := by
        subst hst₁
        exact (if_pos hnew).trans hack
      rw [run_cons_of_step _ hwindow, run_cons_of_step _ hstep]
      rfl

end TcpNewReno

end Ns3Rdma
