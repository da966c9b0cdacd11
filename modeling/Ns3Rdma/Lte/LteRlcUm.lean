import Ns3Rdma.Lte.LteRlcHeader
import Ns3Rdma.Lte.Segmentation

/-! # RLC UM

The transmitting side builds a PDU of what waits in its buffer. The receiving side keeps the PDUs
that it cannot deliver yet, and `ReassembleAndDeliver` is an automaton that puts the SDUs of the
following PDUs together. `none` stands for undefined behaviour or a failed assertion. -/

namespace Ns3Rdma.Lte

/-! ## The transmitting side -/

structure UmTransmitter where
  txBuffer : List Segment
  txBufferSize : UInt32
  sequenceNumber : SequenceNumber10

namespace UmTransmitter

def new : UmTransmitter := ⟨[], 0, .ofUInt16 0⟩

variable (s : UmTransmitter)

/-- An SDU is accepted as long as the buffer has room for it. -/
def accepts (maxTxBufferSize : UInt32) (sdu : List UInt8) : Bool :=
  s.txBufferSize + .ofNat sdu.length ≤ maxTxBufferSize

def doTransmitPdcpPdu (maxTxBufferSize : UInt32) (sdu : List UInt8) : UmTransmitter :=
  if s.accepts maxTxBufferSize sdu then
    { s with
      txBuffer := s.txBuffer ++ [⟨sdu, .FULL_SDU⟩]
      txBufferSize := s.txBufferSize + .ofNat sdu.length }
  else s

/-- `AddHeader`: room is made for as many bytes as `m_headerLength` says. A header of another size
is written over the data field and what lies behind it. -/
def addHeader (h : LteRlcHeader) (payload : List UInt8) : Option (List UInt8) :=
  if h.serialize.length = (DataField.headerLength 2 h.extensionBits.length).toNat then
    some (h.serialize ++ payload)
  else none

def header (d : DataField) (framingInfo : Bool × Bool) : LteRlcHeader :=
  ⟨framingInfo, s.sequenceNumber.value, d.extensionBits, d.lengthIndicators.map UInt16.toNat⟩

/-- The PDU of a data field. -/
def buildPdu (d : DataField) : Option (UmTransmitter × List UInt8) :=
  (DataField.framingInfo d.segments).bind fun framingInfo =>
    (addHeader (s.header d framingInfo) (DataField.payload d.segments)).map fun pdu =>
      (⟨d.txBuffer, d.txBufferSize, s.sequenceNumber.succ⟩, pdu)

/-- The data field that an opportunity of more than two bytes is filled with. -/
def dataField (bytes : UInt32) (first : Segment) (rest : List Segment) : DataField :=
  .fill (bytes - 2) 1 first rest (s.txBufferSize - first.getSize)

def doNotifyTxOpportunity (bytes : UInt32) : Option (UmTransmitter × Option (List UInt8)) :=
  if bytes ≤ 2 then some (s, none)
  else
    match s.txBuffer with
    | [] => some (s, none)
    | first :: rest => (s.buildPdu (s.dataField bytes first rest)).map fun (s, pdu) => (s, some pdu)

end UmTransmitter

/-! ## Reassembling -/

inductive ReassemblingState where
  | WAITING_S0_FULL
  | WAITING_SI_SF
deriving DecidableEq

/-- The members that `ReassembleAndDeliver` works on, and what was delivered. -/
structure Reassembler where
  reassemblingState : ReassemblingState
  keepS0 : Option (List UInt8)
  sdusBuffer : List (List UInt8)
  expectedSeqNumber : SequenceNumber10
  delivered : List (List UInt8)

namespace Reassembler

def new : Reassembler := ⟨.WAITING_S0_FULL, none, [], .ofUInt16 0, []⟩

/-- The packet is cut at the length indicators. -/
def cutSdus : List Bool → List ℕ → List UInt8 → Option (List (List UInt8))
  | false :: _, _, packet => some [packet]
  | true :: bits, lengthIndicator :: indicators, packet =>
      if lengthIndicator ≤ packet.length then
        (cutSdus bits indicators (packet.drop lengthIndicator)).map
          (packet.take lengthIndicator :: ·)
      else none
  | _, _, _ => none

variable (r : Reassembler)

/-- Deliver all SDUs of the buffer. -/
def deliverAll : Reassembler :=
  { r with
    reassemblingState := .WAITING_S0_FULL
    delivered := r.delivered ++ r.sdusBuffer
    sdusBuffer := [] }

/-- Deliver all SDUs but the last one, and keep that. -/
def deliverAndKeep : Option Reassembler :=
  r.sdusBuffer.getLast?.map fun last =>
    { r with
      reassemblingState := .WAITING_SI_SF
      delivered := r.delivered ++ r.sdusBuffer.dropLast
      keepS0 := some last
      sdusBuffer := [] }

/-- Drop the first part of the buffer. -/
def popFront : Reassembler := { r with sdusBuffer := r.sdusBuffer.tail }

/-- The transitions while no SDU is waited for; a segment that continues one is discarded. -/
def startAnew : Bool × Bool → Option Reassembler
  | (true, true) => some r.deliverAll
  | (true, false) => r.deliverAndKeep
  | (false, true) => some r.popFront.deliverAll
  | (false, false) =>
      if r.sdusBuffer.length = 1 then
        some { r.popFront with reassemblingState := .WAITING_S0_FULL }
      else r.popFront.deliverAndKeep

/-- The transitions that continue the SDU that is kept. -/
def continueS0 : Bool × Bool → Option Reassembler
  | (false, true) =>
      r.keepS0.bind fun keepS0 => r.sdusBuffer.head?.map fun front =>
        ({ r with delivered := r.delivered ++ [keepS0 ++ front] } : Reassembler).popFront.deliverAll
  | (false, false) =>
      r.keepS0.bind fun keepS0 => r.sdusBuffer.head?.bind fun front =>
        if r.sdusBuffer.length = 1 then
          some ({ r with keepS0 := some (keepS0 ++ front) } : Reassembler).popFront
        else
          ({ r with delivered := r.delivered ++ [keepS0 ++ front] } :
            Reassembler).popFront.deliverAndKeep
  | (true, _) => some r

/-- `ReassembleAndDeliver`. A number that is not the expected one means that a PDU was lost. -/
def reassembleAndDeliver (packet : List UInt8) : Option Reassembler :=
  (LteRlcHeader.deserialize packet).bind fun (h, _) =>
    -- `RemoveHeader` removes as many bytes as the header says, a number of sixteen bits.
    let size := (DataField.headerLength 2 h.extensionBits.length).toNat
    (cutSdus h.extensionBits h.lengthIndicators (packet.drop size)).bind fun sdus =>
      let currSeqNumber : SequenceNumber10 := ⟨h.sequenceNumber, 0⟩
      let expectedSnLost := currSeqNumber.value ≠ r.expectedSeqNumber.value
      let r := { r with
        expectedSeqNumber :=
          if expectedSnLost then currSeqNumber.add 1 else r.expectedSeqNumber.succ
        sdusBuffer := r.sdusBuffer ++ sdus }
      match r.reassemblingState with
      | .WAITING_S0_FULL => r.startAnew h.framingInfo
      | .WAITING_SI_SF =>
          if expectedSnLost then startAnew { r with keepS0 := none } h.framingInfo
          else r.continueS0 h.framingInfo

end Reassembler

/-! ## The receiving side -/

/-- The reception buffer is a map from numbers to packets, in the order of the numbers. -/
structure UmReceiver where
  vrUr : SequenceNumber10
  vrUx : SequenceNumber10
  vrUh : SequenceNumber10
  rxBuffer : List (ℕ × List UInt8)
  reorderingTimer : Bool
  reassembler : Reassembler

namespace UmReceiver

def windowSize : UInt16 := 512

def new : UmReceiver := ⟨.ofUInt16 0, .ofUInt16 0, .ofUInt16 0, [], false, .new⟩

/-- Store a packet under its number. -/
def store (seq : ℕ) (packet : List UInt8) : List (ℕ × List UInt8) → List (ℕ × List UInt8)
  | [] => [(seq, packet)]
  | (other, stored) :: rest =>
      if seq < other then (seq, packet) :: (other, stored) :: rest
      else if seq = other then (seq, packet) :: rest
      else (other, stored) :: store seq packet rest

variable (s : UmReceiver)

def lookup (seq : ℕ) : Option (List UInt8) := s.rxBuffer.lookup seq

/-- `IsInsideReorderingWindow`. The numbers are compared from the beginning of the window. -/
def isInsideReorderingWindow (seqNumber : SequenceNumber10) : Bool :=
  let low := s.vrUh.sub windowSize
  let seqNumber := seqNumber.setModulusBase low
  (low.setModulusBase low).le seqNumber && seqNumber.lt (s.vrUh.setModulusBase low)

/-- `ReassembleOutsideWindow`: the loop over the buffer. -/
def reassembleOutsideWindow : List (ℕ × List UInt8) → Reassembler →
    Option (List (ℕ × List UInt8) × Reassembler)
  | [], r => some ([], r)
  | (seq, packet) :: rest, r =>
      if !s.isInsideReorderingWindow (.ofUInt16 (.ofNat seq)) then
        (r.reassembleAndDeliver packet).bind (reassembleOutsideWindow rest)
      else some ((seq, packet) :: rest, r)

/-- `ReassembleSnInterval`. There are 1024 numbers. -/
def reassembleSnInterval (high : SequenceNumber10) :
    ℕ → SequenceNumber10 → UmReceiver → Option UmReceiver
  | 0, _, _ => none
  | fuel + 1, reassembleSn, s =>
      if reassembleSn.lt high then
        match s.lookup reassembleSn.value.val with
        | some packet =>
            (s.reassembler.reassembleAndDeliver packet).bind fun reassembler =>
              reassembleSnInterval high fuel reassembleSn.succ
                { s with
                  reassembler := reassembler
                  rxBuffer := s.rxBuffer.filter fun p => p.1 ≠ reassembleSn.value.val }
        | none => reassembleSnInterval high fuel reassembleSn.succ s
      else some s

/-- The first number from `newVrUr` on that is not in the buffer, which has at most 1024. -/
def firstMissing : ℕ → ℕ → ℕ
  | 0, newVrUr => newVrUr
  | fuel + 1, newVrUr =>
      if (s.lookup newVrUr).isSome then firstMissing fuel (newVrUr + 1) else newVrUr

/-- The number is outside of the window: move the window. -/
def moveWindow (seqNumber : SequenceNumber10) : Option UmReceiver :=
  if !s.isInsideReorderingWindow seqNumber then
    let vrUh := seqNumber.add 1
    let s := { s with vrUh := vrUh.setModulusBase (vrUh.sub windowSize) }
    (s.reassembleOutsideWindow s.rxBuffer s.reassembler).map fun (rxBuffer, reassembler) =>
      { s with
        rxBuffer := rxBuffer
        reassembler := reassembler
        vrUr := if !s.isInsideReorderingWindow s.vrUr then s.vrUh.sub windowSize else s.vrUr }
  else some s

/-- Deliver from VR(UR) on what is in the buffer. -/
def deliverFromVrUr : Option UmReceiver :=
  match s.lookup s.vrUr.value.val with
  | some _ =>
      let newVrUr := s.firstMissing 1024 (s.vrUr.value.val + 1)
      let high := { s.vrUr with value := SequenceNumber10.wrap newVrUr }
      reassembleSnInterval high 1025 s.vrUr { s with vrUr := high }
  | none => some s

/-- Stop and start the reordering timer. -/
def updateTimer : UmReceiver :=
  let low := s.vrUh.sub windowSize
  let s := { s with
    vrUr := s.vrUr.setModulusBase low
    vrUx := s.vrUx.setModulusBase low
    vrUh := s.vrUh.setModulusBase low }
  let running := s.reorderingTimer && !(s.vrUx.le s.vrUr ||
    (!s.isInsideReorderingWindow s.vrUx && s.vrUx.value != s.vrUh.value))
  if !running && s.vrUh.gt s.vrUr then { s with reorderingTimer := true, vrUx := s.vrUh }
  else { s with reorderingTimer := running }

def doReceivePdu (packet : List UInt8) : Option UmReceiver :=
  (LteRlcHeader.deserialize packet).bind fun (h, _) =>
    let low := s.vrUh.sub windowSize
    let s := { s with
      vrUr := s.vrUr.setModulusBase low
      vrUh := s.vrUh.setModulusBase low }
    let seqNumber := SequenceNumber10.setModulusBase ⟨h.sequenceNumber, 0⟩ low
    if (s.vrUr.lt seqNumber && seqNumber.lt s.vrUh && (s.lookup seqNumber.value.val).isSome) ||
        ((s.vrUh.sub windowSize).le seqNumber && seqNumber.lt s.vrUr) then
      some s
    else
      let s := { s with rxBuffer := store seqNumber.value.val packet s.rxBuffer }
      ((s.moveWindow seqNumber).bind deliverFromVrUr).map updateTimer

end UmReceiver

end Ns3Rdma.Lte
