import Ns3Rdma.Lte.LteRlcHeader
import Ns3Rdma.Lte.Segmentation

/-! # The transmitting side of RLC AM

A new PDU takes the number VT(S). It is kept in `m_txedBuffer`, and a STATUS PDU removes it, or
moves it to `m_retxBuffer`, from which it is sent again. Both have an entry for each sequence
number. -/

namespace Ns3Rdma.Lte

/-- The header of a data PDU. -/
structure LteRlcAmHeader where
  headerLength : UInt16
  resegmentationFlag : Bool
  pollingBit : Bool
  framingInfo : Bool × Bool
  sequenceNumber : SequenceNumber10
  lastSegmentFlag : Bool
  segmentOffset : UInt16
  extensionBits : List Bool
  lengthIndicators : List UInt16
deriving DecidableEq

structure AmPdu where
  header : LteRlcAmHeader
  payload : List UInt8
deriving DecidableEq

def AmPdu.getSize (pdu : AmPdu) : UInt32 :=
  .ofNat (pdu.header.headerLength.toNat + pdu.payload.length)

/-- An entry of `m_retxBuffer`. -/
structure RetxBuffer where
  pdu : Option AmPdu
  retxCount : UInt16

structure LteRlcAm where
  txonBuffer : List Segment
  txonBufferSize : UInt32
  txedBuffer : Fin 1024 → Option AmPdu
  txedBufferSize : UInt32
  retxBuffer : Fin 1024 → RetxBuffer
  retxBufferSize : UInt32
  statusPduRequested : Bool
  vtA : SequenceNumber10
  vtMs : SequenceNumber10
  vtS : SequenceNumber10
  pollSn : SequenceNumber10
  vrR : SequenceNumber10
  pduWithoutPoll : UInt32
  byteWithoutPoll : UInt32

/-- What is handed to the MAC. -/
inductive Transmission where
  | status (ackSn : SequenceNumber10)
  | retransmission (pdu : AmPdu)
  | data (pdu : AmPdu)

namespace LteRlcAm

def windowSize : UInt16 := 512

def pollPdu : UInt32 := 1

def pollByte : UInt32 := 50

def new : LteRlcAm where
  txonBuffer := []
  txonBufferSize := 0
  txedBuffer := fun _ => none
  txedBufferSize := 0
  retxBuffer := fun _ => ⟨none, 0⟩
  retxBufferSize := 0
  statusPduRequested := false
  vtA := .ofUInt16 0
  vtMs := (SequenceNumber10.ofUInt16 0).add windowSize
  vtS := .ofUInt16 0
  pollSn := .ofUInt16 0
  vrR := .ofUInt16 0
  pduWithoutPoll := 0
  byteWithoutPoll := 0

variable (s : LteRlcAm)

def doTransmitPdcpPdu (sdu : List UInt8) : LteRlcAm :=
  { s with
    txonBuffer := s.txonBuffer ++ [⟨sdu, .FULL_SDU⟩]
    txonBufferSize := s.txonBufferSize + .ofNat sdu.length }

/-- The polling bit of a PDU with this payload, when the number after it is VT(S). Neither array of
1024 entries is empty. -/
def polls (payload : List UInt8) (vtS : SequenceNumber10) : Bool :=
  s.pduWithoutPoll + 1 ≥ pollPdu ∨ s.byteWithoutPoll + .ofNat payload.length ≥ pollByte ∨
    vtS.ge s.vtMs

/-- The bytes that `Serialize` writes for a data field: four, and the length indicators, which are
written as those of RLC UM. -/
def writtenLength (d : DataField) : ℕ :=
  4 + (LteRlcHeader.serializeFields d.extensionBits.tail
    (d.lengthIndicators.map UInt16.toNat)).length

/-- Build a new PDU from the data field, and keep it. `AddHeader` makes room for as many bytes as
`m_headerLength` says; a header of another size is written over what lies behind. -/
def transmitData (d : DataField) : Option (LteRlcAm × AmPdu) :=
  (DataField.framingInfo d.segments).bind fun framingInfo =>
    let payload := DataField.payload d.segments
    let poll := s.polls payload s.vtS.succ
    let pdu : AmPdu :=
      { header :=
          { headerLength := DataField.headerLength 4 d.extensionBits.length
            resegmentationFlag := false
            pollingBit := poll
            framingInfo := framingInfo
            sequenceNumber := s.vtS
            lastSegmentFlag := true
            segmentOffset := 0
            extensionBits := d.extensionBits
            lengthIndicators := d.lengthIndicators }
        payload := payload }
    if writtenLength d = (DataField.headerLength 4 d.extensionBits.length).toNat then
      some
        ({ s with
            txonBuffer := d.txBuffer
            txonBufferSize := d.txBufferSize
            txedBuffer := Function.update s.txedBuffer s.vtS.value (some pdu)
            txedBufferSize := s.txedBufferSize + pdu.getSize
            vtS := s.vtS.succ
            pollSn := if poll then s.vtS.succ.sub 1 else s.pollSn
            pduWithoutPoll := if poll then 0 else s.pduWithoutPoll + 1
            byteWithoutPoll := if poll then 0 else s.byteWithoutPoll + .ofNat payload.length }, pdu)
    else none

/-- `none` stands for undefined behaviour: there is no PDU to send again, the data field is empty,
or its header overruns. -/
def doNotifyTxOpportunity (bytes : UInt32) : Option (LteRlcAm × Option Transmission) :=
  if bytes ≤ 2 then some (s, none)
  else if s.statusPduRequested then some (s, some (.status s.vrR))
  else if 0 < s.retxBufferSize then
    (s.retxBuffer s.vtA.value).pdu.map fun pdu =>
      if pdu.getSize ≤ bytes then (s, some (.retransmission pdu)) else (s, none)
  else if 0 < s.txonBufferSize then
    match s.txonBuffer with
    | [] => some (s, none)
    | first :: rest =>
        (s.transmitData (.fill (bytes - 4) 1 first rest (s.txonBufferSize - first.getSize))).map
          fun (s, pdu) => (s, some (.data pdu))
  else some (s, none)

/-! ## STATUS PDUs -/

/-- VT(A) was acknowledged. -/
def acknowledge : LteRlcAm :=
  { s with
    txedBuffer := Function.update s.txedBuffer s.vtA.value none
    txedBufferSize := match s.txedBuffer s.vtA.value with
      | some pdu => s.txedBufferSize - pdu.getSize
      | none => s.txedBufferSize
    retxBuffer := match (s.retxBuffer s.vtA.value).pdu with
      | some _ => Function.update s.retxBuffer s.vtA.value ⟨none, 0⟩
      | none => s.retxBuffer
    retxBufferSize := match (s.retxBuffer s.vtA.value).pdu with
      | some pdu => s.retxBufferSize - pdu.getSize
      | none => s.retxBufferSize
    vtA := s.vtA.succ }

/-- The first loop. -/
def acknowledgeUpTo (ackSn : SequenceNumber10) : ℕ → LteRlcAm → Option LteRlcAm
  | 0, _ => none
  | fuel + 1, s =>
      if s.vtA.lt ackSn && s.vtA.lt s.vtS then acknowledgeUpTo ackSn fuel s.acknowledge else some s

/-- A number that was not acknowledged. -/
def retransmit (seqNumber : Fin 1024) : LteRlcAm :=
  match s.txedBuffer seqNumber with
  | some pdu =>
      { s with
        retxBuffer := Function.update s.retxBuffer seqNumber ⟨some pdu, 0⟩
        retxBufferSize := s.retxBufferSize + pdu.getSize
        txedBuffer := Function.update s.txedBuffer seqNumber none
        txedBufferSize := s.txedBufferSize - pdu.getSize }
  | none =>
      match (s.retxBuffer seqNumber).pdu with
      | some pdu =>
          { s with
            retxBuffer := Function.update s.retxBuffer seqNumber
              ⟨some pdu, (s.retxBuffer seqNumber).retxCount + 1⟩ }
      | none => s

/-- The second loop. -/
def retransmitFrom : ℕ → SequenceNumber10 → LteRlcAm → Option LteRlcAm
  | 0, _, _ => none
  | fuel + 1, seqNumber, s =>
      if seqNumber.lt s.vtS then retransmitFrom fuel seqNumber.succ (s.retransmit seqNumber.value)
      else some s

/-- `DoReceivePdu` of a STATUS PDU. The loops end within the numbers there are. -/
def receiveStatusPdu (ackSn : SequenceNumber10) : Option LteRlcAm :=
  (acknowledgeUpTo ackSn 1025 s).bind fun s => retransmitFrom 1025 s.vtA s

end LteRlcAm

end Ns3Rdma.Lte
