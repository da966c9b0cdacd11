import Mathlib.Data.List.Basic

/-! # Segmentation and concatenation

The loop that fills the data field of a PDU from the transmission buffer. It is the same for RLC UM
and RLC AM. -/

namespace Ns3Rdma.Lte

/-- The values of `LteRlcSduStatusTag`. -/
inductive SduStatus where
  | FULL_SDU
  | FIRST_SEGMENT
  | MIDDLE_SEGMENT
  | LAST_SEGMENT
deriving DecidableEq

/-- An SDU or a segment of one, with its tag. -/
structure Segment where
  payload : List UInt8
  status : SduStatus
deriving DecidableEq

namespace Segment

variable (s : Segment)

def getSize : UInt32 := .ofNat s.payload.length

/-- The tags of the two parts of a segment that is split. -/
def splitStatus : SduStatus × SduStatus :=
  match s.status with
  | .FULL_SDU => (.FIRST_SEGMENT, .LAST_SEGMENT)
  | .LAST_SEGMENT => (.MIDDLE_SEGMENT, .LAST_SEGMENT)
  | other => (other, other)

/-- The tag of the first part when the whole segment was taken. -/
def wholeStatus : SduStatus → SduStatus
  | .FIRST_SEGMENT => .FULL_SDU
  | .MIDDLE_SEGMENT => .LAST_SEGMENT
  | other => other

/-- A segment of the given size, and the remaining segment if there is one. -/
def split (currSegmentSize : UInt32) : Segment × Option Segment :=
  let taken := s.payload.take currSegmentSize.toNat
  let remaining := s.payload.drop currSegmentSize.toNat
  if remaining = [] then (⟨taken, wholeStatus s.splitStatus.1⟩, none)
  else (⟨taken, s.splitStatus.1⟩, some ⟨remaining, s.splitStatus.2⟩)

end Segment

/-- What the loop builds: the data field, the extension bits (set when a length indicator follows),
the length indicators, and the transmission buffer that is left. -/
structure DataField where
  segments : List Segment
  extensionBits : List Bool
  lengthIndicators : List UInt16
  txBuffer : List Segment
  txBufferSize : UInt32

namespace DataField

/-- A segment is followed by others. -/
def cons (segment : Segment) (d : DataField) : DataField :=
  { d with
    segments := segment :: d.segments
    extensionBits := true :: d.extensionBits
    lengthIndicators := segment.getSize.toUInt16 :: d.lengthIndicators }

/-- `firstSegment` was removed from the transmission buffer. -/
def fill (nextSegmentSize : UInt32) (nextSegmentId : ℕ) (firstSegment : Segment)
    (txBuffer : List Segment) (txBufferSize : UInt32) : DataField :=
  if firstSegment.getSize = 0 ∨ nextSegmentSize = 0 then ⟨[], [], [], txBuffer, txBufferSize⟩
  else if nextSegmentSize < firstSegment.getSize ∨ 2047 < firstSegment.getSize then
    match firstSegment.split (min firstSegment.getSize nextSegmentSize) with
    | (segment, some remaining) =>
        ⟨[segment], [false], [], remaining :: txBuffer, txBufferSize + remaining.getSize⟩
    | (segment, none) => ⟨[segment], [false], [], txBuffer, txBufferSize⟩
  else
    match txBuffer with
    | [] => ⟨[firstSegment], [false], [], [], txBufferSize⟩
    | second :: rest =>
        if nextSegmentSize - firstSegment.getSize ≤ 2 then
          ⟨[firstSegment], [false], [], second :: rest, txBufferSize⟩
        else
          cons firstSegment (fill
            (nextSegmentSize - ((if nextSegmentId % 2 = 1 then 2 else 1) + firstSegment.getSize))
            (nextSegmentId + 1) second rest (txBufferSize - second.getSize))

/-- `PushExtensionBit`: the bits after the first one are in the header with their length
indicators, two of which have three bytes. -/
def headerLength (fixed : UInt16) : ℕ → UInt16
  | 0 | 1 => fixed
  | n + 2 => headerLength fixed (n + 1) + if (n + 2) % 2 = 1 then 1 else 2

/-- Whether the data field begins with the first byte of an SDU, and ends with the last one. There
is none when the data field is empty. -/
def framingInfo (segments : List Segment) : Option (Bool × Bool) :=
  segments.head?.bind fun first => segments.getLast?.map fun last =>
    (first.status = .FULL_SDU ∨ first.status = .FIRST_SEGMENT,
      last.status = .FULL_SDU ∨ last.status = .LAST_SEGMENT)

def payload (segments : List Segment) : List UInt8 := segments.flatMap Segment.payload

end DataField

end Ns3Rdma.Lte
