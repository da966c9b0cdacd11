import Mathlib.Data.Nat.Bitwise
import Mathlib.Tactic.Cases
import Ns3Rdma.Lib.Word

/-! # Receiving fragments

`MacRxMiddle` keeps one `OriginatorRxStatus` for each originator, and one for each traffic of a QoS
originator. A status remembers one sequence control: a retry with the same one is a duplicate, and
the next fragment has the following one. -/

namespace Ns3Rdma.Wifi

abbrev Packet := List UInt8

structure Mac48Address where
  address : Vector UInt8 6
deriving DecidableEq

def Mac48Address.isGroup (a : Mac48Address) : Bool := a.address[0] &&& 0x01 == 0x01

/-- The fields of the header that are read on reception. -/
structure WifiMacHeader where
  ctrlType : UInt8
  ctrlSubtype : UInt8
  ctrlMoreFrag : Bool
  ctrlRetry : Bool
  addr1 : Mac48Address
  addr2 : Mac48Address
  seqFrag : UInt8
  seqSeq : UInt16
  qosTid : UInt8
deriving DecidableEq

namespace WifiMacHeader

variable (hdr : WifiMacHeader)

def isData : Bool := hdr.ctrlType == 2

def isMgt : Bool := hdr.ctrlType == 0

def isQosData : Bool := hdr.ctrlType == 2 && hdr.ctrlSubtype &&& 0x08 != 0

def getSequenceControl : UInt16 := hdr.seqSeq <<< 4 ||| hdr.seqFrag.toUInt16

end WifiMacHeader

/-! ## The status of an originator -/

structure OriginatorRxStatus where
  defragmenting : Bool
  lastSequenceControl : UInt16
  fragments : List Packet
deriving DecidableEq

namespace OriginatorRxStatus

/-- The last sequence control starts with a magic value. -/
def new : OriginatorRxStatus := ⟨false, 0xffff, []⟩

variable (o : OriginatorRxStatus)

def accumulateFirstFragment (packet : Packet) : Option OriginatorRxStatus :=
  if !o.defragmenting then
    some { o with defragmenting := true, fragments := o.fragments ++ [packet] }
  else none

def accumulateLastFragment (packet : Packet) : Option (OriginatorRxStatus × Packet) :=
  if o.defragmenting then
    some ({ o with defragmenting := false, fragments := [] }, (o.fragments ++ [packet]).flatten)
  else none

def accumulateFragment (packet : Packet) : Option OriginatorRxStatus :=
  if o.defragmenting then some { o with fragments := o.fragments ++ [packet] } else none

def isNextFragment (sequenceControl : UInt16) : Bool :=
  sequenceControl >>> 4 == o.lastSequenceControl >>> 4 &&
    sequenceControl &&& 0x0f == (o.lastSequenceControl &&& 0x0f) + 1

def setSequenceControl (sequenceControl : UInt16) : OriginatorRxStatus :=
  { o with lastSequenceControl := sequenceControl }

def isDuplicate (hdr : WifiMacHeader) : Bool :=
  hdr.ctrlRetry && o.lastSequenceControl == hdr.getSequenceControl

/-- The packet that is complete with this frame, if any. -/
def handleFragments (packet : Packet) (hdr : WifiMacHeader) :
    Option (OriginatorRxStatus × Option Packet) :=
  if o.defragmenting then
    if hdr.ctrlMoreFrag then
      if o.isNextFragment hdr.getSequenceControl then
        (o.accumulateFragment packet).map fun o =>
          (o.setSequenceControl hdr.getSequenceControl, none)
      else some (o, none)
    else if o.isNextFragment hdr.getSequenceControl then
      (o.accumulateLastFragment packet).map fun (o, full) =>
        (o.setSequenceControl hdr.getSequenceControl, some full)
    else some (o, none)
  else if hdr.ctrlMoreFrag then
    (o.accumulateFirstFragment packet).map fun o =>
      (o.setSequenceControl hdr.getSequenceControl, none)
  else some (o, some packet)

/-- What `Receive` does with the status that it looked up. -/
def receive (packet : Packet) (hdr : WifiMacHeader) :
    Option (OriginatorRxStatus × Option Packet) :=
  if o.isDuplicate hdr then some (o, none)
  else
    (o.handleFragments packet hdr).map fun
      | (o, none) => (o, none)
      | (o, some aggregate) =>
          if !hdr.addr1.isGroup then
            (o.setSequenceControl hdr.getSequenceControl, some aggregate)
          else (o, some aggregate)

end OriginatorRxStatus

/-! ## All originators -/

/-- What a status is looked up by. -/
inductive Originator where
  | source (source : Mac48Address)
  | qos (source : Mac48Address) (tid : UInt8)
deriving DecidableEq

def WifiMacHeader.originator (hdr : WifiMacHeader) : Originator :=
  if hdr.isQosData && !hdr.addr2.isGroup then .qos hdr.addr2 hdr.qosTid else .source hdr.addr2

/-- The statuses, where a new one stands for one that was not looked up yet, and what was
forwarded. -/
structure MacRxMiddle where
  originatorStatus : Originator → OriginatorRxStatus
  forwarded : List (Packet × WifiMacHeader)

namespace MacRxMiddle

def new : MacRxMiddle := ⟨fun _ => .new, []⟩

variable (m : MacRxMiddle)

def receive (packet : Packet) (hdr : WifiMacHeader) : Option MacRxMiddle :=
  if hdr.isData || hdr.isMgt then
    ((m.originatorStatus hdr.originator).receive packet hdr).map fun (status, aggregate) =>
      { originatorStatus := Function.update m.originatorStatus hdr.originator status
        forwarded := m.forwarded ++ (aggregate.map (·, hdr)).toList }
  else none

/-- What was forwarded of one originator. -/
def delivered (originator : Originator) : List Packet :=
  (m.forwarded.filter fun p => p.2.originator = originator).map Prod.fst

end MacRxMiddle

end Ns3Rdma.Wifi
