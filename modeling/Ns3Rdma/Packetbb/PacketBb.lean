import Mathlib.Data.UInt
import Ns3Rdma.Lib.Codec

/-!
# RFC 5444 packets

TLVs, TLV blocks, messages and packets, with what writes and reads them. A field with a `has` flag
is an `Option`. Flags and sizes are written last, at positions that were left open.
-/

namespace Ns3Rdma

open Codec

/-- Positions in the buffer that `Serialize` writes. -/
abbrev Writer := Cursor UInt8

namespace Writer

def writeU8 (c : Writer) (v : UInt8) : Writer := c.write [v]

/-- The bytes of a 16-bit value, the high one first. -/
def htonU16 (v : UInt16) : List UInt8 := [(v >>> 8).toUInt8, v.toUInt8]

def writeHtonU16 (c : Writer) (v : UInt16) : Writer := c.write (htonU16 v)

/-- `GetDistanceFrom` an earlier position. -/
def distanceFrom (c : Writer) (position : ℕ) : ℕ := c.current - position

end Writer

namespace Reader

def readU8 : List UInt8 → Option (UInt8 × List UInt8)
  | [] => none
  | v :: rest => some (v, rest)

def readNtohU16 : List UInt8 → Option (UInt16 × List UInt8)
  | high :: low :: rest => some (high.toUInt16 <<< 8 ||| low.toUInt16, rest)
  | _ => none

/-- Read a number of bytes. -/
def read (n : ℕ) (bytes : List UInt8) : Option (List UInt8 × List UInt8) :=
  if n ≤ bytes.length then some (bytes.take n, bytes.drop n) else none

/-- A field that is read if its flag is set. -/
def readIf {α : Type} (flag : Bool) (decode : List UInt8 → Option (α × List UInt8))
    (bytes : List UInt8) : Option (Option α × List UInt8) :=
  if flag then (decode bytes).map fun r => (some r.1, r.2) else some (none, bytes)

end Reader

open Writer

/-- `GetSize ()` of a list of bytes. -/
def byteCount (bytes : List UInt8) : UInt32 := UInt32.ofNat bytes.length

/-- Whether a flag is set. -/
def hasFlag (flags flag : UInt8) : Bool := flags &&& flag ≠ 0

def PHAS_SEQ_NUM : UInt8 := 0x8
def PHAS_TLV : UInt8 := 0x4

def MHAS_ORIG : UInt8 := 0x80
def MHAS_HOP_LIMIT : UInt8 := 0x40
def MHAS_HOP_COUNT : UInt8 := 0x20
def MHAS_SEQ_NUM : UInt8 := 0x10

def THAS_TYPE_EXT : UInt8 := 0x80
def THAS_SINGLE_INDEX : UInt8 := 0x40
def THAS_MULTI_INDEX : UInt8 := 0x20
def THAS_VALUE : UInt8 := 0x10
def THAS_EXT_LEN : UInt8 := 0x08
def TIS_MULTIVALUE : UInt8 := 0x04

/-! ## TLVs -/

structure PbbTlv where
  type : UInt8
  typeExt : Option UInt8
  indexStart : Option UInt8
  indexStop : Option UInt8
  isMultivalue : Bool
  value : Option (List UInt8)
deriving DecidableEq

namespace PbbTlv

def getSerializedSize (t : PbbTlv) : UInt32 :=
  2 + (if t.typeExt.isSome then 1 else 0) + (if t.indexStart.isSome then 1 else 0) +
    (if t.indexStop.isSome then 1 else 0) +
      match t.value with
      | none => 0
      | some value => (if 255 < byteCount value then 2 else 1) + byteCount value

/-- The flags that `Serialize` collects. -/
def flags (t : PbbTlv) : UInt8 :=
  (if t.typeExt.isSome then THAS_TYPE_EXT else 0) |||
    (match t.indexStart, t.indexStop with
      | some _, some _ => THAS_MULTI_INDEX
      | some _, none => THAS_SINGLE_INDEX
      | none, _ => 0) |||
    (match t.value with
      | none => 0
      | some value => THAS_VALUE ||| (if 255 < byteCount value then THAS_EXT_LEN else 0) |||
          (if t.isMultivalue then TIS_MULTIVALUE else 0))

/-- The indices that `Serialize` writes: the stop only behind a start. -/
def writeIndices (t : PbbTlv) (start : Writer) : Writer :=
  match t.indexStart with
  | some index => (writeU8 start index).write t.indexStop.toList
  | none => start

/-- The value that `Serialize` writes, behind its length. -/
def writeValue (t : PbbTlv) (start : Writer) : Writer :=
  match t.value with
  | none => start
  | some value =>
      let size := byteCount value
      (if 255 < size then writeHtonU16 start size.toUInt16
        else writeU8 start size.toUInt8).write value

def serialize (t : PbbTlv) (start : Writer) : Writer :=
  let start := writeU8 start t.type
  let bufref := start.current
  let start := start.next 1
  let start := start.write t.typeExt.toList
  let start := t.writeIndices start
  let start := t.writeValue start
  start.patch bufref [t.flags]

/-- The length in front of a value. -/
def readLength (extended : Bool) (bytes : List UInt8) : Option (UInt16 × List UInt8) :=
  if extended then Reader.readNtohU16 bytes
  else (Reader.readU8 bytes).map fun r => (r.1.toUInt16, r.2)

def deserialize (bytes : List UInt8) : Option (PbbTlv × List UInt8) := do
  let (type, bytes) ← Reader.readU8 bytes
  let (flags, bytes) ← Reader.readU8 bytes
  let (typeExt, bytes) ← Reader.readIf (hasFlag flags THAS_TYPE_EXT) Reader.readU8 bytes
  let (indexStart, bytes) ←
    Reader.readIf (hasFlag flags THAS_MULTI_INDEX || hasFlag flags THAS_SINGLE_INDEX)
      Reader.readU8 bytes
  let (indexStop, bytes) ← Reader.readIf (hasFlag flags THAS_MULTI_INDEX) Reader.readU8 bytes
  let (value, bytes) ← Reader.readIf (hasFlag flags THAS_VALUE)
    (fun bytes => (readLength (hasFlag flags THAS_EXT_LEN) bytes).bind fun r =>
      Reader.read r.1.toNat r.2) bytes
  some
    ({ type := type
       typeExt := typeExt
       indexStart := indexStart
       indexStop := indexStop
       isMultivalue := false
       value := value }, bytes)

end PbbTlv

/-! ## TLV blocks -/

namespace PbbTlvBlock

def getSerializedSize (tlvs : List PbbTlv) : UInt32 :=
  tlvs.foldl (fun size t => size + t.getSerializedSize) 2

def serialize (tlvs : List PbbTlv) (start : Writer) : Writer :=
  if tlvs.isEmpty then writeHtonU16 start 0
  else
    let tlvsize := start.current
    let start := tlvs.foldl (fun start t => t.serialize start) (start.next 2)
    start.patch tlvsize (htonU16 (UInt16.ofNat (distanceFrom start tlvsize - 2)))

/-- Every TLV that is read takes bytes, so the number of bytes bounds the loop. -/
def deserialize (bytes : List UInt8) : Option (List PbbTlv × List UInt8) :=
  (Reader.readNtohU16 bytes).bind fun (size, tlvstart) =>
    if 0 < size then
      decodeWhile (fun start => tlvstart.length - start.length < size.toNat) PbbTlv.deserialize
        (tlvstart.length + 1) tlvstart
    else some ([], tlvstart)

end PbbTlvBlock

/-! ## Messages -/

/-- `PbbAddressLength`: which kind of message it is. -/
inductive PbbAddressLength
  | IPV4 | IPV6
deriving DecidableEq

def PbbAddressLength.toUInt8 : PbbAddressLength → UInt8
  | .IPV4 => 3
  | .IPV6 => 15

/-- What address blocks write and read. -/
structure AddressBlocks (β : Type) where
  getSerializedSize : β → UInt32
  /-- The bytes that `Serialize` writes. -/
  serialize : β → List UInt8
  /-- `AddressBlockDeserialize` of a kind of message. -/
  deserialize : PbbAddressLength → List UInt8 → Option (β × List UInt8)

structure PbbMessage (β : Type) where
  addressLength : PbbAddressLength
  type : UInt8
  /-- The bytes of the address. -/
  originatorAddress : Option (List UInt8)
  hopLimit : Option UInt8
  hopCount : Option UInt8
  sequenceNumber : Option UInt16
  tlvList : List PbbTlv
  addressBlockList : List β
deriving DecidableEq

variable {β : Type} (blocks : AddressBlocks β)

namespace PbbMessage

def getSerializedSize (m : PbbMessage β) : UInt32 :=
  m.addressBlockList.foldl (fun size block => size + blocks.getSerializedSize block)
    (4 + (if m.originatorAddress.isSome then m.addressLength.toUInt8.toUInt32 + 1 else 0) +
      (if m.hopLimit.isSome then 1 else 0) + (if m.hopCount.isSome then 1 else 0) +
        (if m.sequenceNumber.isSome then 2 else 0) +
          PbbTlvBlock.getSerializedSize m.tlvList)

/-- The flags that `Serialize` collects, with the address length. -/
def flags (m : PbbMessage β) : UInt8 :=
  m.addressLength.toUInt8 ||| (if m.originatorAddress.isSome then MHAS_ORIG else 0) |||
    (if m.hopLimit.isSome then MHAS_HOP_LIMIT else 0) |||
      (if m.hopCount.isSome then MHAS_HOP_COUNT else 0) |||
        (if m.sequenceNumber.isSome then MHAS_SEQ_NUM else 0)

def serialize (m : PbbMessage β) (start : Writer) : Writer :=
  let front := start.current
  let start := writeU8 start m.type
  let bufref := start.current
  let start := start.next 1
  let sizeref := start.current
  let start := start.next 2
  let start := start.write (m.originatorAddress.getD [])
  let start := start.write m.hopLimit.toList
  let start := start.write m.hopCount.toList
  let start := start.write ((m.sequenceNumber.map htonU16).getD [])
  let start := start.patch bufref [m.flags]
  let start := PbbTlvBlock.serialize m.tlvList start
  let start :=
    m.addressBlockList.foldl (fun start block => start.write (blocks.serialize block)) start
  start.patch sizeref (htonU16 (UInt16.ofNat (distanceFrom start front)))

/-- `Deserialize` of a new message. -/
def deserialize (addressLength : PbbAddressLength) (front : List UInt8) :
    Option (PbbMessage β × List UInt8) := do
  let (type, bytes) ← Reader.readU8 front
  let (flags, bytes) ← Reader.readU8 bytes
  let (size, bytes) ← Reader.readNtohU16 bytes
  let (originatorAddress, bytes) ← Reader.readIf (hasFlag flags MHAS_ORIG)
    (Reader.read (addressLength.toUInt8.toNat + 1)) bytes
  let (hopLimit, bytes) ← Reader.readIf (hasFlag flags MHAS_HOP_LIMIT) Reader.readU8 bytes
  let (hopCount, bytes) ← Reader.readIf (hasFlag flags MHAS_HOP_COUNT) Reader.readU8 bytes
  let (sequenceNumber, bytes) ←
    Reader.readIf (hasFlag flags MHAS_SEQ_NUM) Reader.readNtohU16 bytes
  let (tlvList, bytes) ← PbbTlvBlock.deserialize bytes
  let (addressBlockList, bytes) ←
    if 0 < size then
      decodeWhile (fun start => front.length - start.length < size.toNat)
        (blocks.deserialize addressLength) (bytes.length + 1) bytes
    else some ([], bytes)
  some
    ({ addressLength := addressLength
       type := type
       originatorAddress := originatorAddress
       hopLimit := hopLimit
       hopCount := hopCount
       sequenceNumber := sequenceNumber
       tlvList := tlvList
       addressBlockList := addressBlockList }, bytes)

/-- The kind of message that `DeserializeMessage` constructs, if any. -/
def kindOf (flags : UInt8) : Option PbbAddressLength :=
  if flags &&& 0xf = 0 ∨ flags &&& 0xf = 3 then some .IPV4
  else if flags &&& 0xf = 15 then some .IPV6
  else none

/-- `DeserializeMessage`: `none` for a failed read, `some none` for an unknown address length. -/
def deserializeMessage (bytes : List UInt8) :
    Option (Option (PbbMessage β × List UInt8)) :=
  match bytes with
  | _ :: flags :: _ =>
      match kindOf flags with
      | none => some none
      | some addressLength => (deserialize blocks addressLength bytes).map some
  | _ => none

end PbbMessage

/-! ## Packets -/

structure PbbPacket (β : Type) where
  version : UInt8
  sequenceNumber : Option UInt16
  tlvList : List PbbTlv
  messageList : List (PbbMessage β)
deriving DecidableEq

namespace PbbPacket

/-- `VERSION`. -/
def VERSION : UInt8 := 0

def getSerializedSize (p : PbbPacket β) : UInt32 :=
  p.messageList.foldl (fun size m => size + m.getSerializedSize blocks)
    (1 + (if p.sequenceNumber.isSome then 2 else 0) +
      (if p.tlvList.isEmpty then 0 else PbbTlvBlock.getSerializedSize p.tlvList))

def flags (p : PbbPacket β) : UInt8 :=
  VERSION <<< 4 ||| (if p.sequenceNumber.isSome then PHAS_SEQ_NUM else 0) |||
    (if p.tlvList.isEmpty then 0 else PHAS_TLV)

def serialize (p : PbbPacket β) (start : Writer) : Writer :=
  let bufref := start.current
  let start := start.next 1
  let start := start.write ((p.sequenceNumber.map htonU16).getD [])
  let start := if p.tlvList.isEmpty then start else PbbTlvBlock.serialize p.tlvList start
  let start := start.patch bufref [p.flags]
  p.messageList.foldl (fun start m => m.serialize blocks start) start

/-- The loop of `Deserialize`, and whether it came to the end. -/
def messageLoop : ℕ → List UInt8 → Option (List (PbbMessage β) × List UInt8 × Bool)
  | 0, _ => none
  | fuel + 1, start =>
      if start.isEmpty then some ([], start, true)
      else
        (PbbMessage.deserializeMessage blocks start).bind fun
          | none => some ([], start, false)
          | some (newmsg, start) =>
              (messageLoop fuel start).map fun r => (newmsg :: r.1, r.2)

/-- `Deserialize` of a new packet, with the number of bytes read. -/
def deserialize (begin' : List UInt8) : Option (PbbPacket β × ℕ) := do
  let (flags, bytes) ← Reader.readU8 begin'
  let (sequenceNumber, bytes) ←
    Reader.readIf (hasFlag flags PHAS_SEQ_NUM) Reader.readNtohU16 bytes
  let (tlvList, bytes) ← Reader.readIf (hasFlag flags PHAS_TLV) PbbTlvBlock.deserialize bytes
  let (messageList, bytes, finished) ← messageLoop blocks (bytes.length + 1) bytes
  some
    ({ version := if finished then flags >>> 4 else VERSION
       sequenceNumber := sequenceNumber
       tlvList := tlvList.getD []
       messageList := messageList }, begin'.length - bytes.length)

end PbbPacket

end Ns3Rdma
