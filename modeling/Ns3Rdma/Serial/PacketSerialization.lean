import Mathlib.Data.UInt
import Ns3Rdma.Lib.Codec

/-!
# The serialised form of a packet

A packet is written as three sections, the nix vector, the metadata and the contents, each behind a
word with its length. Words are in the byte order of the host, the low byte first. The metadata is
the list of its items, and the contents are the bytes before, in and behind the zero area. A failed
assertion, or a read beyond the bytes, is `none`.
-/

namespace Ns3Rdma.Serial

open Codec

/-- Where a serialiser writes. Bytes that it has not written are `none`. -/
abbrev Output := Cursor (Option UInt8)

/-- The bytes of a number. -/
def raw : ℕ → ℕ → List UInt8
  | 0, _ => []
  | n + 1, v => UInt8.ofNat v :: raw n (v / 256)

/-- The number of which these are the bytes. -/
def fromRaw : List UInt8 → ℕ
  | [] => 0
  | b :: rest => b.toNat + 256 * fromRaw rest

/-- Read a number of `n` bytes. -/
def readFromRaw (data : ℕ → UInt8) (p n : ℕ) : ℕ := fromRaw (Memory.slice data p n)

def readWord (data : ℕ → UInt8) (p : ℕ) : UInt32 := UInt32.ofNat (readFromRaw data p 4)

/-- Round up to the 4-byte boundary. -/
def align (size : UInt32) : UInt32 := (size + 3) &&& ~~~ 3

/-- Bytes that are written, and by how many the position advances. -/
structure Part where
  bytes : List UInt8
  advance : UInt32

namespace Part

def word (v : UInt32) : Part := ⟨raw 4 v.toNat, 4⟩

def data (bytes : List UInt8) : Part := ⟨bytes, align (UInt32.ofNat bytes.length)⟩

def put (part : Part) (c : Output) : Output :=
  { c.write (part.bytes.map some) with current := c.current + part.advance.toNat }

end Part

/-- Write the parts one after the other, as long as there is room. The result is 0 or 1. -/
def putParts (maxSize : UInt32) : List Part → UInt32 → Output → UInt32 × Output
  | [], _, c => (1, c)
  | part :: rest, size, c =>
      if size + part.advance ≤ maxSize then
        putParts maxSize rest (size + part.advance) (part.put c)
      else (0, c)

/-! ## The nix vector -/

structure NixVector where
  used : UInt32
  currentVectorBitSize : UInt32
  totalBitSize : UInt32
  nixVector : List UInt32
deriving DecidableEq

namespace NixVector

def getSerializedSize (nix : NixVector) : UInt32 := 12 + 4 * UInt32.ofNat nix.nixVector.length

def serialize (nix : NixVector) (maxSize : UInt32) : Output → UInt32 × Output :=
  putParts maxSize
    ((nix.used :: nix.currentVectorBitSize :: nix.totalBitSize :: nix.nixVector).map Part.word) 0

/-- The assertions hold if three words and a whole number of further ones are left. -/
def deserialize (data : ℕ → UInt8) (p : ℕ) (size : UInt32) : Option NixVector :=
  let sizeCheck := size - 4
  if 12 ≤ sizeCheck ∧ sizeCheck % 4 = 0 then
    some
      { used := readWord data p
        currentVectorBitSize := readWord data (p + 4)
        totalBitSize := readWord data (p + 8)
        nixVector := (List.range ((sizeCheck.toNat - 12) / 4)).map fun j =>
          readWord data (p + 12 + 4 * j) }
  else none

end NixVector

/-! ## The metadata -/

/-- What `ReadItems` reads: a `SmallItem` without its links, and an `ExtraItem`. -/
structure Item where
  typeUid : UInt32
  size : UInt32
  chunkUid : UInt16
  fragmentStart : UInt32
  fragmentEnd : UInt32
  packetUid : UInt64
deriving DecidableEq

/-- The registered types. Type 0 is that of payload. -/
structure TypeIds where
  getName : UInt32 → List UInt8
  lookupByName : List UInt8 → UInt32

structure PacketMetadata where
  packetUid : UInt64
  items : List Item
deriving DecidableEq

variable (types : TypeIds)

namespace Item

def uid (item : Item) : UInt32 := (item.typeUid &&& 0xfffffffe) >>> 1

/-- The name of the type, or nothing for payload. -/
def uidString (item : Item) : List UInt8 := if item.uid = 0 then [] else types.getName item.uid

/-- What `Serialize` adds for an item, piece by piece. -/
def pieces (item : Item) : List (List UInt8) :=
  raw 4 (item.uidString types).length :: item.uidString types ::
    raw 1 (item.typeUid &&& 1).toNat :: raw 4 item.size.toNat :: raw 2 item.chunkUid.toNat ::
      raw 4 item.fragmentStart.toNat :: raw 4 item.fragmentEnd.toNat ::
        raw 8 item.packetUid.toNat :: []

end Item

namespace PacketMetadata

/-- Without metadata there are no items. -/
def getSerializedSize (m : PacketMetadata) : UInt32 :=
  m.items.foldl (fun totalSize item =>
    totalSize + (4 + UInt32.ofNat (item.uidString types).length) + (1 + 4 + 2 + 4 + 4 + 8)) 8

/-- `AddToRaw`, piece by piece. -/
def addToRaw (start : ℕ) (maxSize : UInt32) : List (List UInt8) → Output → UInt32 × Output
  | [], c => (1, c)
  | piece :: rest, c =>
      if maxSize < UInt32.ofNat (c.current + piece.length - start) then (0, c)
      else addToRaw start maxSize rest (c.write (piece.map some))

def serialize (m : PacketMetadata) (maxSize : UInt32) (c : Output) : UInt32 × Output :=
  addToRaw c.current maxSize (raw 8 m.packetUid.toNat :: m.items.flatMap (Item.pieces types)) c

/-- The loop of `Deserialize`. -/
def readItems (data : ℕ → UInt8) : ℕ → ℕ → ℕ → Option (List Item)
  | _, _, 0 => some []
  | 0, _, _ => none
  | fuel + 1, p, desSize =>
      let uidStringSize := readFromRaw data p 4
      if desSize < 4 + uidStringSize + 23 then none
      else
        let uid := if uidStringSize = 0 then 0
          else types.lookupByName (Memory.slice data (p + 4) uidStringSize)
        let q := p + 4 + uidStringSize
        let item : Item :=
          { typeUid := uid <<< 1 ||| UInt32.ofNat (readFromRaw data q 1)
            size := readWord data (q + 1)
            chunkUid := UInt16.ofNat (readFromRaw data (q + 5) 2)
            fragmentStart := readWord data (q + 7)
            fragmentEnd := readWord data (q + 11)
            packetUid := UInt64.ofNat (readFromRaw data (q + 15) 8) }
        (readItems data fuel (q + 23) (desSize - (4 + uidStringSize + 23))).map (item :: ·)

def deserialize (data : ℕ → UInt8) (p : ℕ) (size : UInt32) : Option PacketMetadata :=
  let desSize := size - 4
  if desSize < 8 then none
  else
    (readItems types data desSize.toNat (p + 8) (desSize - 8).toNat).map fun items =>
      ⟨UInt64.ofNat (readFromRaw data p 8), items⟩

end PacketMetadata

/-! ## The contents -/

structure Buffer where
  dataStart : List UInt8
  zeroSize : UInt32
  dataEnd : List UInt8
deriving DecidableEq

namespace Buffer

def getSerializedSize (b : Buffer) : UInt32 :=
  4 + 4 + align (UInt32.ofNat b.dataStart.length) + 4 + align (UInt32.ofNat b.dataEnd.length)

def serialize (b : Buffer) (maxSize : UInt32) : Output → UInt32 × Output :=
  putParts maxSize
    [.word b.zeroSize, .word (UInt32.ofNat b.dataStart.length), .data b.dataStart,
      .word (UInt32.ofNat b.dataEnd.length), .data b.dataEnd] 0

/-- The result, and what the buffer holds. -/
def deserialize (data : ℕ → UInt8) (p : ℕ) (size : UInt32) : Option (UInt32 × Buffer) :=
  let sizeCheck := size - 4
  let dataStartLength := readWord data (p + 4)
  let q := p + 8 + (align dataStartLength).toNat
  let dataEndLength := readWord data q
  let left := sizeCheck - 8 - align dataStartLength
  if sizeCheck < 8 ∨ sizeCheck - 8 < dataStartLength ∨ left < 4 ∨ left - 4 < dataEndLength then none
  else
    some
      (if left - 4 - align dataEndLength = 0 then 1 else 0,
        { dataStart := Memory.slice data (p + 8) dataStartLength.toNat
          zeroSize := readWord data p
          dataEnd := Memory.slice data (q + 4) dataEndLength.toNat })

end Buffer

/-! ## The packet -/

structure Packet where
  nixVector : Option NixVector
  metadata : PacketMetadata
  buffer : Buffer
deriving DecidableEq

/-- A section of `Serialize`: its length and its bytes, if its bytes fit, then the next one. -/
def putSection (maxSize partSize : UInt32) (serialize : Output → UInt32 × Output)
    (next : UInt32 → Output → UInt32 × Output) (size : UInt32) (c : Output) : UInt32 × Output :=
  if size + partSize ≤ maxSize then
    let p := (Part.word (partSize + 4)).put c
    let serialized := serialize p
    if serialized.1 ≠ 0 then
      next (size + partSize) { serialized.2 with current := p.current + (align partSize).toNat }
    else (0, serialized.2)
  else (0, c)

namespace Packet

def getSerializedSize (p : Packet) : UInt32 :=
  (match p.nixVector with
    | some nix => align nix.getSerializedSize + 4
    | none => 4) +
    align (p.metadata.getSerializedSize types) + 4 + align p.buffer.getSerializedSize + 4

/-- What `Serialize` does behind the nix vector. -/
def serializeRest (p : Packet) (maxSize : UInt32) : UInt32 → Output → UInt32 × Output :=
  let metaSize := p.metadata.getSerializedSize types
  let bufSize := p.buffer.getSerializedSize
  putSection maxSize metaSize (p.metadata.serialize types metaSize)
    (putSection maxSize bufSize (p.buffer.serialize bufSize) fun _ c => (1, c))

/-- The result, and what was written into the buffer. -/
def serialize (p : Packet) (maxSize : UInt32) : UInt32 × Output :=
  let c : Output := ⟨fun _ => none, 0⟩
  match p.nixVector with
  | some nix =>
      putSection maxSize nix.getSerializedSize (nix.serialize nix.getSerializedSize)
        (p.serializeRest types maxSize) 0 c
  | none =>
      if 0 + 4 ≤ maxSize then p.serializeRest types maxSize (0 + 4) ((Part.word 4).put c)
      else (0, c)

/-- The position behind a section of the given length, which counts its length word. -/
def behind (p : ℕ) (size : UInt32) : ℕ := p + 4 + (align (size - 4)).toNat

/-- `Deserialize` of a new packet: the result, and the packet. -/
def deserialize (data : ℕ → UInt8) (size : UInt32) : Option (UInt32 × Packet) :=
  let nixSize := readWord data 0
  if size < nixSize then none
  else
    let nix := if 4 < nixSize then (NixVector.deserialize data 4 nixSize).map some else some none
    let p := if 4 < nixSize then behind 0 nixSize else 4
    let metaSize := readWord data p
    if size - nixSize < metaSize then none
    else
      let q := behind p metaSize
      let bufSize := readWord data q
      if size - nixSize - metaSize < bufSize then none
      else
        nix.bind fun nix =>
          (PacketMetadata.deserialize types data (p + 4) metaSize).bind fun metadata =>
            (Buffer.deserialize data (q + 4) bufSize).map fun buffer =>
              (if buffer.1 = 0 then 0 else if size - nixSize - metaSize - bufSize = 0 then 1 else 0,
                ⟨nix, metadata, buffer.2⟩)

end Packet

end Ns3Rdma.Serial
