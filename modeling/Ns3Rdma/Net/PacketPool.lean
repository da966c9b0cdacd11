import Ns3Rdma.Buffer.Pool
import Ns3Rdma.Net.ByteTagList

/-! # Packets with byte tags

The buffers of all packets share one heap, and every packet has a list of byte tags. A header or a
trailer is the bytes that it serialises to, or the number of bytes that it deserialises. Metadata,
packet tags and nix-vectors are left out. -/

namespace Ns3Rdma

/-- `ByteTagIterator::Item`. The offsets are those in the packet. -/
structure ByteTagIterator.Item where
  tag : ByteTag
  (start end' : UInt32)

/-- `GetByteTagIterator ()`: all items that the iterator returns. -/
def getByteTagIterator (b : Buffer) (l : ByteTagList) : List ByteTagIterator.Item :=
  (l.begin b.start.toInt32 b.end'.toInt32).map fun item =>
    ⟨item.tag, item.start.toUInt32 - b.start, item.end'.toUInt32 - b.start⟩

/-- The tags that the iterator reports for each byte of a packet. -/
def coverageOf (b : Buffer) (l : ByteTagList) : List (List ByteTag) :=
  (List.range b.getSize.toNat).map fun i =>
    ((getByteTagIterator b l).filter fun item =>
      decide (item.start.toNat ≤ i ∧ i < item.end'.toNat)).map ByteTagIterator.Item.tag

/-- All packets. -/
structure PacketPool (ι : Type*) where
  buffers : BufferPool ι
  byteTags : ι → ByteTagList

namespace PacketPool

variable {ι : Type*} [DecidableEq ι] (fresh : ℕ → ℕ → UInt8)

def start : PacketPool ι := ⟨BufferPool.start, fun _ => []⟩

/-- The tags of one packet are replaced. -/
def retag (s : PacketPool ι) (x : ι) (tags : ByteTagList) (buffers : BufferPool ι) :
    PacketPool ι :=
  ⟨buffers, Function.update s.byteTags x tags⟩

/-- An operation that calls the buffer only. -/
def onBuffer (s : PacketPool ι) (e : BufferPool.Event ι) : Option (PacketPool ι) :=
  (BufferPool.step fresh s.buffers e).map fun buffers => { s with buffers := buffers }

/-! ## The operations -/

/-- `Packet (size)`. -/
def create (s : PacketPool ι) (x : ι) (size : UInt32) : Option (PacketPool ι) :=
  (BufferPool.step fresh s.buffers (.create x size)).map (s.retag x [])

/-- `Packet (buffer, size)`. -/
def createFrom (s : PacketPool ι) (x : ι) (buffer : List UInt8) : Option (PacketPool ι) :=
  (BufferPool.step fresh s.buffers (.create x 0)).bind fun buffers =>
    (BufferPool.step fresh buffers (.addAtStart x (UInt32.ofNat buffer.length))).bind fun buffers =>
      (BufferPool.step fresh buffers (.writeStart x 0 (.bytes buffer))).map (s.retag x [])

def copy (s : PacketPool ι) (x y : ι) : Option (PacketPool ι) :=
  (BufferPool.step fresh s.buffers (.copy x y)).map (s.retag x (s.byteTags y))

def createFragment (s : PacketPool ι) (x y : ι) (start length : UInt32) : Option (PacketPool ι) :=
  (s.buffers.inst.entry y).bind fun o =>
    (BufferPool.step fresh s.buffers (.createFragment x y start length)).bind fun buffers =>
      if start + length ≤ o.getSize then some (s.retag x (s.byteTags y) buffers) else none

def addHeader (s : PacketPool ι) (x : ι) (header : List UInt8) : Option (PacketPool ι) :=
  (s.buffers.inst.entry x).bind fun b =>
    let size := UInt32.ofNat header.length
    (b.addAtStart fresh s.buffers.heap size).bind fun (heap, next, resized) =>
      let tags := if resized then
          (s.byteTags x).addAtStart (next.start + size - b.start).toInt32
            (next.start + size).toInt32
        else s.byteTags x
      (BufferPool.step fresh (s.buffers.put heap x ⟨next, size.toNat, 0⟩)
        (.writeStart x 0 (.bytes header))).map (s.retag x tags)

def removeHeader (s : PacketPool ι) (x : ι) (deserialized : UInt32) : Option (PacketPool ι) :=
  s.onBuffer fresh (.removeAtStart x deserialized)

def addTrailer (s : PacketPool ι) (x : ι) (trailer : List UInt8) : Option (PacketPool ι) :=
  (s.buffers.inst.entry x).bind fun b =>
    let size := UInt32.ofNat trailer.length
    (b.addAtEnd fresh s.buffers.heap size).bind fun (heap, next, resized) =>
      let tags := if resized then
          (s.byteTags x).addAtEnd (next.start - b.start).toInt32 (next.end' - size).toInt32
        else s.byteTags x
      (BufferPool.step fresh (s.buffers.put heap x ⟨next, 0, size.toNat⟩)
        (.writeEnd x size (.bytes trailer))).map (s.retag x tags)

def removeTrailer (s : PacketPool ι) (x : ι) (deserialized : UInt32) : Option (PacketPool ι) :=
  s.onBuffer fresh (.removeAtEnd x deserialized)

/-- `AddAtEnd (packet)`. If the packet is appended to itself, then its size and its list of tags
have changed when they are read. -/
def addAtEnd (s : PacketPool ι) (x y : ι) : Option (PacketPool ι) :=
  (s.buffers.inst.entry x).bind fun b => (s.buffers.inst.entry y).bind fun o =>
    (BufferPool.step fresh s.buffers (.append x y)).bind fun buffers =>
      (buffers.inst.entry x).bind fun next => (buffers.inst.entry y).map fun packet =>
        let appendPrependOffset := next.end' - packet.getSize
        let tags := (s.byteTags x).addAtEnd (next.start - b.start).toInt32
          appendPrependOffset.toInt32
        let copy := ((s.retag x tags buffers).byteTags y).addAtStart (next.end' - o.end').toInt32
          appendPrependOffset.toInt32
        s.retag x (tags.addAll copy) buffers

/-- The adjustment is the distance of the old and the new end. -/
def addPaddingAtEnd (s : PacketPool ι) (x : ι) (size : UInt32) : Option (PacketPool ι) :=
  (s.buffers.inst.entry x).bind fun b =>
    (b.addAtEnd fresh s.buffers.heap size).map fun (heap, next, resized) =>
      let tags := if resized then
          (s.byteTags x).addAtEnd (next.end' - b.end').toInt32 (next.end' - size).toInt32
        else s.byteTags x
      s.retag x tags (s.buffers.put heap x ⟨next, 0, size.toNat⟩)

def removeAtEnd (s : PacketPool ι) (x : ι) (size : UInt32) : Option (PacketPool ι) :=
  s.onBuffer fresh (.removeAtEnd x size)

def removeAtStart (s : PacketPool ι) (x : ι) (size : UInt32) : Option (PacketPool ι) :=
  s.onBuffer fresh (.removeAtStart x size)

def addByteTag (s : PacketPool ι) (x : ι) (tag : ByteTag) : Option (PacketPool ι) :=
  (s.buffers.inst.entry x).map fun b =>
    s.retag x ((s.byteTags x).add tag b.start.toInt32 b.end'.toInt32) s.buffers

/-- `PeekData ()`. The buffer becomes a full copy of itself. -/
def peekData (s : PacketPool ι) (x : ι) : Option (PacketPool ι) :=
  (s.buffers.inst.entry x).bind fun b =>
    (b.createFullCopy fresh s.buffers.heap).map fun (heap, tmp) =>
      let (heap, next) := b.assign heap tmp
      let tags := (s.byteTags x).addAtStart (next.start - b.start).toInt32 next.start.toInt32
      s.retag x tags (s.buffers.put (tmp.destroy heap) x (Handle.plain next))

def destroy (s : PacketPool ι) (x : ι) : Option (PacketPool ι) := s.onBuffer fresh (.destroy x)

/-! ## Runs -/

/-- The calls, on the packet that is named first. -/
inductive Event (ι : Type*)
  | create (x : ι) (size : UInt32)
  | createFrom (x : ι) (buffer : List UInt8)
  | copy (x y : ι)
  | createFragment (x y : ι) (start length : UInt32)
  | addHeader (x : ι) (header : List UInt8)
  | removeHeader (x : ι) (deserialized : UInt32)
  | addTrailer (x : ι) (trailer : List UInt8)
  | removeTrailer (x : ι) (deserialized : UInt32)
  | addAtEnd (x y : ι)
  | addPaddingAtEnd (x : ι) (size : UInt32)
  | removeAtEnd (x : ι) (size : UInt32)
  | removeAtStart (x : ι) (size : UInt32)
  | addByteTag (x : ι) (tag : ByteTag)
  | peekData (x : ι)
  | destroy (x : ι)

/-- The packet that an event is about. -/
def Event.target : Event ι → ι
  | .create x _ | .createFrom x _ | .copy x _ | .createFragment x _ _ _ => x
  | .addHeader x _ | .removeHeader x _ | .addTrailer x _ | .removeTrailer x _ => x
  | .addAtEnd x _ | .addPaddingAtEnd x _ | .removeAtEnd x _ | .removeAtStart x _ => x
  | .addByteTag x _ | .peekData x | .destroy x => x

def step (s : PacketPool ι) : Event ι → Option (PacketPool ι)
  | .create x size => s.create fresh x size
  | .createFrom x buffer => s.createFrom fresh x buffer
  | .copy x y => s.copy fresh x y
  | .createFragment x y start length => s.createFragment fresh x y start length
  | .addHeader x header => s.addHeader fresh x header
  | .removeHeader x deserialized => s.removeHeader fresh x deserialized
  | .addTrailer x trailer => s.addTrailer fresh x trailer
  | .removeTrailer x deserialized => s.removeTrailer fresh x deserialized
  | .addAtEnd x y => s.addAtEnd fresh x y
  | .addPaddingAtEnd x size => s.addPaddingAtEnd fresh x size
  | .removeAtEnd x size => s.removeAtEnd fresh x size
  | .removeAtStart x size => s.removeAtStart fresh x size
  | .addByteTag x tag => s.addByteTag x tag
  | .peekData x => s.peekData fresh x
  | .destroy x => s.destroy fresh x

/-- The tags of each byte of each packet. -/
def coverage (s : PacketPool ι) (x : ι) : Option (List (List ByteTag)) :=
  (s.buffers.inst.entry x).map fun b => coverageOf b.toBuffer (s.byteTags x)

end PacketPool

end Ns3Rdma
