import Mathlib.Data.UInt
import Mathlib.Logic.Function.Basic
import Ns3Rdma.Lib.Memory

/-! # The packet buffer

A `Buffer` refers to a range of a `Data` object, which it may share with its copies, and to a
virtual area of zeros inside that range. Offsets behind the zero area count its bytes, although no
memory is allocated for them. A failed assertion, or an access outside the allocated bytes, is
`none`. -/

namespace Ns3Rdma

/-- `Buffer::Data`. Of the bytes, `size` are allocated. -/
structure BufferData where
  count : UInt32
  size : UInt32
  dirtyStart : UInt32
  dirtyEnd : UInt32
  bytes : ℕ → UInt8

/-- `data` names the `Data` object; the other fields are offsets. -/
structure Buffer where
  data : ℕ
  maxZeroAreaStart : UInt32
  zeroAreaStart : UInt32
  zeroAreaEnd : UInt32
  (start end' : UInt32)

/-- The `Data` objects that have been allocated, and `g_recommendedStart`. -/
structure BufferHeap where
  data : ℕ → BufferData
  next : ℕ
  recommendedStart : UInt32

/-! ## Memory -/

namespace BufferHeap

variable (fresh : ℕ → ℕ → UInt8)

def start : BufferHeap where
  data := fun _ => ⟨0, 0, 0, 0, fun _ => 0⟩
  next := 0
  recommendedStart := 0

def set (h : BufferHeap) (id : ℕ) (d : BufferData) : BufferHeap :=
  { h with data := Function.update h.data id d }

/-- `Allocate`. Uninitialised memory holds `fresh`; the caller sets the dirty area. -/
def create (h : BufferHeap) (size : UInt32) : BufferHeap :=
  { h with
    data := Function.update h.data h.next
      { count := 1
        size := if size = 0 then 1 else size
        dirtyStart := 0
        dirtyEnd := 0
        bytes := fresh h.next }
    next := h.next + 1 }

def addRef (h : BufferHeap) (id : ℕ) : BufferHeap :=
  h.set id { h.data id with count := (h.data id).count + 1 }

/-- One reference less. An object without references is deallocated: nothing names it. -/
def release (h : BufferHeap) (id : ℕ) : BufferHeap :=
  h.set id { h.data id with count := (h.data id).count - 1 }

def recommend (h : BufferHeap) (maxZeroAreaStart : UInt32) : BufferHeap :=
  { h with recommendedStart := max h.recommendedStart maxZeroAreaStart }

def read (h : BufferHeap) (id off n : ℕ) : Option (List UInt8) :=
  if n = 0 ∨ off + n ≤ (h.data id).size.toNat then some (Memory.slice (h.data id).bytes off n)
  else none

def write (h : BufferHeap) (id off : ℕ) (l : List UInt8) : Option BufferHeap :=
  if l = [] ∨ off + l.length ≤ (h.data id).size.toNat then
    some (h.set id { h.data id with bytes := Memory.store (h.data id).bytes off l })
  else none

/-- `memcpy`, from one object to another. -/
def memcpy (h : BufferHeap) (dst dstOff src srcOff n : ℕ) : Option BufferHeap :=
  (h.read src srcOff n).bind fun l => h.write dst dstOff l

def setDirty (h : BufferHeap) (id : ℕ) (dirtyStart dirtyEnd : UInt32) : BufferHeap :=
  h.set id { h.data id with dirtyStart := dirtyStart, dirtyEnd := dirtyEnd }

end BufferHeap

namespace Buffer

variable (fresh : ℕ → ℕ → UInt8)

def getSize (b : Buffer) : UInt32 := b.end' - b.start

def getInternalSize (b : Buffer) : UInt32 := b.zeroAreaStart - b.start + b.end' - b.zeroAreaEnd

def getInternalEnd (b : Buffer) : UInt32 := b.end' - (b.zeroAreaEnd - b.zeroAreaStart)

/-- The size of the zero area. -/
def zeroSize (b : Buffer) : UInt32 := b.zeroAreaEnd - b.zeroAreaStart

/-- The last statement of each operation. -/
def noteZeroArea (b : Buffer) : Buffer :=
  { b with maxZeroAreaStart := max b.maxZeroAreaStart b.zeroAreaStart }

/-! ## Construction, copies and destruction -/

/-- `Buffer (zeroSize)`. -/
def initializeBuffer (h : BufferHeap) (zeroSize : UInt32) : BufferHeap × Buffer :=
  let created := h.create fresh 0
  let start := min (created.data h.next).size h.recommendedStart
  (created.setDirty h.next start (start + zeroSize),
    { data := h.next
      maxZeroAreaStart := start
      zeroAreaStart := start
      zeroAreaEnd := start + zeroSize
      start := start, end' := start + zeroSize })

/-- `Buffer (o)`. -/
def copy (h : BufferHeap) (o : Buffer) : BufferHeap × Buffer :=
  (h.addRef o.data, { o with maxZeroAreaStart := o.zeroAreaStart })

/-- `b = o`. -/
def assign (h : BufferHeap) (b o : Buffer) : BufferHeap × Buffer :=
  let h := if b.data ≠ o.data then (h.release b.data).addRef o.data else h
  (h.recommend b.maxZeroAreaStart, o)

/-- `~Buffer`. -/
def destroy (h : BufferHeap) (b : Buffer) : BufferHeap :=
  (h.recommend b.maxZeroAreaStart).release b.data

/-! ## Reserving bytes -/

/-- `AddAtStart (n)`, and whether the buffer reports a resize. -/
def addAtStart (h : BufferHeap) (b : Buffer) (n : UInt32) : Option (BufferHeap × Buffer × Bool) :=
  let d := h.data b.data
  let isDirty := decide (1 < d.count) && decide (d.dirtyStart < b.start)
  if n ≤ b.start ∧ isDirty = false then
    if d.count = 1 ∨ b.start = d.dirtyStart then
      let next := { b with start := b.start - n }
      some (h.setDirty b.data next.start d.dirtyEnd, next.noteZeroArea,
        decide (d.dirtyStart < next.start))
    else none
  else
    let created := h.create fresh (b.getInternalSize + n)
    (created.memcpy h.next n.toNat b.data b.start.toNat b.getInternalSize.toNat).map fun copied =>
      let delta := n - b.start
      let next :=
        { b with
          data := h.next
          start := b.start + delta - n
          zeroAreaStart := b.zeroAreaStart + delta
          zeroAreaEnd := b.zeroAreaEnd + delta, end' := b.end' + delta }
      ((copied.release b.data).setDirty h.next next.start next.end', next.noteZeroArea, true)

/-- `AddAtEnd (n)`. On the first branch the result is computed after the update, so no resize is
ever reported there. -/
def addAtEnd (h : BufferHeap) (b : Buffer) (n : UInt32) : Option (BufferHeap × Buffer × Bool) :=
  let d := h.data b.data
  let isDirty := decide (1 < d.count) && decide (b.end' < d.dirtyEnd)
  if b.getInternalEnd + n ≤ d.size ∧ isDirty = false then
    if d.count = 1 ∨ b.end' = d.dirtyEnd then
      let next := { b with end' := b.end' + n }
      let updated := h.setDirty b.data d.dirtyStart next.end'
      some (updated, next.noteZeroArea, decide (next.end' < (updated.data b.data).dirtyEnd))
    else none
  else
    let created := h.create fresh (b.getInternalSize + n)
    (created.memcpy h.next 0 b.data b.start.toNat b.getInternalSize.toNat).map fun copied =>
      let delta := 0 - b.start
      let next :=
        { b with
          data := h.next
          start := b.start + delta
          zeroAreaStart := b.zeroAreaStart + delta
          zeroAreaEnd := b.zeroAreaEnd + delta, end' := b.end' + delta + n }
      ((copied.release b.data).setDirty h.next next.start next.end', next.noteZeroArea, true)

/-! ## Removing bytes -/

def removeAtStart (b : Buffer) (n : UInt32) : Option Buffer :=
  let newStart := b.start + n
  if newStart ≤ b.zeroAreaStart then some (noteZeroArea { b with start := newStart })
  else if newStart ≤ b.zeroAreaEnd then
    let delta := newStart - b.zeroAreaStart
    some <| noteZeroArea
      { b with
        start := b.zeroAreaStart
        zeroAreaEnd := b.zeroAreaEnd - delta, end' := b.end' - delta }
  else if newStart ≤ b.end' then
    if n ≤ b.end' then
      some <| noteZeroArea
        { b with
          start := newStart - b.zeroSize, end' := b.end' - b.zeroSize
          zeroAreaStart := newStart - b.zeroSize
          zeroAreaEnd := newStart - b.zeroSize }
    else none
  else
    let newEnd := b.end' - b.zeroSize
    some <| noteZeroArea
      { b with start := newEnd, end' := newEnd, zeroAreaStart := newEnd, zeroAreaEnd := newEnd }

def removeAtEnd (b : Buffer) (n : UInt32) : Buffer :=
  let newEnd := b.end' - min n (b.end' - b.start)
  noteZeroArea <|
    if newEnd > b.zeroAreaEnd then { b with end' := newEnd }
    else if newEnd > b.zeroAreaStart then { b with end' := newEnd, zeroAreaEnd := newEnd }
    else if newEnd > b.start then
      { b with end' := newEnd, zeroAreaEnd := newEnd, zeroAreaStart := newEnd }
    else { b with end' := b.start, zeroAreaEnd := b.start, zeroAreaStart := b.start }

/-- The temporary of `CreateFragment` is the buffer that it returns. -/
def createFragment (h : BufferHeap) (b : Buffer) (start length : UInt32) :
    Option (BufferHeap × Buffer) :=
  let copied := b.copy h
  (copied.2.removeAtStart start).map fun tmp =>
    (copied.1, tmp.removeAtEnd (b.getSize - (start + length)))

/-! ## Writing -/

/-- `Buffer::Iterator`. -/
structure Iterator where
  data : ℕ
  zeroStart : UInt32
  zeroEnd : UInt32
  dataStart : UInt32
  dataEnd : UInt32
  current : UInt32

def begin (b : Buffer) : Iterator where
  data := b.data
  zeroStart := b.zeroAreaStart
  zeroEnd := b.zeroAreaEnd
  dataStart := b.start
  dataEnd := b.end'
  current := b.start

/-- `End ()`. -/
def atEnd (b : Buffer) : Iterator := { b.begin with current := b.end' }

namespace Iterator

def next (i : Iterator) (delta : UInt32) : Option Iterator :=
  if i.current + delta ≤ i.dataEnd then some { i with current := i.current + delta } else none

def prev (i : Iterator) (delta : UInt32) : Option Iterator :=
  if delta ≤ i.current then some { i with current := i.current - delta } else none

def check (i : Iterator) (offset : UInt32) : Bool :=
  decide (i.dataStart ≤ offset) && !(decide (i.zeroStart ≤ offset) && decide (offset < i.zeroEnd)) &&
    decide (offset ≤ i.dataEnd)

def checkNoZero (i : Iterator) (start stop : UInt32) : Bool :=
  (List.range' start.toNat (stop.toNat - start.toNat)).all fun offset =>
    i.check (UInt32.ofNat offset)

/-- Where the bytes of a write of several bytes go. -/
def offset (i : Iterator) : UInt32 :=
  if i.current ≤ i.zeroStart then i.current else i.current - (i.zeroEnd - i.zeroStart)

/-- `Write (buffer, size)`. The assertion checks the offsets up to `size` only. -/
def write (i : Iterator) (h : BufferHeap) (l : List UInt8) : Option BufferHeap :=
  if i.checkNoZero i.current (UInt32.ofNat l.length) then h.write i.data i.offset.toNat l else none

/-- `WriteU8 (value)`. -/
def writeByte (i : Iterator) (h : BufferHeap) (value : UInt8) : Option BufferHeap :=
  if i.check i.current then
    let place := if i.current < i.zeroStart then i.current
      else i.current - (i.zeroEnd - i.zeroStart)
    h.write i.data place.toNat [value]
  else none

/-- `WriteU8 (value, len)`. -/
def writeU8 (i : Iterator) (h : BufferHeap) (value : UInt8) (len : UInt32) : Option BufferHeap :=
  if i.checkNoZero i.current (i.current + len) then
    h.write i.data i.offset.toNat (List.replicate len.toNat value)
  else none

/-- The writes of values. -/
inductive WriteCall
  | bytes (buffer : List UInt8)
  | u8 (value : UInt8)
  | u8s (value : UInt8) (len : UInt32)

/-- The bytes that the call writes. -/
def WriteCall.written : WriteCall → List UInt8
  | .bytes buffer => buffer
  | .u8 value => [value]
  | .u8s value len => List.replicate len.toNat value

def perform (i : Iterator) (h : BufferHeap) : WriteCall → Option BufferHeap
  | .bytes buffer => i.write h buffer
  | .u8 value => i.writeByte h value
  | .u8s value len => i.writeU8 h value len

/-- The three copies of `Write (start, end)`, of `toCopy` bytes each, from before, in and behind
the zero area of the source. -/
def copyFrom (i src : Iterator) (h : BufferHeap) (size : UInt32) : Option BufferHeap :=
  let before := if src.current ≤ src.zeroStart then min size (src.zeroStart - src.current) else 0
  let inside := src.current + before
  let zeros := if inside ≤ src.zeroEnd then min (size - before) (src.zeroEnd - inside) else 0
  let behind := inside + zeros
  let rest := min (size - before - zeros) (src.dataEnd - behind)
  (h.memcpy i.data i.current.toNat src.data src.current.toNat before.toNat).bind fun h =>
    (h.write i.data (i.current + before).toNat (List.replicate zeros.toNat 0)).bind fun h =>
      h.memcpy i.data (i.current + before + zeros).toNat src.data
        (behind - (src.zeroEnd - src.zeroStart)).toNat rest.toNat

/-- `Write (start, end)`. The destination is addressed by `m_current` itself. -/
def writeRange (i : Iterator) (h : BufferHeap) (start stop : Iterator) : Option BufferHeap :=
  let size := stop.current - start.current
  if start.data = stop.data ∧ start.current ≤ stop.current ∧ start.zeroStart = stop.zeroStart ∧
      start.zeroEnd = stop.zeroEnd ∧ i.data ≠ start.data ∧
        i.checkNoZero i.current (i.current + size) then
    i.copyFrom start h size
  else none

end Iterator

/-- `CreateFullCopy ()`, whose temporary is the buffer that it returns. -/
def createFullCopy (h : BufferHeap) (b : Buffer) : Option (BufferHeap × Buffer) :=
  if b.zeroSize ≠ 0 then
    let (h, tmp) := initializeBuffer fresh h 0
    (tmp.addAtStart fresh h b.zeroSize).bind fun (h, tmp, _) =>
    (tmp.begin.writeU8 h 0 b.zeroSize).bind fun h =>
    let dataStart := b.zeroAreaStart - b.start
    (tmp.addAtStart fresh h dataStart).bind fun (h, tmp, _) =>
    (h.read b.data b.start.toNat dataStart.toNat).bind fun bytes =>
    (tmp.begin.write h bytes).bind fun h =>
    let dataEnd := b.end' - b.zeroAreaEnd
    (tmp.addAtEnd fresh h dataEnd).bind fun (h, tmp, _) =>
    (tmp.atEnd.prev dataEnd).bind fun i =>
    (h.read b.data b.zeroAreaStart.toNat dataEnd.toNat).bind fun bytes =>
    (i.write h bytes).map fun h => (h, tmp)
  else some (b.copy h)

/-- The test of `AddAtEnd (o)` for adjacent zero areas. -/
def zeroAreasMeet (h : BufferHeap) (b o : Buffer) : Prop :=
  (h.data b.data).count = 1 ∧ b.end' = b.zeroAreaEnd ∧ b.end' = (h.data b.data).dirtyEnd ∧
    o.start = o.zeroAreaStart ∧ 0 < o.zeroSize

instance (h : BufferHeap) (b o : Buffer) : Decidable (zeroAreasMeet h b o) :=
  inferInstanceAs (Decidable (_ ∧ _ ∧ _ ∧ _ ∧ _))

/-- `AddAtEnd (o)`. If `o` is the buffer itself, then the first branch changes it as well, and its
assertion on the two `Data` objects fails. -/
def append (h : BufferHeap) (b o : Buffer) (self : Bool) : Option (BufferHeap × Buffer) :=
  if zeroAreasMeet h b o then
    if self then none
    else
      let zeroAreaEnd := b.zeroAreaEnd + o.zeroSize
      let b := { b with zeroAreaEnd := zeroAreaEnd, end' := zeroAreaEnd }
      let h := h.setDirty b.data (h.data b.data).dirtyStart zeroAreaEnd
      let endData := o.end' - o.zeroAreaEnd
      (b.addAtEnd fresh h endData).bind fun (h, b, _) =>
      (b.atEnd.prev endData).bind fun dst =>
      (o.atEnd.prev endData).bind fun src =>
      (dst.writeRange h src o.atEnd).map fun h => (h, b)
  else
    (b.createFullCopy fresh h).bind fun (h, dst) =>
    (o.createFullCopy fresh h).bind fun (h, src) =>
    (dst.addAtEnd fresh h src.getSize).bind fun (h, dst, _) =>
    (dst.atEnd.prev src.getSize).bind fun destStart =>
    (destStart.writeRange h src.begin src.atEnd).map fun h =>
    let (h, b) := b.assign h dst
    (dst.destroy (src.destroy h), b)

/-! ## Reading -/

/-- The loop that writes zeros from the constant array `g_zeroes` of 1000 bytes. -/
def writeZeroes (left : ℕ) : List UInt8 :=
  if left = 0 then [] else List.replicate (min left 1000) 0 ++ writeZeroes (left - min left 1000)
termination_by left
decreasing_by omega

/-- `CopyData (os, size)`. -/
def copyDataToStream (h : BufferHeap) (b : Buffer) (size : UInt32) : Option (List UInt8) :=
  if 0 < size then
    let before := min (b.zeroAreaStart - b.start) size
    (h.read b.data b.start.toNat before.toNat).bind fun first =>
      if before < size then
        let size := size - (b.zeroAreaStart - b.start)
        let zeros := min (b.zeroAreaEnd - b.zeroAreaStart) size
        if zeros < size then
          let size := size - zeros
          let behind := min (b.end' - b.zeroAreaEnd) size
          (h.read b.data b.zeroAreaStart.toNat behind.toNat).map fun last =>
            first ++ writeZeroes zeros.toNat ++ last
        else some (first ++ writeZeroes zeros.toNat)
      else some first
  else some []

/-- `CopyData (buffer, size)`: the bytes and the result. -/
def copyData (h : BufferHeap) (b : Buffer) (size : UInt32) : Option (List UInt8 × UInt32) :=
  if 0 < size then
    let before := min (b.zeroAreaStart - b.start) size
    (h.read b.data b.start.toNat before.toNat).bind fun first =>
      let left := size - before
      if 0 < left then
        let zeros := min (b.zeroAreaEnd - b.zeroAreaStart) left
        let left := left - zeros
        if 0 < left then
          let behind := min (b.end' - b.zeroAreaEnd) left
          (h.read b.data b.zeroAreaStart.toNat behind.toNat).map fun last =>
            (first ++ writeZeroes zeros.toNat ++ last, size - (left - behind))
        else some (first ++ writeZeroes zeros.toNat, size - left)
      else some (first, size - left)
  else some ([], 0)

end Buffer

end Ns3Rdma
