import Ns3Rdma.Buffer.Append
import Ns3Rdma.Buffer.CopyData
import Ns3Rdma.Lib.Registry
import Ns3Rdma.Lib.StepSystem

/-! # Any number of buffers

The instances share one heap. Each event is one call on one of them; a call that fails an assertion
or accesses bytes that are not allocated is no step. -/

namespace Ns3Rdma

open Memory BufferHeap

/-- All instances of `Buffer`. -/
structure BufferPool (ι : Type*) where
  heap : BufferHeap
  inst : Registry ι Handle

namespace BufferPool

variable {ι : Type*} [DecidableEq ι] (fresh : ℕ → ℕ → UInt8)

/-- The calls, on the instance that is named first. `writeStart` writes behind `Begin ()`, and
`writeEnd` before `End ()`. -/
inductive Event (ι : Type*)
  | create (x : ι) (zeroSize : UInt32)
  | copy (x y : ι)
  | assign (x y : ι)
  | createFragment (x y : ι) (start length : UInt32)
  | createFullCopy (x y : ι)
  | addAtStart (x : ι) (n : UInt32)
  | addAtEnd (x : ι) (n : UInt32)
  | writeStart (x : ι) (off : UInt32) (call : Buffer.Iterator.WriteCall)
  | writeEnd (x : ι) (off : UInt32) (call : Buffer.Iterator.WriteCall)
  | removeAtStart (x : ι) (n : UInt32)
  | removeAtEnd (x : ι) (n : UInt32)
  | append (x y : ι)
  | destroy (x : ι)

/-- The instance that an event is about. -/
def Event.target : Event ι → ι
  | .create x _ | .copy x _ | .assign x _ | .createFragment x _ _ _ | .createFullCopy x _ => x
  | .addAtStart x _ | .addAtEnd x _ | .writeStart x _ _ | .writeEnd x _ _ => x
  | .removeAtStart x _ | .removeAtEnd x _ | .append x _ | .destroy x => x

def start : BufferPool ι := ⟨BufferHeap.start, Registry.empty⟩

def put (s : BufferPool ι) (heap : BufferHeap) (x : ι) (b : Handle) : BufferPool ι :=
  ⟨heap, s.inst.put x b⟩

/-- An instance gives up what it has reserved, since another one may share its bytes now. -/
def settle (s : BufferPool ι) (y : ι) : BufferPool ι :=
  ((s.inst.entry y).map fun b => s.put s.heap y (Handle.plain b.toBuffer)).getD s

/-- A new instance made from an old one. -/
def derive (s : BufferPool ι) (x y : ι) (f : BufferHeap → Buffer → Option (BufferHeap × Buffer)) :
    Option (BufferPool ι) :=
  if s.inst.entry x = none then
    (s.inst.entry y).bind fun o =>
      (f s.heap o.toBuffer).map fun made => (s.settle y).put made.1 x (Handle.plain made.2)
  else none

def step (s : BufferPool ι) : Event ι → Option (BufferPool ι)
  | .create x zeroSize =>
      if s.inst.entry x = none then
        let made := Buffer.initializeBuffer fresh s.heap zeroSize
        some (s.put made.1 x (Handle.plain made.2))
      else none
  | .copy x y => s.derive x y fun h o => some (o.copy h)
  | .assign x y => (s.inst.entry x).bind fun b => (s.inst.entry y).map fun o =>
      let made := b.assign s.heap o.toBuffer
      (s.settle y).put made.1 x (Handle.plain made.2)
  | .createFragment x y start length => s.derive x y fun h o => o.createFragment h start length
  | .createFullCopy x y => s.derive x y fun h o => o.createFullCopy fresh h
  | .addAtStart x n => (s.inst.entry x).bind fun b =>
      (b.addAtStart fresh s.heap n).map fun added => s.put added.1 x ⟨added.2.1, n.toNat, 0⟩
  | .addAtEnd x n => (s.inst.entry x).bind fun b =>
      (b.addAtEnd fresh s.heap n).map fun added => s.put added.1 x ⟨added.2.1, 0, n.toNat⟩
  | .writeStart x off call => (s.inst.entry x).bind fun b =>
      (b.begin.next off).bind fun i => (i.perform s.heap call).map fun h => s.put h x b
  | .writeEnd x off call => (s.inst.entry x).bind fun b =>
      (b.atEnd.prev off).bind fun i => (i.perform s.heap call).map fun h => s.put h x b
  | .removeAtStart x n => (s.inst.entry x).bind fun b =>
      (b.removeAtStart n).map fun next => s.put s.heap x (Handle.plain next)
  | .removeAtEnd x n => (s.inst.entry x).map fun b =>
      s.put s.heap x (Handle.plain (b.removeAtEnd n))
  | .append x y => (s.inst.entry x).bind fun b => (s.inst.entry y).bind fun o =>
      (b.append fresh s.heap o.toBuffer (decide (x = y))).map fun made =>
        (s.settle y).put made.1 x (Handle.plain made.2)
  | .destroy x => (s.inst.entry x).map fun b => ⟨b.destroy s.heap, s.inst.drop x⟩

/-- The byte list that each instance represents. -/
def lists (s : BufferPool ι) (x : ι) : Option (List UInt8) :=
  (s.inst.entry x).map fun b => s.heap.viewOf b.toBuffer

end BufferPool

end Ns3Rdma
