import Mathlib.Algebra.BigOperators.Group.List.Basic
import Mathlib.Data.UInt
import Ns3Rdma.Lib.Word
import Ns3Rdma.Net.Packet

/-! # Drop-tail queues

The FIFO under every class of the egress queue and under every retransmission buffer,
with the attribute values it is created with. -/

namespace Ns3Rdma

/-- Total size of a list of packets. -/
def byteSize (packets : List Packet) : Nat :=
  (packets.map fun p => p.size.toNat).sum

@[simp] theorem byteSize_nil : byteSize [] = 0 := rfl

@[simp] theorem byteSize_cons (p : Packet) (packets : List Packet) :
    byteSize (p :: packets) = p.size.toNat + byteSize packets := by
  simp [byteSize]

@[simp] theorem byteSize_append (first second : List Packet) :
    byteSize (first ++ second) = byteSize first + byteSize second := by
  simp [byteSize]

theorem byteSize_le (packets : List Packet) : byteSize packets ≤ packets.length * 65537 := by
  induction packets with
  | nil => simp
  | cons p rest ih =>
      have hsize := p.size_le
      rw [byteSize_cons, List.length_cons]
      omega

/-- The 32-bit sum of the sizes is their total, reduced. -/
theorem toNat_sum_size (packets : List Packet) :
    (packets.map Packet.size).sum.toNat = byteSize packets % 2 ^ 32 := by
  induction packets with
  | nil => rfl
  | cons p rest ih =>
      rw [List.map_cons, List.sum_cons, UInt32.toNat_add, ih, byteSize_cons]
      omega

inductive QueueMode where
  | packets
  | bytes
deriving DecidableEq

/-- A FIFO with its byte counter. -/
structure DropTailQueue where
  packets : List Packet
  bytesInQueue : UInt32
  bytes_eq : bytesInQueue = (packets.map Packet.size).sum

namespace DropTailQueue

/-- Attribute `Mode`. -/
def mode : QueueMode := .bytes

/-- Attribute `MaxPackets`. -/
def maxPackets : Nat := 100

/-- Attribute `MaxBytes`. -/
def maxBytes : UInt32 := 30000 * 65535

/-- The packets determine the byte counter. -/
theorem ext_packets {q r : DropTailQueue} (h : q.packets = r.packets) : q = r := by
  obtain ⟨packets, bytes, hbytes⟩ := q
  obtain ⟨packets', bytes', hbytes'⟩ := r
  dsimp only at h
  subst h hbytes hbytes'
  rfl

def empty : DropTailQueue where
  packets := []
  bytesInQueue := 0
  bytes_eq := rfl

def getNPackets (q : DropTailQueue) : Nat := q.packets.length

def enqueue (q : DropTailQueue) (p : Packet) : DropTailQueue :=
  if mode = .packets ∧ maxPackets ≤ q.packets.length then q
  else if mode = .bytes ∧ maxBytes ≤ q.bytesInQueue + p.size then q
  else
    { packets := q.packets ++ [p]
      bytesInQueue := q.bytesInQueue + p.size
      bytes_eq := by simp [q.bytes_eq] }

def dequeue (q : DropTailQueue) : Option (Packet × DropTailQueue) :=
  match hq : q.packets with
  | [] => none
  | p :: rest =>
      some (p, { packets := rest
                 bytesInQueue := q.bytesInQueue - p.size
                 bytes_eq := by simp [q.bytes_eq, hq] })

/-- Dequeue as long as the head is one to be dropped. -/
def dropWhile (drop : Packet → Bool) (q : DropTailQueue) : DropTailQueue where
  packets := q.packets.dropWhile drop
  bytesInQueue := ((q.packets.dropWhile drop).map Packet.size).sum
  bytes_eq := rfl

theorem dequeue_eq_none {q : DropTailQueue} : q.dequeue = none ↔ q.packets = [] := by
  unfold dequeue
  split
  next h => simp [h]
  next p rest h => simp [h]

theorem dequeue_eq_some {q rest : DropTailQueue} {p : Packet} :
    q.dequeue = some (p, rest) ↔ q.packets = p :: rest.packets := by
  unfold dequeue
  split
  next h => simp [h]
  next p' rest' h =>
    have hsplit : q.packets = p :: rest.packets ↔ p' = p ∧ rest' = rest.packets := by
      rw [h, List.cons.injEq]
    rw [hsplit, Option.some.injEq, Prod.mk.injEq]
    exact and_congr_right fun _ => ⟨fun heq => congrArg packets heq, fun heq => ext_packets heq⟩

/-- A queue that stays below its byte limit accepts the packet. -/
theorem enqueue_packets {q : DropTailQueue} {p : Packet}
    (h : byteSize q.packets + p.size.toNat < 30000 * 65535) :
    (q.enqueue p).packets = q.packets ++ [p] := by
  have hbytes : q.bytesInQueue.toNat = byteSize q.packets := by
    rw [q.bytes_eq, toNat_sum_size, Nat.mod_eq_of_lt (by omega)]
  have hroom : ¬ maxBytes ≤ q.bytesInQueue + p.size := by
    rw [UInt32.le_iff_toNat_le, UInt32.toNat_add_of_lt (by omega), hbytes]
    have hmax : maxBytes.toNat = 30000 * 65535 := rfl
    omega
  unfold enqueue
  rw [if_neg (by simp [mode]), if_neg (fun hfull => hroom hfull.2)]

/-- Refilling an empty queue one packet at a time. -/
theorem foldl_enqueue_packets (packets : List Packet) (q : DropTailQueue)
    (h : byteSize q.packets + byteSize packets < 30000 * 65535) :
    (packets.foldl enqueue q).packets = q.packets ++ packets := by
  induction packets generalizing q with
  | nil => simp
  | cons p rest ih =>
      rw [byteSize_cons] at h
      have hp := enqueue_packets (q := q) (p := p) (by omega)
      rw [List.foldl_cons, ih (q.enqueue p), hp]
      · simp
      · rw [hp, byteSize_append, byteSize_cons, byteSize_nil]
        omega

end DropTailQueue

end Ns3Rdma
