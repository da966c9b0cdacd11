import Ns3Rdma.Lib.StepSystem
import Ns3Rdma.Lib.Tally
import Ns3Rdma.Queue.BEgressQueue

/-! # What the counters of the egress queue say

The egress queue counts its bytes by FIFO and in total, and the class it derives from counts
bytes and packets once more. A recovery of a FIFO updates the former only. -/

namespace Ns3Rdma

open StepSystem

namespace DropTailQueue

/-- The packets are below the byte limit of a drop-tail queue. -/
def Fits (q : DropTailQueue) : Prop := byteSize q.packets < 30000 * 65535

instance (q : DropTailQueue) : Decidable q.Fits := inferInstanceAs (Decidable (_ < _))

theorem fits_of_length_le {q : DropTailQueue} (h : q.packets.length ≤ 8000) : q.Fits := by
  have hbytes := byteSize_le q.packets
  unfold Fits
  omega

end DropTailQueue

namespace BEgressQueue

variable {q next : BEgressQueue} {p : Packet} {i : Fin fCnt} {fifo : DropTailQueue}

/-! ## Recovery -/

section Recovery

variable (q) (i : Fin fCnt)

/-- Clearing a FIFO takes the bytes of its packets off both counters. -/
theorem clearQueue_eq : q.clearQueue i =
    { q with
      queues := Function.update q.queues i .empty
      bytesInQueue := Function.update q.bytesInQueue i
        (q.bytesInQueue i - (q.queues i).bytesInQueue)
      bytesInQueueTotal := q.bytesInQueueTotal - (q.queues i).bytesInQueue } := by
  have hfold : ∀ (packets : List Packet) (q : BEgressQueue),
      packets.foldl (fun q p =>
        { q with
          bytesInQueue := Function.update q.bytesInQueue i (q.bytesInQueue i - p.size)
          bytesInQueueTotal := q.bytesInQueueTotal - p.size }) q =
        { q with
          bytesInQueue := Function.update q.bytesInQueue i
            (q.bytesInQueue i - (packets.map Packet.size).sum)
          bytesInQueueTotal := q.bytesInQueueTotal - (packets.map Packet.size).sum } := by
    intro packets
    induction packets with
    | nil =>
        intro q
        rw [List.foldl_nil, List.map_nil, List.sum_nil, UInt32.sub_zero, UInt32.sub_zero,
          Function.update_eq_self]
    | cons p rest ih =>
        intro q
        rw [List.foldl_cons, ih]
        dsimp only
        rw [Function.update_self, Function.update_idem, List.map_cons, List.sum_cons,
          sub_sub, sub_sub]
  rw [(q.queues i).bytes_eq]
  exact hfold _ _

/-- Refilling a FIFO charges both counters for every packet. -/
theorem refillQueue_eq (packets : List Packet) : q.refillQueue packets i =
    { q with
      queues := Function.update q.queues i (packets.foldl DropTailQueue.enqueue (q.queues i))
      bytesInQueue := Function.update q.bytesInQueue i
        (q.bytesInQueue i + (packets.map Packet.size).sum)
      bytesInQueueTotal := q.bytesInQueueTotal + (packets.map Packet.size).sum } := by
  unfold refillQueue
  induction packets generalizing q with
  | nil =>
      rw [List.foldl_nil, List.foldl_nil, List.map_nil, List.sum_nil, UInt32.add_zero,
        UInt32.add_zero, Function.update_eq_self, Function.update_eq_self]
  | cons p rest ih =>
      rw [List.foldl_cons, ih]
      dsimp only
      rw [List.foldl_cons, List.map_cons, List.sum_cons, Function.update_self,
        Function.update_self, Function.update_idem, Function.update_idem, UInt32.add_assoc,
        UInt32.add_assoc]

end Recovery

theorem refill_empty {buffer : DropTailQueue} (h : buffer.Fits) :
    buffer.packets.foldl DropTailQueue.enqueue .empty = buffer := by
  have hroom : byteSize DropTailQueue.empty.packets + byteSize buffer.packets < 30000 * 65535 :=
    (Nat.zero_add _).trans_lt h
  apply DropTailQueue.ext_packets
  rw [DropTailQueue.foldl_enqueue_packets _ _ hroom]
  rfl

/-- After a recovery the FIFO holds what the buffer holds. -/
theorem recoverQueue_eq {buffer : DropTailQueue} (h : buffer.Fits)
    (q : BEgressQueue) (i : Fin fCnt) : q.recoverQueue buffer i =
    ({ q with
      queues := Function.update q.queues i buffer
      bytesInQueue := Function.update q.bytesInQueue i
        (q.bytesInQueue i - (q.queues i).bytesInQueue + buffer.bytesInQueue)
      bytesInQueueTotal :=
        q.bytesInQueueTotal - (q.queues i).bytesInQueue + buffer.bytesInQueue }, buffer) := by
  unfold recoverQueue
  dsimp only
  rw [refill_empty h, refill_empty h, refillQueue_eq, clearQueue_eq]
  dsimp only
  rw [Function.update_self, Function.update_self, Function.update_idem, Function.update_idem,
    refill_empty h, ← buffer.bytes_eq]

/-! ## Adding packets -/

section Enqueue

variable (q p) (i : Fin fCnt)

theorem enqueue_fcount : (q.enqueue p i).fcount = q.fcount := by
  unfold enqueue doEnqueue
  split <;> rfl

theorem enqueue_queues : (q.enqueue p i).queues =
    if q.accepts p then Function.update q.queues i ((q.queues i).enqueue p) else q.queues := by
  unfold enqueue doEnqueue
  split <;> rfl

theorem enqueue_queues_of_ne {j : Fin fCnt} (hj : j ≠ i) :
    (q.enqueue p i).queues j = q.queues j := by
  rw [enqueue_queues]
  split
  · exact Function.update_of_ne hj _ _
  · rfl

/-- The FIFO takes the packet at its end, or does not take it. It takes it if both the egress
queue and the FIFO have room. -/
theorem enqueue_taken : ∃ taken : Bool,
    ((q.enqueue p i).queues i).packets =
        (if taken then (q.queues i).packets ++ [p] else (q.queues i).packets) ∧
      (q.accepts p = true → byteSize (q.queues i).packets + p.size.toNat < 30000 * 65535 →
        taken = true) := by
  rw [enqueue_queues]
  cases haccepts : q.accepts p with
  | false => exact ⟨false, rfl, fun h => absurd h Bool.false_ne_true⟩
  | true =>
      rw [if_pos rfl, Function.update_self]
      by_cases hroom : byteSize (q.queues i).packets + p.size.toNat < 30000 * 65535
      · exact ⟨true, DropTailQueue.enqueue_packets hroom, fun _ _ => rfl⟩
      · unfold DropTailQueue.enqueue
        split
        · exact ⟨false, rfl, fun _ h => absurd h hroom⟩
        · split
          · exact ⟨false, rfl, fun _ h => absurd h hroom⟩
          · exact ⟨true, rfl, fun _ _ => rfl⟩

end Enqueue

/-! ## Taking packets -/

theorem dequeueQCN_eq_some {paused : Fin qCnt → Bool} {avail : Fin fCnt → Nat}
    {findexQindexMap : Fin fCnt → Fin qCnt} {now : Nat} :
    q.dequeueQCN paused avail findexQindexMap now = some (p, next) ↔
      q.bytesInQueueTotal ≠ 0 ∧ ∃ i rest, q.qcnIndex paused avail findexQindexMap now = some i ∧
        (q.queues i).packets = p :: rest.packets ∧
          next = q.removed i p rest (if i = 0 then q.rrlast else i) i := by
  unfold dequeueQCN
  split
  next hzero => simp [hzero]
  next hne =>
    rw [Option.bind_eq_some_iff]
    simp only [popFrom_eq_some, ne_eq, hne, not_false_iff, true_and]
    constructor
    · rintro ⟨i, hindex, rest, hpop⟩
      exact ⟨i, rest, hindex, hpop⟩
    · rintro ⟨i, rest, hindex, hpop⟩
      exact ⟨i, hindex, rest, hpop⟩

/-! ## The counters -/

/-- Bytes in all FIFOs. -/
def heldBytes (q : BEgressQueue) : Nat := ∑ i, byteSize (q.queues i).packets

/-- Packets in all FIFOs. -/
def heldPackets (q : BEgressQueue) : Nat := ∑ i, (q.queues i).packets.length

/-- All four counters describe the contents. -/
structure Counted (q : BEgressQueue) : Prop where
  bytesInQueue : ∀ i, (q.bytesInQueue i).toNat = byteSize (q.queues i).packets
  bytesInQueueTotal : q.bytesInQueueTotal.toNat = q.heldBytes
  nBytes : q.nBytes.toNat = q.heldBytes
  nPackets : q.nPackets.toNat = q.heldPackets

/-- The calls that move packets. The device also puts FIFOs into use. -/
inductive Event where
  | enqueue (p : Packet) (i : Fin fCnt)
  | dequeue (paused : Fin qCnt → Bool)
  | dequeueNIC (paused : Fin qCnt → Bool)
  | dequeueRR (paused : Fin qCnt → Bool) (now : Nat)
  | dequeueQCN (paused : Fin qCnt → Bool) (avail : Fin fCnt → Nat)
      (findexQindexMap : Fin fCnt → Fin qCnt) (now : Nat)
  | recover (buffer : DropTailQueue) (i : Fin fCnt)
  | setFcount (i : Fin fCnt)

/-- The packet that an event takes out, and the queue it leaves. -/
def popped (q : BEgressQueue) : Event → Option (Packet × BEgressQueue)
  | .dequeue paused => q.dequeue paused
  | .dequeueNIC paused => q.dequeueNIC paused
  | .dequeueRR paused now => q.dequeueRR paused now
  | .dequeueQCN paused avail findexQindexMap now =>
      q.dequeueQCN paused avail findexQindexMap now
  | _ => none

def step (q : BEgressQueue) : Event → Option BEgressQueue
  | .enqueue p i => some (q.enqueue p i)
  | .recover buffer i => some (q.recoverQueue buffer i).1
  | .setFcount i => some (q.setFcount i)
  | event => some ((q.popped event).elim q Prod.snd)

/-- The contents stay below the byte limits: those of the FIFOs, and 2^32 in total. -/
def WithinLimits (q : BEgressQueue) : Event → Prop
  | .enqueue p i => byteSize (q.queues i).packets + p.size.toNat < 30000 * 65535 ∧
      q.heldBytes + p.size.toNat < 2 ^ 32
  | .recover buffer i => buffer.Fits ∧
      q.heldBytes + byteSize buffer.packets < 2 ^ 32 + byteSize (q.queues i).packets
  | _ => True

instance (q : BEgressQueue) : (event : Event) → Decidable (q.WithinLimits event)
  | .enqueue _ _ => inferInstanceAs (Decidable (_ ∧ _))
  | .recover _ _ => inferInstanceAs (Decidable (_ ∧ _))
  | .setFcount _ | .dequeue _ | .dequeueNIC _ | .dequeueRR _ _ | .dequeueQCN _ _ _ _ =>
      inferInstanceAs (Decidable True)

/-- The two assertions of the functions that dequeue. -/
def AssertionsHold (q : BEgressQueue) (event : Event) : Prop :=
  ∀ p next, q.popped event = some (p, next) → p.size ≤ q.nBytes ∧ 0 < q.nPackets

/-- A recovery puts back as many bytes and packets as it clears. -/
def Balanced (q : BEgressQueue) (event : Event) : Prop :=
  ∀ buffer i, event = .recover buffer i →
    byteSize buffer.packets = byteSize (q.queues i).packets ∧
      buffer.packets.length = (q.queues i).packets.length

theorem length_le_byteSize (packets : List Packet) : packets.length ≤ byteSize packets := by
  induction packets with
  | nil => exact Nat.le_refl 0
  | cons p rest ih =>
      have hpos := p.size_pos
      rw [List.length_cons, byteSize_cons]
      omega

theorem heldPackets_le (q : BEgressQueue) : q.heldPackets ≤ q.heldBytes :=
  Finset.sum_le_sum fun _ _ => length_le_byteSize _

theorem Counted.held_lt (h : q.Counted) : q.heldBytes < 2 ^ 32 := by
  rw [← h.bytesInQueueTotal]
  exact q.bytesInQueueTotal.toNat_lt

/-- Replacing one FIFO changes both totals by what it held. -/
theorem held_update (h : next.queues = Function.update q.queues i fifo) :
    next.heldBytes + byteSize (q.queues i).packets = q.heldBytes + byteSize fifo.packets ∧
      next.heldPackets + (q.queues i).packets.length = q.heldPackets + fifo.packets.length := by
  have hbytes := Tally.total_update (fun j => byteSize (q.queues j).packets) i
    (byteSize fifo.packets)
  have hpackets := Tally.total_update (fun j => (q.queues j).packets.length) i
    fifo.packets.length
  unfold heldBytes heldPackets
  rw [h]
  simp only [Function.apply_update (fun _ r => byteSize (DropTailQueue.packets r)),
    Function.apply_update (fun _ r => (DropTailQueue.packets r).length)]
  exact ⟨hbytes, hpackets⟩

theorem byteSize_le_held (q : BEgressQueue) (i : Fin fCnt) :
    byteSize (q.queues i).packets ≤ q.heldBytes :=
  Tally.le_total (fun j => byteSize (q.queues j).packets) i

/-- The counters after one FIFO has been replaced. -/
theorem Counted.update (h : q.Counted) (hqueues : next.queues = Function.update q.queues i fifo)
    (hi : (next.bytesInQueue i).toNat = byteSize fifo.packets)
    (hother : ∀ j, j ≠ i → next.bytesInQueue j = q.bytesInQueue j)
    (htotal : next.bytesInQueueTotal.toNat = next.heldBytes)
    (hbytes : next.nBytes.toNat = next.heldBytes)
    (hpackets : next.nPackets.toNat = next.heldPackets) : next.Counted where
  bytesInQueue := by
    intro j
    rw [hqueues]
    by_cases hj : j = i
    · rw [hj, Function.update_self, hi]
    · rw [Function.update_of_ne hj, hother j hj]
      exact h.bytesInQueue j
  bytesInQueueTotal := htotal
  nBytes := hbytes
  nPackets := hpackets

theorem start_counted (maxBytes : ℚ) : (start maxBytes).Counted where
  bytesInQueue := fun _ => rfl
  bytesInQueueTotal := by simp [heldBytes, start, DropTailQueue.empty]
  nBytes := by simp [heldBytes, start, DropTailQueue.empty]
  nPackets := by simp [heldPackets, start, DropTailQueue.empty]

/-! ## One call -/

theorem Counted.enqueue (h : q.Counted) (hlimits : q.WithinLimits (.enqueue p i)) :
    (q.enqueue p i).Counted := by
  obtain ⟨hfifo, htotal⟩ := hlimits
  by_cases haccepts : q.accepts p = true
  · have hpackets := DropTailQueue.enqueue_packets hfifo
    have hqueues : (q.enqueue p i).queues =
        Function.update q.queues i ((q.queues i).enqueue p) := by
      rw [enqueue_queues, if_pos haccepts]
    obtain ⟨hbytes, hcount⟩ := held_update hqueues
    rw [hpackets, byteSize_append, byteSize_cons, byteSize_nil] at hbytes
    rw [hpackets, List.length_append, List.length_singleton] at hcount
    have hi := h.bytesInQueue i
    have hle := q.heldPackets_le
    have hpos := p.size_pos
    have hbytesTotal := h.bytesInQueueTotal
    have hnBytes := h.nBytes
    have hnPackets := h.nPackets
    have hone : (1 : UInt32).toNat = 1 := rfl
    unfold BEgressQueue.enqueue doEnqueue at hqueues hbytes hcount ⊢
    rw [if_pos haccepts, if_pos haccepts] at hqueues hbytes hcount ⊢
    refine h.update hqueues ?_ ?_ ?_ ?_ ?_
    · dsimp only
      rw [Function.update_self, UInt32.toNat_add_of_lt (by omega), hpackets, byteSize_append,
        byteSize_cons, byteSize_nil]
      omega
    · intro j hj
      exact Function.update_of_ne hj _ _
    · rw [UInt32.toNat_add_of_lt (by omega)]
      omega
    · rw [UInt32.toNat_add_of_lt (by omega)]
      omega
    · rw [UInt32.toNat_add_of_lt (by omega)]
      omega
  · unfold BEgressQueue.enqueue doEnqueue
    rw [if_neg haccepts, if_neg haccepts]
    exact h

/-- Both assertions hold for a packet at the head of a FIFO. -/
theorem Counted.assertions (h : q.Counted) {rest : DropTailQueue}
    (hhead : (q.queues i).packets = p :: rest.packets) :
    p.size ≤ q.nBytes ∧ 0 < q.nPackets := by
  have hbytes := q.byteSize_le_held i
  have hcount := Tally.le_total (fun j => (q.queues j).packets.length) i
  have hnBytes := h.nBytes
  have hnPackets := h.nPackets
  simp only [hhead, byteSize_cons, List.length_cons] at hbytes hcount
  rw [UInt32.le_iff_toNat_le, UInt32.lt_iff_toNat_lt, hnBytes, hnPackets]
  refine ⟨by omega, ?_⟩
  exact Nat.lt_of_lt_of_le (Nat.succ_pos _) hcount

theorem Counted.removed (h : q.Counted) {rest : DropTailQueue}
    (hhead : (q.queues i).packets = p :: rest.packets) (rrlast qlast : Fin fCnt) :
    (q.removed i p rest rrlast qlast).Counted := by
  have hqueues := q.removed_queues i p rest rrlast qlast
  obtain ⟨hbytes, hcount⟩ := held_update hqueues
  obtain ⟨hsize, hpos⟩ := h.assertions hhead
  have hi := h.bytesInQueue i
  have hle := q.byteSize_le_held i
  have hone : (1 : UInt32).toNat = 1 := rfl
  rw [hhead, byteSize_cons] at hi hbytes hle
  rw [hhead, List.length_cons] at hcount
  rw [UInt32.le_iff_toNat_le, h.nBytes] at hsize
  rw [UInt32.lt_iff_toNat_lt, h.nPackets] at hpos
  have hbytesTotal := h.bytesInQueueTotal
  have hnBytes := h.nBytes
  have hnPackets := h.nPackets
  unfold BEgressQueue.removed at hqueues hbytes hcount ⊢
  refine h.update hqueues ?_ ?_ ?_ ?_ ?_
  · dsimp only
    rw [Function.update_self, UInt32.toNat_sub_of_toNat_le (by omega)]
    omega
  · intro j hj
    exact Function.update_of_ne hj _ _
  · rw [UInt32.toNat_sub_of_toNat_le (by omega)]
    omega
  · rw [UInt32.toNat_sub_of_toNat_le (by omega)]
    omega
  · rw [UInt32.toNat_sub_of_toNat_le (by change 1 ≤ _; omega)]
    omega

/-- Packet `p` was the head of a FIFO. `DequeueRR` also notes the bandwidth used. -/
def TakesHead (q : BEgressQueue) (p : Packet) (next : BEgressQueue) : Prop :=
  ∃ i rest rrlast qlast, (q.queues i).packets = p :: rest.packets ∧
    (next = q.removed i p rest rrlast qlast ∨
      ∃ now j, next = satisfyBW now j p (q.removed i p rest rrlast qlast))

theorem takesHead_of_popFrom {rrlast qlast : Fin fCnt}
    (h : q.popFrom i rrlast qlast = some (p, next)) : q.TakesHead p next := by
  obtain ⟨rest, hhead, hnext⟩ := popFrom_eq_some.mp h
  exact ⟨i, rest, rrlast, qlast, hhead, Or.inl hnext⟩

/-- Every scheduler takes the head of a FIFO. -/
theorem takesHead_of_popped {event : Event} (h : q.popped event = some (p, next)) :
    q.TakesHead p next := by
  cases event with
  | enqueue p i => cases h
  | recover buffer i => cases h
  | setFcount i => cases h
  | dequeue paused =>
      change q.dequeue paused = _ at h
      unfold dequeue at h
      split at h
      · cases h
      · rw [Option.bind_eq_some_iff] at h
        obtain ⟨j, -, hpop⟩ := h
        exact takesHead_of_popFrom hpop
  | dequeueNIC paused =>
      change q.dequeueNIC paused = _ at h
      unfold dequeueNIC at h
      split at h
      · cases h
      · rw [Option.bind_eq_some_iff] at h
        obtain ⟨j, -, hpop⟩ := h
        exact takesHead_of_popFrom hpop
  | dequeueRR paused now =>
      change q.dequeueRR paused now = _ at h
      unfold dequeueRR at h
      split at h
      · cases h
      · rw [Option.bind_eq_some_iff] at h
        obtain ⟨j, -, hpop⟩ := h
        rw [Option.map_eq_some_iff] at hpop
        obtain ⟨⟨p', middle⟩, hpop, heq⟩ := hpop
        obtain ⟨rfl, rfl⟩ := Prod.mk.inj heq
        obtain ⟨rest, hhead, rfl⟩ := popFrom_eq_some.mp hpop
        exact ⟨_, rest, _, _, hhead, Or.inr ⟨now, j, rfl⟩⟩
  | dequeueQCN paused avail findexQindexMap now =>
      obtain ⟨-, i, rest, -, hhead, hnext⟩ := dequeueQCN_eq_some.mp h
      exact ⟨i, rest, _, _, hhead, Or.inl hnext⟩

theorem Counted.popped (h : q.Counted) {event : Event} (hpop : q.popped event = some (p, next)) :
    next.Counted := by
  obtain ⟨i, rest, rrlast, qlast, hhead, hnext⟩ := takesHead_of_popped hpop
  have hremoved := h.removed hhead rrlast qlast
  rcases hnext with rfl | ⟨now, j, rfl⟩
  · exact hremoved
  · exact ⟨hremoved.bytesInQueue, hremoved.bytesInQueueTotal, hremoved.nBytes, hremoved.nPackets⟩

/-- A recovery keeps the counters right exactly if it puts back what it clears. -/
theorem Counted.recover_iff (h : q.Counted) {buffer : DropTailQueue}
    (hlimits : q.WithinLimits (.recover buffer i)) :
    (q.recoverQueue buffer i).1.Counted ↔ q.Balanced (.recover buffer i) := by
  obtain ⟨hfits, htotal⟩ := hlimits
  rw [recoverQueue_eq hfits]
  have hqueues : BEgressQueue.queues { q with
      queues := Function.update q.queues i buffer
      bytesInQueue := Function.update q.bytesInQueue i
        (q.bytesInQueue i - (q.queues i).bytesInQueue + buffer.bytesInQueue)
      bytesInQueueTotal :=
        q.bytesInQueueTotal - (q.queues i).bytesInQueue + buffer.bytesInQueue } =
      Function.update q.queues i buffer := rfl
  obtain ⟨hbytes, hcount⟩ := held_update hqueues
  have hnBytes := h.nBytes
  have hnPackets := h.nPackets
  have hbytesTotal := h.bytesInQueueTotal
  have hi := h.bytesInQueue i
  have hle := q.byteSize_le_held i
  have hheld := h.held_lt
  have hfifo : (q.queues i).bytesInQueue.toNat = byteSize (q.queues i).packets := by
    rw [(q.queues i).bytes_eq, toNat_sum_size, Nat.mod_eq_of_lt (by omega)]
  have hbuffer : buffer.bytesInQueue.toNat = byteSize buffer.packets := by
    unfold DropTailQueue.Fits at hfits
    rw [buffer.bytes_eq, toNat_sum_size, Nat.mod_eq_of_lt (by omega)]
  constructor
  · intro hcounted buffer' i' heq
    obtain ⟨rfl, rfl⟩ := Event.recover.inj heq
    have hnBytes' := hcounted.nBytes
    have hnPackets' := hcounted.nPackets
    dsimp only at hnBytes' hnPackets'
    omega
  · intro hbalanced
    obtain ⟨hsize, hlength⟩ := hbalanced buffer i rfl
    have hsub : (q.bytesInQueue i - (q.queues i).bytesInQueue).toNat =
        (q.bytesInQueue i).toNat - (q.queues i).bytesInQueue.toNat :=
      UInt32.toNat_sub_of_toNat_le (by omega)
    have hsubTotal : (q.bytesInQueueTotal - (q.queues i).bytesInQueue).toNat =
        q.bytesInQueueTotal.toNat - (q.queues i).bytesInQueue.toNat :=
      UInt32.toNat_sub_of_toNat_le (by omega)
    refine h.update hqueues ?_ ?_ ?_ ?_ ?_
    · dsimp only
      rw [Function.update_self, UInt32.toNat_add_of_lt (by omega)]
      omega
    · intro j hj
      exact Function.update_of_ne hj _ _
    · dsimp only at hbytes ⊢
      rw [UInt32.toNat_add_of_lt (by omega)]
      omega
    · dsimp only at hbytes ⊢
      omega
    · dsimp only at hcount ⊢
      omega

/-! ## Runs -/

/-- One call keeps the counters right exactly if it is balanced. Its assertions hold anyway. -/
theorem Counted.step_iff (h : q.Counted) {event : Event} (hlimits : q.WithinLimits event)
    (hstep : q.step event = some next) :
    (next.Counted ↔ q.Balanced event) ∧ q.AssertionsHold event := by
  have hpopped : ∀ event, (∀ buffer i, event ≠ .recover buffer i) →
      (((q.popped event).elim q Prod.snd).Counted ↔ q.Balanced event) ∧
        q.AssertionsHold event := by
    intro event hevent
    refine ⟨iff_of_true ?_ fun buffer i heq => absurd heq (hevent buffer i), ?_⟩
    · cases hpop : q.popped event with
      | none => exact h
      | some result => exact h.popped hpop
    · intro p next hpop
      obtain ⟨i, rest, -, -, hhead, -⟩ := takesHead_of_popped hpop
      exact h.assertions hhead
  cases event with
  | enqueue p i =>
      obtain rfl := Option.some.inj hstep
      refine ⟨iff_of_true (h.enqueue hlimits) ?_, ?_⟩
      · intro buffer i heq
        cases heq
      · intro p next hpop
        cases hpop
  | recover buffer i =>
      obtain rfl := Option.some.inj hstep
      refine ⟨h.recover_iff hlimits, ?_⟩
      intro p next hpop
      cases hpop
  | setFcount i =>
      obtain rfl := Option.some.inj hstep
      refine ⟨iff_of_true ⟨h.bytesInQueue, h.bytesInQueueTotal, h.nBytes, h.nPackets⟩ ?_, ?_⟩
      · intro buffer i heq
        cases heq
      · intro p next hpop
        cases hpop
  | dequeue paused =>
      obtain rfl := Option.some.inj hstep
      exact hpopped _ fun _ _ => Event.noConfusion
  | dequeueNIC paused =>
      obtain rfl := Option.some.inj hstep
      exact hpopped _ fun _ _ => Event.noConfusion
  | dequeueRR paused now =>
      obtain rfl := Option.some.inj hstep
      exact hpopped _ fun _ _ => Event.noConfusion
  | dequeueQCN paused avail findexQindexMap now =>
      obtain rfl := Option.some.inj hstep
      exact hpopped _ fun _ _ => Event.noConfusion

/-- In every run below the byte limits, the counters describe the contents and no assertion
fails exactly if every recovery puts back as many bytes and packets as it clears. -/
theorem counters_describe_iff (maxBytes : ℚ) (events : List Event)
    (hlimits : EachStep step (fun q event _ => q.WithinLimits event) (start maxBytes) events) :
    (Throughout step Counted (start maxBytes) events ∧
        EachStep step (fun q event _ => q.AssertionsHold event) (start maxBytes) events) ↔
      EachStep step (fun q event _ => q.Balanced event) (start maxBytes) events := by
  constructor
  · rintro ⟨hcounted, -⟩ done event rest q next heq hrun hstep
    have h := hcounted done (event :: rest) q heq hrun
    have hnext := hcounted (done ++ [event]) rest next (by simpa using heq)
      (run_trans hrun (by rw [run_cons_of_step [] hstep, run_nil]))
    exact (h.step_iff (hlimits done event rest q next heq hrun hstep) hstep).1.mp hnext
  · intro hbalanced
    have hcounted : Throughout step Counted (start maxBytes) events := by
      apply throughout_of_eachStep _ (start_counted maxBytes) (eachStep_and.mpr ⟨hlimits, hbalanced⟩)
      rintro q event next h hstep ⟨hlimits, hbalanced⟩
      exact (h.step_iff hlimits hstep).1.mpr hbalanced
    refine ⟨hcounted, ?_⟩
    intro done event rest q next heq hrun hstep
    have h := hcounted done (event :: rest) q heq hrun
    exact (h.step_iff (hlimits done event rest q next heq hrun hstep) hstep).2

/-- A sending buffer with one packet. -/
def oneBuffered : DropTailQueue := DropTailQueue.empty.enqueue (.sample 0)

/-- No class is paused, and every flow may send. -/
def serveFlows : Event := .dequeueQCN (fun _ => false) (fun _ => 0) (fun _ => 0) 0

/-- A packet is recovered while it still waits in its FIFO, and then transmitted. -/
def recoverQueued : List Event :=
  [.setFcount 1, .enqueue (.sample 0) 1, .recover oneBuffered 1, serveFlows]

theorem counters_describe_iff_run :
    (Throughout step Counted (start 1000000) recoverQueued ∧
        EachStep step (fun q event _ => q.AssertionsHold event) (start 1000000) recoverQueued) ↔
      EachStep step (fun q event _ => q.Balanced event) (start 1000000) recoverQueued := by
  apply counters_describe_iff
  apply eachStep_of_take
  decide +kernel

/-- A packet is recovered after it has been transmitted. -/
def recoverTransmitted : List Event :=
  [.setFcount 1, .enqueue (.sample 0) 1, serveFlows, .recover oneBuffered 1, serveFlows]

/-- The recovered packet is not counted by `m_nBytes`, and an assertion fails when it leaves. -/
theorem retransmission_fails_assertion :
    EachStep step (fun q event _ => q.WithinLimits event) (start 1000000) recoverTransmitted ∧
      ¬ Throughout step Counted (start 1000000) recoverTransmitted ∧
        ¬ EachStep step (fun q event _ => q.AssertionsHold event) (start 1000000)
          recoverTransmitted := by
  have hrun : (run step (start 1000000) (recoverTransmitted.take 4)).any (fun q =>
      q.nBytes = 0 ∧ ((q.popped serveFlows).any fun result => result.1.size = 1000) = true) =
        true := by decide +kernel
  rw [Option.any_eq_true] at hrun
  obtain ⟨q, hrun, hq⟩ := hrun
  obtain ⟨hnBytes, hpopped⟩ := of_decide_eq_true hq
  rw [Option.any_eq_true] at hpopped
  obtain ⟨⟨p, next⟩, hpop, hsize⟩ := hpopped
  have hfails : ¬ q.AssertionsHold serveFlows := by
    intro hholds
    have hle := (hholds p next hpop).1
    rw [hnBytes, of_decide_eq_true hsize] at hle
    exact absurd hle (by decide)
  refine ⟨eachStep_of_take (by decide +kernel), fun hcounted => ?_, fun hholds => ?_⟩
  · have h := hcounted _ [serveFlows] q rfl hrun
    have hlimits : q.WithinLimits serveFlows := trivial
    exact hfails (h.step_iff hlimits rfl).2
  · exact hfails (hholds _ _ [] q _ rfl hrun rfl)

end BEgressQueue

end Ns3Rdma
