import Mathlib.Data.Rat.Floor
import Mathlib.Logic.Function.Basic
import Ns3Rdma.Net.DataRate
import Ns3Rdma.Queue.DropTailQueue

/-! # The egress queue of a device

One FIFO per class of a switch, or per flow of a NIC, and the four schedulers that pick
the FIFO to serve. Every scheduler is a search followed by the same removal. -/

namespace Ns3Rdma

/-- `fcount` is the number of FIFOs in use, queue 0 included. -/
structure BEgressQueue where
  maxBytes : ℚ
  bytesInQueueTotal : UInt32
  bytesInQueue : Fin fCnt → UInt32
  rrlast : Fin fCnt
  qlast : Fin fCnt
  fcount : Nat
  queues : Fin fCnt → DropTailQueue
  bwsatisfied : Fin qCnt → Nat
  minBW : Fin qCnt → Nat
  nBytes : UInt32
  nPackets : UInt32
  fcount_pos : 0 < fcount
  fcount_le : fcount ≤ fCnt

namespace BEgressQueue

/-- A new queue, with attribute `MaxBytes`. -/
def start (maxBytes : ℚ) : BEgressQueue where
  maxBytes := maxBytes
  bytesInQueueTotal := 0
  bytesInQueue := fun _ => 0
  rrlast := 0
  qlast := 0
  fcount := 1
  queues := fun _ => .empty
  bwsatisfied := fun _ => 0
  minBW := fun _ => 10000000000
  nBytes := 0
  nPackets := 0
  fcount_pos := Nat.one_pos
  fcount_le := by decide

/-- The FIFO of a class of a switch. -/
def classQueue (j : Fin qCnt) : Fin fCnt := j.castLE (by decide)

/-- `m_queues[i]->GetNPackets () > 0`. -/
def nonempty (q : BEgressQueue) (i : Fin fCnt) : Bool :=
  decide (0 < (q.queues i).getNPackets)

/-- The FIFOs up to `i` are in use. -/
def setFcount (q : BEgressQueue) (i : Fin fCnt) : BEgressQueue :=
  { q with fcount := i + 1, fcount_pos := Nat.succ_pos i, fcount_le := i.isLt }

/-! ## Adding packets -/

/-- The test of `DoEnqueue`. -/
def accepts (q : BEgressQueue) (p : Packet) : Bool :=
  decide (((q.bytesInQueueTotal + p.size).toNat : ℚ) < q.maxBytes)

def doEnqueue (q : BEgressQueue) (p : Packet) (i : Fin fCnt) : BEgressQueue :=
  if q.accepts p then
    { q with
      queues := Function.update q.queues i ((q.queues i).enqueue p)
      bytesInQueueTotal := q.bytesInQueueTotal + p.size
      bytesInQueue := Function.update q.bytesInQueue i (q.bytesInQueue i + p.size) }
  else q

def enqueue (q : BEgressQueue) (p : Packet) (i : Fin fCnt) : BEgressQueue :=
  if q.accepts p then
    { q.doEnqueue p i with nBytes := q.nBytes + p.size, nPackets := q.nPackets + 1 }
  else q.doEnqueue p i

/-! ## Removing packets -/

/-- The state once packet `p` has left FIFO `i`, which now holds `rest`. -/
def removed (q : BEgressQueue) (i : Fin fCnt) (p : Packet) (rest : DropTailQueue)
    (rrlast qlast : Fin fCnt) : BEgressQueue :=
  { q with
    queues := Function.update q.queues i rest
    bytesInQueueTotal := q.bytesInQueueTotal - p.size
    bytesInQueue := Function.update q.bytesInQueue i (q.bytesInQueue i - p.size)
    rrlast := rrlast
    qlast := qlast
    nBytes := q.nBytes - p.size
    nPackets := q.nPackets - 1 }

@[simp] theorem removed_queues (q : BEgressQueue) (i : Fin fCnt) (p : Packet)
    (rest : DropTailQueue) (rrlast qlast : Fin fCnt) :
    (q.removed i p rest rrlast qlast).queues = Function.update q.queues i rest :=
  rfl

/-- Remove the head of FIFO `i`, and remember `i` where the scheduler does. -/
def popFrom (q : BEgressQueue) (i : Fin fCnt) (rrlast qlast : Fin fCnt) :
    Option (Packet × BEgressQueue) :=
  (q.queues i).dequeue.map fun popped =>
    (popped.1, q.removed i popped.1 popped.2 rrlast qlast)

theorem nonempty_iff {q : BEgressQueue} {i : Fin fCnt} :
    q.nonempty i = true ↔ (q.queues i).packets ≠ [] := by
  rw [nonempty, decide_eq_true_iff, DropTailQueue.getNPackets, List.length_pos_iff]

theorem nonempty_eq_false_iff {q : BEgressQueue} {i : Fin fCnt} :
    q.nonempty i = false ↔ (q.queues i).packets = [] := by
  rw [← Bool.not_eq_true, nonempty_iff, not_not]

theorem popFrom_eq_some {q next : BEgressQueue} {i rrlast qlast : Fin fCnt} {p : Packet} :
    q.popFrom i rrlast qlast = some (p, next) ↔
      ∃ rest, (q.queues i).packets = p :: rest.packets ∧ next = q.removed i p rest rrlast qlast := by
  unfold popFrom
  rw [Option.map_eq_some_iff]
  constructor
  · rintro ⟨⟨p', rest⟩, hpop, heq⟩
    obtain ⟨rfl, rfl⟩ := Prod.mk.inj heq
    exact ⟨rest, DropTailQueue.dequeue_eq_some.mp hpop, rfl⟩
  · rintro ⟨rest, hpop, rfl⟩
    exact ⟨(p, rest), DropTailQueue.dequeue_eq_some.mpr hpop, rfl⟩

theorem popFrom_isSome {q : BEgressQueue} {i : Fin fCnt} (h : q.nonempty i = true)
    (rrlast qlast : Fin fCnt) : ∃ p next, q.popFrom i rrlast qlast = some (p, next) := by
  rw [nonempty_iff] at h
  obtain ⟨⟨p, rest⟩, hpop⟩ : ∃ result, (q.queues i).dequeue = some result :=
    Option.ne_none_iff_exists'.mp fun hnone => h (DropTailQueue.dequeue_eq_none.mp hnone)
  exact ⟨p, _, popFrom_eq_some.mpr ⟨rest, DropTailQueue.dequeue_eq_some.mp hpop, rfl⟩⟩

/-- The two assertions that every function below makes before it returns a packet; `none` is
their failure. -/
def asserted (q : BEgressQueue) :
    Option (Packet × BEgressQueue) → Option (Option (Packet × BEgressQueue))
  | none => some none
  | some (p, next) => if p.size ≤ q.nBytes ∧ 0 < q.nPackets then some (some (p, next)) else none

section Schedulers

variable (q : BEgressQueue) (paused : Fin qCnt → Bool)

/-- The search of `DoDequeue`: strict priority, from class 7 down. -/
def strictIndex : Option (Fin qCnt) :=
  (List.finRange qCnt).reverse.find? fun j => !paused j && q.nonempty (classQueue j)

def dequeue : Option (Packet × BEgressQueue) :=
  if q.bytesInQueueTotal = 0 then none
  else (q.strictIndex paused).bind fun j => q.popFrom (classQueue j) (classQueue j) q.qlast

/-- The `n`-th class that a round robin visits. -/
def roundRobinClass (n : Nat) : Fin qCnt := Fin.ofNat qCnt (n + q.rrlast)

/-- The search of `DoDequeueNIC`, and the last one of `DoDequeueRR`. -/
def roundRobinIndex : Option (Fin qCnt) :=
  ((List.range' 1 qCnt).map q.roundRobinClass).find? fun j =>
    !paused j && q.nonempty (classQueue j)

def dequeueNIC : Option (Packet × BEgressQueue) :=
  if q.bytesInQueueTotal = 0 then none
  else (q.roundRobinIndex paused).bind fun j =>
    q.popFrom (classQueue j) (classQueue j) (classQueue j)

/-- A class has not yet had its guaranteed bandwidth. -/
def owed (now : Nat) (j : Fin qCnt) : Bool :=
  decide (q.bwsatisfied j < now) && q.nonempty (classQueue j)

/-- The guaranteed-bandwidth search of `DoDequeueRR`, from class 6 down. -/
def guaranteedIndex (now : Nat) : Option (Fin qCnt) :=
  ((List.finRange 7).reverse.map Fin.castSucc).find? (q.owed now)

/-- The three searches of `DoDequeueRR`. -/
def rrIndex (now : Nat) : Option (Fin qCnt) :=
  if q.nonempty (classQueue 7) then some 7
  else (q.guaranteedIndex now).or (q.roundRobinIndex paused)

/-- `m_bwsatisfied` after a packet of class `j`. -/
def satisfyBW (now : Nat) (j : Fin qCnt) (p : Packet) (q : BEgressQueue) : BEgressQueue :=
  { q with
    bwsatisfied := Function.update q.bwsatisfied j
      (max (q.bwsatisfied j + seconds (DataRate.calculateTxTime (q.minBW j) p.size.toNat)) now) }

def dequeueRR (now : Nat) : Option (Packet × BEgressQueue) :=
  if q.bytesInQueueTotal = 0 then none
  else (q.rrIndex paused now).bind fun j =>
    (q.popFrom (classQueue j) (if j = 7 then q.rrlast else classQueue j) (classQueue j)).map
      fun (p, next) => (p, satisfyBW now j p next)

variable (avail : Fin fCnt → Nat) (findexQindexMap : Fin fCnt → Fin qCnt)

/-- The `n`-th flow that `DoDequeueQCN` visits. -/
def qcnFlow (n : Nat) : Fin fCnt :=
  ⟨(n + q.rrlast) % q.fcount, (Nat.mod_lt _ q.fcount_pos).trans_le q.fcount_le⟩

/-- The class of a flow is not paused, and its next packet is due. -/
def qcnReady (now : Nat) (i : Fin fCnt) : Bool :=
  !paused (findexQindexMap i) && q.nonempty i && decide (avail i ≤ now)

/-- The searches of `DoDequeueQCN`: queue 0 first, then round robin over the flows. -/
def qcnIndex (now : Nat) : Option (Fin fCnt) :=
  if q.nonempty 0 then some 0
  else ((List.range' 1 q.fcount).map q.qcnFlow).find?
    (q.qcnReady paused avail findexQindexMap now)

def dequeueQCN (now : Nat) : Option (Packet × BEgressQueue) :=
  if q.bytesInQueueTotal = 0 then none
  else (q.qcnIndex paused avail findexQindexMap now).bind fun i =>
    q.popFrom i (if i = 0 then q.rrlast else i) i

/-- `DequeueQCN` with its assertions; `dequeueQCN` is what a build without them does. -/
def assertedDequeueQCN (now : Nat) : Option (Option (Packet × BEgressQueue)) :=
  q.asserted (q.dequeueQCN paused avail findexQindexMap now)

end Schedulers

/-! ## Recovery -/

/-- First loop of `RecoverQueue`: drop what FIFO `i` holds. -/
def clearQueue (q : BEgressQueue) (i : Fin fCnt) : BEgressQueue :=
  (q.queues i).packets.foldl (fun q p =>
    { q with
      bytesInQueue := Function.update q.bytesInQueue i (q.bytesInQueue i - p.size)
      bytesInQueueTotal := q.bytesInQueueTotal - p.size })
    { q with queues := Function.update q.queues i .empty }

/-- Second loop of `RecoverQueue`: a copy of every buffered packet. -/
def refillQueue (q : BEgressQueue) (packets : List Packet) (i : Fin fCnt) : BEgressQueue :=
  packets.foldl (fun q p =>
    { q with
      queues := Function.update q.queues i ((q.queues i).enqueue p)
      bytesInQueue := Function.update q.bytesInQueue i (q.bytesInQueue i + p.size)
      bytesInQueueTotal := q.bytesInQueueTotal + p.size }) q

/-- The queue and the buffer, which is emptied into a temporary queue and restored from it. -/
def recoverQueue (q : BEgressQueue) (buffer : DropTailQueue) (i : Fin fCnt) :
    BEgressQueue × DropTailQueue :=
  let tmp := buffer.packets.foldl DropTailQueue.enqueue .empty
  ((q.clearQueue i).refillQueue buffer.packets i,
    tmp.packets.foldl DropTailQueue.enqueue .empty)

end BEgressQueue

end Ns3Rdma
