import Ns3Rdma.Nic.Device
import Ns3Rdma.Queue.Counters
import Ns3Rdma.Queue.PauseHonoured
import Ns3Rdma.Switch.Ingress

/-! # Admission at a switch

`Send` at a switch checks a data packet against the ingress and the egress counters, charges
both, and then enqueues it. The egress queue has a limit of its own and may refuse the packet.
`DequeueAndTransmit` discharges a data packet, for the port that its flow tag names. -/

namespace Ns3Rdma

open StepSystem

/-- The test of `DoEnqueue`, and the one of the FIFO behind it. -/
def BEgressQueue.takes (q : BEgressQueue) (p : Packet) (i : Fin fCnt) : Bool :=
  q.accepts p && !(DropTailQueue.maxBytes ≤ (q.queues i).bytesInQueue + p.size)

/-- The bytes that the two counters of an egress queue have together. -/
def BroadcomNode.egressBytes (b : BroadcomNode) (q : QueueId) : UInt32 :=
  b.usedEgressQMinBytes q + b.usedEgressQSharedBytes q

/-- One device of a switch. `inDevs` are the flow tags of the data packets in its FIFOs. -/
structure SwitchPort where
  queue : BEgressQueue
  inDevs : Fin qCnt → List (Fin pCnt)
  busy : Bool

/-- The counters that the devices of a switch share, and the devices. -/
structure Switch where
  node : BroadcomNode
  ports : Fin pCnt → SwitchPort

/-- What a device does not decide by itself: the pauses, the time, and whether
`ShouldSendCN` asks for a mark. -/
structure Surroundings where
  paused : Fin qCnt → Bool
  now : Nat
  congested : Bool

namespace SwitchPort

/-- The packet carries its flow tag into the FIFO. -/
def enqueue (s : SwitchPort) (p : Packet) (qIndex : Fin qCnt) (inDev : Fin pCnt) : SwitchPort :=
  { s with
    queue := s.queue.enqueue p (BEgressQueue.classQueue qIndex)
    inDevs :=
      if s.queue.takes p (BEgressQueue.classQueue qIndex) then
        Function.update s.inDevs qIndex (s.inDevs qIndex ++ [inDev])
      else s.inDevs }

end SwitchPort

namespace Switch

def start (t : Thresholds) (maxBytes : ℚ) : Switch where
  node := .start t
  ports := fun _ =>
    { queue := .start maxBytes
      inDevs := fun _ => []
      busy := false }

/-- Both checks of `Send`. -/
def admits (s : Switch) (port inDev : Fin pCnt) (p : Packet) : Bool :=
  s.node.checkIngressAdmission (inDev, Nic.sendClass p) p.size &&
    s.node.checkEgressAdmission (port, Nic.sendClass p) p.size

/-- The counters once the packet is charged. -/
def charged (s : Switch) (port inDev : Fin pCnt) (p : Packet) : BroadcomNode :=
  (s.node.updateIngressAdmission (inDev, Nic.sendClass p) p.size).updateEgressAdmission
    (port, Nic.sendClass p) p.size

/-- `Send` at device `port` up to `DequeueAndTransmit`, for a packet with flow tag `inDev`.
Frames of class 7 are not charged. -/
def enter (s : Switch) (port inDev : Fin pCnt) (p : Packet) : Switch :=
  if Nic.sendClass p = 7 then
    { s with
      ports := Function.update s.ports port
        { s.ports port with
          queue := (s.ports port).queue.enqueue p (BEgressQueue.classQueue 7) } }
  else if s.admits port inDev p then
    { node := s.charged port inDev p
      ports := Function.update s.ports port
        ((s.ports port).enqueue p (Nic.sendClass p) inDev) }
  else s

/-- The class that a FIFO of a switch serves. -/
def classOf (i : Fin fCnt) : Fin qCnt := Fin.ofNat qCnt i

/-- `DequeueAndTransmit` at a switch. Without a tag the port to discharge is indeterminate. -/
def dequeueAndTransmit (s : Switch) (port : Fin pCnt) (r : Surroundings) :
    Option (Switch × Option Packet) :=
  let device := s.ports port
  if device.busy then some (s, none)
  else
    match device.queue.dequeueRR r.paused r.now with
    | none => some (s, none)
    | some (p, queue) =>
        let qIndex := classOf queue.qlast
        if qIndex = 7 then
          some ({ s with
            ports := Function.update s.ports port { device with queue := queue, busy := true } },
            some p)
        else
          match device.inDevs qIndex with
          | [] => none
          | inDev :: inDevs => some
              ({ node := (s.node.removeFromIngressAdmission (inDev, qIndex) p.size
                    ).removeFromEgressAdmission (port, qIndex) p.size
                 ports := Function.update s.ports port
                   { queue := queue
                     inDevs := Function.update device.inDevs qIndex inDevs
                     busy := true } },
                some (if r.congested then { p with ecn := 3 } else p))

/-- PFC frames that `CheckQueueFull` sends are `send` events of their own. `resume` is the call
of `DequeueAndTransmit` at the end of a pause. -/
inductive Event where
  | send (port inDev : Fin pCnt) (p : Packet) (r : Surroundings)
  | transmitComplete (port : Fin pCnt) (r : Surroundings)
  | resume (port : Fin pCnt) (r : Surroundings)

def step (s : Switch) : Event → Option Switch
  | .send port inDev p r => ((s.enter port inDev p).dequeueAndTransmit port r).map Prod.fst
  | .transmitComplete port r =>
      (dequeueAndTransmit { s with
        ports := Function.update s.ports port { s.ports port with busy := false } } port r).map
          Prod.fst
  | .resume port r => (s.dequeueAndTransmit port r).map Prod.fst

/-! ## What the counters describe -/

/-- The data packets in the FIFO of one class of one device. -/
def heldAt (s : Switch) (q : QueueId) : List Buffered :=
  List.zipWith (fun inDev p => ⟨(inDev, q.2), p.size⟩) ((s.ports q.1).inDevs q.2)
    ((s.ports q.1).queue.queues (BEgressQueue.classQueue q.2)).packets

/-- All data packets in the queues of the switch. -/
def held (s : Switch) : List Buffered :=
  ((List.finRange pCnt).product (List.finRange qCnt)).flatMap s.heldAt

/-- Every data packet carries its tag. -/
def Tagged (s : Switch) : Prop :=
  (∀ port, (s.ports port).inDevs 7 = []) ∧
    ∀ port qIndex, qIndex ≠ 7 → ((s.ports port).inDevs qIndex).length =
      ((s.ports port).queue.queues (BEgressQueue.classQueue qIndex)).packets.length

/-- The ingress counters are exact for the packets in the queues, and so is the sum of the two
egress counters of every FIFO, as a 32-bit number. -/
structure Described (s : Switch) : Prop where
  tagged : s.Tagged
  ingress : IngressRun.Sound { node := s.node, buffered := s.held }
  egress : ∀ q, s.node.egressBytes q = ((s.heldAt q).map Buffered.psize).sum

/-- The packet is at the end of its FIFO, and both sides have been charged. -/
def QueuedAndCharged (s : Switch) (port inDev : Fin pCnt) (p : Packet) (next : Switch) : Prop :=
  next.node = s.charged port inDev p ∧
    ((next.ports port).queue.queues (BEgressQueue.classQueue (Nic.sendClass p))).packets =
      ((s.ports port).queue.queues (BEgressQueue.classQueue (Nic.sendClass p))).packets ++ [p]

/-- `Send` queues and charges a data packet, or changes nothing. -/
def SendAtomic (s : Switch) (port inDev : Fin pCnt) (p : Packet) : Prop :=
  s.QueuedAndCharged port inDev p (s.enter port inDev p) ∨ s.enter port inDev p = s

/-- The queue takes the packet if both checks accept it. -/
def AdmittedTaken (s : Switch) (port inDev : Fin pCnt) (p : Packet) : Prop :=
  s.admits port inDev p = true →
    (s.ports port).queue.takes p (BEgressQueue.classQueue (Nic.sendClass p)) = true

end Switch

/-! ## The queue -/

namespace BEgressQueue

variable {q next : BEgressQueue} {p : Packet} {i : Fin fCnt}

theorem enqueue_packets_eq (q : BEgressQueue) (p : Packet) (i : Fin fCnt) :
    ((q.enqueue p i).queues i).packets =
      if q.takes p i then (q.queues i).packets ++ [p] else (q.queues i).packets := by
  rw [enqueue_queues]
  unfold takes
  by_cases haccepts : q.accepts p = true
  · rw [if_pos haccepts, Function.update_self, haccepts, Bool.true_and]
    unfold DropTailQueue.enqueue
    rw [if_neg (by simp [DropTailQueue.mode])]
    by_cases hfull : DropTailQueue.maxBytes ≤ (q.queues i).bytesInQueue + p.size
    · rw [if_pos ⟨rfl, hfull⟩, if_neg (by simpa using hfull)]
    · rw [if_neg (fun h => hfull h.2), if_pos (by simpa using hfull)]
  · rw [if_neg haccepts, if_neg (by simp [haccepts])]

/-- The round-robin scheduler of a switch remembers the class it served. -/
theorem dequeueRR_eq_some {paused : Fin qCnt → Bool} {now : Nat}
    (h : q.dequeueRR paused now = some (p, next)) : ∃ j rest,
      (q.queues (classQueue j)).packets = p :: rest.packets ∧
        next.queues = Function.update q.queues (classQueue j) rest ∧
          next.qlast = classQueue j := by
  unfold dequeueRR at h
  split at h
  · cases h
  · rw [Option.bind_eq_some_iff] at h
    obtain ⟨j, -, h⟩ := h
    rw [Option.map_eq_some_iff] at h
    obtain ⟨⟨p', middle⟩, hpop, heq⟩ := h
    obtain ⟨rfl, rfl⟩ := Prod.mk.inj heq
    obtain ⟨rest, hhead, rfl⟩ := popFrom_eq_some.mp hpop
    exact ⟨j, rest, hhead, rfl, rfl⟩

end BEgressQueue

/-! ## The egress counters -/

namespace BroadcomNode

variable (b : BroadcomNode) (q : QueueId) (psize : UInt32)

theorem rebalance_egressBytes (i : QueueId) : (b.rebalance q).egressBytes i = b.egressBytes i := by
  unfold rebalance egressBytes
  dsimp only
  split
  · by_cases hi : i = q
    · rw [hi]
      dsimp only
      rw [Function.update_self, Function.update_self]
      abel
    · dsimp only
      rw [Function.update_of_ne hi, Function.update_of_ne hi]
  · rfl

theorem updateEgressAdmission_egressBytes (i : QueueId) :
    (b.updateEgressAdmission q psize).egressBytes i =
      if i = q then b.egressBytes q + psize else b.egressBytes i := by
  unfold updateEgressAdmission
  split
  · unfold egressBytes chargeMin
    dsimp only
    split
    next hi =>
      rw [hi, Function.update_self]
      abel
    next hi => rw [Function.update_of_ne hi]
  · rw [rebalance_egressBytes]
    unfold egressBytes chargeShared
    dsimp only
    split
    next hi =>
      rw [hi, Function.update_self]
      abel
    next hi => rw [Function.update_of_ne hi]

theorem removeFromEgressAdmission_egressBytes (i : QueueId) :
    (b.removeFromEgressAdmission q psize).egressBytes i =
      if i = q then b.egressBytes q - psize else b.egressBytes i := by
  unfold removeFromEgressAdmission
  split
  · unfold egressBytes dischargeShared
    dsimp only
    split
    next hi =>
      rw [hi, Function.update_self]
      abel
    next hi => rw [Function.update_of_ne hi]
  · rw [rebalance_egressBytes]
    unfold egressBytes dischargeMin
    dsimp only
    split
    next hi =>
      rw [hi, Function.update_self]
      abel
    next hi => rw [Function.update_of_ne hi]

/-- Ingress updates do not touch the egress counters. -/
theorem updateIngressAdmission_egressBytes (pg i : QueueId) :
    (b.updateIngressAdmission pg psize).egressBytes i = b.egressBytes i := rfl

theorem removeFromIngressAdmission_egressBytes (pg i : QueueId) :
    (b.removeFromIngressAdmission pg psize).egressBytes i = b.egressBytes i := rfl

end BroadcomNode

/-! ## One call -/

namespace Switch

variable {s next : Switch} {port inDev : Fin pCnt} {p : Packet}

/-- A charged packet changes the total. -/
theorem charged_ne (s : Switch) (port inDev : Fin pCnt) (p : Packet) :
    s.charged port inDev p ≠ s.node := by
  intro heq
  have htotal := congrArg (fun b => b.usedTotalBytes) heq
  have hframe := ((s.node.updateIngressAdmission (inDev, Nic.sendClass p) p.size
    ).updateEgressAdmission_frame (port, Nic.sendClass p) p.size).2
  have hcharged : (s.charged port inDev p).usedTotalBytes = s.node.usedTotalBytes + p.size :=
    congrArg IngressCounters.usedTotalBytes hframe
  rw [hcharged, add_eq_left] at htotal
  have hpos := p.size_pos
  rw [htotal] at hpos
  exact Nat.lt_irrefl 0 hpos

/-- `Send` of a data packet is atomic exactly if the queue takes what the checks accept. -/
theorem sendAtomic_iff (hdata : Nic.sendClass p ≠ 7) :
    s.SendAtomic port inDev p ↔ s.AdmittedTaken port inDev p := by
  unfold SendAtomic AdmittedTaken enter
  rw [if_neg hdata]
  by_cases hadmits : s.admits port inDev p = true
  · rw [if_pos hadmits, imp_iff_right hadmits]
    have hpackets := (s.ports port).queue.enqueue_packets_eq p
      (BEgressQueue.classQueue (Nic.sendClass p))
    constructor
    · rintro (⟨-, hqueued⟩ | hsame)
      · dsimp only at hqueued
        rw [Function.update_self] at hqueued
        change (((s.ports port).queue.enqueue p _).queues _).packets = _ at hqueued
        by_contra hfull
        rw [hpackets, if_neg hfull] at hqueued
        exact List.cons_ne_nil p [] (List.self_eq_append_right.mp hqueued)
      · exact absurd (congrArg Switch.node hsame) (s.charged_ne port inDev p)
    · intro htaken
      refine Or.inl ⟨rfl, ?_⟩
      dsimp only
      rw [Function.update_self]
      change (((s.ports port).queue.enqueue p _).queues _).packets = _
      rw [hpackets, if_pos htaken]
  · rw [if_neg hadmits]
    exact iff_of_true (Or.inr rfl) fun h => absurd h hadmits

/-! ## The packets held -/

theorem heldAt_congr {q : QueueId} (htags : (next.ports q.1).inDevs q.2 = (s.ports q.1).inDevs q.2)
    (hqueue : ((next.ports q.1).queue.queues (BEgressQueue.classQueue q.2)).packets =
      ((s.ports q.1).queue.queues (BEgressQueue.classQueue q.2)).packets) :
    next.heldAt q = s.heldAt q := by
  unfold heldAt
  rw [htags, hqueue]

theorem mem_shelves (q : QueueId) : q ∈ (List.finRange pCnt).product (List.finRange qCnt) :=
  List.mem_product.mpr ⟨List.mem_finRange q.1, List.mem_finRange q.2⟩

theorem shelves_nodup : ((List.finRange pCnt).product (List.finRange qCnt)).Nodup :=
  (List.nodup_finRange pCnt).product (List.nodup_finRange qCnt)

/-- The switch holds one more packet if one FIFO does. -/
theorem held_perm_cons {q : QueueId} {packet : Buffered}
    (hat : (next.heldAt q).Perm (packet :: s.heldAt q))
    (hother : ∀ i, i ≠ q → next.heldAt i = s.heldAt i) : next.held.Perm (packet :: s.held) := by
  have hupdate : next.heldAt = Function.update s.heldAt q (next.heldAt q) := by
    funext i
    by_cases hi : i = q
    · rw [hi, Function.update_self]
    · rw [Function.update_of_ne hi, hother i hi]
  unfold held
  rw [hupdate]
  exact Tally.flatMap_update_perm shelves_nodup (mem_shelves q) s.heldAt hat

theorem held_congr (hsame : ∀ q, next.heldAt q = s.heldAt q) : next.held = s.held := by
  unfold held
  rw [funext hsame]

/-- Soundness does not depend on the order of the packets. -/
theorem sound_perm {node : BroadcomNode} {first second : List Buffered}
    (h : IngressRun.Sound { node := node, buffered := first }) (hperm : first.Perm second) :
    IngressRun.Sound { node := node, buffered := second } := by
  have hbytes : ∀ {κ : Type} [DecidableEq κ] (key : QueueId → κ) (k : κ),
      bytesBy key second k = bytesBy key first k := by
    intro κ _ key k
    exact Tally.items_perm hperm.symm k
  obtain ⟨total, pool, port, group, headroom, capacity⟩ := h
  refine ⟨?_, fun sp => ?_, fun p => ?_, fun pg => ?_, headroom, capacity⟩
  · rw [hbytes]
    exact total
  · rw [hbytes]
    exact pool sp
  · rw [hbytes]
    exact port p
  · rw [hbytes]
    exact group pg

/-! ## Sending -/

/-- The description reads the counters, the tags and the FIFOs of the classes. -/
theorem Described.congr (h : s.Described) (hnode : next.node = s.node)
    (htags : ∀ i, (next.ports i).inDevs = (s.ports i).inDevs)
    (hqueues : ∀ i j, j ≠ 7 →
      ((next.ports i).queue.queues (BEgressQueue.classQueue j)).packets =
        ((s.ports i).queue.queues (BEgressQueue.classQueue j)).packets) : next.Described := by
  have hsame : ∀ q, next.heldAt q = s.heldAt q := by
    intro q
    by_cases hq : q.2 = 7
    · -- no tags are kept for class 7
      unfold heldAt
      rw [htags, hq, h.tagged.1, List.zipWith_nil_left, List.zipWith_nil_left]
    · exact heldAt_congr (by rw [htags]) (hqueues q.1 q.2 hq)
  refine ⟨⟨fun i => ?_, fun i j hj => ?_⟩, ?_, fun q => ?_⟩
  · rw [htags]
    exact h.tagged.1 i
  · rw [htags, hqueues i j hj]
    exact h.tagged.2 i j hj
  · rw [hnode, held_congr hsame]
    exact h.ingress
  · rw [hnode, hsame]
    exact h.egress q

/-- A port that keeps its tags and the packets of its data classes. -/
theorem Described.congr_port (h : s.Described)
    (hnext : ∀ i, i ≠ port → next.ports i = s.ports i) (hnode : next.node = s.node)
    (htags : (next.ports port).inDevs = (s.ports port).inDevs)
    (hqueues : ∀ j, j ≠ 7 →
      ((next.ports port).queue.queues (BEgressQueue.classQueue j)).packets =
        ((s.ports port).queue.queues (BEgressQueue.classQueue j)).packets) : next.Described := by
  refine h.congr hnode (fun i => ?_) fun i j hj => ?_
  · by_cases hi : i = port
    · rw [hi, htags]
    · rw [hnext i hi]
  · by_cases hi : i = port
    · rw [hi, hqueues j hj]
    · rw [hnext i hi]

theorem wellSized (p : Packet) : IngressRun.WellSized p.size := by
  have hsize := p.size_le
  have hmax : maxBufferBytes.toNat = 9000000 := rfl
  unfold IngressRun.WellSized
  omega

/-- A control frame goes to FIFO 7, which the counters do not describe. -/
theorem Described.enter_control (h : s.Described) (hcontrol : Nic.sendClass p = 7) :
    (s.enter port inDev p).Described := by
  unfold enter
  rw [if_pos hcontrol]
  refine h.congr_port (fun i (hi : i ≠ port) => Function.update_of_ne hi _ _) rfl ?_ fun j hj => ?_
  · dsimp only
    rw [Function.update_self]
  · dsimp only
    rw [Function.update_self, BEgressQueue.enqueue_queues_of_ne _ _ _ fun heq =>
      hj (BEgressQueue.classQueue_injective heq)]

/-- The FIFOs of the other classes. -/
theorem queues_of_ne_class {queue before : BEgressQueue} {j k : Fin qCnt} {rest : DropTailQueue}
    (hqueues : queue.queues = Function.update before.queues (BEgressQueue.classQueue j) rest)
    (hk : k ≠ j) :
    queue.queues (BEgressQueue.classQueue k) = before.queues (BEgressQueue.classQueue k) := by
  rw [hqueues, Function.update_of_ne fun heq => hk (BEgressQueue.classQueue_injective heq)]

/-- A FIFO and its tags change together, the others stay. -/
theorem Tagged.congr_class (h : s.Tagged) {j : Fin qCnt} (hdata : j ≠ 7) {inDevs : List (Fin pCnt)}
    (htags : (next.ports port).inDevs = Function.update (s.ports port).inDevs j inDevs)
    (hlength : inDevs.length =
      ((next.ports port).queue.queues (BEgressQueue.classQueue j)).packets.length)
    (hother : ∀ k, k ≠ j → (next.ports port).queue.queues (BEgressQueue.classQueue k) =
      (s.ports port).queue.queues (BEgressQueue.classQueue k))
    (hports : ∀ i, i ≠ port → next.ports i = s.ports i) : next.Tagged := by
  refine ⟨fun i => ?_, fun i k hk => ?_⟩
  · by_cases hi : i = port
    · rw [hi, htags, Function.update_of_ne (Ne.symm hdata)]
      exact h.1 port
    · rw [hports i hi]
      exact h.1 i
  · by_cases hi : i = port
    · rw [hi, htags]
      by_cases hkj : k = j
      · rw [hkj, Function.update_self]
        exact hlength
      · rw [Function.update_of_ne hkj, hother k hkj]
        exact h.2 port k hk
    · rw [hports i hi]
      exact h.2 i k hk

/-- A packet that the queue takes is charged and held. -/
theorem Described.enter_taken (h : s.Described) (hdata : Nic.sendClass p ≠ 7)
    (hadmits : s.admits port inDev p = true)
    (htaken : (s.ports port).queue.takes p
      (BEgressQueue.classQueue (Nic.sendClass p)) = true) :
    (s.enter port inDev p).Described := by
  have hpackets := (s.ports port).queue.enqueue_packets_eq p
    (BEgressQueue.classQueue (Nic.sendClass p))
  rw [if_pos htaken] at hpackets
  have hother : ∀ j, j ≠ Nic.sendClass p →
      ((s.ports port).queue.enqueue p (BEgressQueue.classQueue (Nic.sendClass p))).queues
        (BEgressQueue.classQueue j) = (s.ports port).queue.queues (BEgressQueue.classQueue j) :=
    fun j hj => BEgressQueue.enqueue_queues_of_ne _ _ _ fun heq =>
      hj (BEgressQueue.classQueue_injective heq)
  have hlength := h.tagged.2 port (Nic.sendClass p) hdata
  unfold enter
  rw [if_neg hdata, if_pos hadmits]
  generalize hnext : ({ node := s.charged port inDev p
                        ports := Function.update s.ports port
                          ((s.ports port).enqueue p (Nic.sendClass p) inDev) } : Switch) = next
  have hnode : next.node = s.charged port inDev p := by rw [← hnext]
  have hport : next.ports port = (s.ports port).enqueue p (Nic.sendClass p) inDev := by
    rw [← hnext]
    exact Function.update_self _ _ _
  have hports : ∀ i, i ≠ port → next.ports i = s.ports i := by
    intro i hi
    rw [← hnext]
    exact Function.update_of_ne hi _ _
  clear hnext
  have htags : (next.ports port).inDevs = Function.update (s.ports port).inDevs (Nic.sendClass p)
      ((s.ports port).inDevs (Nic.sendClass p) ++ [inDev]) := by
    rw [hport]
    exact if_pos htaken
  have hqueue : (next.ports port).queue =
      (s.ports port).queue.enqueue p (BEgressQueue.classQueue (Nic.sendClass p)) := by
    rw [hport]
    rfl
  -- one FIFO holds one more packet, the others hold what they held
  have hat : next.heldAt (port, Nic.sendClass p) =
      s.heldAt (port, Nic.sendClass p) ++ [⟨(inDev, Nic.sendClass p), p.size⟩] := by
    unfold heldAt
    dsimp only
    rw [htags, hqueue, hpackets, Function.update_self, List.zipWith_append hlength]
    rfl
  have hrest : ∀ q, q ≠ (port, Nic.sendClass p) → next.heldAt q = s.heldAt q := by
    rintro ⟨i, j⟩ hq
    by_cases hi : i = port
    · subst hi
      have hj : j ≠ Nic.sendClass p := fun hj => hq (by rw [hj])
      apply heldAt_congr
      · dsimp only
        rw [htags, Function.update_of_ne hj]
      · dsimp only
        rw [hqueue, hother j hj]
    · exact heldAt_congr (by rw [hports i hi]) (by rw [hports i hi])
  refine ⟨h.tagged.congr_class hdata htags ?_ (fun j hj => by rw [hqueue, hother j hj]) hports, ?_,
    fun q => ?_⟩
  · rw [hqueue, hpackets, List.length_append, List.length_append, hlength]
    rfl
  · have hperm : next.held.Perm (_ :: s.held) :=
      held_perm_cons (by rw [hat]; exact List.perm_append_singleton _ _) hrest
    have hsound := IngressRun.sound_arrive h.ingress (wellSized p) hadmits
    rw [hnode]
    exact sound_perm (hsound.congr
      (BroadcomNode.updateEgressAdmission_frame _ _ _).2) hperm.symm
  · rw [hnode, charged, BroadcomNode.updateEgressAdmission_egressBytes]
    split
    next hq =>
      rw [hq, hat, List.map_append, List.sum_append, List.map_singleton, List.sum_singleton,
        BroadcomNode.updateIngressAdmission_egressBytes, h.egress]
    next hq =>
      rw [hrest q hq, BroadcomNode.updateIngressAdmission_egressBytes, h.egress]

/-- A packet that is charged and refused is not in the queues. -/
theorem admit_refused_heldAt (hdata : Nic.sendClass p ≠ 7) (hadmits : s.admits port inDev p = true)
    (hrefused : (s.ports port).queue.takes p
      (BEgressQueue.classQueue (Nic.sendClass p)) ≠ true) (i : Fin pCnt) (j : Fin qCnt) :
    ((s.enter port inDev p).ports i).inDevs j = (s.ports i).inDevs j ∧
      (((s.enter port inDev p).ports i).queue.queues (BEgressQueue.classQueue j)).packets =
        ((s.ports i).queue.queues (BEgressQueue.classQueue j)).packets := by
  have hpackets := (s.ports port).queue.enqueue_packets_eq p
    (BEgressQueue.classQueue (Nic.sendClass p))
  rw [if_neg hrefused] at hpackets
  unfold enter
  rw [if_neg hdata, if_pos hadmits]
  dsimp only
  by_cases hi : i = port
  · subst hi
    rw [Function.update_self]
    refine ⟨congrFun (if_neg hrefused) j, ?_⟩
    change (((s.ports i).queue.enqueue p _).queues _).packets = _
    by_cases hj : j = Nic.sendClass p
    · rw [hj, hpackets]
    · rw [BEgressQueue.enqueue_queues_of_ne _ _ _ fun heq =>
        hj (BEgressQueue.classQueue_injective heq)]
  · rw [Function.update_of_ne hi]
    exact ⟨rfl, rfl⟩

/-! ## Transmitting -/

theorem classOf_classQueue (j : Fin qCnt) : classOf (BEgressQueue.classQueue j) = j := by
  apply Fin.ext
  exact Nat.mod_eq_of_lt j.isLt

section Pop

variable {j : Fin qCnt} {inDevs : List (Fin pCnt)} {rest : List Packet}

/-- A data packet leaves a FIFO together with its tag. -/
theorem heldAt_pop (htag : (s.ports port).inDevs j = inDev :: inDevs)
    (hhead : ((s.ports port).queue.queues (BEgressQueue.classQueue j)).packets = p :: rest)
    (htags : (next.ports port).inDevs = Function.update (s.ports port).inDevs j inDevs)
    (hrest : ((next.ports port).queue.queues (BEgressQueue.classQueue j)).packets = rest) :
    s.heldAt (port, j) = ⟨(inDev, j), p.size⟩ :: next.heldAt (port, j) := by
  unfold heldAt
  dsimp only
  rw [htags, htag, hhead, hrest, Function.update_self]
  rfl

theorem heldAt_pop_of_ne
    (htags : (next.ports port).inDevs = Function.update (s.ports port).inDevs j inDevs)
    (hother : ∀ k, k ≠ j → (next.ports port).queue.queues (BEgressQueue.classQueue k) =
      (s.ports port).queue.queues (BEgressQueue.classQueue k))
    (hports : ∀ i, i ≠ port → next.ports i = s.ports i) {q : QueueId} (hq : q ≠ (port, j)) :
    s.heldAt q = next.heldAt q := by
  obtain ⟨i, k⟩ := q
  by_cases hi : i = port
  · subst hi
    have hk : k ≠ j := fun hk => hq (by rw [hk])
    apply heldAt_congr
    · dsimp only
      rw [htags, Function.update_of_ne hk]
    · dsimp only
      rw [hother k hk]
  · exact heldAt_congr (by rw [hports i hi]) (by rw [hports i hi])

end Pop

/-- A data packet is discharged for the port of its tag when it leaves its FIFO. -/
theorem Described.discharge (h : s.Described) {j : Fin qCnt} (hdata : j ≠ 7)
    {inDevs : List (Fin pCnt)} (htag : (s.ports port).inDevs j = inDev :: inDevs)
    {rest : DropTailQueue} {queue : BEgressQueue}
    (hhead : ((s.ports port).queue.queues (BEgressQueue.classQueue j)).packets = p :: rest.packets)
    (hqueues : queue.queues =
      Function.update (s.ports port).queue.queues (BEgressQueue.classQueue j) rest)
    (busy : Bool) :
    Described
      { node := (s.node.removeFromIngressAdmission (inDev, j) p.size
          ).removeFromEgressAdmission (port, j) p.size
        ports := Function.update s.ports port
          { queue := queue
            inDevs := Function.update (s.ports port).inDevs j inDevs
            busy := busy } } := by
  generalize hnext : ({ node := (s.node.removeFromIngressAdmission (inDev, j) p.size
                          ).removeFromEgressAdmission (port, j) p.size
                        ports := Function.update s.ports port
                          { queue := queue
                            inDevs := Function.update (s.ports port).inDevs j inDevs
                            busy := busy } } : Switch) = next
  have hnode : next.node = (s.node.removeFromIngressAdmission (inDev, j) p.size
      ).removeFromEgressAdmission (port, j) p.size := by rw [← hnext]
  have htags : (next.ports port).inDevs = Function.update (s.ports port).inDevs j inDevs := by
    rw [← hnext]
    dsimp only
    rw [Function.update_self]
  have hqueue : (next.ports port).queue = queue := by
    rw [← hnext]
    dsimp only
    rw [Function.update_self]
  have hports : ∀ i, i ≠ port → next.ports i = s.ports i := by
    intro i hi
    rw [← hnext]
    exact Function.update_of_ne hi _ _
  clear hnext
  have hself : queue.queues (BEgressQueue.classQueue j) = rest := by
    rw [hqueues, Function.update_self]
  have hother : ∀ i, i ≠ j → queue.queues (BEgressQueue.classQueue i) =
      (s.ports port).queue.queues (BEgressQueue.classQueue i) :=
    fun i hi => queues_of_ne_class hqueues hi
  have hat : s.heldAt (port, j) = ⟨(inDev, j), p.size⟩ :: next.heldAt (port, j) :=
    heldAt_pop htag hhead htags (by rw [hqueue, hself])
  have hrest : ∀ q, q ≠ (port, j) → s.heldAt q = next.heldAt q := fun _ hq =>
    heldAt_pop_of_ne htags (fun i hi => by rw [hqueue, hother i hi]) hports hq
  have hperm := held_perm_cons (List.Perm.of_eq hat) hrest
  refine ⟨h.tagged.congr_class hdata htags ?_ (fun i hi => by rw [hqueue, hother i hi]) hports, ?_,
    fun q => ?_⟩
  · have hlength := h.tagged.2 port j hdata
    rw [htag, hhead, List.length_cons, List.length_cons] at hlength
    rw [hqueue, hself]
    exact Nat.succ.inj hlength
  · obtain ⟨hmem, hrestPerm⟩ := List.cons_perm_iff_perm_erase.mp hperm.symm
    have hsound := IngressRun.sound_remove h.ingress hmem
    rw [hnode]
    exact sound_perm (hsound.congr
      (BroadcomNode.removeFromEgressAdmission_frame _ _ _).2) hrestPerm.symm
  · rw [hnode, BroadcomNode.removeFromEgressAdmission_egressBytes]
    split
    next hq =>
      rw [BroadcomNode.removeFromIngressAdmission_egressBytes, h.egress, hq, hat, List.map_cons,
        List.sum_cons, add_sub_cancel_left]
    next hq =>
      rw [BroadcomNode.removeFromIngressAdmission_egressBytes, h.egress, hrest q hq]

/-- `DequeueAndTransmit` does nothing, sends a control frame, or sends a data packet and discharges
it for the port of its tag. -/
theorem dequeueAndTransmit_cases {r : Surroundings} {result : Switch × Option Packet}
    (hresult : s.dequeueAndTransmit port r = some result) :
    result.1 = s ∨ ∃ j p rest queue,
      ((s.ports port).queue.queues (BEgressQueue.classQueue j)).packets =
        p :: DropTailQueue.packets rest ∧
      BEgressQueue.queues queue =
        Function.update (s.ports port).queue.queues (BEgressQueue.classQueue j) rest ∧
      (j = 7 ∧ result.1 =
          { s with
            ports := Function.update s.ports port
              { s.ports port with queue := queue, busy := true } } ∨
        j ≠ 7 ∧ ∃ inDev inDevs, (s.ports port).inDevs j = inDev :: inDevs ∧ result.1 =
          { node := (s.node.removeFromIngressAdmission (inDev, j) (Packet.size p)
              ).removeFromEgressAdmission (port, j) (Packet.size p)
            ports := Function.update s.ports port
              { queue := queue
                inDevs := Function.update (s.ports port).inDevs j inDevs
                busy := true } }) := by
  unfold Switch.dequeueAndTransmit at hresult
  dsimp only at hresult
  split at hresult
  · exact Or.inl (by rw [← Option.some.inj hresult])
  · split at hresult
    · exact Or.inl (by rw [← Option.some.inj hresult])
    next p queue hdequeue =>
      obtain ⟨j, rest, hhead, hqueues, hlast⟩ := BEgressQueue.dequeueRR_eq_some hdequeue
      rw [hlast, classOf_classQueue] at hresult
      refine Or.inr ⟨j, p, rest, queue, hhead, hqueues, ?_⟩
      split at hresult
      next hcontrol => exact Or.inl ⟨hcontrol, by rw [← Option.some.inj hresult]⟩
      next hdata =>
        split at hresult
        · cases hresult
        next inDev inDevs htag =>
          exact Or.inr ⟨hdata, inDev, inDevs, htag, by rw [← Option.some.inj hresult]⟩

/-- `DequeueAndTransmit` keeps the counters right. -/
theorem Described.dequeueAndTransmit (h : s.Described) {r : Surroundings}
    {result : Switch × Option Packet} (hresult : s.dequeueAndTransmit port r = some result) :
    result.1.Described := by
  rcases dequeueAndTransmit_cases hresult with
    hsame | ⟨j, p, rest, queue, hhead, hqueues, ⟨rfl, hsent⟩ | ⟨hdata, inDev, inDevs, htag, hsent⟩⟩
  · rw [hsame]
    exact h
  · -- a control frame was not charged
    rw [hsent]
    refine h.congr_port (fun i (hi : i ≠ port) => Function.update_of_ne hi _ _) rfl ?_
      fun k hk => ?_
    · dsimp only
      rw [Function.update_self]
    · dsimp only
      rw [Function.update_self]
      dsimp only
      rw [queues_of_ne_class hqueues hk]
  · rw [hsent]
    exact h.discharge hdata htag hhead hqueues true

/-! ## Leaked bytes -/

/-- The bytes on the total counter that no packet in the queues has. -/
def leaked (s : Switch) : UInt32 :=
  s.node.usedTotalBytes - (s.held.map Buffered.psize).sum

theorem bytesBy_total (buffered : List Buffered) :
    UInt32.ofNat (bytesBy (fun _ => ()) buffered ()) = (buffered.map Buffered.psize).sum := by
  induction buffered with
  | nil => rfl
  | cons packet rest ih =>
      rw [bytesBy, Tally.items_cons, if_pos rfl, UInt32.ofNat_add, UInt32.ofNat_toNat,
        List.map_cons, List.sum_cons, ← ih]
      rfl

theorem Described.leaked (h : s.Described) : s.leaked = 0 := by
  have htotal := h.ingress.total
  dsimp only at htotal
  rw [Switch.leaked, ← bytesBy_total, ← htotal, UInt32.ofNat_toNat, sub_self]

theorem admit_refused_leaked (hdata : Nic.sendClass p ≠ 7)
    (hadmits : s.admits port inDev p = true)
    (hrefused : (s.ports port).queue.takes p
      (BEgressQueue.classQueue (Nic.sendClass p)) ≠ true) :
    (s.enter port inDev p).leaked = s.leaked + p.size := by
  have hheld : (s.enter port inDev p).held = s.held := held_congr fun q =>
    have hat := admit_refused_heldAt hdata hadmits hrefused q.1 q.2
    heldAt_congr hat.1 hat.2
  have hnode : (s.enter port inDev p).node = s.charged port inDev p := by
    unfold enter
    rw [if_neg hdata, if_pos hadmits]
  have hcharged : (s.charged port inDev p).usedTotalBytes = s.node.usedTotalBytes + p.size :=
    congrArg IngressCounters.usedTotalBytes (BroadcomNode.updateEgressAdmission_frame _ _ _).2
  rw [leaked, leaked, hheld, hnode, hcharged]
  abel

/-- Each packet that is transmitted is discharged with its own size. -/
theorem dequeueAndTransmit_leaked (h : s.Tagged) {r : Surroundings}
    {result : Switch × Option Packet} (hresult : s.dequeueAndTransmit port r = some result) :
    result.1.leaked = s.leaked := by
  rcases dequeueAndTransmit_cases hresult with
    hsame | ⟨j, p, rest, queue, hhead, hqueues, ⟨rfl, hsent⟩ | ⟨hdata, inDev, inDevs, htag, hsent⟩⟩
  · rw [hsame]
  · rw [hsent, leaked, leaked, held_congr]
    rintro ⟨i, k⟩
    by_cases hi : i = port
    · subst hi
      by_cases hk : k = 7
      · unfold heldAt
        dsimp only
        rw [Function.update_self, hk, h.1, List.zipWith_nil_left, List.zipWith_nil_left]
      · apply heldAt_congr
        · dsimp only
          rw [Function.update_self]
        · dsimp only
          rw [Function.update_self, queues_of_ne_class hqueues hk]
    · apply heldAt_congr
      · dsimp only
        rw [Function.update_of_ne hi]
      · dsimp only
        rw [Function.update_of_ne hi]
  · generalize result.1 = next at hsent
    have hnode : next.node.usedTotalBytes = s.node.usedTotalBytes - p.size := by
      rw [hsent]
      exact congrArg IngressCounters.usedTotalBytes
        (BroadcomNode.removeFromEgressAdmission_frame _ _ _).2
    have hport : next.ports port =
        { queue := queue
          inDevs := Function.update (s.ports port).inDevs j inDevs
          busy := true } := by
      rw [hsent]
      exact Function.update_self _ _ _
    have hports : ∀ i, i ≠ port → next.ports i = s.ports i := by
      intro i hi
      rw [hsent]
      exact Function.update_of_ne hi _ _
    have hat : s.heldAt (port, j) = _ :: next.heldAt (port, j) :=
      heldAt_pop htag hhead (by rw [hport]) (by rw [hport, hqueues, Function.update_self])
    have hperm := held_perm_cons (List.Perm.of_eq hat) fun q hq =>
      heldAt_pop_of_ne (by rw [hport])
        (fun k hk => by rw [hport, queues_of_ne_class hqueues hk]) hports hq
    rw [leaked, leaked, hnode, (hperm.map Buffered.psize).sum_eq, List.map_cons, List.sum_cons]
    abel

/-! ## Runs -/

/-- The condition for the packets of an event. -/
def Taken (s : Switch) : Event → Prop
  | .send port inDev p _ => Nic.sendClass p ≠ 7 → s.AdmittedTaken port inDev p
  | _ => True

theorem start_described (t : Thresholds) (maxBytes : ℚ) : (start t maxBytes).Described := by
  have hempty : (start t maxBytes).held = [] := List.flatMap_eq_nil_iff.mpr fun _ _ => rfl
  refine ⟨⟨fun _ => rfl, fun _ _ _ => rfl⟩, ?_, fun _ => rfl⟩
  rw [hempty]
  exact IngressRun.sound_start t

/-- A description survives a `Send` exactly if the queue takes the packet that it charges. -/
theorem Described.send_iff (h : s.Described) {r : Surroundings} {result : Switch × Option Packet}
    (hresult : (s.enter port inDev p).dequeueAndTransmit port r = some result) :
    result.1.Described ↔ (Nic.sendClass p ≠ 7 → s.AdmittedTaken port inDev p) := by
  by_cases hcontrol : Nic.sendClass p = 7
  · exact iff_of_true ((h.enter_control hcontrol).dequeueAndTransmit hresult)
      fun hdata => absurd hcontrol hdata
  · rw [imp_iff_right hcontrol]
    by_cases hadmits : s.admits port inDev p = true
    · rw [AdmittedTaken, imp_iff_right hadmits]
      constructor
      · intro hnext
        by_contra hrefused
        have hat := admit_refused_heldAt hcontrol hadmits hrefused
        have htagged : (s.enter port inDev p).Tagged := by
          refine ⟨fun i => ?_, fun i j hj => ?_⟩
          · rw [(hat i 7).1, h.tagged.1]
          · rw [(hat i j).1, (hat i j).2, h.tagged.2 i j hj]
        -- the bytes that were charged are on the total counter for good
        have hleaked := dequeueAndTransmit_leaked htagged hresult
        rw [hnext.leaked, admit_refused_leaked hcontrol hadmits hrefused, h.leaked,
          zero_add] at hleaked
        have hpos := p.size_pos
        rw [← hleaked] at hpos
        exact Nat.lt_irrefl 0 hpos
      · intro htaken
        exact (h.enter_taken hcontrol hadmits htaken).dequeueAndTransmit hresult
    · refine iff_of_true ?_ fun haccepted => absurd haccepted hadmits
      unfold enter at hresult
      rw [if_neg hcontrol, if_neg hadmits] at hresult
      exact h.dequeueAndTransmit hresult

/-- Stopping the transmission of a packet changes nothing that the description reads. -/
theorem Described.transmitComplete (h : s.Described) :
    Described { s with
      ports := Function.update s.ports port { s.ports port with busy := false } } := by
  refine h.congr_port (fun i (hi : i ≠ port) => Function.update_of_ne hi _ _) rfl ?_ fun j _ => ?_
  · dsimp only
    rw [Function.update_self]
  · dsimp only
    rw [Function.update_self]

theorem Described.step_iff (h : s.Described) {event : Event} (hstep : s.step event = some next) :
    next.Described ↔ s.Taken event := by
  cases event with
  | send port inDev p r =>
      obtain ⟨result, hresult, rfl⟩ := Option.map_eq_some_iff.mp hstep
      exact h.send_iff hresult
  | transmitComplete port r =>
      obtain ⟨result, hresult, rfl⟩ := Option.map_eq_some_iff.mp hstep
      exact iff_of_true (h.transmitComplete.dequeueAndTransmit hresult) trivial
  | resume port r =>
      obtain ⟨result, hresult, rfl⟩ := Option.map_eq_some_iff.mp hstep
      exact iff_of_true (h.dequeueAndTransmit hresult) trivial

/-- In every state, `Send` of a data packet is atomic exactly if the egress queue takes the packet
that both checks accept, and in every run the counters describe the packets in the queues exactly
if this is so at each `Send`. -/
theorem admission_atomic_iff (s : Switch) (port inDev : Fin pCnt) (p : Packet) (t : Thresholds)
    (maxBytes : ℚ) (events : List Event) :
    (Nic.sendClass p ≠ 7 → (s.SendAtomic port inDev p ↔ s.AdmittedTaken port inDev p)) ∧
      (Throughout step Described (start t maxBytes) events ↔
        EachStep step (fun s event _ => s.Taken event) (start t maxBytes) events) := by
  refine ⟨fun hdata => sendAtomic_iff hdata, ?_⟩
  rw [throughout_iff_eachStep, and_iff_right (start_described t maxBytes)]
  refine eachStep_iff_of_invariant ?_ ?_ (start_described t maxBytes) events
  · intro s event next h hstep
    exact h.step_iff hstep
  · intro s event next h hstep htaken
    exact (h.step_iff hstep).mpr htaken

/-- The checks of a new switch accept a packet that its egress queue, limited to 500 bytes,
refuses. -/
theorem refused_charged : ¬ (start .default 500).SendAtomic 0 1 (.sample 0) := by
  rw [sendAtomic_iff (by decide)]
  intro htaken
  exact absurd (htaken (by decide +kernel)) (by decide +kernel)

end Switch

end Ns3Rdma
