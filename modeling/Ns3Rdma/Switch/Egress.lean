import Ns3Rdma.Lib.StepSystem
import Ns3Rdma.Lib.Tally
import Ns3Rdma.Lib.Word
import Ns3Rdma.Switch.BroadcomNode

/-!
# Egress accounting of the shared-buffer switch

A run charges every packet when it enters the FIFO of its queue and discharges it
when it leaves. The guaranteed and shared bytes of a queue add up to the bytes in its
FIFO, and the port and pool counters add up the shared bytes, as long as every
departing packet fits into the one counter it is discharged from.
-/

namespace Ns3Rdma

open StepSystem

/-- The egress counters account for the bytes held by each queue. -/
structure BroadcomNode.EgressBalanced (b : BroadcomNode) (held : QueueId → ℕ) : Prop where
  queue : ∀ q, (b.usedEgressQMinBytes q).toNat + (b.usedEgressQSharedBytes q).toNat = held q
  port : ∀ p, (b.usedEgressPortBytes p).toNat =
    Tally.cells Prod.fst (fun q => (b.usedEgressQSharedBytes q).toNat) p
  pool : ∀ sp, (b.usedEgressSPBytes sp).toNat =
    Tally.cells BroadcomNode.getEgressSP (fun q => (b.usedEgressQSharedBytes q).toNat) sp

namespace BroadcomNode

theorem start_egressBalanced (t : Thresholds) : (start t).EgressBalanced fun _ => 0 where
  queue := fun _ => rfl
  port := fun p => by simp [start]
  pool := fun sp => by simp [start]

/-- An aggregate follows a changed cell when it is moved by the same amount. -/
theorem aggregate_update {κ : Type} [DecidableEq κ] {key : QueueId → κ} {total : κ → UInt32}
    {cell : QueueId → UInt32}
    (h : ∀ k, (total k).toNat = Tally.cells key (fun q => (cell q).toNat) k)
    {q : QueueId} {x y : UInt32}
    (hy : y.toNat + (cell q).toNat = (total (key q)).toNat + x.toNat) (k : κ) :
    (Function.update total (key q) y k).toNat =
      Tally.cells key (fun i => (Function.update cell q x i).toNat) k := by
  have hcells := Tally.cells_update key (fun i => (cell i).toNat) q x.toNat k
  have hfun : (fun i => (Function.update cell q x i).toNat) =
      Function.update (fun i => (cell i).toNat) q x.toNat := by
    funext i
    exact Function.apply_update (fun _ => UInt32.toNat) cell q x i
  rw [hfun]
  by_cases hk : k = key q
  · subst hk
    rw [if_pos rfl, if_pos rfl, ← h] at hcells
    rw [Function.update_self]
    omega
  · rw [if_neg (Ne.symm hk), if_neg (Ne.symm hk)] at hcells
    rw [Function.update_of_ne hk, h]
    omega

theorem queue_update {min shared : QueueId → UInt32} {held : QueueId → ℕ} {q : QueueId}
    (h : ∀ i, i ≠ q → (min i).toNat + (shared i).toNat = held i) {x : ℕ}
    (hq : (min q).toNat + (shared q).toNat = x) (i : QueueId) :
    (min i).toNat + (shared i).toNat = Function.update held q x i := by
  by_cases hi : i = q
  · subst hi
    rw [Function.update_self, hq]
  · rw [Function.update_of_ne hi, h i hi]

namespace EgressBalanced

variable {b : BroadcomNode} {held : QueueId → ℕ}

theorem shared_le_port (h : b.EgressBalanced held) (q : QueueId) :
    (b.usedEgressQSharedBytes q).toNat ≤ (b.usedEgressPortBytes q.1).toNat := by
  rw [h.port]
  exact Tally.le_cells (w := fun q => (b.usedEgressQSharedBytes q).toNat) rfl

theorem shared_le_pool (h : b.EgressBalanced held) (q : QueueId) :
    (b.usedEgressQSharedBytes q).toNat ≤ (b.usedEgressSPBytes (getEgressSP q)).toNat := by
  rw [h.pool]
  exact Tally.le_cells (w := fun q => (b.usedEgressQSharedBytes q).toNat) rfl

theorem shared_total_le (h : b.EgressBalanced held) :
    ∑ q, (b.usedEgressQSharedBytes q).toNat ≤ ∑ q, held q :=
  Finset.sum_le_sum fun q _ => by have := h.queue q; omega

theorem port_le_total (h : b.EgressBalanced held) (p : Fin pCnt) :
    (b.usedEgressPortBytes p).toNat ≤ ∑ q, held q :=
  (h.port p).trans_le (Tally.cells_le_total.trans h.shared_total_le)

theorem pool_le_total (h : b.EgressBalanced held) (sp : Fin 4) :
    (b.usedEgressSPBytes sp).toNat ≤ ∑ q, held q :=
  (h.pool sp).trans_le (Tally.cells_le_total.trans h.shared_total_le)

theorem chargeMin (h : b.EgressBalanced held) {q : QueueId} {psize : UInt32}
    (hfits : ∑ i, held i + psize.toNat < 2 ^ 32) :
    (b.chargeMin q psize).EgressBalanced (Function.update held q (held q + psize.toNat)) where
  queue := by
    have hq := h.queue q
    have hle := Tally.le_total held q
    refine queue_update (fun i hi => ?_) ?_
    · simp only [BroadcomNode.chargeMin, Function.update_of_ne hi]
      exact h.queue i
    · simp only [BroadcomNode.chargeMin, Function.update_self]
      rw [UInt32.toNat_add_of_lt (by omega)]
      omega
  port := h.port
  pool := h.pool

theorem chargeShared (h : b.EgressBalanced held) {q : QueueId} {psize : UInt32}
    (hfits : ∑ i, held i + psize.toNat < 2 ^ 32) :
    (b.chargeShared q psize).EgressBalanced
      (Function.update held q (held q + psize.toNat)) := by
  have hq := h.queue q
  have hle := Tally.le_total held q
  have hport := h.port_le_total q.1
  have hpool := h.pool_le_total (getEgressSP q)
  have hshared := UInt32.toNat_add_of_lt (a := b.usedEgressQSharedBytes q) (b := psize) (by omega)
  refine ⟨?_, aggregate_update h.port ?_, aggregate_update h.pool ?_⟩
  · refine queue_update (fun i hi => ?_) ?_
    · simp only [BroadcomNode.chargeShared, Function.update_of_ne hi]
      exact h.queue i
    · simp only [BroadcomNode.chargeShared, Function.update_self]
      omega
  · rw [UInt32.toNat_add_of_lt (by omega)]
    omega
  · rw [UInt32.toNat_add_of_lt (by omega)]
    omega

theorem dischargeMin (h : b.EgressBalanced held) {q : QueueId} {psize : UInt32}
    (hcover : psize.toNat ≤ (b.usedEgressQMinBytes q).toNat) :
    (b.dischargeMin q psize).EgressBalanced (Function.update held q (held q - psize.toNat)) where
  queue := by
    have hq := h.queue q
    refine queue_update (fun i hi => ?_) ?_
    · simp only [BroadcomNode.dischargeMin, Function.update_of_ne hi]
      exact h.queue i
    · simp only [BroadcomNode.dischargeMin, Function.update_self]
      rw [UInt32.toNat_sub_of_toNat_le hcover]
      omega
  port := h.port
  pool := h.pool

theorem dischargeShared (h : b.EgressBalanced held) {q : QueueId} {psize : UInt32}
    (hcover : psize.toNat ≤ (b.usedEgressQSharedBytes q).toNat) :
    (b.dischargeShared q psize).EgressBalanced
      (Function.update held q (held q - psize.toNat)) := by
  have hq := h.queue q
  have hport := h.shared_le_port q
  have hpool := h.shared_le_pool q
  have hshared := UInt32.toNat_sub_of_toNat_le hcover
  refine ⟨?_, aggregate_update h.port ?_, aggregate_update h.pool ?_⟩
  · refine queue_update (fun i hi => ?_) ?_
    · simp only [BroadcomNode.dischargeShared, Function.update_of_ne hi]
      exact h.queue i
    · simp only [BroadcomNode.dischargeShared, Function.update_self]
      omega
  · rw [UInt32.toNat_sub_of_toNat_le (by omega)]
    omega
  · rw [getIngressSP_eq_getEgressSP, UInt32.toNat_sub_of_toNat_le (by omega)]
    omega

/-- Moving bytes from the shared to the guaranteed part changes no balance. -/
theorem rebalance (h : b.EgressBalanced held) (q : QueueId) :
    (b.rebalance q).EgressBalanced held := by
  unfold BroadcomNode.rebalance
  dsimp only
  split
  next hpatch =>
    obtain ⟨hmin, hshared⟩ := hpatch
    rw [UInt32.lt_iff_toNat_lt] at hmin
    rw [gt_iff_lt, UInt32.lt_iff_toNat_lt] at hshared
    have hlit : (1030 : UInt32).toNat = 1030 := rfl
    have hport := h.shared_le_port q
    have hpool := h.shared_le_pool q
    -- the subtraction is exact, and less than 1030 bytes are added back afterwards
    have hexact : ∀ total : UInt32, 1030 < total.toNat →
        (total - 1030 + b.usedEgressQMinBytes q).toNat =
          total.toNat - 1030 + (b.usedEgressQMinBytes q).toNat := by
      intro total htotal
      have hsub := UInt32.toNat_sub_of_toNat_le (a := total) (b := 1030) (by omega)
      have hlt := total.toNat_lt
      rw [UInt32.toNat_add_of_lt (by omega), hsub, hlit]
    have hqueue := hexact (b.usedEgressQSharedBytes q) (by omega)
    refine ⟨?_, aggregate_update h.port ?_, aggregate_update h.pool ?_⟩
    · intro i
      by_cases hi : i = q
      · subst hi
        have := h.queue i
        simp only [Function.update_self]
        omega
      · simp only [Function.update_of_ne hi]
        exact h.queue i
    · rw [hexact _ (by omega)]
      omega
    · rw [hexact _ (by omega)]
      omega
  next => exact h

end EgressBalanced

/-- The refill subtracts 1030 from three counters, each of which has that much. -/
def RebalanceCovered (b : BroadcomNode) (q : QueueId) : Prop :=
  b.usedEgressQMinBytes q < 1030 ∧ b.usedEgressQSharedBytes q > 1030 →
    1030 ≤ b.usedEgressQSharedBytes q ∧ 1030 ≤ b.usedEgressPortBytes q.1 ∧
      1030 ≤ b.usedEgressSPBytes (getEgressSP q)

/-- No subtraction of `updateEgressAdmission` goes below zero. -/
def UpdateEgressCovered (b : BroadcomNode) (q : QueueId) (psize : UInt32) : Prop :=
  if b.usedEgressQMinBytes q + psize < b.qMinCell then True
  else (b.chargeShared q psize).RebalanceCovered q

/-- No subtraction of `removeFromEgressAdmission` goes below zero. -/
def RemoveEgressCovered (b : BroadcomNode) (q : QueueId) (psize : UInt32) : Prop :=
  if b.usedEgressQSharedBytes q ≥ psize then
    psize ≤ b.usedEgressPortBytes q.1 ∧ psize ≤ b.usedEgressSPBytes (getIngressSP q)
  else
    psize ≤ b.usedEgressQMinBytes q ∧ (b.dischargeMin q psize).RebalanceCovered q

theorem EgressBalanced.rebalanceCovered {b : BroadcomNode} {held : QueueId → ℕ}
    (h : b.EgressBalanced held) (q : QueueId) : b.RebalanceCovered q := by
  rintro ⟨-, hshared⟩
  have hlit : (1030 : UInt32).toNat = 1030 := rfl
  rw [gt_iff_lt, UInt32.lt_iff_toNat_lt] at hshared
  have hport := h.shared_le_port q
  have hpool := h.shared_le_pool q
  simp only [UInt32.le_iff_toNat_le]
  omega

section Update

variable {b : BroadcomNode} {held : QueueId → ℕ} {q : QueueId} {psize : UInt32}

theorem EgressBalanced.updateEgressAdmission (h : b.EgressBalanced held)
    (hfits : ∑ i, held i + psize.toNat < 2 ^ 32) :
    (b.updateEgressAdmission q psize).EgressBalanced
      (Function.update held q (held q + psize.toNat)) := by
  unfold BroadcomNode.updateEgressAdmission
  split
  · exact h.chargeMin hfits
  · exact (h.chargeShared hfits).rebalance q

theorem EgressBalanced.updateEgressCovered (h : b.EgressBalanced held)
    (hfits : ∑ i, held i + psize.toNat < 2 ^ 32) : b.UpdateEgressCovered q psize := by
  unfold UpdateEgressCovered
  split
  · trivial
  · exact (h.chargeShared hfits).rebalanceCovered q

/-- A departure that fits into one of the two counters of its queue is accounted exactly. -/
theorem EgressBalanced.removeFromEgressAdmission (h : b.EgressBalanced held)
    (hcover : psize ≤ b.usedEgressQSharedBytes q ∨ psize ≤ b.usedEgressQMinBytes q) :
    (b.removeFromEgressAdmission q psize).EgressBalanced
      (Function.update held q (held q - psize.toNat)) := by
  unfold BroadcomNode.removeFromEgressAdmission
  split
  next hshared => exact h.dischargeShared (UInt32.le_iff_toNat_le.mp hshared)
  next hshared =>
    exact (h.dischargeMin (UInt32.le_iff_toNat_le.mp (hcover.resolve_left hshared))).rebalance q

/-- Departures subtract within range exactly when the packet fits into one counter. -/
theorem EgressBalanced.removeEgressCovered_iff (h : b.EgressBalanced held) :
    b.RemoveEgressCovered q psize ↔
      psize ≤ b.usedEgressQSharedBytes q ∨ psize ≤ b.usedEgressQMinBytes q := by
  unfold RemoveEgressCovered
  split
  next hshared =>
    refine iff_of_true ?_ (Or.inl hshared)
    have hport := h.shared_le_port q
    have hpool := h.shared_le_pool q
    rw [ge_iff_le, UInt32.le_iff_toNat_le] at hshared
    rw [getIngressSP_eq_getEgressSP, UInt32.le_iff_toNat_le, UInt32.le_iff_toNat_le]
    omega
  next hshared =>
    constructor
    · exact fun hcovered => Or.inr hcovered.1
    · intro hcover
      have hmin := hcover.resolve_left hshared
      exact ⟨hmin, (h.dischargeMin (UInt32.le_iff_toNat_le.mp hmin)).rebalanceCovered q⟩

end Update

end BroadcomNode

/-- A switch together with the sizes of the packets waiting in each egress FIFO. -/
structure EgressRun where
  node : BroadcomNode
  fifo : QueueId → List UInt32

/-- A packet of the given size enters a FIFO, or the oldest packet of a FIFO leaves. -/
inductive EgressEvent where
  | update (q : QueueId) (psize : UInt32)
  | remove (q : QueueId)

namespace EgressRun

/-- Bytes waiting in one FIFO. -/
def bytes (s : EgressRun) (q : QueueId) : ℕ :=
  ((s.fifo q).map UInt32.toNat).sum

/-- Bytes waiting in all FIFOs of the switch. -/
def totalBytes (s : EgressRun) : ℕ :=
  ∑ q, s.bytes q

def start (t : Thresholds) : EgressRun where
  node := BroadcomNode.start t
  fifo := fun _ => []

/-- An empty FIFO has no packet to dequeue, and then nothing is discharged. -/
def step (s : EgressRun) : EgressEvent → Option EgressRun
  | .update q psize => some
      { node := s.node.updateEgressAdmission q psize
        fifo := Function.update s.fifo q (s.fifo q ++ [psize]) }
  | .remove q =>
      match s.fifo q with
      | [] => some s
      | psize :: rest => some
          { node := s.node.removeFromEgressAdmission q psize
            fifo := Function.update s.fifo q rest }

/-- No counter is decremented below zero by the event. -/
def Covered (s : EgressRun) : EgressEvent → Prop
  | .update q psize => s.node.UpdateEgressCovered q psize
  | .remove q => ∀ psize ∈ (s.fifo q).head?, s.node.RemoveEgressCovered q psize

/-- The two counters of every queue add up to the bytes in its FIFO. -/
def Conserved (s : EgressRun) : Prop :=
  ∀ q, (s.node.usedEgressQMinBytes q).toNat + (s.node.usedEgressQSharedBytes q).toNat = s.bytes q

/-- An entering packet keeps the bytes buffered in the whole switch in range. -/
def Fits (s : EgressRun) : EgressEvent → Prop
  | .update _ psize => s.totalBytes + psize.toNat < 2 ^ 32
  | .remove _ => True

/-- A departing packet fits into the shared or into the guaranteed bytes of its queue. -/
def FitsOneCounter (s : EgressRun) : EgressEvent → Prop
  | .update _ _ => True
  | .remove q => ∀ psize ∈ (s.fifo q).head?,
      psize ≤ s.node.usedEgressQSharedBytes q ∨ psize ≤ s.node.usedEgressQMinBytes q

theorem start_balanced (t : Thresholds) : (start t).node.EgressBalanced (start t).bytes :=
  BroadcomNode.start_egressBalanced t

theorem bytes_update (s : EgressRun) (node : BroadcomNode) (q : QueueId) (packets : List UInt32) :
    EgressRun.bytes { node := node, fifo := Function.update s.fifo q packets } =
      Function.update s.bytes q (packets.map UInt32.toNat).sum := by
  funext i
  exact Function.apply_update (fun _ l => (l.map UInt32.toNat).sum) s.fifo q packets i

/-- One event: with room for the packet, the counters follow the FIFO exactly when a
departing packet fits into one counter. -/
theorem step_balanced {s next : EgressRun} {event : EgressEvent}
    (h : s.node.EgressBalanced s.bytes) (hstep : step s event = some next)
    (hfits : s.Fits event) (hone : s.FitsOneCounter event) :
    next.node.EgressBalanced next.bytes := by
  cases event with
  | update q psize =>
      obtain rfl := Option.some.inj hstep
      rw [bytes_update]
      have hsum : ((s.fifo q ++ [psize]).map UInt32.toNat).sum = s.bytes q + psize.toNat := by
        simp [bytes]
      rw [hsum]
      exact h.updateEgressAdmission hfits
  | remove q =>
      simp only [step] at hstep
      cases hfifo : s.fifo q with
      | nil =>
          rw [hfifo] at hstep
          obtain rfl := Option.some.inj hstep
          exact h
      | cons psize rest =>
          rw [hfifo] at hstep
          obtain rfl := Option.some.inj hstep
          rw [bytes_update]
          have hsum : (rest.map UInt32.toNat).sum = s.bytes q - psize.toNat := by
            simp [bytes, hfifo]
          rw [hsum]
          exact h.removeFromEgressAdmission (hone psize (by simp [hfifo]))

theorem covered_iff {s : EgressRun} {event : EgressEvent} (h : s.node.EgressBalanced s.bytes)
    (hfits : s.Fits event) : s.Covered event ↔ s.FitsOneCounter event := by
  cases event with
  | update q psize => exact iff_of_true (h.updateEgressCovered hfits) trivial
  | remove q =>
      exact forall_congr' fun psize => imp_congr_right fun _ => h.removeEgressCovered_iff

/-- Bytes the event brings into the switch. -/
def charged : EgressEvent → ℕ
  | .update _ psize => psize.toNat
  | .remove _ => 0

theorem total_start (t : Thresholds) : (start t).totalBytes = 0 :=
  Finset.sum_eq_zero fun _ _ => rfl

theorem total_step_le {s next : EgressRun} {event : EgressEvent}
    (hstep : step s event = some next) :
    next.totalBytes ≤ s.totalBytes + charged event := by
  unfold totalBytes
  cases event with
  | update q psize =>
      obtain rfl := Option.some.inj hstep
      have hsum := Tally.total_update s.bytes q (((s.fifo q ++ [psize]).map UInt32.toNat).sum)
      have hq : ((s.fifo q ++ [psize]).map UInt32.toNat).sum = s.bytes q + psize.toNat := by
        simp [bytes]
      rw [bytes_update]
      simp only [charged]
      omega
  | remove q =>
      simp only [step] at hstep
      cases hfifo : s.fifo q with
      | nil =>
          rw [hfifo] at hstep
          obtain rfl := Option.some.inj hstep
          exact Nat.le_add_right _ _
      | cons psize rest =>
          rw [hfifo] at hstep
          obtain rfl := Option.some.inj hstep
          have hsum := Tally.total_update s.bytes q (rest.map UInt32.toNat).sum
          have hq : s.bytes q = psize.toNat + (rest.map UInt32.toNat).sum := by
            simp [bytes, hfifo]
          rw [bytes_update]
          simp only [charged]
          omega

/-- A run that charges less than 2^32 bytes altogether stays in range. -/
theorem fits_of_charged {s : EgressRun} {events : List EgressEvent}
    (h : s.totalBytes + (events.map charged).sum < 2 ^ 32) :
    EachStep step (fun s event _ => s.Fits event) s events := by
  induction events generalizing s with
  | nil => simp
  | cons event rest ih =>
      rw [eachStep_cons]
      intro next hstep
      rw [List.map_cons, List.sum_cons] at h
      have hnext := total_step_le hstep
      refine ⟨?_, ih (by omega)⟩
      cases event with
      | update q psize => simp only [Fits, charged] at h ⊢; omega
      | remove q => trivial

/-- In every run that keeps the buffered bytes in range, no egress counter goes below
zero and every queue's counters add up to its buffered bytes, if and only if every
departing packet fits into one of the two counters of its queue. -/
theorem egress_conserved_iff (events : List EgressEvent)
    (hfits : EachStep step (fun s event _ => s.Fits event) (start .default) events) :
    EachStep step (fun s event next => s.Covered event ∧ next.Conserved)
        (start .default) events ↔
      EachStep step (fun s event _ => s.FitsOneCounter event) (start .default) events := by
  have hiff :
      EachStep step (fun s event next => s.Fits event ∧ s.Covered event ∧ next.Conserved)
        (start .default) events ↔
      EachStep step (fun s event _ => s.Fits event ∧ s.FitsOneCounter event)
        (start .default) events := by
    refine eachStep_iff_of_invariant (I := fun s => s.node.EgressBalanced s.bytes)
      ?_ ?_ (start_balanced .default) events
    · intro s event next hs hstep
      refine and_congr_right fun hfit => ?_
      rw [covered_iff hs hfit]
      exact and_iff_left_of_imp fun hone => (step_balanced hs hstep hfit hone).queue
    · intro s event next hs hstep hcond
      exact step_balanced hs hstep hcond.1 hcond.2
  constructor
  · exact fun h => (eachStep_and.mp (hiff.mp (eachStep_and.mpr ⟨hfits, h⟩))).2
  · exact fun h => (eachStep_and.mp (hiff.mpr (eachStep_and.mpr ⟨hfits, h⟩))).2

/-- Two packets of one queue: the first goes to the guaranteed bytes, the second to the
shared ones. They leave in the same order. -/
def mixedSizes : List EgressEvent :=
  [.update (0, 3) 500, .update (0, 3) 600, .remove (0, 3), .remove (0, 3)]

/-- The packet of 500 bytes is discharged from the 600 shared bytes; the packet of 600
bytes then finds 100 shared and 500 guaranteed bytes and takes the latter below zero. -/
theorem mixedSizes_below_zero :
    ¬ EachStep step (fun s event next => s.Covered event ∧ next.Conserved)
      (start .default) mixedSizes := by
  intro h
  have hlast := h (mixedSizes.take 3) (.remove (0, 3)) [] _ _ rfl rfl rfl
  have hcovered := hlast.1 600 rfl
  have hmin := (show _ ∧ _ from hcovered).1
  revert hmin
  decide

instance (s : EgressRun) (event : EgressEvent) : Decidable (s.FitsOneCounter event) :=
  match event with
  | .update _ _ => .isTrue trivial
  | .remove q => Option.decidableForallMem (s.fifo q).head?

/-- Two packets of one queue and one of another come, and the three leave, a guaranteed one and a
shared one among them. -/
def equalSizes : List EgressEvent :=
  [.update (0, 3) 700, .update (1, 1) 500, .update (0, 3) 700, .remove (0, 3), .remove (1, 1),
    .remove (0, 3)]

theorem egress_conserved_iff_equalSizes :
    EachStep step (fun s event next => s.Covered event ∧ next.Conserved) (start .default)
      equalSizes :=
  (egress_conserved_iff equalSizes (fits_of_charged (by rw [total_start]; decide))).mpr
    (eachStep_of_take (by decide +kernel))

end EgressRun

end Ns3Rdma
