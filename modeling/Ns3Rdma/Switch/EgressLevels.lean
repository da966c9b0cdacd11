import Ns3Rdma.Lib.StepSystem
import Ns3Rdma.Lib.Tally
import Ns3Rdma.Switch.BroadcomNode

/-!
# The three levels of egress occupancy

The counters of a port and of a service pool are 32-bit sums of the shared bytes of their
queues. Every charge, discharge and refill moves the three levels by the same word, so
the levels agree in any sequence of calls, whatever is charged and discharged.
-/

namespace Ns3Rdma

open StepSystem

/-- A call of one of the two egress updates, with arguments of its own. -/
inductive EgressCall where
  | update (q : QueueId) (psize : UInt32)
  | remove (q : QueueId) (psize : UInt32)

namespace BroadcomNode

def egressCall (b : BroadcomNode) : EgressCall → Option BroadcomNode
  | .update q psize => some (b.updateEgressAdmission q psize)
  | .remove q psize => some (b.removeFromEgressAdmission q psize)

/-- The levels as words. -/
structure EgressLevels (b : BroadcomNode) : Prop where
  port : ∀ p, b.usedEgressPortBytes p = ∑ q with Prod.fst q = p, b.usedEgressQSharedBytes q
  pool : ∀ sp, b.usedEgressSPBytes sp = ∑ q with getEgressSP q = sp, b.usedEgressQSharedBytes q

/-- The levels as the bytes they stand for, modulo 2^32. -/
def EgressLevelsAgree (b : BroadcomNode) : Prop :=
  (∀ p, (b.usedEgressPortBytes p).toNat =
    (∑ j, (b.usedEgressQSharedBytes (p, j)).toNat) % 2 ^ 32) ∧
  ∀ sp, (b.usedEgressSPBytes sp).toNat =
    (∑ q with getEgressSP q = sp, (b.usedEgressQSharedBytes q).toNat) % 2 ^ 32

theorem toNat_sum {ι : Type*} (s : Finset ι) (f : ι → UInt32) :
    (∑ i ∈ s, f i).toNat = (∑ i ∈ s, (f i).toNat) % 2 ^ 32 := by
  induction s using Finset.cons_induction with
  | empty => rfl
  | cons i s hi ih =>
      rw [Finset.sum_cons, Finset.sum_cons, UInt32.toNat_add, ih]
      omega

namespace EgressLevels

variable {b : BroadcomNode}

theorem agree (h : b.EgressLevels) : b.EgressLevelsAgree := by
  refine ⟨fun p => ?_, fun sp => ?_⟩
  · rw [h.port, Tally.sum_row, toNat_sum]
  · rw [h.pool, toNat_sum]

theorem start (t : Thresholds) : (BroadcomNode.start t).EgressLevels where
  port := fun _ => Finset.sum_const_zero.symm
  pool := fun _ => Finset.sum_const_zero.symm

theorem chargeShared (h : b.EgressLevels) (q : QueueId) (psize : UInt32) :
    (b.chargeShared q psize).EgressLevels where
  port := Tally.update_eq_sum h.port (by abel)
  pool := Tally.update_eq_sum h.pool (by abel)

/-- The pool is looked up with the ingress function, which is the same. -/
theorem dischargeShared (h : b.EgressLevels) (q : QueueId) (psize : UInt32) :
    (b.dischargeShared q psize).EgressLevels where
  port := Tally.update_eq_sum h.port (by abel)
  pool := Tally.update_eq_sum h.pool (by rw [getIngressSP_eq_getEgressSP]; abel)

theorem rebalance (h : b.EgressLevels) (q : QueueId) : (b.rebalance q).EgressLevels := by
  unfold BroadcomNode.rebalance
  dsimp only
  split
  · exact ⟨Tally.update_eq_sum h.port (by abel), Tally.update_eq_sum h.pool (by abel)⟩
  · exact h

theorem updateEgressAdmission (h : b.EgressLevels) (q : QueueId) (psize : UInt32) :
    (b.updateEgressAdmission q psize).EgressLevels := by
  unfold BroadcomNode.updateEgressAdmission
  split
  · exact ⟨h.port, h.pool⟩
  · exact (h.chargeShared q psize).rebalance q

theorem removeFromEgressAdmission (h : b.EgressLevels) (q : QueueId) (psize : UInt32) :
    (b.removeFromEgressAdmission q psize).EgressLevels := by
  unfold BroadcomNode.removeFromEgressAdmission
  split
  · exact h.dischargeShared q psize
  · have hmin : (b.dischargeMin q psize).EgressLevels := ⟨h.port, h.pool⟩
    exact hmin.rebalance q

/-- One call, matched or not, keeps the levels. -/
theorem egressCall {next : BroadcomNode} {call : EgressCall} (h : b.EgressLevels)
    (hcall : b.egressCall call = some next) : next.EgressLevels := by
  cases call with
  | update q psize =>
      obtain rfl := Option.some.inj hcall
      exact h.updateEgressAdmission q psize
  | remove q psize =>
      obtain rfl := Option.some.inj hcall
      exact h.removeFromEgressAdmission q psize

end EgressLevels

/-- After every sequence of calls, the counters of a port and of a pool are the sums of the
shared bytes of their queues, modulo 2^32. -/
theorem egress_levels_agree (t : Thresholds) (calls : List EgressCall) :
    Throughout egressCall EgressLevelsAgree (start t) calls := by
  have hlevels : Throughout egressCall EgressLevels (start t) calls :=
    throughout_of_invariant (fun _ _ _ h hcall => h.egressCall hcall) (.start t) calls
  exact hlevels.mono fun _ h => h.agree

end BroadcomNode

end Ns3Rdma
