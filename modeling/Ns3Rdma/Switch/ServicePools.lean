import Ns3Rdma.Switch.BroadcomNode

/-!
# Whose pool decides on a pause

With dynamic thresholds `GetPauseClasses` compares every class of a port with the free
bytes of one pool, the one of the class that triggered the check. The pool makes no
difference as long as no class is between the two limits.
-/

namespace Ns3Rdma

namespace BroadcomNode

/-- Bytes of a class beyond what is guaranteed to it, as the source computes them in a
`double`. -/
def sharedBytes (b : BroadcomNode) (pg : QueueId) : Int :=
  (b.usedIngressPGBytes pg).toNat - (b.pgMinCell.toNat : Int) - b.portMinCell.toNat

/-- The dynamic limit that the free bytes of a pool allow. -/
def poolLimit (b : BroadcomNode) (sp : Fin 4) : Int :=
  b.pgSharedAlphaCell * ((b.bufferCellLimitSp.toNat : Int) - (b.usedIngressSPBytes sp).toNat)

/-- Class 1 is exempt from PFC. -/
def Exempt (b : BroadcomNode) (i : Fin qCnt) : Prop :=
  i = 1 ∧ (!b.enablePfcOnDctcp) = true

instance (b : BroadcomNode) (i : Fin qCnt) : Decidable (b.Exempt i) :=
  inferInstanceAs (Decidable (_ ∧ _))

/-- The classes to pause at a port do not depend on the class that triggered the check, and
class 1 is not among them while it is exempt. -/
def JudgesByOwnPool (b : BroadcomNode) (port : Fin pCnt) : Prop :=
  (b.dynamicth = true → ∀ i j, b.getPauseClasses (port, i) = b.getPauseClasses (port, j)) ∧
    (b.enablePfcOnDctcp = false → ∀ i, b.getPauseClasses (port, i) 1 = false)

/-- No class that may be paused holds more than the pool of one class allows and not more than
that of another. With static thresholds, a port with an exempt class does not exceed its limit. -/
def PoolsAgree (b : BroadcomNode) (port : Fin pCnt) : Prop :=
  (b.dynamicth = true → ∀ i, b.pgMinCell + b.portMinCell < b.usedIngressPGBytes (port, i) →
    ¬ b.Exempt i → ∀ j k,
      (b.poolLimit (getIngressSP (port, j)) < b.sharedBytes (port, i) ↔
        b.poolLimit (getIngressSP (port, k)) < b.sharedBytes (port, i))) ∧
  (b.dynamicth = false → b.enablePfcOnDctcp = false →
    b.usedIngressPortBytes port ≤ b.portMaxSharedCell)

variable {b : BroadcomNode}

/-- The test of one class, with dynamic thresholds. -/
theorem getPauseClasses_dynamic (h : b.dynamicth = true) (pg : QueueId) (i : Fin qCnt) :
    b.getPauseClasses pg i = true ↔
      b.pgMinCell + b.portMinCell < b.usedIngressPGBytes (pg.1, i) ∧ ¬ b.Exempt i ∧
        b.poolLimit (getIngressSP pg) < b.sharedBytes (pg.1, i) := by
  unfold getPauseClasses
  rw [if_pos h]
  split
  next hle => exact iff_of_false Bool.false_ne_true fun hlt => UInt32.not_lt.mpr hle hlt.1
  next hlt =>
    rw [UInt32.not_le] at hlt
    split
    next hexempt => exact iff_of_false Bool.false_ne_true fun hpaused => hpaused.2.1 hexempt
    next hexempt =>
      rw [decide_eq_true_iff, gt_iff_lt]
      exact ⟨fun hlimit => ⟨hlt, hexempt, hlimit⟩, fun hpaused => hpaused.2.2⟩

/-- With static thresholds, the whole port is paused, or the class that triggered the check. -/
theorem getPauseClasses_static (h : b.dynamicth = false) (pg : QueueId) (i : Fin qCnt) :
    b.getPauseClasses pg i = true ↔
      b.portMaxSharedCell < b.usedIngressPortBytes pg.1 ∨
        b.pgSharedLimitCell < b.usedIngressPGBytes pg ∧ ¬ b.Exempt pg.2 ∧ i = pg.2 := by
  unfold getPauseClasses
  rw [if_neg (by rw [h]; exact Bool.false_ne_true)]
  split
  next hport => exact iff_of_true rfl (Or.inl hport)
  next hport =>
    rw [or_iff_right hport]
    split
    next hlimit =>
      split
      next hexempt => exact iff_of_false Bool.false_ne_true fun hpaused => hpaused.2.1 hexempt
      next hexempt =>
        rw [decide_eq_true_iff]
        exact ⟨fun hi => ⟨hlimit, hexempt, hi⟩, fun hpaused => hpaused.2.2⟩
    next hlimit => exact iff_of_false Bool.false_ne_true fun hpaused => hlimit hpaused.1

/-- With dynamic thresholds, the trigger makes no difference exactly when the pools agree. -/
theorem getPauseClasses_same_iff (h : b.dynamicth = true) (port : Fin pCnt) :
    (∀ i j, b.getPauseClasses (port, i) = b.getPauseClasses (port, j)) ↔
      ∀ i, b.pgMinCell + b.portMinCell < b.usedIngressPGBytes (port, i) → ¬ b.Exempt i → ∀ j k,
        (b.poolLimit (getIngressSP (port, j)) < b.sharedBytes (port, i) ↔
          b.poolLimit (getIngressSP (port, k)) < b.sharedBytes (port, i)) := by
  constructor
  · intro hsame i hused hexempt j k
    have hiff : ∀ trigger : Fin qCnt, b.getPauseClasses (port, trigger) i = true ↔
        b.poolLimit (getIngressSP (port, trigger)) < b.sharedBytes (port, i) := fun trigger =>
      (getPauseClasses_dynamic h (port, trigger) i).trans
        ⟨fun hpaused => hpaused.2.2, fun hlimit => ⟨hused, hexempt, hlimit⟩⟩
    rw [← hiff j, ← hiff k, hsame j k]
  · intro hagree j k
    funext i
    rw [Bool.eq_iff_iff, getPauseClasses_dynamic h, getPauseClasses_dynamic h]
    refine and_congr_right fun hused => and_congr_right fun hexempt => ?_
    exact hagree i hused hexempt j k

/-- The exemption of class 1 holds with dynamic thresholds, and with static ones unless the
whole port is paused. -/
theorem exempt_not_paused_iff (hexempt : b.enablePfcOnDctcp = false) (port : Fin pCnt) :
    (∀ i, b.getPauseClasses (port, i) 1 = false) ↔
      (b.dynamicth = false → b.usedIngressPortBytes port ≤ b.portMaxSharedCell) := by
  have hone : b.Exempt 1 := ⟨rfl, by rw [hexempt]; rfl⟩
  cases hdynamic : b.dynamicth with
  | true =>
      refine iff_of_true (fun i => ?_) nofun
      rw [← Bool.not_eq_true, getPauseClasses_dynamic hdynamic]
      exact fun hpaused => hpaused.2.1 hone
  | false =>
      simp only [true_implies]
      constructor
      · intro hnot
        rw [← UInt32.not_lt]
        intro hport
        have hpaused := (getPauseClasses_static hdynamic (port, 0) 1).mpr (Or.inl hport)
        rw [hnot 0] at hpaused
        cases hpaused
      · intro hport i
        rw [← Bool.not_eq_true, getPauseClasses_static hdynamic, not_or]
        refine ⟨UInt32.not_lt.mpr hport, ?_⟩
        rintro ⟨-, hclass, rfl⟩
        exact hclass hone

theorem judgesByOwnPool_iff (b : BroadcomNode) (port : Fin pCnt) :
    b.JudgesByOwnPool port ↔ b.PoolsAgree port := by
  unfold JudgesByOwnPool PoolsAgree
  refine and_congr (forall_congr' fun h => getPauseClasses_same_iff h port) ?_
  constructor
  · intro h hdynamic hexempt
    exact (exempt_not_paused_iff hexempt port).mp (h hexempt) hdynamic
  · intro h hexempt
    exact (exempt_not_paused_iff hexempt port).mpr fun hdynamic => h hdynamic hexempt

/-- Class 3 of port 0 fills pool 0 while pool 1 is empty. -/
def crossPool : BroadcomNode :=
  (start Thresholds.default.setDynamicThreshold).updateIngressAdmission (0, 3) 3900000

/-- A check of class 3 pauses the class, a check of class 1 does not. -/
theorem crossPool_not_judgesByOwnPool : ¬ crossPool.JudgesByOwnPool 0 := by
  intro h
  have hsame := congrFun (h.1 rfl 3 1) 3
  revert hsame
  decide

end BroadcomNode

end Ns3Rdma
