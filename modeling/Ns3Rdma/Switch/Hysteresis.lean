import Ns3Rdma.Switch.Pfc
import Ns3Rdma.Switch.ServicePools

/-!
# Pausing and resuming in one call

The limits at which a class is resumed are set by the constructor only, while the limits at
which it is paused are configured. With dynamic thresholds the two limits of one class are
in order, but a RESUME names class 0 whatever class it is decided for.
-/

namespace Ns3Rdma

/-- A call that configures the limits of a switch. -/
inductive ThresholdCall where
  | setBroadcomParams (p : BroadcomParams)
  | setDynamicThreshold

namespace Thresholds

def configure (t : Thresholds) : ThresholdCall → Thresholds
  | .setBroadcomParams p => t.setBroadcomParams p
  | .setDynamicThreshold => t.setDynamicThreshold

/-- The limits after the constructor and some calls. -/
def configured (calls : List ThresholdCall) : Thresholds :=
  calls.foldl configure .default

/-- What no call changes, and what every call keeps. -/
structure Kept (t : Thresholds) : Prop where
  pgSharedLimitCellOff : t.pgSharedLimitCellOff = 18540
  portMinCellOff : t.portMinCellOff = 4841000
  pgSharedAlphaCellOffDiff : t.pgSharedAlphaCellOffDiff = 16
  pgSharedAlphaCell : 0 ≤ t.pgSharedAlphaCell
  enablePfcOnDctcp : t.enablePfcOnDctcp = true

theorem Kept.configure {t : Thresholds} (h : t.Kept) (call : ThresholdCall) :
    (t.configure call).Kept := by
  cases call with
  | setBroadcomParams p =>
      exact ⟨h.pgSharedLimitCellOff, h.portMinCellOff, h.pgSharedAlphaCellOffDiff,
        Int.natCast_nonneg _, h.enablePfcOnDctcp⟩
  | setDynamicThreshold =>
      exact ⟨h.pgSharedLimitCellOff, h.portMinCellOff, h.pgSharedAlphaCellOffDiff,
        h.pgSharedAlphaCell, h.enablePfcOnDctcp⟩

theorem kept_configured (calls : List ThresholdCall) : (configured calls).Kept := by
  unfold configured
  have hdefault : Thresholds.default.Kept := ⟨rfl, rfl, rfl, by decide, rfl⟩
  generalize Thresholds.default = t at hdefault
  induction calls generalizing t with
  | nil => exact hdefault
  | cons call rest ih => exact ih _ (hdefault.configure call)

end Thresholds

namespace BroadcomNode

variable {b : BroadcomNode}

theorem not_exempt (h : b.Kept) (i : Fin qCnt) : ¬ b.Exempt i := by
  rintro ⟨-, hdisabled⟩
  rw [h.enablePfcOnDctcp] at hdisabled
  cases hdisabled

theorem getResumeClasses_dynamic (h : b.Kept) (hdynamic : b.dynamicth = true) (pg : QueueId) :
    b.getResumeClasses pg = true ↔
      b.sharedBytes pg < b.poolLimit (getIngressSP pg) - 16 * b.pgSharedAlphaCell := by
  have hlimit : b.pgSharedAlphaCell * ((b.bufferCellLimitSp.toNat : Int) -
      (b.usedIngressSPBytes (getIngressSP pg)).toNat - 16) =
        b.poolLimit (getIngressSP pg) - 16 * b.pgSharedAlphaCell := by
    unfold poolLimit
    rw [Int.mul_sub, Int.mul_comm _ 16]
  unfold getResumeClasses
  rw [if_pos hdynamic, decide_eq_true_iff, h.pgSharedAlphaCellOffDiff, hlimit]
  rfl

theorem getResumeClasses_static (h : b.Kept) (hstatic : b.dynamicth = false) (pg : QueueId) :
    b.getResumeClasses pg = true ↔
      b.usedIngressPGBytes pg < 18540 ∧ b.usedIngressPortBytes pg.1 < 4841000 := by
  unfold getResumeClasses
  rw [if_neg (by rw [hstatic]; exact Bool.false_ne_true), decide_eq_true_iff,
    h.pgSharedLimitCellOff, h.portMinCellOff]

end BroadcomNode

namespace Pfc

variable (pausetime : Fin pCnt → UInt32)

/-- The group of the call is not paused and resumed, and no class gets a PAUSE and a RESUME. -/
def Separates (s : Pfc) (dev : Fin pCnt) (pg : QueueId) (qlen : Fin qCnt → UInt32) : Prop :=
  ¬ (s.node.getPauseClasses pg pg.2 = true ∧ s.node.getResumeClasses pg = true) ∧
    ∀ pause ∈ newFrames s (s.afterPauses pausetime dev pg qlen),
      ∀ resume ∈ newFrames (s.afterPauses pausetime dev pg qlen)
          (s.checkQueueFull pausetime dev pg qlen),
        pause.2.qIndex ≠ resume.2.qIndex

/-- The switch separates pausing from resuming for every content of its buffer, every call
and every pause time. -/
def AllSeparate (t : Thresholds) : Prop :=
  ∀ pausetime (s : Pfc) dev pg qlen, s.node.toThresholds = t → s.Separates pausetime dev pg qlen

/-- No content of a pool puts its limit where a full class 0 is above it and an empty class
is below it by sixteen times the factor. -/
def PoolNeverBetween (t : Thresholds) : Prop :=
  t.pgMinCell + t.portMinCell = 4294967295 ∨ ∀ used : UInt32,
    16 * t.pgSharedAlphaCell - t.pgMinCell.toNat - t.portMinCell.toNat <
        t.pgSharedAlphaCell * ((t.bufferCellLimitSp.toNat : Int) - used.toNat) →
      4294967295 - (t.pgMinCell.toNat : Int) - t.portMinCell.toNat ≤
        t.pgSharedAlphaCell * ((t.bufferCellLimitSp.toNat : Int) - used.toNat)

/-- While class 0 of the port holds more than its guarantees and more than the limit of the
pool of the group, the group lies less than sixteen times the factor below that limit. -/
def ClassZeroInOrder (b : BroadcomNode) (pg : QueueId) : Prop :=
  b.pgMinCell + b.portMinCell < b.usedIngressPGBytes (pg.1, 0) →
    b.poolLimit (BroadcomNode.getIngressSP pg) < b.sharedBytes (pg.1, 0) →
      b.poolLimit (BroadcomNode.getIngressSP pg) - 16 * b.pgSharedAlphaCell ≤ b.sharedBytes pg

variable {pausetime} {s : Pfc} {dev : Fin pCnt} {pg : QueueId} {qlen : Fin qCnt → UInt32}

/-- The only RESUME of a call names class 0. -/
theorem frames_apart_iff :
    (∀ pause ∈ newFrames s (s.afterPauses pausetime dev pg qlen),
      ∀ resume ∈ newFrames (s.afterPauses pausetime dev pg qlen)
          (s.checkQueueFull pausetime dev pg qlen),
        pause.2.qIndex ≠ resume.2.qIndex) ↔
      ¬ (s.node.getPauseClasses pg 0 = true ∧ s.node.getResumeClasses pg = true) := by
  rw [newFrames_afterPauses]
  by_cases hresumes : s.Resumes pg
  · have hframes : newFrames (s.afterPauses pausetime dev pg qlen)
        (s.checkQueueFull pausetime dev pg qlen) = [(pg.1, ⟨0, qlen 0, 0⟩)] := by
      rw [checkQueueFull_resumes hresumes]
      exact List.drop_left
    rw [hframes]
    constructor
    · rintro hapart ⟨hzero, -⟩
      exact hapart (pg.1, ⟨pausetime dev, qlen 0, 0⟩)
        (List.mem_map.mpr ⟨0, List.mem_filter.mpr ⟨List.mem_finRange 0, hzero⟩, rfl⟩)
        _ (List.mem_singleton_self _) rfl
    · intro hnot pause hpause resume hresume heq
      obtain ⟨j, hj, rfl⟩ := List.mem_map.mp hpause
      obtain rfl := List.mem_singleton.mp hresume
      obtain rfl : j = 0 := heq
      exact hnot ⟨(List.mem_filter.mp hj).2, hresumes.2⟩
  · refine iff_of_true (fun pause _ resume hresume => ?_) fun hboth =>
      hresumes ⟨Or.inr ⟨0, hboth.1⟩, hboth.2⟩
    rw [checkQueueFull_idle hresumes, newFrames, List.drop_length] at hresume
    cases hresume

/-- A dynamic limit for resuming is not above the one for pausing. -/
theorem dynamic_in_order (h : s.node.Kept) (hdynamic : s.node.dynamicth = true) :
    ¬ (s.node.getPauseClasses pg pg.2 = true ∧ s.node.getResumeClasses pg = true) := by
  rw [BroadcomNode.getPauseClasses_dynamic hdynamic,
    BroadcomNode.getResumeClasses_dynamic h hdynamic]
  rintro ⟨⟨-, -, hpause⟩, hresume⟩
  have halpha := h.pgSharedAlphaCell
  change _ < s.node.sharedBytes pg at hpause
  omega

theorem static_separates_iff (h : s.node.Kept) (hstatic : s.node.dynamicth = false) :
    (¬ (s.node.getPauseClasses pg pg.2 = true ∧ s.node.getResumeClasses pg = true) ∧
      ¬ (s.node.getPauseClasses pg 0 = true ∧ s.node.getResumeClasses pg = true)) ↔
    (s.node.usedIngressPGBytes pg < 18540 → s.node.usedIngressPortBytes pg.1 < 4841000 →
      s.node.usedIngressPGBytes pg ≤ s.node.pgSharedLimitCell ∧
        s.node.usedIngressPortBytes pg.1 ≤ s.node.portMaxSharedCell) := by
  rw [BroadcomNode.getPauseClasses_static hstatic, BroadcomNode.getPauseClasses_static hstatic,
    BroadcomNode.getResumeClasses_static h hstatic, ← UInt32.not_lt, ← UInt32.not_lt]
  have hexempt := BroadcomNode.not_exempt h pg.2
  constructor
  · rintro ⟨hown, -⟩ hgroup hport
    refine ⟨fun hlimit => hown ⟨Or.inr ⟨hlimit, hexempt, rfl⟩, hgroup, hport⟩,
      fun hlimit => hown ⟨Or.inl hlimit, hgroup, hport⟩⟩
  · intro horder
    refine ⟨?_, ?_⟩
    · rintro ⟨hport | ⟨hgroup, -⟩, hresume⟩
      · exact (horder hresume.1 hresume.2).2 hport
      · exact (horder hresume.1 hresume.2).1 hgroup
    · rintro ⟨hport | ⟨hgroup, -⟩, hresume⟩
      · exact (horder hresume.1 hresume.2).2 hport
      · exact (horder hresume.1 hresume.2).1 hgroup

theorem separates_of_static (h : s.node.Kept) (hstatic : s.node.dynamicth = false) :
    s.Separates pausetime dev pg qlen ↔
      (s.node.usedIngressPGBytes pg < 18540 → s.node.usedIngressPortBytes pg.1 < 4841000 →
        s.node.usedIngressPGBytes pg ≤ s.node.pgSharedLimitCell ∧
          s.node.usedIngressPortBytes pg.1 ≤ s.node.portMaxSharedCell) := by
  unfold Separates
  rw [frames_apart_iff, static_separates_iff h hstatic]

theorem separates_of_dynamic (h : s.node.Kept) (hdynamic : s.node.dynamicth = true) :
    s.Separates pausetime dev pg qlen ↔ (pg.2 ≠ 0 → ClassZeroInOrder s.node pg) := by
  unfold Separates ClassZeroInOrder
  rw [frames_apart_iff, and_iff_right (dynamic_in_order h hdynamic)]
  by_cases hzero : pg.2 = 0
  · refine iff_of_true ?_ fun hne => absurd hzero hne
    have hown : ¬ (s.node.getPauseClasses pg pg.2 = true ∧ s.node.getResumeClasses pg = true) :=
      dynamic_in_order h hdynamic
    rw [hzero] at hown
    exact hown
  · rw [BroadcomNode.getPauseClasses_dynamic hdynamic,
      BroadcomNode.getResumeClasses_dynamic h hdynamic, ← not_lt]
    constructor
    · intro hnot _ hused hlimit hresume
      exact hnot ⟨⟨hused, BroadcomNode.not_exempt h 0, hlimit⟩, hresume⟩
    · rintro hinOrder ⟨⟨hused, -, hlimit⟩, hresume⟩
      exact hinOrder hzero hused hlimit hresume

section Configuration

variable {t : Thresholds}

/-- Static limits keep every occupancy apart if and only if they are not below those for
resuming. -/
theorem allSeparate_static_iff (hkept : t.Kept) (hstatic : t.dynamicth = false) :
    AllSeparate t ↔ 18539 ≤ t.pgSharedLimitCell ∧ 4840999 ≤ t.portMaxSharedCell := by
  constructor
  · intro hall
    -- A group, or a port, that holds one byte less than the limit for resuming.
    have hinOrder : ∀ group port : UInt32, group < 18540 → port < 4841000 →
        group ≤ t.pgSharedLimitCell ∧ port ≤ t.portMaxSharedCell := by
      intro group port hgroup hport
      have hseparates := hall (fun _ => 0)
        { start t with node :=
          { BroadcomNode.start t with
            usedIngressPGBytes := fun _ => group
            usedIngressPortBytes := fun _ => port } } 0 (0, 0) (fun _ => 0) rfl
      rw [separates_of_static hkept hstatic] at hseparates
      exact hseparates hgroup hport
    exact ⟨(hinOrder 18539 0 (by decide) (by decide)).1,
      (hinOrder 0 4840999 (by decide) (by decide)).2⟩
  · rintro ⟨hgroup, hport⟩ pausetime s dev pg qlen hs
    rw [separates_of_static (by rw [hs]; exact hkept) (by rw [hs]; exact hstatic), hs]
    intro hused hportUsed
    rw [UInt32.le_iff_toNat_le] at hgroup hport
    rw [UInt32.lt_iff_toNat_lt] at hused hportUsed
    rw [UInt32.le_iff_toNat_le, UInt32.le_iff_toNat_le]
    exact ⟨(Nat.le_of_lt_succ hused).trans hgroup, (Nat.le_of_lt_succ hportUsed).trans hport⟩

/-- The state that decides: class 0 is as full as its counter allows, the other classes are
empty and the pool holds the given bytes. -/
def fullClassZero (t : Thresholds) (used : UInt32) : Pfc :=
  { start t with node :=
    { BroadcomNode.start t with
      usedIngressPGBytes := fun pg => if pg.2 = 0 then 4294967295 else 0
      usedIngressSPBytes := fun _ => used } }

theorem allSeparate_dynamic_iff (hkept : t.Kept) (hdynamic : t.dynamicth = true) :
    AllSeparate t ↔ PoolNeverBetween t := by
  constructor
  · intro hall
    by_cases hguarantee : t.pgMinCell + t.portMinCell = 4294967295
    · exact Or.inl hguarantee
    · refine Or.inr fun used hbelow => ?_
      have hseparates := hall (fun _ => 0) (fullClassZero t used) 0 (0, 3) (fun _ => 0) rfl
      rw [separates_of_dynamic hkept hdynamic] at hseparates
      have hclass := hseparates (by decide)
      have hfull : t.pgMinCell + t.portMinCell < 4294967295 := by
        have hlt := (t.pgMinCell + t.portMinCell).toNat_lt
        have hne : (t.pgMinCell + t.portMinCell).toNat ≠ 4294967295 :=
          fun heq => hguarantee (UInt32.toNat_inj.mp heq)
        rw [UInt32.lt_iff_toNat_lt]
        change _ < 4294967295
        omega
      by_contra hover
      have hpool := hclass hfull
      simp only [BroadcomNode.poolLimit, BroadcomNode.sharedBytes, fullClassZero,
        BroadcomNode.start] at hpool
      have hempty := hpool (by
        change _ < (4294967295 : Int) - _ - _
        omega)
      rw [if_neg (by decide)] at hempty
      change _ ≤ (0 : Int) - _ - _ at hempty
      omega
  · intro hnever pausetime s dev pg qlen hs
    rw [separates_of_dynamic (by rw [hs]; exact hkept) (by rw [hs]; exact hdynamic)]
    intro _ hused hlimit
    by_contra hbelow
    unfold BroadcomNode.poolLimit BroadcomNode.sharedBytes at hlimit hbelow
    rw [hs] at hused hlimit hbelow
    have hzero := (s.node.usedIngressPGBytes (pg.1, 0)).toNat_lt
    obtain hguarantee | hpool := hnever
    · rw [hguarantee, UInt32.lt_iff_toNat_lt] at hused
      change 4294967295 < _ at hused
      omega
    · have hover := hpool (s.node.usedIngressSPBytes (BroadcomNode.getIngressSP pg)) (by omega)
      omega

end Configuration

/-- For every configuration, pausing and resuming are apart in every state if and only if the
limits are in order; with dynamic thresholds also state by state, on class 0 alone. -/
theorem separates_iff_limitsInOrder {calls : List ThresholdCall} {t : Thresholds}
    (h : t = .configured calls) :
    (t.dynamicth = false →
      (AllSeparate t ↔ 18539 ≤ t.pgSharedLimitCell ∧ 4840999 ≤ t.portMaxSharedCell)) ∧
    (t.dynamicth = true → (AllSeparate t ↔ PoolNeverBetween t)) ∧
    (t.dynamicth = true → ∀ pausetime (s : Pfc) dev pg qlen, s.node.toThresholds = t →
      (s.Separates pausetime dev pg qlen ↔ (pg.2 ≠ 0 → ClassZeroInOrder s.node pg))) := by
  have hkept : t.Kept := by
    rw [h]
    exact Thresholds.kept_configured calls
  refine ⟨allSeparate_static_iff hkept, allSeparate_dynamic_iff hkept, ?_⟩
  intro hdynamic pausetime s dev pg qlen hs
  exact separates_of_dynamic (by rw [hs]; exact hkept) (by rw [hs]; exact hdynamic)

/-- The limits of a group and the other limits of the constructor. -/
def groupLimit (pgSharedLimitCell : UInt32) : ThresholdCall :=
  .setBroadcomParams
    { bufferCellLimitSp := 4120000, pgMinCell := 1030, portMinCell := 1030,
      pgSharedLimitCell := pgSharedLimitCell, portMaxSharedCell := 4944000,
      pgHdrmLimit := 103000, qMinCell := 1030, opUcPortConfig1Cell := 9000000,
      opUcPortConfigCell := 9000000, opBufferSharedLimitCell := 9000000, qSharedAlphaCell := 16 }

/-- A configured switch whose class 3 of port 0 holds the given bytes. -/
def holding (calls : List ThresholdCall) (psize : UInt32) : Pfc where
  node := (BroadcomNode.start (.configured calls)).updateIngressAdmission (0, 3) psize
  sent := []
  recheckEvt := fun _ _ => none

/-- Thirty cells separate in every state. With dynamic thresholds a class of five thousand
bytes is checked apart, and some other content of the buffer is not. -/
theorem separates_iff_limitsInOrder_configured :
    AllSeparate (.configured [groupLimit 30900]) ∧
      (holding [groupLimit 30900, .setDynamicThreshold] 5000).Separates (fun _ => 5) 1 (0, 3)
        (fun _ => 0) ∧
      ¬ AllSeparate (.configured [groupLimit 30900, .setDynamicThreshold]) := by
  have hdynamic := separates_iff_limitsInOrder
    (show Thresholds.configured [groupLimit 30900, .setDynamicThreshold] = .configured _ from rfl)
  refine ⟨((separates_iff_limitsInOrder rfl).1 rfl).mpr ⟨by decide, by decide⟩, ?_, ?_⟩
  · refine (hdynamic.2.2 rfl _ (holding [groupLimit 30900, .setDynamicThreshold] 5000) _ _ _
      rfl).mpr fun _ hused => ?_
    exact absurd hused (by decide)
  · rw [hdynamic.2.1 rfl]
    rintro (hguarantee | hpool)
    · exact absurd hguarantee (by decide)
    · exact absurd (hpool 4000000 (by decide)) (by decide)

/-- With a limit of two cells, the group is paused and resumed. -/
theorem smallLimit_not_separates :
    ¬ (holding [groupLimit 2060] 5000).Separates (fun _ => 5) 1 (0, 3) fun _ => 0 := by
  intro h
  exact h.1 (by decide)

end Pfc

end Ns3Rdma
