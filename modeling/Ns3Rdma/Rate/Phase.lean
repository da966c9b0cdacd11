import Ns3Rdma.Rate.Range

/-! # The stage is a function of the two counters

The byte counter and the rate timer promote a flow separately. The stage that they leave
should depend on how far both counters have come, and not on the order of the expiries. The
timer handler of the active-increase stage selects the next stage, the byte handler stays in
its own. -/

namespace Ns3Rdma

open StepSystem

namespace RpFlow

/-- The stage for given counters. -/
def phase (threshold byteStage timeStage : UInt32) : RpStage :=
  if byteStage < threshold ∧ timeStage < threshold then .fastRecovery
  else if threshold ≤ byteStage ∧ threshold ≤ timeStage then .hyperIncrease
  else .activeIncrease

variable (c : RpConfig)

/-- The stage of a throttled flow is the one for its counters. -/
def PhaseLaw (f : RpFlow) : Prop :=
  f.rpStage ≠ .idle → f.rpStage = phase c.rpgThreshold f.rpByteStage f.rpTimeStage

/-- A packet of this size makes the byte counter expire. -/
def ByteExpires (f : RpFlow) (size : UInt32) : Prop :=
  f.rpStage ≠ .idle ∧ f.txBytes - size.toNat < 0

/-- A counter of 2^32 - 1 is not incremented, and no expiry of the byte counter finishes the
active-increase stage. -/
def KeepsPhase (f : RpFlow) : Event → Prop
  | .transmit size => f.ByteExpires size →
      f.rpByteStage.toNat + 1 < 2 ^ 32 ∧
        ¬ (f.rpStage = .activeIncrease ∧ c.rpgThreshold ≤ f.rpTimeStage ∧
          f.rpByteStage + 1 = c.rpgThreshold)
  | .rateTimer => f.rpStage ≠ .idle → f.rpTimeStage.toNat + 1 < 2 ^ 32
  | _ => True

variable {c} {f : RpFlow}

theorem phase_eq_iff (threshold byteStage timeStage : UInt32) (stage : RpStage) :
    stage = phase threshold byteStage timeStage ↔
      (stage = .fastRecovery ∧ byteStage < threshold ∧ timeStage < threshold) ∨
      (stage = .hyperIncrease ∧ threshold ≤ byteStage ∧ threshold ≤ timeStage) ∨
      (stage = .activeIncrease ∧ (byteStage < threshold ∧ threshold ≤ timeStage ∨
        threshold ≤ byteStage ∧ timeStage < threshold)) := by
  unfold phase
  simp only [UInt32.lt_iff_toNat_lt, UInt32.le_iff_toNat_le]
  split
  next hbelow =>
    constructor
    · rintro rfl
      exact Or.inl ⟨rfl, hbelow⟩
    · rintro (⟨rfl, -⟩ | ⟨-, hbyte, -⟩ | ⟨-, hmixed⟩)
      · rfl
      · omega
      · omega
  next hreached =>
    split
    next habove =>
      constructor
      · rintro rfl
        exact Or.inr (Or.inl ⟨rfl, habove⟩)
      · rintro (⟨-, hbyte, htime⟩ | ⟨rfl, -⟩ | ⟨-, hmixed⟩)
        · omega
        · rfl
        · omega
    next hmixed =>
      constructor
      · rintro rfl
        exact Or.inr (Or.inr ⟨rfl, by omega⟩)
      · rintro (⟨-, hbyte, htime⟩ | ⟨-, hbyte, htime⟩ | ⟨rfl, -⟩)
        · omega
        · omega
        · rfl

/-! ## The selection of a stage -/

theorem rprActiveSelect_counters (f : RpFlow) :
    (f.rprActiveSelect c).rpByteStage = f.rpByteStage ∧
      (f.rprActiveSelect c).rpTimeStage = f.rpTimeStage := by
  unfold rprActiveSelect
  split
  · exact ⟨rfl, rfl⟩
  · exact ⟨rfl, rfl⟩

/-- `rpr_active_select` decides between two of the three stages. -/
theorem rprActiveSelect_stage (f : RpFlow) : (f.rprActiveSelect c).rpStage =
    if f.rpByteStage < c.rpgThreshold ∨ f.rpTimeStage < c.rpgThreshold then .activeIncrease
    else .hyperIncrease := by
  unfold rprActiveSelect
  split
  · rfl
  · rfl

/-- The selection is right unless both counters are below the threshold. -/
theorem rprActiveSelect_law (f : RpFlow) : (f.rprActiveSelect c).PhaseLaw c ↔
    c.rpgThreshold ≤ f.rpByteStage ∨ c.rpgThreshold ≤ f.rpTimeStage := by
  have hthrottled : (f.rprActiveSelect c).rpStage ≠ .idle := by
    rw [rprActiveSelect_stage]
    split
    · exact RpStage.noConfusion
    · exact RpStage.noConfusion
  unfold PhaseLaw
  rw [imp_iff_right hthrottled, rprActiveSelect_stage, (rprActiveSelect_counters f).1,
    (rprActiveSelect_counters f).2, phase_eq_iff]
  simp only [UInt32.lt_iff_toNat_lt, UInt32.le_iff_toNat_le]
  split
  · simp only [reduceCtorEq, false_and, true_and, false_or]
    omega
  · simp only [reduceCtorEq, false_and, true_and, false_or, or_false]
    omega

theorem rprHyperIncrease_law (f : RpFlow) : (f.rprHyperIncrease c).PhaseLaw c ↔
    c.rpgThreshold ≤ f.rpByteStage ∧ c.rpgThreshold ≤ f.rpTimeStage := by
  unfold PhaseLaw
  rw [imp_iff_right (by exact RpStage.noConfusion), phase_eq_iff]
  simp only [rprHyperIncrease, reduceCtorEq, false_and, true_and, false_or, or_false]
  rfl

theorem rprActiveIncrease_law (f : RpFlow) : (f.rprActiveIncrease c).PhaseLaw c ↔
    f.rpByteStage < c.rpgThreshold ∧ c.rpgThreshold ≤ f.rpTimeStage ∨
      c.rpgThreshold ≤ f.rpByteStage ∧ f.rpTimeStage < c.rpgThreshold := by
  unfold PhaseLaw
  rw [imp_iff_right (by exact RpStage.noConfusion), phase_eq_iff]
  simp only [rprActiveIncrease, reduceCtorEq, false_and, true_and, false_or]
  rfl

theorem rprAdjustRates_law (f : RpFlow) : (f.rprAdjustRates c).PhaseLaw c ↔
    f.rpByteStage < c.rpgThreshold ∧ f.rpTimeStage < c.rpgThreshold := by
  unfold PhaseLaw
  rw [imp_iff_right (by exact RpStage.noConfusion), phase_eq_iff]
  simp only [rprAdjustRates, rprFastRecovery, reduceCtorEq, false_and, true_and, or_false]
  rfl

/-! ## The handlers -/

theorem toNat_succ (x : UInt32) : (x + 1).toNat =
    if x.toNat + 1 < 2 ^ 32 then x.toNat + 1 else 0 := by
  rw [UInt32.toNat_add, UInt32.toNat_one]
  have hlt := x.toNat_lt
  split
  · omega
  · omega

section Handlers

variable (h : f.PhaseLaw c)

include h

/-- What the law says of the counters, by the stage. -/
theorem PhaseLaw.counters :
    (f.rpStage = .fastRecovery → f.rpByteStage.toNat < c.rpgThreshold.toNat ∧
      f.rpTimeStage.toNat < c.rpgThreshold.toNat) ∧
    (f.rpStage = .activeIncrease →
      f.rpByteStage.toNat < c.rpgThreshold.toNat ∧ c.rpgThreshold.toNat ≤ f.rpTimeStage.toNat ∨
        c.rpgThreshold.toNat ≤ f.rpByteStage.toNat ∧
          f.rpTimeStage.toNat < c.rpgThreshold.toNat) ∧
    (f.rpStage = .hyperIncrease → c.rpgThreshold.toNat ≤ f.rpByteStage.toNat ∧
      c.rpgThreshold.toNat ≤ f.rpTimeStage.toNat) := by
  simp only [← UInt32.lt_iff_toNat_lt, ← UInt32.le_iff_toNat_le]
  refine ⟨fun hstage => ?_, fun hstage => ?_, fun hstage => ?_⟩
  · have hphase := (phase_eq_iff _ _ _ _).mp (h (by rw [hstage]; exact RpStage.noConfusion))
    simpa [hstage] using hphase
  · have hphase := (phase_eq_iff _ _ _ _).mp (h (by rw [hstage]; exact RpStage.noConfusion))
    simpa [hstage] using hphase
  · have hphase := (phase_eq_iff _ _ _ _).mp (h (by rw [hstage]; exact RpStage.noConfusion))
    simpa [hstage] using hphase

theorem PhaseLaw.rprFastByte (hstage : f.rpStage = .fastRecovery) :
    (f.rprFastByte c).PhaseLaw c := by
  obtain ⟨hbyte, htime⟩ := h.counters.1 hstage
  have hsucc := toNat_succ f.rpByteStage
  have hthreshold := c.rpgThreshold.toNat_lt
  rw [if_pos (by omega)] at hsucc
  unfold RpFlow.rprFastByte
  dsimp only
  split
  next hbelow =>
    rw [rprAdjustRates_law]
    exact ⟨hbelow, UInt32.lt_iff_toNat_lt.mpr htime⟩
  next hreached =>
    rw [rprActiveSelect_law]
    exact Or.inl (UInt32.not_lt.mp hreached)

theorem PhaseLaw.rprFastTime (hstage : f.rpStage = .fastRecovery) :
    (f.rprFastTime c).PhaseLaw c := by
  obtain ⟨hbyte, htime⟩ := h.counters.1 hstage
  unfold RpFlow.rprFastTime
  dsimp only
  split
  next hbelow =>
    rw [rprAdjustRates_law]
    exact ⟨UInt32.lt_iff_toNat_lt.mpr hbyte, hbelow⟩
  next hreached =>
    rw [rprActiveSelect_law]
    exact Or.inr (UInt32.not_lt.mp hreached)

/-- The byte handler of this stage stays in it. -/
theorem PhaseLaw.rprActiveByte_iff (hstage : f.rpStage = .activeIncrease) :
    (f.rprActiveByte c).PhaseLaw c ↔ f.rpByteStage.toNat + 1 < 2 ^ 32 ∧
      ¬ (c.rpgThreshold ≤ f.rpTimeStage ∧ f.rpByteStage + 1 = c.rpgThreshold) := by
  have hcounters := h.counters.2.1 hstage
  have hsucc := toNat_succ f.rpByteStage
  have hthreshold := c.rpgThreshold.toNat_lt
  unfold RpFlow.rprActiveByte
  rw [rprActiveIncrease_law, ← UInt32.toNat_inj]
  simp only [countBytes, UInt32.lt_iff_toNat_lt, UInt32.le_iff_toNat_le]
  split at hsucc
  · omega
  · omega

theorem PhaseLaw.rprActiveTime_iff (hstage : f.rpStage = .activeIncrease) :
    (f.rprActiveTime c).PhaseLaw c ↔ f.rpTimeStage.toNat + 1 < 2 ^ 32 := by
  have hcounters := h.counters.2.1 hstage
  have hsucc := toNat_succ f.rpTimeStage
  have hthreshold := c.rpgThreshold.toNat_lt
  unfold RpFlow.rprActiveTime
  rw [rprActiveSelect_law]
  simp only [countTime, UInt32.le_iff_toNat_le]
  split at hsucc
  · omega
  · omega

variable (hpos : 1 ≤ c.rpgThreshold.toNat)

include hpos

theorem PhaseLaw.rprHyperByte_iff (hstage : f.rpStage = .hyperIncrease) :
    (f.rprHyperByte c).PhaseLaw c ↔ f.rpByteStage.toNat + 1 < 2 ^ 32 := by
  have hcounters := h.counters.2.2 hstage
  have hsucc := toNat_succ f.rpByteStage
  unfold RpFlow.rprHyperByte
  rw [rprHyperIncrease_law]
  simp only [countBytes, UInt32.le_iff_toNat_le]
  split at hsucc
  · omega
  · omega

theorem PhaseLaw.rprHyperTime_iff (hstage : f.rpStage = .hyperIncrease) :
    (f.rprHyperTime c).PhaseLaw c ↔ f.rpTimeStage.toNat + 1 < 2 ^ 32 := by
  have hcounters := h.counters.2.2 hstage
  have hsucc := toNat_succ f.rpTimeStage
  unfold RpFlow.rprHyperTime
  rw [rprHyperIncrease_law]
  simp only [countTime, UInt32.le_iff_toNat_le]
  split at hsucc
  · omega
  · omega

theorem PhaseLaw.rprTimerWrapper_iff :
    (f.rprTimerWrapper c).PhaseLaw c ↔ f.KeepsPhase c .rateTimer := by
  unfold KeepsPhase RpFlow.rprTimerWrapper
  split
  next hstage => exact iff_of_true h fun hne => absurd hstage hne
  next hstage =>
    have htime := (h.counters.1 hstage).2
    have hthreshold := c.rpgThreshold.toNat_lt
    exact iff_of_true (h.rprFastTime hstage) fun _ => by omega
  next hstage =>
    rw [h.rprActiveTime_iff hstage, imp_iff_right (by rw [hstage]; exact RpStage.noConfusion)]
  next hstage =>
    rw [h.rprHyperTime_iff hpos hstage, imp_iff_right (by rw [hstage]; exact RpStage.noConfusion)]

theorem PhaseLaw.byteCounter_iff (size : UInt32) :
    (f.byteCounter c size).PhaseLaw c ↔ f.KeepsPhase c (.transmit size) := by
  have hcounted : ∀ txBytes, PhaseLaw c { f with txBytes := txBytes } := fun _ => h
  unfold KeepsPhase ByteExpires RpFlow.byteCounter
  by_cases hidle : f.rpStage = .idle
  · rw [if_pos hidle]
    have hfull : ¬ (c.bc.toNat : Int) < 0 := by omega
    simp only [hfull, if_false]
    exact iff_of_true (hcounted _) fun hexpires => absurd hidle hexpires.1
  · rw [if_neg hidle]
    by_cases hdue : f.txBytes - size.toNat < 0
    · simp only [hdue, if_true, and_true, imp_iff_right hidle]
      split
      next hstage => exact absurd hstage hidle
      next hstage =>
        have hbyte := ((hcounted 0).counters.1 hstage).1
        have hthreshold := c.rpgThreshold.toNat_lt
        refine iff_of_true ((hcounted _).rprFastByte hstage) ⟨?_, fun hactive => ?_⟩
        · dsimp only at hbyte
          omega
        · rw [hactive.1] at hstage
          cases hstage
      next hstage =>
        rw [(hcounted (f.txBytes - size.toNat)).rprActiveByte_iff hstage]
        refine and_congr_right fun _ => not_congr ?_
        exact (and_iff_right hstage).symm
      next hstage =>
        rw [(hcounted (f.txBytes - size.toNat)).rprHyperByte_iff hpos hstage]
        refine (and_iff_left fun hactive => ?_).symm
        rw [hactive.1] at hstage
        cases hstage
    · simp only [hdue, if_false, and_false, false_imp_iff, iff_true]
      exact hcounted _

end Handlers

/-! ## Runs -/

theorem lazyInit_counters (f : RpFlow) : (f.lazyInit c).rpStage = f.rpStage ∧
    (f.lazyInit c).rpByteStage = f.rpByteStage ∧ (f.lazyInit c).rpTimeStage = f.rpTimeStage ∧
      (f.lazyInit c).txBytes = f.txBytes := by
  unfold lazyInit
  split
  · exact ⟨rfl, rfl, rfl, rfl⟩
  · exact ⟨rfl, rfl, rfl, rfl⟩

theorem PhaseLaw.congr {g : RpFlow} (h : f.PhaseLaw c) (hstage : g.rpStage = f.rpStage)
    (hbyte : g.rpByteStage = f.rpByteStage) (htime : g.rpTimeStage = f.rpTimeStage) :
    g.PhaseLaw c := by
  unfold PhaseLaw
  rw [hstage, hbyte, htime]
  exact h

theorem PhaseLaw.lazyInit (h : f.PhaseLaw c) : (f.lazyInit c).PhaseLaw c :=
  h.congr (lazyInit_counters f).1 (lazyInit_counters f).2.1 (lazyInit_counters f).2.2.1

/-- A notification resets both counters, or touches none. -/
theorem PhaseLaw.receiveCnp (h : f.PhaseLaw c) (hpos : 1 ≤ c.rpgThreshold.toNat)
    (ecnbits : UInt8) (qfb : UInt16) : (f.receiveCnp c ecnbits qfb).PhaseLaw c := by
  have hinit := h.lazyInit
  unfold RpFlow.receiveCnp
  split
  · exact h
  · dsimp only
    split
    · intro _
      have hzero : (0 : UInt32) < c.rpgThreshold := UInt32.lt_iff_toNat_lt.mpr hpos
      exact (if_pos ⟨hzero, hzero⟩).symm
    · exact hinit

/-- One event keeps the law exactly if it meets the condition. -/
theorem PhaseLaw.step_iff (h : f.PhaseLaw c) (hpos : 1 ≤ c.rpgThreshold.toNat) {event : Event}
    {next : RpFlow} (hstep : step c f event = some next) :
    next.PhaseLaw c ↔ f.KeepsPhase c event := by
  cases event with
  | cnp ecnbits qfb =>
      obtain rfl := Option.some.inj hstep
      exact iff_of_true (h.receiveCnp hpos ecnbits qfb) trivial
  | transmit size =>
      obtain rfl := Option.some.inj hstep
      obtain ⟨hstage, hbyte, htime, htx⟩ := lazyInit_counters (c := c) f
      rw [h.lazyInit.byteCounter_iff hpos size]
      unfold KeepsPhase ByteExpires
      rw [hstage, hbyte, htime, htx]
  | rateTimer =>
      obtain rfl := Option.some.inj hstep
      exact h.rprTimerWrapper_iff hpos
  | alphaTimer =>
      obtain rfl := Option.some.inj hstep
      exact iff_of_true h trivial

/-- From a new flow on, the stage is the one for the counters throughout a run exactly if no
expiry of the byte counter finishes the active-increase stage and no counter wraps. -/
theorem phase_law_iff (hpos : 1 ≤ c.rpgThreshold.toNat) (events : List Event) :
    Throughout (step c) (PhaseLaw c) (new c) events ↔
      EachStep (step c) (fun f event _ => f.KeepsPhase c event) (new c) events := by
  have hnew : (new c).PhaseLaw c := fun hne => absurd rfl hne
  rw [throughout_iff_eachStep, and_iff_right hnew]
  apply eachStep_iff_of_invariant _ _ hnew
  · intro f event next h hstep
    exact h.step_iff hpos hstep
  · intro f event next h hstep hkeeps
    exact (h.step_iff hpos hstep).mpr hkeeps

/-- The byte counter reaches the threshold first, then the rate timer does. -/
theorem phase_law_iff_run : 1 ≤ dcqcn.rpgThreshold.toNat ∧
    (Throughout (step dcqcn) (PhaseLaw dcqcn) (new dcqcn) [.cnp 3 1, .transmit 1500, .rateTimer] ↔
      EachStep (step dcqcn) (fun f event _ => f.KeepsPhase dcqcn event) (new dcqcn)
        [.cnp 3 1, .transmit 1500, .rateTimer]) :=
  ⟨by decide, phase_law_iff (by decide) _⟩

/-- When the rate timer expires first, the expiry of the byte counter leaves both counters at
the threshold in the active-increase stage. -/
theorem timerFirst_staysActive :
    ¬ Throughout (step dcqcn) (PhaseLaw dcqcn) (new dcqcn)
      [.cnp 3 1, .rateTimer, .transmit 1500] := by
  intro h
  have hrun : (run (step dcqcn) (new dcqcn) [.cnp 3 1, .rateTimer, .transmit 1500]).any
      (fun f => f.rpStage = .activeIncrease ∧
        phase dcqcn.rpgThreshold f.rpByteStage f.rpTimeStage = .hyperIncrease) = true := by
    decide +kernel
  rw [Option.any_eq_true] at hrun
  obtain ⟨f, hrun, hf⟩ := hrun
  obtain ⟨hstage, hphase⟩ := of_decide_eq_true hf
  have hlaw := h.last hrun (by rw [hstage]; exact RpStage.noConfusion)
  rw [hstage, hphase] at hlaw
  cases hlaw

end RpFlow

end Ns3Rdma
