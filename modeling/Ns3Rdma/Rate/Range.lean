import Mathlib.Tactic.Linarith
import Mathlib.Tactic.Positivity
import Ns3Rdma.Lib.StepSystem
import Ns3Rdma.Lib.Word
import Ns3Rdma.Rate.ReactionPoint

/-! # Rates stay in range

The invariant of the reaction point bounds the rates, the gain and, in the hyper-increase
stage, both counters from below. -/

namespace Ns3Rdma

open StepSystem

/-- The assumptions on the parameters. -/
structure RpConfig.Admissible (c : RpConfig) : Prop where
  g_nonneg : 0 ≤ c.g
  g_le_one : c.g ≤ 1
  minRate_even : 2 ∣ c.minRate
  minRate_le : c.minRate ≤ c.bps
  threshold_pos : 1 ≤ c.rpgThreshold.toNat

namespace RpFlow

variable (c : RpConfig)

/-- A flow at its first packet. -/
def start : RpFlow := (new c).lazyInit c

/-- Both counters have reached the threshold, and the multiplier is exact. -/
def MultiplierExact (f : RpFlow) : Prop :=
  c.rpgThreshold.toNat ≤ (min f.rpByteStage f.rpTimeStage).toNat ∧
    (f.hyperMultiplier c).toNat =
      (min f.rpByteStage f.rpTimeStage).toNat - c.rpgThreshold.toNat + 1

/-- The rates and the gain are bounded. -/
structure Bounded (f : RpFlow) : Prop where
  minRate_le : c.minRate ≤ f.rateAll
  le_bps : f.rateAll ≤ c.bps
  le_target : f.rateAll ≤ f.targetRate
  alpha_nonneg : 0 ≤ f.alpha
  alpha_le_one : f.alpha ≤ 1

/-- The rates, the gain and the multiplier of the last hyper increase are in range. A byte or
timer event that ends in the hyper-increase stage has just used the multiplier of the counters
it leaves behind. -/
structure InRange (f : RpFlow) : Prop extends Bounded c f where
  rate_eq : f.rate = min c.bps f.rateAll
  multiplier : f.rpStage = .hyperIncrease → f.MultiplierExact c

/-- The counter that an event of the hyper-increase stage increments does not wrap. -/
def CounterFits (f : RpFlow) : Event → Prop
  | .transmit _ => f.rpStage = .hyperIncrease → f.rpByteStage.toNat + 1 < 2 ^ 32
  | .rateTimer => f.rpStage = .hyperIncrease → f.rpTimeStage.toNat + 1 < 2 ^ 32
  | _ => True

variable {c} {f : RpFlow}

theorem le_min_toNat {a b : UInt32} {n : Nat} :
    n ≤ (min a b).toNat ↔ n ≤ a.toNat ∧ n ≤ b.toNat := by
  change n ≤ (if a ≤ b then a else b).toNat ↔ _
  split
  next h =>
    rw [UInt32.le_iff_toNat_le] at h
    omega
  next h =>
    rw [UInt32.le_iff_toNat_le] at h
    omega

/-- Two counters at or above a positive threshold make the multiplier exact. -/
theorem multiplierExact_iff (hc : c.Admissible) : f.MultiplierExact c ↔
    c.rpgThreshold.toNat ≤ f.rpByteStage.toNat ∧ c.rpgThreshold.toNat ≤ f.rpTimeStage.toNat := by
  unfold MultiplierExact
  rw [← le_min_toNat]
  refine and_iff_left_of_imp fun hle => ?_
  have hpos := hc.threshold_pos
  have hlt := UInt32.toNat_lt (min f.rpByteStage f.rpTimeStage)
  have hone : (1 : UInt32).toNat = 1 := rfl
  have hsub := UInt32.toNat_sub_of_toNat_le hle
  rw [hyperMultiplier, UInt32.toNat_add_of_lt (by omega), hsub, hone]

/-! ## Rate increase -/

theorem clamp_eq_min (bound rate : Nat) :
    (if bound < rate then bound else rate) = min bound rate := by
  split <;> omega

theorem adjustRates_rateAll (f : RpFlow) (increase : Nat) :
    (f.adjustRates c increase).rateAll =
      min c.bps (f.rateAll / 2 + (f.adjustRates c increase).targetRate / 2) := by
  have hhalf := fun d => DataRate.div_natCast d 2
  simp only [Nat.cast_ofNat] at hhalf
  unfold adjustRates
  dsimp only
  rw [clamp_eq_min, hhalf, hhalf]

/-- The new target of `AdjustRates` is no lower than the current rate, also after the cut. -/
theorem rateAll_le_adjusted (h : f.rateAll ≤ f.targetRate) (increase : Nat) :
    f.rateAll ≤ (f.adjustRates c increase).targetRate := by
  have hten := DataRate.mul_natCast f.rateAll 10
  have height := DataRate.div_natCast f.targetRate 8
  rw [Nat.cast_ofNat] at hten height
  unfold adjustRates
  dsimp only
  split
  next hcut =>
    rw [hten] at hcut
    rw [height]
    omega
  next => omega

theorem adjustRates_bounded (hc : c.Admissible) (h : f.Bounded c) (increase : Nat) :
    (f.adjustRates c increase).Bounded c := by
  obtain ⟨half, hhalf⟩ := hc.minRate_even
  have hmin := h.minRate_le
  have hminBps := hc.minRate_le
  have htarget := rateAll_le_adjusted (c := c) h.le_target increase
  have hrate := adjustRates_rateAll (c := c) f increase
  refine ⟨?_, ?_, ?_, h.alpha_nonneg, h.alpha_le_one⟩ <;> omega

/-- The three increases: adjust the rates, then enter a stage. -/
theorem adjustRates_inRange (hc : c.Admissible) (h : f.Bounded c) (increase : Nat)
    {stage : RpStage} (hstage : stage = .hyperIncrease → f.MultiplierExact c) :
    InRange c { f.adjustRates c increase with rpStage := stage } := by
  have hb := adjustRates_bounded hc h increase
  exact ⟨⟨hb.minRate_le, hb.le_bps, hb.le_target, hb.alpha_nonneg, hb.alpha_le_one⟩, rfl, hstage⟩

theorem rprAdjustRates_inRange (hc : c.Admissible) (h : f.Bounded c) :
    (f.rprAdjustRates c).InRange c :=
  adjustRates_inRange hc h 0 (by simp)

theorem rprActiveIncrease_inRange (hc : c.Admissible) (h : f.Bounded c) :
    (f.rprActiveIncrease c).InRange c :=
  adjustRates_inRange hc h c.rai (by simp)

theorem rprHyperIncrease_inRange (hc : c.Admissible) (h : f.Bounded c)
    (hbyte : c.rpgThreshold.toNat ≤ f.rpByteStage.toNat)
    (htime : c.rpgThreshold.toNat ≤ f.rpTimeStage.toNat) :
    (f.rprHyperIncrease c).InRange c :=
  adjustRates_inRange hc h _ fun _ => (multiplierExact_iff hc).mpr ⟨hbyte, htime⟩

theorem rprActiveSelect_inRange (hc : c.Admissible) (h : f.Bounded c) :
    (f.rprActiveSelect c).InRange c := by
  unfold rprActiveSelect
  split
  · exact rprActiveIncrease_inRange hc h
  next hreached =>
    rw [not_or, UInt32.lt_iff_toNat_lt, UInt32.lt_iff_toNat_lt, not_lt, not_lt] at hreached
    exact rprHyperIncrease_inRange hc h hreached.1 hreached.2

theorem countBytes_bounded (h : f.Bounded c) (txBytes : UInt32) :
    (f.countBytes txBytes).Bounded c :=
  ⟨h.minRate_le, h.le_bps, h.le_target, h.alpha_nonneg, h.alpha_le_one⟩

theorem countTime_bounded (h : f.Bounded c) : f.countTime.Bounded c :=
  ⟨h.minRate_le, h.le_bps, h.le_target, h.alpha_nonneg, h.alpha_le_one⟩

theorem rprFastByte_inRange (hc : c.Admissible) (h : f.Bounded c) : (f.rprFastByte c).InRange c := by
  have hcount := countBytes_bounded h c.bc
  unfold rprFastByte
  dsimp only
  split
  · exact rprAdjustRates_inRange hc hcount
  · exact rprActiveSelect_inRange hc hcount

theorem rprFastTime_inRange (hc : c.Admissible) (h : f.Bounded c) : (f.rprFastTime c).InRange c := by
  have hcount := countTime_bounded h
  unfold rprFastTime
  dsimp only
  split
  · exact rprAdjustRates_inRange hc hcount
  · exact rprActiveSelect_inRange hc hcount

theorem rprHyperByte_inRange (hc : c.Admissible) (h : f.Bounded c) (hexact : f.MultiplierExact c)
    (hfits : f.rpByteStage.toNat + 1 < 2 ^ 32) : (f.rprHyperByte c).InRange c := by
  rw [multiplierExact_iff hc] at hexact
  refine rprHyperIncrease_inRange hc (countBytes_bounded h _) ?_ hexact.2
  have hcount : (f.rpByteStage + 1).toNat = f.rpByteStage.toNat + 1 :=
    UInt32.toNat_add_of_lt hfits
  exact hexact.1.trans (by simp only [countBytes, hcount, Nat.le_add_right])

theorem rprHyperTime_inRange (hc : c.Admissible) (h : f.Bounded c) (hexact : f.MultiplierExact c)
    (hfits : f.rpTimeStage.toNat + 1 < 2 ^ 32) : (f.rprHyperTime c).InRange c := by
  rw [multiplierExact_iff hc] at hexact
  refine rprHyperIncrease_inRange hc (countTime_bounded h) hexact.1 ?_
  have hcount : (f.rpTimeStage + 1).toNat = f.rpTimeStage.toNat + 1 :=
    UInt32.toNat_add_of_lt hfits
  exact hexact.2.trans (by simp only [countTime, hcount, Nat.le_add_right])

theorem rprTimerWrapper_inRange (hc : c.Admissible) (h : f.InRange c)
    (hfits : f.CounterFits .rateTimer) : (f.rprTimerWrapper c).InRange c := by
  unfold rprTimerWrapper
  split
  next => exact h
  next => exact rprFastTime_inRange hc h.toBounded
  next => exact rprActiveSelect_inRange hc (countTime_bounded h.toBounded)
  next hstage => exact rprHyperTime_inRange hc h.toBounded (h.multiplier hstage) (hfits hstage)

theorem byteCounter_inRange (hc : c.Admissible) (h : f.InRange c) (size : UInt32)
    (hfits : f.rpStage = .hyperIncrease → f.rpByteStage.toNat + 1 < 2 ^ 32) :
    (f.byteCounter c size).InRange c := by
  have hcounted : ∀ txBytes, InRange c { f with txBytes := txBytes } := fun txBytes =>
    ⟨⟨h.minRate_le, h.le_bps, h.le_target, h.alpha_nonneg, h.alpha_le_one⟩, h.rate_eq, h.multiplier⟩
  unfold byteCounter
  dsimp only
  generalize (if f.rpStage = .idle then (c.bc.toNat : Int) else f.txBytes - size.toNat) = txBytes
  split
  · have hcount := hcounted txBytes
    split
    next => exact hcount
    next => exact rprFastByte_inRange hc hcount.toBounded
    next => exact rprActiveIncrease_inRange hc (countBytes_bounded hcount.toBounded c.bc)
    next hstage =>
      exact rprHyperByte_inRange hc hcount.toBounded (hcount.multiplier hstage) (hfits hstage)
  · exact hcounted _

/-! ## Rate decrease -/

theorem clampTargetMode_bounded (h : f.Bounded c) : (f.clampTargetMode c).Bounded c := by
  have hclamp : (f.clampTarget c).Bounded c :=
    ⟨h.minRate_le, h.le_bps, le_rfl, h.alpha_nonneg, h.alpha_le_one⟩
  unfold clampTargetMode
  split
  · split
    · exact hclamp
    · exact h
  · split
    · exact hclamp
    · split
      · exact hclamp
      · exact h

/-- The gain moves towards 1, and the cut never raises the rate. -/
theorem rprCnmReceived_bounded (hc : c.Admissible) (h : f.Bounded c) :
    (f.rprCnmReceived c).Bounded c := by
  have hb := clampTargetMode_bounded h
  have hg := hc.g_nonneg
  have hg' := hc.g_le_one
  have halpha := mul_nonneg (sub_nonneg.mpr hg') hb.alpha_nonneg
  have halpha' := mul_le_of_le_one_right (sub_nonneg.mpr hg') hb.alpha_le_one
  unfold rprCnmReceived rprFastRecovery
  dsimp only
  generalize f.clampTargetMode c = f at hb halpha halpha'
  have hcut := DataRate.mul_le f.rateAll (c := 1 - ((1 - c.g) * f.alpha + c.g) / 2) (by linarith)
  have hrate := max_le hb.minRate_le hcut
  refine ⟨le_max_left _ _, hrate.trans hb.le_bps, hrate.trans hb.le_target, ?_, ?_⟩
  · dsimp only
    linarith
  · dsimp only
    linarith

theorem resumeAlpha_inRange (hc : c.Admissible) (h : f.InRange c) :
    (f.resumeAlpha c).InRange c := by
  have hg := sub_nonneg.mpr hc.g_le_one
  have hle : 1 - c.g ≤ 1 := sub_le_self 1 hc.g_nonneg
  refine ⟨⟨h.minRate_le, h.le_bps, h.le_target, mul_nonneg hg h.alpha_nonneg, ?_⟩, h.rate_eq,
    h.multiplier⟩
  exact mul_le_one₀ hle h.alpha_nonneg h.alpha_le_one

theorem lazyInit_inRange (hc : c.Admissible) (h : f.InRange c) : (f.lazyInit c).InRange c := by
  unfold lazyInit
  split
  · exact ⟨⟨hc.minRate_le, le_rfl, le_rfl, h.alpha_nonneg, h.alpha_le_one⟩, (min_self _).symm,
      h.multiplier⟩
  · exact h

theorem receiveCnp_inRange (hc : c.Admissible) (h : f.InRange c) (ecnbits : UInt8)
    (qfb : UInt16) : (f.receiveCnp c ecnbits qfb).InRange c := by
  have hinit := lazyInit_inRange hc h
  unfold receiveCnp
  split
  · exact h
  · dsimp only
    split
    · have hb := rprCnmReceived_bounded hc hinit.toBounded
      exact ⟨⟨hb.minRate_le, hb.le_bps, hb.le_target, hb.alpha_nonneg, hb.alpha_le_one⟩, rfl,
        fun hstage => nomatch hstage⟩
    · exact ⟨⟨hinit.minRate_le, hinit.le_bps, hinit.le_target, hinit.alpha_nonneg,
        hinit.alpha_le_one⟩, rfl, hinit.multiplier⟩

/-! ## Runs -/

theorem start_inRange (hc : c.Admissible) : (start c).InRange c := by
  have hhalf : (0 : ℚ) ≤ 1 / 2 ∧ (1 / 2 : ℚ) ≤ 1 := by norm_num
  exact ⟨⟨hc.minRate_le, le_rfl, le_rfl, hhalf.1, hhalf.2⟩, (min_self _).symm,
    fun hstage => nomatch hstage⟩

theorem step_inRange (hc : c.Admissible) {event : Event} {next : RpFlow} (h : f.InRange c)
    (hstep : step c f event = some next) (hfits : f.CounterFits event) : next.InRange c := by
  cases event with
  | cnp ecnbits qfb =>
      obtain rfl := Option.some.inj hstep
      exact receiveCnp_inRange hc h ecnbits qfb
  | transmit size =>
      obtain rfl := Option.some.inj hstep
      refine byteCounter_inRange hc (lazyInit_inRange hc h) size ?_
      unfold lazyInit
      split
      · exact hfits
      · exact hfits
  | rateTimer =>
      obtain rfl := Option.some.inj hstep
      exact rprTimerWrapper_inRange hc h hfits
  | alphaTimer =>
      obtain rfl := Option.some.inj hstep
      exact resumeAlpha_inRange hc h

/-- From the first packet of a flow on, every run whose hyper-increase counters do not wrap
keeps the rates, the gain and the multiplier in range. -/
theorem rates_in_range (hc : c.Admissible) (events : List Event)
    (hfits : EachStep (step c) (fun f event _ => f.CounterFits event) (start c) events) :
    Throughout (step c) (InRange c) (start c) events := by
  refine throughout_of_eachStep (fun f event next h hstep hfit => ?_) (start_inRange hc) hfits
  exact step_inRange hc h hstep hfit

/-- A 10 Gb/s link with the default parameters, but a recovery threshold of 1 and a byte
counter that every full packet exhausts. -/
def dcqcn : RpConfig where
  bps := 10000000000
  minRate := 100000000
  rai := 5000000
  rhai := 50000000
  g := 1 / 16
  rpgThreshold := 1
  bc := 1000
  ecnClampTgtRate := false
  ecnClampTgtRateAfterTimeInc := false

theorem dcqcn_admissible : dcqcn.Admissible where
  g_nonneg := by decide +kernel
  g_le_one := by decide +kernel
  minRate_even := by decide
  minRate_le := by decide
  threshold_pos := by decide

/-- One notification, then increases up to the hyper-increase stage. -/
def warmUp : List Event := [.cnp 3 1, .rateTimer, .transmit 1500, .rateTimer]

theorem rates_in_range_run : Throughout (step dcqcn) (InRange dcqcn) (start dcqcn) warmUp := by
  have hsmall : Throughout (step dcqcn) (fun f => f.rpByteStage < 2 ∧ f.rpTimeStage < 3)
      (start dcqcn) warmUp := throughout_of_take (by decide +kernel)
  refine rates_in_range dcqcn_admissible warmUp (hsmall.eachStep ?_)
  rintro f event - ⟨hbyte, htime⟩
  rw [UInt32.lt_iff_toNat_lt] at hbyte htime
  have htwo : (2 : UInt32).toNat = 2 := rfl
  have hthree : (3 : UInt32).toNat = 3 := rfl
  cases event with
  | transmit size => exact fun _ => by omega
  | rateTimer => exact fun _ => by omega
  | cnp ecnbits qfb => trivial
  | alphaTimer => trivial

/-- `count` byte-counter expiries into the hyper-increase stage. -/
structure AtHyper (f : RpFlow) (count : Nat) : Prop where
  stage : f.rpStage = .hyperIncrease
  time : f.rpTimeStage = 2
  byte : f.rpByteStage = UInt32.ofNat count
  due : f.txBytes ≤ 1000
  target : f.targetRate ≤ 11000000000 + 100000000 * count

theorem adjustRates_target_le (f : RpFlow) (increase : Nat) :
    (f.adjustRates c increase).targetRate ≤ f.targetRate + increase := by
  have height := DataRate.div_natCast f.targetRate 8
  rw [Nat.cast_ofNat] at height
  unfold adjustRates
  dsimp only
  split
  · rw [height]
    omega
  · exact le_rfl

theorem byteCounter_hyper {size : UInt32} (hstage : f.rpStage = .hyperIncrease)
    (hdue : f.txBytes - size.toNat < 0) : f.byteCounter c size = f.rprHyperByte c := by
  unfold byteCounter
  simp only [hstage, reduceCtorEq, if_false, hdue, if_true]
  rfl

theorem hyperMultiplier_le (h : f.rpTimeStage = 2) : (f.hyperMultiplier dcqcn).toNat ≤ 2 := by
  have hone : f.hyperMultiplier dcqcn = min f.rpByteStage 2 := by
    rw [hyperMultiplier, h]
    exact UInt32.sub_add_cancel _ _
  rw [hone]
  exact (le_min_toNat.mp le_rfl).2

/-- Every further packet is an expiry that increments the byte counter. -/
theorem transmit_atHyper {count : Nat} (h : f.AtHyper count) :
    ((f.lazyInit dcqcn).byteCounter dcqcn 1500).AtHyper (count + 1) := by
  have hinit : (f.lazyInit dcqcn).AtHyper count := by
    unfold lazyInit
    split
    · exact ⟨h.stage, h.time, h.byte, h.due, by simp only [dcqcn]; omega⟩
    · exact h
  generalize f.lazyInit dcqcn = g at hinit
  have hdue : g.txBytes - ((1500 : UInt32).toNat : Int) < 0 := by
    have := hinit.due
    have : (1500 : UInt32).toNat = 1500 := rfl
    omega
  rw [byteCounter_hyper hinit.stage hdue]
  have hmult := hyperMultiplier_le (f := g.countBytes (dcqcn.bc / 2)) hinit.time
  have hincrease : DataRate.mul dcqcn.rhai
      ((g.countBytes (dcqcn.bc / 2)).hyperMultiplier dcqcn).toNat ≤ 50000000 * 2 := by
    rw [DataRate.mul_natCast]
    exact Nat.mul_le_mul_left dcqcn.rhai hmult
  refine ⟨rfl, hinit.time, ?_, ?_, ?_⟩
  · change g.rpByteStage + 1 = _
    rw [hinit.byte, UInt32.ofNat_add]
    rfl
  · change ((dcqcn.bc / 2).toNat : Int) ≤ 1000
    decide
  · have htarget : (g.countBytes (dcqcn.bc / 2)).targetRate ≤ 11000000000 + 100000000 * count :=
      hinit.target
    refine (adjustRates_target_le (c := dcqcn) (g.countBytes (dcqcn.bc / 2)) _).trans ?_
    omega

theorem transmits_atHyper {count n : Nat} (h : f.AtHyper count) (hn : count + n ≤ 2 ^ 32) :
    (∃ final, run (step dcqcn) f (List.replicate n (.transmit 1500)) = some final ∧
      final.AtHyper (count + n)) ∧
    EachStep (step dcqcn) (fun _ _ next => next.targetRate < 2 ^ 64) f
      (List.replicate n (.transmit 1500)) := by
  induction n generalizing f count with
  | zero => exact ⟨⟨f, rfl, h⟩, eachStep_nil f⟩
  | succ n ih =>
      have hnext := transmit_atHyper h
      have htarget := hnext.target
      obtain ⟨⟨final, hrun, hfinal⟩, heach⟩ := ih hnext (by omega)
      rw [List.replicate_succ]
      constructor
      · refine ⟨final, ?_, by rwa [show count + (n + 1) = count + 1 + n by omega]⟩
        rw [run_cons_of_step _ rfl, hrun]
      · rw [eachStep_cons]
        intro next hstep
        obtain rfl := Option.some.inj hstep
        exact ⟨by omega, heach⟩

/-- Without a second notification, expiries take the byte counter around once. -/
def wrapAround : List Event := warmUp ++ List.replicate (2 ^ 32 - 1) (.transmit 1500)

theorem warmUp_atHyper : ∃ f, run (step dcqcn) (start dcqcn) warmUp = some f ∧ f.AtHyper 1 := by
  have hrun : (run (step dcqcn) (start dcqcn) warmUp).map (fun f =>
      (f.rpStage, f.rpTimeStage, f.rpByteStage, f.txBytes, f.targetRate)) =
        some (.hyperIncrease, 2, 1, 1000, 10060000000) := by decide +kernel
  rw [Option.map_eq_some_iff] at hrun
  obtain ⟨f, hf, heq⟩ := hrun
  simp only [Prod.mk.injEq] at heq
  obtain ⟨hstage, htime, hbyte, hdue, htarget⟩ := heq
  exact ⟨f, hf, hstage, htime, hbyte, hdue.le, by omega⟩

/-- The byte counter then reads 0 in the hyper-increase stage, below the threshold. The target
rate never comes near 64 bits. -/
theorem wrapAround_outOfRange :
    dcqcn.Admissible ∧
      Throughout (step dcqcn) (fun f => f.targetRate < 2 ^ 64) (start dcqcn) wrapAround ∧
      ¬ Throughout (step dcqcn) (InRange dcqcn) (start dcqcn) wrapAround := by
  obtain ⟨middle, hwarm, hmiddle⟩ := warmUp_atHyper
  obtain ⟨⟨f, hrun, hf⟩, heach⟩ := transmits_atHyper (n := 2 ^ 32 - 1) hmiddle (by omega)
  have hstart : Throughout (step dcqcn) (fun f => f.targetRate < 2 ^ 64) (start dcqcn) warmUp :=
    throughout_of_take (by decide +kernel)
  rw [throughout_iff_eachStep] at hstart
  refine ⟨dcqcn_admissible, ?_, fun hrange => ?_⟩
  · exact throughout_iff_eachStep.mpr ⟨hstart.1, (eachStep_append hwarm).mpr ⟨hstart.2, heach⟩⟩
  · have hfinal := hrange.last (run_trans hwarm hrun)
    have hbyte := ((multiplierExact_iff dcqcn_admissible).mp (hfinal.multiplier hf.stage)).1
    rw [hf.byte] at hbyte
    exact absurd hbyte (by decide)

end RpFlow

end Ns3Rdma
