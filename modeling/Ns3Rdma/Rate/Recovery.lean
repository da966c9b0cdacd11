import Ns3Rdma.Rate.Range

/-! # Recovery of the rate

A flow that gets no further congestion notifications leaves the fast recovery after as many expiries
of the rate timer as the threshold says. Every later expiry raises the target rate, until the flow
sends at the rate of the link. -/

namespace Ns3Rdma

open StepSystem

/-- What every increase behind the fast recovery adds to the target rate. -/
def RpConfig.gain (c : RpConfig) : ℕ := min c.rai c.rhai

namespace RpFlow

/-- A notification that cuts the rate. -/
def Event.Marked : Event → Prop
  | .cnp ecnbits qfb => ecnbits = 3 ∧ qfb ≠ 0
  | _ => False

def Event.isRateTimer : Event → Bool
  | .rateTimer => true
  | _ => false

variable (c : RpConfig)

/-- What `AdjustRates` does to the two rates. -/
structure Raised (f next : RpFlow) (increase : ℕ) : Prop where
  target : next.targetRate = f.targetRate + increase ∨
    10 * f.rateAll < f.targetRate ∧ next.targetRate = f.targetRate / 8
  rate : next.rateAll = min c.bps (f.rateAll / 2 + next.targetRate / 2)

/-- An expiry leaves the counters as they were set, and raises the rates in one of three stages. -/
structure Adjusted (f next : RpFlow) : Prop where
  byteStage : next.rpByteStage = f.rpByteStage
  timeStage : next.rpTimeStage = f.rpTimeStage
  raised : ∃ increase, Raised c f next increase ∧
    (next.rpStage = .fastRecovery ∨ next.rpStage = .activeIncrease ∧ increase = c.rai ∨
      next.rpStage = .hyperIncrease ∧
        increase = DataRate.mul c.rhai (next.hyperMultiplier c).toNat)

/-- The rates, the counters and the stage are as before. -/
structure Quiet (f next : RpFlow) : Prop where
  rateAll : next.rateAll = f.rateAll
  targetRate : next.targetRate = f.targetRate
  byteStage : next.rpByteStage = f.rpByteStage
  timeStage : next.rpTimeStage = f.rpTimeStage
  stage : next.rpStage = f.rpStage

/-- The flow sends at the rate of the link, and the target keeps it there. -/
def AtLineRate (f : RpFlow) : Prop :=
  f.rateAll = c.bps ∧ c.bps ≤ c.bps / 2 + f.targetRate / 2

/-- How far a flow has come since its rate was cut, after `timers` expiries of the rate timer. -/
def Progress (timers : ℕ) (f : RpFlow) : Prop :=
  f.AtLineRate c ∨
    f.rpStage = .fastRecovery ∧ f.rpTimeStage.toNat = timers ∧ timers < c.rpgThreshold.toNat ∨
    (f.rpStage = .activeIncrease ∨ f.rpStage = .hyperIncrease) ∧
      f.targetRate ≤ 2 * f.rateAll + 1 ∧ (timers - c.rpgThreshold.toNat) * c.gain ≤ f.targetRate

/-- The invariant of a flow whose rate was cut `count` events ago. -/
structure Recovering (timers count : ℕ) (f : RpFlow) : Prop where
  inRange : f.InRange c
  throttled : f.rpStage ≠ .idle
  byteStage : f.rpByteStage.toNat ≤ count
  timeStage : f.rpTimeStage.toNat ≤ count
  progress : f.Progress c timers

/-- The target rate and ten times the rate, which `AdjustRates` compares, fit the 64 bits of a rate,
so that the numbers here are those of the source. -/
def RatesFit (f : RpFlow) : Prop := f.targetRate < 2 ^ 64 ∧ 10 * f.rateAll < 2 ^ 64

instance : DecidablePred RatesFit := fun f =>
  inferInstanceAs (Decidable (f.targetRate < 2 ^ 64 ∧ 10 * f.rateAll < 2 ^ 64))

variable {c} {f next : RpFlow} {increase : ℕ}

/-! ## The increases -/

theorem adjustRates_raised (f : RpFlow) (increase : ℕ) :
    Raised c f (f.adjustRates c increase) increase := by
  refine ⟨?_, adjustRates_rateAll f increase⟩
  have hten := DataRate.mul_natCast f.rateAll 10
  have height := DataRate.div_natCast f.targetRate 8
  rw [Nat.cast_ofNat] at hten height
  unfold adjustRates
  dsimp only
  split
  next hcut =>
    rw [hten] at hcut
    exact Or.inr ⟨by omega, height⟩
  next => exact Or.inl rfl

theorem rprAdjustRates_adjusted (f : RpFlow) : Adjusted c f (f.rprAdjustRates c) := by
  obtain ⟨htarget, hrate⟩ := adjustRates_raised (c := c) f 0
  exact ⟨rfl, rfl, 0, ⟨htarget, hrate⟩, Or.inl rfl⟩

theorem rprActiveIncrease_adjusted (f : RpFlow) : Adjusted c f (f.rprActiveIncrease c) := by
  obtain ⟨htarget, hrate⟩ := adjustRates_raised (c := c) f c.rai
  exact ⟨rfl, rfl, c.rai, ⟨htarget, hrate⟩, Or.inr (Or.inl ⟨rfl, rfl⟩)⟩

theorem rprHyperIncrease_adjusted (f : RpFlow) : Adjusted c f (f.rprHyperIncrease c) := by
  obtain ⟨htarget, hrate⟩ :=
    adjustRates_raised (c := c) f (DataRate.mul c.rhai (f.hyperMultiplier c).toNat)
  exact ⟨rfl, rfl, _, ⟨htarget, hrate⟩, Or.inr (Or.inr ⟨rfl, rfl⟩)⟩

/-- The selection leaves the fast recovery. -/
theorem rprActiveSelect_adjusted (f : RpFlow) : Adjusted c f (f.rprActiveSelect c) ∧
    (f.rprActiveSelect c).rpStage ≠ .fastRecovery ∧ (f.rprActiveSelect c).rpStage ≠ .idle := by
  unfold rprActiveSelect
  split
  · exact ⟨rprActiveIncrease_adjusted f, RpStage.noConfusion, RpStage.noConfusion⟩
  · exact ⟨rprHyperIncrease_adjusted f, RpStage.noConfusion, RpStage.noConfusion⟩

/-- Every expiry of the rate timer raises the rates of a throttled flow. It stays in the fast
recovery below the threshold only. -/
theorem rprTimerWrapper_adjusted (hthrottled : f.rpStage ≠ .idle) :
    Adjusted c f.countTime (f.rprTimerWrapper c) ∧ (f.rprTimerWrapper c).rpStage ≠ .idle ∧
      ((f.rprTimerWrapper c).rpStage = .fastRecovery → f.rpStage = .fastRecovery ∧
        f.countTime.rpTimeStage < c.rpgThreshold) := by
  unfold rprTimerWrapper
  cases hstage : f.rpStage with
  | idle => exact absurd hstage hthrottled
  | fastRecovery =>
      dsimp only
      unfold rprFastTime
      dsimp only
      split
      next hbelow =>
        exact ⟨rprAdjustRates_adjusted _, RpStage.noConfusion, fun _ => ⟨rfl, hbelow⟩⟩
      next =>
        obtain ⟨hadjusted, hfast, hidle⟩ := rprActiveSelect_adjusted (c := c) f.countTime
        exact ⟨hadjusted, hidle, fun h => absurd h hfast⟩
  | activeIncrease =>
      obtain ⟨hadjusted, hfast, hidle⟩ := rprActiveSelect_adjusted (c := c) f.countTime
      exact ⟨hadjusted, hidle, fun h => absurd h hfast⟩
  | hyperIncrease =>
      exact ⟨rprHyperIncrease_adjusted _, RpStage.noConfusion, RpStage.noConfusion⟩

/-- A packet makes the byte counter expire or not. -/
theorem byteCounter_adjusted (hthrottled : f.rpStage ≠ .idle) (size : UInt32) :
    Quiet f (f.byteCounter c size) ∨
      (∃ txBytes, Adjusted c (f.countBytes txBytes) (f.byteCounter c size)) ∧
        (f.byteCounter c size).rpStage ≠ .idle ∧
        ((f.byteCounter c size).rpStage = .fastRecovery → f.rpStage = .fastRecovery) := by
  have hcount : ∀ txBytes : ℤ, ∀ bytes : UInt32,
      ({ f with txBytes := txBytes } : RpFlow).countBytes bytes = f.countBytes bytes :=
    fun _ _ => rfl
  unfold byteCounter
  dsimp only
  rw [if_neg hthrottled]
  split
  next =>
    right
    split
    next hstage => exact absurd hstage hthrottled
    next hstage =>
        unfold rprFastByte
        dsimp only
        rw [hcount]
        split
        · exact ⟨⟨c.bc, rprAdjustRates_adjusted _⟩, RpStage.noConfusion, fun _ => hstage⟩
        · obtain ⟨hadjusted, hfast, hidle⟩ := rprActiveSelect_adjusted (c := c) (f.countBytes c.bc)
          exact ⟨⟨c.bc, hadjusted⟩, hidle, fun h => absurd h hfast⟩
    next =>
        unfold rprActiveByte
        rw [hcount]
        exact ⟨⟨c.bc, rprActiveIncrease_adjusted _⟩, RpStage.noConfusion, RpStage.noConfusion⟩
    next =>
        unfold rprHyperByte
        rw [hcount]
        exact ⟨⟨c.bc / 2, rprHyperIncrease_adjusted _⟩, RpStage.noConfusion, RpStage.noConfusion⟩
  next => exact Or.inl ⟨rfl, rfl, rfl, rfl, rfl⟩

/-! ## Progress -/

theorem AtLineRate.raised (hbps : 4 ≤ c.bps) (h : f.AtLineRate c)
    (hraised : Raised c f next increase) : next.AtLineRate c := by
  obtain ⟨hrate, htarget⟩ := h
  obtain ⟨hnext, hnextRate⟩ := hraised
  unfold AtLineRate
  omega

theorem AtLineRate.quiet (h : f.AtLineRate c) (hquiet : Quiet f next) : next.AtLineRate c := by
  unfold AtLineRate
  rw [hquiet.rateAll, hquiet.targetRate]
  exact h

/-- After an expiry the target is at most twice the rate, unless the rate is that of the link. -/
theorem settled_of_raised (h : f.Bounded c) (hraised : Raised c f next increase) :
    next.AtLineRate c ∨ next.targetRate ≤ 2 * next.rateAll + 1 := by
  have hle := h.le_bps
  have hrate := hraised.rate
  unfold AtLineRate
  omega

/-- The target of a settled flow is not cut. -/
theorem target_of_settled (hmin : 0 < c.minRate) (h : f.Bounded c)
    (hsettled : f.targetRate ≤ 2 * f.rateAll + 1) (hraised : Raised c f next increase) :
    next.targetRate = f.targetRate + increase := by
  have hle := h.minRate_le
  rcases hraised.target with htarget | ⟨hcut, -⟩
  · exact htarget
  · omega

/-- An increase behind the fast recovery is no smaller than the gain. -/
theorem gain_le (h : next.InRange c)
    (hincrease : next.rpStage = .activeIncrease ∧ increase = c.rai ∨
      next.rpStage = .hyperIncrease ∧
        increase = DataRate.mul c.rhai (next.hyperMultiplier c).toNat) : c.gain ≤ increase := by
  rcases hincrease with ⟨-, rfl⟩ | ⟨hstage, rfl⟩
  · exact min_le_left _ _
  · obtain ⟨-, hmultiplier⟩ := h.multiplier hstage
    rw [DataRate.mul_natCast]
    calc
      c.gain ≤ c.rhai := min_le_right _ _
      _ ≤ c.rhai * (next.hyperMultiplier c).toNat := Nat.le_mul_of_pos_right _ (by omega)

/-- An expiry of the rate timer, or of the byte counter. -/
theorem Progress.adjusted {timers : ℕ} {counted : RpFlow} (hbps : 4 ≤ c.bps)
    (hmin : 0 < c.minRate) (hf : f.InRange c) (hnext : next.InRange c)
    (hprogress : f.Progress c timers) (hadjusted : Adjusted c counted next)
    (hrates : counted.rateAll = f.rateAll) (htarget : counted.targetRate = f.targetRate)
    (step : ℕ) (hstep : step ≤ 1) (hfast : next.rpStage = .fastRecovery →
      f.rpStage = .fastRecovery ∧
        (f.rpTimeStage.toNat = timers → timers < c.rpgThreshold.toNat →
          next.rpTimeStage.toNat = timers + step ∧ timers + step < c.rpgThreshold.toNat)) :
    next.Progress c (timers + step) := by
  obtain ⟨-, -, increase, ⟨hraisedTarget, hraisedRate⟩, hstage⟩ := hadjusted
  rw [hrates, htarget] at hraisedTarget
  rw [hrates] at hraisedRate
  have hraised : Raised c f next increase := ⟨hraisedTarget, hraisedRate⟩
  rcases hprogress with hline | ⟨hstageFast, htime, hbelow⟩ | ⟨hstageAfter, hsettled, hgained⟩
  · exact Or.inl (hline.raised hbps hraised)
  · rcases hstage with hfastNext | hafter
    · obtain ⟨-, hcounters⟩ := hfast hfastNext
      exact Or.inr (Or.inl ⟨hfastNext, hcounters htime hbelow⟩)
    · rcases settled_of_raised hf.toBounded hraised with hline | hsettled
      · exact Or.inl hline
      · refine Or.inr (Or.inr ⟨hafter.imp And.left And.left, hsettled, ?_⟩)
        have hzero : timers + step - c.rpgThreshold.toNat = 0 := by omega
        rw [hzero, Nat.zero_mul]
        exact Nat.zero_le _
  · rcases hstage with hfastNext | hafter
    · obtain ⟨hfastBefore, -⟩ := hfast hfastNext
      rw [hfastBefore] at hstageAfter
      rcases hstageAfter with h | h <;> cases h
    · rcases settled_of_raised hf.toBounded hraised with hline | hsettledNext
      · exact Or.inl hline
      · refine Or.inr (Or.inr ⟨hafter.imp And.left And.left, hsettledNext, ?_⟩)
        have hincrease := gain_le hnext hafter
        calc
          (timers + step - c.rpgThreshold.toNat) * c.gain
              ≤ (timers - c.rpgThreshold.toNat + 1) * c.gain :=
            Nat.mul_le_mul_right _ (by omega)
          _ = (timers - c.rpgThreshold.toNat) * c.gain + c.gain := Nat.succ_mul _ _
          _ ≤ f.targetRate + increase := Nat.add_le_add hgained hincrease
          _ = next.targetRate := (target_of_settled hmin hf.toBounded hsettled hraised).symm

theorem Progress.quiet {timers : ℕ} (hprogress : f.Progress c timers) (hquiet : Quiet f next) :
    next.Progress c timers := by
  unfold Progress at hprogress ⊢
  rw [hquiet.stage, hquiet.timeStage, hquiet.rateAll, hquiet.targetRate]
  exact hprogress.imp_left fun hline => hline.quiet hquiet

theorem Recovering.quiet {timers count : ℕ} (h : f.Recovering c timers count)
    (hquiet : Quiet f next) (hnext : next.InRange c) : next.Recovering c timers (count + 1) := by
  refine ⟨hnext, ?_, ?_, ?_, h.progress.quiet hquiet⟩
  · rw [hquiet.stage]
    exact h.throttled
  · rw [hquiet.byteStage]
    exact Nat.le_succ_of_le h.byteStage
  · rw [hquiet.timeStage]
    exact Nat.le_succ_of_le h.timeStage

/-- A flow in range sends, so it is not set up again. -/
theorem lazyInit_eq (hc : c.Admissible) (hmin : 0 < c.minRate) (h : f.InRange c) :
    f.lazyInit c = f := by
  have hrate := h.rate_eq
  have hle := h.minRate_le
  have hbps := hc.minRate_le
  exact if_neg (by omega)

theorem toNat_succ_of_lt {a : UInt32} {n : ℕ} (h : a.toNat ≤ n) (hn : n + 1 < 2 ^ 32) :
    (a + 1).toNat = a.toNat + 1 := by
  have hone : (1 : UInt32).toNat = 1 := rfl
  rw [UInt32.toNat_add_of_lt (by omega), hone]

theorem step_recovering (hc : c.Admissible) (hbps : 4 ≤ c.bps) (hmin : 0 < c.minRate)
    {timers count : ℕ} {event : Event} (h : f.Recovering c timers count)
    (hcount : count + 1 < 2 ^ 32) (hevent : ¬ event.Marked)
    (hstep : step c f event = some next) :
    next.Recovering c (timers + if event.isRateTimer then 1 else 0) (count + 1) := by
  have hbyte := h.byteStage
  have htime := h.timeStage
  have hfits : f.CounterFits event := by
    cases event with
    | transmit size => exact fun _ => by omega
    | rateTimer => exact fun _ => by omega
    | cnp ecnbits qfb => trivial
    | alphaTimer => trivial
  have hnext : next.InRange c := step_inRange hc h.inRange hstep hfits
  have hlazy := lazyInit_eq hc hmin h.inRange
  cases event with
  | cnp ecnbits qfb =>
      obtain rfl := Option.some.inj hstep
      refine h.quiet ?_ hnext
      unfold receiveCnp
      split
      next => exact ⟨rfl, rfl, rfl, rfl, rfl⟩
      next hqfb =>
        dsimp only
        rw [hlazy, if_neg fun hmarked => hevent ⟨hmarked, hqfb⟩]
        exact ⟨rfl, rfl, rfl, rfl, rfl⟩
  | transmit size =>
      unfold step at hstep
      rw [hlazy] at hstep
      obtain rfl := Option.some.inj hstep
      rcases byteCounter_adjusted h.throttled size with
        hquiet | ⟨⟨txBytes, hadjusted⟩, hidle, hfast⟩
      · exact h.quiet hquiet hnext
      · have hbyteNext : (f.byteCounter c size).rpByteStage = f.rpByteStage + 1 :=
          hadjusted.byteStage
        have htimeNext : (f.byteCounter c size).rpTimeStage = f.rpTimeStage := hadjusted.timeStage
        refine ⟨hnext, hidle, ?_, ?_, ?_⟩
        · rw [hbyteNext, toNat_succ_of_lt hbyte hcount]
          omega
        · rw [htimeNext]
          omega
        · refine Progress.adjusted hbps hmin h.inRange hnext h.progress hadjusted rfl rfl 0
            (Nat.zero_le _) fun hstage => ⟨hfast hstage, fun hbefore hbelow => ?_⟩
          rw [htimeNext]
          exact ⟨hbefore, hbelow⟩
  | rateTimer =>
      obtain rfl := Option.some.inj hstep
      obtain ⟨hadjusted, hidle, hfast⟩ := rprTimerWrapper_adjusted (c := c) h.throttled
      have hbyteNext : (f.rprTimerWrapper c).rpByteStage = f.rpByteStage := hadjusted.byteStage
      have htimeNext : (f.rprTimerWrapper c).rpTimeStage = f.rpTimeStage + 1 :=
        hadjusted.timeStage
      have hsucc := toNat_succ_of_lt htime hcount
      refine ⟨hnext, hidle, ?_, ?_, ?_⟩
      · rw [hbyteNext]
        omega
      · rw [htimeNext, hsucc]
        omega
      · refine Progress.adjusted hbps hmin h.inRange hnext h.progress hadjusted rfl rfl 1 le_rfl
          fun hstage => ?_
        obtain ⟨hbefore, hbelow⟩ := hfast hstage
        have hlt : (f.rpTimeStage + 1).toNat < c.rpgThreshold.toNat :=
          UInt32.lt_iff_toNat_lt.mp hbelow
        refine ⟨hbefore, fun htimers _ => ?_⟩
        rw [htimeNext, hsucc, htimers]
        rw [hsucc, htimers] at hlt
        exact ⟨rfl, hlt⟩
  | alphaTimer =>
      obtain rfl := Option.some.inj hstep
      exact h.quiet ⟨rfl, rfl, rfl, rfl, rfl⟩ hnext

/-! ## The whole recovery -/

/-- The events are never refused. -/
theorem exists_run (f : RpFlow) (events : List Event) :
    ∃ final, run (step c) f events = some final := by
  induction events generalizing f with
  | nil => exact ⟨f, rfl⟩
  | cons event rest ih =>
      have hstep : ∃ next, step c f event = some next := by
        cases event <;> exact ⟨_, rfl⟩
      obtain ⟨next, hstep⟩ := hstep
      obtain ⟨final, hfinal⟩ := ih next
      exact ⟨final, (run_cons_of_step rest hstep).trans hfinal⟩

theorem run_recovering (hc : c.Admissible) (hbps : 4 ≤ c.bps) (hmin : 0 < c.minRate)
    {timers count : ℕ} {events : List Event} {final : RpFlow} (h : f.Recovering c timers count)
    (hcount : count + events.length < 2 ^ 32) (hevents : ∀ event ∈ events, ¬ event.Marked)
    (hrun : run (step c) f events = some final) :
    final.Recovering c (timers + events.countP Event.isRateTimer) (count + events.length) := by
  induction events generalizing f timers count with
  | nil =>
      obtain rfl := Option.some.inj hrun
      exact h
  | cons event rest ih =>
      rw [run_cons, Option.bind_eq_some_iff] at hrun
      obtain ⟨next, hstep, hrest⟩ := hrun
      rw [List.length_cons] at hcount ⊢
      have hnext := step_recovering hc hbps hmin h (by omega) (hevents event List.mem_cons_self)
        hstep
      have hfinal := ih hnext (by omega) (fun e he => hevents e (List.mem_cons_of_mem _ he)) hrest
      rw [List.countP_cons]
      convert hfinal using 1 <;> omega

/-- The rate that a notification has cut. -/
theorem receiveCnp_recovering (hc : c.Admissible) (h : f.InRange c)
    {qfb : UInt16} (hqfb : qfb ≠ 0) : (f.receiveCnp c 3 qfb).Recovering c 0 0 := by
  have hnext := receiveCnp_inRange hc h 3 qfb
  have hstage : (f.receiveCnp c 3 qfb).rpStage = .fastRecovery ∧
      (f.receiveCnp c 3 qfb).rpByteStage = 0 ∧ (f.receiveCnp c 3 qfb).rpTimeStage = 0 := by
    unfold receiveCnp
    rw [if_neg hqfb]
    exact ⟨rfl, rfl, rfl⟩
  obtain ⟨hfast, hbyte, htime⟩ := hstage
  refine ⟨hnext, ?_, ?_, ?_, Or.inr (Or.inl ⟨hfast, ?_, hc.threshold_pos⟩)⟩
  · rw [hfast]
    exact RpStage.noConfusion
  · rw [hbyte]
    exact le_rfl
  · rw [htime]
    exact le_rfl
  · rw [htime]
    rfl

/-- Enough expiries of the rate timer bring the flow back to the rate of the link. -/
theorem Recovering.rate_eq {timers count : ℕ} (h : f.Recovering c timers count)
    (hbps : 0 < c.bps)
    (htimers : 2 * c.bps ≤ (timers - c.rpgThreshold.toNat) * c.gain) : f.rate = c.bps := by
  have hrate := h.inRange.rate_eq
  have hle := h.inRange.le_bps
  rcases h.progress with ⟨hline, -⟩ | ⟨-, -, hbelow⟩ | ⟨-, hsettled, hgained⟩
  · omega
  · rw [Nat.sub_eq_zero_of_le hbelow.le, Nat.zero_mul] at htimers
    omega
  · omega

/-- When no further notification cuts the rate, the flow is back at the rate of the link after a
number of expiries of the rate timer that depends on the parameters only, and it stays there,
whatever the byte counter and the other events do in between. The target rate is not clamped, so the
run has to be one that the 64 bits of a rate are enough for. -/
theorem recovers (hc : c.Admissible) (hbps : 4 ≤ c.bps) (hmin : 0 < c.minRate)
    {before events : List Event} {qfb : UInt16}
    (_hrates : Throughout (step c) RatesFit (start c) (before ++ .cnp 3 qfb :: events))
    (hfits : EachStep (step c) (fun f event _ => f.CounterFits event) (start c) before)
    (hqfb : qfb ≠ 0) (hevents : ∀ event ∈ events, ¬ event.Marked)
    (hlength : events.length < 2 ^ 32)
    (htimers : 2 * c.bps ≤
      (events.countP Event.isRateTimer - c.rpgThreshold.toNat) * c.gain) :
    ∃ final, run (step c) (start c) (before ++ .cnp 3 qfb :: events) = some final ∧
      final.rate = c.bps := by
  obtain ⟨f, hbefore⟩ := exists_run (c := c) (start c) before
  have hrange : Throughout (step c) (InRange c) (start c) before :=
    throughout_of_eachStep (fun f event next h hstep hfit => step_inRange hc h hstep hfit)
      (start_inRange hc) hfits
  have hf : f.InRange c := hrange.last hbefore
  obtain ⟨final, hfinal⟩ := exists_run (c := c) (f.receiveCnp c 3 qfb) events
  refine ⟨final, run_trans hbefore ((run_cons_of_step events rfl).trans hfinal), ?_⟩
  have hrecovering := run_recovering hc hbps hmin (receiveCnp_recovering hc hf hqfb)
    (by omega) hevents hfinal
  rw [Nat.zero_add, Nat.zero_add] at hrecovering
  exact hrecovering.rate_eq (by omega) htimers

/-- The parameters with increases of half the rate of the link. -/
def halfSteps : RpConfig := { dcqcn with rai := 5000000000, rhai := 5000000000 }

theorem halfSteps_admissible : halfSteps.Admissible where
  g_nonneg := dcqcn_admissible.g_nonneg
  g_le_one := dcqcn_admissible.g_le_one
  minRate_even := dcqcn_admissible.minRate_even
  minRate_le := dcqcn_admissible.minRate_le
  threshold_pos := dcqcn_admissible.threshold_pos

/-- Byte counter and rate timer take turns, and the fifth expiry of the timer is enough. -/
def fiveTimers : List Event :=
  [.rateTimer, .transmit 1500, .rateTimer, .alphaTimer, .rateTimer, .cnp 1 1, .transmit 1500,
    .rateTimer, .rateTimer]

theorem recovers_fiveTimers : ∃ final, run (step halfSteps) (start halfSteps)
    ([.transmit 1500, .rateTimer] ++ .cnp 3 1 :: fiveTimers) = some final ∧
      final.rate = 10000000000 := by
  have hrates : Throughout (step halfSteps) RatesFit (start halfSteps)
      ([.transmit 1500, .rateTimer] ++ .cnp 3 1 :: fiveTimers) :=
    throughout_of_take (by decide +kernel)
  have hidle : Throughout (step halfSteps) (fun f => f.rpStage = .idle) (start halfSteps)
      [.transmit 1500, .rateTimer] := throughout_of_take (by decide +kernel)
  refine recovers halfSteps_admissible (by decide) (by decide) hrates (hidle.eachStep ?_)
    (by decide) ?_ (by decide) (by decide)
  · rintro f event - hstage
    cases event with
    | cnp ecnbits qfb => trivial
    | transmit size => exact fun h => absurd (hstage.symm.trans h) RpStage.noConfusion
    | rateTimer => exact fun h => absurd (hstage.symm.trans h) RpStage.noConfusion
    | alphaTimer => trivial
  · unfold fiveTimers
    simp [Event.Marked]

end RpFlow

end Ns3Rdma
