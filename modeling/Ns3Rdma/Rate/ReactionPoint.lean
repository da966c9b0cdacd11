import Mathlib.Data.UInt
import Ns3Rdma.Net.DataRate

/-! # The DCQCN reaction point

The rate of one throttled flow. Congestion notifications cut it; the byte counter and
the rate timer raise it again in three stages. There is one hop. -/

namespace Ns3Rdma

/-- Parameters of the reaction point, and the rate of the link. -/
structure RpConfig where
  bps : Nat
  minRate : Nat
  rai : Nat
  rhai : Nat
  g : ℚ
  rpgThreshold : UInt32
  bc : UInt32
  ecnClampTgtRate : Bool
  ecnClampTgtRateAfterTimeInc : Bool

/-- `m_rpStage`: 0 before the first notification, then 1, 2 and 3. -/
inductive RpStage where
  | idle
  | fastRecovery
  | activeIncrease
  | hyperIncrease
deriving DecidableEq

/-- The rate state of one flow. -/
structure RpFlow where
  rate : Nat
  rateAll : Nat
  targetRate : Nat
  alpha : ℚ
  rpStage : RpStage
  rpByteStage : UInt32
  rpTimeStage : UInt32
  txBytes : Int

namespace RpFlow

variable (c : RpConfig)

/-- A flow that has not sent. -/
def new : RpFlow where
  rate := 0
  rateAll := 0
  targetRate := 0
  alpha := 1 / 2
  rpStage := .idle
  rpByteStage := 0
  rpTimeStage := 0
  txBytes := c.bc.toNat

def lazyInit (f : RpFlow) : RpFlow :=
  if f.rate = 0 then { f with rate := c.bps, rateAll := c.bps, targetRate := c.bps } else f

/-! ## Rate increase -/

def adjustRates (f : RpFlow) (increase : Nat) : RpFlow :=
  let targetRate :=
    if (f.rpByteStage = 1 ∨ f.rpTimeStage = 1) ∧ DataRate.mul f.rateAll 10 < f.targetRate then
      DataRate.div f.targetRate 8
    else f.targetRate + increase
  let halves := DataRate.div f.rateAll 2 + DataRate.div targetRate 2
  let rateAll := if c.bps < halves then c.bps else halves
  { f with targetRate := targetRate, rateAll := rateAll, rate := min c.bps rateAll }

def rprFastRecovery (f : RpFlow) : RpFlow :=
  { f with rpStage := .fastRecovery }

def rprAdjustRates (f : RpFlow) : RpFlow :=
  (f.adjustRates c 0).rprFastRecovery

def rprActiveIncrease (f : RpFlow) : RpFlow :=
  { f.adjustRates c c.rai with rpStage := .activeIncrease }

/-- The factor of `m_rhai`, computed on 32-bit counters. -/
def hyperMultiplier (f : RpFlow) : UInt32 :=
  min f.rpByteStage f.rpTimeStage - c.rpgThreshold + 1

def rprHyperIncrease (f : RpFlow) : RpFlow :=
  { f.adjustRates c (DataRate.mul c.rhai (f.hyperMultiplier c).toNat) with
    rpStage := .hyperIncrease }

def rprActiveSelect (f : RpFlow) : RpFlow :=
  if f.rpByteStage < c.rpgThreshold ∨ f.rpTimeStage < c.rpgThreshold then f.rprActiveIncrease c
  else f.rprHyperIncrease c

/-- The counter updates that the three `rpr_*_byte` handlers start with. -/
def countBytes (f : RpFlow) (txBytes : UInt32) : RpFlow :=
  { f with rpByteStage := f.rpByteStage + 1, txBytes := txBytes.toNat }

/-- The counter update that the three `rpr_*_time` handlers start with. -/
def countTime (f : RpFlow) : RpFlow :=
  { f with rpTimeStage := f.rpTimeStage + 1 }

def rprFastByte (f : RpFlow) : RpFlow :=
  let f := f.countBytes c.bc
  if f.rpByteStage < c.rpgThreshold then f.rprAdjustRates c else f.rprActiveSelect c

def rprFastTime (f : RpFlow) : RpFlow :=
  let f := f.countTime
  if f.rpTimeStage < c.rpgThreshold then f.rprAdjustRates c else f.rprActiveSelect c

/-- Unlike `rpr_active_time`, this does not select. -/
def rprActiveByte (f : RpFlow) : RpFlow :=
  (f.countBytes c.bc).rprActiveIncrease c

def rprActiveTime (f : RpFlow) : RpFlow :=
  f.countTime.rprActiveSelect c

def rprHyperByte (f : RpFlow) : RpFlow :=
  (f.countBytes (c.bc / 2)).rprHyperIncrease c

def rprHyperTime (f : RpFlow) : RpFlow :=
  f.countTime.rprHyperIncrease c

def rprTimerWrapper (f : RpFlow) : RpFlow :=
  match f.rpStage with
  | .idle => f
  | .fastRecovery => f.rprFastTime c
  | .activeIncrease => f.rprActiveTime c
  | .hyperIncrease => f.rprHyperTime c

/-- The byte counter of `DequeueAndTransmit`. -/
def byteCounter (f : RpFlow) (size : UInt32) : RpFlow :=
  let txBytes := if f.rpStage = .idle then (c.bc.toNat : Int) else f.txBytes - size.toNat
  let f := { f with txBytes := txBytes }
  if txBytes < 0 then
    match f.rpStage with
    | .idle => f
    | .fastRecovery => f.rprFastByte c
    | .activeIncrease => f.rprActiveByte c
    | .hyperIncrease => f.rprHyperByte c
  else f

/-! ## Rate decrease -/

/-- Remember the current rate as the target. -/
def clampTarget (f : RpFlow) : RpFlow :=
  { f with targetRate := f.rateAll, txBytes := c.bc.toNat }

/-- The three clamp modes. -/
def clampTargetMode (f : RpFlow) : RpFlow :=
  if !c.ecnClampTgtRateAfterTimeInc && !c.ecnClampTgtRate then
    if f.rpByteStage ≠ 0 then f.clampTarget c else f
  else if c.ecnClampTgtRate then f.clampTarget c
  else if f.rpByteStage ≠ 0 ∨ f.rpTimeStage ≠ 0 then f.clampTarget c
  else f

def rprCnmReceived (f : RpFlow) : RpFlow :=
  let f := f.clampTargetMode c
  let alpha := (1 - c.g) * f.alpha + c.g
  rprFastRecovery { f with
    rpByteStage := 0
    rpTimeStage := 0
    alpha := alpha
    rateAll := max c.minRate (DataRate.mul f.rateAll (1 - alpha / 2)) }

def resumeAlpha (f : RpFlow) : RpFlow :=
  { f with alpha := (1 - c.g) * f.alpha }

/-- The `Receive` branch of a congestion notification that found the flow. -/
def receiveCnp (f : RpFlow) (ecnbits : UInt8) (qfb : UInt16) : RpFlow :=
  if qfb = 0 then f
  else
    let f := f.lazyInit c
    let f := if ecnbits = 3 then f.rprCnmReceived c else f
    { f with rate := min c.bps f.rateAll }

/-! ## Events -/

inductive Event where
  | cnp (ecnbits : UInt8) (qfb : UInt16)
  | transmit (size : UInt32)
  | rateTimer
  | alphaTimer

/-- The timers are free to expire at any moment. -/
def step (f : RpFlow) : Event → Option RpFlow
  | .cnp ecnbits qfb => some (f.receiveCnp c ecnbits qfb)
  | .transmit size => some ((f.lazyInit c).byteCounter c size)
  | .rateTimer => some (f.rprTimerWrapper c)
  | .alphaTimer => some (f.resumeAlpha c)

end RpFlow

end Ns3Rdma
