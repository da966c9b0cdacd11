import Mathlib.Data.UInt
import Mathlib.Data.Fintype.Basic
import Mathlib.Logic.Function.Basic

/-! # Access to the medium

`DcfManager` counts the back-off slots of its DCFs down while the medium is idle. It does so on
demand: `UpdateBackoff` subtracts the slots that have elapsed since the back-off start. Times are in
nanoseconds, and `none` stands for a failed assertion. -/

namespace Ns3Rdma.Wifi

/-- `MicroSeconds`. -/
def microSeconds (us : UInt32) : ℕ := us.toNat * 1000

structure DcfState where
  aifsn : UInt32
  backoffSlots : UInt32
  backoffStart : ℕ
  accessRequested : Bool
deriving DecidableEq

/-- What the manager remembers of the medium, and its parameters. -/
structure Medium where
  lastAckTimeoutEnd : ℕ
  lastCtsTimeoutEnd : ℕ
  lastNavStart : ℕ
  lastNavDuration : ℕ
  lastRxStart : ℕ
  lastRxDuration : ℕ
  lastRxReceivedOk : Bool
  lastRxEnd : ℕ
  lastTxStart : ℕ
  lastTxDuration : ℕ
  lastBusyStart : ℕ
  lastBusyDuration : ℕ
  lastSwitchingStart : ℕ
  lastSwitchingDuration : ℕ
  rxing : Bool
  eifsNoDifs : ℕ
  slotTimeUs : UInt32
  sifs : ℕ
deriving DecidableEq

namespace Medium

variable (m : Medium)

def isBusy (now : ℕ) : Bool :=
  m.rxing || decide (m.lastTxStart + m.lastTxDuration > now) ||
    decide (m.lastNavStart + m.lastNavDuration > now)

def rxAccessStart : ℕ :=
  if !m.rxing then
    m.lastRxEnd + m.sifs + (if !m.lastRxReceivedOk then m.eifsNoDifs else 0)
  else m.lastRxStart + m.lastRxDuration + m.sifs

def getAccessGrantStart : ℕ :=
  max (max (max m.rxAccessStart (m.lastBusyStart + m.lastBusyDuration + m.sifs))
      (max (m.lastTxStart + m.lastTxDuration + m.sifs)
        (m.lastNavStart + m.lastNavDuration + m.sifs)))
    (max (max (m.lastAckTimeoutEnd + m.sifs) (m.lastCtsTimeoutEnd + m.sifs))
      (m.lastSwitchingStart + m.lastSwitchingDuration + m.sifs))

variable (state : DcfState)

def getBackoffStartFor : ℕ :=
  max state.backoffStart (m.getAccessGrantStart + microSeconds (state.aifsn * m.slotTimeUs))

def getBackoffEndFor : ℕ :=
  m.getBackoffStartFor state + microSeconds (state.backoffSlots * m.slotTimeUs)

/-- The slots that `UpdateBackoff` subtracts, from the microseconds in 32 bits. -/
def slotsToSubtract (now : ℕ) : UInt32 :=
  let nus := UInt32.ofNat ((now - m.getBackoffStartFor state) / 1000)
  min (nus / m.slotTimeUs) state.backoffSlots

/-- The body of the loop of `UpdateBackoff`. -/
def updateBackoffOf (now : ℕ) : DcfState :=
  let backoffStart := m.getBackoffStartFor state
  if backoffStart ≤ now then
    let n := m.slotsToSubtract state now
    { state with
      backoffSlots := state.backoffSlots - n
      backoffStart := backoffStart + microSeconds (n * m.slotTimeUs) }
  else state

end Medium

/-- A manager with `count` DCFs in the order of their priority. -/
structure DcfManager (count : ℕ) where
  medium : Medium
  states : Fin count → DcfState

namespace DcfManager

variable {count : ℕ} (m : DcfManager count) (now : ℕ)

/-- The manager before anything has happened. -/
def new (slotTimeUs : UInt32) (sifs eifsNoDifs : ℕ) (aifsn : Fin count → UInt32) :
    DcfManager count where
  medium :=
    { lastAckTimeoutEnd := 0, lastCtsTimeoutEnd := 0, lastNavStart := 0, lastNavDuration := 0,
      lastRxStart := 0, lastRxDuration := 0, lastRxReceivedOk := true, lastRxEnd := 0,
      lastTxStart := 0, lastTxDuration := 0, lastBusyStart := 0, lastBusyDuration := 0,
      lastSwitchingStart := 0, lastSwitchingDuration := 0, rxing := false,
      eifsNoDifs := eifsNoDifs, slotTimeUs := slotTimeUs, sifs := sifs }
  states i := ⟨aifsn i, 0, 0, false⟩

def updateBackoff : DcfManager count :=
  { m with states := fun i => m.medium.updateBackoffOf (m.states i) now }

def setState (i : Fin count) (state : DcfState) : DcfManager count :=
  { m with states := Function.update m.states i state }

/-- `StartBackoffNow` asserts that no slots are left. -/
def startBackoffNow (i : Fin count) (nSlots : UInt32) : Option (DcfManager count) :=
  if (m.states i).backoffSlots = 0 then
    some (m.setState i { m.states i with backoffSlots := nSlots, backoffStart := now })
  else none

/-! ## Granting access -/

/-- The first DCF that has requested access and whose back-off has ended. -/
def granted : Option (Fin count) :=
  (List.finRange count).find? fun i =>
    (m.states i).accessRequested && decide (m.medium.getBackoffEndFor (m.states i) ≤ now)

def doGrantAccess : DcfManager count :=
  match m.granted now with
  | none => m
  | some i => m.setState i { m.states i with accessRequested := false }

/-- `NotifyAccessRequested`, which `RequestAccess` asserts is not done twice. -/
def notifyAccessRequested (i : Fin count) : Option (DcfManager count) :=
  if (m.states i).accessRequested = true then none
  else some (m.setState i { m.states i with accessRequested := true })

/-- On a collision the user starts a back-off of `collisionSlots`. -/
def notifyCollision (i : Fin count) (collisionSlots : UInt32) : Option (DcfManager count) :=
  if (m.states i).backoffSlots = 0 ∧ m.medium.isBusy now = true then
    m.startBackoffNow now i collisionSlots
  else some m

/-- `RequestAccess` up to `DoGrantAccess`. -/
def request (i : Fin count) (collisionSlots : UInt32) : Option (DcfManager count) :=
  ((m.updateBackoff now).notifyAccessRequested i).bind fun m =>
    m.notifyCollision now i collisionSlots

/-! ## Events -/

inductive Event (count : ℕ)
  | rxStart (duration : ℕ)
  | rxEndOk
  | rxEndError
  | txStart (duration : ℕ)
  | maybeCcaBusyStart (duration : ℕ)
  | navReset (duration : ℕ)
  | navStart (duration : ℕ)
  | ackTimeoutStart (duration : ℕ)
  | ackTimeoutReset
  | ctsTimeoutStart (duration : ℕ)
  | ctsTimeoutReset
  | requestAccess (i : Fin count) (collisionSlots : UInt32)
  | accessTimeout
  | startBackoff (i : Fin count) (nSlots : UInt32)

def notifyRxStartNow (duration : ℕ) : DcfManager count :=
  let m := m.updateBackoff now
  { m with medium := { m.medium with
      lastRxStart := now, lastRxDuration := duration, rxing := true } }

/-- `NotifyRxEndOkNow` and `NotifyRxEndErrorNow`. -/
def notifyRxEndNow (receivedOk : Bool) : DcfManager count :=
  { m with medium := { m.medium with
      lastRxEnd := now, lastRxReceivedOk := receivedOk, rxing := false } }

/-- A reception that has just begun is given up. -/
def abortRx : Option (DcfManager count) :=
  if m.medium.rxing then
    if now - m.medium.lastRxStart ≤ m.medium.sifs then
      some { m with medium := { m.medium with
        lastRxEnd := now, lastRxDuration := now - m.medium.lastRxStart,
        lastRxReceivedOk := true, rxing := false } }
    else none
  else some m

def notifyTxStartNow (duration : ℕ) : Option (DcfManager count) :=
  (m.abortRx now).map fun m =>
    let m := m.updateBackoff now
    { m with medium := { m.medium with lastTxStart := now, lastTxDuration := duration } }

def notifyMaybeCcaBusyStartNow (duration : ℕ) : DcfManager count :=
  let m := m.updateBackoff now
  { m with medium := { m.medium with lastBusyStart := now, lastBusyDuration := duration } }

def notifyNavResetNow (duration : ℕ) : DcfManager count :=
  let m := m.updateBackoff now
  let m := { m with medium := { m.medium with lastNavStart := now, lastNavDuration := duration } }
  m.updateBackoff now

def notifyNavStartNow (duration : ℕ) : Option (DcfManager count) :=
  if m.medium.lastNavStart < now then
    let m := m.updateBackoff now
    if now + duration > m.medium.lastNavStart + m.medium.lastNavDuration then
      some { m with medium := { m.medium with lastNavStart := now, lastNavDuration := duration } }
    else some m
  else none

def notifyAckTimeoutStartNow (duration : ℕ) : Option (DcfManager count) :=
  if m.medium.lastAckTimeoutEnd < now then
    some { m with medium := { m.medium with lastAckTimeoutEnd := now + duration } }
  else none

def notifyAckTimeoutResetNow : DcfManager count :=
  { m with medium := { m.medium with lastAckTimeoutEnd := now } }

def notifyCtsTimeoutStartNow (duration : ℕ) : DcfManager count :=
  { m with medium := { m.medium with lastCtsTimeoutEnd := now + duration } }

def notifyCtsTimeoutResetNow : DcfManager count :=
  { m with medium := { m.medium with lastCtsTimeoutEnd := now } }

/-- What an event does at a time. -/
def step : Event count → Option (DcfManager count)
  | .rxStart duration => some (m.notifyRxStartNow now duration)
  | .rxEndOk => some (m.notifyRxEndNow now true)
  | .rxEndError => some (m.notifyRxEndNow now false)
  | .txStart duration => m.notifyTxStartNow now duration
  | .maybeCcaBusyStart duration => some (m.notifyMaybeCcaBusyStartNow now duration)
  | .navReset duration => some (m.notifyNavResetNow now duration)
  | .navStart duration => m.notifyNavStartNow now duration
  | .ackTimeoutStart duration => m.notifyAckTimeoutStartNow now duration
  | .ackTimeoutReset => some (m.notifyAckTimeoutResetNow now)
  | .ctsTimeoutStart duration => some (m.notifyCtsTimeoutStartNow now duration)
  | .ctsTimeoutReset => some (m.notifyCtsTimeoutResetNow now)
  | .requestAccess i collisionSlots => (m.request now i collisionSlots).map (·.doGrantAccess now)
  | .accessTimeout => some ((m.updateBackoff now).doGrantAccess now)
  | .startBackoff i nSlots => m.startBackoffNow now i nSlots

/-- The DCF that an event grants access to. -/
def grants : Event count → Option (Fin count)
  | .requestAccess i collisionSlots =>
      (m.request now i collisionSlots).bind (·.granted now)
  | .accessTimeout => (m.updateBackoff now).granted now
  | _ => none

end DcfManager

end Ns3Rdma.Wifi
