import Mathlib.Logic.Function.Basic
import Mathlib.Data.Fin.Basic
import Ns3Rdma.Lib.Word
import Ns3Rdma.Net.Packet

/-!
# The shared-buffer switch

Counters and admission functions of `BroadcomNode`. Counters are 32-bit words, so
every addition and subtraction below wraps as it does in the source. Quantities the
source holds in a `double` are integers there and are compared as integers here.
-/

namespace Ns3Rdma

/-- Size of the packet buffer, 9 MB; the source never changes it. -/
def maxBufferBytes : UInt32 := 9000000

/-- The limits a switch is configured with. -/
structure Thresholds where
  bufferCellLimitSp : UInt32
  pgMinCell : UInt32
  portMinCell : UInt32
  pgSharedLimitCell : UInt32
  portMaxSharedCell : UInt32
  pgHdrmLimit : UInt32
  portMinCellOff : UInt32
  pgSharedLimitCellOff : UInt32
  qMinCell : UInt32
  opUcPortConfig1Cell : UInt32
  opUcPortConfigCell : UInt32
  opBufferSharedLimitCell : UInt32
  pgSharedAlphaCell : Int
  pgSharedAlphaCellOffDiff : Int
  dynamicth : Bool
  enablePfcOnDctcp : Bool

/-- The limits set by the constructor. -/
def Thresholds.default : Thresholds where
  bufferCellLimitSp := 4000 * 1030
  pgMinCell := 1030
  portMinCell := 1030
  pgSharedLimitCell := 20 * 1030
  portMaxSharedCell := 4800 * 1030
  pgHdrmLimit := 100 * 1030
  portMinCellOff := 4700 * 1030
  pgSharedLimitCellOff := 20 * 1030 - 2 * 1030
  qMinCell := 1 * 1030
  opUcPortConfig1Cell := maxBufferBytes
  opUcPortConfigCell := maxBufferBytes
  opBufferSharedLimitCell := maxBufferBytes
  pgSharedAlphaCell := 16
  pgSharedAlphaCellOffDiff := 16
  dynamicth := false
  enablePfcOnDctcp := true

/-- The arguments of `SetBroadcomParams` that a modelled function reads back. -/
structure BroadcomParams where
  bufferCellLimitSp : UInt32
  pgMinCell : UInt32
  portMinCell : UInt32
  pgSharedLimitCell : UInt32
  portMaxSharedCell : UInt32
  pgHdrmLimit : UInt32
  qMinCell : UInt32
  opUcPortConfig1Cell : UInt32
  opUcPortConfigCell : UInt32
  opBufferSharedLimitCell : UInt32
  qSharedAlphaCell : UInt32

/-- The two resume thresholds and the resume offset keep their old values. -/
def Thresholds.setBroadcomParams (t : Thresholds) (p : BroadcomParams) : Thresholds :=
  { t with
    bufferCellLimitSp := p.bufferCellLimitSp
    pgMinCell := p.pgMinCell
    portMinCell := p.portMinCell
    pgSharedLimitCell := p.pgSharedLimitCell
    portMaxSharedCell := p.portMaxSharedCell
    pgHdrmLimit := p.pgHdrmLimit
    qMinCell := p.qMinCell
    opUcPortConfig1Cell := p.opUcPortConfig1Cell
    opUcPortConfigCell := p.opUcPortConfigCell
    opBufferSharedLimitCell := p.opBufferSharedLimitCell
    pgSharedAlphaCell := p.qSharedAlphaCell.toNat }

def Thresholds.setDynamicThreshold (t : Thresholds) : Thresholds :=
  { t with
    dynamicth := true
    pgSharedLimitCell := maxBufferBytes
    portMaxSharedCell := maxBufferBytes }

/-- Bytes charged on arrival: in all, by priority group, by port and by service pool. -/
structure IngressCounters where
  usedTotalBytes : UInt32
  usedIngressPGBytes : QueueId → UInt32
  usedIngressPortBytes : Fin pCnt → UInt32
  usedIngressSPBytes : Fin 4 → UInt32
  usedIngressPGHeadroomBytes : QueueId → UInt32

/-- Bytes charged on entering an egress queue: the guaranteed and the shared part of the
queue, and the shared bytes by port and by service pool. -/
structure EgressCounters where
  usedEgressQMinBytes : QueueId → UInt32
  usedEgressQSharedBytes : QueueId → UInt32
  usedEgressPortBytes : Fin pCnt → UInt32
  usedEgressSPBytes : Fin 4 → UInt32

/-- A switch: its limits, its buffer counters, and the classes it has paused upstream. -/
structure BroadcomNode extends Thresholds, IngressCounters, EgressCounters where
  pauseRemote : QueueId → Bool

namespace BroadcomNode

/-- A switch whose buffer is empty and that has paused nobody. -/
def start (t : Thresholds) : BroadcomNode where
  toThresholds := t
  usedTotalBytes := 0
  usedIngressPGBytes := fun _ => 0
  usedIngressPortBytes := fun _ => 0
  usedIngressSPBytes := fun _ => 0
  usedIngressPGHeadroomBytes := fun _ => 0
  usedEgressQMinBytes := fun _ => 0
  usedEgressQSharedBytes := fun _ => 0
  usedEgressPortBytes := fun _ => 0
  usedEgressSPBytes := fun _ => 0
  pauseRemote := fun _ => false

def getIngressSP (pg : QueueId) : Fin 4 :=
  if pg.2 = 1 then 1 else 0

def getEgressSP (q : QueueId) : Fin 4 :=
  if q.2 = 1 then 1 else 0

def checkIngressAdmission (b : BroadcomNode) (pg : QueueId) (psize : UInt32) : Bool :=
  if b.usedTotalBytes + psize > maxBufferBytes then
    false
  else if b.usedIngressPGBytes pg + psize > b.pgMinCell ∧
      b.usedIngressPortBytes pg.1 + psize > b.portMinCell then
    if b.usedIngressSPBytes (getIngressSP pg) > b.bufferCellLimitSp then
      if b.usedIngressPGHeadroomBytes pg + psize > b.pgHdrmLimit then false else true
    else true
  else true

def checkEgressAdmission (b : BroadcomNode) (q : QueueId) (psize : UInt32) : Bool :=
  if b.usedEgressSPBytes (getEgressSP q) + psize > b.opBufferSharedLimitCell then false
  else if b.usedEgressPortBytes q.1 + psize > b.opUcPortConfigCell then false
  else if b.usedEgressQSharedBytes q + psize > b.opUcPortConfig1Cell then false
  else true

def updateIngressAdmission (b : BroadcomNode) (pg : QueueId) (psize : UInt32) : BroadcomNode :=
  let sp := getIngressSP pg
  let poolBytes := b.usedIngressSPBytes sp + psize
  { b with
    usedTotalBytes := b.usedTotalBytes + psize
    usedIngressSPBytes := Function.update b.usedIngressSPBytes sp poolBytes
    usedIngressPortBytes :=
      Function.update b.usedIngressPortBytes pg.1 (b.usedIngressPortBytes pg.1 + psize)
    usedIngressPGBytes :=
      Function.update b.usedIngressPGBytes pg (b.usedIngressPGBytes pg + psize)
    usedIngressPGHeadroomBytes :=
      if poolBytes > b.bufferCellLimitSp then
        Function.update b.usedIngressPGHeadroomBytes pg (b.usedIngressPGHeadroomBytes pg + psize)
      else b.usedIngressPGHeadroomBytes }

def removeFromIngressAdmission (b : BroadcomNode) (pg : QueueId) (psize : UInt32) :
    BroadcomNode :=
  let sp := getIngressSP pg
  let headroom := b.usedIngressPGHeadroomBytes pg
  { b with
    usedTotalBytes := b.usedTotalBytes - psize
    usedIngressSPBytes :=
      Function.update b.usedIngressSPBytes sp (b.usedIngressSPBytes sp - psize)
    usedIngressPortBytes :=
      Function.update b.usedIngressPortBytes pg.1 (b.usedIngressPortBytes pg.1 - psize)
    usedIngressPGBytes :=
      Function.update b.usedIngressPGBytes pg (b.usedIngressPGBytes pg - psize)
    usedIngressPGHeadroomBytes :=
      -- the source compares in `double`, so this difference may be negative
      if (headroom.toNat : Int) - psize.toNat > 0 then
        Function.update b.usedIngressPGHeadroomBytes pg (headroom - psize)
      else Function.update b.usedIngressPGHeadroomBytes pg 0 }

/-- The "patch for different size of packets", made by both egress updates: refill the
guaranteed part of the queue to 1030 bytes out of its shared part. -/
def rebalance (b : BroadcomNode) (q : QueueId) : BroadcomNode :=
  let sp := getEgressSP q
  let min := b.usedEgressQMinBytes q
  if min < 1030 ∧ b.usedEgressQSharedBytes q > 1030 then
    { b with
      usedEgressQSharedBytes :=
        Function.update b.usedEgressQSharedBytes q (b.usedEgressQSharedBytes q - 1030 + min)
      usedEgressPortBytes :=
        Function.update b.usedEgressPortBytes q.1 (b.usedEgressPortBytes q.1 - 1030 + min)
      usedEgressSPBytes :=
        Function.update b.usedEgressSPBytes sp (b.usedEgressSPBytes sp - 1030 + min)
      usedEgressQMinBytes := Function.update b.usedEgressQMinBytes q 1030 }
  else b

/-- Charge a packet to the guaranteed part of its queue. -/
def chargeMin (b : BroadcomNode) (q : QueueId) (psize : UInt32) : BroadcomNode :=
  { b with
    usedEgressQMinBytes :=
      Function.update b.usedEgressQMinBytes q (b.usedEgressQMinBytes q + psize) }

/-- Charge a packet to the shared part of its queue, its port and its pool. -/
def chargeShared (b : BroadcomNode) (q : QueueId) (psize : UInt32) : BroadcomNode :=
  let sp := getEgressSP q
  { b with
    usedEgressQSharedBytes :=
      Function.update b.usedEgressQSharedBytes q (b.usedEgressQSharedBytes q + psize)
    usedEgressPortBytes :=
      Function.update b.usedEgressPortBytes q.1 (b.usedEgressPortBytes q.1 + psize)
    usedEgressSPBytes :=
      Function.update b.usedEgressSPBytes sp (b.usedEgressSPBytes sp + psize) }

def dischargeMin (b : BroadcomNode) (q : QueueId) (psize : UInt32) : BroadcomNode :=
  { b with
    usedEgressQMinBytes :=
      Function.update b.usedEgressQMinBytes q (b.usedEgressQMinBytes q - psize) }

/-- The pool is looked up with the ingress function here, as in the source. -/
def dischargeShared (b : BroadcomNode) (q : QueueId) (psize : UInt32) : BroadcomNode :=
  let sp := getIngressSP q
  { b with
    usedEgressQSharedBytes :=
      Function.update b.usedEgressQSharedBytes q (b.usedEgressQSharedBytes q - psize)
    usedEgressPortBytes :=
      Function.update b.usedEgressPortBytes q.1 (b.usedEgressPortBytes q.1 - psize)
    usedEgressSPBytes :=
      Function.update b.usedEgressSPBytes sp (b.usedEgressSPBytes sp - psize) }

def updateEgressAdmission (b : BroadcomNode) (q : QueueId) (psize : UInt32) : BroadcomNode :=
  if b.usedEgressQMinBytes q + psize < b.qMinCell then b.chargeMin q psize
  else (b.chargeShared q psize).rebalance q

def removeFromEgressAdmission (b : BroadcomNode) (q : QueueId) (psize : UInt32) :
    BroadcomNode :=
  if b.usedEgressQSharedBytes q ≥ psize then b.dischargeShared q psize
  else (b.dischargeMin q psize).rebalance q

/-- The classes of ingress port `pg.1` to pause, decided when a packet of class `pg.2`
arrived there. -/
def getPauseClasses (b : BroadcomNode) (pg : QueueId) : Fin qCnt → Bool :=
  if b.dynamicth then fun i =>
    if b.usedIngressPGBytes (pg.1, i) ≤ b.pgMinCell + b.portMinCell then false
    else if i = 1 ∧ !b.enablePfcOnDctcp then false
    else
      -- the pool is the one of the arriving class, also for the other classes
      decide ((b.usedIngressPGBytes (pg.1, i)).toNat - (b.pgMinCell.toNat : Int) -
          b.portMinCell.toNat >
        b.pgSharedAlphaCell * ((b.bufferCellLimitSp.toNat : Int) -
          (b.usedIngressSPBytes (getIngressSP pg)).toNat))
  else if b.usedIngressPortBytes pg.1 > b.portMaxSharedCell then
    -- the exemption of class 1 is overwritten by the statement after it
    fun _ => true
  else if b.usedIngressPGBytes pg > b.pgSharedLimitCell then
    if pg.2 = 1 ∧ !b.enablePfcOnDctcp then fun _ => false
    else fun i => decide (i = pg.2)
  else fun _ => false

def getResumeClasses (b : BroadcomNode) (pg : QueueId) : Bool :=
  if b.dynamicth then
    decide ((b.usedIngressPGBytes pg).toNat - (b.pgMinCell.toNat : Int) - b.portMinCell.toNat <
      b.pgSharedAlphaCell * ((b.bufferCellLimitSp.toNat : Int) -
        (b.usedIngressSPBytes (getIngressSP pg)).toNat - b.pgSharedAlphaCellOffDiff))
  else
    decide (b.usedIngressPGBytes pg < b.pgSharedLimitCellOff ∧
      b.usedIngressPortBytes pg.1 < b.portMinCellOff)

/-- The two pool lookups agree, so discharging a queue debits the pool it charged. -/
theorem getIngressSP_eq_getEgressSP (q : QueueId) : getIngressSP q = getEgressSP q := rfl

/-- The arriving packet is charged to the headroom of its group if it fills its pool
beyond the limit. -/
def ChargesHeadroom (b : BroadcomNode) (pg : QueueId) (psize : UInt32) : Prop :=
  b.usedIngressSPBytes (getIngressSP pg) + psize > b.bufferCellLimitSp

instance (b : BroadcomNode) (pg : QueueId) (psize : UInt32) :
    Decidable (b.ChargesHeadroom pg psize) :=
  inferInstanceAs (Decidable (_ > _))

theorem updateIngressAdmission_headroom (b : BroadcomNode) (pg : QueueId) (psize : UInt32)
    (i : QueueId) :
    (b.updateIngressAdmission pg psize).usedIngressPGHeadroomBytes i =
      if i = pg ∧ b.ChargesHeadroom pg psize then b.usedIngressPGHeadroomBytes pg + psize
      else b.usedIngressPGHeadroomBytes i := by
  unfold updateIngressAdmission ChargesHeadroom
  dsimp only
  by_cases hi : i = pg
  · subst hi
    split <;> simp_all
  · split <;> simp [hi]

theorem removeFromIngressAdmission_headroom (b : BroadcomNode) (pg : QueueId) (psize : UInt32)
    (i : QueueId) :
    ((b.removeFromIngressAdmission pg psize).usedIngressPGHeadroomBytes i).toNat =
      (b.usedIngressPGHeadroomBytes i).toNat - (if i = pg then psize.toNat else 0) := by
  unfold removeFromIngressAdmission
  dsimp only
  by_cases hi : i = pg
  · subst hi
    rw [if_pos rfl]
    split
    next hlt => rw [Function.update_self, UInt32.toNat_sub_of_toNat_le (by omega)]
    next hle =>
      rw [Function.update_self]
      show 0 = _
      omega
  · rw [if_neg hi, Nat.sub_zero]
    split <;> rw [Function.update_of_ne hi]

/-- Egress updates touch neither the limits nor the ingress counters. -/
theorem updateEgressAdmission_frame (b : BroadcomNode) (q : QueueId) (psize : UInt32) :
    (b.updateEgressAdmission q psize).toThresholds = b.toThresholds ∧
      (b.updateEgressAdmission q psize).toIngressCounters = b.toIngressCounters := by
  unfold updateEgressAdmission rebalance
  split
  · exact ⟨rfl, rfl⟩
  · dsimp only
    split <;> exact ⟨rfl, rfl⟩

theorem removeFromEgressAdmission_frame (b : BroadcomNode) (q : QueueId) (psize : UInt32) :
    (b.removeFromEgressAdmission q psize).toThresholds = b.toThresholds ∧
      (b.removeFromEgressAdmission q psize).toIngressCounters = b.toIngressCounters := by
  unfold removeFromEgressAdmission rebalance
  split
  · exact ⟨rfl, rfl⟩
  · dsimp only
    split <;> exact ⟨rfl, rfl⟩

theorem checkIngressAdmission_total {b : BroadcomNode} {pg : QueueId} {psize : UInt32}
    (h : b.checkIngressAdmission pg psize = true) :
    b.usedTotalBytes + psize ≤ maxBufferBytes := by
  unfold checkIngressAdmission at h
  split at h
  next => cases h
  next hle => exact UInt32.not_lt.mp hle

end BroadcomNode

end Ns3Rdma
