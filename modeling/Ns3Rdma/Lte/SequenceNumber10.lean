import Mathlib.Data.Fin.Basic

/-! # Sequence numbers of ten bits -/

namespace Ns3Rdma.Lte

/-- A number modulo 1024, and the base that it is compared from. -/
structure SequenceNumber10 where
  value : Fin 1024
  modulusBase : UInt16
deriving DecidableEq

namespace SequenceNumber10

/-- A value modulo 1024. -/
def wrap (n : ℕ) : Fin 1024 := Fin.ofNat 1024 n

/-- The constructor. -/
def ofUInt16 (value : UInt16) : SequenceNumber10 := ⟨Fin.ofNat 1024 value.toNat, 0⟩

variable (a b : SequenceNumber10)

/-- The result of the increment; it keeps the base. -/
def succ : SequenceNumber10 := { a with value := a.value + 1 }

def add (delta : UInt16) : SequenceNumber10 :=
  { a with value := a.value + Fin.ofNat 1024 delta.toNat }

def sub (delta : UInt16) : SequenceNumber10 :=
  { a with value := a.value - Fin.ofNat 1024 delta.toNat }

/-- Where a number lies above its base. -/
def above : Fin 1024 := a.value - Fin.ofNat 1024 a.modulusBase.toNat

def gt : Bool := b.above < a.above

def lt : Bool := !a.gt b && a.value != b.value

def ge : Bool := a.gt b || a.value == b.value

def le : Bool := !a.gt b

/-- `SetModulusBase`. -/
def setModulusBase (base : SequenceNumber10) : SequenceNumber10 :=
  { a with modulusBase := .ofNat base.value.val }

variable {a b}

theorem gt_iff (ha : a.modulusBase = 0) (hb : b.modulusBase = 0) :
    a.gt b = true ↔ b.value < a.value := by
  unfold gt above
  rw [ha, hb, decide_eq_true_iff, Fin.lt_def, Fin.lt_def, Fin.val_sub, Fin.val_sub]
  change (1024 - 0 + b.value.val) % 1024 < (1024 - 0 + a.value.val) % 1024 ↔ _
  omega

theorem lt_iff (ha : a.modulusBase = 0) (hb : b.modulusBase = 0) :
    a.lt b = true ↔ a.value < b.value := by
  unfold lt
  rw [Bool.and_eq_true, Bool.not_eq_true', bne_iff_ne, ← Bool.not_eq_true, gt_iff ha hb]
  omega

end SequenceNumber10

end Ns3Rdma.Lte
