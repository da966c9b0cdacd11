import Mathlib.Algebra.BigOperators.Group.Finset.Basic
import Mathlib.Data.Fintype.Basic
import Ns3Rdma.Lib.StepSystem
import Ns3Rdma.Lib.Tally
import Ns3Rdma.Lte.LteRlcAm

/-! # The transmitting window

The buffers of RLC AM account for every number from VT(A) to VT(S) as long as a new PDU is sent only
when its number is within the window. Nothing else has to be asked of a run: a STATUS PDU may
acknowledge any number. -/

namespace Ns3Rdma.Lte

open StepSystem

/-- `poll` is a data PDU that requests a STATUS PDU. -/
inductive AmEvent where
  | transmitPdcpPdu (sdu : List UInt8)
  | txOpportunity (bytes : UInt32)
  | receiveStatus (ackSn : SequenceNumber10)
  | poll

namespace LteRlcAm

variable (s : LteRlcAm)

def step : AmEvent → Option LteRlcAm
  | .transmitPdcpPdu sdu => some (s.doTransmitPdcpPdu sdu)
  | .txOpportunity bytes => (s.doNotifyTxOpportunity bytes).map Prod.fst
  | .receiveStatus ackSn => s.receiveStatusPdu ackSn
  | .poll => some { s with statusPduRequested := true }

/-- How many numbers VT(A) is behind a number. -/
def offset (i : Fin 1024) : ℕ := (i - s.vtA.value).val

/-- The size of the PDU of an entry, if there is one. -/
def pduSize (pdu : Option AmPdu) : ℕ := pdu.elim 0 fun pdu => pdu.getSize.toNat

/-- The byte counters are the total sizes, and the numbers from VT(A) on that are before VT(S) are
those that are in one of the buffers, in one only. -/
structure Accounted : Prop where
  txedBufferSize : s.txedBufferSize = .ofNat (∑ i, pduSize (s.txedBuffer i))
  retxBufferSize : s.retxBufferSize = .ofNat (∑ i, pduSize (s.retxBuffer i).pdu)
  stored : ∀ i, s.offset i < s.offset s.vtS.value →
    ((s.txedBuffer i).isSome ↔ ¬ (s.retxBuffer i).pdu.isSome)
  free : ∀ i, ¬ s.offset i < s.offset s.vtS.value →
    s.txedBuffer i = none ∧ (s.retxBuffer i).pdu = none

/-- A new PDU that is sent is within the window. -/
def InWindow (s : LteRlcAm) (event : AmEvent) (_ : LteRlcAm) : Prop :=
  ∀ bytes next pdu, event = .txOpportunity bytes →
    s.doNotifyTxOpportunity bytes = some (next, some (.data pdu)) →
      s.offset pdu.header.sequenceNumber.value < 512

/-- The opportunity is taken for a new PDU. -/
def SendsNew (bytes : UInt32) : Prop :=
  2 < bytes ∧ s.statusPduRequested = false ∧ s.retxBufferSize = 0 ∧ 0 < s.txonBufferSize ∧
    s.txonBuffer ≠ []

/-- The window is open when the opportunity is taken for a new PDU. -/
def WindowOpen (s : LteRlcAm) (event : AmEvent) (_ : LteRlcAm) : Prop :=
  ∀ bytes, event = .txOpportunity bytes → s.SendsNew bytes → s.offset s.vtS.value < 512

/-! ## What an opportunity does -/

variable {s} {s' : LteRlcAm} {bytes : UInt32} {event : AmEvent} {i : Fin 1024}
  {seqNumber : SequenceNumber10}

/-- A new PDU has the number VT(S), and is stored. -/
structure Stores (s s' : LteRlcAm) (pdu : AmPdu) : Prop where
  sequenceNumber : pdu.header.sequenceNumber = s.vtS
  txedBuffer : s'.txedBuffer = Function.update s.txedBuffer s.vtS.value (some pdu)
  txedBufferSize : s'.txedBufferSize = s.txedBufferSize + pdu.getSize
  retxBuffer : s'.retxBuffer = s.retxBuffer
  retxBufferSize : s'.retxBufferSize = s.retxBufferSize
  vtA : s'.vtA = s.vtA
  vtS : s'.vtS = s.vtS.succ

theorem transmitData_stores {d : DataField} {pdu : AmPdu}
    (htransmit : s.transmitData d = some (s', pdu)) : Stores s s' pdu := by
  obtain ⟨framingInfo, -, hbuilt⟩ := Option.bind_eq_some_iff.mp htransmit
  dsimp only at hbuilt
  split at hbuilt
  · obtain ⟨rfl, rfl⟩ := Prod.mk.inj (Option.some.inj hbuilt)
    exact ⟨rfl, rfl, rfl, rfl, rfl, rfl, rfl⟩
  · cases hbuilt

/-- Either a new PDU is stored and sent, or the state stays as it is. -/
theorem doNotifyTxOpportunity_cases {out : Option Transmission}
    (hnotify : s.doNotifyTxOpportunity bytes = some (s', out)) :
    (s.SendsNew bytes ∧ ∃ pdu, out = some (.data pdu) ∧ Stores s s' pdu) ∨
      (¬ s.SendsNew bytes ∧ s' = s ∧ ∀ pdu, out ≠ some (.data pdu)) := by
  unfold doNotifyTxOpportunity at hnotify
  split at hnotify
  · next hsmall =>
    obtain ⟨rfl, rfl⟩ := Prod.mk.inj (Option.some.inj hnotify)
    exact Or.inr ⟨fun h => UInt32.not_lt.mpr hsmall h.1, rfl, fun pdu => nofun⟩
  · next hlarge =>
    split at hnotify
    · next hrequested =>
      obtain ⟨rfl, rfl⟩ := Prod.mk.inj (Option.some.inj hnotify)
      exact Or.inr ⟨fun h => Bool.noConfusion (h.2.1.symm.trans hrequested), rfl, fun pdu => nofun⟩
    · next hrequested =>
      split at hnotify
      · next hretx =>
        -- Retransmission comes before new data, whether the PDU fits or not.
        obtain ⟨pdu, -, hpair⟩ := Option.map_eq_some_iff.mp hnotify
        have hnot : ¬ s.SendsNew bytes := fun h => by
          rw [h.2.2.1] at hretx
          exact absurd hretx (by decide)
        split at hpair
        · obtain ⟨rfl, rfl⟩ := Prod.mk.inj hpair
          exact Or.inr ⟨hnot, rfl, fun pdu => nofun⟩
        · obtain ⟨rfl, rfl⟩ := Prod.mk.inj hpair
          exact Or.inr ⟨hnot, rfl, fun pdu => nofun⟩
      · next hretx =>
        have hzero : s.retxBufferSize = 0 := by
          rw [UInt32.not_lt] at hretx
          exact UInt32.le_antisymm hretx (UInt32.zero_le)
        split at hnotify
        · next htxon =>
          split at hnotify
          · next hempty =>
            obtain ⟨rfl, rfl⟩ := Prod.mk.inj (Option.some.inj hnotify)
            exact Or.inr ⟨fun h => h.2.2.2.2 hempty, rfl, fun pdu => nofun⟩
          · next first rest hbuffer =>
            obtain ⟨⟨next, pdu⟩, htransmit, hpair⟩ := Option.map_eq_some_iff.mp hnotify
            obtain ⟨rfl, rfl⟩ := Prod.mk.inj hpair
            refine Or.inl ⟨⟨UInt32.not_le.mp hlarge, Bool.eq_false_of_not_eq_true hrequested, hzero,
              htxon, ?_⟩, pdu, rfl, transmitData_stores htransmit⟩
            rw [hbuffer]
            exact List.cons_ne_nil _ _
        · next htxon =>
          obtain ⟨rfl, rfl⟩ := Prod.mk.inj (Option.some.inj hnotify)
          exact Or.inr ⟨fun h => htxon h.2.2.2.1, rfl, fun pdu => nofun⟩

/-! ## Sizes and offsets -/

/-- One entry of an array changes. -/
theorem total_set {α : Type} (size : α → ℕ) (buffer : Fin 1024 → α) (i : Fin 1024) (entry : α) :
    UInt32.ofNat (∑ j, size (Function.update buffer i entry j)) + .ofNat (size (buffer i)) =
      .ofNat (∑ j, size (buffer j)) + .ofNat (size entry) := by
  have htotal := Tally.total_update (fun j => size (buffer j)) i (size entry)
  have hupdate : ∀ j, size (Function.update buffer i entry j) =
      Function.update (fun j => size (buffer j)) i (size entry) j :=
    fun j => congrFun (Function.comp_update size buffer i entry) j
  rw [Finset.sum_congr rfl fun j _ => hupdate j, ← UInt32.ofNat_add, ← UInt32.ofNat_add, htotal]

theorem ofNat_pduSize (pdu : AmPdu) : UInt32.ofNat (pduSize (some pdu)) = pdu.getSize :=
  UInt32.ofNat_toNat

/-- An entry that was empty. -/
theorem total_store {α : Type} (size : α → ℕ) {buffer : Fin 1024 → α} (entry : α)
    (hempty : size (buffer i) = 0) :
    UInt32.ofNat (∑ j, size (Function.update buffer i entry j)) =
      .ofNat (∑ j, size (buffer j)) + .ofNat (size entry) := by
  rw [← total_set size buffer i entry, hempty]
  exact (UInt32.add_zero _).symm

/-- An entry that becomes empty. -/
theorem total_remove {α : Type} (size : α → ℕ) {buffer : Fin 1024 → α} {entry : α}
    (hempty : size entry = 0) :
    UInt32.ofNat (∑ j, size (Function.update buffer i entry j)) =
      .ofNat (∑ j, size (buffer j)) - .ofNat (size (buffer i)) := by
  have hset := total_set size buffer i entry
  rw [hempty] at hset
  have hzero : UInt32.ofNat (∑ j, size (buffer j)) + UInt32.ofNat 0 =
      .ofNat (∑ j, size (buffer j)) := UInt32.add_zero _
  rw [hzero] at hset
  rw [← hset, UInt32.add_sub_cancel]

theorem offset_self : s.offset s.vtA.value = 0 := by
  unfold offset
  rw [Fin.val_sub]
  omega

/-- The numbers behind VT(A) when it moves on. -/
theorem offset_acknowledge (hne : s.vtA.value ≠ s.vtS.value) (i : Fin 1024) :
    s.acknowledge.offset i < s.acknowledge.offset s.vtS.value ↔
      i ≠ s.vtA.value ∧ s.offset i < s.offset s.vtS.value := by
  change (i - (s.vtA.value + 1)).val < (s.vtS.value - (s.vtA.value + 1)).val ↔
    i ≠ s.vtA.value ∧ (i - s.vtA.value).val < (s.vtS.value - s.vtA.value).val
  have hone : ((1 : Fin 1024)).val = 1 := rfl
  rw [Fin.val_sub, Fin.val_sub, Fin.val_sub, Fin.val_sub, Fin.val_add, hone]
  omega

theorem Accounted.acknowledge (h : s.Accounted) (hne : s.vtA.value ≠ s.vtS.value) :
    s.acknowledge.Accounted := by
  have hfirst : s.offset s.vtA.value < s.offset s.vtS.value := by
    rw [offset_self]
    unfold offset
    rw [Fin.val_sub]
    omega
  have hone := h.stored s.vtA.value hfirst
  -- Afterwards both entries of VT(A) are empty, and the others are as they were.
  have htxed : ∀ i, s.acknowledge.txedBuffer i = if i = s.vtA.value then none else s.txedBuffer i :=
    fun i => Function.update_apply s.txedBuffer s.vtA.value none i
  have hretx : ∀ i, (s.acknowledge.retxBuffer i).pdu =
      if i = s.vtA.value then none else (s.retxBuffer i).pdu := by
    intro i
    unfold LteRlcAm.acknowledge
    dsimp only
    cases hpdu : (s.retxBuffer s.vtA.value).pdu with
    | none =>
        dsimp only
        split
        · next hi => rw [hi, hpdu]
        · rfl
    | some pdu =>
        dsimp only
        rw [Function.update_apply]
        split
        · rfl
        · rfl
  constructor
  case txedBufferSize =>
    unfold LteRlcAm.acknowledge
    dsimp only
    cases hpdu : s.txedBuffer s.vtA.value with
    | none =>
        dsimp only
        rw [total_remove pduSize rfl, hpdu, h.txedBufferSize]
        exact (UInt32.sub_zero _).symm
    | some pdu =>
        dsimp only
        rw [total_remove pduSize rfl, hpdu, ofNat_pduSize, h.txedBufferSize]
  case retxBufferSize =>
    unfold LteRlcAm.acknowledge
    dsimp only
    cases hpdu : (s.retxBuffer s.vtA.value).pdu with
    | none => exact h.retxBufferSize
    | some pdu =>
        dsimp only
        rw [total_remove (fun entry : RetxBuffer => pduSize entry.pdu) rfl, hpdu,
          ofNat_pduSize, h.retxBufferSize]
  case stored =>
    intro i hi
    obtain ⟨hia, hi⟩ := (offset_acknowledge hne i).mp hi
    rw [htxed, hretx, if_neg hia, if_neg hia]
    exact h.stored i hi
  case free =>
    intro i hi
    rw [htxed, hretx]
    by_cases hia : i = s.vtA.value
    · rw [if_pos hia, if_pos hia]
      exact ⟨rfl, rfl⟩
    · rw [if_neg hia, if_neg hia]
      exact h.free i fun hlt => hi ((offset_acknowledge hne i).mpr ⟨hia, hlt⟩)

theorem Accounted.retransmit (h : s.Accounted) (hin : s.offset i < s.offset s.vtS.value) :
    (s.retransmit i).Accounted := by
  have hone := h.stored i hin
  unfold LteRlcAm.retransmit
  split
  · next pdu htxed =>
    have hretx : (s.retxBuffer i).pdu = none := by
      rw [htxed] at hone
      exact Option.not_isSome_iff_eq_none.mp (hone.mp rfl)
    constructor
    case txedBufferSize =>
      dsimp only
      rw [total_remove pduSize rfl, htxed, ofNat_pduSize, h.txedBufferSize]
    case retxBufferSize =>
      dsimp only
      rw [total_store (fun entry : RetxBuffer => pduSize entry.pdu) _ (by rw [hretx]; rfl),
        ofNat_pduSize, h.retxBufferSize]
    case stored =>
      intro j hj
      dsimp only
      rw [Function.update_apply, Function.update_apply]
      split
      · simp
      · exact h.stored j hj
    case free =>
      intro j hj
      have hji : j ≠ i := fun heq => hj (heq ▸ hin)
      dsimp only
      rw [Function.update_of_ne hji, Function.update_of_ne hji]
      exact h.free j hj
  · next htxed =>
    split
    · next pdu hretx =>
      -- A PDU that is to be retransmitted already only counts once more.
      have hpdu : ∀ j, (Function.update s.retxBuffer i
          ⟨some pdu, (s.retxBuffer i).retxCount + 1⟩ j).pdu = (s.retxBuffer j).pdu := by
        intro j
        rw [Function.update_apply]
        split
        · next hji => rw [hji, hretx]
        · rfl
      constructor
      case txedBufferSize => exact h.txedBufferSize
      case retxBufferSize =>
        dsimp only
        rw [Finset.sum_congr rfl fun j _ => congrArg pduSize (hpdu j)]
        exact h.retxBufferSize
      case stored =>
        intro j hj
        dsimp only
        rw [hpdu]
        exact h.stored j hj
      case free =>
        intro j hj
        dsimp only
        rw [hpdu]
        exact h.free j hj
    · exact h

theorem Accounted.stores {pdu : AmPdu} (h : s.Accounted) (hstores : Stores s s' pdu)
    (hopen : s.offset s.vtS.value < 512) : s'.Accounted := by
  obtain ⟨-, htxed, htxedSize, hretx, hretxSize, hvtA, hvtS⟩ := hstores
  have hempty := h.free s.vtS.value (Nat.lt_irrefl _)
  have hoffset : ∀ i, s'.offset i = s.offset i := fun i => by
    unfold offset
    rw [hvtA]
  -- The window ends one number later.
  have hend : s'.offset s'.vtS.value = s.offset s.vtS.value + 1 := by
    rw [hoffset, hvtS]
    have hone : ((1 : Fin 1024)).val = 1 := rfl
    unfold offset at hopen ⊢
    change (s.vtS.value + 1 - s.vtA.value).val = _
    rw [Fin.val_sub, Fin.val_add, hone]
    rw [Fin.val_sub] at hopen ⊢
    omega
  have hsame : ∀ i, s.offset i = s.offset s.vtS.value → i = s.vtS.value := by
    intro i hi
    unfold offset at hi
    rw [Fin.val_sub, Fin.val_sub] at hi
    omega
  constructor
  case txedBufferSize =>
    rw [htxedSize, htxed, total_store pduSize _ (by rw [hempty.1]; rfl), ofNat_pduSize,
      h.txedBufferSize]
  case retxBufferSize =>
    rw [hretxSize, hretx]
    exact h.retxBufferSize
  case stored =>
    intro i hi
    rw [hoffset, hend] at hi
    rw [htxed, hretx]
    by_cases hlast : i = s.vtS.value
    · rw [hlast, Function.update_self, hempty.2]
      simp
    · rw [Function.update_of_ne hlast]
      exact h.stored i (by have := hsame i; omega)
  case free =>
    intro i hi
    rw [hoffset, hend] at hi
    have hlast : i ≠ s.vtS.value := fun heq => hi (by rw [heq]; omega)
    rw [htxed, hretx, Function.update_of_ne hlast]
    exact h.free i (by omega)

/-! ## Runs -/

/-- The buffers account for the window, and the state variables are compared from zero. -/
structure Ready (s : LteRlcAm) : Prop where
  accounted : s.Accounted
  vtA : s.vtA.modulusBase = 0
  vtS : s.vtS.modulusBase = 0

theorem acknowledgeUpTo_ready (h : s.Ready) (ackSn : SequenceNumber10) {fuel : ℕ}
    (hfuel : 1024 < s.vtA.value.val + fuel) :
    ∃ s', acknowledgeUpTo ackSn fuel s = some s' ∧ s'.Ready := by
  induction fuel generalizing s with
  | zero =>
      have hlt := s.vtA.value.isLt
      omega
  | succ fuel ih =>
      unfold acknowledgeUpTo
      split
      · next hless =>
        rw [Bool.and_eq_true, SequenceNumber10.lt_iff h.vtA h.vtS, Fin.lt_def] at hless
        refine ih ⟨h.accounted.acknowledge fun heq => ?_, h.vtA, h.vtS⟩ ?_
        · rw [heq] at hless
          exact absurd hless.2 (Nat.lt_irrefl _)
        · have hone : ((1 : Fin 1024)).val = 1 := rfl
          change 1024 < (s.vtA.value + 1).val + fuel
          rw [Fin.val_add, hone]
          have hlt := s.vtS.value.isLt
          omega
      · exact ⟨s, rfl, h⟩

@[simp] theorem retransmit_vtA (i : Fin 1024) : (s.retransmit i).vtA = s.vtA := by
  unfold retransmit
  split
  · rfl
  · split <;> rfl

@[simp] theorem retransmit_vtS (i : Fin 1024) : (s.retransmit i).vtS = s.vtS := by
  unfold retransmit
  split
  · rfl
  · split <;> rfl

theorem retransmitFrom_ready (h : s.Ready) (hbase : seqNumber.modulusBase = 0)
    (hle : s.vtA.value.val ≤ seqNumber.value.val) {fuel : ℕ}
    (hfuel : 1024 < seqNumber.value.val + fuel) :
    ∃ s', retransmitFrom fuel seqNumber s = some s' ∧ s'.Ready := by
  induction fuel generalizing s seqNumber with
  | zero =>
      have hlt := seqNumber.value.isLt
      omega
  | succ fuel ih =>
      unfold retransmitFrom
      split
      · next hless =>
        rw [SequenceNumber10.lt_iff hbase h.vtS, Fin.lt_def] at hless
        have hlt := s.vtS.value.isLt
        have hone : ((1 : Fin 1024)).val = 1 := rfl
        have hnext : seqNumber.succ.value.val = seqNumber.value.val + 1 := by
          change (seqNumber.value + 1).val = _
          rw [Fin.val_add, hone]
          omega
        have hin : s.offset seqNumber.value < s.offset s.vtS.value := by
          unfold offset
          rw [Fin.val_sub, Fin.val_sub]
          omega
        refine ih ⟨h.accounted.retransmit hin, ?_, ?_⟩ hbase ?_ ?_
        · rw [retransmit_vtA]
          exact h.vtA
        · rw [retransmit_vtS]
          exact h.vtS
        · rw [retransmit_vtA, hnext]
          exact Nat.le_succ_of_le hle
        · rw [hnext]
          omega
      · exact ⟨s, rfl, h⟩

theorem Ready.receiveStatusPdu (h : s.Ready) (ackSn : SequenceNumber10) :
    ∃ s', s.receiveStatusPdu ackSn = some s' ∧ s'.Ready := by
  unfold LteRlcAm.receiveStatusPdu
  obtain ⟨s₁, hs₁, hready⟩ := acknowledgeUpTo_ready h ackSn
    (show 1024 < s.vtA.value.val + 1025 by omega)
  rw [hs₁, Option.bind_some]
  exact retransmitFrom_ready hready hready.vtA (Nat.le_refl _) (by omega)

theorem ready_new : new.Ready := by
  refine ⟨⟨?_, ?_, fun i hi => ?_, fun i _ => ⟨rfl, rfl⟩⟩, rfl, rfl⟩
  · change (0 : UInt32) = .ofNat (∑ i : Fin 1024, 0)
    rw [Finset.sum_const_zero]
    rfl
  · change (0 : UInt32) = .ofNat (∑ i : Fin 1024, 0)
    rw [Finset.sum_const_zero]
    rfl
  · rw [show new.vtS.value = new.vtA.value from rfl, offset_self] at hi
    exact absurd hi (Nat.not_lt_zero _)

/-- A new PDU is sent within the window if and only if the window is open. -/
theorem inWindow_iff_windowOpen (hstep : s.step event = some s') :
    InWindow s event s' ↔ WindowOpen s event s' := by
  constructor
  · rintro hin bytes rfl hsends
    obtain ⟨⟨next, out⟩, hnotify, -⟩ := Option.map_eq_some_iff.mp hstep
    rcases doNotifyTxOpportunity_cases hnotify with ⟨-, pdu, rfl, hstores⟩ | ⟨hnot, -, -⟩
    · rw [← hstores.sequenceNumber]
      exact hin bytes next pdu rfl hnotify
    · exact absurd hsends hnot
  · rintro hopen bytes next pdu rfl hnotify
    rcases doNotifyTxOpportunity_cases hnotify with ⟨hsends, pdu', hpdu, hstores⟩ | ⟨-, -, hnone⟩
    · cases hpdu
      rw [hstores.sequenceNumber]
      exact hopen bytes rfl hsends
    · exact absurd rfl (hnone pdu)

theorem Ready.step (h : s.Ready) (hstep : s.step event = some s') (hopen : WindowOpen s event s') :
    s'.Ready := by
  cases event with
  | transmitPdcpPdu sdu =>
      obtain rfl := Option.some.inj hstep
      exact ⟨⟨h.accounted.txedBufferSize, h.accounted.retxBufferSize, h.accounted.stored,
        h.accounted.free⟩, h.vtA, h.vtS⟩
  | txOpportunity bytes =>
      obtain ⟨⟨next, out⟩, hnotify, rfl⟩ := Option.map_eq_some_iff.mp hstep
      rcases doNotifyTxOpportunity_cases hnotify with ⟨hsends, pdu, -, hstores⟩ | ⟨-, hsame, -⟩
      · refine ⟨h.accounted.stores hstores (hopen bytes rfl hsends), ?_, ?_⟩
        · rw [hstores.vtA]
          exact h.vtA
        · rw [hstores.vtS]
          exact h.vtS
      · dsimp only at hsame ⊢
        rw [hsame]
        exact h
  | receiveStatus ackSn =>
      obtain ⟨s₁, hs₁, hready⟩ := h.receiveStatusPdu ackSn
      obtain rfl := Option.some.inj (hs₁.symm.trans hstep)
      exact hready
  | poll =>
      obtain rfl := Option.some.inj hstep
      exact ⟨⟨h.accounted.txedBufferSize, h.accounted.retxBufferSize, h.accounted.stored,
        h.accounted.free⟩, h.vtA, h.vtS⟩

/-- Every new PDU is within the window and the buffers account for the numbers of the window in all
states of a run, if and only if the window is open whenever a new PDU is sent. -/
theorem accounted_iff_windowOpen (events : List AmEvent) :
    (Throughout step Accounted new events ∧
      EachStep step InWindow new events) ↔
        EachStep step WindowOpen new events := by
  have hiff : EachStep step InWindow new events ↔
      EachStep step WindowOpen new events := by
    refine eachStep_iff_of_invariant (I := Ready) ?_ ?_ ready_new events
    · exact fun s event s' _ hstep => inWindow_iff_windowOpen hstep
    · exact fun s event s' h hstep hopen => h.step hstep hopen
  rw [hiff]
  refine ⟨And.right, fun hopen => ⟨?_, hopen⟩⟩
  refine (throughout_of_eachStep ?_ ready_new hopen).mono fun s h => h.accounted
  exact fun s event s' h hstep hopen => h.step hstep hopen

/-! ## A peer that does not answer -/

/-- SDUs of one byte, each sent at once. -/
def unanswered (n : ℕ) : List AmEvent :=
  (List.replicate n [.transmitPdcpPdu [0], .txOpportunity 10]).flatten

/-- All SDUs were sent, and nothing was acknowledged. -/
structure Unanswered (n : ℕ) (s : LteRlcAm) : Prop where
  vtA : s.vtA.value = 0
  vtS : s.vtS.value = Fin.ofNat 1024 n
  txonBuffer : s.txonBuffer = []
  txonBufferSize : s.txonBufferSize = 0
  retxBufferSize : s.retxBufferSize = 0
  statusPduRequested : s.statusPduRequested = false

theorem Unanswered.offset {n : ℕ} (h : s.Unanswered n) (i : Fin 1024) : s.offset i = i.val := by
  have hzero : s.vtA.value.val = 0 := congrArg Fin.val h.vtA
  unfold LteRlcAm.offset
  rw [Fin.val_sub, hzero]
  omega

theorem Unanswered.sendsNew {n : ℕ} (h : s.Unanswered n) :
    (s.doTransmitPdcpPdu [0]).SendsNew 10 := by
  refine ⟨by decide, h.statusPduRequested, h.retxBufferSize, ?_, ?_⟩
  · unfold doTransmitPdcpPdu
    dsimp only
    rw [h.txonBufferSize]
    decide
  · exact List.append_ne_nil_of_right_ne_nil _ (List.cons_ne_nil _ _)

theorem Unanswered.next {n : ℕ} (h : s.Unanswered n) :
    ∃ s', (s.doTransmitPdcpPdu [0]).step (.txOpportunity 10) = some s' ∧ s'.Unanswered (n + 1) := by
  obtain ⟨hvtA, hvtS, hbuffer, hsize, hretx, hrequested⟩ := h
  have hnotify : ∃ r, (s.doTransmitPdcpPdu [0]).doNotifyTxOpportunity 10 = some r ∧
      r.1.Unanswered (n + 1) := by
    unfold doNotifyTxOpportunity doTransmitPdcpPdu
    dsimp only
    rw [hrequested, hretx, hsize, hbuffer]
    refine ⟨_, rfl, hvtA, ?_, rfl, rfl, rfl, rfl⟩
    change s.vtS.value + 1 = _
    rw [hvtS]
    apply Fin.ext
    have hone : ((1 : Fin 1024)).val = 1 := rfl
    change (Fin.ofNat 1024 n + 1).val = (n + 1) % 1024
    rw [Fin.val_add, hone]
    change (n % 1024 + 1) % 1024 = _
    omega
  obtain ⟨r, hr, hnext⟩ := hnotify
  refine ⟨r.1, ?_, hnext⟩
  unfold LteRlcAm.step
  dsimp only
  rw [hr, Option.map_some]

theorem run_unanswered (n : ℕ) :
    ∃ s, run step new (unanswered n) = some s ∧ s.Unanswered n ∧
      (n ≤ 512 → s.Ready) := by
  induction n with
  | zero => exact ⟨new, rfl, ⟨rfl, rfl, rfl, rfl, rfl, rfl⟩, fun _ => ready_new⟩
  | succ n ih =>
      obtain ⟨s, hs, h, hready⟩ := ih
      obtain ⟨s', hs', h'⟩ := h.next
      refine ⟨s', ?_, h', fun hle => ?_⟩
      · unfold unanswered
        rw [List.replicate_succ', List.flatten_append]
        refine run_trans hs ?_
        change run step (s.doTransmitPdcpPdu [0]) [.txOpportunity 10] = some s'
        rw [run_cons_of_step _ hs', run_nil]
      · have hstep : s.step (.transmitPdcpPdu [0]) = some (s.doTransmitPdcpPdu [0]) := rfl
        have hwaiting : (s.doTransmitPdcpPdu [0]).Ready :=
          (hready (Nat.le_of_succ_le hle)).step hstep fun _ hevent => AmEvent.noConfusion hevent
        refine hwaiting.step hs' fun bytes _ _ => ?_
        change s.offset s.vtS.value < 512
        rw [h.offset, h.vtS]
        change n % 1024 < 512
        omega

/-- The PDU after 512 that were not acknowledged is sent outside of the window. -/
theorem unanswered_not_accounted :
    ¬ (Throughout step Accounted new (unanswered 513) ∧
      EachStep step InWindow new (unanswered 513)) := by
  rintro ⟨-, heach⟩
  obtain ⟨s, hs, h, -⟩ := run_unanswered 512
  obtain ⟨s', hs', -⟩ := h.next
  have hevents : unanswered 513 =
      (unanswered 512 ++ [.transmitPdcpPdu [0]]) ++ .txOpportunity 10 :: [] := by
    unfold unanswered
    rw [List.replicate_succ', List.flatten_append, List.append_assoc]
    rfl
  have hrun : run step new (unanswered 512 ++ [.transmitPdcpPdu [0]]) =
      some (s.doTransmitPdcpPdu [0]) := run_trans hs rfl
  have hwindow := heach _ _ [] _ s' hevents hrun hs'
  have hopen := (inWindow_iff_windowOpen hs').mp hwindow 10 rfl h.sendsNew
  have hoffset : (s.doTransmitPdcpPdu [0]).offset s.vtS.value = 512 := by
    change s.offset s.vtS.value = 512
    rw [h.offset, h.vtS]
    rfl
  change (s.doTransmitPdcpPdu [0]).offset s.vtS.value < 512 at hopen
  omega

end LteRlcAm

end Ns3Rdma.Lte
