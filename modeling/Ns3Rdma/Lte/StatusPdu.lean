import Ns3Rdma.Lib.Circular
import Ns3Rdma.Lte.TransmitWindow

/-! # Processing a STATUS PDU

Both loops compare numbers from zero. They walk as far as they should unless the transmitting window
contains the step from 1023 to 0. -/

namespace Ns3Rdma.Lte

namespace LteRlcAm

variable (s : LteRlcAm)

/-- The PDU that was sent with a number, wherever it is kept. -/
def outstanding (i : Fin 1024) : Option AmPdu := (s.txedBuffer i).or (s.retxBuffer i).pdu

/-- VT(A) becomes ACK_SN, what is before it is forgotten, and what is not is sent again. -/
def StatusAdvances (ackSn : SequenceNumber10) : Prop :=
  ∃ s', s.receiveStatusPdu ackSn = some s' ∧ s'.vtA.value = ackSn.value ∧
    (∀ i, s.offset i < s.offset ackSn.value →
      s'.txedBuffer i = none ∧ (s'.retxBuffer i).pdu = none) ∧
    ∀ i, s.offset ackSn.value ≤ s.offset i → s.offset i < s.offset s.vtS.value →
      ∃ pdu, s.outstanding i = some pdu ∧ (s'.retxBuffer i).pdu = some pdu

variable {s} {s' : LteRlcAm} {i : Fin 1024} {ackSn : SequenceNumber10}

/-! ## What a step of the loops does -/

theorem update_pdu {β : Type} (buffer : Fin 1024 → β) (n : Fin 1024) (entry : β) :
    Function.update buffer n entry i = if i.val = n.val then entry else buffer i := by
  rw [Function.update_apply]
  exact if_congr Fin.ext_iff rfl rfl

theorem acknowledge_txedBuffer :
    s.acknowledge.txedBuffer i = if i.val = s.vtA.value.val then none else s.txedBuffer i :=
  update_pdu _ _ _

theorem acknowledge_retxBuffer : (s.acknowledge.retxBuffer i).pdu =
    if i.val = s.vtA.value.val then none else (s.retxBuffer i).pdu := by
  unfold acknowledge
  dsimp only
  cases hpdu : (s.retxBuffer s.vtA.value).pdu with
  | some pdu =>
      dsimp only
      rw [update_pdu]
      split <;> rfl
  | none =>
      dsimp only
      split
      · next hi => rw [Fin.ext hi, hpdu]
      · rfl

theorem retransmit_txedBuffer (n : Fin 1024) :
    (s.retransmit n).txedBuffer i = if i.val = n.val then none else s.txedBuffer i := by
  unfold retransmit
  split
  · exact update_pdu _ _ _
  · next hnone =>
    have hsame : s.txedBuffer i = if i.val = n.val then none else s.txedBuffer i := by
      split
      · next hi => rw [Fin.ext hi, hnone]
      · rfl
    split <;> exact hsame

theorem retransmit_retxBuffer (n : Fin 1024) :
    ((s.retransmit n).retxBuffer i).pdu =
      if i.val = n.val then s.outstanding i else (s.retxBuffer i).pdu := by
  unfold retransmit outstanding
  split
  · next pdu hpdu =>
    dsimp only
    rw [update_pdu]
    split
    · next hi => rw [Fin.ext hi, hpdu, Option.some_or]
    · rfl
  · next hnone =>
    split
    · next pdu hpdu =>
      dsimp only
      rw [update_pdu]
      split
      · next hi => rw [Fin.ext hi, hnone, hpdu, Option.none_or]
      · rfl
    · next hnone' =>
      split
      · next hi => rw [Fin.ext hi, hnone, Option.none_or]
      · rfl

/-! ## Whole loops -/

theorem val_succ_of_lt {a : SequenceNumber10} {n : ℕ} (h : a.value.val < n) (hn : n < 1024) :
    a.succ.value.val = a.value.val + 1 := by
  change (a.value + 1).val = _
  rw [Fin.val_add]
  exact Nat.mod_eq_of_lt (lt_of_le_of_lt (Nat.succ_le_of_lt h) hn)

/-- The first loop forgets the numbers from VT(A) to ACK_SN. -/
theorem acknowledgeUpTo_spec (hvtA : s.vtA.modulusBase = 0) (hvtS : s.vtS.modulusBase = 0)
    (hack : ackSn.modulusBase = 0) (hle : s.vtA.value.val ≤ ackSn.value.val)
    (hend : ackSn.value.val ≤ s.vtS.value.val) {fuel : ℕ}
    (hfuel : ackSn.value.val < s.vtA.value.val + fuel) :
    ∃ s', acknowledgeUpTo ackSn fuel s = some s' ∧ s'.vtA.value = ackSn.value ∧
      s'.vtA.modulusBase = 0 ∧ s'.vtS = s.vtS ∧
      (∀ i, s'.txedBuffer i =
        if s.vtA.value.val ≤ i.val ∧ i.val < ackSn.value.val then none else s.txedBuffer i) ∧
      ∀ i, (s'.retxBuffer i).pdu =
        if s.vtA.value.val ≤ i.val ∧ i.val < ackSn.value.val then none
          else (s.retxBuffer i).pdu := by
  induction fuel generalizing s with
  | zero => exact absurd hle (Nat.not_le_of_lt hfuel)
  | succ fuel ih =>
      unfold acknowledgeUpTo
      split
      · next hless =>
        rw [Bool.and_eq_true, SequenceNumber10.lt_iff hvtA hack,
          SequenceNumber10.lt_iff hvtA hvtS, Fin.lt_def, Fin.lt_def] at hless
        have hnext : s.acknowledge.vtA.value.val = s.vtA.value.val + 1 :=
          val_succ_of_lt hless.1 ackSn.value.isLt
        obtain ⟨s', hs', hvalue, hbase, hsame, htxed, hretx⟩ := ih (s := s.acknowledge) hvtA hvtS
          (by rw [hnext]; exact hless.1) hend (by rw [hnext]; omega)
        refine ⟨s', hs', hvalue, hbase, hsame, fun i => ?_, fun i => ?_⟩
        · rw [htxed, acknowledge_txedBuffer, hnext]
          split_ifs <;> first | rfl | omega
        · rw [hretx, acknowledge_retxBuffer, hnext]
          split_ifs <;> first | rfl | omega
      · next hdone =>
        rw [Bool.and_eq_true, SequenceNumber10.lt_iff hvtA hack,
          SequenceNumber10.lt_iff hvtA hvtS, Fin.lt_def, Fin.lt_def] at hdone
        have heq : s.vtA.value.val = ackSn.value.val := by omega
        refine ⟨s, rfl, Fin.ext heq, hvtA, rfl, fun i => ?_, fun i => ?_⟩
        · rw [if_neg (by omega)]
        · rw [if_neg (by omega)]

/-- The second loop sends the numbers up to VT(S) again. -/
theorem retransmitFrom_spec {seqNumber : SequenceNumber10} (hbase : seqNumber.modulusBase = 0)
    (hvtS : s.vtS.modulusBase = 0) (hle : seqNumber.value.val ≤ s.vtS.value.val) {fuel : ℕ}
    (hfuel : s.vtS.value.val < seqNumber.value.val + fuel) :
    ∃ s', retransmitFrom fuel seqNumber s = some s' ∧ s'.vtA = s.vtA ∧
      (∀ i, s'.txedBuffer i =
        if seqNumber.value.val ≤ i.val ∧ i.val < s.vtS.value.val then none else s.txedBuffer i) ∧
      ∀ i, (s'.retxBuffer i).pdu =
        if seqNumber.value.val ≤ i.val ∧ i.val < s.vtS.value.val then s.outstanding i
          else (s.retxBuffer i).pdu := by
  induction fuel generalizing s seqNumber with
  | zero => exact absurd hle (Nat.not_le_of_lt hfuel)
  | succ fuel ih =>
      unfold retransmitFrom
      split
      · next hless =>
        rw [SequenceNumber10.lt_iff hbase hvtS, Fin.lt_def] at hless
        have hnext := val_succ_of_lt hless s.vtS.value.isLt
        have hbase' : seqNumber.succ.modulusBase = 0 := hbase
        obtain ⟨s', hs', hvtA, htxed, hretx⟩ := ih (s := s.retransmit seqNumber.value)
          hbase' (by rw [retransmit_vtS]; exact hvtS)
          (by rw [retransmit_vtS, hnext]; exact hless) (by rw [retransmit_vtS, hnext]; omega)
        refine ⟨s', hs', hvtA.trans (retransmit_vtA _), fun i => ?_, fun i => ?_⟩
        · rw [htxed, retransmit_txedBuffer, retransmit_vtS, hnext]
          split_ifs <;> first | rfl | omega
        · have hother : i.val ≠ seqNumber.value.val →
              (s.retransmit seqNumber.value).outstanding i = s.outstanding i := by
            intro hi
            unfold outstanding
            rw [retransmit_txedBuffer, retransmit_retxBuffer, if_neg hi, if_neg hi]
          rw [hretx, retransmit_retxBuffer, retransmit_vtS, hnext]
          by_cases hi : i.val = seqNumber.value.val
          · rw [if_pos hi, if_neg (by omega), if_pos (by omega)]
          · rw [if_neg hi, hother hi]
            refine if_congr ?_ rfl rfl
            omega
      · next hdone =>
        rw [SequenceNumber10.lt_iff hbase hvtS, Fin.lt_def] at hdone
        refine ⟨s, rfl, rfl, fun i => ?_, fun i => ?_⟩
        · rw [if_neg (by omega)]
        · rw [if_neg (by omega)]

/-! ## Processing a STATUS PDU -/

theorem offset_eq (hle : s.vtA.value.val ≤ i.val) : s.offset i = i.val - s.vtA.value.val := by
  unfold offset
  rw [Circular.val_sub, if_pos hle]

theorem offset_eq_wrapped (hlt : i.val < s.vtA.value.val) :
    s.offset i = 1024 + i.val - s.vtA.value.val := by
  unfold offset
  rw [Circular.val_sub, if_neg (Nat.not_le_of_lt hlt)]

/-- A number is before another one when the window does not contain the step to zero. -/
theorem offset_lt_iff {j : Fin 1024} (hj : s.vtA.value.val ≤ j.val) :
    s.offset i < s.offset j ↔ s.vtA.value.val ≤ i.val ∧ i.val < j.val := by
  rw [offset_eq hj]
  rcases Nat.lt_or_ge i.val s.vtA.value.val with hlt | hge
  · rw [offset_eq_wrapped hlt]
    have hbound := j.isLt
    omega
  · rw [offset_eq hge]
    omega

/-- What was sent and not acknowledged is in one of the buffers. -/
theorem Ready.outstanding_isSome (h : s.Ready) (hi : s.offset i < s.offset s.vtS.value) :
    (s.outstanding i).isSome := by
  have hsent := h.accounted.stored i hi
  unfold outstanding
  cases htx : s.txedBuffer i with
  | some pdu => rfl
  | none =>
      rw [htx] at hsent
      rw [Option.none_or]
      exact not_not.mp fun hnot => absurd (hsent.mpr hnot) (by simp)

theorem statusAdvances_of_le (h : s.Ready) (hack : ackSn.modulusBase = 0)
    (hin : s.offset ackSn.value ≤ s.offset s.vtS.value) (hle : s.vtA.value ≤ s.vtS.value) :
    s.StatusAdvances ackSn := by
  have hle' : s.vtA.value.val ≤ s.vtS.value.val := hle
  -- ACK_SN lies between the two.
  have hrange : s.vtA.value.val ≤ ackSn.value.val ∧ ackSn.value.val ≤ s.vtS.value.val := by
    have hnot := not_lt_of_ge hin
    rcases Nat.lt_or_ge ackSn.value.val s.vtA.value.val with hlt | hge
    · rw [offset_eq hle', offset_eq_wrapped hlt] at hnot
      have hbound := s.vtS.value.isLt
      omega
    · rw [offset_eq hle', offset_eq hge] at hnot
      omega
  obtain ⟨middle, hmiddle, hvtA, hbase, hvtS, htxed, hretx⟩ :=
    acknowledgeUpTo_spec h.vtA h.vtS hack hrange.1 hrange.2
      (show ackSn.value.val < s.vtA.value.val + 1025 by omega)
  obtain ⟨s', hs', hvtA', htxed', hretx'⟩ := retransmitFrom_spec (s := middle) hbase
    (by rw [hvtS]; exact h.vtS) (by rw [hvtA, hvtS]; exact hrange.2)
    (show middle.vtS.value.val < middle.vtA.value.val + 1025 by omega)
  refine ⟨s', ?_, by rw [hvtA', hvtA], fun i hi => ?_, fun i hi hi' => ?_⟩
  · unfold receiveStatusPdu
    rw [hmiddle, Option.bind_some, hs']
  · rw [offset_lt_iff hrange.1] at hi
    rw [htxed', hretx', htxed, hretx, hvtA, if_pos hi, if_neg (by omega), if_neg (by omega),
      if_pos hi]
    exact ⟨rfl, rfl⟩
  · obtain ⟨pdu, hpdu⟩ := Option.isSome_iff_exists.mp (h.outstanding_isSome hi')
    rw [← not_lt, offset_lt_iff hrange.1] at hi
    rw [offset_lt_iff hle'] at hi'
    have hkept : middle.outstanding i = s.outstanding i := by
      unfold outstanding
      rw [htxed, hretx, if_neg hi, if_neg hi]
    refine ⟨pdu, hpdu, ?_⟩
    rw [hretx', if_pos (by rw [hvtA, hvtS]; omega), hkept, hpdu]

/-- Neither loop runs when VT(S) is behind zero already. -/
theorem receiveStatusPdu_wrapped (h : s.Ready) (hlt : s.vtS.value < s.vtA.value) :
    s.receiveStatusPdu ackSn = some s := by
  have hnot : s.vtA.lt s.vtS = false := by
    rw [← Bool.not_eq_true, SequenceNumber10.lt_iff h.vtA h.vtS]
    exact not_lt_of_gt hlt
  unfold receiveStatusPdu acknowledgeUpTo
  rw [hnot, Bool.and_false, if_neg Bool.false_ne_true, Option.bind_some]
  unfold retransmitFrom
  rw [hnot, if_neg Bool.false_ne_true]

/-- A STATUS PDU is processed as it should be if and only if the window does not contain the step to
zero, or nothing has to be done. -/
theorem status_advances_iff (h : s.Ready) (hack : ackSn.modulusBase = 0)
    (hin : s.offset ackSn.value ≤ s.offset s.vtS.value) :
    s.StatusAdvances ackSn ↔ s.vtA.value ≤ s.vtS.value ∨
      (ackSn.value = s.vtA.value ∧
        ∀ i, s.offset i < s.offset s.vtS.value → s.txedBuffer i = none) := by
  constructor
  · rintro ⟨s', hs', hvtA, -, hsent⟩
    rcases le_or_gt s.vtA.value s.vtS.value with hle | hlt
    · exact Or.inl hle
    · rw [receiveStatusPdu_wrapped h hlt] at hs'
      obtain rfl := Option.some.inj hs'
      refine Or.inr ⟨hvtA.symm, fun i hi => ?_⟩
      obtain ⟨pdu, -, hpdu⟩ := hsent i (by rw [← hvtA, offset_self]; exact Nat.zero_le _) hi
      have hone := h.accounted.stored i hi
      rw [hpdu] at hone
      exact Option.not_isSome_iff_eq_none.mp fun htx => hone.mp htx rfl
  · rintro (hle | ⟨hvtA, hmoved⟩)
    · exact statusAdvances_of_le h hack hin hle
    · rcases le_or_gt s.vtA.value s.vtS.value with hle | hlt
      · exact statusAdvances_of_le h hack hin hle
      · refine ⟨s, receiveStatusPdu_wrapped h hlt, hvtA.symm, fun i hi => ?_, fun i _ hi => ?_⟩
        · rw [hvtA, offset_self] at hi
          exact absurd hi (Nat.not_lt_zero _)
        · obtain ⟨pdu, hpdu⟩ := Option.isSome_iff_exists.mp (h.outstanding_isSome hi)
          refine ⟨pdu, hpdu, ?_⟩
          unfold outstanding at hpdu
          rwa [hmoved i hi, Option.none_or] at hpdu

/-- Four PDUs were sent, and the first two of them are acknowledged. -/
theorem status_advances_iff_unanswered :
    ∃ s, StepSystem.run step new (unanswered 4) = some s ∧
      (∀ i : Fin 1024, i < 4 → (s.outstanding i).isSome) ∧ s.StatusAdvances (.ofUInt16 2) := by
  obtain ⟨s, hs, h, hready⟩ := run_unanswered 4
  have hready := hready (by decide)
  have hend : s.offset s.vtS.value = 4 := by
    rw [h.offset, h.vtS]
    rfl
  refine ⟨s, hs, fun i hi => ?_, ?_⟩
  · exact hready.outstanding_isSome (by rw [hend, h.offset]; exact hi)
  · refine (status_advances_iff hready rfl ?_).mpr (Or.inl ?_)
    · rw [hend, h.offset]
      decide
    · rw [h.vtA]
      exact Fin.zero_le _

/-- A PDU of one byte. -/
def smallPdu (sequenceNumber : UInt16) : AmPdu where
  header :=
    { headerLength := 4
      resegmentationFlag := false
      pollingBit := true
      framingInfo := (true, true)
      sequenceNumber := .ofUInt16 sequenceNumber
      lastSegmentFlag := true
      segmentOffset := 0
      extensionBits := [false]
      lengthIndicators := [] }
  payload := [7]

/-- The PDUs 1023 and 0 were sent. -/
def wrapped : LteRlcAm :=
  { new with
    txedBuffer := Function.update (Function.update (fun _ => none)
      (SequenceNumber10.ofUInt16 1023).value (some (smallPdu 1023)))
      (SequenceNumber10.ofUInt16 0).value (some (smallPdu 0))
    txedBufferSize := 10
    vtA := .ofUInt16 1023
    vtS := .ofUInt16 1 }

theorem wrapped_offset {i : Fin 1024} :
    wrapped.offset i < wrapped.offset wrapped.vtS.value ↔ i = 1023 ∨ i = 0 := by
  have hend : wrapped.offset wrapped.vtS.value = 2 := by decide
  have hstart : wrapped.vtA.value.val = 1023 := rfl
  have h0 : (0 : Fin 1024).val = 0 := rfl
  have h1023 : (1023 : Fin 1024).val = 1023 := rfl
  rw [hend, Fin.ext_iff, Fin.ext_iff, h0, h1023]
  have hbound := i.isLt
  rcases Nat.lt_or_ge i.val wrapped.vtA.value.val with hlt | hge
  · rw [offset_eq_wrapped hlt, hstart]
    omega
  · rw [offset_eq hge, hstart]
    omega

theorem wrapped_ready : wrapped.Ready := by
  refine ⟨⟨?_, ready_new.accounted.retxBufferSize, fun i hi => ?_, fun i hi => ⟨?_, rfl⟩⟩, rfl, rfl⟩
  · have hfirst := @total_store 1023 (Option AmPdu) pduSize (fun _ => none)
      (some (smallPdu 1023)) rfl
    have hsecond := @total_store 0 (Option AmPdu) pduSize
      (Function.update (fun _ => none) 1023 (some (smallPdu 1023))) (some (smallPdu 0)) rfl
    have hnone : ∑ _ : Fin 1024, pduSize none = 0 := Finset.sum_const_zero
    refine Eq.trans ?_ hsecond.symm
    rw [hfirst, hnone]
    decide
  · rcases wrapped_offset.mp hi with rfl | rfl <;> decide
  · rw [wrapped_offset, not_or] at hi
    exact (Function.update_of_ne hi.2 _ _).trans (Function.update_of_ne hi.1 _ _)

/-- Two PDUs are outstanding across zero, and the acknowledgement of the first one is ignored. -/
theorem wrapped_not_advances : wrapped.Ready ∧ wrapped.offset wrapped.vtS.value < 512 ∧
    wrapped.offset 0 ≤ wrapped.offset wrapped.vtS.value ∧
      ¬ wrapped.StatusAdvances (.ofUInt16 0) := by
  refine ⟨wrapped_ready, by decide, by decide, ?_⟩
  rintro ⟨s', hs', hvtA, -⟩
  rw [receiveStatusPdu_wrapped wrapped_ready (by decide)] at hs'
  obtain rfl := Option.some.inj hs'
  exact absurd hvtA (by decide)

end LteRlcAm

end Ns3Rdma.Lte
