import Ns3Rdma.Lte.Reassembly

/-! # Receiving in order

A receiver that waits for the next PDU: VR(UR) and VR(UH) agree, and nothing is stored. -/

namespace Ns3Rdma.Lte

namespace SequenceNumber10

variable {a b : SequenceNumber10}

theorem gt_eq_false (h : a.value = b.value) (hbase : a.modulusBase = b.modulusBase) :
    a.gt b = false := by
  unfold gt above
  rw [h, hbase]
  exact decide_eq_false (Fin.lt_irrefl _)

theorem lt_eq_false (h : a.value = b.value) : a.lt b = false := by
  unfold lt
  rw [h, bne_self_eq_false, Bool.and_false]

theorem ofNat_toNat_ofNat (v : Fin 1024) : Fin.ofNat 1024 (UInt16.ofNat v.val).toNat = v := by
  rw [UInt16.toNat_ofNat_of_lt' (lt_trans v.isLt (by decide))]
  exact Fin.ofNat_val_eq_self v

/-- Nothing lies below the base. -/
theorem setModulusBase_le (a b : SequenceNumber10) : (a.setModulusBase a).le b = true := by
  have hbase : (a.setModulusBase a).above = 0 := by
    unfold above
    change a.value - Fin.ofNat 1024 (UInt16.ofNat a.value.val).toNat = 0
    rw [ofNat_toNat_ofNat, Fin.sub_self]
  unfold le gt
  rw [hbase, decide_eq_false (Fin.not_lt_zero _)]
  rfl

/-- A base that lies `k` below. -/
theorem sub_sub (x k : Fin 1024) : x - (x - k) = k := by
  apply Fin.ext
  rw [Fin.val_sub, Fin.val_sub]
  omega

theorem add_one_sub_sub (x k : Fin 1024) : x + 1 - (x - k) = k + 1 := by
  apply Fin.ext
  rw [Fin.val_sub, Fin.val_sub, Fin.val_add, Fin.val_add]
  omega

/-- The next number is above, unless the base lies between. -/
theorem lt_of_next {k : Fin 1024} (hk : k.val < 1023)
    (hbase : a.modulusBase = .ofNat (a.value - k).val) (hsame : b.modulusBase = a.modulusBase)
    (hb : b.value = a.value + 1) : a.lt b = true := by
  have ha : a.above = k := by
    unfold above
    rw [hbase, ofNat_toNat_ofNat, sub_sub]
  have hab : b.above = k + 1 := by
    unfold above
    rw [hsame, hbase, ofNat_toNat_ofNat, hb, add_one_sub_sub]
  have hsucc : (k + 1).val = k.val + 1 := by
    rw [Fin.val_add]
    exact Nat.mod_eq_of_lt (Nat.succ_lt_succ hk)
  have hne : a.value ≠ b.value := by
    rw [hb]
    intro h
    have hval := congrArg Fin.val h
    rw [Fin.val_add] at hval
    change a.value.val = (a.value.val + 1) % 1024 at hval
    omega
  unfold lt gt
  rw [ha, hab, decide_eq_false (by rw [Fin.lt_def, hsucc]; omega), bne_iff_ne.mpr hne]
  rfl

end SequenceNumber10

namespace UmReceiver

variable {s : UmReceiver} {x : Fin 1024} {packet : List UInt8}

/-- The PDU with the number `x` is the next one. -/
structure InOrder (s : UmReceiver) (x : Fin 1024) : Prop where
  vrUr : s.vrUr.value = x
  vrUh : s.vrUh.value = x
  rxBuffer : s.rxBuffer = []
  reorderingTimer : s.reorderingTimer = false

theorem isInsideReorderingWindow_eq_false {seq : SequenceNumber10}
    (h : seq.value = s.vrUh.value) : s.isInsideReorderingWindow seq = false := by
  unfold isInsideReorderingWindow
  dsimp only
  rw [SequenceNumber10.lt_eq_false
    (a := seq.setModulusBase _) (b := s.vrUh.setModulusBase _) h, Bool.and_false]

theorem isInsideReorderingWindow_newest {seq : SequenceNumber10}
    (h : s.vrUh.value = seq.value + 1) : s.isInsideReorderingWindow seq = true := by
  unfold isInsideReorderingWindow
  dsimp only
  rw [SequenceNumber10.setModulusBase_le, Bool.true_and]
  refine SequenceNumber10.lt_of_next (k := 511) (by decide) ?_ rfl h
  change UInt16.ofNat (s.vrUh.value - Fin.ofNat 1024 512).val = UInt16.ofNat (seq.value - 511).val
  have hlow : seq.value + 1 - Fin.ofNat 1024 512 = seq.value - 511 := by
    apply Fin.ext
    rw [Fin.val_sub, Fin.val_sub, Fin.val_add]
    change (1024 - 512 + (seq.value.val + 1) % 1024) % 1024 = (1024 - 511 + seq.value.val) % 1024
    omega
  rw [h, hlow]

theorem lookup_singleton (seq : ℕ) (packet : List UInt8) (hbuffer : s.rxBuffer = [(seq, packet)]) :
    s.lookup seq = some packet := by
  unfold lookup
  rw [hbuffer, List.lookup_cons, beq_self_eq_true]

theorem firstMissing_eq {seq : ℕ} (h : s.lookup seq = none) (fuel : ℕ) :
    s.firstMissing fuel seq = seq := by
  cases fuel with
  | zero => rfl
  | succ fuel =>
      unfold firstMissing
      rw [h]
      rfl

/-- The window moves by one, and the PDU that is stored stays inside. -/
theorem moveWindow_spec {seq : SequenceNumber10} (hseq : seq.value = s.vrUh.value)
    (hvrUr : s.vrUr.value = s.vrUh.value) (hbuffer : s.rxBuffer = [(seq.value.val, packet)]) :
    ∃ vrUh, vrUh.value = seq.value + 1 ∧ s.moveWindow seq = some { s with vrUh := vrUh } := by
  obtain ⟨vrUh, hvrUh⟩ : ∃ vrUh, vrUh = (seq.add 1).setModulusBase ((seq.add 1).sub windowSize) :=
    ⟨_, rfl⟩
  have hvalue : vrUh.value = seq.value + 1 := by
    rw [hvrUh]
    rfl
  refine ⟨vrUh, hvalue, ?_⟩
  have hstored : ({ s with vrUh := vrUh } : UmReceiver).isInsideReorderingWindow
      (.ofUInt16 (.ofNat seq.value.val)) = true := by
    refine isInsideReorderingWindow_newest ?_
    change vrUh.value = Fin.ofNat 1024 (UInt16.ofNat seq.value.val).toNat + 1
    rw [hvalue, SequenceNumber10.ofNat_toNat_ofNat]
  have hfirst : ({ s with vrUh := vrUh } : UmReceiver).isInsideReorderingWindow s.vrUr = true := by
    refine isInsideReorderingWindow_newest ?_
    change vrUh.value = s.vrUr.value + 1
    rw [hvalue, hvrUr, hseq]
  unfold moveWindow
  rw [isInsideReorderingWindow_eq_false hseq]
  simp only [Bool.not_false, if_true]
  rw [← hvrUh, hbuffer]
  unfold reassembleOutsideWindow
  rw [hbuffer] at hstored hfirst
  simp only [hstored, hfirst, Bool.not_true, Bool.false_eq_true, if_false, Option.map_some]

/-- The PDU that is stored is delivered. -/
theorem deliverFromVrUr_spec {r : Reassembler}
    (hbase : s.vrUr.modulusBase = .ofNat (s.vrUr.value - 512).val)
    (hbuffer : s.rxBuffer = [(s.vrUr.value.val, packet)])
    (hr : s.reassembler.reassembleAndDeliver packet = some r) :
    ∃ vrUr, vrUr.value = s.vrUr.value + 1 ∧
      s.deliverFromVrUr = some { s with vrUr := vrUr, rxBuffer := [], reassembler := r } := by
  have hlookup := lookup_singleton _ packet hbuffer
  have hmissing : s.lookup (s.vrUr.value.val + 1) = none := by
    unfold lookup
    rw [hbuffer, List.lookup_cons, beq_false_of_ne (Nat.succ_ne_self _)]
    rfl
  obtain ⟨high, hhigh⟩ : ∃ high : SequenceNumber10,
    high = { s.vrUr with value := SequenceNumber10.wrap (s.vrUr.value.val + 1) } := ⟨_, rfl⟩
  have hvalue : high.value = s.vrUr.value + 1 := by
    rw [hhigh]
    apply Fin.ext
    rw [Fin.val_add]
    rfl
  refine ⟨high, hvalue, ?_⟩
  unfold deliverFromVrUr
  rw [hlookup]
  dsimp only
  rw [firstMissing_eq hmissing, ← hhigh]
  unfold reassembleSnInterval
  rw [if_pos (SequenceNumber10.lt_of_next (k := 512) (by decide) hbase (by rw [hhigh]) hvalue)]
  have hlookup' : ({ s with vrUr := high } : UmReceiver).lookup s.vrUr.value.val = some packet :=
    hlookup
  rw [hlookup']
  dsimp only
  rw [hr, Option.bind_some]
  unfold reassembleSnInterval
  rw [SequenceNumber10.lt_eq_false hvalue.symm, if_neg Bool.false_ne_true, hbuffer]
  simp

theorem updateTimer_spec (hvalues : s.vrUr.value = s.vrUh.value)
    (htimer : s.reorderingTimer = false) :
    s.updateTimer.vrUr.value = s.vrUr.value ∧ s.updateTimer.vrUh.value = s.vrUh.value ∧
      s.updateTimer.rxBuffer = s.rxBuffer ∧ s.updateTimer.reassembler = s.reassembler ∧
        s.updateTimer.reorderingTimer = false := by
  have hgt : (s.vrUh.setModulusBase (s.vrUh.sub windowSize)).gt
      (s.vrUr.setModulusBase (s.vrUh.sub windowSize)) = false :=
    SequenceNumber10.gt_eq_false hvalues.symm rfl
  unfold updateTimer
  dsimp only
  rw [htimer, Bool.false_and, hgt]
  exact ⟨rfl, rfl, rfl, rfl, rfl⟩

/-- The next PDU is delivered at once. -/
theorem InOrder.receive {h : LteRlcHeader} {payload : List UInt8} {r : Reassembler}
    (horder : s.InOrder h.sequenceNumber)
    (hpdu : LteRlcHeader.deserialize packet = some (h, payload))
    (hr : s.reassembler.reassembleAndDeliver packet = some r) :
    ∃ next, s.doReceivePdu packet = some next ∧ next.InOrder (h.sequenceNumber + 1) ∧
      next.reassembler = r := by
  obtain ⟨seq, hseq⟩ : ∃ seq : SequenceNumber10, seq = SequenceNumber10.setModulusBase
    ⟨h.sequenceNumber, 0⟩ (s.vrUh.sub windowSize) := ⟨_, rfl⟩
  obtain ⟨based, hbased⟩ : ∃ based : UmReceiver, based = { s with
    vrUr := s.vrUr.setModulusBase (s.vrUh.sub windowSize)
    vrUh := s.vrUh.setModulusBase (s.vrUh.sub windowSize) } := ⟨_, rfl⟩
  have hseqValue : seq.value = h.sequenceNumber := by rw [hseq]; rfl
  have hvrUr : based.vrUr.value = seq.value := by
    rw [hbased, hseqValue]
    exact horder.vrUr
  have hvrUh : based.vrUh.value = seq.value := by
    rw [hbased, hseqValue]
    exact horder.vrUh
  -- The buffer was empty, and the window ends with the PDU: it alone is stored, and leaves again.
  obtain ⟨stored, hstored⟩ : ∃ stored : UmReceiver, stored = { based with
    rxBuffer := store seq.value.val packet based.rxBuffer } := ⟨_, rfl⟩
  have hbuffer : stored.rxBuffer = [(seq.value.val, packet)] := by
    rw [hstored, hbased]
    dsimp only
    rw [horder.rxBuffer]
    rfl
  obtain ⟨vrUh, hvrUh', hmove⟩ := moveWindow_spec (s := stored)
    (by rw [hstored]; exact hvrUh.symm) (by rw [hstored]; exact hvrUr.trans hvrUh.symm) hbuffer
  obtain ⟨vrUr, hvrUr', hdeliver⟩ := deliverFromVrUr_spec (s := { stored with vrUh := vrUh })
    (by
      rw [hstored, hbased]
      change UInt16.ofNat (s.vrUh.value - Fin.ofNat 1024 512).val =
        UInt16.ofNat (s.vrUr.value - 512).val
      rw [horder.vrUh, horder.vrUr]
      rfl)
    (by
      change stored.rxBuffer = [(stored.vrUr.value.val, packet)]
      rw [hbuffer, hstored]
      dsimp only
      rw [hvrUr])
    (by rw [hstored, hbased]; exact hr)
  have hvrUr'' : vrUr.value = seq.value + 1 := by
    rw [hvrUr', hstored]
    change based.vrUr.value + 1 = _
    rw [hvrUr]
  have htimer : stored.reorderingTimer = false := by
    rw [hstored, hbased]
    exact horder.reorderingTimer
  obtain ⟨hur, huh, hrx, hre, htimer'⟩ := updateTimer_spec
    (s := { stored with vrUh := vrUh, vrUr := vrUr, rxBuffer := [], reassembler := r })
    (hvrUr''.trans hvrUh'.symm) htimer
  refine ⟨_, ?_, ⟨hur.trans ?_, huh.trans ?_, hrx, htimer'⟩, hre⟩
  · -- The number is not an old one.
    have hlt : based.vrUr.lt seq = false := SequenceNumber10.lt_eq_false hvrUr
    have hlt' : seq.lt based.vrUr = false := SequenceNumber10.lt_eq_false hvrUr.symm
    have hbody : s.doReceivePdu packet =
        if (based.vrUr.lt seq && seq.lt based.vrUh && (based.lookup seq.value.val).isSome) ||
            ((based.vrUh.sub windowSize).le seq && seq.lt based.vrUr) then some based
        else ((stored.moveWindow seq).bind deliverFromVrUr).map updateTimer := by
      subst hstored hbased hseq
      unfold doReceivePdu
      rw [hpdu]
      rfl
    rw [hbody, hlt, hlt', Bool.false_and, Bool.false_and, Bool.and_false, Bool.or_false,
      if_neg Bool.false_ne_true, hmove, Option.bind_some, hdeliver, Option.map_some]
  · exact hvrUr''.trans (by rw [hseqValue])
  · exact hvrUh'.trans (by rw [hseqValue])

end UmReceiver

end Ns3Rdma.Lte
