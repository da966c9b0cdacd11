import Ns3Rdma.Tcp.NewReno

/-! # What sending changes

Sending moves the next number and the highest one. Everything that sending is decided by stays as
it is, and the loop ends within its bound. -/

namespace Ns3Rdma

namespace TcpTxBuffer

/-- A copy is not longer than what was asked for, and than what there is. -/
theorem getSize_copyFromSequence {b : TcpTxBuffer} {n : UInt32} {seq : SequenceNumber32}
    {p : Payload} (hcopy : b.copyFromSequence n seq = some p) :
    p.getSize ≤ min n (b.sizeFromSequence seq) := by
  have hfragment : ∀ {q r : Payload} {start s : UInt32}, q.createFragment start s = some r →
      r.getSize ≤ s := by
    intro q r start s h
    rw [UInt32.le_iff_toNat_le]
    unfold Payload.getSize
    rw [UInt32.toNat_ofNat']
    exact (Nat.mod_le _ _).trans (Payload.length_le_of_createFragment h)
  have hfirst : ∀ {data : List Payload} {offset s count : UInt32},
      copyFirst offset s count data = some p → p.getSize ≤ s := by
    intro data offset s count h
    induction data generalizing count with
    | nil => cases h
    | cons q rest ih =>
        rw [copyFirst] at h
        split at h
        · dsimp only at h
          split at h
          · exact hfragment h
          · obtain ⟨-, hsize⟩ := Option.filter_eq_some_iff.mp h
            rw [of_decide_eq_true hsize]
            exact UInt32.le_refl s
        · exact ih h
  unfold copyFromSequence at hcopy
  obtain ⟨s, hs⟩ : ∃ s, s = min n (b.sizeFromSequence seq) := ⟨_, rfl⟩
  rw [← hs] at hcopy ⊢
  dsimp only at hcopy
  split at hcopy
  next hzero =>
    obtain rfl := Option.some.inj hcopy
    rw [hzero]
    exact UInt32.le_refl _
  next =>
    split at hcopy
    next =>
      obtain rfl := Option.some.inj hcopy
      unfold Payload.getSize
      rw [List.length_replicate, UInt32.ofNat_toNat]
      exact UInt32.le_refl _
    next => exact hfirst hcopy

end TcpTxBuffer

namespace TcpNewReno

variable {c : NewRenoConfig} {st st' : TcpNewReno} {seq : SequenceNumber32} {maxSize : UInt32}

/-- The state in which sending is decided. -/
structure Keeps (st st' : TcpNewReno) : Prop where
  txBuffer_eq : st'.txBuffer = st.txBuffer
  rWnd_eq : st'.rWnd = st.rWnd
  cWnd_eq : st'.cWnd = st.cWnd
  ssThresh_eq : st'.ssThresh = st.ssThresh
  inFastRec_eq : st'.inFastRec = st.inFastRec

theorem Keeps.refl (st : TcpNewReno) : Keeps st st := ⟨rfl, rfl, rfl, rfl, rfl⟩

theorem Keeps.trans {st₁ st₂ st₃ : TcpNewReno} (h : Keeps st₁ st₂) (h' : Keeps st₂ st₃) :
    Keeps st₁ st₃ :=
  ⟨h'.txBuffer_eq.trans h.txBuffer_eq, h'.rWnd_eq.trans h.rWnd_eq, h'.cWnd_eq.trans h.cWnd_eq,
    h'.ssThresh_eq.trans h.ssThresh_eq, h'.inFastRec_eq.trans h.inFastRec_eq⟩

theorem sendDataPacket_spec {r : TcpNewReno × UInt32}
    (hsend : st.sendDataPacket seq maxSize = some r) :
    Keeps st r.1 ∧ r.1.nextTxSequence = st.nextTxSequence ∧ r.1.sent = st.sent ∧
      r.1.shutdownSend = st.shutdownSend ∧
      r.2 ≤ min maxSize (st.txBuffer.sizeFromSequence seq) := by
  obtain ⟨p, hcopy, rfl⟩ := Option.map_eq_some_iff.mp hsend
  exact ⟨⟨rfl, rfl, rfl, rfl, rfl⟩, rfl, rfl, rfl, TcpTxBuffer.getSize_copyFromSequence hcopy⟩

theorem doRetransmit_spec (hsend : st.doRetransmit c = some st') :
    Keeps st st' ∧ st'.sent = st.sent := by
  unfold doRetransmit at hsend
  split at hsend
  next =>
    obtain rfl := Option.some.inj hsend
    exact ⟨Keeps.refl st, rfl⟩
  next =>
    obtain ⟨r, hpacket, rfl⟩ := Option.map_eq_some_iff.mp hsend
    obtain ⟨hkeeps, -, hsent, -⟩ := sendDataPacket_spec hpacket
    exact ⟨hkeeps.trans ⟨rfl, rfl, rfl, rfl, rfl⟩, hsent⟩

/-- How many bytes the loop has left. -/
def remaining (st : TcpNewReno) : UInt32 := st.txBuffer.sizeFromSequence st.nextTxSequence

/-- The state after a packet of `sz` bytes in the loop. -/
def sentPacket (st st₁ : TcpNewReno) (sz : UInt32) : TcpNewReno :=
  { st₁ with
    nextTxSequence := st.nextTxSequence + sz
    sent := st₁.sent ++ [(st.nextTxSequence, sz)] }

/-- An iteration of the loop ends it, or it sends a packet that the window and the buffer allow. -/
theorem sendLoop_succ {fuel : ℕ} (hloop : sendLoop c (fuel + 1) st = some st') :
    (Keeps st st' ∧ st'.sent = st.sent) ∨
      ∃ st₁ sz, Keeps st st₁ ∧ st₁.sent = st.sent ∧ 0 < sz ∧ sz ≤ st.remaining ∧
        sz ≤ st.availableWindow ∧ sendLoop c fuel (sentPacket st st₁ sz) = some st' := by
  have hstop : some st = some st' → Keeps st st' ∧ st'.sent = st.sent := by
    intro h
    obtain rfl := Option.some.inj h
    exact ⟨Keeps.refl st, rfl⟩
  rw [sendLoop] at hloop
  dsimp only at hloop
  split at hloop
  next => exact Or.inl (hstop hloop)
  next =>
    split at hloop
    next => exact Or.inl (hstop hloop)
    next =>
      split at hloop
      next => exact Or.inl (hstop hloop)
      next =>
        split at hloop
        next => exact Or.inl (hstop hloop)
        next =>
          obtain ⟨r, hpacket, hrest⟩ := Option.bind_eq_some_iff.mp hloop
          obtain ⟨hkeeps, -, hsent, -, hsize⟩ := sendDataPacket_spec hpacket
          rw [UInt32.le_iff_toNat_le, UInt32.toNat_min, UInt32.toNat_min] at hsize
          split at hrest
          next hpos =>
            refine Or.inr ⟨r.1, r.2, hkeeps, hsent, hpos, ?_, ?_, hrest⟩
            · rw [UInt32.le_iff_toNat_le]
              exact hsize.trans (min_le_right _ _)
            · rw [UInt32.le_iff_toNat_le]
              exact hsize.trans ((min_le_left _ _).trans (min_le_left _ _))
          next =>
            obtain rfl := Option.some.inj hrest
            exact Or.inl ⟨hkeeps, hsent⟩

theorem sentPacket_keeps {st₁ : TcpNewReno} (hkeeps : Keeps st st₁) (sz : UInt32) :
    Keeps st (sentPacket st st₁ sz) :=
  hkeeps.trans ⟨rfl, rfl, rfl, rfl, rfl⟩

theorem sendLoop_keeps {fuel : ℕ} (hloop : sendLoop c fuel st = some st') : Keeps st st' := by
  induction fuel generalizing st with
  | zero =>
      obtain rfl := Option.some.inj hloop
      exact Keeps.refl st
  | succ fuel ih =>
      rcases sendLoop_succ hloop with ⟨hkeeps, -⟩ | ⟨st₁, sz, hkeeps, -, -, -, -, hrest⟩
      · exact hkeeps
      · exact (sentPacket_keeps hkeeps sz).trans (ih hrest)

theorem sendPendingData_keeps (hsend : st.sendPendingData c = some st') : Keeps st st' := by
  unfold sendPendingData at hsend
  split at hsend
  next =>
    obtain rfl := Option.some.inj hsend
    exact Keeps.refl st
  next => exact sendLoop_keeps hsend

theorem remaining_sentPacket {st₁ : TcpNewReno} (hkeeps : Keeps st st₁) (sz : UInt32) :
    (sentPacket st st₁ sz).remaining = st.remaining - sz := by
  unfold remaining sentPacket TcpTxBuffer.sizeFromSequence TcpTxBuffer.tailSequence
  rw [hkeeps.txBuffer_eq, SequenceNumber32.toUInt32_sub, SequenceNumber32.toUInt32_sub]
  exact sub_add_eq_sub_sub _ _ _

/-- The bound of the loop is enough: another iteration changes nothing. -/
theorem sendLoop_of_le {fuel : ℕ} (hfuel : st.remaining.toNat ≤ fuel) :
    sendLoop c (fuel + 1) st = sendLoop c fuel st := by
  induction fuel generalizing st with
  | zero =>
      have hnone : st.remaining = 0 := UInt32.toNat_inj.mp (Nat.le_zero.mp hfuel)
      rw [sendLoop]
      exact if_pos hnone
  | succ fuel ih =>
      rw [sendLoop, sendLoop]
      dsimp only
      refine if_congr Iff.rfl rfl (if_congr Iff.rfl rfl (if_congr Iff.rfl rfl
        (if_congr Iff.rfl rfl (Option.bind_congr fun r hpacket => ?_))))
      obtain ⟨hkeeps, -, -, -, hsize⟩ := sendDataPacket_spec hpacket
      by_cases hpos : 0 < r.2
      · rw [if_pos hpos, if_pos hpos]
        apply ih
        have hleft := remaining_sentPacket hkeeps r.2
        have hle : r.2 ≤ st.remaining := by
          rw [UInt32.le_iff_toNat_le, UInt32.toNat_min] at hsize
          rw [UInt32.le_iff_toNat_le]
          exact hsize.trans (min_le_right _ _)
        change (sentPacket st r.1 r.2).remaining.toNat ≤ fuel
        rw [hleft, UInt32.toNat_sub_of_le _ _ hle]
        rw [UInt32.lt_iff_toNat_lt, UInt32.toNat_zero] at hpos
        omega
      · rw [if_neg hpos, if_neg hpos]

end TcpNewReno

end Ns3Rdma
