import Ns3Rdma.Tcp.SendLoop

/-! # Flow control

Which segments go out, against the window that the peer has advertised. -/

namespace Ns3Rdma

open StepSystem

namespace TcpNewReno

variable (c : NewRenoConfig)

/-- The segments that `SendPendingData` transmitted end in the advertised window. -/
def RespectsWindow (st : TcpNewReno) : Prop :=
  ∀ s ∈ st.sent, (s.1 + s.2).distance st.txBuffer.headSequence ≤ st.rWnd.toNat

/-- The advertised window is not smaller than the congestion window, or it holds all that is left
to send. -/
def Limited (st : TcpNewReno) : Prop :=
  st.cWnd ≤ st.rWnd ∨ st.unAckDataCount.toNat + st.remaining.toNat ≤ st.rWnd.toNat

/-- The state in which a handler calls `SendPendingData`. -/
def sendState (st : TcpNewReno) : Event → Option TcpNewReno
  | .send p => if (st.txBuffer.add p).2 then some { st with txBuffer := (st.txBuffer.add p).1 }
      else none
  | .newAck ack => (st.ackWindow c ack).advance ack
  | .dupAck _ => if st.inFastRec then some (st.inflate c) else none
  | _ => none

variable {c} {st st' : TcpNewReno}

theorem unAckDataCount_sentPacket {st₁ : TcpNewReno} (hkeeps : Keeps st st₁) (sz : UInt32) :
    (sentPacket st st₁ sz).unAckDataCount = st.unAckDataCount + sz := by
  unfold unAckDataCount sentPacket TcpTxBuffer.headSequence
  rw [hkeeps.txBuffer_eq, SequenceNumber32.toUInt32_sub, SequenceNumber32.toUInt32_sub]
  exact add_sub_right_comm _ _ _

theorem distance_end (st : TcpNewReno) (sz : UInt32) :
    (st.nextTxSequence + sz).distance st.txBuffer.headSequence =
      (st.unAckDataCount + sz).toNat := by
  unfold SequenceNumber32.distance unAckDataCount
  rw [SequenceNumber32.toUInt32_sub]
  exact congrArg UInt32.toNat (add_sub_right_comm _ _ _)

/-- A packet that the window allows fits between the outstanding bytes and the end of the window. -/
theorem add_le_of_le_availableWindow {sz : UInt32} (hpos : 0 < sz)
    (hle : sz ≤ st.availableWindow) : st.unAckDataCount.toNat + sz.toNat ≤ st.cWnd.toNat := by
  unfold availableWindow at hle
  rw [UInt32.lt_iff_toNat_lt, UInt32.toNat_zero] at hpos
  split at hle
  next =>
    rw [UInt32.le_iff_toNat_le, UInt32.toNat_zero] at hle
    omega
  next hfits =>
    have hunack : st.unAckDataCount ≤ st.window := UInt32.not_lt.mp hfits
    rw [UInt32.le_iff_toNat_le, UInt32.toNat_sub_of_le _ _ hunack] at hle
    change _ ≤ st.window.toNat
    rw [UInt32.le_iff_toNat_le] at hunack
    omega

/-- Every packet of the loop ends in the congestion window, and with the last byte at most. -/
theorem sendLoop_ends {fuel m : ℕ} (hm : st.unAckDataCount.toNat + st.remaining.toNat ≤ m)
    (hloop : sendLoop c fuel st = some st')
    (hsent : ∀ s ∈ st.sent, (s.1 + s.2).distance st.txBuffer.headSequence ≤ st.cWnd.toNat ∧
      (s.1 + s.2).distance st.txBuffer.headSequence ≤ m) :
    ∀ s ∈ st'.sent, (s.1 + s.2).distance st.txBuffer.headSequence ≤ st.cWnd.toNat ∧
      (s.1 + s.2).distance st.txBuffer.headSequence ≤ m := by
  induction fuel generalizing st with
  | zero =>
      obtain rfl := Option.some.inj hloop
      exact hsent
  | succ fuel ih =>
      rcases sendLoop_succ hloop with ⟨-, hsame⟩ | ⟨st₁, sz, hkeeps, hsame, hpos, hleft, hfits, hrest⟩
      · rwa [hsame]
      · have hend := add_le_of_le_availableWindow hpos hfits
        have hcWnd := st.cWnd.toNat_lt
        have hsum : (st.unAckDataCount + sz).toNat = st.unAckDataCount.toNat + sz.toNat :=
          UInt32.toNat_add_of_lt (by omega)
        have hremains := remaining_sentPacket hkeeps sz
        have hunack := unAckDataCount_sentPacket hkeeps sz
        rw [UInt32.le_iff_toNat_le] at hleft
        have hkeeps' := sentPacket_keeps hkeeps sz
        have hall := ih ?_ hrest ?_
        · rwa [hkeeps'.txBuffer_eq, hkeeps'.cWnd_eq] at hall
        · rw [hunack, hremains, hsum, UInt32.toNat_sub_of_toNat_le hleft]
          omega
        · rw [hkeeps'.txBuffer_eq, hkeeps'.cWnd_eq]
          intro s hs
          change s ∈ st₁.sent ++ [(st.nextTxSequence, sz)] at hs
          rw [hsame] at hs
          rcases List.mem_append.mp hs with hs | hs
          · exact hsent s hs
          · obtain rfl := List.mem_singleton.mp hs
            rw [distance_end, hsum]
            omega

theorem sendPendingData_respects (hst : st.sent = []) (hlimited : st.Limited)
    (hsend : st.sendPendingData c = some st') : st'.RespectsWindow := by
  have hkeeps := sendPendingData_keeps hsend
  intro s hs
  rw [hkeeps.txBuffer_eq, hkeeps.rWnd_eq]
  unfold sendPendingData at hsend
  split at hsend
  next =>
    obtain rfl := Option.some.inj hsend
    rw [hst] at hs
    cases hs
  next =>
    obtain ⟨hcWnd, hlast⟩ := sendLoop_ends le_rfl hsend (by rw [hst]; simp) s hs
    rcases hlimited with hle | hle
    · exact hcWnd.trans (UInt32.le_iff_toNat_le.mp hle)
    · exact hlast.trans hle

theorem RespectsWindow.of_keeps (hst : st.RespectsWindow) (hkeeps : Keeps st st')
    (hsent : st'.sent = st.sent) : st'.RespectsWindow := by
  intro s hs
  rw [hkeeps.txBuffer_eq, hkeeps.rWnd_eq]
  exact hst s (hsent ▸ hs)

theorem respectsWindow_of_nil (hst : st.sent = []) : st.RespectsWindow := by
  intro s hs
  rw [hst] at hs
  cases hs

theorem ackWindow_sent (st : TcpNewReno) (ack : SequenceNumber32) :
    (st.ackWindow c ack).sent = st.sent := by
  have halpha : st.updateAlpha.sent = st.sent := by
    unfold updateAlpha
    split <;> rfl
  have hfull : (st.updateAlpha.fullAck c ack).sent = st.updateAlpha.sent := by
    unfold fullAck
    split <;> rfl
  unfold ackWindow
  split
  · exact halpha
  · exact hfull.trans halpha

theorem newAck_respects {ack : SequenceNumber32} (hst : st.sent = [])
    (hlimited : ∀ st₁, (st.ackWindow c ack).advance ack = some st₁ → st₁.Limited)
    (hack : st.newAck c ack = some st') : st'.RespectsWindow := by
  obtain ⟨st₁, hadvance, hrest⟩ := Option.bind_eq_some_iff.mp hack
  obtain ⟨st₂, hsend, hlast⟩ := Option.bind_eq_some_iff.mp hrest
  have hsent : st₁.sent = [] := by
    obtain ⟨b, -, rfl⟩ := Option.map_eq_some_iff.mp hadvance
    exact (ackWindow_sent st ack).trans hst
  have hst₂ := sendPendingData_respects hsent (hlimited st₁ hadvance) hsend
  split at hlast
  next =>
    obtain ⟨st₃, hretransmit, rfl⟩ := Option.map_eq_some_iff.mp hlast
    obtain ⟨hkeeps, hsame⟩ := doRetransmit_spec hretransmit
    exact (hst₂.of_keeps hkeeps hsame).of_keeps ⟨rfl, rfl, rfl, rfl, rfl⟩ rfl
  next =>
    obtain rfl := Option.some.inj hlast
    exact hst₂

theorem dupAck_respects {count : UInt32} {now : ℕ} (hst : st.sent = [])
    (hlimited : st.inFastRec = true → (st.inflate c).Limited)
    (hack : st.dupAck c count now = some st') : st'.RespectsWindow := by
  unfold dupAck at hack
  split at hack
  next =>
    obtain ⟨-, hsame⟩ := doRetransmit_spec hack
    exact respectsWindow_of_nil (hsame.trans hst)
  next =>
    split at hack
    next hfast =>
      have hsent : (st.inflate c).sent = [] := hst
      exact sendPendingData_respects hsent (hlimited hfast) hack
    next =>
      split at hack
      next =>
        obtain ⟨r, hpacket, rfl⟩ := Option.map_eq_some_iff.mp hack
        obtain ⟨-, -, hsame, -⟩ := sendDataPacket_spec hpacket
        exact respectsWindow_of_nil (hsame.trans hst)
      next =>
        obtain rfl := Option.some.inj hack
        exact respectsWindow_of_nil hst

/-- A handler that calls `SendPendingData` in a limited state respects the advertised window. -/
theorem step_respects {e : Event}
    (hlimited : ∀ st₁, { st with sent := [] }.sendState c e = some st₁ → st₁.Limited)
    (hstep : step c st e = some st') : st'.RespectsWindow := by
  cases e with
  | send p =>
      unfold step at hstep
      dsimp only at hstep
      split at hstep
      next hadded =>
        refine sendPendingData_respects rfl (hlimited _ ?_) hstep
        exact if_pos hadded
      next =>
        obtain rfl := Option.some.inj hstep
        exact respectsWindow_of_nil rfl
  | shutdownSend =>
      obtain rfl := Option.some.inj hstep
      exact respectsWindow_of_nil rfl
  | window windowSize =>
      obtain rfl := Option.some.inj hstep
      exact respectsWindow_of_nil rfl
  | halveCwnd ack now estimate =>
      unfold step at hstep
      dsimp only at hstep
      split at hstep
      next =>
        obtain rfl := Option.some.inj hstep
        exact respectsWindow_of_nil rfl
      next => cases hstep
  | newAck ack =>
      unfold step at hstep
      dsimp only at hstep
      split at hstep
      next =>
        obtain ⟨st₁, hack, rfl⟩ := Option.map_eq_some_iff.mp hstep
        exact (newAck_respects rfl hlimited hack).of_keeps ⟨rfl, rfl, rfl, rfl, rfl⟩ rfl
      next => cases hstep
  | dupAck now =>
      unfold step at hstep
      dsimp only at hstep
      split at hstep
      next =>
        refine dupAck_respects rfl (fun hfast => ?_) hstep
        exact hlimited (inflate c { st with sent := [] }) (if_pos hfast)
      next => cases hstep
  | retransmit now =>
      have hsame : st'.sent = [] := by
        change retransmit c { st with sent := [] } now = some st' at hstep
        unfold retransmit at hstep
        split at hstep
        next =>
          obtain rfl := Option.some.inj hstep
          rfl
        next => exact (doRetransmit_spec hstep).2
      exact respectsWindow_of_nil hsame

/-- In a run in which `SendPendingData` is called in limited states only, every segment that it
transmits ends in the advertised window. -/
theorem segments_in_rWnd (head : SequenceNumber32) (maxBuffer cWnd ssThresh rWnd : UInt32)
    {events : List Event}
    (hlimited : EachStep (step c)
      (fun st e _ => ∀ st₁, { st with sent := [] }.sendState c e = some st₁ → st₁.Limited)
      (established head maxBuffer cWnd ssThresh rWnd) events) :
    Throughout (step c) RespectsWindow
      (established head maxBuffer cWnd ssThresh rWnd) events := by
  rw [throughout_iff_eachStep]
  refine ⟨respectsWindow_of_nil rfl, ?_⟩
  intro done e rest st st' heq hrun hstep
  exact step_respects (hlimited done e rest st st' heq hrun hstep) hstep

/-- Segments of up to four bytes. -/
def fourBytes : NewRenoConfig where
  segmentSize := 4
  retxThresh := 3
  limitedTx := false
  noDelay := true
  ecnConn := false

theorem segments_in_rWnd_wide :
    Throughout (step fourBytes) RespectsWindow (established ⟨0⟩ 100 8 64 100)
      [.send [1, 2, 3, 4, 5, 6]] := by
  refine segments_in_rWnd ⟨0⟩ 100 8 64 100 ?_
  refine eachStep_cons.mpr fun s₁ h₁ => ⟨fun st₁ hst₁ => ?_, eachStep_nil _⟩
  obtain rfl := Option.some.inj hst₁
  exact Or.inl (by decide)

/-- The peer closes its window, and the application sends. -/
def zeroWindow : List Event := [.window 0, .send [1, 2, 3, 4]]

theorem zeroWindow_ignored :
    ¬ Throughout (step fourBytes) RespectsWindow (established ⟨0⟩ 100 8 64 100)
      zeroWindow := by
  intro h
  have hlast := h zeroWindow [] _ rfl rfl (⟨0⟩, 4) (by decide)
  exact absurd hlast (by decide)

end TcpNewReno

end Ns3Rdma
