import Ns3Rdma.Tcp.Progress

/-! # Steps within ESTABLISHED

As long as the connection stays established, the data of a segment, the application and the delayed
ACK do not touch the transmit side. What is left are the acknowledgement, `Send` and two timers. -/

namespace Ns3Rdma

namespace TcpSocketBase

variable {s s' s₁ s₂ : TcpSocketBase} {p : Payload} {h : TcpHeader} {flags : TcpFlags}
  {d : Congestion}

/-- Nothing but empty segments is sent, and the transmit side stays as it is. -/
structure Quiet (s s' : TcpSocketBase) : Prop where
  txBuffer_eq : s'.txBuffer = s.txBuffer
  next_eq : s'.nextTxSequence = s.nextTxSequence
  high_eq : s'.highTxMark = s.highTxMark
  retxEvent_eq : s'.retxEvent = s.retxEvent
  persistEvent_eq : s'.persistEvent = s.persistEvent
  sent_eq : ∃ new, s'.sent = s.sent ++ new ∧ ∀ segment ∈ new, segment.2 = []

namespace Quiet

theorem of_sent (htx : s'.txBuffer = s.txBuffer) (hnext : s'.nextTxSequence = s.nextTxSequence)
    (hhigh : s'.highTxMark = s.highTxMark) (hretx : s'.retxEvent = s.retxEvent)
    (hpersist : s'.persistEvent = s.persistEvent) (hsent : s'.sent = s.sent) : Quiet s s' :=
  ⟨htx, hnext, hhigh, hretx, hpersist, [], by rw [hsent, List.append_nil], by simp⟩

theorem refl (s : TcpSocketBase) : Quiet s s := of_sent rfl rfl rfl rfl rfl rfl

theorem trans (h₁ : Quiet s s₁) (h₂ : Quiet s₁ s₂) : Quiet s s₂ := by
  obtain ⟨new₁, hsent₁, hempty₁⟩ := h₁.sent_eq
  obtain ⟨new₂, hsent₂, hempty₂⟩ := h₂.sent_eq
  refine ⟨h₂.txBuffer_eq.trans h₁.txBuffer_eq, h₂.next_eq.trans h₁.next_eq,
    h₂.high_eq.trans h₁.high_eq, h₂.retxEvent_eq.trans h₁.retxEvent_eq,
    h₂.persistEvent_eq.trans h₁.persistEvent_eq, new₁ ++ new₂, ?_, fun segment hsegment => ?_⟩
  · rw [hsent₂, hsent₁, List.append_assoc]
  · rcases List.mem_append.mp hsegment with hold | hnew
    · exact hempty₁ segment hold
    · exact hempty₂ segment hnew

end Quiet

theorem quiet_sendEmptyPacket (s : TcpSocketBase) (hfin : flags.fin = false) :
    Quiet s (s.sendEmptyPacket flags) := by
  unfold sendEmptyPacket
  split
  · exact Quiet.refl s
  · refine ⟨rfl, rfl, rfl, ?_, rfl, _, rfl, fun segment hsegment => ?_⟩
    · simp [hfin]
    · rw [List.mem_singleton.mp hsegment]

theorem quiet_acknowledge (s : TcpSocketBase) (seq : SequenceNumber32) (p : Payload) :
    Quiet s (s.acknowledge seq p) := by
  unfold acknowledge
  split
  · exact quiet_sendEmptyPacket s rfl
  · split
    · have hreset : Quiet s { s with delAckEvent := false, delAckCount := 0 } :=
        Quiet.of_sent rfl rfl rfl rfl rfl rfl
      exact hreset.trans (quiet_sendEmptyPacket _ rfl)
    · exact Quiet.of_sent rfl rfl rfl rfl rfl rfl

/-- A later state is not left for ESTABLISHED. -/
theorem not_established_of_lt (hlt : 1 < s.state.progress) : s.state ≠ .ESTABLISHED := by
  intro hstate
  rw [hstate] at hlt
  exact absurd hlt (by decide)

/-- No other state has the progress of ESTABLISHED. -/
theorem established_of_progress {state : TcpStates}
    (hge : TcpStates.ESTABLISHED.progress ≤ state.progress)
    (hle : state.progress ≤ TcpStates.ESTABLISHED.progress) : state = .ESTABLISHED := by
  revert hge hle
  cases state <;> decide

/-- Sending leaves ESTABLISHED for good, if at all. -/
theorem SendsOnly.established (hsends : SendsOnly s s₁) (hopen : s.state = .ESTABLISHED)
    (hle : s₁.state.progress ≤ TcpStates.ESTABLISHED.progress) : s₁.state = .ESTABLISHED := by
  rcases hsends.state_eq with heq | heq
  · exact heq.trans hopen
  · rw [heq, hopen] at hle
    exact absurd hle (by decide)

/-- A new acknowledgement leaves ESTABLISHED only for good. -/
theorem established_of_newAck {window : UInt32} {withAck : Bool} {ack : SequenceNumber32}
    {s₂ : TcpSocketBase} (hopen : s.state = .ESTABLISHED) (hadvance : s.advance ack = some s₁)
    (hsend : s₁.sendPendingData window withAck = some s₂) (hlast : s₂.doRetransmit = some s')
    (hstate : s'.state = .ESTABLISHED) : s₂.state = .ESTABLISHED :=
  ((sendsOnly_advance hadvance).trans (sendsOnly_sendPendingData hsend)).established hopen
    (hstate ▸ (sendsOnly_doRetransmit hlast).progress_le)

theorem doPeerClose_leaves (hclose : s.doPeerClose = some s') : s'.state ≠ .ESTABLISHED := by
  unfold doPeerClose at hclose
  split at hclose
  next =>
    obtain ⟨s₁, hs₁⟩ : ∃ s₁ : TcpSocketBase,
      s₁ = { s with state := .CLOSE_WAIT, closeNotified := true } := ⟨_, rfl⟩
    obtain ⟨s₂, hs₂⟩ : ∃ s₂ : TcpSocketBase,
      s₂ = if s₁.shutdownSend then s₁.close else s₁.sendEmptyPacket TcpHeader.ACK := ⟨_, rfl⟩
    -- CLOSE_WAIT lies behind ESTABLISHED, and a close does not lead back
    have hfirst : s₁.state.progress = 4 := by rw [hs₁]; rfl
    have hsecond : s₁.state.progress ≤ s₂.state.progress := by
      rw [hs₂]
      split
      · exact progress_close s₁
      · rw [state_sendEmptyPacket]
    rw [← hs₁] at hclose
    dsimp only at hclose
    rw [← hs₂] at hclose
    obtain rfl := Option.some.inj hclose
    have hleft : s₂.state ≠ .ESTABLISHED := not_established_of_lt (by omega)
    split
    · exact hleft
    · exact hleft
  next => cases hclose

theorem quiet_receivedData (hdata : s.receivedData p h = some s')
    (hstate : s'.state = .ESTABLISHED) : Quiet s s' := by
  obtain ⟨⟨b, stored⟩, -, hrest⟩ := Option.bind_eq_some_iff.mp hdata
  have hstored : Quiet s { s with rxBuffer := b } := Quiet.of_sent rfl rfl rfl rfl rfl rfl
  dsimp only at hrest
  split at hrest
  next => exact Option.some.inj hrest ▸ hstored.trans (quiet_sendEmptyPacket _ rfl)
  next =>
    split at hrest
    next => exact absurd hstate (doPeerClose_leaves hrest)
    next => exact Option.some.inj hrest ▸ hstored.trans (quiet_acknowledge _ _ _)

theorem quiet_peerClose (hclose : s.peerClose p h = some s')
    (hstate : s'.state = .ESTABLISHED) : Quiet s s' := by
  unfold peerClose at hclose
  split at hclose
  next => exact Option.some.inj hclose ▸ Quiet.refl s
  next =>
    obtain ⟨s₁, hdata, hrest⟩ := Option.bind_eq_some_iff.mp hclose
    have hfin : Quiet s
        { s with rxBuffer := s.rxBuffer.setFinSequence (h.sequenceNumber + p.getSize) } :=
      Quiet.of_sent rfl rfl rfl rfl rfl rfl
    have hs₁ : s₁.state = .ESTABLISHED → Quiet s s₁ := by
      intro hstate₁
      split at hdata
      · exact hfin.trans (quiet_receivedData hdata hstate₁)
      · exact Option.some.inj hdata ▸ hfin
    split at hrest
    next =>
      obtain rfl := Option.some.inj hrest
      exact hs₁ hstate
    next =>
      split at hrest
      next =>
        obtain rfl := Option.some.inj hrest
        cases hstate
      next => exact absurd hstate (doPeerClose_leaves hrest)

/-- Only an ACK moves the transmit side, and what moves it is the acknowledgement number. -/
theorem processEstablished_cases (hopen : s.state = .ESTABLISHED)
    (hprocess : s.processEstablished d p h = some s') (hstate : s'.state = .ESTABLISHED) :
    (h.flags = TcpHeader.ACK ∧ ∃ s₁, s.receivedAckNumber d p h = some s₁ ∧ Quiet s₁ s' ∧
        s₁.state = .ESTABLISHED) ∨
      (h.flags ≠ TcpHeader.ACK ∧ Quiet s s') := by
  unfold processEstablished at hprocess
  split at hprocess
  next hflags =>
    -- `ReceivedAck`, and then the data behind it
    left
    obtain ⟨s₁, hack, hdata⟩ := Option.bind_eq_some_iff.mp hprocess
    have hle : s₁.state.progress ≤ s'.state.progress ∧ Quiet s₁ s' := by
      split at hdata
      · exact ⟨progress_receivedData hdata, quiet_receivedData hdata hstate⟩
      · exact Option.some.inj hdata ▸ ⟨le_rfl, Quiet.refl s₁⟩
    exact ⟨hflags, s₁, hack, hle.2,
      (sendsOnly_receivedAckNumber hack).established hopen (hstate ▸ hle.1)⟩
  next hflags =>
    -- SYN, SYN+ACK, FIN and RST segments do not reach `ReceivedAck`
    refine Or.inr ⟨hflags, ?_⟩
    split at hprocess
    next => exact Option.some.inj hprocess ▸ Quiet.refl s
    next =>
      split at hprocess
      next => exact quiet_peerClose hprocess hstate
      next =>
        split at hprocess
        next =>
          obtain ⟨s₁, hdata, hrest⟩ := Option.bind_eq_some_iff.mp hprocess
          have hge := progress_receivedData hdata
          split at hrest
          next =>
            have hle := progress_peerClose hrest
            have hs₁ : s₁.state = .ESTABLISHED :=
              established_of_progress (hopen ▸ hge) (hstate ▸ hle)
            exact (quiet_receivedData hdata hs₁).trans (quiet_peerClose hrest hstate)
          next =>
            obtain rfl := Option.some.inj hrest
            exact quiet_receivedData hdata hstate
        next =>
          obtain rfl := Option.some.inj hprocess
          cases hstate

/-- Whether the handler of the state gets the segment. -/
def InRange (s : TcpSocketBase) (p : Payload) (h : TcpHeader) : Prop :=
  p.getSize = 0 ∨
    outOfRange s.state s.rxBuffer h.sequenceNumber (h.sequenceNumber + p.getSize) = false

instance (s : TcpSocketBase) (p : Payload) (h : TcpHeader) : Decidable (s.InRange p h) :=
  inferInstanceAs (Decidable (_ ∨ _))

theorem doForwardUp_cases (hopen : s.state = .ESTABLISHED)
    (hforward : s.doForwardUp d p h = some s') (hstate : s'.state = .ESTABLISHED) :
    ((s.InRange p h ∧ h.flags = TcpHeader.ACK) ∧ ∃ s₁,
        (s.withWindow h).receivedAckNumber d p h = some s₁ ∧ Quiet s₁ s' ∧
          s₁.state = .ESTABLISHED) ∨
      (¬ (s.InRange p h ∧ h.flags = TcpHeader.ACK) ∧ Quiet (s.withWindow h) s') := by
  rw [doForwardUp_eq] at hforward
  split at hforward
  next hout =>
    refine Or.inr ⟨fun hin => ?_, ?_⟩
    · rcases hin.1 with hzero | hrange
      · exact hout.1 hzero
      · rw [hrange] at hout
        cases hout.2
    · obtain rfl := Option.some.inj hforward
      split
      · exact quiet_sendEmptyPacket _ rfl
      · exact Quiet.refl _
  next hin =>
    have hrange : s.InRange p h := by
      by_cases hzero : p.getSize = 0
      · exact Or.inl hzero
      · exact Or.inr (Bool.eq_false_iff.mpr fun hout => hin ⟨hzero, hout⟩)
    have hwindow : (s.withWindow h).state = .ESTABLISHED := hopen
    unfold process at hforward
    rw [hwindow] at hforward
    rcases processEstablished_cases hwindow hforward hstate with ⟨hflags, hack⟩ | ⟨hflags, hq⟩
    · exact Or.inl ⟨⟨hrange, hflags⟩, hack⟩
    · exact Or.inr ⟨fun hboth => hflags hboth.2, hq⟩

/-- The events that can move the transmit side. -/
def Event.sends : Event → Bool
  | .doForwardUp _ _ | .send _ | .retxEvent | .persistEvent => true
  | .recv _ | .close | .shutdownSend | .delAckEvent | .lastAckEvent | .timewaitEvent => false

/-- What a step does that begins and ends in ESTABLISHED. -/
theorem established_step (hopen : s.state = .ESTABLISHED) {event : Event}
    (hstep : s.step (d, event) = some s') (hstate : s'.state = .ESTABLISHED) :
    (∃ p h, event = .doForwardUp p h ∧
        (((s.InRange p h ∧ h.flags = TcpHeader.ACK) ∧ ∃ s₁,
            (s.withWindow h).receivedAckNumber d p h = some s₁ ∧ Quiet s₁ s' ∧
              s₁.state = .ESTABLISHED) ∨
          (¬ (s.InRange p h ∧ h.flags = TcpHeader.ACK) ∧ Quiet (s.withWindow h) s'))) ∨
      (∃ p, event = .send p ∧ s.send d p = some s') ∨
      (event = .retxEvent ∧ s.expire = some s') ∨
      (event = .persistEvent ∧ s.persistEvent = true ∧ s.persistTimeout = some s') ∨
      (event.sends = false ∧ Quiet s s') := by
  cases event with
  | doForwardUp p h => exact Or.inl ⟨p, h, rfl, doForwardUp_cases hopen hstep hstate⟩
  | send p => exact Or.inr (Or.inl ⟨p, rfl, hstep⟩)
  | retxEvent => exact Or.inr (Or.inr (Or.inl ⟨rfl, hstep⟩))
  | persistEvent =>
      unfold step at hstep
      dsimp only at hstep
      split at hstep
      next hpersist => exact Or.inr (Or.inr (Or.inr (Or.inl ⟨rfl, hpersist, hstep⟩)))
      next => cases hstep
  | recv maxSize =>
      refine Or.inr (Or.inr (Or.inr (Or.inr ⟨rfl, ?_⟩)))
      unfold step recv at hstep
      dsimp only at hstep
      split at hstep
      · exact Option.some.inj hstep ▸ Quiet.refl s
      · obtain ⟨r, -, rfl⟩ := Option.map_eq_some_iff.mp hstep
        exact Quiet.of_sent rfl rfl rfl rfl rfl rfl
  | close =>
      refine Or.inr (Or.inr (Or.inr (Or.inr ⟨rfl, ?_⟩)))
      obtain rfl := Option.some.inj hstep
      unfold close at hstate ⊢
      split at hstate
      next => cases hstate
      next hrx =>
        rw [if_neg hrx]
        split at hstate
        next hleft =>
          -- data is left to be sent, so the FIN has to wait
          rw [if_pos hleft]
          exact Quiet.of_sent rfl rfl rfl rfl rfl rfl
        next =>
          unfold doClose at hstate
          rw [hopen] at hstate
          cases hstate
  | shutdownSend =>
      refine Or.inr (Or.inr (Or.inr (Or.inr ⟨rfl, ?_⟩)))
      exact Option.some.inj hstep ▸ Quiet.of_sent rfl rfl rfl rfl rfl rfl
  | delAckEvent =>
      refine Or.inr (Or.inr (Or.inr (Or.inr ⟨rfl, ?_⟩)))
      unfold step at hstep
      dsimp only at hstep
      split at hstep
      · obtain rfl := Option.some.inj hstep
        have hreset : Quiet s { s with delAckCount := 0, delAckEvent := false } :=
          Quiet.of_sent rfl rfl rfl rfl rfl rfl
        exact hreset.trans (quiet_sendEmptyPacket _ rfl)
      · cases hstep
  | lastAckEvent =>
      refine Or.inr (Or.inr (Or.inr (Or.inr ⟨rfl, ?_⟩)))
      unfold step at hstep
      dsimp only at hstep
      split at hstep
      · obtain rfl := Option.some.inj hstep
        unfold lastAckTimeout
        rw [if_neg (by rw [hopen]; decide)]
        exact Quiet.of_sent rfl rfl rfl rfl rfl rfl
      · cases hstep
  | timewaitEvent =>
      unfold step at hstep
      dsimp only at hstep
      split at hstep
      · obtain rfl := Option.some.inj hstep
        cases hstate
      · cases hstep

end TcpSocketBase

end Ns3Rdma
