import Ns3Rdma.Tcp.Socket

/-! # The order of the states

A connection never returns to an earlier state. What is sent only leads from the states before the
FIN of the socket to those behind it, and it does not touch the receive side. -/

namespace Ns3Rdma

/-- How far a connection in this state has come. -/
def TcpStates.progress : TcpStates → ℕ
  | .LISTEN | .SYN_SENT | .SYN_RCVD => 0
  | .ESTABLISHED => 1
  | .FIN_WAIT_1 => 2
  | .FIN_WAIT_2 => 3
  | .CLOSE_WAIT | .CLOSING => 4
  | .LAST_ACK => 5
  | .TIME_WAIT => 6
  | .CLOSED => 7

namespace TcpSocketBase

/-- What sending leaves as it is, and the state that it may leave. -/
structure SendsOnly (s s' : TcpSocketBase) : Prop where
  rxBuffer_eq : s'.rxBuffer = s.rxBuffer
  shutdownSend_eq : s'.shutdownSend = s.shutdownSend
  state_eq : s'.state = s.state ∨ s'.state = afterFin s.state

variable {s s' s₁ s₂ : TcpSocketBase} {seq ack : SequenceNumber32} {p : Payload} {h : TcpHeader}
  {flags : TcpFlags} {d : Congestion}

theorem afterFin_afterFin (state : TcpStates) : afterFin (afterFin state) = afterFin state := by
  cases state <;> rfl

theorem progress_le_afterFin (state : TcpStates) : state.progress ≤ (afterFin state).progress := by
  cases state <;> decide

theorem state_sendEmptyPacket (s : TcpSocketBase) (flags : TcpFlags) :
    (s.sendEmptyPacket flags).state = s.state := by
  unfold sendEmptyPacket
  split <;> rfl

namespace SendsOnly

theorem refl (s : TcpSocketBase) : SendsOnly s s := ⟨rfl, rfl, Or.inl rfl⟩

theorem trans (h₁ : SendsOnly s s₁) (h₂ : SendsOnly s₁ s₂) : SendsOnly s s₂ := by
  refine ⟨h₂.rxBuffer_eq.trans h₁.rxBuffer_eq, h₂.shutdownSend_eq.trans h₁.shutdownSend_eq, ?_⟩
  rcases h₁.state_eq with heq₁ | heq₁ <;> rcases h₂.state_eq with heq₂ | heq₂
  · exact Or.inl (heq₂.trans heq₁)
  · exact Or.inr (heq₂.trans (congrArg afterFin heq₁))
  · exact Or.inr (heq₂.trans heq₁)
  · rw [heq₁, afterFin_afterFin] at heq₂
    exact Or.inr heq₂

theorem progress_le (hsends : SendsOnly s s') : s.state.progress ≤ s'.state.progress := by
  rcases hsends.state_eq with heq | heq <;> rw [heq]
  exact progress_le_afterFin _

end SendsOnly

/-! ## What only sends -/

theorem sendsOnly_sendEmptyPacket (s : TcpSocketBase) (flags : TcpFlags) :
    SendsOnly s (s.sendEmptyPacket flags) := by
  refine ⟨?_, ?_, Or.inl (state_sendEmptyPacket s flags)⟩ <;> unfold sendEmptyPacket <;>
    split <;> rfl

theorem sendsOnly_acknowledge (s : TcpSocketBase) (seq : SequenceNumber32) (p : Payload) :
    SendsOnly s (s.acknowledge seq p) := by
  unfold acknowledge
  split
  · exact sendsOnly_sendEmptyPacket s _
  · split
    · have hreset : SendsOnly s { s with delAckEvent := false, delAckCount := 0 } :=
        ⟨rfl, rfl, Or.inl rfl⟩
      exact hreset.trans (sendsOnly_sendEmptyPacket _ _)
    · exact ⟨rfl, rfl, Or.inl rfl⟩

theorem sendsOnly_sendDataPacket {maxSize : UInt32} {withAck : Bool}
    {r : TcpSocketBase × UInt32} (hsend : s.sendDataPacket seq maxSize withAck = some r) :
    SendsOnly s r.1 := by
  obtain ⟨p, -, rfl⟩ := Option.map_eq_some_iff.mp hsend
  refine ⟨rfl, rfl, ?_⟩
  dsimp only
  split
  · exact Or.inr rfl
  · exact Or.inl rfl

theorem sendsOnly_sendLoop {window : UInt32} {withAck : Bool} {fuel : ℕ}
    (hloop : sendLoop window withAck fuel s = some s') : SendsOnly s s' := by
  induction fuel generalizing s with
  | zero =>
      obtain rfl := Option.some.inj hloop
      exact SendsOnly.refl s
  | succ fuel ih =>
      rcases sendLoop_succ hloop with rfl | ⟨n, r, hsend, hrest⟩
      · exact SendsOnly.refl _
      · have hr := sendsOnly_sendDataPacket hsend
        have hnext : SendsOnly s { r.1 with nextTxSequence := s.nextTxSequence + r.2 } :=
          hr.trans ⟨rfl, rfl, Or.inl rfl⟩
        rcases hrest with hrest | rfl
        · exact hnext.trans (ih hrest)
        · exact hr

theorem sendsOnly_sendPendingData {window : UInt32} {withAck : Bool}
    (hsend : s.sendPendingData window withAck = some s') : SendsOnly s s' := by
  unfold sendPendingData at hsend
  split at hsend
  next => exact Option.some.inj hsend ▸ SendsOnly.refl s
  next =>
    split at hsend
    next => exact Option.some.inj hsend ▸ SendsOnly.refl s
    next => exact sendsOnly_sendLoop hsend

theorem sendsOnly_doRetransmit (hsend : s.doRetransmit = some s') : SendsOnly s s' := by
  unfold doRetransmit at hsend
  split at hsend
  next => cases hsend
  next =>
    split at hsend
    next =>
      obtain rfl := Option.some.inj hsend
      split
      · exact sendsOnly_sendEmptyPacket s _
      · exact SendsOnly.refl s
    next =>
      obtain ⟨r, hpacket, rfl⟩ := Option.map_eq_some_iff.mp hsend
      exact (sendsOnly_sendDataPacket hpacket).trans ⟨rfl, rfl, Or.inl rfl⟩

theorem sendsOnly_dupAck (hdup : s.dupAck d = some s') : SendsOnly s s' := by
  unfold dupAck at hdup
  split at hdup
  next => exact Option.some.inj hdup ▸ SendsOnly.refl s
  next => exact sendsOnly_sendPendingData hdup
  next =>
    split at hdup
    next =>
      obtain ⟨r, hpacket, rfl⟩ := Option.map_eq_some_iff.mp hdup
      exact (sendsOnly_sendDataPacket hpacket).trans ⟨rfl, rfl, Or.inl rfl⟩
    next => exact Option.some.inj hdup ▸ SendsOnly.refl s
  next => exact sendsOnly_doRetransmit hdup

theorem sendsOnly_advance (hadvance : s.advance ack = some s') : SendsOnly s s' := by
  obtain ⟨txBuffer, -, rfl⟩ := Option.map_eq_some_iff.mp hadvance
  have htimers : SendsOnly s s.restartTimers := by
    unfold restartTimers
    split
    · exact ⟨rfl, rfl, Or.inl rfl⟩
    · split
      · exact SendsOnly.refl s
      · exact ⟨rfl, rfl, Or.inl rfl⟩
  exact htimers.trans ⟨rfl, rfl, Or.inl rfl⟩

theorem sendsOnly_newAck (hack : s.newAck d ack = some s') : SendsOnly s s' := by
  obtain ⟨s₁, hadvance, hrest⟩ := Option.bind_eq_some_iff.mp hack
  obtain ⟨s₂, hsend, hlast⟩ := Option.bind_eq_some_iff.mp hrest
  have hs₂ := (sendsOnly_advance hadvance).trans (sendsOnly_sendPendingData hsend)
  split at hlast
  · exact hs₂.trans (sendsOnly_doRetransmit hlast)
  · exact Option.some.inj hlast ▸ hs₂

theorem sendsOnly_receivedAckNumber (hack : s.receivedAckNumber d p h = some s') :
    SendsOnly s s' := by
  rcases receivedAckNumber_cases d hack with rfl | hdup | ⟨-, -, hack⟩
  · exact SendsOnly.refl _
  · exact sendsOnly_dupAck hdup
  · exact sendsOnly_newAck hack

theorem sendsOnly_expire (hexpire : s.expire = some s') : SendsOnly s s' := by
  have hexpired : SendsOnly s { s with retxEvent := none } := ⟨rfl, rfl, Or.inl rfl⟩
  rcases expire_cases hexpire with rfl | hexpire | ⟨flags, -, rfl⟩
  · exact hexpired
  · have hhead : SendsOnly s
        { s with retxEvent := none, nextTxSequence := s.txBuffer.headSequence } :=
      ⟨rfl, rfl, Or.inl rfl⟩
    exact hhead.trans (sendsOnly_doRetransmit hexpire)
  · exact hexpired.trans (sendsOnly_sendEmptyPacket _ _)

/-! ## Every step -/

theorem progress_le_closed (state : TcpStates) : state.progress ≤ TcpStates.CLOSED.progress := by
  cases state <;> decide

theorem state_acknowledge (s : TcpSocketBase) (seq : SequenceNumber32) (p : Payload) :
    (s.acknowledge seq p).state = s.state := by
  unfold acknowledge
  split
  · exact state_sendEmptyPacket s _
  · split
    · exact state_sendEmptyPacket _ _
    · rfl

theorem progress_doClose (s : TcpSocketBase) : s.state.progress ≤ s.doClose.state.progress := by
  unfold doClose
  split
  next hstate =>
    rw [hstate]
    exact (by decide : TcpStates.SYN_RCVD.progress ≤ TcpStates.FIN_WAIT_1.progress)
  next hstate =>
    rw [hstate]
    exact (by decide : TcpStates.ESTABLISHED.progress ≤ TcpStates.FIN_WAIT_1.progress)
  next hstate =>
    rw [hstate]
    exact (by decide : TcpStates.CLOSE_WAIT.progress ≤ TcpStates.LAST_ACK.progress)
  next => exact progress_le_closed _
  next => exact progress_le_closed _
  next => exact progress_le_closed _
  next => exact progress_le_closed _
  all_goals exact le_rfl

theorem progress_close (s : TcpSocketBase) : s.state.progress ≤ s.close.state.progress := by
  unfold close
  split
  · exact progress_le_closed _
  · split
    · exact le_rfl
    · exact progress_doClose s

theorem progress_doPeerClose (hclose : s.doPeerClose = some s') :
    s.state.progress ≤ s'.state.progress := by
  unfold doPeerClose at hclose
  split at hclose
  next hstate =>
    obtain ⟨s₁, hs₁⟩ : ∃ s₁ : TcpSocketBase,
      s₁ = { s with state := .CLOSE_WAIT, closeNotified := true } := ⟨_, rfl⟩
    have hfirst : s.state.progress ≤ s₁.state.progress := by
      rw [hs₁]
      change s.state.progress ≤ TcpStates.CLOSE_WAIT.progress
      rcases hstate with hstate | hstate <;> rw [hstate] <;> decide
    obtain ⟨s₂, hs₂⟩ : ∃ s₂ : TcpSocketBase,
      s₂ = if s₁.shutdownSend then s₁.close else s₁.sendEmptyPacket TcpHeader.ACK := ⟨_, rfl⟩
    have hsecond : s₁.state.progress ≤ s₂.state.progress := by
      rw [hs₂]
      split
      · exact progress_close s₁
      · exact (congrArg TcpStates.progress (state_sendEmptyPacket s₁ _)).ge
    rw [← hs₁] at hclose
    dsimp only at hclose
    rw [← hs₂] at hclose
    obtain rfl := Option.some.inj hclose
    refine hfirst.trans (hsecond.trans ?_)
    split <;> exact le_rfl
  next => cases hclose

theorem progress_receivedData (hdata : s.receivedData p h = some s') :
    s.state.progress ≤ s'.state.progress := by
  obtain ⟨⟨b, stored⟩, -, hrest⟩ := Option.bind_eq_some_iff.mp hdata
  dsimp only at hrest
  split at hrest
  · obtain rfl := Option.some.inj hrest
    rw [state_sendEmptyPacket]
  · obtain ⟨s₁, hs₁⟩ : ∃ s₁, s₁ =
      { s with rxBuffer := b }.acknowledge s.rxBuffer.nextRxSeq p := ⟨_, rfl⟩
    have hsame : s₁.state = s.state := by rw [hs₁, state_acknowledge]
    rw [← hs₁] at hrest
    rw [← hsame]
    split at hrest
    · exact progress_doPeerClose hrest
    · exact Option.some.inj hrest ▸ le_rfl

theorem progress_peerClose (hclose : s.peerClose p h = some s') :
    s.state.progress ≤ s'.state.progress := by
  unfold peerClose at hclose
  split at hclose
  · exact Option.some.inj hclose ▸ le_rfl
  · obtain ⟨s₁, hdata, hrest⟩ := Option.bind_eq_some_iff.mp hclose
    have hs₁ : s.state.progress ≤ s₁.state.progress := by
      split at hdata
      · have hreceived := progress_receivedData hdata
        exact hreceived
      · exact Option.some.inj hdata ▸ le_rfl
    split at hrest
    · exact Option.some.inj hrest ▸ hs₁
    · split at hrest
      next hstate =>
        obtain rfl := Option.some.inj hrest
        refine hs₁.trans ?_
        rw [hstate]
        exact (by decide : TcpStates.FIN_WAIT_1.progress ≤ TcpStates.CLOSING.progress)
      next => exact hs₁.trans (progress_doPeerClose hrest)

theorem progress_receivedAck (hack : s.receivedAck d p h = some s') :
    s.state.progress ≤ s'.state.progress := by
  obtain ⟨s₁, hnumber, hdata⟩ := Option.bind_eq_some_iff.mp hack
  have hs₁ := (sendsOnly_receivedAckNumber hnumber).progress_le
  split at hdata
  · exact hs₁.trans (progress_receivedData hdata)
  · exact Option.some.inj hdata ▸ hs₁

theorem progress_finishWait (s : TcpSocketBase) (h : TcpHeader) :
    s.state.progress ≤ (s.finishWait h).state.progress := by
  unfold finishWait
  split
  next hwait =>
    rw [state_sendEmptyPacket]
    split
    next hstate =>
      rw [hstate]
      dsimp only
      split
      · exact (by decide : TcpStates.FIN_WAIT_1.progress ≤ TcpStates.TIME_WAIT.progress)
      · exact (by decide : TcpStates.FIN_WAIT_1.progress ≤ TcpStates.CLOSING.progress)
    next hstate =>
      rw [hwait.1.resolve_left hstate]
      exact (by decide : TcpStates.FIN_WAIT_2.progress ≤ TcpStates.TIME_WAIT.progress)
  next => exact le_rfl

theorem progress_processEstablished (hprocess : s.processEstablished d p h = some s') :
    s.state.progress ≤ s'.state.progress := by
  unfold processEstablished at hprocess
  split at hprocess
  next => exact progress_receivedAck hprocess
  next =>
    split at hprocess
    next => exact Option.some.inj hprocess ▸ le_rfl
    next =>
      split at hprocess
      next => exact progress_peerClose hprocess
      next =>
        split at hprocess
        next =>
          obtain ⟨s₁, hdata, hrest⟩ := Option.bind_eq_some_iff.mp hprocess
          have hs₁ := progress_receivedData hdata
          split at hrest
          · exact hs₁.trans (progress_peerClose hrest)
          · exact Option.some.inj hrest ▸ hs₁
        next => exact Option.some.inj hprocess ▸ progress_le_closed _

theorem progress_processWait (hprocess : s.processWait d p h = some s') :
    s.state.progress ≤ s'.state.progress := by
  unfold processWait at hprocess
  split at hprocess
  next =>
    obtain ⟨s₁, hdata, rfl⟩ := Option.map_eq_some_iff.mp hprocess
    exact (progress_receivedData hdata).trans (progress_finishWait s₁ h)
  next =>
    split at hprocess
    next =>
      obtain ⟨s₁, hack, rfl⟩ := Option.map_eq_some_iff.mp hprocess
      refine (progress_receivedAck hack).trans (le_trans ?_ (progress_finishWait _ h))
      split
      next hstate =>
        rw [hstate.1]
        exact (by decide : TcpStates.FIN_WAIT_1.progress ≤ TcpStates.FIN_WAIT_2.progress)
      next => exact le_rfl
    next =>
      split at hprocess
      next =>
        obtain ⟨s₁, hack, rfl⟩ := Option.map_eq_some_iff.mp hprocess
        have hs₁ : s.state.progress ≤ s₁.state.progress := by
          split at hack
          · exact progress_receivedAck hack
          · exact Option.some.inj hack ▸ le_rfl
        exact hs₁.trans (progress_finishWait
          { s₁ with rxBuffer := s₁.rxBuffer.setFinSequence h.sequenceNumber } h)
      next =>
        split at hprocess
        next => exact Option.some.inj hprocess ▸ le_rfl
        next => exact Option.some.inj hprocess ▸ progress_le_closed _

theorem progress_processClosing (hstate : s.state = .CLOSING) (h : TcpHeader) :
    s.state.progress ≤ (s.processClosing h).state.progress := by
  unfold processClosing
  split
  next =>
    split
    · rw [hstate]
      exact (by decide : TcpStates.CLOSING.progress ≤ TcpStates.TIME_WAIT.progress)
    · exact le_rfl
  next => split <;> exact progress_le_closed _

theorem progress_processLastAck (hprocess : s.processLastAck p h = some s') :
    s.state.progress ≤ s'.state.progress := by
  unfold processLastAck at hprocess
  split at hprocess
  next => exact progress_receivedData hprocess
  next =>
    split at hprocess
    next =>
      obtain rfl := Option.some.inj hprocess
      split
      · exact progress_le_closed _
      · exact le_rfl
    next =>
      split at hprocess
      next =>
        obtain rfl := Option.some.inj hprocess
        exact (congrArg TcpStates.progress (state_sendEmptyPacket s _)).ge
      next =>
        split at hprocess
        next => exact Option.some.inj hprocess ▸ progress_le_closed _
        next => exact Option.some.inj hprocess ▸ progress_le_closed _

theorem progress_process (hprocess : s.process d p h = some s') :
    s.state.progress ≤ s'.state.progress := by
  unfold process at hprocess
  split at hprocess
  next => exact progress_processEstablished hprocess
  next => exact Option.some.inj hprocess ▸ le_rfl
  next =>
    obtain rfl := Option.some.inj hprocess
    split <;> exact le_rfl
  next => exact progress_processWait hprocess
  next => exact progress_processWait hprocess
  next => exact progress_processWait hprocess
  next hstate => exact Option.some.inj hprocess ▸ progress_processClosing hstate h
  next => exact progress_processLastAck hprocess
  all_goals cases hprocess

/-- The socket once it has stored the window of the header. -/
def withWindow (s : TcpSocketBase) (h : TcpHeader) : TcpSocketBase :=
  { s with
    persistEvent := if s.rWnd = 0 ∧ h.windowSize ≠ 0 then false else s.persistEvent
    rWnd := h.windowSize.toUInt32 }

theorem doForwardUp_eq (s : TcpSocketBase) (d : Congestion) (p : Payload) (h : TcpHeader) :
    s.doForwardUp d p h =
      if p.getSize ≠ 0 ∧
          outOfRange s.state s.rxBuffer h.sequenceNumber (h.sequenceNumber + p.getSize) then
        some (if s.state = .ESTABLISHED ∧ h.flags.rst = false then
          (s.withWindow h).sendEmptyPacket TcpHeader.ACK else s.withWindow h)
      else (s.withWindow h).process d p h := rfl

theorem progress_doForwardUp (hforward : s.doForwardUp d p h = some s') :
    s.state.progress ≤ s'.state.progress := by
  have hsame : (s.withWindow h).state = s.state := rfl
  rw [doForwardUp_eq] at hforward
  rw [← hsame]
  split at hforward
  next =>
    obtain rfl := Option.some.inj hforward
    split
    · rw [state_sendEmptyPacket]
    · exact le_rfl
  next => exact progress_process hforward

theorem progress_send (hsend : s.send d p = some s') :
    s.state.progress ≤ s'.state.progress := by
  unfold send at hsend
  split at hsend
  next =>
    dsimp only at hsend
    split at hsend
    · exact (sendsOnly_sendPendingData hsend).progress_le
    · exact Option.some.inj hsend ▸ le_rfl
  next => exact Option.some.inj hsend ▸ le_rfl

/-- A connection does not return to an earlier state. -/
theorem progress_step {e : Congestion × Event} (hstep : s.step e = some s') :
    s.state.progress ≤ s'.state.progress := by
  obtain ⟨d, event⟩ := e
  cases event with
  | doForwardUp p h => exact progress_doForwardUp hstep
  | send p => exact progress_send hstep
  | recv maxSize =>
      unfold step recv at hstep
      dsimp only at hstep
      split at hstep
      · exact Option.some.inj hstep ▸ le_rfl
      · obtain ⟨r, -, rfl⟩ := Option.map_eq_some_iff.mp hstep
        exact le_rfl
  | close => exact Option.some.inj hstep ▸ progress_close s
  | shutdownSend => exact Option.some.inj hstep ▸ le_rfl
  | retxEvent => exact (sendsOnly_expire hstep).progress_le
  | delAckEvent =>
      unfold step at hstep
      dsimp only at hstep
      split at hstep
      · obtain rfl := Option.some.inj hstep
        unfold delAckTimeout
        rw [state_sendEmptyPacket]
      · cases hstep
  | persistEvent =>
      unfold step at hstep
      dsimp only at hstep
      split at hstep
      · obtain ⟨p, -, rfl⟩ := Option.map_eq_some_iff.mp hstep
        exact le_rfl
      · cases hstep
  | lastAckEvent =>
      unfold step at hstep
      dsimp only at hstep
      split at hstep
      · obtain rfl := Option.some.inj hstep
        unfold lastAckTimeout
        split
        · exact progress_le_closed _
        · exact le_rfl
      · cases hstep
  | timewaitEvent =>
      unfold step at hstep
      dsimp only at hstep
      split at hstep
      · exact Option.some.inj hstep ▸ progress_le_closed _
      · cases hstep

end TcpSocketBase

end Ns3Rdma
