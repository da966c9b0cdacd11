import Ns3Rdma.Tcp.TransmitSide

/-! # The acknowledgement of the FIN

`ProcessWait` tells the acknowledgement of the FIN by its number. `ProcessLastAck` and
`ProcessClosing` take any acknowledgement for it that has the expected sequence number. -/

namespace Ns3Rdma

open StepSystem

namespace TcpSocketBase

variable {iss seq ack : SequenceNumber32} {w : SlidingWindow} {s s' : TcpSocketBase}
  {p : Payload} {h : TcpHeader} {d : Congestion}

/-- The bytes that a call adds to the stream. -/
def written (s : TcpSocketBase) : Event → Payload
  | .send p => if s.accepts p then p else []
  | _ => []

/-- The acknowledgements that an event brings. -/
def acknowledgements : Event → List SequenceNumber32
  | .doForwardUp _ h => if h.flags.ack then [h.ackNumber] else []
  | _ => []

/-- No acknowledgement lies above `m_highTxMark`, that of the FIN apart: nothing is acknowledged
that was never sent, and no byte that only a probe has carried. -/
def AcksMarked (s : TcpSocketBase) : Event → Prop
  | .doForwardUp _ h => h.flags.ack = true → s.Conforms h.ackNumber
  | _ => True

/-- The peer acknowledges the end of a segment that was sent, or less than it has before. -/
def PeerConforms (s : TcpSocketBase) : Event → Prop
  | .doForwardUp _ h => h.flags.ack = true → h.ackNumber ≤ s.txBuffer.headSequence ∨
      ∃ segment ∈ s.sent, h.ackNumber = segment.1.sequenceNumber.plus
        (segment.2.length + if segment.1.flags.fin then 1 else 0)
  | _ => True

/-- What the application sends fits in front of a FIN. -/
def LeavesRoom (s : TcpSocketBase) : Event → Prop
  | .send p => s.accepts p = true → s.txBuffer.size.toNat + p.length < 2 ^ 31 - 1
  | _ => True

namespace Tracked

theorem receivedAck (hs : Tracked iss w s) (hnotOver : ¬ IsOver s.state)
    (hconforms : h.flags.ack = true → s.Conforms h.ackNumber)
    (hack : s.receivedAck d p h = some s') : ∃ w', w'.added = w.added ∧ Tracked iss w' s' := by
  obtain ⟨s₁, hacknowledged, hdata⟩ := Option.bind_eq_some_iff.mp hack
  have hs₁ : ∃ w', w'.added = w.added ∧ Tracked iss w' s₁ := by
    rcases receivedAckNumber_cases d hacknowledged with rfl | hdup | ⟨hflag, hnew, hack⟩
    · exact ⟨w, rfl, hs⟩
    · exact ⟨w, rfl, hs.dupAck hdup⟩
    · exact hs.newAck hnotOver (hconforms hflag) hnew hack
  obtain ⟨w', hadded, htracked⟩ := hs₁
  refine ⟨w', hadded, ?_⟩
  split at hdata
  · exact htracked.receivedData hdata
  · exact Option.some.inj hdata ▸ htracked

theorem reset (hs : Tracked iss w s) :
    Tracked iss w (if h.flags = TcpHeader.RST then s else s.sendRST).closeAndNotify := by
  split
  · exact hs.closeAndNotify
  · exact hs.sendRST.closeAndNotify

theorem processEstablished (hs : Tracked iss w s) (hnotOver : ¬ IsOver s.state)
    (hconforms : h.flags.ack = true → s.Conforms h.ackNumber)
    (hprocess : s.processEstablished d p h = some s') :
    ∃ w', w'.added = w.added ∧ Tracked iss w' s' := by
  unfold TcpSocketBase.processEstablished at hprocess
  split at hprocess
  next => exact hs.receivedAck hnotOver hconforms hprocess
  next =>
    refine ⟨w, rfl, ?_⟩
    split at hprocess
    next => exact Option.some.inj hprocess ▸ hs
    next =>
      split at hprocess
      next => exact hs.peerClose hprocess
      next =>
        split at hprocess
        next =>
          obtain ⟨s₁, hdata, hrest⟩ := Option.bind_eq_some_iff.mp hprocess
          have hs₁ := hs.receivedData hdata
          split at hrest
          · exact hs₁.peerClose hrest
          · exact Option.some.inj hrest ▸ hs₁
        next => exact Option.some.inj hprocess ▸ hs.reset

theorem finishWait (hs : Tracked iss w s) : Tracked iss w (s.finishWait h) := by
  unfold TcpSocketBase.finishWait
  split
  next =>
    refine sendEmptyPacket ?_ fun hfin => absurd hfin (by decide)
    split
    next hstate =>
      have hclosing : Tracked iss w { s with state := .CLOSING } :=
        hs.closing (Or.inl hstate) (Or.inr (Or.inr (Or.inr rfl)))
      dsimp only
      split
      · exact hclosing.timeWait
      · exact hclosing
    next => exact hs.timeWait
  next => exact hs

theorem processWait (hs : Tracked iss w s) (hnotOver : ¬ IsOver s.state)
    (hconforms : h.flags.ack = true → s.Conforms h.ackNumber)
    (hprocess : s.processWait d p h = some s') :
    ∃ w', w'.added = w.added ∧ Tracked iss w' s' := by
  unfold TcpSocketBase.processWait at hprocess
  split at hprocess
  next =>
    obtain ⟨s₁, hdata, rfl⟩ := Option.map_eq_some_iff.mp hprocess
    exact ⟨w, rfl, (hs.receivedData hdata).finishWait⟩
  next =>
    split at hprocess
    next =>
      obtain ⟨s₁, hack, rfl⟩ := Option.map_eq_some_iff.mp hprocess
      obtain ⟨w', hadded, hs₁⟩ := hs.receivedAck hnotOver hconforms hack
      refine ⟨w', hadded, finishWait ?_⟩
      split
      next hstate => exact hs₁.closing (Or.inl hstate.1) (Or.inr (Or.inl rfl))
      next => exact hs₁
    next =>
      split at hprocess
      next =>
        obtain ⟨s₁, hack, rfl⟩ := Option.map_eq_some_iff.mp hprocess
        have hs₁ : ∃ w', w'.added = w.added ∧ Tracked iss w' s₁ := by
          split at hack
          · exact hs.receivedAck hnotOver hconforms hack
          · exact ⟨w, rfl, Option.some.inj hack ▸ hs⟩
        obtain ⟨w', hadded, htracked⟩ := hs₁
        refine ⟨w', hadded, finishWait ?_⟩
        exact htracked.same ⟨rfl, rfl, rfl, rfl, rfl, rfl, fun _ hflags => hflags⟩
      next =>
        refine ⟨w, rfl, ?_⟩
        split at hprocess
        next => exact Option.some.inj hprocess ▸ hs
        next => exact Option.some.inj hprocess ▸ hs.reset

theorem processClosing (hs : Tracked iss w s) : Tracked iss w (s.processClosing h) := by
  unfold TcpSocketBase.processClosing
  split
  next =>
    split
    · exact hs.timeWait
    · exact hs
  next =>
    split
    next => exact (hs.sendEmptyPacket fun hfin => absurd hfin (by decide)).closeAndNotify
    next => exact hs.reset

theorem processLastAck (hs : Tracked iss w s) (hstate : s.state = .LAST_ACK)
    (hprocess : s.processLastAck p h = some s') : Tracked iss w s' := by
  unfold TcpSocketBase.processLastAck at hprocess
  split at hprocess
  next => exact hs.receivedData hprocess
  next =>
    split at hprocess
    next =>
      obtain rfl := Option.some.inj hprocess
      split
      · exact hs.closeAndNotify
      · exact hs
    next =>
      split at hprocess
      next =>
        obtain rfl := Option.some.inj hprocess
        refine hs.sendEmptyPacket fun _ hopen => ?_
        rcases hopen with hopen | hopen <;> rw [hopen] at hstate <;> cases hstate
      next =>
        split at hprocess
        next => exact Option.some.inj hprocess ▸ hs.closeAndNotify
        next => exact Option.some.inj hprocess ▸ hs.sendRST.closeAndNotify

/-- A segment without a FIN is sent, with bytes of the stream. -/
theorem logged (hs : Tracked iss w s) {segment : TcpHeader × Payload}
    (hfin : segment.1.flags.fin = false) (hdata : segment.2 ≠ [] →
      ∃ k, segment.1.sequenceNumber = iss.plus k ∧ k + segment.2.length ≤ w.added.length) :
    Tracked iss w { s with sent := s.sent ++ [segment] } := by
  have hfirst : firstFin { s with sent := s.sent ++ [segment] } = s.firstFin := by
    rw [firstFin_append rfl, hfin, if_neg (by simp), Option.or_none]
  refine ⟨hs.refines, hs.room, hs.placed, ?_, hs.phase, fun hopen => ?_, fun hclosing => ?_⟩
  · intro other hother hne
    rcases List.mem_append.mp hother with hold | hnew
    · exact hs.data other hold hne
    · rw [List.mem_singleton.mp hnew] at hne ⊢
      exact hdata hne
  · rw [hfirst]
    exact hs.noFin hopen
  · rw [hfirst]
    exact hs.finSent hclosing

theorem process (hs : Tracked iss w s)
    (hconforms : h.flags.ack = true → s.Conforms h.ackNumber)
    (hprocess : s.process d p h = some s') :
    ∃ w', w'.added = w.added ∧ Tracked iss w' s' := by
  unfold TcpSocketBase.process at hprocess
  have hover : ∀ state, s.state = state → ¬ IsOver state → ¬ IsOver s.state :=
    fun state hstate hnot => hstate ▸ hnot
  split at hprocess
  next hstate =>
    exact hs.processEstablished (hover _ hstate (by simp [IsOver])) hconforms hprocess
  next => exact ⟨w, rfl, Option.some.inj hprocess ▸ hs⟩
  next hstate =>
    obtain rfl := Option.some.inj hprocess
    refine ⟨w, rfl, ?_⟩
    split
    · exact hs
    · exact hs.logged rfl fun hne => absurd rfl hne
  next hstate => exact hs.processWait (hover _ hstate (by simp [IsOver])) hconforms hprocess
  next hstate => exact hs.processWait (hover _ hstate (by simp [IsOver])) hconforms hprocess
  next hstate => exact hs.processWait (hover _ hstate (by simp [IsOver])) hconforms hprocess
  next => exact ⟨w, rfl, Option.some.inj hprocess ▸ hs.processClosing⟩
  next hstate => exact ⟨w, rfl, hs.processLastAck hstate hprocess⟩
  all_goals cases hprocess

theorem doForwardUp (hs : Tracked iss w s)
    (hconforms : h.flags.ack = true → s.Conforms h.ackNumber)
    (hforward : s.doForwardUp d p h = some s') :
    ∃ w', w'.added = w.added ∧ Tracked iss w' s' := by
  have hwindow : Tracked iss w
      { s with
        persistEvent := if s.rWnd = 0 ∧ h.windowSize ≠ 0 then false else s.persistEvent
        rWnd := h.windowSize.toUInt32 } :=
    hs.same ⟨rfl, rfl, rfl, rfl, rfl, rfl, fun _ hflags => hflags⟩
  unfold TcpSocketBase.doForwardUp at hforward
  dsimp only at hforward
  split at hforward
  next =>
    obtain rfl := Option.some.inj hforward
    refine ⟨w, rfl, ?_⟩
    split
    · exact hwindow.sendEmptyPacket fun hfin => absurd hfin (by decide)
    · exact hwindow
  next => exact hwindow.process hconforms hforward

/-! ## The calls of the application and the timeouts -/

/-- The stream grows by a packet that `Add` stores. -/
theorem add (hs : Tracked iss w s) (haccepts : s.accepts p = true)
    (hroom : s.txBuffer.size.toNat + p.length < 2 ^ 31 - 1) :
    ∃ w', w'.added = w.added ++ p ∧
      Tracked iss w' { s with txBuffer := (s.txBuffer.add p).1 } := by
  unfold accepts at haccepts
  rw [Bool.and_eq_true, decide_eq_true_iff] at haccepts
  obtain ⟨hstate, hstored⟩ := haccepts
  have hopen : IsOpen s.state := by
    rcases hstate with hstate | hstate | hstate
    · exact Or.inl hstate
    · exact absurd hs.phase (by simp [hstate, IsOpen, IsClosing, IsOver])
    · exact Or.inr hstate
  have hpending := hs.refines.size_pending
  have hdiscarded := hs.refines.discarded_le
  obtain ⟨hrefines, hfits⟩ := hs.refines.add_spec (p := p) (by omega) (fun _ => by omega)
  have hadd : w.add p = { w with added := w.added ++ p } := by
    unfold SlidingWindow.add
    rw [if_pos (hfits.mp hstored)]
  have hgrown : (w.add p).pending = w.pending ++ p := by
    rw [hadd]
    exact List.drop_append_of_le_length hdiscarded
  have hlength : (w.add p).pending.length = w.pending.length + p.length := by
    rw [hgrown, List.length_append]
  obtain ⟨hhead, i, j, hij, hj, hnext, hhigh⟩ := hs.notAcked (Or.inr hopen)
  obtain ⟨hend, hnoFin, -, hretx⟩ := hs.noFin hopen
  rw [hadd] at hrefines hlength
  refine ⟨_, rfl, hrefines, by omega, Or.inl ⟨hhead, i, j, hij, by omega, hnext, hhigh⟩, ?_,
    hs.phase, fun _ => ⟨hend, hnoFin, hhead, hretx⟩,
    fun hclosing => absurd hopen hclosing.not_isOpen⟩
  intro segment hsegment hne
  obtain ⟨k, hk, hkend⟩ := hs.data segment hsegment hne
  refine ⟨k, hk, ?_⟩
  rw [List.length_append]
  omega

theorem send (hs : Tracked iss w s) (hroom : s.LeavesRoom (.send p))
    (hsend : s.send d p = some s') :
    ∃ w', w'.added = w.added ++ s.written (.send p) ∧ Tracked iss w' s' := by
  unfold TcpSocketBase.send at hsend
  have hwritten : s.written (.send p) = if s.accepts p then p else [] := rfl
  rw [hwritten]
  by_cases haccepts : s.accepts p
  · rw [if_pos haccepts] at hsend ⊢
    obtain ⟨w', hadded, hs'⟩ := hs.add haccepts (hroom haccepts)
    refine ⟨w', hadded, ?_⟩
    dsimp only at hsend
    split at hsend
    · exact hs'.sendPendingData hsend
    · exact Option.some.inj hsend ▸ hs'
  · rw [if_neg haccepts] at hsend ⊢
    rw [List.append_nil]
    exact ⟨w, rfl, Option.some.inj hsend ▸ hs⟩

theorem recv (hs : Tracked iss w s) {maxSize : UInt32} (hrecv : s.recv maxSize = some s') :
    Tracked iss w s' := by
  unfold TcpSocketBase.recv at hrecv
  split at hrecv
  · exact Option.some.inj hrecv ▸ hs
  · obtain ⟨r, -, rfl⟩ := Option.map_eq_some_iff.mp hrecv
    exact hs.same ⟨rfl, rfl, rfl, rfl, rfl, rfl, fun _ hflags => hflags⟩

theorem retransmit (hs : Tracked iss w s) (hretransmit : s.retransmit = some s') :
    Tracked iss w s' := by
  refine doRetransmit (s := { s with nextTxSequence := s.txBuffer.headSequence }) ?_ hretransmit
  refine ⟨hs.refines, hs.room, ?_, hs.data, hs.phase, hs.noFin, hs.finSent⟩
  dsimp only
  rw [hs.refines.head_eq]
  rcases hs.placed with ⟨hhead, i, j, hij, hj, -, hhigh⟩ | ⟨hnil, hhead, -, hhigh⟩
  · exact Or.inl ⟨hhead, 0, j, Nat.zero_le _, hj, (SequenceNumber32.plus_zero _).symm, hhigh⟩
  · exact Or.inr ⟨hnil, hhead, rfl, hhigh⟩

theorem expire (hs : Tracked iss w s) (hexpire : s.expire = some s') : Tracked iss w s' := by
  have hexpired : Tracked iss w { s with retxEvent := none } :=
    hs.same ⟨rfl, rfl, rfl, rfl, rfl, rfl, fun _ hflags => by cases hflags⟩
  rcases TcpSocketBase.expire_cases hexpire with rfl | hexpire | ⟨flags, hretx, rfl⟩
  · exact hexpired
  · exact hexpired.retransmit hexpire
  · exact hexpired.sendEmptyPacket fun _ hopen => (hs.noFin hopen).2.2.2 flags hretx

theorem persistTimeout (hs : Tracked iss w s) (hpersist : s.persistTimeout = some s') :
    Tracked iss w s' := by
  obtain ⟨p, hcopy, rfl⟩ := Option.map_eq_some_iff.mp hpersist
  refine hs.logged rfl fun hne => ?_
  rcases hs.placed with ⟨hhead, i, j, hij, hj, hnext, -⟩ | ⟨hnil, -, hnext, -⟩
  · rw [hnext] at hcopy ⊢
    exact (hs.copied hhead (hij.trans hj) 1 hcopy).2.2
  · -- nothing is left to send, so the probe is empty
    exfalso
    have hroom := hs.room
    rw [hnext, ← w.head.plus_zero, hs.refines.copyFromSequence_eq 1 (Nat.zero_le _)] at hcopy
    have hle := w.length_bytesFrom_le (k := 0) (by omega) (1 : UInt32).toNat
    rw [Option.some.inj hcopy, hnil, List.length_nil] at hle
    have hempty : p.length = 0 := by omega
    exact hne (List.eq_nil_of_length_eq_zero hempty)

theorem step (hs : Tracked iss w s) {e : Congestion × Event} (hmarked : s.AcksMarked e.2)
    (hroom : s.LeavesRoom e.2) (hstep : s.step e = some s') :
    ∃ w', w'.added = w.added ++ s.written e.2 ∧ Tracked iss w' s' := by
  obtain ⟨d, event⟩ := e
  cases event with
  | doForwardUp p h =>
      obtain ⟨w', hadded, hs'⟩ := hs.doForwardUp hmarked hstep
      exact ⟨w', by rw [hadded]; exact (List.append_nil _).symm, hs'⟩
  | send p => exact hs.send hroom hstep
  | recv maxSize => exact ⟨w, (List.append_nil _).symm, hs.recv hstep⟩
  | close => exact ⟨w, (List.append_nil _).symm, Option.some.inj hstep ▸ hs.close⟩
  | shutdownSend =>
      refine ⟨w, (List.append_nil _).symm, Option.some.inj hstep ▸ ?_⟩
      exact hs.same ⟨rfl, rfl, rfl, rfl, rfl, rfl, fun _ hflags => hflags⟩
  | retxEvent => exact ⟨w, (List.append_nil _).symm, hs.expire hstep⟩
  | delAckEvent =>
      refine ⟨w, (List.append_nil _).symm, ?_⟩
      unfold TcpSocketBase.step at hstep
      dsimp only at hstep
      split at hstep
      · obtain rfl := Option.some.inj hstep
        refine sendEmptyPacket ?_ fun hfin => absurd hfin (by decide)
        exact hs.same ⟨rfl, rfl, rfl, rfl, rfl, rfl, fun _ hflags => hflags⟩
      · cases hstep
  | persistEvent =>
      refine ⟨w, (List.append_nil _).symm, ?_⟩
      unfold TcpSocketBase.step at hstep
      dsimp only at hstep
      split at hstep
      · exact hs.persistTimeout hstep
      · cases hstep
  | lastAckEvent =>
      refine ⟨w, (List.append_nil _).symm, ?_⟩
      unfold TcpSocketBase.step at hstep
      dsimp only at hstep
      split at hstep
      · obtain rfl := Option.some.inj hstep
        have hexpired : Tracked iss w { s with lastAckEvent := false } :=
          hs.same ⟨rfl, rfl, rfl, rfl, rfl, rfl, fun _ hflags => hflags⟩
        unfold lastAckTimeout
        split
        · exact hexpired.closeAndNotify
        · exact hs.same ⟨rfl, rfl, rfl, rfl, rfl, rfl, fun _ hflags => hflags⟩
      · cases hstep
  | timewaitEvent =>
      refine ⟨w, (List.append_nil _).symm, ?_⟩
      unfold TcpSocketBase.step at hstep
      dsimp only at hstep
      split at hstep
      · exact Option.some.inj hstep ▸ hs.closeAndNotify
      · cases hstep

end Tracked

end TcpSocketBase

/-! ## Runs -/

/-- A socket, with the bytes that the application has sent and the acknowledgement numbers that were
received. -/
structure Connection where
  socket : TcpSocketBase
  written : Payload
  acked : List SequenceNumber32

namespace Connection

open TcpSocketBase

def start (c : Config) (head nextRx : SequenceNumber32) (rWnd : UInt32) : Connection :=
  ⟨established c head nextRx rWnd, [], []⟩

def step (c : Connection) (e : Congestion × Event) : Option Connection :=
  (c.socket.step e).map fun s =>
    { socket := s
      written := c.written ++ c.socket.written e.2
      acked := acknowledgements e.2 ++ c.acked }

/-- The connection ends because of a pure ACK. -/
def ClosesOnAck (c : Connection) (e : Congestion × Event) (c' : Connection) : Prop :=
  ∃ h : TcpHeader, e.2 = .doForwardUp [] h ∧ h.flags = TcpHeader.ACK ∧
    ((c.socket.state = .LAST_ACK ∧ c'.socket.state = .CLOSED) ∨
      (c.socket.state = .CLOSING ∧ c'.socket.state = .TIME_WAIT))

/-- The number behind the FIN was acknowledged. All bytes that were sent lie in front of the FIN. -/
def FinAcknowledged (iss : SequenceNumber32) (c : Connection) : Prop :=
  c.socket.firstFin = some (iss.plus c.written.length) ∧
    iss.plus (c.written.length + 1) ∈ c.acked ∧
    ∀ segment ∈ c.socket.sent, segment.2 ≠ [] →
      ∃ k, segment.1.sequenceNumber = iss.plus k ∧ k + segment.2.length ≤ c.written.length

/-- A pure ACK with the expected sequence number passes the test of `ProcessWait`, or an earlier one
did. -/
def FinTested (c : Connection) : Event → Prop
  | .doForwardUp p h =>
      (c.socket.state = .LAST_ACK ∨ c.socket.state = .CLOSING) ∧ p = [] ∧
          h.flags = TcpHeader.ACK ∧ h.sequenceNumber = c.socket.rxBuffer.nextRxSeq →
        c.socket.highTxMark + (1 : UInt32) ∈ h.ackNumber :: c.acked
  | _ => True

instance (s : TcpSocketBase) (ack : SequenceNumber32) : Decidable (s.Conforms ack) :=
  inferInstanceAs (Decidable (_ ∨ _ ∧ _ ∨ _ ∧ _))

instance (s : TcpSocketBase) : DecidablePred s.AcksMarked
  | .doForwardUp _ _ => inferInstanceAs (Decidable (_ → _))
  | .send _ | .recv _ | .close | .shutdownSend | .retxEvent | .delAckEvent | .persistEvent
  | .lastAckEvent | .timewaitEvent => inferInstanceAs (Decidable True)

instance (s : TcpSocketBase) : DecidablePred s.PeerConforms
  | .doForwardUp _ _ => inferInstanceAs (Decidable (_ → _ ∨ ∃ segment ∈ _, _))
  | .send _ | .recv _ | .close | .shutdownSend | .retxEvent | .delAckEvent | .persistEvent
  | .lastAckEvent | .timewaitEvent => inferInstanceAs (Decidable True)

instance (s : TcpSocketBase) : DecidablePred s.LeavesRoom
  | .send _ => inferInstanceAs (Decidable (_ → _))
  | .doForwardUp _ _ | .recv _ | .close | .shutdownSend | .retxEvent | .delAckEvent
  | .persistEvent | .lastAckEvent | .timewaitEvent => inferInstanceAs (Decidable True)

instance (c : Connection) : DecidablePred c.FinTested
  | .doForwardUp _ _ => inferInstanceAs (Decidable (_ ∧ _ ∧ _ ∧ _ → _))
  | .send _ | .recv _ | .close | .shutdownSend | .retxEvent | .delAckEvent | .persistEvent
  | .lastAckEvent | .timewaitEvent => inferInstanceAs (Decidable True)

variable {iss : SequenceNumber32} {c c' : Connection} {e : Congestion × Event}

/-- The transmit side is tracked over the stream of the connection. -/
def Sound (iss : SequenceNumber32) (c : Connection) : Prop :=
  ∃ w, w.added = c.written ∧ Tracked iss w c.socket

theorem start_sound (config : Config) (head nextRx : SequenceNumber32) (rWnd : UInt32) :
    Sound head (start config head nextRx rWnd) := by
  have hzero : head = head.plus 0 := (SequenceNumber32.plus_zero head).symm
  refine ⟨_, rfl, TcpTxBuffer.refines_init head config.sndBufSize, by simp [SlidingWindow.pending],
    Or.inl ⟨hzero, 0, 0, le_rfl, le_rfl, hzero, hzero⟩, fun segment hsegment => ?_,
    Or.inl (Or.inl rfl), fun _ => ⟨rfl, rfl, hzero, fun flags hflags => by cases hflags⟩, ?_⟩
  · cases hsegment
  · intro hclosing
    exact absurd (Or.inl rfl) hclosing.not_isOpen

theorem step_sound (hc : Sound iss c) (hmarked : c.socket.AcksMarked e.2)
    (hroom : c.socket.LeavesRoom e.2) (hstep : c.step e = some c') : Sound iss c' := by
  obtain ⟨w, hadded, hs⟩ := hc
  obtain ⟨s', hsocket, rfl⟩ := Option.map_eq_some_iff.mp hstep
  obtain ⟨w', hadded', hs'⟩ := hs.step hmarked hroom hsocket
  exact ⟨w', by rw [hadded', hadded], hs'⟩

/-- A pure ACK closes the connection exactly if it has the expected sequence number. -/
theorem step_pureAck {d : Congestion} {h : TcpHeader} {s s' : TcpSocketBase}
    (hflags : h.flags = TcpHeader.ACK) (hclosing : s.state = .LAST_ACK ∨ s.state = .CLOSING)
    (hstep : s.step (d, .doForwardUp [] h) = some s') :
    s'.sent = s.sent ∧
      (((s.state = .LAST_ACK ∧ s'.state = .CLOSED) ∨
          (s.state = .CLOSING ∧ s'.state = .TIME_WAIT)) ↔
        h.sequenceNumber = s.rxBuffer.nextRxSeq) := by
  obtain ⟨t, hstate, hbuffer, hsent, hprocess⟩ : ∃ t : TcpSocketBase, t.state = s.state ∧
      t.rxBuffer = s.rxBuffer ∧ t.sent = s.sent ∧ t.process d [] h = some s' :=
    ⟨{ s with
        persistEvent := if s.rWnd = 0 ∧ h.windowSize ≠ 0 then false else s.persistEvent
        rWnd := h.windowSize.toUInt32 }, rfl, rfl, rfl, hstep⟩
  rw [← hbuffer, ← hsent, ← hstate]
  rw [← hstate] at hclosing
  unfold TcpSocketBase.process at hprocess
  rcases hclosing with hold | hold
  · simp only [hold] at hprocess
    unfold processLastAck at hprocess
    rw [if_neg (by rw [hflags]; decide), if_pos hflags] at hprocess
    obtain rfl := Option.some.inj hprocess
    by_cases hseq : h.sequenceNumber = t.rxBuffer.nextRxSeq
    · rw [if_pos hseq]
      exact ⟨rfl, iff_of_true (Or.inl ⟨hold, rfl⟩) hseq⟩
    · rw [if_neg hseq]
      exact ⟨rfl, iff_of_false (by simp [hold]) hseq⟩
  · simp only [hold] at hprocess
    unfold processClosing at hprocess
    rw [if_pos hflags] at hprocess
    obtain rfl := Option.some.inj hprocess
    by_cases hseq : h.sequenceNumber = t.rxBuffer.nextRxSeq
    · rw [if_pos hseq]
      exact ⟨rfl, iff_of_true (Or.inr ⟨hold, rfl⟩) hseq⟩
    · rw [if_neg hseq]
      exact ⟨rfl, iff_of_false (by simp [hold]) hseq⟩

/-- After a pure ACK in a state that waits for it, the FIN is acknowledged exactly if its number was
received. -/
theorem finAcknowledged_iff {d : Congestion} {h : TcpHeader} (hc : Sound iss c)
    (hflags : h.flags = TcpHeader.ACK)
    (hclosing : c.socket.state = .LAST_ACK ∨ c.socket.state = .CLOSING)
    (hstep : c.step (d, .doForwardUp [] h) = some c') :
    c'.FinAcknowledged iss ↔ c.socket.highTxMark + (1 : UInt32) ∈ h.ackNumber :: c.acked := by
  obtain ⟨w, hadded, hs⟩ := hc
  obtain ⟨s', hsocket, rfl⟩ := Option.map_eq_some_iff.mp hstep
  obtain ⟨hsent, -⟩ := step_pureAck hflags hclosing hsocket
  obtain ⟨hfirst, hhigh⟩ := hs.finSent (Or.inr (Or.inr hclosing))
  have hwritten : c.written ++ c.socket.written (.doForwardUp [] h) = c.written :=
    List.append_nil _
  have hacked : acknowledgements (.doForwardUp [] h) = [h.ackNumber] := by
    change (if h.flags.ack then [h.ackNumber] else []) = _
    rw [hflags]
    rfl
  unfold FinAcknowledged
  dsimp only
  rw [hwritten, hacked, hsent, firstFin_of_sent hsent, hfirst, hhigh, SequenceNumber32.plus_add,
    ← hadded]
  constructor
  · exact fun hack => hack.2.1
  · exact fun hack => ⟨rfl, hack, hs.data⟩

/-- As long as no acknowledgement lies above `m_highTxMark`: whenever a connection ends because of a
pure ACK, it has received the acknowledgement of its FIN, and so of all its data, exactly if every
such ACK passes the test of `ProcessWait`, or an earlier one did. -/
theorem closed_after_fin_iff (config : Config) (head nextRx : SequenceNumber32) (rWnd : UInt32)
    {events : List (Congestion × Event)}
    (hmarked : EachStep step (fun c e _ => c.socket.AcksMarked e.2)
      (start config head nextRx rWnd) events)
    (hroom : EachStep step (fun c e _ => c.socket.LeavesRoom e.2)
      (start config head nextRx rWnd) events) :
    EachStep step (fun c e c' => c.ClosesOnAck e c' → c'.FinAcknowledged head)
        (start config head nextRx rWnd) events ↔
      EachStep step (fun c e _ => c.FinTested e.2)
        (start config head nextRx rWnd) events := by
  have hsound : Throughout step (Sound head) (start config head nextRx rWnd) events :=
    throughout_of_eachStep
      (fun _ _ _ hc hstep hmeets => step_sound hc hmeets.1 hmeets.2 hstep)
      (start_sound config head nextRx rWnd) (eachStep_and.mpr ⟨hmarked, hroom⟩)
  constructor
  · rintro hcloses done ⟨d, event⟩ rest c c' heq hrun hstep
    cases event with
    | doForwardUp p h =>
        rintro ⟨hclosing, rfl, hflags, hseq⟩
        have hc := hsound done _ c heq hrun
        obtain ⟨s', hsocket, rfl⟩ := Option.map_eq_some_iff.mp hstep
        have hends := (step_pureAck hflags hclosing hsocket).2.mpr hseq
        have hack := hcloses done _ rest c _ heq hrun hstep ⟨h, rfl, hflags, hends⟩
        exact (finAcknowledged_iff hc hflags hclosing hstep).mp hack
    | _ => trivial
  · rintro htested done e rest c c' heq hrun hstep ⟨h, hevent, hflags, hends⟩
    obtain ⟨d, event⟩ := e
    obtain rfl : event = .doForwardUp [] h := hevent
    have hc := hsound done _ c heq hrun
    have hclosing : c.socket.state = .LAST_ACK ∨ c.socket.state = .CLOSING :=
      hends.imp And.left And.left
    obtain ⟨s', hsocket, rfl⟩ := Option.map_eq_some_iff.mp hstep
    have hseq := (step_pureAck hflags hclosing hsocket).2.mp hends
    have hack := htested done _ rest c _ heq hrun hstep ⟨hclosing, rfl, hflags, hseq⟩
    exact (finAcknowledged_iff hc hflags hclosing hstep).mpr hack

/-- Segments of up to two bytes. -/
def twoBytes : Config where
  sndBufSize := 100
  rcvBufSize := 100
  segmentSize := 2
  delAckMaxCount := 1
  maxWinSize := 100
  noDelay := true

/-- A window of 100 bytes, and nothing to retransmit. -/
def quiet : Congestion := ⟨100, .ignore, false⟩

/-- The peer closes, the socket sends two segments and a FIN, and `ack` arrives. -/
def lastAck (ack : SequenceNumber32) : List (Congestion × Event) :=
  [(quiet, .doForwardUp [] ⟨⟨0⟩, ⟨0⟩, TcpHeader.FIN_ACK, 100⟩), (quiet, .send [1, 2, 3, 4]),
    (quiet, .close), (quiet, .doForwardUp [] ⟨⟨1⟩, ack, TcpHeader.ACK, 100⟩)]

theorem closed_after_fin_lastAck :
    EachStep step (fun c e c' => c.ClosesOnAck e c' → c'.FinAcknowledged ⟨0⟩)
      (start twoBytes ⟨0⟩ ⟨0⟩ 100) (lastAck ⟨5⟩) :=
  (closed_after_fin_iff twoBytes ⟨0⟩ ⟨0⟩ 100
    (eachStep_of_take (by decide +kernel))
    (eachStep_of_take (by decide +kernel))).mpr
      (eachStep_of_take (by decide +kernel))

/-- A run in which a conforming peer closes the connection with its last segment, although the FIN
is not acknowledged. -/
theorem not_finAcknowledged (events : List (Congestion × Event)) {d : Congestion}
    {h : TcpHeader}
    (hflags : h.flags = TcpHeader.ACK)
    (hlast : ((run step (start twoBytes ⟨0⟩ ⟨0⟩ 100) events).any fun c =>
      (c.step (d, .doForwardUp [] h)).any fun c' =>
        decide (c.socket.state = .LAST_ACK ∧ c'.socket.state = .CLOSED ∧
          (⟨0⟩ : SequenceNumber32).plus (c'.written.length + 1) ∉ c'.acked)) = true) :
    ¬ EachStep step (fun c e c' => c.ClosesOnAck e c' → c'.FinAcknowledged ⟨0⟩)
      (start twoBytes ⟨0⟩ ⟨0⟩ 100) (events ++ [(d, .doForwardUp [] h)]) := by
  intro hcloses
  obtain ⟨c, hrun, hany⟩ := Option.any_eq_true _ _ |>.mp hlast
  obtain ⟨c', hstep, hvalues⟩ := Option.any_eq_true _ _ |>.mp hany
  obtain ⟨hold, hnew, hmissing⟩ := of_decide_eq_true hvalues
  have hack := hcloses _ _ [] c c' rfl hrun hstep ⟨h, rfl, hflags, Or.inl ⟨hold, hnew⟩⟩
  exact hmissing hack.2.1

/-- An acknowledgement of the first segment closes the connection. -/
theorem dataAck_closes :
    EachStep step (fun c e _ => c.socket.PeerConforms e.2)
        (start twoBytes ⟨0⟩ ⟨0⟩ 100) (lastAck ⟨2⟩) ∧
      ¬ EachStep step (fun c e c' => c.ClosesOnAck e c' → c'.FinAcknowledged ⟨0⟩)
        (start twoBytes ⟨0⟩ ⟨0⟩ 100) (lastAck ⟨2⟩) :=
  ⟨eachStep_of_take (by decide +kernel),
    not_finAcknowledged ((lastAck ⟨2⟩).take 3) rfl (by decide +kernel)⟩

/-- The window is shut. -/
def shut : Congestion := ⟨0, .ignore, false⟩

/-- The peer acknowledges the byte of a probe, then it closes, and the socket sends its FIN. -/
def probeAck : List (Congestion × Event) :=
  [(quiet, .send [1, 2]), (shut, .doForwardUp [] ⟨⟨0⟩, ⟨2⟩, TcpHeader.ACK, 0⟩), (shut, .send [3]),
    (shut, .persistEvent), (quiet, .doForwardUp [] ⟨⟨0⟩, ⟨3⟩, TcpHeader.ACK, 100⟩),
    (quiet, .doForwardUp [] ⟨⟨0⟩, ⟨3⟩, TcpHeader.FIN_ACK, 100⟩), (quiet, .close)]

/-- `m_highTxMark` does not count the byte of the probe, so behind it is the number of the FIN and
not the one after: its acknowledgement passes the test, and closes the connection. -/
theorem probeAck_closes :
    EachStep step (fun c e _ => c.socket.PeerConforms e.2 ∧ c.FinTested e.2)
        (start twoBytes ⟨0⟩ ⟨0⟩ 100)
        (probeAck ++ [(quiet, .doForwardUp [] ⟨⟨1⟩, ⟨3⟩, TcpHeader.ACK, 100⟩)]) ∧
      ¬ EachStep step (fun c e c' => c.ClosesOnAck e c' → c'.FinAcknowledged ⟨0⟩)
        (start twoBytes ⟨0⟩ ⟨0⟩ 100)
        (probeAck ++ [(quiet, .doForwardUp [] ⟨⟨1⟩, ⟨3⟩, TcpHeader.ACK, 100⟩)]) :=
  ⟨eachStep_of_take (by decide +kernel),
    not_finAcknowledged probeAck rfl (by decide +kernel)⟩

end Connection

end Ns3Rdma
