import Ns3Rdma.Tcp.Established
import Ns3Rdma.Tcp.LastAck

/-! # The bytes in flight

`BytesInFlight` and `UnAckDataCount` are differences of sequence numbers. They do not wrap as long as
the window begins in front of `m_nextTxSequence` and `m_highTxMark`. `PersistTimeout` moves neither,
so the acknowledgement of its byte does away with that. -/

namespace Ns3Rdma

open StepSystem

namespace TcpSocketBase

variable {iss seq ack : SequenceNumber32} {w : SlidingWindow} {s s' s₁ s₂ : TcpSocketBase}
  {p : Payload} {h : TcpHeader} {d : Congestion}

def bytesInFlight (s : TcpSocketBase) : UInt32 :=
  (s.highTxMark - s.txBuffer.headSequence).toUInt32

/-- The threshold that `TcpNewReno` computes in `DupAck` and in `Retransmit`. -/
def lossThreshold (s : TcpSocketBase) : UInt32 := max (2 * s.segmentSize) (s.bytesInFlight / 2)

/-- Segments are appended to the log, and the highest number only moves to the end of one of them
that has data. -/
structure Sends (s s' : TcpSocketBase) : Prop where
  txBuffer_eq : s'.txBuffer = s.txBuffer
  sent_eq : ∃ new, s'.sent = s.sent ++ new ∧ (s'.highTxMark = s.highTxMark ∨
    ∃ segment ∈ new, segment.2 ≠ [] ∧
      s'.highTxMark = segment.1.sequenceNumber + segment.2.getSize)

namespace Sends

theorem of_same (htx : s'.txBuffer = s.txBuffer) (hsent : s'.sent = s.sent)
    (hhigh : s'.highTxMark = s.highTxMark) : Sends s s' :=
  ⟨htx, [], by rw [hsent, List.append_nil], Or.inl hhigh⟩

theorem refl (s : TcpSocketBase) : Sends s s := of_same rfl rfl rfl

theorem trans (h₁ : Sends s s₁) (h₂ : Sends s₁ s₂) : Sends s s₂ := by
  obtain ⟨htx₁, new₁, hsent₁, hhigh₁⟩ := h₁
  obtain ⟨htx₂, new₂, hsent₂, hhigh₂⟩ := h₂
  refine ⟨htx₂.trans htx₁, new₁ ++ new₂, by rw [hsent₂, hsent₁, List.append_assoc], ?_⟩
  rcases hhigh₂ with hsame₂ | ⟨segment, hmem, hend⟩
  · rcases hhigh₁ with hsame₁ | ⟨segment, hmem, hne, hend⟩
    · exact Or.inl (hsame₂.trans hsame₁)
    · exact Or.inr ⟨segment, List.mem_append_left _ hmem, hne, hsame₂.trans hend⟩
  · exact Or.inr ⟨segment, List.mem_append_right _ hmem, hend⟩

end Sends

theorem Quiet.sends (hquiet : Quiet s s') : Sends s s' := by
  obtain ⟨new, hsent, -⟩ := hquiet.sent_eq
  exact ⟨hquiet.txBuffer_eq, new, hsent, Or.inl hquiet.high_eq⟩

/-! ## What sending adds to the log -/

theorem sends_sendDataPacket (hle : seq ≤ s.highTxMark) {maxSize : UInt32} {withAck : Bool}
    {r : TcpSocketBase × UInt32} (hsend : s.sendDataPacket seq maxSize withAck = some r) :
    Sends s r.1 := by
  obtain ⟨p, -, rfl⟩ := Option.map_eq_some_iff.mp hsend
  refine ⟨rfl, _, rfl, ?_⟩
  dsimp only
  by_cases hbelow : seq + p.getSize < s.highTxMark
  · exact Or.inl (if_pos hbelow)
  · rw [if_neg hbelow]
    rcases eq_or_ne p [] with rfl | hne
    · left
      have hzero : seq + Payload.getSize [] = seq := by
        rw [SequenceNumber32.add_eq_plus]
        exact SequenceNumber32.plus_zero seq
      rw [hzero] at hbelow ⊢
      rcases SequenceNumber32.lt_or_eq_of_not_lt hbelow with hlt | heq
      · exact absurd hlt (SequenceNumber32.not_lt.mpr hle)
      · exact heq.symm
    · exact Or.inr ⟨_, List.mem_singleton.mpr rfl, hne, rfl⟩

namespace Tracked

/-- The numbers of a window that is not behind an acknowledged FIN are in order. -/
theorem ordered (hs : Tracked iss w s) (hpending : w.pending ≠ [] ∨ IsOpen s.state) :
    s.txBuffer.headSequence ≤ s.nextTxSequence ∧ s.txBuffer.headSequence ≤ s.highTxMark ∧
      s.nextTxSequence ≤ s.highTxMark := by
  obtain ⟨-, i, j, hij, hj, hnext, hhigh⟩ := hs.notAcked hpending
  have hroom := hs.room
  have hzero : s.txBuffer.headSequence = w.head.plus 0 := by
    rw [SequenceNumber32.plus_zero]
    exact hs.refines.head_eq
  rw [hzero, hnext, hhigh, SequenceNumber32.plus_le_plus (by omega) (by omega),
    SequenceNumber32.plus_le_plus (by omega) (by omega),
    SequenceNumber32.plus_le_plus (by omega) (by omega)]
  omega

theorem sends_sendLoop (hs : Tracked iss w s) (hpending : w.pending ≠ []) {window : UInt32}
    {withAck : Bool} {fuel : ℕ} (hloop : TcpSocketBase.sendLoop window withAck fuel s = some s') :
    Sends s s' := by
  induction fuel generalizing s with
  | zero =>
      obtain rfl := Option.some.inj hloop
      exact Sends.refl s
  | succ fuel ih =>
      rcases TcpSocketBase.sendLoop_succ hloop with rfl | ⟨n, r, hsend, hrest⟩
      · exact Sends.refl _
      · have hr := sends_sendDataPacket (hs.ordered (Or.inl hpending)).2.2 hsend
        obtain ⟨-, -, hnext⟩ := hs.sendNext hpending hsend
        have hmoved : Sends s { r.1 with nextTxSequence := s.nextTxSequence + r.2 } :=
          hr.trans (Sends.of_same rfl rfl rfl)
        rcases hrest with hrest | rfl
        · exact hmoved.trans (ih hnext hrest)
        · exact hr

theorem sends_sendPendingData (hs : Tracked iss w s) {window : UInt32} {withAck : Bool}
    (hsend : s.sendPendingData window withAck = some s') : Sends s s' := by
  unfold TcpSocketBase.sendPendingData at hsend
  split at hsend
  next => exact Option.some.inj hsend ▸ Sends.refl s
  next hsize =>
    split at hsend
    next => exact Option.some.inj hsend ▸ Sends.refl s
    next => exact hs.sends_sendLoop (hs.pending_ne_nil hsize) hsend

theorem sends_doRetransmit (hs : Tracked iss w s) (hopen : s.state = .ESTABLISHED)
    (hsend : s.doRetransmit = some s') : Sends s s' := by
  unfold TcpSocketBase.doRetransmit at hsend
  split at hsend
  next => cases hsend
  next =>
    split at hsend
    next =>
      obtain rfl := Option.some.inj hsend
      rw [if_neg (by rw [hopen]; decide)]
      exact Sends.refl s
    next =>
      obtain ⟨r, hpacket, rfl⟩ := Option.map_eq_some_iff.mp hsend
      have hr := sends_sendDataPacket (hs.ordered (Or.inr (Or.inl hopen))).2.1 hpacket
      exact hr.trans (Sends.of_same rfl rfl rfl)

theorem sends_dupAck (hs : Tracked iss w s) (hopen : s.state = .ESTABLISHED)
    (hdup : s.dupAck d = some s') : Sends s s' := by
  unfold TcpSocketBase.dupAck at hdup
  split at hdup
  next => exact Option.some.inj hdup ▸ Sends.refl s
  next => exact hs.sends_sendPendingData hdup
  next =>
    split at hdup
    next =>
      obtain ⟨r, hpacket, rfl⟩ := Option.map_eq_some_iff.mp hdup
      have hr := sends_sendDataPacket (hs.ordered (Or.inr (Or.inl hopen))).2.2 hpacket
      exact hr.trans (Sends.of_same rfl rfl rfl)
    next => exact Option.some.inj hdup ▸ Sends.refl s
  next => exact hs.sends_doRetransmit hopen hdup

/-- A new acknowledgement in the window moves the head there. -/
theorem advance_head (hs : Tracked iss w s) (hopen : IsOpen s.state)
    (hnew : s.txBuffer.headSequence < ack) (hle : ack ≤ s.highTxMark)
    (hadvance : s.advance ack = some s') : s'.txBuffer.headSequence = ack := by
  have hroom := hs.room
  have hconforms : s.Conforms ack :=
    Or.inr (Or.inl ⟨(hs.ordered (Or.inr hopen)).2.1, hle⟩)
  obtain ⟨-, i, j, k, -, hj, -, -, rfl, hpos, hk⟩ :=
    hs.exists_of_conforms (fun hover => hover.not_isOpen hopen) hconforms hnew
  have hkj : k ≤ j := hk.resolve_right fun hclosing => hopen.not_isClosing hclosing.2
  obtain ⟨txBuffer, hdiscard, rfl⟩ := Option.map_eq_some_iff.mp hadvance
  obtain ⟨b, hb, hrefines⟩ := hs.refines.discardUpTo_spec (k := k) (by omega)
  obtain rfl := Option.some.inj (hb.symm.trans hdiscard)
  rw [SlidingWindow.discardUpTo_plus hpos (by omega)] at hrefines
  exact hrefines.head_eq

end Tracked

theorem advance_same (hadvance : s.advance ack = some s') :
    s'.sent = s.sent ∧ s'.highTxMark = s.highTxMark := by
  obtain ⟨txBuffer, -, rfl⟩ := Option.map_eq_some_iff.mp hadvance
  have hsame := Tracked.restartTimers_same s
  exact ⟨hsame.sent_eq, hsame.high_eq⟩

/-- A step first moves the head within what is sent, if at all, and then it sends. -/
def Advances (s s' : TcpSocketBase) : Prop :=
  ∃ s₁ : TcpSocketBase, s₁.sent = s.sent ∧ s₁.highTxMark = s.highTxMark ∧
    (s₁.txBuffer.headSequence = s.txBuffer.headSequence ∨
      (s.txBuffer.headSequence < s₁.txBuffer.headSequence ∧
        s₁.txBuffer.headSequence ≤ s.highTxMark)) ∧ Sends s₁ s'

theorem Sends.advances (hsends : Sends s s') : Advances s s' :=
  ⟨s, rfl, rfl, Or.inl rfl, hsends⟩

/-- No acknowledgement lies behind the highest number. -/
def AcksData (s : TcpSocketBase) : Event → Prop
  | .doForwardUp _ h =>
      h.flags.ack = true → s.txBuffer.headSequence < h.ackNumber → h.ackNumber ≤ s.highTxMark
  | _ => True

namespace Tracked

theorem newAck_advances (hs : Tracked iss w s) (hopen : s.state = .ESTABLISHED)
    (hnew : s.txBuffer.headSequence < ack) (hle : ack ≤ s.highTxMark)
    (hack : s.newAck d ack = some s') (hstate : s'.state = .ESTABLISHED) : Advances s s' := by
  have hisOpen : IsOpen s.state := Or.inl hopen
  have hconforms : s.Conforms ack :=
    Or.inr (Or.inl ⟨(hs.ordered (Or.inr hisOpen)).2.1, hle⟩)
  obtain ⟨s₁, hadvance, hrest⟩ := Option.bind_eq_some_iff.mp hack
  obtain ⟨s₂, hsend, hlast⟩ := Option.bind_eq_some_iff.mp hrest
  obtain ⟨hsent, hhigh⟩ := advance_same hadvance
  have hhead := hs.advance_head hisOpen hnew hle hadvance
  obtain ⟨w', -, hs₁⟩ :=
    hs.advance (fun hover => hover.not_isOpen hisOpen) hconforms hnew hadvance
  refine ⟨s₁, hsent, hhigh, Or.inr (by rw [hhead]; exact ⟨hnew, hle⟩), ?_⟩
  have hs₂ := hs₁.sends_sendPendingData hsend
  split at hlast
  next =>
    have hopen₂ := established_of_newAck hopen hadvance hsend hlast hstate
    exact hs₂.trans ((hs₁.sendPendingData hsend).sends_doRetransmit hopen₂ hlast)
  next => exact Option.some.inj hlast ▸ hs₂

theorem receivedAckNumber_advances (hs : Tracked iss w s) (hopen : s.state = .ESTABLISHED)
    (hacks : h.flags.ack = true → s.txBuffer.headSequence < h.ackNumber →
      h.ackNumber ≤ s.highTxMark)
    (hack : s.receivedAckNumber d p h = some s') (hstate : s'.state = .ESTABLISHED) :
    Advances s s' := by
  rcases receivedAckNumber_cases d hack with rfl | hdup | ⟨hflag, hnew, hack⟩
  · exact (Sends.refl _).advances
  · exact (hs.sends_dupAck hopen hdup).advances
  · exact hs.newAck_advances hopen hnew (hacks hflag hnew) hack hstate

theorem expire_sends (hs : Tracked iss w s) (hopen : s.state = .ESTABLISHED)
    (hexpire : s.expire = some s') : Sends s s' := by
  rcases TcpSocketBase.expire_cases hexpire with rfl | hexpire | ⟨flags, hretx, -⟩
  · exact Sends.of_same rfl rfl rfl
  · -- the timeout goes back to the head, from where everything is sent again
    obtain ⟨hhead, i, j, -, hj, -, hhigh⟩ := hs.notAcked (Or.inr (Or.inl hopen))
    have hmoved := hs.moveNext hhead (Nat.zero_le j) hj hhigh
    have hstarted : Tracked iss w
        { s with retxEvent := none, nextTxSequence := s.txBuffer.headSequence } := by
      rw [hs.refines.head_eq, ← w.head.plus_zero]
      exact hmoved.same ⟨rfl, rfl, rfl, rfl, rfl, rfl, fun _ hflags => by cases hflags⟩
    have hsent := hstarted.sends_doRetransmit hopen hexpire
    exact ⟨hsent.txBuffer_eq, hsent.sent_eq⟩
  · exact absurd hretx ((hs.noFin (Or.inl hopen)).2.2.2 flags)

theorem send_advances (hs : Tracked iss w s) (hroom : s.LeavesRoom (.send p))
    (hsend : s.send d p = some s') : Advances s s' := by
  unfold TcpSocketBase.send at hsend
  split at hsend
  next haccepts =>
    obtain ⟨w', -, hs₁⟩ := hs.add haccepts (hroom haccepts)
    have hhead : (s.txBuffer.add p).1.headSequence = s.txBuffer.headSequence := by
      unfold TcpTxBuffer.add
      split
      · split <;> rfl
      · rfl
    refine ⟨{ s with txBuffer := (s.txBuffer.add p).1 }, rfl, rfl, Or.inl hhead, ?_⟩
    dsimp only at hsend
    split at hsend
    · exact hs₁.sends_sendPendingData hsend
    · exact Option.some.inj hsend ▸ Sends.refl _
  next => exact Option.some.inj hsend ▸ (Sends.refl s).advances

theorem step_advances (hs : Tracked iss w s) (hopen : s.state = .ESTABLISHED) {event : Event}
    (hacks : s.AcksData event) (hroom : s.LeavesRoom event)
    (hstep : s.step (d, event) = some s') (hstate : s'.state = .ESTABLISHED) :
    Advances s s' := by
  rcases established_step hopen hstep hstate with ⟨p, h, rfl, hforward⟩ | ⟨p, rfl, hsend⟩ |
    ⟨rfl, hexpire⟩ | ⟨rfl, -, hpersist⟩ | ⟨-, hquiet⟩
  · have hwindow : Tracked iss w (s.withWindow h) :=
      hs.same ⟨rfl, rfl, rfl, rfl, rfl, rfl, fun _ hflags => hflags⟩
    rcases hforward with ⟨-, s₁, hack, hquiet, hstate₁⟩ | ⟨-, hquiet⟩
    · obtain ⟨s₂, hsent, hhigh, hhead, hsends⟩ :=
        hwindow.receivedAckNumber_advances hopen hacks hack hstate₁
      exact ⟨s₂, hsent, hhigh, hhead, hsends.trans hquiet.sends⟩
    · exact ⟨s.withWindow h, rfl, rfl, Or.inl rfl, hquiet.sends⟩
  · exact hs.send_advances hroom hsend
  · exact (hs.expire_sends hopen hexpire).advances
  · obtain ⟨p, -, rfl⟩ := Option.map_eq_some_iff.mp hpersist
    exact Sends.advances ⟨rfl, _, rfl, Or.inl rfl⟩
  · exact hquiet.sends.advances

end Tracked

end TcpSocketBase

/-! ## Runs -/

/-- A sender, with the number of bytes of its stream that are acknowledged, and the number of those
that it has transmitted. -/
structure Sender where
  socket : TcpSocketBase
  acked : ℕ
  transmitted : ℕ

namespace Sender

open TcpSocketBase

/-- Where the data ends that a step sends, counted from the head of the buffer. -/
def ends (s s' : TcpSocketBase) : List ℕ :=
  ((s'.sent.drop s.sent.length).filter fun segment => segment.2 ≠ []).map fun segment =>
    segment.1.sequenceNumber.distance s'.txBuffer.headSequence + segment.2.length

def start (c : Config) (head nextRx : SequenceNumber32) (rWnd : UInt32) : Sender :=
  ⟨established c head nextRx rWnd, 0, 0⟩

def step (c : Sender) (e : Congestion × Event) : Option Sender :=
  (c.socket.step e).map fun s =>
    let acked := c.acked + s.txBuffer.headSequence.distance c.socket.txBuffer.headSequence
    { socket := s
      acked := acked
      transmitted := ((ends c.socket s).map (acked + ·)).foldr max c.transmitted }

/-- The bytes that are transmitted and not acknowledged. -/
def outstanding (c : Sender) : ℕ := c.transmitted - c.acked

/-- The peer acknowledges what it may have received, the byte of a probe included. -/
def PeerReceives (c : Sender) : Event → Prop
  | .doForwardUp _ h =>
      h.flags.ack = true → h.ackNumber ≤ c.socket.txBuffer.headSequence ∨
        h.ackNumber.distance c.socket.txBuffer.headSequence ≤ c.outstanding
  | _ => True

/-- The sequence variables are in order, and neither the bytes in flight nor the threshold is more
than what is outstanding allows. -/
structure InStep (c : Sender) : Prop where
  head_le_next : c.socket.txBuffer.headSequence ≤ c.socket.nextTxSequence
  head_le_high : c.socket.txBuffer.headSequence ≤ c.socket.highTxMark
  unAckDataCount_le : c.socket.unAckDataCount.toNat ≤ c.outstanding
  bytesInFlight_le : c.socket.bytesInFlight.toNat ≤ c.outstanding
  lossThreshold_le :
    c.socket.lossThreshold.toNat ≤ max (2 * c.socket.segmentSize.toNat) (c.outstanding / 2)

/-- In ESTABLISHED no acknowledgement lies behind `m_highTxMark`, and the bytes that are buffered
stay below half of the sequence numbers. -/
def AcksInFlight (c : Sender) (e : Congestion × Event) : Prop :=
  c.socket.state = .ESTABLISHED → c.socket.AcksData e.2 ∧ c.socket.LeavesRoom e.2

variable {iss : SequenceNumber32} {c c' : Sender} {e : Congestion × Event}

/-- In ESTABLISHED the transmit side is tracked, and what lies in front of `m_highTxMark` is
transmitted. -/
def Sound (iss : SequenceNumber32) (c : Sender) : Prop :=
  1 ≤ c.socket.state.progress ∧ (c.socket.state = .ESTABLISHED → (∃ w, Tracked iss w c.socket) ∧
    c.acked + c.socket.highTxMark.distance c.socket.txBuffer.headSequence ≤ c.transmitted)

theorem le_foldr_max (l : List ℕ) (n : ℕ) : n ≤ l.foldr max n := by
  induction l with
  | nil => exact le_rfl
  | cons m rest ih => exact ih.trans (le_max_right m _)

theorem le_foldr_max_of_mem {l : List ℕ} {m : ℕ} (hmem : m ∈ l) (n : ℕ) : m ≤ l.foldr max n := by
  induction l with
  | nil => cases hmem
  | cons k rest ih =>
      rcases List.mem_cons.mp hmem with rfl | hrest
      · exact le_max_left _ _
      · exact (ih hrest).trans (le_max_right k _)

theorem inStep_of_sound (hc : Sound iss c) (hopen : c.socket.state = .ESTABLISHED) :
    c.InStep := by
  obtain ⟨⟨w, hs⟩, htransmitted⟩ := hc.2 hopen
  obtain ⟨hnextLe, hhighLe, -⟩ := hs.ordered (Or.inr (Or.inl hopen))
  obtain ⟨-, i, j, hij, hj, hnext, hhigh⟩ := hs.notAcked (Or.inr (Or.inl hopen))
  have hroom := hs.room
  -- `i` and `j` are the distances of the next and the highest number from the head
  have hhead : c.socket.txBuffer.headSequence = w.head.plus 0 := by
    rw [SequenceNumber32.plus_zero]
    exact hs.refines.head_eq
  have hcount : c.socket.unAckDataCount.toNat = i := by
    unfold TcpSocketBase.unAckDataCount
    rw [hhead, hnext, SequenceNumber32.toNat_sub_plus (Nat.zero_le i) (by omega), Nat.sub_zero]
  have hflight : c.socket.bytesInFlight.toNat = j := by
    unfold bytesInFlight
    rw [hhead, hhigh, SequenceNumber32.toNat_sub_plus (Nat.zero_le j) (by omega), Nat.sub_zero]
  have hdistance : c.socket.highTxMark.distance c.socket.txBuffer.headSequence = j := by
    rw [hhead, hhigh, SequenceNumber32.distance_plus]
    omega
  have hle : j ≤ c.outstanding := by
    unfold outstanding
    omega
  refine ⟨hnextLe, hhighLe, by omega, by omega, ?_⟩
  have hdouble : (2 * c.socket.segmentSize).toNat ≤ 2 * c.socket.segmentSize.toNat := by
    rw [UInt32.toNat_mul]
    exact Nat.mod_le _ _
  have hhalf : (c.socket.bytesInFlight / 2).toNat = j / 2 := by
    rw [UInt32.toNat_div, hflight]
    rfl
  have hmax : c.socket.lossThreshold =
      if 2 * c.socket.segmentSize ≤ c.socket.bytesInFlight / 2 then c.socket.bytesInFlight / 2
      else 2 * c.socket.segmentSize := rfl
  rw [hmax]
  split
  next => omega
  next => omega

theorem start_sound (config : Config) (head nextRx : SequenceNumber32) (rWnd : UInt32) :
    Sound head (start config head nextRx rWnd) := by
  obtain ⟨w, -, hs⟩ := Connection.start_sound config head nextRx rWnd
  refine ⟨le_rfl, fun _ => ⟨⟨w, hs⟩, ?_⟩⟩
  change 0 + head.distance head ≤ 0
  rw [SequenceNumber32.distance_eq_zero.mpr rfl]

theorem distance_add_le (a b : SequenceNumber32) (p : Payload) :
    (a + p.getSize).distance b ≤ a.distance b + p.length := by
  have hsize : p.getSize.toNat ≤ p.length := by
    unfold Payload.getSize
    rw [UInt32.toNat_ofNat']
    exact Nat.mod_le _ _
  have hsum : a + p.getSize = b.plus (a.distance b + p.getSize.toNat) := by
    rw [← SequenceNumber32.plus_plus, SequenceNumber32.plus_distance,
      SequenceNumber32.add_eq_plus]
  have hdistance := SequenceNumber32.distance_plus b (a.distance b + p.getSize.toNat) 0
  rw [SequenceNumber32.plus_zero] at hdistance
  rw [hsum, hdistance]
  omega

/-- What was transmitted reaches up to the highest number after a step, if it did before. -/
theorem transmitted_reaches {w : SlidingWindow} {s' : TcpSocketBase}
    (hs : Tracked iss w c.socket) (hopen : c.socket.state = .ESTABLISHED)
    (htransmitted : c.acked + c.socket.highTxMark.distance c.socket.txBuffer.headSequence ≤
      c.transmitted) (hadvances : Advances c.socket s') (acked : ℕ)
    (hacked : acked =
      c.acked + s'.txBuffer.headSequence.distance c.socket.txBuffer.headSequence) :
    acked + s'.highTxMark.distance s'.txBuffer.headSequence ≤
      ((ends c.socket s').map (acked + ·)).foldr max c.transmitted := by
  obtain ⟨s₁, hsent₁, hhigh₁, hhead, hsends⟩ := hadvances
  obtain ⟨new, hsent, hhigh⟩ := hsends.sent_eq
  rw [← hsends.txBuffer_eq] at hhead
  rcases hhigh with hsame | ⟨segment, hmem, hne, hend⟩
  · -- the numbers between the old head and the new one are acknowledged now
    refine le_trans ?_ (le_foldr_max _ _)
    obtain ⟨-, i, j, -, hj, -, hmark⟩ := hs.notAcked (Or.inr (Or.inl hopen))
    have hroom := hs.room
    have hzero : c.socket.txBuffer.headSequence = w.head.plus 0 := by
      rw [SequenceNumber32.plus_zero]
      exact hs.refines.head_eq
    have hbetween : ∃ k, k ≤ j ∧ s'.txBuffer.headSequence = w.head.plus k := by
      rcases hhead with heq | ⟨hlt, hle⟩
      · exact ⟨0, Nat.zero_le j, heq.trans hzero⟩
      · rw [hzero] at hlt
        rw [hmark] at hle
        by_cases heq : s'.txBuffer.headSequence = w.head.plus j
        · exact ⟨j, le_rfl, heq⟩
        · obtain ⟨k, hk, -, hkj⟩ := SequenceNumber32.exists_plus_of_between (Nat.zero_le j)
            (by omega) hlt (SequenceNumber32.lt_of_le_of_ne hle heq)
          exact ⟨k, hkj.le, hk⟩
    obtain ⟨k, hkj, hk⟩ := hbetween
    rw [hmark, hzero, SequenceNumber32.distance_plus] at htransmitted
    rw [hacked, hsame, hhigh₁, hmark, hzero, hk, SequenceNumber32.distance_plus,
      SequenceNumber32.distance_plus]
    omega
  · have hends : segment.1.sequenceNumber.distance s'.txBuffer.headSequence + segment.2.length ∈
        ends c.socket s' := by
      unfold ends
      rw [hsent, hsent₁, List.drop_left]
      exact List.mem_map.mpr ⟨segment, List.mem_filter.mpr ⟨hmem, decide_eq_true hne⟩, rfl⟩
    refine le_trans ?_ (le_foldr_max_of_mem (List.mem_map_of_mem hends) _)
    rw [hend]
    exact Nat.add_le_add_left (distance_add_le _ _ _) _

theorem step_sound (hc : Sound iss c) (hmeets : c.AcksInFlight e) (hstep : c.step e = some c') :
    Sound iss c' := by
  obtain ⟨s', hsocket, rfl⟩ := Option.map_eq_some_iff.mp hstep
  obtain ⟨d, event⟩ := e
  have hprogress := progress_step hsocket
  refine ⟨hc.1.trans hprogress, fun hstate => ?_⟩
  have hopen : c.socket.state = .ESTABLISHED :=
    established_of_progress hc.1 (hstate ▸ hprogress)
  obtain ⟨⟨w, hs⟩, htransmitted⟩ := hc.2 hopen
  obtain ⟨hacks, hroom⟩ := hmeets hopen
  have hconforms : c.socket.AcksMarked event := by
    cases event with
    | doForwardUp p h =>
        intro hflag
        by_cases hnew : c.socket.txBuffer.headSequence < h.ackNumber
        · exact Or.inr (Or.inl ⟨(hs.ordered (Or.inr (Or.inl hopen))).2.1, hacks hflag hnew⟩)
        · exact Or.inl (SequenceNumber32.not_lt.mp hnew)
    | _ => trivial
  obtain ⟨w', -, hs'⟩ := hs.step hconforms hroom hsocket
  have hadvances := hs.step_advances hopen hacks hroom hsocket hstate
  exact ⟨⟨w', hs'⟩, transmitted_reaches hs hopen htransmitted hadvances _ rfl⟩

/-- As long as no byte is acknowledged that only a probe has carried, the sequence variables of an
established sender stay in order, and the bytes in flight and the threshold after a loss are those
of what is outstanding. -/
theorem sequences_in_step (config : Config) (head nextRx : SequenceNumber32) (rWnd : UInt32)
    {events : List (Congestion × Event)}
    (hmeets : EachStep step (fun c e _ => c.AcksInFlight e)
      (start config head nextRx rWnd) events) :
    Throughout step (fun c => c.socket.state = .ESTABLISHED → c.InStep)
      (start config head nextRx rWnd) events := by
  have hkeep : ∀ c e c', Sound head c → step c e = some c' → c.AcksInFlight e → Sound head c' :=
    fun _ _ _ hc hstep hacks => step_sound hc hacks hstep
  have hsound : Throughout step (Sound head) (start config head nextRx rWnd) events :=
    throughout_of_eachStep hkeep (start_sound config head nextRx rWnd) hmeets
  exact hsound.mono fun _ hc hopen => inStep_of_sound hc hopen

instance (s : TcpSocketBase) : DecidablePred s.AcksData
  | .doForwardUp _ _ => inferInstanceAs (Decidable (_ → _ → _))
  | .send _ | .recv _ | .close | .shutdownSend | .retxEvent | .delAckEvent | .persistEvent
  | .lastAckEvent | .timewaitEvent => inferInstanceAs (Decidable True)

instance (c : Sender) : DecidablePred c.PeerReceives
  | .doForwardUp _ _ => inferInstanceAs (Decidable (_ → _ ∨ _))
  | .send _ | .recv _ | .close | .shutdownSend | .retxEvent | .delAckEvent | .persistEvent
  | .lastAckEvent | .timewaitEvent => inferInstanceAs (Decidable True)

instance (c : Sender) : DecidablePred c.AcksInFlight := fun _ =>
  inferInstanceAs (Decidable (_ → _ ∧ _))

/-- The receiver closes its window, and the next byte is the byte of a probe. The last
acknowledgement is `ack`. -/
def probed (ack : SequenceNumber32) : List (Congestion × Event) :=
  [(Connection.quiet, .send [1, 2]),
    (⟨0, .ignore, false⟩, .doForwardUp [] ⟨⟨0⟩, ⟨2⟩, TcpHeader.ACK, 0⟩),
    (⟨0, .ignore, false⟩, .send [3, 4]), (⟨0, .ignore, false⟩, .persistEvent),
    (⟨0, .ignore, false⟩, .doForwardUp [] ⟨⟨0⟩, ack, TcpHeader.ACK, 0⟩)]

theorem sequences_in_step_refusedProbe :
    Throughout step (fun c => c.socket.state = .ESTABLISHED → c.InStep)
      (start Connection.twoBytes ⟨0⟩ ⟨0⟩ 100) (probed ⟨2⟩) :=
  sequences_in_step Connection.twoBytes ⟨0⟩ ⟨0⟩ 100
    (eachStep_of_take (by decide +kernel))

/-- The byte of a probe is received and acknowledged: the window begins behind `m_highTxMark`. -/
theorem acceptedProbe_wraps :
    EachStep step (fun c e _ => c.PeerReceives e.2 ∧ c.socket.LeavesRoom e.2)
        (start Connection.twoBytes ⟨0⟩ ⟨0⟩ 100) (probed ⟨3⟩) ∧
      ¬ Throughout step (fun c => c.socket.state = .ESTABLISHED → c.InStep)
        (start Connection.twoBytes ⟨0⟩ ⟨0⟩ 100) (probed ⟨3⟩) := by
  refine ⟨eachStep_of_take (by decide +kernel), fun h => ?_⟩
  have hlast : ((run step (start Connection.twoBytes ⟨0⟩ ⟨0⟩ 100)
      (probed ⟨3⟩)).any fun c => decide (c.socket.state = .ESTABLISHED ∧
        ¬ c.socket.txBuffer.headSequence ≤ c.socket.highTxMark)) = true := by
    decide +kernel
  obtain ⟨c, hrun, hvalues⟩ := Option.any_eq_true _ _ |>.mp hlast
  obtain ⟨hopen, hbehind⟩ := of_decide_eq_true hvalues
  exact hbehind (h.last hrun hopen).head_le_high

end Sender

end Ns3Rdma
