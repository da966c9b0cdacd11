import Ns3Rdma.Tcp.LastAck
import Ns3Rdma.Tcp.Progress
import Ns3Rdma.Tcp.Reassembly

/-! # Sockets that transfer data

Whatever a socket does before it closes, all that it sends is cut from the bytes of its application,
and it acknowledges only what has come in order. Unlike `m_highTxMark`, the next number stays in the
window when a probe of `PersistTimeout` is acknowledged. -/

namespace Ns3Rdma

namespace TcpSocketBase

open TcpRxBuffer Piece

/-- The segment is cut from the stream that begins at `iss`, and it acknowledges at most `c` bytes
of the one that begins at `irs`. -/
def Genuine (iss irs : SequenceNumber32) (stream : Payload) (c : ℕ)
    (segment : TcpHeader × Payload) : Prop :=
  (segment.1.flags = TcpHeader.ACK ∨ segment.1.flags = TcpHeader.NONE) ∧
    (∃ k, segment.1.sequenceNumber = iss.plus k ∧ k + segment.2.length ≤ stream.length ∧
      segment.2 <+: stream.drop k) ∧
    ∃ m ≤ c, segment.1.ackNumber = irs.plus m

/-- A socket beside the window over its stream. It has `c` bytes of the peer in order. The log is
genuine until the FIN is sent. -/
structure Transfers (iss irs : SequenceNumber32) (w : SlidingWindow) (c : ℕ)
    (s : TcpSocketBase) : Prop where
  refines : s.txBuffer.Refines w
  room : w.added.length < 2 ^ 31 - 1
  head_eq : w.head = iss.plus w.discarded
  next_eq : ∃ i ≤ w.pending.length, s.nextTxSequence = w.head.plus i
  expects : s.rxBuffer.nextRxSeq = irs.plus c
  phase : s.state = .ESTABLISHED ∨ s.state = .FIN_WAIT_1
  genuine : s.state = .ESTABLISHED → ∀ segment ∈ s.sent, Genuine iss irs w.added c segment
  noFin : s.state = .ESTABLISHED → ∀ flags, s.retxEvent ≠ some (.sendEmptyPacket flags)

variable {iss irs : SequenceNumber32} {w w' : SlidingWindow} {c c' m : ℕ}
  {s s' : TcpSocketBase} {p stream stream' : Payload} {h : TcpHeader} {flags : TcpFlags}
  {d : Congestion} {segment : TcpHeader × Payload}

theorem Genuine.mono (hsegment : Genuine iss irs stream c segment) (hstream : stream <+: stream')
    (hc : c ≤ c') : Genuine iss irs stream' c' segment := by
  obtain ⟨hflags, ⟨k, hseq, hend, hcut⟩, m, hm, hack⟩ := hsegment
  exact ⟨hflags, ⟨k, hseq, hend.trans hstream.length_le, hcut.trans (hstream.drop k)⟩, m,
    hm.trans hc, hack⟩

theorem afterFin_ne_established (state : TcpStates) : afterFin state ≠ .ESTABLISHED := by
  cases state <;> simp [afterFin]

namespace Transfers

/-- What neither moves the window nor sends. -/
theorem same (hs : Transfers iss irs w c s) (htx : s'.txBuffer = s.txBuffer)
    (hnext : s'.nextTxSequence = s.nextTxSequence) (hrx : s'.rxBuffer = s.rxBuffer)
    (hstate : s'.state = s.state) (hsent : s'.sent = s.sent)
    (hretx : ∀ flags, s'.retxEvent = some (.sendEmptyPacket flags) →
      s.retxEvent = some (.sendEmptyPacket flags)) : Transfers iss irs w c s' where
  refines := htx ▸ hs.refines
  room := hs.room
  head_eq := hs.head_eq
  next_eq := hnext ▸ hs.next_eq
  expects := hrx ▸ hs.expects
  phase := hstate ▸ hs.phase
  genuine hopen := hsent ▸ hs.genuine (hstate ▸ hopen)
  noFin hopen flags hflags := hs.noFin (hstate ▸ hopen) flags (hretx flags hflags)

theorem moveNext (hs : Transfers iss irs w c s) {i : ℕ} (hi : i ≤ w.pending.length) :
    Transfers iss irs w c { s with nextTxSequence := w.head.plus i } where
  refines := hs.refines
  room := hs.room
  head_eq := hs.head_eq
  next_eq := ⟨i, hi, rfl⟩
  expects := hs.expects
  phase := hs.phase
  genuine := hs.genuine
  noFin := hs.noFin

/-- The receive buffer has come on. -/
theorem receive (hs : Transfers iss irs w c s) {b : TcpRxBuffer} (hb : b.nextRxSeq = irs.plus c')
    (hc : c ≤ c') : Transfers iss irs w c' { s with rxBuffer := b } where
  refines := hs.refines
  room := hs.room
  head_eq := hs.head_eq
  next_eq := hs.next_eq
  expects := hb
  phase := hs.phase
  genuine hopen segment hsegment := (hs.genuine hopen segment hsegment).mono List.prefix_rfl hc
  noFin := hs.noFin

theorem pending_le (hs : Transfers iss irs w c s) :
    w.discarded + w.pending.length = w.added.length := by
  have hlength := w.length_pending
  have hdiscarded := hs.refines.discarded_le
  omega

/-- The number at an offset of the window, as an offset of the stream. -/
theorem plus_eq (hs : Transfers iss irs w c s) (i : ℕ) :
    w.head.plus i = iss.plus (w.discarded + i) := by
  rw [hs.head_eq, SequenceNumber32.plus_plus]

/-- A segment without data and without a FIN. -/
theorem genuine_empty (hs : Transfers iss irs w c s) {i : ℕ} (hi : i ≤ w.pending.length)
    (hflags : flags = TcpHeader.ACK ∨ flags = TcpHeader.NONE) :
    Genuine iss irs w.added c (s.header (w.head.plus i) flags, []) := by
  have hall := hs.pending_le
  refine ⟨hflags, ⟨w.discarded + i, hs.plus_eq i, ?_, List.nil_prefix⟩, c, le_rfl, hs.expects⟩
  rw [List.length_nil]
  omega

theorem sendAck (hs : Transfers iss irs w c s) :
    Transfers iss irs w c (s.sendEmptyPacket TcpHeader.ACK) := by
  unfold sendEmptyPacket
  split
  · exact hs
  · refine ⟨hs.refines, hs.room, hs.head_eq, hs.next_eq, hs.expects, hs.phase,
      fun hopen segment hsegment => ?_, fun hopen flags => ?_⟩
    · rcases List.mem_append.mp hsegment with hold | hnew
      · exact hs.genuine hopen segment hold
      · obtain ⟨i, hi, hnext⟩ := hs.next_eq
        rw [List.mem_singleton.mp hnew]
        have hstate : s.state = .ESTABLISHED := hopen
        rw [if_neg (by simp [hstate]), hnext]
        exact hs.genuine_empty hi (Or.inl rfl)
    · dsimp only
      rw [if_neg (by simp [TcpHeader.ACK])]
      exact hs.noFin hopen flags

/-- Behind the FIN nothing is said of the log. -/
theorem sendFin (hs : Transfers iss irs w c s) (hclosing : s.state = .FIN_WAIT_1)
    (flags : TcpFlags) : Transfers iss irs w c (s.sendEmptyPacket flags) := by
  have hnot : s.state ≠ .ESTABLISHED := by rw [hclosing]; decide
  unfold sendEmptyPacket
  split
  · exact hs
  · exact ⟨hs.refines, hs.room, hs.head_eq, hs.next_eq, hs.expects, hs.phase,
      fun hopen => absurd hopen hnot, fun hopen => absurd hopen hnot⟩

/-- The bytes that are copied for a segment are those of the stream. -/
theorem copied (hs : Transfers iss irs w c s) {i : ℕ} (hi : i ≤ w.pending.length) (n : UInt32) :
    ∃ p, s.txBuffer.copyFromSequence n (w.head.plus i) = some p ∧
      i + p.length ≤ w.pending.length ∧ p.getSize.toNat = p.length ∧
      p <+: w.added.drop (w.discarded + i) := by
  have hroom := hs.room
  have hall := hs.pending_le
  have hle := w.length_bytesFrom_le (k := i) (by omega) n.toNat
  refine ⟨_, hs.refines.copyFromSequence_eq n hi, by omega, Payload.toNat_getSize (by omega), ?_⟩
  unfold SlidingWindow.bytesFrom
  rw [TcpTxBuffer.Refines.distance_head (by omega)]
  exact List.take_prefix _ _

theorem sendDataPacket (hs : Transfers iss irs w c s) {i : ℕ} (hi : i ≤ w.pending.length)
    (n : UInt32) (withAck : Bool) :
    ∃ r, s.sendDataPacket (w.head.plus i) n withAck = some r ∧ Transfers iss irs w c r.1 ∧
      r.1.nextTxSequence = s.nextTxSequence ∧ i + r.2.toNat ≤ w.pending.length := by
  obtain ⟨p, hcopy, hend, hsize, hcut⟩ := hs.copied hi n
  have hall := hs.pending_le
  unfold TcpSocketBase.sendDataPacket
  rw [hcopy, Option.map_some]
  refine ⟨_, rfl, ⟨hs.refines, hs.room, hs.head_eq, hs.next_eq, hs.expects, ?_,
    fun hopen segment hsegment => ?_, fun hopen flags => ?_⟩, rfl, by dsimp only; omega⟩
  · dsimp only
    split
    · rcases hs.phase with hstate | hstate <;> rw [hstate]
      · exact Or.inr rfl
      · exact Or.inr rfl
    · exact hs.phase
  · dsimp only at hopen hsegment
    split at hopen
    next => exact absurd hopen (afterFin_ne_established _)
    next hfin =>
      rcases List.mem_append.mp hsegment with hold | hnew
      · exact hs.genuine hopen segment hold
      · rw [Bool.not_eq_true] at hfin
        rw [List.mem_singleton.mp hnew]
        refine ⟨?_, ⟨w.discarded + i, hs.plus_eq i, by dsimp only; omega, hcut⟩, c, le_rfl,
          hs.expects⟩
        dsimp only [header]
        rw [hfin]
        cases withAck
        · exact Or.inr rfl
        · exact Or.inl rfl
  · dsimp only at hopen ⊢
    split at hopen
    · exact absurd hopen (afterFin_ne_established _)
    · split
      · simp
      · exact hs.noFin hopen flags

/-- A packet is sent from the next number on, which moves behind it. -/
theorem sendNext (hs : Transfers iss irs w c s) (n : UInt32) (withAck : Bool) :
    ∃ r, s.sendDataPacket s.nextTxSequence n withAck = some r ∧ Transfers iss irs w c r.1 ∧
      r.1.nextTxSequence = s.nextTxSequence ∧
      Transfers iss irs w c { r.1 with nextTxSequence := s.nextTxSequence + r.2 } := by
  obtain ⟨i, hi, hnext⟩ := hs.next_eq
  obtain ⟨r, hsend, hr, hsame, hend⟩ := hs.sendDataPacket hi n withAck
  refine ⟨r, hnext ▸ hsend, hr, hsame, ?_⟩
  rw [hnext, SequenceNumber32.plus_add]
  exact hr.moveNext hend

theorem sendLoop (hs : Transfers iss irs w c s) (window : UInt32) (withAck : Bool) (fuel : ℕ) :
    ∃ s', sendLoop window withAck fuel s = some s' ∧ Transfers iss irs w c s' := by
  induction fuel generalizing s with
  | zero => exact ⟨s, rfl, hs⟩
  | succ fuel ih =>
      rw [TcpSocketBase.sendLoop]
      dsimp only
      split
      · exact ⟨s, rfl, hs⟩
      · split
        · exact ⟨s, rfl, hs⟩
        · split
          · exact ⟨s, rfl, hs⟩
          · split
            · exact ⟨s, rfl, hs⟩
            · obtain ⟨r, hsend, hr, -, hmoved⟩ :=
                hs.sendNext (min (s.availableWindow window) s.segmentSize) withAck
              rw [hsend, Option.bind_some]
              split
              · exact ih hmoved
              · exact ⟨r.1, rfl, hr⟩

theorem sendPendingData (hs : Transfers iss irs w c s) (window : UInt32) (withAck : Bool) :
    ∃ s', s.sendPendingData window withAck = some s' ∧ Transfers iss irs w c s' := by
  unfold TcpSocketBase.sendPendingData
  split
  · exact ⟨s, rfl, hs⟩
  · split
    · exact ⟨s, rfl, hs⟩
    · exact hs.sendLoop window withAck _

theorem doRetransmit (hs : Transfers iss irs w c s) :
    ∃ s', s.doRetransmit = some s' ∧ Transfers iss irs w c s' := by
  have hsyn : s.state ≠ .SYN_SENT := by
    rcases hs.phase with hstate | hstate <;> rw [hstate] <;> decide
  unfold TcpSocketBase.doRetransmit
  rw [if_neg hsyn]
  split
  · refine ⟨_, rfl, ?_⟩
    split
    next hclosing =>
      refine hs.sendFin (hs.phase.resolve_left fun hopen => ?_) _
      rw [hopen] at hclosing
      simp at hclosing
    next => exact hs
  · have hseq : s.txBuffer.headSequence = w.head.plus 0 := by
      rw [SequenceNumber32.plus_zero]
      exact hs.refines.head_eq
    obtain ⟨r, hsend, hr, -, hend⟩ := hs.sendDataPacket (Nat.zero_le _) s.segmentSize true
    rw [hseq, hsend, Option.map_some]
    refine ⟨_, rfl, ?_⟩
    rw [SequenceNumber32.plus_add]
    split
    · exact hr.moveNext hend
    · exact hr

theorem dupAck (hs : Transfers iss irs w c s) (d : Congestion) :
    ∃ s', s.dupAck d = some s' ∧ Transfers iss irs w c s' := by
  unfold TcpSocketBase.dupAck
  split
  · exact ⟨s, rfl, hs⟩
  · exact hs.sendPendingData _ _
  · split
    · obtain ⟨r, hsend, -, hsame, hmoved⟩ := hs.sendNext s.segmentSize true
      rw [hsend, Option.map_some]
      refine ⟨_, rfl, ?_⟩
      rw [hsame]
      exact hmoved
    · exact ⟨s, rfl, hs⟩
  · exact hs.doRetransmit

/-- The window moves to an acknowledged number, and the next number stays in it. -/
theorem advance (hs : Transfers iss irs w c s) {k : ℕ} (hpos : 0 < k)
    (hk : k ≤ w.pending.length) :
    ∃ s' w', s.advance (w.head.plus k) = some s' ∧ Transfers iss irs w' c s' ∧
      w'.added = w.added ∧ w'.discarded = w.discarded + k := by
  have hroom := hs.room
  have hall := hs.pending_le
  obtain ⟨b, hdiscard, hrefines⟩ := hs.refines.discardUpTo_spec (k := k) (by omega)
  rw [SlidingWindow.discardUpTo_plus hpos (by omega),
    min_eq_left (show w.discarded + k ≤ w.added.length by omega)] at hrefines
  obtain ⟨i, hi, hnext⟩ := hs.next_eq
  have hcmp : (if s.nextTxSequence < w.head.plus k then w.head.plus k else s.nextTxSequence) =
      w.head.plus (max i k) := by
    rw [hnext]
    exact SequenceNumber32.ite_plus_lt (by omega) (by omega)
  obtain ⟨w', hw'⟩ : ∃ w' : SlidingWindow,
    w' = { w with head := w.head.plus k, discarded := w.discarded + k } := ⟨_, rfl⟩
  have hpending : w'.pending.length = w.pending.length - k := by
    rw [w'.length_pending, hw']
    dsimp only
    omega
  obtain ⟨hstate, -, -, -, hsent, -, hretx⟩ := Tracked.restartTimers_same s
  have hrx : s.restartTimers.rxBuffer = s.rxBuffer := by
    unfold restartTimers
    split
    · rfl
    · split <;> rfl
  rw [← hw'] at hrefines
  unfold TcpSocketBase.advance
  rw [hdiscard, Option.map_some]
  refine ⟨_, w', rfl, ⟨hrefines, by rw [hw']; exact hs.room, ?_, ?_, hrx ▸ hs.expects,
    hstate ▸ hs.phase, fun hopen => ?_, fun hopen flags hflags => ?_⟩, by rw [hw'], by rw [hw']⟩
  · rw [hw']
    exact hs.plus_eq k
  · refine ⟨max i k - k, by omega, ?_⟩
    dsimp only
    rw [hcmp, hw', SequenceNumber32.plus_plus]
    congr 1
    omega
  · dsimp only at hopen ⊢
    rw [hsent, hw']
    exact hs.genuine (hstate ▸ hopen)
  · dsimp only at hopen hflags
    split at hflags
    · cases hflags
    · exact hs.noFin (hstate ▸ hopen) flags (hretx flags hflags)

theorem newAck (hs : Transfers iss irs w c s) (d : Congestion) {k : ℕ} (hpos : 0 < k)
    (hk : k ≤ w.pending.length) :
    ∃ s' w', s.newAck d (w.head.plus k) = some s' ∧ Transfers iss irs w' c s' ∧
      w'.added = w.added ∧ w'.discarded = w.discarded + k := by
  obtain ⟨s₁, w', hadvance, hs₁, hw'⟩ := hs.advance hpos hk
  obtain ⟨s₂, hsend, hs₂⟩ := hs₁.sendPendingData d.window s₁.connected
  unfold TcpSocketBase.newAck
  rw [hadvance, Option.bind_some, hsend, Option.bind_some]
  split
  · obtain ⟨s₃, hlast, hs₃⟩ := hs₂.doRetransmit
    exact ⟨s₃, w', hlast, hs₃, hw'⟩
  · exact ⟨s₂, w', rfl, hs₂, hw'⟩

/-- An acknowledgement of bytes of the stream is handled without a failed assertion, and nothing is
discarded that it does not acknowledge. -/
theorem receivedAckNumber (hs : Transfers iss irs w c s) (d : Congestion) (p : Payload)
    (hm : m ≤ w.added.length) (hack : h.ackNumber = iss.plus m) :
    ∃ s' w', s.receivedAckNumber d p h = some s' ∧ Transfers iss irs w' c s' ∧
      w'.added = w.added ∧ w'.discarded ≤ max w.discarded m := by
  have hroom := hs.room
  have hall := hs.pending_le
  have hhead : s.txBuffer.headSequence = iss.plus w.discarded :=
    hs.refines.head_eq.trans hs.head_eq
  obtain ⟨i, hi, hnext⟩ := hs.next_eq
  rw [hs.plus_eq] at hnext
  unfold TcpSocketBase.receivedAckNumber
  rw [hhead, hack]
  simp only [SequenceNumber32.plus_lt_plus (s := iss) (show m < 2 ^ 31 by omega)
      (show w.discarded < 2 ^ 31 by omega),
    SequenceNumber32.plus_inj (s := iss) (show m < 2 ^ 32 by omega)
      (show w.discarded < 2 ^ 32 by omega)]
  split
  · exact ⟨s, w, rfl, hs, rfl, le_max_left _ _⟩
  · split
    · exact ⟨s, w, rfl, hs, rfl, le_max_left _ _⟩
    · split
      next heq =>
        have hle : iss.plus m ≤ s.nextTxSequence := by
          rw [hnext, SequenceNumber32.plus_le_plus (by omega) (by omega)]
          omega
        split
        · obtain ⟨s₁, hdup, hs₁⟩ := hs.dupAck d
          obtain ⟨i₁, hi₁, hnext₁⟩ := hs₁.next_eq
          rw [hs₁.plus_eq] at hnext₁
          have hle₁ : iss.plus m ≤ s₁.nextTxSequence := by
            rw [hnext₁, SequenceNumber32.plus_le_plus (by omega) (by omega)]
            omega
          rw [hdup, Option.bind_some, if_pos hle₁]
          exact ⟨s₁, w, rfl, hs₁, rfl, le_max_left _ _⟩
        · rw [Option.bind_some, if_pos hle]
          exact ⟨s, w, rfl, hs, rfl, le_max_left _ _⟩
      next hold hne =>
        obtain ⟨s₁, w', hnew, hs₁, hadded, hdiscarded⟩ :=
          hs.newAck d (k := m - w.discarded) (by omega) (by omega)
        rw [hs.plus_eq, show w.discarded + (m - w.discarded) = m by omega] at hnew
        exact ⟨s₁, w', hnew, hs₁, hadded, by omega⟩

theorem acknowledge (hs : Transfers iss irs w c s) (seq : SequenceNumber32) (p : Payload) :
    Transfers iss irs w c (s.acknowledge seq p) := by
  unfold TcpSocketBase.acknowledge
  split
  · exact hs.sendAck
  · split
    · refine sendAck ?_
      exact hs.same rfl rfl rfl rfl rfl fun _ hflags => hflags
    · exact hs.same rfl rfl rfl rfl rfl fun _ hflags => hflags

end Transfers

/-! ## Received data -/

/-- The buffer holds what follows the first `n` bytes of the stream, of which `c` are in order. No
FIN has come. -/
structure Hears (irs : SequenceNumber32) (stream : Payload) (n c : ℕ) (b : TcpRxBuffer) : Prop where
  holds : ∃ front back, b.Holds irs stream n c front back
  noFin : b.gotFin = false
  room : b.maxBuffer.toNat + stream.length + 1 < 2 ^ 31

theorem maxBuffer_add {b : TcpRxBuffer} {seq : SequenceNumber32} {r : TcpRxBuffer × Bool}
    (hadd : b.add p seq = some r) : r.1.maxBuffer = b.maxBuffer := by
  unfold TcpRxBuffer.add at hadd
  dsimp only at hadd
  split at hadd
  · exact Option.some.inj hadd ▸ rfl
  · obtain ⟨q, -, hstore⟩ := Option.bind_eq_some_iff.mp hadd
    split at hstore
    · exact Option.some.inj hstore ▸ rfl
    · cases hstore

namespace Hears

variable {n a : ℕ} {b : TcpRxBuffer}

theorem expects (hb : Hears irs stream n c b) : b.nextRxSeq = irs.plus c := by
  obtain ⟨front, back, hholds⟩ := hb.holds
  rw [hholds.arranged.next_eq, if_neg]
  rw [hb.noFin]
  simp

theorem finished (hb : Hears irs stream n c b) : b.finished = false := by
  unfold TcpRxBuffer.finished
  rw [hb.noFin, Bool.false_and]

/-- The bytes in order are those that are extracted or can be. -/
theorem avail_eq (hb : Hears irs stream n c b) :
    n + b.availBytes.toNat = c ∧ c ≤ stream.length := by
  obtain ⟨front, back, hholds⟩ := hb.holds
  have hle := hholds.arranged.front_tiles.le
  have havail := hholds.arranged.avail_eq
  exact ⟨by omega, hholds.arranged.le_hi⟩

/-- The peer goes on with its stream. -/
theorem grow (hb : Hears irs stream n c b) (hgrow : stream <+: stream')
    (hroom : b.maxBuffer.toNat + stream'.length + 1 < 2 ^ 31) : Hears irs stream' n c b := by
  obtain ⟨front, back, ⟨hdata, hfront, hback, hc, hsize, havail, -, hnext⟩, hcut⟩ := hb.holds
  refine ⟨⟨front, back, ⟨hdata, hfront, hback.mono le_rfl hgrow.length_le,
    hc.trans hgrow.length_le, hsize, havail, ?_, ?_⟩, ?_⟩, hb.noFin, hroom⟩
  · intro hfin
    rw [hb.noFin] at hfin
    cases hfin
  · rw [hnext, hb.noFin]
    simp
  · exact fun x hx => (hcut x hx).trans (hgrow.drop x.first)

theorem add (hb : Hears irs stream n c b) (ha : a + p.length ≤ stream.length)
    (hp : p <+: stream.drop a) :
    ∃ r c', b.add p (irs.plus a) = some r ∧ Hears irs stream n c' r.1 ∧ c ≤ c' := by
  have hroom := hb.room
  obtain ⟨front, back, hholds⟩ := hb.holds
  obtain ⟨b', added, c', front', back', hadd, hholds', hfin, hc, -⟩ :=
    hholds.add_spec (by omega) ha hp (hholds.not_misjudges hroom ha)
  exact ⟨(b', added), c', hadd, ⟨⟨front', back', hholds'⟩, hfin.trans hb.noFin,
    (maxBuffer_add hadd).symm ▸ hroom⟩, hc⟩

theorem extract (hb : Hears irs stream n c b) (maxSize : UInt32) :
    ∃ r, b.extract maxSize = some r ∧ Hears irs stream (n + r.2.length) c r.1 ∧
      r.1.nextRxSeq = b.nextRxSeq ∧ r.2 <+: stream.drop n := by
  have hroom := hb.room
  obtain ⟨front, back, hholds⟩ := hb.holds
  obtain ⟨b', bytes, front', hextract, hbytes, hholds', hfin⟩ :=
    hholds.extract_spec (by omega) maxSize
  have hsame : b'.maxBuffer = b.maxBuffer ∧ b'.nextRxSeq = b.nextRxSeq := by
    obtain ⟨r, -, hr⟩ := Option.map_eq_some_iff.mp hextract
    exact (Prod.mk.inj hr).1 ▸ ⟨rfl, rfl⟩
  exact ⟨(b', bytes), hextract, ⟨⟨front', back, hholds'⟩, hfin.trans hb.noFin,
    hsame.1.symm ▸ hroom⟩, hsame.2, hbytes⟩

end Hears

namespace Transfers

variable {n a : ℕ}

/-- The data of a segment is stored and acknowledged, and no assertion fails. -/
theorem receivedData (hs : Transfers iss irs w c s) (hb : Hears irs stream n c s.rxBuffer)
    (hseq : h.sequenceNumber = irs.plus a) (ha : a + p.length ≤ stream.length)
    (hp : p <+: stream.drop a) :
    ∃ s' c', s.receivedData p h = some s' ∧ Transfers iss irs w c' s' ∧
      Hears irs stream n c' s'.rxBuffer ∧ c ≤ c' := by
  obtain ⟨r, c', hadd, hb', hc⟩ := hb.add ha hp
  have hstored := hs.receive hb'.expects hc
  have hack := (sendsOnly_sendEmptyPacket { s with rxBuffer := r.1 } TcpHeader.ACK).rxBuffer_eq
  have hlater :=
    (sendsOnly_acknowledge { s with rxBuffer := r.1 } s.rxBuffer.nextRxSeq p).rxBuffer_eq
  unfold TcpSocketBase.receivedData
  rw [hseq, hadd, Option.bind_some]
  dsimp only
  split
  · exact ⟨_, c', rfl, hstored.sendAck, hack.symm ▸ hb', hc⟩
  · have hopen : ¬ (s.rxBuffer.nextRxSeq <
        ({ s with rxBuffer := r.1 }.acknowledge s.rxBuffer.nextRxSeq p).rxBuffer.nextRxSeq ∧
        ({ s with rxBuffer := r.1 }.acknowledge s.rxBuffer.nextRxSeq p).rxBuffer.finished = true ∧
        h.flags.fin = false) := by
      rw [hlater, hb'.finished]
      simp
    rw [if_neg hopen]
    exact ⟨_, c', rfl, hstored.acknowledge _ _, hlater.symm ▸ hb', hc⟩

/-- A segment of the peer arrives. What it acknowledges may be discarded. -/
theorem doForwardUp (hs : Transfers iss irs w c s) (hopen : s.state = .ESTABLISHED)
    (hb : Hears irs stream n c s.rxBuffer) (hsegment : Genuine irs iss stream m segment)
    (hm : m ≤ w.added.length) (d : Congestion) :
    ∃ s' w' c', s.doForwardUp d segment.2 segment.1 = some s' ∧ Transfers iss irs w' c' s' ∧
      Hears irs stream n c' s'.rxBuffer ∧ c ≤ c' ∧ w'.added = w.added ∧
      w'.discarded ≤ max w.discarded m := by
  obtain ⟨hflags, ⟨a, hseq, ha, hp⟩, k, hk, hack⟩ := hsegment
  have hwindow : Transfers iss irs w c (s.withWindow segment.1) :=
    hs.same rfl rfl rfl rfl rfl fun _ hretx => hretx
  have hstate : (s.withWindow segment.1).state = .ESTABLISHED := hopen
  have hb' : Hears irs stream n c (s.withWindow segment.1).rxBuffer := hb
  rw [doForwardUp_eq]
  split
  · refine ⟨_, w, c, rfl, ?_, ?_, le_rfl, rfl, le_max_left _ _⟩
    · split
      · exact hwindow.sendAck
      · exact hwindow
    · split
      · rw [(sendsOnly_sendEmptyPacket _ _).rxBuffer_eq]
        exact hb'
      · exact hb'
  · unfold process
    rw [hstate]
    dsimp only
    unfold processEstablished
    rcases hflags with hflags | hflags
    · rw [if_pos hflags]
      obtain ⟨s₁, w', hnumber, hs₁, hadded, hdiscarded⟩ :=
        hwindow.receivedAckNumber d segment.2 (hk.trans hm) hack
      have hb₁ : Hears irs stream n c s₁.rxBuffer :=
        (sendsOnly_receivedAckNumber hnumber).rxBuffer_eq ▸ hb'
      have hmoved : w'.discarded ≤ max w.discarded m := by omega
      unfold receivedAck
      rw [hnumber, Option.bind_some]
      split
      · obtain ⟨s₂, c', hdata, hs₂, hb₂, hc⟩ := hs₁.receivedData hb₁ hseq ha hp
        exact ⟨s₂, w', c', hdata, hs₂, hb₂, hc, hadded, hmoved⟩
      · exact ⟨s₁, w', c, rfl, hs₁, hb₁, le_rfl, hadded, hmoved⟩
    · obtain ⟨s₁, c', hdata, hs₁, hb₁, hc⟩ := hwindow.receivedData hb' hseq ha hp
      rw [hflags, if_neg (by decide), if_neg (by decide), if_neg (by decide), if_pos rfl, hdata,
        Option.bind_some, hb₁.finished, if_neg Bool.false_ne_true]
      exact ⟨s₁, w, c', rfl, hs₁, hb₁, hc, rfl, le_max_left _ _⟩

/-! ## The calls of the application and the timeouts -/

theorem send (hs : Transfers iss irs w c s) (d : Congestion)
    (hroom : s.accepts p = true → w.added.length + p.length < 2 ^ 31 - 1) :
    ∃ s' w', s.send d p = some s' ∧ Transfers iss irs w' c s' ∧
      w'.added = w.added ++ s.written (.send p) ∧ w'.discarded = w.discarded := by
  have hwritten : s.written (.send p) = if s.accepts p then p else [] := rfl
  unfold TcpSocketBase.send
  rw [hwritten]
  by_cases haccepts : s.accepts p = true
  · have hsmall := hroom haccepts
    have hall := hs.pending_le
    obtain ⟨hstate, hfits⟩ := Bool.and_eq_true_iff.mp haccepts
    obtain ⟨hrefines, hiff⟩ := hs.refines.add_spec (p := p) (by omega) (fun _ => by omega)
    obtain ⟨w', hw'⟩ : ∃ w' : SlidingWindow, w' = { w with added := w.added ++ p } := ⟨_, rfl⟩
    have hgrown : w.add p = w' := by
      unfold SlidingWindow.add
      rw [if_pos (hiff.mp hfits), hw']
    have hlength : w'.pending.length = w.pending.length + p.length := by
      rw [w'.length_pending, hw', List.length_append]
      dsimp only
      omega
    rw [hgrown] at hrefines
    obtain ⟨i, hi, hnext⟩ := hs.next_eq
    have hs' : Transfers iss irs w' c { s with txBuffer := (s.txBuffer.add p).1 } := by
      refine ⟨hrefines, ?_, ?_, ⟨i, by omega, ?_⟩, hs.expects, hs.phase,
        fun hopen segment hsegment => ?_, hs.noFin⟩
      · rw [hw', List.length_append]
        exact hsmall
      · rw [hw']
        exact hs.head_eq
      · rw [hw']
        exact hnext
      · rw [hw']
        exact (hs.genuine hopen segment hsegment).mono (List.prefix_append _ _) le_rfl
    rw [if_pos haccepts, if_pos haccepts]
    dsimp only
    split
    · obtain ⟨s₁, hsend, hs₁⟩ := hs'.sendPendingData d.window s.connected
      exact ⟨s₁, w', hsend, hs₁, by rw [hw'], by rw [hw']⟩
    · exact ⟨_, w', rfl, hs', by rw [hw'], by rw [hw']⟩
  · rw [if_neg haccepts, if_neg haccepts, List.append_nil]
    exact ⟨s, w, rfl, hs, rfl, rfl⟩

theorem expire (hs : Transfers iss irs w c s) (hopen : s.state = .ESTABLISHED)
    (hretx : s.retxEvent ≠ none) :
    ∃ s', s.expire = some s' ∧ Transfers iss irs w c s' := by
  have hexpired : Transfers iss irs w c { s with retxEvent := none } :=
    hs.same rfl rfl rfl rfl rfl fun _ hflags => by cases hflags
  unfold TcpSocketBase.expire
  split
  next hnone => exact absurd hnone hretx
  next =>
    unfold reTxTimeout
    dsimp only
    split
    · exact ⟨_, rfl, hexpired⟩
    · split
      · exact ⟨_, rfl, hexpired⟩
      · have hseq : s.txBuffer.headSequence = w.head.plus 0 := by
          rw [SequenceNumber32.plus_zero]
          exact hs.refines.head_eq
        unfold TcpSocketBase.retransmit
        dsimp only
        rw [hseq]
        exact (hexpired.moveNext (Nat.zero_le _)).doRetransmit
  next flags hflags => exact absurd hflags (hs.noFin hopen flags)

theorem delAckTimeout (hs : Transfers iss irs w c s) : Transfers iss irs w c s.delAckTimeout := by
  have hreset : Transfers iss irs w c { s with delAckCount := 0, delAckEvent := false } :=
    hs.same rfl rfl rfl rfl rfl fun _ hflags => hflags
  exact hreset.sendAck

/-- The probe takes one byte of the stream, or none. -/
theorem persistTimeout (hs : Transfers iss irs w c s) :
    ∃ s', s.persistTimeout = some s' ∧ Transfers iss irs w c s' := by
  obtain ⟨i, hi, hnext⟩ := hs.next_eq
  obtain ⟨p, hcopy, hend, -, hcut⟩ := hs.copied hi 1
  have hall := hs.pending_le
  unfold TcpSocketBase.persistTimeout
  rw [hnext, hcopy, Option.map_some]
  refine ⟨_, rfl, ⟨hs.refines, hs.room, hs.head_eq, ⟨i, hi, rfl⟩, hs.expects, hs.phase,
    fun hopen segment hsegment => ?_, hs.noFin⟩⟩
  rcases List.mem_append.mp hsegment with hold | hnew
  · exact hs.genuine hopen segment hold
  · rw [List.mem_singleton.mp hnew]
    exact ⟨Or.inr rfl, ⟨w.discarded + i, hs.plus_eq i, by dsimp only; omega, hcut⟩, c, le_rfl,
      hs.expects⟩

/-- A close that leaves the connection open waits until all is sent. -/
theorem close_of_established (hopen : s.state = .ESTABLISHED)
    (hstate : s.close.state = .ESTABLISHED) : s.close = { s with closeOnEmpty := true } := by
  unfold TcpSocketBase.close at hstate ⊢
  split at hstate
  next => cases hstate
  next hrx =>
    rw [if_neg hrx]
    split at hstate
    next hleft => rw [if_pos hleft]
    next =>
      unfold doClose at hstate
      rw [hopen] at hstate
      cases hstate

end Transfers

end TcpSocketBase

end Ns3Rdma
