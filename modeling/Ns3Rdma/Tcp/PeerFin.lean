import Ns3Rdma.Tcp.Progress
import Ns3Rdma.Tcp.Reassembly

/-! # The FIN of the peer

The peer sends a stream and then a FIN. What a socket that still waits for the FIN makes of a
segment: which bytes it has then, and which state it goes to. -/

namespace Ns3Rdma

namespace TcpRxBuffer

open Piece

variable {irs : SequenceNumber32} {stream : Payload} {b b' : TcpRxBuffer}
  {front front' back back' : List Piece} {n c c' : ℕ} {bytes bytes' : ℕ → Prop} {fin fin' : Prop}

namespace Holds

theorem finished_iff (hb : Holds irs stream b n c front back)
    (hstream : stream.length + 1 < 2 ^ 31) :
    b.finished = true ↔ b.gotFin = true ∧ c = stream.length := by
  unfold finished
  rw [Bool.and_eq_true, decide_eq_true_iff]
  refine and_congr_right fun hfin => ?_
  have hle := hb.arranged.le_hi
  rw [hb.arranged.fin_eq hfin, hb.arranged.next_eq,
    SequenceNumber32.plus_lt_plus (by omega) (by split <;> omega)]
  split
  next hend => exact ⟨fun _ => hend.2, fun _ => by omega⟩
  next hnot => exact ⟨fun hlt => absurd hlt (by omega), fun heq => absurd ⟨hfin, heq⟩ hnot⟩

/-- The expected number of a buffer that misses something. -/
theorem next_of_open (hb : Holds irs stream b n c front back)
    (hstream : stream.length + 1 < 2 ^ 31) (hopen : b.finished = false) :
    b.nextRxSeq = irs.plus c := by
  rw [hb.arranged.next_eq, if_neg]
  rw [← hb.finished_iff hstream, hopen]
  exact Bool.false_ne_true

theorem next_lt_of_finished (hb : Holds irs stream b n c front back)
    (hb' : Holds irs stream b' n c' front' back') (hstream : stream.length + 1 < 2 ^ 31)
    (hopen : b.finished = false) (hfinished : b'.finished = true) :
    b.nextRxSeq < b'.nextRxSeq := by
  have hle := hb.arranged.le_hi
  obtain ⟨hfin, hend⟩ := (hb'.finished_iff hstream).mp hfinished
  rw [hb.next_of_open hstream hopen, hb'.arranged.next_eq, if_pos ⟨hfin, hend⟩,
    SequenceNumber32.plus_lt_plus (by omega) (by omega)]
  omega

end Holds

/-- The buffer has stored these bytes of the stream, and it knows where the FIN is if `fin`. -/
def Received (irs : SequenceNumber32) (stream : Payload) (b : TcpRxBuffer) (bytes : ℕ → Prop)
    (fin : Prop) : Prop :=
  ∃ n c front back, Holds irs stream b n c front back ∧
    (∀ k < stream.length, Stored c back k ↔ bytes k) ∧ (b.gotFin = true ↔ fin)

namespace Received

theorem congr (hb : Received irs stream b bytes fin)
    (hbytes : ∀ k < stream.length, bytes k ↔ bytes' k) (hfin : fin ↔ fin') :
    Received irs stream b bytes' fin' := by
  obtain ⟨n, c, front, back, hholds, hstored, hgot⟩ := hb
  exact ⟨n, c, front, back, hholds, fun k hk => (hstored k hk).trans (hbytes k hk),
    hgot.trans hfin⟩

theorem finished_iff (hb : Received irs stream b bytes fin)
    (hstream : stream.length + 1 < 2 ^ 31) :
    b.finished = true ↔ (∀ k < stream.length, bytes k) ∧ fin := by
  obtain ⟨n, c, front, back, hholds, hstored, hgot⟩ := hb
  rw [hholds.finished_iff hstream, hgot, and_comm]
  refine and_congr_left fun _ => ?_
  constructor
  · rintro rfl k hk
    exact (hstored k hk).mp (Or.inl hk)
  · intro hall
    by_contra hne
    have hlt : c < stream.length := lt_of_le_of_ne hholds.arranged.le_hi hne
    exact hholds.arranged.not_stored ((hstored c hlt).mpr (hall c hlt))

/-- A finished buffer expects a number behind the whole stream. -/
theorem lt_next_of_finished (hb : Received irs stream b bytes fin)
    (hstream : stream.length + 1 < 2 ^ 31) (hfinished : b.finished = true) {k : ℕ}
    (hk : k ≤ stream.length) : irs.plus k < b.nextRxSeq := by
  obtain ⟨n, c, front, back, hholds, -⟩ := hb
  have hend := (hholds.finished_iff hstream).mp hfinished
  rw [hholds.arranged.next_eq, if_pos hend, SequenceNumber32.plus_lt_plus (by omega) (by omega)]
  omega

theorem setFinSequence (hb : Received irs stream b bytes fin)
    (hstream : stream.length + 1 < 2 ^ 31) :
    Received irs stream (b.setFinSequence (irs.plus stream.length)) bytes True := by
  obtain ⟨n, c, front, back, hholds, hstored, hgot⟩ := hb
  exact ⟨n, c, front, back, hholds.setFinSequence hstream, hstored, iff_of_true rfl trivial⟩

theorem extract (hb : Received irs stream b bytes fin) (hstream : stream.length + 1 < 2 ^ 31)
    {maxSize : UInt32} {r : TcpRxBuffer × Payload} (hextract : b.extract maxSize = some r) :
    Received irs stream r.1 bytes fin ∧ (r.1.finished = true ↔ b.finished = true) := by
  have hold := hb.finished_iff hstream
  obtain ⟨n, c, front, back, hholds, hstored, hgot⟩ := hb
  obtain ⟨b', taken, front', heq, -, hholds', hfin⟩ := hholds.extract_spec hstream maxSize
  obtain rfl := Option.some.inj (heq.symm.trans hextract)
  have hnew : Received irs stream b' bytes fin :=
    ⟨_, c, front', back, hholds', hstored, by rw [hfin, hgot]⟩
  exact ⟨hnew, (hnew.finished_iff hstream).trans hold.symm⟩

end Received

end TcpRxBuffer

namespace TcpSocketBase

open TcpRxBuffer

/-- The states in which the FIN of the peer is outstanding. -/
def Receiving (state : TcpStates) : Prop :=
  state = .ESTABLISHED ∨ state = .FIN_WAIT_1 ∨ state = .FIN_WAIT_2

/-- The states that the end of the stream leads to. -/
def Answers : TcpStates → TcpStates → Prop
  | .ESTABLISHED, state => state = .CLOSE_WAIT ∨ state = .LAST_ACK
  | .FIN_WAIT_1, state => state = .CLOSING ∨ state = .TIME_WAIT
  | .FIN_WAIT_2, state => state = .TIME_WAIT
  | _, _ => True

/-- The offset of a segment in the stream that begins at `irs`. -/
def offset (irs : SequenceNumber32) (h : TcpHeader) : ℕ := h.sequenceNumber.distance irs

/-- The segment is cut from the stream, and its FIN is at the end of the stream. -/
structure CutFrom (irs : SequenceNumber32) (stream p : Payload) (h : TcpHeader) : Prop where
  stop_le : offset irs h + p.length ≤ stream.length
  cut : p <+: stream.drop (offset irs h)
  fin_last : h.flags.fin = true → offset irs h + p.length = stream.length
  flags_mem : h.flags ∈ [TcpHeader.NONE, TcpHeader.ACK, TcpHeader.FIN, TcpHeader.FIN_ACK]

/-- The segment has the byte `k` of the stream. -/
def Carries (irs : SequenceNumber32) (p : Payload) (h : TcpHeader) (k : ℕ) : Prop :=
  offset irs h ≤ k ∧ k < offset irs h + p.length

/-- With the segment every byte and the FIN have arrived, if `bytes` and `fin` arrived before. -/
def Completes (irs : SequenceNumber32) (stream : Payload) (bytes : ℕ → Prop) (fin : Prop)
    (p : Payload) (h : TcpHeader) : Prop :=
  (∀ k < stream.length, bytes k ∨ Carries irs p h k) ∧ (fin ∨ h.flags.fin = true)

variable {irs : SequenceNumber32} {stream p : Payload} {h : TcpHeader} {s s' s₁ : TcpSocketBase}
  {bytes : ℕ → Prop} {fin : Prop} {d : Congestion}

theorem sequenceNumber_eq (irs : SequenceNumber32) (h : TcpHeader) :
    h.sequenceNumber = irs.plus (offset irs h) :=
  (SequenceNumber32.plus_distance h.sequenceNumber irs).symm

theorem not_receiving_of_answers {before after : TcpStates} (hbefore : Receiving before)
    (hanswers : Answers before after) : ¬ Receiving after := by
  rcases hbefore with rfl | rfl | rfl
  · rcases hanswers with rfl | rfl <;> simp [Receiving]
  · rcases hanswers with rfl | rfl <;> simp [Receiving]
  · obtain rfl : after = .TIME_WAIT := hanswers
    simp [Receiving]

namespace CutFrom

theorem getSize_eq_zero (hcut : CutFrom irs stream p h) (hstream : stream.length + 1 < 2 ^ 31) :
    p.getSize = 0 ↔ p = [] := by
  have hle := hcut.stop_le
  rw [← UInt32.toNat_inj, Payload.toNat_getSize (by omega)]
  exact List.length_eq_zero_iff

theorem getSize_pos (hcut : CutFrom irs stream p h) (hstream : stream.length + 1 < 2 ^ 31) :
    0 < p.getSize ↔ p ≠ [] := by
  rw [ne_eq, ← hcut.getSize_eq_zero hstream]
  exact UInt32.pos_iff_ne_zero

/-- The number behind the segment. -/
theorem stop_eq (hcut : CutFrom irs stream p h) (hstream : stream.length + 1 < 2 ^ 31) :
    h.sequenceNumber + p.getSize = irs.plus (offset irs h + p.length) := by
  have hle := hcut.stop_le
  rw [sequenceNumber_eq irs h]
  exact Piece.plus_getSize (x := ⟨offset irs h, p⟩)
    (show offset irs h + p.length < 2 ^ 31 by omega)

end CutFrom

/-! ## The end of the stream -/

/-- In ESTABLISHED the end of the stream is answered, unless `Close` resets the connection over
bytes that were not read. -/
theorem doPeerClose_spec (hstate : s.state = .ESTABLISHED)
    (hread : s.shutdownSend = true → s.rxBuffer.size = 0) :
    ∃ s', s.doPeerClose = some s' ∧ s'.rxBuffer = s.rxBuffer ∧
      (s'.state = .CLOSE_WAIT ∨ s'.state = .LAST_ACK) := by
  obtain ⟨s₁, hs₁⟩ : ∃ s₁ : TcpSocketBase,
    s₁ = { s with state := .CLOSE_WAIT, closeNotified := true } := ⟨_, rfl⟩
  have hrx : s₁.rxBuffer = s.rxBuffer := by rw [hs₁]
  have hwait : s₁.state = .CLOSE_WAIT := by rw [hs₁]
  have hsend : s₁.shutdownSend = s.shutdownSend := by rw [hs₁]
  obtain ⟨s₂, hs₂⟩ : ∃ s₂ : TcpSocketBase,
    s₂ = if s₁.shutdownSend then s₁.close else s₁.sendEmptyPacket TcpHeader.ACK := ⟨_, rfl⟩
  have hclosed : s₂.rxBuffer = s.rxBuffer ∧ (s₂.state = .CLOSE_WAIT ∨ s₂.state = .LAST_ACK) := by
    rw [hs₂]
    split
    next hshut =>
      have hempty : ¬ s₁.rxBuffer.size ≠ 0 := by
        rw [hrx, not_not]
        exact hread (hsend ▸ hshut)
      unfold close
      rw [if_neg hempty]
      split
      · exact ⟨hrx, Or.inl hwait⟩
      · unfold doClose
        rw [hwait]
        exact ⟨(sendsOnly_sendEmptyPacket s₁ _).rxBuffer_eq.trans hrx, Or.inr rfl⟩
    next =>
      exact ⟨(sendsOnly_sendEmptyPacket s₁ _).rxBuffer_eq.trans hrx,
        Or.inl ((state_sendEmptyPacket s₁ _).trans hwait)⟩
  unfold doPeerClose
  rw [if_pos (Or.inl hstate), ← hs₁]
  dsimp only
  rw [← hs₂]
  refine ⟨_, rfl, ?_⟩
  split <;> exact hclosed

theorem finishWait_spec (hstate : s.state = .FIN_WAIT_1 ∨ s.state = .FIN_WAIT_2) (h : TcpHeader) :
    (s.finishWait h).rxBuffer = s.rxBuffer ∧
      (s.rxBuffer.finished = true → Answers s.state (s.finishWait h).state) := by
  unfold finishWait
  split
  next hfinished =>
    refine ⟨(sendsOnly_sendEmptyPacket _ _).rxBuffer_eq.trans ?_, fun _ => ?_⟩
    · split
      · dsimp only
        split <;> rfl
      · rfl
    · rw [state_sendEmptyPacket]
      split
      next hfirst =>
        rw [hfirst]
        dsimp only
        split
        · exact Or.inr rfl
        · exact Or.inl rfl
      next hfirst =>
        rw [hstate.resolve_left hfirst]
        exact rfl
  next hnot => exact ⟨rfl, fun hfinished => absurd ⟨hstate, hfinished⟩ hnot⟩

/-! ## Data -/

/-- The bytes of a segment that fits are stored. `DoPeerClose` is called if they are the last ones,
in whatever state, unless the segment has a FIN of its own. -/
theorem receivedData_spec (hs : Received irs stream s.rxBuffer bytes fin)
    (hstream : stream.length + 1 < 2 ^ 31) (hcut : CutFrom irs stream p h)
    (hfits : s.rxBuffer.Fits p h.sequenceNumber) (hopen : s.rxBuffer.finished = false) :
    ∃ s₁ : TcpSocketBase, s₁.state = s.state ∧ s₁.shutdownSend = s.shutdownSend ∧
      Received irs stream s₁.rxBuffer (fun k => bytes k ∨ Carries irs p h k) fin ∧
      s.receivedData p h =
        if s₁.rxBuffer.finished = true ∧ h.flags.fin = false then s₁.doPeerClose
        else some s₁ := by
  obtain ⟨n, c, front, back, hb, hstored, hgot⟩ := hs
  rw [sequenceNumber_eq irs h] at hfits
  obtain ⟨b', added, c', front', back', hadd, hb', hfin, -, hsame, hkeeps, hall, honly⟩ :=
    hb.add_spec hstream hcut.stop_le hcut.cut hfits.not_misjudges
  have hreceived : Received irs stream b' (fun k => bytes k ∨ Carries irs p h k) fin := by
    refine ⟨n, c', front', back', hb', fun k hk => ?_, by rw [hfin, hgot]⟩
    constructor
    · exact fun hnew => (honly k hnew).imp_left (hstored k hk).mp
    · rintro (hold | hnew)
      · exact hkeeps k ((hstored k hk).mpr hold)
      · exact hall hfits k hnew.1 hnew.2
  have hstart : s.receivedData p h = (some (b', added)).bind fun r =>
      if r.2 = false then some ({ s with rxBuffer := r.1 }.sendEmptyPacket TcpHeader.ACK)
      else
        let s' := { s with rxBuffer := r.1 }.acknowledge s.rxBuffer.nextRxSeq p
        if s.rxBuffer.nextRxSeq < s'.rxBuffer.nextRxSeq ∧ s'.rxBuffer.finished ∧
            h.flags.fin = false then
          s'.doPeerClose
        else some s' := by
    rw [← hadd, ← sequenceNumber_eq irs h]
    rfl
  rw [hstart, Option.bind_some]
  cases added with
  | false =>
      have hsent := sendsOnly_sendEmptyPacket { s with rxBuffer := b' } TcpHeader.ACK
      have hstill : b'.finished = false := by
        rw [← Bool.not_eq_true, hb'.finished_iff hstream, hfin, hsame rfl,
          ← hb.finished_iff hstream, hopen]
        exact Bool.false_ne_true
      refine ⟨_, state_sendEmptyPacket { s with rxBuffer := b' } TcpHeader.ACK,
        hsent.shutdownSend_eq, hsent.rxBuffer_eq ▸ hreceived, ?_⟩
      rw [if_pos rfl, if_neg]
      rintro ⟨hfinished, -⟩
      rw [hsent.rxBuffer_eq, hstill] at hfinished
      cases hfinished
  | true =>
      obtain ⟨s₁, hs₁⟩ : ∃ s₁, s₁ =
        { s with rxBuffer := b' }.acknowledge s.rxBuffer.nextRxSeq p := ⟨_, rfl⟩
      have hsent := sendsOnly_acknowledge { s with rxBuffer := b' } s.rxBuffer.nextRxSeq p
      have hstate := state_acknowledge { s with rxBuffer := b' } s.rxBuffer.nextRxSeq p
      rw [← hs₁] at hsent hstate
      have hrx : s₁.rxBuffer = b' := hsent.rxBuffer_eq
      refine ⟨s₁, hstate, hsent.shutdownSend_eq, hrx ▸ hreceived, ?_⟩
      dsimp only
      rw [if_neg (Bool.noConfusion : true ≠ false), ← hs₁]
      refine if_congr ?_ rfl rfl
      rw [hrx]
      constructor
      · exact And.right
      · exact fun hlast => ⟨hb.next_lt_of_finished hb' hstream hopen hlast.1, hlast⟩

/-! ## Segments -/

/-- A segment that the socket does not lose, when `bytes` and `fin` arrived before. -/
structure Orderly (irs : SequenceNumber32) (stream : Payload) (bytes : ℕ → Prop) (fin : Prop)
    (s : TcpSocketBase) (d : Congestion) (p : Payload) (h : TcpHeader) : Prop where
  /-- It lies in the window. -/
  begins : p ≠ [] → ¬ s.rxBuffer.maxRxSequence ≤ h.sequenceNumber
  fits : p ≠ [] ∨ h.flags = TcpHeader.NONE → s.rxBuffer.Fits p h.sequenceNumber
  /-- In ESTABLISHED a segment with a FIN begins in the window, unless all of it was there before. -/
  inRange : s.state = .ESTABLISHED → h.flags.fin = true →
    ¬ (h.sequenceNumber < s.rxBuffer.nextRxSeq ∨ s.rxBuffer.maxRxSequence < h.sequenceNumber) ∨
      (fin ∧ ∀ k < stream.length, Carries irs p h k → bytes k)
  /-- In the other states the first FIN comes without data, and the last segment has a FIN. -/
  alone : s.state ≠ .ESTABLISHED → h.flags.fin = true → p = [] ∨ fin
  last : s.state ≠ .ESTABLISHED → Completes irs stream bytes fin p h → h.flags.fin = true
  /-- After `ShutdownSend` the last segment has no data, and all data were read. -/
  unread : s.state = .ESTABLISHED → s.shutdownSend = true →
    Completes irs stream bytes fin p h → p = [] ∧ s.rxBuffer.size = 0
  /-- The acknowledgement in the last segment does not make the socket send its own FIN. -/
  ownFin : s.state = .ESTABLISHED → h.flags = TcpHeader.ACK →
    Completes irs stream bytes fin p h →
    ∀ s₁ ∈ s.receivedAckNumber d p h, s₁.state = .ESTABLISHED

/-- The socket has stored these bytes and this FIN, and it has answered the end of the stream if
that is all. -/
def Settled (irs : SequenceNumber32) (stream : Payload) (bytes : ℕ → Prop) (fin : Prop)
    (before : TcpStates) (s : TcpSocketBase) : Prop :=
  Received irs stream s.rxBuffer bytes fin ∧
    (s.rxBuffer.finished = true → Answers before s.state)

/-- What has arrived with the segment. -/
def SettledBy (irs : SequenceNumber32) (stream : Payload) (bytes : ℕ → Prop) (fin : Prop)
    (p : Payload) (h : TcpHeader) (before : TcpStates) (s : TcpSocketBase) : Prop :=
  Settled irs stream (fun k => bytes k ∨ Carries irs p h k) (fin ∨ h.flags.fin = true) before s

theorem received_of_nothing (hs : Received irs stream s.rxBuffer bytes fin)
    (hbytes : ∀ k < stream.length, Carries irs p h k → bytes k)
    (hfin : h.flags.fin = true → fin) (hrx : s'.rxBuffer = s.rxBuffer) :
    Received irs stream s'.rxBuffer (fun k => bytes k ∨ Carries irs p h k)
      (fin ∨ h.flags.fin = true) := by
  rw [hrx]
  exact hs.congr (fun k hk => ⟨Or.inl, fun hnew => hnew.elim id (hbytes k hk)⟩)
    ⟨Or.inl, fun hnew => hnew.elim id hfin⟩

/-- A segment that brings nothing is dropped. -/
theorem settledBy_of_nothing {before : TcpStates} (hs : Received irs stream s.rxBuffer bytes fin)
    (hopen : s.rxBuffer.finished = false)
    (hbytes : ∀ k < stream.length, Carries irs p h k → bytes k)
    (hfin : h.flags.fin = true → fin) (hrx : s'.rxBuffer = s.rxBuffer) :
    SettledBy irs stream bytes fin p h before s' := by
  refine ⟨received_of_nothing hs hbytes hfin hrx, fun hfinished => ?_⟩
  rw [hrx, hopen] at hfinished
  cases hfinished

theorem not_carries_nil {k : ℕ} : ¬ Carries irs [] h k := by
  rintro ⟨hlow, hhigh⟩
  exact absurd (hlow.trans_lt hhigh) (lt_irrefl _)

/-- What the completion of the reception means for the buffer. -/
theorem completes_of_finished {s₁ : TcpSocketBase} (hstream : stream.length + 1 < 2 ^ 31)
    (hs₁ : Received irs stream s₁.rxBuffer (fun k => bytes k ∨ Carries irs p h k) fin)
    (hfinished : s₁.rxBuffer.finished = true) : Completes irs stream bytes fin p h :=
  ((hs₁.finished_iff hstream).mp hfinished).imp_right Or.inl

/-- Without data and without a FIN nothing is completed. -/
theorem ne_nil_of_completes (hs : Received irs stream s.rxBuffer bytes fin)
    (hstream : stream.length + 1 < 2 ^ 31) (hopen : s.rxBuffer.finished = false)
    (hfin : h.flags.fin = false) (hcompletes : Completes irs stream bytes fin p h) : p ≠ [] := by
  rintro rfl
  have hfinished : s.rxBuffer.finished = true := by
    refine (hs.finished_iff hstream).mpr ⟨fun k hk => ?_, ?_⟩
    · exact (hcompletes.1 k hk).resolve_right not_carries_nil
    · exact hcompletes.2.resolve_right (by rw [hfin]; exact Bool.false_ne_true)
  rw [hopen] at hfinished
  cases hfinished

/-- The data of a segment without a FIN in ESTABLISHED. -/
theorem receivedData_established (hs : Received irs stream s.rxBuffer bytes fin)
    (hstream : stream.length + 1 < 2 ^ 31) (hcut : CutFrom irs stream p h)
    (hfits : s.rxBuffer.Fits p h.sequenceNumber) (hopen : s.rxBuffer.finished = false)
    (hfin : h.flags.fin = false)
    (hlast : Completes irs stream bytes fin p h → s.state = .ESTABLISHED ∧ s.shutdownSend = false) :
    ∃ s', s.receivedData p h = some s' ∧ SettledBy irs stream bytes fin p h .ESTABLISHED s' := by
  obtain ⟨s₁, hstate, hshut, hreceived, hdata⟩ := receivedData_spec hs hstream hcut hfits hopen
  have hsame : fin ↔ fin ∨ h.flags.fin = true := by
    rw [hfin]
    simp
  rw [hdata]
  split
  next hfinished =>
    obtain ⟨hestablished, hshutdown⟩ := hlast (completes_of_finished hstream hreceived hfinished.1)
    obtain ⟨s₂, hclose, hrx, hclosed⟩ := doPeerClose_spec (hstate.trans hestablished) fun hshut' => by
      rw [hshut, hshutdown] at hshut'
      cases hshut'
    refine ⟨s₂, hclose, ?_, fun _ => hclosed⟩
    rw [hrx]
    exact hreceived.congr (fun _ _ => Iff.rfl) hsame
  next hnot =>
    refine ⟨s₁, rfl, hreceived.congr (fun _ _ => Iff.rfl) hsame, fun hfinished => ?_⟩
    exact absurd ⟨hfinished, hfin⟩ hnot

/-- A segment with a FIN in ESTABLISHED. -/
theorem peerClose_spec (hs : Received irs stream s.rxBuffer bytes fin)
    (hstream : stream.length + 1 < 2 ^ 31) (hcut : CutFrom irs stream p h)
    (hopen : s.rxBuffer.finished = false) (hfin : h.flags.fin = true)
    (hstate : s.state = .ESTABLISHED) (horderly : Orderly irs stream bytes fin s d p h) :
    ∃ s', s.peerClose p h = some s' ∧ SettledBy irs stream bytes fin p h .ESTABLISHED s' := by
  unfold peerClose
  split
  next hout =>
    obtain ⟨hold, hbytes⟩ := (horderly.inRange hstate hfin).resolve_left fun hin => hin hout
    exact ⟨s, rfl, settledBy_of_nothing hs hopen hbytes (fun _ => hold) rfl⟩
  next hin =>
    obtain ⟨hlow, -⟩ := not_or.mp hin
    have hend : h.sequenceNumber + p.getSize = irs.plus stream.length := by
      rw [hcut.stop_eq hstream, hcut.fin_last hfin]
    obtain ⟨s₁, hs₁⟩ : ∃ s₁ : TcpSocketBase, s₁ =
      { s with rxBuffer := s.rxBuffer.setFinSequence (h.sequenceNumber + p.getSize) } := ⟨_, rfl⟩
    have hrx₁ : s₁.rxBuffer = s.rxBuffer.setFinSequence (irs.plus stream.length) := by
      rw [hs₁, ← hend]
    have hstate₁ : s₁.state = .ESTABLISHED := by rw [hs₁, hstate]
    have hshut₁ : s₁.shutdownSend = s.shutdownSend := by rw [hs₁]
    have hs₁' : Received irs stream s₁.rxBuffer bytes True := hrx₁ ▸ hs.setFinSequence hstream
    have hfits₁ : p ≠ [] → s₁.rxBuffer.Fits p h.sequenceNumber := fun hp =>
      hrx₁ ▸ horderly.fits (Or.inl hp)
    have hread : Completes irs stream bytes fin p h → s₁.shutdownSend = true →
        p = [] ∧ s₁.rxBuffer.size = 0 := fun hcompletes hshut => by
      rw [hrx₁]
      exact horderly.unread hstate (hshut₁ ▸ hshut) hcompletes
    have hmissing : p ≠ [] → s₁.rxBuffer.finished = false := fun hp => by
      rw [← Bool.not_eq_true, hs₁'.finished_iff hstream]
      rintro ⟨hall, -⟩
      obtain ⟨n, c, front, back, hholds, hstored, -⟩ := hs
      have hlen : 0 < p.length := List.length_pos_iff.mpr hp
      have hstop := hcut.fin_last hfin
      rw [hholds.next_of_open hstream hopen, sequenceNumber_eq irs h,
        SequenceNumber32.plus_lt_plus (by omega) (by have := hholds.arranged.le_hi; omega)] at hlow
      have hlt : c < stream.length := by omega
      exact hholds.arranged.not_stored ((hstored c hlt).mpr (hall c hlt))
    have hdata : ∃ s₂ : TcpSocketBase,
        (if p.getSize ≠ 0 then s₁.receivedData p h else some s₁) = some s₂ ∧
          s₂.state = .ESTABLISHED ∧ s₂.shutdownSend = s₁.shutdownSend ∧
          (p = [] → s₂.rxBuffer = s₁.rxBuffer) ∧
          Received irs stream s₂.rxBuffer (fun k => bytes k ∨ Carries irs p h k) True := by
      by_cases hp : p = []
      · rw [if_neg (not_not.mpr ((hcut.getSize_eq_zero hstream).mpr hp))]
        refine ⟨s₁, rfl, hstate₁, rfl, fun _ => rfl, hs₁'.congr (fun k _ => ?_) Iff.rfl⟩
        rw [hp]
        exact ⟨Or.inl, fun hnew => hnew.resolve_right not_carries_nil⟩
      · rw [if_pos ((hcut.getSize_eq_zero hstream).not.mpr hp)]
        obtain ⟨s₂, hstate₂, hshut₂, hreceived₂, hresult⟩ :=
          receivedData_spec hs₁' hstream hcut (hfits₁ hp) (hmissing hp)
        rw [if_neg (fun hboth => by rw [hfin] at hboth; cases hboth.2)] at hresult
        exact ⟨s₂, hresult, hstate₂.trans hstate₁, hshut₂, fun hnil => absurd hnil hp, hreceived₂⟩
    obtain ⟨s₂, hresult, hstate₂, hshut₂, hrx₂, hreceived₂⟩ := hdata
    have hfull : Received irs stream s₂.rxBuffer (fun k => bytes k ∨ Carries irs p h k)
        (fin ∨ h.flags.fin = true) :=
      hreceived₂.congr (fun _ _ => Iff.rfl) (iff_of_true trivial (Or.inr hfin))
    rw [← hs₁]
    dsimp only
    rw [hresult, Option.bind_some]
    split
    next hnot => exact ⟨s₂, rfl, hfull, fun hfinished => absurd hfinished (by rw [hnot]; decide)⟩
    next hfinished =>
      have hcompletes : Completes irs stream bytes fin p h :=
        (hfull.finished_iff hstream).mp (by simpa using hfinished)
      rw [if_neg (by rw [hstate₂]; decide)]
      obtain ⟨s₃, hclose, hrx, hclosed⟩ := doPeerClose_spec hstate₂ fun hshut => by
        obtain ⟨hnil, hsize⟩ := hread hcompletes (hshut₂ ▸ hshut)
        rw [hrx₂ hnil, hsize]
      exact ⟨s₃, hclose, hrx ▸ hfull, fun _ => hclosed⟩

/-! ## The handlers -/

/-- The handler of the state looks at the acknowledgement number of the segment. -/
def Acknowledges (state : TcpStates) (p : Payload) (h : TcpHeader) : Prop :=
  h.flags = TcpHeader.ACK ∨ (state ≠ .ESTABLISHED ∧ p = [] ∧ h.flags = TcpHeader.FIN_ACK)

/-- Unless all data were read, the last segment does not come after `ShutdownSend`. -/
theorem Orderly.not_shutdown (horderly : Orderly irs stream bytes fin s d p h)
    (hstate : s.state = .ESTABLISHED) (hp : p ≠ [])
    (hcompletes : Completes irs stream bytes fin p h) : s.shutdownSend = false := by
  by_contra hshut
  exact hp (horderly.unread hstate (by simpa using hshut) hcompletes).1

theorem receivedAck_eq (hstream : stream.length + 1 < 2 ^ 31) (hcut : CutFrom irs stream p h)
    (hnumber : s.receivedAckNumber d p h = some s₁) :
    s.receivedAck d p h = if p = [] then some s₁ else s₁.receivedData p h := by
  unfold receivedAck
  rw [hnumber, Option.bind_some]
  split
  next hsize => rw [if_neg ((hcut.getSize_pos hstream).mp hsize)]
  next hsize =>
    rw [if_pos]
    exact not_not.mp fun hp => hsize ((hcut.getSize_pos hstream).mpr hp)

theorem processEstablished_spec (hs : Received irs stream s.rxBuffer bytes fin)
    (hstream : stream.length + 1 < 2 ^ 31) (hcut : CutFrom irs stream p h)
    (hopen : s.rxBuffer.finished = false) (hstate : s.state = .ESTABLISHED)
    (horderly : Orderly irs stream bytes fin s d p h)
    (hack : h.flags = TcpHeader.ACK → (s.receivedAckNumber d p h).isSome) :
    ∃ s', s.processEstablished d p h = some s' ∧
      SettledBy irs stream bytes fin p h .ESTABLISHED s' := by
  have hflags := hcut.flags_mem
  simp only [List.mem_cons, List.not_mem_nil, or_false] at hflags
  unfold processEstablished
  rcases hflags with hflags | hflags | hfin
  · rw [hflags, if_neg (by decide), if_neg (by decide), if_neg (by decide), if_pos rfl]
    have hfin : h.flags.fin = false := by rw [hflags]; rfl
    obtain ⟨s₁, hdata, hsettled⟩ := receivedData_established hs hstream hcut
      (horderly.fits (Or.inr hflags)) hopen hfin fun hcompletes =>
        ⟨hstate, horderly.not_shutdown hstate
          (ne_nil_of_completes hs hstream hopen hfin hcompletes) hcompletes⟩
    refine ⟨s₁, ?_, hsettled⟩
    rw [hdata, Option.bind_some]
    split
    next hfinished =>
      have hbefore := hsettled.1.lt_next_of_finished hstream hfinished
        ((Nat.le_add_right _ _).trans hcut.stop_le)
      rw [← sequenceNumber_eq irs h] at hbefore
      exact if_pos (Or.inl hbefore)
    next => rfl
  · rw [if_pos hflags]
    have hfin : h.flags.fin = false := by rw [hflags]; rfl
    obtain ⟨s₁, hnumber⟩ := Option.isSome_iff_exists.mp (hack hflags)
    have hsends := sendsOnly_receivedAckNumber hnumber
    rw [receivedAck_eq hstream hcut hnumber]
    split
    next hp =>
      refine ⟨s₁, rfl, settledBy_of_nothing hs hopen (fun k _ hk => ?_) (fun hnew => ?_)
        hsends.rxBuffer_eq⟩
      · exact absurd (hp ▸ hk) not_carries_nil
      · rw [hfin] at hnew
        cases hnew
    next hp =>
      refine receivedData_established (hsends.rxBuffer_eq ▸ hs) hstream hcut
        (hsends.rxBuffer_eq ▸ horderly.fits (Or.inl hp)) (hsends.rxBuffer_eq ▸ hopen) hfin
        fun hcompletes => ⟨horderly.ownFin hstate hflags hcompletes s₁ hnumber, ?_⟩
      rw [hsends.shutdownSend_eq]
      exact horderly.not_shutdown hstate hp hcompletes
  · have hneither : h.flags ≠ TcpHeader.ACK ∧
        ¬ (h.flags = TcpHeader.SYN ∨ h.flags = TcpHeader.SYN_ACK) ∧ h.flags.fin = true := by
      rcases hfin with hflags | hflags <;> rw [hflags] <;> decide
    rw [if_neg hneither.1, if_neg hneither.2.1, if_pos hfin]
    exact peerClose_spec hs hstream hcut hopen hneither.2.2 hstate horderly

/-- The FIN of the socket was sent before. -/
theorem state_of_sendsOnly (hstate : s.state = .FIN_WAIT_1 ∨ s.state = .FIN_WAIT_2)
    (hsends : SendsOnly s s₁) : s₁.state = s.state := by
  rcases hsends.state_eq with heq | heq
  · exact heq
  · rw [heq]
    rcases hstate with hstate | hstate <;> rw [hstate] <;> rfl

/-- The data of a segment in FIN_WAIT_1 and FIN_WAIT_2. -/
theorem receivedData_wait (hs : Received irs stream s.rxBuffer bytes fin)
    (hstream : stream.length + 1 < 2 ^ 31) (hcut : CutFrom irs stream p h)
    (hfits : s.rxBuffer.Fits p h.sequenceNumber) (hopen : s.rxBuffer.finished = false)
    (halone : h.flags.fin = true → fin)
    (hlast : Completes irs stream bytes fin p h → h.flags.fin = true) :
    ∃ s₁ : TcpSocketBase, s.receivedData p h = some s₁ ∧ s₁.state = s.state ∧
      (s₁.rxBuffer.finished = true → h.flags.fin = true) ∧
      Received irs stream s₁.rxBuffer (fun k => bytes k ∨ Carries irs p h k)
        (fin ∨ h.flags.fin = true) := by
  obtain ⟨s₁, hstate, -, hreceived, hresult⟩ := receivedData_spec hs hstream hcut hfits hopen
  have hfinal : s₁.rxBuffer.finished = true → h.flags.fin = true := fun hfinished =>
    hlast (completes_of_finished hstream hreceived hfinished)
  refine ⟨s₁, ?_, hstate, hfinal,
    hreceived.congr (fun _ _ => Iff.rfl) ⟨Or.inl, fun hnew => hnew.elim id halone⟩⟩
  rw [hresult, if_neg]
  rintro ⟨hfinished, hfin⟩
  rw [hfinal hfinished] at hfin
  cases hfin

/-- An ACK in FIN_WAIT_1 and FIN_WAIT_2 does not complete the reception. -/
theorem receivedAck_wait (hs : Received irs stream s.rxBuffer bytes fin)
    (hstream : stream.length + 1 < 2 ^ 31) (hcut : CutFrom irs stream p h)
    (hopen : s.rxBuffer.finished = false)
    (hstate : s.state = .FIN_WAIT_1 ∨ s.state = .FIN_WAIT_2)
    (horderly : Orderly irs stream bytes fin s d p h) (hfin : h.flags.fin = false)
    (hnumber : s.receivedAckNumber d p h = some s₁) :
    ∃ s₂ : TcpSocketBase, s.receivedAck d p h = some s₂ ∧ s₂.state = s.state ∧
      s₂.rxBuffer.finished = false ∧
      Received irs stream s₂.rxBuffer (fun k => bytes k ∨ Carries irs p h k)
        (fin ∨ h.flags.fin = true) := by
  have hnot : s.state ≠ .ESTABLISHED := by
    rcases hstate with hstate | hstate <;> rw [hstate] <;> decide
  have hsends := sendsOnly_receivedAckNumber hnumber
  have hnone : h.flags.fin = true → fin := fun hnew => by
    rw [hfin] at hnew
    cases hnew
  rw [receivedAck_eq hstream hcut hnumber]
  split
  next hp =>
    refine ⟨s₁, rfl, state_of_sendsOnly hstate hsends, hsends.rxBuffer_eq ▸ hopen, ?_⟩
    refine received_of_nothing hs (fun k _ hk => ?_) hnone hsends.rxBuffer_eq
    exact absurd (hp ▸ hk) not_carries_nil
  next hp =>
    obtain ⟨s₂, hdata, hstate₂, hfinal, hreceived⟩ :=
      receivedData_wait (hsends.rxBuffer_eq ▸ hs) hstream hcut
        (hsends.rxBuffer_eq ▸ horderly.fits (Or.inl hp)) (hsends.rxBuffer_eq ▸ hopen) hnone
        (horderly.last hnot)
    refine ⟨s₂, hdata, hstate₂.trans (state_of_sendsOnly hstate hsends), ?_, hreceived⟩
    rw [← Bool.not_eq_true]
    intro hfinished
    rw [hfinal hfinished] at hfin
    cases hfin

/-- What `ProcessWait` does in the end. -/
theorem settledBy_finishWait {before : TcpStates}
    (hstate : s.state = .FIN_WAIT_1 ∨ s.state = .FIN_WAIT_2)
    (hbefore : s.rxBuffer.finished = true → s.state = before)
    (hs : Received irs stream s.rxBuffer (fun k => bytes k ∨ Carries irs p h k)
      (fin ∨ h.flags.fin = true)) :
    SettledBy irs stream bytes fin p h before (s.finishWait h) := by
  obtain ⟨hrx, hanswers⟩ := finishWait_spec hstate h
  refine ⟨hrx ▸ hs, fun hfinished => ?_⟩
  rw [hrx] at hfinished
  exact hbefore hfinished ▸ hanswers hfinished

/-- The acknowledgement in a FIN without data. -/
theorem receivedAck_of_nil (hstream : stream.length + 1 < 2 ^ 31)
    (hcut : CutFrom irs stream p h) (hp : p = [])
    (hack : h.flags.ack = true → (s.receivedAckNumber d p h).isSome) :
    ∃ s₁ : TcpSocketBase,
      (if h.flags.ack then s.receivedAck d p h else some s) = some s₁ ∧ SendsOnly s s₁ := by
  split
  next hflag =>
    obtain ⟨s₁, hnumber⟩ := Option.isSome_iff_exists.mp (hack hflag)
    rw [receivedAck_eq hstream hcut hnumber, if_pos hp]
    exact ⟨s₁, rfl, sendsOnly_receivedAckNumber hnumber⟩
  next => exact ⟨s, rfl, SendsOnly.refl s⟩

theorem processWait_spec (hs : Received irs stream s.rxBuffer bytes fin)
    (hstream : stream.length + 1 < 2 ^ 31) (hcut : CutFrom irs stream p h)
    (hopen : s.rxBuffer.finished = false)
    (hstate : s.state = .FIN_WAIT_1 ∨ s.state = .FIN_WAIT_2)
    (horderly : Orderly irs stream bytes fin s d p h)
    (hack : Acknowledges s.state p h → (s.receivedAckNumber d p h).isSome) :
    ∃ s', s.processWait d p h = some s' ∧ SettledBy irs stream bytes fin p h s.state s' := by
  have hnot : s.state ≠ .ESTABLISHED := by
    rcases hstate with hstate | hstate <;> rw [hstate] <;> decide
  unfold processWait
  split
  next hdata =>
    have hp := (hcut.getSize_pos hstream).mp hdata.1
    obtain ⟨s₁, hresult, hstate₁, -, hreceived⟩ := receivedData_wait hs hstream hcut
      (horderly.fits (Or.inl hp)) hopen
      (fun hfin => (horderly.alone hnot hfin).resolve_left hp) (horderly.last hnot)
    rw [hresult]
    exact ⟨_, rfl, settledBy_finishWait (hstate₁ ▸ hstate) (fun _ => hstate₁) hreceived⟩
  next hnotData =>
    split
    next hflags =>
      obtain ⟨s₁, hnumber⟩ := Option.isSome_iff_exists.mp (hack (Or.inl hflags))
      obtain ⟨s₂, hresult, hstate₂, hmissing, hreceived⟩ :=
        receivedAck_wait hs hstream hcut hopen hstate horderly (by rw [hflags]; rfl) hnumber
      rw [hresult]
      refine ⟨_, rfl, ?_⟩
      dsimp only
      split
      · exact settledBy_finishWait (Or.inr rfl)
          (fun hfinished => by rw [hmissing] at hfinished; cases hfinished) hreceived
      · exact settledBy_finishWait (hstate₂ ▸ hstate) (fun _ => hstate₂) hreceived
    next hnotAck =>
      have hp : p = [] := by
        by_contra hp
        exact hnotData ⟨(hcut.getSize_pos hstream).mpr hp, hnotAck⟩
      split
      next hflags =>
        have hfin : h.flags.fin = true := by
          rcases hflags with hflags | hflags <;> rw [hflags] <;> rfl
        obtain ⟨s₁, hresult, hsends⟩ := receivedAck_of_nil hstream hcut hp fun hflag => by
          refine hack (Or.inr ⟨hnot, hp, hflags.resolve_left fun hflags => ?_⟩)
          rw [hflags] at hflag
          cases hflag
        have hseq : h.sequenceNumber = irs.plus stream.length := by
          have hlast := hcut.fin_last hfin
          rw [hp] at hlast
          rw [sequenceNumber_eq irs h, ← hlast]
          rfl
        have hstate₁ := state_of_sendsOnly hstate hsends
        have hwait : s₁.state = .FIN_WAIT_1 ∨ s₁.state = .FIN_WAIT_2 := hstate₁ ▸ hstate
        have hs₁ : Received irs stream s₁.rxBuffer bytes fin := hsends.rxBuffer_eq ▸ hs
        rw [hresult, hseq]
        refine ⟨_, rfl, settledBy_finishWait hwait (fun _ => hstate₁) ?_⟩
        refine (hs₁.setFinSequence hstream).congr (fun k _ => ?_)
          (iff_of_true trivial (Or.inr hfin))
        rw [hp]
        exact ⟨Or.inl, fun hnew => hnew.resolve_right not_carries_nil⟩
      next hnotFin =>
        have hflags := hcut.flags_mem
        simp only [List.mem_cons, List.not_mem_nil, or_false] at hflags
        have hnone : h.flags = TcpHeader.NONE := by
          rcases hflags with hflags | hflags | hflags
          · exact hflags
          · exact absurd hflags hnotAck
          · exact absurd hflags hnotFin
        rw [hnone, if_neg (by decide), if_neg (by decide)]
        refine ⟨_, rfl, settledBy_of_nothing hs hopen (fun k _ hk => ?_) (fun hnew => ?_) ?_⟩
        · exact absurd (hp ▸ hk) not_carries_nil
        · rw [hnone] at hnew
          cases hnew
        · exact (sendsOnly_sendEmptyPacket s TcpHeader.RST).rxBuffer_eq

theorem process_spec (hs : Received irs stream s.rxBuffer bytes fin)
    (hstream : stream.length + 1 < 2 ^ 31) (hcut : CutFrom irs stream p h)
    (hopen : s.rxBuffer.finished = false) (hreceiving : Receiving s.state)
    (horderly : Orderly irs stream bytes fin s d p h)
    (hack : Acknowledges s.state p h → (s.receivedAckNumber d p h).isSome) :
    ∃ s', s.process d p h = some s' ∧ SettledBy irs stream bytes fin p h s.state s' := by
  rcases hreceiving with hstate | hwait
  · have hprocess : s.process d p h = s.processEstablished d p h := by
      unfold process
      rw [hstate]
    rw [hprocess, hstate]
    exact processEstablished_spec hs hstream hcut hopen hstate horderly
      fun hflags => hack (Or.inl hflags)
  · have hprocess : s.process d p h = s.processWait d p h := by
      unfold process
      rcases hwait with hstate | hstate <;> rw [hstate]
    rw [hprocess]
    exact processWait_spec hs hstream hcut hopen hwait horderly hack

/-- A handler that looks at the acknowledgement number fails with it. -/
theorem acknowledged_of_process (hreceiving : Receiving s.state)
    (hprocess : s.process d p h = some s') (hacknowledges : Acknowledges s.state p h) :
    (s.receivedAckNumber d p h).isSome := by
  have hack : s.receivedAck d p h ≠ none := by
    intro hnone
    unfold process processEstablished processWait at hprocess
    rcases hacknowledges with hflags | ⟨hnot, rfl, hflags⟩
    · rcases hreceiving with hstate | hstate | hstate <;>
        simp [hstate, hflags, hnone] at hprocess
    · rcases hreceiving.resolve_left hnot with hstate | hstate <;>
        simp [hstate, hflags, hnone, Payload.getSize, TcpHeader.FIN_ACK, TcpHeader.ACK] at hprocess
  rw [Option.isSome_iff_ne_none]
  intro hnone
  refine hack ?_
  unfold receivedAck
  rw [hnone]
  rfl

/-! ## A segment arrives -/

/-- Only segments that were stored before lie out of range. -/
theorem settledBy_of_outOfRange (hs : Received irs stream s.rxBuffer bytes fin)
    (hstream : stream.length + 1 < 2 ^ 31) (hcut : CutFrom irs stream p h)
    (hopen : s.rxBuffer.finished = false) (hreceiving : Receiving s.state)
    (hbegins : ¬ s.rxBuffer.maxRxSequence ≤ h.sequenceNumber)
    (hout : outOfRange s.state s.rxBuffer h.sequenceNumber (h.sequenceNumber + p.getSize) = true)
    {before : TcpStates} (hrx : s'.rxBuffer = s.rxBuffer) :
    SettledBy irs stream bytes fin p h before s' := by
  have hlt : h.sequenceNumber + p.getSize < s.rxBuffer.nextRxSeq := by
    unfold outOfRange at hout
    rcases hreceiving with hstate | hstate | hstate <;> rw [hstate] at hout <;>
      exact (of_decide_eq_true hout).resolve_right hbegins
  obtain ⟨n, c, front, back, hholds, hstored, -⟩ := id hs
  have hle := hholds.arranged.le_hi
  have hstop := hcut.stop_le
  rw [hholds.next_of_open hstream hopen, hcut.stop_eq hstream,
    SequenceNumber32.plus_lt_plus (by omega) (by omega)] at hlt
  refine settledBy_of_nothing hs hopen (fun k hk hcarries => ?_) (fun hfin => ?_) hrx
  · exact (hstored k hk).mp (Or.inl (hcarries.2.trans hlt))
  · have hlast := hcut.fin_last hfin
    omega

/-- The conditions on a socket that receives a segment, once the window is stored. -/
theorem doForwardUp_settled (hs : Received irs stream s.rxBuffer bytes fin)
    (hstream : stream.length + 1 < 2 ^ 31) (hcut : CutFrom irs stream p h)
    (hopen : s.rxBuffer.finished = false) (hreceiving : Receiving s.state)
    (horderly : Orderly irs stream bytes fin (s.withWindow h) d p h)
    (hforward : s.doForwardUp d p h = some s') :
    SettledBy irs stream bytes fin p h s.state s' := by
  rw [doForwardUp_eq] at hforward
  split at hforward
  next hout =>
    have hp := (hcut.getSize_eq_zero hstream).not.mp hout.1
    have hrx : s'.rxBuffer = s.rxBuffer := by
      obtain rfl := Option.some.inj hforward
      split
      · exact (sendsOnly_sendEmptyPacket (s.withWindow h) _).rxBuffer_eq
      · rfl
    exact settledBy_of_outOfRange hs hstream hcut hopen hreceiving (horderly.begins hp) hout.2 hrx
  next =>
    obtain ⟨s₁, hprocess, hsettled⟩ := process_spec (s := s.withWindow h) hs hstream hcut hopen
      hreceiving horderly (acknowledged_of_process hreceiving hforward)
    obtain rfl := Option.some.inj (hprocess.symm.trans hforward)
    exact hsettled

/-- No assertion fails, unless one that concerns the acknowledgement. -/
theorem doForwardUp_isSome (hs : Received irs stream s.rxBuffer bytes fin)
    (hstream : stream.length + 1 < 2 ^ 31) (hcut : CutFrom irs stream p h)
    (hopen : s.rxBuffer.finished = false) (hreceiving : Receiving s.state)
    (horderly : Orderly irs stream bytes fin (s.withWindow h) d p h)
    (hack : Acknowledges s.state p h → ((s.withWindow h).receivedAckNumber d p h).isSome) :
    (s.doForwardUp d p h).isSome := by
  rw [doForwardUp_eq]
  split
  next => rfl
  next =>
    obtain ⟨s₁, hprocess, -⟩ := process_spec (s := s.withWindow h) hs hstream hcut hopen
      hreceiving horderly hack
    rw [hprocess]
    rfl

end TcpSocketBase

end Ns3Rdma
