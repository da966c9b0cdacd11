import Ns3Rdma.Lib.Word
import Ns3Rdma.Tcp.SlidingWindow
import Ns3Rdma.Tcp.Socket

/-! # The transmit side of a socket

The bytes that the application has sent are a stream, and the FIN stands behind its last byte. Where
`m_nextTxSequence` and `m_highTxMark` lie in this stream is kept by whatever the socket does. -/

namespace Ns3Rdma

namespace SlidingWindow

variable {w : SlidingWindow} {k : ℕ}

theorem length_pending (w : SlidingWindow) : w.pending.length = w.added.length - w.discarded :=
  List.length_drop

theorem discardUpTo_plus (hpos : 0 < k) (hk : k < 2 ^ 31) : w.discardUpTo (w.head.plus k) =
    { w with head := w.head.plus k, discarded := min (w.discarded + k) w.added.length } := by
  have hlt : w.head < w.head.plus k := by
    have hplus := SequenceNumber32.plus_lt_plus (s := w.head) (m := 0) (by omega) hk
    rw [SequenceNumber32.plus_zero] at hplus
    exact hplus.mpr hpos
  unfold discardUpTo
  rw [if_pos hlt, TcpTxBuffer.Refines.distance_head (by omega)]

theorem length_bytesFrom_le (hk : k ≤ 2 ^ 31) (n : ℕ) :
    (w.bytesFrom (w.head.plus k) n).length ≤ w.pending.length - k := by
  unfold bytesFrom
  rw [TcpTxBuffer.Refines.distance_head hk, length_pending, List.length_take, List.length_drop]
  omega

end SlidingWindow

namespace TcpSocketBase

/-- The number of the first FIN that was sent. -/
def firstFin (s : TcpSocketBase) : Option SequenceNumber32 :=
  (s.sent.find? fun segment => segment.1.flags.fin).map fun segment =>
    segment.1.sequenceNumber + segment.2.getSize

def IsOpen (state : TcpStates) : Prop := state = .ESTABLISHED ∨ state = .CLOSE_WAIT

/-- The states in which a FIN is sent. -/
def IsClosing (state : TcpStates) : Prop :=
  state = .FIN_WAIT_1 ∨ state = .FIN_WAIT_2 ∨ state = .LAST_ACK ∨ state = .CLOSING

def IsOver (state : TcpStates) : Prop := state = .CLOSED ∨ state = .TIME_WAIT

/-- Where the next and the highest number lie: in the window, or behind an acknowledged FIN. -/
def Placed (iss : SequenceNumber32) (w : SlidingWindow) (next high : SequenceNumber32) : Prop :=
  (w.head = iss.plus w.discarded ∧ ∃ i j, i ≤ j ∧ j ≤ w.pending.length ∧
      next = w.head.plus i ∧ high = w.head.plus j) ∨
    (w.pending = [] ∧ w.head = iss.plus (w.added.length + 1) ∧ next = w.head ∧
      high = iss.plus w.added.length)

/-- The transmit side beside the window over the stream that begins at `iss`. -/
structure Tracked (iss : SequenceNumber32) (w : SlidingWindow) (s : TcpSocketBase) : Prop where
  refines : s.txBuffer.Refines w
  room : w.pending.length < 2 ^ 31 - 1
  placed : Placed iss w s.nextTxSequence s.highTxMark
  data : ∀ segment ∈ s.sent, segment.2 ≠ [] →
    ∃ k, segment.1.sequenceNumber = iss.plus k ∧ k + segment.2.length ≤ w.added.length
  phase : IsOpen s.state ∨ IsClosing s.state ∨ IsOver s.state
  noFin : IsOpen s.state → s.endPoint = true ∧ s.firstFin = none ∧
    w.head = iss.plus w.discarded ∧ ∀ flags, s.retxEvent ≠ some (.sendEmptyPacket flags)
  finSent : IsClosing s.state →
    s.firstFin = some (iss.plus w.added.length) ∧ s.highTxMark = iss.plus w.added.length

/-- What the transmit side depends on is the same. -/
structure SameSender (s s' : TcpSocketBase) : Prop where
  state_eq : s'.state = s.state
  txBuffer_eq : s'.txBuffer = s.txBuffer
  next_eq : s'.nextTxSequence = s.nextTxSequence
  high_eq : s'.highTxMark = s.highTxMark
  sent_eq : s'.sent = s.sent
  endPoint_eq : s'.endPoint = s.endPoint
  retxEvent_eq : ∀ flags, s'.retxEvent = some (.sendEmptyPacket flags) →
    s.retxEvent = some (.sendEmptyPacket flags)

variable {iss seq ack : SequenceNumber32} {w : SlidingWindow} {s s' : TcpSocketBase}
  {p : Payload} {h : TcpHeader} {flags : TcpFlags} {d : Congestion}

theorem IsOpen.not_isClosing {state : TcpStates} (hopen : IsOpen state) : ¬ IsClosing state := by
  rcases hopen with rfl | rfl <;> simp [IsClosing]

theorem IsOver.not_isClosing {state : TcpStates} (hover : IsOver state) : ¬ IsClosing state := by
  rcases hover with rfl | rfl <;> simp [IsClosing]

theorem IsOver.not_isOpen {state : TcpStates} (hover : IsOver state) : ¬ IsOpen state := by
  rcases hover with rfl | rfl <;> simp [IsOpen]

theorem IsClosing.not_isOpen {state : TcpStates} (hclosing : IsClosing state) : ¬ IsOpen state :=
  fun hopen => hopen.not_isClosing hclosing

theorem afterFin_of_isOpen {state : TcpStates} (hopen : IsOpen state) :
    IsClosing (afterFin state) := by
  rcases hopen with rfl | rfl <;> simp [IsClosing, afterFin]

theorem afterFin_of_not_isOpen {state : TcpStates} (hopen : ¬ IsOpen state) :
    afterFin state = state := by
  cases state <;> simp_all [IsOpen, afterFin]

/-- Only without a FIN a socket stays open. -/
theorem isOpen_afterFin {state : TcpStates} {fin : Bool}
    (hopen : IsOpen (if fin then afterFin state else state)) : fin = false ∧ IsOpen state := by
  cases fin with
  | false => exact ⟨rfl, hopen⟩
  | true =>
      exfalso
      rw [if_pos rfl] at hopen
      by_cases hold : IsOpen state
      · exact (afterFin_of_isOpen hold).not_isOpen hopen
      · rw [afterFin_of_not_isOpen hold] at hopen
        exact hold hopen

/-- An open socket begins to close with a FIN. -/
theorem isClosing_afterFin {state : TcpStates} {fin : Bool}
    (hclosing : IsClosing (if fin then afterFin state else state)) :
    fin = true ∨ IsClosing state := by
  cases fin with
  | false => exact Or.inr hclosing
  | true => exact Or.inl rfl

/-! ## The log of the sent segments -/

theorem firstFin_of_sent (hsent : s'.sent = s.sent) : s'.firstFin = s.firstFin := by
  unfold firstFin
  rw [hsent]

theorem firstFin_append {segment : TcpHeader × Payload} (hsent : s'.sent = s.sent ++ [segment]) :
    s'.firstFin = s.firstFin.or
      (if segment.1.flags.fin then some (segment.1.sequenceNumber + segment.2.getSize)
      else none) := by
  unfold firstFin
  rw [hsent, List.find?_append, List.find?_singleton]
  cases s.sent.find? fun segment => segment.1.flags.fin with
  | none =>
      cases segment.1.flags.fin <;> rfl
  | some _ => rfl

namespace Tracked

theorem notAcked (hs : Tracked iss w s) (hpending : w.pending ≠ [] ∨ IsOpen s.state) :
    w.head = iss.plus w.discarded ∧ ∃ i j, i ≤ j ∧ j ≤ w.pending.length ∧
      s.nextTxSequence = w.head.plus i ∧ s.highTxMark = w.head.plus j := by
  rcases hs.placed with hplaced | ⟨hnil, hhead, -⟩
  · exact hplaced
  · rcases hpending with hpending | hopen
    · exact absurd hnil hpending
    · exfalso
      have hdiscarded := hs.refines.discarded_le
      have hlength := w.length_pending
      rw [hnil, List.length_nil] at hlength
      have heq := (hs.noFin hopen).2.2.1
      rw [hhead, show w.discarded = w.added.length by omega, ← SequenceNumber32.distance_eq_zero,
        SequenceNumber32.distance_plus] at heq
      omega

theorem same (hs : Tracked iss w s) (hsame : SameSender s s') : Tracked iss w s' where
  refines := hsame.txBuffer_eq ▸ hs.refines
  room := hs.room
  placed := by
    rw [hsame.next_eq, hsame.high_eq]
    exact hs.placed
  data := by
    rw [hsame.sent_eq]
    exact hs.data
  phase := hsame.state_eq ▸ hs.phase
  noFin hopen := by
    rw [hsame.state_eq] at hopen
    obtain ⟨hend, hfin, hhead, hretx⟩ := hs.noFin hopen
    exact ⟨hsame.endPoint_eq.trans hend, (firstFin_of_sent hsame.sent_eq).trans hfin, hhead,
      fun flags hflags => hretx flags (hsame.retxEvent_eq flags hflags)⟩
  finSent hclosing := by
    rw [hsame.state_eq] at hclosing
    rw [firstFin_of_sent hsame.sent_eq, hsame.high_eq]
    exact hs.finSent hclosing

/-- The socket goes on to a later state in which nothing has to be waited for. -/
theorem ended (hs : Tracked iss w s) (hover : IsOver s'.state) (htx : s'.txBuffer = s.txBuffer)
    (hnext : s'.nextTxSequence = s.nextTxSequence) (hhigh : s'.highTxMark = s.highTxMark)
    (hsent : s'.sent = s.sent) : Tracked iss w s' where
  refines := htx ▸ hs.refines
  room := hs.room
  placed := by
    rw [hnext, hhigh]
    exact hs.placed
  data := by
    rw [hsent]
    exact hs.data
  phase := Or.inr (Or.inr hover)
  noFin hopen := absurd hopen hover.not_isOpen
  finSent hclosing := absurd hclosing hover.not_isClosing

theorem closing (hs : Tracked iss w s) (hclosing : IsClosing s.state) {state : TcpStates}
    (hstate : IsClosing state) : Tracked iss w { s with state := state } where
  refines := hs.refines
  room := hs.room
  placed := hs.placed
  data := hs.data
  phase := Or.inr (Or.inl hstate)
  noFin hopen := absurd hopen hstate.not_isOpen
  finSent _ := hs.finSent hclosing

theorem closeAndNotify (hs : Tracked iss w s) : Tracked iss w s.closeAndNotify :=
  hs.ended (Or.inl rfl) rfl rfl rfl rfl

theorem timeWait (hs : Tracked iss w s) : Tracked iss w s.timeWait :=
  hs.ended (Or.inr rfl) rfl rfl rfl rfl

/-! ## Sending -/

/-- A segment without data adds nothing to the stream. -/
theorem data_pure (hs : Tracked iss w s) (h : TcpHeader) {segment : TcpHeader × Payload}
    (hsegment : segment ∈ s.sent ++ [(h, [])]) (hne : segment.2 ≠ []) :
    ∃ k, segment.1.sequenceNumber = iss.plus k ∧ k + segment.2.length ≤ w.added.length := by
  rcases List.mem_append.mp hsegment with hold | hnew
  · exact hs.data segment hold hne
  · rw [List.mem_singleton] at hnew
    rw [hnew] at hne
    exact absurd rfl hne

/-- A packet without a FIN, or a further FIN. -/
theorem sendEmptyPacket (hs : Tracked iss w s) (hflags : flags.fin = true → ¬ IsOpen s.state) :
    Tracked iss w (s.sendEmptyPacket flags) := by
  unfold TcpSocketBase.sendEmptyPacket
  split
  · exact hs
  · refine ⟨hs.refines, hs.room, hs.placed, ?_, hs.phase, fun hopen => ?_, fun hclosing => ?_⟩
    · exact fun segment => hs.data_pure _
    · obtain ⟨hend, hfin, hhead, hretx⟩ := hs.noFin hopen
      have hnone : flags.fin = false := by
        cases hvalue : flags.fin with
        | false => rfl
        | true => exact absurd hopen (hflags hvalue)
      refine ⟨hend, ?_, hhead, fun other => ?_⟩
      · rw [firstFin_append rfl, hfin, Option.none_or, if_neg]
        simp [header, hnone]
      · dsimp only
        rw [if_neg fun hboth => by simp [hnone] at hboth]
        exact hretx other
    · obtain ⟨hfin, hhigh⟩ := hs.finSent hclosing
      refine ⟨?_, hhigh⟩
      rw [firstFin_append rfl, hfin, Option.some_or]

theorem sendRST (hs : Tracked iss w s) : Tracked iss w s.sendRST :=
  hs.sendEmptyPacket (fun h => absurd h (by decide))

theorem stream_end (hs : Tracked iss w s) (hhead : w.head = iss.plus w.discarded) :
    w.head.plus w.pending.length = iss.plus w.added.length := by
  have hlength := w.length_pending
  have hdiscarded := hs.refines.discarded_le
  rw [hhead, SequenceNumber32.plus_plus]
  congr 1
  omega

/-- The copied bytes lie in the stream, and in front of the end of the window. -/
theorem copied (hs : Tracked iss w s) (hhead : w.head = iss.plus w.discarded) {i : ℕ}
    (hi : i ≤ w.pending.length) (n : UInt32) (hcopy :
      s.txBuffer.copyFromSequence n (w.head.plus i) = some p) :
    i + p.length ≤ w.pending.length ∧ p.getSize.toNat = p.length ∧
      ∃ k, w.head.plus i = iss.plus k ∧ k + p.length ≤ w.added.length := by
  have hroom := hs.room
  have hlength := w.length_pending
  have hdiscarded := hs.refines.discarded_le
  rw [hs.refines.copyFromSequence_eq n hi] at hcopy
  have hle := w.length_bytesFrom_le (k := i) (by omega) n.toNat
  rw [Option.some.inj hcopy] at hle
  refine ⟨by omega, Payload.toNat_getSize (by omega), w.discarded + i, ?_, by omega⟩
  rw [hhead, SequenceNumber32.plus_plus]

theorem sendDataPacket (hs : Tracked iss w s) (hhead : w.head = iss.plus w.discarded) {i : ℕ}
    (hi : i ≤ w.pending.length) {n : UInt32} {withAck : Bool} {r : TcpSocketBase × UInt32}
    (hsend : s.sendDataPacket (w.head.plus i) n withAck = some r) :
    Tracked iss w r.1 ∧ r.1.nextTxSequence = s.nextTxSequence ∧
      r.1.txBuffer = s.txBuffer ∧ r.1.segmentSize = s.segmentSize ∧
      ∃ j, i + r.2.toNat ≤ j ∧ j ≤ w.pending.length ∧ r.1.highTxMark = w.head.plus j := by
  obtain ⟨p, hcopy, rfl⟩ := Option.map_eq_some_iff.mp hsend
  obtain ⟨hend, hsize, k, hk, hkend⟩ := hs.copied hhead hi n hcopy
  have hroom := hs.room
  have hlength := w.length_pending
  have hdiscarded := hs.refines.discarded_le
  have hpending := hs.refines.size_pending
  obtain ⟨i₀, j₀, hij, hj, hnext, hhigh⟩ : ∃ i₀ j₀, i₀ ≤ j₀ ∧ j₀ ≤ w.pending.length ∧
      s.nextTxSequence = w.head.plus i₀ ∧ s.highTxMark = w.head.plus j₀ := by
    rcases hs.placed with hplaced | ⟨-, hacked, -⟩
    · exact hplaced.2
    · exfalso
      rw [hhead, ← SequenceNumber32.distance_eq_zero, SequenceNumber32.distance_plus] at hacked
      omega
  have hbehind : w.head.plus i + p.getSize = w.head.plus (i + p.length) := by
    rw [SequenceNumber32.plus_add, hsize]
  have hmax : (if w.head.plus i + p.getSize < s.highTxMark then s.highTxMark
      else w.head.plus i + p.getSize) = w.head.plus (max (i + p.length) j₀) := by
    rw [hbehind, hhigh]
    exact SequenceNumber32.ite_plus_lt (by omega) (by omega)
  have hremaining : s.txBuffer.sizeFromSequence (w.head.plus i + p.getSize) = 0 →
      i + p.length = w.pending.length := by
    intro hzero
    have hleft := hs.refines.toNat_sizeFromSequence (k := i + p.length) (by omega)
    rw [← hbehind, hzero, UInt32.toNat_zero] at hleft
    omega
  obtain ⟨fin, hfin⟩ : ∃ fin, fin = (s.closeOnEmpty &&
    decide (s.txBuffer.sizeFromSequence (w.head.plus i + p.getSize) = 0)) := ⟨_, rfl⟩
  -- the FIN of a packet is the one behind the last byte
  have hfinal : fin = true → i + p.length = w.pending.length := by
    intro htrue
    rw [hfin, Bool.and_eq_true, decide_eq_true_iff] at htrue
    exact hremaining htrue.2
  have hstream := hs.stream_end hhead
  dsimp only
  rw [← hfin, hmax]
  refine ⟨⟨hs.refines, hs.room, ?_, ?_, ?_, fun hopen => ?_, fun hclosing => ?_⟩, rfl, rfl, rfl,
    max (i + p.length) j₀, by omega, by omega, rfl⟩
  · exact Or.inl ⟨hhead, i₀, max (i + p.length) j₀, by omega, by omega, hnext, rfl⟩
  · intro segment hsegment hne
    rcases List.mem_append.mp hsegment with hold | hnew
    · exact hs.data segment hold hne
    · rw [List.mem_singleton.mp hnew]
      exact ⟨k, hk, hkend⟩
  · dsimp only
    cases fin with
    | false => exact hs.phase
    | true =>
        by_cases hopen : IsOpen s.state
        · exact Or.inr (Or.inl (afterFin_of_isOpen hopen))
        · rw [if_pos rfl, afterFin_of_not_isOpen hopen]
          exact hs.phase
  · have hnone := isOpen_afterFin hopen
    obtain ⟨hend', hnoFin, -, hretx⟩ := hs.noFin hnone.2
    refine ⟨hend', ?_, hhead, fun flags => ?_⟩
    · rw [firstFin_append rfl, hnoFin, Option.none_or, if_neg]
      simp [header, hnone.1]
    · dsimp only
      split
      · simp
      · exact hretx flags
  · by_cases hopen : IsOpen s.state
    · have htrue := (isClosing_afterFin hclosing).resolve_right fun h => h.not_isOpen hopen
      have hlast := hfinal htrue
      have hnoFin := (hs.noFin hopen).2.1
      refine ⟨?_, ?_⟩
      · rw [firstFin_append rfl, hnoFin, Option.none_or, if_pos (by exact htrue)]
        change some (w.head.plus i + p.getSize) = _
        rw [hbehind, hlast, hstream]
      · dsimp only
        rw [show max (i + p.length) j₀ = w.pending.length by omega, hstream]
    · have hold : IsClosing s.state := by
        dsimp only at hclosing
        rw [afterFin_of_not_isOpen hopen, ite_self] at hclosing
        exact hclosing
      obtain ⟨hfirst, hhighest⟩ := hs.finSent hold
      refine ⟨?_, ?_⟩
      · rw [firstFin_append rfl, hfirst, Option.some_or]
      · have hlast : j₀ = w.pending.length := by
          rw [hhigh, ← hstream, SequenceNumber32.plus_inj (by omega) (by omega)] at hhighest
          exact hhighest
        dsimp only
        rw [show max (i + p.length) j₀ = w.pending.length by omega, hstream]

/-- The next number may move up to the highest one. -/
theorem moveNext (hs : Tracked iss w s) (hhead : w.head = iss.plus w.discarded) {i j : ℕ}
    (hij : i ≤ j) (hj : j ≤ w.pending.length) (hhigh : s.highTxMark = w.head.plus j) :
    Tracked iss w { s with nextTxSequence := w.head.plus i } where
  refines := hs.refines
  room := hs.room
  placed := Or.inl ⟨hhead, i, j, hij, hj, rfl, hhigh⟩
  data := hs.data
  phase := hs.phase
  noFin := hs.noFin
  finSent := hs.finSent

/-- A packet is sent from the next number on, which moves behind it. -/
theorem sendNext (hs : Tracked iss w s) (hpending : w.pending ≠ []) {n : UInt32} {withAck : Bool}
    {r : TcpSocketBase × UInt32}
    (hsend : s.sendDataPacket s.nextTxSequence n withAck = some r) :
    Tracked iss w r.1 ∧ r.1.nextTxSequence = s.nextTxSequence ∧
      Tracked iss w { r.1 with nextTxSequence := s.nextTxSequence + r.2 } := by
  obtain ⟨hhead, i, j₀, hij, hj, hnext, -⟩ := hs.notAcked (Or.inl hpending)
  rw [hnext] at hsend ⊢
  obtain ⟨hr, hsame, -, -, j, hle, hend, hhigh⟩ := hs.sendDataPacket hhead (hij.trans hj) hsend
  refine ⟨hr, hsame.trans hnext, ?_⟩
  rw [SequenceNumber32.plus_add]
  exact hr.moveNext hhead hle hend hhigh

theorem pending_ne_nil (hs : Tracked iss w s) (hsize : s.txBuffer.size ≠ 0) : w.pending ≠ [] := by
  intro hnil
  have hpending := hs.refines.size_pending
  rw [hnil, List.length_nil] at hpending
  exact hsize (UInt32.toNat_inj.mp hpending)

theorem pending_ne_nil_of_left (hs : Tracked iss w s)
    (hleft : 0 < s.txBuffer.sizeFromSequence s.nextTxSequence) : w.pending ≠ [] := by
  intro hnil
  have hlength : w.pending.length = 0 := by rw [hnil, List.length_nil]
  have hnext : s.nextTxSequence = w.head.plus 0 := by
    rcases hs.placed with ⟨-, i, j, hij, hj, hnext, -⟩ | ⟨-, -, hnext, -⟩
    · rw [hnext]
      congr 1
      omega
    · rw [hnext, SequenceNumber32.plus_zero]
  rw [hnext, UInt32.lt_iff_toNat_lt, hs.refines.toNat_sizeFromSequence (Nat.zero_le _),
    UInt32.toNat_zero] at hleft
  omega

theorem sendLoop (hs : Tracked iss w s) (hpending : w.pending ≠ []) {window : UInt32}
    {withAck : Bool} {fuel : ℕ} (hloop : sendLoop window withAck fuel s = some s') :
    Tracked iss w s' := by
  induction fuel generalizing s with
  | zero =>
      obtain rfl := Option.some.inj hloop
      exact hs
  | succ fuel ih =>
      rcases TcpSocketBase.sendLoop_succ hloop with rfl | ⟨n, r, hsend, hrest⟩
      · exact hs
      · obtain ⟨hr, -, hnext⟩ := hs.sendNext hpending hsend
        rcases hrest with hrest | rfl
        · exact ih hnext hrest
        · exact hr

theorem sendPendingData (hs : Tracked iss w s) {window : UInt32} {withAck : Bool}
    (hsend : s.sendPendingData window withAck = some s') : Tracked iss w s' := by
  unfold TcpSocketBase.sendPendingData at hsend
  split at hsend
  next => exact Option.some.inj hsend ▸ hs
  next hsize =>
    split at hsend
    next => exact Option.some.inj hsend ▸ hs
    next => exact hs.sendLoop (hs.pending_ne_nil hsize) hsend

theorem doRetransmit (hs : Tracked iss w s) (hsend : s.doRetransmit = some s') :
    Tracked iss w s' := by
  unfold TcpSocketBase.doRetransmit at hsend
  split at hsend
  next => cases hsend
  next =>
    split at hsend
    next =>
      obtain rfl := Option.some.inj hsend
      split
      next hstate =>
        refine hs.sendEmptyPacket fun _ hopen => ?_
        rcases hopen with hopen | hopen <;> rw [hopen] at hstate <;> simp at hstate
      next => exact hs
    next hsize =>
      obtain ⟨r, hpacket, rfl⟩ := Option.map_eq_some_iff.mp hsend
      obtain ⟨hhead, -⟩ := hs.notAcked (Or.inl (hs.pending_ne_nil hsize))
      have hseq : s.txBuffer.headSequence = w.head.plus 0 := by
        rw [SequenceNumber32.plus_zero]
        exact hs.refines.head_eq
      rw [hseq] at hpacket ⊢
      obtain ⟨hr, hnextEq, -, -, j, hle, hend, hhigh⟩ :=
        hs.sendDataPacket hhead (Nat.zero_le _) hpacket
      rw [SequenceNumber32.plus_add]
      split
      next => exact hr.moveNext hhead hle hend hhigh
      next => exact hr

theorem dupAck (hs : Tracked iss w s) (hdup : s.dupAck d = some s') : Tracked iss w s' := by
  unfold TcpSocketBase.dupAck at hdup
  split at hdup
  next => exact Option.some.inj hdup ▸ hs
  next => exact hs.sendPendingData hdup
  next =>
    split at hdup
    next hleft =>
      obtain ⟨r, hpacket, rfl⟩ := Option.map_eq_some_iff.mp hdup
      obtain ⟨-, hsame, hnext⟩ := hs.sendNext (hs.pending_ne_nil_of_left hleft) hpacket
      rw [hsame]
      exact hnext
    next => exact Option.some.inj hdup ▸ hs
  next => exact hs.doRetransmit hdup

end Tracked

/-- The peer acknowledges what was sent, at most the FIN. -/
def Conforms (s : TcpSocketBase) (ack : SequenceNumber32) : Prop :=
  ack ≤ s.txBuffer.headSequence ∨
    (s.txBuffer.headSequence ≤ s.highTxMark ∧ ack ≤ s.highTxMark) ∨
      (s.firstFin.isSome ∧ ack = s.highTxMark + (1 : UInt32))

namespace Tracked

/-! ## Acknowledgements -/

/-- A new acknowledgement lies in the window, or behind the FIN. -/
theorem exists_of_conforms (hs : Tracked iss w s) (hnotOver : ¬ IsOver s.state)
    (hconforms : s.Conforms ack) (hnew : s.txBuffer.headSequence < ack) :
    w.head = iss.plus w.discarded ∧ ∃ i j k, i ≤ j ∧ j ≤ w.pending.length ∧
      s.nextTxSequence = w.head.plus i ∧ s.highTxMark = w.head.plus j ∧
      ack = w.head.plus k ∧ 0 < k ∧ (k ≤ j ∨ (k = w.pending.length + 1 ∧ IsClosing s.state)) := by
  have hroom := hs.room
  have hhead : s.txBuffer.headSequence = w.head := hs.refines.head_eq
  rw [Conforms, hhead] at hconforms
  rw [hhead] at hnew
  rcases hs.placed with ⟨hdiscarded, i, j, hij, hj, hnext, hhigh⟩ | ⟨-, hacked, -, hhigh⟩
  · refine ⟨hdiscarded, i, j, ?_⟩
    rcases hconforms with hold | ⟨-, hle⟩ | ⟨hfin, heq⟩
    · exact absurd hnew (SequenceNumber32.not_lt.mpr hold)
    · have hpos : w.head.plus 0 < ack := by
        rw [SequenceNumber32.plus_zero]
        exact hnew
      rw [hhigh] at hle
      by_cases heq : ack = w.head.plus j
      · rw [heq, SequenceNumber32.plus_lt_plus (by omega) (by omega)] at hpos
        exact ⟨j, hij, hj, hnext, hhigh, heq, hpos, Or.inl (le_refl j)⟩
      · obtain ⟨k, hk, hkpos, hkj⟩ := SequenceNumber32.exists_plus_of_between (Nat.zero_le j)
          (by omega) hpos (SequenceNumber32.lt_of_le_of_ne hle heq)
        exact ⟨k, hij, hj, hnext, hhigh, hk, hkpos, Or.inl hkj.le⟩
    · have hclosing : IsClosing s.state := by
        rcases hs.phase with hopen | hclosing | hover
        · rw [(hs.noFin hopen).2.1] at hfin
          cases hfin
        · exact hclosing
        · exact absurd hover hnotOver
      have hlast : j = w.pending.length := by
        have hstream := (hs.finSent hclosing).2
        rw [← hs.stream_end hdiscarded, hhigh, SequenceNumber32.plus_inj (by omega) (by omega)]
          at hstream
        exact hstream
      refine ⟨w.pending.length + 1, hij, hj, hnext, hhigh, ?_, by omega, Or.inr ⟨rfl, hclosing⟩⟩
      rw [heq, hhigh, hlast]
      exact SequenceNumber32.plus_add _ _ _
  · exfalso
    have hbehind : w.head = s.highTxMark.plus 1 := by
      rw [hacked, hhigh, SequenceNumber32.plus_plus]
    rcases hconforms with hold | ⟨hle, -⟩ | ⟨-, heq⟩
    · exact SequenceNumber32.not_lt.mpr hold hnew
    · have hsmall : s.highTxMark.plus 1 ≤ s.highTxMark.plus 0 := by
        rw [← hbehind, SequenceNumber32.plus_zero]
        exact hle
      rw [SequenceNumber32.plus_le_plus (by omega) (by omega)] at hsmall
      omega
    · rw [SequenceNumber32.add_eq_plus] at heq
      exact hnew.2 (hbehind.trans heq.symm)

theorem restartTimers_same (s : TcpSocketBase) : SameSender s s.restartTimers := by
  unfold restartTimers
  split
  · exact ⟨rfl, rfl, rfl, rfl, rfl, rfl, fun flags hflags => by cases hflags⟩
  · split
    · exact ⟨rfl, rfl, rfl, rfl, rfl, rfl, fun flags hflags => hflags⟩
    · exact ⟨rfl, rfl, rfl, rfl, rfl, rfl, fun flags hflags => by cases hflags⟩

/-- The window moves to the acknowledged number. -/
theorem advance (hs : Tracked iss w s) (hnotOver : ¬ IsOver s.state)
    (hconforms : s.Conforms ack) (hnew : s.txBuffer.headSequence < ack)
    (hadvance : s.advance ack = some s') :
    ∃ w', w'.added = w.added ∧ Tracked iss w' s' := by
  obtain ⟨hhead, i, j, k, hij, hj, hnext, hhigh, rfl, hpos, hk⟩ :=
    hs.exists_of_conforms hnotOver hconforms hnew
  have hroom := hs.room
  have hlength := w.length_pending
  have hdiscarded := hs.refines.discarded_le
  have hstream := hs.stream_end hhead
  obtain ⟨txBuffer, hdiscard, rfl⟩ := Option.map_eq_some_iff.mp hadvance
  obtain ⟨b, hb, hrefines⟩ := hs.refines.discardUpTo_spec (k := k) (by omega)
  obtain rfl := Option.some.inj (hb.symm.trans hdiscard)
  rw [SlidingWindow.discardUpTo_plus hpos (by omega)] at hrefines
  have hcmp : (if s.nextTxSequence < w.head.plus k then w.head.plus k else s.nextTxSequence) =
      w.head.plus (max i k) := by
    rw [hnext]
    exact SequenceNumber32.ite_plus_lt (by omega) (by omega)
  obtain ⟨w', hw'⟩ : ∃ w' : SlidingWindow, w' =
    { w with head := w.head.plus k, discarded := min (w.discarded + k) w.added.length } := ⟨_, rfl⟩
  have hadded : w'.added = w.added := by rw [hw']
  have hpending : w'.pending.length = w.pending.length - k := by
    rw [w'.length_pending, hw']
    dsimp only
    omega
  rw [← hw'] at hrefines
  obtain ⟨hstate, -, -, hhighEq, hsentEq, hendEq, hretx⟩ := restartTimers_same s
  have hhead' : k ≤ j → w'.head = iss.plus w'.discarded := by
    intro hkj
    rw [hw']
    dsimp only
    rw [hhead, SequenceNumber32.plus_plus]
    congr 1
    omega
  refine ⟨w', hadded, hrefines, by omega, ?_, ?_, ?_, fun hopen => ?_, fun hclosing => ?_⟩
  · dsimp only
    rw [hcmp, hhighEq, hhigh]
    rcases hk with hkj | ⟨hkend, hclosing⟩
    · left
      refine ⟨hhead' hkj, max i k - k, j - k, by omega, by omega, ?_, ?_⟩
      · rw [hw', SequenceNumber32.plus_plus]
        congr 1
        omega
      · rw [hw', SequenceNumber32.plus_plus]
        congr 1
        omega
    · right
      refine ⟨List.eq_nil_of_length_eq_zero (by omega), ?_, ?_, ?_⟩
      · rw [hw', hkend, ← SequenceNumber32.plus_plus, hstream, SequenceNumber32.plus_plus]
      · rw [hw']
        dsimp only
        congr 1
        omega
      · rw [hadded, ← hhigh]
        exact (hs.finSent hclosing).2
  · rw [hsentEq, hadded]
    exact hs.data
  · rw [hstate]
    exact hs.phase
  · dsimp only at hopen
    rw [hstate] at hopen
    obtain ⟨hend', hfin, -, hnone⟩ := hs.noFin hopen
    refine ⟨hendEq.trans hend', (firstFin_of_sent hsentEq).trans hfin, ?_, fun flags hflags => ?_⟩
    · exact hhead' (hk.resolve_right fun hclosing => hopen.not_isClosing hclosing.2)
    · dsimp only at hflags
      split at hflags
      · cases hflags
      · exact hnone flags (hretx flags hflags)
  · dsimp only at hclosing ⊢
    rw [hstate] at hclosing
    rw [hhighEq, hadded]
    exact ⟨(firstFin_of_sent hsentEq).trans (hs.finSent hclosing).1, (hs.finSent hclosing).2⟩

theorem newAck (hs : Tracked iss w s) (hnotOver : ¬ IsOver s.state) (hconforms : s.Conforms ack)
    (hnew : s.txBuffer.headSequence < ack) (hack : s.newAck d ack = some s') :
    ∃ w', w'.added = w.added ∧ Tracked iss w' s' := by
  obtain ⟨s₁, hadvance, hrest⟩ := Option.bind_eq_some_iff.mp hack
  obtain ⟨s₂, hsend, hlast⟩ := Option.bind_eq_some_iff.mp hrest
  obtain ⟨w', hadded, hs₁⟩ := hs.advance hnotOver hconforms hnew hadvance
  have hs₂ := hs₁.sendPendingData hsend
  refine ⟨w', hadded, ?_⟩
  split at hlast
  · exact hs₂.doRetransmit hlast
  · exact Option.some.inj hlast ▸ hs₂

/-! ## Closing -/

/-- The FIN behind all that was sent. -/
theorem sendFin (hs : Tracked iss w s) (hopen : IsOpen s.state)
    (hempty : ¬ 0 < s.txBuffer.sizeFromSequence s.nextTxSequence) (hflags : flags.fin = true)
    {state : TcpStates} (hclosing : IsClosing state) :
    Tracked iss w { s.sendEmptyPacket flags with state := state } := by
  have hroom := hs.room
  obtain ⟨hend, hnoFin, hhead, -⟩ := hs.noFin hopen
  obtain ⟨-, i, j, hij, hj, hnext, hhigh⟩ := hs.notAcked (Or.inr hopen)
  have hall : i = w.pending.length := by
    rw [hnext, UInt32.lt_iff_toNat_lt, hs.refines.toNat_sizeFromSequence (hij.trans hj),
      UInt32.toNat_zero] at hempty
    omega
  have hlast : j = w.pending.length := by omega
  have hstream := hs.stream_end hhead
  unfold TcpSocketBase.sendEmptyPacket
  rw [if_neg (by rw [hend]; simp)]
  refine ⟨hs.refines, hs.room, hs.placed, ?_, Or.inr (Or.inl hclosing),
    fun hopen => absurd hopen hclosing.not_isOpen, fun _ => ⟨?_, ?_⟩⟩
  · exact fun segment => hs.data_pure _
  · rw [firstFin_append rfl, hnoFin, Option.none_or]
    simp only [header, hflags, if_true, Bool.true_eq_false, false_and, if_false]
    rw [hnext, hall, hstream]
    exact congrArg some (SequenceNumber32.plus_add _ _ _)
  · dsimp only
    rw [hhigh, hlast, hstream]

theorem doClose (hs : Tracked iss w s)
    (hempty : ¬ 0 < s.txBuffer.sizeFromSequence s.nextTxSequence) : Tracked iss w s.doClose := by
  unfold TcpSocketBase.doClose
  split
  next hstate => exact absurd hs.phase (by simp [hstate, IsOpen, IsClosing, IsOver])
  next hstate =>
    exact hs.sendFin (Or.inl hstate) hempty rfl (Or.inl rfl)
  next hstate =>
    exact hs.sendFin (Or.inr hstate) hempty rfl (Or.inr (Or.inr (Or.inl rfl)))
  next => exact hs.sendRST.closeAndNotify
  next => exact hs.sendRST.closeAndNotify
  next => exact hs.closeAndNotify
  next => exact hs.closeAndNotify
  all_goals exact hs

theorem close (hs : Tracked iss w s) : Tracked iss w s.close := by
  unfold TcpSocketBase.close
  split
  · exact hs.sendRST.closeAndNotify
  · split
    · exact hs.same ⟨rfl, rfl, rfl, rfl, rfl, rfl, fun _ hflags => hflags⟩
    next hempty => exact hs.doClose hempty

/-! ## Received segments -/

theorem scheduleLastAck (hs : Tracked iss w s) :
    Tracked iss w (if s.state = .LAST_ACK then { s with lastAckEvent := true } else s) := by
  split
  · exact hs.same ⟨rfl, rfl, rfl, rfl, rfl, rfl, fun _ hflags => hflags⟩
  · exact hs

theorem doPeerClose (hs : Tracked iss w s) (hclose : s.doPeerClose = some s') :
    Tracked iss w s' := by
  unfold TcpSocketBase.doPeerClose at hclose
  split at hclose
  next hstate =>
    have hestablished : s.state = .ESTABLISHED := by
      refine hstate.resolve_right fun hsyn => ?_
      exact absurd hs.phase (by simp [hsyn, IsOpen, IsClosing, IsOver])
    have hwait : Tracked iss w { s with state := .CLOSE_WAIT, closeNotified := true } :=
      ⟨hs.refines, hs.room, hs.placed, hs.data, Or.inl (Or.inr rfl),
        fun _ => hs.noFin (Or.inl hestablished),
        fun hclosing => absurd (Or.inr rfl) hclosing.not_isOpen⟩
    obtain rfl := Option.some.inj hclose
    refine scheduleLastAck ?_
    split
    · exact hwait.close
    · exact hwait.sendEmptyPacket fun hfin => absurd hfin (by decide)
  next => cases hclose

theorem acknowledge (hs : Tracked iss w s) : Tracked iss w (s.acknowledge seq p) := by
  unfold TcpSocketBase.acknowledge
  split
  · exact hs.sendEmptyPacket fun hfin => absurd hfin (by decide)
  · split
    · refine sendEmptyPacket ?_ fun hfin => absurd hfin (by decide)
      exact hs.same ⟨rfl, rfl, rfl, rfl, rfl, rfl, fun _ hflags => hflags⟩
    · exact hs.same ⟨rfl, rfl, rfl, rfl, rfl, rfl, fun _ hflags => hflags⟩

theorem receivedData (hs : Tracked iss w s) (hdata : s.receivedData p h = some s') :
    Tracked iss w s' := by
  obtain ⟨⟨b, stored⟩, -, hrest⟩ := Option.bind_eq_some_iff.mp hdata
  have hbuffer : Tracked iss w { s with rxBuffer := b } :=
    hs.same ⟨rfl, rfl, rfl, rfl, rfl, rfl, fun _ hflags => hflags⟩
  dsimp only at hrest
  split at hrest
  · obtain rfl := Option.some.inj hrest
    exact hbuffer.sendEmptyPacket fun hfin => absurd hfin (by decide)
  · split at hrest
    · exact hbuffer.acknowledge.doPeerClose hrest
    · exact Option.some.inj hrest ▸ hbuffer.acknowledge

theorem peerClose (hs : Tracked iss w s) (hclose : s.peerClose p h = some s') :
    Tracked iss w s' := by
  unfold TcpSocketBase.peerClose at hclose
  split at hclose
  · exact Option.some.inj hclose ▸ hs
  · obtain ⟨s₁, hdata, hrest⟩ := Option.bind_eq_some_iff.mp hclose
    have hfin : Tracked iss w { s with
        rxBuffer := s.rxBuffer.setFinSequence (h.sequenceNumber + p.getSize) } :=
      hs.same ⟨rfl, rfl, rfl, rfl, rfl, rfl, fun _ hflags => hflags⟩
    have hs₁ : Tracked iss w s₁ := by
      split at hdata
      · exact hfin.receivedData hdata
      · exact Option.some.inj hdata ▸ hfin
    split at hrest
    · exact Option.some.inj hrest ▸ hs₁
    · split at hrest
      next hstate =>
        exact Option.some.inj hrest ▸
          hs₁.closing (Or.inl hstate) (Or.inr (Or.inr (Or.inr rfl)))
      next => exact hs₁.doPeerClose hrest

end Tracked

end TcpSocketBase

end Ns3Rdma
