import Ns3Rdma.Tcp.PeerFin

/-! # Runs in which the peer closes

The segments of the peer arrive in any order, among calls of the application and timeouts. -/

namespace Ns3Rdma

open TcpRxBuffer TcpSocketBase StepSystem

/-- A socket and the segments that have arrived. -/
structure Reception where
  socket : TcpSocketBase
  arrived : List (Payload × TcpHeader)

namespace Reception

def start (config : Config) (head nextRx : SequenceNumber32) (rWnd : UInt32) : Reception :=
  ⟨established config head nextRx rWnd, []⟩

def arrival : Event → List (Payload × TcpHeader)
  | .doForwardUp p h => [(p, h)]
  | _ => []

def step (r : Reception) (e : Congestion × Event) : Option Reception :=
  (r.socket.step e).map fun s => ⟨s, r.arrived ++ arrival e.2⟩

/-- The peer has sent a stream from `irs` and a FIN behind it. -/
def CutFrom (irs : SequenceNumber32) (stream : Payload) : Event → Prop
  | .doForwardUp p h => TcpSocketBase.CutFrom irs stream p h
  | _ => True

def ByteArrived (irs : SequenceNumber32) (r : Reception) (k : ℕ) : Prop :=
  ∃ x ∈ r.arrived, Carries irs x.1 x.2 k

def FinArrived (r : Reception) : Prop := ∃ x ∈ r.arrived, x.2.flags.fin = true

/-- Every byte and the FIN have arrived. -/
def Complete (irs : SequenceNumber32) (stream : Payload) (r : Reception) : Prop :=
  (∀ k < stream.length, r.ByteArrived irs k) ∧ r.FinArrived

/-- The segment is one that a socket which waits for the FIN does not lose. -/
def Orderly (irs : SequenceNumber32) (stream : Payload) (r : Reception) :
    Congestion × Event → Prop
  | (d, .doForwardUp p h) => Receiving r.socket.state →
      TcpSocketBase.Orderly irs stream (r.ByteArrived irs) r.FinArrived (r.socket.withWindow h) d p h
  | _ => True

/-- The FIN is honoured by the step after which the reception is complete. -/
def Honours (irs : SequenceNumber32) (stream : Payload) (r r' : Reception) : Prop :=
  Receiving r.socket.state → Complete irs stream r' →
    r'.socket.rxBuffer.finished = true ∧ Answers r.socket.state r'.socket.state

/-- No assertion fails in a step, unless one that concerns an acknowledgement. -/
def Accepts (r : Reception) : Congestion × Event → Prop
  | (d, .doForwardUp p h) => Receiving r.socket.state →
      (Acknowledges r.socket.state p h →
        ((r.socket.withWindow h).receivedAckNumber d p h).isSome) →
      (r.socket.doForwardUp d p h).isSome
  | _ => True

/-- While the FIN is outstanding, the buffer has what has arrived, and something is missing. -/
structure Sound (irs : SequenceNumber32) (stream : Payload) (r : Reception) : Prop where
  begun : 1 ≤ r.socket.state.progress
  outstanding : Receiving r.socket.state →
    Received irs stream r.socket.rxBuffer (r.ByteArrived irs) r.FinArrived ∧
      r.socket.rxBuffer.finished = false

variable {irs : SequenceNumber32} {stream p : Payload} {h : TcpHeader} {r r' : Reception}
  {e : Congestion × Event} {k : ℕ}

theorem receiving_iff {state : TcpStates} :
    Receiving state ↔ 1 ≤ state.progress ∧ state.progress ≤ 3 := by
  cases state <;> simp [Receiving, TcpStates.progress]

theorem start_sound (config : Config) (head irs : SequenceNumber32) (rWnd : UInt32)
    (stream : Payload) : Sound irs stream (start config head irs rWnd) := by
  refine ⟨le_rfl, fun _ => ⟨⟨0, 0, [], [],
    ⟨⟨rfl, rfl, trivial, Nat.zero_le _, rfl, rfl, ?_, ?_⟩, ?_⟩, ?_, ?_⟩, rfl⟩⟩
  · intro hfin
    cases hfin
  · exact (SequenceNumber32.plus_zero irs).symm
  · intro x hx
    cases hx
  · intro k _
    simp [Stored, Piece.Covers, ByteArrived, start]
  · simp [FinArrived, start, established, TcpRxBuffer.init]

/-! ## One step -/

/-- Without a segment nothing arrives. -/
theorem same_arrived (hnone : arrival e.2 = []) (hstep : step r e = some r') :
    ∃ s, r.socket.step e = some s ∧ r' = ⟨s, r.arrived⟩ := by
  obtain ⟨s, hsocket, rfl⟩ := Option.map_eq_some_iff.mp hstep
  exact ⟨s, hsocket, by rw [hnone, List.append_nil]⟩

theorem rxBuffer_close (s : TcpSocketBase) : s.close.rxBuffer = s.rxBuffer := by
  have hsends (flags : TcpFlags) := (sendsOnly_sendEmptyPacket s flags).rxBuffer_eq
  unfold close
  split
  · exact hsends _
  · split
    · rfl
    · unfold doClose
      split
      all_goals first | exact hsends _ | rfl

/-- What the application and the timers do to a socket that goes on to receive. -/
theorem received_of_other {s s' : TcpSocketBase} {bytes : ℕ → Prop} {fin : Prop}
    (hs : Received irs stream s.rxBuffer bytes fin) (hopen : s.rxBuffer.finished = false)
    (hstream : stream.length + 1 < 2 ^ 31) (hnone : arrival e.2 = []) (hstep : s.step e = some s') :
    Received irs stream s'.rxBuffer bytes fin ∧ s'.rxBuffer.finished = false := by
  have hkeep : s'.rxBuffer = s.rxBuffer →
      Received irs stream s'.rxBuffer bytes fin ∧ s'.rxBuffer.finished = false := by
    intro heq
    rw [heq]
    exact ⟨hs, hopen⟩
  obtain ⟨d, event⟩ := e
  cases event with
  | doForwardUp p h => cases hnone
  | send p =>
      unfold TcpSocketBase.step send at hstep
      dsimp only at hstep
      split at hstep
      · split at hstep
        · exact hkeep (sendsOnly_sendPendingData hstep).rxBuffer_eq
        · exact hkeep (Option.some.inj hstep ▸ rfl)
      · exact hkeep (Option.some.inj hstep ▸ rfl)
  | recv maxSize =>
      unfold TcpSocketBase.step recv at hstep
      dsimp only at hstep
      split at hstep
      · exact hkeep (Option.some.inj hstep ▸ rfl)
      · obtain ⟨q, hextract, rfl⟩ := Option.map_eq_some_iff.mp hstep
        obtain ⟨hreceived, hsame⟩ := hs.extract hstream hextract
        refine ⟨hreceived, ?_⟩
        rw [← Bool.not_eq_true] at hopen ⊢
        exact hsame.not.mpr hopen
  | close => exact hkeep (Option.some.inj hstep ▸ rxBuffer_close s)
  | shutdownSend => exact hkeep (Option.some.inj hstep ▸ rfl)
  | retxEvent => exact hkeep (sendsOnly_expire hstep).rxBuffer_eq
  | delAckEvent =>
      unfold TcpSocketBase.step at hstep
      dsimp only at hstep
      split at hstep
      · obtain rfl := Option.some.inj hstep
        exact hkeep (sendsOnly_sendEmptyPacket _ _).rxBuffer_eq
      · cases hstep
  | persistEvent =>
      unfold TcpSocketBase.step at hstep
      dsimp only at hstep
      split at hstep
      · obtain ⟨q, -, rfl⟩ := Option.map_eq_some_iff.mp hstep
        exact hkeep rfl
      · cases hstep
  | lastAckEvent =>
      unfold TcpSocketBase.step lastAckTimeout at hstep
      dsimp only at hstep
      split at hstep
      · obtain rfl := Option.some.inj hstep
        refine hkeep ?_
        split <;> rfl
      · cases hstep
  | timewaitEvent =>
      unfold TcpSocketBase.step at hstep
      dsimp only at hstep
      split at hstep
      · exact hkeep (Option.some.inj hstep ▸ rfl)
      · cases hstep

theorem byteArrived_append {s : TcpSocketBase} :
    ByteArrived irs ⟨s, r.arrived ++ [(p, h)]⟩ k ↔ r.ByteArrived irs k ∨ Carries irs p h k := by
  simp [ByteArrived, or_and_right, exists_or]

theorem finArrived_append {s : TcpSocketBase} :
    FinArrived ⟨s, r.arrived ++ [(p, h)]⟩ ↔ r.FinArrived ∨ h.flags.fin = true := by
  simp [FinArrived, or_and_right, exists_or]

/-- Whoever receives after a step received before it. -/
theorem receiving_of_step (hr : Sound irs stream r) (hstep : step r e = some r')
    (hreceiving : Receiving r'.socket.state) : Receiving r.socket.state := by
  obtain ⟨s, hsocket, rfl⟩ := Option.map_eq_some_iff.mp hstep
  rw [receiving_iff] at hreceiving ⊢
  exact ⟨hr.begun, (progress_step hsocket).trans hreceiving.2⟩

theorem begun_of_step (hr : Sound irs stream r) (hstep : step r e = some r') :
    1 ≤ r'.socket.state.progress := by
  obtain ⟨s, hsocket, rfl⟩ := Option.map_eq_some_iff.mp hstep
  exact hr.begun.trans (progress_step hsocket)

/-- An event that brings no segment. -/
theorem other_spec (hr : Sound irs stream r) (hstream : stream.length + 1 < 2 ^ 31)
    (hnone : arrival e.2 = []) (hstep : step r e = some r') :
    Sound irs stream r' ∧ Honours irs stream r r' := by
  have hback := receiving_of_step hr hstep
  have hbegun := begun_of_step hr hstep
  obtain ⟨s, hsocket, rfl⟩ := same_arrived hnone hstep
  refine ⟨⟨hbegun, fun hreceiving => ?_⟩, fun hreceiving hcomplete => ?_⟩
  · obtain ⟨hreceived, hopen⟩ := hr.outstanding (hback hreceiving)
    exact received_of_other hreceived hopen hstream hnone hsocket
  · obtain ⟨hreceived, hopen⟩ := hr.outstanding hreceiving
    have hfinished := (hreceived.finished_iff hstream).mpr hcomplete
    rw [hopen] at hfinished
    cases hfinished

/-- An orderly segment. -/
theorem segment_spec {d : Congestion} (hr : Sound irs stream r)
    (hstream : stream.length + 1 < 2 ^ 31) (hcut : TcpSocketBase.CutFrom irs stream p h)
    (horderly : Orderly irs stream r (d, .doForwardUp p h))
    (hstep : step r (d, .doForwardUp p h) = some r') :
    Sound irs stream r' ∧ Honours irs stream r r' := by
  have hback := receiving_of_step hr hstep
  have hbegun := begun_of_step hr hstep
  obtain ⟨s, hsocket, rfl⟩ := Option.map_eq_some_iff.mp hstep
  have hsettled : Receiving r.socket.state →
      Received irs stream s.rxBuffer (ByteArrived irs ⟨s, r.arrived ++ [(p, h)]⟩)
        (FinArrived ⟨s, r.arrived ++ [(p, h)]⟩) ∧
      (s.rxBuffer.finished = true → Answers r.socket.state s.state) := by
    intro hreceiving
    obtain ⟨hreceived, hopen⟩ := hr.outstanding hreceiving
    have hsettled := doForwardUp_settled hreceived hstream hcut hopen hreceiving
      (horderly hreceiving) hsocket
    exact ⟨hsettled.1.congr (fun k _ => byteArrived_append.symm) finArrived_append.symm,
      hsettled.2⟩
  refine ⟨⟨hbegun, fun hreceiving => ?_⟩, fun hreceiving hcomplete => ?_⟩
  · obtain ⟨hreceived, hanswers⟩ := hsettled (hback hreceiving)
    refine ⟨hreceived, ?_⟩
    rw [← Bool.not_eq_true]
    exact fun hfinished =>
      not_receiving_of_answers (hback hreceiving) (hanswers hfinished) hreceiving
  · obtain ⟨hreceived, hanswers⟩ := hsettled hreceiving
    have hfinished := (hreceived.finished_iff hstream).mpr hcomplete
    exact ⟨hfinished, hanswers hfinished⟩

theorem step_spec (hr : Sound irs stream r) (hstream : stream.length + 1 < 2 ^ 31)
    (hcut : CutFrom irs stream e.2) (horderly : Orderly irs stream r e)
    (hstep : step r e = some r') : Sound irs stream r' ∧ Honours irs stream r r' := by
  obtain ⟨d, event⟩ := e
  cases event with
  | doForwardUp p h => exact segment_spec hr hstream hcut horderly hstep
  | _ => exact other_spec hr hstream rfl hstep

theorem accepts_of_sound (hr : Sound irs stream r) (hstream : stream.length + 1 < 2 ^ 31)
    (hcut : CutFrom irs stream e.2) (horderly : Orderly irs stream r e) : r.Accepts e := by
  obtain ⟨d, event⟩ := e
  cases event with
  | doForwardUp p h =>
      intro hreceiving hack
      obtain ⟨hreceived, hopen⟩ := hr.outstanding hreceiving
      exact doForwardUp_isSome hreceived hstream hcut hopen hreceiving (horderly hreceiving) hack
  | _ => trivial

/-! ## Runs -/

/-- In a run whose segments are orderly the FIN of the peer is honoured, and no orderly segment of
the peer makes an assertion fail. -/
theorem fin_honoured (config : Config) (head irs : SequenceNumber32) (rWnd : UInt32)
    (hstream : stream.length + 1 < 2 ^ 31) {events : List (Congestion × Event)}
    (hcut : ∀ e ∈ events, CutFrom irs stream e.2)
    (horderly : EachStep step (fun r e _ => r.Orderly irs stream e)
      (start config head irs rWnd) events) :
    EachStep step (fun r _ r' => Honours irs stream r r')
        (start config head irs rWnd) events ∧
      Throughout step (fun r => ∀ e : Congestion × Event, CutFrom irs stream e.2 →
        Orderly irs stream r e → r.Accepts e) (start config head irs rWnd) events := by
  have hmeets : EachStep step
      (fun r e _ => CutFrom irs stream e.2 ∧ Orderly irs stream r e)
      (start config head irs rWnd) events := by
    intro done e rest r r' heq hrun hstep
    exact ⟨hcut e (by rw [heq]; simp), horderly done e rest r r' heq hrun hstep⟩
  have hsound : Throughout step (Sound irs stream) (start config head irs rWnd)
      events :=
    throughout_of_eachStep
      (fun _ _ _ hr hstep hmeets => (step_spec hr hstream hmeets.1 hmeets.2 hstep).1)
      (start_sound config head irs rWnd stream) hmeets
  refine ⟨?_, hsound.mono fun r hr e hcutE horderlyE =>
    accepts_of_sound hr hstream hcutE horderlyE⟩
  intro done e rest r r' heq hrun hstep
  obtain ⟨hcutE, horderlyE⟩ := hmeets done e rest r r' heq hrun hstep
  exact (step_spec (hsound done _ r heq hrun) hstream hcutE horderlyE hstep).2

/-! ## Short streams -/

instance (state : TcpStates) : Decidable (Receiving state) :=
  inferInstanceAs (Decidable (_ ∨ _))

instance (irs : SequenceNumber32) (p : Payload) (h : TcpHeader) (k : ℕ) :
    Decidable (Carries irs p h k) :=
  inferInstanceAs (Decidable (_ ∧ _))

instance (irs : SequenceNumber32) (r : Reception) (k : ℕ) : Decidable (r.ByteArrived irs k) :=
  inferInstanceAs (Decidable (∃ x ∈ r.arrived, Carries irs x.1 x.2 k))

instance (r : Reception) : Decidable r.FinArrived :=
  inferInstanceAs (Decidable (∃ x ∈ r.arrived, x.2.flags.fin = true))

instance (irs : SequenceNumber32) (stream : Payload) (r : Reception) :
    Decidable (r.Complete irs stream) :=
  inferInstanceAs (Decidable (_ ∧ _))

instance (irs : SequenceNumber32) (stream p : Payload) (h : TcpHeader) :
    Decidable (TcpSocketBase.CutFrom irs stream p h) :=
  decidable_of_iff
    (offset irs h + p.length ≤ stream.length ∧ p <+: stream.drop (offset irs h) ∧
      (h.flags.fin = true → offset irs h + p.length = stream.length) ∧
      h.flags ∈ [TcpHeader.NONE, TcpHeader.ACK, TcpHeader.FIN, TcpHeader.FIN_ACK])
    ⟨fun ⟨hstop, hcut, hlast, hflags⟩ => ⟨hstop, hcut, hlast, hflags⟩,
      fun hcut => ⟨hcut.stop_le, hcut.cut, hcut.fin_last, hcut.flags_mem⟩⟩

instance (irs : SequenceNumber32) (stream : Payload) : (event : Event) →
    Decidable (CutFrom irs stream event)
  | .doForwardUp p h => inferInstanceAs (Decidable (TcpSocketBase.CutFrom irs stream p h))
  | .send _ | .recv _ | .close | .shutdownSend | .retxEvent | .delAckEvent | .persistEvent
  | .lastAckEvent | .timewaitEvent => instDecidableTrue

instance (irs : SequenceNumber32) (stream : Payload) (bytes : ℕ → Prop) [DecidablePred bytes]
    (fin : Prop) [Decidable fin] (p : Payload) (h : TcpHeader) :
    Decidable (Completes irs stream bytes fin p h) :=
  inferInstanceAs (Decidable (_ ∧ _))

instance (b : TcpRxBuffer) (p : Payload) (seq : SequenceNumber32) : Decidable (b.Fits p seq) :=
  inferInstanceAs (Decidable (∀ e ∈ b.data.head?, ¬ e.1 + b.maxBuffer < seq + p.getSize))

set_option synthInstance.maxSize 1000 in
instance (irs : SequenceNumber32) (stream : Payload) (bytes : ℕ → Prop) [DecidablePred bytes]
    (fin : Prop) [Decidable fin] (s : TcpSocketBase) (d : Congestion) (p : Payload)
    (h : TcpHeader) : Decidable (TcpSocketBase.Orderly irs stream bytes fin s d p h) :=
  decidable_of_iff
    ((p ≠ [] → ¬ s.rxBuffer.maxRxSequence ≤ h.sequenceNumber) ∧
      (p ≠ [] ∨ h.flags = TcpHeader.NONE → s.rxBuffer.Fits p h.sequenceNumber) ∧
      (s.state = .ESTABLISHED → h.flags.fin = true →
        ¬ (h.sequenceNumber < s.rxBuffer.nextRxSeq ∨
          s.rxBuffer.maxRxSequence < h.sequenceNumber) ∨
        (fin ∧ ∀ k < stream.length, Carries irs p h k → bytes k)) ∧
      (s.state ≠ .ESTABLISHED → h.flags.fin = true → p = [] ∨ fin) ∧
      (s.state ≠ .ESTABLISHED → Completes irs stream bytes fin p h → h.flags.fin = true) ∧
      (s.state = .ESTABLISHED → s.shutdownSend = true →
        Completes irs stream bytes fin p h → p = [] ∧ s.rxBuffer.size = 0) ∧
      (s.state = .ESTABLISHED → h.flags = TcpHeader.ACK → Completes irs stream bytes fin p h →
        ∀ s₁ ∈ s.receivedAckNumber d p h, s₁.state = .ESTABLISHED))
    ⟨fun ⟨hbegins, hfits, hrange, halone, hlast, hunread, hown⟩ =>
        ⟨hbegins, hfits, hrange, halone, hlast, hunread, hown⟩,
      fun ho => ⟨ho.begins, ho.fits, ho.inRange, ho.alone, ho.last, ho.unread, ho.ownFin⟩⟩

instance (irs : SequenceNumber32) (stream : Payload) (r : Reception) :
    (e : Congestion × Event) → Decidable (r.Orderly irs stream e)
  | (d, .doForwardUp p h) =>
      inferInstanceAs (Decidable (Receiving r.socket.state →
        TcpSocketBase.Orderly irs stream (r.ByteArrived irs) r.FinArrived (r.socket.withWindow h)
          d p h))
  | (_, .send _) | (_, .recv _) | (_, .close) | (_, .shutdownSend) | (_, .retxEvent)
  | (_, .delAckEvent) | (_, .persistEvent) | (_, .lastAckEvent) | (_, .timewaitEvent) =>
      instDecidableTrue

/-- Buffers of 100 bytes. -/
def hundredBytes : Config where
  sndBufSize := 100
  rcvBufSize := 100
  segmentSize := 10
  delAckMaxCount := 1
  maxWinSize := 100
  noDelay := true

/-- A window of 100 bytes, and nothing to retransmit. -/
def idle : Congestion := ⟨100, .ignore, false⟩

def segment (p : Payload) (seq : SequenceNumber32) (flags : TcpFlags) : Congestion × Event :=
  (idle, .doForwardUp p ⟨seq, ⟨0⟩, flags, 100⟩)

/-- The second byte, the FIN and the first byte arrive. -/
def reordered : List (Congestion × Event) :=
  [segment [8] ⟨1⟩ TcpHeader.ACK, segment [] ⟨2⟩ TcpHeader.FIN_ACK, segment [7] ⟨0⟩ TcpHeader.ACK]

theorem fin_honoured_reordered :
    EachStep step (fun r _ r' => Honours ⟨0⟩ [7, 8] r r')
        (start hundredBytes ⟨0⟩ ⟨0⟩ 100) reordered ∧
      Throughout step (fun r => ∀ e : Congestion × Event, CutFrom ⟨0⟩ [7, 8] e.2 →
        Orderly ⟨0⟩ [7, 8] r e → r.Accepts e) (start hundredBytes ⟨0⟩ ⟨0⟩ 100) reordered :=
  fin_honoured hundredBytes ⟨0⟩ ⟨0⟩ 100 (by decide) (by decide +kernel)
    (eachStep_of_take (by decide +kernel))

/-- After `Close` the FIN arrives, and the byte before it is missing. -/
def finFirst : List (Congestion × Event) :=
  [(idle, .close), segment [] ⟨1⟩ TcpHeader.FIN]

/-- After `Close` the last byte and the FIN arrive in one segment. -/
def finWithData : List (Congestion × Event) :=
  [(idle, .close), segment [7] ⟨0⟩ TcpHeader.FIN]

/-- The assertion of `DoPeerClose` fails when the missing byte arrives, and a FIN that comes with
data is dropped. -/
theorem finWait_fails :
    ((∀ e ∈ finFirst ++ [segment [7] ⟨0⟩ TcpHeader.NONE], CutFrom ⟨0⟩ [7] e.2) ∧
        ¬ Throughout step (fun r => ∀ e : Congestion × Event, CutFrom ⟨0⟩ [7] e.2 →
          r.Accepts e) (start hundredBytes ⟨0⟩ ⟨0⟩ 100) finFirst) ∧
      (∀ e ∈ finWithData, CutFrom ⟨0⟩ [7] e.2) ∧
        ¬ EachStep step (fun r _ r' => Honours ⟨0⟩ [7] r r')
          (start hundredBytes ⟨0⟩ ⟨0⟩ 100) finWithData := by
  refine ⟨⟨by decide +kernel, fun h => ?_⟩, by decide +kernel, fun h => ?_⟩
  · have hlast : (run step (start hundredBytes ⟨0⟩ ⟨0⟩ 100) finFirst).any (fun r =>
        decide (Receiving r.socket.state) &&
          (r.socket.doForwardUp idle [7] ⟨⟨0⟩, ⟨0⟩, TcpHeader.NONE, 100⟩).isNone) = true := by
      decide +kernel
    obtain ⟨r, hrun, hvalues⟩ := Option.any_eq_true _ _ |>.mp hlast
    obtain ⟨hreceiving, hnone⟩ := Bool.and_eq_true_iff.mp hvalues
    have haccepts := h finFirst [] r (List.append_nil _).symm hrun
      (segment [7] ⟨0⟩ TcpHeader.NONE) (by decide +kernel) (of_decide_eq_true hreceiving)
      fun hacknowledges => absurd hacknowledges (by
        rintro (hflags | ⟨-, hp, -⟩)
        · exact absurd hflags (by decide)
        · cases hp)
    rw [Option.isNone_iff_eq_none.mp hnone] at haccepts
    cases haccepts
  · have hlast : (run step (start hundredBytes ⟨0⟩ ⟨0⟩ 100) (finWithData.take 1)).any
        (fun r => decide (Receiving r.socket.state) &&
          (step r (segment [7] ⟨0⟩ TcpHeader.FIN)).any fun r' =>
            decide (r'.Complete ⟨0⟩ [7]) && !r'.socket.rxBuffer.finished) = true := by
      decide +kernel
    obtain ⟨r, hrun, hvalues⟩ := Option.any_eq_true _ _ |>.mp hlast
    obtain ⟨hreceiving, hany⟩ := Bool.and_eq_true_iff.mp hvalues
    obtain ⟨r', hstep, hvalues'⟩ := Option.any_eq_true _ _ |>.mp hany
    obtain ⟨hcomplete, hopen⟩ := Bool.and_eq_true_iff.mp hvalues'
    have hhonours := h _ _ [] r r' rfl hrun hstep (of_decide_eq_true hreceiving)
      (of_decide_eq_true hcomplete)
    rw [hhonours.1] at hopen
    cases hopen

end Reception

end Ns3Rdma
