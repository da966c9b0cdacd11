import Ns3Rdma.Tcp.Established
import Ns3Rdma.Tcp.Transfer

/-! # A connection over a network that loses, repeats and reorders

Two sockets, each of which has what the other one has sent on its way. A segment that was sent may
arrive at any time, any number of times, or never. -/

namespace Ns3Rdma

open StepSystem

inductive Side
  | left
  | right
deriving DecidableEq

namespace Side

def peer : Side → Side
  | left => right
  | right => left

@[simp] theorem peer_peer (z : Side) : z.peer.peer = z := by cases z <;> rfl

theorem peer_ne (z : Side) : z.peer ≠ z := by cases z <;> decide

theorem eq_or_eq_peer (z y : Side) : y = z ∨ y = z.peer := by cases z <;> cases y <;> decide

end Side

/-- A socket, what its application has written to it, and what it has read from it. -/
structure TcpEndpoint where
  socket : TcpSocketBase
  written : Payload
  read : Payload

namespace TcpEndpoint

open TcpSocketBase

/-- What `Recv` returns. -/
def received (s : TcpSocketBase) : Event → Payload
  | .recv maxSize =>
      if s.rxBuffer.size = 0 ∧ s.state = .CLOSE_WAIT then []
      else ((s.rxBuffer.extract maxSize).map Prod.snd).getD []
  | _ => []

/-- The end after an event. -/
def step (e : TcpEndpoint) (d : Congestion) (event : Event) : Option TcpEndpoint :=
  (e.socket.step (d, event)).map fun socket =>
    ⟨socket, e.written ++ e.socket.written event, e.read ++ received e.socket event⟩

/-- A timer that runs is not expired. -/
def Scheduled (s : TcpSocketBase) : Event → Prop
  | .retxEvent => s.retxEvent ≠ none
  | .delAckEvent => s.delAckEvent = true
  | .persistEvent => s.persistEvent = true
  | .lastAckEvent => s.lastAckEvent = true
  | .timewaitEvent => s.timewaitEvent = true
  | _ => True

/-- What the application writes leaves the numbers of the stream in order, with `maxBuffer` more
behind them. -/
def LeavesRoom (e : TcpEndpoint) (maxBuffer : UInt32) : Event → Prop
  | .send p => e.socket.accepts p = true →
      maxBuffer.toNat + (e.written.length + p.length) + 1 < 2 ^ 31
  | _ => True

instance (e : TcpEndpoint) (maxBuffer : UInt32) (event : Event) :
    Decidable (e.LeavesRoom maxBuffer event) := by
  cases event <;> unfold LeavesRoom <;> infer_instance

/-- One end beside the window over its own stream, and the stream of the peer. -/
structure Joins (iss irs : SequenceNumber32) (w : SlidingWindow) (c : ℕ) (stream : Payload)
    (e : TcpEndpoint) : Prop where
  transfers : Transfers iss irs w c e.socket
  added_eq : w.added = e.written
  hears : Hears irs stream e.read.length c e.socket.rxBuffer
  read_begins : e.read <+: stream

variable {iss irs : SequenceNumber32} {w : SlidingWindow} {c m : ℕ} {stream stream' : Payload}
  {e e' : TcpEndpoint} {d : Congestion} {event : Event} {maxBuffer : UInt32}

theorem scheduled_of_step (hstep : e.step d event = some e') : Scheduled e.socket event := by
  obtain ⟨s, hsocket, -⟩ := Option.map_eq_some_iff.mp hstep
  cases event with
  | retxEvent =>
      intro hnone
      change e.socket.expire = some s at hsocket
      unfold expire at hsocket
      rw [hnone] at hsocket
      cases hsocket
  | delAckEvent | persistEvent | lastAckEvent | timewaitEvent =>
      unfold TcpSocketBase.step at hsocket
      dsimp only at hsocket
      split at hsocket
      next hset => exact hset
      next => cases hsocket
  | _ => trivial

namespace Joins

theorem grow (he : Joins iss irs w c stream e) (hgrow : stream <+: stream')
    (hroom : e.socket.rxBuffer.maxBuffer.toNat + stream'.length + 1 < 2 ^ 31) :
    Joins iss irs w c stream' e where
  transfers := he.transfers
  added_eq := he.added_eq
  hears := he.hears.grow hgrow hroom
  read_begins := he.read_begins.trans hgrow

/-- The socket has done something that neither writes nor reads. -/
theorem replace {s : TcpSocketBase} (he : Joins iss irs w c stream e)
    (hs : Transfers iss irs w c s) (hrx : s.rxBuffer = e.socket.rxBuffer) :
    Joins iss irs w c stream ⟨s, e.written ++ [], e.read ++ []⟩ := by
  rw [List.append_nil, List.append_nil]
  exact ⟨hs, he.added_eq, hrx ▸ he.hears, he.read_begins⟩

/-- What the application and the timers do. -/
theorem call_spec (he : Joins iss irs w c stream e) (hopen : e.socket.state = .ESTABLISHED)
    (d : Congestion) (hscheduled : Scheduled e.socket event)
    (hroom : e.LeavesRoom maxBuffer event) (hcall : ∀ p h, event ≠ .doForwardUp p h) :
    ∃ e', e.step d event = some e' ∧ (e'.socket.state = .ESTABLISHED →
      ∃ w', Joins iss irs w' c stream e' ∧ w'.discarded = w.discarded ∧
        e.written <+: e'.written) := by
  have hkeep {s : TcpSocketBase} {event : Event} (hstep : e.socket.step (d, event) = some s)
      (hwritten : e.socket.written event = []) (hread : received e.socket event = [])
      (hs : s.state = .ESTABLISHED →
        Transfers iss irs w c s ∧ s.rxBuffer = e.socket.rxBuffer) :
      ∃ e', e.step d event = some e' ∧ (e'.socket.state = .ESTABLISHED →
        ∃ w', Joins iss irs w' c stream e' ∧ w'.discarded = w.discarded ∧
          e.written <+: e'.written) := by
    unfold step
    rw [hstep, Option.map_some, hwritten, hread]
    refine ⟨_, rfl, fun hstate => ⟨w, ?_, rfl, List.prefix_append _ _⟩⟩
    exact he.replace (hs hstate).1 (hs hstate).2
  have hsame {s : TcpSocketBase} (htx : s.txBuffer = e.socket.txBuffer)
      (hnext : s.nextTxSequence = e.socket.nextTxSequence)
      (hrx : s.rxBuffer = e.socket.rxBuffer) (hstate : s.state = e.socket.state)
      (hsent : s.sent = e.socket.sent) (hretx : s.retxEvent = e.socket.retxEvent) :
      Transfers iss irs w c s ∧ s.rxBuffer = e.socket.rxBuffer :=
    ⟨he.transfers.same htx hnext hrx hstate hsent fun flags hflags => hretx ▸ hflags, hrx⟩
  cases event with
  | doForwardUp p h => exact absurd rfl (hcall p h)
  | send p =>
      obtain ⟨s, w', hsend, hs, hadded, hdiscarded⟩ := he.transfers.send d fun haccepts => by
        have hsmall := hroom haccepts
        rw [he.added_eq]
        omega
      have hrx : s.rxBuffer = e.socket.rxBuffer := by
        unfold TcpSocketBase.send at hsend
        split at hsend
        · dsimp only at hsend
          split at hsend
          · exact (sendsOnly_sendPendingData hsend).rxBuffer_eq
          · exact Option.some.inj hsend ▸ rfl
        · exact Option.some.inj hsend ▸ rfl
      refine ⟨⟨s, e.written ++ e.socket.written (.send p), e.read ++ []⟩, ?_, fun _ => ⟨w', ?_,
        hdiscarded, List.prefix_append _ _⟩⟩
      · exact Option.map_eq_some_iff.mpr ⟨s, hsend, rfl⟩
      · rw [List.append_nil]
        exact ⟨hs, by rw [hadded, he.added_eq], hrx ▸ he.hears, he.read_begins⟩
  | recv maxSize =>
      obtain ⟨r, hextract, hhears, hnext, hbytes⟩ := he.hears.extract maxSize
      have hwait : ¬ (e.socket.rxBuffer.size = 0 ∧ e.socket.state = .CLOSE_WAIT) := by
        rw [hopen]
        simp
      have hread : received e.socket (.recv maxSize) = r.2 := by
        unfold received
        dsimp only
        rw [if_neg hwait, hextract]
        rfl
      refine ⟨⟨{ e.socket with rxBuffer := r.1 }, e.written ++ [], e.read ++ r.2⟩, ?_,
        fun _ => ⟨w, ?_, rfl, List.prefix_append _ _⟩⟩
      · refine Option.map_eq_some_iff.mpr ⟨{ e.socket with rxBuffer := r.1 }, ?_, by
          rw [hread]; rfl⟩
        change e.socket.recv maxSize = _
        unfold recv
        rw [if_neg hwait, hextract]
        rfl
      · rw [List.append_nil]
        refine ⟨he.transfers.receive (hnext.trans he.transfers.expects) le_rfl, he.added_eq, ?_, ?_⟩
        · rw [List.length_append]
          exact hhears
        · obtain ⟨behind, hbehind⟩ := he.read_begins
          rw [← hbehind, List.drop_left] at hbytes
          rw [← hbehind]
          exact (List.prefix_append_right_inj _).mpr hbytes
  | close =>
      refine hkeep rfl rfl rfl fun hstate => ?_
      rw [Transfers.close_of_established hopen hstate]
      exact hsame rfl rfl rfl rfl rfl rfl
  | shutdownSend => exact hkeep rfl rfl rfl fun _ => hsame rfl rfl rfl rfl rfl rfl
  | retxEvent =>
      obtain ⟨s, hexpire, hs⟩ := he.transfers.expire hopen hscheduled
      exact hkeep hexpire rfl rfl fun _ => ⟨hs, (sendsOnly_expire hexpire).rxBuffer_eq⟩
  | delAckEvent =>
      have hset : e.socket.delAckEvent = true := hscheduled
      refine hkeep (s := e.socket.delAckTimeout) (if_pos hset) rfl rfl fun _ => ?_
      exact ⟨he.transfers.delAckTimeout, (sendsOnly_sendEmptyPacket _ _).rxBuffer_eq⟩
  | persistEvent =>
      have hset : e.socket.persistEvent = true := hscheduled
      obtain ⟨s, hpersist, hs⟩ := he.transfers.persistTimeout
      refine hkeep (s := s) ((if_pos hset).trans hpersist) rfl rfl fun _ => ⟨hs, ?_⟩
      obtain ⟨p, -, rfl⟩ := Option.map_eq_some_iff.mp hpersist
      rfl
  | lastAckEvent =>
      have hset : e.socket.lastAckEvent = true := hscheduled
      refine hkeep (s := e.socket.lastAckTimeout) (if_pos hset) rfl rfl fun _ => ?_
      unfold lastAckTimeout
      rw [if_neg (by rw [hopen]; decide)]
      exact hsame rfl rfl rfl rfl rfl rfl
  | timewaitEvent =>
      have hset : e.socket.timewaitEvent = true := hscheduled
      refine hkeep (s := e.socket.closeAndNotify) (if_pos hset) rfl rfl fun hstate => ?_
      cases hstate

/-- What a segment of the peer does. -/
theorem arrive_spec (he : Joins iss irs w c stream e) (hopen : e.socket.state = .ESTABLISHED)
    (d : Congestion) {segment : TcpHeader × Payload} (hsegment : Genuine irs iss stream m segment)
    (hm : m ≤ e.written.length) :
    ∃ e' w' c', e.step d (.doForwardUp segment.2 segment.1) = some e' ∧
      Joins iss irs w' c' stream e' ∧ c ≤ c' ∧ w'.discarded ≤ max w.discarded m ∧
      e'.written = e.written := by
  obtain ⟨s, w', c', hforward, hs, hhears, hc, hadded, hdiscarded⟩ :=
    he.transfers.doForwardUp hopen he.hears hsegment (he.added_eq ▸ hm) d
  refine ⟨⟨s, e.written ++ [], e.read ++ []⟩, w', c',
    Option.map_eq_some_iff.mpr ⟨s, hforward, rfl⟩, ?_, hc, hdiscarded, List.append_nil _⟩
  rw [List.append_nil, List.append_nil]
  exact ⟨hs, hadded.trans he.added_eq, hhears, he.read_begins⟩

end Joins

end TcpEndpoint

/-- The two ends of a connection. -/
abbrev TcpConnection := Side → TcpEndpoint

namespace TcpConnection

open TcpSocketBase TcpEndpoint

inductive Action
  /-- The segment at this position in the log of the peer arrives. -/
  | arrive (index : ℕ)
  /-- The application calls, or a timer runs. -/
  | call (event : Event)

/-- The event that an action is. Segments come from the peer only. -/
def event (conn : TcpConnection) (z : Side) : Action → Option Event
  | .arrive index => ((conn z.peer).socket.sent[index]?).map fun segment =>
      .doForwardUp segment.2 segment.1
  | .call (.doForwardUp _ _) => none
  | .call event => some event

def step (conn : TcpConnection) (action : Side × Congestion × Action) : Option TcpConnection :=
  (conn.event action.1 action.2.2).bind fun event =>
    ((conn action.1).step action.2.1 event).map fun e => Function.update conn action.1 e

/-- Both sockets at the end of the handshake. -/
def start (config : Side → Config) (isn : Side → SequenceNumber32) (rWnd : Side → UInt32) :
    TcpConnection :=
  fun z => ⟨established (config z) (isn z) (isn z.peer) (rWnd z), [], []⟩

def LeavesRoom (conn : TcpConnection) (action : Side × Congestion × Action) : Prop :=
  match action.2.2 with
  | .arrive _ => True
  | .call event => (conn action.1).LeavesRoom (conn action.1.peer).socket.rxBuffer.maxBuffer event

instance (conn : TcpConnection) (action : Side × Congestion × Action) :
    Decidable (conn.LeavesRoom action) := by
  unfold LeavesRoom
  split <;> infer_instance

/-- Both ends are established, and neither has sent a FIN. -/
def Established (conn : TcpConnection) : Prop := ∀ z, (conn z).socket.state = .ESTABLISHED

/-- The stream of this end is read by the peer in order. What the peer does not have yet can still
be sent. Whatever happens next, no assertion fails. -/
structure Reliable (conn : TcpConnection) (z : Side) : Prop where
  read_begins : (conn z.peer).read <+: (conn z).written
  kept : ∃ acked, (conn z).written = acked ++ (conn z).socket.txBuffer.data.flatten ∧
    acked.length ≤ (conn z.peer).read.length +
      (conn z.peer).socket.rxBuffer.availBytes.toNat
  accepts : ∀ d action event, conn.event z action = some event →
    Scheduled (conn z).socket event → conn.LeavesRoom (z, d, action) →
      (conn.step (z, d, action)).isSome

/-- Each end beside its window, which discards only what the peer has in order. -/
structure Joined (isn : Side → SequenceNumber32) (w : Side → SlidingWindow) (c : Side → ℕ)
    (conn : TcpConnection) : Prop where
  joins : ∀ z, Joins (isn z) (isn z.peer) (w z) (c z) (conn z.peer).written (conn z)
  acked_le : ∀ z, (w z).discarded ≤ c z.peer

variable {isn : Side → SequenceNumber32} {w : Side → SlidingWindow} {c : Side → ℕ}
  {conn conn' : TcpConnection} {z : Side} {d : Congestion} {action : Action}

namespace Joined

/-- The peer has no more in order than was written. -/
theorem order_le (hconn : Joined isn w c conn) (z : Side) :
    c z.peer ≤ (conn z).written.length := by
  have hpeer := (hconn.joins z.peer).hears.avail_eq.2
  rwa [Side.peer_peer] at hpeer

/-- One end has moved on. -/
theorem update (hconn : Joined isn w c conn) {e : TcpEndpoint} {w' : SlidingWindow} {c' : ℕ}
    (hjoins : Joins (isn z) (isn z.peer) w' c' (conn z.peer).written e) (hc : c z ≤ c')
    (hacked : w'.discarded ≤ c z.peer) (hgrow : (conn z).written <+: e.written)
    (hroom : (conn z.peer).socket.rxBuffer.maxBuffer.toNat + e.written.length + 1 < 2 ^ 31) :
    Joined isn (Function.update w z w') (Function.update c z c') (Function.update conn z e) := by
  have hne : z.peer ≠ z := z.peer_ne
  constructor
  · intro y
    rcases Side.eq_or_eq_peer z y with rfl | rfl
    · rw [Function.update_self, Function.update_self, Function.update_self,
        Function.update_of_ne hne]
      exact hjoins
    · have hpeer := hconn.joins z.peer
      rw [Side.peer_peer] at hpeer ⊢
      rw [Function.update_self, Function.update_of_ne hne, Function.update_of_ne hne,
        Function.update_of_ne hne]
      exact hpeer.grow hgrow hroom
  · intro y
    rcases Side.eq_or_eq_peer z y with rfl | rfl
    · rw [Function.update_self, Function.update_of_ne hne]
      exact hacked
    · have hpeer := hconn.acked_le z.peer
      rw [Side.peer_peer] at hpeer ⊢
      rw [Function.update_self, Function.update_of_ne hne]
      exact hpeer.trans hc

/-- An action that is possible is executed, and the ends stay joined while both are established. -/
theorem step_spec (hconn : Joined isn w c conn) (hopen : conn.Established) (d : Congestion)
    {event : Event} (hevent : conn.event z action = some event)
    (hscheduled : Scheduled (conn z).socket event) (hleaves : conn.LeavesRoom (z, d, action)) :
    ∃ conn', conn.step (z, d, action) = some conn' ∧
      (conn'.Established → ∃ w' c', Joined isn w' c' conn') := by
  have hz := hconn.joins z
  have hpeer := hconn.joins z.peer
  rw [Side.peer_peer] at hpeer
  have hbound := hpeer.hears.room
  unfold step
  dsimp only
  rw [hevent, Option.bind_some]
  cases action with
  | arrive index =>
      obtain ⟨segment, hsegment, rfl⟩ := Option.map_eq_some_iff.mp hevent
      have hgenuine := hpeer.transfers.genuine (hopen z.peer) segment
        (List.mem_of_getElem? hsegment)
      rw [hpeer.added_eq] at hgenuine
      obtain ⟨e, w', c', hstep, hjoins, hc, hdiscarded, hwritten⟩ :=
        hz.arrive_spec (hopen z) d hgenuine (hconn.order_le z)
      rw [hstep, Option.map_some]
      refine ⟨_, rfl, fun _ => ⟨_, _, hconn.update hjoins hc ?_ ?_ ?_⟩⟩
      · exact hdiscarded.trans (max_le (hconn.acked_le z) le_rfl)
      · rw [hwritten]
      · rw [hwritten]
        exact hbound
  | call event' =>
      have hcall : ∀ p h, event ≠ .doForwardUp p h := by
        rintro p h rfl
        cases event' <;> cases hevent
      have heq : event' = event := by
        cases event' <;> cases hevent <;> rfl
      subst heq
      obtain ⟨e, hstep, hjoins⟩ := hz.call_spec (hopen z) d hscheduled hleaves hcall
      rw [hstep, Option.map_some]
      refine ⟨_, rfl, fun hstays => ?_⟩
      have hstate := hstays z
      rw [Function.update_self] at hstate
      obtain ⟨w', he, hdiscarded, hgrow⟩ := hjoins hstate
      refine ⟨_, _, hconn.update he le_rfl (hdiscarded ▸ hconn.acked_le z) hgrow ?_⟩
      obtain ⟨s, -, rfl⟩ := Option.map_eq_some_iff.mp hstep
      dsimp only
      rw [List.length_append]
      cases event' with
      | send p =>
          change _ + ((conn z).written.length +
            (if (conn z).socket.accepts p then p else []).length) + 1 < 2 ^ 31
          split
          next haccepts => exact hleaves haccepts
          next => exact hbound
      | _ => exact hbound

theorem reliable (hconn : Joined isn w c conn) (hopen : conn.Established) (z : Side) :
    conn.Reliable z where
  read_begins := by
    have hpeer := (hconn.joins z.peer).read_begins
    rwa [Side.peer_peer] at hpeer
  kept := by
    have hz := hconn.joins z
    have havail := (hconn.joins z.peer).hears.avail_eq.1
    have hacked := hconn.acked_le z
    refine ⟨(w z).added.take (w z).discarded, ?_, ?_⟩
    · rw [hz.transfers.refines.data_eq, ← hz.added_eq]
      exact (List.take_append_drop _ _).symm
    · rw [List.length_take]
      omega
  accepts := by
    intro d action event hevent hscheduled hleaves
    obtain ⟨conn', hstep, -⟩ := hconn.step_spec hopen d hevent hscheduled hleaves
    rw [hstep]
    rfl

end Joined

theorem start_joined (config : Side → Config) (isn : Side → SequenceNumber32)
    (rWnd : Side → UInt32) (hbuffer : ∀ z, (config z).rcvBufSize.toNat + 1 < 2 ^ 31) :
    Joined isn (fun z => ⟨isn z, (config z).sndBufSize.toNat, [], 0⟩) (fun _ => 0)
      (start config isn rWnd) := by
  refine ⟨fun z => ⟨⟨TcpTxBuffer.refines_init _ _, by simp, ?_, ⟨0, Nat.zero_le _, ?_⟩, ?_,
    Or.inl rfl, fun _ segment hsegment => ?_, fun _ flags hflags => ?_⟩, rfl, ⟨?_, rfl, ?_⟩,
    List.nil_prefix⟩, fun z => le_rfl⟩
  · exact (SequenceNumber32.plus_zero _).symm
  · exact (SequenceNumber32.plus_zero _).symm
  · exact (SequenceNumber32.plus_zero _).symm
  · cases hsegment
  · cases hflags
  · have hinit := (@RxStream.reassembles_init [] 0 (isn z.peer)
      (config z).rcvBufSize le_rfl).2
    obtain ⟨c, front, back, hholds⟩ := hinit
    rw [SequenceNumber32.plus_zero] at hholds
    have hzero : c = 0 := Nat.le_zero.mp hholds.arranged.le_hi
    exact ⟨front, back, hzero ▸ hholds⟩
  · exact hbuffer z

/-- The ends were established before a step if they are after it. -/
theorem established_of_step {action : Side × Congestion × Action}
    (hbegun : ∀ z, 1 ≤ (conn z).socket.state.progress)
    (hstep : conn.step action = some conn') :
    (∀ z, 1 ≤ (conn' z).socket.state.progress) ∧ (conn'.Established → conn.Established) := by
  obtain ⟨event, -, hmap⟩ := Option.bind_eq_some_iff.mp hstep
  obtain ⟨e, he, rfl⟩ := Option.map_eq_some_iff.mp hmap
  obtain ⟨s, hsocket, rfl⟩ := Option.map_eq_some_iff.mp he
  have hprogress : ∀ z, (conn z).socket.state.progress ≤
      (Function.update conn action.1 ⟨s, (conn action.1).written ++
        (conn action.1).socket.written event, (conn action.1).read ++
          received (conn action.1).socket event⟩ z).socket.state.progress := by
    intro z
    by_cases hz : z = action.1
    · subst hz
      rw [Function.update_self]
      exact progress_step hsocket
    · rw [Function.update_of_ne hz]
  refine ⟨fun z => (hbegun z).trans (hprogress z), fun hopen z => ?_⟩
  refine established_of_progress (hbegun z) ?_
  exact (hprogress z).trans (le_of_eq (congrArg _ (hopen z)))

/-- Two established sockets transfer their streams in both directions over a network that loses,
repeats and reorders segments, whatever the windows and the timers do. -/
theorem reliable_transfer (config : Side → Config) (isn : Side → SequenceNumber32)
    (rWnd : Side → UInt32) (hbuffer : ∀ z, (config z).rcvBufSize.toNat + 1 < 2 ^ 31)
    {actions : List (Side × Congestion × Action)}
    (hroom : EachStep step (fun conn action _ => conn.LeavesRoom action)
      (start config isn rWnd) actions) :
    Throughout step (fun conn => conn.Established → ∀ z, conn.Reliable z)
      (start config isn rWnd) actions := by
  have hall : Throughout step (fun conn =>
      (∀ z, 1 ≤ (conn z).socket.state.progress) ∧
        (conn.Established → ∃ w c, Joined isn w c conn)) (start config isn rWnd) actions := by
    refine throughout_of_eachStep ?_
      ⟨fun z => le_rfl, fun _ => ⟨_, _, start_joined config isn rWnd hbuffer⟩⟩ hroom
    rintro conn ⟨z, d, action⟩ conn' ⟨hbegun, hjoined⟩ hstep hleaves
    obtain ⟨hbegun', hback⟩ := established_of_step hbegun hstep
    refine ⟨hbegun', fun hopen => ?_⟩
    obtain ⟨w, c, hconn⟩ := hjoined (hback hopen)
    obtain ⟨event, hevent, hmap⟩ := Option.bind_eq_some_iff.mp hstep
    obtain ⟨e, he, -⟩ := Option.map_eq_some_iff.mp hmap
    obtain ⟨next, hnext, hkeeps⟩ :=
      hconn.step_spec (hback hopen) d hevent (scheduled_of_step he) hleaves
    obtain rfl := Option.some.inj (hnext.symm.trans hstep)
    exact hkeeps hopen
  refine hall.mono fun conn hconn hopen z => ?_
  obtain ⟨w, c, hjoined⟩ := hconn.2 hopen
  exact hjoined.reliable hopen z

/-- Segments of two bytes. -/
def twoBytes : Config where
  sndBufSize := 64
  rcvBufSize := 16
  segmentSize := 2
  delAckMaxCount := 1
  maxWinSize := 16
  noDelay := true

/-- Of three segments the first one is lost, and the others arrive in the opposite order. After the
timeout all is there, and what arrives again changes nothing. -/
def lostSegment : List (Side × Congestion × Action) :=
  let d : Congestion := ⟨16, .ignore, false⟩
  [(.left, d, .call (.send [1, 2, 3, 4, 5])), (.right, d, .arrive 2), (.right, d, .arrive 1),
    (.left, d, .call .retxEvent), (.right, d, .arrive 3), (.right, d, .arrive 1),
    (.right, d, .call (.recv 4)), (.left, d, .arrive 2)]

theorem reliable_transfer_lostSegment :
    Throughout step (fun conn => conn.Established → ∀ z, conn.Reliable z)
      (start (fun _ => twoBytes) (fun _ => ⟨4294967295⟩) (fun _ => 16)) lostSegment :=
  reliable_transfer (fun _ => twoBytes) (fun _ => ⟨4294967295⟩) (fun _ => 16)
    (fun _ => by decide) (eachStep_of_take (by decide))

example : ((run step (start (fun _ => twoBytes) (fun _ => ⟨4294967295⟩)
    (fun _ => 16)) lostSegment).map fun conn =>
      ((conn .right).read, (conn .left).socket.txBuffer.data.flatten)) =
        some ([1, 2, 3, 4], []) := by
  decide

end TcpConnection

end Ns3Rdma
