import Mathlib.Algebra.Order.Field.Rat
import Mathlib.Data.List.Nodup
import Mathlib.Tactic.Linarith
import Ns3Rdma.Lib.StepSystem

/-!
# The send chain of the echo client

`UdpEchoClient::Send` schedules the next `Send`, and so do `StartApplication` and every packet that
`HandleRead` reads. All of them overwrite `m_sendEvent`, the only handle to the event that is
pending. Times are exact numbers of seconds, where `Seconds ()` truncates to a nanosecond: one
packet may leave up to a nanosecond earlier, and the chain is the same.
-/

namespace Ns3Rdma

open StepSystem

/-- A `Send` that the simulator still has to run, unless it was cancelled. -/
structure SendEvent where
  uid : ℕ
  time : ℚ
  cancelled : Bool
  deriving DecidableEq, Repr

/-- The attributes that the chain depends on. -/
structure EchoConfig where
  count : ℕ
  chunk : ℕ
  interval : ℚ
  size : ℕ

/-- The address family of a packet that `HandleRead` reads. -/
inductive FromAddress where
  | inet
  | inet6
  | other
  deriving DecidableEq, Repr

/-- The client with the simulator's events for it. `sent` lists the times of its packets, the
last one first. -/
structure UdpEchoClient where
  now : ℚ
  events : List SendEvent
  nextUid : ℕ
  sendEvent : Option ℕ
  socketOpen : Bool
  allowed : ℕ
  sentBytes : ℕ
  sent : List ℚ

namespace UdpEchoClient

variable (c : EchoConfig)

def create : UdpEchoClient := ⟨0, [], 0, none, false, 0, 0, []⟩

/-- The events that are still to run. -/
def pending (s : UdpEchoClient) : List SendEvent := s.events.filter fun e => !e.cancelled

/-- `m_sendEvent.IsExpired ()`. -/
def expired (s : UdpEchoClient) : Bool := s.pending.all fun e => decide (s.sendEvent ≠ some e.uid)

/-- `m_sendEvent = Simulator::Schedule (dt, &UdpEchoClient::Send, this)`. -/
def scheduleTransmit (s : UdpEchoClient) (dt : ℚ) : UdpEchoClient :=
  { s with
    events := s.events ++ [⟨s.nextUid, s.now + dt, false⟩]
    nextUid := s.nextUid + 1
    sendEvent := some s.nextUid }

/-- `Simulator::Cancel (m_sendEvent)`. -/
def cancel (s : UdpEchoClient) : UdpEchoClient :=
  { s with
    events := s.events.map fun e =>
      if s.sendEvent = some e.uid then { e with cancelled := true } else e }

def startApplication (s : UdpEchoClient) : UdpEchoClient :=
  { s with socketOpen := true, allowed := c.chunk }.scheduleTransmit 0

def stopApplication (s : UdpEchoClient) : UdpEchoClient := { s with socketOpen := false }.cancel

/-- How long one device is busy with the buffer of the flow. -/
def drainTime (buffer : ℕ) : ℚ := ((buffer : ℚ) * 8 - 1500 * 8) / 40 / 1000000000 * (95 / 100)

/-- The shortest positive drain time over the devices, from 10 on; 0 if there is none. -/
def drainAvail (buffers : List ℕ) : ℚ :=
  let best := buffers.foldl (fun (best : ℚ × Bool) buffer =>
    if drainTime buffer < best.1 ∧ 0 < drainTime buffer then (drainTime buffer, true) else best)
    (10, false)
  if best.2 then best.1 else 0

/-- `next_avail` of `Send`. -/
def nextAvail (buffers : List ℕ) : ℚ := max (drainAvail buffers) c.interval

/-- The test before a packet is sent, and before the next `Send` is scheduled. -/
def mayGoOn (s : UdpEchoClient) : Bool :=
  decide (s.sentBytes < s.allowed) && decide (s.sentBytes / c.size < c.count)

/-- `Send`, given the used buffers of the devices, whether the socket takes the packet, and the
draw of the jitter. The assertion is at its head, and the socket is used without a test. -/
def send (s : UdpEchoClient) (buffers : List ℕ) (taken : Bool) (draw : ℚ) :
    Option UdpEchoClient :=
  if !s.expired || !s.socketOpen then none
  else
    let next := nextAvail c buffers
    let s :=
      if next < 5 / 1000000 ∧ s.mayGoOn c = true ∧ taken = true then
        { s with sentBytes := (s.sentBytes + c.size) % 2 ^ 64, sent := s.now :: s.sent }
      else s
    some (if s.mayGoOn c then s.scheduleTransmit (next * draw) else s)

/-- One round of the loop of `HandleRead`. -/
def readPacket (s : UdpEchoClient) : FromAddress → UdpEchoClient
  | .inet | .inet6 => { s with allowed := (s.allowed + c.chunk) % 2 ^ 64 }.scheduleTransmit 0
  | .other => s

def handleRead (s : UdpEchoClient) (packets : List FromAddress) : UdpEchoClient :=
  packets.foldl (readPacket c) s

/-- The simulator runs its first event, or drops it if it was cancelled. -/
def fire (s : UdpEchoClient) (e : SendEvent) (buffers : List ℕ) (taken : Bool) (draw : ℚ) :
    Option UdpEchoClient :=
  if e ∈ s.events ∧ e.time ≤ s.now then
    let s := { s with events := s.events.erase e }
    if e.cancelled then some s else s.send c buffers taken draw
  else none

inductive Event where
  | start
  | stop
  | fire (e : SendEvent) (buffers : List ℕ) (taken : Bool) (draw : ℚ)
  | handleRead (packets : List FromAddress)
  | advance (time : ℚ)

/-- The socket calls `HandleRead` while it is open. The jitter is drawn between 0.45 and 0.55. -/
def step (s : UdpEchoClient) : Event → Option UdpEchoClient
  | .start => some (s.startApplication c)
  | .stop => some s.stopApplication
  | .fire e buffers taken draw =>
      if 45 / 100 ≤ draw ∧ draw ≤ 55 / 100 then s.fire c e buffers taken draw else none
  | .handleRead packets => if s.socketOpen then some (s.handleRead c packets) else none
  | .advance time => if s.now ≤ time then some { s with now := time } else none

/-- One `Send` at most is pending, the assertion holds when it runs, and packets are apart by the
interval times the smallest draw. -/
structure SingleChain (s : UdpEchoClient) : Prop where
  atMostOne : s.pending.length ≤ 1
  asserts : ∀ e ∈ s.pending, { s with events := s.events.erase e }.expired = true
  paced : s.sent.IsChain fun later earlier => earlier + 45 / 100 * c.interval ≤ later

/-- No `Send` is pending, and the last packet is an interval ago. -/
def Idle (s : UdpEchoClient) : Prop :=
  s.pending = [] ∧ ∀ t ∈ s.sent.head?, t + 45 / 100 * c.interval ≤ s.now

/-- What starts a chain finds none. -/
def StartsAlone (s : UdpEchoClient) : Event → UdpEchoClient → Prop
  | .start, _ => Idle c s
  | .handleRead packets, _ =>
      (packets.filter (· ≠ .other)).length ≤ 1 ∧
        ((packets.filter (· ≠ .other)).length = 1 → Idle c s)
  | _, _ => True

/-! ## The invariant -/

/-- What is pending is the event in `m_sendEvent`, and its packet will not come too early. -/
structure Chain (s : UdpEchoClient) : Prop where
  alone : s.pending = [] ∨ ∃ e, s.pending = [e] ∧ s.sendEvent = some e.uid ∧
    s.socketOpen = true ∧ ∀ t ∈ s.sent.head?, t + 45 / 100 * c.interval ≤ e.time
  paced : s.sent.IsChain fun later earlier => earlier + 45 / 100 * c.interval ≤ later

variable {c} {s next : UdpEchoClient}

theorem filter_erase {α : Type*} [DecidableEq α] (p : α → Bool) (a : α) (l : List α) :
    (l.erase a).filter p = (l.filter p).erase a := by
  induction l with
  | nil => rfl
  | cons b rest ih =>
      by_cases hba : b = a
      · subst hba
        by_cases hp : p b
        · simp [hp]
        · have hnot : b ∉ rest.filter p := fun hmem => hp (List.mem_filter.mp hmem).2
          simp [hp, List.erase_of_not_mem hnot]
      · by_cases hp : p b
        · simp [hba, hp, ih]
        · simp [hba, hp, ih]

theorem pending_erase (s : UdpEchoClient) (e : SendEvent) :
    { s with events := s.events.erase e }.pending = s.pending.erase e :=
  filter_erase _ e s.events

theorem pending_scheduleTransmit (s : UdpEchoClient) (dt : ℚ) :
    (s.scheduleTransmit dt).pending = s.pending ++ [⟨s.nextUid, s.now + dt, false⟩] := by
  simp [pending, scheduleTransmit]

theorem pending_cancel (s : UdpEchoClient) :
    s.cancel.pending = s.pending.filter fun e => decide (s.sendEvent ≠ some e.uid) := by
  unfold pending cancel
  dsimp only
  induction s.events with
  | nil => rfl
  | cons e rest ih =>
      by_cases hsend : s.sendEvent = some e.uid
      · by_cases hcancelled : e.cancelled
        · simpa [hsend, hcancelled] using ih
        · simpa [hsend, hcancelled] using ih
      · by_cases hcancelled : e.cancelled
        · simpa [hsend, hcancelled] using ih
        · simpa [hsend, hcancelled] using ih

theorem Chain.singleChain (h : Chain c s) : SingleChain c s where
  atMostOne := by
    rcases h.alone with hnone | ⟨e, hone, -⟩
    · simp [hnone]
    · simp [hone]
  asserts e he := by
    rcases h.alone with hnone | ⟨e', hone, -⟩
    · rw [hnone] at he
      cases he
    · rw [hone, List.mem_singleton] at he
      rw [expired, pending_erase, hone, he]
      simp
  paced := h.paced

/-- A chain that starts where there is none. -/
theorem Chain.scheduleTransmit {dt : ℚ} (hnone : s.pending = []) (hopen : s.socketOpen = true)
    (hpaced : s.sent.IsChain fun later earlier => earlier + 45 / 100 * c.interval ≤ later)
    (hlast : ∀ t ∈ s.sent.head?, t + 45 / 100 * c.interval ≤ s.now + dt) :
    Chain c (s.scheduleTransmit dt) where
  alone := by
    refine Or.inr ⟨⟨s.nextUid, s.now + dt, false⟩, ?_, rfl, hopen, hlast⟩
    rw [pending_scheduleTransmit, hnone, List.nil_append]
  paced := hpaced

theorem Chain.startApplication (hidle : Idle c s) (h : Chain c s) :
    Chain c (s.startApplication c) := by
  refine Chain.scheduleTransmit hidle.1 rfl h.paced ?_
  intro t ht
  rw [add_zero]
  exact hidle.2 t ht

theorem Chain.stopApplication (h : Chain c s) : Chain c s.stopApplication where
  alone := by
    left
    rw [UdpEchoClient.stopApplication, pending_cancel]
    rcases h.alone with hnone | ⟨e, hone, hsend, -⟩
    · change s.pending.filter _ = []
      rw [hnone, List.filter_nil]
    · change s.pending.filter (fun e => decide (s.sendEvent ≠ some e.uid)) = []
      simp [hone, hsend]
  paced := h.paced

theorem drainAvail_nonneg (buffers : List ℕ) : 0 ≤ drainAvail buffers := by
  have hfold : ∀ (buffers : List ℕ) (best : ℚ × Bool), 0 ≤ best.1 →
      0 ≤ (buffers.foldl (fun (best : ℚ × Bool) buffer =>
        if drainTime buffer < best.1 ∧ 0 < drainTime buffer then (drainTime buffer, true)
        else best) best).1 := by
    intro buffers
    induction buffers with
    | nil => exact fun _ h => h
    | cons buffer rest ih =>
        intro best hbest
        apply ih
        dsimp only
        split
        next hpos => exact hpos.2.le
        next => exact hbest
  unfold drainAvail
  dsimp only
  split
  next => exact hfold buffers (10, false) (by norm_num)
  next => exact le_refl 0

/-- The delay before the next `Send` is at least the interval times the smallest draw. -/
theorem interval_le_delay {draw : ℚ} (hdraw : 45 / 100 ≤ draw) (buffers : List ℕ) :
    45 / 100 * c.interval ≤ nextAvail c buffers * draw ∧ 0 ≤ nextAvail c buffers * draw := by
  have hnonneg : 0 ≤ nextAvail c buffers := (drainAvail_nonneg buffers).trans (le_max_left _ _)
  have hinterval : c.interval ≤ nextAvail c buffers := le_max_right _ _
  have hscaled : nextAvail c buffers * (45 / 100) ≤ nextAvail c buffers * draw :=
    mul_le_mul_of_nonneg_left hdraw hnonneg
  constructor
  · linarith
  · exact mul_nonneg hnonneg (by linarith)

/-- `Send` goes on with the chain that it belongs to, or ends it. -/
theorem Chain.send {buffers : List ℕ} {taken : Bool} {draw : ℚ} (hdraw : 45 / 100 ≤ draw)
    (hnone : s.pending = [])
    (hpaced : s.sent.IsChain fun later earlier => earlier + 45 / 100 * c.interval ≤ later)
    (hlast : ∀ t ∈ s.sent.head?, t + 45 / 100 * c.interval ≤ s.now)
    (hsend : s.send c buffers taken draw = some next) : Chain c next := by
  obtain ⟨hdelay, hpos⟩ := interval_le_delay hdraw buffers (c := c)
  unfold UdpEchoClient.send at hsend
  split at hsend
  next => cases hsend
  next hhead =>
    have hopen : s.socketOpen = true := by
      by_contra hclosed
      simp [hclosed] at hhead
    dsimp only at hsend
    obtain rfl := Option.some.inj hsend
    have hgo : ∀ after : UdpEchoClient, after.pending = [] → after.socketOpen = true →
        (after.sent.IsChain fun later earlier => earlier + 45 / 100 * c.interval ≤ later) →
        (∀ t ∈ after.sent.head?,
          t + 45 / 100 * c.interval ≤ after.now + nextAvail c buffers * draw) →
        Chain c (if after.mayGoOn c then
          after.scheduleTransmit (nextAvail c buffers * draw) else after) := by
      intro after hafter hafterOpen hafterPaced hafterLast
      split
      next => exact Chain.scheduleTransmit hafter hafterOpen hafterPaced hafterLast
      next => exact ⟨Or.inl hafter, hafterPaced⟩
    split
    next =>
      -- a packet is sent now
      refine hgo _ hnone hopen ?_ ?_
      · cases hsent : s.sent with
        | nil => simp
        | cons t rest =>
            rw [hsent] at hpaced hlast
            simp only [List.isChain_cons_cons]
            exact ⟨hlast t rfl, hpaced⟩
      · intro t ht
        obtain rfl : s.now = t := by simpa using ht
        exact add_le_add_right hdelay _
    next =>
      refine hgo _ hnone hopen hpaced ?_
      intro t ht
      have hearlier := hlast t ht
      linarith

theorem Chain.fire {e : SendEvent} {buffers : List ℕ} {taken : Bool} {draw : ℚ}
    (hdraw : 45 / 100 ≤ draw) (h : Chain c s)
    (hfire : s.fire c e buffers taken draw = some next) : Chain c next := by
  unfold UdpEchoClient.fire at hfire
  split at hfire
  next hdue =>
    obtain ⟨hmem, htime⟩ := hdue
    dsimp only at hfire
    split at hfire
    next hcancelled =>
      obtain rfl := Option.some.inj hfire
      have hnot : e ∉ s.pending := fun hpending => by
        have hlive := (List.mem_filter.mp hpending).2
        simp [hcancelled] at hlive
      have hsame : { s with events := s.events.erase e }.pending = s.pending := by
        rw [pending_erase, List.erase_of_not_mem hnot]
      refine ⟨?_, h.paced⟩
      rw [hsame]
      exact h.alone
    next hlive =>
      have hpending : e ∈ s.pending := List.mem_filter.mpr ⟨hmem, by simpa using hlive⟩
      rcases h.alone with hnone | ⟨e', hone, -, -, hlast⟩
      · rw [hnone] at hpending
        cases hpending
      · rw [hone, List.mem_singleton] at hpending
        subst hpending
        refine Chain.send (s := { s with events := s.events.erase e }) hdraw ?_ h.paced ?_ hfire
        · rw [pending_erase, hone, List.erase_cons_head]
        · exact fun t ht => (hlast t ht).trans htime
  next => cases hfire

/-- Only packets with an address of the internet schedule anything. -/
theorem handleRead_of_none {packets : List FromAddress}
    (h : (packets.filter (· ≠ .other)).length = 0) : s.handleRead c packets = s := by
  induction packets with
  | nil => rfl
  | cons packet rest ih =>
      cases packet with
      | inet => simp at h
      | inet6 => simp at h
      | other => exact ih (by simpa using h)

theorem handleRead_of_one {packets : List FromAddress}
    (h : (packets.filter (· ≠ .other)).length = 1) :
    s.handleRead c packets = s.readPacket c .inet := by
  induction packets with
  | nil => cases h
  | cons packet rest ih =>
      cases packet with
      | inet => exact handleRead_of_none (by simpa using h)
      | inet6 => exact handleRead_of_none (by simpa using h)
      | other => exact ih (by simpa using h)

theorem Chain.readPacket (hopen : s.socketOpen = true) (hidle : Idle c s) (h : Chain c s) :
    Chain c (s.readPacket c .inet) := by
  refine Chain.scheduleTransmit hidle.1 hopen h.paced ?_
  intro t ht
  rw [add_zero]
  exact hidle.2 t ht

theorem Chain.step (h : Chain c s) {event : Event} (hstep : s.step c event = some next)
    (hstarts : StartsAlone c s event next) : Chain c next := by
  cases event with
  | start =>
      obtain rfl := Option.some.inj hstep
      exact Chain.startApplication hstarts h
  | stop =>
      obtain rfl := Option.some.inj hstep
      exact h.stopApplication
  | fire e buffers taken draw =>
      simp only [UdpEchoClient.step] at hstep
      split at hstep
      next hdraw => exact Chain.fire hdraw.1 h hstep
      next => cases hstep
  | handleRead packets =>
      simp only [UdpEchoClient.step] at hstep
      split at hstep
      next hopen =>
        obtain rfl := Option.some.inj hstep
        rcases Nat.le_one_iff_eq_zero_or_eq_one.mp hstarts.1 with hzero | hone
        · rwa [handleRead_of_none hzero]
        · rw [handleRead_of_one hone]
          exact Chain.readPacket hopen (hstarts.2 hone) h
      next => cases hstep
  | advance time =>
      simp only [UdpEchoClient.step] at hstep
      split at hstep
      next =>
        obtain rfl := Option.some.inj hstep
        exact ⟨h.alone, h.paced⟩
      next => cases hstep

theorem create_chain (c : EchoConfig) : Chain c create := ⟨Or.inl rfl, List.IsChain.nil⟩

/-- There is a single chain of `Send` events in every run in which each packet that is read and
each start of the application finds no `Send` pending, and the last packet an interval ago. -/
theorem single_send_chain (c : EchoConfig) (events : List Event)
    (hstarts : EachStep (step c) (StartsAlone c) create events) :
    Throughout (step c) (SingleChain c) create events :=
  (throughout_of_eachStep (fun _ _ _ h hstep hstart => Chain.step h hstep hstart) (create_chain c)
    hstarts).mono fun _ h => h.singleChain

instance (c : EchoConfig) (s : UdpEchoClient) : Decidable (Idle c s) :=
  inferInstanceAs (Decidable (_ ∧ _))

instance (c : EchoConfig) (s : UdpEchoClient) (event : Event) (next : UdpEchoClient) :
    Decidable (StartsAlone c s event next) :=
  match event with
  | .start => inferInstanceAs (Decidable (Idle c s))
  | .stop => inferInstanceAs (Decidable True)
  | .fire _ _ _ _ => inferInstanceAs (Decidable True)
  | .handleRead _ => inferInstanceAs (Decidable (_ ∧ _))
  | .advance _ => inferInstanceAs (Decidable True)

/-- Chunks of one packet, and an interval of a microsecond. -/
def onePacketChunks : EchoConfig := ⟨100, 1000, 1 / 1000000, 1000⟩

/-- The echo of each packet starts the chain again. -/
theorem single_send_chain_echo :
    Throughout (step onePacketChunks) (SingleChain onePacketChunks) create
      [.start, .fire ⟨0, 0, false⟩ [0] true (1 / 2), .advance 1, .handleRead [.inet],
        .fire ⟨1, 1, false⟩ [0] true (1 / 2), .stop] :=
  single_send_chain onePacketChunks _ (eachStep_of_take (by decide +kernel))

/-- An echo that arrives while more packets may be sent starts a second chain. -/
theorem two_send_chains :
    ¬ Throughout (step { onePacketChunks with chunk := 4000 })
      (SingleChain { onePacketChunks with chunk := 4000 }) create
        [.start, .fire ⟨0, 0, false⟩ [0] true (1 / 2), .handleRead [.inet]] := by
  intro hall
  have hrun : (run (step { onePacketChunks with chunk := 4000 }) create
      [.start, .fire ⟨0, 0, false⟩ [0] true (1 / 2), .handleRead [.inet]]).any
        (fun s => decide (s.pending.length = 2)) = true := by decide +kernel
  obtain ⟨s, hs, htwo⟩ := (Option.any_eq_true _ _).mp hrun
  have hone := (hall.last hs).atMostOne
  rw [of_decide_eq_true htwo] at hone
  exact absurd hone (by decide)

end UdpEchoClient

end Ns3Rdma
