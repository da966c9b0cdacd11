import Ns3Rdma.Arp.ArpCache
import Ns3Rdma.Lib.StepSystem
import Ns3Rdma.Lib.Word

/-!
# ARP resolution neither wedges nor loses packets

The timer of a cache expires no later than the wait of any of its entries, so an entry that waits is
seen by the timer before `Lookup` can find it expired.
-/

namespace Ns3Rdma.Arp

variable {Packet Address : Type} {c : ArpConfig}

/-- An entry that waits is covered by the timer, one that does not wait holds nothing. -/
structure Entry.Sound (c : ArpConfig) (timer : Option ℕ) (entry : Entry Packet Address) : Prop where
  retries_le : entry.retries ≤ c.maxRetries
  waiting : entry.state = .WAIT_REPLY →
    entry.pending.length ≤ max 1 c.pendingQueueSize.toNat ∧
      ∃ expiry ∈ timer, expiry ≤ entry.lastSeen + c.waitReplyTimeout
  idle : entry.state ≠ .WAIT_REPLY → entry.pending = [] ∧ entry.retries = 0

/-- The packets that are pending in an entry. -/
def Entry.held (entry : Entry Packet Address) : Multiset Packet := entry.pending

namespace World

/-- The packets that are pending in some entry. -/
def pending (w : World Packet Address) : Multiset Packet := w.cache.live.bind Entry.held

/-- Where the packets are that were given to `Lookup`. -/
def kept (w : World Packet Address) : Multiset Packet :=
  w.pending + w.sent.map Prod.fst + w.dropped

/-- Every entry is in order, and the timer was started in time and has not been missed. -/
structure Ready (c : ArpConfig) (w : World Packet Address) : Prop where
  entries : ∀ a entry, w.cache.entry a = some entry → entry.Sound c w.waitReplyTimer
  timer : ∀ expiry ∈ w.waitReplyTimer, w.now ≤ expiry ∧ expiry ≤ w.now + c.waitReplyTimeout

variable {w : World Packet Address} {entry : Entry Packet Address} {destination : Ipv4Address}
  {packet : Packet}

theorem ready_start (c : ArpConfig) (now : ℕ) : (start now : World Packet Address).Ready c := by
  constructor
  case entries =>
    intro a entry hentry
    cases hentry
  case timer =>
    intro expiry hexpiry
    cases hexpiry

theorem Ready.not_isExpired (hw : w.Ready c) (hentry : w.cache.entry destination = some entry)
    (hwait : entry.state = .WAIT_REPLY) : entry.isExpired c w.now = false := by
  obtain ⟨expiry, hexpiry, hle⟩ := ((hw.entries _ _ hentry).waiting hwait).2
  have hnow := (hw.timer expiry hexpiry).1
  have htimeout : entry.getTimeout c = c.waitReplyTimeout := by
    unfold Entry.getTimeout
    rw [hwait]
  unfold Entry.isExpired
  rw [htimeout]
  exact decide_eq_false (by omega)

theorem pending_put (w : World Packet Address) (destination : Ipv4Address)
    (entry : Entry Packet Address) :
    ({ w with cache := w.cache.put destination entry } : World Packet Address).pending =
      entry.held + (w.cache.others destination).bind Entry.held := by
  unfold pending
  dsimp only
  rw [Registry.put_live, Multiset.cons_bind]

theorem pending_eq (hentry : w.cache.entry destination = some entry) :
    w.pending = entry.held + (w.cache.others destination).bind Entry.held := by
  unfold pending
  rw [Registry.live_eq_cons hentry, Multiset.cons_bind]

/-- An entry is replaced by one that is in order. -/
theorem Ready.put (hw : w.Ready c) (hentry : entry.Sound c w.waitReplyTimer) :
    ({ w with cache := w.cache.put destination entry } : World Packet Address).Ready c := by
  refine ⟨fun a e he => ?_, hw.timer⟩
  by_cases ha : a = destination
  · subst ha
    rw [Registry.put_entry_self] at he
    exact Option.some.inj he ▸ hentry
  · rw [Registry.put_entry_of_ne ha] at he
    exact hw.entries a e he

theorem Ready.startWaitReplyTimer (hw : w.Ready c) : (w.startWaitReplyTimer c).Ready c := by
  cases htimer : w.waitReplyTimer with
  | some expiry =>
      have hsame : w.startWaitReplyTimer c = w := by
        unfold World.startWaitReplyTimer
        rw [htimer, Option.some_or, ← htimer]
      rw [hsame]
      exact hw
  | none =>
      unfold World.startWaitReplyTimer
      rw [htimer, Option.none_or]
      refine ⟨fun a e he => ?_, fun expiry hexpiry => ?_⟩
      · have hsound := hw.entries a e he
        refine ⟨hsound.retries_le, fun hwait => ?_, hsound.idle⟩
        obtain ⟨expiry, hexpiry, -⟩ := (hsound.waiting hwait).2
        rw [htimer] at hexpiry
        cases hexpiry
      · obtain rfl := Option.some.inj hexpiry
        exact ⟨Nat.le_add_right _ _, le_rfl⟩

theorem startWaitReplyTimer_isSome (w : World Packet Address) :
    ∃ expiry, (w.startWaitReplyTimer c).waitReplyTimer = some expiry := by
  unfold startWaitReplyTimer
  cases w.waitReplyTimer with
  | some expiry => exact ⟨expiry, rfl⟩
  | none => exact ⟨_, rfl⟩

/-- An entry that does not wait begins to wait with one packet. -/
theorem markWaitReply_spec (hw : w.Ready c) (destination : Ipv4Address) (packet : Packet)
    (hstate : entry.state ≠ .WAIT_REPLY) (hpending : entry.pending = [])
    (hretries : entry.retries = 0) :
    ∃ w', w.markWaitReply c destination entry packet = some w' ∧ w'.Ready c ∧
      w'.given = w.given ∧ w'.sent = w.sent ∧ w'.dropped = w.dropped ∧
        w'.pending = packet ::ₘ (w.cache.others destination).bind Entry.held := by
  obtain ⟨marked, hmarked⟩ : ∃ marked : Entry Packet Address,
    marked = { entry with state := .WAIT_REPLY, pending := [packet], lastSeen := w.now } := ⟨_, rfl⟩
  have hmark : entry.markWaitReply w.now packet = some marked := by
    unfold Entry.markWaitReply Entry.isAlive Entry.isDead
    rw [hpending, hmarked]
    cases hcase : entry.state with
    | WAIT_REPLY => exact absurd hcase hstate
    | ALIVE => rfl
    | DEAD => rfl
  have hstarted : (w.startWaitReplyTimer c).Ready c := hw.startWaitReplyTimer
  obtain ⟨expiry, hexpiry⟩ := startWaitReplyTimer_isSome (c := c) w
  have hsound : marked.Sound c (w.startWaitReplyTimer c).waitReplyTimer := by
    rw [hmarked]
    refine ⟨?_, fun _ => ⟨le_max_left _ _, expiry, hexpiry, ?_⟩, fun hidle => absurd rfl hidle⟩
    · change entry.retries ≤ c.maxRetries
      rw [hretries]
      exact UInt32.zero_le
    · exact (hstarted.timer expiry hexpiry).2
  refine ⟨{ w.startWaitReplyTimer c with cache := w.cache.put destination marked }, ?_,
    hstarted.put hsound, rfl, rfl, rfl, ?_⟩
  · unfold markWaitReply
    rw [hmark, Option.map_some]
    rfl
  · refine (pending_put w destination marked).trans ?_
    rw [hmarked]
    rfl

/-! ## Lookup -/

variable [Inhabited Address]

/-- An entry that awaits a reply takes the packet, unless its queue is full. -/
theorem lookup_waiting {entry : Entry Packet Address} {destination : Ipv4Address}
    (hw : w.Ready c) (hentry : w.cache.entry destination = some entry)
    (hstate : entry.state = .WAIT_REPLY) (packet : Packet) :
    ∃ w', w.lookup c packet destination = some (w', none) ∧ w'.Ready c ∧
      w'.given = w.given ∧ w'.sent = w.sent ∧
        w'.pending + w'.dropped = packet ::ₘ (w.pending + w.dropped) := by
  have hsound := hw.entries _ _ hentry
  have hdead : entry.isDead = false := by
    unfold Entry.isDead
    rw [hstate]
    rfl
  have halive : entry.isAlive = false := by
    unfold Entry.isAlive
    rw [hstate]
    rfl
  have hupdate : entry.updateWaitReply c packet =
      if c.pendingQueueSize.toNat ≤ entry.pending.length then some none
      else some (some { entry with pending := entry.pending ++ [packet] }) :=
    if_pos (decide_eq_true hstate)
  unfold lookup
  rw [hentry]
  dsimp only
  -- A waiting entry is not expired: it is treated as the state says.
  rw [hw.not_isExpired hentry hstate, hdead, halive, hupdate, if_neg Bool.false_ne_true,
    if_neg Bool.false_ne_true, if_neg Bool.false_ne_true]
  split
  next hfull =>
    refine ⟨w.dropTrace packet, rfl, ⟨hw.entries, hw.timer⟩, rfl, rfl, ?_⟩
    exact Multiset.add_cons packet w.pending w.dropped
  next hroom =>
    obtain ⟨hlength, hcovered⟩ := hsound.waiting hstate
    refine ⟨_, rfl, hw.put ⟨hsound.retries_le, fun _ => ⟨?_, hcovered⟩,
      fun hidle => absurd hstate hidle⟩, rfl, rfl, ?_⟩
    · rw [List.length_append, List.length_singleton]
      omega
    · rw [pending_put, pending_eq hentry]
      have hheld : Entry.held { entry with pending := entry.pending ++ [packet] } =
          packet ::ₘ entry.held := by
        unfold Entry.held
        rw [← Multiset.coe_add, Multiset.coe_singleton, add_comm, Multiset.singleton_add]
      rw [hheld, Multiset.cons_add, Multiset.cons_add]

/-- Any other entry holds no packet. An expired one starts to wait for a reply with the packet;
before that, a live one answers, and a dead one drops the packet. -/
theorem lookup_idle {entry : Entry Packet Address} {destination : Ipv4Address}
    (hw : w.Ready c) (hentry : w.cache.entry destination = some entry)
    (hstate : entry.state ≠ .WAIT_REPLY) (packet : Packet) :
    ∃ w' found, w.lookup c packet destination = some (w', found) ∧ w'.Ready c ∧
      w'.given = w.given ∧ w'.sent = w.sent ∧
        (found = none → w'.pending + w'.dropped = packet ::ₘ (w.pending + w.dropped)) ∧
          (found ≠ none → w' = w) := by
  obtain ⟨hpending, hretries⟩ := (hw.entries _ _ hentry).idle hstate
  have hheld : entry.held = 0 := by
    unfold Entry.held
    rw [hpending]
    rfl
  obtain ⟨w', hmark, hready, hgiven, hsent, hdropped, hmarked⟩ :=
    markWaitReply_spec hw destination packet hstate hpending hretries
  have hkept : w'.pending + w'.dropped = packet ::ₘ (w.pending + w.dropped) := by
    rw [hmarked, hdropped, pending_eq hentry, hheld, zero_add, Multiset.cons_add]
  unfold lookup
  rw [hentry]
  dsimp only
  rw [hmark, Option.map_some]
  cases hcase : entry.state with
  | WAIT_REPLY => exact absurd hcase hstate
  | DEAD =>
      unfold Entry.isDead
      simp only [hcase, decide_true, if_true]
      split
      next =>
        exact ⟨w', none, rfl, hready, hgiven, hsent, fun _ => hkept, fun h => absurd rfl h⟩
      next =>
        refine ⟨w.dropTrace packet, none, rfl, ⟨hw.entries, hw.timer⟩, rfl, rfl, fun _ => ?_,
          fun h => absurd rfl h⟩
        exact Multiset.add_cons packet w.pending w.dropped
  | ALIVE =>
      unfold Entry.isDead Entry.isAlive
      simp only [hcase, reduceCtorEq, decide_false, Bool.false_eq_true, if_false,
        decide_true, if_true]
      split
      next =>
        exact ⟨w', none, rfl, hready, hgiven, hsent, fun _ => hkept, fun h => absurd rfl h⟩
      next =>
        exact ⟨w, some entry.macAddress, rfl, hw, rfl, rfl, nofun, fun _ => rfl⟩

/-- What `Lookup` does with a packet: it finds the address and leaves everything as it is, or it
takes the packet. -/
theorem lookup_spec (hw : w.Ready c) (packet : Packet) (destination : Ipv4Address) :
    ∃ w' found, w.lookup c packet destination = some (w', found) ∧ w'.Ready c ∧
      w'.given = w.given ∧ w'.sent = w.sent ∧
        (found = none → w'.pending + w'.dropped = packet ::ₘ (w.pending + w.dropped)) ∧
          (found ≠ none → w' = w) := by
  cases hentry : w.cache.entry destination with
  | none =>
      obtain ⟨w', hmark, hready, hgiven, hsent, hdropped, hpending⟩ :=
        markWaitReply_spec (w := { w with cache := w.cache.put destination Entry.new })
          (hw.put ⟨UInt32.zero_le, nofun, fun _ => ⟨rfl, rfl⟩⟩) destination packet
          (show (Entry.new : Entry Packet Address).state ≠ .WAIT_REPLY from nofun) rfl rfl
      refine ⟨w', none, ?_, hready, hgiven, hsent, fun _ => ?_, fun h => absurd rfl h⟩
      · unfold lookup
        rw [hentry]
        dsimp only
        rw [hmark, Option.map_some]
      · rw [hpending, hdropped, Registry.put_others, Registry.others_of_none hentry,
          Multiset.cons_add]
        rfl
  | some entry =>
      by_cases hstate : entry.state = .WAIT_REPLY
      · obtain ⟨w', hlookup, hready, hgiven, hsent, hkept⟩ :=
          lookup_waiting hw hentry hstate packet
        exact ⟨w', none, hlookup, hready, hgiven, hsent, fun _ => hkept, fun h => absurd rfl h⟩
      · exact lookup_idle hw hentry hstate packet

theorem send_spec (hw : w.Ready c) (packet : Packet) (destination : Ipv4Address) :
    ∃ w', w.send c packet destination = some w' ∧ w'.Ready c ∧ w'.given = w.given ∧
      w'.kept = packet ::ₘ w.kept := by
  obtain ⟨w', found, hlookup, hready, hgiven, hsent, htaken, hfound⟩ :=
    lookup_spec hw packet destination
  unfold send kept
  rw [hlookup, Option.map_some]
  cases found with
  | none =>
      refine ⟨w', rfl, hready, hgiven, ?_⟩
      rw [hsent, add_right_comm, htaken rfl, add_right_comm, Multiset.cons_add]
  | some address =>
      obtain rfl := hfound (Option.some_ne_none address)
      refine ⟨_, rfl, ⟨hw.entries, hw.timer⟩, rfl, ?_⟩
      change w'.pending + (((packet, destination, address) ::ₘ w'.sent).map Prod.fst) +
        w'.dropped = _
      rw [Multiset.map_cons, Multiset.add_cons, Multiset.cons_add]

/-! ## Replies -/

theorem lookup_of_alive (hentry : w.cache.entry destination = some entry)
    (hstate : entry.state = .ALIVE) (hseen : entry.lastSeen = w.now) (packet : Packet) :
    w.lookup c packet destination = some (w, some entry.macAddress) := by
  have hexpired : entry.isExpired c w.now = false := by
    unfold Entry.isExpired
    rw [hseen, Nat.sub_self]
    exact decide_eq_false (Nat.not_lt_zero _)
  unfold lookup
  rw [hentry]
  dsimp only
  rw [hexpired]
  unfold Entry.isDead Entry.isAlive
  simp only [hstate, reduceCtorEq, decide_false, Bool.false_eq_true, if_false, decide_true, if_true]

/-- The pending packets of an entry that has just become alive are sent to its address. -/
theorem flush_spec {fuel : ℕ} (hentry : w.cache.entry destination = some entry)
    (hstate : entry.state = .ALIVE) (hseen : entry.lastSeen = w.now)
    (hfuel : entry.pending.length < fuel) :
    ∃ w', flush c destination fuel w = some w' ∧
      w'.cache.entry destination = some { entry with pending := [] } ∧
        (∀ a, a ≠ destination → w'.cache.entry a = w.cache.entry a) ∧
          w'.cache.others destination = w.cache.others destination ∧ w'.now = w.now ∧
            w'.waitReplyTimer = w.waitReplyTimer ∧ w'.given = w.given ∧ w'.dropped = w.dropped ∧
              w'.sent.map Prod.fst = entry.held + w.sent.map Prod.fst := by
  obtain ⟨fuel, rfl⟩ := Nat.exists_eq_succ_of_ne_zero (Nat.ne_of_gt (Nat.zero_lt_of_lt hfuel))
  obtain ⟨packets, hpackets⟩ : ∃ packets, entry.pending = packets := ⟨_, rfl⟩
  induction packets generalizing entry w fuel with
  | nil =>
      refine ⟨w, ?_, ?_, fun a _ => rfl, rfl, rfl, rfl, rfl, rfl, ?_⟩
      · rw [flush, hentry, Option.bind_some]
        split
        next => rfl
        next packet rest hcons => rw [hpackets] at hcons; cases hcons
      · rw [hentry, ← hpackets]
      · unfold Entry.held
        rw [hpackets, Multiset.coe_nil, zero_add]
  | cons packet rest ih =>
      -- The first packet is sent while the others are in the entry: `Send` finds it alive.
      obtain ⟨left, hleft⟩ : ∃ left : Entry Packet Address,
        left = { entry with pending := rest } := ⟨_, rfl⟩
      obtain ⟨w₁, hw₁⟩ : ∃ w₁ : World Packet Address,
        w₁ = { w with cache := w.cache.put destination left } := ⟨_, rfl⟩
      have hentry₁ : w₁.cache.entry destination = some left := by
        rw [hw₁]
        exact Registry.put_entry_self _ _ _
      have hstate₁ : left.state = .ALIVE := by rw [hleft]; exact hstate
      have hseen₁ : left.lastSeen = w₁.now := by rw [hleft, hw₁]; exact hseen
      have hrest : left.pending = rest := by rw [hleft]
      obtain ⟨w₂, hw₂⟩ : ∃ w₂ : World Packet Address,
        w₂ = { w₁ with sent := (packet, destination, left.macAddress) ::ₘ w₁.sent } := ⟨_, rfl⟩
      have hsend : w₁.send c packet destination = some w₂ := by
        unfold send
        rw [lookup_of_alive hentry₁ hstate₁ hseen₁, Option.map_some, hw₂]
      have hlength : rest.length < fuel := by
        rw [hpackets, List.length_cons] at hfuel
        omega
      obtain ⟨fuel, rfl⟩ := Nat.exists_eq_succ_of_ne_zero (Nat.ne_of_gt (Nat.zero_lt_of_lt hlength))
      obtain ⟨w', hflush, hself, hothers, hrestOthers, hnow, htimer, hgiven, hdropped, hsent⟩ :=
        ih (w := w₂) (by rw [hw₂]; exact hentry₁) hstate₁ (by rw [hw₂]; exact hseen₁) fuel
          (by rw [hrest]; exact hlength) hrest
      refine ⟨w', ?_, ?_, fun a ha => ?_, ?_, ?_, ?_, ?_, ?_, ?_⟩
      · rw [flush, hentry, Option.bind_some]
        split
        next hnil => rw [hpackets] at hnil; cases hnil
        next packet' rest' hcons =>
          obtain ⟨rfl, rfl⟩ := List.cons.inj (hpackets.symm.trans hcons)
          rw [← hleft, ← hw₁, hsend, Option.bind_some]
          exact hflush
      · rw [hself, hleft]
      · rw [hothers a ha, hw₂, hw₁]
        exact Registry.put_entry_of_ne ha left
      · rw [hrestOthers, hw₂, hw₁]
        exact Registry.put_others _ _ _
      · rw [hnow, hw₂, hw₁]
      · rw [htimer, hw₂, hw₁]
      · rw [hgiven, hw₂, hw₁]
      · rw [hdropped, hw₂, hw₁]
      · rw [hsent, hw₂, hw₁, Multiset.map_cons]
        unfold Entry.held
        rw [hrest, hpackets, Multiset.add_cons, ← Multiset.cons_coe, Multiset.cons_add]

/-- A reply moves the pending packets of a waiting entry to what is sent. -/
theorem receiveReply_spec (hw : w.Ready c) (arp : ArpHeader Address) :
    ∃ w', w.receiveReply c arp = some w' ∧ w'.Ready c ∧ w'.given = w.given ∧ w'.kept = w.kept := by
  unfold receiveReply
  cases hentry : w.cache.entry arp.sourceIpv4Address with
  | none => exact ⟨w, rfl, hw, rfl, rfl⟩
  | some entry =>
      dsimp only
      split
      next hwait =>
        obtain ⟨alive, halive⟩ : ∃ alive : Entry Packet Address,
          alive = { entry with
            macAddress := arp.sourceHardwareAddress
            state := .ALIVE
            retries := 0
            lastSeen := w.now } := ⟨_, rfl⟩
        have hmark : entry.markAlive w.now arp.sourceHardwareAddress = some alive := by
          unfold Entry.markAlive
          rw [if_pos hwait, halive]
        obtain ⟨w', hflush, hself, hothers, hrest, hnow, htimer, hgiven, hdropped, hsent⟩ :=
          flush_spec (c := c)
            (w := { w with cache := w.cache.put arp.sourceIpv4Address alive })
            (Registry.put_entry_self _ _ alive) (by rw [halive]) (by rw [halive])
            (Nat.lt_succ_self _)
        have hpending : w'.pending = (w.cache.others arp.sourceIpv4Address).bind Entry.held := by
          rw [pending_eq hself, hrest, Registry.put_others]
          exact zero_add _
        have hheld : alive.held = entry.held := by
          rw [halive]
          rfl
        refine ⟨w', ?_, ⟨fun a e he => ?_, ?_⟩, hgiven, ?_⟩
        · rw [hmark, Option.bind_some]
          exact hflush
        · rw [htimer]
          by_cases ha : a = arp.sourceIpv4Address
          · rw [ha, hself] at he
            obtain rfl := Option.some.inj he
            refine ⟨?_, fun hstate => ?_, fun _ => ⟨rfl, ?_⟩⟩
            · rw [halive]
              exact UInt32.zero_le
            · rw [halive] at hstate
              cases hstate
            · rw [halive]
          · rw [hothers a ha] at he
            exact hw.entries a e ((Registry.put_entry_of_ne ha alive).symm.trans he)
        · rw [htimer, hnow]
          exact hw.timer
        · unfold kept
          rw [hpending, hsent, hdropped, hheld, pending_eq hentry]
          dsimp only
          rw [← add_assoc, add_comm _ entry.held]
      next => exact ⟨w, rfl, hw, rfl, rfl⟩

variable [DecidableEq Address]

theorem receive_spec (hw : w.Ready c) (device : Address) (arp : ArpHeader Address)
    (addresses : List Ipv4Address) :
    ∃ w', w.receive c device arp addresses = some w' ∧ w'.Ready c ∧ w'.given = w.given ∧
      w'.kept = w.kept := by
  induction addresses with
  | nil => exact ⟨w, rfl, hw, rfl, rfl⟩
  | cons address rest ih =>
      rw [receive]
      split
      · exact ⟨w, rfl, hw, rfl, rfl⟩
      · split
        · exact receiveReply_spec hw arp
        · exact ih

/-! ## The address that is sent to -/

omit [Inhabited Address] [DecidableEq Address] in
/-- A live entry holds the address of the last reply that it waited for. -/
def Answered (w : World Packet Address) : Prop :=
  ∀ a entry, w.cache.entry a = some entry → entry.state = .ALIVE →
    w.answered a = some entry.macAddress

omit [Inhabited Address] [DecidableEq Address] in
/-- What is sent from one state to the other goes to the address that was answered last. -/
def SendsToAnswered (w next : World Packet Address) : Prop :=
  ∃ new, next.sent = new + w.sent ∧ ∀ s ∈ new, next.answered s.2.1 = some s.2.2

variable {w' : World Packet Address}

omit [Inhabited Address] [DecidableEq Address] in
theorem SendsToAnswered.of_sent_eq (h : w'.sent = w.sent) : w.SendsToAnswered w' :=
  ⟨0, by rw [h, zero_add], nofun⟩

omit [Inhabited Address] [DecidableEq Address] in
theorem Answered.put (h : w.Answered)
    (hentry : entry.state = .ALIVE → w.answered destination = some entry.macAddress) :
    ({ w with cache := w.cache.put destination entry } : World Packet Address).Answered := by
  intro a e he hstate
  by_cases ha : a = destination
  · subst ha
    rw [Registry.put_entry_self] at he
    obtain rfl := Option.some.inj he
    exact hentry hstate
  · rw [Registry.put_entry_of_ne ha] at he
    exact h a e he hstate

omit [Inhabited Address] [DecidableEq Address] in
/-- An entry that begins to wait needs no answer. -/
theorem answered_markWaitReply (h : ∀ a e, a ≠ destination → w.cache.entry a = some e →
      e.state = .ALIVE → w.answered a = some e.macAddress)
    (hmark : w.markWaitReply c destination entry packet = some w') :
    w'.Answered ∧ w'.answered = w.answered ∧ w'.sent = w.sent := by
  obtain ⟨marked, hentry, rfl⟩ := Option.map_eq_some_iff.mp hmark
  refine ⟨fun a e he hstate => ?_, rfl, rfl⟩
  change (w.cache.put destination marked).entry a = some e at he
  by_cases ha : a = destination
  · rw [ha, Registry.put_entry_self] at he
    obtain rfl := Option.some.inj he
    unfold Entry.markWaitReply at hentry
    split at hentry
    · obtain rfl := Option.some.inj hentry
      cases hstate
    · cases hentry
  · rw [Registry.put_entry_of_ne ha] at he
    exact h a e ha he hstate

omit [DecidableEq Address] in
/-- `Lookup` finds the address that was answered last, and sends nothing itself. -/
theorem Answered.lookup {found : Option Address} (h : w.Answered)
    (hlookup : w.lookup c packet destination = some (w', found)) :
    w'.Answered ∧ w'.answered = w.answered ∧ w'.sent = w.sent ∧
      ∀ address, found = some address → w.answered destination = some address := by
  have hmarked : ∀ {w₀ : World Packet Address} {entry : Entry Packet Address},
      (∀ a e, a ≠ destination → w₀.cache.entry a = some e → e.state = .ALIVE →
        w₀.answered a = some e.macAddress) → w₀.answered = w.answered → w₀.sent = w.sent →
      (w₀.markWaitReply c destination entry packet).map (·, none) = some (w', found) →
      w'.Answered ∧ w'.answered = w.answered ∧ w'.sent = w.sent ∧
        ∀ address, found = some address → w.answered destination = some address := by
    intro w₀ entry h₀ hanswered hsent hmap
    obtain ⟨next, hmark, hpair⟩ := Option.map_eq_some_iff.mp hmap
    obtain ⟨rfl, rfl⟩ := Prod.mk.inj hpair
    obtain ⟨hnext, hanswered', hsent'⟩ := answered_markWaitReply h₀ hmark
    exact ⟨hnext, hanswered'.trans hanswered, hsent'.trans hsent, nofun⟩
  unfold World.lookup at hlookup
  split at hlookup
  next entry hentry =>
    split at hlookup
    · split at hlookup
      · exact hmarked (fun a e _ => h a e) rfl rfl hlookup
      · split at hlookup
        · exact hmarked (fun a e _ => h a e) rfl rfl hlookup
        · cases hlookup
    · split at hlookup
      · obtain ⟨rfl, rfl⟩ := Prod.mk.inj (Option.some.inj hlookup)
        exact ⟨h, rfl, rfl, nofun⟩
      · split at hlookup
        next halive =>
          obtain ⟨rfl, rfl⟩ := Prod.mk.inj (Option.some.inj hlookup)
          refine ⟨h, rfl, rfl, fun address hfound => ?_⟩
          obtain rfl := Option.some.inj hfound
          exact h destination entry hentry (of_decide_eq_true halive)
        next halive =>
          obtain ⟨updated, hupdate, hpair⟩ := Option.map_eq_some_iff.mp hlookup
          cases updated with
          | none =>
              obtain ⟨rfl, rfl⟩ := Prod.mk.inj hpair
              exact ⟨h, rfl, rfl, nofun⟩
          | some waiting =>
              obtain ⟨rfl, rfl⟩ := Prod.mk.inj hpair
              refine ⟨h.put fun hstate => absurd ?_ halive, rfl, rfl, nofun⟩
              unfold Entry.updateWaitReply at hupdate
              split at hupdate
              · split at hupdate
                · cases hupdate
                · obtain rfl := Option.some.inj (Option.some.inj hupdate)
                  exact decide_eq_true hstate
              · cases hupdate
  next hnone =>
    refine hmarked ?_ ?_ ?_ hlookup
    · intro a e ha he hstate
      exact h a e ((Registry.put_entry_of_ne ha _).symm.trans he) hstate
    · rfl
    · rfl

omit [DecidableEq Address] in
theorem Answered.send (h : w.Answered) (hsend : w.send c packet destination = some w') :
    w'.Answered ∧ w'.answered = w.answered ∧ w.SendsToAnswered w' := by
  obtain ⟨⟨next, found⟩, hlookup, heq⟩ := Option.map_eq_some_iff.mp hsend
  obtain ⟨hnext, hanswered, hsent, hfound⟩ := h.lookup hlookup
  cases found with
  | none =>
      obtain rfl := heq
      exact ⟨hnext, hanswered, .of_sent_eq hsent⟩
  | some address =>
      obtain rfl := heq
      refine ⟨hnext, hanswered, {(packet, destination, address)}, ?_, ?_⟩
      · dsimp only
        rw [hsent, Multiset.singleton_add]
      · intro s hs
        rw [Multiset.mem_singleton.mp hs, hanswered]
        exact hfound address rfl

omit [Inhabited Address] [DecidableEq Address] in
theorem SendsToAnswered.trans {w₁ w₂ : World Packet Address} (h : w.SendsToAnswered w₁)
    (hanswered : w₂.answered = w₁.answered) (hnext : w₁.SendsToAnswered w₂) :
    w.SendsToAnswered w₂ := by
  obtain ⟨first, hfirst, hto⟩ := h
  obtain ⟨second, hsecond, hto'⟩ := hnext
  refine ⟨second + first, by rw [hsecond, hfirst, add_assoc], fun s hs => ?_⟩
  rcases Multiset.mem_add.mp hs with hs | hs
  · exact hto' s hs
  · rw [hanswered]
    exact hto s hs

omit [DecidableEq Address] in
/-- Every packet of the loop of `Receive` goes to the address that was answered last. -/
theorem Answered.flush {fuel : ℕ} (h : w.Answered)
    (hflush : World.flush c destination fuel w = some w') :
    w'.Answered ∧ w'.answered = w.answered ∧ w.SendsToAnswered w' := by
  induction fuel generalizing w with
  | zero => cases hflush
  | succ fuel ih =>
      rw [World.flush] at hflush
      obtain ⟨entry, hentry, hrest⟩ := Option.bind_eq_some_iff.mp hflush
      split at hrest
      next =>
        obtain rfl := Option.some.inj hrest
        exact ⟨h, rfl, .of_sent_eq rfl⟩
      next packet rest _ =>
        obtain ⟨w₁, hsend, hflush'⟩ := Option.bind_eq_some_iff.mp hrest
        have hput : ({ w with cache := w.cache.put destination { entry with pending := rest } } :
            World Packet Address).Answered := h.put (h destination entry hentry)
        obtain ⟨h₁, hanswered₁, hsends₁⟩ := hput.send hsend
        obtain ⟨h₂, hanswered₂, hsends₂⟩ := ih h₁ hflush'
        exact ⟨h₂, hanswered₂.trans hanswered₁, hsends₁.trans hanswered₂ hsends₂⟩

omit [DecidableEq Address] in
/-- The entry of a reply takes the address that was recorded for it. -/
theorem Answered.receiveReply (h : w.Answered) {arp : ArpHeader Address}
    (hanswer : (w.cache.entry arp.sourceIpv4Address).any Entry.isWaitReply = true →
      w.answered arp.sourceIpv4Address = some arp.sourceHardwareAddress)
    (hreply : w.receiveReply c arp = some w') :
    w'.Answered ∧ w'.answered = w.answered ∧ w.SendsToAnswered w' := by
  unfold World.receiveReply at hreply
  split at hreply
  next entry hentry =>
    split at hreply
    next hwait =>
      obtain ⟨alive, hmark, hflush⟩ := Option.bind_eq_some_iff.mp hreply
      unfold Entry.markAlive at hmark
      rw [if_pos hwait] at hmark
      obtain rfl := Option.some.inj hmark
      rw [hentry, Option.any_some] at hanswer
      exact (h.put fun _ => hanswer hwait).flush hflush
    next =>
      obtain rfl := Option.some.inj hreply
      exact ⟨h, rfl, .of_sent_eq rfl⟩
  next =>
    obtain rfl := Option.some.inj hreply
    exact ⟨h, rfl, .of_sent_eq rfl⟩

theorem Answered.receive (h : w.Answered) {device : Address} {arp : ArpHeader Address}
    {addresses : List Ipv4Address}
    (hanswer : arp.isReply = true → arp.destinationIpv4Address ∈ addresses →
      arp.destinationHardwareAddress = device →
        (w.cache.entry arp.sourceIpv4Address).any Entry.isWaitReply = true →
          w.answered arp.sourceIpv4Address = some arp.sourceHardwareAddress)
    (hreceive : w.receive c device arp addresses = some w') :
    w'.Answered ∧ w'.answered = w.answered ∧ w.SendsToAnswered w' := by
  induction addresses with
  | nil =>
      obtain rfl := Option.some.inj hreceive
      exact ⟨h, rfl, .of_sent_eq rfl⟩
  | cons address rest ih =>
      rw [World.receive] at hreceive
      split at hreceive
      next =>
        obtain rfl := Option.some.inj hreceive
        exact ⟨h, rfl, .of_sent_eq rfl⟩
      next =>
        split at hreceive
        next hreply =>
          simp only [Bool.and_eq_true, beq_iff_eq] at hreply
          obtain ⟨⟨htype, hdestination⟩, hdevice⟩ := hreply
          exact h.receiveReply (hanswer htype (by rw [hdestination]; exact List.mem_cons_self)
            hdevice) hreceive
        next =>
          exact ih (fun htype hmem => hanswer htype (List.mem_cons_of_mem _ hmem)) hreceive

omit [Inhabited Address] in
/-- The record of a frame disturbs no live entry. -/
theorem Answered.answers (h : w.Answered) (i : Interface Address) (arp : ArpHeader Address) :
    ({ w with answered := w.answers i arp } : World Packet Address).Answered := by
  intro a e he hstate
  change w.answers i arp a = _
  unfold World.answers
  split
  next hanswers =>
    by_cases ha : a = arp.sourceIpv4Address
    · obtain ⟨-, -, -, hwait⟩ := hanswers
      rw [← ha, show w.cache.entry a = some e from he, Option.any_some, Entry.isWaitReply,
        hstate] at hwait
      cases hwait
    · rw [Function.update_of_ne ha]
      exact h a e he hstate
  next => exact h a e he hstate

/-- Every event keeps the addresses of the live entries, and sends to them only. -/
theorem Answered.step (h : w.Answered) {i : Interface Address} {event : Event Packet Address}
    (hstep : w.step c i event = some w') : w'.Answered ∧ w.SendsToAnswered w' := by
  unfold World.step at hstep
  split at hstep
  next =>
    cases event with
    | send packet destination =>
        have hgiven : ({ w with given := packet ::ₘ w.given } : World Packet Address).Answered := h
        obtain ⟨h', -, hsends⟩ := hgiven.send hstep
        exact ⟨h', hsends⟩
    | receive arp =>
        obtain ⟨h', -, hsends⟩ := (h.answers i arp).receive (fun htype hmem hdevice hwait => by
          change w.answers i arp arp.sourceIpv4Address = _
          unfold World.answers
          rw [if_pos ⟨htype, hmem, hdevice, hwait⟩, Function.update_self]) hstep
        exact ⟨h', hsends⟩
    | waitReplyTimeout =>
        obtain rfl := Option.some.inj hstep
        refine ⟨fun a e he hstate => ?_, .of_sent_eq rfl⟩
        obtain ⟨entry, hentry, rfl⟩ := Option.map_eq_some_iff.mp he
        change w.answered a = _
        unfold Entry.handleWaitReplyTimeout at hstate ⊢
        split at hstate
        next hwait =>
          split at hstate
          next =>
            rw [show (entry.incrementRetries w.now).state = entry.state from rfl,
              of_decide_eq_true hwait] at hstate
            cases hstate
          next => cases hstate
        next hidle =>
          rw [if_neg hidle]
          exact h a entry hentry hstate
    | advance time =>
        obtain rfl := Option.some.inj hstep
        exact ⟨h, .of_sent_eq rfl⟩
  next => cases hstep

end World

/-! ## The timer -/

/-- The timer leaves an entry in order: one that still waits has been retried. -/
theorem Entry.Sound.handleWaitReplyTimeout {entry : Entry Packet Address} {timer : Option ℕ}
    (hsound : entry.Sound c timer) (now : ℕ) {restarted : Option ℕ}
    (hrestarted : entry.isRetried c = true → restarted = some (now + c.waitReplyTimeout)) :
    (entry.handleWaitReplyTimeout c now).Sound c restarted := by
  unfold Entry.handleWaitReplyTimeout
  split
  next hwait =>
    split
    next hretries =>
      have hstate : entry.state = .WAIT_REPLY := of_decide_eq_true hwait
      refine ⟨?_, fun _ => ⟨(hsound.waiting hstate).1, _, hrestarted ?_, le_rfl⟩,
        fun hidle => absurd hstate hidle⟩
      · have hlt := UInt32.lt_iff_toNat_lt.mp hretries
        have hmax := c.maxRetries.toNat_lt
        change entry.retries + 1 ≤ c.maxRetries
        rw [UInt32.le_iff_toNat_le, UInt32.toNat_add_of_lt (by change _ + 1 < _; omega)]
        exact hlt
      · unfold Entry.isRetried
        rw [hwait, decide_eq_true hretries]
        rfl
    next => exact ⟨UInt32.zero_le, nofun, fun _ => ⟨rfl, rfl⟩⟩
  next hidle =>
    have hstate : entry.state ≠ .WAIT_REPLY := fun h => hidle (decide_eq_true h)
    exact ⟨hsound.retries_le, fun h => absurd h hstate, hsound.idle⟩

/-- What an entry held is still held, or dropped. -/
theorem Entry.held_handleWaitReplyTimeout (entry : Entry Packet Address) (now : ℕ) :
    (entry.handleWaitReplyTimeout c now).held + ↑(entry.timedOut c) = entry.held := by
  unfold Entry.handleWaitReplyTimeout Entry.timedOut Entry.held
  cases hwait : entry.isWaitReply with
  | false => simp
  | true =>
      by_cases hretries : entry.retries < c.maxRetries
      · simp [hretries, Entry.incrementRetries]
      · simp [hretries]

namespace World

variable {w : World Packet Address}

theorem handleWaitReplyTimeout_spec (hw : w.Ready c) :
    ({ w with waitReplyTimer := none }.handleWaitReplyTimeout c).Ready c ∧
      ({ w with waitReplyTimer := none }.handleWaitReplyTimeout c).kept = w.kept := by
  refine ⟨⟨fun a e he => ?_, fun expiry hexpiry => ?_⟩, ?_⟩
  · obtain ⟨entry, hentry, rfl⟩ := Option.map_eq_some_iff.mp he
    refine (hw.entries a entry hentry).handleWaitReplyTimeout w.now fun hretried => if_pos ?_
    have hmem : entry ∈ w.cache.live := Registry.mem_live.mpr ⟨a, hentry⟩
    exact Nat.ne_of_gt (Multiset.countP_pos.mpr ⟨entry, hmem, hretried⟩)
  · unfold handleWaitReplyTimeout at hexpiry ⊢
    dsimp only at hexpiry ⊢
    split at hexpiry
    · obtain rfl := Option.some.inj hexpiry
      exact ⟨Nat.le_add_right _ _, le_rfl⟩
    · cases hexpiry
  · unfold kept pending handleWaitReplyTimeout
    dsimp only
    rw [Registry.map_live, Multiset.bind_map, add_add_add_comm, ← Multiset.bind_add, ← add_assoc]
    congr 2
    exact Multiset.bind_congr fun entry _ => entry.held_handleWaitReplyTimeout w.now

/-! ## Runs -/

variable [Inhabited Address] [DecidableEq Address]

/-- No entry waits without a timer or behind its time, no handler fails, the retries and the queues
are bounded, and every packet that was given to `Lookup` is sent, dropped or pending. -/
structure Resolves (c : ArpConfig) (i : Interface Address) (w : World Packet Address) : Prop where
  timer_pending : ∀ a entry, w.cache.entry a = some entry → entry.isWaitReply →
    w.waitReplyTimer.isSome
  not_isExpired : ∀ a entry, w.cache.entry a = some entry → entry.isWaitReply →
    entry.isExpired c w.now = false
  succeeds : ∀ event, w.Enabled event → (w.step c i event).isSome
  retries_le : ∀ a entry, w.cache.entry a = some entry → entry.retries ≤ c.maxRetries
  idle : ∀ a entry, w.cache.entry a = some entry → ¬ entry.isWaitReply → entry.pending = []
  pending_le : ∀ a entry, w.cache.entry a = some entry → entry.isWaitReply →
    entry.pending.length ≤ max 1 c.pendingQueueSize.toNat
  accounted : w.given = w.pending + w.sent.map Prod.fst + w.dropped

/-- An event that is enabled succeeds, and keeps the cache in order and the packets accounted. -/
theorem step_spec (hw : w.Ready c) (haccounted : w.given = w.kept) (i : Interface Address)
    {event : Event Packet Address} (henabled : w.Enabled event) :
    ∃ w', w.step c i event = some w' ∧ w'.Ready c ∧ w'.given = w'.kept := by
  unfold step
  rw [if_pos henabled]
  cases event with
  | send packet destination =>
      obtain ⟨w', hsend, hready, hgiven, hkept⟩ :=
        send_spec (w := { w with given := packet ::ₘ w.given }) ⟨hw.entries, hw.timer⟩ packet
          destination
      refine ⟨w', hsend, hready, hgiven.trans ?_⟩
      rw [hkept]
      exact congrArg (packet ::ₘ ·) haccounted
  | receive arp =>
      obtain ⟨w', hreceive, hready, hgiven, hkept⟩ :=
        receive_spec (w := { w with answered := w.answers i arp }) ⟨hw.entries, hw.timer⟩ i.device
          arp i.addresses
      exact ⟨w', hreceive, hready, hgiven.trans (haccounted.trans hkept.symm)⟩
  | waitReplyTimeout =>
      obtain ⟨hready, hkept⟩ := handleWaitReplyTimeout_spec hw
      exact ⟨_, rfl, hready, haccounted.trans hkept.symm⟩
  | advance time =>
      refine ⟨_, rfl, ⟨hw.entries, fun expiry hexpiry => ⟨henabled.2 expiry hexpiry, ?_⟩⟩,
        haccounted⟩
      exact (hw.timer expiry hexpiry).2.trans (Nat.add_le_add_right henabled.1 _)

/-- ARP resolution neither wedges nor loses packets, in every run, and it sends every packet to
the address in the last reply that an entry of its destination waited for. -/
theorem arp_resolves (c : ArpConfig) (i : Interface Address) (now : ℕ)
    (events : List (Event Packet Address)) :
    StepSystem.Throughout (fun w event => World.step c w i event) (Resolves c i) (start now)
        events ∧
      StepSystem.EachStep (fun w event => World.step c w i event)
        (fun w _ next => w.SendsToAnswered next) (start now) events := by
  have hkeep : ∀ (w : World Packet Address) event next, (w.Ready c ∧ w.given = w.kept) →
      w.step c i event = some next → next.Ready c ∧ next.given = next.kept := by
    rintro w event next ⟨hw, haccounted⟩ hstep
    have henabled : w.Enabled event := by
      by_contra hdisabled
      unfold step at hstep
      rw [if_neg hdisabled] at hstep
      cases hstep
    obtain ⟨w', hstep', hready, hkept⟩ := step_spec hw haccounted i henabled
    obtain rfl := Option.some.inj (hstep.symm.trans hstep')
    exact ⟨hready, hkept⟩
  obtain ⟨w₀, hw₀⟩ : ∃ w₀ : World Packet Address, w₀ = start now := ⟨_, rfl⟩
  have hstart : w₀.Ready c ∧ w₀.given = w₀.kept := by
    rw [hw₀]
    exact ⟨ready_start c now, rfl⟩
  have hanswered : w₀.Answered := by
    rw [hw₀]
    intro a entry hentry
    cases hentry
  rw [← hw₀]
  refine ⟨?_, fun done event rest w next heq hrun hstep => ?_⟩
  case refine_2 =>
    refine (Answered.step ?_ hstep).2
    exact StepSystem.throughout_of_invariant (fun w event next h hstep => (Answered.step h hstep).1)
      hanswered events done (event :: rest) w heq hrun
  refine (StepSystem.throughout_of_invariant hkeep hstart events).mono ?_
  rintro w ⟨hw, haccounted⟩
  constructor
  case timer_pending =>
    intro a entry hentry hwait
    obtain ⟨expiry, hexpiry, -⟩ := ((hw.entries a entry hentry).waiting (of_decide_eq_true hwait)).2
    exact Option.isSome_iff_exists.mpr ⟨expiry, hexpiry⟩
  case not_isExpired =>
    exact fun a entry hentry hwait => hw.not_isExpired hentry (of_decide_eq_true hwait)
  case succeeds =>
    intro event henabled
    obtain ⟨w', hstep, -⟩ := step_spec hw haccounted i henabled
    exact Option.isSome_iff_exists.mpr ⟨w', hstep⟩
  case retries_le => exact fun a entry hentry => (hw.entries a entry hentry).retries_le
  case idle =>
    intro a entry hentry hidle
    exact ((hw.entries a entry hentry).idle fun hstate => hidle (decide_eq_true hstate)).1
  case pending_le =>
    exact fun a entry hentry hwait =>
      ((hw.entries a entry hentry).waiting (of_decide_eq_true hwait)).1
  case accounted => exact haccounted

end World

end Ns3Rdma.Arp
