import Mathlib.Data.Multiset.Bind
import Mathlib.Data.UInt
import Ns3Rdma.Lib.Registry

/-!
# The ARP cache

Entries, the timer that they share, and what `Lookup`, a received ARP frame and the timer do with
them. A handler is undefined where an assertion fails or the program gives up. ARP frames that are
sent do not touch the cache and are not recorded.
-/

namespace Ns3Rdma.Arp

/-- The attributes of a cache. Times are not negative. -/
structure ArpConfig where
  aliveTimeout : ℕ
  deadTimeout : ℕ
  waitReplyTimeout : ℕ
  maxRetries : UInt32
  pendingQueueSize : UInt32

abbrev Ipv4Address := UInt32

/-! ## Entries -/

inductive ArpCacheEntryState
  | ALIVE | WAIT_REPLY | DEAD
deriving DecidableEq

variable {Packet Address : Type}

structure Entry (Packet Address : Type) where
  state : ArpCacheEntryState
  lastSeen : ℕ
  macAddress : Address
  pending : List Packet
  retries : UInt32

namespace Entry

variable (c : ArpConfig) (now : ℕ) (entry : Entry Packet Address)

/-- A new entry, which `Lookup` marks at once. -/
def new [Inhabited Address] : Entry Packet Address := ⟨.ALIVE, 0, default, [], 0⟩

def isDead : Bool := entry.state = .DEAD

def isAlive : Bool := entry.state = .ALIVE

def isWaitReply : Bool := entry.state = .WAIT_REPLY

def getTimeout : ℕ :=
  match entry.state with
  | .WAIT_REPLY => c.waitReplyTimeout
  | .DEAD => c.deadTimeout
  | .ALIVE => c.aliveTimeout

def isExpired : Bool := entry.getTimeout c < now - entry.lastSeen

def markDead : Entry Packet Address :=
  { entry with state := .DEAD, retries := 0, lastSeen := now }

def markAlive (macAddress : Address) : Option (Entry Packet Address) :=
  if entry.isWaitReply then
    some { entry with macAddress := macAddress, state := .ALIVE, retries := 0, lastSeen := now }
  else none

/-- `none` for a failed assertion, `some none` for a queue that is full. -/
def updateWaitReply (waiting : Packet) : Option (Option (Entry Packet Address)) :=
  if entry.isWaitReply then
    if c.pendingQueueSize.toNat ≤ entry.pending.length then some none
    else some (some { entry with pending := entry.pending ++ [waiting] })
  else none

def markWaitReply (waiting : Packet) : Option (Entry Packet Address) :=
  if (entry.isAlive || entry.isDead) && entry.pending.isEmpty then
    some { entry with state := .WAIT_REPLY, pending := [waiting], lastSeen := now }
  else none

def incrementRetries : Entry Packet Address :=
  { entry with retries := entry.retries + 1, lastSeen := now }

/-- What the timer does with an entry. -/
def handleWaitReplyTimeout : Entry Packet Address :=
  if entry.isWaitReply then
    if entry.retries < c.maxRetries then entry.incrementRetries now
    else { entry.markDead now with pending := [] }
  else entry

/-- The packets that the timer drops with an entry. -/
def timedOut : List Packet :=
  if entry.isWaitReply && !decide (entry.retries < c.maxRetries) then entry.pending else []

/-- The timer sends another request for an entry. -/
def isRetried : Bool := entry.isWaitReply && decide (entry.retries < c.maxRetries)

end Entry

/-! ## The cache of an interface -/

/-- The time, a cache and its timer. What was given to `Lookup`, what was sent to which address, and
what was dropped is recorded, and the address in the last reply that an entry waited for. -/
structure World (Packet Address : Type) where
  now : ℕ
  cache : Registry Ipv4Address (Entry Packet Address)
  waitReplyTimer : Option ℕ
  given : Multiset Packet
  sent : Multiset (Packet × Ipv4Address × Address)
  dropped : Multiset Packet
  answered : Ipv4Address → Option Address

/-- The local addresses of an interface and the address of its device. -/
structure Interface (Address : Type) where
  addresses : List Ipv4Address
  device : Address

structure ArpHeader (Address : Type) where
  type : UInt16
  sourceHardwareAddress : Address
  sourceIpv4Address : Ipv4Address
  destinationHardwareAddress : Address
  destinationIpv4Address : Ipv4Address

namespace ArpHeader

def isRequest (arp : ArpHeader Address) : Bool := arp.type = 1

def isReply (arp : ArpHeader Address) : Bool := arp.type = 2

end ArpHeader

namespace World

variable (c : ArpConfig) (w : World Packet Address)

def start (now : ℕ) : World Packet Address := ⟨now, .empty, none, 0, 0, 0, fun _ => none⟩

def dropTrace (packet : Packet) : World Packet Address :=
  { w with dropped := packet ::ₘ w.dropped }

def startWaitReplyTimer : World Packet Address :=
  { w with waitReplyTimer := w.waitReplyTimer.or (some (w.now + c.waitReplyTimeout)) }

/-- `MarkWaitReply` of an entry of the cache. -/
def markWaitReply (destination : Ipv4Address) (entry : Entry Packet Address) (waiting : Packet) :
    Option (World Packet Address) :=
  (entry.markWaitReply w.now waiting).map fun entry =>
    startWaitReplyTimer c { w with cache := w.cache.put destination entry }

/-- The address that `Lookup` finds, if any. -/
def lookup [Inhabited Address] (packet : Packet) (destination : Ipv4Address) :
    Option (World Packet Address × Option Address) :=
  match w.cache.entry destination with
  | some entry =>
      if entry.isExpired c w.now then
        if entry.isDead then (w.markWaitReply c destination entry packet).map (·, none)
        else if entry.isAlive then (w.markWaitReply c destination entry packet).map (·, none)
        else none
      else if entry.isDead then some (w.dropTrace packet, none)
      else if entry.isAlive then some (w, some entry.macAddress)
      else
        (entry.updateWaitReply c packet).map fun
          | some entry => ({ w with cache := w.cache.put destination entry }, none)
          | none => (w.dropTrace packet, none)
  | none =>
      ({ w with cache := w.cache.put destination .new }.markWaitReply c destination .new packet).map
        (·, none)

/-- `Ipv4Interface::Send` to an address for which it asks `Lookup`. -/
def send [Inhabited Address] (packet : Packet) (destination : Ipv4Address) :
    Option (World Packet Address) :=
  (w.lookup c packet destination).map fun
    | (w, some address) => { w with sent := (packet, destination, address) ::ₘ w.sent }
    | (w, none) => w

/-- The loop of `Receive` over the pending packets of an entry. -/
def flush [Inhabited Address] (destination : Ipv4Address) :
    ℕ → World Packet Address → Option (World Packet Address)
  | 0, _ => none
  | fuel + 1, w =>
      (w.cache.entry destination).bind fun entry =>
        match entry.pending with
        | [] => some w
        | packet :: rest =>
            (send c { w with cache := w.cache.put destination { entry with pending := rest } }
              packet destination).bind (flush destination fuel)

/-- A reply to a request of this interface. -/
def receiveReply [Inhabited Address] (arp : ArpHeader Address) : Option (World Packet Address) :=
  match w.cache.entry arp.sourceIpv4Address with
  | some entry =>
      if entry.isWaitReply then
        (entry.markAlive w.now arp.sourceHardwareAddress).bind fun entry =>
          flush c arp.sourceIpv4Address (entry.pending.length + 1)
            { w with cache := w.cache.put arp.sourceIpv4Address entry }
      else some w
  | none => some w

variable [DecidableEq Address]

/-- The loop of `Receive` over the addresses of the interface. -/
def receive [Inhabited Address] (device : Address) (arp : ArpHeader Address) :
    List Ipv4Address → Option (World Packet Address)
  | [] => some w
  | address :: rest =>
      if arp.isRequest && arp.destinationIpv4Address == address then some w
      else if arp.isReply && arp.destinationIpv4Address == address &&
          arp.destinationHardwareAddress == device then w.receiveReply c arp
      else receive device arp rest

/-- The record after a frame: a reply to one of the addresses at the device answers for its
source, if the entry of the source waits. -/
def answers (i : Interface Address) (arp : ArpHeader Address) : Ipv4Address → Option Address :=
  if arp.isReply ∧ arp.destinationIpv4Address ∈ i.addresses ∧
      arp.destinationHardwareAddress = i.device ∧
        (w.cache.entry arp.sourceIpv4Address).any Entry.isWaitReply then
    Function.update w.answered arp.sourceIpv4Address (some arp.sourceHardwareAddress)
  else w.answered

omit [DecidableEq Address] in
/-- Every entry is handled by itself. The timer restarts if a request was sent again. -/
def handleWaitReplyTimeout : World Packet Address :=
  { w with
    cache := w.cache.map (Entry.handleWaitReplyTimeout c w.now)
    waitReplyTimer :=
      if w.cache.live.countP (fun entry => entry.isRetried c) ≠ 0 then
        some (w.now + c.waitReplyTimeout)
      else none
    dropped := (w.cache.live.bind fun entry => ↑(entry.timedOut c)) + w.dropped }

/-! ## Events -/

/-- `send` is a packet for which `Lookup` is called; `receive` an ARP frame. -/
inductive Event (Packet Address : Type) where
  | send (packet : Packet) (destination : Ipv4Address)
  | receive (arp : ArpHeader Address)
  | waitReplyTimeout
  | advance (time : ℕ)

omit [DecidableEq Address] in
/-- The timer expires when it is due, and time stops at it. -/
def Enabled : Event Packet Address → Prop
  | .send _ _ | .receive _ => True
  | .waitReplyTimeout => ∃ time ∈ w.waitReplyTimer, time ≤ w.now
  | .advance time => w.now ≤ time ∧ ∀ expiry ∈ w.waitReplyTimer, time ≤ expiry

instance : (event : Event Packet Address) → Decidable (w.Enabled event)
  | .send _ _ | .receive _ => inferInstanceAs (Decidable True)
  | .waitReplyTimeout => inferInstanceAs (Decidable (∃ time ∈ w.waitReplyTimer, time ≤ w.now))
  | .advance time =>
      inferInstanceAs (Decidable (w.now ≤ time ∧ ∀ expiry ∈ w.waitReplyTimer, time ≤ expiry))

def step [Inhabited Address] (i : Interface Address) (event : Event Packet Address) :
    Option (World Packet Address) :=
  if w.Enabled event then
    match event with
    | .send packet destination =>
        send c { w with given := packet ::ₘ w.given } packet destination
    | .receive arp => { w with answered := w.answers i arp }.receive c i.device arp i.addresses
    | .waitReplyTimeout => some (handleWaitReplyTimeout c { w with waitReplyTimer := none })
    | .advance time => some { w with now := time }
  else none

end World

end Ns3Rdma.Arp
