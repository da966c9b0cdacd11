import Mathlib.Data.UInt
import Mathlib.Data.Int.Order.Basic
import Mathlib.Logic.Function.Basic

/-!
# The routing table of an AODV node

The entries of the table, and what the handlers of the four message types do with them. Precursor
lists, counters of requests and the messages that are sent do not decide on an entry and are left
out, and the interfaces of the node stay up. Times are absolute, and the answer of the cache of
request identifiers is given with a request.
-/

namespace Ns3Rdma.Aodv

abbrev Ipv4Address := UInt32

inductive RouteFlags
  | VALID | INVALID | IN_SEARCH
deriving DecidableEq

structure RoutingTableEntry where
  validSeqNo : Bool
  seqNo : UInt32
  hops : UInt16
  nextHop : Ipv4Address
  outputDevice : ℕ
  lifeTime : ℤ
  flag : RouteFlags
  blackListState : Bool
deriving DecidableEq

/-- The attributes of a node and its own addresses. -/
structure AodvConfig where
  activeRouteTimeout : ℕ
  badLinkLifetime : ℕ
  netTraversalTime : ℤ
  nodeTraversalTime : ℤ
  /-- `AllowedHelloLoss * HelloInterval`. -/
  helloLifeTime : ℤ
  isMyOwnAddress : Ipv4Address → Bool

abbrev RoutingTable := Ipv4Address → Option RoutingTableEntry

namespace RoutingTableEntry

/-- An entry as constructed. -/
def new (outputDevice : ℕ) (validSeqNo : Bool) (seqNo : UInt32) (hops : UInt16)
    (nextHop : Ipv4Address) (lifeTime : ℤ) : RoutingTableEntry where
  validSeqNo := validSeqNo
  seqNo := seqNo
  hops := hops
  nextHop := nextHop
  outputDevice := outputDevice
  lifeTime := lifeTime
  flag := .VALID
  blackListState := false

def invalidate (e : RoutingTableEntry) (lifeTime : ℤ) : RoutingTableEntry :=
  if e.flag = .INVALID then e else { e with flag := .INVALID, lifeTime := lifeTime }

/-- What `Purge` leaves of an entry. -/
def purge (c : AodvConfig) (now : ℤ) (e : RoutingTableEntry) : Option RoutingTableEntry :=
  if e.lifeTime < now then
    match e.flag with
    | .INVALID => none
    | .VALID => some (e.invalidate (c.badLinkLifetime + now))
    | .IN_SEARCH => some e
  else some e

end RoutingTableEntry

/-! ## The table -/

namespace RoutingTable

variable (c : AodvConfig) (now : ℤ) (t : RoutingTable)

def purge : RoutingTable := fun id => (t id).bind (RoutingTableEntry.purge c now)

/-- The table is purged, and then it is looked up. -/
def lookupRoute (id : Ipv4Address) : RoutingTable × Option RoutingTableEntry :=
  (purge c now t, purge c now t id)

/-- An entry that exists is replaced. -/
def update (id : Ipv4Address) (e : RoutingTableEntry) : RoutingTable :=
  if (t id).isSome then Function.update t id (some e) else t

/-- An entry that exists is kept. -/
def addRoute (id : Ipv4Address) (e : RoutingTableEntry) : RoutingTable :=
  if (purge c now t id).isSome then purge c now t
  else Function.update (purge c now t) id (some e)

def deleteRoute (id : Ipv4Address) : RoutingTable := Function.update (purge c now t) id none

/-- `InvalidateRoutesWithDst`. -/
def invalidateRoutesWithDst (unreachable : Ipv4Address → Bool) : RoutingTable := fun id =>
  (purge c now t id).map fun e =>
    if unreachable id ∧ e.flag = .VALID then e.invalidate (c.badLinkLifetime + now) else e

def markLinkAsUnidirectional (neighbor : Ipv4Address) : RoutingTable := fun id =>
  (t id).map fun e => if id = neighbor then { e with blackListState := true } else e

end RoutingTable

/-! ## Messages -/

structure RreqHeader where
  hopCount : UInt8
  origin : Ipv4Address
  originSeqno : UInt32

structure RrepHeader where
  hopCount : UInt8
  dst : Ipv4Address
  dstSeqno : UInt32
  origin : Ipv4Address
  lifeTime : ℕ

inductive Message where
  | rreq (h : RreqHeader) (duplicate : Bool)
  | rrep (h : RrepHeader)
  | rerr (unreachable : Ipv4Address → Bool)
  | rrepAck

/-- The difference of two sequence numbers as a signed number. -/
def seqDiff (a b : UInt32) : ℤ := (a - b).toInt32.toInt

/-! ## The handlers -/

namespace RoutingTable

variable (c : AodvConfig) (now : ℤ) (t : RoutingTable)

/-- An entry that may stay when its destination is heard over a device. -/
def keepsNeighbor (toNeighbor : RoutingTableEntry) (dev : ℕ) : Bool :=
  toNeighbor.validSeqNo && toNeighbor.hops = 1 && toNeighbor.outputDevice = dev

/-- The longer lifetime of an entry that stays is set on a copy only. -/
def updateRouteToNeighbor (sender : Ipv4Address) (dev : ℕ) : RoutingTable :=
  match lookupRoute c now t sender with
  | (t, none) =>
      addRoute c now t sender (.new dev false 0 1 sender (c.activeRouteTimeout + now))
  | (t, some toNeighbor) =>
      if keepsNeighbor toNeighbor dev then t
      else update t sender (.new dev false 0 1 sender
        (max (c.activeRouteTimeout : ℤ) (toNeighbor.lifeTime - now) + now))

/-- The reverse route after a request from `src` with `hop` hops. -/
def reverseRoute (toOrigin : RoutingTableEntry) (h : RreqHeader) (hop : UInt8) (src : Ipv4Address)
    (dev : ℕ) : RoutingTableEntry :=
  { toOrigin with
    seqNo :=
      if toOrigin.validSeqNo then
        if 0 < seqDiff h.originSeqno toOrigin.seqNo then h.originSeqno else toOrigin.seqNo
      else h.originSeqno
    validSeqNo := true
    nextHop := src
    outputDevice := dev
    hops := hop.toUInt16
    lifeTime := max (2 * c.netTraversalTime - 2 * hop.toNat * c.nodeTraversalTime)
      (toOrigin.lifeTime - now) + now }

/-- `RecvRequest`. What follows the update looks routes up and writes them back. -/
def recvRequest (h : RreqHeader) (duplicate : Bool) (src : Ipv4Address) (dev : ℕ) : RoutingTable :=
  match lookupRoute c now t src with
  | (t, toPrev) =>
      if (toPrev.map RoutingTableEntry.blackListState).getD false || duplicate then t
      else
        let hop := h.hopCount + 1
        match lookupRoute c now t h.origin with
        | (t, none) => purge c now (addRoute c now t h.origin (.new dev true h.originSeqno
            hop.toUInt16 src (2 * c.netTraversalTime - 2 * hop.toNat * c.nodeTraversalTime + now)))
        | (t, some toOrigin) =>
            purge c now (update t h.origin (reverseRoute c now toOrigin h hop src dev))

def processHello (h : RrepHeader) (dev : ℕ) : RoutingTable :=
  match lookupRoute c now t h.dst with
  | (t, none) =>
      addRoute c now t h.dst (.new dev true h.dstSeqno 1 h.dst (h.lifeTime + now))
  | (t, some toNeighbor) => update t h.dst { toNeighbor with
      lifeTime := max c.helloLifeTime (toNeighbor.lifeTime - now) + now
      seqNo := h.dstSeqno
      validSeqNo := true
      flag := .VALID
      outputDevice := dev }

/-- The four circumstances under which a reply updates an entry. -/
def replyUpdates (toDst : RoutingTableEntry) (h : RrepHeader) (hop : UInt8) : Bool :=
  !toDst.validSeqNo || decide (0 < seqDiff h.dstSeqno toDst.seqNo) ||
    decide (h.dstSeqno = toDst.seqNo) &&
      (decide (toDst.flag ≠ .VALID) || decide (hop.toUInt16 < toDst.hops))

/-- The entry for the destination after a reply. -/
def forwardRoute (h : RrepHeader) (hop : UInt8) (sender : Ipv4Address) (dev : ℕ) :
    RoutingTable :=
  let newEntry := RoutingTableEntry.new dev true h.dstSeqno hop.toUInt16 sender (h.lifeTime + now)
  match lookupRoute c now t h.dst with
  | (t, none) => addRoute c now t h.dst newEntry
  | (t, some toDst) =>
      let t := if replyUpdates toDst h hop then update t h.dst newEntry else t
      if c.isMyOwnAddress h.origin && decide (toDst.flag = .IN_SEARCH) then
        update t h.dst newEntry
      else t

/-- The entry for the originator of the request that is answered stays active. -/
def refreshOrigin (h : RrepHeader) : RoutingTable :=
  if c.isMyOwnAddress h.origin then purge c now t
  else
    match lookupRoute c now t h.origin with
    | (t, none) => t
    | (t, some toOrigin) =>
        if toOrigin.flag = .IN_SEARCH then t
        else purge c now (update t h.origin { toOrigin with
          lifeTime := max (c.activeRouteTimeout : ℤ) (toOrigin.lifeTime - now) + now })

def recvReply (h : RrepHeader) (sender : Ipv4Address) (dev : ℕ) : RoutingTable :=
  if h.dst = h.origin then processHello c now t h dev
  else refreshOrigin c now (forwardRoute c now t h (h.hopCount + 1) sender dev) h

/-- Destinations of the message whose next hop is its sender become unreachable. -/
def recvError (unreachable : Ipv4Address → Bool) (src : Ipv4Address) : RoutingTable :=
  invalidateRoutesWithDst c now t fun id =>
    unreachable id && (purge c now t id).any fun e => e.nextHop = src

def recvReplyAck (neighbor : Ipv4Address) : RoutingTable :=
  match lookupRoute c now t neighbor with
  | (t, none) => t
  | (t, some rt) => update t neighbor { rt with flag := .VALID }

/-- `RecvAodv`: first the sender is noted as a neighbour. -/
def recvAodv (msg : Message) (sender : Ipv4Address) (dev : ℕ) : RoutingTable :=
  let t := updateRouteToNeighbor c now t sender dev
  match msg with
  | .rreq h duplicate => recvRequest c now t h duplicate sender dev
  | .rrep h => recvReply c now t h sender dev
  | .rerr unreachable => recvError c now t unreachable sender
  | .rrepAck => recvReplyAck c now t sender

/-- The part of `SendRequest` that marks the destination. -/
def sendRequest (dst : Ipv4Address) : RoutingTable :=
  match lookupRoute c now t dst with
  | (t, none) => addRoute c now t dst { RoutingTableEntry.new 0 false 0 0 0x66666666 now with
      flag := .IN_SEARCH }
  | (t, some rt) => update t dst { rt with flag := .IN_SEARCH }

def updateRouteLifeTime (addr : Ipv4Address) (lifetime : ℤ) : RoutingTable :=
  match lookupRoute c now t addr with
  | (t, none) => t
  | (t, some rt) =>
      if rt.flag = .VALID then
        update t addr { rt with lifeTime := max lifetime (rt.lifeTime - now) + now }
      else t

/-- `SendRerrWhenBreaksLinkToNextHop`. -/
def breakLink (nextHop : Ipv4Address) : RoutingTable :=
  match lookupRoute c now t nextHop with
  | (t, none) => t
  | (t, some _) => invalidateRoutesWithDst c now t fun id =>
      id = nextHop || (purge c now t id).any fun e => e.nextHop = nextHop

end RoutingTable

end Ns3Rdma.Aodv
