import Mathlib.Data.UInt
import Mathlib.Data.Finset.Insert

/-!
# The state of an OLSR node

The tuples of the information repositories and the functions of the state that processing a TC
message and computing the multipoint relays call. A vector is a list, a set is a finite set, and
a pointer to the first match is the match itself.
-/

namespace Ns3Rdma.Olsr

abbrev Ipv4Address := UInt32

structure LinkTuple where
  neighborIfaceAddr : Ipv4Address
  symTime : ℕ

inductive Status
  | NOT_SYM | SYM
deriving DecidableEq

structure NeighborTuple where
  neighborMainAddr : Ipv4Address
  status : Status
  willingness : UInt8
deriving DecidableEq

structure TwoHopNeighborTuple where
  neighborMainAddr : Ipv4Address
  twoHopNeighborAddr : Ipv4Address
deriving DecidableEq

structure TopologyTuple where
  destAddr : Ipv4Address
  lastAddr : Ipv4Address
  sequenceNumber : UInt16
  expirationTime : ℕ
deriving DecidableEq

/-- Whether `operator ==` takes two tuples for one. -/
def TopologyTuple.same (a b : TopologyTuple) : Bool :=
  a.destAddr = b.destAddr ∧ a.lastAddr = b.lastAddr ∧ a.sequenceNumber = b.sequenceNumber

structure OlsrState where
  linkSet : List LinkTuple
  neighborSet : List NeighborTuple
  twoHopNeighborSet : List TwoHopNeighborTuple
  topologySet : List TopologyTuple
  mprSet : Finset Ipv4Address

namespace OlsrState

variable (s : OlsrState)

/-- Only the first link of the interface is looked at. -/
def findSymLinkTuple (ifaceAddr : Ipv4Address) (now : ℕ) : Option LinkTuple :=
  match s.linkSet.find? (fun it => it.neighborIfaceAddr = ifaceAddr) with
  | some it => if now < it.symTime then some it else none
  | none => none

def findNeighborTuple (mainAddr : Ipv4Address) : Option NeighborTuple :=
  s.neighborSet.find? fun it => it.neighborMainAddr = mainAddr

/-! ## Topology set -/

def findTopologyTuple (destAddr lastAddr : Ipv4Address) : Option TopologyTuple :=
  s.topologySet.find? fun it => it.destAddr = destAddr ∧ it.lastAddr = lastAddr

def findNewerTopologyTuple (lastAddr : Ipv4Address) (ansn : UInt16) : Option TopologyTuple :=
  s.topologySet.find? fun it => it.lastAddr = lastAddr ∧ ansn < it.sequenceNumber

def eraseTopologyTuple (tuple : TopologyTuple) : OlsrState :=
  { s with topologySet := s.topologySet.eraseP fun it => it.same tuple }

def eraseOlderTopologyTuples (lastAddr : Ipv4Address) (ansn : UInt16) : OlsrState :=
  { s with topologySet := s.topologySet.filter fun it =>
      ¬ (it.lastAddr = lastAddr ∧ it.sequenceNumber < ansn) }

def insertTopologyTuple (tuple : TopologyTuple) : OlsrState :=
  { s with topologySet := s.topologySet ++ [tuple] }

/-- Assign `expirationTime` through the pointer that `FindTopologyTuple` returns. -/
def prolong (destAddr lastAddr : Ipv4Address) (expirationTime : ℕ) :
    List TopologyTuple → List TopologyTuple
  | [] => []
  | it :: rest =>
      if it.destAddr = destAddr ∧ it.lastAddr = lastAddr then
        { it with expirationTime := expirationTime } :: rest
      else it :: prolong destAddr lastAddr expirationTime rest

def prolongTopologyTuple (destAddr lastAddr : Ipv4Address) (expirationTime : ℕ) : OlsrState :=
  { s with topologySet := prolong destAddr lastAddr expirationTime s.topologySet }

end OlsrState

end Ns3Rdma.Olsr
