import Mathlib.Data.List.Sort
import Mathlib.Data.UInt

/-! # The shortest path calculation of global routing

`SPFCalculate` builds the tree of shortest paths from a link state database. `none` stands for
undefined behaviour, a failed assertion, or a loop that never ends. -/

namespace Ns3Rdma.Routing

abbrev Ipv4Address := UInt32

/-! ## The link state database -/

inductive LinkType where
  | Unknown
  | PointToPoint
  | TransitNetwork
  | StubNetwork
  | VirtualLink
deriving DecidableEq

structure GlobalRoutingLinkRecord where
  linkId : Ipv4Address
  linkData : Ipv4Address
  linkType : LinkType
  metric : UInt16
deriving DecidableEq

/-- Router LSAs have link records, network LSAs have a mask and attached routers. -/
inductive LSABody where
  | RouterLSA (linkRecords : List GlobalRoutingLinkRecord)
  | NetworkLSA (networkMask : Ipv4Address) (attachedRouters : List Ipv4Address)
deriving DecidableEq

structure GlobalRoutingLSA where
  linkStateId : Ipv4Address
  body : LSABody
deriving DecidableEq

namespace GlobalRoutingLSA

def isNetwork (lsa : GlobalRoutingLSA) : Bool :=
  match lsa.body with
  | .RouterLSA _ => false
  | .NetworkLSA _ _ => true

def linkRecords (lsa : GlobalRoutingLSA) : List GlobalRoutingLinkRecord :=
  match lsa.body with
  | .RouterLSA linkRecords => linkRecords
  | .NetworkLSA _ _ => []

end GlobalRoutingLSA

/-- The database in the order of its keys, the link state IDs. -/
abbrev LSDB := List GlobalRoutingLSA

namespace LSDB

def getLSA (lsdb : LSDB) (addr : Ipv4Address) : Option GlobalRoutingLSA :=
  lsdb.find? fun lsa => lsa.linkStateId = addr

def getLSAByLinkData (lsdb : LSDB) (addr : Ipv4Address) : Option GlobalRoutingLSA :=
  lsdb.find? fun lsa =>
    lsa.linkRecords.any fun lr => lr.linkType = .TransitNetwork && lr.linkData = addr

end LSDB

/-! ## Vertices -/

/-- The parents are the IDs of the vertices that the pointers refer to. -/
structure SPFVertex where
  lsa : GlobalRoutingLSA
  distanceFromRoot : UInt32
  ecmpRootExits : List (Ipv4Address × ℤ)
  parents : List Ipv4Address
deriving DecidableEq

/-- What the calculation gets from the root's node, and the order of the pointers to vertices. -/
structure Environment where
  findOutgoingInterfaceId : Ipv4Address → Ipv4Address → ℤ
  pointerLe : Ipv4Address → Ipv4Address → Bool

namespace SPFVertex

def new (lsa : GlobalRoutingLSA) : SPFVertex := ⟨lsa, 0xffffffff, [], []⟩

variable (v : SPFVertex)

def vertexId : Ipv4Address := v.lsa.linkStateId

def setRootExitDirection (exit : Ipv4Address × ℤ) : SPFVertex := { v with ecmpRootExits := [exit] }

/-- `GetRootExitDirection ()` asserts that there is one exit. -/
def getRootExitDirection : Option (Ipv4Address × ℤ) :=
  match v.ecmpRootExits with
  | [exit] => some exit
  | _ => none

/-- The exits are ordered by the address, then by the interface. -/
def exitLe (a b : Ipv4Address × ℤ) : Bool := a.1 < b.1 || (a.1 = b.1 && a.2 ≤ b.2)

def mergeRootExitDirections (vertex : SPFVertex) : SPFVertex :=
  { v with
    ecmpRootExits := ((v.ecmpRootExits ++ vertex.ecmpRootExits).insertionSort
      fun a b => exitLe a b).eraseDups }

def mergeParent (e : Environment) (vertex : SPFVertex) : SPFVertex :=
  { v with
    parents := ((v.parents ++ vertex.parents).insertionSort fun a b => e.pointerLe a b).eraseDups }

/-- `CompareSPFVertex`: a network is ranked before a router at the same distance. -/
def compare (v₁ v₂ : SPFVertex) : Bool :=
  v₁.distanceFromRoot < v₂.distanceFromRoot ||
    (v₁.distanceFromRoot = v₂.distanceFromRoot && (v₁.lsa.isNetwork && !v₂.lsa.isNetwork))

/-- The loop of `SPFGetNextLink` over the records that are left. -/
def nextLinkFrom (id : Ipv4Address) :
    Bool → Bool → List GlobalRoutingLinkRecord → Option GlobalRoutingLinkRecord
  | _, _, [] => none
  | foundPrevLink, skip, l :: rest =>
      if l.linkId = id then
        if !foundPrevLink then nextLinkFrom id true skip rest
        else if !skip then some l
        else nextLinkFrom id foundPrevLink false rest
      else nextLinkFrom id foundPrevLink skip rest

/-- `SPFGetNextLink`. Whatever the previous link is, two links are skipped. -/
def getNextLink (w : SPFVertex) (prevLink : Option GlobalRoutingLinkRecord) :
    Option GlobalRoutingLinkRecord :=
  nextLinkFrom w.vertexId prevLink.isNone prevLink.isSome v.lsa.linkRecords

/-- The exits of `w`, as `SPFNexthopCalculation` sets them. -/
def rootExits (e : Environment) (root : Ipv4Address) (v w : SPFVertex)
    (l : Option GlobalRoutingLinkRecord) : Option SPFVertex :=
  if v.vertexId = root then
    match w.lsa.body with
    | .RouterLSA _ => l.bind fun l => (w.getNextLink v none).map fun linkRemote =>
        w.setRootExitDirection
          (linkRemote.linkData, e.findOutgoingInterfaceId l.linkData 0xffffffff)
    | .NetworkLSA networkMask _ => some (w.setRootExitDirection
        (0, e.findOutgoingInterfaceId w.lsa.linkStateId networkMask))
  else if v.lsa.isNetwork then
    if v.parents.head? = some root then
      match w.getNextLink v none with
      | none => some w
      | some linkRemote =>
          -- The loop ends when there is no further link; each further one is the same.
          match w.getNextLink v (some linkRemote) with
          | none => v.getRootExitDirection.map fun exit =>
              w.setRootExitDirection (linkRemote.linkData, exit.2)
          | some _ => none
    else v.getRootExitDirection.map w.setRootExitDirection
  else some { w with ecmpRootExits := v.ecmpRootExits }

/-- `SPFNexthopCalculation`. -/
def nexthopCalculation (e : Environment) (root : Ipv4Address) (v w : SPFVertex)
    (l : Option GlobalRoutingLinkRecord) (distance : UInt32) : Option SPFVertex :=
  (rootExits e root v w l).map fun w =>
    { w with distanceFromRoot := distance, parents := [v.vertexId] }

end SPFVertex

/-! ## The candidate queue -/

abbrev CandidateQueue := List SPFVertex

namespace CandidateQueue

/-- `Push`: insert at the upper bound. -/
def push (candidate : CandidateQueue) (vNew : SPFVertex) : CandidateQueue :=
  candidate.takeWhile (fun v => !vNew.compare v) ++ vNew ::
    candidate.dropWhile fun v => !vNew.compare v

def findId (candidate : CandidateQueue) (addr : Ipv4Address) : Option SPFVertex :=
  candidate.find? fun v => v.vertexId = addr

/-- The vertex that `Find` returns is changed in place. -/
def replace (candidate : CandidateQueue) (cw : SPFVertex) : CandidateQueue :=
  candidate.map fun v => if v.vertexId = cw.vertexId then cw else v

def reorder (candidate : CandidateQueue) : CandidateQueue :=
  candidate.insertionSort fun v₁ v₂ => !v₂.compare v₁

end CandidateQueue

/-! ## The calculation -/

inductive SPFStatus where
  | LSA_SPF_NOT_EXPLORED
  | LSA_SPF_CANDIDATE
  | LSA_SPF_IN_SPFTREE
deriving DecidableEq

/-- The vertex that was popped last, the status of the LSAs, the candidates, and the vertices in the
order in which they were popped. -/
structure SPFState where
  v : SPFVertex
  status : Ipv4Address → SPFStatus
  candidate : CandidateQueue
  tree : List SPFVertex

namespace SPFState

variable (e : Environment) (lsdb : LSDB) (root : Ipv4Address) (s : SPFState)

def setStatus (addr : Ipv4Address) (status : SPFStatus) : SPFState :=
  { s with status := Function.update s.status addr status }

/-- The distance of a neighbour: leaving a network costs nothing. -/
def distance (l : Option GlobalRoutingLinkRecord) : UInt32 :=
  match l with
  | some l => s.v.distanceFromRoot + l.metric.toUInt32
  | none => s.v.distanceFromRoot

/-- The body of the loop of `SPFNext`, once the LSA of the neighbour is known. -/
def explore (wLsa : GlobalRoutingLSA) (l : Option GlobalRoutingLinkRecord) : Option SPFState :=
  let distance := s.distance l
  match s.status wLsa.linkStateId with
  | .LSA_SPF_IN_SPFTREE => some s
  | .LSA_SPF_NOT_EXPLORED =>
      (SPFVertex.nexthopCalculation e root s.v (.new wLsa) l distance).map fun w =>
        { s.setStatus wLsa.linkStateId .LSA_SPF_CANDIDATE with candidate := s.candidate.push w }
  | .LSA_SPF_CANDIDATE =>
      (s.candidate.findId wLsa.linkStateId).bind fun cw =>
        if cw.distanceFromRoot < distance then some s
        else if cw.distanceFromRoot = distance then
          (SPFVertex.nexthopCalculation e root s.v (.new wLsa) l distance).map fun w =>
            { s with
              candidate := s.candidate.replace ((cw.mergeRootExitDirections w).mergeParent e w) }
        else
          (SPFVertex.nexthopCalculation e root s.v cw l distance).map fun cw =>
            { s with candidate := (s.candidate.replace cw).reorder }

/-- The loop of `SPFNext` over the link records of a router. -/
def nextRouter : List GlobalRoutingLinkRecord → SPFState → Option SPFState
  | [], s => some s
  | l :: rest, s =>
      match l.linkType with
      | .StubNetwork => nextRouter rest s
      | .PointToPoint | .TransitNetwork => (lsdb.getLSA l.linkId).bind fun wLsa =>
          (s.explore e root wLsa (some l)).bind (nextRouter rest)
      | .Unknown | .VirtualLink => none

/-- The loop of `SPFNext` over the attached routers of a network. -/
def nextNetwork : List Ipv4Address → SPFState → Option SPFState
  | [], s => some s
  | addr :: rest, s =>
      match lsdb.getLSAByLinkData addr with
      | some wLsa => (s.explore e root wLsa none).bind (nextNetwork rest)
      | none => nextNetwork rest s

/-- `SPFNext`. -/
def next : Option SPFState :=
  match s.v.lsa.body with
  | .RouterLSA linkRecords => nextRouter e lsdb root linkRecords s
  | .NetworkLSA _ attachedRouters => nextNetwork e lsdb root attachedRouters s

/-- The next vertex becomes part of the tree. -/
def pop : Option SPFState :=
  match s.candidate with
  | [] => none
  | v :: candidate => some
      { s.setStatus v.vertexId .LSA_SPF_IN_SPFTREE with
        v := v
        candidate := candidate
        tree := s.tree ++ [v] }

/-- The main loop of `SPFCalculate`; `none` also when it has not ended after `fuel` turns. -/
def mainLoop : ℕ → SPFState → Option SPFState
  | 0, _ => none
  | fuel + 1, s => (s.next e lsdb root).bind fun s =>
      match s.pop with
      | some s => mainLoop fuel s
      | none => some s

/-- The state before the loop. -/
def init (rootLsa : GlobalRoutingLSA) : SPFState :=
  let v : SPFVertex := { SPFVertex.new rootLsa with distanceFromRoot := 0 }
  ⟨v, Function.update (fun _ => .LSA_SPF_NOT_EXPLORED) rootLsa.linkStateId .LSA_SPF_IN_SPFTREE,
    [], [v]⟩

end SPFState

end Ns3Rdma.Routing
