import Mathlib.Order.Lattice.Nat
import Ns3Rdma.Routing.FirstHops
import Ns3Rdma.Routing.FlowEcmp

/-! # Forwarding over the installed routes

`SPFIntraAddRouter` writes a host route for each address of a popped router and each of its exits,
and `CheckForStubNode` a default route. In a network of point-to-point links, every router that forwards
by its own table brings a packet nearer to its destination. -/

namespace Ns3Rdma.Routing

open ShortestPath

/-! ## The installed routes -/

/-- The cast of an `int32_t` to `uint32_t`. -/
def interfaceIndex (outIf : ℤ) : UInt32 := UInt32.ofInt outIf

/-- The routes of `SPFIntraAddRouter (v)`. -/
def SPFVertex.hostRoutes (v : SPFVertex) : List Ipv4RoutingTableEntry :=
  v.lsa.linkRecords.flatMap fun lr =>
    if lr.linkType ≠ .PointToPoint then []
    else v.ecmpRootExits.flatMap fun exit =>
      if exit.2 ≥ 0 then [⟨lr.linkData, ⟨0xffffffff⟩, exit.1, interfaceIndex exit.2⟩] else []

/-- `CheckForStubNode`: whether it returns true, and then the network routes that it has added. The
outer `none` is a null pointer. -/
def checkForStubNode (e : Environment) (lsdb : LSDB) (rlsa : GlobalRoutingLSA) :
    Option (Option (List Ipv4RoutingTableEntry)) :=
  let transitLinks := rlsa.linkRecords.filter fun l =>
    l.linkType = .TransitNetwork || l.linkType = .PointToPoint
  match transitLinks with
  | [] => some (some [])
  | [transitLink] =>
      if transitLink.linkType = .TransitNetwork then some none
      else (lsdb.getLSA transitLink.linkId).map fun wLsa =>
        (wLsa.linkRecords.find? fun lr =>
          lr.linkType = .PointToPoint && lr.linkId = rlsa.linkStateId).map fun lr =>
            [⟨0, ⟨0⟩, lr.linkData,
              interfaceIndex (e.findOutgoingInterfaceId transitLink.linkData 0xffffffff)⟩]
  | _ :: _ :: _ => some none

/-- What `SPFProcessStubs` and `ProcessASExternals` add for a tree, and the modes of the table. -/
structure Rest where
  networkRoutes : List SPFVertex → List Ipv4RoutingTableEntry
  asExternalRoutes : List SPFVertex → List Ipv4RoutingTableEntry
  randomEcmpRouting : Bool
  flowEcmpRouting : Bool

/-- The table that `SPFCalculate` fills for the router of an LSA. -/
def spfCalculate (others : Rest) (e : Environment) (lsdb : LSDB) (rootLsa : GlobalRoutingLSA) :
    Option GlobalRouting :=
  (checkForStubNode e lsdb rootLsa).bind fun stub =>
    match stub with
    | some networkRoutes => some
        { hostRoutes := []
          networkRoutes := networkRoutes
          asExternalRoutes := []
          randomEcmpRouting := others.randomEcmpRouting
          flowEcmpRouting := others.flowEcmpRouting
          isHost := GlobalRouting.isHost_nil }
    | none =>
        (SPFState.mainLoop e lsdb rootLsa.linkStateId lsdb.length (SPFState.init rootLsa)).map
          fun final =>
            { hostRoutes := (final.tree.tail.filter fun v => !v.lsa.isNetwork).flatMap
                SPFVertex.hostRoutes
              networkRoutes := others.networkRoutes final.tree
              asExternalRoutes := others.asExternalRoutes final.tree
              randomEcmpRouting := others.randomEcmpRouting
              flowEcmpRouting := others.flowEcmpRouting
              isHost := by
                intro i hi
                obtain ⟨v, -, hv⟩ := List.mem_flatMap.mp hi
                obtain ⟨lr, -, hlr⟩ := List.mem_flatMap.mp hv
                split at hlr
                · cases hlr
                · obtain ⟨exit, -, hexit⟩ := List.mem_flatMap.mp hlr
                  split at hexit
                  · rw [List.mem_singleton.mp hexit]
                  · cases hexit }

/-! ## Forwarding -/

section Forwarding

variable {NetDevice : Type} [DecidableEq NetDevice] (ipv4 : Ipv4Addresses NetDevice)
  (others : Ipv4Address → Rest) (e : Ipv4Address → Environment) (lsdb : LSDB)

/-- The link of a router behind its interface of this number. -/
def linkBehind (lsa : GlobalRoutingLSA) (interface : UInt32) : Option GlobalRoutingLinkRecord :=
  lsa.linkRecords.find? fun l => l.linkType = .PointToPoint &&
    interfaceIndex ((e lsa.linkStateId).findOutgoingInterfaceId l.linkData 0xffffffff) = interface

/-- The address is one of an interface of the router. -/
def Owns (id addr : Ipv4Address) : Prop :=
  ∃ lsa, lsdb.getLSA id = some lsa ∧
    ∃ l ∈ lsa.linkRecords, l.linkType = .PointToPoint ∧ l.linkData = addr

/-- Whichever matching route each router chooses, a packet for this address comes to its owner over
links of this cost, and every gateway is an address of the router behind the interface. -/
inductive Delivers (dest owner : Ipv4Address) : Ipv4Address → ℕ → Prop
  | here : Delivers dest owner owner 0
  | forward {lsa : GlobalRoutingLSA} {table : GlobalRouting} {total : ℕ}
      {link : Ipv4RoutingTableEntry → GlobalRoutingLinkRecord} {left : Ipv4RoutingTableEntry → ℕ}
      (elsewhere : lsa.linkStateId ≠ owner) (stored : lsa ∈ lsdb)
      (computed : spfCalculate (others lsa.linkStateId) (e lsa.linkStateId) lsdb lsa = some table)
      (routed : table.allRoutes ipv4 none dest ≠ [])
      (sent : ∀ route ∈ table.allRoutes ipv4 none dest,
        linkBehind e lsa route.interface = some (link route) ∧
          Owns lsdb (link route).linkId route.gateway)
      (cost : ∀ route ∈ table.allRoutes ipv4 none dest,
        total = (link route).metric.toNat + left route)
      (delivered : ∀ route ∈ table.allRoutes ipv4 none dest,
        Delivers dest owner (link route).linkId (left route)) :
      Delivers dest owner lsa.linkStateId total

end Forwarding

/-- Routers with links to other routers, at most one to each, and an address of its own for each end
of a link. The IDs of stub networks are not those of routers. -/
structure LSDB.PointToPoint (lsdb : LSDB) : Prop where
  wellFormed : lsdb.WellFormed
  router : ∀ lsa ∈ lsdb, lsa.isNetwork = false
  stub : ∀ lsa ∈ lsdb, ∀ l ∈ lsa.linkRecords, l.linkType = .StubNetwork →
    lsdb.getLSA l.linkId = none
  link : ∀ lsa ∈ lsdb, ∀ l ∈ lsa.linkRecords, l.linkType ≠ .StubNetwork →
    l.linkType = .PointToPoint ∧ l.linkId ≠ lsa.linkStateId ∧ l.linkData ≠ 0
  back : ∀ lsa ∈ lsdb, ∀ l ∈ lsa.linkRecords, l.linkType ≠ .StubNetwork →
    ∀ wLsa, lsdb.getLSA l.linkId = some wLsa →
      ∃ l' ∈ wLsa.linkRecords, l'.linkType ≠ .StubNetwork ∧ l'.linkId = lsa.linkStateId
  single : ∀ lsa ∈ lsdb, ∀ l ∈ lsa.linkRecords, ∀ l' ∈ lsa.linkRecords,
    l.linkType ≠ .StubNetwork → l'.linkType ≠ .StubNetwork → l.linkId = l'.linkId → l = l'
  address : ∀ lsa ∈ lsdb, ∀ lsa' ∈ lsdb, ∀ l ∈ lsa.linkRecords, ∀ l' ∈ lsa'.linkRecords,
    l.linkType ≠ .StubNetwork → l'.linkType ≠ .StubNetwork → l.linkData = l'.linkData →
      lsa = lsa' ∧ l = l'

/-- Every link of a router is behind an interface of its own. -/
def Interfaces (e : Environment) (lsa : GlobalRoutingLSA) : Prop :=
  (∀ l ∈ lsa.linkRecords, l.linkType ≠ .StubNetwork →
    0 ≤ e.findOutgoingInterfaceId l.linkData 0xffffffff ∧
      e.findOutgoingInterfaceId l.linkData 0xffffffff < 2 ^ 31) ∧
  ∀ l ∈ lsa.linkRecords, ∀ l' ∈ lsa.linkRecords, l.linkType ≠ .StubNetwork →
    l'.linkType ≠ .StubNetwork → e.findOutgoingInterfaceId l.linkData 0xffffffff =
      e.findOutgoingInterfaceId l'.linkData 0xffffffff → l = l'

/-- The address at the other end of a link of a router. -/
def otherEnd (lsdb : LSDB) (lsa : GlobalRoutingLSA) (addr : Ipv4Address) : Ipv4Address :=
  ((lsa.linkRecords.find? fun l => l.linkType = .PointToPoint && l.linkData = addr).bind fun l =>
    (lsdb.getLSA l.linkId).bind fun wLsa =>
      (wLsa.linksTo lsa.linkStateId).head?.map GlobalRoutingLinkRecord.linkData).getD 0

variable {e : Environment} {lsdb : LSDB} {lsa rootLsa wLsa : GlobalRoutingLSA}
  {l : GlobalRoutingLinkRecord} {v w addr : Ipv4Address} {m cost : ℕ} {x : Exit}

/-! ## Links -/

/-- A walk begins with a step, unless it is empty. -/
theorem walk_cases {V : Type*} {edge : V → V → ℕ → Prop} {root v : V}
    (h : Walk edge root v cost) :
    (v = root ∧ cost = 0) ∨
      ∃ u weight rest, edge root u weight ∧ Walk edge u v rest ∧ cost = weight + rest := by
  induction h with
  | nil => exact Or.inl ⟨rfl, rfl⟩
  | @snoc p v cost weight walk step ih =>
      right
      rcases ih with ⟨rfl, rfl⟩ | ⟨u, first, rest, hfirst, hwalk, rfl⟩
      · exact ⟨v, weight, 0, step, .nil, by omega⟩
      · exact ⟨u, first, rest + weight, hfirst, hwalk.snoc step, Nat.add_assoc _ _ _⟩

/-- A step in front of a walk. -/
theorem walk_cons {V : Type*} {edge : V → V → ℕ → Prop} {root u v : V} {weight : ℕ}
    (hstep : edge root u weight) (h : Walk edge u v cost) : Walk edge root v (weight + cost) := by
  induction h with
  | nil =>
      rw [Nat.add_comm]
      exact Walk.nil.snoc hstep
  | snoc walk step ih =>
      rw [← Nat.add_assoc]
      exact ih.snoc step

namespace LSDB.PointToPoint

variable (h : lsdb.PointToPoint)
include h

theorem edge_iff (hlsa : lsa ∈ lsdb) : lsdb.Edge lsa.linkStateId w m ↔
    ∃ l ∈ lsa.linkRecords, l.linkType ≠ .StubNetwork ∧ l.linkId = w ∧ l.metric.toNat = m := by
  have hstored := LSDB.getLSA_of_mem h.wellFormed.distinct hlsa
  have hrouter := h.router lsa hlsa
  unfold LSDB.Edge LSDB.Leads
  unfold GlobalRoutingLSA.isNetwork at hrouter
  unfold GlobalRoutingLSA.linkRecords
  cases hbody : lsa.body with
  | RouterLSA records =>
      constructor
      · rintro ⟨other, hother, hleads⟩
        obtain rfl := Option.some.inj (hstored.symm.trans hother)
        rw [hbody] at hleads
        exact hleads
      · intro hleads
        refine ⟨lsa, hstored, ?_⟩
        rw [hbody]
        exact hleads
  | NetworkLSA mask routers =>
      rw [hbody] at hrouter
      cases hrouter

theorem exists_neighbour (hlsa : lsa ∈ lsdb) (hl : l ∈ lsa.linkRecords)
    (hstub : l.linkType ≠ .StubNetwork) :
    ∃ wLsa ∈ lsdb, lsdb.getLSA l.linkId = some wLsa ∧ wLsa.linkStateId = l.linkId := by
  obtain ⟨wLsa, hwLsa⟩ :=
    Option.isSome_iff_exists.mp (h.wellFormed.record lsa hlsa l hl hstub).2.2
  obtain ⟨hmem, hid⟩ := LSDB.getLSA_eq_some hwLsa
  exact ⟨wLsa, hmem, hwLsa, hid⟩

/-- The record of the neighbour for the same link is the only one that points back. -/
theorem exists_back (hlsa : lsa ∈ lsdb) (hl : l ∈ lsa.linkRecords)
    (hstub : l.linkType ≠ .StubNetwork) (hwLsa : lsdb.getLSA l.linkId = some wLsa) :
    ∃ l' ∈ wLsa.linkRecords, l'.linkType ≠ .StubNetwork ∧ l'.linkId = lsa.linkStateId ∧
      ∀ r ∈ wLsa.linkRecords, r.linkId = lsa.linkStateId → r = l' := by
  obtain ⟨hmem, -⟩ := LSDB.getLSA_eq_some hwLsa
  obtain ⟨l', hl', hstub', hid⟩ := h.back lsa hlsa l hl hstub wLsa hwLsa
  refine ⟨l', hl', hstub', hid, fun r hr hrid => ?_⟩
  refine h.single wLsa hmem r hr l' hl' (fun hrstub => ?_) hstub' (hrid.trans hid.symm)
  have hnone := h.stub wLsa hmem r hr hrstub
  rw [hrid, LSDB.getLSA_of_mem h.wellFormed.distinct hlsa] at hnone
  cases hnone

theorem head_linksTo (hlsa : lsa ∈ lsdb) (hl : l ∈ lsa.linkRecords)
    (hstub : l.linkType ≠ .StubNetwork) (hwLsa : lsdb.getLSA l.linkId = some wLsa) :
    ∃ l' ∈ wLsa.linkRecords, l'.linkType ≠ .StubNetwork ∧
      (wLsa.linksTo lsa.linkStateId).head? = some l' ∧
        otherEnd lsdb lsa l.linkData = l'.linkData := by
  obtain ⟨l', hl', hstub', hid, hunique⟩ := h.exists_back hlsa hl hstub hwLsa
  have hmem : l' ∈ wLsa.linksTo lsa.linkStateId :=
    List.mem_filter.mpr ⟨hl', decide_eq_true hid⟩
  obtain ⟨r, hr⟩ : ∃ r, (wLsa.linksTo lsa.linkStateId).head? = some r := by
    rw [← Option.isSome_iff_exists, List.isSome_head?]
    exact List.ne_nil_of_mem hmem
  obtain ⟨hrmem, hrid⟩ := List.mem_filter.mp (List.mem_of_mem_head? hr)
  obtain rfl := hunique r hrmem (of_decide_eq_true hrid)
  have hfound : (lsa.linkRecords.find? fun s =>
      s.linkType = .PointToPoint && s.linkData = l.linkData) = some l := by
    obtain ⟨s, hs⟩ : ∃ s, (lsa.linkRecords.find? fun s =>
        s.linkType = .PointToPoint && s.linkData = l.linkData) = some s := by
      rw [← Option.isSome_iff_exists, List.find?_isSome]
      exact ⟨l, hl, by simp [(h.link lsa hlsa l hl hstub).1]⟩
    have hmatch := List.find?_some hs
    simp only [Bool.and_eq_true, decide_eq_true_eq] at hmatch
    have hsstub : s.linkType ≠ .StubNetwork := by
      rw [hmatch.1]
      decide
    rw [hs, (h.address lsa hlsa lsa hlsa s (List.mem_of_find?_eq_some hs) l hl hsstub hstub
      hmatch.2).2]
  refine ⟨r, hrmem, hstub', hr, ?_⟩
  unfold otherEnd
  rw [hfound, Option.bind_some, hwLsa, Option.bind_some, hr]
  rfl

/-! ## The calculation -/

theorem directExits (hroot : rootLsa ∈ lsdb) :
    DirectExits e lsdb rootLsa (otherEnd lsdb rootLsa) := by
  intro l hl hstub wLsa hwLsa _
  obtain ⟨hmem, -⟩ := LSDB.getLSA_eq_some hwLsa
  obtain ⟨l', -, -, hhead, hother⟩ := h.head_linksTo hroot hl hstub hwLsa
  have hrouter := h.router wLsa hmem
  unfold rootExit hop
  rw [hother, hrouter]
  unfold GlobalRoutingLSA.isNetwork at hrouter
  cases hbody : wLsa.body with
  | RouterLSA records =>
      dsimp only
      rw [hhead]
      rfl
  | NetworkLSA mask routers =>
      rw [hbody] at hrouter
      cases hrouter

theorem addressed (hroot : rootLsa ∈ lsdb) : Addressed lsdb rootLsa (otherEnd lsdb rootLsa) where
  otherEnd l hl hstub := by
    obtain ⟨wLsa, hmem, hwLsa, -⟩ := h.exists_neighbour hroot hl hstub
    obtain ⟨l', hl', hstub', -, hother⟩ := h.head_linksTo hroot hl hstub hwLsa
    rw [hother]
    exact (h.link wLsa hmem l' hl' hstub').2.2
  linkData := by
    unfold LSDB.getLSAByLinkData
    rw [List.find?_eq_none]
    intro lsa hlsa hany
    obtain ⟨lr, hlr, hmatch⟩ := List.any_eq_true.mp hany
    simp only [Bool.and_eq_true, decide_eq_true_eq] at hmatch
    have hstub : lr.linkType ≠ .StubNetwork := by
      rw [hmatch.1]
      decide
    have htype := (h.link lsa hlsa lr hlr hstub).1
    rw [hmatch.1] at htype
    cases htype

theorem not_blocked {s : SPFState} (hv : s.v.lsa ∈ lsdb) :
    ¬ s.Blocked lsdb rootLsa.linkStateId := by
  rintro ⟨wLsa, hneighbour, -, hundefined⟩
  refine hundefined ?_
  have hrouter := h.router _ hv
  unfold SPFVertex.NexthopDefined
  by_cases heq : s.v.vertexId = rootLsa.linkStateId
  · rw [if_pos heq]
    right
    obtain ⟨l, hl, hstub, hwLsa⟩ : ∃ l ∈ s.v.lsa.linkRecords, l.linkType ≠ .StubNetwork ∧
        lsdb.getLSA l.linkId = some wLsa := by
      unfold LSDB.neighbours at hneighbour
      unfold GlobalRoutingLSA.linkRecords
      unfold GlobalRoutingLSA.isNetwork at hrouter
      cases hbody : s.v.lsa.body with
      | RouterLSA records =>
          rw [hbody] at hneighbour
          obtain ⟨l, hl, hwLsa⟩ := List.mem_filterMap.mp hneighbour
          obtain ⟨hl, hstub⟩ := List.mem_filter.mp hl
          exact ⟨l, hl, by simpa using hstub, hwLsa⟩
      | NetworkLSA mask routers =>
          rw [hbody] at hrouter
          cases hrouter
    obtain ⟨l', -, -, hhead, -⟩ := h.head_linksTo hv hl hstub hwLsa
    rw [← heq]
    intro hnil
    change wLsa.linksTo s.v.lsa.linkStateId = [] at hnil
    rw [hnil] at hhead
    cases hhead
  · rw [if_neg heq, if_neg (by rw [hrouter]; exact Bool.false_ne_true)]
    trivial

theorem regular_of_turn {s : SPFState}
    (hcost : ∀ visited v cost,
      Trail lsdb.Edge rootLsa.linkStateId visited v cost → cost < 2 ^ 32)
    (hs : s.Turn lsdb rootLsa.linkStateId) (fuel : ℕ) :
    s.Regular e lsdb rootLsa.linkStateId fuel := by
  induction fuel generalizing s with
  | zero => trivial
  | succ fuel ih =>
      have hv := hs.storedTree _ hs.current
      have hblocked : ¬ s.Blocked lsdb rootLsa.linkStateId := h.not_blocked hv
      have hrouter : ∀ lsa, lsdb.getLSA rootLsa.linkStateId = some lsa → lsa.isNetwork = false :=
        fun lsa hlsa => h.router lsa (LSDB.getLSA_eq_some hlsa).1
      refine ⟨hblocked, fun addr haddr => ?_, fun s' hs' s'' hs'' => ?_⟩
      · have hnetwork := h.router _ hv
        unfold GlobalRoutingLSA.isNetwork at hnetwork
        unfold GlobalRoutingLSA.attachedRouters at haddr
        cases hbody : s.v.lsa.body with
        | RouterLSA records =>
            rw [hbody] at haddr
            cases haddr
        | NetworkLSA mask routers =>
            rw [hbody] at hnetwork
            cases hnetwork
      · obtain ⟨next, hnext, -, -, hsearching⟩ :=
          hs.next (e := e) h.wellFormed hrouter hcost hblocked
        obtain rfl := Option.some.inj (hnext.symm.trans hs')
        cases hcandidate : next.candidate with
        | nil =>
            have hs'' : next.pop = some s'' := hs''
            unfold SPFState.pop at hs''
            rw [hcandidate] at hs''
            cases hs''
        | cons u rest =>
            obtain ⟨popped, hpop, -, -, hturn⟩ := hsearching.pop hcandidate
            obtain rfl := Option.some.inj (hpop.symm.trans hs'')
            exact ih hturn

/-- The vertices that were popped are of LSAs of the database. -/
theorem stored_of_turn {s final : SPFState}
    (hcost : ∀ visited v cost,
      Trail lsdb.Edge rootLsa.linkStateId visited v cost → cost < 2 ^ 32)
    (hs : s.Turn lsdb rootLsa.linkStateId) {fuel : ℕ}
    (hfinal : SPFState.mainLoop e lsdb rootLsa.linkStateId fuel s = some final) :
    ∀ t ∈ final.tree, t.lsa ∈ lsdb := by
  have hrouter : ∀ lsa, lsdb.getLSA rootLsa.linkStateId = some lsa → lsa.isNetwork = false :=
    fun lsa hlsa => h.router lsa (LSDB.getLSA_eq_some hlsa).1
  induction fuel generalizing s with
  | zero => cases hfinal
  | succ fuel ih =>
      have hblocked : ¬ s.Blocked lsdb rootLsa.linkStateId :=
        h.not_blocked (hs.storedTree _ hs.current)
      obtain ⟨next, hnext, -, -, hsearching⟩ :=
        hs.next (e := e) h.wellFormed hrouter hcost hblocked
      unfold SPFState.mainLoop at hfinal
      rw [hnext, Option.bind_some] at hfinal
      cases hpop : next.pop with
      | none =>
          rw [hpop] at hfinal
          obtain rfl := Option.some.inj hfinal
          exact hsearching.storedTree
      | some popped =>
          rw [hpop] at hfinal
          cases hcandidate : next.candidate with
          | nil =>
              unfold SPFState.pop at hpop
              rw [hcandidate] at hpop
              cases hpop
          | cons u rest =>
              obtain ⟨later, hlater, -, -, hturn⟩ := hsearching.pop hcandidate
              obtain rfl := Option.some.inj (hlater.symm.trans hpop)
              exact ih hturn hfinal

/-- In the whole calculation nothing fails, and the exits are first hops of shortest paths. -/
theorem mainLoop_spec (hroot : rootLsa ∈ lsdb) (hcost : ∀ visited v cost,
      Trail lsdb.Edge rootLsa.linkStateId visited v cost → cost < 2 ^ 32) :
    ∃ final, SPFState.mainLoop e lsdb rootLsa.linkStateId lsdb.length (SPFState.init rootLsa) =
        some final ∧
      SPFState.ShortestPaths lsdb rootLsa.linkStateId final.tree ∧
        SPFState.RightExits e lsdb rootLsa (otherEnd lsdb rootLsa) final.tree ∧
          ∀ t ∈ final.tree, t.lsa ∈ lsdb := by
  have hturn := SPFState.turn_init hroot
  have hregular := h.regular_of_turn (e := e) hcost hturn lsdb.length
  have hrouter : ∀ lsa, lsdb.getLSA rootLsa.linkStateId = some lsa → lsa.isNetwork = false :=
    fun lsa hlsa => h.router lsa (LSDB.getLSA_eq_some hlsa).1
  obtain ⟨final, hfinal, hpaths⟩ := hturn.mainLoop (e := e) h.wellFormed hrouter hcost
    (Nat.lt_succ_self _) hregular.unblocked
  refine ⟨final, hfinal, hpaths, ?_, h.stored_of_turn hcost hturn hfinal⟩
  refine hturn.rightExits h.wellFormed hroot (h.router _ hroot) (h.addressed hroot)
    (h.directExits hroot) hcost SPFState.tracked_init (fun t ht hne => absurd ?_ hne) hregular
    hfinal
  rw [List.mem_singleton.mp ht]
  rfl

/-! ## First hops -/

/-- A first hop is the other end of a link, behind which the path goes on. -/
theorem link_of_firstHop
    (hpath : FirstHop e lsdb rootLsa (otherEnd lsdb rootLsa) v m x) :
    ∃ l ∈ rootLsa.linkRecords, l.linkType ≠ .StubNetwork ∧
      x = (otherEnd lsdb rootLsa l.linkData, e.findOutgoingInterfaceId l.linkData 0xffffffff) ∧
        ∃ rest, Walk lsdb.Edge l.linkId v rest ∧ m = l.metric.toNat + rest := by
  induction hpath with
  | @link l wLsa record notStub stored =>
      refine ⟨l, record, notStub, ?_, 0, .nil, rfl⟩
      unfold hop
      rw [h.router wLsa (LSDB.getLSA_eq_some stored).1, if_neg Bool.false_ne_true]
  | @behind n addr w m x nLsa wLsa mask routers network attached stored body router owner id ih =>
      have hrouter := h.router nLsa (LSDB.getLSA_eq_some stored).1
      unfold GlobalRoutingLSA.isNetwork at hrouter
      rw [body] at hrouter
      cases hrouter
  | beyond path ne_root hop step ih =>
      obtain ⟨l, hl, hstub, hx, rest, hwalk, rfl⟩ := ih
      exact ⟨l, hl, hstub, hx, _, hwalk.snoc step, Nat.add_assoc _ _ _⟩

/-- Every other router has a first hop. -/
theorem exists_firstHop (hroot : rootLsa ∈ lsdb)
    (hwalk : Walk lsdb.Edge rootLsa.linkStateId v cost) (hne : v ≠ rootLsa.linkStateId) :
    ∃ m ≤ cost, ∃ x, FirstHop e lsdb rootLsa (otherEnd lsdb rootLsa) v m x := by
  induction hwalk with
  | nil => exact absurd rfl hne
  | @snoc p v cost weight walk step ih =>
      by_cases hp : p = rootLsa.linkStateId
      · subst hp
        obtain ⟨l, hl, hstub, rfl, rfl⟩ := (h.edge_iff hroot).mp step
        obtain ⟨wLsa, -, hwLsa, -⟩ := h.exists_neighbour hroot hl hstub
        exact ⟨_, Nat.le_add_left _ _, _, .link hl hstub hwLsa⟩
      · obtain ⟨m, hm, x, hpath⟩ := ih hp
        obtain ⟨l, hl, hstub, hx, -⟩ := h.link_of_firstHop hpath
        have hhop : x.1 ≠ 0 := by
          rw [hx]
          exact (h.addressed hroot).otherEnd l hl hstub
        exact ⟨_, Nat.add_le_add_right hm _, x, .beyond hpath hp hhop step⟩

theorem exists_least_firstHop (hroot : rootLsa ∈ lsdb)
    (hleast : IsLeast {cost | Walk lsdb.Edge rootLsa.linkStateId v cost} cost)
    (hne : v ≠ rootLsa.linkStateId) :
    ∃ x, FirstHop e lsdb rootLsa (otherEnd lsdb rootLsa) v cost x := by
  obtain ⟨m, hm, x, hpath⟩ := h.exists_firstHop (e := e) hroot hleast.1 hne
  have hwalk := SPFState.walk_of_firstHop
    (LSDB.getLSA_of_mem h.wellFormed.distinct hroot) hpath
  obtain rfl : m = cost := le_antisymm hm (hleast.2 hwalk)
  exact ⟨x, hpath⟩

end LSDB.PointToPoint

/-! ## The vertices that were popped -/

namespace SPFState

variable {root : Ipv4Address} {s s' : SPFState}

theorem tree_explore {record : Option GlobalRoutingLinkRecord}
    (h : s.explore e root wLsa record = some s') : s'.tree = s.tree := by
  unfold explore at h
  dsimp only at h
  split at h
  · exact Option.some.inj h ▸ rfl
  · obtain ⟨w, -, rfl⟩ := Option.map_eq_some_iff.mp h
    rfl
  · obtain ⟨cw, -, h⟩ := Option.bind_eq_some_iff.mp h
    split at h
    · exact Option.some.inj h ▸ rfl
    · split at h
      · obtain ⟨w, -, rfl⟩ := Option.map_eq_some_iff.mp h
        rfl
      · obtain ⟨w, -, rfl⟩ := Option.map_eq_some_iff.mp h
        rfl

theorem tree_nextRouter {records : List GlobalRoutingLinkRecord}
    (h : nextRouter e lsdb root records s = some s') : s'.tree = s.tree := by
  induction records generalizing s with
  | nil => exact Option.some.inj h ▸ rfl
  | cons l rest ih =>
      unfold nextRouter at h
      split at h
      · exact ih h
      all_goals
        first
        | cases h
        | obtain ⟨wLsa, -, h⟩ := Option.bind_eq_some_iff.mp h
          obtain ⟨s₁, hexplore, h⟩ := Option.bind_eq_some_iff.mp h
          exact (ih h).trans (tree_explore hexplore)

theorem tree_nextNetwork {routers : List Ipv4Address}
    (h : nextNetwork e lsdb root routers s = some s') : s'.tree = s.tree := by
  induction routers generalizing s with
  | nil => exact Option.some.inj h ▸ rfl
  | cons addr rest ih =>
      unfold nextNetwork at h
      split at h
      · obtain ⟨s₁, hexplore, h⟩ := Option.bind_eq_some_iff.mp h
        exact (ih h).trans (tree_explore hexplore)
      · exact ih h

/-- The loop appends the popped vertices to the tree. -/
theorem tree_mainLoop {fuel : ℕ} (h : mainLoop e lsdb root fuel s = some s') :
    ∃ popped, s'.tree = s.tree ++ popped := by
  induction fuel generalizing s with
  | zero => cases h
  | succ fuel ih =>
      obtain ⟨s₁, hnext, h⟩ := Option.bind_eq_some_iff.mp h
      have htree : s₁.tree = s.tree := by
        unfold next at hnext
        split at hnext
        · exact tree_nextRouter hnext
        · exact tree_nextNetwork hnext
      cases hpop : s₁.pop with
      | none =>
          rw [hpop] at h
          obtain rfl := Option.some.inj h
          exact ⟨[], by rw [htree, List.append_nil]⟩
      | some s₂ =>
          rw [hpop] at h
          obtain ⟨popped, hpopped⟩ := ih h
          unfold pop at hpop
          split at hpop
          · cases hpop
          · next u rest _ =>
            obtain rfl := Option.some.inj hpop
            exact ⟨u :: popped, by rw [hpopped, htree, List.append_assoc]; rfl⟩

/-- All vertices but the root were popped. -/
theorem mem_tail_iff {fuel : ℕ} {final : SPFState} {t : SPFVertex}
    (h : mainLoop e lsdb root fuel (init rootLsa) = some final)
    (hnodup : (final.tree.map SPFVertex.vertexId).Nodup) :
    t ∈ final.tree.tail ↔ t ∈ final.tree ∧ t.vertexId ≠ rootLsa.linkStateId := by
  obtain ⟨popped, htree⟩ := tree_mainLoop h
  change final.tree = _ :: popped at htree
  rw [htree] at hnodup ⊢
  rw [List.map_cons, List.nodup_cons] at hnodup
  rw [List.tail_cons, List.mem_cons]
  constructor
  · intro ht
    refine ⟨Or.inr ht, fun heq => hnodup.1 ?_⟩
    have hmem := List.mem_map_of_mem (f := SPFVertex.vertexId) ht
    rw [heq] at hmem
    exact hmem
  · rintro ⟨rfl | ht, hne⟩
    · exact absurd rfl hne
    · exact ht

end SPFState

/-! ## The routes of a table -/

theorem toNat_interfaceIndex {i : ℤ} (hlow : 0 ≤ i) (hhigh : i < 2 ^ 31) :
    ((interfaceIndex i).toNat : ℤ) = i := by
  unfold interfaceIndex UInt32.ofInt
  rw [UInt32.toNat_ofNat']
  omega

theorem mem_hostRoutes {t : SPFVertex} {route : Ipv4RoutingTableEntry} :
    route ∈ t.hostRoutes ↔ ∃ lr ∈ t.lsa.linkRecords, lr.linkType = .PointToPoint ∧
      ∃ exit ∈ t.ecmpRootExits, 0 ≤ exit.2 ∧
        route = ⟨lr.linkData, ⟨0xffffffff⟩, exit.1, interfaceIndex exit.2⟩ := by
  unfold SPFVertex.hostRoutes
  simp only [List.mem_flatMap]
  refine exists_congr fun lr => and_congr_right fun _ => ?_
  by_cases htype : lr.linkType = .PointToPoint
  · rw [if_neg (by simpa using htype)]
    simp only [List.mem_flatMap, htype, true_and]
    refine exists_congr fun exit => and_congr_right fun _ => ?_
    by_cases hpos : 0 ≤ exit.2
    · rw [if_pos hpos, List.mem_singleton, and_iff_right hpos]
    · rw [if_neg hpos]
      simp [hpos]
  · rw [if_pos htype]
    simp [htype]

section Tables

variable {NetDevice : Type} [DecidableEq NetDevice] {ipv4 : Ipv4Addresses NetDevice}
  {table : GlobalRouting} {dest : Ipv4Address} {route : Ipv4RoutingTableEntry}

theorem mem_matchingHosts :
    route ∈ table.matchingHosts ipv4 none dest ↔ route ∈ table.hostRoutes ∧ route.dest = dest := by
  unfold GlobalRouting.matchingHosts
  simp [List.mem_filter]

/-- With a host route, only host routes are considered. -/
theorem allRoutes_of_host (hroute : route ∈ table.matchingHosts ipv4 none dest) :
    table.allRoutes ipv4 none dest = table.matchingHosts ipv4 none dest := by
  unfold GlobalRouting.allRoutes
  rw [if_neg]
  rw [List.length_eq_zero_iff]
  exact List.ne_nil_of_mem hroute

end Tables

/-- The link is found again by the interface that it is behind. -/
theorem linkBehind_of_mem {e : Ipv4Address → Environment} (h : lsdb.PointToPoint)
    (hlsa : lsa ∈ lsdb) (hinterfaces : Interfaces (e lsa.linkStateId) lsa) (hl : l ∈ lsa.linkRecords)
    (hstub : l.linkType ≠ .StubNetwork) :
    linkBehind e lsa (interfaceIndex
      ((e lsa.linkStateId).findOutgoingInterfaceId l.linkData 0xffffffff)) = some l := by
  unfold linkBehind
  obtain ⟨r, hr⟩ : ∃ r, (lsa.linkRecords.find? fun r => r.linkType = .PointToPoint &&
      interfaceIndex ((e lsa.linkStateId).findOutgoingInterfaceId r.linkData 0xffffffff) =
        interfaceIndex ((e lsa.linkStateId).findOutgoingInterfaceId l.linkData 0xffffffff)) =
          some r := by
    rw [← Option.isSome_iff_exists, List.find?_isSome]
    exact ⟨l, hl, by simp [(h.link lsa hlsa l hl hstub).1]⟩
  have hmem := List.mem_of_find?_eq_some hr
  have hmatch := List.find?_some hr
  simp only [Bool.and_eq_true, decide_eq_true_eq] at hmatch
  have hrstub : r.linkType ≠ .StubNetwork := by
    rw [hmatch.1]
    decide
  obtain ⟨hlow, hhigh⟩ := hinterfaces.1 l hl hstub
  obtain ⟨hrlow, hrhigh⟩ := hinterfaces.1 r hmem hrstub
  have hsame : (e lsa.linkStateId).findOutgoingInterfaceId r.linkData 0xffffffff =
      (e lsa.linkStateId).findOutgoingInterfaceId l.linkData 0xffffffff := by
    rw [← toNat_interfaceIndex hrlow hrhigh, hmatch.2, toNat_interfaceIndex hlow hhigh]
  rw [hr, hinterfaces.2 r hmem l hl hrstub hstub hsame]

/-- The other end of a link is an address of the neighbour. -/
theorem owns_otherEnd (h : lsdb.PointToPoint) (hlsa : lsa ∈ lsdb) (hl : l ∈ lsa.linkRecords)
    (hstub : l.linkType ≠ .StubNetwork) :
    Owns lsdb l.linkId (otherEnd lsdb lsa l.linkData) := by
  obtain ⟨wLsa, hmem, hwLsa, -⟩ := h.exists_neighbour hlsa hl hstub
  obtain ⟨l', hl', hstub', -, hother⟩ := h.head_linksTo hlsa hl hstub hwLsa
  exact ⟨wLsa, hwLsa, l', hl', (h.link wLsa hmem l' hl' hstub').1, hother.symm⟩

/-- A route leads over a link of the router to the neighbour that owns the gateway, from which it is
this much less to the destination. -/
def LeadsOn (e : Ipv4Address → Environment) (lsdb : LSDB) (lsa : GlobalRoutingLSA)
    (owner : Ipv4Address) (total : ℕ) (route : Ipv4RoutingTableEntry) : Prop :=
  ∃ l ∈ lsa.linkRecords, l.linkType ≠ .StubNetwork ∧
    linkBehind e lsa route.interface = some l ∧ Owns lsdb l.linkId route.gateway ∧
      ∃ rest, Walk lsdb.Edge l.linkId owner rest ∧ total = l.metric.toNat + rest

section Routes

variable {NetDevice : Type} [DecidableEq NetDevice] {ipv4 : Ipv4Addresses NetDevice}
  {others : Rest} {e : Ipv4Address → Environment} {dLsa : GlobalRoutingLSA}

/-- The table has a route to the address, and all of them lead on. -/
def LeadAllOn (ipv4 : Ipv4Addresses NetDevice) (e : Ipv4Address → Environment) (lsdb : LSDB)
    (lsa : GlobalRoutingLSA) (owner dest : Ipv4Address) (total : ℕ) (table : GlobalRouting) :
    Prop :=
  table.allRoutes ipv4 none dest ≠ [] ∧
    ∀ route ∈ table.allRoutes ipv4 none dest, LeadsOn e lsdb lsa owner total route

/-- The default route of a router with one link. -/
theorem stub_spec (h : lsdb.PointToPoint) (hlsa : lsa ∈ lsdb)
    (hinterfaces : Interfaces (e lsa.linkStateId) lsa) {dest owner : Ipv4Address} {rest : ℕ}
    (hl : l ∈ lsa.linkRecords) (hstub : l.linkType ≠ .StubNetwork)
    (hsingle : (lsa.linkRecords.filter fun r =>
      r.linkType = .TransitNetwork || r.linkType = .PointToPoint) = [l])
    (hrest : Walk lsdb.Edge l.linkId owner rest) :
    ∃ table, spfCalculate others (e lsa.linkStateId) lsdb lsa = some table ∧
      LeadAllOn ipv4 e lsdb lsa owner dest (l.metric.toNat + rest) table := by
  obtain ⟨wLsa, hwMem, hwLsa, -⟩ := h.exists_neighbour hlsa hl hstub
  obtain ⟨l', hl', hstub', hid', hunique⟩ := h.exists_back hlsa hl hstub hwLsa
  have hp2p' := (h.link wLsa hwMem l' hl' hstub').1
  have hfind : (wLsa.linkRecords.find? fun lr =>
      lr.linkType = .PointToPoint && lr.linkId = lsa.linkStateId) = some l' := by
    obtain ⟨r, hr⟩ : ∃ r, (wLsa.linkRecords.find? fun lr =>
        lr.linkType = .PointToPoint && lr.linkId = lsa.linkStateId) = some r := by
      rw [← Option.isSome_iff_exists, List.find?_isSome]
      exact ⟨l', hl', by simp [hp2p', hid']⟩
    have hmatch := List.find?_some hr
    simp only [Bool.and_eq_true, decide_eq_true_eq] at hmatch
    rw [hr, hunique r (List.mem_of_find?_eq_some hr) hmatch.2]
  let default : Ipv4RoutingTableEntry := ⟨0, ⟨0⟩, l'.linkData, interfaceIndex
    ((e lsa.linkStateId).findOutgoingInterfaceId l.linkData 0xffffffff)⟩
  have hcheck : checkForStubNode (e lsa.linkStateId) lsdb lsa = some (some [default]) := by
    unfold checkForStubNode
    rw [hsingle]
    dsimp only
    rw [if_neg (by rw [(h.link lsa hlsa l hl hstub).1]; decide), hwLsa, Option.map_some, hfind,
      Option.map_some]
  unfold spfCalculate
  rw [hcheck, Option.bind_some]
  have hroutes : ∀ table : GlobalRouting, table.hostRoutes = [] → table.networkRoutes = [default] →
      table.allRoutes ipv4 none dest = [default] := by
    intro table hhosts hnetworks
    simp [GlobalRouting.allRoutes, GlobalRouting.matchingHosts, GlobalRouting.matchingNetworks,
      StaticRouting.matching, Ipv4Mask.isMatch, hhosts, hnetworks, default]
  refine ⟨_, rfl, ?_, fun route hroute => ?_⟩
  · rw [hroutes _ rfl rfl]
    exact List.cons_ne_nil _ _
  · rw [hroutes _ rfl rfl] at hroute
    rw [List.mem_singleton.mp hroute]
    exact ⟨l, hl, hstub, linkBehind_of_mem h hlsa hinterfaces hl hstub,
      ⟨wLsa, hwLsa, l', hl', hp2p', rfl⟩, rest, hrest, rfl⟩

/-- The host routes for an address are the exits of its owner. -/
theorem mem_hostRoutes_tree (h : lsdb.PointToPoint) {e : Environment} {fuel : ℕ} {final : SPFState}
    (hfinal : SPFState.mainLoop e lsdb lsa.linkStateId fuel (SPFState.init lsa) = some final)
    (hpaths : SPFState.ShortestPaths lsdb lsa.linkStateId final.tree)
    (hright : SPFState.RightExits e lsdb lsa (otherEnd lsdb lsa) final.tree)
    (hstored : ∀ t ∈ final.tree, t.lsa ∈ lsdb)
    (hdLsa : dLsa ∈ lsdb) (hl : l ∈ dLsa.linkRecords) (hstub : l.linkType ≠ .StubNetwork)
    (hne : dLsa.linkStateId ≠ lsa.linkStateId)
    (hleast : IsLeast {cost | Walk lsdb.Edge lsa.linkStateId dLsa.linkStateId cost} cost)
    (route : Ipv4RoutingTableEntry) :
    (route ∈ (final.tree.tail.filter fun v => !v.lsa.isNetwork).flatMap SPFVertex.hostRoutes ∧
      route.dest = l.linkData) ↔
        ∃ x, FirstHop e lsdb lsa (otherEnd lsdb lsa) dLsa.linkStateId cost x ∧
          0 ≤ x.2 ∧ route = ⟨l.linkData, ⟨0xffffffff⟩, x.1, interfaceIndex x.2⟩ := by
  obtain ⟨t, ht, hid⟩ := List.mem_map.mp ((hpaths.all _).mpr ⟨cost, hleast.1⟩)
  have hdistance : t.distanceFromRoot.toNat = cost := by
    have hleast' := hpaths.least t ht
    rw [hid] at hleast'
    exact hleast'.unique hleast
  have htail := (SPFState.mem_tail_iff hfinal hpaths.once).mpr ⟨ht, by rwa [hid]⟩
  have hexits := hright t ht (by rwa [hid])
  rw [hid, hdistance] at hexits
  have howner : t.lsa = dLsa :=
    List.inj_on_of_nodup_map h.wellFormed.distinct (hstored t ht) hdLsa hid
  constructor
  · rintro ⟨hroute, hdest⟩
    obtain ⟨t', ht', hroute⟩ := List.mem_flatMap.mp hroute
    obtain ⟨htail', -⟩ := List.mem_filter.mp ht'
    obtain ⟨htree', -⟩ := (SPFState.mem_tail_iff hfinal hpaths.once).mp htail'
    obtain ⟨lr, hlr, htype, x, hx, hpos, rfl⟩ := mem_hostRoutes.mp hroute
    have hlrStub : lr.linkType ≠ .StubNetwork := by
      rw [htype]
      decide
    obtain ⟨hsame, -⟩ :=
      h.address t'.lsa (hstored t' htree') dLsa hdLsa lr hlr l hl hlrStub hstub hdest
    have hids : t'.vertexId = t.vertexId := by
      rw [hid, ← hsame]
      rfl
    obtain rfl := List.inj_on_of_nodup_map hpaths.once htree' ht hids
    exact ⟨x, (hexits x).mp hx, hpos, by rw [← hdest]⟩
  · rintro ⟨x, hx, hpos, rfl⟩
    refine ⟨List.mem_flatMap.mpr ⟨t, List.mem_filter.mpr ⟨htail, ?_⟩, ?_⟩, rfl⟩
    · rw [h.router _ (hstored t ht)]
      rfl
    · rw [mem_hostRoutes, howner]
      exact ⟨l, hl, (h.link dLsa hdLsa l hl hstub).1, x, (hexits x).mpr hx, hpos, rfl⟩

theorem leadAllOn_of_hostRoutes (h : lsdb.PointToPoint) (hlsa : lsa ∈ lsdb)
    (hinterfaces : Interfaces (e lsa.linkStateId) lsa) (hne : dLsa.linkStateId ≠ lsa.linkStateId)
    (hleast : IsLeast {cost | Walk lsdb.Edge lsa.linkStateId dLsa.linkStateId cost} cost)
    {table : GlobalRouting} {dest : Ipv4Address}
    (hhosts : ∀ route, (route ∈ table.hostRoutes ∧ route.dest = dest) ↔
      ∃ x, FirstHop (e lsa.linkStateId) lsdb lsa (otherEnd lsdb lsa) dLsa.linkStateId cost x ∧
        0 ≤ x.2 ∧ route = ⟨dest, ⟨0xffffffff⟩, x.1, interfaceIndex x.2⟩) :
    LeadAllOn ipv4 e lsdb lsa dLsa.linkStateId dest cost table := by
  obtain ⟨x, hx⟩ := h.exists_least_firstHop (e := e lsa.linkStateId) hlsa hleast hne
  obtain ⟨r, hr, hrStub, hxr, -⟩ := h.link_of_firstHop hx
  have hpos : 0 ≤ x.2 := by
    rw [hxr]
    exact (hinterfaces.1 r hr hrStub).1
  have hmatching : ⟨dest, ⟨0xffffffff⟩, x.1, interfaceIndex x.2⟩ ∈
      table.matchingHosts ipv4 none dest :=
    mem_matchingHosts.mpr ((hhosts _).mpr ⟨x, hx, hpos, rfl⟩)
  unfold LeadAllOn
  rw [allRoutes_of_host hmatching]
  refine ⟨List.ne_nil_of_mem hmatching, fun route hroute => ?_⟩
  obtain ⟨y, hy, -, rfl⟩ := (hhosts _).mp (mem_matchingHosts.mp hroute)
  obtain ⟨r, hr, hrStub, hyr, rest, hrest, htotal⟩ := h.link_of_firstHop hy
  subst hyr
  exact ⟨r, hr, hrStub, linkBehind_of_mem h hlsa hinterfaces hr hrStub,
    owns_otherEnd h hlsa hr hrStub, rest, hrest, htotal⟩

/-- Routers with one link have a default route, the others a route to every address of another
router. -/
theorem routes_spec (h : lsdb.PointToPoint) (hlsa : lsa ∈ lsdb)
    (hinterfaces : Interfaces (e lsa.linkStateId) lsa)
    (hcost : ∀ visited v cost,
      Trail lsdb.Edge lsa.linkStateId visited v cost → cost < 2 ^ 32)
    (hdLsa : dLsa ∈ lsdb) (hl : l ∈ dLsa.linkRecords) (hstub : l.linkType ≠ .StubNetwork)
    (hne : dLsa.linkStateId ≠ lsa.linkStateId)
    (hleast : IsLeast {cost | Walk lsdb.Edge lsa.linkStateId dLsa.linkStateId cost} cost) :
    ∃ table, spfCalculate others (e lsa.linkStateId) lsdb lsa = some table ∧
      LeadAllOn ipv4 e lsdb lsa dLsa.linkStateId l.linkData cost table := by
  obtain ⟨u, weight, rest, hstep, hrest, rfl⟩ :=
    (walk_cases hleast.1).resolve_left fun heq => hne heq.1
  obtain ⟨first, hfirst, hfirstStub, rfl, rfl⟩ := (h.edge_iff hlsa).mp hstep
  have htransit : first ∈ lsa.linkRecords.filter fun r =>
      r.linkType = .TransitNetwork || r.linkType = .PointToPoint :=
    List.mem_filter.mpr ⟨hfirst, by simp [(h.link lsa hlsa first hfirst hfirstStub).1]⟩
  obtain ⟨r, links, hlinks⟩ := List.exists_cons_of_ne_nil (List.ne_nil_of_mem htransit)
  cases links with
  | nil =>
      rw [hlinks] at htransit
      obtain rfl := List.mem_singleton.mp htransit
      exact stub_spec h hlsa hinterfaces hfirst hfirstStub hlinks hrest
  | cons r' links =>
      have hcheck : checkForStubNode (e lsa.linkStateId) lsdb lsa = some none := by
        unfold checkForStubNode
        rw [hlinks]
      obtain ⟨final, hfinal, hpaths, hright, hstored⟩ :=
        h.mainLoop_spec (e := e lsa.linkStateId) hlsa hcost
      unfold spfCalculate
      rw [hcheck, Option.bind_some]
      dsimp only
      rw [hfinal, Option.map_some]
      exact ⟨_, rfl, leadAllOn_of_hostRoutes h hlsa hinterfaces hne hleast
        (mem_hostRoutes_tree h hfinal hpaths hright hstored hdLsa hl hstub hne hleast)⟩

/-- On every route it is less to the destination from the next router than from this one. -/
theorem delivers_of_least {others : Ipv4Address → Rest} (h : lsdb.PointToPoint)
    (hinterfaces : ∀ lsa ∈ lsdb, Interfaces (e lsa.linkStateId) lsa)
    (hcost : ∀ lsa ∈ lsdb, ∀ visited v cost,
      Trail lsdb.Edge lsa.linkStateId visited v cost → cost < 2 ^ 32)
    (hdLsa : dLsa ∈ lsdb) (hl : l ∈ dLsa.linkRecords) (hstub : l.linkType ≠ .StubNetwork)
    (hlsa : lsa ∈ lsdb)
    (hleast : IsLeast {cost | Walk lsdb.Edge lsa.linkStateId dLsa.linkStateId cost} cost) :
    Delivers ipv4 others e lsdb l.linkData dLsa.linkStateId lsa.linkStateId cost := by
  induction cost using Nat.strong_induction_on generalizing lsa with
  | _ cost ih =>
      by_cases hne : dLsa.linkStateId = lsa.linkStateId
      · rw [← hne] at hleast ⊢
        obtain rfl := Nat.le_zero.mp (hleast.2 Walk.nil)
        exact .here
      · obtain ⟨table, hcomputed, hrouted, hleads⟩ :
            ∃ table, spfCalculate (others lsa.linkStateId) (e lsa.linkStateId) lsdb lsa =
              some table ∧ LeadAllOn ipv4 e lsdb lsa dLsa.linkStateId l.linkData cost table :=
          routes_spec h hlsa (hinterfaces lsa hlsa) (hcost lsa hlsa) hdLsa hl hstub hne hleast
        have : Nonempty GlobalRoutingLinkRecord := ⟨l⟩
        unfold LeadsOn at hleads
        choose! link hrecord hnotStub hbehind howns left hwalk htotal using hleads
        refine .forward (Ne.symm hne) hlsa hcomputed hrouted
          (fun route hroute => ⟨hbehind route hroute, howns route hroute⟩) htotal
          fun route hroute => ?_
        obtain ⟨wLsa, hwMem, -, hid⟩ :=
          h.exists_neighbour hlsa (hrecord route hroute) (hnotStub route hroute)
        have hmetric := (h.wellFormed.record lsa hlsa _ (hrecord route hroute)
          (hnotStub route hroute)).2.1
        have hstep := (h.edge_iff hlsa).mpr
          ⟨link route, hrecord route hroute, hnotStub route hroute, rfl, rfl⟩
        have hsum := htotal route hroute
        rw [← hid]
        refine ih (left route) ?_ hwMem ⟨?_, fun other hother => ?_⟩
        · omega
        · rw [hid]
          exact hwalk route hroute
        · rw [hid] at hother
          have hle := hleast.2 (walk_cons hstep hother)
          omega

/-- Forwarding by the installed routes never loops: a packet for an address of a router that can be
reached comes to it over a shortest path, whichever of several routes each router chooses. -/
theorem routes_deliver {others : Ipv4Address → Rest} (h : lsdb.PointToPoint)
    (hinterfaces : ∀ lsa ∈ lsdb, Interfaces (e lsa.linkStateId) lsa)
    (hcost : ∀ lsa ∈ lsdb, ∀ visited v cost,
      Trail lsdb.Edge lsa.linkStateId visited v cost → cost < 2 ^ 32)
    (hdLsa : dLsa ∈ lsdb) (hl : l ∈ dLsa.linkRecords) (hstub : l.linkType ≠ .StubNetwork)
    (hlsa : lsa ∈ lsdb) (hwalk : Walk lsdb.Edge lsa.linkStateId dLsa.linkStateId cost) :
    ∃ least ≤ cost,
      IsLeast {cost | Walk lsdb.Edge lsa.linkStateId dLsa.linkStateId cost} least ∧
        Delivers ipv4 others e lsdb l.linkData dLsa.linkStateId lsa.linkStateId least := by
  have hnonempty : {cost | Walk lsdb.Edge lsa.linkStateId dLsa.linkStateId cost}.Nonempty :=
    ⟨cost, hwalk⟩
  have hleast : IsLeast {cost | Walk lsdb.Edge lsa.linkStateId dLsa.linkStateId cost}
      (sInf {cost | Walk lsdb.Edge lsa.linkStateId dLsa.linkStateId cost}) :=
    ⟨Nat.sInf_mem hnonempty, fun other hother => Nat.sInf_le hother⟩
  exact ⟨_, hleast.2 hwalk, hleast,
    delivers_of_least h hinterfaces hcost hdLsa hl hstub hlsa hleast⟩

def westRouter : GlobalRoutingLSA :=
  ⟨1, .RouterLSA [⟨2, 12, .PointToPoint, 1⟩, ⟨3, 13, .PointToPoint, 3⟩,
    ⟨100, 0xffffff00, .StubNetwork, 1⟩]⟩

def eastRouter : GlobalRoutingLSA :=
  ⟨3, .RouterLSA [⟨1, 31, .PointToPoint, 3⟩, ⟨2, 32, .PointToPoint, 1⟩, ⟨4, 34, .PointToPoint, 1⟩]⟩

def remoteRouter : GlobalRoutingLSA := ⟨4, .RouterLSA [⟨3, 43, .PointToPoint, 1⟩]⟩

/-- Three routers in a triangle, and a fourth one behind one of them. -/
def campus : LSDB :=
  [westRouter, ⟨2, .RouterLSA [⟨1, 21, .PointToPoint, 1⟩, ⟨3, 23, .PointToPoint, 1⟩]⟩, eastRouter,
    remoteRouter]

/-- The interfaces have the numbers of the routers at the other end. -/
def campusInterfaces (_ : Ipv4Address) : Environment :=
  ⟨fun addr _ => addr.toNat % 10, fun a b => a ≤ b⟩

/-- The long link of the triangle is on no shortest path. -/
theorem routes_deliver_campus :
    ∃ least ≤ 4, IsLeast {cost | Walk campus.Edge 4 1 cost} least ∧
      Delivers GlobalRouting.devices (fun _ => ⟨fun _ => [], fun _ => [], false, false⟩)
        campusInterfaces campus 12 1 4 least := by
  have hwf : campus.WellFormed := ⟨by decide, by decide⟩
  have hp2p : campus.PointToPoint :=
    ⟨hwf, by decide, by decide, by decide, by decide, by decide, by decide⟩
  have hinterfaces : ∀ lsa ∈ campus, Interfaces (campusInterfaces lsa.linkStateId) lsa := by
    unfold Interfaces
    decide
  have hcost : ∀ lsa ∈ campus, ∀ visited v cost,
      Trail campus.Edge lsa.linkStateId visited v cost → cost < 2 ^ 32 :=
    fun lsa hlsa => SPFState.cost_lt hwf (List.mem_map_of_mem hlsa) (by decide)
  have hremote : remoteRouter ∈ campus := by decide
  have heast : eastRouter ∈ campus := by decide
  have hwest : westRouter ∈ campus := by decide
  have hrecord : ⟨2, 12, .PointToPoint, 1⟩ ∈ westRouter.linkRecords := by decide
  have hfirst : campus.Edge remoteRouter.linkStateId 3 1 :=
    (hp2p.edge_iff hremote).mpr ⟨⟨3, 43, .PointToPoint, 1⟩, by decide⟩
  have hsecond : campus.Edge eastRouter.linkStateId 1 3 :=
    (hp2p.edge_iff heast).mpr ⟨⟨1, 31, .PointToPoint, 3⟩, by decide⟩
  exact routes_deliver hp2p hinterfaces hcost hwest hrecord (by decide) hremote
    ((Walk.nil.snoc hfirst).snoc hsecond)

end Routes

end Ns3Rdma.Routing
