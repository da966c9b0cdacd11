import Ns3Rdma.Routing.Forwarding

/-! # From the interfaces to the routes

Every router describes its interfaces in an LSA, and `SPFCalculate` works on the database of all
LSAs. An interface has one address. It is at one end of a point-to-point link, or there is no other
router on its link. -/

namespace Ns3Rdma.Routing

open ShortestPath

/-! ## Nodes -/

/-- `remote` is the node and the interface at the other end of a point-to-point link. -/
structure Ipv4Interface where
  addr : Ipv4Address
  mask : Ipv4Mask
  metric : UInt16
  isUp : Bool
  isForwarding : Bool
  remote : Option (ℕ × ℕ)

/-- The router ID is the one of the `GlobalRouter` of the node. A device is the index of its
interface; a number without an interface is a device that IP does not use. -/
structure Node where
  routerId : Option Ipv4Address
  interfaces : List Ipv4Interface
  devices : List ℕ

/-- The `NodeList`. -/
abbrev Network := List Node

/-- `Ipv4L3Protocol::GetInterfaceForPrefix`. -/
def Node.getInterfaceForPrefix (node : Node) (address mask : Ipv4Address) : ℤ :=
  match node.interfaces.findIdx? fun i => i.addr &&& mask = address &&& mask with
  | some interface => interface
  | none => -1

/-- `GlobalRouteManagerLSDB::Insert`; `std::map::insert` leaves an entry of the key as it is. -/
def LSDB.insert (lsa : GlobalRoutingLSA) : LSDB → LSDB
  | [] => [lsa]
  | first :: rest =>
      if lsa.linkStateId < first.linkStateId then lsa :: first :: rest
      else if first.linkStateId < lsa.linkStateId then first :: LSDB.insert lsa rest
      else first :: rest

namespace Network

variable (net : Network)

/-- `ProcessPointToPointLink`; it is `none` if the other end has no interface. -/
def processPointToPointLink (interfaceLocal : Ipv4Interface) (remote : ℕ × ℕ) :
    Option (List GlobalRoutingLinkRecord) :=
  net[remote.1]?.bind fun nodeRemote =>
    match nodeRemote.routerId with
    | none => some []
    | some rtrIdRemote => nodeRemote.interfaces[remote.2]?.map fun interfaceRemote =>
        (if interfaceRemote.isUp then
          [⟨rtrIdRemote, interfaceLocal.addr, .PointToPoint, interfaceLocal.metric⟩] else []) ++
          [⟨interfaceRemote.addr, interfaceRemote.mask.mask, .StubNetwork, interfaceLocal.metric⟩]

/-- The stub network of `ProcessSingleBroadcastLink`. -/
def processSingleBroadcastLink (interfaceLocal : Ipv4Interface) : GlobalRoutingLinkRecord :=
  ⟨interfaceLocal.addr &&& interfaceLocal.mask.mask, interfaceLocal.mask.mask, .StubNetwork,
    interfaceLocal.metric⟩

/-- A turn of the loop of `DiscoverLSAs` over the devices. -/
def deviceRecords (node : Node) (device : ℕ) : Option (List GlobalRoutingLinkRecord) :=
  match node.interfaces[device]? with
  | none => some []
  | some interface =>
      if interface.isUp && interface.isForwarding then
        match interface.remote with
        | none => some [processSingleBroadcastLink interface]
        | some remote => net.processPointToPointLink interface remote
      else some []

/-- `DiscoverLSAs` of the router with this ID. -/
def discoverLSAs (node : Node) (routerId : Ipv4Address) : Option GlobalRoutingLSA :=
  (node.devices.mapM (net.deviceRecords node)).map fun records =>
    ⟨routerId, .RouterLSA records.flatten⟩

def buildGlobalRoutingDatabase : Option LSDB :=
  net.foldlM (fun lsdb node =>
    match node.routerId with
    | none => some lsdb
    | some routerId => (net.discoverLSAs node routerId).map fun lsa => LSDB.insert lsa lsdb) []

/-- `FindOutgoingInterfaceId`, when the tree is rooted at this router. -/
def findOutgoingInterfaceId (root a amask : Ipv4Address) : ℤ :=
  match net.find? fun node => node.routerId = some root with
  | some node => node.getInterfaceForPrefix a amask
  | none => -1

/-- What the calculations get from the nodes, for any order of the pointers to vertices. -/
def environments (pointerLe : Ipv4Address → Ipv4Address → Ipv4Address → Bool)
    (root : Ipv4Address) : Environment :=
  ⟨net.findOutgoingInterfaceId root, pointerLe root⟩

/-! ## Links of the network -/

def interfaceAt (x : ℕ × ℕ) : Option Ipv4Interface :=
  net[x.1]?.bind fun node => node.interfaces[x.2]?

/-- The interface is up, and it belongs to the router with this ID. -/
def Up (x : ℕ × ℕ) (id : Ipv4Address) (interface : Ipv4Interface) : Prop :=
  interface.isUp = true ∧
    ∃ node, net[x.1]? = some node ∧ node.routerId = some id ∧
      node.interfaces[x.2]? = some interface

/-- The interface and the one at its other end are up. -/
def Connects (x : ℕ × ℕ) (v w : Ipv4Address) (interface : Ipv4Interface) : Prop :=
  net.Up x v interface ∧ ∃ y ∈ interface.remote, ∃ other, net.Up y w other

/-- One router is connected to another one over an interface with this metric. -/
def Link (v w : Ipv4Address) (cost : ℕ) : Prop :=
  ∃ x interface, net.Connects x v w interface ∧ interface.metric.toNat = cost

/-- Point-to-point links have two ends, which have addresses and a metric of their own, and there is
at most one link between two routers that is up. -/
structure Sound : Prop where
  routerIds : (net.filterMap Node.routerId).Nodup
  nodes : net.length ≤ 65537
  interfaces : ∀ node ∈ net, node.interfaces.length ≤ 2 ^ 31
  devices : ∀ node ∈ net, ∀ i < node.interfaces.length, i ∈ node.devices
  /-- The other end of the other end is this one. -/
  remote : ∀ x interface, net.interfaceAt x = some interface → ∀ y ∈ interface.remote,
    y.1 ≠ x.1 ∧ (net.interfaceAt y).bind Ipv4Interface.remote = some x
  forwards : ∀ node ∈ net, ∀ i ∈ node.interfaces, i.remote.isSome → i.isUp → i.isForwarding
  metric : ∀ node ∈ net, ∀ i ∈ node.interfaces, i.remote.isSome → 0 < i.metric.toNat
  nonzero : ∀ node ∈ net, ∀ i ∈ node.interfaces, i.remote.isSome → i.addr ≠ 0
  address : ∀ x interface y other, net.interfaceAt x = some interface →
    net.interfaceAt y = some other → interface.remote.isSome → interface.addr = other.addr → x = y
  /-- Addresses of links and prefixes of other networks are not router IDs. -/
  noRouterId : ∀ node ∈ net, ∀ i ∈ node.interfaces,
    (if i.remote.isSome then i.addr else i.addr &&& i.mask.mask) ∉ net.filterMap Node.routerId
  single : ∀ x y v w interface other, net.Connects x v w interface → net.Connects y v w other →
    x = y

/-- The database has one LSA for each router, and in it one link record for each of its interfaces
whose link is up at both ends. -/
structure Represents (lsdb : LSDB) : Prop where
  routers : (lsdb.map GlobalRoutingLSA.linkStateId).Perm (net.filterMap Node.routerId)
  records : ∀ lsa ∈ lsdb, ∀ l, (l ∈ lsa.linkRecords ∧ l.linkType ≠ .StubNetwork) ↔
    ∃ x w interface, net.Connects x lsa.linkStateId w interface ∧
      l = ⟨w, interface.addr, .PointToPoint, interface.metric⟩
  links : ∀ v w cost, lsdb.Edge v w cost ↔ net.Link v w cost

/-! ## The records of a device -/

variable {net} {node : Node} {interface : Ipv4Interface} {l : GlobalRoutingLinkRecord}
  {v w id : Ipv4Address} {x y : ℕ × ℕ} {i : ℕ}

/-- The records that `DiscoverLSAs` adds for a device. -/
def records (net : Network) (node : Node) (device : ℕ) : List GlobalRoutingLinkRecord :=
  (net.deviceRecords node device).getD []

/-- The LSA of a router. -/
def lsaOf (net : Network) (node : Node) (id : Ipv4Address) : GlobalRoutingLSA :=
  ⟨id, .RouterLSA (node.devices.flatMap (net.records node))⟩

/-- The LSAs in the order of the nodes. -/
def lsas (net : Network) : List GlobalRoutingLSA :=
  net.filterMap fun node => node.routerId.map (net.lsaOf node)

theorem mem_processPointToPointLink (h : l ∈ (net.processPointToPointLink interface y).getD []) :
    ∃ nodeRemote id other, net[y.1]? = some nodeRemote ∧ nodeRemote.routerId = some id ∧
      nodeRemote.interfaces[y.2]? = some other ∧
        (other.isUp = true ∧ l = ⟨id, interface.addr, .PointToPoint, interface.metric⟩ ∨
          l = ⟨other.addr, other.mask.mask, .StubNetwork, interface.metric⟩) := by
  unfold processPointToPointLink at h
  cases hnode : net[y.1]? with
  | none => simp [hnode] at h
  | some nodeRemote =>
      rw [hnode, Option.bind_some] at h
      cases hid : nodeRemote.routerId with
      | none => simp [hid] at h
      | some id =>
          rw [hid] at h
          dsimp only at h
          cases hother : nodeRemote.interfaces[y.2]? with
          | none => simp [hother] at h
          | some other =>
              rw [hother, Option.map_some, Option.getD_some] at h
              refine ⟨nodeRemote, id, other, rfl, hid, hother, ?_⟩
              rcases List.mem_append.mp h with h | h
              · split at h
                next hup => exact Or.inl ⟨hup, List.mem_singleton.mp h⟩
                next => cases h
              · exact Or.inr (List.mem_singleton.mp h)

/-- What the records of a device say. -/
theorem of_mem_records (h : l ∈ net.records node i) :
    ∃ interface, node.interfaces[i]? = some interface ∧ interface.isUp = true ∧
      (interface.remote = none ∧ l = processSingleBroadcastLink interface ∨
        ∃ y ∈ interface.remote, l ∈ (net.processPointToPointLink interface y).getD []) := by
  unfold records deviceRecords at h
  cases hinterface : node.interfaces[i]? with
  | none => simp [hinterface] at h
  | some interface =>
      rw [hinterface] at h
      dsimp only at h
      by_cases hup : (interface.isUp && interface.isForwarding) = true
      · rw [if_pos hup] at h
        refine ⟨interface, rfl, (Bool.and_eq_true_iff.mp hup).1, ?_⟩
        cases hremote : interface.remote with
        | none =>
            rw [hremote] at h
            exact Or.inl ⟨rfl, List.mem_singleton.mp h⟩
        | some y =>
            rw [hremote] at h
            exact Or.inr ⟨y, rfl, h⟩
      · rw [if_neg hup] at h
        cases h

/-- The records of links describe the connections of the interface. -/
theorem connects_of_mem_records {k : ℕ} (hk : net[k]? = some node) (hid : node.routerId = some id)
    (hl : l ∈ net.records node i) (hstub : l.linkType ≠ .StubNetwork) :
    ∃ interface, net.Connects (k, i) id l.linkId interface ∧
      l = ⟨l.linkId, interface.addr, .PointToPoint, interface.metric⟩ := by
  obtain ⟨interface, hinterface, hup, ⟨-, rfl⟩ | ⟨y, hy, hrecord⟩⟩ := of_mem_records hl
  · exact absurd rfl hstub
  · obtain ⟨nodeRemote, idRemote, other, hnode, hidRemote, hother, ⟨hupRemote, rfl⟩ | rfl⟩ :=
      mem_processPointToPointLink hrecord
    · exact ⟨interface, ⟨⟨hup, node, hk, hid, hinterface⟩, y, hy, other, hupRemote, nodeRemote,
        hnode, hidRemote, hother⟩, rfl⟩
    · exact absurd rfl hstub

theorem interfaceAt_of_up (h : net.Up x v interface) : net.interfaceAt x = some interface := by
  obtain ⟨-, node, hnode, -, hinterface⟩ := h
  rw [interfaceAt, hnode, Option.bind_some, hinterface]

theorem interfaceAt_eq_some (h : net.interfaceAt x = some interface) :
    ∃ node, net[x.1]? = some node ∧ node.interfaces[x.2]? = some interface ∧ node ∈ net ∧
      interface ∈ node.interfaces := by
  obtain ⟨node, hnode, hinterface⟩ := Option.bind_eq_some_iff.mp h
  exact ⟨node, hnode, hinterface, List.mem_of_getElem? hnode, List.mem_of_getElem? hinterface⟩

theorem up_unique {interface' : Ipv4Interface} (hup : net.Up x v interface)
    (hup' : net.Up x w interface') : v = w ∧ interface = interface' := by
  obtain ⟨-, node, hnode, hid, hinterface⟩ := hup
  obtain ⟨-, node', hnode', hid', hinterface'⟩ := hup'
  obtain rfl := Option.some.inj (hnode.symm.trans hnode')
  exact ⟨Option.some.inj (hid.symm.trans hid'),
    Option.some.inj (hinterface.symm.trans hinterface')⟩

theorem connects_unique {w' : Ipv4Address} {interface' : Ipv4Interface}
    (hconnects : net.Connects x v w interface) (hconnects' : net.Connects x id w' interface') :
    v = id ∧ w = w' ∧ interface = interface' := by
  obtain ⟨hup, y, hremote, other, hother⟩ := hconnects
  obtain ⟨hup', y', hremote', other', hother'⟩ := hconnects'
  obtain ⟨rfl, rfl⟩ := up_unique hup hup'
  obtain rfl := Option.some.inj (hremote.symm.trans hremote')
  exact ⟨rfl, (up_unique hother hother').1, rfl⟩

/-- A connection is a link of a node. -/
theorem of_connects (hconnects : net.Connects x v w interface) :
    ∃ node ∈ net, interface ∈ node.interfaces ∧ interface.remote.isSome := by
  obtain ⟨⟨-, node, hnode, -, hinterface⟩, y, hremote, -⟩ := hconnects
  exact ⟨node, List.mem_of_getElem? hnode, List.mem_of_getElem? hinterface,
    Option.isSome_of_mem hremote⟩

/-! ## The database -/

theorem lsas_ids : net.lsas.map GlobalRoutingLSA.linkStateId = net.filterMap Node.routerId := by
  unfold lsas
  rw [List.map_filterMap]
  refine List.filterMap_congr fun node _ => ?_
  cases node.routerId with
  | none => rfl
  | some id => rfl

theorem insert_perm {lsa : GlobalRoutingLSA} {lsdb : LSDB}
    (hfresh : lsa.linkStateId ∉ lsdb.map GlobalRoutingLSA.linkStateId) :
    (LSDB.insert lsa lsdb).Perm (lsa :: lsdb) := by
  induction lsdb with
  | nil => exact .refl _
  | cons first rest ih =>
      have hfirst : lsa.linkStateId ∉
          first.linkStateId :: rest.map GlobalRoutingLSA.linkStateId := hfresh
      obtain ⟨hne, hrest⟩ := not_or.mp (mt List.mem_cons.mpr hfirst)
      unfold LSDB.insert
      split
      · exact .refl _
      next hle =>
        have hlt : first.linkStateId < lsa.linkStateId :=
          UInt32.lt_of_le_of_ne (UInt32.not_lt.mp hle) (Ne.symm hne)
        rw [if_pos hlt]
        exact ((ih hrest).cons first).trans (.swap lsa first rest)

section Sound

variable (h : net.Sound)
include h

theorem other_end (hat : net.interfaceAt x = some interface) (hy : y ∈ interface.remote) :
    y.1 ≠ x.1 ∧ ∃ other, net.interfaceAt y = some other ∧ other.remote = some x := by
  obtain ⟨hne, hback⟩ := h.remote x interface hat y hy
  exact ⟨hne, Option.bind_eq_some_iff.mp hback⟩

/-- Every connection has a record. -/
theorem mem_records_of_connects (hconnects : net.Connects x v w interface)
    (hnode : net[x.1]? = some node) :
    ⟨w, interface.addr, .PointToPoint, interface.metric⟩ ∈ net.records node x.2 := by
  obtain ⟨⟨hup, node', hnode', -, hinterface⟩, y, hremote, other, hupRemote, nodeRemote, hy, hid,
    hother⟩ := hconnects
  obtain rfl := Option.some.inj (hnode.symm.trans hnode')
  have hforwarding := h.forwards node (List.mem_of_getElem? hnode) interface
    (List.mem_of_getElem? hinterface) (by rw [Option.mem_def.mp hremote]; rfl) hup
  unfold records deviceRecords
  rw [hinterface]
  dsimp only
  rw [hup, hforwarding, Bool.and_true, if_pos rfl, Option.mem_def.mp hremote]
  dsimp only
  unfold processPointToPointLink
  rw [hy, Option.bind_some, hid]
  dsimp only
  rw [hother, Option.map_some, Option.getD_some, hupRemote, if_pos rfl]
  exact List.mem_append_left _ (List.mem_singleton.mpr rfl)

theorem deviceRecords_eq (hnode : node ∈ net) :
    net.deviceRecords node i = some (net.records node i) := by
  have hsome : (net.deviceRecords node i).isSome := by
    unfold deviceRecords
    cases hinterface : node.interfaces[i]? with
    | none => rfl
    | some interface =>
        dsimp only
        split
        · cases hremote : interface.remote with
          | none => rfl
          | some y =>
              obtain ⟨k, hk⟩ := List.mem_iff_getElem?.mp hnode
              have hat : net.interfaceAt (k, i) = some interface := by
                rw [interfaceAt, hk, Option.bind_some, hinterface]
              obtain ⟨-, other, hother, -⟩ := other_end h hat hremote
              obtain ⟨nodeRemote, hy, hinterfaceRemote, -⟩ := interfaceAt_eq_some hother
              dsimp only
              unfold processPointToPointLink
              rw [hy, Option.bind_some]
              cases nodeRemote.routerId with
              | none => rfl
              | some id =>
                  dsimp only
                  rw [hinterfaceRemote]
                  rfl
        · rfl
  unfold records
  obtain ⟨found, hfound⟩ := Option.isSome_iff_exists.mp hsome
  rw [hfound, Option.getD_some]

theorem discoverLSAs_eq (hnode : node ∈ net) :
    net.discoverLSAs node id = some (net.lsaOf node id) := by
  have hmap : ∀ devices : List ℕ, devices.mapM (net.deviceRecords node) =
      some (devices.map (net.records node)) := by
    intro devices
    induction devices with
    | nil => rfl
    | cons device rest ih =>
        rw [List.mapM_cons, deviceRecords_eq h hnode, ih]
        rfl
  rw [discoverLSAs, hmap, Option.map_some, ← List.flatMap_def]
  rfl

/-- The database holds the LSAs of all routers. -/
theorem buildGlobalRoutingDatabase_spec :
    ∃ lsdb, net.buildGlobalRoutingDatabase = some lsdb ∧ lsdb.Perm net.lsas := by
  have hfold : ∀ nodes, nodes ⊆ net → ∀ lsdb : LSDB,
      (lsdb.map GlobalRoutingLSA.linkStateId ++ nodes.filterMap Node.routerId).Nodup →
      ∃ lsdb', nodes.foldlM (fun lsdb node =>
          match node.routerId with
          | none => some lsdb
          | some routerId => (net.discoverLSAs node routerId).map fun lsa =>
              LSDB.insert lsa lsdb) lsdb = some lsdb' ∧
        lsdb'.Perm (lsdb ++ nodes.filterMap fun node => node.routerId.map (net.lsaOf node)) := by
    intro nodes
    induction nodes with
    | nil =>
        intro _ lsdb _
        exact ⟨lsdb, rfl, by simp⟩
    | cons node rest ih =>
        intro hsub lsdb hnodup
        obtain ⟨hnode, hrest⟩ := List.cons_subset.mp hsub
        cases hid : node.routerId with
        | none =>
            rw [List.filterMap_cons_none hid] at hnodup
            obtain ⟨lsdb', hfold, hperm⟩ := ih hrest lsdb hnodup
            refine ⟨lsdb', ?_, ?_⟩
            · rw [List.foldlM_cons, hid]
              exact hfold
            · rwa [List.filterMap_cons_none (by rw [hid, Option.map_none])]
        | some id =>
            rw [List.filterMap_cons_some hid] at hnodup
            have hfresh : id ∉ lsdb.map GlobalRoutingLSA.linkStateId := fun hmem =>
              (List.nodup_append.mp hnodup).2.2 id hmem id List.mem_cons_self rfl
            have hinsert := @insert_perm (net.lsaOf node id) lsdb hfresh
            obtain ⟨lsdb', hfold, hperm⟩ := ih hrest (LSDB.insert (net.lsaOf node id) lsdb) (by
              refine List.Perm.nodup ?_ hnodup
              refine List.perm_middle.trans ?_
              exact ((hinsert.map GlobalRoutingLSA.linkStateId).symm.append_right _))
            refine ⟨lsdb', ?_, ?_⟩
            · rw [List.foldlM_cons, hid]
              dsimp only
              rw [discoverLSAs_eq h hnode]
              exact hfold
            · rw [List.filterMap_cons_some (by rw [hid, Option.map_some])]
              exact hperm.trans ((hinsert.append_right _).trans List.perm_middle.symm)
  obtain ⟨lsdb, hbuild, hperm⟩ := hfold net (List.Subset.refl _) [] h.routerIds
  exact ⟨lsdb, hbuild, hperm⟩

/-! ## The links of the database -/

theorem index_of_routerId {k k' : ℕ} {node' : Node} (hk : net[k]? = some node)
    (hk' : net[k']? = some node') (hid : node.routerId = some id)
    (hid' : node'.routerId = some id) : k = k' := by
  have hpairwise := List.pairwise_filterMap.mp h.routerIds
  obtain ⟨hlt, rfl⟩ := List.getElem?_eq_some_iff.mp hk
  obtain ⟨hlt', rfl⟩ := List.getElem?_eq_some_iff.mp hk'
  rcases lt_trichotomy k k' with hbefore | heq | hafter
  · exact absurd rfl (List.pairwise_iff_getElem.mp hpairwise k k' hlt hlt' hbefore id hid id hid')
  · exact heq
  · exact absurd rfl (List.pairwise_iff_getElem.mp hpairwise k' k hlt' hlt hafter id hid' id hid)

/-- The other end is connected to this one. -/
theorem connects_back (hconnects : net.Connects x v w interface) :
    ∃ y ∈ interface.remote, ∃ other, net.Connects y w v other := by
  obtain ⟨hup, y, hremote, other, hother⟩ := hconnects
  obtain ⟨-, other', hat, hback⟩ := other_end h (interfaceAt_of_up hup) hremote
  obtain rfl := Option.some.inj (hat.symm.trans (interfaceAt_of_up hother))
  exact ⟨y, hremote, other', hother, x, hback, interface, hup⟩

theorem ne_of_connects (hconnects : net.Connects x v w interface) : w ≠ v := by
  rintro rfl
  obtain ⟨hup, y, hremote, other, hother⟩ := hconnects
  obtain ⟨hne, -⟩ := other_end h (interfaceAt_of_up hup) hremote
  obtain ⟨-, node, hnode, hid, -⟩ := hup
  obtain ⟨-, node', hnode', hid', -⟩ := hother
  exact hne (index_of_routerId h hnode' hnode hid' hid)

/-- The records of an LSA that lead to routers. -/
theorem mem_linkRecords_iff {k : ℕ} (hk : net[k]? = some node) (hid : node.routerId = some id) :
    l ∈ (net.lsaOf node id).linkRecords ∧ l.linkType ≠ .StubNetwork ↔
      ∃ i interface, net.Connects (k, i) id l.linkId interface ∧
        l = ⟨l.linkId, interface.addr, .PointToPoint, interface.metric⟩ := by
  constructor
  · rintro ⟨hl, hstub⟩
    obtain ⟨i, -, hrecord⟩ := List.mem_flatMap.mp hl
    exact ⟨i, connects_of_mem_records hk hid hrecord hstub⟩
  · rintro ⟨i, interface, hconnects, heq⟩
    have hrecord := mem_records_of_connects h hconnects hk
    rw [← heq] at hrecord
    obtain ⟨-, node', hk', -, hinterface⟩ := hconnects.1
    obtain rfl := Option.some.inj (hk.symm.trans hk')
    have hlt : i < node.interfaces.length := (List.getElem?_eq_some_iff.mp hinterface).1
    refine ⟨List.mem_flatMap.mpr ⟨i, h.devices node (List.mem_of_getElem? hk) i hlt, hrecord⟩, ?_⟩
    rw [heq]
    exact LinkType.noConfusion

/-- Stub networks do not have the IDs of routers. -/
theorem stub_linkId (hnode : node ∈ net) (hl : l ∈ (net.lsaOf node id).linkRecords)
    (hstub : l.linkType = .StubNetwork) : l.linkId ∉ net.filterMap Node.routerId := by
  obtain ⟨i, -, hrecord⟩ := List.mem_flatMap.mp hl
  obtain ⟨interface, hinterface, -, ⟨hnone, rfl⟩ | ⟨y, hremote, hlink⟩⟩ := of_mem_records hrecord
  · have hnetwork := h.noRouterId node hnode interface (List.mem_of_getElem? hinterface)
    rwa [hnone] at hnetwork
  · obtain ⟨nodeRemote, idRemote, other, hy, -, hother, ⟨-, rfl⟩ | rfl⟩ :=
      mem_processPointToPointLink hlink
    · cases hstub
    · obtain ⟨k, hk⟩ := List.mem_iff_getElem?.mp hnode
      have hat : net.interfaceAt (k, i) = some interface := by
        rw [interfaceAt, hk, Option.bind_some, hinterface]
      obtain ⟨-, other', hat', hback⟩ := other_end h hat hremote
      have hsame : net.interfaceAt y = some other := by
        rw [interfaceAt, hy, Option.bind_some, hother]
      obtain rfl := Option.some.inj (hat'.symm.trans hsame)
      have haddr := h.noRouterId nodeRemote (List.mem_of_getElem? hy) other'
        (List.mem_of_getElem? hother)
      rwa [hback] at haddr

section Database

variable {lsdb : LSDB} (hperm : lsdb.Perm net.lsas)
include hperm

omit h in
theorem mem_lsdb_iff {lsa : GlobalRoutingLSA} : lsa ∈ lsdb ↔
    ∃ (k : ℕ) (node : Node) (id : Ipv4Address), net[k]? = some node ∧
      node.routerId = some id ∧ lsa = net.lsaOf node id := by
  rw [hperm.mem_iff]
  unfold lsas
  constructor
  · intro hmem
    obtain ⟨node, hnode, hlsa⟩ := List.mem_filterMap.mp hmem
    obtain ⟨id, hid, rfl⟩ := Option.map_eq_some_iff.mp hlsa
    obtain ⟨k, hk⟩ := List.mem_iff_getElem?.mp hnode
    exact ⟨k, node, id, hk, hid, rfl⟩
  · rintro ⟨k, node, id, hk, hid, rfl⟩
    exact List.mem_filterMap.mpr ⟨node, List.mem_of_getElem? hk, by rw [hid, Option.map_some]⟩

omit h in
theorem lsdb_ids : (lsdb.map GlobalRoutingLSA.linkStateId).Perm (net.filterMap Node.routerId) := by
  rw [← lsas_ids]
  exact hperm.map _

theorem distinct : (lsdb.map GlobalRoutingLSA.linkStateId).Nodup :=
  (lsdb_ids hperm).nodup_iff.mpr h.routerIds

omit h in
theorem exists_lsa_of_up (hup : net.Up x v interface) :
    ∃ node, net[x.1]? = some node ∧ node.routerId = some v ∧ net.lsaOf node v ∈ lsdb := by
  obtain ⟨-, node, hnode, hid, -⟩ := hup
  exact ⟨node, hnode, hid, (mem_lsdb_iff hperm).mpr ⟨x.1, node, v, hnode, hid, rfl⟩⟩

theorem exists_connects {lsa : GlobalRoutingLSA} (hlsa : lsa ∈ lsdb) (hl : l ∈ lsa.linkRecords)
    (hstub : l.linkType ≠ .StubNetwork) :
    ∃ x interface, net.Connects x lsa.linkStateId l.linkId interface ∧
      l = ⟨l.linkId, interface.addr, .PointToPoint, interface.metric⟩ := by
  obtain ⟨k, node, id, hk, hid, rfl⟩ := (mem_lsdb_iff hperm).mp hlsa
  obtain ⟨i, interface, hconnects, heq⟩ := (mem_linkRecords_iff h hk hid).mp ⟨hl, hstub⟩
  exact ⟨(k, i), interface, hconnects, heq⟩

theorem record_of_connects (hconnects : net.Connects x v w interface) :
    ∃ lsa ∈ lsdb, lsa.linkStateId = v ∧
      ⟨w, interface.addr, .PointToPoint, interface.metric⟩ ∈ lsa.linkRecords := by
  obtain ⟨node, hnode, hid, hmem⟩ := exists_lsa_of_up hperm hconnects.1
  exact ⟨_, hmem, rfl, ((mem_linkRecords_iff h hnode hid).mpr
    ⟨x.2, interface, hconnects, rfl⟩).1⟩

theorem wellFormed : lsdb.WellFormed := by
  refine ⟨distinct h hperm, fun lsa hlsa l hl hstub => ?_⟩
  obtain ⟨x, interface, hconnects, heq⟩ := exists_connects h hperm hlsa hl hstub
  obtain ⟨node, hnode, hinterface, hremote⟩ := of_connects hconnects
  obtain ⟨y, -, other, hback⟩ := connects_back h hconnects
  obtain ⟨wLsa, hwLsa, hid, -⟩ := record_of_connects h hperm hback
  refine ⟨Or.inl (by rw [heq]), ?_, ?_⟩
  · rw [heq]
    exact h.metric node hnode interface hinterface hremote
  · rw [← hid, LSDB.getLSA_of_mem (distinct h hperm) hwLsa]
    rfl

/-- The database describes a network of point-to-point links. -/
theorem pointToPoint : lsdb.PointToPoint where
  wellFormed := wellFormed h hperm
  router lsa hlsa := by
    obtain ⟨k, node, id, -, -, rfl⟩ := (mem_lsdb_iff hperm).mp hlsa
    rfl
  stub lsa hlsa l hl hstub := by
    obtain ⟨k, node, id, hk, -, rfl⟩ := (mem_lsdb_iff hperm).mp hlsa
    have hnot := stub_linkId h (List.mem_of_getElem? hk) hl hstub
    refine Option.eq_none_iff_forall_ne_some.mpr fun found hfound => hnot ?_
    obtain ⟨hmem, hid⟩ := LSDB.getLSA_eq_some hfound
    rw [← hid]
    exact (lsdb_ids hperm).subset (List.mem_map_of_mem hmem)
  link lsa hlsa l hl hstub := by
    obtain ⟨x, interface, hconnects, heq⟩ := exists_connects h hperm hlsa hl hstub
    obtain ⟨node, hnode, hinterface, hremote⟩ := of_connects hconnects
    refine ⟨by rw [heq], ne_of_connects h hconnects, ?_⟩
    rw [heq]
    exact h.nonzero node hnode interface hinterface hremote
  back lsa hlsa l hl hstub wLsa hwLsa := by
    obtain ⟨x, interface, hconnects, -⟩ := exists_connects h hperm hlsa hl hstub
    obtain ⟨y, -, other, hback⟩ := connects_back h hconnects
    obtain ⟨lsa', hlsa', hid, hrecord⟩ := record_of_connects h hperm hback
    have hsame := LSDB.getLSA_of_mem (distinct h hperm) hlsa'
    rw [hid, hwLsa] at hsame
    obtain rfl := Option.some.inj hsame
    exact ⟨_, hrecord, LinkType.noConfusion, rfl⟩
  single lsa hlsa l hl l' hl' hstub hstub' hsame := by
    obtain ⟨x, interface, hconnects, heq⟩ := exists_connects h hperm hlsa hl hstub
    obtain ⟨x', interface', hconnects', heq'⟩ := exists_connects h hperm hlsa hl' hstub'
    rw [← hsame] at hconnects'
    obtain rfl := h.single x x' _ _ interface interface' hconnects hconnects'
    obtain ⟨-, -, rfl⟩ := connects_unique hconnects hconnects'
    rw [heq, heq', hsame]
  address lsa hlsa lsa' hlsa' l hl l' hl' hstub hstub' hsame := by
    obtain ⟨x, interface, hconnects, heq⟩ := exists_connects h hperm hlsa hl hstub
    obtain ⟨x', interface', hconnects', heq'⟩ := exists_connects h hperm hlsa' hl' hstub'
    obtain ⟨-, -, -, hremote⟩ := of_connects hconnects
    have haddr : interface.addr = interface'.addr := by
      rw [heq, heq'] at hsame
      exact hsame
    obtain rfl := h.address x interface x' interface' (interfaceAt_of_up hconnects.1)
      (interfaceAt_of_up hconnects'.1) hremote haddr
    obtain ⟨hid, hlink, rfl⟩ := connects_unique hconnects hconnects'
    refine ⟨List.inj_on_of_nodup_map (distinct h hperm) hlsa hlsa' hid, ?_⟩
    rw [heq, heq', hlink]

theorem edge_iff_link {cost : ℕ} : lsdb.Edge v w cost ↔ net.Link v w cost := by
  have hlinks := pointToPoint h hperm
  constructor
  · intro hedge
    obtain ⟨lsa, hfound, -⟩ := id hedge
    obtain ⟨hlsa, rfl⟩ := LSDB.getLSA_eq_some hfound
    obtain ⟨l, hl, hstub, rfl, rfl⟩ := (hlinks.edge_iff hlsa).mp hedge
    obtain ⟨x, interface, hconnects, heq⟩ := exists_connects h hperm hlsa hl hstub
    exact ⟨x, interface, hconnects, by rw [heq]⟩
  · rintro ⟨x, interface, hconnects, rfl⟩
    obtain ⟨lsa, hlsa, rfl, hrecord⟩ := record_of_connects h hperm hconnects
    exact (hlinks.edge_iff hlsa).mpr ⟨_, hrecord, LinkType.noConfusion, rfl, rfl⟩

theorem represents : net.Represents lsdb where
  routers := lsdb_ids hperm
  records := by
    intro lsa hlsa l
    constructor
    · rintro ⟨hl, hstub⟩
      obtain ⟨x, interface, hconnects, heq⟩ := exists_connects h hperm hlsa hl hstub
      exact ⟨x, l.linkId, interface, hconnects, heq⟩
    · rintro ⟨x, w, interface, hconnects, rfl⟩
      obtain ⟨lsa', hlsa', hid, hrecord⟩ := record_of_connects h hperm hconnects
      obtain rfl := List.inj_on_of_nodup_map (distinct h hperm) hlsa' hlsa hid
      exact ⟨hrecord, LinkType.noConfusion⟩
  links := fun _ _ _ => edge_iff_link h hperm

/-! ## The routes -/

omit hperm in
/-- The interface of a link is found by its address. -/
theorem findOutgoingInterfaceId_eq (hup : net.Up x v interface)
    (hremote : interface.remote.isSome) :
    net.findOutgoingInterfaceId v interface.addr 0xffffffff = (x.2 : ℤ) := by
  have hat := interfaceAt_of_up hup
  obtain ⟨-, node, hnode, hid, hinterface⟩ := hup
  have hfind : (net.find? fun node => node.routerId = some v) = some node := by
    cases hfound : net.find? fun node => node.routerId = some v with
    | none =>
        exact absurd (decide_eq_true hid)
          (List.find?_eq_none.mp hfound node (List.mem_of_getElem? hnode))
    | some found =>
        have hid' : found.routerId = some v := by simpa using List.find?_some hfound
        obtain ⟨k, hk⟩ := List.mem_iff_getElem?.mp (List.mem_of_find?_eq_some hfound)
        obtain rfl := index_of_routerId h hk hnode hid' hid
        exact hk.symm.trans hnode
  obtain ⟨hlt, hget⟩ := List.getElem?_eq_some_iff.mp hinterface
  have hfull : ∀ a : UInt32, a &&& 0xffffffff = a := fun a =>
    UInt32.toBitVec_inj.mp (by rw [UInt32.toBitVec_and]; exact BitVec.and_allOnes)
  have hindex : (node.interfaces.findIdx? fun i =>
      i.addr &&& 0xffffffff = interface.addr &&& 0xffffffff) = some x.2 := by
    refine List.findIdx?_eq_some_iff_getElem.mpr ⟨hlt, by rw [hget]; exact decide_eq_true rfl,
      fun j hj hsame => ?_⟩
    rw [hfull, hfull, decide_eq_true_iff] at hsame
    have hother : net.interfaceAt (x.1, j) = some node.interfaces[j] := by
      rw [interfaceAt, hnode, Option.bind_some]
      exact List.getElem?_eq_getElem (Nat.lt_trans hj hlt)
    have heq := h.address x interface (x.1, j) _ hat hother hremote hsame.symm
    exact absurd (congrArg Prod.snd heq) (Nat.ne_of_gt hj)
  unfold findOutgoingInterfaceId
  rw [hfind]
  dsimp only
  unfold Node.getInterfaceForPrefix
  rw [hindex]

theorem interfaces_environments (pointerLe : Ipv4Address → Ipv4Address → Ipv4Address → Bool)
    {lsa : GlobalRoutingLSA} (hlsa : lsa ∈ lsdb) :
    Interfaces (net.environments pointerLe lsa.linkStateId) lsa := by
  have hfound : ∀ l ∈ lsa.linkRecords, l.linkType ≠ .StubNetwork →
      ∃ x interface, net.Connects x lsa.linkStateId l.linkId interface ∧
        l = ⟨l.linkId, interface.addr, .PointToPoint, interface.metric⟩ ∧
          net.findOutgoingInterfaceId lsa.linkStateId l.linkData 0xffffffff = (x.2 : ℤ) := by
    intro l hl hstub
    obtain ⟨x, interface, hconnects, heq⟩ := exists_connects h hperm hlsa hl hstub
    obtain ⟨-, -, -, hremote⟩ := of_connects hconnects
    refine ⟨x, interface, hconnects, heq, ?_⟩
    rw [heq]
    exact findOutgoingInterfaceId_eq h hconnects.1 hremote
  constructor
  · intro l hl hstub
    obtain ⟨x, interface, ⟨⟨-, node, hnode, -, hinterface⟩, -⟩, -, hindex⟩ := hfound l hl hstub
    have hlength := h.interfaces node (List.mem_of_getElem? hnode)
    have hlt : x.2 < node.interfaces.length := (List.getElem?_eq_some_iff.mp hinterface).1
    unfold environments
    dsimp only
    rw [hindex]
    omega
  · intro l hl l' hl' hstub hstub' hsame
    obtain ⟨x, interface, hconnects, heq, hindex⟩ := hfound l hl hstub
    obtain ⟨x', interface', hconnects', heq', hindex'⟩ := hfound l' hl' hstub'
    have hsecond : x.2 = x'.2 := by
      unfold environments at hsame
      dsimp only at hsame
      rw [hindex, hindex'] at hsame
      exact Int.ofNat_inj.mp hsame
    obtain ⟨-, node, hnode, hid, -⟩ := id hconnects.1
    obtain ⟨-, node', hnode', hid', -⟩ := id hconnects'.1
    have hfirst := index_of_routerId h hnode hnode' hid hid'
    obtain rfl : x = x' := Prod.ext hfirst hsecond
    obtain ⟨-, hlink, rfl⟩ := connects_unique hconnects hconnects'
    rw [heq, heq', hlink]

end Database

/-- The database that the routers build exists and represents the links that are up at both ends,
the interface of each link is found by its address, and forwarding over the routes computed from the
database brings a packet for an address of a link that is up to the router with this address, over a
path of the network with the least cost. -/
theorem routes_of_network {NetDevice : Type} [DecidableEq NetDevice]
    (ipv4 : Ipv4Addresses NetDevice) (others : Ipv4Address → Rest)
    (pointerLe : Ipv4Address → Ipv4Address → Ipv4Address → Bool) :
    ∃ lsdb, net.buildGlobalRoutingDatabase = some lsdb ∧ net.Represents lsdb ∧
      (∀ x v w interface, net.Connects x v w interface →
        net.findOutgoingInterfaceId v interface.addr 0xffffffff = (x.2 : ℤ)) ∧
      ∀ x dest next interface, net.Connects x dest next interface →
        ∀ source cost, Walk net.Link source dest cost →
          ∃ least ≤ cost, IsLeast {cost | Walk net.Link source dest cost} least ∧
            Delivers ipv4 others (net.environments pointerLe) lsdb interface.addr dest source
              least := by
  obtain ⟨lsdb, hbuild, hperm⟩ := buildGlobalRoutingDatabase_spec h
  refine ⟨lsdb, hbuild, represents h hperm, fun x v w interface hconnects => ?_,
    fun x dest next interface hconnects source cost hwalk => ?_⟩
  · obtain ⟨-, -, -, hremote⟩ := of_connects hconnects
    exact findOutgoingInterfaceId_eq h hconnects.1 hremote
  have hlinks := pointToPoint h hperm
  obtain ⟨dLsa, hdLsa, rfl, hrecord⟩ := record_of_connects h hperm hconnects
  obtain ⟨lsa, hlsa, rfl⟩ : ∃ lsa ∈ lsdb, lsa.linkStateId = source := by
    rcases walk_cases hwalk with ⟨rfl, -⟩ | ⟨u, weight, rest, ⟨y, other, hfirst, -⟩, -, -⟩
    · exact ⟨dLsa, hdLsa, rfl⟩
    · obtain ⟨lsa, hlsa, hid, -⟩ := record_of_connects h hperm hfirst
      exact ⟨lsa, hlsa, hid⟩
  have hedge : lsdb.Edge = net.Link := by
    funext v w cost
    exact propext (edge_iff_link h hperm)
  have hlength : lsdb.length ≤ 65537 := by
    rw [hperm.length_eq]
    exact le_trans (List.length_filterMap_le _ _) h.nodes
  have hcost : ∀ lsa ∈ lsdb, ∀ visited v cost,
      Trail lsdb.Edge lsa.linkStateId visited v cost → cost < 2 ^ 32 := fun lsa hlsa =>
    SPFState.cost_lt (wellFormed h hperm) (List.mem_map_of_mem hlsa) hlength
  have hnonempty : {cost | Walk net.Link lsa.linkStateId dLsa.linkStateId cost}.Nonempty :=
    ⟨cost, hwalk⟩
  have hleast : IsLeast {cost | Walk net.Link lsa.linkStateId dLsa.linkStateId cost}
      (sInf {cost | Walk net.Link lsa.linkStateId dLsa.linkStateId cost}) :=
    ⟨Nat.sInf_mem hnonempty, fun other hother => Nat.sInf_le hother⟩
  refine ⟨_, hleast.2 hwalk, hleast, ?_⟩
  rw [← hedge] at hleast ⊢
  exact delivers_of_least hlinks (fun lsa hlsa => interfaces_environments h hperm pointerLe hlsa)
    hcost hdLsa hrecord LinkType.noConfusion hlsa hleast

end Sound

/-! ## A network -/

/-- The interfaces with their places. -/
def places (net : Network) : List ((ℕ × ℕ) × Ipv4Interface) :=
  net.zipIdx.flatMap fun node => node.1.interfaces.zipIdx.map fun i => ((node.2, i.2), i.1)

theorem mem_places (h : net.interfaceAt x = some interface) : (x, interface) ∈ net.places := by
  obtain ⟨node, hnode, hinterface, -⟩ := interfaceAt_eq_some h
  refine List.mem_flatMap.mpr ⟨(node, x.1), List.mk_mem_zipIdx_iff_getElem?.mpr hnode, ?_⟩
  exact List.mem_map.mpr
    ⟨(interface, x.2), List.mk_mem_zipIdx_iff_getElem?.mpr hinterface, rfl⟩

def routerAt (net : Network) (x : ℕ × ℕ) : Option Ipv4Address := net[x.1]?.bind Node.routerId

/-- What `Connects` says of the places. -/
theorem of_connects_places (h : net.Connects x v w interface) :
    (x, interface) ∈ net.places ∧ net.routerAt x = some v ∧
      interface.remote.bind net.routerAt = some w ∧ interface.isUp = true ∧
        (interface.remote.bind net.interfaceAt).map Ipv4Interface.isUp = some true := by
  obtain ⟨hup, y, hremote, other, hother⟩ := h
  have hat := interfaceAt_of_up hother
  obtain ⟨hisUp, node, hnode, hid, -⟩ := id hup
  obtain ⟨hupRemote, node', hnode', hid', -⟩ := hother
  refine ⟨mem_places (interfaceAt_of_up hup), ?_, ?_, hisUp, ?_⟩
  · rw [routerAt, hnode, Option.bind_some, hid]
  · rw [Option.mem_def.mp hremote, Option.bind_some, routerAt, hnode', Option.bind_some, hid']
  · rw [Option.mem_def.mp hremote, Option.bind_some, hat, Option.map_some, hupRemote]

/-- An interface of a link, with a mask of 24 bits. -/
def linkInterface (addr : Ipv4Address) (metric : UInt16) (isUp : Bool) (remote : ℕ × ℕ) :
    Ipv4Interface :=
  ⟨addr, ⟨0xffffff00⟩, metric, isUp, true, some remote⟩

def loopback : Ipv4Interface := ⟨0x7f000001, ⟨0xff000000⟩, 1, true, true, none⟩

/-- Three routers in a triangle with a second link that is down, and a host that is no router. -/
def triangle : Network :=
  [⟨some 0, [loopback, linkInterface 0x0a000101 1 true (1, 1),
      linkInterface 0x0a000201 5 true (2, 1), linkInterface 0x0a000401 1 false (1, 3)],
      [1, 2, 3, 0]⟩,
    ⟨some 1, [loopback, linkInterface 0x0a000102 1 true (0, 1),
      linkInterface 0x0a000301 1 true (2, 2), linkInterface 0x0a000402 1 true (0, 3)],
      [1, 2, 3, 0]⟩,
    ⟨some 2, [loopback, linkInterface 0x0a000202 5 true (0, 2),
      linkInterface 0x0a000302 1 true (1, 2), linkInterface 0x0a000501 1 true (3, 1)],
      [0, 1, 2, 3]⟩,
    ⟨none, [loopback, linkInterface 0x0a000502 1 true (2, 3)], [0, 1, 4]⟩]

theorem triangle_sound : triangle.Sound where
  routerIds := by decide
  nodes := by decide
  interfaces := by decide
  devices := by decide
  remote x interface hat := by
    have hall : ∀ p ∈ triangle.places, ∀ y ∈ p.2.remote,
        y.1 ≠ p.1.1 ∧ (triangle.interfaceAt y).bind Ipv4Interface.remote = some p.1 := by
      decide
    exact hall (x, interface) (mem_places hat)
  forwards := by decide
  metric := by decide
  nonzero := by decide
  address x interface y other hat hother := by
    have hall : ∀ p ∈ triangle.places, ∀ q ∈ triangle.places, p.2.remote.isSome →
        p.2.addr = q.2.addr → p.1 = q.1 := by
      decide
    exact hall (x, interface) (mem_places hat) (y, other) (mem_places hother)
  noRouterId := by decide
  single x y v w interface other hconnects hconnects' := by
    have hall : ∀ p ∈ triangle.places, ∀ q ∈ triangle.places, p.2.isUp = true → q.2.isUp = true →
        (p.2.remote.bind triangle.interfaceAt).map Ipv4Interface.isUp = some true →
        (q.2.remote.bind triangle.interfaceAt).map Ipv4Interface.isUp = some true →
        triangle.routerAt p.1 = triangle.routerAt q.1 →
        p.2.remote.bind triangle.routerAt = q.2.remote.bind triangle.routerAt → p.1 = q.1 := by
      decide
    obtain ⟨hmem, hv, hw, hup, hupRemote⟩ := of_connects_places hconnects
    obtain ⟨hmem', hv', hw', hup', hupRemote'⟩ := of_connects_places hconnects'
    exact hall (x, interface) hmem (y, other) hmem' hup hup' hupRemote hupRemote'
      (hv.trans hv'.symm) (hw.trans hw'.symm)

/-- The route over two links of the triangle costs less than the direct one. -/
theorem routes_of_network_triangle :
    ∃ lsdb, triangle.buildGlobalRoutingDatabase = some lsdb ∧ triangle.Represents lsdb ∧
      triangle.findOutgoingInterfaceId 1 0x0a000301 0xffffffff = 2 ∧
      ∃ least ≤ 2, IsLeast {cost | Walk triangle.Link 0 2 cost} least ∧
        Delivers GlobalRouting.devices (fun _ => ⟨fun _ => [], fun _ => [], false, false⟩)
          (triangle.environments fun _ a b => a ≤ b) lsdb 0x0a000302 2 0 least := by
  have hfirst : triangle.Connects (0, 1) 0 1 (linkInterface 0x0a000101 1 true (1, 1)) :=
    ⟨⟨rfl, _, rfl, rfl, rfl⟩, _, rfl, _, rfl, _, rfl, rfl, rfl⟩
  have hsecond : triangle.Connects (1, 2) 1 2 (linkInterface 0x0a000301 1 true (2, 2)) :=
    ⟨⟨rfl, _, rfl, rfl, rfl⟩, _, rfl, _, rfl, _, rfl, rfl, rfl⟩
  have hdest : triangle.Connects (2, 2) 2 1 (linkInterface 0x0a000302 1 true (1, 2)) :=
    ⟨⟨rfl, _, rfl, rfl, rfl⟩, _, rfl, _, rfl, _, rfl, rfl, rfl⟩
  obtain ⟨lsdb, hbuild, hlinks, hfound, hroutes⟩ := routes_of_network triangle_sound
    GlobalRouting.devices (fun _ => ⟨fun _ => [], fun _ => [], false, false⟩) fun _ a b => a ≤ b
  have hlink : triangle.Link 0 1 1 := ⟨_, _, hfirst, rfl⟩
  have hlink' : triangle.Link 1 2 1 := ⟨_, _, hsecond, rfl⟩
  exact ⟨lsdb, hbuild, hlinks, hfound (1, 2) 1 2 _ hsecond,
    hroutes (2, 2) 2 1 _ hdest 0 2 ((Walk.nil.snoc hlink).snoc hlink')⟩

example : triangle.buildGlobalRoutingDatabase.map (fun lsdb => lsdb.map fun lsa =>
    (lsa.linkStateId, lsa.linkRecords.length)) = some [(0, 5), (1, 6), (2, 5)] := by
  decide

end Network

end Ns3Rdma.Routing
