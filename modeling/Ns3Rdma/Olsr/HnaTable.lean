import Ns3Rdma.Olsr.OlsrState
import Ns3Rdma.Routing.StaticRouting

/-!
# The routes to associated networks

`RoutingTableComputation` ends with the table of the routes to the networks that gateways announce
in HNA messages: it clears the table and adds a route for one association tuple after another.
-/

namespace Ns3Rdma.Olsr

open Routing (Ipv4Mask NetworkRoute)

structure Association where
  networkAddr : Ipv4Address
  netmask : Ipv4Mask
deriving DecidableEq

structure AssociationTuple where
  gatewayAddr : Ipv4Address
  networkAddr : Ipv4Address
  netmask : Ipv4Mask
deriving DecidableEq

structure RoutingTableEntry where
  destAddr : Ipv4Address
  nextAddr : Ipv4Address
  interface : UInt32
  distance : UInt32
deriving DecidableEq

/-- What the computation of the table reads: the association set, the associations that the node
announces itself, and the routing table. -/
structure HnaState where
  associationSet : List AssociationTuple
  associations : List Association
  lookup : Ipv4Address → Option RoutingTableEntry

/-- The network of a route. -/
def network (route : NetworkRoute) : Association :=
  ⟨route.entry.dest, route.entry.destNetworkMask⟩

/-- The loop that clears the table, from index `i` on. Each pass removes the first route, and
`GetNRoutes ()` with it. -/
def clearTable : ℕ → List NetworkRoute → List NetworkRoute
  | _, [] => []
  | i, route :: rest => if i < rest.length + 1 then clearTable (i + 1) rest else route :: rest

namespace HnaState

variable (s : HnaState)

/-- One pass through the loop over the association set. -/
def addAssociation (table : List NetworkRoute) (tuple : AssociationTuple) : List NetworkRoute :=
  if s.associations.any fun localHnaAssoc =>
      localHnaAssoc.networkAddr = tuple.networkAddr && localHnaAssoc.netmask = tuple.netmask then
    table
  else
    let routeIndex := table.findIdx fun route =>
      route.entry.dest = tuple.networkAddr && route.entry.destNetworkMask = tuple.netmask
    match s.lookup tuple.gatewayAddr with
    | none => table
    | some gatewayEntry =>
        let added : NetworkRoute :=
          ⟨⟨tuple.networkAddr, tuple.netmask, gatewayEntry.nextAddr, gatewayEntry.interface⟩,
            gatewayEntry.distance⟩
        match table[routeIndex]? with
        | none => table ++ [added]
        | some route =>
            if route.metric > gatewayEntry.distance then table.eraseIdx routeIndex ++ [added]
            else table

/-- The part of `RoutingTableComputation` about the routes to associated networks. -/
def computeTable (previous : List NetworkRoute) : List NetworkRoute :=
  s.associationSet.foldl s.addAssociation (clearTable 0 previous)

/-! ## What the table should hold -/

/-- The route by way of the gateway of a tuple, unless the node announces the network itself or
there is no route to the gateway. -/
def offer (tuple : AssociationTuple) : Option NetworkRoute :=
  if ⟨tuple.networkAddr, tuple.netmask⟩ ∈ s.associations then none
  else (s.lookup tuple.gatewayAddr).map fun gatewayEntry =>
    ⟨⟨tuple.networkAddr, tuple.netmask, gatewayEntry.nextAddr, gatewayEntry.interface⟩,
      gatewayEntry.distance⟩

def offers : List NetworkRoute := s.associationSet.filterMap s.offer

/-- A route by way of a gateway at the least distance. -/
def Nearest (route : NetworkRoute) : Prop :=
  route ∈ s.offers ∧ ∀ other ∈ s.offers, network other = network route →
    route.metric ≤ other.metric

/-- One route to a nearest gateway for each network that a gateway offers, and no other route. -/
structure Computed (table : List NetworkRoute) : Prop where
  nearest : ∀ route ∈ table, s.Nearest route
  nodup : (table.map network).Nodup
  complete : ∀ route ∈ s.offers, network route ∈ table.map network

/-- The routes that are left when the table has been cleared. -/
def survivors (previous : List NetworkRoute) : List NetworkRoute :=
  previous.drop ((previous.length + 1) / 2)

/-- A route that is left does no harm if some gateway offers its network, and it is either a route
to a nearest gateway itself or farther than one of them. -/
def Harmless (route : NetworkRoute) : Prop :=
  s.Nearest route ∨ ∃ other ∈ s.offers, network other = network route ∧
    other.metric < route.metric

end HnaState

/-! ## Improving a table -/

/-- Clearing removes every other route. -/
theorem clearTable_eq (i : ℕ) (table : List NetworkRoute) :
    clearTable i table = table.drop ((table.length + 1 - i) / 2) := by
  induction table generalizing i with
  | nil => simp [clearTable]
  | cons route rest ih =>
      unfold clearTable
      by_cases h : i < rest.length + 1
      · rw [if_pos h, ih, List.length_cons,
          show (rest.length + 1 + 1 - i) / 2 = (rest.length + 1 - (i + 1)) / 2 + 1 by omega,
          List.drop_succ_cons]
      · rw [if_neg h, List.length_cons, show (rest.length + 1 + 1 - i) / 2 = 0 by omega]
        rfl

/-- Add a route, or let it replace the first one to its network that is farther. -/
def improve (table : List NetworkRoute) (added : NetworkRoute) : List NetworkRoute :=
  match table[table.findIdx fun route => network route = network added]? with
  | none => table ++ [added]
  | some route =>
      if route.metric > added.metric then
        table.eraseIdx (table.findIdx fun route => network route = network added) ++ [added]
      else table

section Improve

variable {table : List NetworkRoute} {added : NetworkRoute}

/-- Either no route leads to the network, or the first one that does is replaced or kept. -/
theorem improve_cases (table : List NetworkRoute) (added : NetworkRoute) :
    (network added ∉ table.map network ∧ improve table added = table ++ [added]) ∨
      ∃ before route after, table = before ++ route :: after ∧ network route = network added ∧
        ((added.metric < route.metric ∧ improve table added = before ++ after ++ [added]) ∨
          (route.metric ≤ added.metric ∧ improve table added = table)) := by
  unfold improve
  cases hget : table[table.findIdx fun route => network route = network added]? with
  | none =>
      refine .inl ⟨?_, rfl⟩
      rintro hmem
      obtain ⟨route, hroute, heq⟩ := List.mem_map.mp hmem
      have hlt : table.findIdx (fun route => network route = network added) < table.length :=
        List.findIdx_lt_length_of_exists ⟨route, hroute, by simpa using heq⟩
      rw [List.getElem?_eq_getElem hlt] at hget
      exact absurd hget (by simp)
  | some route =>
      obtain ⟨hlt, heq⟩ := List.getElem?_eq_some_iff.mp hget
      have hnet : network route = network added := by
        have := List.findIdx_getElem (w := hlt)
        rw [heq] at this
        simpa using this
      refine .inr ⟨table.take (table.findIdx fun route => network route = network added), route,
        table.drop (table.findIdx (fun route => network route = network added) + 1), ?_, hnet, ?_⟩
      · rw [← heq, List.getElem_cons_drop, List.take_append_drop]
      · by_cases hmetric : route.metric > added.metric
        · refine .inl ⟨hmetric, ?_⟩
          simp only [hmetric, if_true]
          rw [List.eraseIdx_eq_take_drop_succ]
        · refine .inr ⟨UInt32.not_lt.mp hmetric, ?_⟩
          simp only [hmetric, if_false]

theorem mem_improve {route : NetworkRoute} (h : route ∈ improve table added) :
    route ∈ table ∨ route = added := by
  rcases improve_cases table added with ⟨-, heq⟩ | ⟨before, r, after, rfl, -, ⟨-, heq⟩ | ⟨-, heq⟩⟩
  · rw [heq] at h
    simpa using h
  · rw [heq] at h
    simp only [List.mem_append, List.mem_cons] at h ⊢
    tauto
  · rw [heq] at h
    exact .inl h

/-- The networks are those of the table before, and the new one if it was not among them. -/
theorem network_improve (table : List NetworkRoute) (added : NetworkRoute) :
    (network added ∉ table.map network ∧
        (improve table added).map network = table.map network ++ [network added]) ∨
      (network added ∈ table.map network ∧
        ((improve table added).map network).Perm (table.map network)) := by
  rcases improve_cases table added with ⟨hnot, heq⟩ | ⟨before, r, after, rfl, hnet, h⟩
  · exact .inl ⟨hnot, by rw [heq, List.map_append]; rfl⟩
  · refine .inr ⟨by simp [← hnet], ?_⟩
    rcases h with ⟨-, heq⟩ | ⟨-, heq⟩
    · rw [heq, List.map_append, List.map_append, List.map_append, List.map_cons, List.map_cons,
        List.map_nil, List.append_assoc, hnet]
      exact (List.perm_append_singleton _ _).append_left _
    · rw [heq]

theorem mem_network_improve {net : Association} :
    net ∈ (improve table added).map network ↔ net ∈ table.map network ∨ net = network added := by
  rcases network_improve table added with ⟨-, heq⟩ | ⟨hmem, hperm⟩
  · rw [heq, List.mem_append, List.mem_singleton]
  · rw [hperm.mem_iff]
    constructor
    · exact .inl
    · rintro (h | rfl)
      · exact h
      · exact hmem

theorem nodup_improve :
    ((improve table added).map network).Nodup ↔ (table.map network).Nodup := by
  rcases network_improve table added with ⟨hnot, heq⟩ | ⟨-, hperm⟩
  · rw [heq, ← List.concat_eq_append, List.nodup_concat]
    exact and_iff_right hnot
  · exact hperm.nodup_iff

/-- A route stays unless a nearer one to the same network is added. -/
theorem mem_improve_of_mem {route : NetworkRoute} (h : route ∈ table)
    (hkeep : network added = network route → route.metric ≤ added.metric) :
    route ∈ improve table added := by
  rcases improve_cases table added with ⟨-, heq⟩ |
    ⟨before, r, after, rfl, hnet, ⟨hlt, heq⟩ | ⟨-, heq⟩⟩
  · rw [heq]
    exact List.mem_append_left _ h
  · have hne : route ≠ r := by
      rintro rfl
      exact absurd hlt (UInt32.not_lt.mpr (hkeep hnet.symm))
    rw [heq]
    simp only [List.mem_append, List.mem_cons, hne, false_or] at h ⊢
    exact .inl h
  · rw [heq]
    exact h

/-- If networks do not repeat, no route to the network of the added one is farther. -/
theorem improve_le {route : NetworkRoute} (hnodup : (table.map network).Nodup)
    (h : route ∈ improve table added) (hnet : network route = network added) :
    route.metric ≤ added.metric ∧
      (route = added → ∀ x ∈ table, network x = network added → added.metric ≤ x.metric) := by
  have hunique {x y : NetworkRoute} (hx : x ∈ table) (hy : y ∈ table)
      (hxy : network x = network y) : x = y :=
    List.inj_on_of_nodup_map hnodup hx hy hxy
  rcases improve_cases table added with ⟨hnot, heq⟩ | ⟨before, r, after, htable, hr, h'⟩
  · have hadded : route = added := by
      rw [heq] at h
      rcases List.mem_append.mp h with h | h
      · exact absurd (List.mem_map.mpr ⟨route, h, hnet⟩) hnot
      · exact List.mem_singleton.mp h
    subst hadded
    exact ⟨UInt32.le_refl _, fun _ x hx hxnet =>
      absurd (List.mem_map.mpr ⟨x, hx, hxnet⟩) hnot⟩
  · have hrmem : r ∈ table := by simp [htable]
    rcases h' with ⟨hlt, heq⟩ | ⟨hle, heq⟩
    · refine ⟨?_, fun _ x hx hxnet => hunique hrmem hx (hr.trans hxnet.symm) ▸ UInt32.le_of_lt hlt⟩
      rcases mem_improve h with hmem | rfl
      · -- The only route to the network has been removed.
        have : route = r := hunique hmem hrmem (hnet.trans hr.symm)
        subst this
        rw [htable] at hnodup
        rw [heq, List.append_assoc] at h
        rw [List.map_append, List.map_cons, List.nodup_middle, List.nodup_cons] at hnodup
        rcases List.mem_append.mp h with h | h
        · exact absurd (List.mem_append_left _ (List.mem_map_of_mem h)) hnodup.1
        · rcases List.mem_append.mp h with h | h
          · exact absurd (List.mem_append_right _ (List.mem_map_of_mem h)) hnodup.1
          · rw [List.mem_singleton.mp h] at hlt
            exact absurd hlt (UInt32.lt_irrefl _)
      · exact UInt32.le_refl _
    · rw [heq] at h
      have : route = r := hunique h hrmem (hnet.trans hr.symm)
      subst this
      refine ⟨hle, fun hadded x hx hxnet => ?_⟩
      rw [← hunique hrmem hx (hr.trans hxnet.symm), hadded]
      exact UInt32.le_refl _

end Improve

/-! ## The whole computation -/

section Rebuilt

variable (left : List NetworkRoute)

/-- What is known of a table once routes have been offered. -/
structure Rebuilt (offered table : List NetworkRoute) : Prop where
  origin : ∀ route ∈ table, route ∈ left ∨ route ∈ offered
  networks : ∀ net, net ∈ table.map network ↔
    net ∈ left.map network ∨ net ∈ offered.map network
  nodup : (table.map network).Nodup ↔ (left.map network).Nodup
  stays : ∀ route ∈ left, (∀ other ∈ offered, network other = network route →
    route.metric ≤ other.metric) → route ∈ table
  least : (left.map network).Nodup → ∀ route ∈ table, ∀ other ∈ offered,
    network other = network route → route.metric ≤ other.metric

variable {left} {offered table : List NetworkRoute}

theorem Rebuilt.start : Rebuilt left [] left where
  origin := fun _ => .inl
  networks := by simp
  nodup := Iff.rfl
  stays := fun _ h _ => h
  least := by simp

theorem Rebuilt.improve (h : Rebuilt left offered table) (added : NetworkRoute) :
    Rebuilt left (offered ++ [added]) (improve table added) where
  origin := by
    intro route hroute
    rcases mem_improve hroute with hmem | rfl
    · rcases h.origin route hmem with hleft | hoffered
      · exact .inl hleft
      · exact .inr (List.mem_append_left _ hoffered)
    · exact .inr (by simp)
  networks := by
    intro net
    rw [mem_network_improve, h.networks, List.map_append, List.mem_append, List.map_singleton,
      List.mem_singleton, or_assoc]
  nodup := nodup_improve.trans h.nodup
  stays := by
    intro route hroute hle
    refine mem_improve_of_mem (h.stays route hroute fun other hother => ?_) ?_
    · exact hle other (List.mem_append_left _ hother)
    · exact hle added (by simp)
  least := by
    intro hleft route hroute other hother hnet
    have hnodup := h.nodup.mpr hleft
    rcases List.mem_append.mp hother with hold | hnew
    · rcases mem_improve hroute with hmem | rfl
      · exact h.least hleft route hmem other hold hnet
      · -- The added route is at least as near as the one it replaces.
        obtain ⟨x, hx, hxnet⟩ := List.mem_map.mp
          ((h.networks (network other)).mpr (.inr (List.mem_map_of_mem hold)))
        have hadded := (improve_le hnodup hroute rfl).2 rfl x hx (hxnet.trans hnet)
        exact UInt32.le_trans hadded (h.least hleft x hx other hold hxnet.symm)
    · rw [List.mem_singleton.mp hnew] at hnet ⊢
      exact (improve_le hnodup hroute hnet.symm).1

theorem rebuilt_foldl (left offered : List NetworkRoute) :
    Rebuilt left offered (offered.foldl improve left) := by
  induction offered using List.reverseRecOn with
  | nil => exact .start
  | append_singleton offered added ih =>
      rw [List.foldl_concat]
      exact ih.improve added

end Rebuilt

namespace HnaState

variable (s : HnaState)

theorem addAssociation_eq (table : List NetworkRoute) (tuple : AssociationTuple) :
    s.addAssociation table tuple = (s.offer tuple).elim table (improve table) := by
  have hany : (s.associations.any fun a =>
      a.networkAddr = tuple.networkAddr && a.netmask = tuple.netmask) =
        decide (⟨tuple.networkAddr, tuple.netmask⟩ ∈ s.associations) := by
    rw [Bool.eq_iff_iff, List.any_eq_true, decide_eq_true_eq]
    constructor
    · rintro ⟨a, ha, heq⟩
      obtain ⟨haddr, hmask⟩ := Bool.and_eq_true_iff.mp heq
      obtain ⟨addr, mask⟩ := a
      rw [decide_eq_true_eq] at haddr hmask
      exact haddr ▸ hmask ▸ ha
    · exact fun h => ⟨_, h, by simp⟩
  unfold addAssociation offer
  rw [hany]
  by_cases hlocal : ⟨tuple.networkAddr, tuple.netmask⟩ ∈ s.associations
  · simp only [hlocal, decide_true, if_true, Option.elim_none]
  · simp only [hlocal, decide_false, Bool.false_eq_true, if_false]
    cases s.lookup tuple.gatewayAddr with
    | none => rfl
    | some gatewayEntry =>
        have hnet : (fun route : NetworkRoute =>
            route.entry.dest = tuple.networkAddr && route.entry.destNetworkMask = tuple.netmask) =
          fun route => decide (network route = ⟨tuple.networkAddr, tuple.netmask⟩) := by
          funext route
          rw [Bool.eq_iff_iff]
          simp [network]
        simp only [hnet, Option.map_some]
        rfl

theorem computeTable_eq (previous : List NetworkRoute) :
    s.computeTable previous = s.offers.foldl improve (survivors previous) := by
  unfold computeTable offers survivors
  rw [clearTable_eq, Nat.sub_zero, List.foldl_filterMap]
  congr 1
  funext table tuple
  rw [addAssociation_eq]
  cases s.offer tuple <;> rfl

/-- The table is the one of the current state if and only if the routes that are left from the
previous one lead to different networks and do no harm. -/
theorem computeTable_computed_iff (previous : List NetworkRoute) :
    s.Computed (s.computeTable previous) ↔
      ((survivors previous).map network).Nodup ∧
        ∀ route ∈ survivors previous, s.Harmless route := by
  rw [computeTable_eq]
  have h := rebuilt_foldl (survivors previous) s.offers
  generalize s.offers.foldl improve (survivors previous) = table at h ⊢
  constructor
  · intro hcomputed
    refine ⟨h.nodup.mp hcomputed.nodup, fun route hroute => ?_⟩
    by_cases hnearer : ∃ other ∈ s.offers, network other = network route ∧
        other.metric < route.metric
    · exact .inr hnearer
    · refine .inl (hcomputed.nearest route (h.stays route hroute fun other hother hnet => ?_))
      exact UInt32.not_lt.mp fun hlt => hnearer ⟨other, hother, hnet, hlt⟩
  · rintro ⟨hnodup, hharmless⟩
    refine ⟨fun route hroute => ?_, h.nodup.mpr hnodup, fun route hroute =>
      (h.networks _).mpr (.inr (List.mem_map_of_mem hroute))⟩
    have hleast := h.least hnodup route hroute
    rcases h.origin route hroute with hleft | hoffered
    · rcases hharmless route hleft with hnearest | ⟨other, hother, hnet, hlt⟩
      · exact hnearest
      · exact absurd (hleast other hother hnet) (UInt32.not_le.mpr hlt)
    · exact ⟨hoffered, hleast⟩

/-- Two networks that no gateway announces any more: the route to the second one survives. -/
theorem stale_route_survives :
    let route (net : Ipv4Address) : NetworkRoute := ⟨⟨net, .leading 24, 5, 1⟩, 2⟩
    let s : HnaState := ⟨[], [], fun _ => none⟩
    s.computeTable [route 0x0a010100, route 0x0a010200] = [route 0x0a010200] ∧
      ¬ s.Computed (s.computeTable [route 0x0a010100, route 0x0a010200]) := by
  intro route s
  have heq : s.computeTable [route 0x0a010100, route 0x0a010200] = [route 0x0a010200] := rfl
  refine ⟨heq, fun h => ?_⟩
  rw [heq] at h
  exact absurd (h.nearest _ List.mem_cons_self).1 (by simp [s, offers])

end HnaState

end Ns3Rdma.Olsr
