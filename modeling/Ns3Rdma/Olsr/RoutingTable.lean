import Ns3Rdma.Olsr.OlsrState

/-! # Computing the routing table of an OLSR node

`RoutingTableComputation` adds the symmetric neighbours, then the two-hop neighbours, then one level
of topology tuples after the other, and last the interfaces that are associated with a destination.
The table is kept as the list of the entries that were added, the newest first. -/

namespace Ns3Rdma.OlsrRouting

open Olsr (Ipv4Address Status NeighborTuple TwoHopNeighborTuple TopologyTuple)

structure LinkTuple where
  localIfaceAddr : Ipv4Address
  neighborIfaceAddr : Ipv4Address
  time : ℕ
deriving DecidableEq

structure IfaceAssocTuple where
  ifaceAddr : Ipv4Address
  mainAddr : Ipv4Address
deriving DecidableEq

structure RoutingTableEntry where
  nextAddr : Ipv4Address
  interface : UInt32
  distance : ℕ
deriving DecidableEq

/-- `m_table` after its entries were added in turn. -/
abbrev Table := List (Ipv4Address × RoutingTableEntry)

namespace Table

/-- `AddEntry`, which overwrites. -/
def addEntry (table : Table) (dest next : Ipv4Address) (interface : UInt32) (distance : ℕ) :
    Table :=
  (dest, ⟨next, interface, distance⟩) :: table

def lookup (table : Table) (dest : Ipv4Address) : Option RoutingTableEntry :=
  (table.find? fun it => it.1 = dest).map (·.2)

/-- No entry was overwritten by one with a larger distance. -/
def Improving : Table → Prop
  | [] => True
  | added :: table =>
      (∀ e ∈ lookup table added.1, added.2.distance ≤ e.distance) ∧ Improving table

section AddEntry

variable {table : Table} {dest d : Ipv4Address} (next : Ipv4Address) (interface : UInt32)
  (distance : ℕ)

theorem lookup_addEntry : (table.addEntry dest next interface distance).lookup d =
    if dest = d then some ⟨next, interface, distance⟩ else table.lookup d := by
  unfold addEntry lookup
  rw [List.find?_cons]
  split
  next h => rw [if_pos (of_decide_eq_true h), Option.map_some]
  next h => rw [if_neg (of_decide_eq_false h)]

theorem lookup_addEntry_self :
    (table.addEntry dest next interface distance).lookup dest =
      some ⟨next, interface, distance⟩ := by
  rw [lookup_addEntry, if_pos rfl]

/-- A new destination changes no entry. -/
theorem lookup_addEntry_of_none (hnone : table.lookup dest = none) (hne : table.lookup d ≠ none) :
    (table.addEntry dest next interface distance).lookup d = table.lookup d := by
  rw [lookup_addEntry, if_neg]
  rintro rfl
  exact hne hnone

theorem lookup_addEntry_ne_none (hne : table.lookup d ≠ none) :
    (table.addEntry dest next interface distance).lookup d ≠ none := by
  rw [lookup_addEntry]
  split
  · exact Option.some_ne_none _
  · exact hne

end AddEntry

end Table

open Table

def OLSR_WILL_NEVER : UInt8 := 0

/-- What the computation reads. `getInterface` is the interface with a local address. -/
structure RoutingState where
  mainAddress : Ipv4Address
  now : ℕ
  getInterface : Ipv4Address → Option UInt32
  linkSet : List LinkTuple
  neighborSet : List NeighborTuple
  twoHopNeighborSet : List TwoHopNeighborTuple
  topologySet : List TopologyTuple
  ifaceAssocSet : List IfaceAssocTuple

namespace RoutingState

variable (s : RoutingState)

def getMainAddress (ifaceAddr : Ipv4Address) : Ipv4Address :=
  ((s.ifaceAssocSet.find? fun it => it.ifaceAddr = ifaceAddr).map (·.mainAddr)).getD ifaceAddr

/-! ## The stages -/

/-- The links that the inner loop over the link set does not ignore. -/
def linksTo (nb : NeighborTuple) : List LinkTuple :=
  s.linkSet.filter fun it =>
    s.getMainAddress it.neighborIfaceAddr = nb.neighborMainAddr ∧ s.now ≤ it.time

/-- The destinations that are added for a neighbour, with the link that leads there. -/
def callsFor (nb : NeighborTuple) : List (Ipv4Address × LinkTuple) :=
  let added := (s.linksTo nb).map fun link => (link.neighborIfaceAddr, link)
  if (s.linksTo nb).any fun link => link.neighborIfaceAddr = nb.neighborMainAddr then added
  else added ++ (s.linksTo nb).getLast?.toList.map fun lt => (nb.neighborMainAddr, lt)

def neighborCalls : List (Ipv4Address × LinkTuple) :=
  (s.neighborSet.filter fun nb => nb.status = .SYM).flatMap s.callsFor

/-- `AddEntry` with the address of an interface. `none` is a failed assertion. -/
def addNeighbor (table : Table) (added : Ipv4Address × LinkTuple) : Option Table :=
  (s.getInterface added.2.localIfaceAddr).map fun interface =>
    table.addEntry added.1 added.2.neighborIfaceAddr interface 1

/-- The second stage of the source, whose first one clears the table. -/
def neighborStage : Option Table := s.neighborCalls.foldlM s.addNeighbor []

def findSymNeighborTuple (mainAddr : Ipv4Address) : Option NeighborTuple :=
  s.neighborSet.find? fun it => it.neighborMainAddr = mainAddr ∧ it.status = .SYM

/-- Whether the loop does not skip a two-hop tuple. -/
def Admitted (t : TwoHopNeighborTuple) : Prop :=
  s.findSymNeighborTuple t.twoHopNeighborAddr = none ∧ t.twoHopNeighborAddr ≠ s.mainAddress ∧
    ∃ nb ∈ s.neighborSet, nb.neighborMainAddr = t.neighborMainAddr ∧
      nb.willingness ≠ OLSR_WILL_NEVER

instance (t : TwoHopNeighborTuple) : Decidable (s.Admitted t) :=
  inferInstanceAs (Decidable (_ ∧ _ ∧ _))

def addTwoHop (table : Table) (t : TwoHopNeighborTuple) : Table :=
  if s.Admitted t then
    (table.lookup t.neighborMainAddr).elim table fun entry =>
      table.addEntry t.twoHopNeighborAddr entry.nextAddr entry.interface 2
  else table

def twoHopStage (table : Table) : Table := s.twoHopNeighborSet.foldl s.addTwoHop table

/-- One pass of the loop over the topology set; the flag is `added`. -/
def addTopology (h : ℕ) (acc : Table × Bool) (t : TopologyTuple) : Table × Bool :=
  (acc.1.lookup t.lastAddr).elim acc fun lastAddrEntry =>
    if acc.1.lookup t.destAddr = none ∧ lastAddrEntry.distance = h then
      (acc.1.addEntry t.destAddr lastAddrEntry.nextAddr lastAddrEntry.interface (h + 1), true)
    else acc

def level (h : ℕ) (table : Table) : Table × Bool :=
  s.topologySet.foldl (addTopology h) (table, false)

/-- `for (uint32_t h = 2;; h++)`, for fewer than `fuel` levels. -/
def topologyStage : ℕ → ℕ → Table → Option Table
  | 0, _, _ => none
  | fuel + 1, h, table =>
      if (s.level h table).2 then topologyStage fuel (h + 1) (s.level h table).1
      else some (s.level h table).1

def addIfaceAssoc (table : Table) (tuple : IfaceAssocTuple) : Table :=
  (table.lookup tuple.mainAddr).elim table fun entry1 =>
    if table.lookup tuple.ifaceAddr = none then
      table.addEntry tuple.ifaceAddr entry1.nextAddr entry1.interface entry1.distance
    else table

def associationStage (table : Table) : Table := s.ifaceAssocSet.foldl addIfaceAssoc table

/-- The table before the interface associations. -/
def nodeRoutes (fuel : ℕ) : Option Table :=
  s.neighborStage.bind fun table => s.topologyStage fuel 2 (s.twoHopStage table)

def routingTableComputation (fuel : ℕ) : Option Table :=
  (s.nodeRoutes fuel).map s.associationStage

/-! ## Chains of hops -/

/-- An unexpired link to a symmetric neighbour. -/
structure Usable (nb : NeighborTuple) (link : LinkTuple) : Prop where
  neighbor : nb ∈ s.neighborSet
  symmetric : nb.status = .SYM
  linked : link ∈ s.linkSet
  main : s.getMainAddress link.neighborIfaceAddr = nb.neighborMainAddr
  unexpired : s.now ≤ link.time

/-- The address of a symmetric neighbour with an unexpired link, or of its end of the link. -/
def OneHop (d : Ipv4Address) : Prop :=
  ∃ nb link, s.Usable nb link ∧ (d = link.neighborIfaceAddr ∨ d = nb.neighborMainAddr)

/-- The address of a two-hop neighbour, through a symmetric neighbour willing to forward. -/
def TwoHop (d : Ipv4Address) : Prop :=
  ∃ t ∈ s.twoHopNeighborSet, t.twoHopNeighborAddr = d ∧ s.Admitted t ∧
    ∃ nb link, s.Usable nb link ∧ nb.neighborMainAddr = t.neighborMainAddr

/-- A chain of hops from the node. Topology tuples follow a destination that is not at
distance 1. -/
inductive Chain : Ipv4Address → ℕ → Prop
  | oneHop {d : Ipv4Address} (h : s.OneHop d) : Chain d 1
  | twoHop {d : Ipv4Address} (h : s.TwoHop d) : Chain d 2
  | topology {t : TopologyTuple} {n : ℕ} (h : Chain t.lastAddr n) (hn : 2 ≤ n)
      (hfar : ¬ s.OneHop t.lastAddr) (ht : t ∈ s.topologySet) : Chain t.destAddr (n + 1)

/-- The least number of hops. -/
def Distance (d : Ipv4Address) (n : ℕ) : Prop := s.Chain d n ∧ ∀ m, s.Chain d m → n ≤ m

/-- The next address and the interface are those of an unexpired link to a symmetric neighbour. -/
def OverLink (e : RoutingTableEntry) : Prop :=
  ∃ nb link, s.Usable nb link ∧ e.nextAddr = link.neighborIfaceAddr ∧
    s.getInterface link.localIfaceAddr = some e.interface

/-- The computation returns; entries lead over links, no entry was overwritten by a farther one, the
destinations are those of the chains, at the length of the shortest, and interfaces that are
associated with a destination, with its route. -/
def MinimumHop : Prop :=
  ∃ fuel nodes table, s.nodeRoutes fuel = some nodes ∧
    s.routingTableComputation fuel = some table ∧ table.Improving ∧
    (∀ d e, table.lookup d = some e → s.OverLink e) ∧
    (∀ d e, nodes.lookup d = some e → s.Distance d e.distance) ∧
    (∀ d n, s.Chain d n → nodes.lookup d ≠ none) ∧
    ∀ d e, table.lookup d = some e → nodes.lookup d = some e ∨
      (nodes.lookup d = none ∧ ∃ a ∈ s.ifaceAssocSet, a.ifaceAddr = d ∧
        table.lookup a.mainAddr = some e)

/-- The addresses that the two-hop tuples of a list record: the neighbour of an admitted tuple is a
one-hop destination, or was recorded before as a two-hop neighbour itself. -/
inductive Recorded : List TwoHopNeighborTuple → Ipv4Address → Prop
  | overOneHop {before : List TwoHopNeighborTuple} {t : TwoHopNeighborTuple} (ht : s.Admitted t)
      (h : s.OneHop t.neighborMainAddr) : Recorded (before ++ [t]) t.twoHopNeighborAddr
  | overTwoHop {before : List TwoHopNeighborTuple} {t : TwoHopNeighborTuple} (ht : s.Admitted t)
      (h : Recorded before t.neighborMainAddr) : Recorded (before ++ [t]) t.twoHopNeighborAddr
  | before {before : List TwoHopNeighborTuple} {t : TwoHopNeighborTuple} {d : Ipv4Address}
      (h : Recorded before d) : Recorded (before ++ [t]) d

/-- The links that are used end at an interface of the node, and what is recorded as a two-hop
neighbour is one, and no one-hop destination. -/
structure Consistent : Prop where
  interfaces : ∀ nb link, s.Usable nb link → (s.getInterface link.localIfaceAddr).isSome = true
  recorded : ∀ d, s.Recorded s.twoHopNeighborSet d → s.TwoHop d ∧ ¬ s.OneHop d

variable {s}

/-! ## The neighbours -/

theorem mem_linksTo {nb : NeighborTuple} {link : LinkTuple} : link ∈ s.linksTo nb ↔
    link ∈ s.linkSet ∧ s.getMainAddress link.neighborIfaceAddr = nb.neighborMainAddr ∧
      s.now ≤ link.time := by
  rw [linksTo, List.mem_filter, decide_eq_true_eq]

/-- The calls of the second stage are about usable links. -/
theorem usable_of_mem {d : Ipv4Address} {link : LinkTuple} (h : (d, link) ∈ s.neighborCalls) :
    ∃ nb, s.Usable nb link ∧ (d = link.neighborIfaceAddr ∨ d = nb.neighborMainAddr) := by
  obtain ⟨nb, hnb, hcall⟩ := List.mem_flatMap.mp h
  rw [List.mem_filter, decide_eq_true_eq] at hnb
  have husable {l : LinkTuple} (hl : l ∈ s.linksTo nb) : s.Usable nb l :=
    ⟨hnb.1, hnb.2, (mem_linksTo.mp hl).1, (mem_linksTo.mp hl).2.1, (mem_linksTo.mp hl).2.2⟩
  have hadded (hmem : (d, link) ∈ (s.linksTo nb).map fun l => (l.neighborIfaceAddr, l)) :
      s.Usable nb link ∧ d = link.neighborIfaceAddr := by
    obtain ⟨l, hl, heq⟩ := List.mem_map.mp hmem
    obtain ⟨rfl, rfl⟩ := Prod.mk.inj heq
    exact ⟨husable hl, rfl⟩
  unfold callsFor at hcall
  dsimp only at hcall
  split at hcall
  · exact ⟨nb, (hadded hcall).1, .inl (hadded hcall).2⟩
  · rcases List.mem_append.mp hcall with hcall | hcall
    · exact ⟨nb, (hadded hcall).1, .inl (hadded hcall).2⟩
    · obtain ⟨l, hl, heq⟩ := List.mem_map.mp hcall
      obtain ⟨rfl, rfl⟩ := Prod.mk.inj heq
      exact ⟨nb, husable (List.mem_of_getLast? (Option.mem_toList.mp hl)), .inr rfl⟩

theorem call_of_usable {nb : NeighborTuple} {link : LinkTuple} (h : s.Usable nb link) :
    (link.neighborIfaceAddr, link) ∈ s.neighborCalls := by
  have hlink : link ∈ s.linksTo nb := mem_linksTo.mpr ⟨h.linked, h.main, h.unexpired⟩
  have hmem := List.mem_map_of_mem (f := fun l : LinkTuple => (l.neighborIfaceAddr, l)) hlink
  refine List.mem_flatMap.mpr
    ⟨nb, List.mem_filter.mpr ⟨h.neighbor, decide_eq_true h.symmetric⟩, ?_⟩
  unfold callsFor
  dsimp only
  split
  · exact hmem
  · exact List.mem_append_left _ hmem

/-- Every one-hop destination is added, the address of a neighbour by its own call if no link ends
there. -/
theorem exists_call {d : Ipv4Address} (h : s.OneHop d) : ∃ link, (d, link) ∈ s.neighborCalls := by
  obtain ⟨nb, link, husable, hd⟩ := h
  have hlink : link ∈ s.linksTo nb :=
    mem_linksTo.mpr ⟨husable.linked, husable.main, husable.unexpired⟩
  rcases hd with rfl | rfl
  · exact ⟨link, call_of_usable husable⟩
  · by_cases hany : (s.linksTo nb).any (fun l => l.neighborIfaceAddr = nb.neighborMainAddr) = true
    · obtain ⟨l, hl, heq⟩ := List.any_eq_true.mp hany
      obtain ⟨hlinked, hmain, hunexpired⟩ := mem_linksTo.mp hl
      exact ⟨l, of_decide_eq_true heq ▸
        call_of_usable ⟨husable.neighbor, husable.symmetric, hlinked, hmain, hunexpired⟩⟩
    · have hsome := List.getLast?_isSome.mpr (List.ne_nil_of_mem hlink)
      obtain ⟨lt, hlt⟩ := Option.isSome_iff_exists.mp hsome
      refine ⟨lt, List.mem_flatMap.mpr
        ⟨nb, List.mem_filter.mpr ⟨husable.neighbor, decide_eq_true husable.symmetric⟩, ?_⟩⟩
      unfold callsFor
      dsimp only
      rw [if_neg hany]
      exact List.mem_append_right _ (List.mem_map.mpr ⟨lt, Option.mem_toList.mpr hlt, rfl⟩)

/-- What the table holds once some calls were made. -/
structure NeighborTable (s : RoutingState) (calls : List (Ipv4Address × LinkTuple))
    (table : Table) : Prop where
  improving : table.Improving
  entries : ∀ d e, table.lookup d = some e → e.distance = 1 ∧ s.OverLink e ∧ s.OneHop d
  complete : ∀ call ∈ calls, table.lookup call.1 ≠ none
  interfaces : ∀ call ∈ calls, (s.getInterface call.2.localIfaceAddr).isSome = true

theorem neighborTable_foldlM {calls : List (Ipv4Address × LinkTuple)}
    (hcalls : ∀ call ∈ calls, call ∈ s.neighborCalls) :
    (∀ table, calls.foldlM s.addNeighbor [] = some table → NeighborTable s calls table) ∧
      ((∀ call ∈ calls, (s.getInterface call.2.localIfaceAddr).isSome = true) →
        ∃ table, calls.foldlM s.addNeighbor [] = some table) := by
  induction calls using List.reverseRecOn with
  | nil =>
      refine ⟨fun table h => ?_, fun _ => ⟨[], rfl⟩⟩
      obtain rfl := Option.some.inj h
      exact ⟨trivial, fun d e he => absurd he (by simp [lookup]), by simp, by simp⟩
  | append_singleton calls call ih =>
      obtain ⟨ihtable, ihsome⟩ := ih fun c hc => hcalls c (List.mem_append_left _ hc)
      have hcall := hcalls call (List.mem_append_right _ (List.mem_singleton_self call))
      rw [List.foldlM_append]
      constructor
      · intro table h
        obtain ⟨before, hbefore, h⟩ := Option.bind_eq_some_iff.mp h
        have hinv := ihtable before hbefore
        obtain ⟨last, hlast, h⟩ := Option.bind_eq_some_iff.mp h
        obtain rfl := Option.some.inj h
        obtain ⟨interface, hinterface, rfl⟩ := Option.map_eq_some_iff.mp hlast
        obtain ⟨nb, husable, hd⟩ := usable_of_mem hcall
        refine ⟨⟨fun e he => ?_, hinv.improving⟩, fun d e he => ?_, fun c hc => ?_, fun c hc => ?_⟩
        · exact (hinv.entries _ e he).1.ge
        · rw [lookup_addEntry] at he
          split at he
          next heq =>
            obtain rfl := Option.some.inj he
            exact ⟨rfl, ⟨nb, call.2, husable, rfl, hinterface⟩, heq ▸ ⟨nb, call.2, husable, hd⟩⟩
          next => exact hinv.entries d e he
        · rcases List.mem_append.mp hc with hc | hc
          · exact lookup_addEntry_ne_none _ _ _ (hinv.complete c hc)
          · rw [List.mem_singleton.mp hc, lookup_addEntry_self]
            exact Option.some_ne_none _
        · rcases List.mem_append.mp hc with hc | hc
          · exact hinv.interfaces c hc
          · rw [List.mem_singleton.mp hc, hinterface]
            rfl
      · intro hsome
        obtain ⟨before, hbefore⟩ := ihsome fun c hc => hsome c (List.mem_append_left _ hc)
        obtain ⟨interface, hinterface⟩ := Option.isSome_iff_exists.mp
          (hsome call (List.mem_append_right _ (List.mem_singleton_self call)))
        refine ⟨before.addEntry call.1 call.2.neighborIfaceAddr interface 1, ?_⟩
        rw [hbefore]
        change (s.addNeighbor before call).bind some = _
        rw [addNeighbor, hinterface]
        rfl

/-! ## The two-hop neighbours -/

theorem not_recorded_nil {d : Ipv4Address} : ¬ s.Recorded [] d := by
  intro h
  generalize hnil : ([] : List TwoHopNeighborTuple) = tuples at h
  cases h <;>
    exact absurd hnil.symm (List.append_ne_nil_of_right_ne_nil _ (List.cons_ne_nil _ _))

theorem recorded_concat {before : List TwoHopNeighborTuple} {t : TwoHopNeighborTuple}
    {d : Ipv4Address} : s.Recorded (before ++ [t]) d ↔ s.Recorded before d ∨
      (d = t.twoHopNeighborAddr ∧ s.Admitted t ∧
        (s.OneHop t.neighborMainAddr ∨ s.Recorded before t.neighborMainAddr)) := by
  constructor
  · intro h
    generalize htuples : before ++ [t] = tuples at h
    cases h with
    | overOneHop ht h =>
        obtain ⟨rfl, hlast⟩ := List.append_inj' htuples rfl
        obtain rfl := List.singleton_inj.mp hlast
        exact .inr ⟨rfl, ht, .inl h⟩
    | overTwoHop ht h =>
        obtain ⟨rfl, hlast⟩ := List.append_inj' htuples rfl
        obtain rfl := List.singleton_inj.mp hlast
        exact .inr ⟨rfl, ht, .inr h⟩
    | before h =>
        obtain ⟨rfl, -⟩ := List.append_inj' htuples rfl
        exact .inl h
  · rintro (h | ⟨rfl, ht, h | h⟩)
    · exact .before h
    · exact .overOneHop ht h
    · exact .overTwoHop ht h

theorem recorded_of_mem {tuples : List TwoHopNeighborTuple} {t : TwoHopNeighborTuple}
    (ht : t ∈ tuples) (hadmitted : s.Admitted t) (h : s.OneHop t.neighborMainAddr) :
    s.Recorded tuples t.twoHopNeighborAddr := by
  induction tuples using List.reverseRecOn with
  | nil => exact absurd ht List.not_mem_nil
  | append_singleton before last ih =>
      rcases List.mem_append.mp ht with ht | ht
      · exact .before (ih ht)
      · obtain rfl := List.mem_singleton.mp ht
        exact .overOneHop hadmitted h

/-- What is added over an entry leads over its link. -/
theorem overLink_addEntry {table : Table} {via dest d : Ipv4Address} {entry e : RoutingTableEntry}
    {distance : ℕ} (h : ∀ d e, table.lookup d = some e → s.OverLink e)
    (hentry : table.lookup via = some entry)
    (he : (table.addEntry dest entry.nextAddr entry.interface distance).lookup d = some e) :
    s.OverLink e := by
  rw [lookup_addEntry] at he
  split at he
  · obtain rfl := Option.some.inj he
    exact h via entry hentry
  · exact h d e he

/-- What the table holds once some two-hop tuples were looked at. -/
structure TwoHopTable (s : RoutingState) (tuples : List TwoHopNeighborTuple) (table : Table) :
    Prop where
  overLink : ∀ d e, table.lookup d = some e → s.OverLink e
  recorded : ∀ d, s.Recorded tuples d → ∃ e, table.lookup d = some e ∧ e.distance = 2
  other : ∀ d, ¬ s.Recorded tuples d → ∀ e, table.lookup d = some e → e.distance = 1 ∧ s.OneHop d
  complete : ∀ d, s.OneHop d → table.lookup d ≠ none
  improving : (∀ d, s.Recorded tuples d → ¬ s.OneHop d) → table.Improving

theorem TwoHopTable.lookup_ne_none {tuples : List TwoHopNeighborTuple} {table : Table}
    (h : TwoHopTable s tuples table) {d : Ipv4Address} :
    table.lookup d ≠ none ↔ s.OneHop d ∨ s.Recorded tuples d := by
  constructor
  · intro hne
    obtain ⟨e, he⟩ := Option.ne_none_iff_exists'.mp hne
    by_cases hrecorded : s.Recorded tuples d
    · exact .inr hrecorded
    · exact .inl (h.other d hrecorded e he).2
  · rintro (hd | hd)
    · exact h.complete d hd
    · obtain ⟨e, he, -⟩ := h.recorded d hd
      exact he ▸ Option.some_ne_none e

theorem TwoHopTable.addTwoHop {tuples : List TwoHopNeighborTuple} {table : Table}
    (h : TwoHopTable s tuples table) (t : TwoHopNeighborTuple) :
    TwoHopTable s (tuples ++ [t]) (s.addTwoHop table t) := by
  by_cases hrecord : s.Admitted t ∧ table.lookup t.neighborMainAddr ≠ none
  · obtain ⟨hadmitted, hne⟩ := hrecord
    obtain ⟨entry, hentry⟩ := Option.ne_none_iff_exists'.mp hne
    have hnew : s.Recorded (tuples ++ [t]) t.twoHopNeighborAddr :=
      recorded_concat.mpr (.inr ⟨rfl, hadmitted, h.lookup_ne_none.mp hne⟩)
    have hold {d : Ipv4Address} (hd : t.twoHopNeighborAddr ≠ d) :
        s.Recorded (tuples ++ [t]) d ↔ s.Recorded tuples d := by
      rw [recorded_concat]
      exact or_iff_left fun hlast => hd hlast.1.symm
    unfold RoutingState.addTwoHop
    rw [if_pos hadmitted, hentry, Option.elim_some]
    refine ⟨fun d e he => ?_, fun d hd => ?_, fun d hd e he => ?_, fun d hd => ?_,
      fun hfar => ⟨?_, ?_⟩⟩
    · exact overLink_addEntry h.overLink hentry he
    · rw [lookup_addEntry]
      split
      · exact ⟨_, rfl, rfl⟩
      next hne => exact h.recorded d ((hold hne).mp hd)
    · rw [lookup_addEntry] at he
      split at he
      next heq => exact absurd (heq ▸ hnew) hd
      next hne => exact h.other d (fun hbefore => hd (.before hbefore)) e he
    · exact lookup_addEntry_ne_none _ _ _ (h.complete d hd)
    · intro e he
      by_cases hbefore : s.Recorded tuples t.twoHopNeighborAddr
      · obtain ⟨e', he', hdistance⟩ := h.recorded _ hbefore
        obtain rfl := Option.some.inj (he.symm.trans he')
        exact hdistance.ge
      · exact absurd (h.other _ hbefore e he).2 (hfar _ hnew)
    · exact h.improving fun d hd => hfar d (.before hd)
  · have hsame : s.addTwoHop table t = table := by
      unfold RoutingState.addTwoHop
      by_cases hadmitted : s.Admitted t
      · rw [if_pos hadmitted, not_not.mp fun hne => hrecord ⟨hadmitted, hne⟩, Option.elim_none]
      · rw [if_neg hadmitted]
    have hold {d : Ipv4Address} : s.Recorded (tuples ++ [t]) d ↔ s.Recorded tuples d := by
      rw [recorded_concat]
      exact or_iff_left fun hlast => hrecord ⟨hlast.2.1, h.lookup_ne_none.mpr hlast.2.2⟩
    rw [hsame]
    exact ⟨h.overLink, fun d hd => h.recorded d (hold.mp hd),
      fun d hd => h.other d fun hbefore => hd (hold.mpr hbefore), h.complete,
      fun hfar => h.improving fun d hd => hfar d (hold.mpr hd)⟩

theorem NeighborTable.twoHopTable {table : Table} (h : NeighborTable s s.neighborCalls table) :
    TwoHopTable s s.twoHopNeighborSet (s.twoHopStage table) := by
  unfold twoHopStage
  induction s.twoHopNeighborSet using List.reverseRecOn with
  | nil =>
      refine ⟨fun d e he => (h.entries d e he).2.1, fun d hd => absurd hd not_recorded_nil,
        fun d _ e he => ⟨(h.entries d e he).1, (h.entries d e he).2.2⟩, fun d hd => ?_,
        fun _ => h.improving⟩
      obtain ⟨link, hcall⟩ := exists_call hd
      exact h.complete _ hcall
  | append_singleton tuples t ih =>
      rw [List.foldl_concat]
      exact ih.addTwoHop t

/-! ## The levels -/

theorem Chain.pos {d : Ipv4Address} {n : ℕ} (h : s.Chain d n) : 1 ≤ n := by
  cases h with
  | oneHop => exact Nat.le_refl 1
  | twoHop => exact Nat.le_succ 1
  | topology => exact Nat.le_add_left 1 _

theorem Chain.oneHop_of_eq_one {d : Ipv4Address} {n : ℕ} (h : s.Chain d n) (hn : n = 1) :
    s.OneHop d := by
  cases h with
  | oneHop h => exact h
  | twoHop => exact absurd hn (by decide)
  | topology _ hle => omega

theorem Chain.two_le {d : Ipv4Address} {n : ℕ} (h : s.Chain d n) (hfar : ¬ s.OneHop d) : 2 ≤ n := by
  have hpos := h.pos
  have hne : n ≠ 1 := fun hn => hfar (h.oneHop_of_eq_one hn)
  omega

theorem not_oneHop_of_distance {d : Ipv4Address} {n : ℕ} (h : s.Distance d n) (hn : 2 ≤ n) :
    ¬ s.OneHop d := by
  intro hone
  have := h.2 1 (.oneHop hone)
  omega

/-- What the table holds before level `h`: the destinations of the chains of at most `h` hops. -/
structure Level (s : RoutingState) (h : ℕ) (table : Table) : Prop where
  improving : table.Improving
  overLink : ∀ d e, table.lookup d = some e → s.OverLink e
  distance : ∀ d e, table.lookup d = some e → s.Distance d e.distance ∧ e.distance ≤ h
  complete : ∀ d n, s.Chain d n → n ≤ h → table.lookup d ≠ none

/-- The topology tuples whose destination has no entry. -/
def missing (s : RoutingState) (table : Table) : ℕ :=
  s.topologySet.countP fun t => table.lookup t.destAddr = none

theorem missing_addEntry_lt {table : Table} {t : TopologyTuple} (ht : t ∈ s.topologySet)
    (hnone : table.lookup t.destAddr = none) (next : Ipv4Address) (interface : UInt32)
    (distance : ℕ) :
    s.missing (table.addEntry t.destAddr next interface distance) < s.missing table := by
  have hle (tuples : List TopologyTuple) :
      tuples.countP (fun u => (table.addEntry t.destAddr next interface distance).lookup
        u.destAddr = none) ≤ tuples.countP fun u => table.lookup u.destAddr = none := by
    refine List.countP_mono_left fun u _ hu => ?_
    rw [decide_eq_true_eq] at hu ⊢
    by_contra hne
    exact lookup_addEntry_ne_none _ _ _ hne hu
  obtain ⟨before, after, heq⟩ := List.append_of_mem ht
  unfold missing
  rw [heq, List.countP_append, List.countP_append, List.countP_cons, List.countP_cons]
  have hbefore := hle before
  have hafter := hle after
  have hadded : (table.addEntry t.destAddr next interface distance).lookup t.destAddr ≠ none := by
    rw [lookup_addEntry_self]
    exact Option.some_ne_none _
  simp only [hnone, hadded, decide_true, decide_false, if_true, Bool.false_eq_true, if_false]
  omega

/-- What the table holds in level `h` once some topology tuples were looked at. -/
structure InLevel (s : RoutingState) (h : ℕ) (start : Table) (tuples : List TopologyTuple)
    (acc : Table × Bool) : Prop where
  improving : acc.1.Improving
  overLink : ∀ d e, acc.1.lookup d = some e → s.OverLink e
  distance : ∀ d e, acc.1.lookup d = some e → s.Distance d e.distance ∧ e.distance ≤ h + 1
  complete : ∀ d n, s.Chain d n → n ≤ h → acc.1.lookup d ≠ none
  closed : ∀ t ∈ tuples, ∀ e, acc.1.lookup t.lastAddr = some e → e.distance = h →
    acc.1.lookup t.destAddr ≠ none
  unchanged : acc.2 = false → acc.1 = start
  fewer : s.missing acc.1 ≤ s.missing start ∧ (acc.2 = true → s.missing acc.1 < s.missing start)

theorem InLevel.addTopology {h : ℕ} {start : Table} {tuples : List TopologyTuple}
    {acc : Table × Bool} (hinv : InLevel s h start tuples acc) (hh : 2 ≤ h) {t : TopologyTuple}
    (ht : t ∈ s.topologySet) : InLevel s h start (tuples ++ [t]) (addTopology h acc t) := by
  by_cases hadd : ∃ last, acc.1.lookup t.lastAddr = some last ∧ acc.1.lookup t.destAddr = none ∧
      last.distance = h
  · obtain ⟨last, hlast, hnone, hdistance⟩ := hadd
    have hlength := (hinv.distance _ last hlast).1
    have hchain : s.Chain t.destAddr (h + 1) :=
      .topology (hdistance ▸ hlength.1) hh (not_oneHop_of_distance hlength (hdistance ▸ hh)) ht
    have hmissing := missing_addEntry_lt ht hnone last.nextAddr last.interface (h + 1)
    unfold RoutingState.addTopology
    rw [hlast, Option.elim_some, if_pos ⟨hnone, hdistance⟩]
    refine ⟨⟨fun e he => ?_, hinv.improving⟩, fun d e he => ?_, fun d e he => ?_,
      fun d n hd hn => ?_, fun u hu e he hlevel => ?_, nofun,
      ⟨?_, fun _ => ?_⟩⟩
    · exact absurd (he.symm.trans hnone) (Option.some_ne_none e)
    · exact overLink_addEntry hinv.overLink hlast he
    · rw [lookup_addEntry] at he
      split at he
      next heq =>
        obtain rfl := Option.some.inj he
        refine ⟨⟨heq ▸ hchain, fun m hm => ?_⟩, Nat.le_refl _⟩
        -- a shorter chain would have led to an entry in an earlier level
        by_contra hlt
        exact hinv.complete d m hm (Nat.lt_succ_iff.mp (Nat.not_le.mp hlt)) (heq ▸ hnone)
      next => exact hinv.distance d e he
    · exact lookup_addEntry_ne_none _ _ _ (hinv.complete d n hd hn)
    · have hold : acc.1.lookup u.lastAddr = some e := by
        rw [lookup_addEntry] at he
        split at he
        next =>
          obtain rfl := Option.some.inj he
          exact absurd hlevel (Nat.succ_ne_self h)
        next => exact he
      rcases List.mem_append.mp hu with hu | hu
      · exact lookup_addEntry_ne_none _ _ _ (hinv.closed u hu e hold hlevel)
      · rw [List.mem_singleton.mp hu, lookup_addEntry_self]
        exact Option.some_ne_none _
    · exact hmissing.le.trans hinv.fewer.1
    · exact hmissing.trans_le hinv.fewer.1
  · have hsame : RoutingState.addTopology h acc t = acc := by
      unfold RoutingState.addTopology
      cases hlast : acc.1.lookup t.lastAddr with
      | none => rfl
      | some last => exact if_neg fun hcond => hadd ⟨last, hlast, hcond⟩
    rw [hsame]
    refine ⟨hinv.improving, hinv.overLink, hinv.distance, hinv.complete, fun u hu e he hlevel => ?_,
      hinv.unchanged, hinv.fewer⟩
    rcases List.mem_append.mp hu with hu | hu
    · exact hinv.closed u hu e he hlevel
    · obtain rfl := List.mem_singleton.mp hu
      exact fun hnone => hadd ⟨e, he, hnone, hlevel⟩

theorem Level.inLevel {h : ℕ} {table : Table} (hinv : Level s h table) (hh : 2 ≤ h) :
    InLevel s h table s.topologySet (s.level h table) := by
  have hfoldl (tuples : List TopologyTuple) (hsub : ∀ t ∈ tuples, t ∈ s.topologySet) :
      InLevel s h table tuples (tuples.foldl (addTopology h) (table, false)) := by
    induction tuples using List.reverseRecOn with
    | nil =>
        exact ⟨hinv.improving, hinv.overLink,
          fun d e he => ⟨(hinv.distance d e he).1, (hinv.distance d e he).2.trans (Nat.le_succ h)⟩,
          hinv.complete, fun t ht => absurd ht List.not_mem_nil, fun _ => rfl,
          ⟨Nat.le_refl _, fun hflag => absurd hflag Bool.false_ne_true⟩⟩
    | append_singleton tuples t ih =>
        rw [List.foldl_concat]
        exact (ih fun u hu => hsub u (List.mem_append_left _ hu)).addTopology hh
          (hsub t (List.mem_append_right _ (List.mem_singleton_self t)))
  exact hfoldl s.topologySet fun t ht => ht

/-- Behind a destination that has an entry, a topology tuple leads to one. -/
theorem InLevel.next {h : ℕ} {start : Table} {acc : Table × Bool}
    (hinv : InLevel s h start s.topologySet acc) {t : TopologyTuple} (ht : t ∈ s.topologySet)
    (hfar : ¬ s.OneHop t.lastAddr) {e : RoutingTableEntry}
    (he : acc.1.lookup t.lastAddr = some e) (hle : e.distance ≤ h) :
    acc.1.lookup t.destAddr ≠ none := by
  have hlength := (hinv.distance _ e he).1.1
  rcases Nat.lt_or_eq_of_le hle with hlt | heq
  · exact hinv.complete _ _ (.topology hlength (hlength.two_le hfar) hfar ht) hlt
  · exact hinv.closed t ht e he heq

theorem InLevel.level {h : ℕ} {start : Table} {acc : Table × Bool}
    (hinv : InLevel s h start s.topologySet acc) (hh : 2 ≤ h) : Level s (h + 1) acc.1 where
  improving := hinv.improving
  overLink := hinv.overLink
  distance := hinv.distance
  complete d n hd hn := by
    cases hd with
    | oneHop hone => exact hinv.complete d 1 (.oneHop hone) (by omega)
    | twoHop htwo => exact hinv.complete d 2 (.twoHop htwo) hh
    | topology hlast hlevel hfar ht =>
        have hle := Nat.le_of_succ_le_succ hn
        obtain ⟨e, he⟩ := Option.ne_none_iff_exists'.mp (hinv.complete _ _ hlast hle)
        exact hinv.next ht hfar he (((hinv.distance _ e he).1.2 _ hlast).trans hle)

/-- The table of all chains. -/
structure Routes (s : RoutingState) (table : Table) : Prop where
  improving : table.Improving
  overLink : ∀ d e, table.lookup d = some e → s.OverLink e
  distance : ∀ d e, table.lookup d = some e → s.Distance d e.distance
  complete : ∀ d n, s.Chain d n → table.lookup d ≠ none

/-- A level that adds nothing is the last one. -/
theorem InLevel.routes {h : ℕ} {start : Table} {acc : Table × Bool} (hstart : Level s h start)
    (hinv : InLevel s h start s.topologySet acc) (hh : 2 ≤ h) (hflag : acc.2 = false) :
    Routes s acc.1 where
  improving := hinv.improving
  overLink := hinv.overLink
  distance d e he := (hinv.distance d e he).1
  complete d n hd := by
    induction hd with
    | oneHop hone => exact hinv.complete _ 1 (.oneHop hone) (by omega)
    | twoHop htwo => exact hinv.complete _ 2 (.twoHop htwo) hh
    | topology _ _ hfar ht ih =>
        obtain ⟨e, he⟩ := Option.ne_none_iff_exists'.mp ih
        refine hinv.next ht hfar he ?_
        rw [hinv.unchanged hflag] at he
        exact (hstart.distance _ e he).2

theorem Level.topologyStage {fuel h : ℕ} {table : Table} (hinv : Level s h table) (hh : 2 ≤ h)
    (hfuel : s.missing table < fuel) :
    ∃ nodes, s.topologyStage fuel h table = some nodes ∧ Routes s nodes := by
  induction fuel generalizing h table with
  | zero => exact absurd hfuel (Nat.not_lt_zero _)
  | succ fuel ih =>
      have hlevel := hinv.inLevel hh
      unfold RoutingState.topologyStage
      cases hflag : (s.level h table).2 with
      | false => exact ⟨_, rfl, hlevel.routes hinv hh hflag⟩
      | true =>
          exact ih (hlevel.level hh) (Nat.le_succ_of_le hh)
            ((hlevel.fewer.2 hflag).trans_le (Nat.le_of_lt_succ hfuel))

/-- Whatever the table, the levels keep its entries. -/
theorem lookup_topologyStage {fuel h : ℕ} {table nodes : Table} {d : Ipv4Address}
    {e : RoutingTableEntry} (hnodes : s.topologyStage fuel h table = some nodes)
    (he : table.lookup d = some e) : nodes.lookup d = some e := by
  have hfoldl {h : ℕ} {tuples : List TopologyTuple} {acc : Table × Bool}
      (hacc : acc.1.lookup d = some e) :
      (tuples.foldl (addTopology h) acc).1.lookup d = some e := by
    induction tuples generalizing acc with
    | nil => exact hacc
    | cons t rest ih =>
        refine ih ?_
        unfold addTopology
        cases acc.1.lookup t.lastAddr with
        | none => exact hacc
        | some last =>
            rw [Option.elim_some]
            split
            next hcond =>
              rw [lookup_addEntry_of_none _ _ _ hcond.1 (hacc ▸ Option.some_ne_none e)]
              exact hacc
            next => exact hacc
  induction fuel generalizing h table with
  | zero => cases hnodes
  | succ fuel ih =>
      unfold RoutingState.topologyStage at hnodes
      split at hnodes
      · exact ih hnodes (hfoldl he)
      · obtain rfl := Option.some.inj hnodes
        exact hfoldl he

/-! ## The associated interfaces -/

/-- What the table holds once some associations were looked at. -/
structure AssociationTable (s : RoutingState) (nodes table : Table) : Prop where
  improving : table.Improving
  overLink : ∀ d e, table.lookup d = some e → s.OverLink e
  origin : ∀ d e, table.lookup d = some e → nodes.lookup d = some e ∨
    (nodes.lookup d = none ∧ ∃ a ∈ s.ifaceAssocSet, a.ifaceAddr = d ∧
      table.lookup a.mainAddr = some e)
  keeps : ∀ d e, nodes.lookup d = some e → table.lookup d = some e

theorem AssociationTable.addIfaceAssoc {nodes table : Table}
    (h : AssociationTable s nodes table) {a : IfaceAssocTuple} (ha : a ∈ s.ifaceAssocSet) :
    AssociationTable s nodes (addIfaceAssoc table a) := by
  unfold RoutingState.addIfaceAssoc
  cases hmain : table.lookup a.mainAddr with
  | none => exact h
  | some entry =>
      rw [Option.elim_some]
      split
      next hnone =>
        have hlookup {d : Ipv4Address} {e : RoutingTableEntry} (he : table.lookup d = some e) :
            (table.addEntry a.ifaceAddr entry.nextAddr entry.interface entry.distance).lookup d =
              some e := by
          rw [lookup_addEntry_of_none _ _ _ hnone (he ▸ Option.some_ne_none e)]
          exact he
        refine ⟨⟨fun e he => absurd (he.symm.trans hnone) (Option.some_ne_none e), h.improving⟩,
          fun d e he => ?_, fun d e he => ?_, fun d e he => hlookup (h.keeps d e he)⟩
        · exact overLink_addEntry h.overLink hmain he
        · rw [lookup_addEntry] at he
          split at he
          next heq =>
            obtain rfl := Option.some.inj he
            refine .inr ⟨?_, a, ha, heq, hlookup hmain⟩
            cases hnode : nodes.lookup d with
            | none => rfl
            | some e =>
                have hkept := h.keeps d e hnode
                rw [← heq, hnone] at hkept
                exact absurd hkept.symm (Option.some_ne_none e)
          next =>
            rcases h.origin d e he with hnode | ⟨hnode, b, hb, hiface, hentry⟩
            · exact .inl hnode
            · exact .inr ⟨hnode, b, hb, hiface, hlookup hentry⟩
      next => exact h

theorem Routes.associationTable {nodes : Table} (h : Routes s nodes) :
    AssociationTable s nodes (s.associationStage nodes) := by
  have hfoldl (tuples : List IfaceAssocTuple) (hsub : ∀ a ∈ tuples, a ∈ s.ifaceAssocSet) :
      AssociationTable s nodes (tuples.foldl RoutingState.addIfaceAssoc nodes) := by
    induction tuples using List.reverseRecOn with
    | nil => exact ⟨h.improving, h.overLink, fun d e he => .inl he, fun d e he => he⟩
    | append_singleton tuples a ih =>
        rw [List.foldl_concat]
        exact (ih fun b hb => hsub b (List.mem_append_left _ hb)).addIfaceAssoc
          (hsub a (List.mem_append_right _ (List.mem_singleton_self a)))
  exact hfoldl s.ifaceAssocSet fun a ha => ha

/-! ## Minimum hops -/

/-- Two stages are right if what the second one records are two-hop neighbours. -/
theorem TwoHopTable.level {table : Table} (h : TwoHopTable s s.twoHopNeighborSet table)
    (hrecorded : ∀ d, s.Recorded s.twoHopNeighborSet d → s.TwoHop d ∧ ¬ s.OneHop d) :
    Level s 2 table where
  improving := h.improving fun d hd => (hrecorded d hd).2
  overLink := h.overLink
  distance d e he := by
    by_cases hd : s.Recorded s.twoHopNeighborSet d
    · obtain ⟨e', he', hdistance⟩ := h.recorded d hd
      obtain rfl := Option.some.inj (he.symm.trans he')
      obtain ⟨htwo, hfar⟩ := hrecorded d hd
      rw [hdistance]
      exact ⟨⟨.twoHop htwo, fun m hm => hm.two_le hfar⟩, Nat.le_refl 2⟩
    · obtain ⟨hdistance, hone⟩ := h.other d hd e he
      rw [hdistance]
      exact ⟨⟨.oneHop hone, fun m hm => hm.pos⟩, Nat.le_succ 1⟩
  complete d n hd hn := by
    rw [h.lookup_ne_none]
    cases hd with
    | oneHop hone => exact .inl hone
    | twoHop htwo =>
        obtain ⟨t, ht, rfl, hadmitted, nb, link, husable, hmain⟩ := htwo
        exact .inr (recorded_of_mem ht hadmitted ⟨nb, link, husable, .inr hmain.symm⟩)
    | topology _ hle => omega

variable (s)

/-- The routes are those of the least number of hops if and only if the two-hop tuples record only
two-hop neighbours, and the links that are used end at interfaces of the node. -/
theorem minimumHop_iff : s.MinimumHop ↔ s.Consistent := by
  obtain ⟨htable, hreturns⟩ :=
    neighborTable_foldlM fun call (hcall : call ∈ s.neighborCalls) => hcall
  constructor
  · rintro ⟨fuel, nodes, table, hnodes, -, -, -, hdistance, -, -⟩
    obtain ⟨first, hfirst, hstage⟩ := Option.bind_eq_some_iff.mp hnodes
    have hneighbors := htable first hfirst
    refine ⟨fun nb link husable => hneighbors.interfaces _ (call_of_usable husable), fun d hd => ?_⟩
    obtain ⟨e, he, htwo⟩ := hneighbors.twoHopTable.recorded d hd
    have hlength := hdistance d e (lookup_topologyStage hstage he)
    rw [htwo] at hlength
    refine ⟨?_, not_oneHop_of_distance hlength (Nat.le_refl 2)⟩
    generalize hn : 2 = n at hlength
    cases hlength.1 with
    | oneHop => exact absurd hn (by decide)
    | twoHop htwo => exact htwo
    | topology _ hle => omega
  · rintro ⟨hinterfaces, hrecorded⟩
    have hsome : ∃ first, s.neighborStage = some first := by
      refine hreturns fun call hcall => ?_
      obtain ⟨d, link⟩ := call
      obtain ⟨nb, husable, -⟩ := usable_of_mem hcall
      exact hinterfaces nb link husable
    obtain ⟨first, hfirst⟩ := hsome
    have hlevel := ((htable first hfirst).twoHopTable).level hrecorded
    obtain ⟨nodes, hstage, hroutes⟩ := hlevel.topologyStage (Nat.le_refl 2) (Nat.lt_succ_self _)
    have hnodes : s.nodeRoutes (s.missing (s.twoHopStage first) + 1) = some nodes := by
      rw [nodeRoutes, hfirst, Option.bind_some, hstage]
    have hassociated := hroutes.associationTable
    refine ⟨_, nodes, _, hnodes, ?_, hassociated.improving, hassociated.overLink, hroutes.distance,
      hroutes.complete, hassociated.origin⟩
    rw [routingTableComputation, hnodes, Option.map_some]

/-! ## A neighbour that is not symmetric -/

/-- Neighbour 1 is symmetric and announces 2. The neighbour 2 is not symmetric any more, but what it
has announced before is still there. -/
def lostSymmetry : RoutingState where
  mainAddress := 9
  now := 5
  getInterface _ := some 1
  linkSet := [⟨9, 1, 10⟩, ⟨9, 2, 10⟩]
  neighborSet := [⟨1, .SYM, 3⟩, ⟨2, .NOT_SYM, 3⟩]
  twoHopNeighborSet := [⟨1, 2⟩, ⟨2, 5⟩]
  topologySet := [⟨5, 2, 1, 20⟩]
  ifaceAssocSet := []

theorem lostSymmetry_not_twoHop : ¬ lostSymmetry.TwoHop 5 := by
  rintro ⟨t, ht, hdest, -, nb, link, husable, hmain⟩
  have hsym := husable.symmetric
  rcases List.mem_cons.mp ht with rfl | ht
  · exact absurd hdest (by decide)
  obtain rfl := List.mem_singleton.mp ht
  rcases List.mem_cons.mp husable.neighbor with rfl | hnb
  · exact absurd hmain (by decide)
  · obtain rfl := List.mem_singleton.mp hnb
    exact absurd hsym (by decide)

/-- The route to 5 is one of three hops over 1 and 2, and is recorded as one of two. -/
theorem not_minimumHop_lostSymmetry : ¬ lostSymmetry.MinimumHop := by
  rintro ⟨fuel, nodes, table, hnodes, -, -, -, hdistance, -, -⟩
  have hentry : nodes.lookup 5 = some ⟨1, 1, 2⟩ := by
    cases fuel with
    | zero => cases hnodes
    | succ fuel =>
        obtain rfl := Option.some.inj hnodes
        rfl
  have hchain := (hdistance 5 _ hentry).1
  generalize hd : (5 : Ipv4Address) = d at hchain
  generalize hn : RoutingTableEntry.distance ⟨1, 1, 2⟩ = n at hchain
  cases hchain with
  | oneHop => exact absurd hn (by decide)
  | twoHop htwo => exact lostSymmetry_not_twoHop (hd ▸ htwo)
  | topology _ hle =>
      change 2 = _ at hn
      omega

end RoutingState

end Ns3Rdma.OlsrRouting
