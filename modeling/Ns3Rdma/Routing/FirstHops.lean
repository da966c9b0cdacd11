import Ns3Rdma.Routing.RootExits

/-! # The exits of the root are first hops

A path leaves the root over a link. Where the records of a link can be told apart, the exits of a
vertex are the first hops of its shortest paths. -/

namespace Ns3Rdma.Routing

open ShortestPath

/-! ## First hops -/

section FirstHop

variable (e : Environment) (lsdb : LSDB) (rootLsa : GlobalRoutingLSA)
  (otherEnd : Ipv4Address → Ipv4Address)

/-- The next hop over a link of the root: the other end of a link to a router, and no address for a
network. The outgoing interface is the one with the address of the link. -/
def hop (l : GlobalRoutingLinkRecord) (wLsa : GlobalRoutingLSA) : Exit :=
  (if wLsa.isNetwork then 0 else otherEnd l.linkData,
    e.findOutgoingInterfaceId l.linkData 0xffffffff)

/-- A path to the vertex at this cost leaves the root by the exit. Behind a network of the root the
next hop is the interface of the router there. -/
inductive FirstHop : Ipv4Address → ℕ → Exit → Prop
  | link {l : GlobalRoutingLinkRecord} {wLsa : GlobalRoutingLSA}
      (record : l ∈ rootLsa.linkRecords) (notStub : l.linkType ≠ .StubNetwork)
      (stored : lsdb.getLSA l.linkId = some wLsa) :
      FirstHop l.linkId l.metric.toNat (hop e otherEnd l wLsa)
  | behind {n addr w : Ipv4Address} {m : ℕ} {x : Exit} {nLsa wLsa : GlobalRoutingLSA}
      {mask : Ipv4Address} {routers : List Ipv4Address} (network : FirstHop n m x)
      (attached : x.1 = 0) (stored : lsdb.getLSA n = some nLsa)
      (body : nLsa.body = .NetworkLSA mask routers) (router : addr ∈ routers)
      (owner : lsdb.getLSAByLinkData addr = some wLsa) (id : wLsa.linkStateId = w) :
      FirstHop w m (addr, x.2)
  | beyond {v w : Ipv4Address} {m k : ℕ} {x : Exit} (path : FirstHop v m x)
      (ne_root : v ≠ rootLsa.linkStateId) (hop : x.1 ≠ 0) (step : lsdb.Edge v w k) :
      FirstHop w (m + k) x

/-- Where a link of the root is a shortest path, the first record that points back is its other
end, and the network has the interface of the link. -/
def DirectExits : Prop :=
  ∀ l ∈ rootLsa.linkRecords, l.linkType ≠ .StubNetwork → ∀ wLsa,
    lsdb.getLSA l.linkId = some wLsa →
      (∀ cost, Walk lsdb.Edge rootLsa.linkStateId l.linkId cost → l.metric.toNat ≤ cost) →
        rootExit e rootLsa l wLsa = hop e otherEnd l wLsa

/-- 0.0.0.0 is the address of no interface. -/
structure Addressed : Prop where
  otherEnd : ∀ l ∈ rootLsa.linkRecords, l.linkType ≠ .StubNetwork → otherEnd l.linkData ≠ 0
  linkData : lsdb.getLSAByLinkData 0 = none

end FirstHop

namespace SPFState

/-- In every turn the next hops are defined, and those behind a network are the right ones. -/
def Regular (e : Environment) (lsdb : LSDB) (root : Ipv4Address) : ℕ → SPFState → Prop
  | 0, _ => True
  | fuel + 1, s => ¬ s.Blocked lsdb root ∧ s.Attached lsdb root ∧
      ∀ s' ∈ s.next e lsdb root, ∀ s'' ∈ s'.pop, Regular e lsdb root fuel s''

instance instDecidableRegular (e : Environment) (lsdb : LSDB) (root : Ipv4Address) :
    (fuel : ℕ) → (s : SPFState) → Decidable (s.Regular e lsdb root fuel)
  | 0, _ => inferInstanceAs (Decidable True)
  | fuel + 1, s =>
      have := instDecidableRegular e lsdb root fuel
      inferInstanceAs (Decidable (¬ s.Blocked lsdb root ∧ s.Attached lsdb root ∧
        ∀ s' ∈ s.next e lsdb root, ∀ s'' ∈ s'.pop, s''.Regular e lsdb root fuel))

/-- Every vertex other than the root was popped with the first hops of its shortest paths. -/
def RightExits (e : Environment) (lsdb : LSDB) (rootLsa : GlobalRoutingLSA)
    (otherEnd : Ipv4Address → Ipv4Address) (tree : List SPFVertex) : Prop :=
  ∀ t ∈ tree, t.vertexId ≠ rootLsa.linkStateId → ∀ x, x ∈ t.ecmpRootExits ↔
    FirstHop e lsdb rootLsa otherEnd t.vertexId t.distanceFromRoot.toNat x

variable {e : Environment} {lsdb : LSDB} {root : Ipv4Address} {s : SPFState}
  {rootLsa : GlobalRoutingLSA}

/-! ## First hops of shortest paths -/

section Paths

variable {otherEnd : Ipv4Address → Ipv4Address} {u : SPFVertex} {rest : CandidateQueue}

theorem edge_of_record (hmem : lsdb.getLSA rootLsa.linkStateId = some rootLsa)
    {l : GlobalRoutingLinkRecord} (hl : l ∈ rootLsa.linkRecords)
    (hstub : l.linkType ≠ .StubNetwork) :
    lsdb.Edge rootLsa.linkStateId l.linkId l.metric.toNat := by
  refine ⟨rootLsa, hmem, ?_⟩
  unfold GlobalRoutingLSA.linkRecords at hl
  unfold LSDB.Leads
  cases hbody : rootLsa.body with
  | RouterLSA records =>
      rw [hbody] at hl
      exact ⟨l, hl, hstub, rfl, rfl⟩
  | NetworkLSA mask routers =>
      rw [hbody] at hl
      cases hl

theorem edge_of_attached {n addr mask : Ipv4Address} {nLsa wLsa : GlobalRoutingLSA}
    {routers : List Ipv4Address} (hn : lsdb.getLSA n = some nLsa)
    (hbody : nLsa.body = .NetworkLSA mask routers) (haddr : addr ∈ routers)
    (hwLsa : lsdb.getLSAByLinkData addr = some wLsa) : lsdb.Edge n wLsa.linkStateId 0 := by
  refine ⟨nLsa, hn, ?_⟩
  unfold LSDB.Leads
  rw [hbody]
  exact ⟨addr, haddr, wLsa, hwLsa, rfl, rfl⟩

theorem walk_of_firstHop (hmem : lsdb.getLSA rootLsa.linkStateId = some rootLsa)
    {v : Ipv4Address} {m : ℕ} {x : Exit} (h : FirstHop e lsdb rootLsa otherEnd v m x) :
    Walk lsdb.Edge rootLsa.linkStateId v m := by
  induction h with
  | link record notStub stored =>
      have hwalk := Walk.snoc .nil (edge_of_record hmem record notStub)
      rwa [Nat.zero_add] at hwalk
  | behind network attached stored body router owner id ih =>
      exact id ▸ ih.snoc (edge_of_attached stored body router owner)
  | beyond path ne_root hop step ih => exact ih.snoc step

/-- Without an address a path has come to a network. -/
theorem network_of_firstHop (haddressed : Addressed lsdb rootLsa otherEnd) {v : Ipv4Address}
    {m : ℕ} {x : Exit}
    (h : FirstHop e lsdb rootLsa otherEnd v m x) (hx : x.1 = 0) :
    ∃ vLsa, lsdb.getLSA v = some vLsa ∧ vLsa.isNetwork = true := by
  cases h with
  | link record notStub stored =>
      refine ⟨_, stored, ?_⟩
      by_contra hrouter
      unfold hop at hx
      rw [if_neg hrouter] at hx
      exact haddressed.otherEnd _ record notStub hx
  | behind network attached stored body router owner id =>
      change _ = (0 : Ipv4Address) at hx
      dsimp only at hx
      rw [hx, haddressed.linkData] at owner
      cases owner
  | beyond path ne_root hop step => exact absurd hx hop

/-- The weight of an edge, and the kinds of its ends. -/
theorem edge_cases {v w : Ipv4Address} {k : ℕ} {vLsa : GlobalRoutingLSA} (hwf : lsdb.WellFormed)
    (hvLsa : lsdb.getLSA v = some vLsa) (h : lsdb.Edge v w k) :
    (vLsa.isNetwork = false ∧ 0 < k) ∨ (vLsa.isNetwork = true ∧ k = 0 ∧
      ∃ wLsa, lsdb.getLSA w = some wLsa ∧ wLsa.isNetwork = false) := by
  obtain ⟨other, hother, hleads⟩ := h
  obtain rfl := Option.some.inj (hvLsa.symm.trans hother)
  have hmem := (LSDB.getLSA_eq_some hvLsa).1
  have hrecord := hwf.record vLsa hmem
  unfold LSDB.Leads at hleads
  unfold GlobalRoutingLSA.linkRecords at hrecord
  unfold GlobalRoutingLSA.isNetwork
  cases hbody : vLsa.body with
  | RouterLSA records =>
      rw [hbody] at hleads hrecord
      obtain ⟨l, hl, hstub, -, rfl⟩ := hleads
      exact Or.inl ⟨rfl, (hrecord l hl hstub).2.1⟩
  | NetworkLSA mask routers =>
      rw [hbody] at hleads
      obtain ⟨addr, -, wLsa, hwLsa, rfl, rfl⟩ := hleads
      obtain ⟨hstored, hrouter⟩ := LSDB.getLSAByLinkData_eq_some hwLsa
      exact Or.inr ⟨rfl, rfl, wLsa, LSDB.getLSA_of_mem hwf.distinct hstored, hrouter⟩

/-- The next vertex is not behind one that is not in the tree. -/
theorem Searching.rank_le_of_walk (h : s.Searching lsdb root lsdb.Edge) (hwf : lsdb.WellFormed)
    (hcandidate : s.candidate = u :: rest) {v : Ipv4Address} {m : ℕ}
    (hwalk : Walk lsdb.Edge root v m) (hv : v ∉ s.tree.map SPFVertex.vertexId)
    {vLsa : GlobalRoutingLSA} (hvLsa : lsdb.getLSA v = some vLsa) :
    u.rank ≤ 2 * m + if vLsa.isNetwork then 0 else 1 := by
  induction hwalk generalizing vLsa with
  | nil =>
      rw [← map_fst_labels] at hv
      exact absurd (List.mem_map_of_mem h.labelled.start) hv
  | @snoc p v cost weight walk step ih =>
      by_cases hp : p ∈ s.tree.map SPFVertex.vertexId
      · obtain ⟨t, ht, rfl⟩ := List.mem_map.mp hp
        have hlabel : (t.vertexId, t.distanceFromRoot.toNat) ∈ labels s.tree :=
          mem_labels.mpr ⟨t, ht, rfl, rfl⟩
        obtain ⟨d, hd, hle⟩ := h.labelled.best _ _ _ _ hlabel step
          (by rw [map_fst_labels]; exact hv)
        have hleast := h.labelled.least _ _ hlabel cost walk
        obtain ⟨c, hc, rfl, rfl⟩ := mem_labels.mp hd
        have hstored := LSDB.getLSA_of_mem hwf.distinct (h.storedCandidate c hc)
        obtain rfl := Option.some.inj (hvLsa.symm.trans hstored)
        have hrank := h.rank_le hcandidate c hc
        have hc' : c.rank = 2 * c.distanceFromRoot.toNat + if c.lsa.isNetwork then 0 else 1 := rfl
        omega
      · obtain ⟨pLsa, hpLsa, -⟩ := id step
        have hrank := ih hp hpLsa
        rcases edge_cases hwf hpLsa step with ⟨hrouter, hpos⟩ | ⟨hnetwork, rfl, -⟩
        · rw [hrouter] at hrank
          simp only [Bool.false_eq_true, if_false] at hrank
          omega
        · rw [hnetwork] at hrank
          simp only [if_true] at hrank
          omega

/-- The next vertex has the least distance of all walks. -/
theorem Searching.le_of_walk (h : s.Searching lsdb root lsdb.Edge)
    (hcandidate : s.candidate = u :: rest) {cost : ℕ}
    (hwalk : Walk lsdb.Edge root u.vertexId cost) : u.distanceFromRoot.toNat ≤ cost := by
  refine (h.settle hcandidate).least _ _ ?_ cost hwalk
  rw [labels_concat]
  exact List.mem_append_right _ (List.mem_singleton_self _)

/-- The vertices before the next one on its shortest paths are in the tree. -/
theorem Searching.mem_tree_of_step (h : s.Searching lsdb root lsdb.Edge) (hwf : lsdb.WellFormed)
    (hcandidate : s.candidate = u :: rest) {v : Ipv4Address} {m k : ℕ}
    (hwalk : Walk lsdb.Edge root v m) (hstep : lsdb.Edge v u.vertexId k)
    (hcost : u.distanceFromRoot.toNat = m + k) :
    ∃ t ∈ s.tree, t.vertexId = v ∧ t.distanceFromRoot.toNat = m := by
  obtain ⟨vLsa, hvLsa, -⟩ := id hstep
  have hu : u ∈ s.candidate := by
    rw [hcandidate]
    exact List.mem_cons_self
  have hin : v ∈ s.tree.map SPFVertex.vertexId := by
    by_contra hv
    have hrank := h.rank_le_of_walk hwf hcandidate hwalk hv hvLsa
    unfold SPFVertex.rank at hrank
    rcases edge_cases hwf hvLsa hstep with ⟨hrouter, hpos⟩ | ⟨hnetwork, rfl, wLsa, hwLsa, hrouter⟩
    · rw [hrouter] at hrank
      simp only [Bool.false_eq_true, if_false] at hrank
      omega
    · have hstored := LSDB.getLSA_of_mem hwf.distinct (h.storedCandidate u hu)
      obtain rfl := Option.some.inj (hwLsa.symm.trans hstored)
      rw [hnetwork, hrouter] at hrank
      simp only [Bool.false_eq_true, if_true, if_false] at hrank
      omega
  obtain ⟨t, ht, rfl⟩ := List.mem_map.mp hin
  have hlabel : (t.vertexId, t.distanceFromRoot.toNat) ∈ labels s.tree :=
    mem_labels.mpr ⟨t, ht, rfl, rfl⟩
  have hleast := h.labelled.least _ _ hlabel m hwalk
  obtain ⟨visited, htrail, -⟩ := h.labelled.trail _ _ hlabel
  have hle := h.le_of_walk hcandidate (htrail.walk.snoc hstep)
  exact ⟨t, ht, rfl, by omega⟩

variable (hwf : lsdb.WellFormed) (hmem : rootLsa ∈ lsdb) (hrouter : rootLsa.isNetwork = false)
  (haddressed : Addressed lsdb rootLsa otherEnd) (hdirect : DirectExits e lsdb rootLsa otherEnd)
include hwf hmem hrouter haddressed hdirect

/-- What the tree offers to the next vertex are first hops. -/
theorem Searching.firstHop_of_offers (h : s.Searching lsdb rootLsa.linkStateId lsdb.Edge)
    (hcandidate : s.candidate = u :: rest) (hright : RightExits e lsdb rootLsa otherEnd s.tree)
    {t : SPFVertex} (ht : t ∈ s.tree) {x : Exit}
    (hoffer : Offers e lsdb rootLsa t u.vertexId u.distanceFromRoot.toNat x) :
    FirstHop e lsdb rootLsa otherEnd u.vertexId u.distanceFromRoot.toNat x := by
  have hstored := LSDB.getLSA_of_mem hwf.distinct (h.storedTree t ht)
  have hrootLsa := LSDB.getLSA_of_mem hwf.distinct hmem
  have hlsa : t.vertexId = rootLsa.linkStateId → t.lsa = rootLsa := fun heq =>
    List.inj_on_of_nodup_map hwf.distinct (h.storedTree t ht) hmem heq
  unfold Offers at hoffer
  cases hbody : t.lsa.body with
  | RouterLSA records =>
      rw [hbody] at hoffer
      obtain ⟨l, hl, hstub, hid, hd, hx⟩ := hoffer
      split at hx
      · next heq =>
        -- The root itself is at distance 0.
        obtain ⟨wLsa, hwLsa, rfl⟩ := hx
        obtain ⟨t₀, ht₀, hid₀, hzero⟩ := mem_labels.mp h.labelled.start
        rw [List.inj_on_of_nodup_map h.treeNodup ht₀ ht (hid₀.trans heq.symm)] at hzero
        have hrecord : l ∈ rootLsa.linkRecords := by
          unfold GlobalRoutingLSA.linkRecords
          rw [← hlsa heq, hbody]
          exact hl
        rw [hzero, Nat.zero_add] at hd
        rw [hd, ← hid]
        rw [← hid] at hwLsa
        rw [hdirect l hrecord hstub wLsa hwLsa fun cost hwalk => ?_]
        · exact .link hrecord hstub hwLsa
        · rw [← hd]
          rw [hid] at hwalk
          exact h.le_of_walk hcandidate hwalk
      · next hne =>
        have hpath := (hright t ht hne x).mp hx
        have hrouterT : t.lsa.isNetwork = false := by
          unfold GlobalRoutingLSA.isNetwork
          rw [hbody]
        have hhop : x.1 ≠ 0 := fun hx => by
          obtain ⟨vLsa, hvLsa, hnetwork⟩ := network_of_firstHop haddressed hpath hx
          obtain rfl := Option.some.inj (hstored.symm.trans hvLsa)
          rw [hrouterT] at hnetwork
          cases hnetwork
        rw [hd, ← hid]
        refine .beyond hpath hne hhop ⟨t.lsa, hstored, ?_⟩
        unfold LSDB.Leads
        rw [hbody]
        exact ⟨l, hl, hstub, rfl, rfl⟩
  | NetworkLSA mask routers =>
      rw [hbody] at hoffer
      obtain ⟨addr, haddr, wLsa, hwLsa, hid, hd, y, hy, rfl⟩ := hoffer
      have hne : t.vertexId ≠ rootLsa.linkStateId := fun heq => by
        unfold GlobalRoutingLSA.isNetwork at hrouter
        rw [← hlsa heq, hbody] at hrouter
        cases hrouter
      have hpath := (hright t ht hne y).mp hy
      unfold SPFVertex.through
      by_cases hzero : y.1 = 0
      · rw [if_pos hzero, hd]
        exact .behind hpath hzero hstored hbody haddr hwLsa hid
      · rw [if_neg hzero, hd, ← hid]
        exact .beyond hpath hne hzero (edge_of_attached hstored hbody haddr hwLsa)

omit haddressed in
/-- All first hops of the next vertex are offered by the tree. -/
theorem Searching.offers_of_firstHop (h : s.Searching lsdb rootLsa.linkStateId lsdb.Edge)
    (hcandidate : s.candidate = u :: rest) (hright : RightExits e lsdb rootLsa otherEnd s.tree)
    {x : Exit} (hpath : FirstHop e lsdb rootLsa otherEnd u.vertexId u.distanceFromRoot.toNat x) :
    ∃ t ∈ s.tree, Offers e lsdb rootLsa t u.vertexId u.distanceFromRoot.toNat x := by
  have hrootLsa := LSDB.getLSA_of_mem hwf.distinct hmem
  have hstored : ∀ t ∈ s.tree, lsdb.getLSA t.vertexId = some t.lsa := fun t ht =>
    LSDB.getLSA_of_mem hwf.distinct (h.storedTree t ht)
  have hleast := fun cost (hwalk : Walk lsdb.Edge rootLsa.linkStateId u.vertexId cost) =>
    h.le_of_walk hcandidate hwalk
  have hbefore := fun v m k => h.mem_tree_of_step hwf hcandidate (v := v) (m := m) (k := k)
  unfold Offers
  generalize u.vertexId = w at hpath hleast hbefore ⊢
  generalize u.distanceFromRoot.toNat = d at hpath hleast hbefore ⊢
  cases hpath with
  | @link l wLsa record notStub stored =>
      obtain ⟨t, ht, hid, hzero⟩ := mem_labels.mp h.labelled.start
      have hlsa : t.lsa = rootLsa :=
        List.inj_on_of_nodup_map hwf.distinct (h.storedTree t ht) hmem hid
      refine ⟨t, ht, ?_⟩
      unfold GlobalRoutingLSA.linkRecords at record
      rw [hlsa]
      cases hbody : rootLsa.body with
      | NetworkLSA mask routers =>
          rw [hbody] at record
          cases record
      | RouterLSA records =>
          rw [hbody] at record
          refine ⟨l, record, notStub, rfl, by rw [hzero, Nat.zero_add], ?_⟩
          rw [if_pos hid]
          refine ⟨wLsa, stored, (hdirect l ?_ notStub wLsa stored hleast).symm⟩
          unfold GlobalRoutingLSA.linkRecords
          rw [hbody]
          exact record
  | @behind n addr _ _ x nLsa wLsa mask routers network attached stored body router owner id =>
      have hedge := edge_of_attached stored body router owner
      rw [id] at hedge
      obtain ⟨t, ht, rfl, rfl⟩ :=
        hbefore _ _ _ (walk_of_firstHop hrootLsa network) hedge (Nat.add_zero _).symm
      obtain rfl := Option.some.inj ((hstored t ht).symm.trans stored)
      have hne : t.vertexId ≠ rootLsa.linkStateId := fun heq => by
        unfold GlobalRoutingLSA.isNetwork at hrouter
        rw [← List.inj_on_of_nodup_map hwf.distinct (h.storedTree t ht) hmem heq, body] at hrouter
        cases hrouter
      refine ⟨t, ht, ?_⟩
      rw [body]
      exact ⟨addr, router, wLsa, owner, id, rfl, x, (hright t ht hne x).mpr network,
        (if_pos attached).symm⟩
  | @beyond v _ m k _ path ne_root hop step =>
      obtain ⟨t, ht, rfl, rfl⟩ := hbefore _ _ _ (walk_of_firstHop hrootLsa path) step rfl
      have hexit := (hright t ht ne_root x).mpr path
      obtain ⟨vLsa, hvLsa, hleads⟩ := step
      obtain rfl := Option.some.inj ((hstored t ht).symm.trans hvLsa)
      refine ⟨t, ht, ?_⟩
      unfold LSDB.Leads at hleads
      cases hbody : t.lsa.body with
      | RouterLSA records =>
          rw [hbody] at hleads
          obtain ⟨l, hl, hstub, hid, rfl⟩ := hleads
          refine ⟨l, hl, hstub, hid, rfl, ?_⟩
          rw [if_neg ne_root]
          exact hexit
      | NetworkLSA mask routers =>
          rw [hbody] at hleads
          obtain ⟨addr, haddr, wLsa, hwLsa, hid, rfl⟩ := hleads
          exact ⟨addr, haddr, wLsa, hwLsa, hid, Nat.add_zero _, x, hexit, (if_neg hop).symm⟩

/-- The vertices of a loop that ends have their first hops. -/
theorem Turn.rightExits (h : s.Turn lsdb rootLsa.linkStateId)
    (hcost : ∀ visited v cost,
      Trail lsdb.Edge rootLsa.linkStateId visited v cost → cost < 2 ^ 32)
    (ht : s.Tracked lsdb (s.OffersBefore e lsdb rootLsa))
    (hright : RightExits e lsdb rootLsa otherEnd s.tree) {fuel : ℕ}
    (hregular : s.Regular e lsdb rootLsa.linkStateId fuel) {final : SPFState}
    (hfinal : SPFState.mainLoop e lsdb rootLsa.linkStateId fuel s = some final) :
    RightExits e lsdb rootLsa otherEnd final.tree := by
  have hroot : ∀ lsa, lsdb.getLSA rootLsa.linkStateId = some lsa → lsa.isNetwork = false := by
    intro lsa hlsa
    obtain rfl := Option.some.inj ((LSDB.getLSA_of_mem hwf.distinct hmem).symm.trans hlsa)
    exact hrouter
  induction fuel generalizing s with
  | zero => cases hfinal
  | succ fuel ih =>
      obtain ⟨hblocked, hattached, hlater⟩ := hregular
      obtain ⟨s', hs', -, htree, hsearching⟩ := h.next (e := e) hwf hroot hcost hblocked
      have htracked := h.tracked hwf hroot hcost ht hattached hs'
      rw [← htree] at htracked hright
      unfold SPFState.mainLoop at hfinal
      rw [hs', Option.bind_some] at hfinal
      cases hcandidate : s'.candidate with
      | nil =>
          have hpop : s'.pop = none := by
            unfold SPFState.pop
            rw [hcandidate]
          rw [hpop] at hfinal
          obtain rfl := Option.some.inj hfinal
          exact hright
      | cons u rest =>
          obtain ⟨s'', hpop, -, htree', hturn⟩ := hsearching.pop hcandidate
          obtain ⟨hexits, hbefore⟩ := htracked.pop hcandidate hpop hturn
          rw [hpop] at hfinal
          refine ih hturn hbefore (fun t ht hne x => ?_) (hlater s' hs' s'' hpop) hfinal
          rw [htree'] at ht
          rcases List.mem_append.mp ht with ht | ht
          · exact hright t ht hne x
          · obtain rfl := List.mem_singleton.mp ht
            rw [hexits]
            constructor
            · rintro ⟨t, ht, hoffer⟩
              exact hsearching.firstHop_of_offers hwf hmem hrouter haddressed hdirect hcandidate
                hright ht hoffer
            · exact hsearching.offers_of_firstHop hwf hmem hrouter hdirect hcandidate hright

end Paths

theorem Regular.unblocked {fuel : ℕ} (h : s.Regular e lsdb root fuel) :
    s.Unblocked e lsdb root fuel := by
  induction fuel generalizing s with
  | zero => trivial
  | succ fuel ih =>
      obtain ⟨hblocked, -, hlater⟩ := h
      exact ⟨hblocked, fun s' hs' s'' hs'' => ih (hlater s' hs' s'' hs'')⟩

theorem tracked_init :
    (init rootLsa).Tracked lsdb ((init rootLsa).OffersBefore e lsdb rootLsa) := by
  refine ⟨List.nodup_nil, fun id => ?_, fun c hc => ?_, fun c hc => ?_, fun id d x hoffer => ?_⟩
  · by_cases heq : id = rootLsa.linkStateId
    · simp [init, heq]
    · simp [init, heq]
  · cases hc
  · cases hc
  · obtain ⟨t, ht, hne, -⟩ := hoffer
    exact absurd (by rw [List.mem_singleton.mp ht]; rfl) hne

/-- In a run whose turns are regular, the calculation does not fail, and every vertex other than the
root is popped with the first hops of its shortest paths. -/
theorem rightExits_of_regular {otherEnd : Ipv4Address → Ipv4Address} (hwf : lsdb.WellFormed)
    (hmem : rootLsa ∈ lsdb) (hrouter : rootLsa.isNetwork = false)
    (haddressed : Addressed lsdb rootLsa otherEnd)
    (hcost : ∀ visited v cost,
      Trail lsdb.Edge rootLsa.linkStateId visited v cost → cost < 2 ^ 32)
    (hdirect : DirectExits e lsdb rootLsa otherEnd)
    (hregular : (init rootLsa).Regular e lsdb rootLsa.linkStateId lsdb.length) :
    ∃ final, mainLoop e lsdb rootLsa.linkStateId lsdb.length (init rootLsa) = some final ∧
      ShortestPaths lsdb rootLsa.linkStateId final.tree ∧
        RightExits e lsdb rootLsa otherEnd final.tree := by
  have hturn := turn_init hmem
  have hroot : ∀ lsa, lsdb.getLSA rootLsa.linkStateId = some lsa → lsa.isNetwork = false := by
    intro lsa hlsa
    obtain rfl := Option.some.inj ((LSDB.getLSA_of_mem hwf.distinct hmem).symm.trans hlsa)
    exact hrouter
  obtain ⟨final, hfinal, hpaths⟩ :=
    hturn.mainLoop (e := e) hwf hroot hcost (Nat.lt_succ_self _) hregular.unblocked
  refine ⟨final, hfinal, hpaths, ?_⟩
  refine hturn.rightExits hwf hmem hrouter haddressed hdirect hcost tracked_init
    (fun t ht hne => absurd ?_ hne) hregular hfinal
  rw [List.mem_singleton.mp ht]
  rfl

/-! ## Databases -/

def edgeRouter : GlobalRoutingLSA :=
  ⟨1, .RouterLSA [⟨10, 100, .TransitNetwork, 1⟩, ⟨3, 13, .PointToPoint, 2⟩]⟩

/-- A router shares a network with another one, and has a link to a third one. -/
def office : LSDB :=
  [edgeRouter, ⟨2, .RouterLSA [⟨10, 101, .TransitNetwork, 1⟩]⟩,
    ⟨3, .RouterLSA [⟨1, 31, .PointToPoint, 2⟩]⟩, ⟨10, .NetworkLSA 0xffffff00 [100, 101]⟩]

/-- The interfaces 1 and 2. -/
def twoInterfaces : Environment := ⟨fun a _ => if a = 12 ∨ a = 13 then 2 else 1, fun a b => a ≤ b⟩

theorem rightExits_of_regular_office :
    ∃ final, mainLoop twoInterfaces office 1 4 (init edgeRouter) = some final ∧
      ShortestPaths office 1 final.tree ∧
        RightExits twoInterfaces office edgeRouter (fun _ => 31) final.tree := by
  have hwf : office.WellFormed := ⟨by decide, by decide⟩
  have hdirect : ∀ l ∈ edgeRouter.linkRecords, ∀ wLsa ∈ office.getLSA l.linkId,
      rootExit twoInterfaces edgeRouter l wLsa = hop twoInterfaces (fun _ => 31) l wLsa := by
    decide +kernel
  have hregular : (init edgeRouter).Regular twoInterfaces office 1 4 := by decide +kernel
  exact @rightExits_of_regular twoInterfaces office edgeRouter (fun _ => 31) hwf
    List.mem_cons_self rfl ⟨by decide, by decide⟩ (cost_lt hwf (by decide) (by decide))
    (fun l hl _ wLsa hwLsa _ => hdirect l hl wLsa hwLsa) hregular

def leftRouter : GlobalRoutingLSA :=
  ⟨1, .RouterLSA [⟨2, 11, .PointToPoint, 1⟩, ⟨2, 12, .PointToPoint, 1⟩]⟩

def rightRouter : GlobalRoutingLSA :=
  ⟨2, .RouterLSA [⟨1, 21, .PointToPoint, 1⟩, ⟨1, 22, .PointToPoint, 1⟩]⟩

/-- Two parallel links, from 11 to 21 and from 12 to 22: both exits go to the first one's end. -/
theorem not_rightExits_parallel :
    LSDB.WellFormed [leftRouter, rightRouter] ∧ ¬ ∃ final,
      mainLoop twoInterfaces [leftRouter, rightRouter] 1 2 (init leftRouter) = some final ∧
        RightExits twoInterfaces [leftRouter, rightRouter] leftRouter (· + 10) final.tree := by
  refine ⟨⟨by decide, by decide⟩, ?_⟩
  rintro ⟨final, hfinal, hright⟩
  have htree : (mainLoop twoInterfaces [leftRouter, rightRouter] 1 2 (init leftRouter)).map
      (fun s => s.tree.map fun t => (t.vertexId, t.distanceFromRoot.toNat, t.ecmpRootExits)) =
        some [(1, 0, []), (2, 1, [(21, 1), (21, 2)])] := by
    decide +kernel
  rw [hfinal, Option.map_some, Option.some_inj] at htree
  have hmem : (2, 1, [(21, 1), (21, 2)]) ∈ final.tree.map fun t =>
      (t.vertexId, t.distanceFromRoot.toNat, t.ecmpRootExits) := by
    rw [htree]
    exact List.mem_cons_of_mem _ List.mem_cons_self
  obtain ⟨t, ht, heq⟩ := List.mem_map.mp hmem
  obtain ⟨hid, heq⟩ := Prod.mk.inj heq
  obtain ⟨hdistance, hexits⟩ := Prod.mk.inj heq
  have hpath : FirstHop twoInterfaces [leftRouter, rightRouter] leftRouter (· + 10) 2 1 (22, 2) :=
    .link (l := ⟨2, 12, .PointToPoint, 1⟩) (by decide) (by decide)
      (show LSDB.getLSA [leftRouter, rightRouter] 2 = some rightRouter from rfl)
  have hne : t.vertexId ≠ 1 := by
    rw [hid]
    decide
  rw [← hid, ← hdistance] at hpath
  have hexit := (hright t ht hne (22, 2)).mpr hpath
  rw [hexits] at hexit
  exact absurd hexit (by decide)

end SPFState

end Ns3Rdma.Routing
