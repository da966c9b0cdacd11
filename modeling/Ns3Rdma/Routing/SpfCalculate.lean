import Mathlib.Data.List.Perm.Subperm
import Ns3Rdma.Routing.SpfNext

/-! # Global routing computes shortest distances

The main loop of `SPFCalculate` settles the labels, unless a next hop is missing. -/

namespace Ns3Rdma.Routing

open ShortestPath

/-! ## A turn of the main loop -/

/-- The LSAs that the records of a vertex point to. -/
def LSDB.neighbours (lsdb : LSDB) (lsa : GlobalRoutingLSA) : List GlobalRoutingLSA :=
  match lsa.body with
  | .RouterLSA linkRecords =>
      (linkRecords.filter fun l => l.linkType ≠ .StubNetwork).filterMap fun l =>
        lsdb.getLSA l.linkId
  | .NetworkLSA _ attachedRouters => attachedRouters.filterMap lsdb.getLSAByLinkData

theorem LSDB.mem_neighbours {lsdb : LSDB} {lsa wLsa : GlobalRoutingLSA} {m : ℕ}
    (hwf : lsdb.WellFormed) (hlsa : lsa ∈ lsdb) (hwLsa : wLsa ∈ lsdb)
    (h : lsdb.Edge lsa.linkStateId wLsa.linkStateId m) : wLsa ∈ lsdb.neighbours lsa := by
  obtain ⟨other, hother, hbody⟩ := h
  obtain rfl := Option.some.inj ((LSDB.getLSA_of_mem hwf.distinct hlsa).symm.trans hother)
  obtain ⟨id, body⟩ := lsa
  cases body with
  | RouterLSA records =>
      obtain ⟨l, hl, hstub, hid, -⟩ := hbody
      refine List.mem_filterMap.mpr ⟨l, List.mem_filter.mpr ⟨hl, by simpa using hstub⟩, ?_⟩
      rw [hid]
      exact LSDB.getLSA_of_mem hwf.distinct hwLsa
  | NetworkLSA mask routers =>
      obtain ⟨addr, haddr, found, hfound, hid, -⟩ := hbody
      refine List.mem_filterMap.mpr ⟨addr, haddr, ?_⟩
      rw [hfound, List.inj_on_of_nodup_map hwf.distinct
        (LSDB.getLSAByLinkData_eq_some hfound).1 hwLsa hid]

namespace SPFState

/-- A neighbour that is not in the tree has no next hop. -/
def Blocked (lsdb : LSDB) (root : Ipv4Address) (s : SPFState) : Prop :=
  ∃ wLsa ∈ lsdb.neighbours s.v.lsa, s.status wLsa.linkStateId ≠ .LSA_SPF_IN_SPFTREE ∧
    ¬ SPFVertex.NexthopDefined root s.v wLsa

instance (lsdb : LSDB) (root : Ipv4Address) (s : SPFState) : Decidable (s.Blocked lsdb root) :=
  inferInstanceAs (Decidable (∃ wLsa ∈ lsdb.neighbours s.v.lsa, _ ∧ _))

variable {e : Environment} {lsdb : LSDB} {root : Ipv4Address} {s : SPFState}

/-- The state before a turn: the edges of the current vertex have not been looked at. -/
abbrev Turn (lsdb : LSDB) (root : Ipv4Address) (s : SPFState) : Prop :=
  s.Searching lsdb root fun v w m => lsdb.Edge v w m ∧ v ≠ s.v.vertexId

/-- The edges of the current vertex, when it is a router. -/
theorem Turn.bounded (h : s.Turn lsdb root) (hwf : lsdb.WellFormed)
    (hcost : ∀ visited v cost, Trail lsdb.Edge root visited v cost → cost < 2 ^ 32) :
    s.Bounded lsdb := by
  have hget := LSDB.getLSA_of_mem hwf.distinct (h.storedTree _ h.current)
  refine ⟨fun l hl hstub => ⟨s.v.lsa, hget, ?_⟩, fun w m hedge hw => ?_⟩
  · unfold GlobalRoutingLSA.linkRecords at hl
    cases hbody : s.v.lsa.body with
    | RouterLSA records =>
        rw [hbody] at hl
        unfold LSDB.Leads
        rw [hbody]
        exact ⟨l, hl, hstub, rfl, rfl⟩
    | NetworkLSA mask routers =>
        rw [hbody] at hl
        cases hl
  · rw [← map_fst_labels] at hw
    obtain ⟨visited, htrail, -⟩ :=
      h.labelled.trail_snoc ((h.label_iff _).mpr rfl) hedge hw
    exact hcost _ _ _ htrail

/-- The edges of the current vertex, when it is a network; the root is a router. -/
theorem Turn.network (h : s.Turn lsdb root) (hwf : lsdb.WellFormed)
    (hroot : ∀ lsa, lsdb.getLSA root = some lsa → lsa.isNetwork = false) {mask : Ipv4Address}
    {routers : List Ipv4Address} (hbody : s.v.lsa.body = .NetworkLSA mask routers) :
    s.v.lsa.isNetwork = true ∧ s.v.vertexId ≠ root ∧
      ∀ addr ∈ routers, ∀ wLsa, lsdb.getLSAByLinkData addr = some wLsa →
        lsdb.Edge s.v.vertexId wLsa.linkStateId 0 := by
  have hget := LSDB.getLSA_of_mem hwf.distinct (h.storedTree _ h.current)
  have hnetwork : s.v.lsa.isNetwork = true := by
    unfold GlobalRoutingLSA.isNetwork
    rw [hbody]
  refine ⟨hnetwork, fun heq => ?_, fun addr haddr wLsa hwLsa => ⟨s.v.lsa, hget, ?_⟩⟩
  · have hfalse := hroot s.v.lsa (heq ▸ hget)
    rw [hnetwork] at hfalse
    cases hfalse
  · unfold LSDB.Leads
    rw [hbody]
    exact ⟨addr, haddr, wLsa, hwLsa, rfl, rfl⟩

/-- The edges of the current vertex have been looked at as well. -/
theorem Turn.edge_cases (h : s.Turn lsdb root) (hwf : lsdb.WellFormed) {x y : Ipv4Address} {m : ℕ}
    (hedge : lsdb.Edge x y m) :
    (lsdb.Edge x y m ∧ x ≠ s.v.vertexId) ∨ (x = s.v.vertexId ∧ lsdb.Leads s.v.lsa y m) := by
  have hget := LSDB.getLSA_of_mem hwf.distinct (h.storedTree _ h.current)
  by_cases hx : x = s.v.vertexId
  · obtain ⟨lsa, hlsa, hmatch⟩ := hedge
    rw [hx] at hlsa
    obtain rfl := Option.some.inj (hget.symm.trans hlsa)
    exact Or.inr ⟨hx, hmatch⟩
  · exact Or.inl ⟨hedge, hx⟩

theorem Turn.next (h : s.Turn lsdb root) (hwf : lsdb.WellFormed)
    (hroot : ∀ lsa, lsdb.getLSA root = some lsa → lsa.isNetwork = false)
    (hcost : ∀ visited v cost, Trail lsdb.Edge root visited v cost → cost < 2 ^ 32)
    (hblocked : ¬ s.Blocked lsdb root) :
    ∃ s', s.next e lsdb root = some s' ∧ s'.v = s.v ∧ s'.tree = s.tree ∧
      s'.Searching lsdb root lsdb.Edge := by
  have hdefined : ∀ wLsa ∈ lsdb, ∀ m, lsdb.Edge s.v.vertexId wLsa.linkStateId m →
      wLsa.linkStateId ∉ s.tree.map SPFVertex.vertexId →
        SPFVertex.NexthopDefined root s.v wLsa := by
    intro wLsa hwLsa m hedge hw
    by_contra hundefined
    exact hblocked ⟨wLsa, LSDB.mem_neighbours hwf (h.storedTree _ h.current) hwLsa hedge,
      fun hin => hw ((h.inTree _).mp hin), hundefined⟩
  have hcases := fun x y m => h.edge_cases hwf (x := x) (y := y) (m := m)
  unfold LSDB.Leads at hcases
  unfold SPFState.next
  cases hbody : s.v.lsa.body with
  | RouterLSA records =>
      rw [hbody] at hcases
      obtain ⟨s', hs', hv, htree, hsearching⟩ := Searching.nextRouter (e := e) hwf h
        (fun l hl => by
          unfold GlobalRoutingLSA.linkRecords
          rw [hbody]
          exact hl) (h.bounded hwf hcost) hdefined
      exact ⟨s', hs', hv, htree, hsearching.mono hcases⟩
  | NetworkLSA mask routers =>
      rw [hbody] at hcases
      obtain ⟨hnetwork, hne, hedges⟩ := h.network hwf hroot hbody
      obtain ⟨s', hs', hv, htree, hsearching⟩ := Searching.nextNetwork (e := e) hwf h hnetwork hne
        hedges hdefined
      exact ⟨s', hs', hv, htree, hsearching.mono hcases⟩

/-- A turn that does not fail is not blocked. At the root there are no candidates yet. -/
theorem Turn.not_blocked (h : s.Turn lsdb root) (hwf : lsdb.WellFormed)
    (hroot : ∀ lsa, lsdb.getLSA root = some lsa → lsa.isNetwork = false)
    (hcost : ∀ visited v cost, Trail lsdb.Edge root visited v cost → cost < 2 ^ 32)
    (hfirst : s.v.vertexId = root → s.candidate = []) {s' : SPFState}
    (hs' : s.next e lsdb root = some s') : ¬ s.Blocked lsdb root := by
  rintro ⟨wLsa, hwLsa, hstatus, hundefined⟩
  have hw : wLsa.linkStateId ∉ s.tree.map SPFVertex.vertexId :=
    fun hw => hstatus ((h.inTree _).mpr hw)
  unfold SPFState.next at hs'
  unfold LSDB.neighbours at hwLsa
  cases hbody : s.v.lsa.body with
  | RouterLSA records =>
      rw [hbody] at hs' hwLsa
      have hnetwork : s.v.lsa.isNetwork = false := by
        unfold GlobalRoutingLSA.isNetwork
        rw [hbody]
      by_cases hv : s.v.vertexId = root
      · obtain ⟨l, hl, hget⟩ := List.mem_filterMap.mp hwLsa
        obtain ⟨hl, hstub⟩ := List.mem_filter.mp hl
        refine hundefined (h.defined_of_nextRouter hwf (fun r hr => ?_)
          (h.bounded hwf hcost) (fun c hc => ?_) hs' l hl (by simpa using hstub) wLsa hget hw)
        · unfold GlobalRoutingLSA.linkRecords
          rw [hbody]
          exact hr
        · rw [hfirst hv] at hc
          cases hc
      · refine hundefined ?_
        unfold SPFVertex.NexthopDefined
        rw [if_neg hv, hnetwork]
        trivial
  | NetworkLSA mask routers =>
      rw [hbody] at hs' hwLsa
      obtain ⟨addr, haddr, hget⟩ := List.mem_filterMap.mp hwLsa
      obtain ⟨hnetwork, hne, hedges⟩ := h.network hwf hroot hbody
      exact hundefined
        (h.defined_of_nextNetwork hwf hnetwork hne hedges hs' addr haddr wLsa hget hw)

theorem labels_concat (vertices : List SPFVertex) (u : SPFVertex) :
    labels (vertices ++ [u]) = labels vertices ++ [(u.vertexId, u.distanceFromRoot.toNat)] := by
  unfold labels
  rw [List.map_append]
  rfl

section Pop

variable {u : SPFVertex} {rest : CandidateQueue}

/-- The queue is sorted, so that its first vertex has a least label. -/
theorem Searching.rank_le (h : s.Searching lsdb root lsdb.Edge)
    (hcandidate : s.candidate = u :: rest) : ∀ c ∈ s.candidate, u.rank ≤ c.rank := by
  have hsorted := h.sorted
  rw [hcandidate] at hsorted
  intro c hc
  rw [hcandidate] at hc
  rcases List.mem_cons.mp hc with rfl | hc
  · exact le_rfl
  · exact (List.pairwise_cons.mp hsorted).1 c hc

/-- The label of the first candidate is final. -/
theorem Searching.settle (h : s.Searching lsdb root lsdb.Edge)
    (hcandidate : s.candidate = u :: rest) :
    Labelled lsdb.Edge root (fun v w m => lsdb.Edge v w m ∧ v ≠ u.vertexId)
      (labels (s.tree ++ [u])) (labels rest) := by
  have hnodup := h.candidateNodup
  rw [hcandidate, List.map_cons, List.nodup_cons] at hnodup
  have hlabel : (u.vertexId, u.distanceFromRoot.toNat) ∈ labels s.candidate := by
    refine mem_labels.mpr ⟨u, ?_, rfl, rfl⟩
    rw [hcandidate]
    exact List.mem_cons_self
  rw [labels_concat]
  refine h.labelled.settle (fun v w m _ hedge => hedge) hlabel (fun y d hy => ?_) fun p => ?_
  · obtain ⟨c, hc, rfl, rfl⟩ := mem_labels.mp hy
    have hrank := h.rank_le hcandidate c hc
    unfold SPFVertex.rank at hrank
    split at hrank <;> split at hrank <;> omega
  · obtain ⟨x, d⟩ := p
    rw [mem_labels, mem_labels, hcandidate]
    constructor
    · rintro ⟨c, hc, rfl, rfl⟩
      refine ⟨⟨c, List.mem_cons_of_mem _ hc, rfl, rfl⟩, fun heq => hnodup.1 ?_⟩
      exact List.mem_map.mpr ⟨c, hc, heq⟩
    · rintro ⟨⟨c, hc, rfl, rfl⟩, hne⟩
      rcases List.mem_cons.mp hc with rfl | hc
      · exact absurd rfl hne
      · exact ⟨c, hc, rfl, rfl⟩

/-- The next candidate has its distance. -/
theorem Searching.pop (h : s.Searching lsdb root lsdb.Edge)
    (hcandidate : s.candidate = u :: rest) :
    ∃ s', s.pop = some s' ∧ s'.v = u ∧ s'.tree = s.tree ++ [u] ∧ s'.Turn lsdb root := by
  have hnodup := h.candidateNodup
  have hsorted := h.sorted
  rw [hcandidate, List.map_cons, List.nodup_cons] at hnodup
  rw [hcandidate] at hsorted
  obtain ⟨hfirst, hrest⟩ := List.pairwise_cons.mp hsorted
  have hmem : u ∈ s.candidate := by
    rw [hcandidate]
    exact List.mem_cons_self
  have hfresh : u.vertexId ∉ s.tree.map SPFVertex.vertexId := by
    rw [← map_fst_labels]
    exact (h.labelled.reached _ _ (mem_labels.mpr ⟨u, hmem, rfl, rfl⟩)).1
  have hids : (s.tree ++ [u]).map SPFVertex.vertexId =
      s.tree.map SPFVertex.vertexId ++ [u.vertexId] := by
    rw [List.map_append]
    rfl
  refine ⟨{ s.setStatus u.vertexId .LSA_SPF_IN_SPFTREE with
    v := u, candidate := rest, tree := s.tree ++ [u] }, ?_, rfl, rfl, ?_⟩
  · unfold SPFState.pop
    rw [hcandidate]
  refine ⟨h.settle hcandidate, ?_, hnodup.2, fun id => ?_, fun id => ?_, hrest, fun t ht => ?_,
    fun c hc => ?_, List.mem_append_right _ (List.mem_singleton_self u), ?_, fun t ht => ?_,
    hfirst⟩
  · dsimp only
    rw [hids, List.nodup_append_comm]
    exact List.nodup_cons.mpr ⟨hfresh, h.treeNodup⟩
  · dsimp only
    rw [hids, List.mem_append, List.mem_singleton, ← h.inTree]
    by_cases heq : id = u.vertexId
    · simp [setStatus, heq]
    · simp [setStatus, heq]
  · by_cases heq : id = u.vertexId
    · simp only [setStatus, heq, Function.update_self, reduceCtorEq, false_iff]
      exact hnodup.1
    · have hold := h.isCandidate id
      rw [hcandidate, List.map_cons, List.mem_cons] at hold
      simpa [setStatus, heq] using hold
  · rcases List.mem_append.mp ht with ht | ht
    · exact h.storedTree t ht
    · rw [List.mem_singleton.mp ht]
      exact h.storedCandidate u hmem
  · refine h.storedCandidate c ?_
    rw [hcandidate]
    exact List.mem_cons_of_mem _ hc
  · refine List.pairwise_append.mpr ⟨h.ordered, List.pairwise_singleton _ _, fun t ht c hc => ?_⟩
    rw [List.mem_singleton.mp hc]
    exact le_trans (h.last t ht) (h.later u hmem)
  · rcases List.mem_append.mp ht with ht | ht
    · exact le_trans (h.last t ht) (h.later u hmem)
    · rw [List.mem_singleton.mp ht]

end Pop

/-! ## The whole loop -/

/-- No turn is blocked. -/
def Unblocked (e : Environment) (lsdb : LSDB) (root : Ipv4Address) : ℕ → SPFState → Prop
  | 0, _ => True
  | fuel + 1, s => ¬ s.Blocked lsdb root ∧
      ∀ s' ∈ s.next e lsdb root, ∀ s'' ∈ s'.pop, Unblocked e lsdb root fuel s''

/-- Every vertex that can be reached was popped once, in the order of the distances and a network
before a router, and the distances are the costs of shortest paths. -/
structure ShortestPaths (lsdb : LSDB) (root : Ipv4Address) (tree : List SPFVertex) : Prop where
  once : (tree.map SPFVertex.vertexId).Nodup
  all : ∀ id, id ∈ tree.map SPFVertex.vertexId ↔ ∃ cost, Walk lsdb.Edge root id cost
  ordered : tree.Pairwise fun a b => a.distanceFromRoot < b.distanceFromRoot ∨
    (a.distanceFromRoot = b.distanceFromRoot ∧
      (a.lsa.isNetwork = true ∨ b.lsa.isNetwork = false))
  least : ∀ v ∈ tree,
    IsLeast {cost | Walk lsdb.Edge root v.vertexId cost} v.distanceFromRoot.toNat

/-- When no candidate is left, the tree is complete. -/
theorem Searching.shortestPaths (h : s.Searching lsdb root lsdb.Edge) (hempty : s.candidate = []) :
    ShortestPaths lsdb root s.tree := by
  have hleast : ∀ v ∈ s.tree,
      IsLeast {cost | Walk lsdb.Edge root v.vertexId cost} v.distanceFromRoot.toNat := by
    intro v hv
    have hlabel : (v.vertexId, v.distanceFromRoot.toNat) ∈ labels s.tree :=
      mem_labels.mpr ⟨v, hv, rfl, rfl⟩
    obtain ⟨visited, htrail, -⟩ := h.labelled.trail _ _ hlabel
    exact ⟨htrail.walk, fun cost hcost => h.labelled.least _ _ hlabel cost hcost⟩
  refine ⟨h.treeNodup, fun id => ⟨fun hid => ?_, ?_⟩, h.ordered.imp ?_, hleast⟩
  · obtain ⟨v, hv, rfl⟩ := List.mem_map.mp hid
    exact ⟨_, (hleast v hv).1⟩
  · rintro ⟨cost, hwalk⟩
    -- A walk to any other vertex would pass a candidate.
    by_contra hid
    rw [← map_fst_labels] at hid
    obtain ⟨y, d, hy, -⟩ :=
      h.labelled.exists_candidate_le (fun v w m _ hedge => hedge) hwalk hid
    rw [hempty] at hy
    cases hy
  · intro a b hrank
    unfold SPFVertex.rank at hrank
    rw [UInt32.lt_iff_toNat_lt, ← UInt32.toNat_inj]
    cases ha : a.lsa.isNetwork <;> cases hb : b.lsa.isNetwork <;> simp [ha, hb] at hrank ⊢ <;>
      omega

/-- The loop ends, since every turn but the last one pops another vertex. -/
theorem Turn.mainLoop (h : s.Turn lsdb root) (hwf : lsdb.WellFormed)
    (hroot : ∀ lsa, lsdb.getLSA root = some lsa → lsa.isNetwork = false)
    (hcost : ∀ visited v cost, Trail lsdb.Edge root visited v cost → cost < 2 ^ 32) {fuel : ℕ}
    (hfuel : lsdb.length < fuel + s.tree.length) (hunblocked : s.Unblocked e lsdb root fuel) :
    ∃ final, mainLoop e lsdb root fuel s = some final ∧ ShortestPaths lsdb root final.tree := by
  induction fuel generalizing s with
  | zero =>
      -- The tree has no more vertices than the database.
      have hsub : s.tree.map SPFVertex.vertexId ⊆ lsdb.map GlobalRoutingLSA.linkStateId := by
        intro id hid
        obtain ⟨v, hv, rfl⟩ := List.mem_map.mp hid
        exact List.mem_map_of_mem (h.storedTree v hv)
      have hlength := (List.Nodup.subperm h.treeNodup hsub).length_le
      rw [List.length_map, List.length_map] at hlength
      omega
  | succ fuel ih =>
      obtain ⟨hblocked, hlater⟩ := hunblocked
      obtain ⟨s', hs', -, htree, hsearching⟩ := h.next (e := e) hwf hroot hcost hblocked
      unfold SPFState.mainLoop
      rw [hs', Option.bind_some]
      cases hcandidate : s'.candidate with
      | nil =>
          have hpop : s'.pop = none := by
            unfold SPFState.pop
            rw [hcandidate]
          rw [hpop]
          exact ⟨s', rfl, hsearching.shortestPaths hcandidate⟩
      | cons u rest =>
          obtain ⟨s'', hpop, -, htree', hturn⟩ := hsearching.pop hcandidate
          rw [hpop]
          refine ih hturn ?_ (hlater s' hs' s'' hpop)
          rw [htree', List.length_append, htree, List.length_singleton]
          omega

theorem turn_init {rootLsa : GlobalRoutingLSA} (hmem : rootLsa ∈ lsdb) :
    (init rootLsa).Turn lsdb rootLsa.linkStateId := by
  refine ⟨⟨List.mem_singleton_self _, fun v d hv => ?_, fun v d hv cost _ => ?_, fun w d hw => ?_,
    fun v dv w m hv hrel => ?_⟩, List.nodup_singleton _, List.nodup_nil, fun id => ?_, fun id => ?_,
    List.Pairwise.nil, fun t ht => ?_, fun c hc => ?_, List.mem_singleton_self _,
    List.pairwise_singleton _ _, fun t ht => ?_, fun c hc => ?_⟩
  · obtain ⟨rfl, rfl⟩ := Prod.mk.inj (List.mem_singleton.mp hv)
    exact ⟨[rootLsa.linkStateId], .nil, fun u hu => hu⟩
  · obtain ⟨rfl, rfl⟩ := Prod.mk.inj (List.mem_singleton.mp hv)
    exact Nat.zero_le _
  · cases hw
  · obtain ⟨rfl, rfl⟩ := Prod.mk.inj (List.mem_singleton.mp hv)
    exact absurd rfl hrel.2
  · by_cases heq : id = rootLsa.linkStateId
    · simp [init, SPFVertex.vertexId, SPFVertex.new, heq]
    · simp [init, SPFVertex.vertexId, SPFVertex.new, heq]
  · by_cases heq : id = rootLsa.linkStateId
    · simp [init, heq]
    · simp [init, heq]
  · rw [List.mem_singleton.mp ht]
    exact hmem
  · cases hc
  · rw [List.mem_singleton.mp ht]
    exact le_rfl
  · cases hc

/-- A loop that ends was never blocked. -/
theorem Turn.unblocked (h : s.Turn lsdb root) (hwf : lsdb.WellFormed)
    (hroot : ∀ lsa, lsdb.getLSA root = some lsa → lsa.isNetwork = false)
    (hcost : ∀ visited v cost, Trail lsdb.Edge root visited v cost → cost < 2 ^ 32)
    (hfirst : s.v.vertexId = root → s.candidate = []) {fuel : ℕ} {final : SPFState}
    (hfinal : SPFState.mainLoop e lsdb root fuel s = some final) :
    s.Unblocked e lsdb root fuel := by
  induction fuel generalizing s with
  | zero => cases hfinal
  | succ fuel ih =>
      obtain ⟨s', hs', hfinal⟩ := Option.bind_eq_some_iff.mp hfinal
      have hblocked := h.not_blocked hwf hroot hcost hfirst hs'
      obtain ⟨s₁, hs₁, -, -, hsearching⟩ := h.next (e := e) hwf hroot hcost hblocked
      obtain rfl := Option.some.inj (hs'.symm.trans hs₁)
      refine ⟨hblocked, fun s₂ hs₂ s₃ hpop => ?_⟩
      obtain rfl := Option.some.inj (hs'.symm.trans hs₂)
      cases hcandidate : s'.candidate with
      | nil =>
          unfold SPFState.pop at hpop
          rw [hcandidate] at hpop
          cases hpop
      | cons u rest =>
          obtain ⟨s₄, hpop', hv, htree, hturn⟩ := hsearching.pop hcandidate
          obtain rfl := Option.some.inj (hpop.symm.trans hpop')
          rw [hpop] at hfinal
          refine ih hturn (fun hid => ?_) hfinal
          -- The root is the first vertex of the tree.
          obtain ⟨t, ht, htid, -⟩ := mem_labels.mp hsearching.labelled.start
          have hnodup := hturn.treeNodup
          rw [htree, List.map_append, List.nodup_append] at hnodup
          rw [hv] at hid
          exact absurd (htid.trans hid.symm) (hnodup.2.2 _ (List.mem_map_of_mem ht) _
            (List.mem_singleton_self _))

/-- The main loop of `SPFCalculate` finds the shortest paths if and only if no turn is blocked: the
neighbours that are not yet in the tree have next hops. -/
theorem shortestPaths_iff_unblocked (e : Environment) {lsdb : LSDB} (hwf : lsdb.WellFormed)
    {rootLsa : GlobalRoutingLSA} (hmem : rootLsa ∈ lsdb) (hrouter : rootLsa.isNetwork = false)
    (hcost : ∀ visited v cost,
      Trail lsdb.Edge rootLsa.linkStateId visited v cost → cost < 2 ^ 32) :
    (∃ final, mainLoop e lsdb rootLsa.linkStateId lsdb.length (init rootLsa) = some final ∧
      ShortestPaths lsdb rootLsa.linkStateId final.tree) ↔
        (init rootLsa).Unblocked e lsdb rootLsa.linkStateId lsdb.length := by
  have hturn := turn_init hmem
  have hroot : ∀ lsa, lsdb.getLSA rootLsa.linkStateId = some lsa → lsa.isNetwork = false := by
    intro lsa hlsa
    obtain rfl := Option.some.inj ((LSDB.getLSA_of_mem hwf.distinct hmem).symm.trans hlsa)
    exact hrouter
  constructor
  · rintro ⟨final, hfinal, -⟩
    exact hturn.unblocked hwf hroot hcost (fun _ => rfl) hfinal
  · exact hturn.mainLoop hwf hroot hcost (Nat.lt_succ_self _)

/-! ## Costs -/

/-- A path visits every vertex at most once, and a metric has sixteen bits. -/
theorem cost_le_of_trail (hwf : lsdb.WellFormed)
    (hroot : root ∈ lsdb.map GlobalRoutingLSA.linkStateId) {visited : List Ipv4Address}
    {v : Ipv4Address} {cost : ℕ} (h : Trail lsdb.Edge root visited v cost) :
    visited.Nodup ∧ visited ⊆ lsdb.map GlobalRoutingLSA.linkStateId ∧
      cost + 65535 ≤ 65535 * visited.length := by
  induction h with
  | nil =>
      refine ⟨List.nodup_singleton _, fun u hu => ?_, by simp⟩
      rw [List.mem_singleton.mp hu]
      exact hroot
  | @snoc visited v w cost weight trail step fresh ih =>
      obtain ⟨hnodup, hsub, hle⟩ := ih
      have hedge : w ∈ lsdb.map GlobalRoutingLSA.linkStateId ∧ weight ≤ 65535 := by
        obtain ⟨⟨id, body⟩, hlsa, hbody⟩ := step
        cases body with
        | RouterLSA records =>
            obtain ⟨l, hl, hstub, rfl, rfl⟩ := hbody
            obtain ⟨-, -, hsome⟩ :=
              hwf.record _ (LSDB.getLSA_eq_some hlsa).1 l hl hstub
            obtain ⟨wLsa, hwLsa⟩ := Option.isSome_iff_exists.mp hsome
            obtain ⟨hmem, hid⟩ := LSDB.getLSA_eq_some hwLsa
            exact ⟨List.mem_map.mpr ⟨wLsa, hmem, hid⟩, Nat.le_of_lt_succ l.metric.toNat_lt⟩
        | NetworkLSA mask routers =>
            obtain ⟨addr, -, wLsa, hwLsa, hid, rfl⟩ := hbody
            exact ⟨List.mem_map.mpr ⟨wLsa, (LSDB.getLSAByLinkData_eq_some hwLsa).1, hid⟩,
              Nat.zero_le _⟩
      refine ⟨List.nodup_cons.mpr ⟨fresh, hnodup⟩, fun u hu => ?_, ?_⟩
      · rcases List.mem_cons.mp hu with rfl | hu
        · exact hedge.1
        · exact hsub hu
      · have hweight := hedge.2
        rw [List.length_cons]
        omega

/-- With up to 65537 LSAs, no path costs too much. -/
theorem cost_lt (hwf : lsdb.WellFormed) (hroot : root ∈ lsdb.map GlobalRoutingLSA.linkStateId)
    (hlength : lsdb.length ≤ 65537) :
    ∀ visited v cost, Trail lsdb.Edge root visited v cost → cost < 2 ^ 32 := by
  intro visited v cost htrail
  obtain ⟨hnodup, hsub, hle⟩ := cost_le_of_trail hwf hroot htrail
  have hshort := (List.Nodup.subperm hnodup hsub).length_le
  rw [List.length_map] at hshort
  omega

/-! ## Databases -/

def environment : Environment := ⟨fun _ _ => 1, fun a b => a ≤ b⟩

def corner : GlobalRoutingLSA :=
  ⟨1, .RouterLSA [⟨2, 12, .PointToPoint, 1⟩, ⟨3, 13, .PointToPoint, 1⟩,
    ⟨4, 14, .PointToPoint, 9⟩]⟩

/-- A corner of a square has a direct link to the opposite one, and two shorter paths. -/
def square : LSDB :=
  [corner, ⟨2, .RouterLSA [⟨1, 21, .PointToPoint, 1⟩, ⟨4, 24, .PointToPoint, 2⟩]⟩,
    ⟨3, .RouterLSA [⟨1, 31, .PointToPoint, 1⟩, ⟨4, 34, .PointToPoint, 2⟩]⟩,
    ⟨4, .RouterLSA [⟨1, 41, .PointToPoint, 9⟩, ⟨2, 42, .PointToPoint, 2⟩,
      ⟨3, 43, .PointToPoint, 2⟩, ⟨40, 40, .StubNetwork, 1⟩]⟩]

instance instDecidableUnblocked (e : Environment) (lsdb : LSDB) (root : Ipv4Address) :
    (fuel : ℕ) → (s : SPFState) → Decidable (s.Unblocked e lsdb root fuel)
  | 0, _ => inferInstanceAs (Decidable True)
  | fuel + 1, s =>
      have := instDecidableUnblocked e lsdb root fuel
      inferInstanceAs (Decidable (¬ s.Blocked lsdb root ∧
        ∀ s' ∈ s.next e lsdb root, ∀ s'' ∈ s'.pop, s''.Unblocked e lsdb root fuel))

theorem shortestPaths_iff_unblocked_square :
    ∃ final, mainLoop environment square 1 4 (init corner) = some final ∧
      ShortestPaths square 1 final.tree :=
  have hwf : square.WellFormed := ⟨by decide, by decide⟩
  (shortestPaths_iff_unblocked environment hwf List.mem_cons_self rfl
    (cost_lt hwf (by decide) (by decide))).mpr (by decide +kernel)

def single : GlobalRoutingLSA := ⟨1, .RouterLSA [⟨10, 100, .TransitNetwork, 1⟩]⟩

/-- A router has three interfaces on the network of the root. -/
def sharing : LSDB :=
  [single,
    ⟨2, .RouterLSA [⟨10, 101, .TransitNetwork, 1⟩, ⟨10, 102, .TransitNetwork, 1⟩,
      ⟨10, 103, .TransitNetwork, 1⟩]⟩,
    ⟨10, .NetworkLSA 0xffffff00 [100, 101, 102, 103]⟩]

/-- The loop over the links of the router to the network never ends. -/
theorem sharing_diverges :
    sharing.WellFormed ∧
      (∀ visited v cost, Trail sharing.Edge 1 visited v cost → cost < 2 ^ 32) ∧
      ¬ ∃ fuel final, mainLoop environment sharing 1 fuel (init single) = some final := by
  have hwf : sharing.WellFormed := ⟨by decide, by decide⟩
  refine ⟨hwf, cost_lt hwf (by decide) (by decide), ?_⟩
  rintro ⟨fuel, final, hfinal⟩
  match fuel with
  | 0 => cases hfinal
  | 1 => cases hfinal
  | fuel + 2 =>
      have hnone : mainLoop environment sharing 1 (fuel + 2) (init single) = none := rfl
      rw [hnone] at hfinal
      cases hfinal

end SPFState

end Ns3Rdma.Routing
