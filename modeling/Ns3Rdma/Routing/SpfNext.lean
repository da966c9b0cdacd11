import Ns3Rdma.Routing.SpfTree

/-! # The neighbours of a vertex

`SPFNext` looks at the records of a vertex one by one. Each of them gives a neighbour a label or a
lower one, provided that its next hop is defined. -/

namespace Ns3Rdma.Routing

open ShortestPath

namespace SPFState

/-- The labels of vertices. -/
def labels (vertices : List SPFVertex) : List (Ipv4Address × ℕ) :=
  vertices.map fun v => (v.vertexId, v.distanceFromRoot.toNat)

theorem map_fst_labels (vertices : List SPFVertex) :
    (labels vertices).map Prod.fst = vertices.map SPFVertex.vertexId := by
  unfold labels
  rw [List.map_map]
  rfl

theorem mem_labels {vertices : List SPFVertex} {id : Ipv4Address} {d : ℕ} :
    (id, d) ∈ labels vertices ↔
      ∃ v ∈ vertices, v.vertexId = id ∧ v.distanceFromRoot.toNat = d := by
  unfold labels
  rw [List.mem_map]
  constructor
  · rintro ⟨v, hv, heq⟩
    exact ⟨v, hv, Prod.mk.inj heq⟩
  · rintro ⟨v, hv, rfl, rfl⟩
    exact ⟨v, hv, rfl⟩

/-- The state while the edges in `relaxed` have been looked at. -/
structure Searching (lsdb : LSDB) (root : Ipv4Address)
    (relaxed : Ipv4Address → Ipv4Address → ℕ → Prop) (s : SPFState) : Prop where
  labelled : Labelled lsdb.Edge root relaxed (labels s.tree) (labels s.candidate)
  treeNodup : (s.tree.map SPFVertex.vertexId).Nodup
  candidateNodup : (s.candidate.map SPFVertex.vertexId).Nodup
  inTree : ∀ id, s.status id = .LSA_SPF_IN_SPFTREE ↔ id ∈ s.tree.map SPFVertex.vertexId
  isCandidate : ∀ id, s.status id = .LSA_SPF_CANDIDATE ↔ id ∈ s.candidate.map SPFVertex.vertexId
  sorted : s.candidate.Sorted
  storedTree : ∀ t ∈ s.tree, t.lsa ∈ lsdb
  storedCandidate : ∀ c ∈ s.candidate, c.lsa ∈ lsdb
  current : s.v ∈ s.tree
  ordered : s.tree.Pairwise fun a b => a.rank ≤ b.rank
  last : ∀ t ∈ s.tree, t.rank ≤ s.v.rank
  later : ∀ c ∈ s.candidate, s.v.rank ≤ c.rank

variable {e : Environment} {lsdb : LSDB} {root : Ipv4Address} {s : SPFState}
  {relaxed : Ipv4Address → Ipv4Address → ℕ → Prop}

theorem Searching.mono {fewer : Ipv4Address → Ipv4Address → ℕ → Prop}
    (h : s.Searching lsdb root relaxed) (hfewer : ∀ v w m, fewer v w m → relaxed v w m) :
    s.Searching lsdb root fewer :=
  { h with
    labelled := ⟨h.labelled.start, h.labelled.trail, h.labelled.least, h.labelled.reached,
      fun v dv w m hv hrel hw => h.labelled.best v dv w m hv (hfewer v w m hrel) hw⟩ }

/-- The label of the current vertex. -/
theorem Searching.label_iff (h : s.Searching lsdb root relaxed) (d : ℕ) :
    (s.v.vertexId, d) ∈ labels s.tree ↔ d = s.v.distanceFromRoot.toNat := by
  rw [mem_labels]
  constructor
  · rintro ⟨t, ht, hid, rfl⟩
    rw [List.inj_on_of_nodup_map h.treeNodup ht h.current hid]
  · rintro rfl
    exact ⟨s.v, h.current, rfl, rfl⟩

/-- A neighbour that is not in the tree is reached at the distance `d`. -/
structure Reaches (lsdb : LSDB) (s : SPFState) (wLsa : GlobalRoutingLSA) (m : ℕ) (d : UInt32) :
    Prop where
  stored : wLsa ∈ lsdb
  edge : lsdb.Edge s.v.vertexId wLsa.linkStateId m
  distance : d.toNat = s.v.distanceFromRoot.toNat + m
  fresh : wLsa.linkStateId ∉ s.tree.map SPFVertex.vertexId
  rank : s.v.rank ≤ 2 * d.toNat + if wLsa.isNetwork then 0 else 1

variable {wLsa : GlobalRoutingLSA} {m : ℕ} {d : UInt32}

/-- A neighbour gets a label, or a lower one. -/
theorem Searching.lower (h : s.Searching lsdb root relaxed) (hreaches : s.Reaches lsdb wLsa m d)
    {status : Ipv4Address → SPFStatus} {candidate : CandidateQueue}
    (hnodup : (candidate.map SPFVertex.vertexId).Nodup) (hsorted : candidate.Sorted)
    (hinTree : ∀ id, status id = .LSA_SPF_IN_SPFTREE ↔ s.status id = .LSA_SPF_IN_SPFTREE)
    (hisCandidate : ∀ id,
      status id = .LSA_SPF_CANDIDATE ↔ id ∈ candidate.map SPFVertex.vertexId)
    (hold : ∀ c ∈ candidate, c.key ∈ s.candidate.map SPFVertex.key ∨ c.key = (wLsa, d))
    (hlow : ∀ c ∈ s.candidate, ∃ c' ∈ candidate, c'.vertexId = c.vertexId ∧
      c'.distanceFromRoot.toNat ≤ c.distanceFromRoot.toNat)
    (hnew : ∃ c ∈ candidate, c.vertexId = wLsa.linkStateId ∧ c.distanceFromRoot.toNat ≤ d.toNat) :
    ({ s with status := status, candidate := candidate } : SPFState).Searching lsdb root
      fun x y k => relaxed x y k ∨ (x = s.v.vertexId ∧ y = wLsa.linkStateId ∧ k = m) := by
  -- A candidate is as far as an old one, or the one that the edge reaches.
  have hcases : ∀ c ∈ candidate, (∃ c' ∈ s.candidate, c'.key = c.key) ∨ c.key = (wLsa, d) := by
    intro c hc
    rcases hold c hc with hc | hc
    · obtain ⟨c', hc', heq⟩ := List.mem_map.mp hc
      exact Or.inl ⟨c', hc', heq⟩
    · exact Or.inr hc
  refine ⟨?_, h.treeNodup, hnodup, fun id => (hinTree id).trans (h.inTree id), hisCandidate,
    hsorted, h.storedTree, fun c hc => ?_, h.current, h.ordered, h.last, fun c hc => ?_⟩
  · refine h.labelled.relax h.label_iff hreaches.edge
      (by rw [map_fst_labels]; exact hreaches.fresh) ?_ ?_ ?_
    · rintro ⟨x, n⟩ hx
      obtain ⟨c, hc, rfl, rfl⟩ := mem_labels.mp hx
      rcases hcases c hc with ⟨c', hc', hkey⟩ | hkey
      · obtain ⟨hlsa, hdistance⟩ := Prod.mk.inj hkey
        refine Or.inl (mem_labels.mpr ⟨c', hc', ?_, by rw [hdistance]⟩)
        unfold SPFVertex.vertexId
        rw [hlsa]
      · obtain ⟨hlsa, hdistance⟩ := Prod.mk.inj hkey
        refine Or.inr ?_
        unfold SPFVertex.vertexId
        rw [hlsa, hdistance, hreaches.distance]
    · intro x n hx
      obtain ⟨c, hc, rfl, rfl⟩ := mem_labels.mp hx
      obtain ⟨c', hc', hid, hle⟩ := hlow c hc
      exact ⟨_, hle, mem_labels.mpr ⟨c', hc', hid, rfl⟩⟩
    · obtain ⟨c, hc, hid, hle⟩ := hnew
      exact ⟨_, hreaches.distance ▸ hle, mem_labels.mpr ⟨c, hc, hid, rfl⟩⟩
  · rcases hcases c hc with ⟨c', hc', hkey⟩ | hkey
    · rw [← (Prod.mk.inj hkey).1]
      exact h.storedCandidate c' hc'
    · rw [(Prod.mk.inj hkey).1]
      exact hreaches.stored
  · rcases hcases c hc with ⟨c', hc', hkey⟩ | hkey
    · rw [← SPFVertex.rank_eq_of_key_eq hkey]
      exact h.later c' hc'
    · obtain ⟨hlsa, hdistance⟩ := Prod.mk.inj hkey
      unfold SPFVertex.rank
      rw [hlsa, hdistance]
      exact hreaches.rank

/-- A neighbour that was not explored becomes a candidate. -/
theorem Searching.push (h : s.Searching lsdb root relaxed) (hreaches : s.Reaches lsdb wLsa m d)
    (hstatus : s.status wLsa.linkStateId = .LSA_SPF_NOT_EXPLORED) {w : SPFVertex}
    (hkey : w.key = (wLsa, d)) :
    ({ s.setStatus wLsa.linkStateId .LSA_SPF_CANDIDATE with
      candidate := s.candidate.push w } : SPFState).Searching lsdb root
        fun x y k => relaxed x y k ∨ (x = s.v.vertexId ∧ y = wLsa.linkStateId ∧ k = m) := by
  obtain ⟨hlsa, hdistance⟩ := Prod.mk.inj hkey
  have hid : w.vertexId = wLsa.linkStateId := by
    unfold SPFVertex.vertexId
    rw [hlsa]
  have hperm := CandidateQueue.push_perm s.candidate w
  have hids := hperm.map SPFVertex.vertexId
  have hnot : wLsa.linkStateId ∉ s.candidate.map SPFVertex.vertexId := fun hmem => by
    rw [(h.isCandidate _).mpr hmem] at hstatus
    cases hstatus
  refine h.lower hreaches ?_ (CandidateQueue.sorted_push h.sorted w) (fun id => ?_)
    (fun id => ?_) (fun c hc => ?_)
    (fun c hc => ⟨c, hperm.mem_iff.mpr (List.mem_cons_of_mem _ hc), rfl, le_rfl⟩)
    ⟨w, hperm.mem_iff.mpr List.mem_cons_self, hid, by rw [hdistance]⟩
  · rw [hids.nodup_iff, List.map_cons, List.nodup_cons, hid]
    exact ⟨hnot, h.candidateNodup⟩
  · by_cases heq : id = wLsa.linkStateId
    · rw [heq, hstatus]
      simp [setStatus]
    · simp [setStatus, heq]
  · rw [hids.mem_iff, List.map_cons, List.mem_cons, hid, ← h.isCandidate]
    by_cases heq : id = wLsa.linkStateId
    · simp [setStatus, heq]
    · simp [setStatus, heq]
  · rcases List.mem_cons.mp (hperm.mem_iff.mp hc) with rfl | hc
    · exact Or.inr hkey
    · exact Or.inl (List.mem_map_of_mem hc)

/-- A candidate is replaced by one that is not farther. -/
theorem Searching.replace (h : s.Searching lsdb root relaxed) (hreaches : s.Reaches lsdb wLsa m d)
    {cw cw' : SPFVertex} (hcw : cw ∈ s.candidate) (hlsa : cw.lsa = wLsa)
    (hle : d.toNat ≤ cw.distanceFromRoot.toNat) (hkey : cw'.key = (wLsa, d))
    {candidate : CandidateQueue} (hperm : candidate.Perm (s.candidate.replace cw'))
    (hsorted : candidate.Sorted) :
    ({ s with candidate := candidate } : SPFState).Searching lsdb root
      fun x y k => relaxed x y k ∨ (x = s.v.vertexId ∧ y = wLsa.linkStateId ∧ k = m) := by
  obtain ⟨hlsa', hdistance⟩ := Prod.mk.inj hkey
  have hid : cw'.vertexId = cw.vertexId := by
    unfold SPFVertex.vertexId
    rw [hlsa', hlsa]
  have hcwId : cw.vertexId = wLsa.linkStateId := by
    unfold SPFVertex.vertexId
    rw [hlsa]
  have hreplaced : (s.candidate.replace cw').map SPFVertex.vertexId = _ :=
    CandidateQueue.map_replace SPFVertex.vertexId fun v _ hv => hv
  have hids := hreplaced ▸ hperm.map SPFVertex.vertexId
  refine h.lower hreaches (hids.nodup_iff.mpr h.candidateNodup) hsorted (fun id => Iff.rfl)
    (fun id => ?_) (fun c hc => ?_) (fun c hc => ?_) ?_
  · rw [hids.mem_iff]
    exact h.isCandidate id
  · rcases CandidateQueue.mem_replace (hperm.mem_iff.mp hc) with rfl | hc
    · exact Or.inr hkey
    · exact Or.inl (List.mem_map_of_mem hc)
  · by_cases hsame : c.vertexId = cw'.vertexId
    · refine ⟨cw', hperm.mem_iff.mpr (CandidateQueue.replaced_mem hc hsame), hsame.symm, ?_⟩
      rw [List.inj_on_of_nodup_map h.candidateNodup hc hcw (hsame.trans hid), hdistance]
      exact hle
    · exact ⟨c, hperm.mem_iff.mpr (CandidateQueue.mem_replace_of_ne hc hsame), rfl, le_rfl⟩
  · exact ⟨cw', hperm.mem_iff.mpr (CandidateQueue.replaced_mem hcw hid.symm), hid.trans hcwId, by
      rw [hdistance]⟩

/-- A neighbour is reached from the current vertex. -/
theorem reaches {l : Option GlobalRoutingLinkRecord} (hstored : wLsa ∈ lsdb)
    (hedge : lsdb.Edge s.v.vertexId wLsa.linkStateId m)
    (hw : wLsa.linkStateId ∉ s.tree.map SPFVertex.vertexId)
    (hd : (s.distance l).toNat = s.v.distanceFromRoot.toNat + m)
    (hzero : 0 < m ∨ (s.v.lsa.isNetwork = true ∧ wLsa.isNetwork = false)) :
    s.Reaches lsdb wLsa m (s.distance l) := by
  refine ⟨hstored, hedge, hd, hw, ?_⟩
  rw [hd]
  unfold SPFVertex.rank
  rcases hzero with hm | ⟨hv, hw⟩
  · split <;> split <;> omega
  · rw [if_pos hv, hw]
    simp only [Bool.false_eq_true, if_false]
    omega

/-- A neighbour that is looked at. -/
theorem Searching.explore (h : s.Searching lsdb root relaxed)
    (hdistinct : (lsdb.map GlobalRoutingLSA.linkStateId).Nodup)
    {l : Option GlobalRoutingLinkRecord} (hstored : wLsa ∈ lsdb)
    (hedge : lsdb.Edge s.v.vertexId wLsa.linkStateId m)
    (hd : wLsa.linkStateId ∉ s.tree.map SPFVertex.vertexId →
      (s.distance l).toNat = s.v.distanceFromRoot.toNat + m)
    (hzero : 0 < m ∨ (s.v.lsa.isNetwork = true ∧ wLsa.isNetwork = false))
    (hdefined : wLsa.linkStateId ∉ s.tree.map SPFVertex.vertexId →
      SPFVertex.NexthopDefined root s.v wLsa)
    (hl : s.v.vertexId = root → l.isSome) :
    ∃ s', s.explore e root wLsa l = some s' ∧ s'.v = s.v ∧ s'.tree = s.tree ∧
      s'.Searching lsdb root
        fun x y k => relaxed x y k ∨ (x = s.v.vertexId ∧ y = wLsa.linkStateId ∧ k = m) := by
  unfold SPFState.explore
  dsimp only
  by_cases hin : s.status wLsa.linkStateId = .LSA_SPF_IN_SPFTREE
  · rw [hin]
    have hw := (h.inTree _).mp hin
    refine ⟨s, rfl, rfl, rfl, { h with labelled := h.labelled.skip ?_ }⟩
    rw [map_fst_labels]
    exact hw
  have hw : wLsa.linkStateId ∉ s.tree.map SPFVertex.vertexId := fun hw => hin ((h.inTree _).mpr hw)
  have hdefined := hdefined hw
  have hreaches := reaches hstored hedge hw (hd hw) hzero
  cases hstatus : s.status wLsa.linkStateId with
  | LSA_SPF_IN_SPFTREE => exact absurd hstatus hin
  | LSA_SPF_NOT_EXPLORED =>
      obtain ⟨w, hw', hkey⟩ := SPFVertex.nexthopCalculation_spec (e := e) (w := .new wLsa)
        (d := s.distance l) hdefined hl
      rw [hw', Option.map_some]
      exact ⟨_, rfl, rfl, rfl, h.push hreaches hstatus hkey⟩
  | LSA_SPF_CANDIDATE =>
      have hmem := (h.isCandidate _).mp hstatus
      obtain ⟨cw, hcw, hcwId⟩ := List.mem_map.mp hmem
      have hfind : s.candidate.findId wLsa.linkStateId = some cw := by
        rw [← hcwId]
        exact CandidateQueue.findId_of_mem h.candidateNodup hcw
      have hlsa : cw.lsa = wLsa :=
        List.inj_on_of_nodup_map hdistinct (h.storedCandidate cw hcw) hstored hcwId
      dsimp only
      rw [hfind, Option.bind_some]
      split
      · next hlt =>
        -- The candidate has a better label already.
        rw [UInt32.lt_iff_toNat_lt] at hlt
        exact ⟨s, rfl, rfl, rfl, h.lower hreaches h.candidateNodup h.sorted (fun id => Iff.rfl)
          h.isCandidate (fun c hc => Or.inl (List.mem_map_of_mem hc))
          (fun c hc => ⟨c, hc, rfl, le_rfl⟩) ⟨cw, hcw, hcwId, hlt.le⟩⟩
      next hle =>
      rw [UInt32.not_lt, UInt32.le_iff_toNat_le] at hle
      split
      · next heq =>
        -- Another path of the same cost: the exits and the parents are merged.
        obtain ⟨w, hw', -⟩ := SPFVertex.nexthopCalculation_spec (e := e) (w := .new wLsa)
          (d := s.distance l) hdefined hl
        rw [hw', Option.map_some]
        have hkey : ((cw.mergeRootExitDirections w).mergeParent e w).key =
            (wLsa, s.distance l) := by
          rw [← hlsa, ← heq]
          rfl
        refine ⟨_, rfl, rfl, rfl, h.replace hreaches hcw hlsa hle hkey (.refl _)
          (CandidateQueue.sorted_replace (fun v hv hid => ?_) h.sorted)⟩
        have hsame : v = cw := List.inj_on_of_nodup_map h.candidateNodup hv hcw hid
        rw [hsame]
        exact SPFVertex.rank_eq_of_key_eq rfl
      · -- A shorter path.
        obtain ⟨cw', hcw', hkey⟩ := SPFVertex.nexthopCalculation_spec (e := e) (w := cw)
          (d := s.distance l) (hlsa ▸ hdefined) hl
        rw [hcw', Option.map_some]
        rw [hlsa] at hkey
        exact ⟨_, rfl, rfl, rfl, h.replace hreaches hcw hlsa hle hkey
          (CandidateQueue.reorder_perm _) (CandidateQueue.sorted_reorder _)⟩

/-- What the records of the current vertex point to, and the bound of the distances. -/
structure Bounded (lsdb : LSDB) (s : SPFState) : Prop where
  edge : ∀ l ∈ s.v.lsa.linkRecords, l.linkType ≠ .StubNetwork →
    lsdb.Edge s.v.vertexId l.linkId l.metric.toNat
  cost : ∀ w m, lsdb.Edge s.v.vertexId w m → w ∉ s.tree.map SPFVertex.vertexId →
    s.v.distanceFromRoot.toNat + m < 2 ^ 32

theorem Bounded.congr {s' : SPFState} (h : s.Bounded lsdb) (hv : s'.v = s.v)
    (htree : s'.tree = s.tree) : s'.Bounded lsdb := by
  obtain ⟨hedge, hcost⟩ := h
  exact ⟨by rwa [hv], by rwa [hv, htree]⟩

/-- A record that is not one of a stub network. -/
theorem Searching.exploreRecord (hwf : lsdb.WellFormed) (h : s.Searching lsdb root relaxed)
    (hbounded : s.Bounded lsdb) {l : GlobalRoutingLinkRecord} (hl : l ∈ s.v.lsa.linkRecords)
    (hstub : l.linkType ≠ .StubNetwork) :
    ∃ wLsa, lsdb.getLSA l.linkId = some wLsa ∧ wLsa ∈ lsdb ∧ wLsa.linkStateId = l.linkId ∧
      (∀ rest, SPFState.nextRouter e lsdb root (l :: rest) s =
        (s.explore e root wLsa (some l)).bind (SPFState.nextRouter e lsdb root rest)) ∧
      ((wLsa.linkStateId ∉ s.tree.map SPFVertex.vertexId →
          SPFVertex.NexthopDefined root s.v wLsa) →
        ∃ s', s.explore e root wLsa (some l) = some s' ∧ s'.v = s.v ∧ s'.tree = s.tree ∧
          s'.Searching lsdb root fun x y k =>
            relaxed x y k ∨ (x = s.v.vertexId ∧ y = wLsa.linkStateId ∧ k = l.metric.toNat)) := by
  obtain ⟨htype, hmetric, hsome⟩ := hwf.record _ (h.storedTree _ h.current) l hl hstub
  obtain ⟨wLsa, hwLsa⟩ := Option.isSome_iff_exists.mp hsome
  obtain ⟨hstored, hid⟩ := LSDB.getLSA_eq_some hwLsa
  have hedge := hbounded.edge l hl hstub
  rw [← hid] at hedge
  refine ⟨wLsa, hwLsa, hstored, hid, fun rest => ?_, fun hdefined => ?_⟩
  · rw [SPFState.nextRouter]
    rcases htype with htype | htype
    · rw [htype]
      dsimp only
      rw [hwLsa, Option.bind_some]
    · rw [htype]
      dsimp only
      rw [hwLsa, Option.bind_some]
  · refine h.explore hwf.distinct hstored hedge (fun hw => ?_) (Or.inl hmetric) hdefined
      fun _ => rfl
    have hlt := hbounded.cost _ _ hedge hw
    change (s.v.distanceFromRoot + l.metric.toUInt32).toNat = _
    rw [UInt32.toNat_add, UInt16.toNat_toUInt32, Nat.mod_eq_of_lt hlt]

theorem nextRouter_stub {l : GlobalRoutingLinkRecord} (h : l.linkType = .StubNetwork)
    (rest : List GlobalRoutingLinkRecord) :
    SPFState.nextRouter e lsdb root (l :: rest) s = SPFState.nextRouter e lsdb root rest s := by
  rw [SPFState.nextRouter, h]

/-- The loop over the link records of a router. -/
theorem Searching.nextRouter (hwf : lsdb.WellFormed) {records : List GlobalRoutingLinkRecord}
    (h : s.Searching lsdb root relaxed) (hsub : ∀ l ∈ records, l ∈ s.v.lsa.linkRecords)
    (hbounded : s.Bounded lsdb)
    (hdefined : ∀ wLsa ∈ lsdb, ∀ m, lsdb.Edge s.v.vertexId wLsa.linkStateId m →
      wLsa.linkStateId ∉ s.tree.map SPFVertex.vertexId →
        SPFVertex.NexthopDefined root s.v wLsa) :
    ∃ s', nextRouter e lsdb root records s = some s' ∧ s'.v = s.v ∧ s'.tree = s.tree ∧
      s'.Searching lsdb root fun x y m => relaxed x y m ∨ (x = s.v.vertexId ∧
        ∃ l ∈ records, l.linkType ≠ .StubNetwork ∧ l.linkId = y ∧ l.metric.toNat = m) := by
  induction records generalizing s relaxed with
  | nil =>
      refine ⟨s, rfl, rfl, rfl, h.mono ?_⟩
      rintro x y m (hrel | ⟨-, l, hl, -⟩)
      · exact hrel
      · cases hl
  | cons l rest ih =>
      have hrest := fun r hr => hsub r (List.mem_cons_of_mem _ hr)
      by_cases hstub : l.linkType = .StubNetwork
      · obtain ⟨s', hs', hv, htree, hsearching⟩ := ih h hrest hbounded hdefined
        refine ⟨s', (nextRouter_stub hstub rest).trans hs', hv, htree, hsearching.mono ?_⟩
        rintro x y m (hrel | ⟨hx, r, hr, hne, hid⟩)
        · exact Or.inl hrel
        · rcases List.mem_cons.mp hr with rfl | hr
          · exact absurd hstub hne
          · exact Or.inr ⟨hx, r, hr, hne, hid⟩
      · have hmem := hsub l List.mem_cons_self
        obtain ⟨wLsa, -, hstored, hid, hcons, hexplore⟩ :=
          h.exploreRecord (e := e) hwf hbounded hmem hstub
        have hedge := hbounded.edge l hmem hstub
        rw [← hid] at hedge
        obtain ⟨s₁, hs₁, hv₁, htree₁, hsearching₁⟩ := hexplore (hdefined wLsa hstored _ hedge)
        obtain ⟨s', hs', hv, htree, hsearching⟩ := ih hsearching₁ (by rwa [hv₁])
          (hbounded.congr hv₁ htree₁) (by rwa [hv₁, htree₁])
        refine ⟨s', ?_, hv.trans hv₁, htree.trans htree₁, hsearching.mono ?_⟩
        · rw [hcons, hs₁, Option.bind_some, hs']
        · rintro x y m (hrel | ⟨hx, r, hr, hne, hy, hm⟩)
          · exact Or.inl (Or.inl hrel)
          · rcases List.mem_cons.mp hr with rfl | hr
            · exact Or.inl (Or.inr ⟨hx, by rw [← hy, hid], hm.symm⟩)
            · exact Or.inr ⟨by rw [hv₁]; exact hx, r, hr, hne, hy, hm⟩

/-- The loop over the attached routers of a network. -/
theorem Searching.nextNetwork (hwf : lsdb.WellFormed) {routers : List Ipv4Address}
    (h : s.Searching lsdb root relaxed) (hnetwork : s.v.lsa.isNetwork = true)
    (hroot : s.v.vertexId ≠ root)
    (hedges : ∀ addr ∈ routers, ∀ wLsa, lsdb.getLSAByLinkData addr = some wLsa →
      lsdb.Edge s.v.vertexId wLsa.linkStateId 0)
    (hdefined : ∀ wLsa ∈ lsdb, ∀ m, lsdb.Edge s.v.vertexId wLsa.linkStateId m →
      wLsa.linkStateId ∉ s.tree.map SPFVertex.vertexId →
        SPFVertex.NexthopDefined root s.v wLsa) :
    ∃ s', nextNetwork e lsdb root routers s = some s' ∧ s'.v = s.v ∧ s'.tree = s.tree ∧
      s'.Searching lsdb root fun x y m => relaxed x y m ∨ (x = s.v.vertexId ∧
        ∃ addr ∈ routers, ∃ wLsa, lsdb.getLSAByLinkData addr = some wLsa ∧
          wLsa.linkStateId = y ∧ m = 0) := by
  induction routers generalizing s relaxed with
  | nil =>
      refine ⟨s, rfl, rfl, rfl, h.mono ?_⟩
      rintro x y m (hrel | ⟨-, addr, haddr, -⟩)
      · exact hrel
      · cases haddr
  | cons addr rest ih =>
      have hrest := fun a ha => hedges a (List.mem_cons_of_mem _ ha)
      cases hfind : lsdb.getLSAByLinkData addr with
      | none =>
          obtain ⟨s', hs', hv, htree, hsearching⟩ := ih h hnetwork hroot hrest hdefined
          refine ⟨s', ?_, hv, htree, hsearching.mono ?_⟩
          · unfold SPFState.nextNetwork
            rw [hfind]
            exact hs'
          · rintro x y m (hrel | ⟨hx, a, ha, wLsa, hwLsa, hid⟩)
            · exact Or.inl hrel
            · rcases List.mem_cons.mp ha with rfl | ha
              · rw [hfind] at hwLsa
                cases hwLsa
              · exact Or.inr ⟨hx, a, ha, wLsa, hwLsa, hid⟩
      | some wLsa =>
          obtain ⟨hstored, hrouter⟩ := LSDB.getLSAByLinkData_eq_some hfind
          have hedge := hedges addr List.mem_cons_self wLsa hfind
          obtain ⟨s₁, hs₁, hv₁, htree₁, hsearching₁⟩ := h.explore (e := e) (l := none)
            hwf.distinct hstored hedge (fun _ => rfl) (Or.inr ⟨hnetwork, hrouter⟩)
            (hdefined wLsa hstored _ hedge) fun h => absurd h hroot
          obtain ⟨s', hs', hv, htree, hsearching⟩ := ih hsearching₁ (by rwa [hv₁]) (by rwa [hv₁])
            (by rwa [hv₁]) (by rwa [hv₁, htree₁])
          refine ⟨s', ?_, hv.trans hv₁, htree.trans htree₁, hsearching.mono ?_⟩
          · unfold SPFState.nextNetwork
            rw [hfind]
            dsimp only
            rw [hs₁, Option.bind_some, hs']
          · rintro x y m (hrel | ⟨hx, a, ha, other, hother, hy, hm⟩)
            · exact Or.inl (Or.inl hrel)
            · rcases List.mem_cons.mp ha with rfl | ha
              · obtain rfl := Option.some.inj (hfind.symm.trans hother)
                exact Or.inl (Or.inr ⟨hx, hy.symm, hm⟩)
              · exact Or.inr ⟨by rw [hv₁]; exact hx, a, ha, other, hother, hy, hm⟩

/-! ## The next hops that a turn has found -/

theorem explore_lsa {s₁ : SPFState} {wLsa : GlobalRoutingLSA}
    {l : Option GlobalRoutingLinkRecord} (h : s.explore e root wLsa l = some s₁) :
    ∀ c ∈ s₁.candidate, (∃ c' ∈ s.candidate, c'.lsa = c.lsa) ∨ c.lsa = wLsa := by
  unfold SPFState.explore at h
  dsimp only at h
  split at h
  · obtain rfl := Option.some.inj h
    exact fun c hc => Or.inl ⟨c, hc, rfl⟩
  · obtain ⟨w, hw, rfl⟩ := Option.map_eq_some_iff.mp h
    intro c hc
    rcases List.mem_cons.mp ((CandidateQueue.push_perm s.candidate w).mem_iff.mp hc) with rfl | hc
    · exact Or.inr (SPFVertex.nexthopCalculation_lsa hw)
    · exact Or.inl ⟨c, hc, rfl⟩
  · obtain ⟨cw, hfind, h⟩ := Option.bind_eq_some_iff.mp h
    have hcw : cw ∈ s.candidate := List.mem_of_find?_eq_some hfind
    split at h
    · obtain rfl := Option.some.inj h
      exact fun c hc => Or.inl ⟨c, hc, rfl⟩
    · split at h
      · obtain ⟨w, -, rfl⟩ := Option.map_eq_some_iff.mp h
        intro c hc
        rcases CandidateQueue.mem_replace hc with rfl | hc
        · exact Or.inl ⟨cw, hcw, rfl⟩
        · exact Or.inl ⟨c, hc, rfl⟩
      · obtain ⟨w, hw, rfl⟩ := Option.map_eq_some_iff.mp h
        intro c hc
        rcases CandidateQueue.mem_replace
          ((CandidateQueue.reorder_perm _).mem_iff.mp hc) with rfl | hc
        · exact Or.inl ⟨cw, hcw, (SPFVertex.nexthopCalculation_lsa hw).symm⟩
        · exact Or.inl ⟨c, hc, rfl⟩

/-- The next hop of a neighbour was found, unless a better candidate made it unnecessary. -/
theorem Searching.defined_of_explore (h : s.Searching lsdb root relaxed)
    (hdistinct : (lsdb.map GlobalRoutingLSA.linkStateId).Nodup) {wLsa : GlobalRoutingLSA}
    {l : Option GlobalRoutingLinkRecord} {s₁ : SPFState} (hstored : wLsa ∈ lsdb)
    (hs₁ : s.explore e root wLsa l = some s₁)
    (hw : wLsa.linkStateId ∉ s.tree.map SPFVertex.vertexId)
    (hbetter : ∀ c ∈ s.candidate, c.lsa = wLsa → c.distanceFromRoot < s.distance l →
      SPFVertex.NexthopDefined root s.v wLsa) :
    SPFVertex.NexthopDefined root s.v wLsa := by
  by_contra hundefined
  have hnone : ∀ w : SPFVertex, w.lsa = wLsa →
      SPFVertex.nexthopCalculation e root s.v w l (s.distance l) = none := fun w hlsa =>
    SPFVertex.nexthopCalculation_eq_none (by rw [hlsa]; exact hundefined)
  unfold SPFState.explore at hs₁
  dsimp only at hs₁
  split at hs₁
  · next hin => exact hw ((h.inTree _).mp hin)
  · rw [hnone _ rfl] at hs₁
    cases hs₁
  · obtain ⟨cw, hfind, hs₁⟩ := Option.bind_eq_some_iff.mp hs₁
    have hcw : cw ∈ s.candidate := List.mem_of_find?_eq_some hfind
    have hid : cw.vertexId = wLsa.linkStateId := by
      unfold CandidateQueue.findId at hfind
      simpa using List.find?_some hfind
    have hlsa : cw.lsa = wLsa :=
      List.inj_on_of_nodup_map hdistinct (h.storedCandidate cw hcw) hstored hid
    split at hs₁
    · next hlt => exact hundefined (hbetter cw hcw hlsa hlt)
    · split at hs₁
      · rw [hnone _ rfl] at hs₁
        cases hs₁
      · rw [hnone cw hlsa] at hs₁
        cases hs₁

/-- At the root, every neighbour needs its next hop. -/
theorem Searching.defined_of_nextRouter (hwf : lsdb.WellFormed)
    {records : List GlobalRoutingLinkRecord} {s' : SPFState}
    (h : s.Searching lsdb root relaxed) (hsub : ∀ l ∈ records, l ∈ s.v.lsa.linkRecords)
    (hbounded : s.Bounded lsdb)
    (hfound : ∀ c ∈ s.candidate, SPFVertex.NexthopDefined root s.v c.lsa)
    (hs' : SPFState.nextRouter e lsdb root records s = some s') :
    ∀ l ∈ records, l.linkType ≠ .StubNetwork → ∀ wLsa, lsdb.getLSA l.linkId = some wLsa →
      wLsa.linkStateId ∉ s.tree.map SPFVertex.vertexId →
        SPFVertex.NexthopDefined root s.v wLsa := by
  induction records generalizing s relaxed with
  | nil =>
      intro l hl
      cases hl
  | cons first rest ih =>
      have hrest := fun r hr => hsub r (List.mem_cons_of_mem _ hr)
      by_cases hstub : first.linkType = .StubNetwork
      · rw [nextRouter_stub hstub] at hs'
        intro l hl hne
        rcases List.mem_cons.mp hl with rfl | hl
        · exact absurd hstub hne
        · exact ih h hrest hbounded hfound hs' l hl hne
      · obtain ⟨wLsa, hwLsa, hstored, hid, hcons, hexplore⟩ :=
          h.exploreRecord (e := e) hwf hbounded (hsub first List.mem_cons_self) hstub
        rw [hcons] at hs'
        obtain ⟨s₁, hs₁, hs'⟩ := Option.bind_eq_some_iff.mp hs'
        have hdefined := fun hw => h.defined_of_explore hwf.distinct hstored hs₁ hw
          fun c hc hlsa _ => hlsa ▸ hfound c hc
        obtain ⟨s₂, hs₂, hv, htree, hsearching⟩ := hexplore hdefined
        obtain rfl := Option.some.inj (hs₁.symm.trans hs₂)
        intro l hl hne other hother hw
        rcases List.mem_cons.mp hl with rfl | hl
        · obtain rfl := Option.some.inj (hwLsa.symm.trans hother)
          exact hdefined hw
        · have hlater := ih hsearching (by rwa [hv]) (hbounded.congr hv htree) (fun c hc => ?_) hs'
            l hl hne other hother (by rwa [htree])
          · rwa [hv] at hlater
          · rw [hv]
            rcases explore_lsa hs₁ c hc with ⟨c', hc', hlsa⟩ | hlsa
            · rw [← hlsa]
              exact hfound c' hc'
            · rw [hlsa]
              refine hdefined fun hin => ?_
              have hcandidate := (hsearching.isCandidate _).mpr (List.mem_map_of_mem hc)
              have hid' : c.vertexId = wLsa.linkStateId := by
                unfold SPFVertex.vertexId
                rw [hlsa]
              rw [← htree] at hin
              rw [hid', (hsearching.inTree _).mpr hin] at hcandidate
              cases hcandidate

/-- The neighbours of a network are never better than the network. -/
theorem Searching.defined_of_nextNetwork (hwf : lsdb.WellFormed) {routers : List Ipv4Address}
    {s' : SPFState} (h : s.Searching lsdb root relaxed) (hnetwork : s.v.lsa.isNetwork = true)
    (hroot : s.v.vertexId ≠ root)
    (hedges : ∀ addr ∈ routers, ∀ wLsa, lsdb.getLSAByLinkData addr = some wLsa →
      lsdb.Edge s.v.vertexId wLsa.linkStateId 0)
    (hs' : SPFState.nextNetwork e lsdb root routers s = some s') :
    ∀ addr ∈ routers, ∀ wLsa, lsdb.getLSAByLinkData addr = some wLsa →
      wLsa.linkStateId ∉ s.tree.map SPFVertex.vertexId →
        SPFVertex.NexthopDefined root s.v wLsa := by
  induction routers generalizing s relaxed with
  | nil =>
      intro addr haddr
      cases haddr
  | cons first rest ih =>
      have hrest := fun a ha => hedges a (List.mem_cons_of_mem _ ha)
      rw [SPFState.nextNetwork] at hs'
      cases hfind : lsdb.getLSAByLinkData first with
      | none =>
          rw [hfind] at hs'
          intro addr haddr wLsa hwLsa hw
          rcases List.mem_cons.mp haddr with rfl | haddr
          · rw [hfind] at hwLsa
            cases hwLsa
          · exact ih h hnetwork hroot hrest hs' addr haddr wLsa hwLsa hw
      | some wLsa =>
          rw [hfind] at hs'
          obtain ⟨s₁, hs₁, hs'⟩ := Option.bind_eq_some_iff.mp hs'
          obtain ⟨hstored, hrouter⟩ := LSDB.getLSAByLinkData_eq_some hfind
          -- Leaving a network costs nothing, and the network was popped first.
          have hdefined := fun hw => h.defined_of_explore hwf.distinct hstored hs₁ hw
            fun c hc _ hlt => by
              have hlater := h.later c hc
              change c.distanceFromRoot < s.v.distanceFromRoot at hlt
              rw [UInt32.lt_iff_toNat_lt] at hlt
              unfold SPFVertex.rank at hlater
              rw [if_pos hnetwork] at hlater
              split at hlater <;> omega
          have hexplore := h.explore (e := e) (l := none) hwf.distinct hstored
            (hedges first List.mem_cons_self wLsa hfind) (fun _ => rfl)
            (Or.inr ⟨hnetwork, hrouter⟩) hdefined fun h => absurd h hroot
          obtain ⟨s₂, hs₂, hv, htree, hsearching⟩ := hexplore
          obtain rfl := Option.some.inj (hs₁.symm.trans hs₂)
          intro addr haddr other hother hw
          rcases List.mem_cons.mp haddr with rfl | haddr
          · obtain rfl := Option.some.inj (hfind.symm.trans hother)
            exact hdefined hw
          · have hlater := ih hsearching (by rwa [hv]) (by rwa [hv]) (by rwa [hv]) hs' addr haddr
              other hother (by rwa [htree])
            rwa [hv] at hlater

end SPFState

end Ns3Rdma.Routing
