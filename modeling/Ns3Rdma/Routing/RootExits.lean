import Ns3Rdma.Routing.SpfCalculate

/-! # The exits of the candidates

`SPFNexthopCalculation` finds an exit from the first record that points back, and from the exits of
a network, of which it expects one. A candidate keeps the exits that were offered at its cost. -/

namespace Ns3Rdma.Routing

open ShortestPath

abbrev Exit := Ipv4Address × ℤ

def GlobalRoutingLSA.attachedRouters (lsa : GlobalRoutingLSA) : List Ipv4Address :=
  match lsa.body with
  | .RouterLSA _ => []
  | .NetworkLSA _ attachedRouters => attachedRouters

/-- The exit that `SPFNexthopCalculation` gives a neighbour of the root. -/
def rootExit (e : Environment) (rootLsa : GlobalRoutingLSA) (l : GlobalRoutingLinkRecord)
    (wLsa : GlobalRoutingLSA) : Exit :=
  match wLsa.body with
  | .RouterLSA _ => (((wLsa.linksTo rootLsa.linkStateId).head?.map
      GlobalRoutingLinkRecord.linkData).getD 0, e.findOutgoingInterfaceId l.linkData 0xffffffff)
  | .NetworkLSA networkMask _ => (0, e.findOutgoingInterfaceId wLsa.linkStateId networkMask)

namespace SPFState

/-- The network has one exit. It is next to the root exactly when the exit has no address, and then
the first record of the neighbour that points back is that of the address. -/
def RightAddress (root : Ipv4Address) (v : SPFVertex) (wLsa : GlobalRoutingLSA)
    (addr : Ipv4Address) : Prop :=
  ∃ exit ∈ v.ecmpRootExits, v.ecmpRootExits = [exit] ∧
    (v.parents.head? = some root ↔ exit.1 = 0) ∧
      (exit.1 = 0 → (wLsa.linksTo v.vertexId).head?.map
        GlobalRoutingLinkRecord.linkData = some addr)

instance (root : Ipv4Address) (v : SPFVertex) (wLsa : GlobalRoutingLSA) (addr : Ipv4Address) :
    Decidable (RightAddress root v wLsa addr) :=
  inferInstanceAs (Decidable (∃ exit ∈ v.ecmpRootExits, _ ∧ _ ∧ _))

/-- The neighbours of a network that are not in the tree get the right addresses. -/
def Attached (lsdb : LSDB) (root : Ipv4Address) (s : SPFState) : Prop :=
  ∀ addr ∈ s.v.lsa.attachedRouters, ∀ wLsa ∈ lsdb.getLSAByLinkData addr,
    s.status wLsa.linkStateId ≠ .LSA_SPF_IN_SPFTREE → RightAddress root s.v wLsa addr

-- There are too many addresses to go through them all.
instance (lsdb : LSDB) (root : Ipv4Address) (s : SPFState) : Decidable (s.Attached lsdb root) :=
  List.decidableBAll (fun addr => ∀ wLsa ∈ lsdb.getLSAByLinkData addr,
    s.status wLsa.linkStateId ≠ .LSA_SPF_IN_SPFTREE → RightAddress root s.v wLsa addr) _

end SPFState

/-! ## What one calculation of a next hop gives -/

namespace SPFVertex

variable {e : Environment} {rootLsa wLsa : GlobalRoutingLSA} {root : Ipv4Address} {v : SPFVertex}
  {l : GlobalRoutingLinkRecord}

/-- The calculation sets the exits, whatever they were. -/
def Gives (e : Environment) (root : Ipv4Address) (v : SPFVertex) (wLsa : GlobalRoutingLSA)
    (l : Option GlobalRoutingLinkRecord) (exits : List Exit) : Prop :=
  ∀ w : SPFVertex, w.lsa = wLsa → ∀ w', rootExits e root v w l = some w' →
    w'.lsa = wLsa ∧ w'.ecmpRootExits = exits

theorem gives_root (hv : v.vertexId = rootLsa.linkStateId) :
    Gives e rootLsa.linkStateId v wLsa (some l) [rootExit e rootLsa l wLsa] := by
  rintro w rfl w' hw'
  unfold rootExits at hw'
  rw [if_pos hv] at hw'
  unfold rootExit
  cases hbody : w.lsa.body with
  | NetworkLSA mask routers =>
      rw [hbody] at hw'
      obtain rfl := Option.some.inj hw'
      exact ⟨rfl, rfl⟩
  | RouterLSA records =>
      rw [hbody] at hw'
      obtain ⟨remote, hremote, rfl⟩ := Option.map_eq_some_iff.mp hw'
      rw [getNextLink_none, hv] at hremote
      rw [hremote]
      exact ⟨rfl, rfl⟩

theorem gives_router {l : Option GlobalRoutingLinkRecord} (hv : v.vertexId ≠ root)
    (hrouter : v.lsa.isNetwork = false) :
    Gives e root v wLsa l v.ecmpRootExits := by
  rintro w rfl w' hw'
  unfold rootExits at hw'
  rw [if_neg hv, hrouter] at hw'
  obtain rfl := Option.some.inj hw'
  exact ⟨rfl, rfl⟩

/-- The exit of a neighbour of a network. -/
def through (addr : Ipv4Address) (exit : Exit) : Exit := if exit.1 = 0 then (addr, exit.2) else exit

theorem gives_network {l : Option GlobalRoutingLinkRecord} {addr : Ipv4Address} {exit : Exit}
    (hv : v.vertexId ≠ root) (hnetwork : v.lsa.isNetwork = true)
    (hexit : v.ecmpRootExits = [exit]) (hparent : v.parents.head? = some root ↔ exit.1 = 0)
    (hlink : exit.1 = 0 → (wLsa.linksTo v.vertexId).head?.map
      GlobalRoutingLinkRecord.linkData = some addr) :
    Gives e root v wLsa l [through addr exit] := by
  rintro w rfl w' hw'
  have hdirection : v.getRootExitDirection = some exit := by
    unfold getRootExitDirection
    rw [hexit]
  unfold rootExits at hw'
  rw [if_neg hv, if_pos hnetwork] at hw'
  unfold through
  by_cases hzero : exit.1 = 0
  · rw [if_pos (hparent.mpr hzero), getNextLink_none] at hw'
    obtain ⟨remote, hremote, haddr⟩ := Option.map_eq_some_iff.mp (hlink hzero)
    rw [hremote] at hw'
    dsimp only at hw'
    split at hw'
    · rw [hdirection] at hw'
      obtain rfl := Option.some.inj hw'
      rw [if_pos hzero, ← haddr]
      exact ⟨rfl, rfl⟩
    · cases hw'
  · rw [if_neg (mt hparent.mp hzero), hdirection] at hw'
    obtain rfl := Option.some.inj hw'
    rw [if_neg hzero]
    exact ⟨rfl, rfl⟩

theorem nexthopCalculation_gives {l : Option GlobalRoutingLinkRecord} {exits : List Exit}
    {d : UInt32} (h : Gives e root v wLsa l exits) {w w' : SPFVertex} (hlsa : w.lsa = wLsa)
    (hw' : nexthopCalculation e root v w l d = some w') :
    w'.lsa = wLsa ∧ w'.ecmpRootExits = exits ∧ w'.distanceFromRoot = d := by
  obtain ⟨u, hu, rfl⟩ := Option.map_eq_some_iff.mp hw'
  obtain ⟨hlsa', hexits⟩ := h w hlsa u hu
  exact ⟨hlsa', hexits, rfl⟩

theorem mem_mergeRootExitDirections {cw w : SPFVertex} {x : Exit} :
    x ∈ (cw.mergeRootExitDirections w).ecmpRootExits ↔
      x ∈ cw.ecmpRootExits ∨ x ∈ w.ecmpRootExits := by
  unfold mergeRootExitDirections
  rw [List.mem_eraseDups, List.mem_insertionSort, List.mem_append]

end SPFVertex

/-! ## The exits of the candidates -/

namespace SPFState

/-- The candidates have the exits that were offered at their costs. -/
structure Tracked (lsdb : LSDB) (offered : Ipv4Address → ℕ → Exit → Prop) (s : SPFState) :
    Prop where
  nodup : (s.candidate.map SPFVertex.vertexId).Nodup
  isCandidate : ∀ id, s.status id = .LSA_SPF_CANDIDATE ↔ id ∈ s.candidate.map SPFVertex.vertexId
  stored : ∀ c ∈ s.candidate, lsdb.getLSA c.vertexId = some c.lsa
  exits : ∀ c ∈ s.candidate, ∀ x,
    x ∈ c.ecmpRootExits ↔ offered c.vertexId c.distanceFromRoot.toNat x
  least : ∀ id d x, offered id d x → s.status id = .LSA_SPF_IN_SPFTREE ∨
    ∃ c ∈ s.candidate, c.vertexId = id ∧ c.distanceFromRoot.toNat ≤ d

variable {e : Environment} {lsdb : LSDB} {root : Ipv4Address} {s s' : SPFState}
  {offered : Ipv4Address → ℕ → Exit → Prop}

/-- What is offered to the vertices of the tree does not matter. -/
theorem Tracked.congr (h : s.Tracked lsdb offered) {offers : Ipv4Address → ℕ → Exit → Prop}
    (hiff : ∀ id d x, s.status id ≠ .LSA_SPF_IN_SPFTREE → (offers id d x ↔ offered id d x)) :
    s.Tracked lsdb offers := by
  refine ⟨h.nodup, h.isCandidate, h.stored, fun c hc x => ?_, fun id d x hoffer => ?_⟩
  · have hstatus := (h.isCandidate _).mpr (List.mem_map_of_mem hc)
    rw [h.exits c hc, hiff _ _ _ (by rw [hstatus]; exact SPFStatus.noConfusion)]
  · by_cases hin : s.status id = .LSA_SPF_IN_SPFTREE
    · exact Or.inl hin
    · exact h.least id d x ((hiff id d x hin).mp hoffer)

/-- A vertex takes the place of a candidate. -/
theorem Tracked.replace (h : s.Tracked lsdb offered) {offers : Ipv4Address → ℕ → Exit → Prop}
    {cw cw' : SPFVertex} (hcw : cw ∈ s.candidate) (hlsa : cw'.lsa = cw.lsa)
    (hle : cw'.distanceFromRoot.toNat ≤ cw.distanceFromRoot.toNat)
    (hexits : ∀ x, x ∈ cw'.ecmpRootExits ↔
      offers cw.vertexId cw'.distanceFromRoot.toNat x)
    (hother : ∀ id d x, id ≠ cw.vertexId → (offers id d x ↔ offered id d x))
    (hsame : ∀ d x, offers cw.vertexId d x → cw'.distanceFromRoot.toNat ≤ d)
    {candidate : CandidateQueue} (hperm : candidate.Perm (s.candidate.replace cw')) :
    ({ s with candidate := candidate } : SPFState).Tracked lsdb offers := by
  have hid : cw'.vertexId = cw.vertexId := by
    unfold SPFVertex.vertexId
    rw [hlsa]
  have hreplaced : (s.candidate.replace cw').map SPFVertex.vertexId = _ :=
    CandidateQueue.map_replace SPFVertex.vertexId fun v _ hv => hv
  have hids := hreplaced ▸ hperm.map SPFVertex.vertexId
  have hmem : cw' ∈ candidate := hperm.mem_iff.mpr (CandidateQueue.replaced_mem hcw hid.symm)
  -- A candidate with the ID of the new vertex is the new vertex.
  have hnodup : (candidate.map SPFVertex.vertexId).Nodup := hids.nodup_iff.mpr h.nodup
  have hcases : ∀ c ∈ candidate, c = cw' ∨ (c ∈ s.candidate ∧ c.vertexId ≠ cw.vertexId) := by
    intro c hc
    by_cases heq : c.vertexId = cw.vertexId
    · exact Or.inl (List.inj_on_of_nodup_map hnodup hc hmem (heq.trans hid.symm))
    · rcases CandidateQueue.mem_replace (hperm.mem_iff.mp hc) with rfl | hc
      · exact absurd hid heq
      · exact Or.inr ⟨hc, heq⟩
  refine ⟨hnodup, fun id => (h.isCandidate id).trans hids.mem_iff.symm, fun c hc => ?_,
    fun c hc x => ?_, fun id d x hoffer => ?_⟩
  · rcases hcases c hc with rfl | ⟨hc, -⟩
    · rw [hid, hlsa]
      exact h.stored cw hcw
    · exact h.stored c hc
  · rcases hcases c hc with rfl | ⟨hc, hne⟩
    · rw [hexits, hid]
    · rw [h.exits c hc, hother _ _ _ hne]
  · by_cases heq : id = cw.vertexId
    · subst heq
      exact Or.inr ⟨cw', hmem, hid, hsame d x hoffer⟩
    · rcases h.least id d x ((hother id d x heq).mp hoffer) with hin | ⟨c, hc, hcid, hle'⟩
      · exact Or.inl hin
      · refine Or.inr ⟨c, hperm.mem_iff.mpr (CandidateQueue.mem_replace_of_ne hc ?_), hcid, hle'⟩
        rw [hid, hcid]
        exact heq

/-- A neighbour that was not explored becomes a candidate with its exits. -/
theorem Tracked.push (h : s.Tracked lsdb offered) {w : SPFVertex}
    (hstored : lsdb.getLSA w.vertexId = some w.lsa)
    (hfresh : s.status w.vertexId = .LSA_SPF_NOT_EXPLORED) :
    ({ s.setStatus w.vertexId .LSA_SPF_CANDIDATE with
      candidate := s.candidate.push w } : SPFState).Tracked lsdb fun id d x =>
        offered id d x ∨
          (id = w.vertexId ∧ d = w.distanceFromRoot.toNat ∧ x ∈ w.ecmpRootExits) := by
  have hperm := CandidateQueue.push_perm s.candidate w
  have hids := hperm.map SPFVertex.vertexId
  have hnot : w.vertexId ∉ s.candidate.map SPFVertex.vertexId := fun hmem => by
    rw [(h.isCandidate _).mpr hmem] at hfresh
    cases hfresh
  have hnone : ∀ d x, ¬ offered w.vertexId d x := by
    intro d x hoffer
    rcases h.least _ d x hoffer with hin | ⟨c, hc, hid, -⟩
    · rw [hfresh] at hin
      cases hin
    · exact hnot (hid ▸ List.mem_map_of_mem hc)
  refine ⟨?_, fun id => ?_, fun c hc => ?_, fun c hc x => ?_, fun id d x hoffer => ?_⟩
  · rw [hids.nodup_iff, List.map_cons, List.nodup_cons]
    exact ⟨hnot, h.nodup⟩
  · rw [hids.mem_iff, List.map_cons, List.mem_cons, ← h.isCandidate]
    by_cases heq : id = w.vertexId
    · simp [setStatus, heq]
    · simp [setStatus, heq]
  · rcases List.mem_cons.mp (hperm.mem_iff.mp hc) with rfl | hc
    · exact hstored
    · exact h.stored c hc
  · rcases List.mem_cons.mp (hperm.mem_iff.mp hc) with rfl | hc
    · rw [or_iff_right (hnone _ x)]
      exact ⟨fun hx => ⟨rfl, rfl, hx⟩, fun hx => hx.2.2⟩
    · rw [h.exits c hc]
      refine (or_iff_left ?_).symm
      rintro ⟨heq, -⟩
      exact hnot (heq ▸ List.mem_map_of_mem hc)
  · rcases hoffer with hoffer | ⟨rfl, rfl, -⟩
    · rcases h.least id d x hoffer with hin | ⟨c, hc, hid, hle⟩
      · refine Or.inl ?_
        have hne : id ≠ w.vertexId := by
          rintro rfl
          rw [hfresh] at hin
          cases hin
        simpa [setStatus, hne] using hin
      · exact Or.inr ⟨c, hperm.mem_iff.mpr (List.mem_cons_of_mem _ hc), hid, hle⟩
    · exact Or.inr ⟨w, hperm.mem_iff.mpr List.mem_cons_self, rfl, le_rfl⟩

theorem Tracked.least_of_candidate (h : s.Tracked lsdb offered) {cw : SPFVertex}
    (hcw : cw ∈ s.candidate) {d : ℕ} {x : Exit} (hoffer : offered cw.vertexId d x) :
    cw.distanceFromRoot.toNat ≤ d := by
  rcases h.least _ d x hoffer with hin | ⟨c, hc, hid, hle⟩
  · rw [(h.isCandidate _).mpr (List.mem_map_of_mem hcw)] at hin
    cases hin
  · rwa [← List.inj_on_of_nodup_map h.nodup hc hcw hid]

/-- The candidate has a better label already. -/
theorem Tracked.keep (h : s.Tracked lsdb offered) {cw : SPFVertex} (hcw : cw ∈ s.candidate) {d : ℕ}
    (hlt : cw.distanceFromRoot.toNat < d) (exits : List Exit) :
    s.Tracked lsdb fun id d' x => offered id d' x ∨ (id = cw.vertexId ∧ d' = d ∧ x ∈ exits) := by
  refine ⟨h.nodup, h.isCandidate, h.stored, fun c hc x => ?_, fun id d' x hoffer => ?_⟩
  · rw [h.exits c hc]
    refine (or_iff_left ?_).symm
    rintro ⟨hid, rfl, -⟩
    rw [List.inj_on_of_nodup_map h.nodup hc hcw hid] at hlt
    exact absurd hlt (Nat.lt_irrefl _)
  · rcases hoffer with hoffer | ⟨rfl, rfl, -⟩
    · exact h.least id d' x hoffer
    · exact Or.inr ⟨cw, hcw, rfl, hlt.le⟩

/-- Another path of the same cost adds its exits. -/
theorem Tracked.merge (h : s.Tracked lsdb offered) {cw : SPFVertex} (hcw : cw ∈ s.candidate)
    (w : SPFVertex) :
    ({ s with
      candidate := s.candidate.replace ((cw.mergeRootExitDirections w).mergeParent e w) } :
        SPFState).Tracked lsdb fun id d x => offered id d x ∨
          (id = cw.vertexId ∧ d = cw.distanceFromRoot.toNat ∧ x ∈ w.ecmpRootExits) := by
  have hmerged : ((cw.mergeRootExitDirections w).mergeParent e w).lsa = cw.lsa := rfl
  refine h.replace hcw hmerged le_rfl (fun x => ?_) (fun id d x hne => ?_) (fun d x hoffer => ?_)
    (.refl _)
  · change x ∈ (cw.mergeRootExitDirections w).ecmpRootExits ↔
      offered cw.vertexId cw.distanceFromRoot.toNat x ∨ (cw.vertexId = cw.vertexId ∧
        cw.distanceFromRoot.toNat = cw.distanceFromRoot.toNat ∧ x ∈ w.ecmpRootExits)
    rw [SPFVertex.mem_mergeRootExitDirections, h.exits cw hcw]
    simp
  · exact or_iff_left fun hnew => hne hnew.1
  · rcases hoffer with hoffer | ⟨-, rfl, -⟩
    · exact h.least_of_candidate hcw hoffer
    · exact le_rfl

/-- A shorter path replaces the exits. -/
theorem Tracked.shorten (h : s.Tracked lsdb offered) {cw cw' : SPFVertex} (hcw : cw ∈ s.candidate)
    (hlsa : cw'.lsa = cw.lsa)
    (hlt : cw'.distanceFromRoot.toNat < cw.distanceFromRoot.toNat) :
    ({ s with candidate := (s.candidate.replace cw').reorder } : SPFState).Tracked lsdb
      fun id d x => offered id d x ∨
        (id = cw.vertexId ∧ d = cw'.distanceFromRoot.toNat ∧ x ∈ cw'.ecmpRootExits) := by
  refine h.replace hcw hlsa hlt.le (fun x => ?_) (fun id d x hne => ?_) (fun d x hoffer => ?_)
    (CandidateQueue.reorder_perm _)
  · -- Nothing was offered at a lower cost than that of the candidate.
    have hnone : ¬ offered cw.vertexId cw'.distanceFromRoot.toNat x := fun hoffer =>
      absurd (h.least_of_candidate hcw hoffer) (Nat.not_le_of_lt hlt)
    simp [hnone]
  · exact or_iff_left fun hnew => hne hnew.1
  · rcases hoffer with hoffer | ⟨-, rfl, -⟩
    · exact hlt.le.trans (h.least_of_candidate hcw hoffer)
    · exact le_rfl

/-- A neighbour that is looked at is offered the exits. -/
theorem Tracked.explore (h : s.Tracked lsdb offered) {wLsa : GlobalRoutingLSA}
    (hstored : lsdb.getLSA wLsa.linkStateId = some wLsa) {l : Option GlobalRoutingLinkRecord}
    {exits : List Exit}
    (hgives : s.status wLsa.linkStateId ≠ .LSA_SPF_IN_SPFTREE →
      SPFVertex.Gives e root s.v wLsa l exits)
    (hs' : s.explore e root wLsa l = some s') :
    s'.Tracked lsdb (fun id d x => offered id d x ∨
        (id = wLsa.linkStateId ∧ d = (s.distance l).toNat ∧ x ∈ exits)) ∧
      s'.v = s.v ∧ s'.tree = s.tree ∧
        ∀ id, s'.status id = .LSA_SPF_IN_SPFTREE ↔ s.status id = .LSA_SPF_IN_SPFTREE := by
  unfold SPFState.explore at hs'
  dsimp only at hs'
  split at hs'
  · next hin =>
    obtain rfl := Option.some.inj hs'
    refine ⟨h.congr fun id d x hid => or_iff_left ?_, rfl, rfl, fun _ => Iff.rfl⟩
    rintro ⟨rfl, -⟩
    exact hid hin
  · next hfresh =>
    obtain ⟨w, hw, rfl⟩ := Option.map_eq_some_iff.mp hs'
    obtain ⟨hlsa, hexits, hdistance⟩ := SPFVertex.nexthopCalculation_gives
      (hgives (by rw [hfresh]; exact SPFStatus.noConfusion)) (w := .new wLsa) rfl hw
    have hid : w.vertexId = wLsa.linkStateId := by
      unfold SPFVertex.vertexId
      rw [hlsa]
    have hpush := h.push (w := w) (by rw [hid, hlsa]; exact hstored) (by rw [hid]; exact hfresh)
    rw [hexits, hdistance, hid] at hpush
    refine ⟨hpush, rfl, rfl, fun id => ?_⟩
    by_cases heq : id = wLsa.linkStateId
    · simp [setStatus, heq, hfresh]
    · simp [setStatus, heq]
  · next hcandidate =>
    have hgives := hgives (by rw [hcandidate]; exact SPFStatus.noConfusion)
    obtain ⟨cw, hfind, hs'⟩ := Option.bind_eq_some_iff.mp hs'
    have hcw : cw ∈ s.candidate := List.mem_of_find?_eq_some hfind
    have hid : cw.vertexId = wLsa.linkStateId := by
      unfold CandidateQueue.findId at hfind
      simpa using List.find?_some hfind
    have hlsa : cw.lsa = wLsa := by
      have hcwStored := h.stored cw hcw
      rw [hid, hstored] at hcwStored
      exact (Option.some.inj hcwStored).symm
    rw [← hid]
    split at hs'
    · next hlt =>
      obtain rfl := Option.some.inj hs'
      exact ⟨h.keep hcw (UInt32.lt_iff_toNat_lt.mp hlt) exits, rfl, rfl, fun _ => Iff.rfl⟩
    next hge =>
    rw [UInt32.not_lt, UInt32.le_iff_toNat_le] at hge
    split at hs'
    · next heq =>
      obtain ⟨w, hw, rfl⟩ := Option.map_eq_some_iff.mp hs'
      obtain ⟨-, hexits, -⟩ :=
        SPFVertex.nexthopCalculation_gives hgives (w := .new wLsa) rfl hw
      rw [← hexits, ← heq]
      exact ⟨h.merge hcw w, rfl, rfl, fun _ => Iff.rfl⟩
    · next hne =>
      obtain ⟨cw', hcw', rfl⟩ := Option.map_eq_some_iff.mp hs'
      obtain ⟨hlsa', hexits, hdistance⟩ :=
        SPFVertex.nexthopCalculation_gives hgives hlsa hcw'
      have hlt : (s.distance l).toNat < cw.distanceFromRoot.toNat :=
        lt_of_le_of_ne hge fun heq => hne (UInt32.toNat_inj.mp heq.symm)
      rw [← hexits, ← hdistance]
      exact ⟨h.shorten hcw (hlsa'.trans hlsa.symm) (by rw [hdistance]; exact hlt), rfl, rfl,
        fun _ => Iff.rfl⟩

theorem nextRouter_cons {l : GlobalRoutingLinkRecord} {rest : List GlobalRoutingLinkRecord}
    (hstub : l.linkType ≠ .StubNetwork)
    (hs' : SPFState.nextRouter e lsdb root (l :: rest) s = some s') :
    ∃ wLsa s₁, lsdb.getLSA l.linkId = some wLsa ∧ s.explore e root wLsa (some l) = some s₁ ∧
      SPFState.nextRouter e lsdb root rest s₁ = some s' := by
  rw [SPFState.nextRouter] at hs'
  split at hs'
  · next heq => exact absurd heq hstub
  · obtain ⟨wLsa, hwLsa, hs'⟩ := Option.bind_eq_some_iff.mp hs'
    obtain ⟨s₁, hs₁, hs'⟩ := Option.bind_eq_some_iff.mp hs'
    exact ⟨wLsa, s₁, hwLsa, hs₁, hs'⟩
  · obtain ⟨wLsa, hwLsa, hs'⟩ := Option.bind_eq_some_iff.mp hs'
    obtain ⟨s₁, hs₁, hs'⟩ := Option.bind_eq_some_iff.mp hs'
    exact ⟨wLsa, s₁, hwLsa, hs₁, hs'⟩
  · cases hs'
  · cases hs'

theorem distance_congr {s₁ : SPFState} (hv : s₁.v = s.v) (l : Option GlobalRoutingLinkRecord) :
    s₁.distance l = s.distance l := by
  unfold distance
  rw [hv]

/-- The loop over the link records of a router. -/
theorem Tracked.nextRouter (h : s.Tracked lsdb offered) {records : List GlobalRoutingLinkRecord}
    {exits : GlobalRoutingLinkRecord → List Exit}
    (hgives : ∀ l ∈ records, ∀ wLsa, lsdb.getLSA l.linkId = some wLsa →
      s.status wLsa.linkStateId ≠ .LSA_SPF_IN_SPFTREE →
        SPFVertex.Gives e root s.v wLsa (some l) (exits l))
    (hs' : SPFState.nextRouter e lsdb root records s = some s') :
    s'.Tracked lsdb (fun id d x => offered id d x ∨ ∃ l ∈ records, l.linkType ≠ .StubNetwork ∧
        l.linkId = id ∧ d = (s.distance (some l)).toNat ∧ x ∈ exits l) ∧
      ∀ id, s'.status id = .LSA_SPF_IN_SPFTREE ↔ s.status id = .LSA_SPF_IN_SPFTREE := by
  induction records generalizing s offered with
  | nil =>
      obtain rfl := Option.some.inj hs'
      refine ⟨h.congr fun id d x _ => or_iff_left ?_, fun _ => Iff.rfl⟩
      rintro ⟨l, hl, -⟩
      cases hl
  | cons l rest ih =>
      have hrest := fun r hr => hgives r (List.mem_cons_of_mem _ hr)
      by_cases hstub : l.linkType = .StubNetwork
      · rw [nextRouter_stub hstub] at hs'
        obtain ⟨htracked, hstatus⟩ := ih h hrest hs'
        refine ⟨htracked.congr fun id d x _ => or_congr_right ?_, hstatus⟩
        constructor
        · rintro ⟨r, hr, hne, hoffer⟩
          rcases List.mem_cons.mp hr with rfl | hr
          · exact absurd hstub hne
          · exact ⟨r, hr, hne, hoffer⟩
        · rintro ⟨r, hr, hoffer⟩
          exact ⟨r, List.mem_cons_of_mem _ hr, hoffer⟩
      · obtain ⟨wLsa, s₁, hwLsa, hs₁, hs'⟩ := nextRouter_cons hstub hs'
        have hid := (LSDB.getLSA_eq_some hwLsa).2
        obtain ⟨htracked₁, hv, -, hstatus₁⟩ := h.explore (hid ▸ hwLsa)
          (hgives l List.mem_cons_self wLsa hwLsa) hs₁
        obtain ⟨htracked, hstatus⟩ := ih htracked₁ (fun r hr other hother hin => by
          rw [hv]
          exact hrest r hr other hother (mt (hstatus₁ _).mpr hin)) hs'
        refine ⟨htracked.congr fun id d x _ => ?_, fun id => (hstatus id).trans (hstatus₁ id)⟩
        simp only [distance_congr hv]
        constructor
        · rintro (hoffer | ⟨r, hr, hne, hrid, hd, hx⟩)
          · exact Or.inl (Or.inl hoffer)
          · rcases List.mem_cons.mp hr with rfl | hr
            · exact Or.inl (Or.inr ⟨hrid.symm.trans hid.symm, hd, hx⟩)
            · exact Or.inr ⟨r, hr, hne, hrid, hd, hx⟩
        · rintro ((hoffer | ⟨hwid, hd, hx⟩) | ⟨r, hr, hoffer⟩)
          · exact Or.inl hoffer
          · exact Or.inr ⟨l, List.mem_cons_self, hstub, (hwid.trans hid).symm, hd, hx⟩
          · exact Or.inr ⟨r, List.mem_cons_of_mem _ hr, hoffer⟩

/-- The loop over the attached routers of a network. -/
theorem Tracked.nextNetwork (h : s.Tracked lsdb offered)
    (hdistinct : (lsdb.map GlobalRoutingLSA.linkStateId).Nodup) {routers : List Ipv4Address}
    {exits : Ipv4Address → List Exit}
    (hgives : ∀ addr ∈ routers, ∀ wLsa, lsdb.getLSAByLinkData addr = some wLsa →
      s.status wLsa.linkStateId ≠ .LSA_SPF_IN_SPFTREE →
        SPFVertex.Gives e root s.v wLsa none (exits addr))
    (hs' : SPFState.nextNetwork e lsdb root routers s = some s') :
    s'.Tracked lsdb (fun id d x => offered id d x ∨ ∃ addr ∈ routers, ∃ wLsa,
        lsdb.getLSAByLinkData addr = some wLsa ∧ wLsa.linkStateId = id ∧
          d = s.v.distanceFromRoot.toNat ∧ x ∈ exits addr) ∧
      ∀ id, s'.status id = .LSA_SPF_IN_SPFTREE ↔ s.status id = .LSA_SPF_IN_SPFTREE := by
  induction routers generalizing s offered with
  | nil =>
      obtain rfl := Option.some.inj hs'
      refine ⟨h.congr fun id d x _ => or_iff_left ?_, fun _ => Iff.rfl⟩
      rintro ⟨addr, haddr, -⟩
      cases haddr
  | cons addr rest ih =>
      have hrest := fun a ha => hgives a (List.mem_cons_of_mem _ ha)
      rw [SPFState.nextNetwork] at hs'
      cases hfind : lsdb.getLSAByLinkData addr with
      | none =>
          rw [hfind] at hs'
          obtain ⟨htracked, hstatus⟩ := ih h hrest hs'
          refine ⟨htracked.congr fun id d x _ => or_congr_right ?_, hstatus⟩
          constructor
          · rintro ⟨a, ha, wLsa, hwLsa, hoffer⟩
            rcases List.mem_cons.mp ha with rfl | ha
            · rw [hfind] at hwLsa
              cases hwLsa
            · exact ⟨a, ha, wLsa, hwLsa, hoffer⟩
          · rintro ⟨a, ha, hoffer⟩
            exact ⟨a, List.mem_cons_of_mem _ ha, hoffer⟩
      | some wLsa =>
          rw [hfind] at hs'
          obtain ⟨s₁, hs₁, hs'⟩ := Option.bind_eq_some_iff.mp hs'
          have hstored := LSDB.getLSA_of_mem hdistinct (LSDB.getLSAByLinkData_eq_some hfind).1
          obtain ⟨htracked₁, hv, -, hstatus₁⟩ := h.explore hstored
            (hgives addr List.mem_cons_self wLsa hfind) hs₁
          obtain ⟨htracked, hstatus⟩ := ih htracked₁ (fun a ha other hother hin => by
            rw [hv]
            exact hrest a ha other hother (mt (hstatus₁ _).mpr hin)) hs'
          refine ⟨htracked.congr fun id d x _ => ?_, fun id => (hstatus id).trans (hstatus₁ id)⟩
          rw [hv]
          constructor
          · rintro (hoffer | ⟨a, ha, other, hother, hid, hd, hx⟩)
            · exact Or.inl (Or.inl hoffer)
            · rcases List.mem_cons.mp ha with rfl | ha
              · obtain rfl := Option.some.inj (hfind.symm.trans hother)
                exact Or.inl (Or.inr ⟨hid.symm, hd, hx⟩)
              · exact Or.inr ⟨a, ha, other, hother, hid, hd, hx⟩
          · rintro ((hoffer | ⟨hid, hd, hx⟩) | ⟨a, ha, hoffer⟩)
            · exact Or.inl hoffer
            · exact Or.inr ⟨addr, List.mem_cons_self, wLsa, hfind, hid.symm, hd, hx⟩
            · exact Or.inr ⟨a, List.mem_cons_of_mem _ ha, hoffer⟩

/-! ## What a turn offers -/

/-- What a vertex of the tree offers to a neighbour, once its records have been looked at. -/
def Offers (e : Environment) (lsdb : LSDB) (rootLsa : GlobalRoutingLSA) (t : SPFVertex)
    (id : Ipv4Address) (d : ℕ) (x : Exit) : Prop :=
  match t.lsa.body with
  | .RouterLSA records => ∃ l ∈ records, l.linkType ≠ .StubNetwork ∧ l.linkId = id ∧
      d = t.distanceFromRoot.toNat + l.metric.toNat ∧
        if t.vertexId = rootLsa.linkStateId then
          ∃ wLsa, lsdb.getLSA id = some wLsa ∧ x = rootExit e rootLsa l wLsa
        else x ∈ t.ecmpRootExits
  | .NetworkLSA _ routers => ∃ addr ∈ routers, ∃ wLsa, lsdb.getLSAByLinkData addr = some wLsa ∧
      wLsa.linkStateId = id ∧ d = t.distanceFromRoot.toNat ∧
        ∃ y ∈ t.ecmpRootExits, x = SPFVertex.through addr y

variable {rootLsa : GlobalRoutingLSA}

/-- The vertices of the tree are the current one and those before it. -/
theorem Searching.exists_tree {relaxed : Ipv4Address → Ipv4Address → ℕ → Prop}
    (h : s.Searching lsdb root relaxed) (P : SPFVertex → Prop) :
    (∃ t ∈ s.tree, P t) ↔ (∃ t ∈ s.tree, t.vertexId ≠ s.v.vertexId ∧ P t) ∨ P s.v := by
  constructor
  · rintro ⟨t, ht, hP⟩
    by_cases heq : t.vertexId = s.v.vertexId
    · rw [List.inj_on_of_nodup_map h.treeNodup ht h.current heq] at hP
      exact Or.inr hP
    · exact Or.inl ⟨t, ht, heq, hP⟩
  · rintro (⟨t, ht, -, hP⟩ | hP)
    · exact ⟨t, ht, hP⟩
    · exact ⟨s.v, h.current, hP⟩

/-- Before a turn, what the other vertices of the tree offer has been taken. -/
abbrev OffersBefore (e : Environment) (lsdb : LSDB) (rootLsa : GlobalRoutingLSA) (s : SPFState)
    (id : Ipv4Address) (d : ℕ) (x : Exit) : Prop :=
  ∃ t ∈ s.tree, t.vertexId ≠ s.v.vertexId ∧ Offers e lsdb rootLsa t id d x

/-- What a router gives its neighbours. -/
theorem gives_router_or_root {l : GlobalRoutingLinkRecord} {wLsa : GlobalRoutingLSA}
    (hrouter : s.v.lsa.isNetwork = false) (hwLsa : lsdb.getLSA l.linkId = some wLsa) :
    SPFVertex.Gives e rootLsa.linkStateId s.v wLsa (some l)
      (if s.v.vertexId = rootLsa.linkStateId then
        ((lsdb.getLSA l.linkId).map (rootExit e rootLsa l)).toList else s.v.ecmpRootExits) := by
  by_cases hv : s.v.vertexId = rootLsa.linkStateId
  · rw [if_pos hv, hwLsa]
    exact SPFVertex.gives_root hv
  · rw [if_neg hv]
    exact SPFVertex.gives_router hv hrouter

/-- A turn at a router. -/
theorem Turn.tracked_router (h : s.Turn lsdb rootLsa.linkStateId) (hwf : lsdb.WellFormed)
    (hcost : ∀ visited v cost,
      Trail lsdb.Edge rootLsa.linkStateId visited v cost → cost < 2 ^ 32)
    (ht : s.Tracked lsdb (s.OffersBefore e lsdb rootLsa))
    {records : List GlobalRoutingLinkRecord} (hbody : s.v.lsa.body = .RouterLSA records)
    (hs' : SPFState.nextRouter e lsdb rootLsa.linkStateId records s = some s') :
    s'.Tracked lsdb fun id d x => ∃ t ∈ s.tree, Offers e lsdb rootLsa t id d x := by
  have hrouter : s.v.lsa.isNetwork = false := by
    unfold GlobalRoutingLSA.isNetwork
    rw [hbody]
  obtain ⟨htracked, hstatus⟩ := ht.nextRouter
    (fun l _ wLsa hwLsa _ => gives_router_or_root hrouter hwLsa) hs'
  refine htracked.congr fun id d x hin => (h.exists_tree _).trans (or_congr_right ?_)
  have hfresh : id ∉ s.tree.map SPFVertex.vertexId := fun hid =>
    hin ((hstatus id).mpr ((h.inTree id).mpr hid))
  unfold Offers
  rw [hbody]
  refine exists_congr fun l => and_congr_right fun hl => and_congr_right fun hstub =>
    and_congr_right fun hid => and_congr ?_ ?_
  · -- The sum does not wrap.
    have hbounded := h.bounded hwf hcost
    have hedge := hbounded.edge l (by
      unfold GlobalRoutingLSA.linkRecords
      rw [hbody]
      exact hl) hstub
    have hlt := hbounded.cost _ _ hedge (hid ▸ hfresh)
    have hdistance : (s.distance (some l)).toNat =
        s.v.distanceFromRoot.toNat + l.metric.toNat := by
      change (s.v.distanceFromRoot + l.metric.toUInt32).toNat = _
      rw [UInt32.toNat_add, UInt16.toNat_toUInt32, Nat.mod_eq_of_lt hlt]
    rw [hdistance]
  · rw [hid]
    split
    · rw [Option.mem_toList, Option.map_eq_some_iff]
      exact exists_congr fun wLsa => and_congr_right fun _ => eq_comm
    · exact Iff.rfl

/-- A turn at a network. -/
theorem Turn.tracked_network (h : s.Turn lsdb rootLsa.linkStateId) (hwf : lsdb.WellFormed)
    (hroot : s.v.vertexId ≠ rootLsa.linkStateId)
    (ht : s.Tracked lsdb (s.OffersBefore e lsdb rootLsa)) {mask : Ipv4Address}
    {routers : List Ipv4Address} (hbody : s.v.lsa.body = .NetworkLSA mask routers)
    (hattached : s.Attached lsdb rootLsa.linkStateId)
    (hs' : SPFState.nextNetwork e lsdb rootLsa.linkStateId routers s = some s') :
    s'.Tracked lsdb fun id d x => ∃ t ∈ s.tree, Offers e lsdb rootLsa t id d x := by
  have hnetwork : s.v.lsa.isNetwork = true := by
    unfold GlobalRoutingLSA.isNetwork
    rw [hbody]
  have hgives : ∀ addr ∈ routers, ∀ wLsa, lsdb.getLSAByLinkData addr = some wLsa →
      s.status wLsa.linkStateId ≠ .LSA_SPF_IN_SPFTREE → SPFVertex.Gives e rootLsa.linkStateId s.v
        wLsa none (s.v.ecmpRootExits.map (SPFVertex.through addr)) := by
    intro addr haddr wLsa hwLsa hin
    have hmem : addr ∈ s.v.lsa.attachedRouters := by
      unfold GlobalRoutingLSA.attachedRouters
      rw [hbody]
      exact haddr
    obtain ⟨exit, -, hexit, hparent, hlink⟩ := hattached addr hmem wLsa hwLsa hin
    rw [hexit]
    exact SPFVertex.gives_network hroot hnetwork hexit hparent hlink
  obtain ⟨htracked, -⟩ := ht.nextNetwork hwf.distinct hgives hs'
  refine htracked.congr fun id d x _ => (h.exists_tree _).trans (or_congr_right ?_)
  unfold Offers
  rw [hbody]
  refine exists_congr fun addr => and_congr_right fun _ => exists_congr fun wLsa =>
    and_congr_right fun _ => and_congr_right fun _ => and_congr_right fun _ => ?_
  rw [List.mem_map]
  exact exists_congr fun y => and_congr_right fun _ => eq_comm

/-- After a turn, the candidates have the exits that the tree offers. -/
theorem Turn.tracked (h : s.Turn lsdb rootLsa.linkStateId) (hwf : lsdb.WellFormed)
    (hroot : ∀ lsa, lsdb.getLSA rootLsa.linkStateId = some lsa → lsa.isNetwork = false)
    (hcost : ∀ visited v cost,
      Trail lsdb.Edge rootLsa.linkStateId visited v cost → cost < 2 ^ 32)
    (ht : s.Tracked lsdb (s.OffersBefore e lsdb rootLsa))
    (hattached : s.Attached lsdb rootLsa.linkStateId)
    (hs' : s.next e lsdb rootLsa.linkStateId = some s') :
    s'.Tracked lsdb fun id d x => ∃ t ∈ s.tree, Offers e lsdb rootLsa t id d x := by
  unfold SPFState.next at hs'
  cases hbody : s.v.lsa.body with
  | RouterLSA records =>
      rw [hbody] at hs'
      exact h.tracked_router hwf hcost ht hbody hs'
  | NetworkLSA mask routers =>
      rw [hbody] at hs'
      exact h.tracked_network hwf (h.network hwf hroot hbody).2.1 ht hbody hattached hs'

/-- A vertex is popped with what the tree offers it. -/
theorem Tracked.pop {u : SPFVertex} {rest : CandidateQueue} {s'' : SPFState}
    (h : s'.Tracked lsdb fun id d x => ∃ t ∈ s'.tree, Offers e lsdb rootLsa t id d x)
    (hcandidate : s'.candidate = u :: rest) (hpop : s'.pop = some s'')
    (hturn : s''.Turn lsdb rootLsa.linkStateId) :
    (∀ x, x ∈ u.ecmpRootExits ↔
        ∃ t ∈ s'.tree, Offers e lsdb rootLsa t u.vertexId u.distanceFromRoot.toNat x) ∧
      s''.Tracked lsdb (s''.OffersBefore e lsdb rootLsa) := by
  have hmem : ∀ c, c ∈ s'.candidate ↔ c = u ∨ c ∈ rest := fun c => by
    rw [hcandidate, List.mem_cons]
  refine ⟨h.exits u ((hmem u).mpr (Or.inl rfl)), ?_⟩
  unfold SPFState.pop at hpop
  rw [hcandidate] at hpop
  obtain rfl := Option.some.inj hpop
  have hnodup := hturn.treeNodup
  have hids : (s'.tree ++ [u]).map SPFVertex.vertexId =
      s'.tree.map SPFVertex.vertexId ++ [u.vertexId] := by
    rw [List.map_append]
    rfl
  dsimp only at hnodup
  rw [hids, List.nodup_append_comm] at hnodup
  have hfresh := (List.nodup_cons.mp hnodup).1
  have hbefore : ∀ id d x, (∃ t ∈ s'.tree ++ [u], t.vertexId ≠ u.vertexId ∧
      Offers e lsdb rootLsa t id d x) ↔ ∃ t ∈ s'.tree, Offers e lsdb rootLsa t id d x := by
    intro id d x
    constructor
    · rintro ⟨t, ht, hne, hoffer⟩
      rcases List.mem_append.mp ht with ht | ht
      · exact ⟨t, ht, hoffer⟩
      · exact absurd (by rw [List.mem_singleton.mp ht]) hne
    · rintro ⟨t, ht, hoffer⟩
      refine ⟨t, List.mem_append_left _ ht, fun heq => ?_, hoffer⟩
      exact hfresh (heq ▸ List.mem_map_of_mem ht)
  refine ⟨hturn.candidateNodup, hturn.isCandidate,
    fun c hc => h.stored c ((hmem c).mpr (Or.inr hc)), fun c hc x => ?_, fun id d x hoffer => ?_⟩
  · rw [h.exits c ((hmem c).mpr (Or.inr hc))]
    exact (hbefore _ _ x).symm
  · have hin : id = u.vertexId → (Function.update s'.status u.vertexId .LSA_SPF_IN_SPFTREE) id =
        .LSA_SPF_IN_SPFTREE := by
      rintro rfl
      exact Function.update_self _ _ _
    by_cases heq : id = u.vertexId
    · exact Or.inl (hin heq)
    rcases h.least id d x ((hbefore id d x).mp hoffer) with hold | ⟨c, hc, hid, hle⟩
    · refine Or.inl ?_
      change (Function.update s'.status u.vertexId .LSA_SPF_IN_SPFTREE) id = _
      rw [Function.update_of_ne heq]
      exact hold
    · rcases (hmem c).mp hc with rfl | hc
      · exact absurd hid.symm heq
      · exact Or.inr ⟨c, hc, hid, hle⟩

end SPFState

end Ns3Rdma.Routing
