import Ns3Rdma.Lib.ShortestPath
import Ns3Rdma.Routing.Nexthop

/-! # The graph and the candidates

The costs of the steps between the LSAs of a database, and the order in which the queue keeps its
vertices. -/

namespace Ns3Rdma.Routing

open ShortestPath

/-! ## The graph of a database -/

namespace LSDB

variable (lsdb : LSDB)

/-- Leaving a router costs the metric of the record, leaving a network costs nothing. -/
def Leads (lsa : GlobalRoutingLSA) (w : Ipv4Address) (cost : ℕ) : Prop :=
  match lsa.body with
  | .RouterLSA linkRecords => ∃ l ∈ linkRecords, l.linkType ≠ .StubNetwork ∧ l.linkId = w ∧
      l.metric.toNat = cost
  | .NetworkLSA _ attachedRouters => ∃ addr ∈ attachedRouters, ∃ wLsa,
      lsdb.getLSAByLinkData addr = some wLsa ∧ wLsa.linkStateId = w ∧ cost = 0

def Edge (v w : Ipv4Address) (cost : ℕ) : Prop :=
  ∃ lsa, lsdb.getLSA v = some lsa ∧ lsdb.Leads lsa w cost

/-- The IDs are distinct, and every record that is not one of a stub network points to an LSA. -/
structure WellFormed : Prop where
  distinct : (lsdb.map GlobalRoutingLSA.linkStateId).Nodup
  record : ∀ lsa ∈ lsdb, ∀ l ∈ lsa.linkRecords, l.linkType ≠ .StubNetwork →
    (l.linkType = .PointToPoint ∨ l.linkType = .TransitNetwork) ∧ 0 < l.metric.toNat ∧
      (lsdb.getLSA l.linkId).isSome

variable {lsdb} {lsa : GlobalRoutingLSA} {addr : Ipv4Address}

theorem getLSA_eq_some (h : lsdb.getLSA addr = some lsa) :
    lsa ∈ lsdb ∧ lsa.linkStateId = addr := by
  unfold getLSA at h
  exact ⟨List.mem_of_find?_eq_some h, by simpa using List.find?_some h⟩

theorem getLSA_of_mem (hdistinct : (lsdb.map GlobalRoutingLSA.linkStateId).Nodup)
    (h : lsa ∈ lsdb) : lsdb.getLSA lsa.linkStateId = some lsa := by
  have hsome : (lsdb.getLSA lsa.linkStateId).isSome := by
    unfold getLSA
    rw [List.find?_isSome]
    exact ⟨lsa, h, decide_eq_true rfl⟩
  obtain ⟨other, hother⟩ := Option.isSome_iff_exists.mp hsome
  obtain ⟨hmem, hid⟩ := getLSA_eq_some hother
  rw [hother, List.inj_on_of_nodup_map hdistinct hmem h hid]

/-- Only routers are found by their link data. -/
theorem getLSAByLinkData_eq_some (h : lsdb.getLSAByLinkData addr = some lsa) :
    lsa ∈ lsdb ∧ lsa.isNetwork = false := by
  refine ⟨List.mem_of_find?_eq_some h, ?_⟩
  have hany := List.find?_some h
  obtain ⟨id, body⟩ := lsa
  cases body with
  | RouterLSA records => rfl
  | NetworkLSA mask routers => cases hany

end LSDB

/-! ## Ranks -/

namespace SPFVertex

/-- The order of the candidates. -/
def rank (v : SPFVertex) : ℕ := 2 * v.distanceFromRoot.toNat + if v.lsa.isNetwork then 0 else 1

theorem compare_iff (v₁ v₂ : SPFVertex) : v₁.compare v₂ = true ↔ v₁.rank < v₂.rank := by
  unfold compare rank
  -- Twice the distance, and one more for a router.
  rw [Bool.or_eq_true, decide_eq_true_iff, Bool.and_eq_true, decide_eq_true_iff,
    UInt32.lt_iff_toNat_lt, ← UInt32.toNat_inj]
  cases v₁.lsa.isNetwork <;> cases v₂.lsa.isNetwork <;> simp <;> omega

theorem compare_eq_false_iff (v₁ v₂ : SPFVertex) :
    (!v₁.compare v₂) = true ↔ v₂.rank ≤ v₁.rank := by
  rw [Bool.not_eq_true', ← Bool.not_eq_true, compare_iff, Nat.not_lt]

theorem rank_eq_of_key_eq {v w : SPFVertex} (h : v.key = w.key) : v.rank = w.rank := by
  obtain ⟨hlsa, hdistance⟩ := Prod.mk.inj h
  unfold rank
  rw [hlsa, hdistance]

end SPFVertex

namespace CandidateQueue

variable {candidate : CandidateQueue} {w cw : SPFVertex}

/-- The queue is sorted. -/
def Sorted (candidate : CandidateQueue) : Prop := candidate.Pairwise fun a b => a.rank ≤ b.rank

theorem push_cons (v w : SPFVertex) (candidate : CandidateQueue) :
    push (v :: candidate) w =
      if v.rank ≤ w.rank then v :: push candidate w else w :: v :: candidate := by
  unfold push
  by_cases h : v.rank ≤ w.rank
  · have hcompare := (SPFVertex.compare_eq_false_iff w v).mpr h
    rw [if_pos h, List.takeWhile_cons, List.dropWhile_cons, if_pos hcompare, if_pos hcompare]
    rfl
  · have hcompare := fun hfalse => h ((SPFVertex.compare_eq_false_iff w v).mp hfalse)
    rw [if_neg h, List.takeWhile_cons, List.dropWhile_cons, if_neg hcompare, if_neg hcompare]
    rfl

theorem push_perm (candidate : CandidateQueue) (w : SPFVertex) :
    (candidate.push w).Perm (w :: candidate) := by
  induction candidate with
  | nil => exact .refl _
  | cons v candidate ih =>
      rw [push_cons]
      split
      · exact (List.Perm.cons v ih).trans (.swap _ _ _)
      · exact .refl _

theorem sorted_push (h : candidate.Sorted) (w : SPFVertex) : (candidate.push w).Sorted := by
  induction candidate with
  | nil => exact List.pairwise_singleton _ _
  | cons v candidate ih =>
      obtain ⟨hfirst, hrest⟩ := List.pairwise_cons.mp h
      rw [push_cons]
      split
      · next hle =>
        refine List.pairwise_cons.mpr ⟨fun u hu => ?_, ih hrest⟩
        rcases List.mem_cons.mp ((push_perm candidate w).mem_iff.mp hu) with rfl | hu
        · exact hle
        · exact hfirst u hu
      · next hlt =>
        refine List.pairwise_cons.mpr ⟨fun u hu => ?_, h⟩
        rcases List.mem_cons.mp hu with rfl | hu
        · omega
        · have hle := hfirst u hu
          omega

theorem reorder_perm (candidate : CandidateQueue) : candidate.reorder.Perm candidate :=
  List.perm_insertionSort _ _

theorem sorted_reorder (candidate : CandidateQueue) : candidate.reorder.Sorted := by
  have htotal : Std.Total fun v₁ v₂ : SPFVertex => (!v₂.compare v₁) = true := ⟨fun a b => by
    rw [SPFVertex.compare_eq_false_iff, SPFVertex.compare_eq_false_iff]
    exact le_total _ _⟩
  have htrans : IsTrans SPFVertex fun v₁ v₂ => (!v₂.compare v₁) = true := ⟨fun a b c hab hbc => by
    rw [SPFVertex.compare_eq_false_iff] at hab hbc ⊢
    exact le_trans hab hbc⟩
  exact (List.pairwise_insertionSort _ candidate).imp fun h =>
    (SPFVertex.compare_eq_false_iff _ _).mp h

/-- What the new vertex has in common with the old one does not change. -/
theorem map_replace {β : Type*} (f : SPFVertex → β)
    (hsame : ∀ v ∈ candidate, v.vertexId = cw.vertexId → f v = f cw) :
    (candidate.replace cw).map f = candidate.map f := by
  unfold replace
  rw [List.map_map]
  refine List.map_congr_left fun v hv => ?_
  change f (if v.vertexId = cw.vertexId then cw else v) = f v
  split
  · next h => exact (hsame v hv h).symm
  · rfl

theorem sorted_replace (hsame : ∀ v ∈ candidate, v.vertexId = cw.vertexId → v.rank = cw.rank)
    (h : candidate.Sorted) : (candidate.replace cw).Sorted := by
  unfold Sorted at h ⊢
  rw [← List.pairwise_map (f := SPFVertex.rank) (R := (· ≤ ·))] at h ⊢
  rw [map_replace SPFVertex.rank hsame]
  exact h

theorem mem_replace {v : SPFVertex} (h : v ∈ candidate.replace cw) : v = cw ∨ v ∈ candidate := by
  obtain ⟨u, hu, rfl⟩ := List.mem_map.mp h
  split
  · exact Or.inl rfl
  · exact Or.inr hu

theorem replaced_mem {v : SPFVertex} (h : v ∈ candidate) (hid : v.vertexId = cw.vertexId) :
    cw ∈ candidate.replace cw := by
  have hmem := List.mem_map_of_mem (f := fun v : SPFVertex =>
    if v.vertexId = cw.vertexId then cw else v) h
  rwa [if_pos hid] at hmem

theorem mem_replace_of_ne {v : SPFVertex} (h : v ∈ candidate) (hid : v.vertexId ≠ cw.vertexId) :
    v ∈ candidate.replace cw := by
  have hmem := List.mem_map_of_mem (f := fun v : SPFVertex =>
    if v.vertexId = cw.vertexId then cw else v) h
  rwa [if_neg hid] at hmem

theorem findId_of_mem (hnodup : (candidate.map SPFVertex.vertexId).Nodup) (h : cw ∈ candidate) :
    candidate.findId cw.vertexId = some cw := by
  have hsome : (candidate.findId cw.vertexId).isSome := by
    unfold findId
    rw [List.find?_isSome]
    exact ⟨cw, h, decide_eq_true rfl⟩
  obtain ⟨other, hother⟩ := Option.isSome_iff_exists.mp hsome
  have hmem : other ∈ candidate := List.mem_of_find?_eq_some hother
  have hid : other.vertexId = cw.vertexId := by
    unfold findId at hother
    simpa using List.find?_some hother
  rw [hother, List.inj_on_of_nodup_map hnodup hmem h hid]

end CandidateQueue

end Ns3Rdma.Routing
