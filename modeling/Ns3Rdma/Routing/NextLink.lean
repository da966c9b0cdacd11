import Ns3Rdma.Routing.Nexthop

/-! # Parallel links between two vertices

`SPFNexthopCalculation` asks `SPFGetNextLink` for one link after another until there is none. The
previous link only acts as a flag, so that two links are passed whichever it is. -/

namespace Ns3Rdma.Routing

namespace SPFVertex

/-- The links that the loop `while ((linkRemote = SPFGetNextLink (w, v, linkRemote)))` sees, if it
ends within the fuel. -/
def nextLinks (w v : SPFVertex) :
    ℕ → Option GlobalRoutingLinkRecord → Option (List GlobalRoutingLinkRecord)
  | 0, _ => none
  | fuel + 1, prevLink =>
      match w.getNextLink v prevLink with
      | none => some []
      | some linkRemote => (nextLinks w v fuel (some linkRemote)).map (linkRemote :: ·)

variable (w v : SPFVertex)

/-- After a link the loop ends, or it sees one link for ever. -/
theorem nextLinks_stuck {l : GlobalRoutingLinkRecord}
    (h : (w.lsa.linksTo v.vertexId).tail.tail.head? = some l) (fuel : ℕ)
    (prev : GlobalRoutingLinkRecord) : w.nextLinks v fuel (some prev) = none := by
  induction fuel generalizing prev with
  | zero => rfl
  | succ fuel ih =>
      have hnext : w.getNextLink v (some prev) = some l := (getNextLink_some w v prev).trans h
      unfold nextLinks
      rw [hnext]
      exact congrArg (Option.map (l :: ·)) (ih l)

/-- With at most two links, no link is returned after the first one. -/
theorem nextLinks_first (h : (w.lsa.linksTo v.vertexId).length ≤ 2) :
    w.nextLinks v 2 none = some ((w.lsa.linksTo v.vertexId).take 1) := by
  have hlast (prev : GlobalRoutingLinkRecord) : w.nextLinks v 1 (some prev) = some [] := by
    have hnone : w.getNextLink v (some prev) = none := by
      rw [getNextLink_some, ← List.drop_one, ← List.drop_one, List.drop_drop,
        List.drop_eq_nil_of_le h]
      rfl
    unfold nextLinks
    rw [hnone]
  unfold nextLinks
  rw [getNextLink_none]
  cases w.lsa.linksTo v.vertexId with
  | nil => rfl
  | cons l rest =>
      rw [List.head?_cons]
      simp only [hlast, Option.map_some, List.take_succ_cons, List.take_zero]

/-- With three links or more, the loop sees the third one for ever. -/
theorem nextLinks_endless (h : 2 < (w.lsa.linksTo v.vertexId).length) (fuel : ℕ) :
    w.nextLinks v fuel none = none := by
  cases fuel with
  | zero => rfl
  | succ fuel =>
      unfold nextLinks
      rw [getNextLink_none]
      obtain ⟨first, second, third, rest, hlinks⟩ :
          ∃ a b c rest, w.lsa.linksTo v.vertexId = a :: b :: c :: rest := by
        rcases hlinks : w.lsa.linksTo v.vertexId with _ | ⟨a, _ | ⟨b, _ | ⟨c, rest⟩⟩⟩
        · simp [hlinks] at h
        · simp [hlinks] at h
        · simp [hlinks] at h
        · exact ⟨a, b, c, rest, rfl⟩
      have hthird : (w.lsa.linksTo v.vertexId).tail.tail.head? = some third := by rw [hlinks]; rfl
      rw [hlinks, List.head?_cons]
      exact congrArg (Option.map (first :: ·)) (nextLinks_stuck w v hthird fuel first)

theorem nextLinks_mono {fuel more : ℕ} (hle : fuel ≤ more) (prev : Option GlobalRoutingLinkRecord)
    {links : List GlobalRoutingLinkRecord} (h : w.nextLinks v fuel prev = some links) :
    w.nextLinks v more prev = some links := by
  induction fuel generalizing more prev links with
  | zero => exact absurd h (by simp [nextLinks])
  | succ fuel ih =>
      obtain ⟨more, rfl⟩ : ∃ m, more = m + 1 := ⟨more - 1, by omega⟩
      unfold nextLinks at h ⊢
      cases hnext : w.getNextLink v prev with
      | none =>
          rw [hnext] at h
          exact h
      | some l =>
          rw [hnext] at h
          obtain ⟨rest, hrest, rfl⟩ := Option.map_eq_some_iff.mp h
          exact Option.map_eq_some_iff.mpr ⟨rest, ih (Nat.le_of_succ_le_succ hle) _ hrest, rfl⟩

/-- Whatever the fuel is, a loop that ends has seen the first of at most two links. -/
theorem nextLinks_ends {fuel : ℕ} {links : List GlobalRoutingLinkRecord}
    (h : w.nextLinks v fuel none = some links) :
    (w.lsa.linksTo v.vertexId).length ≤ 2 ∧ links = (w.lsa.linksTo v.vertexId).take 1 := by
  have hle : (w.lsa.linksTo v.vertexId).length ≤ 2 := by
    by_contra hgt
    rw [nextLinks_endless w v (Nat.lt_of_not_le hgt) fuel] at h
    exact absurd h (by simp)
  refine ⟨hle, ?_⟩
  have hfirst := nextLinks_mono w v (Nat.le_add_right 2 fuel) none (nextLinks_first w v hle)
  have hall := nextLinks_mono w v (Nat.le_add_left fuel 2) none h
  exact Option.some_inj.mp (hall.symm.trans hfirst)

/-- The loop ends with all links that point to the vertex, in order, if and only if there is at
most one of them. -/
theorem nextLinks_complete_iff :
    (∃ fuel, w.nextLinks v fuel none = some (w.lsa.linksTo v.vertexId)) ↔
      (w.lsa.linksTo v.vertexId).length ≤ 1 := by
  constructor
  · rintro ⟨fuel, hfuel⟩
    rw [(nextLinks_ends w v hfuel).2]
    exact List.length_take_le _ _
  · intro hone
    refine ⟨2, (nextLinks_first w v (Nat.le_succ_of_le hone)).trans ?_⟩
    rw [List.take_of_length_le hone]

/-- Two parallel links: the second one is not returned. -/
theorem nextLinks_second_missed :
    let link (data : Ipv4Address) : GlobalRoutingLinkRecord := ⟨1, data, .TransitNetwork, 1⟩
    let w := new ⟨2, .RouterLSA [link 10, link 20]⟩
    let v := new ⟨1, .NetworkLSA 0 [2]⟩
    ¬ ∃ fuel, w.nextLinks v fuel none = some [link 10, link 20] := by
  intro link w v h
  obtain ⟨fuel, hfuel⟩ := h
  have hlinks := (nextLinks_ends w v hfuel).2
  exact absurd hlinks (by decide)

end SPFVertex

end Ns3Rdma.Routing
