import Ns3Rdma.Routing.GlobalRouteManager

/-! # When the next hop is defined

`SPFNexthopCalculation` reads the records of the neighbour that point back. -/

namespace Ns3Rdma.Routing

namespace GlobalRoutingLSA

/-- The link records that point to a vertex. -/
def linksTo (lsa : GlobalRoutingLSA) (id : Ipv4Address) : List GlobalRoutingLinkRecord :=
  lsa.linkRecords.filter fun l => l.linkId = id

end GlobalRoutingLSA

namespace SPFVertex

/-- The first matching link is passed unless it counts as found, and one more if asked. -/
theorem nextLinkFrom_eq (id : Ipv4Address) (found skip : Bool)
    (records : List GlobalRoutingLinkRecord) :
    nextLinkFrom id found skip records =
      ((records.filter fun l => l.linkId = id).drop ((!found).toNat + skip.toNat)).head? := by
  induction records generalizing found skip with
  | nil => simp [nextLinkFrom]
  | cons l rest ih =>
      unfold nextLinkFrom
      by_cases h : l.linkId = id
      · rw [if_pos h, List.filter_cons, if_pos (decide_eq_true h)]
        cases found with
        | false =>
            rw [Bool.not_false, if_pos rfl, ih, Bool.toNat_true, Nat.add_comm 1,
              List.drop_succ_cons]
            simp
        | true =>
            cases skip with
            | false => simp
            | true => simp [ih]
      · rw [if_neg h, List.filter_cons, if_neg (by simpa using h), ih]

theorem getNextLink_none (v w : SPFVertex) :
    v.getNextLink w none = (v.lsa.linksTo w.vertexId).head? :=
  nextLinkFrom_eq _ true false _

theorem getNextLink_some (v w : SPFVertex) (l : GlobalRoutingLinkRecord) :
    v.getNextLink w (some l) = (v.lsa.linksTo w.vertexId).tail.tail.head? := by
  refine (nextLinkFrom_eq _ false true _).trans ?_
  rw [← List.drop_one, ← List.drop_one, List.drop_drop]
  rfl

/-- A neighbour of the root needs a record that points back, a neighbour of a network next to the
root has at most two of them, and a network has one exit where it is asked for it. -/
abbrev NexthopDefined (root : Ipv4Address) (v : SPFVertex) (wLsa : GlobalRoutingLSA) : Prop :=
  if v.vertexId = root then wLsa.isNetwork = true ∨ wLsa.linksTo root ≠ []
  else if v.lsa.isNetwork = true then
    if v.parents.head? = some root then
      wLsa.linksTo v.vertexId = [] ∨
        ((wLsa.linksTo v.vertexId).length ≤ 2 ∧ v.ecmpRootExits.length = 1)
    else v.ecmpRootExits.length = 1
  else True

/-- What the calculation of distances depends on. -/
def key (v : SPFVertex) : GlobalRoutingLSA × UInt32 := (v.lsa, v.distanceFromRoot)

variable {e : Environment} {root : Ipv4Address} {v w : SPFVertex}
  {l : Option GlobalRoutingLinkRecord} {d : UInt32}

theorem getRootExitDirection_eq_some (h : v.ecmpRootExits.length = 1) :
    ∃ exit, v.getRootExitDirection = some exit := by
  obtain ⟨exit, hexit⟩ := List.length_eq_one_iff.mp h
  refine ⟨exit, ?_⟩
  unfold getRootExitDirection
  rw [hexit]

theorem rootExits_spec (hdefined : NexthopDefined root v w.lsa)
    (hl : v.vertexId = root → l.isSome) :
    ∃ w', rootExits e root v w l = some w' ∧ w'.lsa = w.lsa := by
  unfold NexthopDefined at hdefined
  unfold rootExits
  by_cases hroot : v.vertexId = root
  · rw [if_pos hroot] at hdefined ⊢
    obtain ⟨record, rfl⟩ := Option.isSome_iff_exists.mp (hl hroot)
    cases hbody : w.lsa.body with
    | NetworkLSA mask routers => exact ⟨_, rfl, rfl⟩
    | RouterLSA records =>
        rcases hdefined with hnetwork | hlinks
        · unfold GlobalRoutingLSA.isNetwork at hnetwork
          rw [hbody] at hnetwork
          cases hnetwork
        · obtain ⟨remote, rest, hremote⟩ := List.exists_cons_of_ne_nil hlinks
          refine ⟨w.setRootExitDirection
            (remote.linkData, e.findOutgoingInterfaceId record.linkData 0xffffffff), ?_, rfl⟩
          dsimp only
          rw [Option.bind_some, getNextLink_none, hroot, hremote]
          rfl
  rw [if_neg hroot] at hdefined ⊢
  by_cases hnetwork : v.lsa.isNetwork = true
  · rw [if_pos hnetwork] at hdefined ⊢
    by_cases hparent : v.parents.head? = some root
    · rw [if_pos hparent] at hdefined ⊢
      rw [getNextLink_none]
      rcases hdefined with hlinks | ⟨hlinks, hexits⟩
      · rw [hlinks]
        exact ⟨w, rfl, rfl⟩
      · cases hfirst : w.lsa.linksTo v.vertexId with
        | nil => exact ⟨w, rfl, rfl⟩
        | cons remote rest =>
            obtain ⟨exit, hexit⟩ := getRootExitDirection_eq_some hexits
            have hnone : rest.tail = [] := by
              rw [hfirst, List.length_cons] at hlinks
              rw [← List.length_eq_zero_iff, List.length_tail]
              omega
            refine ⟨w.setRootExitDirection (remote.linkData, exit.2), ?_, rfl⟩
            dsimp only [List.head?_cons]
            rw [getNextLink_some, hfirst, List.tail_cons, hnone, hexit]
            rfl
    · rw [if_neg hparent] at hdefined ⊢
      obtain ⟨exit, hexit⟩ := getRootExitDirection_eq_some hdefined
      rw [hexit]
      exact ⟨_, rfl, rfl⟩
  · rw [if_neg hnetwork] at hdefined ⊢
    exact ⟨_, rfl, rfl⟩

theorem nexthopCalculation_spec (hdefined : NexthopDefined root v w.lsa)
    (hl : v.vertexId = root → l.isSome) :
    ∃ w', nexthopCalculation e root v w l d = some w' ∧ w'.key = (w.lsa, d) := by
  obtain ⟨w', hw', hlsa⟩ := rootExits_spec (e := e) hdefined hl
  refine ⟨{ w' with distanceFromRoot := d, parents := [v.vertexId] }, ?_, ?_⟩
  · unfold nexthopCalculation
    rw [hw', Option.map_some]
  · unfold key
    rw [hlsa]

theorem nexthopCalculation_lsa {w' : SPFVertex}
    (h : nexthopCalculation e root v w l d = some w') : w'.lsa = w.lsa := by
  obtain ⟨u, hu, rfl⟩ := Option.map_eq_some_iff.mp h
  change u.lsa = w.lsa
  unfold rootExits at hu
  split at hu
  · split at hu
    · obtain ⟨record, -, hu⟩ := Option.bind_eq_some_iff.mp hu
      obtain ⟨remote, -, rfl⟩ := Option.map_eq_some_iff.mp hu
      rfl
    · obtain rfl := Option.some.inj hu
      rfl
  · split at hu
    · split at hu
      · split at hu
        · obtain rfl := Option.some.inj hu
          rfl
        · split at hu
          · obtain ⟨exit, -, rfl⟩ := Option.map_eq_some_iff.mp hu
            rfl
          · cases hu
      · obtain ⟨exit, -, rfl⟩ := Option.map_eq_some_iff.mp hu
        rfl
    · obtain rfl := Option.some.inj hu
      rfl

theorem getRootExitDirection_eq_none (h : v.ecmpRootExits.length ≠ 1) :
    v.getRootExitDirection = none := by
  unfold getRootExitDirection
  split
  · next exit hexit =>
    rw [hexit] at h
    exact absurd rfl h
  · rfl

/-- Otherwise a null pointer is read, an assertion fails or the loop does not end. -/
theorem nexthopCalculation_eq_none (h : ¬ NexthopDefined root v w.lsa) :
    nexthopCalculation e root v w l d = none := by
  suffices hexits : rootExits e root v w l = none by
    unfold nexthopCalculation
    rw [hexits, Option.map_none]
  unfold NexthopDefined at h
  unfold rootExits
  by_cases hroot : v.vertexId = root
  · rw [if_pos hroot] at h ⊢
    rw [not_or, not_not] at h
    cases hbody : w.lsa.body with
    | NetworkLSA mask routers =>
        unfold GlobalRoutingLSA.isNetwork at h
        rw [hbody] at h
        exact absurd rfl h.1
    | RouterLSA records =>
        dsimp only
        rw [getNextLink_none, hroot, h.2]
        cases l <;> rfl
  rw [if_neg hroot] at h ⊢
  by_cases hnetwork : v.lsa.isNetwork = true
  · rw [if_pos hnetwork] at h ⊢
    by_cases hparent : v.parents.head? = some root
    · rw [if_pos hparent] at h ⊢
      rw [not_or] at h
      obtain ⟨hlinks, hmany⟩ := h
      rw [getNextLink_none]
      cases hfirst : w.lsa.linksTo v.vertexId with
      | nil => exact absurd hfirst hlinks
      | cons remote rest =>
          dsimp only [List.head?_cons]
          rw [getNextLink_some, hfirst, List.tail_cons]
          cases htail : rest.tail with
          -- The third record is returned for every previous link.
          | cons third more => rfl
          | nil =>
              have hone : v.ecmpRootExits.length ≠ 1 := by
                intro hone
                refine hmany ⟨?_, hone⟩
                rw [← List.length_eq_zero_iff, List.length_tail] at htail
                rw [hfirst, List.length_cons]
                omega
              dsimp only [List.head?_nil]
              rw [getRootExitDirection_eq_none hone]
              rfl
    · rw [if_neg hparent] at h ⊢
      rw [getRootExitDirection_eq_none h]
      rfl
  · rw [if_neg hnetwork] at h
    exact absurd trivial h

end SPFVertex

end Ns3Rdma.Routing
