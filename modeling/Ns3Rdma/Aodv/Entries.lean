import Ns3Rdma.Aodv.RoutingProtocol

/-!
# One entry of the table

What each handler does to the entry of one destination that has not expired. A handler of requests
or replies writes the entry of one destination. The others keep the sequence number of an entry.
-/

namespace Ns3Rdma.Aodv

namespace RoutingTable

variable {c : AodvConfig} {now : ℤ} {t : RoutingTable} {d id sender : Ipv4Address} {dev : ℕ}
  {e x : RoutingTableEntry}

theorem purge_of_le (hd : t d = some x) (hle : now ≤ x.lifeTime) : purge c now t d = some x := by
  rw [purge, hd, Option.bind_some, RoutingTableEntry.purge, if_neg (not_lt.mpr hle)]

/-- What is valid after a purge has not expired. -/
theorem le_of_purge (hd : purge c now t d = some e) (hvalid : e.flag = .VALID) :
    now ≤ e.lifeTime := by
  obtain ⟨x, -, hx⟩ := Option.bind_eq_some_iff.mp hd
  unfold RoutingTableEntry.purge at hx
  split at hx
  · split at hx
    next => cases hx
    next hflag =>
      obtain rfl := Option.some.inj hx
      rw [RoutingTableEntry.invalidate, if_neg (by rw [hflag]; decide)] at hvalid
      cases hvalid
    next hflag =>
      obtain rfl := Option.some.inj hx
      rw [hflag] at hvalid
      cases hvalid
  next hlt =>
    obtain rfl := Option.some.inj hx
    exact not_lt.mp hlt

theorem update_self (hd : t d = some x) : update t d e d = some e := by
  rw [update, if_pos (by rw [hd]; rfl), Function.update_self]

theorem update_of_ne (hne : d ≠ id) : update t id e d = t d := by
  unfold update
  split
  · exact Function.update_of_ne hne _ _
  · rfl

theorem addRoute_of_ne (hne : d ≠ id) : addRoute c now t id e d = purge c now t d := by
  unfold addRoute
  split
  · rfl
  · exact Function.update_of_ne hne _ _

/-! ## Hearing a neighbour -/

/-- An entry that stays. -/
theorem updateRouteToNeighbor_kept (hd : purge c now t d = some x) (hle : now ≤ x.lifeTime)
    (hkeeps : d = sender → keepsNeighbor x dev = true) :
    updateRouteToNeighbor c now t sender dev d = some x := by
  unfold updateRouteToNeighbor lookupRoute
  have hagain : purge c now (purge c now t) d = some x := purge_of_le hd hle
  cases hsender : purge c now t sender with
  | none =>
      have hne : d ≠ sender := fun heq => by
        rw [← heq, hd] at hsender
        cases hsender
      exact (addRoute_of_ne hne).trans hagain
  | some toNeighbor =>
      dsimp only
      split
      · exact hd
      next hnot =>
        have hne : d ≠ sender := fun heq => by
          rw [← heq, hd] at hsender
          rw [← Option.some.inj hsender] at hnot
          exact hnot (hkeeps heq)
        rw [update_of_ne hne]
        exact hd

/-- An entry that is set back to the neighbour itself, without a sequence number. -/
theorem updateRouteToNeighbor_reset (hd : purge c now t sender = some x)
    (hkeeps : keepsNeighbor x dev ≠ true) :
    ∃ lifeTime, now ≤ lifeTime ∧ updateRouteToNeighbor c now t sender dev sender =
      some (.new dev false 0 1 sender lifeTime) := by
  refine ⟨max (c.activeRouteTimeout : ℤ) (x.lifeTime - now) + now, ?_, ?_⟩
  · have hmax := le_max_left (c.activeRouteTimeout : ℤ) (x.lifeTime - now)
    omega
  · unfold updateRouteToNeighbor lookupRoute
    rw [hd]
    dsimp only
    rw [if_neg hkeeps, update_self hd]

theorem purge_idem (t : RoutingTable) : purge c now (purge c now t) = purge c now t := by
  funext d
  cases hd : purge c now t d with
  | none => rw [purge, hd, Option.bind_none]
  | some x =>
      obtain ⟨e, -, hx⟩ := Option.bind_eq_some_iff.mp hd
      rw [purge, hd, Option.bind_some]
      unfold RoutingTableEntry.purge at hx ⊢
      split at hx
      next hlt =>
        split at hx
        next => cases hx
        next hflag =>
          obtain rfl := Option.some.inj hx
          have hne : e.flag ≠ .INVALID := by
            rw [hflag]
            decide
          rw [RoutingTableEntry.invalidate, if_neg hne]
          refine if_neg (not_lt.mpr ?_)
          exact le_add_of_nonneg_left (Int.natCast_nonneg _)
        next hflag =>
          obtain rfl := Option.some.inj hx
          rw [if_pos hlt, hflag]
      next hlt =>
        obtain rfl := Option.some.inj hx
        rw [if_neg hlt]

/-- The sender of a request is blacklisted, and its entry is not replaced. -/
def blacklisted (c : AodvConfig) (now : ℤ) (t : RoutingTable) (src : Ipv4Address) (dev : ℕ) :
    Bool :=
  ((purge c now t src).map fun x => keepsNeighbor x dev && x.blackListState).getD false

theorem blacklisted_eq (src : Ipv4Address) :
    ((purge c now (updateRouteToNeighbor c now t src dev) src).map
        RoutingTableEntry.blackListState).getD false = blacklisted c now t src dev := by
  have hnew : ∀ lifeTime : ℤ, now ≤ lifeTime → ∀ t' : RoutingTable,
      t' src = some (.new dev false 0 1 src lifeTime) →
      ((purge c now t' src).map RoutingTableEntry.blackListState).getD false = false := by
    intro lifeTime hle t' ht'
    rw [purge_of_le ht' hle]
    rfl
  unfold blacklisted
  cases hsrc : purge c now t src with
  | none =>
      apply hnew (c.activeRouteTimeout + now) (le_add_of_nonneg_left (Int.natCast_nonneg _))
      rw [updateRouteToNeighbor, lookupRoute, hsrc]
      dsimp only
      rw [addRoute, purge_idem, hsrc, if_neg (by decide), Function.update_self]
  | some x =>
      rw [Option.map_some, Option.getD_some]
      by_cases hkeeps : keepsNeighbor x dev = true
      · rw [updateRouteToNeighbor, lookupRoute, hsrc]
        dsimp only
        rw [if_pos hkeeps, purge_idem, hsrc, hkeeps]
        rfl
      · obtain ⟨lifeTime, hle, hreset⟩ := updateRouteToNeighbor_reset hsrc hkeeps
        rw [hnew lifeTime hle _ hreset, Bool.eq_false_of_not_eq_true hkeeps]
        rfl

/-! ## Requests -/

section Request

variable {h : RreqHeader} {duplicate : Bool} {src : Ipv4Address}

/-- A request that is ignored, or that was originated by another node, leaves an entry. -/
theorem recvRequest_stays (hd : t d = some x) (hle : now ≤ x.lifeTime)
    (hignored : d = h.origin → ((purge c now t src).map
      RoutingTableEntry.blackListState).getD false = true ∨ duplicate = true) :
    recvRequest c now t h duplicate src dev d = some x := by
  have hpurged : purge c now t d = some x := purge_of_le hd hle
  have hagain : purge c now (purge c now t) d = some x := purge_of_le hpurged hle
  unfold recvRequest lookupRoute
  dsimp only
  split
  · exact hpurged
  next hnot =>
    rw [Bool.not_eq_true, Bool.or_eq_false_iff] at hnot
    have hne : d ≠ h.origin := fun heq => by
      rcases hignored heq with hblack | hduplicate
      · rw [hnot.1] at hblack
        cases hblack
      · rw [hnot.2] at hduplicate
        cases hduplicate
    cases purge c now (purge c now t) h.origin with
    | none =>
        apply purge_of_le _ hle
        rw [addRoute_of_ne hne, purge_idem]
        exact hagain
    | some toOrigin =>
        apply purge_of_le _ hle
        rw [update_of_ne hne]
        exact hagain

/-- A request that is not ignored sets the reverse route. -/
theorem recvRequest_origin (hd : t h.origin = some x) (hle : now ≤ x.lifeTime)
    (hblack : ((purge c now t src).map RoutingTableEntry.blackListState).getD false = false)
    (hduplicate : duplicate = false) :
    recvRequest c now t h duplicate src dev h.origin =
      some (reverseRoute c now x h (h.hopCount + 1) src dev) := by
  have hpurged : purge c now t h.origin = some x := purge_of_le hd hle
  have hagain : purge c now (purge c now t) h.origin = some x := purge_of_le hpurged hle
  unfold recvRequest lookupRoute
  dsimp only
  rw [hblack, hduplicate, Bool.or_false, if_neg Bool.false_ne_true, hagain]
  dsimp only
  apply purge_of_le
  · exact update_self hagain
  · have hmax := le_max_right (2 * c.netTraversalTime -
      2 * ((h.hopCount + 1).toNat : ℤ) * c.nodeTraversalTime) (x.lifeTime - now)
    unfold reverseRoute
    dsimp only
    omega

end Request

/-! ## Replies -/

section Reply

variable {h : RrepHeader} {hop : UInt8}

theorem processHello_dst (hd : t h.dst = some x) (hle : now ≤ x.lifeTime) :
    processHello c now t h dev h.dst = some { x with
      lifeTime := max c.helloLifeTime (x.lifeTime - now) + now
      seqNo := h.dstSeqno
      validSeqNo := true
      flag := .VALID
      outputDevice := dev } := by
  have hpurged : purge c now t h.dst = some x := purge_of_le hd hle
  unfold processHello lookupRoute
  rw [hpurged]
  exact update_self hpurged

theorem processHello_of_ne (hd : t d = some x) (hle : now ≤ x.lifeTime) (hne : d ≠ h.dst) :
    processHello c now t h dev d = some x := by
  have hpurged : purge c now t d = some x := purge_of_le hd hle
  unfold processHello lookupRoute
  cases purge c now t h.dst with
  | none =>
      refine (addRoute_of_ne hne).trans ?_
      rw [purge_idem]
      exact hpurged
  | some toNeighbor => exact (update_of_ne hne).trans hpurged

theorem forwardRoute_dst (hd : t h.dst = some x) (hle : now ≤ x.lifeTime)
    (hvalid : x.flag = .VALID) :
    forwardRoute c now t h hop sender dev h.dst =
      some (if replyUpdates x h hop then
        .new dev true h.dstSeqno hop.toUInt16 sender (h.lifeTime + now) else x) := by
  have hpurged : purge c now t h.dst = some x := purge_of_le hd hle
  unfold forwardRoute lookupRoute
  rw [hpurged]
  dsimp only
  rw [hvalid, decide_eq_false (by decide), Bool.and_false, if_neg Bool.false_ne_true]
  split
  · exact update_self hpurged
  · exact hpurged

theorem forwardRoute_of_ne (hd : t d = some x) (hle : now ≤ x.lifeTime) (hne : d ≠ h.dst) :
    forwardRoute c now t h hop sender dev d = some x := by
  have hpurged : purge c now t d = some x := purge_of_le hd hle
  unfold forwardRoute lookupRoute
  cases purge c now t h.dst with
  | none =>
      refine (addRoute_of_ne hne).trans ?_
      rw [purge_idem]
      exact hpurged
  | some toDst =>
      dsimp only
      split <;> split
      · rw [update_of_ne hne, update_of_ne hne]
        exact hpurged
      · rw [update_of_ne hne]
        exact hpurged
      · rw [update_of_ne hne]
        exact hpurged
      · exact hpurged

/-- Refreshing changes the lifetime of an entry at most. -/
theorem refreshOrigin_eq (hd : t d = some x) (hle : now ≤ x.lifeTime) :
    ∃ lifeTime, refreshOrigin c now t h d = some { x with lifeTime := lifeTime } := by
  have hpurged : purge c now t d = some x := purge_of_le hd hle
  unfold refreshOrigin lookupRoute
  split
  · exact ⟨x.lifeTime, hpurged⟩
  · cases horigin : purge c now t h.origin with
    | none => exact ⟨x.lifeTime, hpurged⟩
    | some toOrigin =>
        dsimp only
        split
        · exact ⟨x.lifeTime, hpurged⟩
        · by_cases heq : d = h.origin
          · rw [heq] at hpurged
            obtain rfl := Option.some.inj (horigin.symm.trans hpurged)
            refine ⟨max (c.activeRouteTimeout : ℤ) (toOrigin.lifeTime - now) + now,
              purge_of_le ?_ ?_⟩
            · rw [heq]
              exact update_self hpurged
            · have hmax := le_max_right (c.activeRouteTimeout : ℤ) (toOrigin.lifeTime - now)
              dsimp only
              omega
          · refine ⟨x.lifeTime, purge_of_le ?_ hle⟩
            rw [update_of_ne heq]
            exact hpurged

end Reply

/-! ## The other handlers keep the numbers -/

/-- Two entries agree in the sequence number and its validity. -/
def SameSeq (e x : RoutingTableEntry) : Prop := e.seqNo = x.seqNo ∧ e.validSeqNo = x.validSeqNo

/-- One entry read twice. -/
theorem sameSeq_of_eq_some {o : Option RoutingTableEntry} (hx : o = some x) (he : o = some e) :
    SameSeq e x := by
  rw [Option.some.inj (he.symm.trans hx)]
  exact ⟨rfl, rfl⟩

/-- What a purge finds valid was in the table. -/
theorem of_purge_valid (hd : purge c now t d = some e) (hvalid : e.flag = .VALID) :
    t d = some e := by
  obtain ⟨x, hx, hpurge⟩ := Option.bind_eq_some_iff.mp hd
  unfold RoutingTableEntry.purge at hpurge
  split at hpurge
  · split at hpurge
    next => cases hpurge
    next hflag =>
      obtain rfl := Option.some.inj hpurge
      rw [RoutingTableEntry.invalidate, if_neg (by rw [hflag]; decide)] at hvalid
      cases hvalid
    next => rw [hx, Option.some.inj hpurge]
  · rw [hx, Option.some.inj hpurge]

theorem sameSeq_invalidate (x : RoutingTableEntry) (lifeTime : ℤ) :
    SameSeq (x.invalidate lifeTime) x := by
  unfold RoutingTableEntry.invalidate
  split <;> exact ⟨rfl, rfl⟩

theorem sameSeq_invalidateRoutesWithDst (hd : purge c now t d = some x)
    {unreachable : Ipv4Address → Bool}
    (he : invalidateRoutesWithDst c now t unreachable d = some e) : SameSeq e x := by
  unfold invalidateRoutesWithDst at he
  rw [hd, Option.map_some] at he
  obtain rfl := Option.some.inj he
  split
  · exact sameSeq_invalidate x _
  · exact ⟨rfl, rfl⟩

theorem sameSeq_recvError (hd : purge c now t d = some x) {unreachable : Ipv4Address → Bool}
    (he : recvError c now t unreachable id d = some e) : SameSeq e x :=
  sameSeq_invalidateRoutesWithDst hd he

/-- An entry that is written back with other fields. -/
theorem sameSeq_update (hd : t d = some x) {f : RoutingTableEntry → RoutingTableEntry}
    (hf : ∀ y, SameSeq (f y) y) {y : RoutingTableEntry} (hy : t id = some y)
    (he : update t id (f y) d = some e) : SameSeq e x := by
  by_cases hid : d = id
  · rw [hid] at hd he
    rw [update_self hy] at he
    obtain rfl := Option.some.inj (hy.symm.trans hd)
    rw [← Option.some.inj he]
    exact hf y
  · rw [update_of_ne hid] at he
    exact sameSeq_of_eq_some hd he

theorem sameSeq_recvReplyAck (hd : purge c now t d = some x)
    (he : recvReplyAck c now t id d = some e) : SameSeq e x := by
  unfold recvReplyAck lookupRoute at he
  cases hid : purge c now t id with
  | none =>
      rw [hid] at he
      exact sameSeq_of_eq_some hd he
  | some y =>
      rw [hid] at he
      exact sameSeq_update hd (f := fun y => { y with flag := .VALID }) (fun _ => ⟨rfl, rfl⟩) hid he

theorem sameSeq_sendRequest (hd : purge c now t d = some x)
    (he : sendRequest c now t id d = some e) : SameSeq e x := by
  unfold sendRequest lookupRoute at he
  cases hid : purge c now t id with
  | none =>
      rw [hid] at he
      have hne : d ≠ id := fun heq => by
        rw [heq, hid] at hd
        cases hd
      replace he := (addRoute_of_ne hne).symm.trans he
      rw [purge_idem] at he
      exact sameSeq_of_eq_some hd he
  | some y =>
      rw [hid] at he
      exact sameSeq_update hd (f := fun y => { y with flag := .IN_SEARCH }) (fun _ => ⟨rfl, rfl⟩)
        hid he

theorem sameSeq_updateRouteLifeTime (hd : purge c now t d = some x) {lifetime : ℤ}
    (he : updateRouteLifeTime c now t id lifetime d = some e) : SameSeq e x := by
  unfold updateRouteLifeTime lookupRoute at he
  cases hid : purge c now t id with
  | none =>
      rw [hid] at he
      exact sameSeq_of_eq_some hd he
  | some y =>
      rw [hid] at he
      dsimp only at he
      split at he
      · exact sameSeq_update hd
          (f := fun y => { y with lifeTime := max lifetime (y.lifeTime - now) + now })
          (fun _ => ⟨rfl, rfl⟩) hid he
      · exact sameSeq_of_eq_some hd he

theorem sameSeq_breakLink (hd : purge c now t d = some x)
    (he : breakLink c now t id d = some e) : SameSeq e x := by
  unfold breakLink lookupRoute at he
  cases hid : purge c now t id with
  | none =>
      rw [hid] at he
      exact sameSeq_of_eq_some hd he
  | some y =>
      rw [hid] at he
      apply sameSeq_invalidateRoutesWithDst _ he
      rw [purge_idem]
      exact hd

end RoutingTable

end Ns3Rdma.Aodv
