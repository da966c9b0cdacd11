import Ns3Rdma.Lib.StepSystem
import Ns3Rdma.Aodv.Entries

/-!
# Fresh routes and late messages

A route with a valid sequence number is replaced by a fresher one only, if the handler compares.
The handler of replies does, the handlers of requests and of hello messages do not, and a message
that comes directly from its originator may meet an entry that was just set back.
-/

namespace Ns3Rdma.Aodv

open StepSystem

/-! ## Sequence numbers -/

@[simp] theorem seqDiff_self (a : UInt32) : seqDiff a a = 0 := by
  rw [seqDiff, UInt32.sub_self]
  rfl

/-- A message with a number and a hop count is better than an entry. -/
def Fresher (seqno : UInt32) (hops : UInt16) (e : RoutingTableEntry) : Prop :=
  0 < seqDiff seqno e.seqNo ∨ seqno = e.seqNo ∧ hops < e.hops

/-! ## Runs of a node -/

structure Node where
  now : ℤ
  table : RoutingTable

namespace Node

open RoutingTable

inductive Event where
  | recvAodv (msg : Message) (sender : Ipv4Address) (dev : ℕ)
  | sendRequest (dst : Ipv4Address)
  | deleteRoute (dst : Ipv4Address)
  | updateRouteLifeTime (addr : Ipv4Address) (lifetime : ℤ)
  | breakLink (nextHop : Ipv4Address)
  | ackTimerExpire (neighbor : Ipv4Address)
  | advance (delay : ℕ)

variable (c : AodvConfig) (s : Node)

def step : Event → Option Node
  | .recvAodv msg sender dev => some { s with table := recvAodv c s.now s.table msg sender dev }
  | .sendRequest dst => some { s with table := sendRequest c s.now s.table dst }
  | .deleteRoute dst => some { s with table := deleteRoute c s.now s.table dst }
  | .updateRouteLifeTime addr lifetime =>
      some { s with table := updateRouteLifeTime c s.now s.table addr lifetime }
  | .breakLink nextHop => some { s with table := breakLink c s.now s.table nextHop }
  | .ackTimerExpire neighbor =>
      some { s with table := markLinkAsUnidirectional s.table neighbor }
  | .advance delay => some { s with now := s.now + delay }

/-- The number and the hop count that a message carries for a destination. -/
def Event.carried : Event → Option (Ipv4Address × UInt32 × UInt16)
  | .recvAodv (.rreq h _) _ _ => some (h.origin, h.originSeqno, (h.hopCount + 1).toUInt16)
  | .recvAodv (.rrep h) _ _ => some (h.dst, h.dstSeqno, (h.hopCount + 1).toUInt16)
  | _ => none

/-- The table has a valid route with a valid sequence number. -/
structure HasRoute (d : Ipv4Address) (e : RoutingTableEntry) : Prop where
  found : purge c s.now s.table d = some e
  valid : e.flag = .VALID
  validSeqNo : e.validSeqNo = true

/-- A message for the destination changes the next hop only if it is fresher than the entry, and
then the entry gets better. The sequence number does not decrease. -/
def Improves (event : Event) (d : Ipv4Address) (e e' : RoutingTableEntry) : Prop :=
  (∀ seqno hops, event.carried = some (d, seqno, hops) → e'.nextHop ≠ e.nextHop →
    Fresher seqno hops e ∧ (e'.validSeqNo = true → Fresher e'.seqNo e'.hops e)) ∧
  (e'.flag = .VALID → e'.validSeqNo = true → 0 ≤ seqDiff e'.seqNo e.seqNo)

/-- No such route is replaced by a staler one. -/
def NeverStaler (event : Event) (next : Node) : Prop :=
  ∀ d e e', s.HasRoute c d e → next.table d = some e' → Improves event d e e'

/-- The destination itself is heard, and its entry is not kept. -/
def SetBack (e : RoutingTableEntry) (d src : Ipv4Address) (dev : ℕ) : Prop :=
  d = src ∧ keepsNeighbor e dev = false

/-- A request is not ignored. -/
def Heeded (duplicate : Bool) (src : Ipv4Address) (dev : ℕ) : Prop :=
  blacklisted c s.now s.table src dev = false ∧ duplicate = false

/-- What the handlers do not test: a request that is heeded, or that sets an entry back, comes from
the next hop or is fresher; a hello message is not older; and a message from an originator whose
entry is set back is neither. -/
def NotLate : Event → Prop
  | .recvAodv (.rreq h duplicate) src dev => ∀ e, s.HasRoute c h.origin e →
      (s.Heeded c duplicate src dev ∨ SetBack e h.origin src dev → e.nextHop ≠ src →
        Fresher h.originSeqno (h.hopCount + 1).toUInt16 e) ∧
      (s.Heeded c duplicate src dev → SetBack e h.origin src dev →
        0 ≤ seqDiff h.originSeqno e.seqNo)
  | .recvAodv (.rrep h) src dev => ∀ e, s.HasRoute c h.dst e →
      (h.dst = h.origin → 0 ≤ seqDiff h.dstSeqno e.seqNo) ∧
      (SetBack e h.dst src dev → 0 ≤ seqDiff h.dstSeqno e.seqNo ∧
        (e.nextHop ≠ src → Fresher h.dstSeqno (h.hopCount + 1).toUInt16 e ∧
          (h.dst = h.origin → Fresher h.dstSeqno 1 e)))
  | _ => True

variable {c s} {next : Node} {d src : Ipv4Address} {dev : ℕ} {e : RoutingTableEntry}

theorem HasRoute.le (h : s.HasRoute c d e) : s.now ≤ e.lifeTime := le_of_purge h.found h.valid

/-- The entry after the sender was noted: it stays or is set back. -/
theorem HasRoute.noted (h : s.HasRoute c d e) (src : Ipv4Address) (dev : ℕ) :
    (¬ SetBack e d src dev ∧ updateRouteToNeighbor c s.now s.table src dev d = some e) ∨
      (SetBack e d src dev ∧ ∃ lifeTime, s.now ≤ lifeTime ∧
        updateRouteToNeighbor c s.now s.table src dev d =
          some (.new dev false 0 1 src lifeTime)) := by
  by_cases hback : SetBack e d src dev
  · obtain ⟨rfl, hkeeps⟩ := hback
    exact Or.inr ⟨⟨rfl, hkeeps⟩,
      updateRouteToNeighbor_reset h.found (by rw [hkeeps]; exact Bool.false_ne_true)⟩
  · refine Or.inl ⟨hback, updateRouteToNeighbor_kept h.found h.le fun heq => ?_⟩
    by_contra hkeeps
    exact hback ⟨heq, Bool.eq_false_of_not_eq_true hkeeps⟩

/-- The entry that the handler of a message sees: its number is the same, or unknown. -/
theorem HasRoute.seen (h : s.HasRoute c d e) (src : Ipv4Address) (dev : ℕ) :
    ∃ x, updateRouteToNeighbor c s.now s.table src dev d = some x ∧ s.now ≤ x.lifeTime ∧
      (x = e ∨ x.validSeqNo = false) := by
  rcases h.noted src dev with ⟨-, hnoted⟩ | ⟨-, lifeTime, hle, hnoted⟩
  · exact ⟨e, hnoted, h.le, Or.inl rfl⟩
  · exact ⟨_, hnoted, hle, Or.inr rfl⟩

/-- What must hold of an entry and its successor if no message for it has arrived. -/
theorem seqDiff_of_sameSeq {x e' : RoutingTableEntry} (hsame : SameSeq e' x)
    (hx : x = e ∨ x.validSeqNo = false) (hvalid : e'.validSeqNo = true) :
    0 ≤ seqDiff e'.seqNo e.seqNo := by
  rcases hx with rfl | hx
  · rw [hsame.1, seqDiff_self]
  · rw [hsame.2, hx] at hvalid
    cases hvalid

theorem improves_iff {event : Event} {seqno : UInt32} {hops : UInt16} {e' : RoutingTableEntry}
    (hcarried : event.carried = some (d, seqno, hops)) :
    Improves event d e e' ↔
      (e'.nextHop ≠ e.nextHop → Fresher seqno hops e ∧
        (e'.validSeqNo = true → Fresher e'.seqNo e'.hops e)) ∧
      (e'.flag = .VALID → e'.validSeqNo = true → 0 ≤ seqDiff e'.seqNo e.seqNo) := by
  refine and_congr_left' ⟨fun h => h seqno hops hcarried, fun h seqno' hops' hcarried' => ?_⟩
  obtain ⟨-, rfl, rfl⟩ := Prod.mk.inj (Option.some.inj (hcarried.symm.trans hcarried')) |>.imp_right
    Prod.mk.inj
  exact h

/-- Without a message for the destination, an entry that keeps its number is fine. -/
theorem improves_of_sameSeq {event : Event} {x e' : RoutingTableEntry}
    (hcarried : ∀ seqno hops, event.carried ≠ some (d, seqno, hops)) (hsame : SameSeq e' x)
    (hx : x = e ∨ x.validSeqNo = false) : Improves event d e e' :=
  ⟨fun seqno hops h => absurd h (hcarried seqno hops),
    fun _ hvalid => seqDiff_of_sameSeq hsame hx hvalid⟩

/-- A message: what it does to the entry of its destination, and that the others are fine. -/
theorem neverStaler_iff_of {msg : Message} {d₀ : Ipv4Address} {seqno : UInt32} {hops : UInt16}
    {Q : RoutingTableEntry → Prop}
    (hcarried : Event.carried (.recvAodv msg src dev) = some (d₀, seqno, hops))
    (hat : ∀ e, s.HasRoute c d₀ e →
      ∃ e', next.table d₀ = some e' ∧ (Improves (.recvAodv msg src dev) d₀ e e' ↔ Q e))
    (helse : ∀ d x, d ≠ d₀ → updateRouteToNeighbor c s.now s.table src dev d = some x →
      s.now ≤ x.lifeTime → ∃ e', next.table d = some e' ∧ SameSeq e' x) :
    s.NeverStaler c (.recvAodv msg src dev) next ↔ ∀ e, s.HasRoute c d₀ e → Q e := by
  constructor
  · intro h e hroute
    obtain ⟨e', hnext, hiff⟩ := hat e hroute
    exact hiff.mp (h d₀ e e' hroute hnext)
  · intro h d e e' hroute hnext
    by_cases hd : d = d₀
    · rw [hd] at hroute hnext ⊢
      obtain ⟨e'', hnext', hiff⟩ := hat e hroute
      obtain rfl := Option.some.inj (hnext'.symm.trans hnext)
      exact hiff.mpr (h e hroute)
    · obtain ⟨x, hx, hle, hor⟩ := hroute.seen src dev
      obtain ⟨e'', hnext', hsame⟩ := helse d x hd hx hle
      obtain rfl := Option.some.inj (hnext'.symm.trans hnext)
      refine improves_of_sameSeq (fun seqno' hops' heq => hd ?_) hsame hor
      exact (Prod.mk.inj (Option.some.inj (heq.symm.trans hcarried))).1

/-! ## Requests -/

section Request

variable {h : RreqHeader} {duplicate : Bool}

theorem heeded_iff :
    s.Heeded c duplicate src dev ↔
      ((purge c s.now (updateRouteToNeighbor c s.now s.table src dev) src).map
        RoutingTableEntry.blackListState).getD false = false ∧ duplicate = false := by
  rw [blacklisted_eq]
  rfl

/-- The reverse route over another next hop is better exactly if the request is fresher. -/
theorem improves_reverseRoute (hvalid : e.validSeqNo = true) :
    Improves (.recvAodv (.rreq h duplicate) src dev) h.origin e
        (reverseRoute c s.now e h (h.hopCount + 1) src dev) ↔
      (e.nextHop ≠ src → Fresher h.originSeqno (h.hopCount + 1).toUInt16 e) := by
  rw [improves_iff rfl]
  simp only [reverseRoute, hvalid, if_true]
  have hnumber : 0 ≤ seqDiff (if 0 < seqDiff h.originSeqno e.seqNo then h.originSeqno
      else e.seqNo) e.seqNo := by
    split
    next hnewer => exact le_of_lt hnewer
    next => rw [seqDiff_self]
  constructor
  · rintro ⟨hchange, -⟩ hne
    exact (hchange (Ne.symm hne)).1
  · intro hfresh
    refine ⟨fun hne => ?_, fun _ _ => hnumber⟩
    have hfresher := hfresh (Ne.symm hne)
    refine ⟨hfresher, fun _ => ?_⟩
    rcases hfresher with hnewer | ⟨heq, hhops⟩
    · left
      rw [if_pos hnewer]
      exact hnewer
    · right
      refine ⟨?_, hhops⟩
      split
      · exact heq
      · rfl

/-- The reverse route after the entry was set back carries what the request says. -/
theorem improves_reverseRoute_new {lifeTime : ℤ} :
    Improves (.recvAodv (.rreq h duplicate) src dev) h.origin e
        (reverseRoute c s.now (.new dev false 0 1 src lifeTime) h (h.hopCount + 1) src dev) ↔
      (e.nextHop ≠ src → Fresher h.originSeqno (h.hopCount + 1).toUInt16 e) ∧
        0 ≤ seqDiff h.originSeqno e.seqNo := by
  rw [improves_iff rfl]
  simp only [reverseRoute, RoutingTableEntry.new, Bool.false_eq_true, if_false, true_implies]
  apply and_congr_left
  intro _
  constructor
  · intro hchange hne
    exact (hchange (Ne.symm hne)).1
  · intro hfresh hne
    exact ⟨hfresh (Ne.symm hne), hfresh (Ne.symm hne)⟩

theorem improves_new {lifeTime : ℤ} :
    Improves (.recvAodv (.rreq h duplicate) src dev) h.origin e
        (.new dev false 0 1 src lifeTime) ↔
      (e.nextHop ≠ src → Fresher h.originSeqno (h.hopCount + 1).toUInt16 e) := by
  rw [improves_iff rfl]
  simp only [RoutingTableEntry.new, Bool.false_eq_true, false_implies, and_true, implies_true]
  exact imp_congr_left ne_comm

theorem neverStaler_request
    (hnext : next.table =
      recvAodv c s.now s.table (.rreq h duplicate) src dev) :
    s.NeverStaler c (.recvAodv (.rreq h duplicate) src dev) next ↔
      s.NotLate c (.recvAodv (.rreq h duplicate) src dev) := by
  apply neverStaler_iff_of rfl
  · intro e hroute
    rw [hnext]
    dsimp only [recvAodv]
    by_cases hheeded : s.Heeded c duplicate src dev
    · obtain ⟨hblack, hduplicate⟩ := heeded_iff.mp hheeded
      rcases hroute.noted src dev with ⟨hstays, hnoted⟩ | ⟨hback, lifeTime, hle, hnoted⟩
      · refine ⟨_, recvRequest_origin hnoted hroute.le hblack hduplicate, ?_⟩
        rw [improves_reverseRoute hroute.validSeqNo]
        simp only [hheeded, hstays, true_or, true_implies, false_implies, implies_true, and_true]
      · refine ⟨_, recvRequest_origin hnoted hle hblack hduplicate, ?_⟩
        rw [improves_reverseRoute_new]
        simp only [hheeded, hback, true_or, true_implies]
    · have hignored : ((purge c s.now (updateRouteToNeighbor c s.now s.table src dev) src).map
          RoutingTableEntry.blackListState).getD false = true ∨ duplicate = true := by
        by_contra hnot
        rw [not_or, Bool.not_eq_true, Bool.not_eq_true] at hnot
        exact hheeded (heeded_iff.mpr hnot)
      rcases hroute.noted src dev with ⟨hstays, hnoted⟩ | ⟨hback, lifeTime, hle, hnoted⟩
      · refine ⟨_, recvRequest_stays hnoted hroute.le fun _ => hignored, ?_⟩
        simp only [hheeded, hstays, false_or, false_implies, and_self, iff_true]
        rw [improves_iff rfl, seqDiff_self]
        exact ⟨fun hne => absurd rfl hne, fun _ _ => le_refl _⟩
      · refine ⟨_, recvRequest_stays hnoted hle fun _ => hignored, ?_⟩
        rw [improves_new]
        simp only [hheeded, hback, or_true, true_implies, false_implies, and_true]
  · intro d x hne hd hle
    rw [hnext]
    exact ⟨x, recvRequest_stays hd hle fun heq => absurd heq hne, rfl, rfl⟩

end Request

/-! ## Replies -/

section Reply

variable {h : RrepHeader}

/-- A hello message that leaves the next hop. -/
theorem improves_hello_kept {lifeTime : ℤ} :
    Improves (.recvAodv (.rrep h) src dev) h.dst e
        { e with lifeTime := lifeTime, seqNo := h.dstSeqno, validSeqNo := true, flag := .VALID,
                 outputDevice := dev } ↔ 0 ≤ seqDiff h.dstSeqno e.seqNo := by
  rw [improves_iff rfl]
  constructor
  · intro himproves
    exact himproves.2 rfl rfl
  · intro hnumber
    exact ⟨fun hne => absurd rfl hne, fun _ _ => hnumber⟩

/-- An entry that was set back and then given the number of a message. -/
theorem improves_numbered {hops : UInt16} {lifeTime : ℤ} :
    Improves (.recvAodv (.rrep h) src dev) h.dst e
        (.new dev true h.dstSeqno hops src lifeTime) ↔
      0 ≤ seqDiff h.dstSeqno e.seqNo ∧ (e.nextHop ≠ src →
        Fresher h.dstSeqno (h.hopCount + 1).toUInt16 e ∧ Fresher h.dstSeqno hops e) := by
  rw [improves_iff rfl]
  simp only [RoutingTableEntry.new, true_implies]
  rw [and_comm, ne_comm]

/-- A reply meets the four circumstances only if it is fresher than a valid route. -/
theorem replyUpdates_iff {hop : UInt8} (hvalid : e.flag = .VALID) (hseq : e.validSeqNo = true) :
    replyUpdates e h hop = true ↔ Fresher h.dstSeqno hop.toUInt16 e := by
  rw [replyUpdates, hvalid, hseq, Fresher]
  simp

/-- The entry of a valid route after a reply. -/
theorem improves_reply {lifeTime : ℤ} (hvalid : e.flag = .VALID) (hseq : e.validSeqNo = true) :
    Improves (.recvAodv (.rrep h) src dev) h.dst e
      { (if replyUpdates e h (h.hopCount + 1) then
          .new dev true h.dstSeqno (h.hopCount + 1).toUInt16 src (h.lifeTime + s.now)
        else e) with lifeTime := lifeTime } := by
  rw [improves_iff rfl]
  by_cases hupdates : replyUpdates e h (h.hopCount + 1) = true
  · have hfresher := (replyUpdates_iff hvalid hseq).mp hupdates
    simp only [hupdates, if_true, RoutingTableEntry.new]
    refine ⟨fun _ => ⟨hfresher, fun _ => hfresher⟩, fun _ _ => ?_⟩
    rcases hfresher with hnewer | ⟨heq, -⟩
    · exact le_of_lt hnewer
    · rw [heq, seqDiff_self]
  · simp only [hupdates, Bool.false_eq_true, if_false]
    refine ⟨fun hne => absurd rfl hne, fun _ _ => ?_⟩
    rw [seqDiff_self]

theorem neverStaler_hello (hhello : h.dst = h.origin)
    (hnext : next.table = recvAodv c s.now s.table (.rrep h) src dev) :
    s.NeverStaler c (.recvAodv (.rrep h) src dev) next ↔
      s.NotLate c (.recvAodv (.rrep h) src dev) := by
  have htable : next.table =
      processHello c s.now (updateRouteToNeighbor c s.now s.table src dev) h dev := by
    rw [hnext]
    exact if_pos hhello
  apply neverStaler_iff_of rfl
  · intro e hroute
    rw [htable, iff_true_intro hhello]
    simp only [true_implies]
    rcases hroute.noted src dev with ⟨hstays, hnoted⟩ | ⟨hback, lifeTime, hle, hnoted⟩
    · refine ⟨_, processHello_dst hnoted hroute.le, ?_⟩
      rw [improves_hello_kept]
      simp only [hstays, false_implies, and_true]
    · refine ⟨.new dev true h.dstSeqno 1 src _, processHello_dst hnoted hle, ?_⟩
      rw [improves_numbered]
      simp only [hback, true_implies]
      exact ⟨fun himproves => ⟨himproves.1, himproves⟩, fun hlate => hlate.2⟩
  · intro d x hne hd hle
    rw [htable]
    exact ⟨x, processHello_of_ne hd hle hne, rfl, rfl⟩

theorem neverStaler_reply (hreply : h.dst ≠ h.origin)
    (hnext : next.table = recvAodv c s.now s.table (.rrep h) src dev) :
    s.NeverStaler c (.recvAodv (.rrep h) src dev) next ↔
      s.NotLate c (.recvAodv (.rrep h) src dev) := by
  have htable : next.table = refreshOrigin c s.now (forwardRoute c s.now
      (updateRouteToNeighbor c s.now s.table src dev) h (h.hopCount + 1) src dev) h := by
    rw [hnext]
    exact if_neg hreply
  have hnew : s.now ≤ h.lifeTime + s.now := le_add_of_nonneg_left (Int.natCast_nonneg _)
  apply neverStaler_iff_of rfl
  · intro e hroute
    rw [htable, iff_false_intro hreply]
    simp only [false_implies, true_and, and_true]
    rcases hroute.noted src dev with ⟨hstays, hnoted⟩ | ⟨hback, lifeTime, hle, hnoted⟩
    · have hforward : forwardRoute c s.now (updateRouteToNeighbor c s.now s.table src dev) h
          (h.hopCount + 1) src dev h.dst = some (if replyUpdates e h (h.hopCount + 1) then
            .new dev true h.dstSeqno (h.hopCount + 1).toUInt16 src (h.lifeTime + s.now) else e) :=
        forwardRoute_dst hnoted hroute.le hroute.valid
      obtain ⟨lifeTime, hrefresh⟩ := refreshOrigin_eq (c := c) (h := h) hforward (by
        split
        · exact hnew
        · exact hroute.le)
      refine ⟨_, hrefresh, ?_⟩
      simp only [hstays, false_implies, iff_true]
      exact improves_reply hroute.valid hroute.validSeqNo
    · have hforward : forwardRoute c s.now (updateRouteToNeighbor c s.now s.table src dev) h
          (h.hopCount + 1) src dev h.dst = some (.new dev true h.dstSeqno
            (h.hopCount + 1).toUInt16 src (h.lifeTime + s.now)) :=
        forwardRoute_dst hnoted hle rfl
      obtain ⟨lifeTime', hrefresh⟩ := refreshOrigin_eq (c := c) (h := h) hforward hnew
      refine ⟨.new dev true h.dstSeqno (h.hopCount + 1).toUInt16 src lifeTime', hrefresh, ?_⟩
      rw [improves_numbered, and_self]
      simp only [hback, true_implies]
  · intro d x hne hd hle
    rw [htable]
    obtain ⟨lifeTime, hrefresh⟩ := refreshOrigin_eq (c := c) (h := h)
      (forwardRoute_of_ne hd hle hne) hle
    exact ⟨_, hrefresh, rfl, rfl⟩

theorem neverStaler_rrep
    (hnext : next.table = recvAodv c s.now s.table (.rrep h) src dev) :
    s.NeverStaler c (.recvAodv (.rrep h) src dev) next ↔
      s.NotLate c (.recvAodv (.rrep h) src dev) := by
  by_cases hhello : h.dst = h.origin
  · exact neverStaler_hello hhello hnext
  · exact neverStaler_reply hhello hnext

end Reply

/-! ## The other events -/

/-- An event without a message for a destination is fine if it keeps the numbers. -/
theorem neverStaler_of_sameSeq {event : Event} (hcarried : event.carried = none)
    (hsame : ∀ d e e', s.HasRoute c d e → next.table d = some e' →
      ∃ x, SameSeq e' x ∧ (x = e ∨ x.validSeqNo = false)) : s.NeverStaler c event next := by
  intro d e e' hroute hd
  obtain ⟨x, hx, hor⟩ := hsame d e e' hroute hd
  refine improves_of_sameSeq (fun seqno hops heq => ?_) hx hor
  rw [hcarried] at heq
  cases heq

theorem sameSeq_markLinkAsUnidirectional {t : RoutingTable} {id : Ipv4Address}
    {x e' : RoutingTableEntry} (hd : t d = some x)
    (he : markLinkAsUnidirectional t id d = some e') : SameSeq e' x := by
  rw [markLinkAsUnidirectional, hd, Option.map_some] at he
  rw [← Option.some.inj he]
  split <;> exact ⟨rfl, rfl⟩

theorem sameSeq_deleteRoute {now : ℤ} {t : RoutingTable} {id : Ipv4Address}
    {x e' : RoutingTableEntry} (hd : purge c now t d = some x)
    (he : deleteRoute c now t id d = some e') : SameSeq e' x := by
  by_cases hid : d = id
  · rw [deleteRoute, hid, Function.update_self] at he
    cases he
  · rw [deleteRoute, Function.update_of_ne hid] at he
    exact sameSeq_of_eq_some hd he

/-- What one event does: no route is replaced by a staler one exactly if its message is not late. -/
theorem neverStaler_iff_notLate_of_step {event : Event} (hstep : s.step c event = some next) :
    s.NeverStaler c event next ↔ s.NotLate c event := by
  cases event with
  | recvAodv msg src dev =>
      obtain rfl := Option.some.inj hstep
      cases msg with
      | rreq h duplicate => exact neverStaler_request rfl
      | rrep h => exact neverStaler_rrep rfl
      | rerr unreachable =>
          refine iff_of_true (neverStaler_of_sameSeq rfl fun d e e' hroute hd => ?_) trivial
          obtain ⟨x, hx, hle, hor⟩ := hroute.seen src dev
          exact ⟨x, sameSeq_recvError (purge_of_le hx hle) hd, hor⟩
      | rrepAck =>
          refine iff_of_true (neverStaler_of_sameSeq rfl fun d e e' hroute hd => ?_) trivial
          obtain ⟨x, hx, hle, hor⟩ := hroute.seen src dev
          exact ⟨x, sameSeq_recvReplyAck (purge_of_le hx hle) hd, hor⟩
  | sendRequest dst =>
      obtain rfl := Option.some.inj hstep
      refine iff_of_true (neverStaler_of_sameSeq rfl fun d e e' hroute hd => ?_) trivial
      exact ⟨e, sameSeq_sendRequest hroute.found hd, Or.inl rfl⟩
  | deleteRoute dst =>
      obtain rfl := Option.some.inj hstep
      refine iff_of_true (neverStaler_of_sameSeq rfl fun d e e' hroute hd => ?_) trivial
      exact ⟨e, sameSeq_deleteRoute hroute.found hd, Or.inl rfl⟩
  | updateRouteLifeTime addr lifetime =>
      obtain rfl := Option.some.inj hstep
      refine iff_of_true (neverStaler_of_sameSeq rfl fun d e e' hroute hd => ?_) trivial
      exact ⟨e, sameSeq_updateRouteLifeTime hroute.found hd, Or.inl rfl⟩
  | breakLink nextHop =>
      obtain rfl := Option.some.inj hstep
      refine iff_of_true (neverStaler_of_sameSeq rfl fun d e e' hroute hd => ?_) trivial
      exact ⟨e, sameSeq_breakLink hroute.found hd, Or.inl rfl⟩
  | ackTimerExpire neighbor =>
      obtain rfl := Option.some.inj hstep
      refine iff_of_true (neverStaler_of_sameSeq rfl fun d e e' hroute hd => ?_) trivial
      have hraw : s.table d = some e := of_purge_valid hroute.found hroute.valid
      exact ⟨e, sameSeq_markLinkAsUnidirectional hraw hd, Or.inl rfl⟩
  | advance delay =>
      obtain rfl := Option.some.inj hstep
      refine iff_of_true (neverStaler_of_sameSeq rfl fun d e e' hroute hd => ?_) trivial
      have hraw : s.table d = some e := of_purge_valid hroute.found hroute.valid
      obtain rfl := Option.some.inj (hraw.symm.trans hd)
      exact ⟨e, ⟨rfl, rfl⟩, Or.inl rfl⟩

/-- In every run, no valid route is replaced by a staler one exactly if no message is late. -/
theorem neverStaler_iff_notLate (c : AodvConfig) (s : Node) (events : List Event) :
    EachStep (step c) (fun s event next => s.NeverStaler c event next) s events ↔
      EachStep (step c) (fun s event _ => s.NotLate c event) s events := by
  refine eachStep_iff_of_invariant (I := fun _ => True) ?_ ?_ trivial events
  · intro s event next _ hstep
    exact neverStaler_iff_notLate_of_step hstep
  · intro s event next _ _ _
    trivial

/-- The attributes of a node by default, in milliseconds. -/
def defaultConfig (isMyOwnAddress : Ipv4Address → Bool) : AodvConfig where
  activeRouteTimeout := 3000
  badLinkLifetime := 15000
  netTraversalTime := 2800
  nodeTraversalTime := 40
  helloLifeTime := 2000
  isMyOwnAddress := isMyOwnAddress

/-- A request of node 9 over node 1, and then an older one over node 2. -/
def lateRequests : List Event :=
  [.recvAodv (.rreq ⟨1, 9, 5⟩ false) 1 0, .recvAodv (.rreq ⟨3, 9, 3⟩ false) 2 0]

/-- The older request replaces the fresh route. -/
theorem lateRequests_replace :
    ¬ EachStep (step (defaultConfig fun id => id = 4))
      (fun s event next => s.NeverStaler (defaultConfig fun id => id = 4) event next)
      ⟨0, fun _ => none⟩ lateRequests := by
  intro h
  have hsecond := (eachStep_cons.mp (eachStep_cons.mp h _ rfl).2 _ rfl).1
  have hroute : HasRoute (defaultConfig fun id => id = 4)
      ⟨0, recvAodv (defaultConfig fun id => id = 4) 0 (fun _ => none) (.rreq ⟨1, 9, 5⟩ false) 1 0⟩
      9 (.new 0 true 5 2 1 5440) := by
    refine ⟨?_, rfl, rfl⟩
    decide
  have hnext := (hsecond 9 _ (.new 0 true 5 4 2 5440) hroute
    (by decide)).1 3 4 rfl (by decide)
  have hnot : ¬ Fresher 3 4 (.new 0 true 5 2 1 5440) := by
    unfold Fresher
    decide
  exact hnot hnext.1

end Node

end Ns3Rdma.Aodv
