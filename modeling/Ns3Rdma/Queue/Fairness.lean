import Mathlib.Data.List.FinRange
import Ns3Rdma.Lib.Search
import Ns3Rdma.Lib.StepSystem
import Ns3Rdma.Queue.Counters

/-! # Work conservation and fairness of the flow scheduler

`DoDequeueQCN` visits every flow in use, so it finds one that is ready. The cursor stays where a
packet of a flow was taken from, and a flow that stays ready comes nearer to it each time. -/

namespace Ns3Rdma

open StepSystem

namespace BEgressQueue

variable {q next : BEgressQueue} {paused : Fin qCnt → Bool} {avail : Fin fCnt → Nat}
  {findexQindexMap : Fin fCnt → Fin qCnt} {now : Nat} {p : Packet} {i j : Fin fCnt}

/-! ## The search -/

/-- Flow `i` is the `n`-th one that the search visits. -/
def InTurn (q : BEgressQueue) (i : Fin fCnt) (n : Nat) : Prop :=
  1 ≤ n ∧ n ≤ q.fcount ∧ (n + q.rrlast) % q.fcount = i.val

/-- Every flow in use is visited. -/
theorem exists_inTurn (h : i.val < q.fcount) : ∃ n, q.InTurn i n := by
  obtain ⟨r, hr⟩ : ∃ r, r = q.rrlast.val % q.fcount := ⟨_, rfl⟩
  have hlt : r < q.fcount := by
    rw [hr]
    exact Nat.mod_lt _ q.fcount_pos
  have hturn : ∀ n, (n + q.rrlast) % q.fcount = (n + r) % q.fcount := by
    intro n
    rw [hr, Nat.add_mod_mod]
  -- Flows up to the cursor are visited after the ones behind it.
  by_cases hi : r < i.val
  · refine ⟨i.val - r, by omega, by omega, ?_⟩
    rw [hturn, Nat.sub_add_cancel hi.le, Nat.mod_eq_of_lt h]
  · refine ⟨i.val + q.fcount - r, by omega, by omega, ?_⟩
    rw [hturn, Nat.sub_add_cancel (by omega), Nat.add_mod_right, Nat.mod_eq_of_lt h]

/-- The search stops at the first flow that is ready. -/
theorem qcnIndex_inTurn (h : q.qcnIndex paused avail findexQindexMap now = some j) (hj : j ≠ 0) :
    ∃ n, q.InTurn j n ∧ ∀ i m, q.InTurn i m → m < n →
      q.qcnReady paused avail findexQindexMap now i = false := by
  unfold qcnIndex at h
  split at h
  · exact absurd (Option.some.inj h).symm hj
  · rw [List.find?_map, Option.map_eq_some_iff] at h
    obtain ⟨n, hn, rfl⟩ := h
    have : Std.Asymm fun a b : Nat => a < b := ⟨fun _ _ hab => hab.asymm⟩
    obtain ⟨hmem, -, hnone⟩ :=
      (Search.find?_eq_some_iff_of_pairwise List.pairwise_lt_range').mp hn
    obtain ⟨hone, hle⟩ := List.mem_range'_1.mp hmem
    refine ⟨n, ⟨hone, by omega, rfl⟩, fun i m hm hlt => ?_⟩
    obtain ⟨hone', hle', hi⟩ := hm
    have hready := hnone m (List.mem_range'_1.mpr ⟨hone', by omega⟩) hlt
    have hflow : q.qcnFlow m = i := Fin.ext hi
    rw [Function.comp_apply, hflow] at hready
    exact hready

/-- A queue that may be served makes the search find one. -/
theorem qcnIndex_isSome (h : q.nonempty 0 = true ∨
    ∃ i, i.val < q.fcount ∧ q.qcnReady paused avail findexQindexMap now i = true) :
    (q.qcnIndex paused avail findexQindexMap now).isSome = true := by
  unfold qcnIndex
  split
  · rfl
  next hempty =>
    rcases h with hcontrol | ⟨i, hi, hready⟩
    · exact absurd hcontrol hempty
    · obtain ⟨n, hone, hle, hn⟩ := exists_inTurn hi
      rw [List.find?_isSome]
      refine ⟨q.qcnFlow n, List.mem_map_of_mem (List.mem_range'_1.mpr ⟨hone, by omega⟩), ?_⟩
      have hflow : q.qcnFlow n = i := Fin.ext hn
      rw [hflow]
      exact hready

/-- The FIFO that the search finds has a packet. -/
theorem nonempty_of_qcnIndex (h : q.qcnIndex paused avail findexQindexMap now = some i) :
    q.nonempty i = true := by
  unfold qcnIndex at h
  split at h
  next hcontrol =>
    obtain rfl := Option.some.inj h
    exact hcontrol
  next =>
    have hready := List.find?_some h
    simp only [qcnReady, Bool.and_eq_true] at hready
    exact hready.1.2

/-- The FIFO that the search finds is in use. -/
theorem lt_fcount_of_qcnIndex (h : q.qcnIndex paused avail findexQindexMap now = some i) :
    i.val < q.fcount := by
  by_cases hi : i = 0
  · rw [hi]
    exact q.fcount_pos
  · obtain ⟨n, ⟨-, -, hn⟩, -⟩ := qcnIndex_inTurn h hi
    rw [← hn]
    exact Nat.mod_lt _ q.fcount_pos

/-! ## What the call returns -/

/-- The call returns a packet and none of its assertions fails. -/
def Returns (q : BEgressQueue) (paused : Fin qCnt → Bool) (avail : Fin fCnt → Nat)
    (findexQindexMap : Fin fCnt → Fin qCnt) (now : Nat) : Prop :=
  ∃ p next, q.assertedDequeueQCN paused avail findexQindexMap now = some (some (p, next))

/-- A call may serve FIFO `i`: queue 0 while it holds a packet, and else any FIFO in use that
holds one. -/
def MayServe (q : BEgressQueue) (i : Fin fCnt) : Prop :=
  q.nonempty i = true ∧ i.val < q.fcount ∧ (q.nonempty 0 = true → i = 0)

/-- `m_nBytes` and `m_nPackets` count at least the packet at the head of each FIFO that a call
may serve. -/
def CoversHeads (q : BEgressQueue) : Prop :=
  ∀ i p rest, q.MayServe i → (q.queues i).packets = p :: rest → p.size ≤ q.nBytes ∧ 0 < q.nPackets

theorem asserted_eq_some_iff {result : Option (Packet × BEgressQueue)} :
    q.asserted result = some (some (p, next)) ↔
      result = some (p, next) ∧ p.size ≤ q.nBytes ∧ 0 < q.nPackets := by
  cases result with
  | none => exact iff_of_false nofun fun h => nomatch h.1
  | some popped =>
      obtain ⟨p', next'⟩ := popped
      unfold asserted
      dsimp only
      constructor
      · intro h
        split at h
        next hholds =>
          obtain ⟨rfl, rfl⟩ := Prod.mk.inj (Option.some.inj (Option.some.inj h))
          exact ⟨rfl, hholds⟩
        next => cases h
      · rintro ⟨heq, hholds⟩
        obtain ⟨rfl, rfl⟩ := Prod.mk.inj (Option.some.inj heq)
        rw [if_pos hholds]

/-- Of the FIFOs that a call may serve, the search finds one. -/
theorem mayServe_of_qcnIndex (h : q.qcnIndex paused avail findexQindexMap now = some i) :
    q.MayServe i := by
  refine ⟨nonempty_of_qcnIndex h, lt_fcount_of_qcnIndex h, fun hcontrol => ?_⟩
  unfold qcnIndex at h
  rw [if_pos hcontrol] at h
  exact (Option.some.inj h).symm

/-- A FIFO that a call may serve is served when it alone is ready. -/
theorem qcnIndex_of_mayServe (h : q.MayServe i) :
    q.qcnIndex (fun _ => false) (fun j => if j = i then 0 else 1) (fun _ => 0) 0 = some i := by
  obtain ⟨hnonempty, hlt, honly⟩ := h
  have hready : q.qcnReady (fun _ => false) (fun j => if j = i then 0 else 1) (fun _ => 0) 0 i =
      true := by
    simp [qcnReady, hnonempty]
  obtain ⟨k, hk⟩ := Option.isSome_iff_exists.mp (qcnIndex_isSome (Or.inr ⟨i, hlt, hready⟩))
  rw [hk]
  unfold qcnIndex at hk
  split at hk
  next hcontrol => rw [← hk, honly hcontrol]
  next =>
    have hfound := List.find?_some hk
    by_contra hne
    have hki : k ≠ i := fun heq => hne (congrArg some heq)
    simp [qcnReady, hki] at hfound

/-- The call returns the head of the FIFO that the search finds, if the counters cover it. -/
theorem returns_iff (htotal : q.bytesInQueueTotal ≠ 0)
    (h : q.qcnIndex paused avail findexQindexMap now = some i) :
    q.Returns paused avail findexQindexMap now ↔
      ∀ p rest, (q.queues i).packets = p :: rest → p.size ≤ q.nBytes ∧ 0 < q.nPackets := by
  have hdequeue : q.dequeueQCN paused avail findexQindexMap now =
      q.popFrom i (if i = 0 then q.rrlast else i) i := by
    unfold dequeueQCN
    rw [if_neg htotal, h, Option.bind_some]
  unfold Returns assertedDequeueQCN
  rw [hdequeue]
  constructor
  · rintro ⟨p, next, hreturned⟩ p' rest' hhead
    obtain ⟨hpop, hholds⟩ := asserted_eq_some_iff.mp hreturned
    obtain ⟨rest, hpackets, -⟩ := popFrom_eq_some.mp hpop
    obtain ⟨rfl, -⟩ := List.cons.inj (hpackets.symm.trans hhead)
    exact hholds
  · intro hcovers
    obtain ⟨p, next, hpop⟩ := popFrom_isSome (nonempty_of_qcnIndex h)
      (if i = 0 then q.rrlast else i) i
    obtain ⟨rest, hpackets, -⟩ := popFrom_eq_some.mp hpop
    exact ⟨p, next, asserted_eq_some_iff.mpr ⟨hpop, hcovers p rest.packets hpackets⟩⟩

/-- Every call that finds a FIFO returns its packet exactly if the counters cover the heads. -/
theorem returns_all_iff (htotal : q.bytesInQueueTotal ≠ 0) :
    (∀ paused avail findexQindexMap now, (q.nonempty 0 = true ∨
        ∃ i, i.val < q.fcount ∧ q.qcnReady paused avail findexQindexMap now i = true) →
      q.Returns paused avail findexQindexMap now) ↔ q.CoversHeads := by
  constructor
  · intro hall i p rest hserve hhead
    have hindex := qcnIndex_of_mayServe hserve
    refine (returns_iff htotal hindex).mp (hall _ _ _ _ ?_) p rest hhead
    refine Or.inr ⟨i, hserve.2.1, ?_⟩
    simp [qcnReady, hserve.1]
  · intro hcovers paused avail findexQindexMap now hready
    obtain ⟨i, hindex⟩ := Option.isSome_iff_exists.mp (qcnIndex_isSome hready)
    exact (returns_iff htotal hindex).mpr fun p rest hhead =>
      hcovers i p rest (mayServe_of_qcnIndex hindex) hhead

/-- Counters that describe the contents cover the heads. -/
theorem Counted.coversHeads (h : q.Counted) : q.CoversHeads := by
  intro i p rest _ hhead
  let tail : DropTailQueue := ⟨rest, (rest.map Packet.size).sum, rfl⟩
  exact h.assertions (show (q.queues i).packets = p :: tail.packets from hhead)

/-! ## Runs -/

/-- The calls of a NIC that leave the number of flows as it is. -/
def Event.KeepsFlows : Event → Prop
  | .enqueue _ _ | .recover _ _ | .dequeueQCN _ _ _ _ => True
  | _ => False

/-- A call whose assertions fail ends the run. -/
def assertedStep (q : BEgressQueue) (event : Event) : Option BEgressQueue :=
  (q.asserted (q.popped event)).bind fun _ => q.step event

/-- The FIFO whose packet a call returns. -/
def returned (q : BEgressQueue) (event : Event) : Option (Fin fCnt) :=
  ((q.asserted (q.popped event)).bind id).map fun result => result.2.qlast

/-- The flows whose packets the calls of a run return, without the packets of queue 0. -/
def flowsServed : BEgressQueue → List Event → List (Fin fCnt)
  | _, [] => []
  | q, event :: rest =>
      ((q.returned event).filter fun i => i ≠ 0).toList ++
        (q.assertedStep event).elim [] fun next => flowsServed next rest

theorem assertedStep_eq_some {event : Event} (h : q.assertedStep event = some next) :
    q.step event = some next ∧
      q.returned event = (q.popped event).map fun result => result.2.qlast := by
  unfold assertedStep at h
  obtain ⟨result, hasserted, hstep⟩ := Option.bind_eq_some_iff.mp h
  refine ⟨hstep, ?_⟩
  unfold returned
  rw [hasserted, Option.bind_some, id]
  cases hpop : q.popped event with
  | none =>
      rw [hpop] at hasserted
      rw [← Option.some.inj hasserted]
  | some popped =>
      rw [hpop, asserted] at hasserted
      split at hasserted
      next => rw [← Option.some.inj hasserted]
      next => cases hasserted

theorem flowsServed_of_fails {event : Event} (h : q.assertedStep event = none)
    (rest : List Event) : q.flowsServed (event :: rest) = [] := by
  have hasserted : q.asserted (q.popped event) = none := by
    unfold assertedStep at h
    cases hresult : q.asserted (q.popped event) with
    | none => rfl
    | some result =>
        rw [hresult, Option.bind_some] at h
        cases event <;> cases h
  unfold flowsServed returned
  rw [h, hasserted]
  rfl

/-- Flow `i` is eligible at the call. -/
def Eligible (i : Fin fCnt) (q : BEgressQueue) : Event → BEgressQueue → Prop
  | .dequeueQCN paused avail findexQindexMap now, _ =>
      q.qcnReady paused avail findexQindexMap now i = true
  | _, _ => True

instance (i : Fin fCnt) (q : BEgressQueue) :
    (event : Event) → (next : BEgressQueue) → Decidable (Eligible i q event next)
  | .dequeueQCN paused avail findexQindexMap now, _ =>
      inferInstanceAs (Decidable (q.qcnReady paused avail findexQindexMap now i = true))
  | .enqueue _ _, _ | .recover _ _, _ | .setFcount _, _ | .dequeue _, _ | .dequeueNIC _, _
  | .dequeueRR _ _, _ => inferInstanceAs (Decidable True)

theorem recoverQueue_fcount (buffer : DropTailQueue) (i : Fin fCnt) :
    (q.recoverQueue buffer i).1.fcount = q.fcount ∧
      (q.recoverQueue buffer i).1.rrlast = q.rrlast := by
  unfold recoverQueue
  dsimp only
  rw [refillQueue_eq, clearQueue_eq]
  exact ⟨rfl, rfl⟩

theorem enqueue_rrlast (q : BEgressQueue) (p : Packet) (i : Fin fCnt) :
    (q.enqueue p i).rrlast = q.rrlast := by
  unfold enqueue doEnqueue
  split <;> rfl

/-- What one call does to the cursor: it stays, or it moves to the flow whose packet is
returned, and flows that were visited before are not ready. -/
theorem step_cursor {event : Event} (hkeeps : event.KeepsFlows)
    (hasserted : q.assertedStep event = some next)
    (helig : Eligible i q event next) {n : Nat} (hturn : q.InTurn i n) :
    next.fcount = q.fcount ∧
      (((q.returned event).filter fun j => j ≠ 0) = none ∧ next.rrlast = q.rrlast ∨
        (q.returned event).filter (fun j => j ≠ 0) = some i ∨
        ∃ j m, (q.returned event).filter (fun j => j ≠ 0) = some j ∧ next.rrlast = j ∧
          q.InTurn j m ∧ m < n) := by
  obtain ⟨hstep, hreturned⟩ := assertedStep_eq_some hasserted
  rw [hreturned]
  cases event with
  | setFcount k => exact hkeeps.elim
  | dequeue paused => exact hkeeps.elim
  | dequeueNIC paused => exact hkeeps.elim
  | dequeueRR paused now => exact hkeeps.elim
  | enqueue p k =>
      obtain rfl := Option.some.inj hstep
      exact ⟨enqueue_fcount q p k, Or.inl ⟨rfl, enqueue_rrlast q p k⟩⟩
  | recover buffer k =>
      obtain rfl := Option.some.inj hstep
      obtain ⟨hfcount, hrrlast⟩ := recoverQueue_fcount (q := q) buffer k
      exact ⟨hfcount, Or.inl ⟨rfl, hrrlast⟩⟩
  | dequeueQCN paused avail findexQindexMap now =>
      obtain rfl := Option.some.inj hstep
      unfold popped
      dsimp only
      cases hresult : q.dequeueQCN paused avail findexQindexMap now with
      | none => exact ⟨rfl, Or.inl ⟨rfl, rfl⟩⟩
      | some result =>
          obtain ⟨p, after⟩ := result
          obtain ⟨-, j, rest, hindex, -, rfl⟩ := dequeueQCN_eq_some.mp hresult
          refine ⟨rfl, ?_⟩
          change (Option.filter _ (some j) = none ∧ (if j = 0 then q.rrlast else j) = q.rrlast) ∨ _
          by_cases hj : j = 0
          · refine Or.inl ⟨?_, if_pos hj⟩
            rw [hj]
            rfl
          · have hserved : Option.filter (fun k : Fin fCnt => decide (k ≠ 0)) (some j) = some j :=
              Option.filter_eq_some_iff.mpr ⟨rfl, decide_eq_true hj⟩
            by_cases hij : j = i
            · exact Or.inr (Or.inl (hserved.trans (congrArg some hij)))
            · obtain ⟨m, hm, hbefore⟩ := qcnIndex_inTurn hindex hj
              refine Or.inr (Or.inr ⟨j, m, hserved, if_neg hj, hm, ?_⟩)
              -- Flow `i` is ready, so it is visited behind the flow that was found.
              by_contra hle
              rcases Nat.lt_or_eq_of_le (Nat.le_of_not_lt hle) with hlt | rfl
              · have hnot := hbefore i n hturn hlt
                rw [helig] at hnot
                cases hnot
              · exact hij (Fin.ext (hm.2.2.symm.trans hturn.2.2))

/-- Behind the new cursor, flow `i` is visited earlier. -/
theorem InTurn.nearer {n m : Nat} (hi : q.InTurn i n) (hj : q.InTurn j m) (hlt : m < n)
    (hfcount : next.fcount = q.fcount) (hrrlast : next.rrlast = j) : next.InTurn i (n - m) := by
  obtain ⟨-, hle, hiEq⟩ := hi
  obtain ⟨hone, -, hjEq⟩ := hj
  refine ⟨by omega, by omega, ?_⟩
  rw [hfcount, hrrlast, ← hjEq, Nat.add_mod_mod, ← hiEq]
  congr 1
  omega

/-- A flow that stays eligible is among the next `n` flows that are served. -/
theorem InTurn.served {n : Nat} {events : List Event} (hturn : q.InTurn i n)
    (hkeeps : ∀ event ∈ events, event.KeepsFlows)
    (helig : EachStep assertedStep (Eligible i) q events)
    (hmany : n ≤ (q.flowsServed events).length) : i ∈ q.flowsServed events := by
  induction events generalizing q n with
  | nil =>
      have hone := hturn.1
      exact absurd (Nat.le_trans hone hmany) (Nat.not_succ_le_zero 0)
  | cons event rest ih =>
      cases hstep : q.assertedStep event with
      | none =>
          rw [flowsServed_of_fails hstep] at hmany
          exact absurd (Nat.le_trans hturn.1 hmany) (Nat.not_succ_le_zero 0)
      | some next =>
          obtain ⟨heligible, helig⟩ := eachStep_cons.mp helig next hstep
          have hrest := fun e he => hkeeps e (List.mem_cons_of_mem _ he)
          obtain ⟨hfcount, hcursor⟩ :=
            step_cursor (hkeeps event List.mem_cons_self) hstep heligible hturn
          unfold flowsServed at hmany ⊢
          rw [hstep, Option.elim_some] at hmany ⊢
          rcases hcursor with ⟨hnone, hrrlast⟩ | hserved | ⟨j, m, hserved, hrrlast, hm, hlt⟩
          · rw [hnone] at hmany ⊢
            have hnext : next.InTurn i n := by
              unfold InTurn
              rw [hfcount, hrrlast]
              exact hturn
            exact ih hnext hrest helig hmany
          · rw [hserved]
            exact List.mem_append_left _ (List.mem_singleton_self i)
          · rw [hserved] at hmany ⊢
            rw [Option.toList_some, List.length_append, List.length_singleton] at hmany
            have hone := hm.1
            exact List.mem_append_right _
              (ih (hturn.nearer hm hlt hfcount hrrlast) hrest helig (by omega))

/-- Every call that finds a FIFO to serve returns its packet exactly if the counters cover the
heads of the FIFOs. In every run with a fixed number of flows, a flow that is eligible at each
call is served within as many calls that return a packet of a flow. -/
theorem dequeueQCN_conserving_iff_and_fair (q : BEgressQueue) :
    (q.bytesInQueueTotal ≠ 0 →
      ((∀ paused avail findexQindexMap now, (q.nonempty 0 = true ∨
          ∃ i, i.val < q.fcount ∧ q.qcnReady paused avail findexQindexMap now i = true) →
        q.Returns paused avail findexQindexMap now) ↔ q.CoversHeads)) ∧
    ∀ (events : List Event) (i : Fin fCnt), i ≠ 0 → i.val < q.fcount →
      (∀ event ∈ events, event.KeepsFlows) → EachStep assertedStep (Eligible i) q events →
        q.fcount ≤ (q.flowsServed events).length → i ∈ q.flowsServed events := by
  refine ⟨fun htotal => returns_all_iff htotal, ?_⟩
  intro events i _ hlt hkeeps helig hmany
  obtain ⟨n, hturn⟩ := exists_inTurn hlt
  exact hturn.served hkeeps helig (hturn.2.1.trans hmany)

/-- Two flows with a packet each, and one more packet for flow 1 that comes in between. -/
def twoFlows : BEgressQueue :=
  (((start 1000000).setFcount 2).enqueue (.sample 0) 1).enqueue (.sample 1) 2

/-- The counters cover what two flows hold, so a call returns a packet, and flow 2 is served
among the next three. -/
theorem dequeueQCN_conserving_iff_and_fair_run :
    twoFlows.Returns (fun _ => false) (fun _ => 0) (fun _ => 0) 0 ∧
      2 ∈ twoFlows.flowsServed [serveFlows, .enqueue (.sample 2) 1, .enqueue (.sample 3) 2,
        serveFlows, serveFlows] := by
  refine ⟨((dequeueQCN_conserving_iff_and_fair twoFlows).1 (by decide +kernel)).mpr ?_ _ _ _ _
    (Or.inr ⟨1, by decide +kernel, by decide +kernel⟩), ?_⟩
  · have hstart := start_counted 1000000
    have hflows : ((start 1000000).setFcount 2).Counted :=
      ⟨hstart.bytesInQueue, hstart.bytesInQueueTotal, hstart.nBytes, hstart.nPackets⟩
    exact ((hflows.enqueue (by decide +kernel)).enqueue (by decide +kernel)).coversHeads
  · refine (dequeueQCN_conserving_iff_and_fair twoFlows).2 _ 2 (by decide) (by decide +kernel) ?_
      (eachStep_of_take (by decide +kernel)) (by decide +kernel)
    intro event hevent
    simp only [List.mem_cons, List.not_mem_nil, or_false] at hevent
    rcases hevent with rfl | rfl | rfl | rfl | rfl <;> trivial

/-- The scheduler finds a recovered packet, but the counters of the class it derives from are
0, so an assertion fails and no packet is returned. -/
theorem recovered_not_returned :
    ∃ q, run step (start 1000000) (recoverTransmitted.take 4) = some q ∧
      q.bytesInQueueTotal ≠ 0 ∧ (1 : Fin fCnt).val < q.fcount ∧
      q.qcnReady (fun _ => false) (fun _ => 0) (fun _ => 0) 0 1 = true ∧
      q.assertedDequeueQCN (fun _ => false) (fun _ => 0) (fun _ => 0) 0 = none := by
  have hrun : (run step (start 1000000) (recoverTransmitted.take 4)).any (fun q =>
      decide (q.bytesInQueueTotal ≠ 0 ∧ (1 : Fin fCnt).val < q.fcount ∧
        q.qcnReady (fun _ => false) (fun _ => 0) (fun _ => 0) 0 1 = true ∧
        (q.assertedDequeueQCN (fun _ => false) (fun _ => 0) (fun _ => 0) 0).isNone = true)) =
        true := by decide +kernel
  rw [Option.any_eq_true] at hrun
  obtain ⟨q, hq, hfound⟩ := hrun
  obtain ⟨htotal, hlt, hready, hfails⟩ := of_decide_eq_true hfound
  exact ⟨q, hq, htotal, hlt, hready, Option.isNone_iff_eq_none.mp hfails⟩

end BEgressQueue

end Ns3Rdma
