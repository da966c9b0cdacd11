import Mathlib.Data.List.FinRange
import Ns3Rdma.Lib.Search
import Ns3Rdma.Queue.BEgressQueue

/-! # Which paused classes the schedulers serve

Strict priority, round robin and the flow scheduler test the pause bit of every FIFO
they may serve. The guaranteed-bandwidth search of `DoDequeueRR` does not. -/

namespace Ns3Rdma

namespace BEgressQueue

/-- Packet `p` left the head of FIFO `i`. -/
def Served (q next : BEgressQueue) (p : Packet) (i : Fin fCnt) : Prop :=
  (q.queues i).packets = p :: (next.queues i).packets

/-- Every FIFO that a returned packet left is one the scheduler may serve. -/
def Honours (q : BEgressQueue) (result : Option (Packet × BEgressQueue))
    (may : Fin fCnt → Prop) : Prop :=
  ∀ p next, result = some (p, next) → ∀ i, q.Served next p i → may i

/-- The FIFO of a class that is not paused. -/
def Unpaused (paused : Fin qCnt → Bool) (i : Fin fCnt) : Prop :=
  ∃ j, i = classQueue j ∧ paused j = false

/-- The control queue of a switch, or the FIFO of a class that is not paused. -/
def ControlOrUnpaused (paused : Fin qCnt → Bool) (i : Fin fCnt) : Prop :=
  i = classQueue 7 ∨ Unpaused paused i

/-- The control queue of a QCN NIC, or the FIFO of a flow whose class is not paused. -/
def ControlOrFlowUnpaused (paused : Fin qCnt → Bool) (findexQindexMap : Fin fCnt → Fin qCnt)
    (i : Fin fCnt) : Prop :=
  i = 0 ∨ paused (findexQindexMap i) = false

/-- The guaranteed-bandwidth search stops at a paused class: the control queue is empty, and
the highest class still owed bandwidth is paused. -/
def OwedWhilePaused (q : BEgressQueue) (paused : Fin qCnt → Bool) (now : Nat) : Prop :=
  q.bytesInQueueTotal ≠ 0 ∧ (q.queues (classQueue 7)).packets = [] ∧
    ∃ j < 7, q.owed now j = true ∧ paused j = true ∧
      ∀ k < 7, j < k → q.owed now k = false

section Pop

variable {q next : BEgressQueue} {p : Packet} {i rrlast qlast : Fin fCnt}

theorem popFrom_served (h : q.popFrom i rrlast qlast = some (p, next)) : q.Served next p i := by
  obtain ⟨rest, hpop, rfl⟩ := popFrom_eq_some.mp h
  rw [Served, hpop, removed_queues, Function.update_self]

theorem popFrom_queues_of_ne (h : q.popFrom i rrlast qlast = some (p, next)) {k : Fin fCnt}
    (hk : k ≠ i) : next.queues k = q.queues k := by
  obtain ⟨rest, -, rfl⟩ := popFrom_eq_some.mp h
  exact Function.update_of_ne hk _ _

/-- A packet leaves one FIFO only. -/
theorem served_unique (h : q.popFrom i rrlast qlast = some (p, next)) {k : Fin fCnt}
    (hserved : q.Served next p k) : k = i := by
  by_contra hk
  rw [Served, popFrom_queues_of_ne h hk] at hserved
  exact List.cons_ne_self _ _ hserved.symm

/-- A scheduler honours a pause if its search finds only what it may serve. -/
theorem honours_popFrom {may : Fin fCnt → Prop} (hmay : may i) :
    q.Honours (q.popFrom i rrlast qlast) may := by
  intro p next h k hserved
  rw [served_unique h hserved]
  exact hmay

end Pop

section Schedulers

variable {q : BEgressQueue} {paused : Fin qCnt → Bool} {now : Nat}

theorem strictIndex_unpaused {j : Fin qCnt} (h : q.strictIndex paused = some j) :
    paused j = false := by
  have hready := List.find?_some h
  rw [Bool.and_eq_true, Bool.not_eq_true'] at hready
  exact hready.1

theorem roundRobinIndex_unpaused {j : Fin qCnt} (h : q.roundRobinIndex paused = some j) :
    paused j = false := by
  have hready := List.find?_some h
  rw [Bool.and_eq_true, Bool.not_eq_true'] at hready
  exact hready.1

theorem dequeue_honours : q.Honours (q.dequeue paused) (Unpaused paused) := by
  intro p next h
  unfold dequeue at h
  split at h
  · cases h
  · rw [Option.bind_eq_some_iff] at h
    obtain ⟨j, hindex, hpop⟩ := h
    exact honours_popFrom ⟨j, rfl, strictIndex_unpaused hindex⟩ p next hpop

theorem dequeueNIC_honours : q.Honours (q.dequeueNIC paused) (Unpaused paused) := by
  intro p next h
  unfold dequeueNIC at h
  split at h
  · cases h
  · rw [Option.bind_eq_some_iff] at h
    obtain ⟨j, hindex, hpop⟩ := h
    exact honours_popFrom ⟨j, rfl, roundRobinIndex_unpaused hindex⟩ p next hpop

theorem qcnIndex_may {avail : Fin fCnt → Nat} {findexQindexMap : Fin fCnt → Fin qCnt}
    {i : Fin fCnt} (h : q.qcnIndex paused avail findexQindexMap now = some i) :
    ControlOrFlowUnpaused paused findexQindexMap i := by
  unfold qcnIndex at h
  split at h
  · exact Or.inl (Option.some.inj h).symm
  · have hready := List.find?_some h
    simp only [qcnReady, Bool.and_eq_true, Bool.not_eq_true'] at hready
    exact Or.inr hready.1.1

theorem dequeueQCN_honours {avail : Fin fCnt → Nat} {findexQindexMap : Fin fCnt → Fin qCnt} :
    q.Honours (q.dequeueQCN paused avail findexQindexMap now)
      (ControlOrFlowUnpaused paused findexQindexMap) := by
  intro p next h
  unfold dequeueQCN at h
  split at h
  · cases h
  · rw [Option.bind_eq_some_iff] at h
    obtain ⟨i, hindex, hpop⟩ := h
    exact honours_popFrom (qcnIndex_may hindex) p next hpop

/-! ## The guaranteed-bandwidth search -/

theorem mem_guaranteed {j : Fin qCnt} :
    j ∈ (List.finRange 7).reverse.map Fin.castSucc ↔ j < 7 := by
  simp only [List.mem_map, List.mem_reverse, List.mem_finRange, true_and]
  constructor
  · rintro ⟨k, rfl⟩
    exact Fin.castSucc_lt_last k
  · intro hj
    exact ⟨j.castLT hj, Fin.castSucc_castLT j hj⟩

theorem guaranteed_pairwise :
    ((List.finRange 7).reverse.map Fin.castSucc).Pairwise (fun j k : Fin qCnt => k < j) := by
  rw [List.pairwise_map, List.pairwise_reverse]
  exact (List.pairwise_lt_finRange 7).imp fun h => h

/-- The search takes the highest class below 7 that is owed bandwidth. -/
theorem guaranteedIndex_eq_some {j : Fin qCnt} : q.guaranteedIndex now = some j ↔
    j < 7 ∧ q.owed now j = true ∧ ∀ k < 7, j < k → q.owed now k = false := by
  have : Std.Asymm fun j k : Fin qCnt => k < j := ⟨fun _ _ h => h.asymm⟩
  unfold guaranteedIndex
  rw [Search.find?_eq_some_iff_of_pairwise guaranteed_pairwise]
  simp only [mem_guaranteed]

theorem owed_nonempty {j : Fin qCnt} (h : q.owed now j = true) :
    q.nonempty (classQueue j) = true := by
  rw [owed, Bool.and_eq_true] at h
  exact h.2

/-- Whatever the RR search finds, `DequeueRR` serves it. -/
theorem dequeueRR_serves {j : Fin qCnt} (htotal : q.bytesInQueueTotal ≠ 0)
    (hindex : q.rrIndex paused now = some j) (hnonempty : q.nonempty (classQueue j) = true) :
    ∃ p next, q.dequeueRR paused now = some (p, next) ∧ q.Served next p (classQueue j) := by
  obtain ⟨p, next, hpop⟩ := popFrom_isSome hnonempty (if j = 7 then q.rrlast else classQueue j)
    (classQueue j)
  have hserved := popFrom_served hpop
  refine ⟨p, satisfyBW now j p next, ?_, hserved⟩
  unfold dequeueRR
  rw [if_neg htotal, hindex, Option.bind_some, hpop]
  rfl

theorem classQueue_injective {j k : Fin qCnt} (h : classQueue j = classQueue k) : j = k :=
  Fin.castLE_injective _ h

/-- `DequeueRR` honours pauses unless the class owed bandwidth is paused. -/
theorem dequeueRR_honours_iff :
    q.Honours (q.dequeueRR paused now) (ControlOrUnpaused paused) ↔
      ¬ q.OwedWhilePaused paused now := by
  constructor
  · rintro h ⟨htotal, hempty, j, hj, howed, hpaused, hfirst⟩
    have hindex : q.rrIndex paused now = some j := by
      unfold rrIndex
      rw [if_neg (by rw [nonempty_eq_false_iff.mpr hempty]; exact Bool.false_ne_true),
        guaranteedIndex_eq_some.mpr ⟨hj, howed, hfirst⟩]
      rfl
    obtain ⟨p, next, hdequeue, hserved⟩ := dequeueRR_serves htotal hindex (owed_nonempty howed)
    rcases h p next hdequeue _ hserved with hcontrol | ⟨k, hk, hunpaused⟩
    · exact absurd (classQueue_injective hcontrol) hj.ne
    · rw [classQueue_injective hk, hunpaused] at hpaused
      cases hpaused
  · intro hcond p next h
    unfold dequeueRR at h
    split at h
    · cases h
    next htotal =>
      rw [Option.bind_eq_some_iff] at h
      obtain ⟨j, hindex, hpop⟩ := h
      rw [Option.map_eq_some_iff] at hpop
      obtain ⟨⟨p', middle⟩, hpop, heq⟩ := hpop
      obtain ⟨rfl, rfl⟩ := Prod.mk.inj heq
      have hmay : ControlOrUnpaused paused (classQueue j) → ∀ i, q.Served middle p' i →
          ControlOrUnpaused paused i := fun h => honours_popFrom h p' middle hpop
      apply hmay
      unfold rrIndex at hindex
      split at hindex
      · exact Or.inl (congrArg classQueue (Option.some.inj hindex).symm)
      next hcontrol =>
        rw [Bool.not_eq_true, nonempty_eq_false_iff] at hcontrol
        rw [Option.or_eq_some_iff] at hindex
        rcases hindex with hguaranteed | ⟨-, hround⟩
        · obtain ⟨hj, howed, hfirst⟩ := guaranteedIndex_eq_some.mp hguaranteed
          refine Or.inr ⟨j, rfl, ?_⟩
          by_contra hpaused
          rw [Bool.not_eq_false] at hpaused
          exact hcond ⟨htotal, hcontrol, j, hj, howed, hpaused, hfirst⟩
        · exact Or.inr ⟨j, rfl, roundRobinIndex_unpaused hround⟩

end Schedulers

/-- All four schedulers honour every pause, except that `DequeueRR` serves the class owed
bandwidth whether it is paused or not. -/
theorem pause_honoured_iff (q : BEgressQueue) (paused : Fin qCnt → Bool) (now : Nat)
    (avail : Fin fCnt → Nat) (findexQindexMap : Fin fCnt → Fin qCnt) :
    (q.Honours (q.dequeue paused) (Unpaused paused) ∧
      q.Honours (q.dequeueNIC paused) (Unpaused paused) ∧
      q.Honours (q.dequeueRR paused now) (ControlOrUnpaused paused) ∧
      q.Honours (q.dequeueQCN paused avail findexQindexMap now)
        (ControlOrFlowUnpaused paused findexQindexMap)) ↔
      ¬ q.OwedWhilePaused paused now := by
  rw [← dequeueRR_honours_iff]
  constructor
  · rintro ⟨-, -, hrr, -⟩
    exact hrr
  · intro hrr
    exact ⟨dequeue_honours, dequeueNIC_honours, hrr, dequeueQCN_honours⟩

/-- One packet of class 3 waits in a new switch queue; the neighbour has paused class 3. -/
theorem owedClass_served :
    ¬ (((start 1048576000).enqueue (.sample 0) 3).Honours
      (((start 1048576000).enqueue (.sample 0) 3).dequeueRR (fun j => j = 3) 1)
      (ControlOrUnpaused fun j => j = 3)) := by
  rw [dequeueRR_honours_iff, not_not]
  refine ⟨by decide, by decide, 3, by decide, by decide, by decide, by decide⟩

end BEgressQueue

end Ns3Rdma
