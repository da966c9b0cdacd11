import Ns3Rdma.Lib.Tally
import Ns3Rdma.Sched.CalendarScan

/-!
# The calendar scheduler is a priority queue

Events are filed and taken out one at a time, and a resize takes samples out, puts them back and
files everything anew. The bucket and the day where the scan begins stay right.
-/

namespace Ns3Rdma.Sched.CalendarScheduler

open HeapScheduler (Call Least Exact)
open StepSystem

variable {s s' : CalendarScheduler} {ev : Event}

/-! ## Filing and taking out -/

theorem contents_update {b : ℕ} (hb : b < s.nBuckets.toNat) {events : List Event}
    (hevents : events.Perm (ev :: s.buckets b)) :
    ({ s with buckets := Function.update s.buckets b events } : CalendarScheduler).contents.Perm
      (ev :: s.contents) :=
  Tally.flatMap_update_perm List.nodup_range (List.mem_range.mpr hb) s.buckets hevents

/-- A bucket with other events of its days. -/
theorem Filed.update (hf : Filed s) {b : ℕ} {events : List Event}
    (hsorted : ListScheduler.Sorted events)
    (hhashed : ∀ e ∈ events, s.day e.key.ts % s.nBuckets.toNat = b)
    (hs' : s' = { s with buckets := Function.update s.buckets b events })
    (hearly : ∀ e ∈ s'.contents, e.key.ts.toNat < 2 ^ 63) (hdistinct : DistinctUids s'.contents) :
    Filed s' := by
  subst hs'
  refine ⟨hf.nBuckets_pos, hf.nBuckets_le, hf.width_pos, hf.width_lt, fun i hi => ?_,
    fun i hi e he => ?_, hearly, hdistinct⟩
  · dsimp only
    rcases eq_or_ne i b with rfl | hne
    · rw [Function.update_self]
      exact hsorted
    · rw [Function.update_of_ne hne]
      exact hf.sorted i hi
  · dsimp only at he
    rcases eq_or_ne i b with rfl | hne
    · rw [Function.update_self] at he
      exact hhashed e he
    · rw [Function.update_of_ne hne] at he
      exact hf.hashed i hi e he

theorem Filed.bucket_distinct (hf : Filed s) {b : ℕ} (hb : b < s.nBuckets.toNat) :
    DistinctUids (s.buckets b) := by
  have hsub : (s.buckets b).Sublist s.contents :=
    List.sublist_flatten_of_mem (List.mem_map.mpr ⟨b, List.mem_range.mpr hb, rfl⟩)
  exact List.Pairwise.sublist hsub hf.distinct

/-- What stays the same when events are filed or taken out. -/
structure SameCalendar (s s' : CalendarScheduler) : Prop where
  nBuckets_eq : s'.nBuckets = s.nBuckets
  width_eq : s'.width = s.width
  qSize_eq : s'.qSize = s.qSize

theorem Filed.doInsert (hf : Filed s) (hearly : ev.key.ts.toNat < 2 ^ 63)
    (hfresh : ∀ e ∈ s.contents, e.uid ≠ ev.uid) :
    Filed (s.doInsert ev) ∧ (s.doInsert ev).contents.Perm (ev :: s.contents) := by
  obtain ⟨b, hb⟩ : ∃ b, b = (s.hash ev.key.ts).toNat := ⟨_, rfl⟩
  have hday : s.day ev.key.ts % s.nBuckets.toNat = b := hb ▸ (hash_toNat hf _).symm
  have hlt : b < s.nBuckets.toNat := hday ▸ Nat.mod_lt _ hf.nBuckets_pos
  have hs' : s.doInsert ev = { s with
      buckets := Function.update s.buckets b (ListScheduler.insert ev (s.buckets b)) } := by
    rw [hb]
    rfl
  have hinsert := ListScheduler.insert_perm ev (s.buckets b)
  have hperm : (s.doInsert ev).contents.Perm (ev :: s.contents) := by
    rw [hs']
    exact contents_update hlt hinsert
  refine ⟨hf.update (ListScheduler.insert_sorted (hf.sorted b hlt) fun e he => ?_)
    (fun e he => ?_) hs' (fun e he => ?_) ?_, hperm⟩
  · exact hfresh e (mem_contents.mpr ⟨b, hlt, he⟩)
  · rcases List.mem_cons.mp (hinsert.mem_iff.mp he) with rfl | hold
    · exact hday
    · exact hf.hashed b hlt e hold
  · rcases List.mem_cons.mp (hperm.mem_iff.mp he) with rfl | hold
    · exact hearly
    · exact hf.early e hold
  · refine DistinctUids.perm ?_ hperm.symm
    exact List.pairwise_cons.mpr ⟨fun e he => (hfresh e he).symm, hf.distinct⟩

/-- An event is taken out of its bucket. -/
theorem Filed.takeOut (hf : Filed s) {b : ℕ} (hb : b < s.nBuckets.toNat) {rest : List Event}
    (hperm : (s.buckets b).Perm (ev :: rest)) (hsorted : ListScheduler.Sorted rest)
    (hs' : s' = { s with buckets := Function.update s.buckets b rest }) :
    Filed s' ∧ s.contents.Perm (ev :: s'.contents) := by
  have hback : s = { s' with buckets := Function.update s'.buckets b (s.buckets b) } := by
    rw [hs']
    dsimp only
    rw [Function.update_idem, Function.update_eq_self]
  have hbucket : s'.buckets b = rest := by
    rw [hs']
    exact Function.update_self b rest s.buckets
  have hcontents : s.contents.Perm (ev :: s'.contents) := by
    have hlt : b < s'.nBuckets.toNat := by rw [hs']; exact hb
    have hput : ({ s' with buckets := Function.update s'.buckets b (s.buckets b) } :
        CalendarScheduler).contents.Perm (ev :: s'.contents) :=
      contents_update hlt (hbucket ▸ hperm)
    rw [← hback] at hput
    exact hput
  refine ⟨hf.update hsorted (fun e he => ?_) hs' (fun e he => ?_) ?_, hcontents⟩
  · exact hf.hashed b hb e (hperm.mem_iff.mpr (List.mem_cons_of_mem _ he))
  · exact hf.early e (hcontents.mem_iff.mpr (List.mem_cons_of_mem _ he))
  · exact (List.pairwise_cons.mp (hf.distinct.perm hcontents)).2

/-- The scan goes on at an event that is taken out. -/
theorem Filed.popFront (hf : Filed s) {i : UInt32} {next : Event} {rest : List Event}
    (hi : i.toNat < s.nBuckets.toNat) (hbucket : s.buckets i.toNat = next :: rest)
    (hleast : Least next s.contents) (hprio : s.lastPrio = next.key.ts)
    (hlast : s.lastBucket.toNat = s.day next.key.ts % s.nBuckets.toNat)
    (htop : s.bucketTop.toNat = (s.day next.key.ts + 1) * s.width.toNat) :
    ∃ s', s.popFront i = some (next, s') ∧ s.contents.Perm (next :: s'.contents) ∧ Filed s' ∧
      Current s' ∧ s'.lastPrio = next.key.ts ∧ SameCalendar s s' := by
  have hsorted := hf.sorted _ hi
  rw [hbucket] at hsorted
  obtain ⟨hfiled, hperm⟩ := hf.takeOut hi (by rw [hbucket]) (List.pairwise_cons.mp hsorted).2 rfl
  refine ⟨_, ?_, hperm, hfiled, ⟨?_, ?_, ?_, fun e he => ?_⟩, hprio, ⟨rfl, rfl, rfl⟩⟩
  · unfold CalendarScheduler.popFront
    rw [hbucket]
  · rw [hprio]
    exact hf.early next hleast.1
  · rw [hprio]
    exact hlast
  · rw [hprio]
    exact htop
  · rw [hprio]
    exact ts_le_of_order (hleast.2 e (hperm.mem_iff.mpr (List.mem_cons_of_mem _ he)))

theorem Filed.moveTo (hf : Filed s) {prio : UInt64} (hprio : prio.toNat < 2 ^ 63) :
    (s.moveTo prio).lastBucket.toNat = s.day prio % s.nBuckets.toNat ∧
      (s.moveTo prio).bucketTop.toNat = (s.day prio + 1) * s.width.toNat := by
  refine ⟨hash_toNat hf prio, ?_⟩
  have hwidth := hf.width_lt
  have hday : s.day prio * s.width.toNat ≤ prio.toNat := Nat.div_mul_le_self _ _
  have hle : s.day prio ≤ prio.toNat := Nat.div_le_self _ _
  have hsum : (s.day prio + 1) * s.width.toNat = s.day prio * s.width.toNat + s.width.toNat :=
    Nat.succ_mul _ _
  change ((prio / s.width + 1) * s.width).toNat = _
  have hsucc : (prio / s.width + 1).toNat = s.day prio + 1 := by
    rw [UInt64.toNat_add, UInt64.toNat_div, UInt64.toNat_one]
    exact Nat.mod_eq_of_lt (by change s.day prio + 1 < _; omega)
  rw [UInt64.toNat_mul, hsucc, hsum]
  exact Nat.mod_eq_of_lt (by omega)

theorem doRemoveNext_spec (hf : Filed s) (hc : Current s) (hsize : s.qSize ≠ 0)
    (hne : s.contents ≠ []) :
    ∃ ev s', s.doRemoveNext = some (ev, s') ∧ Least ev s.contents ∧
      s.contents.Perm (ev :: s'.contents) ∧ Filed s' ∧ Current s' ∧ s'.lastPrio = ev.key.ts ∧
        SameCalendar s s' := by
  have hstart : ∀ e ∈ s.contents, e.key.lt ⟨18446744073709551615, 0, 4294967295⟩ = true :=
    fun e he => key_lt_iff.mpr (order_lt_of_ts ((hf.early e he).trans (by decide)))
  have hfinds : Finds s (fun i _ => some i)
      (s.scan (fun i _ => some i) ⟨18446744073709551615, 0, 4294967295⟩ none) :=
    scan_finds hf hc hstart
  unfold doRemoveNext
  rw [if_neg (by unfold isEmpty; rw [decide_eq_true_iff]; exact hsize)]
  cases hscan : s.scan (fun i _ => some i) ⟨18446744073709551615, 0, 4294967295⟩ none with
  | found i top next =>
      rw [hscan] at hfinds
      obtain ⟨hi, ⟨rest, hbucket⟩, hleast, hday, htop⟩ := hfinds
      have hmoved : Filed { s with
          lastBucket := i
          lastPrio := next.key.ts
          bucketTop := top } := hf.congr rfl rfl rfl
      obtain ⟨s', hpop, hperm, hf', hc', hprio, hsame⟩ :=
        hmoved.popFront hi hbucket hleast rfl hday htop
      exact ⟨next, s', hpop, hleast, hperm, hf', hc', hprio, ⟨hsame.1, hsame.2, hsame.3⟩⟩
  | direct key a =>
      rw [hscan] at hfinds
      obtain ⟨i, next, rest, hi, hbucket, rfl, rfl, hleast⟩ := hfinds hne
      obtain ⟨hlast, htop⟩ := hf.moveTo (hf.early next hleast.1)
      have hmoved : Filed (s.moveTo next.key.ts) := hf.congr rfl rfl rfl
      obtain ⟨s', hpop, hperm, hf', hc', hprio, hsame⟩ :=
        hmoved.popFront hi hbucket hleast rfl hlast htop
      exact ⟨next, s', hpop, hleast, hperm, hf', hc', hprio, ⟨hsame.1, hsame.2, hsame.3⟩⟩

/-- `PeekNext` returns what `RemoveNext` would. -/
theorem peekNext_spec (hf : Filed s) (hc : Current s) (hsize : s.qSize ≠ 0)
    (hne : s.contents ≠ []) : ∃ ev, s.peekNext = some ev ∧ Least ev s.contents := by
  have hstart : ∀ e ∈ s.contents, e.key.lt ⟨18446744073709551615, 4294967295, 0⟩ = true :=
    fun e he => key_lt_iff.mpr (order_lt_of_ts ((hf.early e he).trans (by decide)))
  have hfinds : Finds s (fun _ next => next) (s.scan (fun _ next => next)
      ⟨18446744073709551615, 4294967295, 0⟩ ⟨0, ⟨18446744073709551615, 4294967295, 0⟩⟩) :=
    scan_finds hf hc hstart
  unfold peekNext
  rw [if_neg (by unfold isEmpty; rw [decide_eq_true_iff]; exact hsize)]
  dsimp only
  cases hscan : s.scan (fun _ next => next) ⟨18446744073709551615, 4294967295, 0⟩
      (⟨0, ⟨18446744073709551615, 4294967295, 0⟩⟩ : Event) with
  | found i top next =>
      rw [hscan] at hfinds
      exact ⟨next, rfl, hfinds.2.2.1⟩
  | direct key a =>
      rw [hscan] at hfinds
      obtain ⟨i, next, rest, -, -, -, rfl, hleast⟩ := hfinds hne
      exact ⟨a, rfl, hleast⟩

/-! ## Resizing -/

theorem SameCalendar.trans {s₁ s₂ s₃ : CalendarScheduler} (h : SameCalendar s₁ s₂)
    (h' : SameCalendar s₂ s₃) : SameCalendar s₁ s₃ :=
  ⟨h'.nBuckets_eq.trans h.nBuckets_eq, h'.width_eq.trans h.width_eq, h'.qSize_eq.trans h.qSize_eq⟩

theorem gather_spec (hf : Filed s) (hc : Current s) (hsize : s.qSize ≠ 0) {n : ℕ}
    (hn : n ≤ s.contents.length) :
    ∃ samples s', gather n s = some (samples, s') ∧ s.contents.Perm (samples ++ s'.contents) ∧
      Filed s' ∧ SameCalendar s s' := by
  induction n generalizing s with
  | zero => exact ⟨[], s, rfl, List.Perm.refl _, hf, rfl, rfl, rfl⟩
  | succ n ih =>
      have hne : s.contents ≠ [] := List.ne_nil_of_length_pos (by omega)
      obtain ⟨ev, s₁, hremove, -, hperm, hf₁, hc₁, -, hsame₁⟩ := doRemoveNext_spec hf hc hsize hne
      have hlength := hperm.length_eq
      rw [List.length_cons] at hlength
      obtain ⟨samples, s', hgather, hrest, hf', hsame⟩ :=
        ih hf₁ hc₁ (hsame₁.qSize_eq ▸ hsize) (by omega)
      refine ⟨ev :: samples, s', ?_, hperm.trans (hrest.cons ev), hf', hsame₁.trans hsame⟩
      unfold gather
      rw [hremove, Option.bind_some, hgather, Option.map_some]

theorem foldl_doInsert_same (events : List Event) (s : CalendarScheduler) :
    SameCalendar s (events.foldl doInsert s) ∧
      (events.foldl doInsert s).lastBucket = s.lastBucket ∧
        (events.foldl doInsert s).bucketTop = s.bucketTop ∧
          (events.foldl doInsert s).lastPrio = s.lastPrio := by
  induction events generalizing s with
  | nil => exact ⟨⟨rfl, rfl, rfl⟩, rfl, rfl, rfl⟩
  | cons ev rest ih =>
      obtain ⟨⟨hnBuckets, hwidth, hqSize⟩, hbucket, htop, hprio⟩ := ih (s.doInsert ev)
      exact ⟨⟨hnBuckets, hwidth, hqSize⟩, hbucket, htop, hprio⟩

/-- No event is lost when many are filed. -/
theorem foldl_doInsert_spec (hf : Filed s) {events : List Event}
    (hearly : ∀ e ∈ events, e.key.ts.toNat < 2 ^ 63)
    (hdistinct : DistinctUids (events ++ s.contents)) :
    Filed (events.foldl doInsert s) ∧
      (events.foldl doInsert s).contents.Perm (events ++ s.contents) := by
  induction events generalizing s with
  | nil => exact ⟨hf, List.Perm.refl _⟩
  | cons ev rest ih =>
      obtain ⟨hev, hothers⟩ := List.pairwise_cons.mp hdistinct
      obtain ⟨hf₁, hperm⟩ := hf.doInsert (hearly ev List.mem_cons_self)
        fun e he => (hev e (List.mem_append_right _ he)).symm
      have hmoved : (rest ++ (s.doInsert ev).contents).Perm (ev :: (rest ++ s.contents)) :=
        (hperm.append_left rest).trans List.perm_middle
      obtain ⟨hf', hperm'⟩ := ih hf₁ (fun e he => hearly e (List.mem_cons_of_mem _ he))
        (DistinctUids.perm hdistinct hmoved.symm)
      exact ⟨hf', hperm'.trans hmoved⟩

theorem Current.congr (hc : Current s) (hsame : SameCalendar s s')
    (hprio : s'.lastPrio = s.lastPrio) (hbucket : s'.lastBucket = s.lastBucket)
    (htop : s'.bucketTop = s.bucketTop) (hsub : ∀ e ∈ s'.contents, e ∈ s.contents) :
    Current s' := by
  refine ⟨?_, ?_, ?_, fun e he => ?_⟩
  · rw [hprio]
    exact hc.lastPrio_lt
  · unfold day
    rw [hprio, hbucket, hsame.nBuckets_eq, hsame.width_eq]
    exact hc.lastBucket_eq
  · unfold day
    rw [hprio, htop, hsame.width_eq]
    exact hc.bucketTop_eq
  · rw [hprio]
    exact hc.late e (hsub e he)

theorem toNat_numberOfSamples (qSize : UInt32) : (numberOfSamples qSize).toNat =
    min 25 (if qSize.toNat ≤ 5 then qSize.toNat else 5 + qSize.toNat / 10) := by
  have hdiv : (qSize / 10).toNat = qSize.toNat / 10 := UInt32.toNat_div _ _
  have hlt := qSize.toNat_lt
  have hsum : (5 + qSize / 10).toNat = 5 + qSize.toNat / 10 := by
    rw [UInt32.toNat_add, hdiv]
    exact Nat.mod_eq_of_lt (by change 5 + _ < _; omega)
  have hsmall : qSize ≤ 5 ↔ qSize.toNat ≤ 5 := UInt32.le_iff_toNat_le
  have hbefore : (if qSize ≤ 5 then qSize else 5 + qSize / 10).toNat =
      if qSize.toNat ≤ 5 then qSize.toNat else 5 + qSize.toNat / 10 := by
    simp only [hsmall]
    split
    · rfl
    · exact hsum
  have hmax : (25 : UInt32).toNat = 25 := rfl
  unfold numberOfSamples
  dsimp only
  rw [← hbefore]
  generalize (if qSize ≤ 5 then qSize else 5 + qSize / 10) = nSamples
  by_cases hbig : 25 < nSamples
  · rw [if_pos hbig, hmax]
    rw [UInt32.lt_iff_toNat_lt, hmax] at hbig
    exact (Nat.min_eq_left hbig.le).symm
  · rw [if_neg hbig]
    rw [UInt32.lt_iff_toNat_lt, hmax] at hbig
    exact (Nat.min_eq_right (Nat.le_of_not_lt hbig)).symm

theorem numberOfSamples_le (qSize : UInt32) :
    (numberOfSamples qSize).toNat ≤ qSize.toNat := by
  rw [toNat_numberOfSamples]
  split <;> omega

/-- The samples are put back, and the scan begins where it did. -/
theorem calculateNewWidth_spec (hf : Filed s) (hc : Current s)
    (hsize : s.qSize.toNat = s.contents.length) :
    ∃ s' width, s.calculateNewWidth = some (s', width) ∧ Filed s' ∧ Current s' ∧
      s'.contents.Perm s.contents ∧ SameCalendar s s' ∧ s'.lastPrio = s.lastPrio := by
  unfold calculateNewWidth
  split
  next => exact ⟨s, 1, rfl, hf, hc, List.Perm.refl _, ⟨rfl, rfl, rfl⟩, rfl⟩
  next hge =>
    have hne : s.qSize ≠ 0 := by
      intro hzero
      rw [hzero] at hge
      exact hge (by decide)
    obtain ⟨samples, s₁, hgather, hperm, hf₁, hsame₁⟩ :=
      gather_spec hf hc hne ((numberOfSamples_le s.qSize).trans hsize.le)
    obtain ⟨hf₂, hback⟩ := foldl_doInsert_spec hf₁
      (fun e he => hf.early e (hperm.mem_iff.mpr (List.mem_append_left _ he)))
      (hf.distinct.perm hperm)
    have hsame := hsame₁.trans (foldl_doInsert_same samples s₁).1
    obtain ⟨s', hs'⟩ : ∃ s' : CalendarScheduler, s' =
      { samples.foldl doInsert s₁ with
        lastBucket := s.lastBucket
        bucketTop := s.bucketTop
        lastPrio := s.lastPrio } := ⟨_, rfl⟩
    have hcontents : s'.contents = (samples.foldl doInsert s₁).contents := by rw [hs']; rfl
    have hsame' : SameCalendar s s' := by
      rw [hs']
      exact ⟨hsame.1, hsame.2, hsame.3⟩
    refine ⟨s', widthOf samples (numberOfSamples s.qSize), by rw [hgather, hs']; rfl,
      hf₂.congr (by rw [hs']) (by rw [hs']) (by rw [hs']), ?_, ?_, hsame', by rw [hs']⟩
    · refine hc.congr hsame' (by rw [hs']) (by rw [hs']) (by rw [hs']) fun e he => ?_
      rw [hcontents] at he
      exact hperm.mem_iff.mpr (hback.mem_iff.mp he)
    · rw [hcontents]
      exact hback.trans hperm.symm

theorem doResize_spec (hf : Filed s) (hc : Current s) {newSize newWidth : UInt32}
    (hpos : 0 < newSize.toNat) (hle : newSize.toNat ≤ 2 ^ 16) (hwidth : newWidth ≠ 0) :
    Filed (s.doResize newSize newWidth) ∧ Current (s.doResize newSize newWidth) ∧
      (s.doResize newSize newWidth).contents.Perm s.contents ∧
        (s.doResize newSize newWidth).qSize = s.qSize ∧
          (s.doResize newSize newWidth).lastPrio = s.lastPrio := by
  obtain ⟨t, ht⟩ : ∃ t, t = s.init newSize newWidth.toUInt64 s.lastPrio := ⟨_, rfl⟩
  -- the new calendar is empty, and the old events are filed in it one by one
  have hempty : t.contents = [] := by
    rw [ht]
    exact List.flatMap_eq_nil_iff.mpr fun _ _ => rfl
  have hwidthPos : 0 < newWidth.toNat :=
    Nat.pos_of_ne_zero fun hzero => hwidth (UInt32.toNat_inj.mp hzero)
  have hft : Filed t := by
    refine ⟨?_, ?_, ?_, ?_, fun i _ => ?_, fun i _ e he => ?_, fun e he => ?_, ?_⟩
    · rw [ht]
      exact hpos
    · rw [ht]
      exact hle
    · rw [ht]
      exact hwidthPos
    · rw [ht]
      exact newWidth.toNat_lt
    · rw [ht]
      exact List.Pairwise.nil
    · rw [ht] at he
      cases he
    · rw [hempty] at he
      cases he
    · rw [hempty]
      exact List.Pairwise.nil
  have hnew : Filed { s with
      buckets := fun _ => []
      nBuckets := newSize
      width := newWidth.toUInt64 } :=
    hft.congr (by rw [ht]; rfl) (by rw [ht]; rfl) (by rw [ht]; rfl)
  obtain ⟨hlast, htop⟩ := hnew.moveTo hc.lastPrio_lt
  obtain ⟨hsame, hbucket, hend, hprio⟩ := foldl_doInsert_same s.contents t
  obtain ⟨hf', hperm⟩ := foldl_doInsert_spec hft hf.early (by
    rw [hempty, List.append_nil]
    exact hf.distinct)
  rw [hempty, List.append_nil] at hperm
  have hprioEq : t.lastPrio = s.lastPrio := by rw [ht]; rfl
  unfold doResize
  rw [← ht]
  refine ⟨hf', ⟨?_, ?_, ?_, fun e he => ?_⟩, hperm, ?_, hprio.trans hprioEq⟩
  · rw [hprio, hprioEq]
    exact hc.lastPrio_lt
  · unfold day
    rw [hbucket, hprio, hprioEq, hsame.nBuckets_eq, hsame.width_eq, ht]
    exact hlast
  · unfold day
    rw [hend, hprio, hprioEq, hsame.width_eq, ht]
    exact htop
  · rw [hprio, hprioEq]
    exact hc.late e (hperm.mem_iff.mp he)
  · rw [hsame.qSize_eq, ht]
    rfl

/-- A resize that begins in this state computes a width that is not zero. -/
def NonzeroWidth (s : CalendarScheduler) : Prop := ∀ r ∈ s.calculateNewWidth, r.2 ≠ 0

/-- The calendar is in order, and the counter is right. -/
structure Sound (s : CalendarScheduler) : Prop where
  filed : Filed s
  current : Current s
  valid : ∀ e ∈ s.contents, e.uid ≠ 0
  qSize_eq : s.qSize.toNat = s.contents.length

/-- What a resize leaves. -/
structure Resized (s s' : CalendarScheduler) : Prop where
  sound : Sound s'
  perm : s'.contents.Perm s.contents
  lastPrio_eq : s'.lastPrio = s.lastPrio

theorem Sound.resized (hs : Sound s) : Resized s s := ⟨hs, List.Perm.refl _, rfl⟩

theorem resize_spec (hs : Sound s) {newSize : UInt32} (hpos : 0 < newSize.toNat)
    (hle : newSize.toNat ≤ 2 ^ 16) (hwidth : s.NonzeroWidth) :
    ∃ s', s.resize newSize = some s' ∧ Resized s s' := by
  obtain ⟨s₁, width, hcalculate, hf₁, hc₁, hperm₁, hsame, hprio₁⟩ :=
    calculateNewWidth_spec hs.filed hs.current hs.qSize_eq
  obtain ⟨hf', hc', hperm', hqSize, hprio'⟩ :=
    doResize_spec hf₁ hc₁ hpos hle (hwidth _ hcalculate)
  have hperm := hperm'.trans hperm₁
  refine ⟨s₁.doResize newSize width, ?_, ⟨hf', hc', fun e he => ?_, ?_⟩, hperm,
    hprio'.trans hprio₁⟩
  · unfold resize
    rw [hcalculate, Option.map_some]
  · exact hs.valid e (hperm.mem_iff.mp he)
  · rw [hqSize, hsame.qSize_eq, hs.qSize_eq, hperm.length_eq]

theorem resizeUp_spec (hs : Sound s) (hwidth : s.Grows → s.NonzeroWidth) :
    ∃ s', s.resizeUp = some s' ∧ Resized s s' := by
  unfold resizeUp
  split
  next hgrows =>
    have hlt : s.nBuckets.toNat < 32768 := UInt32.lt_iff_toNat_lt.mp hgrows.2
    have hdouble : (s.nBuckets * 2).toNat = s.nBuckets.toNat * 2 := by
      rw [UInt32.toNat_mul]
      exact Nat.mod_eq_of_lt (by change s.nBuckets.toNat * 2 < 2 ^ 32; omega)
    have hpos := hs.filed.nBuckets_pos
    exact resize_spec hs (by omega) (by omega) (hwidth hgrows)
  next => exact ⟨s, rfl, hs.resized⟩

theorem resizeDown_spec (hs : Sound s) (hwidth : s.Shrinks → s.NonzeroWidth) :
    ∃ s', s.resizeDown = some s' ∧ Resized s s' := by
  unfold resizeDown
  split
  next hshrinks =>
    have hhalf : (s.nBuckets / 2).toNat = s.nBuckets.toNat / 2 := UInt32.toNat_div _ _
    have hlt : s.qSize.toNat < (s.nBuckets / 2).toNat := UInt32.lt_iff_toNat_lt.mp hshrinks
    have hle := hs.filed.nBuckets_le
    exact resize_spec hs (by omega) (by omega) (hwidth hshrinks)
  next => exact ⟨s, rfl, hs.resized⟩

/-! ## The calls -/

/-- Uids that are not zero and distinct are fewer than `2 ^ 32`. -/
theorem length_lt_of_uids {events : List Event} (hdistinct : DistinctUids events)
    (hvalid : ∀ e ∈ events, e.uid ≠ 0) : events.length < 2 ^ 32 := by
  have hnodup : (events.map fun e => e.uid.toNat).Nodup :=
    List.pairwise_map.mpr (hdistinct.imp fun hne heq => hne (UInt32.toNat_inj.mp heq))
  have hsub : (events.map fun e => e.uid.toNat).toFinset ⊆ (Finset.range (2 ^ 32)).erase 0 := by
    intro uid huid
    obtain ⟨e, he, rfl⟩ := List.mem_map.mp (List.mem_toFinset.mp huid)
    refine Finset.mem_erase.mpr ⟨fun hzero => hvalid e he (UInt32.toNat_inj.mp hzero), ?_⟩
    exact Finset.mem_range.mpr e.uid.toNat_lt
  have hcard := Finset.card_le_card hsub
  rw [List.toFinset_card_of_nodup hnodup, List.length_map,
    Finset.card_erase_of_mem (Finset.mem_range.mpr (Nat.two_pow_pos 32)), Finset.card_range] at hcard
  omega

theorem insert_spec (hs : Sound s) (hearly : ev.key.ts.toNat < 2 ^ 63)
    (hlate : s.lastPrio.toNat ≤ ev.key.ts.toNat) (hfresh : ∀ e ∈ s.contents, e.uid ≠ ev.uid)
    (hvalid : ev.uid ≠ 0) (hwidth : (s.added ev).Grows → (s.added ev).NonzeroWidth) :
    ∃ s', s.insert ev = some s' ∧ s'.contents.Perm (ev :: s.contents) ∧ Sound s' ∧
      s'.lastPrio = s.lastPrio := by
  obtain ⟨hf, hperm⟩ := hs.filed.doInsert hearly hfresh
  have hcontents : (s.added ev).contents = (s.doInsert ev).contents := rfl
  have huids : ∀ e ∈ (s.doInsert ev).contents, e.uid ≠ 0 := by
    intro e he
    rcases List.mem_cons.mp (hperm.mem_iff.mp he) with rfl | hold
    · exact hvalid
    · exact hs.valid e hold
  have hcurrent : Current (s.added ev) := by
    refine ⟨hs.current.lastPrio_lt, hs.current.lastBucket_eq, hs.current.bucketTop_eq,
      fun e he => ?_⟩
    rcases List.mem_cons.mp (hperm.mem_iff.mp he) with rfl | hold
    · exact hlate
    · exact hs.current.late e hold
  have hsound : Sound (s.added ev) := by
    refine ⟨hf.congr rfl rfl rfl, hcurrent, huids, ?_⟩
    -- there are not enough uids for the counter to wrap
    have hlength := hperm.length_eq
    have hlt := length_lt_of_uids hf.distinct huids
    change (s.qSize + 1).toNat = _
    rw [List.length_cons] at hlength
    rw [hcontents, UInt32.toNat_add, hs.qSize_eq, UInt32.toNat_one, hlength]
    exact Nat.mod_eq_of_lt (by omega)
  obtain ⟨s', hresize, hresized⟩ := resizeUp_spec hsound hwidth
  exact ⟨s', hresize, hresized.perm.trans hperm, hresized.sound, hresized.lastPrio_eq⟩

/-- A removal whose event is taken out already. -/
theorem taken_spec (hs : Sound s) (hsame : SameCalendar s s') (hf : Filed s') (hc : Current s')
    (hperm : s.contents.Perm (ev :: s'.contents))
    (hwidth : s'.taken.Shrinks → s'.taken.NonzeroWidth) :
    ∃ t, s'.taken.resizeDown = some t ∧ Resized s' t := by
  have hsound : Sound s'.taken := by
    refine ⟨hf.congr rfl rfl rfl, ⟨hc.1, hc.2, hc.3, hc.4⟩, fun e he => ?_, ?_⟩
    · exact hs.valid e (hperm.mem_iff.mpr (List.mem_cons_of_mem _ he))
    · have hlength := hperm.length_eq
      have hsize := hs.qSize_eq
      rw [List.length_cons] at hlength
      have hone : (1 : UInt32) ≤ s'.qSize := by
        rw [hsame.qSize_eq, UInt32.le_iff_toNat_le, UInt32.toNat_one]
        omega
      change (s'.qSize - 1).toNat = s'.contents.length
      rw [UInt32.toNat_sub_of_le _ _ hone, UInt32.toNat_one, hsame.qSize_eq]
      omega
  obtain ⟨t, hresize, hresized⟩ := resizeDown_spec hsound hwidth
  exact ⟨t, hresize, hresized.sound, hresized.perm, hresized.lastPrio_eq⟩

theorem Sound.qSize_ne_zero (hs : Sound s) (hne : s.contents ≠ []) : s.qSize ≠ 0 := by
  intro hzero
  have hsize := hs.qSize_eq
  rw [hzero] at hsize
  exact hne (List.eq_nil_of_length_eq_zero hsize.symm)

theorem removeNext_spec (hs : Sound s) (hne : s.contents ≠ [])
    (hwidth : ∀ r ∈ s.doRemoveNext, r.2.taken.Shrinks → r.2.taken.NonzeroWidth) :
    ∃ ev s', s.removeNext = some (ev, s') ∧ Least ev s.contents ∧
      s.contents.Perm (ev :: s'.contents) ∧ Sound s' ∧ s'.lastPrio = ev.key.ts := by
  have hsize := hs.qSize_ne_zero hne
  obtain ⟨ev, s₁, hremove, hleast, hperm, hf, hc, hprio, hsame⟩ :=
    doRemoveNext_spec hs.filed hs.current hsize hne
  obtain ⟨s', hresize, hresized⟩ := taken_spec hs hsame hf hc hperm (hwidth _ hremove)
  refine ⟨ev, s', ?_, hleast, hperm.trans (hresized.perm.symm.cons ev), hresized.sound,
    hresized.lastPrio_eq.trans hprio⟩
  unfold removeNext
  rw [if_neg (by unfold CalendarScheduler.isEmpty; rw [decide_eq_true_iff]; exact hsize), hremove,
    Option.bind_some, hresize, Option.map_some]

theorem remove_spec (hs : Sound s) (hev : ev ∈ s.contents)
    (hwidth : ∀ t ∈ s.erase ev, t.taken.Shrinks → t.taken.NonzeroWidth) :
    ∃ s', s.remove ev = some s' ∧ s.contents.Perm (ev :: s'.contents) ∧ Sound s' ∧
      s'.lastPrio = s.lastPrio := by
  have hsize := hs.qSize_ne_zero (List.ne_nil_of_mem hev)
  have hf := hs.filed
  -- the event is in the bucket of its day, where `Remove` looks for it
  obtain ⟨b, hb⟩ : ∃ b, b = (s.hash ev.key.ts).toNat := ⟨_, rfl⟩
  have hday : b = s.day ev.key.ts % s.nBuckets.toNat := hb.trans (hash_toNat hf _)
  have hlt : b < s.nBuckets.toNat := hday ▸ Nat.mod_lt _ hf.nBuckets_pos
  obtain ⟨rest, hremove, hrest, hsorted⟩ := ListScheduler.remove_spec (hf.sorted b hlt)
    (hf.bucket_distinct hlt) (hday ▸ hf.mem_bucket hev)
  obtain ⟨s₁, hs₁⟩ : ∃ s₁ : CalendarScheduler, s₁ =
    { s with buckets := Function.update s.buckets b rest } := ⟨_, rfl⟩
  have herase : s.erase ev = some s₁ := by
    unfold erase
    dsimp only
    rw [← hb, hremove, Option.map_some, hs₁]
  obtain ⟨hf₁, hperm⟩ := hf.takeOut hlt hrest hsorted hs₁
  have hsame : SameCalendar s s₁ := by
    rw [hs₁]
    exact ⟨rfl, rfl, rfl⟩
  have hc₁ : Current s₁ := hs.current.congr hsame (by rw [hs₁]) (by rw [hs₁]) (by rw [hs₁])
    fun e he => hperm.mem_iff.mpr (List.mem_cons_of_mem _ he)
  obtain ⟨s', hresize, hresized⟩ := taken_spec hs hsame hf₁ hc₁ hperm (hwidth _ herase)
  refine ⟨s', ?_, hperm.trans (hresized.perm.symm.cons ev), hresized.sound,
    hresized.lastPrio_eq.trans (by rw [hs₁])⟩
  unfold remove
  rw [if_neg (by unfold CalendarScheduler.isEmpty; rw [decide_eq_true_iff]; exact hsize), herase,
    Option.bind_some, hresize]

/-! ## Runs -/

/-- One call: the scheduler afterwards and the event returned. -/
def call (s : CalendarScheduler) : Call → Option (CalendarScheduler × Option Event)
  | .insert ev => (s.insert ev).map fun s => (s, none)
  | .peekNext => s.peekNext.map fun ev => (s, some ev)
  | .removeNext => s.removeNext.map fun r => (r.2, some r.1)
  | .remove ev => (s.remove ev).map fun s => (s, none)

/-- The scheduler, and the time stamp of the last event that `RemoveNext` returned. -/
structure Simulated where
  scheduler : CalendarScheduler
  now : UInt64

def start : Simulated := ⟨create, 0⟩

def step (w : Simulated) (c : Call) : Option Simulated :=
  (w.scheduler.call c).map fun r =>
    { scheduler := r.1
      now := match c, r.2 with
        | .removeNext, some ev => ev.key.ts
        | _, _ => w.now }

/-- What the callers promise: fresh uids, which are not zero, times from the last removed event on,
no query of an empty queue, removal of stored events. -/
def Allowed (w : Simulated) : Call → Prop
  | .insert ev =>
      (∀ e ∈ w.scheduler.contents, e.uid ≠ ev.uid) ∧ ev.uid ≠ 0 ∧ ev.key.ts.toNat < 2 ^ 63 ∧
        w.now ≤ ev.key.ts
  | .peekNext => w.scheduler.contents ≠ []
  | .removeNext => w.scheduler.contents ≠ []
  | .remove ev => ev ∈ w.scheduler.contents

/-- The call computes no width that is zero. -/
def NonzeroWidths (s : CalendarScheduler) : Call → Prop
  | .insert ev => (s.added ev).Grows → (s.added ev).NonzeroWidth
  | .peekNext => True
  | .removeNext => ∀ r ∈ s.doRemoveNext, r.2.taken.Shrinks → r.2.taken.NonzeroWidth
  | .remove ev => ∀ t ∈ s.erase ev, t.taken.Shrinks → t.taken.NonzeroWidth

/-- The call succeeds with the result of a priority queue. -/
def Answered (s : CalendarScheduler) (c : Call) : Prop :=
  ∃ s' returned, s.call c = some (s', returned) ∧ Exact s.contents s'.contents returned c

theorem create_sound : Sound create where
  filed := by
    refine ⟨by decide, by decide, by decide, by decide, fun _ _ => List.Pairwise.nil,
      fun _ _ e he => ?_, fun e he => ?_, List.Pairwise.nil⟩
    · cases he
    · cases he
  current := ⟨by decide, by decide, by decide, fun e he => by cases he⟩
  valid e he := by cases he
  qSize_eq := rfl

/-- An allowed call is answered, and it leaves the calendar in order. -/
theorem answered {w : Simulated} {c : Call} (hs : Sound w.scheduler)
    (hnow : w.scheduler.lastPrio = w.now) (hallowed : Allowed w c)
    (hwidths : w.scheduler.NonzeroWidths c) :
    w.scheduler.Answered c ∧ ∀ w', step w c = some w' →
      Sound w'.scheduler ∧ w'.scheduler.lastPrio = w'.now := by
  cases c with
  | insert ev =>
      obtain ⟨hfresh, hvalid, hearly, hlate⟩ := hallowed
      obtain ⟨s', hinsert, hperm, hsound, hprio⟩ := insert_spec hs hearly
        (by rw [hnow]; exact UInt64.le_iff_toNat_le.mp hlate) hfresh hvalid hwidths
      have hcall : w.scheduler.call (.insert ev) = some (s', none) := by
        rw [call, hinsert, Option.map_some]
      refine ⟨⟨s', none, hcall, rfl, hperm⟩, fun w' hstep => ?_⟩
      rw [step, hcall] at hstep
      obtain rfl := Option.some.inj hstep
      exact ⟨hsound, hprio.trans hnow⟩
  | peekNext =>
      obtain ⟨ev, hpeek, hleast⟩ :=
        peekNext_spec hs.filed hs.current (hs.qSize_ne_zero hallowed) hallowed
      have hcall : w.scheduler.call .peekNext = some (w.scheduler, some ev) := by
        rw [call, hpeek, Option.map_some]
      refine ⟨⟨_, _, hcall, ev, rfl, hleast, List.Perm.refl _⟩, fun w' hstep => ?_⟩
      rw [step, hcall] at hstep
      obtain rfl := Option.some.inj hstep
      exact ⟨hs, hnow⟩
  | removeNext =>
      obtain ⟨ev, s', hremove, hleast, hperm, hsound, hprio⟩ :=
        removeNext_spec hs hallowed hwidths
      have hcall : w.scheduler.call .removeNext = some (s', some ev) := by
        rw [call, hremove, Option.map_some]
      refine ⟨⟨s', _, hcall, ev, rfl, hleast, hperm⟩, fun w' hstep => ?_⟩
      rw [step, hcall] at hstep
      obtain rfl := Option.some.inj hstep
      exact ⟨hsound, hprio⟩
  | remove ev =>
      obtain ⟨s', hremove, hperm, hsound, hprio⟩ := remove_spec hs hallowed hwidths
      have hcall : w.scheduler.call (.remove ev) = some (s', none) := by
        rw [call, hremove, Option.map_some]
      refine ⟨⟨s', none, hcall, rfl, hperm⟩, fun w' hstep => ?_⟩
      rw [step, hcall] at hstep
      obtain rfl := Option.some.inj hstep
      exact ⟨hsound, hprio.trans hnow⟩

/-- In every run that computes no width of zero, the calendar scheduler is a priority queue, and its
counter is the number of stored events. -/
theorem calendar_is_priority_queue {calls : List Call}
    (hcalls : EachStep step
      (fun w c _ => Allowed w c ∧ w.scheduler.NonzeroWidths c) start calls) :
    Throughout step
      (fun w => w.scheduler.qSize.toNat = w.scheduler.contents.length ∧
        ∀ c, Allowed w c → w.scheduler.NonzeroWidths c → w.scheduler.Answered c) start calls := by
  have hkeep : ∀ w c w', (Sound w.scheduler ∧ w.scheduler.lastPrio = w.now) →
      step w c = some w' → (Allowed w c ∧ w.scheduler.NonzeroWidths c) →
        Sound w'.scheduler ∧ w'.scheduler.lastPrio = w'.now :=
    fun w c w' hs hstep hcond => (answered hs.1 hs.2 hcond.1 hcond.2).2 w' hstep
  have hsound := throughout_of_eachStep hkeep ⟨create_sound, rfl⟩ hcalls
  exact hsound.mono fun w hs => ⟨hs.1.qSize_eq, fun c hallowed hwidths =>
    (answered hs.1 hs.2 hallowed hwidths).1⟩

instance (w : Simulated) : (c : Call) → Decidable (Allowed w c)
  | .insert _ => inferInstanceAs (Decidable (_ ∧ _ ∧ _ ∧ _))
  | .peekNext => inferInstanceAs (Decidable (_ ≠ _))
  | .removeNext => inferInstanceAs (Decidable (_ ≠ _))
  | .remove _ => inferInstanceAs (Decidable (_ ∈ _))

instance (s : CalendarScheduler) : Decidable s.NonzeroWidth :=
  inferInstanceAs (Decidable (∀ r ∈ s.calculateNewWidth, r.2 ≠ 0))

instance (s : CalendarScheduler) : (c : Call) → Decidable (s.NonzeroWidths c)
  | .insert _ => inferInstanceAs (Decidable (_ → _))
  | .peekNext => inferInstanceAs (Decidable True)
  | .removeNext => inferInstanceAs (Decidable (∀ r ∈ s.doRemoveNext, _ → _))
  | .remove ev => inferInstanceAs (Decidable (∀ t ∈ s.erase ev, _ → _))

/-- Inserts that double the number of buckets twice, and removals that halve it. -/
def growAndShrink : List Call :=
  [9, 3, 17, 3000000000, 12, 40, 25, 1, 33, 28].map (fun n =>
      Call.insert ⟨n, ⟨UInt64.ofNat n, UInt32.ofNat (n + 1), 0⟩⟩) ++
    [.removeNext, .peekNext, .remove ⟨40, ⟨40, 41, 0⟩⟩] ++
      List.replicate 7 .removeNext

theorem calendar_is_priority_queue_resized :
    Throughout step
      (fun w => w.scheduler.qSize.toNat = w.scheduler.contents.length ∧
        ∀ c, Allowed w c → w.scheduler.NonzeroWidths c → w.scheduler.Answered c) start
      growAndShrink :=
  calendar_is_priority_queue (eachStep_of_take (by decide +kernel))

end Ns3Rdma.Sched.CalendarScheduler
