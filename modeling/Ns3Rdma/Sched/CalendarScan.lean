import Ns3Rdma.Sched.CalendarScheduler
import Ns3Rdma.Sched.HeapRefinesList

/-!
# The scan of the calendar scheduler

The bucket of an event follows from its day, the quotient of time stamp and width. The scan begins
on the day of the last removal, before which nothing is stored, and looks at one day in each round.
-/

namespace Ns3Rdma.Sched.CalendarScheduler

open HeapScheduler (Least)

variable {s s' : CalendarScheduler}

/-- The day of a time stamp. -/
def day (s : CalendarScheduler) (ts : UInt64) : ℕ := ts.toNat / s.width.toNat

/-- The events are in the buckets of their days, in order. -/
structure Filed (s : CalendarScheduler) : Prop where
  nBuckets_pos : 0 < s.nBuckets.toNat
  nBuckets_le : s.nBuckets.toNat ≤ 2 ^ 16
  width_pos : 0 < s.width.toNat
  width_lt : s.width.toNat < 2 ^ 32
  sorted : ∀ i < s.nBuckets.toNat, ListScheduler.Sorted (s.buckets i)
  hashed : ∀ i < s.nBuckets.toNat, ∀ e ∈ s.buckets i, s.day e.key.ts % s.nBuckets.toNat = i
  early : ∀ e ∈ s.contents, e.key.ts.toNat < 2 ^ 63
  distinct : DistinctUids s.contents

/-- The scan begins at the last removal, and nothing is stored before it. -/
structure Current (s : CalendarScheduler) : Prop where
  lastPrio_lt : s.lastPrio.toNat < 2 ^ 63
  lastBucket_eq : s.lastBucket.toNat = s.day s.lastPrio % s.nBuckets.toNat
  bucketTop_eq : s.bucketTop.toNat = (s.day s.lastPrio + 1) * s.width.toNat
  late : ∀ e ∈ s.contents, s.lastPrio.toNat ≤ e.key.ts.toNat

theorem mem_contents {e : Event} :
    e ∈ s.contents ↔ ∃ i < s.nBuckets.toNat, e ∈ s.buckets i := by
  unfold contents
  simp only [List.mem_flatMap, List.mem_range]

theorem contents_congr (hbuckets : s'.buckets = s.buckets) (hnBuckets : s'.nBuckets = s.nBuckets) :
    s'.contents = s.contents := by
  unfold contents
  rw [hbuckets, hnBuckets]

theorem Filed.congr (hf : Filed s) (hbuckets : s'.buckets = s.buckets)
    (hnBuckets : s'.nBuckets = s.nBuckets) (hwidth : s'.width = s.width) : Filed s' := by
  have hcontents := contents_congr hbuckets hnBuckets
  refine ⟨?_, ?_, ?_, ?_, ?_, ?_, ?_, ?_⟩
  · rw [hnBuckets]
    exact hf.nBuckets_pos
  · rw [hnBuckets]
    exact hf.nBuckets_le
  · rw [hwidth]
    exact hf.width_pos
  · rw [hwidth]
    exact hf.width_lt
  · rw [hbuckets, hnBuckets]
    exact hf.sorted
  · unfold day
    rw [hbuckets, hnBuckets, hwidth]
    exact hf.hashed
  · rw [hcontents]
    exact hf.early
  · rw [hcontents]
    exact hf.distinct

theorem hash_toNat (hf : Filed s) (ts : UInt64) :
    (s.hash ts).toNat = s.day ts % s.nBuckets.toNat := by
  unfold hash day
  rw [UInt64.toNat_toUInt32, UInt64.toNat_mod, UInt64.toNat_div, UInt32.toNat_toUInt64]
  have hlt := Nat.mod_lt (ts.toNat / s.width.toNat) hf.nBuckets_pos
  have hle := hf.nBuckets_le
  exact Nat.mod_eq_of_lt (by omega)

theorem Filed.mem_bucket (hf : Filed s) {e : Event} (he : e ∈ s.contents) :
    e ∈ s.buckets (s.day e.key.ts % s.nBuckets.toNat) := by
  obtain ⟨i, hi, hmem⟩ := mem_contents.mp he
  rw [hf.hashed i hi e hmem]
  exact hmem

/-- The first event of a bucket is the smallest one in it. -/
theorem Filed.front_le (hf : Filed s) {i : ℕ} (hi : i < s.nBuckets.toNat) {next : Event}
    {rest : List Event} (hbucket : s.buckets i = next :: rest) :
    ∀ e ∈ s.buckets i, next.order ≤ e.order := by
  have hsorted := hf.sorted i hi
  rw [hbucket] at hsorted ⊢
  exact ListScheduler.head_le hsorted

theorem ts_le_of_order {a b : Event} (h : a.order ≤ b.order) :
    a.key.ts.toNat ≤ b.key.ts.toNat := by
  unfold Event.order at h
  rw [Prod.Lex.toLex_le_toLex] at h
  rcases h with hlt | ⟨heq, -⟩
  · exact hlt.le
  · exact heq.le

theorem order_lt_of_ts {a b : Event} (h : a.key.ts.toNat < b.key.ts.toNat) : a.order < b.order := by
  unfold Event.order
  rw [Prod.Lex.toLex_lt_toLex]
  exact Or.inl h

theorem key_lt_iff {a b : EventKey} :
    a.lt b = true ↔ (⟨0, a⟩ : Event).order < (⟨0, b⟩ : Event).order :=
  Event.lt_iff (a := ⟨0, a⟩) (b := ⟨0, b⟩)

/-! ## The scan -/

/-- What the scan finds is the smallest event, with its bucket and the end of its day. -/
def Finds {α : Type} (s : CalendarScheduler) (note : UInt32 → Event → α) : Scan α → Prop
  | .found i top next =>
      i.toNat < s.nBuckets.toNat ∧ (∃ rest, s.buckets i.toNat = next :: rest) ∧
        Least next s.contents ∧ i.toNat = s.day next.key.ts % s.nBuckets.toNat ∧
        top.toNat = (s.day next.key.ts + 1) * s.width.toNat
  | .direct key a =>
      s.contents ≠ [] → ∃ i : UInt32, ∃ next rest, i.toNat < s.nBuckets.toNat ∧
        s.buckets i.toNat = next :: rest ∧ key = next.key ∧ a = note i next ∧
        Least next s.contents

/-- The bucket of round `j`. -/
def round (s : CalendarScheduler) (j : ℕ) : ℕ := (s.day s.lastPrio + j) % s.nBuckets.toNat

/-- What the scan knows before round `k`. -/
structure Scanned {α : Type} (s : CalendarScheduler) (note : UInt32 → Event → α) (start : EventKey)
    (k : ℕ) (key : EventKey) (a : α) : Prop where
  later : ∀ e ∈ s.contents, s.day s.lastPrio + k ≤ s.day e.key.ts
  least : ∀ j < k, ∀ e ∈ s.buckets (s.round j), (⟨0, key⟩ : Event).order ≤ e.order
  noted : (key = start ∧ ∀ j < k, s.buckets (s.round j) = []) ∨
    ∃ i : UInt32, ∃ next rest, i.toNat < s.nBuckets.toNat ∧ s.buckets i.toNat = next :: rest ∧
      key = next.key ∧ a = note i next

section Rounds

variable {α : Type} {note : UInt32 → Event → α} {start key : EventKey} {a : α} {k : ℕ}
  {i : UInt32} {top : UInt64}

theorem round_lt (hf : Filed s) (j : ℕ) : s.round j < s.nBuckets.toNat :=
  Nat.mod_lt _ hf.nBuckets_pos

/-- Every bucket has its round. -/
theorem exists_round {b : ℕ} (hb : b < s.nBuckets.toNat) :
    ∃ j < s.nBuckets.toNat, s.round j = b := by
  obtain ⟨n, hn⟩ : ∃ n, n = s.nBuckets.toNat := ⟨_, rfl⟩
  obtain ⟨d, hd⟩ : ∃ d, d = s.day s.lastPrio := ⟨_, rfl⟩
  unfold round
  rw [← hn] at hb ⊢
  rw [← hd]
  have hmod := Nat.mod_lt d (Nat.zero_lt_of_lt hb)
  refine ⟨(b + (n - d % n)) % n, Nat.mod_lt _ (Nat.zero_lt_of_lt hb), ?_⟩
  have hsum : d + (b + (n - d % n)) = b + n * (d / n + 1) := by
    have hdiv := Nat.div_add_mod d n
    rw [Nat.mul_add, Nat.mul_one]
    omega
  rw [Nat.add_mod_mod, hsum, Nat.add_mul_mod_self_left, Nat.mod_eq_of_lt hb]

/-- The rounds come back to the first bucket only after all buckets. -/
theorem round_eq_start (hk : 0 < k) (hle : k ≤ s.nBuckets.toNat)
    (heq : s.round k = s.day s.lastPrio % s.nBuckets.toNat) : k = s.nBuckets.toNat := by
  have hzero := Nat.sub_mod_eq_zero_of_mod_eq heq
  rw [Nat.add_sub_cancel_left] at hzero
  exact le_antisymm hle (Nat.le_of_dvd hk (Nat.dvd_of_mod_eq_zero hzero))

theorem next_round (hf : Filed s) (hi : i.toNat = s.round k) :
    ((i + 1) % s.nBuckets).toNat = s.round (k + 1) := by
  have hlt := round_lt hf k
  have hle := hf.nBuckets_le
  have hadd : (i + 1).toNat = s.round k + 1 := by
    rw [UInt32.toNat_add, UInt32.toNat_one, hi]
    omega
  rw [UInt32.toNat_mod, hadd]
  unfold round
  rw [← Nat.add_assoc, Nat.mod_add_mod]

theorem next_top (hf : Filed s) (hc : Current s) (hk : k < s.nBuckets.toNat)
    (htop : top.toNat = (s.day s.lastPrio + k + 1) * s.width.toNat) :
    (top + s.width).toNat = (s.day s.lastPrio + (k + 1) + 1) * s.width.toNat := by
  have hstart : s.day s.lastPrio * s.width.toNat < 2 ^ 63 :=
    (Nat.div_mul_le_self _ _).trans_lt hc.lastPrio_lt
  have hspan : (k + 1 + 1) * s.width.toNat ≤ (2 ^ 16 + 1) * 2 ^ 32 :=
    Nat.mul_le_mul (by have := hf.nBuckets_le; omega) hf.width_lt.le
  have hsum : (s.day s.lastPrio + (k + 1) + 1) * s.width.toNat =
      s.day s.lastPrio * s.width.toNat + (k + 1 + 1) * s.width.toNat := by
    rw [← Nat.add_mul]
    congr 1
  have hnext : (s.day s.lastPrio + k + 1) * s.width.toNat + s.width.toNat =
      (s.day s.lastPrio + (k + 1) + 1) * s.width.toNat := by
    rw [← Nat.succ_mul]
    congr 1
  rw [UInt64.toNat_add, htop, hnext, hsum]
  exact Nat.mod_eq_of_lt (by omega)

/-- A round that finds its bucket without an event of the day. -/
theorem Scanned.later_succ (hf : Filed s) (hs : Scanned s note start k key a)
    (hnone : ∀ e ∈ s.buckets (s.round k),
      (s.day s.lastPrio + k + 1) * s.width.toNat ≤ e.key.ts.toNat) :
    ∀ e ∈ s.contents, s.day s.lastPrio + (k + 1) ≤ s.day e.key.ts := by
  intro e he
  have hge := hs.later e he
  by_contra hlt
  have hday : s.day e.key.ts = s.day s.lastPrio + k := by omega
  have hmem := hf.mem_bucket he
  rw [hday] at hmem
  have hlate := hnone e hmem
  have hdiv : s.day s.lastPrio + k + 1 ≤ s.day e.key.ts :=
    (Nat.le_div_iff_mul_le hf.width_pos).mpr hlate
  omega

theorem Scanned.empty_round (hf : Filed s) (hs : Scanned s note start k key a)
    (hempty : s.buckets (s.round k) = []) : Scanned s note start (k + 1) key a := by
  refine ⟨hs.later_succ hf ?_, fun j hj e he => ?_, ?_⟩
  · rw [hempty]
    exact fun e he => by cases he
  · rcases Nat.lt_succ_iff_lt_or_eq.mp hj with hlt | rfl
    · exact hs.least j hlt e he
    · rw [hempty] at he
      cases he
  · refine hs.noted.imp_left fun ⟨hkey, hall⟩ => ⟨hkey, fun j hj => ?_⟩
    rcases Nat.lt_succ_iff_lt_or_eq.mp hj with hlt | rfl
    · exact hall j hlt
    · exact hempty

/-- A round that only notes the first event of its bucket. -/
theorem Scanned.noted_round (hf : Filed s) (hs : Scanned s note start k key a)
    (hstart : ∀ e ∈ s.contents, e.key.lt start = true) (hi : i.toNat = s.round k) {next : Event}
    {rest : List Event} (hbucket : s.buckets (s.round k) = next :: rest)
    (hlate : (s.day s.lastPrio + k + 1) * s.width.toNat ≤ next.key.ts.toNat)
    {least : EventKey × α}
    (hleast : least = if next.key.lt key then (next.key, note i next) else (key, a)) :
    Scanned s note start (k + 1) least.1 least.2 := by
  have hfront := hf.front_le (round_lt hf k) hbucket
  have hmem : next ∈ s.contents := mem_contents.mpr
    ⟨_, round_lt hf k, by rw [hbucket]; exact List.mem_cons_self⟩
  have hle : (⟨0, least.1⟩ : Event).order ≤ (⟨0, key⟩ : Event).order ∧
      (⟨0, least.1⟩ : Event).order ≤ next.order := by
    rw [hleast]
    split
    next hlt => exact ⟨(key_lt_iff.mp hlt).le, le_rfl⟩
    next hnot => exact ⟨le_rfl, not_lt.mp (mt key_lt_iff.mpr hnot)⟩
  refine ⟨hs.later_succ hf fun e he => hlate.trans (ts_le_of_order (hfront e he)),
    fun j hj e he => ?_, Or.inr ?_⟩
  · rcases Nat.lt_succ_iff_lt_or_eq.mp hj with hlt | rfl
    · exact hle.1.trans (hs.least j hlt e he)
    · exact hle.2.trans (hfront e he)
  · rw [hleast]
    split
    next => exact ⟨i, next, rest, hi ▸ round_lt hf k, hi ▸ hbucket, rfl, rfl⟩
    next hnot =>
      rcases hs.noted with ⟨rfl, -⟩ | hnoted
      · exact absurd (hstart next hmem) hnot
      · exact hnoted

theorem Scanned.direct (hs : Scanned s note start s.nBuckets.toNat key a) :
    Finds s note (.direct key a) := by
  intro hne
  obtain ⟨e, he⟩ := List.exists_mem_of_ne_nil _ hne
  have hround : ∀ e ∈ s.contents, ∃ j < s.nBuckets.toNat, e ∈ s.buckets (s.round j) := by
    intro e he
    obtain ⟨b, hb, hmem⟩ := mem_contents.mp he
    obtain ⟨j, hj, rfl⟩ := exists_round hb
    exact ⟨j, hj, hmem⟩
  rcases hs.noted with ⟨-, hall⟩ | ⟨i, next, rest, hi, hbucket, rfl, rfl⟩
  · obtain ⟨j, hj, hmem⟩ := hround e he
    rw [hall j hj] at hmem
    cases hmem
  · refine ⟨i, next, rest, hi, hbucket, rfl, rfl, ?_, fun other hother => ?_⟩
    · exact mem_contents.mpr ⟨_, hi, by rw [hbucket]; exact List.mem_cons_self⟩
    · obtain ⟨j, hj, hmem⟩ := hround other hother
      exact hs.least j hj other hmem

theorem Scanned.found (hf : Filed s) (hs : Scanned s note start k key a)
    (hi : i.toNat = s.round k) {next : Event} {rest : List Event}
    (hbucket : s.buckets (s.round k) = next :: rest)
    (htop : top.toNat = (s.day s.lastPrio + k + 1) * s.width.toNat)
    (hlt : next.key.ts.toNat < top.toNat) : Finds s note (.found i top next) := by
  have hmem : next ∈ s.contents := mem_contents.mpr
    ⟨_, round_lt hf k, by rw [hbucket]; exact List.mem_cons_self⟩
  have hday : s.day next.key.ts = s.day s.lastPrio + k := by
    have hge := hs.later next hmem
    have hle : s.day next.key.ts < s.day s.lastPrio + k + 1 :=
      (Nat.div_lt_iff_lt_mul hf.width_pos).mpr (htop ▸ hlt)
    omega
  refine ⟨hi ▸ round_lt hf k, ⟨rest, hi ▸ hbucket⟩, ⟨hmem, fun e he => ?_⟩, ?_, ?_⟩
  · rcases Nat.eq_or_lt_of_le (hs.later e he) with heq | hafter
    · have hbucketOf := hf.mem_bucket he
      rw [← heq] at hbucketOf
      exact hf.front_le (round_lt hf k) hbucket e hbucketOf
    · have hlate := (Nat.le_div_iff_mul_le hf.width_pos).mp (Nat.succ_le_of_lt hafter)
      exact (order_lt_of_ts (hlt.trans_le (htop ▸ hlate))).le
  · rw [hday]
    exact hi
  · rw [hday]
    exact htop

/-- One round, if the rounds after it find what they should. -/
theorem scanRound_finds (hf : Filed s) (hc : Current s)
    (hstart : ∀ e ∈ s.contents, e.key.lt start = true) {fuel : ℕ} (hk : k < s.nBuckets.toNat)
    (hi : i.toNat = s.round k)
    (htop : top.toNat = (s.day s.lastPrio + k + 1) * s.width.toNat)
    (hs : Scanned s note start k key a)
    (hrest : k + 1 < s.nBuckets.toNat → ∀ (i : UInt32) (top : UInt64) (key : EventKey) (a : α),
      i.toNat = s.round (k + 1) →
        top.toNat = (s.day s.lastPrio + (k + 1) + 1) * s.width.toNat →
          Scanned s note start (k + 1) key a → Finds s note (scanLoop s note fuel i top key a)) :
    Finds s note (scanLoop s note (fuel + 1) i top key a) := by
  have hgoOn : ∀ (key : EventKey) (a : α), Scanned s note start (k + 1) key a →
      Finds s note (if (i + 1) % s.nBuckets = s.lastBucket then .direct key a
        else scanLoop s note fuel ((i + 1) % s.nBuckets) (top + s.width) key a) := by
    intro key a hs'
    have hround := next_round hf hi
    split
    next heq =>
      rw [heq, hc.lastBucket_eq] at hround
      have hlast : k + 1 = s.nBuckets.toNat := round_eq_start (Nat.succ_pos k) hk hround.symm
      exact Scanned.direct (hlast ▸ hs')
    next hne =>
      refine hrest (lt_of_le_of_ne hk fun hlast => hne ?_) _ _ _ _ hround (next_top hf hc hk htop)
        hs'
      apply UInt32.toNat_inj.mp
      rw [hround, hc.lastBucket_eq, round, hlast, Nat.add_mod_right]
  unfold scanLoop
  rw [hi]
  split
  next hempty => exact hgoOn _ _ (hs.empty_round hf hempty)
  next next rest hbucket =>
    split
    next hlt => exact hs.found hf hi hbucket htop (UInt64.lt_iff_toNat_lt.mp hlt)
    next hnot =>
      have hlate : (s.day s.lastPrio + k + 1) * s.width.toNat ≤ next.key.ts.toNat := by
        rw [UInt64.lt_iff_toNat_lt, htop] at hnot
        omega
      exact hgoOn _ _ (hs.noted_round hf hstart hi hbucket hlate rfl)

/-- The loop finds the smallest event. -/
theorem scanLoop_finds (hf : Filed s) (hc : Current s)
    (hstart : ∀ e ∈ s.contents, e.key.lt start = true) {fuel : ℕ}
    (hfuel : fuel + k = s.nBuckets.toNat) (hk : k < s.nBuckets.toNat) (hi : i.toNat = s.round k)
    (htop : top.toNat = (s.day s.lastPrio + k + 1) * s.width.toNat)
    (hs : Scanned s note start k key a) :
    Finds s note (scanLoop s note fuel i top key a) := by
  induction fuel generalizing k i top key a with
  | zero => omega
  | succ fuel ih =>
      exact scanRound_finds hf hc hstart hk hi htop hs fun hlt i top key a hi' htop' hs' =>
        ih (by omega) hlt hi' htop' hs'

theorem scan_finds (hf : Filed s) (hc : Current s)
    (hstart : ∀ e ∈ s.contents, e.key.lt start = true) : Finds s note (s.scan note start a) := by
  refine scanLoop_finds hf hc hstart (Nat.add_zero _) hf.nBuckets_pos hc.lastBucket_eq
    hc.bucketTop_eq ⟨fun e he => ?_, fun j hj => by omega, Or.inl ⟨rfl, fun j hj => by omega⟩⟩
  exact Nat.div_le_div_right (hc.late e he)

end Rounds

end Ns3Rdma.Sched.CalendarScheduler
