import Mathlib.Data.List.Sort
import Mathlib.Data.Nat.GCD.Basic
import Ns3Rdma.Sched.CalendarQueue

/-!
# The width of the buckets

The width is the triple of a sum of separations, of which the lower 32 bits are returned. The
separations do not wrap, but the lower bits may all be zero.
-/

namespace Ns3Rdma.Sched

/-! ## Gaps between numbers in increasing order -/

/-- The gaps between neighbours. -/
def gaps (times : List ℕ) : List ℕ := times.tail.zipWith (fun next cur => next - cur) times

/-- The gaps that are at most twice the average, added up. -/
def counted (times : List ℕ) : ℕ :=
  ((gaps times).filter fun gap => gap ≤ (gaps times).sum / (times.length - 1) * 2).sum

theorem gaps_cons (a b : ℕ) (rest : List ℕ) :
    gaps (a :: b :: rest) = (b - a) :: gaps (b :: rest) := rfl

theorem sum_gaps_lt {bound a : ℕ} {rest : List ℕ} (hsorted : (a :: rest).Pairwise (· ≤ ·))
    (hbound : ∀ b ∈ a :: rest, b < bound) : (gaps (a :: rest)).sum + a < bound := by
  induction rest generalizing a with
  | nil => simpa [gaps] using hbound
  | cons b rest ih =>
      obtain ⟨hle, htail⟩ := List.pairwise_cons.mp hsorted
      have hrest := ih htail fun c hc => hbound c (List.mem_cons_of_mem _ hc)
      have hab := hle b List.mem_cons_self
      rw [gaps_cons, List.sum_cons]
      omega

theorem sum_filter_le (p : ℕ → Bool) (gaps : List ℕ) : (gaps.filter p).sum ≤ gaps.sum :=
  List.filter_sublist.sum_le_sum fun _ _ => Nat.zero_le _

/-- What is sorted and lies below the rest comes first when all are sorted. -/
theorem mergeSort_take {samples rest all : List ℕ} (hperm : all.Perm (samples ++ rest))
    (hsorted : samples.Pairwise (· ≤ ·)) (hbelow : ∀ a ∈ samples, ∀ b ∈ rest, a ≤ b) :
    all.mergeSort.take samples.length = samples := by
  have hall : all.mergeSort = samples ++ rest.mergeSort := by
    have hsame : all.mergeSort.Perm (samples ++ rest.mergeSort) :=
      (List.mergeSort_perm all _).trans
        (hperm.trans ((List.mergeSort_perm rest _).symm.append_left samples))
    refine hsame.eq_of_pairwise (fun a b _ _ => Nat.le_antisymm)
      (List.pairwise_mergeSort' (· ≤ ·) all) ?_
    refine List.pairwise_append.mpr ⟨hsorted, List.pairwise_mergeSort' (· ≤ ·) rest, ?_⟩
    intro a ha b hb
    exact hbelow a ha b (List.mem_mergeSort.mp hb)
  rw [hall, List.take_left]

namespace CalendarScheduler

variable {s : CalendarScheduler}

/-! ## The samples -/

def times (events : List Event) : List ℕ := events.map fun e => e.key.ts.toNat

/-- The samples are the next events. -/
theorem gather_sorted (hf : Filed s) (hc : Current s) (hsize : s.qSize ≠ 0) {n : ℕ}
    (hn : n ≤ s.contents.length) :
    ∃ samples s', gather n s = some (samples, s') ∧ samples.length = n ∧
      s.contents.Perm (samples ++ s'.contents) ∧ (times samples).Pairwise (· ≤ ·) ∧
        ∀ a ∈ samples, ∀ b ∈ s'.contents, a.key.ts.toNat ≤ b.key.ts.toNat := by
  induction n generalizing s with
  | zero =>
      exact ⟨[], s, rfl, rfl, List.Perm.refl _, List.Pairwise.nil, fun a ha => by cases ha⟩
  | succ n ih =>
      have hne : s.contents ≠ [] := List.ne_nil_of_length_pos (by omega)
      obtain ⟨ev, s₁, hremove, hleast, hperm, hf₁, hc₁, -, hsame₁⟩ :=
        doRemoveNext_spec hf hc hsize hne
      have hlength := hperm.length_eq
      rw [List.length_cons] at hlength
      obtain ⟨samples, s', hgather, hcount, hrest, hsorted, hbelow⟩ :=
        ih hf₁ hc₁ (hsame₁.qSize_eq ▸ hsize) (by omega)
      have hall := hperm.trans (hrest.cons ev)
      have hfirst : ∀ e ∈ samples ++ s'.contents, ev.key.ts.toNat ≤ e.key.ts.toNat := by
        intro e he
        exact ts_le_of_order (hleast.2 e (hall.mem_iff.mpr (List.mem_cons_of_mem _ he)))
      refine ⟨ev :: samples, s', ?_, congrArg Nat.succ hcount, hall, ?_, ?_⟩
      · unfold gather
        rw [hremove, Option.bind_some, hgather, Option.map_some]
      · refine List.pairwise_cons.mpr ⟨?_, hsorted⟩
        intro t ht
        obtain ⟨e, he, rfl⟩ := List.mem_map.mp ht
        exact hfirst e (List.mem_append_left _ he)
      · intro a ha b hb
        rcases List.mem_cons.mp ha with rfl | hmem
        · exact hfirst b (List.mem_append_right _ hb)
        · exact hbelow a hmem b hb

theorem toNat_separations {samples : List Event} (hsorted : (times samples).Pairwise (· ≤ ·)) :
    (separations samples).map UInt64.toNat = gaps (times samples) := by
  induction samples with
  | nil => rfl
  | cons cur rest ih =>
      cases rest with
      | nil => rfl
      | cons next rest =>
          obtain ⟨hle, htail⟩ := List.pairwise_cons.mp hsorted
          have hnext : cur.key.ts.toNat ≤ next.key.ts.toNat := hle _ List.mem_cons_self
          have hgap : (next.key.ts - cur.key.ts).toNat =
              next.key.ts.toNat - cur.key.ts.toNat :=
            UInt64.toNat_sub_of_le _ _ (UInt64.le_iff_toNat_le.mpr hnext)
          change (next.key.ts - cur.key.ts).toNat ::
            (separations (next :: rest)).map UInt64.toNat = _
          rw [hgap, ih htail]
          rfl

theorem toNat_sum {terms : List UInt64} (h : (terms.map UInt64.toNat).sum < 2 ^ 64) :
    terms.sum.toNat = (terms.map UInt64.toNat).sum := by
  induction terms with
  | nil => rfl
  | cons term rest ih =>
      rw [List.map_cons, List.sum_cons] at h
      have hrest := ih (by omega)
      rw [List.sum_cons, UInt64.toNat_add, hrest, List.map_cons, List.sum_cons,
        Nat.mod_eq_of_lt h]

/-- The separations and their sum are exact. -/
theorem toNat_sum_separations {samples : List Event}
    (hsorted : (times samples).Pairwise (· ≤ ·)) (hearly : ∀ t ∈ times samples, t < 2 ^ 63)
    (hpos : 0 < (times samples).length) :
    (separations samples).sum.toNat = (gaps (times samples)).sum ∧
      (gaps (times samples)).sum < 2 ^ 63 := by
  have hbound : (gaps (times samples)).sum < 2 ^ 63 := by
    obtain ⟨t, rest, hcons⟩ := List.exists_cons_of_length_pos hpos
    rw [hcons] at hsorted hearly ⊢
    have hlt := sum_gaps_lt hsorted hearly
    omega
  refine ⟨?_, hbound⟩
  rw [toNat_sum, toNat_separations hsorted]
  rw [toNat_separations hsorted]
  omega

/-- `std::max` with 1. -/
theorem toNat_max_one (total : UInt64) :
    (if total ≤ 1 then (1 : UInt64) else total).toNat = max total.toNat 1 := by
  split
  next hle =>
    rw [UInt64.le_iff_toNat_le, UInt64.toNat_one] at hle
    rw [Nat.max_eq_right hle, UInt64.toNat_one]
  next hle =>
    rw [UInt64.not_le, UInt64.lt_iff_toNat_lt, UInt64.toNat_one] at hle
    rw [Nat.max_eq_left hle.le]

/-- What is left of the width is that of the counted gaps. -/
theorem toNat_widthOf {samples : List Event} {nSamples : UInt32}
    (hsorted : (times samples).Pairwise (· ≤ ·)) (hearly : ∀ t ∈ times samples, t < 2 ^ 63)
    (hcount : samples.length = nSamples.toNat) (htwo : 2 ≤ nSamples.toNat) :
    (separations samples).sum.toNat = (gaps (times samples)).sum ∧
      counted (times samples) < 2 ^ 63 ∧
        (widthOf samples nSamples).toNat =
          max (counted (times samples) * 3 % 2 ^ 64) 1 % 2 ^ 32 := by
  have hgaps := toNat_separations hsorted
  have hlength : (times samples).length = nSamples.toNat := (List.length_map _).trans hcount
  obtain ⟨hsum, hbound⟩ := toNat_sum_separations hsorted hearly (by omega)
  have hone : (nSamples - 1).toUInt64.toNat = (times samples).length - 1 := by
    have hle : (1 : UInt32) ≤ nSamples := by
      rw [UInt32.le_iff_toNat_le, UInt32.toNat_one]
      omega
    rw [UInt32.toNat_toUInt64, UInt32.toNat_sub_of_le _ _ hle, UInt32.toNat_one, hlength]
  obtain ⟨twiceAvg, htwiceAvg⟩ : ∃ twiceAvg, twiceAvg =
    (separations samples).sum / (nSamples - 1).toUInt64 * 2 := ⟨_, rfl⟩
  have htwice : twiceAvg.toNat = (gaps (times samples)).sum / ((times samples).length - 1) * 2 := by
    have hdiv := Nat.div_le_self (gaps (times samples)).sum ((times samples).length - 1)
    have htwo' : UInt64.toNat 2 = 2 := rfl
    rw [htwiceAvg, UInt64.toNat_mul, UInt64.toNat_div, hsum, hone, htwo', Nat.mod_eq_of_lt]
    omega
  have hfilter : ((separations samples).filter fun diff => diff ≤ twiceAvg).map UInt64.toNat =
      (gaps (times samples)).filter fun gap =>
        gap ≤ (gaps (times samples)).sum / ((times samples).length - 1) * 2 := by
    rw [← htwice, ← hgaps, List.filter_map]
    refine congrArg _ (List.filter_congr fun diff _ => ?_)
    exact decide_eq_decide.mpr UInt64.le_iff_toNat_le
  have hcounted : counted (times samples) < 2 ^ 63 := (sum_filter_le _ _).trans_lt hbound
  have htotal : (((separations samples).filter fun diff => diff ≤ twiceAvg).sum * 3).toNat =
      counted (times samples) * 3 % 2 ^ 64 := by
    have hthree : UInt64.toNat 3 = 3 := rfl
    rw [UInt64.toNat_mul, hthree, toNat_sum, hfilter]
    · rfl
    · rw [hfilter]
      exact hcounted.trans (by decide)
  refine ⟨hsum, hcounted, ?_⟩
  rw [widthOf, ← htwiceAvg, UInt64.toNat_toUInt32, ← htotal]
  exact congrArg (· % 2 ^ 32) (toNat_max_one _)

theorem width_eq_zero_iff {c : ℕ} (hc : c < 2 ^ 63) :
    max (c * 3 % 2 ^ 64) 1 % 2 ^ 32 = 0 ↔ 0 < c ∧ 2 ^ 32 ∣ c := by
  have hmod : c * 3 % 2 ^ 64 % 2 ^ 32 = c * 3 % 2 ^ 32 := Nat.mod_mod_of_dvd _ (by decide)
  have hdvd : c * 3 % 2 ^ 32 = 0 ↔ 2 ^ 32 ∣ c := by
    rw [← Nat.dvd_iff_mod_eq_zero]
    exact Nat.Coprime.dvd_mul_right (by decide)
  -- the product by three wraps, but it does not wrap to zero
  have hwrap : c * 3 % 2 ^ 64 = 0 ↔ c = 0 := by
    rw [← Nat.dvd_iff_mod_eq_zero, Nat.Coprime.dvd_mul_right (by decide)]
    constructor
    · intro h
      exact Nat.eq_zero_of_dvd_of_lt h (hc.trans (by decide))
    · rintro rfl
      exact dvd_zero _
  rw [← hdvd, ← hmod]
  generalize c * 3 % 2 ^ 64 = x at hwrap
  rcases Nat.eq_zero_or_pos x with rfl | hpos
  · have hzero := hwrap.mp rfl
    simp [hzero]
  · rw [Nat.max_eq_left hpos]
    omega

theorem two_le_numberOfSamples {qSize : UInt32} (h : 2 ≤ qSize.toNat) :
    2 ≤ (numberOfSamples qSize).toNat := by
  rw [toNat_numberOfSamples]
  split <;> omega

/-! ## The width -/

/-- The samples are in order, their separations are those of the time stamps and add up without
wrapping, and the width is not zero. -/
def WidthDefined (s : CalendarScheduler) : Prop :=
  ∃ samples rest s' width, gather (numberOfSamples s.qSize).toNat s = some (samples, rest) ∧
    (times samples).Pairwise (· ≤ ·) ∧
    (separations samples).map UInt64.toNat = gaps (times samples) ∧
    (separations samples).sum.toNat = (gaps (times samples)).sum ∧
    s.calculateNewWidth = some (s', width) ∧ 1 ≤ width.toNat

/-- The time stamps of the next events that are sampled. -/
def sampleTimes (s : CalendarScheduler) : List ℕ :=
  (times s.contents).mergeSort.take (numberOfSamples s.qSize).toNat

/-- What is known of the samples of a calendar in order. -/
theorem samples_spec (hf : Filed s) (hc : Current s) (hsize : s.qSize.toNat = s.contents.length)
    (htwo : 2 ≤ s.qSize.toNat) :
    ∃ samples rest s', gather (numberOfSamples s.qSize).toNat s = some (samples, rest) ∧
      times samples = s.sampleTimes ∧ (times samples).Pairwise (· ≤ ·) ∧
      s.calculateNewWidth = some (s', widthOf samples (numberOfSamples s.qSize)) ∧
      (separations samples).sum.toNat = (gaps (times samples)).sum ∧
      ((widthOf samples (numberOfSamples s.qSize)).toNat = 0 ↔
        0 < counted s.sampleTimes ∧ 2 ^ 32 ∣ counted s.sampleTimes) := by
  have hne : s.qSize ≠ 0 := by
    intro hzero
    rw [hzero] at htwo
    exact absurd htwo (by decide)
  obtain ⟨samples, rest, hgather, hcount, hperm, hsorted, hbelow⟩ :=
    gather_sorted hf hc hne ((numberOfSamples_le s.qSize).trans hsize.le)
  have htimes : times samples = s.sampleTimes := by
    have hall : (times s.contents).Perm (times samples ++ times rest.contents) := by
      rw [times, times, times, ← List.map_append]
      exact hperm.map _
    have htake := mergeSort_take hall hsorted (by
      intro a ha b hb
      obtain ⟨e, he, rfl⟩ := List.mem_map.mp ha
      obtain ⟨e', he', rfl⟩ := List.mem_map.mp hb
      exact hbelow e he e' he')
    have hlength : (times samples).length = (numberOfSamples s.qSize).toNat :=
      (List.length_map _).trans hcount
    rw [sampleTimes, ← hlength, htake]
  have hearly : ∀ t ∈ times samples, t < 2 ^ 63 := by
    intro t ht
    obtain ⟨e, he, rfl⟩ := List.mem_map.mp ht
    exact hf.early e (hperm.mem_iff.mpr (List.mem_append_left _ he))
  obtain ⟨hsum, hcounted, hwidth⟩ :=
    toNat_widthOf hsorted hearly hcount (two_le_numberOfSamples htwo)
  have hlarge : ¬ s.qSize < 2 := by
    rw [UInt32.not_lt, UInt32.le_iff_toNat_le]
    exact htwo
  obtain ⟨s', hs'⟩ : ∃ s' : CalendarScheduler, s' =
    { samples.foldl doInsert rest with
      lastBucket := s.lastBucket
      bucketTop := s.bucketTop
      lastPrio := s.lastPrio } := ⟨_, rfl⟩
  have hcalculate : s.calculateNewWidth =
      some (s', widthOf samples (numberOfSamples s.qSize)) := by
    rw [calculateNewWidth, if_neg hlarge, hgather, Option.map_some, hs']
  refine ⟨samples, rest, s', hgather, htimes, hsorted, hcalculate, hsum, ?_⟩
  rw [hwidth, width_eq_zero_iff hcounted, htimes]

/-- With two events at least, the width is defined if and only if the sampled separations that
count do not add up to a positive multiple of `2 ^ 32`. -/
theorem widthDefined_iff (s : CalendarScheduler) (hf : Filed s) (hc : Current s)
    (hsize : s.qSize.toNat = s.contents.length) (htwo : 2 ≤ s.qSize.toNat) :
    s.WidthDefined ↔ ¬ (0 < counted s.sampleTimes ∧ 2 ^ 32 ∣ counted s.sampleTimes) := by
  obtain ⟨samples, rest, s', hgather, -, hsorted, hcalculate, hsum, hzero⟩ :=
    samples_spec hf hc hsize htwo
  rw [← hzero]
  constructor
  · rintro ⟨samples', rest', s'', width, hgather', -, -, -, hcalculate', hpos⟩
    obtain ⟨-, rfl⟩ := Prod.mk.inj (Option.some.inj (hcalculate.symm.trans hcalculate'))
    omega
  · intro hpos
    exact ⟨samples, rest, s', _, hgather, hsorted, toNat_separations hsorted, hsum, hcalculate,
      Nat.pos_of_ne_zero hpos⟩

/-- An event that does not make the calendar grow. -/
theorem added_sound (hs : Sound s) (ev : Event) (hearly : ev.key.ts.toNat < 2 ^ 63)
    (hlate : s.lastPrio.toNat ≤ ev.key.ts.toNat) (hfresh : ∀ e ∈ s.contents, e.uid ≠ ev.uid)
    (hvalid : ev.uid ≠ 0) (hsmall : ¬ (s.added ev).Grows) :
    Sound (s.added ev) ∧ (s.added ev).contents.Perm (ev :: s.contents) := by
  obtain ⟨s', hinsert, hperm, hs', -⟩ :=
    insert_spec hs hearly hlate hfresh hvalid fun hgrows => absurd hgrows hsmall
  rw [insert, resizeUp, if_neg hsmall] at hinsert
  obtain rfl := Option.some.inj hinsert
  exact ⟨hs', hperm⟩

/-- A new calendar with two events. -/
def twoEvents (first second : UInt64) : CalendarScheduler :=
  (create.added ⟨1, ⟨first, 1, 0⟩⟩).added ⟨2, ⟨second, 2, 0⟩⟩

theorem twoEvents_sound {first second : UInt64} (hfirst : first.toNat < 2 ^ 63)
    (hsecond : second.toNat < 2 ^ 63) : Sound (twoEvents first second) := by
  have hone : ¬ ((2 : UInt32) * 2 < 0 + 1) := by decide
  have htwo : ¬ ((2 : UInt32) * 2 < 0 + 1 + 1) := by decide
  obtain ⟨hs₁, hperm₁⟩ := added_sound create_sound ⟨1, ⟨first, 1, 0⟩⟩ hfirst (Nat.zero_le _)
    (fun e he => by cases he) (by decide : (1 : UInt32) ≠ 0) fun hgrows => hone hgrows.1
  refine (added_sound hs₁ ⟨2, ⟨second, 2, 0⟩⟩ hsecond (Nat.zero_le _) ?_
    (by decide : (2 : UInt32) ≠ 0) fun hgrows => htwo hgrows.1).1
  intro e he
  rcases List.mem_cons.mp (hperm₁.mem_iff.mp he) with rfl | hold
  · exact (by decide : (1 : UInt32) ≠ 2)
  · cases hold

theorem widthDefined_near : (twoEvents 3 10).WidthDefined ↔
    ¬ (0 < counted (twoEvents 3 10).sampleTimes ∧
      2 ^ 32 ∣ counted (twoEvents 3 10).sampleTimes) :=
  widthDefined_iff (twoEvents 3 10) (twoEvents_sound (by decide) (by decide)).filed
    (twoEvents_sound (by decide) (by decide)).current
    (twoEvents_sound (by decide) (by decide)).qSize_eq (by decide)

/-- Two events at a distance of `2 ^ 32`. -/
theorem not_widthDefined_far : ¬ ∀ s : CalendarScheduler, Filed s → Current s →
    s.qSize.toNat = s.contents.length → 2 ≤ s.qSize.toNat → s.WidthDefined := by
  intro h
  have hs : Sound (twoEvents 0 4294967296) := twoEvents_sound (by decide) (by decide)
  obtain ⟨-, -, s', width, -, -, -, -, hcalculate, hpos⟩ :=
    h _ hs.filed hs.current hs.qSize_eq (by decide)
  have hwidth : (twoEvents 0 4294967296).calculateNewWidth.map Prod.snd = some 0 := by
    decide +kernel
  rw [hcalculate, Option.map_some] at hwidth
  obtain rfl := Option.some.inj hwidth
  exact absurd hpos (by decide)

end CalendarScheduler

end Ns3Rdma.Sched
