import Mathlib.Data.UInt

/-! # Sequence numbers

Sequence numbers wrap around. They are ordered by their distance, which has to be below 2^31 for the
order to be the one of the stream that they number. -/

namespace Ns3Rdma

structure SequenceNumber32 where
  value : UInt32
deriving DecidableEq

namespace SequenceNumber32

def maxValue : UInt32 := 4294967295

def halfMaxValue : UInt32 := maxValue / 2

/-- `operator >`. -/
def Greater (a b : SequenceNumber32) : Prop :=
  (b.value < a.value ∧ a.value - b.value ≤ halfMaxValue) ∨
    (a.value < b.value ∧ halfMaxValue < b.value - a.value)

instance (a b : SequenceNumber32) : Decidable (a.Greater b) :=
  inferInstanceAs (Decidable ((_ ∧ _) ∨ (_ ∧ _)))

instance : LE SequenceNumber32 := ⟨fun a b => ¬ a.Greater b⟩

instance : LT SequenceNumber32 := ⟨fun a b => ¬ a.Greater b ∧ a ≠ b⟩

instance (a b : SequenceNumber32) : Decidable (a ≤ b) := inferInstanceAs (Decidable (¬ a.Greater b))

instance (a b : SequenceNumber32) : Decidable (a < b) :=
  inferInstanceAs (Decidable (¬ a.Greater b ∧ a ≠ b))

instance : HAdd SequenceNumber32 UInt32 SequenceNumber32 := ⟨fun a n => ⟨a.value + n⟩⟩

/-- `operator -` of two sequence numbers. -/
def sub (a b : SequenceNumber32) : Int32 :=
  if b.value < a.value then
    if a.value - b.value < halfMaxValue then (a.value - b.value).toInt32
    else -(maxValue - a.value + 1 + b.value).toInt32
  else if b.value - a.value < halfMaxValue then -(b.value - a.value).toInt32
  else (maxValue - b.value + 1 + a.value).toInt32

instance : HSub SequenceNumber32 SequenceNumber32 Int32 := ⟨sub⟩

/-- The number that comes `n` places after `s`. -/
def plus (s : SequenceNumber32) (n : ℕ) : SequenceNumber32 := ⟨s.value + UInt32.ofNat n⟩

variable {s a b : SequenceNumber32} {m n : ℕ}

@[ext] theorem ext (h : a.value = b.value) : a = b := by
  cases a
  cases b
  congr

/-! ## The order -/

/-- How far `a` lies after `b`. -/
def distance (a b : SequenceNumber32) : ℕ := (a.value - b.value).toNat

theorem distance_eq (a b : SequenceNumber32) :
    a.distance b = (2 ^ 32 - b.value.toNat + a.value.toNat) % 2 ^ 32 := by
  unfold distance
  rw [UInt32.toNat_sub]

theorem distance_eq_zero : a.distance b = 0 ↔ a = b := by
  have ha := a.value.toNat_lt
  have hb := b.value.toNat_lt
  rw [distance_eq]
  constructor
  · intro h
    exact ext (UInt32.toNat_inj.mp (by omega))
  · rintro rfl
    omega

theorem greater_iff : a.Greater b ↔ (0 < a.distance b ∧ a.distance b < 2 ^ 31) ∨
    (a.distance b = 2 ^ 31 ∧ a.value < b.value) := by
  have ha := a.value.toNat_lt
  have hb := b.value.toNat_lt
  have hhalf : halfMaxValue.toNat = 2 ^ 31 - 1 := rfl
  unfold Greater
  simp only [UInt32.lt_iff_toNat_lt, UInt32.le_iff_toNat_le, UInt32.toNat_sub, hhalf, distance_eq]
  omega

/-- Both spellings of `operator >` agree. -/
theorem greater_iff_lt : a.Greater b ↔ b < a := by
  have ha := a.value.toNat_lt
  have hb := b.value.toNat_lt
  have hne : a.distance b = 0 ↔ a = b := distance_eq_zero
  change a.Greater b ↔ ¬ b.Greater a ∧ b ≠ a
  rw [greater_iff, greater_iff, ne_comm, Ne, ← hne, UInt32.lt_iff_toNat_lt, UInt32.lt_iff_toNat_lt,
    distance_eq, distance_eq]
  omega

theorem lt_iff_distance : a < b ↔ (0 < b.distance a ∧ b.distance a < 2 ^ 31) ∨
    (b.distance a = 2 ^ 31 ∧ b.value < a.value) := by
  rw [← greater_iff_lt, greater_iff]

theorem not_lt : ¬ a < b ↔ b ≤ a := by
  rw [← greater_iff_lt]
  rfl

theorem le_refl (a : SequenceNumber32) : a ≤ a := by
  rw [← not_lt]
  exact fun h => h.2 rfl

/-! ## Numbers of one stream -/

theorem plus_zero (s : SequenceNumber32) : s.plus 0 = s := by
  apply ext
  change s.value + 0 = s.value
  exact add_zero _

theorem toNat_plus (s : SequenceNumber32) (n : ℕ) :
    (s.plus n).value.toNat = (s.value.toNat + n) % 2 ^ 32 := by
  change (s.value + UInt32.ofNat n).toNat = _
  rw [UInt32.toNat_add, UInt32.toNat_ofNat']
  omega

theorem plus_add (s : SequenceNumber32) (m : ℕ) (n : UInt32) :
    s.plus m + n = s.plus (m + n.toNat) := by
  apply ext
  apply UInt32.toNat_inj.mp
  rw [toNat_plus]
  change ((s.plus m).value + n).toNat = _
  rw [UInt32.toNat_add, toNat_plus]
  omega

theorem add_eq_plus (s : SequenceNumber32) (n : UInt32) : s + n = s.plus n.toNat := by
  have hadd := plus_add s 0 n
  rwa [plus_zero, zero_add] at hadd

theorem plus_plus (s : SequenceNumber32) (m n : ℕ) : (s.plus m).plus n = s.plus (m + n) := by
  apply ext
  apply UInt32.toNat_inj.mp
  rw [toNat_plus, toNat_plus, toNat_plus]
  omega

theorem distance_plus (s : SequenceNumber32) (m n : ℕ) :
    (s.plus m).distance (s.plus n) = (2 ^ 32 - n % 2 ^ 32 + m) % 2 ^ 32 := by
  have hs := s.value.toNat_lt
  rw [distance_eq, toNat_plus, toNat_plus]
  omega

theorem plus_inj (hm : m < 2 ^ 32) (hn : n < 2 ^ 32) : s.plus m = s.plus n ↔ m = n := by
  rw [← distance_eq_zero, distance_plus]
  omega

/-- Numbers of a stream that is shorter than 2^31 are ordered as in the stream. -/
theorem plus_lt_plus (hm : m < 2 ^ 31) (hn : n < 2 ^ 31) : s.plus m < s.plus n ↔ m < n := by
  rw [lt_iff_distance, distance_plus]
  omega

/-- The later of two numbers of a stream. -/
theorem ite_plus_lt (hm : m < 2 ^ 31) (hn : n < 2 ^ 31) :
    (if s.plus m < s.plus n then s.plus n else s.plus m) = s.plus (max m n) := by
  by_cases hlt : m < n
  · rw [if_pos ((plus_lt_plus hm hn).mpr hlt), max_eq_right hlt.le]
  · rw [if_neg (mt (plus_lt_plus hm hn).mp hlt), max_eq_left (Nat.not_lt.mp hlt)]

theorem plus_le_plus (hm : m < 2 ^ 31) (hn : n < 2 ^ 31) : s.plus m ≤ s.plus n ↔ m ≤ n := by
  rw [← not_lt, plus_lt_plus hn hm, Nat.not_lt]

/-- What lies between two numbers of a stream belongs to the stream. -/
theorem exists_plus_of_between {y : SequenceNumber32} (hmn : m ≤ n) (hn : n < 2 ^ 31)
    (hlow : s.plus m < y) (hhigh : y < s.plus n) : ∃ k, y = s.plus k ∧ m < k ∧ k < n := by
  have hs := s.value.toNat_lt
  have hy := y.value.toNat_lt
  rw [lt_iff_distance, distance_eq, toNat_plus, UInt32.lt_iff_toNat_lt, toNat_plus] at hlow hhigh
  have hplus : y = s.plus (y.distance s) := by
    apply ext
    apply UInt32.toNat_inj.mp
    rw [toNat_plus, distance_eq]
    omega
  refine ⟨_, hplus, ?_, ?_⟩
  · rw [distance_eq]
    omega
  · rw [distance_eq]
    omega

theorem le_of_lt (h : a < b) : a ≤ b := h.1

theorem lt_of_le_of_ne (h : a ≤ b) (hne : a ≠ b) : a < b := ⟨h, hne⟩

theorem lt_or_eq_of_not_lt (h : ¬ a < b) : b < a ∨ b = a := by
  rw [not_lt] at h
  by_cases hne : b = a
  · exact Or.inr hne
  · exact Or.inl (lt_of_le_of_ne h hne)

/-- The subtraction is the one of 32-bit words. -/
theorem sub_eq (a b : SequenceNumber32) : a - b = (a.value - b.value).toInt32 := by
  have hneg : ∀ x : UInt32, -x.toInt32 = (-x).toInt32 := fun _ => rfl
  have hwrap : ∀ x y : UInt32, maxValue - x + 1 + y = y - x := by
    intro x y
    apply UInt32.toNat_inj.mp
    have hx := x.toNat_lt
    have hy := y.toNat_lt
    have hm : maxValue.toNat = 2 ^ 32 - 1 := rfl
    rw [UInt32.toNat_add, UInt32.toNat_add, UInt32.toNat_sub, UInt32.toNat_sub, hm, UInt32.toNat_one]
    omega
  change sub a b = _
  unfold sub
  simp only [hwrap, hneg, neg_sub, ite_self]

theorem toUInt32_sub (a b : SequenceNumber32) : (a - b).toUInt32 = a.value - b.value := by
  rw [sub_eq, UInt32.toUInt32_toInt32]

theorem toNat_sub_plus (h : n ≤ m) (hm : m < 2 ^ 32) :
    (s.plus m - s.plus n).toUInt32.toNat = m - n := by
  rw [toUInt32_sub]
  change (s.plus m).distance (s.plus n) = _
  rw [distance_plus]
  omega

/-- The difference is negative from a distance of 2^31 on. -/
theorem toInt_sub (a b : SequenceNumber32) :
    (a - b).toInt = if a.distance b < 2 ^ 31 then (a.distance b : ℤ) else a.distance b - 2 ^ 32 := by
  have htoInt : (a - b).toInt = (a.value - b.value).toBitVec.toInt := by
    rw [sub_eq]
    rfl
  rw [htoInt, BitVec.toInt_eq_toNat_cond]
  change (if 2 * a.distance b < 2 ^ 32 then _ else _) = _
  by_cases h : a.distance b < 2 ^ 31
  · rw [if_pos h, if_pos (by omega)]
    rfl
  · rw [if_neg h, if_neg (by omega)]
    rfl

theorem plus_distance (a b : SequenceNumber32) : b.plus (a.distance b) = a := by
  apply ext
  apply UInt32.toNat_inj.mp
  have ha := a.value.toNat_lt
  have hb := b.value.toNat_lt
  rw [toNat_plus, distance_eq]
  omega

end SequenceNumber32

end Ns3Rdma
