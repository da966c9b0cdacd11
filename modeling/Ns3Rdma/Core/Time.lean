import Ns3Rdma.Core.Int64x64

/-! # Times

A time is a 64-bit number of units of the resolution. A value in another unit is converted with a
factor, which is multiplied where the unit is coarser; otherwise the value is divided by it, as an
integer or, as a fixed-point number, by multiplying with its inverse. -/

namespace Ns3Rdma

namespace Time

/-- `Time::Unit`. -/
inductive Unit where
  | S
  | MS
  | US
  | NS
  | PS
  | FS
deriving DecidableEq

/-- The entries of `power` in `SetResolution`: a unit is `10 ^ power` femtoseconds. -/
def power : Unit → ℕ
  | .S => 15
  | .MS => 12
  | .US => 9
  | .NS => 6
  | .PS => 3
  | .FS => 0

/-- `Time::Information`. -/
structure Information where
  toMul : Bool
  fromMul : Bool
  factor : BitVec 64
  timeTo : Int64x64
  timeFrom : Int64x64

/-- What `SetResolution` stores for a unit. -/
def information (resolution unit : Unit) : Option Information :=
  let shift : ℤ := power unit - power resolution
  let factor := BitVec.ofNat 64 (10 ^ shift.natAbs)
  if shift = 0 then
    some
      { toMul := true
        fromMul := true
        factor := factor
        timeTo := Int64x64.ofInt64 1
        timeFrom := Int64x64.ofInt64 1 }
  else if 0 < shift then
    (Int64x64.invert factor).map fun inverse =>
      { toMul := false
        fromMul := true
        factor := factor
        timeTo := inverse
        timeFrom := Int64x64.ofInt64 factor }
  else
    (Int64x64.invert factor).map fun inverse =>
      { toMul := true
        fromMul := false
        factor := factor
        timeTo := Int64x64.ofInt64 factor
        timeFrom := inverse }

end Time

structure Time where
  data : BitVec 64
deriving DecidableEq

namespace Time

/-- `FromInteger`, with unsigned arithmetic. -/
def fromInteger (resolution : Unit) (value : BitVec 64) (timeUnit : Unit) : Option Time :=
  (information resolution timeUnit).map fun info =>
    ⟨if info.fromMul then value * info.factor else value / info.factor⟩

/-- `From`. The constructor of a time takes the high part. -/
def fromInt64x64 (resolution : Unit) (value : Int64x64) (timeUnit : Unit) : Option Time :=
  (information resolution timeUnit).bind fun info =>
    (if info.fromMul then value.mul info.timeFrom
      else some (value.mulByInvert info.timeFrom)).map fun retval => ⟨retval.getHigh⟩

/-! ## Both conversions agree -/

theorem power_le (unit : Unit) : power unit ≤ 15 := by
  cases unit <;> decide

theorem toNat_factor {k : ℕ} (hk : k ≤ 15) : (BitVec.ofNat 64 (10 ^ k)).toNat = 10 ^ k := by
  have hle : 10 ^ k ≤ 10 ^ 15 := Nat.pow_le_pow_right (by decide) hk
  rw [BitVec.toNat_ofNat]
  exact Nat.mod_eq_of_lt (by omega)

/-- A coarser unit is multiplied by its factor. A finer one is divided by it, and the factor has an
inverse. -/
theorem information_cases (resolution unit : Unit) :
    ∃ info, information resolution unit = some info ∧
      (power resolution ≤ power unit ∧ info.fromMul = true ∧
          info.timeFrom = Int64x64.ofInt64 info.factor ∧
          info.factor.toNat = 10 ^ (power unit - power resolution) ∨
        power unit < power resolution ∧ info.fromMul = false ∧
          Int64x64.invert info.factor = some info.timeFrom ∧
          info.factor.toNat = 10 ^ (power resolution - power unit)) := by
  have hunit := power_le unit
  have hresolution := power_le resolution
  unfold information
  dsimp only
  split
  next hzero =>
    refine ⟨_, rfl, Or.inl ⟨by omega, rfl, ?_, ?_⟩⟩
    · rw [hzero]
      rfl
    · rw [hzero, Nat.sub_eq_zero_of_le (by omega)]
      rfl
  next hne =>
    have hlarge : 1 < (10 : ℕ) ^ ((power unit : ℤ) - power resolution).natAbs :=
      Nat.one_lt_pow (by omega) (by decide)
    have hle : (10 : ℕ) ^ ((power unit : ℤ) - power resolution).natAbs ≤ 10 ^ 15 :=
      Nat.pow_le_pow_right (by decide) (by omega)
    have hfactor := toNat_factor (k := ((power unit : ℤ) - power resolution).natAbs) (by omega)
    obtain ⟨inverse, -, hinvert, -, -⟩ := Int64x64.invert_spec
      (v := BitVec.ofNat 64 (10 ^ ((power unit : ℤ) - power resolution).natAbs))
      (by omega) (by omega)
    rw [hinvert]
    split
    · refine ⟨_, rfl, Or.inl ⟨by omega, rfl, rfl, hfactor.trans ?_⟩⟩
      congr 1
      omega
    · refine ⟨_, rfl, Or.inr ⟨by omega, rfl, hinvert, hfactor.trans ?_⟩⟩
      congr 1
      omega

theorem toInt_of_lt {n : BitVec 64} (hn : n.toNat < 2 ^ 63) : n.toInt = n.toNat := by
  rw [BitVec.toInt_eq_toNat_cond, if_pos (by omega)]

/-- A product of integers that fits is exact. -/
theorem mul_ofInt64 {m n : BitVec 64} (hfits : m.toNat * n.toNat < 2 ^ 63)
    (hm : m.toNat < 2 ^ 63) (hn : n.toNat < 2 ^ 63) :
    ∃ result, (Int64x64.ofInt64 m).mul (Int64x64.ofInt64 n) = some result ∧
      result.getHigh = m * n := by
  have hleft := Int64x64.toInt_ofInt64 m
  have hright := Int64x64.toInt_ofInt64 n
  rw [toInt_of_lt hm] at hleft
  rw [toInt_of_lt hn] at hright
  have hleft' : (Int64x64.ofInt64 m).v.toInt.natAbs = m.toNat * 2 ^ 64 := by omega
  have hright' : (Int64x64.ofInt64 n).v.toInt.natAbs = n.toNat * 2 ^ 64 := by omega
  obtain ⟨result, hmul, hresult⟩ := Int64x64.mul_spec (Int64x64.ofInt64 m) (Int64x64.ofInt64 n)
    (by
      rw [hleft', hright', Nat.mul_mul_mul_comm]
      omega)
  refine ⟨result, hmul, BitVec.eq_of_toInt_eq ?_⟩
  have hinteger : Int64x64.integerPart (m.toNat * 2 ^ 64) (n.toNat * 2 ^ 64) =
      m.toNat * n.toNat := by
    simp [Int64x64.integerPart]
  have hfraction : Int64x64.fractionalPart (m.toNat * 2 ^ 64) (n.toNat * 2 ^ 64) = 0 := by
    simp [Int64x64.fractionalPart]
  have hvalue : result.v.toInt = (m.toNat * n.toNat * 2 ^ 64 : ℕ) := by
    rw [hresult, hleft', hright', hinteger, hfraction, hleft, hright, Nat.or_zero, Nat.shiftLeft_eq]
    rcases Nat.eq_zero_or_pos m.toNat with hzero | hpos
    · simp [hzero]
    · rcases Nat.eq_zero_or_pos n.toNat with hzero | hpos'
      · simp [hzero]
      · rw [Int.sign_eq_one_of_pos (by omega), Int.sign_eq_one_of_pos (by omega)]
        simp
  have hproduct : (m * n).toNat = m.toNat * n.toNat := by
    rw [BitVec.toNat_mul]
    exact Nat.mod_eq_of_lt (by omega)
  rw [Int64x64.toInt_getHigh (by omega), hvalue, toInt_of_lt (by omega), hproduct]
  exact congrArg Nat.cast (Nat.mul_div_cancel (m.toNat * n.toNat) (Nat.two_pow_pos 64))

theorem fromInt64x64_eq_fromInteger (resolution timeUnit : Unit) (value : BitVec 64)
    (hfits : value.toNat * 10 ^ (power timeUnit - power resolution) < 2 ^ 63) :
    ∃ t, fromInteger resolution value timeUnit = some t ∧
      fromInt64x64 resolution (Int64x64.ofUInt64 value) timeUnit = some t := by
  have hpos : 0 < 10 ^ (power timeUnit - power resolution) := Nat.pow_pos (by decide)
  have hvalue : value.toNat < 2 ^ 63 := (Nat.le_mul_of_pos_right _ hpos).trans_lt hfits
  obtain ⟨info, hinfo, hcases⟩ := information_cases resolution timeUnit
  have hpower := power_le timeUnit
  have hpower' := power_le resolution
  rw [fromInteger, fromInt64x64, hinfo, Int64x64.ofUInt64_eq_ofInt64 hvalue]
  refine ⟨_, rfl, ?_⟩
  rw [Option.bind_some]
  dsimp only
  rcases hcases with ⟨-, hmul, hfrom, hfactor⟩ | ⟨hfiner, hdiv, hinvert, hfactor⟩
  · have hlt : info.factor.toNat < 2 ^ 63 := by
      rw [hfactor]
      exact (Nat.pow_le_pow_right (by decide) (by omega : _ ≤ 15)).trans_lt (by decide)
    obtain ⟨result, hresult, hhigh⟩ := mul_ofInt64 (by rw [hfactor]; exact hfits) hvalue hlt
    simp only [hmul, if_true]
    rw [hfrom, hresult, Option.map_some, hhigh]
  · have hlt : info.factor.toNat < 2 ^ 63 := by
      rw [hfactor]
      exact (Nat.pow_le_pow_right (by decide) (by omega : _ ≤ 15)).trans_lt (by decide)
    have hone : 1 < info.factor.toNat := by
      rw [hfactor]
      exact Nat.one_lt_pow (by omega) (by decide)
    obtain ⟨inverse, hinverse, hquotient⟩ := Int64x64.mulByInvert_divides value info.factor
      (by rw [toInt_of_lt hvalue]; omega) hone hlt
    obtain rfl := Option.some.inj (hinvert.symm.trans hinverse)
    have hhigh : ((Int64x64.ofInt64 value).mulByInvert info.timeFrom).getHigh =
        value / info.factor := by
      apply BitVec.eq_of_toInt_eq
      have hle : value.toNat / info.factor.toNat ≤ value.toNat := Nat.div_le_self _ _
      rw [hquotient, toInt_of_lt hvalue, toInt_of_lt (by rw [BitVec.toNat_udiv]; omega),
        BitVec.toNat_udiv]
      rfl
    simp only [hdiv, Bool.false_eq_true, if_false]
    rw [Option.map_some, hhigh]

/-- To multiply an integer with an inverse is to divide it, and both conversions of an integer give
the same time. -/
theorem division_by_inverse_exact :
    (∀ n v : BitVec 64, n.toInt.natAbs < 2 ^ 63 → 1 < v.toNat → v.toNat < 2 ^ 63 →
      ∃ inverse, Int64x64.invert v = some inverse ∧
        ((Int64x64.ofInt64 n).mulByInvert inverse).getHigh.toInt = n.toInt.tdiv v.toNat) ∧
    (∀ (resolution timeUnit : Unit) (value : BitVec 64),
      value.toNat * 10 ^ (power timeUnit - power resolution) < 2 ^ 63 →
      ∃ t, fromInteger resolution value timeUnit = some t ∧
        fromInt64x64 resolution (Int64x64.ofUInt64 value) timeUnit = some t) :=
  ⟨Int64x64.mulByInvert_divides, fromInt64x64_eq_fromInteger⟩

/-- `-7 / 2`, and 1500 microseconds at a resolution of milliseconds. -/
theorem division_by_inverse_exact_small :
    (∃ inverse, Int64x64.invert 2 = some inverse ∧
      ((Int64x64.ofInt64 (-7)).mulByInvert inverse).getHigh.toInt =
        (-7 : BitVec 64).toInt.tdiv (2 : BitVec 64).toNat) ∧
    (∃ t, fromInteger .MS 1500 .US = some t ∧
      fromInt64x64 .MS (Int64x64.ofUInt64 1500) .US = some t) :=
  ⟨division_by_inverse_exact.1 (-7) 2 (by decide) (by decide) (by decide),
    division_by_inverse_exact.2 .MS .US 1500 (by decide)⟩

end Time

end Ns3Rdma
