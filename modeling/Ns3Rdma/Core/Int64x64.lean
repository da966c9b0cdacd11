import Mathlib.Data.Int.Basic
import Mathlib.Data.UInt
import Ns3Rdma.Lib.FixedPoint
import Ns3Rdma.Lib.Word

/-! # 64.64 fixed-point numbers

A number is a signed 128-bit integer in units of `2 ^ -64`. Products and quotients are computed of
the magnitudes in unsigned 128-bit arithmetic, and get their sign afterwards. -/

namespace Ns3Rdma

/-- `int64x64_t`. -/
structure Int64x64 where
  v : BitVec 128
deriving DecidableEq

namespace Int64x64

def maskLo : BitVec 128 := ((1 : BitVec 128) <<< 64) - 1

def maskHi : BitVec 128 := ~~~ maskLo

/-- `x < 0`. -/
def negative (x : BitVec 128) : Bool := x.msb

/-- `negA ? -sa : sa`, as an unsigned number. -/
def magnitude (x : BitVec 128) : BitVec 128 := if negative x then -x else x

/-- `negResult ? -result : result`. -/
def withSign (negResult : Bool) (result : BitVec 128) : Int64x64 :=
  ⟨if negResult then -result else result⟩

/-- The sign that `OUTPUT_SIGN` returns. -/
def outputSign (sa sb : BitVec 128) : Bool :=
  (negative sa && !negative sb) || (!negative sa && negative sb)

/-- `Umul`, which stops the program on an overflow of the high part. -/
def umul (a b : BitVec 128) : Option (BitVec 128) :=
  let aL := a &&& maskLo
  let bL := b &&& maskLo
  let aH := (a >>> 64) &&& maskLo
  let bH := (b >>> 64) &&& maskLo
  let loPart := aL * bL
  let midPart := aL * bH + aH * bL
  let result := (loPart >>> 64) + (midPart &&& maskLo)
  let hiPart := aH * bH
  let result := result ||| (((hiPart &&& maskLo) <<< 64) + (midPart &&& maskHi))
  if hiPart &&& maskHi ≠ 0 then none else some result

/-- `Mul`. -/
def mul (a b : Int64x64) : Option Int64x64 :=
  (umul (magnitude a.v) (magnitude b.v)).map (withSign (outputSign a.v b.v))

/-- `Divu`. -/
def divu (a b : BitVec 128) : BitVec 128 :=
  let rem := a % b
  let result := (a / b) <<< 64
  if rem >>> 64 = 0 then result + (rem <<< 64) / b else result + rem / (b >>> 64)

/-- `Div`. -/
def div (a b : Int64x64) : Int64x64 :=
  withSign (outputSign a.v b.v) (divu (magnitude a.v) (magnitude b.v))

/-- `UmulByInvert`. -/
def umulByInvert (a b : BitVec 128) : BitVec 128 :=
  let ah := a >>> 64
  let bh := b >>> 64
  let al := a &&& maskLo
  let bl := b &&& maskLo
  let hi := ah * bh
  let mid := (ah * bl + al * bh) >>> 64
  hi + mid

/-- `MulByInvert`. -/
def mulByInvert (a o : Int64x64) : Int64x64 :=
  withSign (negative a.v) (umulByInvert (magnitude a.v) o.v)

/-- `GetHigh`, which shifts a signed number. -/
def getHigh (a : Int64x64) : BitVec 64 :=
  let retval := ((magnitude a.v).sshiftRight 64).setWidth 64
  if negative a.v then -retval else retval

/-- The constructor of a 64-bit signed integer. -/
def ofInt64 (v : BitVec 64) : Int64x64 := ⟨v.signExtend 128 <<< 64⟩

/-- The constructor of a 64-bit unsigned integer. -/
def ofUInt64 (v : BitVec 64) : Int64x64 := ⟨v.setWidth 128 <<< 64⟩

/-- The constructor of a high and a low part. -/
def ofParts (hi lo : BitVec 64) : Int64x64 :=
  let isNegative := hi.msb
  withSign isNegative ((((if isNegative then -hi else hi).signExtend 128) <<< 64) +
    lo.setWidth 128)

/-- `Invert`, which asserts that the number exceeds one. -/
def invert (v : BitVec 64) : Option Int64x64 :=
  if 1 < v.toNat then
    let result : Int64x64 := ⟨divu ((1 : BitVec 128) <<< 64) (v.setWidth 128)⟩
    let tmp := (ofParts v 0).mulByInvert result
    some (if tmp.getHigh ≠ 1 then ⟨result.v + 1⟩ else result)
  else none

/-! ## Words as numbers -/

theorem toNat_and_maskLo (x : BitVec 128) : (x &&& maskLo).toNat = x.toNat % 2 ^ 64 := by
  have hmask : maskLo.toNat = 2 ^ 64 - 1 := by decide
  rw [BitVec.toNat_and, hmask, Nat.and_two_pow_sub_one_eq_mod]

theorem toNat_and_maskHi (x : BitVec 128) : (x &&& maskHi).toNat = x.toNat / 2 ^ 64 * 2 ^ 64 := by
  have hmask : maskHi = ~~~ BitVec.ofNat 128 (2 ^ 64 - 1) := by decide
  have hle : x.toNat / 2 ^ 64 * 2 ^ 64 < 2 ^ 128 :=
    Nat.lt_of_le_of_lt (Nat.div_mul_le_self _ _) x.isLt
  rw [hmask, UInt32.and_not_low, BitVec.toNat_shiftLeft, BitVec.toNat_ushiftRight,
    Nat.shiftRight_eq_div_pow, Nat.shiftLeft_eq, Nat.mod_eq_of_lt hle]

theorem toNat_high (x : BitVec 128) : (x >>> 64).toNat = x.toNat / 2 ^ 64 := by
  rw [BitVec.toNat_ushiftRight, Nat.shiftRight_eq_div_pow]

theorem negative_iff (x : BitVec 128) : negative x = true ↔ x.toInt < 0 := by
  rw [negative, BitVec.msb_eq_toInt, decide_eq_true_eq]

theorem toNat_magnitude (x : BitVec 128) : (magnitude x).toNat = x.toInt.natAbs := by
  have hlt := x.isLt
  unfold magnitude negative
  rw [BitVec.toInt_eq_msb_cond]
  split
  next hneg =>
    rw [BitVec.msb_eq_decide, decide_eq_true_eq] at hneg
    rw [BitVec.toNat_neg]
    omega
  next => simp

/-- A number with its sign, as long as it fits into 127 bits. -/
theorem toInt_withSign {negResult : Bool} {result : BitVec 128} (h : result.toNat < 2 ^ 127) :
    (withSign negResult result).v.toInt =
      if negResult then -(result.toNat : ℤ) else (result.toNat : ℤ) := by
  unfold withSign
  have hsmall : result.toInt = result.toNat := by
    rw [BitVec.toInt_eq_toNat_cond, if_pos (by omega)]
  cases negResult with
  | false => exact hsmall
  | true =>
      have hneg : (-result).toInt = -(result.toNat : ℤ) := by
        rw [BitVec.toInt_neg, hsmall, Int.bmod_eq_of_le_mul_two] <;> omega
      exact hneg

/-- The sign of a product or of a quotient. -/
theorem toInt_outputSign (a b : Int64x64) {result : BitVec 128} (h : result.toNat < 2 ^ 127)
    (hzero : a.v.toInt = 0 ∨ b.v.toInt = 0 → result.toNat = 0) :
    (withSign (outputSign a.v b.v) result).v.toInt =
      a.v.toInt.sign * b.v.toInt.sign * (result.toNat : ℤ) := by
  have hsign : ∀ x : BitVec 128, x.toInt ≠ 0 →
      x.toInt.sign = if negative x then -1 else 1 := by
    intro x hx
    split
    next hneg => exact Int.sign_eq_neg_one_of_neg ((negative_iff x).mp hneg)
    next hneg =>
      rw [negative_iff] at hneg
      exact Int.sign_eq_one_of_pos (by omega)
  rw [toInt_withSign h]
  by_cases hfactor : a.v.toInt = 0 ∨ b.v.toInt = 0
  · rw [hzero hfactor]
    simp
  · rw [not_or] at hfactor
    rw [hsign a.v hfactor.1, hsign b.v hfactor.2]
    unfold outputSign
    cases negative a.v <;> cases negative b.v <;> simp

/-! ## Multiplication -/

/-- The integer part of a product before the carry from the fractional parts, and what the
fractional parts add up to. -/
def integerPart (a b : ℕ) : ℕ :=
  a / 2 ^ 64 * (b / 2 ^ 64) +
    (a % 2 ^ 64 * (b / 2 ^ 64) + a / 2 ^ 64 * (b % 2 ^ 64)) / 2 ^ 64

def fractionalPart (a b : ℕ) : ℕ :=
  a % 2 ^ 64 * (b % 2 ^ 64) / 2 ^ 64 +
    (a % 2 ^ 64 * (b / 2 ^ 64) + a / 2 ^ 64 * (b % 2 ^ 64)) % 2 ^ 64

/-- The fractional parts do not carry, or the place of the carry is free. -/
def CarryKept (a b : ℕ) : Prop := fractionalPart a b < 2 ^ 64 ∨ integerPart a b % 2 = 0

instance (a b : ℕ) : Decidable (CarryKept a b) := inferInstanceAs (Decidable (_ ∨ _))

theorem mul_div_eq (a b : ℕ) :
    a * b / 2 ^ 64 = integerPart a b <<< 64 + fractionalPart a b := by
  have ha : a = a / 2 ^ 64 * 2 ^ 64 + a % 2 ^ 64 := by omega
  have hb : b = b / 2 ^ 64 * 2 ^ 64 + b % 2 ^ 64 := by omega
  conv_lhs => rw [ha, hb, FixedPoint.mul_div (Nat.two_pow_pos 64)]
  unfold integerPart fractionalPart
  rw [Nat.shiftLeft_eq, Nat.add_mul]
  omega

theorem fractionalPart_lt (a b : ℕ) : fractionalPart a b < 2 ^ 65 := by
  have hlo : a % 2 ^ 64 * (b % 2 ^ 64) < 2 ^ 64 * 2 ^ 64 :=
    Nat.mul_lt_mul'' (Nat.mod_lt _ (Nat.two_pow_pos 64)) (Nat.mod_lt _ (Nat.two_pow_pos 64))
  unfold fractionalPart
  omega

/-- No partial product of numbers in range overflows. -/
theorem partial_products_lt {a b : ℕ} (ha : a ≤ 2 ^ 127) (hb : b ≤ 2 ^ 127)
    (hfits : a * b < 2 ^ 191) :
    a % 2 ^ 64 * (b % 2 ^ 64) < 2 ^ 128 ∧
      a % 2 ^ 64 * (b / 2 ^ 64) + a / 2 ^ 64 * (b % 2 ^ 64) < 2 ^ 128 ∧
      a / 2 ^ 64 * (b / 2 ^ 64) < 2 ^ 63 ∧ integerPart a b < 2 ^ 63 := by
  have haL : a % 2 ^ 64 < 2 ^ 64 := Nat.mod_lt _ (Nat.two_pow_pos 64)
  have hbL : b % 2 ^ 64 < 2 ^ 64 := Nat.mod_lt _ (Nat.two_pow_pos 64)
  have haH : a / 2 ^ 64 ≤ 2 ^ 63 := by omega
  have hbH : b / 2 ^ 64 ≤ 2 ^ 63 := by omega
  have hlo : a % 2 ^ 64 * (b % 2 ^ 64) < 2 ^ 64 * 2 ^ 64 := Nat.mul_lt_mul'' haL hbL
  have hmid₁ : a % 2 ^ 64 * (b / 2 ^ 64) ≤ (2 ^ 64 - 1) * 2 ^ 63 :=
    Nat.mul_le_mul (Nat.le_sub_one_of_lt haL) hbH
  have hmid₂ : a / 2 ^ 64 * (b % 2 ^ 64) ≤ 2 ^ 63 * (2 ^ 64 - 1) :=
    Nat.mul_le_mul haH (Nat.le_sub_one_of_lt hbL)
  have hproduct : a * b / 2 ^ 64 < 2 ^ 127 := by omega
  rw [mul_div_eq, Nat.shiftLeft_eq] at hproduct
  have hinteger : integerPart a b < 2 ^ 63 := by omega
  refine ⟨by omega, by omega, ?_, hinteger⟩
  exact (Nat.le_add_right _ _).trans_lt hinteger

section Parts

variable {a b : BitVec 128}

theorem toNat_loPart :
    ((a &&& maskLo) * (b &&& maskLo)).toNat = a.toNat % 2 ^ 64 * (b.toNat % 2 ^ 64) % 2 ^ 128 := by
  rw [BitVec.toNat_mul, toNat_and_maskLo, toNat_and_maskLo]

theorem toNat_high_and_maskLo (x : BitVec 128) :
    ((x >>> 64) &&& maskLo).toNat = x.toNat / 2 ^ 64 := by
  have hlt := x.isLt
  rw [toNat_and_maskLo, toNat_high, Nat.mod_eq_of_lt (by omega)]

theorem toNat_hiPart : (((a >>> 64) &&& maskLo) * ((b >>> 64) &&& maskLo)).toNat =
    a.toNat / 2 ^ 64 * (b.toNat / 2 ^ 64) % 2 ^ 128 := by
  rw [BitVec.toNat_mul, toNat_high_and_maskLo, toNat_high_and_maskLo]

theorem toNat_midPart : ((a &&& maskLo) * ((b >>> 64) &&& maskLo) +
    ((a >>> 64) &&& maskLo) * (b &&& maskLo)).toNat =
      (a.toNat % 2 ^ 64 * (b.toNat / 2 ^ 64) + a.toNat / 2 ^ 64 * (b.toNat % 2 ^ 64)) %
        2 ^ 128 := by
  rw [BitVec.toNat_add, BitVec.toNat_mul, BitVec.toNat_mul, toNat_high_and_maskLo,
    toNat_high_and_maskLo, toNat_and_maskLo, toNat_and_maskLo, ← Nat.add_mod]

end Parts

theorem umul_spec {a b : BitVec 128} (ha : a.toNat ≤ 2 ^ 127) (hb : b.toNat ≤ 2 ^ 127)
    (hfits : a.toNat * b.toNat < 2 ^ 191) : ∃ result, umul a b = some result ∧
      result.toNat = integerPart a.toNat b.toNat <<< 64 ||| fractionalPart a.toNat b.toNat := by
  obtain ⟨hlo, hmid, hhi, hinteger⟩ := partial_products_lt ha hb hfits
  have hfraction := fractionalPart_lt a.toNat b.toNat
  have hhi' : a.toNat / 2 ^ 64 * (b.toNat / 2 ^ 64) < 2 ^ 128 := hhi.trans (by decide)
  have hnone : ((a >>> 64) &&& maskLo) * ((b >>> 64) &&& maskLo) &&& maskHi = 0 := by
    apply BitVec.eq_of_toNat_eq
    rw [toNat_and_maskHi, toNat_hiPart, Nat.mod_eq_of_lt hhi',
      Nat.div_eq_of_lt (hhi.trans (by decide))]
    rfl
  unfold umul
  dsimp only
  rw [if_neg (not_not.mpr hnone)]
  refine ⟨_, rfl, ?_⟩
  rw [BitVec.toNat_or, Nat.or_comm, BitVec.toNat_add, BitVec.toNat_add, BitVec.toNat_shiftLeft,
    toNat_high, toNat_and_maskLo, toNat_and_maskLo, toNat_and_maskHi, toNat_hiPart, toNat_midPart,
    toNat_loPart, Nat.mod_eq_of_lt hlo, Nat.mod_eq_of_lt hmid, Nat.mod_eq_of_lt hhi',
    Nat.mod_eq_of_lt (hhi.trans (by decide)), Nat.shiftLeft_eq,
    Nat.mod_eq_of_lt (show a.toNat / 2 ^ 64 * (b.toNat / 2 ^ 64) * 2 ^ 64 < 2 ^ 128 by omega),
    ← Nat.add_mul]
  change integerPart _ _ * 2 ^ 64 % 2 ^ 128 ||| fractionalPart _ _ % 2 ^ 128 = _
  rw [Nat.mod_eq_of_lt (show integerPart a.toNat b.toNat * 2 ^ 64 < 2 ^ 128 by omega),
    Nat.mod_eq_of_lt (hfraction.trans (by decide)), Nat.shiftLeft_eq]

/-- The product, cut towards zero. -/
def Truncates (a b : Int64x64) : Prop :=
  ∃ result, a.mul b = some result ∧ result.v.toInt =
    a.v.toInt.sign * b.v.toInt.sign * ((a.v.toInt.natAbs * b.v.toInt.natAbs / 2 ^ 64 : ℕ) : ℤ)

theorem natAbs_toInt_le (x : BitVec 128) : x.toInt.natAbs ≤ 2 ^ 127 := by
  have hlt := BitVec.toInt_lt (x := x)
  have hle := BitVec.le_toInt x
  omega

/-- What is computed is the product, but for the carry. -/
theorem mul_spec (a b : Int64x64) (hfits : a.v.toInt.natAbs * b.v.toInt.natAbs < 2 ^ 191) :
    ∃ result, a.mul b = some result ∧ result.v.toInt = a.v.toInt.sign * b.v.toInt.sign *
      ((integerPart a.v.toInt.natAbs b.v.toInt.natAbs <<< 64 |||
        fractionalPart a.v.toInt.natAbs b.v.toInt.natAbs : ℕ) : ℤ) := by
  have hspec := umul_spec (a := magnitude a.v) (b := magnitude b.v)
  simp only [toNat_magnitude] at hspec
  obtain ⟨result, humul, hresult⟩ :=
    hspec (natAbs_toInt_le a.v) (natAbs_toInt_le b.v) hfits
  obtain ⟨m, hm⟩ : ∃ m, m = a.v.toInt.natAbs := ⟨_, rfl⟩
  obtain ⟨n, hn⟩ : ∃ n, n = b.v.toInt.natAbs := ⟨_, rfl⟩
  rw [← hm, ← hn] at hresult hfits ⊢
  have hproduct : m * n / 2 ^ 64 < 2 ^ 127 := by omega
  have hsmall : result.toNat < 2 ^ 127 := by
    rw [mul_div_eq] at hproduct
    rw [hresult]
    exact Nat.or_lt_two_pow (by omega) (by omega)
  have hsigned := toInt_outputSign a b hsmall fun h => by
    have hzero : m = 0 ∨ n = 0 := by omega
    rw [hresult]
    unfold integerPart fractionalPart
    rcases hzero with rfl | rfl <;> simp
  rw [hresult] at hsigned
  rw [mul, humul]
  exact ⟨_, rfl, hsigned⟩

/-- A product that fits is the truncated one exactly if no carry is lost. -/
theorem mul_truncates_iff (a b : Int64x64)
    (hfits : a.v.toInt.natAbs * b.v.toInt.natAbs < 2 ^ 191) :
    a.Truncates b ↔ CarryKept a.v.toInt.natAbs b.v.toInt.natAbs := by
  obtain ⟨result, hmul, hresult⟩ := mul_spec a b hfits
  have hkept := @FixedPoint.or_eq_add_iff 64 (integerPart a.v.toInt.natAbs b.v.toInt.natAbs) _
    (fractionalPart_lt a.v.toInt.natAbs b.v.toInt.natAbs)
  rw [← mul_div_eq] at hkept
  rw [CarryKept, ← hkept]
  constructor
  · rintro ⟨product, hproduct, htruncated⟩
    obtain rfl := Option.some.inj (hmul.symm.trans hproduct)
    rw [hresult] at htruncated
    by_cases hzero : a.v.toInt = 0 ∨ b.v.toInt = 0
    · unfold integerPart fractionalPart
      rcases hzero with hzero | hzero <;> simp [hzero]
    · rw [not_or] at hzero
      have hsign := mul_ne_zero (mt Int.sign_eq_zero_iff_zero.mp hzero.1)
        (mt Int.sign_eq_zero_iff_zero.mp hzero.2)
      exact_mod_cast mul_left_cancel₀ hsign htruncated
  · intro hequal
    exact ⟨result, hmul, by rw [hresult, hequal]⟩

/-- `3 - 2 ^ -64` times a number whose lowest bit is missing from one half. -/
theorem mul_truncates_half : Truncates ⟨3 * 2 ^ 64 - 1⟩ ⟨2 ^ 63⟩ :=
  (mul_truncates_iff ⟨3 * 2 ^ 64 - 1⟩ ⟨2 ^ 63⟩ (by decide +kernel)).mpr (by decide +kernel)

/-- `3 - 2 ^ -64` times `1 - 2 ^ -64`: the fractional parts carry into an odd integer part. -/
theorem not_mul_truncates_carry : ¬ Truncates ⟨3 * 2 ^ 64 - 1⟩ ⟨2 ^ 64 - 1⟩ := by
  rintro ⟨result, hresult, htruncated⟩
  have hproduct : mul ⟨3 * 2 ^ 64 - 1⟩ ⟨2 ^ 64 - 1⟩ = some ⟨2 ^ 65 - 4⟩ := by
    decide +kernel
  obtain rfl := Option.some.inj (hproduct.symm.trans hresult)
  exact absurd htruncated (by decide +kernel)

/-! ## Division -/

/-- Where the remainder has an integer part, it is divided by the integer part of the divisor
alone. That is near enough if the fractional part of the divisor is small for the quotient, and if
a quotient below one stays so. -/
def DivisorFits (a b : ℕ) : Prop :=
  a % b < 2 ^ 64 ∨
    (a % b / (b / 2 ^ 64) - 1) * (b % 2 ^ 64) ≤
        (b / 2 ^ 64 + a % b % (b / 2 ^ 64)) * 2 ^ 64 ∧
      (a < b → a / 2 ^ 64 < b / 2 ^ 64)

instance (a b : ℕ) : Decidable (DivisorFits a b) := inferInstanceAs (Decidable (_ ∨ _))

/-- What the remainder adds to the quotient. -/
def remainderPart (a b : ℕ) : ℕ :=
  if a % b < 2 ^ 64 then a % b * 2 ^ 64 / b else a % b / (b / 2 ^ 64)

theorem top_pos {r b : ℕ} (hr : 2 ^ 64 ≤ r) (hlt : r < b) : 0 < b / 2 ^ 64 := by
  omega

theorem remainderPart_lt {a b : ℕ} (hb : 0 < b) : remainderPart a b < 2 ^ 65 := by
  have hmod : a % b < b := Nat.mod_lt _ hb
  unfold remainderPart
  split
  next hsmall =>
    rw [Nat.div_lt_iff_lt_mul hb]
    have hscaled : a % b * 2 ^ 64 < b * 2 ^ 64 := by omega
    omega
  next hbig =>
    have htop := top_pos (Nat.le_of_not_lt hbig) hmod
    rw [Nat.div_lt_iff_lt_mul htop]
    omega

/-- The quotient does not overflow. -/
theorem quotient_lt {a b : ℕ} (ha : a ≤ 2 ^ 127) (hb : 0 < b) (hfits : a < 2 ^ 63 * b) :
    a / b * 2 ^ 64 + remainderPart a b < 2 ^ 127 := by
  have hmod : a % b < b := Nat.mod_lt _ hb
  by_cases hsmall : a % b < 2 ^ 64
  · have hquotient := FixedPoint.mul_div_of_remainder a (2 ^ 64) hb
    rw [remainderPart, if_pos hsmall, ← hquotient, Nat.div_lt_iff_lt_mul hb]
    omega
  · -- a remainder that large leaves room below the bound
    have hpart := remainderPart_lt (a := a) hb
    have hsum : a / b * b + a % b = a := Nat.div_add_mod' a b
    have hle : a / b * (2 ^ 64 + 1) ≤ a / b * b := Nat.mul_le_mul_left _ (by omega)
    omega

theorem toNat_divu {a b : BitVec 128} (hb : 0 < b.toNat)
    (hfits : a.toNat / b.toNat * 2 ^ 64 + remainderPart a.toNat b.toNat < 2 ^ 128) :
    (divu a b).toNat = a.toNat / b.toNat * 2 ^ 64 + remainderPart a.toNat b.toNat := by
  have hquotient : ((a / b) <<< 64).toNat = a.toNat / b.toNat * 2 ^ 64 := by
    rw [BitVec.toNat_shiftLeft, BitVec.toNat_udiv, Nat.shiftLeft_eq]
    exact Nat.mod_eq_of_lt ((Nat.le_add_right _ _).trans_lt hfits)
  have hbound := b.isLt
  have hmod : a.toNat % b.toNat < b.toNat := Nat.mod_lt _ hb
  have hzero : (a % b) >>> 64 = 0 ↔ a.toNat % b.toNat < 2 ^ 64 := by
    rw [← BitVec.toNat_inj, toNat_high, BitVec.toNat_umod]
    change _ = 0 ↔ _
    omega
  unfold divu
  dsimp only
  simp only [hzero]
  unfold remainderPart at hfits ⊢
  split
  next hsmall =>
    rw [if_pos hsmall] at hfits
    have hscaled : ((a % b) <<< 64).toNat = a.toNat % b.toNat * 2 ^ 64 := by
      rw [BitVec.toNat_shiftLeft, BitVec.toNat_umod, Nat.shiftLeft_eq]
      exact Nat.mod_eq_of_lt (Nat.mul_lt_mul_of_pos_right hsmall (Nat.two_pow_pos 64))
    rw [BitVec.toNat_add, hquotient, BitVec.toNat_udiv, hscaled]
    exact Nat.mod_eq_of_lt hfits
  next hbig =>
    rw [if_neg hbig] at hfits
    rw [BitVec.toNat_add, hquotient, BitVec.toNat_udiv, BitVec.toNat_umod, toNat_high]
    exact Nat.mod_eq_of_lt hfits

/-- What is computed is near the quotient. -/
theorem near_iff {a b : ℕ} (hb : 0 < b) :
    (a / b * 2 ^ 64 + remainderPart a b ≤ a * 2 ^ 64 / b + 1 ∧
      (a < b → a / b * 2 ^ 64 + remainderPart a b < 2 ^ 64)) ↔ DivisorFits a b := by
  have hmod : a % b < b := Nat.mod_lt _ hb
  rw [FixedPoint.mul_div_of_remainder a (2 ^ 64) hb]
  unfold DivisorFits
  by_cases hsmall : a % b < 2 ^ 64
  · refine iff_of_true ?_ (Or.inl hsmall)
    rw [remainderPart, if_pos hsmall]
    refine ⟨Nat.le_succ _, fun hlt => ?_⟩
    rw [Nat.div_eq_of_lt hlt, Nat.zero_mul, Nat.zero_add, Nat.div_lt_iff_lt_mul hb]
    rw [Nat.mod_eq_of_lt hlt]
    omega
  · have htop := top_pos (Nat.le_of_not_lt hsmall) hmod
    have hb' : b = b / 2 ^ 64 * 2 ^ 64 + b % 2 ^ 64 := (Nat.div_add_mod' b _).symm
    have hnear := @FixedPoint.div_top_le_iff (a % b) _ (b % 2 ^ 64) _ htop (Nat.two_pow_pos 64)
    rw [← hb'] at hnear
    rw [remainderPart, if_neg hsmall, or_iff_right hsmall, ← hnear, Nat.add_assoc,
      Nat.add_le_add_iff_left]
    refine and_congr_right fun _ => forall_congr' fun hlt => ?_
    rw [Nat.div_eq_of_lt hlt, Nat.zero_mul, Nat.zero_add, Nat.mod_eq_of_lt hlt,
      Nat.div_lt_iff_lt_mul htop, Nat.div_lt_iff_lt_mul (Nat.two_pow_pos 64), Nat.mul_comm]

/-- Never below the quotient. -/
theorem le_near {a b : ℕ} (hb : 0 < b) :
    a * 2 ^ 64 / b ≤ a / b * 2 ^ 64 + remainderPart a b := by
  have hmod : a % b < b := Nat.mod_lt _ hb
  rw [FixedPoint.mul_div_of_remainder a (2 ^ 64) hb, Nat.add_le_add_iff_left]
  unfold remainderPart
  split
  · exact Nat.le_refl _
  next hbig => exact FixedPoint.mul_div_le_div_top (top_pos (Nat.le_of_not_lt hbig) hmod)

/-- The quotient, with an error of one unit at most; a quotient below one stays below it. -/
def Accurate (a b : Int64x64) : Prop :=
  ∃ q : ℕ, (a.div b).v.toInt = a.v.toInt.sign * b.v.toInt.sign * (q : ℤ) ∧
    q ≤ a.v.toInt.natAbs * 2 ^ 64 / b.v.toInt.natAbs + 1 ∧
    a.v.toInt.natAbs * 2 ^ 64 / b.v.toInt.natAbs ≤ q + 1 ∧
    (a.v.toInt.natAbs < b.v.toInt.natAbs → q < 2 ^ 64)

/-- A quotient that fits is accurate exactly if the divisor fits the remainder. -/
theorem div_accurate_iff (a b : Int64x64) (hb : b.v.toInt ≠ 0)
    (hfits : a.v.toInt.natAbs < 2 ^ 63 * b.v.toInt.natAbs) :
    a.Accurate b ↔ DivisorFits a.v.toInt.natAbs b.v.toInt.natAbs := by
  obtain ⟨m, hm⟩ : ∃ m, m = a.v.toInt.natAbs := ⟨_, rfl⟩
  obtain ⟨n, hn⟩ : ∃ n, n = b.v.toInt.natAbs := ⟨_, rfl⟩
  have hle := natAbs_toInt_le a.v
  have hpos : 0 < n := by omega
  rw [← hm, ← hn] at hfits ⊢
  rw [← hm] at hle
  have hlt := quotient_lt hle hpos hfits
  have hdivu : (divu (magnitude a.v) (magnitude b.v)).toNat =
      m / n * 2 ^ 64 + remainderPart m n := by
    have hspec := toNat_divu (a := magnitude a.v) (b := magnitude b.v)
    rw [toNat_magnitude, toNat_magnitude, ← hm, ← hn] at hspec
    exact hspec hpos (hlt.trans (by decide))
  have hnothing : m = 0 → m / n * 2 ^ 64 + remainderPart m n = 0 := by
    rintro rfl
    simp [remainderPart]
  have hsigned := toInt_outputSign a b (hdivu ▸ hlt) fun h => by
    rw [hdivu, hnothing]
    omega
  rw [← near_iff hpos, Accurate, ← hm, ← hn]
  unfold div
  rw [hsigned, hdivu]
  constructor
  · rintro ⟨q, hq, hupper, -, hbelow⟩
    by_cases hzero : a.v.toInt = 0
    · rw [hnothing (by omega)]
      exact ⟨Nat.zero_le _, fun _ => Nat.two_pow_pos 64⟩
    · have hsign := mul_ne_zero (mt Int.sign_eq_zero_iff_zero.mp hzero)
        (mt Int.sign_eq_zero_iff_zero.mp hb)
      obtain rfl : m / n * 2 ^ 64 + remainderPart m n = q := by
        exact_mod_cast mul_left_cancel₀ hsign hq
      exact ⟨hupper, hbelow⟩
  · rintro ⟨hupper, hbelow⟩
    exact ⟨_, rfl, hupper, (le_near hpos).trans (Nat.le_succ _), hbelow⟩

/-- Ten divided by three. -/
theorem div_accurate_three : Accurate ⟨10 * 2 ^ 64⟩ ⟨3 * 2 ^ 64⟩ :=
  (div_accurate_iff ⟨10 * 2 ^ 64⟩ ⟨3 * 2 ^ 64⟩ (by decide +kernel) (by decide +kernel)).mpr
    (by decide +kernel)

/-- `2 - 2 ^ -63` divided by `2 - 2 ^ -64` is almost two. -/
theorem not_div_accurate_two : ¬ Accurate ⟨2 ^ 65 - 2⟩ ⟨2 ^ 65 - 1⟩ := by
  rintro ⟨q, hq, -, -, hbelow⟩
  have hquotient : (div ⟨2 ^ 65 - 2⟩ ⟨2 ^ 65 - 1⟩).v.toInt = 36893488147419103230 := by
    decide +kernel
  have hsign : (2 ^ 65 - 2 : BitVec 128).toInt.sign * (2 ^ 65 - 1 : BitVec 128).toInt.sign = 1 := by
    decide +kernel
  have hlt := hbelow (by decide +kernel)
  rw [hquotient, hsign] at hq
  omega

/-! ## Division by an inverse -/

/-- With an integer on the left no partial product is lost. -/
theorem toNat_umulByInvert {a b : BitVec 128} {m : ℕ} (hm : m < 2 ^ 63)
    (ha : a.toNat = m * 2 ^ 64) :
    (umulByInvert a b).toNat = m * b.toNat / 2 ^ 64 ∧ m * b.toNat / 2 ^ 64 < 2 ^ 127 := by
  have hb := b.isLt
  have hhigh : (a >>> 64).toNat = m := by
    rw [toNat_high, ha, Nat.mul_div_cancel _ (Nat.two_pow_pos 64)]
  have hlow : (a &&& maskLo).toNat = 0 := by
    rw [toNat_and_maskLo, ha, Nat.mul_mod_left]
  have hbH : b.toNat / 2 ^ 64 < 2 ^ 64 := by omega
  have hbL : b.toNat % 2 ^ 64 < 2 ^ 64 := Nat.mod_lt _ (Nat.two_pow_pos 64)
  have hhi : m * (b.toNat / 2 ^ 64) ≤ (2 ^ 63 - 1) * (2 ^ 64 - 1) :=
    Nat.mul_le_mul (by omega) (by omega)
  have hmid : m * (b.toNat % 2 ^ 64) ≤ (2 ^ 63 - 1) * (2 ^ 64 - 1) :=
    Nat.mul_le_mul (by omega) (by omega)
  have hsplit : m * b.toNat / 2 ^ 64 =
      m * (b.toNat / 2 ^ 64) + m * (b.toNat % 2 ^ 64) / 2 ^ 64 := by
    have hsum : m * b.toNat = m * (b.toNat % 2 ^ 64) + 2 ^ 64 * (m * (b.toNat / 2 ^ 64)) := by
      conv_lhs => rw [← Nat.div_add_mod b.toNat (2 ^ 64)]
      rw [Nat.mul_add, Nat.mul_left_comm, Nat.add_comm]
    rw [hsum, Nat.add_mul_div_left _ _ (Nat.two_pow_pos 64), Nat.add_comm]
  have hlt : m * b.toNat / 2 ^ 64 < 2 ^ 127 := by omega
  refine ⟨?_, hlt⟩
  unfold umulByInvert
  dsimp only
  rw [BitVec.toNat_add, BitVec.toNat_mul, toNat_high ((a >>> 64) * (b &&& maskLo) + _),
    BitVec.toNat_add, BitVec.toNat_mul, BitVec.toNat_mul, hhigh, hlow, toNat_high,
    toNat_and_maskLo, Nat.zero_mul, Nat.zero_mod, Nat.add_zero, Nat.mod_mod,
    Nat.mod_eq_of_lt (show m * (b.toNat / 2 ^ 64) < 2 ^ 128 by omega),
    Nat.mod_eq_of_lt (show m * (b.toNat % 2 ^ 64) < 2 ^ 128 by omega), ← hsplit]
  exact Nat.mod_eq_of_lt (hlt.trans (by decide))

/-- The high part, cut towards zero. -/
theorem toInt_getHigh {x : Int64x64} (h : x.v.toInt.natAbs < 2 ^ 127) :
    x.getHigh.toInt = x.v.toInt.tdiv (2 ^ 64) := by
  have habs := toNat_magnitude x.v
  have hshift : (((magnitude x.v).sshiftRight 64).setWidth 64).toNat =
      x.v.toInt.natAbs / 2 ^ 64 := by
    have hmsb : (magnitude x.v).msb = false := by
      rw [BitVec.msb_eq_decide, habs]
      exact decide_eq_false (by omega)
    rw [BitVec.toNat_setWidth, BitVec.toNat_sshiftRight_of_msb_false hmsb, habs,
      Nat.shiftRight_eq_div_pow]
    exact Nat.mod_eq_of_lt (by omega)
  have hsmall : (((magnitude x.v).sshiftRight 64).setWidth 64).toInt =
      ((x.v.toInt.natAbs / 2 ^ 64 : ℕ) : ℤ) := by
    rw [BitVec.toInt_eq_toNat_cond, hshift, if_pos (by omega)]
  unfold getHigh
  dsimp only
  split
  next hneg =>
    rw [negative_iff] at hneg
    rw [BitVec.toInt_neg, hsmall, Int.bmod_eq_of_le_mul_two (by omega) (by omega), Int.ofNat_tdiv,
      ← Int.neg_tdiv, ← Int.eq_neg_natAbs_of_nonpos hneg.le]
    rfl
  next hneg =>
    rw [negative_iff] at hneg
    rw [hsmall, Int.ofNat_tdiv, Int.natAbs_of_nonneg (Int.not_lt.mp hneg)]
    rfl

/-- `2 ^ 128` divided by a number. -/
theorem toNat_divu_one {v : BitVec 64} (hv : 1 < v.toNat) :
    (divu ((1 : BitVec 128) <<< 64) (v.setWidth 128)).toNat = 2 ^ 128 / v.toNat := by
  have hlt := v.isLt
  have hpos : 0 < v.toNat := by omega
  have hone : ((1 : BitVec 128) <<< 64).toNat = 2 ^ 64 := by decide
  have hwide : (v.setWidth 128).toNat = v.toNat := by
    rw [BitVec.toNat_setWidth]
    exact Nat.mod_eq_of_lt (by omega)
  have hsmall : 2 ^ 64 % v.toNat < 2 ^ 64 := (Nat.mod_lt _ hpos).trans hlt
  have hquotient : 2 ^ 128 / v.toNat =
      2 ^ 64 / v.toNat * 2 ^ 64 + remainderPart (2 ^ 64) v.toNat := by
    rw [remainderPart, if_pos hsmall, ← FixedPoint.mul_div_of_remainder _ _ hpos, ← Nat.pow_add]
  have hdivu := toNat_divu (a := (1 : BitVec 128) <<< 64) (b := v.setWidth 128)
  rw [hone, hwide, ← hquotient] at hdivu
  exact hdivu hpos (Nat.div_lt_self (Nat.two_pow_pos 128) hv)

theorem ofParts_zero {v : BitVec 64} (hv : v.toNat < 2 ^ 63) :
    ∃ a : BitVec 128, ofParts v 0 = withSign false a ∧ a.toNat = v.toNat * 2 ^ 64 := by
  have hmsb : v.msb = false := by
    rw [BitVec.msb_eq_decide]
    exact decide_eq_false (by omega)
  refine ⟨v.signExtend 128 <<< 64, ?_, ?_⟩
  · unfold ofParts
    dsimp only
    rw [hmsb]
    simp
  · rw [BitVec.toNat_shiftLeft, BitVec.signExtend_eq_setWidth_of_msb_false hmsb,
      BitVec.toNat_setWidth, Nat.shiftLeft_eq,
      Nat.mod_eq_of_lt (show v.toNat < 2 ^ 128 by omega)]
    exact Nat.mod_eq_of_lt (by omega)

theorem toInt_getHigh_mulByInvert {x o : Int64x64} {m : ℕ} (hm : m < 2 ^ 63)
    (hx : x.v.toInt.natAbs = m * 2 ^ 64) : (x.mulByInvert o).getHigh.toInt =
      if negative x.v then -((m * o.v.toNat / 2 ^ 128 : ℕ) : ℤ)
      else (m * o.v.toNat / 2 ^ 128 : ℕ) := by
  obtain ⟨hproduct, hlt⟩ :=
    toNat_umulByInvert (b := o.v) hm ((toNat_magnitude x.v).trans hx)
  have hvalue := @toInt_withSign (negative x.v) _ (hproduct ▸ hlt)
  rw [hproduct] at hvalue
  have habs : (x.mulByInvert o).v.toInt.natAbs < 2 ^ 127 := by
    rw [mulByInvert, hvalue]
    split <;> omega
  rw [toInt_getHigh habs, mulByInvert, hvalue]
  have hquotient : ((m * o.v.toNat / 2 ^ 64 : ℕ) : ℤ).tdiv (2 ^ 64) =
      ((m * o.v.toNat / 2 ^ 128 : ℕ) : ℤ) := by
    have hdiv : m * o.v.toNat / 2 ^ 128 = m * o.v.toNat / 2 ^ 64 / 2 ^ 64 := by
      rw [Nat.div_div_eq_div_mul, ← Nat.pow_add]
    rw [hdiv, Int.ofNat_tdiv (m * o.v.toNat / 2 ^ 64)]
    rfl
  split
  · rw [Int.neg_tdiv, hquotient]
  · exact hquotient

/-- The inverse is rounded up: its product with the number is at least one, by less than the
number of units. -/
theorem invert_spec {v : BitVec 64} (hone : 1 < v.toNat) (hv : v.toNat < 2 ^ 63) :
    ∃ inverse e, invert v = some inverse ∧ e < v.toNat ∧
      inverse.v.toNat * v.toNat = 2 ^ 128 + e := by
  obtain ⟨reciprocal, hreciprocal⟩ : ∃ result : Int64x64,
      result = ⟨divu ((1 : BitVec 128) <<< 64) (v.setWidth 128)⟩ := ⟨_, rfl⟩
  have hvalue : reciprocal.v.toNat = 2 ^ 128 / v.toNat := by
    rw [hreciprocal]
    exact toNat_divu_one hone
  have hmod : 2 ^ 128 % v.toNat < v.toNat := Nat.mod_lt _ (by omega)
  have hsum : 2 ^ 128 / v.toNat * v.toNat + 2 ^ 128 % v.toNat = 2 ^ 128 := Nat.div_add_mod' _ _
  have hlt : 2 ^ 128 / v.toNat < 2 ^ 128 := Nat.div_lt_self (Nat.two_pow_pos 128) hone
  -- the trial product tells whether the reciprocal is exact
  have htrial : ((ofParts v 0).mulByInvert reciprocal).getHigh ≠ 1 ↔ 2 ^ 128 % v.toNat ≠ 0 := by
    obtain ⟨a, hparts, ha⟩ := ofParts_zero hv
    have hinteger : (ofParts v 0).v.toInt = (v.toNat * 2 ^ 64 : ℕ) := by
      rw [hparts, toInt_withSign (by omega), ha]
      rfl
    have hpositive : ¬ negative (ofParts v 0).v = true := by
      rw [negative_iff]
      omega
    have hhigh := toInt_getHigh_mulByInvert (x := ofParts v 0) (o := reciprocal) hv
      (by rw [hinteger, Int.natAbs_natCast])
    rw [if_neg hpositive, hvalue] at hhigh
    have hne : ((ofParts v 0).mulByInvert reciprocal).getHigh = 1 ↔
        v.toNat * (2 ^ 128 / v.toNat) / 2 ^ 128 = 1 := by
      rw [← BitVec.toInt_inj, hhigh]
      change _ = ((1 : ℕ) : ℤ) ↔ _
      exact Nat.cast_inj
    rw [Ne, hne, Nat.mul_comm]
    omega
  unfold invert
  rw [if_pos hone, ← hreciprocal]
  dsimp only
  split
  next hinexact =>
    rw [htrial] at hinexact
    refine ⟨_, v.toNat - 2 ^ 128 % v.toNat, rfl, by omega, ?_⟩
    have hnext : (reciprocal.v + 1).toNat = 2 ^ 128 / v.toNat + 1 := by
      have hle : 2 ^ 128 / v.toNat ≤ 2 ^ 128 / 2 := Nat.div_le_div_left hone (by decide)
      rw [BitVec.toNat_add, hvalue]
      change (2 ^ 128 / v.toNat + 1) % 2 ^ 128 = _
      exact Nat.mod_eq_of_lt (by omega)
    change (reciprocal.v + 1).toNat * v.toNat = _
    rw [hnext, Nat.succ_mul]
    omega
  next hexact =>
    rw [htrial, not_not] at hexact
    exact ⟨_, 0, rfl, by omega, by rw [hvalue]; omega⟩

theorem toInt_ofInt64 (n : BitVec 64) : (ofInt64 n).v.toInt = n.toInt * 2 ^ 64 := by
  have hlt := BitVec.toInt_lt (x := n)
  have hle := BitVec.le_toInt n
  have hwide : (n.signExtend 128).toInt = n.toInt := BitVec.toInt_signExtend_of_le (by decide)
  have hmod : ((n.signExtend 128).toNat * 2 ^ 64 : ℤ).bmod (2 ^ 128) =
      (n.toInt * 2 ^ 64).bmod (2 ^ 128) := by
    rw [← hwide, BitVec.toInt_eq_toNat_bmod, Int.bmod_mul_bmod]
  unfold ofInt64
  rw [BitVec.toInt_shiftLeft, Nat.shiftLeft_eq, Nat.cast_mul]
  refine hmod.trans (Int.bmod_eq_of_le_mul_two ?_ ?_) <;> omega

theorem ofUInt64_eq_ofInt64 {v : BitVec 64} (hv : v.toNat < 2 ^ 63) : ofUInt64 v = ofInt64 v := by
  have hmsb : v.msb = false := by
    rw [BitVec.msb_eq_decide]
    exact decide_eq_false (by omega)
  rw [ofUInt64, ofInt64, BitVec.signExtend_eq_setWidth_of_msb_false hmsb]

/-- `mulByInvert` of an integer divides it, with truncation. -/
theorem mulByInvert_divides (n v : BitVec 64) (hn : n.toInt.natAbs < 2 ^ 63) (hone : 1 < v.toNat)
    (hv : v.toNat < 2 ^ 63) : ∃ inverse, invert v = some inverse ∧
      ((ofInt64 n).mulByInvert inverse).getHigh.toInt = n.toInt.tdiv v.toNat := by
  obtain ⟨inverse, e, hinvert, he, hinverse⟩ := invert_spec hone hv
  refine ⟨inverse, hinvert, ?_⟩
  have hinteger := toInt_ofInt64 n
  have habs : (ofInt64 n).v.toInt.natAbs = n.toInt.natAbs * 2 ^ 64 := by
    rw [hinteger, Int.natAbs_mul]
    rfl
  have herror : n.toInt.natAbs * e < 2 ^ 128 := by
    have hle : n.toInt.natAbs * e ≤ 2 ^ 63 * 2 ^ 63 := Nat.mul_le_mul (by omega) (by omega)
    omega
  have hquotient := FixedPoint.mul_reciprocal_div (by omega) hinverse herror
  rw [toInt_getHigh_mulByInvert hn habs, hquotient, Int.ofNat_tdiv]
  have hnegative : negative (ofInt64 n).v = true ↔ n.toInt < 0 := by
    rw [negative_iff]
    omega
  split
  next hneg =>
    rw [hnegative] at hneg
    rw [← Int.neg_tdiv, ← Int.eq_neg_natAbs_of_nonpos hneg.le]
  next hneg =>
    rw [hnegative] at hneg
    rw [Int.natAbs_of_nonneg (Int.not_lt.mp hneg)]

end Int64x64

end Ns3Rdma
