import Mathlib.Data.List.TakeWhile
import Ns3Rdma.Core.Int64x64

/-! # Fixed-point numbers as text

The integer part is printed with a sign. The fraction, an integer of up to twenty digits, is printed
from its most significant digit on, until the rest is zero. -/

namespace Ns3Rdma

namespace Int64x64

/-- `GetLow`. -/
def getLow (a : Int64x64) : BitVec 64 := (magnitude a.v &&& maskLo).setWidth 64

/-! ## Printing -/

/-- The loop of `MostSignificantDigit`: a 64-bit number has at most twenty digits. -/
def digitLoop : ℕ → ℕ → ℕ → ℕ
  | 0, _, n => n
  | fuel + 1, value, n => if value / 10 ≠ 0 then digitLoop fuel (value / 10) (n + 1) else n + 1

def mostSignificantDigit (value : BitVec 64) : ℕ := digitLoop 20 value.toNat 0

def powerOfTen : ℕ → ℕ
  | 0 => 1
  | n + 1 => powerOfTen n * 10

/-- The loop over the digits of the fraction, of which `msd` are left. -/
def writeDigits : ℕ → ℕ → List Char
  | 0, _ => []
  | msd + 1, low =>
      let pow := powerOfTen msd
      let digit := low / pow
      let low := low - digit * pow
      Nat.toDigits 10 digit ++ if 0 < msd ∧ 0 < low then writeDigits msd low else []

/-- An integer in decimal, with a plus sign when it is positive. -/
def writeShowpos (n : ℤ) : List Char := (if n < 0 then '-' else '+') :: Nat.toDigits 10 n.natAbs

/-- The operator `<<`. -/
def write (value : Int64x64) : List Char :=
  let hi := value.getHigh.toInt
  (if hi = 0 then '+' :: Nat.toDigits 10 0 else writeShowpos hi) ++
    '.' :: writeDigits (mostSignificantDigit (~~~ 0)) value.getLow.toNat

/-! ## Reading -/

/-- `ReadDigits`. -/
def readDigits (str : List Char) : BitVec 64 :=
  str.foldl (fun retval c => retval * 10 + (.ofNat 64 c.toNat - 0x30)) 0

/-- The operator `>>` for a word of the stream. -/
def read (str : List Char) : Int64x64 :=
  let cur := str.dropWhile (· == ' ')
  let (negative, cur) :=
    match cur.dropWhile (· != '-') with
    | _ :: next => (true, next)
    | [] =>
        match cur.dropWhile (· != '+') with
        | _ :: next => (false, next)
        | [] => (false, cur)
  let (hi, lo) :=
    match cur.dropWhile (· != '.') with
    | _ :: next => (readDigits (cur.takeWhile (· != '.')), readDigits next)
    | [] => (readDigits cur, 0)
  ofParts (if negative then -hi else hi) lo

/-! ## Digits -/

theorem powerOfTen_eq (n : ℕ) : powerOfTen n = 10 ^ n := by
  induction n with
  | zero => rfl
  | succ n ih => rw [powerOfTen, ih, Nat.pow_succ]

theorem isDigit_writeDigits (msd low : ℕ) : ∀ c ∈ writeDigits msd low, c.isDigit = true := by
  induction msd generalizing low with
  | zero => exact fun c hc => nomatch hc
  | succ msd ih =>
      intro c hc
      unfold writeDigits at hc
      rcases List.mem_append.mp hc with hc | hc
      · exact Nat.isDigit_of_mem_toDigits (by decide) (by decide) hc
      · split at hc
        · exact ih _ c hc
        · cases hc

/-- Digits are no signs and no points. -/
theorem ne_of_isDigit {c other : Char} (h : c.isDigit = true) (hother : other.isDigit = false) :
    (c != other) = true := by
  rw [bne_iff_ne]
  rintro rfl
  rw [h] at hother
  cases hother

/-- Digits are read as a number modulo `2 ^ 64`. -/
theorem readDigits_eq {str : List Char} (h : ∀ c ∈ str, c.isDigit = true) :
    readDigits str = .ofNat 64 (Nat.ofDigitChars 10 str 0) := by
  have hgeneral : ∀ init : ℕ, str.foldl
      (fun retval c => retval * 10 + (BitVec.ofNat 64 c.toNat - 0x30)) (.ofNat 64 init) =
        .ofNat 64 (Nat.ofDigitChars 10 str init) := by
    induction str with
    | nil => exact fun _ => rfl
    | cons c str ih =>
        intro init
        have hc : 48 ≤ c.toNat := by
          have hdigit := h c List.mem_cons_self
          rw [Char.isDigit, Bool.and_eq_true, decide_eq_true_iff] at hdigit
          exact hdigit.1
        rw [List.foldl_cons, Nat.ofDigitChars_cons, ← ih fun c hc => h c (List.mem_cons_of_mem _ hc)]
        congr 1
        apply BitVec.eq_of_toNat_eq
        rw [BitVec.toNat_add, BitVec.toNat_mul, BitVec.toNat_sub, BitVec.toNat_ofNat,
          BitVec.toNat_ofNat, BitVec.toNat_ofNat]
        change (init % 2 ^ 64 * 10 % 2 ^ 64 + (2 ^ 64 - 48 + c.toNat % 2 ^ 64) % 2 ^ 64) % 2 ^ 64 =
          (10 * init + (c.toNat - 48)) % 2 ^ 64
        omega
  exact hgeneral 0

/-- What is read of the digits of a fraction: the number, but for the zeros that are cut. -/
theorem ofDigitChars_writeDigits (msd : ℕ) {low : ℕ} (h : low < 10 ^ (msd + 1)) (init : ℕ) :
    ∃ cut, Nat.ofDigitChars 10 (writeDigits (msd + 1) low) init * 10 ^ cut =
        init * 10 ^ (msd + 1) + low ∧
      (low % 10 ≠ 0 → cut = 0) ∧ (low % 10 = 0 → low = 0 ∨ 0 < cut) := by
  induction msd generalizing low init with
  | zero =>
      refine ⟨0, ?_, fun _ => rfl, fun hlow => Or.inl (by omega)⟩
      unfold writeDigits
      dsimp only
      rw [if_neg fun hpos => Nat.lt_irrefl _ hpos.1, List.append_nil, powerOfTen, Nat.div_one,
        Nat.toDigits_of_lt_base (by omega),
        Nat.ofDigitChars_cons_digitChar_of_lt_ten (by omega), Nat.ofDigitChars_nil]
      omega
  | succ msd ih =>
      have hdigit : low / 10 ^ (msd + 1) < 10 :=
        Nat.div_lt_of_lt_mul (by rw [← Nat.pow_succ]; exact h)
      have hrest : low - low / 10 ^ (msd + 1) * 10 ^ (msd + 1) = low % 10 ^ (msd + 1) := by
        rw [Nat.mul_comm]
        exact Nat.sub_eq_of_eq_add (Nat.mod_add_div _ _).symm
      have hsplit := Nat.mod_add_div low (10 ^ (msd + 1))
      have hlast : low % 10 ^ (msd + 1) % 10 = low % 10 :=
        Nat.mod_mod_of_dvd _ (Dvd.intro_left (10 ^ msd) rfl)
      unfold writeDigits
      dsimp only
      rw [powerOfTen_eq, hrest, Nat.ofDigitChars_append, Nat.toDigits_of_lt_base hdigit,
        Nat.ofDigitChars_cons_digitChar_of_lt_ten hdigit, Nat.ofDigitChars_nil]
      by_cases hzero : low % 10 ^ (msd + 1) = 0
      · -- The digits that are left are zeros.
        rw [if_neg (by omega), Nat.ofDigitChars_nil]
        rw [hzero] at hlast hsplit
        refine ⟨msd + 1, ?_, fun hlow => absurd hlast.symm hlow, fun _ => Or.inr (Nat.succ_pos _)⟩
        rw [Nat.zero_add] at hsplit
        calc (10 * init + low / 10 ^ (msd + 1)) * 10 ^ (msd + 1)
            = init * 10 ^ (msd + 1 + 1) + 10 ^ (msd + 1) * (low / 10 ^ (msd + 1)) := by ring
          _ = init * 10 ^ (msd + 1 + 1) + low := by rw [hsplit]
      · rw [if_pos ⟨Nat.succ_pos _, Nat.pos_of_ne_zero hzero⟩]
        obtain ⟨cut, hvalue, hnone, hsome⟩ :=
          ih (Nat.mod_lt low (Nat.pow_pos (by decide))) (10 * init + low / 10 ^ (msd + 1))
        rw [hlast] at hnone hsome
        refine ⟨cut, ?_, hnone, fun hlow => Or.inr ((hsome hlow).resolve_left hzero)⟩
        calc _ = (10 * init + low / 10 ^ (msd + 1)) * 10 ^ (msd + 1) + low % 10 ^ (msd + 1) := hvalue
          _ = init * 10 ^ (msd + 1 + 1) +
              (low % 10 ^ (msd + 1) + 10 ^ (msd + 1) * (low / 10 ^ (msd + 1))) := by ring
          _ = init * 10 ^ (msd + 1 + 1) + low := by rw [hsplit]

theorem mostSignificantDigit_max : mostSignificantDigit (~~~ 0) = 20 := by decide

/-- A fraction is read as it was, unless its last digit is a zero. -/
theorem fraction_eq_iff {low : ℕ} (h : low < 2 ^ 64) :
    (readDigits (writeDigits 20 low)).toNat = low ↔ low = 0 ∨ low % 10 ≠ 0 := by
  obtain ⟨cut, hvalue, hnone, hsome⟩ := ofDigitChars_writeDigits 19 (lt_trans h (by decide)) 0
  rw [Nat.zero_mul, Nat.zero_add] at hvalue
  have hpow : 0 < 10 ^ cut := Nat.pow_pos (by decide)
  have hle : Nat.ofDigitChars 10 (writeDigits 20 low) 0 ≤ low :=
    (Nat.le_mul_of_pos_right _ hpow).trans_eq hvalue
  rw [readDigits_eq (isDigit_writeDigits 20 low), BitVec.toNat_ofNat,
    Nat.mod_eq_of_lt (lt_of_le_of_lt hle h)]
  constructor
  · intro heq
    rw [heq] at hvalue
    by_contra hnot
    rw [not_or, not_not] at hnot
    have hcut := (hsome hnot.2).resolve_left hnot.1
    have hlt := Nat.one_lt_pow (Nat.pos_iff_ne_zero.mp hcut) (show 1 < 10 by decide)
    have hmore := Nat.mul_lt_mul_of_pos_left hlt (Nat.pos_of_ne_zero hnot.1)
    rw [hvalue, Nat.mul_one] at hmore
    exact Nat.lt_irrefl _ hmore
  · rintro (rfl | hlow)
    · exact Nat.le_zero.mp hle
    · rw [hnone hlow, Nat.pow_zero, Nat.mul_one] at hvalue
      exact hvalue

/-! ## The round trip -/

theorem isDigit_toDigits (n : ℕ) : ∀ c ∈ Nat.toDigits 10 n, c.isDigit = true :=
  fun _ hc => Nat.isDigit_of_mem_toDigits (by decide) (by decide) hc

theorem takeWhile_digits {digits : List Char} (h : ∀ c ∈ digits, c.isDigit = true)
    (rest : List Char) :
    (digits ++ '.' :: rest).takeWhile (· != '.') = digits ∧
      (digits ++ '.' :: rest).dropWhile (· != '.') = '.' :: rest := by
  have hne : ∀ c ∈ digits, (c != '.') = true := fun c hc => ne_of_isDigit (h c hc) rfl
  constructor
  · rw [List.takeWhile_append_of_pos hne]
    exact List.append_nil _
  · rw [List.dropWhile_append_of_pos hne]
    rfl

theorem dropWhile_minus {digits fraction : List Char} (hdigits : ∀ c ∈ digits, c.isDigit = true)
    (hfraction : ∀ c ∈ fraction, c.isDigit = true) :
    ('+' :: digits ++ '.' :: fraction).dropWhile (· != '-') = [] := by
  rw [List.dropWhile_eq_nil_iff]
  intro c hc
  rw [List.cons_append, List.mem_cons, List.mem_append, List.mem_cons] at hc
  rcases hc with rfl | hc | rfl | hc
  · rfl
  · exact ne_of_isDigit (hdigits c hc) rfl
  · rfl
  · exact ne_of_isDigit (hfraction c hc) rfl

/-- A number that was printed is read as its sign, its integer part and its fraction. -/
theorem read_number {digits fraction : List Char} (hdigits : ∀ c ∈ digits, c.isDigit = true)
    (hfraction : ∀ c ∈ fraction, c.isDigit = true) (negative : Bool) :
    read ((if negative then '-' else '+') :: digits ++ '.' :: fraction) =
      ofParts (if negative then -readDigits digits else readDigits digits)
        (readDigits fraction) := by
  obtain ⟨htake, hdrop⟩ := takeWhile_digits hdigits fraction
  cases negative with
  | true =>
      unfold read
      change ofParts _ _ = _
      simp only [List.cons_append, List.dropWhile_cons]
      simp [htake, hdrop]
  | false =>
      have hminus := dropWhile_minus hdigits hfraction
      unfold read
      simp only [List.cons_append, Bool.false_eq_true, if_false] at hminus ⊢
      simp [htake, hdrop, hminus]

theorem toInt_ofParts {hi lo : BitVec 64} (h : hi.toInt.natAbs < 2 ^ 63) :
    (ofParts hi lo).v.toInt = if hi.toInt < 0 then -((hi.toInt.natAbs * 2 ^ 64 + lo.toNat : ℕ) : ℤ)
      else (hi.toInt.natAbs * 2 ^ 64 + lo.toNat : ℕ) := by
  have hlo := lo.isLt
  obtain ⟨m, hm⟩ : ∃ m, m = if hi.msb then -hi else hi := ⟨_, rfl⟩
  have hsign : hi.msb = true ↔ hi.toInt < 0 := by
    rw [BitVec.msb_eq_toInt, decide_eq_true_iff]
  have hnat : m.toNat = hi.toInt.natAbs := by
    rw [hm]
    have hlt := hi.isLt
    rw [BitVec.toInt_eq_msb_cond]
    split
    · next hneg =>
      rw [BitVec.msb_eq_decide, decide_eq_true_eq] at hneg
      rw [BitVec.toNat_neg]
      omega
    · rw [Int.natAbs_natCast]
  have hmsb : m.msb = false := by
    rw [BitVec.msb_eq_decide, hnat]
    exact decide_eq_false (by omega)
  have hvalue : (m.signExtend 128 <<< 64 + lo.setWidth 128).toNat =
      hi.toInt.natAbs * 2 ^ 64 + lo.toNat := by
    rw [BitVec.toNat_add, BitVec.toNat_shiftLeft, BitVec.signExtend_eq_setWidth_of_msb_false hmsb,
      BitVec.toNat_setWidth, BitVec.toNat_setWidth, Nat.shiftLeft_eq, hnat,
      Nat.mod_eq_of_lt (show hi.toInt.natAbs < 2 ^ 128 by omega),
      Nat.mod_eq_of_lt (show lo.toNat < 2 ^ 128 by omega),
      Nat.mod_eq_of_lt (show hi.toInt.natAbs * 2 ^ 64 < 2 ^ 128 by omega)]
    exact Nat.mod_eq_of_lt (by omega)
  have hparts : ofParts hi lo = withSign hi.msb (m.signExtend 128 <<< 64 + lo.setWidth 128) := by
    rw [hm]
    rfl
  rw [hparts, toInt_withSign (by rw [hvalue]; omega), hvalue]
  exact if_congr hsign rfl rfl

theorem toNat_getLow (x : Int64x64) : x.getLow.toNat = x.v.toInt.natAbs % 2 ^ 64 := by
  unfold getLow
  rw [BitVec.toNat_setWidth, toNat_and_maskLo, toNat_magnitude, Nat.mod_mod]

/-- What is printed is the sign of the integer part, its digits and those of the fraction. -/
theorem write_eq (x : Int64x64) :
    x.write = (if decide (x.getHigh.toInt < 0) then '-' else '+') ::
      Nat.toDigits 10 x.getHigh.toInt.natAbs ++
        '.' :: writeDigits 20 x.getLow.toNat := by
  unfold write writeShowpos
  rw [mostSignificantDigit_max]
  dsimp only
  by_cases hzero : x.getHigh.toInt = 0
  · rw [if_pos hzero, hzero]
    rfl
  · rw [if_neg hzero]
    simp only [decide_eq_true_eq]

/-- A number is read as it was printed if and only if its fraction does not end with a zero digit,
and it is not between -1 and 0. -/
theorem read_write_iff (x : Int64x64) (hx : x.v.toInt.natAbs < 2 ^ 127) :
    read x.write = x ↔
      (x.v.toInt.natAbs % 2 ^ 64 = 0 ∨ x.v.toInt.natAbs % 2 ^ 64 % 10 ≠ 0) ∧
        (0 ≤ x.v.toInt ∨ 2 ^ 64 ≤ x.v.toInt.natAbs) := by
  have hhigh := toInt_getHigh hx
  have habs : x.getHigh.toInt.natAbs = x.v.toInt.natAbs / 2 ^ 64 := by
    rw [hhigh, Int.natAbs_tdiv]
    rfl
  have hsmall : x.getHigh.toInt.natAbs < 2 ^ 63 := by
    rw [habs]
    omega
  have hread : read x.write = ofParts x.getHigh (readDigits (writeDigits 20 x.getLow.toNat)) := by
    rw [write_eq, read_number (isDigit_toDigits _) (isDigit_writeDigits _ _)]
    congr 1
    apply BitVec.eq_of_toInt_eq
    have hdigits : (readDigits (Nat.toDigits 10 x.getHigh.toInt.natAbs)).toInt =
        x.getHigh.toInt.natAbs := by
      rw [readDigits_eq (isDigit_toDigits _), Nat.ofDigitChars_ten_toDigits,
        BitVec.toInt_eq_toNat_cond, BitVec.toNat_ofNat, Nat.mod_eq_of_lt (by omega),
        if_pos (by omega)]
    by_cases hneg : x.getHigh.toInt < 0
    · rw [decide_eq_true hneg, if_pos rfl, BitVec.toInt_neg, hdigits,
        Int.bmod_eq_of_le_mul_two (by omega) (by omega)]
      omega
    · rw [decide_eq_false hneg, if_neg Bool.false_ne_true, hdigits]
      omega
  have hfraction := fraction_eq_iff (Nat.mod_lt x.v.toInt.natAbs (Nat.two_pow_pos 64))
  rw [← toNat_getLow] at hfraction
  rw [← toNat_getLow, ← hfraction, hread]
  generalize readDigits (writeDigits 20 x.getLow.toNat) = lo at *
  have hinj : ofParts x.getHigh lo = x ↔ (ofParts x.getHigh lo).v.toInt = x.v.toInt := by
    refine ⟨fun h => by rw [h], fun h => ?_⟩
    have hv := BitVec.eq_of_toInt_eq h
    exact congrArg Int64x64.mk hv
  have hneg : x.getHigh.toInt < 0 ↔ x.v.toInt < 0 ∧ 2 ^ 64 ≤ x.v.toInt.natAbs := by
    rw [hhigh]
    obtain ⟨n, hn⟩ := Int.eq_nat_or_neg x.v.toInt
    rcases hn with hn | hn
    · rw [hn]
      have hquotient : ((n : ℕ) : ℤ).tdiv (2 ^ 64) = ((n / 2 ^ 64 : ℕ) : ℤ) := rfl
      rw [hquotient]
      omega
    · rw [hn, Int.neg_tdiv]
      have hquotient : ((n : ℕ) : ℤ).tdiv (2 ^ 64) = ((n / 2 ^ 64 : ℕ) : ℤ) := rfl
      rw [hquotient]
      omega
  rw [hinj, toInt_ofParts hsmall, toNat_getLow, habs]
  have hlo := lo.isLt
  split <;> omega

theorem read_write_negative : read (write ⟨-(3 * 2 ^ 64 + 7)⟩) = ⟨-(3 * 2 ^ 64 + 7)⟩ :=
  (read_write_iff _ (by decide +kernel)).mpr (by decide +kernel)

/-- The digits `0000000000000000001` are read as one unit, and the sign of a number with the integer
part zero is not printed. -/
theorem not_read_write : read (write ⟨10⟩) ≠ ⟨10⟩ ∧ read (write ⟨-1⟩) ≠ ⟨-1⟩ := by decide

end Int64x64

end Ns3Rdma
