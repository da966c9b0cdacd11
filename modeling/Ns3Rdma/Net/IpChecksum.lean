import Ns3Rdma.Lib.OnesComplement
import Ns3Rdma.Lib.Word
import Ns3Rdma.Packetbb.PacketBb

/-!
# The Internet checksum

The 16-bit words are added with the first byte as the low one, and the carries are folded in at the
end. The result depends on the sum of the words only.
-/

namespace Ns3Rdma

namespace Writer

/-- The bytes of a 16-bit value in the order of the host, the low one first. -/
def u16 (v : UInt16) : List UInt8 := [v.toUInt8, (v >>> 8).toUInt8]

end Writer

namespace IpChecksum

/-- `ReadU16` of two bytes, as it is added to the sum. -/
def word (low high : UInt8) : UInt32 := high.toUInt32 <<< 8 ||| low.toUInt32

/-- The loop over the words, and the odd byte after it. -/
def addWords (sum : UInt32) : List UInt8 → UInt32
  | [] => sum
  | [last] => sum + last.toUInt32
  | low :: high :: rest => addWords (sum + word low high) rest

/-- `while (sum >> 16)`, for a number of iterations. -/
def foldCarries : ℕ → UInt32 → UInt32
  | 0, sum => sum
  | n + 1, sum =>
      if sum >>> 16 = 0 then sum else foldCarries n ((sum &&& (0xffff : UInt32)) + (sum >>> 16))

/-- `Buffer::Iterator::CalculateIpChecksum`. The carries are gone after two iterations
(`toNat_foldCarries_lt`). -/
def calculateIpChecksum (size : UInt16) (initialChecksum : UInt32) (bytes : List UInt8) : UInt16 :=
  ~~~ (foldCarries 2 (addWords initialChecksum (bytes.take size.toNat))).toUInt16

/-! ## Sums of words -/

/-- The sum of the words as a number. -/
def wordSum : List UInt8 → ℕ
  | [] => 0
  | [last] => last.toNat
  | low :: high :: rest => low.toNat + 256 * high.toNat + wordSum rest

theorem wordSum_append {xs : List UInt8} (h : Even xs.length) (ys : List UInt8) :
    wordSum (xs ++ ys) = wordSum xs + wordSum ys := by
  induction xs using wordSum.induct with
  | case1 => simp [wordSum]
  | case2 last => simp at h
  | case3 low high rest ih =>
      have hrest : Even rest.length := by simpa [Nat.even_add_one, parity_simps] using h
      rw [List.cons_append, List.cons_append, wordSum, wordSum, ih hrest]
      exact (Nat.add_assoc _ _ _).symm

theorem wordSum_le (bytes : List UInt8) : wordSum bytes ≤ 65535 * ((bytes.length + 1) / 2) := by
  induction bytes using wordSum.induct with
  | case1 => exact Nat.le_refl _
  | case2 last =>
      have hlast : last.toNat < 2 ^ 8 := last.toNat_lt
      simp only [wordSum, List.length_singleton]
      omega
  | case3 low high rest ih =>
      have hlow : low.toNat < 2 ^ 8 := low.toNat_lt
      have hhigh : high.toNat < 2 ^ 8 := high.toNat_lt
      simp only [wordSum, List.length_cons]
      omega

theorem toNat_word (low high : UInt8) : (word low high).toNat = low.toNat + 256 * high.toNat := by
  have hlow : low.toNat < 2 ^ 8 := low.toNat_lt
  have hhigh : high.toNat < 2 ^ 8 := high.toNat_lt
  have hshift : UInt32.toNat 8 % 32 = 8 := rfl
  rw [word, UInt32.toNat_or, UInt32.toNat_shiftLeft, UInt8.toNat_toUInt32, UInt8.toNat_toUInt32,
    hshift, Word.shiftLeft_mod_or (by omega) hlow]
  omega

/-- No carry leaves the 32 bits. -/
theorem toNat_addWords {sum : UInt32} {bytes : List UInt8}
    (h : sum.toNat + wordSum bytes < 2 ^ 32) :
    (addWords sum bytes).toNat = sum.toNat + wordSum bytes := by
  induction bytes using wordSum.induct generalizing sum with
  | case1 => rfl
  | case2 last =>
      rw [wordSum] at h
      rw [addWords, wordSum, UInt32.toNat_add_of_lt, UInt8.toNat_toUInt32]
      rwa [UInt8.toNat_toUInt32]
  | case3 low high rest ih =>
      rw [wordSum] at h
      have hsum : (sum + word low high).toNat = sum.toNat + (low.toNat + 256 * high.toNat) := by
        rw [UInt32.toNat_add_of_lt, toNat_word]
        rw [toNat_word]
        omega
      rw [addWords, wordSum, ih (by omega), hsum]
      omega

theorem toNat_fold (sum : UInt32) :
    ((sum &&& (0xffff : UInt32)) + (sum >>> 16)).toNat =
      OnesComplement.fold (2 ^ 16) sum.toNat := by
  have hlt := sum.toNat_lt
  have hmask : (sum &&& (0xffff : UInt32)).toNat = sum.toNat % 2 ^ 16 := by
    rw [UInt32.toNat_and]
    exact Nat.and_two_pow_sub_one_eq_mod sum.toNat 16
  have hshift : (sum >>> 16).toNat = sum.toNat / 2 ^ 16 := by
    rw [UInt32.toNat_shiftRight]
    exact Nat.shiftRight_eq_div_pow _ _
  rw [UInt32.toNat_add_of_lt, hmask, hshift, OnesComplement.fold]
  rw [hmask, hshift]
  omega

theorem toNat_foldCarries_succ (n : ℕ) (sum : UInt32) : (foldCarries (n + 1) sum).toNat =
    (foldCarries n ((sum &&& (0xffff : UInt32)) + (sum >>> 16))).toNat := by
  rw [foldCarries]
  split
  next hsum =>
      have hlt : sum.toNat < 2 ^ 16 := by
        have hshift : (sum >>> 16).toNat = sum.toNat / 2 ^ 16 := by
          rw [UInt32.toNat_shiftRight]
          exact Nat.shiftRight_eq_div_pow _ _
        rw [hsum, UInt32.toNat_zero] at hshift
        omega
      have hsame : (sum &&& (0xffff : UInt32)) + (sum >>> 16) = sum := by
        apply UInt32.toNat_inj.mp
        rw [toNat_fold, OnesComplement.fold_of_lt hlt]
      rw [hsame]
      cases n with
      | zero => rfl
      | succ n => rw [foldCarries, if_pos hsum]
  next => rfl

theorem toNat_foldCarries (sum : UInt32) : (foldCarries 2 sum).toNat =
    OnesComplement.fold (2 ^ 16) (OnesComplement.fold (2 ^ 16) sum.toNat) := by
  rw [toNat_foldCarries_succ, toNat_foldCarries_succ, foldCarries, toNat_fold, toNat_fold]

/-- The loop is over after two iterations. -/
theorem toNat_foldCarries_lt (sum : UInt32) : (foldCarries 2 sum).toNat < 2 ^ 16 := by
  rw [toNat_foldCarries]
  exact OnesComplement.fold_fold_lt sum.toNat_lt

/-- The checksum is the complement of the sum. -/
theorem toNat_calculateIpChecksum {size : UInt16} {initialChecksum : UInt32} {bytes : List UInt8}
    (hinitial : initialChecksum.toNat < 2 ^ 16) :
    (calculateIpChecksum size initialChecksum bytes).toNat =
      OnesComplement.checksum (2 ^ 16)
        (initialChecksum.toNat + wordSum (bytes.take size.toNat)) := by
  have hsize : size.toNat < 2 ^ 16 := size.toNat_lt
  have hwords := wordSum_le (bytes.take size.toNat)
  rw [List.length_take] at hwords
  have hlt := toNat_foldCarries_lt (addWords initialChecksum (bytes.take size.toNat))
  rw [toNat_foldCarries, toNat_addWords (by omega)] at hlt
  rw [calculateIpChecksum, UInt16.toNat_not, UInt32.toNat_toUInt16, toNat_foldCarries,
    toNat_addWords (by omega), Nat.mod_eq_of_lt hlt]
  rfl

end IpChecksum

end Ns3Rdma
