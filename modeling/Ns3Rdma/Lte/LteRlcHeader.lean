import Mathlib.Data.List.Basic
import Mathlib.Data.List.Induction
import Mathlib.Tactic.Common
import Ns3Rdma.Lte.SequenceNumber10

/-! # The header of an UMD PDU

A fixed part of two bytes, and length indicators of eleven bits, each with an extension bit: two of
them take three bytes, a last one by itself takes two. The fields of a byte do not overlap, so they
are written as sums. -/

namespace Ns3Rdma.Lte

/-- The framing info says whether the data field begins with the first byte of an SDU, and whether
it ends with the last one. An extension bit is set when a length indicator follows. -/
structure LteRlcHeader where
  framingInfo : Bool × Bool
  sequenceNumber : Fin 1024
  extensionBits : List Bool
  lengthIndicators : List ℕ

namespace LteRlcHeader

/-- The pairs of an extension bit and a length indicator. The loop ends with the shorter list. -/
def serializeFields : List Bool → List ℕ → List UInt8
  | oddE :: evenE :: bits, oddLi :: evenLi :: indicators =>
      .ofNat (oddE.toNat * 128 + oddLi / 16 % 128) ::
        .ofNat (oddLi % 16 * 16 + evenE.toNat * 8 + evenLi / 256 % 8) :: .ofNat (evenLi % 256) ::
        serializeFields bits indicators
  | oddE :: _, oddLi :: _ =>
      [.ofNat (oddE.toNat * 128 + oddLi / 16 % 128), .ofNat (oddLi % 16 * 16)]
  | _, _ => []

/-- `Serialize`. The first extension bit is always there. -/
def serialize (h : LteRlcHeader) : List UInt8 :=
  .ofNat ((!h.framingInfo.1).toNat * 16 + (!h.framingInfo.2).toNat * 8 +
      (h.extensionBits.headD false).toNat * 4 + h.sequenceNumber.val / 256) ::
    .ofNat (h.sequenceNumber.val % 256) ::
    serializeFields h.extensionBits.tail h.lengthIndicators

/-- The loop over the length indicators; it needs the bytes that it reads. -/
def deserializeFields : List UInt8 → Option (List Bool × List ℕ × List UInt8)
  | byte₁ :: byte₂ :: bytes =>
      if byte₁.toNat / 128 % 2 = 1 then
        match bytes with
        | byte₃ :: rest =>
            let oddLi := byte₁.toNat % 128 * 16 + byte₂.toNat / 16
            let evenLi := byte₂.toNat % 8 * 256 + byte₃.toNat
            if byte₂.toNat / 8 % 2 = 1 then
              (deserializeFields rest).map fun (bits, indicators, rest) =>
                (true :: true :: bits, oddLi :: evenLi :: indicators, rest)
            else some ([true, false], [oddLi, evenLi], rest)
        | [] => none
      else some ([false], [byte₁.toNat % 128 * 16 + byte₂.toNat / 16], bytes)
  | _ => none

/-- `Deserialize`: the header, and the bytes behind it. -/
def deserialize : List UInt8 → Option (LteRlcHeader × List UInt8)
  | byte₁ :: byte₂ :: bytes =>
      let framingInfo := (!decide (byte₁.toNat / 16 % 2 = 1), !decide (byte₁.toNat / 8 % 2 = 1))
      let sequenceNumber := SequenceNumber10.wrap (byte₁.toNat % 4 * 256 + byte₂.toNat)
      if byte₁.toNat / 4 % 2 = 1 then
        (deserializeFields bytes).map fun (bits, indicators, rest) =>
          (⟨framingInfo, sequenceNumber, true :: bits, indicators⟩, rest)
      else some (⟨framingInfo, sequenceNumber, [false], []⟩, bytes)
  | _ => none

/-! ## The round trip -/

/-- The bits say that the length indicators follow, and then the data. -/
def bits (n : ℕ) : List Bool := List.replicate n true ++ [false]

theorem bits_succ (n : ℕ) : bits (n + 1) = true :: bits n := by
  unfold bits
  rw [List.replicate_succ, List.cons_append]

theorem toNat_ofNat_of_lt {n : ℕ} (h : n < 256) : (UInt8.ofNat n).toNat = n :=
  UInt8.toNat_ofNat_of_lt' h

/-- One or more length indicators are read as they were written. -/
theorem deserializeFields_serializeFields (indicators : List ℕ) (li : ℕ)
    (h : ∀ i ∈ li :: indicators, i < 2048) (rest : List UInt8) :
    deserializeFields (serializeFields (bits indicators.length) (li :: indicators) ++ rest) =
      some (bits indicators.length, li :: indicators, rest) := by
  -- Two indicators are read at a time.
  induction indicators using List.twoStepInduction generalizing li with
  | nil =>
      have hli := h li List.mem_cons_self
      have h₁ : (UInt8.ofNat (li / 16 % 128)).toNat = li / 16 := by
        rw [toNat_ofNat_of_lt (by omega)]
        omega
      have h₂ : (UInt8.ofNat (li % 16 * 16)).toNat = li % 16 * 16 := toNat_ofNat_of_lt (by omega)
      change deserializeFields
        (.ofNat (0 * 128 + li / 16 % 128) :: .ofNat (li % 16 * 16) :: rest) = _
      rw [Nat.zero_mul, Nat.zero_add]
      unfold deserializeFields
      rw [h₁, h₂, if_neg (by omega)]
      have hvalue : li / 16 % 128 * 16 + li % 16 * 16 / 16 = li := by omega
      rw [hvalue]
      rfl
  | singleton second =>
      have hli := h li List.mem_cons_self
      have hsecond := h second (List.mem_cons_of_mem _ List.mem_cons_self)
      have h₁ : (UInt8.ofNat (1 * 128 + li / 16 % 128)).toNat = 128 + li / 16 := by
        rw [toNat_ofNat_of_lt (by omega)]
        omega
      have h₂ : (UInt8.ofNat (li % 16 * 16 + 0 * 8 + second / 256 % 8)).toNat =
          li % 16 * 16 + second / 256 := by
        rw [toNat_ofNat_of_lt (by omega)]
        omega
      have h₃ : (UInt8.ofNat (second % 256)).toNat = second % 256 := toNat_ofNat_of_lt (by omega)
      change deserializeFields (.ofNat (1 * 128 + li / 16 % 128) ::
        .ofNat (li % 16 * 16 + 0 * 8 + second / 256 % 8) :: .ofNat (second % 256) :: rest) = _
      unfold deserializeFields
      dsimp only
      rw [h₁, h₂, h₃, if_pos (by omega), if_neg (by omega)]
      have hodd : (128 + li / 16) % 128 * 16 + (li % 16 * 16 + second / 256) / 16 = li := by omega
      have heven : (li % 16 * 16 + second / 256) % 8 * 256 + second % 256 = second := by omega
      rw [hodd, heven]
      rfl
  | cons_cons second third indicators ih _ =>
      have hli := h li List.mem_cons_self
      have hsecond := h second (by simp)
      have h₁ : (UInt8.ofNat (1 * 128 + li / 16 % 128)).toNat = 128 + li / 16 := by
        rw [toNat_ofNat_of_lt (by omega)]
        omega
      have h₂ : (UInt8.ofNat (li % 16 * 16 + 1 * 8 + second / 256 % 8)).toNat =
          li % 16 * 16 + 8 + second / 256 := by
        rw [toNat_ofNat_of_lt (by omega)]
        omega
      have h₃ : (UInt8.ofNat (second % 256)).toNat = second % 256 := toNat_ofNat_of_lt (by omega)
      have hbits : bits (second :: third :: indicators).length =
          true :: true :: bits indicators.length := by
        rw [List.length_cons, List.length_cons, bits_succ, bits_succ]
      rw [hbits]
      change deserializeFields (.ofNat (1 * 128 + li / 16 % 128) ::
        .ofNat (li % 16 * 16 + 1 * 8 + second / 256 % 8) :: .ofNat (second % 256) ::
          (serializeFields (bits indicators.length) (third :: indicators) ++ rest)) = _
      unfold deserializeFields
      dsimp only
      rw [h₁, h₂, h₃, if_pos (by omega), if_pos (by omega),
        ih third (fun i hi => h i (List.mem_cons_of_mem _ (List.mem_cons_of_mem _ hi)))]
      have hodd : (128 + li / 16) % 128 * 16 + (li % 16 * 16 + 8 + second / 256) / 16 = li := by
        omega
      have heven : (li % 16 * 16 + 8 + second / 256) % 8 * 256 + second % 256 = second := by omega
      rw [Option.map_some, hodd, heven]

end LteRlcHeader

end Ns3Rdma.Lte
