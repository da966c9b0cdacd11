import Ns3Rdma.Lte.LteRlcAm
import Ns3Rdma.Lte.Reassembly

/-! # Headers and their sizes

`m_headerLength` is kept as the extension bits are pushed, and counted again as they are read. It is
a number of sixteen bits. -/

namespace Ns3Rdma.Lte

/-! ## The length that is kept -/

namespace HeaderLength

/-- `PushExtensionBit`, when the header has this many extension bits with the new one. The fixed
part is counted before the first one, or with it. -/
def push (headerLength : UInt16) : ℕ → UInt16
  | 0 | 1 => headerLength
  | size => if size % 2 = 1 then headerLength + 1 else headerLength + 2

/-- What the loop of `Deserialize` adds for the bits that it reads. -/
def read (headerLength : UInt16) : List Bool → UInt16
  | [] => headerLength
  | [_] => headerLength + 2
  | _ :: _ :: bits => read (headerLength + 2 + 1) bits

/-- The bytes of this many length indicators. -/
def ofIndicators (k : ℕ) : ℕ := (3 * k + 1) / 2

theorem ofIndicators_add_two (k : ℕ) : ofIndicators (k + 2) = ofIndicators k + 3 := by
  unfold ofIndicators
  omega

theorem read_eq (bits : List Bool) (headerLength : UInt16) :
    read headerLength bits = headerLength + .ofNat (ofIndicators bits.length) := by
  induction bits using List.twoStepInduction generalizing headerLength with
  | nil => exact (UInt16.add_zero _).symm
  | singleton =>
      unfold read
      rw [List.length_singleton]
      rfl
  | cons_cons _ _ bits ih _ =>
      unfold read
      rw [ih, List.length_cons, List.length_cons, ofIndicators_add_two, Nat.add_comm,
        UInt16.ofNat_add, ← UInt16.add_assoc, UInt16.add_assoc headerLength]
      rfl

/-- The pushes of further extension bits, one for each of these. -/
theorem push_eq (fixed : UInt16) (k : ℕ) :
    push (fixed + .ofNat (ofIndicators k)) (k + 2) = fixed + .ofNat (ofIndicators (k + 1)) := by
  change (if (k + 2) % 2 = 1 then _ else _) = _
  split
  · next hodd =>
    have hsucc : ofIndicators (k + 1) = ofIndicators k + 1 := by
      unfold ofIndicators
      omega
    rw [hsucc, UInt16.ofNat_add, ← UInt16.add_assoc]
    rfl
  · next heven =>
    have hsucc : ofIndicators (k + 1) = ofIndicators k + 2 := by
      unfold ofIndicators
      omega
    rw [hsucc, UInt16.ofNat_add, ← UInt16.add_assoc]
    rfl

/-- The length is exact as long as it fits. -/
theorem toNat_eq_iff (fixed : UInt16) (k : ℕ) :
    (fixed + .ofNat (ofIndicators k)).toNat = fixed.toNat + ofIndicators k ↔
      fixed.toNat + ofIndicators k < 65536 := by
  rw [UInt16.toNat_add, UInt16.toNat_ofNat', Nat.add_mod_mod]
  omega

end HeaderLength

namespace LteRlcHeader

theorem indicatorBytes_eq (k : ℕ) :
    DataField.indicatorBytes 1 k = HeaderLength.ofIndicators k := by
  induction k using Nat.twoStepInduction with
  | zero => rfl
  | one => rfl
  | more k ih _ =>
      change 2 + (1 + DataField.indicatorBytes (1 + 2) k) = _
      rw [DataField.indicatorBytes_add_two, ih, HeaderLength.ofIndicators_add_two]
      omega

theorem length_tail_bits (k : ℕ) : (bits k).tail.length = k := by
  rw [List.length_tail, length_bits, Nat.add_sub_cancel]

/-- The bits behind the first one, and the length indicators, are read as they were written. -/
theorem deserializeFields_bits {indicators : List ℕ} (h : ∀ li ∈ indicators, li < 2048)
    (hne : indicators ≠ []) (rest : List UInt8) :
    deserializeFields (serializeFields (bits indicators.length).tail indicators ++ rest) =
      some ((bits indicators.length).tail, indicators, rest) := by
  obtain ⟨li, indicators, rfl⟩ := List.exists_cons_of_ne_nil hne
  rw [List.length_cons, bits_succ]
  exact deserializeFields_serializeFields indicators li h rest

end LteRlcHeader

/-! ## The header of RLC UM -/

structure UmHeader extends LteRlcHeader where
  headerLength : UInt16

namespace UmHeader

/-- After `SetFramingInfo` and `SetSequenceNumber`. -/
def new (framingInfo : Bool × Bool) (sequenceNumber : Fin 1024) : UmHeader where
  framingInfo := framingInfo
  sequenceNumber := sequenceNumber
  extensionBits := []
  lengthIndicators := []
  headerLength := 0

variable (h : UmHeader)

def pushExtensionBit (extensionBit : Bool) : UmHeader :=
  let extensionBits := h.extensionBits ++ [extensionBit]
  { h with
    extensionBits := extensionBits
    headerLength :=
      if extensionBits.length = 1 then 2
      else HeaderLength.push h.headerLength extensionBits.length }

def pushLengthIndicator (lengthIndicator : ℕ) : UmHeader :=
  { h with lengthIndicators := h.lengthIndicators ++ [lengthIndicator] }

/-- An extension bit that is set is pushed for each length indicator, and a last one that is not. -/
def pushIndicators (lengthIndicators : List ℕ) : UmHeader :=
  (lengthIndicators.foldl (fun h li => (h.pushExtensionBit true).pushLengthIndicator li)
    h).pushExtensionBit false

def getSerializedSize : UInt32 := .ofNat h.headerLength.toNat

def serialize : List UInt8 := h.toLteRlcHeader.serialize

/-- `Deserialize`, which returns `GetSerializedSize`, and the bytes that it did not read. -/
def deserialize (bytes : List UInt8) : Option (UmHeader × UInt32 × List UInt8) :=
  (LteRlcHeader.deserialize bytes).map fun (h, rest) =>
    let h : UmHeader := ⟨h, HeaderLength.read 2 h.extensionBits.tail⟩
    (h, h.getSerializedSize, rest)

/-- The length is the one of a header with the bits that are set, when there are any. -/
def pushedLength (fixed : UInt16) : ℕ → UInt16
  | 0 => 0
  | k + 1 => fixed + .ofNat (HeaderLength.ofIndicators k)

theorem pushExtensionBit_eq {h : UmHeader} (extensionBit : Bool)
    (hlength : h.headerLength = pushedLength 2 h.extensionBits.length) :
    h.pushExtensionBit extensionBit =
      { h with
        extensionBits := h.extensionBits ++ [extensionBit]
        headerLength := pushedLength 2 (h.extensionBits.length + 1) } := by
  unfold pushExtensionBit
  dsimp only
  rw [List.length_append, List.length_singleton, hlength]
  cases h.extensionBits.length with
  | zero => rfl
  | succ k =>
      rw [if_neg (by omega), pushedLength, HeaderLength.push_eq 2 k]
      rfl

/-- What a run of pushes makes of the header. -/
theorem foldl_push (indicators : List ℕ) (h : UmHeader)
    (hlength : h.headerLength = pushedLength 2 h.extensionBits.length) :
    indicators.foldl (fun h li => (h.pushExtensionBit true).pushLengthIndicator li) h =
      { framingInfo := h.framingInfo
        sequenceNumber := h.sequenceNumber
        extensionBits := h.extensionBits ++ List.replicate indicators.length true
        lengthIndicators := h.lengthIndicators ++ indicators
        headerLength := pushedLength 2 (h.extensionBits.length + indicators.length) } := by
  induction indicators generalizing h with
  | nil =>
      rw [List.foldl_nil, List.length_nil, List.replicate_zero, List.append_nil, List.append_nil,
        Nat.add_zero, ← hlength]
  | cons li indicators ih =>
      rw [List.foldl_cons, pushExtensionBit_eq true hlength, ih _ (by
        change _ = pushedLength 2 (h.extensionBits ++ [true]).length
        rw [List.length_append]
        rfl)]
      unfold pushLengthIndicator
      dsimp only
      rw [List.append_assoc, List.append_assoc, List.length_append, List.length_singleton,
        Nat.add_assoc, Nat.add_comm 1]
      rfl

theorem pushIndicators_new (framingInfo : Bool × Bool) (sequenceNumber : Fin 1024)
    (indicators : List ℕ) :
    (new framingInfo sequenceNumber).pushIndicators indicators =
      ⟨⟨framingInfo, sequenceNumber, LteRlcHeader.bits indicators.length, indicators⟩,
        2 + .ofNat (HeaderLength.ofIndicators indicators.length)⟩ := by
  unfold pushIndicators
  rw [foldl_push _ _ rfl, pushExtensionBit_eq false (by
    change pushedLength 2 ([].length + _) = pushedLength 2 ([] ++ List.replicate _ true).length
    rw [List.nil_append, List.length_replicate, List.length_nil, Nat.zero_add])]
  unfold new
  dsimp only
  rw [List.nil_append, List.nil_append, List.length_replicate]
  rfl

/-- As many bytes are written as `GetSerializedSize` says, `k` length indicators take `1.5 k` bytes
rounded up, and what was written is read again. -/
def RoundTrips (k : ℕ) : Prop :=
  h.serialize.length = h.getSerializedSize.toNat ∧
    h.getSerializedSize.toNat = 2 + HeaderLength.ofIndicators k ∧
    ∀ rest, deserialize (h.serialize ++ rest) = some (h, .ofNat h.serialize.length, rest)

/-- The header is read as it was written; only its size may be too large for the sixteen bits. -/
theorem umHeader_roundTrip_iff (framingInfo : Bool × Bool) (sequenceNumber : Fin 1024)
    {indicators : List ℕ} (hindicators : ∀ li ∈ indicators, li < 2048) :
    ((new framingInfo sequenceNumber).pushIndicators indicators).RoundTrips indicators.length ↔
      2 + HeaderLength.ofIndicators indicators.length < 65536 := by
  rw [pushIndicators_new]
  obtain ⟨h, hh⟩ : ∃ h : UmHeader, h = ⟨⟨framingInfo, sequenceNumber,
    LteRlcHeader.bits indicators.length, indicators⟩,
      2 + .ofNat (HeaderLength.ofIndicators indicators.length)⟩ := ⟨_, rfl⟩
  rw [← hh]
  have hlength : h.serialize.length = 2 + HeaderLength.ofIndicators indicators.length := by
    rw [← LteRlcHeader.indicatorBytes_eq, hh]
    exact LteRlcHeader.length_serialize rfl
  have hsize : h.getSerializedSize.toNat = 2 + HeaderLength.ofIndicators indicators.length ↔
      2 + HeaderLength.ofIndicators indicators.length < 65536 := by
    unfold getSerializedSize
    rw [UInt32.toNat_ofNat_of_lt' (lt_trans (UInt16.toNat_lt _) (by decide)), hh]
    exact HeaderLength.toNat_eq_iff 2 indicators.length
  constructor
  · rintro ⟨-, hsize', -⟩
    exact hsize.mp hsize'
  · intro hfits
    refine ⟨hlength.trans (hsize.mpr hfits).symm, hsize.mpr hfits, fun rest => ?_⟩
    have hread : HeaderLength.read 2 h.extensionBits.tail = h.headerLength := by
      rw [hh, HeaderLength.read_eq, LteRlcHeader.length_tail_bits]
    have hheader : LteRlcHeader.deserialize (h.serialize ++ rest) =
        some (h.toLteRlcHeader, rest) := by
      rw [hh]
      exact LteRlcHeader.deserialize_serialize rfl hindicators
    unfold deserialize
    rw [hheader, Option.map_some]
    dsimp only
    rw [hread, hlength, ← hsize.mpr hfits, UInt32.ofNat_toNat]

/-- The lengths of one header that is too large. -/
theorem size_wraps : ¬ ((new (true, true) 0).pushIndicators (List.replicate 43689 1)).RoundTrips
    (List.replicate 43689 1).length := by
  rintro ⟨-, hsize, -⟩
  rw [pushIndicators_new, List.length_replicate] at hsize
  exact absurd hsize (by decide)

theorem umHeader_roundTrip_iff_three :
    ((new (true, false) 1023).pushIndicators [2047, 1, 1500]).RoundTrips 3 :=
  (umHeader_roundTrip_iff (true, false) 1023 (by decide)).mpr (by decide)

end UmHeader

end Ns3Rdma.Lte
