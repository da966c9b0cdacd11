import Ns3Rdma.Lib.Word
import Ns3Rdma.Serial.PacketSerialization

/-!
# Room for the length words

`Serialize` does not count the length words of the sections, nor their padding, so it takes less
room than it fills.
-/

namespace Ns3Rdma.Serial

open Codec

theorem align_toNat (size : UInt32) (h : size.toNat + 3 < 2 ^ 32) :
    (align size).toNat = (size.toNat + 3) / 4 * 4 := by
  have hsum : (size + 3).toNat = size.toNat + 3 := UInt32.toNat_add_of_lt h
  rw [← hsum]
  exact UInt32.toNat_and_not_low (size + 3) 2

/-! ## The parts are written if there is room -/

/-- The room that parts take. -/
def room (parts : List Part) : ℕ := (parts.map fun part => part.advance.toNat).sum

theorem putParts_of_room {maxSize : UInt32} {parts : List Part} {size : UInt32}
    (h : size.toNat + room parts ≤ maxSize.toNat) (c : Output) :
    (putParts maxSize parts size c).1 = 1 := by
  induction parts generalizing size c with
  | nil => rfl
  | cons part rest ih =>
      have hmax := maxSize.toNat_lt
      unfold room at h ih
      rw [List.map_cons, List.sum_cons] at h
      have hsum : (size + part.advance).toNat = size.toNat + part.advance.toNat :=
        UInt32.toNat_add_of_lt (by omega)
      have hfits : size + part.advance ≤ maxSize := by
        rw [UInt32.le_iff_toNat_le, hsum]
        omega
      rw [putParts, if_pos hfits]
      exact ih (by rw [hsum]; omega) _

theorem addToRaw_of_room {start : ℕ} {maxSize : UInt32} {pieces : List (List UInt8)} {c : Output}
    (h : c.current + pieces.flatten.length ≤ start + maxSize.toNat) :
    (PacketMetadata.addToRaw start maxSize pieces c).1 = 1 := by
  induction pieces generalizing c with
  | nil => rfl
  | cons piece rest ih =>
      have hmax := maxSize.toNat_lt
      rw [List.flatten_cons, List.length_append] at h
      have hfits : ¬ maxSize < UInt32.ofNat (c.current + piece.length - start) := by
        rw [UInt32.lt_iff_toNat_lt, UInt32.toNat_ofNat_of_lt' (by
          change c.current + piece.length - start < 2 ^ 32
          omega)]
        omega
      rw [PacketMetadata.addToRaw, if_neg hfits]
      apply ih
      rw [Cursor.write_current, List.length_map]
      omega

/-- A section is written if it is counted as fitting, and decides nothing else. -/
theorem putSection_fst {maxSize partSize : UInt32} {serialize : Output → UInt32 × Output}
    {next : UInt32 → Output → UInt32 × Output} {size result : UInt32} {c : Output}
    (hsum : size.toNat + partSize.toNat < 2 ^ 32) (hserialize : ∀ c, (serialize c).1 = 1)
    (hnext : ∀ c, (next (size + partSize) c).1 = result) :
    (putSection maxSize partSize serialize next size c).1 =
      if size.toNat + partSize.toNat ≤ maxSize.toNat then result else 0 := by
  have hfits : size + partSize ≤ maxSize ↔ size.toNat + partSize.toNat ≤ maxSize.toNat := by
    rw [UInt32.le_iff_toNat_le, UInt32.toNat_add_of_lt hsum]
  unfold putSection
  dsimp only
  by_cases hroom : size.toNat + partSize.toNat ≤ maxSize.toNat
  · rw [if_pos (hfits.mpr hroom), if_pos hroom, hserialize, if_pos (by decide)]
    exact hnext _
  · rw [if_neg (fun h => hroom (hfits.mp h)), if_neg hroom]

/-! ## The sizes -/

theorem length_raw (n v : ℕ) : (raw n v).length = n := by
  induction n generalizing v with
  | zero => rfl
  | succ n ih => rw [raw, List.length_cons, ih]

namespace NixVector

def length (nix : NixVector) : ℕ := 12 + 4 * nix.nixVector.length

theorem getSerializedSize_eq (nix : NixVector) :
    nix.getSerializedSize = UInt32.ofNat nix.length := by
  unfold getSerializedSize length
  rw [UInt32.ofNat_add, UInt32.ofNat_mul]
  rfl

theorem serialize_getSerializedSize {nix : NixVector} (h : nix.length < 2 ^ 32) (c : Output) :
    (nix.serialize nix.getSerializedSize c).1 = 1 := by
  apply putParts_of_room
  have hwords : ∀ words : List UInt32, room (words.map Part.word) = 4 * words.length := by
    intro words
    induction words with
    | nil => rfl
    | cons w rest ih =>
        unfold room at ih ⊢
        rw [List.map_cons, List.map_cons, List.sum_cons, ih, List.length_cons]
        change 4 + 4 * rest.length = _
        omega
  rw [hwords, getSerializedSize_eq, UInt32.toNat_ofNat_of_lt' h]
  unfold length
  simp only [List.length_cons]
  change 0 + _ ≤ _
  omega

end NixVector

namespace PacketMetadata

variable (types : TypeIds)

/-- All that `Serialize` writes. -/
def pieces (m : PacketMetadata) : List (List UInt8) :=
  raw 8 m.packetUid.toNat :: m.items.flatMap (Item.pieces types)

def length (m : PacketMetadata) : ℕ := (m.pieces types).flatten.length

theorem getSerializedSize_eq (m : PacketMetadata) :
    m.getSerializedSize types = UInt32.ofNat (m.length types) := by
  have hfold : ∀ (items : List Item) (n : ℕ), items.foldl (fun totalSize item =>
      totalSize + (4 + UInt32.ofNat (item.uidString types).length) + (1 + 4 + 2 + 4 + 4 + 8))
        (UInt32.ofNat n) =
      UInt32.ofNat (n + (items.flatMap (Item.pieces types)).flatten.length) := by
    intro items
    induction items with
    | nil => exact fun n => rfl
    | cons item rest ih =>
        intro n
        have hitem : (item.pieces types).flatten.length =
            4 + (item.uidString types).length + (1 + 4 + 2 + 4 + 4 + 8) := by
          unfold Item.pieces
          simp only [List.flatten_cons, List.flatten_nil, List.length_append, length_raw,
            List.length_nil]
          omega
        have hsize : UInt32.ofNat n + (4 + UInt32.ofNat (item.uidString types).length) +
            (1 + 4 + 2 + 4 + 4 + 8) =
            UInt32.ofNat (n + (4 + (item.uidString types).length + (1 + 4 + 2 + 4 + 4 + 8))) := by
          rw [UInt32.ofNat_add, UInt32.ofNat_add, UInt32.ofNat_add, UInt32.add_assoc]
          rfl
        rw [List.foldl_cons, List.flatMap_cons, List.flatten_append, List.length_append, hitem,
          hsize, ih, Nat.add_assoc]
  unfold getSerializedSize length pieces
  rw [List.flatten_cons, List.length_append, length_raw, ← hfold]
  rfl

theorem serialize_getSerializedSize {m : PacketMetadata} (h : m.length types < 2 ^ 32)
    (c : Output) : (m.serialize types (m.getSerializedSize types) c).1 = 1 := by
  apply addToRaw_of_room
  rw [getSerializedSize_eq, UInt32.toNat_ofNat_of_lt' h]
  exact Nat.le_refl _

end PacketMetadata

namespace Buffer

def length (b : Buffer) : ℕ :=
  12 + (b.dataStart.length + 3) / 4 * 4 + (b.dataEnd.length + 3) / 4 * 4

section

variable {b : Buffer} (h : b.length < 2 ^ 32)

include h

theorem align_dataStart : (align (UInt32.ofNat b.dataStart.length)).toNat =
    (b.dataStart.length + 3) / 4 * 4 := by
  unfold length at h
  have hlength : (UInt32.ofNat b.dataStart.length).toNat = b.dataStart.length :=
    UInt32.toNat_ofNat_of_lt' (by change _ < 2 ^ 32; omega)
  rw [align_toNat _ (by rw [hlength]; omega), hlength]

theorem align_dataEnd : (align (UInt32.ofNat b.dataEnd.length)).toNat =
    (b.dataEnd.length + 3) / 4 * 4 := by
  unfold length at h
  have hlength : (UInt32.ofNat b.dataEnd.length).toNat = b.dataEnd.length :=
    UInt32.toNat_ofNat_of_lt' (by change _ < 2 ^ 32; omega)
  rw [align_toNat _ (by rw [hlength]; omega), hlength]

theorem getSerializedSize_toNat : b.getSerializedSize.toNat = b.length := by
  have hfour : (4 : UInt32).toNat = 4 := rfl
  have hstart := align_dataStart h
  have hend := align_dataEnd h
  unfold length at h ⊢
  rw [getSerializedSize, UInt32.toNat_add, UInt32.toNat_add, UInt32.toNat_add, UInt32.toNat_add,
    hstart, hend, hfour]
  omega

theorem serialize_getSerializedSize (c : Output) :
    (b.serialize b.getSerializedSize c).1 = 1 := by
  apply putParts_of_room
  rw [getSerializedSize_toNat h]
  change 0 + (4 + (4 + ((align (UInt32.ofNat b.dataStart.length)).toNat +
    (4 + ((align (UInt32.ofNat b.dataEnd.length)).toNat + 0))))) ≤ _
  rw [align_dataStart h, align_dataEnd h]
  unfold length
  omega

end

end Buffer

/-! ## Packets -/

namespace Packet

variable (types : TypeIds)

/-- The bytes that `Serialize` compares with the size of the buffer. -/
def counted (p : Packet) : ℕ :=
  p.nixVector.elim 4 NixVector.length + p.metadata.length types + p.buffer.length

/-- The serialised form with its three length words and its padding is below 2^32 bytes, as the
`uint32_t` sizes presuppose. -/
def Fits (p : Packet) : Prop := p.counted types + 24 < 2 ^ 32

instance (p : Packet) : Decidable (p.Fits types) := inferInstanceAs (Decidable (_ < _))

variable {types} {p : Packet}

theorem counted_lt (h : p.Fits types) :
    p.counted types + 8 ≤ (p.getSerializedSize types).toNat := by
  have hfour : (4 : UInt32).toNat = 4 := rfl
  unfold Fits counted at h
  have hmeta : (p.metadata.getSerializedSize types).toNat = p.metadata.length types := by
    rw [PacketMetadata.getSerializedSize_eq]
    exact UInt32.toNat_ofNat_of_lt' (by change _ < 2 ^ 32; omega)
  have hbuffer := Buffer.getSerializedSize_toNat (b := p.buffer) (by omega)
  have hmetaAlign := align_toNat (p.metadata.getSerializedSize types)
    (by rw [hmeta]; omega)
  have hbufferAlign := align_toNat p.buffer.getSerializedSize (by rw [hbuffer]; omega)
  rw [hmeta] at hmetaAlign
  rw [hbuffer] at hbufferAlign
  unfold getSerializedSize counted
  cases hnix : p.nixVector with
  | none =>
      rw [hnix, Option.elim_none] at h
      dsimp only
      rw [Option.elim_none, UInt32.toNat_add, UInt32.toNat_add, UInt32.toNat_add, UInt32.toNat_add,
        hmetaAlign, hbufferAlign, hfour]
      omega
  | some nix =>
      rw [hnix, Option.elim_some] at h
      have hsize : nix.getSerializedSize.toNat = nix.length := by
        rw [NixVector.getSerializedSize_eq]
        exact UInt32.toNat_ofNat_of_lt' (by change _ < 2 ^ 32; omega)
      have hnixAlign := align_toNat nix.getSerializedSize (by rw [hsize]; omega)
      rw [hsize] at hnixAlign
      dsimp only
      rw [Option.elim_some, UInt32.toNat_add, UInt32.toNat_add, UInt32.toNat_add, UInt32.toNat_add,
        UInt32.toNat_add, hnixAlign, hmetaAlign, hbufferAlign, hfour]
      omega

theorem serializeRest_fst {maxSize size : UInt32} (hmeta : p.metadata.length types < 2 ^ 32)
    (hsum : size.toNat + p.metadata.length types + p.buffer.length < 2 ^ 32) (c : Output) :
    (p.serializeRest types maxSize size c).1 =
      if size.toNat + p.metadata.length types + p.buffer.length ≤ maxSize.toNat then 1 else 0 := by
  have hbuffer : p.buffer.length < 2 ^ 32 := by omega
  have hmetaSize : (p.metadata.getSerializedSize types).toNat = p.metadata.length types := by
    rw [PacketMetadata.getSerializedSize_eq]
    exact UInt32.toNat_ofNat_of_lt' hmeta
  have hbufferSize := Buffer.getSerializedSize_toNat hbuffer
  have hbehind : (size + p.metadata.getSerializedSize types).toNat =
      size.toNat + p.metadata.length types := by
    rw [UInt32.toNat_add_of_lt (by omega), hmetaSize]
  unfold serializeRest
  rw [putSection_fst (by omega) (PacketMetadata.serialize_getSerializedSize types hmeta)
    fun c => putSection_fst (by omega) (Buffer.serialize_getSerializedSize hbuffer) fun c => rfl]
  rw [hbehind, hmetaSize, hbufferSize]
  split
  next => rfl
  next => rw [if_neg (by omega)]

/-- `Serialize` succeeds if the buffer has room for what is counted: the sections without their
length words and without the padding of the metadata. -/
theorem serialize_fst (h : p.Fits types) (maxSize : UInt32) :
    (p.serialize types maxSize).1 = if p.counted types ≤ maxSize.toNat then 1 else 0 := by
  unfold Fits at h
  unfold serialize
  unfold counted at h ⊢
  cases hnix : p.nixVector with
  | none =>
      -- here the length word of the missing nix vector is counted
      rw [hnix, Option.elim_none] at h
      have hfour : (0 + 4 : UInt32).toNat = 4 := rfl
      dsimp only
      rw [Option.elim_none]
      split
      next => rw [serializeRest_fst (by omega) (by omega), hfour]
      next hsmall =>
          rw [UInt32.le_iff_toNat_le, hfour] at hsmall
          rw [if_neg (by omega)]
  | some nix =>
      rw [hnix, Option.elim_some] at h
      have hlength : nix.length < 2 ^ 32 := by omega
      have hsize : nix.getSerializedSize.toNat = nix.length := by
        rw [NixVector.getSerializedSize_eq]
        exact UInt32.toNat_ofNat_of_lt' hlength
      have hzero : (0 : UInt32).toNat = 0 := rfl
      have hbehind : (0 + nix.getSerializedSize).toNat = nix.length := by
        rw [UInt32.zero_add, hsize]
      dsimp only
      rw [Option.elim_some, putSection_fst (by omega)
        (NixVector.serialize_getSerializedSize hlength)
        fun c => serializeRest_fst (by omega) (by omega) c]
      rw [hbehind, hsize, hzero, Nat.zero_add]
      split
      next => rfl
      next => rw [if_neg (by omega)]

variable (types) in
/-- `Serialize` stays inside the buffer and refuses one that is too small, and `Deserialize` of
what it writes with just enough room is the packet. The bytes between the sections that it does
not write hold anything. -/
def Contract (p : Packet) : Prop :=
  (∀ maxSize, (∀ i, ((p.serialize types maxSize).2.data i).isSome → i < maxSize.toNat) ∧
    (maxSize < p.getSerializedSize types → (p.serialize types maxSize).1 = 0)) ∧
  ∀ fresh : ℕ → UInt8,
    deserialize types
        (fun i => ((p.serialize types (p.getSerializedSize types)).2.data i).getD (fresh i))
        (p.getSerializedSize types) =
      some (1, p)

/-- Every packet is written into a buffer that is too small for it. -/
theorem not_contract (h : p.Fits types) : ¬ p.Contract types := by
  intro hcontract
  have hlt := counted_lt h
  have hfits := h
  unfold Fits at hfits
  have hcounted : (UInt32.ofNat (p.counted types)).toNat = p.counted types :=
    UInt32.toNat_ofNat_of_lt' (Nat.lt_of_add_right_lt hfits)
  have hsmall : UInt32.ofNat (p.counted types) < p.getSerializedSize types := by
    rw [UInt32.lt_iff_toNat_lt, hcounted]
    omega
  have hrefused := (hcontract.1 _).2 hsmall
  rw [serialize_fst h, hcounted, if_pos (Nat.le_refl _)] at hrefused
  exact absurd hrefused (by decide)

/-- A type by the name `ns3::A`. -/
def oneType : TypeIds where
  getName _ := [110, 115, 51, 58, 58, 65]
  lookupByName _ := 7

/-- A fragment of a header in front of a payload, with a nix vector. -/
def fragmentPacket : Packet :=
  { nixVector := some ⟨1, 3, 3, [5]⟩
    metadata := ⟨9, [⟨15, 8, 1, 2, 8, 9⟩, ⟨0, 100, 2, 0, 100, 9⟩]⟩
    buffer := ⟨[1, 2, 3, 4, 5, 6], 100, []⟩ }

theorem not_contract_fragmentPacket : ¬ fragmentPacket.Contract oneType :=
  not_contract (by decide)

/-- 100 bytes of payload and no metadata. -/
def payloadPacket : Packet := ⟨none, ⟨9, []⟩, ⟨[], 100, []⟩⟩

/-- The packet has 32 bytes and is written into 24. -/
theorem payloadPacket_overruns : ¬ payloadPacket.Contract oneType := by
  intro hcontract
  have hrefused := (hcontract.1 24).2 (by decide)
  exact absurd hrefused (by decide)

end Packet

end Ns3Rdma.Serial
