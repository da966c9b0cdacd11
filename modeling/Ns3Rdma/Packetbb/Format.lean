import Ns3Rdma.Packetbb.PacketBb

/-!
# The bytes of RFC 5444 packets

What the writers leave in the buffer, as a list of bytes for each level, and its length.
-/

namespace Ns3Rdma

open Codec Writer

variable {β : Type} {blocks : AddressBlocks β}

theorem byteCount_append (first second : List UInt8) :
    byteCount (first ++ second) = byteCount first + byteCount second := by
  unfold byteCount
  rw [List.length_append, UInt32.ofNat_add]

/-- A size that is counted item by item. -/
theorem foldl_size {γ : Type} {size : γ → UInt32} {encode : γ → List UInt8} {items : List γ}
    (hsize : ∀ x ∈ items, size x = byteCount (encode x)) (start : UInt32) :
    items.foldl (fun sum x => sum + size x) start = start + byteCount (items.flatMap encode) := by
  induction items generalizing start with
  | nil => exact (UInt32.add_zero start).symm
  | cons x rest ih =>
      rw [List.foldl_cons, ih fun y hy => hsize y (List.mem_cons_of_mem x hy),
        hsize x List.mem_cons_self, List.flatMap_cons, byteCount_append, UInt32.add_assoc]

namespace PbbTlv

/-- An index stop comes with an index start, and the length of a value has 16 bits. -/
structure Valid (t : PbbTlv) : Prop where
  indexStop : t.indexStop.isSome → t.indexStart.isSome
  value_lt : ∀ value ∈ t.value, value.length < 2 ^ 16

/-- A value behind its length. -/
def lengthAndValue (value : List UInt8) : List UInt8 :=
  (if 255 < byteCount value then htonU16 (byteCount value).toUInt16
    else [(byteCount value).toUInt8]) ++ value

def bytes (t : PbbTlv) : List UInt8 :=
  [t.type] ++ ([t.flags] ++ (t.typeExt.toList ++ ((t.indexStart.map fun index =>
    index :: t.indexStop.toList).getD [] ++ (t.value.map lengthAndValue).getD [])))

theorem writeIndices_eq (t : PbbTlv) (c : Writer) :
    t.writeIndices c = c.write ((t.indexStart.map fun index =>
      index :: t.indexStop.toList).getD []) := by
  unfold writeIndices
  cases t.indexStart with
  | none => exact c.write_nil.symm
  | some index => exact c.write_write _ _

theorem writeValue_eq (t : PbbTlv) (c : Writer) :
    t.writeValue c = c.write ((t.value.map lengthAndValue).getD []) := by
  unfold writeValue
  cases t.value with
  | none => exact c.write_nil.symm
  | some value =>
      dsimp only
      rw [Option.map_some, Option.getD_some, lengthAndValue]
      split
      next => exact c.write_write _ _
      next => exact c.write_write _ _

theorem serialize_eq (t : PbbTlv) (c : Writer) : t.serialize c = c.write t.bytes := by
  unfold serialize
  dsimp only
  rw [writeValue_eq, writeIndices_eq]
  unfold writeU8
  rw [Cursor.write_write, Cursor.write_write, Cursor.patch_next (n := 1) _ _ _ rfl,
    Cursor.write_write]
  rfl

theorem getSerializedSize_eq {t : PbbTlv} (ht : t.Valid) :
    t.getSerializedSize = byteCount t.bytes := by
  obtain ⟨type, typeExt, indexStart, indexStop, isMultivalue, value⟩ := t
  have hstop := ht.indexStop
  have hlength : ∀ value, byteCount (lengthAndValue value) =
      (if 255 < byteCount value then 2 else 1) + byteCount value := by
    intro value
    unfold lengthAndValue
    rw [byteCount_append]
    split <;> rfl
  have hone : ∀ (v : UInt8) (l : List UInt8), byteCount (v :: l) = 1 + byteCount l :=
    fun v l => byteCount_append [v] l
  have hnil : byteCount [] = 0 := rfl
  unfold getSerializedSize bytes
  rw [byteCount_append, byteCount_append, byteCount_append, byteCount_append, hone, hone, hnil]
  cases value <;> cases typeExt <;> cases indexStart <;> cases indexStop <;>
    simp_all <;> grind

end PbbTlv

namespace PbbTlvBlock

def body (tlvs : List PbbTlv) : List UInt8 := tlvs.flatMap PbbTlv.bytes

def bytes (tlvs : List PbbTlv) : List UInt8 :=
  htonU16 (UInt16.ofNat (body tlvs).length) ++ body tlvs

theorem serialize_eq (tlvs : List PbbTlv) (c : Writer) :
    serialize tlvs c = c.write (bytes tlvs) := by
  unfold serialize
  cases tlvs with
  | nil => rfl
  | cons t rest =>
      rw [if_neg (by simp)]
      dsimp only
      rw [Cursor.foldl_write (fun t _ c => t.serialize_eq c)]
      have hdistance : distanceFrom ((c.next 2).write ((t :: rest).flatMap PbbTlv.bytes))
          c.current - 2 = (body (t :: rest)).length := by
        unfold distanceFrom body
        rw [Cursor.write_current, Cursor.next_current]
        omega
      rw [hdistance, Cursor.patch_next (n := 2) _ _ _ rfl]
      rfl

theorem getSerializedSize_eq {tlvs : List PbbTlv} (htlvs : ∀ t ∈ tlvs, t.Valid) :
    getSerializedSize tlvs = byteCount (bytes tlvs) := by
  unfold getSerializedSize bytes
  rw [foldl_size fun t ht => PbbTlv.getSerializedSize_eq (htlvs t ht), byteCount_append]
  rfl

end PbbTlvBlock

namespace PbbMessage

variable (blocks) in
/-- What follows the size of a message. -/
def body (m : PbbMessage β) : List UInt8 :=
  m.originatorAddress.getD [] ++ (m.hopLimit.toList ++ (m.hopCount.toList ++
    ((m.sequenceNumber.map htonU16).getD [] ++ (PbbTlvBlock.bytes m.tlvList ++
      m.addressBlockList.flatMap blocks.serialize))))

variable (blocks) in
def bytes (m : PbbMessage β) : List UInt8 :=
  [m.type] ++ ([m.flags] ++ (htonU16 (UInt16.ofNat (4 + (m.body blocks).length)) ++ m.body blocks))

theorem serialize_eq (m : PbbMessage β) (c : Writer) :
    m.serialize blocks c = c.write (m.bytes blocks) := by
  unfold serialize
  dsimp only
  rw [Cursor.foldl_write (fun b _ c => rfl), PbbTlvBlock.serialize_eq]
  simp only [Cursor.write_write]
  have hflags : (c.writeU8 m.type).current + [m.flags].length ≤
      (((c.writeU8 m.type).next 1).next 2).current := by
    rw [Cursor.next_current, Cursor.next_current, List.length_singleton]
    omega
  have hbody : m.originatorAddress.getD [] ++ m.hopLimit.toList ++ m.hopCount.toList ++
      (m.sequenceNumber.map htonU16).getD [] ++
        (PbbTlvBlock.bytes m.tlvList ++ m.addressBlockList.flatMap blocks.serialize) =
      m.body blocks := by
    unfold body
    simp only [List.append_assoc]
  have hdistance : distanceFrom ((((((c.writeU8 m.type).next 1).next 2).write
      (m.body blocks)).patch (c.writeU8 m.type).current [m.flags])) c.current =
      4 + (m.body blocks).length := by
    unfold distanceFrom writeU8
    simp only [Cursor.patch_current, Cursor.write_current, Cursor.next_current,
      List.length_singleton]
    omega
  -- the size is filled in after the flags, but its gap lies behind theirs
  have hgaps : (c.writeU8 m.type).current + [m.flags].length ≤
      ((c.writeU8 m.type).next 1).current := Nat.le_refl _
  rw [Cursor.patch_write _ _ _ (by rw [Cursor.write_current]; exact Nat.le_add_right_of_le hflags),
    Cursor.write_write, hbody, hdistance, Cursor.patch_patch _ _ _ hgaps,
    Cursor.patch_next (n := 2) _ _ _ rfl, Cursor.patch_next (n := 1) _ _ _ rfl]
  exact c.write_write _ _

theorem getSerializedSize_eq {m : PbbMessage β} (htlvs : ∀ t ∈ m.tlvList, t.Valid)
    (hblocks : ∀ b ∈ m.addressBlockList,
      blocks.getSerializedSize b = byteCount (blocks.serialize b))
    (horiginator : ∀ address ∈ m.originatorAddress,
      byteCount address = m.addressLength.toUInt8.toUInt32 + 1) :
    m.getSerializedSize blocks = byteCount (m.bytes blocks) := by
  obtain ⟨addressLength, type, originatorAddress, hopLimit, hopCount, sequenceNumber, tlvList,
    addressBlockList⟩ := m
  have hone : ∀ (v : UInt8) (l : List UInt8), byteCount (v :: l) = 1 + byteCount l :=
    fun v l => byteCount_append [v] l
  have hnil : byteCount [] = 0 := rfl
  have htwo : ∀ v, byteCount (htonU16 v) = 2 := fun _ => rfl
  unfold getSerializedSize bytes body
  rw [foldl_size hblocks]
  dsimp only at htlvs horiginator ⊢
  rw [PbbTlvBlock.getSerializedSize_eq htlvs]
  simp only [byteCount_append, hone, hnil, htwo]
  cases originatorAddress <;> cases hopLimit <;> cases hopCount <;> cases sequenceNumber <;>
    simp_all <;> grind

end PbbMessage

namespace PbbPacket

variable (blocks) in
def bytes (p : PbbPacket β) : List UInt8 :=
  [p.flags] ++ ((p.sequenceNumber.map htonU16).getD [] ++
    ((if p.tlvList.isEmpty then [] else PbbTlvBlock.bytes p.tlvList) ++
      p.messageList.flatMap (PbbMessage.bytes blocks)))

theorem serialize_eq (p : PbbPacket β) (c : Writer) :
    p.serialize blocks c = c.write (p.bytes blocks) := by
  have htlvs : ∀ c : Writer, (if p.tlvList.isEmpty then c else PbbTlvBlock.serialize p.tlvList c) =
      c.write (if p.tlvList.isEmpty then [] else PbbTlvBlock.bytes p.tlvList) := by
    intro c
    split
    next => exact c.write_nil.symm
    next => exact PbbTlvBlock.serialize_eq _ c
  unfold serialize
  dsimp only
  rw [htlvs, Cursor.write_write, Cursor.patch_next (n := 1) _ _ _ rfl,
    Cursor.foldl_write fun m _ c => m.serialize_eq c, Cursor.write_write]
  unfold bytes
  rw [List.append_assoc, List.append_assoc]

theorem getSerializedSize_eq {p : PbbPacket β} (htlvs : ∀ t ∈ p.tlvList, t.Valid)
    (hmessages : ∀ m ∈ p.messageList, m.getSerializedSize blocks = byteCount (m.bytes blocks)) :
    p.getSerializedSize blocks = byteCount (p.bytes blocks) := by
  unfold getSerializedSize bytes
  rw [foldl_size hmessages, byteCount_append, byteCount_append, byteCount_append,
    PbbTlvBlock.getSerializedSize_eq htlvs, ← UInt32.add_assoc, ← UInt32.add_assoc]
  congr 2
  · congr 1
    cases p.sequenceNumber <;> rfl
  · split <;> rfl

end PbbPacket

end Ns3Rdma
