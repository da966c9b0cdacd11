import Ns3Rdma.Lib.Word
import Ns3Rdma.Packetbb.Format

/-!
# What is read back of an RFC 5444 packet

Everything that was written is read again, except the multivalue flag of a TLV.
-/

namespace Ns3Rdma

open Codec Writer

variable {β : Type} {blocks : AddressBlocks β}

/-! ## Fields -/

theorem readNtohU16_htonU16 (v : UInt16) (rest : List UInt8) :
    Reader.readNtohU16 (htonU16 v ++ rest) = some (v, rest) := by
  have hv : (v >>> 8).toUInt8.toUInt16 <<< 8 ||| v.toUInt8.toUInt16 = v := by
    have hlt := v.toNat_lt
    have hshift : UInt16.toNat 8 % 16 = 8 := rfl
    apply UInt16.toNat_inj.mp
    rw [UInt16.toNat_or, UInt16.toNat_shiftLeft, UInt8.toNat_toUInt16, UInt8.toNat_toUInt16,
      UInt16.toNat_toUInt8, UInt16.toNat_toUInt8, UInt16.toNat_shiftRight, hshift,
      Nat.shiftRight_eq_div_pow, Nat.mod_eq_of_lt (a := v.toNat / 2 ^ 8) (by omega),
      Word.shiftLeft_mod_or (by omega) (Nat.mod_lt _ (by decide)), Nat.div_add_mod']
  exact congrArg (fun v => some (v, rest)) hv

theorem read_append (bytes rest : List UInt8) :
    Reader.read bytes.length (bytes ++ rest) = some (bytes, rest) := by
  unfold Reader.read
  rw [if_pos (by rw [List.length_append]; omega), List.take_left, List.drop_left]

/-- A field is read if its flag says whether it is there. -/
theorem readIf_getD {α : Type} {flag : Bool} {decode : List UInt8 → Option (α × List UInt8)}
    {encode : α → List UInt8} {field : Option α} {rest : List UInt8} (hflag : flag = field.isSome)
    (hdecode : ∀ v ∈ field, decode (encode v ++ rest) = some (v, rest)) :
    Reader.readIf flag decode ((field.map encode).getD [] ++ rest) = some (field, rest) := by
  subst hflag
  cases field with
  | none => rfl
  | some v =>
      rw [Option.map_some, Option.getD_some, Reader.readIf, Option.isSome_some, if_pos rfl,
        hdecode v rfl, Option.map_some]

theorem readIf_toList {flag : Bool} {field : Option UInt8} {rest : List UInt8}
    (hflag : flag = field.isSome) :
    Reader.readIf flag Reader.readU8 (field.toList ++ rest) = some (field, rest) := by
  subst hflag
  cases field <;> rfl

/-! ## TLVs -/

namespace PbbTlv

/-- What `Deserialize` makes of a TLV that was written. -/
def readBack (t : PbbTlv) : PbbTlv := { t with isMultivalue := false }

/-- The flags, of which fields there are. -/
def flagsOf (typeExt indexStart indexStop value extLen isMultivalue : Bool) : UInt8 :=
  (if typeExt then THAS_TYPE_EXT else 0) |||
    (if indexStart then if indexStop then THAS_MULTI_INDEX else THAS_SINGLE_INDEX else 0) |||
      (if value then THAS_VALUE ||| (if extLen then THAS_EXT_LEN else 0) |||
          (if isMultivalue then TIS_MULTIVALUE else 0)
        else 0)

theorem hasFlag_flagsOf :
    ∀ typeExt indexStart indexStop value extLen isMultivalue : Bool,
      (indexStop → indexStart) →
        let flags := flagsOf typeExt indexStart indexStop value extLen isMultivalue
        hasFlag flags THAS_TYPE_EXT = typeExt ∧
          (hasFlag flags THAS_MULTI_INDEX || hasFlag flags THAS_SINGLE_INDEX) = indexStart ∧
          hasFlag flags THAS_MULTI_INDEX = indexStop ∧ hasFlag flags THAS_VALUE = value ∧
          (value → hasFlag flags THAS_EXT_LEN = extLen) := by
  decide

theorem flags_eq (t : PbbTlv) :
    t.flags = flagsOf t.typeExt.isSome t.indexStart.isSome t.indexStop.isSome t.value.isSome
      (255 < byteCount (t.value.getD [])) t.isMultivalue := by
  unfold flags flagsOf
  cases t.value with
  | none => cases t.indexStart <;> cases t.indexStop <;> rfl
  | some value =>
      simp only [Option.getD_some, decide_eq_true_eq]
      cases t.indexStart <;> cases t.indexStop <;> rfl

theorem readLength_append {value : List UInt8} (hvalue : value.length < 2 ^ 16)
    (rest : List UInt8) :
    ((readLength (decide (255 < byteCount value)) (lengthAndValue value ++ rest)).bind fun r =>
      Reader.read r.1.toNat r.2) = some (value, rest) := by
  unfold readLength lengthAndValue
  have hcount : (byteCount value).toNat = value.length := by
    unfold byteCount
    exact UInt32.toNat_ofNat_of_lt' (Nat.lt_trans hvalue (by decide))
  by_cases hlong : 255 < byteCount value
  · have hlength : (byteCount value).toUInt16.toNat = value.length := by
      rw [UInt32.toNat_toUInt16, hcount, Nat.mod_eq_of_lt hvalue]
    rw [if_pos hlong, if_pos (decide_eq_true hlong), List.append_assoc, readNtohU16_htonU16,
      Option.bind_some, hlength, read_append]
  · have hlength : (byteCount value).toUInt8.toUInt16.toNat = value.length := by
      have hshort : (byteCount value).toNat ≤ 255 :=
        UInt32.le_iff_toNat_le.mp (UInt32.not_lt.mp hlong)
      rw [UInt8.toNat_toUInt16, UInt32.toNat_toUInt8, hcount, Nat.mod_eq_of_lt (by omega)]
    rw [if_neg hlong, if_neg (by simpa using hlong), List.append_assoc, List.singleton_append,
      Reader.readU8, Option.map_some, Option.bind_some, hlength, read_append]

theorem deserialize_bytes {t : PbbTlv} (ht : t.Valid) (rest : List UInt8) :
    deserialize (t.bytes ++ rest) = some (t.readBack, rest) := by
  obtain ⟨htypeExt, hindexStart, hindexStop, hvalue, hextLen⟩ :=
    hasFlag_flagsOf t.typeExt.isSome t.indexStart.isSome t.indexStop.isSome t.value.isSome
      (255 < byteCount (t.value.getD [])) t.isMultivalue ht.indexStop
  rw [← flags_eq] at htypeExt hindexStart hindexStop hvalue hextLen
  have hindices : (t.indexStart.map fun index => index :: t.indexStop.toList).getD [] =
      t.indexStart.toList ++ t.indexStop.toList := by
    have hstop := ht.indexStop
    cases hstart : t.indexStart with
    | some index => rfl
    | none =>
        rw [hstart] at hstop
        have hnone : t.indexStop = none :=
          Option.not_isSome_iff_eq_none.mp fun h => Bool.false_ne_true (hstop h)
        rw [hnone]
        rfl
  have hread : ∀ (v : UInt8) (l : List UInt8), Reader.readU8 (v :: l) = some (v, l) :=
    fun _ _ => rfl
  unfold deserialize bytes
  rw [hindices]
  simp only [List.append_assoc, List.cons_append, List.nil_append, hread, Option.bind_eq_bind,
    Option.bind_some]
  rw [readIf_toList htypeExt, Option.bind_some, readIf_toList hindexStart, Option.bind_some,
    readIf_toList hindexStop, Option.bind_some, readIf_getD hvalue, Option.bind_some]
  · rfl
  · intro value hmem
    have hsome : t.value = some value := hmem
    rw [hextLen (by rw [hsome]; rfl), hsome, Option.getD_some]
    exact readLength_append (ht.value_lt value hmem) rest

theorem bytes_ne_nil (t : PbbTlv) : t.bytes ≠ [] := List.cons_ne_nil _ _

end PbbTlv

/-! ## TLV blocks -/

namespace PbbTlvBlock

/-- The length of the TLVs has 16 bits. -/
structure Valid (tlvs : List PbbTlv) : Prop where
  tlv : ∀ t ∈ tlvs, t.Valid
  body_lt : (body tlvs).length < 2 ^ 16

theorem deserialize_bytes {tlvs : List PbbTlv} (h : Valid tlvs) (rest : List UInt8) :
    deserialize (bytes tlvs ++ rest) = some (tlvs.map PbbTlv.readBack, rest) := by
  have hsize : (UInt16.ofNat (body tlvs).length).toNat = (body tlvs).length :=
    UInt16.toNat_ofNat_of_lt' h.body_lt
  unfold deserialize bytes
  rw [List.append_assoc, readNtohU16_htonU16, Option.bind_some]
  dsimp only
  rw [hsize]
  cases tlvs with
  | nil => rfl
  | cons t others =>
      have hpos : 0 < (body (t :: others)).length := by
        have ht := List.length_pos_of_ne_nil t.bytes_ne_nil
        unfold body
        rw [List.flatMap_cons, List.length_append]
        omega
      rw [if_pos (by rw [UInt16.lt_iff_toNat_lt, hsize]; exact hpos)]
      have hstart : ∀ l : List UInt8, l.length = 0 + l.length := fun l => (Nat.zero_add _).symm
      exact decodeWhile_size (hstart _) (hstart _) (fun t _ => t.bytes_ne_nil)
        (fun t ht => PbbTlv.deserialize_bytes (h.tlv t ht)) (Nat.lt_succ_self _)

theorem bytes_length (tlvs : List PbbTlv) : (bytes tlvs).length = 2 + (body tlvs).length :=
  List.length_append

end PbbTlvBlock

/-! ## Messages -/

/-- An address block of a message that is read as it was written. -/
structure AddressBlocks.RoundTrips (blocks : AddressBlocks β) (addressLength : PbbAddressLength)
    (b : β) : Prop where
  getSerializedSize : blocks.getSerializedSize b = byteCount (blocks.serialize b)
  nonempty : blocks.serialize b ≠ []
  deserialize : ∀ rest,
    blocks.deserialize addressLength (blocks.serialize b ++ rest) = some (b, rest)

namespace PbbMessage

/-- What the fields of a message have to be to fit into theirs. -/
structure Valid (blocks : AddressBlocks β) (m : PbbMessage β) : Prop where
  originator : ∀ address ∈ m.originatorAddress, address.length = m.addressLength.toUInt8.toNat + 1
  tlvList : PbbTlvBlock.Valid m.tlvList
  block : ∀ b ∈ m.addressBlockList, blocks.RoundTrips m.addressLength b
  size_lt : (m.bytes blocks).length < 2 ^ 16

/-- What `Deserialize` makes of a message that was written. -/
def readBack (m : PbbMessage β) : PbbMessage β :=
  { m with tlvList := m.tlvList.map PbbTlv.readBack }

/-- The flags, of which fields there are. -/
def flagsOf (addressLength : PbbAddressLength)
    (originator hopLimit hopCount sequenceNumber : Bool) : UInt8 :=
  addressLength.toUInt8 ||| (if originator then MHAS_ORIG else 0) |||
    (if hopLimit then MHAS_HOP_LIMIT else 0) ||| (if hopCount then MHAS_HOP_COUNT else 0) |||
      (if sequenceNumber then MHAS_SEQ_NUM else 0)

theorem hasFlag_flagsOf (addressLength : PbbAddressLength) :
    ∀ originator hopLimit hopCount sequenceNumber : Bool,
      let flags := flagsOf addressLength originator hopLimit hopCount sequenceNumber
      hasFlag flags MHAS_ORIG = originator ∧ hasFlag flags MHAS_HOP_LIMIT = hopLimit ∧
        hasFlag flags MHAS_HOP_COUNT = hopCount ∧
          hasFlag flags MHAS_SEQ_NUM = sequenceNumber ∧ kindOf flags = some addressLength := by
  cases addressLength <;> decide

theorem flags_eq (m : PbbMessage β) : m.flags = flagsOf m.addressLength m.originatorAddress.isSome
    m.hopLimit.isSome m.hopCount.isSome m.sequenceNumber.isSome := rfl

theorem bytes_length (m : PbbMessage β) :
    (m.bytes blocks).length = 4 + (m.body blocks).length := by
  unfold bytes
  rw [List.length_append, List.length_append, List.length_append, List.length_singleton,
    List.length_singleton, show (htonU16 _).length = 2 from rfl]
  omega

/-- The address blocks are read until the message has its size. -/
theorem addressBlocks_bytes {m : PbbMessage β} (hm : m.Valid blocks) (rest : List UInt8)
    {fuel : ℕ} (hfuel : (m.addressBlockList.flatMap blocks.serialize ++ rest).length < fuel) :
    decodeWhile
        (fun start => (m.bytes blocks ++ rest).length - start.length <
          4 + (m.body blocks).length)
        (blocks.deserialize m.addressLength) fuel
        (m.addressBlockList.flatMap blocks.serialize ++ rest) =
      some (m.addressBlockList, rest) := by
  have hbody : (m.addressBlockList.flatMap blocks.serialize).length ≤ (m.body blocks).length := by
    unfold body
    simp only [List.length_append]
    omega
  -- the loop counts from the start of the message
  obtain ⟨offset, hoffset⟩ : ∃ offset, 4 + (m.body blocks).length =
      offset + (m.addressBlockList.flatMap blocks.serialize).length :=
    ⟨_, (Nat.sub_add_cancel (Nat.le_add_left_of_le hbody)).symm⟩
  have hend : (m.bytes blocks ++ rest).length =
      offset + (m.addressBlockList.flatMap blocks.serialize ++ rest).length := by
    rw [List.length_append, bytes_length, hoffset, List.length_append, Nat.add_assoc]
  have hdecode : ∀ b ∈ m.addressBlockList, ∀ l,
      blocks.deserialize m.addressLength (blocks.serialize b ++ l) = some (id b, l) :=
    fun b hb => (hm.block b hb).deserialize
  have h := decodeWhile_size hend hoffset (fun b hb => (hm.block b hb).nonempty) hdecode hfuel
  rwa [List.map_id] at h

theorem deserialize_bytes {m : PbbMessage β} (hm : m.Valid blocks) (rest : List UInt8) :
    deserialize blocks m.addressLength (m.bytes blocks ++ rest) = some (m.readBack, rest) := by
  obtain ⟨horiginator, hhopLimit, hhopCount, hsequenceNumber, -⟩ :=
    hasFlag_flagsOf m.addressLength m.originatorAddress.isSome m.hopLimit.isSome
      m.hopCount.isSome m.sequenceNumber.isSome
  rw [← flags_eq] at horiginator hhopLimit hhopCount hsequenceNumber
  have hsize : (UInt16.ofNat (4 + (m.body blocks).length)).toNat = 4 + (m.body blocks).length :=
    UInt16.toNat_ofNat_of_lt' (by rw [← bytes_length]; exact hm.size_lt)
  have hread : ∀ (v : UInt8) (l : List UInt8), Reader.readU8 (v :: l) = some (v, l) :=
    fun _ _ => rfl
  -- the loop for the address blocks measures from `front`, so it keeps a name
  obtain ⟨front, hfront⟩ : ∃ front, m.bytes blocks ++ rest = front := ⟨_, rfl⟩
  have hstart : front = m.type :: m.flags ::
      (htonU16 (UInt16.ofNat (4 + (m.body blocks).length)) ++ (m.body blocks ++ rest)) := by
    rw [← hfront]
    unfold bytes
    simp only [List.append_assoc, List.cons_append, List.nil_append]
  have hloop := addressBlocks_bytes hm rest (Nat.lt_succ_self _)
  rw [hfront] at hloop
  rw [hfront]
  unfold deserialize
  have htype : Reader.readU8 front = some (m.type, m.flags ::
      (htonU16 (UInt16.ofNat (4 + (m.body blocks).length)) ++ (m.body blocks ++ rest))) := by
    rw [hstart, hread]
  simp only [htype, hread, Option.bind_eq_bind, Option.bind_some]
  rw [readNtohU16_htonU16, Option.bind_some]
  dsimp only
  have hpos : 0 < UInt16.ofNat (4 + (m.body blocks).length) := by
    rw [UInt16.lt_iff_toNat_lt, hsize]
    exact Nat.add_pos_left (by decide) _
  have hfields : m.body blocks ++ rest = (m.originatorAddress.map id).getD [] ++
      (m.hopLimit.toList ++ (m.hopCount.toList ++ ((m.sequenceNumber.map htonU16).getD [] ++
        (PbbTlvBlock.bytes m.tlvList ++
          (m.addressBlockList.flatMap blocks.serialize ++ rest))))) := by
    unfold body
    rw [Option.map_id, id]
    simp only [List.append_assoc]
  rw [hsize, hfields, readIf_getD horiginator, Option.bind_some, readIf_toList hhopLimit,
    Option.bind_some, readIf_toList hhopCount, Option.bind_some, readIf_getD hsequenceNumber,
    Option.bind_some]
  · dsimp only
    rw [PbbTlvBlock.deserialize_bytes hm.tlvList, Option.bind_some, if_pos hpos,
      hloop]
    rfl
  · exact fun v _ => readNtohU16_htonU16 v _
  · intro address haddress
    rw [← hm.originator address haddress]
    exact read_append _ _

theorem deserializeMessage_bytes {m : PbbMessage β} (hm : m.Valid blocks) (rest : List UInt8) :
    deserializeMessage blocks (m.bytes blocks ++ rest) = some (some (m.readBack, rest)) := by
  have hkind : kindOf m.flags = some m.addressLength :=
    (hasFlag_flagsOf m.addressLength m.originatorAddress.isSome m.hopLimit.isSome
      m.hopCount.isSome m.sequenceNumber.isSome).2.2.2.2
  have hm := deserialize_bytes hm rest
  unfold bytes at hm ⊢
  unfold deserializeMessage
  simp only [List.append_assoc, List.cons_append, List.nil_append] at hm ⊢
  rw [hkind]
  dsimp only
  rw [hm, Option.map_some]

theorem getSerializedSize_of_valid {m : PbbMessage β} (hm : m.Valid blocks) :
    m.getSerializedSize blocks = byteCount (m.bytes blocks) := by
  apply getSerializedSize_eq hm.tlvList.tlv
    (fun b hb => (hm.block b hb).getSerializedSize)
  intro address haddress
  unfold byteCount
  rw [hm.originator address haddress]
  cases m.addressLength <;> rfl

end PbbMessage

/-! ## Packets -/

namespace PbbPacket

structure Valid (blocks : AddressBlocks β) (p : PbbPacket β) : Prop where
  version : p.version = VERSION
  tlvList : PbbTlvBlock.Valid p.tlvList
  message : ∀ m ∈ p.messageList, m.Valid blocks

/-- What `Deserialize` makes of a packet that was written. -/
def readBack (p : PbbPacket β) : PbbPacket β :=
  { p with
    tlvList := p.tlvList.map PbbTlv.readBack
    messageList := p.messageList.map PbbMessage.readBack }

/-- The flags, of which fields there are. -/
def flagsOf (sequenceNumber tlv : Bool) : UInt8 :=
  VERSION <<< 4 ||| (if sequenceNumber then PHAS_SEQ_NUM else 0) ||| (if tlv then PHAS_TLV else 0)

theorem hasFlag_flagsOf :
    ∀ sequenceNumber tlv : Bool,
      let flags := flagsOf sequenceNumber tlv
      hasFlag flags PHAS_SEQ_NUM = sequenceNumber ∧ hasFlag flags PHAS_TLV = tlv ∧
        flags >>> 4 = VERSION := by
  decide

theorem messageLoop_bytes {messages : List (PbbMessage β)} (h : ∀ m ∈ messages, m.Valid blocks)
    {fuel : ℕ} (hfuel : messages.length < fuel) :
    messageLoop blocks fuel (messages.flatMap (PbbMessage.bytes blocks)) =
      some (messages.map PbbMessage.readBack, [], true) := by
  induction messages generalizing fuel with
  | nil =>
      obtain ⟨fuel, rfl⟩ := Nat.exists_eq_succ_of_ne_zero (Nat.ne_of_gt (Nat.zero_lt_of_lt hfuel))
      rfl
  | cons m rest ih =>
      obtain ⟨fuel, rfl⟩ := Nat.exists_eq_succ_of_ne_zero (Nat.ne_of_gt (Nat.zero_lt_of_lt hfuel))
      have hrest := ih (fun u hu => h u (List.mem_cons_of_mem m hu)) (Nat.lt_of_succ_lt_succ hfuel)
      rw [List.flatMap_cons, messageLoop, if_neg (by simp [PbbMessage.bytes]),
        PbbMessage.deserializeMessage_bytes (h m List.mem_cons_self), Option.bind_some]
      dsimp only
      rw [hrest]
      rfl

theorem deserialize_bytes {p : PbbPacket β} (hp : p.Valid blocks) :
    deserialize blocks (p.bytes blocks) = some (p.readBack, (p.bytes blocks).length) := by
  obtain ⟨hsequenceNumber, htlv, hversion⟩ :=
    hasFlag_flagsOf p.sequenceNumber.isSome !p.tlvList.isEmpty
  have hflags : p.flags = flagsOf p.sequenceNumber.isSome !p.tlvList.isEmpty := by
    unfold flags flagsOf
    cases p.tlvList <;> rfl
  rw [← hflags] at hsequenceNumber htlv hversion
  have hblock : ∀ rest, (Reader.readIf (!p.tlvList.isEmpty) PbbTlvBlock.deserialize
      ((if p.tlvList.isEmpty then [] else PbbTlvBlock.bytes p.tlvList) ++ rest)) =
      some (if p.tlvList.isEmpty then none else some (p.tlvList.map PbbTlv.readBack), rest) := by
    intro rest
    unfold Reader.readIf
    -- an empty list is not written, and its flag says so
    cases hempty : p.tlvList.isEmpty with
    | true => rfl
    | false =>
        rw [Bool.not_false, if_pos rfl, if_neg Bool.false_ne_true, if_neg Bool.false_ne_true,
          PbbTlvBlock.deserialize_bytes hp.tlvList, Option.map_some]
  have hlist : (if p.tlvList.isEmpty then none else some (p.tlvList.map PbbTlv.readBack)).getD [] =
      p.tlvList.map PbbTlv.readBack := by
    cases p.tlvList <;> rfl
  have hread : Reader.readU8 (p.bytes blocks) = some (p.flags,
      (p.sequenceNumber.map htonU16).getD [] ++
        ((if p.tlvList.isEmpty then [] else PbbTlvBlock.bytes p.tlvList) ++
          p.messageList.flatMap (PbbMessage.bytes blocks))) := rfl
  have hmessages : p.messageList.length <
      (p.messageList.flatMap (PbbMessage.bytes blocks)).length + 1 :=
    Nat.lt_succ_of_le (length_le_flatMap fun m _ => List.cons_ne_nil _ _)
  unfold deserialize
  simp only [hread, Option.bind_eq_bind, Option.bind_some]
  rw [readIf_getD hsequenceNumber fun v _ => readNtohU16_htonU16 v _, Option.bind_some]
  dsimp only
  rw [htlv, hblock, Option.bind_some]
  dsimp only
  rw [messageLoop_bytes hp.message hmessages, Option.bind_some, hlist, hversion, ← hp.version]
  rfl

/-! ## Which packets are read as they were written -/

/-- `Serialize` writes as many bytes as `GetSerializedSize` says, and `Deserialize` makes the same
packet of them. -/
def RoundTrip (blocks : AddressBlocks β) (p : PbbPacket β) : Prop :=
  ∀ start : Writer, ∃ bytes, p.serialize blocks start = start.write bytes ∧
    bytes.length = (p.getSerializedSize blocks).toNat ∧
      deserialize blocks bytes = some (p, bytes.length)

/-- The TLVs of a packet and of its messages. -/
def tlvs (p : PbbPacket β) : List PbbTlv := p.tlvList ++ p.messageList.flatMap PbbMessage.tlvList

theorem map_readBack_eq_iff (tlvs : List PbbTlv) :
    tlvs.map PbbTlv.readBack = tlvs ↔ ∀ t ∈ tlvs, t.isMultivalue = false := by
  have ht : ∀ t : PbbTlv, t.readBack = id t ↔ t.isMultivalue = false := by
    intro t
    constructor
    · intro h
      exact (congrArg PbbTlv.isMultivalue h).symm
    · intro h
      unfold PbbTlv.readBack
      rw [← h]
      rfl
  have hmap := List.map_inj_left (l := tlvs) (f := PbbTlv.readBack) (g := id)
  rw [List.map_id] at hmap
  rw [hmap]
  exact forall₂_congr fun t _ => ht t

theorem readBack_eq_iff (p : PbbPacket β) :
    p.readBack = p ↔ ∀ t ∈ p.tlvs, t.isMultivalue = false := by
  have hm : ∀ m : PbbMessage β,
      m.readBack = id m ↔ m.tlvList.map PbbTlv.readBack = m.tlvList := by
    intro m
    constructor
    · intro h
      exact congrArg PbbMessage.tlvList h
    · intro h
      unfold PbbMessage.readBack
      rw [h]
      rfl
  have hmessages := List.map_inj_left (l := p.messageList) (f := PbbMessage.readBack) (g := id)
  rw [List.map_id] at hmessages
  have hparts : p.readBack = p ↔ p.tlvList.map PbbTlv.readBack = p.tlvList ∧
      p.messageList.map PbbMessage.readBack = p.messageList := by
    constructor
    · intro h
      exact ⟨congrArg PbbPacket.tlvList h, congrArg PbbPacket.messageList h⟩
    · rintro ⟨htlv, hmessage⟩
      unfold readBack
      rw [htlv, hmessage]
  rw [hparts, hmessages, map_readBack_eq_iff]
  unfold tlvs
  constructor
  · rintro ⟨htlv, hmessage⟩ t ht
    rcases List.mem_append.mp ht with hpacket | hinner
    · exact htlv t hpacket
    · obtain ⟨m, hmem, htm⟩ := List.mem_flatMap.mp hinner
      exact (map_readBack_eq_iff _).mp ((hm m).mp (hmessage m hmem)) t htm
  · intro h
    refine ⟨fun t ht => h t (List.mem_append_left _ ht), fun m hmem => (hm m).mpr ?_⟩
    exact (map_readBack_eq_iff _).mpr fun t ht =>
      h t (List.mem_append_right _ (List.mem_flatMap.mpr ⟨m, hmem, ht⟩))

/-- What a round trip would have to give back. -/
theorem RoundTrip.readBack_eq {p : PbbPacket β} (hp : p.Valid blocks) (h : p.RoundTrip blocks) :
    p.readBack = p ∧ (p.bytes blocks).length = (p.getSerializedSize blocks).toNat := by
  obtain ⟨bytes, hwrite, hsize, hread⟩ := h ⟨fun _ => 0, 0⟩
  rw [serialize_eq] at hwrite
  obtain rfl := Cursor.write_injective _ _ _ hwrite
  rw [deserialize_bytes hp] at hread
  exact ⟨congrArg Prod.fst (Option.some_inj.mp hread), hsize⟩

/-- The code keeps the packet unless a TLV of it is multivalue, and counts its bytes if they are
fewer than a `uint32_t` holds. -/
theorem roundTrip_iff {p : PbbPacket β} (hp : p.Valid blocks) :
    p.RoundTrip blocks ↔
      (∀ t ∈ p.tlvs, t.isMultivalue = false) ∧ (p.bytes blocks).length < 2 ^ 32 := by
  have hsize : p.getSerializedSize blocks = byteCount (p.bytes blocks) :=
    getSerializedSize_eq hp.tlvList.tlv fun m hm =>
      PbbMessage.getSerializedSize_of_valid (hp.message m hm)
  constructor
  · intro h
    obtain ⟨hread, hlength⟩ := h.readBack_eq hp
    refine ⟨(readBack_eq_iff p).mp hread, ?_⟩
    rw [hlength]
    exact UInt32.toNat_lt _
  · rintro ⟨htlvs, hlt⟩ start
    refine ⟨p.bytes blocks, p.serialize_eq start, ?_, ?_⟩
    · rw [hsize]
      exact (UInt32.toNat_ofNat_of_lt' hlt).symm
    · rw [deserialize_bytes hp, (readBack_eq_iff p).mpr htlvs]

end PbbPacket

/-! ## A packet with everything -/

/-- IPv4 address blocks of one address, without a prefix and without TLVs. -/
def oneAddress : AddressBlocks (List UInt8) where
  getSerializedSize address := 4 + byteCount address
  serialize address := [1, 0] ++ (address ++ [0, 0])
  deserialize addressLength
    | 1 :: 0 :: bytes =>
        match Reader.read (addressLength.toUInt8.toNat + 1) bytes with
        | some (address, 0 :: 0 :: rest) => some (address, rest)
        | _ => none
    | _ => none

theorem oneAddress_roundTrips {address : List UInt8} (h : address.length = 4) :
    oneAddress.RoundTrips .IPV4 address where
  getSerializedSize := by
    show 4 + byteCount address = byteCount ([1, 0] ++ (address ++ [0, 0]))
    rw [byteCount_append, byteCount_append, UInt32.add_comm (byteCount address), ← UInt32.add_assoc]
    rfl
  nonempty := List.cons_ne_nil _ _
  deserialize := by
    intro rest
    have hread : Reader.read (PbbAddressLength.IPV4.toUInt8.toNat + 1)
        (address ++ (0 :: 0 :: rest)) = some (address, 0 :: 0 :: rest) := by
      rw [show PbbAddressLength.IPV4.toUInt8.toNat + 1 = address.length from h.symm, read_append]
    show oneAddress.deserialize .IPV4 (1 :: 0 :: (address ++ [0, 0] ++ rest)) = _
    rw [List.append_assoc]
    simp only [oneAddress, List.cons_append, List.nil_append, hread]

/-- A TLV with an index range and a value. -/
def indexedTlv (isMultivalue : Bool) : PbbTlv :=
  { type := 2, typeExt := some 1, indexStart := some 0, indexStop := some 1,
    isMultivalue := isMultivalue, value := some [7, 8] }

def messagePacket (isMultivalue : Bool) : PbbPacket (List UInt8) :=
  { version := PbbPacket.VERSION
    sequenceNumber := some 300
    tlvList := [indexedTlv false]
    messageList :=
      [{ addressLength := .IPV4, type := 1, originatorAddress := some [10, 0, 0, 1],
         hopLimit := some 3, hopCount := none, sequenceNumber := some 515,
         tlvList := [indexedTlv isMultivalue], addressBlockList := [[10, 0, 0, 2]] }] }

theorem messagePacket_valid (isMultivalue : Bool) :
    (messagePacket isMultivalue).Valid oneAddress := by
  have hindexed : ∀ isMultivalue, (indexedTlv isMultivalue).Valid := by
    intro isMultivalue
    exact ⟨fun _ => rfl, fun value hvalue => by cases hvalue; decide⟩
  have hblock : ∀ isMultivalue, PbbTlvBlock.Valid [indexedTlv isMultivalue] := by
    intro isMultivalue
    refine ⟨fun t ht => ?_, by cases isMultivalue <;> decide⟩
    rw [List.mem_singleton.mp ht]
    exact hindexed isMultivalue
  refine ⟨rfl, hblock false, fun m hm => ?_⟩
  rw [List.mem_singleton.mp hm]
  refine ⟨fun address haddress => by cases haddress; rfl, hblock isMultivalue, fun b hb => ?_,
    by cases isMultivalue <;> decide⟩
  rw [List.mem_singleton.mp hb]
  exact oneAddress_roundTrips rfl

namespace PbbPacket

theorem roundTrip_iff_messagePacket : (messagePacket false).RoundTrip oneAddress :=
  (roundTrip_iff (messagePacket_valid false)).mpr ⟨by decide, by decide⟩

/-- The multivalue flag of a TLV is written and not read. -/
theorem multivalue_lost :
    (messagePacket true).Valid oneAddress ∧ ¬ (messagePacket true).RoundTrip oneAddress := by
  refine ⟨messagePacket_valid true, fun h => ?_⟩
  have hread := (readBack_eq_iff _).mp (h.readBack_eq (messagePacket_valid true)).1
  exact absurd (hread (indexedTlv true) (by decide)) (by decide)

end PbbPacket

end Ns3Rdma
