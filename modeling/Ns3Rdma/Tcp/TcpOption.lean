import Ns3Rdma.Packetbb.RoundTrip
import Ns3Rdma.Tcp.SequenceNumber

/-! # TCP options

Seven kinds of options have a class that writes and reads them. All other kinds are left unread. -/

namespace Ns3Rdma

/-! ## 32-bit values -/

namespace Writer

/-- The bytes of a 32-bit value, the high one first. -/
def htonU32 (v : UInt32) : List UInt8 :=
  [(v >>> 24).toUInt8, (v >>> 16).toUInt8, (v >>> 8).toUInt8, v.toUInt8]

end Writer

namespace Reader

def readNtohU32 : List UInt8 → Option (UInt32 × List UInt8)
  | b₀ :: b₁ :: b₂ :: b₃ :: rest =>
      some (((b₀.toUInt32 <<< 8 ||| b₁.toUInt32) <<< 8 ||| b₂.toUInt32) <<< 8 ||| b₃.toUInt32, rest)
  | _ => none

end Reader

open Writer Reader

/-- Shifting by a byte makes room for the next one. -/
theorem toNat_shiftLeft_or {v : UInt32} (hv : v.toNat < 2 ^ 24) (byte : UInt8) :
    (v <<< 8 ||| byte.toUInt32).toNat = v.toNat * 256 + byte.toNat := by
  have hshift : UInt32.toNat 8 % 32 = 8 := rfl
  have hbyte : byte.toNat < 2 ^ 8 := byte.toNat_lt
  rw [UInt32.toNat_or, UInt32.toNat_shiftLeft, UInt8.toNat_toUInt32, hshift,
    Word.shiftLeft_mod_or (by omega) hbyte]
  rfl

theorem toNat_fourBytes (b₀ b₁ b₂ b₃ : UInt8) :
    (((b₀.toUInt32 <<< 8 ||| b₁.toUInt32) <<< 8 ||| b₂.toUInt32) <<< 8 ||| b₃.toUInt32).toNat =
      ((b₀.toNat * 256 + b₁.toNat) * 256 + b₂.toNat) * 256 + b₃.toNat := by
  have h₀ := b₀.toNat_lt
  have h₁ := b₁.toNat_lt
  have h₂ := b₂.toNat_lt
  have hfirst : (b₀.toUInt32).toNat = b₀.toNat := UInt8.toNat_toUInt32 b₀
  have hsecond := toNat_shiftLeft_or (v := b₀.toUInt32) (by omega) b₁
  have hthird := toNat_shiftLeft_or (v := b₀.toUInt32 <<< 8 ||| b₁.toUInt32) (by omega) b₂
  rw [toNat_shiftLeft_or (by omega) b₃, hthird, hsecond, hfirst]

theorem toNat_byteOf (v : UInt32) (n : UInt32) (hn : n.toNat < 32) :
    ((v >>> n).toUInt8).toNat = v.toNat / 2 ^ n.toNat % 256 := by
  rw [UInt32.toNat_toUInt8, UInt32.toNat_shiftRight, Nat.mod_eq_of_lt hn,
    Nat.shiftRight_eq_div_pow]

theorem readNtohU32_htonU32 (v : UInt32) (rest : List UInt8) :
    readNtohU32 (htonU32 v ++ rest) = some (v, rest) := by
  have hv : (((((v >>> 24).toUInt8.toUInt32 <<< 8 ||| (v >>> 16).toUInt8.toUInt32) <<< 8 |||
      (v >>> 8).toUInt8.toUInt32) <<< 8) ||| v.toUInt8.toUInt32) = v := by
    apply UInt32.toNat_inj.mp
    have hlt := v.toNat_lt
    have h₀ := toNat_byteOf v 24 (by decide)
    have h₁ := toNat_byteOf v 16 (by decide)
    have h₂ := toNat_byteOf v 8 (by decide)
    have h₃ : v.toUInt8.toNat = v.toNat % 256 := UInt32.toNat_toUInt8 v
    simp only [UInt32.reduceToNat] at h₀ h₁ h₂
    rw [toNat_fourBytes, h₀, h₁, h₂, h₃]
    omega
  exact congrArg (fun v => some (v, rest)) hv

/-- What is read as a 32-bit value is what would be written of it. -/
theorem readNtohU32_eq_some {bytes rest : List UInt8} {v : UInt32}
    (h : readNtohU32 bytes = some (v, rest)) : bytes = htonU32 v ++ rest := by
  match bytes, h with
  | b₀ :: b₁ :: b₂ :: b₃ :: tail, h =>
      obtain ⟨rfl, rfl⟩ := Prod.mk.inj (Option.some.inj h)
      have hvalue := toNat_fourBytes b₀ b₁ b₂ b₃
      have h₀ : b₀.toNat < 256 := b₀.toNat_lt
      have h₁ : b₁.toNat < 256 := b₁.toNat_lt
      have h₂ : b₂.toNat < 256 := b₂.toNat_lt
      have h₃ : b₃.toNat < 256 := b₃.toNat_lt
      generalize (((b₀.toUInt32 <<< 8 ||| b₁.toUInt32) <<< 8 ||| b₂.toUInt32) <<< 8 |||
        b₃.toUInt32) = v at hvalue
      have hv₀ := toNat_byteOf v 24 (by decide)
      have hv₁ := toNat_byteOf v 16 (by decide)
      have hv₂ := toNat_byteOf v 8 (by decide)
      have hv₃ : v.toUInt8.toNat = v.toNat % 256 := UInt32.toNat_toUInt8 v
      simp only [UInt32.reduceToNat] at hv₀ hv₁ hv₂
      have e₀ : (v >>> 24).toUInt8 = b₀ := UInt8.toNat_inj.mp (by omega)
      have e₁ : (v >>> 16).toUInt8 = b₁ := UInt8.toNat_inj.mp (by omega)
      have e₂ : (v >>> 8).toUInt8 = b₂ := UInt8.toNat_inj.mp (by omega)
      have e₃ : v.toUInt8 = b₃ := UInt8.toNat_inj.mp (by omega)
      rw [htonU32, e₀, e₁, e₂, e₃]
      rfl

theorem toNat_twoBytes (high low : UInt8) :
    (high.toUInt16 <<< 8 ||| low.toUInt16).toNat = high.toNat * 256 + low.toNat := by
  have hhigh : high.toNat < 2 ^ 8 := high.toNat_lt
  have hlow : low.toNat < 2 ^ 8 := low.toNat_lt
  have hshift : UInt16.toNat 8 % 16 = 8 := rfl
  rw [UInt16.toNat_or, UInt16.toNat_shiftLeft, UInt8.toNat_toUInt16, UInt8.toNat_toUInt16, hshift,
    Word.shiftLeft_mod_or (by omega) hlow]
  rfl

/-- What is read as a 16-bit value is what would be written of it. -/
theorem readNtohU16_eq_some {bytes rest : List UInt8} {v : UInt16}
    (h : readNtohU16 bytes = some (v, rest)) : bytes = htonU16 v ++ rest := by
  match bytes, h with
  | high :: low :: tail, h =>
      obtain ⟨rfl, rfl⟩ := Prod.mk.inj (Option.some.inj h)
      have hhigh : high.toNat < 2 ^ 8 := high.toNat_lt
      have hlow : low.toNat < 2 ^ 8 := low.toNat_lt
      have hshift : UInt16.toNat 8 % 16 = 8 := rfl
      have hvalue := toNat_twoBytes high low
      generalize high.toUInt16 <<< 8 ||| low.toUInt16 = v at hvalue
      have htop : (v >>> 8).toUInt8 = high := by
        apply UInt8.toNat_inj.mp
        rw [UInt16.toNat_toUInt8, UInt16.toNat_shiftRight, hshift, Nat.shiftRight_eq_div_pow]
        omega
      have hend : v.toUInt8 = low := by
        apply UInt8.toNat_inj.mp
        rw [UInt16.toNat_toUInt8]
        omega
      rw [htonU16, htop, hend]
      rfl

theorem readU8_eq_some {bytes rest : List UInt8} {v : UInt8}
    (h : readU8 bytes = some (v, rest)) : bytes = v :: rest := by
  match bytes, h with
  | byte :: tail, h =>
      obtain ⟨rfl, rfl⟩ := Prod.mk.inj (Option.some.inj h)
      rfl

namespace TcpWire

/-! ## Options -/

abbrev SackBlock := SequenceNumber32 × SequenceNumber32

/-- The kinds that have a class. -/
inductive Kind where
  | endOfOptionList
  | noOp
  | maxSegmentSize
  | windowScale
  | sackPermited
  | sack
  | timeStamp
deriving DecidableEq

namespace Kind

def toByte : Kind → UInt8
  | endOfOptionList => 0
  | noOp => 1
  | maxSegmentSize => 2
  | windowScale => 3
  | sackPermited => 4
  | sack => 5
  | timeStamp => 8

def ofByte (byte : UInt8) : Option Kind :=
  [endOfOptionList, noOp, maxSegmentSize, windowScale, sackPermited, sack, timeStamp].find?
    fun kind => kind.toByte = byte

end Kind

inductive TcpOption where
  | endOfOptionList
  | noOp
  | mss (size : UInt16)
  | winScale (scale : UInt8)
  | sackPermitted
  | sack (sb : List SackBlock)
  | ts (timestamp echo : UInt32)
deriving DecidableEq

/-- `AddSack`: the block goes before the first one that lies behind it, and nowhere if there is
none. -/
def addSack (s : SackBlock) : List SackBlock → List SackBlock
  | [] => []
  | block :: rest => if s.1 < block.1 then s :: block :: rest else block :: addSack s rest

namespace TcpOption

def getKind : TcpOption → Kind
  | endOfOptionList => .endOfOptionList
  | noOp => .noOp
  | mss _ => .maxSegmentSize
  | winScale _ => .windowScale
  | sackPermitted => .sackPermited
  | sack _ => .sack
  | ts _ _ => .timeStamp

def getSerializedSize : TcpOption → ℕ
  | endOfOptionList => 1
  | noOp => 1
  | mss _ => 4
  | winScale _ => 3
  | sackPermitted => 2
  | sack sb => sb.length * 2 * 4 + 2
  | ts _ _ => 10

def blockBytes (s : SackBlock) : List UInt8 := htonU32 s.1.value ++ htonU32 s.2.value

/-- The bytes that `Serialize` writes. -/
def serialize : TcpOption → List UInt8
  | endOfOptionList => [Kind.endOfOptionList.toByte]
  | noOp => [Kind.noOp.toByte]
  | mss size => Kind.maxSegmentSize.toByte :: 4 :: htonU16 size
  | winScale scale => [Kind.windowScale.toByte, 3, scale]
  | sackPermitted => [Kind.sackPermited.toByte, 2]
  | sack sb =>
      Kind.sack.toByte :: UInt8.ofNat (sb.length * 2 * 4 + 2) :: sb.flatMap blockBytes
  | ts timestamp echo =>
      Kind.timeStamp.toByte :: 10 :: (htonU32 timestamp ++ htonU32 echo)

/-- The length byte, which has to be `size`. -/
def readSize (size : UInt8) (bytes : List UInt8) : Option (List UInt8) :=
  (readU8 bytes).bind fun r => if r.1 = size then some r.2 else none

def readBlocks : ℕ → List UInt8 → Option (List SackBlock × List UInt8)
  | 0, bytes => some ([], bytes)
  | n + 1, bytes =>
      (readNtohU32 bytes).bind fun left => (readNtohU32 left.2).bind fun right =>
        (readBlocks n right.2).map fun r => ((⟨left.1⟩, ⟨right.1⟩) :: r.1, r.2)

/-- `DoDeserialize` of the class of a kind: the option, the size that is returned, and what is left
to read. A failed assertion is `none`. -/
def doDeserialize (kind : Kind) (bytes : List UInt8) : Option (TcpOption × UInt32 × List UInt8) :=
  match kind with
  | .endOfOptionList => some (endOfOptionList, 1, bytes)
  | .noOp => some (noOp, 1, bytes)
  | .maxSegmentSize =>
      (readSize 4 bytes).bind fun rest => (readNtohU16 rest).map fun r => (mss r.1, 4, r.2)
  | .windowScale =>
      (readSize 3 bytes).bind fun rest => (readU8 rest).map fun r => (winScale r.1, 3, r.2)
  | .sackPermited => (readSize 2 bytes).map fun rest => (sackPermitted, 2, rest)
  | .sack =>
      (readU8 bytes).bind fun size =>
        -- the loop takes eight bytes at a time from a length that is a multiple of eight
        if 10 ≤ size.1 ∧ (size.1.toNat - 2) % 8 = 0 then
          (readBlocks ((size.1.toNat - 2) / 8) size.2).map fun r =>
            (sack r.1, size.1.toUInt32, r.2)
        else none
  | .timeStamp =>
      (readSize 10 bytes).bind fun rest => (readNtohU32 rest).bind fun timestamp =>
        (readNtohU32 timestamp.2).map fun echo => (ts timestamp.1 echo.1, 10, echo.2)

/-- `TcpOption::Deserialize`. A kind without a class gives no option and leaves `optionLen`. -/
def deserialize (bytes : List UInt8) (optionLen : UInt32) :
    Option (Option TcpOption × UInt32 × List UInt8) :=
  (readU8 bytes).bind fun kind =>
    match Kind.ofByte kind.1 with
    | none => some (none, optionLen, kind.2)
    | some known => (doDeserialize known kind.2).map fun r => (some r.1, optionLen - r.2.1, r.2.2)

/-- The blocks of a SACK are counted by its length byte, and there is one. -/
def Proper : TcpOption → Prop
  | sack sb => sb ≠ [] ∧ sb.length ≤ 31
  | _ => True

/-! ## What is written and read -/

theorem length_blockBytes (s : SackBlock) : (blockBytes s).length = 8 := rfl

theorem length_flatMap_blockBytes (sb : List SackBlock) :
    (sb.flatMap blockBytes).length = sb.length * 8 := by
  induction sb with
  | nil => rfl
  | cons s rest ih =>
      rw [List.flatMap_cons, List.length_append, length_blockBytes, ih, List.length_cons]
      omega

theorem length_serialize (op : TcpOption) : op.serialize.length = op.getSerializedSize := by
  cases op with
  | sack sb =>
      simp only [serialize, getSerializedSize, List.length_cons, length_flatMap_blockBytes]
      omega
  | _ => rfl

theorem getSerializedSize_pos (op : TcpOption) : 0 < op.getSerializedSize := by
  cases op <;> simp [getSerializedSize]

theorem Proper.getSerializedSize_le {op : TcpOption} (h : op.Proper) :
    op.getSerializedSize ≤ 250 := by
  cases op with
  | sack sb =>
      have hle := h.2
      simp only [getSerializedSize]
      omega
  | _ => simp [getSerializedSize]

theorem ofByte_toByte (kind : Kind) : Kind.ofByte kind.toByte = some kind := by
  cases kind <;> rfl

theorem ofByte_eq_some {byte : UInt8} {kind : Kind} (h : Kind.ofByte byte = some kind) :
    byte = kind.toByte := by
  have hfound := List.find?_some h
  exact (of_decide_eq_true hfound).symm

theorem readBlocks_flatMap (sb : List SackBlock) (rest : List UInt8) :
    readBlocks sb.length (sb.flatMap blockBytes ++ rest) = some (sb, rest) := by
  induction sb with
  | nil => rfl
  | cons s others ih =>
      rw [List.length_cons, readBlocks, List.flatMap_cons, blockBytes, List.append_assoc,
        List.append_assoc, readNtohU32_htonU32, Option.bind_some, readNtohU32_htonU32,
        Option.bind_some, ih, Option.map_some]

theorem readBlocks_eq_some {n : ℕ} {bytes rest : List UInt8} {sb : List SackBlock}
    (h : readBlocks n bytes = some (sb, rest)) :
    sb.length = n ∧ bytes = sb.flatMap blockBytes ++ rest := by
  induction n generalizing bytes sb with
  | zero =>
      obtain ⟨rfl, rfl⟩ := Prod.mk.inj (Option.some.inj h)
      exact ⟨rfl, rfl⟩
  | succ n ih =>
      rw [readBlocks] at h
      obtain ⟨left, hleft, h⟩ := Option.bind_eq_some_iff.mp h
      obtain ⟨right, hright, h⟩ := Option.bind_eq_some_iff.mp h
      obtain ⟨r, hr, h⟩ := Option.map_eq_some_iff.mp h
      obtain ⟨rfl, rfl⟩ := Prod.mk.inj h
      obtain ⟨hlength, hbytes⟩ := ih hr
      refine ⟨by rw [List.length_cons, hlength], ?_⟩
      rw [readNtohU32_eq_some hleft, readNtohU32_eq_some hright, hbytes, List.flatMap_cons,
        blockBytes, List.append_assoc, List.append_assoc]

theorem readSize_eq_some {size : UInt8} {bytes rest : List UInt8}
    (h : readSize size bytes = some rest) : bytes = size :: rest := by
  obtain ⟨r, hr, h⟩ := Option.bind_eq_some_iff.mp h
  split at h
  next hsize =>
    obtain rfl := Option.some.inj h
    rw [readU8_eq_some hr, hsize]
  next => cases h

theorem serialize_eq_cons (op : TcpOption) :
    op.serialize = op.getKind.toByte :: op.serialize.tail := by
  cases op <;> rfl

/-- The class of a proper option reads what comes behind the kind. -/
theorem doDeserialize_tail {op : TcpOption} (h : op.Proper) (rest : List UInt8) :
    doDeserialize op.getKind (op.serialize.tail ++ rest) =
      some (op, UInt32.ofNat op.getSerializedSize, rest) := by
  cases op with
  | mss size =>
      have hread := readNtohU16_htonU16 size rest
      simp [doDeserialize, getKind, serialize, readSize, readU8, hread, getSerializedSize]
  | ts timestamp echo =>
      have htimestamp := readNtohU32_htonU32 timestamp (htonU32 echo ++ rest)
      have hecho := readNtohU32_htonU32 echo rest
      simp [doDeserialize, getKind, serialize, readSize, readU8, htimestamp, hecho,
        getSerializedSize]
  | sack sb =>
      obtain ⟨hne, hle⟩ := h
      have hpos := List.length_pos_of_ne_nil hne
      have hsize : (UInt8.ofNat (sb.length * 2 * 4 + 2)).toNat = sb.length * 8 + 2 := by
        rw [UInt8.toNat_ofNat', Nat.mod_eq_of_lt (by omega)]
        omega
      have hten : (10 : UInt8) ≤ UInt8.ofNat (sb.length * 2 * 4 + 2) := by
        rw [UInt8.le_iff_toNat_le, hsize]
        change 10 ≤ _
        omega
      have hword : (UInt8.ofNat (sb.length * 2 * 4 + 2)).toUInt32 =
          UInt32.ofNat (sb.length * 2 * 4 + 2) := by
        apply UInt32.toNat_inj.mp
        rw [UInt8.toNat_toUInt32, hsize, UInt32.toNat_ofNat', Nat.mod_eq_of_lt (by omega)]
        omega
      have hcount : (sb.length * 8 + 2 - 2) / 8 = sb.length := by omega
      have htail : (sack sb).serialize.tail =
          UInt8.ofNat (sb.length * 2 * 4 + 2) :: sb.flatMap blockBytes := rfl
      rw [htail, List.cons_append, getKind, doDeserialize, readU8, Option.bind_some]
      rw [if_pos ⟨hten, by rw [hsize]; omega⟩, hsize,
        hcount, readBlocks_flatMap, Option.map_some, hword]
      rfl
  | _ => rfl

/-- What the class of a kind reads is what would be written. -/
theorem doDeserialize_eq_some {kind : Kind} {bytes rest : List UInt8} {op : TcpOption}
    {size : UInt32} (h : doDeserialize kind bytes = some (op, size, rest)) :
    op.Proper ∧ kind.toByte :: bytes = op.serialize ++ rest ∧
      size = UInt32.ofNat op.getSerializedSize := by
  cases kind with
  | endOfOptionList =>
      obtain ⟨rfl, hrest⟩ := Prod.mk.inj (Option.some.inj h)
      obtain ⟨rfl, rfl⟩ := Prod.mk.inj hrest
      exact ⟨trivial, rfl, rfl⟩
  | noOp =>
      obtain ⟨rfl, hrest⟩ := Prod.mk.inj (Option.some.inj h)
      obtain ⟨rfl, rfl⟩ := Prod.mk.inj hrest
      exact ⟨trivial, rfl, rfl⟩
  | maxSegmentSize =>
      obtain ⟨tail, htail, h⟩ := Option.bind_eq_some_iff.mp h
      obtain ⟨r, hr, h⟩ := Option.map_eq_some_iff.mp h
      obtain ⟨rfl, hrest⟩ := Prod.mk.inj h
      obtain ⟨rfl, rfl⟩ := Prod.mk.inj hrest
      rw [readSize_eq_some htail, readNtohU16_eq_some hr]
      exact ⟨trivial, rfl, rfl⟩
  | windowScale =>
      obtain ⟨tail, htail, h⟩ := Option.bind_eq_some_iff.mp h
      obtain ⟨r, hr, h⟩ := Option.map_eq_some_iff.mp h
      obtain ⟨rfl, hrest⟩ := Prod.mk.inj h
      obtain ⟨rfl, rfl⟩ := Prod.mk.inj hrest
      rw [readSize_eq_some htail, readU8_eq_some hr]
      exact ⟨trivial, rfl, rfl⟩
  | sackPermited =>
      obtain ⟨tail, htail, h⟩ := Option.map_eq_some_iff.mp h
      obtain ⟨rfl, hrest⟩ := Prod.mk.inj h
      obtain ⟨rfl, rfl⟩ := Prod.mk.inj hrest
      rw [readSize_eq_some htail]
      exact ⟨trivial, rfl, rfl⟩
  | sack =>
      obtain ⟨count, hcount, h⟩ := Option.bind_eq_some_iff.mp h
      split at h
      next hsize =>
        obtain ⟨r, hr, h⟩ := Option.map_eq_some_iff.mp h
        obtain ⟨rfl, hrest⟩ := Prod.mk.inj h
        obtain ⟨rfl, rfl⟩ := Prod.mk.inj hrest
        obtain ⟨hten, hmod⟩ := hsize
        obtain ⟨hlength, hblocks⟩ := readBlocks_eq_some hr
        rw [UInt8.le_iff_toNat_le] at hten
        have hlt := count.1.toNat_lt
        change 10 ≤ _ at hten
        have hbyte : UInt8.ofNat (r.1.length * 2 * 4 + 2) = count.1 := by
          apply UInt8.toNat_inj.mp
          rw [UInt8.toNat_ofNat', Nat.mod_eq_of_lt (by omega)]
          omega
        refine ⟨⟨List.ne_nil_of_length_pos (by omega), by omega⟩, ?_, ?_⟩
        · rw [readU8_eq_some hcount, hblocks]
          simp [serialize, hbyte]
        · apply UInt32.toNat_inj.mp
          rw [getSerializedSize, UInt8.toNat_toUInt32, UInt32.toNat_ofNat',
            Nat.mod_eq_of_lt (by omega)]
          omega
      next => cases h
  | timeStamp =>
      obtain ⟨tail, htail, h⟩ := Option.bind_eq_some_iff.mp h
      obtain ⟨timestamp, htimestamp, h⟩ := Option.bind_eq_some_iff.mp h
      obtain ⟨echo, hecho, h⟩ := Option.map_eq_some_iff.mp h
      obtain ⟨rfl, hrest⟩ := Prod.mk.inj h
      obtain ⟨rfl, rfl⟩ := Prod.mk.inj hrest
      rw [readSize_eq_some htail, readNtohU32_eq_some htimestamp, readNtohU32_eq_some hecho]
      exact ⟨trivial, rfl, rfl⟩

/-- A proper option is read as it was written. -/
theorem deserialize_serialize {op : TcpOption} (h : op.Proper) (rest : List UInt8)
    (optionLen : UInt32) : deserialize (op.serialize ++ rest) optionLen =
      some (some op, optionLen - UInt32.ofNat op.getSerializedSize, rest) := by
  have hread := doDeserialize_tail h rest
  rw [serialize_eq_cons, List.cons_append, deserialize, readU8, Option.bind_some]
  simp only [ofByte_toByte, hread, Option.map_some]

/-- What is read as an option is what would be written of it. -/
theorem deserialize_eq_some {bytes rest : List UInt8} {optionLen next : UInt32} {op : TcpOption}
    (h : deserialize bytes optionLen = some (some op, next, rest)) :
    op.Proper ∧ bytes = op.serialize ++ rest ∧
      next = optionLen - UInt32.ofNat op.getSerializedSize := by
  obtain ⟨byte, hbyte, h⟩ := Option.bind_eq_some_iff.mp h
  rw [readU8_eq_some hbyte]
  split at h
  next => cases h
  next kind hkind =>
    rw [ofByte_eq_some hkind]
    obtain ⟨r, hread, h⟩ := Option.map_eq_some_iff.mp h
    obtain ⟨hop, hrest⟩ := Prod.mk.inj h
    obtain ⟨hnext, hleft⟩ := Prod.mk.inj hrest
    obtain rfl := Option.some.inj hop
    obtain ⟨hproper, hbytes, hsize⟩ := doDeserialize_eq_some hread
    rw [← hnext, ← hleft, hsize]
    exact ⟨hproper, hbytes, rfl⟩

/-- A SACK without blocks is not read. -/
theorem deserialize_sack_nil (rest : List UInt8) (optionLen : UInt32) :
    deserialize ((sack []).serialize ++ rest) optionLen = none := rfl

end TcpOption

end TcpWire

end Ns3Rdma
