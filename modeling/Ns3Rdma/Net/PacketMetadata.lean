import Mathlib.Data.Nat.Bitwise
import Mathlib.Data.UInt
import Ns3Rdma.Lib.Memory
import Ns3Rdma.Lib.Word

/-!
# The items of the packet metadata

`PacketMetadata` records what was added to a packet in a list of items, stored one behind the other
in a byte array that copies of the packet share. Numbers of 32 bits are stored as LEB128, the links
of the list in 16 bits, and the uid of a packet in 32 of its 64 bits.
-/

namespace Ns3Rdma

open Memory

namespace PacketMetadata

structure SmallItem where
  next : UInt16
  prev : UInt16
  typeUid : UInt32
  size : UInt32
  chunkUid : UInt16
  deriving DecidableEq, Repr

structure ExtraItem where
  fragmentStart : UInt32
  fragmentEnd : UInt32
  packetUid : UInt64
  deriving DecidableEq, Repr

/-- `PacketMetadata::Data`; `m_size` and `m_dirtyEnd` have 16 bits. -/
structure Data where
  count : ℕ
  size : ℕ
  dirtyEnd : ℕ
  bytes : ℕ → UInt8

/-- The static members: `m_maxSize`, and `m_freeList` from its back. New memory holds `fresh`. -/
structure Pool where
  maxSize : ℕ
  freeList : List Data
  fresh : ℕ → UInt8

/-! ## Numbers -/

def getUleb128Size (value : UInt32) : ℕ :=
  if value.toNat < 0x80 then 1
  else if value.toNat < 0x4000 then 2
  else if value.toNat < 0x200000 then 3
  else if value.toNat < 0x10000000 then 4
  else 5

/-- `0x80 | (value & (~0x80))` in a byte: seven bits, and more of them follow. -/
def moreByte (value : ℕ) : UInt8 := UInt8.ofNat (0x80 ||| value &&& 0x7f)

def appendValueExtra (value : ℕ) : List UInt8 :=
  if value < 0x200000 then
    [moreByte value, moreByte (value >>> 7), UInt8.ofNat (value >>> 14)]
  else if value < 0x10000000 then
    [moreByte value, moreByte (value >>> 7), moreByte (value >>> 14), UInt8.ofNat (value >>> 21)]
  else
    [moreByte value, moreByte (value >>> 7), moreByte (value >>> 14), moreByte (value >>> 21),
      UInt8.ofNat (value >>> 28)]

def appendValue (value : UInt32) : List UInt8 :=
  if value.toNat < 0x80 then [UInt8.ofNat value.toNat]
  else if value.toNat < 0x4000 then [moreByte value.toNat, UInt8.ofNat (value.toNat >>> 7)]
  else appendValueExtra value.toNat

/-- The steps of `ReadUleb128`, which the source unrolls; the assertion fails behind the last. -/
def readUleb128From : ℕ → ℕ → ℕ → List UInt8 → Option (ℕ × List UInt8)
  | 0, _, _, _ => none
  | _ + 1, _, _, [] => none
  | steps + 1, shift, result, byte :: buffer =>
      let result := result ||| (byte.toNat &&& 0x7f) <<< shift
      if byte.toNat &&& 0x80 = 0 then some (result, buffer)
      else readUleb128From steps (shift + 7) result buffer

def readUleb128 (buffer : List UInt8) : Option (UInt32 × List UInt8) :=
  (readUleb128From 5 0 0 buffer).map fun (result, buffer) => (UInt32.ofNat result, buffer)

def append16 (value : UInt16) : List UInt8 :=
  [UInt8.ofNat value.toNat, UInt8.ofNat (value.toNat >>> 8)]

def append32 (value : UInt32) : List UInt8 :=
  [value.toUInt8, (value >>> 8).toUInt8, (value >>> 16).toUInt8, (value >>> 24).toUInt8]

/-- `buffer[0]`, then `|= (buffer[1]) << 8`. -/
def read16 : List UInt8 → Option (UInt16 × List UInt8)
  | b0 :: b1 :: buffer => some (UInt16.ofNat (b0.toNat ||| b1.toNat <<< 8), buffer)
  | _ => none

/-- Four bytes into 64 bits. `buffer[3] << 24` is an `int`, which is sign-extended. -/
def readPacketUid : List UInt8 → Option (UInt64 × List UInt8)
  | b0 :: b1 :: b2 :: b3 :: buffer =>
      some (b0.toUInt64 ||| b1.toUInt64 <<< 8 ||| b2.toUInt64 <<< 16 |||
        ⟨(b3.toBitVec.setWidth 32 <<< 24).signExtend 64⟩, buffer)
  | _ => none

end PacketMetadata

open PacketMetadata

/-- The members of `PacketMetadata` that the items need. -/
structure PacketMetadata where
  data : Data
  head : UInt16
  tail : UInt16
  used : UInt16
  packetUid : UInt64

namespace PacketMetadata

/-! ## Storage -/

/-- `Allocate`; the size is stored in 16 bits. -/
def allocate (pool : Pool) (n : ℕ) : Data := ⟨1, max n 8 % 2 ^ 16, 0, pool.fresh⟩

/-- `Create`: the first free data that is large enough, or new data. -/
def create (pool : Pool) (size : ℕ) : Data :=
  match pool.freeList.find? fun data => decide (size ≤ data.size) with
  | some data => { data with count := 1 }
  | none => allocate pool (max pool.maxSize size)

/-- `ReserveCopy`: copy the items and cut the list at both ends. -/
def reserveCopy (pool : Pool) (m : PacketMetadata) (size : ℕ) : Option PacketMetadata :=
  let newData := create pool (m.used.toNat + size)
  let bytes := fun i => if i < m.used.toNat then m.data.bytes i else newData.bytes i
  if m.head = 0xffff then
    some { m with data := { newData with dirtyEnd := m.used.toNat, bytes := bytes } }
  else if m.tail = 0xffff then none
  else
    let cut := store (store bytes m.tail.toNat (append16 0xffff)) (m.head.toNat + 2)
      (append16 0xffff)
    some { m with data := { newData with dirtyEnd := m.used.toNat, bytes := cut } }

/-- Make room for an item of `n` bytes. -/
def reserve (pool : Pool) (m : PacketMetadata) (n : ℕ) : Option PacketMetadata :=
  if m.data.size < m.used.toNat + n ∨
      (m.head ≠ 0xffff ∧ m.data.count ≠ 1 ∧ m.used.toNat ≠ m.data.dirtyEnd) then
    reserveCopy pool m n
  else some m

/-- Write the bytes of an item behind the used ones. -/
def writeItem (m : PacketMetadata) (buffer : List UInt8) : PacketMetadata :=
  { m with data := { m.data with bytes := store m.data.bytes m.used.toNat buffer } }

/-! ## Items -/

/-- The bytes of an item without extra data. -/
def smallBytes (item : SmallItem) : List UInt8 :=
  append16 item.next ++ append16 item.prev ++ appendValue item.typeUid ++ appendValue item.size ++
    append16 item.chunkUid

/-- `AddSmall`, and the number of bytes it returns. -/
def addSmall (pool : Pool) (m : PacketMetadata) (item : SmallItem) :
    Option (PacketMetadata × ℕ) :=
  if m.used = item.prev ∨ m.used = item.next then none
  else
    let n := 2 + 2 + getUleb128Size item.typeUid + getUleb128Size item.size + 2
    (reserve pool m n).map fun m => (m.writeItem (smallBytes item), n)

/-- The uid with the low bit that announces extra data. -/
def extraTypeUid (typeUid : UInt32) : UInt32 := if typeUid &&& 1 = 1 then typeUid else typeUid + 1

/-- The bytes of an item with extra data; `Append32` takes the low half of the uid. -/
def bigBytes (next prev : UInt32) (item : SmallItem) (extraItem : ExtraItem) : List UInt8 :=
  smallBytes { item with
    next := next.toUInt16, prev := prev.toUInt16, typeUid := extraTypeUid item.typeUid } ++
      appendValue extraItem.fragmentStart ++ appendValue extraItem.fragmentEnd ++
        append32 extraItem.packetUid.toUInt32

/-- `AddBig`, and the number of bytes it returns. -/
def addBig (pool : Pool) (m : PacketMetadata) (next prev : UInt32) (item : SmallItem)
    (extraItem : ExtraItem) : Option (PacketMetadata × ℕ) :=
  if m.used.toUInt32 = prev ∨ m.used.toUInt32 = next then none
  else
    let n := 2 + 2 + getUleb128Size (extraTypeUid item.typeUid) + getUleb128Size item.size + 2 +
      getUleb128Size extraItem.fragmentStart + getUleb128Size extraItem.fragmentEnd + 4
    (reserve pool m n).map fun m => (m.writeItem (bigBytes next prev item extraItem), n)

/-- What `ReadItems` reads from a list of bytes, and the bytes behind it. -/
def readItem (packetUid : UInt64) (buffer : List UInt8) :
    Option ((SmallItem × ExtraItem) × List UInt8) := do
  let (next, buffer) ← read16 buffer
  let (prev, buffer) ← read16 buffer
  let (typeUid, buffer) ← readUleb128 buffer
  let (size, buffer) ← readUleb128 buffer
  let (chunkUid, buffer) ← read16 buffer
  if typeUid &&& 1 = 1 then
    let (fragmentStart, buffer) ← readUleb128 buffer
    let (fragmentEnd, buffer) ← readUleb128 buffer
    let (packetUid, buffer) ← readPacketUid buffer
    some ((⟨next, prev, typeUid, size, chunkUid⟩, ⟨fragmentStart, fragmentEnd, packetUid⟩), buffer)
  else
    some ((⟨next, prev, typeUid, size, chunkUid⟩, ⟨0, size, packetUid⟩), buffer)

/-- `ReadItems`, and the number of bytes read. Both assertions keep it inside the data. -/
def readItems (m : PacketMetadata) (current : UInt16) : Option ((SmallItem × ExtraItem) × ℕ) :=
  if m.data.size < current.toNat then none
  else
    let buffer := slice m.data.bytes current.toNat (m.data.size - current.toNat)
    (readItem m.packetUid buffer).map fun (items, rest) => (items, buffer.length - rest.length)

/-! ## What is written is read back -/

/-- Seven bits in each byte, lowest first. -/
def uleb128 : ℕ → ℕ → List UInt8
  | 0, _ => []
  | steps + 1, value =>
      if value < 128 then [UInt8.ofNat value] else moreByte value :: uleb128 steps (value / 128)

theorem moreByte_toNat (value : ℕ) : (moreByte value).toNat = 128 + value % 128 := by
  have hlow : value &&& 0x7f = value % 128 := Nat.and_two_pow_sub_one_eq_mod value 7
  have hmod : value % 128 < 2 ^ 7 := Nat.mod_lt _ (by decide)
  have hor : 0x80 ||| value % 128 = 128 + value % 128 :=
    (Nat.two_pow_add_eq_or_of_lt hmod 1).symm
  rw [moreByte, hlow, hor, UInt8.toNat_ofNat']
  omega

theorem and_high_eq_zero (byte : UInt8) : byte.toNat &&& 0x80 = 0 ↔ byte.toNat < 128 := by
  have hbyte := byte.toNat_lt
  have hbit : byte.toNat &&& 2 ^ 7 = (byte.toNat.testBit 7).toNat * 2 ^ 7 := Nat.and_two_pow _ 7
  rw [Nat.testBit_eq_decide_div_mod_eq] at hbit
  change byte.toNat &&& 2 ^ 7 = 0 ↔ _
  rw [hbit]
  by_cases hhigh : byte.toNat / 2 ^ 7 % 2 = 1
  · simp only [hhigh, decide_true, Bool.toNat_true]
    omega
  · simp only [hhigh, decide_false, Bool.toNat_false, Nat.zero_mul, true_iff]
    omega

theorem or_shiftLeft {result shift value : ℕ} (hresult : result < 2 ^ shift) :
    result ||| value <<< shift = result + value * 2 ^ shift := by
  rw [Nat.or_comm, ← Nat.shiftLeft_add_eq_or_of_lt hresult, Nat.shiftLeft_eq, Nat.add_comm]

/-- `AppendValue` treats the five lengths one by one. -/
theorem appendValue_eq (value : UInt32) : appendValue value = uleb128 5 value.toNat := by
  have hvalue := value.toNat_lt
  unfold appendValue appendValueExtra
  simp only [uleb128, Nat.shiftRight_eq_div_pow, Nat.div_div_eq_div_mul]
  by_cases h1 : value.toNat < 128
  · simp [h1]
  · by_cases h2 : value.toNat < 0x4000
    · simp [h1, h2, show value.toNat / 128 < 128 by omega]
    · by_cases h3 : value.toNat < 0x200000
      · simp [h1, h2, h3, show ¬ value.toNat / 128 < 128 by omega,
          show value.toNat / 16384 < 128 by omega]
      · by_cases h4 : value.toNat < 0x10000000
        · simp [h1, h2, h3, h4, show ¬ value.toNat / 128 < 128 by omega,
            show ¬ value.toNat / 16384 < 128 by omega, show value.toNat / 2097152 < 128 by omega]
        · simp [h1, h2, h3, h4, show ¬ value.toNat / 128 < 128 by omega,
            show ¬ value.toNat / 16384 < 128 by omega, show ¬ value.toNat / 2097152 < 128 by omega,
            show value.toNat / 268435456 < 128 by omega]

theorem length_appendValue (value : UInt32) :
    (appendValue value).length = getUleb128Size value := by
  unfold appendValue appendValueExtra getUleb128Size
  repeat' split
  all_goals rfl

/-- From any step on, the reader adds the rest of the number above what it has. -/
theorem readUleb128From_uleb128 {steps shift result value : ℕ} (hresult : result < 2 ^ shift)
    (hvalue : value < 128 ^ (steps + 1)) (rest : List UInt8) :
    readUleb128From (steps + 1) shift result (uleb128 (steps + 1) value ++ rest) =
      some (result + value * 2 ^ shift, rest) := by
  induction steps generalizing shift result value with
  | zero =>
      rw [Nat.zero_add, Nat.pow_one] at hvalue
      have hbyte : (UInt8.ofNat value).toNat = value := by
        rw [UInt8.toNat_ofNat']
        omega
      have hlow : value &&& 0x7f = value % 128 := Nat.and_two_pow_sub_one_eq_mod value 7
      have hend := (and_high_eq_zero _).mpr (by rwa [hbyte])
      rw [uleb128, if_pos hvalue, List.singleton_append, readUleb128From, if_pos hend, hbyte, hlow,
        Nat.mod_eq_of_lt hvalue, or_shiftLeft hresult]
  | succ steps ih =>
      rw [uleb128]
      split
      next hlast =>
        have hbyte : (UInt8.ofNat value).toNat = value := by
          rw [UInt8.toNat_ofNat']
          omega
        have hlow : value &&& 0x7f = value % 128 := Nat.and_two_pow_sub_one_eq_mod value 7
        have hend := (and_high_eq_zero _).mpr (by rwa [hbyte])
        rw [List.singleton_append, readUleb128From, if_pos hend, hbyte, hlow,
          Nat.mod_eq_of_lt hlast, or_shiftLeft hresult]
      next hmore =>
        have hbyte := moreByte_toNat value
        have hlow : (moreByte value).toNat &&& 0x7f = value % 128 := by
          have hmod := Nat.and_two_pow_sub_one_eq_mod (moreByte value).toNat 7
          rw [hbyte] at hmod ⊢
          change 128 + value % 128 &&& 0x7f = _ at hmod
          rw [hmod]
          omega
        have hhigh : ¬ (moreByte value).toNat &&& 0x80 = 0 := by
          rw [and_high_eq_zero, hbyte]
          omega
        have hnext : result + value % 128 * 2 ^ shift < 2 ^ (shift + 7) := by
          have hmod : value % 128 * 2 ^ shift ≤ 127 * 2 ^ shift :=
            Nat.mul_le_mul_right _ (by omega)
          rw [Nat.pow_add]
          omega
        have hrest : value / 128 < 128 ^ (steps + 1) :=
          Nat.div_lt_of_lt_mul (by rwa [Nat.pow_succ, Nat.mul_comm] at hvalue)
        rw [List.cons_append, readUleb128From, if_neg hhigh, hlow, or_shiftLeft hresult,
          ih hnext hrest]
        have hsplit : value * 2 ^ shift = (value % 128 + 128 * (value / 128)) * 2 ^ shift := by
          rw [Nat.mod_add_div]
        rw [hsplit, Nat.pow_add, Nat.add_mul, ← Nat.add_assoc, Nat.mul_comm 128 (value / 128),
          Nat.mul_assoc, Nat.mul_comm (2 ^ shift)]

/-- A number is read back, and nothing behind it is touched. -/
theorem readUleb128_appendValue (value : UInt32) (rest : List UInt8) :
    readUleb128 (appendValue value ++ rest) = some (value, rest) := by
  have hvalue : value.toNat < 128 ^ (4 + 1) :=
    value.toNat_lt.trans_le (by decide)
  rw [readUleb128, appendValue_eq, readUleb128From_uleb128 (by decide) hvalue]
  simp

theorem read16_append16 (value : UInt16) (rest : List UInt8) :
    read16 (append16 value ++ rest) = some (value, rest) := by
  have hvalue := value.toNat_lt
  have hlow : (UInt8.ofNat value.toNat).toNat = value.toNat % 256 := UInt8.toNat_ofNat'
  have hhigh : (UInt8.ofNat (value.toNat >>> 8)).toNat = value.toNat / 256 := by
    rw [UInt8.toNat_ofNat', Nat.shiftRight_eq_div_pow]
    omega
  rw [append16, List.cons_append, List.singleton_append, read16, hlow, hhigh,
    or_shiftLeft (show value.toNat % 256 < 2 ^ 8 from Nat.mod_lt _ (by decide)), Nat.mul_comm,
    show 2 ^ 8 = 256 from rfl, Nat.mod_add_div, UInt16.ofNat_toNat]

/-- The upper half of the uid that is read is a copy of bit 31. -/
theorem readPacketUid_append32 (value : UInt32) (rest : List UInt8) :
    readPacketUid (append32 value ++ rest) = some (⟨value.toBitVec.signExtend 64⟩, rest) := by
  rw [append32]
  simp only [List.cons_append, List.nil_append, readPacketUid, Option.some.injEq, Prod.mk.injEq,
    and_true]
  apply UInt64.eq_of_toBitVec_eq
  change (value.toBitVec.setWidth 8).setWidth 64 |||
    ((value.toBitVec >>> 8).setWidth 8).setWidth 64 <<< 8 |||
    ((value.toBitVec >>> 16).setWidth 8).setWidth 64 <<< 16 |||
    (((value.toBitVec >>> 24).setWidth 8).setWidth 32 <<< 24).signExtend 64 =
      value.toBitVec.signExtend 64
  generalize value.toBitVec = word
  apply BitVec.eq_of_getLsbD_eq
  intro i hi
  simp only [BitVec.getLsbD_or, BitVec.getLsbD_setWidth, BitVec.getLsbD_shiftLeft,
    BitVec.getLsbD_ushiftRight, BitVec.getLsbD_signExtend, BitVec.msb_eq_getLsbD_last]
  by_cases h8 : i < 8
  · simp [hi, h8, show i < 16 by omega, show i < 24 by omega, show i < 32 by omega]
  · by_cases h16 : i < 16
    · simp [hi, h8, h16, show i < 24 by omega, show i < 32 by omega, show i - 8 < 8 by omega,
        show i - 8 < 64 by omega, show 8 + (i - 8) = i by omega]
    · by_cases h24 : i < 24
      · simp [hi, h8, h16, h24, show i < 32 by omega, show ¬ i - 8 < 8 by omega,
          show i - 16 < 8 by omega, show i - 16 < 64 by omega, show 16 + (i - 16) = i by omega]
      · by_cases h32 : i < 32
        · simp [hi, h8, h16, h24, h32, show ¬ i - 8 < 8 by omega, show ¬ i - 16 < 8 by omega,
            show i - 24 < 8 by omega, show i - 24 < 32 by omega, show 24 + (i - 24) = i by omega]
        · simp [hi, h8, h16, h32, show ¬ i - 8 < 8 by omega, show ¬ i - 16 < 8 by omega]

theorem length_smallBytes (item : SmallItem) : (smallBytes item).length =
    2 + 2 + getUleb128Size item.typeUid + getUleb128Size item.size + 2 := by
  simp only [smallBytes, List.length_append, length_appendValue]
  rfl

theorem length_bigBytes (next prev : UInt32) (item : SmallItem) (extraItem : ExtraItem) :
    (bigBytes next prev item extraItem).length =
      2 + 2 + getUleb128Size (extraTypeUid item.typeUid) + getUleb128Size item.size + 2 +
        getUleb128Size extraItem.fragmentStart + getUleb128Size extraItem.fragmentEnd + 4 := by
  simp only [bigBytes, List.length_append, length_appendValue, length_smallBytes]
  rfl

/-- An even uid ends the item. -/
theorem readItem_smallBytes {item : SmallItem} (heven : item.typeUid &&& 1 ≠ 1) (uid : UInt64)
    (rest : List UInt8) :
    readItem uid (smallBytes item ++ rest) = some ((item, ⟨0, item.size, uid⟩), rest) := by
  simp only [smallBytes, List.append_assoc, readItem, Option.bind_eq_bind, read16_append16,
    readUleb128_appendValue, Option.bind_some, heven, if_false]

/-- An odd uid announces extra data. -/
theorem readItem_smallBytes_of_odd {item : SmallItem} (hodd : item.typeUid &&& 1 = 1)
    (uid : UInt64) (rest : List UInt8) :
    readItem uid (smallBytes item ++ rest) =
      (readUleb128 rest).bind fun (fragmentStart, buffer) =>
        (readUleb128 buffer).bind fun (fragmentEnd, buffer) =>
          (readPacketUid buffer).bind fun (packetUid, buffer) =>
            some ((item, ⟨fragmentStart, fragmentEnd, packetUid⟩), buffer) := by
  simp only [smallBytes, List.append_assoc, readItem, Option.bind_eq_bind, read16_append16,
    readUleb128_appendValue, Option.bind_some, hodd, if_true]

theorem extraTypeUid_odd (typeUid : UInt32) : extraTypeUid typeUid &&& 1 = 1 := by
  have hlow : ∀ x : UInt32, (x &&& 1).toNat = x.toNat % 2 := fun x => by
    rw [UInt32.toNat_and]
    exact Nat.and_one_is_mod x.toNat
  rw [extraTypeUid]
  split
  next hodd => exact hodd
  next heven =>
    apply UInt32.toNat.inj
    have hnot : ¬ typeUid.toNat % 2 = 1 :=
      fun h => heven (UInt32.toNat.inj ((hlow typeUid).trans h))
    rw [hlow, UInt32.toNat_add]
    change (typeUid.toNat + 1) % 2 ^ 32 % 2 = 1
    omega

/-- The low bit is forced to one. -/
theorem extraTypeUid_eq (typeUid : UInt32) : extraTypeUid typeUid = typeUid ||| 1 := by
  have hlow : (typeUid &&& 1).toNat = typeUid.toNat % 2 := by
    rw [UInt32.toNat_and]
    exact Nat.and_one_is_mod typeUid.toNat
  have hhalf : (typeUid.toNat ||| 1) / 2 = typeUid.toNat / 2 := by
    rw [Nat.or_div_two]
    exact Nat.or_zero _
  have hodd : (typeUid.toNat ||| 1) % 2 = 1 := Nat.or_mod_two_eq_one.mpr (Or.inr rfl)
  apply UInt32.toNat.inj
  rw [UInt32.toNat_or]
  change _ = typeUid.toNat ||| 1
  unfold extraTypeUid
  split
  next h =>
    have hone : typeUid.toNat % 2 = 1 := hlow.symm.trans (congrArg UInt32.toNat h)
    omega
  next h =>
    have hnot : ¬ typeUid.toNat % 2 = 1 := fun hone => h (UInt32.toNat.inj (hlow.trans hone))
    have hbound := typeUid.toNat_lt
    rw [UInt32.toNat_add_of_lt (by change typeUid.toNat + 1 < 2 ^ 32; omega)]
    change typeUid.toNat + 1 = _
    omega

theorem readItem_bigBytes (next prev : UInt32) (item : SmallItem) (extraItem : ExtraItem)
    (uid : UInt64) (rest : List UInt8) :
    readItem uid (bigBytes next prev item extraItem ++ rest) =
      some (({ item with
          next := next.toUInt16, prev := prev.toUInt16, typeUid := item.typeUid ||| 1 },
        { extraItem with
          packetUid := ⟨extraItem.packetUid.toUInt32.toBitVec.signExtend 64⟩ }), rest) := by
  rw [bigBytes, List.append_assoc, List.append_assoc, List.append_assoc,
    readItem_smallBytes_of_odd (extraTypeUid_odd item.typeUid)]
  simp only [readUleb128_appendValue, readPacketUid_append32, Option.bind_some, extraTypeUid_eq]

theorem length_readUleb128From {steps shift result value : ℕ} {buffer rest : List UInt8}
    (h : readUleb128From steps shift result buffer = some (value, rest)) :
    rest.length < buffer.length := by
  induction steps generalizing shift result buffer with
  | zero => cases h
  | succ steps ih =>
      cases buffer with
      | nil => cases h
      | cons byte buffer =>
          rw [readUleb128From] at h
          split at h
          next =>
            obtain ⟨-, rfl⟩ := Prod.mk.inj (Option.some.inj h)
            exact Nat.lt_succ_self _
          next => exact (ih h).trans (Nat.lt_succ_self _)

theorem length_readUleb128 {value : UInt32} {buffer rest : List UInt8}
    (h : readUleb128 buffer = some (value, rest)) : rest.length < buffer.length := by
  obtain ⟨⟨result, left⟩, hread, hpair⟩ := Option.map_eq_some_iff.mp h
  obtain ⟨-, rfl⟩ := Prod.mk.inj hpair
  exact length_readUleb128From hread

theorem length_readPacketUid {value : UInt64} {buffer rest : List UInt8}
    (h : readPacketUid buffer = some (value, rest)) : rest.length < buffer.length := by
  unfold readPacketUid at h
  split at h
  next =>
    obtain ⟨-, rfl⟩ := Prod.mk.inj (Option.some.inj h)
    simp only [List.length_cons]
    omega
  next => cases h

/-! ## Round trips -/

theorem reserve_keeps {pool : Pool} {m m' : PacketMetadata} {n : ℕ}
    (h : reserve pool m n = some m') : m'.used = m.used ∧ m'.packetUid = m.packetUid := by
  unfold reserve reserveCopy at h
  split at h
  next =>
    dsimp only at h
    split at h
    next =>
      obtain rfl := Option.some.inj h
      exact ⟨rfl, rfl⟩
    next =>
      split at h
      next => cases h
      next =>
        obtain rfl := Option.some.inj h
        exact ⟨rfl, rfl⟩
  next =>
    obtain rfl := Option.some.inj h
    exact ⟨rfl, rfl⟩

section Written

variable {m : PacketMetadata} {buffer : List UInt8}

/-- What was written is read with what the storage holds behind it. -/
theorem readItems_writeItem (hfits : m.used.toNat + buffer.length ≤ m.data.size) :
    (m.writeItem buffer).readItems m.used =
      (readItem m.packetUid (buffer ++ slice m.data.bytes (m.used.toNat + buffer.length)
        (m.data.size - m.used.toNat - buffer.length))).map fun (items, rest) =>
          (items, m.data.size - m.used.toNat - rest.length) := by
  have hsize : ¬ m.data.size < m.used.toNat := by omega
  have hslice : slice (store m.data.bytes m.used.toNat buffer) m.used.toNat
      (m.data.size - m.used.toNat) = buffer ++ slice m.data.bytes (m.used.toNat + buffer.length)
        (m.data.size - m.used.toNat - buffer.length) := by
    have hsplit : m.data.size - m.used.toNat =
        buffer.length + (m.data.size - m.used.toNat - buffer.length) := by omega
    conv => lhs; rw [hsplit]
    rw [← slice_append, slice_store_self, slice_store_of_disjoint (Or.inr (Nat.le_refl _))]
  unfold readItems writeItem
  dsimp only
  rw [if_neg hsize, hslice]
  simp only [List.length_append, length_slice]
  rw [Nat.add_sub_cancel' (by omega)]

/-- The bytes read lie inside the storage. -/
theorem fits_of_readItems {items : SmallItem × ExtraItem} {n : ℕ}
    (h : m.readItems m.used = some (items, n)) : m.used.toNat + n ≤ m.data.size := by
  unfold readItems at h
  split at h
  next => cases h
  next hsize =>
    obtain ⟨⟨items', rest⟩, hread, hpair⟩ := Option.map_eq_some_iff.mp h
    obtain ⟨-, rfl⟩ := Prod.mk.inj hpair
    rw [length_slice]
    omega

end Written

/-- The low half of a uid, sign-extended, is the uid. -/
theorem signExtend_low_iff (uid : UInt64) :
    (⟨uid.toUInt32.toBitVec.signExtend 64⟩ : UInt64) = uid ↔
      uid.toNat < 2 ^ 31 ∨ 2 ^ 64 - 2 ^ 31 ≤ uid.toNat := by
  have huid := uid.toNat_lt
  have hlow : uid.toUInt32.toBitVec.toNat = uid.toNat % 2 ^ 32 := UInt64.toNat_toUInt32 uid
  have hmsb : uid.toUInt32.toBitVec.msb = decide (2 ^ 31 ≤ uid.toNat % 2 ^ 32) := by
    rw [BitVec.msb_eq_decide, hlow]
  have hvalue : (uid.toUInt32.toBitVec.signExtend 64).toNat =
      uid.toNat % 2 ^ 32 + if 2 ^ 31 ≤ uid.toNat % 2 ^ 32 then 2 ^ 64 - 2 ^ 32 else 0 := by
    rw [BitVec.toNat_signExtend, hmsb, BitVec.toNat_setWidth, hlow]
    by_cases hhigh : 2 ^ 31 ≤ uid.toNat % 2 ^ 32
    · simp only [hhigh, decide_true, if_true]
      omega
    · simp only [hhigh, decide_false, Bool.false_eq_true, if_false]
      omega
  rw [← UInt64.toNat_inj]
  change (uid.toUInt32.toBitVec.signExtend 64).toNat = uid.toNat ↔ _
  rw [hvalue]
  split <;> omega

/-- `ReadItems` at the offset just written returns the item, and `n` as the number of bytes. -/
def ReadsBack (m' : PacketMetadata) (current : UInt16) (item : SmallItem) (extraItem : ExtraItem)
    (n : ℕ) : Prop :=
  m'.readItems current = some ((item, extraItem), n)

variable {pool : Pool} {m m' : PacketMetadata} {n : ℕ}

/-- An item with extra data is read back exactly if the sign-extended low half of its uid is the
uid, and the storage holds it. -/
theorem addBig_readsBack_iff {next prev : UInt32} {item : SmallItem} {extraItem : ExtraItem}
    (hadd : m.addBig pool next prev item extraItem = some (m', n)) :
    ReadsBack m' m.used { item with
        next := next.toUInt16, prev := prev.toUInt16, typeUid := item.typeUid ||| 1 } extraItem n ↔
      (extraItem.packetUid.toNat < 2 ^ 31 ∨ 2 ^ 64 - 2 ^ 31 ≤ extraItem.packetUid.toNat) ∧
        m.used.toNat + n ≤ m'.data.size := by
  unfold addBig at hadd
  split at hadd
  next => cases hadd
  next =>
    obtain ⟨reserved, hreserve, hpair⟩ := Option.map_eq_some_iff.mp hadd
    obtain ⟨rfl, hn⟩ := Prod.mk.inj hpair
    rw [← length_bigBytes next prev] at hn
    obtain ⟨hused, -⟩ := reserve_keeps hreserve
    have hsize : (reserved.writeItem (bigBytes next prev item extraItem)).data.size =
        reserved.data.size := rfl
    rw [← hused, ← signExtend_low_iff, hsize, ReadsBack]
    constructor
    · intro hread
      have hfits := fits_of_readItems (m := reserved.writeItem _) hread
      refine ⟨?_, hfits⟩
      rw [readItems_writeItem (hn ▸ hfits), readItem_bigBytes] at hread
      simp only [Option.map_some, Option.some.injEq, Prod.mk.injEq] at hread
      exact congrArg ExtraItem.packetUid hread.1.2
    · rintro ⟨huid, hfits⟩
      rw [readItems_writeItem (hn ▸ hfits), readItem_bigBytes, huid, Option.map_some]
      dsimp only
      rw [length_slice, Nat.sub_sub_self (by omega), hn]

/-- An item without extra data is read back exactly if its uid is even, and the storage holds
it. -/
theorem addSmall_readsBack_iff {item : SmallItem} (hadd : m.addSmall pool item = some (m', n)) :
    ReadsBack m' m.used item ⟨0, item.size, m.packetUid⟩ n ↔
      item.typeUid &&& 1 ≠ 1 ∧ m.used.toNat + n ≤ m'.data.size := by
  unfold addSmall at hadd
  split at hadd
  next => cases hadd
  next =>
    obtain ⟨reserved, hreserve, hpair⟩ := Option.map_eq_some_iff.mp hadd
    obtain ⟨rfl, hn⟩ := Prod.mk.inj hpair
    rw [← length_smallBytes] at hn
    obtain ⟨hused, huid⟩ := reserve_keeps hreserve
    have hsize : (reserved.writeItem (smallBytes item)).data.size = reserved.data.size := rfl
    rw [← hused, ← huid, hsize, ReadsBack]
    constructor
    · intro hread
      have hfits := fits_of_readItems (m := reserved.writeItem _) hread
      refine ⟨fun hodd => ?_, hfits⟩
      -- the reader takes what lies behind the item for its extra data
      rw [readItems_writeItem (hn ▸ hfits), readItem_smallBytes_of_odd hodd] at hread
      obtain ⟨⟨items, rest⟩, hextra, hlast⟩ := Option.map_eq_some_iff.mp hread
      simp only [Option.bind_eq_some_iff, Option.some.injEq, Prod.mk.injEq, Prod.exists] at hextra
      obtain ⟨_, first, hfirst, _, second, hsecond, _, third, hthird, -, rfl⟩ := hextra
      have hfirst := length_readUleb128 hfirst
      have hsecond := length_readUleb128 hsecond
      have hthird := length_readPacketUid hthird
      rw [length_slice] at hfirst
      have hcount := (Prod.mk.inj hlast).2
      dsimp only [writeItem] at hfits
      omega
    · rintro ⟨heven, hfits⟩
      rw [readItems_writeItem (hn ▸ hfits), readItem_smallBytes heven, Option.map_some]
      dsimp only
      rw [length_slice, Nat.sub_sub_self (by omega), hn]

/-- What `AddBig` and `AddSmall` write and when `ReadItems` reads it back. A number is always read
back from as many bytes as `GetUleb128Size` says. -/
theorem items_read_back (pool : Pool) (m : PacketMetadata) :
    (∀ next prev item extraItem m' n, m.addBig pool next prev item extraItem = some (m', n) →
      (ReadsBack m' m.used { item with
          next := next.toUInt16, prev := prev.toUInt16, typeUid := item.typeUid ||| 1 }
          extraItem n ↔
        (extraItem.packetUid.toNat < 2 ^ 31 ∨ 2 ^ 64 - 2 ^ 31 ≤ extraItem.packetUid.toNat) ∧
          m.used.toNat + n ≤ m'.data.size)) ∧
    (∀ item m' n, m.addSmall pool item = some (m', n) →
      (ReadsBack m' m.used item ⟨0, item.size, m.packetUid⟩ n ↔
        item.typeUid &&& 1 ≠ 1 ∧ m.used.toNat + n ≤ m'.data.size)) ∧
    (∀ value rest, (appendValue value).length = getUleb128Size value ∧
      readUleb128 (appendValue value ++ rest) = some (value, rest)) :=
  ⟨fun _ _ _ _ _ _ hadd => addBig_readsBack_iff hadd, fun _ _ _ hadd => addSmall_readsBack_iff hadd,
    fun value rest => ⟨length_appendValue value, readUleb128_appendValue value rest⟩⟩

/-- An empty list in 64 bytes. -/
def emptyList : PacketMetadata := ⟨⟨1, 64, 0, fun _ => 0⟩, 0xffff, 0xffff, 0, 3⟩

/-- A header of 20 bytes. -/
def headerItem : SmallItem := ⟨0xffff, 0xffff, 24, 20, 7⟩

/-- The first item of an empty list, of either kind. -/
theorem items_read_back_first :
    (∃ m' n, ReadsBack m' 0 { headerItem with typeUid := 25 } ⟨2, 20, 0x7fffffff⟩ n) ∧
      (∃ m' n, ReadsBack m' 0 headerItem ⟨0, 20, 3⟩ n) ∧
        readUleb128 (appendValue 300 ++ [1]) = some (300, [1]) :=
  have hall := items_read_back ⟨0, [], fun _ => 0⟩ emptyList
  ⟨⟨_, _, (hall.1 0xffff 0xffff headerItem ⟨2, 20, 0x7fffffff⟩ _ _ rfl).mpr (by decide)⟩,
    ⟨_, _, (hall.2.1 headerItem _ _ rfl).mpr (by decide)⟩, (hall.2.2 300 [1]).2⟩

/-- The uid 2^31 is not read back. -/
theorem packetUid_not_read_back :
    ∃ m' n, emptyList.addBig ⟨0, [], fun _ => 0⟩ 0xffff 0xffff headerItem ⟨2, 20, 0x80000000⟩ =
        some (m', n) ∧
      ¬ ReadsBack m' 0 { headerItem with typeUid := 25 } ⟨2, 20, 0x80000000⟩ n := by
  obtain ⟨m', n, hadd⟩ : ∃ m' n, emptyList.addBig ⟨0, [], fun _ => 0⟩ 0xffff 0xffff headerItem
      ⟨2, 20, 0x80000000⟩ = some (m', n) := ⟨_, _, rfl⟩
  refine ⟨m', n, hadd, fun hread => ?_⟩
  have huid := ((addBig_readsBack_iff hadd).mp hread).1
  exact absurd huid (by decide)

end PacketMetadata

end Ns3Rdma
