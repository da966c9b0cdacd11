import Ns3Rdma.Buffer.View
import Ns3Rdma.Lib.Word

/-! # Reads in network order

`ReadNtohU16` and `ReadNtohU32` read several bytes at once where they lie in one piece. Behind the
zero area they use the virtual offset as an offset into the memory, where `ReadU8` subtracts the
size of the zero area. -/

namespace Ns3Rdma

open Memory

namespace Buffer

namespace Iterator

/-- One byte of the memory. -/
def byteAt (i : Iterator) (h : BufferHeap) (offset : UInt32) : Option UInt8 :=
  (h.read i.data offset.toNat 1).bind List.head?

/-- `ReadU8`. The assertion lets the end of the data pass. -/
def readU8 (i : Iterator) (h : BufferHeap) : Option (UInt8 × Iterator) :=
  if i.dataStart ≤ i.current ∧ i.current ≤ i.dataEnd then
    let byte :=
      if i.current < i.zeroStart then i.byteAt h i.current
      else if i.current < i.zeroEnd then some 0
      else i.byteAt h (i.current - (i.zeroEnd - i.zeroStart))
    byte.map fun byte => (byte, { i with current := i.current + 1 })
  else none

/-- Bytes read one by one. -/
def readU8s (i : Iterator) (h : BufferHeap) : ℕ → Option (List UInt8 × Iterator)
  | 0 => some ([], i)
  | n + 1 =>
      (i.readU8 h).bind fun (byte, next) =>
        (next.readU8s h n).map fun (bytes, last) => (byte :: bytes, last)

/-- `retval <<= 8; retval |= byte` for each byte, in a word of `width` bits. -/
def retval (width : ℕ) (bytes : List UInt8) : ℕ :=
  bytes.foldl (fun retval byte => (retval <<< 8) % 2 ^ width ||| byte.toNat) 0

/-- The reads of a word of `n` bytes in network order, fast or slow. -/
def readNtoh (n : ℕ) (i : Iterator) (h : BufferHeap) : Option (ℕ × Iterator) :=
  if i.current + UInt32.ofNat n ≤ i.zeroStart ∨ i.zeroEnd ≤ i.current then
    (h.read i.data i.current.toNat n).map fun buffer =>
      (retval (8 * n) buffer, { i with current := i.current + UInt32.ofNat n })
  else (i.readU8s h n).map fun (bytes, last) => (retval (8 * n) bytes, last)

def readNtohU16 : Iterator → BufferHeap → Option (ℕ × Iterator) := readNtoh 2

def readNtohU32 : Iterator → BufferHeap → Option (ℕ × Iterator) := readNtoh 4

end Iterator

/-- The iterator at a virtual offset. -/
def iteratorAt (b : Buffer) (v : UInt32) : Iterator := { b.begin with current := v }

/-! ## The value of a word -/

/-- The value of bytes in network order. -/
def bigEndian (bytes : List UInt8) : ℕ := bytes.foldl (fun value byte => 256 * value + byte.toNat) 0

theorem foldl_retval {width : ℕ} {bytes : List UInt8} {value : ℕ}
    (hvalue : value < 2 ^ (width - 8 * bytes.length)) (hwidth : 8 * bytes.length ≤ width) :
    bytes.foldl (fun retval byte => (retval <<< 8) % 2 ^ width ||| byte.toNat) value =
      bytes.foldl (fun value byte => 256 * value + byte.toNat) value := by
  induction bytes generalizing value with
  | nil => rfl
  | cons byte rest ih =>
      rw [List.length_cons] at hvalue hwidth
      have hbyte : byte.toNat < 2 ^ 8 := byte.toNat_lt
      have hnext : 256 * value + byte.toNat < 2 ^ (width - 8 * rest.length) := by
        have hsplit : width - 8 * rest.length = width - 8 * (rest.length + 1) + 8 := by omega
        rw [hsplit, Nat.pow_add]
        omega
      have hor : (value <<< 8) % 2 ^ width ||| byte.toNat = 256 * value + byte.toNat := by
        have hle : 2 ^ (width - 8 * rest.length) ≤ 2 ^ width :=
          Nat.pow_le_pow_right (by decide) (Nat.sub_le _ _)
        rw [Word.shiftLeft_mod_or (by omega) hbyte, Nat.mul_comm]
        rfl
      rw [List.foldl_cons, List.foldl_cons, hor]
      exact ih hnext (by omega)

/-- No bit is lost. -/
theorem retval_eq {n : ℕ} {bytes : List UInt8} (hlength : bytes.length = n) :
    Iterator.retval (8 * n) bytes = bigEndian bytes := by
  apply foldl_retval
  · exact Nat.two_pow_pos _
  · rw [hlength]

theorem foldl_bigEndian_inj {first second : List UInt8} (hlength : first.length = second.length)
    {a b : ℕ} (h : first.foldl (fun value byte => 256 * value + byte.toNat) a =
      second.foldl (fun value byte => 256 * value + byte.toNat) b) : a = b ∧ first = second := by
  induction first generalizing second a b with
  | nil =>
      obtain rfl := List.length_eq_zero_iff.mp hlength.symm
      exact ⟨h, rfl⟩
  | cons byte rest ih =>
      cases second with
      | nil => cases hlength
      | cons other others =>
          obtain ⟨hvalue, hrest⟩ := ih (Nat.succ.inj hlength) h
          have hvalue : 256 * a + byte.toNat = 256 * b + other.toNat := hvalue
          have hbyte : byte.toNat < 256 := byte.toNat_lt
          have hother : other.toNat < 256 := other.toNat_lt
          have hequal : byte = other := UInt8.toNat.inj (by omega)
          exact ⟨by omega, by rw [hequal, hrest]⟩

/-- Words of one length have the same value only if their bytes are the same. -/
theorem bigEndian_inj {first second : List UInt8} (hlength : first.length = second.length) :
    bigEndian first = bigEndian second ↔ first = second :=
  ⟨fun h => (foldl_bigEndian_inj hlength h).2, fun h => by rw [h]⟩

/-! ## Both readers -/

variable {h : BufferHeap} {b : Buffer}

/-- The bytes of the buffer lie in its `Data` object. -/
structure Allocated (h : BufferHeap) (b : Buffer) : Prop extends b.Ordered where
  realEnd_le : b.realEnd ≤ (h.data b.data).size.toNat

/-- A read of allocated bytes. -/
theorem read_eq {id off n : ℕ} (hsize : off + n ≤ (h.data id).size.toNat) :
    h.read id off n = some (slice (h.data id).bytes off n) := by
  rw [BufferHeap.read, if_pos (Or.inr hsize)]

theorem readU8_eq (hb : Allocated h b) {v : UInt32} (hstart : b.start.toNat ≤ v.toNat)
    (hend : v.toNat < b.end'.toNat) :
    (b.iteratorAt v).readU8 h =
      some (b.virtualByte (h.data b.data).bytes v.toNat, b.iteratorAt (v + 1)) := by
  have hsize := hb.realEnd_le
  have hzero := hb.zeroArea_le
  have hle := hb.le_end
  rw [realEnd] at hsize
  have hbyte : ∀ off : UInt32, off.toNat + 1 ≤ (h.data b.data).size.toNat →
      (b.iteratorAt v).byteAt h off = some ((h.data b.data).bytes off.toNat) := by
    intro off hoff
    rw [Iterator.byteAt]
    change (h.read b.data off.toNat 1).bind List.head? = _
    rw [read_eq hoff]
    rfl
  have hin : b.start ≤ v ∧ v ≤ b.end' :=
    ⟨UInt32.le_iff_toNat_le.mpr hstart, UInt32.le_iff_toNat_le.mpr hend.le⟩
  unfold Iterator.readU8
  change (if b.start ≤ v ∧ v ≤ b.end' then _ else none) = _
  rw [if_pos hin, virtualByte]
  dsimp only [iteratorAt, begin]
  simp only [UInt32.lt_iff_toNat_lt]
  split
  next hlow =>
    have hplace := hbyte v (by omega)
    dsimp only [iteratorAt, begin] at hplace
    rw [hplace]
    rfl
  next hlow =>
    split
    next hinside => rfl
    next hbehind =>
      have hdiff : (b.zeroAreaEnd - b.zeroAreaStart).toNat =
          b.zeroAreaEnd.toNat - b.zeroAreaStart.toNat := UInt32.toNat_sub_of_toNat_le hzero
      have hreal : (v - (b.zeroAreaEnd - b.zeroAreaStart)).toNat =
          v.toNat - (b.zeroAreaEnd.toNat - b.zeroAreaStart.toNat) := by
        rw [UInt32.toNat_sub_of_toNat_le (by omega), hdiff]
      have hplace := hbyte (v - (b.zeroAreaEnd - b.zeroAreaStart)) (by omega)
      dsimp only [iteratorAt, begin] at hplace
      rw [hplace, hreal]
      rfl

/-- `ReadU8` delivers the bytes of the buffer one by one. -/
theorem readU8s_eq (hb : Allocated h b) {n : ℕ} {v : UInt32} (hstart : b.start.toNat ≤ v.toNat)
    (hend : v.toNat + n ≤ b.end'.toNat) :
    (b.iteratorAt v).readU8s h n =
      some (slice (b.virtualByte (h.data b.data).bytes) v.toNat n,
        b.iteratorAt (v + UInt32.ofNat n)) := by
  induction n generalizing v with
  | zero =>
      have hzero : v + UInt32.ofNat 0 = v := by simp
      rw [Iterator.readU8s, hzero]
      rfl
  | succ n ih =>
      have hbound := b.end'.toNat_lt
      have hnext : (v + 1).toNat = v.toNat + 1 := UInt32.toNat_add_of_lt (by
        change v.toNat + 1 < 2 ^ 32
        omega)
      have hlast : v + 1 + UInt32.ofNat n = v + UInt32.ofNat (n + 1) := by
        rw [UInt32.ofNat_add, add_assoc, add_comm 1]
        rfl
      rw [Iterator.readU8s, readU8_eq hb hstart (by omega), Option.bind_some]
      dsimp only
      rw [ih (by omega) (by omega), Option.map_some, hnext, hlast, Nat.add_comm n,
        ← slice_append]
      rfl

/-- The word is the big-endian value of the bytes that `ReadU8` delivers, and the iterators
end at one place. -/
def ReadsNext (h : BufferHeap) (i : Iterator) (n : ℕ) (word : Option (ℕ × Iterator)) : Prop :=
  ∃ bytes last, i.readU8s h n = some (bytes, last) ∧ word = some (bigEndian bytes, last)

/-- Behind a zero area that is not empty, the memory must hold the same bytes further on. -/
def Repeats (h : BufferHeap) (b : Buffer) (v n : ℕ) : Prop :=
  b.zeroAreaEnd.toNat ≤ v → h.read b.data v n =
    h.read b.data (v - (b.zeroAreaEnd.toNat - b.zeroAreaStart.toNat)) n

theorem length_of_read {id off n : ℕ} {bytes : List UInt8} (hread : h.read id off n = some bytes) :
    bytes.length = n := by
  rw [BufferHeap.read] at hread
  split at hread
  · obtain rfl := Option.some.inj hread
    exact length_slice _ _ _
  · cases hread

/-- Before the zero area the virtual bytes lie at their own offsets. -/
theorem slice_virtualByte_before (bytes : ℕ → UInt8) {v n : ℕ}
    (hbefore : v + n ≤ b.zeroAreaStart.toNat) :
    slice (b.virtualByte bytes) v n = slice bytes v n := by
  apply slice_congr
  intro k hk
  rw [virtualByte, if_pos (by omega)]

/-- Behind the zero area they lie nearer to the start, by the size of the area. -/
theorem slice_virtualByte_behind (hordered : b.Ordered) (bytes : ℕ → UInt8) {v : ℕ} (n : ℕ)
    (hbehind : b.zeroAreaEnd.toNat ≤ v) : slice (b.virtualByte bytes) v n =
      slice bytes (v - (b.zeroAreaEnd.toNat - b.zeroAreaStart.toNat)) n := by
  have hzero := hordered.zeroArea_le
  apply slice_congr
  intro k hk
  rw [virtualByte, if_neg (by omega), if_neg (by omega)]
  congr 1
  omega

/-- A fast read takes the word of the memory at the virtual offset. -/
theorem fastRead_iff (hb : Allocated h b) {v n : ℕ} {last : Iterator}
    (hend : v + n ≤ b.end'.toNat)
    (hfast : v + n ≤ b.zeroAreaStart.toNat ∨ b.zeroAreaEnd.toNat ≤ v) :
    (h.read b.data v n).map (fun buffer => (Iterator.retval (8 * n) buffer, last)) =
        some (bigEndian (slice (b.virtualByte (h.data b.data).bytes) v n), last) ↔
      Repeats h b v n := by
  have hsize := hb.realEnd_le
  have hzero := hb.zeroArea_le
  have hle := hb.le_end
  rw [realEnd] at hsize
  by_cases hbehind : b.zeroAreaEnd.toNat ≤ v
  · rw [Repeats, slice_virtualByte_behind hb.toOrdered _ n hbehind,
      read_eq (show v - (b.zeroAreaEnd.toNat - b.zeroAreaStart.toNat) + n ≤ _ by omega)]
    simp only [hbehind, forall_const]
    cases hread : h.read b.data v n with
    | none => simp
    | some buffer =>
        have hbuffer := length_of_read hread
        rw [Option.map_some, retval_eq hbuffer, Option.some.injEq, Option.some.injEq,
          Prod.mk.injEq, bigEndian_inj (hbuffer.trans (length_slice _ _ _).symm)]
        exact and_iff_left rfl
  · have hbefore := hfast.resolve_right hbehind
    rw [read_eq (by omega), Option.map_some, slice_virtualByte_before _ hbefore,
      retval_eq (length_slice _ _ _)]
    exact iff_of_true rfl fun h => absurd h hbehind

theorem readNtoh_iff (hb : Allocated h b) {n : ℕ} {v : UInt32}
    (hstart : b.start.toNat ≤ v.toNat) (hend : v.toNat + n ≤ b.end'.toNat) :
    ReadsNext h (b.iteratorAt v) n ((b.iteratorAt v).readNtoh n h) ↔ Repeats h b v.toNat n := by
  have hslow := readU8s_eq hb hstart hend
  have hbound := b.end'.toNat_lt
  have hcount : (UInt32.ofNat n).toNat = n := UInt32.toNat_ofNat_of_lt (by
    change n < 2 ^ 32
    omega)
  have hsum : (v + UInt32.ofNat n).toNat = v.toNat + n := by
    rw [UInt32.toNat_add_of_lt (by omega), hcount]
  have hreads : ReadsNext h (b.iteratorAt v) n ((b.iteratorAt v).readNtoh n h) ↔
      (b.iteratorAt v).readNtoh n h =
        some (bigEndian (slice (b.virtualByte (h.data b.data).bytes) v.toNat n),
          b.iteratorAt (v + UInt32.ofNat n)) := by
    rw [ReadsNext, hslow]
    simp
  rw [hreads, Iterator.readNtoh]
  change (if v + UInt32.ofNat n ≤ b.zeroAreaStart ∨ b.zeroAreaEnd ≤ v then
    (h.read b.data v.toNat n).map _ else _) = _ ↔ _
  split
  next hfast =>
    rw [UInt32.le_iff_toNat_le, UInt32.le_iff_toNat_le, hsum] at hfast
    exact fastRead_iff hb hend hfast
  next hfast =>
    rw [UInt32.le_iff_toNat_le, UInt32.le_iff_toNat_le, hsum, not_or] at hfast
    rw [hslow, Option.map_some]
    dsimp only
    rw [retval_eq (length_slice _ _ _)]
    exact iff_of_true rfl fun h => absurd h hfast.2

/-- Both reads deliver the next bytes exactly where the position lies before the end of the zero
area, or the memory repeats the bytes further on, as it does if the zero area is empty. -/
theorem readNtohU16_readNtohU32_iff (h : BufferHeap) (b : Buffer) (hb : Allocated h b)
    (v : UInt32) (hstart : b.start.toNat ≤ v.toNat) :
    (v.toNat + 2 ≤ b.end'.toNat →
      (ReadsNext h (b.iteratorAt v) 2 ((b.iteratorAt v).readNtohU16 h) ↔ Repeats h b v.toNat 2)) ∧
    (v.toNat + 4 ≤ b.end'.toNat →
      (ReadsNext h (b.iteratorAt v) 4 ((b.iteratorAt v).readNtohU32 h) ↔ Repeats h b v.toNat 4)) :=
  ⟨readNtoh_iff hb hstart, readNtoh_iff hb hstart⟩

/-- Memory that counts its offsets. -/
def countingHeap : BufferHeap where
  data := fun _ => ⟨1, 16, 0, 24, UInt8.ofNat⟩
  next := 1
  recommendedStart := 0

/-- Four bytes, eight zeros, and eight bytes. -/
def zeroAreaBuffer : Buffer := ⟨0, 4, 4, 12, 0, 20⟩

theorem zeroAreaBuffer_allocated : Allocated countingHeap zeroAreaBuffer where
  start_le := by decide
  zeroArea_le := by decide
  le_end := by decide
  realEnd_le := by decide

/-- Across the start of the zero area both words are right. -/
theorem readNtohU16_readNtohU32_across :
    ReadsNext countingHeap (zeroAreaBuffer.iteratorAt 3) 2
        ((zeroAreaBuffer.iteratorAt 3).readNtohU16 countingHeap) ∧
      ReadsNext countingHeap (zeroAreaBuffer.iteratorAt 3) 4
        ((zeroAreaBuffer.iteratorAt 3).readNtohU32 countingHeap) := by
  have hagree := readNtohU16_readNtohU32_iff countingHeap zeroAreaBuffer zeroAreaBuffer_allocated 3
    (by decide)
  have hnotBehind : ¬ zeroAreaBuffer.zeroAreaEnd.toNat ≤ (3 : UInt32).toNat := by decide
  exact ⟨(hagree.1 (by decide)).mpr fun h => absurd h hnotBehind,
    (hagree.2 (by decide)).mpr fun h => absurd h hnotBehind⟩

/-- Behind the zero area the words are those eight bytes further on. -/
theorem readNtohU16_behind :
    ¬ ReadsNext countingHeap (zeroAreaBuffer.iteratorAt 12) 2
        ((zeroAreaBuffer.iteratorAt 12).readNtohU16 countingHeap) := by
  rintro ⟨bytes, last, hslow, hfast⟩
  have hbytes : (zeroAreaBuffer.iteratorAt 12).readU8s countingHeap 2 =
      some ([4, 5], zeroAreaBuffer.iteratorAt 14) := rfl
  have hword : (zeroAreaBuffer.iteratorAt 12).readNtohU16 countingHeap =
      some (12 * 256 + 13, zeroAreaBuffer.iteratorAt 14) := rfl
  rw [hbytes, Option.some.injEq, Prod.mk.injEq] at hslow
  rw [hword, ← hslow.1, Option.some.injEq, Prod.mk.injEq] at hfast
  exact absurd hfast.1 (by decide)

end Buffer

end Ns3Rdma
