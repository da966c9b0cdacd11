import Ns3Rdma.Lib.Word
import Ns3Rdma.Tcp.RxBuffer

/-! # The TCP transmit buffer

The data that the application has sent and the peer has not acknowledged, as a list of packets. -/

namespace Ns3Rdma

structure TcpTxBuffer where
  firstByteSeq : SequenceNumber32
  size : UInt32
  maxBuffer : UInt32
  data : List Payload

namespace TcpTxBuffer

/-- An empty buffer whose next byte has the number `seq`. -/
def init (seq : SequenceNumber32) (maxBuffer : UInt32) : TcpTxBuffer where
  firstByteSeq := seq
  size := 0
  maxBuffer := maxBuffer
  data := []

def headSequence (b : TcpTxBuffer) : SequenceNumber32 := b.firstByteSeq

def tailSequence (b : TcpTxBuffer) : SequenceNumber32 := b.firstByteSeq + b.size

def available (b : TcpTxBuffer) : UInt32 := b.maxBuffer - b.size

def add (b : TcpTxBuffer) (p : Payload) : TcpTxBuffer × Bool :=
  if p.getSize ≤ b.available then
    if 0 < p.getSize then
      ({ b with data := b.data ++ [p], size := b.size + p.getSize }, true)
    else (b, true)
  else (b, false)

def sizeFromSequence (b : TcpTxBuffer) (seq : SequenceNumber32) : UInt32 :=
  (b.tailSequence - seq).toUInt32

/-- The loop of `CopyFromSequence` once the first fragment is found. -/
def copyRest (offset s count : UInt32) (outPacket : Payload) : List Payload → Option Payload
  | [] => some outPacket
  | p :: rest =>
      if offset + s ≤ count + p.getSize then
        (p.createFragment 0 (offset + s - count)).map fun endFragment => outPacket ++ endFragment
      else copyRest offset s (count + p.getSize) (outPacket ++ p) rest

/-- The loop of `CopyFromSequence` that looks for the first fragment. Without one `outPacket` is
null. -/
def copyFirst (offset s count : UInt32) : List Payload → Option Payload
  | [] => none
  | p :: rest =>
      if offset < count + p.getSize then
        let packetOffset := offset - count
        let fragmentLength := count + p.getSize - offset
        if s ≤ fragmentLength then p.createFragment packetOffset s
        else
          ((p.createFragment packetOffset fragmentLength).bind fun outPacket =>
            copyRest offset s (count + p.getSize) outPacket rest).filter
              fun outPacket => outPacket.getSize = s
      else copyFirst offset s (count + p.getSize) rest

/-- `CopyFromSequence (numBytes, seq)`, or `none` when an assertion fails. -/
def copyFromSequence (b : TcpTxBuffer) (numBytes : UInt32) (seq : SequenceNumber32) :
    Option Payload :=
  let s := min numBytes (b.sizeFromSequence seq)
  if s = 0 then some []
  else if b.data = [] then some (List.replicate s.toNat 0)
  else copyFirst (seq - b.firstByteSeq).toUInt32 s 0 b.data

/-- The loop of `DiscardUpTo`. With nothing left to discard the iterator does not advance and the
loop does not end, which is `none`. -/
def discardLoop (firstByteSeq : SequenceNumber32) (size offset : UInt32) :
    List Payload → Option (SequenceNumber32 × UInt32 × List Payload)
  | [] => some (firstByteSeq, size, [])
  | p :: rest =>
      if p.getSize < offset then
        discardLoop (firstByteSeq + p.getSize) (size - p.getSize) (offset - p.getSize) rest
      else if 0 < offset then
        (p.createFragment offset (p.getSize - offset)).map fun left =>
          (firstByteSeq + offset, size - offset, left :: rest)
      else none

/-- `DiscardUpTo (seq)`, or `none` when it does not end or its assertion fails. -/
def discardUpTo (b : TcpTxBuffer) (seq : SequenceNumber32) : Option TcpTxBuffer :=
  if seq ≤ b.firstByteSeq then some b
  else
    (discardLoop b.firstByteSeq b.size (seq - b.firstByteSeq).toUInt32 b.data).bind fun r =>
      let firstByteSeq := if r.2.1 = 0 then seq else r.1
      if firstByteSeq = seq then
        some { b with firstByteSeq := firstByteSeq, size := r.2.1, data := r.2.2 }
      else none

variable {p outPacket : Payload} {data : List Payload} {offset s count size : UInt32}

/-! ## The copying loops -/

/-- The loop completes the copy with the bytes of the following packets. -/
theorem copyRest_spec (hcount : count.toNat ≤ offset.toNat + s.toNat)
    (hend : offset.toNat + s.toNat ≤ count.toNat + data.flatten.length)
    (hsmall : count.toNat + data.flatten.length < 2 ^ 32) :
    copyRest offset s count outPacket data =
      some (outPacket ++ data.flatten.take (offset.toNat + s.toNat - count.toNat)) := by
  induction data generalizing count outPacket with
  | nil =>
      rw [copyRest, List.flatten_nil, List.take_nil, List.append_nil]
  | cons p rest ih =>
      rw [List.flatten_cons, List.length_append] at hend hsmall
      have hp : p.length < 2 ^ 32 := by omega
      have hend' : (offset + s).toNat = offset.toNat + s.toNat :=
        UInt32.toNat_add_of_lt (by omega)
      have hgrown : (count + p.getSize).toNat = count.toNat + p.length := by
        rw [UInt32.toNat_add_of_lt, Payload.toNat_getSize hp]
        rw [Payload.toNat_getSize hp]
        omega
      have hlast : (offset + s - count).toNat = offset.toNat + s.toNat - count.toNat := by
        rw [UInt32.toNat_sub_of_toNat_le, hend']
        rw [hend']
        exact hcount
      have hcmp : offset + s ≤ count + p.getSize ↔
          offset.toNat + s.toNat ≤ count.toNat + p.length := by
        rw [UInt32.le_iff_toNat_le, hend', hgrown]
      rw [copyRest, List.flatten_cons]
      by_cases hfits : offset.toNat + s.toNat ≤ count.toNat + p.length
      · rw [if_pos (hcmp.mpr hfits),
          Payload.createFragment_eq hp (by rw [hlast, UInt32.toNat_zero]; omega), hlast,
          UInt32.toNat_zero, List.drop_zero, List.take_append_of_le_length (by omega)]
        rfl
      · rw [if_neg (mt hcmp.mp hfits), ih (by omega) (by omega) (by omega), hgrown, List.append_assoc,
          List.take_append, List.take_of_length_le (show p.length ≤ _ by omega)]
        congr 4
        omega

/-- The loops copy `s` bytes behind the first `offset` ones. -/
theorem copyFirst_spec (hcount : count.toNat ≤ offset.toNat) (hs : 0 < s.toNat)
    (hend : offset.toNat + s.toNat ≤ count.toNat + data.flatten.length)
    (hsmall : count.toNat + data.flatten.length < 2 ^ 32) :
    copyFirst offset s count data =
      some ((data.flatten.drop (offset.toNat - count.toNat)).take s.toNat) := by
  induction data generalizing count with
  | nil =>
      rw [List.flatten_nil, List.length_nil] at hend
      omega
  | cons p rest ih =>
      rw [List.flatten_cons, List.length_append] at hend hsmall
      have hp : p.length < 2 ^ 32 := by omega
      have hgrown : (count + p.getSize).toNat = count.toNat + p.length := by
        rw [UInt32.toNat_add_of_lt, Payload.toNat_getSize hp]
        rw [Payload.toNat_getSize hp]
        omega
      have hskip : (offset - count).toNat = offset.toNat - count.toNat :=
        UInt32.toNat_sub_of_toNat_le hcount
      have hcmp : offset < count + p.getSize ↔ offset.toNat < count.toNat + p.length := by
        rw [UInt32.lt_iff_toNat_lt, hgrown]
      rw [copyFirst, List.flatten_cons]
      by_cases hfound : offset.toNat < count.toNat + p.length
      · have hlength : (count + p.getSize - offset).toNat =
            count.toNat + p.length - offset.toNat := by
          rw [UInt32.toNat_sub_of_toNat_le, hgrown]
          rw [hgrown]
          omega
        have hcmp' : s ≤ count + p.getSize - offset ↔
            s.toNat ≤ count.toNat + p.length - offset.toNat := by
          rw [UInt32.le_iff_toNat_le, hlength]
        rw [if_pos (hcmp.mpr hfound), List.drop_append_of_le_length (by omega)]
        dsimp only
        by_cases hinside : s.toNat ≤ count.toNat + p.length - offset.toNat
        · rw [if_pos (hcmp'.mpr hinside), Payload.createFragment_eq hp (by omega), hskip,
            List.take_append_of_le_length (by rw [List.length_drop]; omega)]
        · have hwhole : (p.drop (offset.toNat - count.toNat)).take
              (count.toNat + p.length - offset.toNat) = p.drop (offset.toNat - count.toNat) :=
            List.take_of_length_le (by rw [List.length_drop]; omega)
          rw [if_neg (mt hcmp'.mp hinside), Payload.createFragment_eq hp (by omega),
            Option.bind_some, hskip, hlength, hwhole, copyRest_spec (by omega) (by omega) (by omega),
            hgrown]
          have hsplit : p.drop (offset.toNat - count.toNat) ++
              rest.flatten.take (offset.toNat + s.toNat - (count.toNat + p.length)) =
                (p.drop (offset.toNat - count.toNat) ++ rest.flatten).take s.toNat := by
            have hshort : (p.drop (offset.toNat - count.toNat)).length ≤ s.toNat := by
              rw [List.length_drop]
              omega
            rw [List.take_append, List.take_of_length_le hshort, List.length_drop]
            congr 2
            omega
          rw [hsplit, Option.filter_some_pos]
          apply decide_eq_true
          apply UInt32.toNat_inj.mp
          rw [Payload.toNat_getSize]
          · rw [List.length_take, List.length_append, List.length_drop]
            omega
          · rw [List.length_take, List.length_append, List.length_drop]
            omega
      · rw [if_neg (mt hcmp.mp hfound), ih (by omega) (by omega) (by omega), hgrown, List.drop_append,
          List.drop_of_length_le (show p.length ≤ _ by omega), List.nil_append]
        congr 3
        omega

/-! ## The discarding loop -/

/-- The loop ends and has discarded the first bytes, as many as there are. -/
theorem discardLoop_spec (seq : SequenceNumber32) (hoffset : 0 < offset.toNat)
    (hsize : size.toNat = data.flatten.length) :
    ∃ k size' data', discardLoop seq size offset data = some (seq.plus k, size', data') ∧
      k = min offset.toNat size.toNat ∧ size'.toNat = size.toNat - k ∧
      data'.flatten = data.flatten.drop k := by
  induction data generalizing seq size offset with
  | nil =>
      refine ⟨0, size, [], ?_, ?_, rfl, rfl⟩
      · rw [SequenceNumber32.plus_zero]
        rfl
      · rw [hsize, List.flatten_nil, List.length_nil, Nat.min_zero]
  | cons p rest ih =>
      have hall := size.toNat_lt
      rw [List.flatten_cons, List.length_append] at hsize
      have hp := Payload.toNat_getSize (p := p) (by omega)
      have hcmp : p.getSize < offset ↔ p.length < offset.toNat := by
        rw [UInt32.lt_iff_toNat_lt, hp]
      rw [discardLoop, List.flatten_cons]
      by_cases hbehind : p.length < offset.toNat
      · have hoffset' : (offset - p.getSize).toNat = offset.toNat - p.length := by
          rw [UInt32.toNat_sub_of_toNat_le (by omega), hp]
        have hsize' : (size - p.getSize).toNat = size.toNat - p.length := by
          rw [UInt32.toNat_sub_of_toNat_le (by omega), hp]
        have hpos : 0 < (offset - p.getSize).toNat := by omega
        have hbehindSize : (size - p.getSize).toNat = rest.flatten.length := by omega
        obtain ⟨k, size', data', hloop, hk, hleft, hdata⟩ :=
          ih (seq + p.getSize) hpos hbehindSize
        rw [if_pos (hcmp.mpr hbehind), hloop]
        refine ⟨p.length + k, size', data', ?_, by omega, by omega, ?_⟩
        · rw [SequenceNumber32.add_eq_plus, SequenceNumber32.plus_plus, hp]
        · rw [hdata, List.drop_length_add_append]
      · have hremains : (p.getSize - offset).toNat = p.length - offset.toNat := by
          rw [UInt32.toNat_sub_of_toNat_le (by omega), hp]
        have hpos : 0 < offset := by
          rw [UInt32.lt_iff_toNat_lt, UInt32.toNat_zero]
          exact hoffset
        rw [if_neg (mt hcmp.mp hbehind), if_pos hpos,
          Payload.createFragment_eq (by omega) (by omega), SequenceNumber32.add_eq_plus]
        refine ⟨offset.toNat, size - offset, p.drop offset.toNat :: rest, ?_, by omega, ?_, ?_⟩
        · have hshort : (p.drop offset.toNat).length ≤ p.length - offset.toNat :=
            List.length_drop.le
          rw [hremains, List.take_of_length_le hshort]
          rfl
        · rw [UInt32.toNat_sub_of_toNat_le (by omega)]
        · rw [List.flatten_cons, List.drop_append_of_le_length (by omega)]

end TcpTxBuffer

end Ns3Rdma
