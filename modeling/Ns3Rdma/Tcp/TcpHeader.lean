import Ns3Rdma.Lib.StepSystem
import Ns3Rdma.Tcp.TcpOption

/-! # TCP headers

What the setters and `AppendOption` build, and how it is written and read. The options are read as
long as a counter that starts with what the data offset announces is not zero. -/

namespace Ns3Rdma.TcpWire

open StepSystem Writer Reader

/-! ## Building -/

structure TcpHeader where
  sourcePort : UInt16
  destinationPort : UInt16
  sequenceNumber : SequenceNumber32
  ackNumber : SequenceNumber32
  length : UInt8
  flags : UInt16
  windowSize : UInt16
  urgentPointer : UInt16
  calcChecksum : Bool
  goodChecksum : Bool
  options : List TcpOption
deriving DecidableEq

namespace TcpHeader

def create : TcpHeader where
  sourcePort := 0
  destinationPort := 0
  sequenceNumber := ⟨0⟩
  ackNumber := ⟨0⟩
  length := 5
  flags := 0
  windowSize := 0xffff
  urgentPointer := 0
  calcChecksum := false
  goodChecksum := true
  options := []

inductive Call where
  | enableChecksums
  | setSourcePort (port : UInt16)
  | setDestinationPort (port : UInt16)
  | setSequenceNumber (sequenceNumber : SequenceNumber32)
  | setAckNumber (ackNumber : SequenceNumber32)
  | setLength (length : UInt8)
  | setFlags (flags : UInt16)
  | setWindowSize (windowSize : UInt16)
  | setUrgentPointer (urgentPointer : UInt16)
  | appendOption (option : TcpOption)

/-- The bytes of the options. -/
def totalLen (options : List TcpOption) : ℕ := (options.map TcpOption.getSerializedSize).sum

/-- The bytes that `totalLen` lacks to a multiple of four. -/
def padding (totalLen : ℕ) : ℕ := (4 - totalLen % 4) % 4

/-- The data offset of a header with the options. -/
def lengthOf (options : List TcpOption) : UInt8 :=
  UInt8.ofNat ((totalLen options + padding (totalLen options) + 20) / 4)

/-- `AppendOption`. An end of the list is not kept. -/
def appendOption (h : TcpHeader) (option : TcpOption) : Option TcpHeader :=
  let options :=
    if option.getKind ≠ .endOfOptionList then h.options ++ [option] else h.options
  if totalLen options ≤ 40 then some { h with options := options, length := lengthOf options }
  else none

def call (h : TcpHeader) : Call → Option TcpHeader
  | .enableChecksums => some { h with calcChecksum := true }
  | .setSourcePort port => some { h with sourcePort := port }
  | .setDestinationPort port => some { h with destinationPort := port }
  | .setSequenceNumber sequenceNumber => some { h with sequenceNumber := sequenceNumber }
  | .setAckNumber ackNumber => some { h with ackNumber := ackNumber }
  | .setLength length => some { h with length := length }
  | .setFlags flags => some { h with flags := flags }
  | .setWindowSize windowSize => some { h with windowSize := windowSize }
  | .setUrgentPointer urgentPointer => some { h with urgentPointer := urgentPointer }
  | .appendOption option => h.appendOption option

/-! ## Writing -/

def getSerializedSize (h : TcpHeader) : ℕ := 4 * h.length.toNat

/-- The 20 bytes before the options. -/
def fields (h : TcpHeader) : List UInt8 :=
  htonU16 h.sourcePort ++ htonU16 h.destinationPort ++ htonU32 h.sequenceNumber.value ++
    htonU32 h.ackNumber.value ++ htonU16 (h.length.toUInt16 <<< 12 ||| h.flags) ++
    htonU16 h.windowSize ++ htonU16 0 ++ htonU16 h.urgentPointer

/-- `Serialize`. `checksum` is the one that is computed over the buffer, if it is. -/
def serialize (checksum : UInt16) (h : TcpHeader) : List UInt8 :=
  let bytes := h.fields ++ h.options.flatMap TcpOption.serialize ++
    (List.replicate (padding (totalLen h.options)) TcpOption.noOp).flatMap TcpOption.serialize
  if h.calcChecksum then
    bytes.take 16 ++ [checksum.toUInt8, (checksum >>> 8).toUInt8] ++ bytes.drop 18
  else bytes

/-! ## Reading -/

/-- Read what stands before the options. -/
def readFields (h : TcpHeader) (bytes : List UInt8) : Option (TcpHeader × List UInt8) :=
  (readNtohU16 bytes).bind fun sourcePort =>
  (readNtohU16 sourcePort.2).bind fun destinationPort =>
  (readNtohU32 destinationPort.2).bind fun sequenceNumber =>
  (readNtohU32 sequenceNumber.2).bind fun ackNumber =>
  (readNtohU16 ackNumber.2).bind fun field =>
  (readNtohU16 field.2).bind fun windowSize =>
  (Reader.read 2 windowSize.2).bind fun skipped =>
  (readNtohU16 skipped.2).map fun urgentPointer =>
    ({ h with
        sourcePort := sourcePort.1
        destinationPort := destinationPort.1
        sequenceNumber := ⟨sequenceNumber.1⟩
        ackNumber := ⟨ackNumber.1⟩
        flags := field.1 &&& 0x1ff
        length := (field.1 >>> 12).toUInt8
        windowSize := windowSize.1
        urgentPointer := urgentPointer.1 }, urgentPointer.2)

end TcpHeader

/-- The loop over the options: those kept so far, the counter, and what is left of the buffer. -/
structure OptionReader where
  options : List TcpOption
  optionLen : UInt32
  rest : List UInt8

/-- No-ops and ends of the list are not kept. -/
def Kept (op : TcpOption) : Prop := op.getKind ≠ .noOp ∧ op.getKind ≠ .endOfOptionList

instance (op : TcpOption) : Decidable (Kept op) := inferInstanceAs (Decidable (_ ∧ _))

namespace OptionReader

def start (length : UInt8) (rest : List UInt8) : OptionReader :=
  ⟨[], (length.toUInt32 - 5) * 4, rest⟩

/-- The body of the loop. -/
def next (s : OptionReader) : Option OptionReader :=
  (TcpOption.deserialize s.rest s.optionLen).map fun r =>
    ⟨s.options ++ r.1.toList.filter Kept, r.2.1, r.2.2⟩

/-- `while (optionLen)`, for fewer than `fuel` iterations. -/
def loop : ℕ → OptionReader → Option OptionReader
  | 0, _ => none
  | fuel + 1, s => if s.optionLen = 0 then some s else s.next.bind (loop fuel)

/-- The state after `k` iterations. -/
def after : ℕ → OptionReader → Option OptionReader
  | 0, s => some s
  | k + 1, s => if s.optionLen = 0 then none else s.next.bind (after k)

end OptionReader

namespace TcpHeader

/-- `Deserialize` into a header. `checksum` is the one that is computed over the buffer. -/
def deserialize (checksum : UInt16) (fuel : ℕ) (h : TcpHeader) (bytes : List UInt8) :
    Option TcpHeader :=
  (h.readFields bytes).bind fun r =>
    ((OptionReader.start r.1.length r.2).loop fuel).map fun s =>
      { r.1 with
        options := s.options
        goodChecksum := if r.1.calcChecksum then checksum = 0 else r.1.goodChecksum }

/-- The data offset that a buffer announces. -/
def dataOffset (bytes : List UInt8) : ℕ := (bytes.getD 12 0).toNat / 16

/-- The loop of `Deserialize` gets to the state in `k` iterations. -/
def Reached (h : TcpHeader) (bytes : List UInt8) (k : ℕ) (s : OptionReader) : Prop :=
  ∃ r, h.readFields bytes = some r ∧ (OptionReader.start r.1.length r.2).after k = some s

/-- `Deserialize` returns, takes no option byte behind those that the data offset announces, never
counts below zero, and skips an option of an unknown kind by its length byte. -/
structure ReadsSafely (checksum : UInt16) (h : TcpHeader) (bytes : List UInt8) : Prop where
  returns : ∃ fuel, (h.deserialize checksum fuel bytes).isSome = true
  within : ∀ k s, h.Reached bytes (k + 1) s →
    bytes.length - s.rest.length ≤ 4 * dataOffset bytes
  counted : ∀ k s t, h.Reached bytes k s → s.optionLen ≠ 0 → s.next = some t →
    t.optionLen ≤ s.optionLen
  skipped : ∀ k s, h.Reached bytes k s → s.optionLen ≠ 0 →
    ∀ kind ∈ s.rest.head?, Kind.ofByte kind = none → ∃ size ∈ s.rest[1]?, ∃ t,
      s.next = some t ∧ t.rest = s.rest.drop size.toNat ∧
        t.optionLen = s.optionLen - size.toUInt32

/-- The announced bytes are those of proper options. -/
def AnnouncesOptions (bytes : List UInt8) : Prop :=
  5 ≤ dataOffset bytes ∧ ∃ options : List TcpOption, (∀ op ∈ options, op.Proper) ∧
    (bytes.take (4 * dataOffset bytes)).drop 20 = options.flatMap TcpOption.serialize

/-- What was written is as long as `GetSerializedSize` says, and is read back except for no-ops,
whatever the header that it is read into. -/
def RoundTrips (h : TcpHeader) : Prop :=
  ∀ checksum, (h.serialize checksum).length = h.getSerializedSize ∧
    ∀ (target : TcpHeader) (verified : UInt16), ∃ fuel result,
      target.deserialize verified fuel (h.serialize checksum) = some result ∧
      result.sourcePort = h.sourcePort ∧ result.destinationPort = h.destinationPort ∧
      result.sequenceNumber = h.sequenceNumber ∧ result.ackNumber = h.ackNumber ∧
      result.flags = h.flags ∧ result.windowSize = h.windowSize ∧
      result.urgentPointer = h.urgentPointer ∧ result.length = h.length ∧
      result.options = h.options.filter fun op => op ≠ .noOp

end TcpHeader

/-! ## The loop -/

namespace OptionReader

variable {s t : OptionReader} {ops : List TcpOption} {tail : List UInt8}

/-- One iteration over a proper option. -/
theorem next_of_proper {op : TcpOption} (h : op.Proper) (hrest : s.rest = op.serialize ++ tail) :
    s.next = some ⟨s.options ++ [op].filter Kept,
      s.optionLen - UInt32.ofNat op.getSerializedSize, tail⟩ := by
  rw [next, hrest, TcpOption.deserialize_serialize h, Option.map_some, Option.toList_some]

/-- The counter after an option that was announced. -/
theorem toNat_sub_size {op : TcpOption} (h : op.Proper) {n m : ℕ} {optionLen : UInt32}
    (hlen : optionLen.toNat = n) (hsum : n = op.getSerializedSize + m) :
    (optionLen - UInt32.ofNat op.getSerializedSize).toNat = m := by
  have hle := h.getSerializedSize_le
  have hsize : (UInt32.ofNat op.getSerializedSize).toNat = op.getSerializedSize := by
    rw [UInt32.toNat_ofNat', Nat.mod_eq_of_lt (by omega)]
  rw [UInt32.toNat_sub_of_le _ _ (UInt32.le_iff_toNat_le.mpr (by omega)), hsize]
  omega

/-- The loop reads a list of proper options. -/
theorem loop_flatMap (hops : ∀ op ∈ ops, op.Proper)
    (hrest : s.rest = ops.flatMap TcpOption.serialize ++ tail)
    (hlen : s.optionLen.toNat = (ops.flatMap TcpOption.serialize).length) :
    s.loop (ops.length + 1) = some ⟨s.options ++ ops.filter Kept, 0, tail⟩ := by
  induction ops generalizing s with
  | nil =>
      have hzero : s.optionLen = 0 := UInt32.toNat_inj.mp hlen
      rw [loop, if_pos hzero, ← hzero]
      simp at hrest
      simp [← hrest]
  | cons op others ih =>
      have hproper := hops op List.mem_cons_self
      rw [List.flatMap_cons, List.append_assoc] at hrest
      rw [List.flatMap_cons, List.length_append, TcpOption.length_serialize] at hlen
      have hpos := op.getSerializedSize_pos
      have hne : s.optionLen ≠ 0 := by
        intro hzero
        rw [hzero] at hlen
        change 0 = _ at hlen
        omega
      rw [List.length_cons, loop, if_neg hne, next_of_proper hproper hrest, Option.bind_some,
        ih (fun o ho => hops o (List.mem_cons_of_mem op ho)) rfl (toNat_sub_size hproper hlen rfl)]
      simp [List.filter_cons]
      split <;> simp

/-- Every state of the loop over proper options has some of them before it. -/
theorem after_flatMap {k : ℕ} (hops : ∀ op ∈ ops, op.Proper)
    (hrest : s.rest = ops.flatMap TcpOption.serialize ++ tail)
    (hlen : s.optionLen.toNat = (ops.flatMap TcpOption.serialize).length)
    (ht : s.after k = some t) : ∃ todo : List TcpOption, (∀ op ∈ todo, op.Proper) ∧
      t.rest = todo.flatMap TcpOption.serialize ++ tail ∧
      t.optionLen.toNat = (todo.flatMap TcpOption.serialize).length := by
  induction k generalizing s ops with
  | zero =>
      obtain rfl := Option.some.inj ht
      exact ⟨ops, hops, hrest, hlen⟩
  | succ k ih =>
      rw [after] at ht
      split at ht
      next => cases ht
      next hne =>
        cases ops with
        | nil => exact absurd (UInt32.toNat_inj.mp hlen) hne
        | cons op others =>
            have hproper := hops op List.mem_cons_self
            rw [List.flatMap_cons, List.append_assoc] at hrest
            rw [List.flatMap_cons, List.length_append, TcpOption.length_serialize] at hlen
            rw [next_of_proper hproper hrest, Option.bind_some] at ht
            exact ih (fun o ho => hops o (List.mem_cons_of_mem op ho)) rfl
              (toNat_sub_size hproper hlen rfl) ht

/-- The loop gets past a list of options only if all of them are proper. -/
theorem proper_of_loop {fuel : ℕ} (hblocks : ∀ sb, .sack sb ∈ ops → sb.length ≤ 31)
    (hrest : s.rest = ops.flatMap TcpOption.serialize ++ tail)
    (hlen : (ops.flatMap TcpOption.serialize).length ≤ s.optionLen.toNat)
    (hloop : s.loop fuel = some t) : ∀ op ∈ ops, op.Proper := by
  induction ops generalizing s fuel with
  | nil => simp
  | cons op others ih =>
      rw [List.flatMap_cons, List.append_assoc] at hrest
      rw [List.flatMap_cons, List.length_append, TcpOption.length_serialize] at hlen
      have hpos := op.getSerializedSize_pos
      have hne : s.optionLen ≠ 0 := by
        intro hzero
        rw [hzero] at hlen
        change _ ≤ 0 at hlen
        omega
      cases fuel with
      | zero => cases hloop
      | succ fuel =>
          rw [loop, if_neg hne] at hloop
          by_cases hproper : op.Proper
          · rw [next_of_proper hproper hrest, Option.bind_some] at hloop
            have hothers := ih (s := ⟨s.options ++ [op].filter Kept,
                s.optionLen - UInt32.ofNat op.getSerializedSize, others.flatMap _ ++ tail⟩)
              (fun sb hsb => hblocks sb (List.mem_cons_of_mem op hsb)) rfl
              (by rw [toNat_sub_size hproper rfl (Nat.add_sub_of_le (by omega)).symm]; omega) hloop
            exact List.forall_mem_cons.mpr ⟨hproper, hothers⟩
          · -- only a SACK without blocks is left
            cases op with
            | sack sb =>
                have hle := hblocks sb List.mem_cons_self
                have hnil : sb = [] := by
                  by_contra hne
                  exact hproper ⟨hne, hle⟩
                rw [next, hrest, hnil, TcpOption.deserialize_sack_nil] at hloop
                cases hloop
            | _ => exact absurd trivial hproper

/-- An iteration takes a byte at least. -/
theorem next_length (h : s.next = some t) : t.rest.length < s.rest.length := by
  obtain ⟨⟨option, optionLen, rest⟩, hread, rfl⟩ := Option.map_eq_some_iff.mp h
  cases option with
  | some op =>
      obtain ⟨-, hbytes, -⟩ := TcpOption.deserialize_eq_some hread
      have hpos := op.getSerializedSize_pos
      rw [hbytes, List.length_append, TcpOption.length_serialize]
      exact Nat.lt_add_of_pos_left hpos
  | none =>
      obtain ⟨byte, hbyte, hrest⟩ := Option.bind_eq_some_iff.mp hread
      rw [readU8_eq_some hbyte]
      split at hrest
      next =>
        obtain ⟨-, hrest⟩ := Prod.mk.inj (Option.some.inj hrest)
        obtain ⟨-, rfl⟩ := Prod.mk.inj hrest
        exact Nat.lt_succ_self _
      next =>
        obtain ⟨_, -, hnone⟩ := Option.map_eq_some_iff.mp hrest
        cases hnone

/-- An iteration that reads an option and does not count below zero counts its bytes. -/
theorem length_of_known {op : TcpOption} {optionLen : UInt32} {rest : List UInt8}
    (hread : TcpOption.deserialize s.rest s.optionLen = some (some op, optionLen, rest))
    (hle : optionLen ≤ s.optionLen) :
    s.optionLen.toNat = op.serialize.length + optionLen.toNat := by
  obtain ⟨hproper, -, rfl⟩ := TcpOption.deserialize_eq_some hread
  have hsize := hproper.getSerializedSize_le
  have hpos := op.getSerializedSize_pos
  have hlt := s.optionLen.toNat_lt
  have hword : (UInt32.ofNat op.getSerializedSize).toNat = op.getSerializedSize := by
    rw [UInt32.toNat_ofNat', Nat.mod_eq_of_lt (by omega)]
  rw [UInt32.le_iff_toNat_le, UInt32.toNat_sub, hword] at hle
  rw [UInt32.toNat_sub, hword, TcpOption.length_serialize]
  omega

/-- A byte of an unknown kind is taken alone and is not counted: no iteration skips an option. -/
theorem not_skipped {optionLen : UInt32} {rest : List UInt8}
    (hread : TcpOption.deserialize s.rest s.optionLen = some (none, optionLen, rest)) :
    ¬ ∀ kind ∈ s.rest.head?, Kind.ofByte kind = none → ∃ size ∈ s.rest[1]?, ∃ v,
      s.next = some v ∧ v.rest = s.rest.drop size.toNat ∧
        v.optionLen = s.optionLen - size.toUInt32 := by
  intro hskipped
  obtain ⟨u, hu, hlen, hrest⟩ : ∃ u, s.next = some u ∧ u.optionLen = optionLen ∧ u.rest = rest := by
    rw [next, hread]
    exact ⟨_, rfl, rfl, rfl⟩
  obtain ⟨byte, hbyte, hunknown⟩ := Option.bind_eq_some_iff.mp hread
  have hbytes := readU8_eq_some hbyte
  split at hunknown
  next hkind =>
    obtain ⟨-, hleft⟩ := Prod.mk.inj (Option.some.inj hunknown)
    obtain ⟨rfl, rfl⟩ := Prod.mk.inj hleft
    obtain ⟨size, -, v, hv, hdrop, hsub⟩ := hskipped byte.1 (by rw [hbytes]; rfl) hkind
    obtain rfl := Option.some.inj (hu.symm.trans hv)
    rw [hrest] at hdrop
    have hsize := congrArg UInt32.toNat (hlen.symm.trans hsub)
    have hbound := size.toNat_lt
    have hlt := s.optionLen.toNat_lt
    rw [UInt32.toNat_sub, UInt8.toNat_toUInt32] at hsize
    have hzero : size.toNat = 0 := by omega
    rw [hzero, List.drop_zero, hbytes] at hdrop
    exact absurd hdrop (List.cons_ne_self _ _).symm
  next =>
    obtain ⟨_, -, hnone⟩ := Option.map_eq_some_iff.mp hunknown
    cases hnone

/-- If no iteration counts below zero and unknown options are skipped, the loop takes a list of
proper options. -/
theorem flatMap_of_loop {fuel : ℕ}
    (hcounted : ∀ k u v, s.after k = some u → u.optionLen ≠ 0 → u.next = some v →
      v.optionLen ≤ u.optionLen)
    (hskipped : ∀ k u, s.after k = some u → u.optionLen ≠ 0 →
      ∀ kind ∈ u.rest.head?, Kind.ofByte kind = none → ∃ size ∈ u.rest[1]?, ∃ v,
        u.next = some v ∧ v.rest = u.rest.drop size.toNat ∧
          v.optionLen = u.optionLen - size.toUInt32)
    (hloop : s.loop fuel = some t) : ∃ ops : List TcpOption, (∀ op ∈ ops, op.Proper) ∧
      s.rest = ops.flatMap TcpOption.serialize ++ t.rest ∧
      s.optionLen.toNat = (ops.flatMap TcpOption.serialize).length := by
  induction fuel generalizing s with
  | zero => cases hloop
  | succ fuel ih =>
      rw [loop] at hloop
      split at hloop
      next hzero =>
        obtain rfl := Option.some.inj hloop
        exact ⟨[], by simp, by simp, by simp [hzero]⟩
      next hne =>
        obtain ⟨u, hu, hloop⟩ := Option.bind_eq_some_iff.mp hloop
        have hafter : ∀ k, s.after (k + 1) = u.after k := by
          intro k
          rw [after, if_neg hne, hu, Option.bind_some]
        obtain ⟨ops, hops, hrest, hlen⟩ := ih
          (fun k a b ha => hcounted (k + 1) a b ((hafter k).trans ha))
          (fun k a ha => hskipped (k + 1) a ((hafter k).trans ha)) hloop
        have hle := hcounted 0 s u rfl hne hu
        obtain ⟨⟨option, optionLen, rest⟩, hread, rfl⟩ := Option.map_eq_some_iff.mp hu
        simp only at hrest hlen hle
        cases option with
        | some op =>
            obtain ⟨hproper, hbytes, -⟩ := TcpOption.deserialize_eq_some hread
            refine ⟨op :: ops, List.forall_mem_cons.mpr ⟨hproper, hops⟩, ?_, ?_⟩
            · rw [hbytes, hrest, List.flatMap_cons, List.append_assoc]
            · rw [length_of_known hread hle, hlen, List.flatMap_cons, List.length_append]
        | none => exact absurd (hskipped 0 s rfl hne) (not_skipped hread)

end OptionReader

namespace TcpHeader

/-! ## What stands before the options -/

/-- What is read from the first 20 bytes. -/
theorem readFields_of_length (h : TcpHeader) {bytes : List UInt8} (hlength : 20 ≤ bytes.length) :
    ∃ r, h.readFields bytes = some r ∧ r.1.length.toNat = dataOffset bytes ∧
      r.2 = bytes.drop 20 := by
  match bytes, hlength with
  | b₀ :: b₁ :: b₂ :: b₃ :: b₄ :: b₅ :: b₆ :: b₇ :: b₈ :: b₉ :: bytes, hlength =>
      have hlength : 10 ≤ bytes.length := by simpa using hlength
      match bytes, hlength with
      | b₁₀ :: b₁₁ :: b₁₂ :: b₁₃ :: b₁₄ :: b₁₅ :: b₁₆ :: b₁₇ :: b₁₈ :: b₁₉ :: rest, _ =>
          refine ⟨_, rfl, ?_, rfl⟩
          have hhigh : b₁₂.toNat < 2 ^ 8 := b₁₂.toNat_lt
          have hlow : b₁₃.toNat < 2 ^ 8 := b₁₃.toNat_lt
          have hshift : UInt16.toNat 12 % 16 = 12 := rfl
          change ((b₁₂.toUInt16 <<< 8 ||| b₁₃.toUInt16) >>> 12).toUInt8.toNat = b₁₂.toNat / 16
          rw [UInt16.toNat_toUInt8, UInt16.toNat_shiftRight, hshift, Nat.shiftRight_eq_div_pow,
            toNat_twoBytes]
          omega

/-- Eight fields that were written, the seventh of which is skipped. -/
theorem readFields_append (target : TcpHeader) (sourcePort destinationPort field windowSize
    urgentPointer : UInt16) (sequenceNumber ackNumber : UInt32) (first second : UInt8)
    (rest : List UInt8) :
    target.readFields (htonU16 sourcePort ++ (htonU16 destinationPort ++
      (htonU32 sequenceNumber ++ (htonU32 ackNumber ++ (htonU16 field ++ (htonU16 windowSize ++
        (first :: second :: (htonU16 urgentPointer ++ rest)))))))) =
      some ({ target with
        sourcePort := sourcePort
        destinationPort := destinationPort
        sequenceNumber := ⟨sequenceNumber⟩
        ackNumber := ⟨ackNumber⟩
        flags := field &&& 0x1ff
        length := (field >>> 12).toUInt8
        windowSize := windowSize
        urgentPointer := urgentPointer }, rest) := by
  have hskip : Reader.read 2 (first :: second :: (htonU16 urgentPointer ++ rest)) =
      some ([first, second], htonU16 urgentPointer ++ rest) :=
    read_append [first, second] (htonU16 urgentPointer ++ rest)
  rw [readFields]
  simp only [readNtohU16_htonU16, readNtohU32_htonU32, hskip, Option.bind_some, Option.map_some]

/-- The options and the no-ops behind them. -/
def padded (options : List TcpOption) : List TcpOption :=
  options ++ List.replicate (padding (totalLen options)) .noOp

/-- Whatever the checksum, it lies in the seventh field. -/
theorem serialize_eq (checksum : UInt16) (h : TcpHeader) : ∃ first second : UInt8,
    h.serialize checksum = htonU16 h.sourcePort ++ (htonU16 h.destinationPort ++
      (htonU32 h.sequenceNumber.value ++ (htonU32 h.ackNumber.value ++
        (htonU16 (h.length.toUInt16 <<< 12 ||| h.flags) ++ (htonU16 h.windowSize ++
          (first :: second :: (htonU16 h.urgentPointer ++
            (padded h.options).flatMap TcpOption.serialize))))))) := by
  rw [padded, List.flatMap_append]
  unfold serialize
  split
  · exact ⟨_, _, rfl⟩
  · exact ⟨_, _, rfl⟩

theorem length_flatMap_serialize (options : List TcpOption) :
    (options.flatMap TcpOption.serialize).length = totalLen options := by
  induction options with
  | nil => rfl
  | cons op rest ih =>
      rw [List.flatMap_cons, List.length_append, TcpOption.length_serialize, ih]
      rfl

theorem totalLen_append (first second : List TcpOption) :
    totalLen (first ++ second) = totalLen first + totalLen second := by
  simp [totalLen]

theorem totalLen_padded (options : List TcpOption) :
    totalLen (padded options) = totalLen options + padding (totalLen options) := by
  rw [padded, totalLen_append]
  simp [totalLen, TcpOption.getSerializedSize]

theorem length_serialize (checksum : UInt16) (h : TcpHeader) :
    (h.serialize checksum).length = 20 + totalLen (padded h.options) := by
  obtain ⟨first, second, heq⟩ := serialize_eq checksum h
  rw [heq]
  simp only [htonU16, htonU32, List.length_append, List.length_cons, List.length_nil,
    length_flatMap_serialize]
  omega

/-- The data offset counts words of four bytes. -/
theorem toNat_lengthOf {options : List TcpOption} (h : totalLen options ≤ 40) :
    4 * (lengthOf options).toNat = 20 + totalLen (padded options) := by
  rw [totalLen_padded, lengthOf, UInt8.toNat_ofNat']
  unfold padding
  omega

/-- The counter wraps around for a data offset below five. -/
theorem toNat_start (length : UInt8) : ((length.toUInt32 - 5) * 4).toNat =
    (2 ^ 32 - 5 + length.toNat) % 2 ^ 32 * 4 % 2 ^ 32 := by
  have hfive : (5 : UInt32).toNat = 5 := rfl
  have hfour : (4 : UInt32).toNat = 4 := rfl
  rw [UInt32.toNat_mul, UInt32.toNat_sub, UInt8.toNat_toUInt32, hfive, hfour]

/-- The counter starts with the bytes behind the first 20. -/
theorem toNat_start_of_eq {length : UInt8} {n : ℕ} (h : 4 * length.toNat = 20 + n) :
    ((length.toUInt32 - 5) * 4).toNat = n := by
  have hlt := length.toNat_lt
  rw [toNat_start]
  omega

/-- The data offset and the flags share a field. -/
theorem field_split {length : UInt8} {flags : UInt16} (hlength : length.toNat < 16)
    (hflags : flags < 0x200) : ((length.toUInt16 <<< 12 ||| flags) &&& 0x1ff) = flags ∧
      ((length.toUInt16 <<< 12 ||| flags) >>> 12).toUInt8 = length := by
  have hlt : flags.toNat < 512 := UInt16.lt_iff_toNat_lt.mp hflags
  have hshift : UInt16.toNat 12 % 16 = 12 := rfl
  have hmask : UInt16.toNat 0x1ff = 2 ^ 9 - 1 := rfl
  have hfield : (length.toUInt16 <<< 12 ||| flags).toNat = length.toNat * 4096 + flags.toNat := by
    have hlow : flags.toNat < 2 ^ 12 := by omega
    rw [UInt16.toNat_or, UInt16.toNat_shiftLeft, UInt8.toNat_toUInt16, hshift,
      Word.shiftLeft_mod_or (by omega) hlow]
    rfl
  constructor
  · apply UInt16.toNat_inj.mp
    rw [UInt16.toNat_and, hfield, hmask, Nat.and_two_pow_sub_one_eq_mod]
    omega
  · apply UInt8.toNat_inj.mp
    rw [UInt16.toNat_toUInt8, UInt16.toNat_shiftRight, hfield, hshift, Nat.shiftRight_eq_div_pow]
    omega

/-! ## Any bytes -/

section AnyBytes

variable {checksum : UInt16} {h : TcpHeader} {bytes : List UInt8} {r : TcpHeader × List UInt8}

/-- With a data offset below five the counter has wrapped around, and a byte behind the header is
read. -/
theorem ReadsSafely.five_le (hsafe : h.ReadsSafely checksum bytes) (hlength : 20 ≤ bytes.length)
    (hr : h.readFields bytes = some r) (hoffset : r.1.length.toNat = dataOffset bytes)
    (hrest : r.2 = bytes.drop 20) : 5 ≤ dataOffset bytes := by
  by_contra hfive
  have hne : (OptionReader.start r.1.length r.2).optionLen ≠ 0 := by
    intro hzero
    have hvalue := (toNat_start r.1.length).symm.trans (congrArg UInt32.toNat hzero)
    change _ = 0 at hvalue
    omega
  obtain ⟨fuel, hreturns⟩ := hsafe.returns
  rw [deserialize, hr, Option.bind_some, Option.isSome_map] at hreturns
  obtain ⟨t, hloop⟩ := Option.isSome_iff_exists.mp hreturns
  cases fuel with
  | zero => cases hloop
  | succ fuel =>
      rw [OptionReader.loop, if_neg hne] at hloop
      obtain ⟨s, hs, -⟩ := Option.bind_eq_some_iff.mp hloop
      have hafter : (OptionReader.start r.1.length r.2).after 1 = some s := by
        rw [OptionReader.after, if_neg hne, hs, Option.bind_some, OptionReader.after]
      have hwithin := hsafe.within 0 s ⟨r, hr, hafter⟩
      have hshorter := OptionReader.next_length hs
      change s.rest.length < r.2.length at hshorter
      rw [hrest, List.length_drop] at hshorter
      omega

theorem ReadsSafely.announcesOptions (hsafe : h.ReadsSafely checksum bytes)
    (hlength : 20 ≤ bytes.length) : AnnouncesOptions bytes := by
  obtain ⟨r, hr, hoffset, hrest⟩ := h.readFields_of_length hlength
  have hfive := hsafe.five_le hlength hr hoffset hrest
  obtain ⟨fuel, hreturns⟩ := hsafe.returns
  rw [deserialize, hr, Option.bind_some, Option.isSome_map] at hreturns
  obtain ⟨t, hloop⟩ := Option.isSome_iff_exists.mp hreturns
  obtain ⟨ops, hops, hbytes, hlen⟩ := OptionReader.flatMap_of_loop
    (fun k u v hu => hsafe.counted k u v ⟨r, hr, hu⟩)
    (fun k u hu => hsafe.skipped k u ⟨r, hr, hu⟩) hloop
  have hstart : ((r.1.length.toUInt32 - 5) * 4).toNat = 4 * dataOffset bytes - 20 :=
    toNat_start_of_eq (by omega)
  refine ⟨hfive, ops, hops, ?_⟩
  rw [List.drop_take, ← hrest]
  change r.2 = _ at hbytes
  change ((r.1.length.toUInt32 - 5) * 4).toNat = _ at hlen
  rw [hbytes, ← hstart, hlen, List.take_left]

theorem dataOffset_lt (bytes : List UInt8) : dataOffset bytes < 16 := by
  have hlt := (bytes.getD 12 0).toNat_lt
  unfold dataOffset
  omega

/-- The loop starts with the announced options before it. -/
theorem AnnouncesOptions.start (hannounces : AnnouncesOptions bytes) (hlength : 60 ≤ bytes.length)
    (hoffset : r.1.length.toNat = dataOffset bytes) (hrest : r.2 = bytes.drop 20) :
    ∃ ops : List TcpOption, (∀ op ∈ ops, op.Proper) ∧
      r.2 = ops.flatMap TcpOption.serialize ++ bytes.drop (4 * dataOffset bytes) ∧
      ((r.1.length.toUInt32 - 5) * 4).toNat = (ops.flatMap TcpOption.serialize).length := by
  obtain ⟨hfive, ops, hops, harea⟩ := hannounces
  have hlt := dataOffset_lt bytes
  refine ⟨ops, hops, ?_, ?_⟩
  · rw [← harea, hrest, ← List.drop_append_of_le_length, List.take_append_drop]
    rw [List.length_take]
    omega
  · rw [← harea, toNat_start_of_eq (n := 4 * dataOffset bytes - 20) (by omega), List.length_drop,
      List.length_take]
    omega

theorem AnnouncesOptions.readsSafely (hannounces : AnnouncesOptions bytes)
    (hlength : 60 ≤ bytes.length) : h.ReadsSafely checksum bytes := by
  obtain ⟨r, hr, hoffset, hrest⟩ := h.readFields_of_length (show 20 ≤ bytes.length by omega)
  obtain ⟨ops, hops, hbytes, hlen⟩ := hannounces.start hlength hoffset hrest
  have htodo : ∀ {k s}, h.Reached bytes k s → ∃ todo : List TcpOption,
      (∀ op ∈ todo, op.Proper) ∧
        s.rest = todo.flatMap TcpOption.serialize ++ bytes.drop (4 * dataOffset bytes) ∧
        s.optionLen.toNat = (todo.flatMap TcpOption.serialize).length := by
    rintro k s ⟨r', hr', hs⟩
    obtain rfl := Option.some.inj (hr.symm.trans hr')
    exact OptionReader.after_flatMap (s := .start r.1.length r.2) hops hbytes hlen hs
  constructor
  · refine ⟨ops.length + 1, ?_⟩
    rw [deserialize, hr, Option.bind_some, Option.isSome_map,
      OptionReader.loop_flatMap (s := .start r.1.length r.2) hops hbytes hlen]
    rfl
  · intro k s hs
    obtain ⟨todo, -, hleft, -⟩ := htodo hs
    rw [hleft, List.length_append, List.length_drop]
    omega
  · intro k s t hs hne ht
    obtain ⟨todo, hproper, hleft, hcount⟩ := htodo hs
    cases todo with
    | nil => exact absurd (UInt32.toNat_inj.mp hcount) hne
    | cons op others =>
        have hop := hproper op List.mem_cons_self
        rw [List.flatMap_cons, List.append_assoc] at hleft
        rw [List.flatMap_cons, List.length_append, TcpOption.length_serialize] at hcount
        rw [OptionReader.next_of_proper hop hleft] at ht
        obtain rfl := Option.some.inj ht
        rw [UInt32.le_iff_toNat_le, OptionReader.toNat_sub_size hop hcount rfl]
        omega
  · intro k s hs hne kind hkind hunknown
    obtain ⟨todo, -, hleft, hcount⟩ := htodo hs
    cases todo with
    | nil => exact absurd (UInt32.toNat_inj.mp hcount) hne
    | cons op others =>
        -- the kind of an option that was announced is known
        rw [hleft, List.flatMap_cons, TcpOption.serialize_eq_cons, List.cons_append,
          List.cons_append, List.head?_cons] at hkind
        obtain rfl := Option.some.inj hkind
        rw [TcpOption.ofByte_toByte] at hunknown
        cases hunknown

end AnyBytes

/-- `Deserialize` is safe exactly for buffers whose announced bytes are proper options. -/
theorem readsSafely_iff (checksum : UInt16) (h : TcpHeader) (bytes : List UInt8)
    (hlength : 60 ≤ bytes.length) : h.ReadsSafely checksum bytes ↔ AnnouncesOptions bytes := by
  constructor
  · intro hsafe
    exact hsafe.announcesOptions (by omega)
  · intro hannounces
    exact hannounces.readsSafely hlength

/-- A header of 24 bytes that ends in an option, and 36 bytes of data. -/
def headerWith (option : List UInt8) : List UInt8 :=
  List.replicate 12 0 ++ [0x60] ++ List.replicate 7 0 ++ option ++ List.replicate 36 0

/-- The segment size is read. -/
theorem readsSafely_mss : create.ReadsSafely 0 (headerWith [2, 4, 5, 180]) :=
  (readsSafely_iff 0 create (headerWith [2, 4, 5, 180]) (by decide)).mpr
    ⟨by decide, [.mss 1460], by simp [TcpOption.Proper], by decide⟩

/-- An option of an unknown kind is not skipped. -/
theorem not_readsSafely_unknown : ¬ create.ReadsSafely 0 (headerWith [253, 4, 0, 0]) := by
  intro hsafe
  obtain ⟨size, hsize, t, ht, -, hcount⟩ := hsafe.skipped 0
    (OptionReader.start 6 ([253, 4, 0, 0] ++ List.replicate 36 0)) ⟨_, rfl, rfl⟩ (by decide) 253 rfl
    rfl
  obtain rfl := Option.some.inj hsize
  obtain rfl := Option.some.inj ht
  exact absurd hcount (by decide)

/-! ## What was built -/

/-- The flags have nine bits, an end of the list was not kept, and the options fit. -/
structure Built (h : TcpHeader) : Prop where
  flags_lt : h.flags < 0x200
  noEnd : ∀ op ∈ h.options, op ≠ .endOfOptionList
  totalLen_le : totalLen h.options ≤ 40

theorem create_built : Built create where
  flags_lt := by decide
  noEnd := by simp [create]
  totalLen_le := by decide

theorem Built.called {h next : TcpHeader} (hbuilt : Built h) {c : Call}
    (hflags : ∀ flags, c = .setFlags flags → flags < 0x200) (hcall : h.call c = some next) :
    Built next := by
  cases c with
  | setFlags flags =>
      obtain rfl := Option.some.inj hcall
      exact ⟨hflags flags rfl, hbuilt.noEnd, hbuilt.totalLen_le⟩
  | appendOption option =>
      have hkept : ∀ op ∈ (if option.getKind ≠ .endOfOptionList then h.options ++ [option]
          else h.options), op ≠ .endOfOptionList := by
        intro op hop
        split at hop
        next hkind =>
          rcases List.mem_append.mp hop with hop | hop
          · exact hbuilt.noEnd op hop
          · rintro rfl
            obtain rfl := List.mem_singleton.mp hop
            exact hkind rfl
        next => exact hbuilt.noEnd op hop
      have hcall : h.appendOption option = some next := hcall
      unfold appendOption at hcall
      dsimp only at hcall
      generalize (if option.getKind ≠ .endOfOptionList then h.options ++ [option]
        else h.options) = options at hcall hkept
      split at hcall
      next hfits =>
        obtain rfl := Option.some.inj hcall
        exact ⟨hbuilt.flags_lt, hkept, hfits⟩
      next => cases hcall
  | _ =>
      obtain rfl := Option.some.inj hcall
      exact ⟨hbuilt.flags_lt, hbuilt.noEnd, hbuilt.totalLen_le⟩

theorem Built.run {calls : List Call} {h final : TcpHeader} (hbuilt : Built h)
    (hflags : ∀ flags, .setFlags flags ∈ calls → flags < 0x200)
    (hrun : StepSystem.run call h calls = some final) : Built final := by
  induction calls generalizing h with
  | nil =>
      obtain rfl := Option.some.inj hrun
      exact hbuilt
  | cons c rest ih =>
      rw [run_cons] at hrun
      obtain ⟨next, hcall, hrun⟩ := Option.bind_eq_some_iff.mp hrun
      have hnext := hbuilt.called (fun flags hc => hflags flags (hc ▸ List.mem_cons_self)) hcall
      exact ih hnext (fun flags hmem => hflags flags (List.mem_cons_of_mem c hmem)) hrun

theorem getSerializedSize_le_totalLen {op : TcpOption} {options : List TcpOption}
    (hop : op ∈ options) : op.getSerializedSize ≤ totalLen options := by
  obtain ⟨before, behind, rfl⟩ := List.append_of_mem hop
  simp only [totalLen, List.map_append, List.map_cons, List.sum_append, List.sum_cons]
  omega

theorem Built.length_blocks {h : TcpHeader} (hbuilt : Built h) {sb : List SackBlock}
    (hsb : .sack sb ∈ h.options) : sb.length ≤ 31 := by
  have hsize := (getSerializedSize_le_totalLen hsb).trans hbuilt.totalLen_le
  simp only [TcpOption.getSerializedSize] at hsize
  omega

theorem mem_padded {op : TcpOption} {options : List TcpOption} (hop : op ∈ padded options) :
    op ∈ options ∨ op = .noOp := by
  rcases List.mem_append.mp hop with hop | hop
  · exact Or.inl hop
  · exact Or.inr (List.eq_of_mem_replicate hop)

/-- The counter starts with the options of a header whose data offset is theirs. -/
theorem Built.toNat_optionLen {h : TcpHeader} (hbuilt : Built h)
    (hlength : h.length = lengthOf h.options) :
    (OptionReader.start h.length
      ((padded h.options).flatMap TcpOption.serialize)).optionLen.toNat =
        ((padded h.options).flatMap TcpOption.serialize).length := by
  have hsize := toNat_lengthOf hbuilt.totalLen_le
  rw [← hlength] at hsize
  rw [length_flatMap_serialize]
  exact toNat_start_of_eq hsize

/-- `Deserialize` of a header whose data offset is that of its options. -/
theorem Built.deserialize_serialize {h : TcpHeader} (hbuilt : Built h)
    (hlength : h.length = lengthOf h.options) (checksum verified : UInt16) (target : TcpHeader)
    (fuel : ℕ) : target.deserialize verified fuel (h.serialize checksum) =
      ((OptionReader.start h.length
        ((padded h.options).flatMap TcpOption.serialize)).loop fuel).map fun s =>
          { h with
            calcChecksum := target.calcChecksum
            goodChecksum := if target.calcChecksum then verified = 0 else target.goodChecksum
            options := s.options } := by
  obtain ⟨first, second, heq⟩ := serialize_eq checksum h
  have hsize := toNat_lengthOf hbuilt.totalLen_le
  have hshort : h.length.toNat < 16 := by
    have hle := hbuilt.totalLen_le
    rw [← hlength, totalLen_padded] at hsize
    unfold padding at hsize
    omega
  obtain ⟨hflags, hoffset⟩ := field_split hshort hbuilt.flags_lt
  rw [heq, deserialize, readFields_append, Option.bind_some, hflags, hoffset]

theorem filter_kept_padded {options : List TcpOption}
    (hend : ∀ op ∈ options, op ≠ .endOfOptionList) :
    (padded options).filter Kept = options.filter fun op => op ≠ .noOp := by
  have hpadding : (List.replicate (padding (totalLen options)) TcpOption.noOp).filter Kept =
      [] := by
    simp [Kept, TcpOption.getKind]
  rw [padded, List.filter_append, hpadding, List.append_nil]
  apply List.filter_congr
  intro op hop
  have hop := hend op hop
  cases op <;> simp_all [Kept, TcpOption.getKind]

/-- A header that was built is read back exactly if its data offset is that of its options and
every SACK has a block. -/
theorem roundTrips_iff (calls : List Call) (h : TcpHeader)
    (hrun : StepSystem.run call create calls = some h)
    (hflags : ∀ flags, .setFlags flags ∈ calls → flags < 0x200) :
    h.RoundTrips ↔ h.length = lengthOf h.options ∧ ∀ sb, .sack sb ∈ h.options → sb ≠ [] := by
  have hbuilt := create_built.run hflags hrun
  have hsize := toNat_lengthOf hbuilt.totalLen_le
  constructor
  · intro hround
    obtain ⟨hwritten, hread⟩ := hround 0
    have hlength : h.length = lengthOf h.options := by
      apply UInt8.toNat_inj.mp
      rw [length_serialize, getSerializedSize] at hwritten
      omega
    obtain ⟨fuel, result, hresult, -⟩ := hread create 0
    rw [hbuilt.deserialize_serialize hlength] at hresult
    obtain ⟨t, hloop, -⟩ := Option.map_eq_some_iff.mp hresult
    have hproper := OptionReader.proper_of_loop
      (s := .start h.length ((padded h.options).flatMap TcpOption.serialize))
      (fun sb hsb => hbuilt.length_blocks ((mem_padded hsb).resolve_right (by simp)))
      (List.append_nil _).symm (hbuilt.toNat_optionLen hlength).ge hloop
    exact ⟨hlength, fun sb hsb => (hproper _ (List.mem_append_left _ hsb)).1⟩
  · rintro ⟨hlength, hblocks⟩ checksum
    have hproper : ∀ op ∈ padded h.options, op.Proper := by
      intro op hop
      rcases mem_padded hop with hop | rfl
      · cases op with
        | sack sb => exact ⟨hblocks sb hop, hbuilt.length_blocks hop⟩
        | _ => trivial
      · trivial
    refine ⟨?_, fun target verified => ?_⟩
    · rw [length_serialize, getSerializedSize, hlength, hsize]
    · have hloop := OptionReader.loop_flatMap
        (s := .start h.length ((padded h.options).flatMap TcpOption.serialize)) hproper
        (List.append_nil _).symm (hbuilt.toNat_optionLen hlength)
      have hread := hbuilt.deserialize_serialize hlength checksum verified target
        ((padded h.options).length + 1)
      rw [hloop, Option.map_some] at hread
      exact ⟨_, _, hread, rfl, rfl, rfl, rfl, rfl, rfl, rfl, rfl, filter_kept_padded hbuilt.noEnd⟩

/-- Options of every kind. -/
def everyKind : List TcpOption :=
  [.mss 1460, .noOp, .winScale 7, .sackPermitted, .sack [(⟨1⟩, ⟨9⟩)], .ts 5 6]

theorem roundTrips_everyKind : ∃ h, StepSystem.run call create
    (.setDestinationPort 80 :: .setFlags 0x112 :: everyKind.map .appendOption) = some h ∧
      h.RoundTrips := by
  have hrun : StepSystem.run call create
      (.setDestinationPort 80 :: .setFlags 0x112 :: everyKind.map .appendOption) =
        some { create with destinationPort := 80, flags := 0x112, length := 13,
                           options := everyKind } := rfl
  refine ⟨_, hrun, (roundTrips_iff _ _ hrun (by simp [everyKind])).mpr ⟨by decide, ?_⟩⟩
  intro sb hsb
  simp only [everyKind, List.mem_cons, List.not_mem_nil, reduceCtorEq, TcpOption.sack.injEq,
    false_or, or_false] at hsb
  simp [hsb]

/-- `AddSack` adds nothing to a SACK without blocks, and such a SACK is not read. -/
theorem not_roundTrips_sack : ∃ h,
    StepSystem.run call create [.appendOption (.sack (addSack (⟨1⟩, ⟨9⟩) []))] = some h ∧
      ¬ h.RoundTrips := by
  refine ⟨_, rfl, fun hround => ?_⟩
  obtain ⟨-, hread⟩ := hround 0
  obtain ⟨fuel, result, hresult, -⟩ := hread create 0
  cases fuel with
  | zero => cases hresult
  | succ fuel => cases hresult

end TcpHeader

end Ns3Rdma.TcpWire
