import Ns3Rdma.Net.Ipv4Header
import Ns3Rdma.Tcp.TcpHeader

/-!
# The checksums of TCP segments and IPv4 headers

A checksum that was written makes the one that is computed on reception zero, and no exchange of a
single word keeps it zero, as long as it is taken over the same bytes. The length over which that
of an IPv4 header is taken is read from the header itself.
-/

namespace Ns3Rdma

open Writer

namespace IpChecksum

/-- One aligned word is replaced, or the odd byte behind the words. The two words that stand for
zero are not exchanged. -/
def Replaced (bytes bytes' : List UInt8) : Prop :=
  ∃ before word word' behind, bytes = before ++ word ++ behind ∧
    bytes' = before ++ word' ++ behind ∧ Even before.length ∧ word.length = word'.length ∧
    (word.length = 2 ∨ word.length = 1 ∧ behind = []) ∧ word ≠ word' ∧
    ¬ (word = [0, 0] ∧ word' = [255, 255]) ∧ ¬ (word = [255, 255] ∧ word' = [0, 0])

variable {bytes bytes' before behind : List UInt8} {size : UInt16} {initialChecksum : UInt32}

theorem Replaced.length_eq (h : Replaced bytes bytes') : bytes'.length = bytes.length := by
  obtain ⟨before, word, word', behind, rfl, rfl, -, hlength, -⟩ := h
  simp [hlength]

theorem wordSum_u16 (v : UInt16) : wordSum (u16 v) = v.toNat := by
  have hlt := v.toNat_lt
  have hshift : UInt16.toNat 8 % 16 = 8 := rfl
  rw [u16, wordSum, wordSum, UInt16.toNat_toUInt8, UInt16.toNat_toUInt8, UInt16.toNat_shiftRight,
    hshift, Nat.shiftRight_eq_div_pow]
  omega

theorem even_length_u16 (v : UInt16) : Even (u16 v).length := ⟨1, rfl⟩

/-- The sum of the words, with that of the checksum taken out. -/
theorem wordSum_checksum (h : Even before.length) (v : UInt16) (behind : List UInt8) :
    wordSum (before ++ u16 v ++ behind) = v.toNat + wordSum (before ++ u16 0 ++ behind) := by
  rw [List.append_assoc, List.append_assoc, wordSum_append h, wordSum_append h,
    wordSum_append (even_length_u16 v), wordSum_append (even_length_u16 0), wordSum_u16,
    wordSum_u16, UInt16.toNat_zero]
  omega

/-- What a replacement does to the sum. -/
theorem Replaced.wordSum (h : Replaced bytes bytes') : ∃ x d d', wordSum bytes = x + d ∧
    IpChecksum.wordSum bytes' = x + d' ∧ d < 2 ^ 16 ∧ d' < 2 ^ 16 ∧ d ≠ d' ∧
    ¬ (d = 0 ∧ d' = 2 ^ 16 - 1) ∧ ¬ (d = 2 ^ 16 - 1 ∧ d' = 0) := by
  obtain ⟨before, word, word', behind, rfl, rfl, heven, hlength, hkind, hne, hzero, hones⟩ := h
  rcases hkind with htwo | ⟨hone, rfl⟩
  · obtain ⟨low, high, rfl⟩ := List.length_eq_two.mp htwo
    obtain ⟨low', high', rfl⟩ := List.length_eq_two.mp hlength.symm
    have hlow : low.toNat < 2 ^ 8 := low.toNat_lt
    have hhigh : high.toNat < 2 ^ 8 := high.toNat_lt
    have hlow' : low'.toNat < 2 ^ 8 := low'.toNat_lt
    have hhigh' : high'.toNat < 2 ^ 8 := high'.toNat_lt
    have hmax : UInt8.toNat 255 = 255 := rfl
    simp only [ne_eq, List.cons.injEq, and_true, ← UInt8.toNat_inj, UInt8.toNat_zero,
      hmax] at hne hzero hones
    refine ⟨IpChecksum.wordSum before + IpChecksum.wordSum behind, low.toNat + 256 * high.toNat,
      low'.toNat + 256 * high'.toNat, ?_, ?_, by omega, by omega, by omega, by omega, by omega⟩
    · rw [List.append_assoc, wordSum_append heven]
      simp only [List.cons_append, List.nil_append, IpChecksum.wordSum]
      omega
    · rw [List.append_assoc, wordSum_append heven]
      simp only [List.cons_append, List.nil_append, IpChecksum.wordSum]
      omega
  · obtain ⟨last, rfl⟩ := List.length_eq_one_iff.mp hone
    obtain ⟨last', rfl⟩ := List.length_eq_one_iff.mp hlength.symm
    have hlast : last.toNat < 2 ^ 8 := last.toNat_lt
    have hlast' : last'.toNat < 2 ^ 8 := last'.toNat_lt
    simp only [ne_eq, List.cons.injEq, and_true, ← UInt8.toNat_inj] at hne
    refine ⟨IpChecksum.wordSum before, last.toNat, last'.toNat, ?_, ?_, by omega, by omega, hne,
      by omega, by omega⟩
    · rw [List.append_nil, wordSum_append heven, IpChecksum.wordSum]
    · rw [List.append_nil, wordSum_append heven, IpChecksum.wordSum]

/-- Bytes that contain their own checksum have the checksum zero. -/
theorem calculateIpChecksum_checksum (hinitial : initialChecksum.toNat < 2 ^ 16)
    (heven : Even before.length) (hsize : (before ++ u16 0 ++ behind).length = size.toNat) :
    calculateIpChecksum size initialChecksum (before ++
      u16 (calculateIpChecksum size initialChecksum (before ++ u16 0 ++ behind)) ++
        behind) = 0 := by
  have hlt : size.toNat < 2 ^ 16 := size.toNat_lt
  have hle := wordSum_le (before ++ u16 0 ++ behind)
  have hsame : ∀ v, (before ++ u16 v ++ behind).take size.toNat = before ++ u16 v ++ behind := by
    intro v
    apply List.take_of_length_le
    rw [← hsize]
    simp [u16]
  have hvalue : ∀ v, (calculateIpChecksum size initialChecksum
      (before ++ u16 v ++ behind)).toNat = OnesComplement.checksum (2 ^ 16)
        (v.toNat + (initialChecksum.toNat + wordSum (before ++ u16 0 ++ behind))) := by
    intro v
    rw [toNat_calculateIpChecksum hinitial, hsame, wordSum_checksum heven, Nat.add_left_comm]
  apply UInt16.toNat_inj.mp
  rw [hvalue, hvalue, UInt16.toNat_zero, Nat.zero_add]
  apply OnesComplement.checksum_add_checksum (by decide)
  have hchecksum := OnesComplement.checksum_lt (b := 2 ^ 16) (by decide)
    (initialChecksum.toNat + wordSum (before ++ u16 0 ++ behind))
  omega

/-- One replacement does not keep a checksum zero. -/
theorem Replaced.calculateIpChecksum_ne (h : Replaced bytes bytes')
    (hinitial : initialChecksum.toNat < 2 ^ 16) (hsize : bytes.length = size.toNat)
    (hzero : calculateIpChecksum size initialChecksum bytes = 0) :
    calculateIpChecksum size initialChecksum bytes' ≠ 0 := by
  obtain ⟨x, d, d', hsum, hsum', hd, hd', hne, hends⟩ := h.wordSum
  have hlt : size.toNat < 2 ^ 16 := size.toNat_lt
  have hle := wordSum_le bytes
  have hle' := wordSum_le bytes'
  rw [h.length_eq] at hle'
  have hvalue : (calculateIpChecksum size initialChecksum bytes).toNat =
      OnesComplement.checksum (2 ^ 16) (initialChecksum.toNat + x + d) := by
    rw [toNat_calculateIpChecksum hinitial, List.take_of_length_le hsize.le, hsum, Nat.add_assoc]
  have hvalue' : (calculateIpChecksum size initialChecksum bytes').toNat =
      OnesComplement.checksum (2 ^ 16) (initialChecksum.toNat + x + d') := by
    rw [toNat_calculateIpChecksum hinitial,
      List.take_of_length_le (h.length_eq.trans hsize).le, hsum', Nat.add_assoc]
  rw [hzero, UInt16.toNat_zero] at hvalue
  intro hzero'
  rw [hzero', UInt16.toNat_zero] at hvalue'
  exact OnesComplement.checksum_exchange (by decide) (by omega) hd hd' hne hends (by omega)
    hvalue.symm hvalue'.symm

end IpChecksum

/-! ## TCP -/

namespace TcpWire

open IpChecksum Reader

/-- The 16 bytes of an IPv6 address. -/
abbrev Ipv6Bytes := { bytes : List UInt8 // bytes.length = 16 }

/-- What `InitializeChecksum` sets. -/
inductive PseudoHeader where
  | ipv4 (source destination : UInt32) (protocol : UInt8)
  | ipv6 (source destination : Ipv6Bytes) (protocol : UInt8)

namespace PseudoHeader

/-- The buffer of `CalculateHeaderChecksum`. -/
def bytes (size : UInt16) : PseudoHeader → List UInt8
  | ipv4 source destination protocol =>
      htonU32 source ++ htonU32 destination ++
        [0, protocol, (size >>> 8).toUInt8, (size &&& 0xff).toUInt8]
  | ipv6 source destination protocol =>
      source.1 ++ destination.1 ++ u16 0 ++ [(size >>> 8).toUInt8, (size &&& 0xff).toUInt8] ++
        u16 0 ++ [0, protocol]

def hdrSize : PseudoHeader → UInt16
  | ipv4 _ _ _ => 12
  | ipv6 _ _ _ => 40

/-- `CalculateHeaderChecksum`. -/
def calculateHeaderChecksum (size : UInt16) (pseudo : PseudoHeader) : UInt16 :=
  ~~~ calculateIpChecksum pseudo.hdrSize 0 (pseudo.bytes size)

/-- The checksum that `Serialize` and `Deserialize` compute over a buffer. -/
def checksumOf (pseudo : PseudoHeader) (buffer : List UInt8) : UInt16 :=
  let size := UInt16.ofNat buffer.length
  calculateIpChecksum size (pseudo.calculateHeaderChecksum size).toUInt32 buffer

end PseudoHeader

namespace TcpHeader

/-- `Serialize` into a buffer that goes on with the given bytes. The checksum is computed with zero
in its place. -/
def serializeInto (h : TcpHeader) (pseudo : PseudoHeader) (rest : List UInt8) : List UInt8 :=
  h.serialize (pseudo.checksumOf (h.serialize 0 ++ rest)) ++ rest

/-- `Deserialize` of a buffer. -/
def deserializeFrom (target : TcpHeader) (pseudo : PseudoHeader) (fuel : ℕ)
    (buffer : List UInt8) : Option TcpHeader :=
  target.deserialize (pseudo.checksumOf buffer) fuel buffer

/-- The header is one that `Deserialize` reads back: the data offset is that of the options, and
every SACK has a block. -/
structure Sendable (h : TcpHeader) : Prop where
  flags_lt : h.flags < 0x200
  totalLen_le : totalLen h.options ≤ 40
  length_eq : h.length = lengthOf h.options
  proper : ∀ op ∈ h.options, op.Proper

/-- Every segment with the header, however it is read, gives a good checksum, and a bad one after
a word of it was replaced. -/
def ChecksumWorks (h : TcpHeader) : Prop :=
  ∀ (pseudo : PseudoHeader) (rest : List UInt8) (target : TcpHeader),
    (h.serialize 0 ++ rest).length < 2 ^ 16 → target.calcChecksum = true →
      (h.Sendable → ∃ fuel result,
        target.deserializeFrom pseudo fuel (h.serializeInto pseudo rest) = some result) ∧
      (∀ fuel, ∀ result ∈ target.deserializeFrom pseudo fuel (h.serializeInto pseudo rest),
        result.goodChecksum = true) ∧
      ∀ buffer, Replaced (h.serializeInto pseudo rest) buffer →
        ∀ fuel, ∀ result ∈ target.deserializeFrom pseudo fuel buffer,
          result.goodChecksum = false

variable {h target : TcpHeader} {pseudo : PseudoHeader} {rest buffer : List UInt8}

/-- The checksum is an aligned word of what is written. -/
theorem serialize_split (hcalc : h.calcChecksum = true) : ∃ before behind,
    Even before.length ∧ ∀ checksum, h.serialize checksum = before ++ u16 checksum ++ behind := by
  obtain ⟨bytes, hbytes⟩ : ∃ bytes, bytes = h.fields ++ h.options.flatMap TcpOption.serialize ++
      (List.replicate (padding (totalLen h.options)) TcpOption.noOp).flatMap
        TcpOption.serialize := ⟨_, rfl⟩
  have hfields : h.fields.length = 20 := rfl
  refine ⟨bytes.take 16, bytes.drop 18, ?_, ?_⟩
  · have hlength : (bytes.take 16).length = 16 := by
      rw [List.length_take, hbytes, List.length_append, List.length_append, hfields]
      omega
    rw [hlength]
    decide
  · intro checksum
    rw [serialize, if_pos hcalc, ← hbytes]
    rfl

theorem checksumOf_serializeInto (hcalc : h.calcChecksum = true) (pseudo : PseudoHeader)
    (hsize : (h.serialize 0 ++ rest).length < 2 ^ 16) :
    pseudo.checksumOf (h.serializeInto pseudo rest) = 0 := by
  obtain ⟨before, behind, heven, hsplit⟩ := serialize_split hcalc
  have hjoin : ∀ checksum, h.serialize checksum ++ rest =
      before ++ u16 checksum ++ (behind ++ rest) := by
    intro checksum
    rw [hsplit, List.append_assoc]
  have hlength : ∀ checksum, (h.serialize checksum ++ rest).length =
      (h.serialize 0 ++ rest).length := by
    intro checksum
    rw [List.length_append, List.length_append, length_serialize, length_serialize]
  rw [serializeInto, PseudoHeader.checksumOf, hlength, PseudoHeader.checksumOf, hjoin, hjoin]
  apply calculateIpChecksum_checksum _ heven
  · rw [← hjoin, UInt16.toNat_ofNat', Nat.mod_eq_of_lt hsize]
  · rw [UInt16.toNat_toUInt32]
    exact UInt16.toNat_lt _

theorem checksumOf_replaced (hreplaced : Replaced (h.serializeInto pseudo rest) buffer)
    (hsize : (h.serializeInto pseudo rest).length < 2 ^ 16)
    (hzero : pseudo.checksumOf (h.serializeInto pseudo rest) = 0) :
    pseudo.checksumOf buffer ≠ 0 := by
  rw [PseudoHeader.checksumOf, hreplaced.length_eq]
  apply hreplaced.calculateIpChecksum_ne _ _ hzero
  · rw [UInt16.toNat_toUInt32]
    exact UInt16.toNat_lt _
  · rw [UInt16.toNat_ofNat', Nat.mod_eq_of_lt hsize]

theorem readFields_calcChecksum {r : TcpHeader × List UInt8}
    (hread : target.readFields buffer = some r) : r.1.calcChecksum = target.calcChecksum := by
  simp only [readFields, Option.bind_eq_some_iff, Option.map_eq_some_iff] at hread
  obtain ⟨_, -, _, -, _, -, _, -, _, -, _, -, _, -, _, -, rfl⟩ := hread
  rfl

/-- With checksums enabled the result tells whether the checksum was zero. -/
theorem goodChecksum_eq (hcalc : target.calcChecksum = true) {fuel : ℕ} {result : TcpHeader}
    (hresult : result ∈ target.deserializeFrom pseudo fuel buffer) :
    result.goodChecksum = decide (pseudo.checksumOf buffer = 0) := by
  obtain ⟨r, hread, hmap⟩ := Option.bind_eq_some_iff.mp hresult
  obtain ⟨s, -, rfl⟩ := Option.map_eq_some_iff.mp hmap
  have hr : r.1.calcChecksum = true := (readFields_calcChecksum hread).trans hcalc
  dsimp only
  rw [if_pos hr]

/-- What is sent is read again, whatever comes behind it. -/
theorem Sendable.deserialize (hsend : h.Sendable) (checksum verified : UInt16)
    (target : TcpHeader) (rest : List UInt8) :
    ∃ fuel result, target.deserialize verified fuel (h.serialize checksum ++ rest) =
      some result := by
  obtain ⟨first, second, heq⟩ := serialize_eq checksum h
  have hsize := toNat_lengthOf hsend.totalLen_le
  rw [← hsend.length_eq] at hsize
  have hshort : h.length.toNat < 16 := by
    have hle := hsend.totalLen_le
    rw [totalLen_padded] at hsize
    unfold padding at hsize
    omega
  have hproper : ∀ op ∈ padded h.options, op.Proper := by
    intro op hop
    rcases mem_padded hop with hop | rfl
    · exact hsend.proper op hop
    · trivial
  have hoffset := (field_split hshort hsend.flags_lt).2
  have hloop := OptionReader.loop_flatMap
    (s := .start h.length ((padded h.options).flatMap TcpOption.serialize ++ rest)) hproper rfl
    (by
      rw [length_flatMap_serialize]
      exact toNat_start_of_eq hsize)
  refine ⟨(padded h.options).length + 1, ?_⟩
  simp only [heq, TcpHeader.deserialize, List.append_assoc, List.cons_append, readFields_append,
    Option.bind_some, hoffset, hloop, Option.map_some]
  exact ⟨_, rfl⟩

theorem checksumWorks (hcalc : h.calcChecksum = true) : h.ChecksumWorks := by
  intro pseudo rest target hsize htarget
  have hzero := checksumOf_serializeInto hcalc pseudo hsize
  refine ⟨?_, ?_, ?_⟩
  · intro hsend
    exact hsend.deserialize _ _ target rest
  · intro fuel result hresult
    rw [goodChecksum_eq htarget hresult, hzero]
    rfl
  · intro buffer hreplaced fuel result hresult
    have hlength : (h.serializeInto pseudo rest).length < 2 ^ 16 := by
      rw [List.length_append, length_serialize] at hsize
      rw [serializeInto, List.length_append, length_serialize]
      exact hsize
    rw [goodChecksum_eq htarget hresult, decide_eq_false_iff_not]
    exact checksumOf_replaced hreplaced hlength hzero

end TcpHeader

end TcpWire

/-! ## IPv4 -/

namespace Ipv4Wire.Ipv4Header

open IpChecksum

/-- Every packet with the header gives a good checksum, and a bad one after a word of the header
was replaced by one that leaves the header length alone. -/
def ChecksumWorks (h : Ipv4Header) : Prop :=
  ∀ (payload : List UInt8) (target : Ipv4Header), target.calcChecksum = true →
    (∃ result ∈ target.deserialize (h.serialize ++ payload), result.goodChecksum = true) ∧
      ∀ header, Replaced h.serialize header → ihl header = 5 →
        ∀ result ∈ target.deserialize (header ++ payload), result.goodChecksum = false

variable {h target : Ipv4Header} {header payload packet : List UInt8}

theorem ihl_append (hlength : header.length = 20) : ihl (header ++ payload) = ihl header := by
  rw [ihl, ihl, List.getD_append _ _ _ _ (by omega)]

theorem readFields_version {r : Ipv4Header} (hread : target.readFields packet = some r) :
    (packet.getD 0 0).toNat / 16 = 4 := by
  cases packet with
  | nil => cases hread
  | cons verIhl rest =>
      simp only [readFields, Reader.readU8, Option.bind_some, Option.bind_eq_some_iff] at hread
      obtain ⟨_, -, _, -, _, -, _, -, _, -, _, -, _, -, _, -, _, -, _, -, hread⟩ := hread
      split at hread
      next hversion =>
          have hshift : UInt8.toNat 4 % 8 = 4 := rfl
          have hnat := congrArg UInt8.toNat hversion
          rw [UInt8.toNat_shiftRight, hshift, Nat.shiftRight_eq_div_pow] at hnat
          exact hnat
      next => cases hread

/-- A header of 20 bytes is checked over these. -/
theorem deserialize_twenty (htarget : target.calcChecksum = true) (hlength : header.length = 20)
    (hihl : ihl header = 5) {result : Ipv4Header}
    (hresult : result ∈ target.deserialize (header ++ payload)) :
    result.goodChecksum = decide (calculateIpChecksum 20 0 header = 0) := by
  obtain ⟨r, hread, hcheck⟩ := Option.bind_eq_some_iff.mp hresult
  obtain ⟨r', hread', -, hsize, hcalc⟩ := @readFields_of_version
    (header ++ payload) target (by rw [List.length_append]; omega) (readFields_version hread)
  obtain rfl := Option.some.inj (hread.symm.trans hread')
  rw [ihl_append hlength, hihl] at hsize
  have hheader : r.headerSize = 20 := UInt16.toNat_inj.mp hsize
  have htake : calculateIpChecksum 20 0 (header ++ payload) = calculateIpChecksum 20 0 header := by
    have htwenty : UInt16.toNat 20 = 20 := rfl
    rw [calculateIpChecksum, calculateIpChecksum, htwenty, List.take_left' hlength,
      List.take_of_length_le hlength.le]
  rw [if_pos (hcalc.trans htarget), hheader, htake] at hcheck
  split at hcheck
  next =>
      obtain rfl := Option.some.inj hcheck
      rfl
  next => cases hcheck

theorem calculateIpChecksum_serialize (hcalc : h.calcChecksum = true) :
    calculateIpChecksum 20 0 h.serialize = 0 := by
  obtain ⟨before, hbefore⟩ : ∃ before, before = [(4 : UInt8) <<< 4 ||| 5, h.tos] ++
      htonU16 (h.payloadSize + 5 * 4) ++ htonU16 h.identification ++
        [h.flagsFrag, (h.fragmentOffset / 8).toUInt8, h.ttl, h.protocol] := ⟨_, rfl⟩
  obtain ⟨behind, hbehind⟩ : ∃ behind, behind = htonU32 h.source ++ htonU32 h.destination :=
    ⟨_, rfl⟩
  have hsplit : ∀ checksum, h.bytesWith checksum = before ++ u16 checksum ++ behind := by
    intro checksum
    rw [bytesWith, hbefore, hbehind, List.append_assoc]
  have heven : Even before.length := by
    rw [hbefore]
    exact ⟨5, rfl⟩
  rw [serialize, if_pos hcalc, hsplit, hsplit]
  apply calculateIpChecksum_checksum (by decide) heven
  rw [← hsplit]
  rfl

theorem checksumWorks (hcalc : h.calcChecksum = true) : h.ChecksumWorks := by
  intro payload target htarget
  have hzero := calculateIpChecksum_serialize hcalc
  refine ⟨?_, ?_⟩
  · obtain ⟨r, hread, -, hsize, -⟩ := @readFields_of_version
      (h.serialize ++ payload) target (by rw [List.length_append, length_serialize]; omega)
      (by simp [serialize, bytesWith])
    obtain ⟨good, hresult⟩ := deserialize_of_readFields hread (by
      rw [hsize, ihl_serialize, List.length_append, length_serialize]
      omega)
    refine ⟨_, hresult, ?_⟩
    rw [deserialize_twenty htarget (length_serialize h) (by simp [ihl, serialize, bytesWith])
      hresult, hzero]
    rfl
  · intro header hreplaced hihl result hresult
    have hlength : header.length = 20 := hreplaced.length_eq.trans (length_serialize h)
    rw [deserialize_twenty htarget hlength hihl hresult, decide_eq_false_iff_not]
    exact hreplaced.calculateIpChecksum_ne (by decide) (length_serialize h) hzero

end Ipv4Wire.Ipv4Header

/-! ## Both headers -/

namespace HeaderChecksums

open IpChecksum TcpWire Ipv4Wire

/-- The checksums of both headers verify what was written, and detect one replaced word. -/
theorem checksums_verify_and_detect :
    (∀ h : TcpHeader, h.calcChecksum = true → h.ChecksumWorks) ∧
      ∀ h : Ipv4Header, h.calcChecksum = true → h.ChecksumWorks :=
  ⟨fun _ hcalc => TcpHeader.checksumWorks hcalc, fun _ hcalc => Ipv4Header.checksumWorks hcalc⟩

/-- An IPv4 header with the checksum enabled. -/
def checked : Ipv4Header := { Ipv4Header.create with calcChecksum := true, payloadSize := 4 }

/-- A segment that offers its maximum size and the window scale. -/
def segment : TcpHeader :=
  { TcpHeader.create with
    sourcePort := 80
    destinationPort := 4000
    sequenceNumber := ⟨1000⟩
    ackNumber := ⟨2000⟩
    length := 7
    flags := 0x112
    windowSize := 8192
    calcChecksum := true
    options := [.mss 1460, .noOp, .winScale 7] }

theorem segment_sendable : segment.Sendable where
  flags_lt := by decide
  totalLen_le := by decide
  length_eq := by decide
  proper := by
    intro op hop
    simp only [segment, List.mem_cons, List.not_mem_nil, or_false] at hop
    rcases hop with rfl | rfl | rfl <;> trivial

/-- The segment with three bytes of data is read again with a good checksum. -/
theorem checksums_verify_and_detect_segment :
    (∃ fuel result, segment.deserializeFrom (.ipv4 0x0a000001 0x0a000002 6) fuel
      (segment.serializeInto (.ipv4 0x0a000001 0x0a000002 6) [1, 2, 3]) = some result ∧
        result.goodChecksum = true) ∧
      checked.ChecksumWorks := by
  obtain ⟨htcp, hipv4⟩ := checksums_verify_and_detect
  obtain ⟨hreturns, hgood, -⟩ := htcp segment rfl (.ipv4 0x0a000001 0x0a000002 6) [1, 2, 3] segment
    (by decide) rfl
  obtain ⟨fuel, result, hresult⟩ := hreturns segment_sendable
  exact ⟨⟨fuel, result, hresult, hgood fuel result hresult⟩, hipv4 checked rfl⟩

/-- A first word that announces 24 bytes, and four bytes of payload that make up for it. -/
theorem not_checksums_detect_length : ¬ ∀ (h target : Ipv4Header) (header payload : List UInt8),
    h.calcChecksum = true → target.calcChecksum = true → Replaced h.serialize header →
      ∀ result ∈ target.deserialize (header ++ payload), result.goodChecksum = false := by
  intro hall
  have hreplaced : Replaced checked.serialize ([0x46, 0] ++ checked.serialize.drop 2) :=
    ⟨[], [0x45, 0], [0x46, 0], checked.serialize.drop 2, by decide +kernel, rfl, ⟨0, rfl⟩, rfl,
      Or.inl rfl, by decide, by decide, by decide⟩
  have hgood : (checked.deserialize ([0x46, 0] ++ checked.serialize.drop 2 ++
      [0xfe, 0xff, 0, 0])).map (fun result => result.goodChecksum) = some true := by
    decide +kernel
  obtain ⟨result, hresult, htrue⟩ := Option.map_eq_some_iff.mp hgood
  have hfalse := hall checked checked _ _ rfl rfl hreplaced result hresult
  exact absurd (htrue.symm.trans hfalse) (by decide)

end HeaderChecksums

end Ns3Rdma
