import Ns3Rdma.Net.IpChecksum
import Ns3Rdma.Tcp.TcpOption

/-!
# IPv4 headers

The reader takes the length of the header from the first byte, and the header keeps it. The writer
always writes 20 bytes and announces 20 bytes, into a space of the length that was kept.
-/

namespace Ns3Rdma

namespace Reader

/-- `ReadU16`, in the order of the host. -/
def readU16 : List UInt8 → Option (UInt16 × List UInt8)
  | low :: high :: rest => some (high.toUInt16 <<< 8 ||| low.toUInt16, rest)
  | _ => none

end Reader

namespace Ipv4Wire

open Writer Reader IpChecksum

structure Ipv4Header where
  calcChecksum : Bool
  payloadSize : UInt16
  identification : UInt16
  tos : UInt8
  ttl : UInt8
  protocol : UInt8
  flags : UInt8
  fragmentOffset : UInt16
  checksum : UInt16
  source : UInt32
  destination : UInt32
  goodChecksum : Bool
  headerSize : UInt16
deriving DecidableEq

namespace Ipv4Header

def DONT_FRAGMENT : UInt8 := 1

def MORE_FRAGMENTS : UInt8 := 2

def create : Ipv4Header where
  calcChecksum := false
  payloadSize := 0
  identification := 0
  tos := 0
  ttl := 0
  protocol := 0
  flags := 0
  fragmentOffset := 0
  checksum := 0
  source := 0
  destination := 0
  goodChecksum := true
  headerSize := 20

def getSerializedSize (h : Ipv4Header) : ℕ := h.headerSize.toNat

/-! ## Writing -/

/-- Set the flags in a byte. -/
def writeFlags (flags flagsFrag : UInt8) : UInt8 :=
  let flagsFrag := if flags &&& DONT_FRAGMENT ≠ 0 then flagsFrag ||| (1 : UInt8) <<< 6
    else flagsFrag
  if flags &&& MORE_FRAGMENTS ≠ 0 then flagsFrag ||| (1 : UInt8) <<< 5 else flagsFrag

/-- The byte with the flags and the high bits of the fragment offset. -/
def flagsFrag (h : Ipv4Header) : UInt8 :=
  writeFlags h.flags (((h.fragmentOffset / 8) >>> 8).toUInt8 &&& 0x1f)

/-- The 20 bytes with the given checksum. -/
def bytesWith (h : Ipv4Header) (checksum : UInt16) : List UInt8 :=
  [(4 : UInt8) <<< 4 ||| 5, h.tos] ++ htonU16 (h.payloadSize + 5 * 4) ++ htonU16 h.identification ++
    [h.flagsFrag, (h.fragmentOffset / 8).toUInt8, h.ttl, h.protocol] ++ u16 checksum ++
    htonU32 h.source ++ htonU32 h.destination

/-- `Serialize`. The checksum is computed over the 20 bytes with zero in its place. -/
def serialize (h : Ipv4Header) : List UInt8 :=
  h.bytesWith (if h.calcChecksum then calculateIpChecksum 20 0 (h.bytesWith 0) else 0)

/-! ## Reading -/

/-- The flags that are set in the byte that was read. -/
def readFlags (flags : UInt8) : UInt8 :=
  let kept := if flags &&& (1 : UInt8) <<< 6 ≠ 0 then DONT_FRAGMENT else 0
  if flags &&& (1 : UInt8) <<< 5 ≠ 0 then kept ||| MORE_FRAGMENTS else kept

/-- The fragment offset in bytes, of the byte with the flags and the one after it. -/
def readFragmentOffset (flags frag : UInt8) : UInt16 :=
  (((flags &&& 0x1f).toUInt16 <<< 8) ||| frag.toUInt16) <<< 3

/-- The first 20 bytes. The assertion on the version stops the program. -/
def readFields (h : Ipv4Header) (bytes : List UInt8) : Option Ipv4Header :=
  (readU8 bytes).bind fun verIhl =>
  (readU8 verIhl.2).bind fun tos =>
  (readNtohU16 tos.2).bind fun size =>
  (readNtohU16 size.2).bind fun identification =>
  (readU8 identification.2).bind fun flags =>
  (readU8 flags.2).bind fun frag =>
  (readU8 frag.2).bind fun ttl =>
  (readU8 ttl.2).bind fun protocol =>
  (readU16 protocol.2).bind fun checksum =>
  (readNtohU32 checksum.2).bind fun source =>
  (readNtohU32 source.2).bind fun destination =>
    let headerSize := (verIhl.1 &&& 0x0f).toUInt16 * 4
    if verIhl.1 >>> 4 = 4 then
      some { h with
        tos := tos.1
        payloadSize := size.1 - headerSize
        identification := identification.1
        flags := readFlags flags.1
        fragmentOffset := readFragmentOffset flags.1 frag.1
        ttl := ttl.1
        protocol := protocol.1
        checksum := checksum.1
        source := source.1
        destination := destination.1
        headerSize := headerSize }
    else none

/-- `Deserialize` into a header. The checksum is taken over the length that was read, and reading
behind the end stops the program. -/
def deserialize (h : Ipv4Header) (bytes : List UInt8) : Option Ipv4Header :=
  (h.readFields bytes).bind fun r =>
    if r.calcChecksum then
      if r.headerSize.toNat ≤ bytes.length then
        some { r with goodChecksum := calculateIpChecksum r.headerSize 0 bytes = 0 }
      else none
    else some r

/-! ## Packets -/

/-- `Packet::RemoveHeader`: the header and what is left of the packet. -/
def removeHeader (target : Ipv4Header) (packet : List UInt8) : Option (Ipv4Header × List UInt8) :=
  (target.deserialize packet).map fun h => (h, packet.drop h.getSerializedSize)

/-- `Packet::AddHeader`. `space` holds the bytes that `AddAtStart` makes room with, as many as
`GetSerializedSize` says, of which those that are not written stay what they were. -/
def addHeader (h : Ipv4Header) (space packet : List UInt8) : List UInt8 :=
  h.serialize ++ space.drop h.serialize.length ++ packet

/-- Decrement the TTL. -/
def hop (h : Ipv4Header) : Ipv4Header := { h with ttl := h.ttl - 1 }

/-- The header length of the first byte, in words of 32 bits. -/
def ihl (packet : List UInt8) : ℕ := (packet.getD 0 0).toNat % 16

/-- The total length of the third and the fourth byte. -/
def totalLength (packet : List UInt8) : ℕ :=
  256 * (packet.getD 2 0).toNat + (packet.getD 3 0).toNat

/-- The packet starts with an IPv4 header of at least 20 bytes, and its total length covers the
header. -/
structure WellFormed (packet : List UInt8) : Prop where
  version : (packet.getD 0 0).toNat / 16 = 4
  five_le : 5 ≤ ihl packet
  total : 4 * ihl packet ≤ totalLength packet
  length : 4 * ihl packet ≤ packet.length

/-- The fields that forwarding keeps. -/
def SameFields (h h' : Ipv4Header) : Prop :=
  h'.tos = h.tos ∧ h'.identification = h.identification ∧ h'.flags = h.flags ∧
    h'.fragmentOffset = h.fragmentOffset ∧ h'.protocol = h.protocol ∧ h'.source = h.source ∧
    h'.destination = h.destination ∧ h'.payloadSize = h.payloadSize

/-- The packet that is sent on after the hop is read as one with the same fields, and its payload
starts behind the header that it announces. -/
def Forwards (packet space : List UInt8) : Prop :=
  ∀ target target' : Ipv4Header, ∃ h payload, target.removeHeader packet = some (h, payload) ∧
    ∃ h', target'.deserialize (h.hop.addHeader space payload) = some h' ∧ SameFields h h' ∧
      (h.hop.addHeader space payload).drop (4 * ihl (h.hop.addHeader space payload)) = payload

/-! ## One byte for the flags and the offset -/

theorem toNat_readFragmentOffset (flags frag : UInt8) : (readFragmentOffset flags frag).toNat =
    8 * (256 * (flags.toNat % 32) + frag.toNat) := by
  have hfrag : frag.toNat < 2 ^ 8 := frag.toNat_lt
  have hhigh : (flags &&& 0x1f).toNat = flags.toNat % 32 := by
    rw [UInt8.toNat_and]
    exact Nat.and_two_pow_sub_one_eq_mod flags.toNat 5
  have hshift : UInt16.toNat 3 % 16 = 3 := rfl
  rw [readFragmentOffset, UInt16.toNat_shiftLeft, toNat_twoBytes, hhigh, hshift, Nat.shiftLeft_eq]
  omega

section FragmentOffset

variable {flags frag : UInt8} {offset : UInt16} (h : offset = readFragmentOffset flags frag)

include h

theorem toNat_offset_div : (offset / 8).toNat = 256 * (flags.toNat % 32) + frag.toNat := by
  have hoffset := toNat_readFragmentOffset flags frag
  have height : UInt16.toNat 8 = 8 := rfl
  rw [UInt16.toNat_div, h, hoffset, height, Nat.mul_div_cancel_left _ (by decide)]

/-- The byte of the low bits is written as it was read. -/
theorem offset_low : (offset / 8).toUInt8 = frag := by
  have hfrag : frag.toNat < 2 ^ 8 := frag.toNat_lt
  apply UInt8.toNat_inj.mp
  rw [UInt16.toNat_toUInt8, toNat_offset_div h]
  omega

theorem offset_high : ((offset / 8) >>> 8).toUInt8 &&& 0x1f = flags &&& 0x1f := by
  have hfrag : frag.toNat < 2 ^ 8 := frag.toNat_lt
  have hshift : UInt16.toNat 8 % 16 = 8 := rfl
  apply UInt8.toNat_inj.mp
  rw [UInt8.toNat_and, UInt8.toNat_and, UInt16.toNat_toUInt8, UInt16.toNat_shiftRight,
    toNat_offset_div h, hshift, Nat.shiftRight_eq_div_pow]
  have hmask : ∀ n, n &&& UInt8.toNat 0x1f = n % 32 := fun n =>
    Nat.and_two_pow_sub_one_eq_mod n 5
  rw [hmask, hmask]
  omega

end FragmentOffset

theorem forall_uint8 {P : UInt8 → Prop} (h : ∀ n : Fin 256, P (UInt8.ofFin n)) (v : UInt8) : P v :=
  h v.toFin

/-- Both flags, set beside the high bits of the offset, are found again. -/
theorem readFlags_writeFlags (flags : UInt8) :
    readFlags (writeFlags (readFlags flags) (flags &&& 0x1f)) = readFlags flags := by
  revert flags
  exact forall_uint8 (by decide +kernel)

theorem writeFlags_and (flags : UInt8) :
    writeFlags (readFlags flags) (flags &&& 0x1f) &&& 0x1f = flags &&& 0x1f := by
  revert flags
  exact forall_uint8 (by decide +kernel)

/-! ## What is read back -/

/-- The flags and the offset come from two bytes of the wire. -/
def FromWire (h : Ipv4Header) : Prop :=
  ∃ flags frag, h.flags = readFlags flags ∧ h.fragmentOffset = readFragmentOffset flags frag

variable {h target : Ipv4Header} {packet rest : List UInt8}

theorem readU16_u16 (v : UInt16) (rest : List UInt8) :
    readU16 (u16 v ++ rest) = some (v, rest) := by
  have hread : readNtohU16 (htonU16 v ++ rest) = some (v, rest) := readNtohU16_htonU16 v rest
  exact hread

/-- Every field is read back, except that the header length is the one of 20 bytes. -/
theorem readFields_bytesWith (target : Ipv4Header) (hwire : h.FromWire) (checksum : UInt16) :
    target.readFields (h.bytesWith checksum ++ rest) = some { h with
      calcChecksum := target.calcChecksum
      goodChecksum := target.goodChecksum
      checksum := checksum
      headerSize := 20 } := by
  obtain ⟨flags, frag, hflags, hoffset⟩ := hwire
  have hbyte : h.flagsFrag = writeFlags (readFlags flags) (flags &&& 0x1f) := by
    rw [flagsFrag, offset_high hoffset, hflags]
  have hreadFlags : readFlags h.flagsFrag = h.flags := by
    rw [hbyte, readFlags_writeFlags, hflags]
  have hreadOffset : readFragmentOffset h.flagsFrag (h.fragmentOffset / 8).toUInt8 =
      h.fragmentOffset := by
    rw [hbyte, offset_low hoffset, hoffset, readFragmentOffset, writeFlags_and,
      ← readFragmentOffset]
  have hheader : (((4 : UInt8) <<< 4 ||| 5) &&& 0x0f).toUInt16 * 4 = 20 := by decide
  have hsize : h.payloadSize + (5 * 4 : UInt16) - 20 = h.payloadSize := add_sub_cancel_right _ _
  have hversion : ((4 : UInt8) <<< 4 ||| 5) >>> 4 = 4 := by decide
  rw [readFields, bytesWith]
  simp only [List.append_assoc, List.cons_append, List.nil_append, readU8, Option.bind_some,
    readNtohU16_htonU16, readU16_u16, readNtohU32_htonU32, hreadFlags, hreadOffset, hheader, hsize,
    hversion, if_true]

@[simp] theorem length_bytesWith (h : Ipv4Header) (checksum : UInt16) :
    (h.bytesWith checksum).length = 20 := rfl

@[simp] theorem length_serialize (h : Ipv4Header) : h.serialize.length = 20 :=
  length_bytesWith _ _

theorem ihl_serialize (h : Ipv4Header) (rest : List UInt8) : ihl (h.serialize ++ rest) = 5 := by
  simp [ihl, serialize, bytesWith]

/-- With enough bytes only the result of the check is left open. -/
theorem deserialize_of_readFields {r : Ipv4Header} (hread : target.readFields packet = some r)
    (hlength : r.headerSize.toNat ≤ packet.length) :
    ∃ good, target.deserialize packet = some { r with goodChecksum := good } := by
  rw [deserialize, hread, Option.bind_some, if_pos hlength]
  by_cases hcalc : r.calcChecksum
  · exact ⟨_, if_pos hcalc⟩
  · exact ⟨r.goodChecksum, if_neg hcalc⟩

theorem deserialize_serialize (target : Ipv4Header) (hwire : h.FromWire) (rest : List UInt8) :
    ∃ h', target.deserialize (h.serialize ++ rest) = some h' ∧ SameFields h h' := by
  have hlength : UInt16.toNat 20 ≤ (h.serialize ++ rest).length := by
    rw [List.length_append, length_serialize]
    exact Nat.le_add_right _ _
  obtain ⟨good, hread⟩ :=
    deserialize_of_readFields (readFields_bytesWith target hwire _) hlength
  exact ⟨_, hread, rfl, rfl, rfl, rfl, rfl, rfl, rfl, rfl⟩

/-! ## Reading a well-formed header -/

theorem toNat_headerSize (verIhl : UInt8) :
    ((verIhl &&& 0x0f).toUInt16 * 4).toNat = 4 * (verIhl.toNat % 16) := by
  have hlow : (verIhl &&& 0x0f).toNat = verIhl.toNat % 16 := by
    rw [UInt8.toNat_and]
    exact Nat.and_two_pow_sub_one_eq_mod verIhl.toNat 4
  have hfour : UInt16.toNat 4 = 4 := rfl
  rw [UInt16.toNat_mul, UInt8.toNat_toUInt16, hlow, hfour]
  omega

theorem version_eq {verIhl : UInt8} (h : verIhl.toNat / 16 = 4) : verIhl >>> 4 = 4 := by
  have hshift : UInt8.toNat 4 % 8 = 4 := rfl
  apply UInt8.toNat_inj.mp
  rw [UInt8.toNat_shiftRight, hshift, Nat.shiftRight_eq_div_pow]
  exact h

theorem readFields_of_version (target : Ipv4Header) (hlength : 20 ≤ packet.length)
    (hversion : (packet.getD 0 0).toNat / 16 = 4) : ∃ r, target.readFields packet = some r ∧
      r.FromWire ∧ r.headerSize.toNat = 4 * ihl packet ∧ r.calcChecksum = target.calcChecksum := by
  match packet, hlength, hversion with
  | b₀ :: b₁ :: b₂ :: b₃ :: b₄ :: b₅ :: b₆ :: b₇ :: b₈ :: b₉ :: packet, hlength, hversion =>
      have hlength : 10 ≤ packet.length := by simpa using hlength
      match packet, hlength with
      | b₁₀ :: b₁₁ :: b₁₂ :: b₁₃ :: b₁₄ :: b₁₅ :: b₁₆ :: b₁₇ :: b₁₈ :: b₁₉ :: rest, _ =>
          have hfour : b₀ >>> 4 = 4 := version_eq hversion
          refine ⟨_, if_pos hfour, ⟨b₆, b₇, rfl, rfl⟩, toNat_headerSize b₀, rfl⟩

theorem WellFormed.twenty_le (hwell : WellFormed packet) : 20 ≤ packet.length := by
  have hfive := hwell.five_le
  have hlength := hwell.length
  omega

theorem WellFormed.removeHeader (hwell : WellFormed packet) (target : Ipv4Header) :
    ∃ h, target.removeHeader packet = some (h, packet.drop (4 * ihl packet)) ∧ h.FromWire := by
  obtain ⟨r, hread, hwire, hsize, -⟩ :=
    readFields_of_version target hwell.twenty_le hwell.version
  have hlength : r.headerSize.toNat ≤ packet.length := by
    rw [hsize]
    exact hwell.length
  obtain ⟨good, hdeserialize⟩ := deserialize_of_readFields hread hlength
  refine ⟨{ r with goodChecksum := good }, ?_, hwire⟩
  rw [Ipv4Header.removeHeader, hdeserialize, Option.map_some, getSerializedSize, hsize]

/-! ## Forwarding -/

theorem addHeader_drop (h : Ipv4Header) (space payload : List UInt8) :
    (h.addHeader space payload).drop (4 * ihl (h.addHeader space payload)) =
      space.drop 20 ++ payload := by
  rw [addHeader, List.append_assoc, ihl_serialize, length_serialize,
    List.drop_left' (length_serialize h)]

/-- The fields always survive. What stands between the header that was written and the payload is
the part of the space behind the 20 bytes. -/
theorem forwards_iff_drop (hwell : WellFormed packet) (space : List UInt8) :
    Forwards packet space ↔ space.drop 20 = [] := by
  constructor
  · intro hforwards
    obtain ⟨h, payload, -, -, -, -, hpayload⟩ := hforwards create create
    rw [addHeader_drop] at hpayload
    exact List.append_left_eq_self.mp hpayload
  · intro hspace target target'
    obtain ⟨h, hremove, hwire⟩ := hwell.removeHeader target
    have hhop : h.hop.FromWire := hwire
    refine ⟨h, _, hremove, ?_⟩
    obtain ⟨h', hread, hsame⟩ := deserialize_serialize target' hhop
      (space.drop 20 ++ packet.drop (4 * ihl packet))
    refine ⟨h', ?_, hsame, ?_⟩
    · rw [addHeader, List.append_assoc, length_serialize]
      exact hread
    · rw [addHeader_drop, hspace, List.nil_append]

/-- A header that is well formed is forwarded faithfully if and only if it has no options. -/
theorem forwards_iff (packet space : List UInt8) (hwell : WellFormed packet)
    (hspace : space.length = 4 * ihl packet) : Forwards packet space ↔ ihl packet = 5 := by
  have hfive := hwell.five_le
  rw [forwards_iff_drop hwell, List.drop_eq_nil_iff, hspace]
  omega

/-- A header of 20 bytes with four bytes of payload. -/
def plain : List UInt8 :=
  [0x45, 0, 0, 24, 0, 1, 0x40, 0, 64, 17, 0, 0, 10, 0, 0, 1, 10, 0, 0, 2, 1, 2, 3, 4]

/-- The same with a router alert. -/
def routerAlert : List UInt8 :=
  [0x46, 0, 0, 28, 0, 1, 0x40, 0, 64, 17, 0, 0, 10, 0, 0, 1, 10, 0, 0, 2, 148, 4, 0, 0,
    1, 2, 3, 4]

theorem forwards_plain : Forwards plain (List.replicate 20 0) ↔ ihl plain = 5 :=
  forwards_iff plain (List.replicate 20 0)
    ⟨by decide, by decide, by decide, by decide⟩ (by decide)

theorem not_forwards_routerAlert : ¬ ∀ packet space : List UInt8, WellFormed packet →
    space.length = 4 * ihl packet → Forwards packet space := by
  intro h
  have hwell : WellFormed routerAlert := ⟨by decide, by decide, by decide, by decide⟩
  have hforwards := h routerAlert (List.replicate 24 0) hwell (by decide)
  rw [forwards_iff_drop hwell] at hforwards
  exact absurd hforwards (by decide)

end Ipv4Header

end Ipv4Wire

end Ns3Rdma
