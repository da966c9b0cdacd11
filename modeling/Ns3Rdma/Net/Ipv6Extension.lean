import Mathlib.Algebra.Order.Ring.Nat
import Mathlib.Data.UInt
import Ns3Rdma.Lib.Word

/-!
# Fragmentation of IPv6 packets

`Ipv6ExtensionFragment::GetFragments` takes the unfragmentable extension headers from a packet,
cuts what follows them into pieces, and puts the headers in front of each piece again. A packet is
its IPv6 header and the bytes behind it.
-/

namespace Ns3Rdma.Ipv6

def hopByHop : UInt8 := 0

def routing : UInt8 := 43

def fragmentation : UInt8 := 44

def destination : UInt8 := 60

/-- The fields of `Ipv6Header` that are used here. -/
structure Ipv6Header where
  source : BitVec 128
  destination : BitVec 128
  nextHeader : UInt8
  payloadLength : UInt16
deriving DecidableEq

/-- A packet from its IPv6 header on. -/
structure Ipv6Packet where
  header : Ipv6Header
  bytes : List UInt8
deriving DecidableEq

/-- The size with the 40 bytes of the IPv6 header. -/
def Ipv6Packet.size (p : Ipv6Packet) : ℕ := 40 + p.bytes.length

/-! ## Extension headers -/

/-- A hop-by-hop, routing or destination header: its type, its two fields, and what follows. -/
structure ExtensionHeader where
  type : UInt8
  nextHeader : UInt8
  length : UInt8
  data : List UInt8
deriving DecidableEq

namespace ExtensionHeader

variable (h : ExtensionHeader)

def getLength : ℕ := (h.length.toNat + 1) * 8

def bytes : List UInt8 := h.nextHeader :: h.length :: h.data

/-- The length field is right, and a routing header consists of its fields, four reserved bytes
and whole addresses. -/
structure WellFormed : Prop where
  length_eq : h.data.length + 2 = h.getLength
  routing : h.type = Ipv6.routing →
    h.length.toNat % 2 = 0 ∧ (h.data.drop 2).take 4 = [0, 0, 0, 0]

end ExtensionHeader

/-- The bytes that deserialising a header reads behind its first two. -/
def dataSize (type length : UInt8) : ℕ :=
  if type = routing then 6 + 16 * (length.toNat / 2) else (length.toNat + 1) * 8 - 2

/-- `RemoveHeader` with a header of a type. The reserved bytes of a routing header are not kept. -/
def removeHeader (type : UInt8) : List UInt8 → Option (ExtensionHeader × List UInt8)
  | nextHeader :: length :: rest =>
      if rest.length < dataSize type length then none
      else
        let data := rest.take (dataSize type length)
        some (⟨type, nextHeader, length,
          if type = routing then data.take 2 ++ [0, 0, 0, 0] ++ data.drop 6 else data⟩,
          rest.drop (dataSize type length))
  | _ => none

/-- Whether the next header is unfragmentable too, in front of the bytes `p`. -/
def goesOn (nextHeader : UInt8) (p : List UInt8) : Bool :=
  nextHeader = hopByHop ∨ nextHeader = routing ∨
    nextHeader = destination ∧ p.head? = some routing

/-- The loop over the unfragmentable headers: the headers, the type of what follows, and what
follows. The next header of the last one becomes a fragment header. -/
def splitHeaders : ℕ → UInt8 → List UInt8 → Option (List ExtensionHeader × UInt8 × List UInt8)
  | 0, _, _ => none
  | fuel + 1, nextHeader, p =>
      (removeHeader nextHeader p).bind fun (h, rest) =>
        if goesOn h.nextHeader rest then
          (splitHeaders fuel h.nextHeader rest).map fun (hs, next, fragmentable) =>
            (h :: hs, next, fragmentable)
        else some ([{ h with nextHeader := fragmentation }], h.nextHeader, rest)

/-! ## Fragment headers -/

structure FragmentHeader where
  nextHeader : UInt8
  length : UInt8
  offset : UInt16
  identification : UInt32
deriving DecidableEq

namespace FragmentHeader

variable (h : FragmentHeader)

def setLength (length : ℕ) : FragmentHeader :=
  { h with length := UInt8.ofNat (length % 2 ^ 16 / 8) - 1 }

/-- The masks of the offset field as arithmetic: the lowest bit is kept, the lowest three bits of
the argument are cleared. -/
def setOffset (offset : UInt16) : FragmentHeader :=
  { h with offset := UInt16.ofNat (h.offset.toNat % 2 + offset.toNat / 8 * 8) }

def setMoreFragment (moreFragment : Bool) : FragmentHeader :=
  { h with offset := UInt16.ofNat (h.offset.toNat / 2 * 2 + moreFragment.toNat) }

def getOffset : UInt16 := UInt16.ofNat (h.offset.toNat / 2 * 2)

def getMoreFragment : Bool := h.offset.toNat % 2 = 1

/-- Numbers are in network order. -/
def bytes : List UInt8 :=
  [h.nextHeader, h.length, UInt8.ofNat (h.offset.toNat / 256), UInt8.ofNat h.offset.toNat,
    UInt8.ofNat (h.identification.toNat / 16777216), UInt8.ofNat (h.identification.toNat / 65536),
    UInt8.ofNat (h.identification.toNat / 256), UInt8.ofNat h.identification.toNat]

def removeHeader : List UInt8 → Option (FragmentHeader × List UInt8)
  | nextHeader :: length :: a :: b :: c :: d :: e :: f :: rest =>
      some (⟨nextHeader, length, UInt16.ofNat (a.toNat * 256 + b.toNat),
        UInt32.ofNat (c.toNat * 16777216 + d.toNat * 65536 + e.toNat * 256 + f.toNat)⟩, rest)
  | _ => none

theorem removeHeader_bytes (rest : List UInt8) :
    removeHeader (h.bytes ++ rest) = some (h, rest) := by
  have hoffset := h.offset.toNat_lt
  have hidentification := h.identification.toNat_lt
  simp only [bytes, List.cons_append, List.nil_append, removeHeader, UInt8.toNat_ofNat']
  congr
  · apply UInt16.toNat_inj.mp
    rw [UInt16.toNat_ofNat']
    omega
  · apply UInt32.toNat_inj.mp
    rw [UInt32.toNat_ofNat']
    omega

end FragmentHeader

/-! ## The fragments -/

/-- What the loop over the fragments reads. -/
structure Cutting where
  ipv6Header : Ipv6Header
  unfragmentablePart : List ExtensionHeader
  nextHeader : UInt8
  p : List UInt8
  maxFragmentablePartSize : UInt32
  identification : UInt32

namespace Cutting

variable (c : Cutting)

def fragmentHeader (offset : UInt16) (moreFragment : Bool) (size : ℕ) : FragmentHeader :=
  (((FragmentHeader.mk c.nextHeader 0 0 c.identification).setLength size).setOffset
    offset).setMoreFragment moreFragment

/-- The headers are put in front of a piece one after the other. -/
def fragment (offset : UInt16) (moreFragment : Bool) (piece : List UInt8) : Ipv6Packet :=
  let bytes := c.unfragmentablePart.foldl (fun bytes h => h.bytes ++ bytes)
    ((c.fragmentHeader offset moreFragment piece.length).bytes ++ piece)
  ⟨{ c.ipv6Header with payloadLength := UInt16.ofNat bytes.length }, bytes⟩

/-- The loop, for at most so many fragments. Every size is rounded down to a multiple of eight. -/
def loop : ℕ → UInt16 → Option (List Ipv6Packet)
  | 0, _ => none
  | fuel + 1, offset =>
      let moreFragment := decide
        ((offset.toNat + c.maxFragmentablePartSize.toNat) % 2 ^ 32 < c.p.length)
      let partSize :=
        if moreFragment then c.maxFragmentablePartSize.toNat else c.p.length - offset.toNat
      let currentFragmentablePartSize := partSize - partSize % 8
      let piece := (c.p.drop offset.toNat).take currentFragmentablePartSize
      if moreFragment then
        (loop fuel (offset + UInt16.ofNat currentFragmentablePartSize)).map
          (c.fragment offset moreFragment piece :: ·)
      else some [c.fragment offset moreFragment piece]

end Cutting

/-- The sum of the lengths, each one stored in eight bits. -/
def unfragmentablePartSize (unfragmentablePart : List ExtensionHeader) : UInt32 :=
  (unfragmentablePart.map fun h => UInt32.ofNat (h.getLength % 256)).sum

def cutting (packet : Ipv6Packet) (maxFragmentSize identification : UInt32) : Option Cutting :=
  let ipv6Header := packet.header
  if goesOn ipv6Header.nextHeader packet.bytes then
    (splitHeaders (packet.bytes.length + 1) ipv6Header.nextHeader packet.bytes).map
      fun (unfragmentablePart, nextHeader, p) =>
        ⟨ipv6Header, unfragmentablePart, nextHeader, p,
          maxFragmentSize - 40 - unfragmentablePartSize unfragmentablePart - 8, identification⟩
  else some ⟨{ ipv6Header with nextHeader := fragmentation }, [], ipv6Header.nextHeader,
    packet.bytes, maxFragmentSize - 40 - unfragmentablePartSize [] - 8, identification⟩

/-- `GetFragments`, with the identification that is drawn. -/
def getFragments (packet : Ipv6Packet) (maxFragmentSize identification : UInt32) :
    Option (List Ipv6Packet) :=
  (cutting packet maxFragmentSize identification).bind fun c => c.loop (c.p.length + 1) 0

/-! ## The unfragmentable headers of a packet -/

/-- The headers follow each other from the first type on, and the bytes behind the last one do
not begin with a further one. -/
def Chained : UInt8 → List ExtensionHeader → List UInt8 → Prop
  | next, [], fragmentable => goesOn next fragmentable = false
  | next, h :: hs, fragmentable =>
      (h.type = next ∧ h.WellFormed ∧
        goesOn next ((h :: hs).flatMap ExtensionHeader.bytes ++ fragmentable) = true) ∧
      Chained h.nextHeader hs fragmentable

/-- The headers as fragments carry them: behind the last one comes a fragment header. -/
def carried : List ExtensionHeader → List ExtensionHeader
  | [] => []
  | [h] => [{ h with nextHeader := fragmentation }]
  | h :: next :: hs => h :: carried (next :: hs)

/-- The type of what follows the headers. -/
def upper : UInt8 → List ExtensionHeader → UInt8
  | next, [] => next
  | _, h :: hs => upper h.nextHeader hs

/-- A packet with its unfragmentable headers and its fragmentable part. -/
structure Original where
  header : Ipv6Header
  extensions : List ExtensionHeader
  fragmentable : List UInt8
  chained : Chained header.nextHeader extensions fragmentable

namespace Original

def bytes (o : Original) : List UInt8 :=
  o.extensions.flatMap ExtensionHeader.bytes ++ o.fragmentable

def packet (o : Original) : Ipv6Packet := ⟨o.header, o.bytes⟩

/-- The headers that each fragment is to carry, in their order. -/
def front (o : Original) : List UInt8 := (carried o.extensions).flatMap ExtensionHeader.bytes

end Original

variable {h : ExtensionHeader}

theorem ExtensionHeader.WellFormed.dataSize_eq (hwell : h.WellFormed) :
    dataSize h.type h.length = h.data.length := by
  have hlength := hwell.length_eq
  unfold ExtensionHeader.getLength at hlength
  unfold dataSize
  split
  next hrouting =>
    have heven := (hwell.routing hrouting).1
    omega
  next => omega

/-- A well-formed header is removed as it is. -/
theorem removeHeader_bytes (hwell : h.WellFormed) (rest : List UInt8) :
    removeHeader h.type (h.bytes ++ rest) = some (h, rest) := by
  simp only [ExtensionHeader.bytes, List.cons_append, removeHeader, hwell.dataSize_eq]
  rw [if_neg (by simp), List.take_left, List.drop_left]
  split
  next hrouting =>
    obtain ⟨-, hreserved⟩ := hwell.routing hrouting
    have hdata : h.data.take 2 ++ [0, 0, 0, 0] ++ h.data.drop 6 = h.data := by
      rw [← hreserved, ← List.take_add, List.take_append_drop]
    rw [hdata]
  next => rfl

theorem splitHeaders_chained {next : UInt8} {hs : List ExtensionHeader} {fragmentable : List UInt8}
    (hchained : Chained next (h :: hs) fragmentable) {fuel : ℕ} (hfuel : hs.length < fuel) :
    splitHeaders fuel next ((h :: hs).flatMap ExtensionHeader.bytes ++ fragmentable) =
      some (carried (h :: hs), upper next (h :: hs), fragmentable) := by
  induction fuel generalizing next h hs with
  | zero => exact absurd hfuel (Nat.not_lt_zero _)
  | succ fuel ih =>
      obtain ⟨⟨htype, hwell, -⟩, hrest⟩ := hchained
      rw [← htype, List.flatMap_cons, List.append_assoc, splitHeaders, removeHeader_bytes hwell]
      simp only [Option.bind_some]
      cases hs with
      | nil =>
          rw [List.flatMap_nil, List.nil_append]
          rw [Chained] at hrest
          rw [hrest]
          rfl
      | cons second hs =>
          rw [if_pos hrest.1.2.2, ih hrest (Nat.lt_of_succ_lt_succ hfuel)]
          rfl

/-! ## What the loop cuts -/

/-- A part of the fragmentable bytes, and whether another one follows. -/
structure Piece where
  offset : ℕ
  more : Bool
  bytes : List UInt8
deriving DecidableEq

/-- The pieces of the bytes `rest` at a distance: none is longer than `size`, none but the last
one is empty, and they begin at multiples of eight. -/
inductive Cut (size : ℕ) : ℕ → List UInt8 → List Piece → Prop where
  | last {offset : ℕ} {rest : List UInt8} (haligned : offset % 8 = 0)
      (hlength : rest.length ≤ size) : Cut size offset rest [⟨offset, false, rest⟩]
  | more {offset : ℕ} {bytes rest : List UInt8} {pieces : List Piece}
      (haligned : offset % 8 = 0) (hlength : bytes.length ≤ size) (hpos : 0 < bytes.length)
      (hcut : Cut size (offset + bytes.length) rest pieces) :
      Cut size offset (bytes ++ rest) (⟨offset, true, bytes⟩ :: pieces)

namespace Cut

variable {size offset : ℕ} {rest : List UInt8} {pieces : List Piece}

theorem bounds (h : Cut size offset rest pieces) {x : Piece} (hx : x ∈ pieces) :
    x.offset % 8 = 0 ∧ x.bytes.length ≤ size ∧ offset ≤ x.offset ∧
      x.offset + x.bytes.length ≤ offset + rest.length := by
  induction h with
  | last haligned hlength =>
      rw [List.mem_singleton.mp hx]
      exact ⟨haligned, hlength, Nat.le_refl _, Nat.le_refl _⟩
  | more haligned hlength hpos hcut ih =>
      rw [List.length_append]
      rcases List.mem_cons.mp hx with rfl | hx
      · refine ⟨haligned, hlength, Nat.le_refl _, ?_⟩
        dsimp only
        omega
      · obtain ⟨haligned, hlength, hfirst, hlast⟩ := ih hx
        exact ⟨haligned, hlength, by omega, by omega⟩

theorem sorted (h : Cut size offset rest pieces) :
    pieces.Pairwise fun x y => x.offset < y.offset := by
  induction h with
  | last => exact List.pairwise_singleton _ _
  | more haligned hlength hpos hcut ih =>
      refine List.Pairwise.cons (fun y hy => ?_) ih
      have hfirst := (hcut.bounds hy).2.2.1
      dsimp only
      omega

theorem flatMap_bytes (h : Cut size offset rest pieces) : pieces.flatMap Piece.bytes = rest := by
  induction h with
  | last => simp
  | more haligned hlength hpos hcut ih => rw [List.flatMap_cons, ih]

end Cut

namespace Cutting

variable (c : Cutting)

def ofPiece (x : Piece) : Ipv6Packet := c.fragment (UInt16.ofNat x.offset) x.more x.bytes

variable {c}

/-- A length that is a multiple of eight is cut without a loss. -/
theorem loop_cut (hsize : 8 ≤ c.maxFragmentablePartSize.toNat) (hfits : c.p.length < 65536)
    (haligned : c.p.length % 8 = 0) {fuel offset : ℕ} (hoffset : offset % 8 = 0)
    (hle : offset ≤ c.p.length)
    (hwrap : offset + c.maxFragmentablePartSize.toNat < 2 ^ 32)
    (hfuel : c.p.length - offset < fuel) :
    ∃ pieces, Cut c.maxFragmentablePartSize.toNat offset (c.p.drop offset) pieces ∧
      c.loop fuel (UInt16.ofNat offset) = some (pieces.map c.ofPiece) := by
  induction fuel generalizing offset with
  | zero => exact absurd hfuel (Nat.not_lt_zero _)
  | succ fuel ih =>
      have htoNat : (UInt16.ofNat offset).toNat = offset := by
        rw [UInt16.toNat_ofNat']
        omega
      rw [loop, htoNat, Nat.mod_eq_of_lt hwrap]
      by_cases hmore : offset + c.maxFragmentablePartSize.toNat < c.p.length
      · rw [decide_eq_true hmore]
        simp only [if_true]
        let size := c.maxFragmentablePartSize.toNat - c.maxFragmentablePartSize.toNat % 8
        have hlength : ((c.p.drop offset).take size).length = size := by
          rw [List.length_take, List.length_drop]
          omega
        obtain ⟨pieces, hcut, hloop⟩ := @ih (offset + size) (by omega) (by omega)
          (by omega) (by omega)
        refine ⟨⟨offset, true, (c.p.drop offset).take size⟩ :: pieces, ?_, ?_⟩
        · have hsplit : c.p.drop offset =
              (c.p.drop offset).take size ++ c.p.drop (offset + size) := by
            rw [← List.drop_drop, List.take_append_drop]
          have hmorePiece : Cut c.maxFragmentablePartSize.toNat offset
              ((c.p.drop offset).take size ++ c.p.drop (offset + size))
              (⟨offset, true, (c.p.drop offset).take size⟩ :: pieces) :=
            Cut.more hoffset (by omega) (by omega) (by rw [hlength]; exact hcut)
          rw [← hsplit] at hmorePiece
          exact hmorePiece
        · rw [← UInt16.ofNat_add, hloop]
          rfl
      · rw [decide_eq_false hmore]
        simp only [Bool.false_eq_true, if_false]
        have hround : c.p.length - offset - (c.p.length - offset) % 8 = c.p.length - offset := by
          omega
        rw [hround, List.take_of_length_le (Nat.le_of_eq (List.length_drop ..))]
        refine ⟨[⟨offset, false, c.p.drop offset⟩], Cut.last hoffset ?_, rfl⟩
        rw [List.length_drop]
        omega

/-- Every run of the loop ends with a fragment. -/
theorem exists_of_loop {fuel : ℕ} {offset : UInt16} {fragments : List Ipv6Packet}
    (hloop : c.loop fuel offset = some fragments) :
    ∃ f ∈ fragments, ∃ start more piece, f = c.fragment start more piece := by
  cases fuel with
  | zero => cases hloop
  | succ fuel =>
      rw [loop] at hloop
      split at hloop
      · obtain ⟨rest, -, rfl⟩ := Option.map_eq_some_iff.mp hloop
        exact ⟨_, List.mem_cons_self, _, _, _, rfl⟩
      · obtain rfl := Option.some.inj hloop
        exact ⟨_, List.mem_cons_self, _, _, _, rfl⟩

/-- The header that was put in front last comes first. -/
theorem head?_prepend (hs : List ExtensionHeader) (bytes : List UInt8) :
    (hs.foldl (fun bytes h => h.bytes ++ bytes) bytes).head? =
      (hs.getLast?.map ExtensionHeader.nextHeader).or bytes.head? := by
  induction hs using List.reverseRecOn with
  | nil => rfl
  | append_singleton hs h ih => simp [ExtensionHeader.bytes]

end Cutting

/-- The last header is followed by a fragment header. -/
theorem carried_getLast? (h : ExtensionHeader) (hs : List ExtensionHeader) :
    (carried (h :: hs)).getLast?.map ExtensionHeader.nextHeader = some fragmentation := by
  induction hs generalizing h with
  | nil => rfl
  | cons second hs ih =>
      have hne : carried (second :: hs) ≠ [] := by
        cases hs <;> exact List.cons_ne_nil _ _
      rw [carried, List.getLast?_cons_of_ne_nil hne]
      exact ih second

theorem ne_fragmentation_of_goesOn {next : UInt8} {p : List UInt8} (h : goesOn next p = true) :
    next ≠ fragmentation := by
  rintro rfl
  simp [goesOn, fragmentation, hopByHop, routing, destination] at h

end Ns3Rdma.Ipv6
