import Mathlib.Data.List.Basic
import Mathlib.Data.UInt
import Ns3Rdma.Lib.Tiling
import Ns3Rdma.Lib.Word

/-!
# Fragmentation of IPv4 packets

`Ipv4L3Protocol::DoFragmentation` cuts the payload behind a header without options into
pieces of the largest multiple of eight bytes that fits the device. A packet is its header
and the bytes behind it.
-/

namespace Ns3Rdma.Ipv4

/-- The fields of `Ipv4Header` that fragmentation reads or writes, `m_flags` as its two bits. -/
structure Ipv4Header where
  source : UInt32
  destination : UInt32
  identification : UInt16
  protocol : UInt8
  dontFragment : Bool
  moreFragments : Bool
  /-- `m_fragmentOffset`, in bytes. -/
  fragmentOffset : UInt16
  payloadSize : UInt16
  deriving DecidableEq, Repr

namespace Ipv4Header

/-- `GetSerializedSize` of a header without options. -/
def serializedSize : UInt32 := 5 * 4

def setMoreFragments (h : Ipv4Header) : Ipv4Header := { h with moreFragments := true }

def setLastFragment (h : Ipv4Header) : Ipv4Header := { h with moreFragments := false }

def isLastFragment (h : Ipv4Header) : Bool := !h.moreFragments

/-- `SetFragmentOffset`; an offset that is no multiple of eight aborts. -/
def setFragmentOffset (h : Ipv4Header) (offsetBytes : UInt16) : Option Ipv4Header :=
  if offsetBytes &&& 0x7 ≠ 0 then none else some { h with fragmentOffset := offsetBytes }

def setPayloadSize (h : Ipv4Header) (size : UInt16) : Ipv4Header := { h with payloadSize := size }

end Ipv4Header

/-- A packet from its IPv4 header on. -/
structure Ipv4Packet where
  header : Ipv4Header
  payload : List UInt8
  deriving DecidableEq, Repr

/-- `Packet::CreateFragment`. -/
def createFragment (bytes : List UInt8) (start length : Nat) : List UInt8 :=
  (bytes.drop start).take length

/-- The local variables of `DoFragmentation` that its loop only reads. -/
structure Fragmentation where
  ipv4Header : Ipv4Header
  p : List UInt8
  originalOffset : UInt16
  alreadyFragmented : Bool
  fragmentSize : UInt32

/-- One fragment of the loop, cut at `offset`. -/
def Fragmentation.fragment (f : Fragmentation) (offset : Nat) (moreFragment : Bool)
    (currentFragmentablePartSize : Nat) : Option Ipv4Packet :=
  let fragmentHeader :=
    if moreFragment || f.alreadyFragmented then f.ipv4Header.setMoreFragments
    else f.ipv4Header.setLastFragment
  (fragmentHeader.setFragmentOffset (UInt16.ofNat (offset + f.originalOffset.toNat))).map
    fun fragmentHeader =>
      ⟨fragmentHeader.setPayloadSize (UInt16.ofNat currentFragmentablePartSize),
        createFragment f.p offset currentFragmentablePartSize⟩

/-- The loop of `DoFragmentation` from `offset` (16 bits), for at most `fuel` rounds. -/
def Fragmentation.loop (f : Fragmentation) : Nat → Nat → Option (List Ipv4Packet)
  | 0, _ => none
  | fuel + 1, offset =>
      let moreFragment := decide (f.p.length > (offset + f.fragmentSize.toNat) % 2 ^ 32)
      let currentFragmentablePartSize :=
        if moreFragment then f.fragmentSize.toNat else f.p.length - offset
      (f.fragment offset moreFragment currentFragmentablePartSize).bind fun fragment =>
        if moreFragment then
          (f.loop fuel ((offset + currentFragmentablePartSize) % 2 ^ 16)).map (fragment :: ·)
        else some [fragment]

/-- The part of the device's MTU that fragments fill. -/
def fragmentSize (outIfaceMtu : UInt32) : UInt32 :=
  (outIfaceMtu - Ipv4Header.serializedSize) &&& ~~~ 0x7

/-- The locals of `DoFragmentation` at the head of its loop. -/
def fragmentation (packet : Ipv4Packet) (outIfaceMtu : UInt32) : Fragmentation where
  ipv4Header := packet.header
  p := packet.payload
  originalOffset := if packet.header.isLastFragment then 0 else packet.header.fragmentOffset
  alreadyFragmented := !packet.header.isLastFragment
  fragmentSize := fragmentSize outIfaceMtu

/-- `DoFragmentation`: the list of fragments. Each round but the last takes a byte or more,
so the fuel suffices (`doFragmentation_cut`). -/
def doFragmentation (packet : Ipv4Packet) (outIfaceMtu : UInt32) : Option (List Ipv4Packet) :=
  (fragmentation packet outIfaceMtu).loop (packet.payload.length + 1) 0

/-! ## What the loop produces -/

/-- First byte of a fragment in its datagram. -/
def Ipv4Packet.start (p : Ipv4Packet) : Nat := p.header.fragmentOffset.toNat

/-- End of a fragment in its datagram. -/
def Ipv4Packet.stop (p : Ipv4Packet) : Nat := p.start + p.payload.length

/-- The fragment with the given bytes at a distance from the start of the input. -/
def Fragmentation.piece (f : Fragmentation) (offset : Nat) (moreFragment : Bool)
    (bytes : List UInt8) : Ipv4Packet where
  header := { f.ipv4Header with
    moreFragments := moreFragment || f.alreadyFragmented
    fragmentOffset := UInt16.ofNat (offset + f.originalOffset.toNat)
    payloadSize := UInt16.ofNat bytes.length }
  payload := bytes

/-- The fragments of the bytes `rest` at distance `offset`: full ones, and a last one that
is not longer. -/
inductive Cut (f : Fragmentation) : Nat → List UInt8 → List Ipv4Packet → Prop where
  | last {offset : Nat} {rest : List UInt8} (hlength : rest.length ≤ f.fragmentSize.toNat) :
      Cut f offset rest [f.piece offset false rest]
  | more {offset : Nat} {bytes rest : List UInt8} {fragments : List Ipv4Packet}
      (hlength : bytes.length = f.fragmentSize.toNat) (hrest : rest ≠ [])
      (hcut : Cut f (offset + bytes.length) rest fragments) :
      Cut f offset (bytes ++ rest) (f.piece offset true bytes :: fragments)

theorem and_seven_eq_zero {x : UInt16} (h : x.toNat % 8 = 0) : x &&& 0x7 = 0 := by
  apply UInt16.toNat.inj
  rw [UInt16.toNat_and]
  exact (Nat.and_two_pow_sub_one_eq_mod x.toNat 3).trans h

theorem fragment_eq (f : Fragmentation) {offset size : Nat} (moreFragment : Bool)
    (hoffset : offset % 8 = 0) (horiginal : f.originalOffset.toNat % 8 = 0)
    (hsize : size ≤ f.p.length - offset) :
    f.fragment offset moreFragment size =
      some (f.piece offset moreFragment (createFragment f.p offset size)) := by
  have haligned : UInt16.ofNat (offset + f.originalOffset.toNat) &&& 0x7 = 0 := by
    apply and_seven_eq_zero
    rw [UInt16.toNat_ofNat']
    omega
  have hlength : (createFragment f.p offset size).length = size := by
    rw [createFragment, List.length_take, List.length_drop]
    omega
  unfold Fragmentation.fragment Fragmentation.piece Ipv4Header.setFragmentOffset
  rw [hlength]
  generalize UInt16.ofNat (offset + f.originalOffset.toNat) = offsetBytes at haligned
  cases moreFragment <;> cases f.alreadyFragmented <;>
    simp [haligned, Ipv4Header.setMoreFragments, Ipv4Header.setLastFragment,
      Ipv4Header.setPayloadSize]

/-- The loop ends, and it cuts the rest of the payload. -/
theorem loop_cut (f : Fragmentation) (hp : f.p.length < 2 ^ 16)
    (horiginal : f.originalOffset.toNat % 8 = 0) (hsize : f.fragmentSize.toNat % 8 = 0)
    (hpos : 0 < f.fragmentSize.toNat) {fuel offset : Nat} (hfuel : f.p.length - offset < fuel)
    (hoffset : offset % 8 = 0) (hin : offset ≤ f.p.length)
    (hfit : offset = 0 ∨ f.fragmentSize.toNat < 2 ^ 16) :
    ∃ fragments, f.loop fuel offset = some fragments ∧
      Cut f offset (f.p.drop offset) fragments := by
  induction fuel generalizing offset with
  | zero => omega
  | succ fuel ih =>
      have hwide : (offset + f.fragmentSize.toNat) % 2 ^ 32 = offset + f.fragmentSize.toNat := by
        have := f.fragmentSize.toNat_lt
        omega
      unfold Fragmentation.loop
      rw [hwide]
      by_cases hmore : f.p.length > offset + f.fragmentSize.toNat
      · have hnext : (offset + f.fragmentSize.toNat) % 2 ^ 16 = offset + f.fragmentSize.toNat := by
          omega
        have hbytes : (createFragment f.p offset f.fragmentSize.toNat).length =
            f.fragmentSize.toNat := by
          rw [createFragment, List.length_take, List.length_drop]
          omega
        obtain ⟨fragments, hloop, hcut⟩ := @ih (offset + f.fragmentSize.toNat)
          (by omega) (by omega) (by omega) (by omega)
        refine ⟨f.piece offset true (createFragment f.p offset f.fragmentSize.toNat) :: fragments,
          ?_, ?_⟩
        · simp only [hmore, decide_true, if_true]
          rw [fragment_eq f true hoffset horiginal (by omega), Option.bind_some, hnext, hloop,
            Option.map_some]
        · have hsplit : f.p.drop offset = createFragment f.p offset f.fragmentSize.toNat ++
              f.p.drop (offset + f.fragmentSize.toNat) := by
            rw [createFragment, ← List.drop_drop, List.take_append_drop]
          rw [hsplit]
          refine Cut.more hbytes ?_ (by rw [hbytes]; exact hcut)
          intro hnil
          have := List.drop_eq_nil_iff.mp hnil
          omega
      · have hall : createFragment f.p offset (f.p.length - offset) = f.p.drop offset := by
          rw [createFragment, List.take_of_length_le]
          rw [List.length_drop]
        refine ⟨[f.piece offset false (f.p.drop offset)], ?_, Cut.last ?_⟩
        · simp only [hmore, decide_false, Bool.false_eq_true, if_false]
          rw [fragment_eq f false hoffset horiginal (Nat.le_refl _), Option.bind_some, hall]
        · rw [List.length_drop]
          omega

/-- `& ~uint32_t (0x7)` clears the last three bits. -/
theorem toNat_and_not_seven (x : UInt32) : (x &&& ~~~ 0x7).toNat = x.toNat / 8 * 8 :=
  UInt32.toNat_and_not_low x 3

theorem fragmentSize_toNat {outIfaceMtu : UInt32} (hmtu : 28 ≤ outIfaceMtu.toNat) :
    (fragmentSize outIfaceMtu).toNat = (outIfaceMtu.toNat - 20) / 8 * 8 := by
  have hsize : Ipv4Header.serializedSize.toNat = 20 := rfl
  rw [fragmentSize, toNat_and_not_seven, UInt32.toNat_sub_of_le, hsize]
  rw [UInt32.le_iff_toNat_le, hsize]
  omega

/-- `DoFragmentation` succeeds and cuts the whole payload. -/
theorem doFragmentation_cut {packet : Ipv4Packet} {outIfaceMtu : UInt32}
    (hlength : packet.payload.length ≤ 65515) (hmtu : 28 ≤ outIfaceMtu.toNat)
    (haligned : packet.header.moreFragments = true → packet.start % 8 = 0) :
    ∃ fragments, doFragmentation packet outIfaceMtu = some fragments ∧
      Cut (fragmentation packet outIfaceMtu) 0 packet.payload fragments := by
  have hsize := fragmentSize_toNat hmtu
  have horiginal : (fragmentation packet outIfaceMtu).originalOffset.toNat % 8 = 0 := by
    unfold fragmentation
    dsimp only
    split
    next => rfl
    next hflag => exact haligned (by simpa [Ipv4Header.isLastFragment] using hflag)
  refine loop_cut (fragmentation packet outIfaceMtu) (Nat.lt_of_le_of_lt hlength (by decide))
    horiginal ?_ ?_ (Nat.lt_succ_self _) (by rfl) (Nat.zero_le _) (Or.inl rfl)
  · change (fragmentSize outIfaceMtu).toNat % 8 = 0
    omega
  · change 0 < (fragmentSize outIfaceMtu).toNat
    omega

/-! ## Soundness of one call -/

namespace Cut

variable {f : Fragmentation} {offset : Nat} {rest : List UInt8} {fragments : List Ipv4Packet}

theorem bytes (h : Cut f offset rest fragments) : fragments.flatMap Ipv4Packet.payload = rest := by
  induction h with
  | last _ => simp [Fragmentation.piece]
  | more _ _ _ ih => rw [List.flatMap_cons, ih, Fragmentation.piece]

/-- Every fragment but the final one has more-fragments set. -/
theorem flags (h : Cut f offset rest fragments) :
    ∃ init final, fragments = init ++ [final] ∧
      (∀ x ∈ init, x.header.moreFragments = true) ∧
      final.header.moreFragments = f.alreadyFragmented := by
  induction h with
  | last _ => exact ⟨[], _, rfl, by simp, rfl⟩
  | more _ _ _ ih =>
      obtain ⟨init, final, rfl, hinit, hfinal⟩ := ih
      refine ⟨_ :: init, final, rfl, ?_, hfinal⟩
      intro x hx
      rcases List.mem_cons.mp hx with rfl | hx
      · rfl
      · exact hinit x hx

/-- The other header fields are those of the input. -/
theorem header (h : Cut f offset rest fragments) {x : Ipv4Packet} (hx : x ∈ fragments) :
    x.header = { f.ipv4Header with
      moreFragments := x.header.moreFragments
      fragmentOffset := x.header.fragmentOffset
      payloadSize := UInt16.ofNat x.payload.length } := by
  induction h with
  | last _ =>
      obtain rfl := List.mem_singleton.mp hx
      rfl
  | more _ _ _ ih =>
      rcases List.mem_cons.mp hx with rfl | hx
      · rfl
      · exact ih hx

/-- Only the single fragment of an empty payload is empty. -/
theorem nonempty (h : Cut f offset rest fragments) (hpos : 0 < f.fragmentSize.toNat)
    {x : Ipv4Packet} (hx : x ∈ fragments) : x.payload ≠ [] ∨ rest = [] := by
  induction h with
  | @last offset rest _ =>
      obtain rfl := List.mem_singleton.mp hx
      by_cases hempty : rest = []
      · exact Or.inr hempty
      · exact Or.inl hempty
  | @more offset bytes rest fragments hlength hrest hcut ih =>
      refine Or.inl ?_
      rcases List.mem_cons.mp hx with rfl | hx
      · exact List.ne_nil_of_length_pos (hlength ▸ hpos)
      · exact (ih hx).resolve_right hrest

/-- An empty payload gives one fragment. -/
theorem eq_singleton (h : Cut f offset [] fragments) : ∃ x, fragments = [x] := by
  generalize hrest : ([] : List UInt8) = rest at h
  cases h with
  | last _ => exact ⟨_, rfl⟩
  | more _ hne _ => exact absurd (List.append_eq_nil_iff.mp hrest.symm).2 hne

/-- All offsets are multiples of eight. -/
theorem aligned (h : Cut f offset rest fragments) (hsize : f.fragmentSize.toNat % 8 = 0)
    (horiginal : f.originalOffset.toNat % 8 = 0) (hoffset : offset % 8 = 0) {x : Ipv4Packet}
    (hx : x ∈ fragments) : x.start % 8 = 0 := by
  have hstart {offset : Nat} {more : Bool} {bytes : List UInt8} (hoffset : offset % 8 = 0) :
      (f.piece offset more bytes).start % 8 = 0 := by
    change (UInt16.ofNat _).toNat % 8 = 0
    rw [UInt16.toNat_ofNat']
    omega
  induction h with
  | last _ =>
      obtain rfl := List.mem_singleton.mp hx
      exact hstart hoffset
  | more hlength _ _ ih =>
      rcases List.mem_cons.mp hx with rfl | hx
      · exact hstart hoffset
      · exact ih (by omega) hx

/-- Distance of the last fragment from the first one. -/
theorem last_start {bytes rest : List UInt8} {size : Nat} (hlength : bytes.length = size)
    (hpos : 0 < size) (hrest : rest ≠ []) :
    ((bytes ++ rest).length - 1) / size * size = size + (rest.length - 1) / size * size := by
  have hrestLength := List.length_pos_of_ne_nil hrest
  rw [List.length_append, hlength, Nat.add_sub_assoc hrestLength, Nat.add_div_left _ hpos,
    Nat.succ_mul, Nat.add_comm]

/-- Without overflow of the 16-bit offset the fragments tile the range of the bytes. -/
theorem tiles (h : Cut f offset rest fragments) (hpos : 0 < f.fragmentSize.toNat)
    (hfit : f.originalOffset.toNat + offset +
      (rest.length - 1) / f.fragmentSize.toNat * f.fragmentSize.toNat < 2 ^ 16) :
    Tiles Ipv4Packet.start Ipv4Packet.stop fragments (f.originalOffset.toNat + offset)
      (f.originalOffset.toNat + offset + rest.length) := by
  have hstart {offset : Nat} {more : Bool} {bytes : List UInt8}
      (hlt : f.originalOffset.toNat + offset < 2 ^ 16) :
      (f.piece offset more bytes).start = f.originalOffset.toNat + offset := by
    change (UInt16.ofNat _).toNat = _
    rw [UInt16.toNat_ofNat', Nat.add_comm]
    exact Nat.mod_eq_of_lt hlt
  induction h with
  | last _ =>
      exact ⟨hstart (by omega), by rw [Ipv4Packet.stop, hstart (by omega)]; omega,
        by rw [Ipv4Packet.stop, hstart (by omega)]; rfl⟩
  | @more offset bytes rest fragments hlength hrest hcut ih =>
      rw [last_start hlength hpos hrest] at hfit
      have hstop : (f.piece offset true bytes).stop =
          f.originalOffset.toNat + offset + bytes.length := by
        rw [Ipv4Packet.stop, hstart (by omega)]
        rfl
      refine ⟨hstart (by omega), by rw [hstop]; omega, ?_⟩
      rw [hstop, List.length_append, ← Nat.add_assoc _ bytes.length, Nat.add_assoc _ offset]
      exact ih (by omega)

/-- Fragments that tile a range start below `2 ^ 16`. -/
theorem fits_of_tiles (h : Cut f offset rest fragments) (hpos : 0 < f.fragmentSize.toNat)
    {first last : Nat} (htiles : Tiles Ipv4Packet.start Ipv4Packet.stop fragments first last) :
    first + (rest.length - 1) / f.fragmentSize.toNat * f.fragmentSize.toNat < 2 ^ 16 := by
  induction h generalizing first with
  | @last offset rest hlength =>
      have hzero : (rest.length - 1) / f.fragmentSize.toNat = 0 := Nat.div_eq_of_lt (by omega)
      rw [hzero, Nat.zero_mul, ← htiles.1]
      exact UInt16.toNat_lt _
  | @more offset bytes rest fragments hlength hrest hcut ih =>
      have hstop : (f.piece offset true bytes).stop = first + bytes.length := by
        rw [← htiles.1]
        rfl
      have := ih (hstop ▸ htiles.2.2)
      rw [last_start hlength hpos hrest]
      omega

/-- The first fragment has the offset that the code carried over. -/
theorem first_of_tiles (h : Cut f 0 rest fragments) {first last : Nat}
    (htiles : Tiles Ipv4Packet.start Ipv4Packet.stop fragments first last) :
    first = f.originalOffset.toNat := by
  have hstart {more : Bool} {bytes : List UInt8} :
      (f.piece 0 more bytes).start = f.originalOffset.toNat := by
    change (UInt16.ofNat _).toNat = _
    rw [Nat.zero_add, UInt16.ofNat_toNat]
  cases h with
  | last _ => exact htiles.1.symm.trans hstart
  | more _ _ _ => exact htiles.1.symm.trans hstart

end Cut

/-- The fragments partition the range of the input in increasing order with the same bytes,
and the flag of the input stands on the final one. -/
structure Sound (packet : Ipv4Packet) (fragments : List Ipv4Packet) : Prop where
  tiles : Tiles Ipv4Packet.start Ipv4Packet.stop fragments packet.start packet.stop
  bytes : fragments.flatMap Ipv4Packet.payload = packet.payload
  flags : ∃ init final, fragments = init ++ [final] ∧
    (∀ x ∈ init, x.header.moreFragments = true) ∧
    final.header.moreFragments = packet.header.moreFragments

/-- The input is not a last fragment behind the first byte, and the offset of the last
piece to be cut has 16 bits. -/
def Fragmentable (packet : Ipv4Packet) (outIfaceMtu : UInt32) : Prop :=
  (packet.header.moreFragments = true ∨ packet.header.fragmentOffset = 0) ∧
    packet.start + (packet.payload.length - 1) / (fragmentSize outIfaceMtu).toNat *
      (fragmentSize outIfaceMtu).toNat < 2 ^ 16

theorem Cut.sound_iff {packet : Ipv4Packet} {outIfaceMtu : UInt32} {fragments : List Ipv4Packet}
    (h : Cut (fragmentation packet outIfaceMtu) 0 packet.payload fragments)
    (hmtu : 28 ≤ outIfaceMtu.toNat) :
    Sound packet fragments ↔ Fragmentable packet outIfaceMtu := by
  have hpos : 0 < (fragmentSize outIfaceMtu).toNat := by
    rw [fragmentSize_toNat hmtu]
    omega
  constructor
  · intro hsound
    refine ⟨?_, h.fits_of_tiles hpos hsound.tiles⟩
    have hfirst := h.first_of_tiles hsound.tiles
    by_cases hflag : packet.header.moreFragments = true
    · exact Or.inl hflag
    · refine Or.inr (UInt16.toNat.inj ?_)
      simpa [fragmentation, Ipv4Header.isLastFragment, hflag, Ipv4Packet.start] using hfirst
  · rintro ⟨hoffset, hfit⟩
    have hfirst : (fragmentation packet outIfaceMtu).originalOffset.toNat = packet.start := by
      rcases hoffset with hflag | hzero
      · simp [fragmentation, Ipv4Header.isLastFragment, hflag, Ipv4Packet.start]
      · simp [fragmentation, hzero, Ipv4Packet.start]
    have htiles := h.tiles hpos (by rw [hfirst]; exact hfit)
    rw [hfirst] at htiles
    refine ⟨htiles, h.bytes, ?_⟩
    simpa [fragmentation, Ipv4Header.isLastFragment] using h.flags

end Ns3Rdma.Ipv4
