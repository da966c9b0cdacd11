import Ns3Rdma.Net.Ipv4Header
import Ns3Rdma.Wifi.MacRxMiddle

/-! # Aggregated MSDUs

`Aggregate` pads what it has to a multiple of four bytes and puts the next subframe behind it.
`Deaggregate` computes the padding of each subframe from its length. `none` stands for a failed
assertion, or for a packet of 2 ^ 32 bytes or more, which cannot be built. -/

namespace Ns3Rdma.Wifi

open Writer Reader

/-! ## Subframe headers -/

structure AmsduSubframeHeader where
  da : Mac48Address
  sa : Mac48Address
  length : UInt16
deriving DecidableEq

/-- `ReadFrom`. -/
def Mac48Address.readFrom (bytes : List UInt8) : Option (Mac48Address × List UInt8) :=
  if h : 6 ≤ bytes.length then
    some (⟨⟨(bytes.take 6).toArray, by simpa using h⟩⟩, bytes.drop 6)
  else none

theorem Mac48Address.readFrom_append (a : Mac48Address) (rest : List UInt8) :
    readFrom (a.address.toList ++ rest) = some (a, rest) := by
  obtain ⟨⟨bytes, hbytes⟩⟩ := a
  have hlen : bytes.toList.length = 6 := hbytes
  have h : 6 ≤ (bytes.toList ++ rest).length := by
    rw [List.length_append]
    omega
  have htake : (bytes.toList ++ rest).take 6 = bytes.toList := List.take_left' hlen
  have hdrop : (bytes.toList ++ rest).drop 6 = rest := List.drop_left' hlen
  unfold readFrom
  rw [Vector.toList_mk, dif_pos h]
  simp only [htake, hdrop, Array.toArray_toList]

namespace AmsduSubframeHeader

def serialize (h : AmsduSubframeHeader) : List UInt8 :=
  h.da.address.toList ++ h.sa.address.toList ++ u16 h.length

def deserialize (bytes : List UInt8) : Option (AmsduSubframeHeader × List UInt8) :=
  (Mac48Address.readFrom bytes).bind fun da =>
  (Mac48Address.readFrom da.2).bind fun sa =>
  (readU16 sa.2).map fun length => (⟨da.1, sa.1, length.1⟩, length.2)

theorem length_serialize (h : AmsduSubframeHeader) : h.serialize.length = 14 := by
  simp [serialize, u16]

theorem deserialize_serialize (h : AmsduSubframeHeader) (rest : List UInt8) :
    deserialize (h.serialize ++ rest) = some (h, rest) := by
  unfold deserialize serialize
  rw [List.append_assoc, List.append_assoc, Mac48Address.readFrom_append, Option.bind_some,
    Mac48Address.readFrom_append, Option.bind_some, Ipv4Wire.Ipv4Header.readU16_u16,
    Option.map_some]

theorem deserialize_length {bytes : List UInt8} {r : AmsduSubframeHeader × List UInt8}
    (h : deserialize bytes = some r) : r.2.length < bytes.length := by
  obtain ⟨da, hda, h⟩ := Option.bind_eq_some_iff.mp h
  obtain ⟨sa, hsa, h⟩ := Option.bind_eq_some_iff.mp h
  obtain ⟨length, hlength, rfl⟩ := Option.map_eq_some_iff.mp h
  unfold Mac48Address.readFrom at hda hsa
  split at hda
  · next hle =>
    split at hsa
    · have hda' := congrArg (fun r => r.2.length) (Option.some_inj.mp hda)
      have hsa' := congrArg (fun r => r.2.length) (Option.some_inj.mp hsa)
      simp only [List.length_drop] at hda' hsa'
      have hrest : length.2.length ≤ sa.2.length := by
        rcases hbytes : sa.2 with _ | ⟨low, _ | ⟨high, rest⟩⟩
        · rw [hbytes] at hlength
          exact absurd hlength (by simp [readU16])
        · rw [hbytes] at hlength
          exact absurd hlength (by simp [readU16])
        · rw [hbytes] at hlength
          rw [← Option.some_inj.mp hlength, List.length_cons, List.length_cons]
          exact Nat.le_add_right _ 2
      dsimp only
      omega
    · exact absurd hsa (by simp)
  · exact absurd hda (by simp)

end AmsduSubframeHeader

/-! ## Aggregation -/

/-- An MSDU with its addresses. -/
structure Msdu where
  packet : Packet
  src : Mac48Address
  dest : Mac48Address
deriving DecidableEq

namespace MsduAggregator

/-- `GetSize`. -/
def getSize (packet : Packet) : UInt32 := UInt32.ofNat packet.length

def calculatePadding (packet : Packet) : UInt32 := (4 - getSize packet % 4) % 4

/-- The header of an MSDU. -/
def subframeHeader (m : Msdu) : AmsduSubframeHeader :=
  ⟨m.dest, m.src, (getSize m.packet).toUInt16⟩

/-- `Aggregate`: whether the packet fits, and the aggregated packet afterwards. -/
def aggregate (maxAmsduLength : UInt32) (m : Msdu) (aggregatedPacket : Packet) :
    Option (Bool × Packet) :=
  let padding := calculatePadding aggregatedPacket
  let actualSize := getSize aggregatedPacket
  if 14 + getSize m.packet + actualSize + padding ≤ maxAmsduLength then
    let result := aggregatedPacket ++ List.replicate padding.toNat 0 ++
      ((subframeHeader m).serialize ++ m.packet)
    if result.length < 2 ^ 32 then some (true, result) else none
  else some (false, aggregatedPacket)

/-- Offer MSDUs one after another: the accepted ones, and the aggregated packet. -/
def aggregateAll (maxAmsduLength : UInt32) :
    List Msdu → List Msdu → Packet → Option (List Msdu × Packet)
  | [], accepted, aggregatedPacket => some (accepted, aggregatedPacket)
  | m :: offered, accepted, aggregatedPacket =>
      (aggregate maxAmsduLength m aggregatedPacket).bind fun r =>
        aggregateAll maxAmsduLength offered (if r.1 then accepted ++ [m] else accepted) r.2

/-- The loop of `Deaggregate`. -/
def deaggregateFrom (maxSize deserialized : UInt32) (aggregatedPacket : Packet) :
    Option (List (Packet × AmsduSubframeHeader)) :=
  if deserialized < maxSize then
    match _hread : AmsduSubframeHeader.deserialize aggregatedPacket with
    | none => none
    | some hdr =>
        if hdr.1.length.toNat ≤ hdr.2.length then
          let deserialized := deserialized + 14 + hdr.1.length.toUInt32
          let padding := (4 - (hdr.1.length.toUInt32 + 14) % 4) % 4
          let rest := hdr.2.drop hdr.1.length.toNat
          if padding > 0 ∧ deserialized < maxSize then
            (deaggregateFrom maxSize (deserialized + padding) (rest.drop padding.toNat)).map
              ((hdr.2.take hdr.1.length.toNat, hdr.1) :: ·)
          else
            (deaggregateFrom maxSize deserialized rest).map
              ((hdr.2.take hdr.1.length.toNat, hdr.1) :: ·)
        else none
  else some []
termination_by aggregatedPacket.length
decreasing_by
  · have := AmsduSubframeHeader.deserialize_length _hread
    simp only [List.length_drop]
    omega
  · have := AmsduSubframeHeader.deserialize_length _hread
    simp only [List.length_drop]
    omega

def deaggregate (aggregatedPacket : Packet) : Option (List (Packet × AmsduSubframeHeader)) :=
  deaggregateFrom (getSize aggregatedPacket) 0 aggregatedPacket

/-! ## The layout of an aggregate -/

/-- The bytes that fill a length up to a multiple of four. -/
def padding (length : ℕ) : ℕ := (4 - length % 4) % 4

def subframe (m : Msdu) : Packet := (subframeHeader m).serialize ++ m.packet

/-- Each subframe but the last one is padded. -/
def layout : List Msdu → Packet
  | [] => []
  | [m] => subframe m
  | m :: next :: rest =>
      subframe m ++ List.replicate (padding (subframe m).length) 0 ++ layout (next :: rest)

theorem length_subframe (m : Msdu) : (subframe m).length = 14 + m.packet.length := by
  rw [subframe, List.length_append, AmsduSubframeHeader.length_serialize]

theorem layout_cons {rest : List Msdu} (hrest : rest ≠ []) (m : Msdu) :
    layout (m :: rest) =
      subframe m ++ List.replicate (padding (subframe m).length) 0 ++ layout rest := by
  cases rest with
  | nil => exact absurd rfl hrest
  | cons next rest => rfl

theorem length_layout_pos {msdus : List Msdu} (h : msdus ≠ []) : 0 < (layout msdus).length := by
  cases msdus with
  | nil => exact absurd rfl h
  | cons m rest =>
      have hm := length_subframe m
      cases rest with
      | nil =>
          rw [layout]
          omega
      | cons next rest =>
          rw [layout, List.length_append, List.length_append]
          omega

/-- What is behind a padded subframe needs the same padding as the whole. -/
theorem padding_layout_cons {rest : List Msdu} (hrest : rest ≠ []) (m : Msdu) :
    padding (layout (m :: rest)).length = padding (layout rest).length := by
  rw [layout_cons hrest, List.length_append, List.length_append, List.length_replicate]
  unfold padding
  omega

/-- The next subframe goes behind the padded aggregate. -/
theorem layout_append (msdus : List Msdu) (m : Msdu) :
    layout (msdus ++ [m]) =
      layout msdus ++ List.replicate (padding (layout msdus).length) 0 ++ subframe m := by
  induction msdus with
  | nil => rfl
  | cons first rest ih =>
      cases rest with
      | nil => rfl
      | cons next rest =>
          have hne : next :: rest ≠ [] := List.cons_ne_nil _ _
          have happend : next :: rest ++ [m] ≠ [] := List.cons_ne_nil _ _
          rw [List.cons_append, layout_cons happend, ih, padding_layout_cons hne,
            layout_cons hne first]
          simp only [List.append_assoc]

theorem toNat_getSize {packet : Packet} (h : packet.length < 2 ^ 32) :
    (getSize packet).toNat = packet.length := by
  rw [getSize, UInt32.toNat_ofNat', Nat.mod_eq_of_lt h]

theorem toNat_calculatePadding {packet : Packet} (h : packet.length < 2 ^ 32) :
    (calculatePadding packet).toNat = padding packet.length := by
  rw [calculatePadding, padding, UInt32.toNat_mod, UInt32.toNat_sub, UInt32.toNat_mod,
    toNat_getSize h]
  simp only [UInt32.reduceToNat]
  omega

/-! ## From the layout back to the MSDUs -/

/-- What `Deaggregate` should return for an MSDU. -/
def extracted (m : Msdu) : Packet × AmsduSubframeHeader := (m.packet, subframeHeader m)

/-- One pass through the loop. -/
theorem deaggregateFrom_eq (maxSize deserialized : UInt32) (aggregatedPacket : Packet) :
    deaggregateFrom maxSize deserialized aggregatedPacket =
      if deserialized < maxSize then
        (AmsduSubframeHeader.deserialize aggregatedPacket).bind fun hdr =>
          if hdr.1.length.toNat ≤ hdr.2.length then
            let deserialized := deserialized + 14 + hdr.1.length.toUInt32
            let padding := (4 - (hdr.1.length.toUInt32 + 14) % 4) % 4
            let rest := hdr.2.drop hdr.1.length.toNat
            if padding > 0 ∧ deserialized < maxSize then
              (deaggregateFrom maxSize (deserialized + padding) (rest.drop padding.toNat)).map
                ((hdr.2.take hdr.1.length.toNat, hdr.1) :: ·)
            else
              (deaggregateFrom maxSize deserialized rest).map
                ((hdr.2.take hdr.1.length.toNat, hdr.1) :: ·)
          else none
      else some [] := by
  rw [deaggregateFrom]
  split
  · split
    · next hnone => rw [hnone, Option.bind_none]
    · next hdr hhdr => rw [hhdr, Option.bind_some]
  · rfl

section Subframe

variable {m : Msdu} (hm : m.packet.length < 65536)

include hm

theorem toNat_length_subframeHeader : (subframeHeader m).length.toNat = m.packet.length := by
  rw [subframeHeader, UInt32.toNat_toUInt16, toNat_getSize (hm.trans (by decide)),
    Nat.mod_eq_of_lt hm]

/-- The padding that the loop computes behind a subframe. -/
theorem toNat_padding_subframe :
    ((4 - ((subframeHeader m).length.toUInt32 + 14) % 4) % 4 : UInt32).toNat =
      padding (subframe m).length := by
  rw [length_subframe, padding, UInt32.toNat_mod, UInt32.toNat_sub, UInt32.toNat_mod,
    UInt32.toNat_add, UInt16.toNat_toUInt32, toNat_length_subframeHeader hm]
  simp only [UInt32.reduceToNat]
  omega

/-- The counter behind a subframe. -/
theorem toNat_behind_subframe {deserialized : UInt32}
    (hfits : deserialized.toNat + (subframe m).length < 2 ^ 32) :
    (deserialized + 14 + (subframeHeader m).length.toUInt32).toNat =
      deserialized.toNat + (subframe m).length := by
  rw [length_subframe] at hfits ⊢
  rw [UInt32.toNat_add, UInt32.toNat_add, UInt16.toNat_toUInt32, toNat_length_subframeHeader hm]
  simp only [UInt32.reduceToNat]
  omega

end Subframe

theorem deserialize_subframe (m : Msdu) (behind : Packet) :
    AmsduSubframeHeader.deserialize (subframe m ++ behind) =
      some (subframeHeader m, m.packet ++ behind) := by
  rw [subframe, List.append_assoc]
  exact (subframeHeader m).deserialize_serialize _

/-- The loop finds the subframes of a layout, whose end is the end of the packet. -/
theorem deaggregateFrom_layout {msdus : List Msdu} (hsizes : ∀ m ∈ msdus, m.packet.length < 65536)
    {maxSize deserialized : UInt32}
    (hend : deserialized.toNat + (layout msdus).length = maxSize.toNat) :
    deaggregateFrom maxSize deserialized (layout msdus) = some (msdus.map extracted) := by
  induction msdus generalizing deserialized with
  | nil =>
      have hdone : ¬ deserialized < maxSize := by
        rw [UInt32.lt_iff_toNat_lt, ← hend]
        exact Nat.lt_irrefl _
      rw [deaggregateFrom_eq, if_neg hdone]
      rfl
  | cons m rest ih =>
      have hm := hsizes m List.mem_cons_self
      have hrest := fun m h => hsizes m (List.mem_cons_of_mem _ h)
      have hmax := maxSize.toNat_lt
      have hlen := toNat_length_subframeHeader hm
      have hpad := toNat_padding_subframe hm
      have hpos := length_layout_pos (List.cons_ne_nil m rest)
      have hmore : deserialized < maxSize := by
        rw [UInt32.lt_iff_toNat_lt]
        omega
      cases rest with
      | nil =>
          rw [layout] at hend
          have hnext : (deserialized + 14 + (subframeHeader m).length.toUInt32).toNat =
              maxSize.toNat :=
            (toNat_behind_subframe hm (hend.trans_lt hmax)).trans hend
          have hdone : ¬ deserialized + 14 + (subframeHeader m).length.toUInt32 < maxSize := by
            rw [UInt32.lt_iff_toNat_lt, hnext]
            exact Nat.lt_irrefl _
          have hread := deserialize_subframe m []
          rw [List.append_nil, List.append_nil] at hread
          have htail : deaggregateFrom maxSize
              (deserialized + 14 + (subframeHeader m).length.toUInt32) (layout []) = some [] :=
            ih (by simp) hnext
          rw [deaggregateFrom_eq, if_pos hmore, layout, hread, Option.bind_some]
          dsimp only
          rw [hlen, if_pos (Nat.le_refl _), if_neg (fun h => hdone h.2), List.drop_length,
            List.take_length]
          exact congrArg (Option.map _) htail
      | cons next others =>
          have hne : next :: others ≠ [] := List.cons_ne_nil _ _
          have hbehind := length_layout_pos hne
          rw [layout_cons hne] at hend ⊢
          rw [List.length_append, List.length_append, List.length_replicate] at hend
          have hnext : (deserialized + 14 + (subframeHeader m).length.toUInt32).toNat =
              deserialized.toNat + (subframe m).length :=
            toNat_behind_subframe hm (by omega)
          have hnot : deserialized + 14 + (subframeHeader m).length.toUInt32 < maxSize := by
            rw [UInt32.lt_iff_toNat_lt, hnext]
            omega
          rw [deaggregateFrom_eq, if_pos hmore, List.append_assoc, deserialize_subframe,
            Option.bind_some]
          dsimp only
          rw [hlen, if_pos (by rw [List.length_append]; omega), List.drop_left, List.take_left]
          by_cases hzero : (4 - ((subframeHeader m).length.toUInt32 + 14) % 4) % 4 > 0
          · rw [if_pos ⟨hzero, hnot⟩, hpad, List.drop_left' List.length_replicate, ih hrest]
            · rfl
            · rw [UInt32.toNat_add, hnext, hpad, Nat.mod_eq_of_lt (by omega)]
              omega
          · have hnone : padding (subframe m).length = 0 := by
              rw [gt_iff_lt, UInt32.lt_iff_toNat_lt, hpad] at hzero
              exact Nat.eq_zero_of_not_pos hzero
            rw [hnone] at hend ⊢
            rw [if_neg (fun h => hzero h.1), List.replicate_zero, List.nil_append, ih hrest]
            · rfl
            · rw [hnext]
              omega

/-! ## Runs of the aggregator -/

/-- An aggregate of accepted MSDUs. -/
structure Aggregated (maxAmsduLength : UInt32) (accepted : List Msdu) (packet : Packet) :
    Prop where
  layout_eq : packet = layout accepted
  sizes : ∀ m ∈ accepted, m.packet.length < 65536
  length_le : packet.length ≤ maxAmsduLength.toNat

variable {maxAmsduLength : UInt32}

/-- One offer keeps the layout and the limit. -/
theorem Aggregated.aggregate {accepted : List Msdu} {packet : Packet} {m : Msdu}
    {r : Bool × Packet} (h : Aggregated maxAmsduLength accepted packet)
    (hm : m.packet.length < 65536) (hr : aggregate maxAmsduLength m packet = some r) :
    Aggregated maxAmsduLength (if r.1 then accepted ++ [m] else accepted) r.2 := by
  have hmax := maxAmsduLength.toNat_lt
  have hpacket : packet.length < 2 ^ 32 := h.length_le.trans_lt hmax
  unfold MsduAggregator.aggregate at hr
  dsimp only at hr
  split at hr
  · next hfits =>
    split at hr
    · next hlength =>
      obtain rfl := Option.some_inj.mp hr
      rw [toNat_calculatePadding hpacket] at hlength ⊢
      refine ⟨?_, ?_, ?_⟩
      · rw [if_pos rfl, layout_append, ← h.layout_eq]
        rfl
      · intro x hx
        rw [if_pos rfl] at hx
        rcases List.mem_append.mp hx with hx | hx
        · exact h.sizes x hx
        · exact List.mem_singleton.mp hx ▸ hm
      · rw [UInt32.le_iff_toNat_le, UInt32.toNat_add, UInt32.toNat_add, UInt32.toNat_add,
          toNat_getSize hpacket, toNat_getSize (hm.trans (by decide)),
          toNat_calculatePadding hpacket] at hfits
        simp only [UInt32.reduceToNat] at hfits
        simp only [List.length_append, List.length_replicate,
          AmsduSubframeHeader.length_serialize] at hlength ⊢
        omega
    · exact absurd hr (by simp)
  · obtain rfl := Option.some_inj.mp hr
    exact h

theorem Aggregated.aggregateAll {offered accepted : List Msdu} {packet : Packet}
    {r : List Msdu × Packet} (h : Aggregated maxAmsduLength accepted packet)
    (hoffered : ∀ m ∈ offered, m.packet.length < 65536)
    (hr : aggregateAll maxAmsduLength offered accepted packet = some r) :
    Aggregated maxAmsduLength r.1 r.2 := by
  induction offered generalizing accepted packet with
  | nil =>
      obtain rfl := Option.some_inj.mp hr
      exact h
  | cons m offered ih =>
      obtain ⟨s, hs, hrest⟩ := Option.bind_eq_some_iff.mp hr
      exact ih (h.aggregate (hoffered m List.mem_cons_self) hs)
        (fun m hm => hoffered m (List.mem_cons_of_mem _ hm)) hrest

/-- The aggregate of the accepted MSDUs never exceeds the limit, and taking it apart returns them
with their addresses, in order. -/
theorem deaggregate_aggregateAll (maxAmsduLength : UInt32) (offered : List Msdu)
    (hoffered : ∀ m ∈ offered, m.packet.length < 65536) (accepted : List Msdu) (packet : Packet)
    (hrun : aggregateAll maxAmsduLength offered [] [] = some (accepted, packet)) :
    packet.length ≤ maxAmsduLength.toNat ∧
      deaggregate packet =
        some (accepted.map fun m =>
          (m.packet, ⟨m.dest, m.src, UInt16.ofNat m.packet.length⟩)) := by
  have hstart : Aggregated maxAmsduLength [] [] := ⟨rfl, by simp, Nat.zero_le _⟩
  have h : Aggregated maxAmsduLength accepted packet := hstart.aggregateAll hoffered hrun
  have hlength : packet.length < 2 ^ 32 := h.length_le.trans_lt maxAmsduLength.toNat_lt
  refine ⟨h.length_le, ?_⟩
  have hend : (0 : UInt32).toNat + (layout accepted).length = (getSize packet).toNat := by
    rw [toNat_getSize hlength, h.layout_eq]
    exact Nat.zero_add _
  have hback := deaggregateFrom_layout h.sizes hend
  rw [deaggregate]
  have hpacket : packet = layout accepted := h.layout_eq
  rw [← hpacket] at hback
  rw [hback]
  congr 1
  apply List.map_congr_left
  intro m hm
  have hsize : (getSize m.packet).toUInt16 = UInt16.ofNat m.packet.length := by
    apply UInt16.toNat_inj.mp
    rw [UInt32.toNat_toUInt16, UInt16.toNat_ofNat',
      toNat_getSize ((h.sizes m hm).trans (by decide))]
  rw [extracted, subframeHeader, hsize]

/-- Of three MSDUs and a limit of 50 bytes, the second one is rejected. -/
theorem deaggregate_aggregateAll_rejected :
    let a : Mac48Address := ⟨Vector.replicate 6 1⟩
    let b : Mac48Address := ⟨Vector.replicate 6 2⟩
    let first : Msdu := ⟨[10, 11, 12], a, b⟩
    let last : Msdu := ⟨[13], b, a⟩
    ∃ packet, packet.length ≤ (50 : UInt32).toNat ∧
      deaggregate packet = some ([first, last].map fun m =>
        (m.packet, ⟨m.dest, m.src, UInt16.ofNat m.packet.length⟩)) := by
  intro a b first last
  have hrun : aggregateAll 50 [first, ⟨List.replicate 40 0, a, b⟩, last] [] [] =
      some ([first, last], layout [first, last]) := by decide
  exact ⟨_, deaggregate_aggregateAll 50 [first, ⟨List.replicate 40 0, a, b⟩, last]
    (by simp [first, last]) _ _ hrun⟩

end MsduAggregator

end Ns3Rdma.Wifi
