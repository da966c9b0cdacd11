import Ns3Rdma.Lte.RlcHeaders

/-! # The header of RLC AM

The first bit says whether it is the header of a data PDU or of a STATUS PDU. The fields of a byte
do not overlap, so they are written as sums. -/

namespace Ns3Rdma.Lte

/-- The members for both kinds of PDU. -/
structure AmHeader extends LteRlcAmHeader where
  dataControlBit : UInt8
  lastOffset : UInt16
  controlPduType : UInt8
  ackSn : SequenceNumber10

namespace AmHeader

/-- The constructor, which does not set the last segment flag. -/
def new : AmHeader where
  headerLength := 0
  dataControlBit := 0xff
  resegmentationFlag := true
  pollingBit := true
  framingInfo := (false, false)
  sequenceNumber := .ofUInt16 0xfffa
  lastSegmentFlag := false
  segmentOffset := 0xffff
  lastOffset := 0xffff
  extensionBits := []
  lengthIndicators := []
  controlPduType := 0xff
  ackSn := .ofUInt16 0xffff

variable (h : AmHeader)

def setDataPdu : AmHeader := { h with headerLength := 4, dataControlBit := 1 }

def setControlPdu (controlPduType : UInt8) : AmHeader :=
  { h with headerLength := 2, dataControlBit := 0, controlPduType := controlPduType }

def setSegmentOffset (segmentOffset : UInt16) : AmHeader :=
  { h with segmentOffset := segmentOffset % 0x8000 }

def pushExtensionBit (extensionBit : Bool) : AmHeader :=
  let extensionBits := h.extensionBits ++ [extensionBit]
  { h with
    extensionBits := extensionBits
    headerLength := HeaderLength.push h.headerLength extensionBits.length }

def pushLengthIndicator (lengthIndicator : UInt16) : AmHeader :=
  { h with lengthIndicators := h.lengthIndicators ++ [lengthIndicator] }

/-- An extension bit that is set is pushed for each length indicator, and a last one that is not. -/
def pushIndicators (lengthIndicators : List UInt16) : AmHeader :=
  (lengthIndicators.foldl (fun h li => (h.pushExtensionBit true).pushLengthIndicator li)
    h).pushExtensionBit false

/-- The header of a data PDU. -/
def dataPdu (resegmentationFlag pollingBit : Bool) (framingInfo : Bool × Bool)
    (sequenceNumber : SequenceNumber10) (lastSegmentFlag : Bool) (segmentOffset : UInt16)
    (lengthIndicators : List UInt16) : AmHeader :=
  ({ new.setDataPdu with
      resegmentationFlag := resegmentationFlag
      pollingBit := pollingBit
      framingInfo := framingInfo
      sequenceNumber := sequenceNumber
      lastSegmentFlag := lastSegmentFlag } : AmHeader).setSegmentOffset segmentOffset
    |>.pushIndicators lengthIndicators

/-- The header of a STATUS PDU. -/
def statusPdu (controlPduType : UInt8) (ackSn : SequenceNumber10) : AmHeader :=
  { new.setControlPdu controlPduType with ackSn := ackSn }

def getSerializedSize : UInt32 := .ofNat h.headerLength.toNat

def serialize : List UInt8 :=
  if h.dataControlBit = 1 then
    .ofNat (128 + h.resegmentationFlag.toNat * 64 + h.pollingBit.toNat * 32 +
        ((!h.framingInfo.1).toNat * 16 + (!h.framingInfo.2).toNat * 8 +
          (h.extensionBits.headD false).toNat * 4 + h.sequenceNumber.value.val / 256)) ::
      .ofNat (h.sequenceNumber.value.val % 256) ::
      .ofNat (h.lastSegmentFlag.toNat * 128 + h.segmentOffset.toNat / 256 % 128) ::
      .ofNat (h.segmentOffset.toNat % 256) ::
      LteRlcHeader.serializeFields h.extensionBits.tail (h.lengthIndicators.map UInt16.toNat)
  else
    [.ofNat (h.controlPduType.toNat % 8 * 16 + h.ackSn.value.val / 64),
      .ofNat (h.ackSn.value.val % 64 * 4)]

/-- `Deserialize`, with what it returns and the bytes that it did not read. -/
def deserialize (bytes : List UInt8) : Option (AmHeader × UInt32 × List UInt8) :=
  match bytes with
  | byte₁ :: byte₂ :: rest =>
      if byte₁.toNat / 128 = 1 then
        match rest with
        | byte₃ :: byte₄ :: rest =>
            let h : AmHeader := { h with
              headerLength := 4
              dataControlBit := 1
              resegmentationFlag := decide (byte₁.toNat / 64 % 2 = 1)
              pollingBit := decide (byte₁.toNat / 32 % 2 = 1)
              framingInfo :=
                (!decide (byte₁.toNat / 16 % 2 = 1), !decide (byte₁.toNat / 8 % 2 = 1))
              sequenceNumber := { h.sequenceNumber with
                value := SequenceNumber10.wrap (byte₁.toNat % 4 * 256 + byte₂.toNat) }
              lastSegmentFlag := decide (byte₃.toNat / 128 = 1)
              -- The high part is not shifted.
              segmentOffset := .ofNat (byte₃.toNat % 128 ||| byte₄.toNat)
              extensionBits := h.extensionBits ++ [decide (byte₁.toNat / 4 % 2 = 1)] }
            if byte₁.toNat / 4 % 2 = 1 then
              (LteRlcHeader.deserializeFields rest).map fun (bits, indicators, rest) =>
                let headerLength := HeaderLength.read 4 bits
                let h : AmHeader := { h with
                  headerLength := headerLength
                  extensionBits := h.extensionBits ++ bits
                  lengthIndicators := h.lengthIndicators ++ indicators.map UInt16.ofNat
                  lastOffset :=
                    if h.resegmentationFlag then
                      h.segmentOffset + .ofNat bytes.length - headerLength
                    else h.lastOffset }
                (h, h.getSerializedSize, rest)
            else some (h, h.getSerializedSize, rest)
        | _ => none
      else
        let h : AmHeader := { h with
          headerLength := 2
          dataControlBit := 0
          controlPduType := .ofNat (byte₁.toNat / 16 % 8)
          ackSn := { h.ackSn with
            value := SequenceNumber10.wrap (byte₁.toNat % 16 * 64 + byte₂.toNat / 4) } }
        some (h, h.getSerializedSize, rest)
  | _ => none

/-- The fields of a data PDU. -/
def dataFields :=
  (h.dataControlBit, h.resegmentationFlag, h.pollingBit, h.framingInfo, h.sequenceNumber.value,
    h.lastSegmentFlag, h.segmentOffset, h.extensionBits, h.lengthIndicators)

/-- The fields of a STATUS PDU. -/
def statusFields := (h.dataControlBit, h.controlPduType, h.ackSn.value)

/-- As many bytes are written as `GetSerializedSize` says, and the same fields are read by a new
header. -/
def RoundTrips {β : Type} (fields : AmHeader → β) : Prop :=
  h.serialize.length = h.getSerializedSize.toNat ∧
    ∀ rest, ∃ r, new.deserialize (h.serialize ++ rest) =
      some (r, .ofNat h.serialize.length, rest) ∧ fields r = fields h

/-! ## What the pushes keep -/

variable {h}

theorem pushExtensionBit_eq (extensionBit : Bool)
    (hlength : h.headerLength =
      4 + .ofNat (HeaderLength.ofIndicators (h.extensionBits.length - 1))) :
    h.pushExtensionBit extensionBit =
      { h with
        extensionBits := h.extensionBits ++ [extensionBit]
        headerLength := 4 + .ofNat (HeaderLength.ofIndicators h.extensionBits.length) } := by
  unfold pushExtensionBit
  dsimp only
  rw [List.length_append, List.length_singleton, hlength]
  cases h.extensionBits.length with
  | zero => rfl
  | succ k => rw [Nat.add_sub_cancel, HeaderLength.push_eq 4 k]

theorem foldl_push (indicators : List UInt16) (h : AmHeader)
    (hlength : h.headerLength =
      4 + .ofNat (HeaderLength.ofIndicators (h.extensionBits.length - 1))) :
    indicators.foldl (fun h li => (h.pushExtensionBit true).pushLengthIndicator li) h =
      { h with
        extensionBits := h.extensionBits ++ List.replicate indicators.length true
        lengthIndicators := h.lengthIndicators ++ indicators
        headerLength := 4 + .ofNat
          (HeaderLength.ofIndicators (h.extensionBits.length + indicators.length - 1)) } := by
  induction indicators generalizing h with
  | nil =>
      rw [List.foldl_nil, List.length_nil, List.replicate_zero, List.append_nil, List.append_nil,
        Nat.add_zero, ← hlength]
  | cons li indicators ih =>
      rw [List.foldl_cons, pushExtensionBit_eq true hlength, ih _ (by
        change _ = 4 + UInt16.ofNat (HeaderLength.ofIndicators
          ((h.extensionBits ++ [true]).length - 1))
        rw [List.length_append, List.length_singleton, Nat.add_sub_cancel]
        rfl)]
      unfold pushLengthIndicator
      dsimp only
      rw [List.append_assoc, List.append_assoc, List.length_append, List.length_singleton,
        Nat.add_assoc, Nat.add_comm 1]
      rfl

variable (resegmentationFlag pollingBit lastSegmentFlag : Bool) (framingInfo : Bool × Bool)
  (sequenceNumber : SequenceNumber10) (segmentOffset : UInt16) (indicators : List UInt16)

theorem pushIndicators_eq (hlength : h.headerLength = 4) (hbits : h.extensionBits = [])
    (hindicators : h.lengthIndicators = []) (indicators : List UInt16) :
    h.pushIndicators indicators =
      { h with
        headerLength := 4 + .ofNat (HeaderLength.ofIndicators indicators.length)
        extensionBits := LteRlcHeader.bits indicators.length
        lengthIndicators := indicators } := by
  unfold pushIndicators
  rw [foldl_push _ _ (by rw [hlength, hbits]; decide), pushExtensionBit_eq false (by
    dsimp only
    rw [hbits, List.nil_append, List.length_replicate, List.length_nil, Nat.zero_add])]
  dsimp only
  rw [hbits, hindicators, List.nil_append, List.nil_append, List.length_replicate]
  rfl

theorem dataPdu_eq : dataPdu resegmentationFlag pollingBit framingInfo sequenceNumber
    lastSegmentFlag segmentOffset indicators =
      { new with
        headerLength := 4 + .ofNat (HeaderLength.ofIndicators indicators.length)
        dataControlBit := 1
        resegmentationFlag := resegmentationFlag
        pollingBit := pollingBit
        framingInfo := framingInfo
        sequenceNumber := sequenceNumber
        lastSegmentFlag := lastSegmentFlag
        segmentOffset := segmentOffset % 0x8000
        extensionBits := LteRlcHeader.bits indicators.length
        lengthIndicators := indicators } := by
  unfold dataPdu
  rw [pushIndicators_eq rfl rfl rfl]
  rfl

/-! ## Round trips -/

/-- The fields of the first byte of a data PDU. -/
theorem first_byte {a b c d e s : ℕ} (ha : a ≤ 1) (hb : b ≤ 1) (hc : c ≤ 1) (hd : d ≤ 1)
    (he : e ≤ 1) (hs : s < 4) {byte : ℕ}
    (hbyte : byte = 128 + a * 64 + b * 32 + (c * 16 + d * 8 + e * 4 + s)) :
    (UInt8.ofNat byte).toNat = byte ∧ byte / 128 = 1 ∧ byte / 64 % 2 = a ∧ byte / 32 % 2 = b ∧
      byte / 16 % 2 = c ∧ byte / 8 % 2 = d ∧ byte / 4 % 2 = e ∧ byte % 4 = s := by
  refine ⟨LteRlcHeader.toNat_ofNat_of_lt (by omega), ?_, ?_, ?_, ?_, ?_, ?_, ?_⟩ <;> omega

/-- The fields of the third byte. -/
theorem third_byte {a s : ℕ} (ha : a ≤ 1) (hs : s < 128) :
    (UInt8.ofNat (a * 128 + s)).toNat = a * 128 + s ∧ (a * 128 + s) / 128 = a ∧
      (a * 128 + s) % 128 = s := by
  refine ⟨LteRlcHeader.toNat_ofNat_of_lt (by omega), ?_, ?_⟩ <;> omega

/-- What is read when a data PDU was written: only the offset may be another one. -/
theorem deserialize_dataPdu (hindicators : ∀ li ∈ indicators, li.toNat < 2048) (rest : List UInt8) :
    ∃ r, new.deserialize ((dataPdu resegmentationFlag pollingBit framingInfo sequenceNumber
        lastSegmentFlag segmentOffset indicators).serialize ++ rest) =
      some (r, .ofNat (4 + UInt16.ofNat (HeaderLength.ofIndicators indicators.length)).toNat,
        rest) ∧ r.dataFields = (1, resegmentationFlag, pollingBit, framingInfo, sequenceNumber.value,
          lastSegmentFlag, .ofNat ((segmentOffset % 0x8000).toNat / 256 |||
            (segmentOffset % 0x8000).toNat % 256),
          LteRlcHeader.bits indicators.length, indicators) := by
  obtain ⟨first, last⟩ := framingInfo
  rw [dataPdu_eq]
  generalize hoffset : segmentOffset % 0x8000 = offset
  have hlt : offset.toNat < 32768 := by
    rw [← hoffset, UInt16.toNat_mod]
    exact Nat.mod_lt _ (by decide)
  have hseq := sequenceNumber.value.isLt
  have hlow : (UInt8.ofNat (sequenceNumber.value.val % 256)).toNat =
      sequenceNumber.value.val % 256 := LteRlcHeader.toNat_ofNat_of_lt (Nat.mod_lt _ (by decide))
  have hnumber : SequenceNumber10.wrap
      (sequenceNumber.value.val / 256 * 256 + sequenceNumber.value.val % 256) =
        sequenceNumber.value := by
    apply Fin.ext
    change _ % 1024 = _
    omega
  have hhigh : offset.toNat / 256 % 128 = offset.toNat / 256 := by omega
  obtain ⟨hthird, hflag, hhighOffset⟩ := third_byte (Bool.toNat_le lastSegmentFlag)
    (s := offset.toNat / 256) (by omega)
  have hfourth : (UInt8.ofNat (offset.toNat % 256)).toNat = offset.toNat % 256 :=
    LteRlcHeader.toNat_ofNat_of_lt (Nat.mod_lt _ (by decide))
  have hset : ∀ b : Bool, (decide (b.toNat = 1)) = b := by decide
  have hnot : ∀ b : Bool, (!decide ((!b).toNat = 1)) = b := by decide
  have hbyte := fun e : Bool =>
    first_byte (Bool.toNat_le resegmentationFlag) (Bool.toNat_le pollingBit)
      (Bool.toNat_le (!first)) (Bool.toNat_le (!last)) (Bool.toNat_le e)
      (s := sequenceNumber.value.val / 256) (by omega) rfl
  cases indicators with
  | nil =>
      obtain ⟨hvalue, hdata, hreseg, hpoll, hfirst, hlast, hextension, hhighSeq⟩ := hbyte false
      refine ⟨?r, ?heq, ?hfields⟩
      case heq =>
        unfold serialize
        dsimp only
        rw [if_pos rfl, hhigh]
        change new.deserialize (.ofNat (128 + resegmentationFlag.toNat * 64 +
          pollingBit.toNat * 32 + ((!first).toNat * 16 + (!last).toNat * 8 + false.toNat * 4 +
            sequenceNumber.value.val / 256)) :: _ :: _ :: _ :: rest) = _
        unfold deserialize
        dsimp only
        rw [hvalue, hlow, hthird, hfourth, if_pos hdata, hreseg, hpoll, hfirst, hlast, hextension,
          hhighSeq, hflag, hhighOffset, hnumber, hset resegmentationFlag, hset pollingBit,
          hset lastSegmentFlag, hnot first, hnot last]
        rfl
      case hfields => rfl
  | cons li indicators =>
      obtain ⟨hvalue, hdata, hreseg, hpoll, hfirst, hlast, hextension, hhighSeq⟩ := hbyte true
      have hmap : ((li :: indicators).map UInt16.toNat).map UInt16.ofNat = li :: indicators := by
        rw [List.map_map]
        exact List.map_id'' (fun _ => UInt16.ofNat_toNat) _
      have hlimit : ∀ i ∈ (li :: indicators).map UInt16.toNat, i < 2048 := by
        intro i hi
        obtain ⟨j, hj, rfl⟩ := List.mem_map.mp hi
        exact hindicators j hj
      have hread := LteRlcHeader.deserializeFields_bits hlimit (List.cons_ne_nil _ _) rest
      rw [List.length_map] at hread
      have hlength := HeaderLength.read_eq
        (LteRlcHeader.bits (li :: indicators).length).tail 4
      rw [LteRlcHeader.length_tail_bits] at hlength
      have hbits : [true] ++ (LteRlcHeader.bits (li :: indicators).length).tail =
          LteRlcHeader.bits (li :: indicators).length := by
        rw [List.length_cons, LteRlcHeader.bits_succ]
        rfl
      refine ⟨?read, ?heq, ?hfields⟩
      case heq =>
        unfold serialize
        dsimp only
        rw [if_pos rfl, hhigh]
        change new.deserialize (.ofNat (128 + resegmentationFlag.toNat * 64 +
          pollingBit.toNat * 32 + ((!first).toNat * 16 + (!last).toNat * 8 + true.toNat * 4 +
            sequenceNumber.value.val / 256)) :: _ :: _ :: _ ::
              (LteRlcHeader.serializeFields _ ((li :: indicators).map UInt16.toNat) ++ rest)) = _
        unfold deserialize
        dsimp only
        rw [hvalue, hlow, hthird, hfourth, if_pos hdata, hreseg, hpoll, hfirst, hlast, hextension,
          hhighSeq, hflag, hhighOffset, hnumber, hset resegmentationFlag, hset pollingBit,
          hset lastSegmentFlag, hnot first, hnot last, if_pos Bool.toNat_true, hread,
          Option.map_some]
        dsimp only
        rw [hlength, hmap, hset true]
        rfl
      case hfields =>
        unfold dataFields
        dsimp only
        rw [← hbits]
        rfl

theorem length_dataPdu : (dataPdu resegmentationFlag pollingBit framingInfo sequenceNumber
    lastSegmentFlag segmentOffset indicators).serialize.length =
      4 + HeaderLength.ofIndicators indicators.length := by
  rw [dataPdu_eq]
  unfold serialize
  dsimp only
  rw [if_pos rfl, List.length_cons, List.length_cons, List.length_cons, List.length_cons,
    Nat.add_comm, ← LteRlcHeader.indicatorBytes_eq]
  cases indicators with
  | nil => rfl
  | cons li indicators =>
      rw [List.length_cons, LteRlcHeader.bits_succ, List.tail_cons, List.map_cons,
        ← List.length_map UInt16.toNat, LteRlcHeader.length_serializeFields]
      omega

theorem or_lt {n : ℕ} (h : n < 32768) : n / 256 ||| n % 256 < 256 :=
  Nat.or_lt_two_pow (n := 8) (by omega) (by omega)

/-- The offset is read again if and only if its high part is zero. -/
theorem or_eq_iff {n : ℕ} (h : n < 32768) : n / 256 ||| n % 256 = n ↔ n < 256 := by
  constructor
  · intro hn
    exact hn ▸ or_lt h
  · intro hsmall
    rw [Nat.div_eq_of_lt hsmall, Nat.mod_eq_of_lt hsmall, Nat.zero_or]

theorem statusPdu_roundTrips {controlPduType : UInt8} (hType : controlPduType.toNat < 8)
    (ackSn : SequenceNumber10) : (statusPdu controlPduType ackSn).RoundTrips statusFields := by
  refine ⟨rfl, fun rest => ⟨{ new with
    headerLength := 2, dataControlBit := 0, controlPduType, ackSn := ⟨ackSn.value, 0⟩ }, ?_, rfl⟩⟩
  have hack := ackSn.value.isLt
  have hfirst : (UInt8.ofNat (controlPduType.toNat % 8 * 16 + ackSn.value.val / 64)).toNat =
      controlPduType.toNat * 16 + ackSn.value.val / 64 := by
    rw [LteRlcHeader.toNat_ofNat_of_lt (by omega)]
    omega
  have hsecond : (UInt8.ofNat (ackSn.value.val % 64 * 4)).toNat = ackSn.value.val % 64 * 4 :=
    LteRlcHeader.toNat_ofNat_of_lt (by omega)
  have htype : (controlPduType.toNat * 16 + ackSn.value.val / 64) / 16 % 8 =
      controlPduType.toNat := by omega
  have hnumber : SequenceNumber10.wrap ((controlPduType.toNat * 16 + ackSn.value.val / 64) % 16 *
      64 + ackSn.value.val % 64 * 4 / 4) = ackSn.value := by
    apply Fin.ext
    change _ % 1024 = _
    omega
  change new.deserialize (.ofNat (controlPduType.toNat % 8 * 16 + ackSn.value.val / 64) ::
    .ofNat (ackSn.value.val % 64 * 4) :: rest) = _
  unfold deserialize
  dsimp only
  rw [hfirst, hsecond, if_neg (by omega), htype, hnumber, UInt8.ofNat_toNat]
  rfl

/-- The header of a STATUS PDU is read as it was written. In the header of a data PDU the high part
of the offset is lost, and its size may be too large for the sixteen bits. -/
theorem amHeader_roundTrip_iff {controlPduType : UInt8} (hType : controlPduType.toNat < 8)
    (ackSn : SequenceNumber10) (resegmentationFlag pollingBit : Bool) (framingInfo : Bool × Bool)
    (sequenceNumber : SequenceNumber10) (lastSegmentFlag : Bool) {segmentOffset : UInt16}
    (hoffset : segmentOffset.toNat < 32768) {indicators : List UInt16}
    (hindicators : ∀ li ∈ indicators, li.toNat < 2048) :
    (statusPdu controlPduType ackSn).RoundTrips statusFields ∧
      ((dataPdu resegmentationFlag pollingBit framingInfo sequenceNumber lastSegmentFlag
          segmentOffset indicators).RoundTrips dataFields ↔
        segmentOffset.toNat < 256 ∧ 4 + HeaderLength.ofIndicators indicators.length < 65536) := by
  refine ⟨statusPdu_roundTrips hType ackSn, ?_⟩
  have hmask : (segmentOffset % 0x8000) = segmentOffset := by
    apply UInt16.toNat_inj.mp
    rw [UInt16.toNat_mod]
    exact Nat.mod_eq_of_lt hoffset
  have hread := deserialize_dataPdu resegmentationFlag pollingBit lastSegmentFlag framingInfo
    sequenceNumber segmentOffset indicators hindicators
  have hlength := length_dataPdu resegmentationFlag pollingBit lastSegmentFlag framingInfo
    sequenceNumber segmentOffset indicators
  have heq := dataPdu_eq resegmentationFlag pollingBit lastSegmentFlag framingInfo
    sequenceNumber segmentOffset indicators
  rw [hmask] at hread heq
  generalize hh : dataPdu resegmentationFlag pollingBit framingInfo sequenceNumber lastSegmentFlag
    segmentOffset indicators = h at hread hlength heq
  have hsize : h.getSerializedSize.toNat = 4 + HeaderLength.ofIndicators indicators.length ↔
      4 + HeaderLength.ofIndicators indicators.length < 65536 := by
    unfold getSerializedSize
    rw [UInt32.toNat_ofNat_of_lt' (lt_trans (UInt16.toNat_lt _) (by decide)), heq]
    exact HeaderLength.toNat_eq_iff 4 indicators.length
  have hfields : h.dataFields = (1, resegmentationFlag, pollingBit, framingInfo,
      sequenceNumber.value, lastSegmentFlag, segmentOffset, LteRlcHeader.bits indicators.length,
      indicators) := by
    rw [heq]
    rfl
  constructor
  · rintro ⟨hwritten, hreads⟩
    refine ⟨(or_eq_iff hoffset).mp ?_, hsize.mp (hwritten.symm.trans hlength)⟩
    obtain ⟨r, hr, hsame⟩ := hreads []
    obtain ⟨r', hr', hfields'⟩ := hread []
    rw [hr] at hr'
    obtain rfl : r = r' := congrArg Prod.fst (Option.some.inj hr')
    rw [hsame, hfields] at hfields'
    have hvalue : segmentOffset =
        UInt16.ofNat (segmentOffset.toNat / 256 ||| segmentOffset.toNat % 256) := by
      simpa using hfields'
    have hor := lt_trans (or_lt hoffset) (show 256 < 65536 by decide)
    have hnat := congrArg UInt16.toNat hvalue
    rw [UInt16.toNat_ofNat_of_lt' hor] at hnat
    exact hnat.symm
  · rintro ⟨hsmall, hfits⟩
    refine ⟨hlength.trans (hsize.mpr hfits).symm, fun rest => ?_⟩
    obtain ⟨r, hr, hfields'⟩ := hread rest
    refine ⟨r, ?_, ?_⟩
    · rw [hr, hlength]
      exact congrArg (fun n => some (r, UInt32.ofNat n, rest))
        ((HeaderLength.toNat_eq_iff 4 indicators.length).mpr hfits)
    · rw [hfields', hfields, (or_eq_iff hoffset).mpr hsmall, UInt16.ofNat_toNat]

theorem amHeader_roundTrip_iff_offset255 :
    (statusPdu 0 (.ofUInt16 5)).RoundTrips statusFields ∧
      ((dataPdu true false (true, false) (.ofUInt16 1023) true 255 [2047, 3]).RoundTrips
          dataFields ↔
        (255 : UInt16).toNat < 256 ∧
          4 + HeaderLength.ofIndicators [(2047 : UInt16), 3].length < 65536) :=
  amHeader_roundTrip_iff (by decide) (.ofUInt16 5) true false (true, false) (.ofUInt16 1023) true
    (by decide) (by simp)

/-- An offset that is read as another one. -/
theorem offset_lost : ¬ (dataPdu true false (true, true) (.ofUInt16 0) true 256 []).RoundTrips
    dataFields := by
  rintro ⟨-, hreads⟩
  obtain ⟨r, hr, hsame⟩ := hreads []
  have hoffset : r.segmentOffset = 256 := congrArg (fun fields => fields.2.2.2.2.2.2.1) hsame
  have hread : ((new.deserialize
      ((dataPdu true false (true, true) (.ofUInt16 0) true 256 []).serialize ++ [])).map
        fun p => p.1.segmentOffset) = some 1 := by decide
  rw [hr] at hread
  rw [Option.map_some, hoffset] at hread
  exact absurd hread (by decide)

end AmHeader

end Ns3Rdma.Lte
