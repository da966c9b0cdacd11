import Ns3Rdma.Lte.LteRlcAmHeader
import Ns3Rdma.Lte.Reassembly
import Ns3Rdma.Lte.TransmitWindow

/-! # The grant of an opportunity

The guard asks for more than two bytes, as it does for RLC UM, but the header of a data PDU has
four: an opportunity of three bytes is exceeded, and one of four leaves no room for data. -/

namespace Ns3Rdma.Lte

namespace DataField

/-- The data field of an opportunity: an extension bit for each segment, of which none is empty, a
length indicator for each but perhaps the last one, and room for what it has to hold. -/
structure Measured (next id : ℕ) (d : DataField) : Prop where
  extensionBits : d.extensionBits.length = d.segments.length
  lengthIndicators : d.segments.length ≤ d.lengthIndicators.length + 1
  nonempty : ∀ segment ∈ d.segments, segment.payload ≠ []
  fits : total d.segments + indicatorBytes id (d.segments.length - 1) ≤ next

variable {first : Segment} {rest : List Segment} {next size : UInt32} {id : ℕ}

theorem getSize_of_nil (hnil : first.payload = []) : first.getSize = 0 := by
  unfold Segment.getSize
  rw [hnil]
  rfl

theorem payload_ne_nil (hsize : first.getSize ≠ 0) : first.payload ≠ [] :=
  fun hnil => hsize (getSize_of_nil hnil)

theorem measured_single {d : DataField} {last : Segment} (hsegments : d.segments = [last])
    (hbits : d.extensionBits = [false]) (hne : last.payload ≠ [])
    (hle : last.payload.length ≤ next.toNat) : d.Measured next.toNat id := by
  refine ⟨?_, ?_, fun segment hsegment => ?_, ?_⟩
  · rw [hbits, hsegments]
    rfl
  · rw [hsegments]
    exact Nat.succ_le_succ (Nat.zero_le _)
  · rw [hsegments] at hsegment
    obtain rfl := List.mem_singleton.mp hsegment
    exact hne
  · rw [hsegments, total_cons]
    exact hle

theorem payload_split (first : Segment) (k : UInt32) :
    (first.split k).1.payload = first.payload.take k.toNat := by
  unfold Segment.split
  dsimp only
  split <;> rfl

/-- A segment that has to be cut. -/
theorem measured_split {parts : Segment × Option Segment} (hne : first.payload ≠ [])
    (hsize : first.payload.length < 2 ^ 32) (hnext : next ≠ 0)
    (hparts : first.split (min first.getSize next) = parts) :
    parts.1.payload ≠ [] ∧ parts.1.payload.length ≤ next.toNat := by
  have hpos : 0 < first.getSize.toNat := by
    rw [Segment.toNat_getSize hsize]
    exact List.length_pos_iff.mpr hne
  obtain ⟨hcurr, hle⟩ := currSegmentSize_bounds hpos hnext
  have hlength := List.length_pos_iff.mpr hne
  have hpayload := payload_split first (min first.getSize next)
  rw [hparts] at hpayload
  have htaken := congrArg List.length hpayload
  rw [List.length_take] at htaken
  exact ⟨List.length_pos_iff.mp (by omega), by omega⟩

/-- Whatever is in the buffer, the loop stays within its room. -/
theorem fill_measured (hsizes : ∀ segment ∈ first :: rest, segment.payload.length < 2 ^ 32) :
    (fill next id first rest size).Measured next.toNat id := by
  induction rest generalizing first next id size with
  | nil =>
      have hsize := hsizes first List.mem_cons_self
      unfold fill
      split
      · exact ⟨rfl, Nat.zero_le _, fun segment hsegment => (by cases hsegment), Nat.zero_le _⟩
      next hor =>
      obtain ⟨hfirst, hnext⟩ := not_or.mp hor
      have hne := payload_ne_nil hfirst
      split
      · obtain ⟨parts, hparts⟩ : ∃ parts, first.split (min first.getSize next) = parts := ⟨_, rfl⟩
        obtain ⟨hsegment, hle⟩ := measured_split hne hsize hnext hparts
        rw [hparts]
        obtain ⟨segment, _ | remaining⟩ := parts <;> exact measured_single rfl rfl hsegment hle
      · next hfits =>
        rw [not_or, UInt32.not_lt, UInt32.le_iff_toNat_le, Segment.toNat_getSize hsize] at hfits
        exact measured_single rfl rfl hne hfits.1
  | cons second rest ih =>
      have hsize := hsizes first List.mem_cons_self
      unfold fill
      split
      · exact ⟨rfl, Nat.zero_le _, fun segment hsegment => (by cases hsegment), Nat.zero_le _⟩
      next hor =>
      obtain ⟨hfirst, hnext⟩ := not_or.mp hor
      have hne := payload_ne_nil hfirst
      split
      · obtain ⟨parts, hparts⟩ : ∃ parts, first.split (min first.getSize next) = parts := ⟨_, rfl⟩
        obtain ⟨hsegment, hle⟩ := measured_split hne hsize hnext hparts
        rw [hparts]
        obtain ⟨segment, _ | remaining⟩ := parts <;> exact measured_single rfl rfl hsegment hle
      next hfits =>
      rw [not_or, UInt32.not_lt, UInt32.le_iff_toNat_le, Segment.toNat_getSize hsize] at hfits
      dsimp only
      split
      · exact measured_single rfl rfl hne hfits.1
      next hroom =>
      rw [UInt32.not_le, UInt32.lt_iff_toNat_lt, toNat_sub_getSize hsize hfits.1] at hroom
      change 2 < next.toNat - first.payload.length at hroom
      have hrest : Measured _ (id + 1)
          (fill (next - ((if id % 2 = 1 then 2 else 1) + first.getSize)) (id + 1) second rest
            (size - second.getSize)) :=
        ih fun segment hsegment => hsizes segment (List.mem_cons_of_mem _ hsegment)
      obtain ⟨hbits, hindicators, hnonempty, htotal⟩ := hrest
      rw [toNat_sub_indicator hsize (by omega)] at htotal
      refine ⟨congrArg Nat.succ hbits, Nat.succ_le_succ hindicators, fun segment hsegment => ?_, ?_⟩
      · rcases List.mem_cons.mp hsegment with rfl | hin
        · exact hne
        · exact hnonempty segment hin
      · unfold cons
        dsimp only
        rw [total_cons, List.length_cons, Nat.add_sub_cancel]
        -- An empty segment behind this one ends the loop without a segment of its own.
        generalize (fill _ (id + 1) second rest _).segments = segments at htotal
        have hli : (if id % 2 = 1 then 2 else 1) ≤ 2 := by split <;> omega
        cases segments with
        | nil =>
            change _ + 0 + 0 ≤ _
            omega
        | cons head tail =>
            rw [List.length_cons, Nat.add_sub_cancel] at htotal
            change first.payload.length + total (head :: tail) +
              ((if id % 2 = 1 then 2 else 1) + indicatorBytes (id + 1) tail.length) ≤ _
            omega

/-- There is no segment if and only if there was no room, or the first one was empty. -/
theorem fill_segments_ne (hne : first.payload ≠ []) (hsize : first.payload.length < 2 ^ 32)
    (hnext : next ≠ 0) : (fill next id first rest size).segments ≠ [] := by
  have hfirst : first.getSize ≠ 0 := fun hzero => by
    have hnat := Segment.toNat_getSize hsize
    rw [hzero] at hnat
    exact hne (List.length_eq_zero_iff.mp hnat.symm)
  unfold fill
  rw [if_neg (not_or.mpr ⟨hfirst, hnext⟩)]
  split
  · split <;> exact List.cons_ne_nil _ _
  · split
    · exact List.cons_ne_nil _ _
    · split <;> exact List.cons_ne_nil _ _

/-- The loop goes on behind a segment while there is another one and room for three more bytes. -/
theorem fill_cons_length {second : Segment} (hsizes : ∀ segment ∈ first :: second :: rest,
      segment.payload.length < 2 ^ 32) (k : ℕ) :
    k + 1 < (fill next id first (second :: rest) size).segments.length ↔
      first.payload ≠ [] ∧ first.payload.length ≤ 2047 ∧ first.payload.length + 3 ≤ next.toNat ∧
        k < (fill (next - ((if id % 2 = 1 then 2 else 1) + first.getSize)) (id + 1) second rest
          (size - second.getSize)).segments.length := by
  have hsize := hsizes first List.mem_cons_self
  have hgetSize := Segment.toNat_getSize hsize
  obtain ⟨behind, hrest⟩ : ∃ behind, behind = fill (next - ((if id % 2 = 1 then 2 else 1) +
    first.getSize)) (id + 1) second rest (size - second.getSize) := ⟨_, rfl⟩
  rw [← hrest]
  unfold fill
  split
  next hor =>
    refine iff_of_false (Nat.not_lt_zero _) ?_
    rintro ⟨hne, -, hroom, -⟩
    rcases hor with hzero | hzero
    · rw [hzero] at hgetSize
      exact hne (List.length_eq_zero_iff.mp hgetSize.symm)
    · rw [hzero] at hroom
      change _ ≤ 0 at hroom
      omega
  next hor =>
  obtain ⟨hfirst, hnext⟩ := not_or.mp hor
  have hne := payload_ne_nil hfirst
  split
  next hcut =>
    refine iff_of_false ?_ ?_
    · obtain ⟨segment, _ | remaining⟩ := first.split (min first.getSize next) <;>
        exact fun hlt => absurd (Nat.lt_of_succ_lt_succ hlt) (Nat.not_lt_zero _)
    · rintro ⟨-, hshort, hroom, -⟩
      rw [UInt32.lt_iff_toNat_lt, UInt32.lt_iff_toNat_lt, hgetSize] at hcut
      change _ ∨ 2047 < _ at hcut
      omega
  next hfits =>
  rw [not_or, UInt32.not_lt, UInt32.not_lt, UInt32.le_iff_toNat_le, UInt32.le_iff_toNat_le,
    hgetSize] at hfits
  change _ ∧ _ ≤ 2047 at hfits
  have hbehind := toNat_sub_getSize hsize hfits.1
  dsimp only
  split
  next hlast =>
    refine iff_of_false (fun hlt => absurd (Nat.lt_of_succ_lt_succ hlt) (Nat.not_lt_zero _)) ?_
    rintro ⟨-, -, hroom, -⟩
    rw [UInt32.le_iff_toNat_le, hbehind] at hlast
    change _ ≤ 2 at hlast
    omega
  next hroom =>
    rw [UInt32.not_le, UInt32.lt_iff_toNat_lt, hbehind] at hroom
    change 2 < _ at hroom
    rw [← hrest]
    refine ⟨fun hlt => ⟨hne, hfits.2, by omega, Nat.lt_of_succ_lt_succ hlt⟩, ?_⟩
    rintro ⟨-, -, -, hlt⟩
    exact Nat.succ_lt_succ hlt

/-- How many segments the loop puts together, whatever is in the buffer. -/
theorem lt_length_fill_iff (hsizes : ∀ segment ∈ first :: rest, segment.payload.length < 2 ^ 32)
    (hnext : next ≠ 0) (k : ℕ) :
    k < (fill next id first rest size).segments.length ↔ k < (first :: rest).length ∧
      (∀ segment ∈ (first :: rest).take (k + 1), segment.payload ≠ []) ∧
        (∀ segment ∈ (first :: rest).take k, segment.payload.length ≤ 2047) ∧
          (k = 0 ∨
            total ((first :: rest).take k) + indicatorBytes id (k - 1) + 3 ≤ next.toNat) := by
  induction k generalizing first rest next size id with
  | zero =>
      have hsize := hsizes first List.mem_cons_self
      by_cases hne : first.payload = []
      · refine iff_of_false ?_ fun h => h.2.1 first (by simp) hne
        unfold fill
        rw [if_pos (Or.inl (getSize_of_nil hne))]
        exact Nat.not_lt_zero _
      · refine iff_of_true (List.length_pos_iff.mpr (fill_segments_ne hne hsize hnext)) ?_
        refine ⟨Nat.succ_pos _, fun segment hsegment => ?_, by simp, Or.inl rfl⟩
        obtain rfl : segment = first := by simpa using hsegment
        exact hne
  | succ k ih =>
      cases rest with
      | nil =>
          refine iff_of_false (fun hlt => ?_) fun h => absurd h.1 (by simp)
          have hmeasured : Measured _ id (fill next id first [] size) := fill_measured hsizes
          have hone : (fill next id first [] size).segments.length ≤ 1 := by
            unfold fill
            split
            · exact Nat.zero_le _
            · split
              · obtain ⟨segment, _ | remaining⟩ := first.split (min first.getSize next) <;>
                  exact Nat.le_refl _
              · exact Nat.le_refl _
          omega
      | cons second rest =>
          have hsize := hsizes first List.mem_cons_self
          have htake : (first :: second :: rest).take (k + 1) =
              first :: (second :: rest).take k := rfl
          have htake' : (first :: second :: rest).take (k + 1 + 1) =
              first :: (second :: rest).take (k + 1) := rfl
          rw [fill_cons_length hsizes k, htake, htake', List.forall_mem_cons, List.forall_mem_cons,
            total_cons, Nat.add_sub_cancel]
          by_cases hwhole : first.payload ≠ [] ∧ first.payload.length ≤ 2047 ∧
              first.payload.length + 3 ≤ next.toNat
          · obtain ⟨hne, hshort, hroom⟩ := hwhole
            have hbehind : (next - ((if id % 2 = 1 then 2 else 1) + first.getSize)).toNat =
                next.toNat - ((if id % 2 = 1 then 2 else 1) + first.payload.length) :=
              toNat_sub_indicator hsize (by omega)
            have hindicator : (if id % 2 = 1 then 2 else 1) ≤ 2 := by split <;> omega
            have hnext' : next - ((if id % 2 = 1 then 2 else 1) + first.getSize) ≠ 0 := by
              intro hzero
              rw [hzero] at hbehind
              change 0 = _ at hbehind
              omega
            have hlater : ∀ segment ∈ second :: rest, segment.payload.length < 2 ^ 32 :=
              fun segment hsegment => hsizes segment (List.mem_cons_of_mem _ hsegment)
            rw [ih hlater hnext', hbehind]
            have hbytes : (k = 0 ∨
                total ((second :: rest).take k) + indicatorBytes (id + 1) (k - 1) + 3 ≤
                  next.toNat - ((if id % 2 = 1 then 2 else 1) + first.payload.length)) ↔
                first.payload.length + total ((second :: rest).take k) + indicatorBytes id k + 3 ≤
                  next.toNat := by
              cases k with
              | zero => exact iff_of_true (Or.inl rfl) hroom
              | succ j =>
                  rw [Nat.add_sub_cancel]
                  change _ ↔ _ + ((if id % 2 = 1 then 2 else 1) + indicatorBytes (id + 1) j) + 3 ≤ _
                  omega
            rw [hbytes, List.length_cons (a := first)]
            constructor
            · rintro ⟨-, -, -, hk, hall, hshorter, hfits⟩
              exact ⟨Nat.succ_lt_succ hk, ⟨hne, hall⟩, ⟨hshort, hshorter⟩, Or.inr hfits⟩
            · rintro ⟨hk, ⟨-, hall⟩, ⟨-, hshorter⟩, hzero | hfits⟩
              · exact absurd hzero (Nat.succ_ne_zero k)
              · exact ⟨hne, hshort, hroom, Nat.lt_of_succ_lt_succ hk, hall, hshorter, hfits⟩
          · refine iff_of_false (fun h => hwhole ⟨h.1, h.2.1, h.2.2.1⟩) ?_
            rintro ⟨-, ⟨hne, -⟩, ⟨hshort, -⟩, hroom⟩
            exact hwhole ⟨hne, hshort, by omega⟩

theorem length_le_total {segments : List Segment}
    (hne : ∀ segment ∈ segments, segment.payload ≠ []) : segments.length ≤ total segments := by
  induction segments with
  | nil => exact Nat.zero_le _
  | cons first rest ih =>
      have hfirst := List.length_pos_iff.mpr (hne first List.mem_cons_self)
      have hrest := ih fun segment hsegment => hne segment (List.mem_cons_of_mem _ hsegment)
      rw [total_cons, List.length_cons]
      omega

end DataField

/-- The bytes of what is handed over. -/
def Transmission.getSize : Transmission → ℕ
  | .status ackSn => (AmHeader.statusPdu 0 ackSn).getSerializedSize.toNat
  | .retransmission pdu | .data pdu => pdu.header.headerLength.toNat + pdu.payload.length

namespace LteRlcAm

variable (s : LteRlcAm) (bytes : UInt32)

/-- What is handed over fits into the opportunity, and is not empty. When nothing is, the buffer
keeps what it has. -/
def KeepsGrant : Prop :=
  ∃ s' out, s.doNotifyTxOpportunity bytes = some (s', out) ∧
    (∀ transmission, out = some transmission → transmission.getSize ≤ bytes.toNat) ∧
    (∀ pdu, out = some (.data pdu) → pdu.payload ≠ []) ∧
    (out = none → s'.txonBuffer = s.txonBuffer)

/-- The opportunity is for a retransmission. -/
def Retransmits : Prop :=
  2 < bytes ∧ s.statusPduRequested = false ∧ 0 < s.retxBufferSize

/-- So many segments fit into the opportunity that the bytes of their length indicators exceed what
`m_headerLength` counts. -/
def Crowded : Prop :=
  43688 < s.txonBuffer.length ∧ (∀ segment ∈ s.txonBuffer.take 43689, segment.payload ≠ []) ∧
    (∀ segment ∈ s.txonBuffer.take 43688, segment.payload.length ≤ 2047) ∧
      DataField.total (s.txonBuffer.take 43688) + 65538 ≤ bytes.toNat

/-- The size of a packet has 32 bits. -/
structure PacketSizes : Prop where
  txonBuffer : ∀ segment ∈ s.txonBuffer, segment.payload.length < 2 ^ 32
  retxBuffer : ∀ pdu, (s.retxBuffer s.vtA.value).pdu = some pdu →
    (Transmission.retransmission pdu).getSize < 2 ^ 32

variable {s} {bytes}

/-! ## New data -/

theorem length_serializeFields_min (bits : List Bool) (indicators : List ℕ) :
    (LteRlcHeader.serializeFields bits indicators).length =
      DataField.indicatorBytes 1 (min bits.length indicators.length) := by
  induction bits using List.twoStepInduction generalizing indicators with
  | nil =>
      rw [List.length_nil, Nat.zero_min]
      rfl
  | singleton bit =>
      rcases indicators with _ | ⟨li, indicators⟩
      · rfl
      · rw [List.length_singleton, List.length_cons, Nat.min_eq_left (Nat.le_add_left 1 _)]
        rfl
  | cons_cons bit second bits ih _ =>
      rcases indicators with _ | ⟨li, _ | ⟨li', indicators⟩⟩
      · rfl
      · rw [List.length_singleton, List.length_cons, Nat.min_eq_right (Nat.le_add_left 1 _)]
        rfl
      · change (LteRlcHeader.serializeFields bits indicators).length + 1 + 1 + 1 = _
        rw [ih, List.length_cons, List.length_cons, List.length_cons, List.length_cons,
          Nat.add_min_add_right, Nat.add_min_add_right]
        change _ = 2 + (1 + DataField.indicatorBytes (1 + 2) _)
        rw [DataField.indicatorBytes_add_two]
        omega

/-- `m_headerLength` is right as long as there are no more than 43687 length indicators. -/
theorem writtenLength_iff {d : DataField} {next id : ℕ} (hmeasured : d.Measured next id)
    (hne : d.segments ≠ []) :
    writtenLength d = (DataField.headerLength 4 d.extensionBits.length).toNat ↔
      d.segments.length ≤ 43688 := by
  obtain ⟨hbits, hindicators, -, -⟩ := hmeasured
  obtain ⟨n, hcount⟩ : ∃ n, d.segments.length = n + 1 :=
    ⟨_, (Nat.sub_add_cancel (List.length_pos_iff.mpr hne)).symm⟩
  have hwritten : writtenLength d = 4 + DataField.indicatorBytes 1 n := by
    unfold writtenLength
    rw [length_serializeFields_min, List.length_tail, List.length_map, hbits, hcount,
      Nat.add_sub_cancel, Nat.min_eq_left (by omega)]
  rw [hwritten, hbits, hcount, DataField.headerLength_succ, UInt16.toNat_add, UInt16.toNat_ofNat',
    DataField.indicatorBytes_one]
  change 4 + _ = (4 + _ % 65536) % 65536 ↔ _
  omega

/-- An opportunity with room for a byte of data, and for a length indicator of every segment but
the last one, is kept. -/
theorem transmitData_fits (s : LteRlcAm) {first : Segment} {rest : List Segment} (size : UInt32)
    (hbytes : 5 ≤ bytes.toNat) (hne : first.payload ≠ [])
    (hsizes : ∀ segment ∈ first :: rest, segment.payload.length < 2 ^ 32)
    (hfew : (DataField.fill (bytes - 4) 1 first rest size).segments.length ≤ 43688) :
    ∃ next pdu, s.transmitData (.fill (bytes - 4) 1 first rest size) = some (next, pdu) ∧
      (Transmission.data pdu).getSize ≤ bytes.toNat ∧ pdu.payload ≠ [] := by
  have hroom : (bytes - 4).toNat = bytes.toNat - 4 := by
    rw [UInt32.toNat_sub_of_le]
    · rfl
    · rw [UInt32.le_iff_toNat_le]
      exact Nat.le_of_succ_le hbytes
  have hnext : bytes - 4 ≠ 0 := fun hzero => by
    rw [hzero] at hroom
    change 0 = _ at hroom
    omega
  have hsegments : (DataField.fill (bytes - 4) 1 first rest size).segments ≠ [] :=
    DataField.fill_segments_ne hne (hsizes first List.mem_cons_self) hnext
  have hmeasured : DataField.Measured _ 1 (.fill (bytes - 4) 1 first rest size) :=
    DataField.fill_measured hsizes
  have hwritten := (writtenLength_iff hmeasured hsegments).mpr hfew
  obtain ⟨hbits, -, hnonempty, hfits⟩ := hmeasured
  generalize DataField.fill (bytes - 4) 1 first rest size = d at *
  obtain ⟨framing, hframing⟩ := DataField.framingInfo_isSome hsegments
  obtain ⟨n, hcount⟩ : ∃ n, d.segments.length = n + 1 :=
    ⟨_, (Nat.sub_add_cancel (List.length_pos_iff.mpr hsegments)).symm⟩
  have hlong := DataField.length_le_total hnonempty
  refine ⟨_, _, (by unfold transmitData; rw [hframing, Option.bind_some]; exact if_pos hwritten),
    ?_, ?_⟩
  · change (DataField.headerLength 4 d.extensionBits.length).toNat +
      DataField.total d.segments ≤ bytes.toNat
    rw [hcount, Nat.add_sub_cancel] at hfits
    rw [hbits, hcount, DataField.headerLength_succ, UInt16.toNat_add, UInt16.toNat_ofNat']
    have hwraps := Nat.mod_le (DataField.indicatorBytes 1 n) (2 ^ 16)
    have hwraps' := Nat.mod_le (4 + DataField.indicatorBytes 1 n % 2 ^ 16) (2 ^ 16)
    change (4 + DataField.indicatorBytes 1 n % 2 ^ 16) % 2 ^ 16 + _ ≤ _
    omega
  · intro hnil
    have hzero : DataField.total d.segments = 0 := congrArg List.length hnil
    omega

/-- An opportunity of three bytes is taken for one of almost 2^32. -/
theorem transmitData_three {first : Segment} {rest : List Segment} {size : UInt32} {next : LteRlcAm}
    {pdu : AmPdu} (hsizes : ∀ segment ∈ first :: rest, segment.payload.length < 2 ^ 32)
    (htransmit : s.transmitData (.fill (3 - 4) 1 first rest size) = some (next, pdu)) :
    3 < (Transmission.data pdu).getSize := by
  obtain ⟨hbits, -, hnonempty, -⟩ : DataField.Measured _ 1 (.fill (3 - 4) 1 first rest size) :=
    DataField.fill_measured hsizes
  generalize DataField.fill (3 - 4) 1 first rest size = d at *
  obtain ⟨framing, hframing, hbuilt⟩ := Option.bind_eq_some_iff.mp htransmit
  dsimp only at hbuilt
  obtain ⟨-, hpair⟩ := Option.ite_none_right_eq_some.mp hbuilt
  obtain ⟨-, rfl⟩ := Prod.mk.inj (Option.some.inj hpair)
  have hlong := DataField.length_le_total hnonempty
  have hsegments : d.segments ≠ [] := fun hnil => by
    rw [hnil] at hframing
    cases hframing
  have hcount := List.length_pos_iff.mpr hsegments
  change 3 < (DataField.headerLength 4 d.extensionBits.length).toNat + DataField.total d.segments
  rw [hbits]
  -- With four segments the data alone is too long; with less the header is.
  rcases Nat.lt_or_ge 3 d.segments.length with hmany | hfew
  · omega
  · have hheader : ∀ n : Fin 3, 4 ≤ (DataField.headerLength 4 (n.val + 1)).toNat := by decide
    have hthis := hheader ⟨d.segments.length - 1, by omega⟩
    rw [Nat.sub_add_cancel hcount] at hthis
    omega

/-- There is no data field when there is no room, or nothing to send. -/
theorem transmitData_empty {first : Segment} {rest : List Segment} {next size : UInt32}
    (h : first.payload = [] ∨ next = 0) : s.transmitData (.fill next 1 first rest size) = none := by
  unfold transmitData DataField.fill
  rw [if_pos (h.imp_left DataField.getSize_of_nil)]
  rfl

/-- The header of a crowded data field overruns. -/
theorem transmitData_overruns {d : DataField} {next id : ℕ} (hmeasured : d.Measured next id)
    (hmany : 43688 < d.segments.length) : s.transmitData d = none := by
  have hne : d.segments ≠ [] := List.length_pos_iff.mp (Nat.zero_lt_of_lt hmany)
  have hwritten := mt (writtenLength_iff hmeasured hne).mp (Nat.not_le_of_lt hmany)
  unfold transmitData
  cases DataField.framingInfo d.segments with
  | none => rfl
  | some framing =>
      rw [Option.bind_some]
      exact if_neg hwritten

/-- The number of segments that an opportunity is filled with, by what is in the buffer. -/
theorem crowded_iff {first : Segment} {rest : List Segment} {size : UInt32}
    (hbuffer : s.txonBuffer = first :: rest) (hbytes : 5 ≤ bytes.toNat)
    (hsizes : ∀ segment ∈ first :: rest, segment.payload.length < 2 ^ 32) :
    s.Crowded bytes ↔
      43688 < (DataField.fill (bytes - 4) 1 first rest size).segments.length := by
  have hroom : (bytes - 4).toNat = bytes.toNat - 4 := by
    rw [UInt32.toNat_sub_of_le]
    · rfl
    · rw [UInt32.le_iff_toNat_le]
      exact Nat.le_of_succ_le hbytes
  have hnext : bytes - 4 ≠ 0 := fun hzero => by
    rw [hzero] at hroom
    change 0 = _ at hroom
    omega
  rw [DataField.lt_length_fill_iff hsizes hnext, DataField.indicatorBytes_one, hroom]
  unfold Crowded
  rw [hbuffer]
  refine and_congr_right fun _ => and_congr_right fun _ => and_congr_right fun _ => ?_
  omega

/-! ## All opportunities -/

theorem doNotifyTxOpportunity_new (h : s.SendsNew bytes) {first : Segment} {rest : List Segment}
    (hbuffer : s.txonBuffer = first :: rest) :
    s.doNotifyTxOpportunity bytes =
      (s.transmitData (.fill (bytes - 4) 1 first rest (s.txonBufferSize - first.getSize))).map
        fun p => (p.1, some (.data p.2)) := by
  obtain ⟨hbytes, hrequested, hretx, htxon, -⟩ := h
  unfold doNotifyTxOpportunity
  rw [if_neg (UInt32.not_le.mpr hbytes), hrequested, if_neg Bool.false_ne_true, hretx,
    if_neg (by decide), if_pos htxon, hbuffer]

theorem doNotifyTxOpportunity_retransmits (h : s.Retransmits bytes) :
    s.doNotifyTxOpportunity bytes = (s.retxBuffer s.vtA.value).pdu.map fun pdu =>
      if pdu.getSize ≤ bytes then (s, some (.retransmission pdu)) else (s, none) := by
  obtain ⟨hbytes, hrequested, hretx⟩ := h
  unfold doNotifyTxOpportunity
  rw [if_neg (UInt32.not_le.mpr hbytes), hrequested, if_neg Bool.false_ne_true, if_pos hretx]

theorem keepsGrant_other (hnew : ¬ s.SendsNew bytes) (hretx : ¬ s.Retransmits bytes) :
    s.KeepsGrant bytes := by
  have hnothing : s.doNotifyTxOpportunity bytes = some (s, none) → s.KeepsGrant bytes :=
    fun hnotify => ⟨s, none, hnotify, nofun, nofun, fun _ => rfl⟩
  by_cases hbytes : bytes ≤ 2
  · refine hnothing ?_
    unfold doNotifyTxOpportunity
    rw [if_pos hbytes]
  have hlarge := UInt32.not_le.mp hbytes
  by_cases hrequested : s.statusPduRequested = true
  · refine ⟨s, some (.status s.vrR), ?_, fun transmission hout => ?_, nofun, nofun⟩
    · unfold doNotifyTxOpportunity
      rw [if_neg hbytes, if_pos hrequested]
    · obtain rfl := Option.some.inj hout
      exact Nat.le_of_lt (UInt32.lt_iff_toNat_lt.mp hlarge)
  have hnone := Bool.eq_false_of_not_eq_true hrequested
  have hzero : ¬ 0 < s.retxBufferSize := fun hpos => hretx ⟨hlarge, hnone, hpos⟩
  have hempty : s.retxBufferSize = 0 :=
    UInt32.le_antisymm (UInt32.not_lt.mp hzero) UInt32.zero_le
  refine hnothing ?_
  unfold doNotifyTxOpportunity
  rw [if_neg hbytes, if_neg hrequested, if_neg hzero]
  split
  · next htxon =>
    split
    · rfl
    · next first rest hbuffer =>
      exact absurd ⟨hlarge, hnone, hempty, htxon, by rw [hbuffer]; exact List.cons_ne_nil _ _⟩ hnew
  · rfl

/-- An opportunity is kept if and only if new data has five bytes, a first SDU that is not empty and
no crowd, and what is to be sent again is there. -/
theorem keepsGrant_iff (hsizes : s.PacketSizes) : s.KeepsGrant bytes ↔
    (s.SendsNew bytes → 5 ≤ bytes ∧
      (∀ sdu, s.txonBuffer.head? = some sdu → sdu.payload ≠ []) ∧ ¬ s.Crowded bytes) ∧
      (s.Retransmits bytes → (s.retxBuffer s.vtA.value).pdu.isSome) := by
  by_cases hnew : s.SendsNew bytes
  · obtain ⟨first, rest, hbuffer⟩ := List.exists_cons_of_ne_nil hnew.2.2.2.2
    have hretx : ¬ s.Retransmits bytes := fun h => by
      have hpos := h.2.2
      rw [hnew.2.2.1] at hpos
      exact absurd hpos (by decide)
    have htxon := hsizes.txonBuffer
    rw [hbuffer] at htxon
    have hcrowded : 5 ≤ bytes.toNat → (s.Crowded bytes ↔
        43688 < (DataField.fill (bytes - 4) 1 first rest
          (s.txonBufferSize - first.getSize)).segments.length) :=
      fun hbytes => crowded_iff hbuffer hbytes htxon
    rw [hbuffer]
    unfold KeepsGrant
    rw [doNotifyTxOpportunity_new hnew hbuffer]
    constructor
    · rintro ⟨s', out, hnotify, hfits, -, -⟩
      obtain ⟨⟨next, pdu⟩, htransmit, hpair⟩ := Option.map_eq_some_iff.mp hnotify
      obtain ⟨-, rfl⟩ := Prod.mk.inj hpair
      have hfive : 5 ≤ bytes := by
        by_contra hsmall
        rw [UInt32.not_le, UInt32.lt_iff_toNat_lt] at hsmall
        have hlarge := UInt32.lt_iff_toNat_lt.mp hnew.1
        change bytes.toNat < 5 at hsmall
        change 2 < bytes.toNat at hlarge
        rcases (by omega : bytes.toNat = 3 ∨ bytes.toNat = 4) with hthree | hfour
        · obtain rfl : bytes = 3 := UInt32.toNat_inj.mp hthree
          exact absurd (hfits _ rfl) (Nat.not_le_of_lt (transmitData_three htxon htransmit))
        · obtain rfl : bytes = 4 := UInt32.toNat_inj.mp hfour
          rw [transmitData_empty (Or.inr (by decide))] at htransmit
          cases htransmit
      refine ⟨fun _ => ⟨hfive, ?_, fun hmany => ?_⟩, fun h => absurd h hretx⟩
      · intro sdu hsdu hnil
        obtain rfl := Option.some.inj hsdu
        rw [transmitData_empty (Or.inl hnil)] at htransmit
        cases htransmit
      · have hmeasured : DataField.Measured _ 1 (.fill (bytes - 4) 1 first rest
            (s.txonBufferSize - first.getSize)) := DataField.fill_measured htxon
        rw [transmitData_overruns hmeasured
          ((hcrowded (UInt32.le_iff_toNat_le.mp hfive)).mp hmany)] at htransmit
        cases htransmit
    · rintro ⟨hcond, -⟩
      obtain ⟨hbytes, hne, hfew⟩ := hcond hnew
      have hfive := UInt32.le_iff_toNat_le.mp hbytes
      obtain ⟨next, pdu, htransmit, hfits, hpayload⟩ := s.transmitData_fits
        (s.txonBufferSize - first.getSize) hfive (hne first rfl) htxon
          (Nat.le_of_not_lt fun hmany => hfew ((hcrowded hfive).mpr hmany))
      rw [htransmit]
      refine ⟨next, some (.data pdu), rfl, fun transmission hout => ?_, fun other hout => ?_, nofun⟩
      · obtain rfl := Option.some.inj hout
        exact hfits
      · obtain rfl := Transmission.data.inj (Option.some.inj hout)
        exact hpayload
  by_cases hretx : s.Retransmits bytes
  · unfold KeepsGrant
    rw [doNotifyTxOpportunity_retransmits hretx]
    cases hpdu : (s.retxBuffer s.vtA.value).pdu with
    | none =>
        refine iff_of_false ?_ fun h => ?_
        · rintro ⟨s', out, hnotify, -⟩
          cases hnotify
        · exact absurd (h.2 hretx) Bool.false_ne_true
    | some pdu =>
        refine iff_of_true ?_ ⟨fun h => absurd h hnew, fun _ => rfl⟩
        have hsize : pdu.getSize.toNat = (Transmission.retransmission pdu).getSize :=
          UInt32.toNat_ofNat_of_lt' (hsizes.retxBuffer pdu hpdu)
        rw [Option.map_some]
        split
        · next hfits =>
          refine ⟨s, _, rfl, fun transmission hout => ?_, nofun, nofun⟩
          obtain rfl := Option.some.inj hout
          rw [← hsize]
          exact UInt32.le_iff_toNat_le.mp hfits
        · exact ⟨s, none, rfl, nofun, nofun, fun _ => rfl⟩
  · exact iff_of_true (keepsGrant_other hnew hretx)
      ⟨fun h => absurd h hnew, fun h => absurd h hretx⟩

/-- One SDU of a byte, and an opportunity of five. -/
theorem keepsGrant_five : (new.doTransmitPdcpPdu [7]).KeepsGrant 5 :=
  (keepsGrant_iff ⟨fun segment hsegment => by
      obtain rfl := List.mem_singleton.mp hsegment
      decide, fun pdu hpdu => by cases hpdu⟩).mpr
    ⟨fun _ => ⟨by decide, fun sdu hsdu => by
      obtain rfl := Option.some.inj hsdu
      decide, fun hmany => absurd hmany.1 (by decide)⟩, fun h => absurd h.2.2 (by decide)⟩

/-- With three bytes the PDU is larger, and with four there is none, though the SDU is removed. -/
theorem not_keepsGrant : ¬ (new.doTransmitPdcpPdu [7]).KeepsGrant 3 ∧
    ¬ (new.doTransmitPdcpPdu [7]).KeepsGrant 4 := by
  constructor
  · rintro ⟨s', out, hnotify, hfits, -, -⟩
    have hout : ((new.doTransmitPdcpPdu [7]).doNotifyTxOpportunity 3).bind
        (fun p => p.2.map Transmission.getSize) = some 5 := by decide
    rw [hnotify, Option.bind_some] at hout
    obtain ⟨transmission, hsome, hsize⟩ := Option.map_eq_some_iff.mp hout
    have hle := hfits transmission hsome
    rw [hsize] at hle
    exact absurd hle (by decide)
  · rintro ⟨s', out, hnotify, -⟩
    have hnone : ((new.doTransmitPdcpPdu [7]).doNotifyTxOpportunity 4).isNone = true := by decide
    rw [hnotify] at hnone
    cases hnone

end LteRlcAm

end Ns3Rdma.Lte
