import Ns3Rdma.Lte.Reassembly

/-! # A transmission opportunity

The PDU that is built carries the segments that leave the buffer, unless so many of them fit into it
that the size of the header overflows. -/

namespace Ns3Rdma.Lte

namespace UmTransmitter

variable {s : UmTransmitter} {bytes : UInt32}

/-- The opportunity is filled with 43690 segments or more, each of the first 43689 with a length
indicator: the header has more bytes than a number of sixteen bits says. -/
def Crowded (s : UmTransmitter) (bytes : UInt32) : Prop :=
  43689 < s.txBuffer.length ∧ (∀ segment ∈ s.txBuffer.take 43689, segment.payload.length ≤ 2047) ∧
    DataField.total (s.txBuffer.take 43689) + 65536 < bytes.toNat

instance (s : UmTransmitter) (bytes : UInt32) : Decidable (s.Crowded bytes) :=
  inferInstanceAs (Decidable (_ ∧ _ ∧ _))

/-- The counter of the bytes in the buffer is right. -/
structure Counts (s : UmTransmitter) : Prop where
  waiting : WaitingBuffer s.txBuffer
  txBufferSize : s.txBufferSize.toNat = DataField.total s.txBuffer

/-- In an opportunity that is not crowded, `m_headerLength` does not overflow. -/
theorem length_lt_of_not_crowded {whole rest : List Segment} (hcrowded : ¬ s.Crowded bytes)
    (hbuffer : s.txBuffer = whole ++ rest) (hrest : rest ≠ [])
    (hshort : ∀ segment ∈ whole, segment.payload.length ≤ 2047)
    (htotal : DataField.total whole + DataField.indicatorBytes 1 whole.length + 2 < bytes.toNat) :
    whole.length < 43689 := by
  by_contra hlong
  rw [Nat.not_lt] at hlong
  have hpos : 0 < rest.length := List.length_pos_iff.mpr hrest
  have htake : s.txBuffer.take 43689 = whole.take 43689 := by
    rw [hbuffer, List.take_append_of_le_length hlong]
  have hsum : DataField.total whole =
      DataField.total (whole.take 43689) + DataField.total (whole.drop 43689) := by
    rw [← DataField.total_append, List.take_append_drop]
  refine hcrowded ⟨?_, fun segment hsegment => ?_, ?_⟩
  · rw [hbuffer, List.length_append]
    omega
  · rw [htake] at hsegment
    exact hshort segment (List.mem_of_mem_take hsegment)
  · rw [DataField.indicatorBytes_one] at htotal
    rw [htake]
    omega

/-- The fixed part of the header takes two bytes of the opportunity. -/
theorem room_of_lt (h : 2 < bytes.toNat) :
    (bytes - 2).toNat = bytes.toNat - 2 ∧ bytes - 2 ≠ 0 := by
  have hnext : (bytes - 2).toNat = bytes.toNat - 2 := by
    rw [UInt32.toNat_sub_of_le]
    · rfl
    · rw [UInt32.le_iff_toNat_le]
      exact Nat.le_of_lt h
  refine ⟨hnext, fun hzero => ?_⟩
  rw [hzero] at hnext
  change 0 = _ at hnext
  omega

/-- The header says what it has to say, and its size is right. -/
theorem buildPdu_spec {d : DataField} {whole : List Segment} {last : Segment}
    (hsegments : d.segments = whole ++ [last])
    (hbits : d.extensionBits = LteRlcHeader.bits whole.length)
    (hindicators : d.lengthIndicators.map UInt16.toNat = whole.map fun s => s.payload.length)
    (hfew : whole.length < 43689) :
    ∃ pdu, s.buildPdu d = some (⟨d.txBuffer, d.txBufferSize, s.sequenceNumber.succ⟩, pdu) ∧
      pdu.length = 2 + DataField.indicatorBytes 1 whole.length + DataField.total (whole ++ [last]) ∧
      ∃ framingInfo, DataField.framingInfo (whole ++ [last]) = some framingInfo ∧
        pdu = (⟨framingInfo, s.sequenceNumber.value, LteRlcHeader.bits whole.length,
          whole.map fun s => s.payload.length⟩ : LteRlcHeader).serialize ++
            DataField.payload (whole ++ [last]) := by
  obtain ⟨framingInfo, hframing⟩ :=
    DataField.framingInfo_isSome (List.concat_ne_nil last whole)
  have hheader : s.header d framingInfo = ⟨framingInfo, s.sequenceNumber.value,
      LteRlcHeader.bits whole.length, whole.map fun s => s.payload.length⟩ := by
    unfold header
    rw [hbits, hindicators]
  have hlength : (s.header d framingInfo).serialize.length =
      2 + DataField.indicatorBytes 1 whole.length := by
    rw [hheader, LteRlcHeader.length_serialize (by rw [List.length_map]), List.length_map]
  have hheaderLength : (DataField.headerLength 2
      (s.header d framingInfo).extensionBits.length).toNat =
        2 + DataField.indicatorBytes 1 whole.length := by
    rw [hheader]
    dsimp only
    rw [LteRlcHeader.length_bits, DataField.headerLength_eq, UInt16.toNat_ofNat_of_lt']
    rw [DataField.indicatorBytes_one]
    change _ < 65536
    omega
  refine ⟨(s.header d framingInfo).serialize ++ DataField.payload (whole ++ [last]), ?_, ?_,
    framingInfo, hframing, by rw [hheader]⟩
  · unfold buildPdu addHeader
    rw [hsegments, hframing, Option.bind_some, if_pos (hlength.trans hheaderLength.symm),
      Option.map_some]
  · rw [List.length_append, hlength]
    rfl

/-- A PDU carries segments that were whole in the buffer, and one behind them. -/
theorem carries_of_prefix {pdu : List UInt8} {whole buffer : List Segment} {last : Segment}
    (hwhole : whole <+: buffer) (hbuffer : WaitingBuffer buffer) (hne : last.payload ≠ [])
    (hstatus : whole ≠ [] → last.status = .FULL_SDU ∨ last.status = .FIRST_SEGMENT)
    (hshort : ∀ segment ∈ whole, segment.payload.length ≤ 2047) (hfew : whole.length < 43689)
    (hpdu : ∃ framingInfo, DataField.framingInfo (whole ++ [last]) = some framingInfo ∧
      pdu = (⟨framingInfo, s.sequenceNumber.value, LteRlcHeader.bits whole.length,
        whole.map fun s => s.payload.length⟩ : LteRlcHeader).serialize ++
          DataField.payload (whole ++ [last])) :
    Carries s.sequenceNumber.value pdu whole last := by
  obtain ⟨behind, rfl⟩ := hwhole
  refine ⟨?_, ?_, hstatus, ?_, hshort, hfew, hpdu⟩
  · intro segment hsegment
    exact (hbuffer.waiting segment (List.mem_append_left _ (List.mem_of_mem_head? hsegment))).1
  · intro segment hsegment
    refine hbuffer.full segment ?_
    cases whole with
    | nil => cases hsegment
    | cons head tail => exact List.mem_append_left _ hsegment
  · intro segment hsegment
    rcases List.mem_append.mp hsegment with hsegment | hsegment
    · exact (hbuffer.waiting segment (List.mem_append_left _ hsegment)).2.1
    · obtain rfl := List.mem_singleton.mp hsegment
      exact hne

/-- A PDU carries the segments that were removed from the buffer, and fits into the opportunity. -/
theorem doNotifyTxOpportunity_spec {part part' : Option (List UInt8)} {sdus : List (List UInt8)}
    (h : s.Counts) (hcrowded : ¬ s.Crowded bytes)
    (hassemble : assemble part s.txBuffer = some (sdus, part')) :
    s.doNotifyTxOpportunity bytes = some (s, none) ∨
      ∃ next pdu whole last, s.doNotifyTxOpportunity bytes = some (next, some pdu) ∧
        Carries s.sequenceNumber.value pdu whole last ∧ next.Counts ∧
        next.sequenceNumber.value = s.sequenceNumber.value + 1 ∧
        (∀ part, assemble part (whole ++ [last] ++ next.txBuffer) = assemble part s.txBuffer) ∧
        pdu.length ≤ bytes.toNat := by
  unfold doNotifyTxOpportunity
  split
  · exact Or.inl rfl
  next hbytes =>
  rw [UInt32.not_le, UInt32.lt_iff_toNat_lt] at hbytes
  change 2 < bytes.toNat at hbytes
  cases hbuffer : s.txBuffer with
  | nil => exact Or.inl rfl
  | cons first rest =>
      refine Or.inr ?_
      obtain ⟨hnext, hne⟩ := room_of_lt hbytes
      have hwaiting := h.waiting
      rw [hbuffer] at hwaiting
      obtain ⟨d, hd⟩ : ∃ d, d = s.dataField bytes first rest := ⟨_, rfl⟩
      have hfills : DataField.Fills (bytes - 2).toNat 1 (first :: rest)
          (s.txBufferSize - first.getSize) d := by
        rw [hd]
        exact DataField.fills_fill hwaiting hne
      obtain ⟨⟨whole, last, hsegments, hwhole, hfewer, hlast, hstatus, hbits, hindicators, hshort,
        htotal⟩, hsame, hwaiting', hsize⟩ := hfills
      obtain ⟨behind, hbehind⟩ := id hwhole
      have hlastPos : 0 < last.payload.length := List.length_pos_iff.mpr hlast
      have htotalWhole :
          DataField.total d.segments = DataField.total whole + last.payload.length := by
        rw [hsegments, DataField.total_append, DataField.total_cons]
        rfl
      have hfew : whole.length < 43689 := by
        refine length_lt_of_not_crowded hcrowded (hbuffer.trans hbehind.symm) (fun hnil => ?_)
          hshort (by omega)
        rw [← hbehind, hnil, List.append_nil] at hfewer
        exact Nat.lt_irrefl _ hfewer
      obtain ⟨pdu, hbuild, hlength, hpdu⟩ := buildPdu_spec (s := s) hsegments hbits hindicators hfew
      -- No byte is lost or made up: what stays in the buffer is as long as the counter says.
      have hconserved := assemble_length hassemble
      have hassemble' := hsame part
      rw [← hbuffer, hassemble] at hassemble'
      have hconserved' := assemble_length hassemble'
      rw [List.flatMap_append, List.length_append] at hconserved'
      refine ⟨⟨d.txBuffer, d.txBufferSize, s.sequenceNumber.succ⟩, pdu, whole, last, ?_,
        carries_of_prefix hwhole hwaiting hlast (fun hne => hstatus (Or.inl hne)) hshort hfew hpdu,
        ⟨hwaiting', ?_⟩, rfl, fun part => by rw [← hsegments]; exact hsame part, ?_⟩
      · change (s.buildPdu (s.dataField bytes first rest)).map _ = _
        rw [← hd, hbuild]
        rfl
      · have hcounter : s.txBufferSize = .ofNat (DataField.total s.txBuffer) := by
          rw [← h.txBufferSize, UInt32.ofNat_toNat]
        have hsize' := hsize (by
          rw [hcounter, hbuffer, DataField.ofNat_total_cons, UInt32.add_sub_cancel]
          rfl)
        change d.txBufferSize.toNat = _
        rw [hsize']
        refine UInt32.toNat_ofNat_of_lt' ?_
        have hlt := s.txBufferSize.toNat_lt
        rw [h.txBufferSize] at hlt
        refine Nat.lt_of_le_of_lt ?_ hlt
        unfold DataField.total DataField.payload
        omega
      · rw [hlength, ← hsegments]
        omega

/-! ## A crowded opportunity -/

/-- The loop goes on while the segments and their length indicators leave room for another byte. -/
theorem lt_length_fill {first : Segment} {rest : List Segment} {next size : UInt32} {id : ℕ} (k : ℕ)
    (hparity : (id + k) % 2 = 0) (hbuffer : WaitingBuffer (first :: rest))
    (hk : k < (first :: rest).length)
    (hshort : ∀ s ∈ (first :: rest).take k, s.payload.length ≤ 2047)
    (htotal : DataField.total ((first :: rest).take k) + DataField.indicatorBytes id k <
      next.toNat) :
    k < (DataField.fill next id first rest size).segments.length := by
  induction k generalizing first rest next size id with
  | zero =>
      have hne : next ≠ 0 := fun hzero => by
        rw [hzero] at htotal
        exact absurd htotal (Nat.not_lt_zero _)
      have hfills : DataField.Fills next.toNat id (first :: rest) size _ :=
        DataField.fills_fill hbuffer hne
      obtain ⟨⟨whole, last, hsegments, -⟩, -⟩ := hfills
      rw [hsegments, List.length_append]
      exact Nat.succ_pos _
  | succ k ih =>
      cases rest with
      | nil => exact absurd (Nat.lt_of_succ_lt_succ hk) (Nat.not_lt_zero _)
      | cons second rest =>
          have hfirst := hbuffer.waiting first List.mem_cons_self
          have hsize := Segment.toNat_getSize hfirst.2.2
          have hfits := hshort first List.mem_cons_self
          rw [List.take_succ_cons, DataField.total_cons] at htotal
          change _ + ((if id % 2 = 1 then 2 else 1) + DataField.indicatorBytes (id + 1) k) < _
            at htotal
          have hroom : 2 ≤ (if id % 2 = 1 then 2 else 1) + DataField.indicatorBytes (id + 1) k := by
            have hmany := DataField.le_indicatorBytes (id + 1) k
            split
            · omega
            · next heven => omega
          -- The loop neither ends at the first segment nor stops behind it.
          unfold DataField.fill
          rw [if_neg, if_neg]
          · dsimp only
            rw [if_neg]
            · refine Nat.succ_lt_succ (ih (by omega) ⟨fun s hs => ?_, fun s hs => ?_⟩
                (Nat.lt_of_succ_lt_succ hk) (fun s hs => ?_) ?_)
              · exact hbuffer.waiting s (List.mem_cons_of_mem _ hs)
              · exact hbuffer.full s (List.mem_cons_of_mem _ hs)
              · exact hshort s (List.mem_cons_of_mem _ hs)
              · rw [DataField.toNat_sub_indicator hfirst.2.2 (by omega)]
                omega
            · rw [UInt32.not_le, UInt32.lt_iff_toNat_lt,
                DataField.toNat_sub_getSize hfirst.2.2 (by omega)]
              change 2 < _
              omega
          · rw [not_or, UInt32.not_lt, UInt32.not_lt, UInt32.le_iff_toNat_le,
              UInt32.le_iff_toNat_le, hsize]
            refine ⟨by omega, hfits⟩
          · rintro (hzero | hzero)
            · exact DataField.getSize_ne_zero hfirst hzero
            · rw [hzero] at htotal
              exact absurd htotal (Nat.not_lt_zero _)

/-- The header is written over the end of the room that was made for it. -/
theorem doNotifyTxOpportunity_crowded (h : s.Counts) (hcrowded : s.Crowded bytes) :
    s.doNotifyTxOpportunity bytes = none := by
  obtain ⟨hmany, hshort, htotal⟩ := hcrowded
  have hbytes : ¬ bytes ≤ 2 := by
    rw [UInt32.not_le, UInt32.lt_iff_toNat_lt]
    change 2 < _
    omega
  obtain ⟨hnext, hne⟩ := room_of_lt (by omega : 2 < bytes.toNat)
  unfold doNotifyTxOpportunity
  rw [if_neg hbytes]
  have hwaiting := h.waiting
  cases hbuffer : s.txBuffer with
  | nil =>
      rw [hbuffer] at hmany
      exact absurd hmany (Nat.not_lt_zero _)
  | cons first rest =>
      rw [hbuffer] at hmany hshort htotal hwaiting
      have hlong : 43689 < (DataField.fill (bytes - 2) 1 first rest
          (s.txBufferSize - first.getSize)).segments.length :=
        lt_length_fill 43689 rfl hwaiting hmany hshort (by
          rw [DataField.indicatorBytes_one, hnext]
          omega)
      have hfills : DataField.Fills (bytes - 2).toNat 1 (first :: rest)
          (s.txBufferSize - first.getSize) _ := DataField.fills_fill hwaiting hne
      obtain ⟨⟨whole, last, hsegments, -, -, -, -, hbits, hindicators, -⟩, -⟩ := hfills
      rw [hsegments, List.length_append, List.length_singleton] at hlong
      change (s.buildPdu (DataField.fill (bytes - 2) 1 first rest
        (s.txBufferSize - first.getSize))).map _ = none
      suffices hbuild : s.buildPdu (DataField.fill (bytes - 2) 1 first rest
          (s.txBufferSize - first.getSize)) = none by
        rw [hbuild]
        rfl
      unfold buildPdu addHeader
      cases DataField.framingInfo _ with
      | none => rfl
      | some framingInfo =>
          have hlength := LteRlcHeader.length_serialize (h := s.header (DataField.fill (bytes - 2) 1
            first rest (s.txBufferSize - first.getSize)) framingInfo) (by
              change DataField.extensionBits _ = LteRlcHeader.bits (List.map _ _).length
              rw [hbits, hindicators, List.length_map])
          change _ = 2 + DataField.indicatorBytes 1 (List.map _ _).length at hlength
          rw [hindicators, List.length_map, DataField.indicatorBytes_one] at hlength
          rw [Option.bind_some, if_neg]
          · rfl
          · rw [hlength]
            intro heq
            have hlt := (DataField.headerLength 2 (s.header (DataField.fill (bytes - 2) 1 first rest
              (s.txBufferSize - first.getSize)) framingInfo).extensionBits.length).toNat_lt
            rw [← heq] at hlt
            omega

end UmTransmitter

end Ns3Rdma.Lte
