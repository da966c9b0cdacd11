import Ns3Rdma.Lte.LteRlcUm
import Ns3Rdma.Lte.SduStream

/-! # From segments to a PDU and back

The header of a PDU is read as it was written, the packet is cut where the segments end, and the
automaton delivers the SDUs that the segments mean. -/

namespace Ns3Rdma.Lte

/-! ## The size of a header -/

namespace DataField

theorem indicatorBytes_succ (id n : ℕ) :
    indicatorBytes id (n + 1) = indicatorBytes id n + if (id + n) % 2 = 1 then 2 else 1 := by
  induction n generalizing id with
  | zero => exact Nat.add_comm _ 0
  | succ n ih =>
      change (if id % 2 = 1 then 2 else 1) + indicatorBytes (id + 1) (n + 1) = _
      rw [ih (id + 1), show id + 1 + n = id + (n + 1) by omega, ← Nat.add_assoc]
      rfl

theorem indicatorBytes_add_two (id n : ℕ) : indicatorBytes (id + 2) n = indicatorBytes id n := by
  induction n generalizing id with
  | zero => rfl
  | succ n ih =>
      change (if (id + 2) % 2 = 1 then 2 else 1) + indicatorBytes (id + 2 + 1) n =
        (if id % 2 = 1 then 2 else 1) + indicatorBytes (id + 1) n
      rw [Nat.add_mod_right, show id + 2 + 1 = id + 1 + 2 from rfl, ih]

/-- The bytes of the length indicators of a header, three for every two of them. -/
theorem indicatorBytes_one (n : ℕ) : indicatorBytes 1 n = n + (n + 1) / 2 := by
  induction n with
  | zero => rfl
  | succ n ih =>
      rw [indicatorBytes_succ, ih]
      split <;> omega

theorem le_indicatorBytes (id n : ℕ) : n ≤ indicatorBytes id n := by
  induction n generalizing id with
  | zero => exact Nat.zero_le _
  | succ n ih =>
      have hrest := ih (id + 1)
      unfold indicatorBytes
      split <;> omega

/-- `m_headerLength` has sixteen bits. -/
theorem headerLength_succ (fixed : UInt16) (n : ℕ) :
    headerLength fixed (n + 1) = fixed + .ofNat (indicatorBytes 1 n) := by
  induction n with
  | zero => exact (UInt16.add_zero _).symm
  | succ n ih =>
      change headerLength fixed (n + 1) + (if (n + 2) % 2 = 1 then 1 else 2) = _
      rw [ih, indicatorBytes_succ, UInt16.ofNat_add, UInt16.add_assoc]
      congr 2
      by_cases hodd : (n + 2) % 2 = 1
      · rw [if_pos hodd, if_neg (by omega)]
        rfl
      · rw [if_neg hodd, if_pos (by omega)]
        rfl

theorem headerLength_eq (n : ℕ) : headerLength 2 (n + 1) = .ofNat (2 + indicatorBytes 1 n) := by
  rw [headerLength_succ, UInt16.ofNat_add]
  rfl

theorem framingInfo_isSome {segments : List Segment} (hne : segments ≠ []) :
    ∃ framing, framingInfo segments = some framing := by
  obtain ⟨first, rest, rfl⟩ := List.exists_cons_of_ne_nil hne
  obtain ⟨last, hlast⟩ := Option.isSome_iff_exists.mp
    (List.getLast?_isSome.mpr (List.cons_ne_nil first rest))
  unfold framingInfo
  rw [List.head?_cons, Option.bind_some, hlast]
  exact ⟨_, rfl⟩

end DataField

namespace LteRlcHeader

open DataField

theorem length_bits (n : ℕ) : (bits n).length = n + 1 := by
  unfold bits
  rw [List.length_append, List.length_replicate]
  rfl

theorem length_serializeFields (indicators : List ℕ) (li : ℕ) :
    (serializeFields (bits indicators.length) (li :: indicators)).length =
      indicatorBytes 1 (indicators.length + 1) := by
  induction indicators using List.twoStepInduction generalizing li with
  | nil => rfl
  | singleton second => rfl
  | cons_cons second third indicators ih _ =>
      have hbits : bits (second :: third :: indicators).length =
          true :: true :: bits indicators.length := by
        rw [List.length_cons, List.length_cons, bits_succ, bits_succ]
      rw [hbits]
      change (serializeFields (bits indicators.length) (third :: indicators)).length + 1 + 1 + 1 =
        2 + (1 + indicatorBytes (1 + 2) (indicators.length + 1))
      rw [ih, indicatorBytes_add_two]
      omega

variable {h : LteRlcHeader} {payload : List UInt8}

theorem length_serialize (hbits : h.extensionBits = bits h.lengthIndicators.length) :
    h.serialize.length = 2 + indicatorBytes 1 h.lengthIndicators.length := by
  unfold serialize
  rw [hbits, List.length_cons, List.length_cons]
  cases h.lengthIndicators with
  | nil => rfl
  | cons li indicators =>
      rw [List.length_cons, bits_succ, List.tail_cons, length_serializeFields]
      omega

/-- The fields of the first byte. -/
theorem first_byte {a b e s : ℕ} (ha : a ≤ 1) (hb : b ≤ 1) (he : e ≤ 1) (hs : s < 4) :
    (UInt8.ofNat (a * 16 + b * 8 + e * 4 + s)).toNat = a * 16 + b * 8 + e * 4 + s ∧
      (a * 16 + b * 8 + e * 4 + s) / 16 % 2 = a ∧ (a * 16 + b * 8 + e * 4 + s) / 8 % 2 = b ∧
        (a * 16 + b * 8 + e * 4 + s) / 4 % 2 = e ∧ (a * 16 + b * 8 + e * 4 + s) % 4 = s := by
  refine ⟨toNat_ofNat_of_lt (by omega), ?_, ?_, ?_, ?_⟩ <;> omega

/-- A header is read as it was written. -/
theorem deserialize_serialize (hbits : h.extensionBits = bits h.lengthIndicators.length)
    (hindicators : ∀ i ∈ h.lengthIndicators, i < 2048) :
    deserialize (h.serialize ++ payload) = some (h, payload) := by
  obtain ⟨⟨first, last⟩, sequenceNumber, extensionBits, lengthIndicators⟩ := h
  dsimp only at hbits hindicators
  subst hbits
  have hseq := sequenceNumber.isLt
  have hlow : (UInt8.ofNat (sequenceNumber.val % 256)).toNat = sequenceNumber.val % 256 :=
    toNat_ofNat_of_lt (Nat.mod_lt _ (by decide))
  have hnumber : SequenceNumber10.wrap (sequenceNumber.val / 256 * 256 + sequenceNumber.val % 256) =
      sequenceNumber := by
    apply Fin.ext
    change _ % 1024 = _
    omega
  have hflag : ∀ b : Bool, (!decide ((!b).toNat = 1)) = b := by decide
  have hbyte := fun e : Bool => first_byte (Bool.toNat_le (!first)) (Bool.toNat_le (!last))
    (Bool.toNat_le e) (s := sequenceNumber.val / 256) (by omega)
  cases lengthIndicators with
  | nil =>
      obtain ⟨hvalue, hfirst, hlast, hextension, hhigh⟩ := hbyte false
      change deserialize (.ofNat ((!first).toNat * 16 + (!last).toNat * 8 + false.toNat * 4 +
        sequenceNumber.val / 256) :: .ofNat (sequenceNumber.val % 256) :: payload) = _
      unfold deserialize
      dsimp only
      rw [hvalue, hlow, hfirst, hlast, hextension, hhigh, hnumber, hflag, hflag]
      rfl
  | cons li indicators =>
      obtain ⟨hvalue, hfirst, hlast, hextension, hhigh⟩ := hbyte true
      rw [List.length_cons, bits_succ]
      change deserialize (.ofNat ((!first).toNat * 16 + (!last).toNat * 8 + true.toNat * 4 +
        sequenceNumber.val / 256) :: .ofNat (sequenceNumber.val % 256) ::
          (serializeFields (bits indicators.length) (li :: indicators) ++ payload)) = _
      unfold deserialize
      dsimp only
      rw [hvalue, hlow, hfirst, hlast, hextension, hhigh, hnumber, hflag, hflag,
        if_pos Bool.toNat_true, deserializeFields_serializeFields indicators li hindicators]
      rfl

end LteRlcHeader

/-! ## The segments of a PDU -/

/-- Whole SDUs are read one by one. -/
theorem assemble_full {whole : List Segment} (hfull : ∀ s ∈ whole, s.status = .FULL_SDU)
    (rest : List Segment) :
    assemble none (whole ++ rest) = (assemble none rest).map fun (sdus, part) =>
      (whole.map Segment.payload ++ sdus, part) := by
  induction whole with
  | nil =>
      rw [List.nil_append]
      cases assemble none rest <;> rfl
  | cons s whole ih =>
      obtain ⟨payload, status⟩ := s
      obtain rfl : status = .FULL_SDU := hfull _ List.mem_cons_self
      rw [List.cons_append]
      change (assemble none (whole ++ rest)).map _ = _
      rw [ih fun s hs => hfull s (List.mem_cons_of_mem _ hs), Option.map_map]
      rfl

/-- A PDU carries segments that end with `last`: the others are whole SDUs, but the first one may be
the end of an SDU. -/
structure Carries (seq : Fin 1024) (pdu : List UInt8) (whole : List Segment) (last : Segment) :
    Prop where
  starts : ∀ s ∈ whole.head?, s.status = .FULL_SDU ∨ s.status = .LAST_SEGMENT
  full : ∀ s ∈ whole.tail, s.status = .FULL_SDU
  ends : whole ≠ [] → last.status = .FULL_SDU ∨ last.status = .FIRST_SEGMENT
  nonempty : ∀ s ∈ whole ++ [last], s.payload ≠ []
  short : ∀ s ∈ whole, s.payload.length ≤ 2047
  few : whole.length < 43689
  pdu : ∃ framingInfo, DataField.framingInfo (whole ++ [last]) = some framingInfo ∧
    pdu = (⟨framingInfo, seq, LteRlcHeader.bits whole.length,
      whole.map fun s => s.payload.length⟩ : LteRlcHeader).serialize ++
        DataField.payload (whole ++ [last])

namespace Reassembler

variable {r : Reassembler} {whole : List Segment} {last : Segment}

/-- The packet is cut where the segments end. -/
theorem cutSdus_payload (whole : List Segment) (last : Segment) :
    cutSdus (LteRlcHeader.bits whole.length) (whole.map fun s => s.payload.length)
      (DataField.payload (whole ++ [last])) = some ((whole ++ [last]).map Segment.payload) := by
  induction whole with
  | nil =>
      change some [DataField.payload [last]] = some [last.payload]
      unfold DataField.payload
      rw [List.flatMap_singleton]
  | cons s whole ih =>
      rw [List.length_cons, LteRlcHeader.bits_succ, List.map_cons]
      change cutSdus _ _ (s.payload ++ DataField.payload (whole ++ [last])) = _
      unfold cutSdus
      rw [if_pos (by rw [List.length_append]; exact Nat.le_add_right _ _), List.drop_left,
        List.take_left, ih]
      rfl

/-- What is kept is the part of an SDU that was read. -/
def Holds (r : Reassembler) : Option (List UInt8) → Prop
  | none => r.reassemblingState = .WAITING_S0_FULL
  | some begun => r.reassemblingState = .WAITING_SI_SF ∧ r.keepS0 = some begun

/-- The buffer was delivered, up to a part of an SDU. -/
structure Delivers (r : Reassembler) (sdus : List (List UInt8)) (part : Option (List UInt8))
    (next : Reassembler) : Prop where
  holds : next.Holds part
  sdusBuffer : next.sdusBuffer = []
  delivered : next.delivered = r.delivered ++ sdus
  expectedSeqNumber : next.expectedSeqNumber = r.expectedSeqNumber

/-- Whether a segment ends with the last byte of an SDU. -/
abbrev endsSdu (s : Segment) : Bool := s.status = .FULL_SDU ∨ s.status = .LAST_SEGMENT

variable {sdus : List (List UInt8)} {part : Option (List UInt8)}

/-- Whole SDUs, and a last one that may be cut. -/
theorem startAnew_full (hfull : ∀ s ∈ whole, s.status = .FULL_SDU)
    (hassemble : assemble none (whole ++ [last]) = some (sdus, part))
    (hbuffer : r.sdusBuffer = (whole ++ [last]).map Segment.payload) :
    ∃ next, r.startAnew (true, endsSdu last) = some next ∧ r.Delivers sdus part next := by
  rw [assemble_full hfull] at hassemble
  obtain ⟨payload, status⟩ := last
  cases status with
  | FULL_SDU =>
      obtain ⟨rfl, rfl⟩ := Prod.mk.inj (Option.some.inj hassemble)
      refine ⟨r.deliverAll, rfl, rfl, rfl, ?_, rfl⟩
      change r.delivered ++ r.sdusBuffer = _
      rw [hbuffer, List.map_append]
      rfl
  | FIRST_SEGMENT =>
      obtain ⟨rfl, rfl⟩ := Prod.mk.inj (Option.some.inj hassemble)
      have hlast : r.sdusBuffer.getLast? = some payload := by
        rw [hbuffer, List.map_append]
        exact List.getLast?_concat
      have hdrop : r.sdusBuffer.dropLast = whole.map Segment.payload := by
        rw [hbuffer, List.map_append]
        exact List.dropLast_concat
      change ∃ next, r.sdusBuffer.getLast?.map _ = some next ∧ _
      rw [hlast]
      refine ⟨_, rfl, ⟨rfl, rfl⟩, rfl, ?_, rfl⟩
      rw [hdrop, List.append_nil]
  | MIDDLE_SEGMENT => cases hassemble
  | LAST_SEGMENT => cases hassemble

/-- Nothing is kept: the PDU begins with the first byte of an SDU. -/
theorem startAnew_spec {seq : Fin 1024} {pdu : List UInt8} (hcarries : Carries seq pdu whole last)
    (hassemble : assemble none (whole ++ [last]) = some (sdus, part))
    (hbuffer : r.sdusBuffer = (whole ++ [last]).map Segment.payload) :
    ∃ framingInfo next, DataField.framingInfo (whole ++ [last]) = some framingInfo ∧
      r.startAnew framingInfo = some next ∧ r.Delivers sdus part next := by
  have hend : (whole ++ [last]).getLast? = some last := List.getLast?_concat
  have hfull : ∀ s ∈ whole, s.status = .FULL_SDU := by
    intro s hs
    cases whole with
    | nil => cases hs
    | cons first whole =>
        rcases List.mem_cons.mp hs with rfl | hs
        · rcases hcarries.starts s rfl with hstatus | hstatus
          · exact hstatus
          · obtain ⟨payload, status⟩ := s
            obtain rfl : status = .LAST_SEGMENT := hstatus
            cases hassemble
        · exact hcarries.full s hs
  obtain ⟨next, hnext, hdelivers⟩ := startAnew_full hfull hassemble hbuffer
  have hframing : DataField.framingInfo (whole ++ [last]) = some (true, endsSdu last) := by
    unfold DataField.framingInfo
    cases whole with
    | nil =>
        obtain ⟨payload, status⟩ := last
        cases status with
        | FULL_SDU => rfl
        | FIRST_SEGMENT => rfl
        | MIDDLE_SEGMENT => cases hassemble
        | LAST_SEGMENT => cases hassemble
    | cons first whole =>
        rw [hend, List.cons_append, List.head?_cons, Option.bind_some, Option.map_some,
          hfull first List.mem_cons_self]
        rfl
  exact ⟨_, next, hframing, hnext, hdelivers⟩

/-- The PDU continues the SDU that is kept. -/
theorem continueS0_spec {seq : Fin 1024} {pdu begun : List UInt8}
    (hcarries : Carries seq pdu whole last) (hkeep : r.keepS0 = some begun)
    (hstate : r.reassemblingState = .WAITING_SI_SF)
    (hassemble : assemble (some begun) (whole ++ [last]) = some (sdus, part))
    (hbuffer : r.sdusBuffer = (whole ++ [last]).map Segment.payload) :
    ∃ framingInfo next, DataField.framingInfo (whole ++ [last]) = some framingInfo ∧
      r.continueS0 framingInfo = some next ∧ r.Delivers sdus part next := by
  cases whole with
  | nil =>
      obtain ⟨payload, status⟩ := last
      have hbuffer : r.sdusBuffer = [payload] := hbuffer
      cases status with
      | FULL_SDU => cases hassemble
      | FIRST_SEGMENT => cases hassemble
      | MIDDLE_SEGMENT =>
          obtain ⟨rfl, rfl⟩ := Prod.mk.inj (Option.some.inj hassemble)
          refine ⟨(false, false),
            ({ r with keepS0 := some (begun ++ payload) } : Reassembler).popFront, rfl, ?_,
            ⟨hstate, rfl⟩, ?_, (List.append_nil _).symm, rfl⟩
          · unfold continueS0
            rw [hkeep, hbuffer]
            rfl
          · change r.sdusBuffer.tail = []
            rw [hbuffer]
            rfl
      | LAST_SEGMENT =>
          obtain ⟨rfl, rfl⟩ := Prod.mk.inj (Option.some.inj hassemble)
          refine ⟨(false, true),
            ({ r with delivered := r.delivered ++ [begun ++ payload] } :
              Reassembler).popFront.deliverAll, rfl, ?_, rfl, rfl, ?_, rfl⟩
          · unfold continueS0
            rw [hkeep, hbuffer]
            rfl
          · change r.delivered ++ [begun ++ payload] ++ r.sdusBuffer.tail = _
            rw [hbuffer]
            exact List.append_nil _
  | cons first whole =>
      obtain ⟨front, status⟩ := first
      have hstatus : status = .FULL_SDU ∨ status = .LAST_SEGMENT := hcarries.starts _ rfl
      rcases hstatus with rfl | rfl
      · cases hassemble
      obtain ⟨⟨others, part'⟩, hothers, hsdus⟩ := Option.map_eq_some_iff.mp hassemble
      obtain ⟨rfl, rfl⟩ := Prod.mk.inj hsdus
      -- The rest of the buffer is delivered as if nothing were kept.
      obtain ⟨next, hnext, hdelivers⟩ := startAnew_full
        (r := ({ r with delivered := r.delivered ++ [begun ++ front] } : Reassembler).popFront)
        hcarries.full hothers (by
          change r.sdusBuffer.tail = _
          rw [hbuffer]
          rfl)
      refine ⟨(false, endsSdu last), next, ?_, ?_, hdelivers.holds, hdelivers.sdusBuffer, ?_,
        hdelivers.expectedSeqNumber⟩
      · unfold DataField.framingInfo
        rw [List.getLast?_concat]
        rfl
      · rw [← hnext]
        have hfront : r.sdusBuffer.head? = some front := by
          rw [hbuffer]
          rfl
        have hlength : r.sdusBuffer.length ≠ 1 := by
          rw [hbuffer, List.length_map, List.length_append, List.length_cons]
          simp
        cases endsSdu last with
        | true =>
            change r.keepS0.bind _ = _
            rw [hkeep, Option.bind_some, hfront]
            rfl
        | false =>
            change r.keepS0.bind _ = _
            rw [hkeep, Option.bind_some, hfront, Option.bind_some, if_neg hlength]
            rfl
      · rw [hdelivers.delivered]
        change r.delivered ++ [begun ++ front] ++ others = _
        rw [List.append_assoc]
        rfl

end Reassembler

variable {seq : Fin 1024} {pdu : List UInt8} {whole : List Segment} {last : Segment}

/-- The header that is read, and the bytes behind it. `m_headerLength` does not overflow. -/
theorem Carries.deserialize (h : Carries seq pdu whole last) :
    ∃ framingInfo, DataField.framingInfo (whole ++ [last]) = some framingInfo ∧
      LteRlcHeader.deserialize pdu = some (⟨framingInfo, seq, LteRlcHeader.bits whole.length,
        whole.map fun s => s.payload.length⟩, DataField.payload (whole ++ [last])) ∧
      pdu.drop (DataField.headerLength 2 (LteRlcHeader.bits whole.length).length).toNat =
        DataField.payload (whole ++ [last]) := by
  obtain ⟨framingInfo, hframing, hpdu⟩ := h.pdu
  have hfew := h.few
  have hbits : LteRlcHeader.bits whole.length =
      LteRlcHeader.bits (whole.map fun s => s.payload.length).length := by rw [List.length_map]
  refine ⟨framingInfo, hframing, ?_, ?_⟩
  · rw [hpdu]
    refine LteRlcHeader.deserialize_serialize hbits fun i hi => ?_
    obtain ⟨s, hs, rfl⟩ := List.mem_map.mp hi
    exact Nat.lt_succ_of_le (h.short s hs)
  · have hlength := LteRlcHeader.length_serialize (h := ⟨framingInfo, seq,
      LteRlcHeader.bits whole.length, whole.map fun s => s.payload.length⟩) hbits
    dsimp only at hlength
    rw [List.length_map] at hlength
    rw [LteRlcHeader.length_bits, DataField.headerLength_eq, UInt16.toNat_ofNat_of_lt', ← hlength,
      hpdu, List.drop_left]
    rw [DataField.indicatorBytes_one]
    change _ < 65536
    omega

/-- The PDU that is expected next: what its segments mean is delivered. -/
theorem Reassembler.reassembleAndDeliver_spec {r : Reassembler} {sdus : List (List UInt8)}
    {part part' : Option (List UInt8)} (h : Carries seq pdu whole last) (hholds : r.Holds part)
    (hempty : r.sdusBuffer = []) (hexpected : r.expectedSeqNumber.value = seq)
    (hassemble : assemble part (whole ++ [last]) = some (sdus, part')) :
    ∃ next, r.reassembleAndDeliver pdu = some next ∧ next.Holds part' ∧ next.sdusBuffer = [] ∧
      next.delivered = r.delivered ++ sdus ∧ next.expectedSeqNumber.value = seq + 1 := by
  obtain ⟨framingInfo, hframing, hdeserialize, hdrop⟩ := h.deserialize
  obtain ⟨r', hr'⟩ : ∃ r' : Reassembler, r' = { r with
    expectedSeqNumber := r.expectedSeqNumber.succ
    sdusBuffer := (whole ++ [last]).map Segment.payload } := ⟨_, rfl⟩
  have hrun : r.reassembleAndDeliver pdu =
      if r'.reassemblingState = .WAITING_S0_FULL then r'.startAnew framingInfo
      else r'.continueS0 framingInfo := by
    unfold reassembleAndDeliver
    rw [hdeserialize, Option.bind_some]
    dsimp only
    rw [hdrop, cutSdus_payload, Option.bind_some, hempty, List.nil_append, hexpected, hr']
    cases r.reassemblingState <;>
      simp only [ne_eq, not_true_eq_false, if_false, reduceCtorEq, if_true]
  have hnext : r'.expectedSeqNumber.value = seq + 1 := by
    rw [hr']
    change r.expectedSeqNumber.value + 1 = _
    rw [hexpected]
  have hbuffer : r'.sdusBuffer = (whole ++ [last]).map Segment.payload := by rw [hr']
  have hdelivered : r'.delivered = r.delivered := by rw [hr']
  -- The state of the reassembly says whether the first segment begins or continues an SDU.
  rw [hrun]
  suffices hspec : ∃ info next, DataField.framingInfo (whole ++ [last]) = some info ∧
      (if r'.reassemblingState = .WAITING_S0_FULL then r'.startAnew info
        else r'.continueS0 info) = some next ∧ r'.Delivers sdus part' next by
    obtain ⟨info, next, hinfo, hstep, hdelivers⟩ := hspec
    obtain rfl := Option.some.inj (hinfo.symm.trans hframing)
    exact ⟨next, hstep, hdelivers.holds, hdelivers.sdusBuffer, by
      rw [hdelivers.delivered, hdelivered], by rw [hdelivers.expectedSeqNumber, hnext]⟩
  cases part with
  | none =>
      have hstate : r'.reassemblingState = .WAITING_S0_FULL := by
        rw [hr']
        exact hholds
      simp only [if_pos hstate]
      exact startAnew_spec h hassemble hbuffer
  | some begun =>
      have hstate : r'.reassemblingState = .WAITING_SI_SF := by
        rw [hr']
        exact hholds.1
      have hwaiting : r'.reassemblingState ≠ .WAITING_S0_FULL := by
        rw [hstate]
        decide
      simp only [if_neg hwaiting]
      exact continueS0_spec h (by rw [hr']; exact hholds.2) hstate hassemble hbuffer

end Ns3Rdma.Lte
