import Mathlib.Data.List.Basic
import Mathlib.Tactic.Cases
import Mathlib.Data.UInt
import Ns3Rdma.Lte.LteRlcHeader
import Ns3Rdma.Lte.Segmentation

/-! # The stream of SDUs

What segments mean: read in order, they make up SDUs. Filling a data field only cuts the stream into
segments in another way. -/

namespace Ns3Rdma.Lte

/-- The SDUs that end in these segments, and the SDU that is not complete at the end, after `part`
of an SDU was read. Segments that do not follow one another mean nothing. -/
def assemble : Option (List UInt8) → List Segment →
    Option (List (List UInt8) × Option (List UInt8))
  | part, [] => some ([], part)
  | none, ⟨payload, .FULL_SDU⟩ :: rest =>
      (assemble none rest).map fun (sdus, part) => (payload :: sdus, part)
  | none, ⟨payload, .FIRST_SEGMENT⟩ :: rest => assemble (some payload) rest
  | some begun, ⟨payload, .MIDDLE_SEGMENT⟩ :: rest => assemble (some (begun ++ payload)) rest
  | some begun, ⟨payload, .LAST_SEGMENT⟩ :: rest =>
      (assemble none rest).map fun (sdus, part) => ((begun ++ payload) :: sdus, part)
  | _, _ => none

theorem assemble_append (part : Option (List UInt8)) (first second : List Segment) :
    assemble part (first ++ second) = (assemble part first).bind fun (sdus, part) =>
      (assemble part second).map fun (others, part) => (sdus ++ others, part) := by
  induction first generalizing part with
  | nil =>
      rw [List.nil_append]
      cases hsecond : assemble part second <;> simp [assemble, hsecond]
  | cons segment rest ih =>
      obtain ⟨payload, status⟩ := segment
      rw [List.cons_append]
      cases part with
      | none =>
          cases status with
          | FULL_SDU =>
              simp only [assemble, ih]
              cases assemble none rest <;> simp [Function.comp_def]
          | FIRST_SEGMENT => simp only [assemble, ih]
          | MIDDLE_SEGMENT => simp [assemble]
          | LAST_SEGMENT => simp [assemble]
      | some begun =>
          cases status with
          | FULL_SDU => simp [assemble]
          | FIRST_SEGMENT => simp [assemble]
          | MIDDLE_SEGMENT => simp only [assemble, ih]
          | LAST_SEGMENT =>
              simp only [assemble, ih]
              cases assemble none rest <;> simp [Function.comp_def]

/-- Segments that mean the same mean the same behind another one. -/
theorem assemble_cons_congr (segment : Segment) {first second : List Segment}
    (hsame : ∀ part, assemble part first = assemble part second) (part : Option (List UInt8)) :
    assemble part (segment :: first) = assemble part (segment :: second) := by
  change assemble part ([segment] ++ first) = assemble part ([segment] ++ second)
  rw [assemble_append, assemble_append]
  simp only [hsame]

/-- Every byte is in an SDU or in the part of one. -/
theorem assemble_length {part part' : Option (List UInt8)} {segments : List Segment}
    {sdus : List (List UInt8)} (h : assemble part segments = some (sdus, part')) :
    (part.getD []).length + (segments.flatMap Segment.payload).length =
      sdus.flatten.length + (part'.getD []).length := by
  induction segments generalizing part sdus with
  | nil =>
      obtain ⟨rfl, rfl⟩ := Prod.mk.inj (Option.some.inj h)
      rw [List.flatMap_nil, List.flatten_nil, Nat.add_comm]
  | cons s rest ih =>
      obtain ⟨payload, status⟩ := s
      rw [List.flatMap_cons, List.length_append]
      cases part with
      | none =>
          cases status with
          | FULL_SDU =>
              obtain ⟨⟨others, final⟩, hrest, heq⟩ := Option.map_eq_some_iff.mp h
              obtain ⟨rfl, rfl⟩ := Prod.mk.inj heq
              have hlength := ih hrest
              rw [List.flatten_cons, List.length_append]
              simp only [Option.getD_none, List.length_nil] at hlength ⊢
              omega
          | FIRST_SEGMENT =>
              have hrest : assemble (some payload) rest = some (sdus, part') := h
              have hlength := ih hrest
              simp only [Option.getD_none, Option.getD_some, List.length_nil] at hlength ⊢
              omega
          | MIDDLE_SEGMENT => cases h
          | LAST_SEGMENT => cases h
      | some begun =>
          cases status with
          | FULL_SDU => cases h
          | FIRST_SEGMENT => cases h
          | MIDDLE_SEGMENT =>
              have hrest : assemble (some (begun ++ payload)) rest = some (sdus, part') := h
              have hlength := ih hrest
              simp only [Option.getD_some, List.length_append] at hlength ⊢
              omega
          | LAST_SEGMENT =>
              obtain ⟨⟨others, final⟩, hrest, heq⟩ := Option.map_eq_some_iff.mp h
              obtain ⟨rfl, rfl⟩ := Prod.mk.inj heq
              have hlength := ih hrest
              rw [List.flatten_cons, List.length_append, List.length_append]
              simp only [Option.getD_none, Option.getD_some, List.length_nil] at hlength ⊢
              omega

/-- The first SDU is longer than the part of it that was read. -/
theorem length_lt_of_assemble {part part' : Option (List UInt8)} {segments : List Segment}
    {sdus : List (List UInt8)} {sdu : List UInt8} (hne : ∀ s ∈ segments, s.payload ≠ [])
    (h : assemble part segments = some (sdu :: sdus, part')) :
    (part.getD []).length < sdu.length := by
  induction segments generalizing part with
  | nil => cases h
  | cons s rest ih =>
      obtain ⟨payload, status⟩ := s
      have hpos : 0 < payload.length := List.length_pos_iff.mpr (hne _ List.mem_cons_self)
      have hrest := fun s hs => hne s (List.mem_cons_of_mem _ hs)
      cases part with
      | none =>
          cases status with
          | FULL_SDU =>
              obtain ⟨⟨others, final⟩, -, heq⟩ := Option.map_eq_some_iff.mp h
              obtain ⟨rfl, -⟩ := List.cons.inj (Prod.mk.inj heq).1
              exact hpos
          | FIRST_SEGMENT =>
              have hbegun : assemble (some payload) rest = some (sdu :: sdus, part') := h
              exact lt_trans hpos (ih hrest hbegun)
          | MIDDLE_SEGMENT => cases h
          | LAST_SEGMENT => cases h
      | some begun =>
          cases status with
          | FULL_SDU => cases h
          | FIRST_SEGMENT => cases h
          | MIDDLE_SEGMENT =>
              have hbegun : assemble (some (begun ++ payload)) rest = some (sdu :: sdus, part') := h
              have hlength := ih hrest hbegun
              simp only [Option.getD_some, List.length_append] at hlength ⊢
              omega
          | LAST_SEGMENT =>
              obtain ⟨⟨others, final⟩, -, heq⟩ := Option.map_eq_some_iff.mp h
              obtain ⟨rfl, -⟩ := List.cons.inj (Prod.mk.inj heq).1
              rw [Option.getD_some, List.length_append]
              omega

/-- A segment of the transmission buffer: a whole SDU, or what remains of one. -/
def Segment.Waiting (s : Segment) : Prop :=
  (s.status = .FULL_SDU ∨ s.status = .LAST_SEGMENT) ∧ s.payload ≠ [] ∧ s.payload.length < 2 ^ 32

/-- A transmission buffer: whole SDUs behind the first segment. -/
structure WaitingBuffer (buffer : List Segment) : Prop where
  waiting : ∀ s ∈ buffer, s.Waiting
  full : ∀ s ∈ buffer.tail, s.status = .FULL_SDU

namespace Segment

variable {s : Segment} {size : UInt32}

theorem toNat_getSize (h : s.payload.length < 2 ^ 32) : s.getSize.toNat = s.payload.length :=
  UInt32.toNat_ofNat_of_lt' h

/-- The parts of a segment mean the same as the segment. -/
theorem assemble_split (hstatus : s.status = .FULL_SDU ∨ s.status = .LAST_SEGMENT)
    (part : Option (List UInt8)) (rest : List Segment) :
    assemble part ((s.split size).1 :: ((s.split size).2.toList ++ rest)) =
      assemble part (s :: rest) := by
  obtain ⟨payload, status⟩ := s
  have hcut := List.take_append_drop size.toNat payload
  unfold split
  dsimp only
  split
  · next hempty =>
    rw [hempty, List.append_nil] at hcut
    rw [hcut]
    rcases hstatus with rfl | rfl
    · rfl
    · rfl
  · rcases hstatus with rfl | rfl
    · cases part with
      | none =>
          simp only [splitStatus, assemble, Option.toList_some, List.cons_append, List.nil_append,
            hcut]
      | some begun => rfl
    · cases part with
      | none => rfl
      | some begun =>
          simp only [splitStatus, assemble, Option.toList_some, List.cons_append, List.nil_append,
            List.append_assoc, hcut]

end Segment

namespace DataField

/-- The bytes of `n` length indicators, the first of which has the number `id`. -/
def indicatorBytes : ℕ → ℕ → ℕ
  | _, 0 => 0
  | id, n + 1 => (if id % 2 = 1 then 2 else 1) + indicatorBytes (id + 1) n

/-- All payload bytes. -/
def total (segments : List Segment) : ℕ := (payload segments).length

theorem total_cons (s : Segment) (rest : List Segment) :
    total (s :: rest) = s.payload.length + total rest := by
  unfold total payload
  rw [List.flatMap_cons, List.length_append]

theorem total_append (first second : List Segment) :
    total (first ++ second) = total first + total second := by
  unfold total payload
  rw [List.flatMap_append, List.length_append]

/-- What the loop has made of a buffer: segments that end with `last`, the others whole and with a
length indicator each. -/
structure Fills (next id : ℕ) (buffer : List Segment) (size : UInt32) (d : DataField) : Prop where
  segments : ∃ whole last, d.segments = whole ++ [last] ∧ whole <+: buffer ∧
    whole.length < buffer.length ∧ last.payload ≠ [] ∧
    (whole ≠ [] ∨ (∀ s ∈ buffer.head?, s.status = .FULL_SDU) →
      last.status = .FULL_SDU ∨ last.status = .FIRST_SEGMENT) ∧
    d.extensionBits = LteRlcHeader.bits whole.length ∧
    d.lengthIndicators.map UInt16.toNat = whole.map (fun s => s.payload.length) ∧
    (∀ s ∈ whole, s.payload.length ≤ 2047) ∧
    total d.segments + indicatorBytes id whole.length ≤ next
  same : ∀ part, assemble part (d.segments ++ d.txBuffer) = assemble part buffer
  waiting : WaitingBuffer d.txBuffer
  txBufferSize : size = .ofNat (total buffer.tail) → d.txBufferSize = .ofNat (total d.txBuffer)

variable {first second : Segment} {rest : List Segment} {next size : UInt32} {id : ℕ}

/-- The data field ends with the first segment, or with a part of it. -/
theorem fills_single {d : DataField} {last : Segment} (hsegments : d.segments = [last])
    (hbits : d.extensionBits = [false]) (hindicators : d.lengthIndicators = [])
    (hne : last.payload ≠ []) (hle : last.payload.length ≤ next.toNat)
    (hstatus : first.status = .FULL_SDU →
      last.status = .FULL_SDU ∨ last.status = .FIRST_SEGMENT)
    (hsame : ∀ part, assemble part (d.segments ++ d.txBuffer) = assemble part (first :: rest))
    (hwaiting : WaitingBuffer d.txBuffer)
    (hsize : size = .ofNat (total rest) → d.txBufferSize = .ofNat (total d.txBuffer)) :
    Fills next.toNat id (first :: rest) size d := by
  refine ⟨⟨[], last, hsegments, List.nil_prefix, Nat.succ_pos _, hne, ?_, hbits, ?_, ?_, ?_⟩,
    hsame, hwaiting, hsize⟩
  · rintro (hfalse | hfull)
    · exact absurd rfl hfalse
    · exact hstatus (hfull first rfl)
  · rw [hindicators]
    rfl
  · intro s hs
    cases hs
  · rw [hsegments]
    change total [last] + 0 ≤ _
    rw [total_cons]
    exact hle

theorem ofNat_total_cons (s : Segment) (rest : List Segment) :
    UInt32.ofNat (total (s :: rest)) = .ofNat (total rest) + s.getSize := by
  rw [total_cons, Nat.add_comm, UInt32.ofNat_add]
  rfl

theorem getSize_pos (h : first.Waiting) : 0 < first.getSize.toNat := by
  rw [Segment.toNat_getSize h.2.2]
  exact List.length_pos_iff.mpr h.2.1

theorem getSize_ne_zero (h : first.Waiting) : first.getSize ≠ 0 := by
  intro hzero
  have hpos := getSize_pos h
  rw [hzero] at hpos
  exact absurd hpos (by decide)

/-- The size of the part that is taken. -/
theorem currSegmentSize_bounds (hpos : 0 < first.getSize.toNat) (hnext : next ≠ 0) :
    0 < (min first.getSize next).toNat ∧ (min first.getSize next).toNat ≤ next.toNat := by
  change 0 < (if first.getSize ≤ next then first.getSize else next).toNat ∧
    (if first.getSize ≤ next then first.getSize else next).toNat ≤ next.toNat
  split
  · next hle => exact ⟨hpos, hle⟩
  · exact ⟨Nat.pos_of_ne_zero fun h => hnext (UInt32.toNat_inj.mp h), le_rfl⟩

/-- A segment that does not fit, or that is too long for a length indicator. -/
theorem fills_split (hbuffer : WaitingBuffer (first :: rest)) (hnext : next ≠ 0) :
    Fills next.toNat id (first :: rest) size
      (match first.split (min first.getSize next) with
        | (segment, some remaining) =>
            ⟨[segment], [false], [], remaining :: rest, size + remaining.getSize⟩
        | (segment, none) => ⟨[segment], [false], [], rest, size⟩) := by
  have hfirst := hbuffer.waiting first List.mem_cons_self
  have hpos := getSize_pos hfirst
  obtain ⟨hstatus, hne, hlt⟩ := hfirst
  obtain ⟨curr, hcurr⟩ : ∃ curr, curr = min first.getSize next := ⟨_, rfl⟩
  have hbounds : 0 < curr.toNat ∧ curr.toNat ≤ next.toNat := by
    rw [hcurr]
    exact currSegmentSize_bounds hpos hnext
  -- Whether a part remains or not, the stream stays the same.
  have hsame : ∀ part rest, assemble part ((first.split curr).1 ::
      ((first.split curr).2.toList ++ rest)) = assemble part (first :: rest) :=
    fun part rest => Segment.assemble_split hstatus part rest
  have htaken : first.payload.take curr.toNat ≠ [] := by
    intro hnil
    rcases List.take_eq_nil_iff.mp hnil with hzero | hempty
    · omega
    · exact hne hempty
  have htakenLe : (first.payload.take curr.toNat).length ≤ next.toNat := by
    rw [List.length_take]
    omega
  rw [← hcurr]
  unfold Segment.split at hsame ⊢
  dsimp only at hsame ⊢
  by_cases hempty : first.payload.drop curr.toNat = []
  · rw [if_pos hempty] at hsame ⊢
    refine fills_single rfl rfl rfl htaken htakenLe (fun hfull => ?_) (fun part => hsame part rest)
      ⟨fun s hs => hbuffer.waiting s (List.mem_cons_of_mem _ hs), fun s hs => hbuffer.full s
        (List.mem_of_mem_tail hs)⟩ fun hsize => hsize
    unfold Segment.splitStatus
    rw [hfull]
    exact Or.inl rfl
  · rw [if_neg hempty] at hsame ⊢
    have hlast : first.splitStatus.2 = .LAST_SEGMENT := by
      unfold Segment.splitStatus
      rcases hstatus with hfull | hlast
      · rw [hfull]
      · rw [hlast]
    refine fills_single rfl rfl rfl htaken htakenLe (fun hfull => ?_) (fun part => hsame part rest)
      ⟨fun s hs => ?_, hbuffer.full⟩ fun hsize => ?_
    · unfold Segment.splitStatus
      rw [hfull]
      exact Or.inr rfl
    · rcases List.mem_cons.mp hs with rfl | hs
      · refine ⟨Or.inr hlast, hempty, ?_⟩
        rw [List.length_drop]
        omega
      · exact hbuffer.waiting s (List.mem_cons_of_mem _ hs)
    · rw [ofNat_total_cons, hsize]

/-- The room behind a segment that fits. -/
theorem toNat_sub_getSize (hsize : first.payload.length < 2 ^ 32)
    (hle : first.payload.length ≤ next.toNat) :
    (next - first.getSize).toNat = next.toNat - first.payload.length := by
  have hbytes := Segment.toNat_getSize hsize
  rw [UInt32.toNat_sub_of_le, hbytes]
  rw [UInt32.le_iff_toNat_le, hbytes]
  exact hle

/-- The room behind a segment and its length indicator: every second one takes two bytes. -/
theorem toNat_sub_indicator (hsize : first.payload.length < 2 ^ 32)
    (hroom : first.payload.length + 2 ≤ next.toNat) :
    (next - ((if id % 2 = 1 then 2 else 1) + first.getSize)).toNat =
      next.toNat - ((if id % 2 = 1 then 2 else 1) + first.payload.length) := by
  have hlt := next.toNat_lt
  obtain ⟨li, hli⟩ : ∃ li : UInt32, li = if id % 2 = 1 then 2 else 1 := ⟨_, rfl⟩
  have hliNat : li.toNat = if id % 2 = 1 then 2 else 1 := by
    rw [hli]
    split <;> rfl
  have hliLe : li.toNat ≤ 2 := by
    rw [hliNat]
    split <;> omega
  have hsum : (li + first.getSize).toNat = li.toNat + first.payload.length := by
    rw [UInt32.toNat_add, Segment.toNat_getSize hsize]
    exact Nat.mod_eq_of_lt (by omega)
  rw [← hli, ← hliNat, UInt32.toNat_sub_of_le, hsum]
  rw [UInt32.le_iff_toNat_le, hsum]
  omega

/-- The loop fills the data field, if there is room for a byte. -/
theorem fills_fill (hbuffer : WaitingBuffer (first :: rest)) (hnext : next ≠ 0) :
    Fills next.toNat id (first :: rest) size (fill next id first rest size) := by
  induction rest generalizing first next id size with
  | nil =>
      have hfirst := hbuffer.waiting first List.mem_cons_self
      unfold fill
      rw [if_neg (not_or.mpr ⟨getSize_ne_zero hfirst, hnext⟩)]
      split
      · exact fills_split hbuffer hnext
      · next hfits =>
        rw [not_or, UInt32.not_lt, UInt32.le_iff_toNat_le,
          Segment.toNat_getSize hfirst.2.2] at hfits
        exact fills_single rfl rfl rfl hfirst.2.1 hfits.1 Or.inl (fun part => rfl)
          ⟨fun s hs => (by cases hs), fun s hs => (by cases hs)⟩ fun hsize => hsize
  | cons second rest ih =>
      have hfirst := hbuffer.waiting first List.mem_cons_self
      have hrest : WaitingBuffer (second :: rest) :=
        ⟨fun s hs => hbuffer.waiting s (List.mem_cons_of_mem _ hs),
          fun s hs => hbuffer.full s (List.mem_cons_of_mem _ hs)⟩
      unfold fill
      rw [if_neg (not_or.mpr ⟨getSize_ne_zero hfirst, hnext⟩)]
      split
      · exact fills_split hbuffer hnext
      · next hfits =>
        rw [not_or, UInt32.not_lt, UInt32.not_lt, UInt32.le_iff_toNat_le, UInt32.le_iff_toNat_le,
          Segment.toNat_getSize hfirst.2.2] at hfits
        obtain ⟨hle, hshort⟩ := hfits
        change first.payload.length ≤ 2047 at hshort
        dsimp only
        split
        · exact fills_single rfl rfl rfl hfirst.2.1 hle Or.inl (fun part => rfl) hrest
            fun hsize => hsize
        · next hroom =>
          -- A length indicator, and the loop goes on with the second segment.
          rw [UInt32.not_le, UInt32.lt_iff_toNat_lt, toNat_sub_getSize hfirst.2.2 hle] at hroom
          change 2 < next.toNat - first.payload.length at hroom
          have hnext' : (next - ((if id % 2 = 1 then 2 else 1) + first.getSize)).toNat =
              next.toNat - ((if id % 2 = 1 then 2 else 1) + first.payload.length) :=
            toNat_sub_indicator hfirst.2.2 (by omega)
          have hli : (if id % 2 = 1 then 2 else 1) ≤ 2 := by
            split <;> omega
          have hne' : next - ((if id % 2 = 1 then 2 else 1) + first.getSize) ≠ 0 := fun hzero => by
            rw [hzero] at hnext'
            change 0 = _ at hnext'
            omega
          have hfills : Fills _ (id + 1) (second :: rest) (size - second.getSize) _ := ih hrest hne'
          obtain ⟨⟨whole, last, hsegments, hprefix, hfewer, hlast, hstatus, hbits, hindicators,
            hlong, htotal⟩, hsame, hwaiting, hsize⟩ := hfills
          rw [hnext'] at htotal
          have hsecond : second.status = .FULL_SDU := hbuffer.full second List.mem_cons_self
          refine ⟨⟨first :: whole, last, ?_, List.prefix_cons_inj first |>.mpr hprefix,
            Nat.succ_lt_succ hfewer, hlast, fun _ => hstatus (Or.inr ?_), ?_, ?_, ?_, ?_⟩,
            fun part => ?_, hwaiting, fun htx => ?_⟩
          · unfold cons
            rw [hsegments]
            rfl
          · intro s hs
            obtain rfl := Option.some.inj hs
            exact hsecond
          · unfold cons
            rw [hbits, List.length_cons, LteRlcHeader.bits_succ]
          · unfold cons
            dsimp only
            rw [List.map_cons, List.map_cons, hindicators]
            congr 1
            rw [UInt32.toNat_toUInt16, Segment.toNat_getSize hfirst.2.2]
            exact Nat.mod_eq_of_lt (by omega)
          · intro s hs
            rcases List.mem_cons.mp hs with rfl | hs
            · exact hshort
            · exact hlong s hs
          · change total (first :: _) + ((if id % 2 = 1 then 2 else 1) + _) ≤ _
            rw [total_cons]
            omega
          · exact assemble_cons_congr first hsame part
          · exact hsize (by
              rw [htx, List.tail_cons, ofNat_total_cons, UInt32.add_sub_cancel]
              rfl)

end DataField

end Ns3Rdma.Lte
