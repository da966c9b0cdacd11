import Mathlib.Data.List.TakeDrop
import Ns3Rdma.Lib.StepSystem
import Ns3Rdma.Lib.Word
import Ns3Rdma.Wifi.MacRxMiddle

/-! # Bursts of fragments

An originator sends its MSDUs fragment by fragment. A frame that is not acknowledged is sent again
with the retry flag, the next fragment follows when one was received, and an MSDU may be abandoned
for the next one at any point. A frame may be lost, and frames of other originators may arrive. -/

namespace Ns3Rdma.Wifi

open StepSystem

/-- An MSDU that is being sent: the fragment that is on the air, whether it was sent before, and
whether it was received. -/
structure Burst where
  hdr : WifiMacHeader
  number : ℕ
  fragments : List Packet
  index : ℕ
  transmitted : Bool
  heard : Bool

namespace Burst

variable (b : Burst)

/-- The header of a fragment. Sequence numbers have twelve bits. -/
def frame (index : ℕ) (retry : Bool) : WifiMacHeader :=
  { b.hdr with
    ctrlMoreFrag := index + 1 < b.fragments.length
    ctrlRetry := retry
    seqFrag := .ofNat index
    seqSeq := .ofNat (b.number % 4096) }

/-- How many fragments were received. -/
def received : ℕ := b.index + b.heard.toNat

/-- The flag is set when a frame is sent again, and is not set when the MSDU is sent first. -/
def Flagged (retry : Bool) : Prop :=
  (b.transmitted → retry) ∧ (b.index = 0 → ¬ b.transmitted → ¬ retry)

instance (retry : Bool) : Decidable (b.Flagged retry) :=
  inferInstanceAs (Decidable (_ ∧ _))

end Burst

/-- An originator and the receiver. The MSDUs all of whose fragments were received are recorded. -/
structure Link where
  middle : MacRxMiddle
  burst : Option Burst
  nextNumber : ℕ
  complete : List Packet

/-- `transmit` sends the fragment that is on the air, `proceed` goes on to the next one, and
`receive` is a frame of another originator. -/
inductive FrameEvent where
  | begin (hdr : WifiMacHeader) (number : ℕ) (fragments : List Packet)
  | transmit (retry heard : Bool)
  | proceed
  | receive (packet : Packet) (hdr : WifiMacHeader)

namespace Link

variable (originator : Originator) (l : Link)

def start : Link := ⟨.new, none, 0, []⟩

/-- The fragments of an MSDU are numbered with four bits. -/
def Sendable (hdr : WifiMacHeader) (fragments : List Packet) : Prop :=
  hdr.originator = originator ∧ hdr.addr1.isGroup = false ∧ (hdr.isData || hdr.isMgt) ∧
    fragments ≠ [] ∧ fragments.length ≤ 16

instance (hdr : WifiMacHeader) (fragments : List Packet) :
    Decidable (Sendable originator hdr fragments) :=
  inferInstanceAs (Decidable (_ ∧ _))

/-- The frame arrives. An MSDU is complete when its last fragment is received first. -/
def hear (b : Burst) (packet : Packet) (retry : Bool) : Option Link :=
  (l.middle.receive packet (b.frame b.index retry)).map fun middle =>
    { l with
      middle := middle
      burst := some { b with transmitted := true, heard := true }
      complete :=
        if !b.heard && b.index + 1 == b.fragments.length then l.complete ++ [b.fragments.flatten]
        else l.complete }

def step : FrameEvent → Option Link
  | .begin hdr number fragments =>
      if Sendable originator hdr fragments ∧ l.nextNumber ≤ number then
        some { l with
          burst := some ⟨hdr, number, fragments, 0, false, false⟩
          nextNumber := number + 1 }
      else none
  | .transmit retry heard =>
      l.burst.bind fun b =>
        b.fragments[b.index]?.bind fun packet =>
          if b.Flagged retry then
            if heard then l.hear b packet retry
            else some { l with burst := some { b with transmitted := true } }
          else none
  | .proceed =>
      l.burst.bind fun b =>
        if b.heard ∧ b.index + 1 < b.fragments.length then
          some { l with
            burst := some { b with index := b.index + 1, transmitted := false, heard := false } }
        else none
  | .receive packet hdr =>
      if hdr.originator ≠ originator then
        (l.middle.receive packet hdr).map fun middle => { l with middle := middle }
      else none

/-- When the first frame of an MSDU arrives, no other MSDU is being reassembled, and the frame is
not a retry with the last sequence control. -/
def InTurn : FrameEvent → Prop
  | .transmit retry true =>
      ∀ b ∈ l.burst, b.received = 0 →
        (l.middle.originatorStatus originator).defragmenting = false ∧
          ¬ (retry ∧ (l.middle.originatorStatus originator).lastSequenceControl =
            (b.frame 0 retry).getSequenceControl)
  | _ => True

instance : (event : FrameEvent) → Decidable (l.InTurn originator event)
  | .transmit retry true => inferInstanceAs (Decidable (∀ b ∈ l.burst, b.received = 0 →
      (l.middle.originatorStatus originator).defragmenting = false ∧
        ¬ (retry ∧ (l.middle.originatorStatus originator).lastSequenceControl =
          (b.frame 0 retry).getSequenceControl)))
  | .transmit _ false | .begin _ _ _ | .proceed | .receive _ _ => inferInstanceAs (Decidable True)

/-- What was delivered are the MSDUs all of whose fragments were received. -/
def Delivers : Prop := l.middle.delivered originator = l.complete

instance : Decidable (l.Delivers originator) := inferInstanceAs (Decidable (_ = _))

end Link

/-! ## Sequence controls -/

theorem WifiMacHeader.toNat_getSequenceControl {hdr : WifiMacHeader}
    (hfrag : hdr.seqFrag.toNat < 16) (hseq : hdr.seqSeq.toNat < 4096) :
    hdr.getSequenceControl.toNat = hdr.seqSeq.toNat * 16 + hdr.seqFrag.toNat := by
  unfold getSequenceControl
  rw [UInt16.toNat_or, UInt16.toNat_shiftLeft, UInt8.toNat_toUInt16]
  exact Word.shiftLeft_mod_or (k := 4) (w := 16) (by omega) hfrag

variable {b : Burst} {o : OriginatorRxStatus} {i number : ℕ} {retry : Bool} {packet : Packet}
  {sequenceControl : UInt16}

theorem Burst.toNat_frame (hi : i < 16) :
    (b.frame i retry).getSequenceControl.toNat = b.number % 4096 * 16 + i := by
  have hnumber : b.number % 4096 < 4096 := Nat.mod_lt _ (by decide)
  have hfrag : (b.frame i retry).seqFrag.toNat = i :=
    UInt8.toNat_ofNat_of_lt' (show i < 2 ^ 8 by omega)
  have hseq : (b.frame i retry).seqSeq.toNat = b.number % 4096 :=
    UInt16.toNat_ofNat_of_lt' (show b.number % 4096 < 2 ^ 16 by omega)
  rw [WifiMacHeader.toNat_getSequenceControl (by rw [hfrag]; exact hi)
    (by rw [hseq]; exact hnumber), hfrag, hseq]

theorem OriginatorRxStatus.isNextFragment_succ
    (hlast : o.lastSequenceControl.toNat = number * 16 + i)
    (hnext : sequenceControl.toNat = number * 16 + (i + 1)) (hi : i + 1 < 16) :
    o.isNextFragment sequenceControl = true := by
  have hshift (x : UInt16) : (x >>> 4).toNat = x.toNat / 16 := by
    rw [UInt16.toNat_shiftRight]
    change x.toNat >>> 4 = _
    rw [Nat.shiftRight_eq_div_pow]
  have hmask (x : UInt16) : (x &&& 0x0f).toNat = x.toNat % 16 := by
    rw [UInt16.toNat_and]
    exact Nat.and_two_pow_sub_one_eq_mod _ 4
  unfold isNextFragment
  rw [Bool.and_eq_true, beq_iff_eq, beq_iff_eq, ← UInt16.toNat_inj, ← UInt16.toNat_inj, hshift,
    hshift, UInt16.toNat_add, hmask, hmask, hlast, hnext]
  change _ ∧ _ = (_ + 1) % 65536
  omega

/-! ## The status follows the burst -/

/-- What the status holds of the MSDU of which fragments were received. -/
structure Burst.Tracks (b : Burst) (o : OriginatorRxStatus) : Prop where
  last_eq : b.received ≠ 0 →
    o.lastSequenceControl = (b.frame (b.received - 1) false).getSequenceControl
  within : b.received ≠ 0 → b.received < b.fragments.length →
    o.defragmenting = true ∧ o.fragments = b.fragments.take b.received
  whole : b.received = b.fragments.length → o.defragmenting = false

/-- The burst after its frame was received. -/
def Burst.hearing (b : Burst) : Burst := { b with transmitted := true, heard := true }

theorem Burst.received_hearing (b : Burst) : b.hearing.received = b.index + 1 := rfl

theorem Burst.sequenceControl_ne {b : Burst} (hlt : i + 1 < 16) :
    (b.frame i false).getSequenceControl ≠ (b.frame (i + 1) retry).getSequenceControl := by
  intro heq
  have hsame := congrArg UInt16.toNat heq
  rw [Burst.toNat_frame (by omega), Burst.toNat_frame hlt] at hsame
  omega

/-- The first frame of an MSDU, which arrives in its turn. -/
theorem OriginatorRxStatus.receive_first (hpacket : b.fragments[0]? = some packet)
    (hgroup : b.hdr.addr1.isGroup = false) (hidle : o.defragmenting = false)
    (hempty : o.fragments = []) (hindex : b.index = 0)
    (hnew : ¬ (retry ∧ o.lastSequenceControl = (b.frame 0 retry).getSequenceControl)) :
    ∃ o', o.receive packet (b.frame 0 retry) =
        some (o', if b.fragments.length = 1 then some b.fragments.flatten else none) ∧
      b.hearing.Tracks o' ∧ (o'.defragmenting = false → o'.fragments = []) := by
  have hduplicate : o.isDuplicate (b.frame 0 retry) = false := by
    unfold isDuplicate
    rw [Bool.and_eq_false_iff, beq_eq_false_iff_ne]
    by_cases hretry : retry = true
    · exact Or.inr fun hlast => hnew ⟨hretry, hlast⟩
    · exact Or.inl (Bool.eq_false_of_not_eq_true hretry)
  have hreceived : b.hearing.received = 1 := by rw [Burst.received_hearing, hindex]
  unfold receive
  rw [hduplicate, if_neg Bool.false_ne_true]
  unfold handleFragments
  rw [hidle, if_neg Bool.false_ne_true]
  by_cases hmore : 1 < b.fragments.length
  · have hfrag : (b.frame 0 retry).ctrlMoreFrag = true := decide_eq_true hmore
    unfold accumulateFirstFragment
    rw [if_pos hfrag, hidle, if_neg (by omega : ¬ b.fragments.length = 1)]
    refine ⟨_, rfl, ⟨fun _ => ?_, fun _ _ => ⟨rfl, ?_⟩, fun hwhole => ?_⟩, fun h => by cases h⟩
    · rw [hreceived]
      rfl
    · rw [hreceived]
      change o.fragments ++ [packet] = b.fragments.take 1
      rw [hempty, List.take_add_one, hpacket]
      rfl
    · rw [hreceived] at hwhole
      change 1 = b.fragments.length at hwhole
      omega
  · have hfrag : (b.frame 0 retry).ctrlMoreFrag = false := decide_eq_false hmore
    obtain ⟨rest, hfragments⟩ : ∃ rest, b.fragments = packet :: rest := by
      cases hb : b.fragments with
      | nil => rw [hb] at hpacket; cases hpacket
      | cons first rest =>
          rw [hb] at hpacket
          exact ⟨rest, by rw [Option.some.inj hpacket]⟩
    have hrest : rest = [] := by
      rw [hfragments] at hmore
      exact List.length_eq_zero_iff.mp (by simpa using hmore)
    subst hrest
    have hunicast : (b.frame 0 retry).addr1.isGroup = false := hgroup
    rw [hfrag, if_neg Bool.false_ne_true, hfragments]
    simp only [Option.map_some, hunicast, Bool.not_false, if_true, List.length_singleton,
      List.flatten_singleton]
    refine ⟨_, rfl, ⟨fun _ => ?_, fun _ hlt => ?_, fun _ => hidle⟩, fun _ => hempty⟩
    · rw [hreceived]
      rfl
    · rw [hreceived] at hlt
      change 1 < b.fragments.length at hlt
      exact absurd hlt hmore

/-- The fragment that follows the last one that was received. -/
theorem OriginatorRxStatus.receive_next (hpacket : b.fragments[b.index]? = some packet)
    (hgroup : b.hdr.addr1.isGroup = false) (hle : b.fragments.length ≤ 16) (htracks : b.Tracks o)
    (hheard : b.heard = false) (hindex : b.index ≠ 0) :
    ∃ o', o.receive packet (b.frame b.index retry) =
        some (o', if b.index + 1 = b.fragments.length then some b.fragments.flatten else none) ∧
      b.hearing.Tracks o' ∧ (o'.defragmenting = false → o'.fragments = []) := by
  obtain ⟨hlt, hget⟩ := List.getElem?_eq_some_iff.mp hpacket
  obtain ⟨i, hi⟩ := Nat.exists_eq_add_one_of_ne_zero hindex
  have hreceived : b.received = b.index := by
    unfold Burst.received
    rw [hheard]
    rfl
  have hlast := htracks.last_eq (by rw [hreceived]; exact hindex)
  obtain ⟨hdefragmenting, hfragments⟩ :=
    htracks.within (by rw [hreceived]; exact hindex) (by rw [hreceived]; exact hlt)
  rw [hreceived] at hlast hfragments
  have hprevious : b.index - 1 = i := by omega
  rw [hprevious] at hlast
  have hduplicate : o.isDuplicate (b.frame b.index retry) = false := by
    unfold isDuplicate
    rw [Bool.and_eq_false_iff, beq_eq_false_iff_ne, hlast, hi]
    exact Or.inr (Burst.sequenceControl_ne (by omega))
  have hnext : o.isNextFragment (b.frame b.index retry).getSequenceControl = true := by
    have hprev : o.lastSequenceControl.toNat = b.number % 4096 * 16 + i := by
      rw [hlast, Burst.toNat_frame (by omega)]
    have hcurrent : (b.frame b.index retry).getSequenceControl.toNat =
        b.number % 4096 * 16 + (i + 1) := by
      rw [hi, Burst.toNat_frame (by omega)]
    exact isNextFragment_succ hprev hcurrent (by omega)
  have htake : b.fragments.take (b.index + 1) = o.fragments ++ [packet] := by
    rw [List.take_add_one, hfragments, hpacket]
    rfl
  have hunicast : (b.frame b.index retry).addr1.isGroup = false := hgroup
  unfold receive
  rw [hduplicate, if_neg Bool.false_ne_true]
  unfold handleFragments
  rw [if_pos hdefragmenting, hnext, if_pos rfl, if_pos rfl]
  by_cases hmore : b.index + 1 < b.fragments.length
  · have hfrag : (b.frame b.index retry).ctrlMoreFrag = true := decide_eq_true hmore
    unfold accumulateFragment
    rw [if_pos hfrag, if_pos hdefragmenting, if_neg (by omega)]
    refine ⟨_, rfl, ⟨fun _ => rfl, fun _ _ => ⟨hdefragmenting, ?_⟩, fun hwhole => ?_⟩, fun h => ?_⟩
    · exact htake.symm
    · rw [Burst.received_hearing] at hwhole
      exact absurd hwhole (Nat.ne_of_lt hmore)
    · exact Bool.noConfusion (h.symm.trans hdefragmenting)
  · have hwhole : b.index + 1 = b.fragments.length := by omega
    have hfrag : (b.frame b.index retry).ctrlMoreFrag = false := decide_eq_false hmore
    have hfull : o.fragments ++ [packet] = b.fragments := by
      rw [← htake, hwhole, List.take_length]
    unfold accumulateLastFragment
    rw [hfrag, if_neg Bool.false_ne_true, if_pos hdefragmenting, if_pos hwhole, hfull]
    simp only [Option.map_some, hunicast, Bool.not_false, if_true]
    refine ⟨_, rfl, ⟨fun _ => rfl, fun _ hlt => ?_, fun _ => rfl⟩, fun _ => rfl⟩
    rw [Burst.received_hearing] at hlt
    exact absurd hlt hmore

/-- A frame that was already received is sent again with the retry flag. -/
theorem OriginatorRxStatus.receive_again (htracks : b.Tracks o) (hheard : b.heard = true)
    (hretry : retry = true) : o.receive packet (b.frame b.index retry) = some (o, none) := by
  have hreceived : b.received = b.index + 1 := by
    unfold Burst.received
    rw [hheard]
    rfl
  have hlast := htracks.last_eq (by rw [hreceived]; exact Nat.succ_ne_zero _)
  rw [hreceived, Nat.add_sub_cancel] at hlast
  have hduplicate : o.isDuplicate (b.frame b.index retry) = true := by
    unfold isDuplicate
    rw [hretry, hlast]
    exact beq_self_eq_true _
  unfold receive
  rw [if_pos hduplicate]

/-! ## Runs -/

/-- `Receive` changes the status of the originator of the frame, and forwards in its name. -/
theorem MacRxMiddle.receive_spec {m m' : MacRxMiddle} {hdr : WifiMacHeader}
    (hreceive : m.receive packet hdr = some m') :
    ∃ o' aggregate,
      (m.originatorStatus hdr.originator).receive packet hdr = some (o', aggregate) ∧
      m'.originatorStatus hdr.originator = o' ∧
      m'.delivered hdr.originator = m.delivered hdr.originator ++ aggregate.toList ∧
      ∀ other ≠ hdr.originator, m'.originatorStatus other = m.originatorStatus other ∧
        m'.delivered other = m.delivered other := by
  unfold receive at hreceive
  split at hreceive
  case isFalse => cases hreceive
  case isTrue =>
    obtain ⟨⟨o', aggregate⟩, hstatus, rfl⟩ := Option.map_eq_some_iff.mp hreceive
    refine ⟨o', aggregate, hstatus, Function.update_self .., ?_, fun other hother =>
      ⟨Function.update_of_ne hother .., ?_⟩⟩
    · unfold delivered
      cases aggregate <;> simp
    · unfold delivered
      cases aggregate <;> simp [Ne.symm hother]

namespace Link

variable {originator : Originator} {l l' : Link} {event : FrameEvent}

/-- The receiver is in step with the originator. -/
structure InStep (originator : Originator) (l : Link) : Prop where
  delivers : l.Delivers originator
  empty : (l.middle.originatorStatus originator).defragmenting = false →
    (l.middle.originatorStatus originator).fragments = []
  burst : ∀ b ∈ l.burst, Sendable originator b.hdr b.fragments ∧ b.index < b.fragments.length ∧
    (b.heard → b.transmitted) ∧ b.Tracks (l.middle.originatorStatus originator)

theorem InStep.hear (h : l.InStep originator) (hb : b ∈ l.burst)
    (hpacket : b.fragments[b.index]? = some packet) (hflagged : b.Flagged retry)
    (hturn : l.InTurn originator (.transmit retry true)) (hhear : l.hear b packet retry = some l') :
    l'.InStep originator := by
  obtain ⟨hsendable, hlt, htransmitted, htracks⟩ := h.burst b hb
  obtain ⟨hsource, hgroup, -, -, hle⟩ := hsendable
  obtain ⟨m', hreceive, rfl⟩ := Option.map_eq_some_iff.mp hhear
  obtain ⟨o', aggregate, hstatus, ho', hdelivered, -⟩ := MacRxMiddle.receive_spec hreceive
  have hframe : (b.frame b.index retry).originator = originator := hsource
  rw [hframe] at hstatus ho' hdelivered
  -- What the status does with the frame, and what that says about the complete MSDUs.
  have hspec : aggregate.toList = (if !b.heard && b.index + 1 == b.fragments.length then
        [b.fragments.flatten] else []) ∧
      b.hearing.Tracks o' ∧ (o'.defragmenting = false → o'.fragments = []) := by
    cases hheard : b.heard with
    | true =>
        have hretry : retry = true := hflagged.1 (htransmitted hheard)
        rw [OriginatorRxStatus.receive_again htracks hheard hretry] at hstatus
        obtain ⟨rfl, rfl⟩ := Prod.mk.inj (Option.some.inj hstatus)
        have hsame : b.hearing.received = b.received := by
          unfold Burst.received
          rw [hheard]
          rfl
        refine ⟨rfl, ⟨?_, ?_, ?_⟩, h.empty⟩
        · rw [hsame]
          exact htracks.last_eq
        · rw [hsame]
          exact htracks.within
        · rw [hsame]
          exact htracks.whole
    | false =>
        have hnext : ∃ o₁, (l.middle.originatorStatus originator).receive packet
              (b.frame b.index retry) = some (o₁, if b.index + 1 = b.fragments.length then
                some b.fragments.flatten else none) ∧
            b.hearing.Tracks o₁ ∧ (o₁.defragmenting = false → o₁.fragments = []) := by
          by_cases hindex : b.index = 0
          · have hreceived : b.received = 0 := by
              unfold Burst.received
              rw [hheard, hindex]
              rfl
            obtain ⟨hidle, hnew⟩ := hturn b hb hreceived
            rw [hindex] at hpacket ⊢
            simpa only [Nat.zero_add, eq_comm] using OriginatorRxStatus.receive_first hpacket hgroup
              hidle (h.empty hidle) hindex hnew
          · exact OriginatorRxStatus.receive_next hpacket hgroup hle htracks hheard hindex
        obtain ⟨o₁, hstatus₁, htracks₁, hempty₁⟩ := hnext
        obtain ⟨rfl, rfl⟩ := Prod.mk.inj (Option.some.inj (hstatus₁.symm.trans hstatus))
        refine ⟨?_, htracks₁, hempty₁⟩
        by_cases hwhole : b.index + 1 = b.fragments.length
        · simp [hwhole]
        · simp [hwhole]
  obtain ⟨haggregate, htracks', hempty'⟩ := hspec
  refine ⟨?_, ?_, ?_⟩
  · unfold Delivers
    rw [hdelivered, haggregate]
    dsimp only
    rw [show l.middle.delivered originator = l.complete from h.delivers]
    split
    · rfl
    · exact List.append_nil _
  · rw [ho']
    exact hempty'
  · rintro b' hb'
    obtain rfl := Option.some.inj hb'
    rw [ho']
    exact ⟨h.burst b hb |>.1, hlt, fun _ => rfl, htracks'⟩

theorem InStep.step (h : l.InStep originator) (hstep : l.step originator event = some l')
    (hturn : l.InTurn originator event) : l'.InStep originator := by
  cases event with
  | begin hdr number fragments =>
      obtain ⟨⟨hsendable, -⟩, hstep⟩ := Option.ite_none_right_eq_some.mp hstep
      obtain rfl := Option.some.inj hstep
      have hne := hsendable.2.2.2.1
      refine ⟨h.delivers, h.empty, fun b hb => ?_⟩
      obtain rfl := Option.some.inj hb
      have hlt : 0 < fragments.length := List.length_pos_iff.mpr hne
      exact ⟨hsendable, hlt, fun hheard => hheard, fun hreceived => absurd rfl hreceived,
        fun hreceived => absurd rfl hreceived, fun hwhole => absurd hwhole (Nat.ne_of_lt hlt)⟩
  | transmit retry heard =>
      obtain ⟨b, hb, hstep⟩ := Option.bind_eq_some_iff.mp hstep
      obtain ⟨packet, hpacket, hstep⟩ := Option.bind_eq_some_iff.mp hstep
      obtain ⟨hflagged, hstep⟩ := Option.ite_none_right_eq_some.mp hstep
      cases heard with
      | true => exact h.hear hb hpacket hflagged hturn hstep
      | false =>
          obtain rfl := Option.some.inj hstep
          obtain ⟨hsendable, hlt, -, htracks⟩ := h.burst b hb
          refine ⟨h.delivers, h.empty, fun b' hb' => ?_⟩
          obtain rfl := Option.some.inj hb'
          exact ⟨hsendable, hlt, fun _ => rfl, htracks.last_eq, htracks.within, htracks.whole⟩
  | proceed =>
      obtain ⟨b, hb, hstep⟩ := Option.bind_eq_some_iff.mp hstep
      obtain ⟨⟨hheard, hlt⟩, hstep⟩ := Option.ite_none_right_eq_some.mp hstep
      obtain rfl := Option.some.inj hstep
      obtain ⟨hsendable, -, -, htracks⟩ := h.burst b hb
      -- The fragment was heard: what was received does not change when the next one is taken.
      have hreceived : b.received = b.index + 1 := by
        unfold Burst.received
        rw [hheard]
        rfl
      refine ⟨h.delivers, h.empty, fun b' hb' => ?_⟩
      obtain rfl := Option.some.inj hb'
      refine ⟨hsendable, hlt, fun h => h, ?_, ?_, ?_⟩
      · have hlast := htracks.last_eq
        rw [hreceived] at hlast
        exact hlast
      · have hwithin := htracks.within
        rw [hreceived] at hwithin
        exact hwithin
      · have hwhole := htracks.whole
        rw [hreceived] at hwhole
        exact hwhole
  | receive packet hdr =>
      obtain ⟨hother, hstep⟩ := Option.ite_none_right_eq_some.mp hstep
      obtain ⟨m', hreceive, rfl⟩ := Option.map_eq_some_iff.mp hstep
      obtain ⟨o', aggregate, -, -, -, hsame⟩ := MacRxMiddle.receive_spec hreceive
      obtain ⟨hstatus, hdelivered⟩ := hsame originator (Ne.symm hother)
      refine ⟨hdelivered.trans h.delivers, ?_, ?_⟩
      · rw [hstatus]
        exact h.empty
      · rw [hstatus]
        exact h.burst

/-- In a run whose MSDUs all arrive in turn, the receiver delivers every MSDU all of whose fragments
were received, once and in order, and nothing else. -/
theorem delivers_of_inTurn (events : List FrameEvent)
    (hturn : EachStep (step originator) (fun l event _ => l.InTurn originator event)
      start events) :
    Throughout (step originator) (Delivers originator) start events := by
  have hstart : start.InStep originator :=
    ⟨rfl, fun _ => rfl, fun b hb => by cases hb⟩
  refine (throughout_of_eachStep ?_ hstart hturn).mono fun l h => h.delivers
  intro l event l' h hstep hturn
  exact h.step hstep hturn

/-! ## An abandoned burst -/

def station : Mac48Address := ⟨#v[0, 0, 0, 0, 0, 1]⟩

/-- A management frame of the station. -/
def management : WifiMacHeader := ⟨0, 0, false, false, ⟨#v[0, 0, 0, 0, 0, 2]⟩, station, 0, 0, 0⟩

/-- The second fragment of an MSDU never arrives, and the station goes on to the next MSDU. -/
def abandoning : List FrameEvent :=
  [.begin management 0 [[1], [2]], .transmit false true, .begin management 1 [[3]],
    .transmit false true]

/-- A lost frame, a retry, a fragmented MSDU and an MSDU of which nothing arrives. -/
def retrying : List FrameEvent :=
  [.begin management 0 [[1], [2]], .transmit false false, .transmit true true,
    .transmit true true, .proceed, .transmit true true, .begin management 1 [[3], [4]],
    .transmit false false, .begin management 2 [[5]], .transmit false true]

theorem delivers_of_inTurn_retrying :
    Throughout (step (.source station)) (Delivers (.source station)) start retrying :=
  delivers_of_inTurn retrying (eachStep_of_take (by decide))

/-- The MSDU after an abandoned burst is not delivered. -/
theorem abandoning_blocks :
    ¬ Throughout (step (.source station)) (Delivers (.source station)) start
      abandoning := by
  intro h
  have hrun : (run (step (.source station)) start abandoning).isSome := by decide
  obtain ⟨l, hl⟩ := Option.isSome_iff_exists.mp hrun
  have hdelivers := h.last hl
  have hnot : (run (step (.source station)) start abandoning).all
      (fun l => ! decide (l.Delivers (.source station))) := by decide
  rw [hl] at hnot
  simp only [Option.all_some, hdelivers, decide_true] at hnot
  cases hnot

end Link

end Ns3Rdma.Wifi
