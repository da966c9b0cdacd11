import Ns3Rdma.Lib.StepSystem
import Ns3Rdma.Lte.InOrder
import Ns3Rdma.Lte.Opportunity

/-! # RLC UM over a perfect channel

The PDUs of a transmitter reach the receiver in order. -/

namespace Ns3Rdma.Lte

open StepSystem

/-- Two peers, the PDUs between them, the SDUs that were accepted into the buffer, and how many
bytes of them have arrived. -/
structure UmChannel where
  tx : UmTransmitter
  rx : UmReceiver
  inFlight : List (List UInt8)
  accepted : List (List UInt8)
  arrived : ℕ

inductive UmEvent where
  | transmitPdcpPdu (sdu : List UInt8)
  | txOpportunity (bytes : UInt32)
  | receive
deriving DecidableEq

namespace UmChannel

def new (tx : UmTransmitter) (rx : UmReceiver) : UmChannel := ⟨tx, rx, [], [], 0⟩

/-- The bytes of a data field. -/
def dataLength (pdu : List UInt8) : ℕ :=
  match LteRlcHeader.deserialize pdu with
  | some (_, payload) => payload.length
  | none => 0

variable (maxTxBufferSize : UInt32)

def execute (c : UmChannel) : UmEvent → Option UmChannel
  | .transmitPdcpPdu sdu => some { c with
      tx := c.tx.doTransmitPdcpPdu maxTxBufferSize sdu
      accepted := if c.tx.accepts maxTxBufferSize sdu then c.accepted ++ [sdu] else c.accepted }
  | .txOpportunity bytes => (c.tx.doNotifyTxOpportunity bytes).map fun (tx, pdu) =>
      { c with tx := tx, inFlight := c.inFlight ++ pdu.toList }
  | .receive =>
      match c.inFlight with
      | [] => some c
      | pdu :: inFlight => (c.rx.doReceivePdu pdu).map fun rx =>
          { c with rx := rx, inFlight := inFlight, arrived := c.arrived + dataLength pdu }

/-- SDUs are not empty, and their size is a number of 32 bits. -/
def Valid : UmEvent → Prop
  | .transmitPdcpPdu sdu => sdu ≠ [] ∧ sdu.length < 2 ^ 32
  | .txOpportunity _ => True
  | .receive => True

instance : DecidablePred Valid
  | .transmitPdcpPdu sdu => inferInstanceAs (Decidable (sdu ≠ [] ∧ sdu.length < 2 ^ 32))
  | .txOpportunity _ => inferInstanceAs (Decidable True)
  | .receive => inferInstanceAs (Decidable True)

/-- `none` stands for undefined behaviour, and it is left no more. -/
def step (s : Option UmChannel) (event : UmEvent) : Option (Option UmChannel) :=
  if Valid event then some (s.bind fun c => c.execute maxTxBufferSize event) else none

/-- The SDUs that end within the first bytes. -/
def completed : List (List UInt8) → ℕ → List (List UInt8)
  | [], _ => []
  | sdu :: rest, arrived =>
      if sdu.length ≤ arrived then sdu :: completed rest (arrived - sdu.length) else []

theorem completed_append (delivered others : List (List UInt8)) (n : ℕ) :
    completed (delivered ++ others) (delivered.flatten.length + n) =
      delivered ++ completed others n := by
  induction delivered with
  | nil => rw [List.nil_append, List.nil_append, List.flatten_nil, List.length_nil, Nat.zero_add]
  | cons sdu delivered ih =>
      rw [List.flatten_cons, List.length_append, List.cons_append, List.cons_append]
      rw [completed, if_pos (by omega), Nat.add_assoc, Nat.add_sub_cancel_left, ih]

/-- PDUs with the numbers from `x` up to `y`, and the segments that they carry. -/
inductive Flies : Fin 1024 → List (List UInt8) → Fin 1024 → List Segment → Prop
  | nil (x : Fin 1024) : Flies x [] x []
  | cons {x y : Fin 1024} {pdu : List UInt8} {pdus : List (List UInt8)} {whole : List Segment}
      {last : Segment} {segments : List Segment} (carries : Carries x pdu whole last)
      (rest : Flies (x + 1) pdus y segments) :
      Flies x (pdu :: pdus) y (whole ++ [last] ++ segments)

theorem Flies.snoc {x y : Fin 1024} {pdus : List (List UInt8)} {segments : List Segment}
    (h : Flies x pdus y segments) {pdu : List UInt8} {whole : List Segment} {last : Segment}
    (hcarries : Carries y pdu whole last) :
    Flies x (pdus ++ [pdu]) (y + 1) (segments ++ (whole ++ [last])) := by
  induction h with
  | nil x =>
      have h := Flies.cons hcarries (.nil (x + 1))
      rwa [List.append_nil] at h
  | cons carries rest ih =>
      rw [List.append_assoc]
      exact .cons carries (ih hcarries)

theorem Flies.nonempty {x y : Fin 1024} {pdus : List (List UInt8)} {segments : List Segment}
    (h : Flies x pdus y segments) : ∀ s ∈ segments, s.payload ≠ [] := by
  induction h with
  | nil x =>
      intro s hs
      cases hs
  | cons carries rest ih =>
      intro s hs
      rcases List.mem_append.mp hs with hs | hs
      · exact carries.nonempty s hs
      · exact ih s hs

/-- What is kept, what is in flight and what waits make up the SDUs that were not delivered. -/
structure Ready (c : UmChannel) (x : Fin 1024) (part : Option (List UInt8))
    (others : List (List UInt8)) (flying : List Segment) : Prop where
  inOrder : c.rx.InOrder x
  expected : c.rx.reassembler.expectedSeqNumber.value = x
  holds : c.rx.reassembler.Holds part
  sdusBuffer : c.rx.reassembler.sdusBuffer = []
  flies : Flies x c.inFlight c.tx.sequenceNumber.value flying
  assemble : assemble part (flying ++ c.tx.txBuffer) = some (others, none)
  accepted : c.accepted = c.rx.reassembler.delivered ++ others
  arrived : c.arrived = c.rx.reassembler.delivered.flatten.length + (part.getD []).length
  counts : c.tx.Counts

/-- No opportunity is crowded, and the counter of the bytes in the buffer does not overflow. -/
def InBounds (c : UmChannel) : UmEvent → Prop
  | .transmitPdcpPdu sdu => c.tx.accepts maxTxBufferSize sdu = true →
      c.tx.txBufferSize.toNat + sdu.length < 2 ^ 32
  | .txOpportunity bytes => ¬ c.tx.Crowded bytes
  | .receive => True

instance (c : UmChannel) : DecidablePred (c.InBounds maxTxBufferSize)
  | .transmitPdcpPdu sdu => inferInstanceAs (Decidable (c.tx.accepts maxTxBufferSize sdu = true →
      c.tx.txBufferSize.toNat + sdu.length < 2 ^ 32))
  | .txOpportunity bytes => inferInstanceAs (Decidable (¬ c.tx.Crowded bytes))
  | .receive => inferInstanceAs (Decidable True)

def start : UmChannel := ⟨.new, .new, [], [], 0⟩

theorem ready_start : start.Ready 0 none [] [] :=
  ⟨⟨rfl, rfl, rfl, rfl⟩, rfl, rfl, rfl, .nil 0, rfl, rfl, rfl,
    ⟨fun s hs => (by cases hs), fun s hs => (by cases hs)⟩, rfl⟩

variable {maxTxBufferSize} {c : UmChannel} {x : Fin 1024} {part : Option (List UInt8)}
  {others : List (List UInt8)} {flying : List Segment}

/-- An SDU waits behind the others. -/
theorem Ready.transmitPdcpPdu (h : c.Ready x part others flying) {sdu : List UInt8}
    (hvalid : sdu ≠ [] ∧ sdu.length < 2 ^ 32)
    (hbounds : c.InBounds maxTxBufferSize (.transmitPdcpPdu sdu)) :
    ∃ next others, c.execute maxTxBufferSize (.transmitPdcpPdu sdu) = some next ∧
      next.Ready x part others flying := by
  unfold execute UmTransmitter.doTransmitPdcpPdu
  dsimp only
  by_cases haccepts : c.tx.accepts maxTxBufferSize sdu = true
  · rw [if_pos haccepts, if_pos haccepts]
    have hlt := hbounds haccepts
    refine ⟨_, others ++ [sdu], rfl, h.inOrder, h.expected, h.holds, h.sdusBuffer, h.flies, ?_, ?_,
      h.arrived, ⟨fun s hs => ?_, fun s hs => ?_⟩, ?_⟩
    · change Lte.assemble part (flying ++ (c.tx.txBuffer ++ [⟨sdu, .FULL_SDU⟩])) = _
      rw [← List.append_assoc, assemble_append, h.assemble]
      rfl
    · change c.accepted ++ [sdu] = _
      rw [h.accepted, List.append_assoc]
    · change s ∈ c.tx.txBuffer ++ [(⟨sdu, .FULL_SDU⟩ : Segment)] at hs
      rcases List.mem_append.mp hs with hs | hs
      · exact h.counts.waiting.waiting s hs
      · obtain rfl := List.mem_singleton.mp hs
        exact ⟨Or.inl rfl, hvalid⟩
    · change s ∈ (c.tx.txBuffer ++ [(⟨sdu, .FULL_SDU⟩ : Segment)]).tail at hs
      cases hbuffer : c.tx.txBuffer with
      | nil =>
          rw [hbuffer] at hs
          cases hs
      | cons first rest =>
          rw [hbuffer, List.cons_append, List.tail_cons] at hs
          rcases List.mem_append.mp hs with hs | hs
          · refine h.counts.waiting.full s ?_
            rw [hbuffer]
            exact hs
          · obtain rfl := List.mem_singleton.mp hs
            rfl
    · change (c.tx.txBufferSize + .ofNat sdu.length).toNat =
        DataField.total (c.tx.txBuffer ++ [⟨sdu, .FULL_SDU⟩])
      rw [UInt32.toNat_add, UInt32.toNat_ofNat_of_lt' hvalid.2, Nat.mod_eq_of_lt hlt,
        h.counts.txBufferSize, DataField.total_append, DataField.total_cons]
      rfl
  · rw [if_neg haccepts, if_neg haccepts]
    exact ⟨c, others, rfl, h⟩

/-- An opportunity moves segments from the buffer into the channel. -/
theorem Ready.txOpportunity (h : c.Ready x part others flying) {bytes : UInt32}
    (hbounds : c.InBounds maxTxBufferSize (.txOpportunity bytes)) :
    (∃ next flying, c.execute maxTxBufferSize (.txOpportunity bytes) = some next ∧
      next.Ready x part others flying) ∧
        ∀ r ∈ c.tx.doNotifyTxOpportunity bytes, ∀ pdu ∈ r.2, pdu.length ≤ bytes.toNat := by
  have hassemble := h.assemble
  rw [assemble_append] at hassemble
  obtain ⟨⟨sdus, middle⟩, hflying, hrest⟩ := Option.bind_eq_some_iff.mp hassemble
  obtain ⟨⟨waiting, final⟩, hwaiting, -⟩ := Option.map_eq_some_iff.mp hrest
  unfold execute
  rcases UmTransmitter.doNotifyTxOpportunity_spec h.counts hbounds hwaiting with
    hnone | ⟨tx, pdu, whole, last, hsome, hcarries, hcounts, hnumber, hsame, hfits⟩
  · refine ⟨⟨c, flying, ?_, h⟩, ?_⟩
    · dsimp only
      rw [hnone]
      dsimp only [Option.map_some, Option.toList_none]
      rw [List.append_nil]
    · rintro r hr pdu hpdu
      rw [hnone] at hr
      obtain rfl := Option.some.inj hr
      cases hpdu
  · refine ⟨⟨{ c with tx := tx, inFlight := c.inFlight ++ [pdu] }, flying ++ (whole ++ [last]), ?_,
      h.inOrder, h.expected, h.holds, h.sdusBuffer, ?_, ?_, h.accepted, h.arrived, hcounts⟩, ?_⟩
    · dsimp only
      rw [hsome]
      rfl
    · rw [hnumber]
      exact h.flies.snoc hcarries
    · rw [← h.assemble, List.append_assoc, assemble_append, assemble_append]
      simp only [hsame]
    · rintro r hr pdu' hpdu
      rw [hsome] at hr
      obtain rfl := Option.some.inj hr
      obtain rfl := Option.some.inj hpdu
      exact hfits

/-- The next PDU arrives: the SDUs that it completes are delivered. -/
theorem Ready.receive (maxTxBufferSize : UInt32) (h : c.Ready x part others flying) :
    ∃ next x part others flying, c.execute maxTxBufferSize .receive = some next ∧
      next.Ready x part others flying := by
  obtain ⟨tx, rx, inFlight, accepted, arrived⟩ := c
  unfold execute
  dsimp only
  cases hflies : h.flies with
  | nil => exact ⟨_, _, part, others, _, rfl, h⟩
  | cons hcarries hrest =>
      rename_i pdu pdus whole last segments
      have hassemble := h.assemble
      rw [List.append_assoc, assemble_append] at hassemble
      obtain ⟨⟨sdus, part'⟩, hpdu, hbehind⟩ := Option.bind_eq_some_iff.mp hassemble
      obtain ⟨⟨others', final⟩, hothers, heq⟩ := Option.map_eq_some_iff.mp hbehind
      obtain ⟨rfl, rfl⟩ := Prod.mk.inj heq
      obtain ⟨r, hr, hholds, hempty, hdelivered, hexpected⟩ :=
        Reassembler.reassembleAndDeliver_spec hcarries h.holds h.sdusBuffer h.expected hpdu
      obtain ⟨framingInfo, -, hdeserialize, -⟩ := hcarries.deserialize
      obtain ⟨rx', hrx, hinOrder, rfl⟩ := UmReceiver.InOrder.receive h.inOrder hdeserialize hr
      have hlength := assemble_length hpdu
      refine ⟨⟨tx, rx', pdus, accepted, arrived + dataLength pdu⟩, x + 1, part', others', segments,
        ?_, hinOrder, hexpected, hholds, hempty, hrest, hothers, ?_, ?_, h.counts⟩
      · change (rx.doReceivePdu pdu).map _ = _
        rw [show rx.doReceivePdu pdu = some rx' from hrx]
        rfl
      · have haccepted : accepted = _ := h.accepted
        dsimp only
        rw [haccepted, hdelivered, List.append_assoc]
      · have harrived : arrived = _ := h.arrived
        have hdata : dataLength pdu =
            ((whole ++ [last]).flatMap Segment.payload).length := by
          unfold dataLength
          rw [hdeserialize]
          rfl
        dsimp only
        rw [harrived, hdata, hdelivered, List.flatten_append, List.length_append]
        omega

/-- What was delivered are the SDUs whose last byte has arrived. -/
theorem Ready.delivered (h : c.Ready x part others flying) :
    c.rx.reassembler.delivered = completed c.accepted c.arrived := by
  rw [h.accepted, h.arrived, completed_append]
  have hnone : completed others (part.getD []).length = [] := by
    cases hothers : others with
    | nil => rfl
    | cons sdu rest =>
        have hassemble := h.assemble
        rw [hothers] at hassemble
        have hlong := length_lt_of_assemble (fun s hs => by
          rcases List.mem_append.mp hs with hs | hs
          · exact h.flies.nonempty s hs
          · exact (h.counts.waiting.waiting s hs).2.1) hassemble
        rw [completed, if_neg (Nat.not_le.mpr hlong)]
  rw [hnone, List.append_nil]

/-- The SDUs whose last byte has arrived are delivered, and all of them when nothing is left; the
counter of the bytes in the buffer is right. -/
structure Exact (c : UmChannel) : Prop where
  delivered : c.rx.reassembler.delivered = completed c.accepted c.arrived
  all : c.inFlight = [] → c.tx.txBuffer = [] → c.rx.reassembler.delivered = c.accepted
  txBufferSize : c.tx.txBufferSize.toNat = DataField.total c.tx.txBuffer

theorem Ready.exact (h : c.Ready x part others flying) : c.Exact := by
  refine ⟨h.delivered, fun hflight hbuffer => ?_, h.counts.txBufferSize⟩
  have hflies := h.flies
  rw [hflight] at hflies
  cases hflies
  have hassemble := h.assemble
  rw [hbuffer] at hassemble
  obtain ⟨rfl, -⟩ := Prod.mk.inj (Option.some.inj hassemble)
  rw [h.accepted, List.append_nil]

/-- A state of a run: the behaviour is defined, and nothing is lost. -/
def Lossless (s : Option UmChannel) : Prop := ∃ c, s = some c ∧ c.Exact

/-- A PDU and its header fit into the opportunity. -/
def Fits (s : Option UmChannel) (event : UmEvent) (_ : Option UmChannel) : Prop :=
  ∀ c ∈ s, ∀ bytes, event = .txOpportunity bytes →
    ∀ r ∈ c.tx.doNotifyTxOpportunity bytes, ∀ pdu ∈ r.2, pdu.length ≤ bytes.toNat

/-- The condition on a step. -/
def Bounded (maxTxBufferSize : UInt32) (s : Option UmChannel) (event : UmEvent)
    (_ : Option UmChannel) : Prop :=
  ∀ c ∈ s, c.InBounds maxTxBufferSize event

/-- Nothing is lost over a perfect channel as long as the numbers do not overflow. -/
theorem lossless_of_bounded (maxTxBufferSize : UInt32) (events : List UmEvent)
    (hbounded : EachStep (step maxTxBufferSize) (Bounded maxTxBufferSize) (some start)
      events) :
    Throughout (step maxTxBufferSize) Lossless (some start) events ∧
      EachStep (step maxTxBufferSize) Fits (some start) events := by
  -- One step from a state that is ready leads to such a state, and its PDU fits.
  have hspec : ∀ (s : Option UmChannel) event next,
      (∃ c x part others flying, s = some c ∧ c.Ready x part others flying) →
        step maxTxBufferSize s event = some next → Bounded maxTxBufferSize s event next →
          (∃ c x part others flying, next = some c ∧ c.Ready x part others flying) ∧
            Fits s event next := by
    rintro s event next ⟨c, x, part, others, flying, rfl, hready⟩ hstep hbounded
    obtain ⟨hvalid, hstep⟩ := Option.ite_none_right_eq_some.mp hstep
    obtain rfl := Option.some.inj hstep
    have hbounds := hbounded c rfl
    cases event with
    | transmitPdcpPdu sdu =>
        obtain ⟨next, others, hnext, hready'⟩ := hready.transmitPdcpPdu hvalid hbounds
        refine ⟨⟨next, x, part, others, flying, hnext, hready'⟩, ?_⟩
        rintro c' - bytes ⟨⟩
    | txOpportunity bytes =>
        obtain ⟨⟨next, flying, hnext, hready'⟩, hfits⟩ := hready.txOpportunity hbounds
        refine ⟨⟨next, x, part, others, flying, hnext, hready'⟩, ?_⟩
        rintro c' hc' bytes' hbytes
        obtain rfl := Option.some.inj hc'
        obtain rfl := UmEvent.txOpportunity.inj hbytes
        exact hfits
    | receive =>
        obtain ⟨next, x, part, others, flying, hnext, hready'⟩ :=
          hready.receive maxTxBufferSize
        refine ⟨⟨next, x, part, others, flying, hnext, hready'⟩, ?_⟩
        rintro c' - bytes ⟨⟩
  have hready : Throughout (step maxTxBufferSize)
      (fun s => ∃ c x part others flying, s = some c ∧ c.Ready x part others flying)
      (some start) events :=
    throughout_of_eachStep
      (fun s event next hs hstep hcond => (hspec s event next hs hstep hcond).1)
      ⟨start, 0, none, [], [], rfl, ready_start⟩ hbounded
  refine ⟨hready.mono ?_, ?_⟩
  · rintro s ⟨c, x, part, others, flying, rfl, h⟩
    exact ⟨c, rfl, h.exact⟩
  · intro done event rest s next heq hrun hstep
    exact (hspec s event next (hready done (event :: rest) s heq hrun) hstep
      (hbounded done event rest s next heq hrun hstep)).2

/-- Two SDUs are sent in three PDUs. -/
def sending : List UmEvent :=
  [.transmitPdcpPdu [1, 2, 3, 4], .transmitPdcpPdu [5, 6], .txOpportunity 5, .txOpportunity 4,
    .receive, .txOpportunity 2, .txOpportunity 20, .receive, .receive]

instance (maxTxBufferSize : UInt32) (s : Option UmChannel) (event : UmEvent)
    (next : Option UmChannel) : Decidable (Bounded maxTxBufferSize s event next) :=
  inferInstanceAs (Decidable (∀ c ∈ s, c.InBounds maxTxBufferSize event))

theorem lossless_of_bounded_sending :
    Throughout (step 10240) Lossless (some start) sending ∧
      EachStep (step 10240) Fits (some start) sending :=
  lossless_of_bounded 10240 sending (eachStep_of_take (by decide +kernel))

/-! ## An opportunity for too many SDUs -/

/-- One-byte SDUs, and an opportunity that all of them fit into. -/
def crowding : List UmEvent :=
  List.replicate 43690 (.transmitPdcpPdu [0]) ++ [.txOpportunity 109226]

/-- The transmitter with `n` of the SDUs. -/
def filled (n : ℕ) : UmTransmitter :=
  ⟨List.replicate n ⟨[0], .FULL_SDU⟩, .ofNat n, .ofUInt16 0⟩

theorem total_replicate (n : ℕ) :
    DataField.total (List.replicate n ⟨[0], .FULL_SDU⟩) = n := by
  unfold DataField.total DataField.payload
  rw [List.length_flatMap, List.map_replicate, List.sum_replicate_nat]
  exact Nat.mul_one n

theorem counts_filled {n : ℕ} (hn : n < 2 ^ 32) : (filled n).Counts := by
  refine ⟨⟨fun s hs => ?_, fun s hs => ?_⟩, ?_⟩
  · rw [List.eq_of_mem_replicate hs]
    exact ⟨Or.inl rfl, by decide, by decide⟩
  · rw [List.eq_of_mem_replicate (List.mem_of_mem_tail hs)]
  · change (UInt32.ofNat n).toNat = DataField.total (List.replicate n _)
    rw [UInt32.toNat_ofNat_of_lt' hn, total_replicate]

theorem crowded_filled {n : ℕ} {bytes : UInt32} (hn : 43689 < n)
    (hbytes : 43689 + 65536 < bytes.toNat) : (filled n).Crowded bytes := by
  unfold UmTransmitter.Crowded filled
  dsimp only
  rw [List.length_replicate, List.take_replicate, Nat.min_eq_left (Nat.le_of_lt hn),
    total_replicate]
  refine ⟨hn, fun s hs => ?_, hbytes⟩
  rw [List.eq_of_mem_replicate hs]
  decide

theorem step_transmitPdcpPdu {n : ℕ} (hn : n < 65536) (accepted : List (List UInt8)) :
    step 65536 (some ⟨filled n, .new, [], accepted, 0⟩) (.transmitPdcpPdu [0]) =
      some (some ⟨filled (n + 1), .new, [], accepted ++ [[0]], 0⟩) := by
  have haccepts : (filled n).accepts 65536 [0] = true := by
    change decide (UInt32.ofNat n + UInt32.ofNat 1 ≤ 65536) = true
    rw [decide_eq_true_iff, ← UInt32.ofNat_add, UInt32.le_iff_toNat_le,
      UInt32.toNat_ofNat_of_lt' (Nat.lt_of_le_of_lt hn (by decide))]
    exact hn
  unfold step execute UmTransmitter.doTransmitPdcpPdu
  rw [if_pos (by decide), Option.bind_some]
  dsimp only
  rw [if_pos haccepts, if_pos haccepts]
  unfold filled
  rw [List.replicate_succ', UInt32.ofNat_add]
  rfl

theorem run_transmitPdcpPdu (n k : ℕ) (hn : n + k ≤ 65536) (accepted : List (List UInt8)) :
    ∃ accepted', run (step 65536) (some ⟨filled n, .new, [], accepted, 0⟩)
      (List.replicate k (.transmitPdcpPdu [0])) =
        some (some ⟨filled (n + k), .new, [], accepted', 0⟩) := by
  induction k generalizing n accepted with
  | zero => exact ⟨accepted, rfl⟩
  | succ k ih =>
      obtain ⟨accepted', hrun⟩ := ih (n + 1) (by omega) (accepted ++ [[0]])
      refine ⟨accepted', ?_⟩
      rw [List.replicate_succ, run_cons_of_step _ (step_transmitPdcpPdu (by omega) _),
        hrun, Nat.add_assoc, Nat.add_comm 1 k]

/-- The header of the PDU has more bytes than a number of sixteen bits can say. -/
theorem crowding_not_lossless :
    ¬ Throughout (step 65536) Lossless (some start) crowding := by
  intro h
  obtain ⟨accepted, hrun⟩ := run_transmitPdcpPdu 0 43690 (by decide) []
  rw [Nat.zero_add] at hrun
  have hnone : (filled 43690).doNotifyTxOpportunity 109226 = none :=
    UmTransmitter.doNotifyTxOpportunity_crowded (counts_filled (by decide))
      (crowded_filled (by decide) (by decide))
  have hstep : step 65536 (some ⟨filled 43690, .new, [], accepted, 0⟩)
      (.txOpportunity 109226) = some none := by
    unfold step execute
    rw [if_pos (by decide), Option.bind_some]
    dsimp only
    rw [hnone, Option.map_none]
  have hlast : run (step 65536) (some start) crowding = some none := by
    unfold crowding
    rw [run_append, show start = ⟨filled 0, .new, [], [], 0⟩ from rfl, hrun,
      Option.bind_some, run_cons_of_step _ hstep, run_nil]
  obtain ⟨c, hc, -⟩ := h.last hlast
  cases hc

end UmChannel

end Ns3Rdma.Lte
