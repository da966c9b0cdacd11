import Ns3Rdma.Nic.Delivery

/-! # Congestion notifications

The receiver of a flow ORs the ECN codepoints of the packets that it counts, and `CheckandSendQCN`
compares the result with CE. Beside the counters of the code, the packets that have arrived since
they were last reset are kept here. -/

namespace Ns3Rdma

open StepSystem

namespace Ecn

def ect1 : UInt8 := 1
def ect0 : UInt8 := 2
def ce : UInt8 := 3

end Ecn

/-- The receiver, the frames that the last event enqueued, and the packets of each flow since its
counters were last reset, oldest first. -/
structure Notifier where
  rx : Receiver
  sent : List Feedback
  arrived : FlowKey → List Arrival

/-- A UDP packet arrives, or the QCN interval of a flow is over. -/
inductive NotifyEvent where
  | arrive (a : Arrival)
  | interval (k : FlowKey)

namespace Notifier

variable (c : RxConfig)

def start : Notifier where
  rx := .start
  sent := []
  arrived := fun _ => []

/-- `CheckandSendQCN` resets the counters of a new flow at once. -/
def record (s : Notifier) (a : Arrival) : FlowKey → List Arrival :=
  if a.corrupt then s.arrived
  else
    Function.update s.arrived (Receiver.key a.packet)
      (if (s.rx.flows (Receiver.key a.packet)).isNone then []
      else s.arrived (Receiver.key a.packet) ++ [a])

def step (s : Notifier) : NotifyEvent → Option Notifier
  | .arrive a => (s.rx.receive c a).map fun result =>
      { rx := result.1
        sent := result.2
        arrived := s.record a }
  | .interval k => (s.rx.flows k).map fun f =>
      { rx := { s.rx with
          flows := Function.update s.rx.flows k (some (f.checkandSendQCN c k).1) }
        sent := (f.checkandSendQCN c k).2
        arrived := Function.update s.arrived k [] }

/-- The flow for which the event calls `CheckandSendQCN`, and its packets since the last call. -/
def window (s : Notifier) : NotifyEvent → Option (FlowKey × List Arrival)
  | .arrive a =>
      if !a.corrupt && (s.rx.flows (Receiver.key a.packet)).isNone then
        some (Receiver.key a.packet, [a])
      else none
  | .interval k => some (k, s.arrived k)

def Notifies (s : Notifier) (k : FlowKey) : Prop :=
  ∃ cn, .cnp cn ∈ s.sent ∧ cn.flow = k.port ∧ cn.qIndex = k.qIndex

/-- `CheckandSendQCN` notifies the sender if and only if a packet marked CE has arrived, with a
nonzero `qfb`. Nothing else sends notifications. -/
def NotifiesCongestion (s : Notifier) (event : NotifyEvent) (next : Notifier) : Prop :=
  (∀ k packets, s.window event = some (k, packets) →
    (next.Notifies k ↔ ∃ a ∈ packets, a.packet.ecn = Ecn.ce)) ∧
  ∀ cn, .cnp cn ∈ next.sent → s.window event ≠ none ∧ cn.qfb ≠ 0

/-! ## What the counters can tell -/

/-- Packets that carry a codepoint are counted from the first microsecond on. -/
def counted (a : Arrival) : Bool := a.packet.ecn != 0 && decide (0 < a.now / 1000)

/-- The codepoints of the counted packets. -/
def codepoints (packets : List Arrival) : List UInt8 :=
  (packets.filter counted).map fun a => a.packet.ecn

/-- The counted codepoints have the bits of CE. -/
def LooksCongested (packets : List Arrival) : Prop :=
  Ecn.ce ∈ codepoints packets ∨ (Ecn.ect1 ∈ codepoints packets ∧ Ecn.ect0 ∈ codepoints packets)

/-- Both ECT codepoints together look like CE, a CE packet of the first microsecond is not
counted, and `qfb` has 16 bits. None of this happens in a clear window. -/
structure ClearWindow (packets : List Arrival) : Prop where
  unmixed : Ecn.ect1 ∈ codepoints packets → Ecn.ect0 ∈ codepoints packets →
    ∃ a ∈ packets, a.packet.ecn = Ecn.ce
  seen : (∃ a ∈ packets, a.packet.ecn = Ecn.ce) → LooksCongested packets
  fits : LooksCongested packets → (codepoints packets).length % 2 ^ 16 ≠ 0

/-- The first packet of a flow meets an indeterminate value, and is not counted in class 1. -/
def ClearFirst (a : Arrival) : Prop :=
  if a.packet.ecn = Ecn.ce then counted a = true ∧ a.packet.pg ≠ 1 ∧ a.indeterminate ≤ 3
  else counted a = true → a.packet.pg ≠ 1 → a.indeterminate ||| a.packet.ecn ≠ Ecn.ce

/-- The condition for an event, on the packets that it looks back on. -/
def Clear (s : Notifier) : NotifyEvent → Prop
  | .arrive a => a.corrupt = false → s.rx.flows (Receiver.key a.packet) = none → ClearFirst a
  | .interval k => ClearWindow (s.arrived k)

/-- The packets of the event have one of the four codepoints. -/
def Codepoint : NotifyEvent → Prop
  | .arrive a => a.packet.ecn ≤ Ecn.ce
  | .interval _ => True

end Notifier

/-! ## The accumulated bits -/

theorem ecn_cases {b : UInt8} (h : b ≤ 3) : b = 0 ∨ b = 1 ∨ b = 2 ∨ b = 3 := by
  have hb : b.toNat ≤ 3 := UInt8.le_iff_toNat_le.mp h
  simp only [← UInt8.toNat_inj]
  change b.toNat = 0 ∨ b.toNat = 1 ∨ b.toNat = 2 ∨ b.toNat = 3
  omega

theorem foldl_or_eq_three {marks : List UInt8} (hmarks : ∀ m ∈ marks, m ≤ 3) {b : UInt8}
    (hb : b ≤ 3) :
    marks.foldl (· ||| ·) b = 3 ↔
      (b = 3 ∨ 3 ∈ marks) ∨ ((b = 1 ∨ 1 ∈ marks) ∧ (b = 2 ∨ 2 ∈ marks)) := by
  induction marks generalizing b with
  | nil =>
      rcases ecn_cases hb with rfl | rfl | rfl | rfl <;> simp
  | cons m rest ih =>
      have hm := ecn_cases (hmarks m List.mem_cons_self)
      have hrest := fun x hx => hmarks x (List.mem_cons_of_mem m hx)
      have hor : (1 ||| 2 : UInt8) = 3 ∧ (2 ||| 1 : UInt8) = 3 ∧ (1 ||| 3 : UInt8) = 3 ∧
        (3 ||| 1 : UInt8) = 3 ∧ (2 ||| 3 : UInt8) = 3 ∧ (3 ||| 2 : UInt8) = 3 := by decide
      rw [List.foldl_cons]
      rcases ecn_cases hb with rfl | rfl | rfl | rfl <;> rcases hm with rfl | rfl | rfl | rfl
      all_goals
        rw [ih hrest (by decide)]
        simp [hor]

theorem or_three_eq_three_iff {b : UInt8} : b ||| 3 = 3 ↔ b ≤ 3 := by
  constructor
  · intro h
    have hle : b.toNat ≤ (b ||| 3).toNat := by
      rw [UInt8.toNat_or]
      exact Nat.left_le_or
    rw [h] at hle
    exact UInt8.le_iff_toNat_le.mpr hle
  · intro h
    rcases ecn_cases h with rfl | rfl | rfl | rfl <;> rfl

/-! ## The counters -/

namespace RxFlow

variable {c : RxConfig} {f : RxFlow}

/-- The sequence check does not touch the ECN counters. -/
theorem receiverCheckSeq_counters {seq : UInt32} {now : Nat} {checked : SeqCheck × RxFlow}
    (h : f.receiverCheckSeq c seq now = some checked) :
    checked.2.ecnbits = f.ecnbits ∧ checked.2.qfb = f.qfb := by
  unfold receiverCheckSeq at h
  dsimp only at h
  split at h
  · split at h
    · cases h
      exact ⟨rfl, rfl⟩
    · split at h
      · cases h
      · split at h <;> cases h <;> exact ⟨rfl, rfl⟩
  · split at h
    · split at h
      · split at h
        · split at h
          · cases h
          · cases h
            exact ⟨rfl, rfl⟩
        · cases h
          exact ⟨rfl, rfl⟩
      · cases h
        exact ⟨rfl, rfl⟩
    · cases h
      exact ⟨rfl, rfl⟩

/-- An answer is no notification. -/
theorem answer_ne_cnp (f : RxFlow) (key : FlowKey) (check : SeqCheck) (cn : CnHeader) :
    .cnp cn ∉ f.answer key check := by
  cases check <;> simp [answer]

theorem checkandSendQCN_eq (hqcn : c.qcnEnabled = true) (f : RxFlow) (key : FlowKey) :
    f.checkandSendQCN c key = ({ f with ecnbits := 0, qfb := 0, total := 0 },
      if f.ecnbits = 3 then [.cnp ⟨key.port, key.qIndex, f.ecnbits, f.qfb, f.total⟩] else []) := by
  unfold checkandSendQCN
  rw [hqcn]
  rfl

end RxFlow

namespace Notifier

variable {c : RxConfig} {s next : Notifier} {event : NotifyEvent}

/-- The counters of a flow describe the packets that have arrived since they were reset. -/
def Counts (s : Notifier) : Prop :=
  ∀ k f, s.rx.flows k = some f →
    f.ecnbits = (codepoints (s.arrived k)).foldl (· ||| ·) 0 ∧
      f.qfb = UInt16.ofNat (codepoints (s.arrived k)).length ∧
        ∀ a ∈ s.arrived k, a.packet.ecn ≤ Ecn.ce

theorem start_counts : start.Counts := by
  intro k f h
  cases h

theorem codepoints_append (packets : List Arrival) (a : Arrival) :
    codepoints (packets ++ [a]) =
      codepoints packets ++ if counted a then [a.packet.ecn] else [] := by
  unfold codepoints
  rw [List.filter_append, List.map_append]
  by_cases h : counted a = true
  · rw [if_pos h, List.filter_singleton, h]
    rfl
  · rw [if_neg h, List.filter_singleton, Bool.eq_false_of_not_eq_true h]
    rfl

theorem codepoints_le {packets : List Arrival} (h : ∀ a ∈ packets, a.packet.ecn ≤ Ecn.ce) :
    ∀ m ∈ codepoints packets, m ≤ 3 := by
  intro m hm
  obtain ⟨a, ha, rfl⟩ := List.mem_map.mp hm
  exact h a (List.mem_filter.mp ha).1

/-- A further packet is counted as the codepoints say. -/
theorem countEcn_counts {f : RxFlow} {packets : List Arrival} (a : Arrival)
    (hbits : f.ecnbits = (codepoints packets).foldl (· ||| ·) 0)
    (hqfb : f.qfb = UInt16.ofNat (codepoints packets).length) :
    (f.countEcn a.packet.ecn a.now).ecnbits =
        (codepoints (packets ++ [a])).foldl (· ||| ·) 0 ∧
      (f.countEcn a.packet.ecn a.now).qfb =
        UInt16.ofNat (codepoints (packets ++ [a])).length := by
  have hcounted : counted a = true ↔ a.packet.ecn ≠ 0 ∧ a.now / 1000 > 0 := by
    simp [counted]
  rw [codepoints_append]
  unfold RxFlow.countEcn
  by_cases h : counted a = true
  · rw [if_pos (hcounted.mp h), if_pos h, List.foldl_append, List.length_append,
      UInt16.ofNat_add, ← hbits, ← hqfb]
    exact ⟨rfl, rfl⟩
  · rw [if_neg fun hc => h (hcounted.mpr hc), if_neg h, List.append_nil, ← hbits, ← hqfb]
    exact ⟨rfl, rfl⟩

/-! ## One event -/

/-- A packet of a known flow is counted, and no notification is sent. -/
theorem receive_known {a : Arrival} {f : RxFlow} (hcorrupt : a.corrupt = false)
    (hflow : s.rx.flows (Receiver.key a.packet) = some f) {result : Receiver × List Feedback}
    (h : s.rx.receive c a = some result) :
    (∃ f', result.1.flows = Function.update s.rx.flows (Receiver.key a.packet) (some f') ∧
      f'.ecnbits = (f.countEcn a.packet.ecn a.now).ecnbits ∧
        f'.qfb = (f.countEcn a.packet.ecn a.now).qfb) ∧
    ∀ cn, .cnp cn ∉ result.2 := by
  unfold Receiver.receive at h
  rw [if_neg (by rw [hcorrupt]; decide), Receiver.lookup, hflow, Option.bind_some,
    Option.map_eq_some_iff] at h
  obtain ⟨checked, hcheck, rfl⟩ := h
  obtain ⟨hbits, hqfb⟩ := RxFlow.receiverCheckSeq_counters hcheck
  constructor
  · refine ⟨checked.2, ?_, hbits, hqfb⟩
    unfold Receiver.pointToPointReceive
    split <;> rfl
  · intro cn hmem
    exact RxFlow.answer_ne_cnp _ _ _ cn ((List.mem_append.mp hmem).resolve_left (by simp))

/-- The first packet of a flow: its counters are looked at, then they restart. -/
theorem receive_new (hqcn : c.qcnEnabled = true) {a : Arrival} (hcorrupt : a.corrupt = false)
    (hflow : s.rx.flows (Receiver.key a.packet) = none) {result : Receiver × List Feedback}
    (h : s.rx.receive c a = some result) :
    (∃ f', result.1.flows = Function.update s.rx.flows (Receiver.key a.packet) (some f') ∧
      f'.ecnbits = 0 ∧ f'.qfb = 0) ∧
    ∀ cn, .cnp cn ∈ result.2 ↔
      .cnp cn ∈ ((RxFlow.new c a.indeterminate a.packet.ecn a.packet.pg a.now).checkandSendQCN c
        (Receiver.key a.packet)).2 := by
  unfold Receiver.receive at h
  rw [if_neg (by rw [hcorrupt]; decide), Receiver.lookup, hflow] at h
  dsimp only at h
  split at h
  · rw [Option.bind_some, Option.map_eq_some_iff] at h
    obtain ⟨checked, hcheck, rfl⟩ := h
    obtain ⟨hbits, hqfb⟩ := RxFlow.receiverCheckSeq_counters hcheck
    constructor
    · refine ⟨checked.2, ?_, ?_, ?_⟩
      · unfold Receiver.pointToPointReceive
        split <;> rfl
      · rw [hbits, RxFlow.checkandSendQCN_eq hqcn]
      · rw [hqfb, RxFlow.checkandSendQCN_eq hqcn]
    · intro cn
      rw [List.mem_append]
      exact or_iff_left (RxFlow.answer_ne_cnp _ _ _ cn)
  · cases h

/-- The counters are right after every event. -/
theorem Counts.step (h : s.Counts) (hqcn : c.qcnEnabled = true) (hcodepoint : Codepoint event)
    (hstep : s.step c event = some next) : next.Counts := by
  cases event with
  | arrive a =>
      obtain ⟨result, hreceive, rfl⟩ := Option.map_eq_some_iff.mp hstep
      intro k f hf
      dsimp only at hf ⊢
      by_cases hcorrupt : a.corrupt = true
      · rw [Receiver.receive, if_pos hcorrupt] at hreceive
        obtain rfl := Option.some.inj hreceive
        rw [record, if_pos hcorrupt]
        exact h k f hf
      · rw [Bool.not_eq_true] at hcorrupt
        rw [record, if_neg (by rw [hcorrupt]; decide)]
        cases hflow : s.rx.flows (Receiver.key a.packet) with
        | none =>
            obtain ⟨⟨f', hflows, hbits, hqfb⟩, -⟩ := receive_new hqcn hcorrupt hflow hreceive
            rw [hflows] at hf
            by_cases hk : k = Receiver.key a.packet
            · rw [hk, Function.update_self] at hf ⊢
              obtain rfl := Option.some.inj hf
              exact ⟨hbits, hqfb, fun _ hmem => nomatch hmem⟩
            · rw [Function.update_of_ne hk] at hf ⊢
              exact h k f hf
        | some f₀ =>
            obtain ⟨⟨f', hflows, hbits, hqfb⟩, -⟩ := receive_known hcorrupt hflow hreceive
            rw [hflows] at hf
            by_cases hk : k = Receiver.key a.packet
            · rw [hk, Function.update_self] at hf ⊢
              obtain rfl := Option.some.inj hf
              obtain ⟨hb, hq, hle⟩ := h _ f₀ hflow
              have hcount := countEcn_counts a hb hq
              refine ⟨hbits.trans hcount.1, hqfb.trans hcount.2, fun x hx => ?_⟩
              rcases List.mem_append.mp hx with hx | hx
              · exact hle x hx
              · rw [List.mem_singleton.mp hx]
                exact hcodepoint
            · rw [Function.update_of_ne hk] at hf ⊢
              exact h k f hf
  | interval k =>
      obtain ⟨f₀, hflow, rfl⟩ := Option.map_eq_some_iff.mp hstep
      intro k' f hf
      dsimp only at hf ⊢
      by_cases hk : k' = k
      · rw [hk, Function.update_self] at hf ⊢
        obtain rfl := Option.some.inj hf
        rw [RxFlow.checkandSendQCN_eq hqcn]
        exact ⟨rfl, rfl, fun _ hmem => nomatch hmem⟩
      · rw [Function.update_of_ne hk] at hf ⊢
        exact h k' f hf

/-- A call notifies if the bits are those of CE, and sends the number of marks. -/
theorem mem_checkandSendQCN (hqcn : c.qcnEnabled = true) (f : RxFlow) (k : FlowKey)
    (cn : CnHeader) : .cnp cn ∈ (f.checkandSendQCN c k).2 ↔
      f.ecnbits = 3 ∧ cn = ⟨k.port, k.qIndex, f.ecnbits, f.qfb, f.total⟩ := by
  rw [RxFlow.checkandSendQCN_eq hqcn]
  dsimp only
  split
  next hbits => simp [hbits]
  next hbits => simp [hbits]

/-! ## What a call of `CheckandSendQCN` reports -/

theorem looksCongested_iff {packets : List Arrival}
    (h : ∀ a ∈ packets, a.packet.ecn ≤ Ecn.ce) :
    (codepoints packets).foldl (· ||| ·) 0 = 3 ↔ LooksCongested packets := by
  rw [foldl_or_eq_three (codepoints_le h) (by decide)]
  unfold LooksCongested Ecn.ce Ecn.ect1 Ecn.ect0
  simp

theorem clearWindow_iff (packets : List Arrival) :
    ClearWindow packets ↔
      (LooksCongested packets ↔ ∃ a ∈ packets, a.packet.ecn = Ecn.ce) ∧
        (LooksCongested packets → (codepoints packets).length % 2 ^ 16 ≠ 0) := by
  constructor
  · rintro ⟨unmixed, seen, fits⟩
    refine ⟨⟨?_, seen⟩, fits⟩
    rintro (hce | ⟨hone, htwo⟩)
    · obtain ⟨a, ha, heq⟩ := List.mem_map.mp hce
      exact ⟨a, (List.mem_filter.mp ha).1, heq⟩
    · exact unmixed hone htwo
  · rintro ⟨hiff, fits⟩
    exact ⟨fun hone htwo => hiff.mp (Or.inr ⟨hone, htwo⟩), hiff.mpr, fits⟩

theorem qfb_ne_zero_iff {f : RxFlow} {n : ℕ} (h : f.qfb = UInt16.ofNat n) :
    f.qfb ≠ 0 ↔ n % 2 ^ 16 ≠ 0 := by
  rw [h, ne_eq, ← UInt16.toNat_inj, UInt16.toNat_ofNat']
  rfl

/-- The call for a flow is right if its bits are those of CE exactly when a CE packet has arrived,
and its `qfb` is not 0 then. -/
theorem notifiesCongestion_iff {f : RxFlow} {k : FlowKey} {packets : List Arrival}
    (hwindow : s.window event = some (k, packets))
    (hsent : ∀ cn, .cnp cn ∈ next.sent ↔
      f.ecnbits = 3 ∧ cn = ⟨k.port, k.qIndex, f.ecnbits, f.qfb, f.total⟩) :
    s.NotifiesCongestion event next ↔
      (f.ecnbits = 3 ↔ ∃ a ∈ packets, a.packet.ecn = Ecn.ce) ∧ (f.ecnbits = 3 → f.qfb ≠ 0) := by
  have hnotifies : next.Notifies k ↔ f.ecnbits = 3 := by
    unfold Notifies
    simp only [hsent]
    constructor
    · rintro ⟨cn, ⟨hthree, -⟩, -⟩
      exact hthree
    · intro hthree
      exact ⟨_, ⟨hthree, rfl⟩, rfl, rfl⟩
  unfold NotifiesCongestion
  rw [hwindow]
  constructor
  · rintro ⟨hiff, hfits⟩
    refine ⟨?_, fun hthree => (hfits _ ((hsent _).mpr ⟨hthree, rfl⟩)).2⟩
    rw [← hnotifies]
    exact hiff k packets rfl
  · rintro ⟨hiff, hfits⟩
    constructor
    · intro k' packets' heq
      obtain ⟨rfl, rfl⟩ := Prod.mk.inj (Option.some.inj heq)
      rw [hnotifies, hiff]
    · intro cn hcn
      obtain ⟨hthree, rfl⟩ := (hsent cn).mp hcn
      exact ⟨Option.some_ne_none _, hfits hthree⟩

/-- At the end of an interval the notification is right exactly if the window is clear. -/
theorem interval_notifies_iff (h : s.Counts) (hqcn : c.qcnEnabled = true) {k : FlowKey}
    (hstep : s.step c (.interval k) = some next) :
    s.NotifiesCongestion (.interval k) next ↔ ClearWindow (s.arrived k) := by
  obtain ⟨f, hflow, rfl⟩ := Option.map_eq_some_iff.mp hstep
  obtain ⟨hbits, hqfb, hle⟩ := h k f hflow
  have hlooks : f.ecnbits = 3 ↔ LooksCongested (s.arrived k) := by
    rw [hbits, looksCongested_iff hle]
  rw [notifiesCongestion_iff rfl (mem_checkandSendQCN hqcn f k), clearWindow_iff, ← hlooks,
    qfb_ne_zero_iff hqfb]

/-- The call for a new flow reports on its first packet alone. -/
theorem new_notifies_iff (hqcn : c.qcnEnabled = true) {a : Arrival} (hcorrupt : a.corrupt = false)
    (hflow : s.rx.flows (Receiver.key a.packet) = none)
    (hstep : s.step c (.arrive a) = some next) :
    s.NotifiesCongestion (.arrive a) next ↔ ClearFirst a := by
  obtain ⟨result, hreceive, rfl⟩ := Option.map_eq_some_iff.mp hstep
  obtain ⟨-, hsent⟩ := receive_new hqcn hcorrupt hflow hreceive
  have hwindow : s.window (.arrive a) = some (Receiver.key a.packet, [a]) := by
    rw [window, hcorrupt, hflow]
    rfl
  have hcounted : (a.packet.ecn ≠ 0 ∧ a.now / 1000 > 0 ∧ a.packet.pg ≠ 1) ↔
      counted a = true ∧ a.packet.pg ≠ 1 := by
    simp [counted, and_assoc]
  generalize hnew : RxFlow.new c a.indeterminate a.packet.ecn a.packet.pg a.now = f at hsent
  have hbits : f.ecnbits = 3 ↔
      (counted a = true ∧ a.packet.pg ≠ 1) ∧ a.indeterminate ||| a.packet.ecn = 3 := by
    rw [← hnew, ← hcounted]
    unfold RxFlow.new
    dsimp only
    split
    next hc => exact (and_iff_right hc).symm
    next hc => exact iff_of_false (by decide) fun h => hc h.1
  have hqfb : f.ecnbits = 3 → f.qfb ≠ 0 := by
    intro hthree
    have hc := hcounted.mpr (hbits.mp hthree).1
    rw [← hnew]
    unfold RxFlow.new
    dsimp only
    rw [if_pos hc]
    decide
  have hce : (∃ x ∈ [a], x.packet.ecn = Ecn.ce) ↔ a.packet.ecn = Ecn.ce := by simp
  rw [notifiesCongestion_iff hwindow fun cn => (hsent cn).trans (mem_checkandSendQCN hqcn f _ cn),
    and_iff_left hqfb, hbits, hce]
  unfold ClearFirst
  split
  next hce =>
    have hle : a.indeterminate ||| a.packet.ecn = 3 ↔ a.indeterminate ≤ 3 := by
      rw [hce]
      exact or_three_eq_three_iff
    rw [hle, iff_true_right hce, and_assoc]
  next hce =>
    rw [iff_false_right hce, not_and, and_imp]
    rfl

/-- Between two calls nothing is notified. -/
theorem known_notifies {a : Arrival}
    (hknown : a.corrupt = false → s.rx.flows (Receiver.key a.packet) ≠ none)
    (hstep : s.step c (.arrive a) = some next) : s.NotifiesCongestion (.arrive a) next := by
  obtain ⟨result, hreceive, rfl⟩ := Option.map_eq_some_iff.mp hstep
  by_cases hcorrupt : a.corrupt = true
  · rw [Receiver.receive, if_pos hcorrupt] at hreceive
    obtain rfl := Option.some.inj hreceive
    constructor
    · intro k packets heq
      rw [window, hcorrupt] at heq
      cases heq
    · intro cn hmem
      cases hmem
  · rw [Bool.not_eq_true] at hcorrupt
    obtain ⟨f, hflow⟩ := Option.ne_none_iff_exists'.mp (hknown hcorrupt)
    constructor
    · intro k packets heq
      rw [window, hcorrupt, hflow] at heq
      cases heq
    · intro cn hmem
      exact absurd hmem ((receive_known hcorrupt hflow hreceive).2 cn)

theorem step_notifies_iff (h : s.Counts) (hqcn : c.qcnEnabled = true)
    (hstep : s.step c event = some next) :
    s.NotifiesCongestion event next ↔ s.Clear event := by
  cases event with
  | arrive a =>
      by_cases hnew : a.corrupt = false ∧ s.rx.flows (Receiver.key a.packet) = none
      · rw [new_notifies_iff hqcn hnew.1 hnew.2 hstep]
        exact ⟨fun hfirst _ _ => hfirst, fun hclear => hclear hnew.1 hnew.2⟩
      · refine iff_of_true (known_notifies (fun hcorrupt hflow => hnew ⟨hcorrupt, hflow⟩) hstep) ?_
        exact fun hcorrupt hflow => absurd ⟨hcorrupt, hflow⟩ hnew
  | interval k => exact interval_notifies_iff h hqcn hstep

/-- The counters are right throughout every run. -/
theorem counts_throughout (hqcn : c.qcnEnabled = true) {events : List NotifyEvent}
    (hcodepoints : ∀ event ∈ events, Codepoint event) :
    Throughout (step c) Counts start events := by
  refine throughout_of_eachStep (D := fun _ event _ => Codepoint event) ?_ start_counts ?_
  · intro s event next h hstep hcodepoint
    exact h.step hqcn hcodepoint hstep
  · intro done event rest s next heq _ _
    exact hcodepoints event (by simp [heq])

/-- In every run of a QCN receiver, each call of `CheckandSendQCN` is right exactly if the packets
that it looks back on are clear. -/
theorem congestion_notified_iff (hqcn : c.qcnEnabled = true) (events : List NotifyEvent)
    (hcodepoints : ∀ event ∈ events, Codepoint event) :
    EachStep (step c) NotifiesCongestion start events ↔
      EachStep (step c) (fun s event _ => s.Clear event) start events := by
  have hcounts := counts_throughout hqcn hcodepoints
  constructor
  · intro h done event rest s next heq hrun hstep
    have hs := hcounts done (event :: rest) s heq hrun
    exact (step_notifies_iff hs hqcn hstep).mp (h done event rest s next heq hrun hstep)
  · intro h done event rest s next heq hrun hstep
    have hs := hcounts done (event :: rest) s heq hrun
    exact (step_notifies_iff hs hqcn hstep).mpr (h done event rest s next heq hrun hstep)

/-! ## Concrete runs -/

instance : DecidablePred LooksCongested := fun _ =>
  inferInstanceAs (Decidable (_ ∨ (_ ∧ _)))

instance : DecidablePred ClearWindow := fun packets =>
  decidable_of_iff' _ (clearWindow_iff packets)

instance : DecidablePred ClearFirst := fun a => by
  unfold ClearFirst
  infer_instance

instance (s : Notifier) : DecidablePred s.Clear
  | .arrive a => inferInstanceAs (Decidable (a.corrupt = false → _ = none → ClearFirst a))
  | .interval k => inferInstanceAs (Decidable (ClearWindow (s.arrived k)))

/-- Packet `seq` of one flow, with the given codepoint. -/
def marked (seq : UInt32) (ecn : UInt8) : NotifyEvent :=
  .arrive { Receiver.arrival seq with packet := { Packet.sample seq with ecn := ecn } }

/-- A flow with an unmarked, an ECT(0) and a CE packet, and the end of its interval. -/
def markedRun : List NotifyEvent :=
  [marked 0 0, marked 1 Ecn.ect0, marked 2 Ecn.ce, .interval ⟨0, 3, 1⟩]

theorem congestion_notified_iff_run :
    EachStep (step Receiver.goBackN) NotifiesCongestion start markedRun := by
  have hcodepoints : ∀ event ∈ markedRun, Codepoint event := by
    intro event hevent
    simp only [markedRun, List.mem_cons, List.not_mem_nil, or_false] at hevent
    rcases hevent with rfl | rfl | rfl | rfl
    · exact (by decide : (0 : UInt8) ≤ 3)
    · exact (by decide : (2 : UInt8) ≤ 3)
    · exact (by decide : (3 : UInt8) ≤ 3)
    · trivial
  rw [congestion_notified_iff rfl markedRun hcodepoints]
  exact eachStep_of_take (by decide +kernel)

/-- An ECT(1) and an ECT(0) packet. -/
def mixedRun : List NotifyEvent := [marked 0 0, marked 1 Ecn.ect1, marked 2 Ecn.ect0]

/-- They cause a notification together, without any CE packet. -/
theorem mixedEct_notified :
    ¬ EachStep (step Receiver.goBackN) NotifiesCongestion start
      (mixedRun ++ [.interval ⟨0, 3, 1⟩]) := by
  intro h
  have hcodepoints : ∀ event ∈ mixedRun, Codepoint event := by
    intro event hevent
    simp only [mixedRun, List.mem_cons, List.not_mem_nil, or_false] at hevent
    rcases hevent with rfl | rfl | rfl
    · exact (by decide : (0 : UInt8) ≤ 3)
    · exact (by decide : (1 : UInt8) ≤ 3)
    · exact (by decide : (2 : UInt8) ≤ 3)
  have hrun : (run (step Receiver.goBackN) start mixedRun).any (fun s =>
      (step Receiver.goBackN s (.interval ⟨0, 3, 1⟩)).isSome &&
        !decide (ClearWindow (s.arrived ⟨0, 3, 1⟩))) = true := by
    decide +kernel
  rw [Option.any_eq_true] at hrun
  obtain ⟨s, hrun, hcheck⟩ := hrun
  rw [Bool.and_eq_true, Option.isSome_iff_exists] at hcheck
  obtain ⟨⟨next, hstep⟩, hunclear⟩ := hcheck
  have hcounts := (counts_throughout rfl hcodepoints).last hrun
  have hclear := (step_notifies_iff hcounts rfl hstep).mp (h mixedRun _ [] s next rfl hrun hstep)
  exact absurd hclear (of_decide_eq_false (Bool.not_eq_true' _ ▸ hunclear))

end Notifier

end Ns3Rdma
