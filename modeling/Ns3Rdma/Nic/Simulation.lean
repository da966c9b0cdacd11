import Ns3Rdma.Nic.View

/-! # The link simulates the flow

Every event of the link is a sequence of steps of the flow: the handlers of the NIC touch
either the flow's own index, in the ways that the steps describe, or other indices. -/

namespace Ns3Rdma

namespace Nic

variable {c : NicConfig} {k : FlowKey} {home : Option (Fin fCnt)} {s t : Nic}

/-! ## Sending -/

/-- A packet of the flow takes the index of the flow. -/
theorem Slots.home_of_match (h : s.Slots k home) {i : Fin fCnt} (hne : i ≠ 0)
    (hport : s.findexUdpportMap i = k.port) (hqIndex : s.findexQindexMap i = k.qIndex) :
    home = some i := (h.home_iff i).mpr ⟨hne, hport, hqIndex⟩

/-- The first unused index is the number of indices in use. -/
theorem Slots.fcount_eq (h : s.Slots k home) {i : Fin fCnt} (hne : i ≠ 0)
    (hunused : s.findexUdpportMap i = 0)
    (hearlier : ∀ j, j ≠ 0 → j < i → s.findexUdpportMap j ≠ 0) : s.queue.fcount = i.val :=
  fcount_eq_of_unused h.used_iff hne hunused hearlier

/-- The index of the flow, once it has sent a packet by index `i`. -/
def homeAfter (k : FlowKey) (home : Option (Fin fCnt)) (p : Packet) (i : Fin fCnt) :
    Option (Fin fCnt) :=
  if sendClass p = k.qIndex ∧ p.sourcePort = k.port then some i else home

variable {p : Packet} {i : Fin fCnt}

/-- `Send` finds the index of a flow that has one. -/
theorem Slots.flowSlot_home (h : s.Slots k home) (hport : k.port ≠ 0)
    (hi : s.flowSlot k.port k.qIndex = some i) {j : Fin fCnt} (hj : home = some j) : i = j := by
  obtain ⟨⟨hne, hfound⟩, hearlier⟩ := flowSlot_eq_some hi
  obtain ⟨hjne, hjport, hjqIndex⟩ := (h.home_iff j).mp hj
  rcases hfound with hunused | ⟨hiport, hiqIndex⟩
  · -- an unused index comes after all used ones, and the flow's is used
    have hfcount := h.fcount_eq hne hunused fun n hn hlt => (hearlier n hn hlt).1
    have hlt := h.home_lt hport hj
    rw [hfcount] at hlt
    exact absurd ⟨hjport, hjqIndex⟩ (hearlier j hjne (Fin.lt_def.mpr hlt)).2
  · have hi := h.home_of_match hne hiport hiqIndex
    rw [hi] at hj
    exact Option.some.inj hj

theorem addFlow_of_used {port : UInt16} {qIndex : Fin qCnt} (hused : s.findexUdpportMap i ≠ 0) :
    s.addFlow c i port qIndex = s := if_neg hused

/-- The index that `Send` takes for a new flow becomes the flow's own if the packet is. -/
theorem Slots.homeAfter_eq_some (h : s.Slots k home) (hport : k.port ≠ 0)
    (hi : s.flowSlot p.sourcePort (sendClass p) = some i) (hunused : s.findexUdpportMap i = 0)
    (j : Fin fCnt) : homeAfter k home p i = some j ↔
      if j = i then sendClass p = k.qIndex ∧ p.sourcePort = k.port else home = some j := by
  obtain ⟨⟨hne, -⟩, hearlier⟩ := flowSlot_eq_some hi
  have hfcount := h.fcount_eq hne hunused fun n hn hlt => (hearlier n hn hlt).1
  have hfree : home ≠ some i := by
    intro hhome
    have hlt := h.home_lt hport hhome
    omega
  unfold homeAfter
  by_cases howned : sendClass p = k.qIndex ∧ p.sourcePort = k.port
  · have hnone : home = none := by
      cases hhome : home with
      | none => rfl
      | some n =>
          rw [howned.1, howned.2] at hi
          obtain rfl := h.flowSlot_home hport hi hhome
          exact absurd hhome hfree
    rw [if_pos howned, hnone, Option.some.injEq, eq_comm (a := i)]
    split
    next hj => exact iff_of_true hj howned
    next hj => exact iff_of_false hj (Option.some_ne_none _).symm
  · rw [if_neg howned]
    split
    next hj =>
      subst hj
      exact iff_of_false hfree howned
    next => rfl

/-- Taking an index keeps the slots. -/
theorem Slots.addFlow (h : s.Slots k home) (hport : k.port ≠ 0) (hp : p.sourcePort ≠ 0)
    (hi : s.flowSlot p.sourcePort (sendClass p) = some i) :
    (s.addFlow c i p.sourcePort (sendClass p)).Slots k (homeAfter k home p i) := by
  obtain ⟨⟨hne, hfound⟩, hearlier⟩ := flowSlot_eq_some hi
  by_cases hunused : s.findexUdpportMap i = 0
  · have hfcount := h.fcount_eq hne hunused fun n hn hlt => (hearlier n hn hlt).1
    have hafter := h.homeAfter_eq_some hport hi hunused
    have hother : ∀ j : Fin fCnt, j.val < s.queue.fcount → j.val < i.val + 1 ∧
        (homeAfter k home p i = some j ↔ home = some j) := by
      intro j hj
      have hji : j ≠ i := by
        rintro rfl
        omega
      rw [hafter, if_neg hji]
      exact ⟨by omega, Iff.rfl⟩
    unfold Nic.addFlow
    rw [if_pos hunused]
    refine ⟨?_, ?_, ?_, ?_, ?_⟩
    · intro j hj
      by_cases hji : j = i
      · subst hji
        simp only [Function.update_self, BEgressQueue.setFcount]
        exact iff_of_true (Nat.lt_succ_self _) hp
      · simp only [Function.update_of_ne hji, BEgressQueue.setFcount]
        rw [← h.used_iff j hj, hfcount]
        have hval := Fin.val_ne_of_ne hji
        omega
    · intro j
      rw [hafter]
      by_cases hji : j = i
      · subst hji
        simp only [if_true, Function.update_self]
        constructor
        · rintro ⟨hqIndex, hport'⟩
          exact ⟨hne, hport', hqIndex⟩
        · rintro ⟨-, hport', hqIndex⟩
          exact ⟨hqIndex, hport'⟩
      · simp only [if_neg hji, Function.update_of_ne hji]
        exact h.home_iff j
    · intro j q hq
      obtain ⟨hlt, howns⟩ := h.queues j q hq
      obtain ⟨hlt', hsame⟩ := hother j hlt
      exact ⟨hlt', howns.trans hsame.symm⟩
    · intro j buffer hbuffer
      by_cases hji : j = i
      · subst hji
        simp only [Function.update_self] at hbuffer
        obtain rfl := Option.some.inj hbuffer
        refine ⟨Nat.lt_succ_self _, Nat.zero_le _, ?_⟩
        intro q hq
        cases hq
      · simp only [Function.update_of_ne hji] at hbuffer
        obtain ⟨hlt, hlength, howns⟩ := h.buffers j buffer hbuffer
        obtain ⟨hlt', hsame⟩ := hother j hlt
        exact ⟨hlt', hlength, fun q hq => (howns q hq).trans hsame.symm⟩
    · intro j hj
      rw [hafter] at hj
      by_cases hji : j = i
      · subst hji
        simp only [Function.update_self]
        exact Option.some_ne_none _
      · rw [if_neg hji] at hj
        simp only [Function.update_of_ne hji]
        exact h.home_buffer j hj
  · rw [addFlow_of_used hunused]
    have hmatch := hfound.resolve_left hunused
    have hhome : homeAfter k home p i = home := by
      unfold homeAfter
      split
      next howned =>
        refine (h.home_of_match hne ?_ ?_).symm
        · rw [hmatch.1, howned.2]
        · rw [hmatch.2, howned.1]
      next => rfl
    rwa [hhome]

theorem Slots.homeAfter_self (h : s.Slots k home) (hport : k.port ≠ 0)
    (hi : s.flowSlot p.sourcePort (sendClass p) = some i) :
    homeAfter k home p i = some i ↔ sendClass p = k.qIndex ∧ p.sourcePort = k.port := by
  by_cases hunused : s.findexUdpportMap i = 0
  · rw [h.homeAfter_eq_some hport hi hunused, if_pos rfl]
  · have hmatch := (flowSlot_eq_some hi).1.2.resolve_left hunused
    unfold homeAfter
    split
    next howned => exact iff_of_true rfl howned
    next howned =>
      refine iff_of_false (fun hhome => ?_) howned
      obtain ⟨-, hiport, hiqIndex⟩ := (h.home_iff i).mp hhome
      exact howned ⟨hmatch.2.symm.trans hiqIndex, hmatch.1.symm.trans hiport⟩

theorem addFlow_inUse (h : s.Slots k home) (hi : s.flowSlot p.sourcePort (sendClass p) = some i) :
    i.val < (s.addFlow c i p.sourcePort (sendClass p)).queue.fcount := by
  by_cases hunused : s.findexUdpportMap i = 0
  · unfold addFlow
    rw [if_pos hunused]
    exact Nat.lt_succ_self _
  · rw [addFlow_of_used hunused, h.used_iff i (flowSlot_eq_some hi).1.1]
    exact hunused

theorem Timers.addFlow (htimers : s.Timers c home) (h : s.Slots k home) (hport : k.port ≠ 0)
    (hi : s.flowSlot p.sourcePort (sendClass p) = some i) :
    (s.addFlow c i p.sourcePort (sendClass p)).Timers c (homeAfter k home p i) := by
  obtain ⟨⟨hne, hfound⟩, hearlier⟩ := flowSlot_eq_some hi
  by_cases hunused : s.findexUdpportMap i = 0
  · have hfcount := h.fcount_eq hne hunused fun n hn hlt => (hearlier n hn hlt).1
    have hafter := h.homeAfter_eq_some hport hi hunused
    unfold Nic.addFlow
    rw [if_pos hunused]
    refine ⟨htimers.waiting_iff, ?_, ?_⟩
    · intro j hwaiting
      have hlt := htimers.inUse j hwaiting
      simp only [BEgressQueue.setFcount]
      omega
    · intro hpatient j deadline hhome hdeadline
      simp only at hdeadline
      have hwaiting := (htimers.waiting_iff j).mpr (by rw [hdeadline]; exact Option.some_ne_none _)
      have hlt := htimers.inUse j hwaiting
      have hji : j ≠ i := by
        rintro rfl
        omega
      rw [hafter, if_neg hji] at hhome
      exact htimers.gate hpatient j deadline hhome hdeadline
  · rw [addFlow_of_used hunused]
    have hself := h.homeAfter_self hport hi
    refine ⟨htimers.waiting_iff, htimers.inUse, ?_⟩
    intro hpatient j deadline hhome hdeadline
    refine htimers.gate hpatient j deadline ?_ hdeadline
    unfold homeAfter at hhome
    split at hhome
    next howned =>
      obtain rfl := Option.some.inj hhome
      have hmatch := hfound.resolve_left hunused
      exact h.home_of_match hne (hmatch.1.trans howned.2) (hmatch.2.trans howned.1)
    next => exact hhome

/-- The device once packet `p` is in the buffer and the queue of flow `i`. -/
def stored (s : Nic) (i : Fin fCnt) (buffer : DropTailQueue) (p : Packet) : Nic :=
  { s with
    sendingBuffer := Function.update s.sendingBuffer i (some (bufferPacket buffer p))
    queue := s.queue.enqueue p i }

theorem Slots.enqueue (h : s.Slots k home) (hinUse : i.val < s.queue.fcount)
    (howns : k.Owns p ↔ home = some i) : Slots k home { s with queue := s.queue.enqueue p i } where
  used_iff := by
    rw [BEgressQueue.enqueue_fcount]
    exact h.used_iff
  home_iff := h.home_iff
  queues := by
    intro j q hq
    rw [BEgressQueue.enqueue_fcount]
    by_cases hj : j = i
    · subst hj
      obtain ⟨taken, hpackets, -⟩ := s.queue.enqueue_taken p j
      rw [hpackets] at hq
      have hmem : q ∈ (s.queue.queues j).packets ∨ q = p := by
        cases taken with
        | false => exact Or.inl hq
        | true =>
            rcases List.mem_append.mp hq with hq | hq
            · exact Or.inl hq
            · exact Or.inr (List.mem_singleton.mp hq)
      rcases hmem with hq | rfl
      · exact h.queues j q hq
      · exact ⟨hinUse, howns⟩
    · rw [BEgressQueue.enqueue_queues_of_ne _ _ _ hj] at hq
      exact h.queues j q hq
  buffers := by
    rw [BEgressQueue.enqueue_fcount]
    exact h.buffers
  home_buffer := h.home_buffer

theorem Slots.stored (h : s.Slots k home) (hinUse : i.val < s.queue.fcount)
    {buffer : DropTailQueue} (hbuffer : s.sendingBuffer i = some buffer)
    (howns : k.Owns p ↔ home = some i) : (s.stored i buffer p).Slots k home where
  used_iff := (h.enqueue hinUse howns).used_iff
  home_iff := h.home_iff
  queues := (h.enqueue hinUse howns).queues
  buffers := by
    intro j larger hj
    simp only [Nic.stored, BEgressQueue.enqueue_fcount] at hj ⊢
    by_cases hji : j = i
    · subst hji
      rw [Function.update_self] at hj
      obtain rfl := Option.some.inj hj
      obtain ⟨-, hlength, hpackets⟩ := h.buffers j buffer hbuffer
      rw [bufferPacket_packets hlength]
      refine ⟨hinUse, ?_, ?_⟩
      · rw [List.length_append, List.length_singleton]
        split
        · rw [List.length_tail]
          omega
        · omega
      · intro q hq
        rcases List.mem_append.mp hq with hq | hq
        · refine hpackets q ?_
          split at hq
          · exact List.mem_of_mem_tail hq
          · exact hq
        · obtain rfl := List.mem_singleton.mp hq
          exact howns
    · rw [Function.update_of_ne hji] at hj
      exact h.buffers j larger hj
  home_buffer := by
    intro j hj
    simp only [Nic.stored]
    by_cases hji : j = i
    · subst hji
      rw [Function.update_self]
      exact Option.some_ne_none _
    · rw [Function.update_of_ne hji]
      exact h.home_buffer j hj

theorem Timers.stored (h : s.Timers c home) (buffer : DropTailQueue) :
    (s.stored i buffer p).Timers c home :=
  h.congr (t := s.stored i buffer p) (BEgressQueue.enqueue_fcount _ _ _) rfl rfl rfl rfl

end Nic

namespace Link

variable {c : NicConfig} {k : FlowKey} {home : Option (Fin fCnt)} {s t : Link}
  {A : Flow → Bool → Prop} {p : Packet} {i : Fin fCnt}

/-- A packet of the flow is in the flow's class and has its port. -/
theorem class_of_owns (howns : k.Owns p) : Nic.sendClass p = k.qIndex ∧ p.sourcePort = k.port := by
  obtain ⟨hudp, rfl⟩ := howns
  unfold Nic.sendClass
  rw [hudp]
  exact ⟨rfl, rfl⟩

theorem owns_iff_class (hmay : s.MaySend k p) :
    k.Owns p ↔ Nic.sendClass p = k.qIndex ∧ p.sourcePort = k.port :=
  ⟨class_of_owns, fun h => (hmay.2 h).1⟩

/-- A new index looks to the flow like no index. -/
theorem view_addFlow (h : s.Sound c k home) (hport : k.port ≠ 0)
    (hi : s.nic.flowSlot p.sourcePort (Nic.sendClass p) = some i) :
    ({ s with nic := s.nic.addFlow c i p.sourcePort (Nic.sendClass p) }).view c k
      (Nic.homeAfter k home p i) = s.view c k home := by
  obtain ⟨⟨hne, hfound⟩, hearlier⟩ := Nic.flowSlot_eq_some hi
  by_cases hunused : s.nic.findexUdpportMap i = 0
  · have hfcount := h.slots.fcount_eq hne hunused fun n hn hlt => (hearlier n hn hlt).1
    by_cases howned : Nic.sendClass p = k.qIndex ∧ p.sourcePort = k.port
    · have hhome : home = none := by
        cases hhome : home with
        | none => rfl
        | some j =>
            rw [howned.1, howned.2] at hi
            obtain rfl := h.slots.flowSlot_home hport hi hhome
            have hlt := h.slots.home_lt hport hhome
            omega
      have hempty : (s.nic.queue.queues i).packets = [] := by
        apply List.eq_nil_iff_forall_not_mem.mpr
        intro q hq
        have hlt := (h.slots.queues i q hq).1
        omega
      have hwaiting : s.nic.waitingAck i = false := by
        rw [← Bool.not_eq_true]
        intro hwaiting
        have hlt := h.timers.inUse i hwaiting
        omega
      unfold Nic.homeAfter Nic.addFlow
      rw [if_pos howned, if_pos hunused, hhome]
      cases hwaitAck : c.waitAck <;>
        simp [view, hwaitAck, hempty, hwaiting, DropTailQueue.empty, BEgressQueue.setFcount]
    · unfold Nic.homeAfter
      rw [if_neg howned]
      apply view_nic_congr
      intro j hj
      have hlt := h.slots.home_lt hport hj
      have hji : j ≠ i := by
        rintro rfl
        omega
      unfold Nic.addFlow
      rw [if_pos hunused]
      refine ⟨rfl, Function.update_of_ne hji _ _, ?_, rfl⟩
      dsimp only
      split
      · exact Function.update_of_ne hji _ _
      · rfl
  · rw [Nic.addFlow_of_used hunused]
    have hmatch := hfound.resolve_left hunused
    unfold Nic.homeAfter
    split
    next howned =>
      rw [h.slots.home_of_match hne (hmatch.1.trans howned.2) (hmatch.2.trans howned.1)]
    next => rfl

/-- A packet of the flow enters its buffer, and its queue if there is room. -/
theorem step_stored (h : s.Sound c k home) (hhome : home = some i) {buffer : DropTailQueue}
    (hbuffer : s.nic.sendingBuffer i = some buffer) (hseq : p.seq.toNat = s.sent)
    (hsent : s.sent + 1 < 2 ^ 32)
    (hadmits : ∀ taken, (s.nic.queue.accepts p = true →
        byteSize (s.nic.queue.queues i).packets + p.size.toNat < 30000 * 65535 → taken = true) →
      A (s.view c k home) taken) :
    Flow.Step c A (s.view c k home)
      (({ s with nic := s.nic.stored i buffer p, sent := s.sent + 1 }).view c k home) := by
  obtain ⟨taken, hpackets, htaken⟩ := s.nic.queue.enqueue_taken p i
  have hlength := (h.slots.buffers i buffer hbuffer).2.1
  have hstep := Flow.Step.send (c := c) (s.view c k home) p.seq taken hseq hsent
    (hadmits taken htaken)
  refine (congrArg _ ?_).mp hstep
  subst hhome
  have hkeep : Flow.buffered (buffer.packets.map Packet.seq) p.seq =
      (Nic.bufferPacket buffer p).packets.map Packet.seq := by
    rw [Nic.bufferPacket_packets hlength]
    unfold Flow.buffered
    rw [List.length_map]
    split
    · rw [List.map_append, List.map_tail, List.map_singleton]
    · rw [List.map_append, List.map_singleton]
  have hqueue : (if taken then (s.nic.queue.queues i).packets.map Packet.seq ++ [p.seq]
        else (s.nic.queue.queues i).packets.map Packet.seq) =
      ((s.nic.queue.enqueue p i).queues i).packets.map Packet.seq := by
    rw [hpackets]
    split
    · rw [List.map_append, List.map_singleton]
    · rfl
  simp only [view, Nic.stored, Option.elim_some, Option.bind_some, hbuffer, Function.update_self,
    hkeep, hqueue]

theorem Sound.control (hqcn : c.qcnEnabled = true) (h : s.Sound c k home) (howns : ¬ k.Owns p) :
    (s.emit k (s.nic.sendControl c p)).Sound c k home ∧
      Flow.Steps c A (s.view c k home)
        ((s.emit k (s.nic.sendControl c p)).view c k home) := by
  have hslots : Nic.Slots k home { s.nic with queue := s.nic.queue.enqueue p 0 } :=
    h.slots.enqueue s.nic.queue.fcount_pos
      (iff_of_false howns fun hzero => h.slots.home_ne_zero hzero rfl)
  have htimers : Nic.Timers c home { s.nic with queue := s.nic.queue.enqueue p 0 } :=
    h.timers.congr (BEgressQueue.enqueue_fcount _ _ _) rfl rfl rfl rfl
  have hquiet := h.quiet (A := A)
    (t := { s with nic := { s.nic with queue := s.nic.queue.enqueue p 0 }, wire := none })
    hslots htimers
    (fun i hi => ⟨BEgressQueue.enqueue_queues_of_ne _ _ _ (h.slots.home_ne_zero hi), rfl, rfl, rfl⟩)
    rfl rfl (List.Subset.refl _) (List.Subset.refl _) rfl
  unfold Nic.sendControl
  rw [if_pos hqcn]
  exact Sound.then_transmit hqcn rfl hquiet

theorem addFlow_queue_congr (n : Nic) (i : Fin fCnt) (port : UInt16) (qIndex : Fin qCnt) :
    (n.addFlow c i port qIndex).queue.queues = n.queue.queues ∧
      (n.addFlow c i port qIndex).queue.accepts = n.queue.accepts := by
  unfold Nic.addFlow
  split <;> exact ⟨rfl, rfl⟩

/-- Room for a packet of the flow is room at its index, which is empty if it is new. -/
theorem HasRoom.of_addFlow (h : s.Sound c k home) (hport : k.port ≠ 0)
    (hi : s.nic.flowSlot p.sourcePort (Nic.sendClass p) = some i) {taken : Bool}
    (howned : Nic.sendClass p = k.qIndex ∧ p.sourcePort = k.port)
    (htaken : (s.nic.addFlow c i p.sourcePort (Nic.sendClass p)).queue.accepts p = true →
      byteSize ((s.nic.addFlow c i p.sourcePort (Nic.sendClass p)).queue.queues i).packets +
        p.size.toNat < 30000 * 65535 → taken = true) (hroom : s.HasRoom k p) : taken = true := by
  obtain ⟨hqueues, haccepts⟩ :=
    addFlow_queue_congr (c := c) s.nic i p.sourcePort (Nic.sendClass p)
  rw [hqueues, haccepts] at htaken
  refine htaken hroom.1 ?_
  have hsize := p.size_le
  cases hhome : home with
  | some j =>
      have hfound := hi
      rw [howned.1, howned.2] at hfound
      obtain rfl := h.slots.flowSlot_home hport hfound hhome
      refine hroom.2 i ?_
      rw [findex, h.slots.findFlow_eq hport, hhome]
  | none =>
      have hempty : (s.nic.queue.queues i).packets = [] := by
        apply List.eq_nil_iff_forall_not_mem.mpr
        intro q hq
        have hlt := (h.slots.queues i q hq).1
        obtain ⟨⟨hne, hfound⟩, hearlier⟩ := Nic.flowSlot_eq_some hi
        rcases hfound with hunused | hmatch
        · have hfcount := h.slots.fcount_eq hne hunused fun n hn hlt => (hearlier n hn hlt).1
          omega
        · have hi := h.slots.home_of_match hne (hmatch.1.trans howned.2)
            (hmatch.2.trans howned.1)
          rw [hhome] at hi
          cases hi
      rw [hempty, byteSize_nil]
      omega

theorem Sound.send (hqcn : c.qcnEnabled = true) (hport : k.port ≠ 0) (hclass : k.qIndex ≠ 7)
    (h : s.Sound c k home) (hmay : s.MaySend k p) {result : Nic × Option Packet}
    (hsend : s.nic.send c p = some result)
    (hadmits : k.Owns p → ∀ taken, (s.HasRoom k p → taken = true) →
      A ({ s with wire := none }.view c k home) taken) :
    ∃ home', (emit k { s with sent := if k.Owns p then s.sent + 1 else s.sent } result).Sound c k
        home' ∧
      Flow.Steps c A (s.view c k home)
        ((emit k { s with sent := if k.Owns p then s.sent + 1 else s.sent } result).view c k
          home') ∧ (k.Owns p → home' ≠ none) ∧ ∀ i, home = some i → home' = some i := by
  by_cases hcontrol : Nic.sendClass p = 7
  · -- control frames, and data of class 7, go to the control queue
    have howns : ¬ k.Owns p := fun howns => hclass ((class_of_owns howns).1.symm.trans hcontrol)
    have hresult : s.nic.sendControl c p = result := by
      unfold Nic.send at hsend
      dsimp only at hsend
      rw [if_pos (by simp [hqcn, hcontrol])] at hsend
      exact Option.some.inj hsend
    rw [if_neg howns, ← hresult]
    obtain ⟨hnext, hsteps⟩ := h.control (A := A) hqcn howns
    exact ⟨home, hnext, hsteps, fun howned => absurd howned howns, fun _ hi => hi⟩
  · obtain ⟨i, buffer, hi, hbuffer, rfl⟩ := Nic.send_eq_some hsend fun hseven => hcontrol hseven.2
    rw [if_pos hqcn]
    have hp := hmay.1 hcontrol
    have hslots := h.slots.addFlow (c := c) hport hp hi
    have htimers := h.timers.addFlow h.slots hport hi
    have hinUse := Nic.addFlow_inUse (c := c) h.slots hi
    have hself := h.slots.homeAfter_self hport hi
    rw [← owns_iff_class hmay] at hself
    have hadded : ({ s with
        nic := s.nic.addFlow c i p.sourcePort (Nic.sendClass p), wire := none } : Link).Sound c k
          (Nic.homeAfter k home p i) := ⟨hslots, htimers, h.data, h.feedback⟩
    have hbegin := (h.quiet (A := A) (t := { s with wire := none }) h.slots h.timers
      (fun _ _ => ⟨rfl, rfl, rfl, rfl⟩) rfl rfl (List.Subset.refl _) (List.Subset.refl _) rfl).2
    have hview := view_addFlow (s := { s with wire := none })
      ⟨h.slots, h.timers, h.data, h.feedback⟩ hport hi
    rw [← hview] at hbegin hadmits
    have hstored := hslots.stored hinUse hbuffer hself.symm
    have htimers' := htimers.stored (i := i) (p := p) buffer
    refine ⟨Nic.homeAfter k home p i, ?_⟩
    by_cases howns : k.Owns p
    · obtain ⟨-, hseq, hsent⟩ := hmay.2 (class_of_owns howns)
      rw [if_pos howns]
      have hstep := step_stored (A := A) hadded (hself.mpr howns) hbuffer hseq hsent
        (fun taken htaken => hadmits howns taken
          (HasRoom.of_addFlow h hport hi (class_of_owns howns) htaken))
      obtain ⟨hnext, hsteps⟩ := Sound.then_transmit hqcn
        (t := { s with
          nic := (s.nic.addFlow c i p.sourcePort (Nic.sendClass p)).stored i buffer p,
          sent := s.sent + 1, wire := none })
        rfl ⟨⟨hstored, htimers', h.data, h.feedback⟩, hbegin.tail hstep⟩
      rw [hself.mpr howns] at hnext hsteps ⊢
      refine ⟨hnext, hsteps, fun _ => Option.some_ne_none i, fun j hj => ?_⟩
      rw [(class_of_owns howns).1, (class_of_owns howns).2] at hi
      rw [h.slots.flowSlot_home hport hi hj]
    · rw [if_neg howns]
      have hquiet := hadded.quiet (A := A)
        (t := { s with
          nic := (s.nic.addFlow c i p.sourcePort (Nic.sendClass p)).stored i buffer p,
          wire := none }) hstored htimers'
        (fun j hj => by
          have hji : j ≠ i := by
            rintro rfl
            exact howns (hself.mp hj)
          exact ⟨BEgressQueue.enqueue_queues_of_ne _ _ _ hji, Function.update_of_ne hji _ _, rfl,
            rfl⟩)
        rfl rfl (List.Subset.refl _) (List.Subset.refl _) rfl
      obtain ⟨hnext, hsteps⟩ := Sound.then_transmit hqcn rfl ⟨hquiet.1, hbegin.trans hquiet.2⟩
      refine ⟨hnext, hsteps, fun howned => absurd howned howns, fun j hj => ?_⟩
      rw [Nic.homeAfter, if_neg ((owns_iff_class hmay).not.mp howns)]
      exact hj

/-! ## Feedback and timers -/

theorem keptFrom_seqs (buffer : DropTailQueue) (seq : UInt32) :
    (Nic.keptFrom buffer seq).packets.map Packet.seq =
      (buffer.packets.map Packet.seq).dropWhile fun n => n < seq := by
  rw [List.dropWhile_map]
  rfl

theorem keptFrom_sublist (buffer : DropTailQueue) (seq : UInt32) :
    (Nic.keptFrom buffer seq).packets.Sublist buffer.packets :=
  List.dropWhile_sublist _

/-- Feedback that finds the flow's index names the flow. -/
theorem names_of_findFlow (h : s.Sound c k home) (hhome : home = some i) {port : UInt16}
    {qIndex : Fin qCnt} (hi : s.nic.findFlow port qIndex = some i) :
    port = k.port ∧ qIndex = k.qIndex := by
  by_contra hother
  exact h.slots.findFlow_ne hother hi hhome

theorem view_recover (hhome : home = some i) {kept : DropTailQueue}
    (hlength : kept.packets.length ≤ 8000) :
    ({ s with nic := s.nic.recover i kept }).view c k home =
      { s.view c k home with
        buffer := kept.packets.map Packet.seq
        queue := kept.packets.map Packet.seq } := by
  subst hhome
  simp only [view, Option.bind_some, Option.elim_some, Nic.recover_queues hlength,
    Nic.recover_sendingBuffer hlength, Function.update_self]
  rfl

theorem view_stopWaiting (hhome : home = some i) :
    ({ s with nic := s.nic.stopWaiting i }).view c k home =
      { s.view c k home with waiting := false } := by
  subst hhome
  simp only [view, Nic.stopWaiting, Option.elim_some, Function.update_self]

theorem view_trimmed (hhome : home = some i) (kept : DropTailQueue) :
    ({ s with nic := s.nic.trimmed i kept }).view c k home =
      { s.view c k home with buffer := kept.packets.map Packet.seq } := by
  subst hhome
  simp only [view, Nic.trimmed, Option.bind_some, Option.elim_some, Function.update_self]

theorem view_advanced (hhome : home = some i) (hwaitAck : c.waitAck = true) :
    ({ s with nic := Nic.advanced c s.nic i }).view c k home =
      { s.view c k home with
        waiting := false
        milestone := (s.view c k home).milestone + c.chunk } := by
  subst hhome
  simp only [view, Nic.advanced, Nic.stopWaiting, hwaitAck, if_true, Option.elim_some,
    Function.update_self]

/-- What recovers another index is nothing to the flow. -/
theorem recover_of_ne {j : Fin fCnt} (hj : j ≠ i) {kept : DropTailQueue}
    (hlength : kept.packets.length ≤ 8000) :
    (s.nic.recover i kept).queue.queues j = s.nic.queue.queues j ∧
      (s.nic.recover i kept).sendingBuffer j = s.nic.sendingBuffer j := by
  rw [Nic.recover_queues hlength, Nic.recover_sendingBuffer hlength]
  exact ⟨Function.update_of_ne hj _ _, Function.update_of_ne hj _ _⟩

theorem Sound.retransmit (hqcn : c.qcnEnabled = true) (h : s.Sound c k home)
    {result : Nic × Option Packet} (hpending : s.nic.retransmitEvt i ≠ none)
    (hretransmit : s.nic.retransmit c i = some result) :
    (s.emit k result).Sound c k home ∧
      Flow.Steps c A (s.view c k home) ((s.emit k result).view c k home) := by
  obtain ⟨buffer, hbuffer, rfl⟩ := Nic.retransmit_eq_some hretransmit
  have hlength := (h.slots.buffers i buffer hbuffer).2.1
  have hslots := h.slots.recover hbuffer (List.Sublist.refl buffer.packets)
  have hslots' := hslots.stopWaiting i
  have htimers := (h.timers.recover (j := i) hlength).stopWaiting i
  have hwaiting := (h.timers.waiting_iff i).mpr hpending
  refine Sound.then_transmit hqcn
    (t := { s with nic := (s.nic.recover i buffer).stopWaiting i, wire := none }) rfl ?_
  by_cases hhome : home = some i
  · refine ⟨⟨hslots', htimers, h.data, h.feedback⟩, ?_⟩
    have hview : s.view c k home = { s.view c k home with
        buffer := buffer.packets.map Packet.seq, waiting := true } := by
      subst hhome
      simp only [view, Option.bind_some, Option.elim_some, hbuffer, hwaiting]
    have hstep := Flow.Step.retransmit (c := c) (A := A) (s.view c k home)
      (by rw [hview])
    refine (Relation.ReflTransGen.single hstep).tail ?_
    have hbegin := Flow.Step.begin (c := c) (A := A)
      { s.view c k home with queue := (s.view c k home).buffer, waiting := false } _ _ _
      (List.Subset.refl _) (List.Subset.refl _) (List.Subset.refl _)
    refine (congrArg _ ?_).mp hbegin
    have hstop := view_stopWaiting (c := c) (k := k)
      (s := { s with nic := s.nic.recover i buffer, wire := none }) hhome
    have hrecover := view_recover (c := c) (k := k) (s := { s with wire := none }) hhome hlength
    rw [hstop, hrecover, hview]
    rfl
  · exact h.quiet hslots' htimers
      (fun j hj => by
        have hji : j ≠ i := by
          rintro rfl
          exact hhome hj
        obtain ⟨hqueue, hbuffer'⟩ := recover_of_ne (s := s) hji hlength
        exact ⟨hqueue, hbuffer', rfl, Function.update_of_ne hji _ _⟩)
      rfl rfl (List.Subset.refl _) (List.Subset.refl _) rfl

/-- A NACK that was in flight if it names the flow. -/
theorem Sound.receiveNack (hqcn : c.qcnEnabled = true) (hback : c.backto0 = false)
    (h : s.Sound c k home) {qbbh : QbbHeader} {result : Nic × Option Packet}
    (hnack : s.nic.receiveNack c qbbh = some result)
    (hmem : qbbh.port = k.port ∧ qbbh.pg = k.qIndex → .nack qbbh ∈ s.feedback)
    {feedback : List Feedback} (hrest : feedback ⊆ s.feedback) :
    (emit k { s with feedback := feedback } result).Sound c k home ∧
      Flow.Steps c A (s.view c k home)
        ((emit k { s with feedback := feedback } result).view c k home) := by
  obtain ⟨i, buffer, hi, hbuffer, hkept, rfl⟩ := Nic.receiveNack_eq_some hback hnack
  have hsub := keptFrom_sublist buffer qbbh.seq
  have hlength : (Nic.keptFrom buffer qbbh.seq).packets.length ≤ 8000 :=
    hsub.length_le.trans (h.slots.buffers i buffer hbuffer).2.1
  have hslots := h.slots.recover hbuffer hsub
  have hslots' := hslots.stopWaiting i
  have htimers := h.timers.recover (j := i) hlength
  have htimers' := htimers.stopWaiting i
  have hfeedback : ∀ f ∈ feedback, (∃ cnHead, f = .cnp cnHead) ∨ k.Names f :=
    fun f hf => h.feedback f (hrest hf)
  by_cases hhome : home = some i
  · have hseqs : (Nic.keptFrom buffer qbbh.seq).packets.map Packet.seq =
        (s.view c k home).kept qbbh.seq := by
      subst hhome
      simp only [keptFrom_seqs, Flow.kept, view, Option.bind_some, Option.elim_some, hbuffer]
    have hstep := Flow.Step.nack (c := c) (A := A) (s.view c k home) qbbh.seq
      (mem_nackSeqs.mpr ⟨qbbh, hmem (names_of_findFlow h hhome hi), rfl⟩)
      (by rw [← hseqs]; exact fun hnil => hkept (List.map_eq_nil_iff.mp hnil))
    have hbegin := (Relation.ReflTransGen.single hstep).tail
      (Flow.Step.begin _ _ (ackSeqs feedback) (nackSeqs feedback) (List.Subset.refl _)
        (ackSeqs_subset hrest) (nackSeqs_subset hrest))
    have hrecover := view_recover (c := c) (k := k)
      (s := { s with feedback := feedback, wire := none }) hhome hlength
    split
    next hwaits =>
      rw [Bool.and_eq_true] at hwaits
      refine Sound.then_transmit hqcn
        (t := { s with
          nic := (s.nic.recover i (Nic.keptFrom buffer qbbh.seq)).stopWaiting i
          feedback := feedback, wire := none })
        rfl ⟨⟨hslots', htimers', h.data, hfeedback⟩, ?_⟩
      refine (congrArg _ ?_).mp hbegin
      have hstop := view_stopWaiting (c := c) (k := k)
        (s := { s with
          nic := s.nic.recover i (Nic.keptFrom buffer qbbh.seq), feedback := feedback
          wire := none }) hhome
      rw [hstop, hrecover, hseqs]
      simp only [hwaits.1, Bool.not_true, Bool.false_and]
      rfl
    next hwaits =>
      rw [emit_none]
      refine ⟨⟨hslots, htimers, h.data, hfeedback⟩, ?_⟩
      refine (congrArg _ ?_).mp hbegin
      have hsame : (!c.waitAck && (s.view c k home).waiting) = (s.view c k home).waiting := by
        subst hhome
        rw [Bool.and_eq_true] at hwaits
        cases hwaitAck : c.waitAck with
        | false => rfl
        | true =>
            rw [hwaitAck] at hwaits
            have hidle : s.nic.waitingAck i = false := by
              rw [← Bool.not_eq_true]
              exact fun hwaiting => hwaits ⟨rfl, hwaiting⟩
            exact hidle.symm
      rw [hrecover, hseqs, hsame]
      rfl
  · have hother : ∀ j, home = some j → j ≠ i := by
      rintro j hj rfl
      exact hhome hj
    split
    · refine Sound.then_transmit hqcn
        (t := { s with
          nic := (s.nic.recover i (Nic.keptFrom buffer qbbh.seq)).stopWaiting i
          feedback := feedback, wire := none }) rfl ?_
      exact h.quiet hslots' htimers'
        (fun j hj => by
          obtain ⟨hqueue, hbuffer'⟩ := recover_of_ne (s := s) (hother j hj) hlength
          exact ⟨hqueue, hbuffer', rfl, Function.update_of_ne (hother j hj) _ _⟩)
        rfl rfl (List.Subset.refl _) hrest rfl
    · rw [emit_none]
      exact h.quiet hslots htimers
        (fun j hj => by
          obtain ⟨hqueue, hbuffer'⟩ := recover_of_ne (s := s) (hother j hj) hlength
          exact ⟨hqueue, hbuffer', rfl, rfl⟩)
        rfl rfl (List.Subset.refl _) hrest rfl

/-- An ACK that was in flight if it names the flow. -/
theorem Sound.receiveAck (hqcn : c.qcnEnabled = true) (hback : c.backto0 = false)
    (h : s.Sound c k home) {qbbh : QbbHeader} {result : Nic × Option Packet}
    (hack : s.nic.receiveAck c qbbh = some result)
    (hmem : qbbh.port = k.port ∧ qbbh.pg = k.qIndex → .ack qbbh ∈ s.feedback)
    {feedback : List Feedback} (hrest : feedback ⊆ s.feedback) :
    (emit k { s with feedback := feedback } result).Sound c k home ∧
      Flow.Steps c A (s.view c k home)
        ((emit k { s with feedback := feedback } result).view c k home) := by
  obtain ⟨i, buffer, kept, hi, hbuffer, -, hkept, rfl⟩ := Nic.receiveAck_eq_some hback hack
  have hsub : kept.packets.Sublist buffer.packets := by
    rw [hkept]
    split
    · exact List.Sublist.refl _
    · exact keptFrom_sublist buffer qbbh.seq
  have hslots := h.slots.trim (t := s.nic.trimmed i kept) hbuffer hsub rfl rfl rfl
    (fun _ _ hp => Or.inl hp) rfl
  have hslots' := hslots.congr (t := Nic.advanced c (s.nic.trimmed i kept) i) rfl rfl rfl rfl
  have htimers := h.timers.congr (t := s.nic.trimmed i kept) rfl rfl rfl rfl rfl
  have htimers' := (htimers.stopWaiting i).congr (t := Nic.advanced c (s.nic.trimmed i kept) i)
    rfl rfl rfl rfl rfl
  have hfeedback : ∀ f ∈ feedback, (∃ cnHead, f = .cnp cnHead) ∨ k.Names f :=
    fun f hf => h.feedback f (hrest hf)
  by_cases hhome : home = some i
  · have hseq : qbbh.seq ∈ ackSeqs s.feedback :=
      mem_ackSeqs.mpr ⟨qbbh, hmem (names_of_findFlow h hhome hi), rfl⟩
    have hseqs : kept.packets.map Packet.seq = if c.ackInterval = 0 then
        (s.view c k home).buffer else (s.view c k home).kept qbbh.seq := by
      subst hhome
      rw [hkept]
      split
      · simp only [view, Option.bind_some, Option.elim_some, hbuffer]
      · simp only [keptFrom_seqs, Flow.kept, view, Option.bind_some, Option.elim_some, hbuffer]
    have hadvances : (s.view c k home).advances c qbbh.seq =
        (c.waitAck && decide (Nic.signed (s.nic.milestoneTx i) ≤ Nic.signed qbbh.seq)) := by
      subst hhome
      unfold Flow.advances view
      cases c.waitAck <;> rfl
    have hbegin := (Relation.ReflTransGen.single
        (Flow.Step.ack (c := c) (A := A) (s.view c k home) qbbh.seq hseq)).tail
      (Flow.Step.begin _ _ (ackSeqs feedback) (nackSeqs feedback) (List.Subset.refl _)
        (ackSeqs_subset hrest) (nackSeqs_subset hrest))
    rw [← hadvances]
    have htrim := view_trimmed (c := c) (k := k)
      (s := { s with feedback := feedback, wire := none }) hhome kept
    split
    next hadvance =>
      refine Sound.then_transmit hqcn
        (t := { s with
          nic := Nic.advanced c (s.nic.trimmed i kept) i, feedback := feedback, wire := none })
        rfl ⟨⟨hslots', htimers', h.data, hfeedback⟩, ?_⟩
      have hwaitAck : c.waitAck = true := by
        rw [Flow.advances, Bool.and_eq_true] at hadvance
        exact hadvance.1
      refine (congrArg _ ?_).mp hbegin
      have hview := view_advanced (c := c) (k := k)
        (s := { s with nic := s.nic.trimmed i kept, feedback := feedback, wire := none })
        hhome hwaitAck
      rw [hview, htrim, hseqs, hadvance]
      rfl
    next hadvance =>
      rw [emit_none]
      refine ⟨⟨hslots, htimers, h.data, hfeedback⟩, ?_⟩
      refine (congrArg _ ?_).mp hbegin
      rw [htrim, hseqs, if_neg hadvance, if_neg hadvance]
      rfl
  · have hother : ∀ j, home = some j → j ≠ i := by
      rintro j hj rfl
      exact hhome hj
    split
    · refine Sound.then_transmit hqcn
        (t := { s with
          nic := Nic.advanced c (s.nic.trimmed i kept) i, feedback := feedback, wire := none })
        rfl ?_
      exact h.quiet hslots' htimers'
        (fun j hj => ⟨rfl, Function.update_of_ne (hother j hj) _ _,
          Function.update_of_ne (hother j hj) _ _, Function.update_of_ne (hother j hj) _ _⟩)
        rfl rfl (List.Subset.refl _) hrest rfl
    · rw [emit_none]
      exact h.quiet hslots htimers
        (fun j hj => ⟨rfl, Function.update_of_ne (hother j hj) _ _, rfl, rfl⟩)
        rfl rfl (List.Subset.refl _) hrest rfl

/-- Feedback that was in flight if it names the flow. -/
theorem Sound.receiveFeedback (hqcn : c.qcnEnabled = true) (hback : c.backto0 = false)
    (h : s.Sound c k home) {f : Feedback} {result : Nic × Option Packet}
    (hresult : s.nic.receiveFeedback c f = some result) (hmem : k.Names f → f ∈ s.feedback)
    {feedback : List Feedback} (hrest : feedback ⊆ s.feedback) :
    (emit k { s with feedback := feedback } result).Sound c k home ∧
      Flow.Steps c A (s.view c k home)
        ((emit k { s with feedback := feedback } result).view c k home) := by
  cases f with
  | ack qbbh => exact h.receiveAck hqcn hback hresult hmem hrest
  | nack qbbh => exact h.receiveNack hqcn hback hresult hmem hrest
  | cnp cnHead =>
      have hrp : ∃ rp, result = ({ s.nic with rp := rp }, none) := by
        change s.nic.receiveCnp c cnHead = some result at hresult
        unfold Nic.receiveCnp at hresult
        split at hresult
        · exact ⟨s.nic.rp, (Option.some.inj hresult).symm⟩
        · rw [Option.map_eq_some_iff] at hresult
          obtain ⟨i, -, rfl⟩ := hresult
          exact ⟨_, rfl⟩
      obtain ⟨rp, rfl⟩ := hrp
      rw [emit_none]
      exact h.quiet (h.slots.congr rfl rfl rfl rfl) (h.timers.congr rfl rfl rfl rfl rfl)
        (fun _ _ => ⟨rfl, rfl, rfl, rfl⟩) rfl rfl (List.Subset.refl _) hrest rfl

/-! ## Arrivals at the receiver -/

/-- The link once the receiver has answered a packet, with what is left in flight. -/
def received (s : Link) (result : Receiver × List Feedback) (data : List Packet) : Link :=
  { s with
    receiver := result.1
    data := data
    feedback := s.feedback ++ result.2
    wire := none }

/-- The receiver takes one packet of the flow out of those in flight. -/
theorem Sound.receive (hback : c.backto0 = false) (h : s.Sound c k home) {a : Arrival}
    (hpacket : a.packet ∈ s.data) {result : Receiver × List Feedback}
    (hreceive : s.receiver.receive c.toRxConfig a = some result) {data : List Packet}
    (hrest : data ⊆ s.data) :
    (s.received result data).Sound c k home ∧
      Flow.Steps c A (s.view c k home) ((s.received result data).view c k home) := by
  have hkey : Receiver.key a.packet = k := (h.data a.packet hpacket).2
  have hanswers : ∀ f ∈ result.2, (∃ cnHead, f = .cnp cnHead) ∨
      f = .ack ⟨k.qIndex, s.receiver.expected k + 1, k.port⟩ ∧
          a.packet.seq = s.receiver.expected k ∨
        f = .nack ⟨k.qIndex, s.receiver.expected k, k.port⟩ ∧
          s.receiver.expected k < a.packet.seq := by
    intro f hf
    have := Receiver.receive_answers hback hreceive hf
    rw [hkey] at this
    subst hkey
    exact this
  refine ⟨⟨h.slots, h.timers, fun p hp => h.data p (hrest hp), ?_⟩, ?_⟩
  · intro f hf
    rcases List.mem_append.mp hf with hf | hf
    · exact h.feedback f hf
    · rcases hanswers f hf with hcnp | ⟨rfl, -⟩ | ⟨rfl, -⟩
      · exact Or.inl hcnp
      · exact Or.inr ⟨rfl, rfl⟩
      · exact Or.inr ⟨rfl, rfl⟩
  · cases hcorrupt : a.corrupt with
    | true =>
        rw [Receiver.receive_corrupt hreceive hcorrupt, received, List.append_nil]
        exact (h.quiet (t := { s with data := data, wire := none }) h.slots h.timers
          (fun _ _ => ⟨rfl, rfl, rfl, rfl⟩) rfl rfl hrest (List.Subset.refl _) rfl).2
    | false =>
        have hexpected : result.1.expected k = if a.packet.seq = s.receiver.expected k then
            s.receiver.expected k + 1 else s.receiver.expected k := by
          rw [Receiver.step_expected hback (Receiver.step_of_receive hreceive) hcorrupt, hkey]
          simp only [true_and]
        have hstep := Flow.Step.receive (c := c) (A := A) (s.view c k home)
          a.packet.seq (ackSeqs result.2) (nackSeqs result.2) (List.mem_map_of_mem hpacket)
          (fun n hn => by
            obtain ⟨qbbh, hmem, rfl⟩ := mem_ackSeqs.mp hn
            rcases hanswers _ hmem with ⟨cnHead, hcnp⟩ | ⟨hack, hseq⟩ | ⟨hnack, -⟩
            · cases hcnp
            · rw [Feedback.ack.inj hack]
              exact ⟨hseq, rfl⟩
            · cases hnack)
          (fun n hn => by
            obtain ⟨qbbh, hmem, rfl⟩ := mem_nackSeqs.mp hn
            rcases hanswers _ hmem with ⟨cnHead, hcnp⟩ | ⟨hack, -⟩ | ⟨hnack, hlt⟩
            · cases hcnp
            · cases hack
            · rw [Feedback.nack.inj hnack]
              exact ⟨hlt, rfl⟩)
        have hbegin := (Relation.ReflTransGen.single hstep).tail
          (Flow.Step.begin _ (data.map Packet.seq) _ _ (List.map_subset _ hrest)
            (List.Subset.refl _) (List.Subset.refl _))
        refine (congrArg _ ?_).mp hbegin
        simp only [view, received, hexpected, ackSeqs_append, nackSeqs_append,
          Option.filter_none, Option.map_none]
        rfl

/-! ## All events -/

/-- What the flow does not see of the NIC. -/
theorem Sound.unseen (h : s.Sound c k home) {n : Nic} (hslots : n.Slots k home)
    (htimers : n.Timers c home) (hqueue : n.queue = s.nic.queue)
    (hbuffer : n.sendingBuffer = s.nic.sendingBuffer)
    (hmilestone : n.milestoneTx = s.nic.milestoneTx)
    (hwaiting : n.waitingAck = s.nic.waitingAck) :
    ({ s with nic := n, wire := none } : Link).Sound c k home ∧
      Flow.Steps c A (s.view c k home)
        (({ s with nic := n, wire := none } : Link).view c k home) :=
  h.quiet hslots htimers
    (fun i _ => ⟨by rw [hqueue], by rw [hbuffer], by rw [hmilestone], by rw [hwaiting]⟩)
    rfl rfl (List.Subset.refl _) (List.Subset.refl _) rfl

/-- The network loses and doubles what is in flight. -/
theorem Sound.inFlight (h : s.Sound c k home) {data : List Packet} {feedback : List Feedback}
    (hdata : data ⊆ s.data) (hfeedback : feedback ⊆ s.feedback) :
    ({ s with data := data, feedback := feedback, wire := none } : Link).Sound c k home ∧
      Flow.Steps c A (s.view c k home)
        (({ s with data := data, feedback := feedback, wire := none } : Link).view c k home) :=
  h.quiet h.slots h.timers (fun _ _ => ⟨rfl, rfl, rfl, rfl⟩) rfl rfl hdata hfeedback rfl

theorem Sound.resumes (hqcn : c.qcnEnabled = true) (h : s.Sound c k home)
    (paused resumeEvt : Fin qCnt → Bool) :
    (s.emit k (Nic.dequeueAndTransmit c
        { s.nic with paused := paused, resumeEvt := resumeEvt })).Sound c k home ∧
      Flow.Steps c A (s.view c k home)
        ((s.emit k (Nic.dequeueAndTransmit c
          { s.nic with paused := paused, resumeEvt := resumeEvt })).view c k home) :=
  Sound.then_transmit hqcn
    (t := { s with nic := { s.nic with paused := paused, resumeEvt := resumeEvt }, wire := none })
    rfl (h.unseen (h.slots.congr rfl rfl rfl rfl) (h.timers.congr rfl rfl rfl rfl rfl)
      rfl rfl rfl rfl)

theorem Sound.receivePause (hqcn : c.qcnEnabled = true) (h : s.Sound c k home)
    (pauseh : PauseHeader) :
    (s.emit k (s.nic.receivePause c pauseh)).Sound c k home ∧
      Flow.Steps c A (s.view c k home)
        ((s.emit k (s.nic.receivePause c pauseh)).view c k home) := by
  unfold Nic.receivePause
  split
  · rw [emit_none]
    exact h.unseen h.slots h.timers rfl rfl rfl rfl
  · dsimp only
    split
    · rw [emit_none]
      exact h.unseen (h.slots.congr rfl rfl rfl rfl) (h.timers.congr rfl rfl rfl rfl rfl)
        rfl rfl rfl rfl
    · exact h.resumes hqcn _ _

/-- Time does not pass the deadline of the flow. -/
theorem Sound.advance (hport : k.port ≠ 0) (h : s.Sound c k home) {time : Nat}
    (hmay : s.mayAdvance k time = true) :
    ({ s with nic := { s.nic with now := time }, wire := none } : Link).Sound c k home ∧
      Flow.Steps c A (s.view c k home)
        (({ s with nic := { s.nic with now := time }, wire := none } : Link).view c k home) := by
  unfold mayAdvance at hmay
  rw [Bool.and_eq_true, decide_eq_true_eq, findex, h.slots.findFlow_eq hport] at hmay
  refine h.unseen (h.slots.congr rfl rfl rfl rfl)
    ⟨h.timers.waiting_iff, h.timers.inUse, ?_⟩ rfl rfl rfl rfl
  intro hpatient i deadline hhome hdeadline
  have hlimit := hmay.2
  rw [hhome, Option.bind_some, hdeadline, Option.all_some, decide_eq_true_eq] at hlimit
  exact ⟨hlimit, (h.timers.gate hpatient i deadline hhome hdeadline).2⟩

theorem Sound.otherData (hback : c.backto0 = false) (h : s.Sound c k home) {a : Arrival}
    (hkey : Receiver.key a.packet ≠ k) {receiver : Receiver}
    (hreceive : s.receiver.step c.toRxConfig a = some receiver) :
    ({ s with receiver := receiver, wire := none } : Link).Sound c k home ∧
      Flow.Steps c A (s.view c k home)
        (({ s with receiver := receiver, wire := none } : Link).view c k home) := by
  refine h.quiet h.slots h.timers (fun _ _ => ⟨rfl, rfl, rfl, rfl⟩) rfl ?_
    (List.Subset.refl _) (List.Subset.refl _) rfl
  cases hcorrupt : a.corrupt with
  | true => rw [Receiver.step_corrupt hreceive hcorrupt]
  | false =>
      rw [Receiver.step_expected hback hreceive hcorrupt, if_neg fun hk => hkey hk.1.symm]

/-- Every event is a sequence of steps of the flow. -/
theorem Sound.step (hqcn : c.qcnEnabled = true) (hback : c.backto0 = false)
    (hport : k.port ≠ 0) (hclass : k.qIndex ≠ 7) (h : s.Sound c k home) {event : Event}
    {next : Link} (hstep : s.step c k event = some next)
    (hadmits : ∀ p, event = .send p → k.Owns p → ∀ taken, (s.HasRoom k p → taken = true) →
      A ({ s with wire := none }.view c k home) taken) :
    ∃ home', next.Sound c k home' ∧
      Flow.Steps c A (s.view c k home) (next.view c k home') ∧
        ∀ i, home = some i → home' = some i := by
  have hkept : ∀ {next : Link}, (next.Sound c k home ∧
      Flow.Steps c A (s.view c k home) (next.view c k home)) → ∃ home', next.Sound c k home' ∧
        Flow.Steps c A (s.view c k home) (next.view c k home') ∧
          ∀ i, home = some i → home' = some i :=
    fun hnext => ⟨home, hnext.1, hnext.2, fun _ hi => hi⟩
  cases event with
  | send p =>
      rw [Link.step] at hstep
      split at hstep
      next hmay =>
        rw [Option.map_eq_some_iff] at hstep
        obtain ⟨result, hsend, rfl⟩ := hstep
        obtain ⟨home', hnext, hsteps, -, hkeep⟩ :=
          h.send hqcn hport hclass hmay hsend (hadmits p rfl)
        exact ⟨home', hnext, hsteps, hkeep⟩
      next => cases hstep
  | control p =>
      rw [Link.step] at hstep
      split at hstep
      next hprotocol =>
        obtain rfl := Option.some.inj hstep
        exact hkept (h.control hqcn fun howns => hprotocol howns.1)
      next => cases hstep
  | transmitComplete =>
      rw [Link.step] at hstep
      split at hstep
      · obtain rfl := Option.some.inj hstep
        exact hkept (Sound.then_transmit hqcn rfl
          (h.unseen (n := { s.nic with currentPkt := none }) (h.slots.congr rfl rfl rfl rfl)
            (h.timers.congr rfl rfl rfl rfl rfl) rfl rfl rfl rfl))
      · cases hstep
  | nextSend =>
      rw [Link.step] at hstep
      split at hstep
      · obtain rfl := Option.some.inj hstep
        exact hkept (Sound.then_transmit hqcn rfl
          (h.unseen (n := { s.nic with nextSend := none }) (h.slots.congr rfl rfl rfl rfl)
            (h.timers.congr rfl rfl rfl rfl rfl) rfl rfl rfl rfl))
      · cases hstep
  | retransmit findex =>
      rw [Link.step] at hstep
      split at hstep
      next hdue =>
        rw [Option.map_eq_some_iff] at hstep
        obtain ⟨result, hretransmit, rfl⟩ := hstep
        refine hkept (h.retransmit hqcn ?_ hretransmit)
        intro hnone
        rw [hnone] at hdue
        cases hdue
      next => cases hstep
  | pause pauseh =>
      obtain rfl := Option.some.inj hstep
      exact hkept (h.receivePause hqcn pauseh)
  | pauseFinish qIndex =>
      rw [Link.step] at hstep
      split at hstep
      · obtain rfl := Option.some.inj hstep
        exact hkept (h.resumes hqcn _ _)
      · cases hstep
  | rateTimer fIndex =>
      obtain rfl := Option.some.inj hstep
      rw [emit_none]
      exact hkept (h.unseen (h.slots.congr rfl rfl rfl rfl)
        (h.timers.congr rfl rfl rfl rfl rfl) rfl rfl rfl rfl)
  | alphaTimer fIndex =>
      obtain rfl := Option.some.inj hstep
      rw [emit_none]
      exact hkept (h.unseen (h.slots.congr rfl rfl rfl rfl)
        (h.timers.congr rfl rfl rfl rfl rfl) rfl rfl rfl rfl)
  | advance time =>
      rw [Link.step] at hstep
      split at hstep
      next hmay =>
        obtain rfl := Option.some.inj hstep
        rw [emit_none]
        exact hkept (h.advance hport hmay)
      next => cases hstep
  | deliverData n corrupt corruptAgain indeterminate =>
      change (s.data[n]?.bind _) = some next at hstep
      rw [Option.bind_eq_some_iff] at hstep
      obtain ⟨p, hp, hstep⟩ := hstep
      rw [Option.map_eq_some_iff] at hstep
      obtain ⟨result, hreceive, rfl⟩ := hstep
      exact hkept (h.receive hback (List.mem_of_getElem? hp) hreceive
        (List.eraseIdx_sublist _ _).subset)
  | loseData n =>
      rw [Link.step] at hstep
      split at hstep
      · obtain rfl := Option.some.inj hstep
        exact hkept (h.inFlight (List.eraseIdx_sublist _ _).subset (List.Subset.refl _))
      · cases hstep
  | duplicateData n =>
      change s.data[n]?.map _ = some next at hstep
      rw [Option.map_eq_some_iff] at hstep
      obtain ⟨p, hp, rfl⟩ := hstep
      refine hkept (h.inFlight ?_ (List.Subset.refl _))
      exact List.append_subset.mpr ⟨List.Subset.refl _,
        List.cons_subset.mpr ⟨List.mem_of_getElem? hp, List.nil_subset _⟩⟩
  | deliverFeedback n =>
      change (s.feedback[n]?.bind _) = some next at hstep
      rw [Option.bind_eq_some_iff] at hstep
      obtain ⟨f, hf, hstep⟩ := hstep
      rw [Option.map_eq_some_iff] at hstep
      obtain ⟨result, hresult, rfl⟩ := hstep
      exact hkept (h.receiveFeedback hqcn hback hresult (fun _ => List.mem_of_getElem? hf)
        (List.eraseIdx_sublist _ _).subset)
  | loseFeedback n =>
      rw [Link.step] at hstep
      split at hstep
      · obtain rfl := Option.some.inj hstep
        exact hkept (h.inFlight (List.Subset.refl _) (List.eraseIdx_sublist _ _).subset)
      · cases hstep
  | duplicateFeedback n =>
      change s.feedback[n]?.map _ = some next at hstep
      rw [Option.map_eq_some_iff] at hstep
      obtain ⟨f, hf, rfl⟩ := hstep
      refine hkept (h.inFlight (List.Subset.refl _) ?_)
      exact List.append_subset.mpr ⟨List.Subset.refl _,
        List.cons_subset.mpr ⟨List.mem_of_getElem? hf, List.nil_subset _⟩⟩
  | otherData a =>
      rw [Link.step] at hstep
      split at hstep
      · cases hstep
      next hkey =>
        rw [Option.map_eq_some_iff] at hstep
        obtain ⟨receiver, hreceive, rfl⟩ := hstep
        exact hkept (h.otherData hback hkey hreceive)
  | otherFeedback f =>
      rw [Link.step] at hstep
      split at hstep
      · cases hstep
      next hother =>
        rw [Option.map_eq_some_iff] at hstep
        obtain ⟨result, hresult, rfl⟩ := hstep
        exact hkept (h.receiveFeedback hqcn hback hresult (fun hnames => absurd hnames hother)
          (List.Subset.refl _))

theorem start_sound (hport : k.port ≠ 0) (maxBytes : ℚ) : (start c maxBytes).Sound c k none where
  slots :=
    { used_iff := by
        intro j hj
        have hval := Fin.val_ne_of_ne hj
        simp only [start, Nic.start, BEgressQueue.start, Fin.val_zero] at hval ⊢
        refine iff_of_false ?_ fun hne => hne rfl
        omega
      home_iff := fun j =>
        iff_of_false (Option.some_ne_none j).symm fun h => hport h.2.1.symm
      queues := fun j p hp => by cases hp
      buffers := fun j buffer hbuffer => by cases hbuffer
      home_buffer := fun i hi => by cases hi }
  timers :=
    { waiting_iff := fun j => by simp [start, Nic.start]
      inUse := fun j hwaiting => by cases hwaiting
      gate := fun _ _ _ hhome => by cases hhome }
  data := fun p hp => by cases hp
  feedback := fun f hf => by cases hf

/-- The flow may send what the event sends. -/
def Admits (c : NicConfig) (k : FlowKey) (A : Flow → Bool → Prop) (s : Link)
    (event : Event) : Prop :=
  ∀ p, event = .send p → k.Owns p → ∀ taken, (s.HasRoom k p → taken = true) →
    A ({ s with wire := none }.view c k (s.findex k)) taken

theorem Sound.findex_eq (h : s.Sound c k home) (hport : k.port ≠ 0) : s.findex k = home :=
  h.slots.findFlow_eq hport

/-- A sound link of whose flow something holds. -/
def Satisfies (c : NicConfig) (k : FlowKey) (I : Flow → Prop) (s : Link) : Prop :=
  s.Sound c k (s.findex k) ∧ I (s.view c k (s.findex k))

/-- An invariant of the steps of the flow holds after every event whose packet the flow may
send. -/
theorem Satisfies.step (hqcn : c.qcnEnabled = true) (hback : c.backto0 = false)
    (hport : k.port ≠ 0) (hclass : k.qIndex ≠ 7) {I : Flow → Prop}
    (hkeep : ∀ f g, I f → Flow.Step c A f g → I g) (h : s.Satisfies c k I) {event : Event}
    {next : Link} (hstep : s.step c k event = some next) (hadmits : s.Admits c k A event) :
    next.Satisfies c k I := by
  obtain ⟨hsound, hflow⟩ := h
  obtain ⟨home', hnext, hsteps, -⟩ := hsound.step hqcn hback hport hclass hstep hadmits
  unfold Satisfies
  rw [hnext.findex_eq hport]
  exact ⟨hnext, hsteps.invariant hkeep hflow⟩

theorem start_satisfies (hport : k.port ≠ 0) {I : Flow → Prop} (hI : I (.start c))
    (maxBytes : ℚ) : (start c maxBytes).Satisfies c k I := by
  have hsound := start_sound (c := c) hport maxBytes
  unfold Satisfies
  rw [hsound.findex_eq hport]
  exact ⟨hsound, hI⟩

end Link

end Ns3Rdma
