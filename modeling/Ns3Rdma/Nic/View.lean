import Ns3Rdma.Nic.Answers
import Ns3Rdma.Nic.Flow
import Ns3Rdma.Nic.Link
import Ns3Rdma.Nic.Transmit

/-! # One flow of the link

What the flow relies on: its packets are at one index of the NIC and nowhere else, and while
it waits its retransmission is due before its next transmission. Transmitting a frame keeps
this, and is at most one step of the flow. -/

namespace Ns3Rdma

/-- What occupies the indices of a NIC. `home` is the index of the flow, if it has one; packets
of the flow are there and nowhere else. -/
structure Nic.Slots (k : FlowKey) (home : Option (Fin fCnt)) (s : Nic) : Prop where
  used_iff : ∀ j : Fin fCnt, j ≠ 0 → (j.val < s.queue.fcount ↔ s.findexUdpportMap j ≠ 0)
  home_iff : ∀ j, home = some j ↔
    j ≠ 0 ∧ s.findexUdpportMap j = k.port ∧ s.findexQindexMap j = k.qIndex
  queues : ∀ j, ∀ p ∈ (s.queue.queues j).packets,
    j.val < s.queue.fcount ∧ (k.Owns p ↔ home = some j)
  buffers : ∀ j buffer, s.sendingBuffer j = some buffer → j.val < s.queue.fcount ∧
    buffer.packets.length ≤ 8000 ∧ ∀ p ∈ buffer.packets, (k.Owns p ↔ home = some j)
  home_buffer : ∀ i, home = some i → s.sendingBuffer i ≠ none

/-- A flow waits exactly while its retransmission is pending. The flow at `home` is not served
before that. -/
structure Nic.Timers (c : NicConfig) (home : Option (Fin fCnt)) (s : Nic) : Prop where
  waiting_iff : ∀ j, s.waitingAck j = true ↔ s.retransmitEvt j ≠ none
  inUse : ∀ j, s.waitingAck j = true → j.val < s.queue.fcount
  gate : c.Patient → ∀ i deadline, home = some i → s.retransmitEvt i = some deadline →
    s.now ≤ deadline ∧ deadline < s.nextAvail i

/-- The state of a link as far as the flow relies on it. -/
structure Link.Sound (c : NicConfig) (k : FlowKey) (home : Option (Fin fCnt)) (s : Link) :
    Prop where
  slots : s.nic.Slots k home
  timers : s.nic.Timers c home
  data : ∀ p ∈ s.data, k.Owns p
  feedback : ∀ f ∈ s.feedback, (∃ cnHead, f = .cnp cnHead) ∨ k.Names f

namespace Link

/-- The numbers that the ACKs carry. -/
def ackSeqs (feedback : List Feedback) : List UInt32 :=
  feedback.filterMap fun f =>
    match f with
    | .ack qbbh => some qbbh.seq
    | _ => none

/-- The numbers that the NACKs carry. -/
def nackSeqs (feedback : List Feedback) : List UInt32 :=
  feedback.filterMap fun f =>
    match f with
    | .nack qbbh => some qbbh.seq
    | _ => none

variable (c : NicConfig) (k : FlowKey) (home : Option (Fin fCnt))

/-- The flow with index `home`, or a flow that has none yet. -/
def view (s : Link) : Flow where
  sent := s.sent
  buffer := ((home.bind s.nic.sendingBuffer).elim [] DropTailQueue.packets).map Packet.seq
  queue := (home.elim [] fun i => (s.nic.queue.queues i).packets).map Packet.seq
  milestone := if c.waitAck then home.elim c.chunk s.nic.milestoneTx else 0
  waiting := home.elim false s.nic.waitingAck
  expected := s.receiver.expected k
  data := s.data.map Packet.seq
  acks := ackSeqs s.feedback
  nacks := nackSeqs s.feedback
  wire := (s.wire.filter fun p => k.Owns p).map Packet.seq

/-- Both the egress queue and the FIFO of the flow have room for the packet. -/
def HasRoom (s : Link) (p : Packet) : Prop :=
  s.nic.queue.accepts p = true ∧ ∀ i, s.findex k = some i →
    byteSize (s.nic.queue.queues i).packets + p.size.toNat < 30000 * 65535

section InFlight

variable {feedback : List Feedback} {seq : UInt32}

theorem mem_ackSeqs : seq ∈ ackSeqs feedback ↔ ∃ qbbh, .ack qbbh ∈ feedback ∧ qbbh.seq = seq := by
  unfold ackSeqs
  rw [List.mem_filterMap]
  constructor
  · rintro ⟨f, hf, hseq⟩
    cases f with
    | ack qbbh => exact ⟨qbbh, hf, Option.some.inj hseq⟩
    | nack qbbh => cases hseq
    | cnp cnHead => cases hseq
  · rintro ⟨qbbh, hf, rfl⟩
    exact ⟨.ack qbbh, hf, rfl⟩

theorem mem_nackSeqs :
    seq ∈ nackSeqs feedback ↔ ∃ qbbh, .nack qbbh ∈ feedback ∧ qbbh.seq = seq := by
  unfold nackSeqs
  rw [List.mem_filterMap]
  constructor
  · rintro ⟨f, hf, hseq⟩
    cases f with
    | ack qbbh => cases hseq
    | nack qbbh => exact ⟨qbbh, hf, Option.some.inj hseq⟩
    | cnp cnHead => cases hseq
  · rintro ⟨qbbh, hf, rfl⟩
    exact ⟨.nack qbbh, hf, rfl⟩

theorem ackSeqs_append (first second : List Feedback) :
    ackSeqs (first ++ second) = ackSeqs first ++ ackSeqs second :=
  List.filterMap_append

theorem nackSeqs_append (first second : List Feedback) :
    nackSeqs (first ++ second) = nackSeqs first ++ nackSeqs second :=
  List.filterMap_append

theorem ackSeqs_subset {kept : List Feedback} (h : kept ⊆ feedback) :
    ackSeqs kept ⊆ ackSeqs feedback := by
  intro seq hseq
  obtain ⟨qbbh, hmem, hseq⟩ := mem_ackSeqs.mp hseq
  exact mem_ackSeqs.mpr ⟨qbbh, h hmem, hseq⟩

theorem nackSeqs_subset {kept : List Feedback} (h : kept ⊆ feedback) :
    nackSeqs kept ⊆ nackSeqs feedback := by
  intro seq hseq
  obtain ⟨qbbh, hmem, hseq⟩ := mem_nackSeqs.mp hseq
  exact mem_nackSeqs.mpr ⟨qbbh, h hmem, hseq⟩

end InFlight

end Link

namespace Nic

variable {c : NicConfig} {k : FlowKey} {home : Option (Fin fCnt)} {s t : Nic}

theorem Slots.home_ne_zero (h : s.Slots k home) {i : Fin fCnt} (hi : home = some i) : i ≠ 0 :=
  ((h.home_iff i).mp hi).1

theorem Slots.home_lt (h : s.Slots k home) (hport : k.port ≠ 0) {i : Fin fCnt}
    (hi : home = some i) : i.val < s.queue.fcount := by
  obtain ⟨hne, hmap, -⟩ := (h.home_iff i).mp hi
  rw [h.used_iff i hne, hmap]
  exact hport

/-- Feedback of the flow finds its index. -/
theorem Slots.findFlow_eq (h : s.Slots k home) (hport : k.port ≠ 0) :
    s.findFlow k.port k.qIndex = home := by
  have hfound : ∀ j, ((j ≠ 0 : Bool) && decide (j.val < s.queue.fcount) &&
      s.findexUdpportMap j == k.port && s.findexQindexMap j == k.qIndex) = true ↔
        home = some j := by
    intro j
    rw [h.home_iff]
    simp only [Bool.and_eq_true, decide_eq_true_eq, beq_iff_eq, ne_eq, and_assoc]
    constructor
    · rintro ⟨hne, -, hmap⟩
      exact ⟨hne, hmap⟩
    · rintro ⟨hne, hmap⟩
      exact ⟨hne, (h.used_iff j hne).mpr (by rw [hmap.1]; exact hport), hmap⟩
  cases hfind : s.findFlow k.port k.qIndex with
  | some i =>
      have hsome := List.find?_some hfind
      exact ((hfound i).mp hsome).symm
  | none =>
      cases hhome : home with
      | none => rfl
      | some i =>
          have hnot := List.find?_eq_none.mp hfind i (List.mem_finRange i)
          exact absurd ((hfound i).mpr hhome) hnot

/-- Feedback that names another flow finds another index. -/
theorem Slots.findFlow_ne (h : s.Slots k home) {port : UInt16} {qIndex : Fin qCnt} {j : Fin fCnt}
    (hother : ¬ (port = k.port ∧ qIndex = k.qIndex)) (hj : s.findFlow port qIndex = some j) :
    home ≠ some j := by
  have hfound := List.find?_some hj
  simp only [Bool.and_eq_true, beq_iff_eq, decide_eq_true_eq] at hfound
  intro hhome
  obtain ⟨-, hport, hqIndex⟩ := (h.home_iff j).mp hhome
  exact hother ⟨hfound.1.2.symm.trans hport, hfound.2.symm.trans hqIndex⟩

/-- The slots stay sound when queues and buffers only lose packets, or take them from their
own buffer. -/
theorem Slots.shrink (h : s.Slots k home) (hfcount : t.queue.fcount = s.queue.fcount)
    (hport : t.findexUdpportMap = s.findexUdpportMap)
    (hqIndex : t.findexQindexMap = s.findexQindexMap)
    (hqueues : ∀ j, ∀ p ∈ (t.queue.queues j).packets, p ∈ (s.queue.queues j).packets ∨
      ∃ buffer, s.sendingBuffer j = some buffer ∧ p ∈ buffer.packets)
    (hbuffers : ∀ j buffer, t.sendingBuffer j = some buffer →
      ∃ larger, s.sendingBuffer j = some larger ∧ buffer.packets.Sublist larger.packets)
    (hsome : ∀ j, s.sendingBuffer j ≠ none → t.sendingBuffer j ≠ none) : t.Slots k home where
  used_iff := by
    rw [hfcount, hport]
    exact h.used_iff
  home_iff := by
    rw [hport, hqIndex]
    exact h.home_iff
  queues := by
    intro j p hp
    rw [hfcount]
    rcases hqueues j p hp with hp | ⟨buffer, hbuffer, hp⟩
    · exact h.queues j p hp
    · obtain ⟨hlt, -, howns⟩ := h.buffers j buffer hbuffer
      exact ⟨hlt, howns p hp⟩
  buffers := by
    intro j buffer hbuffer
    rw [hfcount]
    obtain ⟨larger, hlarger, hsub⟩ := hbuffers j buffer hbuffer
    obtain ⟨hlt, hlength, howns⟩ := h.buffers j larger hlarger
    exact ⟨hlt, hsub.length_le.trans hlength, fun p hp => howns p (hsub.subset hp)⟩
  home_buffer := fun i hi => hsome i (h.home_buffer i hi)

/-- Fields that the slots do not depend on. -/
theorem Slots.congr (h : s.Slots k home) (hqueue : t.queue = s.queue)
    (hport : t.findexUdpportMap = s.findexUdpportMap)
    (hqIndex : t.findexQindexMap = s.findexQindexMap)
    (hbuffer : t.sendingBuffer = s.sendingBuffer) : t.Slots k home := by
  apply h.shrink (by rw [hqueue]) hport hqIndex
  · intro j p hp
    rw [hqueue] at hp
    exact Or.inl hp
  · intro j buffer hj
    rw [hbuffer] at hj
    exact ⟨buffer, hj, List.Sublist.refl _⟩
  · intro j hj
    rwa [hbuffer]

theorem Timers.congr (h : s.Timers c home) (hfcount : t.queue.fcount = s.queue.fcount)
    (hwaiting : t.waitingAck = s.waitingAck) (hevt : t.retransmitEvt = s.retransmitEvt)
    (hnow : t.now = s.now) (havail : t.nextAvail = s.nextAvail) : t.Timers c home where
  waiting_iff := by
    rw [hwaiting, hevt]
    exact h.waiting_iff
  inUse := by
    rw [hwaiting, hfcount]
    exact h.inUse
  gate := by
    rw [hevt, hnow, havail]
    exact h.gate

/-- The buffer of one index loses packets, and its queue may be filled from it. -/
theorem Slots.trim (h : s.Slots k home) {j : Fin fCnt} {buffer kept : DropTailQueue}
    (hbuffer : s.sendingBuffer j = some buffer) (hkept : kept.packets.Sublist buffer.packets)
    (hfcount : t.queue.fcount = s.queue.fcount)
    (hport : t.findexUdpportMap = s.findexUdpportMap)
    (hqIndex : t.findexQindexMap = s.findexQindexMap)
    (hqueues : ∀ i, ∀ p ∈ (t.queue.queues i).packets,
      p ∈ (s.queue.queues i).packets ∨ i = j ∧ p ∈ kept.packets)
    (hbuffers : t.sendingBuffer = Function.update s.sendingBuffer j (some kept)) :
    t.Slots k home := by
  apply h.shrink hfcount hport hqIndex
  · intro i p hp
    rcases hqueues i p hp with hp | ⟨rfl, hp⟩
    · exact Or.inl hp
    · exact Or.inr ⟨buffer, hbuffer, hkept.subset hp⟩
  · intro i smaller hi
    rw [hbuffers] at hi
    by_cases hij : i = j
    · subst hij
      rw [Function.update_self] at hi
      obtain rfl := Option.some.inj hi
      exact ⟨buffer, hbuffer, hkept⟩
    · rw [Function.update_of_ne hij] at hi
      exact ⟨smaller, hi, List.Sublist.refl _⟩
  · intro i hi
    rw [hbuffers]
    by_cases hij : i = j
    · subst hij
      rw [Function.update_self]
      exact Option.some_ne_none _
    · rwa [Function.update_of_ne hij]

theorem Slots.recover (h : s.Slots k home) {j : Fin fCnt} {buffer kept : DropTailQueue}
    (hbuffer : s.sendingBuffer j = some buffer) (hkept : kept.packets.Sublist buffer.packets) :
    (s.recover j kept).Slots k home := by
  have hlength : kept.packets.length ≤ 8000 :=
    hkept.length_le.trans (h.buffers j buffer hbuffer).2.1
  apply h.trim (t := s.recover j kept) hbuffer hkept (recover_fcount hlength) rfl rfl
  · intro i p hp
    rw [recover_queues hlength] at hp
    by_cases hi : i = j
    · subst hi
      rw [Function.update_self] at hp
      exact Or.inr ⟨rfl, hp⟩
    · rw [Function.update_of_ne hi] at hp
      exact Or.inl hp
  · exact recover_sendingBuffer hlength

theorem Slots.stopWaiting (h : s.Slots k home) (j : Fin fCnt) : (s.stopWaiting j).Slots k home :=
  h.congr (t := s.stopWaiting j) rfl rfl rfl rfl

theorem Timers.recover (h : s.Timers c home) {j : Fin fCnt} {kept : DropTailQueue}
    (hlength : kept.packets.length ≤ 8000) : (s.recover j kept).Timers c home :=
  h.congr (t := s.recover j kept) (recover_fcount hlength) rfl rfl rfl rfl

theorem Timers.stopWaiting (h : s.Timers c home) (j : Fin fCnt) :
    (s.stopWaiting j).Timers c home where
  waiting_iff := by
    intro i
    by_cases hi : i = j
    · subst hi
      simp [Nic.stopWaiting]
    · simp only [Nic.stopWaiting, Function.update_of_ne hi]
      exact h.waiting_iff i
  inUse := by
    intro i hwaiting
    by_cases hi : i = j
    · subst hi
      simp [Nic.stopWaiting] at hwaiting
    · simp only [Nic.stopWaiting, Function.update_of_ne hi] at hwaiting
      exact h.inUse i hwaiting
  gate := by
    intro hpatient i deadline hhome hdeadline
    by_cases hi : i = j
    · subst hi
      simp [Nic.stopWaiting] at hdeadline
    · simp only [Nic.stopWaiting, Function.update_of_ne hi] at hdeadline ⊢
      exact h.gate hpatient i deadline hhome hdeadline

/-! ## Transmission -/

/-- A patient sender does not serve the flow while it waits. -/
theorem Serves.not_waiting {i : Fin fCnt} {p : Packet} {rest : DropTailQueue}
    (hserves : s.Serves i p rest) (hslots : s.Slots k home) (htimers : s.Timers c home)
    (hhome : home = some i) (hpatient : c.Patient) : s.waitingAck i = false := by
  rw [← Bool.not_eq_true, htimers.waiting_iff]
  intro hpending
  obtain ⟨deadline, hdeadline⟩ := Option.ne_none_iff_exists'.mp hpending
  have hgate := htimers.gate hpatient i deadline hhome hdeadline
  have hready := (hserves.ready (hslots.home_ne_zero hhome)).2
  omega

theorem Slots.served (h : s.Slots k home) {i : Fin fCnt} {p : Packet} {rest : DropTailQueue}
    (hserves : s.Serves i p rest) : (s.served c i p rest).Slots k home := by
  apply h.shrink (t := s.served c i p rest) rfl rfl rfl
  · intro j q hq
    rw [served_queue, BEgressQueue.removed_queues] at hq
    by_cases hj : j = i
    · subst hj
      rw [Function.update_self] at hq
      left
      rw [hserves.head]
      exact List.mem_cons_of_mem p hq
    · rw [Function.update_of_ne hj] at hq
      exact Or.inl hq
  · exact fun j buffer hj => ⟨buffer, hj, List.Sublist.refl _⟩
  · exact fun j hj => hj

theorem served_waitingAck_self (s : Nic) (i : Fin fCnt) (p : Packet) (rest : DropTailQueue) :
    (s.served c i p rest).waitingAck i = (s.closesWindow c i p || s.waitingAck i) := by
  rw [served_waitingAck]
  cases s.closesWindow c i p with
  | true => rw [if_pos rfl, Function.update_self, Bool.true_or]
  | false => rw [if_neg Bool.false_ne_true, Bool.false_or]

theorem served_waitingAck_of_ne (s : Nic) {i j : Fin fCnt} (hj : j ≠ i) (p : Packet)
    (rest : DropTailQueue) : (s.served c i p rest).waitingAck j = s.waitingAck j := by
  rw [served_waitingAck]
  split
  · exact Function.update_of_ne hj _ _
  · rfl

theorem served_retransmitEvt_of_ne (s : Nic) {i j : Fin fCnt} (hj : j ≠ i) (p : Packet)
    (rest : DropTailQueue) : (s.served c i p rest).retransmitEvt j = s.retransmitEvt j := by
  rw [served_retransmitEvt]
  split
  · exact Function.update_of_ne hj _ _
  · rfl

/-- Closing the window starts the timer, unless it runs already. -/
theorem served_retransmitEvt_self (s : Nic) (i : Fin fCnt) (p : Packet) (rest : DropTailQueue) :
    (s.served c i p rest).retransmitEvt i =
      if s.closesWindow c i p && !s.waitingAck i then
        some (s.now + microSeconds c.waitAckTimer)
      else s.retransmitEvt i := by
  rw [served_retransmitEvt]
  split
  · exact Function.update_self _ _ _
  · rfl

theorem Timers.served (htimers : s.Timers c home) (hslots : s.Slots k home) {i : Fin fCnt}
    {p : Packet} {rest : DropTailQueue} (hserves : s.Serves i p rest) :
    (s.served c i p rest).Timers c home where
  waiting_iff := by
    intro j
    by_cases hj : j = i
    · subst hj
      have hiff := htimers.waiting_iff j
      rw [served_waitingAck_self, served_retransmitEvt_self]
      cases s.closesWindow c j p with
      | false => simpa using hiff
      | true =>
          cases hwaiting : s.waitingAck j with
          | false => simp
          | true => simpa [hwaiting] using hiff
    · rw [served_waitingAck_of_ne s hj, served_retransmitEvt_of_ne s hj]
      exact htimers.waiting_iff j
  inUse := by
    intro j hwaiting
    by_cases hj : j = i
    · subst hj
      exact hserves.inUse
    · rw [served_waitingAck_of_ne s hj] at hwaiting
      exact htimers.inUse j hwaiting
  gate := by
    intro hpatient j deadline hhome hdeadline
    by_cases hj : j = i
    · subst hj
      have hidle := hserves.not_waiting hslots htimers hhome hpatient
      rw [served_retransmitEvt_self, hidle] at hdeadline
      cases hcloses : s.closesWindow c j p with
      | true =>
          rw [hcloses] at hdeadline
          obtain rfl := Option.some.inj hdeadline
          rw [served_nextAvail_of_closesWindow c s j p rest hcloses, served_now]
          have htimer := hpatient.2
          omega
      | false =>
          rw [hcloses, if_neg (by simp)] at hdeadline
          have hpending := (htimers.waiting_iff j).mpr (by
            rw [hdeadline]
            exact Option.some_ne_none _)
          rw [hidle] at hpending
          cases hpending
    · rw [served_retransmitEvt_of_ne s hj] at hdeadline
      rw [served_nextAvail_of_ne c s i p rest hj, served_now]
      exact htimers.gate hpatient j deadline hhome hdeadline

end Nic

namespace Link

variable {c : NicConfig} {k : FlowKey} {home : Option (Fin fCnt)} {s t : Link}
  {A : Flow → Bool → Prop}

/-- The flow sees of the device only what belongs to its index. -/
theorem view_nic_congr {n : Nic} (h : ∀ i, home = some i →
      n.queue.queues i = s.nic.queue.queues i ∧ n.sendingBuffer i = s.nic.sendingBuffer i ∧
        n.milestoneTx i = s.nic.milestoneTx i ∧ n.waitingAck i = s.nic.waitingAck i) :
    ({ s with nic := n }).view c k home = s.view c k home := by
  unfold view
  cases home with
  | none => rfl
  | some i =>
      obtain ⟨hqueue, hbuffer, hmilestone, hwaiting⟩ := h i rfl
      simp only [Option.elim_some, Option.bind_some, hqueue, hbuffer, hmilestone, hwaiting]

theorem emit_none (s : Link) (n : Nic) :
    s.emit k (n, none) = { s with nic := n, wire := none } := by
  simp [emit]

theorem emit_owned (s : Link) (n : Nic) {p : Packet} (howns : k.Owns p) :
    s.emit k (n, some p) = { s with nic := n, data := s.data ++ [p], wire := some p } := by
  simp [emit, howns]

theorem emit_other (s : Link) (n : Nic) {p : Packet} (howns : ¬ k.Owns p) :
    s.emit k (n, some p) = { s with nic := n, wire := some p } := by
  simp [emit, howns]

/-- The flow's packet that is served goes on the wire. -/
theorem view_served_home {i : Fin fCnt} {p : Packet} {rest : DropTailQueue}
    (h : s.Sound c k home) (hserves : s.nic.Serves i p rest) (hhome : home = some i) :
    Flow.Step c A ({ s with wire := none }.view c k home)
      ((s.emit k (s.nic.served c i p rest, some p)).view c k home) := by
  have hhead : p ∈ (s.nic.queue.queues i).packets := by
    rw [hserves.head]
    exact List.mem_cons_self
  have howns : k.Owns p := (h.slots.queues i p hhead).2.mpr hhome
  have hcloses : s.nic.closesWindow c i p =
      ({ s with wire := none }.view c k home).closesWindow c p.seq := by
    unfold Nic.closesWindow Flow.closesWindow view
    rw [hhome]
    cases hwaitAck : c.waitAck with
    | true => simp [howns.1]
    | false => simp
  have hstep := Flow.Step.transmit (c := c) (A := A)
    ({ s with wire := none }.view c k home) p.seq (rest.packets.map Packet.seq)
    (by
      rw [view, hhome]
      dsimp only [Option.elim_some]
      rw [hserves.head, List.map_cons])
    (fun hpatient => by
      rw [view, hhome]
      exact hserves.not_waiting h.slots h.timers hhome hpatient)
  refine (congrArg _ ?_).mp hstep
  rw [← hcloses, emit_owned s _ howns]
  subst hhome
  simp only [view, Option.elim_some, Option.bind_some, Nic.served_sendingBuffer,
    Nic.served_milestoneTx, Nic.served_queue, BEgressQueue.removed_queues, Function.update_self,
    List.map_append, List.map_cons, List.map_nil, Nic.served_waitingAck_self, Option.filter_some,
    decide_eq_true howns, if_true, Option.map_some]

/-- Serving another index is nothing to the flow. -/
theorem view_served_of_ne {i : Fin fCnt} {p : Packet} {rest : DropTailQueue}
    (h : s.Sound c k home) (hserves : s.nic.Serves i p rest) (hhome : home ≠ some i) :
    (s.emit k (s.nic.served c i p rest, some p)).view c k home =
      { s with wire := none }.view c k home := by
  have hhead : p ∈ (s.nic.queue.queues i).packets := by
    rw [hserves.head]
    exact List.mem_cons_self
  have howns : ¬ k.Owns p := fun howns => hhome ((h.slots.queues i p hhead).2.mp howns)
  have hnic : ({ s with wire := none, nic := s.nic.served c i p rest } : Link).view c k home =
      { s with wire := none }.view c k home := by
    apply view_nic_congr (s := { s with wire := none })
    intro j hj
    have hne : j ≠ i := by
      rintro rfl
      exact hhome hj
    refine ⟨?_, rfl, rfl, Nic.served_waitingAck_of_ne s.nic hne p rest⟩
    rw [Nic.served_queue, BEgressQueue.removed_queues, Function.update_of_ne hne]
  rw [emit_other s _ howns, ← hnic]
  simp only [view, Option.filter_some, decide_eq_false howns, Bool.false_eq_true, if_false,
    Option.map_none, Option.filter_none]

/-- A transmission keeps the link sound, and is at most one step of the flow. -/
theorem Sound.transmit (hqcn : c.qcnEnabled = true) (h : s.Sound c k home) :
    (s.emit k (Nic.dequeueAndTransmit c s.nic)).Sound c k home ∧
      Flow.Steps c A ({ s with wire := none }.view c k home)
        ((s.emit k (Nic.dequeueAndTransmit c s.nic)).view c k home) := by
  rcases Nic.dequeueAndTransmit_cases hqcn s.nic with ⟨t, hresult⟩ | ⟨i, p, rest, hserves, hresult⟩
  · rw [hresult, emit_none]
    exact ⟨⟨h.slots.congr rfl rfl rfl rfl, h.timers.congr rfl rfl rfl rfl rfl, h.data,
      h.feedback⟩, .refl⟩
  · rw [hresult]
    have hslots := h.slots.served (c := c) hserves
    have htimers := h.timers.served h.slots hserves
    by_cases hhome : home = some i
    · refine ⟨?_, .single (view_served_home h hserves hhome)⟩
      have hhead : p ∈ (s.nic.queue.queues i).packets := by
        rw [hserves.head]
        exact List.mem_cons_self
      have howns : k.Owns p := (h.slots.queues i p hhead).2.mpr hhome
      rw [emit_owned s _ howns]
      refine ⟨hslots, htimers, ?_, h.feedback⟩
      intro q hq
      rcases List.mem_append.mp hq with hq | hq
      · exact h.data q hq
      · obtain rfl := List.mem_singleton.mp hq
        exact howns
    · refine ⟨?_, ?_⟩
      · refine ⟨hslots, htimers, ?_, h.feedback⟩
        intro q hq
        rcases List.mem_append.mp hq with hq | hq
        · exact h.data q hq
        · exact of_decide_eq_true (List.mem_filter.mp hq).2
      · rw [view_served_of_ne h hserves hhome]

/-- An event that the flow sees only as a loss or a copy of what is in flight. -/
theorem Sound.quiet (h : s.Sound c k home) (hslots : t.nic.Slots k home)
    (htimers : t.nic.Timers c home)
    (hsame : ∀ i, home = some i → t.nic.queue.queues i = s.nic.queue.queues i ∧
      t.nic.sendingBuffer i = s.nic.sendingBuffer i ∧
        t.nic.milestoneTx i = s.nic.milestoneTx i ∧ t.nic.waitingAck i = s.nic.waitingAck i)
    (hsent : t.sent = s.sent) (hexpected : t.receiver.expected k = s.receiver.expected k)
    (hdata : t.data ⊆ s.data) (hfeedback : t.feedback ⊆ s.feedback) (hwire : t.wire = none) :
    t.Sound c k home ∧ Flow.Steps c A (s.view c k home) (t.view c k home) := by
  refine ⟨⟨hslots, htimers, fun p hp => h.data p (hdata hp),
    fun f hf => h.feedback f (hfeedback hf)⟩, .single ?_⟩
  have hview : t.view c k home = ({ t with nic := s.nic }).view c k home :=
    view_nic_congr (s := { t with nic := s.nic }) hsame
  have hbegin := Flow.Step.begin (c := c) (A := A) (s.view c k home)
    (t.data.map Packet.seq) (ackSeqs t.feedback) (nackSeqs t.feedback) (List.map_subset _ hdata)
    (ackSeqs_subset hfeedback) (nackSeqs_subset hfeedback)
  refine (congrArg _ ?_).mp hbegin
  rw [hview]
  simp only [view, hsent, hexpected, hwire, Option.filter_none, Option.map_none]

/-- Steps of the flow, then a transmission. -/
theorem Sound.then_transmit (hqcn : c.qcnEnabled = true) {f : Flow} (hwire : t.wire = none)
    (h : t.Sound c k home ∧ Flow.Steps c A f (t.view c k home)) :
    (t.emit k (Nic.dequeueAndTransmit c t.nic)).Sound c k home ∧
      Flow.Steps c A f ((t.emit k (Nic.dequeueAndTransmit c t.nic)).view c k home) := by
  obtain ⟨hsound, hsteps⟩ := h
  obtain ⟨hresult, htransmit⟩ := hsound.transmit (A := A) hqcn
  have ht : { t with wire := none } = t := by rw [← hwire]
  rw [ht] at htransmit
  exact ⟨hresult, hsteps.trans htransmit⟩

end Link

end Ns3Rdma
