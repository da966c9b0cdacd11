import Mathlib.Algebra.Order.Floor.Semiring
import Mathlib.Data.NNRat.Floor
import Ns3Rdma.Nic.Answers

/-! # How often a receiver answers with a NACK

The timer and the last number in a NACK are updated only when a NACK is sent. Over any arrivals,
in go-back-N mode, the first packet beyond an expected number is answered at once, and further ones
only when the timer has run out. -/

namespace Ns3Rdma

open StepSystem

/-- `MicroSeconds (m_nack_interval)`: the attribute is a double, the parameter a `uint64_t`. -/
def nackMicroSeconds (m_nack_interval : ℚ≥0) : ℕ := ⌊m_nack_interval⌋₊

/-- The outcomes of the sequence check in go-back-N mode. -/
theorem RxFlow.receiverCheckSeq_cases {c : RxConfig} (hback : c.backto0 = false) {f : RxFlow}
    {seq : UInt32} {now : Nat} {checked : SeqCheck × RxFlow}
    (h : f.receiverCheckSeq c seq now = some checked) :
    (seq = f.receiverNextExpectedSeq ∧ checked.1 ≠ .generateNack ∧
        checked.2.receiverNextExpectedSeq = f.receiverNextExpectedSeq + 1 ∧
        checked.2.lastNACK = f.lastNACK ∧ checked.2.nackTimer = f.nackTimer) ∨
      (f.receiverNextExpectedSeq < seq ∧
        (f.nackTimer < now ∨ f.lastNACK ≠ f.receiverNextExpectedSeq) ∧
        checked = (.generateNack, { f with
          nackTimer := now + microSeconds c.nackInterval
          lastNACK := f.receiverNextExpectedSeq })) ∨
      (f.receiverNextExpectedSeq < seq ∧ now ≤ f.nackTimer ∧
        f.lastNACK = f.receiverNextExpectedSeq ∧ checked = (.gap, f)) ∨
      (¬ f.receiverNextExpectedSeq < seq ∧ seq ≠ f.receiverNextExpectedSeq ∧
        checked = (.duplicate, f)) := by
  unfold receiverCheckSeq at h
  dsimp only at h
  split at h
  next heq =>
    left
    split at h
    · cases h
      exact ⟨heq, by simp, rfl, rfl, rfl⟩
    · split at h
      · cases h
      · split at h
        · cases h
          exact ⟨heq, by simp, rfl, rfl, rfl⟩
        · cases h
          exact ⟨heq, by simp, rfl, rfl, rfl⟩
  next hne =>
    right
    rw [hback, Bool.false_and] at h
    split at h
    next hlt =>
      split at h
      next hdue =>
        cases h
        exact Or.inl ⟨hlt, hdue, rfl⟩
      next hdue =>
        cases h
        rw [not_or, not_not] at hdue
        exact Or.inr (Or.inl ⟨hlt, Nat.le_of_not_lt hdue.1, hdue.2, rfl⟩)
    next hge =>
      cases h
      exact Or.inr (Or.inr ⟨hge, hne, rfl⟩)

theorem RxFlow.nack_notMem_answer {kind : SeqCheck} (hkind : kind ≠ .generateNack) (f : RxFlow)
    (key : FlowKey) (head : QbbHeader) : .nack head ∉ f.answer key kind := by
  cases kind with
  | generateAck => simp [answer]
  | generateNack => exact absurd rfl hkind
  | duplicate => simp [answer]
  | gap => simp [answer]
  | inOrder => simp [answer]

namespace Receiver

/-- The number in the last NACK of a flow, and the time until which it is not repeated. -/
def lastNACK (s : Receiver) (k : FlowKey) : UInt32 := (s.flows k).elim 0xFFFFFFFF RxFlow.lastNACK

def nackTimer (s : Receiver) (k : FlowKey) : Nat := (s.flows k).elim 0 RxFlow.nackTimer

variable {c : RxConfig} {s next : Receiver} {a : Arrival}

theorem lookup_nack {found : Found} (h : s.lookup c a = some found) :
    found.flow.lastNACK = s.lastNACK (key a.packet) ∧
      found.flow.nackTimer = s.nackTimer (key a.packet) := by
  unfold lookup at h
  unfold lastNACK nackTimer
  split at h
  next f hf =>
    cases h
    rw [hf]
    dsimp only
    unfold RxFlow.countEcn
    split <;> exact ⟨rfl, rfl⟩
  next hnone =>
    rw [hnone]
    split at h
    · cases h
      dsimp only
      unfold RxFlow.checkandSendQCN
      split <;> exact ⟨rfl, rfl⟩
    · cases h

/-- The state of NACKs of a flow stays as it was. -/
def SameNacks (s next : Receiver) (k : FlowKey) : Prop :=
  next.lastNACK k = s.lastNACK k ∧ next.nackTimer k = s.nackTimer k

/-- A packet without a NACK: it is corrupt, or expected, or late, or beyond a number for which a
NACK was sent a short time ago. -/
structure Silent (s : Receiver) (a : Arrival) (next : Receiver) (sent : List Feedback) : Prop where
  silent : ∀ head, .nack head ∉ sent
  same : SameNacks s next (key a.packet)
  expected : next.expected (key a.packet) = s.expected (key a.packet) ∨
    a.packet.seq = s.expected (key a.packet) ∧
      next.expected (key a.packet) = s.expected (key a.packet) + 1
  recent : a.corrupt = false → s.expected (key a.packet) < a.packet.seq →
    s.lastNACK (key a.packet) = s.expected (key a.packet)

/-- A packet that a NACK answers. -/
structure Nacked (c : RxConfig) (s : Receiver) (a : Arrival) (next : Receiver)
    (sent : List Feedback) : Prop where
  sound : a.corrupt = false
  beyond : s.expected (key a.packet) < a.packet.seq
  due : s.nackTimer (key a.packet) < a.now ∨
    s.lastNACK (key a.packet) ≠ s.expected (key a.packet)
  expected : next.expected (key a.packet) = s.expected (key a.packet)
  lastNACK : next.lastNACK (key a.packet) = s.expected (key a.packet)
  nackTimer : next.nackTimer (key a.packet) = a.now + microSeconds c.nackInterval
  nacks : ∀ head, .nack head ∈ sent ↔
    head = ⟨a.packet.pg, s.expected (key a.packet), a.packet.sourcePort⟩

/-- The sequence check of a sound arrival, with what it reads and writes. -/
structure Checked (c : RxConfig) (s : Receiver) (a : Arrival) (next : Receiver)
    (sent : List Feedback) (f : RxFlow) (checked : SeqCheck × RxFlow) : Prop where
  check : f.receiverCheckSeq c a.packet.seq a.now = some checked
  expected : f.receiverNextExpectedSeq = s.expected (key a.packet)
  lastNACK : f.lastNACK = s.lastNACK (key a.packet)
  nackTimer : f.nackTimer = s.nackTimer (key a.packet)
  nextExpected : next.expected (key a.packet) = checked.2.receiverNextExpectedSeq
  nextLast : next.lastNACK (key a.packet) = checked.2.lastNACK
  nextTimer : next.nackTimer (key a.packet) = checked.2.nackTimer
  nacks : ∀ head, .nack head ∈ sent ↔ .nack head ∈ checked.2.answer (key a.packet) checked.1

theorem receive_checked {sent : List Feedback} (h : s.receive c a = some (next, sent))
    (hcorrupt : a.corrupt = false) :
    (∀ k, k ≠ key a.packet → next.expected k = s.expected k ∧ SameNacks s next k) ∧
      ∃ f checked, Checked c s a next sent f checked := by
  obtain ⟨found, checked, hlookup, hcheck, hsent⟩ := receive_eq_some h hcorrupt
  obtain ⟨found', checked', hlookup', hcheck', hflows, -⟩ :=
    step_eq_some (step_of_receive h) hcorrupt
  obtain rfl := Option.some.inj (hlookup.symm.trans hlookup')
  obtain rfl := Option.some.inj (hcheck.symm.trans hcheck')
  obtain ⟨hlast, htimer⟩ := lookup_nack hlookup
  constructor
  · intro k hk
    unfold SameNacks expected lastNACK nackTimer
    rw [hflows, Function.update_of_ne hk]
    exact ⟨rfl, rfl, rfl⟩
  · refine ⟨found.flow, checked, hcheck, lookup_expected hlookup, hlast, htimer, ?_, ?_, ?_, ?_⟩
    · rw [expected, hflows, Function.update_self, Option.elim_some]
    · rw [Receiver.lastNACK, hflows, Function.update_self, Option.elim_some]
    · rw [Receiver.nackTimer, hflows, Function.update_self, Option.elim_some]
    · intro head
      -- a search sends congestion notifications only
      have hcnp : .nack head ∉ found.sent := by
        intro hmem
        obtain ⟨cnHead, heq⟩ := lookup_sent hlookup hmem
        cases heq
      dsimp only at hsent
      rw [hsent, List.mem_append]
      exact or_iff_right hcnp

/-- What one arrival does, in go-back-N mode. -/
theorem receive_cases (hback : c.backto0 = false) {sent : List Feedback}
    (h : s.receive c a = some (next, sent)) :
    (∀ k, k ≠ key a.packet → next.expected k = s.expected k ∧ SameNacks s next k) ∧
      (Silent s a next sent ∨ Nacked c s a next sent) := by
  cases hcorrupt : a.corrupt with
  | true =>
      obtain ⟨rfl, rfl⟩ := Prod.mk.inj (receive_corrupt h hcorrupt)
      exact ⟨fun k _ => ⟨rfl, rfl, rfl⟩,
        Or.inl ⟨by simp, ⟨rfl, rfl⟩, Or.inl rfl, by simp [hcorrupt]⟩⟩
  | false =>
      obtain ⟨hothers, f, checked, hchecked⟩ := receive_checked h hcorrupt
      have hexpected := hchecked.expected
      have hsilent : checked.1 ≠ .generateNack → ∀ head, .nack head ∉ sent := by
        intro hkind head hmem
        exact RxFlow.nack_notMem_answer hkind _ _ head ((hchecked.nacks head).mp hmem)
      refine ⟨hothers, ?_⟩
      rcases RxFlow.receiverCheckSeq_cases hback hchecked.check with
        ⟨hseq, hkind, hnext, hsame⟩ | ⟨hlt, hdue, rfl⟩ | ⟨hlt, -, hrecent, rfl⟩ | ⟨hge, -, rfl⟩
      · left
        refine ⟨hsilent hkind,
          ⟨hchecked.nextLast.trans (hsame.1.trans hchecked.lastNACK),
            hchecked.nextTimer.trans (hsame.2.trans hchecked.nackTimer)⟩,
          Or.inr ⟨hseq.trans hexpected,
            hchecked.nextExpected.trans (hnext.trans (by rw [hexpected]))⟩, ?_⟩
        intro _ hlt
        rw [← hexpected, ← hseq] at hlt
        exact absurd hlt (UInt32.lt_irrefl _)
      · right
        refine ⟨hcorrupt, hexpected ▸ hlt, ?_, hchecked.nextExpected.trans hexpected,
          hchecked.nextLast.trans hexpected, hchecked.nextTimer, ?_⟩
        · rwa [hchecked.nackTimer, hchecked.lastNACK, hexpected] at hdue
        · intro head
          rw [hchecked.nacks, RxFlow.answer, List.mem_singleton, Feedback.nack.injEq]
          rw [← hexpected]
          exact Iff.rfl
      · left
        refine ⟨hsilent (by simp), ⟨hchecked.nextLast.trans hchecked.lastNACK,
          hchecked.nextTimer.trans hchecked.nackTimer⟩,
          Or.inl (hchecked.nextExpected.trans hexpected), fun _ _ => ?_⟩
        rw [← hchecked.lastNACK, hrecent, hexpected]
      · left
        refine ⟨hsilent (by simp), ⟨hchecked.nextLast.trans hchecked.lastNACK,
          hchecked.nextTimer.trans hchecked.nackTimer⟩,
          Or.inl (hchecked.nextExpected.trans hexpected), fun _ hlt => ?_⟩
        rw [← hexpected] at hlt
        exact absurd hlt hge

end Receiver

/-! ## Runs -/

/-- One arrival and what it did. -/
structure Exchange where
  arrival : Arrival
  before : Receiver
  sent : List Feedback
  after : Receiver

namespace Exchange

def key (e : Exchange) : FlowKey := Receiver.key e.arrival.packet

/-- The packet arrived sound and out of order. -/
def Beyond (e : Exchange) : Prop :=
  e.arrival.corrupt = false ∧ e.before.expected e.key < e.arrival.packet.seq

/-- It was answered with a NACK of the number. -/
def Nacks (e : Exchange) (value : UInt32) : Prop :=
  .nack ⟨e.arrival.packet.pg, value, e.arrival.packet.sourcePort⟩ ∈ e.sent

end Exchange

/-- A receiver, the time, and all that has arrived, the last packet first. -/
structure NackWorld where
  receiver : Receiver
  now : Nat
  log : List Exchange

namespace NackWorld

def start : NackWorld := ⟨Receiver.start, 0, []⟩

/-- Packets arrive in the order of their times. -/
def step (c : RxConfig) (w : NackWorld) (a : Arrival) : Option NackWorld :=
  if a.now < w.now then none
  else (w.receiver.receive c a).map fun (next, sent) =>
    ⟨next, a.now, ⟨a, w.receiver, sent, next⟩ :: w.log⟩

/-- The NACKs of all flows are monotone, current, prompt, and limited in their rate to one in
`interval` for a number. -/
structure RateLimited (interval : Nat) (log : List Exchange) : Prop where
  monotone : ∀ e ∈ log, ∀ k, e.before.expected k ≤ e.after.expected k
  current : ∀ e ∈ log, ∀ head, .nack head ∈ e.sent →
    head = ⟨e.arrival.packet.pg, e.after.expected e.key, e.arrival.packet.sourcePort⟩
  prompt : ∀ e past, (e :: past) <:+ log → e.Beyond →
    (∀ e' ∈ past, e'.key = e.key → e'.Beyond →
      e'.before.expected e.key ≠ e.before.expected e.key) →
        e.Nacks (e.before.expected e.key)
  apart : log.Pairwise fun later earlier => later.key = earlier.key →
    ∀ value, later.Nacks value → earlier.Nacks value →
      earlier.arrival.now + interval < later.arrival.now

/-- What the state of a flow says about the NACKs sent so far. -/
structure Recorded (interval : Nat) (w : NackWorld) (k : FlowKey) : Prop where
  expected_le : (w.receiver.expected k).toNat ≤ 2 ^ 31
  nacked : ∀ e ∈ w.log, e.key = k → ∀ value, e.Nacks value → value ≤ w.receiver.expected k ∧
    (value = w.receiver.expected k → w.receiver.lastNACK k = value ∧
      e.arrival.now + interval ≤ w.receiver.nackTimer k)
  last : w.receiver.lastNACK k = 0xFFFFFFFF ∨ w.receiver.lastNACK k ≤ w.receiver.expected k ∧
    ∃ e ∈ w.log, e.key = k ∧ e.Beyond ∧ e.before.expected k = w.receiver.lastNACK k

structure Invariant (interval : Nat) (w : NackWorld) : Prop where
  limited : RateLimited interval w.log
  now_le : ∀ e ∈ w.log, e.arrival.now ≤ w.now
  recorded : ∀ k, Recorded interval w k

theorem start_invariant (interval : Nat) : Invariant interval start where
  limited := ⟨by simp [start], by simp [start], by simp [start], List.Pairwise.nil⟩
  now_le := by simp [start]
  recorded k := ⟨by change 0 ≤ 2 ^ 31; omega, by simp [start], Or.inl rfl⟩

theorem succ_toNat {x : UInt32} (h : x.toNat < 2 ^ 31) : (x + 1).toNat = x.toNat + 1 :=
  UInt32.toNat_add_of_lt (by
    change x.toNat + 1 < 2 ^ 32
    omega)

variable {c : RxConfig} {w : NackWorld} {a : Arrival} {next : Receiver} {sent : List Feedback}
  {interval : Nat}

/-- The expected numbers never decrease. -/
theorem expected_mono (hseq : a.packet.seq.toNat < 2 ^ 31)
    (hothers : ∀ k, k ≠ Receiver.key a.packet →
      next.expected k = w.receiver.expected k ∧ w.receiver.SameNacks next k)
    (hcases : w.receiver.Silent a next sent ∨ w.receiver.Nacked c a next sent) (k : FlowKey) :
    w.receiver.expected k ≤ next.expected k := by
  by_cases hk : k = Receiver.key a.packet
  · subst hk
    rcases hcases with hsilent | hnacked
    · rcases hsilent.expected with hsame | ⟨hin, hnext⟩
      · exact UInt32.le_of_eq hsame.symm
      · rw [hnext, UInt32.le_iff_toNat_le, succ_toNat (hin ▸ hseq)]
        exact Nat.le_succ _
    · exact UInt32.le_of_eq hnacked.expected.symm
  · exact UInt32.le_of_eq (hothers k hk).1.symm

/-- The number in a NACK is the one expected before the packet. -/
theorem nacks_iff (hnacked : w.receiver.Nacked c a next sent) (value : UInt32) :
    Exchange.Nacks ⟨a, w.receiver, sent, next⟩ value ↔
      value = w.receiver.expected (Receiver.key a.packet) := by
  unfold Exchange.Nacks
  rw [hnacked.nacks]
  exact ⟨fun h => (QbbHeader.mk.inj h).2.1, fun h => by rw [h]⟩

theorem not_nacks (hsilent : w.receiver.Silent a next sent) (value : UInt32) :
    ¬ Exchange.Nacks ⟨a, w.receiver, sent, next⟩ value :=
  hsilent.silent _

/-- A new exchange keeps to the limits. -/
theorem RateLimited.cons (hlimited : RateLimited (microSeconds c.nackInterval) w.log)
    (hrecorded : Recorded (microSeconds c.nackInterval) w (Receiver.key a.packet))
    (hmono : ∀ k, w.receiver.expected k ≤ next.expected k)
    (hcases : w.receiver.Silent a next sent ∨ w.receiver.Nacked c a next sent) :
    RateLimited (microSeconds c.nackInterval) (⟨a, w.receiver, sent, next⟩ :: w.log) where
  monotone e he := by
    rcases List.mem_cons.mp he with rfl | he
    · exact hmono
    · exact hlimited.monotone e he
  current e he head hhead := by
    rcases List.mem_cons.mp he with rfl | he
    · rcases hcases with hsilent | hnacked
      · exact absurd hhead (hsilent.silent head)
      · rw [(hnacked.nacks head).mp hhead, Exchange.key, hnacked.expected]
    · exact hlimited.current e he head hhead
  prompt e past hsuffix hbeyond hfirst := by
    rcases List.suffix_cons_iff.mp hsuffix with heq | hsuffix
    · obtain ⟨rfl, rfl⟩ := List.cons.inj heq
      rcases hcases with hsilent | hnacked
      · -- silence means that this number was in a NACK before
        have hrecent := hsilent.recent hbeyond.1 hbeyond.2
        rcases hrecorded.last with hlast | ⟨-, e', he', hkey, hbeyond', hvalue⟩
        · have hle := hrecorded.expected_le
          rw [← hrecent, hlast] at hle
          exact absurd hle (by decide)
        · exact absurd (hvalue.trans hrecent) (hfirst e' he' hkey hbeyond')
      · exact (nacks_iff hnacked _).mpr rfl
    · exact hlimited.prompt e past hsuffix hbeyond hfirst
  apart := by
    refine List.pairwise_cons.mpr ⟨fun earlier hearlier hkey value hlater hvalue => ?_,
      hlimited.apart⟩
    rcases hcases with hsilent | hnacked
    · exact absurd hlater (not_nacks hsilent value)
    · have hexpected := (nacks_iff hnacked value).mp hlater
      obtain ⟨hlast, htimer⟩ :=
        (hrecorded.nacked earlier hearlier hkey.symm value hvalue).2 hexpected
      have hdue := hnacked.due.resolve_right fun hne => hne (hlast.trans hexpected)
      exact htimer.trans_lt hdue

/-- Flows that the packet does not belong to keep their records. -/
theorem Recorded.of_ne {k : FlowKey} (h : Recorded interval w k)
    (hk : k ≠ Receiver.key a.packet)
    (hsame : next.expected k = w.receiver.expected k ∧ w.receiver.SameNacks next k) :
    Recorded interval ⟨next, a.now, ⟨a, w.receiver, sent, next⟩ :: w.log⟩ k := by
  obtain ⟨hexpected, hlast, htimer⟩ := hsame
  refine ⟨?_, ?_, ?_⟩
  · change (next.expected k).toNat ≤ 2 ^ 31
    rw [hexpected]
    exact h.expected_le
  · intro e he hkey value hvalue
    dsimp only
    rw [hexpected, hlast, htimer]
    rcases List.mem_cons.mp he with rfl | he
    · exact absurd hkey.symm hk
    · exact h.nacked e he hkey value hvalue
  · dsimp only
    rw [hexpected, hlast]
    refine h.last.imp_right fun ⟨hle, e, he, hrest⟩ => ⟨hle, e, List.mem_cons_of_mem _ he, hrest⟩

/-- The record of the flow of the packet. -/
theorem Recorded.of_eq (h : Recorded (microSeconds c.nackInterval) w (Receiver.key a.packet))
    (hseq : a.packet.seq.toNat < 2 ^ 31) (hnow : ∀ e ∈ w.log, e.arrival.now ≤ a.now)
    (hmono : w.receiver.expected (Receiver.key a.packet) ≤
      next.expected (Receiver.key a.packet))
    (hcases : w.receiver.Silent a next sent ∨ w.receiver.Nacked c a next sent) :
    Recorded (microSeconds c.nackInterval)
      ⟨next, a.now, ⟨a, w.receiver, sent, next⟩ :: w.log⟩ (Receiver.key a.packet) := by
  rcases hcases with hsilent | hnacked
  · obtain ⟨hlast, htimer⟩ := hsilent.same
    refine ⟨?_, ?_, ?_⟩
    · change (next.expected (Receiver.key a.packet)).toNat ≤ 2 ^ 31
      rcases hsilent.expected with hsame | ⟨hin, hnext⟩
      · rw [hsame]
        exact h.expected_le
      · rw [hin] at hseq
        rw [hnext, succ_toNat hseq]
        exact hseq
    · intro e he hkey value hvalue
      dsimp only
      rcases List.mem_cons.mp he with rfl | he
      · exact absurd hvalue (not_nacks hsilent value)
      · obtain ⟨hle, htime⟩ := h.nacked e he hkey value hvalue
        refine ⟨UInt32.le_trans hle hmono, fun heq => ?_⟩
        rw [hlast, htimer]
        rcases hsilent.expected with hsame | ⟨hin, hnext⟩
        · exact htime (heq.trans hsame)
        · -- the number in the NACK is behind by now
          rw [hin] at hseq
          rw [heq, hnext, UInt32.le_iff_toNat_le, succ_toNat hseq] at hle
          exact absurd hle (Nat.not_succ_le_self _)
    · dsimp only
      rw [hlast]
      exact h.last.imp_right fun ⟨hle, e, he, hrest⟩ =>
        ⟨UInt32.le_trans hle hmono, e, List.mem_cons_of_mem _ he, hrest⟩
  · refine ⟨?_, ?_, ?_⟩
    · change (next.expected (Receiver.key a.packet)).toNat ≤ 2 ^ 31
      rw [hnacked.expected]
      exact h.expected_le
    · intro e he hkey value hvalue
      dsimp only
      rw [hnacked.expected, hnacked.lastNACK, hnacked.nackTimer]
      rcases List.mem_cons.mp he with rfl | he
      · have heq := (nacks_iff hnacked value).mp hvalue
        exact ⟨UInt32.le_of_eq heq, fun _ => ⟨heq.symm, Nat.le_refl _⟩⟩
      · refine ⟨(h.nacked e he hkey value hvalue).1, fun heq => ⟨heq.symm, ?_⟩⟩
        exact Nat.add_le_add_right (hnow e he) _
    · dsimp only
      rw [hnacked.expected, hnacked.lastNACK]
      exact Or.inr ⟨UInt32.le_refl _, _, List.mem_cons_self, rfl, ⟨hnacked.sound, hnacked.beyond⟩,
        rfl⟩

theorem invariant_step (hback : c.backto0 = false) {w' : NackWorld}
    (h : Invariant (microSeconds c.nackInterval) w) (hstep : step c w a = some w')
    (hseq : a.packet.seq.toNat < 2 ^ 31) : Invariant (microSeconds c.nackInterval) w' := by
  unfold step at hstep
  split at hstep
  next => cases hstep
  next hnow =>
    obtain ⟨⟨next, sent⟩, hreceive, rfl⟩ := Option.map_eq_some_iff.mp hstep
    obtain ⟨hothers, hcases⟩ := Receiver.receive_cases hback hreceive
    have hmono := expected_mono hseq hothers hcases
    have hpast : ∀ e ∈ w.log, e.arrival.now ≤ a.now :=
      fun e he => (h.now_le e he).trans (Nat.le_of_not_lt hnow)
    refine ⟨RateLimited.cons h.limited (h.recorded _) hmono hcases, ?_, fun k => ?_⟩
    · intro e he
      rcases List.mem_cons.mp he with rfl | he
      · exact Nat.le_refl _
      · exact hpast e he
    · by_cases hk : k = Receiver.key a.packet
      · subst hk
        exact Recorded.of_eq (h.recorded _) hseq hpast (hmono _) hcases
      · exact Recorded.of_ne (h.recorded k) hk (hothers k hk)

/-- In go-back-N mode, whatever arrives and when, the expected numbers never decrease, NACKs carry
the current one, the first packet beyond a number is answered at once, and NACKs of one number are
more than the interval apart, in whole microseconds. -/
theorem nacks_rate_limited (c : RxConfig) (hback : c.backto0 = false) (m_nack_interval : ℚ≥0)
    (arrivals : List Arrival) (hseq : ∀ a ∈ arrivals, a.packet.seq.toNat < 2 ^ 31) :
    Throughout (step { c with nackInterval := nackMicroSeconds m_nack_interval })
      (fun w => RateLimited (microSeconds (nackMicroSeconds m_nack_interval)) w.log)
      start arrivals := by
  refine (throughout_of_eachStep (D := fun _ a _ => a.packet.seq.toNat < 2 ^ 31)
    (fun _ _ _ h hstep hsmall =>
      invariant_step (c := { c with nackInterval := nackMicroSeconds m_nack_interval })
        hback h hstep hsmall)
    (start_invariant _) ?_).mono fun _ h => h.limited
  intro done a rest _ _ heq _ _
  exact hseq a (heq ▸ List.mem_append_right done List.mem_cons_self)

theorem nackMicroSeconds_half : nackMicroSeconds (1 / 2) = 0 :=
  Nat.floor_eq_zero.mpr (by norm_num)

/-- Two packets of one flow beyond its first number, one nanosecond apart. -/
def twoBeyond : List Arrival := [Receiver.arrival 1, { Receiver.arrival 2 with now := 1001 }]

theorem nacks_rate_limited_two :
    Throughout (step { Receiver.goBackN with nackInterval := nackMicroSeconds 500 })
      (fun w => RateLimited (microSeconds (nackMicroSeconds 500)) w.log) start twoBeyond :=
  nacks_rate_limited Receiver.goBackN rfl 500 twoBeyond (by decide)

/-- An interval of half a microsecond does not keep the two NACKs apart. -/
theorem half_microsecond_not_kept :
    ¬ Throughout (step { Receiver.goBackN with nackInterval := nackMicroSeconds (1 / 2) })
      (fun w => w.log.Pairwise fun later earlier => later.key = earlier.key →
        ∀ value, later.Nacks value → earlier.Nacks value →
          (earlier.arrival.now : ℚ) + 1000 * (1 / 2) < later.arrival.now) start twoBeyond := by
  rw [nackMicroSeconds_half]
  intro hall
  have hlog := hall twoBeyond [] _ (List.append_nil _).symm rfl
  have hapart := (List.pairwise_cons.mp hlog).1 _ List.mem_cons_self rfl 0
    (List.mem_singleton.mpr rfl) (List.mem_singleton.mpr rfl)
  norm_num [twoBeyond, Receiver.arrival] at hapart

end NackWorld

end Ns3Rdma
