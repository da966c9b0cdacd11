import Ns3Rdma.Lib.Consecutive
import Ns3Rdma.Nic.Simulation

/-! # The retransmission buffer

The buffer of a flow holds, in order and without gaps, every packet from the one that the
receiver expects up to the last one sent, unless the overflow rule of `Send` drops a packet
that was not received. A NACK makes the flow continue with the packet that it names, or with
the first one that is still buffered. -/

namespace Ns3Rdma

open StepSystem

/-! ## The flow -/

namespace Flow

/-- The buffer reaches from the expected number or before up to the last packet sent. -/
structure Retained (f : Flow) : Prop where
  sent_lt : f.sent < 2 ^ 32
  expected_le : f.expected.toNat ≤ f.sent
  buffer : ∃ head ≤ f.expected.toNat, Consecutive UInt32.toNat f.buffer head f.sent
  queue_lt : ∀ n ∈ f.queue, n.toNat < f.sent
  data_lt : ∀ n ∈ f.data, n.toNat < f.sent
  acks_le : ∀ n ∈ f.acks, n.toNat ≤ f.expected.toNat
  nacks_le : ∀ n ∈ f.nacks, n.toNat ≤ f.expected.toNat

/-- If the buffer is full, its first packet has been received. -/
def DropsReceived (f : Flow) (_taken : Bool) : Prop :=
  f.buffer.length = 8000 → ∀ n, f.buffer.head? = some n → n < f.expected

variable {c : NicConfig} {f g : Flow} {head : Nat}

/-- Feedback with number `seq` cuts the buffer down to the numbers from `seq` on. -/
theorem kept_consecutive (h : Consecutive UInt32.toNat f.buffer head f.sent) (seq : UInt32) :
    Consecutive UInt32.toNat (f.kept seq) (max head (min seq.toNat f.sent)) f.sent := by
  have hdrop : (fun n : UInt32 => decide (n < seq)) = fun n => decide (n.toNat < seq.toNat) := by
    funext n
    exact decide_eq_decide.mpr UInt32.lt_iff_toNat_lt
  unfold kept
  rw [hdrop]
  exact h.dropWhile seq.toNat

theorem buffered_consecutive (h : Consecutive UInt32.toNat f.buffer head f.sent) {seq : UInt32}
    (hseq : seq.toNat = f.sent) : Consecutive UInt32.toNat (buffered f.buffer seq)
      (if f.buffer.length = 8000 then head + 1 else head) (f.sent + 1) := by
  unfold buffered
  split
  next hfull =>
    cases hbuffer : f.buffer with
    | nil =>
        rw [hbuffer] at hfull
        cases hfull
    | cons first rest =>
        rw [hbuffer] at h
        exact (Consecutive.cons_iff.mp h).2.2.append_singleton hseq
  next => exact h.append_singleton hseq

theorem start_retained (c : NicConfig) : (start c).Retained where
  sent_lt := Nat.two_pow_pos 32
  expected_le := Nat.le_refl 0
  buffer := ⟨0, Nat.le_refl 0, Consecutive.nil 0⟩
  queue_lt := fun n hn => by cases hn
  data_lt := fun n hn => by cases hn
  acks_le := fun n hn => by cases hn
  nacks_le := fun n hn => by cases hn

theorem Retained.step (h : f.Retained) (hstep : Step c DropsReceived f g) : g.Retained := by
  obtain ⟨head, hhead, hbuffer⟩ := h.buffer
  cases hstep with
  | begin data acks nacks hdata hacks hnacks =>
      exact
        { h with
          data_lt := fun n hn => h.data_lt n (hdata hn)
          acks_le := fun n hn => h.acks_le n (hacks hn)
          nacks_le := fun n hn => h.nacks_le n (hnacks hn) }
  | send seq taken hseq hsent hadmits =>
      refine
        { h with
          sent_lt := hsent
          expected_le := Nat.le_succ_of_le h.expected_le
          buffer := ⟨_, ?_, buffered_consecutive hbuffer hseq⟩
          queue_lt := ?_
          data_lt := fun n hn => Nat.lt_succ_of_lt (h.data_lt n hn) }
      · -- a full buffer loses its head, which the receiver no longer expects
        split
        next hfull =>
          cases hlist : f.buffer with
          | nil =>
              rw [hlist] at hfull
              cases hfull
          | cons first rest =>
              have hfirst := hadmits hfull first (by rw [hlist]; rfl)
              rw [hlist] at hbuffer
              rw [UInt32.lt_iff_toNat_lt, (Consecutive.cons_iff.mp hbuffer).1] at hfirst
              exact hfirst
        next => exact hhead
      · intro n hn
        split at hn
        · rcases List.mem_append.mp hn with hn | hn
          · exact Nat.lt_succ_of_lt (h.queue_lt n hn)
          · obtain rfl := List.mem_singleton.mp hn
            rw [hseq]
            exact Nat.lt_succ_self _
        · exact Nat.lt_succ_of_lt (h.queue_lt n hn)
  | transmit seq rest hqueue hwaiting =>
      refine { h with queue_lt := ?_, data_lt := ?_ }
      · intro n hn
        apply h.queue_lt n
        rw [hqueue]
        exact List.mem_cons_of_mem seq hn
      · intro n hn
        rcases List.mem_append.mp hn with hn | hn
        · exact h.data_lt n hn
        · obtain rfl := List.mem_singleton.mp hn
          apply h.queue_lt
          rw [hqueue]
          exact List.mem_cons_self
  | retransmit hwaiting =>
      exact { h with queue_lt := fun n hn => (hbuffer.mem hn).2 }
  | nack seq hseq hkept =>
      have hle := h.nacks_le seq hseq
      have hconsecutive := kept_consecutive hbuffer seq
      refine
        { h with
          buffer := ⟨_, ?_, hconsecutive⟩
          queue_lt := fun n hn => (hconsecutive.mem hn).2 }
      dsimp only
      omega
  | ack seq hseq =>
      have hle := h.acks_le seq hseq
      refine { h with buffer := ?_ }
      dsimp only
      split
      · exact h.buffer
      · refine ⟨_, ?_, kept_consecutive hbuffer seq⟩
        omega
  | receive seq acks nacks hseq hacks hnacks =>
      have hlt := h.data_lt seq hseq
      have hsent := h.sent_lt
      have hgrow : (if seq = f.expected then f.expected + 1 else f.expected).toNat =
          f.expected.toNat + if seq = f.expected then 1 else 0 := by
        split
        next heq =>
          rw [heq] at hlt
          exact UInt32.toNat_add_of_lt (by rw [UInt32.toNat_one]; omega)
        next => rfl
      refine
        { h with expected_le := ?_, buffer := ⟨head, ?_, hbuffer⟩, acks_le := ?_, nacks_le := ?_ }
      · dsimp only
        rw [hgrow]
        have hle := h.expected_le
        split
        next heq =>
          rw [heq] at hlt
          omega
        next => exact hle
      · dsimp only
        omega
      · intro n hn
        dsimp only
        rcases List.mem_append.mp hn with hn | hn
        · have hle := h.acks_le n hn
          omega
        · obtain ⟨heq, rfl⟩ := hacks n hn
          rw [if_pos heq]
      · intro n hn
        dsimp only
        rcases List.mem_append.mp hn with hn | hn
        · have hle := h.nacks_le n hn
          omega
        · obtain ⟨-, rfl⟩ := hnacks n hn
          omega

end Flow

/-! ## The link -/

namespace Link

/-- The number of a packet. -/
def number (p : Packet) : Nat := p.seq.toNat

variable (k : FlowKey)

/-- A full buffer begins with a packet that has been received. -/
def DropsReceived (s : Link) (event : Event) : Prop :=
  ∀ p, event = .send p → k.Owns p → (s.bufferOf k).length = 8000 →
    ∀ q, (s.bufferOf k).head? = some q → q.seq < s.receiver.expected k

variable {k} {c : NicConfig} {home : Option (Fin fCnt)} {s next : Link} {event : Event}

theorem DropsReceived.admits (h : s.DropsReceived k event) :
    s.Admits c k Flow.DropsReceived event := by
  intro p hevent howns taken _ hfull n hn
  change ((s.bufferOf k).map Packet.seq).length = 8000 at hfull
  change ((s.bufferOf k).map Packet.seq).head? = some n at hn
  rw [List.length_map] at hfull
  rw [List.head?_map, Option.map_eq_some_iff] at hn
  obtain ⟨q, hq, rfl⟩ := hn
  exact h p hevent howns hfull q hq

/-- The packets 0 to `n - 1` are sent at once. -/
def burst (n : Nat) : List Event :=
  (List.range n).map fun seq => .send (.sample (UInt32.ofNat seq))

end Link

end Ns3Rdma
