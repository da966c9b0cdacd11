import Mathlib.Logic.Relation
import Ns3Rdma.Nic.Device

/-! # One flow by its sequence numbers

What the sender, the network and the receiver hold of one flow in go-back-N mode, and how
it changes. A flow that waits for an acknowledgement is not served, because its time of
transmission lies behind its retransmission. -/

namespace Ns3Rdma

/-- The retransmission timer expires before the 32767 seconds for which a flow is stopped. -/
def NicConfig.Patient (c : NicConfig) : Prop :=
  c.waitAck = true ∧ microSeconds c.waitAckTimer < seconds 32767

/-- The numbers of a flow: how many packets were sent, the sending buffer and the transmit
queue, the milestone and whether the flow waits for it, the number that the receiver expects,
the packets and the answers in flight, and the packet just put on the wire. -/
structure Flow where
  sent : Nat
  buffer : List UInt32
  queue : List UInt32
  milestone : UInt32
  waiting : Bool
  expected : UInt32
  data : List UInt32
  acks : List UInt32
  nacks : List UInt32
  wire : Option UInt32

namespace Flow

variable (c : NicConfig)

/-- A flow of which nothing has been sent. -/
def start : Flow where
  sent := 0
  buffer := []
  queue := []
  milestone := if c.waitAck then c.chunk else 0
  waiting := false
  expected := 0
  data := []
  acks := []
  nacks := []
  wire := none

/-- The buffer after one more packet. -/
def buffered (buffer : List UInt32) (seq : UInt32) : List UInt32 :=
  (if buffer.length = 8000 then buffer.tail else buffer) ++ [seq]

def closesWindow (f : Flow) (seq : UInt32) : Bool :=
  c.waitAck && decide (f.milestone - 1 ≤ seq)

/-- The buffer without the numbers below `seq`. -/
def kept (f : Flow) (seq : UInt32) : List UInt32 :=
  f.buffer.dropWhile fun n => n < seq

/-- An ACK with number `seq` lets the flow send its next window. -/
def advances (f : Flow) (seq : UInt32) : Bool :=
  c.waitAck && decide (Nic.signed f.milestone ≤ Nic.signed seq)

/-- What an event does to the flow, in steps. `A` restricts the packets that are sent, by
the flow before and by whether the transmit queue takes the packet. -/
inductive Step (A : Flow → Bool → Prop) : Flow → Flow → Prop where
  | begin (f : Flow) (data acks nacks : List UInt32) (hdata : data ⊆ f.data)
      (hacks : acks ⊆ f.acks) (hnacks : nacks ⊆ f.nacks) :
      Step A f { f with data := data, acks := acks, nacks := nacks, wire := none }
  | send (f : Flow) (seq : UInt32) (taken : Bool) (hseq : seq.toNat = f.sent)
      (hsent : f.sent + 1 < 2 ^ 32) (hadmits : A f taken) :
      Step A f
        { f with
          sent := f.sent + 1
          buffer := buffered f.buffer seq
          queue := if taken then f.queue ++ [seq] else f.queue }
  | transmit (f : Flow) (seq : UInt32) (rest : List UInt32) (hqueue : f.queue = seq :: rest)
      (hwaiting : c.Patient → f.waiting = false) :
      Step A f
        { f with
          queue := rest
          waiting := f.closesWindow c seq || f.waiting
          data := f.data ++ [seq]
          wire := some seq }
  | retransmit (f : Flow) (hwaiting : f.waiting = true) :
      Step A f { f with queue := f.buffer, waiting := false }
  | nack (f : Flow) (seq : UInt32) (hseq : seq ∈ f.nacks) (hkept : f.kept seq ≠ []) :
      Step A f
        { f with
          buffer := f.kept seq
          queue := f.kept seq
          waiting := !c.waitAck && f.waiting }
  | ack (f : Flow) (seq : UInt32) (hseq : seq ∈ f.acks) :
      Step A f
        { f with
          buffer := if c.ackInterval = 0 then f.buffer else f.kept seq
          waiting := if f.advances c seq then false else f.waiting
          milestone := if f.advances c seq then f.milestone + c.chunk else f.milestone }
  | receive (f : Flow) (seq : UInt32) (acks nacks : List UInt32) (hseq : seq ∈ f.data)
      (hacks : ∀ n ∈ acks, seq = f.expected ∧ n = f.expected + 1)
      (hnacks : ∀ n ∈ nacks, f.expected < seq ∧ n = f.expected) :
      Step A f
        { f with
          expected := if seq = f.expected then f.expected + 1 else f.expected
          acks := f.acks ++ acks
          nacks := f.nacks ++ nacks }

/-- What a whole event does. -/
abbrev Steps (A : Flow → Bool → Prop) : Flow → Flow → Prop :=
  Relation.ReflTransGen (Step c A)

variable {c} {A : Flow → Bool → Prop} {f g : Flow}

theorem Step.mono {A' : Flow → Bool → Prop}
    (himp : ∀ f taken, A f taken → A' f taken) (h : Step c A f g) :
    Step c A' f g := by
  cases h with
  | begin data acks nacks hdata hacks hnacks => exact .begin f data acks nacks hdata hacks hnacks
  | send seq taken hseq hsent hadmits => exact .send f seq taken hseq hsent (himp f taken hadmits)
  | transmit seq rest hqueue hwaiting => exact .transmit f seq rest hqueue hwaiting
  | retransmit hwaiting => exact .retransmit f hwaiting
  | nack seq hseq hkept => exact .nack f seq hseq hkept
  | ack seq hseq => exact .ack f seq hseq
  | receive seq acks nacks hseq hacks hnacks => exact .receive f seq acks nacks hseq hacks hnacks

/-- An invariant of the steps is an invariant of the events. -/
theorem Steps.invariant {I : Flow → Prop} (hstep : ∀ f g, I f → Step c A f g → I g)
    (h : Steps c A f g) (hf : I f) : I g := by
  induction h with
  | refl => exact hf
  | tail _ hlast ih => exact hstep _ _ ih hlast

end Flow

end Ns3Rdma
