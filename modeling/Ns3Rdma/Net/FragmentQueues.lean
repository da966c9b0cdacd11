import Mathlib.Logic.Function.Basic
import Ns3Rdma.Lib.StepSystem
import Ns3Rdma.Net.Ipv4Reassembly

/-!
# Fragments of several datagrams

The key of a reassembly queue is computed with `&` where the parts should be joined, so that
all datagrams share one queue. A reassembled packet is right as long as no fragment arrives
while fragments of another datagram wait.
-/

namespace Ns3Rdma.Ipv4

open StepSystem

/-- What tells datagrams apart. -/
structure DatagramId where
  source : UInt32
  destination : UInt32
  identification : UInt16
  protocol : UInt8
  deriving DecidableEq

def Ipv4Packet.datagram (p : Ipv4Packet) : DatagramId where
  source := p.header.source
  destination := p.header.destination
  identification := p.header.identification
  protocol := p.header.protocol

theorem shiftLeft_and_eq_zero {a b k : Nat} (hb : b < 2 ^ k) : a <<< k &&& b = 0 := by
  apply Nat.eq_of_testBit_eq
  intro i
  rw [Nat.testBit_and, Nat.testBit_shiftLeft, Nat.zero_testBit]
  by_cases hi : k ≤ i
  · have hbit : b.testBit i = false :=
      Nat.testBit_lt_two_pow (Nat.lt_of_lt_of_le hb (Nat.pow_le_pow_right (by decide) hi))
    rw [hbit, Bool.and_false]
  · simp [hi]

/-- Every header has the same key. -/
theorem key_eq_zero (h : Ipv4Header) : h.key = (0, 0) := by
  have hdestination := h.destination.toNat_lt
  have hprotocol := h.protocol.toNat_lt
  refine Prod.ext (UInt64.toNat.inj ?_) (UInt32.toNat.inj ?_)
  · have hshift : (h.source.toUInt64 <<< 32).toNat = h.source.toNat <<< 32 := by
      rw [UInt64.toNat_shiftLeft, UInt32.toNat_toUInt64]
      change (h.source.toNat <<< 32) % 2 ^ 64 = _
      rw [Nat.shiftLeft_eq]
      have := h.source.toNat_lt
      omega
    change (h.source.toUInt64 <<< 32 &&& h.destination.toUInt64).toNat = 0
    rw [UInt64.toNat_and, hshift, UInt32.toNat_toUInt64, shiftLeft_and_eq_zero hdestination]
  · have hshift : (h.identification.toUInt32 <<< 16).toNat = h.identification.toNat <<< 16 := by
      rw [UInt32.toNat_shiftLeft, UInt16.toNat_toUInt32]
      change (h.identification.toNat <<< 16) % 2 ^ 32 = _
      rw [Nat.shiftLeft_eq]
      have := h.identification.toNat_lt
      omega
    change (h.identification.toUInt32 <<< 16 &&& h.protocol.toUInt32).toNat = 0
    rw [UInt32.toNat_and, hshift, UInt8.toNat_toUInt32,
      shiftLeft_and_eq_zero (Nat.lt_trans hprotocol (by decide))]

/-! ## Runs -/

namespace FragmentQueues

inductive Event where
  | arrive (packet : Ipv4Packet)
  | timeout (key : Key)

/-- The queues, and beside each key the packets whose fragments wait under it. -/
structure World where
  queues : Queues
  waiting : Key → List Ipv4Packet

def start : World where
  queues _ := none
  waiting _ := []

/-- `ProcessFragment` of one packet, or `HandleFragmentsTimeout` of a queue. -/
def step (w : World) : Event → Option World
  | .arrive packet =>
      let key := packet.header.key
      let result := processFragment w.queues packet
      some
        { queues := result.1
          waiting := Function.update w.waiting key
            (if result.2.isSome then [] else w.waiting key ++ [packet]) }
  | .timeout key =>
      if (w.queues key).isSome then
        some
          { queues := Function.update w.queues key none
            waiting := Function.update w.waiting key [] }
      else none

/-- The arriving fragment is of the datagram whose fragments wait under its key. -/
def Unmixed (w : World) : Event → Prop
  | .arrive packet => ∀ g ∈ w.waiting packet.header.key, g.datagram = packet.datagram
  | .timeout _ => True

/-- Every queue consists of the fragments of one datagram. -/
def Separate (w : World) : Prop :=
  ∀ key q, w.queues key = some q →
    (∀ x, x ∈ q.fragments ↔ ∃ g ∈ w.waiting key, g.piece = x) ∧
      ∀ g ∈ w.waiting key, ∀ g' ∈ w.waiting key, g.datagram = g'.datagram

/-- A reassembled packet is the datagram of the fragment that completed it. -/
def Right (data : DatagramId → List UInt8) (w : World) : Event → Prop
  | .arrive packet =>
      ∀ bytes, (processFragment w.queues packet).2 = some bytes → bytes = data packet.datagram
  | .timeout _ => True

/-- An arriving packet is a fragment of its datagram. -/
def Genuine (data : DatagramId → List UInt8) : Event → Prop
  | .arrive packet => FragmentOf (data packet.datagram) packet
  | .timeout _ => True

/-- What waits under one key. -/
structure Queued (data : DatagramId → List UInt8) (waiting : List Ipv4Packet)
    (queue : Option Fragments) : Prop where
  same : ∀ g ∈ waiting, ∀ g' ∈ waiting, g.datagram = g'.datagram
  holds : ∀ g ∈ waiting, Holds (data g.datagram) (queue.getD Fragments.empty)
  mem_iff : ∀ x, x ∈ (queue.getD Fragments.empty).fragments ↔ ∃ g ∈ waiting, g.piece = x
  none_of_nil : waiting = [] → queue = none

theorem queued_nil (data : DatagramId → List UInt8) : Queued data [] none where
  same := by simp
  holds := by simp
  mem_iff := by simp [Fragments.empty]
  none_of_nil _ := rfl

/-- The queue that `ProcessFragment` adds a fragment to. -/
def added (w : World) (packet : Ipv4Packet) : Fragments :=
  ((w.queues packet.header.key).getD Fragments.empty).addFragment packet.payload
    packet.header.fragmentOffset (!packet.header.isLastFragment)

theorem processFragment_eq (w : World) (packet : Ipv4Packet) :
    processFragment w.queues packet =
      if (added w packet).isEntire then
        (Function.update w.queues packet.header.key none, some (added w packet).getPacket)
      else (Function.update w.queues packet.header.key (some (added w packet)), none) :=
  rfl

theorem holds_added {data : DatagramId → List UInt8} {w : World} {packet : Ipv4Packet}
    (h : Queued data (w.waiting packet.header.key) (w.queues packet.header.key))
    (hgenuine : FragmentOf (data packet.datagram) packet)
    (hunmixed : ∀ g ∈ w.waiting packet.header.key, g.datagram = packet.datagram) :
    Holds (data packet.datagram) (added w packet) := by
  refine Holds.addFragment ?_ hgenuine
  cases hwaiting : w.waiting packet.header.key with
  | nil =>
      rw [h.none_of_nil hwaiting]
      exact holds_empty _
  | cons g rest =>
      have hg : g ∈ w.waiting packet.header.key := by simp [hwaiting]
      rw [← hunmixed g hg]
      exact h.holds g hg

/-- The queues of all keys. -/
def Invariant (data : DatagramId → List UInt8) (w : World) : Prop :=
  ∀ key, Queued data (w.waiting key) (w.queues key)

theorem Invariant.separate {data : DatagramId → List UInt8} {w : World}
    (h : Invariant data w) : Separate w := by
  intro key q hq
  have hqueued := h key
  refine ⟨?_, hqueued.same⟩
  simpa [hq] using hqueued.mem_iff

theorem right_of_unmixed {data : DatagramId → List UInt8} (hdata : ∀ d, (data d).length ≤ 65515)
    {w : World} (h : Invariant data w) {event : Event} (hgenuine : Genuine data event)
    (hunmixed : Unmixed w event) : Right data w event := by
  cases event with
  | timeout key => trivial
  | arrive packet =>
      intro bytes hbytes
      rw [processFragment_eq] at hbytes
      split at hbytes
      next hentire =>
          obtain rfl := Option.some.inj hbytes
          exact (holds_added (h _) hgenuine hunmixed).getPacket
            (Nat.lt_of_le_of_lt (hdata _) (by decide)) hentire
      next => cases hbytes

theorem invariant_step {data : DatagramId → List UInt8} {w next : World} {event : Event}
    (h : Invariant data w) (hstep : step w event = some next) (hgenuine : Genuine data event)
    (hunmixed : Unmixed w event) : Invariant data next := by
  intro key
  cases event with
  | timeout expired =>
      simp only [step] at hstep
      split at hstep
      next =>
          obtain rfl := Option.some.inj hstep
          rcases eq_or_ne key expired with rfl | hne
          · simpa using queued_nil data
          · simpa [hne] using h key
      next => cases hstep
  | arrive packet =>
      obtain rfl := Option.some.inj hstep
      have hholds := holds_added (h _) hgenuine hunmixed
      dsimp only
      rw [processFragment_eq]
      rcases eq_or_ne key packet.header.key with rfl | hne
      · split
        next => simpa using queued_nil data
        next =>
            have hdatagram : ∀ g ∈ w.waiting packet.header.key ++ [packet],
                g.datagram = packet.datagram := by
              intro g hg
              rcases List.mem_append.mp hg with hg | hg
              · exact hunmixed g hg
              · rw [List.mem_singleton.mp hg]
            simp only [Function.update_self, Option.isSome_none, Bool.false_eq_true, if_false]
            refine ⟨?_, ?_, ?_, by simp⟩
            · intro g hg g' hg'
              rw [hdatagram g hg, hdatagram g' hg']
            · intro g hg
              rw [hdatagram g hg]
              exact hholds
            · intro x
              rw [Option.getD_some, added, mem_addFragment, (h _).mem_iff]
              simp only [List.mem_append, List.mem_singleton]
              constructor
              · rintro (rfl | ⟨g, hg, rfl⟩)
                · exact ⟨packet, Or.inr rfl, rfl⟩
                · exact ⟨g, Or.inl hg, rfl⟩
              · rintro ⟨g, hg | rfl, rfl⟩
                · exact Or.inr ⟨g, hg, rfl⟩
                · exact Or.inl rfl
      · split <;> simpa [hne] using h key

/-- In every run of fragments of any datagrams in which no fragment arrives while another
datagram waits under its key, every queue keeps to one datagram, and every reassembled
packet is the datagram of its last fragment. -/
theorem datagrams_not_mixed {data : DatagramId → List UInt8}
    (hdata : ∀ d, (data d).length ≤ 65515) {events : List Event}
    (hgenuine : ∀ event ∈ events, Genuine data event)
    (hunmixed : EachStep step (fun w event _ => Unmixed w event) start events) :
    Throughout step Separate start events ∧
      EachStep step (fun w event _ => Right data w event) start events := by
  have hinvariant : Throughout step (Invariant data) start events := by
    refine throughout_of_eachStep
      (D := fun w event _ => Genuine data event ∧ Unmixed w event)
      (fun w event next h hstep hcond => invariant_step h hstep hcond.1 hcond.2)
      (fun key => queued_nil data) ?_
    intro done event rest w next heq hrun hstep
    exact ⟨hgenuine event (by rw [heq]; simp), hunmixed done event rest w next heq hrun hstep⟩
  refine ⟨hinvariant.mono fun w => Invariant.separate, ?_⟩
  intro done event rest w next heq hrun hstep
  exact right_of_unmixed hdata (hinvariant done (event :: rest) w heq hrun)
    (hgenuine event (by rw [heq]; simp)) (hunmixed done event rest w next heq hrun hstep)

/-- A fragment of eight bytes from one of two hosts. -/
def sample (source : UInt32) (moreFragments : Bool) (fragmentOffset : UInt16) : Ipv4Packet where
  header :=
    { source := source
      destination := 0x0a000009
      identification := 1
      protocol := 17
      dontFragment := false
      moreFragments := moreFragments
      fragmentOffset := fragmentOffset
      payloadSize := 8 }
  payload := List.replicate 8 (UInt8.ofNat source.toNat)

/-- Sixteen bytes that name the sender. -/
def sampleData (d : DatagramId) : List UInt8 :=
  List.replicate 8 (UInt8.ofNat d.source.toNat) ++ List.replicate 8 (UInt8.ofNat d.source.toNat)

theorem sample_first (source : UInt32) : Genuine sampleData (.arrive (sample source true 0)) where
  slice := ⟨List.replicate 8 (UInt8.ofNat source.toNat), rfl, by simp [Piece.stop,
    Ipv4Packet.piece, sample, sampleData]⟩
  flag := by simp [sample, sampleData, Ipv4Packet.stop, Ipv4Packet.start]

theorem sample_last (source : UInt32) : Genuine sampleData (.arrive (sample source false 8)) where
  slice := ⟨[], by simp [Piece.start, Ipv4Packet.piece, sample, sampleData, Ipv4Packet.datagram],
    by simp [Piece.stop, Ipv4Packet.piece, sample, sampleData]⟩
  flag := by simp [sample, sampleData, Ipv4Packet.stop, Ipv4Packet.start]

instance (w : World) : (event : Event) → Decidable (Unmixed w event)
  | .arrive packet =>
      inferInstanceAs
        (Decidable (∀ g ∈ w.waiting packet.header.key, g.datagram = packet.datagram))
  | .timeout _ => isTrue trivial

theorem datagrams_not_mixed_successive :
    Throughout step Separate start
        [.arrive (sample 1 false 8), .arrive (sample 1 true 0), .arrive (sample 2 true 0)] ∧
      EachStep step (fun w event _ => Right sampleData w event) start
        [.arrive (sample 1 false 8), .arrive (sample 1 true 0), .arrive (sample 2 true 0)] :=
  datagrams_not_mixed (fun d => by simp [sampleData])
    (by
      intro event hevent
      simp only [List.mem_cons, List.not_mem_nil, or_false] at hevent
      rcases hevent with rfl | rfl | rfl
      · exact sample_last 1
      · exact sample_first 1
      · exact sample_first 2)
    (eachStep_of_take (by decide +kernel))

/-- The first half of one datagram and the second half of another one make a packet. -/
theorem interleaved_mixed :
    ¬ ∀ (data : DatagramId → List UInt8) (events : List Event),
      (∀ d, (data d).length ≤ 65515) → (∀ event ∈ events, Genuine data event) →
        EachStep step (fun w event _ => Right data w event) start events := by
  intro hall
  have heach := hall sampleData [.arrive (sample 1 true 0), .arrive (sample 2 false 8)]
    (fun d => by simp [sampleData])
    (by
      intro event hevent
      simp only [List.mem_cons, List.not_mem_nil, or_false] at hevent
      rcases hevent with rfl | rfl
      · exact sample_first 1
      · exact sample_last 2)
  rw [eachStep_cons] at heach
  have hsecond := (heach _ rfl).2
  rw [eachStep_cons] at hsecond
  have hbytes := (hsecond _ rfl).1 _ rfl
  exact absurd hbytes (by decide +kernel)

end FragmentQueues

end Ns3Rdma.Ipv4
