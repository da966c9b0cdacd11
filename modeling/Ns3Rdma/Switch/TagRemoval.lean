import Ns3Rdma.Lib.StepSystem
import Ns3Rdma.Net.PacketTagList
import Ns3Rdma.Nic.Device
import Ns3Rdma.Queue.PauseHonoured

/-! # Flow tags on the way through a network

`Receive` adds a `FlowIdTag` to the packets that it hands up to be forwarded, and
`DequeueAndTransmit` removes it on some of its branches. A network is a set of nodes with devices,
packets in the FIFOs of the devices, on the links, and in the nodes between two devices. -/

namespace Ns3Rdma

open StepSystem

/-- `GetNodeType()`, 0 or above. -/
inductive NodeType where
  | nic
  | switch
deriving DecidableEq

structure TaggedPacket where
  packet : Packet
  tags : PacketTagList

namespace TaggedPacket

/-- Frames from a receiver to a sender, which a NIC handles itself. -/
def isFeedback (p : TaggedPacket) : Bool :=
  p.packet.protocol == Protocol.cnp || p.packet.protocol == Protocol.nack ||
    p.packet.protocol == Protocol.ack

def isPfc (p : TaggedPacket) : Bool := p.packet.protocol == Protocol.pfc

/-- `Receive`: `none` is the failed assertion of `AddPacketTag`, and `some none` a PFC frame, which
goes no further. -/
def receive (t : NodeType) (ifIndex : UInt32) (p : TaggedPacket) : Option (Option TaggedPacket) :=
  if !p.isFeedback || t = .switch then
    if !p.isPfc then
      (p.tags.add ⟨.flowIdTag, ifIndex⟩).map fun tags => some { p with tags := tags }
    else some none
  else some (some p)

/-- What `DequeueAndTransmit` does to the tags of a packet from queue `GetLastQueue()`. -/
def transmitted (t : NodeType) (lastQueue : Fin fCnt) (p : TaggedPacket) : TaggedPacket :=
  match t with
  | .nic => { p with tags := p.tags.remove .flowIdTag }
  | .switch =>
      if lastQueue = BEgressQueue.classQueue 7 then p
      else { p with tags := p.tags.remove .flowIdTag }

end TaggedPacket

/-- The devices of the nodes, and the links between them. -/
structure Topology (N D : Type) where
  node : D → N
  nodeType : N → NodeType
  ifIndex : D → UInt32
  peer : D → D

/-- The packets in the FIFOs of the devices, on the way to a device, and handed up at a node. -/
structure Network (N D : Type) where
  queues : D → Fin fCnt → List TaggedPacket
  wire : D → List TaggedPacket
  held : N → List TaggedPacket

/-- `forward` sends a packet of the node on; the copy that stays may be sent again, by another
device. The scheduler, the pauses and the limits of the queues only decide which event comes
next. -/
inductive HopEvent (D : Type) where
  | originate (d : D) (i : Fin fCnt) (p : TaggedPacket)
  | arrive (d : D) (corrupt : Bool)
  | forward (d : D) (i : Fin fCnt) (k : ℕ)
  | transmit (d : D) (i : Fin fCnt)

namespace Network

variable {N D : Type} [DecidableEq N] [DecidableEq D] (net : Topology N D)

def start : Network N D where
  queues := fun _ _ => []
  wire := fun _ => []
  held := fun _ => []

/-- `Enqueue` in FIFO `i`. -/
def enqueue (s : Network N D) (d : D) (i : Fin fCnt) (p : TaggedPacket) : Network N D :=
  { s with queues :=
      Function.update s.queues d (Function.update (s.queues d) i (s.queues d i ++ [p])) }

/-- The FIFO is the one of the class at a switch. At a NIC any FIFO may be the one of a flow. -/
def sendsTo (d : D) (i : Fin fCnt) (p : TaggedPacket) : Prop :=
  net.nodeType (net.node d) = .switch → i = BEgressQueue.classQueue (Nic.sendClass p.packet)

/-- Of class 7, a switch itself only creates the PFC frames of `CheckQueueFull`, without tags. -/
def creates (d : D) (p : TaggedPacket) : Prop :=
  net.nodeType (net.node d) = .switch → Nic.sendClass p.packet = 7 →
    p.isPfc = true ∧ p.tags.entries = []

instance (d : D) (i : Fin fCnt) (p : TaggedPacket) : Decidable (sendsTo net d i p) :=
  inferInstanceAs (Decidable (_ → _))

instance (d : D) (p : TaggedPacket) : Decidable (creates net d p) :=
  inferInstanceAs (Decidable (_ → _ → _ ∧ _))

def step (s : Network N D) : HopEvent D → Option (Network N D)
  | .originate d i p =>
      if sendsTo net d i p ∧ creates net d p then some (s.enqueue d i p) else none
  | .arrive d corrupt =>
      match s.wire d with
      | [] => none
      | p :: rest =>
          let s := { s with wire := Function.update s.wire d rest }
          if corrupt then some s
          else
            (p.receive (net.nodeType (net.node d)) (net.ifIndex d)).map fun up =>
              let handedUp := s.held (net.node d) ++ up.toList
              { s with held := Function.update s.held (net.node d) handedUp }
  | .forward d i k =>
      match (s.held (net.node d))[k]? with
      | none => none
      | some p => if sendsTo net d i p then some (s.enqueue d i p) else none
  | .transmit d i =>
      match s.queues d i with
      | [] => none
      | p :: rest => some
          { s with
            queues := Function.update s.queues d (Function.update (s.queues d) i rest)
            wire := Function.update s.wire (net.peer d)
              (s.wire (net.peer d) ++ [p.transmitted (net.nodeType (net.node d)) i]) }

/-! ## Packets on the wire -/

/-- No packet on the wire carries a `FlowIdTag`, and no `Receive` will fail its assertion. -/
def WireUntagged (s : Network N D) : Prop :=
  ∀ d, ∀ p ∈ s.wire d, ¬ p.tags.Carries .flowIdTag ∧
    (p.receive (net.nodeType (net.node d)) (net.ifIndex d)).isSome = true

/-- A switch transmits nothing but PFC frames from its FIFO of class 7. -/
def OnlyPfcBypasses (s : Network N D) : HopEvent D → Prop
  | .transmit d i =>
      net.nodeType (net.node d) = .switch → i = BEgressQueue.classQueue 7 →
        ∀ p rest, s.queues d i = p :: rest → p.isPfc = true
  | _ => True

end Network

/-! ## One packet -/

namespace TaggedPacket

variable {t : NodeType} {ifIndex : UInt32} {p next : TaggedPacket}

/-- A packet without the tag passes the assertion. -/
theorem isSome_receive (h : ¬ p.tags.Carries .flowIdTag) : (p.receive t ifIndex).isSome = true := by
  have hadd : (p.tags.add ⟨.flowIdTag, ifIndex⟩).isSome = true := PacketTagList.isSome_add.mpr h
  unfold receive
  split
  · split
    · rw [Option.isSome_map, hadd]
    · rfl
  · rfl

/-- What a switch hands up carries the tag, with the index of the device, and is no PFC frame. -/
theorem receive_switch (h : p.receive .switch ifIndex = some (some next)) :
    next.isPfc = false ∧ next.packet = p.packet ∧
      next.tags.peek .flowIdTag = some ⟨.flowIdTag, ifIndex⟩ ∧ next.tags.Carries .flowIdTag := by
  unfold receive at h
  rw [if_pos (by simp)] at h
  split at h
  next hpfc =>
    rw [Option.map_eq_some_iff] at h
    obtain ⟨tags, hadd, heq⟩ := h
    obtain rfl := Option.some.inj heq
    exact ⟨(Bool.not_eq_true' _).mp hpfc, rfl, PacketTagList.peek_of_add hadd,
      (PacketTagList.carries_of_add hadd).mpr (Or.inl rfl)⟩
  · cases h

/-- Only a switch transmits tagged packets, those of FIFO 7. -/
theorem carries_transmitted (t : NodeType) (i : Fin fCnt) (p : TaggedPacket) :
    (p.transmitted t i).tags.Carries .flowIdTag ↔
      (t = .switch ∧ i = BEgressQueue.classQueue 7) ∧ p.tags.Carries .flowIdTag := by
  have hremoved : ¬ (p.tags.remove .flowIdTag).Carries .flowIdTag := fun h =>
    (PacketTagList.carries_remove.mp h).2 rfl
  cases t with
  | nic => exact iff_of_false hremoved fun h => NodeType.noConfusion h.1.1
  | switch =>
      unfold transmitted
      dsimp only
      split
      next hi => exact (and_iff_right ⟨rfl, hi⟩).symm
      next hi => exact iff_of_false hremoved fun h => hi h.1.2

end TaggedPacket

/-! ## Runs -/

namespace Network

variable {N D : Type} [DecidableEq N] [DecidableEq D] {net : Topology N D}
  {s next : Network N D} {event : HopEvent D}

/-- At a switch every packet is in the FIFO of its class, and of class 7 exactly the PFC frames have
no flow tag. -/
structure Sorted (net : Topology N D) (s : Network N D) : Prop where
  held : ∀ d, net.nodeType (net.node d) = .switch → ∀ p ∈ s.held (net.node d),
    p.isPfc = false ∧ p.tags.Carries .flowIdTag
  fifo : ∀ d, net.nodeType (net.node d) = .switch → ∀ i, ∀ p ∈ s.queues d i,
    i = BEgressQueue.classQueue (Nic.sendClass p.packet) ∧
      (Nic.sendClass p.packet = 7 → (p.tags.Carries .flowIdTag ↔ p.isPfc = false))

omit [DecidableEq N] [DecidableEq D] in
theorem start_sorted : Sorted net start where
  held := fun _ _ _ hmem => nomatch hmem
  fifo := fun _ _ _ _ hmem => nomatch hmem

omit [DecidableEq N] in
theorem mem_enqueue {d : D} {i : Fin fCnt} {p : TaggedPacket} {d' : D} {i' : Fin fCnt}
    {x : TaggedPacket} (h : x ∈ (s.enqueue d i p).queues d' i') :
    (d' = d ∧ i' = i ∧ x = p) ∨ x ∈ s.queues d' i' := by
  unfold enqueue at h
  dsimp only at h
  by_cases hd : d' = d
  · subst hd
    rw [Function.update_self] at h
    by_cases hi : i' = i
    · subst hi
      rw [Function.update_self, List.mem_append, List.mem_singleton] at h
      rcases h with h | h
      · exact Or.inr h
      · exact Or.inl ⟨rfl, rfl, h⟩
    · rw [Function.update_of_ne hi] at h
      exact Or.inr h
  · rw [Function.update_of_ne hd] at h
    exact Or.inr h

omit [DecidableEq N] in
/-- A packet enters a FIFO of a switch with the tag that its class asks for. -/
theorem Sorted.enqueue (h : Sorted net s) {d : D} {i : Fin fCnt} {p : TaggedPacket}
    (hsends : sendsTo net d i p)
    (htag : net.nodeType (net.node d) = .switch → Nic.sendClass p.packet = 7 →
      (p.tags.Carries .flowIdTag ↔ p.isPfc = false)) : Sorted net (s.enqueue d i p) where
  held := h.held
  fifo := by
    intro d' hswitch i' x hx
    rcases mem_enqueue hx with ⟨rfl, rfl, rfl⟩ | hx
    · exact ⟨hsends hswitch, htag hswitch⟩
    · exact h.fifo d' hswitch i' x hx

theorem Sorted.step (h : Sorted net s) (hstep : s.step net event = some next) :
    Sorted net next := by
  cases event with
  | originate d i p =>
      rw [Network.step] at hstep
      split at hstep
      next hcond =>
        obtain rfl := Option.some.inj hstep
        refine h.enqueue hcond.1 fun hswitch hclass => ?_
        obtain ⟨hpfc, htags⟩ := hcond.2 hswitch hclass
        rw [hpfc, PacketTagList.Carries, htags]
        exact iff_of_false List.not_mem_nil (by decide)
      · cases hstep
  | arrive d corrupt =>
      rw [Network.step] at hstep
      split at hstep
      · cases hstep
      next p rest hwire =>
        dsimp only at hstep
        split at hstep
        · obtain rfl := Option.some.inj hstep
          exact ⟨h.held, h.fifo⟩
        · rw [Option.map_eq_some_iff] at hstep
          obtain ⟨up, hup, rfl⟩ := hstep
          refine ⟨fun d' hswitch x hx => ?_, h.fifo⟩
          dsimp only at hx
          by_cases hnode : net.node d' = net.node d
          · rw [hnode, Function.update_self, List.mem_append, Option.mem_toList] at hx
            rcases hx with hx | rfl
            · exact h.held d (hnode ▸ hswitch) x hx
            · rw [← hnode, hswitch] at hup
              obtain ⟨hpfc, -, -, hcarries⟩ := TaggedPacket.receive_switch hup
              exact ⟨hpfc, hcarries⟩
          · rw [Function.update_of_ne hnode] at hx
            exact h.held d' hswitch x hx
  | forward d i k =>
      rw [Network.step] at hstep
      split at hstep
      · cases hstep
      next p hp =>
        split at hstep
        next hsends =>
          obtain rfl := Option.some.inj hstep
          refine h.enqueue hsends fun hswitch _ => ?_
          obtain ⟨hpfc, hcarries⟩ := h.held d hswitch p (List.mem_of_getElem? hp)
          exact iff_of_true hcarries hpfc
        · cases hstep
  | transmit d i =>
      rw [Network.step] at hstep
      split at hstep
      · cases hstep
      next p rest hqueue =>
        obtain rfl := Option.some.inj hstep
        refine ⟨h.held, fun d' hswitch i' x hx => h.fifo d' hswitch i' x ?_⟩
        dsimp only at hx
        by_cases hd : d' = d
        · subst hd
          rw [Function.update_self] at hx
          by_cases hi : i' = i
          · subst hi
            rw [Function.update_self] at hx
            rw [hqueue]
            exact List.mem_cons_of_mem p hx
          · rwa [Function.update_of_ne hi] at hx
        · rwa [Function.update_of_ne hd] at hx

omit [DecidableEq N] [DecidableEq D] in
theorem start_wireUntagged : WireUntagged net start := fun _ _ hmem => nomatch hmem

omit [DecidableEq N] [DecidableEq D] in
/-- The wire is clean where its packets carry no flow tag. -/
theorem wireUntagged_iff :
    WireUntagged net s ↔ ∀ d, ∀ p ∈ s.wire d, ¬ p.tags.Carries .flowIdTag := by
  constructor
  · intro h d p hp
    exact (h d p hp).1
  · intro h d p hp
    exact ⟨h d p hp, TaggedPacket.isSome_receive (h d p hp)⟩

omit [DecidableEq N] [DecidableEq D] in
theorem wireUntagged_congr (h : WireUntagged net s)
    (hwire : ∀ d, ∀ p ∈ next.wire d, p ∈ s.wire d) : WireUntagged net next :=
  fun d p hp => h d p (hwire d p hp)

omit [DecidableEq N] in
/-- The packet that a device transmits is the only new one on the wire. -/
theorem transmit_untagged_iff (hsorted : Sorted net s) (h : WireUntagged net s) {d : D}
    {i : Fin fCnt} {p : TaggedPacket} {rest : List TaggedPacket} (hqueue : s.queues d i = p :: rest)
    (hnext : next.wire = Function.update s.wire (net.peer d)
      (s.wire (net.peer d) ++ [p.transmitted (net.nodeType (net.node d)) i])) :
    WireUntagged net next ↔ s.OnlyPfcBypasses net (.transmit d i) := by
  have hcarries : ¬ (p.transmitted (net.nodeType (net.node d)) i).tags.Carries .flowIdTag ↔
      s.OnlyPfcBypasses net (.transmit d i) := by
    rw [TaggedPacket.carries_transmitted]
    constructor
    · intro hnot hswitch hi p' rest' hp'
      rw [hqueue] at hp'
      obtain ⟨rfl, -⟩ := List.cons.inj hp'
      obtain ⟨hfifo, hpfc⟩ := hsorted.fifo d hswitch i p (hqueue ▸ List.mem_cons_self)
      rw [hi] at hfifo
      by_contra hnotPfc
      rw [Bool.not_eq_true] at hnotPfc
      have hclass := BEgressQueue.classQueue_injective hfifo
      exact hnot ⟨⟨hswitch, hi⟩, (hpfc hclass.symm).mpr hnotPfc⟩
    · rintro hclear ⟨⟨hswitch, hi⟩, hcarried⟩
      obtain ⟨hfifo, hpfc⟩ := hsorted.fifo d hswitch i p (hqueue ▸ List.mem_cons_self)
      have hisPfc := hclear hswitch hi p rest hqueue
      rw [hi] at hfifo
      have hclass := BEgressQueue.classQueue_injective hfifo
      rw [(hpfc hclass.symm).mp hcarried] at hisPfc
      cases hisPfc
  rw [← hcarries, wireUntagged_iff, hnext]
  rw [wireUntagged_iff] at h
  constructor
  · intro hwire
    apply hwire (net.peer d)
    rw [Function.update_self]
    exact List.mem_append_right _ List.mem_cons_self
  · intro htransmitted d' x hx
    by_cases hd : d' = net.peer d
    · rw [hd, Function.update_self, List.mem_append, List.mem_singleton] at hx
      rcases hx with hx | rfl
      · exact h (net.peer d) x hx
      · exact htransmitted
    · rw [Function.update_of_ne hd] at hx
      exact h d' x hx

theorem step_untagged_iff (hsorted : Sorted net s) (h : WireUntagged net s)
    (hstep : s.step net event = some next) :
    WireUntagged net next ↔ s.OnlyPfcBypasses net event := by
  cases event with
  | originate d i p =>
      rw [Network.step] at hstep
      split at hstep
      · obtain rfl := Option.some.inj hstep
        exact iff_of_true (wireUntagged_congr h fun _ _ hx => hx) trivial
      · cases hstep
  | arrive d corrupt =>
      have hwire : ∀ d', ∀ x ∈ next.wire d', x ∈ s.wire d' := by
        rw [Network.step] at hstep
        split at hstep
        · cases hstep
        next p rest hwire =>
          have hnext : next.wire = Function.update s.wire d rest := by
            dsimp only at hstep
            split at hstep
            · obtain rfl := Option.some.inj hstep
              rfl
            · rw [Option.map_eq_some_iff] at hstep
              obtain ⟨up, -, rfl⟩ := hstep
              rfl
          intro d' x hx
          rw [hnext] at hx
          by_cases hd : d' = d
          · rw [hd, Function.update_self] at hx
            rw [hd, hwire]
            exact List.mem_cons_of_mem p hx
          · rwa [Function.update_of_ne hd] at hx
      exact iff_of_true (wireUntagged_congr h hwire) trivial
  | forward d i k =>
      rw [Network.step] at hstep
      split at hstep
      · cases hstep
      · split at hstep
        · obtain rfl := Option.some.inj hstep
          exact iff_of_true (wireUntagged_congr h fun _ _ hx => hx) trivial
        · cases hstep
  | transmit d i =>
      rw [Network.step] at hstep
      split at hstep
      · cases hstep
      next p rest hqueue =>
        obtain rfl := Option.some.inj hstep
        exact transmit_untagged_iff hsorted h hqueue rfl

/-- In every network and every run, no packet on the wire carries a flow tag, and no `Receive` fails
its assertion, exactly if no switch transmits a frame of class 7 that is no PFC frame. -/
theorem wire_untagged_iff (net : Topology N D) (events : List (HopEvent D)) :
    Throughout (step net) (WireUntagged net) start events ↔
      EachStep (step net) (fun s event _ => s.OnlyPfcBypasses net event) start events := by
  rw [throughout_iff_eachStep, and_iff_right start_wireUntagged]
  refine eachStep_iff_of_invariant (I := fun s => Sorted net s ∧ WireUntagged net s) ?_ ?_
    ⟨start_sorted, start_wireUntagged⟩ events
  · rintro s event next ⟨hsorted, h⟩ hstep
    exact step_untagged_iff hsorted h hstep
  · rintro s event next ⟨hsorted, h⟩ hstep hclear
    exact ⟨hsorted.step hstep, (step_untagged_iff hsorted h hstep).mpr hclear⟩

inductive LineNode
  | host
  | near
  | far
deriving DecidableEq

inductive LineDevice
  | host
  | nearIn
  | nearOut
  | farIn
deriving DecidableEq

/-- A NIC and two switches in a row. -/
def line : Topology LineNode LineDevice where
  node
    | .host => .host
    | .nearIn | .nearOut => .near
    | .farIn => .far
  nodeType
    | .host => .nic
    | .near | .far => .switch
  ifIndex
    | .nearOut => 2
    | _ => 1
  peer
    | .host => .nearIn
    | .nearIn => .host
    | .nearOut => .farIn
    | .farIn => .nearOut

/-- A notification of the NIC passes the first switch. -/
def cnpForwarded : List (HopEvent LineDevice) :=
  [.originate .host 0 ⟨{ Packet.sample 0 with protocol := Protocol.cnp }, .empty⟩,
    .transmit .host 0, .arrive .nearIn false, .forward .nearOut (BEgressQueue.classQueue 7) 0,
    .transmit .nearOut (BEgressQueue.classQueue 7)]

/-- It carries the tag of the first switch to the second one, whose `Receive` fails. -/
theorem cnpForwarded_tagged :
    ¬ Throughout (step line) (WireUntagged line) start cnpForwarded := by
  intro h
  have hrun : (run (step line) start cnpForwarded).any (fun s =>
      (s.wire .farIn).any fun p => decide (p.tags.Carries .flowIdTag)) = true := by
    decide +kernel
  rw [Option.any_eq_true] at hrun
  obtain ⟨s, hrun, hany⟩ := hrun
  rw [List.any_eq_true] at hany
  obtain ⟨p, hp, hcarries⟩ := hany
  exact ((h.last hrun) .farIn p hp).1 (of_decide_eq_true hcarries)

end Network

end Ns3Rdma
