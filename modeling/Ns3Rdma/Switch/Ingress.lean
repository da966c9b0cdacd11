import Ns3Rdma.Lib.StepSystem
import Ns3Rdma.Lib.Tally
import Ns3Rdma.Lib.Word
import Ns3Rdma.Switch.BroadcomNode

/-!
# Ingress accounting and admission of the shared-buffer switch

Arriving packets are charged to the switch, their service pool, their ingress port and
their priority group when both admission checks accept them. A packet is discharged
once, at any later time. The egress counters, which the egress check reads, may change
at any time in any way.
-/

namespace Ns3Rdma

open StepSystem

/-- A packet that the switch has admitted and not yet forwarded. -/
structure Buffered where
  pg : QueueId
  psize : UInt32
deriving DecidableEq

/-- Bytes of the buffered packets whose priority group has the given key. -/
def bytesBy {κ : Type} [DecidableEq κ] (key : QueueId → κ) (buffered : List Buffered) (k : κ) : ℕ :=
  Tally.items (fun p : Buffered => key p.pg) (fun p => p.psize.toNat) buffered k

/-- A switch together with the packets it has charged and not yet discharged. -/
structure IngressRun where
  node : BroadcomNode
  buffered : List Buffered

inductive IngressEvent where
  /-- A packet of priority group `pg` arrives, to be sent by egress queue `q`. -/
  | arrive (pg q : QueueId) (psize : UInt32)
  | remove (packet : Buffered)
  | updateEgress (q : QueueId) (psize : UInt32)
  | removeEgress (q : QueueId) (psize : UInt32)

namespace IngressRun

def start (t : Thresholds) : IngressRun where
  node := BroadcomNode.start t
  buffered := []

/-- Both admission checks, in the order in which `Send` makes them. -/
def admits (s : IngressRun) (pg q : QueueId) (psize : UInt32) : Bool :=
  s.node.checkIngressAdmission pg psize && s.node.checkEgressAdmission q psize

/-- A refused packet is dropped; only a packet of the switch can be removed. -/
def step (s : IngressRun) : IngressEvent → Option IngressRun
  | .arrive pg q psize =>
      if s.admits pg q psize then some
        { node := s.node.updateIngressAdmission pg psize
          buffered := ⟨pg, psize⟩ :: s.buffered }
      else some s
  | .remove packet =>
      if packet ∈ s.buffered then some
        { node := s.node.removeFromIngressAdmission packet.pg packet.psize
          buffered := s.buffered.erase packet }
      else none
  | .updateEgress q psize => some { s with node := s.node.updateEgressAdmission q psize }
  | .removeEgress q psize => some { s with node := s.node.removeFromEgressAdmission q psize }

/-- The ingress counters are the sizes of the buffered packets, by switch, pool, port and
priority group, and stay within the buffer and above the headroom. -/
structure Sound (s : IngressRun) : Prop where
  total : s.node.usedTotalBytes.toNat = bytesBy (fun _ => ()) s.buffered ()
  pool : ∀ sp, (s.node.usedIngressSPBytes sp).toNat = bytesBy BroadcomNode.getIngressSP s.buffered sp
  port : ∀ p, (s.node.usedIngressPortBytes p).toNat = bytesBy Prod.fst s.buffered p
  group : ∀ pg, (s.node.usedIngressPGBytes pg).toNat = bytesBy id s.buffered pg
  headroom : ∀ pg, s.node.usedIngressPGHeadroomBytes pg ≤ s.node.usedIngressPGBytes pg
  capacity : s.node.usedTotalBytes ≤ maxBufferBytes

theorem sound_start (t : Thresholds) : (start t).Sound where
  total := rfl
  pool := fun _ => rfl
  port := fun _ => rfl
  group := fun _ => rfl
  headroom := fun _ => UInt32.le_refl _
  capacity := (by decide : (0 : UInt32) ≤ maxBufferBytes)

section Counters

variable {κ : Type} [DecidableEq κ] (key : QueueId → κ) (counter : κ → UInt32)
  {buffered : List Buffered}

theorem bytesBy_le_total (key : QueueId → κ) (buffered : List Buffered) (k : κ) :
    bytesBy key buffered k ≤ bytesBy (fun _ => ()) buffered () :=
  Tally.items_le_total _ _ _ _

/-- Charging a packet to the counter of its key. -/
theorem counter_arrive (h : ∀ k, (counter k).toNat = bytesBy key buffered k) {pg : QueueId}
    {psize : UInt32} (hfits : (counter (key pg)).toNat + psize.toNat < 2 ^ 32) (k : κ) :
    (Function.update counter (key pg) (counter (key pg) + psize) k).toNat =
      bytesBy key (⟨pg, psize⟩ :: buffered) k := by
  unfold bytesBy at h ⊢
  rw [Tally.items_cons, ← h]
  by_cases hk : k = key pg
  · subst hk
    rw [Function.update_self, UInt32.toNat_add_of_lt hfits, if_pos rfl, Nat.add_comm]
  · rw [Function.update_of_ne hk, if_neg (Ne.symm hk), Nat.zero_add]

theorem psize_le_counter (h : ∀ k, (counter k).toNat = bytesBy key buffered k)
    {packet : Buffered} (hmem : packet ∈ buffered) :
    packet.psize.toNat ≤ (counter (key packet.pg)).toNat := by
  have herase := Tally.items_erase (fun p : Buffered => key p.pg) (fun p => p.psize.toNat) hmem
    (key packet.pg)
  rw [if_pos rfl] at herase
  rw [h]
  unfold bytesBy
  omega

/-- Discharging a buffered packet from the counter of its key. -/
theorem counter_remove (h : ∀ k, (counter k).toNat = bytesBy key buffered k)
    {packet : Buffered} (hmem : packet ∈ buffered) (k : κ) :
    (Function.update counter (key packet.pg) (counter (key packet.pg) - packet.psize) k).toNat =
      bytesBy key (buffered.erase packet) k := by
  have herase := Tally.items_erase (fun p : Buffered => key p.pg) (fun p => p.psize.toNat) hmem k
  have hk := h k
  unfold bytesBy at hk ⊢
  by_cases heq : k = key packet.pg
  · subst heq
    rw [if_pos rfl] at herase
    rw [Function.update_self, UInt32.toNat_sub_of_toNat_le (psize_le_counter key counter h hmem)]
    omega
  · rw [if_neg (Ne.symm heq)] at herase
    rw [Function.update_of_ne heq]
    omega

end Counters

/-- The sizes for which `usedTotalBytes + psize` cannot wrap. The layer above sends no
packet beyond a 16-bit MTU, which is far below. -/
def WellSized (psize : UInt32) : Prop :=
  psize.toNat + maxBufferBytes.toNat < 2 ^ 32

theorem sound_arrive {s : IngressRun} (h : s.Sound) {pg q : QueueId} {psize : UInt32}
    (hsize : WellSized psize) (haccepted : s.admits pg q psize = true) :
    Sound { node := s.node.updateIngressAdmission pg psize
            buffered := ⟨pg, psize⟩ :: s.buffered } := by
  unfold WellSized at hsize
  have hcheck := BroadcomNode.checkIngressAdmission_total (Bool.and_eq_true_iff.mp haccepted).1
  have htotal := UInt32.le_iff_toNat_le.mp h.capacity
  have hgroup := h.group pg
  have hheadroom := UInt32.le_iff_toNat_le.mp (h.headroom pg)
  -- every counter is at most the total, which has room for the packet
  have hroom : ∀ {κ : Type} [DecidableEq κ] (key : QueueId → κ) (counter : κ → UInt32),
      (∀ k, (counter k).toNat = bytesBy key s.buffered k) →
      (counter (key pg)).toNat + psize.toNat < 2 ^ 32 := by
    intro κ _ key counter hcounter
    have hle := bytesBy_le_total key s.buffered (key pg)
    have := h.total
    rw [hcounter]
    omega
  have hgroupRoom := hroom id _ h.group
  refine ⟨?_, ?_, ?_, ?_, ?_, hcheck⟩
  · exact counter_arrive (fun _ => ()) (fun _ => s.node.usedTotalBytes)
      (fun _ => h.total) (by omega) ()
  · exact counter_arrive _ _ h.pool (hroom _ _ h.pool)
  · exact counter_arrive _ _ h.port (hroom _ _ h.port)
  · exact counter_arrive _ _ h.group hgroupRoom
  · intro i
    rw [BroadcomNode.updateIngressAdmission_headroom]
    by_cases hi : i = pg
    · subst hi
      simp only [BroadcomNode.updateIngressAdmission, Function.update_self, true_and]
      simp only [id] at hgroupRoom
      rw [UInt32.le_iff_toNat_le, UInt32.toNat_add_of_lt hgroupRoom]
      split
      · rw [UInt32.toNat_add_of_lt (by omega)]
        omega
      · omega
    · rw [if_neg (fun hcase => hi hcase.1)]
      simp only [BroadcomNode.updateIngressAdmission, Function.update_of_ne hi]
      exact h.headroom i

theorem sound_remove {s : IngressRun} (h : s.Sound) {packet : Buffered}
    (hmem : packet ∈ s.buffered) :
    Sound { node := s.node.removeFromIngressAdmission packet.pg packet.psize
            buffered := s.buffered.erase packet } := by
  have hsize := psize_le_counter (fun _ => ()) (fun _ => s.node.usedTotalBytes)
    (fun _ => h.total) hmem
  refine ⟨?_, ?_, ?_, ?_, ?_, ?_⟩
  · exact counter_remove (fun _ => ()) (fun _ => s.node.usedTotalBytes) (fun _ => h.total) hmem ()
  · exact counter_remove _ _ h.pool hmem
  · exact counter_remove _ _ h.port hmem
  · exact counter_remove _ _ h.group hmem
  · intro i
    have hi := UInt32.le_iff_toNat_le.mp (h.headroom i)
    rw [UInt32.le_iff_toNat_le, BroadcomNode.removeFromIngressAdmission_headroom]
    by_cases heq : i = packet.pg
    · subst heq
      have hgroup := psize_le_counter id _ h.group hmem
      simp only [id] at hgroup
      simp only [BroadcomNode.removeFromIngressAdmission, Function.update_self, ite_true]
      rw [UInt32.toNat_sub_of_toNat_le hgroup]
      omega
    · simp only [BroadcomNode.removeFromIngressAdmission, Function.update_of_ne heq,
        if_neg heq, Nat.sub_zero]
      exact hi
  · have hcap := UInt32.le_iff_toNat_le.mp h.capacity
    simp only [BroadcomNode.removeFromIngressAdmission]
    rw [UInt32.le_iff_toNat_le, UInt32.toNat_sub_of_toNat_le hsize]
    omega

/-- Soundness reads the ingress counters only. -/
theorem Sound.congr {s : IngressRun} (h : s.Sound) {node : BroadcomNode}
    (hsame : node.toIngressCounters = s.node.toIngressCounters) :
    Sound { s with node := node } := by
  obtain ⟨total, pool, port, group, headroom, capacity⟩ := h
  rw [← hsame] at total pool port group headroom capacity
  exact ⟨total, pool, port, group, headroom, capacity⟩

/-- The arriving packets of an event are small enough to be added without wrapping. -/
def EventSized : IngressEvent → Prop
  | .arrive _ _ psize => WellSized psize
  | _ => True

theorem sound_step {s next : IngressRun} {event : IngressEvent} (h : s.Sound)
    (hstep : step s event = some next) (hsize : EventSized event) : next.Sound := by
  cases event with
  | arrive pg q psize =>
      simp only [step] at hstep
      split at hstep
      next haccepted =>
        obtain rfl := Option.some.inj hstep
        exact sound_arrive h hsize haccepted
      next =>
        obtain rfl := Option.some.inj hstep
        exact h
  | remove packet =>
      simp only [step] at hstep
      split at hstep
      next hmem =>
        obtain rfl := Option.some.inj hstep
        exact sound_remove h hmem
      next => cases hstep
  | updateEgress q psize =>
      obtain rfl := Option.some.inj hstep
      exact h.congr (s.node.updateEgressAdmission_frame q psize).2
  | removeEgress q psize =>
      obtain rfl := Option.some.inj hstep
      exact h.congr (s.node.removeFromEgressAdmission_frame q psize).2

/-- In every run of admitted arrivals and departures, whatever the limits, the ingress
counters are exact, headroom stays within its group and the buffer is never exceeded. -/
theorem ingress_sound (t : Thresholds) (events : List IngressEvent)
    (hsize : ∀ event ∈ events, EventSized event) :
    Throughout step Sound (start t) events := by
  refine throughout_of_eachStep (D := fun _ event _ => EventSized event)
    (fun s event next h hstep hevent => sound_step h hstep hevent) (sound_start t) ?_
  intro done event rest state next heq _ _
  exact hsize event (by simp [heq])

/-- A packet of 1030 bytes arrives at the default switch and leaves again. -/
theorem ingress_sound_run : Throughout step Sound (start .default)
    [.arrive (0, 3) (1, 3) 1030, .remove ⟨(0, 3), 1030⟩] :=
  ingress_sound .default _ (by
    intro event hevent
    rcases List.mem_cons.mp hevent with rfl | hevent
    · show 1030 + 9000000 < 2 ^ 32
      decide
    · rw [List.mem_singleton.mp hevent]
      trivial)

/-- The check tested the headroom of the group: the packet exceeds both guarantees and
finds its pool beyond the limit. -/
def HeadroomTested (b : BroadcomNode) (pg : QueueId) (psize : UInt32) : Prop :=
  (b.usedIngressPGBytes pg + psize > b.pgMinCell ∧
    b.usedIngressPortBytes pg.1 + psize > b.portMinCell) ∧
  b.usedIngressSPBytes (BroadcomNode.getIngressSP pg) > b.bufferCellLimitSp

/-- An admitted packet that is charged to the headroom was tested against it, or leaves
its whole group within the limit of the headroom. -/
def ChargesWithinReach (s : IngressRun) : IngressEvent → Prop
  | .arrive pg q psize =>
      s.admits pg q psize = true → s.node.ChargesHeadroom pg psize →
        HeadroomTested s.node pg psize ∨
          (s.node.usedIngressPGBytes pg).toNat + psize.toNat ≤ s.node.pgHdrmLimit.toNat
  | _ => True

instance (s : IngressRun) (event : IngressEvent) : Decidable (s.ChargesWithinReach event) := by
  cases event <;> (unfold ChargesWithinReach HeadroomTested; infer_instance)

/-- No priority group uses more than its headroom limit. -/
def HeadroomBounded (s : IngressRun) : Prop :=
  ∀ pg, s.node.usedIngressPGHeadroomBytes pg ≤ s.node.pgHdrmLimit

theorem HeadroomTested.room {b : BroadcomNode} {pg : QueueId} {psize : UInt32}
    (h : HeadroomTested b pg psize) (hcheck : b.checkIngressAdmission pg psize = true) :
    b.usedIngressPGHeadroomBytes pg + psize ≤ b.pgHdrmLimit := by
  unfold BroadcomNode.checkIngressAdmission at hcheck
  split at hcheck
  next => cases hcheck
  next =>
    rw [if_pos h.1, if_pos h.2] at hcheck
    split at hcheck
    next => cases hcheck
    next hle => exact UInt32.not_lt.mp hle

/-- The charged packet finds room: its admission tested the headroom, or the headroom is
part of a group that fits into it. -/
theorem headroom_charged_le {s : IngressRun} (h : s.Sound) {pg q : QueueId} {psize : UInt32}
    (haccepted : s.admits pg q psize = true) (hcharge : s.node.ChargesHeadroom pg psize)
    (hreach : s.ChargesWithinReach (.arrive pg q psize)) :
    s.node.usedIngressPGHeadroomBytes pg + psize ≤ s.node.pgHdrmLimit := by
  obtain htested | hfits := hreach haccepted hcharge
  · exact htested.room (Bool.and_eq_true_iff.mp haccepted).1
  · have hgroup := UInt32.le_iff_toNat_le.mp (h.headroom pg)
    have hlimit := s.node.pgHdrmLimit.toNat_lt
    rw [UInt32.le_iff_toNat_le, UInt32.toNat_add_of_lt (by omega)]
    omega

/-- One event keeps every headroom within its limit when its charge is within reach. -/
theorem headroom_step {s next : IngressRun} {event : IngressEvent} (h : s.Sound)
    (hbounded : s.HeadroomBounded) (hstep : step s event = some next)
    (hreach : s.ChargesWithinReach event) : next.HeadroomBounded := by
  cases event with
  | arrive pg q psize =>
      simp only [step] at hstep
      split at hstep
      next haccepted =>
        obtain rfl := Option.some.inj hstep
        intro i
        rw [BroadcomNode.updateIngressAdmission_headroom]
        split
        next hcharge =>
          obtain ⟨rfl, hcharge⟩ := hcharge
          exact headroom_charged_le h haccepted hcharge hreach
        next => exact hbounded i
      next =>
        obtain rfl := Option.some.inj hstep
        exact hbounded
  | remove packet =>
      simp only [step] at hstep
      split at hstep
      next =>
        obtain rfl := Option.some.inj hstep
        intro i
        have hi := UInt32.le_iff_toNat_le.mp (hbounded i)
        rw [UInt32.le_iff_toNat_le, BroadcomNode.removeFromIngressAdmission_headroom]
        exact (Nat.sub_le _ _).trans hi
      next => cases hstep
  | updateEgress q psize =>
      obtain rfl := Option.some.inj hstep
      obtain ⟨hlimits, hcounters⟩ := s.node.updateEgressAdmission_frame q psize
      unfold HeadroomBounded
      dsimp only
      rw [hlimits, hcounters]
      exact hbounded
  | removeEgress q psize =>
      obtain rfl := Option.some.inj hstep
      obtain ⟨hlimits, hcounters⟩ := s.node.removeFromEgressAdmission_frame q psize
      unfold HeadroomBounded
      dsimp only
      rw [hlimits, hcounters]
      exact hbounded

/-- For any limits, headroom stays within its limit along every run in which each charged
packet was tested or leaves its group within the limit. -/
theorem headroom_bounded (t : Thresholds) (events : List IngressEvent)
    (hsize : ∀ event ∈ events, EventSized event)
    (hreach : EachStep step (fun s event _ => s.ChargesWithinReach event) (start t) events) :
    Throughout step HeadroomBounded (start t) events := by
  have hstart : (start t).HeadroomBounded := fun _ => UInt32.zero_le
  refine Throughout.mono (P := fun s => s.Sound ∧ s.HeadroomBounded) (fun s h => h.2) ?_
  refine throughout_of_eachStep
    (D := fun s event _ => EventSized event ∧ s.ChargesWithinReach event) ?_
    ⟨sound_start t, hstart⟩ ?_
  · rintro s event next ⟨hsound, hbounded⟩ hstep ⟨hsized, hcharge⟩
    exact ⟨sound_step hsound hstep hsized, headroom_step hsound hbounded hstep hcharge⟩
  · refine eachStep_and.mpr ⟨?_, hreach⟩
    intro done event rest state next heq _ _
    exact hsize event (by simp [heq])

/-- A pool of 2000 bytes and a headroom of the given size for each group. -/
def poolOf2000 (pgHdrmLimit : UInt32) : Thresholds :=
  Thresholds.default.setBroadcomParams
    { bufferCellLimitSp := 2000, pgMinCell := 1030, portMinCell := 1030
      pgSharedLimitCell := 20600, portMaxSharedCell := 4944000, pgHdrmLimit := pgHdrmLimit
      qMinCell := 1030, opUcPortConfig1Cell := maxBufferBytes
      opUcPortConfigCell := maxBufferBytes, opBufferSharedLimitCell := maxBufferBytes
      qSharedAlphaCell := 16 }

/-- With a headroom of 3000 bytes, the second packet is charged untested to a group that
fits, the third is tested and charged, the fourth is refused, and the first one leaves. -/
theorem headroom_bounded_run : Throughout step HeadroomBounded (start (poolOf2000 3000))
    [.arrive (0, 3) (2, 3) 1500, .arrive (1, 3) (2, 3) 1500, .arrive (1, 3) (2, 3) 1500,
      .arrive (1, 3) (2, 3) 1500, .remove ⟨(0, 3), 1500⟩] := by
  refine headroom_bounded (poolOf2000 3000) _ ?_ ?_
  · intro event hevent
    have hcases : event = .arrive (0, 3) (2, 3) 1500 ∨ event = .arrive (1, 3) (2, 3) 1500 ∨
        event = .remove ⟨(0, 3), 1500⟩ := by
      simpa [or_assoc] using hevent
    obtain rfl | rfl | rfl := hcases
    · exact (by decide : 1500 + 9000000 < 2 ^ 32)
    · exact (by decide : 1500 + 9000000 < 2 ^ 32)
    · trivial
  · exact eachStep_of_take (by decide)

/-- With a headroom of 500 bytes, the second packet finds the pool below its limit, so
headroom is not tested, and then fills the pool beyond the limit, so it is charged. -/
theorem smallPool_overcommits :
    ¬ Throughout step HeadroomBounded (start (poolOf2000 500))
      [.arrive (0, 3) (1, 3) 1500, .arrive (0, 3) (1, 3) 1500] := by
  intro h
  have hpg := h.last rfl (0, 3)
  revert hpg
  decide

end IngressRun

end Ns3Rdma
