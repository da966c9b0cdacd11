import Ns3Rdma.Lib.StepSystem
import Ns3Rdma.Lib.Word
import Ns3Rdma.Nic.Receiver

/-! # What the receiver hands up

In go-back-N mode the expected number of a flow counts its in-order packets. The packets
handed up are the same ones only as long as the network delivers every packet in order. -/

namespace Ns3Rdma

open StepSystem

/-- The effect of the sequence check in go-back-N mode. -/
theorem RxFlow.receiverCheckSeq_eq_some {c : RxConfig} (hback : c.backto0 = false)
    {f : RxFlow} {seq : UInt32} {now : Nat} {checked : SeqCheck × RxFlow}
    (h : f.receiverCheckSeq c seq now = some checked) :
    checked.2.receiverNextExpectedSeq =
        (if seq = f.receiverNextExpectedSeq then f.receiverNextExpectedSeq + 1
        else f.receiverNextExpectedSeq) ∧
      (checked.1.refuses = true ↔ seq ≠ f.receiverNextExpectedSeq) := by
  unfold receiverCheckSeq at h
  dsimp only at h
  split at h
  next heq =>
    rw [if_pos heq]
    split at h
    · cases h
      exact ⟨rfl, by simp [SeqCheck.refuses, heq]⟩
    · split at h
      · cases h
      · split at h
        · cases h
          exact ⟨rfl, by simp [SeqCheck.refuses, heq]⟩
        · cases h
          exact ⟨rfl, by simp [SeqCheck.refuses, heq]⟩
  next hne =>
    rw [if_neg hne]
    rw [hback, Bool.false_and] at h
    split at h
    · split at h
      · cases h
        exact ⟨rfl, by simp [SeqCheck.refuses, hne]⟩
      · cases h
        exact ⟨rfl, by simp [SeqCheck.refuses, hne]⟩
    · cases h
      exact ⟨rfl, by simp [SeqCheck.refuses, hne]⟩

namespace Receiver

variable (c : RxConfig)

/-- The sequence numbers handed up of a flow, oldest first. -/
def deliveredSeqs (s : Receiver) (k : FlowKey) : List UInt32 :=
  (s.delivered.filter fun p => key p = k).map Packet.seq

/-- Of every flow, exactly the numbers below the expected one were handed up, in order. -/
def InOrder (s : Receiver) : Prop :=
  ∀ k, s.deliveredSeqs k = (List.range (s.expected k).toNat).map UInt32.ofNat

/-- A packet that `ReceiverCheckSeq` refuses is not handed up. -/
def RefusedUndelivered (s : Receiver) (a : Arrival) (next : Receiver) : Prop :=
  a.corrupt = false → ∀ found checked, s.lookup c a = some found →
    found.flow.receiverCheckSeq c a.packet.seq a.now = some checked →
      checked.1.refuses = true → next.delivered = s.delivered

/-- Of the packets that pass the first error-model test, the second one drops those that
are not the next of their flow, and no other. The number of the next one is below 2^32 - 1. -/
def DropsOutOfOrder (s : Receiver) (a : Arrival) : Prop :=
  a.corrupt = false →
    (a.corruptAgain = true ↔ a.packet.seq ≠ s.expected (key a.packet)) ∧
    (a.packet.seq = s.expected (key a.packet) →
      (s.expected (key a.packet)).toNat + 1 < 2 ^ 32)

variable {c} {s next : Receiver} {a : Arrival}

theorem lookup_expected {found : Found} (h : s.lookup c a = some found) :
    found.flow.receiverNextExpectedSeq = s.expected (key a.packet) := by
  unfold lookup at h
  unfold expected
  split at h
  next f hf =>
    cases h
    rw [hf]
    dsimp only
    unfold RxFlow.countEcn
    split <;> rfl
  next hnone =>
    rw [hnone]
    split at h
    · cases h
      dsimp only
      unfold RxFlow.checkandSendQCN
      split <;> rfl
    · cases h

/-- Everything that one uncorrupted arrival does. -/
theorem step_eq_some (hstep : step c s a = some next) (hcorrupt : a.corrupt = false) :
    ∃ found checked, s.lookup c a = some found ∧
      found.flow.receiverCheckSeq c a.packet.seq a.now = some checked ∧
      next.flows = Function.update s.flows (key a.packet) (some checked.2) ∧
      next.delivered = if a.corruptAgain then s.delivered else s.delivered ++ [a.packet] := by
  unfold step receive at hstep
  rw [hcorrupt, if_neg Bool.false_ne_true, Option.map_eq_some_iff] at hstep
  obtain ⟨result, hreceive, rfl⟩ := hstep
  rw [Option.bind_eq_some_iff] at hreceive
  obtain ⟨found, hlookup, hcheck⟩ := hreceive
  rw [Option.map_eq_some_iff] at hcheck
  obtain ⟨checked, hcheck, rfl⟩ := hcheck
  refine ⟨found, checked, hlookup, hcheck, ?_, ?_⟩
  · unfold pointToPointReceive
    split <;> rfl
  · unfold pointToPointReceive
    split <;> rfl

theorem step_corrupt (hstep : step c s a = some next) (hcorrupt : a.corrupt = true) : next = s := by
  unfold step receive at hstep
  rw [if_pos hcorrupt] at hstep
  exact (Option.some.inj hstep).symm

theorem step_expected (hback : c.backto0 = false) (hstep : step c s a = some next)
    (hcorrupt : a.corrupt = false) (k : FlowKey) : next.expected k =
      if k = key a.packet ∧ a.packet.seq = s.expected k then s.expected k + 1
      else s.expected k := by
  obtain ⟨found, checked, hlookup, hcheck, hflows, -⟩ := step_eq_some hstep hcorrupt
  have hnext := (RxFlow.receiverCheckSeq_eq_some hback hcheck).1
  rw [lookup_expected hlookup] at hnext
  by_cases hk : k = key a.packet
  · subst hk
    rw [expected, hflows, Function.update_self, Option.elim_some, hnext]
    simp only [true_and]
  · rw [expected, hflows, Function.update_of_ne hk, if_neg (fun h => hk h.1)]
    rfl

theorem step_deliveredSeqs (hstep : step c s a = some next) (hcorrupt : a.corrupt = false)
    (k : FlowKey) : next.deliveredSeqs k =
      if a.corruptAgain = false ∧ k = key a.packet then s.deliveredSeqs k ++ [a.packet.seq]
      else s.deliveredSeqs k := by
  obtain ⟨-, -, -, -, -, hdelivered⟩ := step_eq_some hstep hcorrupt
  unfold deliveredSeqs
  rw [hdelivered]
  cases a.corruptAgain with
  | true => simp
  | false =>
      by_cases hk : k = key a.packet
      · subst hk
        simp
      · have hne : ¬ key a.packet = k := fun h => hk h.symm
        simp [hk, hne]

theorem range_succ_ofNat {e : UInt32} (h : e.toNat + 1 < 2 ^ 32) :
    (List.range (e + 1).toNat).map UInt32.ofNat = (List.range e.toNat).map UInt32.ofNat ++ [e] := by
  rw [UInt32.toNat_add_of_lt h]
  change (List.range (e.toNat + 1)).map UInt32.ofNat = _
  rw [List.range_succ, List.map_append, List.map_singleton, UInt32.ofNat_toNat]

theorem InOrder.length (h : s.InOrder) (k : FlowKey) :
    (s.deliveredSeqs k).length = (s.expected k).toNat := by
  rw [h k, List.length_map, List.length_range]

/-- Counting the packets handed up shows that the second test sorted them. -/
theorem dropsOutOfOrder_of_inOrder (hback : c.backto0 = false) (hstep : step c s a = some next)
    (h : s.InOrder) (hnext : next.InOrder) : s.DropsOutOfOrder a := by
  intro hcorrupt
  have hlength := h.length (key a.packet)
  have hlength' := hnext.length (key a.packet)
  rw [step_deliveredSeqs hstep hcorrupt, step_expected hback hstep hcorrupt] at hlength'
  simp only [and_true, true_and] at hlength'
  have hadd : (s.expected (key a.packet) + 1).toNat =
      ((s.expected (key a.packet)).toNat + 1) % 2 ^ 32 := UInt32.toNat_add _ _
  have hlt := UInt32.toNat_lt (s.expected (key a.packet))
  cases hagain : a.corruptAgain with
  | true =>
      rw [hagain, if_neg (by simp)] at hlength'
      refine ⟨iff_of_true rfl fun heq => ?_, fun heq => ?_⟩
      · rw [if_pos heq] at hlength'
        omega
      · rw [if_pos heq] at hlength'
        omega
  | false =>
      rw [hagain, if_pos rfl, List.length_append, List.length_singleton] at hlength'
      refine ⟨iff_of_false (by simp) fun hne => ?_, fun heq => ?_⟩
      · rw [if_neg hne] at hlength'
        omega
      · rw [if_pos heq] at hlength'
        omega

theorem inOrder_of_dropsOutOfOrder (hback : c.backto0 = false) (hstep : step c s a = some next)
    (h : s.InOrder) (hdrops : s.DropsOutOfOrder a) : next.InOrder := by
  cases hcorrupt : a.corrupt with
  | true =>
      rw [step_corrupt hstep hcorrupt]
      exact h
  | false =>
      obtain ⟨hagain, hfits⟩ := hdrops hcorrupt
      intro k
      rw [step_deliveredSeqs hstep hcorrupt, step_expected hback hstep hcorrupt, h k]
      by_cases hk : k = key a.packet
      · subst hk
        by_cases heq : a.packet.seq = s.expected (key a.packet)
        · have hfalse : a.corruptAgain = false := by
            rw [← Bool.not_eq_true, hagain, not_not]
            exact heq
          rw [if_pos ⟨hfalse, rfl⟩, if_pos ⟨rfl, heq⟩, range_succ_ofNat (hfits heq), heq]
        · have htrue : a.corruptAgain = true := hagain.mpr heq
          rw [if_neg (fun hand => by rw [htrue] at hand; cases hand.1),
            if_neg (fun hand => heq hand.2)]
      · rw [if_neg (fun hand => hk hand.2), if_neg (fun hand => hk hand.1)]

theorem refusedUndelivered_of_dropsOutOfOrder (hback : c.backto0 = false)
    (hstep : step c s a = some next) (hdrops : s.DropsOutOfOrder a) :
    s.RefusedUndelivered c a next := by
  intro hcorrupt found checked hlookup hcheck hrefuses
  obtain ⟨-, -, -, -, -, hdelivered⟩ := step_eq_some hstep hcorrupt
  have hne := (RxFlow.receiverCheckSeq_eq_some hback hcheck).2.mp hrefuses
  rw [lookup_expected hlookup] at hne
  rw [hdelivered, if_pos ((hdrops hcorrupt).1.mpr hne)]

theorem start_inOrder : start.InOrder := fun _ => rfl

/-- The packets handed up are in order throughout a run, and no refused packet is among them,
if and only if the second error-model test drops exactly the packets that are out of order. -/
theorem delivered_in_order_iff (hback : c.backto0 = false) (arrivals : List Arrival) :
    EachStep (step c) (fun s a next => s.RefusedUndelivered c a next ∧ next.InOrder) start
        arrivals ↔
      EachStep (step c) (fun s a _ => s.DropsOutOfOrder a) start arrivals := by
  refine eachStep_iff_of_invariant (I := InOrder) ?_ ?_ start_inOrder arrivals
  · intro s a next h hstep
    constructor
    · rintro ⟨-, hnext⟩
      exact dropsOutOfOrder_of_inOrder hback hstep h hnext
    · intro hdrops
      exact ⟨refusedUndelivered_of_dropsOutOfOrder hback hstep hdrops,
        inOrder_of_dropsOutOfOrder hback hstep h hdrops⟩
  · intro s a next h hstep hdrops
    exact inOrder_of_dropsOutOfOrder hback hstep h hdrops

/-- Go-back-N with the other attributes at their defaults. -/
def goBackN : RxConfig where
  qcnEnabled := true
  backto0 := false
  testRead := false
  chunk := 0
  ackInterval := 0
  nackInterval := 500

/-- Packet `seq` of one flow, on a link without an error model. -/
def arrival (seq : UInt32) : Arrival where
  packet := .sample seq
  now := 1000
  corrupt := false
  corruptAgain := false
  indeterminate := 0

theorem delivered_in_order_iff_run :
    EachStep (step goBackN) (fun s a next => s.RefusedUndelivered goBackN a next ∧ next.InOrder)
        start [arrival 0, arrival 1] ↔
      EachStep (step goBackN) (fun s a _ => s.DropsOutOfOrder a) start [arrival 0, arrival 1] :=
  delivered_in_order_iff rfl _

/-- The second packet of a flow overtakes the first. It is refused, and handed up. -/
theorem overtaking_delivered :
    ¬ EachStep (step goBackN)
      (fun s a next => s.RefusedUndelivered goBackN a next ∧ next.InOrder) start [arrival 1] := by
  intro h
  have hlength := (h [] (arrival 1) [] _ _ rfl rfl rfl).2.length (key (arrival 1).packet)
  revert hlength
  decide

end Receiver

end Ns3Rdma
