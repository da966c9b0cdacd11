import Ns3Rdma.Nic.Delivery

/-! # What the receiver answers

In go-back-N mode an ACK answers the packet that was expected and carries the number
expected next. A NACK answers a packet beyond it and carries the number still expected. A
packet received before is not answered. -/

namespace Ns3Rdma

/-- How the results of the sequence check depend on the packet. -/
theorem RxFlow.receiverCheckSeq_result {c : RxConfig} {f : RxFlow} {seq : UInt32} {now : Nat}
    {checked : SeqCheck × RxFlow} (h : f.receiverCheckSeq c seq now = some checked) :
    (checked.1 = .generateAck → seq = f.receiverNextExpectedSeq) ∧
      (checked.1 = .generateNack → f.receiverNextExpectedSeq < seq) := by
  unfold receiverCheckSeq at h
  dsimp only at h
  split at h
  next heq =>
    refine ⟨fun _ => heq, ?_⟩
    split at h
    · cases h
      intro hnack
      cases hnack
    · split at h
      · cases h
      · split at h
        · cases h
          intro hnack
          cases hnack
        · cases h
          intro hnack
          cases hnack
  next hne =>
    split at h
    next hlt =>
      refine ⟨?_, fun _ => hlt⟩
      split at h
      · split at h
        · split at h
          · cases h
          · cases h
            intro hack
            cases hack
        · cases h
          intro hack
          cases hack
      · cases h
        intro hack
        cases hack
    next =>
      cases h
      constructor
      · intro hack
        cases hack
      · intro hnack
        cases hnack

/-- The sequence check is defined when chunks are enabled. -/
theorem RxFlow.receiverCheckSeq_isSome {c : RxConfig} (hchunk : c.chunk ≠ 0) (f : RxFlow)
    (seq : UInt32) (now : Nat) : (f.receiverCheckSeq c seq now).isSome = true := by
  unfold receiverCheckSeq
  dsimp only
  repeat' split
  all_goals rfl

namespace Receiver

variable {c : RxConfig} {s : Receiver} {a : Arrival}

/-- The frames that a new flow causes are congestion notifications. -/
theorem lookup_sent {found : Found} (h : s.lookup c a = some found) {f : Feedback}
    (hf : f ∈ found.sent) : ∃ cnHead, f = .cnp cnHead := by
  unfold lookup at h
  split at h
  · cases h
    cases hf
  · split at h
    · cases h
      dsimp only at hf
      unfold RxFlow.checkandSendQCN at hf
      split at hf
      · cases hf
      · dsimp only at hf
        split at hf
        · obtain rfl := List.mem_singleton.mp hf
          exact ⟨_, rfl⟩
        · cases hf
    · cases h

/-- Everything that `Receive` answers to an uncorrupted packet. -/
theorem receive_eq_some {result : Receiver × List Feedback} (h : s.receive c a = some result)
    (hcorrupt : a.corrupt = false) : ∃ found checked, s.lookup c a = some found ∧
      found.flow.receiverCheckSeq c a.packet.seq a.now = some checked ∧
        result.2 = found.sent ++ checked.2.answer (key a.packet) checked.1 := by
  unfold receive at h
  rw [hcorrupt, if_neg Bool.false_ne_true, Option.bind_eq_some_iff] at h
  obtain ⟨found, hlookup, h⟩ := h
  rw [Option.map_eq_some_iff] at h
  obtain ⟨checked, hcheck, rfl⟩ := h
  exact ⟨found, checked, hlookup, hcheck, rfl⟩

theorem receive_corrupt {result : Receiver × List Feedback} (h : s.receive c a = some result)
    (hcorrupt : a.corrupt = true) : result = (s, []) := by
  unfold receive at h
  rw [if_pos hcorrupt] at h
  exact (Option.some.inj h).symm

theorem step_of_receive {result : Receiver × List Feedback} (h : s.receive c a = some result) :
    s.step c a = some result.1 := by
  unfold step
  rw [h]
  rfl

/-- The answers to one packet, in go-back-N mode. -/
theorem receive_answers (hback : c.backto0 = false) {result : Receiver × List Feedback}
    (h : s.receive c a = some result) {f : Feedback} (hf : f ∈ result.2) :
    (∃ cnHead, f = .cnp cnHead) ∨
      f = .ack ⟨a.packet.pg, s.expected (key a.packet) + 1, a.packet.sourcePort⟩ ∧
          a.packet.seq = s.expected (key a.packet) ∨
        f = .nack ⟨a.packet.pg, s.expected (key a.packet), a.packet.sourcePort⟩ ∧
          s.expected (key a.packet) < a.packet.seq := by
  cases hcorrupt : a.corrupt with
  | true =>
      rw [receive_corrupt h hcorrupt] at hf
      cases hf
  | false =>
      obtain ⟨found, checked, hlookup, hcheck, hanswers⟩ := receive_eq_some h hcorrupt
      have hexpected := lookup_expected hlookup
      have hresult := RxFlow.receiverCheckSeq_result hcheck
      have hnext := (RxFlow.receiverCheckSeq_eq_some hback hcheck).1
      rw [hexpected] at hresult hnext
      rw [hanswers, List.mem_append] at hf
      rcases hf with hf | hf
      · exact Or.inl (lookup_sent hlookup hf)
      · right
        cases hkind : checked.1 with
        | generateAck =>
            rw [hkind] at hf
            obtain rfl := List.mem_singleton.mp hf
            have hseq := hresult.1 hkind
            rw [if_pos hseq] at hnext
            refine Or.inl ⟨?_, hseq⟩
            rw [hnext]
            rfl
        | generateNack =>
            rw [hkind] at hf
            obtain rfl := List.mem_singleton.mp hf
            have hlt := hresult.2 hkind
            rw [if_neg (fun heq => by rw [heq] at hlt; exact UInt32.lt_irrefl _ hlt)] at hnext
            refine Or.inr ⟨?_, hlt⟩
            rw [hnext]
            rfl
        | duplicate => rw [hkind] at hf; cases hf
        | gap => rw [hkind] at hf; cases hf
        | inOrder => rw [hkind] at hf; cases hf

end Receiver

end Ns3Rdma
