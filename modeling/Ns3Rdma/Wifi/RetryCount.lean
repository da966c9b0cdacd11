import Mathlib.Data.Finset.Dedup
import Mathlib.Data.List.TakeWhile
import Ns3Rdma.Wifi.BlockAckManager

/-! # Counting the packets to send again

The loops of `GetNRetryNeededPackets` and `GetSeqNumOfNextRetryPacket` go on only from a packet of
the agreement that they are called for. -/

namespace Ns3Rdma.Wifi

namespace BlockAckManager

variable (m : BlockAckManager) (key : AgreementKey)

/-- The loops of `GetNRetryNeededPackets`. The inner one looks at the number only. -/
def nRetryLoop : ℕ → List Item → ℕ → Option ℕ
  | 0, _, _ => none
  | _ + 1, [], nPackets => some nPackets
  | fuel + 1, it :: rest, nPackets =>
      if it.hdr.agreementKey = key then
        nRetryLoop fuel ((it :: rest).dropWhile fun other => other.hdr.seqSeq == it.hdr.seqSeq)
          (nPackets + 1)
      else nRetryLoop fuel (it :: rest) nPackets

def getNRetryNeededPackets (fuel : ℕ) : Option ℕ :=
  if (m.agreements.entry key).isSome then nRetryLoop key fuel m.retryPackets 0 else some 0

/-- The loop of `GetSeqNumOfNextRetryPacket`. -/
def nextRetryLoop : ℕ → List Item → Option UInt16
  | 0, _ => none
  | _ + 1, [] => some 4096
  | fuel + 1, it :: rest =>
      if it.hdr.agreementKey = key then some it.hdr.seqSeq else nextRetryLoop fuel (it :: rest)

def getSeqNumOfNextRetryPacket (fuel : ℕ) : Option UInt16 := nextRetryLoop key fuel m.retryPackets

/-! ## What the calls are for -/

/-- The numbers of the packets of the agreement. -/
def retryNumbers : List UInt16 :=
  (m.retryPackets.filter fun it => it.hdr.agreementKey = key).map fun it => it.hdr.seqSeq

/-- Both calls end, with the number of the packets and the number of the first one. -/
def CountsRetries : Prop :=
  (∃ fuel, m.getNRetryNeededPackets key fuel = some (m.retryNumbers key).toFinset.card) ∧
    ∃ fuel, m.getSeqNumOfNextRetryPacket key fuel = some ((m.retryNumbers key).headD 4096)

/-- The list consists of runs of packets with these numbers, each of which begins with a packet of
the agreement. -/
inductive RunsOf (key : AgreementKey) : List Item → List UInt16 → Prop
  | nil : RunsOf key [] []
  | run {it : Item} {run rest : List Item} {seqs : List UInt16} :
      it.hdr.agreementKey = key → (∀ other ∈ run, other.hdr.seqSeq = it.hdr.seqSeq) →
      (∀ other ∈ rest.head?, other.hdr.seqSeq ≠ it.hdr.seqSeq) → RunsOf key rest seqs →
      RunsOf key (it :: run ++ rest) (it.hdr.seqSeq :: seqs)

/-- There is nothing to send again, or an agreement with runs of numbers that do not come back. -/
def OnlyRunsOf : Prop :=
  m.retryPackets = [] ∨ (m.agreements.entry key).isSome ∧
    ∃ seqs, RunsOf key m.retryPackets seqs ∧ seqs.Nodup

variable {m key} {l : List Item} {seqs : List UInt16}

/-- The inner loop leaves the run. -/
theorem dropWhile_run {it : Item} {run rest : List Item}
    (hrun : ∀ other ∈ run, other.hdr.seqSeq = it.hdr.seqSeq)
    (hrest : ∀ other ∈ rest.head?, other.hdr.seqSeq ≠ it.hdr.seqSeq) :
    (it :: run ++ rest).dropWhile (fun other => other.hdr.seqSeq == it.hdr.seqSeq) = rest := by
  rw [List.dropWhile_append_of_pos]
  · cases rest with
    | nil => rfl
    | cons next rest =>
        exact List.dropWhile_cons_of_neg (by simpa using hrest next rfl)
  · intro other hother
    rcases List.mem_cons.mp hother with rfl | hother
    · exact beq_self_eq_true _
    · exact beq_iff_eq.mpr (hrun other hother)

theorem RunsOf.nRetryLoop (h : RunsOf key l seqs) (nPackets : ℕ) :
    nRetryLoop key (seqs.length + 1) l nPackets = some (nPackets + seqs.length) := by
  induction h generalizing nPackets with
  | nil => rfl
  | run hkey hrun hrest _ ih =>
      rw [List.cons_append]
      unfold BlockAckManager.nRetryLoop
      rw [if_pos hkey, ← List.cons_append, dropWhile_run hrun hrest, List.length_cons, ih]
      exact congrArg some (by omega)

/-- A loop that ends has found such runs. -/
theorem runsOf_of_nRetryLoop {fuel nPackets n : ℕ}
    (h : BlockAckManager.nRetryLoop key fuel l nPackets = some n) :
    ∃ seqs, RunsOf key l seqs ∧ n = nPackets + seqs.length := by
  induction fuel generalizing l nPackets with
  | zero => cases h
  | succ fuel ih =>
      cases l with
      | nil => exact ⟨[], .nil, (Option.some.inj h).symm⟩
      | cons it rest =>
          unfold BlockAckManager.nRetryLoop at h
          split at h
          · next hkey =>
            obtain ⟨seqs, hruns, hn⟩ := ih h
            rw [List.dropWhile_cons_of_pos (by exact beq_self_eq_true _)] at hruns
            refine ⟨it.hdr.seqSeq :: seqs, ?_, by rw [List.length_cons]; omega⟩
            have hsplit := List.takeWhile_append_dropWhile
              (p := fun other : Item => other.hdr.seqSeq == it.hdr.seqSeq) (l := rest)
            rw [← hsplit, ← List.cons_append]
            refine .run hkey (fun other hother => ?_) (fun other hother => ?_) hruns
            · have hsame := List.mem_takeWhile_imp hother
              exact beq_iff_eq.mp hsame
            · have hhead := List.head?_dropWhile_not
                (fun other : Item => other.hdr.seqSeq == it.hdr.seqSeq) rest
              rw [Option.mem_def.mp hother] at hhead
              simpa using hhead
          · exact ih h

theorem RunsOf.toFinset_eq (h : RunsOf key l seqs) :
    ((l.filter fun it => it.hdr.agreementKey = key).map fun it => it.hdr.seqSeq).toFinset =
      seqs.toFinset := by
  induction h with
  | nil => rfl
  | @run it run rest seqs hkey hrun _ _ ih =>
      rw [List.filter_append, List.map_append, List.toFinset_append, ih, List.toFinset_cons,
        List.filter_cons_of_pos (by simpa using hkey), List.map_cons, List.toFinset_cons,
        Finset.insert_union]
      -- The other packets of the run have the number of the first one.
      ext seq
      simp only [Finset.mem_insert, Finset.mem_union, List.mem_toFinset, List.mem_map,
        List.mem_filter]
      constructor
      · rintro (rfl | ⟨other, ⟨hother, -⟩, rfl⟩ | hseq)
        · exact Or.inl rfl
        · exact Or.inl (hrun other hother)
        · exact Or.inr hseq
      · rintro (rfl | hseq)
        · exact Or.inl rfl
        · exact Or.inr (Or.inr hseq)

theorem nextRetryLoop_cons {fuel : ℕ} {it : Item} {rest : List Item} {seq : UInt16}
    (h : nextRetryLoop key fuel (it :: rest) = some seq) : it.hdr.agreementKey = key := by
  induction fuel with
  | zero => cases h
  | succ fuel ih =>
      unfold nextRetryLoop at h
      split at h
      · assumption
      · exact ih h

theorem toFinset_card_eq_length_iff : seqs.toFinset.card = seqs.length ↔ seqs.Nodup := by
  rw [List.card_toFinset]
  constructor
  · intro h
    rw [← List.dedup_sublist seqs |>.eq_of_length h]
    exact List.nodup_dedup seqs
  · intro h
    rw [h.dedup]

/-- The calls do what they are for if and only if there is nothing to send again, or the list has
only such runs. -/
theorem countsRetries_iff (m : BlockAckManager) (key : AgreementKey) :
    m.CountsRetries key ↔ m.OnlyRunsOf key := by
  unfold CountsRetries OnlyRunsOf getNRetryNeededPackets getSeqNumOfNextRetryPacket retryNumbers
  cases m.retryPackets with
  | nil =>
      refine iff_of_true ⟨⟨1, ?_⟩, ⟨1, rfl⟩⟩ (Or.inl rfl)
      split <;> rfl
  | cons it rest =>
      constructor
      · rintro ⟨⟨fuel, hcount⟩, ⟨_, hnext⟩⟩
        have hkey := nextRetryLoop_cons hnext
        right
        split at hcount
        · next hagreement =>
          obtain ⟨seqs, hruns, hlength⟩ := runsOf_of_nRetryLoop hcount
          rw [hruns.toFinset_eq, Nat.zero_add] at hlength
          exact ⟨hagreement, seqs, hruns, toFinset_card_eq_length_iff.mp hlength⟩
        · rw [List.filter_cons_of_pos (by simpa using hkey), List.map_cons] at hcount
          have hcard := Option.some.inj hcount
          rw [eq_comm, Finset.card_eq_zero, List.toFinset_eq_empty_iff] at hcard
          exact absurd hcard (List.cons_ne_nil _ _)
      · rintro (hnil | ⟨hagreement, seqs, hruns, hnodup⟩)
        · exact absurd hnil (List.cons_ne_nil _ _)
        · refine ⟨⟨seqs.length + 1, ?_⟩, ⟨1, ?_⟩⟩
          · rw [if_pos hagreement, hruns.nRetryLoop, hruns.toFinset_eq, Nat.zero_add,
              toFinset_card_eq_length_iff.mpr hnodup]
          · have hkey : it.hdr.agreementKey = key := by
              cases hruns
              assumption
            rw [List.filter_cons_of_pos (by simpa using hkey)]
            unfold nextRetryLoop
            rw [if_pos hkey]
            rfl

/-- A packet to one station has to be sent again, and there are agreements with it and another. -/
def twoStations : BlockAckManager :=
  let first : Mac48Address := ⟨Vector.replicate 6 1⟩
  let second : Mac48Address := ⟨Vector.replicate 6 2⟩
  let item : Item := ⟨0, [], ⟨2, 8, false, false, first, second, 0, 7, 0⟩, 0⟩
  { agreements := (Registry.empty.put (first, 0) ⟨first, 0, .ESTABLISHED, 7, [item]⟩).put
      (second, 0) ⟨second, 0, .ESTABLISHED, 0, []⟩
    retryPackets := [item]
    nextName := 1
    now := 0 }

/-- The calls for the other station do not end. -/
theorem other_station_loops :
    ¬ twoStations.CountsRetries (⟨Vector.replicate 6 2⟩, 0) := by
  rintro ⟨-, fuel, hnext⟩
  exact absurd (nextRetryLoop_cons hnext) (by decide)

end BlockAckManager

end Ns3Rdma.Wifi
