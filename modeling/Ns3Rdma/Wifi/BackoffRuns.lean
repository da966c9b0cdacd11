import Ns3Rdma.Wifi.BackoffSampling

/-! # Runs with additional samplings

Over a whole history, a manager that executes `UpdateBackoff` at additional instants has the same
back-off ends as one that does not, and grants no access before them. -/

namespace Ns3Rdma.Wifi

open Medium StepSystem

namespace DcfManager

variable {count : ℕ} {m : DcfManager count} {now : ℕ}

/-! ## What an event keeps -/

theorem Started.startBackoffNow {i : Fin count} {nSlots : UInt32} {next : DcfManager count}
    (h : m.Started now) (hfits : nSlots.toNat * m.medium.slotTimeUs.toNat < 2 ^ 32)
    (hstep : m.startBackoffNow now i nSlots = some next) : next.Started now := by
  unfold DcfManager.startBackoffNow at hstep
  split at hstep
  · obtain rfl := Option.some_inj.mp hstep
    exact h.setState hfits (Nat.le_refl _)
  · exact absurd hstep (by simp)

theorem Started.request {i : Fin count} {collisionSlots : UInt32} {next : DcfManager count}
    (h : m.Started now) (hfits : collisionSlots.toNat * m.medium.slotTimeUs.toNat < 2 ^ 32)
    (hstep : m.request now i collisionSlots = some next) : next.Started now := by
  obtain ⟨middle, hmiddle, hnext⟩ := Option.bind_eq_some_iff.mp hstep
  have hupdate := h.updateBackoff
  have hmiddle' : middle.Started now ∧ middle.medium = m.medium := by
    unfold notifyAccessRequested at hmiddle
    split at hmiddle
    · exact absurd hmiddle (by simp)
    · obtain rfl := Option.some_inj.mp hmiddle
      exact ⟨hupdate.setState (hupdate.fits i) (hupdate.started i), rfl⟩
  unfold notifyCollision at hnext
  split at hnext
  · exact hmiddle'.1.startBackoffNow (hmiddle'.2 ▸ hfits) hnext
  · obtain rfl := Option.some_inj.mp hnext
    exact hmiddle'.1

theorem Started.abortRx {next : DcfManager count} (h : m.Started now)
    (hstep : m.abortRx now = some next) : next.Started now := by
  unfold DcfManager.abortRx at hstep
  split at hstep
  · split at hstep
    · obtain rfl := Option.some_inj.mp hstep
      exact h.medium rfl
    · exact absurd hstep (by simp)
  · obtain rfl := Option.some_inj.mp hstep
    exact h

/-- Every event keeps the back-offs within their bounds. -/
theorem Started.step {e : Event count} {next : DcfManager count} (h : m.Started now)
    (hacc : m.Accountable now (some e)) (hstep : m.step now e = some next) : next.Started now := by
  cases e with
  | rxStart duration =>
      obtain rfl := Option.some_inj.mp hstep
      exact h.updateBackoff.medium rfl
  | rxEndOk =>
      obtain rfl := Option.some_inj.mp hstep
      exact h.medium rfl
  | rxEndError =>
      obtain rfl := Option.some_inj.mp hstep
      exact h.medium rfl
  | txStart duration =>
      obtain ⟨middle, hmiddle, rfl⟩ := Option.map_eq_some_iff.mp hstep
      exact (h.abortRx hmiddle).updateBackoff.medium rfl
  | maybeCcaBusyStart duration =>
      obtain rfl := Option.some_inj.mp hstep
      exact h.updateBackoff.medium rfl
  | navReset duration =>
      obtain rfl := Option.some_inj.mp hstep
      have hmedium : Started
          { m.updateBackoff now with
            medium := { m.medium with lastNavStart := now, lastNavDuration := duration } } now :=
        h.updateBackoff.medium rfl
      exact hmedium.updateBackoff
  | navStart duration =>
      rw [DcfManager.step, notifyNavStartNow_eq] at hstep
      split at hstep
      · split at hstep
        · obtain rfl := Option.some_inj.mp hstep
          exact h.updateBackoff.medium rfl
        · obtain rfl := Option.some_inj.mp hstep
          exact h.updateBackoff
      · exact absurd hstep (by simp)
  | ackTimeoutStart duration =>
      rw [DcfManager.step, notifyAckTimeoutStartNow] at hstep
      split at hstep
      · obtain rfl := Option.some_inj.mp hstep
        exact h.medium rfl
      · exact absurd hstep (by simp)
  | ackTimeoutReset =>
      obtain rfl := Option.some_inj.mp hstep
      exact h.medium rfl
  | ctsTimeoutStart duration =>
      obtain rfl := Option.some_inj.mp hstep
      exact h.medium rfl
  | ctsTimeoutReset =>
      obtain rfl := Option.some_inj.mp hstep
      exact h.medium rfl
  | requestAccess i collisionSlots =>
      obtain ⟨middle, hmiddle, rfl⟩ := Option.map_eq_some_iff.mp hstep
      exact (h.request hacc.2 hmiddle).doGrantAccess
  | accessTimeout =>
      obtain rfl := Option.some_inj.mp hstep
      exact h.updateBackoff.doGrantAccess
  | startBackoff i nSlots => exact h.startBackoffNow hacc hstep

/-! ## Grants -/

variable (now) in
theorem getBackoffEndFor_updateBackoffOf {m : Medium} {s : DcfState} (hfits : m.Fits s) :
    m.getBackoffEndFor (m.updateBackoffOf s now) = m.getBackoffEndFor s := by
  have hrefl : m.Sampled now s s := .inl (Same.of_fields rfl rfl rfl rfl)
  exact (hrefl.sample hfits).getBackoffEndFor hfits

theorem le_now_of_granted {i : Fin count} (h : m.granted now = some i) :
    m.medium.getBackoffEndFor (m.states i) ≤ now := by
  unfold granted at h
  have hfound := List.find?_some h
  rw [Bool.and_eq_true, decide_eq_true_eq] at hfound
  exact hfound.2

/-- A collision starts a back-off that does not end before the one that is over. -/
theorem getBackoffEndFor_le_of_collision {m : Medium} {s : DcfState} {nSlots : UInt32}
    (hzero : s.backoffSlots = 0) (hstart : s.backoffStart ≤ now)
    (h : m.getBackoffEndFor { s with backoffSlots := nSlots, backoffStart := now } ≤ now) :
    m.getBackoffEndFor s ≤ now := by
  have hslots : microSeconds (s.backoffSlots * m.slotTimeUs) = 0 := by
    rw [hzero, UInt32.zero_mul]
    rfl
  unfold getBackoffEndFor getBackoffStartFor at h ⊢
  rw [hslots]
  dsimp only at h
  omega

/-- Access is granted to a DCF only when the back-off end from before the event has come. -/
theorem getBackoffEndFor_le_of_grants {e : Event count} {i : Fin count} (h : m.Started now)
    (hgrants : m.grants now e = some i) : m.medium.getBackoffEndFor (m.states i) ≤ now := by
  have hupdate := h.updateBackoff
  rw [← getBackoffEndFor_updateBackoffOf now (h.fits i)]
  cases e with
  | accessTimeout => exact le_now_of_granted hgrants
  | requestAccess j collisionSlots =>
      obtain ⟨last, hlast, hgranted⟩ := Option.bind_eq_some_iff.mp hgrants
      obtain ⟨middle, hmiddle, hlast⟩ := Option.bind_eq_some_iff.mp hlast
      have hend := le_now_of_granted hgranted
      -- Requesting access changes no back-off.
      obtain ⟨hmedium, hfields⟩ : middle.medium = m.medium ∧ ∀ k,
          (middle.states k).aifsn = (m.medium.updateBackoffOf (m.states k) now).aifsn ∧
          (middle.states k).backoffSlots =
            (m.medium.updateBackoffOf (m.states k) now).backoffSlots ∧
          (middle.states k).backoffStart =
            (m.medium.updateBackoffOf (m.states k) now).backoffStart := by
        unfold notifyAccessRequested at hmiddle
        split at hmiddle
        · exact absurd hmiddle (by simp)
        · obtain rfl := Option.some_inj.mp hmiddle
          refine ⟨rfl, fun k => ?_⟩
          simp only [setState, updateBackoff]
          by_cases hk : k = j
          · rw [hk, Function.update_self]
            exact ⟨rfl, rfl, rfl⟩
          · rw [Function.update_of_ne hk]
            exact ⟨rfl, rfl, rfl⟩
      have hsame : middle.medium.getBackoffEndFor (middle.states i) =
          m.medium.getBackoffEndFor (m.medium.updateBackoffOf (m.states i) now) := by
        unfold getBackoffEndFor getBackoffStartFor
        rw [hmedium, (hfields i).1, (hfields i).2.1, (hfields i).2.2]
      rw [← hsame]
      unfold notifyCollision at hlast
      split at hlast
      · unfold DcfManager.startBackoffNow at hlast
        split at hlast
        · next hzero =>
          obtain rfl := Option.some_inj.mp hlast
          simp only [setState] at hend
          by_cases hij : i = j
          · subst hij
            rw [Function.update_self] at hend
            refine getBackoffEndFor_le_of_collision hzero ?_ hend
            rw [(hfields i).2.2]
            exact hupdate.started i
          · rw [Function.update_of_ne hij] at hend
            exact hend
        · exact absurd hlast (by simp)
      · obtain rfl := Option.some_inj.mp hlast
        exact hend
  | _ => exact absurd hgrants (by simp [grants])

/-! ## Histories -/

/-- An element of a history is an event, or an instant at which `UpdateBackoff` is executed in
addition; here nothing is. -/
def unsampledStep (m : DcfManager count) (a : ℕ × Option (Event count)) :
    Option (DcfManager count) :=
  match a.2 with
  | none => some m
  | some e => m.step a.1 e

/-- `UpdateBackoff` is executed at the additional instants. -/
def sampledStep (m : DcfManager count) (a : ℕ × Option (Event count)) :
    Option (DcfManager count) :=
  match a.2 with
  | none => some (m.updateBackoff a.1)
  | some e => m.step a.1 e

/-- The second manager has been sampled more often. -/
structure Related (now : ℕ) (m m' : DcfManager count) : Prop where
  started : m.Started now
  medium : m'.medium = m.medium
  states : ∀ i, m.medium.Sampled now (m.states i) (m'.states i)

theorem Related.later {m' : DcfManager count} {later : ℕ} (h : Related now m m')
    (hle : now ≤ later) : Related later m m' :=
  ⟨h.started.later hle, h.medium, fun i => (h.states i).later hle⟩

theorem Related.started' {m' : DcfManager count} (h : Related now m m') : m'.Started now where
  fits i := by
    rw [h.medium]
    exact (h.states i).fits (h.started.fits i)
  started i := (h.states i).backoffStart_le (h.started.started i)

theorem Related.step {m' next : DcfManager count} {a : Option (Event count)}
    (h : Related now m m') (hacc : m.Accountable now a)
    (hstep : unsampledStep m (now, a) = some next) :
    ∃ next', sampledStep m' (now, a) = some next' ∧ Related now next next' := by
  cases a with
  | none =>
      obtain rfl := Option.some_inj.mp hstep
      refine ⟨_, rfl, h.started, h.medium, fun i => ?_⟩
      show m.medium.Sampled now (m.states i) (m'.medium.updateBackoffOf (m'.states i) now)
      rw [h.medium]
      exact (h.states i).sample (h.started.fits i)
  | some e =>
      obtain ⟨med, states⟩ := m
      obtain ⟨med', states'⟩ := m'
      obtain rfl : med' = med := h.medium
      obtain ⟨next', hnext', hmedium, hstates⟩ := step_sampled h.states h.started hacc hstep
      exact ⟨next', hnext', h.started.step hacc hstep, hmedium, hstates⟩

/-- The two managers stay related over a history. -/
theorem Related.run {m' final : DcfManager count} {history : List (ℕ × Option (Event count))}
    (h : Related now m m') (horder : (history.map Prod.fst).Pairwise (· ≤ ·))
    (hnow : ∀ a ∈ history, now ≤ a.1)
    (hacc : EachStep unsampledStep (fun m a _ => m.Accountable a.1 a.2) m history)
    (hrun : run unsampledStep m history = some final) :
    ∃ final', run sampledStep m' history = some final' ∧
      ∀ later, now ≤ later → (∀ a ∈ history, a.1 ≤ later) → Related later final final' := by
  induction history generalizing now m m' with
  | nil =>
      obtain rfl := Option.some_inj.mp hrun
      exact ⟨m', rfl, fun later hle _ => h.later hle⟩
  | cons a history ih =>
      obtain ⟨next, hnext, hrest⟩ := Option.bind_eq_some_iff.mp hrun
      obtain ⟨hhead, htail⟩ := eachStep_cons.mp hacc next hnext
      rw [List.map_cons, List.pairwise_cons] at horder
      have hle := hnow a List.mem_cons_self
      obtain ⟨next', hnext', hrelated⟩ := (h.later hle).step hhead hnext
      obtain ⟨final', hfinal', hlater⟩ := ih hrelated horder.2
        (fun b hb => horder.1 b.1 (List.mem_map_of_mem hb)) htail hrest
      refine ⟨final', ?_, fun later hnowle hall => ?_⟩
      · rw [run_cons_of_step _ hnext']
        exact hfinal'
      · exact hlater later (hall a List.mem_cons_self) fun b hb =>
          hall b (List.mem_cons_of_mem _ hb)

theorem exists_later (history : List (ℕ × Option (Event count))) :
    ∃ later, ∀ a ∈ history, a.1 ≤ later := by
  induction history with
  | nil => exact ⟨0, by simp⟩
  | cons a history ih =>
      obtain ⟨later, hlater⟩ := ih
      refine ⟨max a.1 later, fun b hb => ?_⟩
      rcases List.mem_cons.mp hb with rfl | hb
      · exact Nat.le_max_left _ _
      · exact (hlater b hb).trans (Nat.le_max_right _ _)

theorem related_new (slotTimeUs : UInt32) (sifs eifsNoDifs : ℕ) (aifsn : Fin count → UInt32) :
    Related 0 (new slotTimeUs sifs eifsNoDifs aifsn) (new slotTimeUs sifs eifsNoDifs aifsn) where
  started :=
    { fits := fun i => by
        show (0 : UInt32).toNat * slotTimeUs.toNat < 2 ^ 32
        simp
      started := fun i => Nat.le_refl _ }
  medium := rfl
  states i := .inl (Same.of_fields rfl rfl rfl rfl)

/-- In every history whose elements meet the condition, the additional samplings change no back-off
end, no update subtracts more slots than there are, and access is granted only when the back-off end
from before the event has come. -/
theorem sampling_changes_no_backoffEnd (slotTimeUs : UInt32) (sifs eifsNoDifs : ℕ)
    (aifsn : Fin count → UInt32) (history : List (ℕ × Option (Event count)))
    (horder : (history.map Prod.fst).Pairwise (· ≤ ·))
    (hacc : EachStep unsampledStep (fun m a _ => m.Accountable a.1 a.2)
      (new slotTimeUs sifs eifsNoDifs aifsn) history)
    (final : DcfManager count)
    (hrun : run unsampledStep (new slotTimeUs sifs eifsNoDifs aifsn) history =
      some final) :
    ∃ final', run sampledStep (new slotTimeUs sifs eifsNoDifs aifsn) history =
        some final' ∧
      (∀ i, final'.medium.getBackoffEndFor (final'.states i) =
        final.medium.getBackoffEndFor (final.states i)) ∧
      (∀ i now, final'.medium.slotsToSubtract (final'.states i) now ≤
        (final'.states i).backoffSlots) ∧
      ∀ now e i, (∀ a ∈ history, a.1 ≤ now) → final'.grants now e = some i →
        final.medium.getBackoffEndFor (final.states i) ≤ now := by
  obtain ⟨final', hfinal', hlater⟩ := (related_new slotTimeUs sifs eifsNoDifs aifsn).run horder
    (fun a _ => Nat.zero_le _) hacc hrun
  have hend {now : ℕ} (hall : ∀ a ∈ history, a.1 ≤ now) (i : Fin count) :
      final'.medium.getBackoffEndFor (final'.states i) =
        final.medium.getBackoffEndFor (final.states i) := by
    have h := hlater now (Nat.zero_le _) hall
    rw [h.medium]
    exact (h.states i).getBackoffEndFor (h.started.fits i)
  obtain ⟨later, hall⟩ := exists_later history
  refine ⟨final', hfinal', hend hall, fun i now => slotsToSubtract_le _ _ _,
    fun now e i hall hgrants => ?_⟩
  rw [← hend hall i]
  exact getBackoffEndFor_le_of_grants (hlater now (Nat.zero_le _) hall).started' hgrants

/-- A back-off of 10 slots that is sampled after 5 of them. -/
theorem sampling_changes_no_backoffEnd_rx :
    let history : List (ℕ × Option (Event 1)) :=
      [(1000000, some (.startBackoff 0 10)), (1046000, none), (1050000, some (.rxStart 30000))]
    ∃ final', run sampledStep (new 9 16000 0 fun _ => 2) history = some final' ∧
      final'.medium.getBackoffEndFor (final'.states 0) = 1159000 := by
  intro history
  have hacc : EachStep unsampledStep (fun m a _ => m.Accountable a.1 a.2)
      (new 9 16000 0 fun _ => 2) history := by
    have hfits : (10 : UInt32).toNat * (9 : UInt32).toNat < 2 ^ 32 := by decide
    refine eachStep_cons.mpr fun next hnext => ⟨hfits, ?_⟩
    obtain rfl := Option.some_inj.mp hnext
    refine eachStep_cons.mpr fun next hnext => ⟨fun i => .inr ?_, ?_⟩
    · obtain rfl : i = 0 := Subsingleton.elim i 0
      decide
    · obtain rfl := Option.some_inj.mp hnext
      refine eachStep_cons.mpr fun next hnext => ⟨fun i => .inr ?_, by simp⟩
      obtain rfl : i = 0 := Subsingleton.elim i 0
      decide
  obtain ⟨final', hrun, hend, -, -⟩ :=
    sampling_changes_no_backoffEnd 9 16000 0 (fun _ => 2) history (by decide) hacc _ rfl
  exact ⟨final', hrun, (hend 0).trans rfl⟩

/-- An ACK timeout begins while a back-off is counted: 5 slots are lost unless they have been
subtracted just before. -/
theorem sampling_changes_backoffEnd :
    let history : List (ℕ × Option (Event 1)) :=
      [(1000000, some (.startBackoff 0 10)), (1046000, none),
        (1046000, some (.ackTimeoutStart 100000))]
    (run sampledStep (new 9 16000 0 fun _ => 2) history).map
        (fun m => m.medium.getBackoffEndFor (m.states 0)) = some 1225000 ∧
      (run unsampledStep (new 9 16000 0 fun _ => 2) history).map
        (fun m => m.medium.getBackoffEndFor (m.states 0)) = some 1270000 := by
  decide

end DcfManager

end Ns3Rdma.Wifi
