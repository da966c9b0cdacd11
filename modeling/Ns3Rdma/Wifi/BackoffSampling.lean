import Ns3Rdma.Lib.StepSystem
import Ns3Rdma.Wifi.DcfManager

/-! # Back-off accounting at additional instants

`UpdateBackoff` may be executed at any instant: what it subtracts now it does not subtract later.
Two managers, of which one is sampled more often, are compared event by event. The comparison holds
as long as no event moves the start of the back-off while slots that have elapsed are not yet
subtracted. -/

namespace Ns3Rdma.Wifi

namespace Medium

variable (m : Medium) (s : DcfState) (now : ℕ)

/-- The whole slots of the back-off that have elapsed. -/
def elapsed : ℕ :=
  min ((now - m.getBackoffStartFor s) / 1000 / m.slotTimeUs.toNat) s.backoffSlots.toNat

/-- The back-off is counted in microseconds of 32 bits. -/
def Fits : Prop := s.backoffSlots.toNat * m.slotTimeUs.toNat < 2 ^ 32

/-- The microseconds since the back-off start do not wrap, or there is nothing to subtract. -/
def Counts : Prop := s.backoffSlots = 0 ∨ (now - m.getBackoffStartFor s) / 1000 < 2 ^ 32

/-- The end of the last reception, or of the current one. -/
def rxBase : ℕ := if m.rxing then m.lastRxStart + m.lastRxDuration else m.lastRxEnd

/-- A time that no access is granted before, whatever happens from now on. -/
def Settled (f : ℕ) : Prop := f ≤ m.rxBase ∨ f ≤ m.lastAckTimeoutEnd ∨ f ≤ m.lastCtsTimeoutEnd

/-- The medium is `next` after an event. -/
structure Advances (next : Medium) : Prop where
  rx : m.rxBase ≤ next.rxBase ∨ now ≤ next.rxBase
  ack : m.lastAckTimeoutEnd ≤ next.lastAckTimeoutEnd ∨ now ≤ next.lastAckTimeoutEnd
  cts : m.lastCtsTimeoutEnd ≤ next.lastCtsTimeoutEnd ∨ now ≤ next.lastCtsTimeoutEnd
  slotTimeUs : next.slotTimeUs = m.slotTimeUs

variable {m s now}

theorem Settled.advance {f : ℕ} {next : Medium} (h : m.Settled f) (hf : f ≤ now)
    (hnext : m.Advances now next) : next.Settled f := by
  rcases h with h | h | h
  · rcases hnext.rx with hle | hle
    · exact .inl (h.trans hle)
    · exact .inl (hf.trans hle)
  · rcases hnext.ack with hle | hle
    · exact .inr (.inl (h.trans hle))
    · exact .inr (.inl (hf.trans hle))
  · rcases hnext.cts with hle | hle
    · exact .inr (.inr (h.trans hle))
    · exact .inr (.inr (hf.trans hle))

theorem rxBase_le : m.rxBase ≤ m.rxAccessStart := by
  unfold rxBase rxAccessStart
  cases m.rxing with
  | true =>
      simp only [if_true, Bool.not_true, Bool.false_eq_true, if_false]
      exact Nat.le_add_right _ _
  | false =>
      simp only [Bool.false_eq_true, if_false, Bool.not_false, if_true]
      exact (Nat.le_add_right _ _).trans (Nat.le_add_right _ _)

theorem Settled.le {f : ℕ} (h : m.Settled f) : f ≤ m.getAccessGrantStart := by
  have hrx := m.rxBase_le
  unfold getAccessGrantStart
  rcases h with h | h | h
  · have := h.trans hrx
    omega
  · omega
  · omega

/-! ## What `UpdateBackoff` does -/

theorem toNat_min (a b : UInt32) : (min a b).toNat = min a.toNat b.toNat := by
  have hmin : min a b = if a ≤ b then a else b := rfl
  rw [hmin]
  split
  · next hle => exact (Nat.min_eq_left (UInt32.le_iff_toNat_le.mp hle)).symm
  · next hnot =>
    rw [UInt32.le_iff_toNat_le] at hnot
    exact (Nat.min_eq_right (Nat.le_of_not_le hnot)).symm

variable (m s now) in
theorem slotsToSubtract_le : m.slotsToSubtract s now ≤ s.backoffSlots := by
  rw [UInt32.le_iff_toNat_le, slotsToSubtract, toNat_min]
  exact Nat.min_le_right _ _

theorem elapsed_le_slots : m.elapsed s now ≤ s.backoffSlots.toNat := Nat.min_le_right _ _

variable (m s now) in
/-- The elapsed slots lie between the back-off start and now. -/
theorem elapsed_mul_le :
    m.elapsed s now * m.slotTimeUs.toNat * 1000 ≤ now - m.getBackoffStartFor s := by
  have h₁ : m.elapsed s now ≤ (now - m.getBackoffStartFor s) / 1000 / m.slotTimeUs.toNat :=
    Nat.min_le_left _ _
  have h₂ := Nat.div_mul_le_self ((now - m.getBackoffStartFor s) / 1000) m.slotTimeUs.toNat
  have h₃ := Nat.div_mul_le_self (now - m.getBackoffStartFor s) 1000
  calc m.elapsed s now * m.slotTimeUs.toNat * 1000
      ≤ (now - m.getBackoffStartFor s) / 1000 / m.slotTimeUs.toNat * m.slotTimeUs.toNat * 1000 :=
        Nat.mul_le_mul_right _ (Nat.mul_le_mul_right _ h₁)
    _ ≤ (now - m.getBackoffStartFor s) / 1000 * 1000 := Nat.mul_le_mul_right _ h₂
    _ ≤ now - m.getBackoffStartFor s := h₃

theorem microSeconds_slots {n : UInt32} (hn : n.toNat * m.slotTimeUs.toNat < 2 ^ 32) :
    microSeconds (n * m.slotTimeUs) = n.toNat * m.slotTimeUs.toNat * 1000 := by
  rw [microSeconds, UInt32.toNat_mul, Nat.mod_eq_of_lt hn]

variable (m s now) in
theorem toNat_slotsToSubtract :
    (m.slotsToSubtract s now).toNat ≤ m.elapsed s now ∧
      (m.Counts s now → (m.slotsToSubtract s now).toNat = m.elapsed s now) := by
  have hmin : (m.slotsToSubtract s now).toNat =
      min ((now - m.getBackoffStartFor s) / 1000 % 2 ^ 32 / m.slotTimeUs.toNat)
        s.backoffSlots.toNat := by
    rw [slotsToSubtract, toNat_min, UInt32.toNat_div, UInt32.toNat_ofNat']
  rw [hmin]
  constructor
  · exact min_le_min_right _ (Nat.div_le_div_right (Nat.mod_le _ _))
  · rintro (hzero | hlt)
    · rw [elapsed, hzero]
      simp
    · rw [Nat.mod_eq_of_lt hlt]
      rfl

theorem updateBackoffOf_of_lt (h : now < m.getBackoffStartFor s) : m.updateBackoffOf s now = s := by
  unfold updateBackoffOf
  exact if_neg (Nat.not_le.mpr h)

/-- A number of elapsed slots is subtracted, and the start moves by as many. All of them are if the
microseconds do not wrap. -/
theorem updateBackoffOf_spec (hle : m.getBackoffStartFor s ≤ now) (hfits : m.Fits s) :
    ∃ n ≤ m.elapsed s now, (m.updateBackoffOf s now).aifsn = s.aifsn ∧
      (m.updateBackoffOf s now).accessRequested = s.accessRequested ∧
      (m.updateBackoffOf s now).backoffSlots.toNat = s.backoffSlots.toNat - n ∧
      (m.updateBackoffOf s now).backoffStart =
        m.getBackoffStartFor s + n * m.slotTimeUs.toNat * 1000 ∧
      (m.Counts s now → n = m.elapsed s now) := by
  obtain ⟨hn, hcounts⟩ := toNat_slotsToSubtract m s now
  have hslots := slotsToSubtract_le m s now
  unfold updateBackoffOf
  rw [if_pos hle]
  refine ⟨_, hn, rfl, rfl, UInt32.toNat_sub_of_le _ _ hslots, ?_, hcounts⟩
  dsimp only
  rw [microSeconds_slots]
  exact (Nat.mul_le_mul_right _ (UInt32.le_iff_toNat_le.mp hslots)).trans_lt hfits

theorem backoffStart_le_of_started (hle : m.getBackoffStartFor s ≤ now) (hfits : m.Fits s) :
    (m.updateBackoffOf s now).backoffStart ≤ now := by
  obtain ⟨n, hn, -, -, -, hbound, -⟩ := updateBackoffOf_spec hle hfits
  have hmul := elapsed_mul_le m s now
  have := Nat.mul_le_mul_right 1000 (Nat.mul_le_mul_right m.slotTimeUs.toNat hn)
  omega

theorem backoffStart_updateBackoffOf_le (hstart : s.backoffStart ≤ now) (hfits : m.Fits s) :
    (m.updateBackoffOf s now).backoffStart ≤ now := by
  rcases Nat.lt_or_ge now (m.getBackoffStartFor s) with hlt | hle
  · rw [updateBackoffOf_of_lt hlt]
    exact hstart
  · exact backoffStart_le_of_started hle hfits

theorem getBackoffEndFor_eq (hfits : m.Fits s) : m.getBackoffEndFor s =
    m.getBackoffStartFor s + s.backoffSlots.toNat * m.slotTimeUs.toNat * 1000 := by
  rw [getBackoffEndFor, microSeconds_slots hfits]

theorem Fits.mono {s' : DcfState} (h : m.Fits s)
    (hle : s'.backoffSlots.toNat ≤ s.backoffSlots.toNat) : m.Fits s' :=
  (Nat.mul_le_mul_right _ hle).trans_lt h

/-! ## Two states of a DCF -/

variable (m now)

/-- The second state has the same slots, and the same start above a settled time. -/
structure Same (s s' : DcfState) : Prop where
  aifsn : s'.aifsn = s.aifsn
  accessRequested : s'.accessRequested = s.accessRequested
  slots : s'.backoffSlots = s.backoffSlots
  start : ∃ f ≤ now, m.Settled f ∧ max s'.backoffStart f = max s.backoffStart f

/-- Some of the elapsed slots have been subtracted in the second state only. -/
structure Ahead (s s' : DcfState) : Prop where
  aifsn : s'.aifsn = s.aifsn
  accessRequested : s'.accessRequested = s.accessRequested
  started : m.getBackoffStartFor s ≤ now
  ahead : ∃ n ≤ m.elapsed s now, s'.backoffSlots.toNat = s.backoffSlots.toNat - n ∧
    s'.backoffStart = m.getBackoffStartFor s + n * m.slotTimeUs.toNat * 1000

/-- The second state may have been sampled more often. -/
def Sampled (s s' : DcfState) : Prop := m.Same now s s' ∨ m.Ahead now s s'

variable {m now} {s' : DcfState}

theorem Same.getBackoffStartFor (h : m.Same now s s') :
    m.getBackoffStartFor s' = m.getBackoffStartFor s := by
  obtain ⟨f, -, hsettled, hmax⟩ := h.start
  have hf := hsettled.le
  unfold Medium.getBackoffStartFor
  rw [h.aifsn]
  omega

theorem Same.fits (h : m.Same now s s') (hfits : m.Fits s) : m.Fits s' :=
  hfits.mono (by rw [h.slots])

theorem Same.getBackoffEndFor (h : m.Same now s s') :
    m.getBackoffEndFor s' = m.getBackoffEndFor s := by
  unfold Medium.getBackoffEndFor
  rw [h.getBackoffStartFor, h.slots]

theorem Ahead.fits (h : m.Ahead now s s') (hfits : m.Fits s) : m.Fits s' := by
  obtain ⟨n, -, hslots, -⟩ := h.ahead
  exact hfits.mono (by omega)

theorem Ahead.getBackoffStartFor (h : m.Ahead now s s') :
    m.getBackoffStartFor s' = s'.backoffStart := by
  obtain ⟨n, -, -, hstart⟩ := h.ahead
  unfold Medium.getBackoffStartFor at hstart ⊢
  rw [h.aifsn]
  omega

theorem Ahead.backoffStart_le (h : m.Ahead now s s') : s'.backoffStart ≤ now := by
  obtain ⟨n, hn, -, hstart⟩ := h.ahead
  have hstarted := h.started
  have hmul := elapsed_mul_le m s now
  have := Nat.mul_le_mul_right 1000 (Nat.mul_le_mul_right m.slotTimeUs.toNat hn)
  omega

/-- Together, the second state's own elapsed slots and those it is ahead are the elapsed slots of
the first one. -/
theorem Ahead.elapsed (h : m.Ahead now s s') :
    ∃ n ≤ m.elapsed s now, s'.backoffSlots.toNat = s.backoffSlots.toNat - n ∧
      s'.backoffStart = m.getBackoffStartFor s + n * m.slotTimeUs.toNat * 1000 ∧
      m.elapsed s' now = m.elapsed s now - n := by
  obtain ⟨n, hn, hslots, hstart⟩ := h.ahead
  refine ⟨n, hn, hslots, hstart, ?_⟩
  have hdiv : (now - s'.backoffStart) / 1000 / m.slotTimeUs.toNat =
      (now - m.getBackoffStartFor s) / 1000 / m.slotTimeUs.toNat - n := by
    rw [hstart, ← Nat.sub_sub, Nat.mul_comm _ 1000, Nat.sub_mul_div, Nat.mul_comm n,
      Nat.sub_mul_div]
  unfold Medium.elapsed at hn ⊢
  rw [h.getBackoffStartFor, hdiv, hslots]
  omega

theorem Sampled.getBackoffEndFor (h : m.Sampled now s s') (hfits : m.Fits s) :
    m.getBackoffEndFor s' = m.getBackoffEndFor s := by
  rcases h with h | h
  · exact h.getBackoffEndFor
  · obtain ⟨n, hn, hslots, hstart⟩ := h.ahead
    have hle := hn.trans elapsed_le_slots
    rw [getBackoffEndFor_eq hfits, getBackoffEndFor_eq (h.fits hfits), h.getBackoffStartFor,
      hstart, hslots, Nat.add_assoc, ← Nat.add_mul, ← Nat.add_mul, Nat.add_sub_cancel' hle]

theorem Sampled.fits (h : m.Sampled now s s') (hfits : m.Fits s) : m.Fits s' := by
  rcases h with h | h
  · exact h.fits hfits
  · exact h.fits hfits

theorem Sampled.backoffStart_le (h : m.Sampled now s s') (hstart : s.backoffStart ≤ now) :
    s'.backoffStart ≤ now := by
  rcases h with h | h
  · obtain ⟨f, hf, -, hmax⟩ := h.start
    omega
  · exact h.backoffStart_le

/-- Time goes on. -/
theorem Sampled.later {later : ℕ} (h : m.Sampled now s s') (hle : now ≤ later) :
    m.Sampled later s s' := by
  rcases h with ⟨haifsn, haccess, hslots, f, hf, hstart⟩ |
    ⟨haifsn, haccess, hstarted, n, hn, hahead⟩
  · exact .inl ⟨haifsn, haccess, hslots, f, hf.trans hle, hstart⟩
  · refine .inr ⟨haifsn, haccess, hstarted.trans hle, n, hn.trans ?_, hahead⟩
    exact min_le_min_right _
      (Nat.div_le_div_right (Nat.div_le_div_right (Nat.sub_le_sub_right hle _)))

/-- What counts for the first state counts for the second one. -/
theorem Sampled.counts (h : m.Sampled now s s') (hcounts : m.Counts s now) : m.Counts s' now := by
  rcases h with h | h
  · unfold Counts
    rw [h.getBackoffStartFor, h.slots]
    exact hcounts
  · obtain ⟨n, hn, hslots, hstart⟩ := h.ahead
    rcases hcounts with hzero | hlt
    · refine .inl (UInt32.toNat_inj.mp ?_)
      rw [hslots, hzero]
      exact Nat.zero_sub _
    · refine .inr (lt_of_le_of_lt (Nat.div_le_div_right ?_) hlt)
      rw [h.getBackoffStartFor, hstart]
      exact Nat.sub_le_sub_left (Nat.le_add_right _ _) _

/-- After both have been updated they are the same. -/
theorem Sampled.updateBackoffOf (h : m.Sampled now s s') (hfits : m.Fits s)
    (hcounts : m.Counts s now) :
    m.Same now (m.updateBackoffOf s now) (m.updateBackoffOf s' now) := by
  have hcounts' := h.counts hcounts
  have hsettled : m.Settled 0 := .inl (Nat.zero_le _)
  rcases h with h | h
  · rcases Nat.lt_or_ge now (m.getBackoffStartFor s) with hlt | hle
    · rw [updateBackoffOf_of_lt hlt, updateBackoffOf_of_lt (h.getBackoffStartFor ▸ hlt)]
      exact h
    · have hstart := h.getBackoffStartFor
      obtain ⟨n, -, ha, hacc, hs, hb, hn⟩ := updateBackoffOf_spec hle hfits
      obtain ⟨n', -, ha', hacc', hs', hb', hn'⟩ :=
        updateBackoffOf_spec (s := s') (hstart ▸ hle) (h.fits hfits)
      have helapsed : m.elapsed s' now = m.elapsed s now := by
        rw [Medium.elapsed, hstart, h.slots]
        rfl
      have heq : n' = n := by rw [hn hcounts, hn' hcounts', helapsed]
      refine ⟨by rw [ha, ha', h.aifsn], by rw [hacc, hacc', h.accessRequested],
        UInt32.toNat_inj.mp (by rw [hs, hs', heq, h.slots]), 0, Nat.zero_le _, hsettled, ?_⟩
      rw [hb, hb', heq, hstart]
  · obtain ⟨k, hk, hslots, hstart, helapsed⟩ := h.elapsed
    have hstarted := h.getBackoffStartFor
    obtain ⟨n, -, ha, hacc, hs, hb, hn⟩ := updateBackoffOf_spec h.started hfits
    obtain ⟨n', -, ha', hacc', hs', hb', hn'⟩ :=
      updateBackoffOf_spec (s := s') (hstarted ▸ h.backoffStart_le) (h.fits hfits)
    have heq : k + n' = n := by
      rw [hn hcounts, hn' hcounts', helapsed]
      omega
    refine ⟨by rw [ha, ha', h.aifsn], by rw [hacc, hacc', h.accessRequested],
      UInt32.toNat_inj.mp (by rw [hs, hs', hslots]; omega), 0, Nat.zero_le _, hsettled, ?_⟩
    rw [hb, hb', hstarted, hstart, ← heq, Nat.add_mul, Nat.add_mul, Nat.add_assoc]

/-- Only the second one is updated. -/
theorem Sampled.sample (h : m.Sampled now s s') (hfits : m.Fits s) :
    m.Sampled now s (m.updateBackoffOf s' now) := by
  rcases h with h | h
  · have hstart := h.getBackoffStartFor
    rcases Nat.lt_or_ge now (m.getBackoffStartFor s) with hlt | hle
    · rw [updateBackoffOf_of_lt (hstart ▸ hlt)]
      exact .inl h
    · obtain ⟨n, hn, ha, hacc, hs, hb, -⟩ :=
        updateBackoffOf_spec (s := s') (hstart ▸ hle) (h.fits hfits)
      rw [Medium.elapsed, hstart, h.slots] at hn
      exact .inr ⟨ha.trans h.aifsn, hacc.trans h.accessRequested, hle, n, hn,
        by rw [hs, h.slots], by rw [hb, hstart]⟩
  · obtain ⟨k, hk, hslots, hstart, helapsed⟩ := h.elapsed
    have hstarted := h.getBackoffStartFor
    obtain ⟨n, hn, ha, hacc, hs, hb, -⟩ :=
      updateBackoffOf_spec (s := s') (hstarted ▸ h.backoffStart_le) (h.fits hfits)
    refine .inr ⟨ha.trans h.aifsn, hacc.trans h.accessRequested, h.started, k + n, by omega,
      by rw [hs, hslots, Nat.sub_sub], ?_⟩
    rw [hb, hstarted, hstart, Nat.add_mul, Nat.add_mul, Nat.add_assoc]

theorem Same.advance {next : Medium} (h : m.Same now s s') (hnext : m.Advances now next) :
    next.Same now s s' := by
  obtain ⟨f, hf, hsettled, hmax⟩ := h.start
  exact ⟨h.aifsn, h.accessRequested, h.slots, f, hf, hsettled.advance hf hnext, hmax⟩

/-- An event that settles the current time while nothing has elapsed. -/
theorem Sampled.settle {next : Medium} (h : m.Sampled now s s') (hnext : m.Advances now next)
    (hsettled : next.Settled now) (helapsed : m.elapsed s now = 0)
    (hstart : s.backoffStart ≤ now) : next.Same now s s' := by
  rcases h with h | h
  · exact h.advance hnext
  · obtain ⟨n, hn, hslots, hs'⟩ := h.ahead
    have hle := h.backoffStart_le
    obtain rfl : n = 0 := by omega
    refine ⟨h.aifsn, h.accessRequested, UInt32.toNat_inj.mp (by rw [hslots, Nat.sub_zero]), now,
      Nat.le_refl _, hsettled, ?_⟩
    omega

theorem elapsed_of_le (h : now ≤ m.getAccessGrantStart) : m.elapsed s now = 0 := by
  have hle : m.getAccessGrantStart ≤ m.getBackoffStartFor s :=
    (Nat.le_add_right _ _).trans (Nat.le_max_right _ _)
  have hzero : now - m.getBackoffStartFor s = 0 := by omega
  rw [elapsed, hzero]
  simp

theorem counts_of_le (h : now ≤ m.getAccessGrantStart) : m.Counts s now := by
  have hle : m.getAccessGrantStart ≤ m.getBackoffStartFor s :=
    (Nat.le_add_right _ _).trans (Nat.le_max_right _ _)
  have hzero : now - m.getBackoffStartFor s = 0 := by omega
  refine .inr ?_
  rw [hzero]
  decide

theorem rx_le_getAccessGrantStart (m : Medium) : m.rxAccessStart ≤ m.getAccessGrantStart := by
  unfold getAccessGrantStart
  omega

theorem nav_le_getAccessGrantStart (m : Medium) :
    m.lastNavStart + m.lastNavDuration + m.sifs ≤ m.getAccessGrantStart := by
  unfold getAccessGrantStart
  omega

/-! ## What an event does to the medium -/

variable {next : Medium}

/-- An event that has nothing to do with receptions and timeouts. -/
theorem Advances.of_eq (hrx : next.rxBase = m.rxBase)
    (hack : next.lastAckTimeoutEnd = m.lastAckTimeoutEnd)
    (hcts : next.lastCtsTimeoutEnd = m.lastCtsTimeoutEnd)
    (hslot : next.slotTimeUs = m.slotTimeUs) : m.Advances now next :=
  ⟨.inl hrx.ge, .inl hack.ge, .inl hcts.ge, hslot⟩

end Medium

namespace DcfManager

open Medium

variable {count : ℕ} {m : Medium} {now : ℕ} {states states' : Fin count → DcfState}

/-- What an additional sampling or an event must find for the accounting to be exact: microseconds
that have not wrapped, no slots that have elapsed where the back-off start is moved without an
update, and back-offs that fit. -/
def Accountable (m : DcfManager count) (now : ℕ) : Option (Event count) → Prop
  | some .rxEndOk | some .rxEndError | some (.ackTimeoutStart _) | some .ackTimeoutReset
  | some (.ctsTimeoutStart _) | some .ctsTimeoutReset =>
      ∀ i, m.medium.elapsed (m.states i) now = 0
  | some (.requestAccess _ nSlots) =>
      (∀ i, m.medium.Counts (m.states i) now) ∧ nSlots.toNat * m.medium.slotTimeUs.toNat < 2 ^ 32
  | some (.startBackoff _ nSlots) => nSlots.toNat * m.medium.slotTimeUs.toNat < 2 ^ 32
  | _ => ∀ i, m.medium.Counts (m.states i) now

/-- All back-offs fit and have begun. -/
structure Started (m : DcfManager count) (now : ℕ) : Prop where
  fits : ∀ i, m.medium.Fits (m.states i)
  started : ∀ i, (m.states i).backoffStart ≤ now

theorem Started.later {m : DcfManager count} {later : ℕ} (h : m.Started now) (hle : now ≤ later) :
    m.Started later :=
  ⟨h.fits, fun i => (h.started i).trans hle⟩

theorem Started.updateBackoff {m : DcfManager count} (h : m.Started now) :
    (m.updateBackoff now).Started now where
  fits i := by
    rcases Nat.lt_or_ge now (m.medium.getBackoffStartFor (m.states i)) with hlt | hle
    · show m.medium.Fits (m.medium.updateBackoffOf (m.states i) now)
      rw [updateBackoffOf_of_lt hlt]
      exact h.fits i
    · obtain ⟨n, -, -, -, hslots, -, -⟩ := updateBackoffOf_spec hle (h.fits i)
      exact (h.fits i).mono (by show (m.medium.updateBackoffOf _ _).backoffSlots.toNat ≤ _; omega)
  started i := backoffStart_updateBackoffOf_le (h.started i) (h.fits i)

theorem Started.medium {m : DcfManager count} {next : Medium} (h : m.Started now)
    (hslot : next.slotTimeUs = m.medium.slotTimeUs) : Started { m with medium := next } now where
  fits i := by
    show (m.states i).backoffSlots.toNat * next.slotTimeUs.toNat < 2 ^ 32
    rw [hslot]
    exact h.fits i
  started := h.started

theorem Started.setState {m : DcfManager count} (h : m.Started now) {i : Fin count}
    {state : DcfState} (hfits : m.medium.Fits state) (hstart : state.backoffStart ≤ now) :
    (m.setState i state).Started now where
  fits j := by
    show m.medium.Fits (Function.update m.states i state j)
    by_cases hj : j = i
    · rw [hj, Function.update_self]
      exact hfits
    · rw [Function.update_of_ne hj]
      exact h.fits j
  started j := by
    show (Function.update m.states i state j).backoffStart ≤ now
    by_cases hj : j = i
    · rw [hj, Function.update_self]
      exact hstart
    · rw [Function.update_of_ne hj]
      exact h.started j

theorem Started.doGrantAccess {m : DcfManager count} (h : m.Started now) :
    (m.doGrantAccess now).Started now := by
  unfold DcfManager.doGrantAccess
  split
  · exact h
  · next i _ => exact h.setState (h.fits i) (h.started i)

/-! ## Granting access -/

theorem granted_congr (h : ∀ i, m.Same now (states i) (states' i)) :
    (DcfManager.mk m states').granted now = (DcfManager.mk m states).granted now := by
  unfold granted
  congr 1
  funext i
  rw [(h i).accessRequested, (h i).getBackoffEndFor]

theorem same_update (h : ∀ i, m.Same now (states i) (states' i)) {i : Fin count}
    {state state' : DcfState} (hstate : m.Same now state state') (j : Fin count) :
    m.Same now (Function.update states i state j) (Function.update states' i state' j) := by
  by_cases hj : j = i
  · rw [hj, Function.update_self, Function.update_self]
    exact hstate
  · rw [Function.update_of_ne hj, Function.update_of_ne hj]
    exact h j

theorem doGrantAccess_same (h : ∀ i, m.Same now (states i) (states' i)) :
    ((DcfManager.mk m states').doGrantAccess now).medium = m ∧
      ((DcfManager.mk m states).doGrantAccess now).medium = m ∧
      ∀ i, m.Same now (((DcfManager.mk m states).doGrantAccess now).states i)
        (((DcfManager.mk m states').doGrantAccess now).states i) := by
  unfold doGrantAccess
  rw [granted_congr h]
  cases (DcfManager.mk m states).granted now with
  | none => exact ⟨rfl, rfl, h⟩
  | some i =>
      refine ⟨rfl, rfl, same_update h ?_⟩
      exact ⟨(h i).aifsn, rfl, (h i).slots, (h i).start⟩

/-! ## Two managers -/

theorem Same.of_fields {s s' : DcfState} (haifsn : s'.aifsn = s.aifsn)
    (haccess : s'.accessRequested = s.accessRequested) (hslots : s'.backoffSlots = s.backoffSlots)
    (hstart : s'.backoffStart = s.backoffStart) : m.Same now s s' :=
  ⟨haifsn, haccess, hslots, 0, Nat.zero_le _, .inl (Nat.zero_le _), by rw [hstart]⟩

theorem startBackoffNow_sampled (h : ∀ i, m.Sampled now (states i) (states' i)) {i : Fin count}
    {nSlots : UInt32} {next : DcfManager count}
    (hstep : (DcfManager.mk m states).startBackoffNow now i nSlots = some next) :
    ∃ next', (DcfManager.mk m states').startBackoffNow now i nSlots = some next' ∧
      next'.medium = next.medium ∧ next.medium = m ∧
      (∀ j, next.medium.Sampled now (next.states j) (next'.states j)) ∧
      ((∀ j, m.Same now (states j) (states' j)) →
        ∀ j, next.medium.Same now (next.states j) (next'.states j)) := by
  unfold startBackoffNow at hstep
  split at hstep
  · next hzero =>
    obtain rfl := Option.some_inj.mp hstep
    obtain ⟨haifsn, haccess, hzero'⟩ : (states' i).aifsn = (states i).aifsn ∧
        (states' i).accessRequested = (states i).accessRequested ∧
        (states' i).backoffSlots = 0 := by
      rcases h i with hi | hi
      · exact ⟨hi.aifsn, hi.accessRequested, hi.slots.trans hzero⟩
      · obtain ⟨n, -, hslots, -⟩ := hi.ahead
        refine ⟨hi.aifsn, hi.accessRequested, UInt32.toNat_inj.mp ?_⟩
        rw [hslots, show (states i).backoffSlots = 0 from hzero]
        exact Nat.zero_sub _
    have hstate : m.Same now
        { states i with backoffSlots := nSlots, backoffStart := now }
        { states' i with backoffSlots := nSlots, backoffStart := now } :=
      Same.of_fields haifsn haccess rfl rfl
    refine ⟨_, if_pos hzero', rfl, rfl, fun j => ?_, fun hsame => same_update hsame hstate⟩
    show m.Sampled now (Function.update states i _ j) (Function.update states' i _ j)
    by_cases hj : j = i
    · rw [hj, Function.update_self, Function.update_self]
      exact .inl hstate
    · rw [Function.update_of_ne hj, Function.update_of_ne hj]
      exact h j
  · exact absurd hstep (by simp)

theorem notifyAccessRequested_same (h : ∀ i, m.Same now (states i) (states' i)) {i : Fin count}
    {next : DcfManager count}
    (hstep : (DcfManager.mk m states).notifyAccessRequested i = some next) :
    ∃ next', (DcfManager.mk m states').notifyAccessRequested i = some next' ∧
      next'.medium = m ∧ next.medium = m ∧
      ∀ j, m.Same now (next.states j) (next'.states j) := by
  unfold notifyAccessRequested at hstep
  split at hstep
  · exact absurd hstep (by simp)
  · next hnot =>
    obtain rfl := Option.some_inj.mp hstep
    have hnot' : ¬ (states' i).accessRequested = true := by
      rw [(h i).accessRequested]
      exact hnot
    refine ⟨_, if_neg hnot', rfl, rfl, same_update h ?_⟩
    exact ⟨(h i).aifsn, rfl, (h i).slots, (h i).start⟩

theorem notifyCollision_same (h : ∀ i, m.Same now (states i) (states' i)) {i : Fin count}
    {collisionSlots : UInt32} {next : DcfManager count}
    (hstep : (DcfManager.mk m states).notifyCollision now i collisionSlots = some next) :
    ∃ next', (DcfManager.mk m states').notifyCollision now i collisionSlots = some next' ∧
      next'.medium = next.medium ∧ next.medium = m ∧
      ∀ j, next.medium.Same now (next.states j) (next'.states j) := by
  have hslots : (states' i).backoffSlots = (states i).backoffSlots := (h i).slots
  unfold notifyCollision at hstep ⊢
  simp only [hslots]
  split at hstep
  · next hcollision =>
    obtain ⟨next', hnext', hmedium, hm, -, hall⟩ :=
      startBackoffNow_sampled (fun j => .inl (h j)) hstep
    exact ⟨next', (if_pos hcollision).trans hnext', hmedium, hm, hall h⟩
  · next hfree =>
    obtain rfl := Option.some_inj.mp hstep
    exact ⟨_, if_neg hfree, rfl, rfl, h⟩

theorem request_sampled (h : ∀ i, m.Sampled now (states i) (states' i))
    (hfits : ∀ i, m.Fits (states i)) (hcounts : ∀ i, m.Counts (states i) now) {i : Fin count}
    {collisionSlots : UInt32} {next : DcfManager count}
    (hstep : (DcfManager.mk m states).request now i collisionSlots = some next) :
    ∃ next', (DcfManager.mk m states').request now i collisionSlots = some next' ∧
      next'.medium = next.medium ∧ next.medium = m ∧
      ∀ j, next.medium.Same now (next.states j) (next'.states j) := by
  obtain ⟨middle, hmiddle, hnext⟩ := Option.bind_eq_some_iff.mp hstep
  obtain ⟨middle', hmiddle', hm', hm, hsame⟩ := notifyAccessRequested_same
    (fun j => (h j).updateBackoffOf (hfits j) (hcounts j)) hmiddle
  obtain ⟨med, sts⟩ := middle
  obtain ⟨med', sts'⟩ := middle'
  obtain rfl : med = m := hm
  obtain rfl : med' = med := hm'
  obtain ⟨next', hnext', hmedium, hm, hall⟩ := notifyCollision_same hsame hnext
  exact ⟨next', Option.bind_eq_some_iff.mpr ⟨_, hmiddle', hnext'⟩, hmedium, hm, hall⟩

theorem notifyNavStartNow_eq (m : Medium) (now duration : ℕ) (states : Fin count → DcfState) :
    (DcfManager.mk m states).notifyNavStartNow now duration =
      if m.lastNavStart < now then
        if now + duration > m.lastNavStart + m.lastNavDuration then
          some ⟨{ m with lastNavStart := now, lastNavDuration := duration },
            fun i => m.updateBackoffOf (states i) now⟩
        else some ⟨m, fun i => m.updateBackoffOf (states i) now⟩
      else none :=
  rfl

/-- A reception that is given up began at most a SIFS ago, so that no slots have elapsed. -/
theorem abortRx_sampled (h : ∀ i, m.Sampled now (states i) (states' i))
    (hstarted : (DcfManager.mk m states).Started now)
    (hcounts : ∀ i, m.Counts (states i) now) {next : DcfManager count}
    (hstep : (DcfManager.mk m states).abortRx now = some next) :
    ∃ next', (DcfManager.mk m states').abortRx now = some next' ∧
      next'.medium = next.medium ∧ (∀ i, next.medium.Counts (next.states i) now) ∧
      (∀ i, next.medium.Fits (next.states i)) ∧
      ∀ i, next.medium.Sampled now (next.states i) (next'.states i) := by
  unfold abortRx at hstep ⊢
  dsimp only at hstep ⊢
  by_cases hrxing : m.rxing = true
  · rw [if_pos hrxing] at hstep ⊢
    by_cases hsifs : now - m.lastRxStart ≤ m.sifs
    · rw [if_pos hsifs] at hstep ⊢
      obtain rfl := Option.some_inj.mp hstep
      have hbefore : now ≤ m.getAccessGrantStart := by
        have hrx := m.rx_le_getAccessGrantStart
        rw [rxAccessStart, if_neg (by simp [hrxing])] at hrx
        omega
      have hafter : now ≤ Medium.getAccessGrantStart { m with
          lastRxEnd := now, lastRxDuration := now - m.lastRxStart,
          lastRxReceivedOk := true, rxing := false } :=
        (Nat.le_add_right now m.sifs).trans (rx_le_getAccessGrantStart { m with
          lastRxEnd := now, lastRxDuration := now - m.lastRxStart,
          lastRxReceivedOk := true, rxing := false })
      refine ⟨_, rfl, rfl, fun i => counts_of_le hafter, hstarted.fits, fun i => .inl ?_⟩
      refine (h i).settle ?_ (.inl (Nat.le_refl _)) (elapsed_of_le hbefore) (hstarted.started i)
      exact ⟨.inr (Nat.le_refl _), .inl (Nat.le_refl _), .inl (Nat.le_refl _), rfl⟩
    · rw [if_neg hsifs] at hstep
      exact absurd hstep (by simp)
  · rw [if_neg hrxing] at hstep ⊢
    obtain rfl := Option.some_inj.mp hstep
    exact ⟨_, rfl, rfl, hcounts, hstarted.fits, h⟩

/-- One event has the same effect on both. -/
theorem step_sampled (h : ∀ i, m.Sampled now (states i) (states' i))
    (hstarted : (DcfManager.mk m states).Started now) {e : Event count}
    (hacc : Accountable (DcfManager.mk m states) now (some e)) {next : DcfManager count}
    (hstep : (DcfManager.mk m states).step now e = some next) :
    ∃ next', (DcfManager.mk m states').step now e = some next' ∧ next'.medium = next.medium ∧
      ∀ i, next.medium.Sampled now (next.states i) (next'.states i) := by
  have hupdate (hcounts : ∀ i, m.Counts (states i) now) (i : Fin count) :
      m.Same now (m.updateBackoffOf (states i) now) (m.updateBackoffOf (states' i) now) :=
    (h i).updateBackoffOf (hstarted.fits i) (hcounts i)
  -- An event that does not update settles the current time.
  have hsettle {next : Medium} (helapsed : ∀ i, m.elapsed (states i) now = 0)
      (hnext : m.Advances now next) (hsettled : next.Settled now) (i : Fin count) :
      next.Sampled now (states i) (states' i) :=
    .inl ((h i).settle hnext hsettled (helapsed i) (hstarted.started i))
  cases e with
  | rxStart duration =>
      obtain rfl := Option.some_inj.mp hstep
      refine ⟨_, rfl, rfl, fun i => .inl ((hupdate hacc i).advance ?_)⟩
      exact ⟨.inr (Nat.le_add_right now duration), .inl (Nat.le_refl _), .inl (Nat.le_refl _), rfl⟩
  | rxEndOk =>
      obtain rfl := Option.some_inj.mp hstep
      refine ⟨_, rfl, rfl, hsettle hacc ?_ (.inl (Nat.le_refl _))⟩
      exact ⟨.inr (Nat.le_refl _), .inl (Nat.le_refl _), .inl (Nat.le_refl _), rfl⟩
  | rxEndError =>
      obtain rfl := Option.some_inj.mp hstep
      refine ⟨_, rfl, rfl, hsettle hacc ?_ (.inl (Nat.le_refl _))⟩
      exact ⟨.inr (Nat.le_refl _), .inl (Nat.le_refl _), .inl (Nat.le_refl _), rfl⟩
  | txStart duration =>
      obtain ⟨middle, hmiddle, rfl⟩ := Option.map_eq_some_iff.mp hstep
      obtain ⟨middle', hmiddle', hmedium, hcounts, hfits, hsampled⟩ :=
        abortRx_sampled h hstarted hacc hmiddle
      obtain ⟨med, sts⟩ := middle
      obtain ⟨med', sts'⟩ := middle'
      obtain rfl : med' = med := hmedium
      refine ⟨_, Option.map_eq_some_iff.mpr ⟨_, hmiddle', rfl⟩, rfl, fun i => .inl ?_⟩
      exact ((hsampled i).updateBackoffOf (hfits i) (hcounts i)).advance (.of_eq rfl rfl rfl rfl)
  | maybeCcaBusyStart duration =>
      obtain rfl := Option.some_inj.mp hstep
      exact ⟨_, rfl, rfl, fun i => .inl ((hupdate hacc i).advance (.of_eq rfl rfl rfl rfl))⟩
  | navReset duration =>
      obtain rfl := Option.some_inj.mp hstep
      have hadvance : m.Advances now { m with lastNavStart := now, lastNavDuration := duration } :=
        .of_eq rfl rfl rfl rfl
      have hnav := nav_le_getAccessGrantStart
        { m with lastNavStart := now, lastNavDuration := duration }
      have hfits := hstarted.updateBackoff.fits
      refine ⟨_, rfl, rfl, fun i => .inl ?_⟩
      refine Sampled.updateBackoffOf (.inl ((hupdate hacc i).advance hadvance)) (hfits i) ?_
      refine counts_of_le (Nat.le_trans ?_ hnav)
      exact (Nat.le_add_right now duration).trans (Nat.le_add_right _ _)
  | navStart duration =>
      rw [step, notifyNavStartNow_eq] at hstep ⊢
      by_cases hlast : m.lastNavStart < now
      · rw [if_pos hlast] at hstep ⊢
        by_cases hlonger : now + duration > m.lastNavStart + m.lastNavDuration
        · rw [if_pos hlonger] at hstep ⊢
          obtain rfl := Option.some_inj.mp hstep
          exact ⟨_, rfl, rfl, fun i => .inl ((hupdate hacc i).advance (.of_eq rfl rfl rfl rfl))⟩
        · rw [if_neg hlonger] at hstep ⊢
          obtain rfl := Option.some_inj.mp hstep
          exact ⟨_, rfl, rfl, fun i => .inl (hupdate hacc i)⟩
      · rw [if_neg hlast] at hstep
        exact absurd hstep (by simp)
  | ackTimeoutStart duration =>
      change notifyAckTimeoutStartNow _ now duration = some next at hstep
      show ∃ next', notifyAckTimeoutStartNow _ now duration = some next' ∧ _
      unfold notifyAckTimeoutStartNow at hstep ⊢
      split at hstep
      · next hlast =>
        obtain rfl := Option.some_inj.mp hstep
        refine ⟨_, if_pos hlast, rfl, hsettle hacc ?_ (.inr (.inl (Nat.le_add_right _ _)))⟩
        exact ⟨.inl (Nat.le_refl _), .inr (Nat.le_add_right _ _), .inl (Nat.le_refl _), rfl⟩
      · exact absurd hstep (by simp)
  | ackTimeoutReset =>
      obtain rfl := Option.some_inj.mp hstep
      refine ⟨_, rfl, rfl, hsettle hacc ?_ (.inr (.inl (Nat.le_refl _)))⟩
      exact ⟨.inl (Nat.le_refl _), .inr (Nat.le_refl _), .inl (Nat.le_refl _), rfl⟩
  | ctsTimeoutStart duration =>
      obtain rfl := Option.some_inj.mp hstep
      refine ⟨_, rfl, rfl, hsettle hacc ?_ (.inr (.inr (Nat.le_add_right _ _)))⟩
      exact ⟨.inl (Nat.le_refl _), .inl (Nat.le_refl _), .inr (Nat.le_add_right _ _), rfl⟩
  | ctsTimeoutReset =>
      obtain rfl := Option.some_inj.mp hstep
      refine ⟨_, rfl, rfl, hsettle hacc ?_ (.inr (.inr (Nat.le_refl _)))⟩
      exact ⟨.inl (Nat.le_refl _), .inl (Nat.le_refl _), .inr (Nat.le_refl _), rfl⟩
  | requestAccess i collisionSlots =>
      obtain ⟨middle, hmiddle, rfl⟩ := Option.map_eq_some_iff.mp hstep
      obtain ⟨middle', hmiddle', hmedium, hm, hsame⟩ :=
        request_sampled h hstarted.fits hacc.1 hmiddle
      obtain ⟨med, sts⟩ := middle
      obtain ⟨med', sts'⟩ := middle'
      obtain rfl : med' = med := hmedium
      obtain ⟨hg', hg, hgrant⟩ := doGrantAccess_same hsame
      refine ⟨_, Option.map_eq_some_iff.mpr ⟨_, hmiddle', rfl⟩, hg'.trans hg.symm, fun j => ?_⟩
      rw [hg]
      exact .inl (hgrant j)
  | accessTimeout =>
      obtain rfl := Option.some_inj.mp hstep
      obtain ⟨hg', hg, hgrant⟩ := doGrantAccess_same (hupdate hacc)
      refine ⟨_, rfl, hg'.trans hg.symm, fun j => ?_⟩
      have hmedium : (((DcfManager.mk m states).updateBackoff now).doGrantAccess now).medium = m :=
        hg
      rw [hmedium]
      exact .inl (hgrant j)
  | startBackoff i nSlots =>
      obtain ⟨next', hnext', hmedium, -, hall, -⟩ := startBackoffNow_sampled h hstep
      exact ⟨next', hnext', hmedium, hall⟩

end DcfManager

end Ns3Rdma.Wifi
