import Mathlib.Tactic.Linarith
import Ns3Rdma.Tcp.SendLoop

/-! # The congestion window

The window never falls below one segment, as long as nothing is subtracted that is not in it and no
addition leaves the 32 bits. -/

namespace Ns3Rdma

open StepSystem

namespace TcpNewReno

variable (c : NewRenoConfig)

/-- The window holds a segment, and in fast recovery the threshold holds two. -/
structure Sane (st : TcpNewReno) : Prop where
  segment_le : c.segmentSize ≤ st.cWnd
  two_segments_le : st.inFastRec = true → 2 * c.segmentSize.toNat ≤ st.ssThresh.toNat

/-- What the handler subtracts from the window is in it. -/
def NoUnderflow (st : TcpNewReno) : Event → Prop
  | .newAck ack =>
      st.IsPartial ack → (ack - st.txBuffer.headSequence).toUInt32 ≤ st.cWnd
  | .halveCwnd _ _ _ => 0 ≤ st.halved c
  | _ => True

/-- A partial acknowledgement covers no more than the window, marks cost no more than the window,
and an addition of a segment stays below 2^32. -/
def Meets (st : TcpNewReno) : Event → Prop
  | .newAck ack =>
      (st.IsPartial ack → (ack - st.txBuffer.headSequence).toUInt32 ≤ st.cWnd) ∧
        if st.inFastRec = true ∧ st.recover ≤ ack then
          st.bytesInFlight.toNat + c.segmentSize.toNat < 2 ^ 32 ∧
            st.ssThresh.toNat + c.segmentSize.toNat < 2 ^ 32
        else st.cWnd.toNat + c.segmentSize.toNat < 2 ^ 32
  | .dupAck _ => st.inFastRec = true → st.cWnd.toNat + c.segmentSize.toNat < 2 ^ 32
  | .halveCwnd _ _ _ => st.alpha * c.segmentSize.toNat ≤ 2 * st.cWnd.toNat
  | _ => True

variable {c} {st st' : TcpNewReno} {seq : SequenceNumber32}

theorem Sane.of_keeps (hst : st.Sane c) (hkeeps : Keeps st st') : st'.Sane c := by
  obtain ⟨-, -, hcWnd, hssThresh, hfast⟩ := hkeeps
  exact ⟨by rw [hcWnd]; exact hst.segment_le, by rw [hssThresh, hfast]; exact hst.two_segments_le⟩

/-! ## The arithmetic of the handlers -/

theorem segment_le_add {a : UInt32} (h : a.toNat + c.segmentSize.toNat < 2 ^ 32) :
    c.segmentSize ≤ a + c.segmentSize := by
  rw [UInt32.le_iff_toNat_le, UInt32.toNat_add_of_lt h]
  exact Nat.le_add_left _ _

theorem toNat_two_mul (hseg : 3 * c.segmentSize.toNat < 2 ^ 31) :
    (2 * c.segmentSize).toNat = 2 * c.segmentSize.toNat := by
  rw [UInt32.toNat_mul, show (2 : UInt32).toNat = 2 from rfl]
  exact Nat.mod_eq_of_lt (by omega)

theorem toNat_three_mul (hseg : 3 * c.segmentSize.toNat < 2 ^ 31) :
    (3 * c.segmentSize).toNat = 3 * c.segmentSize.toNat := by
  rw [UInt32.toNat_mul, show (3 : UInt32).toNat = 3 from rfl]
  exact Nat.mod_eq_of_lt (by omega)

/-- The threshold that the handlers set. -/
theorem toNat_ssThresh (hseg : 3 * c.segmentSize.toNat < 2 ^ 31) (flight : UInt32) :
    (max (2 * c.segmentSize) (flight / 2)).toNat =
      max (2 * c.segmentSize.toNat) (flight.toNat / 2) := by
  have hflight : (flight / 2).toNat = flight.toNat / 2 := UInt32.toNat_div _ _
  rw [UInt32.toNat_max, toNat_two_mul hseg, hflight]

/-- In congestion avoidance the window grows by at most a segment. -/
theorem adder_le (hst : c.segmentSize ≤ st.cWnd) (hpos : 0 < c.segmentSize) :
    (st.adder c).toNat ≤ c.segmentSize.toNat := by
  rw [UInt32.le_iff_toNat_le] at hst
  rw [UInt32.lt_iff_toNat_lt, UInt32.toNat_zero] at hpos
  have hcWnd : (0 : ℚ) < st.cWnd.toNat := by
    exact_mod_cast hpos.trans_le hst
  have hquotient : ((c.segmentSize * c.segmentSize).toNat : ℚ) / st.cWnd.toNat ≤
      c.segmentSize.toNat := by
    rw [div_le_iff₀ hcWnd]
    have hproduct : (c.segmentSize * c.segmentSize).toNat ≤
        c.segmentSize.toNat * c.segmentSize.toNat := by
      rw [UInt32.toNat_mul]
      exact Nat.mod_le _ _
    exact_mod_cast hproduct.trans (Nat.mul_le_mul_left _ hst)
  have hone : (1 : ℚ) ≤ c.segmentSize.toNat := by exact_mod_cast hpos
  unfold adder toUInt32
  rw [UInt32.toNat_ofNat']
  refine (Nat.mod_le _ _).trans ?_
  rw [← Nat.floor_natCast (R := ℚ) c.segmentSize.toNat]
  exact Nat.floor_mono (max_le hone hquotient)

theorem increase_sane (hst : st.Sane c)
    (hroom : st.cWnd.toNat + c.segmentSize.toNat < 2 ^ 32) : (st.increase c).Sane c := by
  refine ⟨?_, hst.two_segments_le⟩
  change c.segmentSize ≤ if st.cWnd < st.ssThresh then _ else _
  split
  next => exact segment_le_add hroom
  next =>
    by_cases hpos : 0 < c.segmentSize
    · have hadder := adder_le hst.segment_le hpos
      have hsegment := hst.segment_le
      rw [UInt32.le_iff_toNat_le] at hsegment ⊢
      rw [UInt32.toNat_add_of_lt (by omega)]
      omega
    · rw [UInt32.lt_iff_toNat_lt, UInt32.toNat_zero] at hpos
      rw [UInt32.le_iff_toNat_le]
      omega

theorem updateAlpha_eq (st : TcpNewReno) :
    st.updateAlpha.cWnd = st.cWnd ∧ st.updateAlpha.ssThresh = st.ssThresh ∧
      st.updateAlpha.inFastRec = st.inFastRec ∧ st.updateAlpha.recover = st.recover ∧
      st.updateAlpha.txBuffer = st.txBuffer ∧ st.updateAlpha.highTxMark = st.highTxMark := by
  unfold updateAlpha
  split <;> exact ⟨rfl, rfl, rfl, rfl, rfl, rfl⟩

theorem partialAck_sane (hst : st.Sane c)
    (hacked : (seq - st.txBuffer.headSequence).toUInt32 ≤ st.cWnd)
    (hroom : st.cWnd.toNat + c.segmentSize.toNat < 2 ^ 32) : (st.partialAck c seq).Sane c := by
  refine ⟨?_, hst.two_segments_le⟩
  apply segment_le_add
  rw [UInt32.toNat_sub_of_le _ _ hacked]
  omega

theorem fullAck_sane (hst : st.Sane c) (hfast : st.inFastRec = true)
    (hroom : st.bytesInFlight.toNat + c.segmentSize.toNat < 2 ^ 32) (hfull : st.recover ≤ seq) :
    (st.fullAck c seq).Sane c ∧ (st.fullAck c seq).cWnd.toNat ≤ st.ssThresh.toNat := by
  have htwo := hst.two_segments_le hfast
  unfold fullAck
  rw [if_pos ⟨hfast, hfull⟩]
  refine ⟨⟨?_, fun h => absurd h Bool.false_ne_true⟩, ?_⟩
  · change c.segmentSize ≤ min st.ssThresh (st.bytesInFlight + c.segmentSize)
    rw [UInt32.le_iff_toNat_le, UInt32.toNat_min, UInt32.toNat_add_of_lt hroom]
    omega
  · change (min st.ssThresh (st.bytesInFlight + c.segmentSize)).toNat ≤ st.ssThresh.toNat
    rw [UInt32.toNat_min]
    exact min_le_left _ _

theorem ackWindow_sane (hst : st.Sane c) (hmeets : st.Meets c (.newAck seq)) :
    (st.ackWindow c seq).Sane c := by
  obtain ⟨hcWnd, hssThresh, hfast, hrecover, hbuffer, hhigh⟩ := updateAlpha_eq st
  obtain ⟨hacked, hroom⟩ := hmeets
  have hst₁ : st.updateAlpha.Sane c :=
    ⟨by rw [hcWnd]; exact hst.segment_le, by rw [hfast, hssThresh]; exact hst.two_segments_le⟩
  unfold ackWindow
  by_cases hshort : st.updateAlpha.IsPartial seq
  · have hbefore : st.inFastRec = true ∧ seq < st.recover := by
      rw [← hfast, ← hrecover]
      exact hshort
    rw [if_pos hshort]
    rw [if_neg fun h => SequenceNumber32.not_lt.mpr h.2 hbefore.2] at hroom
    apply partialAck_sane hst₁
    · rw [hbuffer, hcWnd]
      exact hacked hbefore
    · rw [hcWnd]
      exact hroom
  · rw [if_neg hshort]
    by_cases hfull : st.inFastRec = true ∧ st.recover ≤ seq
    · rw [if_pos hfull] at hroom
      have hflight : st.updateAlpha.bytesInFlight = st.bytesInFlight := by
        unfold bytesInFlight
        rw [hbuffer, hhigh]
      have hcovers : st.updateAlpha.recover ≤ seq := by
        rw [hrecover]
        exact hfull.2
      obtain ⟨hsane, hle⟩ := fullAck_sane hst₁ (hfast.trans hfull.1)
        (by rw [hflight]; exact hroom.1) hcovers
      rw [hssThresh] at hle
      exact increase_sane hsane (by omega)
    · rw [if_neg hfull] at hroom
      have hsame : st.updateAlpha.fullAck c seq = st.updateAlpha := by
        unfold fullAck
        rw [hfast, hrecover, if_neg hfull]
      rw [hsame]
      exact increase_sane hst₁ (by rw [hcWnd]; exact hroom)

theorem enterFastRecovery_sane (hseg : 3 * c.segmentSize.toNat < 2 ^ 31) (st : TcpNewReno)
    (now : ℕ) : (st.enterFastRecovery c now).Sane c := by
  have hthresh := toNat_ssThresh hseg st.bytesInFlight
  have hflight := st.bytesInFlight.toNat_lt
  constructor
  · change c.segmentSize ≤ max (2 * c.segmentSize) (st.bytesInFlight / 2) + 3 * c.segmentSize
    rw [UInt32.le_iff_toNat_le, UInt32.toNat_add_of_lt, hthresh, toNat_three_mul hseg]
    · omega
    · rw [hthresh, toNat_three_mul hseg]
      omega
  · intro _
    change _ ≤ (max (2 * c.segmentSize) (st.bytesInFlight / 2)).toNat
    rw [hthresh]
    exact le_max_left _ _

theorem halveCwnd_sane (hst : st.Sane c) (hseg : 3 * c.segmentSize.toNat < 2 ^ 31)
    (now estimate : ℕ) : (st.halveCwnd c now estimate).Sane c := by
  constructor
  · change c.segmentSize ≤ max (toUInt32 (st.halved c)) c.segmentSize
    rw [UInt32.le_iff_toNat_le, UInt32.toNat_max]
    exact le_max_right _ _
  · intro hfast
    change _ ≤ (if st.ssThreshLastChange + estimate < now then _ else _ : UInt32).toNat
    split
    · rw [toNat_ssThresh hseg]
      exact le_max_left _ _
    · exact hst.two_segments_le hfast

/-! ## The handlers -/

theorem newAck_sane (hst : st.Sane c) (hmeets : st.Meets c (.newAck seq))
    (hack : st.newAck c seq = some st') : st'.Sane c := by
  obtain ⟨st₁, hadvance, hrest⟩ := Option.bind_eq_some_iff.mp hack
  obtain ⟨st₂, hsend, hlast⟩ := Option.bind_eq_some_iff.mp hrest
  have hwindow := ackWindow_sane hst hmeets
  have hst₁ : st₁.Sane c := by
    obtain ⟨b, -, rfl⟩ := Option.map_eq_some_iff.mp hadvance
    exact ⟨hwindow.segment_le, hwindow.two_segments_le⟩
  have hst₂ := hst₁.of_keeps (sendPendingData_keeps hsend)
  split at hlast
  next =>
    obtain ⟨st₃, hretransmit, rfl⟩ := Option.map_eq_some_iff.mp hlast
    have hst₃ := hst₂.of_keeps (doRetransmit_spec hretransmit).1
    exact ⟨hst₃.segment_le, hst₃.two_segments_le⟩
  next =>
    obtain rfl := Option.some.inj hlast
    exact hst₂

theorem dupAck_sane {count : UInt32} {now : ℕ} (hst : st.Sane c)
    (hseg : 3 * c.segmentSize.toNat < 2 ^ 31)
    (hroom : st.inFastRec = true → st.cWnd.toNat + c.segmentSize.toNat < 2 ^ 32)
    (hack : st.dupAck c count now = some st') : st'.Sane c := by
  unfold dupAck at hack
  split at hack
  next =>
    exact (enterFastRecovery_sane hseg st now).of_keeps (doRetransmit_spec hack).1
  next =>
    split at hack
    next hfast =>
      have hinflated : (st.inflate c).Sane c :=
        ⟨segment_le_add (hroom hfast), hst.two_segments_le⟩
      exact hinflated.of_keeps (sendPendingData_keeps hack)
    next =>
      split at hack
      next =>
        obtain ⟨r, hpacket, rfl⟩ := Option.map_eq_some_iff.mp hack
        have hst₁ := hst.of_keeps (sendDataPacket_spec hpacket).1
        exact ⟨hst₁.segment_le, hst₁.two_segments_le⟩
      next =>
        obtain rfl := Option.some.inj hack
        exact hst

theorem retransmit_sane {now : ℕ} (hst : st.Sane c) (htimeout : st.retransmit c now = some st') :
    st'.Sane c := by
  unfold retransmit at htimeout
  split at htimeout
  next =>
    obtain rfl := Option.some.inj htimeout
    exact hst
  next =>
    refine Sane.of_keeps ?_ (doRetransmit_spec htimeout).1
    exact ⟨UInt32.le_refl _, fun h => absurd h Bool.false_ne_true⟩

/-- Every handler that meets its condition keeps the window sane. -/
theorem step_sane {e : Event} (hst : st.Sane c) (hseg : 3 * c.segmentSize.toNat < 2 ^ 31)
    (hmeets : st.Meets c e) (hstep : step c st e = some st') : st'.Sane c := by
  have hst₀ : ({ st with sent := [] } : TcpNewReno).Sane c :=
    ⟨hst.segment_le, hst.two_segments_le⟩
  cases e with
  | send p =>
      unfold step at hstep
      dsimp only at hstep
      split at hstep
      next =>
        refine Sane.of_keeps ?_ (sendPendingData_keeps hstep)
        exact ⟨hst.segment_le, hst.two_segments_le⟩
      next =>
        obtain rfl := Option.some.inj hstep
        exact hst₀
  | shutdownSend =>
      obtain rfl := Option.some.inj hstep
      exact ⟨hst.segment_le, hst.two_segments_le⟩
  | window windowSize =>
      obtain rfl := Option.some.inj hstep
      exact ⟨hst.segment_le, hst.two_segments_le⟩
  | halveCwnd ack now estimate =>
      unfold step at hstep
      dsimp only at hstep
      split at hstep
      next =>
        obtain rfl := Option.some.inj hstep
        exact halveCwnd_sane hst₀ hseg now estimate
      next => cases hstep
  | newAck ack =>
      unfold step at hstep
      dsimp only at hstep
      split at hstep
      next =>
        obtain ⟨st₁, hack, rfl⟩ := Option.map_eq_some_iff.mp hstep
        have hst₁ := newAck_sane hst₀ hmeets hack
        exact ⟨hst₁.segment_le, hst₁.two_segments_le⟩
      next => cases hstep
  | dupAck now =>
      unfold step at hstep
      dsimp only at hstep
      split at hstep
      next =>
        refine dupAck_sane ?_ hseg ?_ hstep
        · exact ⟨hst.segment_le, hst.two_segments_le⟩
        · exact hmeets
      next => cases hstep
  | retransmit now => exact retransmit_sane hst₀ hstep

theorem noUnderflow_of_meets {e : Event} (hmeets : st.Meets c e) : st.NoUnderflow c e := by
  cases e with
  | newAck ack => exact hmeets.1
  | halveCwnd ack now estimate =>
      have hle : st.alpha * c.segmentSize.toNat ≤ 2 * st.cWnd.toNat := hmeets
      change 0 ≤ (st.cWnd.toNat : ℚ) - st.alpha / 2 * c.segmentSize.toNat
      linarith
  | _ => trivial

/-- In a run whose handlers meet their conditions the window always holds a segment, and nothing is
subtracted from it that is not in it. -/
theorem window_never_wraps (hseg : 3 * c.segmentSize.toNat < 2 ^ 31) (head : SequenceNumber32)
    (maxBuffer ssThresh rWnd : UInt32) {cWnd : UInt32} (hcWnd : c.segmentSize ≤ cWnd)
    {events : List Event}
    (hmeets : EachStep (step c) (fun st e _ => st.Meets c e)
      (established head maxBuffer cWnd ssThresh rWnd) events) :
    Throughout (step c) (fun st => c.segmentSize ≤ st.cWnd)
        (established head maxBuffer cWnd ssThresh rWnd) events ∧
      EachStep (step c) (fun st e _ => st.NoUnderflow c e)
        (established head maxBuffer cWnd ssThresh rWnd) events := by
  have hall : Throughout (step c) (Sane c)
      (established head maxBuffer cWnd ssThresh rWnd) events := by
    refine throughout_of_eachStep ?_ ?_ hmeets
    · exact fun st e st' hst hstep hmeets => step_sane hst hseg hmeets hstep
    · exact ⟨hcWnd, fun h => absurd h Bool.false_ne_true⟩
  refine ⟨hall.mono fun st hst => hst.segment_le, ?_⟩
  intro done e rest st st' heq hrun hstep
  exact noUnderflow_of_meets (hmeets done e rest st st' heq hrun hstep)

/-- Segments of one byte. -/
def smallSegments : NewRenoConfig where
  segmentSize := 1
  retxThresh := 3
  limitedTx := false
  noDelay := true
  ecnConn := true

instance (st : TcpNewReno) (e : Event) : Decidable (st.Meets c e) :=
  match e with
  | .newAck ack => inferInstanceAs (Decidable (
      (st.IsPartial ack → (ack - st.txBuffer.headSequence).toUInt32 ≤ st.cWnd) ∧
        if st.inFastRec = true ∧ st.recover ≤ ack then
          st.bytesInFlight.toNat + c.segmentSize.toNat < 2 ^ 32 ∧
            st.ssThresh.toNat + c.segmentSize.toNat < 2 ^ 32
        else st.cWnd.toNat + c.segmentSize.toNat < 2 ^ 32))
  | .dupAck _ => inferInstanceAs (Decidable (
      st.inFastRec = true → st.cWnd.toNat + c.segmentSize.toNat < 2 ^ 32))
  | .halveCwnd _ _ _ => inferInstanceAs (Decidable (
      st.alpha * c.segmentSize.toNat ≤ 2 * st.cWnd.toNat))
  | .send _ | .shutdownSend | .window _ | .retransmit _ => .isTrue trivial

/-- Of ten segments the first one is lost. Three duplicates start the fast recovery, a fourth one
inflates the window, a partial acknowledgement deflates it, and a full one ends the recovery. -/
def fastRecovery : List Event :=
  [.send [1, 2, 3, 4, 5, 6, 7, 8, 9, 10], .dupAck 0, .dupAck 0, .dupAck 0, .dupAck 0, .newAck ⟨3⟩,
    .newAck ⟨10⟩]

theorem window_never_wraps_fastRecovery :
    (run (step smallSegments) (established ⟨0⟩ 100 10 64 100)
        (fastRecovery.take 5)).any (fun st => decide (st.IsPartial ⟨3⟩)) = true ∧
      Throughout (step smallSegments) (fun st => smallSegments.segmentSize ≤ st.cWnd)
        (established ⟨0⟩ 100 10 64 100) fastRecovery ∧
      EachStep (step smallSegments) (fun st e _ => st.NoUnderflow smallSegments e)
        (established ⟨0⟩ 100 10 64 100) fastRecovery :=
  ⟨by decide +kernel, window_never_wraps (by decide) ⟨0⟩ 100 64 100 (by decide)
    (eachStep_of_take (by decide +kernel))⟩

/-- Ten segments are in flight. The first one is lost and three duplicates arrive. The
retransmission and all others but the last one are acknowledged at once. -/
def lostAcks : List Event :=
  [.send [1, 2, 3, 4, 5, 6, 7, 8, 9, 10], .dupAck 0, .dupAck 0, .dupAck 0, .newAck ⟨9⟩]

theorem lostAcks_underflow :
    ¬ (Throughout (step smallSegments) (fun st => smallSegments.segmentSize ≤ st.cWnd)
        (established ⟨0⟩ 100 10 64 100) lostAcks ∧
      EachStep (step smallSegments) (fun st e _ => st.NoUnderflow smallSegments e)
        (established ⟨0⟩ 100 10 64 100) lostAcks) := by
  rintro ⟨-, h⟩
  have hrun : ((run (step smallSegments) (established ⟨0⟩ 100 10 64 100)
      (lostAcks.take 4)).any fun st => (step smallSegments st (.newAck ⟨9⟩)).isSome &&
        decide (st.IsPartial ⟨9⟩ ∧
          st.cWnd < (SequenceNumber32.mk 9 - st.txBuffer.headSequence).toUInt32)) = true := by
    decide +kernel
  obtain ⟨st, hst, hfacts⟩ := (Option.any_eq_true _ _).mp hrun
  obtain ⟨hstep, hwrong⟩ := Bool.and_eq_true_iff.mp hfacts
  obtain ⟨hshort, hlt⟩ := of_decide_eq_true hwrong
  obtain ⟨st', hstep⟩ := Option.isSome_iff_exists.mp hstep
  have hle := h (lostAcks.take 4) (.newAck ⟨9⟩) [] st st' rfl hst hstep hshort
  exact absurd hlt (UInt32.not_lt.mpr hle)

end TcpNewReno

end Ns3Rdma
