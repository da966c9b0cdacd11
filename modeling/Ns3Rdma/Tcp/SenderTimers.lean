import Ns3Rdma.Lib.StepSystem
import Ns3Rdma.Tcp.Established

/-! # The timers of a sender with data

Data that is sent starts the retransmission timer, and a new acknowledgement restarts it or begins
to probe. The other ways to come out of a step leave an established sender with data without a
timer. -/

namespace Ns3Rdma

open StepSystem

namespace TcpSocketBase

variable {s s' s₁ s₂ : TcpSocketBase} {seq ack : SequenceNumber32} {p : Payload} {h : TcpHeader}
  {d : Congestion} {window : UInt32} {withAck : Bool}

/-- One of the two timers runs. -/
def TimerRuns (s : TcpSocketBase) : Prop := s.retxEvent ≠ none ∨ s.persistEvent = true

/-- An established sender with data waits for a timer. -/
def Waits (s : TcpSocketBase) : Prop :=
  s.state = .ESTABLISHED → s.txBuffer.size ≠ 0 → s.TimerRuns

/-- The first round of `SendPendingData` sends a packet. -/
def SendsPending (s : TcpSocketBase) (window : UInt32) : Prop :=
  let remaining := s.txBuffer.sizeFromSequence s.nextTxSequence
  let w := s.availableWindow window
  s.txBuffer.size ≠ 0 ∧ s.endPoint = true ∧ remaining ≠ 0 ∧ s.shutdownSend = false ∧
    ¬ (w < s.segmentSize ∧ w < remaining) ∧
    ¬ (s.noDelay = false ∧ 0 < s.unAckDataCount ∧ remaining < s.segmentSize)

/-- `DupAck` sends a packet. -/
def SendsOnDupAck (s : TcpSocketBase) (d : Congestion) : Prop :=
  match d.dupAck with
  | .ignore => False
  | .sendPendingData => s.SendsPending d.window
  | .limitedTransmit => 0 < s.txBuffer.sizeFromSequence s.nextTxSequence
  | .doRetransmit => True

/-- The acknowledgement number is new, or a duplicate on which a packet is sent. -/
def AckSends (s : TcpSocketBase) (d : Congestion) (p : Payload) (ack : SequenceNumber32) : Prop :=
  ¬ ack < s.txBuffer.headSequence ∧ (ack = s.txBuffer.headSequence →
    (ack < s.nextTxSequence ∧ p.getSize = 0) ∧ s.SendsOnDupAck d)

/-- The timers and the buffer under what only sends. -/
structure Arms (s s' : TcpSocketBase) : Prop where
  txBuffer_eq : s'.txBuffer = s.txBuffer
  persistEvent_eq : s'.persistEvent = s.persistEvent
  retxEvent_eq : s'.retxEvent = s.retxEvent ∨ s'.retxEvent = some .reTxTimeout

namespace Arms

theorem refl (s : TcpSocketBase) : Arms s s := ⟨rfl, rfl, Or.inl rfl⟩

theorem trans (h₁ : Arms s s₁) (h₂ : Arms s₁ s₂) : Arms s s₂ := by
  refine ⟨h₂.txBuffer_eq.trans h₁.txBuffer_eq, h₂.persistEvent_eq.trans h₁.persistEvent_eq, ?_⟩
  rcases h₂.retxEvent_eq with heq₂ | heq₂
  · rcases h₁.retxEvent_eq with heq₁ | heq₁
    · exact Or.inl (heq₂.trans heq₁)
    · exact Or.inr (heq₂.trans heq₁)
  · exact Or.inr heq₂

theorem timerRuns (harms : Arms s s') (hruns : s.TimerRuns) : s'.TimerRuns := by
  rcases hruns with hretx | hpersist
  · left
    rcases harms.retxEvent_eq with heq | heq
    · rw [heq]
      exact hretx
    · rw [heq]
      exact Option.some_ne_none _
  · right
    rw [harms.persistEvent_eq]
    exact hpersist

end Arms

/-! ## What sends -/

theorem sendDataPacket_arms {maxSize : UInt32} {r : TcpSocketBase × UInt32}
    (hsend : s.sendDataPacket seq maxSize withAck = some r) : Arms s r.1 ∧ r.1.TimerRuns := by
  obtain ⟨p, -, rfl⟩ := Option.map_eq_some_iff.mp hsend
  have hretx : ∀ t : Option RetxEvent,
      ((if t = none then some .reTxTimeout else t) = t ∨
        (if t = none then some .reTxTimeout else t) = some RetxEvent.reTxTimeout) ∧
        (if t = none then some .reTxTimeout else t) ≠ none := by
    intro t
    cases t with
    | none => exact ⟨Or.inr rfl, Option.some_ne_none _⟩
    | some event => exact ⟨Or.inl rfl, Option.some_ne_none _⟩
  exact ⟨⟨rfl, rfl, (hretx _).1⟩, Or.inl (hretx _).2⟩

theorem sendLoop_arms {fuel : ℕ} (hloop : sendLoop window withAck fuel s = some s') :
    Arms s s' := by
  induction fuel generalizing s with
  | zero =>
      obtain rfl := Option.some.inj hloop
      exact Arms.refl s
  | succ fuel ih =>
      rcases sendLoop_succ hloop with rfl | ⟨n, r, hsend, hrest⟩
      · exact Arms.refl _
      · have hr := (sendDataPacket_arms hsend).1
        have hmoved : Arms s { r.1 with nextTxSequence := s.nextTxSequence + r.2 } :=
          hr.trans ⟨rfl, rfl, Or.inl rfl⟩
        rcases hrest with hrest | rfl
        · exact hmoved.trans (ih hrest)
        · exact hr

theorem sendPendingData_arms (hsend : s.sendPendingData window withAck = some s') :
    Arms s s' := by
  unfold sendPendingData at hsend
  split at hsend
  next => exact Option.some.inj hsend ▸ Arms.refl s
  next =>
    split at hsend
    next => exact Option.some.inj hsend ▸ Arms.refl s
    next => exact sendLoop_arms hsend

theorem sendPendingData_runs (hsends : s.SendsPending window)
    (hsend : s.sendPendingData window withAck = some s') : s'.TimerRuns := by
  obtain ⟨hsize, hend, hremaining, hshutdown, hwindow, hnagle⟩ := hsends
  unfold sendPendingData at hsend
  rw [if_neg hsize, if_neg (by rw [hend]; decide)] at hsend
  obtain ⟨fuel, hfuel⟩ := Nat.exists_eq_succ_of_ne_zero
    (fun hzero => hremaining (UInt32.toNat_inj.mp hzero))
  rw [hfuel, sendLoop] at hsend
  dsimp only at hsend
  rw [if_neg hremaining, if_neg (by rw [hshutdown]; decide), if_neg hwindow, if_neg hnagle]
    at hsend
  obtain ⟨r, hpacket, hrest⟩ := Option.bind_eq_some_iff.mp hsend
  have hr := (sendDataPacket_arms hpacket).2
  split at hrest
  · exact (sendLoop_arms hrest).timerRuns hr
  · exact Option.some.inj hrest ▸ hr

theorem sendPendingData_of_not (hnot : ¬ s.SendsPending window) :
    s.sendPendingData window withAck = some s := by
  unfold sendPendingData
  split
  next => rfl
  next hsize =>
    split
    next => rfl
    next hend =>
      -- the first test that fails ends the loop before anything is sent
      cases hfuel : (s.txBuffer.sizeFromSequence s.nextTxSequence).toNat with
      | zero => rfl
      | succ fuel =>
          rw [sendLoop]
          dsimp only
          split
          next => rfl
          next hremaining =>
            split
            next => rfl
            next hshutdown =>
              split
              next => rfl
              next hwindow =>
                split
                next => rfl
                next hnagle =>
                  exact absurd ⟨hsize, by simpa using hend, hremaining, by simpa using hshutdown,
                    hwindow, hnagle⟩ hnot

theorem sendPendingData_timerRuns (hsend : s.sendPendingData window withAck = some s') :
    s'.TimerRuns ↔ s.TimerRuns ∨ s.SendsPending window := by
  constructor
  · intro hruns
    by_cases hsends : s.SendsPending window
    · exact Or.inr hsends
    · rw [sendPendingData_of_not hsends] at hsend
      exact Or.inl (Option.some.inj hsend ▸ hruns)
  · rintro (hruns | hsends)
    · exact (sendPendingData_arms hsend).timerRuns hruns
    · exact sendPendingData_runs hsends hsend

theorem doRetransmit_arms (hopen : s.state = .ESTABLISHED) (hsend : s.doRetransmit = some s') :
    Arms s s' ∧ (s.txBuffer.size ≠ 0 → s'.TimerRuns) := by
  unfold doRetransmit at hsend
  split at hsend
  next => cases hsend
  next =>
    split at hsend
    next hsize =>
      obtain rfl := Option.some.inj hsend
      rw [if_neg (by rw [hopen]; decide)]
      exact ⟨Arms.refl s, fun hne => absurd hsize hne⟩
    next =>
      obtain ⟨r, hpacket, rfl⟩ := Option.map_eq_some_iff.mp hsend
      obtain ⟨harms, hruns⟩ := sendDataPacket_arms hpacket
      exact ⟨harms.trans ⟨rfl, rfl, Or.inl rfl⟩, fun _ => hruns⟩

/-- `DupAck` starts the timer exactly if it sends a packet. -/
theorem dupAck_arms (hopen : s.state = .ESTABLISHED) (hdup : s.dupAck d = some s') :
    Arms s s' ∧ (s.txBuffer.size ≠ 0 → (s'.TimerRuns ↔ s.TimerRuns ∨ s.SendsOnDupAck d)) := by
  have hsends : ∀ action, d.dupAck = action → (s.SendsOnDupAck d ↔
      s.SendsOnDupAck { d with dupAck := action }) := by
    rintro action rfl
    exact Iff.rfl
  unfold dupAck at hdup
  split at hdup
  next haction =>
    obtain rfl := Option.some.inj hdup
    exact ⟨Arms.refl s, fun _ => (or_iff_left (hsends _ haction).mp).symm⟩
  next haction =>
    refine ⟨sendPendingData_arms hdup, fun _ => (sendPendingData_timerRuns hdup).trans ?_⟩
    exact or_congr_right (hsends _ haction).symm
  next haction =>
    split at hdup
    next hleft =>
      obtain ⟨r, hpacket, rfl⟩ := Option.map_eq_some_iff.mp hdup
      obtain ⟨harms, hruns⟩ := sendDataPacket_arms hpacket
      exact ⟨harms.trans ⟨rfl, rfl, Or.inl rfl⟩, fun _ =>
        iff_of_true hruns (Or.inr ((hsends _ haction).mpr hleft))⟩
    next hnone =>
      obtain rfl := Option.some.inj hdup
      exact ⟨Arms.refl s, fun _ =>
        (or_iff_left fun hleft => hnone ((hsends _ haction).mp hleft)).symm⟩
  next haction =>
    obtain ⟨harms, hruns⟩ := doRetransmit_arms hopen hdup
    exact ⟨harms, fun hsize =>
      iff_of_true (hruns hsize) (Or.inr ((hsends _ haction).mpr trivial))⟩

/-! ## Acknowledgements -/

/-- The retransmission timer is not the one of a FIN. -/
def OnlyRetransmits (s : TcpSocketBase) : Prop :=
  ∀ flags, s.retxEvent ≠ some (.sendEmptyPacket flags)

theorem Arms.onlyRetransmits (harms : Arms s s') (honly : s.OnlyRetransmits) :
    s'.OnlyRetransmits := by
  intro flags
  rcases harms.retxEvent_eq with heq | heq
  · rw [heq]
    exact honly flags
  · rw [heq]
    exact fun hflags => by cases hflags

/-- A new acknowledgement leaves a timer, unless all data is acknowledged. -/
theorem advance_runs (hopen : s.state = .ESTABLISHED)
    (hadvance : s.advance ack = some s') :
    s'.OnlyRetransmits ∧ (s'.txBuffer.size ≠ 0 → s'.TimerRuns) := by
  obtain ⟨txBuffer, -, rfl⟩ := Option.map_eq_some_iff.mp hadvance
  have hrestarted : s.restartTimers.OnlyRetransmits ∧ s.restartTimers.TimerRuns := by
    unfold restartTimers
    split
    · exact ⟨fun flags hflags => (by cases hflags), Or.inr rfl⟩
    · rw [if_neg (by rw [hopen]; decide)]
      exact ⟨fun flags hflags => (by cases hflags), Or.inl (Option.some_ne_none _)⟩
  refine ⟨fun flags => ?_, fun hsize => ?_⟩
  · dsimp only
    split
    · exact fun hflags => by cases hflags
    · exact hrestarted.1 flags
  · unfold TimerRuns
    dsimp only at hsize ⊢
    rw [if_neg fun hboth => hsize hboth.1]
    exact hrestarted.2

theorem newAck_runs (hopen : s.state = .ESTABLISHED) (hack : s.newAck d ack = some s')
    (hstate : s'.state = .ESTABLISHED) :
    s'.OnlyRetransmits ∧ (s'.txBuffer.size ≠ 0 → s'.TimerRuns) := by
  obtain ⟨s₁, hadvance, hrest⟩ := Option.bind_eq_some_iff.mp hack
  obtain ⟨s₂, hsend, hlast⟩ := Option.bind_eq_some_iff.mp hrest
  obtain ⟨honly₁, hruns₁⟩ := advance_runs hopen hadvance
  have harms : Arms s₁ s' := by
    have harms₂ := sendPendingData_arms hsend
    split at hlast
    next =>
      have hopen₂ := established_of_newAck hopen hadvance hsend hlast hstate
      exact harms₂.trans (doRetransmit_arms hopen₂ hlast).1
    next => exact Option.some.inj hlast ▸ harms₂
  refine ⟨harms.onlyRetransmits honly₁, fun hsize => harms.timerRuns (hruns₁ ?_)⟩
  rw [← harms.txBuffer_eq]
  exact hsize

theorem receivedAckNumber_timerRuns (hopen : s.state = .ESTABLISHED)
    (honly : s.OnlyRetransmits) (hflags : h.flags.ack = true)
    (hack : s.receivedAckNumber d p h = some s') (hstate : s'.state = .ESTABLISHED) :
    s'.OnlyRetransmits ∧ (s'.txBuffer = s.txBuffer ∨ s.AckSends d p h.ackNumber) ∧
      (s'.txBuffer.size ≠ 0 → (s'.TimerRuns ↔ s.TimerRuns ∨ s.AckSends d p h.ackNumber)) := by
  unfold receivedAckNumber at hack
  rw [if_neg (by rw [hflags]; decide)] at hack
  split at hack
  next hold =>
    obtain rfl := Option.some.inj hack
    exact ⟨honly, Or.inl rfl, fun _ => (or_iff_left fun hsends => hsends.1 hold).symm⟩
  next hold =>
    split at hack
    next heq =>
      obtain ⟨s₁, hdup, hassert⟩ := Option.bind_eq_some_iff.mp hack
      split at hassert
      next =>
        obtain rfl := Option.some.inj hassert
        split at hdup
        next hduplicate =>
          obtain ⟨harms, hruns⟩ := dupAck_arms hopen hdup
          refine ⟨harms.onlyRetransmits honly, Or.inl harms.txBuffer_eq, fun hsize => ?_⟩
          rw [harms.txBuffer_eq] at hsize
          rw [hruns hsize]
          exact or_congr_right
            ⟨fun hsends => ⟨hold, fun _ => ⟨hduplicate, hsends⟩⟩, fun hsends => (hsends.2 heq).2⟩
        next hduplicate =>
          obtain rfl := Option.some.inj hdup
          exact ⟨honly, Or.inl rfl, fun _ =>
            (or_iff_left fun hsends => hduplicate (hsends.2 heq).1).symm⟩
      next => cases hassert
    next hne =>
      have hsends : s.AckSends d p h.ackNumber := ⟨hold, fun heq => absurd heq hne⟩
      obtain ⟨honly', hruns⟩ := newAck_runs hopen hack hstate
      exact ⟨honly', Or.inr hsends, fun hsize => iff_of_true (hruns hsize) (Or.inr hsends)⟩

/-! ## Runs -/

/-- When a step leaves a timer of an established sender with data. -/
def KeepsTimer (s : TcpSocketBase) : Congestion × Event → Prop
  | (d, .doForwardUp p h) =>
      s.txBuffer.size ≠ 0 → (s.withWindow h).TimerRuns ∨
        (s.InRange p h ∧ h.flags = TcpHeader.ACK) ∧ (s.withWindow h).AckSends d p h.ackNumber
  | (d, .send p) =>
      s.accepts p = true → (s.txBuffer.add p).1.size ≠ 0 →
        s.TimerRuns ∨ { s with txBuffer := (s.txBuffer.add p).1 }.SendsPending d.window
  | (_, .retxEvent) =>
      s.highTxMark ≤ s.txBuffer.headSequence → s.txBuffer.size ≠ 0 → s.persistEvent = true
  | _ => True

theorem Quiet.onlyRetransmits (hquiet : Quiet s s') (honly : s.OnlyRetransmits) :
    s'.OnlyRetransmits := by
  intro flags
  rw [hquiet.retxEvent_eq]
  exact honly flags

theorem Quiet.timerRuns_iff (hquiet : Quiet s s') : s'.TimerRuns ↔ s.TimerRuns := by
  unfold TimerRuns
  rw [hquiet.retxEvent_eq, hquiet.persistEvent_eq]

theorem doForwardUp_waits (hopen : s.state = .ESTABLISHED) (honly : s.OnlyRetransmits)
    (hforward : s.doForwardUp d p h = some s') (hstate : s'.state = .ESTABLISHED) :
    s'.OnlyRetransmits ∧
      ((s'.txBuffer.size ≠ 0 → s'.TimerRuns) ↔ s.KeepsTimer (d, .doForwardUp p h)) := by
  rcases doForwardUp_cases hopen hforward hstate with
    ⟨hacks, s₁, hack, hquiet, hstate₁⟩ | ⟨hnot, hquiet⟩
  · have hflag : h.flags.ack = true := by
      rw [hacks.2]
      rfl
    have hwindow : (s.withWindow h).OnlyRetransmits := honly
    have hopen' : (s.withWindow h).state = .ESTABLISHED := hopen
    obtain ⟨honly₁, hbuffer, hruns⟩ :=
      receivedAckNumber_timerRuns hopen' hwindow hflag hack hstate₁
    refine ⟨hquiet.onlyRetransmits honly₁, ?_⟩
    rw [hquiet.txBuffer_eq, hquiet.timerRuns_iff]
    constructor
    · intro hwaits hsize
      -- without a send the buffer is the old one, so what is left after it was left before
      rcases hbuffer with hsame | hsends
      · have hsize₁ : s₁.txBuffer.size ≠ 0 := by
          rw [hsame]
          exact hsize
        exact ((hruns hsize₁).mp (hwaits hsize₁)).imp_right fun hsends => ⟨hacks, hsends⟩
      · exact Or.inr ⟨hacks, hsends⟩
    · intro hkeeps hsize₁
      refine (hruns hsize₁).mpr ?_
      rcases hbuffer with hsame | hsends
      · rw [hsame] at hsize₁
        exact (hkeeps hsize₁).imp_right And.right
      · exact Or.inr hsends
  · refine ⟨hquiet.onlyRetransmits honly, ?_⟩
    rw [hquiet.txBuffer_eq, hquiet.timerRuns_iff]
    exact imp_congr_right fun _ => (or_iff_left fun hacks => hnot hacks.1).symm

theorem send_waits (hopen : s.state = .ESTABLISHED) (honly : s.OnlyRetransmits)
    (hwaits : s.Waits) (hsend : s.send d p = some s') :
    s'.OnlyRetransmits ∧
      ((s'.txBuffer.size ≠ 0 → s'.TimerRuns) ↔ s.KeepsTimer (d, .send p)) := by
  unfold send at hsend
  split at hsend
  next haccepts =>
    dsimp only at hsend
    rw [if_pos (Or.inl hopen)] at hsend
    have harms := sendPendingData_arms hsend
    refine ⟨harms.onlyRetransmits honly, ?_⟩
    rw [harms.txBuffer_eq, sendPendingData_timerRuns hsend]
    exact ⟨fun hruns _ => hruns, fun hkeeps => hkeeps haccepts⟩
  next hrefused =>
    obtain rfl := Option.some.inj hsend
    exact ⟨honly, iff_of_true (hwaits hopen) fun haccepts => absurd haccepts hrefused⟩

theorem expire_waits (hopen : s.state = .ESTABLISHED) (honly : s.OnlyRetransmits)
    (hexpire : s.expire = some s') :
    s'.OnlyRetransmits ∧
      ((s'.txBuffer.size ≠ 0 → s'.TimerRuns) ↔ s.KeepsTimer (d, .retxEvent)) := by
  have hnone : ({ s with retxEvent := none } : TcpSocketBase).OnlyRetransmits :=
    fun flags hflags => by cases hflags
  unfold expire at hexpire
  split at hexpire
  next => cases hexpire
  next =>
    unfold reTxTimeout at hexpire
    dsimp only at hexpire
    rw [if_neg (by rw [hopen]; decide)] at hexpire
    split at hexpire
    next hearly =>
      obtain rfl := Option.some.inj hexpire
      refine ⟨hnone, ⟨fun hruns _ hsize => ?_, fun hkeeps hsize => ?_⟩⟩
      · exact (hruns hsize).resolve_left fun hne => hne rfl
      · exact Or.inr (hkeeps hearly.2 hsize)
    next hlate =>
      obtain ⟨s₁, hs₁⟩ : ∃ s₁ : TcpSocketBase, s₁ =
        { s with retxEvent := none, nextTxSequence := s.txBuffer.headSequence } := ⟨_, rfl⟩
      have hsame : s₁.state = s.state ∧ s₁.txBuffer = s.txBuffer ∧ s₁.OnlyRetransmits :=
        hs₁ ▸ ⟨rfl, rfl, hnone⟩
      have hretransmit : s₁.doRetransmit = some s' := hs₁ ▸ hexpire
      obtain ⟨harms, hruns⟩ := doRetransmit_arms (hsame.1.trans hopen) hretransmit
      refine ⟨harms.onlyRetransmits hsame.2.2, iff_of_true (fun hsize => hruns ?_) fun hle => ?_⟩
      · rw [harms.txBuffer_eq] at hsize
        exact hsize
      · exact absurd ⟨Or.inr (Or.inr (Or.inr hopen)), hle⟩ hlate
  next flags hretx => exact absurd hretx (honly flags)

/-- From ESTABLISHED on, where the retransmission timer is not the one of a FIN. -/
def FromEstablished (s : TcpSocketBase) : Prop :=
  1 ≤ s.state.progress ∧ (s.state = .ESTABLISHED → s.OnlyRetransmits)

theorem FromEstablished.before {e : Congestion × Event} (hs : s.FromEstablished)
    (hstep : s.step e = some s') (hstate : s'.state = .ESTABLISHED) : s.state = .ESTABLISHED :=
  established_of_progress hs.1 (hstate ▸ progress_step hstep)

/-- A step that stays in ESTABLISHED leaves a timer exactly if it meets the condition. -/
theorem step_waits {e : Congestion × Event} (hs : s.FromEstablished) (hwaits : s.Waits)
    (hstep : s.step e = some s') (hstate : s'.state = .ESTABLISHED) :
    s'.OnlyRetransmits ∧ ((s'.txBuffer.size ≠ 0 → s'.TimerRuns) ↔ s.KeepsTimer e) := by
  obtain ⟨d, event⟩ := e
  have hopen := hs.before hstep hstate
  have honly := hs.2 hopen
  rcases established_step hopen hstep hstate with ⟨p, h, rfl, -⟩ | ⟨p, rfl, hsend⟩ |
    ⟨rfl, hexpire⟩ | ⟨rfl, hpersist, htimeout⟩ | ⟨hsends, hquiet⟩
  · exact doForwardUp_waits hopen honly hstep hstate
  · exact send_waits hopen honly hwaits hsend
  · exact expire_waits hopen honly hexpire
  · obtain ⟨p, -, rfl⟩ := Option.map_eq_some_iff.mp htimeout
    exact ⟨honly, iff_of_true (fun _ => Or.inr hpersist) trivial⟩
  · refine ⟨hquiet.onlyRetransmits honly, ?_⟩
    rw [hquiet.txBuffer_eq, hquiet.timerRuns_iff]
    refine iff_of_true (hwaits hopen) ?_
    cases event <;> trivial

/-- An established sender with data waits for a timer throughout a run exactly if no step that stays
in ESTABLISHED loses it: a segment that ends the probing sends something or acknowledges new data,
`Send` sends something if no timer runs, and the retransmission timer does not expire with all sent
data acknowledged. -/
theorem sender_waits_iff (config : Config) (head nextRx : SequenceNumber32) (rWnd : UInt32)
    (events : List (Congestion × Event)) :
    Throughout step Waits (established config head nextRx rWnd) events ↔
      EachStep step
        (fun s e s' => s.state = .ESTABLISHED → s'.state = .ESTABLISHED → s.KeepsTimer e)
        (established config head nextRx rWnd) events := by
  have hstart : (established config head nextRx rWnd).FromEstablished ∧
      (established config head nextRx rWnd).Waits :=
    ⟨⟨le_rfl, fun _ flags hflags => by cases hflags⟩, fun _ hsize => absurd rfl hsize⟩
  have hiff : ∀ s e s', s.FromEstablished ∧ s.Waits → step s e = some s' →
      (s'.Waits ↔ (s.state = .ESTABLISHED → s'.state = .ESTABLISHED → s.KeepsTimer e)) := by
    rintro s e s' ⟨hs, hwaits⟩ hstep
    constructor
    · exact fun hwaits' _ hstate => (step_waits hs hwaits hstep hstate).2.mp (hwaits' hstate)
    · exact fun hkeeps hstate => (step_waits hs hwaits hstep hstate).2.mpr
        (hkeeps (hs.before hstep hstate) hstate)
  rw [throughout_iff_eachStep]
  refine (and_iff_right hstart.2).trans
    (eachStep_iff_of_invariant hiff (fun s e s' hs hstep hkeeps => ?_) hstart events)
  refine ⟨⟨hs.1.1.trans (progress_step hstep), fun hstate => ?_⟩, (hiff s e s' hs hstep).mpr hkeeps⟩
  exact (step_waits hs.1 hs.2 hstep hstate).1

/-- Segments of up to two bytes, and room for a few of them. -/
def shortSegments : Config where
  sndBufSize := 10
  rcvBufSize := 10
  segmentSize := 2
  delAckMaxCount := 1
  maxWinSize := 10
  noDelay := true

/-- The receiver acknowledges all data with a closed window, more data is buffered, and the window
opens again. -/
def windowUpdate : List (Congestion × Event) :=
  [(⟨10, .ignore, false⟩, .send [1, 2]),
    (⟨0, .ignore, false⟩, .doForwardUp [] ⟨⟨0⟩, ⟨2⟩, TcpHeader.ACK, 0⟩),
    (⟨0, .ignore, false⟩, .send [3, 4]),
    (⟨10, .ignore, false⟩, .doForwardUp [] ⟨⟨0⟩, ⟨2⟩, TcpHeader.ACK, 10⟩)]

/-- The window update ends the probing, and nothing is sent. -/
theorem windowUpdate_stalls :
    ¬ Throughout step Waits (established shortSegments ⟨0⟩ ⟨0⟩ 10) windowUpdate := by
  intro hwaits
  have hlast : ((run step (established shortSegments ⟨0⟩ ⟨0⟩ 10) windowUpdate).any
      fun s => decide (s.state = .ESTABLISHED ∧ s.txBuffer.size = 2 ∧ s.retxEvent = none ∧
        s.persistEvent = false)) = true := by
    decide +kernel
  obtain ⟨s, hrun, hvalues⟩ := Option.any_eq_true _ _ |>.mp hlast
  obtain ⟨hopen, hsize, hretx, hpersist⟩ := of_decide_eq_true hvalues
  rcases hwaits.last hrun hopen (by rw [hsize]; decide) with hruns | hruns
  · exact hruns hretx
  · rw [hpersist] at hruns
    cases hruns

end TcpSocketBase

end Ns3Rdma
