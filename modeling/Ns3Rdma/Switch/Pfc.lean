import Mathlib.Data.List.FinRange
import Ns3Rdma.Lib.StepSystem
import Ns3Rdma.Switch.BroadcomNode

/-!
# PFC frames and the pause flags of the switch

`CheckQueueFull` sends PAUSE and RESUME frames to the device a packet came in by, and
remembers in `pauseRemote` what it has paused. A run interleaves calls of any egress
device, from `Send` or from the recheck timer, with changes of the ingress counters.
-/

namespace Ns3Rdma

open StepSystem

/-- The `Receive` branch of a PFC frame: without a pause time, `PauseFinish` runs at once. -/
def receivePause (paused : Fin qCnt → Bool) (pauseh : PauseHeader) : Fin qCnt → Bool :=
  let stopped := Function.update paused pauseh.qIndex true
  if pauseh.time > 0 then stopped else Function.update stopped pauseh.qIndex false

/-- The switch, the PFC frames it has sent to each ingress device, oldest first, and the
delays of the pending recheck timers of each egress device. -/
structure Pfc where
  node : BroadcomNode
  sent : List (Fin pCnt × PauseHeader)
  recheckEvt : Fin pCnt → QueueId → Option UInt32

/-- The classes the neighbour at each port was last told to pause. -/
def told (sent : List (Fin pCnt × PauseHeader)) : QueueId → Bool :=
  sent.foldl (fun paused frame id =>
    if id.1 = frame.1 then receivePause (fun j => paused (id.1, j)) frame.2 id.2 else paused id)
    fun _ => false

namespace Pfc

variable (pausetime : Fin pCnt → UInt32)

def start (t : Thresholds) : Pfc where
  node := BroadcomNode.start t
  sent := []
  recheckEvt := fun _ _ => none

/-- Send one frame to the device of port `pg.1`, set the flag of `pg` and the recheck timer. -/
def send (s : Pfc) (dev : Fin pCnt) (pg : QueueId) (pauseh : PauseHeader) (flag : Bool)
    (recheck : Option UInt32) : Pfc where
  node := { s.node with pauseRemote := Function.update s.node.pauseRemote pg flag }
  sent := s.sent ++ [(pg.1, pauseh)]
  recheckEvt := Function.update s.recheckEvt dev (Function.update (s.recheckEvt dev) pg recheck)

/-- First loop of `CheckQueueFull`: the frame names class `j`, the flag is the one of `pg`. -/
def pauseLoop (dev : Fin pCnt) (pg : QueueId) (qlen : Fin qCnt → UInt32)
    (pClasses : Fin qCnt → Bool) (s : Pfc) (classes : List (Fin qCnt)) : Pfc :=
  classes.foldl (fun s j =>
    if pClasses j then
      s.send dev pg ⟨pausetime dev, qlen j, j⟩ true (some (pausetime dev / 2))
    else s) s

/-- Second loop of `CheckQueueFull`: the flag it tests and clears is the one of `pg`. -/
def resumeLoop (dev : Fin pCnt) (pg : QueueId) (qlen : Fin qCnt → UInt32) (s : Pfc)
    (classes : List (Fin qCnt)) : Pfc :=
  classes.foldl (fun s j =>
    if !s.node.pauseRemote pg then s
    else if s.node.getResumeClasses pg then s.send dev pg ⟨0, qlen j, j⟩ false none
    else s) s

/-- The state of `CheckQueueFull` between its two loops. -/
def afterPauses (s : Pfc) (dev : Fin pCnt) (pg : QueueId) (qlen : Fin qCnt → UInt32) : Pfc :=
  pauseLoop pausetime dev pg qlen (s.node.getPauseClasses pg) s (List.finRange qCnt)

def checkQueueFull (s : Pfc) (dev : Fin pCnt) (pg : QueueId) (qlen : Fin qCnt → UInt32) : Pfc :=
  resumeLoop dev pg qlen (afterPauses pausetime s dev pg qlen) (List.finRange qCnt)

inductive Event where
  /-- Egress device `dev`, whose queues hold `qlen` bytes, checks group `pg`. -/
  | check (dev : Fin pCnt) (pg : QueueId) (qlen : Fin qCnt → UInt32)
  | charge (pg : QueueId) (psize : UInt32)
  | discharge (pg : QueueId) (psize : UInt32)

def step (s : Pfc) : Event → Option Pfc
  | .check dev pg qlen => some (s.checkQueueFull pausetime dev pg qlen)
  | .charge pg psize => some { s with node := s.node.updateIngressAdmission pg psize }
  | .discharge pg psize => some { s with node := s.node.removeFromIngressAdmission pg psize }

/-- The frames sent between two states of a run. -/
def newFrames (s next : Pfc) : List (Fin pCnt × PauseHeader) :=
  next.sent.drop s.sent.length

/-- Every class that a frame pauses has its flag set, and every flag that is cleared has a
RESUME frame for its class. -/
def FramesMatchFlags (s : Pfc) : Event → Pfc → Prop
  | .check dev pg qlen, next =>
      let middle := s.afterPauses pausetime dev pg qlen
      (∀ frame ∈ newFrames s middle,
        middle.node.pauseRemote (frame.1, frame.2.qIndex) = true) ∧
      ∀ id, middle.node.pauseRemote id = true → next.node.pauseRemote id = false →
        ∃ frame ∈ newFrames middle next,
          frame.1 = id.1 ∧ frame.2.qIndex = id.2 ∧ frame.2.time = 0
  | _, _ => True

/-- The flags are what the neighbours were last told. -/
def Agrees (s : Pfc) : Prop :=
  ∀ id, told s.sent id = s.node.pauseRemote id

/-- A call finds something to resume once its first loop is done. -/
def Resumes (s : Pfc) (pg : QueueId) : Prop :=
  (s.node.pauseRemote pg = true ∨ ∃ j, s.node.getPauseClasses pg j = true) ∧
    s.node.getResumeClasses pg = true

/-- The call pauses no other class whose flag is down, raises the flag of its own class only
with a PAUSE for it, and finds something to resume only for class 0. -/
def FollowsFlags (s : Pfc) : Event → Prop
  | .check _ pg _ =>
      (∀ j, s.node.getPauseClasses pg j = true → j = pg.2 ∨ s.node.pauseRemote (pg.1, j) = true) ∧
      (¬ s.Resumes pg → (∃ j, s.node.getPauseClasses pg j = true) →
        s.node.getPauseClasses pg pg.2 = true ∨ s.node.pauseRemote pg = true) ∧
      (s.Resumes pg → pg.2 = 0)
  | _ => True

theorem told_send (s : Pfc) (dev : Fin pCnt) (pg : QueueId) (pauseh : PauseHeader) (flag : Bool)
    (recheck : Option UInt32) (id : QueueId) :
    told (s.send dev pg pauseh flag recheck).sent id =
      if id = (pg.1, pauseh.qIndex) then decide (pauseh.time > 0) else told s.sent id := by
  simp only [told, send, List.foldl_append, List.foldl_cons, List.foldl_nil, receivePause]
  obtain ⟨port, j⟩ := id
  by_cases hport : port = pg.1
  · by_cases hj : j = pauseh.qIndex
    · subst hport hj
      by_cases htime : pauseh.time > 0 <;> simp [htime]
    · by_cases htime : pauseh.time > 0 <;> simp [hport, hj, htime]
  · simp [hport]

/-- The counters and limits, which decide what to pause and to resume, are not sent. -/
theorem send_getResumeClasses (s : Pfc) (dev : Fin pCnt) (pg : QueueId) (pauseh : PauseHeader)
    (flag : Bool) (recheck : Option UInt32) (id : QueueId) :
    (s.send dev pg pauseh flag recheck).node.getResumeClasses id = s.node.getResumeClasses id :=
  rfl

section Loops

variable {pausetime} (dev : Fin pCnt) (pg : QueueId) (qlen : Fin qCnt → UInt32)
  (pClasses : Fin qCnt → Bool)

theorem pauseLoop_sent (s : Pfc) (classes : List (Fin qCnt)) :
    (pauseLoop pausetime dev pg qlen pClasses s classes).sent =
      s.sent ++ (classes.filter pClasses).map fun j => (pg.1, ⟨pausetime dev, qlen j, j⟩) := by
  induction classes generalizing s with
  | nil => simp [pauseLoop]
  | cons j rest ih =>
      unfold pauseLoop at ih ⊢
      rw [List.foldl_cons, ih]
      by_cases hj : pClasses j <;> simp [hj, send]

theorem pauseLoop_flag (s : Pfc) (classes : List (Fin qCnt)) (id : QueueId) :
    (pauseLoop pausetime dev pg qlen pClasses s classes).node.pauseRemote id = true ↔
      s.node.pauseRemote id = true ∨ id = pg ∧ ∃ j ∈ classes, pClasses j = true := by
  induction classes generalizing s with
  | nil => simp [pauseLoop]
  | cons j rest ih =>
      unfold pauseLoop at ih ⊢
      rw [List.foldl_cons, ih]
      by_cases hj : pClasses j
      · by_cases hid : id = pg <;> simp [hj, send, hid]
      · simp [hj]

theorem pauseLoop_getResumeClasses (s : Pfc) (classes : List (Fin qCnt)) (id : QueueId) :
    (pauseLoop pausetime dev pg qlen pClasses s classes).node.getResumeClasses id =
      s.node.getResumeClasses id := by
  induction classes generalizing s with
  | nil => rfl
  | cons j rest ih =>
      unfold pauseLoop at ih ⊢
      rw [List.foldl_cons, ih]
      split
      · exact send_getResumeClasses s _ _ _ _ _ id
      · rfl

theorem told_pauseLoop (hpause : 0 < pausetime dev) (s : Pfc) (classes : List (Fin qCnt))
    (id : QueueId) :
    told (pauseLoop pausetime dev pg qlen pClasses s classes).sent id = true ↔
      told s.sent id = true ∨ id.1 = pg.1 ∧ id.2 ∈ classes ∧ pClasses id.2 = true := by
  induction classes generalizing s with
  | nil => simp [pauseLoop]
  | cons j rest ih =>
      unfold pauseLoop at ih ⊢
      rw [List.foldl_cons, ih]
      obtain ⟨port, k⟩ := id
      by_cases hj : pClasses j
      · rw [if_pos hj, told_send]
        by_cases hport : port = pg.1
        · by_cases hk : k = j
          · simp [hport, hk, hj, hpause]
          · simp [hport, hk]
        · simp [hport]
      · rw [if_neg hj]
        by_cases hk : k = j
        · simp [hk, hj]
        · simp [hk]

theorem resumeLoop_idle {s : Pfc} (classes : List (Fin qCnt))
    (hidle : ¬ (s.node.pauseRemote pg = true ∧ s.node.getResumeClasses pg = true)) :
    resumeLoop dev pg qlen s classes = s := by
  induction classes with
  | nil => rfl
  | cons j rest ih =>
      unfold resumeLoop at ih ⊢
      rw [List.foldl_cons]
      by_cases hflag : s.node.pauseRemote pg = true
      · have hresume : ¬ s.node.getResumeClasses pg = true := fun h => hidle ⟨hflag, h⟩
        simpa [hflag, hresume] using ih
      · simpa [hflag] using ih

/-- The first class of the loop gets the only RESUME: it clears the flag all others test. -/
theorem resumeLoop_cons {s : Pfc} (j : Fin qCnt) (rest : List (Fin qCnt))
    (hflag : s.node.pauseRemote pg = true) (hresume : s.node.getResumeClasses pg = true) :
    resumeLoop dev pg qlen s (j :: rest) = s.send dev pg ⟨0, qlen j, j⟩ false none := by
  have hidle := resumeLoop_idle dev pg qlen (s := s.send dev pg ⟨0, qlen j, j⟩ false none) rest
    (by simp [send])
  unfold resumeLoop at hidle ⊢
  rw [List.foldl_cons]
  simpa [hflag, hresume] using hidle

end Loops

section Check

variable {pausetime} {s : Pfc} {dev : Fin pCnt} {pg : QueueId} {qlen : Fin qCnt → UInt32}

theorem afterPauses_flag (id : QueueId) :
    (s.afterPauses pausetime dev pg qlen).node.pauseRemote id = true ↔
      s.node.pauseRemote id = true ∨ id = pg ∧ ∃ j, s.node.getPauseClasses pg j = true := by
  rw [afterPauses, pauseLoop_flag]
  simp

theorem told_afterPauses (hpause : 0 < pausetime dev) (id : QueueId) :
    told (s.afterPauses pausetime dev pg qlen).sent id = true ↔
      told s.sent id = true ∨ id.1 = pg.1 ∧ s.node.getPauseClasses pg id.2 = true := by
  rw [afterPauses, told_pauseLoop _ _ _ _ hpause]
  simp

theorem newFrames_afterPauses :
    newFrames s (s.afterPauses pausetime dev pg qlen) =
      ((List.finRange qCnt).filter (s.node.getPauseClasses pg)).map
        fun j => (pg.1, ⟨pausetime dev, qlen j, j⟩) := by
  rw [newFrames, afterPauses, pauseLoop_sent, List.drop_left]

theorem resumes_iff_afterPauses : s.Resumes pg ↔
    (s.afterPauses pausetime dev pg qlen).node.pauseRemote pg = true ∧
      (s.afterPauses pausetime dev pg qlen).node.getResumeClasses pg = true := by
  rw [afterPauses_flag, Resumes, afterPauses, pauseLoop_getResumeClasses]
  simp

theorem checkQueueFull_resumes (h : s.Resumes pg) :
    s.checkQueueFull pausetime dev pg qlen =
      (s.afterPauses pausetime dev pg qlen).send dev pg ⟨0, qlen 0, 0⟩ false none := by
  obtain ⟨hflag, hresume⟩ := resumes_iff_afterPauses.mp h
  rw [checkQueueFull, show List.finRange qCnt = 0 :: (List.finRange 7).map Fin.succ from
    List.finRange_succ, resumeLoop_cons dev pg qlen 0 _ hflag hresume]

theorem checkQueueFull_idle (h : ¬ s.Resumes pg) :
    s.checkQueueFull pausetime dev pg qlen = s.afterPauses pausetime dev pg qlen := by
  rw [resumes_iff_afterPauses] at h
  exact resumeLoop_idle dev pg qlen _ h

theorem marked_iff :
    (∀ frame ∈ newFrames s (s.afterPauses pausetime dev pg qlen),
      (s.afterPauses pausetime dev pg qlen).node.pauseRemote (frame.1, frame.2.qIndex) = true) ↔
    ∀ j, s.node.getPauseClasses pg j = true → j = pg.2 ∨ s.node.pauseRemote (pg.1, j) = true := by
  rw [newFrames_afterPauses]
  constructor
  · intro h j hj
    have hflag := h (pg.1, ⟨pausetime dev, qlen j, j⟩)
      (List.mem_map.mpr ⟨j, List.mem_filter.mpr ⟨List.mem_finRange j, hj⟩, rfl⟩)
    rcases (afterPauses_flag _).mp hflag with hflag | ⟨heq, -⟩
    · exact Or.inr hflag
    · exact Or.inl (congrArg Prod.snd heq)
  · intro h frame hframe
    obtain ⟨j, hj, rfl⟩ := List.mem_map.mp hframe
    have hpaused := (List.mem_filter.mp hj).2
    rw [afterPauses_flag]
    rcases h j hpaused with rfl | hflag
    · exact Or.inr ⟨rfl, pg.2, hpaused⟩
    · exact Or.inl hflag

/-- After the first loop, a class other than the one of the call agrees with its flag. -/
theorem afterPauses_agrees_of_ne (hpause : 0 < pausetime dev) (hagree : s.Agrees)
    (hmarked : ∀ j, s.node.getPauseClasses pg j = true →
      j = pg.2 ∨ s.node.pauseRemote (pg.1, j) = true) {id : QueueId} (hid : id ≠ pg) :
    told (s.afterPauses pausetime dev pg qlen).sent id =
      (s.afterPauses pausetime dev pg qlen).node.pauseRemote id := by
  rw [Bool.eq_iff_iff, told_afterPauses hpause, afterPauses_flag, hagree id]
  constructor
  · rintro (hflag | ⟨hport, hpaused⟩)
    · exact Or.inl hflag
    · rcases hmarked id.2 hpaused with hclass | hflag
      · exact absurd (Prod.ext hport hclass) hid
      · rw [← hport] at hflag
        exact Or.inl hflag
  · rintro (hflag | ⟨heq, -⟩)
    · exact Or.inl hflag
    · exact absurd heq hid

/-- The rest of the two properties, for a call that resumes. -/
theorem check_resumes_iff (hpause : 0 < pausetime dev) (hagree : s.Agrees)
    (hmarked : ∀ j, s.node.getPauseClasses pg j = true →
      j = pg.2 ∨ s.node.pauseRemote (pg.1, j) = true)
    (hresumes : s.Resumes pg) :
    ((∀ id, (s.afterPauses pausetime dev pg qlen).node.pauseRemote id = true →
        (s.checkQueueFull pausetime dev pg qlen).node.pauseRemote id = false →
        ∃ frame ∈ newFrames (s.afterPauses pausetime dev pg qlen)
            (s.checkQueueFull pausetime dev pg qlen),
          frame.1 = id.1 ∧ frame.2.qIndex = id.2 ∧ frame.2.time = 0) ∧
      (s.checkQueueFull pausetime dev pg qlen).Agrees) ↔ pg.2 = 0 := by
  rw [checkQueueFull_resumes hresumes]
  have hflag : (s.afterPauses pausetime dev pg qlen).node.pauseRemote pg = true :=
    (resumes_iff_afterPauses.mp hresumes).1
  have hothers : ∀ id, id ≠ pg → told (s.afterPauses pausetime dev pg qlen).sent id =
      (s.afterPauses pausetime dev pg qlen).node.pauseRemote id :=
    fun id hid => afterPauses_agrees_of_ne hpause hagree hmarked hid
  generalize s.afterPauses pausetime dev pg qlen = middle at hflag hothers
  have hframes : newFrames middle (middle.send dev pg ⟨0, qlen 0, 0⟩ false none) =
      [(pg.1, ⟨0, qlen 0, 0⟩)] := List.drop_left
  have hcleared : (middle.send dev pg ⟨0, qlen 0, 0⟩ false none).node.pauseRemote pg = false :=
    Function.update_self _ _ _
  have hkept : ∀ id, id ≠ pg →
      (middle.send dev pg ⟨0, qlen 0, 0⟩ false none).node.pauseRemote id =
        middle.node.pauseRemote id :=
    fun id hid => Function.update_of_ne hid _ _
  rw [hframes]
  constructor
  · rintro ⟨hresumed, -⟩
    obtain ⟨frame, hframe, -, hclass, -⟩ := hresumed pg hflag hcleared
    rw [List.mem_singleton.mp hframe] at hclass
    exact hclass.symm
  · intro hzero
    have hpg : pg = (pg.1, 0) := Prod.ext rfl hzero
    constructor
    · intro id htrue hfalse
      by_cases hid : id = pg
      · subst hid
        exact ⟨_, List.mem_singleton.mpr rfl, rfl, hzero.symm, rfl⟩
      · rw [hkept id hid, htrue] at hfalse
        cases hfalse
    · intro id
      rw [told_send]
      dsimp only
      rw [← hpg]
      by_cases hid : id = pg
      · rw [if_pos hid, hid, hcleared]
        rfl
      · rw [if_neg hid, hkept id hid]
        exact hothers id hid

/-- A call that resumes nothing keeps the agreement if it raises its flag with a PAUSE. -/
theorem check_idle_iff (hpause : 0 < pausetime dev) (hagree : s.Agrees)
    (hmarked : ∀ j, s.node.getPauseClasses pg j = true →
      j = pg.2 ∨ s.node.pauseRemote (pg.1, j) = true) :
    (s.afterPauses pausetime dev pg qlen).Agrees ↔
      ((∃ j, s.node.getPauseClasses pg j = true) →
        s.node.getPauseClasses pg pg.2 = true ∨ s.node.pauseRemote pg = true) := by
  constructor
  · intro hnext hpaused
    have htold : told (s.afterPauses pausetime dev pg qlen).sent pg = true := by
      rw [hnext pg, afterPauses_flag]
      exact Or.inr ⟨rfl, hpaused⟩
    rcases (told_afterPauses hpause pg).mp htold with htold | ⟨-, hclass⟩
    · exact Or.inr ((hagree pg).symm.trans htold)
    · exact Or.inl hclass
  · intro hraised id
    by_cases hid : id = pg
    · subst hid
      rw [Bool.eq_iff_iff, told_afterPauses hpause, afterPauses_flag, hagree id]
      constructor
      · rintro (hflag | ⟨-, hclass⟩)
        · exact Or.inl hflag
        · exact Or.inr ⟨rfl, id.2, hclass⟩
      · rintro (hflag | ⟨-, hpaused⟩)
        · exact Or.inl hflag
        · exact (hraised hpaused).elim (fun hclass => Or.inr ⟨rfl, hclass⟩) Or.inl
    · exact afterPauses_agrees_of_ne hpause hagree hmarked hid

/-- One call, from a state in which flags and frames agree. -/
theorem check_iff (hpause : 0 < pausetime dev) (hagree : s.Agrees) :
    (FramesMatchFlags pausetime s (.check dev pg qlen) (s.checkQueueFull pausetime dev pg qlen) ∧
        (s.checkQueueFull pausetime dev pg qlen).Agrees) ↔
      s.FollowsFlags (.check dev pg qlen) := by
  unfold FramesMatchFlags FollowsFlags
  dsimp only
  rw [marked_iff, and_assoc]
  refine and_congr_right fun hmarked => ?_
  by_cases hresumes : s.Resumes pg
  · rw [check_resumes_iff hpause hagree hmarked hresumes]
    simp only [hresumes, not_true_eq_false, false_implies, true_and, true_implies]
  · rw [checkQueueFull_idle hresumes, check_idle_iff hpause hagree hmarked]
    simp only [hresumes, not_false_eq_true, true_implies, false_implies, and_true]
    refine and_iff_right fun id htrue hfalse => ?_
    rw [htrue] at hfalse
    cases hfalse

end Check

/-- In every run, frames and flags match at every call and the flags are what the neighbours
were last told, if and only if every call follows the flags. -/
theorem pause_flags_agree_iff (hpause : ∀ dev, 0 < pausetime dev) (t : Thresholds)
    (events : List Event) :
    EachStep (step pausetime)
        (fun s event next => FramesMatchFlags pausetime s event next ∧ next.Agrees)
        (start t) events ↔
      EachStep (step pausetime) (fun s event _ => s.FollowsFlags event) (start t) events := by
  have hiff : ∀ s event next, s.Agrees → step pausetime s event = some next →
      ((FramesMatchFlags pausetime s event next ∧ next.Agrees) ↔ s.FollowsFlags event) := by
    intro s event next hagree hstep
    cases event with
    | check dev pg qlen =>
        obtain rfl := Option.some.inj hstep
        exact check_iff (hpause dev) hagree
    | charge pg psize =>
        obtain rfl := Option.some.inj hstep
        exact iff_of_true ⟨trivial, hagree⟩ trivial
    | discharge pg psize =>
        obtain rfl := Option.some.inj hstep
        exact iff_of_true ⟨trivial, hagree⟩ trivial
  refine eachStep_iff_of_invariant (I := Agrees) hiff ?_ (fun _ => rfl) events
  intro s event next hagree hstep hfollows
  exact ((hiff s event next hagree hstep).mpr hfollows).2

instance (s : Pfc) (pg : QueueId) : Decidable (s.Resumes pg) :=
  inferInstanceAs (Decidable (_ ∧ _))

instance (s : Pfc) (event : Event) : Decidable (s.FollowsFlags event) :=
  match event with
  | .check _ _ _ => inferInstanceAs (Decidable (_ ∧ _ ∧ _))
  | .charge _ _ => .isTrue trivial
  | .discharge _ _ => .isTrue trivial

/-- With the default pause time of 5 microseconds, class 0 of port 0 fills beyond its limit, is
paused, and is resumed when it has drained. -/
def classZero : List Event :=
  [.charge (0, 0) 9000, .charge (0, 0) 9000, .charge (0, 0) 9000, .check 1 (0, 0) fun _ => 0,
    .discharge (0, 0) 9000, .check 1 (0, 0) fun _ => 0]

theorem pause_flags_agree_iff_classZero :
    EachStep (step fun _ => 5)
      (fun s event next => FramesMatchFlags (fun _ => 5) s event next ∧ next.Agrees)
      (start .default) classZero ∧
    (run (step fun _ => 5) (start .default) classZero).map (fun s =>
      s.sent.map fun frame => (frame.1, frame.2.qIndex, frame.2.time)) =
        some [(0, 0, 5), (0, 0, 0)] := by
  refine ⟨?_, by decide +kernel⟩
  exact (pause_flags_agree_iff (fun _ => 5) (fun _ => by decide) .default _).mpr
    (eachStep_of_take (by decide +kernel))

/-- Class 3 of port 0 fills beyond its limit, is paused, and drains below the resume limit. -/
def pauseThenDrain : List Event :=
  [.charge (0, 3) 9000, .charge (0, 3) 9000, .charge (0, 3) 9000, .check 1 (0, 3) fun _ => 0,
    .discharge (0, 3) 9000, .check 1 (0, 3) fun _ => 0]

/-- The RESUME of the second check names class 0, so the neighbour still pauses class 3. -/
theorem pauseThenDrain_disagrees :
    ¬ EachStep (step fun _ => 5)
      (fun s event next => FramesMatchFlags (fun _ => 5) s event next ∧ next.Agrees)
      (start .default) pauseThenDrain := by
  intro h
  have hlast := (h (pauseThenDrain.take 5) _ [] _ _ rfl rfl rfl).2 (0, 3)
  revert hlast
  decide

end Pfc

end Ns3Rdma
