import Ns3Rdma.Lib.Circular
import Ns3Rdma.Lib.StepSystem
import Ns3Rdma.Wifi.RetryPackets

/-! # The scoreboard of a recipient

`BlockAckCache` has a slot for each number of twelve bits, of which the ones inside a window that
moves forward count. The numbers are calculated modulo 4096. `none` stands for a failed
assertion. -/

namespace Ns3Rdma.Wifi

open StepSystem

def qosUtilsIsOldPacket (startingSeq seqNumber : Fin 4096) : Bool :=
  2048 ≤ (seqNumber - startingSeq).val

namespace CtrlBAckResponseHeader

variable (b : CtrlBAckResponseHeader)

def setReceivedPacket (seq : UInt16) : Option CtrlBAckResponseHeader :=
  if !b.isInBitmap seq then some b
  else if b.multiTid then none
  else
    (b.indexInBitmap seq).map fun index =>
      if b.compressed then
        { b with compressedBitmap := b.compressedBitmap ||| (1 : UInt64) <<< index.toUInt64 }
      else
        { b with
          bitmap := b.bitmap.setIfInBounds index.toNat
            (b.bitmap.toArray.getD index.toNat 0 ||| 1) }

end CtrlBAckResponseHeader

structure BlockAckCache where
  winStart : Fin 4096
  winSize : UInt8
  winEnd : Fin 4096
  bitmap : Fin 4096 → UInt16

namespace BlockAckCache

/-- The last number of a window. -/
def windowEnd (winStart : Fin 4096) (winSize : UInt8) : Fin 4096 :=
  winStart + Fin.ofNat 4096 winSize.toNat - 1

def init (winStart : Fin 4096) (winSize : UInt16) : BlockAckCache :=
  let winSize := (if winSize ≤ 64 then winSize else 64).toUInt8
  ⟨winStart, winSize, windowEnd winStart winSize, fun _ => 0⟩

variable (c : BlockAckCache)

/-- `WINSIZE_ASSERT`. -/
def assertWinSize : Option BlockAckCache :=
  if (c.winEnd - c.winStart).val + 1 = c.winSize.toNat then some c else none

def isInWindow (seq : Fin 4096) : Bool := (seq - c.winStart).val < c.winSize.toNat

/-- The loop of `ResetPortionOfBitmap`. -/
def resetLoop (stop : Fin 4096) : ℕ → Fin 4096 → (Fin 4096 → UInt16) → Option (Fin 4096 → UInt16)
  | 0, _, _ => none
  | fuel + 1, i, bitmap =>
      if i ≠ stop then resetLoop stop fuel (i + 1) (Function.update bitmap i 0)
      else some (Function.update bitmap i 0)

/-- There are 4096 slots. -/
def resetPortionOfBitmap (start stop : Fin 4096) : Option BlockAckCache :=
  (resetLoop stop 4096 start c.bitmap).map fun bitmap => { c with bitmap := bitmap }

def setBit (seqNumber : Fin 4096) (fragment : UInt8) : BlockAckCache :=
  { c with
    bitmap := Function.update c.bitmap seqNumber
      (c.bitmap seqNumber ||| 1 <<< fragment.toUInt16) }

def updateWithMpdu (seqNumber : Fin 4096) (fragment : UInt8) : Option BlockAckCache :=
  if qosUtilsIsOldPacket c.winStart seqNumber then some c
  else if c.isInWindow seqNumber then some (c.setBit seqNumber fragment)
  else
    let delta := seqNumber - c.winEnd
    (if 1 < delta.val then c.resetPortionOfBitmap (c.winEnd + 1) (seqNumber - 1)
      else some c).bind fun c =>
        (({ c with winStart := c.winStart + delta, winEnd := seqNumber } :
          BlockAckCache).assertWinSize).map fun c => c.setBit seqNumber fragment

def updateWithBlockAckReq (startingSeq : Fin 4096) : Option BlockAckCache :=
  if qosUtilsIsOldPacket c.winStart startingSeq then some c
  else
    let newWinEnd := windowEnd startingSeq c.winSize
    if c.isInWindow startingSeq then
      if startingSeq ≠ c.winStart then
        (c.resetPortionOfBitmap (c.winEnd + 1) newWinEnd).bind fun c =>
          ({ c with winStart := startingSeq, winEnd := newWinEnd } : BlockAckCache).assertWinSize
      else some c
    else
      (c.resetPortionOfBitmap startingSeq newWinEnd).bind fun c =>
        ({ c with winStart := startingSeq, winEnd := newWinEnd } : BlockAckCache).assertWinSize

/-- The loop of `FillBlockAckBitmap`. -/
def fillLoop (stop : Fin 4096) : ℕ → Fin 4096 → CtrlBAckResponseHeader →
    Option CtrlBAckResponseHeader
  | 0, _, _ => none
  | fuel + 1, i, b =>
      (if c.bitmap i = 1 then b.setReceivedPacket (.ofNat i.val) else some b).bind fun b =>
        if i ≠ stop then fillLoop stop fuel (i + 1) b else some b

/-- A basic block ack is not implemented, and neither is one for several TIDs. -/
def fillBlockAckBitmap (b : CtrlBAckResponseHeader) : Option CtrlBAckResponseHeader :=
  if b.multiTid || !b.compressed then none
  else
    let start := Fin.ofNat 4096 b.startingSeq.toNat
    c.fillLoop (windowEnd start c.winSize) 4096 start b

/-! ## Runs -/

/-- An MPDU that is not fragmented, or a block ack request. -/
inductive ScoreboardEvent where
  | mpdu (seqNumber : Fin 4096)
  | blockAckReq (startingSeq : Fin 4096)
deriving DecidableEq

def step : ScoreboardEvent → Option BlockAckCache
  | .mpdu seqNumber => c.updateWithMpdu seqNumber 0
  | .blockAckReq startingSeq => c.updateWithBlockAckReq startingSeq

/-- The number was received, and has been inside the window since then. -/
def Received (start : BlockAckCache) (events : List ScoreboardEvent) (seq : Fin 4096) : Prop :=
  ∃ before after, events = before ++ .mpdu seq :: after ∧ ∀ done, done <+: after →
    ∃ c, run step start (before ++ .mpdu seq :: done) = some c ∧ c.isInWindow seq

/-! ## The slots -/

variable {c}

/-- The slots from `start` to `stop` are reset, and no other ones. -/
theorem resetLoop_eq {stop : Fin 4096} {fuel : ℕ} {i : Fin 4096} (bitmap : Fin 4096 → UInt16)
    (hfuel : (stop - i).val < fuel) :
    resetLoop stop fuel i bitmap =
      some fun j => if (j - i).val ≤ (stop - i).val then 0 else bitmap j := by
  induction fuel generalizing i bitmap with
  | zero => exact absurd hfuel (Nat.not_lt_zero _)
  | succ fuel ih =>
      have hone : ((1 : Fin 4096)).val = 1 := rfl
      unfold resetLoop
      split
      · next hne =>
        have hvalue : i.val ≠ stop.val := fun h => hne (Fin.ext h)
        have hnext : (stop - (i + 1)).val + 1 = (stop - i).val := by
          rw [Fin.val_sub, Fin.val_sub, Fin.val_add, hone]
          omega
        rw [ih _ (by omega)]
        congr 1
        funext j
        by_cases hj : j = i
        · rw [hj, Function.update_self, Fin.sub_self]
          simp
        · rw [Function.update_of_ne hj]
          have hvalue : j.val ≠ i.val := fun h => hj (Fin.ext h)
          have hprev : (j - (i + 1)).val + 1 = (j - i).val := by
            rw [Fin.val_sub, Fin.val_sub, Fin.val_add, hone]
            omega
          refine if_congr ?_ rfl rfl
          omega
      · next heq =>
        obtain rfl : i = stop := not_ne_iff.mp heq
        congr 1
        funext j
        rw [Fin.sub_self]
        by_cases hj : j = i
        · rw [hj, Function.update_self, Fin.sub_self]
          rfl
        · rw [Function.update_of_ne hj, if_neg]
          intro hle
          have hzero : (j - i).val = 0 := Nat.le_zero.mp hle
          rw [Fin.val_sub] at hzero
          exact hj (Fin.ext (by omega))

theorem resetPortionOfBitmap_eq (start stop : Fin 4096) :
    c.resetPortionOfBitmap start stop = some { c with
      bitmap := fun j => if (j - start).val ≤ (stop - start).val then 0 else c.bitmap j } := by
  unfold resetPortionOfBitmap
  rw [resetLoop_eq _ (stop - start).isLt]
  rfl

/-- The window has its size, and a slot says nothing but whether a packet was received. -/
structure Sound (c : BlockAckCache) : Prop where
  size : (c.winEnd - c.winStart).val + 1 = c.winSize.toNat
  winSize_le : c.winSize.toNat ≤ 64
  slot : ∀ i, c.bitmap i = 0 ∨ c.bitmap i = 1

theorem isInWindow_iff {seq : Fin 4096} :
    c.isInWindow seq = true ↔ (seq - c.winStart).val < c.winSize.toNat := decide_eq_true_iff

theorem windowEnd_sub_of_lt {w start : Fin 4096} {winSize : UInt8} (hpos : 0 < winSize.toNat)
    (hle : winSize.toNat ≤ 64) (hstart : (start - w).val < 64) :
    (windowEnd start winSize - w).val = (start - w).val + winSize.toNat - 1 := by
  have hsize : (Fin.ofNat 4096 winSize.toNat).val = winSize.toNat :=
    Nat.mod_eq_of_lt (Nat.lt_of_le_of_lt hle (by decide))
  have hadd : (start + Fin.ofNat 4096 winSize.toNat - w).val =
      (start - w).val + winSize.toNat := by
    rw [Circular.val_add_sub, hsize]
    rw [hsize]
    exact lt_of_lt_of_le (Nat.add_lt_add_of_lt_of_le hstart hle) (by decide)
  unfold windowEnd
  rw [Circular.val_sub_sub, hadd]
  · rfl
  · rw [hadd]
    exact Nat.le_add_left_of_le hpos

theorem windowEnd_sub (start : Fin 4096) {winSize : UInt8} (hpos : 0 < winSize.toNat)
    (hle : winSize.toNat ≤ 64) : (windowEnd start winSize - start).val + 1 = winSize.toNat := by
  have hself := Circular.val_sub_self start
  rw [windowEnd_sub_of_lt hpos hle (hself ▸ by decide), hself, Nat.zero_add]
  exact Nat.sub_add_cancel hpos

theorem assertWinSize_eq (hsize : (c.winEnd - c.winStart).val + 1 = c.winSize.toNat) :
    c.assertWinSize = some c := if_pos hsize

/-- What a step does to the window and its slots. -/
structure StepSpec (c : BlockAckCache) (event : ScoreboardEvent) (next : BlockAckCache) : Prop where
  sound : next.Sound
  winSize : next.winSize = c.winSize
  slot : ∀ seq, next.isInWindow seq → (next.bitmap seq = 1 ↔
    event = .mpdu seq ∨ c.isInWindow seq ∧ c.bitmap seq = 1)

/-- A bit is set in a slot that was inside the window, or was not reset. -/
theorem slot_setBit {slot : UInt16} (h : slot = 0 ∨ slot = 1) :
    slot ||| 1 <<< (0 : UInt8).toUInt16 = 1 := by
  rcases h with rfl | rfl <;> decide

theorem Sound.setBit (h : c.Sound) (seq : Fin 4096) : (c.setBit seq 0).Sound := by
  refine ⟨h.size, h.winSize_le, fun i => ?_⟩
  unfold BlockAckCache.setBit
  dsimp only
  by_cases hi : i = seq
  · rw [hi, Function.update_self, slot_setBit (h.slot seq)]
    exact Or.inr rfl
  · rw [Function.update_of_ne hi]
    exact h.slot i

/-- An MPDU is received after the window was moved as far as needed. -/
theorem StepSpec.mpdu {moved : BlockAckCache} {seq : Fin 4096} (hmoved : moved.Sound)
    (hsize : moved.winSize = c.winSize)
    (hslot : ∀ s, moved.isInWindow s → s ≠ seq →
      (moved.bitmap s = 1 ↔ c.isInWindow s ∧ c.bitmap s = 1)) :
    StepSpec c (.mpdu seq) (moved.setBit seq 0) := by
  refine ⟨hmoved.setBit seq, hsize, fun s hs => ?_⟩
  by_cases hseq : s = seq
  · subst hseq
    refine iff_of_true ?_ (Or.inl rfl)
    unfold setBit
    dsimp only
    rw [Function.update_self]
    exact slot_setBit (hmoved.slot s)
  · have hne : ScoreboardEvent.mpdu seq ≠ .mpdu s := fun h => hseq (ScoreboardEvent.mpdu.inj h).symm
    unfold setBit
    dsimp only
    rw [Function.update_of_ne hseq, or_iff_right hne]
    exact hslot s hs hseq

theorem Sound.reset (h : c.Sound) (p : Fin 4096 → Prop) [DecidablePred p] {start stop : Fin 4096}
    (hsize : (stop - start).val + 1 = c.winSize.toNat) :
    Sound { c with
      winStart := start, winEnd := stop, bitmap := fun j => if p j then 0 else c.bitmap j } := by
  refine ⟨hsize, h.winSize_le, fun i => ?_⟩
  dsimp only
  split
  · exact Or.inl rfl
  · exact h.slot i

/-- The distances when an MPDU moves the window: `e` of its end, `q` of the MPDU, `s` of a slot. What
the new window has more than the old one is reset. -/
theorem mpdu_distances {e q s size : ℕ} (hsize : e + 1 = size) (hout : ¬ q < size) (hq : q < 2048)
    (hs : s < 4096) (hne : s ≠ q) (hle : size ≤ 64)
    (hin : (if q - e ≤ s then s - (q - e) else 4096 + s - (q - e)) < size) :
    (1 < q - e ∧ (if e + 1 ≤ s then s - (e + 1) else 4096 + s - (e + 1)) ≤
      if e + 1 ≤ q - 1 then q - 1 - (e + 1) else 4096 + (q - 1) - (e + 1)) ↔ ¬ s < size := by
  split_ifs at hin ⊢ <;> omega

/-- The distances when a request moves the window within the old one. -/
theorem request_distances {e q s size : ℕ} (hsize : e + 1 = size) (hin : q < size) (hq : q ≠ 0)
    (hs : s < 4096) (hle : size ≤ 64)
    (hnew : (if q ≤ s then s - q else 4096 + s - q) < size) :
    ((if e + 1 ≤ s then s - (e + 1) else 4096 + s - (e + 1)) ≤
      if e + 1 ≤ q + size - 1 then q + size - 1 - (e + 1) else 4096 + (q + size - 1) - (e + 1)) ↔
        ¬ s < size := by
  split_ifs at hnew ⊢ <;> omega

/-- The distances when a request moves the window behind the old one. -/
theorem left_distances {q s size : ℕ} (hout : ¬ q < size) (hq : q < 2048) (hle : size ≤ 64)
    (hin : (if q ≤ s then s - q else 4096 + s - q) < size) : ¬ s < size := by
  split_ifs at hin <;> omega

theorem updateWithMpdu_spec (h : c.Sound) (seq : Fin 4096) :
    ∃ next, c.updateWithMpdu seq 0 = some next ∧ StepSpec c (.mpdu seq) next := by
  have hsize := h.size
  have hle := h.winSize_le
  have hone : ((1 : Fin 4096)).val = 1 := rfl
  unfold updateWithMpdu
  split
  · next hold =>
    -- An old packet is not inside the window.
    refine ⟨c, rfl, h, rfl, fun s hs => ?_⟩
    have hold := of_decide_eq_true hold
    rw [isInWindow_iff] at hs
    have hne : ScoreboardEvent.mpdu seq ≠ .mpdu s := by
      intro heq
      rw [ScoreboardEvent.mpdu.inj heq] at hold
      omega
    rw [or_iff_right hne, isInWindow_iff, and_iff_right hs]
  · next hold =>
    have hnew := of_decide_eq_false (Bool.not_eq_true _ ▸ hold)
    split
    · next hin => exact ⟨_, rfl, .mpdu h rfl fun s hs _ => (and_iff_right hs).symm⟩
    · next hout =>
      rw [isInWindow_iff] at hout
      have hmove : (if 1 < (seq - c.winEnd).val then
          c.resetPortionOfBitmap (c.winEnd + 1) (seq - 1) else some c) =
            some { c with
              bitmap := fun j => if 1 < (seq - c.winEnd).val ∧
                (j - (c.winEnd + 1)).val ≤ (seq - 1 - (c.winEnd + 1)).val then 0
                  else c.bitmap j } := by
        split
        · next hdelta =>
          rw [resetPortionOfBitmap_eq]
          simp only [hdelta, true_and]
        · next hdelta => simp only [hdelta, false_and, if_false]
      have hlt : (c.winEnd - c.winStart).val < (seq - c.winStart).val :=
        Nat.lt_of_succ_le (hsize.trans_le (Nat.le_of_not_lt hout))
      have hseqEnd : (seq - c.winEnd).val =
          (seq - c.winStart).val - (c.winEnd - c.winStart).val := by
        rw [Circular.val_sub_eq c.winStart, if_pos (Nat.le_of_lt hlt)]
      have hstart : (c.winStart + (seq - c.winEnd) - c.winStart).val = (seq - c.winEnd).val := by
        rw [Circular.sub_add_sub_cancel]
      have hwindow : (seq - (c.winStart + (seq - c.winEnd))).val + 1 = c.winSize.toNat := by
        rw [Circular.val_sub_eq c.winStart, hstart, hseqEnd, if_pos (Nat.sub_le _ _),
          Nat.sub_sub_self (Nat.le_of_lt hlt)]
        exact hsize
      dsimp only
      rw [hmove, Option.bind_some, assertWinSize_eq hwindow, Option.map_some]
      refine ⟨_, rfl, .mpdu (h.reset _ hwindow) rfl fun s hs hne => ?_⟩
      rw [isInWindow_iff] at hs
      dsimp only at hs ⊢
      -- What the new window has more than the old one was reset.
      have hnext : (c.winEnd + 1 - c.winStart).val = (c.winEnd - c.winStart).val + 1 :=
        Circular.val_add_sub (Nat.lt_of_le_of_lt (hsize ▸ hle) (by decide))
      have hprev : (seq - 1 - c.winStart).val = (seq - c.winStart).val - 1 :=
        Circular.val_sub_sub (Nat.succ_le_of_lt (Nat.zero_lt_of_lt hlt))
      have hreset : (1 < (seq - c.winEnd).val ∧
          (s - (c.winEnd + 1)).val ≤ (seq - 1 - (c.winEnd + 1)).val) ↔ ¬ c.isInWindow s := by
        rw [Circular.val_sub_eq c.winStart, hstart, hseqEnd] at hs
        rw [isInWindow_iff, Circular.val_sub_eq c.winStart s,
          Circular.val_sub_eq c.winStart (seq - 1), hnext, hprev, hseqEnd]
        exact mpdu_distances hsize hout (Nat.lt_of_not_le hnew) (s - c.winStart).isLt
          (fun heq => hne (Circular.eq_of_val_sub_eq heq)) hle hs
      split
      · next hmore => exact iff_of_false (by decide) fun hand => hreset.mp hmore hand.1
      · next hkept => rw [and_iff_right (not_not.mp fun hnot => hkept (hreset.mpr hnot))]

theorem updateWithBlockAckReq_spec (h : c.Sound) (seq : Fin 4096) :
    ∃ next, c.updateWithBlockAckReq seq = some next ∧ StepSpec c (.blockAckReq seq) next := by
  have hsize := h.size
  have hle := h.winSize_le
  have hone : ((1 : Fin 4096)).val = 1 := rfl
  have hpos : 0 < c.winSize.toNat := hsize ▸ Nat.succ_pos _
  have hwindow := windowEnd_sub seq hpos hle
  have hnot : ∀ s, ScoreboardEvent.blockAckReq seq ≠ .mpdu s := fun _ heq => nomatch heq
  unfold updateWithBlockAckReq
  split
  · next hold =>
    exact ⟨c, rfl, h, rfl, fun s hs => by rw [or_iff_right (hnot s), and_iff_right hs]⟩
  · next hold =>
    have hnew := of_decide_eq_false (Bool.not_eq_true _ ▸ hold)
    dsimp only
    split
    · next hin =>
      split
      · next hne =>
        rw [resetPortionOfBitmap_eq, Option.bind_some, assertWinSize_eq hwindow]
        refine ⟨_, rfl, h.reset _ hwindow, rfl, fun s hs => ?_⟩
        rw [isInWindow_iff] at hs
        dsimp only at hs ⊢
        rw [isInWindow_iff] at hin
        have hnext : (c.winEnd + 1 - c.winStart).val = (c.winEnd - c.winStart).val + 1 :=
          Circular.val_add_sub (Nat.lt_of_le_of_lt (hsize ▸ hle) (by decide))
        have hend : (windowEnd seq c.winSize - c.winStart).val =
            (seq - c.winStart).val + c.winSize.toNat - 1 :=
          windowEnd_sub_of_lt hpos hle (lt_of_lt_of_le hin hle)
        have hreset : (s - (c.winEnd + 1)).val ≤
            (windowEnd seq c.winSize - (c.winEnd + 1)).val ↔ ¬ c.isInWindow s := by
          rw [Circular.val_sub_eq c.winStart] at hs
          rw [isInWindow_iff, Circular.val_sub_eq c.winStart s,
            Circular.val_sub_eq c.winStart (windowEnd _ _), hnext, hend]
          exact request_distances hsize hin
            (fun heq => hne (Circular.eq_of_val_sub_eq
              (heq.trans (Circular.val_sub_self _).symm))) (s - c.winStart).isLt hle hs
        rw [or_iff_right (hnot s)]
        split
        · next hmore => exact iff_of_false (by decide) fun hand => hreset.mp hmore hand.1
        · next hkept => rw [and_iff_right (not_not.mp fun hnot => hkept (hreset.mpr hnot))]
      · exact ⟨c, rfl, h, rfl, fun s hs => by rw [or_iff_right (hnot s), and_iff_right hs]⟩
    · next hout =>
      rw [resetPortionOfBitmap_eq, Option.bind_some, assertWinSize_eq hwindow]
      refine ⟨_, rfl, h.reset _ hwindow, rfl, fun s hs => ?_⟩
      rw [isInWindow_iff] at hs
      dsimp only at hs ⊢
      -- The new window begins behind the old one.
      have hleft : ¬ c.isInWindow s := by
        rw [isInWindow_iff] at hout ⊢
        rw [Circular.val_sub_eq c.winStart] at hs
        exact left_distances hout (Nat.lt_of_not_le hnew) hle hs
      rw [if_pos (Nat.le_of_lt_succ (lt_of_lt_of_eq hs hwindow.symm))]
      exact iff_of_false (by decide) fun hor =>
        hor.elim (hnot s) fun hand => hleft hand.1

theorem step_spec (h : c.Sound) (event : ScoreboardEvent) :
    ∃ next, c.step event = some next ∧ StepSpec c event next := by
  cases event with
  | mpdu seq => exact updateWithMpdu_spec h seq
  | blockAckReq seq => exact updateWithBlockAckReq_spec h seq

/-! ## Runs -/

theorem received_append {start next : BlockAckCache} {events : List ScoreboardEvent}
    {event : ScoreboardEvent} {seq : Fin 4096}
    (hrun : run step start events = some c)
    (hnext : run step start (events ++ [event]) = some next)
    (hin : next.isInWindow seq) :
    Received start (events ++ [event]) seq ↔
      event = .mpdu seq ∨ c.isInWindow seq ∧ Received start events seq := by
  constructor
  · rintro ⟨before, after, hevents, hsince⟩
    rcases List.eq_nil_or_concat after with rfl | ⟨after, last, rfl⟩
    · left
      exact (List.append_inj_right' hevents rfl |> List.cons.inj).1
    · right
      rw [List.concat_eq_append, ← List.cons_append, ← List.append_assoc] at hevents
      obtain ⟨hevents, -⟩ := List.append_inj' hevents rfl
      have hkept : ∀ done, done <+: after → ∃ c,
          run step start (before ++ .mpdu seq :: done) = some c ∧ c.isInWindow seq := by
        intro done hdone
        refine hsince done (hdone.trans ?_)
        rw [List.concat_eq_append]
        exact List.prefix_append _ _
      obtain ⟨c', hc', hinside⟩ := hkept after (List.prefix_refl _)
      rw [← hevents, hrun] at hc'
      obtain rfl := Option.some.inj hc'
      exact ⟨hinside, before, after, hevents, hkept⟩
  · rintro (rfl | ⟨-, before, after, rfl, hsince⟩)
    · refine ⟨events, [], rfl, fun done hdone => ⟨next, ?_, hin⟩⟩
      rw [List.prefix_nil.mp hdone]
      exact hnext
    · refine ⟨before, after ++ [event], by rw [List.append_assoc]; rfl, fun done hdone => ?_⟩
      rcases List.prefix_concat_iff.mp hdone with rfl | hdone
      · refine ⟨next, ?_, hin⟩
        rw [← hnext, List.append_assoc]
        rfl
      · exact hsince done hdone

theorem init_sound (winStart : Fin 4096) {winSize : UInt16} (hpos : 0 < winSize)
    (hle : winSize ≤ 64) :
    (init winStart winSize).Sound ∧ (init winStart winSize).winSize = winSize.toUInt8 := by
  have hsize : (init winStart winSize).winSize = winSize.toUInt8 := by
    unfold init
    rw [if_pos hle]
  have hpos' : 0 < winSize.toNat := hpos
  have hle' : winSize.toNat ≤ 64 := hle
  have hnat : (init winStart winSize).winSize.toNat = winSize.toNat := by
    rw [hsize, UInt16.toNat_toUInt8]
    exact Nat.mod_eq_of_lt (Nat.lt_of_le_of_lt hle' (by decide))
  refine ⟨⟨windowEnd_sub winStart (hnat ▸ hpos') (hnat ▸ hle'), hnat ▸ hle', fun _ => Or.inl rfl⟩,
    hsize⟩

/-- In every run the slots inside the window say what was received. -/
theorem run_spec {start : BlockAckCache} (h : start.Sound) (hempty : ∀ seq, start.bitmap seq = 0)
    (events : List ScoreboardEvent) :
    ∃ c, run step start events = some c ∧ c.Sound ∧ c.winSize = start.winSize ∧
      ∀ seq, c.isInWindow seq → (c.bitmap seq = 1 ↔ Received start events seq) := by
  induction events using List.reverseRecOn with
  | nil =>
      refine ⟨start, rfl, h, rfl, fun seq _ => ?_⟩
      rw [hempty]
      refine iff_of_false (by decide) ?_
      rintro ⟨before, after, hnil, -⟩
      exact absurd hnil.symm (List.append_ne_nil_of_right_ne_nil _ (List.cons_ne_nil _ _))
  | append_singleton events event ih =>
      obtain ⟨c, hrun, hsound, hsize, hslot⟩ := ih
      obtain ⟨next, hstep, hspec⟩ := step_spec hsound event
      have hnext : run step start (events ++ [event]) = some next := by
        rw [run_append, hrun, Option.bind_some, run_cons, hstep]
        rfl
      refine ⟨next, hnext, hspec.sound, hspec.winSize.trans hsize, fun seq hin => ?_⟩
      rw [hspec.slot seq hin, received_append hrun hnext hin]
      exact or_congr_right (and_congr_right fun hinside => hslot seq hinside)

end BlockAckCache

/-! ## The compressed bitmap -/

namespace CtrlBAckResponseHeader

variable {b : CtrlBAckResponseHeader} {start seq : Fin 4096}

/-- The bit at a distance from the starting sequence. -/
def bit (b : CtrlBAckResponseHeader) (k : ℕ) : Bool := b.compressedBitmap.toNat.testBit k

theorem toNat_number (seq : Fin 4096) : (UInt16.ofNat seq.val).toNat = seq.val :=
  UInt16.toNat_ofNat_of_lt' (lt_trans seq.isLt (by decide))

theorem isInBitmap_eq (hstart : b.startingSeq = .ofNat start.val) :
    b.isInBitmap (.ofNat seq.val) = decide ((seq - start).val < 64) := by
  have hs := seq.isLt
  have hb := start.isLt
  unfold isInBitmap
  rw [hstart, toNat_number, toNat_number, Circular.val_sub,
    Int.tmod_eq_emod_of_nonneg (by omega)]
  refine decide_eq_decide.mpr ?_
  split <;> omega

theorem indexInBitmap_eq (hstart : b.startingSeq = .ofNat start.val)
    (hin : (seq - start).val < 64) :
    b.indexInBitmap (.ofNat seq.val) = some (.ofNat (seq - start).val) := by
  have hs := seq.isLt
  have hb := start.isLt
  have hindex : (if UInt16.ofNat start.val ≤ .ofNat seq.val then
      (UInt16.ofNat seq.val - .ofNat start.val).toUInt8
        else (4096 - UInt16.ofNat start.val + .ofNat seq.val).toUInt8) =
          .ofNat (seq - start).val := by
    apply UInt8.toNat_inj.mp
    rw [UInt8.toNat_ofNat_of_lt' (lt_trans hin (by decide))]
    rw [Circular.val_sub] at hin ⊢
    split
    · next hle =>
      rw [UInt16.toNat_toUInt8, UInt16.toNat_sub_of_le _ _ hle, toNat_number, toNat_number]
      rw [UInt16.le_iff_toNat_le, toNat_number, toNat_number] at hle
      rw [if_pos hle] at hin ⊢
      omega
    · next hlt =>
      rw [UInt16.le_iff_toNat_le, toNat_number, toNat_number] at hlt
      have hdiff : (4096 - UInt16.ofNat start.val).toNat = 4096 - start.val := by
        rw [UInt16.toNat_sub_of_le, toNat_number]
        · rfl
        · rw [UInt16.le_iff_toNat_le, toNat_number]
          exact Nat.le_of_lt hb
      rw [UInt16.toNat_toUInt8, UInt16.toNat_add, hdiff, toNat_number]
      rw [if_neg hlt] at hin ⊢
      omega
  unfold indexInBitmap
  rw [hstart, hindex]
  refine if_pos ?_
  rw [UInt8.le_iff_toNat_le, UInt8.toNat_ofNat_of_lt' (lt_trans hin (by decide))]
  exact Nat.le_of_lt_succ hin

theorem shift_toNat {k : ℕ} (hk : k < 64) : (UInt8.ofNat k).toUInt64.toNat % 64 = k := by
  rw [UInt8.toNat_toUInt64, UInt8.toNat_ofNat_of_lt' (lt_trans hk (by decide))]
  exact Nat.mod_eq_of_lt hk

theorem isPacketReceived_eq (hmulti : b.multiTid = false) (hcompressed : b.compressed = true)
    (hstart : b.startingSeq = .ofNat start.val) :
    b.isPacketReceived (.ofNat seq.val) =
      some (decide ((seq - start).val < 64) && b.bit (seq - start).val) := by
  unfold isPacketReceived
  rw [isInBitmap_eq hstart, hmulti, hcompressed]
  by_cases hin : (seq - start).val < 64
  · unfold compressedBit bit
    rw [indexInBitmap_eq hstart hin, Option.map_some, decide_eq_true hin,
      Nat.testBit_eq_decide_div_mod_eq]
    refine congrArg some ?_
    rw [Bool.true_and, beq_eq_decide]
    refine decide_eq_decide.mpr ?_
    rw [← UInt64.toNat_inj, UInt64.toNat_and, UInt64.toNat_shiftRight, shift_toNat hin,
      Nat.shiftRight_eq_div_pow]
    change _ &&& 1 = 1 ↔ _
    rw [Nat.and_one_is_mod]
  · rw [decide_eq_false hin]
    rfl

/-- What a call of `SetReceivedPacket` keeps. -/
structure SameBlockAck (b b' : CtrlBAckResponseHeader) : Prop where
  multiTid : b'.multiTid = b.multiTid
  compressed : b'.compressed = b.compressed
  startingSeq : b'.startingSeq = b.startingSeq

theorem setReceivedPacket_spec (hmulti : b.multiTid = false) (hcompressed : b.compressed = true)
    (hstart : b.startingSeq = .ofNat start.val) (hin : (seq - start).val < 64) :
    ∃ b', b.setReceivedPacket (.ofNat seq.val) = some b' ∧ SameBlockAck b b' ∧
      ∀ k < 64, b'.bit k = (b.bit k || decide (k = (seq - start).val)) := by
  unfold setReceivedPacket
  rw [isInBitmap_eq hstart, decide_eq_true hin, hmulti, hcompressed, indexInBitmap_eq hstart hin]
  refine ⟨_, rfl, ⟨hmulti.symm, hcompressed.symm, rfl⟩, fun k hk => ?_⟩
  unfold bit
  dsimp only
  rw [if_pos rfl, UInt64.toNat_or, UInt64.toNat_shiftLeft, shift_toNat hin, Nat.testBit_or,
    Nat.testBit_mod_two_pow]
  change (_ || decide (k < 64) && (1 <<< (seq - start).val).testBit k) = _
  rw [Nat.one_shiftLeft, Nat.testBit_two_pow, decide_eq_true hk, Bool.true_and]
  refine congrArg _ (decide_eq_decide.mpr eq_comm)

end CtrlBAckResponseHeader

namespace BlockAckCache

open CtrlBAckResponseHeader

variable {c : BlockAckCache} {b : CtrlBAckResponseHeader} {start stop : Fin 4096}

/-- The loop sets the bits from `i` to `stop` whose slots say so. -/
theorem fillLoop_spec (hmulti : b.multiTid = false) (hcompressed : b.compressed = true)
    (hstart : b.startingSeq = .ofNat start.val) (hstop : (stop - start).val < 64) {fuel : ℕ}
    {i : Fin 4096} (hi : (i - start).val ≤ (stop - start).val)
    (hfuel : (stop - start).val < (i - start).val + fuel) :
    ∃ filled, c.fillLoop stop fuel i b = some filled ∧ SameBlockAck b filled ∧
      ∀ seq : Fin 4096, (seq - start).val < 64 → (filled.bit (seq - start).val = true ↔
        b.bit (seq - start).val = true ∨ (i - start).val ≤ (seq - start).val ∧
          (seq - start).val ≤ (stop - start).val ∧ c.bitmap seq = 1) := by
  induction fuel generalizing i b with
  | zero => exact absurd (lt_of_lt_of_le hfuel hi) (Nat.lt_irrefl _)
  | succ fuel ih =>
      -- The slot `i`.
      obtain ⟨b', hb', hsame, hbit⟩ : ∃ b', (if c.bitmap i = 1 then
          b.setReceivedPacket (.ofNat i.val) else some b) = some b' ∧ SameBlockAck b b' ∧
            ∀ seq : Fin 4096, (seq - start).val < 64 → (b'.bit (seq - start).val = true ↔
              b.bit (seq - start).val = true ∨ seq = i ∧ c.bitmap seq = 1) := by
        by_cases hslot : c.bitmap i = 1
        · obtain ⟨b', hb', hsame, hbit⟩ :=
            setReceivedPacket_spec hmulti hcompressed hstart (lt_of_le_of_lt hi hstop)
          refine ⟨b', by rw [if_pos hslot, hb'], hsame, fun seq hseq => ?_⟩
          rw [hbit _ hseq, Bool.or_eq_true, decide_eq_true_iff]
          refine or_congr_right ⟨fun heq => ?_, fun heq => by rw [heq.1]⟩
          obtain rfl := Circular.eq_of_val_sub_eq heq
          exact ⟨rfl, hslot⟩
        · refine ⟨b, if_neg hslot, ⟨rfl, rfl, rfl⟩, fun seq _ => ?_⟩
          rw [or_iff_left]
          rintro ⟨rfl, hset⟩
          exact hslot hset
      unfold fillLoop
      rw [hb', Option.bind_some]
      by_cases hne : i = stop
      · subst hne
        refine ⟨b', if_neg (not_not.mpr rfl), hsame, fun seq hseq => ?_⟩
        rw [hbit seq hseq]
        refine or_congr_right ⟨?_, ?_⟩
        · rintro ⟨rfl, hset⟩
          exact ⟨Nat.le_refl _, Nat.le_refl _, hset⟩
        · rintro ⟨hle, hge, hset⟩
          exact ⟨Circular.eq_of_val_sub_eq (Nat.le_antisymm hge hle), hset⟩
      · have hlt := lt_of_le_of_ne hi fun heq => hne (Circular.eq_of_val_sub_eq heq)
        have hnext : (i + 1 - start).val = (i - start).val + 1 :=
          Circular.val_add_sub (lt_trans (Nat.lt_of_le_of_lt (Nat.succ_le_of_lt hlt) hstop)
            (by decide))
        obtain ⟨filled, hfilled, hsame', hbits⟩ := ih (b := b') (i := i + 1)
          (hsame.multiTid.trans hmulti) (hsame.compressed.trans hcompressed)
          (hsame.startingSeq.trans hstart) (by rw [hnext]; exact hlt)
          (by rw [hnext, Nat.add_right_comm]; exact hfuel)
        refine ⟨filled, by rw [if_pos hne, hfilled], ⟨hsame'.multiTid.trans hsame.multiTid,
          hsame'.compressed.trans hsame.compressed,
          hsame'.startingSeq.trans hsame.startingSeq⟩, fun seq hseq => ?_⟩
        rw [hbits seq hseq, hbit seq hseq, hnext, or_assoc]
        refine or_congr_right ⟨?_, ?_⟩
        · rintro (⟨rfl, hset⟩ | ⟨hle, hge, hset⟩)
          · exact ⟨Nat.le_refl _, hi, hset⟩
          · exact ⟨Nat.le_of_succ_le hle, hge, hset⟩
        · rintro ⟨hle, hge, hset⟩
          rcases Nat.eq_or_lt_of_le hle with heq | hlt'
          · exact Or.inl ⟨(Circular.eq_of_val_sub_eq heq).symm, hset⟩
          · exact Or.inr ⟨hlt', hge, hset⟩

/-- The bits of a block ack from the beginning of the window. -/
theorem fillBlockAckBitmap_spec (h : c.Sound) (hmulti : b.multiTid = false)
    (hcompressed : b.compressed = true) (hempty : b.compressedBitmap = 0)
    (hstart : b.startingSeq = .ofNat c.winStart.val) :
    ∃ filled, c.fillBlockAckBitmap b = some filled ∧ ∀ seq : Fin 4096,
      (filled.isPacketReceived (.ofNat seq.val) = some true ↔
        c.isInWindow seq ∧ c.bitmap seq = 1) := by
  have hfirst : Fin.ofNat 4096 b.startingSeq.toNat = c.winStart := by
    rw [hstart, toNat_number]
    exact Fin.ofNat_val_eq_self _
  have hpos : 0 < c.winSize.toNat := h.size ▸ Nat.succ_pos _
  have hend := windowEnd_sub c.winStart hpos h.winSize_le
  have hstop : (windowEnd c.winStart c.winSize - c.winStart).val < 64 :=
    lt_of_lt_of_le (Nat.lt_succ_self _) (hend.trans_le h.winSize_le)
  have hself := Circular.val_sub_self c.winStart
  obtain ⟨filled, hfilled, hsame, hbits⟩ := fillLoop_spec (c := c) hmulti hcompressed hstart hstop
    (by rw [hself]; exact Nat.zero_le _)
    (show (windowEnd c.winStart c.winSize - c.winStart).val < (c.winStart - c.winStart).val + 4096 by
      rw [hself, Nat.zero_add]
      exact lt_trans hstop (by decide))
  refine ⟨filled, ?_, fun seq => ?_⟩
  · unfold fillBlockAckBitmap
    rw [hmulti, hcompressed, hfirst]
    exact hfilled
  · have hnone : b.bit (seq - c.winStart).val = false := by
      unfold CtrlBAckResponseHeader.bit
      rw [hempty]
      exact Nat.zero_testBit _
    rw [isPacketReceived_eq (hsame.multiTid.trans hmulti) (hsame.compressed.trans hcompressed)
      (hsame.startingSeq.trans hstart), Option.some.injEq, Bool.and_eq_true, decide_eq_true_iff,
      isInWindow_iff]
    constructor
    · rintro ⟨hin, hset⟩
      rcases (hbits seq hin).mp hset with hbit | ⟨-, hle, hslot⟩
      · rw [hnone] at hbit
        cases hbit
      · exact ⟨lt_of_lt_of_eq (Nat.lt_succ_of_le hle) hend, hslot⟩
    · rintro ⟨hin, hslot⟩
      have hle : (seq - c.winStart).val ≤ (windowEnd c.winStart c.winSize - c.winStart).val :=
        Nat.le_of_lt_succ (lt_of_lt_of_eq hin hend.symm)
      have hin' := lt_of_lt_of_le hin h.winSize_le
      refine ⟨hin', (hbits seq hin').mpr (Or.inr ⟨?_, hle, hslot⟩)⟩
      rw [hself]
      exact Nat.zero_le _

/-- In every run the assertion on the size of the window holds, and a compressed block ack from the
beginning of the window has the bits of the numbers that were received since they entered it. -/
theorem scoreboard_exact (winStart : Fin 4096) {winSize : UInt16} (hpos : 0 < winSize)
    (hle : winSize ≤ 64) (events : List ScoreboardEvent) :
    ∃ c, run step (init winStart winSize) events = some c ∧
      (c.winEnd - c.winStart).val + 1 = winSize.toNat ∧
      ∀ b : CtrlBAckResponseHeader, b.multiTid = false → b.compressed = true →
        b.compressedBitmap = 0 → b.startingSeq = .ofNat c.winStart.val →
        ∃ filled, c.fillBlockAckBitmap b = some filled ∧ ∀ seq : Fin 4096,
          (filled.isPacketReceived (.ofNat seq.val) = some true ↔
            Received (init winStart winSize) events seq) := by
  obtain ⟨hsound, hsize⟩ := init_sound winStart hpos hle
  obtain ⟨c, hrun, hc, hwinSize, hslot⟩ := run_spec hsound (fun _ => rfl) events
  refine ⟨c, hrun, ?_, fun b hmulti hcompressed hempty hstart => ?_⟩
  · rw [hc.size, hwinSize, hsize, UInt16.toNat_toUInt8]
    exact Nat.mod_eq_of_lt (lt_of_le_of_lt (UInt16.le_iff_toNat_le.mp hle) (by decide))
  · obtain ⟨filled, hfilled, hreceived⟩ :=
      fillBlockAckBitmap_spec hc hmulti hcompressed hempty hstart
    refine ⟨filled, hfilled, fun seq => (hreceived seq).trans ⟨fun h => (hslot seq h.1).mp h.2, ?_⟩⟩
    intro hin
    obtain ⟨before, after, hevents, hsince⟩ := id hin
    obtain ⟨c', hc', hinside⟩ := hsince after (List.prefix_refl _)
    rw [← hevents, hrun] at hc'
    obtain rfl := Option.some.inj hc'
    exact ⟨hinside, (hslot seq hinside).mpr hin⟩

/-- The last number of a lap of 4096 stays in the window when the next lap begins. -/
theorem scoreboard_exact_wraps :
    ∃ c, run step (init 4090 8) [.mpdu 4095, .mpdu 1] = some c ∧
      (c.winEnd - c.winStart).val + 1 = (8 : UInt16).toNat ∧
      ∀ b : CtrlBAckResponseHeader, b.multiTid = false → b.compressed = true →
        b.compressedBitmap = 0 → b.startingSeq = .ofNat c.winStart.val →
        ∃ filled, c.fillBlockAckBitmap b = some filled ∧ ∀ seq : Fin 4096,
          (filled.isPacketReceived (.ofNat seq.val) = some true ↔
            Received (init 4090 8) [.mpdu 4095, .mpdu 1] seq) :=
  scoreboard_exact 4090 (by decide) (by decide) [.mpdu 4095, .mpdu 1]

end BlockAckCache

end Ns3Rdma.Wifi
