import Ns3Rdma.Lib.Circular
import Ns3Rdma.Lib.StepSystem
import Ns3Rdma.Lte.InOrder

/-! # The reordering window of RLC UM

VR(UR) is the first number that is missing, and what is stored lies above it in the window. This is
so as long as the two loops over the buffer, which go by the order of the numbers from 0 to 1023, do
not meet the step to zero. -/

namespace Ns3Rdma.Lte

open StepSystem

inductive UmReception where
  | receivePdu (packet : List UInt8)
  | expireReorderingTimer

namespace UmReceiver

variable (s : UmReceiver)

/-- The loop of `ExpireReorderingTimer`: the first number that is not in the buffer. -/
def firstFrom : ℕ → SequenceNumber10 → Option SequenceNumber10
  | 0, _ => none
  | fuel + 1, newVrUr =>
      if (s.lookup newVrUr.value.val).isSome then firstFrom fuel newVrUr.succ else some newVrUr

/-- `ExpireReorderingTimer`, when the timer has been running. -/
def expireReorderingTimer : Option UmReceiver :=
  (s.firstFrom 1025 s.vrUx).bind fun newVrUr =>
    (reassembleSnInterval newVrUr 1025 s.vrUr
      { s with vrUr := newVrUr, reorderingTimer := false }).map fun s =>
        if s.vrUh.gt s.vrUr then { s with reorderingTimer := true, vrUx := s.vrUh } else s

def step : UmReception → Option UmReceiver
  | .receivePdu packet => s.doReceivePdu packet
  | .expireReorderingTimer => if s.reorderingTimer then s.expireReorderingTimer else none

/-! ## The claim and its condition -/

/-- The numbers in the buffer. -/
def numbers : List ℕ := s.rxBuffer.map Prod.fst

/-- The beginning of the window. -/
def windowLow : Fin 1024 := s.vrUh.value - SequenceNumber10.wrap 512

/-- Where a number lies above the beginning of the window, which has 512 numbers. -/
def position (x : Fin 1024) : ℕ := (x - s.windowLow).val

structure Normalised : Prop where
  vrUr : s.lookup s.vrUr.value.val = none
  window : ∀ k ∈ s.numbers, k < 1024 ∧ s.isInsideReorderingWindow (.ofUInt16 (.ofNat k)) = true
  reorderingTimer : s.vrUh.value ≠ s.vrUr.value → s.reorderingTimer = true

/-- The PDU is discarded. -/
def Discards (seq : Fin 1024) : Prop :=
  s.position seq < s.position s.vrUr.value ∨
    (s.position s.vrUr.value < s.position seq ∧ s.position seq < 512 ∧ seq.val ∈ s.numbers)

/-- The beginning of the window when a PDU has been received. -/
def nextLow (seq : Fin 1024) : Fin 1024 :=
  if s.position seq < 512 then s.windowLow else seq - SequenceNumber10.wrap 511

/-- A number in the window that is stored then. -/
def Received (seq x : Fin 1024) : Prop :=
  (x = seq ∨ x.val ∈ s.numbers) ∧ (x - s.nextLow seq).val < 512

/-- VR(UR) before what is stored is delivered. -/
def nextVrUr (seq : Fin 1024) : Fin 1024 :=
  if (s.vrUr.value - s.nextLow seq).val < 512 then s.vrUr.value else s.nextLow seq

/-- The stored numbers that fall out of the window are below those that stay, and not all numbers
from VR(UR) to the step to zero are there. -/
structure Unbroken (seq : Fin 1024) : Prop where
  outside : ∀ x y : Fin 1024, x.val ∈ s.numbers → 512 ≤ (x - s.nextLow seq).val →
    s.Received seq y → x < y
  missing : ∃ n, (s.nextVrUr seq).val ≤ n ∧ n ≤ 1024 ∧
    ¬ s.Received seq (SequenceNumber10.wrap n)

/-- The condition on an event. -/
def Regular (s : UmReceiver) (event : UmReception) (_ : UmReceiver) : Prop :=
  ∀ packet h payload, event = .receivePdu packet →
    LteRlcHeader.deserialize packet = some (h, payload) →
      s.Discards h.sequenceNumber ∨ s.Unbroken h.sequenceNumber

end UmReceiver

/-! ## Comparisons -/

namespace SequenceNumber10

variable {a b : SequenceNumber10} {w : Fin 1024}

theorem above_eq (ha : a.modulusBase = .ofNat w.val) : a.above = a.value - w := by
  unfold above
  rw [ha, ofNat_toNat_ofNat]

theorem gt_iff_above (ha : a.modulusBase = .ofNat w.val) (hb : b.modulusBase = .ofNat w.val) :
    a.gt b = true ↔ (b.value - w).val < (a.value - w).val := by
  unfold gt
  rw [above_eq ha, above_eq hb, decide_eq_true_iff, Fin.lt_def]

theorem lt_iff_above (ha : a.modulusBase = .ofNat w.val) (hb : b.modulusBase = .ofNat w.val) :
    a.lt b = true ↔ (a.value - w).val < (b.value - w).val := by
  unfold lt
  rw [Bool.and_eq_true, Bool.not_eq_true', bne_iff_ne, ← Bool.not_eq_true, gt_iff_above ha hb,
    Nat.not_lt]
  constructor
  · rintro ⟨hle, hne⟩
    exact lt_of_le_of_ne hle fun heq => hne (Circular.eq_of_val_sub_eq heq)
  · intro hlt
    exact ⟨hlt.le, fun heq => absurd hlt (by rw [heq]; exact Nat.lt_irrefl _)⟩

theorem le_iff_above (ha : a.modulusBase = .ofNat w.val) (hb : b.modulusBase = .ofNat w.val) :
    a.le b = true ↔ (a.value - w).val ≤ (b.value - w).val := by
  unfold le
  rw [Bool.not_eq_true', ← Bool.not_eq_true, gt_iff_above ha hb, Nat.not_lt]

end SequenceNumber10

namespace UmReceiver

variable {s s' : UmReceiver} {w seq x : Fin 1024} {packet : List UInt8}

theorem position_vrUh : s.position s.vrUh.value = 512 := by
  unfold position windowLow
  rw [SequenceNumber10.sub_sub]
  rfl

theorem eq_vrUh_of_position (h : s.position x = 512) : x = s.vrUh.value :=
  Circular.eq_of_val_sub_eq (h.trans position_vrUh.symm)

theorem isInside_iff {seq : SequenceNumber10} :
    s.isInsideReorderingWindow seq = true ↔ s.position seq.value < 512 := by
  unfold isInsideReorderingWindow
  dsimp only
  rw [SequenceNumber10.setModulusBase_le, Bool.true_and,
    SequenceNumber10.lt_iff_above (w := s.windowLow) rfl rfl]
  change s.position seq.value < s.position s.vrUh.value ↔ _
  rw [position_vrUh]

theorem isInside_ofNat : s.isInsideReorderingWindow (.ofUInt16 (.ofNat x.val)) = true ↔
    s.position x < 512 := by
  have hvalue : (SequenceNumber10.ofUInt16 (.ofNat x.val)).value = x :=
    SequenceNumber10.ofNat_toNat_ofNat x
  rw [isInside_iff, hvalue]

/-! ## The buffer -/

theorem lookup_isSome {k : ℕ} : (s.lookup k).isSome = true ↔ k ∈ s.numbers := by
  unfold lookup numbers
  rw [List.lookup_isSome_iff, List.mem_map]
  refine exists_congr fun p => and_congr_right fun _ => ?_
  rw [beq_iff_eq, eq_comm]

theorem lookup_eq_none {k : ℕ} : s.lookup k = none ↔ k ∉ s.numbers := by
  rw [← lookup_isSome, Option.isSome_iff_ne_none, not_not]

theorem mem_store {seq k : ℕ} {buffer : List (ℕ × List UInt8)} :
    k ∈ (store seq packet buffer).map Prod.fst ↔ k = seq ∨ k ∈ buffer.map Prod.fst := by
  induction buffer with
  | nil => simp [store]
  | cons first rest ih =>
      obtain ⟨other, stored⟩ := first
      unfold store
      split
      · rw [List.map_cons, List.mem_cons]
      · split
        · next heq =>
          subst heq
          simp
        · rw [List.map_cons, List.mem_cons, ih, List.map_cons, List.mem_cons]
          exact or_left_comm

theorem sorted_store {seq : ℕ} {buffer : List (ℕ × List UInt8)}
    (h : (buffer.map Prod.fst).Pairwise (· < ·)) :
    ((store seq packet buffer).map Prod.fst).Pairwise (· < ·) := by
  induction buffer with
  | nil => exact List.pairwise_singleton _ _
  | cons first rest ih =>
      obtain ⟨other, stored⟩ := first
      obtain ⟨hfirst, hrest⟩ := List.pairwise_cons.mp h
      unfold store
      split
      · next hlt =>
        refine List.pairwise_cons.mpr ⟨fun k hk => ?_, h⟩
        rcases List.mem_cons.mp hk with rfl | hin
        · exact hlt
        · exact hlt.trans (hfirst k hin)
      · split
        · next heq =>
          subst heq
          exact h
        · refine List.pairwise_cons.mpr ⟨fun k hk => ?_, ih hrest⟩
          rcases mem_store.mp hk with rfl | hin
          · change other < k
            omega
          · exact hfirst k hin

/-- The loop removes what is outside before the first number that is inside. -/
theorem reassembleOutsideWindow_eq {buffer buffer' : List (ℕ × List UInt8)} {r r' : Reassembler}
    (h : s.reassembleOutsideWindow buffer r = some (buffer', r')) :
    buffer' = buffer.dropWhile fun p => !s.isInsideReorderingWindow (.ofUInt16 (.ofNat p.1)) := by
  induction buffer generalizing r with
  | nil =>
      obtain ⟨rfl, -⟩ := Prod.mk.inj (Option.some.inj h)
      rfl
  | cons first rest ih =>
      obtain ⟨seq, packet⟩ := first
      unfold reassembleOutsideWindow at h
      split at h
      · next hout =>
        obtain ⟨middle, -, hrest⟩ := Option.bind_eq_some_iff.mp h
        rw [List.dropWhile_cons, if_pos hout]
        exact ih hrest
      · next hin =>
        obtain ⟨rfl, -⟩ := Prod.mk.inj (Option.some.inj h)
        rw [List.dropWhile_cons, if_neg hin]

/-- In a sorted list, when what is to be dropped is below what is to be kept. -/
theorem mem_dropWhile (out : ℕ → Bool) {buffer : List (ℕ × List UInt8)} {k : ℕ}
    (hsorted : (buffer.map Prod.fst).Pairwise (· < ·))
    (hbelow : ∀ x ∈ buffer.map Prod.fst, ∀ y ∈ buffer.map Prod.fst, out x = true → out y = false →
      x < y) :
    k ∈ (buffer.dropWhile fun p => out p.1).map Prod.fst ↔
      k ∈ buffer.map Prod.fst ∧ out k = false := by
  induction buffer with
  | nil => simp
  | cons first rest ih =>
      obtain ⟨hfirst, hrest⟩ := List.pairwise_cons.mp hsorted
      cases hout : out first.1 with
      | true =>
          rw [List.dropWhile_cons, if_pos hout, ih hrest fun x hx y hy =>
            hbelow x (List.mem_cons_of_mem _ hx) y (List.mem_cons_of_mem _ hy)]
          rw [List.map_cons, List.mem_cons]
          constructor
          · rintro ⟨hk, hin⟩
            exact ⟨Or.inr hk, hin⟩
          · rintro ⟨rfl | hk, hin⟩
            · rw [hout] at hin
              cases hin
            · exact ⟨hk, hin⟩
      | false =>
          rw [List.dropWhile_cons, if_neg (by rw [hout]; exact Bool.false_ne_true)]
          refine (and_iff_left_of_imp fun hk => ?_).symm
          rcases List.mem_cons.mp hk with rfl | hk
          · exact hout
          · -- A number behind one that is kept is kept.
            by_contra hdrop
            have hlt := hbelow k (List.mem_cons_of_mem _ hk) first.1 List.mem_cons_self
              (Bool.eq_true_of_not_eq_false hdrop) hout
            exact absurd (hfirst k hk) (Nat.not_lt_of_lt hlt)

/-- The interval leaves the buffer. -/
theorem reassembleSnInterval_spec {high reassembleSn : SequenceNumber10}
    (hbase : reassembleSn.modulusBase = .ofNat w.val) (hhigh : high.modulusBase = .ofNat w.val)
    (hle : (reassembleSn.value - w).val ≤ (high.value - w).val) {fuel : ℕ}
    (h : reassembleSnInterval high fuel reassembleSn s = some s') :
    s'.vrUr = s.vrUr ∧ s'.vrUx = s.vrUx ∧ s'.vrUh = s.vrUh ∧
      s'.reorderingTimer = s.reorderingTimer ∧ s'.numbers.Sublist s.numbers ∧
      ∀ x : Fin 1024, x.val ∈ s'.numbers ↔ x.val ∈ s.numbers ∧
        ¬ ((reassembleSn.value - w).val ≤ (x - w).val ∧ (x - w).val < (high.value - w).val) := by
  induction fuel generalizing s reassembleSn with
  | zero => cases h
  | succ fuel ih =>
      unfold reassembleSnInterval at h
      split at h
      · next hlt =>
        rw [SequenceNumber10.lt_iff_above hbase hhigh] at hlt
        have hbound := (high.value - w).isLt
        have hsucc : (reassembleSn.succ.value - w).val = (reassembleSn.value - w).val + 1 :=
          Circular.val_add_sub (d := (1 : Fin 1024)) (show _ + 1 < 1024 by omega)
        have hbase' : reassembleSn.succ.modulusBase = .ofNat w.val := hbase
        have hsame : ∀ x : Fin 1024, x ≠ reassembleSn.value →
            (x - w).val ≠ (reassembleSn.value - w).val := fun x hne heq =>
          hne (Circular.eq_of_val_sub_eq heq)
        split at h
        · obtain ⟨r, -, hrest⟩ := Option.bind_eq_some_iff.mp h
          obtain ⟨hur, hux, huh, htimer, hsub, hmem⟩ := ih hbase' (by rw [hsucc]; exact hlt) hrest
          refine ⟨hur, hux, huh, htimer, hsub.trans (List.filter_sublist.map _), fun x => ?_⟩
          have hfilter : x.val ∈ ({ s with
              reassembler := r
              rxBuffer := s.rxBuffer.filter fun p => p.1 ≠ reassembleSn.value.val } :
                UmReceiver).numbers ↔ x.val ∈ s.numbers ∧ x ≠ reassembleSn.value := by
            unfold numbers
            simp only [List.mem_map, List.mem_filter, decide_eq_true_eq, ne_eq, Fin.ext_iff]
            constructor
            · rintro ⟨p, ⟨hp, hne⟩, hx⟩
              exact ⟨⟨p, hp, hx⟩, hx ▸ hne⟩
            · rintro ⟨⟨p, hp, hx⟩, hne⟩
              exact ⟨p, ⟨hp, by rw [hx]; exact hne⟩, hx⟩
          rw [hmem, hfilter, hsucc]
          by_cases hx : x = reassembleSn.value
          · subst hx
            simp [hlt]
          · have hne := hsame x hx
            constructor
            · rintro ⟨⟨hin, -⟩, hnot⟩
              exact ⟨hin, fun hand => hnot ⟨by omega, hand.2⟩⟩
            · rintro ⟨hin, hnot⟩
              exact ⟨⟨hin, hx⟩, fun hand => hnot ⟨by omega, hand.2⟩⟩
        · next hnone =>
          obtain ⟨hur, hux, huh, htimer, hsub, hmem⟩ := ih hbase' (by rw [hsucc]; exact hlt) h
          refine ⟨hur, hux, huh, htimer, hsub, fun x => ?_⟩
          rw [hmem, hsucc]
          refine and_congr_right fun hin => not_congr ?_
          have hx : x ≠ reassembleSn.value := fun heq =>
            lookup_eq_none.mp hnone (by rw [← heq]; exact hin)
          have hne := hsame x hx
          omega
      · next hge =>
        rw [SequenceNumber10.lt_iff_above hbase hhigh] at hge
        obtain rfl := Option.some.inj h
        refine ⟨rfl, rfl, rfl, rfl, List.Sublist.refl _, fun x => ?_⟩
        exact (and_iff_left fun hand => by omega).symm

/-- The loop of `DoReceivePdu` over the numbers that are there. -/
theorem firstMissing_spec (fuel k : ℕ) : k ≤ s.firstMissing fuel k ∧
    (∀ m, k ≤ m → m < s.firstMissing fuel k → m ∈ s.numbers) ∧
      (s.firstMissing fuel k ∈ s.numbers → s.firstMissing fuel k = k + fuel) := by
  induction fuel generalizing k with
  | zero => exact ⟨Nat.le_refl _, fun m hk hm => absurd hm (Nat.not_lt_of_le hk), fun _ => rfl⟩
  | succ fuel ih =>
      unfold firstMissing
      split
      · next hin =>
        obtain ⟨hle, hall, hlast⟩ := ih (k + 1)
        refine ⟨by omega, fun m hk hm => ?_, fun hmem => by rw [hlast hmem]; omega⟩
        rcases Nat.eq_or_lt_of_le hk with rfl | hlt
        · exact lookup_isSome.mp hin
        · exact hall m hlt hm
      · next hout =>
        exact ⟨Nat.le_refl _, fun m hk hm => absurd hm (Nat.not_lt_of_le hk),
          fun hmem => absurd (lookup_isSome.mpr hmem) hout⟩

/-- The loop of `ExpireReorderingTimer`. -/
theorem firstFrom_spec (hinside : ∀ x : Fin 1024, x.val ∈ s.numbers → s.position x < 512)
    {fuel : ℕ} {newVrUr result : SequenceNumber10} (hle : s.position newVrUr.value ≤ 512)
    (h : s.firstFrom fuel newVrUr = some result) :
    result.modulusBase = newVrUr.modulusBase ∧ result.value.val ∉ s.numbers ∧
      s.position newVrUr.value ≤ s.position result.value ∧ s.position result.value ≤ 512 := by
  induction fuel generalizing newVrUr with
  | zero => cases h
  | succ fuel ih =>
      unfold firstFrom at h
      split at h
      · next hin =>
        have hlt := hinside _ (lookup_isSome.mp hin)
        have hsucc : s.position newVrUr.succ.value = s.position newVrUr.value + 1 :=
          Circular.val_add_sub (d := (1 : Fin 1024))
            (show s.position newVrUr.value + 1 < 1024 by omega)
        obtain ⟨hbase, hmissing, hge, hle'⟩ := ih (by rw [hsucc]; exact hlt) h
        exact ⟨hbase, hmissing, by omega, hle'⟩
      · next hout =>
        obtain rfl := Option.some.inj h
        exact ⟨rfl, fun hmem => hout (lookup_isSome.mpr hmem), Nat.le_refl _, hle⟩

/-! ## The invariant -/

/-- What holds of the buffer once everything is delivered that can be. -/
structure Waiting (s : UmReceiver) : Prop where
  sorted : s.numbers.Pairwise (· < ·)
  small : ∀ k ∈ s.numbers, k < 1024
  waiting : ∀ x : Fin 1024, x.val ∈ s.numbers →
    s.position s.vrUr.value < s.position x ∧ s.position x < 512
  vrUr : s.position s.vrUr.value ≤ 512

/-- Between the calls. -/
structure Normal (s : UmReceiver) : Prop where
  waiting : s.Waiting
  running : s.reorderingTimer = true → s.vrUr.modulusBase = .ofNat s.windowLow.val ∧
    s.vrUx.modulusBase = .ofNat s.windowLow.val ∧ s.vrUh.modulusBase = .ofNat s.windowLow.val ∧
      s.position s.vrUr.value < s.position s.vrUx.value ∧ s.position s.vrUx.value ≤ 512
  stopped : s.reorderingTimer = false → s.vrUr.value = s.vrUh.value

theorem Normal.normalised (h : s.Normal) : s.Normalised where
  vrUr := by
    rw [lookup_eq_none]
    intro hmem
    exact absurd (h.waiting.waiting _ hmem).1 (Nat.lt_irrefl _)
  window := by
    intro k hk
    have hlt := h.waiting.small k hk
    refine ⟨hlt, (isInside_ofNat (x := ⟨k, hlt⟩)).mpr ?_⟩
    exact (h.waiting.waiting ⟨k, hlt⟩ hk).2
  reorderingTimer := fun hne =>
    Bool.eq_true_of_not_eq_false fun hstopped => hne (h.stopped hstopped).symm

/-- The timer runs at the end if something is missing. -/
theorem Waiting.updateTimer (h : s.Waiting) : s.updateTimer.Normal := by
  obtain ⟨moved, hmoved⟩ : ∃ moved : UmReceiver, moved = { s with
    vrUr := s.vrUr.setModulusBase (s.vrUh.sub windowSize)
    vrUx := s.vrUx.setModulusBase (s.vrUh.sub windowSize)
    vrUh := s.vrUh.setModulusBase (s.vrUh.sub windowSize) } := ⟨_, rfl⟩
  have hwaiting : moved.Waiting := by
    rw [hmoved]
    exact ⟨h.sorted, h.small, h.waiting, h.vrUr⟩
  have hur : moved.vrUr.modulusBase = .ofNat moved.windowLow.val := by
    rw [hmoved]
    rfl
  have hux : moved.vrUx.modulusBase = .ofNat moved.windowLow.val := by
    rw [hmoved]
    rfl
  have huh : moved.vrUh.modulusBase = .ofNat moved.windowLow.val := by
    rw [hmoved]
    rfl
  obtain ⟨running, hrunning⟩ : ∃ running, running = (moved.reorderingTimer &&
      !(moved.vrUx.le moved.vrUr ||
        (!moved.isInsideReorderingWindow moved.vrUx && moved.vrUx.value != moved.vrUh.value))) :=
    ⟨_, rfl⟩
  have heq : s.updateTimer = if !running && moved.vrUh.gt moved.vrUr then
      { moved with reorderingTimer := true, vrUx := moved.vrUh }
      else { moved with reorderingTimer := running } := by
    rw [hrunning, hmoved]
    rfl
  rw [heq]
  have hlow := SequenceNumber10.gt_iff_above huh hur
  change _ ↔ moved.position moved.vrUr.value < moved.position moved.vrUh.value at hlow
  rw [position_vrUh] at hlow
  split
  · next hstart =>
    rw [Bool.and_eq_true, hlow] at hstart
    exact ⟨⟨hwaiting.sorted, hwaiting.small, hwaiting.waiting, hwaiting.vrUr⟩,
      fun _ => ⟨hur, huh, huh, by rw [position_vrUh]; exact hstart.2, position_vrUh.le⟩, nofun⟩
  · next hkeep =>
    rw [Bool.and_eq_true, hlow, Bool.not_eq_true'] at hkeep
    refine ⟨⟨hwaiting.sorted, hwaiting.small, hwaiting.waiting, hwaiting.vrUr⟩,
      fun htrue => ?_, fun hfalse => ?_⟩
    · change running = true at htrue
      rw [hrunning, Bool.and_eq_true, Bool.not_eq_true', Bool.or_eq_false_iff,
        Bool.and_eq_false_iff, Bool.not_eq_false', isInside_iff, bne_eq_false_iff_eq,
        ← Bool.not_eq_true, SequenceNumber10.le_iff_above hux hur, Nat.not_le] at htrue
      refine ⟨hur, hux, huh, htrue.2.1, ?_⟩
      rcases htrue.2.2 with hin | hlast
      · exact hin.le
      · change moved.position moved.vrUx.value ≤ 512
        rw [hlast, position_vrUh]
    · exact eq_vrUh_of_position (le_antisymm hwaiting.vrUr
        (Nat.not_lt.mp fun hlt => hkeep ⟨hfalse, hlt⟩))

/-! ## Delivering -/

/-- A number above another base. -/
theorem val_sub_of_le {low : Fin 1024} (h : (low - w).val ≤ (x - w).val) :
    (x - low).val = (x - w).val - (low - w).val := by
  rw [Circular.val_sub_eq w x low, if_pos h]

/-- What holds when a PDU has been stored, and the window has been moved. VR(UR) may still have the
base of the old window. -/
structure Placed (s : UmReceiver) (w : Fin 1024) : Prop where
  sorted : s.numbers.Pairwise (· < ·)
  small : ∀ k ∈ s.numbers, k < 1024
  inside : ∀ x : Fin 1024, x.val ∈ s.numbers → s.position x < 512
  vrUr : s.position s.vrUr.value ≤ 512
  base : s.vrUr.modulusBase = .ofNat w.val
  low : (s.windowLow - w).val ≤ (s.vrUr.value - w).val
  above : ∀ x : Fin 1024, x.val ∈ s.numbers → (s.vrUr.value - w).val ≤ (x - w).val
  room : s.vrUr.value.val ∈ s.numbers → ∀ x : Fin 1024, x.val ∈ s.numbers → (x - w).val < 1023

/-- Numbers from VR(UR) on that are all there follow each other above the base as well. -/
theorem Placed.val_sub_wrap (h : s.Placed w) (hfirst : s.vrUr.value.val ∈ s.numbers) {n : ℕ}
    (hstored : ∀ m, s.vrUr.value.val ≤ m → m < n → m ∈ s.numbers) {m : ℕ}
    (hm : s.vrUr.value.val ≤ m) (hle : m ≤ n) :
    (SequenceNumber10.wrap m - w).val = (s.vrUr.value - w).val + (m - s.vrUr.value.val) := by
  induction m, hm using Nat.le_induction with
  | base =>
      rw [Nat.sub_self, Nat.add_zero]
      congr 2
      exact Fin.ofNat_val_eq_self _
  | succ m hm ih =>
      have hin := hstored m hm (by omega)
      have hlt := h.small m hin
      have hvalue : (SequenceNumber10.wrap m).val = m := Nat.mod_eq_of_lt hlt
      have hroom := h.room hfirst (SequenceNumber10.wrap m) (by rw [hvalue]; exact hin)
      have hsucc : SequenceNumber10.wrap (m + 1) = SequenceNumber10.wrap m + 1 := by
        apply Fin.ext
        rw [Fin.val_add, hvalue]
        rfl
      have hnext : (SequenceNumber10.wrap m + 1 - w).val =
          (SequenceNumber10.wrap m - w).val + 1 :=
        Circular.val_add_sub (d := (1 : Fin 1024)) (show _ + 1 < 1024 by omega)
      rw [hsucc, hnext, ih (by omega)]
      omega

/-- The loop stops at a number that is not there: either before the step to zero, or there, since
one number up to it is missing. -/
theorem wrap_firstMissing (hmissing : ∃ m, s.vrUr.value.val ≤ m ∧ m ≤ 1024 ∧
      (SequenceNumber10.wrap m).val ∉ s.numbers) {n : ℕ}
    (hstored : ∀ m, s.vrUr.value.val ≤ m → m < n → m ∈ s.numbers) (hn : n ≤ 1024)
    (hend : n < 1024 → n ∉ s.numbers) : (SequenceNumber10.wrap n).val ∉ s.numbers := by
  rcases Nat.lt_or_ge n 1024 with hlt | hge
  · have hvalue : (SequenceNumber10.wrap n).val = n := Nat.mod_eq_of_lt hlt
    rw [hvalue]
    exact hend hlt
  · obtain ⟨m, hm, hm', habsent⟩ := hmissing
    rcases Nat.lt_or_ge m n with hbefore | hlast
    · have hvalue : (SequenceNumber10.wrap m).val = m := Nat.mod_eq_of_lt (by omega)
      rw [hvalue] at habsent
      exact absurd (hstored m hm hbefore) habsent
    · obtain rfl : m = n := by omega
      exact habsent

theorem Placed.deliverFromVrUr (h : s.Placed w)
    (hmissing : ∃ n, s.vrUr.value.val ≤ n ∧ n ≤ 1024 ∧
      (SequenceNumber10.wrap n).val ∉ s.numbers)
    (hdeliver : s.deliverFromVrUr = some s') : s'.Waiting := by
  unfold UmReceiver.deliverFromVrUr at hdeliver
  split at hdeliver
  · next hsome =>
    have hfirst : s.vrUr.value.val ∈ s.numbers := by
      rw [← lookup_isSome, hsome]
      rfl
    obtain ⟨hle, hall, hend⟩ := s.firstMissing_spec 1024 (s.vrUr.value.val + 1)
    generalize s.firstMissing 1024 (s.vrUr.value.val + 1) = n at hdeliver hle hall hend
    have hstored : ∀ m, s.vrUr.value.val ≤ m → m < n → m ∈ s.numbers := fun m hm hlt => by
      rcases Nat.eq_or_lt_of_le hm with rfl | hgt
      · exact hfirst
      · exact hall m hgt hlt
    have hn : n ≤ 1024 := by
      have hlast := h.small _ (hstored (n - 1) (by omega) (by omega))
      omega
    have hnew := h.val_sub_wrap hfirst hstored (m := n) (by omega) (Nat.le_refl _)
    have habsent := wrap_firstMissing hmissing hstored hn fun hlt hmem => by
      have hfuel := hend hmem
      omega
    obtain ⟨high, hvalue, hbase, hinterval⟩ : ∃ high : SequenceNumber10,
        high.value = SequenceNumber10.wrap n ∧ high.modulusBase = .ofNat w.val ∧
          reassembleSnInterval high 1025 s.vrUr { s with vrUr := high } = some s' :=
      ⟨{ s.vrUr with value := SequenceNumber10.wrap n }, rfl, h.base, hdeliver⟩
    rw [← hvalue] at hnew habsent
    obtain ⟨hur, -, huh, -, hsub, hmem⟩ := reassembleSnInterval_spec h.base hbase
      (by rw [hnew]; exact Nat.le_add_right _ _) hinterval
    change s'.vrUr = high at hur
    change s'.vrUh = s.vrUh at huh
    have hlow : s'.windowLow = s.windowLow := by
      unfold windowLow
      rw [huh]
    have hvrUr : s'.position s'.vrUr.value =
        (s.vrUr.value - w).val + (n - s.vrUr.value.val) - (s.windowLow - w).val := by
      unfold position
      rw [hlow, hur, ← hnew]
      exact val_sub_of_le (by rw [hnew]; exact h.low.trans (Nat.le_add_right _ _))
    refine ⟨h.sorted.sublist hsub, fun k hk => h.small k (hsub.subset hk), fun x hx => ?_, ?_⟩
    · obtain ⟨hin, hout⟩ := (hmem x).mp hx
      change x.val ∈ s.numbers at hin
      have habove := h.above x hin
      have hne : (x - w).val ≠ (high.value - w).val := fun heq => by
        rw [Circular.eq_of_val_sub_eq heq] at hin
        exact habsent hin
      have hpos : s'.position x = (x - w).val - (s.windowLow - w).val := by
        unfold position
        rw [hlow]
        exact val_sub_of_le (h.low.trans habove)
      have hinside : s'.position x < 512 := by
        unfold position
        rw [hlow]
        exact h.inside x hin
      have hlow' := h.low
      exact ⟨by rw [hvrUr, hpos]; omega, hinside⟩
    · -- The number before the new VR(UR) was stored, and so it is in the window.
      have hin := hstored (n - 1) (by omega) (by omega)
      have hvalue : (SequenceNumber10.wrap (n - 1)).val = n - 1 := Nat.mod_eq_of_lt (by omega)
      have hbefore := h.inside (SequenceNumber10.wrap (n - 1)) (by rw [hvalue]; exact hin)
      have hprev := h.val_sub_wrap hfirst hstored (m := n - 1) (by omega) (by omega)
      have hlow' := h.low
      unfold position at hbefore
      rw [val_sub_of_le (by rw [hprev]; exact h.low.trans (Nat.le_add_right _ _)), hprev] at hbefore
      rw [hvrUr]
      omega
  · next hnone =>
    obtain rfl := Option.some.inj hdeliver
    refine ⟨h.sorted, h.small, fun x hx => ⟨?_, h.inside x hx⟩, h.vrUr⟩
    have hne : x ≠ s.vrUr.value := fun heq => lookup_eq_none.mp hnone (heq ▸ hx)
    have habove := h.above x hx
    have hneq : (s.vrUr.value - w).val ≠ (x - w).val := fun heq =>
      hne (Circular.eq_of_val_sub_eq heq).symm
    have hx' := val_sub_of_le (h.low.trans habove)
    have hr' := val_sub_of_le h.low
    have hlow' := h.low
    unfold position
    omega

/-! ## Storing -/

theorem Waiting.small_store (h : s.Waiting) {value : Fin 1024} :
    ∀ k ∈ (store value.val packet s.rxBuffer).map Prod.fst, k < 1024 := fun k hk => by
  rcases mem_store.mp hk with rfl | hin
  · exact value.isLt
  · exact h.small k hin

/-- A number inside the window does not move it, and nothing falls out. -/
theorem Waiting.store_inside (h : s.Waiting)
    (hbase : s.vrUr.modulusBase = .ofNat s.windowLow.val) {value : Fin 1024}
    (hle : s.position s.vrUr.value ≤ s.position value) (hin : s.position value < 512)
    {stored : UmReceiver}
    (hstored : stored = { s with rxBuffer := store value.val packet s.rxBuffer }) :
    stored.Placed s.windowLow ∧ stored.vrUr.value = s.nextVrUr value ∧
      ∀ x : Fin 1024, x.val ∈ stored.numbers ↔ s.Received value x := by
  have hmem : ∀ k, k ∈ stored.numbers ↔ k = value.val ∨ k ∈ s.numbers := fun k => by
    rw [hstored]
    exact mem_store
  have hposition : ∀ x, stored.position x = s.position x := fun x => by
    rw [hstored]
    rfl
  have hur : stored.vrUr = s.vrUr := by rw [hstored]
  have hlow : stored.windowLow = s.windowLow := by rw [hstored]; rfl
  have hnextLow : s.nextLow value = s.windowLow := if_pos hin
  have hreceived : ∀ x : Fin 1024, x.val ∈ stored.numbers ↔ s.Received value x := fun x => by
    unfold Received
    rw [hmem, hnextLow, Fin.val_inj]
    refine (and_iff_left_of_imp fun hor => ?_).symm
    rcases hor with rfl | hstill
    · exact hin
    · exact (h.waiting x hstill).2
  have habove : ∀ x : Fin 1024, x.val ∈ stored.numbers →
      s.position s.vrUr.value ≤ s.position x := fun x hx => by
    rcases (hmem _).mp hx with heq | hstill
    · rw [Fin.val_inj.mp heq]
      exact hle
    · exact (h.waiting x hstill).1.le
  have hinside : ∀ x : Fin 1024, x.val ∈ stored.numbers → s.position x < 512 := fun x hx => by
    have hlt := ((hreceived x).mp hx).2
    rw [hnextLow] at hlt
    exact hlt
  refine ⟨⟨?_, ?_, fun x hx => ?_, ?_, ?_, ?_, fun x hx => ?_, fun _ x hx => ?_⟩, ?_, hreceived⟩
  · rw [hstored]
    exact sorted_store h.sorted
  · rw [hstored]
    exact h.small_store
  · rw [hposition]
    exact hinside x hx
  · rw [hur, hposition]
    exact h.vrUr
  · rw [hur]
    exact hbase
  · rw [hlow, Circular.val_sub_self]
    exact Nat.zero_le _
  · rw [hur]
    exact habove x hx
  · exact (hinside x hx).trans (by decide)
  · rw [hur]
    unfold nextVrUr
    rw [hnextLow, if_pos]
    exact hle.trans_lt hin

theorem nextLow_of_outside {value : Fin 1024} (hout : 512 ≤ s.position value) :
    s.nextLow value = value - 511 :=
  if_neg (Nat.not_lt_of_le hout)

/-- The sweep of a window that has moved to a number leaves what the new window holds. -/
theorem Waiting.mem_outside (h : s.Waiting) {value : Fin 1024} (hout : 512 ≤ s.position value)
    (hunbroken : s.Unbroken value) {moved : UmReceiver}
    (hbuffer : moved.rxBuffer = store value.val packet s.rxBuffer)
    (hlow : moved.windowLow = s.nextLow value) (x : Fin 1024) :
    x.val ∈ (moved.rxBuffer.dropWhile fun p =>
        !moved.isInsideReorderingWindow (.ofUInt16 (.ofNat p.1))).map Prod.fst ↔
      s.Received value x := by
  have hmem : ∀ k, k ∈ moved.rxBuffer.map Prod.fst ↔ k = value.val ∨ k ∈ s.numbers := fun k => by
    rw [hbuffer]
    exact mem_store
  have hsmall : ∀ k ∈ moved.rxBuffer.map Prod.fst, k < 1024 := by
    rw [hbuffer]
    exact h.small_store
  have hkept : ∀ x : Fin 1024, (!moved.isInsideReorderingWindow (.ofUInt16 (.ofNat x.val))) =
      false ↔ (x - s.nextLow value).val < 512 := fun x => by
    rw [Bool.not_eq_false', isInside_ofNat, ← hlow]
    rfl
  have hnewest : (value - s.nextLow value).val = 511 := by
    rw [nextLow_of_outside hout, Circular.sub_sub_self]
    rfl
  rw [mem_dropWhile (fun k => !moved.isInsideReorderingWindow (.ofUInt16 (.ofNat k)))
    (by rw [hbuffer]; exact sorted_store h.sorted), hmem, hkept, Fin.val_inj]
  · rfl
  · intro a ha b hb hdrop hkeep
    have hdrop' := (not_congr (hkept ⟨a, hsmall a ha⟩)).mp fun hfalse =>
      absurd (hdrop.symm.trans hfalse) Bool.noConfusion
    -- What is dropped was there before: the new number is the highest of the new window.
    have hold : a ∈ s.numbers := by
      refine ((hmem a).mp ha).resolve_left fun heq => hdrop' ?_
      have hsame : (⟨a, hsmall a ha⟩ : Fin 1024) = value := Fin.ext heq
      rw [hsame, hnewest]
      decide
    exact hunbroken.outside ⟨a, hsmall a ha⟩ ⟨b, hsmall b hb⟩ hold (Nat.not_lt.mp hdrop')
      ⟨((hmem b).mp hb).imp_left Fin.ext, (hkept ⟨b, hsmall b hb⟩).mp hkeep⟩

/-- VR(UR) stays only where the window has not passed it. -/
theorem Waiting.nextLow_le_vrUr (h : s.Waiting) {value : Fin 1024} (hout : 512 ≤ s.position value)
    (hin : (s.vrUr.value - s.nextLow value).val < 512) :
    (s.nextLow value - s.windowLow).val ≤ s.position s.vrUr.value := by
  have hdistance : (s.nextLow value - s.windowLow).val = s.position value - 511 := by
    rw [nextLow_of_outside hout]
    exact Circular.val_sub_sub (d := (511 : Fin 1024)) (show 511 ≤ s.position value by omega)
  have hbound := (value - s.windowLow).isLt
  change s.position value < 1024 at hbound
  have hur := h.vrUr
  rw [Circular.val_sub_eq s.windowLow, hdistance] at hin
  change (if s.position value - 511 ≤ s.position s.vrUr.value then
    s.position s.vrUr.value - (s.position value - 511) else
      1024 + s.position s.vrUr.value - (s.position value - 511)) < 512 at hin
  rw [hdistance]
  by_contra hgt
  rw [if_neg hgt] at hin
  omega

/-- The window has moved: what it leaves behind is gone. -/
theorem Waiting.moveWindow (h : s.Waiting) (hbase : s.vrUr.modulusBase = .ofNat s.windowLow.val)
    {seq : SequenceNumber10} (hle : s.position s.vrUr.value ≤ s.position seq.value)
    (hunbroken : s.Unbroken seq.value)
    (hmove : ({ s with rxBuffer := store seq.value.val packet s.rxBuffer } :
      UmReceiver).moveWindow seq = some s') :
    (∃ w, s'.Placed w) ∧ s'.vrUr.value = s.nextVrUr seq.value ∧
      ∀ x : Fin 1024, x.val ∈ s'.numbers ↔ s.Received seq.value x := by
  obtain ⟨stored, hstored⟩ : ∃ stored : UmReceiver,
      stored = { s with rxBuffer := store seq.value.val packet s.rxBuffer } := ⟨_, rfl⟩
  rw [← hstored] at hmove
  have hposition : stored.position seq.value = s.position seq.value := by
    rw [hstored]
    rfl
  unfold UmReceiver.moveWindow at hmove
  split at hmove
  · next hout =>
    rw [Bool.not_eq_true', ← Bool.not_eq_true, isInside_iff, hposition, Nat.not_lt] at hout
    obtain ⟨moved, hmoved⟩ : ∃ moved : UmReceiver, moved = { stored with
      vrUh := (seq.add 1).setModulusBase ((seq.add 1).sub windowSize) } := ⟨_, rfl⟩
    replace hmove : (moved.reassembleOutsideWindow moved.rxBuffer moved.reassembler).map
        (fun p => { moved with
          rxBuffer := p.1
          reassembler := p.2
          vrUr := if !moved.isInsideReorderingWindow moved.vrUr then moved.vrUh.sub windowSize
            else moved.vrUr }) = some s' := by
      rw [hmoved]
      exact hmove
    obtain ⟨⟨buffer, r⟩, houtside, rfl⟩ := Option.map_eq_some_iff.mp hmove
    have hbuffer := reassembleOutsideWindow_eq houtside
    have hmovedUr : moved.vrUr = s.vrUr := by rw [hmoved, hstored]
    have hmovedBuffer : moved.rxBuffer = store seq.value.val packet s.rxBuffer := by
      rw [hmoved, hstored]
    have hlow : moved.windowLow = s.nextLow seq.value := by
      rw [nextLow_of_outside hout, hmoved]
      apply Fin.ext
      change (seq.value + 1 - 512).val = (seq.value - 511).val
      rw [Fin.val_sub, Fin.val_sub, Fin.val_add]
      change (1024 - 512 + (seq.value.val + 1) % 1024) % 1024 =
        (1024 - 511 + seq.value.val) % 1024
      omega
    have hvrUhBase : (moved.vrUh.sub windowSize).modulusBase =
        .ofNat (s.nextLow seq.value).val := by
      rw [← hlow, hmoved]
      rfl
    have hnumbers : ∀ x : Fin 1024, x.val ∈ buffer.map Prod.fst ↔
        s.Received seq.value x := fun x => by
      rw [hbuffer]
      exact h.mem_outside hout hunbroken hmovedBuffer hlow x
    have hsub : (buffer.map Prod.fst).Sublist
        ((store seq.value.val packet s.rxBuffer).map Prod.fst) := by
      rw [hbuffer, ← hmovedBuffer]
      exact (List.dropWhile_sublist _).map _
    have hsorted := (sorted_store h.sorted).sublist hsub
    have hsmall : ∀ k ∈ buffer.map Prod.fst, k < 1024 := fun k hk =>
      h.small_store k (hsub.subset hk)
    have hold : ∀ x : Fin 1024, s.Received seq.value x → x = seq.value ∨
        (s.position s.vrUr.value < s.position x ∧ s.position x < 512) :=
      fun x hx => hx.1.imp_right (h.waiting x)
    have hinside : ∀ x : Fin 1024, x.val ∈ buffer.map Prod.fst →
        (x - moved.windowLow).val < 512 := fun x hx => by
      rw [hlow]
      exact ((hnumbers x).mp hx).2
    rw [hmovedUr]
    have hnext : moved.isInsideReorderingWindow s.vrUr = true ↔ moved.position s.vrUr.value < 512 :=
      isInside_iff
    unfold position at hnext
    rw [hlow] at hnext
    by_cases hin : (s.vrUr.value - s.nextLow seq.value).val < 512
    · -- VR(UR) stays.
      have hnextUr : s.nextVrUr seq.value = s.vrUr.value := if_pos hin
      rw [hnext.mpr hin, hnextUr]
      refine ⟨⟨s.windowLow, hsorted, hsmall, hinside, ?_, hbase, ?_, fun x hx => ?_,
        fun hfirst x hx => ?_⟩, rfl, hnumbers⟩
      · change (s.vrUr.value - moved.windowLow).val ≤ 512
        rw [hlow]
        exact hin.le
      · change (moved.windowLow - s.windowLow).val ≤ s.position s.vrUr.value
        rw [hlow]
        exact h.nextLow_le_vrUr hout hin
      · rcases hold x ((hnumbers x).mp hx) with rfl | hstill
        · exact hle
        · exact hstill.1.le
      · -- Then VR(UR) is the number of the PDU, and it was VR(UH).
        have hsame := (hold _ ((hnumbers _).mp hfirst)).resolve_right fun hstill =>
          absurd hstill.1 (Nat.lt_irrefl _)
        change s.position x < 1023
        rcases hold x ((hnumbers x).mp hx) with rfl | hstill
        · rw [← hsame]
          exact Nat.lt_of_le_of_lt h.vrUr (by decide)
        · exact hstill.2.trans (by decide)
    · have hnextUr : s.nextVrUr seq.value = s.nextLow seq.value := if_neg hin
      rw [Bool.eq_false_of_not_eq_true (mt hnext.mp hin), hnextUr]
      have hvalue : (moved.vrUh.sub windowSize).value = s.nextLow seq.value := hlow
      refine ⟨⟨s.nextLow seq.value, hsorted, hsmall, hinside, ?_, hvrUhBase, ?_, fun x hx => ?_,
        fun _ x hx => ?_⟩, hvalue, hnumbers⟩
      · change ((moved.vrUh.sub windowSize).value - moved.windowLow).val ≤ 512
        rw [hvalue, hlow, Circular.val_sub_self]
        exact Nat.zero_le _
      · change (moved.windowLow - _).val ≤ _
        rw [hlow, Circular.val_sub_self]
        exact Nat.zero_le _
      · change ((moved.vrUh.sub windowSize).value - _).val ≤ _
        rw [hvalue, Circular.val_sub_self]
        exact Nat.zero_le _
      · exact ((hnumbers x).mp hx).2.trans (by decide)
  · next hin =>
    rw [Bool.not_eq_true', Bool.not_eq_false, isInside_iff, hposition] at hin
    obtain rfl := Option.some.inj hmove
    obtain ⟨hplaced, hvrUr, hnumbers⟩ := h.store_inside hbase hle hin hstored
    exact ⟨⟨s.windowLow, hplaced⟩, hvrUr, hnumbers⟩

/-! ## Runs -/

theorem Normal.doReceivePdu (h : s.Normal)
    (hregular : ∀ header payload, LteRlcHeader.deserialize packet = some (header, payload) →
      s.Discards header.sequenceNumber ∨ s.Unbroken header.sequenceNumber)
    (hreceive : s.doReceivePdu packet = some s') : s'.Normal := by
  obtain ⟨⟨header, payload⟩, hpdu, hrest⟩ := Option.bind_eq_some_iff.mp hreceive
  obtain ⟨based, hbased⟩ : ∃ based : UmReceiver, based = { s with
    vrUr := s.vrUr.setModulusBase (s.vrUh.sub windowSize)
    vrUh := s.vrUh.setModulusBase (s.vrUh.sub windowSize) } := ⟨_, rfl⟩
  obtain ⟨seq, hseq⟩ : ∃ seq, seq =
    SequenceNumber10.setModulusBase ⟨header.sequenceNumber, 0⟩ (s.vrUh.sub windowSize) := ⟨_, rfl⟩
  have hvalue : seq.value = header.sequenceNumber := by rw [hseq]; rfl
  have hcond : based.Discards seq.value ∨ based.Unbroken seq.value := by
    rw [hvalue, hbased]
    exact (hregular header payload hpdu).imp id fun hunbroken =>
      ⟨hunbroken.outside, hunbroken.missing⟩
  have hwaiting : based.Waiting := by
    rw [hbased]
    exact ⟨h.waiting.sorted, h.waiting.small, h.waiting.waiting, h.waiting.vrUr⟩
  have hur : based.vrUr.modulusBase = .ofNat based.windowLow.val := by rw [hbased]; rfl
  have huh : based.vrUh.modulusBase = .ofNat based.windowLow.val := by rw [hbased]; rfl
  have hbase : seq.modulusBase = .ofNat based.windowLow.val := by rw [hbased, hseq]; rfl
  have hsub : (based.vrUh.sub windowSize).modulusBase = .ofNat based.windowLow.val := huh
  have hnormal : based.Normal := by
    refine ⟨hwaiting, fun hrunning => ?_, fun hstopped => ?_⟩
    · rw [hbased] at hrunning ⊢
      exact ⟨rfl, (h.running hrunning).2.1, rfl, (h.running hrunning).2.2.2⟩
    · rw [hbased] at hstopped ⊢
      exact h.stopped hstopped
  replace hrest : (if (based.vrUr.lt seq && seq.lt based.vrUh &&
        (based.lookup seq.value.val).isSome) ||
          ((based.vrUh.sub windowSize).le seq && seq.lt based.vrUr) then some based
      else ((({ based with rxBuffer := store seq.value.val packet based.rxBuffer } :
        UmReceiver).moveWindow seq).bind UmReceiver.deliverFromVrUr).map updateTimer) =
          some s' := by
    rw [hbased, hseq]
    exact hrest
  split at hrest
  · obtain rfl := Option.some.inj hrest
    exact hnormal
  · next hkeep =>
    rw [Bool.or_eq_true, Bool.and_eq_true, Bool.and_eq_true, Bool.and_eq_true, lookup_isSome,
      SequenceNumber10.lt_iff_above hur hbase, SequenceNumber10.lt_iff_above hbase huh,
      SequenceNumber10.lt_iff_above hbase hur, SequenceNumber10.le_iff_above hsub hbase] at hkeep
    change ¬ (((based.position based.vrUr.value < based.position seq.value ∧
      based.position seq.value < based.position based.vrUh.value) ∧ _) ∨
        ((based.windowLow - based.windowLow).val ≤ _ ∧
          based.position seq.value < based.position based.vrUr.value)) at hkeep
    rw [position_vrUh, Circular.val_sub_self] at hkeep
    have hnot : ¬ based.Discards seq.value := by
      rintro (hlt | ⟨hgt, hin, hmem⟩)
      · exact hkeep (Or.inr ⟨Nat.zero_le _, hlt⟩)
      · exact hkeep (Or.inl ⟨⟨hgt, hin⟩, hmem⟩)
    have hunbroken := hcond.resolve_left hnot
    obtain ⟨delivered, hdelivered, rfl⟩ := Option.map_eq_some_iff.mp hrest
    obtain ⟨placed, hplaced, hdeliver⟩ := Option.bind_eq_some_iff.mp hdelivered
    obtain ⟨⟨w, hw⟩, hnext, hnumbers⟩ := hwaiting.moveWindow hur
      (Nat.not_lt.mp fun hlt => hnot (Or.inl hlt)) hunbroken hplaced
    obtain ⟨n, hn, hn', hmissing⟩ := hunbroken.missing
    exact (hw.deliverFromVrUr ⟨n, by rw [hnext]; exact hn, hn', fun hmem =>
      hmissing ((hnumbers _).mp hmem)⟩ hdeliver).updateTimer

theorem Normal.expireReorderingTimer (h : s.Normal) (hrunning : s.reorderingTimer = true)
    (hexpire : s.expireReorderingTimer = some s') : s'.Normal := by
  obtain ⟨hur, hux, huh, hlt, hle⟩ := h.running hrunning
  obtain ⟨newVrUr, hnew, hrest⟩ := Option.bind_eq_some_iff.mp hexpire
  obtain ⟨middle, hinterval, hlast⟩ := Option.map_eq_some_iff.mp hrest
  obtain ⟨hbase, habsent, hge, hle'⟩ :=
    firstFrom_spec (fun x hx => (h.waiting.waiting x hx).2) hle hnew
  rw [hux] at hbase
  obtain ⟨hmur, hmux, hmuh, htimer, hsub, hmem⟩ :=
    reassembleSnInterval_spec hur hbase (hlt.le.trans hge) hinterval
  change middle.vrUr = newVrUr at hmur
  change middle.vrUh = s.vrUh at hmuh
  have hlow : middle.windowLow = s.windowLow := by
    unfold windowLow
    rw [hmuh]
  have hposition : ∀ x, middle.position x = s.position x := fun x => by
    unfold position
    rw [hlow]
  have hwaiting : middle.Waiting := by
    refine ⟨h.waiting.sorted.sublist hsub, fun k hk => h.waiting.small k (hsub.subset hk),
      fun x hx => ?_, ?_⟩
    · obtain ⟨hin, hout⟩ := (hmem x).mp hx
      obtain ⟨habove, hinside⟩ := h.waiting.waiting x hin
      rw [hposition, hposition, hmur]
      refine ⟨lt_of_le_of_ne (Nat.not_lt.mp fun hbelow => hout ⟨habove.le, hbelow⟩) fun heq => ?_,
        hinside⟩
      rw [← Circular.eq_of_val_sub_eq heq] at hin
      exact habsent hin
    · rw [hposition, hmur]
      exact hle'
  have hmurBase : middle.vrUr.modulusBase = .ofNat middle.windowLow.val := by
    rw [hmur, hlow]
    exact hbase
  have hmuhBase : middle.vrUh.modulusBase = .ofNat middle.windowLow.val := by
    rw [hmuh, hlow]
    exact huh
  have hgt := SequenceNumber10.gt_iff_above hmuhBase hmurBase
  change _ ↔ middle.position middle.vrUr.value < middle.position middle.vrUh.value at hgt
  rw [position_vrUh] at hgt
  rw [← hlast]
  split
  · next hstart =>
    exact ⟨⟨hwaiting.sorted, hwaiting.small, hwaiting.waiting, hwaiting.vrUr⟩,
      fun _ => ⟨hmurBase, hmuhBase, hmuhBase, by rw [position_vrUh]; exact hgt.mp hstart,
        position_vrUh.le⟩, nofun⟩
  · next hstop =>
    refine ⟨hwaiting, fun hrun => ?_, fun _ => ?_⟩
    · rw [htimer] at hrun
      cases hrun
    · exact eq_vrUh_of_position (le_antisymm hwaiting.vrUr
        (Nat.not_lt.mp fun hbelow => hstop (hgt.mpr hbelow)))

theorem normal_new : new.Normal where
  waiting := ⟨List.Pairwise.nil, nofun, nofun, by decide⟩
  running := nofun
  stopped := fun _ => rfl

/-- In a run of regular events every state is normalised. -/
theorem throughout_normalised {events : List UmReception}
    (hregular : EachStep step Regular new events) :
    Throughout step Normalised new events := by
  have hnormal : Throughout step Normal new events := by
    refine throughout_of_eachStep (fun s event s' h hstep hcond => ?_) normal_new
      hregular
    cases event with
    | receivePdu packet =>
        exact h.doReceivePdu (fun header payload hpdu => hcond packet header payload rfl hpdu) hstep
    | expireReorderingTimer =>
        change (if s.reorderingTimer then s.expireReorderingTimer else none) = some s' at hstep
        split at hstep
        · next hrunning => exact h.expireReorderingTimer hrunning hstep
        · cases hstep
  exact fun done rest s heq hrun => (hnormal done rest s heq hrun).normalised

/-- A PDU with the number `sequenceNumber` that holds an SDU of one byte. -/
def smallPdu (sequenceNumber : Fin 1024) : UmReception :=
  .receivePdu ((⟨(true, true), sequenceNumber, [false], []⟩ : LteRlcHeader).serialize ++ [7])

/-- One number is skipped, and the timer expires. -/
theorem throughout_normalised_skip :
    Throughout step Normalised new [smallPdu 1, .expireReorderingTimer] := by
  refine throughout_normalised (eachStep_cons.mpr fun _ _ => ⟨?_,
    eachStep_cons.mpr fun _ _ => ⟨fun _ _ _ hevent => UmReception.noConfusion hevent,
      eachStep_nil _⟩⟩)
  intro packet header payload hevent hpdu
  obtain rfl := UmReception.receivePdu.inj hevent
  have hnumber : (LteRlcHeader.deserialize
      ((⟨(true, true), 1, [false], []⟩ : LteRlcHeader).serialize ++ [7])).map
        (fun p => p.1.sequenceNumber) = some 1 := by decide
  rw [hpdu] at hnumber
  rw [show header.sequenceNumber = 1 from Option.some.inj hnumber]
  refine Or.inr ⟨fun x y hx => absurd hx List.not_mem_nil, 0, by decide, by decide, ?_⟩
  rintro ⟨heq | hmem, -⟩
  · exact absurd heq (by decide)
  · exact absurd hmem List.not_mem_nil

/-- The number 1023 stays in the buffer when the window begins with 0. -/
theorem not_throughout_normalised : ¬ Throughout step Normalised new
    [smallPdu 511, smallPdu 1023, smallPdu 0, smallPdu 511] := by
  intro hall
  have hrun : (run step new [smallPdu 511, smallPdu 1023, smallPdu 0, smallPdu 511]).map
      (fun s => (s.numbers, s.vrUh.value)) = some ([511, 1023], 512) := by decide +kernel
  obtain ⟨s, hs, hpair⟩ := Option.map_eq_some_iff.mp hrun
  obtain ⟨hnumbers, hvrUh⟩ := Prod.mk.inj hpair
  have hin := ((hall _ [] s rfl hs).window 1023 (by rw [hnumbers]; decide)).2
  rw [isInside_iff] at hin
  unfold position windowLow at hin
  rw [hvrUh] at hin
  exact absurd hin (by decide)

end UmReceiver

end Ns3Rdma.Lte
