import Ns3Rdma.Buffer.Pool

/-! # Buffers are byte lists

Every call changes the list of its own instance as the list operation of that name does, and no
other list, under conditions on its arguments and on the offsets. They hold along every run whose
calls meet the conditions, so such a run neither fails an assertion nor leaves the allocated
bytes. -/

namespace Ns3Rdma

open Memory BufferHeap StepSystem

namespace BufferPool

variable {ι : Type*} [DecidableEq ι] {fresh : ℕ → ℕ → UInt8} {s : BufferPool ι} {x y : ι}

/-! ## Conditions on a call -/

/-- The instances of the call exist, and a write stays within the bytes just reserved. -/
def Permitted (s : BufferPool ι) : Event ι → Prop
  | .create x _ => s.inst.entry x = none
  | .copy x y | .createFragment x y _ _ | .createFullCopy x y =>
      s.inst.entry x = none ∧ ∃ o, s.inst.entry y = some o
  | .assign x y | .append x y => (∃ b, s.inst.entry x = some b) ∧ ∃ o, s.inst.entry y = some o
  | .addAtStart x _ | .addAtEnd x _ | .removeAtStart x _ | .removeAtEnd x _ | .destroy x =>
      ∃ b, s.inst.entry x = some b
  | .writeStart x off call =>
      ∃ b, s.inst.entry x = some b ∧ off.toNat + call.written.length ≤ b.front
  | .writeEnd x off call => ∃ b, s.inst.entry x = some b ∧ off.toNat ≤ b.back ∧
      call.written.length ≤ off.toNat

/-- No offset that the call computes reaches 2^32. -/
def OffsetsFit (s : BufferPool ι) : Event ι → Prop
  | .create _ zeroSize => (min 1 s.heap.recommendedStart).toNat + zeroSize.toNat < 2 ^ 32
  | .addAtStart x n => ∀ b, s.inst.entry x = some b →
      b.end'.toNat - b.start.toNat + n.toNat < 2 ^ 32
  | .addAtEnd x n => ∀ b, s.inst.entry x = some b → b.FitsAtEnd s.heap n
  | .removeAtStart x n => ∀ b, s.inst.entry x = some b → b.start.toNat + n.toNat < 2 ^ 32
  | .createFragment _ y start _ => ∀ o, s.inst.entry y = some o →
      o.start.toNat + start.toNat < 2 ^ 32
  | .createFullCopy _ y => ∀ o, s.inst.entry y = some o →
      o.end'.toNat - o.start.toNat + 1 < 2 ^ 32
  | .append x y => ∀ b o, s.inst.entry x = some b → s.inst.entry y = some o →
      b.end'.toNat + (o.end'.toNat - o.start.toNat) + 1 < 2 ^ 32
  | _ => True

/-- Moreover all references can be counted. -/
def Fits (s : BufferPool ι) (e : Event ι) : Prop :=
  s.inst.live.card + 5 < 2 ^ 32 ∧ s.OffsetsFit e

/-- An appended buffer is appended where the source gets it right. -/
def Joins (s : BufferPool ι) : Event ι → Prop
  | .append x y => ∀ b o, s.inst.entry x = some b → s.inst.entry y = some o →
      Buffer.AppendsRight s.heap b.toBuffer o.toBuffer (decide (x = y))
  | _ => True

/-- A fragment lies within its buffer. -/
def CutsInside (s : BufferPool ι) : Event ι → Prop
  | .createFragment _ y start length => ∀ o, s.inst.entry y = some o →
      o.FragmentFits start length
  | _ => True

instance (s : BufferPool ι) (x : ι) : Decidable (∃ b, s.inst.entry x = some b) :=
  decidable_of_iff _ Option.isSome_iff_exists

instance (s : BufferPool ι) (e : Event ι) : Decidable (s.Permitted e) :=
  match e with
  | .create x _ => inferInstanceAs (Decidable (s.inst.entry x = none))
  | .copy x y | .createFragment x y _ _ | .createFullCopy x y => inferInstanceAs
      (Decidable (s.inst.entry x = none ∧ ∃ o, s.inst.entry y = some o))
  | .assign x y | .append x y => inferInstanceAs
      (Decidable ((∃ b, s.inst.entry x = some b) ∧ ∃ o, s.inst.entry y = some o))
  | .addAtStart x _ | .addAtEnd x _ | .removeAtStart x _ | .removeAtEnd x _ | .destroy x =>
      inferInstanceAs (Decidable (∃ b, s.inst.entry x = some b))
  | .writeStart x off call => inferInstanceAs (Decidable (∃ b ∈ s.inst.entry x,
      off.toNat + call.written.length ≤ b.front))
  | .writeEnd x off call => inferInstanceAs (Decidable (∃ b ∈ s.inst.entry x,
      off.toNat ≤ b.back ∧ call.written.length ≤ off.toNat))

instance (s : BufferPool ι) (e : Event ι) : Decidable (s.OffsetsFit e) :=
  match e with
  | .create _ zeroSize => inferInstanceAs (Decidable
      ((min 1 s.heap.recommendedStart).toNat + zeroSize.toNat < 2 ^ 32))
  | .addAtStart x n => inferInstanceAs (Decidable (∀ b ∈ s.inst.entry x,
      b.end'.toNat - b.start.toNat + n.toNat < 2 ^ 32))
  | .addAtEnd x n => inferInstanceAs (Decidable (∀ b ∈ s.inst.entry x,
      b.end'.toNat - b.start.toNat + n.toNat < 2 ^ 32 ∧
        (b.getInternalEnd + n ≤ (s.heap.data b.data).size → b.end'.toNat + n.toNat < 2 ^ 32)))
  | .removeAtStart x n => inferInstanceAs (Decidable (∀ b ∈ s.inst.entry x,
      b.start.toNat + n.toNat < 2 ^ 32))
  | .createFragment _ y start _ => inferInstanceAs (Decidable (∀ o ∈ s.inst.entry y,
      o.start.toNat + start.toNat < 2 ^ 32))
  | .createFullCopy _ y => inferInstanceAs (Decidable (∀ o ∈ s.inst.entry y,
      o.end'.toNat - o.start.toNat + 1 < 2 ^ 32))
  | .append x y => decidable_of_iff (∀ b ∈ s.inst.entry x, ∀ o ∈ s.inst.entry y,
      b.end'.toNat + (o.end'.toNat - o.start.toNat) + 1 < 2 ^ 32)
        ⟨fun h b o hb ho => h b hb o ho, fun h b hb o ho => h b o hb ho⟩
  | .copy _ _ | .assign _ _ | .removeAtEnd _ _ | .writeStart _ _ _ | .writeEnd _ _ _ | .destroy _ =>
      .isTrue trivial

instance (s : BufferPool ι) (e : Event ι) : Decidable (s.Fits e) :=
  inferInstanceAs (Decidable (_ ∧ _))

instance (h : BufferHeap) (b o : Buffer) : Decidable (Buffer.SharesGrowth h b o) :=
  inferInstanceAs (Decidable (_ ∧ _ ∧ _ ∧ _ ∧ _))

instance (h : BufferHeap) (b o : Buffer) (self : Bool) :
    Decidable (Buffer.AppendsRight h b o self) :=
  inferInstanceAs (Decidable (if Buffer.zeroAreasMeet h b o then _ else _))

instance (s : BufferPool ι) (e : Event ι) : Decidable (s.Joins e) :=
  match e with
  | .append x y => decidable_of_iff (∀ b ∈ s.inst.entry x, ∀ o ∈ s.inst.entry y,
      Buffer.AppendsRight s.heap b.toBuffer o.toBuffer (decide (x = y)))
        ⟨fun h b o hb ho => h b hb o ho, fun h b hb o ho => h b o hb ho⟩
  | .create _ _ | .copy _ _ | .createFragment _ _ _ _ | .createFullCopy _ _ | .assign _ _
  | .addAtStart _ _ | .addAtEnd _ _ | .removeAtStart _ _ | .removeAtEnd _ _ | .destroy _
  | .writeStart _ _ _ | .writeEnd _ _ _ => .isTrue trivial

/-! ## The list machine -/

/-- What a call does to the list of its instance. Reserved bytes may have any value. -/
def Becomes (l : ι → Option (List UInt8)) : Event ι → Option (List UInt8) → Prop
  | .create _ zeroSize, next => next = some (List.replicate zeroSize.toNat 0)
  | .copy _ y, next | .assign _ y, next | .createFullCopy _ y, next => next = l y
  | .createFragment _ y start length, next =>
      next = (l y).map fun bytes => (bytes.drop start.toNat).take length.toNat
  | .addAtStart x n, next =>
      ∃ added, added.length = n.toNat ∧ next = (l x).map fun bytes => added ++ bytes
  | .addAtEnd x n, next =>
      ∃ added, added.length = n.toNat ∧ next = (l x).map fun bytes => bytes ++ added
  | .writeStart x off call, next =>
      next = (l x).map fun bytes => splice bytes off.toNat call.written
  | .writeEnd x off call, next =>
      next = (l x).map fun bytes => splice bytes (bytes.length - off.toNat) call.written
  | .removeAtStart x n, next => next = (l x).map fun bytes => bytes.drop n.toNat
  | .removeAtEnd x n, next => next = (l x).map fun bytes => bytes.take (bytes.length - n.toNat)
  | .append x y, next =>
      next = (l x).bind fun bytes => (l y).map fun behind => bytes ++ behind
  | .destroy _, next => next = none

/-- One step of the list machine: the other lists stay. -/
def ListStep (l : ι → Option (List UInt8)) (e : Event ι) (l' : ι → Option (List UInt8)) : Prop :=
  (∀ z, z ≠ e.target → l' z = l z) ∧ Becomes l e (l' e.target)

/-! ## One call -/

/-- All instances share their objects as they should. -/
def Sound (s : BufferPool ι) : Prop := s.heap.Sound s.inst.live

/-- The instance `x` may change, the lists of the others may not. -/
structure Changes (s : BufferPool ι) (x : ι) (s' : BufferPool ι) (next : Option (List UInt8)) :
    Prop where
  sound : s'.Sound
  others : ∀ z, z ≠ x → s'.lists z = s.lists z
  target : s'.lists x = next

theorem Sound.of_entry (hs : s.Sound) {b : Handle} (hx : s.inst.entry x = some b) :
    s.heap.Sound (b ::ₘ s.inst.others x) := by
  unfold Sound at hs
  rwa [Registry.live_eq_cons hx] at hs

omit [DecidableEq ι] in
theorem lists_of_entry {b : Handle} (hx : s.inst.entry x = some b) :
    s.lists x = some (s.heap.viewOf b.toBuffer) := by
  unfold lists
  rw [hx, Option.map_some]

theorem put_changes {heap : BufferHeap} {b : Handle}
    (hsound : heap.Sound (b ::ₘ s.inst.others x)) (hkeeps : s.heap.Keeps heap (s.inst.others x)) :
    s.Changes x (s.put heap x b) (some (heap.viewOf b.toBuffer)) := by
  refine ⟨?_, fun z hz => ?_, ?_⟩
  · unfold Sound put
    dsimp only
    rwa [Registry.put_live]
  · unfold lists put
    dsimp only
    rw [Registry.put_entry_of_ne hz]
    cases hentry : s.inst.entry z with
    | none => rfl
    | some c =>
        rw [Option.map_some, Option.map_some, hkeeps c (Registry.mem_others hz hentry)]
  · exact lists_of_entry (Registry.put_entry_self s.inst x b)

theorem settle_of_entry {o : Handle} (hy : s.inst.entry y = some o) :
    s.settle y = s.put s.heap y (Handle.plain o.toBuffer) := by
  unfold settle
  rw [hy, Option.map_some, Option.getD_some]

/-- Settling an instance changes no list. -/
theorem settle_changes (hs : s.Sound) {o : Handle} (hy : s.inst.entry y = some o) :
    s.Changes y (s.settle y) (s.lists y) := by
  rw [settle_of_entry hy, lists_of_entry hy]
  exact put_changes (hs.of_entry hy).plain (Keeps.refl s.heap _)

theorem settle_lists (hs : s.Sound) {o : Handle} (hy : s.inst.entry y = some o) :
    (s.settle y).lists = s.lists := by
  have hchanges := settle_changes hs hy
  funext z
  by_cases hz : z = y
  · rw [hz, hchanges.target]
  · exact hchanges.others z hz

/-- A change of an instance after another one has been settled. -/
theorem Changes.of_settle {s' : BufferPool ι} {next : Option (List UInt8)} (hs : s.Sound)
    {o : Handle} (hy : s.inst.entry y = some o) (h : (s.settle y).Changes x s' next) :
    s.Changes x s' next := by
  refine ⟨h.sound, fun z hz => ?_, h.target⟩
  rw [h.others z hz, settle_lists hs hy]

theorem derive_changes (hs : s.Sound) (hx : s.inst.entry x = none) {o : Handle}
    (hy : s.inst.entry y = some o) {f : BufferHeap → Buffer → Option (BufferHeap × Buffer)}
    {heap : BufferHeap} {next : Buffer} (hf : f s.heap o.toBuffer = some (heap, next))
    (hsound : heap.Sound (Handle.plain next ::ₘ Handle.plain o.toBuffer ::ₘ s.inst.others y))
    (hkeeps : s.heap.Keeps heap (Handle.plain o.toBuffer ::ₘ s.inst.others y)) :
    ∃ s', s.derive x y f = some s' ∧ s.Changes x s' (some (heap.viewOf next)) := by
  have hxy : x ≠ y := by
    rintro rfl
    rw [hx] at hy
    exact absurd hy (by simp)
  have hothers : (s.settle y).inst.others x = Handle.plain o.toBuffer ::ₘ s.inst.others y := by
    rw [settle_of_entry hy]
    unfold put
    dsimp only
    rw [Registry.others_of_none (by rw [Registry.put_entry_of_ne hxy, hx]), Registry.put_live]
  refine ⟨_, ?_, Changes.of_settle hs hy (put_changes (b := Handle.plain next) ?_ ?_)⟩
  · unfold derive
    rw [if_pos hx, hy, Option.bind_some, hf, Option.map_some]
  · rwa [hothers]
  · rw [hothers, settle_of_entry hy]
    exact hkeeps

/-- The heap, seen from two instances, of which the second one is settled. -/
theorem Sound.of_pair (hs : s.Sound) (hxy : x ≠ y) {b o : Handle}
    (hx : s.inst.entry x = some b) (hy : s.inst.entry y = some o) :
    ∃ rest, (s.settle y).inst.others x = Handle.plain o.toBuffer ::ₘ rest ∧
      s.heap.Sound (b ::ₘ Handle.plain o.toBuffer ::ₘ rest) ∧
        rest.card + 2 = s.inst.live.card := by
  have hsettled := (settle_changes hs hy).sound
  have hxs : (s.settle y).inst.entry x = some b := by
    rw [settle_of_entry hy]
    exact (Registry.put_entry_of_ne hxy _).trans hx
  have hys : (s.settle y).inst.entry y = some (Handle.plain o.toBuffer) := by
    rw [settle_of_entry hy]
    exact Registry.put_entry_self _ _ _
  obtain ⟨rest, hrest⟩ := Registry.exists_others hxy.symm hys
  have hsound := hsettled.of_entry hxs
  have hcard : (s.settle y).inst.live.card = s.inst.live.card := by
    rw [settle_of_entry hy]
    unfold put
    dsimp only
    rw [Registry.put_live, Registry.live_eq_cons hy, Multiset.card_cons, Multiset.card_cons]
  rw [Registry.live_eq_cons hxs, hrest, Multiset.card_cons, Multiset.card_cons] at hcard
  rw [hrest, settle_of_entry hy] at hsound
  exact ⟨rest, hrest, hsound, hcard⟩

/-- `x = y`, where `x` and `y` may be the same instance. -/
theorem assign_changes (hs : s.Sound) (hcard : s.inst.live.card + 2 < 2 ^ 32) {b o : Handle}
    (hx : s.inst.entry x = some b) (hy : s.inst.entry y = some o) :
    s.Changes x ((s.settle y).put (b.assign s.heap o.toBuffer).1 x (Handle.plain o.toBuffer))
      (s.lists y) := by
  rw [lists_of_entry hy]
  by_cases hxy : x = y
  · subst hxy
    obtain rfl := Option.some.inj (hx.symm.trans hy)
    have hothers : (s.settle x).inst.others x = s.inst.others x := by
      rw [settle_of_entry hx]
      exact Registry.put_others _ _ _
    have hassign : (b.assign s.heap b.toBuffer).1 = s.heap.recommend b.maxZeroAreaStart := by
      unfold Buffer.assign
      dsimp only
      rw [if_neg (not_not.mpr rfl)]
    have hplain := (hs.of_entry hx).plain
    rw [hassign]
    refine Changes.of_settle hs hx (put_changes (b := Handle.plain b.toBuffer) ?_ ?_)
    · rw [hothers]
      exact hplain.recommend _
    · rw [hothers, settle_of_entry hx]
      exact fun _ _ => rfl
  · obtain ⟨rest, hothers, hsound, hrest⟩ := hs.of_pair hxy hx hy
    obtain ⟨hassigned, hkeeps, hview⟩ := Buffer.assign_spec hsound (by omega)
    have hview : (b.assign s.heap o.toBuffer).1.viewOf o.toBuffer = s.heap.viewOf o.toBuffer := hview
    rw [← hview]
    refine Changes.of_settle hs hy (put_changes (b := Handle.plain o.toBuffer) ?_ ?_)
    · rw [hothers]
      exact hassigned
    · rw [hothers, settle_of_entry hy]
      exact hkeeps

/-- `x.AddAtEnd (y)`, where `x` and `y` may be the same instance. -/
theorem append_changes (fresh : ℕ → ℕ → UInt8) (hs : s.Sound)
    (hcard : s.inst.live.card + 5 < 2 ^ 32) {b o : Handle} (hx : s.inst.entry x = some b)
    (hy : s.inst.entry y = some o)
    (hfits : b.end'.toNat + (o.end'.toNat - o.start.toNat) + 1 < 2 ^ 32)
    (hright : Buffer.AppendsRight s.heap b.toBuffer o.toBuffer (decide (x = y))) :
    ∃ heap next, b.append fresh s.heap o.toBuffer (decide (x = y)) = some (heap, next) ∧
      s.Changes x ((s.settle y).put heap x (Handle.plain next))
        (some (s.heap.viewOf b.toBuffer ++ s.heap.viewOf o.toBuffer)) ∧
          next.end'.toNat ≤ b.end'.toNat + (o.end'.toNat - o.start.toNat) + 1 := by
  by_cases hxy : x = y
  · subst hxy
    obtain rfl := Option.some.inj (hx.symm.trans hy)
    rw [decide_eq_true rfl] at hright ⊢
    have hothers : (s.settle x).inst.others x = s.inst.others x := by
      rw [settle_of_entry hx]
      exact Registry.put_others _ _ _
    have hlive := Registry.live_eq_cons hx
    rw [hlive, Multiset.card_cons] at hcard
    obtain ⟨heap, next, happend, hsound, hkeeps, hview, hnext⟩ :=
      Buffer.appendSelf_spec fresh (hs.of_entry hx) (by omega) hfits hright
    refine ⟨heap, next, happend, hview ▸ Changes.of_settle hs hx
      (put_changes (b := Handle.plain next) ?_ ?_), hnext⟩
    · rwa [hothers]
    · rw [hothers, settle_of_entry hx]
      exact hkeeps
  · rw [decide_eq_false hxy] at hright ⊢
    obtain ⟨rest, hothers, hsound, hrest⟩ := hs.of_pair hxy hx hy
    obtain ⟨heap, next, happend, hsound, hkeeps, hview, hnext⟩ :=
      Buffer.append_spec fresh hsound (by omega) hfits hright
    have hview : heap.viewOf next = s.heap.viewOf b.toBuffer ++ s.heap.viewOf o.toBuffer := hview
    rw [← hview]
    refine ⟨heap, next, happend, ?_, hnext⟩
    refine Changes.of_settle hs hy (put_changes (b := Handle.plain next) ?_ ?_)
    · rw [hothers]
      exact hsound
    · rw [hothers, settle_of_entry hy]
      exact hkeeps

/-- Every call that meets its conditions succeeds, and changes its own instance only. -/
theorem step_spec (fresh : ℕ → ℕ → UInt8) (hs : s.Sound) {e : Event ι}
    (hperm : s.Permitted e) (hfits : s.Fits e) (hjoins : s.Joins e) :
    ∃ s' next, step fresh s e = some s' ∧ s.Changes e.target s' next ∧
      (s.CutsInside e → Becomes s.lists e next) := by
  obtain ⟨hcard, hfits⟩ := hfits
  cases e with
  | create x zeroSize =>
      obtain ⟨hsound, hkeeps, hview, -⟩ := Buffer.initializeBuffer_spec fresh hs hfits
      rw [← Registry.others_of_none hperm] at hsound hkeeps
      refine ⟨_, _, if_pos hperm, put_changes hsound hkeeps, fun _ => ?_⟩
      exact congrArg some hview
  | copy x y =>
      obtain ⟨hx, o, hy⟩ := hperm
      have hlive := Registry.live_eq_cons hy
      rw [hlive, Multiset.card_cons] at hcard
      have ho := hs.of_entry hy
      have hshrinks := Buffer.shrinksTo_copy ho.within.ordered o.zeroAreaStart
      obtain ⟨hsound, hkeeps⟩ := Buffer.copy_spec ho hshrinks (by omega)
      obtain ⟨s', hstep, hchanges⟩ :=
        derive_changes (f := fun h o => some (o.copy h)) hs hx hy rfl hsound hkeeps.plain
      refine ⟨s', _, hstep, hchanges, fun _ => ?_⟩
      change some _ = s.lists y
      rw [lists_of_entry hy]
      exact congrArg some hkeeps.head
  | assign x y =>
      obtain ⟨⟨b, hx⟩, o, hy⟩ := hperm
      refine ⟨_, _, ?_, assign_changes hs (by omega) hx hy, fun _ => rfl⟩
      change ((s.inst.entry x).bind fun b => (s.inst.entry y).map fun o => _) = _
      rw [hx, Option.bind_some, hy, Option.map_some]
      rfl
  | createFragment x y start length =>
      obtain ⟨hx, o, hy⟩ := hperm
      have hlive := Registry.live_eq_cons hy
      rw [hlive, Multiset.card_cons] at hcard
      have ho := hs.of_entry hy
      obtain ⟨next, hcreate, hsound, hkeeps, hview⟩ :=
        Buffer.createFragment_sound ho (by omega) length (hfits o hy)
      obtain ⟨s', hstep, hchanges⟩ :=
        derive_changes (f := fun h o => o.createFragment h start length) hs hx hy hcreate hsound
          hkeeps.plain
      refine ⟨s', _, hstep, hchanges, fun hcuts => ?_⟩
      change _ = (s.lists y).map _
      rw [hview, Buffer.createFragment_slice ho.within.ordered (hcuts o hy) ho.length_viewOf,
        lists_of_entry hy, Option.map_some]
  | createFullCopy x y =>
      obtain ⟨hx, o, hy⟩ := hperm
      have hlive := Registry.live_eq_cons hy
      rw [hlive, Multiset.card_cons] at hcard
      obtain ⟨heap, next, hcreate, hcopied⟩ :=
        Buffer.createFullCopy_spec fresh (hs.of_entry hy) (by omega) (hfits o hy)
      obtain ⟨s', hstep, hchanges⟩ :=
        derive_changes (f := fun h o => o.createFullCopy fresh h) hs hx hy hcreate hcopied.sound
          hcopied.keeps
      refine ⟨s', _, hstep, hchanges, fun _ => ?_⟩
      change _ = s.lists y
      rw [hcopied.viewOf_eq, lists_of_entry hy]
  | addAtStart x n =>
      obtain ⟨b, hx⟩ := hperm
      obtain ⟨heap, next, resized, added, hadd, -, hsound, hkeeps, hlength, hview⟩ :=
        Buffer.addAtStart_spec fresh (hs.of_entry hx) (hfits b hx)
      refine ⟨_, _, ?_, put_changes hsound hkeeps, fun _ => ⟨added, hlength, ?_⟩⟩
      · change (s.inst.entry x).bind _ = _
        rw [hx, Option.bind_some, hadd, Option.map_some]
        rfl
      · rw [lists_of_entry hx, Option.map_some]
        exact congrArg some hview
  | addAtEnd x n =>
      obtain ⟨b, hx⟩ := hperm
      obtain ⟨heap, next, resized, added, hadd, -, -, hsound, hkeeps, hlength, hview⟩ :=
        Buffer.addAtEnd_spec fresh (hs.of_entry hx) (hfits b hx)
      refine ⟨_, _, ?_, put_changes hsound hkeeps, fun _ => ⟨added, hlength, ?_⟩⟩
      · change (s.inst.entry x).bind _ = _
        rw [hx, Option.bind_some, hadd, Option.map_some]
        rfl
      · rw [lists_of_entry hx, Option.map_some]
        exact congrArg some hview
  | writeStart x off call =>
      obtain ⟨b, hx, hinside⟩ := hperm
      obtain ⟨i, heap, hnext, hperform, hsound, hkeeps, hview⟩ :=
        Buffer.perform_start_spec (hs.of_entry hx) hinside
      refine ⟨_, _, ?_, put_changes hsound hkeeps, fun _ => ?_⟩
      · change (s.inst.entry x).bind _ = _
        rw [hx, Option.bind_some, hnext, Option.bind_some, hperform, Option.map_some]
        rfl
      · change _ = (s.lists x).map _
        rw [hview, lists_of_entry hx, Option.map_some]
  | writeEnd x off call =>
      obtain ⟨b, hx, hoff, hinside⟩ := hperm
      obtain ⟨i, heap, hprev, hperform, hsound, hkeeps, hview⟩ :=
        Buffer.perform_end_spec (hs.of_entry hx) hoff hinside
      refine ⟨_, _, ?_, put_changes hsound hkeeps, fun _ => ?_⟩
      · change (s.inst.entry x).bind _ = _
        rw [hx, Option.bind_some, hprev, Option.bind_some, hperform, Option.map_some]
        rfl
      · change _ = (s.lists x).map _
        rw [hview, lists_of_entry hx, Option.map_some]
  | removeAtStart x n =>
      obtain ⟨b, hx⟩ := hperm
      obtain ⟨next, hremove, hsound, hview⟩ :=
        Buffer.removeAtStart_sound (hs.of_entry hx) (hfits b hx)
      refine ⟨_, _, ?_, put_changes hsound (Keeps.refl s.heap _), fun _ => ?_⟩
      · change (s.inst.entry x).bind _ = _
        rw [hx, Option.bind_some, hremove, Option.map_some]
        rfl
      · change some (s.heap.viewOf next) = (s.lists x).map _
        rw [hview, lists_of_entry hx, Option.map_some]
  | removeAtEnd x n =>
      obtain ⟨b, hx⟩ := hperm
      obtain ⟨hsound, hview⟩ := Buffer.removeAtEnd_sound (hs.of_entry hx) n
      refine ⟨_, _, ?_, put_changes hsound (Keeps.refl s.heap _), fun _ => ?_⟩
      · change (s.inst.entry x).map _ = _
        rw [hx, Option.map_some]
        rfl
      · change some (s.heap.viewOf (b.removeAtEnd n)) = (s.lists x).map _
        rw [hview, lists_of_entry hx, Option.map_some]
  | append x y =>
      obtain ⟨⟨b, hx⟩, o, hy⟩ := hperm
      obtain ⟨heap, next, happend, hchanges, -⟩ := append_changes fresh hs hcard hx hy
        (hfits b o hx hy) (hjoins b o hx hy)
      refine ⟨_, _, ?_, hchanges, fun _ => ?_⟩
      · change (s.inst.entry x).bind (fun b => (s.inst.entry y).bind fun o => _) = _
        rw [hx, Option.bind_some, hy, Option.bind_some, happend, Option.map_some]
      · change _ = (s.lists x).bind fun bytes => (s.lists y).map _
        rw [lists_of_entry hx, lists_of_entry hy, Option.bind_some, Option.map_some]
  | destroy x =>
      obtain ⟨b, hx⟩ := hperm
      obtain ⟨hsound, hkeeps⟩ := Buffer.destroy_spec (hs.of_entry hx)
      refine ⟨⟨b.destroy s.heap, s.inst.drop x⟩, none, ?_, ⟨?_, fun z hz => ?_, ?_⟩, fun _ => rfl⟩
      · change (s.inst.entry x).map _ = _
        rw [hx, Option.map_some]
      · unfold Sound
        rwa [Registry.drop_live]
      · change z ≠ x at hz
        unfold lists
        dsimp only
        rw [Registry.drop_entry_of_ne hz]
        cases hentry : s.inst.entry z with
        | none => rfl
        | some c =>
            rw [Option.map_some, Option.map_some, hkeeps c (Registry.mem_others hz hentry)]
      · change ((s.inst.drop x).entry x).map _ = _
        rw [Registry.drop_entry_self, Option.map_none]

/-! ## Runs -/

omit [DecidableEq ι] in
theorem start_sound : (start : BufferPool ι).Sound := by
  have hnone : ∀ b : Handle, b ∉ (start : BufferPool ι).inst.live := by
    intro b hb
    obtain ⟨x, hx⟩ := Registry.mem_live.mp hb
    exact absurd hx (by simp [start, Registry.empty])
  exact ⟨fun b hb => absurd hb (hnone b), fun b hb => absurd hb (hnone b)⟩

/-- The condition under which a call does to the lists what its name says. -/
def Meets (s : BufferPool ι) (e : Event ι) : Prop :=
  s.Permitted e ∧ s.Fits e ∧ s.Joins e ∧ s.CutsInside e

theorem step_sound {s' : BufferPool ι} {e : Event ι} (hs : s.Sound)
    (hstep : step fresh s e = some s') (hperm : s.Permitted e) (hfits : s.Fits e)
    (hjoins : s.Joins e) : s.Changes e.target s' (s'.lists e.target) := by
  obtain ⟨next, list, hnext, hchanges, -⟩ := step_spec fresh hs hperm hfits hjoins
  obtain rfl := Option.some.inj (hstep.symm.trans hnext)
  exact ⟨hchanges.sound, hchanges.others, rfl⟩

/-- The objects are shared as they should in all states of a run. -/
theorem run_sound {events : List (Event ι)}
    (hmeet : EachStep (step fresh) (fun s e _ => s.Permitted e ∧ s.Fits e ∧ s.Joins e)
      start events) : Throughout (step fresh) Sound start events :=
  throughout_of_eachStep
    (fun _ _ _ hs hstep hcond => (step_sound hs hstep hcond.1 hcond.2.1 hcond.2.2).sound)
    start_sound hmeet

/-- Two buffers of zeros, one of them with bytes behind them, and a part of a copy. -/
def zerosAndTrailer : List (Event ℕ) :=
  [.create 0 10, .create 1 10, .addAtEnd 1 5, .writeEnd 1 5 (.bytes [1, 2, 3, 4, 5]), .copy 2 1,
    .removeAtStart 2 12]

theorem zerosAndTrailer_meets :
    EachStep (step fun _ _ => 0) (fun s e _ => s.Meets e) start zerosAndTrailer := by
  refine eachStep_cons.mpr fun s₁ h₁ =>
    ⟨⟨rfl, ⟨by decide, ?_⟩, trivial, trivial⟩, ?_⟩
  · change UInt32.toNat _ + UInt32.toNat _ < _
    decide
  obtain rfl := Option.some.inj h₁
  refine eachStep_cons.mpr fun s₂ h₂ =>
    ⟨⟨rfl, ⟨by decide, ?_⟩, trivial, trivial⟩, ?_⟩
  · change UInt32.toNat _ + UInt32.toNat _ < _
    decide
  obtain rfl := Option.some.inj h₂
  refine eachStep_cons.mpr fun s₃ h₃ =>
    ⟨⟨⟨_, rfl⟩, ⟨by decide, fun b hb => ?_⟩, trivial, trivial⟩, ?_⟩
  · obtain rfl := Option.some.inj hb
    exact ⟨by decide, fun _ => by decide⟩
  obtain rfl := Option.some.inj h₃
  refine eachStep_cons.mpr fun s₄ h₄ =>
    ⟨⟨⟨_, rfl, by decide, by decide⟩, ⟨by decide, trivial⟩, trivial, trivial⟩, ?_⟩
  obtain rfl := Option.some.inj h₄
  refine eachStep_cons.mpr fun s₅ h₅ =>
    ⟨⟨⟨rfl, _, rfl⟩, ⟨by decide, trivial⟩, trivial, trivial⟩, ?_⟩
  obtain rfl := Option.some.inj h₅
  refine eachStep_cons.mpr fun s₆ h₆ =>
    ⟨⟨⟨_, rfl⟩, ⟨by decide, fun b hb => ?_⟩, trivial, trivial⟩, eachStep_nil _⟩
  obtain rfl := Option.some.inj hb
  decide

/-- After a run whose calls meet the condition, the next one that does succeeds, and changes the
lists as the list machine does; and both functions `CopyData` return prefixes of the lists. -/
theorem calls_refine_lists (fresh : ℕ → ℕ → UInt8) {events : List (Event ι)} {s : BufferPool ι}
    (hmeet : EachStep (step fresh) (fun s e _ => s.Meets e) start events)
    (hrun : run (step fresh) start events = some s) :
    (∀ e, s.Meets e → ∃ s', step fresh s e = some s' ∧ ListStep s.lists e s'.lists) ∧
      ∀ x b l, s.inst.entry x = some b → s.lists x = some l → ∀ size : UInt32,
        b.copyDataToStream s.heap size = some (l.take size.toNat) ∧
          ∃ n : UInt32, b.copyData s.heap size = some (l.take size.toNat, n) ∧
            n.toNat = (l.take size.toNat).length := by
  have hsound : s.Sound := by
    refine (run_sound ?_).last hrun
    intro done event rest state next heq hrun hstep
    obtain ⟨hperm, hfits, hjoins, -⟩ := hmeet done event rest state next heq hrun hstep
    exact ⟨hperm, hfits, hjoins⟩
  constructor
  · rintro e ⟨hperm, hfits, hjoins, hcuts⟩
    obtain ⟨s', next, hstep, hchanges, hbecomes⟩ :=
      step_spec fresh hsound hperm hfits hjoins
    refine ⟨s', hstep, hchanges.others, ?_⟩
    rw [hchanges.target]
    exact hbecomes hcuts
  · intro x b l hx hl size
    obtain rfl := Option.some.inj ((lists_of_entry hx).symm.trans hl)
    exact ⟨Buffer.copyDataToStream_spec (hsound.of_entry hx) size,
      Buffer.copyData_spec (hsound.of_entry hx) size⟩

theorem calls_refine_zerosAndTrailer :
    ∃ s, run (step fun _ _ => 0) start zerosAndTrailer = some s ∧
      (∀ e, s.Meets e → ∃ s', step (fun _ _ => 0) s e = some s' ∧ ListStep s.lists e s'.lists) ∧
        ∀ x b l, s.inst.entry x = some b → s.lists x = some l → ∀ size : UInt32,
          b.copyDataToStream s.heap size = some (l.take size.toNat) ∧
            ∃ n : UInt32, b.copyData s.heap size = some (l.take size.toNat, n) ∧
              n.toNat = (l.take size.toNat).length :=
  ⟨_, rfl, calls_refine_lists (fun _ _ => 0) zerosAndTrailer_meets rfl⟩

/-- Zeros with bytes behind them are appended to zeros: the bytes go to the virtual offset 20 of an
object with 5 bytes. -/
theorem appendedTrailer_overflows :
    ∃ s, EachStep (step fun _ _ => 0) (fun s e _ => s.Permitted e ∧ s.Fits e) start
        zerosAndTrailer ∧
      run (step fun _ _ => 0) start zerosAndTrailer = some s ∧
        s.Permitted (.append 0 1) ∧ s.Fits (.append 0 1) ∧
          step (fun _ _ => 0) s (.append 0 1) = none := by
  refine ⟨_, ?_, rfl, ⟨⟨_, rfl⟩, _, rfl⟩, ⟨by decide, fun b o hb ho => ?_⟩, rfl⟩
  · intro done event rest state next heq hrun hstep
    obtain ⟨hperm, hfits, -⟩ := zerosAndTrailer_meets done event rest state next heq hrun hstep
    exact ⟨hperm, hfits⟩
  · obtain rfl := Option.some.inj hb
    obtain rfl := Option.some.inj ho
    decide

/-- A call changes the list of its own instance only. -/
theorem calls_isolated (fresh : ℕ → ℕ → UInt8) {events : List (Event ι)}
    (hmeet : EachStep (step fresh) (fun s e _ => s.Permitted e ∧ s.Fits e ∧ s.Joins e)
      start events) :
    EachStep (step fresh) (fun s e s' => ∀ z, z ≠ e.target → s'.lists z = s.lists z)
      start events := by
  intro done event rest state next heq hrun hstep
  obtain ⟨hperm, hfits, hjoins⟩ := hmeet done event rest state next heq hrun hstep
  have hsound := run_sound hmeet done (event :: rest) state heq hrun
  exact (step_sound hsound hstep hperm hfits hjoins).others

/-- An object with room at its end is shared by two copies. One of them appends to it in place, and
the other one then gets an object of its own. -/
def sharedTrailer : List (Event ℕ) :=
  [.create 0 10, .addAtEnd 0 8, .removeAtEnd 0 8, .addAtEnd 0 2, .writeEnd 0 2 (.bytes [1, 2]),
    .copy 1 0, .addAtEnd 1 3, .writeEnd 1 3 (.bytes [6, 7, 8]), .addAtEnd 0 2,
    .writeEnd 0 2 (.bytes [9, 10])]

theorem sharedTrailer_isolated :
    EachStep (step fun _ _ => 0)
      (fun s e s' => ∀ z, z ≠ e.target → s'.lists z = s.lists z) start sharedTrailer :=
  calls_isolated (fun _ _ => 0) (eachStep_of_take (by decide +kernel))

/-- Of two copies, one removes so many bytes that its start wraps around. The other one then
reserves bytes before its own start, and writes them. -/
def wrappedStart : List (Event ℕ) :=
  [.create 0 0, .addAtStart 0 12, .removeAtStart 0 10, .addAtStart 0 0, .copy 1 0,
    .removeAtStart 0 4294967291, .addAtStart 1 8, .writeStart 1 0 (.u8s 7 8)]

theorem wrappedStart_not_isolated :
    EachStep (step fun _ _ => 0) (fun s e _ => s.Permitted e) start wrappedStart ∧
      ¬ EachStep (step fun _ _ => 0)
        (fun s e s' => ∀ z, z ≠ e.target → s'.lists z = s.lists z) start wrappedStart := by
  constructor
  · refine eachStep_cons.mpr fun s₁ h₁ => ⟨rfl, ?_⟩
    obtain rfl := Option.some.inj h₁
    refine eachStep_cons.mpr fun s₂ h₂ => ⟨⟨_, rfl⟩, ?_⟩
    obtain rfl := Option.some.inj h₂
    refine eachStep_cons.mpr fun s₃ h₃ => ⟨⟨_, rfl⟩, ?_⟩
    obtain rfl := Option.some.inj h₃
    refine eachStep_cons.mpr fun s₄ h₄ => ⟨⟨_, rfl⟩, ?_⟩
    obtain rfl := Option.some.inj h₄
    refine eachStep_cons.mpr fun s₅ h₅ => ⟨⟨rfl, _, rfl⟩, ?_⟩
    obtain rfl := Option.some.inj h₅
    refine eachStep_cons.mpr fun s₆ h₆ => ⟨⟨_, rfl⟩, ?_⟩
    obtain rfl := Option.some.inj h₆
    refine eachStep_cons.mpr fun s₇ h₇ => ⟨⟨_, rfl⟩, ?_⟩
    obtain rfl := Option.some.inj h₇
    exact eachStep_cons.mpr fun s₈ h₈ =>
      ⟨⟨_, rfl, by decide⟩, eachStep_nil _⟩
  · intro h
    have hsame := h (wrappedStart.take 7) _ [] _ _ rfl rfl rfl 0 (by decide)
    exact absurd hsame (by decide)

end BufferPool

end Ns3Rdma
