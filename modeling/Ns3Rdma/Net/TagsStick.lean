import Ns3Rdma.Buffer.Offsets
import Ns3Rdma.Buffer.Refinement
import Ns3Rdma.Net.Coverage

/-! # Byte tags stick to their bytes

Every operation changes the tags of the bytes of its own packet as the list operation of that name
does, as long as the tags follow the bytes: a tag outside the packet does not cover new bytes, and
the tags of bytes whose offsets change unnoticed are those of the bytes that were there. -/

namespace Ns3Rdma

open Memory BufferHeap ByteTagList StepSystem

namespace PacketPool

variable {ι : Type*} [DecidableEq ι] {fresh : ℕ → ℕ → UInt8} {s s' : PacketPool ι} {x y : ι}

/-! ## Conditions on a call -/

/-- All references can be counted, and no offset of a buffer or a tag reaches 2^31. -/
def Fits (s : PacketPool ι) (e : Event ι) : Prop :=
  s.buffers.inst.live.card + 5 < 2 ^ 32 ∧
    match e with
    | .create _ size => 1 + size.toNat < 2 ^ 31
    | .createFrom _ buffer => 1 + buffer.length < 2 ^ 31
    | .createFragment _ _ start length => start.toNat + length.toNat < 2 ^ 32
    | .addHeader x header => ∀ b, s.buffers.inst.entry x = some b →
        b.end'.toNat + header.length < 2 ^ 31 ∧ (s.byteTags x).Moves header.length
    | .addTrailer x trailer => ∀ b, s.buffers.inst.entry x = some b →
        b.end'.toNat + trailer.length < 2 ^ 31
    | .addPaddingAtEnd x size => ∀ b, s.buffers.inst.entry x = some b →
        b.end'.toNat + size.toNat < 2 ^ 31 ∧ (s.byteTags x).Moves size.toNat
    | .removeHeader x n | .removeAtStart x n => ∀ b, s.buffers.inst.entry x = some b →
        b.start.toNat + n.toNat < 2 ^ 32
    | .addAtEnd x y => ∀ b o, s.buffers.inst.entry x = some b → s.buffers.inst.entry y = some o →
        b.end'.toNat + (o.end'.toNat - o.start.toNat) + 1 < 2 ^ 31 ∧ (s.byteTags x).Moves 1 ∧
          (s.byteTags y).Moves (b.end'.toNat + 1 - o.start.toNat)
    | .peekData x => ∀ b, s.buffers.inst.entry x = some b →
        b.end'.toNat + 1 < 2 ^ 31 ∧ (s.byteTags x).Moves 1
    | _ => True

/-- The tags are right after the call, although it does not move them with the bytes. -/
def TagsFollow (s : PacketPool ι) : Event ι → Prop
  | .addHeader x header => ∀ b, s.buffers.inst.entry x = some b →
      b.ReusesFront s.buffers.heap (UInt32.ofNat header.length) →
        (s.byteTags x).Clean (b.start.toNat - header.length) b.start.toNat
  | .addTrailer x trailer => ∀ b, s.buffers.inst.entry x = some b →
      b.GrowsInPlace s.buffers.heap (UInt32.ofNat trailer.length) →
        (s.byteTags x).Clean b.end'.toNat (b.end'.toNat + trailer.length)
  | .addPaddingAtEnd x size => ∀ b, s.buffers.inst.entry x = some b →
      (b.GrowsInPlace s.buffers.heap size →
        (s.byteTags x).Clean b.end'.toNat (b.end'.toNat + size.toNat)) ∧
      (¬ b.GrowsInPlace s.buffers.heap size →
        (s.byteTags x).AgreesBelow size.toNat b.start.toNat b.end'.toNat)
  | .removeHeader x n | .removeAtStart x n => ∀ b, s.buffers.inst.entry x = some b →
      (s.byteTags x).AgreesBelow (b.startShift n.toNat) (b.start.toNat + n.toNat) b.end'.toNat
  | .createFragment _ y start length => ∀ o, s.buffers.inst.entry y = some o →
      (s.byteTags y).AgreesBelow (o.startShift start.toNat) (o.start.toNat + start.toNat)
        (o.start.toNat + start.toNat + length.toNat)
  | .addAtEnd x y => s.buffers.Joins (.append x y) ∧ (x = y → s.byteTags x = [])
  | _ => True

/-- The condition under which the tags stick to their bytes. -/
def Meets (s : PacketPool ι) (e : Event ι) : Prop := s.Fits e ∧ s.TagsFollow e

/-! ## The machine on lists of tags -/

/-- The tags of the bytes of the packet after a call: new bytes have none. -/
def coverageAfter (c : ι → Option (List (List ByteTag))) : Event ι → Option (List (List ByteTag))
  | .create _ size => some (List.replicate size.toNat [])
  | .createFrom _ buffer => some (List.replicate buffer.length [])
  | .copy _ y => c y
  | .createFragment _ y start length => (c y).map fun l => (l.drop start.toNat).take length.toNat
  | .addHeader x header => (c x).map fun l => List.replicate header.length [] ++ l
  | .addTrailer x trailer => (c x).map fun l => l ++ List.replicate trailer.length []
  | .addPaddingAtEnd x size => (c x).map fun l => l ++ List.replicate size.toNat []
  | .addAtEnd x y => (c x).bind fun l => (c y).map fun m => l ++ m
  | .removeHeader x n | .removeAtStart x n => (c x).map fun l => l.drop n.toNat
  | .removeTrailer x n | .removeAtEnd x n => (c x).map fun l => l.take (l.length - n.toNat)
  | .addByteTag x tag => (c x).map fun l => l.map fun tags => tags ++ [tag]
  | .peekData x => c x
  | .destroy _ => none

/-- One step of that machine. -/
def CoverageStep (c : ι → Option (List (List ByteTag))) (e : Event ι)
    (c' : ι → Option (List (List ByteTag))) : Prop :=
  (∀ z, z ≠ e.target → c' z = c z) ∧ c' e.target = coverageAfter c e

/-! ## One call -/

/-- The buffers are shared as they should, and their offsets are below 2^31. -/
structure Sound (s : PacketPool ι) : Prop where
  buffers : s.buffers.Sound
  end_lt : ∀ x b, s.buffers.offsets x = some b → b.end'.toNat < 2 ^ 31

/-- The tags of the bytes of `x` may change, those of the others may not. -/
structure Changes (s : PacketPool ι) (x : ι) (s' : PacketPool ι)
    (next : Option (List (List ByteTag))) : Prop where
  sound : s'.Sound
  others : ∀ z, z ≠ x → s'.coverage z = s.coverage z
  target : s'.coverage x = next

theorem inRange_of_sound {h : BufferHeap} {b : Handle} {rest : Multiset Handle}
    (hs : h.Sound (b ::ₘ rest)) (hend : b.end'.toNat < 2 ^ 31) : b.InRange := by
  obtain ⟨hstart, hzero, hle⟩ := hs.within.ordered
  exact ⟨hstart.trans (hzero.trans hle), hend⟩

theorem Sound.inRange (hs : s.Sound) {b : Handle} (hx : s.buffers.inst.entry x = some b) :
    b.InRange :=
  inRange_of_sound (hs.buffers.of_entry hx) (hs.end_lt x _ (BufferPool.offsets_of_entry hx))

omit [DecidableEq ι] in
theorem coverage_eq (s : PacketPool ι) (x : ι) :
    s.coverage x = (s.buffers.offsets x).map fun b => coverageOf b (s.byteTags x) := by
  unfold coverage BufferPool.offsets
  rw [Option.map_map]
  rfl

omit [DecidableEq ι] in
theorem coverage_of_entry {b : Handle} (hx : s.buffers.inst.entry x = some b) :
    s.coverage x = some (coverageOf b.toBuffer (s.byteTags x)) := by
  unfold coverage
  rw [hx, Option.map_some]

/-- The buffer of `x` is at `next` now, and has `size` bytes. The others are where they were. -/
structure MovesTo (p : BufferPool ι) (x : ι) (p' : BufferPool ι) (next : Buffer) (size : ℕ) :
    Prop where
  sound : p'.Sound
  others : ∀ z, z ≠ x → p'.offsets z = p.offsets z
  target : p'.offsets x = some next
  inRange : next.InRange
  size_eq : next.end'.toNat - next.start.toNat = size

theorem movesTo_put {p : BufferPool ι} {heap : BufferHeap} {b : Handle} {size : ℕ}
    (hsound : heap.Sound (b ::ₘ p.inst.others x)) (hend : b.end'.toNat < 2 ^ 31)
    (hsize : (heap.viewOf b.toBuffer).length = size) :
    MovesTo p x (p.put heap x b) b.toBuffer size := by
  refine ⟨?_, fun z hz => BufferPool.put_offsets_of_ne hz heap b,
    BufferPool.put_offsets_self _ _ _ _, inRange_of_sound hsound hend,
    hsound.length_viewOf.symm.trans hsize⟩
  unfold BufferPool.Sound BufferPool.put
  dsimp only
  rwa [Registry.put_live]

/-- The new place of the buffer of a call that makes it from another one. -/
theorem movesTo_of_step {p p' : BufferPool ι} {e : BufferPool.Event ι} {next : Buffer} {size : ℕ}
    (hstep : BufferPool.step fresh p e = some p') (hsound : p'.Sound)
    (htarget : p'.offsets e.target = some next) (hend : next.end'.toNat < 2 ^ 31)
    (hsize : (p'.lists e.target).map List.length = some size) :
    MovesTo p e.target p' next size := by
  obtain ⟨b, hx, rfl⟩ := Option.map_eq_some_iff.mp htarget
  have hsounds := hsound.of_entry hx
  rw [BufferPool.lists_of_entry hx, Option.map_some, Option.some.injEq,
    hsounds.length_viewOf] at hsize
  exact ⟨hsound, fun z hz => BufferPool.step_offsets_of_ne hstep hz, htarget,
    inRange_of_sound hsounds hend, hsize⟩

omit [DecidableEq ι] in
theorem MovesTo.trans {p p' p'' : BufferPool ι} {next last : Buffer} {size size' : ℕ}
    (h : MovesTo p x p' next size) (h' : MovesTo p' x p'' last size') :
    MovesTo p x p'' last size' :=
  ⟨h'.sound, fun z hz => (h'.others z hz).trans (h.others z hz), h'.target, h'.inRange, h'.size_eq⟩

/-- Only the packet `x` moves and gets other tags. -/
theorem MovesTo.changes (hs : s.Sound) {buffers : BufferPool ι} {next : Buffer} {size : ℕ}
    (h : MovesTo s.buffers x buffers next size) (tags : ByteTagList) :
    s.Changes x (s.retag x tags buffers) (some (coverageOf next tags)) := by
  refine ⟨⟨h.sound, fun z b hz => ?_⟩, fun z hz => ?_, ?_⟩
  · by_cases hzx : z = x
    · rw [hzx] at hz
      obtain rfl := Option.some.inj (h.target.symm.trans hz)
      exact h.inRange.end_lt
    · exact hs.end_lt z b ((h.others z hzx).symm.trans hz)
  · rw [coverage_eq, coverage_eq]
    unfold retag
    dsimp only
    rw [h.others z hz, Function.update_of_ne hz]
  · rw [coverage_eq]
    unfold retag
    dsimp only
    rw [h.target, Option.map_some, Function.update_self]

theorem retag_self (s : PacketPool ι) (x : ι) (buffers : BufferPool ι) :
    s.retag x (s.byteTags x) buffers = { s with buffers := buffers } := by
  unfold retag
  rw [Function.update_eq_self]

/-! ### Where the buffers are -/

section Moves

variable {p p' q : BufferPool ι} {b : Handle} {heap : BufferHeap} {next : Buffer} {n : UInt32}
  {resized : Bool} {size : ℕ}

theorem create_movesTo (hs : p.Sound) (hn : 1 + n.toNat < 2 ^ 31)
    (hstep : BufferPool.step fresh p (.create x n) = some p') :
    ∃ next, MovesTo p x p' next n.toNat ∧ next.end'.toNat ≤ 1 + n.toNat := by
  dsimp only [BufferPool.step] at hstep
  split at hstep
  next hnone =>
    obtain rfl := Option.some.inj hstep
    have hstart : (min 1 p.heap.recommendedStart).toNat ≤ 1 := by
      rw [UInt32.toNat_min]
      exact Nat.min_le_left _ _
    obtain ⟨hsound, -, hview, -, -, -, hend⟩ :=
      Buffer.initializeBuffer_spec fresh hs (n := n) (by omega)
    rw [← Registry.others_of_none hnone] at hsound
    refine ⟨_, movesTo_put hsound ?_ ?_, hend⟩
    · exact hend.trans_lt hn
    · exact (congrArg List.length hview).trans List.length_replicate
  · exact absurd hstep (by simp)

theorem addAtStart_movesTo (hs : p.Sound) (hx : p.inst.entry x = some b)
    (hend : b.end'.toNat + n.toNat < 2 ^ 31)
    (hadd : b.addAtStart fresh p.heap n = some (heap, next, resized)) :
    MovesTo p x (p.put heap x ⟨next, n.toNat, 0⟩) next
      (n.toNat + (b.end'.toNat - b.start.toNat)) ∧
        next.end'.toNat ≤ b.end'.toNat + n.toNat := by
  have hsound := hs.of_entry hx
  obtain ⟨_, _, _, added, hadd', hreserved, hsound', -, hadded, hview⟩ :=
    Buffer.addAtStart_spec fresh hsound (n := n) (by omega)
  obtain ⟨rfl, rfl, rfl⟩ := by
    simpa only [Option.some.injEq, Prod.mk.injEq] using hadd.symm.trans hadd'
  refine ⟨movesTo_put (b := ⟨next, n.toNat, 0⟩) hsound' (hreserved.end_le.trans_lt hend) ?_,
    hreserved.end_le⟩
  rw [hview, List.length_append, hadded, hsound.length_viewOf]

theorem addAtEnd_movesTo (hs : p.Sound) (hx : p.inst.entry x = some b)
    (hend : b.end'.toNat + n.toNat < 2 ^ 31)
    (hadd : b.addAtEnd fresh p.heap n = some (heap, next, resized)) :
    MovesTo p x (p.put heap x ⟨next, 0, n.toNat⟩) next
      (b.end'.toNat - b.start.toNat + n.toNat) := by
  have hsound := hs.of_entry hx
  obtain ⟨_, _, _, added, hadd', hreserved, -, hsound', -, hadded, hview⟩ :=
    Buffer.addAtEnd_spec fresh hsound (n := n) ⟨by omega, fun _ => by omega⟩
  obtain ⟨rfl, rfl, rfl⟩ := by
    simpa only [Option.some.injEq, Prod.mk.injEq] using hadd.symm.trans hadd'
  refine movesTo_put (b := ⟨next, 0, n.toNat⟩) hsound' (hreserved.end_le.trans_lt hend) ?_
  rw [hview, List.length_append, hadded, hsound.length_viewOf]

/-- Bytes are written to the place that has been reserved for them. -/
theorem MovesTo.writeStart {l : List UInt8}
    (h : MovesTo p x (q.put heap x ⟨next, n.toNat, 0⟩) next size) (hl : l.length = n.toNat)
    (hstep : BufferPool.step fresh (q.put heap x ⟨next, n.toNat, 0⟩) (.writeStart x 0 (.bytes l)) =
      some p') : MovesTo p x p' next size := by
  have hx : (q.put heap x ⟨next, n.toNat, 0⟩).inst.entry x = some ⟨next, n.toNat, 0⟩ :=
    Registry.put_entry_self _ _ _
  have hsound := h.sound.of_entry hx
  obtain ⟨b, hb, hbind⟩ := Option.bind_eq_some_iff.mp hstep
  obtain rfl := Option.some.inj (hx.symm.trans hb)
  obtain ⟨i, hi, hmap⟩ := Option.bind_eq_some_iff.mp hbind
  obtain ⟨written, hwritten, rfl⟩ := Option.map_eq_some_iff.mp hmap
  obtain ⟨i', written', hi', hwritten', hsound', -, -⟩ :=
    Buffer.perform_start_spec hsound
      (show UInt32.toNat 0 + (Buffer.Iterator.WriteCall.bytes l).written.length ≤ n.toNat by
        rw [UInt32.toNat_zero, Nat.zero_add]
        exact hl.le)
  obtain rfl := Option.some.inj (hi.symm.trans hi')
  obtain rfl := Option.some.inj (hwritten.symm.trans hwritten')
  exact h.trans (movesTo_put hsound' h.inRange.end_lt (hsound'.length_viewOf.trans h.size_eq))

theorem MovesTo.writeEnd {l : List UInt8}
    (h : MovesTo p x (q.put heap x ⟨next, 0, n.toNat⟩) next size) (hl : l.length = n.toNat)
    (hstep : BufferPool.step fresh (q.put heap x ⟨next, 0, n.toNat⟩) (.writeEnd x n (.bytes l)) =
      some p') : MovesTo p x p' next size := by
  have hx : (q.put heap x ⟨next, 0, n.toNat⟩).inst.entry x = some ⟨next, 0, n.toNat⟩ :=
    Registry.put_entry_self _ _ _
  have hsound := h.sound.of_entry hx
  obtain ⟨b, hb, hbind⟩ := Option.bind_eq_some_iff.mp hstep
  obtain rfl := Option.some.inj (hx.symm.trans hb)
  obtain ⟨i, hi, hmap⟩ := Option.bind_eq_some_iff.mp hbind
  obtain ⟨written, hwritten, rfl⟩ := Option.map_eq_some_iff.mp hmap
  obtain ⟨i', written', hi', hwritten', hsound', -, -⟩ :=
    Buffer.perform_end_spec hsound (Nat.le_refl n.toNat)
      (show (Buffer.Iterator.WriteCall.bytes l).written.length ≤ n.toNat from hl.le)
  obtain rfl := Option.some.inj (hi.symm.trans hi')
  obtain rfl := Option.some.inj (hwritten.symm.trans hwritten')
  exact h.trans (movesTo_put hsound' h.inRange.end_lt (hsound'.length_viewOf.trans h.size_eq))

end Moves

/-! ### New packets -/

theorem create_changes (hs : s.Sound) {size : UInt32} (hsize : 1 + size.toNat < 2 ^ 31)
    (hstep : s.create fresh x size = some s') :
    s.Changes x s' (some (List.replicate size.toNat [])) := by
  obtain ⟨buffers, hbuffers, rfl⟩ := Option.map_eq_some_iff.mp hstep
  obtain ⟨b, hb, -⟩ := create_movesTo hs.buffers hsize hbuffers
  rw [← hb.size_eq, ← coverageOf_nil hb.inRange]
  exact hb.changes hs []

theorem createFrom_changes (hs : s.Sound) {buffer : List UInt8} (hsize : 1 + buffer.length < 2 ^ 31)
    (hstep : s.createFrom fresh x buffer = some s') :
    s.Changes x s' (some (List.replicate buffer.length [])) := by
  obtain ⟨p₁, h₁, hbind⟩ := Option.bind_eq_some_iff.mp hstep
  obtain ⟨p₂, h₂, hmap⟩ := Option.bind_eq_some_iff.mp hbind
  obtain ⟨p₃, h₃, rfl⟩ := Option.map_eq_some_iff.mp hmap
  have hn : (UInt32.ofNat buffer.length).toNat = buffer.length :=
    UInt32.toNat_ofNat_of_lt' (by unfold UInt32.size; omega)
  obtain ⟨b₁, hmoves₁, hend₁⟩ := create_movesTo hs.buffers (n := 0) (by decide) h₁
  obtain ⟨b, hx, hput⟩ := Option.bind_eq_some_iff.mp h₂
  obtain ⟨⟨heap, next, resized⟩, hadd, rfl⟩ := Option.map_eq_some_iff.mp hput
  obtain rfl : b.toBuffer = b₁ :=
    Option.some.inj ((BufferPool.offsets_of_entry hx).symm.trans hmoves₁.target)
  rw [UInt32.toNat_zero] at hend₁
  obtain ⟨hmoves₂, -⟩ := addAtStart_movesTo hmoves₁.sound hx (by omega) hadd
  have hmoves := (hmoves₁.trans hmoves₂).writeStart hn.symm h₃
  have hsize : next.end'.toNat - next.start.toNat = buffer.length := by
    rw [hmoves.size_eq, hn, hmoves₁.size_eq, UInt32.toNat_zero, Nat.add_zero]
  rw [← hsize, ← coverageOf_nil hmoves.inRange]
  exact hmoves.changes hs []

/-- A packet that is made from another one: the buffer lists tell its size. -/
theorem derived_movesTo {p p' : BufferPool ι} (hp : p.Sound) {e : BufferPool.Event ι}
    (hstep : BufferPool.step fresh p e = some p') (hperm : p.Permitted e) (hfits : p.Fits e)
    (hjoins : p.Joins e) (hcuts : p.CutsInside e) {l : List UInt8}
    (hl : ∀ next, BufferPool.Becomes p.lists e next → next = some l) {next : Buffer}
    (htarget : p'.offsets e.target = some next) (hend : next.end'.toNat < 2 ^ 31) :
    MovesTo p e.target p' next l.length := by
  obtain ⟨p'', list, hstep', hchanges, hbecomes⟩ :=
    BufferPool.step_spec fresh hp hperm hfits hjoins
  obtain rfl := Option.some.inj (hstep.symm.trans hstep')
  refine movesTo_of_step hstep hchanges.sound htarget hend ?_
  rw [hchanges.target, hl _ (hbecomes hcuts), Option.map_some]

theorem copy_changes (hs : s.Sound) (hcard : s.buffers.inst.live.card + 5 < 2 ^ 32)
    (hstep : s.copy fresh x y = some s') : s.Changes x s' (s.coverage y) := by
  obtain ⟨buffers, hbuffers, rfl⟩ := Option.map_eq_some_iff.mp hstep
  obtain ⟨hx, o, made, hy, hmade, rfl⟩ :=
    BufferPool.derive_eq_some (x := x) (y := y) (f := fun h o => some (o.copy h)) hbuffers
  obtain rfl := Option.some.inj hmade
  have ho := hs.inRange hy
  have hmoves := derived_movesTo hs.buffers hbuffers ⟨hx, o, hy⟩ ⟨hcard, trivial⟩ trivial trivial
    (l := s.buffers.heap.viewOf o.toBuffer)
    (fun next hnext => hnext.trans (BufferPool.lists_of_entry hy))
    (BufferPool.put_offsets_self _ _ _ _) ho.end_lt
  rw [coverage_of_entry hy]
  have hsame : coverageOf ({ o.toBuffer with maxZeroAreaStart := o.zeroAreaStart } : Buffer)
      (s.byteTags y) = coverageOf o.toBuffer (s.byteTags y) := rfl
  rw [← hsame]
  exact hmoves.changes hs _

theorem createFragment_changes (hs : s.Sound) {start length : UInt32}
    (hfits : s.Fits (.createFragment x y start length))
    (hfollow : s.TagsFollow (.createFragment x y start length))
    (hstep : s.createFragment fresh x y start length = some s') :
    s.Changes x s' ((s.coverage y).map fun l => (l.drop start.toNat).take length.toNat) := by
  obtain ⟨hcard, hlength⟩ := hfits
  obtain ⟨o, hy, hbind⟩ := Option.bind_eq_some_iff.mp hstep
  obtain ⟨buffers, hbuffers, hassert⟩ := Option.bind_eq_some_iff.mp hbind
  split at hassert
  next hsize =>
    obtain rfl := Option.some.inj hassert
    have ho := hs.inRange hy
    have hsound := hs.buffers.of_entry hy
    have hordered := hsound.within.ordered
    have hwhole : o.getSize.toNat = o.end'.toNat - o.start.toNat :=
      UInt32.toNat_sub_of_toNat_le ho.start_le
    have hsum : (start + length).toNat = start.toNat + length.toNat :=
      UInt32.toNat_add_of_lt hlength
    rw [UInt32.le_iff_toNat_le, hsum, hwhole] at hsize
    have hlt := ho.end_lt
    have hle := ho.start_le
    have hcuts : o.FragmentFits start length := ⟨by omega, Or.inl hsize⟩
    obtain ⟨hx, o', made, hy', hmade, rfl⟩ := BufferPool.derive_eq_some (x := x) (y := y)
      (f := fun h o => o.createFragment h start length) hbuffers
    obtain rfl := Option.some.inj (hy.symm.trans hy')
    -- the temporary of `CreateFragment`
    obtain ⟨tmp, htmp, rfl⟩ := Option.map_eq_some_iff.mp hmade
    have hcopy := Buffer.shrinksTo_copy hordered o.zeroAreaStart
    obtain ⟨tmp', htmp', hshrinks, -⟩ := Buffer.removeAtStart_spec hcopy.ordered hcuts.1
    obtain rfl := Option.some.inj (htmp.symm.trans htmp')
    obtain ⟨hshrinks', -⟩ := Buffer.removeAtEnd_spec hshrinks.ordered (o.getSize - (start + length))
    have hend : (tmp.removeAtEnd (o.getSize - (start + length))).end'.toNat ≤ o.end'.toNat :=
      hshrinks'.end_le.trans hshrinks.end_le
    have hstart : tmp.start.toNat + o.startShift start.toNat = o.start.toNat + start.toNat :=
      Buffer.removeAtStart_start (b := (o.copy s.buffers.heap).2) hcopy.ordered
        (show o.start.toNat + _ ≤ o.end'.toNat by omega) htmp
    have hmoves := derived_movesTo hs.buffers hbuffers ⟨hx, o, hy⟩
      ⟨hcard, fun o' hy' => by obtain rfl := Option.some.inj (hy.symm.trans hy'); exact hcuts.1⟩
      trivial (fun o' hy' => by obtain rfl := Option.some.inj (hy.symm.trans hy'); exact hcuts)
      (l := ((s.buffers.heap.viewOf o.toBuffer).drop start.toNat).take length.toNat)
      (fun next hnext => by
        rw [hnext, BufferPool.lists_of_entry hy, Option.map_some])
      (BufferPool.put_offsets_self _ _ _ _) (hend.trans_lt hlt)
    have hinRange : (tmp.removeAtEnd (o.getSize - (start + length))).InRange := hmoves.inRange
    have hnext : (tmp.removeAtEnd (o.getSize - (start + length))).end'.toNat -
      (tmp.removeAtEnd (o.getSize - (start + length))).start.toNat = _ := hmoves.size_eq
    rw [List.length_take, List.length_drop, hsound.length_viewOf] at hnext
    rw [coverage_of_entry hy, Option.map_some]
    have hagrees := hfollow o hy
    have hcover : coverageOf (tmp.removeAtEnd (o.getSize - (start + length))) (s.byteTags y) =
        ((coverageOf o.toBuffer (s.byteTags y)).drop start.toNat).take length.toNat := by
      rw [coverageOf_eq hinRange, coverageOf_eq ho, drop_slice, take_slice, hnext]
      apply slice_congr
      intro i hi
      rw [← hagrees (o.start.toNat + start.toNat + i) (by omega) (by omega),
        covering_beginAll (by omega), Buffer.removeAtEnd_start]
      congr 1
      omega
    rw [← hcover]
    exact hmoves.changes hs _
  · exact absurd hassert (by simp)

/-! ### More bytes -/

theorem addHeader_changes (hs : s.Sound) {header : List UInt8} (hfits : s.Fits (.addHeader x header))
    (hfollow : s.TagsFollow (.addHeader x header)) (hstep : s.addHeader fresh x header = some s') :
    s.Changes x s' ((s.coverage x).map fun l => List.replicate header.length [] ++ l) := by
  obtain ⟨b, hx, hbind⟩ := Option.bind_eq_some_iff.mp hstep
  obtain ⟨⟨heap, next, resized⟩, hadd, hmap⟩ := Option.bind_eq_some_iff.mp hbind
  obtain ⟨buffers, hwrite, rfl⟩ := Option.map_eq_some_iff.mp hmap
  obtain ⟨hend, hmoves⟩ := hfits.2 b hx
  have hclean := hfollow b hx
  have hb := hs.inRange hx
  have hn : (UInt32.ofNat header.length).toNat = header.length :=
    UInt32.toNat_ofNat_of_lt' (by unfold UInt32.size; omega)
  generalize UInt32.ofNat header.length = size at *
  rw [← hn] at hend hmoves hclean ⊢
  obtain ⟨hput, hle⟩ := addAtStart_movesTo hs.buffers hx hend hadd
  have hnext := hput.writeStart hn.symm hwrite
  have hsize := hnext.size_eq
  rw [coverage_of_entry hx, Option.map_some]
  cases resized with
  | true =>
      have hcover := coverageOf_addAtStart hb hnext.inRange hsize (hmoves.mono (by
        have hle' := hnext.inRange.start_le
        have hle := hb.start_le
        omega))
      rw [← hcover]
      exact hnext.changes hs _
  | false =>
      obtain ⟨hreuse, hstart⟩ := Buffer.addAtStart_of_not_resized hadd
      rw [← coverageOf_reuseFront hb hnext.inRange hsize hstart (hclean hreuse)]
      exact hnext.changes hs _

theorem addTrailer_changes (hs : s.Sound) {trailer : List UInt8}
    (hfits : s.Fits (.addTrailer x trailer)) (hfollow : s.TagsFollow (.addTrailer x trailer))
    (hstep : s.addTrailer fresh x trailer = some s') :
    s.Changes x s' ((s.coverage x).map fun l => l ++ List.replicate trailer.length []) := by
  obtain ⟨b, hx, hbind⟩ := Option.bind_eq_some_iff.mp hstep
  obtain ⟨⟨heap, next, resized⟩, hadd, hmap⟩ := Option.bind_eq_some_iff.mp hbind
  obtain ⟨buffers, hwrite, rfl⟩ := Option.map_eq_some_iff.mp hmap
  have hend := hfits.2 b hx
  have hclean := hfollow b hx
  have hb := hs.inRange hx
  have hn : (UInt32.ofNat trailer.length).toNat = trailer.length :=
    UInt32.toNat_ofNat_of_lt' (by unfold UInt32.size; omega)
  generalize UInt32.ofNat trailer.length = size at *
  rw [← hn] at hend hclean ⊢
  have hnext := (addAtEnd_movesTo hs.buffers hx hend hadd).writeEnd hn.symm hwrite
  have hsize := hnext.size_eq
  rw [coverage_of_entry hx, Option.map_some]
  cases resized with
  | true =>
      obtain ⟨-, hstart⟩ := Buffer.addAtEnd_of_resized hadd
      have hcover := coverageOf_addAtEnd hb hnext.inRange hsize (moves_of_nonpos (l := s.byteTags x)
        (by rw [hstart, UInt32.toNat_zero]; omega))
      rw [← hcover]
      exact hnext.changes hs _
  | false =>
      obtain ⟨hgrows, hstart⟩ := Buffer.addAtEnd_of_not_resized hadd
      rw [← coverageOf_reuseBack hb hnext.inRange hsize hstart (hclean hgrows)]
      exact hnext.changes hs _

theorem addPaddingAtEnd_changes (hs : s.Sound) {size : UInt32}
    (hfits : s.Fits (.addPaddingAtEnd x size)) (hfollow : s.TagsFollow (.addPaddingAtEnd x size))
    (hstep : s.addPaddingAtEnd fresh x size = some s') :
    s.Changes x s' ((s.coverage x).map fun l => l ++ List.replicate size.toNat []) := by
  obtain ⟨b, hx, hmap⟩ := Option.bind_eq_some_iff.mp hstep
  obtain ⟨⟨heap, next, resized⟩, hadd, rfl⟩ := Option.map_eq_some_iff.mp hmap
  obtain ⟨hend, hmoves⟩ := hfits.2 b hx
  obtain ⟨hclean, hagrees⟩ := hfollow b hx
  have hb := hs.inRange hx
  have hnext := addAtEnd_movesTo hs.buffers hx hend hadd
  have hsize := hnext.size_eq
  rw [coverage_of_entry hx, Option.map_some]
  cases resized with
  | true =>
      obtain ⟨hgrows, hstart⟩ := Buffer.addAtEnd_of_resized hadd
      have hcover := coverageOf_addPadding hb hnext.inRange hsize hstart hmoves (hagrees hgrows)
      rw [← hcover]
      exact hnext.changes hs _
  | false =>
      obtain ⟨hgrows, hstart⟩ := Buffer.addAtEnd_of_not_resized hadd
      rw [← coverageOf_reuseBack hb hnext.inRange hsize hstart (hclean hgrows)]
      exact hnext.changes hs _

theorem addAtEnd_changes (hs : s.Sound) (hfits : s.Fits (.addAtEnd x y))
    (hfollow : s.TagsFollow (.addAtEnd x y)) (hstep : s.addAtEnd fresh x y = some s') :
    s.Changes x s' ((s.coverage x).bind fun l => (s.coverage y).map fun m => l ++ m) := by
  obtain ⟨hcard, hfits⟩ := hfits
  obtain ⟨hjoins, hself⟩ := hfollow
  obtain ⟨b, hx, hbind⟩ := Option.bind_eq_some_iff.mp hstep
  obtain ⟨o, hy, hbind⟩ := Option.bind_eq_some_iff.mp hbind
  obtain ⟨buffers, hbuffers, hbind⟩ := Option.bind_eq_some_iff.mp hbind
  obtain ⟨next, hnext, hmap⟩ := Option.bind_eq_some_iff.mp hbind
  obtain ⟨packet, hpacket, rfl⟩ := Option.map_eq_some_iff.mp hmap
  obtain ⟨hend, hmoves, hmoves'⟩ := hfits b o hx hy
  have hb := hs.inRange hx
  have ho := hs.inRange hy
  obtain ⟨heap, next', happend, hchanges, hle⟩ := BufferPool.append_changes fresh hs.buffers hcard hx
    hy (by omega) (hjoins b o hx hy)
  -- the step is the one of `append_changes`
  have hstep' : BufferPool.step fresh s.buffers (.append x y) =
      some ((s.buffers.settle y).put heap x (Handle.plain next')) := by
    change (s.buffers.inst.entry x).bind (fun b => (s.buffers.inst.entry y).bind fun o => _) = _
    rw [hx, Option.bind_some, hy, Option.bind_some, happend, Option.map_some]
  obtain rfl := Option.some.inj (hbuffers.symm.trans hstep')
  obtain rfl := Option.some.inj (hnext.symm.trans (Registry.put_entry_self _ _ _))
  have hjoined : MovesTo s.buffers x ((s.buffers.settle y).put heap x (Handle.plain next')) next'
      (b.end'.toNat - b.start.toNat + (o.end'.toNat - o.start.toNat)) := by
    refine movesTo_of_step hbuffers hchanges.sound (BufferPool.put_offsets_self _ _ _ _)
      (show next'.end'.toNat < 2 ^ 31 by omega) ?_
    change Option.map _ (BufferPool.lists _ x) = _
    rw [hchanges.target, Option.map_some, List.length_append,
      (hs.buffers.of_entry hx).length_viewOf, (hs.buffers.of_entry hy).length_viewOf]
  have hsize := hjoined.size_eq
  have hrange := hjoined.inRange
  change next'.end'.toNat - next'.start.toNat = _ at hsize
  change next'.InRange at hrange
  rw [coverage_of_entry hx, coverage_of_entry hy, Option.bind_some, Option.map_some]
  by_cases hxy : x = y
  · -- the tags of a packet that is appended to itself are read too late, so there are none
    subst hxy
    obtain rfl := Option.some.inj (hx.symm.trans hy)
    have hchanged := hjoined.changes hs []
    rw [coverageOf_nil hrange, hsize, ← List.replicate_append_replicate,
      ← coverageOf_nil hb] at hchanged
    dsimp only [retag]
    rw [Function.update_self, hself rfl, addAtEnd_nil, addAtStart_nil]
    exact hchanged
  · have hentry : ((s.buffers.settle y).put heap x (Handle.plain next')).inst.entry y =
        some (Handle.plain o.toBuffer) := by
      rw [BufferPool.settle_of_entry hy]
      exact (Registry.put_entry_of_ne (Ne.symm hxy) _).trans (Registry.put_entry_self _ _ _)
    obtain rfl := Option.some.inj (hpacket.symm.trans hentry)
    have hbLe := hb.start_le
    have hoLe := ho.start_le
    have hnextLe := hrange.start_le
    dsimp only [retag]
    rw [Function.update_of_ne (Ne.symm hxy)]
    have hcover := coverageOf_join hb ho hrange hsize (hmoves.mono (by omega))
      (hmoves'.mono (by omega))
    rw [← hcover]
    exact hjoined.changes hs _

/-! ### Fewer bytes -/

theorem removeAtStart_changes (hs : s.Sound) {n : UInt32} (hfits : s.Fits (.removeAtStart x n))
    (hfollow : s.TagsFollow (.removeAtStart x n)) (hstep : s.removeAtStart fresh x n = some s') :
    s.Changes x s' ((s.coverage x).map fun l => l.drop n.toNat) := by
  obtain ⟨buffers, hbuffers, rfl⟩ := Option.map_eq_some_iff.mp hstep
  obtain ⟨b, hx, hmap⟩ := Option.bind_eq_some_iff.mp hbuffers
  obtain ⟨next, hremove, rfl⟩ := Option.map_eq_some_iff.mp hmap
  have hb := hs.inRange hx
  have hsound := hs.buffers.of_entry hx
  have hn := hfits.2 b hx
  obtain ⟨next', hremove', hshrinks, hview⟩ := Buffer.removeAtStart_spec hsound.within.ordered hn
  obtain rfl := Option.some.inj (hremove.symm.trans hremove')
  have hmoves : MovesTo s.buffers x (s.buffers.put s.buffers.heap x (Handle.plain next)) next
      (b.end'.toNat - b.start.toNat - n.toNat) := by
    refine movesTo_put (b := Handle.plain next) (hsound.shrink hshrinks)
      (hshrinks.end_le.trans_lt hb.end_lt) ?_
    change (viewOf _ next).length = _
    rw [viewOf, hview, List.length_drop, hshrinks.data_eq]
    exact congrArg (· - _) hsound.length_viewOf
  rw [coverage_of_entry hx, Option.map_some, ← coverageOf_removeAtStart hb hmoves.inRange
    hmoves.size_eq (fun hle => Buffer.removeAtStart_start hsound.within.ordered hle hremove)
    (hfollow b hx), ← retag_self]
  exact hmoves.changes hs _

theorem removeAtEnd_changes (hs : s.Sound) {n : UInt32}
    (hstep : s.removeAtEnd fresh x n = some s') :
    s.Changes x s' ((s.coverage x).map fun l => l.take (l.length - n.toNat)) := by
  obtain ⟨buffers, hbuffers, rfl⟩ := Option.map_eq_some_iff.mp hstep
  obtain ⟨b, hx, rfl⟩ := Option.map_eq_some_iff.mp hbuffers
  have hb := hs.inRange hx
  have hsound := hs.buffers.of_entry hx
  obtain ⟨hshrinks, hview⟩ := Buffer.removeAtEnd_spec hsound.within.ordered n
  have hmoves : MovesTo s.buffers x
      (s.buffers.put s.buffers.heap x (Handle.plain (b.removeAtEnd n))) (b.removeAtEnd n)
      (min (b.end'.toNat - b.start.toNat - n.toNat) (b.end'.toNat - b.start.toNat)) := by
    refine movesTo_put (b := Handle.plain (b.removeAtEnd n)) (hsound.shrink hshrinks)
      (hshrinks.end_le.trans_lt hb.end_lt) ?_
    change (viewOf _ (b.removeAtEnd n)).length = _
    rw [viewOf, hview, List.length_take, hshrinks.data_eq]
    exact congrArg (fun k => min (k - n.toNat) k) hsound.length_viewOf
  rw [coverage_of_entry hx, Option.map_some, length_coverageOf hb,
    ← coverageOf_truncate hb hmoves.inRange (Buffer.removeAtEnd_start _ _) hmoves.size_eq,
    ← retag_self]
  exact hmoves.changes hs _

/-! ### The bytes stay -/

theorem addByteTag_changes (hs : s.Sound) {tag : ByteTag}
    (hstep : s.addByteTag x tag = some s') :
    s.Changes x s' ((s.coverage x).map fun l => l.map fun tags => tags ++ [tag]) := by
  obtain ⟨b, hx, rfl⟩ := Option.map_eq_some_iff.mp hstep
  have hb := hs.inRange hx
  rw [coverage_of_entry hx, Option.map_some, ← coverageOf_addByteTag hb]
  exact MovesTo.changes hs ⟨hs.buffers, fun _ _ => rfl, BufferPool.offsets_of_entry hx, hb, rfl⟩ _

theorem peekData_changes (hs : s.Sound) (hfits : s.Fits (.peekData x))
    (hstep : s.peekData fresh x = some s') : s.Changes x s' (s.coverage x) := by
  obtain ⟨hcard, hfits⟩ := hfits
  obtain ⟨b, hx, hmap⟩ := Option.bind_eq_some_iff.mp hstep
  obtain ⟨⟨heap, tmp⟩, hcreate, rfl⟩ := Option.map_eq_some_iff.mp hmap
  obtain ⟨hend, hmoves⟩ := hfits b hx
  have hb := hs.inRange hx
  have hsound := hs.buffers.of_entry hx
  rw [Registry.live_eq_cons hx, Multiset.card_cons] at hcard
  obtain ⟨heap', tmp', hcreate', hcopied⟩ :=
    Buffer.createFullCopy_spec fresh hsound (by omega) (by omega)
  obtain ⟨rfl, rfl⟩ := Prod.mk.inj (Option.some.inj (hcreate.symm.trans hcreate'))
  -- the assignment, and the end of the temporary
  have hcopies := hcopied.sound
  rw [Multiset.cons_swap] at hcopies
  obtain ⟨hassigned, -, hview⟩ := Buffer.assign_spec hcopies (by omega)
  obtain ⟨hlast, hkeeps⟩ := Buffer.destroy_spec hassigned
  have hle := hcopied.end_le
  have hput : MovesTo s.buffers x
      (s.buffers.put (tmp.destroy (b.assign heap tmp).1) x (Handle.plain tmp)) tmp
      (b.end'.toNat - b.start.toNat) := by
    refine movesTo_put (b := Handle.plain tmp) hlast
      (show tmp.end'.toNat < 2 ^ 31 by omega) ?_
    have hlength := congrArg List.length ((hkeeps.head.trans hview).trans hcopied.viewOf_eq)
    exact hlength.trans hsound.length_viewOf
  have hsize : tmp.end'.toNat - tmp.start.toNat =
      UInt32.toNat 0 + (b.end'.toNat - b.start.toNat) := by
    rw [UInt32.toNat_zero, Nat.zero_add]
    exact hput.size_eq
  have hrange : tmp.InRange := hput.inRange
  have hle' := hrange.start_le
  have hbLe := hb.start_le
  have hzero : UInt32.toNat 0 = 0 := UInt32.toNat_zero
  have hcover := coverageOf_addAtStart hb hrange hsize (hmoves.mono (by omega))
  rw [add_zero, hzero, List.replicate_zero, List.nil_append] at hcover
  rw [coverage_of_entry hx, ← hcover]
  exact hput.changes hs _

theorem destroy_changes (hs : s.Sound) (hstep : s.destroy fresh x = some s') :
    s.Changes x s' none := by
  obtain ⟨buffers, hbuffers, rfl⟩ := Option.map_eq_some_iff.mp hstep
  have hothers : ∀ z, z ≠ x → buffers.offsets z = s.buffers.offsets z :=
    fun z hz => BufferPool.step_offsets_of_ne hbuffers hz
  obtain ⟨b, hx, rfl⟩ := Option.map_eq_some_iff.mp hbuffers
  obtain ⟨hsound, -⟩ := Buffer.destroy_spec (hs.buffers.of_entry hx)
  have hnone : (⟨b.destroy s.buffers.heap, s.buffers.inst.drop x⟩ : BufferPool ι).offsets x =
      none := congrArg (Option.map Handle.toBuffer) (Registry.drop_entry_self _ _)
  refine ⟨⟨?_, fun z c hz => ?_⟩, fun z hz => ?_, ?_⟩
  · unfold BufferPool.Sound
    rwa [Registry.drop_live]
  · by_cases hzx : z = x
    · rw [hzx] at hz
      exact absurd (hnone.symm.trans hz) (by simp)
    · exact hs.end_lt z c ((hothers z hzx).symm.trans hz)
  · rw [coverage_eq, coverage_eq]
    dsimp only
    rw [hothers z hz]
  · rw [coverage_eq]
    dsimp only
    rw [hnone, Option.map_none]

/-- Every call that meets its conditions changes the tags of the bytes as it should. -/
theorem step_changes (hs : s.Sound) {e : Event ι} (hmeets : s.Meets e)
    (hstep : step fresh s e = some s') : s.Changes e.target s' (coverageAfter s.coverage e) := by
  obtain ⟨hfits, hfollow⟩ := hmeets
  cases e with
  | create x size => exact create_changes hs hfits.2 hstep
  | createFrom x buffer => exact createFrom_changes hs hfits.2 hstep
  | copy x y => exact copy_changes hs hfits.1 hstep
  | createFragment x y start length => exact createFragment_changes hs hfits hfollow hstep
  | addHeader x header => exact addHeader_changes hs hfits hfollow hstep
  | removeHeader x n => exact removeAtStart_changes hs hfits hfollow hstep
  | addTrailer x trailer => exact addTrailer_changes hs hfits hfollow hstep
  | removeTrailer x n => exact removeAtEnd_changes hs hstep
  | addAtEnd x y => exact addAtEnd_changes hs hfits hfollow hstep
  | addPaddingAtEnd x size => exact addPaddingAtEnd_changes hs hfits hfollow hstep
  | removeAtEnd x n => exact removeAtEnd_changes hs hstep
  | removeAtStart x n => exact removeAtStart_changes hs hfits hfollow hstep
  | addByteTag x tag => exact addByteTag_changes hs hstep
  | peekData x => exact peekData_changes hs hfits hstep
  | destroy x => exact destroy_changes hs hstep

/-! ## Runs -/

omit [DecidableEq ι] in
theorem start_sound : (start : PacketPool ι).Sound :=
  ⟨BufferPool.start_sound, fun _ _ h => absurd h (by simp [start, BufferPool.start,
    BufferPool.offsets, Registry.empty])⟩

/-- In a run whose calls meet the condition the tags stick to their bytes. -/
theorem tags_stick (fresh : ℕ → ℕ → UInt8) {events : List (Event ι)}
    (hmeet : EachStep (step fresh) (fun s e _ => s.Meets e) start events) :
    EachStep (step fresh) (fun s e s' => CoverageStep s.coverage e s'.coverage) start
      events := by
  have hsound : Throughout (step fresh) Sound start events := by
    refine throughout_of_eachStep ?_ start_sound hmeet
    intro s e s' hs hstep hmeets
    exact (step_changes hs hmeets hstep).sound
  intro done event rest state next heq hrun hstep
  have hmeets := hmeet done event rest state next heq hrun hstep
  have hchanges := step_changes (hsound done (event :: rest) state heq hrun) hmeets hstep
  exact ⟨hchanges.others, hchanges.target⟩

def sampleTag : ByteTag := ⟨1, [7]⟩

/-- A tag on the payload, and a header that is added and removed. -/
def taggedPayload : List (Event ℕ) :=
  [.createFrom 0 [1, 2, 3, 4], .addByteTag 0 sampleTag, .addHeader 0 [9, 9], .removeHeader 0 2]

theorem tags_stick_taggedPayload :
    EachStep (step fun _ _ => 0)
      (fun s e s' => CoverageStep s.coverage e s'.coverage) start taggedPayload := by
  refine tags_stick (fun _ _ => 0) ?_
  refine eachStep_cons.mpr fun s₁ h₁ => ⟨⟨⟨by decide, by decide⟩, trivial⟩, ?_⟩
  obtain rfl := Option.some.inj h₁
  refine eachStep_cons.mpr fun s₂ h₂ => ⟨⟨⟨by decide, trivial⟩, trivial⟩, ?_⟩
  obtain rfl := Option.some.inj h₂
  refine eachStep_cons.mpr fun s₃ h₃ =>
    ⟨⟨⟨by decide, fun b hb => ?_⟩, fun b hb hreuse => ?_⟩, ?_⟩
  · obtain rfl := Option.some.inj hb
    refine ⟨by decide, fun item hitem => ?_⟩
    obtain rfl := List.mem_singleton.mp hitem
    decide
  · obtain rfl := Option.some.inj hb
    exact absurd hreuse.1 (by decide)
  obtain rfl := Option.some.inj h₃
  refine eachStep_cons.mpr fun s₄ h₄ =>
    ⟨⟨⟨by decide, fun b hb => ?_⟩, fun b hb => ?_⟩, eachStep_nil _⟩
  · obtain rfl := Option.some.inj hb
    decide
  · have hnone : b.zeroAreaEnd = b.zeroAreaStart := by
      obtain rfl := Option.some.inj hb
      decide
    rw [Buffer.startShift_of_none hnone]
    exact agreesBelow_zero _ _ _

/-- A tag covers a trailer. When that is removed and another one added in its place, the tag covers
the new trailer. -/
def replacedTrailer : List (Event ℕ) :=
  [.createFrom 0 [1, 2, 3, 4], .addByteTag 0 sampleTag, .removeTrailer 0 2, .addTrailer 0 [5, 6]]

theorem replacedTrailer_covered :
    EachStep (step fun _ _ => 0) (fun s e _ => s.Fits e) start replacedTrailer ∧
      ¬ EachStep (step fun _ _ => 0)
        (fun s e s' => CoverageStep s.coverage e s'.coverage) start replacedTrailer := by
  constructor
  · refine eachStep_cons.mpr fun s₁ h₁ => ⟨⟨by decide, by decide⟩, ?_⟩
    obtain rfl := Option.some.inj h₁
    refine eachStep_cons.mpr fun s₂ h₂ => ⟨⟨by decide, trivial⟩, ?_⟩
    obtain rfl := Option.some.inj h₂
    refine eachStep_cons.mpr fun s₃ h₃ => ⟨⟨by decide, trivial⟩, ?_⟩
    obtain rfl := Option.some.inj h₃
    refine eachStep_cons.mpr fun s₄ h₄ =>
      ⟨⟨by decide, fun b hb => ?_⟩, eachStep_nil _⟩
    obtain rfl := Option.some.inj hb
    decide
  · intro h
    obtain ⟨-, hcovered⟩ := h (replacedTrailer.take 3) _ [] _ _ rfl rfl rfl
    exact absurd hcovered (by decide)

end PacketPool

end Ns3Rdma
