import Ns3Rdma.Buffer.Writes

/-! # Parts and full copies

`CreateFragment` and the removals shorten the list of one buffer. `CreateFullCopy` rebuilds a buffer
with a zero area in a new object, where the zeros are real bytes. -/

namespace Ns3Rdma

open Memory BufferHeap

namespace BufferHeap

variable {h : BufferHeap} {b : Handle} {rest : Multiset Handle}

theorem set_self (h : BufferHeap) (id : ℕ) : h.set id (h.data id) = h := by
  unfold set
  rw [Function.update_eq_self]

theorem Sound.shrink {next : Buffer} (hs : h.Sound (b ::ₘ rest)) (hnext : b.ShrinksTo next) :
    h.Sound (Handle.plain next ::ₘ rest) := by
  have hreplaced : (h.set b.data (h.data b.data)).Sound (Handle.plain next ::ₘ rest) :=
    hs.replace hnext.data_eq fun hshared => hshared.shrink hnext
  rwa [set_self] at hreplaced

/-- A buffer may give up the bytes that it has reserved. -/
theorem Sound.plain (hs : h.Sound (b ::ₘ rest)) : h.Sound (Handle.plain b.toBuffer ::ₘ rest) :=
  hs.shrink (Buffer.shrinksTo_copy hs.within.ordered b.maxZeroAreaStart)

theorem Sound.length_viewOf (hs : h.Sound (b ::ₘ rest)) :
    (h.viewOf b.toBuffer).length = b.end'.toNat - b.start.toNat :=
  Buffer.length_view hs.within.ordered

end BufferHeap

namespace Buffer

variable {fresh : ℕ → ℕ → UInt8} {h : BufferHeap} {b : Handle} {rest : Multiset Handle}

/-! ## Removals -/

theorem removeAtStart_sound (hs : h.Sound (b ::ₘ rest)) {n : UInt32}
    (hn : b.start.toNat + n.toNat < 2 ^ 32) :
    ∃ next, b.removeAtStart n = some next ∧ h.Sound (Handle.plain next ::ₘ rest) ∧
      h.viewOf next = (h.viewOf b.toBuffer).drop n.toNat := by
  obtain ⟨next, hnext, hshrinks, hview⟩ := removeAtStart_spec hs.within.ordered hn
  refine ⟨next, hnext, hs.shrink hshrinks, ?_⟩
  rw [viewOf, viewOf, hshrinks.data_eq, hview]

theorem removeAtEnd_sound (hs : h.Sound (b ::ₘ rest)) (n : UInt32) :
    h.Sound (Handle.plain (b.removeAtEnd n) ::ₘ rest) ∧ h.viewOf (b.removeAtEnd n) =
      (h.viewOf b.toBuffer).take ((h.viewOf b.toBuffer).length - n.toNat) := by
  obtain ⟨hshrinks, hview⟩ := removeAtEnd_spec hs.within.ordered n
  refine ⟨hs.shrink hshrinks, ?_⟩
  rw [viewOf, viewOf, hshrinks.data_eq, hview]

/-- The bounds of a fragment that `CreateFragment` cuts out as it should. -/
def FragmentFits (b : Buffer) (start length : UInt32) : Prop :=
  b.start.toNat + start.toNat < 2 ^ 32 ∧
    (start.toNat + length.toNat ≤ b.end'.toNat - b.start.toNat ∨
      b.end'.toNat - b.start.toNat ≤ start.toNat)

/-- `CreateFragment` makes one more user of the object, whatever is cut out. -/
theorem createFragment_sound (hs : h.Sound (b ::ₘ rest)) (hcard : rest.card + 2 < 2 ^ 32)
    {start : UInt32} (length : UInt32) (hstart : b.start.toNat + start.toNat < 2 ^ 32) :
    ∃ next, b.createFragment h start length = some (h.addRef b.data, next) ∧
      (h.addRef b.data).Sound (Handle.plain next ::ₘ Handle.plain b.toBuffer ::ₘ rest) ∧
        h.Keeps (h.addRef b.data) (b ::ₘ rest) ∧
          (h.addRef b.data).viewOf next = ((h.viewOf b.toBuffer).drop start.toNat).take
            ((h.viewOf b.toBuffer).length - start.toNat -
              (b.getSize - (start + length)).toNat) := by
  have hordered := hs.within.ordered
  have hcopy := shrinksTo_copy hordered b.zeroAreaStart
  obtain ⟨tmp, htmp, hshrinks, hview⟩ := removeAtStart_spec hcopy.ordered hstart
  obtain ⟨hshrinks', hview'⟩ := removeAtEnd_spec hshrinks.ordered (b.getSize - (start + length))
  have hall := hcopy.trans (hshrinks.trans hshrinks')
  obtain ⟨hsound, hkeeps⟩ := copy_spec hs hall hcard
  refine ⟨_, ?_, hsound, hkeeps, ?_⟩
  · unfold createFragment copy
    dsimp only
    rw [htmp, Option.map_some]
  · rw [viewOf, viewOf, hall.data_eq, addRef_bytes, hview', hview, List.length_drop]
    rfl

/-- A fragment within the buffer is a slice of its list. -/
theorem createFragment_slice {start length : UInt32} {l : List UInt8} (hordered : b.Ordered)
    (hfits : b.FragmentFits start length) (hl : l.length = b.end'.toNat - b.start.toNat) :
    (l.drop start.toNat).take (l.length - start.toNat - (b.getSize - (start + length)).toNat) =
      (l.drop start.toNat).take length.toNat := by
  obtain ⟨h₁, h₂, h₃⟩ := hordered
  have hsize : b.getSize.toNat = l.length := by
    unfold getSize
    rw [UInt32.toNat_sub_of_toNat_le (by omega), hl]
  have hlt := b.getSize.toNat_lt
  rcases hfits.2 with hinside | hbehind
  · have hsum : (start + length).toNat = start.toNat + length.toNat :=
      UInt32.toNat_add_of_lt (by omega)
    rw [UInt32.toNat_sub_of_toNat_le (by omega), hsize, hsum]
    congr 1
    omega
  · rw [List.drop_eq_nil_of_le (by omega), List.take_nil, List.take_nil]

/-! ## Reading -/

theorem view_take (bytes : ℕ → UInt8) (b : Buffer) :
    (b.view bytes).take (b.zeroAreaStart.toNat - b.start.toNat) =
      slice bytes b.start.toNat (b.zeroAreaStart.toNat - b.start.toNat) := by
  rw [view, List.append_assoc, List.take_left' (length_slice _ _ _)]

theorem view_drop (bytes : ℕ → UInt8) (hb : b.Ordered) :
    (b.view bytes).drop (b.zeroAreaEnd.toNat - b.start.toNat) =
      slice bytes b.zeroAreaStart.toNat (b.end'.toNat - b.zeroAreaEnd.toNat) := by
  obtain ⟨h₁, h₂, h₃⟩ := hb
  rw [view, List.drop_left']
  rw [List.length_append, length_slice, List.length_replicate]
  omega

/-- The bytes before the zero area. -/
theorem read_before (hs : h.Sound (b ::ₘ rest)) {n : ℕ}
    (hn : n ≤ b.zeroAreaStart.toNat - b.start.toNat) :
    h.read b.data b.start.toNat n = some ((h.viewOf b.toBuffer).take n) := by
  obtain ⟨⟨h₁, h₂, h₃⟩, -, -, hreal, -, -⟩ := hs.within
  have htake : (h.viewOf b.toBuffer).take n = slice (h.data b.data).bytes b.start.toNat n := by
    have hall := congrArg (List.take n) (view_take (h.data b.data).bytes b.toBuffer)
    rwa [List.take_take, Nat.min_eq_left hn, take_slice, Nat.min_eq_left hn] at hall
  unfold BufferHeap.read
  rw [if_pos, htake]
  unfold realEnd at hreal
  omega

/-- The bytes behind the zero area. -/
theorem read_behind (hs : h.Sound (b ::ₘ rest)) {n : ℕ}
    (hn : n ≤ b.end'.toNat - b.zeroAreaEnd.toNat) :
    h.read b.data b.zeroAreaStart.toNat n =
      some (((h.viewOf b.toBuffer).drop (b.zeroAreaEnd.toNat - b.start.toNat)).take n) := by
  have hordered := hs.within.ordered
  obtain ⟨⟨h₁, h₂, h₃⟩, -, -, hreal, -, -⟩ := hs.within
  unfold BufferHeap.read
  rw [viewOf, view_drop _ hordered, take_slice, Nat.min_eq_left hn, if_pos]
  unfold realEnd at hreal
  omega

/-! ## Full copies -/

theorem view_eq_parts (bytes : ℕ → UInt8) (hb : b.Ordered) :
    (b.view bytes).take (b.zeroAreaStart.toNat - b.start.toNat) ++
        List.replicate b.zeroSize.toNat 0 ++
          (b.view bytes).drop (b.zeroAreaEnd.toNat - b.start.toNat) = b.view bytes := by
  rw [view_take, view_drop bytes hb, zeroSize_toNat hb]
  rfl

/-- Bytes are reserved at the start and written. -/
theorem prepend_spec (fresh : ℕ → ℕ → UInt8) {tmp : Buffer}
    (hs : h.Sound (Handle.plain tmp ::ₘ rest)) (n : UInt32) (call : Iterator.WriteCall)
    (hcall : call.written.length = n.toNat) (hn : (h.viewOf tmp).length + n.toNat < 2 ^ 32) :
    ∃ h₁ next resized h₂, tmp.addAtStart fresh h n = some (h₁, next, resized) ∧
      next.begin.perform h₁ call = some h₂ ∧ h₁.Sound (⟨next, n.toNat, 0⟩ ::ₘ rest) ∧
        h.Keeps h₁ rest ∧ h₂.Sound (Handle.plain next ::ₘ rest) ∧ h.Keeps h₂ rest ∧
          h₂.viewOf next = call.written ++ h.viewOf tmp ∧ Reserved h tmp n next := by
  have hlength : (h.viewOf tmp).length = tmp.end'.toNat - tmp.start.toNat := hs.length_viewOf
  obtain ⟨h₁, next, resized, added, hadd, hreserved, hsound₁, hkeeps₁, hadded, hview₁⟩ :=
    addAtStart_spec fresh hs (hlength ▸ hn)
  obtain ⟨h₂, hwrite, hsound₂, hkeeps₂, hview₂⟩ := fill_start hsound₁ hview₁ hadded hcall
  exact ⟨h₁, next, resized, h₂, hadd, hwrite, hsound₁, hkeeps₁, hsound₂.plain,
    hkeeps₁.trans hkeeps₂, hview₂, hreserved⟩

/-- Bytes are reserved at the end and written. -/
theorem postpend_spec (fresh : ℕ → ℕ → UInt8) {tmp : Buffer}
    (hs : h.Sound (Handle.plain tmp ::ₘ rest)) (n : UInt32) (call : Iterator.WriteCall)
    (hcall : call.written.length = n.toNat) (hn : tmp.FitsAtEnd h n) :
    ∃ h₁ next resized i h₂, tmp.addAtEnd fresh h n = some (h₁, next, resized) ∧
      next.atEnd.prev n = some i ∧ i.perform h₁ call = some h₂ ∧
        h₁.Sound (⟨next, 0, n.toNat⟩ ::ₘ rest) ∧ h.Keeps h₁ rest ∧
          h₂.Sound (Handle.plain next ::ₘ rest) ∧ h.Keeps h₂ rest ∧
            h₂.viewOf next = h.viewOf tmp ++ call.written ∧ Reserved h tmp n next := by
  obtain ⟨h₁, next, resized, added, hadd, hreserved, -, hsound₁, hkeeps₁, hadded, hview₁⟩ :=
    addAtEnd_spec fresh hs hn
  obtain ⟨i, h₂, hprev, hwrite, hsound₂, hkeeps₂, hview₂⟩ :=
    fill_end hsound₁ hview₁ rfl hadded hcall
  exact ⟨h₁, next, resized, i, h₂, hadd, hprev, hwrite, hsound₁, hkeeps₁, hsound₂.plain,
    hkeeps₁.trans hkeeps₂, hview₂, hreserved⟩

/-- `CreateFullCopy` of a buffer with a zero area. -/
theorem createFullCopy_of_zeros (fresh : ℕ → ℕ → UInt8) (hs : h.Sound (b ::ₘ rest))
    (hzero : b.zeroSize ≠ 0) (hsize : b.end'.toNat - b.start.toNat + 1 < 2 ^ 32) :
    ∃ h' dst, b.createFullCopy fresh h = some (h', dst) ∧
      h'.Sound (Handle.plain dst ::ₘ b ::ₘ rest) ∧ h.Keeps h' (b ::ₘ rest) ∧
        h'.viewOf dst = h.viewOf b.toBuffer ∧ dst.zeroSize = 0 ∧
          dst.end'.toNat ≤ b.end'.toNat - b.start.toNat + 1 ∧
            ∀ c ∈ b ::ₘ rest, c.data ≠ dst.data := by
  have hordered := hs.within.ordered
  have hparts := view_eq_parts (h.data b.data).bytes hordered
  have hlength := hs.length_viewOf
  obtain ⟨h₁, h₂, h₃⟩ := id hordered
  have hzeroSize := zeroSize_toNat hordered
  have hbefore : (b.zeroAreaStart - b.start).toNat = b.zeroAreaStart.toNat - b.start.toNat :=
    UInt32.toNat_sub_of_toNat_le h₁
  have hbehind : (b.end' - b.zeroAreaEnd).toNat = b.end'.toNat - b.zeroAreaEnd.toNat :=
    UInt32.toNat_sub_of_toNat_le h₃
  -- an empty buffer
  obtain ⟨hsound₀, hkeeps₀, hview₀, -, hdata₀, hnone₀, hend₀⟩ :=
    initializeBuffer_spec fresh hs (n := 0)
      (by rw [UInt32.toNat_zero]; exact UInt32.toNat_lt _)
  have halone₀ : ∀ c ∈ b ::ₘ rest, c.data ≠ (initializeBuffer fresh h 0).2.data := by
    intro c hc
    rw [hdata₀]
    exact (hs.allocated c hc).ne
  unfold createFullCopy
  rw [if_pos hzero]
  generalize initializeBuffer fresh h 0 = created at *
  obtain ⟨heap₀, tmp₀⟩ := created
  dsimp only at *
  rw [UInt32.toNat_zero] at hview₀ hend₀
  rw [List.replicate_zero] at hview₀
  -- the zeros
  obtain ⟨heap₁, tmp₁, resized₁, heap₂, hadd₁, hwrite₁, -, -, hsound₂, hkeeps₂, hview₂, hr₁⟩ :=
    prepend_spec fresh hsound₀ b.zeroSize (.u8s 0 b.zeroSize)
      List.length_replicate (by rw [hview₀, List.length_nil]; omega)
  have halone₁ := hr₁.alone hsound₀ halone₀
  rw [hview₀, List.append_nil] at hview₂
  rw [hadd₁, Option.bind_some]
  dsimp only
  rw [show tmp₁.begin.writeU8 heap₁ 0 b.zeroSize = some heap₂ from hwrite₁, Option.bind_some]
  -- the bytes before them
  have hwritten₂ : (Iterator.WriteCall.u8s 0 b.zeroSize).written.length = b.zeroSize.toNat :=
    List.length_replicate
  obtain ⟨heap₃, tmp₃, resized₃, heap₄, hadd₃, hwrite₃, hsound₃, hkeeps₃, hsound₄, hkeeps₄, hview₄,
      hr₃⟩ :=
    prepend_spec fresh hsound₂ (b.zeroAreaStart - b.start)
      (.bytes ((h.viewOf b.toBuffer).take (b.zeroAreaStart.toNat - b.start.toNat)))
      (by change (List.take _ _).length = _; rw [List.length_take, hlength]; omega)
      (by rw [hview₂, hwritten₂]; omega)
  have halone₃ := hr₃.alone hsound₂ halone₁
  have hkept₃ := hkeeps₀.trans (hkeeps₂.trans hkeeps₃)
  have hread₃ := read_before (Multiset.cons_swap _ b rest ▸ hsound₃)
    (Nat.le_refl (b.zeroAreaStart.toNat - b.start.toNat))
  rw [hkept₃ b (Multiset.mem_cons_self b rest)] at hread₃
  rw [hadd₃, Option.bind_some]
  dsimp only
  rw [hbefore, hread₃, Option.bind_some,
    show tmp₃.begin.write heap₃ _ = some heap₄ from hwrite₃, Option.bind_some]
  -- the bytes behind them
  have hend₃ : tmp₃.end'.toNat ≤ 1 + b.zeroSize.toNat + (b.zeroAreaStart - b.start).toNat := by
    have hle₁ := hr₁.end_le
    have hle₃ := hr₃.end_le
    omega
  obtain ⟨heap₅, tmp₅, resized₅, i, heap₆, hadd₅, hprev, hwrite₅, hsound₅, hkeeps₅, hsound₆,
      hkeeps₆, hview₆, hr₅⟩ :=
    postpend_spec fresh hsound₄ (b.end' - b.zeroAreaEnd)
      (.bytes ((h.viewOf b.toBuffer).drop (b.zeroAreaEnd.toNat - b.start.toNat)))
      (by change (List.drop _ _).length = _; rw [List.length_drop, hlength]; omega)
      ⟨by omega, fun _ => by omega⟩
  have halone₅ := hr₅.alone hsound₄ halone₃
  have hkept₄ := hkeeps₀.trans (hkeeps₂.trans hkeeps₄)
  have hkept₅ := hkept₄.trans hkeeps₅
  have hread₅ := read_behind (Multiset.cons_swap _ b rest ▸ hsound₅)
    (Nat.le_refl (b.end'.toNat - b.zeroAreaEnd.toNat))
  rw [hkept₅ b (Multiset.mem_cons_self b rest), List.take_of_length_le
    (by rw [List.length_drop, hlength]; omega)] at hread₅
  rw [hadd₅, Option.bind_some]
  dsimp only
  rw [hprev, Option.bind_some, hbehind, hread₅, Option.bind_some,
    show i.write heap₅ _ = some heap₆ from hwrite₅, Option.map_some]
  refine ⟨heap₆, tmp₅, rfl, hsound₆, hkept₄.trans hkeeps₆, ?_, ?_, ?_, halone₅⟩
  · rw [hview₆, hview₄, hview₂]
    exact hparts
  · rw [hr₅.zeroSize_eq, hr₃.zeroSize_eq, hr₁.zeroSize_eq, hnone₀]
  · have hle₅ := hr₅.end_le
    omega

/-- The result of `CreateFullCopy`, and whether it has an object of its own. -/
structure FullCopied (h : BufferHeap) (b : Buffer) (rest : Multiset Handle) (h' : BufferHeap)
    (dst : Buffer) : Prop where
  sound : h'.Sound (Handle.plain dst ::ₘ Handle.plain b ::ₘ rest)
  keeps : h.Keeps h' (Handle.plain b ::ₘ rest)
  viewOf_eq : h'.viewOf dst = h.viewOf b
  zeroSize_eq : dst.zeroSize = 0
  end_le : dst.end'.toNat ≤ b.end'.toNat + 1
  data_of_zeros : b.zeroSize ≠ 0 → ∀ c ∈ Handle.plain b ::ₘ rest, c.data ≠ dst.data
  copy_of_none : b.zeroSize = 0 → (h', dst) = b.copy h

theorem createFullCopy_spec (fresh : ℕ → ℕ → UInt8) (hs : h.Sound (b ::ₘ rest))
    (hcard : rest.card + 2 < 2 ^ 32) (hsize : b.end'.toNat - b.start.toNat + 1 < 2 ^ 32) :
    ∃ h' dst, b.createFullCopy fresh h = some (h', dst) ∧
      FullCopied h b.toBuffer rest h' dst := by
  by_cases hzero : b.zeroSize = 0
  · have hcopy := shrinksTo_copy hs.within.ordered b.zeroAreaStart
    obtain ⟨hsound, hkeeps⟩ := copy_spec hs hcopy hcard
    unfold createFullCopy
    rw [if_neg (not_not.mpr hzero)]
    exact ⟨_, _, rfl, hsound, hkeeps.plain, hkeeps.head, hzero, Nat.le_succ _, absurd hzero,
      fun _ => rfl⟩
  · obtain ⟨h', dst, hcreate, hsound, hkeeps, hview, hnone, hend, halone⟩ :=
      createFullCopy_of_zeros fresh hs.plain hzero hsize
    refine ⟨h', dst, hcreate, hsound, hkeeps, hview, hnone, hend.trans ?_, fun _ => halone,
      fun h => absurd h hzero⟩
    change b.end'.toNat - b.start.toNat + 1 ≤ _
    omega

end Buffer

end Ns3Rdma
