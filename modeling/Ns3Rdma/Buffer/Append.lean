import Ns3Rdma.Buffer.FullCopy

/-! # Appending a buffer

`AddAtEnd (o)` joins two zero areas, or appends a full copy of one buffer to a full copy of the
other one. Its results are right unless there are bytes behind the zero area of `o` when the zero
areas are joined, or the two full copies share an object in which the first one grows. -/

namespace Ns3Rdma

open Memory BufferHeap

namespace Buffer

variable {fresh : ℕ → ℕ → UInt8} {h : BufferHeap} {b o : Handle} {rest : Multiset Handle}

theorem zeroAreaEnd_of_none (hb : b.Ordered) (hzero : b.zeroSize = 0) :
    b.zeroAreaEnd.toNat = b.zeroAreaStart.toNat := by
  have hsize := zeroSize_toNat hb
  have hle := hb.zeroArea_le
  rw [hzero, UInt32.toNat_zero] at hsize
  omega

theorem write_nil (h : BufferHeap) (id off : ℕ) : h.write id off [] = some h := by
  unfold BufferHeap.write
  rw [if_pos (Or.inl rfl), store_nil]
  exact congrArg some (set_self h id)

/-- The copies of `Write (start, end)` from a whole buffer without a zero area. -/
theorem copyFrom_of_none {i src : Iterator} {size : UInt32} (h : BufferHeap)
    (hzero : src.zeroEnd.toNat = src.zeroStart.toNat)
    (hstart : src.current.toNat ≤ src.zeroStart.toNat)
    (hend : src.zeroEnd.toNat ≤ src.dataEnd.toNat)
    (hsize : size.toNat = src.dataEnd.toNat - src.current.toNat)
    (hfits : i.current.toNat + size.toNat < 2 ^ 32) :
    i.copyFrom src h size =
      (h.memcpy i.data i.current.toNat src.data src.current.toNat
        (src.zeroStart.toNat - src.current.toNat)).bind fun h =>
          h.memcpy i.data (i.current.toNat + (src.zeroStart.toNat - src.current.toNat)) src.data
            src.zeroStart.toNat (src.dataEnd.toNat - src.zeroEnd.toNat) := by
  unfold Iterator.copyFrom
  dsimp only
  rw [if_pos (UInt32.le_iff_toNat_le.mpr hstart)]
  have hbefore : (min size (src.zeroStart - src.current)).toNat =
      src.zeroStart.toNat - src.current.toNat := by
    rw [UInt32.toNat_min, UInt32.toNat_sub_of_toNat_le hstart]
    omega
  generalize min size (src.zeroStart - src.current) = before at *
  have hdataEnd := src.dataEnd.toNat_lt
  have hinside : (src.current + before).toNat = src.zeroStart.toNat := by
    rw [UInt32.toNat_add_of_lt (by omega), hbefore]
    omega
  have hleft : (size - before).toNat = src.dataEnd.toNat - src.zeroStart.toNat := by
    rw [UInt32.toNat_sub_of_toNat_le (by omega), hbefore]
    omega
  have hzeroLeft : (src.zeroEnd - (src.current + before)).toNat = 0 := by
    rw [UInt32.toNat_sub_of_toNat_le (by omega)]
    omega
  have hdataLeft : (src.dataEnd - (src.current + before)).toNat =
      src.dataEnd.toNat - src.zeroEnd.toNat := by
    rw [UInt32.toNat_sub_of_toNat_le (by omega)]
    omega
  have hzeros : min (size - before) (src.zeroEnd - (src.current + before)) = 0 := by
    apply UInt32.toNat_inj.mp
    rw [UInt32.toNat_min, hzeroLeft, UInt32.toNat_zero, Nat.min_zero]
  have hrest : (min (size - before) (src.dataEnd - (src.current + before))).toNat =
      src.dataEnd.toNat - src.zeroEnd.toNat := by
    rw [UInt32.toNat_min, hdataLeft]
    omega
  have hplace : (src.current + before - (src.zeroEnd - src.zeroStart)).toNat =
      src.zeroStart.toNat := by
    have hnone : (src.zeroEnd - src.zeroStart).toNat = 0 := by
      rw [UInt32.toNat_sub_of_toNat_le hzero.ge]
      omega
    rw [UInt32.toNat_sub_of_toNat_le (by omega), hnone, hinside, Nat.sub_zero]
  rw [if_pos (by rw [UInt32.le_iff_toNat_le]; omega), hzeros, UInt32.toNat_zero,
    List.replicate_zero, add_zero, add_zero, sub_zero, hrest, hplace, hbefore,
    UInt32.toNat_add_of_lt (by omega), hbefore]
  simp only [write_nil, Option.bind_some]

/-- `Write (start, end)` of a whole buffer to the bytes that another one has reserved. -/
theorem writeRange_spec (hs : h.Sound (b ::ₘ o ::ₘ rest)) (hne : b.data ≠ o.data)
    (hb : b.zeroSize = 0) (ho : o.zeroSize = 0)
    (hback : b.back = o.end'.toNat - o.start.toNat) {l added : List UInt8}
    (hview : h.viewOf b.toBuffer = l ++ added) (hadded : added.length = b.back) :
    ∃ i h', b.atEnd.prev o.getSize = some i ∧ i.writeRange h o.begin o.atEnd = some h' ∧
      h'.Sound (b ::ₘ o ::ₘ rest) ∧ h.Keeps h' (o ::ₘ rest) ∧
        h'.viewOf b.toBuffer = l ++ h.viewOf o.toBuffer := by
  have hswap := Multiset.cons_swap b o rest
  have hlength := hs.length_viewOf
  have hlengthO := (hswap ▸ hs).length_viewOf
  have hbw := hs.within
  obtain ⟨hordered, -, -, -, -, hbackLe⟩ := hbw
  have horderedO := (hswap ▸ hs).within.ordered
  have hnone := zeroAreaEnd_of_none hordered hb
  have hnoneO := zeroAreaEnd_of_none horderedO ho
  obtain ⟨hstart, hzero, hend⟩ := id hordered
  obtain ⟨hstartO, hzeroO, hendO⟩ := id horderedO
  rw [hview, List.length_append, hadded] at hlength
  have hsize : o.getSize.toNat = o.end'.toNat - o.start.toNat :=
    UInt32.toNat_sub_of_toNat_le (by omega)
  obtain ⟨hprev, hcurrent⟩ := Iterator.prev_eq_some
    (show o.getSize.toNat ≤ b.atEnd.current.toNat by dsimp only [atEnd]; omega)
  obtain ⟨i, hi, hdata, hzs, hze, hds, hde, hcur⟩ : ∃ i, b.atEnd.prev o.getSize = some i ∧
      i.data = b.data ∧ i.zeroStart = b.zeroAreaStart ∧ i.zeroEnd = b.zeroAreaEnd ∧
        i.dataStart = b.start ∧ i.dataEnd = b.end' ∧
          i.current.toNat = b.end'.toNat - o.getSize.toNat :=
    ⟨_, hprev, rfl, rfl, rfl, rfl, rfl, hcurrent⟩
  have hlt := b.end'.toNat_lt
  -- the bytes before the empty zero area, and those behind it
  obtain ⟨h₁, hwrite₁, hsound₁, hkeeps₁, hview₁⟩ := write_back_spec hs
    (v := b.end'.toNat - o.getSize.toNat)
    (l := (h.viewOf o.toBuffer).take (o.zeroAreaStart.toNat - o.start.toNat)) (by omega)
    (by rw [List.length_take]; omega)
  obtain ⟨h₂, hwrite₂, hsound₂, hkeeps₂, hview₂⟩ := write_back_spec hsound₁
    (v := b.end'.toNat - o.getSize.toNat + (o.zeroAreaStart.toNat - o.start.toNat))
    (l := (h.viewOf o.toBuffer).drop (o.zeroAreaEnd.toNat - o.start.toNat)) (by omega)
    (by rw [List.length_drop]; omega)
  refine ⟨i, h₂, hi, ?_, hsound₂, hkeeps₁.trans hkeeps₂, ?_⟩
  · have hcopy := @copyFrom_of_none i o.begin o.getSize h hnoneO hstartO hendO hsize
      (by rw [hcur]; omega)
    have hcheck : i.checkNoZero i.current (i.current + o.getSize) = true := by
      apply Iterator.checkNoZero_of
      intro v hle hlt
      rw [UInt32.toNat_add_of_lt (by omega)] at hlt
      rw [Iterator.check_iff, hds, hzs, hze, hde]
      omega
    have hread₁ := read_before (hswap ▸ hs) (Nat.le_refl _)
    have hread₂ := read_behind (Multiset.cons_swap b o rest ▸ hsound₁) (Nat.le_refl _)
    rw [hkeeps₁ o (Multiset.mem_cons_self o rest), List.take_of_length_le
      (by rw [List.length_drop]; omega)] at hread₂
    rw [show b.zeroAreaStart.toNat + (b.end'.toNat - o.getSize.toNat - b.zeroAreaEnd.toNat) =
      b.end'.toNat - o.getSize.toNat by omega] at hwrite₁
    rw [show b.zeroAreaStart.toNat + (b.end'.toNat - o.getSize.toNat +
        (o.zeroAreaStart.toNat - o.start.toNat) - b.zeroAreaEnd.toNat) =
      b.end'.toNat - o.getSize.toNat + (o.zeroAreaStart.toNat - o.start.toNat) by omega] at hwrite₂
    have hmemcpy₁ : h.memcpy b.data (b.end'.toNat - o.getSize.toNat) o.data o.start.toNat
        (o.zeroAreaStart.toNat - o.start.toNat) = some h₁ := by
      unfold memcpy
      rw [hread₁, Option.bind_some, hwrite₁]
    have hmemcpy₂ : h₁.memcpy b.data (b.end'.toNat - o.getSize.toNat +
        (o.zeroAreaStart.toNat - o.start.toNat)) o.data o.zeroAreaStart.toNat
          (o.end'.toNat - o.zeroAreaEnd.toNat) = some h₂ := by
      unfold memcpy
      rw [hread₂, Option.bind_some, hwrite₂]
    unfold Iterator.writeRange
    rw [hdata, if_pos]
    · change i.copyFrom o.begin h o.getSize = _
      rw [hcopy, hdata, hcur]
      change (h.memcpy b.data _ o.data o.start.toNat _).bind _ = _
      rw [show o.begin.zeroStart.toNat - o.begin.current.toNat =
        o.zeroAreaStart.toNat - o.start.toNat from rfl, hmemcpy₁, Option.bind_some]
      exact hmemcpy₂
    · exact ⟨rfl, UInt32.le_iff_toNat_le.mpr (hstartO.trans (hzeroO.trans hendO)), rfl, rfl, hne,
        hcheck⟩
  · have htake : ((h.viewOf o.toBuffer).take (o.zeroAreaStart.toNat - o.start.toNat)).length =
        o.zeroAreaStart.toNat - o.start.toNat := by
      rw [List.length_take]
      omega
    have hparts : (h.viewOf o.toBuffer).take (o.zeroAreaStart.toNat - o.start.toNat) ++
        (h.viewOf o.toBuffer).drop (o.zeroAreaEnd.toNat - o.start.toNat) = h.viewOf o.toBuffer := by
      rw [hnoneO, List.take_append_drop]
    rw [show b.end'.toNat - o.getSize.toNat - b.start.toNat = l.length by omega, hview] at hview₁
    rw [hview₁, show b.end'.toNat - o.getSize.toNat + (o.zeroAreaStart.toNat - o.start.toNat) -
      b.start.toNat = l.length + (o.zeroAreaStart.toNat - o.start.toNat) by omega] at hview₂
    have hsplice := @splice_splice _ l.length (l ++ added)
      ((h.viewOf o.toBuffer).drop (o.zeroAreaEnd.toNat - o.start.toNat))
      (by rw [List.length_append]; omega)
      ((h.viewOf o.toBuffer).take (o.zeroAreaStart.toNat - o.start.toNat))
    rw [htake] at hsplice
    rw [hview₂, hsplice, hparts, splice_right (by omega)]

/-! ## Two full copies -/

/-- The rest of `AddAtEnd (o)`, once the two full copies are made. -/
theorem appendCopies_spec (fresh : ℕ → ℕ → UInt8) {dst src : Buffer}
    (hs : h.Sound (Handle.plain dst ::ₘ Handle.plain src ::ₘ b ::ₘ rest))
    (hcard : rest.card + 3 < 2 ^ 32) (hdst : dst.zeroSize = 0) (hsrc : src.zeroSize = 0)
    (hfits : dst.end'.toNat + (src.end'.toNat - src.start.toNat) < 2 ^ 32)
    (hapart : dst.data = src.data → ¬ dst.GrowsInPlace h src.getSize) :
    ∃ h₁ next resized destStart h₂, dst.addAtEnd fresh h src.getSize = some (h₁, next, resized) ∧
      next.atEnd.prev src.getSize = some destStart ∧
        destStart.writeRange h₁ src.begin src.atEnd = some h₂ ∧
          (next.destroy (src.destroy (b.assign h₂ next).1)).Sound (Handle.plain next ::ₘ rest) ∧
            h.Keeps (next.destroy (src.destroy (b.assign h₂ next).1)) rest ∧
              (next.destroy (src.destroy (b.assign h₂ next).1)).viewOf next =
                h.viewOf dst ++ h.viewOf src ∧
              next.end'.toNat ≤ dst.end'.toNat + (src.end'.toNat - src.start.toNat) := by
  have hsrcSound := Multiset.cons_swap (Handle.plain dst) (Handle.plain src) (b ::ₘ rest) ▸ hs
  have horderedSrc : src.Ordered := hsrcSound.within.ordered
  obtain ⟨hstart, hzero, hend⟩ := horderedSrc
  have hsize : src.getSize.toNat = src.end'.toNat - src.start.toNat :=
    UInt32.toNat_sub_of_toNat_le (by omega)
  have hsrcLt : src.data < h.next := hsrcSound.allocated _ (Multiset.mem_cons_self _ _)
  obtain ⟨h₁, next, resized, added, hadd, hreserved, hplace, hsound₁, hkeeps₁, hadded, hview₁⟩ :=
    addAtEnd_spec fresh hs (n := src.getSize)
      ⟨by change dst.end'.toNat - dst.start.toNat + _ < _; omega,
        fun _ => by change dst.end'.toNat + _ < _; omega⟩
  have hne : next.data ≠ src.data := by
    intro heq
    rcases hreserved.data_eq with hsame | hnew
    · exact hapart (hsame.symm.trans heq) (hplace hsame)
    · omega
  obtain ⟨destStart, h₂, hprev, hwrite, hsound₂, hkeeps₂, hview₂⟩ :=
    writeRange_spec hsound₁ hne (hreserved.zeroSize_eq.trans hdst) hsrc hsize hview₁ hadded
  -- the assignment, and the end of the two copies
  rw [Multiset.cons_swap (Handle.plain src) b, Multiset.cons_swap _ b] at hsound₂
  obtain ⟨hsound₃, hkeeps₃, hview₃⟩ :=
    assign_spec hsound₂ (by rw [Multiset.card_cons]; omega)
  dsimp only at hsound₃ hkeeps₃ hview₃
  rw [Multiset.cons_swap _ (Handle.plain src), Multiset.cons_swap _ (Handle.plain src)] at hsound₃
  obtain ⟨hsound₄, hkeeps₄⟩ := destroy_spec hsound₃
  obtain ⟨hsound₅, hkeeps₅⟩ := destroy_spec hsound₄
  have hkept₂ := hkeeps₁.trans hkeeps₂
  refine ⟨h₁, next, resized, destStart, h₂, hadd, hprev, hwrite, hsound₅, ?_, ?_,
    hsize ▸ hreserved.end_le⟩
  · exact ((hkept₂.tail.tail.trans hkeeps₃.tail.tail).trans hkeeps₄.tail.tail).trans hkeeps₅.tail
  · have hlast : (next.destroy (src.destroy (b.assign h₂ next).1)).viewOf next =
        (b.assign h₂ next).1.viewOf next := hkeeps₅.head.trans hkeeps₄.head
    rw [hlast, hview₃, hview₂]
    exact congrArg _ hkeeps₁.head

/-- The two full copies share an object, and the first one grows in it. -/
def SharesGrowth (h : BufferHeap) (b o : Buffer) : Prop :=
  b.zeroSize = 0 ∧ o.zeroSize = 0 ∧ b.data = o.data ∧
    b.getInternalEnd + o.getSize ≤ (h.data b.data).size ∧ b.end' = (h.data b.data).dirtyEnd

/-- The copies are apart where the source asserts it. -/
theorem fullCopies_apart {h₁ h₂ : BufferHeap} {b o dst src : Buffer} {rest₁ rest₂ : Multiset Handle}
    (hdst : FullCopied h b rest₁ h₁ dst) (hsrc : FullCopied h₁ o rest₂ h₂ src)
    (ho : ∃ c ∈ Handle.plain b ::ₘ rest₁, c.data = o.data) (hmem : Handle.plain dst ∈ rest₂)
    (hshares : ¬ SharesGrowth h b o) :
    dst.data = src.data → ¬ dst.GrowsInPlace h₂ src.getSize := by
  rintro heq ⟨hroom, hclean⟩
  by_cases hozero : o.zeroSize = 0
  · obtain ⟨rfl, rfl⟩ := Prod.mk.inj (hsrc.copy_of_none hozero)
    by_cases hbzero : b.zeroSize = 0
    · -- both are copies, so the object has further users
      obtain ⟨rfl, rfl⟩ := Prod.mk.inj (hdst.copy_of_none hbzero)
      have hdata : b.data = o.data := heq
      have hshared := hsrc.sound.head
      have hcounted := (Shared.cons_iff.mp hshared).1
      have husers := usersOf_cons_self (Handle.plain o) rest₂
      change usersOf _ o.data = _ at husers
      change ((BufferHeap.addRef _ o.data).data o.data).count.toNat = (usersOf _ o.data).card + 1
        at hcounted
      rw [husers, Multiset.card_cons] at hcounted
      have hmany : 1 < ((BufferHeap.addRef (h.addRef b.data) o.data).data o.data).count := by
        rw [UInt32.lt_iff_toNat_lt, hcounted]
        exact Nat.lt_add_of_pos_left (Nat.succ_pos _)
      have hle := (hsrc.sound.within_of_mem
        (Multiset.mem_cons_of_mem (Multiset.mem_cons_of_mem hmem))).le_dirtyEnd
      change b.end'.toNat ≤ ((BufferHeap.addRef _ o.data).data b.data).dirtyEnd.toNat at hle
      have hend : b.end' = ((BufferHeap.addRef (h.addRef b.data) o.data).data b.data).dirtyEnd := by
        have hnot : ¬ b.end' < ((BufferHeap.addRef (h.addRef b.data) o.data).data b.data).dirtyEnd :=
          fun hlt => hclean ⟨hdata ▸ hmany, hlt⟩
        rw [UInt32.lt_iff_toNat_lt] at hnot
        exact UInt32.toNat_inj.mp (by omega)
      rw [addRef_dirtyEnd, addRef_dirtyEnd] at hend
      change b.getInternalEnd + o.getSize ≤
        ((BufferHeap.addRef (h.addRef b.data) o.data).data b.data).size at hroom
      rw [addRef_size, addRef_size] at hroom
      exact hshares ⟨hbzero, hozero, hdata, hroom, hend⟩
    · obtain ⟨c, hc, hcd⟩ := ho
      exact hdst.data_of_zeros hbzero c hc (hcd.trans heq.symm)
  · exact hsrc.data_of_zeros hozero _ (Multiset.mem_cons_of_mem hmem) heq

/-! ## Adjacent zero areas -/

theorem memcpy_zero (h : BufferHeap) (dst dstOff src srcOff : ℕ) :
    h.memcpy dst dstOff src srcOff 0 = some h := by
  unfold memcpy BufferHeap.read
  rw [if_pos (Or.inl rfl), slice_zero, Option.bind_some, write_nil]

theorem min_zero (n : UInt32) : min 0 n = 0 := by
  apply UInt32.toNat_inj.mp
  rw [UInt32.toNat_min, UInt32.toNat_zero, Nat.zero_min]

theorem copyFrom_zero (i src : Iterator) (h : BufferHeap) : i.copyFrom src h 0 = some h := by
  unfold Iterator.copyFrom
  simp only [min_zero, ite_self, sub_zero, UInt32.toNat_zero, List.replicate_zero, memcpy_zero,
    write_nil, Option.bind_some]

/-- `Write (start, end)` of no bytes. -/
theorem writeRange_zero {i : Iterator} (h : BufferHeap) (hne : i.data ≠ o.data) :
    i.writeRange h o.atEnd o.atEnd = some h := by
  have hcheck : i.checkNoZero i.current (i.current + 0) = true := by
    rw [add_zero]
    exact Iterator.checkNoZero_of fun v hle hlt => absurd hle (Nat.not_le_of_lt hlt)
  unfold Iterator.writeRange
  dsimp only
  rw [sub_self, if_pos, copyFrom_zero]
  exact ⟨rfl, UInt32.le_iff_toNat_le.mpr (Nat.le_refl _), rfl, rfl, hne, hcheck⟩

/-- Only zeros are appended to zeros. -/
theorem appendZeros_spec (fresh : ℕ → ℕ → UInt8) (hs : h.Sound (b ::ₘ o ::ₘ rest))
    (hmeet : zeroAreasMeet h b.toBuffer o.toBuffer) (hnone : o.end' = o.zeroAreaEnd)
    (hfits : b.end'.toNat + (o.end'.toNat - o.start.toNat) < 2 ^ 32) :
    ∃ h' next, b.append fresh h o.toBuffer false = some (h', next) ∧
      h'.Sound (Handle.plain next ::ₘ o ::ₘ rest) ∧ h.Keeps h' (o ::ₘ rest) ∧
        h'.viewOf next = h.viewOf b.toBuffer ++ h.viewOf o.toBuffer ∧
          next.end'.toNat ≤ b.end'.toNat + (o.end'.toNat - o.start.toNat) + 1 := by
  obtain ⟨hcount, hbEnd, hdirty, hoStart, -⟩ := id hmeet
  have horderedO := (Multiset.cons_swap b o rest ▸ hs).within.ordered
  obtain ⟨⟨h₁, h₂, h₃⟩, hdirtyStart, -, hreal, -, -⟩ := hs.within
  have hzeroSize := zeroSize_toNat horderedO
  have hsum : (b.zeroAreaEnd + o.zeroSize).toNat = b.zeroAreaEnd.toNat + o.zeroSize.toNat := by
    refine UInt32.toNat_add_of_lt ?_
    rw [hzeroSize, ← hbEnd, ← hnone, ← hoStart]
    exact hfits
  generalize hgrown : ({ b.toBuffer with
    zeroAreaEnd := b.zeroAreaEnd + o.zeroSize, end' := b.zeroAreaEnd + o.zeroSize } : Buffer) = grown
  generalize hheap : h.setDirty b.data (h.data b.data).dirtyStart (b.zeroAreaEnd + o.zeroSize) =
    heap
  have hsound₀ : heap.Sound (Handle.plain grown ::ₘ o ::ₘ rest) := by
    rw [← hheap, ← hgrown]
    refine hs.replace rfl fun hshared => ?_
    rw [hshared.of_count_eq_one hcount]
    refine Shared.singleton hcount ⟨⟨h₁, ?_, Nat.le_refl _⟩, hdirtyStart, Nat.le_refl _, ?_, h₁,
      Nat.le_refl _⟩
    · change b.zeroAreaStart.toNat ≤ (b.zeroAreaEnd + o.zeroSize).toNat
      omega
    · change (b.zeroAreaEnd + o.zeroSize).toNat -
        ((b.zeroAreaEnd + o.zeroSize).toNat - b.zeroAreaStart.toNat) ≤ (h.data b.data).size.toNat
      unfold realEnd at hreal
      rw [hbEnd] at hreal
      omega
  have hkeeps₀ : h.Keeps heap (o ::ₘ rest) := by
    rw [← hheap]
    exact keeps_of_bytes fun c _ => setDirty_bytes _ _ _ _
  have hviewO : h.viewOf o.toBuffer = List.replicate o.zeroSize.toNat 0 := by
    rw [viewOf, view, hoStart, hnone, Nat.sub_self, Nat.sub_self, slice_zero,
      List.append_nil, List.nil_append, hzeroSize]
  have hview₀ : heap.viewOf grown = h.viewOf b.toBuffer ++ h.viewOf o.toBuffer := by
    rw [← hheap, hviewO, viewOf, setDirty_bytes, ← hgrown, viewOf, view, view]
    dsimp only
    rw [hbEnd, Nat.sub_self, Nat.sub_self, slice_zero, List.append_nil, List.append_nil,
      List.append_assoc, List.replicate_append_replicate, hsum]
    congr 3
    omega
  -- no bytes are left to be added
  obtain ⟨h', next, resized, added, hadd, hreserved, -, hsound₁, hkeeps₁, hadded, hview₁⟩ :=
    addAtEnd_spec fresh hsound₀ (n := 0)
      ⟨by rw [UInt32.toNat_zero]; exact (Nat.sub_le _ _).trans_lt (UInt32.toNat_lt _),
        fun _ => by rw [UInt32.toNat_zero]; exact UInt32.toNat_lt _⟩
  have hne : next.data ≠ o.data := by
    intro heq
    rcases hreserved.data_eq with hsame | hnew
    · have hshared : o ∈ usersOf (o ::ₘ rest) b.data := by
        refine Multiset.mem_filter.mpr ⟨Multiset.mem_cons_self o rest, ?_⟩
        rw [← heq, hsame, ← hgrown]
        rfl
      rw [hs.head.of_count_eq_one hcount] at hshared
      exact absurd hshared (Multiset.notMem_zero o)
    · have hlt := hsound₀.allocated o (by simp)
      omega
  rw [List.eq_nil_of_length_eq_zero hadded, List.append_nil] at hview₁
  have hprev : ∀ c : Buffer, c.atEnd.prev 0 = some c.atEnd := by
    intro c
    rw [(Iterator.prev_eq_some (Nat.zero_le _)).1, sub_zero]
  refine ⟨h', next, ?_, hsound₁.plain, hkeeps₀.trans hkeeps₁, hview₁.trans hview₀, ?_⟩
  swap
  · have hend := hreserved.end_le
    rw [UInt32.toNat_zero, ← hgrown] at hend
    change next.end'.toNat ≤ (b.zeroAreaEnd + o.zeroSize).toNat + 0 at hend
    rw [hsum, hzeroSize, ← hbEnd, ← hnone, ← hoStart] at hend
    omega
  unfold append
  rw [if_pos hmeet, if_neg (by decide), hnone, sub_self]
  subst hgrown hheap
  refine (congrArg (fun result => Option.bind result _) hadd).trans ?_
  rw [Option.bind_some]
  dsimp only
  rw [hprev, hprev, Option.bind_some, Option.bind_some, writeRange_zero h' hne, Option.map_some]

/-- `AddAtEnd (o)` of another buffer, where the source gets it right. -/
def AppendsRight (h : BufferHeap) (b o : Buffer) (self : Bool) : Prop :=
  if zeroAreasMeet h b o then self = false ∧ o.end' = o.zeroAreaEnd else ¬ SharesGrowth h b o

/-- `AddAtEnd (o)` through two full copies. -/
theorem appendSlow_spec (self : Bool) {h₁ h₂ : BufferHeap} {b o dst src : Buffer}
    {rest₁ rest₂ rest : Multiset Handle} (hmeet : ¬ zeroAreasMeet h b o)
    (hshares : ¬ SharesGrowth h b o) (hcreate₁ : b.createFullCopy fresh h = some (h₁, dst))
    (hdst : FullCopied h b rest₁ h₁ dst) (ho : ∃ c ∈ Handle.plain b ::ₘ rest₁, c.data = o.data)
    (hcreate₂ : o.createFullCopy fresh h₁ = some (h₂, src))
    (hsrc : FullCopied h₁ o rest₂ h₂ src) (hmem : Handle.plain dst ∈ rest₂)
    (hperm : Handle.plain src ::ₘ Handle.plain o ::ₘ rest₂ =
      Handle.plain dst ::ₘ Handle.plain src ::ₘ Handle.plain b ::ₘ rest)
    (hcard : rest.card + 3 < 2 ^ 32)
    (hfits : b.end'.toNat + 1 + (h₁.viewOf o).length < 2 ^ 32) :
    ∃ h' next, b.append fresh h o self = some (h', next) ∧ h'.Sound (Handle.plain next ::ₘ rest) ∧
      h₂.Keeps h' rest ∧ h'.viewOf next = h.viewOf b ++ h₁.viewOf o ∧
        next.end'.toNat ≤ b.end'.toNat + 1 + (h₁.viewOf o).length := by
  have hsound := hsrc.sound
  have hlength : (h₂.viewOf src).length = src.end'.toNat - src.start.toNat := hsound.length_viewOf
  rw [hsrc.viewOf_eq] at hlength
  have hend := hdst.end_le
  have hkept : h₂.viewOf dst = h₁.viewOf dst :=
    hsrc.keeps _ (Multiset.mem_cons_of_mem hmem)
  rw [hperm] at hsound
  obtain ⟨h₃, next, resized, destStart, h₄, hadd, hprev, hwrite, hsound', hkeeps, hview, hnext⟩ :=
    appendCopies_spec fresh hsound hcard hdst.zeroSize_eq hsrc.zeroSize_eq (by omega)
      (fullCopies_apart hdst hsrc ho hmem hshares)
  refine ⟨_, next, ?_, hsound', hkeeps, ?_, by omega⟩
  · unfold append
    rw [if_neg hmeet, hcreate₁, Option.bind_some]
    dsimp only
    rw [hcreate₂, Option.bind_some]
    dsimp only
    rw [hadd, Option.bind_some]
    dsimp only
    rw [hprev, Option.bind_some, hwrite, Option.map_some]
    rfl
  · rw [hview, hkept, hdst.viewOf_eq, hsrc.viewOf_eq]

/-- `AddAtEnd (o)` concatenates the two lists. -/
theorem append_spec (fresh : ℕ → ℕ → UInt8) (hs : h.Sound (b ::ₘ o ::ₘ rest))
    (hcard : rest.card + 5 < 2 ^ 32)
    (hfits : b.end'.toNat + (o.end'.toNat - o.start.toNat) + 1 < 2 ^ 32)
    (hright : AppendsRight h b.toBuffer o.toBuffer false) :
    ∃ h' next, b.append fresh h o.toBuffer false = some (h', next) ∧
      h'.Sound (Handle.plain next ::ₘ Handle.plain o.toBuffer ::ₘ rest) ∧
        h.Keeps h' (Handle.plain o.toBuffer ::ₘ rest) ∧
          h'.viewOf next = h.viewOf b.toBuffer ++ h.viewOf o.toBuffer ∧
            next.end'.toNat ≤ b.end'.toNat + (o.end'.toNat - o.start.toNat) + 1 := by
  have hplain := (Multiset.cons_swap b o rest ▸ hs).plain
  rw [Multiset.cons_swap] at hplain
  unfold AppendsRight at hright
  split at hright
  next hmeet =>
    exact appendZeros_spec fresh hplain hmeet hright.2 (by dsimp only [Handle.plain]; omega)
  next hmeet =>
    obtain ⟨h₁, dst, hcreate₁, hdst⟩ := createFullCopy_spec fresh hplain
      (by rw [Multiset.card_cons]; omega) (by omega)
    have hsound₁ := hdst.sound
    rw [Multiset.cons_swap (Handle.plain b.toBuffer), Multiset.cons_swap (Handle.plain dst)]
      at hsound₁
    obtain ⟨h₂, src, hcreate₂, hsrc⟩ := createFullCopy_spec fresh hsound₁
      (by rw [Multiset.card_cons, Multiset.card_cons]; omega)
      (by dsimp only [Handle.plain]; omega)
    have hviewO : h₁.viewOf o.toBuffer = h.viewOf o.toBuffer := hdst.keeps.tail.head
    have hlengthO : (h₁.viewOf o.toBuffer).length = o.end'.toNat - o.start.toNat :=
      hsound₁.length_viewOf
    have hperm : Handle.plain src ::ₘ Handle.plain o.toBuffer ::ₘ Handle.plain dst ::ₘ
        Handle.plain b.toBuffer ::ₘ rest = Handle.plain dst ::ₘ Handle.plain src ::ₘ
          Handle.plain b.toBuffer ::ₘ Handle.plain o.toBuffer ::ₘ rest := by
      rw [Multiset.cons_swap (Handle.plain o.toBuffer) (Handle.plain dst),
        Multiset.cons_swap (Handle.plain src) (Handle.plain dst),
        Multiset.cons_swap (Handle.plain o.toBuffer) (Handle.plain b.toBuffer)]
    obtain ⟨h', next, happend, hsound, hkeeps, hview, hnext⟩ := appendSlow_spec false hmeet hright
      hcreate₁ hdst ⟨_, Multiset.mem_cons_of_mem (Multiset.mem_cons_self _ _), rfl⟩ hcreate₂ hsrc
      (Multiset.mem_cons_self _ _) hperm (by rw [Multiset.card_cons]; omega) (by omega)
    have hsub : Handle.plain o.toBuffer ::ₘ rest ⊆ Handle.plain o.toBuffer ::ₘ Handle.plain dst ::ₘ
        Handle.plain b.toBuffer ::ₘ rest :=
      Multiset.cons_subset_cons
        (Multiset.Subset.trans (Multiset.subset_cons _ _) (Multiset.subset_cons _ _))
    refine ⟨h', next, happend, hsound, (hdst.keeps.tail.trans (hsrc.keeps.mono hsub)).trans hkeeps,
      ?_, by omega⟩
    rw [hview, hviewO]

/-- A buffer that is appended to itself. -/
theorem appendSelf_spec (fresh : ℕ → ℕ → UInt8) (hs : h.Sound (b ::ₘ rest))
    (hcard : rest.card + 5 < 2 ^ 32)
    (hfits : b.end'.toNat + (b.end'.toNat - b.start.toNat) + 1 < 2 ^ 32)
    (hright : AppendsRight h b.toBuffer b.toBuffer true) :
    ∃ h' next, b.append fresh h b.toBuffer true = some (h', next) ∧
      h'.Sound (Handle.plain next ::ₘ rest) ∧ h.Keeps h' rest ∧
        h'.viewOf next = h.viewOf b.toBuffer ++ h.viewOf b.toBuffer ∧
          next.end'.toNat ≤ b.end'.toNat + (b.end'.toNat - b.start.toNat) + 1 := by
  unfold AppendsRight at hright
  split at hright
  next hmeet => exact absurd hright.1 (by decide)
  next hmeet =>
    obtain ⟨h₁, dst, hcreate₁, hdst⟩ := createFullCopy_spec fresh hs (by omega) (by omega)
    have hsound₁ := hdst.sound
    rw [Multiset.cons_swap (Handle.plain dst)] at hsound₁
    obtain ⟨h₂, src, hcreate₂, hsrc⟩ := createFullCopy_spec fresh hsound₁
      (by rw [Multiset.card_cons]; omega) (by dsimp only [Handle.plain]; omega)
    have hviewB : h₁.viewOf b.toBuffer = h.viewOf b.toBuffer := hdst.keeps.head
    have hlengthB : (h₁.viewOf b.toBuffer).length = b.end'.toNat - b.start.toNat :=
      hsound₁.length_viewOf
    have hperm : Handle.plain src ::ₘ Handle.plain b.toBuffer ::ₘ Handle.plain dst ::ₘ rest =
        Handle.plain dst ::ₘ Handle.plain src ::ₘ Handle.plain b.toBuffer ::ₘ rest := by
      rw [Multiset.cons_swap (Handle.plain b.toBuffer) (Handle.plain dst),
        Multiset.cons_swap (Handle.plain src) (Handle.plain dst)]
    obtain ⟨h', next, happend, hsound, hkeeps, hview, hnext⟩ := appendSlow_spec true hmeet hright
      hcreate₁ hdst ⟨_, Multiset.mem_cons_self _ _, rfl⟩ hcreate₂ hsrc
      (Multiset.mem_cons_self _ _) hperm (by omega) (by omega)
    refine ⟨h', next, happend, hsound, (hdst.keeps.tail.trans hsrc.keeps.tail.tail).trans hkeeps,
      ?_, by omega⟩
    rw [hview, hviewB]

end Buffer

end Ns3Rdma
