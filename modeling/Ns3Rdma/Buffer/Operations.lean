import Ns3Rdma.Buffer.Heap

/-! # What each operation does

The result of each operation, the list that its buffer then represents, and what it keeps: the
invariants of the heap, and the lists of the other buffers. No operation here runs into a failed
assertion or an access outside the allocated bytes, as long as no offset reaches 2^32. -/

namespace Ns3Rdma

open Memory BufferHeap

namespace Buffer

variable {h : BufferHeap} {b : Handle} {live rest : Multiset Handle}

/-! ## Construction, copies and destruction -/

/-- A new buffer in an object of its own, which has one byte. -/
theorem initializeBuffer_spec (fresh : ℕ → ℕ → UInt8) (hs : h.Sound live) {n : UInt32}
    (hn : (min 1 h.recommendedStart).toNat + n.toNat < 2 ^ 32) :
    (initializeBuffer fresh h n).1.Sound
        (Handle.plain (initializeBuffer fresh h n).2 ::ₘ live) ∧
      h.Keeps (initializeBuffer fresh h n).1 live ∧
      (initializeBuffer fresh h n).1.viewOf (initializeBuffer fresh h n).2 =
        List.replicate n.toNat 0 ∧
      (initializeBuffer fresh h n).1.next = h.next + 1 ∧
      (initializeBuffer fresh h n).2.data = h.next ∧
      (initializeBuffer fresh h n).2.zeroSize = n ∧
      (initializeBuffer fresh h n).2.end'.toNat ≤ 1 + n.toNat := by
  have hcreated := create_data_self fresh h 0
  rw [if_pos rfl] at hcreated
  have hmin : min ((h.create fresh 0).data h.next).size h.recommendedStart =
      min 1 h.recommendedStart := by rw [hcreated]
  have hstart : (min 1 h.recommendedStart).toNat ≤ 1 := by
    rw [UInt32.toNat_min]
    exact Nat.min_le_left _ _
  generalize hresult : initializeBuffer fresh h n = result
  unfold initializeBuffer at hresult
  dsimp only at hresult
  rw [hmin] at hresult
  generalize min 1 h.recommendedStart = start at hresult hstart hn
  have hend : (start + n).toNat = start.toNat + n.toNat := UInt32.toNat_add_of_lt hn
  subst hresult
  have hother : ∀ id, id ≠ h.next →
      ((h.create fresh 0).setDirty h.next start (start + n)).data id = h.data id := by
    intro id hid
    unfold setDirty
    rw [set_data_of_ne hid, create_data_of_ne fresh hid]
  have hself : ((h.create fresh 0).setDirty h.next start (start + n)).data h.next =
      ⟨1, 1, start, start + n, fresh h.next⟩ := by
    unfold setDirty
    rw [set_data_self, hcreated]
  refine ⟨hs.alloc rfl (fun id hid => hother id hid.ne) rfl ?_, ?_, ?_, rfl, rfl,
    add_sub_cancel_left _ _, ?_⟩
  · rw [hself]
    refine Shared.singleton rfl ⟨⟨Nat.le_refl _, ?_, Nat.le_refl _⟩, Nat.le_refl _, Nat.le_refl _,
      ?_, Nat.le_refl _, Nat.le_refl _⟩
    · change start.toNat ≤ (start + n).toNat
      omega
    · change (start + n).toNat - ((start + n).toNat - start.toNat) ≤ 1
      omega
  · apply keeps_of_bytes
    intro c hc
    rw [hother _ (hs.allocated c hc).ne]
  · unfold viewOf view
    dsimp only
    rw [Nat.sub_self, Nat.sub_self, slice_zero, List.append_nil, List.nil_append, hend,
      Nat.add_sub_cancel_left]
  · dsimp only
    omega

/-- The offsets of a buffer and of a copy of it are the same. -/
theorem shrinksTo_copy (h : b.Ordered) (maxZeroAreaStart : UInt32) :
    b.ShrinksTo { b.toBuffer with maxZeroAreaStart := maxZeroAreaStart } :=
  ⟨rfl, ⟨h.1, h.2, h.3⟩, Nat.le_refl _, Nat.le_refl _, Nat.le_refl _, fun _ => rfl⟩

theorem destroy_spec (hs : h.Sound (b ::ₘ rest)) :
    (b.destroy h).Sound rest ∧ h.Keeps (b.destroy h) rest := by
  refine ⟨(hs.recommend b.maxZeroAreaStart).release, keeps_of_bytes fun c _ => ?_⟩
  exact release_bytes _ _

/-- A copy of a buffer, or a part of a copy. -/
theorem copy_spec (hs : h.Sound (b ::ₘ rest)) {part : Buffer} (hpart : b.ShrinksTo part)
    (hcard : rest.card + 2 < 2 ^ 32) :
    (h.addRef b.data).Sound (Handle.plain part ::ₘ Handle.plain b.toBuffer ::ₘ rest) ∧
      h.Keeps (h.addRef b.data) (b ::ₘ rest) :=
  ⟨hs.addRef hpart hcard, keeps_of_bytes fun _ _ => addRef_bytes _ _⟩

theorem assign_spec {o : Handle} (hs : h.Sound (b ::ₘ o ::ₘ rest)) (hcard : rest.card + 2 < 2 ^ 32) :
    (b.assign h o.toBuffer).1.Sound
        (Handle.plain o.toBuffer ::ₘ Handle.plain o.toBuffer ::ₘ rest) ∧
      h.Keeps (b.assign h o.toBuffer).1 (o ::ₘ rest) ∧
        (b.assign h o.toBuffer).1.viewOf o.toBuffer = h.viewOf o.toBuffer := by
  have ho : o.Ordered := (Sound.within hs.release).ordered
  have hassign : (b.assign h o.toBuffer).1 =
      ((h.release b.data).addRef o.data).recommend b.maxZeroAreaStart := by
    unfold assign
    split
    · rfl
    next hsame =>
      rw [not_not] at hsame
      rw [← hsame, release_addRef]
  have hbytes : ∀ id, ((b.assign h o.toBuffer).1.data id).bytes = (h.data id).bytes := by
    intro id
    rw [hassign]
    exact (addRef_bytes _ _).trans (release_bytes _ _)
  refine ⟨?_, keeps_of_bytes fun c _ => hbytes c.data, ?_⟩
  · rw [hassign]
    exact (hs.release.addRef (shrinksTo_copy ho o.maxZeroAreaStart) hcard).recommend _
  · rw [viewOf, viewOf, hbytes]

/-! ## Reserving bytes -/

section Grow

theorem getInternalSize_toNat (hb : b.Ordered) :
    b.getInternalSize.toNat = b.realEnd - b.start.toNat := by
  obtain ⟨hs, hz, he⟩ := hb
  have hlt := b.end'.toNat_lt
  have hbefore : (b.zeroAreaStart - b.start).toNat = b.zeroAreaStart.toNat - b.start.toNat :=
    UInt32.toNat_sub_of_toNat_le hs
  have hsum : (b.zeroAreaStart - b.start + b.end').toNat =
      (b.zeroAreaStart.toNat - b.start.toNat + b.end'.toNat) % 2 ^ 32 := by
    rw [UInt32.toNat_add, hbefore]
  unfold getInternalSize realEnd
  rw [UInt32.toNat_sub, hsum]
  omega

theorem getInternalEnd_toNat (hb : b.Ordered) : b.getInternalEnd.toNat = b.realEnd := by
  have hzero := zeroSize_toNat hb
  obtain ⟨hs, hz, he⟩ := hb
  unfold getInternalEnd realEnd
  change (b.end' - b.zeroSize).toNat = _
  rw [UInt32.toNat_sub_of_toNat_le (by omega), hzero]

/-- The bytes of a buffer are copied to a new object. -/
theorem realloc_spec (fresh : ℕ → ℕ → UInt8) (hs : h.Sound (b ::ₘ rest)) {newSize : UInt32} {off : ℕ}
    (hsize : off + (b.realEnd - b.start.toNat) ≤ newSize.toNat) :
    ∃ copied, (h.create fresh newSize).memcpy h.next off b.data b.start.toNat
        b.getInternalSize.toNat = some copied ∧
      copied.next = h.next + 1 ∧ (∀ id, id ≠ h.next → copied.data id = h.data id) ∧
        (copied.data h.next).count = 1 ∧ newSize.toNat ≤ (copied.data h.next).size.toNat ∧
          slice (copied.data h.next).bytes off (b.realEnd - b.start.toNat) =
            slice (h.data b.data).bytes b.start.toNat (b.realEnd - b.start.toNat) := by
  have hb := hs.within
  have hordered := hb.ordered
  have hne : b.data ≠ h.next := (hs.allocated b (Multiset.mem_cons_self b rest)).ne
  have hcreated := create_data_self fresh h newSize
  have hle := le_create_size fresh h newSize
  have hrealEnd : b.start.toNat ≤ b.realEnd := by
    obtain ⟨hs, hz, he⟩ := hordered
    unfold realEnd
    omega
  generalize hl : slice (h.data b.data).bytes b.start.toNat (b.realEnd - b.start.toNat) = l
  have hlength : l.length = b.realEnd - b.start.toNat := by rw [← hl, length_slice]
  have hread : (h.create fresh newSize).read b.data b.start.toNat b.getInternalSize.toNat =
      some l := by
    unfold BufferHeap.read
    rw [create_data_of_ne fresh hne, getInternalSize_toNat hordered, if_pos, hl]
    right
    have hfit := hb.realEnd_le
    omega
  unfold memcpy
  rw [hread, Option.bind_some, BufferHeap.write, if_pos (Or.inr (by omega))]
  refine ⟨_, rfl, rfl, fun id hid => ?_, ?_, ?_, ?_⟩
  · rw [set_data_of_ne hid, create_data_of_ne fresh hid]
  · rw [set_data_self, hcreated]
  · rw [set_data_self]
    exact hle
  · rw [set_data_self]
    dsimp only
    rw [← hlength, slice_store_self]

/-- A buffer moves to the new object. -/
theorem relocate_spec (hs : h.Sound (b ::ₘ rest)) {copied : BufferHeap} {next : Handle}
    (hnext : copied.next = h.next + 1) (hother : ∀ id, id ≠ h.next → copied.data id = h.data id)
    (hcount : (copied.data h.next).count = 1) (hdata : next.data = h.next)
    (hordered : next.Ordered) (hroom : next.realEnd ≤ (copied.data h.next).size.toNat)
    (hfront : next.start.toNat + next.front ≤ next.zeroAreaStart.toNat)
    (hback : next.zeroAreaEnd.toNat + next.back ≤ next.end'.toNat) :
    ((copied.release b.data).setDirty h.next next.start next.end').Sound (next ::ₘ rest) ∧
      h.Keeps ((copied.release b.data).setDirty h.next next.start next.end') rest ∧
        ((copied.release b.data).setDirty h.next next.start next.end').viewOf next.toBuffer =
          next.view (copied.data h.next).bytes := by
  have hne : b.data ≠ h.next := (hs.allocated b (Multiset.mem_cons_self b rest)).ne
  have hbytes : ∀ id, (((copied.release b.data).setDirty h.next next.start next.end').data
      id).bytes = (copied.data id).bytes :=
    fun id => (setDirty_bytes _ _ _ _).trans (release_bytes _ _)
  refine ⟨hs.release.alloc hnext (fun id hid => ?_) hdata ?_, keeps_of_bytes fun c hc => ?_, ?_⟩
  · have hid : id ≠ h.next := Nat.ne_of_lt hid
    unfold setDirty
    rw [set_data_of_ne hid]
    unfold BufferHeap.release
    by_cases hb : id = b.data
    · rw [hb, set_data_self, set_data_self, hother _ hne]
    · rw [set_data_of_ne hb, set_data_of_ne hb, hother _ hid]
  · change Shared (((copied.release b.data).setDirty h.next _ _).data h.next) {next}
    unfold setDirty
    rw [set_data_self]
    unfold BufferHeap.release
    rw [set_data_of_ne (Ne.symm hne)]
    exact Shared.singleton hcount
      ⟨hordered, Nat.le_refl _, Nat.le_refl _, hroom, hfront, hback⟩
  · have hc := hs.allocated c (Multiset.mem_cons_of_mem hc)
    rw [hbytes, hother _ hc.ne]
  · rw [viewOf, hbytes, hdata]

/-- An offset in the new object, where the buffer starts at `n`. -/
theorem shifted_toNat {a s n : UInt32} (hle : s.toNat ≤ a.toNat)
    (hlt : a.toNat - s.toNat + n.toNat < 2 ^ 32) :
    (a + (n - s)).toNat = a.toNat - s.toNat + n.toNat := by
  have ha := a.toNat_lt
  have hn := n.toNat_lt
  rw [UInt32.toNat_add, UInt32.toNat_sub]
  omega

theorem not_dirty_iff {d : BufferData} {p : Prop} [Decidable p] :
    (decide (1 < d.count) && decide p) = false ↔ ¬ (1 < d.count ∧ p) := by
  rw [Bool.and_eq_false_iff, decide_eq_false_iff_not, decide_eq_false_iff_not, not_and_or]

/-- The buffer that an operation moves to a new object, with `lead` bytes before the others and
`trail` bytes behind them. -/
structure MovedTo (h : BufferHeap) (b : Buffer) (lead trail : UInt32) (next : Buffer) : Prop where
  data_eq : next.data = h.next
  start_eq : next.start.toNat = 0
  zeroAreaStart_eq : next.zeroAreaStart.toNat = b.zeroAreaStart.toNat - b.start.toNat + lead.toNat
  zeroAreaEnd_eq : next.zeroAreaEnd.toNat = b.zeroAreaEnd.toNat - b.start.toNat + lead.toNat
  end_eq : next.end'.toNat = b.end'.toNat - b.start.toNat + lead.toNat + trail.toNat

/-- The view of a moved buffer. -/
theorem MovedTo.view_eq {lead trail : UInt32} {next b : Buffer} {bytes bytes' : ℕ → UInt8}
    (hmoved : MovedTo h b lead trail next) (hb : b.Ordered)
    (hbytes : slice bytes' lead.toNat (b.realEnd - b.start.toNat) =
      slice bytes b.start.toNat (b.realEnd - b.start.toNat)) :
    ∃ front back, front.length = lead.toNat ∧ back.length = trail.toNat ∧
      next.view bytes' = front ++ b.view bytes ++ back := by
  obtain ⟨-, hstart, hzs, hze, he⟩ := hmoved
  obtain ⟨hs, hz, hend⟩ := id hb
  have hinner : (next.end' - trail).toNat = b.end'.toNat - b.start.toNat + lead.toNat := by
    rw [UInt32.toNat_sub_of_toNat_le (by omega), he, Nat.add_sub_cancel]
  -- without the bytes behind, and without the bytes before
  have hwithout : ({ next with start := lead } : Buffer).Ordered := by
    refine ⟨?_, ?_, ?_⟩
    all_goals dsimp only
    all_goals omega
  have hboth : ({ next with start := lead, end' := next.end' - trail } : Buffer).Ordered := by
    refine ⟨?_, ?_, ?_⟩
    all_goals dsimp only
    all_goals omega
  have hmoved : ({ next with start := lead, end' := next.end' - trail } : Buffer).view bytes' =
      b.view bytes := by
    refine view_of_moved hb ?_ ?_ ?_ hbytes
    all_goals dsimp only
    all_goals omega
  have hback : ({ next with start := lead } : Buffer).view bytes' = b.view bytes ++
      slice bytes' ({ next with start := lead, end' := next.end' - trail } : Buffer).realEnd
        trail.toNat := by
    rw [← hmoved]
    refine view_of_end hboth ?_ rfl rfl rfl
    dsimp only
    omega
  have hfront : next.view bytes' = slice bytes' next.start.toNat lead.toNat ++
      ({ next with start := lead } : Buffer).view bytes' := by
    refine view_of_start hwithout ?_ rfl rfl rfl
    dsimp only
    omega
  exact ⟨_, _, length_slice _ _ _, length_slice _ _ _, by rw [hfront, hback, List.append_assoc]⟩

theorem moved_spec (fresh : ℕ → ℕ → UInt8) (hs : h.Sound (b ::ₘ rest)) {lead trail : UInt32}
    {next : Buffer} (hmoved : MovedTo h b.toBuffer lead trail next)
    (newSize : UInt32)
    (hfits : b.realEnd - b.start.toNat + lead.toNat + trail.toNat < 2 ^ 32)
    (hsize : newSize.toNat = b.realEnd - b.start.toNat + lead.toNat + trail.toNat) :
    ∃ copied front back, (h.create fresh newSize).memcpy h.next lead.toNat b.data b.start.toNat
        b.getInternalSize.toNat = some copied ∧
      ((copied.release b.data).setDirty h.next next.start next.end').Sound
        (⟨next.noteZeroArea, lead.toNat, trail.toNat⟩ ::ₘ rest) ∧
      h.Keeps ((copied.release b.data).setDirty h.next next.start next.end') rest ∧
      front.length = lead.toNat ∧ back.length = trail.toNat ∧
      ((copied.release b.data).setDirty h.next next.start next.end').viewOf next.noteZeroArea =
          front ++ h.viewOf b.toBuffer ++ back := by
  have hordered := hs.within.ordered
  obtain ⟨copied, hcopied, hnext, hother, hcount, hroom, hbytes⟩ :=
    realloc_spec fresh hs (show lead.toNat + (b.realEnd - b.start.toNat) ≤ newSize.toNat by omega)
  obtain ⟨front, back, hfront, hback, hview⟩ := hmoved.view_eq hordered hbytes
  obtain ⟨hdata, hstart, hzs, hze, he⟩ := hmoved
  obtain ⟨hs', hz', he'⟩ := id hordered
  have hreal : next.realEnd = b.realEnd - b.start.toNat + lead.toNat + trail.toNat := by
    unfold realEnd
    omega
  refine ⟨copied, front, back, hcopied, ?_⟩
  obtain ⟨hsound, hkeeps, hviewOf⟩ := @relocate_spec _ _ _ hs _
    ⟨next.noteZeroArea, lead.toNat, trail.toNat⟩ hnext hother hcount hdata
    ⟨by dsimp only [noteZeroArea]; omega, by dsimp only [noteZeroArea]; omega,
      by dsimp only [noteZeroArea]; omega⟩
    (by rw [realEnd_noteZeroArea, hreal, ← hsize]; exact hroom)
    (by dsimp only [noteZeroArea]; omega) (by dsimp only [noteZeroArea]; omega)
  exact ⟨hsound, hkeeps, hfront, hback, hviewOf.trans hview⟩

/-- Where a buffer with `n` more bytes is. -/
structure Reserved (h : BufferHeap) (b : Buffer) (n : UInt32) (next : Buffer) : Prop where
  data_eq : next.data = b.data ∨ next.data = h.next
  zeroSize_eq : next.zeroSize = b.zeroSize
  end_le : next.end'.toNat ≤ b.end'.toNat + n.toNat

/-- A buffer that has its object for itself keeps it, or gets another one. -/
theorem Reserved.alone {n : UInt32} {next : Buffer} (hr : Reserved h b.toBuffer n next)
    (hs : h.Sound (b ::ₘ rest)) (halone : ∀ c ∈ rest, c.data ≠ b.data) :
    ∀ c ∈ rest, c.data ≠ next.data := by
  intro c hc
  rcases hr.data_eq with hsame | hnew
  · rw [hsame]
    exact halone c hc
  · rw [hnew]
    exact (hs.allocated c (Multiset.mem_cons_of_mem hc)).ne

/-- `AddAtStart` prepends the reserved bytes. -/
theorem addAtStart_spec (fresh : ℕ → ℕ → UInt8) (hs : h.Sound (b ::ₘ rest)) {n : UInt32}
    (hn : b.end'.toNat - b.start.toNat + n.toNat < 2 ^ 32) :
    ∃ h' next resized added, b.addAtStart fresh h n = some (h', next, resized) ∧
      Reserved h b.toBuffer n next ∧ h'.Sound (⟨next, n.toNat, 0⟩ ::ₘ rest) ∧
        h.Keeps h' rest ∧ added.length = n.toNat ∧
          h'.viewOf next = added ++ h.viewOf b.toBuffer := by
  have hordered := hs.within.ordered
  unfold addAtStart
  dsimp only
  split
  next hplace =>
    -- in place
    obtain ⟨hle, hclean⟩ := hplace
    rw [not_dirty_iff] at hclean
    rw [if_pos (hs.head.start_eq_of_clean hclean)]
    have hstart : (b.start - n).toNat + n.toNat = b.start.toNat := by
      have hle := UInt32.le_iff_toNat_le.mp hle
      rw [UInt32.toNat_sub_of_toNat_le hle]
      omega
    refine ⟨_, _, _, slice (h.data b.data).bytes (b.start - n).toNat n.toNat, rfl,
      ⟨Or.inl rfl, rfl, Nat.le_add_right _ _⟩,
      hs.replace rfl fun hshared => hshared.reserveFront hle hclean,
      keeps_of_bytes fun c _ => setDirty_bytes _ _ _ _, length_slice _ _ _, ?_⟩
    rw [viewOf, setDirty_bytes]
    exact view_of_start hordered hstart rfl rfl rfl
  next =>
    -- the bytes move to a new object
    have hsize := getInternalSize_toNat hordered
    obtain ⟨hstart, hzero, hend⟩ := id hordered
    have hreal : b.realEnd ≤ b.end'.toNat := Nat.sub_le _ _
    have hmoved : MovedTo h b.toBuffer n 0 ⟨h.next, b.maxZeroAreaStart,
        b.zeroAreaStart + (n - b.start), b.zeroAreaEnd + (n - b.start),
        b.start + (n - b.start) - n, b.end' + (n - b.start)⟩ := by
      refine ⟨rfl, ?_, shifted_toNat hstart (by omega), shifted_toNat (by omega) (by omega),
        shifted_toNat (by omega) (by omega)⟩
      rw [add_sub_cancel, sub_self]
      rfl
    obtain ⟨copied, front, back, hcopied, hsound, hkeeps, hfront, hback, hview⟩ :=
      moved_spec fresh hs hmoved (b.getInternalSize + n) (by rw [UInt32.toNat_zero]; omega)
        (by rw [UInt32.toNat_add_of_lt (by omega), hsize, UInt32.toNat_zero, Nat.add_zero])
    rw [List.eq_nil_of_length_eq_zero hback, List.append_nil] at hview
    rw [hcopied, Option.map_some]
    refine ⟨_, _, _, front, rfl, ⟨Or.inr rfl, ?_, ?_⟩, hsound, hkeeps, hfront, hview⟩
    · exact add_sub_add_right_eq_sub _ _ _
    · have hend' := hmoved.end_eq
      rw [UInt32.toNat_zero] at hend'
      dsimp only [noteZeroArea] at hend' ⊢
      omega

/-- The bound on an addition at the end: no new offset reaches 2^32. -/
def FitsAtEnd (h : BufferHeap) (b : Buffer) (n : UInt32) : Prop :=
  b.end'.toNat - b.start.toNat + n.toNat < 2 ^ 32 ∧
    (b.getInternalEnd + n ≤ (h.data b.data).size → b.end'.toNat + n.toNat < 2 ^ 32)

/-- The test of `AddAtEnd` for space behind the buffer. -/
def GrowsInPlace (h : BufferHeap) (b : Buffer) (n : UInt32) : Prop :=
  b.getInternalEnd + n ≤ (h.data b.data).size ∧
    ¬ (1 < (h.data b.data).count ∧ b.end' < (h.data b.data).dirtyEnd)

/-- `AddAtEnd` appends the reserved bytes. -/
theorem addAtEnd_spec (fresh : ℕ → ℕ → UInt8) (hs : h.Sound (b ::ₘ rest)) {n : UInt32}
    (hn : FitsAtEnd h b.toBuffer n) :
    ∃ h' next resized added, b.addAtEnd fresh h n = some (h', next, resized) ∧
      Reserved h b.toBuffer n next ∧ (next.data = b.data → b.GrowsInPlace h n) ∧
        h'.Sound (⟨next, 0, n.toNat⟩ ::ₘ rest) ∧ h.Keeps h' rest ∧ added.length = n.toNat ∧
          h'.viewOf next = h.viewOf b.toBuffer ++ added := by
  have hordered := hs.within.ordered
  unfold addAtEnd
  dsimp only
  split
  next hplace =>
    obtain ⟨hle, hclean⟩ := hplace
    rw [not_dirty_iff] at hclean
    rw [if_pos (hs.head.end_eq_of_clean hclean)]
    have hfits := hn.2 hle
    have hroom : b.realEnd + n.toNat ≤ (h.data b.data).size.toNat := by
      have hreal : b.realEnd ≤ b.end'.toNat := Nat.sub_le _ _
      have hle := UInt32.le_iff_toNat_le.mp hle
      rwa [UInt32.toNat_add_of_lt (by rw [getInternalEnd_toNat hordered]; omega),
        getInternalEnd_toNat hordered] at hle
    have hend : (b.end' + n).toNat = b.end'.toNat + n.toNat := UInt32.toNat_add_of_lt hfits
    refine ⟨_, _, _, slice (h.data b.data).bytes b.realEnd n.toNat, rfl,
      ⟨Or.inl rfl, rfl, hend.le⟩, fun _ => ⟨hle, hclean⟩,
      hs.replace rfl fun hshared => hshared.reserveBack hfits hroom hclean,
      keeps_of_bytes fun c _ => setDirty_bytes _ _ _ _, length_slice _ _ _, ?_⟩
    rw [viewOf, setDirty_bytes]
    exact view_of_end hordered hend rfl rfl rfl
  next =>
    have hsize := getInternalSize_toNat hordered
    obtain ⟨hstart, hzero, hend⟩ := id hordered
    have hreal : b.realEnd ≤ b.end'.toNat := Nat.sub_le _ _
    have hfits := hn.1
    have he : (b.end' + (0 - b.start)).toNat = b.end'.toNat - b.start.toNat + 0 :=
      shifted_toNat (by omega) (by rw [UInt32.toNat_zero]; omega)
    have hmoved : MovedTo h b.toBuffer 0 n ⟨h.next, b.maxZeroAreaStart,
        b.zeroAreaStart + (0 - b.start), b.zeroAreaEnd + (0 - b.start),
        b.start + (0 - b.start), b.end' + (0 - b.start) + n⟩ := by
      have hzs := b.zeroAreaStart.toNat_lt
      have hze := b.zeroAreaEnd.toNat_lt
      refine ⟨rfl, ?_, shifted_toNat hstart ?_, shifted_toNat (by omega) ?_, ?_⟩
      · rw [add_sub_cancel]
        rfl
      · rw [UInt32.toNat_zero]
        omega
      · rw [UInt32.toNat_zero]
        omega
      · rw [UInt32.toNat_add_of_lt (by omega), he, UInt32.toNat_zero]
    obtain ⟨copied, front, back, hcopied, hsound, hkeeps, hfront, hback, hview⟩ :=
      moved_spec fresh hs hmoved (b.getInternalSize + n) (by rw [UInt32.toNat_zero]; omega)
        (by rw [UInt32.toNat_add_of_lt (by omega), hsize, UInt32.toNat_zero, Nat.add_zero])
    rw [List.eq_nil_of_length_eq_zero hfront, List.nil_append] at hview
    rw [UInt32.toNat_zero] at hcopied
    rw [hcopied, Option.map_some]
    have hnew : h.next ≠ b.data := (hs.allocated b (Multiset.mem_cons_self b rest)).ne'
    refine ⟨_, _, _, back, rfl, ⟨Or.inr rfl, ?_, ?_⟩, fun heq => absurd heq hnew, hsound, hkeeps,
      hback, hview⟩
    · exact add_sub_add_right_eq_sub _ _ _
    · have hend' := hmoved.end_eq
      rw [UInt32.toNat_zero] at hend'
      dsimp only [noteZeroArea] at hend' ⊢
      omega

end Grow

end Buffer

end Ns3Rdma
