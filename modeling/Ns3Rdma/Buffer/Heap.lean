import Ns3Rdma.Buffer.Sharing

/-! # The operations of a buffer on the heap

Each operation of one buffer keeps the invariants of all `Data` objects, and leaves the bytes that
all other buffers represent as they were. -/

namespace Ns3Rdma

open Memory

namespace BufferHeap

/-- The bytes that a buffer represents. -/
def viewOf (h : BufferHeap) (b : Buffer) : List UInt8 := b.view (h.data b.data).bytes

/-- The buffers that refer to an object. -/
def usersOf (live : Multiset Handle) (id : ℕ) : Multiset Handle := live.filter fun b => b.data = id

/-- All live buffers refer to objects of the heap, and share them as they should. -/
structure Sound (h : BufferHeap) (live : Multiset Handle) : Prop where
  allocated : ∀ b ∈ live, b.data < h.next
  shared : ∀ b ∈ live, Shared (h.data b.data) (usersOf live b.data)

/-- The buffers represent the same bytes as before. -/
def Keeps (h next : BufferHeap) (live : Multiset Handle) : Prop :=
  ∀ c ∈ live, next.viewOf c.toBuffer = h.viewOf c.toBuffer

variable {h next : BufferHeap} {b : Handle} {live rest : Multiset Handle}

theorem Keeps.trans {last : BufferHeap} (h₁ : h.Keeps next live) (h₂ : next.Keeps last live) :
    h.Keeps last live :=
  fun c hc => (h₂ c hc).trans (h₁ c hc)

theorem Keeps.refl (h : BufferHeap) (live : Multiset Handle) : h.Keeps h live := fun _ _ => rfl

theorem Keeps.mono (hkeeps : h.Keeps next live) (hsub : rest ⊆ live) : h.Keeps next rest :=
  fun c hc => hkeeps c (hsub hc)

/-- The buffer at the head, among those that keep their bytes. -/
theorem Keeps.head (hkeeps : h.Keeps next (b ::ₘ rest)) :
    next.viewOf b.toBuffer = h.viewOf b.toBuffer :=
  hkeeps b (Multiset.mem_cons_self b rest)

theorem Keeps.tail (hkeeps : h.Keeps next (b ::ₘ rest)) : h.Keeps next rest :=
  hkeeps.mono (Multiset.subset_cons rest b)

theorem Keeps.plain (hkeeps : h.Keeps next (b ::ₘ rest)) :
    h.Keeps next (Handle.plain b.toBuffer ::ₘ rest) := by
  intro c hc
  rcases Multiset.mem_cons.mp hc with rfl | hc
  · exact hkeeps.head
  · exact hkeeps.tail c hc

/-- Objects with the same bytes, as far as they are in use. -/
theorem keeps_of_bytes (hbytes : ∀ c ∈ live, (next.data c.data).bytes = (h.data c.data).bytes) :
    h.Keeps next live := by
  intro c hc
  rw [viewOf, viewOf, hbytes c hc]

@[simp] theorem set_data_self (id : ℕ) (d : BufferData) : (h.set id d).data id = d := by
  unfold set
  exact Function.update_self id d h.data

theorem set_data_of_ne {id id' : ℕ} (hne : id' ≠ id) (d : BufferData) :
    (h.set id d).data id' = h.data id' := by
  unfold set
  exact Function.update_of_ne hne d h.data

@[simp] theorem set_next (id : ℕ) (d : BufferData) : (h.set id d).next = h.next := rfl

/-- Changes of an object that leave its bytes alone. -/
theorem set_bytes {id : ℕ} {d : BufferData} (hbytes : d.bytes = (h.data id).bytes) (id' : ℕ) :
    ((h.set id d).data id').bytes = (h.data id').bytes := by
  by_cases hid : id' = id
  · rw [hid, set_data_self, hbytes]
  · rw [set_data_of_ne hid]

theorem addRef_bytes (id id' : ℕ) : ((h.addRef id).data id').bytes = (h.data id').bytes := by
  unfold addRef
  refine set_bytes ?_ id'
  rfl

/-- One more reference to an object changes nothing else of it. -/
theorem addRef_size (id id' : ℕ) : ((h.addRef id).data id').size = (h.data id').size := by
  unfold addRef
  by_cases hid : id' = id
  · rw [hid, set_data_self]
  · rw [set_data_of_ne hid]

theorem addRef_dirtyEnd (id id' : ℕ) :
    ((h.addRef id).data id').dirtyEnd = (h.data id').dirtyEnd := by
  unfold addRef
  by_cases hid : id' = id
  · rw [hid, set_data_self]
  · rw [set_data_of_ne hid]

theorem release_bytes (id id' : ℕ) : ((h.release id).data id').bytes = (h.data id').bytes := by
  unfold release
  refine set_bytes ?_ id'
  rfl

theorem release_addRef (h : BufferHeap) (id : ℕ) : (h.release id).addRef id = h := by
  unfold release addRef set
  dsimp only
  rw [Function.update_self, Function.update_idem]
  dsimp only
  rw [sub_add_cancel, Function.update_eq_self]

theorem setDirty_bytes (id id' : ℕ) (dirtyStart dirtyEnd : UInt32) :
    ((h.setDirty id dirtyStart dirtyEnd).data id').bytes = (h.data id').bytes := by
  unfold setDirty
  refine set_bytes ?_ id'
  rfl

theorem create_data_self (fresh : ℕ → ℕ → UInt8) (h : BufferHeap) (size : UInt32) :
    (h.create fresh size).data h.next =
      ⟨1, if size = 0 then 1 else size, 0, 0, fresh h.next⟩ := by
  unfold create
  exact Function.update_self _ _ _

theorem create_data_of_ne (fresh : ℕ → ℕ → UInt8) {id : ℕ} (hid : id ≠ h.next) (size : UInt32) :
    (h.create fresh size).data id = h.data id := by
  unfold create
  exact Function.update_of_ne hid _ _

/-- The object has at least the size that was asked for. -/
theorem le_create_size (fresh : ℕ → ℕ → UInt8) (h : BufferHeap) (size : UInt32) :
    size.toNat ≤ ((h.create fresh size).data h.next).size.toNat := by
  rw [create_data_self]
  dsimp only
  split
  next hzero =>
    rw [hzero]
    exact Nat.zero_le _
  next hpos => exact Nat.le_refl _

/-! ## Users of one object -/

theorem usersOf_cons_self (b : Handle) (live : Multiset Handle) :
    usersOf (b ::ₘ live) b.data = b ::ₘ usersOf live b.data :=
  Multiset.filter_cons_of_pos live rfl

theorem usersOf_cons_of_ne {id : ℕ} (hne : b.data ≠ id) (live : Multiset Handle) :
    usersOf (b ::ₘ live) id = usersOf live id :=
  Multiset.filter_cons_of_neg live hne

theorem card_usersOf_le (live : Multiset Handle) (id : ℕ) :
    (usersOf live id).card ≤ live.card :=
  Multiset.card_le_card (Multiset.filter_le _ live)

theorem Sound.head (hs : h.Sound (b ::ₘ rest)) :
    Shared (h.data b.data) (b ::ₘ usersOf rest b.data) := by
  have hb := hs.shared b (Multiset.mem_cons_self b rest)
  rwa [usersOf_cons_self] at hb

theorem Sound.within (hs : h.Sound (b ::ₘ rest)) : b.Within (h.data b.data) :=
  (Shared.cons_iff.mp hs.head).2.1

theorem Sound.within_of_mem (hs : h.Sound live) (hb : b ∈ live) : b.Within (h.data b.data) :=
  (hs.shared b hb).within b (Multiset.mem_filter.mpr ⟨hb, rfl⟩)

/-- The objects of the other buffers. -/
theorem Sound.others (hs : h.Sound (b ::ₘ rest)) {c : Handle} (hc : c ∈ rest)
    (hne : c.data ≠ b.data) : Shared (h.data c.data) (usersOf rest c.data) := by
  have hshared := hs.shared c (Multiset.mem_cons_of_mem hc)
  rwa [usersOf_cons_of_ne (Ne.symm hne)] at hshared

/-- The object of one buffer changes, and the buffer with it. -/
theorem Sound.replace {b' : Handle} {d : BufferData} (hs : h.Sound (b ::ₘ rest))
    (hdata : b'.data = b.data)
    (hd : Shared (h.data b.data) (b ::ₘ usersOf rest b.data) →
      Shared d (b' ::ₘ usersOf rest b.data)) :
    (h.set b.data d).Sound (b' ::ₘ rest) := by
  have hnew := hd hs.head
  constructor
  · intro c hc
    rw [set_next]
    rcases Multiset.mem_cons.mp hc with rfl | hc
    · rw [hdata]
      exact hs.allocated b (Multiset.mem_cons_self b rest)
    · exact hs.allocated c (Multiset.mem_cons_of_mem hc)
  · intro c hc
    by_cases hcd : c.data = b.data
    · rw [hcd, set_data_self, ← hdata, usersOf_cons_self, hdata]
      exact hnew
    · rcases Multiset.mem_cons.mp hc with rfl | hc
      · exact absurd hdata hcd
      · rw [set_data_of_ne hcd, usersOf_cons_of_ne (by rw [hdata]; exact Ne.symm hcd)]
        exact hs.others hc hcd

/-- A buffer goes. -/
theorem Sound.release (hs : h.Sound (b ::ₘ rest)) : (h.release b.data).Sound rest := by
  constructor
  · intro c hc
    exact hs.allocated c (Multiset.mem_cons_of_mem hc)
  · intro c hc
    unfold BufferHeap.release
    by_cases hcd : c.data = b.data
    · rw [hcd, set_data_self]
      exact hs.head.erase
    · rw [set_data_of_ne hcd]
      exact hs.others hc hcd

/-- A buffer with an object of its own comes. -/
theorem Sound.alloc (hs : h.Sound live) (hnext : next.next = h.next + 1)
    (hdata : ∀ id < h.next, next.data id = h.data id) (hb : b.data = h.next)
    (hshared : Shared (next.data h.next) {b}) : next.Sound (b ::ₘ live) := by
  have hfresh : usersOf live h.next = 0 := by
    apply Multiset.filter_eq_nil.mpr
    intro c hc
    exact (hs.allocated c hc).ne
  constructor
  · intro c hc
    rw [hnext]
    rcases Multiset.mem_cons.mp hc with rfl | hc
    · omega
    · have hlt := hs.allocated c hc
      omega
  · intro c hc
    rcases Multiset.mem_cons.mp hc with rfl | hc
    · rw [usersOf_cons_self, hb, hfresh, Multiset.cons_zero]
      exact hshared
    · have hlt := hs.allocated c hc
      rw [hdata _ hlt, usersOf_cons_of_ne (by omega)]
      exact hs.shared c hc

/-- A copy, or a part of one, comes. -/
theorem Sound.addRef {part : Buffer} (hs : h.Sound (b ::ₘ rest)) (hpart : b.ShrinksTo part)
    (hcard : rest.card + 2 < 2 ^ 32) :
    (h.addRef b.data).Sound (Handle.plain part ::ₘ Handle.plain b.toBuffer ::ₘ rest) := by
  have hdata : (Handle.plain part).data = b.data := hpart.data_eq
  have hinsert := hs.head.insert hpart
    (Nat.lt_of_le_of_lt (Nat.add_le_add_right (card_usersOf_le rest b.data) 2) hcard)
  constructor
  · intro c hc
    change c.data < h.next
    have hb := hs.allocated b (Multiset.mem_cons_self b rest)
    rcases Multiset.mem_cons.mp hc with rfl | hc
    · rw [hdata]
      exact hb
    · rcases Multiset.mem_cons.mp hc with rfl | hc
      · exact hb
      · exact hs.allocated c (Multiset.mem_cons_of_mem hc)
  · intro c hc
    unfold BufferHeap.addRef
    by_cases hcd : c.data = b.data
    · rw [hcd, set_data_self, ← hdata, usersOf_cons_self, hdata]
      have hself := usersOf_cons_self (Handle.plain b.toBuffer) rest
      change usersOf _ b.data = _ at hself
      rw [hself]
      exact hinsert
    · have hmem : c ∈ rest := by
        rcases Multiset.mem_cons.mp hc with rfl | hc
        · exact absurd hdata hcd
        · rcases Multiset.mem_cons.mp hc with rfl | hc
          · exact absurd rfl hcd
          · exact hc
      have hne : (Handle.plain b.toBuffer).data ≠ c.data := Ne.symm hcd
      rw [set_data_of_ne hcd, usersOf_cons_of_ne (by rw [hdata]; exact Ne.symm hcd),
        usersOf_cons_of_ne hne]
      exact hs.others hmem hcd

theorem Sound.recommend (hs : h.Sound live) (maxZeroAreaStart : UInt32) :
    (h.recommend maxZeroAreaStart).Sound live :=
  ⟨hs.1, hs.2⟩

end BufferHeap

end Ns3Rdma
