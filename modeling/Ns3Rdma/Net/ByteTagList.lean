import Mathlib.Data.UInt

/-! # Byte tag lists

A byte tag covers a range of offsets of a packet's buffer. The list of a packet is rebuilt when the
offsets of its buffer move. A list and its copies may share memory in the source; here it is a
value. -/

namespace Ns3Rdma

/-- A tag: the type and the bytes that it serialises to. -/
structure ByteTag where
  tid : ℕ
  buf : List UInt8
  deriving DecidableEq

/-- `ByteTagList::Iterator::Item`. -/
structure ByteTagItem where
  tag : ByteTag
  (start end' : Int32)

namespace ByteTagItem

/-- The item reports its tag for the byte at this offset. -/
def Covers (item : ByteTagItem) (v : ℤ) : Prop := item.start.toInt ≤ v ∧ v < item.end'.toInt

instance (item : ByteTagItem) (v : ℤ) : Decidable (item.Covers v) :=
  inferInstanceAs (Decidable (_ ∧ _))

end ByteTagItem

abbrev ByteTagList := List ByteTagItem

namespace ByteTagList

def offsetMax : Int32 := 2147483647

/-- `Begin (offsetStart, offsetEnd)`: all items that the iterator returns. -/
def begin (l : ByteTagList) (offsetStart offsetEnd : Int32) : List ByteTagItem :=
  l.filterMap fun item =>
    if offsetEnd ≤ item.start ∨ item.end' ≤ offsetStart then none
    else some ⟨item.tag, max item.start offsetStart, min item.end' offsetEnd⟩

def beginAll (l : ByteTagList) : List ByteTagItem := l.begin 0 offsetMax

def add (l : ByteTagList) (tag : ByteTag) (start end' : Int32) : ByteTagList :=
  l ++ [⟨tag, start, end'⟩]

/-- `Add (o)`. -/
def addAll (l o : ByteTagList) : ByteTagList := l ++ o.beginAll

def isDirtyAtEnd (l : ByteTagList) (appendOffset : Int32) : Bool :=
  l.beginAll.any fun item => decide (appendOffset < item.end')

def isDirtyAtStart (l : ByteTagList) (prependOffset : Int32) : Bool :=
  l.beginAll.any fun item => decide (item.start < prependOffset)

def addAtEnd (l : ByteTagList) (adjustment appendOffset : Int32) : ByteTagList :=
  if adjustment = 0 ∧ l.isDirtyAtEnd appendOffset = false then l
  else l.beginAll.filterMap fun item =>
    if appendOffset ≤ item.start + adjustment then none
    else if item.start + adjustment < appendOffset ∧ appendOffset < item.end' + adjustment then
      some ⟨item.tag, item.start + adjustment, appendOffset⟩
    else some ⟨item.tag, item.start + adjustment, item.end' + adjustment⟩

def addAtStart (l : ByteTagList) (adjustment prependOffset : Int32) : ByteTagList :=
  if adjustment = 0 ∧ l.isDirtyAtStart prependOffset = false then l
  else l.beginAll.filterMap fun item =>
    if item.end' + adjustment ≤ prependOffset then none
    else if prependOffset < item.end' + adjustment ∧ item.start + adjustment < prependOffset then
      some ⟨item.tag, prependOffset, item.end' + adjustment⟩
    else some ⟨item.tag, item.start + adjustment, item.end' + adjustment⟩

/-- The tags of the items that cover an offset. -/
def covering (l : List ByteTagItem) (v : ℤ) : List ByteTag :=
  (l.filter fun item => decide (item.Covers v)).map ByteTagItem.tag

variable {l : ByteTagList} {v u : ℤ}

@[simp] theorem covering_nil (v : ℤ) : covering [] v = [] := rfl

theorem covering_append (l o : List ByteTagItem) (v : ℤ) :
    covering (l ++ o) v = covering l v ++ covering o v := by
  unfold covering
  rw [List.filter_append, List.map_append]

theorem covering_cons (item : ByteTagItem) (l : List ByteTagItem) (v : ℤ) :
    covering (item :: l) v = (if item.Covers v then [item.tag] else []) ++ covering l v := by
  unfold covering
  rw [List.filter_cons]
  by_cases h : item.Covers v
  · rw [if_pos (decide_eq_true h), if_pos h, List.map_cons, List.singleton_append]
  · rw [if_neg (by simpa using h), if_neg h, List.nil_append]

theorem covering_eq_nil {l : List ByteTagItem} (h : ∀ item ∈ l, ¬ item.Covers v) :
    covering l v = [] := by
  induction l with
  | nil => rfl
  | cons item rest ih =>
      rw [covering_cons, if_neg (h item List.mem_cons_self), List.nil_append]
      exact ih fun other hother => h other (List.mem_cons_of_mem item hother)

/-- What a change of the items does to the tags of an offset, item by item. -/
theorem covering_filterMap {l : List ByteTagItem} {f : ByteTagItem → Option ByteTagItem}
    (hsome : ∀ item ∈ l, ∀ next, f item = some next →
      next.tag = item.tag ∧ (next.Covers v ↔ item.Covers u))
    (hnone : ∀ item ∈ l, f item = none → ¬ item.Covers u) :
    covering (l.filterMap f) v = covering l u := by
  induction l with
  | nil => rfl
  | cons item rest ih =>
      have hrest := ih (fun other hother => hsome other (List.mem_cons_of_mem item hother))
        fun other hother => hnone other (List.mem_cons_of_mem item hother)
      rw [covering_cons]
      cases hitem : f item with
      | none =>
          rw [List.filterMap_cons_none hitem, hrest, if_neg (hnone item List.mem_cons_self hitem),
            List.nil_append]
      | some next =>
          obtain ⟨htag, hcovers⟩ := hsome item List.mem_cons_self next hitem
          rw [List.filterMap_cons_some hitem, covering_cons, hrest, htag, if_congr hcovers rfl rfl]

/-! ## Offsets -/

theorem toInt_max (a b : Int32) : (max a b).toInt = max a.toInt b.toInt := by
  rw [Int.max_def]
  change (if a ≤ b then b else a).toInt = _
  simp only [Int32.le_iff_toInt_le, apply_ite Int32.toInt]

theorem toInt_min (a b : Int32) : (min a b).toInt = min a.toInt b.toInt := by
  rw [Int.min_def]
  change (if a ≤ b then a else b).toInt = _
  simp only [Int32.le_iff_toInt_le, apply_ite Int32.toInt]

/-- An addition that does not overflow. -/
theorem toInt_add {a b : Int32} (hle : -2 ^ 31 ≤ a.toInt + b.toInt)
    (hlt : a.toInt + b.toInt < 2 ^ 31) : (a + b).toInt = a.toInt + b.toInt := by
  rw [Int32.toInt_add]
  exact Int.bmod_eq_of_le (by omega) (by omega)

/-- The offset of a buffer as a signed number. -/
theorem toInt_toInt32 {n : UInt32} (h : n.toNat < 2 ^ 31) : n.toInt32.toInt = n.toNat := by
  change n.toBitVec.toInt = _
  rw [BitVec.toInt_eq_toNat_of_lt]
  · rfl
  · change 2 * n.toNat < 2 ^ 32
    omega

/-! ## What the operations do to the tags of an offset -/

/-- The items that the iterator returns cover the offsets in its range as the list does. -/
theorem covering_begin {first last : Int32} (hfirst : first.toInt ≤ v) (hlast : v < last.toInt) :
    covering (l.begin first last) v = covering l v := by
  apply covering_filterMap
  · intro item _ next hnext
    split at hnext
    · exact absurd hnext (by simp)
    next hin =>
      obtain rfl := Option.some.inj hnext
      refine ⟨rfl, ?_⟩
      unfold ByteTagItem.Covers
      dsimp only
      rw [toInt_max, toInt_min]
      omega
  · intro item _ hnone hcovers
    split at hnone
    next hout =>
      rw [Int32.le_iff_toInt_le, Int32.le_iff_toInt_le] at hout
      unfold ByteTagItem.Covers at hcovers
      omega
    · exact absurd hnone (by simp)

/-- The range of `BeginAll` holds all offsets that a tag can cover, but not the negative ones. -/
theorem mem_beginAll {item : ByteTagItem} (hitem : item ∈ l.beginAll) :
    ∃ old ∈ l, item.tag = old.tag ∧ item.start.toInt = max old.start.toInt 0 ∧
      item.end'.toInt = old.end'.toInt ∧ 0 < item.end'.toInt := by
  obtain ⟨old, hold, hsome⟩ := List.mem_filterMap.mp hitem
  split at hsome
  · exact absurd hsome (by simp)
  next hin =>
    obtain rfl := Option.some.inj hsome
    have hlt := old.end'.toInt_lt
    have hmax : offsetMax.toInt = 2 ^ 31 - 1 := rfl
    have hzero : (0 : Int32).toInt = 0 := rfl
    rw [Int32.le_iff_toInt_le, Int32.le_iff_toInt_le, not_or] at hin
    refine ⟨old, hold, rfl, ?_, ?_, ?_⟩
    · dsimp only
      rw [toInt_max, hzero]
    · dsimp only
      rw [toInt_min]
      omega
    · dsimp only
      rw [toInt_min]
      omega

theorem covering_beginAll (hv : 0 ≤ v) : covering l.beginAll v = covering l v := by
  by_cases hlast : v < offsetMax.toInt
  · exact covering_begin (by simpa using hv) hlast
  · have hmax : offsetMax.toInt = 2 ^ 31 - 1 := rfl
    rw [covering_eq_nil, covering_eq_nil]
    · intro item _ hcovers
      have hlt := item.end'.toInt_lt
      unfold ByteTagItem.Covers at hcovers
      omega
    · intro item _ hcovers
      have hlt := item.end'.toInt_lt
      unfold ByteTagItem.Covers at hcovers
      omega

/-- No tag offset overflows when it is moved. -/
def Moves (l : ByteTagList) (adjustment : Int) : Prop :=
  ∀ item ∈ l, item.start.toInt + adjustment < 2 ^ 31 ∧ item.end'.toInt + adjustment < 2 ^ 31

/-- The item with its new offsets. -/
def moved (item : ByteTagItem) (adjustment : Int32) : ByteTagItem :=
  ⟨item.tag, item.start + adjustment, item.end' + adjustment⟩

theorem covers_moved {adjustment : Int32} (hmoves : l.Moves adjustment.toInt) {item : ByteTagItem}
    (hitem : item ∈ l.beginAll) :
    (moved item adjustment).Covers v ↔ item.Covers (v - adjustment.toInt) := by
  obtain ⟨old, hold, -, hstart, hend, hpos⟩ := mem_beginAll hitem
  obtain ⟨hmoveStart, hmoveEnd⟩ := hmoves old hold
  have hle := adjustment.le_toInt
  have hlt := adjustment.toInt_lt
  have hnewStart : (item.start + adjustment).toInt = item.start.toInt + adjustment.toInt :=
    toInt_add (by omega) (by omega)
  have hnewEnd : (item.end' + adjustment).toInt = item.end'.toInt + adjustment.toInt :=
    toInt_add (by omega) (by omega)
  unfold ByteTagItem.Covers moved
  dsimp only
  omega

/-- Each item is moved, and cut down to the offsets inside. -/
structure Clips (f : ByteTagItem → Option ByteTagItem) (adjustment : Int32) (inside : ℤ → Prop) :
    Prop where
  tag_eq : ∀ {item next}, f item = some next → next.tag = item.tag
  covers_iff : ∀ {item next v}, f item = some next →
    (next.Covers v ↔ inside v ∧ (moved item adjustment).Covers v)
  not_covers : ∀ {item v}, f item = none → inside v → ¬ (moved item adjustment).Covers v

section Clips

variable {f : ByteTagItem → Option ByteTagItem} {adjustment : Int32} {inside : ℤ → Prop}

theorem Clips.covering_inside (h : Clips f adjustment inside) (hmoves : l.Moves adjustment.toInt)
    (hv : inside v) :
    covering (l.beginAll.filterMap f) v = covering l.beginAll (v - adjustment.toInt) := by
  apply covering_filterMap
  · intro item hitem next hnext
    refine ⟨h.tag_eq hnext, ?_⟩
    rw [h.covers_iff hnext, and_iff_right hv, covers_moved hmoves hitem]
  · intro item hitem hnone
    rw [← covers_moved hmoves hitem]
    exact h.not_covers hnone hv

theorem Clips.covering_outside (h : Clips f adjustment inside) (hv : ¬ inside v) :
    covering (l.filterMap f) v = [] := by
  apply covering_eq_nil
  intro next hnext hcovers
  obtain ⟨item, -, hsome⟩ := List.mem_filterMap.mp hnext
  exact hv ((h.covers_iff hsome).mp hcovers).1

/-- Three kinds of items: those that go, those of which a piece is left, and whole ones. -/
theorem clips_ite {gone cut : ByteTagItem → Prop} [DecidablePred gone] [DecidablePred cut]
    {piece : ByteTagItem → ByteTagItem} (htag : ∀ item, (piece item).tag = item.tag)
    (hgone : ∀ item v, gone item → inside v → ¬ (moved item adjustment).Covers v)
    (hcut : ∀ item v, ¬ gone item → cut item →
      ((piece item).Covers v ↔ inside v ∧ (moved item adjustment).Covers v))
    (hwhole : ∀ item v, ¬ gone item → ¬ cut item →
      (moved item adjustment).Covers v → inside v) :
    Clips (fun item => if gone item then none
      else if cut item then some (piece item) else some (moved item adjustment))
      adjustment inside where
  tag_eq := by
    intro item next hnext
    split at hnext
    next => cases hnext
    next =>
      split at hnext
      next => exact Option.some.inj hnext ▸ htag item
      next => exact Option.some.inj hnext ▸ rfl
  covers_iff := by
    intro item next v hnext
    split at hnext
    next => cases hnext
    next hstays =>
      split at hnext
      next hpiece => exact Option.some.inj hnext ▸ hcut item v hstays hpiece
      next hall =>
        obtain rfl := Option.some.inj hnext
        exact ⟨fun hcovers => ⟨hwhole item v hstays hall hcovers, hcovers⟩, And.right⟩
  not_covers := by
    intro item v hnone hv
    split at hnone
    next hgoes => exact hgone item v hgoes hv
    next =>
      split at hnone
      next => cases hnone
      next => cases hnone

/-- `AddAtEnd` keeps what lies before the new bytes. -/
theorem clips_addAtEnd (adjustment appendOffset : Int32) :
    Clips (fun item =>
      if appendOffset ≤ item.start + adjustment then none
      else if item.start + adjustment < appendOffset ∧ appendOffset < item.end' + adjustment then
        some ⟨item.tag, item.start + adjustment, appendOffset⟩
      else some ⟨item.tag, item.start + adjustment, item.end' + adjustment⟩)
      adjustment (fun v => v < appendOffset.toInt) := by
  apply clips_ite
  · intro item
    rfl
  all_goals
    intro item v
    simp only [ByteTagItem.Covers, moved, Int32.le_iff_toInt_le, Int32.lt_iff_toInt_lt]
    omega

/-- `AddAtStart` keeps what lies behind the new bytes. -/
theorem clips_addAtStart (adjustment prependOffset : Int32) :
    Clips (fun item =>
      if item.end' + adjustment ≤ prependOffset then none
      else if prependOffset < item.end' + adjustment ∧ item.start + adjustment < prependOffset then
        some ⟨item.tag, prependOffset, item.end' + adjustment⟩
      else some ⟨item.tag, item.start + adjustment, item.end' + adjustment⟩)
      adjustment (fun v => prependOffset.toInt ≤ v) := by
  apply clips_ite
  · intro item
    rfl
  all_goals
    intro item v
    simp only [ByteTagItem.Covers, moved, Int32.le_iff_toInt_le, Int32.lt_iff_toInt_lt]
    omega

end Clips

/-! ## Added bytes -/

section Adding

variable {adjustment appendOffset prependOffset : Int32}

theorem covering_of_clean_end (hclean : l.isDirtyAtEnd appendOffset = false) (hv : 0 ≤ v)
    (happend : appendOffset.toInt ≤ v) : covering l v = [] := by
  unfold isDirtyAtEnd at hclean
  rw [List.any_eq_false] at hclean
  rw [← covering_beginAll hv]
  apply covering_eq_nil
  intro item hitem hcovers
  have hnot := hclean item hitem
  rw [decide_eq_true_eq, Int32.lt_iff_toInt_lt] at hnot
  exact hnot (happend.trans_lt hcovers.2)

theorem covering_of_clean_start (hclean : l.isDirtyAtStart prependOffset = false) (hv : 0 ≤ v)
    (hprepend : v < prependOffset.toInt) : covering l v = [] := by
  unfold isDirtyAtStart at hclean
  rw [List.any_eq_false] at hclean
  rw [← covering_beginAll hv]
  apply covering_eq_nil
  intro item hitem hcovers
  have hnot := hclean item hitem
  rw [decide_eq_true_eq, Int32.lt_iff_toInt_lt] at hnot
  exact hnot (hcovers.1.trans_lt hprepend)

/-- `AddAtEnd` moves the tags of the offsets before the new bytes. -/
theorem covering_addAtEnd (hmoves : l.Moves adjustment.toInt) (hv : 0 ≤ v)
    (happend : v < appendOffset.toInt) :
    covering (l.addAtEnd adjustment appendOffset) v =
      covering l.beginAll (v - adjustment.toInt) := by
  unfold addAtEnd
  split
  next hsame => rw [hsame.1, Int32.toInt_zero, sub_zero, covering_beginAll hv]
  next => exact (clips_addAtEnd adjustment appendOffset).covering_inside hmoves happend

/-- No tag covers the new bytes. -/
theorem covering_addAtEnd_behind (hv : 0 ≤ v) (happend : appendOffset.toInt ≤ v) :
    covering (l.addAtEnd adjustment appendOffset) v = [] := by
  unfold addAtEnd
  split
  next hsame => exact covering_of_clean_end hsame.2 hv happend
  next =>
    exact (clips_addAtEnd adjustment appendOffset).covering_outside (Int.not_lt.mpr happend)

/-- `AddAtStart` moves the tags of the offsets behind the new bytes. -/
theorem covering_addAtStart (hmoves : l.Moves adjustment.toInt) (hv : 0 ≤ v)
    (hprepend : prependOffset.toInt ≤ v) :
    covering (l.addAtStart adjustment prependOffset) v =
      covering l.beginAll (v - adjustment.toInt) := by
  unfold addAtStart
  split
  next hsame => rw [hsame.1, Int32.toInt_zero, sub_zero, covering_beginAll hv]
  next => exact (clips_addAtStart adjustment prependOffset).covering_inside hmoves hprepend

theorem covering_addAtStart_before (hv : 0 ≤ v) (hprepend : v < prependOffset.toInt) :
    covering (l.addAtStart adjustment prependOffset) v = [] := by
  unfold addAtStart
  split
  next hsame => exact covering_of_clean_start hsame.2 hv hprepend
  next =>
    exact (clips_addAtStart adjustment prependOffset).covering_outside (Int.not_le.mpr hprepend)

end Adding

end ByteTagList

end Ns3Rdma
