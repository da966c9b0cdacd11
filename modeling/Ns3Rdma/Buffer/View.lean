import Ns3Rdma.Buffer.Buffer
import Ns3Rdma.Lib.Word

/-! # The bytes of a buffer

A buffer represents its bytes before the zero area, the zeros, and its bytes behind them. Seen
through its virtual offsets this is one slice, which removals shorten. -/

namespace Ns3Rdma

open Memory

namespace Buffer

/-- The byte list that a buffer represents, given the bytes of its `Data` object. -/
def view (bytes : ℕ → UInt8) (b : Buffer) : List UInt8 :=
  slice bytes b.start.toNat (b.zeroAreaStart.toNat - b.start.toNat) ++
    List.replicate (b.zeroAreaEnd.toNat - b.zeroAreaStart.toNat) 0 ++
      slice bytes b.zeroAreaStart.toNat (b.end'.toNat - b.zeroAreaEnd.toNat)

/-- The state invariant of the source. -/
structure Ordered (b : Buffer) : Prop where
  start_le : b.start.toNat ≤ b.zeroAreaStart.toNat
  zeroArea_le : b.zeroAreaStart.toNat ≤ b.zeroAreaEnd.toNat
  le_end : b.zeroAreaEnd.toNat ≤ b.end'.toNat

/-- Where the allocated bytes of the buffer end. -/
def realEnd (b : Buffer) : ℕ := b.end'.toNat - (b.zeroAreaEnd.toNat - b.zeroAreaStart.toNat)

/-- The byte at a virtual offset. -/
def virtualByte (bytes : ℕ → UInt8) (b : Buffer) (v : ℕ) : UInt8 :=
  if v < b.zeroAreaStart.toNat then bytes v
  else if v < b.zeroAreaEnd.toNat then 0
  else bytes (v - (b.zeroAreaEnd.toNat - b.zeroAreaStart.toNat))

variable {bytes : ℕ → UInt8} {b : Buffer}

theorem view_eq_slice (h : b.Ordered) : b.view bytes =
    slice (b.virtualByte bytes) b.start.toNat (b.end'.toNat - b.start.toNat) := by
  obtain ⟨hstart, hzero, hend⟩ := h
  have hbefore : slice bytes b.start.toNat (b.zeroAreaStart.toNat - b.start.toNat) =
      slice (b.virtualByte bytes) b.start.toNat (b.zeroAreaStart.toNat - b.start.toNat) := by
    apply slice_congr
    intro i hi
    unfold virtualByte
    rw [if_pos (by omega)]
  have hzeros : List.replicate (b.zeroAreaEnd.toNat - b.zeroAreaStart.toNat) 0 =
      slice (b.virtualByte bytes) b.zeroAreaStart.toNat
        (b.zeroAreaEnd.toNat - b.zeroAreaStart.toNat) := by
    rw [← slice_const 0 b.zeroAreaStart.toNat]
    apply slice_congr
    intro i hi
    unfold virtualByte
    rw [if_neg (by omega), if_pos (by omega)]
  have hbehind : slice bytes b.zeroAreaStart.toNat (b.end'.toNat - b.zeroAreaEnd.toNat) =
      slice (b.virtualByte bytes) b.zeroAreaEnd.toNat
        (b.end'.toNat - b.zeroAreaEnd.toNat) := by
    apply slice_congr
    intro i hi
    unfold virtualByte
    rw [if_neg (by omega), if_neg (by omega)]
    congr 1
    omega
  have hmiddle := slice_append (b.virtualByte bytes) b.start.toNat
    (b.zeroAreaStart.toNat - b.start.toNat) (b.zeroAreaEnd.toNat - b.zeroAreaStart.toNat)
  have hall := slice_append (b.virtualByte bytes) b.start.toNat
    (b.zeroAreaEnd.toNat - b.start.toNat) (b.end'.toNat - b.zeroAreaEnd.toNat)
  rw [Nat.add_sub_cancel' hstart,
    show b.zeroAreaStart.toNat - b.start.toNat + (b.zeroAreaEnd.toNat - b.zeroAreaStart.toNat) =
      b.zeroAreaEnd.toNat - b.start.toNat by omega] at hmiddle
  rw [Nat.add_sub_cancel' (by omega),
    show b.zeroAreaEnd.toNat - b.start.toNat + (b.end'.toNat - b.zeroAreaEnd.toNat) =
      b.end'.toNat - b.start.toNat by omega] at hall
  rw [view, hbefore, hzeros, hbehind, hmiddle, hall]

theorem length_view (h : b.Ordered) : (b.view bytes).length = b.end'.toNat - b.start.toNat := by
  rw [view_eq_slice h, length_slice]

/-- The view reads the allocated bytes of the buffer only. -/
theorem view_congr {other : ℕ → UInt8} (h : b.Ordered)
    (hbytes : ∀ i, b.start.toNat ≤ i → i < b.realEnd → other i = bytes i) :
    b.view other = b.view bytes := by
  obtain ⟨hstart, hzero, hend⟩ := h
  unfold realEnd at hbytes
  have hbefore : slice other b.start.toNat (b.zeroAreaStart.toNat - b.start.toNat) =
      slice bytes b.start.toNat (b.zeroAreaStart.toNat - b.start.toNat) :=
    slice_congr fun i hi => hbytes _ (by omega) (by omega)
  have hbehind : slice other b.zeroAreaStart.toNat (b.end'.toNat - b.zeroAreaEnd.toNat) =
      slice bytes b.zeroAreaStart.toNat (b.end'.toNat - b.zeroAreaEnd.toNat) :=
    slice_congr fun i hi => hbytes _ (by omega) (by omega)
  rw [view, hbefore, hbehind, view]

@[simp] theorem view_noteZeroArea (b : Buffer) : b.noteZeroArea.view bytes = b.view bytes := rfl

@[simp] theorem realEnd_noteZeroArea (b : Buffer) : b.noteZeroArea.realEnd = b.realEnd := rfl

theorem Ordered.noteZeroArea (h : b.Ordered) : b.noteZeroArea.Ordered := ⟨h.1, h.2, h.3⟩

/-- More bytes before the others. -/
theorem view_of_start {next : Buffer} {n : ℕ} (h : b.Ordered)
    (hstart : next.start.toNat + n = b.start.toNat) (hzeroStart : next.zeroAreaStart = b.zeroAreaStart)
    (hzeroEnd : next.zeroAreaEnd = b.zeroAreaEnd) (hend : next.end' = b.end') :
    next.view bytes = slice bytes next.start.toNat n ++ b.view bytes := by
  have hle := h.start_le
  have hsplit := slice_append bytes next.start.toNat n (b.zeroAreaStart.toNat - b.start.toNat)
  rw [hstart, show n + (b.zeroAreaStart.toNat - b.start.toNat) =
    b.zeroAreaStart.toNat - next.start.toNat by omega] at hsplit
  rw [view, view, hzeroStart, hzeroEnd, hend, ← hsplit, List.append_assoc, List.append_assoc,
    List.append_assoc]

/-- More bytes behind the others. -/
theorem view_of_end {next : Buffer} {n : ℕ} (h : b.Ordered) (hend : next.end'.toNat = b.end'.toNat + n)
    (hstart : next.start = b.start) (hzeroStart : next.zeroAreaStart = b.zeroAreaStart)
    (hzeroEnd : next.zeroAreaEnd = b.zeroAreaEnd) :
    next.view bytes = b.view bytes ++ slice bytes b.realEnd n := by
  obtain ⟨hs, hz, he⟩ := h
  have hsplit := slice_append bytes b.zeroAreaStart.toNat (b.end'.toNat - b.zeroAreaEnd.toNat) n
  rw [show b.zeroAreaStart.toNat + (b.end'.toNat - b.zeroAreaEnd.toNat) = b.realEnd by
      unfold realEnd; omega,
    show b.end'.toNat - b.zeroAreaEnd.toNat + n = next.end'.toNat - b.zeroAreaEnd.toNat by omega]
    at hsplit
  rw [view, view, hstart, hzeroStart, hzeroEnd, ← hsplit, List.append_assoc, List.append_assoc,
    List.append_assoc]

/-- The same bytes at another place, with offsets that are shifted alike. -/
theorem view_of_moved {next : Buffer} {bytes' : ℕ → UInt8} (h : b.Ordered)
    (hzeroStart : next.zeroAreaStart.toNat + b.start.toNat =
      b.zeroAreaStart.toNat + next.start.toNat)
    (hzeroEnd : next.zeroAreaEnd.toNat + b.start.toNat = b.zeroAreaEnd.toNat + next.start.toNat)
    (hend : next.end'.toNat + b.start.toNat = b.end'.toNat + next.start.toNat)
    (hbytes : slice bytes' next.start.toNat (b.realEnd - b.start.toNat) =
      slice bytes b.start.toNat (b.realEnd - b.start.toNat)) :
    next.view bytes' = b.view bytes := by
  obtain ⟨hs, hz, he⟩ := h
  have hbefore := congrArg (List.take (b.zeroAreaStart.toNat - b.start.toNat)) hbytes
  have hbehind := congrArg (List.drop (b.zeroAreaStart.toNat - b.start.toNat)) hbytes
  rw [take_slice, take_slice, Nat.min_eq_left (by unfold realEnd; omega)] at hbefore
  rw [drop_slice, drop_slice, show next.start.toNat + (b.zeroAreaStart.toNat - b.start.toNat) =
      next.zeroAreaStart.toNat by omega,
    show b.start.toNat + (b.zeroAreaStart.toNat - b.start.toNat) = b.zeroAreaStart.toNat by omega,
    show b.realEnd - b.start.toNat - (b.zeroAreaStart.toNat - b.start.toNat) =
      b.end'.toNat - b.zeroAreaEnd.toNat by unfold realEnd; omega] at hbehind
  rw [view, view, ← hbefore, ← hbehind,
    show next.zeroAreaStart.toNat - next.start.toNat =
      b.zeroAreaStart.toNat - b.start.toNat by omega,
    show next.zeroAreaEnd.toNat - next.zeroAreaStart.toNat =
      b.zeroAreaEnd.toNat - b.zeroAreaStart.toNat by omega,
    show next.end'.toNat - next.zeroAreaEnd.toNat = b.end'.toNat - b.zeroAreaEnd.toNat by omega]

/-- A store before the zero area. -/
theorem view_store_front (h : b.Ordered) {off : ℕ} {l : List UInt8}
    (hl : b.start.toNat + off + l.length ≤ b.zeroAreaStart.toNat) :
    b.view (store bytes (b.start.toNat + off) l) = splice (b.view bytes) off l := by
  have hbehind : slice (store bytes (b.start.toNat + off) l) b.zeroAreaStart.toNat
      (b.end'.toNat - b.zeroAreaEnd.toNat) =
        slice bytes b.zeroAreaStart.toNat (b.end'.toNat - b.zeroAreaEnd.toNat) :=
    slice_store_of_disjoint (Or.inr hl)
  have hle := h.start_le
  rw [view, view, slice_store bytes (by omega), hbehind, List.append_assoc, List.append_assoc,
    splice_append_left (by rw [length_slice]; omega)]

/-- A store behind the zero area. -/
theorem view_store_back (h : b.Ordered) {off : ℕ} {l : List UInt8}
    (hl : b.zeroAreaEnd.toNat + off + l.length ≤ b.end'.toNat) :
    b.view (store bytes (b.zeroAreaStart.toNat + off) l) =
      splice (b.view bytes) (b.zeroAreaEnd.toNat - b.start.toNat + off) l := by
  obtain ⟨hs, hz, he⟩ := h
  have hbefore : slice (store bytes (b.zeroAreaStart.toNat + off) l) b.start.toNat
      (b.zeroAreaStart.toNat - b.start.toNat) =
        slice bytes b.start.toNat (b.zeroAreaStart.toNat - b.start.toNat) :=
    slice_store_of_disjoint (Or.inl (by omega))
  have hlength : (slice bytes b.start.toNat (b.zeroAreaStart.toNat - b.start.toNat) ++
      List.replicate (b.zeroAreaEnd.toNat - b.zeroAreaStart.toNat) (0 : UInt8)).length =
        b.zeroAreaEnd.toNat - b.start.toNat := by
    rw [List.length_append, length_slice, List.length_replicate]
    omega
  rw [view, view, hbefore, slice_store bytes (by omega), ← hlength, splice_append_right]

/-! ## Removals -/

/-- What a removal may do to the offsets of a buffer. -/
structure ShrinksTo (b next : Buffer) : Prop where
  data_eq : next.data = b.data
  ordered : next.Ordered
  start_le : b.start.toNat ≤ next.start.toNat
  end_le : next.end'.toNat ≤ b.end'.toNat
  realEnd_le : next.realEnd ≤ b.realEnd
  realEnd_eq : next.end'.toNat = b.end'.toNat → next.realEnd = b.realEnd

theorem ShrinksTo.trans {next last : Buffer} (h : b.ShrinksTo next) (hnext : next.ShrinksTo last) :
    b.ShrinksTo last where
  data_eq := hnext.data_eq.trans h.data_eq
  ordered := hnext.ordered
  start_le := h.start_le.trans hnext.start_le
  end_le := hnext.end_le.trans h.end_le
  realEnd_le := hnext.realEnd_le.trans h.realEnd_le
  realEnd_eq := by
    intro heq
    have hmiddle := hnext.end_le
    have hfirst := h.end_le
    rw [hnext.realEnd_eq (by omega), h.realEnd_eq (by omega)]

theorem ShrinksTo.noteZeroArea {next : Buffer} (h : b.ShrinksTo next) :
    b.ShrinksTo next.noteZeroArea :=
  ⟨h.1, h.ordered.noteZeroArea, h.3, h.4, h.5, h.6⟩

theorem zeroSize_toNat (h : b.Ordered) :
    b.zeroSize.toNat = b.zeroAreaEnd.toNat - b.zeroAreaStart.toNat :=
  UInt32.toNat_sub_of_toNat_le h.zeroArea_le

/-- A buffer with the virtual bytes of `b` from its `k`-th byte on. -/
theorem removed_spec {next : Buffer} {k : ℕ} (h : b.Ordered) (hdata : next.data = b.data)
    (hnext : next.Ordered) (hstart : b.start.toNat ≤ next.start.toNat)
    (hend : next.end'.toNat ≤ b.end'.toNat) (hreal : next.realEnd = b.realEnd)
    (hsize : next.end'.toNat - next.start.toNat = b.end'.toNat - b.start.toNat - k)
    (hvirtual : ∀ bytes, ∀ i < next.end'.toNat - next.start.toNat,
      next.virtualByte bytes (next.start.toNat + i) =
        b.virtualByte bytes (b.start.toNat + k + i)) :
    b.ShrinksTo next.noteZeroArea ∧
      ∀ bytes, next.noteZeroArea.view bytes = (b.view bytes).drop k := by
  have hshrinks : b.ShrinksTo next := ⟨hdata, hnext, hstart, hend, hreal.le, fun _ => hreal⟩
  refine ⟨hshrinks.noteZeroArea, fun bytes => ?_⟩
  rw [view_noteZeroArea, view_eq_slice h, view_eq_slice hnext, drop_slice, ← hsize]
  exact slice_congr (hvirtual bytes)

/-- `RemoveAtStart` drops bytes, unless the new start wraps around. -/
theorem removeAtStart_spec (h : b.Ordered) {n : UInt32} (hn : b.start.toNat + n.toNat < 2 ^ 32) :
    ∃ next, b.removeAtStart n = some next ∧ b.ShrinksTo next ∧
      ∀ bytes, next.view bytes = (b.view bytes).drop n.toNat := by
  obtain ⟨hstart, hzero, hend⟩ := id h
  have hnew : (b.start + n).toNat = b.start.toNat + n.toNat := UInt32.toNat_add_of_lt hn
  have hzeroSize := zeroSize_toNat h
  have hendSize : (b.end' - b.zeroSize).toNat =
      b.end'.toNat - (b.zeroAreaEnd.toNat - b.zeroAreaStart.toNat) := by
    rw [UInt32.toNat_sub_of_toNat_le (by omega), hzeroSize]
  unfold removeAtStart
  dsimp only
  split
  next hcase =>
    -- only bytes before the zero area are removed
    rw [UInt32.le_iff_toNat_le, hnew] at hcase
    refine ⟨_, rfl, removed_spec h rfl ⟨?_, hzero, hend⟩ ?_ (Nat.le_refl _) rfl ?_ fun bytes i _ => ?_⟩
    all_goals try dsimp only
    · omega
    · omega
    · omega
    · unfold virtualByte
      dsimp only
      rw [hnew]
  next hcase =>
    rw [UInt32.le_iff_toNat_le, hnew] at hcase
    split
    next hcase' =>
      -- the bytes before the zero area and some zeros are removed
      rw [UInt32.le_iff_toNat_le, hnew] at hcase'
      have hdelta : (b.start + n - b.zeroAreaStart).toNat =
          b.start.toNat + n.toNat - b.zeroAreaStart.toNat := by
        rw [UInt32.toNat_sub_of_toNat_le (by omega), hnew]
      have hze : (b.zeroAreaEnd - (b.start + n - b.zeroAreaStart)).toNat =
          b.zeroAreaEnd.toNat - (b.start.toNat + n.toNat - b.zeroAreaStart.toNat) := by
        rw [UInt32.toNat_sub_of_toNat_le (by omega), hdelta]
      have he : (b.end' - (b.start + n - b.zeroAreaStart)).toNat =
          b.end'.toNat - (b.start.toNat + n.toNat - b.zeroAreaStart.toNat) := by
        rw [UInt32.toNat_sub_of_toNat_le (by omega), hdelta]
      refine ⟨_, rfl, removed_spec h rfl ⟨?_, ?_, ?_⟩ ?_ ?_ ?_ ?_ fun bytes i hi => ?_⟩
      all_goals try dsimp only
      · exact Nat.le_refl _
      · omega
      · omega
      · omega
      · omega
      · unfold realEnd
        dsimp only
        omega
      · omega
      · unfold virtualByte
        dsimp only at hi ⊢
        rw [if_neg (by omega), hze]
        by_cases hi' : b.zeroAreaStart.toNat + i <
            b.zeroAreaEnd.toNat - (b.start.toNat + n.toNat - b.zeroAreaStart.toNat)
        · rw [if_pos hi', if_neg (by omega), if_pos (by omega)]
        · rw [if_neg hi', if_neg (by omega), if_neg (by omega)]
          congr 1
          omega
    next hcase' =>
      rw [UInt32.le_iff_toNat_le, hnew] at hcase'
      split
      next hcase'' =>
        -- the bytes before the zero area, all zeros and some bytes behind them are removed
        rw [UInt32.le_iff_toNat_le, hnew] at hcase''
        rw [if_pos (by rw [UInt32.le_iff_toNat_le]; omega)]
        have hshift : (b.start + n - b.zeroSize).toNat =
            b.start.toNat + n.toNat - (b.zeroAreaEnd.toNat - b.zeroAreaStart.toNat) := by
          rw [UInt32.toNat_sub_of_toNat_le (by omega), hnew, hzeroSize]
        refine ⟨_, rfl, removed_spec h rfl ⟨?_, ?_, ?_⟩ ?_ ?_ ?_ ?_ fun bytes i hi => ?_⟩
        all_goals try dsimp only
        · exact Nat.le_refl _
        · exact Nat.le_refl _
        · omega
        · omega
        · omega
        · unfold realEnd
          dsimp only
          omega
        · omega
        · unfold virtualByte
          dsimp only at hi ⊢
          rw [if_neg (by omega), if_neg (by omega), if_neg (by omega), if_neg (by omega)]
          congr 1
          omega
      next hcase'' =>
        -- nothing is left
        rw [UInt32.le_iff_toNat_le, hnew] at hcase''
        refine ⟨_, rfl, removed_spec h rfl ⟨?_, ?_, ?_⟩ ?_ ?_ ?_ ?_ fun bytes i hi => ?_⟩
        all_goals try dsimp only
        · exact Nat.le_refl _
        · exact Nat.le_refl _
        · exact Nat.le_refl _
        · omega
        · omega
        · unfold realEnd
          dsimp only
          omega
        · omega
        · dsimp only at hi
          omega

/-- A buffer with the virtual bytes of `b` from its first byte on, but fewer of them. -/
theorem truncated_spec {next : Buffer} {k : ℕ} (h : b.Ordered) (hdata : next.data = b.data)
    (hnext : next.Ordered) (hstart : next.start.toNat = b.start.toNat)
    (hend : next.end'.toNat = b.end'.toNat - min k (b.end'.toNat - b.start.toNat))
    (hreal : next.realEnd ≤ b.realEnd)
    (hsame : next.end'.toNat = b.end'.toNat → next.realEnd = b.realEnd)
    (hvirtual : ∀ bytes, ∀ i < next.end'.toNat - next.start.toNat,
      next.virtualByte bytes (b.start.toNat + i) = b.virtualByte bytes (b.start.toNat + i)) :
    b.ShrinksTo next.noteZeroArea ∧ ∀ bytes, next.noteZeroArea.view bytes =
      (b.view bytes).take ((b.view bytes).length - k) := by
  have hshrinks : b.ShrinksTo next := ⟨hdata, hnext, hstart.ge, by omega, hreal, hsame⟩
  refine ⟨hshrinks.noteZeroArea, fun bytes => ?_⟩
  rw [view_noteZeroArea, view_eq_slice h, view_eq_slice hnext, length_slice, take_slice, hstart,
    show min (b.end'.toNat - b.start.toNat - k) (b.end'.toNat - b.start.toNat) =
      next.end'.toNat - b.start.toNat by omega]
  apply slice_congr
  rw [hstart] at hvirtual
  exact hvirtual bytes

/-- `RemoveAtEnd` truncates. -/
theorem removeAtEnd_spec (h : b.Ordered) (n : UInt32) :
    b.ShrinksTo (b.removeAtEnd n) ∧ ∀ bytes, (b.removeAtEnd n).view bytes =
      (b.view bytes).take ((b.view bytes).length - n.toNat) := by
  obtain ⟨hstart, hzero, hend⟩ := id h
  have hsize : (b.end' - b.start).toNat = b.end'.toNat - b.start.toNat :=
    UInt32.toNat_sub_of_toNat_le (by omega)
  have hmin : (min n (b.end' - b.start)).toNat = min n.toNat (b.end'.toNat - b.start.toNat) := by
    rw [UInt32.toNat_min, hsize]
  have hnew : (b.end' - min n (b.end' - b.start)).toNat =
      b.end'.toNat - min n.toNat (b.end'.toNat - b.start.toNat) := by
    rw [UInt32.toNat_sub_of_toNat_le (by omega), hmin]
  unfold removeAtEnd
  dsimp only
  split
  next hcase =>
    rw [gt_iff_lt, UInt32.lt_iff_toNat_lt, hnew] at hcase
    refine truncated_spec h rfl ⟨hstart, hzero, ?_⟩ rfl hnew ?_ ?_ fun bytes i hi => ?_
    · dsimp only
      omega
    · unfold realEnd
      dsimp only
      omega
    · unfold realEnd
      dsimp only
      omega
    · rfl
  next hcase =>
    rw [gt_iff_lt, UInt32.lt_iff_toNat_lt, hnew] at hcase
    split
    next hcase' =>
      rw [gt_iff_lt, UInt32.lt_iff_toNat_lt, hnew] at hcase'
      refine truncated_spec h rfl ⟨hstart, ?_, Nat.le_refl _⟩ rfl hnew ?_ ?_ fun bytes i hi => ?_
      · dsimp only
        omega
      · unfold realEnd
        dsimp only
        omega
      · unfold realEnd
        dsimp only
        omega
      · unfold virtualByte
        dsimp only at hi ⊢
        by_cases hi' : b.start.toNat + i < b.zeroAreaStart.toNat
        · rw [if_pos hi', if_pos hi']
        · rw [if_neg hi', if_neg hi', if_pos (by omega), if_pos (by omega)]
    next hcase' =>
      rw [gt_iff_lt, UInt32.lt_iff_toNat_lt, hnew] at hcase'
      split
      next hcase'' =>
        rw [gt_iff_lt, UInt32.lt_iff_toNat_lt, hnew] at hcase''
        refine truncated_spec h rfl ⟨?_, Nat.le_refl _, Nat.le_refl _⟩ rfl hnew ?_ ?_
          fun bytes i hi => ?_
        · dsimp only
          omega
        · unfold realEnd
          dsimp only
          omega
        · unfold realEnd
          dsimp only
          omega
        · unfold virtualByte
          dsimp only at hi ⊢
          rw [if_pos (by omega), if_pos (by omega)]
      next hcase'' =>
        rw [gt_iff_lt, UInt32.lt_iff_toNat_lt, hnew] at hcase''
        refine truncated_spec h rfl ⟨Nat.le_refl _, Nat.le_refl _, Nat.le_refl _⟩ rfl ?_ ?_ ?_
          fun bytes i hi => ?_
        · dsimp only
          omega
        · unfold realEnd
          dsimp only
          omega
        · unfold realEnd
          dsimp only
          omega
        · dsimp only at hi
          omega

end Buffer

end Ns3Rdma
