import Ns3Rdma.Buffer.FullCopy

/-! # Copying bytes out of a buffer

Both functions `CopyData` return a prefix of the list of the buffer, and read allocated bytes only. -/

namespace Ns3Rdma

open Memory BufferHeap

namespace Buffer

variable {h : BufferHeap} {b : Handle} {rest : Multiset Handle}

/-- The loop over the constant array writes as many zeros as there are. -/
theorem writeZeroes_eq (left : ℕ) : writeZeroes left = List.replicate left 0 := by
  induction left using Nat.strongRecOn with
  | ind left ih =>
      rw [writeZeroes]
      split
      next hzero => rw [hzero, List.replicate_zero]
      next hpos =>
        rw [ih _ (by omega), List.replicate_append_replicate]
        congr 1
        omega

/-- A prefix of the list: bytes before the zero area, zeros, and bytes behind it. -/
theorem take_view (bytes : ℕ → UInt8) (hb : b.Ordered) (size : ℕ) :
    (b.view bytes).take size =
      (b.view bytes).take (min (b.zeroAreaStart.toNat - b.start.toNat) size) ++
        List.replicate (min (b.zeroAreaEnd.toNat - b.zeroAreaStart.toNat)
          (size - (b.zeroAreaStart.toNat - b.start.toNat))) 0 ++
            ((b.view bytes).drop (b.zeroAreaEnd.toNat - b.start.toNat)).take
              (min (b.end'.toNat - b.zeroAreaEnd.toNat)
                (size - (b.zeroAreaStart.toNat - b.start.toNat) -
                  (b.zeroAreaEnd.toNat - b.zeroAreaStart.toNat))) := by
  have hbefore := congrArg (List.take size) (view_take bytes b.toBuffer)
  rw [List.take_take, take_slice, Nat.min_comm size] at hbefore
  rw [hbefore, view_drop bytes hb, take_slice, view, List.append_assoc, List.take_append,
    List.take_append, length_slice, List.length_replicate, take_slice, take_slice,
    List.take_replicate, List.append_assoc, Nat.min_comm size,
    Nat.min_comm (size - (b.zeroAreaStart.toNat - b.start.toNat)),
    Nat.min_comm (size - (b.zeroAreaStart.toNat - b.start.toNat) - _),
    Nat.min_eq_left (Nat.min_le_left (b.end'.toNat - b.zeroAreaEnd.toNat) _)]

/-- The sizes of the three parts of a buffer. -/
theorem parts_toNat (hb : b.Ordered) :
    (b.zeroAreaStart - b.start).toNat = b.zeroAreaStart.toNat - b.start.toNat ∧
      (b.zeroAreaEnd - b.zeroAreaStart).toNat = b.zeroAreaEnd.toNat - b.zeroAreaStart.toNat ∧
        (b.end' - b.zeroAreaEnd).toNat = b.end'.toNat - b.zeroAreaEnd.toNat :=
  ⟨UInt32.toNat_sub_of_toNat_le hb.start_le, UInt32.toNat_sub_of_toNat_le hb.zeroArea_le,
    UInt32.toNat_sub_of_toNat_le hb.le_end⟩

/-- `CopyData` to a stream writes a prefix of the list. -/
theorem copyDataToStream_spec (hs : h.Sound (b ::ₘ rest)) (size : UInt32) :
    b.copyDataToStream h size = some ((h.viewOf b.toBuffer).take size.toNat) := by
  have hordered := hs.within.ordered
  have htake := take_view (h.data b.data).bytes hordered size.toNat
  obtain ⟨hbefore, hzeros, hbehind⟩ := parts_toNat hordered
  have hread := read_before hs
    (show (min (b.zeroAreaStart - b.start) size).toNat ≤ _ by rw [UInt32.toNat_min]; omega)
  change (h.viewOf b.toBuffer).take _ = (h.viewOf b.toBuffer).take _ ++ _ ++
    ((h.viewOf b.toBuffer).drop _).take _ at htake
  rw [htake]
  unfold copyDataToStream
  simp only [UInt32.lt_iff_toNat_lt, writeZeroes_eq]
  split
  next hsize =>
    rw [hread, Option.bind_some, UInt32.toNat_min, hbefore]
    split
    next hmore =>
      have hleft : (size - (b.zeroAreaStart - b.start)).toNat =
          size.toNat - (b.zeroAreaStart.toNat - b.start.toNat) := by
        rw [UInt32.toNat_sub_of_toNat_le (by omega), hbefore]
      rw [UInt32.toNat_min, hzeros, hleft]
      split
      next hmore' =>
        -- bytes of all three parts
        have hlast : (min (b.end' - b.zeroAreaEnd) (size - (b.zeroAreaStart - b.start) -
            min (b.zeroAreaEnd - b.zeroAreaStart) (size - (b.zeroAreaStart - b.start)))).toNat =
              min (b.end'.toNat - b.zeroAreaEnd.toNat)
                (size.toNat - (b.zeroAreaStart.toNat - b.start.toNat) -
                  (b.zeroAreaEnd.toNat - b.zeroAreaStart.toNat)) := by
          rw [UInt32.toNat_min, hbehind, UInt32.toNat_sub_of_toNat_le
            (by rw [UInt32.toNat_min]; exact Nat.min_le_right _ _), UInt32.toNat_min, hleft, hzeros]
          omega
        rw [read_behind hs (by rw [hlast]; exact Nat.min_le_left _ _), Option.map_some, hlast]
      next hdone =>
        have hnone : size.toNat - (b.zeroAreaStart.toNat - b.start.toNat) -
            (b.zeroAreaEnd.toNat - b.zeroAreaStart.toNat) = 0 := by omega
        rw [hnone, Nat.min_zero, List.take_zero, List.append_nil]
    next hdone =>
      have hnone : size.toNat - (b.zeroAreaStart.toNat - b.start.toNat) = 0 := by omega
      rw [hnone, Nat.zero_sub, Nat.min_zero, Nat.min_zero, List.take_zero, List.replicate_zero,
        List.append_nil, List.append_nil]
  next hsize =>
    rw [UInt32.toNat_zero] at hsize
    have hnone : size.toNat = 0 := by omega
    rw [hnone, Nat.zero_sub, Nat.zero_sub, Nat.min_zero, Nat.min_zero, Nat.min_zero, List.take_zero,
      List.replicate_zero, List.take_zero, List.append_nil, List.append_nil]

/-- `CopyData` to memory returns a prefix of the list, and its length. -/
theorem copyData_spec (hs : h.Sound (b ::ₘ rest)) (size : UInt32) :
    ∃ n : UInt32, b.copyData h size = some ((h.viewOf b.toBuffer).take size.toNat, n) ∧
      n.toNat = ((h.viewOf b.toBuffer).take size.toNat).length := by
  have hordered := hs.within.ordered
  obtain ⟨h₁, h₂, h₃⟩ := id hordered
  have hlength := hs.length_viewOf
  have htake := take_view (h.data b.data).bytes hordered size.toNat
  obtain ⟨hbefore, hzeros, hbehind⟩ := parts_toNat hordered
  have hread := read_before hs
    (show (min (b.zeroAreaStart - b.start) size).toNat ≤ _ by rw [UInt32.toNat_min]; omega)
  rw [List.length_take, hlength]
  change (h.viewOf b.toBuffer).take _ = (h.viewOf b.toBuffer).take _ ++ _ ++
    ((h.viewOf b.toBuffer).drop _).take _ at htake
  rw [htake]
  unfold copyData
  simp only [UInt32.lt_iff_toNat_lt, writeZeroes_eq]
  split
  next hsize =>
    have hfirst : (min (b.zeroAreaStart - b.start) size).toNat =
        min (b.zeroAreaStart.toNat - b.start.toNat) size.toNat := by
      rw [UInt32.toNat_min, hbefore]
    have hleft : (size - min (b.zeroAreaStart - b.start) size).toNat =
        size.toNat - (b.zeroAreaStart.toNat - b.start.toNat) := by
      rw [UInt32.toNat_sub_of_toNat_le (by omega), hfirst]
      omega
    rw [hread, Option.bind_some, hfirst]
    generalize size - min (b.zeroAreaStart - b.start) size = left at hleft ⊢
    rw [UInt32.toNat_zero]
    split
    next hmore =>
      have hmiddle : (min (b.zeroAreaEnd - b.zeroAreaStart) left).toNat =
          min (b.zeroAreaEnd.toNat - b.zeroAreaStart.toNat) left.toNat := by
        rw [UInt32.toNat_min, hzeros]
      have hleft' : (left - min (b.zeroAreaEnd - b.zeroAreaStart) left).toNat =
          left.toNat - (b.zeroAreaEnd.toNat - b.zeroAreaStart.toNat) := by
        rw [UInt32.toNat_sub_of_toNat_le (by omega), hmiddle]
        omega
      rw [hmiddle]
      generalize left - min (b.zeroAreaEnd - b.zeroAreaStart) left = left' at hleft' ⊢
      split
      next hmore' =>
        have hlast : (min (b.end' - b.zeroAreaEnd) left').toNat =
            min (b.end'.toNat - b.zeroAreaEnd.toNat) left'.toNat := by
          rw [UInt32.toNat_min, hbehind]
        have hrest : (left' - min (b.end' - b.zeroAreaEnd) left').toNat =
            left'.toNat - (b.end'.toNat - b.zeroAreaEnd.toNat) := by
          rw [UInt32.toNat_sub_of_toNat_le (by omega), hlast]
          omega
        rw [read_behind hs (by rw [hlast]; exact Nat.min_le_left _ _), Option.map_some, hlast, hleft',
          hleft]
        refine ⟨_, rfl, ?_⟩
        rw [UInt32.toNat_sub_of_toNat_le (by omega), hrest]
        omega
      next hdone =>
        have hnone : size.toNat - (b.zeroAreaStart.toNat - b.start.toNat) -
            (b.zeroAreaEnd.toNat - b.zeroAreaStart.toNat) = 0 := by omega
        rw [hnone, Nat.min_zero, List.take_zero, List.append_nil, hleft]
        refine ⟨_, rfl, ?_⟩
        rw [UInt32.toNat_sub_of_toNat_le (by omega)]
        omega
    next hdone =>
      have hnone : size.toNat - (b.zeroAreaStart.toNat - b.start.toNat) = 0 := by omega
      rw [hnone, Nat.zero_sub, Nat.min_zero, Nat.min_zero, List.take_zero, List.replicate_zero,
        List.append_nil, List.append_nil]
      refine ⟨_, rfl, ?_⟩
      rw [UInt32.toNat_sub_of_toNat_le (by omega)]
      omega
  next hsize =>
    rw [UInt32.toNat_zero] at hsize
    have hnone : size.toNat = 0 := by omega
    rw [hnone, Nat.zero_sub, Nat.zero_sub, Nat.min_zero, Nat.min_zero, Nat.min_zero, List.take_zero,
      List.replicate_zero, List.take_zero, List.append_nil, List.append_nil]
    exact ⟨0, rfl, rfl⟩

end Buffer

end Ns3Rdma
