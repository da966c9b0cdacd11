import Ns3Rdma.Net.PacketPool
import Ns3Rdma.Lib.Memory

/-! # The tags of the bytes of one packet

How the tags of the bytes change when the offsets of a buffer and its byte tags change. All offsets
are below 2^31 here, since those of the tags are signed. -/

namespace Ns3Rdma

open Memory ByteTagList

/-- The offsets of a packet can be compared with those of its tags. -/
structure Buffer.InRange (b : Buffer) : Prop where
  start_le : b.start.toNat ≤ b.end'.toNat
  end_lt : b.end'.toNat < 2 ^ 31

namespace ByteTagList

variable {l : ByteTagList} {v : ℤ}

/-- No tag covers an offset from `first` up to `last`. -/
def Clean (l : ByteTagList) (first last : ℕ) : Prop :=
  ∀ v : ℕ, first ≤ v → v < last → covering l v = []

/-- The offsets from `first` up to `last` have the tags of the offsets that are `shift` lower. -/
def AgreesBelow (l : ByteTagList) (shift first last : ℕ) : Prop :=
  ∀ v : ℕ, first ≤ v → v < last → covering l.beginAll ((v : ℤ) - shift) = covering l v

theorem agreesBelow_zero (l : ByteTagList) (first last : ℕ) : l.AgreesBelow 0 first last := by
  intro v _ _
  rw [Nat.cast_zero, sub_zero]
  exact covering_beginAll (by omega)

theorem Moves.mono {adjustment adjustment' : ℤ} (h : l.Moves adjustment)
    (hle : adjustment' ≤ adjustment) : l.Moves adjustment' := by
  intro item hitem
  obtain ⟨hstart, hend⟩ := h item hitem
  omega

/-- Tags that move down do not overflow. -/
theorem moves_of_nonpos {adjustment : ℤ} (h : adjustment ≤ 0) : l.Moves adjustment := by
  intro item _
  have hstart := item.start.toInt_lt
  have hend := item.end'.toInt_lt
  omega

theorem addAtEnd_nil (adjustment appendOffset : Int32) :
    addAtEnd [] adjustment appendOffset = [] := by
  unfold addAtEnd
  split
  · rfl
  · rfl

theorem addAtStart_nil (adjustment prependOffset : Int32) :
    addAtStart [] adjustment prependOffset = [] := by
  unfold addAtStart
  split
  · rfl
  · rfl

theorem covering_addAll (l o : ByteTagList) (hv : 0 ≤ v) :
    covering (l.addAll o) v = covering l v ++ covering o v := by
  unfold addAll
  rw [covering_append, covering_beginAll hv]

/-- The items that the iterator returns lie in its range. -/
theorem mem_begin {first last : Int32} {item : ByteTagItem} (hle : first.toInt ≤ last.toInt)
    (hitem : item ∈ l.begin first last) :
    first.toInt ≤ item.start.toInt ∧ first.toInt ≤ item.end'.toInt := by
  obtain ⟨old, -, hsome⟩ := List.mem_filterMap.mp hitem
  split at hsome
  · exact absurd hsome (by simp)
  next hin =>
    obtain rfl := Option.some.inj hsome
    rw [Int32.le_iff_toInt_le, Int32.le_iff_toInt_le, not_or] at hin
    dsimp only
    rw [toInt_max, toInt_min]
    omega

end ByteTagList

/-! ## Signed offsets -/

theorem toInt_toInt32_sub {a c : UInt32} (ha : a.toNat < 2 ^ 31) (hc : c.toNat < 2 ^ 31) :
    (a - c).toInt32.toInt = (a.toNat : ℤ) - c.toNat := by
  have haInt : a.toBitVec.toInt = a.toNat := toInt_toInt32 ha
  have hcInt : c.toBitVec.toInt = c.toNat := toInt_toInt32 hc
  change (a.toBitVec - c.toBitVec).toInt = _
  rw [BitVec.toInt_sub, haInt, hcInt]
  exact Int.bmod_eq_of_le (by omega) (by omega)

theorem toNat_toUInt32 {a : Int32} (ha : 0 ≤ a.toInt) : (a.toUInt32.toNat : ℤ) = a.toInt := by
  have hlt := a.toUInt32.toNat_lt
  have ha' : a.toInt = Int.bmod a.toUInt32.toNat (2 ^ 32) := BitVec.toInt_eq_toNat_bmod a.toBitVec
  rw [ha'] at ha ⊢
  unfold Int.bmod at ha ⊢
  dsimp only at ha ⊢
  split
  next => omega
  next hge => omega

variable {b next : Buffer} {l : ByteTagList} {n : UInt32}

/-! ## Coverage as a slice -/

theorem coverageOf_eq (hb : b.InRange) (l : ByteTagList) :
    coverageOf b l =
      slice (fun v => covering l v) b.start.toNat (b.end'.toNat - b.start.toNat) := by
  obtain ⟨hle, hlt⟩ := hb
  have hsize : b.getSize.toNat = b.end'.toNat - b.start.toNat := UInt32.toNat_sub_of_toNat_le hle
  have hstart : b.start.toInt32.toInt = b.start.toNat := toInt_toInt32 (by omega)
  have hend : b.end'.toInt32.toInt = b.end'.toNat := toInt_toInt32 hlt
  unfold coverageOf slice getByteTagIterator
  rw [hsize]
  apply List.map_congr_left
  intro i hi
  rw [List.mem_range] at hi
  rw [List.filter_map, List.map_map]
  have hcover : covering (l.begin b.start.toInt32 b.end'.toInt32) ((b.start.toNat + i : ℕ) : ℤ) =
      covering l ((b.start.toNat + i : ℕ) : ℤ) := covering_begin (by omega) (by omega)
  refine Eq.trans ?_ hcover
  unfold covering
  apply congrArg (List.map ByteTagItem.tag)
  apply List.filter_congr
  intro item hitem
  obtain ⟨hs, he⟩ := mem_begin (by omega) hitem
  have hs' := toNat_toUInt32 (a := item.start) (by omega)
  have he' := toNat_toUInt32 (a := item.end') (by omega)
  rw [Function.comp_apply, decide_eq_decide]
  dsimp only
  rw [UInt32.toNat_sub_of_toNat_le (by omega), UInt32.toNat_sub_of_toNat_le (by omega)]
  unfold ByteTagItem.Covers
  omega

theorem length_coverageOf (hb : b.InRange) (l : ByteTagList) :
    (coverageOf b l).length = b.end'.toNat - b.start.toNat := by
  rw [coverageOf_eq hb, length_slice]

theorem slice_of_clean {first n : ℕ} (h : l.Clean first (first + n)) :
    slice (fun v : ℕ => covering l v) first n = List.replicate n [] := by
  rw [← slice_const [] first n]
  exact slice_congr fun i hi => h (first + i) (by omega) (by omega)

/-- A packet without tags. -/
theorem coverageOf_nil (hb : b.InRange) :
    coverageOf b [] = List.replicate (b.end'.toNat - b.start.toNat) [] := by
  rw [coverageOf_eq hb]
  exact slice_const [] _ _

/-! ## More bytes -/

/-- The packet after `AddAtStart`, where its tags are right. -/
theorem coverageOf_prepend {l' : ByteTagList} {n : ℕ} (hb : b.InRange) (hnext : next.InRange)
    (hsize : next.end'.toNat - next.start.toNat = n + (b.end'.toNat - b.start.toNat))
    (hclean : l'.Clean next.start.toNat (next.start.toNat + n))
    (hold : ∀ i < b.end'.toNat - b.start.toNat,
      covering l' ((next.start.toNat + n + i : ℕ) : ℤ) =
        covering l ((b.start.toNat + i : ℕ) : ℤ)) :
    coverageOf next l' = List.replicate n [] ++ coverageOf b l := by
  rw [coverageOf_eq hnext, coverageOf_eq hb, hsize, ← slice_append, slice_of_clean hclean]
  exact congrArg _ (slice_congr hold)

theorem coverageOf_append {l' : ByteTagList} {n : ℕ} (hb : b.InRange) (hnext : next.InRange)
    (hsize : next.end'.toNat - next.start.toNat = b.end'.toNat - b.start.toNat + n)
    (hold : ∀ i < b.end'.toNat - b.start.toNat,
      covering l' ((next.start.toNat + i : ℕ) : ℤ) = covering l ((b.start.toNat + i : ℕ) : ℤ)) :
    coverageOf next l' = coverageOf b l ++ slice (fun v : ℕ => covering l' v)
      (next.start.toNat + (b.end'.toNat - b.start.toNat)) n := by
  rw [coverageOf_eq hnext, coverageOf_eq hb, hsize, ← slice_append]
  exact congrArg (· ++ _) (slice_congr hold)

/-- The tags follow a buffer that reports a resize at the start. -/
theorem coverageOf_addAtStart (hb : b.InRange) (hnext : next.InRange)
    (hsize : next.end'.toNat - next.start.toNat = n.toNat + (b.end'.toNat - b.start.toNat))
    (hmoves : l.Moves ((next.start.toNat + n.toNat : ℕ) - (b.start.toNat : ℤ))) :
    coverageOf next (l.addAtStart (next.start + n - b.start).toInt32 (next.start + n).toInt32) =
      List.replicate n.toNat [] ++ coverageOf b l := by
  obtain ⟨hle, hlt⟩ := id hb
  obtain ⟨hle', hlt'⟩ := id hnext
  have hsum : (next.start + n).toNat = next.start.toNat + n.toNat :=
    UInt32.toNat_add_of_lt (by omega)
  have hprepend : (next.start + n).toInt32.toInt = (next.start.toNat + n.toNat : ℕ) := by
    rw [toInt_toInt32 (by omega), hsum]
  have hadjust : (next.start + n - b.start).toInt32.toInt =
      (next.start.toNat + n.toNat : ℕ) - (b.start.toNat : ℤ) := by
    rw [toInt_toInt32_sub (by omega) (by omega), hsum]
  apply coverageOf_prepend hb hnext hsize
  · intro v hfirst hlast
    exact covering_addAtStart_before (by omega) (by omega)
  · intro i hi
    rw [covering_addAtStart (by rwa [hadjust]) (by omega) (by omega), hadjust,
      ← covering_beginAll (l := l) (v := ((b.start.toNat + i : ℕ) : ℤ)) (by omega)]
    congr 1
    omega

/-- Without a resize the tags stay where they are. -/
theorem coverageOf_reuseFront (hb : b.InRange) (hnext : next.InRange)
    (hsize : next.end'.toNat - next.start.toNat = n.toNat + (b.end'.toNat - b.start.toNat))
    (hstart : next.start.toNat + n.toNat = b.start.toNat)
    (hclean : l.Clean (b.start.toNat - n.toNat) b.start.toNat) :
    coverageOf next l = List.replicate n.toNat [] ++ coverageOf b l := by
  apply coverageOf_prepend hb hnext hsize
  · intro v hfirst hlast
    exact hclean v (by omega) (by omega)
  · intro i hi
    rw [hstart]

/-- The tags follow a buffer that reports a resize at the end, except for the new bytes. -/
theorem covering_addAtEnd_old (hb : b.InRange) (hnext : next.InRange) {n : UInt32}
    (hsize : next.end'.toNat - next.start.toNat = b.end'.toNat - b.start.toNat + n.toNat)
    (hmoves : l.Moves ((next.start.toNat : ℤ) - b.start.toNat)) {i : ℕ}
    (hi : i < b.end'.toNat - b.start.toNat) :
    covering (l.addAtEnd (next.start - b.start).toInt32 (next.end' - n).toInt32)
      ((next.start.toNat + i : ℕ) : ℤ) = covering l ((b.start.toNat + i : ℕ) : ℤ) := by
  obtain ⟨hle, hlt⟩ := hb
  obtain ⟨hle', hlt'⟩ := hnext
  have hdiff : (next.end' - n).toNat = next.end'.toNat - n.toNat :=
    UInt32.toNat_sub_of_toNat_le (by omega)
  have happend : (next.end' - n).toInt32.toInt = (next.end'.toNat - n.toNat : ℕ) := by
    rw [toInt_toInt32 (by omega), hdiff]
  have hadjust := toInt_toInt32_sub (a := next.start) (c := b.start) (by omega) (by omega)
  rw [covering_addAtEnd (by rwa [hadjust]) (by omega) (by omega), hadjust,
    ← covering_beginAll (l := l) (v := ((b.start.toNat + i : ℕ) : ℤ)) (by omega)]
  congr 1
  omega

/-- No tag of the list covers the new bytes. -/
theorem clean_addAtEnd (hnext : next.InRange) (adjustment : Int32) {n : UInt32}
    (hn : n.toNat ≤ next.end'.toNat) (last : ℕ) :
    (l.addAtEnd adjustment (next.end' - n).toInt32).Clean (next.end'.toNat - n.toNat) last := by
  obtain ⟨-, hlt⟩ := hnext
  have hdiff : (next.end' - n).toNat = next.end'.toNat - n.toNat :=
    UInt32.toNat_sub_of_toNat_le hn
  have happend : (next.end' - n).toInt32.toInt = (next.end'.toNat - n.toNat : ℕ) := by
    rw [toInt_toInt32 (by omega), hdiff]
  intro v hfirst _
  exact covering_addAtEnd_behind (by omega) (by omega)

theorem coverageOf_addAtEnd (hb : b.InRange) (hnext : next.InRange)
    (hsize : next.end'.toNat - next.start.toNat = b.end'.toNat - b.start.toNat + n.toNat)
    (hmoves : l.Moves ((next.start.toNat : ℤ) - b.start.toNat)) :
    coverageOf next (l.addAtEnd (next.start - b.start).toInt32 (next.end' - n).toInt32) =
      coverageOf b l ++ List.replicate n.toNat [] := by
  obtain ⟨hle, hlt⟩ := id hb
  obtain ⟨hle', hlt'⟩ := id hnext
  rw [coverageOf_append hb hnext hsize fun i hi => covering_addAtEnd_old hb hnext hsize hmoves hi,
    slice_of_clean]
  rw [show next.start.toNat + (b.end'.toNat - b.start.toNat) = next.end'.toNat - n.toNat by omega]
  exact clean_addAtEnd hnext _ (by omega) _

theorem coverageOf_reuseBack (hb : b.InRange) (hnext : next.InRange)
    (hsize : next.end'.toNat - next.start.toNat = b.end'.toNat - b.start.toNat + n.toNat)
    (hstart : next.start = b.start)
    (hclean : l.Clean b.end'.toNat (b.end'.toNat + n.toNat)) :
    coverageOf next l = coverageOf b l ++ List.replicate n.toNat [] := by
  obtain ⟨hle, -⟩ := id hb
  rw [coverageOf_append hb hnext hsize fun i _ => by rw [hstart], slice_of_clean]
  rwa [hstart, Nat.add_sub_cancel' hle]

/-- `AddPaddingAtEnd` moves the tags as far as the end. -/
theorem coverageOf_addPadding (hb : b.InRange) (hnext : next.InRange)
    (hsize : next.end'.toNat - next.start.toNat = b.end'.toNat - b.start.toNat + n.toNat)
    (hstart : next.start = 0) (hmoves : l.Moves n.toNat)
    (hagrees : l.AgreesBelow n.toNat b.start.toNat b.end'.toNat) :
    coverageOf next (l.addAtEnd (next.end' - b.end').toInt32 (next.end' - n).toInt32) =
      coverageOf b l ++ List.replicate n.toNat [] := by
  obtain ⟨hle, hlt⟩ := id hb
  obtain ⟨hle', hlt'⟩ := id hnext
  have hzero : next.start.toNat = 0 := by rw [hstart, UInt32.toNat_zero]
  have hdiff : (next.end' - n).toNat = next.end'.toNat - n.toNat :=
    UInt32.toNat_sub_of_toNat_le (by omega)
  have happend : (next.end' - n).toInt32.toInt = (next.end'.toNat - n.toNat : ℕ) := by
    rw [toInt_toInt32 (by omega), hdiff]
  have hadjust := toInt_toInt32_sub (a := next.end') (c := b.end') (by omega) (by omega)
  rw [coverageOf_append hb hnext hsize, slice_of_clean]
  · rw [show next.start.toNat + (b.end'.toNat - b.start.toNat) = next.end'.toNat - n.toNat by
      omega]
    exact clean_addAtEnd hnext _ (by omega) _
  · intro i hi
    rw [covering_addAtEnd (hmoves.mono (by omega)) (by omega) (by omega), hadjust,
      ← hagrees (b.start.toNat + i) (by omega) (by omega)]
    congr 1
    omega

/-- The tags of both packets follow when one is appended to the other. -/
theorem coverageOf_join {o : Buffer} {lo : ByteTagList} (hb : b.InRange) (ho : o.InRange)
    (hnext : next.InRange)
    (hsize : next.end'.toNat - next.start.toNat =
      b.end'.toNat - b.start.toNat + (o.end'.toNat - o.start.toNat))
    (hmoves : l.Moves ((next.start.toNat : ℤ) - b.start.toNat))
    (hmoves' : lo.Moves ((next.end'.toNat : ℤ) - o.end'.toNat)) :
    coverageOf next
        ((l.addAtEnd (next.start - b.start).toInt32 (next.end' - o.getSize).toInt32).addAll
          (lo.addAtStart (next.end' - o.end').toInt32 (next.end' - o.getSize).toInt32)) =
      coverageOf b l ++ coverageOf o lo := by
  obtain ⟨hle, hlt⟩ := id hb
  obtain ⟨hleO, hltO⟩ := id ho
  obtain ⟨hle', hlt'⟩ := id hnext
  have hsizeO : o.getSize.toNat = o.end'.toNat - o.start.toNat :=
    UInt32.toNat_sub_of_toNat_le hleO
  have hsize' : next.end'.toNat - next.start.toNat =
      b.end'.toNat - b.start.toNat + o.getSize.toNat := by rw [hsize, hsizeO]
  have hdiff : (next.end' - o.getSize).toNat = next.end'.toNat - o.getSize.toNat :=
    UInt32.toNat_sub_of_toNat_le (by omega)
  have hprepend : (next.end' - o.getSize).toInt32.toInt =
      (next.end'.toNat - o.getSize.toNat : ℕ) := by
    rw [toInt_toInt32 (by omega), hdiff]
  have hadjust := toInt_toInt32_sub (a := next.end') (c := o.end') (by omega) (by omega)
  rw [coverageOf_append hb hnext hsize, coverageOf_eq ho]
  · congr 1
    apply slice_congr
    intro i hi
    rw [covering_addAll _ _ (by omega), clean_addAtEnd hnext _ (by omega) next.end'.toNat
      _ (by omega) (by omega), List.nil_append,
      covering_addAtStart (by rwa [hadjust]) (by omega) (by omega), hadjust,
      ← covering_beginAll (l := lo) (v := ((o.start.toNat + i : ℕ) : ℤ)) (by omega)]
    congr 1
    omega
  · intro i hi
    rw [covering_addAll _ _ (by omega), covering_addAtEnd_old hb hnext hsize' hmoves hi,
      covering_addAtStart_before (by omega) (by omega), List.append_nil]

/-! ## Fewer bytes -/

theorem coverageOf_removeAtStart {n : ℕ} (hb : b.InRange) (hnext : next.InRange)
    (hsize : next.end'.toNat - next.start.toNat = b.end'.toNat - b.start.toNat - n) {shift : ℕ}
    (hstart : b.start.toNat + n ≤ b.end'.toNat → next.start.toNat + shift = b.start.toNat + n)
    (hagrees : l.AgreesBelow shift (b.start.toNat + n) b.end'.toNat) :
    coverageOf next l = (coverageOf b l).drop n := by
  rw [coverageOf_eq hnext, coverageOf_eq hb, drop_slice, hsize]
  apply slice_congr
  intro i hi
  rw [← hagrees (b.start.toNat + n + i) (by omega) (by omega), covering_beginAll (by omega)]
  congr 1
  omega

/-- Only the first bytes are left. -/
theorem coverageOf_truncate {size : ℕ} (hb : b.InRange) (hnext : next.InRange)
    (hstart : next.start = b.start)
    (hsize : next.end'.toNat - next.start.toNat = min size (b.end'.toNat - b.start.toNat)) :
    coverageOf next l = (coverageOf b l).take size := by
  rw [coverageOf_eq hnext, coverageOf_eq hb, take_slice, hsize, hstart]

/-! ## More tags -/

theorem coverageOf_addByteTag (hb : b.InRange) (tag : ByteTag) :
    coverageOf b (l.add tag b.start.toInt32 b.end'.toInt32) =
      (coverageOf b l).map fun tags => tags ++ [tag] := by
  obtain ⟨hle, hlt⟩ := id hb
  have hstart : b.start.toInt32.toInt = b.start.toNat := toInt_toInt32 (by omega)
  have hend : b.end'.toInt32.toInt = b.end'.toNat := toInt_toInt32 hlt
  rw [coverageOf_eq hb, coverageOf_eq hb]
  unfold slice
  rw [List.map_map]
  apply List.map_congr_left
  intro i hi
  rw [List.mem_range] at hi
  rw [Function.comp_apply]
  unfold ByteTagList.add
  beta_reduce
  rw [covering_append, covering_cons, if_pos, covering_nil, List.append_nil]
  unfold ByteTagItem.Covers
  dsimp only
  omega

end Ns3Rdma
