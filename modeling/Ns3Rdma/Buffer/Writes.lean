import Ns3Rdma.Buffer.Operations

/-! # Writes to the reserved bytes

A buffer that writes to the bytes that it has just reserved changes its own list there, and no other
list: no other buffer represents these bytes. -/

namespace Ns3Rdma

open Memory BufferHeap

namespace Buffer

variable {h : BufferHeap} {b : Handle} {rest : Multiset Handle}

/-! ## Where a write goes -/

namespace Iterator

variable {i : Iterator}

theorem checkNoZero_of {start stop : UInt32}
    (h : ∀ v : UInt32, start.toNat ≤ v.toNat → v.toNat < stop.toNat → i.check v = true) :
    i.checkNoZero start stop = true := by
  unfold checkNoZero
  rw [List.all_eq_true]
  intro v hv
  obtain ⟨hle, hlt⟩ := List.mem_range'_1.mp hv
  have hstop := stop.toNat_lt
  have hv : (UInt32.ofNat v).toNat = v := Nat.mod_eq_of_lt (by omega)
  exact h _ (by omega) (by omega)

theorem check_iff (v : UInt32) : i.check v = true ↔ i.dataStart.toNat ≤ v.toNat ∧
    ¬ (i.zeroStart.toNat ≤ v.toNat ∧ v.toNat < i.zeroEnd.toNat) ∧ v.toNat ≤ i.dataEnd.toNat := by
  unfold check
  rw [Bool.and_eq_true, Bool.and_eq_true, Bool.not_eq_true', Bool.and_eq_false_iff,
    decide_eq_true_iff, decide_eq_true_iff, decide_eq_false_iff_not, decide_eq_false_iff_not,
    UInt32.le_iff_toNat_le, UInt32.le_iff_toNat_le, UInt32.le_iff_toNat_le, UInt32.lt_iff_toNat_lt,
    ← not_and_or, and_assoc]

/-- A write to bytes that may be touched goes to the offset of the iterator, which a write of one
byte finds by another comparison. -/
theorem perform_eq_write {call : WriteCall}
    (hfits : i.current.toNat + call.written.length < 2 ^ 32)
    (hclear : ∀ v : UInt32, i.current.toNat ≤ v.toNat →
      v.toNat < i.current.toNat + call.written.length → i.check v = true)
    (hbyte : ∀ value, call = .u8 value → i.current ≠ i.zeroStart ∨ i.zeroStart = i.zeroEnd) :
    i.perform h call = h.write i.data i.offset.toNat call.written := by
  cases call with
  | bytes buffer =>
      refine if_pos (checkNoZero_of fun v hle hlt => hclear v hle ?_)
      have hlength : (UInt32.ofNat buffer.length).toNat ≤ buffer.length := Nat.mod_le _ _
      change v.toNat < _ + buffer.length
      omega
  | u8 value =>
      have hplace : (if i.current < i.zeroStart then i.current
          else i.current - (i.zeroEnd - i.zeroStart)) = i.offset := by
        unfold offset
        rcases hbyte value rfl with hne | heq
        · refine if_congr ?_ rfl rfl
          rw [ne_eq, ← UInt32.toNat_inj] at hne
          rw [UInt32.lt_iff_toNat_lt, UInt32.le_iff_toNat_le]
          omega
        · rw [heq, UInt32.sub_self, UInt32.sub_zero, ite_self, ite_self]
      rw [← hplace]
      exact if_pos (hclear i.current (Nat.le_refl _) (Nat.lt_succ_self _))
  | u8s value len =>
      have hlength : (WriteCall.u8s value len).written.length = len.toNat := List.length_replicate
      rw [hlength] at hfits hclear
      refine if_pos (checkNoZero_of fun v hle hlt => hclear v hle ?_)
      rwa [UInt32.toNat_add_of_lt hfits] at hlt

/-- A write before the zero area goes to the place of the iterator. -/
theorem perform_front {call : WriteCall} (hdata : i.dataStart.toNat ≤ i.current.toNat)
    (hzero : i.current.toNat + call.written.length ≤ i.zeroStart.toNat)
    (horder : i.zeroStart.toNat ≤ i.zeroEnd.toNat) (hend : i.zeroEnd.toNat ≤ i.dataEnd.toNat) :
    i.perform h call = h.write i.data i.current.toNat call.written := by
  have hoffset : i.offset = i.current := if_pos (UInt32.le_iff_toNat_le.mpr (by omega))
  have hstart := i.zeroStart.toNat_lt
  rw [perform_eq_write (by omega), hoffset]
  · intro v hle hlt
    rw [check_iff]
    omega
  · rintro value rfl
    left
    change i.current.toNat + 1 ≤ _ at hzero
    rw [ne_eq, ← UInt32.toNat_inj]
    omega

/-- A write behind the zero area. -/
theorem perform_back {call : WriteCall} (hdata : i.dataStart.toNat ≤ i.zeroStart.toNat)
    (horder : i.zeroStart.toNat ≤ i.zeroEnd.toNat) (hzero : i.zeroEnd.toNat ≤ i.current.toNat)
    (hend : i.current.toNat + call.written.length ≤ i.dataEnd.toNat) :
    i.perform h call =
      h.write i.data (i.zeroStart.toNat + (i.current.toNat - i.zeroEnd.toNat)) call.written := by
  have hsize : (i.zeroEnd - i.zeroStart).toNat = i.zeroEnd.toNat - i.zeroStart.toNat :=
    UInt32.toNat_sub_of_toNat_le horder
  have hoffset : i.offset.toNat = i.zeroStart.toNat + (i.current.toNat - i.zeroEnd.toNat) := by
    unfold offset
    split
    next hle =>
      -- only without a zero area
      rw [UInt32.le_iff_toNat_le] at hle
      omega
    next =>
      rw [UInt32.toNat_sub_of_toNat_le (by omega), hsize]
      omega
  have hdataEnd := i.dataEnd.toNat_lt
  rw [perform_eq_write (by omega), hoffset]
  · intro v hle hlt
    rw [check_iff]
    omega
  · intro value _
    rw [ne_eq, ← UInt32.toNat_inj, ← UInt32.toNat_inj]
    omega

theorem next_eq_some {delta : UInt32} (hfits : i.current.toNat + delta.toNat ≤ i.dataEnd.toNat) :
    i.next delta = some { i with current := i.current + delta } ∧
      (i.current + delta).toNat = i.current.toNat + delta.toNat := by
  have hend := i.dataEnd.toNat_lt
  have hsum : (i.current + delta).toNat = i.current.toNat + delta.toNat :=
    UInt32.toNat_add_of_lt (by omega)
  refine ⟨if_pos ?_, hsum⟩
  rw [UInt32.le_iff_toNat_le, hsum]
  exact hfits

theorem prev_eq_some {delta : UInt32} (hfits : delta.toNat ≤ i.current.toNat) :
    i.prev delta = some { i with current := i.current - delta } ∧
      (i.current - delta).toNat = i.current.toNat - delta.toNat :=
  ⟨if_pos (UInt32.le_iff_toNat_le.mpr hfits), UInt32.toNat_sub_of_toNat_le hfits⟩

end Iterator

/-! ## What a write changes -/

/-- A write where no other buffer has its bytes. -/
theorem write_spec (hs : h.Sound (b ::ₘ rest)) {a : ℕ} {l : List UInt8}
    (hroom : a + l.length ≤ (h.data b.data).size.toNat)
    (hfree : ∀ c ∈ rest, c.data = b.data → l = [] ∨ a + l.length ≤ c.start.toNat ∨ c.realEnd ≤ a) :
    ∃ h', h.write b.data a l = some h' ∧ h'.Sound (b ::ₘ rest) ∧ h.Keeps h' rest ∧
      h'.viewOf b.toBuffer = b.view (store (h.data b.data).bytes a l) := by
  refine ⟨_, if_pos (Or.inr hroom), hs.replace rfl fun hshared => hshared.congr rfl rfl rfl rfl,
    fun c hc => ?_, ?_⟩
  · by_cases hcd : c.data = b.data
    · rw [viewOf, viewOf, hcd, set_data_self]
      dsimp only
      apply view_congr (hs.within_of_mem (Multiset.mem_cons_of_mem hc)).ordered
      intro v hstart hend
      rcases hfree c hc hcd with hnil | hbefore | hbehind
      · rw [hnil, store_nil]
      · exact store_of_le (by omega)
      · exact store_of_lt (by omega)
    · rw [viewOf, viewOf, set_data_of_ne hcd]
  · rw [viewOf, set_data_self]

/-- The other users of the same object. -/
theorem apart_of_mem (hs : h.Sound (b ::ₘ rest)) {c : Handle} (hc : c ∈ rest)
    (hdata : c.data = b.data) : b.Apart (h.data b.data) c :=
  ((Shared.cons_iff.mp hs.head).2.2.1 c (Multiset.mem_filter.mpr ⟨hc, hdata⟩)).2.1

/-- A write to bytes that `AddAtStart` has reserved. -/
theorem perform_start_spec (hs : h.Sound (b ::ₘ rest)) {off : UInt32} {call : Iterator.WriteCall}
    (hfront : off.toNat + call.written.length ≤ b.front) :
    ∃ i h', b.begin.next off = some i ∧ i.perform h call = some h' ∧ h'.Sound (b ::ₘ rest) ∧
      h.Keeps h' rest ∧
        h'.viewOf b.toBuffer = splice (h.viewOf b.toBuffer) off.toNat call.written := by
  have hb := hs.within
  obtain ⟨hordered, -, -, hreal, hfrontLe, -⟩ := hb
  obtain ⟨hstart, hzero, hend⟩ := id hordered
  obtain ⟨hnext, hcurrent⟩ := Iterator.next_eq_some
    (show b.begin.current.toNat + off.toNat ≤ b.begin.dataEnd.toNat by dsimp only [begin]; omega)
  change (b.start + off).toNat = b.start.toNat + off.toNat at hcurrent
  have hrealEnd : b.zeroAreaStart.toNat ≤ b.realEnd := by
    unfold realEnd
    omega
  have hspec := write_spec hs (a := b.start.toNat + off.toNat) (l := call.written) (by omega)
    fun c hc hdata => by
      rcases (apart_of_mem hs hc hdata).front with hnone | hsome
      · exact Or.inl (List.eq_nil_of_length_eq_zero (by omega))
      · exact Or.inr (Or.inl (by omega))
  obtain ⟨h', hwrite, hsound, hkeeps, hview⟩ := hspec
  refine ⟨_, h', hnext, ?_, hsound, hkeeps, ?_⟩
  · rw [Iterator.perform_front, ← hwrite]
    · change h.write b.data (b.start + off).toNat _ = _
      rw [hcurrent]
    all_goals dsimp only [begin]
    all_goals omega
  · rw [hview, view_store_front hordered (by omega), viewOf]

/-- A write to bytes that `AddAtEnd` has reserved, from the virtual offset `v` on. -/
theorem write_back_spec (hs : h.Sound (b ::ₘ rest)) {v : ℕ} {l : List UInt8}
    (hv : b.end'.toNat - b.back ≤ v) (hl : v + l.length ≤ b.end'.toNat) :
    ∃ h', h.write b.data (b.zeroAreaStart.toNat + (v - b.zeroAreaEnd.toNat)) l = some h' ∧
      h'.Sound (b ::ₘ rest) ∧ h.Keeps h' rest ∧
        h'.viewOf b.toBuffer = splice (h.viewOf b.toBuffer) (v - b.start.toNat) l := by
  have hb := hs.within
  obtain ⟨hordered, -, -, hreal, -, hbackLe⟩ := hb
  obtain ⟨hstart, hzero, hend⟩ := id hordered
  have hrealEnd : b.realEnd = b.zeroAreaStart.toNat + (b.end'.toNat - b.zeroAreaEnd.toNat) := by
    unfold realEnd
    omega
  have hspec := write_spec hs (a := b.zeroAreaStart.toNat + (v - b.zeroAreaEnd.toNat)) (l := l)
    (by omega) fun c hc hdata => by
      rcases (apart_of_mem hs hc hdata).back with hnone | hsome
      · exact Or.inl (List.eq_nil_of_length_eq_zero (by omega))
      · exact Or.inr (Or.inr (by omega))
  obtain ⟨h', hwrite, hsound, hkeeps, hview⟩ := hspec
  refine ⟨h', hwrite, hsound, hkeeps, ?_⟩
  rw [hview, view_store_back hordered (by omega), viewOf]
  congr 1
  omega

/-- A write to bytes that `AddAtEnd` has reserved, `off` bytes before the end. -/
theorem perform_end_spec (hs : h.Sound (b ::ₘ rest)) {off : UInt32} {call : Iterator.WriteCall}
    (hoff : off.toNat ≤ b.back) (hback : call.written.length ≤ off.toNat) :
    ∃ i h', b.atEnd.prev off = some i ∧ i.perform h call = some h' ∧ h'.Sound (b ::ₘ rest) ∧
      h.Keeps h' rest ∧ h'.viewOf b.toBuffer =
        splice (h.viewOf b.toBuffer) ((h.viewOf b.toBuffer).length - off.toNat) call.written := by
  have hb := hs.within
  obtain ⟨hordered, -, -, -, -, hbackLe⟩ := hb
  obtain ⟨hstart, hzero, hend⟩ := id hordered
  obtain ⟨hprev, hcurrent⟩ := Iterator.prev_eq_some
    (show off.toNat ≤ b.atEnd.current.toNat by dsimp only [atEnd]; omega)
  change (b.end' - off).toNat = b.end'.toNat - off.toNat at hcurrent
  obtain ⟨h', hwrite, hsound, hkeeps, hview⟩ :=
    write_back_spec hs (v := b.end'.toNat - off.toNat) (l := call.written) (by omega) (by omega)
  refine ⟨_, h', hprev, ?_, hsound, hkeeps, ?_⟩
  · rw [Iterator.perform_back, ← hwrite]
    · change h.write b.data (_ + ((b.end' - off).toNat - b.zeroAreaEnd.toNat)) _ = _
      rw [hcurrent]
      rfl
    all_goals dsimp only [begin, atEnd]
    all_goals omega
  · rw [hview, viewOf, length_view hordered]
    congr 1
    omega

/-- The reserved bytes at the start are all written. -/
theorem fill_start (hs : h.Sound (b ::ₘ rest)) {call : Iterator.WriteCall} {added l : List UInt8}
    (hview : h.viewOf b.toBuffer = added ++ l) (hadded : added.length = b.front)
    (hcall : call.written.length = b.front) :
    ∃ h', b.begin.perform h call = some h' ∧ h'.Sound (b ::ₘ rest) ∧ h.Keeps h' rest ∧
      h'.viewOf b.toBuffer = call.written ++ l := by
  obtain ⟨i, h', hnext, hperform, hsound, hkeeps, hafter⟩ :=
    perform_start_spec hs
      (show (0 : UInt32).toNat + call.written.length ≤ b.front by rw [UInt32.toNat_zero]; omega)
  have hsame : i = b.begin := by
    unfold Iterator.next at hnext
    rw [add_zero] at hnext
    split at hnext
    · exact (Option.some.inj hnext).symm
    · exact absurd hnext (by simp)
  rw [hsame] at hperform
  refine ⟨h', hperform, hsound, hkeeps, ?_⟩
  rw [hafter, hview, UInt32.toNat_zero, splice_left (by omega)]

/-- The reserved bytes at the end are all written. -/
theorem fill_end (hs : h.Sound (b ::ₘ rest)) {n : UInt32} {call : Iterator.WriteCall}
    {added l : List UInt8} (hview : h.viewOf b.toBuffer = l ++ added) (hn : n.toNat = b.back)
    (hadded : added.length = b.back) (hcall : call.written.length = b.back) :
    ∃ i h', b.atEnd.prev n = some i ∧ i.perform h call = some h' ∧ h'.Sound (b ::ₘ rest) ∧
      h.Keeps h' rest ∧ h'.viewOf b.toBuffer = l ++ call.written := by
  obtain ⟨i, h', hprev, hperform, hsound, hkeeps, hafter⟩ :=
    perform_end_spec hs hn.le (hcall.trans hn.symm).le
  refine ⟨i, h', hprev, hperform, hsound, hkeeps, ?_⟩
  rw [hafter, hview, List.length_append, show l.length + added.length - n.toNat = l.length by omega,
    splice_right (by omega)]

end Buffer

end Ns3Rdma
