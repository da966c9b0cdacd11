import Ns3Rdma.Lib.StepSystem
import Ns3Rdma.Tcp.TxBuffer

/-! # The transmit buffer as a sliding window

The window lies over the stream of the bytes that were added. It begins at the first byte that was
not discarded. -/

namespace Ns3Rdma

open StepSystem

structure SlidingWindow where
  head : SequenceNumber32
  capacity : ℕ
  added : Payload
  discarded : ℕ

namespace SlidingWindow

/-- The bytes in the window. -/
def pending (w : SlidingWindow) : Payload := w.added.drop w.discarded

/-- A packet is added when it fits as a whole. -/
def add (w : SlidingWindow) (p : Payload) : SlidingWindow :=
  if w.pending.length + p.length ≤ w.capacity then { w with added := w.added ++ p } else w

/-- The window moves to a later number. The number behind its end is the one behind a FIN. -/
def discardUpTo (w : SlidingWindow) (seq : SequenceNumber32) : SlidingWindow :=
  if w.head < seq then
    { w with head := seq, discarded := min (w.discarded + seq.distance w.head) w.added.length }
  else w

/-- At most `n` bytes of the stream from the number `seq`. -/
def bytesFrom (w : SlidingWindow) (seq : SequenceNumber32) (n : ℕ) : Payload :=
  (w.added.drop (w.discarded + seq.distance w.head)).take n

end SlidingWindow

namespace TcpTxBuffer

/-- The buffer stores the bytes of the window. -/
structure Refines (b : TcpTxBuffer) (w : SlidingWindow) : Prop where
  head_eq : b.headSequence = w.head
  capacity_eq : b.maxBuffer.toNat = w.capacity
  data_eq : b.data.flatten = w.pending
  size_eq : b.size.toNat = b.data.flatten.length
  size_le : b.size ≤ b.maxBuffer
  size_lt : b.size.toNat < 2 ^ 31
  discarded_le : w.discarded ≤ w.added.length

variable {b b' : TcpTxBuffer} {w : SlidingWindow} {p : Payload} {seq : SequenceNumber32} {k : ℕ}

theorem refines_init (seq : SequenceNumber32) (maxBuffer : UInt32) :
    (init seq maxBuffer).Refines ⟨seq, maxBuffer.toNat, [], 0⟩ :=
  ⟨rfl, rfl, rfl, rfl, UInt32.zero_le, by change (0 : UInt32).toNat < _; decide, le_rfl⟩

namespace Refines

theorem size_pending (hb : b.Refines w) : b.size.toNat = w.pending.length := by
  rw [hb.size_eq, hb.data_eq]

theorem distance_head (hk : k ≤ 2 ^ 31) : (w.head.plus k).distance w.head = k := by
  have hplus := SequenceNumber32.distance_plus w.head k 0
  rw [SequenceNumber32.plus_zero] at hplus
  omega

theorem add_spec (hb : b.Refines w) (hp : p.length < 2 ^ 32)
    (hsmall : w.pending.length + p.length ≤ w.capacity → w.pending.length + p.length < 2 ^ 31) :
    (b.add p).1.Refines (w.add p) ∧
      ((b.add p).2 = true ↔ w.pending.length + p.length ≤ w.capacity) := by
  have hsize := Payload.toNat_getSize hp
  have hpending := hb.size_pending
  have hcapacity := hb.capacity_eq
  have hle := UInt32.le_iff_toNat_le.mp hb.size_le
  have hfits : p.getSize ≤ b.available ↔ w.pending.length + p.length ≤ w.capacity := by
    unfold available
    rw [UInt32.le_iff_toNat_le, UInt32.toNat_sub_of_toNat_le hle, hsize]
    omega
  unfold add SlidingWindow.add
  by_cases haccept : w.pending.length + p.length ≤ w.capacity
  · have hsmall' := hsmall haccept
    have hgrown : { w with added := w.added ++ p }.pending = w.pending ++ p :=
      List.drop_append_of_le_length hb.discarded_le
    have hdiscarded : w.discarded ≤ (w.added ++ p).length := by
      rw [List.length_append]
      exact hb.discarded_le.trans (Nat.le_add_right _ _)
    rw [if_pos (hfits.mpr haccept), if_pos haccept]
    by_cases hempty : 0 < p.getSize
    · have hsum : (b.size + p.getSize).toNat = b.size.toNat + p.length := by
        rw [UInt32.toNat_add_of_lt (by omega), hsize]
      rw [if_pos hempty]
      refine ⟨⟨hb.head_eq, hb.capacity_eq, ?_, ?_, ?_, ?_, hdiscarded⟩,
        fun _ => haccept, fun _ => rfl⟩
      · rw [hgrown, List.flatten_append, hb.data_eq, List.flatten_singleton]
      · rw [hsum, List.flatten_append, List.flatten_singleton, List.length_append, hb.size_eq]
      · rw [UInt32.le_iff_toNat_le, hsum, hb.capacity_eq]
        omega
      · rw [hsum]
        omega
    · have hnil : p = [] := by
        rw [UInt32.lt_iff_toNat_lt, hsize, UInt32.toNat_zero] at hempty
        exact List.eq_nil_of_length_eq_zero (by omega)
      subst hnil
      rw [if_neg hempty]
      refine ⟨⟨hb.head_eq, hb.capacity_eq, ?_, hb.size_eq, hb.size_le, hb.size_lt, hdiscarded⟩,
        fun _ => haccept, fun _ => rfl⟩
      rw [hgrown, List.append_nil, hb.data_eq]
  · rw [if_neg (mt hfits.mp haccept), if_neg haccept]
    exact ⟨hb, fun h => absurd h (by simp), fun h => absurd h haccept⟩

theorem toNat_sizeFromSequence (hb : b.Refines w) (hk : k ≤ w.pending.length) :
    (b.sizeFromSequence (w.head.plus k)).toNat = w.pending.length - k := by
  have hsmall := hb.size_lt
  have hpending := hb.size_pending
  have hhead : b.firstByteSeq = w.head := hb.head_eq
  unfold sizeFromSequence tailSequence
  rw [hhead, SequenceNumber32.add_eq_plus, hpending]
  exact SequenceNumber32.toNat_sub_plus hk (by omega)

theorem toNat_offset (hb : b.Refines w) (hk : k < 2 ^ 32) :
    (w.head.plus k - b.firstByteSeq).toUInt32.toNat = k := by
  have hhead : b.firstByteSeq = w.head := hb.head_eq
  have hsub := SequenceNumber32.toNat_sub_plus (s := w.head) (Nat.zero_le k) hk
  rw [SequenceNumber32.plus_zero, Nat.sub_zero] at hsub
  rwa [hhead]

/-- Copying gives the bytes of the stream from the number `seq`. -/
theorem copyFromSequence_eq (hb : b.Refines w) (n : UInt32) (hk : k ≤ w.pending.length) :
    b.copyFromSequence n (w.head.plus k) = some (w.bytesFrom (w.head.plus k) n.toNat) := by
  have hsmall := hb.size_lt
  have hpending := hb.size_pending
  obtain ⟨s, hs⟩ : ∃ s, s = min n (b.sizeFromSequence (w.head.plus k)) := ⟨_, rfl⟩
  have hsNat : s.toNat = min n.toNat (w.pending.length - k) := by
    rw [hs, UInt32.toNat_min, hb.toNat_sizeFromSequence hk]
  have hbytes : w.bytesFrom (w.head.plus k) n.toNat = (w.pending.drop k).take s.toNat := by
    unfold SlidingWindow.bytesFrom
    rw [distance_head (by omega), ← List.drop_drop]
    apply List.take_eq_take_iff.mpr
    change min n.toNat (w.pending.drop k).length = min s.toNat (w.pending.drop k).length
    rw [List.length_drop]
    omega
  unfold copyFromSequence
  rw [← hs, hbytes]
  dsimp only
  by_cases hzero : s = 0
  · rw [if_pos hzero, hzero]
    rfl
  have hpos : s.toNat ≠ 0 := fun h => hzero (UInt32.toNat_inj.mp h)
  have hdata : b.data ≠ [] := by
    intro hnil
    have hempty := hb.size_eq
    rw [hnil, List.flatten_nil, List.length_nil] at hempty
    omega
  have hoffset := hb.toNat_offset (show k < 2 ^ 32 by omega)
  have hlength := hb.size_eq
  rw [if_neg hzero, if_neg hdata, copyFirst_spec, hoffset, UInt32.toNat_zero, Nat.sub_zero,
    hb.data_eq]
  · exact Nat.zero_le _
  · omega
  · rw [hoffset, UInt32.toNat_zero]
    omega
  · rw [UInt32.toNat_zero]
    omega

/-- Discarding ends, and its assertion holds. -/
theorem discardUpTo_spec (hb : b.Refines w) (hk : k ≤ w.pending.length + 1) :
    ∃ b', b.discardUpTo (w.head.plus k) = some b' ∧
      b'.Refines (w.discardUpTo (w.head.plus k)) := by
  have hsmall := hb.size_lt
  have hpending := hb.size_pending
  have hhead : b.firstByteSeq = w.head := hb.head_eq
  unfold discardUpTo SlidingWindow.discardUpTo
  rw [hhead]
  by_cases hlt : w.head < w.head.plus k
  · have hoffset := hb.toNat_offset (show k < 2 ^ 32 by omega)
    have hpos : 0 < k := by
      apply Nat.pos_of_ne_zero
      rintro rfl
      rw [SequenceNumber32.plus_zero] at hlt
      exact hlt.2 rfl
    obtain ⟨taken, size', data', hloop, htaken, hsize, hdata⟩ :=
      discardLoop_spec w.head (by rw [hoffset]; exact hpos) hb.size_eq
    rw [hoffset, hpending] at htaken
    rw [hhead] at hloop
    rw [hb.data_eq] at hdata
    have hleft : data'.flatten.length = w.pending.length - taken := by
      rw [hdata, List.length_drop]
    have hfirst : (if size' = 0 then w.head.plus k else w.head.plus taken) = w.head.plus k := by
      by_cases hempty : size' = 0
      · rw [if_pos hempty]
      · have hne : size'.toNat ≠ 0 := fun h => hempty (UInt32.toNat_inj.mp h)
        rw [if_neg hempty]
        congr 1
        omega
    have hadded : w.pending.length = w.added.length - w.discarded := List.length_drop
    have hle := hb.discarded_le
    have hbound := UInt32.le_iff_toNat_le.mp hb.size_le
    rw [if_neg (fun hle => SequenceNumber32.not_lt.mpr hle hlt), if_pos hlt, hloop,
      Option.bind_some]
    dsimp only
    rw [hfirst, if_pos rfl]
    refine ⟨_, rfl, rfl, hb.capacity_eq, ?_, ?_, ?_, ?_, min_le_right _ _⟩
    · rw [hdata, distance_head (by omega)]
      change (w.added.drop w.discarded).drop taken =
        w.added.drop (min (w.discarded + k) w.added.length)
      rw [List.drop_drop]
      congr 1
      omega
    · change size'.toNat = data'.flatten.length
      omega
    · rw [UInt32.le_iff_toNat_le]
      change size'.toNat ≤ b.maxBuffer.toNat
      omega
    · change size'.toNat < 2 ^ 31
      omega
  · rw [if_pos (SequenceNumber32.not_lt.mp hlt), if_neg hlt]
    exact ⟨b, rfl, hb⟩

end Refines

end TcpTxBuffer

/-! ## Runs -/

/-- A transmit buffer beside the window that it should be. -/
structure TxStream where
  buffer : TcpTxBuffer
  window : SlidingWindow

namespace TxStream

open TcpTxBuffer

inductive Event
  | add (p : Payload)
  | discardUpTo (seq : SequenceNumber32)
  | copyFromSequence (numBytes : UInt32) (seq : SequenceNumber32)

def init (head : SequenceNumber32) (maxBuffer : UInt32) : TxStream :=
  ⟨TcpTxBuffer.init head maxBuffer, ⟨head, maxBuffer.toNat, [], 0⟩⟩

def step (st : TxStream) : Event → Option TxStream
  | .add p => some ⟨(st.buffer.add p).1, st.window.add p⟩
  | .discardUpTo seq => (st.buffer.discardUpTo seq).map fun b => ⟨b, st.window.discardUpTo seq⟩
  | .copyFromSequence numBytes seq => (st.buffer.copyFromSequence numBytes seq).map fun _ => st

/-- The call is about the bytes in the window, of which there are less than 2^31. The number behind
the end may be discarded, for a FIN. -/
def Permitted (st : TxStream) : Event → Prop
  | .add p => p.length < 2 ^ 32 ∧ (st.window.pending.length + p.length ≤ st.window.capacity →
      st.window.pending.length + p.length < 2 ^ 31)
  | .discardUpTo seq => ∃ k ≤ st.window.pending.length + 1, seq = st.window.head.plus k
  | .copyFromSequence _ seq => ∃ k ≤ st.window.pending.length, seq = st.window.head.plus k

/-- What a call returns, and where it leaves the head of the buffer. -/
def Answers (st : TxStream) : Event → Prop
  | .add p => ((st.buffer.add p).2 = true ↔
      st.window.pending.length + p.length ≤ st.window.capacity)
  | .discardUpTo seq => ∃ b, st.buffer.discardUpTo seq = some b ∧
      (st.buffer.headSequence < seq → b.headSequence = seq)
  | .copyFromSequence numBytes seq =>
      st.buffer.copyFromSequence numBytes seq = some (st.window.bytesFrom seq numBytes.toNat)

variable {st st' : TxStream} {e : Event}

theorem step_refines (hst : st.buffer.Refines st.window) (hpermitted : st.Permitted e)
    (hstep : step st e = some st') : st'.buffer.Refines st'.window := by
  cases e with
  | add p =>
      obtain rfl := Option.some.inj hstep
      exact (hst.add_spec hpermitted.1 hpermitted.2).1
  | discardUpTo seq =>
      obtain ⟨k, hk, rfl⟩ := hpermitted
      obtain ⟨b, hb, hrefines⟩ := hst.discardUpTo_spec hk
      obtain ⟨b', hb', rfl⟩ := Option.map_eq_some_iff.mp hstep
      obtain rfl := Option.some.inj (hb.symm.trans hb')
      exact hrefines
  | copyFromSequence numBytes seq =>
      obtain ⟨bytes, -, rfl⟩ := Option.map_eq_some_iff.mp hstep
      exact hst

theorem answers (hst : st.buffer.Refines st.window) (hpermitted : st.Permitted e) :
    st.Answers e := by
  cases e with
  | add p => exact (hst.add_spec hpermitted.1 hpermitted.2).2
  | discardUpTo seq =>
      obtain ⟨k, hk, rfl⟩ := hpermitted
      obtain ⟨b, hb, hrefines⟩ := hst.discardUpTo_spec hk
      refine ⟨b, hb, fun hlt => ?_⟩
      rw [hst.head_eq] at hlt
      rw [hrefines.head_eq]
      unfold SlidingWindow.discardUpTo
      rw [if_pos hlt]
  | copyFromSequence numBytes seq =>
      obtain ⟨k, hk, rfl⟩ := hpermitted
      exact hst.copyFromSequence_eq numBytes hk

/-- The buffer is a sliding window over the added bytes, and every call on the bytes in the window
is answered from it. -/
theorem slides (head : SequenceNumber32) (maxBuffer : UInt32) {events : List Event}
    (hpermitted : EachStep step (fun st e _ => st.Permitted e) (init head maxBuffer)
      events) :
    Throughout step
      (fun st => st.buffer.Refines st.window ∧ ∀ e, st.Permitted e → st.Answers e)
      (init head maxBuffer) events := by
  have hall : Throughout step (fun st => st.buffer.Refines st.window)
      (init head maxBuffer) events := by
    refine throughout_of_eachStep (I := fun st => st.buffer.Refines st.window) ?_
      (refines_init head maxBuffer) hpermitted
    exact fun st e st' hst hstep hmeets => step_refines hst hmeets hstep
  exact hall.mono fun st hst => ⟨hst, fun e => answers hst⟩

/-- Part of a packet is acknowledged, then the rest and the FIN behind it. -/
def acknowledged : List Event :=
  [.add [1, 2, 3, 4], .discardUpTo ⟨1⟩, .copyFromSequence 9 ⟨2⟩, .discardUpTo ⟨4⟩]

theorem slides_acknowledged :
    Throughout step
      (fun st => st.buffer.Refines st.window ∧ ∀ e, st.Permitted e → st.Answers e)
      (init ⟨4294967295⟩ 8) acknowledged := by
  refine slides ⟨4294967295⟩ 8 ?_
  refine eachStep_cons.mpr fun s₁ h₁ => ⟨⟨by decide, by decide⟩, ?_⟩
  obtain rfl := Option.some.inj h₁
  refine eachStep_cons.mpr fun s₂ h₂ => ⟨⟨2, by decide, by decide⟩, ?_⟩
  obtain rfl := Option.some.inj h₂
  refine eachStep_cons.mpr fun s₃ h₃ => ⟨⟨1, by decide, by decide⟩, ?_⟩
  obtain rfl := Option.some.inj h₃
  exact eachStep_cons.mpr fun s₄ h₄ => ⟨⟨3, by decide, by decide⟩,
    eachStep_nil _⟩

end TxStream

end Ns3Rdma
