import Ns3Rdma.Lib.Word
import Ns3Rdma.Tcp.Arrangement
import Ns3Rdma.Tcp.SocketBase

/-! # The receive window of an established socket

How much the socket stores, whatever arrives, and what window it advertises. -/

namespace Ns3Rdma

namespace TcpRxBuffer

open Piece

/-- What is stored lies within `m_maxBuffer` bytes from the next byte to extract. -/
def InWindow (b : TcpRxBuffer) : Prop :=
  b.gotFin = false ∧
    ∃ s c front back, Arranged s b.maxBuffer.toNat b 0 c front back

variable {s seq : SequenceNumber32} {p : Payload} {b b' : TcpRxBuffer} {front back : List Piece}
  {c : ℕ}

theorem InWindow.size_le (hb : b.InWindow) : b.size ≤ b.maxBuffer := by
  obtain ⟨-, s, c, front, back, hb⟩ := hb
  have hall := hb.laid.occupied_le (Nat.zero_le _)
  rw [UInt32.le_iff_toNat_le, hb.size_eq]
  omega

/-- With bytes in order at the front, the segment is cut at the end of the window. -/
theorem Arranged.window_of_front (hb : Arranged s b.maxBuffer.toNat b 0 c front back)
    (hmax : b.maxBuffer.toNat + 1 < 2 ^ 31) (hfin : b.gotFin = false) (hc : 0 < c)
    (hrange : ¬ b.maxRxSequence ≤ seq) :
    ((b.window seq (seq + p.getSize)).1 = (b.window seq (seq + p.getSize)).2 ∨
      (b.data = [] ∧
        (b.window seq (seq + p.getSize)).2 ≤ (b.window seq (seq + p.getSize)).1)) ∨
      ∃ h t, b.window seq (seq + p.getSize) = (s.plus h, s.plus t) ∧ c ≤ h ∧ h < t ∧
        t ≤ b.maxBuffer.toNat := by
  have hnext := hb.next_eq
  rw [hfin, if_neg fun h => Bool.false_ne_true h.1] at hnext
  have hcle := hb.le_hi
  obtain ⟨x, front, rfl⟩ : ∃ x rest, front = x :: rest := by
    cases front with
    | nil => exact absurd hb.front_tiles hc.ne
    | cons x rest => exact ⟨x, rest, rfl⟩
  have hx : x.first = 0 := hb.front_tiles.1
  have hdata := hb.data_eq
  rw [List.cons_append, List.map_cons, entry, hx] at hdata
  have hmaxSeq : s.plus 0 + b.maxBuffer = s.plus b.maxBuffer.toNat := by
    rw [SequenceNumber32.plus_add, zero_add]
  have hhead : ∃ h, (if seq < b.nextRxSeq then b.nextRxSeq else seq) = s.plus h ∧ c ≤ h ∧
      h ≤ b.maxBuffer.toNat := by
    by_cases hbefore : seq < b.nextRxSeq
    · rw [if_pos hbefore]
      exact ⟨c, hnext, le_rfl, hcle⟩
    · rw [if_neg hbefore]
      have hbound : seq < s.plus b.maxBuffer.toNat := by
        by_contra hnot
        apply hrange
        unfold maxRxSequence
        rw [hfin, hdata, if_neg Bool.false_ne_true]
        dsimp only
        rw [hmaxSeq]
        exact SequenceNumber32.not_lt.mp hnot
      rw [hnext] at hbefore
      rcases SequenceNumber32.lt_or_eq_of_not_lt hbefore with hlt | heq
      · obtain ⟨k, hk, hlow, hhigh⟩ :=
          SequenceNumber32.exists_plus_of_between hcle (by omega) hlt hbound
        exact ⟨k, hk, hlow.le, hhigh.le⟩
      · exact ⟨c, heq.symm, le_rfl, hcle⟩
  obtain ⟨h, hh, hlow, hhigh⟩ := hhead
  unfold window
  rw [hh, hdata]
  dsimp only
  rw [hmaxSeq]
  by_cases hmaxLt : s.plus b.maxBuffer.toNat < seq + p.getSize
  · rw [if_pos hmaxLt]
    rcases hhigh.lt_or_eq with hlt | rfl
    · rw [if_neg]
      · exact Or.inr ⟨h, _, rfl, hlow, hlt, le_rfl⟩
      · rw [SequenceNumber32.plus_lt_plus (by omega) (by omega)]
        omega
    · rw [ite_self]
      exact Or.inl (Or.inl rfl)
  · rw [if_neg hmaxLt]
    by_cases hbehind : seq + p.getSize < s.plus h
    · rw [if_pos hbehind]
      exact Or.inl (Or.inl rfl)
    rw [if_neg hbehind]
    rcases SequenceNumber32.lt_or_eq_of_not_lt hbehind with hlt | heq
    · rcases SequenceNumber32.lt_or_eq_of_not_lt hmaxLt with hlt' | heq'
      · obtain ⟨t, ht, hht, htm⟩ :=
          SequenceNumber32.exists_plus_of_between hhigh (by omega) hlt hlt'
        rw [ht]
        exact Or.inr ⟨h, t, rfl, hlow, hht, htm.le⟩
      · rw [heq'] at hlt ⊢
        rw [SequenceNumber32.plus_lt_plus (by omega) (by omega)] at hlt
        exact Or.inr ⟨h, _, rfl, hlow, hlt, le_rfl⟩
    · exact Or.inl (Or.inl heq)

/-- Where a segment lies that reaches the expected number `s` and ends in the window. -/
theorem head_of_gap {len max : ℕ} (hlen : p.length = len) (hsmall : len < 2 ^ 31)
    (hmax : max + 1 < 2 ^ 31) (hend : (seq - s).toInt + len ≤ max)
    (htail : ¬ seq + p.getSize < s) :
    (if seq < s then s else seq) = seq + p.getSize ∨
      ∃ h t, (if seq < s then s else seq) = s.plus h ∧ seq + p.getSize = s.plus t ∧ h < t ∧
        t ≤ max := by
  obtain ⟨d, hd⟩ : ∃ d, d = seq.distance s := ⟨_, rfl⟩
  have hdlt : d < 2 ^ 32 := by
    rw [hd, SequenceNumber32.distance_eq]
    exact Nat.mod_lt _ (by decide)
  have hs : s.plus 0 = s := SequenceNumber32.plus_zero s
  have hseq : seq = s.plus d := by rw [hd, SequenceNumber32.plus_distance]
  have hpSize : p.getSize.toNat = len := by
    rw [← hlen]
    exact Payload.toNat_getSize (by omega)
  have htailPos : seq + p.getSize = s.plus (d + len) := by
    rw [hseq, SequenceNumber32.plus_add, hpSize]
  have hdistance : ∀ k, s.distance (s.plus k) = (2 ^ 32 - k % 2 ^ 32) % 2 ^ 32 := by
    intro k
    have hplus := SequenceNumber32.distance_plus s 0 k
    rwa [hs, Nat.add_zero] at hplus
  rw [SequenceNumber32.toInt_sub, ← hd] at hend
  by_cases hafter : d < 2 ^ 31
  · -- the segment begins at the expected number or behind it
    rw [if_pos hafter] at hend
    have hnot : ¬ seq < s := by
      rw [SequenceNumber32.lt_iff_distance, hseq, hdistance]
      omega
    rw [if_neg hnot]
    rcases Nat.eq_zero_or_pos len with hzero | hpos
    · left
      rw [htailPos, hzero, hseq]
      rfl
    · exact Or.inr ⟨d, d + len, hseq, htailPos, by omega, by omega⟩
  · rw [if_neg hafter] at hend
    by_cases hwrap : d + len < 2 ^ 32
    · -- the segment would end before the expected number, unless it is empty and 2^31 away
      have hempty : len = 0 := by
        by_contra hne
        apply htail
        rw [SequenceNumber32.lt_iff_distance, htailPos, hdistance]
        omega
      have hself : seq + p.getSize = seq := by
        rw [htailPos, hempty, hseq]
        rfl
      rw [hself] at htail
      rw [if_neg htail, hself]
      exact Or.inl rfl
    · have htailWrapped : seq + p.getSize = s.plus (d + len - 2 ^ 32) := by
        rw [htailPos]
        apply SequenceNumber32.distance_eq_zero.mp
        rw [SequenceNumber32.distance_plus]
        omega
      have hlt : seq < s := by
        rw [SequenceNumber32.lt_iff_distance, hseq, hdistance]
        omega
      rw [if_pos hlt]
      rcases Nat.eq_zero_or_pos (d + len - 2 ^ 32) with hzero | hpos
      · left
        rw [htailWrapped, hzero, hs]
      · exact Or.inr ⟨0, _, hs.symm, htailWrapped, hpos, by omega⟩

/-- Without bytes in order, the segment itself has to end in the window. -/
theorem Arranged.window_of_gap (hb : Arranged s b.maxBuffer.toNat b 0 0 front back)
    (hmax : b.maxBuffer.toNat + 1 < 2 ^ 31) (hfin : b.gotFin = false)
    (hlen : p.length < 2 ^ 31)
    (hend : (seq - b.nextRxSeq).toInt + p.length ≤ b.maxBuffer.toNat)
    (htail : ¬ seq + p.getSize < b.nextRxSeq) :
    ((b.window seq (seq + p.getSize)).1 = (b.window seq (seq + p.getSize)).2 ∨
      (b.data = [] ∧
        (b.window seq (seq + p.getSize)).2 ≤ (b.window seq (seq + p.getSize)).1)) ∨
      ∃ h t, b.window seq (seq + p.getSize) = (s.plus h, s.plus t) ∧ 0 ≤ h ∧ h < t ∧
        t ≤ b.maxBuffer.toNat := by
  have hnext := hb.next_eq
  rw [hfin, if_neg fun h => Bool.false_ne_true h.1, SequenceNumber32.plus_zero] at hnext
  rw [hnext] at hend htail
  have hposition := head_of_gap rfl hlen hmax hend htail
  unfold window
  rw [hnext]
  obtain ⟨head, hhead⟩ : ∃ head, head = if seq < s then s else seq := ⟨_, rfl⟩
  rw [← hhead] at hposition ⊢
  rcases hposition with heq | ⟨h, t, hh, ht, hlt, htm⟩
  · left
    left
    rw [← heq]
    rcases b.data with _ | ⟨⟨first, q⟩, rest⟩
    · rfl
    · dsimp only
      by_cases hbefore : first + b.maxBuffer < head
      · rw [if_pos hbefore, if_pos hbefore]
      · rw [if_neg hbefore, ite_self]
  · rw [hh, ht]
    rcases hdata : b.data with _ | ⟨⟨first, q⟩, rest⟩
    · exact Or.inr ⟨h, t, rfl, Nat.zero_le h, hlt, htm⟩
    · dsimp only
      have hmem : (first, q) ∈ (front ++ back).map (entry s) := by
        rw [← hb.data_eq, hdata]
        exact List.mem_cons_self
      obtain ⟨x, hx, hentry⟩ := List.mem_map.mp hmem
      have hinside := hb.laid.of_mem hx
      have hxfirst : 0 < x.first := by
        rcases List.mem_append.mp hx with hx | hx
        · exact absurd (hb.front_lt x hx) (Nat.not_lt_zero _)
        · exact (hb.back_laid.of_mem hx).1
      have hmaxSeq : first + b.maxBuffer = s.plus (x.first + b.maxBuffer.toNat) := by
        have hkey : s.plus x.first = first := congrArg Prod.fst hentry
        rw [← SequenceNumber32.plus_add, hkey]
      rw [hmaxSeq]
      by_cases hspurious : s.plus (x.first + b.maxBuffer.toNat) < s.plus t
      · -- the end of the window is more than 2^31 ahead and seems to lie before the segment
        have hbefore : s.plus (x.first + b.maxBuffer.toNat) < s.plus h := by
          rw [SequenceNumber32.lt_iff_distance, SequenceNumber32.distance_plus] at hspurious ⊢
          omega
        rw [if_pos hspurious, if_pos hbefore]
        exact Or.inl (Or.inl rfl)
      · rw [if_neg hspurious, if_neg]
        · exact Or.inr ⟨h, t, rfl, Nat.zero_le h, hlt, htm⟩
        · rw [SequenceNumber32.plus_lt_plus (by omega) (by omega)]
          omega

theorem InWindow.extract {bytes : Payload} {maxSize : UInt32} (hb : b.InWindow)
    (hmax : b.maxBuffer.toNat + 1 < 2 ^ 31) (hextract : b.extract maxSize = some (b', bytes)) :
    b'.InWindow ∧ b'.maxBuffer = b.maxBuffer := by
  obtain ⟨hfin, s, c, front, back, hb⟩ := hb
  obtain ⟨b'', bytes', front', hextract', hb', ⟨hkeepMax, hkeepFin⟩, -⟩ :=
    hb.extract_spec hmax maxSize
  obtain ⟨rfl, rfl⟩ := Prod.mk.inj (Option.some.inj (hextract.symm.trans hextract'))
  have hbase : Arranged _ b'.maxBuffer.toNat b' 0 _ _ _ :=
    hb'.rebase (hkeepFin.trans hfin) (by rw [hkeepMax]; omega)
  exact ⟨⟨hkeepFin.trans hfin, _, _, _, _, hbase⟩, hkeepMax⟩

/-- What is stored stays in the window, provided that a segment that finds no bytes in order ends
there itself. -/
theorem InWindow.add {added : Bool} (hb : b.InWindow) (hmax : b.maxBuffer.toNat + 1 < 2 ^ 31)
    (hrange : TcpSocketBase.outOfRange .ESTABLISHED b seq (seq + p.getSize) = false)
    (hlen : p.length < 2 ^ 31)
    (hend : b.availBytes = 0 → (seq - b.nextRxSeq).toInt + p.length ≤ b.maxBuffer.toNat)
    (hadd : b.add p seq = some (b', added)) :
    b'.InWindow ∧ b'.maxBuffer = b.maxBuffer := by
  obtain ⟨hfin, s, c, front, back, hb⟩ := hb
  have hinRange : ¬ (seq + p.getSize < b.nextRxSeq ∨ b.maxRxSequence ≤ seq) := by
    rw [← TcpSocketBase.outOfRange_established, hrange]
    exact Bool.false_ne_true
  obtain ⟨htail, hhead⟩ := not_or.mp hinRange
  have hwindow : ((b.window seq (seq + p.getSize)).1 = (b.window seq (seq + p.getSize)).2 ∨
      (b.data = [] ∧
        (b.window seq (seq + p.getSize)).2 ≤ (b.window seq (seq + p.getSize)).1)) ∨
      ∃ h t, b.window seq (seq + p.getSize) = (s.plus h, s.plus t) ∧ c ≤ h ∧ h < t ∧
        t ≤ b.maxBuffer.toNat := by
    rcases Nat.eq_zero_or_pos c with rfl | hc
    · have hnone : b.availBytes = 0 := UInt32.toNat_inj.mp hb.avail_eq
      exact hb.window_of_gap hmax hfin hlen (hend hnone) htail
    · exact hb.window_of_front hmax hfin hc hhead
  rcases hwindow with hempty | ⟨h, t, hpair, hch, hht, htm⟩
  · have hnothing := hb.add_of_empty hmax hempty
    obtain ⟨rfl, rfl⟩ := Prod.mk.inj (Option.some.inj (hadd.symm.trans hnothing))
    exact ⟨⟨hfin, s, c, front, back, hb⟩, rfl⟩
  obtain ⟨rest, -, hresult⟩ := hb.add_of_window hmax hpair hch hht htm
  rcases hresult with ⟨b'', hadd', hb', ⟨hkeepMax, hkeepFin⟩, -⟩ |
    ⟨h', t', start, length, -, -, -, -, -, hstore, hfragment⟩
  · obtain ⟨rfl, rfl⟩ := Prod.mk.inj (Option.some.inj (hadd.symm.trans hadd'))
    rw [← hkeepMax] at hb'
    exact ⟨⟨hkeepFin.trans hfin, s, c, front, rest, hb'⟩, hkeepMax⟩
  · obtain ⟨q, hq, hqLength⟩ := hfragment _ hadd
    obtain ⟨b'', c', front', back', hadd', hb', ⟨hkeepMax, hkeepFin⟩, -⟩ := hstore q hq hqLength
    obtain ⟨rfl, rfl⟩ := Prod.mk.inj (Option.some.inj (hadd.symm.trans hadd'))
    rw [← hkeepMax] at hb'
    exact ⟨⟨hkeepFin.trans hfin, s, c', front', back', hb'⟩, hkeepMax⟩

end TcpRxBuffer

/-! ## Runs -/

namespace ReceiveWindow

open TcpRxBuffer TcpSocketBase StepSystem

inductive Event
  | receive (p : Payload) (seq : SequenceNumber32)
  | read (maxSize : UInt32)

/-- A segment that is out of range does not reach the buffer. -/
def step (b : TcpRxBuffer) : Event → Option TcpRxBuffer
  | .receive p seq =>
      if outOfRange .ESTABLISHED b seq (seq + p.getSize) = true then some b
      else (b.add p seq).map Prod.fst
  | .read maxSize => (b.extract maxSize).map Prod.fst

/-- A segment has less than 2^31 bytes. If it is in range and no bytes are in order, it ends at most
`m_maxBuffer` bytes behind the expected number. -/
def EndsInWindow (b : TcpRxBuffer) : Event → Prop
  | .receive p seq => p.length < 2 ^ 31 ∧
      (outOfRange .ESTABLISHED b seq (seq + p.getSize) = false → b.availBytes = 0 →
        (seq - b.nextRxSeq).toInt + p.length ≤ b.maxBuffer.toNat)
  | .read _ => True

/-- The buffer is not overfull, and the advertised window is the room in it. -/
def Sound (max : UInt32) (b : TcpRxBuffer) : Prop :=
  b.size ≤ max ∧ ∀ maxWinSize : UInt16, (advertisedWindowSize b maxWinSize).toNat =
    min (max.toNat - b.size.toNat) maxWinSize.toNat

variable {b b' : TcpRxBuffer} {e : Event} {max : UInt32}

theorem step_inWindow (hb : b.InWindow) (hmax : b.maxBuffer.toNat + 1 < 2 ^ 31)
    (hends : EndsInWindow b e) (hstep : step b e = some b') :
    b'.InWindow ∧ b'.maxBuffer = b.maxBuffer := by
  cases e with
  | receive p seq =>
      unfold step at hstep
      dsimp only at hstep
      split at hstep
      next =>
        obtain rfl := Option.some.inj hstep
        exact ⟨hb, rfl⟩
      next hrange =>
        obtain ⟨⟨b'', added⟩, hadd, rfl⟩ := Option.map_eq_some_iff.mp hstep
        rw [Bool.not_eq_true] at hrange
        exact hb.add hmax hrange hends.1 (hends.2 hrange) hadd
  | read maxSize =>
      obtain ⟨⟨b'', bytes⟩, hextract, rfl⟩ := Option.map_eq_some_iff.mp hstep
      exact hb.extract hmax hextract

theorem sound_of_inWindow (hb : b.InWindow) (hkeep : b.maxBuffer = max) : Sound max b := by
  subst hkeep
  have hle := hb.size_le
  refine ⟨hle, fun maxWinSize => ?_⟩
  have hroom : (b.maxBuffer - b.size).toNat = b.maxBuffer.toNat - b.size.toNat :=
    UInt32.toNat_sub_of_le _ _ hle
  have hlt := maxWinSize.toNat_lt
  unfold advertisedWindowSize
  rw [UInt32.toNat_toUInt16, UInt32.toNat_min, hroom, UInt16.toNat_toUInt32]
  exact Nat.mod_eq_of_lt (by omega)

theorem init_inWindow (next : SequenceNumber32) (max : UInt32) :
    (TcpRxBuffer.init next max).InWindow := by
  refine ⟨rfl, next, 0, [], [], rfl, rfl, trivial, Nat.zero_le _, rfl, rfl, ?_, ?_⟩
  · intro hfin
    cases hfin
  · exact (SequenceNumber32.plus_zero next).symm

/-- In a run whose segments end in the window when no bytes are in order, the buffer is never
overfull. -/
theorem window_sound (next : SequenceNumber32) (hmax : max.toNat + 1 < 2 ^ 31)
    {events : List Event}
    (hends : EachStep step (fun b e _ => EndsInWindow b e) (TcpRxBuffer.init next max)
      events) :
    Throughout step (Sound max) (TcpRxBuffer.init next max) events := by
  have hall : Throughout step (fun b => b.InWindow ∧ b.maxBuffer = max)
      (TcpRxBuffer.init next max) events := by
    refine throughout_of_eachStep ?_ ⟨init_inWindow next max, rfl⟩ hends
    rintro b e b' ⟨hb, hkeep⟩ hstep hends
    rw [← hkeep] at hmax ⊢
    exact step_inWindow hb hmax hends hstep
  exact hall.mono fun b hb => sound_of_inWindow hb.1 hb.2

/-- Two segments out of order, and a read. -/
def filledHole : List Event :=
  [.receive [4, 5, 6] ⟨2⟩, .receive [1, 2, 3, 4] ⟨4294967295⟩, .read 2]

theorem window_sound_filledHole :
    Throughout step (Sound 8) (TcpRxBuffer.init ⟨4294967295⟩ 8) filledHole := by
  refine window_sound ⟨4294967295⟩ (by decide) ?_
  refine eachStep_cons.mpr fun b₁ h₁ => ⟨⟨by decide, fun _ _ => by decide⟩, ?_⟩
  obtain rfl := Option.some.inj h₁
  refine eachStep_cons.mpr fun b₂ h₂ => ⟨⟨by decide, fun _ _ => by decide⟩, ?_⟩
  obtain rfl := Option.some.inj h₂
  exact eachStep_cons.mpr fun b₃ h₃ => ⟨trivial, eachStep_nil _⟩

/-- A segment of 20 bytes arrives at an empty buffer for 10. -/
def longSegment : List Event := [.receive (List.replicate 20 0) ⟨0⟩]

theorem longSegment_overfull :
    ¬ Throughout step (Sound 10) (TcpRxBuffer.init ⟨0⟩ 10) longSegment := by
  intro h
  exact absurd (h longSegment [] _ rfl rfl).1 (by decide)

end ReceiveWindow

end Ns3Rdma
