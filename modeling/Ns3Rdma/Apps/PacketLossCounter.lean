import Mathlib.Data.Finset.Card
import Mathlib.Data.List.TakeWhile
import Mathlib.Data.UInt
import Ns3Rdma.Lib.StepSystem

/-! # Counting lost packets

The bit of a number is shared by all numbers that are equal to it modulo the size of the window. It
says whether the number one window below the next one to come was received. -/

namespace Ns3Rdma

open StepSystem

/-- `m_bitMapSize` counts the bytes of `m_receiveBitMap`. -/
structure PacketLossCounter where
  lost : UInt32
  bitMapSize : ℕ
  lastMaxSeqNum : UInt32
  receiveBitMap : ℕ → UInt8

namespace PacketLossCounter

/-- `SetBitMapSize` asserts that the size is a multiple of 8. -/
def new (winSize : UInt16) : Option PacketLossCounter :=
  if winSize % 8 = 0 then some ⟨0, winSize.toNat / 8, 0, fun _ => 0xFF⟩ else none

variable (c : PacketLossCounter)

/-- The byte that holds the bit. -/
def byteOf (seqNum : ℕ) : ℕ := seqNum % (c.bitMapSize * 8) / 8

def getBit (seqNum : ℕ) : Bool :=
  (c.receiveBitMap (c.byteOf seqNum) >>> .ofNat (7 - seqNum % 8)) &&& 1 == 1

def setBit (seqNum : ℕ) (val : Bool) : PacketLossCounter :=
  let byte := c.receiveBitMap (c.byteOf seqNum)
  let mask := (0x80 : UInt8) >>> .ofNat (seqNum % 8)
  { c with
    receiveBitMap := Function.update c.receiveBitMap (c.byteOf seqNum)
      (if val then byte ||| mask else byte &&& ~~~ mask) }

/-- The body of the loop. -/
def pass (i : UInt32) : PacketLossCounter :=
  ({ c with lost := if c.getBit i.toNat then c.lost else c.lost + 1 } :
    PacketLossCounter).setBit i.toNat false

/-- The loop. -/
def notifyLoop (seqNum : UInt32) : ℕ → UInt32 → PacketLossCounter → Option PacketLossCounter
  | 0, _, _ => none
  | fuel + 1, i, c =>
      if i ≤ seqNum then notifyLoop seqNum fuel (i + 1) (c.pass i) else some c

/-- `NotifyReceived`. A loop that ends does so within the numbers there are. -/
def notifyReceived (seqNum : UInt32) : Option PacketLossCounter :=
  (notifyLoop seqNum (2 ^ 32 + 1) (c.lastMaxSeqNum + 1) c).map fun c =>
    let c := c.setBit seqNum.toNat true
    { c with lastMaxSeqNum := if c.lastMaxSeqNum < seqNum then seqNum else c.lastMaxSeqNum }

/-! ## What the counter is for -/

/-- The highest number of a history. -/
def highest (history : List ℕ) : ℕ := history.foldr max 0

/-- The numbers a window below the highest one that had not been received by the time the first
number came that was a window above. -/
def lostNumbers (window : ℕ) (history : List ℕ) : Finset ℕ :=
  (Finset.range (highest history + 1 - window)).filter fun s =>
    s ∉ history.takeWhile fun n => n < s + window

/-- A packet does not have the last number there is, it does not leave the number 0 behind that was
never received, and when it is late by a window or more, the number whose bit it sets was received
as well. -/
structure Regular (window : ℕ) (history : List ℕ) (n : ℕ) : Prop where
  last : n ≠ 2 ^ 32 - 1
  zero : window ≤ n → 0 ∈ history
  late : n + window ≤ highest history → ∀ s, s ≤ highest history → highest history < s + window →
    s ≡ n [MOD window] → s ∈ history

/-! ## Bits -/

section Bits

variable {c} {window : ℕ}

/-- A bit of a byte, from the most significant one on. -/
theorem bit_eq (byte : UInt8) {k : ℕ} (hk : k < 8) :
    ((byte >>> .ofNat (7 - k)) &&& 1 == 1) = byte.toNat.testBit (7 - k) := by
  have hshift : (UInt8.ofNat (7 - k)).toNat % 8 = 7 - k := by
    rw [UInt8.toNat_ofNat_of_lt' (lt_of_le_of_lt (Nat.sub_le _ _) (by decide))]
    omega
  rw [beq_eq_decide, Nat.testBit_eq_decide_div_mod_eq]
  refine decide_eq_decide.mpr ?_
  rw [← UInt8.toNat_inj, UInt8.toNat_and, UInt8.toNat_shiftRight, hshift,
    Nat.shiftRight_eq_div_pow]
  change _ &&& 1 = 1 ↔ _
  rw [Nat.and_one_is_mod]

theorem mask_testBit {j k : ℕ} (hj : j < 8) (hk : k < 8) :
    ((0x80 : UInt8) >>> .ofNat k).toNat.testBit (7 - j) = decide (j = k) := by
  have hall : ∀ j k : Fin 8,
      ((0x80 : UInt8) >>> .ofNat k.val).toNat.testBit (7 - j.val) = decide (j.val = k.val) := by
    decide
  exact hall ⟨j, hj⟩ ⟨k, hk⟩

theorem not_mask_testBit {j k : ℕ} (hj : j < 8) (hk : k < 8) :
    (~~~ ((0x80 : UInt8) >>> .ofNat k)).toNat.testBit (7 - j) = !decide (j = k) := by
  have hall : ∀ j k : Fin 8,
      (~~~ ((0x80 : UInt8) >>> .ofNat k.val)).toNat.testBit (7 - j.val) =
        !decide (j.val = k.val) := by decide
  exact hall ⟨j, hj⟩ ⟨k, hk⟩

/-- Numbers have the same place if they are equal modulo the size of the window. -/
theorem same_place (hsize : c.bitMapSize * 8 = window) (s t : ℕ) :
    (c.byteOf s = c.byteOf t ∧ s % 8 = t % 8) ↔ s ≡ t [MOD window] := by
  have hdvd : 8 ∣ window := Dvd.intro_left c.bitMapSize hsize
  unfold byteOf Nat.ModEq
  rw [hsize, ← Nat.mod_mod_of_dvd s hdvd, ← Nat.mod_mod_of_dvd t hdvd]
  constructor
  · rintro ⟨hdiv, hmod⟩
    rw [← Nat.div_add_mod (s % window) 8, hdiv, hmod, Nat.div_add_mod]
  · intro h
    rw [h]
    exact ⟨rfl, rfl⟩

/-- Setting a bit sets the bits of all numbers that share it. -/
theorem getBit_setBit (hsize : c.bitMapSize * 8 = window) (s t : ℕ) (val : Bool) :
    (c.setBit s val).getBit t = if t ≡ s [MOD window] then val else c.getBit t := by
  have hs : s % 8 < 8 := Nat.mod_lt _ (by decide)
  have ht : t % 8 < 8 := Nat.mod_lt _ (by decide)
  have hplace := same_place hsize t s
  change (Function.update c.receiveBitMap (c.byteOf s) _ (c.byteOf t) >>> _ &&& 1 == 1) = _
  rw [bit_eq _ ht, Function.update_apply]
  unfold getBit
  rw [bit_eq _ ht]
  by_cases hbyte : c.byteOf t = c.byteOf s
  · rw [if_pos hbyte]
    by_cases hbit : t % 8 = s % 8
    · rw [if_pos (hplace.mp ⟨hbyte, hbit⟩)]
      cases val with
      | true =>
          rw [if_pos rfl, UInt8.toNat_or, Nat.testBit_or, mask_testBit ht hs, decide_eq_true hbit,
            Bool.or_true]
      | false =>
          rw [if_neg Bool.false_ne_true, UInt8.toNat_and, Nat.testBit_and, not_mask_testBit ht hs,
            decide_eq_true hbit, Bool.not_true, Bool.and_false]
    · rw [if_neg fun h => hbit (hplace.mpr h).2, hbyte]
      cases val with
      | true =>
          rw [if_pos rfl, UInt8.toNat_or, Nat.testBit_or, mask_testBit ht hs,
            decide_eq_false hbit, Bool.or_false]
      | false =>
          rw [if_neg Bool.false_ne_true, UInt8.toNat_and, Nat.testBit_and, not_mask_testBit ht hs,
            decide_eq_false hbit, Bool.not_false, Bool.and_true]
  · rw [if_neg hbyte, if_neg fun h => hbyte (hplace.mpr h).1]

end Bits

/-! ## Histories -/

section Histories

variable {window n s : ℕ} {history : List ℕ}

theorem le_highest {m : ℕ} (h : m ∈ history) : m ≤ highest history := by
  induction history with
  | nil => cases h
  | cons first rest ih =>
      change m ≤ max first (highest rest)
      rcases List.mem_cons.mp h with rfl | h
      · exact le_max_left _ _
      · exact (ih h).trans (le_max_right _ _)

theorem highest_append (history : List ℕ) (n : ℕ) :
    highest (history ++ [n]) = max (highest history) n := by
  induction history with
  | nil => exact Nat.max_comm n 0
  | cons first rest ih =>
      change max first (highest (rest ++ [n])) = max (max first (highest rest)) n
      rw [ih, Nat.max_assoc]

/-- The highest number was received, unless none was above zero. -/
theorem highest_mem (h : 0 < highest history) : highest history ∈ history := by
  induction history with
  | nil => exact absurd h (Nat.lt_irrefl _)
  | cons first rest ih =>
      change 0 < max first (highest rest) at h
      change max first (highest rest) ∈ first :: rest
      rcases le_total first (highest rest) with hle | hle
      · rw [max_eq_right hle] at h ⊢
        exact List.mem_cons_of_mem _ (ih h)
      · rw [max_eq_left hle]
        exact List.mem_cons_self

/-- A number whose time is over is lost or not for good. -/
theorem takeWhile_append_of_le (h : s + window ≤ highest history) (hpos : 0 < window) :
    (history ++ [n]).takeWhile (fun m => m < s + window) =
      history.takeWhile fun m => m < s + window := by
  have hmem := highest_mem (lt_of_lt_of_le (Nat.add_pos_right s hpos) h)
  rw [List.takeWhile_append, if_neg]
  intro hall
  have hsame := (List.takeWhile_sublist _).eq_of_length hall
  rw [List.takeWhile_eq_self_iff] at hsame
  exact absurd (hsame _ hmem) (by simpa using h)

/-- A number whose time is over with the next packet. -/
theorem takeWhile_append_of_lt (h : highest history < s + window) (hn : s + window ≤ n) :
    (history ++ [n]).takeWhile (fun m => m < s + window) = history := by
  have hall : ∀ m ∈ history, decide (m < s + window) = true := fun m hm =>
    decide_eq_true (lt_of_le_of_lt (le_highest hm) h)
  rw [List.takeWhile_append_of_pos hall, List.takeWhile_cons_of_neg (by simpa using hn),
    List.append_nil]

/-- The lost numbers up to `j`, when `n` has come. -/
def lostUpTo (window : ℕ) (history : List ℕ) (n j : ℕ) : Finset ℕ :=
  (Finset.range (j + 1 - window)).filter fun s =>
    s ∉ (history ++ [n]).takeWhile fun m => m < s + window

theorem lostUpTo_start (hpos : 0 < window) :
    lostUpTo window history n (highest history) = lostNumbers window history := by
  refine Finset.filter_congr fun s hs => ?_
  rw [Finset.mem_range] at hs
  rw [takeWhile_append_of_le (by omega) hpos]

theorem lostUpTo_end (hle : highest history ≤ n) :
    lostUpTo window history n n = lostNumbers window (history ++ [n]) := by
  unfold lostNumbers lostUpTo
  rw [highest_append, max_eq_right hle]

theorem lostNumbers_late (hlt : n < highest history) (hpos : 0 < window) :
    lostNumbers window (history ++ [n]) = lostNumbers window history := by
  unfold lostNumbers
  rw [highest_append, max_eq_left hlt.le]
  refine Finset.filter_congr fun s hs => ?_
  rw [Finset.mem_range] at hs
  rw [takeWhile_append_of_le (by omega) hpos]

/-- One more number. -/
theorem card_lostUpTo_succ {j : ℕ} (hj : highest history ≤ j) (hn : j < n)
    (hzero : window ≤ n → 0 ∈ history) :
    (lostUpTo window history n (j + 1)).card = (lostUpTo window history n j).card +
      if j + 1 ≤ window ∨ j + 1 - window ∈ history then 0 else 1 := by
  unfold lostUpTo
  rcases Nat.lt_or_ge (j + 1) window with hlt | hge
  · rw [if_pos (Or.inl hlt.le), show j + 1 + 1 - window = j + 1 - window by omega]
    rfl
  · have hrange : j + 1 + 1 - window = (j + 1 - window) + 1 := by omega
    have htake : (history ++ [n]).takeWhile (fun m => m < j + 1 - window + window) = history :=
      takeWhile_append_of_lt (by omega) (by omega)
    rw [hrange, Finset.range_add_one, Finset.filter_insert, htake]
    by_cases hmem : j + 1 - window ∈ history
    · rw [if_neg (not_not.mpr hmem), if_pos (Or.inr hmem)]
      rfl
    · have hne : j + 1 ≠ window := by
        rintro rfl
        rw [Nat.sub_self] at hmem
        exact hmem (hzero (by omega))
      rw [if_pos hmem, if_neg (not_or.mpr ⟨by omega, hmem⟩), Finset.card_insert_of_notMem]
      intro hin
      rw [Finset.mem_filter, Finset.mem_range] at hin
      exact Nat.lt_irrefl _ hin.1

end Histories

/-! ## The invariant -/

/-- The numbers up to `j` are counted, and the bits of the next ones say whether the numbers one
window below were received, or are not positive. -/
structure Counted (c : PacketLossCounter) (window : ℕ) (history : List ℕ) (lost : ℕ) (j : ℕ) :
    Prop where
  size : c.bitMapSize * 8 = window
  lost : c.lost = .ofNat lost
  bits : ∀ u, j < u → u ≤ j + window → (c.getBit u = true ↔ u ≤ window ∨ u - window ∈ history)

variable {c : PacketLossCounter} {window : ℕ} {history : List ℕ} {n : ℕ}

theorem Counted.pass {j : ℕ} (h : c.Counted window history (lostUpTo window history n j).card j)
    (hj : highest history ≤ j) (hn : j < n) (hzero : window ≤ n → 0 ∈ history) (hpos : 0 < window)
    {i : UInt32} (hi : i.toNat = j + 1) :
    (c.pass i).Counted window history (lostUpTo window history n (j + 1)).card (j + 1) := by
  refine ⟨h.size, ?_, fun u hu hle => ?_⟩
  · have hbit := h.bits (j + 1) (Nat.lt_succ_self j) (by omega)
    rw [card_lostUpTo_succ hj hn hzero]
    change (if c.getBit i.toNat = true then c.lost else c.lost + 1) = _
    rw [hi, h.lost]
    by_cases hset : c.getBit (j + 1) = true
    · rw [if_pos hset, if_pos (hbit.mp hset), Nat.add_zero]
    · rw [if_neg hset, if_neg fun hor => hset (hbit.mpr hor), UInt32.ofNat_add]
      rfl
  · have hset : (c.pass i).getBit u = if u ≡ i.toNat [MOD window] then false else c.getBit u :=
      getBit_setBit (c := { c with lost := _ }) h.size i.toNat u false
    rw [hset, hi]
    split
    · next hsame =>
      -- The number that takes the place of the one that was counted is a new one.
      have hlast : u = j + 1 + window := by
        by_contra hne
        have hlt : u - (j + 1) < window := by omega
        have hdvd : window ∣ u - (j + 1) :=
          (Nat.modEq_iff_dvd' (by omega)).mp hsame.symm
        exact absurd (Nat.le_of_dvd (by omega) hdvd) (Nat.not_le_of_lt hlt)
      refine iff_of_false Bool.false_ne_true ?_
      rintro (hsmall | hmem)
      · omega
      · have := le_highest hmem
        omega
    · next hother =>
      have hne : u ≠ j + 1 + window := by
        rintro rfl
        exact hother (by simp [Nat.ModEq])
      exact h.bits u (by omega) (by omega)

/-- The loop ends, with the numbers up to `n` counted. -/
theorem notifyLoop_spec {seqNum : UInt32} (hlast : seqNum.toNat ≠ 2 ^ 32 - 1)
    (hzero : window ≤ seqNum.toNat → 0 ∈ history) (hpos : 0 < window) {fuel j : ℕ} {i : UInt32}
    (hi : i.toNat = j + 1) (hj : highest history ≤ j) (hle : j ≤ seqNum.toNat)
    (hfuel : seqNum.toNat < j + fuel)
    (h : c.Counted window history (lostUpTo window history seqNum.toNat j).card j) :
    ∃ c', notifyLoop seqNum fuel i c = some c' ∧ c'.lastMaxSeqNum = c.lastMaxSeqNum ∧
      c'.Counted window history (lostUpTo window history seqNum.toNat seqNum.toNat).card
        seqNum.toNat := by
  induction fuel generalizing c j i with
  | zero => exact absurd hle (Nat.not_le_of_lt hfuel)
  | succ fuel ih =>
      have hbound := seqNum.toNat_lt
      unfold notifyLoop
      split
      · next hin =>
        rw [UInt32.le_iff_toNat_le, hi] at hin
        have hnext : (i + 1).toNat = j + 1 + 1 := by
          rw [UInt32.toNat_add, hi]
          exact Nat.mod_eq_of_lt (by change j + 1 + 1 < 2 ^ 32; omega)
        exact ih hnext (by omega) hin (by omega) (h.pass hj hin hzero hpos hi)
      · next hout =>
        rw [UInt32.le_iff_toNat_le, hi] at hout
        obtain rfl : j = seqNum.toNat := by omega
        exact ⟨c, rfl, rfl, h⟩

/-- The bit of a packet is set behind the loop. -/
theorem Counted.setBit {lost j : ℕ} (h : c.Counted window history lost j) (hn : n ≤ j)
    (hlate : n + window ≤ j → ∀ s, s ≤ j → j < s + window → s ≡ n [MOD window] → s ∈ history) :
    (c.setBit n true).Counted window (history ++ [n]) lost j := by
  refine ⟨h.size, h.lost, fun u hu hle => ?_⟩
  rw [getBit_setBit h.size, List.mem_append, List.mem_singleton]
  have hself : u - window ≡ u - window + window [MOD window] := by simp [Nat.ModEq]
  split
  · next hsame =>
    refine iff_of_true rfl ?_
    rcases Nat.lt_or_ge window u with hlarge | hsmall
    · right
      rw [Nat.sub_add_cancel hlarge.le] at hself
      have hplace := hself.trans hsame
      rcases Nat.lt_or_ge j (n + window) with hin | hold
      · -- The bit belongs to the packet itself.
        right
        exact Nat.ModEq.eq_of_abs_lt hplace (by rw [abs_lt]; omega)
      · exact Or.inl (hlate hold _ (by omega) (by omega) hplace)
    · exact Or.inl hsmall
  · next hother =>
    rw [h.bits u hu hle]
    rcases Nat.lt_or_ge window u with hlarge | hsmall
    · rw [Nat.sub_add_cancel hlarge.le] at hself
      refine or_congr_right (or_iff_left fun heq => hother ?_).symm
      rw [heq] at hself
      exact hself.symm
    · exact iff_of_true (Or.inl hsmall) (Or.inl hsmall)

/-- What holds after every call. -/
structure Exact (c : PacketLossCounter) (window : ℕ) (history : List ℕ) : Prop where
  counted : c.Counted window history (lostNumbers window history).card (highest history)
  lastMax : c.lastMaxSeqNum.toNat = highest history
  bound : highest history < 2 ^ 32 - 1

theorem Exact.notifyReceived (h : c.Exact window history) {seqNum : UInt32}
    (hregular : Regular window history seqNum.toNat) (hpos : 0 < window) :
    ∃ c', c.notifyReceived seqNum = some c' ∧ c'.Exact window (history ++ [seqNum.toNat]) := by
  have hbound := seqNum.toNat_lt
  have hlast := hregular.last
  have hmax := h.bound
  have hfirst : (c.lastMaxSeqNum + 1).toNat = highest history + 1 := by
    rw [UInt32.toNat_add, h.lastMax]
    exact Nat.mod_eq_of_lt (by change highest history + 1 < 2 ^ 32; omega)
  have hless : c.lastMaxSeqNum < seqNum ↔ highest history < seqNum.toNat := by
    rw [UInt32.lt_iff_toNat_lt, h.lastMax]
  unfold PacketLossCounter.notifyReceived
  rcases Nat.lt_or_ge seqNum.toNat (highest history) with hlt | hge
  · -- The loop does nothing for a late packet.
    have hloop : notifyLoop seqNum (2 ^ 32 + 1) (c.lastMaxSeqNum + 1) c = some c := by
      unfold notifyLoop
      rw [if_neg]
      rw [UInt32.le_iff_toNat_le, hfirst]
      omega
    have hcounted := h.counted.setBit hlt.le hregular.late
    rw [← lostNumbers_late hlt hpos] at hcounted
    have hhighest : highest (history ++ [seqNum.toNat]) = highest history := by
      rw [highest_append, max_eq_left hlt.le]
    rw [hloop, Option.map_some]
    refine ⟨_, rfl, ⟨hcounted.size, hcounted.lost, ?_⟩, ?_, ?_⟩
    · rw [hhighest]
      exact hcounted.bits
    · change (if c.lastMaxSeqNum < seqNum then seqNum else c.lastMaxSeqNum).toNat = _
      rw [if_neg (by rw [hless]; omega), hhighest]
      exact h.lastMax
    · rw [hhighest]
      exact hmax
  · have hcounted := h.counted
    rw [← lostUpTo_start (n := seqNum.toNat) hpos] at hcounted
    obtain ⟨c', hloop, hsame, hcounted⟩ := notifyLoop_spec hlast hregular.zero hpos hfirst
      (Nat.le_refl _) hge (show seqNum.toNat < highest history + (2 ^ 32 + 1) by omega) hcounted
    rw [lostUpTo_end hge] at hcounted
    have hcounted := hcounted.setBit (Nat.le_refl _) fun hold => absurd hold (by omega)
    have hhighest : highest (history ++ [seqNum.toNat]) = seqNum.toNat := by
      rw [highest_append, max_eq_right hge]
    have hmaxNum : (if c'.lastMaxSeqNum < seqNum then seqNum else c'.lastMaxSeqNum) = seqNum := by
      rw [hsame]
      split
      · rfl
      · next hnot =>
        rw [hless] at hnot
        exact UInt32.toNat_inj.mp (by rw [h.lastMax]; omega)
    rw [hloop, Option.map_some]
    refine ⟨_, rfl, ⟨hcounted.size, hcounted.lost, ?_⟩, ?_, ?_⟩
    · rw [hhighest]
      exact hcounted.bits
    · change (if c'.lastMaxSeqNum < seqNum then seqNum else c'.lastMaxSeqNum).toNat = _
      rw [hmaxNum, hhighest]
    · rw [hhighest]
      omega

theorem new_exact {winSize : UInt16} (h8 : winSize % 8 = 0) (hpos : 0 < winSize.toNat) :
    ∃ c, new winSize = some c ∧ c.Exact winSize.toNat [] := by
  have hmod : winSize.toNat % 8 = 0 := by
    have hnat := congrArg UInt16.toNat h8
    rw [UInt16.toNat_mod] at hnat
    exact hnat
  have hnone : highest [] + 1 - winSize.toNat = 0 := Nat.sub_eq_zero_of_le hpos
  have hset : ∀ k : Fin 8, (0xFF : UInt8) >>> .ofNat (7 - k.val) &&& 1 == 1 := by decide
  unfold new
  rw [if_pos h8]
  refine ⟨_, rfl, ⟨Nat.div_mul_cancel (Nat.dvd_of_mod_eq_zero hmod), ?_, fun u _ hle => ?_⟩, rfl,
    by decide⟩
  · unfold lostNumbers
    rw [hnone, Finset.range_zero, Finset.filter_empty]
    rfl
  · exact iff_of_true (hset ⟨u % 8, Nat.mod_lt _ (by decide)⟩)
      (Or.inl (hle.trans_eq (Nat.zero_add _)))

/-! ## Runs -/

/-- Every call of a run is regular. -/
def RegularRun (window : ℕ) (events : List UInt32) : Prop :=
  ∀ done n rest, events = done ++ n :: rest → Regular window (done.map UInt32.toNat) n.toNat

/-- In a run of regular calls every call returns, and the counter is exact after it. -/
theorem lost_exact {winSize : UInt16} (h8 : winSize % 8 = 0) (hpos : 8 ≤ winSize)
    {events : List UInt32} (hregular : RegularRun winSize.toNat events) :
    ∃ start, new winSize = some start ∧ ∀ done rest, events = done ++ rest →
      ∃ c, run notifyReceived start done = some c ∧
        c.lost.toNat = (lostNumbers winSize.toNat (done.map UInt32.toNat)).card := by
  have hpos' : 0 < winSize.toNat := lt_of_lt_of_le (by decide) (UInt16.le_iff_toNat_le.mp hpos)
  obtain ⟨start, hstart, hexact⟩ := new_exact h8 hpos'
  refine ⟨start, hstart, ?_⟩
  have hrun : ∀ done rest, events = done ++ rest → ∃ c,
      run notifyReceived start done = some c ∧
        c.Exact winSize.toNat (done.map UInt32.toNat) := by
    intro done
    induction done using List.reverseRecOn with
    | nil => exact fun _ _ => ⟨start, rfl, hexact⟩
    | append_singleton done n ih =>
        intro rest hevents
        rw [List.append_assoc] at hevents
        obtain ⟨c, hc, hc'⟩ := ih _ hevents
        obtain ⟨next, hnext, hnext'⟩ := hc'.notifyReceived (hregular done n rest hevents) hpos'
        refine ⟨next, ?_, by rw [List.map_append]; exact hnext'⟩
        rw [run_append, hc, Option.bind_some, run_cons, hnext]
        rfl
  intro done rest hevents
  obtain ⟨c, hc, hexact'⟩ := hrun done rest hevents
  refine ⟨c, hc, ?_⟩
  rw [hexact'.counted.lost]
  refine UInt32.toNat_ofNat_of_lt' (lt_of_le_of_lt (Finset.card_filter_le _ _) ?_)
  rw [Finset.card_range]
  have hbound := hexact'.bound
  change _ < 2 ^ 32
  omega

/-- The first number, and then number 9. -/
theorem lost_exact_nine : ∃ start, new 8 = some start ∧ ∀ done rest, [0, 9] = done ++ rest →
    ∃ c, run notifyReceived start done = some c ∧
      c.lost.toNat = (lostNumbers 8 (done.map UInt32.toNat)).card := by
  refine @lost_exact 8 (by decide) (by decide) _ fun done n rest hevents => ?_
  rcases done with _ | ⟨first, _ | ⟨second, later⟩⟩
  · obtain ⟨rfl, -⟩ := List.cons.inj hevents
    exact ⟨by decide, fun h => absurd h (by decide), fun h => absurd h (by decide)⟩
  · obtain ⟨rfl, htail⟩ := List.cons.inj hevents
    obtain ⟨rfl, -⟩ := List.cons.inj htail
    exact ⟨by decide, fun _ => by decide, fun h => absurd h (by decide)⟩
  · simp at hevents

/-- The loop for the last number there is does not end. -/
theorem notifyLoop_last (fuel : ℕ) (i : UInt32) (c : PacketLossCounter) :
    notifyLoop (2 ^ 32 - 1) fuel i c = none := by
  induction fuel generalizing i c with
  | zero => rfl
  | succ fuel ih =>
      have hbound := i.toNat_lt
      unfold notifyLoop
      rw [if_pos, ih]
      rw [UInt32.le_iff_toNat_le]
      change i.toNat ≤ 4294967295
      omega

/-- Number 1 comes late by more than a window and sets the bit of number 9. So number 9 is not counted
when number 17 comes, although it was never received. -/
theorem lateNumber_not_counted :
    ((new 8).bind fun c => run notifyReceived c [0, 16, 1, 17]).map
        (fun c => c.lost) = some 8 ∧
      (lostNumbers 8 [0, 16, 1, 17]).card = 9 ∧ 9 ∈ lostNumbers 8 [0, 16, 1, 17] :=
  ⟨by decide +kernel, by decide, by decide⟩

end PacketLossCounter

end Ns3Rdma
