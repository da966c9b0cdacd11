import Ns3Rdma.Lib.StepSystem
import Ns3Rdma.Tcp.SequenceNumber

/-! # Karn's rule

The estimator keeps an entry for every segment that was sent, and measures the round-trip time of
the first entry that an acknowledgement removes. A retransmission marks only the entry in which it
begins, so the rule holds as long as it does not go beyond that entry. -/

namespace Ns3Rdma

open StepSystem

structure RttHistory where
  seq : SequenceNumber32
  count : UInt64
  time : ℕ
  nonMarked : UInt64
  marked : UInt64
  retx : Bool
deriving DecidableEq

/-- The members of `RttEstimator` that the history has to do with. -/
structure RttEstimator where
  next : SequenceNumber32
  history : List RttHistory
  sentBytes : UInt64
  marked : UInt64
  nonMarked : UInt64
deriving DecidableEq

namespace RttHistory

/-- The number after the last one of the entry. -/
def stop (i : RttHistory) : SequenceNumber32 := i.seq + i.count.toUInt32

/-- The test of `SentSeq` for the entry that has the number. -/
def Has (i : RttHistory) (seq : SequenceNumber32) : Prop := i.seq ≤ seq ∧ seq < i.stop

instance (i : RttHistory) (seq : SequenceNumber32) : Decidable (i.Has seq) :=
  inferInstanceAs (Decidable (_ ∧ _))

end RttHistory

namespace RttEstimator

def create : RttEstimator where
  next := ⟨1⟩
  history := []
  sentBytes := 0
  marked := 0
  nonMarked := 0

/-- The loop of `SentSeq` over the history, with the entries that it has passed. It ends at the
first entry that has the number. -/
def retransmitLoop (r : RttEstimator) (seq : SequenceNumber32) (size : UInt32) :
    List RttHistory → List RttHistory → RttEstimator
  | _, [] => r
  | passed, i :: rest =>
      if i.Has seq then
        let i := { i with retx := true, marked := r.marked, nonMarked := r.nonMarked }
        if r.next < seq + size then
          let count := UInt64.ofInt (seq + size - i.seq).toInt
          { r with
            next := seq + size
            sentBytes := r.sentBytes - i.count + count
            history := passed ++ { i with count := count } :: rest }
        else { r with history := passed ++ i :: rest }
      else retransmitLoop r seq size (passed ++ [i]) rest

/-- `SentSeq`. -/
def sentSeq (r : RttEstimator) (seq : SequenceNumber32) (size : UInt32) (now : ℕ) :
    RttEstimator :=
  if seq = r.next then
    { r with
      history := r.history ++ [⟨seq, size.toUInt64, now, r.nonMarked, r.marked, false⟩]
      next := seq + size
      sentBytes := r.sentBytes + size.toUInt64 }
  else r.retransmitLoop seq size [] r.history

/-- The loop of `AckSeq`. The entry is the one that is measured. -/
def ackLoop (ackSeq : SequenceNumber32) (markedFlag : Bool) :
    Bool → RttEstimator → List RttHistory → Option RttHistory × RttEstimator
  | _, r, [] => (none, { r with history := [] })
  | updatedRtt, r, h :: rest =>
      if ackSeq < h.stop then (none, { r with history := h :: rest })
      else
        let r := if markedFlag then { r with marked := r.marked + 1 }
          else { r with nonMarked := r.nonMarked + 1 }
        let result := ackLoop ackSeq markedFlag true r rest
        (if updatedRtt = false ∧ h.retx = false then some h else result.1, result.2)

/-- `AckSeq`, with the entry that it measures. -/
def ackSeq (r : RttEstimator) (ackSeq : SequenceNumber32) (markedFlag : Bool) :
    Option RttHistory × RttEstimator :=
  ackLoop ackSeq markedFlag false r r.history

end RttEstimator

/-! ## The sender -/

/-- The estimator with the stream that is sent: its first unacknowledged byte, the end of what was
sent, and every transmission with its first byte and its size. -/
structure KarnWorld where
  rtt : RttEstimator
  una : ℕ
  nxt : ℕ
  transmissions : List (ℕ × UInt32)

inductive KarnEvent where
  | send (size : UInt32) (now : ℕ)
  | retransmit (size : UInt32) (now : ℕ)
  | ack (byte : ℕ) (markedFlag : Bool)

namespace KarnWorld

/-- The sequence number of a byte of the stream. -/
def seqOf (byte : ℕ) : SequenceNumber32 := (⟨1⟩ : SequenceNumber32).plus byte

def start : KarnWorld where
  rtt := .create
  una := 0
  nxt := 0
  transmissions := []

/-- Send the bytes of a segment. -/
def transmit (w : KarnWorld) (byte : ℕ) (size : UInt32) (now : ℕ) : KarnWorld :=
  { w with
    rtt := w.rtt.sentSeq (seqOf byte) size now
    nxt := max w.nxt (byte + size.toNat)
    transmissions := w.transmissions ++ [(byte, size)] }

/-- A first transmission goes on behind what was sent, and a retransmission begins at the first
unacknowledged byte. An acknowledgement is for bytes that were sent. -/
def step (w : KarnWorld) : KarnEvent → Option KarnWorld
  | .send size now => if size = 0 then none else some (w.transmit w.nxt size now)
  | .retransmit size now => if size = 0 then none else some (w.transmit w.una size now)
  | .ack byte markedFlag =>
      if byte ≤ w.nxt then
        some { w with
          rtt := (w.rtt.ackSeq (seqOf byte) markedFlag).2
          una := max w.una byte }
      else none

/-- How often a byte was transmitted. -/
def timesSent (w : KarnWorld) (byte : ℕ) : ℕ :=
  w.transmissions.countP fun t => t.1 ≤ byte ∧ byte < t.1 + t.2.toNat

/-- The first byte of an entry, counted back from the end of what was sent. -/
def firstByte (w : KarnWorld) (h : RttHistory) : ℕ := w.nxt - (seqOf w.nxt).distance h.seq

/-- The first byte of the oldest entry. -/
def oldest (w : KarnWorld) : ℕ := (w.rtt.history.head?.map w.firstByte).getD w.nxt

/-- The acknowledgement measures no entry of which a byte was transmitted more than once. -/
def KarnsRule (w : KarnWorld) : KarnEvent → Prop
  | .ack byte markedFlag => ∀ h, (w.rtt.ackSeq (seqOf byte) markedFlag).1 = some h →
      ∀ b, w.firstByte h ≤ b → b < w.firstByte h + h.count.toNat → w.timesSent b ≤ 1
  | _ => True

/-- A retransmission stays inside the oldest entry, unless that is the only one. The numbers that
are compared belong to less than 2^31 bytes. -/
def Aligned (w : KarnWorld) : KarnEvent → Prop
  | .send size _ => w.nxt + size.toNat < w.oldest + 2 ^ 31
  | .retransmit size _ => w.una + size.toNat < w.oldest + 2 ^ 31 ∧
      (w.rtt.history.length ≤ 1 ∨
        ∀ h ∈ w.rtt.history.head?, w.una + size.toNat ≤ w.oldest + h.count.toNat)
  | .ack byte _ => w.nxt < byte + 2 ^ 31

/-! ## The layout of the history -/

/-- The entries lie one behind the other between two bytes, and of those that are not marked no
byte was transmitted twice. -/
def Laid (times : ℕ → ℕ) (q : ℕ) : ℕ → List RttHistory → Prop
  | p, [] => p = q
  | p, h :: rest => h.seq = seqOf p ∧ 0 < h.count.toNat ∧
      (h.retx = false → ∀ b, p ≤ b → b < p + h.count.toNat → times b ≤ 1) ∧
        Laid times q (p + h.count.toNat) rest

/-- The history covers what is unacknowledged, and nothing behind the end was transmitted. -/
structure Inv (w : KarnWorld) (p : ℕ) : Prop where
  laid : Laid w.timesSent w.nxt p w.rtt.history
  first : ∀ h ∈ w.rtt.history.head?, w.una < p + h.count.toNat
  le_una : p ≤ w.una
  una_le : w.una ≤ w.nxt
  next_eq : w.rtt.next = seqOf w.nxt
  window : w.nxt < p + 2 ^ 31
  fresh : ∀ b, w.nxt ≤ b → w.timesSent b = 0

/-! ## Numbers of the stream -/

theorem seqOf_add (byte : ℕ) (size : UInt32) : seqOf byte + size = seqOf (byte + size.toNat) :=
  SequenceNumber32.plus_add _ _ _

theorem seqOf_eq_plus {m n : ℕ} (h : m ≤ n) : seqOf n = (seqOf m).plus (n - m) := by
  rw [seqOf, seqOf, SequenceNumber32.plus_plus, Nat.add_sub_cancel' h]

/-- Numbers of bytes that are less than 2^31 apart are ordered as the bytes. -/
theorem seqOf_lt_iff {m n : ℕ} (hmn : m < n + 2 ^ 31) (hnm : n < m + 2 ^ 31) :
    seqOf m < seqOf n ↔ m < n := by
  have hm := seqOf_eq_plus (Nat.min_le_left m n)
  have hn := seqOf_eq_plus (Nat.min_le_right m n)
  rw [hm, hn, SequenceNumber32.plus_lt_plus]
  · omega
  · omega
  · omega

theorem seqOf_le_iff {m n : ℕ} (hmn : m < n + 2 ^ 31) (hnm : n < m + 2 ^ 31) :
    seqOf m ≤ seqOf n ↔ m ≤ n := by
  rw [← SequenceNumber32.not_lt, seqOf_lt_iff hnm hmn, Nat.not_lt]

theorem seqOf_inj {m n : ℕ} (hmn : m ≤ n) (hnm : n < m + 2 ^ 31) : seqOf m = seqOf n ↔ m = n := by
  have hzero : seqOf m = (seqOf m).plus 0 := (SequenceNumber32.plus_zero _).symm
  rw [seqOf_eq_plus hmn]
  conv_lhs => lhs; rw [hzero]
  rw [SequenceNumber32.plus_inj (by decide) (by omega)]
  omega

theorem stop_eq {h : RttHistory} {p : ℕ} (hseq : h.seq = seqOf p)
    (hcount : h.count.toNat < 2 ^ 32) : h.stop = seqOf (p + h.count.toNat) := by
  rw [RttHistory.stop, hseq, seqOf_add, UInt64.toNat_toUInt32, Nat.mod_eq_of_lt hcount]

variable {w : KarnWorld} {h : RttHistory} {p q : ℕ} {times times' : ℕ → ℕ}
  {history : List RttHistory}

theorem firstByte_eq (hseq : h.seq = seqOf p) (hle : p ≤ w.nxt) (hlt : w.nxt < p + 2 ^ 31) :
    w.firstByte h = p := by
  rw [firstByte, hseq, seqOf, seqOf, SequenceNumber32.distance_plus]
  omega

/-! ## Layouts -/

theorem Laid.le (hlaid : Laid times q p history) : p ≤ q := by
  induction history generalizing p with
  | nil => exact Nat.le_of_eq hlaid
  | cons h rest ih => exact Nat.le_of_add_right_le (ih hlaid.2.2.2)

theorem Laid.congr (hlaid : Laid times q p history)
    (hsame : ∀ b, p ≤ b → b < q → times' b = times b) : Laid times' q p history := by
  induction history generalizing p with
  | nil => exact hlaid
  | cons h rest ih =>
      obtain ⟨hseq, hpos, hclean, hrest⟩ := hlaid
      refine ⟨hseq, hpos, ?_, ?_⟩
      · intro hretx b hpb hbq
        have hle := hrest.le
        rw [hsame b hpb (by omega)]
        exact hclean hretx b hpb hbq
      · apply ih hrest
        intro b hpb hbq
        exact hsame b (by omega) hbq

theorem Laid.append (hlaid : Laid times q p history) (hseq : h.seq = seqOf q)
    (hpos : 0 < h.count.toNat) (hclean : ∀ b, q ≤ b → b < q + h.count.toNat → times b ≤ 1) :
    Laid times (q + h.count.toNat) p (history ++ [h]) := by
  induction history generalizing p with
  | nil =>
      obtain rfl := hlaid
      exact ⟨hseq, hpos, fun _ => hclean, rfl⟩
  | cons i rest ih =>
      obtain ⟨hiseq, hipos, hiclean, hrest⟩ := hlaid
      exact ⟨hiseq, hipos, hiclean, ih hrest⟩

theorem timesSent_transmit (w : KarnWorld) (byte : ℕ) (size : UInt32) (now b : ℕ) :
    (w.transmit byte size now).timesSent b =
      w.timesSent b + if byte ≤ b ∧ b < byte + size.toNat then 1 else 0 := by
  simp [timesSent, transmit, List.countP_append, List.countP_singleton]

theorem Inv.oldest_eq (hw : Inv w p) : w.oldest = p := by
  obtain ⟨hlaid, -, -, -, -, hwindow, -⟩ := hw
  unfold oldest
  cases hhistory : w.rtt.history with
  | nil =>
      rw [hhistory] at hlaid
      exact hlaid.symm
  | cons h rest =>
      rw [hhistory] at hlaid
      exact firstByte_eq hlaid.1 (hhistory ▸ hlaid |>.le) hwindow

/-! ## Transmissions -/

/-- A first transmission appends an entry, also one that begins at the first unacknowledged byte
because nothing is unacknowledged. -/
theorem Inv.send (hw : Inv w p) {size : UInt32} (now : ℕ) (hsize : 0 < size.toNat)
    (hwindow : w.nxt + size.toNat < p + 2 ^ 31) : Inv (w.transmit w.nxt size now) p := by
  have htimes := timesSent_transmit w w.nxt size now
  have hnxt : (w.transmit w.nxt size now).nxt = w.nxt + size.toNat :=
    Nat.max_eq_right (Nat.le_add_right _ _)
  have hcount : size.toUInt64.toNat = size.toNat := UInt32.toNat_toUInt64 size
  have hrtt : (w.transmit w.nxt size now).rtt = { w.rtt with
      history := w.rtt.history ++
        [⟨seqOf w.nxt, size.toUInt64, now, w.rtt.nonMarked, w.rtt.marked, false⟩]
      next := seqOf w.nxt + size
      sentBytes := w.rtt.sentBytes + size.toUInt64 } := by
    rw [transmit, RttEstimator.sentSeq, if_pos hw.next_eq.symm]
  refine ⟨?_, ?_, hw.le_una, ?_, ?_, ?_, ?_⟩
  · rw [hnxt, hrtt]
    have hkept : Laid (w.transmit w.nxt size now).timesSent w.nxt p w.rtt.history := by
      apply hw.laid.congr
      intro b _ hlt
      rw [htimes, if_neg (by omega), Nat.add_zero]
    have happend := hkept.append
      (h := ⟨seqOf w.nxt, size.toUInt64, now, w.rtt.nonMarked, w.rtt.marked, false⟩) rfl
      (by rw [hcount]; exact hsize) (by
        intro b hle _
        rw [htimes, hw.fresh b hle]
        split <;> omega)
    rwa [hcount] at happend
  · rw [hrtt]
    intro h hh
    cases hhistory : w.rtt.history with
    | nil =>
        have hlaid := hw.laid
        rw [hhistory] at hlaid hh
        obtain rfl := Option.some.inj hh
        have hle := hw.una_le
        have heq : p = w.nxt := hlaid
        change w.una < p + size.toUInt64.toNat
        omega
    | cons i rest =>
        rw [hhistory] at hh
        exact hw.first h (by rw [hhistory]; exact hh)
  · rw [hnxt]
    exact hw.una_le.trans (Nat.le_add_right _ _)
  · rw [hnxt, hrtt]
    exact seqOf_add _ _
  · rw [hnxt]
    exact hwindow
  · intro b hle
    rw [hnxt] at hle
    rw [htimes, if_neg (by omega), hw.fresh b (by omega)]

theorem toNat_ofInt {d : ℤ} {n : ℕ} (hd : d = n) (hn : n < 2 ^ 64) :
    (UInt64.ofInt d).toNat = n := by
  rw [hd, UInt64.ofInt, UInt64.toNat_ofNat']
  omega

/-- The loop ends at the oldest entry, which has the first unacknowledged byte. -/
theorem Inv.retransmitLoop_eq (hw : Inv w p) {rest : List RttHistory}
    (hhistory : w.rtt.history = h :: rest) (size : UInt32) (now : ℕ)
    (hwindow : w.una + size.toNat < p + 2 ^ 31) :
    ∃ i : RttHistory, i.seq = h.seq ∧ i.retx = true ∧
      i.count.toNat =
        (if w.nxt < w.una + size.toNat then w.una + size.toNat - p else h.count.toNat) ∧
      (w.transmit w.una size now).rtt.history = i :: rest ∧
      (w.transmit w.una size now).rtt.next = seqOf (max w.nxt (w.una + size.toNat)) := by
  have hlaid := hw.laid
  rw [hhistory] at hlaid
  obtain ⟨hseq, hpos, -, hrest⟩ := hlaid
  have hle := hrest.le
  have hlt : w.una < p + h.count.toNat := hw.first h (by rw [hhistory]; rfl)
  have hple := hw.le_una
  have hnxt := hw.window
  have hstop := stop_eq hseq (by omega)
  have hne : seqOf w.una ≠ w.rtt.next := by
    rw [hw.next_eq, Ne, seqOf_inj hw.una_le (by omega)]
    omega
  have hhas : h.Has (seqOf w.una) := by
    refine ⟨?_, ?_⟩
    · rw [hseq, seqOf_le_iff (by omega) (by omega)]
      exact hple
    · rw [hstop, seqOf_lt_iff (by omega) (by omega)]
      exact hlt
  have hextends : w.rtt.next < seqOf w.una + size ↔ w.nxt < w.una + size.toNat := by
    rw [hw.next_eq, seqOf_add, seqOf_lt_iff (by omega) (by omega)]
  have hrtt : (w.transmit w.una size now).rtt =
      w.rtt.retransmitLoop (seqOf w.una) size [] (h :: rest) := by
    rw [transmit, RttEstimator.sentSeq, if_neg hne, hhistory]
  rw [hrtt, RttEstimator.retransmitLoop, if_pos hhas]
  by_cases hbeyond : w.nxt < w.una + size.toNat
  · -- the entry grows up to the end of the segment
    have hdistance : (seqOf w.una + size - h.seq).toInt = (w.una + size.toNat - p : ℕ) := by
      rw [seqOf_add, hseq, SequenceNumber32.toInt_sub]
      have hd : (seqOf (w.una + size.toNat)).distance (seqOf p) = w.una + size.toNat - p := by
        rw [seqOf, seqOf, SequenceNumber32.distance_plus]
        omega
      rw [hd, if_pos (by omega)]
    simp only [hextends, hbeyond, if_true]
    refine ⟨{ h with
        retx := true
        marked := w.rtt.marked
        nonMarked := w.rtt.nonMarked
        count := UInt64.ofInt (seqOf w.una + size - h.seq).toInt },
      rfl, rfl, toNat_ofInt hdistance (by omega), rfl, ?_⟩
    rw [seqOf_add, Nat.max_eq_right hbeyond.le]
  · simp only [hextends, hbeyond, if_false]
    refine ⟨{ h with
        retx := true
        marked := w.rtt.marked
        nonMarked := w.rtt.nonMarked }, rfl, rfl, rfl, rfl, ?_⟩
    rw [hw.next_eq, Nat.max_eq_left (Nat.le_of_not_lt hbeyond)]

/-- A retransmission that stays inside the oldest entry, or extends the only one. -/
theorem Inv.retransmit (hw : Inv w p) {size : UInt32} (now : ℕ) (hsize : 0 < size.toNat)
    (hwindow : w.una + size.toNat < p + 2 ^ 31)
    (hinside : w.rtt.history.length ≤ 1 ∨
      ∀ h ∈ w.rtt.history.head?, w.una + size.toNat ≤ p + h.count.toNat) :
    Inv (w.transmit w.una size now) p := by
  have htimes := timesSent_transmit w w.una size now
  cases hhistory : w.rtt.history with
  | nil =>
      have hlaid := hw.laid
      rw [hhistory] at hlaid
      have heq : w.una = w.nxt := by
        have hp : p = w.nxt := hlaid
        exact Nat.le_antisymm hw.una_le (hp ▸ hw.le_una)
      rw [heq] at hwindow ⊢
      exact hw.send now hsize hwindow
  | cons h rest =>
      obtain ⟨i, hseq, hretx, hcount, hnew, hnext⟩ :=
        hw.retransmitLoop_eq hhistory size now hwindow
      have hnxt : (w.transmit w.una size now).nxt = max w.nxt (w.una + size.toNat) := rfl
      have hlt : w.una < p + h.count.toNat := hw.first h (by rw [hhistory]; rfl)
      have hlaid := hw.laid
      rw [hhistory] at hlaid hinside
      obtain ⟨hhseq, hpos, -, hrest⟩ := hlaid
      have hle := hrest.le
      have hends : rest = [] ∨ w.una + size.toNat ≤ p + h.count.toNat := by
        refine hinside.imp (fun hone => ?_) fun hfront => hfront h rfl
        apply List.eq_nil_of_length_eq_zero
        simpa using hone
      refine ⟨?_, ?_, hw.le_una, ?_, hnext, ?_, ?_⟩
      · rw [hnew, hnxt]
        refine ⟨hseq.trans hhseq, ?_,
          fun hclear => absurd (hretx.symm.trans hclear) (by decide), ?_⟩
        · rw [hcount]
          split <;> omega
        · by_cases hbeyond : w.nxt < w.una + size.toNat
          · rw [if_pos hbeyond] at hcount
            have hnil : rest = [] := hends.resolve_right (by omega)
            rw [hnil, hcount, Nat.max_eq_right hbeyond.le]
            have hple := hw.le_una
            change p + (w.una + size.toNat - p) = w.una + size.toNat
            omega
          · rw [if_neg hbeyond] at hcount
            have hend : w.una + size.toNat ≤ p + h.count.toNat := by
              rcases hends with hnil | hend
              · rw [hnil] at hrest
                have heq : p + h.count.toNat = w.nxt := hrest
                omega
              · exact hend
            rw [hcount, Nat.max_eq_left (Nat.le_of_not_lt hbeyond)]
            apply hrest.congr
            intro b hpb _
            rw [htimes, if_neg (by omega), Nat.add_zero]
      · rw [hnew]
        intro j hj
        obtain rfl := Option.some.inj hj
        rw [hcount]
        change w.una < _
        split <;> omega
      · rw [hnxt]
        exact hw.una_le.trans (Nat.le_max_left _ _)
      · rw [hnxt]
        exact max_lt hw.window hwindow
      · intro b hb
        rw [hnxt, max_le_iff] at hb
        rw [htimes, if_neg (by omega), hw.fresh b hb.1]

/-! ## Acknowledgements -/

/-- What an acknowledgement leaves of the history. Only the oldest entry can be measured. -/
structure Acked (times : ℕ → ℕ) (q p byte : ℕ) (updatedRtt : Bool) (r : RttEstimator)
    (history : List RttHistory) (result : Option RttHistory × RttEstimator) (p' : ℕ) : Prop where
  laid : Laid times q p' result.2.history
  next_eq : result.2.next = r.next
  le : p ≤ p'
  le_max : p' ≤ max byte p
  left : ∀ h ∈ result.2.history.head?, byte < p' + h.count.toNat
  kept_or : p' = p ∧ result.2.history = history ∨
    ∃ h ∈ history.head?, p + h.count.toNat ≤ p'
  measured : ∀ h ∈ result.1, updatedRtt = false ∧ h.retx = false ∧ history.head? = some h

theorem ackLoop_spec {byte : ℕ} {markedFlag updatedRtt : Bool} {r : RttEstimator}
    (hlaid : Laid times q p history) (hwindow : q < p + 2 ^ 31) (hbyte : byte ≤ q)
    (hrecent : q < byte + 2 ^ 31) :
    ∃ p', Acked times q p byte updatedRtt r history
      (RttEstimator.ackLoop (seqOf byte) markedFlag updatedRtt r history) p' := by
  induction history generalizing p updatedRtt r with
  | nil =>
      refine ⟨p, hlaid, rfl, Nat.le_refl p, Nat.le_max_right _ _, ?_,
        Or.inl ⟨rfl, rfl⟩, ?_⟩
      · intro h hh
        cases hh
      · intro h hh
        cases hh
  | cons i rest ih =>
      obtain ⟨hseq, hpos, hclean, hrest⟩ := hlaid
      have hle := hrest.le
      have hstop : seqOf byte < i.stop ↔ byte < p + i.count.toNat := by
        rw [stop_eq hseq (by omega), seqOf_lt_iff (by omega) (by omega)]
      rw [RttEstimator.ackLoop]
      by_cases hbefore : byte < p + i.count.toNat
      · rw [if_pos (hstop.mpr hbefore)]
        refine ⟨p, ⟨hseq, hpos, hclean, hrest⟩, rfl, Nat.le_refl p,
          Nat.le_max_right _ _, ?_,
          Or.inl ⟨rfl, rfl⟩, ?_⟩
        · intro h hh
          obtain rfl := Option.some.inj hh
          exact hbefore
        · intro h hh
          cases hh
      · rw [if_neg (mt hstop.mp hbefore)]
        obtain ⟨p', hp'⟩ := @ih (p + i.count.toNat) true
          (if markedFlag then { r with marked := r.marked + 1 }
            else { r with nonMarked := r.nonMarked + 1 }) hrest (by omega)
        have hgrown := hp'.le
        refine ⟨p', hp'.laid, ?_, Nat.le_of_add_right_le hgrown, ?_, hp'.left,
          Or.inr ⟨i, rfl, hgrown⟩, ?_⟩
        · rw [hp'.next_eq]
          split <;> rfl
        · have hmax := hp'.le_max
          omega
        · intro h hh
          dsimp only at hh
          split at hh
          next hfirst =>
              obtain rfl := Option.some.inj hh
              exact ⟨hfirst.1, hfirst.2, rfl⟩
          next =>
              obtain ⟨hcontra, -⟩ := hp'.measured h hh
              cases hcontra

theorem Inv.ack (hw : Inv w p) {byte : ℕ} {markedFlag : Bool} (hbyte : byte ≤ w.nxt)
    (hrecent : w.nxt < byte + 2 ^ 31) :
    (∃ p', Inv { w with
        rtt := (w.rtt.ackSeq (seqOf byte) markedFlag).2
        una := max w.una byte } p') ∧
      w.KarnsRule (.ack byte markedFlag) := by
  obtain ⟨p', hp'⟩ : ∃ p', Acked w.timesSent w.nxt p byte false w.rtt w.rtt.history
      (w.rtt.ackSeq (seqOf byte) markedFlag) p' :=
    ackLoop_spec hw.laid hw.window hbyte hrecent
  refine ⟨⟨p', hp'.laid, ?_, ?_, max_le hw.una_le hbyte, hp'.next_eq.trans hw.next_eq, ?_,
    hw.fresh⟩, ?_⟩
  · intro h hh
    refine max_lt ?_ (hp'.left h hh)
    rcases hp'.kept_or with ⟨heq, hsame⟩ | ⟨i, hi, hgrown⟩
    · rw [heq]
      apply hw.first h
      rw [← hsame]
      exact hh
    · -- what was removed reaches behind the first unacknowledged byte
      have hfirst := hw.first i hi
      omega
  · have hmax := hp'.le_max
    have hle := hw.le_una
    change p' ≤ max w.una byte
    omega
  · have hle := hp'.le
    have hwindow := hw.window
    change w.nxt < p' + 2 ^ 31
    omega
  · intro h hh b hfirst hlast
    obtain ⟨-, hretx, hhead⟩ := hp'.measured h hh
    have hlaid := hw.laid
    cases hhistory : w.rtt.history with
    | nil =>
        rw [hhistory] at hhead
        cases hhead
    | cons i rest =>
        rw [hhistory] at hhead hlaid
        obtain rfl := Option.some.inj hhead
        have hbyte := firstByte_eq hlaid.1 (hw.le_una.trans hw.una_le) hw.window
        rw [hbyte] at hfirst hlast
        exact hlaid.2.2.1 hretx b hfirst hlast

/-! ## Runs -/

theorem inv_start : Inv start 0 where
  laid := rfl
  first h hh := by cases hh
  le_una := Nat.le_refl 0
  una_le := Nat.le_refl 0
  next_eq := rfl
  window := by decide
  fresh b _ := rfl

theorem inv_step (hw : Inv w p) {event : KarnEvent} {next : KarnWorld}
    (hstep : step w event = some next) (haligned : w.Aligned event) : ∃ p', Inv next p' := by
  have holdest := hw.oldest_eq
  cases event with
  | send size now =>
      rw [step] at hstep
      split at hstep
      next => cases hstep
      next hsize =>
          obtain rfl := Option.some.inj hstep
          rw [Aligned, holdest] at haligned
          exact ⟨p, hw.send now (Nat.pos_of_ne_zero fun hzero =>
            hsize (UInt32.toNat_inj.mp hzero)) haligned⟩
  | retransmit size now =>
      rw [step] at hstep
      split at hstep
      next => cases hstep
      next hsize =>
          obtain rfl := Option.some.inj hstep
          rw [Aligned, holdest] at haligned
          exact ⟨p, hw.retransmit now (Nat.pos_of_ne_zero fun hzero =>
            hsize (UInt32.toNat_inj.mp hzero)) haligned.1 haligned.2⟩
  | ack byte markedFlag =>
      rw [step] at hstep
      split at hstep
      next hbyte =>
          obtain rfl := Option.some.inj hstep
          exact (hw.ack hbyte haligned).1
      next => cases hstep

/-- In a run in which every retransmission stays inside the oldest entry or extends the only one,
no measurement is taken from an entry with a byte that was transmitted more than once. -/
theorem karns_rule {events : List KarnEvent}
    (haligned : EachStep step (fun w event _ => w.Aligned event) start events) :
    EachStep step (fun w event _ => w.KarnsRule event) start events := by
  have hinv : Throughout step (fun w => ∃ p, Inv w p) start events := by
    refine throughout_of_eachStep (I := fun w => ∃ p, Inv w p) ?_ ⟨0, inv_start⟩
      haligned
    rintro w event next ⟨p, hw⟩ hstep hcond
    exact inv_step hw hstep hcond
  intro done event rest w next heq hrun hstep
  obtain ⟨p, hw⟩ := hinv done (event :: rest) w heq hrun
  have hcond := haligned done event rest w next heq hrun hstep
  cases event with
  | send size now => trivial
  | retransmit size now => trivial
  | ack byte markedFlag =>
      rw [step] at hstep
      split at hstep
      next hbyte => exact (hw.ack hbyte hcond).2
      next => cases hstep

instance (w : KarnWorld) : (event : KarnEvent) → Decidable (w.Aligned event)
  | .send _ _ => inferInstanceAs (Decidable (_ < _))
  | .retransmit _ _ => inferInstanceAs (Decidable (_ ∧ (_ ∨ ∀ h ∈ w.rtt.history.head?, _ ≤ _)))
  | .ack _ _ => inferInstanceAs (Decidable (_ < _))

/-- Two segments, of which the first is lost and sent again. -/
def lostSegment : List KarnEvent :=
  [.send 500 0, .send 500 1, .retransmit 500 5, .ack 500 false, .send 700 6, .ack 1000 false,
    .ack 1700 false]

theorem karns_rule_lostSegment :
    EachStep step (fun w event _ => w.KarnsRule event) start lostSegment :=
  karns_rule (eachStep_of_take (by decide +kernel))

/-- Two segments that are sent again as one, and acknowledged one after the other. -/
def mergedSegments : List KarnEvent :=
  [.send 500 0, .send 500 1, .retransmit 1000 5, .ack 500 false]

/-- The second acknowledgement measures the second segment. -/
theorem not_karns_rule_merged : ¬ ∀ events : List KarnEvent,
    EachStep step (fun w event _ => w.KarnsRule event) start events := by
  intro h
  have hsome : (run step start mergedSegments).isSome = true := by decide +kernel
  obtain ⟨w, hrun⟩ := Option.isSome_iff_exists.mp hsome
  have hmeasured : ((run step start mergedSegments).all fun w =>
      1000 ≤ w.nxt ∧ (w.rtt.ackSeq (seqOf 1000) false).1 =
        some ⟨seqOf 500, 500, 1, 0, 0, false⟩ ∧
        w.firstByte ⟨seqOf 500, 500, 1, 0, 0, false⟩ = 500 ∧ w.timesSent 500 = 2) = true := by
    decide +kernel
  rw [hrun, Option.all_some, decide_eq_true_eq] at hmeasured
  obtain ⟨hbyte, hack, hfirst, htimes⟩ := hmeasured
  have hrule := h (mergedSegments ++ [.ack 1000 false]) mergedSegments (.ack 1000 false) [] w _ rfl
    hrun (if_pos hbyte) _ hack 500 hfirst.le (by rw [hfirst]; decide)
  omega

end KarnWorld

end Ns3Rdma
