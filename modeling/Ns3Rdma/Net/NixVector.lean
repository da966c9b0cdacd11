import Mathlib.Data.Nat.Bitwise
import Mathlib.Algebra.BigOperators.Group.List.Basic
import Mathlib.Data.List.Induction
import Mathlib.Data.List.Infix

/-!
# Neighbor indices in a nix-vector

A route is a stack of neighbor indices of a few bits each, packed into 32-bit words.
`AddNeighborIndex` fills the words from the low end and `ExtractNeighborIndex` takes the
bits back from the high end. A shift of a 32-bit word by 32 or more is undefined in C++,
so the model refuses it, as it refuses a call that ends in a fatal error.
-/

namespace NixVector

/-- `bits << amount` on a `uint32_t`. -/
def shiftLeft (bits amount : ℕ) : Option ℕ :=
  if amount < 32 then some ((bits <<< amount) % 2 ^ 32) else none

/-- `bits >> amount` on a `uint32_t`. -/
def shiftRight (bits amount : ℕ) : Option ℕ :=
  if amount < 32 then some (bits >>> amount) else none

end NixVector

/-- The members of `NixVector`, all of them `uint32_t`. -/
structure NixVector where
  nixVector : List ℕ
  used : ℕ
  currentVectorBitSize : ℕ
  totalBitSize : ℕ
  deriving DecidableEq, Repr

namespace NixVector

/-- The constructor pushes one empty word. -/
def create : NixVector := ⟨[0], 0, 0, 0⟩

/-- `m_nixVector.back () = bits` -/
def setBack (words : List ℕ) (bits : ℕ) : List ℕ := words.dropLast ++ [bits]

/-- `AddNeighborIndex`: `none` on the fatal error, or where a shift is undefined. -/
def addNeighborIndex (nix : NixVector) (newBits numberOfBits : ℕ) : Option NixVector :=
  if 32 < numberOfBits then none
  else if 32 < nix.currentVectorBitSize + numberOfBits then
    if nix.currentVectorBitSize = 32 then
      some { nix with
        nixVector := nix.nixVector ++ [newBits]
        currentVectorBitSize := numberOfBits
        totalBitSize := (nix.totalBitSize + numberOfBits) % 2 ^ 32 }
    else do
      let back ← nix.nixVector.getLast?
      let low ← shiftLeft newBits nix.currentVectorBitSize
      let high ← shiftRight newBits (32 - nix.currentVectorBitSize)
      some { nix with
        nixVector := setBack nix.nixVector (low ||| back) ++ [high]
        currentVectorBitSize := numberOfBits - (32 - nix.currentVectorBitSize)
        totalBitSize := (nix.totalBitSize + numberOfBits) % 2 ^ 32 }
  else do
    let back ← nix.nixVector.getLast?
    let bits ← shiftLeft newBits nix.currentVectorBitSize
    some { nix with
      nixVector := setBack nix.nixVector (bits ||| back)
      currentVectorBitSize := nix.currentVectorBitSize + numberOfBits
      totalBitSize := (nix.totalBitSize + numberOfBits) % 2 ^ 32 }

/-- `GetRemainingBits`, a `uint32_t` difference. -/
def remainingBits (nix : NixVector) : ℕ := (nix.totalBitSize + 2 ^ 32 - nix.used) % 2 ^ 32

/-- The index that `ExtractNeighborIndex` reads off the words. -/
def extractedBits (words : List ℕ) (totalRemainingBits numberOfBits : ℕ) : Option ℕ :=
  let vectorIndex := (totalRemainingBits - 1) / 32
  if 0 < vectorIndex ∧ (totalRemainingBits - 1) % 32 < numberOfBits - 1 then do
    let word ← words[vectorIndex]?
    let bits ← shiftLeft word (32 - totalRemainingBits % 32)
    let high ← shiftRight bits
      ((32 - totalRemainingBits % 32) - (numberOfBits - totalRemainingBits % 32))
    let before ← words[vectorIndex - 1]?
    let low ← shiftRight before (32 - (numberOfBits - totalRemainingBits % 32))
    some (high ||| low)
  else do
    let word ← words[vectorIndex]?
    let bits ← shiftLeft word (32 - totalRemainingBits % 32)
    shiftRight bits (32 - numberOfBits)

/-- `ExtractNeighborIndex`: `none` on its fatal errors, or where a shift is undefined. -/
def extractNeighborIndex (nix : NixVector) (numberOfBits : ℕ) : Option (ℕ × NixVector) :=
  if 32 < numberOfBits then none
  else if nix.remainingBits < numberOfBits then none
  else if numberOfBits = 0 then none
  else do
    let bits ← extractedBits nix.nixVector nix.remainingBits numberOfBits
    some (bits, { nix with used := (nix.used + numberOfBits) % 2 ^ 32 })

/-- Add indices one after the other, each with its number of bits. -/
def addAll : NixVector → List (ℕ × ℕ) → Option NixVector
  | nix, [] => some nix
  | nix, (newBits, numberOfBits) :: rest =>
      (nix.addNeighborIndex newBits numberOfBits).bind fun next => next.addAll rest

/-- Extract indices one after the other, given their numbers of bits. -/
def extractAll : NixVector → List ℕ → Option (List ℕ)
  | _, [] => some []
  | nix, numberOfBits :: rest =>
      (nix.extractNeighborIndex numberOfBits).bind fun (bits, next) =>
        (next.extractAll rest).map (bits :: ·)

/-! ### The words as one stream of bits -/

/-- The number of bits of a sequence of indices. -/
def totalBits (items : List (ℕ × ℕ)) : ℕ := (items.map Prod.snd).sum

/-- The indices one above the other, the first in the lowest bits. -/
def stream : List (ℕ × ℕ) → ℕ
  | [] => 0
  | (bits, numberOfBits) :: rest => bits ||| stream rest <<< numberOfBits

/-- Each index fits in its number of bits, which a word can hold. -/
def Fits (items : List (ℕ × ℕ)) : Prop :=
  ∀ item ∈ items, 1 ≤ item.2 ∧ item.2 ≤ 32 ∧ item.1 < 2 ^ item.2

/-- The words hold the stream: bit `i` of word `j` is bit `32 j + i`. -/
def Spell (words : List ℕ) (bits : ℕ) : Prop :=
  ∀ j, ∀ i < 32, (words[j]?.getD 0).testBit i = bits.testBit (32 * j + i)

@[simp] theorem totalBits_nil : totalBits [] = 0 := rfl

@[simp] theorem totalBits_cons (item : ℕ × ℕ) (rest : List (ℕ × ℕ)) :
    totalBits (item :: rest) = item.2 + totalBits rest := by
  simp [totalBits]

@[simp] theorem totalBits_append (first second : List (ℕ × ℕ)) :
    totalBits (first ++ second) = totalBits first + totalBits second := by
  simp [totalBits]

theorem stream_append (first second : List (ℕ × ℕ)) :
    stream (first ++ second) = stream first ||| stream second <<< totalBits first := by
  induction first with
  | nil => simp [stream]
  | cons item rest ih =>
      rw [List.cons_append, stream, stream, ih, totalBits_cons, Nat.shiftLeft_or_distrib,
        ← Nat.shiftLeft_add, Nat.lor_assoc, Nat.add_comm (totalBits rest)]

theorem stream_lt {items : List (ℕ × ℕ)} (hfits : Fits items) :
    stream items < 2 ^ totalBits items := by
  induction items with
  | nil => simp [stream]
  | cons item rest ih =>
      have hitem := hfits item List.mem_cons_self
      have hrest := ih fun other hother => hfits other (List.mem_cons_of_mem _ hother)
      rw [stream, totalBits_cons]
      apply Nat.or_lt_two_pow
      · exact hitem.2.2.trans_le (Nat.pow_le_pow_right (by decide) (Nat.le_add_right _ _))
      · rw [Nat.shiftLeft_eq, Nat.add_comm, Nat.pow_add]
        exact Nat.mul_lt_mul_of_pos_right hrest (Nat.two_pow_pos _)

/-- A new word continues the stream where the words end. -/
theorem Spell.push {words : List ℕ} {bits word : ℕ} (h : Spell words bits)
    (hbits : bits < 2 ^ (32 * words.length)) (hword : word < 2 ^ 32) :
    Spell (words ++ [word]) (bits ||| word <<< (32 * words.length)) := by
  intro j i hi
  rw [Nat.testBit_or, Nat.testBit_shiftLeft]
  rcases Nat.lt_trichotomy j words.length with hj | rfl | hj
  · have hlow : ¬ 32 * words.length ≤ 32 * j + i := by omega
    simp [List.getElem?_append_left hj, h j i hi, hlow]
  · have hover : bits.testBit (32 * words.length + i) = false :=
      Nat.testBit_lt_two_pow (hbits.trans_le (Nat.pow_le_pow_right (by decide) (by omega)))
    simp [hover]
  · have hbitsOver : bits.testBit (32 * j + i) = false :=
      Nat.testBit_lt_two_pow (hbits.trans_le (Nat.pow_le_pow_right (by decide) (by omega)))
    have hwordOver : word.testBit (32 * j + i - 32 * words.length) = false :=
      Nat.testBit_lt_two_pow (hword.trans_le (Nat.pow_le_pow_right (by decide) (by omega)))
    have hout : (words ++ [word]).length ≤ j := by simp; omega
    simp [List.getElem?_eq_none hout, hbitsOver, hwordOver]

/-- Bits that are or-ed into the last word are or-ed into the stream at its place. -/
theorem Spell.setBack {front : List ℕ} {last bits word : ℕ} (h : Spell (front ++ [last]) bits)
    (hword : word < 2 ^ 32) :
    Spell (front ++ [word ||| last]) (bits ||| word <<< (32 * front.length)) := by
  intro j i hi
  have hold := h j i hi
  rw [Nat.testBit_or, Nat.testBit_shiftLeft]
  rcases Nat.lt_trichotomy j front.length with hj | rfl | hj
  · have hlow : ¬ 32 * front.length ≤ 32 * j + i := by omega
    rw [List.getElem?_append_left hj] at hold ⊢
    simp [hold, hlow]
  · simp at hold
    simp [hold, Bool.or_comm]
  · have hout : (front ++ [word ||| last]).length ≤ j := by simp; omega
    have hout' : (front ++ [last]).length ≤ j := by simp; omega
    have hwordOver : word.testBit (32 * j + i - 32 * front.length) = false :=
      Nat.testBit_lt_two_pow (hword.trans_le (Nat.pow_le_pow_right (by decide) (by omega)))
    rw [List.getElem?_eq_none hout'] at hold
    rw [List.getElem?_eq_none hout, ← hold, hwordOver]
    simp

/-- The vector holds a stream of a given length, none of it extracted yet. -/
structure Holds (nix : NixVector) (bits total : ℕ) : Prop where
  words : ∃ front last, nix.nixVector = front ++ [last] ∧
    total = 32 * front.length + nix.currentVectorBitSize
  size : nix.currentVectorBitSize ≤ 32
  spell : Spell nix.nixVector bits
  word_lt : ∀ word ∈ nix.nixVector, word < 2 ^ 32
  bits_lt : bits < 2 ^ total
  totalBitSize : nix.totalBitSize = total % 2 ^ 32
  used : nix.used = 0

theorem create_holds : Holds create 0 0 where
  words := ⟨[], 0, rfl, rfl⟩
  size := by decide
  spell := by
    intro j i _
    cases j <;> simp [create]
  word_lt := by simp [create]
  bits_lt := by decide
  totalBitSize := rfl
  used := rfl

theorem shiftLeft_eq_some {bits amount : ℕ} (h : amount < 32) :
    shiftLeft bits amount = some ((bits <<< amount) % 2 ^ 32) := if_pos h

theorem shiftRight_eq_some {bits amount : ℕ} (h : amount < 32) :
    shiftRight bits amount = some (bits >>> amount) := if_pos h

/-- The part of an index that does not fit in a word goes on in the next one. -/
theorem shiftLeft_split (bits amount : ℕ) (h : amount ≤ 32) :
    bits <<< amount = (bits <<< amount) % 2 ^ 32 ||| (bits >>> (32 - amount)) <<< 32 := by
  apply Nat.eq_of_testBit_eq
  intro i
  simp only [Nat.testBit_or, Nat.testBit_mod_two_pow, Nat.testBit_shiftLeft,
    Nat.testBit_shiftRight]
  by_cases hi : i < 32
  · simp [hi]
  · have hindex : 32 - amount + (i - 32) = i - amount := by omega
    have hfits : amount ≤ i := by omega
    simp [hi, hindex, hfits, Nat.le_of_not_lt hi]

section Add

variable {nix next : NixVector} {bits total newBits numberOfBits last : ℕ} {front : List ℕ}

/-- Words that spell the stream with an index above it hold it. -/
theorem Holds.above (h : Holds nix bits total) (hfit : newBits < 2 ^ numberOfBits)
    (hwords : next.nixVector = front ++ [last])
    (htotal : total + numberOfBits = 32 * front.length + next.currentVectorBitSize)
    (hsize : next.currentVectorBitSize ≤ 32)
    (hspell : Spell next.nixVector (bits ||| newBits <<< total))
    (hword : ∀ word ∈ next.nixVector, word < 2 ^ 32)
    (hsum : next.totalBitSize = (nix.totalBitSize + numberOfBits) % 2 ^ 32)
    (hused : next.used = nix.used) :
    Holds next (bits ||| newBits <<< total) (total + numberOfBits) where
  words := ⟨front, last, hwords, htotal⟩
  size := hsize
  spell := hspell
  word_lt := hword
  bits_lt := by
    apply Nat.or_lt_two_pow
    · exact h.bits_lt.trans_le (Nat.pow_le_pow_right (by decide) (Nat.le_add_right _ _))
    · rw [Nat.shiftLeft_eq, Nat.add_comm, Nat.pow_add]
      exact Nat.mul_lt_mul_of_pos_right hfit (Nat.two_pow_pos _)
  totalBitSize := by rw [hsum, h.totalBitSize, Nat.mod_add_mod]
  used := hused.trans h.used

/-- With a full last word the index is a new one. -/
theorem Holds.newWord (h : Holds nix bits total) (hmax : numberOfBits ≤ 32)
    (hfit : newBits < 2 ^ numberOfBits) (hfull : nix.currentVectorBitSize = 32) :
    Holds { nix with
      nixVector := nix.nixVector ++ [newBits]
      currentVectorBitSize := numberOfBits
      totalBitSize := (nix.totalBitSize + numberOfBits) % 2 ^ 32 }
      (bits ||| newBits <<< total) (total + numberOfBits) := by
  obtain ⟨front, last, hwords, htotal⟩ := h.words
  have hword : newBits < 2 ^ 32 := hfit.trans_le (Nat.pow_le_pow_right (by decide) hmax)
  have hlength : total = 32 * nix.nixVector.length := by
    rw [hwords, List.length_append, List.length_singleton]
    omega
  refine h.above hfit rfl (by rw [hlength]) hmax ?_ ?_ rfl rfl
  · rw [hlength]
    exact h.spell.push (hlength ▸ h.bits_lt) hword
  · intro word hmem
    rcases List.mem_append.mp hmem with hmem | hmem
    · exact h.word_lt word hmem
    · rwa [List.mem_singleton.mp hmem]

/-- An index that does not fit fills the last word and goes on in a new one. -/
theorem Holds.splitWord (h : Holds nix bits total) (hmax : numberOfBits ≤ 32)
    (hfit : newBits < 2 ^ numberOfBits) (hwords : nix.nixVector = front ++ [last])
    (htotal : total = 32 * front.length + nix.currentVectorBitSize)
    (hover : 32 < nix.currentVectorBitSize + numberOfBits) :
    Holds { nix with
      nixVector := setBack nix.nixVector (newBits <<< nix.currentVectorBitSize % 2 ^ 32 ||| last) ++
        [newBits >>> (32 - nix.currentVectorBitSize)]
      currentVectorBitSize := numberOfBits - (32 - nix.currentVectorBitSize)
      totalBitSize := (nix.totalBitSize + numberOfBits) % 2 ^ 32 }
      (bits ||| newBits <<< total) (total + numberOfBits) := by
  have hword : newBits < 2 ^ 32 := hfit.trans_le (Nat.pow_le_pow_right (by decide) hmax)
  have hsize := h.size
  have hspell := h.spell
  rw [hwords] at hspell
  have hlow : (newBits <<< nix.currentVectorBitSize) % 2 ^ 32 < 2 ^ 32 :=
    Nat.mod_lt _ (by decide)
  have hhigh : newBits >>> (32 - nix.currentVectorBitSize) < 2 ^ 32 :=
    (Nat.shiftRight_le _ _).trans_lt hword
  have hmiddle : bits ||| (newBits <<< nix.currentVectorBitSize % 2 ^ 32) <<<
      (32 * front.length) < 2 ^ (32 * (front.length + 1)) := by
    apply Nat.or_lt_two_pow
    · exact h.bits_lt.trans_le (Nat.pow_le_pow_right (by decide) (by omega))
    · rw [Nat.shiftLeft_eq, Nat.mul_add, Nat.add_comm, Nat.pow_add]
      exact Nat.mul_lt_mul_of_pos_right hlow (Nat.two_pow_pos _)
  have hstream : newBits <<< total =
      (newBits <<< nix.currentVectorBitSize % 2 ^ 32) <<< (32 * front.length) |||
        (newBits >>> (32 - nix.currentVectorBitSize)) <<< (32 * (front.length + 1)) := by
    rw [htotal, Nat.add_comm (32 * front.length), Nat.shiftLeft_add,
      shiftLeft_split _ _ hsize, Nat.shiftLeft_or_distrib, ← shiftLeft_split _ _ hsize,
      ← Nat.shiftLeft_add, Nat.mul_add, Nat.add_comm 32]
  refine h.above hfit (by rw [NixVector.setBack, hwords, List.dropLast_concat]) ?_ ?_ ?_ ?_ rfl rfl
  · simp only [List.length_append, List.length_singleton]
    omega
  · change numberOfBits - (32 - nix.currentVectorBitSize) ≤ 32
    omega
  · rw [NixVector.setBack, hwords, List.dropLast_concat]
    have hpush := (hspell.setBack hlow).push (by simpa using hmiddle) hhigh
    rw [hstream, ← Nat.lor_assoc]
    simpa using hpush
  · intro word hmem
    rw [NixVector.setBack, hwords, List.dropLast_concat] at hmem
    simp only [List.mem_append, List.mem_singleton] at hmem
    rcases hmem with (hmem | rfl) | rfl
    · exact h.word_lt word (by simp [hwords, hmem])
    · exact Nat.or_lt_two_pow hlow (h.word_lt last (by simp [hwords]))
    · exact hhigh

/-- An index that fits is put into the last word. -/
theorem Holds.sameWord (h : Holds nix bits total) (hfit : newBits < 2 ^ numberOfBits)
    (hwords : nix.nixVector = front ++ [last])
    (htotal : total = 32 * front.length + nix.currentVectorBitSize)
    (hfits : nix.currentVectorBitSize + numberOfBits ≤ 32) :
    Holds { nix with
      nixVector := setBack nix.nixVector (newBits <<< nix.currentVectorBitSize % 2 ^ 32 ||| last)
      currentVectorBitSize := nix.currentVectorBitSize + numberOfBits
      totalBitSize := (nix.totalBitSize + numberOfBits) % 2 ^ 32 }
      (bits ||| newBits <<< total) (total + numberOfBits) := by
  have hspell := h.spell
  rw [hwords] at hspell
  have hlow : (newBits <<< nix.currentVectorBitSize) % 2 ^ 32 < 2 ^ 32 :=
    Nat.mod_lt _ (by decide)
  have hwhole : newBits <<< nix.currentVectorBitSize % 2 ^ 32 =
      newBits <<< nix.currentVectorBitSize := by
    apply Nat.mod_eq_of_lt
    rw [Nat.shiftLeft_eq]
    calc newBits * 2 ^ nix.currentVectorBitSize
        < 2 ^ numberOfBits * 2 ^ nix.currentVectorBitSize :=
          Nat.mul_lt_mul_of_pos_right hfit (Nat.two_pow_pos _)
      _ = 2 ^ (numberOfBits + nix.currentVectorBitSize) := (Nat.pow_add _ _ _).symm
      _ ≤ 2 ^ 32 := Nat.pow_le_pow_right (by decide) (by omega)
  refine h.above hfit (by rw [NixVector.setBack, hwords, List.dropLast_concat]) ?_ hfits ?_ ?_
    rfl rfl
  · simp only [htotal, Nat.add_assoc]
  · have hback := hspell.setBack hlow
    rw [NixVector.setBack, hwords, List.dropLast_concat, htotal, Nat.add_comm (32 * front.length),
      Nat.shiftLeft_add]
    simpa only [hwhole] using hback
  · intro word hmem
    rw [NixVector.setBack, hwords, List.dropLast_concat] at hmem
    simp only [List.mem_append, List.mem_singleton] at hmem
    rcases hmem with hmem | rfl
    · exact h.word_lt word (by simp [hwords, hmem])
    · exact Nat.or_lt_two_pow hlow (h.word_lt last (by simp [hwords]))

/-- Adding an index puts it above the stream. -/
theorem Holds.addNeighborIndex (h : Holds nix bits total) (hone : 1 ≤ numberOfBits)
    (hmax : numberOfBits ≤ 32) (hfit : newBits < 2 ^ numberOfBits) :
    ∃ next, nix.addNeighborIndex newBits numberOfBits = some next ∧
      Holds next (bits ||| newBits <<< total) (total + numberOfBits) := by
  obtain ⟨front, last, hwords, htotal⟩ := h.words
  have hlast : nix.nixVector.getLast? = some last := by rw [hwords, List.getLast?_concat]
  have hsize := h.size
  unfold NixVector.addNeighborIndex
  rw [if_neg (Nat.not_lt.mpr hmax), hlast]
  split
  next hover =>
    split
    next hfull => exact ⟨_, rfl, h.newWord hmax hfit hfull⟩
    next hroom =>
      rw [shiftLeft_eq_some (by omega), shiftRight_eq_some (by omega)]
      exact ⟨_, rfl, h.splitWord hmax hfit hwords htotal hover⟩
  next hfits =>
    rw [shiftLeft_eq_some (by omega)]
    exact ⟨_, rfl, h.sameWord hfit hwords htotal (Nat.le_of_not_lt hfits)⟩

end Add

/-- The words after any sequence of added indices. -/
theorem Holds.addAll {items : List (ℕ × ℕ)} (hfits : Fits items) {nix : NixVector}
    {bits total : ℕ} (h : Holds nix bits total) :
    ∃ final, nix.addAll items = some final ∧
      Holds final (bits ||| stream items <<< total) (total + totalBits items) := by
  induction items generalizing nix bits total with
  | nil => exact ⟨nix, rfl, by simpa [stream] using h⟩
  | cons item rest ih =>
      obtain ⟨hone, hmax, hfit⟩ := hfits item List.mem_cons_self
      obtain ⟨next, hadd, hnext⟩ := h.addNeighborIndex hone hmax hfit
      obtain ⟨final, hrest, hfinal⟩ :=
        ih (fun other hother => hfits other (List.mem_cons_of_mem _ hother)) hnext
      refine ⟨final, by rw [NixVector.addAll, hadd, Option.bind_some, hrest], ?_⟩
      rw [stream, totalBits_cons, Nat.shiftLeft_or_distrib, ← Nat.lor_assoc, ← Nat.shiftLeft_add,
        ← Nat.add_assoc, Nat.add_comm item.2 total]
      exact hfinal

/-! ### Taking the stream back -/

/-- Bits of the stream are left to extract, below those already taken. -/
structure Left (nix : NixVector) (bits left : ℕ) : Prop where
  spell : Spell nix.nixVector bits
  word_lt : ∀ word ∈ nix.nixVector, word < 2 ^ 32
  room : left ≤ 32 * nix.nixVector.length
  remaining : nix.used + left = nix.totalBitSize
  totalBitSize : nix.totalBitSize < 2 ^ 32

theorem Holds.left {nix : NixVector} {bits total : ℕ} (h : Holds nix bits total) :
    Left nix bits (total % 2 ^ 32) where
  spell := h.spell
  word_lt := h.word_lt
  room := by
    obtain ⟨front, last, hwords, htotal⟩ := h.words
    have hsize := h.size
    rw [hwords, List.length_append, List.length_singleton]
    exact (Nat.mod_le _ _).trans (by omega)
  remaining := by rw [h.used, Nat.zero_add, h.totalBitSize]
  totalBitSize := h.totalBitSize ▸ Nat.mod_lt _ (by decide)

theorem Left.remainingBits {nix : NixVector} {bits left : ℕ} (h : Left nix bits left) :
    nix.remainingBits = left := by
  have hremaining := h.remaining
  have htotal := h.totalBitSize
  rw [NixVector.remainingBits]
  omega

/-- The bits below a position inside a word, moved to the top of the word and down again. -/
theorem testBit_window (word amount width i : ℕ) (hwidth : width ≤ 32) :
    ((word <<< amount % 2 ^ 32) >>> (32 - width)).testBit i =
      (decide (i < width) && decide (amount ≤ 32 - width + i) &&
        word.testBit (32 - width + i - amount)) := by
  simp only [Nat.testBit_shiftRight, Nat.testBit_mod_two_pow, Nat.testBit_shiftLeft]
  have hlow : decide (32 - width + i < 32) = decide (i < width) := by
    apply decide_eq_decide.mpr
    omega
  rw [hlow, Bool.and_assoc]

section Extract

variable {words : List ℕ} {bits left numberOfBits top before : ℕ}

/-- The top bits that are left, if they lie in two words. -/
theorem spanningBits_eq (hmax : numberOfBits ≤ 32) (hleft : numberOfBits ≤ left)
    (hspan : left % 32 < numberOfBits) (hmod : left % 32 ≠ 0) (hpos : 0 < (left - 1) / 32)
    (htop : ∀ i < 32, top.testBit i = bits.testBit (32 * ((left - 1) / 32) + i))
    (hbefore : ∀ i < 32, before.testBit i = bits.testBit (32 * ((left - 1) / 32 - 1) + i))
    (hlt : before < 2 ^ 32) :
    (top <<< (32 - left % 32) % 2 ^ 32) >>> (32 - numberOfBits) |||
        before >>> (32 - (numberOfBits - left % 32)) =
      (bits >>> (left - numberOfBits)) % 2 ^ numberOfBits := by
  apply Nat.eq_of_testBit_eq
  intro i
  rw [Nat.testBit_or, testBit_window _ _ _ _ hmax, Nat.testBit_mod_two_pow,
    Nat.testBit_shiftRight, Nat.testBit_shiftRight]
  by_cases hi : i < numberOfBits
  · by_cases hhigh : numberOfBits - left % 32 ≤ i
    · -- the upper part lies at the bottom of the last word
      have hover : before.testBit (32 - (numberOfBits - left % 32) + i) = false :=
        Nat.testBit_lt_two_pow (hlt.trans_le (Nat.pow_le_pow_right (by decide) (by omega)))
      rw [hover, htop _ (by omega)]
      have hplace : 32 * ((left - 1) / 32) + (32 - numberOfBits + i - (32 - left % 32)) =
          left - numberOfBits + i := by omega
      simp [hi, hplace, show 32 - left % 32 ≤ 32 - numberOfBits + i by omega]
    · -- the lower part lies at the top of the word before
      rw [hbefore _ (by omega)]
      have hplace : 32 * ((left - 1) / 32 - 1) + (32 - (numberOfBits - left % 32) + i) =
          left - numberOfBits + i := by omega
      simp [hi, hplace, show ¬ 32 - left % 32 ≤ 32 - numberOfBits + i by omega]
  · have hover : before.testBit (32 - (numberOfBits - left % 32) + i) = false :=
      Nat.testBit_lt_two_pow (hlt.trans_le (Nat.pow_le_pow_right (by decide) (by omega)))
    simp [hi, hover]

/-- The top bits that are left, if they lie in one word. -/
theorem windowBits_eq (hmax : numberOfBits ≤ 32) (hleft : numberOfBits ≤ left)
    (hfits : numberOfBits ≤ left % 32)
    (htop : ∀ i < 32, top.testBit i = bits.testBit (32 * ((left - 1) / 32) + i)) :
    (top <<< (32 - left % 32) % 2 ^ 32) >>> (32 - numberOfBits) =
      (bits >>> (left - numberOfBits)) % 2 ^ numberOfBits := by
  apply Nat.eq_of_testBit_eq
  intro i
  rw [testBit_window _ _ _ _ hmax, Nat.testBit_mod_two_pow, Nat.testBit_shiftRight]
  by_cases hi : i < numberOfBits
  · rw [htop _ (by omega)]
    have hplace : 32 * ((left - 1) / 32) + (32 - numberOfBits + i - (32 - left % 32)) =
        left - numberOfBits + i := by omega
    simp [hi, hplace, show 32 - left % 32 ≤ 32 - numberOfBits + i by omega]
  · simp [hi]

/-- `ExtractNeighborIndex` reads the top bits that are left, unless a whole number of words
is left. -/
theorem extractedBits_eq (hspell : Spell words bits) (hword : ∀ word ∈ words, word < 2 ^ 32)
    (hroom : left ≤ 32 * words.length) (hone : 1 ≤ numberOfBits) (hmax : numberOfBits ≤ 32)
    (hleft : numberOfBits ≤ left) :
    extractedBits words left numberOfBits =
      if left % 32 = 0 then none
      else some ((bits >>> (left - numberOfBits)) % 2 ^ numberOfBits) := by
  have hindex : (left - 1) / 32 < words.length := by omega
  have hget : words[(left - 1) / 32]? = some words[(left - 1) / 32] :=
    List.getElem?_eq_getElem hindex
  have htop := hspell ((left - 1) / 32)
  rw [hget, Option.getD_some] at htop
  unfold extractedBits
  simp only
  split
  next hspan =>
    obtain ⟨hpos, hspan⟩ := hspan
    have hbefore : (left - 1) / 32 - 1 < words.length := by omega
    have hgetBefore : words[(left - 1) / 32 - 1]? = some words[(left - 1) / 32 - 1] :=
      List.getElem?_eq_getElem hbefore
    have hlow := hspell ((left - 1) / 32 - 1)
    rw [hgetBefore, Option.getD_some] at hlow
    have hmod : left % 32 ≠ 0 := by omega
    have hamount : 32 - left % 32 - (numberOfBits - left % 32) = 32 - numberOfBits := by omega
    rw [if_neg hmod, hget, hgetBefore, hamount]
    simp only [Option.bind_eq_bind, Option.bind_some,
      shiftLeft_eq_some (show 32 - left % 32 < 32 by omega),
      shiftRight_eq_some (show 32 - numberOfBits < 32 by omega),
      shiftRight_eq_some (show 32 - (numberOfBits - left % 32) < 32 by omega)]
    exact congrArg some (spanningBits_eq hmax hleft (by omega) hmod hpos htop hlow
      (hword _ (List.getElem_mem hbefore)))
  next hspan =>
    rw [hget]
    simp only [Option.bind_eq_bind, Option.bind_some]
    split
    next hmod =>
      rw [hmod]
      rfl
    next hmod =>
      simp only [Option.bind_some, shiftLeft_eq_some (show 32 - left % 32 < 32 by omega),
        shiftRight_eq_some (show 32 - numberOfBits < 32 by omega)]
      exact congrArg some (windowBits_eq hmax hleft (by omega) htop)

end Extract

theorem Left.extractNeighborIndex {nix : NixVector} {bits left numberOfBits : ℕ}
    (h : Left nix bits (left + numberOfBits)) (hone : 1 ≤ numberOfBits) (hmax : numberOfBits ≤ 32) :
    nix.extractNeighborIndex numberOfBits =
        (if (left + numberOfBits) % 32 = 0 then none else
          some ((bits >>> left) % 2 ^ numberOfBits,
            { nix with used := nix.used + numberOfBits })) ∧
      Left { nix with used := nix.used + numberOfBits } bits left := by
  have hremaining := h.remaining
  have htotal := h.totalBitSize
  refine ⟨?_, h.spell, h.word_lt, ?_, ?_, htotal⟩
  · unfold NixVector.extractNeighborIndex
    rw [if_neg (by omega), h.remainingBits, if_neg (by omega), if_neg (by omega),
      extractedBits_eq h.spell h.word_lt h.room hone hmax (by omega), Nat.add_sub_cancel]
    split
    next => rfl
    next =>
      have hused : (nix.used + numberOfBits) % 2 ^ 32 = nix.used + numberOfBits :=
        Nat.mod_eq_of_lt (by omega)
      rw [hused]
      rfl
  · exact (Nat.le_add_right _ _).trans h.room
  · change nix.used + numberOfBits + left = nix.totalBitSize
    omega

/-- What can be extracted at all is no more than what is left. -/
theorem Left.sum_le {numbers : List ℕ} {nix : NixVector} {bits left : ℕ} (h : Left nix bits left)
    {values : List ℕ} (hextract : nix.extractAll numbers = some values) : numbers.sum ≤ left := by
  induction numbers generalizing nix left values with
  | nil => exact Nat.zero_le _
  | cons numberOfBits rest ih =>
      rw [extractAll, Option.bind_eq_some_iff] at hextract
      obtain ⟨⟨value, next⟩, hfirst, hrest⟩ := hextract
      rw [Option.map_eq_some_iff] at hrest
      obtain ⟨others, hrest, _⟩ := hrest
      have hguard : 1 ≤ numberOfBits ∧ numberOfBits ≤ 32 ∧ numberOfBits ≤ left := by
        have hremaining := h.remainingBits
        unfold NixVector.extractNeighborIndex at hfirst
        split at hfirst
        · cases hfirst
        · split at hfirst
          · cases hfirst
          · split at hfirst
            · cases hfirst
            · omega
      obtain ⟨hone, hmax, hle⟩ := hguard
      obtain ⟨rest', rfl⟩ := Nat.exists_eq_add_of_le' hle
      obtain ⟨hvalue, hnext⟩ := h.extractNeighborIndex hone hmax
      rw [hvalue] at hfirst
      split at hfirst
      next => cases hfirst
      next =>
        obtain ⟨_, rfl⟩ := Prod.mk.inj (Option.some.inj hfirst)
        have hsum := ih hnext hrest
        rw [List.sum_cons]
        omega

/-- The bits before the last index are those of the others. -/
theorem low_of_or {bits low value m w : ℕ} (hlow : low < 2 ^ m)
    (h : bits % 2 ^ (m + w) = low ||| value <<< m) : bits % 2 ^ m = low := by
  apply Nat.eq_of_testBit_eq
  intro i
  have hbit := congrArg (fun n => n.testBit i) h
  simp only [Nat.testBit_mod_two_pow, Nat.testBit_or, Nat.testBit_shiftLeft] at hbit
  rw [Nat.testBit_mod_two_pow]
  by_cases hi : i < m
  · simpa [hi, Nat.not_le.mpr hi, Nat.lt_add_right w hi] using hbit
  · have hover : low.testBit i = false :=
      Nat.testBit_lt_two_pow
        (hlow.trans_le (Nat.pow_le_pow_right (by decide) (Nat.le_of_not_lt hi)))
    simp [hi, hover]

/-- The bits above them are the last index. -/
theorem high_of_or {bits low value m w : ℕ} (hlow : low < 2 ^ m)
    (h : bits % 2 ^ (m + w) = low ||| value <<< m) : (bits >>> m) % 2 ^ w = value := by
  apply Nat.eq_of_testBit_eq
  intro i
  have hbit := congrArg (fun n => n.testBit (m + i)) h
  have hover : low.testBit (m + i) = false :=
    Nat.testBit_lt_two_pow (hlow.trans_le (Nat.pow_le_pow_right (by decide) (Nat.le_add_right _ _)))
  simp only [Nat.testBit_mod_two_pow, Nat.testBit_or, Nat.testBit_shiftLeft, hover,
    Nat.add_lt_add_iff_left, ge_iff_le, Nat.le_add_right, decide_true, Bool.true_and,
    Bool.false_or, Nat.add_sub_cancel_left] at hbit
  rw [Nat.testBit_mod_two_pow, Nat.testBit_shiftRight, hbit]

/-- No first part ends at a whole number of words: the whole does not, and no part before. -/
theorem prefixes_append_singleton (init : List (ℕ × ℕ)) (item : ℕ × ℕ) :
    (∀ first, first <+: init ++ [item] → first ≠ [] → totalBits first % 32 ≠ 0) ↔
      (totalBits init + item.2) % 32 ≠ 0 ∧
        ∀ first, first <+: init → first ≠ [] → totalBits first % 32 ≠ 0 := by
  constructor
  · intro hall
    refine ⟨?_, fun first hfirst => hall first (hfirst.trans (List.prefix_append _ _))⟩
    simpa using hall (init ++ [item]) (List.prefix_refl _) (by simp)
  · rintro ⟨hwhole, hall⟩ first hfirst hne
    rcases List.prefix_concat_iff.mp hfirst with rfl | hfirst
    · simpa using hwhole
    · exact hall first hfirst hne

/-- Extracting in the opposite order takes the indices off again, while no extraction starts
at a whole number of words. -/
theorem Left.extractAll_reverse {items : List (ℕ × ℕ)} (hfits : Fits items) {nix : NixVector}
    {bits : ℕ} (h : Left nix bits (totalBits items))
    (hbits : bits % 2 ^ totalBits items = stream items) :
    nix.extractAll (items.reverse.map Prod.snd) = some (items.reverse.map Prod.fst) ↔
      ∀ first, first <+: items → first ≠ [] → totalBits first % 32 ≠ 0 := by
  induction items using List.reverseRecOn generalizing nix with
  | nil => simp [NixVector.extractAll]
  | append_singleton init item ih =>
      have hinit : Fits init := fun other hother => hfits other (List.mem_append_left _ hother)
      obtain ⟨hone, hmax, -⟩ := hfits item (by simp)
      rw [totalBits_append, totalBits_cons, totalBits_nil, Nat.add_zero] at h hbits
      obtain ⟨hvalue, hnext⟩ := h.extractNeighborIndex hone hmax
      have hstream : stream (init ++ [item]) = stream init ||| item.1 <<< totalBits init := by
        rw [stream_append]
        simp [stream]
      rw [hstream] at hbits
      have htop := high_of_or (stream_lt hinit) hbits
      have hrest := low_of_or (stream_lt hinit) hbits
      rw [prefixes_append_singleton, ← ih hinit hnext hrest, List.reverse_append,
        List.reverse_singleton, List.singleton_append, List.map_cons, List.map_cons,
        NixVector.extractAll, hvalue]
      split
      next hmod => simp [hmod]
      next hmod => simp [hmod, htop]

/-- The indices come back last in, first out, and no shift is undefined. -/
def TakesBack (items : List (ℕ × ℕ)) : Prop :=
  ((create.addAll items).bind fun nix => nix.extractAll (items.reverse.map Prod.snd)) =
    some (items.reverse.map Prod.fst)

instance (items : List (ℕ × ℕ)) : Decidable (TakesBack items) :=
  inferInstanceAs (Decidable (_ = _))

/-- The stack works exactly while it never fills a whole number of words and its length fits
in the 32-bit counter. -/
theorem takesBack_iff (items : List (ℕ × ℕ)) (hfits : Fits items) :
    TakesBack items ↔
      (∀ first, first <+: items → first ≠ [] → totalBits first % 32 ≠ 0) ∧
        totalBits items < 2 ^ 32 := by
  obtain ⟨final, hadd, hfinal⟩ := create_holds.addAll hfits
  have hleft := hfinal.left
  simp only [Nat.shiftLeft_zero, Nat.zero_or, Nat.zero_add] at hleft
  rw [TakesBack, hadd, Option.bind_some]
  by_cases hlength : totalBits items < 2 ^ 32
  · rw [Nat.mod_eq_of_lt hlength] at hleft
    rw [hleft.extractAll_reverse hfits (Nat.mod_eq_of_lt (stream_lt hfits))]
    exact (and_iff_left hlength).symm
  · refine iff_of_false (fun hextract => ?_) fun h => hlength h.2
    have hsum := hleft.sum_le hextract
    rw [List.map_reverse, List.sum_reverse] at hsum
    have hmod : totalBits items % 2 ^ 32 < 2 ^ 32 := Nat.mod_lt _ (by decide)
    exact hlength (hsum.trans_lt hmod)

/-- Four indices across a word boundary. -/
theorem takesBack_across : TakesBack [(5, 3), (1000, 17), (70000, 20), (1, 1)] :=
  (takesBack_iff _ (by unfold Fits; decide)).mpr ⟨by
    have hall : ∀ first ∈ List.inits [(5, 3), (1000, 17), (70000, 20), (1, 1)],
        first ≠ [] → totalBits first % 32 ≠ 0 := by decide
    exact fun first hfirst => hall first ((List.mem_inits _ _).mpr hfirst), by decide⟩

/-- A full word is not read back: the shift is by 32. -/
theorem not_takesBack_word : ¬ TakesBack [(7, 16), (9, 16)] := by decide

end NixVector
