import Mathlib.Data.List.Basic
import Mathlib.Data.UInt

/-! # Address blocks of packetbb

The addresses of a block are written without the head and the tail that they share. `GetHeadTail`
narrows both along the list, but the loop for the tail lets it grow by a byte, and it does not look
at the tail while all addresses are the same. -/

namespace Ns3Rdma

/-- The addresses have `GetAddressLength ()` bytes each. `addressTlvList` is what the list of TLVs
writes, as many bytes as it says. -/
structure PbbAddressBlock where
  addresses : List (List UInt8)
  prefixes : List UInt8
  addressTlvList : List UInt8

namespace PbbAddressBlock

def AHAS_HEAD : UInt8 := 0x80
def AHAS_FULL_TAIL : UInt8 := 0x40
def AHAS_ZERO_TAIL : UInt8 := 0x20
def AHAS_SINGLE_PRE_LEN : UInt8 := 0x10
def AHAS_MULTI_PRE_LEN : UInt8 := 0x08

/-! ## Head and tail -/

/-- How many bytes are the same from the beginning on, `n` at most. -/
def same : ℕ → List UInt8 → List UInt8 → ℕ
  | n + 1, a :: as, b :: bs => if a = b then same n as bs + 1 else 0
  | _, _, _ => 0

/-- What `GetHeadTail` returns. -/
structure HeadTail where
  headlen : ℕ
  taillen : ℕ
  head : List UInt8
  tail : List UInt8

variable (length : ℕ)

/-- The body of the loop of `GetHeadTail`. The second branch of the source asks for an empty head,
which the first one has already. -/
def narrow (buflast bufcur : List UInt8) (lens : ℕ × ℕ) : ℕ × ℕ :=
  let headlen := same lens.1 buflast bufcur
  if headlen ≤ length - 1 then
    (headlen, same (min (lens.2 + 1) (length - 1 - headlen)) buflast.reverse bufcur.reverse)
  else (headlen, lens.2)

/-- The loop. The buffers are exchanged at the end of a pass. -/
def headTailLoop : List UInt8 → List UInt8 → List (List UInt8) → ℕ × ℕ → (ℕ × ℕ) × List UInt8
  | _, bufcur, [], lens => (lens, bufcur)
  | buflast, _, cur :: rest, lens => headTailLoop cur buflast rest (narrow length buflast cur lens)

/-- `GetHeadTail`. `AddressBegin ()++` is still the first address. -/
def getHeadTail (addresses : List (List UInt8)) : HeadTail :=
  let first := addresses.headD []
  let result := headTailLoop length first first addresses (length, length)
  { headlen := result.1.1
    taillen := result.1.2
    head := result.2.take result.1.1
    tail := (result.2.drop (length - result.1.2)).take result.1.2 }

def hasZeroTail (tail : List UInt8) : Bool := tail.all (· == 0)

/-! ## Writing -/

variable (b : PbbAddressBlock)

def getPrefixFlags (prefixSize : ℕ) : UInt8 :=
  if prefixSize = 0 then 0 else if prefixSize = 1 then AHAS_SINGLE_PRE_LEN else AHAS_MULTI_PRE_LEN

/-- `zeroTail` is there when there is a tail. -/
def flags (hasHead : Bool) (zeroTail : Option Bool) (prefixFlags : UInt8) : UInt8 :=
  (if hasHead then AHAS_HEAD else 0) |||
    zeroTail.elim 0 (fun zero => if zero then AHAS_ZERO_TAIL else AHAS_FULL_TAIL) ||| prefixFlags

def writeHead (head : List UInt8) : List UInt8 :=
  if 0 < head.length then .ofNat head.length :: head else []

def writeTail (tail : List UInt8) : List UInt8 :=
  if 0 < tail.length then .ofNat tail.length :: if hasZeroTail tail then [] else tail else []

def mid (headlen taillen : ℕ) (address : List UInt8) : List UInt8 :=
  (address.drop headlen).take (length - headlen - taillen)

def zeroTail (tail : List UInt8) : Option Bool :=
  if 0 < tail.length then some (hasZeroTail tail) else none

def serialize : List UInt8 :=
  match b.addresses with
  | [] => [0, 0] ++ b.addressTlvList
  | [address] =>
      [1, if b.prefixes.length = 1 then AHAS_SINGLE_PRE_LEN else 0] ++ address ++
        (if b.prefixes.length = 1 then b.prefixes else []) ++ b.addressTlvList
  | addresses =>
      let h := getHeadTail length addresses
      [.ofNat addresses.length, flags (0 < h.headlen) (zeroTail h.tail)
          (getPrefixFlags b.prefixes.length)] ++ writeHead h.head ++ writeTail h.tail ++
        (if h.headlen + h.taillen < length then
          addresses.flatMap (mid length h.headlen h.taillen) else []) ++
            b.prefixes ++ b.addressTlvList

def getSerializedSize : UInt32 :=
  match b.addresses with
  | [] => 2 + .ofNat b.addressTlvList.length
  | [_] => 2 + .ofNat (length + b.prefixes.length) + .ofNat b.addressTlvList.length
  | addresses =>
      let h := getHeadTail length addresses
      2 + (if 0 < h.headlen then 1 + .ofNat h.headlen else 0) +
        (if 0 < h.taillen then 1 + if hasZeroTail h.tail then 0 else .ofNat h.taillen else 0) +
          (.ofNat length - .ofNat h.headlen - .ofNat h.taillen) * .ofNat addresses.length +
            .ofNat b.prefixes.length + .ofNat b.addressTlvList.length

/-! ## Reading -/

def readU8 : List UInt8 → Option (UInt8 × List UInt8)
  | [] => none
  | byte :: rest => some (byte, rest)

def read (size : ℕ) (bytes : List UInt8) : Option (List UInt8 × List UInt8) :=
  if size ≤ bytes.length then some (bytes.take size, bytes.drop size) else none

def readHead (flags : UInt8) (bytes : List UInt8) : Option (List UInt8 × List UInt8) :=
  if flags &&& AHAS_HEAD ≠ 0 then (readU8 bytes).bind fun p => read p.1.toNat p.2
  else some ([], bytes)

def readTail (flags : UInt8) (bytes : List UInt8) : Option (List UInt8 × List UInt8) :=
  if (flags &&& AHAS_FULL_TAIL) ^^^ (flags &&& AHAS_ZERO_TAIL) ≠ 0 then
    (readU8 bytes).bind fun p =>
      if flags &&& AHAS_FULL_TAIL ≠ 0 then read p.1.toNat p.2
      else some (List.replicate p.1.toNat 0, p.2)
  else some ([], bytes)

def readAddresses (head tail : List UInt8) (size : ℕ) :
    ℕ → List UInt8 → Option (List (List UInt8) × List UInt8)
  | 0, bytes => some ([], bytes)
  | n + 1, bytes => (read size bytes).bind fun p =>
      (readAddresses head tail size n p.2).map fun q => ((head ++ p.1 ++ tail) :: q.1, q.2)

def readPrefixes (flags : UInt8) (numaddr : ℕ) (bytes : List UInt8) :
    Option (List UInt8 × List UInt8) :=
  if flags &&& AHAS_SINGLE_PRE_LEN ≠ 0 then read 1 bytes
  else if flags &&& AHAS_MULTI_PRE_LEN ≠ 0 then read numaddr bytes
  else some ([], bytes)

/-- `Deserialize`, up to the list of TLVs. A head and a tail that do not fit into the temporary
buffer are undefined behaviour. -/
def deserialize (bytes : List UInt8) :
    Option (List (List UInt8) × List UInt8 × List UInt8) :=
  (readU8 bytes).bind fun p => (readU8 p.2).bind fun q =>
    if p.1 = 0 then some ([], [], q.2)
    else (readHead q.1 q.2).bind fun head => (readTail q.1 head.2).bind fun tail =>
      if head.1.length + tail.1.length ≤ length then
        (readAddresses head.1 tail.1 (length - head.1.length - tail.1.length) p.1.toNat tail.2).bind
          fun addresses => (readPrefixes q.1 p.1.toNat addresses.2).map fun prefixes =>
            (addresses.1, prefixes.1, prefixes.2)
      else none

/-! ## The claim -/

/-- IPv4 or IPv6 addresses, and the number of prefixes that the format knows. The list of TLVs
writes its length in two bytes. -/
structure WellFormed : Prop where
  addressLength : length = 4 ∨ length = 16
  addresses : ∀ address ∈ b.addresses, address.length = length
  nonempty : b.addresses ≠ []
  count : b.addresses.length < 256
  prefixes : b.prefixes.length = 0 ∨ b.prefixes.length = 1 ∨
    b.prefixes.length = b.addresses.length
  addressTlvList : b.addressTlvList.length < 2 ^ 17

structure RoundTrips : Prop where
  shared : 1 < b.addresses.length →
    let h := getHeadTail length b.addresses
    h.headlen + h.taillen ≤ length ∧ ∀ address ∈ b.addresses,
      address.take h.headlen = h.head ∧ address.drop (length - h.taillen) = h.tail
  size : (b.serialize length).length = (b.getSerializedSize length).toNat
  addresses : deserialize length (b.serialize length) =
    some (b.addresses, b.prefixes, b.addressTlvList)

/-- All addresses end with the same bytes. -/
def SharesTail (addresses : List (List UInt8)) (k : ℕ) : Prop :=
  ∀ a ∈ addresses, ∀ b ∈ addresses, a.reverse.take k = b.reverse.take k

def SharesHead (addresses : List (List UInt8)) (k : ℕ) : Prop :=
  ∀ a ∈ addresses, ∀ b ∈ addresses, a.take k = b.take k

/-! ## What the loop narrows down to -/

variable {length}

/-- Exactly the common beginnings are the same. -/
theorem le_same_iff {as bs : List UInt8} (hlength : as.length = bs.length) (n t : ℕ) :
    t ≤ same n as bs ↔ t ≤ n ∧ t ≤ as.length ∧ as.take t = bs.take t := by
  induction n generalizing as bs t with
  | zero =>
      change t ≤ 0 ↔ t ≤ 0 ∧ _
      refine (and_iff_left_of_imp fun hle => ?_).symm
      obtain rfl := Nat.le_zero.mp hle
      exact ⟨Nat.zero_le _, rfl⟩
  | succ n ih =>
      cases as with
      | nil =>
          have hzero : same (n + 1) [] bs = 0 := rfl
          rw [hzero, List.eq_nil_of_length_eq_zero hlength.symm, List.length_nil]
          constructor
          · intro h
            exact ⟨h.trans (Nat.zero_le _), h, rfl⟩
          · exact fun h => h.2.1
      | cons a as =>
          cases bs with
          | nil => cases hlength
          | cons b bs =>
              unfold same
              cases t with
              | zero => exact iff_of_true (Nat.zero_le _) ⟨Nat.zero_le _, Nat.zero_le _, rfl⟩
              | succ t =>
                  have hrest := ih (Nat.succ.inj hlength) t
                  rw [List.take_succ_cons, List.take_succ_cons, List.cons.injEq, List.length_cons]
                  split
                  · next heq =>
                    rw [Nat.succ_le_succ_iff, Nat.succ_le_succ_iff, Nat.succ_le_succ_iff, hrest]
                    simp [heq]
                  · next hne =>
                    refine iff_of_false (Nat.not_succ_le_zero _) ?_
                    rintro ⟨-, -, heq, -⟩
                    exact hne heq

/-- The lengths after some addresses, the last of which is in `buflast`. -/
structure Narrowed (length : ℕ) (seen : List (List UInt8)) (buflast : List UInt8)
    (lens : ℕ × ℕ) : Prop where
  last : seen.getLast? = some buflast
  head : ∀ t, t ≤ lens.1 ↔ t ≤ length ∧ SharesHead seen t
  whole : lens.1 = length → lens.2 = length
  fits : lens.1 < length → lens.1 + lens.2 < length
  tail : ∀ t ≤ length, SharesTail seen t → t ≤ lens.2

/-- One more address has to be like the last one. -/
theorem forall_concat_iff {β : Type} (f : List UInt8 → β) {seen : List (List UInt8)}
    {last cur : List UInt8} (hlast : last ∈ seen) :
    (∀ a ∈ seen ++ [cur], ∀ b ∈ seen ++ [cur], f a = f b) ↔
      (∀ a ∈ seen, ∀ b ∈ seen, f a = f b) ∧ f last = f cur := by
  have hcur : cur ∈ seen ++ [cur] := List.mem_append_right _ (List.mem_singleton_self _)
  constructor
  · intro h
    exact ⟨fun a ha b hb => h a (List.mem_append_left _ ha) b (List.mem_append_left _ hb),
      h last (List.mem_append_left _ hlast) cur hcur⟩
  · rintro ⟨hall, heq⟩
    have hto : ∀ a ∈ seen ++ [cur], f a = f cur := fun a ha => by
      rcases List.mem_append.mp ha with hin | hin
      · exact (hall a hin last hlast).trans heq
      · rw [List.mem_singleton.mp hin]
    exact fun a ha b hb => (hto a ha).trans (hto b hb).symm

/-- A common head and a common tail that meet are all. -/
theorem eq_of_head_tail {a b : List UInt8} {H t : ℕ} (ha : a.length = length)
    (hb : b.length = length) (hhead : a.take H = b.take H)
    (htail : a.reverse.take t = b.reverse.take t) (hmeet : length ≤ H + t) : a = b := by
  rw [List.take_reverse, List.take_reverse, List.reverse_inj, ha, hb] at htail
  have hdrop := congrArg (List.drop (H - (length - t))) htail
  rw [List.drop_drop, List.drop_drop, Nat.add_sub_cancel' (by omega)] at hdrop
  rw [← List.take_append_drop H a, hhead, hdrop, List.take_append_drop]

variable {seen : List (List UInt8)} {buflast cur : List UInt8} {lens : ℕ × ℕ}

theorem Narrowed.narrow (h : Narrowed length seen buflast lens) (hpos : 0 < length)
    (hseen : ∀ address ∈ seen, address.length = length) (hcur : cur.length = length) :
    Narrowed length (seen ++ [cur]) cur (narrow length buflast cur lens) := by
  have hlast := List.mem_of_getLast? h.last
  have hbuflast := hseen buflast hlast
  obtain ⟨headlen, hheadlen⟩ : ∃ headlen, headlen = same lens.1 buflast cur := ⟨_, rfl⟩
  have hhead : ∀ t, t ≤ headlen ↔ t ≤ length ∧ SharesHead (seen ++ [cur]) t := fun t => by
    rw [hheadlen, le_same_iff (hbuflast.trans hcur.symm), h.head, hbuflast]
    have hconcat : SharesHead (seen ++ [cur]) t ↔
        SharesHead seen t ∧ buflast.take t = cur.take t := forall_concat_iff (List.take t) hlast
    rw [hconcat]
    tauto
  have hle := ((hhead headlen).mp (Nat.le_refl _)).1
  unfold PbbAddressBlock.narrow
  dsimp only
  rw [← hheadlen]
  split
  · next hshort =>
    obtain ⟨bound, hbound⟩ : ∃ bound, bound = min (lens.2 + 1) (length - 1 - headlen) := ⟨_, rfl⟩
    have hreverse : buflast.reverse.length = cur.reverse.length := by
      rw [List.length_reverse, List.length_reverse, hbuflast, hcur]
    have htail := le_same_iff hreverse bound
    rw [← hbound]
    refine ⟨List.getLast?_concat, hhead, fun hwhole => ?_, fun _ => ?_, fun t ht hshares => ?_⟩
    · change headlen = length at hwhole
      omega
    · have hfits := ((htail _).mp (Nat.le_refl _)).1
      change headlen + _ < length
      omega
    · obtain ⟨hbefore, hpair⟩ := (forall_concat_iff (fun a => a.reverse.take t) hlast).mp hshares
      have hprev := h.tail t ht hbefore
      have hroom : t ≤ length - 1 - headlen := by
        by_contra hmeet
        have hall : SharesHead (seen ++ [cur]) length := fun a ha b hb => by
          have hsize : ∀ c ∈ seen ++ [cur], c.length = length := fun c hc => by
            rcases List.mem_append.mp hc with hin | hin
            · exact hseen c hin
            · rw [List.mem_singleton.mp hin]
              exact hcur
          rw [eq_of_head_tail (hsize a ha) (hsize b hb)
            (((hhead headlen).mp (Nat.le_refl _)).2 a ha b hb) (hshares a ha b hb) (by omega)]
        have hfull := (hhead length).mpr ⟨Nat.le_refl _, hall⟩
        omega
      refine (htail t).mpr ⟨by omega, ?_, hpair⟩
      rw [List.length_reverse, hbuflast]
      exact ht
  · next hlong =>
    have hsame : headlen = length := by omega
    have hprevLe : headlen ≤ lens.1 := by
      rw [h.head]
      refine ⟨hle, fun a ha b hb => ?_⟩
      exact ((hhead headlen).mp (Nat.le_refl _)).2 a (List.mem_append_left _ ha) b
        (List.mem_append_left _ hb)
    have hprev : lens.1 = length :=
      le_antisymm ((h.head lens.1).mp (Nat.le_refl _)).1 (by omega)
    refine ⟨List.getLast?_concat, hhead, fun _ => h.whole hprev, fun hlt => ?_,
      fun t ht hshares => ?_⟩
    · change headlen < length at hlt
      omega
    · exact h.tail t ht ((forall_concat_iff (fun a => a.reverse.take t) hlast).mp hshares).1

/-- The loop over the tail, when the head is not all. -/
theorem narrow_tail (hlt : (narrow length buflast cur lens).1 < length) :
    (narrow length buflast cur lens).2 =
      same (min (lens.2 + 1) (length - 1 - (narrow length buflast cur lens).1)) buflast.reverse
        cur.reverse := by
  unfold PbbAddressBlock.narrow at hlt ⊢
  dsimp only at hlt ⊢
  split at hlt
  · next hshort =>
    rw [if_pos hshort]
  · next hlong =>
    change same lens.1 buflast cur < length at hlt
    omega

/-- The last pass of the loop. -/
theorem headTailLoop_concat {bufcur : List UInt8} {rest : List (List UInt8)}
    (h : Narrowed length seen buflast lens) (hpos : 0 < length)
    (hseen : ∀ address ∈ seen ++ rest, address.length = length) :
    ∃ last lens', Narrowed length (seen ++ rest) last lens' ∧
      headTailLoop length buflast bufcur (rest ++ [cur]) lens =
        (PbbAddressBlock.narrow length last cur lens', last) := by
  induction rest generalizing seen buflast bufcur lens with
  | nil =>
      rw [List.append_nil]
      exact ⟨buflast, lens, h, rfl⟩
  | cons next rest ih =>
      have hnext := hseen next (List.mem_append_right _ List.mem_cons_self)
      rw [List.append_cons] at hseen ⊢
      exact ih (h.narrow hpos (fun a ha => hseen a (List.mem_append_left _
        (List.mem_append_left _ ha))) hnext) hseen

/-- The first address is compared with itself. -/
theorem Narrowed.of_cons {a last : List UInt8} {rest : List (List UInt8)}
    (h : Narrowed length (a :: a :: rest) last lens) :
    Narrowed length (a :: rest) last lens := by
  have hmem : ∀ x, x ∈ a :: a :: rest ↔ x ∈ a :: rest := fun x => by
    rw [List.mem_cons, List.mem_cons]
    tauto
  refine ⟨?_, fun t => ?_, h.whole, h.fits, fun t ht hshares => h.tail t ht ?_⟩
  · rw [← h.last, List.getLast?_cons_cons]
  · rw [h.head]
    unfold SharesHead
    simp only [hmem]
  · unfold SharesTail
    simp only [hmem]
    exact hshares

theorem getHeadTail_concat {front : List (List UInt8)} (hne : front ≠ []) (hpos : 0 < length)
    (hfront : ∀ address ∈ front, address.length = length) (hcur : cur.length = length) :
    ∃ last lens', Narrowed length front last lens' ∧
      Narrowed length (front ++ [cur]) cur (narrow length last cur lens') ∧
      getHeadTail length (front ++ [cur]) =
        ⟨(narrow length last cur lens').1, (narrow length last cur lens').2,
          last.take (narrow length last cur lens').1,
          (last.drop (length - (narrow length last cur lens').2)).take
            (narrow length last cur lens').2⟩ := by
  obtain ⟨first, rest, rfl⟩ := List.exists_cons_of_ne_nil hne
  have hstart : Narrowed length [first] first (length, length) := by
    refine ⟨rfl, fun t => ?_, fun _ => rfl, fun hlt => absurd hlt (Nat.lt_irrefl _),
      fun t ht _ => ht⟩
    refine (and_iff_left fun a ha b hb => ?_).symm
    rw [List.mem_singleton.mp ha, List.mem_singleton.mp hb]
  have hall : ∀ address ∈ [first] ++ first :: rest, address.length = length := fun a ha => by
    rcases List.mem_cons.mp ha with rfl | hin
    · exact hfront a List.mem_cons_self
    · exact hfront a hin
  obtain ⟨last, lens', hnarrowed, hloop⟩ :=
    headTailLoop_concat hstart hpos hall
  have hdone := hnarrowed.of_cons
  refine ⟨last, lens', hdone, hdone.narrow hpos hfront hcur, ?_⟩
  unfold getHeadTail
  dsimp only
  rw [List.cons_append, List.headD_cons, ← List.cons_append, hloop]

/-! ## Reading what was written -/

section Reading

variable {hasHead : Bool} {zero : Option Bool} {n : ℕ} {head tail rest : List UInt8}

theorem flags_head : flags hasHead zero (getPrefixFlags n) &&& AHAS_HEAD ≠ 0 ↔
    hasHead = true := by
  unfold getPrefixFlags
  split_ifs <;> cases hasHead <;> rcases zero with _ | _ | _ <;> decide

theorem flags_tail : (flags hasHead zero (getPrefixFlags n) &&& AHAS_FULL_TAIL) ^^^
    (flags hasHead zero (getPrefixFlags n) &&& AHAS_ZERO_TAIL) ≠ 0 ↔ zero.isSome = true := by
  unfold getPrefixFlags
  split_ifs <;> cases hasHead <;> rcases zero with _ | _ | _ <;> decide

theorem flags_fullTail : flags hasHead zero (getPrefixFlags n) &&& AHAS_FULL_TAIL ≠ 0 ↔
    zero = some false := by
  unfold getPrefixFlags
  split_ifs <;> cases hasHead <;> rcases zero with _ | _ | _ <;> decide

theorem flags_singlePreLen : flags hasHead zero (getPrefixFlags n) &&& AHAS_SINGLE_PRE_LEN ≠ 0 ↔
    n = 1 := by
  unfold getPrefixFlags
  split_ifs with h0 h1
  · subst h0
    cases hasHead <;> rcases zero with _ | _ | _ <;> decide
  · subst h1
    cases hasHead <;> rcases zero with _ | _ | _ <;> decide
  · refine iff_of_false ?_ h1
    cases hasHead <;> rcases zero with _ | _ | _ <;> decide

theorem flags_multiPreLen : flags hasHead zero (getPrefixFlags n) &&& AHAS_MULTI_PRE_LEN ≠ 0 ↔
    1 < n := by
  unfold getPrefixFlags
  split_ifs with h0 h1
  · subst h0
    cases hasHead <;> rcases zero with _ | _ | _ <;> decide
  · subst h1
    cases hasHead <;> rcases zero with _ | _ | _ <;> decide
  · refine iff_of_true ?_ (by omega)
    cases hasHead <;> rcases zero with _ | _ | _ <;> decide

theorem read_append (bytes rest : List UInt8) :
    read bytes.length (bytes ++ rest) = some (bytes, rest) := by
  unfold read
  rw [if_pos (by rw [List.length_append]; exact Nat.le_add_right _ _), List.take_left,
    List.drop_left]

theorem toNat_ofNat (hn : n < 256) : (UInt8.ofNat n).toNat = n := UInt8.toNat_ofNat_of_lt' hn

theorem readHead_written (hhead : head.length < 256) :
    readHead (flags (0 < head.length) zero (getPrefixFlags n)) (writeHead head ++ rest) =
      some (head, rest) := by
  unfold readHead writeHead
  by_cases hpos : 0 < head.length
  · rw [if_pos (flags_head.mpr (decide_eq_true hpos)), if_pos hpos]
    change read (UInt8.ofNat head.length).toNat (head ++ rest) = _
    rw [toNat_ofNat hhead, read_append]
  · rw [if_neg fun h => hpos (of_decide_eq_true (flags_head.mp h)), if_neg hpos,
      List.eq_nil_of_length_eq_zero (Nat.eq_zero_of_not_pos hpos)]
    rfl

theorem eq_replicate_of_hasZeroTail (h : hasZeroTail tail = true) :
    tail = List.replicate tail.length 0 := by
  unfold hasZeroTail at h
  rw [List.all_eq_true] at h
  exact List.eq_replicate_of_mem fun byte hbyte => beq_iff_eq.mp (h byte hbyte)

theorem readTail_written (htail : tail.length < 256) :
    readTail (flags hasHead (zeroTail tail) (getPrefixFlags n)) (writeTail tail ++ rest) =
      some (tail, rest) := by
  unfold readTail writeTail
  by_cases hpos : 0 < tail.length
  · have hsome : zeroTail tail = some (hasZeroTail tail) := if_pos hpos
    rw [if_pos (flags_tail.mpr (by rw [hsome]; rfl)), if_pos hpos]
    change (if flags hasHead (zeroTail tail) (getPrefixFlags n) &&& AHAS_FULL_TAIL ≠ 0 then
      read (UInt8.ofNat tail.length).toNat _ else
        some (List.replicate (UInt8.ofNat tail.length).toNat 0, _)) = _
    rw [toNat_ofNat htail]
    cases hzero : hasZeroTail tail with
    | true =>
        rw [if_neg (by rw [flags_fullTail, hsome, hzero]; decide),
          ← eq_replicate_of_hasZeroTail hzero]
        rfl
    | false =>
        rw [if_pos (by rw [flags_fullTail, hsome, hzero])]
        exact read_append tail rest
  · have hnone : zeroTail tail = none := if_neg hpos
    rw [if_neg (by rw [flags_tail, hnone]; decide), if_neg hpos,
      List.eq_nil_of_length_eq_zero (Nat.eq_zero_of_not_pos hpos)]
    rfl

theorem readAddresses_written {headlen taillen : ℕ} {addresses : List (List UInt8)}
    (hfits : headlen + taillen ≤ length)
    (hall : ∀ a ∈ addresses, a.length = length ∧ a.take headlen = head ∧
      a.drop (length - taillen) = tail) :
    readAddresses head tail (length - headlen - taillen) addresses.length
      (addresses.flatMap (mid length headlen taillen) ++ rest) = some (addresses, rest) := by
  induction addresses with
  | nil => rfl
  | cons a addresses ih =>
      obtain ⟨ha, hhead, htail⟩ := hall a List.mem_cons_self
      have hmid : (mid length headlen taillen a).length = length - headlen - taillen := by
        unfold mid
        rw [List.length_take, List.length_drop, ha]
        omega
      have hsame : head ++ mid length headlen taillen a ++ tail = a := by
        unfold mid
        rw [← hhead, ← htail, List.append_assoc]
        have hbehind : a.drop (length - taillen) =
            (a.drop headlen).drop (length - headlen - taillen) := by
          rw [List.drop_drop]
          congr 1
          omega
        rw [hbehind, List.take_append_drop, List.take_append_drop]
      unfold readAddresses
      rw [List.length_cons, List.flatMap_cons, List.append_assoc]
      dsimp only
      rw [← hmid, read_append, hmid, Option.bind_some,
        ih fun c hc => hall c (List.mem_cons_of_mem _ hc), Option.map_some, hsame]

theorem readPrefixes_written {prefixes : List UInt8} {count : ℕ}
    (hprefixes : prefixes.length = 0 ∨ prefixes.length = 1 ∨ prefixes.length = count) :
    readPrefixes (flags hasHead zero (getPrefixFlags prefixes.length)) count (prefixes ++ rest) =
      some (prefixes, rest) := by
  unfold readPrefixes
  by_cases hone : prefixes.length = 1
  · rw [if_pos (flags_singlePreLen.mpr hone), ← hone, read_append]
  · rw [if_neg fun h => hone (flags_singlePreLen.mp h)]
    by_cases hmany : 1 < prefixes.length
    · rw [if_pos (flags_multiPreLen.mpr hmany), ← (hprefixes.resolve_left (by omega)).resolve_left
        hone, read_append]
    · rw [if_neg fun h => hmany (flags_multiPreLen.mp h),
        List.eq_nil_of_length_eq_zero (show prefixes.length = 0 by omega)]
      rfl

/-- A block with a head and a tail that all addresses share is read as it was written. -/
theorem deserialize_written {headlen taillen : ℕ} {addresses : List (List UInt8)}
    {prefixes : List UInt8} (hlength : length < 256) (hfits : headlen + taillen ≤ length)
    (hhead : head.length = headlen) (htail : tail.length = taillen)
    (hall : ∀ a ∈ addresses, a.length = length ∧ a.take headlen = head ∧
      a.drop (length - taillen) = tail)
    (hne : addresses ≠ []) (hcount : addresses.length < 256)
    (hprefixes : prefixes.length = 0 ∨ prefixes.length = 1 ∨
      prefixes.length = addresses.length) :
    deserialize length (.ofNat addresses.length ::
      flags (0 < headlen) (zeroTail tail) (getPrefixFlags prefixes.length) ::
        (writeHead head ++ (writeTail tail ++
          (addresses.flatMap (mid length headlen taillen) ++ (prefixes ++ rest))))) =
      some (addresses, prefixes, rest) := by
  have hn : (UInt8.ofNat addresses.length).toNat = addresses.length := toNat_ofNat hcount
  have hzero : UInt8.ofNat addresses.length ≠ 0 := fun hzero => by
    rw [hzero] at hn
    exact hne (List.length_eq_zero_iff.mp hn.symm)
  subst hhead htail
  unfold deserialize
  change (if UInt8.ofNat addresses.length = 0 then _ else _) = _
  rw [if_neg hzero]
  dsimp only [readU8, Option.bind_some]
  rw [readHead_written (by omega), Option.bind_some]
  dsimp only
  rw [readTail_written (by omega), Option.bind_some]
  dsimp only
  rw [if_pos hfits, hn, readAddresses_written hfits hall, Option.bind_some]
  dsimp only
  rw [readPrefixes_written hprefixes]
  rfl

end Reading

/-! ## Round trips -/

variable {b : PbbAddressBlock}

/-- The lengths come out as what all addresses share: not all are the same, and either the last two
have no longer tail in common than all have, or the common head and tail leave a single byte. -/
structure Settles (length : ℕ) (addresses : List (List UInt8)) : Prop where
  differ : ¬ SharesHead addresses length
  tail : ∃ k < length, SharesTail addresses k ∧ (SharesHead addresses (length - 1 - k) ∨
    ∀ front a b, addresses = front ++ [a, b] → a.reverse.take (k + 1) ≠ b.reverse.take (k + 1))

theorem serialize_many (hmany : 1 < b.addresses.length) :
    b.serialize length = .ofNat b.addresses.length ::
      flags (0 < (getHeadTail length b.addresses).headlen)
        (zeroTail (getHeadTail length b.addresses).tail) (getPrefixFlags b.prefixes.length) ::
      (writeHead (getHeadTail length b.addresses).head ++
        (writeTail (getHeadTail length b.addresses).tail ++
          ((if (getHeadTail length b.addresses).headlen +
              (getHeadTail length b.addresses).taillen < length then
            b.addresses.flatMap (mid length (getHeadTail length b.addresses).headlen
              (getHeadTail length b.addresses).taillen) else []) ++
                (b.prefixes ++ b.addressTlvList)))) := by
  unfold serialize
  split
  · next heq =>
    rw [heq] at hmany
    exact absurd hmany (by decide)
  · next heq =>
    rw [heq] at hmany
    exact absurd hmany (Nat.lt_irrefl _)
  · dsimp only
    simp only [List.append_assoc, List.cons_append, List.nil_append]

theorem length_flatMap_mid {headlen taillen : ℕ} {addresses : List (List UInt8)}
    (hall : ∀ a ∈ addresses, a.length = length) :
    (addresses.flatMap (mid length headlen taillen)).length =
      (length - headlen - taillen) * addresses.length := by
  induction addresses with
  | nil => rfl
  | cons a addresses ih =>
      have ha := hall a List.mem_cons_self
      rw [List.flatMap_cons, List.length_append, ih fun c hc => hall c (List.mem_cons_of_mem _ hc),
        List.length_cons, Nat.mul_succ, Nat.add_comm]
      congr 1
      unfold mid
      rw [List.length_take, List.length_drop, ha]
      omega

theorem getSerializedSize_many (hmany : 1 < b.addresses.length) {h : HeadTail}
    (hheadTail : getHeadTail length b.addresses = h) (hfits : h.headlen + h.taillen ≤ length) :
    b.getSerializedSize length = .ofNat (2 + (if 0 < h.headlen then 1 + h.headlen else 0) +
      (if 0 < h.taillen then 1 + if hasZeroTail h.tail then 0 else h.taillen else 0) +
        (length - h.headlen - h.taillen) * b.addresses.length + b.prefixes.length +
          b.addressTlvList.length) := by
  unfold getSerializedSize
  split
  · next heq =>
    rw [heq] at hmany
    exact absurd hmany (by decide)
  · next heq =>
    rw [heq] at hmany
    exact absurd hmany (Nat.lt_irrefl _)
  · rw [hheadTail]
    dsimp only
    rw [UInt32.ofNat_add, UInt32.ofNat_add, UInt32.ofNat_add, UInt32.ofNat_add, UInt32.ofNat_add,
      UInt32.ofNat_mul, UInt32.ofNat_sub (by omega), UInt32.ofNat_sub (by omega)]
    congr 4
    · congr 1
      split
      · rw [UInt32.ofNat_add]
        rfl
      · rfl
    · split
      · split
        · rfl
        · rw [UInt32.ofNat_add]
          rfl
      · rfl

theorem roundTrips_of_shared (hwf : b.WellFormed length) (hmany : 1 < b.addresses.length)
    {h : HeadTail} (hheadTail : getHeadTail length b.addresses = h)
    (hfits : h.headlen + h.taillen < length) (hhead : h.head.length = h.headlen)
    (htail : h.tail.length = h.taillen)
    (hshared : ∀ a ∈ b.addresses, a.take h.headlen = h.head ∧
      a.drop (length - h.taillen) = h.tail) : b.RoundTrips length := by
  have hlength : length ≤ 16 := by
    rcases hwf.addressLength with rfl | rfl <;> decide
  have hserialize : b.serialize length = _ := serialize_many hmany
  rw [hheadTail, if_pos hfits] at hserialize
  have hmid : (length - h.headlen - h.taillen) * b.addresses.length ≤ 16 * 256 :=
    Nat.mul_le_mul (by omega) hwf.count.le
  have hcount := hwf.count
  have htlvs := hwf.addressTlvList
  have hprefixes : b.prefixes.length < 256 := by
    rcases hwf.prefixes with h0 | h1 | hn <;> omega
  refine ⟨fun _ => ?_, ?_, ?_⟩
  · rw [hheadTail]
    exact ⟨hfits.le, hshared⟩
  · have hwritten : (b.serialize length).length =
        2 + (if 0 < h.headlen then 1 + h.headlen else 0) +
          (if 0 < h.taillen then 1 + if hasZeroTail h.tail then 0 else h.taillen else 0) +
            (length - h.headlen - h.taillen) * b.addresses.length + b.prefixes.length +
              b.addressTlvList.length := by
      have hhead' : (writeHead h.head).length = if 0 < h.headlen then 1 + h.headlen else 0 := by
        unfold writeHead
        rw [hhead]
        split
        · rw [List.length_cons, hhead, Nat.add_comm]
        · rfl
      have htail' : (writeTail h.tail).length =
          if 0 < h.taillen then 1 + if hasZeroTail h.tail then 0 else h.taillen else 0 := by
        unfold writeTail
        rw [htail]
        split
        · rw [List.length_cons, Nat.add_comm]
          split
          · rfl
          · rw [htail]
        · rfl
      rw [hserialize, List.length_cons, List.length_cons, List.length_append, List.length_append,
        List.length_append, List.length_append, length_flatMap_mid hwf.addresses, hhead', htail']
      omega
    rw [getSerializedSize_many hmany hheadTail hfits.le, hwritten, UInt32.toNat_ofNat_of_lt']
    change _ < 2 ^ 32
    split_ifs <;> omega
  · rw [hserialize]
    exact deserialize_written (by omega) hfits.le hhead htail
      (fun a ha => ⟨hwf.addresses a ha, hshared a ha⟩) hwf.nonempty hwf.count hwf.prefixes

/-- A single address is written as it is. -/
theorem roundTrips_single (hwf : b.WellFormed length) (hone : b.addresses.length = 1) :
    b.RoundTrips length := by
  obtain ⟨address, haddress⟩ := List.length_eq_one_iff.mp hone
  have hlength : length ≤ 16 := by
    rcases hwf.addressLength with rfl | rfl <;> decide
  have hsize : address.length = length := hwf.addresses address (by rw [haddress]; simp)
  have htlvs := hwf.addressTlvList
  have hprefixes : b.prefixes.length = 0 ∨ b.prefixes.length = 1 := by
    have hcases := hwf.prefixes
    rw [hone] at hcases
    tauto
  have hflags : (if b.prefixes.length = 1 then AHAS_SINGLE_PRE_LEN else 0) =
      flags (decide (0 < 0)) (zeroTail []) (getPrefixFlags b.prefixes.length) := by
    rcases hprefixes with h0 | h1
    · rw [h0]
      decide
    · rw [h1]
      decide
  have hwrites : (if b.prefixes.length = 1 then b.prefixes else []) = b.prefixes := by
    rcases hprefixes with h0 | h1
    · rw [if_neg (by omega), List.eq_nil_of_length_eq_zero h0]
    · rw [if_pos h1]
  have hserialize : b.serialize length = [1, flags (decide (0 < 0)) (zeroTail [])
      (getPrefixFlags b.prefixes.length)] ++ address ++ b.prefixes ++ b.addressTlvList := by
    unfold serialize
    rw [haddress]
    dsimp only
    rw [hflags, hwrites]
  refine ⟨fun hmany => absurd hmany (by omega), ?_, ?_⟩
  · have hcount : b.getSerializedSize length = .ofNat (2 + (length + b.prefixes.length) +
        b.addressTlvList.length) := by
      unfold getSerializedSize
      rw [haddress]
      dsimp only
      rw [UInt32.ofNat_add (2 + (length + b.prefixes.length)), UInt32.ofNat_add 2]
      rfl
    rw [hcount, hserialize, List.length_append, List.length_append, List.length_append, hsize,
      UInt32.toNat_ofNat_of_lt']
    · change 2 + length + _ + _ = _
      omega
    · change _ < 2 ^ 32
      omega
  · have hread : deserialize length (.ofNat [address].length ::
        flags (decide (0 < 0)) (zeroTail []) (getPrefixFlags b.prefixes.length) ::
          (writeHead [] ++ (writeTail [] ++ ([address].flatMap (mid length 0 0) ++
            (b.prefixes ++ b.addressTlvList))))) =
          some ([address], b.prefixes, b.addressTlvList) := by
      refine deserialize_written (by omega) (Nat.zero_le _) rfl rfl (fun a ha => ?_)
        (List.cons_ne_nil _ _) (by rw [List.length_singleton]; decide) (by tauto)
      rw [List.mem_singleton.mp ha]
      exact ⟨hsize, rfl, List.drop_eq_nil_of_le (by omega)⟩
    have hmid : [address].flatMap (mid length 0 0) = address := by
      rw [List.flatMap_singleton]
      unfold mid
      rw [List.drop_zero, List.take_of_length_le (by omega)]
    rw [hmid] at hread
    rw [hserialize, haddress, ← hread]
    simp only [List.append_assoc, List.cons_append, List.nil_append]
    rfl

/-- The last pass of `GetHeadTail`, over the last two addresses: `before` and `lens` are the lengths
before and after it. -/
structure LastPass (length : ℕ) (addresses : List (List UInt8)) (last cur : List UInt8)
    (before lens : ℕ × ℕ) : Prop where
  ends : ∃ front, addresses = front ++ [last, cur]
  shares : ∀ t ≤ length, SharesTail addresses t → t ≤ before.2
  narrowed : Narrowed length addresses cur lens
  tail : lens.1 < length → ∀ t, t ≤ lens.2 ↔ t ≤ min (before.2 + 1) (length - 1 - lens.1) ∧
    t ≤ length ∧ last.reverse.take t = cur.reverse.take t
  headTail : getHeadTail length addresses =
    ⟨lens.1, lens.2, last.take lens.1, (last.drop (length - lens.2)).take lens.2⟩

theorem exists_lastPass (hwf : b.WellFormed length) (hmany : 1 < b.addresses.length) :
    ∃ last cur before lens, LastPass length b.addresses last cur before lens := by
  have hpos : 0 < length := by
    rcases hwf.addressLength with rfl | rfl <;> decide
  obtain ⟨front, cur, haddresses⟩ : ∃ front cur, b.addresses = front ++ [cur] :=
    ⟨_, _, (List.dropLast_append_getLast hwf.nonempty).symm⟩
  have hfrontNe : front ≠ [] := by
    rintro rfl
    rw [haddresses] at hmany
    exact absurd hmany (Nat.lt_irrefl _)
  have hall := hwf.addresses
  rw [haddresses] at hall
  have hfront : ∀ a ∈ front, a.length = length := fun a ha => hall a (List.mem_append_left _ ha)
  have hcur : cur.length = length := hall cur (by simp)
  obtain ⟨last, before, hbefore, hdone, hheadTail⟩ :=
    getHeadTail_concat hfrontNe hpos hfront hcur
  rw [← haddresses] at hheadTail hdone
  have hlast := hfront last (List.mem_of_getLast? hbefore.last)
  have hreverse : last.reverse.length = cur.reverse.length := by
    rw [List.length_reverse, List.length_reverse, hlast, hcur]
  refine ⟨last, cur, before, _, ?_, fun t ht hshares => ?_, hdone, fun hlt t => ?_, hheadTail⟩
  · obtain ⟨front', hfront'⟩ := List.getLast?_eq_some_iff.mp hbefore.last
    refine ⟨front', ?_⟩
    rw [haddresses, hfront', List.append_assoc]
    rfl
  · rw [haddresses] at hshares
    exact hbefore.tail t ht fun x hx y hy =>
      hshares x (List.mem_append_left _ hx) y (List.mem_append_left _ hy)
  · rw [narrow_tail hlt, le_same_iff hreverse, List.length_reverse, hlast]

section LastPass

variable {last cur : List UInt8} {before lens : ℕ × ℕ}

theorem LastPass.last_mem (h : LastPass length b.addresses last cur before lens) :
    last ∈ b.addresses := by
  obtain ⟨front, haddresses⟩ := h.ends
  rw [haddresses]
  simp

/-- A head and a tail that all addresses share have narrowed down to the end. -/
theorem LastPass.settles (h : LastPass length b.addresses last cur before lens)
    (hwf : b.WellFormed length) (hfits : lens.1 + lens.2 ≤ length)
    (hsame : ∀ a ∈ b.addresses,
      a.drop (length - lens.2) = (last.drop (length - lens.2)).take lens.2) :
    Settles length b.addresses := by
  have hpos : 0 < length := by
    rcases hwf.addressLength with rfl | rfl <;> decide
  have hlt : lens.1 < length := by
    refine lt_of_le_of_ne ((h.narrowed.head lens.1).mp (Nat.le_refl _)).1 fun hwhole => ?_
    have hboth := h.narrowed.whole hwhole
    omega
  have hroom := h.narrowed.fits hlt
  have hshares : SharesTail b.addresses lens.2 := fun x hx y hy => by
    rw [List.take_reverse, List.take_reverse, hwf.addresses x hx, hwf.addresses y hy,
      hsame x hx, hsame y hy]
  refine ⟨fun hequal => ?_, lens.2, by omega, hshares, ?_⟩
  · have hfull := (h.narrowed.head length).mpr ⟨Nat.le_refl _, hequal⟩
    omega
  · by_contra hnot
    rw [not_or] at hnot
    obtain ⟨hhead, hpair⟩ := hnot
    -- The loop for the tail could have gone on, and it was not stopped by the length before.
    have hgoes : last.reverse.take (lens.2 + 1) = cur.reverse.take (lens.2 + 1) := by
      by_contra hdiffer
      refine hpair fun front₂ x y hxy => ?_
      obtain ⟨front, haddresses⟩ := h.ends
      rw [haddresses] at hxy
      obtain ⟨hx, hy⟩ := List.cons.inj (List.append_inj' hxy rfl).2
      rw [← hx, ← (List.cons.inj hy).1]
      exact hdiffer
    have hprev : lens.2 ≤ before.2 := h.shares _ (by omega) hshares
    have hstop : length - 1 - lens.1 ≤ lens.2 := by
      by_contra hmore
      have hnext := (h.tail hlt (lens.2 + 1)).mpr ⟨by omega, by omega, hgoes⟩
      omega
    have heq : length - 1 - lens.2 = lens.1 := by omega
    refine hhead ?_
    rw [heq]
    exact ((h.narrowed.head lens.1).mp (Nat.le_refl _)).2

/-- Where the narrowing settles, its head and its tail are shared. -/
theorem LastPass.roundTrips (h : LastPass length b.addresses last cur before lens)
    (hwf : b.WellFormed length) (hmany : 1 < b.addresses.length)
    (hsettles : Settles length b.addresses) : b.RoundTrips length := by
  obtain ⟨hdiffer, k, hk, hshares, hends⟩ := hsettles
  obtain ⟨hle, hhead⟩ := (h.narrowed.head lens.1).mp (Nat.le_refl _)
  have hlast := hwf.addresses last h.last_mem
  have hlt : lens.1 < length := by
    refine lt_of_le_of_ne hle fun hwhole => hdiffer ?_
    rw [← hwhole]
    exact hhead
  have hroom := h.narrowed.fits hlt
  have hshort : lens.2 ≤ k := by
    rcases hends with hrest | hpair
    · have hlong := (h.narrowed.head (length - 1 - k)).mpr ⟨by omega, hrest⟩
      omega
    · by_contra hlong
      obtain ⟨front, haddresses⟩ := h.ends
      have htake := congrArg (List.take (k + 1)) ((h.tail hlt lens.2).mp (Nat.le_refl _)).2.2
      rw [List.take_take, List.take_take, Nat.min_eq_left (by omega)] at htake
      exact hpair _ _ _ haddresses htake
  refine roundTrips_of_shared hwf hmany h.headTail hroom ?_ ?_ fun a ha => ⟨?_, ?_⟩
  · change (last.take lens.1).length = lens.1
    rw [List.length_take, hlast]
    omega
  · change ((last.drop (length - lens.2)).take lens.2).length = lens.2
    rw [List.length_take, List.length_drop, hlast]
    omega
  · exact hhead a ha last h.last_mem
  · change a.drop (length - lens.2) = (last.drop (length - lens.2)).take lens.2
    have htake := congrArg (List.take lens.2) (hshares a ha last h.last_mem)
    rw [List.take_take, List.take_take, Nat.min_eq_left hshort, List.take_reverse,
      List.take_reverse, List.reverse_inj, hwf.addresses a ha, hlast] at htake
    rw [htake, List.take_of_length_le]
    rw [List.length_drop, hlast]
    omega

end LastPass

/-- An address block is read as it was written, with a head and a tail that all addresses share, if
and only if it has a single address or the narrowing settles. -/
theorem addressBlock_roundTrips_iff (hwf : b.WellFormed length) : b.RoundTrips length ↔
    b.addresses.length = 1 ∨ Settles length b.addresses := by
  rcases Nat.lt_or_ge 1 b.addresses.length with hmany | hfew
  case inr =>
    have hone : b.addresses.length = 1 :=
      le_antisymm hfew (List.length_pos_iff.mpr hwf.nonempty)
    exact iff_of_true (roundTrips_single hwf hone) (Or.inl hone)
  obtain ⟨last, cur, before, lens, hpass⟩ := exists_lastPass hwf hmany
  constructor
  · rintro ⟨hshared, -, -⟩
    obtain ⟨hfits, hsame⟩ := hshared hmany
    rw [hpass.headTail] at hfits hsame
    exact Or.inr (hpass.settles hwf hfits fun a ha => (hsame a ha).2)
  · rintro (hone | hsettles)
    · omega
    · exact hpass.roundTrips hwf hmany hsettles

/-- The addresses 10.0.0.1, 10.0.1.1 and 10.0.0.1, and a prefix for each. -/
def settling : PbbAddressBlock :=
  ⟨[[10, 0, 0, 1], [10, 0, 1, 1], [10, 0, 0, 1]], [32, 32, 24], [0, 0]⟩

theorem roundTrips_settling : settling.RoundTrips 4 :=
  (addressBlock_roundTrips_iff
      ⟨Or.inl rfl, by decide, by decide, by decide, by decide, by decide⟩).mpr
    (Or.inr ⟨fun h => absurd (h [10, 0, 0, 1] (by decide) [10, 0, 1, 1] (by decide)) (by decide),
      1, by decide, by unfold SharesTail; decide, Or.inl (by unfold SharesHead; decide)⟩)

/-- The tail grows when the last two addresses are alike, and two equal addresses have a head and a
tail of all four bytes each. -/
theorem not_roundTrips :
    ¬ (⟨[[0, 0, 0, 1], [1, 0, 0, 2], [2, 0, 0, 2]], [], [0, 0]⟩ : PbbAddressBlock).RoundTrips 4 ∧
      ¬ (⟨[[10, 0, 0, 1], [10, 0, 0, 1]], [], [0, 0]⟩ : PbbAddressBlock).RoundTrips 4 := by
  refine ⟨fun h => absurd h.addresses (by decide), fun h => absurd h.addresses (by decide)⟩

end PbbAddressBlock

end Ns3Rdma
