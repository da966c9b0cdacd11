import Mathlib.Order.Nat
import Mathlib.Order.Lattice.Nat
import Ns3Rdma.Net.Ipv4Reassembly

/-!
# The packet of a reassembly timeout

When the timer of a queue expires, `Fragments::GetPartialPacket` assembles what has arrived
without a hole. It subtracts the start of an overlap from the size of the fragment without
comparing them, so a fragment that ends inside the bytes already assembled makes the unsigned
difference wrap around.
-/

namespace Ns3Rdma.Ipv4

namespace Fragments

/-- The loop of `GetPartialPacket`; `none` where the size of the new part would be negative. -/
def getPartialPacketLoop (p : List UInt8) (lastEndOffset : ℕ) : List Piece → Option (List UInt8)
  | [] => some p
  | it :: rest =>
      let next :=
        if lastEndOffset > it.2.toNat then
          let newStart := lastEndOffset - it.2.toNat
          if it.1.length < newStart then none
          else some (p ++ createFragment it.1 newStart (it.1.length - newStart))
        else if lastEndOffset = it.2.toNat then some (p ++ it.1)
        else some p
      next.bind fun next => getPartialPacketLoop next (next.length % 2 ^ 16) rest

/-- `GetPartialPacket`, which reads the first fragment of the list in any case. -/
def getPartialPacket (q : Fragments) : Option (List UInt8) :=
  match q.fragments with
  | [] => none
  | first :: _ =>
      if first.2.toNat > 0 then some [] else getPartialPacketLoop [] 0 q.fragments

/-- The queue after fragments have arrived in some order. -/
def collect (arrived : List Ipv4Packet) : Fragments :=
  arrived.foldl (fun q p =>
    q.addFragment p.payload p.header.fragmentOffset (!p.header.isLastFragment)) empty

end Fragments

/-! ## The covered prefix -/

/-- A byte of the datagram that has arrived in some piece. -/
def Covered (pieces : List Piece) (i : ℕ) : Prop :=
  ∃ x ∈ pieces, Piece.start x ≤ i ∧ i < Piece.stop x

/-- The first byte of the datagram that has not arrived. -/
noncomputable def coveredPrefix (pieces : List Piece) : ℕ := sInf {i | ¬ Covered pieces i}

/-- In the order of offsets the prefix grows until a piece starts behind its end. -/
def prefixFrom (n : ℕ) : List Piece → ℕ
  | [] => n
  | x :: rest => if Piece.start x ≤ n then prefixFrom (max n (Piece.stop x)) rest else n

/-- Each piece that reaches the prefix is at least as long as it. -/
def Extends (n : ℕ) : List Piece → Prop
  | [] => True
  | x :: rest =>
      Piece.start x ≤ n → n ≤ Piece.stop x ∧ Extends (max n (Piece.stop x)) rest

theorem le_prefixFrom (n : ℕ) (pieces : List Piece) : n ≤ prefixFrom n pieces := by
  induction pieces generalizing n with
  | nil => exact Nat.le_refl n
  | cons x rest ih =>
      rw [prefixFrom]
      split
      · exact (Nat.le_max_left _ _).trans (ih _)
      · exact Nat.le_refl n

theorem covered_prefixFrom {n i : ℕ} {pieces : List Piece} (hn : n ≤ i)
    (hi : i < prefixFrom n pieces) : Covered pieces i := by
  induction pieces generalizing n with
  | nil => exact absurd hi (Nat.not_lt.mpr hn)
  | cons x rest ih =>
      rw [prefixFrom] at hi
      split at hi
      next hstart =>
        by_cases hmax : max n (Piece.stop x) ≤ i
        · obtain ⟨y, hy, hcover⟩ := ih hmax hi
          exact ⟨y, List.mem_cons_of_mem _ hy, hcover⟩
        · exact ⟨x, List.mem_cons_self, hstart.trans hn, by omega⟩
      next => exact absurd hi (Nat.not_lt.mpr hn)

/-- A piece of the datagram that starts in what is assembled and ends behind it extends it to its
own end. -/
theorem append_piece {data : List UInt8} {x : List UInt8 × UInt16} (hx : IsSlice data x) {n : ℕ}
    (hstart : Piece.start x ≤ n) (hlong : n ≤ Piece.stop x) :
    (if n > x.2.toNat then
        if x.1.length < n - x.2.toNat then none
        else some (data.take n ++
          createFragment x.1 (n - x.2.toNat) (x.1.length - (n - x.2.toNat)))
      else if n = x.2.toNat then some (data.take n ++ x.1) else some (data.take n)) =
      some (data.take (Piece.stop x)) := by
  have hself : Piece.stop x = x.2.toNat + x.1.length := rfl
  have hbegin : Piece.start x = x.2.toNat := rfl
  rw [take_stop_of_slice hx hstart hlong, hbegin]
  split
  next hover =>
    have htail : createFragment x.1 (n - x.2.toNat) (x.1.length - (n - x.2.toNat)) =
        x.1.drop (n - x.2.toNat) := by
      rw [createFragment, List.take_of_length_le]
      rw [List.length_drop]
    rw [if_neg (by omega), htail]
  next hover =>
    have hequal : n = x.2.toNat := by omega
    rw [if_pos hequal, hequal, Nat.sub_self, List.drop_zero]

section Sorted

variable {pieces : List Piece}
  (hsorted : pieces.Pairwise fun x y => Piece.start x ≤ Piece.start y)

include hsorted

theorem not_covered_prefixFrom (n : ℕ) : ¬ Covered pieces (prefixFrom n pieces) := by
  induction pieces generalizing n with
  | nil =>
      rintro ⟨x, hx, -⟩
      cases hx
  | cons x rest ih =>
      obtain ⟨hfirst, hrest⟩ := List.pairwise_cons.mp hsorted
      rw [prefixFrom]
      rintro ⟨y, hy, hle, hlt⟩
      split at hle
      next hstart =>
        rw [if_pos hstart] at hlt
        rcases List.mem_cons.mp hy with rfl | hy
        · have hgrown := le_prefixFrom (max n (Piece.stop y)) rest
          omega
        · exact ih hrest _ ⟨y, hy, hle, hlt⟩
      next hstart =>
        rcases List.mem_cons.mp hy with rfl | hy
        · exact hstart hle
        · exact hstart ((hfirst y hy).trans hle)

theorem coveredPrefix_eq : coveredPrefix pieces = prefixFrom 0 pieces := by
  have hgap := not_covered_prefixFrom hsorted 0
  apply le_antisymm
  · exact Nat.sInf_le hgap
  · apply le_csInf ⟨_, hgap⟩
    intro i hi
    exact Nat.le_of_not_lt fun hlt => hi (covered_prefixFrom (Nat.zero_le i) hlt)

/-- Behind a hole every piece is skipped. -/
theorem getPartialPacketLoop_skip {p : List UInt8} (hp : p.length < 2 ^ 16)
    (hhole : ∀ x ∈ pieces, p.length < Piece.start x) :
    Fragments.getPartialPacketLoop p p.length pieces = some p := by
  induction pieces with
  | nil => rfl
  | cons x rest ih =>
      have hx : p.length < x.2.toNat := hhole x List.mem_cons_self
      have hrest := ih (List.pairwise_cons.mp hsorted).2
        fun y hy => hhole y (List.mem_cons_of_mem _ hy)
      rw [Fragments.getPartialPacketLoop]
      simp only [gt_iff_lt, Nat.not_lt.mpr hx.le, if_false, hx.ne, Option.bind_some]
      rwa [Nat.mod_eq_of_lt hp]

/-- From pieces of one datagram the loop assembles the covered prefix, or computes a negative
size. -/
theorem getPartialPacketLoop_eq {data : List UInt8} (hdata : data.length < 2 ^ 16)
    (hslice : ∀ x ∈ pieces, IsSlice data x) {n : ℕ} (hn : n ≤ data.length) :
    Fragments.getPartialPacketLoop (data.take n) n pieces =
        some (data.take (prefixFrom n pieces)) ↔ Extends n pieces := by
  induction pieces generalizing n with
  | nil => exact iff_of_true rfl trivial
  | cons x rest ih =>
      have hlength : ∀ m ≤ data.length, (data.take m).length = m := fun m hm => by
        rw [List.length_take, Nat.min_eq_left hm]
      rw [prefixFrom, Extends]
      by_cases hstart : Piece.start x ≤ n
      · have hx := hslice x List.mem_cons_self
        have hstop : Piece.stop x ≤ data.length := hx.choose_spec.2
        have hself : Piece.stop x = x.2.toNat + x.1.length := rfl
        have hbegin : Piece.start x = x.2.toNat := rfl
        have hrest := ih (List.pairwise_cons.mp hsorted).2
          (fun y hy => hslice y (List.mem_cons_of_mem _ hy)) hstop
        rw [if_pos hstart, Fragments.getPartialPacketLoop]
        by_cases hlong : n ≤ Piece.stop x
        · dsimp only
          rw [append_piece hx hstart hlong, Option.bind_some, hlength _ hstop,
            Nat.mod_eq_of_lt (hstop.trans_lt hdata), Nat.max_eq_right hlong, hrest]
          exact ⟨fun h _ => ⟨hlong, h⟩, fun h => (h hstart).2⟩
        · -- the piece ends inside what is already assembled
          have hover : n > x.2.toNat := by omega
          have hshort : x.1.length < n - x.2.toNat := by omega
          simp only [hover, hshort, if_true, Option.bind_none]
          exact iff_of_false (by simp) fun h => hlong (h hstart).1
      · have hskip := getPartialPacketLoop_skip hsorted (p := data.take n)
          (by rw [hlength n hn]; exact hn.trans_lt hdata) ?_
        · rw [hlength n hn] at hskip
          rw [if_neg hstart, hskip]
          exact iff_of_true rfl fun h => absurd h hstart
        · intro y hy
          rw [hlength n hn]
          rcases List.mem_cons.mp hy with rfl | hy
          · exact Nat.lt_of_not_le hstart
          · exact (Nat.lt_of_not_le hstart).trans_le ((List.pairwise_cons.mp hsorted).1 y hy)

/-- In the order of offsets: a piece inside the prefix does not end before an earlier one. -/
theorem extends_iff (n : ℕ) :
    Extends n pieces ↔
      (∀ y ∈ pieces, Piece.start y < prefixFrom n pieces → n ≤ Piece.stop y) ∧
        pieces.Pairwise fun x y =>
          Piece.start y < prefixFrom n pieces → Piece.stop x ≤ Piece.stop y := by
  induction pieces generalizing n with
  | nil => simp [Extends]
  | cons x rest ih =>
      obtain ⟨hfirst, hrest⟩ := List.pairwise_cons.mp hsorted
      have hself : Piece.start x ≤ Piece.stop x := Nat.le_add_right _ _
      rw [Extends, prefixFrom]
      by_cases hstart : Piece.start x ≤ n
      · have hgrown := le_prefixFrom (max n (Piece.stop x)) rest
        rw [if_pos hstart, ih hrest, List.pairwise_cons]
        constructor
        · intro h
          obtain ⟨hx, hlater, hpairs⟩ := h hstart
          refine ⟨?_, fun y hy hin => ?_, hpairs⟩
          · intro y hy hin
            rcases List.mem_cons.mp hy with rfl | hy
            · exact hx
            · exact (Nat.le_max_left _ _).trans (hlater y hy hin)
          · exact (Nat.le_max_right _ _).trans (hlater y hy hin)
        · rintro ⟨hlong, hearlier, hpairs⟩ _
          have hx : n ≤ Piece.stop x := by
            by_cases hin : Piece.start x < prefixFrom (max n (Piece.stop x)) rest
            · exact hlong x List.mem_cons_self hin
            · omega
          refine ⟨hx, fun y hy hin => ?_, hpairs⟩
          rw [Nat.max_eq_right hx]
          exact hearlier y hy hin
      · rw [if_neg hstart]
        refine iff_of_true (fun h => absurd h hstart) ⟨fun y hy hin => ?_, ?_⟩
        · rcases List.mem_cons.mp hy with rfl | hy
          · omega
          · have hle := hfirst y hy
            omega
        · refine hsorted.imp_of_mem fun {a b} ha hb _ hin => ?_
          rcases List.mem_cons.mp hb with rfl | hb
          · omega
          · have hle := hfirst b hb
            omega

end Sorted

/-! ## From any order of arrivals -/

theorem collect_append (arrived : List Ipv4Packet) (p : Ipv4Packet) :
    Fragments.collect (arrived ++ [p]) = (Fragments.collect arrived).addFragment p.payload
      p.header.fragmentOffset (!p.header.isLastFragment) := by
  simp [Fragments.collect]

theorem mem_collect {arrived : List Ipv4Packet} {x : Piece} :
    x ∈ (Fragments.collect arrived).fragments ↔ x ∈ arrived.map Ipv4Packet.piece := by
  induction arrived using List.reverseRecOn with
  | nil => simp [Fragments.collect, Fragments.empty]
  | append_singleton arrived p ih =>
      rw [collect_append, mem_addFragment, ih, List.map_append, List.mem_append, or_comm]
      simp [Ipv4Packet.piece]

theorem collect_sorted (arrived : List Ipv4Packet) :
    (Fragments.collect arrived).fragments.Pairwise fun x y => Piece.start x ≤ Piece.start y := by
  induction arrived using List.reverseRecOn with
  | nil => exact List.Pairwise.nil
  | append_singleton arrived p ih =>
      rw [collect_append]
      exact addFragment_sorted ih _ _ _

theorem covered_collect (arrived : List Ipv4Packet) (i : ℕ) :
    Covered (Fragments.collect arrived).fragments i ↔ Covered (arrived.map Ipv4Packet.piece) i := by
  unfold Covered
  simp only [mem_collect]

/-- The timeout hands on the longest prefix of the datagram that has arrived. -/
def PartialIsPrefix (data : List UInt8) (arrived : List Ipv4Packet) : Prop :=
  (Fragments.collect arrived).getPartialPacket =
    some (data.take (coveredPrefix (arrived.map Ipv4Packet.piece)))

/-- `GetPartialPacket` is right exactly while no fragment in the covered prefix ends before one
that stands before it in the queue. -/
theorem partialIsPrefix_iff {data : List UInt8} (hdata : data.length < 2 ^ 16)
    (arrived : List Ipv4Packet) (harrived : arrived ≠ [])
    (hslice : ∀ p ∈ arrived, IsSlice data p.piece) :
    PartialIsPrefix data arrived ↔
      (Fragments.collect arrived).fragments.Pairwise fun x y =>
        Piece.start y < coveredPrefix (arrived.map Ipv4Packet.piece) →
          Piece.stop x ≤ Piece.stop y := by
  have hsorted := collect_sorted arrived
  have hprefix : coveredPrefix (arrived.map Ipv4Packet.piece) =
      prefixFrom 0 (Fragments.collect arrived).fragments := by
    rw [← coveredPrefix_eq hsorted, coveredPrefix, coveredPrefix]
    simp only [covered_collect]
  have hpieces : ∀ x ∈ (Fragments.collect arrived).fragments, IsSlice data x := by
    intro x hx
    obtain ⟨p, hp, rfl⟩ := List.mem_map.mp (mem_collect.mp hx)
    exact hslice p hp
  have hloop := getPartialPacketLoop_eq hsorted hdata hpieces (Nat.zero_le _)
  rw [extends_iff hsorted] at hloop
  rw [PartialIsPrefix, hprefix, Fragments.getPartialPacket]
  split
  next hnil =>
    obtain ⟨p, hp⟩ := List.exists_mem_of_ne_nil arrived harrived
    have hmem : p.piece ∈ (Fragments.collect arrived).fragments :=
      mem_collect.mpr (List.mem_map_of_mem hp)
    rw [hnil] at hmem
    cases hmem
  next first rest hcons =>
    split
    next hhole =>
      have hnone : prefixFrom 0 (Fragments.collect arrived).fragments = 0 := by
        rw [hcons, prefixFrom]
        exact if_neg (Nat.not_le.mpr hhole)
      rw [hnone]
      refine iff_of_true rfl (List.pairwise_of_forall fun x y hlt => ?_)
      exact absurd hlt (Nat.not_lt_zero _)
    next hhole =>
      rw [List.take_zero] at hloop
      rw [hloop]
      exact and_iff_right fun y _ _ => Nat.zero_le _

/-- A fragment of the datagram `0, 1, 2, ...` -/
def countingFragment (offset length : ℕ) : Ipv4Packet where
  header := ⟨1, 2, 0, 17, false, true, UInt16.ofNat offset, UInt16.ofNat length⟩
  payload := (List.range' offset length).map UInt8.ofNat

/-- Two overlapping fragments out of order, and a third one behind a hole. -/
theorem partialIsPrefix_overlap :
    PartialIsPrefix ((List.range' 0 64).map UInt8.ofNat)
      [countingFragment 8 16, countingFragment 40 8, countingFragment 0 16] :=
  (partialIsPrefix_iff (by decide) _ (by decide) (by
    intro p hp
    simp only [List.mem_cons, List.not_mem_nil, or_false] at hp
    rcases hp with rfl | rfl | rfl
    · exact ⟨(List.range' 24 40).map UInt8.ofNat, by decide, by decide⟩
    · exact ⟨(List.range' 48 16).map UInt8.ofNat, by decide, by decide⟩
    · exact ⟨(List.range' 16 48).map UInt8.ofNat, by decide, by decide⟩)).mpr (by
      have hends : (Fragments.collect [countingFragment 8 16, countingFragment 40 8,
          countingFragment 0 16]).fragments.Pairwise
            fun x y => Piece.stop x ≤ Piece.stop y := by decide
      refine hends.imp ?_
      intro x y h _
      exact h)

/-- A fragment inside another one makes the size negative. -/
theorem not_partialIsPrefix_contained :
    ¬ PartialIsPrefix ((List.range' 0 64).map UInt8.ofNat)
      [countingFragment 0 24, countingFragment 8 8] := by
  have hnone : (Fragments.collect [countingFragment 0 24, countingFragment 8 8]).getPartialPacket =
      none := by decide
  rw [PartialIsPrefix, hnone]
  simp

end Ns3Rdma.Ipv4
