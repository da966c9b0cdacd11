import Mathlib.Data.List.TakeWhile
import Mathlib.Logic.Function.Basic
import Ns3Rdma.Net.Ipv4Fragmentation

/-!
# Reassembly of IPv4 fragments

`Ipv4L3Protocol::ProcessFragment` collects fragments in a queue per key, ordered by their
offset, until the queue is entire. What is assembled from pieces of one datagram is that
datagram, and the queue is entire as soon as every piece of a tiling has arrived.
-/

namespace Ns3Rdma.Ipv4

/-- A fragment of `Fragments::m_fragments`: its bytes and its offset. -/
abbrev Piece := List UInt8 × UInt16

/-- The class `Ipv4L3Protocol::Fragments`. -/
structure Fragments where
  moreFragment : Bool
  fragments : List Piece

namespace Fragments

/-- A queue that was just created. -/
def empty : Fragments := ⟨false, []⟩

/-- `AddFragment`: insert before the first fragment with a greater offset. -/
def addFragment (q : Fragments) (fragment : List UInt8) (fragmentOffset : UInt16)
    (moreFragment : Bool) : Fragments :=
  let before := q.fragments.takeWhile fun it => !decide (it.2 > fragmentOffset)
  let it := q.fragments.dropWhile fun it => !decide (it.2 > fragmentOffset)
  { moreFragment := if it = [] then moreFragment else q.moreFragment
    fragments := before ++ (fragment, fragmentOffset) :: it }

/-- The loop of `IsEntire`; the ends of fragments are kept in 16 bits. -/
def isEntireLoop (lastEndOffset : Nat) : List Piece → Bool
  | [] => true
  | it :: rest =>
      if lastEndOffset < it.2.toNat then false
      else isEntireLoop (max lastEndOffset ((it.1.length + it.2.toNat) % 2 ^ 16)) rest

def isEntire (q : Fragments) : Bool :=
  !q.moreFragment && decide (q.fragments.length > 0) && isEntireLoop 0 q.fragments

/-- The loop of `GetPacket`: append what lies behind the end of the packet. -/
def getPacketLoop (p : List UInt8) (lastEndOffset : Nat) : List Piece → List UInt8
  | [] => p
  | it :: rest =>
      let next :=
        if lastEndOffset > it.2.toNat then
          let newStart := lastEndOffset - it.2.toNat
          if it.1.length > newStart then
            p ++ createFragment it.1 newStart (it.1.length - newStart)
          else p
        else p ++ it.1
      getPacketLoop next (next.length % 2 ^ 16) rest

def getPacket (q : Fragments) : List UInt8 := getPacketLoop [] 0 q.fragments

end Fragments

/-- The keys of `m_fragments`. -/
abbrev Key := UInt64 × UInt32

/-- The key of a header in `ProcessFragment`; `&` binds weaker than `<<`. -/
def Ipv4Header.key (ipHeader : Ipv4Header) : Key :=
  (ipHeader.source.toUInt64 <<< 32 &&& ipHeader.destination.toUInt64,
    ipHeader.identification.toUInt32 <<< 16 &&& ipHeader.protocol.toUInt32)

/-- The map `m_fragments`. -/
abbrev Queues := Key → Option Fragments

/-- `ProcessFragment`: the map afterwards, and the reassembled packet if it returns true. -/
def processFragment (m : Queues) (packet : Ipv4Packet) : Queues × Option (List UInt8) :=
  let fragments := ((m packet.header.key).getD Fragments.empty).addFragment packet.payload
    packet.header.fragmentOffset (!packet.header.isLastFragment)
  if fragments.isEntire then
    (Function.update m packet.header.key none, some fragments.getPacket)
  else (Function.update m packet.header.key (some fragments), none)

/-! ## Pieces of one datagram -/

/-- First byte of a piece. -/
def Piece.start (x : Piece) : Nat := x.2.toNat

/-- End of a piece. -/
def Piece.stop (x : Piece) : Nat := x.2.toNat + x.1.length

/-- The bytes of the piece are those of the datagram at its offset. -/
def IsSlice (data : List UInt8) (x : Piece) : Prop :=
  ∃ rest, data.drop (Piece.start x) = x.1 ++ rest ∧ Piece.stop x ≤ data.length

theorem take_stop_of_slice {data : List UInt8} {x : Piece} (h : IsSlice data x) {n : Nat}
    (hn : Piece.start x ≤ n) (hle : n ≤ Piece.stop x) :
    data.take (Piece.stop x) = data.take n ++ x.1.drop (n - Piece.start x) := by
  obtain ⟨rest, hrest, -⟩ := h
  have hsplit : Piece.stop x = n + (Piece.stop x - n) := by omega
  have hdrop : data.drop n = (x.1 ++ rest).drop (n - Piece.start x) := by
    rw [← hrest, List.drop_drop]
    congr 1
    omega
  have hstop : Piece.stop x = Piece.start x + x.1.length := rfl
  have htake : ((x.1 ++ rest).drop (n - Piece.start x)).take (Piece.stop x - n) =
      x.1.drop (n - Piece.start x) := by
    have hlength : Piece.stop x - n = (x.1.drop (n - Piece.start x)).length := by
      rw [List.length_drop]
      omega
    rw [List.drop_append_of_le_length (by omega), hlength, List.take_left]
  conv => lhs; rw [hsplit, List.take_add]
  rw [hdrop, htake]

/-- From pieces of one datagram the loop of `GetPacket` assembles a prefix of it. -/
theorem getPacketLoop_eq {data : List UInt8} (hdata : data.length < 2 ^ 16) {pieces : List Piece}
    (hslice : ∀ x ∈ pieces, IsSlice data x) {n : Nat} (hn : n ≤ data.length)
    (hentire : Fragments.isEntireLoop n pieces = true) :
    ∃ m, n ≤ m ∧ (∀ x ∈ pieces, Piece.stop x ≤ m) ∧
      Fragments.getPacketLoop (data.take n) n pieces = data.take m := by
  induction pieces generalizing n with
  | nil => exact ⟨n, Nat.le_refl n, by simp, rfl⟩
  | cons x rest ih =>
      have hx := hslice x List.mem_cons_self
      have hstop : Piece.stop x ≤ data.length := hx.choose_spec.2
      have hstopEq : Piece.stop x = Piece.start x + x.1.length := rfl
      unfold Fragments.isEntireLoop at hentire
      split at hentire
      next => cases hentire
      next hgap =>
      have hstart : Piece.start x ≤ n := Nat.le_of_not_lt hgap
      have hmod : (x.1.length + x.2.toNat) % 2 ^ 16 = Piece.stop x := by
        rw [Nat.add_comm]
        exact Nat.mod_eq_of_lt (Nat.lt_of_le_of_lt hstop hdata)
      rw [hmod] at hentire
      have hbound : max n (Piece.stop x) ≤ data.length := max_le hn hstop
      obtain ⟨m, hm, hstops, hpacket⟩ := ih (fun y hy => hslice y (List.mem_cons_of_mem _ hy))
        hbound hentire
      refine ⟨m, Nat.le_trans (Nat.le_max_left _ _) hm, ?_, ?_⟩
      · intro y hy
        rcases List.mem_cons.mp hy with rfl | hy
        · exact Nat.le_trans (Nat.le_max_right _ _) hm
        · exact hstops y hy
      · have hnext : (if n > x.2.toNat then
            if x.1.length > n - x.2.toNat then
              data.take n ++ createFragment x.1 (n - x.2.toNat) (x.1.length - (n - x.2.toNat))
            else data.take n
          else data.take n ++ x.1) = data.take (max n (Piece.stop x)) := by
          change (if n > Piece.start x then
            if x.1.length > n - Piece.start x then
              data.take n ++
                createFragment x.1 (n - Piece.start x) (x.1.length - (n - Piece.start x))
            else data.take n
          else data.take n ++ x.1) = _
          split
          next hover =>
              split
              next hlong =>
                  have htail : createFragment x.1 (n - Piece.start x)
                      (x.1.length - (n - Piece.start x)) = x.1.drop (n - Piece.start x) := by
                    rw [createFragment, List.take_of_length_le]
                    rw [List.length_drop]
                  rw [htail, ← take_stop_of_slice hx hstart (by omega),
                    Nat.max_eq_right (by omega)]
              next hlong => rw [Nat.max_eq_left (by omega)]
          next hover =>
              have hzero : n - Piece.start x = 0 := by omega
              have htake := take_stop_of_slice hx hstart (by omega : n ≤ Piece.stop x)
              rw [hzero, List.drop_zero] at htake
              rw [← htake, Nat.max_eq_right (by omega)]
        have hlength : (data.take (max n (Piece.stop x))).length % 2 ^ 16 =
            max n (Piece.stop x) := by
          rw [List.length_take, Nat.min_eq_left hbound]
          exact Nat.mod_eq_of_lt (Nat.lt_of_le_of_lt hbound hdata)
        unfold Fragments.getPacketLoop
        dsimp only
        rw [hnext, hlength]
        exact hpacket

/-! ## One queue -/

/-- What a packet puts into its queue. -/
def Ipv4Packet.piece (p : Ipv4Packet) : Piece := (p.payload, p.header.fragmentOffset)

theorem mem_addFragment {q : Fragments} {fragment : List UInt8} {offset : UInt16} {more : Bool}
    {x : Piece} : x ∈ (q.addFragment fragment offset more).fragments ↔
      x = (fragment, offset) ∨ x ∈ q.fragments := by
  conv => rhs; rw [← List.takeWhile_append_dropWhile (l := q.fragments)
    (p := fun it : Piece => !decide (it.2 > offset))]
  simp only [Fragments.addFragment, List.mem_append, List.mem_cons]
  tauto

/-- The flag is overwritten when no stored fragment has a greater offset. -/
theorem addFragment_moreFragment (q : Fragments) (fragment : List UInt8) (offset : UInt16)
    (more : Bool) : (q.addFragment fragment offset more).moreFragment =
      if ∀ x ∈ q.fragments, ¬ x.2 > offset then more else q.moreFragment := by
  have hnil : q.fragments.dropWhile (fun it => !decide (it.2 > offset)) = [] ↔
      ∀ x ∈ q.fragments, ¬ x.2 > offset := by
    rw [List.dropWhile_eq_nil_iff]
    simp
  unfold Fragments.addFragment
  dsimp only
  split
  next h => rw [if_pos (hnil.mp h)]
  next h => rw [if_neg (mt hnil.mpr h)]

/-- A queue of pieces of one datagram; a cleared flag says that the last one is there. -/
structure Holds (data : List UInt8) (q : Fragments) : Prop where
  slice : ∀ x ∈ q.fragments, IsSlice data x
  ended : q.fragments ≠ [] → q.moreFragment = false →
    ∃ x ∈ q.fragments, Piece.stop x = data.length

/-- A fragment of the datagram: its bytes, and more-fragments unless they reach the end. -/
structure FragmentOf (data : List UInt8) (p : Ipv4Packet) : Prop where
  slice : IsSlice data p.piece
  flag : p.header.moreFragments = false ↔ p.stop = data.length

theorem holds_empty (data : List UInt8) : Holds data Fragments.empty where
  slice := by simp [Fragments.empty]
  ended := by simp [Fragments.empty]

theorem Holds.addFragment {data : List UInt8} {q : Fragments} (h : Holds data q)
    {p : Ipv4Packet} (hp : FragmentOf data p) :
    Holds data (q.addFragment p.payload p.header.fragmentOffset (!p.header.isLastFragment)) where
  slice x hx := by
    rcases mem_addFragment.mp hx with rfl | hx
    · exact hp.slice
    · exact h.slice x hx
  ended _ hmore := by
    rw [addFragment_moreFragment] at hmore
    split at hmore
    next =>
        refine ⟨p.piece, mem_addFragment.mpr (Or.inl rfl), ?_⟩
        exact hp.flag.mp (by simpa [Ipv4Header.isLastFragment] using hmore)
    next hlater =>
        have hne : q.fragments ≠ [] := by
          rintro heq
          simp [heq] at hlater
        obtain ⟨x, hx, hstop⟩ := h.ended hne hmore
        exact ⟨x, mem_addFragment.mpr (Or.inr hx), hstop⟩

/-- An entire queue holds its datagram. -/
theorem Holds.getPacket {data : List UInt8} (hdata : data.length < 2 ^ 16) {q : Fragments}
    (h : Holds data q) (hentire : q.isEntire = true) : q.getPacket = data := by
  simp only [Fragments.isEntire, Bool.and_eq_true, Bool.not_eq_true', decide_eq_true_eq] at hentire
  obtain ⟨⟨hmore, hlength⟩, hloop⟩ := hentire
  obtain ⟨m, -, hstops, hpacket⟩ := getPacketLoop_eq hdata h.slice (Nat.zero_le _) hloop
  obtain ⟨x, hx, hstop⟩ := h.ended (List.ne_nil_of_length_pos hlength) hmore
  rw [Fragments.getPacket]
  refine hpacket.trans (List.take_of_length_le ?_)
  rw [← hstop]
  exact hstops x hx

/-! ### The test for completeness -/

/-- Without a gap every byte up to the end of some piece is covered. -/
theorem covered_of_isEntireLoop {pieces : List Piece} {n : Nat}
    (hstop : ∀ x ∈ pieces, Piece.stop x < 2 ^ 16)
    (hentire : Fragments.isEntireLoop n pieces = true) {point : Nat} (hn : n ≤ point)
    (hlast : ∃ x ∈ pieces, point < Piece.stop x) :
    ∃ x ∈ pieces, Piece.start x ≤ point ∧ point < Piece.stop x := by
  induction pieces generalizing n with
  | nil => simp at hlast
  | cons x rest ih =>
      unfold Fragments.isEntireLoop at hentire
      split at hentire
      next => cases hentire
      next hgap =>
      have hmod : (x.1.length + x.2.toNat) % 2 ^ 16 = Piece.stop x := by
        rw [Nat.add_comm]
        exact Nat.mod_eq_of_lt (hstop x List.mem_cons_self)
      rw [hmod] at hentire
      by_cases hpoint : point < Piece.stop x
      · refine ⟨x, List.mem_cons_self, ?_, hpoint⟩
        exact Nat.le_trans (Nat.le_of_not_lt hgap) hn
      · obtain ⟨y, hy, hlt⟩ := hlast
        have hyrest : y ∈ rest := by
          rcases List.mem_cons.mp hy with rfl | hy
          · exact absurd hlt hpoint
          · exact hy
        obtain ⟨z, hz, hcover⟩ := ih (fun y hy => hstop y (List.mem_cons_of_mem _ hy)) hentire
          (by omega) ⟨y, hyrest, hlt⟩
        exact ⟨z, List.mem_cons_of_mem _ hz, hcover⟩

/-- In order of offsets there is no gap if each piece starts where another one ends. -/
theorem isEntireLoop_of_sorted {pieces : List Piece} {n : Nat}
    (hstop : ∀ x ∈ pieces, Piece.stop x < 2 ^ 16)
    (hsorted : pieces.Pairwise fun x y => Piece.start x ≤ Piece.start y)
    (hbefore : ∀ x ∈ pieces, Piece.start x ≤ n ∨
      ∃ y ∈ pieces, Piece.stop y = Piece.start x ∧ Piece.start y < Piece.start x) :
    Fragments.isEntireLoop n pieces = true := by
  induction pieces generalizing n with
  | nil => rfl
  | cons x rest ih =>
      obtain ⟨hle, hrest⟩ := List.pairwise_cons.mp hsorted
      have hx : Piece.start x ≤ n := by
        rcases hbefore x List.mem_cons_self with h | ⟨y, hy, -, hlt⟩
        · exact h
        · rcases List.mem_cons.mp hy with rfl | hy
          · exact absurd hlt (Nat.lt_irrefl _)
          · exact absurd hlt (Nat.not_lt.mpr (hle y hy))
      have hmod : (x.1.length + x.2.toNat) % 2 ^ 16 = Piece.stop x := by
        rw [Nat.add_comm]
        exact Nat.mod_eq_of_lt (hstop x List.mem_cons_self)
      unfold Fragments.isEntireLoop
      rw [hmod, if_neg (show ¬ n < x.2.toNat from Nat.not_lt.mpr hx)]
      refine ih (fun y hy => hstop y (List.mem_cons_of_mem _ hy)) hrest ?_
      intro y hy
      rcases hbefore y (List.mem_cons_of_mem _ hy) with h | ⟨z, hz, hend, hlt⟩
      · exact Or.inl (Nat.le_trans h (Nat.le_max_left _ _))
      · rcases List.mem_cons.mp hz with rfl | hz
        · exact Or.inl (hend ▸ Nat.le_max_right _ _)
        · exact Or.inr ⟨z, hz, hend, hlt⟩

/-- The queue stays in the order of the offsets. -/
theorem addFragment_sorted {q : Fragments}
    (h : q.fragments.Pairwise fun x y => Piece.start x ≤ Piece.start y)
    (fragment : List UInt8) (offset : UInt16) (more : Bool) :
    (q.addFragment fragment offset more).fragments.Pairwise
      fun x y => Piece.start x ≤ Piece.start y := by
  have hsplit := List.takeWhile_append_dropWhile (l := q.fragments)
    (p := fun it : Piece => !decide (it.2 > offset))
  rw [← hsplit, List.pairwise_append] at h
  obtain ⟨hbefore, hafter, hacross⟩ := h
  have hlow : ∀ x ∈ q.fragments.takeWhile (fun it : Piece => !decide (it.2 > offset)),
      Piece.start x ≤ offset.toNat := by
    intro x hx
    have hnot := List.mem_takeWhile_imp hx
    simp only [gt_iff_lt, Bool.not_eq_true', decide_eq_false_iff_not] at hnot
    rw [UInt16.lt_iff_toNat_lt] at hnot
    exact Nat.le_of_not_lt hnot
  have hhigh : ∀ x ∈ q.fragments.dropWhile (fun it : Piece => !decide (it.2 > offset)),
      offset.toNat ≤ Piece.start x := by
    intro x hx
    cases hit : q.fragments.dropWhile (fun it : Piece => !decide (it.2 > offset)) with
    | nil => simp [hit] at hx
    | cons first later =>
        have hfirst := List.head_dropWhile_not (fun it : Piece => !decide (it.2 > offset))
          (l := q.fragments) (by simp [hit])
        simp only [hit, List.head_cons, gt_iff_lt, Bool.not_eq_false', decide_eq_true_eq] at hfirst
        rw [UInt16.lt_iff_toNat_lt] at hfirst
        rw [hit] at hx hafter
        rcases List.mem_cons.mp hx with rfl | hx
        · exact Nat.le_of_lt hfirst
        · exact Nat.le_trans (Nat.le_of_lt hfirst) ((List.pairwise_cons.mp hafter).1 x hx)
  unfold Fragments.addFragment
  dsimp only
  rw [List.pairwise_append, List.pairwise_cons]
  refine ⟨hbefore, ⟨hhigh, hafter⟩, ?_⟩
  intro x hx y hy
  rcases List.mem_cons.mp hy with rfl | hy
  · exact hlow x hx
  · exact hacross x hx y hy

/-! ## All pieces of a tiling -/

/-- Fragments that tile a datagram in order, with the same header but for the fragment
fields: what reaches the destination of an unfragmented datagram. -/
structure Whole (data : List UInt8) (fragments : List Ipv4Packet) : Prop where
  tiles : Tiles Ipv4Packet.start Ipv4Packet.stop fragments 0 data.length
  bytes : fragments.flatMap Ipv4Packet.payload = data
  flags : ∃ init final, fragments = init ++ [final] ∧
    (∀ x ∈ init, x.header.moreFragments = true) ∧ final.header.moreFragments = false
  nonempty : ∀ x ∈ fragments, x.payload ≠ [] ∨ fragments = [x]
  key : ∀ x ∈ fragments, ∀ y ∈ fragments, x.header.key = y.header.key

namespace Whole

variable {data : List UInt8} {fragments : List Ipv4Packet} {x y : Ipv4Packet}

theorem start_lt_stop (h : Whole data fragments) (hx : x ∈ fragments) :
    x.start < x.stop ∨ fragments = [x] := by
  refine (h.nonempty x hx).imp_left fun hne => ?_
  have := List.length_pos_of_ne_nil hne
  rw [Ipv4Packet.stop]
  omega

/-- Only the final fragment reaches the end. -/
theorem flag_iff (h : Whole data fragments) (hx : x ∈ fragments) :
    x.header.moreFragments = false ↔ x.stop = data.length := by
  obtain ⟨init, final, rfl, hinit, hfinal⟩ := h.flags
  obtain ⟨middle, htilesInit, hstart, -, hstop⟩ := h.tiles.of_append
  rcases List.mem_append.mp hx with hmem | hmem
  · refine iff_of_false (by simp [hinit x hmem]) ?_
    have hxstop := (htilesInit.mem hmem).2.2
    rcases h.start_lt_stop (x := final) (by simp) with hlt | hone
    · have hend : final.stop = data.length := hstop
      omega
    · have : init = [] := by simpa using hone
      rw [this] at hmem
      cases hmem
  · obtain rfl := List.mem_singleton.mp hmem
    exact iff_of_true hfinal hstop

theorem slice (h : Whole data fragments) (hx : x ∈ fragments) : IsSlice data x.piece := by
  obtain ⟨left, right, rfl⟩ := List.append_of_mem hx
  have hlength : ∀ {items : List Ipv4Packet} {first last : Nat},
      Tiles Ipv4Packet.start Ipv4Packet.stop items first last →
      first + (items.flatMap Ipv4Packet.payload).length = last := by
    intro items
    induction items with
    | nil => exact fun ht => ht
    | cons y rest ih =>
        intro first last ht
        have hrest := ih ht.2.2
        have hstop : y.stop = first + y.payload.length := by rw [Ipv4Packet.stop, ht.1]
        rw [List.flatMap_cons, List.length_append, ← Nat.add_assoc, ← hstop]
        exact hrest
  have hbytes := h.bytes
  obtain ⟨middle, htilesLeft, hstart, -, htilesRight⟩ := h.tiles.of_append
  have hleft := hlength htilesLeft
  refine ⟨right.flatMap Ipv4Packet.payload, ?_, htilesRight.le⟩
  rw [List.flatMap_append, List.flatMap_cons] at hbytes
  have hdistance : Piece.start x.piece = (left.flatMap Ipv4Packet.payload).length := by
    change x.start = _
    omega
  rw [← hbytes, hdistance, List.drop_left]
  rfl

theorem fragmentOf (h : Whole data fragments) (hx : x ∈ fragments) : FragmentOf data x :=
  ⟨h.slice hx, h.flag_iff hx⟩

/-- Fragments with a common byte are the same. -/
theorem eq_of_byte (h : Whole data fragments) (hx : x ∈ fragments) (hy : y ∈ fragments)
    (point : Nat) (hpx : x.start ≤ point ∧ point < x.stop)
    (hpy : y.start ≤ point ∧ point < y.stop) : x = y :=
  h.tiles.eq_of_mem hx hy hpx hpy

/-- There is one final fragment, and the others start before it. -/
theorem start_lt_final (h : Whole data fragments) (hx : x ∈ fragments) (hy : y ∈ fragments)
    (hfinal : y.header.moreFragments = false) : x = y ∨ x.start < y.start := by
  rcases h.start_lt_stop hx with hxlt | hone
  · rcases h.start_lt_stop hy with hylt | hone
    · by_cases hlt : x.start < y.start
      · exact Or.inr hlt
      · have hxstop := (h.tiles.mem hx).2.2
        have hystop := (h.flag_iff hy).mp hfinal
        exact Or.inl (h.eq_of_byte hx hy x.start (by omega) (by omega))
    · rw [hone] at hx
      exact Or.inl (List.mem_singleton.mp hx)
  · rw [hone] at hy
    exact Or.inl (List.mem_singleton.mp hy).symm

end Whole

/-- The queue after the fragments `arrived` of a tiled datagram. -/
structure Collected (data : List UInt8) (arrived : List Ipv4Packet) (q : Fragments) : Prop where
  holds : Holds data q
  mem_iff : ∀ x, x ∈ q.fragments ↔ ∃ p ∈ arrived, p.piece = x
  sorted : q.fragments.Pairwise fun x y => Piece.start x ≤ Piece.start y
  flag : arrived ≠ [] → (q.moreFragment = false ↔
    ∃ p ∈ arrived, p.header.moreFragments = false)

theorem collected_empty (data : List UInt8) : Collected data [] Fragments.empty where
  holds := holds_empty data
  mem_iff := by simp [Fragments.empty]
  sorted := List.Pairwise.nil
  flag h := absurd rfl h

section Collected

variable {data : List UInt8} {fragments arrived : List Ipv4Packet} {q : Fragments}
  {p : Ipv4Packet}

/-- The flag is overwritten exactly by fragments that start at or behind all others. -/
theorem Collected.last_iff (h : Collected data arrived q) :
    (∀ x ∈ q.fragments, ¬ x.2 > p.header.fragmentOffset) ↔ ∀ g ∈ arrived, g.start ≤ p.start := by
  constructor
  · intro hall g hg
    have hnot := hall g.piece ((h.mem_iff _).mpr ⟨g, hg, rfl⟩)
    rw [gt_iff_lt, UInt16.lt_iff_toNat_lt] at hnot
    exact Nat.le_of_not_lt hnot
  · intro hall x hx
    obtain ⟨g, hg, rfl⟩ := (h.mem_iff x).mp hx
    rw [gt_iff_lt, UInt16.lt_iff_toNat_lt]
    exact Nat.not_lt.mpr (hall g hg)

theorem Collected.addFragment (hw : Whole data fragments) (h : Collected data arrived q)
    (harrived : ∀ g ∈ arrived, g ∈ fragments) (hp : p ∈ fragments) :
    Collected data (arrived ++ [p])
      (q.addFragment p.payload p.header.fragmentOffset (!p.header.isLastFragment)) where
  holds := h.holds.addFragment (hw.fragmentOf hp)
  mem_iff x := by
    rw [mem_addFragment, h.mem_iff]
    simp only [List.mem_append, List.mem_singleton]
    constructor
    · rintro (rfl | ⟨g, hg, rfl⟩)
      · exact ⟨p, Or.inr rfl, rfl⟩
      · exact ⟨g, Or.inl hg, rfl⟩
    · rintro ⟨g, hg | rfl, rfl⟩
      · exact Or.inr ⟨g, hg, rfl⟩
      · exact Or.inl rfl
  sorted := addFragment_sorted h.sorted _ _ _
  flag _ := by
    have hnew : (!p.header.isLastFragment) = p.header.moreFragments := by
      simp [Ipv4Header.isLastFragment]
    rw [addFragment_moreFragment, hnew]
    simp only [h.last_iff, List.mem_append, List.mem_singleton]
    cases hmore : p.header.moreFragments with
    | false =>
        -- the final fragment goes to the end of the queue
        rw [if_pos]
        · exact iff_of_true rfl ⟨p, Or.inr rfl, hmore⟩
        · intro g hg
          rcases hw.start_lt_final (harrived g hg) hp hmore with rfl | hlt
          · exact Nat.le_refl _
          · exact Nat.le_of_lt hlt
    | true =>
        have hothers : (∃ g, (g ∈ arrived ∨ g = p) ∧ g.header.moreFragments = false) ↔
            ∃ g ∈ arrived, g.header.moreFragments = false := by
          constructor
          · rintro ⟨g, hg | rfl, hfinal⟩
            · exact ⟨g, hg, hfinal⟩
            · rw [hmore] at hfinal
              cases hfinal
          · rintro ⟨g, hg, hfinal⟩
            exact ⟨g, Or.inl hg, hfinal⟩
        rw [hothers]
        split
        next hlast =>
            refine iff_of_false (by simp) ?_
            rintro ⟨g, hg, hfinal⟩
            rcases hw.start_lt_final hp (harrived g hg) hfinal with rfl | hlt
            · rw [hmore] at hfinal
              cases hfinal
            · exact absurd (hlast g hg) (Nat.not_le.mpr hlt)
        next hlater =>
            refine h.flag ?_
            rintro rfl
            simp at hlater

/-- The queue is entire as soon as every fragment has arrived, and not before. -/
theorem Collected.isEntire_iff (hdata : data.length < 2 ^ 16) (hw : Whole data fragments)
    (h : Collected data arrived q) (harrived : ∀ g ∈ arrived, g ∈ fragments)
    (hne : arrived ≠ []) : q.isEntire = true ↔ fragments ⊆ arrived := by
  have hstop : ∀ x ∈ q.fragments, Piece.stop x < 2 ^ 16 := by
    intro x hx
    obtain ⟨rest, -, hle⟩ := h.holds.slice x hx
    exact Nat.lt_of_le_of_lt hle hdata
  have hqueue : q.fragments ≠ [] := by
    obtain ⟨g, hg⟩ := List.exists_mem_of_ne_nil _ hne
    exact List.ne_nil_of_mem ((h.mem_iff _).mpr ⟨g, hg, rfl⟩)
  simp only [Fragments.isEntire, Bool.and_eq_true, Bool.not_eq_true', decide_eq_true_eq,
    List.length_pos_iff.mpr hqueue, and_true]
  rw [h.flag hne]
  constructor
  · rintro ⟨⟨final, hfinalIn, hfinal⟩, hloop⟩ g hg
    rcases hw.start_lt_stop hg with hlt | hone
    · have hend := (hw.flag_iff (harrived final hfinalIn)).mp hfinal
      have hle := (hw.tiles.mem hg).2.2
      obtain ⟨x, hx, hcover⟩ := covered_of_isEntireLoop hstop hloop (Nat.zero_le g.start)
        ⟨final.piece, (h.mem_iff _).mpr ⟨final, hfinalIn, rfl⟩,
          show g.start < final.stop by omega⟩
      obtain ⟨f, hf, rfl⟩ := (h.mem_iff x).mp hx
      rwa [hw.eq_of_byte hg (harrived f hf) g.start ⟨Nat.le_refl _, hlt⟩ hcover]
    · have hfinalEq := harrived final hfinalIn
      rw [hone] at hfinalEq
      rwa [← List.mem_singleton.mp hfinalEq]
  · intro hall
    obtain ⟨init, final, hsplit, -, hfinal⟩ := hw.flags
    refine ⟨⟨final, hall (by rw [hsplit]; simp), hfinal⟩, ?_⟩
    refine isEntireLoop_of_sorted hstop h.sorted ?_
    intro x hx
    obtain ⟨f, hf, rfl⟩ := (h.mem_iff x).mp hx
    by_cases hzero : f.start = 0
    · exact Or.inl (Nat.le_of_eq hzero)
    · obtain ⟨g, hg, hgstop, -⟩ := hw.tiles.exists_before (harrived f hf) hzero
      refine Or.inr ⟨g.piece, (h.mem_iff _).mpr ⟨g, hall hg, rfl⟩, hgstop, ?_⟩
      rcases hw.start_lt_stop hg with hlt | hone
      · exact Nat.lt_of_lt_of_eq hlt hgstop
      · have hfirst := hw.tiles
        rw [hone] at hfirst
        have hfg := harrived f hf
        rw [hone] at hfg
        rw [List.mem_singleton.mp hfg] at hzero
        exact absurd hfirst.1 hzero

end Collected

/-! ## Runs of arrivals -/

/-- `ProcessFragment` for each packet in turn, with its results. -/
def processFragments (m : Queues) : List Ipv4Packet → Queues × List (Option (List UInt8))
  | [] => (m, [])
  | packet :: rest =>
      let here := processFragment m packet
      let later := processFragments here.1 rest
      (later.1, here.2 :: later.2)

/-- Delivered in any order, with any duplicates, the fragments give the datagram at the
moment when the last missing one arrives, and nothing before. -/
def Reassembles (m : Queues) (fragments : List Ipv4Packet) (data : List UInt8) : Prop :=
  ∀ arrived p, (∀ g ∈ arrived ++ [p], g ∈ fragments) → ¬ fragments ⊆ arrived →
    (processFragments m (arrived ++ [p])).2 = List.replicate arrived.length none ++
      [if fragments ⊆ arrived ++ [p] then some data else none]

theorem processFragments_append (m : Queues) (left right : List Ipv4Packet) :
    (processFragments m (left ++ right)).2 = (processFragments m left).2 ++
      (processFragments (processFragments m left).1 right).2 := by
  induction left generalizing m with
  | nil => rfl
  | cons packet rest ih =>
      rw [List.cons_append, processFragments, processFragments]
      dsimp only
      rw [ih, List.cons_append]

theorem processFragments_append_fst (m : Queues) (left right : List Ipv4Packet) :
    (processFragments m (left ++ right)).1 =
      (processFragments (processFragments m left).1 right).1 := by
  induction left generalizing m with
  | nil => rfl
  | cons packet rest ih =>
      rw [List.cons_append, processFragments, processFragments]
      exact ih _

theorem processFragment_collected {data : List UInt8} (hdata : data.length < 2 ^ 16)
    {fragments arrived : List Ipv4Packet} (hw : Whole data fragments) {m : Queues}
    {p : Ipv4Packet} (harrived : ∀ g ∈ arrived, g ∈ fragments) (hp : p ∈ fragments)
    (h : Collected data arrived ((m p.header.key).getD Fragments.empty)) :
    (processFragment m p).2 = (if fragments ⊆ arrived ++ [p] then some data else none) ∧
      (¬ fragments ⊆ arrived ++ [p] → Collected data (arrived ++ [p])
        (((processFragment m p).1 p.header.key).getD Fragments.empty)) := by
  have hnext := h.addFragment hw harrived hp
  have hin : ∀ g ∈ arrived ++ [p], g ∈ fragments := by
    intro g hg
    rcases List.mem_append.mp hg with hg | hg
    · exact harrived g hg
    · rwa [List.mem_singleton.mp hg]
  have hentire := hnext.isEntire_iff hdata hw hin (by simp)
  unfold processFragment
  dsimp only
  split
  next hdone =>
      have hall := hentire.mp hdone
      rw [if_pos hall, hnext.holds.getPacket hdata hdone]
      exact ⟨rfl, fun hnot => absurd hall hnot⟩
  next hopen =>
      rw [if_neg (mt hentire.mpr hopen)]
      refine ⟨rfl, fun _ => ?_⟩
      simpa using hnext

theorem Whole.reassembles {data : List UInt8} (hdata : data.length < 2 ^ 16)
    {fragments : List Ipv4Packet} (hw : Whole data fragments) {m : Queues}
    (hm : ∀ g ∈ fragments, m g.header.key = none) : Reassembles m fragments data := by
  -- up to the last missing fragment the queue collects and every result is false
  have hprefix (arrived : List Ipv4Packet) (harrived : ∀ g ∈ arrived, g ∈ fragments)
      (hmissing : ¬ fragments ⊆ arrived) :
      (processFragments m arrived).2 = List.replicate arrived.length none ∧
        ∀ g ∈ fragments, Collected data arrived
          (((processFragments m arrived).1 g.header.key).getD Fragments.empty) := by
    induction arrived using List.reverseRecOn with
    | nil =>
        refine ⟨rfl, fun g hg => ?_⟩
        rw [show (processFragments m []).1 = m from rfl, hm g hg]
        exact collected_empty data
    | append_singleton arrived p ih =>
        have hp : p ∈ fragments := harrived p (by simp)
        have hbefore : ∀ g ∈ arrived, g ∈ fragments :=
          fun g hg => harrived g (List.mem_append_left _ hg)
        obtain ⟨hresults, hcollected⟩ := ih hbefore
          fun hall => hmissing (List.Subset.trans hall (List.subset_append_left _ _))
        obtain ⟨hresult, hnext⟩ := processFragment_collected hdata hw hbefore hp (hcollected p hp)
        rw [if_neg hmissing] at hresult
        constructor
        · rw [processFragments_append, hresults, List.length_append, List.replicate_add]
          rw [show (processFragments (processFragments m arrived).1 [p]).2 =
            [(processFragment (processFragments m arrived).1 p).2] from rfl, hresult]
          rfl
        · intro g hg
          rw [processFragments_append_fst, hw.key g hg p hp]
          exact hnext hmissing
  intro arrived p hin hmissing
  have hp : p ∈ fragments := hin p (by simp)
  have hbefore : ∀ g ∈ arrived, g ∈ fragments := fun g hg => hin g (List.mem_append_left _ hg)
  obtain ⟨hresults, hcollected⟩ := hprefix arrived hbefore hmissing
  have hresult := (processFragment_collected hdata hw hbefore hp (hcollected p hp)).1
  rw [processFragments_append, hresults]
  rw [show (processFragments (processFragments m arrived).1 [p]).2 =
    [(processFragment (processFragments m arrived).1 p).2] from rfl, hresult]

end Ns3Rdma.Ipv4
