import Ns3Rdma.Lib.StepSystem
import Ns3Rdma.Net.Ipv6Extension

/-!
# Reassembly of IPv6 fragments

`Ipv6ExtensionFragment::Process` collects the fragments of a source and an identification in the
order of their offsets, each one as often as it comes, until each begins where the last one ends
and no further one is announced.
-/

namespace Ns3Rdma.Ipv6

open StepSystem

/-- The class `Ipv6ExtensionFragment::Fragments`. -/
structure Fragments where
  moreFragment : Bool
  packetFragments : List (List UInt8 × UInt16)
  unfragmentable : Option (List UInt8)

namespace Fragments

def new : Fragments := ⟨false, [], none⟩

variable (q : Fragments)

/-- `AddFragment`: insert before the first fragment with a greater offset. -/
def addFragment (fragment : List UInt8) (fragmentOffset : UInt16) (moreFragment : Bool) :
    Fragments :=
  let before := q.packetFragments.takeWhile fun it => it.2 ≤ fragmentOffset
  let it := q.packetFragments.dropWhile fun it => it.2 ≤ fragmentOffset
  { q with
    moreFragment := if it = [] then moreFragment else q.moreFragment
    packetFragments := before ++ (fragment, fragmentOffset) :: it }

def setUnfragmentablePart (unfragmentablePart : List UInt8) : Fragments :=
  { q with unfragmentable := some unfragmentablePart }

def isEntireLoop (lastEndOffset : UInt16) : List (List UInt8 × UInt16) → Bool
  | [] => true
  | it :: rest =>
      if lastEndOffset ≠ it.2 then false
      else isEntireLoop (lastEndOffset + UInt16.ofNat it.1.length) rest

def isEntire : Bool :=
  !q.moreFragment && decide (0 < q.packetFragments.length) && isEntireLoop 0 q.packetFragments

/-- `GetPacket`, which is undefined without the unfragmentable part. -/
def getPacket : Option (List UInt8) :=
  q.unfragmentable.map fun p => p ++ q.packetFragments.flatMap Prod.fst

end Fragments

/-- A source address and an identification. -/
abbrev FragmentsId := BitVec 128 × UInt32

/-- `Process`, for a fragment header at the position `offset`: the collections, and the packet
that is not dropped. -/
def process (m : FragmentsId → Option Fragments) (packet : Ipv6Packet) (offset : UInt8) :
    Option ((FragmentsId → Option Fragments) × Option (List UInt8)) :=
  (FragmentHeader.removeHeader (packet.bytes.drop offset.toNat)).bind fun (fragmentHeader, p) =>
    let fragmentsId := (packet.header.source, fragmentHeader.identification)
    let found := (m fragmentsId).getD .new
    let fragments :=
      if fragmentHeader.getOffset = 0 then
        found.setUnfragmentablePart (packet.bytes.take offset.toNat)
      else found
    let added := fragments.addFragment p fragmentHeader.getOffset fragmentHeader.getMoreFragment
    if added.isEntire then
      added.getPacket.map fun entire => (Function.update m fragmentsId none, some entire)
    else some (Function.update m fragmentsId (some added), none)

/-! ## Inserting in order -/

/-- What `AddFragment` stores of a piece. -/
def Piece.stored (x : Piece) : List UInt8 × UInt16 := (x.bytes, UInt16.ofNat x.offset)

theorem takeWhile_dropWhile_of_not {α : Type*} {p : α → Bool} {l : List α}
    (h : ∀ a ∈ l, p a = false) : l.takeWhile p = [] ∧ l.dropWhile p = l := by
  cases l with
  | nil => exact ⟨rfl, rfl⟩
  | cons a rest =>
      have ha := h a List.mem_cons_self
      exact ⟨by rw [List.takeWhile_cons, ha]; rfl, by rw [List.dropWhile_cons, ha]; rfl⟩

/-- Inserting an item that is missing among sorted ones is selecting it too. -/
theorem insert_filter {α : Type*} [DecidableEq α] {key : α → UInt16} {items : List α}
    (hsorted : items.Pairwise fun x y => key x < key y) {x : α} (hx : x ∈ items) {A : α → Bool}
    (hA : A x = false) :
    (items.filter A).takeWhile (fun y => decide (key y ≤ key x)) ++
        x :: (items.filter A).dropWhile (fun y => decide (key y ≤ key x)) =
      items.filter fun y => A y || decide (y = x) := by
  induction items with
  | nil => exact absurd hx List.not_mem_nil
  | cons y rest ih =>
      obtain ⟨hfirst, hrest⟩ := List.pairwise_cons.mp hsorted
      by_cases hyx : y = x
      · rw [hyx] at hfirst ⊢
        rw [List.filter_cons_of_neg (by simp [hA]), List.filter_cons_of_pos (by simp)]
        have hlater : ∀ z ∈ rest.filter A, decide (key z ≤ key x) = false := by
          intro z hz
          rw [decide_eq_false_iff_not, UInt16.not_le]
          exact hfirst z (List.mem_of_mem_filter hz)
        rw [(takeWhile_dropWhile_of_not hlater).1, (takeWhile_dropWhile_of_not hlater).2,
          List.nil_append]
        congr 1
        apply List.filter_congr
        intro z hz
        have hne : z ≠ x := fun heq => by
          have hlt := hfirst z hz
          rw [heq] at hlt
          exact UInt16.lt_irrefl _ hlt
        simp [hne]
      · have hxrest : x ∈ rest := (List.mem_cons.mp hx).resolve_left fun heq => hyx heq.symm
        have hle := UInt16.le_of_lt (hfirst x hxrest)
        by_cases hAy : A y = true
        · rw [List.filter_cons_of_pos hAy, List.filter_cons_of_pos (by simp [hAy])]
          rw [List.takeWhile_cons_of_pos (by simpa using hle),
            List.dropWhile_cons_of_pos (by simpa using hle), List.cons_append,
            ih hrest hxrest]
        · rw [List.filter_cons_of_neg hAy, List.filter_cons_of_neg (by simp [hAy, hyx]),
            ih hrest hxrest]

/-- The last one after an insertion. -/
theorem getLast?_insert {α : Type*} (p : α → Bool) (l : List α) (x : α) :
    (l.takeWhile p ++ x :: l.dropWhile p).getLast? =
      if l.dropWhile p = [] then some x else l.getLast? := by
  rw [List.getLast?_append]
  split
  next hnil =>
    rw [hnil]
    rfl
  next hcons =>
    have hlast := List.getLast?_eq_some_getLast hcons
    have hl : l.getLast? = (l.takeWhile p ++ l.dropWhile p).getLast? := by
      rw [List.takeWhile_append_dropWhile]
    rw [hl, List.getLast?_append, List.getLast?_cons_of_ne_nil hcons, hlast]

/-! ## What is collected -/

/-- The pieces that are selected are stored, with the flag of the last one, and the
unfragmentable part once the first one is among them. -/
structure Collected (pieces : List Piece) (front : List UInt8) (A : Piece → Bool)
    (q : Fragments) : Prop where
  stored : q.packetFragments = (pieces.filter A).map Piece.stored
  more : q.moreFragment = ((pieces.filter A).getLast?.map Piece.more).getD false
  first : ∀ x ∈ pieces, A x = true → x.offset = 0 → q.unfragmentable = some front

section Pieces

variable {size : ℕ} {rest front : List UInt8} {pieces : List Piece} {A : Piece → Bool}
  {q : Fragments} {x : Piece}

theorem collected_new (pieces : List Piece) (front : List UInt8) :
    Collected pieces front (fun _ => false) .new where
  stored := by simp [Fragments.new]
  more := by simp [Fragments.new]
  first _ _ hA := absurd hA Bool.false_ne_true

theorem Cut.offset_lt {offset : ℕ} (h : Cut size offset rest pieces)
    (hfits : offset + rest.length < 65536) (hx : x ∈ pieces) :
    (UInt16.ofNat x.offset).toNat = x.offset := by
  have hbounds := (h.bounds hx).2.2.2
  rw [UInt16.toNat_ofNat']
  omega

theorem Cut.sorted_key {offset : ℕ} (h : Cut size offset rest pieces)
    (hfits : offset + rest.length < 65536) :
    pieces.Pairwise fun x y => UInt16.ofNat x.offset < UInt16.ofNat y.offset := by
  refine h.sorted.imp_of_mem fun {x y} hx hy hlt => ?_
  rw [UInt16.lt_iff_toNat_lt, h.offset_lt hfits hx, h.offset_lt hfits hy]
  exact hlt

/-- A piece that was missing is added. -/
theorem Collected.add (hcut : Cut size 0 rest pieces) (hfits : rest.length < 65536)
    (h : Collected pieces front A q) (hx : x ∈ pieces) (hA : A x = false) :
    Collected pieces front (fun y => A y || decide (y = x))
      ((if UInt16.ofNat x.offset = 0 then q.setUnfragmentablePart front else q).addFragment
        x.bytes (UInt16.ofNat x.offset) x.more) := by
  have hfits' : 0 + rest.length < 65536 := by omega
  have hinsert := insert_filter (hcut.sorted_key hfits') hx hA
  have hstored : (if UInt16.ofNat x.offset = 0 then q.setUnfragmentablePart front
      else q).packetFragments = (pieces.filter A).map Piece.stored := by
    split <;> exact h.stored
  have hmore : (if UInt16.ofNat x.offset = 0 then q.setUnfragmentablePart front
      else q).moreFragment = ((pieces.filter A).getLast?.map Piece.more).getD false := by
    split <;> exact h.more
  constructor
  · simp only [Fragments.addFragment, hstored, List.takeWhile_map, List.dropWhile_map]
    rw [← hinsert, List.map_append, List.map_cons]
    rfl
  · rw [← hinsert, getLast?_insert]
    simp only [Fragments.addFragment, hstored, hmore, List.dropWhile_map, List.map_eq_nil_iff]
    change (if (pieces.filter A).dropWhile
      (fun y => decide (UInt16.ofNat y.offset ≤ UInt16.ofNat x.offset)) = [] then _ else _) = _
    split <;> rfl
  · intro y hy hselected hzero
    rw [Bool.or_eq_true, decide_eq_true_eq] at hselected
    simp only [Fragments.addFragment]
    rcases hselected with hold | rfl
    · split
      · rfl
      · exact h.first y hy hold hzero
    · rw [hzero]
      rfl

/-! ## Entirety -/

theorem Cut.exists_first {offset : ℕ} (h : Cut size offset rest pieces) :
    ∃ x ∈ pieces, x.offset = offset := by
  cases h with
  | last => exact ⟨_, List.mem_cons_self, rfl⟩
  | more => exact ⟨_, List.mem_cons_self, rfl⟩

theorem Cut.getLast?_more {offset : ℕ} (h : Cut size offset rest pieces) :
    pieces.getLast?.map Piece.more = some false := by
  induction h with
  | last => rfl
  | more haligned hlength hpos hcut ih =>
      obtain ⟨y, hy, -⟩ := hcut.exists_first
      rw [List.getLast?_cons_of_ne_nil (List.ne_nil_of_mem hy)]
      exact ih

theorem isEntireLoop_stored (x : Piece) (l : List (List UInt8 × UInt16)) :
    Fragments.isEntireLoop (UInt16.ofNat x.offset) (x.stored :: l) =
      Fragments.isEntireLoop (UInt16.ofNat (x.offset + x.bytes.length)) l := by
  rw [UInt16.ofNat_add]
  exact if_neg (not_not.mpr rfl)

theorem isEntireLoop_cut {offset : ℕ} (h : Cut size offset rest pieces) :
    Fragments.isEntireLoop (UInt16.ofNat offset) (pieces.map Piece.stored) = true := by
  induction h with
  | @last offset rest => exact isEntireLoop_stored ⟨offset, false, rest⟩ []
  | @more offset bytes rest pieces haligned hlength hpos hcut ih =>
      exact (isEntireLoop_stored ⟨offset, true, bytes⟩ _).trans ih

/-- Behind a gap the pieces do not follow each other. -/
theorem filter_eq_nil_of_gap {offset first : ℕ} (h : Cut size first rest pieces)
    (hgap : offset < first) (hfits : first + rest.length < 65536)
    (hloop : Fragments.isEntireLoop (UInt16.ofNat offset)
      ((pieces.filter A).map Piece.stored) = true) : pieces.filter A = [] := by
  cases hfilter : pieces.filter A with
  | nil => rfl
  | cons y others =>
      have hy : y ∈ pieces.filter A := by
        rw [hfilter]
        exact List.mem_cons_self
      replace hy := List.mem_of_mem_filter hy
      have hbounds := h.bounds hy
      have hkey := h.offset_lt hfits hy
      rw [hfilter, List.map_cons, Fragments.isEntireLoop] at hloop
      split at hloop
      · cases hloop
      next hsame =>
        rw [not_not] at hsame
        have htoNat := congrArg UInt16.toNat hsame
        rw [UInt16.toNat_ofNat'] at htoNat
        simp only [Piece.stored] at htoNat
        omega

/-- Pieces that follow each other from the first offset up to the last piece are all there. -/
theorem all_of_isEntireLoop {offset : ℕ} (h : Cut size offset rest pieces)
    (hfits : offset + rest.length < 65536)
    (hloop : Fragments.isEntireLoop (UInt16.ofNat offset)
      ((pieces.filter A).map Piece.stored) = true)
    (hlast : (pieces.filter A).getLast?.map Piece.more = some false) :
    ∀ x ∈ pieces, A x = true := by
  induction h with
  | last =>
      rw [List.forall_mem_singleton]
      by_contra hA
      rw [List.filter_cons_of_neg hA] at hlast
      cases hlast
  | @more offset bytes rest pieces haligned hlength hpos hcut ih =>
      rw [List.length_append] at hfits
      rw [List.forall_mem_cons]
      by_cases hA : A ⟨offset, true, bytes⟩ = true
      · refine ⟨hA, ih (by omega) ?_ ?_⟩
        · rw [List.filter_cons_of_pos hA, List.map_cons, Fragments.isEntireLoop] at hloop
          split at hloop
          · cases hloop
          · rw [UInt16.ofNat_add]
            exact hloop
        · rw [List.filter_cons_of_pos hA] at hlast
          cases hfilter : pieces.filter A with
          | nil =>
              rw [hfilter] at hlast
              cases hlast
          | cons y others =>
              rw [List.getLast?_cons_of_ne_nil (by rw [hfilter]; exact List.cons_ne_nil _ _)]
                at hlast
              rw [← hfilter]
              exact hlast
      · -- The first one that is there begins behind the gap.
        rw [List.filter_cons_of_neg hA] at hloop hlast
        rw [filter_eq_nil_of_gap hcut (by omega) (by omega) hloop] at hlast
        cases hlast

/-- A collection is entire exactly when every piece is there. -/
theorem Collected.isEntire_iff (hcut : Cut size 0 rest pieces) (hfits : rest.length < 65536)
    (h : Collected pieces front A q) : q.isEntire = true ↔ ∀ x ∈ pieces, A x = true := by
  rw [Fragments.isEntire, h.more, h.stored, Bool.and_eq_true, Bool.and_eq_true,
    Bool.not_eq_true', decide_eq_true_eq, List.length_map]
  constructor
  · rintro ⟨⟨hmore, hlength⟩, hloop⟩
    apply all_of_isEntireLoop hcut (by omega) hloop
    have hlast := List.getLast?_eq_some_getLast (List.ne_nil_of_length_pos hlength)
    rw [hlast] at hmore ⊢
    exact congrArg some hmore
  · intro hall
    have hfilter : pieces.filter A = pieces := List.filter_eq_self.mpr hall
    obtain ⟨x, hx, -⟩ := hcut.exists_first
    rw [hfilter, hcut.getLast?_more]
    exact ⟨⟨rfl, List.length_pos_of_mem hx⟩, isEntireLoop_cut hcut⟩

/-- The packet of an entire collection. -/
theorem Collected.getPacket_eq (hcut : Cut size 0 rest pieces)
    (h : Collected pieces front A q) (hall : ∀ x ∈ pieces, A x = true) :
    q.getPacket = some (front ++ rest) := by
  obtain ⟨x, hx, hzero⟩ := hcut.exists_first
  have hfilter : pieces.filter A = pieces := List.filter_eq_self.mpr hall
  rw [Fragments.getPacket, h.first x hx (hall x hx) hzero, h.stored, hfilter,
    List.flatMap_map, Option.map_some, ← hcut.flatMap_bytes]
  rfl

end Pieces

/-! ## Processing a fragment -/

namespace Cutting

variable {c : Cutting} {x y : Piece}

/-- The bytes of the unfragmentable headers. -/
def front (c : Cutting) : List UInt8 := c.unfragmentablePart.flatMap ExtensionHeader.bytes

/-- At most one header is put in front in its place. -/
theorem ofPiece_bytes (hone : c.unfragmentablePart.length ≤ 1) (x : Piece) :
    (c.ofPiece x).bytes = c.front ++
      ((c.fragmentHeader (UInt16.ofNat x.offset) x.more x.bytes.length).bytes ++ x.bytes) := by
  rw [ofPiece, fragment, front]
  match c.unfragmentablePart, hone with
  | [], _ => rfl
  | [h], _ => simp

theorem fragmentHeader_offset (haligned : x.offset % 8 = 0) :
    (c.fragmentHeader (UInt16.ofNat x.offset) x.more x.bytes.length).getOffset =
        UInt16.ofNat x.offset ∧
      (c.fragmentHeader (UInt16.ofNat x.offset) x.more x.bytes.length).getMoreFragment =
        x.more := by
  unfold fragmentHeader FragmentHeader.getOffset FragmentHeader.getMoreFragment
    FragmentHeader.setMoreFragment FragmentHeader.setOffset FragmentHeader.setLength
  have hbit : x.more.toNat < 2 := Bool.toNat_lt x.more
  simp only [UInt16.toNat_ofNat', UInt16.toNat_zero]
  constructor
  · apply UInt16.toNat_inj.mp
    simp only [UInt16.toNat_ofNat']
    omega
  · cases hmore : x.more with
    | false =>
        simp only [Bool.toNat_false, decide_eq_false_iff_not]
        omega
    | true =>
        simp only [Bool.toNat_true, decide_eq_true_eq]
        omega

theorem ofPiece_injective (hone : c.unfragmentablePart.length ≤ 1)
    (hx : x.offset % 8 = 0 ∧ x.offset < 65536) (hy : y.offset % 8 = 0 ∧ y.offset < 65536)
    (heq : c.ofPiece x = c.ofPiece y) : x = y := by
  have hbytes := congrArg Ipv6Packet.bytes heq
  rw [ofPiece_bytes hone, ofPiece_bytes hone] at hbytes
  have hremoved := congrArg FragmentHeader.removeHeader (List.append_cancel_left hbytes)
  rw [FragmentHeader.removeHeader_bytes, FragmentHeader.removeHeader_bytes, Option.some.injEq,
    Prod.mk.injEq] at hremoved
  obtain ⟨hheader, hpiece⟩ := hremoved
  obtain ⟨hoffsetx, hmorex⟩ := fragmentHeader_offset (c := c) hx.1
  obtain ⟨hoffsety, hmorey⟩ := fragmentHeader_offset (c := c) hy.1
  rw [hheader, hoffsety] at hoffsetx
  rw [hheader, hmorey] at hmorex
  have hoffset := congrArg UInt16.toNat hoffsetx
  rw [UInt16.toNat_ofNat', UInt16.toNat_ofNat', Nat.mod_eq_of_lt hx.2, Nat.mod_eq_of_lt hy.2]
    at hoffset
  cases x
  cases y
  simp only [Piece.mk.injEq]
  exact ⟨hoffset.symm, hmorex.symm, hpiece⟩

/-- What a fragment adds to the collection of its packet. -/
def added (c : Cutting) (q : Fragments) (x : Piece) : Fragments :=
  (if UInt16.ofNat x.offset = 0 then q.setUnfragmentablePart c.front else q).addFragment x.bytes
    (UInt16.ofNat x.offset) x.more

def fragmentsId (c : Cutting) : FragmentsId := (c.ipv6Header.source, c.identification)

theorem process_ofPiece (hone : c.unfragmentablePart.length ≤ 1) (hshort : c.front.length < 256)
    (hx : x.offset % 8 = 0 ∧ x.offset < 65536) (m : FragmentsId → Option Fragments) :
    process m (c.ofPiece x) (UInt8.ofNat c.front.length) =
      if (c.added ((m c.fragmentsId).getD .new) x).isEntire then
        (c.added ((m c.fragmentsId).getD .new) x).getPacket.map fun entire =>
          (Function.update m c.fragmentsId none, some entire)
      else some (Function.update m c.fragmentsId
        (some (c.added ((m c.fragmentsId).getD .new) x)), none) := by
  have hposition : (UInt8.ofNat c.front.length).toNat = c.front.length := by
    rw [UInt8.toNat_ofNat', Nat.mod_eq_of_lt hshort]
  obtain ⟨hoffset, hmore⟩ := fragmentHeader_offset (c := c) hx.1
  rw [process, ofPiece_bytes hone, hposition, List.drop_left, List.take_left,
    FragmentHeader.removeHeader_bytes]
  simp only [Option.bind_some, hoffset, hmore]
  rfl

end Cutting

/-! ## Delivering the fragments -/

/-- A receiver, and what has arrived of a packet since it was last complete. -/
structure Delivery where
  fragments : FragmentsId → Option Fragments
  arrived : List Ipv6Packet

namespace Delivery

def start : Delivery := ⟨fun _ => none, []⟩

variable (all : List Ipv6Packet) (position : UInt8) (whole : List UInt8) (s : Delivery)
  (d : Ipv6Packet)

/-- One of the fragments `all` is processed. -/
def step : Option Delivery :=
  some {
    fragments := ((process s.fragments d position).map Prod.fst).getD s.fragments
    arrived := if ∀ f ∈ all, f ∈ s.arrived ++ [d] then [] else s.arrived ++ [d] }

/-- A packet is returned exactly when all of the fragments have arrived, and it is `whole`. -/
def Reassembles : Prop :=
  ∃ m result, process s.fragments d position = some (m, result) ∧
    (result.isSome = true ↔ ∀ f ∈ all, f ∈ s.arrived ++ [d]) ∧ ∀ p, result = some p → p = whole

/-- The fragment has not arrived since the packet was last complete. -/
def Fresh : Prop := d ∉ s.arrived

instance : Decidable (s.Fresh d) := inferInstanceAs (Decidable (¬ _))

/-- What the receiver has collected is what has arrived. -/
def Kept (c : Cutting) (pieces : List Piece) : Prop :=
  Collected pieces c.front (fun x => decide (c.ofPiece x ∈ s.arrived))
    ((s.fragments c.fragmentsId).getD .new)

variable {s d} {next : Delivery} {c : Cutting} {size : ℕ} {rest : List UInt8}
  {pieces : List Piece}

theorem kept_start (c : Cutting) (pieces : List Piece) : start.Kept c pieces := by
  unfold Kept start
  simp only [List.not_mem_nil, decide_false]
  exact collected_new pieces c.front

/-- A fresh fragment: the answer to it, and what is collected then. -/
theorem reassembles_fresh (hcut : Cut size 0 rest pieces) (hfits : rest.length < 65536)
    (hone : c.unfragmentablePart.length ≤ 1) (hshort : c.front.length < 256)
    (h : s.Kept c pieces) (hd : d ∈ pieces.map c.ofPiece) (hfresh : s.Fresh d)
    (hstep : s.step (pieces.map c.ofPiece) (UInt8.ofNat c.front.length) d = some next) :
    s.Reassembles (pieces.map c.ofPiece) (UInt8.ofNat c.front.length) (c.front ++ rest) d ∧
      next.Kept c pieces := by
  obtain ⟨x, hx, rfl⟩ := List.mem_map.mp hd
  have hplace : ∀ y ∈ pieces, y.offset % 8 = 0 ∧ y.offset < 65536 := by
    intro y hy
    have hbounds := hcut.bounds hy
    omega
  have hA : decide (c.ofPiece x ∈ s.arrived) = false := decide_eq_false hfresh
  have hadded := h.add hcut hfits hx hA
  change Collected pieces c.front _ (c.added ((s.fragments c.fragmentsId).getD .new) x) at hadded
  -- The pieces that are selected are those that have arrived.
  have hselected : ∀ y ∈ pieces, (decide (c.ofPiece y ∈ s.arrived) || decide (y = x)) =
      decide (c.ofPiece y ∈ s.arrived ++ [c.ofPiece x]) := by
    intro y hy
    rw [← Bool.decide_or, decide_eq_decide, List.mem_append, List.mem_singleton]
    refine or_congr_right ⟨fun heq => by rw [heq], fun heq => ?_⟩
    exact Cutting.ofPiece_injective hone (hplace y hy) (hplace x hx) heq
  have hall : (∀ y ∈ pieces, (decide (c.ofPiece y ∈ s.arrived) || decide (y = x)) = true) ↔
      ∀ f ∈ pieces.map c.ofPiece, f ∈ s.arrived ++ [c.ofPiece x] := by
    rw [List.forall_mem_map]
    refine forall₂_congr fun y hy => ?_
    rw [hselected y hy, decide_eq_true_eq]
  have hentire := hadded.isEntire_iff hcut hfits
  have hprocess := Cutting.process_ofPiece hone hshort (hplace x hx) s.fragments
  obtain rfl := Option.some.inj hstep
  by_cases hcomplete : ∀ f ∈ pieces.map c.ofPiece, f ∈ s.arrived ++ [c.ofPiece x]
  · have hpacket := hadded.getPacket_eq hcut (hall.mpr hcomplete)
    rw [if_pos (hentire.mpr (hall.mpr hcomplete)), hpacket, Option.map_some] at hprocess
    refine ⟨⟨_, _, hprocess, iff_of_true rfl hcomplete, fun p hp => ?_⟩, ?_⟩
    · exact (Option.some.inj hp).symm
    · rw [Kept, hprocess, if_pos hcomplete]
      simp only [Option.map_some, Option.getD_some, Function.update_self, Option.getD_none,
        List.not_mem_nil, decide_false]
      exact collected_new pieces c.front
  · have hnot : ¬ (c.added ((s.fragments c.fragmentsId).getD .new) x).isEntire = true :=
      fun hyes => hcomplete (hall.mp (hentire.mp hyes))
    rw [if_neg hnot] at hprocess
    refine ⟨⟨_, _, hprocess, iff_of_false Bool.false_ne_true hcomplete, fun p hp => nomatch hp⟩, ?_⟩
    rw [Kept, hprocess, if_neg hcomplete]
    simp only [Option.map_some, Option.getD_some, Function.update_self]
    refine ⟨?_, ?_, ?_⟩
    · rw [hadded.stored, List.filter_congr hselected]
    · rw [hadded.more, List.filter_congr hselected]
    · intro y hy harrived hzero
      apply hadded.first y hy _ hzero
      rw [hselected y hy]
      exact harrived

/-- Over every order of arrivals without a repetition, the packet is reassembled. -/
theorem eachStep_reassembles (hcut : Cut size 0 rest pieces) (hfits : rest.length < 65536)
    (hone : c.unfragmentablePart.length ≤ 1) (hshort : c.front.length < 256)
    {order : List Ipv6Packet} (hmem : ∀ d ∈ order, d ∈ pieces.map c.ofPiece)
    (hfresh : EachStep (step (pieces.map c.ofPiece) (UInt8.ofNat c.front.length))
      (fun s d _ => s.Fresh d) start order) :
    EachStep (step (pieces.map c.ofPiece) (UInt8.ofNat c.front.length))
      (fun s d _ => s.Reassembles (pieces.map c.ofPiece) (UInt8.ofNat c.front.length)
        (c.front ++ rest) d) start order := by
  have hboth : EachStep (step (pieces.map c.ofPiece) (UInt8.ofNat c.front.length))
      (fun s d _ => s.Fresh d ∧ d ∈ pieces.map c.ofPiece) start order := by
    intro done d rest state next horder hdone hstep
    refine ⟨hfresh done d rest state next horder hdone hstep, hmem d ?_⟩
    rw [horder]
    exact List.mem_append_right _ List.mem_cons_self
  have hequiv : ∀ (s : Delivery) (d : Ipv6Packet) (next : Delivery), s.Kept c pieces →
      s.step (pieces.map c.ofPiece) (UInt8.ofNat c.front.length) d = some next →
      ((s.Fresh d ∧ d ∈ pieces.map c.ofPiece) ∧ s.Reassembles (pieces.map c.ofPiece)
          (UInt8.ofNat c.front.length) (c.front ++ rest) d ↔
        s.Fresh d ∧ d ∈ pieces.map c.ofPiece) :=
    fun s d next h hstep => and_iff_left_of_imp fun hd =>
      (reassembles_fresh hcut hfits hone hshort h hd.2 hd.1 hstep).1
  have hkeep : ∀ (s : Delivery) (d : Ipv6Packet) (next : Delivery), s.Kept c pieces →
      s.step (pieces.map c.ofPiece) (UInt8.ofNat c.front.length) d = some next →
      s.Fresh d ∧ d ∈ pieces.map c.ofPiece → next.Kept c pieces :=
    fun s d next h hstep hd => (reassembles_fresh hcut hfits hone hshort h hd.2 hd.1 hstep).2
  have hruns := (eachStep_iff_of_invariant hequiv hkeep (kept_start c pieces) order).mpr hboth
  exact (eachStep_and.mp hruns).2

end Delivery

/-! ## The round trip -/

namespace Original

variable (o : Original) (maxFragmentSize identification : UInt32) (indices : List ℕ)

/-- A fragment begins with the unfragmentable headers in their order. -/
def Carries (f : Ipv6Packet) : Prop :=
  ∃ (h : FragmentHeader) (piece : List UInt8), f.bytes = o.front ++ (h.bytes ++ piece)

/-- Where the fragment headers are. -/
def position : UInt8 := UInt8.ofNat o.front.length

/-- The packet is cut into fragments that fit and carry its headers, and delivering them in an
order of their indices reassembles it. -/
def Undone : Prop :=
  ∃ fragments, getFragments o.packet maxFragmentSize identification = some fragments ∧
    (∀ f ∈ fragments, f.size ≤ maxFragmentSize.toNat ∧ o.Carries f) ∧
    EachStep (Delivery.step fragments o.position)
      (fun s d _ => s.Reassembles fragments o.position (o.front ++ o.fragmentable) d) .start
      (indices.filterMap fun i => fragments[i]?)

/-- No fragment comes again before the packet is complete. -/
def WithoutRepetition : Prop :=
  ∀ fragments, getFragments o.packet maxFragmentSize identification = some fragments →
    EachStep (Delivery.step fragments o.position) (fun s d _ => s.Fresh d) .start
      (indices.filterMap fun i => fragments[i]?)

/-- What the loop over the fragments of the packet reads. -/
def cutting : Cutting where
  ipv6Header :=
    if o.extensions = [] then { o.header with nextHeader := fragmentation } else o.header
  unfragmentablePart := carried o.extensions
  nextHeader := upper o.header.nextHeader o.extensions
  p := o.fragmentable
  maxFragmentablePartSize :=
    maxFragmentSize - 40 - unfragmentablePartSize (carried o.extensions) - 8
  identification := identification

theorem length_le_bytes (hs : List ExtensionHeader) :
    hs.length ≤ (hs.flatMap ExtensionHeader.bytes).length := by
  induction hs with
  | nil => exact Nat.le_refl _
  | cons h hs ih =>
      rw [List.flatMap_cons, List.length_append, List.length_cons, ExtensionHeader.bytes,
        List.length_cons]
      omega

/-- Parsing the packet finds its headers again. -/
theorem cutting_packet :
    Ipv6.cutting o.packet maxFragmentSize identification =
      some (o.cutting maxFragmentSize identification) := by
  have hchained := o.chained
  unfold Ipv6.cutting cutting packet bytes
  cases hext : o.extensions with
  | nil =>
      rw [hext, Chained] at hchained
      simp only [List.flatMap_nil, List.nil_append, hchained, Bool.false_eq_true, if_false, if_true]
      rfl
  | cons h hs =>
      rw [hext] at hchained
      have hlength := length_le_bytes (h :: hs)
      rw [List.length_cons] at hlength
      simp only [hchained.1.2.2, if_true, List.cons_ne_nil, if_false]
      rw [splitHeaders_chained hchained, Option.map_some]
      rw [List.length_append]
      omega

variable {o maxFragmentSize}

theorem carried_length (hs : List ExtensionHeader) : (carried hs).length = hs.length := by
  induction hs with
  | nil => rfl
  | cons h hs ih =>
      cases hs with
      | nil => rfl
      | cons second hs =>
          rw [carried, List.length_cons, ih]
          rfl

/-- The size of at most one short header is counted as it is. -/
theorem unfragmentablePartSize_eq (hone : o.extensions.length ≤ 1)
    (hshort : o.front.length < 256) :
    (unfragmentablePartSize (carried o.extensions)).toNat = o.front.length := by
  have hchained := o.chained
  unfold front at hshort ⊢
  match hext : o.extensions, hone with
  | [], _ => rfl
  | [h], _ =>
      rw [hext] at hchained hshort
      have hlength := hchained.1.2.1.length_eq
      simp only [carried, List.flatMap_cons, List.flatMap_nil, List.append_nil,
        ExtensionHeader.bytes, List.length_cons] at hshort ⊢
      simp only [unfragmentablePartSize, List.map_cons, List.map_nil, List.sum_cons, List.sum_nil,
        UInt32.add_zero, ExtensionHeader.getLength, UInt32.toNat_ofNat'] at hlength ⊢
      omega

/-- A packet with at most one short header, whose fragmentable part is a multiple of eight bytes,
is reassembled from any order of its fragments without repetitions. -/
theorem undone_of_aligned (identification : UInt32)
    (hmax : o.front.length + 56 ≤ maxFragmentSize.toNat) (hpayload : o.bytes.length < 65536)
    (hone : o.extensions.length ≤ 1) (hshort : o.front.length < 256)
    (haligned : o.fragmentable.length % 8 = 0)
    (hfresh : o.WithoutRepetition maxFragmentSize identification indices) :
    o.Undone maxFragmentSize identification indices := by
  let c := o.cutting maxFragmentSize identification
  have hsize := unfragmentablePartSize_eq hone hshort
  have hlt := maxFragmentSize.toNat_lt
  have hpart : c.maxFragmentablePartSize.toNat = maxFragmentSize.toNat - 48 - o.front.length := by
    change (maxFragmentSize - 40 - unfragmentablePartSize (carried o.extensions) - 8).toNat = _
    rw [UInt32.toNat_sub, UInt32.toNat_sub, UInt32.toNat_sub, hsize]
    change (2 ^ 32 - 8 + (2 ^ 32 - o.front.length +
      (2 ^ 32 - 40 + maxFragmentSize.toNat) % 2 ^ 32) % 2 ^ 32) % 2 ^ 32 = _
    omega
  have hfits : o.fragmentable.length < 65536 := by
    rw [bytes, List.length_append] at hpayload
    omega
  have hc : c.unfragmentablePart.length ≤ 1 := by
    change (carried o.extensions).length ≤ 1
    rw [carried_length]
    exact hone
  obtain ⟨pieces, hcut, hloop⟩ := @Cutting.loop_cut c (by omega) hfits haligned
    (o.fragmentable.length + 1) 0 rfl (Nat.zero_le _) (by omega) (by
      change o.fragmentable.length - 0 < _
      omega)
  have hfragments : getFragments o.packet maxFragmentSize identification =
      some (pieces.map c.ofPiece) := by
    rw [getFragments, cutting_packet]
    exact hloop
  rw [List.drop_zero] at hcut
  refine ⟨pieces.map c.ofPiece, hfragments, ?_, ?_⟩
  · rw [List.forall_mem_map]
    intro x hx
    have hbytes := Cutting.ofPiece_bytes hc x
    have hlength := (hcut.bounds hx).2.1
    refine ⟨?_, _, _, hbytes⟩
    rw [Ipv6Packet.size, hbytes, List.length_append, List.length_append]
    change 40 + (o.front.length + (8 + x.bytes.length)) ≤ _
    omega
  · apply Delivery.eachStep_reassembles hcut hfits hc hshort
    · intro d hd
      obtain ⟨i, -, hi⟩ := List.mem_filterMap.mp hd
      exact List.mem_of_getElem? hi
    · exact hfresh _ hfragments

/-- With several headers, none of the fragments carries them in their order. -/
theorem Undone.length_le_one {identification : UInt32}
    (h : o.Undone maxFragmentSize identification indices) : o.extensions.length ≤ 1 := by
  obtain ⟨fragments, hfragments, hcarries, -⟩ := h
  rw [getFragments, cutting_packet] at hfragments
  obtain ⟨f, hf, offset, more, piece, rfl⟩ := Cutting.exists_of_loop hfragments
  obtain ⟨header, rest, hbytes⟩ := (hcarries _ hf).2
  have hchained := o.chained
  match hext : o.extensions with
  | [] => exact Nat.zero_le _
  | [_] => exact Nat.le_refl _
  | first :: second :: hs =>
      rw [hext] at hchained
      have hhead := congrArg List.head? hbytes
      have hlast := carried_getLast? first (second :: hs)
      simp only [Cutting.fragment, Cutting.head?_prepend, cutting, hext, hlast] at hhead
      rw [front, hext, carried, List.flatMap_cons, ExtensionHeader.bytes] at hhead
      -- The first header in the fragment is the last one of the packet.
      have hnext : fragmentation = first.nextHeader := Option.some.inj hhead
      exact absurd hnext.symm (ne_fragmentation_of_goesOn hchained.2.1.2.2)

/-- Twenty-four bytes behind a hop-by-hop header, in fragments of sixteen bytes. -/
def padded : Original where
  header := ⟨1, 2, hopByHop, 32⟩
  extensions := [⟨hopByHop, 59, 0, [1, 4, 0, 0, 0, 0]⟩]
  fragmentable := List.replicate 24 7
  chained := ⟨⟨rfl, ⟨rfl, fun h => absurd h (by decide)⟩, rfl⟩, rfl⟩

theorem undone_of_aligned_padded : padded.Undone 72 5 [1, 0] := by
  apply undone_of_aligned
  · decide
  · decide
  · decide
  · decide
  · decide
  · intro fragments hfragments
    obtain rfl := Option.some.inj (Eq.symm hfragments)
    apply eachStep_of_take
    decide

/-- One byte is fragmentable. -/
def oneByte : Original where
  header := ⟨1, 2, 59, 1⟩
  extensions := []
  fragmentable := [7]
  chained := rfl

def oneByteFragment : Ipv6Packet :=
  ⟨⟨1, 2, fragmentation, 8⟩, [59, 255, 0, 0, 0, 0, 0, 5]⟩

/-- The only fragment is empty. -/
theorem oneByte_not_undone : ¬ oneByte.Undone 1280 5 [0] := by
  rintro ⟨fragments, hfragments, -, hrun⟩
  have hcut : getFragments oneByte.packet 1280 5 = some [oneByteFragment] := by decide
  obtain rfl := Option.some.inj (hcut.symm.trans hfragments)
  obtain ⟨m, result, hprocess, hentire, hpacket⟩ :=
    hrun [] oneByteFragment [] .start _ rfl rfl rfl
  obtain ⟨p, hp⟩ := Option.isSome_iff_exists.mp (hentire.mpr (by decide))
  have hempty := congrArg (Option.map Prod.snd) hprocess
  rw [hp, hpacket p hp] at hempty
  change _ = some (some (oneByte.front ++ oneByte.fragmentable)) at hempty
  revert hempty
  decide

end Original

end Ns3Rdma.Ipv6
