import Ns3Rdma.Tcp.TcpOption

/-! # The SACK score board

The board is meant to be a set of blocks that is kept sorted by insertion. The insertion of the
source places a block only in front of a later one, so the highest block of a board never changes,
and an empty board stays empty. -/

namespace Ns3Rdma.TcpWire

namespace SackScoreBoard

/-- `AddSack` for each block in turn. -/
def addSacks (blocks board : List SackBlock) : List SackBlock :=
  blocks.foldl (fun sb s => addSack s sb) board

/-- `ClearSackList`. -/
def clearSackList : List SackBlock := []

/-- The block is not empty, and it ends less than 2^31 after `base`. -/
def InWindow (base : SequenceNumber32) (b : SackBlock) : Prop :=
  b.1.distance base < b.2.distance base ∧ b.2.distance base < 2 ^ 31

/-- One of the blocks ends before the other starts. -/
def NonOverlapping (b c : SackBlock) : Prop := b.2 ≤ c.1 ∨ c.2 ≤ b.1

/-- The left edges increase. -/
def Sorted (board : List SackBlock) : Prop := board.Pairwise fun b c => b.1 < c.1

/-- The board holds the blocks that it had and the added ones, each once and sorted. -/
def AddsAll (blocks board : List SackBlock) : Prop :=
  (addSacks blocks board).Perm (blocks ++ board) ∧ Sorted (addSacks blocks board)

variable {base : SequenceNumber32} {s b c : SackBlock} {blocks board : List SackBlock}

theorem InWindow.lt_iff (hb : InWindow base b) (hc : InWindow base c) :
    b.1 < c.1 ↔ b.1.distance base < c.1.distance base := by
  have hlt := SequenceNumber32.plus_lt_plus (s := base) (hb.1.trans hb.2) (hc.1.trans hc.2)
  rwa [SequenceNumber32.plus_distance, SequenceNumber32.plus_distance] at hlt

theorem InWindow.edge_le_iff (hb : InWindow base b) (hc : InWindow base c) :
    b.2 ≤ c.1 ↔ b.2.distance base ≤ c.1.distance base := by
  have hle := SequenceNumber32.plus_le_plus (s := base) hb.2 (hc.1.trans hc.2)
  rwa [SequenceNumber32.plus_distance, SequenceNumber32.plus_distance] at hle

/-- Of two blocks of the window that do not overlap, one starts before the other. -/
theorem lt_of_not_lt (hb : InWindow base b) (hc : InWindow base c) (h : NonOverlapping b c)
    (hnot : ¬ b.1 < c.1) : c.1 < b.1 := by
  unfold NonOverlapping at h
  rw [hb.edge_le_iff hc, hc.edge_le_iff hb] at h
  rw [hb.lt_iff hc] at hnot
  rw [hc.lt_iff hb]
  have hbne := hb.1
  have hcne := hc.1
  omega

theorem lt_trans (hs : InWindow base s) (hb : InWindow base b) (hc : InWindow base c)
    (hsb : s.1 < b.1) (hbc : b.1 < c.1) : s.1 < c.1 := by
  rw [hs.lt_iff hb] at hsb
  rw [hb.lt_iff hc] at hbc
  rw [hs.lt_iff hc]
  exact hsb.trans hbc

/-! ## One block -/

theorem addSack_perm (h : ∃ c ∈ board, s.1 < c.1) : (addSack s board).Perm (s :: board) := by
  induction board with
  | nil =>
      obtain ⟨c, hc, -⟩ := h
      cases hc
  | cons block rest ih =>
      rw [addSack]
      split
      next => exact List.Perm.refl _
      next hnot =>
          obtain ⟨c, hc, hlt⟩ := h
          rcases List.mem_cons.mp hc with rfl | hrest
          · exact absurd hlt hnot
          · exact ((ih ⟨c, hrest, hlt⟩).cons block).trans (List.Perm.swap s block rest)

/-- A block that starts after all others is lost. -/
theorem addSack_of_last (h : ∀ c ∈ board, ¬ s.1 < c.1) : addSack s board = board := by
  induction board with
  | nil => rfl
  | cons block rest ih =>
      rw [addSack, if_neg (h block List.mem_cons_self),
        ih fun c hc => h c (List.mem_cons_of_mem _ hc)]

theorem mem_of_mem_addSack (h : c ∈ addSack s board) : c = s ∨ c ∈ board := by
  by_cases hlater : ∃ d ∈ board, s.1 < d.1
  · exact List.mem_cons.mp ((addSack_perm hlater).mem_iff.mp h)
  · push Not at hlater
    rw [addSack_of_last hlater] at h
    exact Or.inr h

theorem addSack_sorted (hs : InWindow base s) (hboard : ∀ c ∈ board, InWindow base c)
    (hapart : ∀ c ∈ board, NonOverlapping s c) (hsorted : Sorted board) :
    Sorted (addSack s board) := by
  induction board with
  | nil => exact hsorted
  | cons block rest ih =>
      rw [List.forall_mem_cons] at hboard hapart
      obtain ⟨hblock, hrest⟩ := hboard
      obtain ⟨hbehind, htail⟩ := List.pairwise_cons.mp hsorted
      rw [addSack]
      split
      next hlt =>
          refine List.pairwise_cons.mpr ⟨?_, hsorted⟩
          intro c hc
          rcases List.mem_cons.mp hc with rfl | hmem
          · exact hlt
          · exact lt_trans hs hblock (hrest c hmem) hlt (hbehind c hmem)
      next hnot =>
          refine List.pairwise_cons.mpr ⟨?_, ih hrest hapart.2 htail⟩
          intro c hc
          rcases mem_of_mem_addSack hc with rfl | hmem
          · exact lt_of_not_lt hs hblock hapart.1 hnot
          · exact hbehind c hmem

/-! ## A sequence of blocks -/

/-- The blocks that find a later one on the board. -/
def placed (blocks board : List SackBlock) : List SackBlock :=
  blocks.filter fun s => board.any fun c => s.1 < c.1

/-- A new block does not help those that come after it, for it has a later one itself. -/
theorem any_addSack (hs : InWindow base s) (hb : InWindow base b)
    (hboard : ∀ c ∈ board, InWindow base c) :
    ((addSack s board).any fun c => b.1 < c.1) = board.any fun c => b.1 < c.1 := by
  by_cases hlater : ∃ c ∈ board, s.1 < c.1
  · rw [(addSack_perm hlater).any_eq, List.any_cons, Bool.eq_iff_iff, Bool.or_eq_true,
      or_iff_right_iff_imp]
    intro hlt
    obtain ⟨c, hc, hsc⟩ := hlater
    rw [List.any_eq_true]
    exact ⟨c, hc, decide_eq_true (lt_trans hb hs (hboard c hc) (of_decide_eq_true hlt) hsc)⟩
  · push Not at hlater
    rw [addSack_of_last hlater]

theorem inWindow_addSack (hs : InWindow base s) (hboard : ∀ c ∈ board, InWindow base c) :
    ∀ c ∈ addSack s board, InWindow base c := by
  intro c hc
  rcases mem_of_mem_addSack hc with rfl | hmem
  · exact hs
  · exact hboard c hmem

theorem addSacks_perm (hblocks : ∀ b ∈ blocks, InWindow base b)
    (hboard : ∀ c ∈ board, InWindow base c) :
    (addSacks blocks board).Perm (placed blocks board ++ board) := by
  induction blocks generalizing board with
  | nil => exact List.Perm.refl _
  | cons s rest ih =>
      rw [List.forall_mem_cons] at hblocks
      obtain ⟨hs, hrest⟩ := hblocks
      have hstep := ih hrest (inWindow_addSack hs hboard)
      have hplaced : placed rest (addSack s board) = placed rest board :=
        List.filter_congr fun b hb => any_addSack hs (hrest b hb) hboard
      rw [hplaced] at hstep
      refine hstep.trans ?_
      by_cases hlater : ∃ c ∈ board, s.1 < c.1
      · have hhead : placed (s :: rest) board = s :: placed rest board :=
          List.filter_cons_of_pos (by simpa using hlater)
        rw [hhead]
        exact ((addSack_perm hlater).append_left _).trans List.perm_middle
      · have hhead : placed (s :: rest) board = placed rest board :=
          List.filter_cons_of_neg (by simpa using hlater)
        push Not at hlater
        rw [hhead, addSack_of_last hlater]

theorem addSacks_sorted (hblocks : ∀ b ∈ blocks, InWindow base b)
    (hboard : ∀ c ∈ board, InWindow base c) (hapart : blocks.Pairwise NonOverlapping)
    (hnew : ∀ b ∈ blocks, ∀ c ∈ board, NonOverlapping b c) (hsorted : Sorted board) :
    Sorted (addSacks blocks board) := by
  induction blocks generalizing board with
  | nil => exact hsorted
  | cons s rest ih =>
      rw [List.forall_mem_cons] at hblocks hnew
      obtain ⟨hs, hrest⟩ := hblocks
      obtain ⟨hlast, hapart⟩ := List.pairwise_cons.mp hapart
      refine ih hrest (inWindow_addSack hs hboard) hapart ?_
        (addSack_sorted hs hboard hnew.1 hsorted)
      intro b hb c hc
      rcases mem_of_mem_addSack hc with rfl | hmem
      · exact Or.symm (hlast b hb)
      · exact hnew.2 b hb c hmem

/-- A sorted board takes up all added blocks if and only if each of them starts before the
highest block that is already there. -/
theorem addsAll_iff (hblocks : ∀ b ∈ blocks, InWindow base b)
    (hboard : ∀ c ∈ board, InWindow base c) (hapart : blocks.Pairwise NonOverlapping)
    (hnew : ∀ b ∈ blocks, ∀ c ∈ board, NonOverlapping b c) (hsorted : Sorted board) :
    AddsAll blocks board ↔ ∀ b ∈ blocks, ∃ c ∈ board, b.1 < c.1 := by
  have hperm := addSacks_perm hblocks hboard
  have hkeep : (∀ b ∈ blocks, ∃ c ∈ board, b.1 < c.1) ↔ placed blocks board = blocks := by
    rw [placed, List.filter_eq_self]
    simp
  rw [hkeep]
  constructor
  · rintro ⟨hall, -⟩
    have hlength := (hperm.symm.trans hall).length_eq
    rw [List.length_append, List.length_append, Nat.add_right_cancel_iff] at hlength
    exact List.filter_sublist.eq_of_length hlength
  · intro heq
    rw [heq] at hperm
    exact ⟨hperm, addSacks_sorted hblocks hboard hapart hnew hsorted⟩

/-- A cleared board takes up a sequence of blocks if and only if the sequence is empty. -/
theorem cleared_board_adds_all_iff (base : SequenceNumber32) (blocks : List SackBlock)
    (hblocks : ∀ b ∈ blocks, InWindow base b) (hapart : blocks.Pairwise NonOverlapping) :
    AddsAll blocks clearSackList ↔ blocks = [] := by
  rw [clearSackList, addsAll_iff hblocks (by simp) hapart (by simp) List.Pairwise.nil]
  constructor
  · intro h
    rw [List.eq_nil_iff_forall_not_mem]
    intro b hb
    obtain ⟨c, hc, -⟩ := h b hb
    cases hc
  · rintro rfl b hb
    cases hb

/-- Two blocks. -/
theorem cleared_board_adds_all_two :
    AddsAll [(⟨1000⟩, ⟨1500⟩), (⟨3000⟩, ⟨3500⟩)] clearSackList ↔
      [((⟨1000⟩, ⟨1500⟩) : SackBlock), (⟨3000⟩, ⟨3500⟩)] = [] :=
  cleared_board_adds_all_iff ⟨0⟩ _
    (by
      intro b hb
      simp only [List.mem_cons, List.not_mem_nil, or_false] at hb
      rcases hb with rfl | rfl
      · exact ⟨by decide, by decide⟩
      · exact ⟨by decide, by decide⟩)
    (by
      refine List.pairwise_pair.mpr (Or.inl ?_)
      decide)

/-- One block, added to the cleared board, is lost. -/
theorem not_cleared_board_adds_all :
    ¬ ∀ (base : SequenceNumber32) (blocks : List SackBlock), (∀ b ∈ blocks, InWindow base b) →
      blocks.Pairwise NonOverlapping → AddsAll blocks clearSackList := by
  intro h
  have hone := h ⟨0⟩ [(⟨1000⟩, ⟨1500⟩)]
    (by
      intro b hb
      obtain rfl := List.mem_singleton.mp hb
      exact ⟨by decide, by decide⟩)
    (List.pairwise_singleton _ _)
  have hlength := hone.1.length_eq
  exact absurd hlength (by decide)

end SackScoreBoard

end Ns3Rdma.TcpWire
