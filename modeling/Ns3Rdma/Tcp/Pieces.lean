import Ns3Rdma.Tcp.RxBuffer

/-! # The stored segments as pieces of a stream

The entries of a receive buffer are read as pieces of a stream that starts at a sequence number `s`.
The loops of the buffer are described by what they do to a list of pieces. -/

namespace Ns3Rdma

structure Piece where
  first : ℕ
  bytes : Payload

namespace Piece

/-- The offset behind the piece. -/
def stop (x : Piece) : ℕ := x.first + x.bytes.length

def entry (s : SequenceNumber32) (x : Piece) : RxEntry := (s.plus x.first, x.bytes)

/-- The pieces lie in this order between `lo` and `hi`, and none is empty. -/
def Laid (hi : ℕ) : ℕ → List Piece → Prop
  | _, [] => True
  | lo, x :: rest => lo ≤ x.first ∧ x.first < x.stop ∧ x.stop ≤ hi ∧ Laid hi x.stop rest

/-- The pieces cover the bytes from `lo` to `hi`. -/
def Tiles (hi : ℕ) : ℕ → List Piece → Prop
  | lo, [] => lo = hi
  | lo, x :: rest => x.first = lo ∧ x.first < x.stop ∧ Tiles hi x.stop rest

/-- How many bytes the pieces have. -/
def occupied (xs : List Piece) : ℕ := (xs.map fun x => x.bytes.length).sum

/-- What is left of the pieces when some are removed that begin after `h`. -/
inductive Prunes (h : ℕ) : List Piece → List Piece → Prop
  | nil : Prunes h [] []
  | keep {x : Piece} {xs ys : List Piece} : Prunes h xs ys → Prunes h (x :: xs) (x :: ys)
  | drop {x : Piece} {xs ys : List Piece} : h < x.first → Prunes h xs ys → Prunes h (x :: xs) ys

/-- Some piece has the byte `k`. -/
def Covers (xs : List Piece) (k : ℕ) : Prop := ∃ x ∈ xs, x.first ≤ k ∧ k < x.stop

variable {s : SequenceNumber32} {x : Piece} {xs ys front back : List Piece}
  {lo lo' mid hi hi' h h' t n c k : ℕ}

@[simp] theorem occupied_cons (x : Piece) (xs : List Piece) :
    occupied (x :: xs) = x.bytes.length + occupied xs := rfl

theorem occupied_append (xs ys : List Piece) : occupied (xs ++ ys) = occupied xs + occupied ys := by
  unfold occupied
  rw [List.map_append, List.sum_append]

theorem toNat_getSize (hsize : x.stop < 2 ^ 31) : x.bytes.getSize.toNat = x.bytes.length := by
  unfold stop at hsize
  exact Payload.toNat_getSize (by omega)

theorem plus_getSize (hsize : x.stop < 2 ^ 31) :
    s.plus x.first + x.bytes.getSize = s.plus x.stop := by
  rw [SequenceNumber32.plus_add, toNat_getSize hsize]
  rfl

/-! ## Coverage -/

theorem covers_cons : Covers (x :: xs) k ↔ (x.first ≤ k ∧ k < x.stop) ∨ Covers xs k := by
  unfold Covers
  simp only [List.mem_cons, exists_eq_or_imp]

theorem covers_append : Covers (xs ++ ys) k ↔ Covers xs k ∨ Covers ys k := by
  unfold Covers
  simp only [List.mem_append, or_and_right, exists_or]

theorem Covers.of_mem_iff {zs : List Piece} {z : Piece} (hmem : ∀ y, y ∈ zs ↔ y = z ∨ y ∈ xs) :
    Covers zs k ↔ (z.first ≤ k ∧ k < z.stop) ∨ Covers xs k := by
  unfold Covers
  simp only [hmem, exists_eq_or_imp]

/-! ## Layouts -/

theorem Laid.mono (hlaid : Laid hi lo xs) (hlo : lo' ≤ lo) (hhi : hi ≤ hi') : Laid hi' lo' xs := by
  induction xs generalizing lo lo' with
  | nil => trivial
  | cons x rest ih =>
      obtain ⟨hfirst, hfull, hstop, hrest⟩ := hlaid
      exact ⟨hlo.trans hfirst, hfull, hstop.trans hhi, ih hrest le_rfl⟩

theorem Laid.of_mem (hlaid : Laid hi lo xs) (hx : x ∈ xs) :
    lo ≤ x.first ∧ x.first < x.stop ∧ x.stop ≤ hi := by
  induction xs generalizing lo with
  | nil => cases hx
  | cons y rest ih =>
      obtain ⟨hfirst, hfull, hstop, hrest⟩ := hlaid
      rcases List.mem_cons.mp hx with rfl | hx
      · exact ⟨hfirst, hfull, hstop⟩
      · obtain ⟨hlow, hinner⟩ := ih hrest hx
        exact ⟨by omega, hinner⟩

theorem Laid.occupied_le (hlaid : Laid hi lo xs) (hlo : lo ≤ hi) : lo + occupied xs ≤ hi := by
  induction xs generalizing lo with
  | nil => exact hlo
  | cons x rest ih =>
      obtain ⟨hfirst, hfull, hstop, hrest⟩ := hlaid
      have hsum := ih hrest hstop
      rw [occupied_cons]
      unfold stop at hsum
      omega

theorem Tiles.le (htiles : Tiles hi lo xs) : lo ≤ hi := by
  induction xs generalizing lo with
  | nil => exact le_of_eq htiles
  | cons x rest ih =>
      obtain ⟨hfirst, hfull, hrest⟩ := htiles
      have hle := ih hrest
      omega

theorem Tiles.occupied_eq (htiles : Tiles hi lo xs) : lo + occupied xs = hi := by
  induction xs generalizing lo with
  | nil => exact htiles
  | cons x rest ih =>
      obtain ⟨hfirst, hfull, hrest⟩ := htiles
      have hsum := ih hrest
      rw [occupied_cons]
      unfold stop at hsum
      omega

/-- A covered range and what lies behind it are laid out in this order. -/
theorem Tiles.laid_append (htiles : Tiles mid lo front) (hback : Laid hi mid back)
    (hmid : mid ≤ hi) : Laid hi lo (front ++ back) := by
  induction front generalizing lo with
  | nil =>
      obtain rfl : lo = mid := htiles
      exact hback
  | cons x rest ih =>
      obtain ⟨hfirst, hfull, hrest⟩ := htiles
      exact ⟨hfirst.ge, hfull, hrest.le.trans hmid, ih hrest⟩

theorem Tiles.append (hfront : Tiles mid lo front) (hback : Tiles hi mid back) :
    Tiles hi lo (front ++ back) := by
  induction front generalizing lo with
  | nil =>
      obtain rfl : lo = mid := hfront
      exact hback
  | cons x rest ih =>
      obtain ⟨hfirst, hfull, hrest⟩ := hfront
      exact ⟨hfirst, hfull, ih hrest⟩

theorem Tiles.of_mem (htiles : Tiles hi lo xs) (hx : x ∈ xs) :
    lo ≤ x.first ∧ x.first < x.stop ∧ x.stop ≤ hi := by
  have hlaid : Laid hi lo (xs ++ []) := htiles.laid_append trivial le_rfl
  rw [List.append_nil] at hlaid
  exact hlaid.of_mem hx

theorem Tiles.covers (htiles : Tiles hi lo xs) (hlow : lo ≤ k) (hk : k < hi) : Covers xs k := by
  induction xs generalizing lo with
  | nil =>
      obtain rfl : lo = hi := htiles
      omega
  | cons x rest ih =>
      obtain ⟨rfl, -, hrest⟩ := htiles
      refine covers_cons.mpr ?_
      by_cases hinside : k < x.stop
      · exact Or.inl ⟨hlow, hinside⟩
      · exact Or.inr (ih hrest (not_lt.mp hinside))

/-! ## Offsets from another byte -/

/-- The piece as one of the stream behind the first `n` bytes. -/
def shift (n : ℕ) (x : Piece) : Piece := ⟨x.first - n, x.bytes⟩

theorem entry_shift (hx : n ≤ x.first) : entry s x = entry (s.plus n) (x.shift n) := by
  unfold entry shift
  rw [SequenceNumber32.plus_plus]
  congr 2
  exact (Nat.add_sub_of_le hx).symm

theorem stop_shift (hx : n ≤ x.first) : (x.shift n).stop = x.stop - n := by
  unfold shift stop
  dsimp only
  omega

theorem occupied_shift (n : ℕ) (xs : List Piece) : occupied (xs.map (shift n)) = occupied xs := by
  unfold occupied
  rw [List.map_map]
  rfl

theorem Laid.shift (hlaid : Laid hi lo xs) (hn : n ≤ lo) :
    Laid (hi - n) (lo - n) (xs.map (shift n)) := by
  induction xs generalizing lo with
  | nil => trivial
  | cons x rest ih =>
      obtain ⟨hfirst, hfull, hstop, hrest⟩ := hlaid
      have hbehind := ih hrest (by omega)
      have hx := stop_shift (show n ≤ x.first by omega)
      have hfirst' : (x.shift n).first = x.first - n := rfl
      rw [← hx] at hbehind
      exact ⟨by omega, by omega, by omega, hbehind⟩

theorem Tiles.shift (htiles : Tiles hi lo xs) (n : ℕ) (hn : n ≤ lo) :
    Tiles (hi - n) (lo - n) (xs.map (shift n)) := by
  induction xs generalizing lo with
  | nil =>
      obtain rfl : lo = hi := htiles
      rfl
  | cons x rest ih =>
      obtain ⟨hfirst, hfull, hrest⟩ := htiles
      have hbehind := ih hrest (by omega)
      have hx := stop_shift (show n ≤ x.first by omega)
      have hfirst' : (x.shift n).first = x.first - n := rfl
      rw [← hx] at hbehind
      exact ⟨by omega, by omega, hbehind⟩

/-! ## Pruned layouts -/

theorem Prunes.refl (h : ℕ) (xs : List Piece) : Prunes h xs xs := by
  induction xs with
  | nil => exact Prunes.nil
  | cons x rest ih => exact Prunes.keep ih

theorem Prunes.mono (hprunes : Prunes h xs ys) (hle : h' ≤ h) : Prunes h' xs ys := by
  induction hprunes with
  | nil => exact Prunes.nil
  | keep _ ih => exact Prunes.keep ih
  | drop hfirst _ ih => exact Prunes.drop (by omega) ih

theorem Prunes.mem (hprunes : Prunes h xs ys) (hx : x ∈ ys) : x ∈ xs := by
  induction hprunes with
  | nil => exact hx
  | keep _ ih =>
      rcases List.mem_cons.mp hx with rfl | hx
      · exact List.mem_cons_self
      · exact List.mem_cons_of_mem _ (ih hx)
  | drop _ _ ih => exact List.mem_cons_of_mem _ (ih hx)

theorem Prunes.laid (hprunes : Prunes h xs ys) (hlaid : Laid hi lo xs) : Laid hi lo ys := by
  induction hprunes generalizing lo with
  | nil => trivial
  | keep _ ih =>
      obtain ⟨hfirst, hfull, hstop, hrest⟩ := hlaid
      exact ⟨hfirst, hfull, hstop, ih hrest⟩
  | drop _ _ ih =>
      obtain ⟨hfirst, hfull, hstop, hrest⟩ := hlaid
      exact (ih hrest).mono (by omega) le_rfl

/-- Pieces that begin at `h` or before are kept. -/
theorem Prunes.keeps_front (hprunes : Prunes h (front ++ back) ys)
    (hfront : ∀ x ∈ front, x.first ≤ h) : ∃ rest, ys = front ++ rest ∧ Prunes h back rest := by
  induction front generalizing ys with
  | nil => exact ⟨ys, rfl, hprunes⟩
  | cons x front ih =>
      cases hprunes with
      | keep hrest =>
          obtain ⟨rest, rfl, hback⟩ := ih hrest fun y hy => hfront y (List.mem_cons_of_mem _ hy)
          exact ⟨rest, rfl, hback⟩
      | drop hfirst _ =>
          have hle := hfront x List.mem_cons_self
          omega

end Piece

namespace TcpRxBuffer

open Piece

variable {s x seq : SequenceNumber32} {xs ys front back : List Piece} {z : Piece}
  {lo hi h t h₁ t₁ h' t' n c m : ℕ} {size : UInt32}

/-! ## The loop that trims a segment -/

/-- Nothing changes when the stored pieces begin behind the segment. -/
theorem trim_of_lt (hlaid : Laid hi lo xs) (hhi : hi < 2 ^ 31) (ht : t < lo)
    (head : SequenceNumber32) :
    trim head (s.plus t) size (xs.map (entry s)) = ⟨xs.map (entry s), head, s.plus t, size⟩ := by
  cases xs with
  | nil => rfl
  | cons x rest =>
      obtain ⟨hfirst, hfull, hstop, -⟩ := hlaid
      rw [List.map_cons, entry, trim, if_neg]
      rw [SequenceNumber32.plus_le_plus (by omega) (by omega)]
      omega

/-- An empty segment stays empty and removes nothing. -/
theorem trim_empty (hlaid : Laid hi lo xs) (hhi : hi < 2 ^ 31) (x : SequenceNumber32)
    (size : UInt32) :
    (trim x x size (xs.map (entry s))).data = xs.map (entry s) ∧
      (trim x x size (xs.map (entry s))).size = size ∧
      (trim x x size (xs.map (entry s))).tailSeq ≤ (trim x x size (xs.map (entry s))).headSeq := by
  induction xs generalizing lo with
  | nil => exact ⟨rfl, rfl, SequenceNumber32.le_refl x⟩
  | cons y rest ih =>
      obtain ⟨hfirst, hfull, hstop, hrest⟩ := hlaid
      obtain ⟨hdata, hsize, hle⟩ := ih hrest
      rw [List.map_cons, entry, trim, plus_getSize (by omega)]
      by_cases hbegin : s.plus y.first ≤ x
      · rw [if_pos hbegin]
        by_cases hover : x < s.plus y.stop
        · have hnot : ¬ x < s.plus y.first := by
            rw [SequenceNumber32.not_lt]
            exact hbegin
          rw [if_pos hover, if_neg fun hboth => hnot hboth.1, if_pos hbegin,
            if_pos (SequenceNumber32.le_of_lt hover), trim_of_lt hrest hhi hfull]
          refine ⟨rfl, rfl, ?_⟩
          exact (SequenceNumber32.plus_le_plus (by omega) (by omega)).mpr hfull.le
        · rw [if_neg hover]
          exact ⟨congrArg _ hdata, hsize, hle⟩
      · rw [if_neg hbegin]
        exact ⟨rfl, rfl, SequenceNumber32.le_refl x⟩

/-- What is left of the segment from `h` to `t` lies apart from every piece that is kept. Together
they have every byte that the segment and the pieces had. -/
structure Trims (h t : ℕ) (xs ys : List Piece) (h' t' : ℕ) : Prop where
  prunes : Prunes h xs ys
  start_le : h ≤ h'
  le_stop : t' ≤ t
  covers : ∀ k, (h ≤ k ∧ k < t) ∨ Covers xs k → (h' ≤ k ∧ k < t') ∨ Covers ys k
  apart : ∀ y ∈ ys, y.stop ≤ h' ∨ t' ≤ y.first

/-- A piece that is kept may shorten the segment, by bytes that it has itself. -/
theorem Trims.keep (hrest : Trims h₁ t₁ xs ys h' t') (hgrows : h ≤ h₁) (hshrinks : t₁ ≤ t)
    (hcut : ∀ k, h ≤ k → k < t → (h₁ ≤ k ∧ k < t₁) ∨ (z.first ≤ k ∧ k < z.stop))
    (hapart : z.stop ≤ h₁ ∨ t₁ ≤ z.first) : Trims h t (z :: xs) (z :: ys) h' t' where
  prunes := Prunes.keep (hrest.prunes.mono hgrows)
  start_le := hgrows.trans hrest.start_le
  le_stop := hrest.le_stop.trans hshrinks
  covers := by
    intro k hk
    rw [covers_cons] at hk ⊢
    rcases hk with hk | hk | hk
    · rcases hcut k hk.1 hk.2 with hk | hk
      · exact (hrest.covers k (Or.inl hk)).imp_right Or.inr
      · exact Or.inr (Or.inl hk)
    · exact Or.inr (Or.inl hk)
    · exact (hrest.covers k (Or.inr hk)).imp_right Or.inr
  apart := by
    have hstart := hrest.start_le
    have hstop := hrest.le_stop
    intro y hy
    rcases List.mem_cons.mp hy with rfl | hy
    · omega
    · exact hrest.apart y hy

/-- A piece inside the segment goes. -/
theorem Trims.drop (hrest : Trims h t xs ys h' t') (hfirst : h < z.first) (hstop : z.stop < t) :
    Trims h t (z :: xs) ys h' t' where
  prunes := Prunes.drop hfirst hrest.prunes
  start_le := hrest.start_le
  le_stop := hrest.le_stop
  covers := by
    intro k hk
    apply hrest.covers
    rw [covers_cons] at hk
    rcases hk with hk | hk | hk
    · exact Or.inl hk
    · exact Or.inl (by omega)
    · exact Or.inr hk
  apart := hrest.apart

/-- The loop trims the segment from `h` to `t`, and reduces the size by what it drops. -/
theorem trim_spec (hlaid : Laid hi lo xs) (hhi : hi < 2 ^ 31) (ht : t ≤ hi)
    (hsegment : h < t ∨ t < lo) (hh : h ≤ hi) (hm : size.toNat = m + occupied xs) :
    ∃ ys h' t' size', trim (s.plus h) (s.plus t) size (xs.map (entry s)) =
        ⟨ys.map (entry s), s.plus h', s.plus t', size'⟩ ∧
      Trims h t xs ys h' t' ∧ size'.toNat = m + occupied ys ∧ h' ≤ hi := by
  induction xs generalizing lo h t m size with
  | nil =>
      refine ⟨[], h, t, size, rfl, ⟨Prunes.nil, le_rfl, le_rfl, fun k hk => hk, ?_⟩, hm, hh⟩
      intro y hy
      cases hy
  | cons x rest ih =>
      obtain ⟨hfirst, hfull, hstop, hrest⟩ := hlaid
      have hx := toNat_getSize (x := x) (by omega)
      rw [List.map_cons, entry, trim, plus_getSize (by omega)]
      simp only [SequenceNumber32.plus_le_plus (show x.first < 2 ^ 31 by omega)
          (show t < 2 ^ 31 by omega),
        SequenceNumber32.plus_lt_plus (show h < 2 ^ 31 by omega)
          (show x.stop < 2 ^ 31 by omega),
        SequenceNumber32.plus_lt_plus (show h < 2 ^ 31 by omega)
          (show x.first < 2 ^ 31 by omega),
        SequenceNumber32.plus_lt_plus (show x.stop < 2 ^ 31 by omega)
          (show t < 2 ^ 31 by omega),
        SequenceNumber32.plus_le_plus (show x.first < 2 ^ 31 by omega)
          (show h < 2 ^ 31 by omega),
        SequenceNumber32.plus_le_plus (show t < 2 ^ 31 by omega)
          (show x.stop < 2 ^ 31 by omega)]
      rw [occupied_cons] at hm
      by_cases hbegin : x.first ≤ t
      · have hseg : h < t := by omega
        rw [if_pos hbegin]
        by_cases hover : h < x.stop
        · rw [if_pos hover]
          by_cases hinside : h < x.first ∧ x.stop < t
          · -- the piece lies inside the segment
            have hsmaller : (size - x.bytes.getSize).toNat = m + occupied rest := by
              rw [UInt32.toNat_sub_of_le, hx]
              · omega
              · rw [UInt32.le_iff_toNat_le, hx]
                omega
            obtain ⟨ys, h', t', size', htrim, htrims, hsize, hle'⟩ :=
              ih hrest ht (Or.inl hseg) hh hsmaller
            rw [if_pos hinside]
            exact ⟨ys, h', t', size', htrim, htrims.drop hinside.1 hinside.2, hsize, hle'⟩
          · obtain ⟨h₁, hh₁⟩ : ∃ h₁, h₁ = if x.first ≤ h then x.stop else h := ⟨_, rfl⟩
            obtain ⟨t₁, ht₁⟩ : ∃ t₁, t₁ = if t ≤ x.stop then x.first else t := ⟨_, rfl⟩
            have hgrows : h ≤ h₁ ∧ h₁ ≤ hi ∧ (x.first ≤ h → h₁ = x.stop) := by
              split at hh₁ <;> omega
            have hshrinks : t₁ ≤ t ∧ (h₁ < t₁ ∨ t₁ < x.stop) ∧ (h < x.first → t₁ = x.first) := by
              split at hh₁ <;> split at ht₁ <;> omega
            have hkept : size.toNat = m + x.bytes.length + occupied rest := by omega
            obtain ⟨ys, h', t', size', htrim, htrims, hsize, hle'⟩ :=
              ih hrest (hshrinks.1.trans ht) hshrinks.2.1 hgrows.2.1 hkept
            rw [if_neg hinside, ← apply_ite s.plus, ← apply_ite s.plus, ← hh₁, ← ht₁, htrim]
            have hcut : ∀ k, h ≤ k → k < t → (h₁ ≤ k ∧ k < t₁) ∨ (x.first ≤ k ∧ k < x.stop) := by
              intro k hlow hhigh
              split at hh₁ <;> split at ht₁ <;> omega
            refine ⟨x :: ys, h', t', size', rfl, htrims.keep hgrows.1 hshrinks.1 hcut ?_, ?_, hle'⟩
            · omega
            · rw [hsize, occupied_cons]
              omega
        · -- the piece lies before the segment
          have hkept : size.toNat = m + x.bytes.length + occupied rest := by omega
          obtain ⟨ys, h', t', size', htrim, htrims, hsize, hle'⟩ :=
            ih hrest ht (Or.inl hseg) hh hkept
          rw [if_neg hover, htrim]
          refine ⟨x :: ys, h', t', size', rfl, htrims.keep le_rfl le_rfl ?_ ?_, ?_, hle'⟩
          · exact fun k hlow hhigh => Or.inl ⟨hlow, hhigh⟩
          · exact Or.inl (Nat.le_of_not_lt hover)
          · rw [hsize, occupied_cons]
            omega
      · rw [if_neg hbegin]
        refine ⟨x :: rest, h, t, size, rfl,
          ⟨Prunes.refl _ _, le_rfl, le_rfl, fun k hk => hk, ?_⟩, hm, hh⟩
        intro y hy
        have hbehind : Laid hi x.first (x :: rest) := ⟨le_rfl, hfull, hstop, hrest⟩
        have hlow := (hbehind.of_mem hy).1
        omega

/-! ## The insertion of a segment -/

theorem insert_append (hfront : ∀ x ∈ front, x.first < z.first) (hz : z.first < 2 ^ 31)
    (data : List RxEntry) :
    insert (s.plus z.first) z.bytes (front.map (entry s) ++ data) =
      front.map (entry s) ++ insert (s.plus z.first) z.bytes data := by
  induction front with
  | nil => rfl
  | cons x rest ih =>
      have hx := hfront x List.mem_cons_self
      rw [List.map_cons, List.cons_append, List.cons_append, entry, insert, if_pos,
        ih fun y hy => hfront y (List.mem_cons_of_mem _ hy)]
      exact (SequenceNumber32.plus_lt_plus (by omega) hz).mpr hx

/-- A piece that lies apart from all others is put between them. -/
theorem insert_spec (hlaid : Laid hi lo xs) (hhi : hi < 2 ^ 31) (hlo : lo ≤ z.first)
    (hfull : z.first < z.stop) (hz : z.stop ≤ hi)
    (hapart : ∀ y ∈ xs, y.stop ≤ z.first ∨ z.stop ≤ y.first) :
    ∃ ys, insert (s.plus z.first) z.bytes (xs.map (entry s)) = ys.map (entry s) ∧
      Laid hi lo ys ∧ (∀ y, y ∈ ys ↔ y = z ∨ y ∈ xs) ∧
      occupied ys = z.bytes.length + occupied xs := by
  induction xs generalizing lo with
  | nil => exact ⟨[z], rfl, ⟨hlo, hfull, hz, trivial⟩, fun y => by simp, rfl⟩
  | cons x rest ih =>
      obtain ⟨hfirst, hxfull, hstop, hrest⟩ := hlaid
      rw [List.map_cons, entry, insert]
      rcases hapart x List.mem_cons_self with hbefore | hbehind
      · obtain ⟨ys, hinsert, hys, hmem, hsum⟩ :=
          ih hrest hbefore fun y hy => hapart y (List.mem_cons_of_mem _ hy)
        rw [if_pos ((SequenceNumber32.plus_lt_plus (by omega) (by omega)).mpr (by omega)), hinsert]
        refine ⟨x :: ys, rfl, ⟨hfirst, hxfull, hstop, hys⟩, fun y => ?_, ?_⟩
        · rw [List.mem_cons, List.mem_cons, hmem]
          exact or_left_comm
        · rw [occupied_cons, occupied_cons, hsum]
          omega
      · have hlt : z.first < x.first := by omega
        rw [if_neg, if_pos ((SequenceNumber32.plus_lt_plus (by omega) (by omega)).mpr hlt)]
        · exact ⟨z :: x :: rest, rfl, ⟨hlo, hfull, hz, hbehind, hxfull, hstop, hrest⟩,
            fun y => List.mem_cons, rfl⟩
        · rw [SequenceNumber32.plus_lt_plus (by omega) (by omega)]
          omega

/-! ## The loop that advances the expected number -/

theorem advance_append (hfront : ∀ x ∈ front, x.first < c) (hc : c < 2 ^ 31) (avail : UInt32)
    (data : List RxEntry) :
    advance (s.plus c) avail (front.map (entry s) ++ data) = advance (s.plus c) avail data := by
  induction front with
  | nil => rfl
  | cons x rest ih =>
      have hx := hfront x List.mem_cons_self
      rw [List.map_cons, List.cons_append, entry, advance, if_pos]
      · exact ih fun y hy => hfront y (List.mem_cons_of_mem _ hy)
      · exact (SequenceNumber32.plus_lt_plus (by omega) hc).mpr hx

/-- The loop takes the pieces that follow `c` without a gap. -/
theorem advance_spec {avail : UInt32} (hlaid : Laid hi c xs) (hhi : hi < 2 ^ 31) (hc : c ≤ hi)
    (hn : n ≤ c) (havail : avail.toNat = c - n) :
    ∃ c' avail' taken rest, advance (s.plus c) avail (xs.map (entry s)) = (s.plus c', avail') ∧
      xs = taken ++ rest ∧ Tiles c' c taken ∧ Laid hi (c' + 1) rest ∧ c' ≤ hi ∧
      avail'.toNat = c' - n := by
  induction xs generalizing c avail with
  | nil => exact ⟨c, avail, [], [], rfl, rfl, rfl, trivial, hc, havail⟩
  | cons x rest ih =>
      obtain ⟨hfirst, hfull, hstop, hrest⟩ := hlaid
      rw [List.map_cons, entry, advance, plus_getSize (by omega), if_neg]
      · by_cases hgap : c < x.first
        · rw [if_pos ((SequenceNumber32.plus_lt_plus (by omega) (by omega)).mpr hgap)]
          exact ⟨c, avail, [], x :: rest, rfl, rfl, rfl, ⟨hgap, hfull, hstop, hrest⟩, hc, havail⟩
        · have hx := toNat_getSize (x := x) (by omega)
          have hlength : x.stop = x.first + x.bytes.length := rfl
          have hgrown : (avail + x.bytes.getSize).toNat = x.stop - n := by
            rw [UInt32.toNat_add, havail, hx]
            omega
          obtain ⟨c', avail', taken, left, hadvance, hsplit, htaken, hleft, hresult⟩ :=
            ih hrest hstop (by omega) hgrown
          rw [if_neg]
          · exact ⟨c', avail', x :: taken, left, hadvance, congrArg _ hsplit,
              ⟨by omega, hfull, htaken⟩, hleft, hresult⟩
          · rw [SequenceNumber32.plus_lt_plus (by omega) (by omega)]
            exact hgap
      · rw [SequenceNumber32.plus_lt_plus (by omega) (by omega)]
        omega

/-! ## The loop that extracts bytes -/

theorem insert_of_le (hlaid : Laid hi lo xs) (hhi : hi < 2 ^ 31) (hz : z.first < lo) :
    insert (s.plus z.first) z.bytes (xs.map (entry s)) = (z :: xs).map (entry s) := by
  cases xs with
  | nil => rfl
  | cons x rest =>
      obtain ⟨hfirst, hfull, hstop, -⟩ := hlaid
      rw [List.map_cons, entry, insert, if_neg, if_pos]
      · rfl
      · exact (SequenceNumber32.plus_lt_plus (by omega) (by omega)).mpr (by omega)
      · rw [SequenceNumber32.plus_lt_plus (by omega) (by omega)]
        omega

theorem erase_cons (hlaid : Laid hi (n + 1) xs) (hhi : hi < 2 ^ 31) (hn : n < 2 ^ 31)
    (p : Payload) :
    erase (s.plus n) ((s.plus n, p) :: xs.map (entry s)) = xs.map (entry s) := by
  unfold erase
  rw [List.filter_cons_of_neg (by simp), List.filter_eq_self]
  intro e he
  obtain ⟨x, hx, rfl⟩ := List.mem_map.mp he
  obtain ⟨hfirst, hfull, hstop⟩ := hlaid.of_mem hx
  apply decide_eq_true
  change s.plus x.first ≠ s.plus n
  rw [Ne, SequenceNumber32.plus_inj (by omega) (by omega)]
  omega

/-- A piece of which some bytes remain is replaced by these. -/
theorem extractLoop_split {e : UInt32} (hlaid : Laid hi z.stop xs) (hhi : hi < 2 ^ 31)
    (hz : z.stop ≤ hi) (hm : z.first ≤ m) (hlt : m < 2 ^ 31) (hpos : e ≠ 0)
    (hshort : e.toNat < z.bytes.length) :
    extractLoop (s.plus m) e ((z :: xs).map (entry s)) =
      some (z.bytes.take e.toNat,
        (⟨z.first + e.toNat, z.bytes.drop e.toNat⟩ :: xs).map (entry s)) := by
  have hsize := toNat_getSize (x := z) (by omega)
  have hlength : z.stop = z.first + z.bytes.length := rfl
  have hpos' : e.toNat ≠ 0 := fun h => hpos (UInt32.toNat_inj.mp h)
  have hleft : (z.bytes.getSize - e).toNat = z.bytes.length - e.toNat := by
    rw [UInt32.toNat_sub_of_le, hsize]
    rw [UInt32.le_iff_toNat_le, hsize]
    omega
  have htaken : z.bytes.createFragment 0 e = some (z.bytes.take e.toNat) := by
    rw [Payload.createFragment_eq (by omega) (by rw [UInt32.toNat_zero]; omega),
      UInt32.toNat_zero, List.drop_zero]
  have hremains : z.bytes.createFragment e (z.bytes.getSize - e) =
      some (z.bytes.drop e.toNat) := by
    rw [Payload.createFragment_eq (by omega) (by omega), hleft, List.take_of_length_le]
    rw [List.length_drop]
  obtain ⟨y, hy⟩ : ∃ y : Piece, y = ⟨z.first + e.toNat, z.bytes.drop e.toNat⟩ := ⟨_, rfl⟩
  have hyfirst : y.first = z.first + e.toNat := congrArg first hy
  have hystop : y.stop = z.stop := by
    rw [hy]
    change z.first + e.toNat + (z.bytes.drop e.toNat).length = z.stop
    rw [List.length_drop]
    omega
  have hinsert : insert (s.plus z.first + e) (z.bytes.drop e.toNat)
      ((s.plus z.first, z.bytes) :: xs.map (entry s)) =
        (s.plus z.first, z.bytes) :: (y :: xs).map (entry s) := by
    rw [insert, SequenceNumber32.plus_add,
      if_pos ((SequenceNumber32.plus_lt_plus (by omega) (by omega)).mpr (by omega)),
      ← insert_of_le hlaid hhi (by omega), hy]
  have hbehind : Laid hi (z.first + 1) (y :: xs) :=
    ⟨by omega, by omega, by omega, by rwa [hystop]⟩
  rw [List.map_cons, entry, extractLoop, if_neg hpos,
    if_pos ((SequenceNumber32.plus_le_plus (by omega) hlt).mpr hm),
    if_neg (by rw [UInt32.le_iff_toNat_le, hsize]; omega), htaken, Option.bind_some, hremains,
    Option.map_some, hinsert, erase_cons hbehind hhi (by omega), hy]

/-- The loop takes the first bytes of the covered range. A piece of which some bytes remain is
replaced by these. -/
theorem extractLoop_spec {e : UInt32} (hfront : Tiles c n front)
    (hback : Laid hi c back) (hc : c ≤ hi) (hhi : hi < 2 ^ 31) (hm : c ≤ m) (hlt : m < 2 ^ 31)
    (he : n + e.toNat ≤ c) :
    ∃ bytes rest, extractLoop (s.plus m) e ((front ++ back).map (entry s)) =
        some (bytes, (rest ++ back).map (entry s)) ∧
      Tiles c (n + e.toNat) rest ∧
      front.flatMap (·.bytes) = bytes ++ rest.flatMap (·.bytes) ∧
      bytes.length = e.toNat ∧
      ∀ y ∈ rest, ∃ x ∈ front, ∃ k, y = ⟨x.first + k, x.bytes.drop k⟩ := by
  have hkept : ∀ front : List Piece,
      ∀ y ∈ front, ∃ x ∈ front, ∃ k, y = ⟨x.first + k, x.bytes.drop k⟩ :=
    fun front y hy => ⟨y, hy, 0, rfl⟩
  induction front generalizing n e with
  | nil =>
      obtain rfl : n = c := hfront
      obtain rfl : e = 0 := UInt32.toNat_inj.mp (by rw [UInt32.toNat_zero]; omega)
      refine ⟨[], [], ?_, rfl, rfl, rfl, hkept []⟩
      cases back with
      | nil => rfl
      | cons x rest => rfl
  | cons x rest ih =>
      obtain ⟨hfirst, hfull, hrest⟩ := hfront
      have hle := hrest.le
      have hx := toNat_getSize (x := x) (by omega)
      have hlength : x.stop = x.first + x.bytes.length := rfl
      by_cases hzero : e = 0
      · subst hzero
        exact ⟨[], x :: rest, rfl, ⟨hfirst, hfull, hrest⟩, rfl, rfl, hkept _⟩
      rw [List.cons_append]
      by_cases hwhole : x.bytes.getSize ≤ e
      · have hsmaller : (e - x.bytes.getSize).toNat = e.toNat - x.bytes.length := by
          rw [UInt32.toNat_sub_of_le _ _ hwhole, hx]
        rw [List.map_cons, entry, extractLoop, if_neg hzero,
          if_pos ((SequenceNumber32.plus_le_plus (by omega) hlt).mpr (by omega)), if_pos hwhole]
        rw [UInt32.le_iff_toNat_le, hx] at hwhole
        obtain ⟨bytes, left, hloop, htiles, hbytes, hsize, hcut⟩ :=
          ih (e := e - x.bytes.getSize) hrest (by omega)
        rw [hloop]
        refine ⟨x.bytes ++ bytes, left, rfl, ?_, ?_, ?_, ?_⟩
        · rw [hsmaller] at htiles
          have hsum : x.stop + (e.toNat - x.bytes.length) = n + e.toNat := by omega
          rwa [hsum] at htiles
        · rw [List.flatMap_cons, hbytes, List.append_assoc]
        · rw [List.length_append, hsize, hsmaller]
          omega
        · intro y hy
          obtain ⟨z, hz, hcut⟩ := hcut y hy
          exact ⟨z, List.mem_cons_of_mem _ hz, hcut⟩
      · rw [UInt32.le_iff_toNat_le, hx, not_le] at hwhole
        have hleft : (x.bytes.drop e.toNat).length = x.bytes.length - e.toNat := List.length_drop
        refine ⟨x.bytes.take e.toNat, ⟨x.first + e.toNat, x.bytes.drop e.toNat⟩ :: rest,
          extractLoop_split (hrest.laid_append hback hc) hhi (by omega) (by omega) hlt hzero hwhole,
          ⟨?_, ?_, ?_⟩, ?_, ?_, ?_⟩
        · rw [hfirst]
        · change x.first + e.toNat < x.first + e.toNat + (x.bytes.drop e.toNat).length
          omega
        · have hstop : (⟨x.first + e.toNat, x.bytes.drop e.toNat⟩ : Piece).stop = x.stop := by
            change x.first + e.toNat + (x.bytes.drop e.toNat).length = x.stop
            omega
          rwa [hstop]
        · rw [List.flatMap_cons, List.flatMap_cons, ← List.append_assoc, List.take_append_drop]
        · rw [List.length_take]
          omega
        · intro y hy
          rcases List.mem_cons.mp hy with rfl | hy
          · exact ⟨x, List.mem_cons_self, e.toNat, rfl⟩
          · exact ⟨y, List.mem_cons_of_mem _ hy, 0, rfl⟩

end TcpRxBuffer

end Ns3Rdma
