import Ns3Rdma.Tcp.Pieces

/-! # What a receive buffer stores

The stored pieces in order: some without a gap up to the expected number, and the others behind a
gap. Each operation is described by what it does to them. -/

namespace Ns3Rdma

namespace TcpRxBuffer

open Piece

/-- The buffer stores pieces of a range that ends at `hi`: `front` from `n` to `c` without a gap,
and `back` behind one. -/
structure Arranged (s : SequenceNumber32) (hi : ℕ) (b : TcpRxBuffer) (n c : ℕ)
    (front back : List Piece) : Prop where
  data_eq : b.data = (front ++ back).map (entry s)
  front_tiles : Tiles c n front
  back_laid : Laid hi (c + 1) back
  le_hi : c ≤ hi
  size_eq : b.size.toNat = occupied (front ++ back)
  avail_eq : b.availBytes.toNat = c - n
  fin_eq : b.gotFin = true → b.finSeq = s.plus hi
  next_eq : b.nextRxSeq = s.plus (if b.gotFin = true ∧ c = hi then c + 1 else c)

/-- The byte is in order, or it is stored behind a gap. -/
def Stored (c : ℕ) (back : List Piece) (k : ℕ) : Prop := k < c ∨ Covers back k

variable {s seq : SequenceNumber32} {p : Payload} {b : TcpRxBuffer}
  {front back rest : List Piece} {hi n c : ℕ}

namespace Arranged

theorem laid (hb : Arranged s hi b n c front back) : Laid hi n (front ++ back) :=
  hb.front_tiles.laid_append (hb.back_laid.mono (Nat.le_succ c) le_rfl) hb.le_hi

theorem front_lt (hb : Arranged s hi b n c front back) : ∀ x ∈ front, x.first < c := by
  intro x hx
  have hinside := hb.front_tiles.of_mem hx
  omega

theorem stored_of_covers {k : ℕ} (hb : Arranged s hi b n c front back)
    (hk : k < c ∨ Covers (front ++ back) k) : Stored c back k := by
  rcases hk with hk | hk
  · exact Or.inl hk
  · rcases covers_append.mp hk with ⟨x, hx, hlow, hhigh⟩ | hback
    · have hinside := hb.front_tiles.of_mem hx
      exact Or.inl (by omega)
    · exact Or.inr hback

theorem covers_of_stored {k : ℕ} (hb : Arranged s hi b n c front back) (hk : Stored c back k) :
    k < n ∨ Covers (front ++ back) k := by
  rcases hk with hk | hk
  · rcases Nat.lt_or_ge k n with hlt | hge
    · exact Or.inl hlt
    · exact Or.inr (covers_append.mpr (Or.inl (hb.front_tiles.covers hge hk)))
  · exact Or.inr (covers_append.mpr (Or.inr hk))

/-- The expected number, as an offset in the stream. -/
theorem exists_next (hb : Arranged s hi b n c front back) :
    ∃ d, b.nextRxSeq = s.plus d ∧ c ≤ d ∧ d ≤ hi + 1 := by
  have hc := hb.le_hi
  refine ⟨_, hb.next_eq, ?_, ?_⟩
  · split <;> omega
  · split <;> omega

/-- When the expected number does not count the FIN. -/
theorem next_of_lt (hb : Arranged s hi b n c front back) (hc : c < hi) :
    b.nextRxSeq = s.plus c := by
  rw [hb.next_eq, if_neg fun h => hc.ne h.2]

/-- The byte behind those in order is missing. -/
theorem not_stored (hb : Arranged s hi b n c front back) : ¬ Stored c back c := by
  rintro (hlt | ⟨x, hx, hfirst, -⟩)
  · exact lt_irrefl c hlt
  · have hinside := hb.back_laid.of_mem hx
    omega

/-- A piece that lies apart from the stored ones is stored, and the expected number moves behind
what is now in order. -/
theorem store_spec {z : Piece} {size : UInt32} (hb : Arranged s hi b n c front back)
    (hhi : hi + 1 < 2 ^ 31) (hrest : Laid hi (c + 1) rest)
    (hsize : size.toNat = occupied (front ++ rest)) (hlow : c ≤ z.first)
    (hfull : z.first < z.stop) (hstop : z.stop ≤ hi)
    (hapart : ∀ y ∈ rest, y.stop ≤ z.first ∨ z.stop ≤ y.first) {data : List RxEntry}
    {next : SequenceNumber32 × UInt32}
    (hdata : data = insert (s.plus z.first) z.bytes ((front ++ rest).map (entry s)))
    (hnext : next = advance b.nextRxSeq b.availBytes data) :
    ∃ c' front' back', Arranged s hi
        { b with
          data := data
          size := size + z.bytes.getSize
          availBytes := next.2
          nextRxSeq := if b.gotFin = true ∧ next.1 = b.finSeq then next.1 + (1 : UInt32)
            else next.1 } n c' front' back' ∧ c ≤ c' ∧
      ∀ y, y ∈ front' ++ back' ↔ y = z ∨ y ∈ front ++ rest := by
  obtain ⟨ys, hinsert, hys, hmem, hsum⟩ := insert_spec (hrest.mono (Nat.le_succ c) le_rfl)
    (by omega) hlow hfull hstop hapart (s := s)
  obtain ⟨c', avail', taken, left, hadvance, rfl, htaken, hleft, hc', havail⟩ :=
    advance_spec hys (by omega) hb.le_hi hb.front_tiles.le hb.avail_eq (s := s)
  have hdata' : data = (front ++ (taken ++ left)).map (entry s) := by
    rw [hdata, List.map_append,
      insert_append (fun x hx => (hb.front_lt x hx).trans_le hlow) (by omega), hinsert,
      ← List.map_append]
  have hnext' : next = (s.plus c', avail') := by
    rw [hnext, hb.next_of_lt (by omega), hdata', List.map_append,
      advance_append hb.front_lt (by omega), hadvance]
  have htiles := hb.front_tiles.append htaken
  refine ⟨c', front ++ taken, left, ⟨?_, htiles, hleft, hc', ?_, ?_, hb.fin_eq, ?_⟩, htaken.le, ?_⟩
  · rw [List.append_assoc]
    exact hdata'
  · have hall := (htiles.laid_append (hleft.mono (Nat.le_succ c') le_rfl) hc').occupied_le
      (htiles.le.trans hc')
    rw [List.append_assoc, occupied_append, hsum] at hall ⊢
    rw [occupied_append] at hsize
    rw [UInt32.toNat_add, toNat_getSize (by omega), hsize]
    omega
  · rw [hnext']
    exact havail
  · rw [hnext']
    dsimp only
    by_cases hfin : b.gotFin = true
    · have hend : s.plus c' = b.finSeq ↔ c' = hi := by
        rw [hb.fin_eq hfin, SequenceNumber32.plus_inj (by omega) (by omega)]
      by_cases hlast : c' = hi
      · rw [if_pos ⟨hfin, hend.mpr hlast⟩, if_pos ⟨hfin, hlast⟩, SequenceNumber32.plus_add]
        rfl
      · rw [if_neg fun h => hlast (hend.mp h.2), if_neg fun h => hlast h.2]
    · rw [if_neg fun h => hfin h.1, if_neg fun h => hfin h.1]
  · intro y
    rw [List.append_assoc, List.mem_append, hmem, List.mem_append]
    exact or_left_comm

/-- A segment of which nothing is in the window changes nothing. -/
theorem add_of_empty (hb : Arranged s hi b n c front back) (hhi : hi + 1 < 2 ^ 31)
    (hwindow : (b.window seq (seq + p.getSize)).1 = (b.window seq (seq + p.getSize)).2 ∨
      (b.data = [] ∧
        (b.window seq (seq + p.getSize)).2 ≤ (b.window seq (seq + p.getSize)).1)) :
    b.add p seq = some (b, false) := by
  obtain ⟨bounds, hbounds⟩ : ∃ bounds, bounds = b.window seq (seq + p.getSize) := ⟨_, rfl⟩
  rw [← hbounds] at hwindow
  have hnothing : (trim bounds.1 bounds.2 b.size b.data).data = b.data →
      (trim bounds.1 bounds.2 b.size b.data).size = b.size →
      (trim bounds.1 bounds.2 b.size b.data).tailSeq ≤
        (trim bounds.1 bounds.2 b.size b.data).headSeq →
      b.add p seq = some (b, false) := by
    intro hdata hsize hle
    unfold add
    rw [← hbounds]
    dsimp only
    rw [if_pos hle, hdata, hsize]
  rcases hwindow with heq | ⟨hdata, hle⟩
  · obtain ⟨hdata, hsize, hle⟩ := trim_empty (s := s) hb.laid (by omega) bounds.2 b.size
    rw [← hb.data_eq] at hdata hsize hle
    rw [heq] at hnothing
    exact hnothing hdata hsize hle
  · rw [hdata] at hnothing
    exact hnothing rfl rfl hle

/-- Of a segment between two offsets `Add` keeps at most the part from `h'` to `t'`, which is the
fragment of the packet there. Every byte of the segment is stored then. -/
theorem add_of_window {h t : ℕ} (hb : Arranged s hi b n c front back) (hhi : hi + 1 < 2 ^ 31)
    (hwindow : b.window seq (seq + p.getSize) = (s.plus h, s.plus t)) (hlow : c ≤ h) (hht : h < t)
    (ht : t ≤ hi) :
    ∃ rest, Prunes h back rest ∧
      ((∃ b', b.add p seq = some (b', false) ∧ Arranged s hi b' n c front rest ∧
          (b'.maxBuffer = b.maxBuffer ∧ b'.gotFin = b.gotFin) ∧
          ∀ k, (h ≤ k ∧ k < t) ∨ Covers (front ++ back) k → Covers (front ++ rest) k) ∨
        ∃ h' t' start length, start = (s.plus h' - seq).toUInt32 ∧ length.toNat = t' - h' ∧
          h ≤ h' ∧ h' < t' ∧ t' ≤ t ∧
          (∀ q, p.createFragment start length = some q → q.length = t' - h' →
            ∃ b' c' front' back', b.add p seq = some (b', true) ∧
              Arranged s hi b' n c' front' back' ∧
              (b'.maxBuffer = b.maxBuffer ∧ b'.gotFin = b.gotFin) ∧ c ≤ c' ∧
              (∀ k, (h ≤ k ∧ k < t) ∨ Covers (front ++ back) k → Covers (front' ++ back') k) ∧
              ∀ y ∈ front' ++ back', y = ⟨h', q⟩ ∨ y ∈ front ++ rest) ∧
          ∀ r, b.add p seq = some r → ∃ q, p.createFragment start length = some q ∧
            q.length = t' - h') := by
  obtain ⟨ys, h', t', size', htrim, ⟨hprunes, hh', ht', hcover, hapart⟩, hsize, hle'⟩ :=
    trim_spec (m := 0) (s := s) hb.laid (by omega) ht (Or.inl hht) (by omega)
      (by rw [hb.size_eq, zero_add])
  obtain ⟨rest, rfl, hrest⟩ := hprunes.keeps_front fun x hx => by
    have hinside := hb.front_lt x hx
    omega
  have hlaid := hrest.laid hb.back_laid
  rw [zero_add] at hsize
  refine ⟨rest, hrest, ?_⟩
  unfold add
  rw [hwindow, hb.data_eq]
  dsimp only
  rw [htrim]
  dsimp only
  by_cases hempty : t' ≤ h'
  · rw [if_pos ((SequenceNumber32.plus_le_plus (by omega) (by omega)).mpr hempty)]
    exact Or.inl ⟨_, rfl, ⟨rfl, hb.front_tiles, hlaid, hb.le_hi, hsize, hb.avail_eq, hb.fin_eq,
      hb.next_eq⟩, ⟨rfl, rfl⟩, fun k hk => (hcover k hk).resolve_left fun hinside => by omega⟩
  rw [if_neg (by rw [SequenceNumber32.plus_le_plus (by omega) (by omega)]; exact hempty)]
  have hlength : (s.plus t' - s.plus h').toUInt32.toNat = t' - h' :=
    SequenceNumber32.toNat_sub_plus (by omega) (by omega)
  have hfresh : s.plus h' ∉ ((front ++ rest).map (entry s)).map Prod.fst := by
    intro hmem
    obtain ⟨e, he, hkey⟩ := List.mem_map.mp hmem
    obtain ⟨y, hy, rfl⟩ := List.mem_map.mp he
    obtain ⟨hlow, hfull, hhigh⟩ := hb.laid.of_mem (hprunes.mem hy)
    have hsame := (SequenceNumber32.plus_inj (by omega) (by omega)).mp hkey
    have happ := hapart y hy
    omega
  refine Or.inr ⟨h', t', _, _, rfl, hlength, hh', not_le.mp hempty, ht', ?_, ?_⟩
  · intro q hfragment hq
    have hstop : (⟨h', q⟩ : Piece).stop = t' := by
      change h' + q.length = t'
      omega
    have hsizes : (s.plus t' - s.plus h').toUInt32 = q.getSize := by
      apply UInt32.toNat_inj.mp
      rw [hlength, Payload.toNat_getSize (by omega), hq]
    obtain ⟨c', front', back', harranged, hgrows, hmem⟩ := hb.store_spec hhi hlaid hsize (z := ⟨h', q⟩)
      (hlow.trans hh') (hstop ▸ not_le.mp hempty) (by omega)
      (fun y hy => by
        have happ := hapart y (List.mem_append_right _ hy)
        rwa [hstop]) rfl rfl
    rw [hfragment, Option.bind_some, if_pos ⟨hsizes, hfresh⟩]
    refine ⟨_, c', front', back', rfl, harranged, ⟨rfl, rfl⟩, hgrows, fun k hk => ?_,
      fun y => (hmem y).mp⟩
    rw [Covers.of_mem_iff hmem, hstop]
    exact hcover k hk
  · intro r hr
    obtain ⟨q, hfragment, hstore⟩ := Option.bind_eq_some_iff.mp hr
    refine ⟨q, hfragment, ?_⟩
    have hshort : q.length ≤ t' - h' := hlength ▸ Payload.length_le_of_createFragment hfragment
    have hsizes : (s.plus t' - s.plus h').toUInt32 = q.getSize := by
      by_contra hne
      rw [if_neg fun h => hne h.1] at hstore
      cases hstore
    have hqSize := Payload.toNat_getSize (p := q) (by omega)
    rw [← hlength, hsizes]
    exact hqSize.symm

/-- The extracted bytes are the first ones of those without a gap. -/
theorem extract_spec (hb : Arranged s hi b n c front back) (hhi : hi + 1 < 2 ^ 31)
    (maxSize : UInt32) :
    ∃ b' bytes front', b.extract maxSize = some (b', bytes) ∧
      Arranged s hi b' (n + bytes.length) c front' back ∧
      (b'.maxBuffer = b.maxBuffer ∧ b'.gotFin = b.gotFin) ∧
      front.flatMap (·.bytes) = bytes ++ front'.flatMap (·.bytes) ∧
      ∀ y ∈ front', ∃ x ∈ front, ∃ k, y = ⟨x.first + k, x.bytes.drop k⟩ := by
  have hc := hb.le_hi
  have hle := hb.front_tiles.le
  obtain ⟨d, hnext, hcd, hd⟩ := hb.exists_next
  obtain ⟨e, he⟩ : ∃ e, e = min maxSize b.availBytes := ⟨_, rfl⟩
  have havail : e ≤ b.availBytes := by
    rw [he, UInt32.le_iff_toNat_le, UInt32.toNat_min]
    exact min_le_right _ _
  have havail' := hb.avail_eq
  have hsize := hb.size_eq
  have hsum := hb.front_tiles.occupied_eq
  rw [occupied_append] at hsize
  have hnat : e.toNat ≤ c - n := by
    rw [← havail']
    exact UInt32.le_iff_toNat_le.mp havail
  obtain ⟨bytes, rest, hloop, htiles, hsplit, hlength, hcut⟩ :=
    extractLoop_spec (s := s) hb.front_tiles (hb.back_laid.mono (Nat.le_succ c) le_rfl) hc
      (by omega) hcd (by omega) (show n + e.toNat ≤ c by omega)
  have hleft := htiles.occupied_eq
  refine ⟨{ b with
      data := (rest ++ back).map (entry s)
      size := b.size - e
      availBytes := b.availBytes - e }, bytes, rest, ?_, ?_, ⟨rfl, rfl⟩, hsplit, hcut⟩
  · unfold extract
    rw [← he, hnext, hb.data_eq]
    exact Option.map_eq_some_iff.mpr ⟨_, hloop, rfl⟩
  · rw [hlength]
    refine ⟨rfl, htiles, hb.back_laid, hc, ?_, ?_, hb.fin_eq, hb.next_eq⟩
    · rw [occupied_append, UInt32.toNat_sub_of_le, hsize]
      · omega
      · rw [UInt32.le_iff_toNat_le, hsize]
        omega
    · rw [UInt32.toNat_sub_of_le _ _ havail]
      omega

/-- Without a FIN, the offsets may be counted from the first byte that is not extracted. -/
theorem rebase {hi' : ℕ} (hb : Arranged s hi b n c front back) (hfin : b.gotFin = false)
    (hhi : hi ≤ n + hi') :
    Arranged (s.plus n) hi' b 0 (c - n) (front.map (shift n)) (back.map (shift n)) := by
  have hle := hb.front_tiles.le
  have hc := hb.le_hi
  have hnext := hb.next_eq
  rw [hfin, if_neg fun h => Bool.false_ne_true h.1] at hnext
  refine ⟨?_, ?_, ?_, by omega, ?_, ?_, fun h => absurd (hfin.symm.trans h) Bool.false_ne_true, ?_⟩
  · rw [hb.data_eq, ← List.map_append, List.map_map]
    apply List.map_congr_left
    intro x hx
    exact entry_shift (hb.laid.of_mem hx).1
  · have htiles := hb.front_tiles.shift n le_rfl
    rwa [Nat.sub_self] at htiles
  · have hlaid := hb.back_laid.shift (n := n) (by omega)
    rw [show c + 1 - n = c - n + 1 by omega] at hlaid
    exact hlaid.mono le_rfl (by omega)
  · rw [hb.size_eq, ← List.map_append, occupied_shift]
  · rw [hb.avail_eq, Nat.sub_zero]
  · rw [hfin, if_neg fun h => Bool.false_ne_true h.1, hnext, SequenceNumber32.plus_plus]
    congr 1
    omega

end Arranged

end TcpRxBuffer

end Ns3Rdma
