import Ns3Rdma.Tcp.Arrangement

/-! # Reassembly of a byte stream

Segments of one stream arrive in any order, and the application extracts what is there. -/

namespace Ns3Rdma

namespace TcpRxBuffer

open Piece

/-- The buffer stores pieces of the stream: `front` from `n` to `c` without a gap, and `back`
behind one. -/
structure Holds (s : SequenceNumber32) (stream : Payload) (b : TcpRxBuffer) (n c : ℕ)
    (front back : List Piece) : Prop where
  arranged : Arranged s stream.length b n c front back
  cut : ∀ x ∈ front ++ back, x.bytes <+: stream.drop x.first

/-- The segment lies before the expected number. Yet the window seems to end before the segment
does, and after the expected number. -/
def Misjudges (b : TcpRxBuffer) (p : Payload) (seq : SequenceNumber32) : Prop :=
  ∃ e ∈ b.data.head?, seq + p.getSize < b.nextRxSeq ∧ e.1 + b.maxBuffer < seq + p.getSize ∧
    b.nextRxSeq < e.1 + b.maxBuffer

/-- The segment ends in the window, if some bytes are stored. -/
def Fits (b : TcpRxBuffer) (p : Payload) (seq : SequenceNumber32) : Prop :=
  ∀ e ∈ b.data.head?, ¬ e.1 + b.maxBuffer < seq + p.getSize

variable {s seq : SequenceNumber32} {stream p : Payload} {b : TcpRxBuffer}
  {front back : List Piece} {n c a m k : ℕ}

theorem Fits.not_misjudges (hfits : b.Fits p seq) : ¬ b.Misjudges p seq := by
  rintro ⟨e, he, -, hbehind, -⟩
  exact hfits e he hbehind

namespace Holds

/-- Of a segment that fits, all that lies behind the expected number is in its bounds. -/
theorem window_of_fits (hstream : stream.length + 1 < 2 ^ 31) {d : ℕ}
    (hnext : b.nextRxSeq = s.plus d) (ha : max a d < a + p.length)
    (hend : a + p.length ≤ stream.length) (hfits : b.Fits p (s.plus a)) :
    b.window (s.plus a) (s.plus (a + p.length)) = (s.plus (max a d), s.plus (a + p.length)) := by
  have hhead : (if s.plus a < b.nextRxSeq then b.nextRxSeq else s.plus a) = s.plus (max a d) := by
    rw [hnext]
    exact SequenceNumber32.ite_plus_lt (by omega) (by omega)
  have htail : s.plus a + p.getSize = s.plus (a + p.length) :=
    plus_getSize (x := ⟨a, p⟩) (show a + p.length < 2 ^ 31 by omega)
  have hbehind : ¬ s.plus (a + p.length) < s.plus (max a d) := by
    rw [SequenceNumber32.plus_lt_plus (by omega) (by omega)]
    omega
  unfold window
  rw [hhead]
  rcases hdata : b.data with _ | ⟨⟨first, q⟩, rest⟩
  · rfl
  · have hmax := hfits (first, q) (by rw [hdata]; rfl)
    rw [htail] at hmax
    dsimp only
    rw [if_neg hmax, if_neg hbehind]

/-- The bounds of a segment are empty, or they enclose a part of it that is not in order yet. -/
theorem window_spec (hb : Holds s stream b n c front back) (hstream : stream.length + 1 < 2 ^ 31)
    (ha : a + p.length ≤ stream.length) (hjudge : ¬ b.Misjudges p (s.plus a)) :
    (b.window (s.plus a) (s.plus (a + p.length))).1 =
        (b.window (s.plus a) (s.plus (a + p.length))).2 ∨
      (b.data = [] ∧ (b.window (s.plus a) (s.plus (a + p.length))).2 ≤
        (b.window (s.plus a) (s.plus (a + p.length))).1) ∨
      ∃ h t, b.window (s.plus a) (s.plus (a + p.length)) = (s.plus h, s.plus t) ∧
        a ≤ h ∧ c ≤ h ∧ h < t ∧ t ≤ a + p.length := by
  obtain ⟨d, hnext, hcd, hd⟩ := hb.arranged.exists_next
  have hhead : (if s.plus a < b.nextRxSeq then b.nextRxSeq else s.plus a) = s.plus (max a d) := by
    rw [hnext]
    exact SequenceNumber32.ite_plus_lt (by omega) (by omega)
  have htail : s.plus a + p.getSize = s.plus (a + p.length) :=
    plus_getSize (x := ⟨a, p⟩) (show a + p.length < 2 ^ 31 by omega)
  unfold window
  rw [hhead]
  rcases hdata : b.data with _ | ⟨⟨first, q⟩, rest⟩
  · by_cases hlt : max a d < a + p.length
    · exact Or.inr (Or.inr ⟨_, _, rfl, le_max_left a d, hcd.trans (le_max_right a d), hlt, le_rfl⟩)
    · refine Or.inr (Or.inl ⟨rfl, ?_⟩)
      exact (SequenceNumber32.plus_le_plus (by omega) (by omega)).mpr (not_lt.mp hlt)
  · dsimp only
    by_cases hmax : first + b.maxBuffer < s.plus (a + p.length)
    · rw [if_pos hmax]
      by_cases hbefore : first + b.maxBuffer < s.plus (max a d)
      · rw [if_pos hbefore]
        exact Or.inl rfl
      rw [if_neg hbefore]
      rcases SequenceNumber32.lt_or_eq_of_not_lt hbefore with hlt | heq
      · by_cases hle : max a d ≤ a + p.length
        · obtain ⟨k, hk, hlow, hhigh⟩ :=
            SequenceNumber32.exists_plus_of_between hle (by omega) hlt hmax
          rw [hk]
          exact Or.inr (Or.inr ⟨_, k, rfl, le_max_left a d, hcd.trans (le_max_right a d), hlow,
            hhigh.le⟩)
        · have hd' : max a d = d := max_eq_right (by omega)
          rw [hd', ← hnext] at hlt
          refine absurd ⟨(first, q), by rw [hdata]; rfl, ?_, ?_, hlt⟩ hjudge
          · rw [htail, hnext, SequenceNumber32.plus_lt_plus (by omega) (by omega)]
            omega
          · rwa [htail]
      · exact Or.inl heq
    · rw [if_neg hmax]
      by_cases hbefore : s.plus (a + p.length) < s.plus (max a d)
      · rw [if_pos hbefore]
        exact Or.inl rfl
      rw [if_neg hbefore]
      rw [SequenceNumber32.plus_lt_plus (by omega) (by omega)] at hbefore
      rcases (not_lt.mp hbefore).lt_or_eq with hlt | heq
      · exact Or.inr (Or.inr ⟨_, _, rfl, le_max_left a d, hcd.trans (le_max_right a d), hlt,
          le_rfl⟩)
      · exact Or.inl (congrArg s.plus heq)

/-- A segment of the stream is accepted, and the buffer still holds pieces of the stream. All of a
segment that fits is stored, and nothing but the segment is new. -/
theorem add_spec (hb : Holds s stream b n c front back) (hstream : stream.length + 1 < 2 ^ 31)
    (ha : a + p.length ≤ stream.length) (hp : p <+: stream.drop a)
    (hjudge : ¬ b.Misjudges p (s.plus a)) :
    ∃ b' added c' front' back', b.add p (s.plus a) = some (b', added) ∧
      Holds s stream b' n c' front' back' ∧ b'.gotFin = b.gotFin ∧ c ≤ c' ∧
      (added = false → c' = c) ∧ (∀ k, Stored c back k → Stored c' back' k) ∧
      (b.Fits p (s.plus a) → ∀ k, a ≤ k → k < a + p.length → Stored c' back' k) ∧
      ∀ k, Stored c' back' k → Stored c back k ∨ (a ≤ k ∧ k < a + p.length) := by
  obtain ⟨d, hnext, hcd, hd⟩ := hb.arranged.exists_next
  have hold : ∀ c', c ≤ c' → ∀ back' k, k < d → k < stream.length → Stored c' back' k := by
    intro c' hc' back' k hk hlt
    have hcle := hb.arranged.le_hi
    rw [hb.arranged.next_eq] at hnext
    rw [SequenceNumber32.plus_inj (by split <;> omega) (by omega)] at hnext
    left
    split at hnext <;> omega
  have htail : s.plus a + p.getSize = s.plus (a + p.length) :=
    plus_getSize (x := ⟨a, p⟩) (show a + p.length < 2 ^ 31 by omega)
  have hwindow := hb.window_spec hstream ha hjudge
  rw [← htail] at hwindow
  have hbounds : b.Fits p (s.plus a) → max a d < a + p.length →
      b.window (s.plus a) (s.plus a + p.getSize) = (s.plus (max a d), s.plus (a + p.length)) := by
    intro hfits hlt
    rw [htail]
    exact window_of_fits hstream hnext hlt ha hfits
  rcases hwindow with hempty | hempty | ⟨h, t, hpair, hah, hch, hht, hta⟩
  · refine ⟨b, false, c, front, back, hb.arranged.add_of_empty hstream (Or.inl hempty), hb, rfl,
      le_rfl, fun _ => rfl, fun k hk => hk, fun hfits k hak hka => ?_, fun k => Or.inl⟩
    refine hold c le_rfl back k ?_ (by omega)
    by_contra hnot
    rw [hbounds hfits (by omega), SequenceNumber32.plus_inj (by omega) (by omega)] at hempty
    omega
  · refine ⟨b, false, c, front, back, hb.arranged.add_of_empty hstream (Or.inr hempty), hb, rfl,
      le_rfl, fun _ => rfl, fun k hk => hk, fun hfits k hak hka => ?_, fun k => Or.inl⟩
    refine hold c le_rfl back k ?_ (by omega)
    by_contra hnot
    rw [hbounds hfits (by omega), SequenceNumber32.plus_le_plus (by omega) (by omega)] at hempty
    omega
  have hcovers : b.Fits p (s.plus a) → ∀ k, a ≤ k → k < a + p.length →
      k < d ∨ (h ≤ k ∧ k < t) := by
    intro hfits k hak hka
    by_cases hk : k < d
    · exact Or.inl hk
    · right
      obtain ⟨hh, ht⟩ := Prod.mk.inj (hpair.symm.trans (hbounds hfits (by omega)))
      rw [SequenceNumber32.plus_inj (by omega) (by omega)] at hh ht
      omega
  obtain ⟨rest, hrest, hresult⟩ :=
    hb.arranged.add_of_window hstream hpair hch hht (hta.trans ha)
  have hkept : ∀ k, Covers (front ++ rest) k → Stored c back k := by
    rintro k ⟨x, hx, hinside⟩
    refine hb.arranged.stored_of_covers (Or.inr ⟨x, ?_, hinside⟩)
    exact (List.mem_append.mp hx).elim (List.mem_append_left _)
      fun hx => List.mem_append_right _ (hrest.mem hx)
  have hcut : ∀ x ∈ front ++ rest, x.bytes <+: stream.drop x.first := by
    intro x hx
    apply hb.cut
    rcases List.mem_append.mp hx with hx | hx
    · exact List.mem_append_left _ hx
    · exact List.mem_append_right _ (hrest.mem hx)
  rcases hresult with ⟨b', hadd, hb', ⟨-, hfin⟩, hcover⟩ |
    ⟨h', t', start, length, hstart, hlength, hh', hlt, ht', hstore, -⟩
  · refine ⟨b', false, c, front, rest, hadd, ⟨hb', hcut⟩, hfin, le_rfl, fun _ => rfl,
      fun k hk => ?_, fun hfits k hak hka => ?_, fun k hk => Or.inl (hk.elim Or.inl fun hk =>
      hkept k (covers_append.mpr (Or.inr hk)))⟩
    · exact hb'.stored_of_covers (hk.imp_right fun hk => hcover k (Or.inr (covers_append.mpr
        (Or.inr hk))))
    · rcases hcovers hfits k hak hka with hk | hk
      · exact hold c le_rfl rest k hk (by omega)
      · exact hb'.stored_of_covers (Or.inr (hcover k (Or.inl hk)))
  · have hstartNat : start.toNat = h' - a := by
      rw [hstart]
      exact SequenceNumber32.toNat_sub_plus (by omega) (by omega)
    have hfragment : p.createFragment start length =
        some ((p.drop (h' - a)).take (t' - h')) := by
      rw [Payload.createFragment_eq (by omega) (by omega), hstartNat, hlength]
    have hsize : ((p.drop (h' - a)).take (t' - h')).length = t' - h' := by
      rw [List.length_take, List.length_drop]
      omega
    obtain ⟨b', c', front', back', hadd, hb', ⟨-, hfin⟩, hgrows, hcover, hmem⟩ :=
      hstore _ hfragment hsize
    refine ⟨b', true, c', front', back', hadd, ⟨hb', fun y hy => ?_⟩, hfin, hgrows,
      fun hfalse => Bool.noConfusion hfalse, fun k hk => ?_, fun hfits k hak hka => ?_,
      fun k hk => ?_⟩
    · rcases hmem y hy with rfl | hy
      · have hdrop := hp.drop (h' - a)
        rw [List.drop_drop, show a + (h' - a) = h' by omega] at hdrop
        exact (List.take_prefix _ _).trans hdrop
      · exact hcut y hy
    · rcases hk with hk | hk
      · exact Or.inl (by omega)
      · exact hb'.stored_of_covers (Or.inr (hcover k (Or.inr (covers_append.mpr (Or.inr hk)))))
    · rcases hcovers hfits k hak hka with hk | hk
      · exact hold c' hgrows back' k hk (by omega)
      · exact hb'.stored_of_covers (Or.inr (hcover k (Or.inl hk)))
    · rcases hb'.covers_of_stored hk with hlow | ⟨y, hy, hinside⟩
      · exact Or.inl (Or.inl (hlow.trans_le hb.arranged.front_tiles.le))
      · rcases hmem y hy with rfl | hy
        · have hstop : h' + ((p.drop (h' - a)).take (t' - h')).length ≤ t' := by omega
          exact Or.inr ⟨hah.trans (hh'.trans hinside.1), hinside.2.trans_le (hstop.trans (by omega))⟩
        · exact Or.inl (hkept k ⟨y, hy, hinside⟩)

theorem setFinSequence (hb : Holds s stream b n c front back)
    (hstream : stream.length + 1 < 2 ^ 31) :
    Holds s stream (b.setFinSequence (s.plus stream.length)) n c front back := by
  obtain ⟨⟨hdata, hfront, hback, hc, hsize, havail, -, hnext⟩, hcut⟩ := hb
  refine ⟨⟨hdata, hfront, hback, hc, hsize, havail, fun _ => rfl, ?_⟩, hcut⟩
  unfold TcpRxBuffer.setFinSequence
  dsimp only
  simp only [true_and]
  by_cases hend : c = stream.length
  · rw [if_pos hend]
    by_cases hfin : b.gotFin = true
    · rw [if_pos ⟨hfin, hend⟩] at hnext
      rw [hnext, if_neg]
      rw [SequenceNumber32.plus_inj (by omega) (by omega)]
      omega
    · rw [if_neg fun h => hfin h.1] at hnext
      rw [hnext, hend, if_pos rfl, SequenceNumber32.plus_add]
      rfl
  · rw [if_neg fun h => hend h.2] at hnext
    rw [hnext, if_neg hend, if_neg]
    rwa [SequenceNumber32.plus_inj (by omega) (by omega)]

/-- The pieces without a gap are the bytes of the stream from `n`. -/
theorem flatMap_prefix {front : List Piece} {n : ℕ} (htiles : Tiles c n front)
    (hcut : ∀ x ∈ front, x.bytes <+: stream.drop x.first) :
    front.flatMap (·.bytes) <+: stream.drop n := by
  induction front generalizing n with
  | nil => exact List.nil_prefix
  | cons x rest ih =>
      obtain ⟨rfl, hfull, hrest⟩ := htiles
      obtain ⟨behind, hx⟩ := hcut x List.mem_cons_self
      have htail := ih hrest fun y hy => hcut y (List.mem_cons_of_mem _ hy)
      have hbehind : stream.drop x.stop = behind := by
        unfold stop
        rw [← List.drop_drop, ← hx, List.drop_left]
      rw [List.flatMap_cons, ← hx]
      rw [hbehind] at htail
      exact (List.prefix_append_right_inj _).mpr htail

/-- The extracted bytes are the next ones of the stream. -/
theorem extract_spec (hb : Holds s stream b n c front back) (hstream : stream.length + 1 < 2 ^ 31)
    (maxSize : UInt32) :
    ∃ b' bytes front', b.extract maxSize = some (b', bytes) ∧
      bytes <+: stream.drop n ∧ Holds s stream b' (n + bytes.length) c front' back ∧
      b'.gotFin = b.gotFin := by
  obtain ⟨b', bytes, rest, hextract, hb', ⟨-, hfin⟩, hsplit, hcut⟩ :=
    hb.arranged.extract_spec hstream maxSize
  have hall := flatMap_prefix hb.arranged.front_tiles fun x hx =>
    hb.cut x (List.mem_append_left _ hx)
  rw [hsplit] at hall
  refine ⟨b', bytes, rest, hextract, (List.prefix_append _ _).trans hall, ⟨hb', fun y hy => ?_⟩,
    hfin⟩
  rcases List.mem_append.mp hy with hy | hy
  · obtain ⟨x, hx, k, rfl⟩ := hcut y hy
    have hdrop := (hb.cut x (List.mem_append_left _ hx)).drop k
    rwa [List.drop_drop] at hdrop
  · exact hb.cut y (List.mem_append_right _ hy)

/-- A buffer that is small against the rest of the stream misjudges no segment. -/
theorem not_misjudges (hb : Holds s stream b n c front back)
    (hmax : b.maxBuffer.toNat + stream.length + 1 < 2 ^ 31) (ha : a + p.length ≤ stream.length) :
    ¬ b.Misjudges p (s.plus a) := by
  rintro ⟨e, he, htail, hmaxSeq, hnext⟩
  obtain ⟨d, hd, hcd, hle⟩ := hb.arranged.exists_next
  have hmem := List.mem_of_mem_head? he
  rw [hb.arranged.data_eq] at hmem
  obtain ⟨x, hx, rfl⟩ := List.mem_map.mp hmem
  have hinside := hb.arranged.laid.of_mem hx
  have htail' : s.plus a + p.getSize = s.plus (a + p.length) :=
    plus_getSize (x := ⟨a, p⟩) (show a + p.length < 2 ^ 31 by omega)
  have hkey : (entry s x).1 + b.maxBuffer = s.plus (x.first + b.maxBuffer.toNat) :=
    SequenceNumber32.plus_add s x.first b.maxBuffer
  rw [htail', hd, SequenceNumber32.plus_lt_plus (by omega) (by omega)] at htail
  rw [hkey, htail', SequenceNumber32.plus_lt_plus (by omega) (by omega)] at hmaxSeq
  rw [hkey, hd, SequenceNumber32.plus_lt_plus (by omega) (by omega)] at hnext
  omega

end Holds

end TcpRxBuffer

/-! ## Runs -/

/-- A receive buffer and the bytes that the application has extracted from it. -/
structure RxStream where
  buffer : TcpRxBuffer
  delivered : Payload

namespace RxStream

open Piece TcpRxBuffer StepSystem

inductive Event
  | add (p : Payload) (seq : SequenceNumber32)
  | setFinSequence (s : SequenceNumber32)
  | extract (maxSize : UInt32)

def init (next : SequenceNumber32) (maxBuffer : UInt32) : RxStream :=
  ⟨TcpRxBuffer.init next maxBuffer, []⟩

def step (st : RxStream) : Event → Option RxStream
  | .add p seq => (st.buffer.add p seq).map fun r => { st with buffer := r.1 }
  | .setFinSequence s => some { st with buffer := st.buffer.setFinSequence s }
  | .extract maxSize => (st.buffer.extract maxSize).map fun r => ⟨r.1, st.delivered ++ r.2⟩

/-- The segments are cut from the stream, which starts at `s`, and the FIN is at its end. -/
def Event.CutFrom (s : SequenceNumber32) (stream : Payload) : Event → Prop
  | .add p seq => ∃ a, seq = s.plus a ∧ a + p.length ≤ stream.length ∧ p <+: stream.drop a
  | .setFinSequence fin => fin = s.plus stream.length
  | .extract _ => True

def Misjudges (st : RxStream) : Event → Prop
  | .add p seq => st.buffer.Misjudges p seq
  | _ => False

/-- The delivered bytes are those of the stream from `first`, and the buffer holds what follows. -/
def Reassembles (s : SequenceNumber32) (stream : Payload) (first : ℕ) (st : RxStream) : Prop :=
  st.delivered <+: stream.drop first ∧
    ∃ c front back, st.buffer.Holds s stream (first + st.delivered.length) c front back

variable {s : SequenceNumber32} {stream : Payload} {first : ℕ} {st : RxStream}

theorem reassembles_init (s : SequenceNumber32) (maxBuffer : UInt32)
    (hfirst : first ≤ stream.length) :
    (init (s.plus first) maxBuffer).Reassembles s stream first := by
  refine ⟨List.nil_prefix, first, [], [], ⟨rfl, rfl, trivial, hfirst, rfl, ?_, ?_, rfl⟩, ?_⟩
  · exact (Nat.sub_self first).symm
  · intro hfin
    cases hfin
  · intro x hx
    cases hx

/-- Every event of the stream is executed, unless it is misjudged. -/
theorem step_spec (hst : st.Reassembles s stream first) (hstream : stream.length + 1 < 2 ^ 31)
    {e : Event} (hcut : e.CutFrom s stream) (hjudge : ¬ st.Misjudges e) :
    ∃ st', step st e = some st' ∧ st'.Reassembles s stream first := by
  obtain ⟨hdelivered, c, front, back, hb⟩ := hst
  cases e with
  | add p seq =>
      obtain ⟨a, rfl, ha, hp⟩ := hcut
      obtain ⟨b', added, c', front', back', hadd, hb', -⟩ := hb.add_spec hstream ha hp hjudge
      exact ⟨{ st with buffer := b' }, Option.map_eq_some_iff.mpr ⟨_, hadd, rfl⟩, hdelivered, c',
        front', back', hb'⟩
  | setFinSequence fin =>
      obtain rfl : fin = s.plus stream.length := hcut
      exact ⟨_, rfl, hdelivered, c, front, back, hb.setFinSequence hstream⟩
  | extract maxSize =>
      obtain ⟨b', bytes, front', hextract, hbytes, hb', -⟩ := hb.extract_spec hstream maxSize
      refine ⟨⟨b', st.delivered ++ bytes⟩, Option.map_eq_some_iff.mpr ⟨_, hextract, rfl⟩, ?_, c,
        front', back, ?_⟩
      · obtain ⟨behind, hbehind⟩ := hdelivered
        rw [← List.drop_drop, ← hbehind, List.drop_left] at hbytes
        rw [← hbehind]
        exact (List.prefix_append_right_inj _).mpr hbytes
      · change Holds s stream b' (first + (st.delivered ++ bytes).length) c front' back
        rw [List.length_append, ← add_assoc]
        exact hb'

/-- In a run whose segments are not misjudged the stream is delivered in order, and no segment of
the stream makes an assertion fail. -/
theorem stream_reassembled (s : SequenceNumber32) (maxBuffer : UInt32)
    (hstream : stream.length + 1 < 2 ^ 31) (hfirst : first ≤ stream.length) {events : List Event}
    (hcut : ∀ e ∈ events, e.CutFrom s stream)
    (hjudge : EachStep step (fun st e _ => ¬ st.Misjudges e)
      (init (s.plus first) maxBuffer) events) :
    Throughout step (fun st => st.Reassembles s stream first ∧
        ∀ e : Event, e.CutFrom s stream → ¬ st.Misjudges e → (step st e).isSome)
      (init (s.plus first) maxBuffer) events := by
  have hmeet : EachStep step
      (fun st e _ => e.CutFrom s stream ∧ ¬ st.Misjudges e) (init (s.plus first) maxBuffer)
      events := by
    intro done e rest st st' heq hrun hstep
    exact ⟨hcut e (by rw [heq]; simp), hjudge done e rest st st' heq hrun hstep⟩
  have hall : Throughout step (Reassembles s stream first)
      (init (s.plus first) maxBuffer) events := by
    refine throughout_of_eachStep ?_ (reassembles_init s maxBuffer hfirst) hmeet
    intro st e st' hst hstep hmeets
    obtain ⟨next, hnext, hkeeps⟩ := step_spec hst hstream hmeets.1 hmeets.2
    obtain rfl := Option.some.inj (hnext.symm.trans hstep)
    exact hkeeps
  refine hall.mono fun st hst => ⟨hst, fun e hcutE hjudgeE => ?_⟩
  obtain ⟨next, hnext, -⟩ := step_spec hst hstream hcutE hjudgeE
  rw [hnext]
  rfl

/-- Two segments that overlap, the second one first. -/
def overlapping : List Event :=
  [.add [3, 4, 5] ⟨1⟩, .add [1, 2, 3, 4] ⟨4294967295⟩, .setFinSequence ⟨4⟩, .extract 9]

theorem stream_reassembled_overlapping :
    Throughout step (fun st => st.Reassembles ⟨4294967295⟩ [1, 2, 3, 4, 5] 0 ∧
        ∀ e : Event, e.CutFrom ⟨4294967295⟩ [1, 2, 3, 4, 5] → ¬ st.Misjudges e →
          (step st e).isSome) (init (SequenceNumber32.plus ⟨4294967295⟩ 0) 100) overlapping := by
  refine stream_reassembled ⟨4294967295⟩ 100 (by decide) (by decide) ?_ ?_
  · intro e he
    simp only [overlapping, List.mem_cons, List.not_mem_nil, or_false] at he
    rcases he with rfl | rfl | rfl | rfl
    · exact ⟨2, by decide, by decide, by decide⟩
    · exact ⟨0, by decide, by decide, by decide⟩
    · exact (by decide : (⟨4⟩ : SequenceNumber32) = SequenceNumber32.plus ⟨4294967295⟩ 5)
    · trivial
  · refine eachStep_cons.mpr fun s₁ h₁ => ⟨?_, ?_⟩
    · rintro ⟨e, he, -⟩
      cases he
    obtain rfl := Option.some.inj h₁
    refine eachStep_cons.mpr fun s₂ h₂ => ⟨?_, ?_⟩
    · rintro ⟨e, he, hbefore, -⟩
      exact absurd hbefore (by decide)
    obtain rfl := Option.some.inj h₂
    refine eachStep_cons.mpr fun s₃ h₃ => ⟨not_false, ?_⟩
    obtain rfl := Option.some.inj h₃
    exact eachStep_cons.mpr fun s₄ h₄ => ⟨not_false, eachStep_nil _⟩

/-- Eight bytes arrive, seven are extracted, and then the first byte arrives again. -/
def staleSegment : List Event :=
  [.add [1, 2, 3, 4, 5, 6, 7, 8] ⟨0⟩, .extract 7]

/-- The window of a buffer of 2^31 - 1 bytes seems to end before the duplicate, which then fails an
assertion of `Add`. -/
theorem staleSegment_fails :
    Event.CutFrom ⟨0⟩ [1, 2, 3, 4, 5, 6, 7, 8] (.add [1] ⟨0⟩) ∧
      ¬ Throughout step (fun st => st.Reassembles ⟨0⟩ [1, 2, 3, 4, 5, 6, 7, 8] 0 ∧
        ∀ e : Event, e.CutFrom ⟨0⟩ [1, 2, 3, 4, 5, 6, 7, 8] → (step st e).isSome)
        (init ⟨0⟩ 2147483647) staleSegment := by
  have hcut : Event.CutFrom ⟨0⟩ [1, 2, 3, 4, 5, 6, 7, 8] (.add [1] ⟨0⟩) :=
    ⟨0, by decide, by decide, by decide⟩
  refine ⟨hcut, fun h => ?_⟩
  have hlast := (h staleSegment [] _ rfl rfl).2 _ hcut
  exact absurd hlast (by decide)

end RxStream

end Ns3Rdma
