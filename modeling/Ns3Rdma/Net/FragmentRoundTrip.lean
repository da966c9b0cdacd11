import Mathlib.Logic.Relation
import Ns3Rdma.Net.Ipv4Reassembly

/-!
# Fragmentation and reassembly are inverse

The fragments of an unfragmented datagram give it back in any order. A fragment may be cut
again on its way, as long as it is not the last one behind the first byte: of that one the
offset is lost.
-/

namespace Ns3Rdma.Ipv4

theorem fragmentSize_aligned {outIfaceMtu : UInt32} (hmtu : 28 ≤ outIfaceMtu.toNat) :
    (fragmentSize outIfaceMtu).toNat % 8 = 0 ∧ 0 < (fragmentSize outIfaceMtu).toNat := by
  rw [fragmentSize_toNat hmtu]
  omega

theorem fragmentation_originalOffset_aligned {packet : Ipv4Packet} (outIfaceMtu : UInt32)
    (haligned : packet.header.moreFragments = true → packet.start % 8 = 0) :
    (fragmentation packet outIfaceMtu).originalOffset.toNat % 8 = 0 := by
  unfold fragmentation
  dsimp only
  split
  next => rfl
  next hflag => exact haligned (by simpa [Ipv4Header.isLastFragment] using hflag)

/-- The key does not depend on the fragment fields. -/
theorem Cut.key {f : Fragmentation} {offset : Nat} {rest : List UInt8}
    {fragments : List Ipv4Packet} (h : Cut f offset rest fragments) {x : Ipv4Packet}
    (hx : x ∈ fragments) : x.header.key = f.ipv4Header.key := by
  rw [h.header hx]
  rfl

/-- The fragments of an unfragmented datagram are whole. -/
theorem Cut.whole {packet : Ipv4Packet} {outIfaceMtu : UInt32} {fragments : List Ipv4Packet}
    (h : Cut (fragmentation packet outIfaceMtu) 0 packet.payload fragments)
    (hlength : packet.payload.length ≤ 65515) (hmtu : 28 ≤ outIfaceMtu.toNat)
    (hlast : packet.header.isLastFragment = true) : Whole packet.payload fragments := by
  have hpos := (fragmentSize_aligned hmtu).2
  have hflag : packet.header.moreFragments = false := by
    simpa [Ipv4Header.isLastFragment] using hlast
  have hfirst : (fragmentation packet outIfaceMtu).originalOffset.toNat = 0 := by
    simp [fragmentation, hlast]
  have hfit := Nat.div_mul_le_self (packet.payload.length - 1) (fragmentSize outIfaceMtu).toNat
  have hbound : (packet.payload.length - 1) / (fragmentSize outIfaceMtu).toNat *
      (fragmentSize outIfaceMtu).toNat < 2 ^ 16 := by omega
  have htiles := h.tiles hpos (by rwa [hfirst, Nat.add_zero, Nat.zero_add])
  rw [hfirst, Nat.add_zero, Nat.zero_add] at htiles
  refine ⟨htiles, h.bytes, ?_, ?_, fun x hx y hy => (h.key hx).trans (h.key hy).symm⟩
  · simpa [fragmentation, Ipv4Header.isLastFragment, hflag] using h.flags
  · intro x hx
    refine (h.nonempty hpos hx).imp_right fun hempty => ?_
    rw [hempty] at h
    obtain ⟨y, rfl⟩ := h.eq_singleton
    rw [List.mem_singleton.mp hx]

/-- What one `DoFragmentation` call makes of an unfragmented packet is assembled to its
payload when the last missing fragment arrives, in whatever order and however often the
fragments arrive, and nothing is assembled before. -/
theorem reassembly_undoes_fragmentation {packet : Ipv4Packet} {outIfaceMtu : UInt32}
    {m : Queues} (hlength : packet.payload.length ≤ 65515) (hmtu : 28 ≤ outIfaceMtu.toNat)
    (hlast : packet.header.isLastFragment = true) (hm : m packet.header.key = none) :
    ∃ fragments, doFragmentation packet outIfaceMtu = some fragments ∧
      Reassembles m fragments packet.payload := by
  obtain ⟨fragments, hcall, hcut⟩ := doFragmentation_cut hlength hmtu
    fun hmore => by simp [Ipv4Header.isLastFragment, hmore] at hlast
  refine ⟨fragments, hcall, ?_⟩
  refine (hcut.whole hlength hmtu hlast).reassembles (Nat.lt_of_le_of_lt hlength (by decide)) ?_
  intro g hg
  rw [hcut.key hg]
  exact hm

/-- A header without options from 10.0.0.1 to 10.0.0.2. -/
def sampleHeader (moreFragments : Bool) (fragmentOffset : UInt16) : Ipv4Header where
  source := 0x0a000001
  destination := 0x0a000002
  identification := 7
  protocol := 17
  dontFragment := false
  moreFragments := moreFragments
  fragmentOffset := fragmentOffset
  payloadSize := 0

theorem reassembly_undoes_fragmentation_twenty :
    ∃ fragments, doFragmentation ⟨sampleHeader false 0, List.range 20 |>.map UInt8.ofNat⟩ 28 =
        some fragments ∧
      Reassembles (fun _ => none) fragments (List.range 20 |>.map UInt8.ofNat) :=
  reassembly_undoes_fragmentation (by decide) (by decide) rfl rfl

/-- A packet with more-fragments set is no datagram of its own: its fragments never
complete. -/
theorem openFragment_incomplete :
    ¬ ∀ (packet : Ipv4Packet) (outIfaceMtu : UInt32) (m : Queues),
      packet.payload.length ≤ 65515 → 28 ≤ outIfaceMtu.toNat → m packet.header.key = none →
        ∃ fragments, doFragmentation packet outIfaceMtu = some fragments ∧
          Reassembles m fragments packet.payload := by
  intro hall
  obtain ⟨fragments, hcall, hre⟩ := hall ⟨sampleHeader true 0, [1]⟩ 28 (fun _ => none)
    (by decide) (by decide) rfl
  have hfragments : doFragmentation ⟨sampleHeader true 0, [1]⟩ 28 =
      some [⟨{ sampleHeader true 0 with payloadSize := 1 }, [1]⟩] := by decide
  obtain rfl := Option.some.inj (hfragments.symm.trans hcall)
  have hresult := hre [] ⟨{ sampleHeader true 0 with payloadSize := 1 }, [1]⟩ (by simp) (by simp)
  simp only [List.nil_append, List.Subset.refl, if_true] at hresult
  exact absurd hresult (by decide)

/-! ## Several routers -/

/-- One router cuts one of the packets of a datagram for its link. -/
def Router (before after : List Ipv4Packet) : Prop :=
  ∃ left packet right outIfaceMtu pieces, before = left ++ packet :: right ∧
    28 ≤ outIfaceMtu.toNat ∧ Fragmentable packet outIfaceMtu ∧
    doFragmentation packet outIfaceMtu = some pieces ∧ after = left ++ (pieces ++ right)

/-- A whole datagram of fragments that may be cut again. -/
structure Travelling (data : List UInt8) (key : Key) (fragments : List Ipv4Packet) : Prop where
  whole : Whole data fragments
  aligned : ∀ x ∈ fragments, x.start % 8 = 0
  key : ∀ x ∈ fragments, x.header.key = key

theorem Travelling.router {data : List UInt8} {key : Key} {before after : List Ipv4Packet}
    (h : Travelling data key before) (hdata : data.length ≤ 65515) (hstep : Router before after) :
    Travelling data key after := by
  obtain ⟨left, packet, right, outIfaceMtu, pieces, rfl, hmtu, hcond, hcall, rfl⟩ := hstep
  have hpacket : packet ∈ left ++ packet :: right := by simp
  have hlength : packet.payload.length ≤ 65515 := by
    have hstop := (h.whole.tiles.mem hpacket).2.2
    rw [Ipv4Packet.stop] at hstop
    omega
  obtain ⟨pieces', hcall', hcut⟩ := doFragmentation_cut hlength hmtu
    fun _ => h.aligned packet hpacket
  obtain rfl := Option.some.inj (hcall.symm.trans hcall')
  have hsound := (hcut.sound_iff hmtu).mpr hcond
  obtain ⟨hsize, hpos⟩ := fragmentSize_aligned hmtu
  have hpieceKey : ∀ x ∈ pieces, x.header.key = key :=
    fun x hx => (hcut.key hx).trans (h.key packet hpacket)
  have hkey : ∀ x ∈ left ++ (pieces ++ right), x.header.key = key := by
    intro x hx
    rcases List.mem_append.mp hx with hx | hx
    · exact h.key x (List.mem_append_left _ hx)
    · rcases List.mem_append.mp hx with hx | hx
      · exact hpieceKey x hx
      · exact h.key x (by simp [hx])
  refine ⟨⟨h.whole.tiles.replace hsound.tiles, ?_, ?_, ?_, ?_⟩, ?_, hkey⟩
  · have hbytes := h.whole.bytes
    rw [List.flatMap_append, List.flatMap_cons] at hbytes
    rw [List.flatMap_append, List.flatMap_append, hsound.bytes]
    exact hbytes
  · -- the final fragment is the last one behind the cut, or the last piece
    obtain ⟨init, final, hsplit, hinit, hfinal⟩ := h.whole.flags
    obtain ⟨pinit, pfinal, rfl, hpinit, hpfinal⟩ := hsound.flags
    rcases List.eq_nil_or_concat right with rfl | ⟨right, last, rfl⟩
    · obtain ⟨rfl, hlast⟩ := List.append_inj' hsplit rfl
      obtain rfl : packet = final := by simpa using hlast
      refine ⟨left ++ pinit, pfinal, by simp, ?_, hpfinal.trans hfinal⟩
      intro x hx
      rcases List.mem_append.mp hx with hx | hx
      · exact hinit x hx
      · exact hpinit x hx
    · have hsplit' : (left ++ packet :: right) ++ [last] = init ++ [final] := by
        rw [← hsplit]
        simp
      obtain ⟨rfl, hlast⟩ := List.append_inj' hsplit' rfl
      obtain rfl : last = final := by simpa using hlast
      have hpacketFlag := hinit packet (by simp)
      refine ⟨left ++ ((pinit ++ [pfinal]) ++ right), last, by simp, ?_, hfinal⟩
      intro x hx
      simp only [List.mem_append, List.mem_singleton] at hx
      rcases hx with hx | ⟨hx | rfl⟩ | hx
      · exact hinit x (by simp [hx])
      · exact hpinit x hx
      · exact hpfinal.trans hpacketFlag
      · exact hinit x (by simp [hx])
  · intro x hx
    rcases h.whole.nonempty packet hpacket with hne | hone
    · simp only [List.mem_append] at hx
      have hother {y : Ipv4Packet} (hy : y ∈ left ++ packet :: right) (hyp : y ∈ left ∨ y ∈ right) :
          y.payload ≠ [] := by
        refine (h.whole.nonempty y hy).resolve_right fun hsingle => ?_
        rw [List.append_eq_singleton_iff] at hsingle
        rcases hsingle with ⟨rfl, hright⟩ | ⟨-, hnil⟩
        · obtain ⟨-, rfl⟩ := List.cons.inj hright
          simp at hyp
        · cases hnil
      rcases hx with hx | hx | hx
      · exact Or.inl (hother (by simp [hx]) (Or.inl hx))
      · exact Or.inl ((hcut.nonempty hpos hx).resolve_right hne)
      · exact Or.inl (hother (by simp [hx]) (Or.inr hx))
    · rw [List.append_eq_singleton_iff] at hone
      obtain ⟨rfl, hright⟩ : left = [] ∧ right = [] := by simpa using hone
      subst hright
      simp only [List.nil_append, List.append_nil] at hx ⊢
      refine (hcut.nonempty hpos hx).imp_right fun hempty => ?_
      rw [hempty] at hcut
      obtain ⟨y, rfl⟩ := hcut.eq_singleton
      rw [List.mem_singleton.mp hx]
  · exact fun x hx y hy => (hkey x hx).trans (hkey y hy).symm
  · intro x hx
    rcases List.mem_append.mp hx with hx | hx
    · exact h.aligned x (List.mem_append_left _ hx)
    · rcases List.mem_append.mp hx with hx | hx
      · exact hcut.aligned hsize (fragmentation_originalOffset_aligned outIfaceMtu
          fun _ => h.aligned packet hpacket) (by rfl) hx
      · exact h.aligned x (by simp [hx])

/-- `DoFragmentation` partitions the range of its input exactly if the input is no last
fragment behind the first byte and the offsets fit. Hence, cut by any number of routers
under this condition, a datagram is reassembled from its fragments in any order. -/
theorem refragmentation_sound (packet : Ipv4Packet) (hlength : packet.payload.length ≤ 65515)
    (haligned : packet.start % 8 = 0) :
    (∀ outIfaceMtu : UInt32, 28 ≤ outIfaceMtu.toNat →
      ∃ fragments, doFragmentation packet outIfaceMtu = some fragments ∧
        (Sound packet fragments ↔ Fragmentable packet outIfaceMtu)) ∧
    (packet.header.moreFragments = false → packet.start = 0 →
      ∀ (fragments : List Ipv4Packet) (m : Queues), m packet.header.key = none →
        Relation.ReflTransGen Router [packet] fragments →
          Reassembles m fragments packet.payload) := by
  constructor
  · intro outIfaceMtu hmtu
    obtain ⟨fragments, hcall, hcut⟩ := doFragmentation_cut hlength hmtu fun _ => haligned
    exact ⟨fragments, hcall, hcut.sound_iff hmtu⟩
  · intro hflag hstart fragments m hm hroute
    have hwhole : Travelling packet.payload packet.header.key [packet] := by
      have hstop : packet.stop = packet.payload.length := by rw [Ipv4Packet.stop, hstart]; omega
      refine ⟨⟨⟨hstart, Nat.zero_le _, hstop⟩, by simp, ⟨[], packet, rfl, by simp, hflag⟩, ?_, ?_⟩,
        ?_, ?_⟩
      · intro x hx
        exact Or.inr (by rw [List.mem_singleton.mp hx])
      · intro x hx y hy
        rw [List.mem_singleton.mp hx, List.mem_singleton.mp hy]
      · intro x hx
        rw [List.mem_singleton.mp hx, hstart]
      · intro x hx
        rw [List.mem_singleton.mp hx]
    have htravel : Travelling packet.payload packet.header.key fragments := by
      induction hroute with
      | refl => exact hwhole
      | tail _ hstep ih => exact ih.router hlength hstep
    refine htravel.whole.reassembles (Nat.lt_of_le_of_lt hlength (by decide)) fun g hg => ?_
    rw [htravel.key g hg]
    exact hm

/-- A fragment of a datagram with the sample header. -/
def samplePart (moreFragments : Bool) (fragmentOffset : UInt16) (payload : List UInt8) :
    Ipv4Packet where
  header := { sampleHeader moreFragments fragmentOffset with
    payloadSize := payload.length.toUInt16 }
  payload := payload

/-- A fragment from the middle of a datagram, and a datagram of 20 bytes that one router cuts into 16
and 4 bytes and the next one into 8, 8 and 4. -/
theorem refragmentation_sound_twoRouters :
    (∃ fragments, doFragmentation ⟨sampleHeader true 8, List.replicate 16 5⟩ 28 = some fragments ∧
      (Sound ⟨sampleHeader true 8, List.replicate 16 5⟩ fragments ↔
        Fragmentable ⟨sampleHeader true 8, List.replicate 16 5⟩ 28)) ∧
    Reassembles (fun _ => none)
      [samplePart true 0 (List.replicate 8 1), samplePart true 8 (List.replicate 8 2),
        samplePart false 16 (List.replicate 4 3)]
      (List.replicate 8 1 ++ List.replicate 8 2 ++ List.replicate 4 3) := by
  refine ⟨(refragmentation_sound ⟨sampleHeader true 8, List.replicate 16 5⟩ (by decide)
    (by decide)).1 28 (by decide), ?_⟩
  have hfirst : Router
      [⟨sampleHeader false 0, List.replicate 8 1 ++ List.replicate 8 2 ++ List.replicate 4 3⟩]
      [samplePart true 0 (List.replicate 8 1 ++ List.replicate 8 2),
        samplePart false 16 (List.replicate 4 3)] :=
    ⟨[], _, [], 36, _, rfl, by decide, ⟨Or.inr rfl, by decide⟩, by rfl, rfl⟩
  have hsecond : Router
      [samplePart true 0 (List.replicate 8 1 ++ List.replicate 8 2),
        samplePart false 16 (List.replicate 4 3)]
      [samplePart true 0 (List.replicate 8 1), samplePart true 8 (List.replicate 8 2),
        samplePart false 16 (List.replicate 4 3)] :=
    ⟨[], _, [samplePart false 16 (List.replicate 4 3)], 28, _, rfl, by decide,
      ⟨Or.inl rfl, by decide⟩, by rfl, rfl⟩
  exact (refragmentation_sound
    ⟨sampleHeader false 0, List.replicate 8 1 ++ List.replicate 8 2 ++ List.replicate 4 3⟩
    (by decide) (by decide)).2 rfl rfl _ _ rfl ((Relation.ReflTransGen.single hfirst).tail hsecond)

/-- The last fragment of a datagram, of 16 bytes at offset 8, cut for an MTU of 28. -/
theorem lastFragment_offset_lost :
    ¬ ∀ (packet : Ipv4Packet) (outIfaceMtu : UInt32), packet.payload.length ≤ 65515 →
      28 ≤ outIfaceMtu.toNat → packet.start % 8 = 0 →
        ∃ fragments, doFragmentation packet outIfaceMtu = some fragments ∧
          Sound packet fragments := by
  intro hall
  obtain ⟨fragments, hcall, hsound⟩ := hall ⟨sampleHeader false 8, List.replicate 16 5⟩ 28
    (by decide) (by decide) (by decide)
  have hfragments : doFragmentation ⟨sampleHeader false 8, List.replicate 16 5⟩ 28 =
      some [⟨{ sampleHeader true 0 with payloadSize := 8 }, List.replicate 8 5⟩,
        ⟨{ sampleHeader false 8 with payloadSize := 8 }, List.replicate 8 5⟩] := by decide
  obtain rfl := Option.some.inj (hfragments.symm.trans hcall)
  exact absurd hsound.tiles.1 (by decide)

end Ns3Rdma.Ipv4
