import Ns3Rdma.Net.Ipv4Fragmentation

/-!
# Fragments and the MTU

The step of the loop of `DoFragmentation` is an unsigned difference, rounded down to a multiple
of eight, and its offset has 16 bits. The loop ends if some multiple of the step comes close
enough to the end of the payload, and what it cuts is never longer than the step.
-/

namespace Ns3Rdma.Ipv4

/-- Some offset that the loop reaches is at most one step from the end. -/
def OffsetReaches (fragmentSize length : ℕ) (offset : ℕ) : Prop :=
  ∃ k, length ≤ ((offset + k * fragmentSize) % 2 ^ 16 + fragmentSize) % 2 ^ 32

/-- A payload that 16 bits can measure is always reached. -/
theorem offsetReaches_of_length {fragmentSize length : ℕ} (hpos : 0 < fragmentSize)
    (hsize : fragmentSize < 2 ^ 32) (hlength : length < 2 ^ 16) :
    OffsetReaches fragmentSize length 0 := by
  have hdiv := Nat.div_mul_le_self (length - 1) fragmentSize
  have hnext : length - 1 < (length - 1) / fragmentSize * fragmentSize + fragmentSize := by
    have hmod := Nat.mod_lt (length - 1) hpos
    have hsplit := Nat.div_add_mod' (length - 1) fragmentSize
    omega
  refine ⟨(length - 1) / fragmentSize, ?_⟩
  rw [Nat.zero_add, Nat.mod_eq_of_lt (hdiv.trans_lt (by omega))]
  rcases Nat.eq_zero_or_pos ((length - 1) / fragmentSize) with hzero | hk
  · rw [hzero, Nat.zero_mul, Nat.zero_add] at hnext ⊢
    rw [Nat.mod_eq_of_lt hsize]
    omega
  · have hstep : fragmentSize ≤ length - 1 := (Nat.le_mul_of_pos_left _ hk).trans hdiv
    rw [Nat.mod_eq_of_lt (by omega)]
    omega

theorem offsetReaches_succ {fragmentSize length offset : ℕ} :
    OffsetReaches fragmentSize length offset ↔
      length ≤ (offset % 2 ^ 16 + fragmentSize) % 2 ^ 32 ∨
        OffsetReaches fragmentSize length ((offset + fragmentSize) % 2 ^ 16) := by
  have hshift : ∀ k, ((offset + fragmentSize) % 2 ^ 16 + k * fragmentSize) % 2 ^ 16 =
      (offset + (k + 1) * fragmentSize) % 2 ^ 16 := by
    intro k
    rw [Nat.mod_add_mod, Nat.succ_mul, Nat.add_assoc, Nat.add_comm fragmentSize]
  constructor
  · rintro ⟨k, hk⟩
    cases k with
    | zero => exact Or.inl (by simpa using hk)
    | succ k => exact Or.inr ⟨k, by rwa [hshift]⟩
  · rintro (hnow | ⟨k, hk⟩)
    · exact ⟨0, by simpa using hnow⟩
    · exact ⟨k + 1, by rwa [hshift] at hk⟩

/-- At an aligned offset the header takes the new offset. -/
theorem fragment_payload (f : Fragmentation) {offset : ℕ} (size : ℕ) (moreFragment : Bool)
    (hoffset : offset % 8 = 0) (horiginal : f.originalOffset.toNat % 8 = 0) :
    ∃ x, f.fragment offset moreFragment size = some x ∧
      x.payload = createFragment f.p offset size := by
  have haligned : UInt16.ofNat (offset + f.originalOffset.toNat) &&& 0x7 = 0 := by
    apply and_seven_eq_zero
    rw [UInt16.toNat_ofNat']
    omega
  unfold Fragmentation.fragment Ipv4Header.setFragmentOffset
  dsimp only
  rw [if_neg (not_not.mpr haligned), Option.map_some]
  exact ⟨_, rfl, rfl⟩

theorem length_createFragment_le (bytes : List UInt8) (start length : ℕ) :
    (createFragment bytes start length).length ≤ length := by
  rw [createFragment, List.length_take]
  exact Nat.min_le_left _ _

/-- The last round, where one step reaches the end. -/
theorem loop_last {f : Fragmentation} (horiginal : f.originalOffset.toNat % 8 = 0) (fuel : ℕ)
    {offset : ℕ} (hoffset : offset % 8 = 0)
    (hlast : f.p.length ≤ (offset + f.fragmentSize.toNat) % 2 ^ 32) :
    ∃ x, f.loop (fuel + 1) offset = some [x] := by
  have hmore : ¬ f.p.length > (offset + f.fragmentSize.toNat) % 2 ^ 32 := Nat.not_lt.mpr hlast
  obtain ⟨x, hx, -⟩ :=
    fragment_payload f (f.p.length - offset) false hoffset horiginal
  refine ⟨x, ?_⟩
  unfold Fragmentation.loop
  simp only [hmore, decide_false, Bool.false_eq_true, if_false, hx, Option.bind_some]

section Loop

variable {f : Fragmentation} (horiginal : f.originalOffset.toNat % 8 = 0)
  (hsize : f.fragmentSize.toNat % 8 = 0)

include horiginal hsize

/-- What a run of the loop that ends has cut. -/
theorem loop_sound {fuel offset : ℕ} (hoffset : offset % 8 = 0) (hsmall : offset < 2 ^ 16)
    {fragments : List Ipv4Packet} (hloop : f.loop fuel offset = some fragments) :
    OffsetReaches f.fragmentSize.toNat f.p.length offset ∧
      ∀ x ∈ fragments, x.payload.length ≤ f.fragmentSize.toNat := by
  induction fuel generalizing offset fragments with
  | zero => cases hloop
  | succ fuel ih =>
      unfold Fragmentation.loop at hloop
      rw [offsetReaches_succ, Nat.mod_eq_of_lt hsmall]
      by_cases hmore : f.p.length > (offset + f.fragmentSize.toNat) % 2 ^ 32
      · obtain ⟨x, hx, hpayload⟩ :=
          fragment_payload f f.fragmentSize.toNat true hoffset horiginal
        simp only [hmore, decide_true, if_true, hx, Option.bind_some, Option.map_eq_some_iff]
          at hloop
        obtain ⟨rest, hrest, rfl⟩ := hloop
        obtain ⟨hreach, hlengths⟩ := ih (by omega) (Nat.mod_lt _ (by decide)) hrest
        refine ⟨Or.inr hreach, ?_⟩
        intro y hy
        rcases List.mem_cons.mp hy with rfl | hy
        · rw [hpayload]
          exact length_createFragment_le _ _ _
        · exact hlengths y hy
      · obtain ⟨x, hx, hpayload⟩ :=
          fragment_payload f (f.p.length - offset) false hoffset horiginal
        simp only [hmore, decide_false, Bool.false_eq_true, if_false, hx, Option.bind_some,
          Option.some.injEq] at hloop
        subst hloop
        have hle := Nat.mod_le (offset + f.fragmentSize.toNat) (2 ^ 32)
        refine ⟨Or.inl (Nat.le_of_not_lt hmore), ?_⟩
        intro y hy
        rw [List.mem_singleton.mp hy, hpayload]
        exact (length_createFragment_le _ _ _).trans (by omega)

/-- The loop ends if its offset comes close enough to the end. -/
theorem loop_ends {offset : ℕ} (hoffset : offset % 8 = 0) (hsmall : offset < 2 ^ 16)
    (hreach : OffsetReaches f.fragmentSize.toNat f.p.length offset) :
    ∃ fuel fragments, f.loop fuel offset = some fragments := by
  obtain ⟨k, hk⟩ := hreach
  induction k generalizing offset with
  | zero =>
      rw [Nat.zero_mul, Nat.add_zero, Nat.mod_eq_of_lt hsmall] at hk
      obtain ⟨x, hx⟩ := loop_last horiginal 0 hoffset hk
      exact ⟨1, [x], hx⟩
  | succ k ih =>
      by_cases hmore : f.p.length > (offset + f.fragmentSize.toNat) % 2 ^ 32
      · obtain ⟨x, hx, -⟩ :=
          fragment_payload f f.fragmentSize.toNat true hoffset horiginal
        obtain ⟨fuel, rest, hrest⟩ := @ih ((offset + f.fragmentSize.toNat) % 2 ^ 16) (by omega)
          (Nat.mod_lt _ (by decide)) (by
            rw [Nat.mod_add_mod, Nat.add_assoc, Nat.add_comm f.fragmentSize.toNat, ← Nat.succ_mul]
            exact hk)
        refine ⟨fuel + 1, x :: rest, ?_⟩
        unfold Fragmentation.loop
        simp only [hmore, decide_true, if_true, hx, Option.bind_some, hrest, Option.map_some]
      · obtain ⟨x, hx⟩ := loop_last horiginal 0 hoffset (Nat.le_of_not_lt hmore)
        exact ⟨1, [x], hx⟩

/-- The first fragment is a whole step, or the whole payload. -/
theorem loop_first {fuel : ℕ} {fragments : List Ipv4Packet}
    (hloop : f.loop fuel 0 = some fragments) :
    ∃ x ∈ fragments, x.payload.length = min f.fragmentSize.toNat f.p.length := by
  have hwhole : (0 + f.fragmentSize.toNat) % 2 ^ 32 = f.fragmentSize.toNat := by
    rw [Nat.zero_add]
    exact Nat.mod_eq_of_lt f.fragmentSize.toNat_lt
  cases fuel with
  | zero => cases hloop
  | succ fuel =>
      unfold Fragmentation.loop at hloop
      rw [hwhole] at hloop
      by_cases hmore : f.p.length > f.fragmentSize.toNat
      · obtain ⟨x, hx, hpayload⟩ :=
          fragment_payload f f.fragmentSize.toNat true (Nat.zero_mod 8) horiginal
        simp only [hmore, decide_true, if_true, hx, Option.bind_some, Option.map_eq_some_iff]
          at hloop
        obtain ⟨rest, -, rfl⟩ := hloop
        refine ⟨x, List.mem_cons_self, ?_⟩
        rw [hpayload, createFragment, List.drop_zero, List.length_take]
      · obtain ⟨x, hx, hpayload⟩ :=
          fragment_payload f (f.p.length - 0) false (Nat.zero_mod 8) horiginal
        simp only [hmore, decide_false, Bool.false_eq_true, if_false, hx, Option.bind_some,
          Option.some.injEq] at hloop
        subst hloop
        refine ⟨x, List.mem_singleton.mpr rfl, ?_⟩
        rw [hpayload, createFragment, List.drop_zero, Nat.sub_zero, List.take_length]
        omega

end Loop

/-- The loop of `DoFragmentation` ends, and every fragment with its header fits the MTU. -/
def FragmentsFit (packet : Ipv4Packet) (outIfaceMtu : UInt32) : Prop :=
  ∃ fuel fragments, (fragmentation packet outIfaceMtu).loop fuel 0 = some fragments ∧
    ∀ x ∈ fragments, Ipv4Header.serializedSize.toNat + x.payload.length ≤ outIfaceMtu.toNat

theorem fragmentSize_mod_eight (outIfaceMtu : UInt32) :
    (fragmentSize outIfaceMtu).toNat % 8 = 0 := by
  rw [fragmentSize, toNat_and_not_seven, Nat.mul_mod_left]

theorem fragmentation_originalOffset {packet : Ipv4Packet} (outIfaceMtu : UInt32)
    (haligned : packet.header.fragmentOffset.toNat % 8 = 0) :
    (fragmentation packet outIfaceMtu).originalOffset.toNat % 8 = 0 := by
  unfold fragmentation
  dsimp only
  split
  next => rfl
  next => exact haligned

/-- Below the size of a header the difference wraps around. -/
theorem fragmentSize_of_lt_header {outIfaceMtu : UInt32} (hmtu : outIfaceMtu.toNat < 20) :
    outIfaceMtu.toNat < (fragmentSize outIfaceMtu).toNat := by
  have hsize : Ipv4Header.serializedSize.toNat = 20 := rfl
  rw [fragmentSize, toNat_and_not_seven, UInt32.toNat_sub, hsize]
  omega

/-- With less than eight bytes behind the header the step is zero. -/
theorem fragmentSize_of_lt {outIfaceMtu : UInt32} (hheader : 20 ≤ outIfaceMtu.toNat)
    (hmtu : outIfaceMtu.toNat < 28) : (fragmentSize outIfaceMtu).toNat = 0 := by
  have hsize : Ipv4Header.serializedSize.toNat = 20 := rfl
  rw [fragmentSize, toNat_and_not_seven, UInt32.toNat_sub, hsize]
  omega

/-- The fragments of a packet larger than the MTU fit it exactly if the MTU holds a header and
eight bytes, and the 16-bit offset reaches the end of the payload. -/
theorem fragmentsFit_iff (packet : Ipv4Packet) (outIfaceMtu : UInt32)
    (haligned : packet.header.fragmentOffset.toNat % 8 = 0)
    (hlarge : outIfaceMtu.toNat < Ipv4Header.serializedSize.toNat + packet.payload.length) :
    FragmentsFit packet outIfaceMtu ↔
      28 ≤ outIfaceMtu.toNat ∧
        OffsetReaches (fragmentSize outIfaceMtu).toNat packet.payload.length 0 := by
  have horiginal := fragmentation_originalOffset outIfaceMtu haligned
  have hsize : (fragmentation packet outIfaceMtu).fragmentSize.toNat % 8 = 0 :=
    fragmentSize_mod_eight outIfaceMtu
  have hheader : Ipv4Header.serializedSize.toNat = 20 := rfl
  rw [hheader] at hlarge
  constructor
  · rintro ⟨fuel, fragments, hloop, hfit⟩
    have hreach := (loop_sound horiginal hsize rfl (by decide) hloop).1
    refine ⟨Nat.le_of_not_lt fun hmtu => ?_, hreach⟩
    by_cases hzero : 20 ≤ outIfaceMtu.toNat
    · obtain ⟨k, hk⟩ := hreach
      change packet.payload.length ≤
        ((0 + k * (fragmentSize outIfaceMtu).toNat) % 2 ^ 16 +
          (fragmentSize outIfaceMtu).toNat) % 2 ^ 32 at hk
      rw [fragmentSize_of_lt hzero hmtu] at hk
      simp at hk
      simp [hk] at hlarge
      omega
    · have hwrap := fragmentSize_of_lt_header (Nat.lt_of_not_le hzero)
      obtain ⟨x, hx, hlength⟩ := loop_first horiginal hsize hloop
      have hx := hfit x hx
      rw [hlength, hheader] at hx
      change 20 + min (fragmentSize outIfaceMtu).toNat packet.payload.length ≤ _ at hx
      omega
  · rintro ⟨hmtu, hreach⟩
    obtain ⟨fuel, fragments, hloop⟩ := loop_ends horiginal hsize rfl (by decide) hreach
    refine ⟨fuel, fragments, hloop, ?_⟩
    intro x hx
    have hlength := (loop_sound horiginal hsize rfl (by decide) hloop).2 x hx
    change x.payload.length ≤ (fragmentSize outIfaceMtu).toNat at hlength
    rw [fragmentSize_toNat hmtu] at hlength
    rw [hheader]
    omega

/-- A packet of 44 bytes. -/
def shortPacket : Ipv4Packet where
  header := ⟨1, 2, 0, 17, false, false, 0, 24⟩
  payload := List.replicate 24 0

/-- An MTU of 36 leaves two steps of sixteen bytes at most. -/
theorem fragmentsFit_thirtySix : FragmentsFit shortPacket 36 :=
  (fragmentsFit_iff shortPacket 36 (by decide) (by decide)).mpr
    ⟨by decide, offsetReaches_of_length (by decide) (by decide) (by decide)⟩

/-- With an MTU of 24 the loop never ends. -/
theorem not_fragmentsFit_twentyFour : ¬ FragmentsFit shortPacket 24 := by
  rintro ⟨fuel, fragments, hloop, -⟩
  have hreach := (loop_sound (fragmentation_originalOffset 24 (by decide))
    (fragmentSize_mod_eight 24) rfl (by decide) hloop).1
  obtain ⟨k, hk⟩ := hreach
  have hzero : (fragmentation shortPacket 24).fragmentSize.toNat = 0 := by decide
  rw [hzero, Nat.mul_zero] at hk
  exact absurd hk (by decide)

end Ns3Rdma.Ipv4
