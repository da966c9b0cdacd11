import Ns3Rdma.Lib.Word
import Ns3Rdma.Net.AddressGenerator

/-!
# The addresses of a subnet

A row of the table numbers the networks of one mask length, and the hosts of the current
network. `Reset` bounds the host numbers by the inverse of the next longer mask, so only
the lower half of each subnet can be allocated. Nothing bounds the network number: after
the last network of a mask length the count starts again with network zero.
-/

namespace Ns3Rdma.AddressGenerator

/-- The mask with `n` network bits. -/
def networkMask (n : Fin nBits) : UInt32 :=
  ~~~ ⟨BitVec.ofNat 32 (2 ^ (nBits - n) - 1)⟩

/-- The network with number `j` among those with `n` network bits. -/
def networkNumber (n : Fin nBits) (j : Nat) : UInt32 :=
  UInt32.ofNat j <<< UInt32.ofNat (nBits - n)

/-- `GetNetwork` for the mask with `n` network bits. -/
def Generator.network (g : Generator) (n : Fin nBits) : UInt32 :=
  (g.netTable n).network <<< (g.netTable n).shift

/-- `InitAddress` with the host part, and `NextAddress` after it. -/
def Generator.addressAt (g : Generator) (a mask : UInt32) : Option (UInt32 × Bool × Generator) :=
  (g.initAddress a mask).bind fun g => g.nextAddress mask

/-- Every host part up to the inverse of the mask gives the address in the network, and
only larger ones make `InitAddress` abort. -/
def Generator.CoversHost (g : Generator) (n : Fin nBits) (a : UInt32) : Prop :=
  if a ≤ ~~~ networkMask n then
    ∃ fresh g', g.addressAt a (networkMask n) = some (g.network n ||| a, fresh, g') ∧
      (g.network n ||| a) &&& networkMask n = g.network n
  else g.initAddress a (networkMask n) = none

/-- `NextNetwork` returns none of the networks up to the current one. -/
def Generator.NextIsNew (g : Generator) (n : Fin nBits) : Prop :=
  ∀ network g', g.nextNetwork (networkMask n) = some (network, g') →
    ∀ j ≤ (g.netTable n).network.toNat, network ≠ networkNumber n j

/-- The host part lies in the lower half of the subnet, the address is not zero, and the
address is not a collision that stops the program. Host parts above the subnet are in
order as well. -/
def HostInReach (w : World) (n : Fin nBits) (a : UInt32) : Prop :=
  ~~~ networkMask n < a ∨
    (a.toNat < 2 ^ (31 - n.val) ∧ w.generator.network n ||| a ≠ 0 ∧
      (w.generator.test = true ∨ w.generator.network n ||| a ∉ passed w.allocations))

/-- Right after `Reset`, with or without `TestMode`. -/
def startIn (test : Bool) : World where
  generator := { reset with test := test }
  allocations := []

/-! ## The rows of the table -/

theorem maskToIndex_networkMask :
    ∀ n : Fin nBits, 0 < n.val → maskToIndex (networkMask n) = some n := by
  decide

theorem toNat_reset_addrMax :
    ∀ n : Fin nBits, (reset.netTable n).addrMax.toNat = 2 ^ (31 - n.val) - 1 := by
  decide

theorem toNat_not_networkMask :
    ∀ n : Fin nBits, (~~~ networkMask n).toNat = 2 ^ (32 - n.val) - 1 := by
  decide

@[simp] theorem setNet_netTable_self (g : Generator) (index : Fin nBits) (row : NetworkState) :
    (g.setNet index row).netTable index = row :=
  Function.update_self ..

theorem setNet_netTable_of_ne {g : Generator} {index n : Fin nBits} {row : NetworkState}
    (h : n ≠ index) : (g.setNet index row).netTable n = g.netTable n :=
  Function.update_of_ne h ..

/-- The columns that `Reset` fills in for good. -/
def RowsKept (g : Generator) : Prop :=
  ∀ n, (g.netTable n).addrMax = (reset.netTable n).addrMax ∧
    (g.netTable n).shift = (reset.netTable n).shift

theorem RowsKept.of_moves {g g' : Generator} (h : RowsKept g) (hmoves : g.Moves g') :
    RowsKept g' := by
  obtain ⟨index, row, hmax, hshift, rfl⟩ := hmoves
  intro n
  by_cases hn : n = index
  · subst hn
    rw [setNet_netTable_self, hmax, hshift]
    exact h n
  · rw [setNet_netTable_of_ne hn]
    exact h n

theorem RowsKept.of_addAllocated {g g' : Generator} (h : RowsKept g) {addr : UInt32}
    {fresh : Bool} (hadd : g.addAllocated addr = some (fresh, g')) : RowsKept g' := by
  obtain ⟨-, -, rfl⟩ := addAllocated_eq_some hadd
  exact h

/-- No call touches the bounds and the shifts. -/
theorem rowsKept_step {w next : World} (h : RowsKept w.generator) (call : Call)
    (hstep : step w call = some next) : RowsKept next.generator := by
  obtain ⟨g, hmoves, rfl⟩ | ⟨g, g', addr, fresh, hmoves, hadd, rfl⟩ := step_cases call hstep
  · exact h.of_moves hmoves
  · exact (h.of_moves hmoves).of_addAllocated hadd

/-! ## Networks and their addresses -/

section

variable {g : Generator} {n : Fin nBits}

theorem RowsKept.shift_eq (h : RowsKept g) (n : Fin nBits) :
    (g.netTable n).shift = UInt32.ofNat (nBits - n) :=
  (h n).2

theorem toNat_shift (hn : 0 < n.val) : (UInt32.ofNat (nBits - n)).toNat % 32 = 32 - n.val := by
  have hle : nBits - n.val < 32 := Nat.sub_lt (Nat.zero_lt_succ 31) hn
  rw [UInt32.toNat_ofNat', Nat.mod_eq_of_lt (Nat.lt_trans hle (by decide)), Nat.mod_eq_of_lt hle]

theorem two_pow_split (n : Fin nBits) : 2 ^ n.val * 2 ^ (32 - n.val) = 2 ^ 32 := by
  rw [← pow_add, Nat.add_sub_cancel' n.isLt.le]

theorem toNat_networkNumber (hn : 0 < n.val) (j : Nat) :
    (networkNumber n j).toNat = j % 2 ^ n.val * 2 ^ (32 - n.val) := by
  rw [networkNumber, UInt32.toNat_shiftLeft, toNat_shift hn, UInt32.toNat_ofNat',
    Nat.shiftLeft_eq, Nat.mod_mul_mod, ← two_pow_split n, Nat.mul_mod_mul_right]

theorem RowsKept.network_eq (h : RowsKept g) (n : Fin nBits) :
    g.network n = networkNumber n (g.netTable n).network.toNat := by
  rw [Generator.network, h.shift_eq, networkNumber, UInt32.ofNat_toNat]

/-- A host number below the network bits is the sum's low part. -/
theorem toNat_network_or (h : RowsKept g) (hn : 0 < n.val) {a : UInt32}
    (ha : a.toNat < 2 ^ (32 - n.val)) :
    (g.network n ||| a).toNat = (g.network n).toNat + a.toNat := by
  have hlt : (g.netTable n).network.toNat % 2 ^ n.val * 2 ^ (32 - n.val) < 2 ^ 32 := by
    rw [← two_pow_split n]
    exact Nat.mul_lt_mul_of_pos_right (Nat.mod_lt _ (Nat.two_pow_pos _)) (Nat.two_pow_pos _)
  have hor := Word.shiftLeft_mod_or hlt ha
  rw [Nat.shiftLeft_eq, Nat.mod_eq_of_lt hlt] at hor
  rw [UInt32.toNat_or, h.network_eq, toNat_networkNumber hn, hor]

theorem toNat_and_networkMask (x : UInt32) (n : Fin nBits) :
    (x &&& networkMask n).toNat = x.toNat / 2 ^ (32 - n.val) * 2 ^ (32 - n.val) :=
  UInt32.toNat_and_not_low x (32 - n.val)

/-- The masked part of an address is its network. -/
theorem network_or_and_mask (h : RowsKept g) (hn : 0 < n.val) {a : UInt32}
    (ha : a.toNat < 2 ^ (32 - n.val)) :
    (g.network n ||| a) &&& networkMask n = g.network n := by
  rw [← UInt32.toNat_inj, toNat_and_networkMask, toNat_network_or h hn ha, h.network_eq,
    toNat_networkNumber hn, Nat.add_comm, Nat.add_mul_div_right _ _ (Nat.two_pow_pos _),
    Nat.div_eq_of_lt ha, Nat.zero_add]

theorem RowsKept.le_addrMax_iff (h : RowsKept g) {a : UInt32} :
    a ≤ (g.netTable n).addrMax ↔ a.toNat < 2 ^ (31 - n.val) := by
  have hpos := Nat.two_pow_pos (31 - n.val)
  rw [UInt32.le_iff_toNat_le, (h n).1, toNat_reset_addrMax]
  omega

theorem le_not_mask_iff {a : UInt32} :
    a ≤ ~~~ networkMask n ↔ a.toNat < 2 ^ (32 - n.val) := by
  have hpos := Nat.two_pow_pos (32 - n.val)
  rw [UInt32.le_iff_toNat_le, toNat_not_networkMask]
  omega

theorem initAddress_eq (h : RowsKept g) (hn : 0 < n.val) (a : UInt32) :
    g.initAddress a (networkMask n) =
      if a.toNat < 2 ^ (31 - n.val) then some (g.setNet n { g.netTable n with addr := a })
      else none := by
  rw [Generator.initAddress, maskToIndex_networkMask n hn, Option.bind_some]
  simp only [h.le_addrMax_iff]

/-- With a host number in the lower half, what is left to decide is the allocation. -/
theorem addressAt_eq (h : RowsKept g) (hn : 0 < n.val) {a : UInt32}
    (ha : a.toNat < 2 ^ (31 - n.val)) :
    ∃ g₁ : Generator, g₁.entries = g.entries ∧ g₁.test = g.test ∧
      g.addressAt a (networkMask n) = (g₁.addAllocated (g.network n ||| a)).map
        fun (fresh, g') => (g.network n ||| a, fresh, g') := by
  have hmax : a ≤ (g.netTable n).addrMax := h.le_addrMax_iff.mpr ha
  refine ⟨(g.setNet n { g.netTable n with addr := a }).setNet n
    { g.netTable n with addr := a + 1 }, rfl, rfl, ?_⟩
  rw [Generator.addressAt, initAddress_eq h hn, if_pos ha, Option.bind_some,
    Generator.nextAddress, maskToIndex_networkMask n hn, Option.bind_some]
  simp only [setNet_netTable_self, hmax, if_true]
  rfl

/-- The two guards of `AddAllocated`, read on an exact record. -/
theorem addAllocated_isSome_iff {addr : UInt32} (hinc : Increasing g.entries)
    (hzero : ∀ e ∈ g.entries, e.addrLow ≠ 0) :
    (g.addAllocated addr).isSome ↔
      addr ≠ 0 ∧ (g.test = true ∨ addr ∉ covered g.entries) := by
  unfold Generator.addAllocated
  by_cases haddr : addr = 0
  · simp [haddr]
  · have hfresh := (addAllocatedLoop_spec haddr hinc hzero).fresh_iff
    rw [if_neg haddr, ← hfresh]
    cases hresult : (addAllocatedLoop addr g.entries).1 <;> cases g.test <;>
      simp [haddr, hresult]

end

/-! ## Runs -/

theorem exact_startIn (test : Bool) : Exact (startIn test) where
  increasing := by simp [startIn, reset, Increasing]
  covered_iff := by simp [startIn, reset, passed]
  nonzero := by simp [startIn, passed]
  truthful := by simp [startIn, Truthful]

/-- What is true of every state that the calls reach. -/
structure Reached (w : World) : Prop where
  rows : RowsKept w.generator
  exact : Exact w

theorem reached (test : Bool) (calls : List Call) :
    StepSystem.Throughout step Reached (startIn test) calls := by
  refine StepSystem.throughout_of_invariant ?_ ⟨fun n => ⟨rfl, rfl⟩, exact_startIn test⟩ calls
  intro w call next h hstep
  exact ⟨rowsKept_step h.rows call hstep, exact_step h.exact call hstep⟩

theorem Reached.coversHost_iff {w : World} (h : Reached w) {n : Fin nBits} (hn : 0 < n.val)
    (a : UInt32) : w.generator.CoversHost n a ↔ HostInReach w n a := by
  have hinside : ~~~ networkMask n < a ↔ ¬ a ≤ ~~~ networkMask n := UInt32.not_le.symm
  unfold Generator.CoversHost HostInReach
  rw [hinside]
  have hhalf : 2 ^ (31 - n.val) ≤ 2 ^ (32 - n.val) :=
    Nat.pow_le_pow_right (Nat.zero_lt_succ 1) (by omega)
  split
  next hle =>
      simp only [hle, not_true_eq_false, false_or]
      have hlt := le_not_mask_iff.mp hle
      by_cases ha : a.toNat < 2 ^ (31 - n.val)
      · obtain ⟨g₁, hentries, htest, heq⟩ := addressAt_eq h.rows hn ha
        have hadd : (g₁.addAllocated (w.generator.network n ||| a)).isSome ↔ _ :=
          addAllocated_isSome_iff (hentries ▸ h.exact.increasing)
            (hentries ▸ h.exact.lows_ne_zero)
        rw [hentries, htest, h.exact.covered_iff] at hadd
        rw [heq, ← hadd, network_or_and_mask h.rows hn hlt]
        simp only [ha, true_and, and_true]
        rw [Option.isSome_iff_exists]
        simp
      · simp only [ha, false_and, iff_false, not_exists, Generator.addressAt,
          initAddress_eq h.rows hn, if_false, Option.bind_none]
        rintro fresh g' ⟨hnone, -⟩
        cases hnone
  next hgt =>
      simp only [hgt, not_false_eq_true, true_or, iff_true]
      rw [initAddress_eq h.rows hn, if_neg]
      rw [le_not_mask_iff] at hgt
      omega

theorem RowsKept.nextNetwork_eq {g : Generator} (h : RowsKept g) {n : Fin nBits}
    (hn : 0 < n.val) : ∃ g', g.nextNetwork (networkMask n) =
      some (networkNumber n ((g.netTable n).network.toNat + 1), g') := by
  refine ⟨g.setNet n { g.netTable n with network := (g.netTable n).network + 1 }, ?_⟩
  rw [Generator.nextNetwork, maskToIndex_networkMask n hn, Option.map_some, networkNumber,
    UInt32.ofNat_add, UInt32.ofNat_toNat, ← h.shift_eq]
  rfl

/-- The networks of a mask length repeat with its number of networks as the period. -/
theorem networkNumber_inj {n : Fin nBits} (hn : 0 < n.val) {i j : Nat} :
    networkNumber n i = networkNumber n j ↔ i % 2 ^ n.val = j % 2 ^ n.val := by
  rw [← UInt32.toNat_inj, toNat_networkNumber hn, toNat_networkNumber hn,
    Nat.mul_left_inj (Nat.two_pow_pos _).ne']

theorem Reached.nextIsNew_iff {w : World} (h : Reached w) {n : Fin nBits} (hn : 0 < n.val) :
    w.generator.NextIsNew n ↔ (w.generator.netTable n).network.toNat + 1 < 2 ^ n.val := by
  obtain ⟨g', hnext⟩ := h.rows.nextNetwork_eq hn
  unfold Generator.NextIsNew
  rw [hnext]
  generalize (w.generator.netTable n).network.toNat = c
  constructor
  · intro hnew
    by_contra hover
    -- the number that is left after the wrap has been counted before
    have hwrap : (c + 1) % 2 ^ n.val ≤ c := by
      have hlt := Nat.mod_lt (c + 1) (Nat.two_pow_pos n.val)
      omega
    refine hnew _ g' rfl _ hwrap ((networkNumber_inj hn).mpr ?_)
    rw [Nat.mod_mod]
  · rintro hfits network g'' heq j hj hsame
    obtain ⟨rfl, -⟩ := Prod.mk.inj (Option.some.inj heq)
    rw [networkNumber_inj hn, Nat.mod_eq_of_lt hfits, Nat.mod_eq_of_lt (by omega)] at hsame
    omega

/-- In every state reached after `Reset`, for every mask length, a host part below the
inverse of the mask gives its address in the network if and only if it lies in the lower
half of the subnet and the address passes the guards of `AddAllocated`. The next network is
a new one if and only if its number fits in the network bits. -/
theorem subnet_coverage_iff (test : Bool) (calls : List Call) :
    StepSystem.Throughout step (fun w => ∀ n : Fin nBits, 0 < n.val →
      (∀ a, w.generator.CoversHost n a ↔ HostInReach w n a) ∧
      (w.generator.NextIsNew n ↔ (w.generator.netTable n).network.toNat + 1 < 2 ^ n.val))
      (startIn test) calls := by
  refine (reached test calls).mono fun w h n hn => ⟨?_, h.nextIsNew_iff hn⟩
  intro a
  exact h.coversHost_iff hn a

/-- The host part 200 of the network 10.1.1.0 with 24 network bits makes `InitAddress`
abort. -/
theorem not_subnet_covered :
    ¬ ∀ (test : Bool) (calls : List Call), StepSystem.Throughout step (fun w =>
      ∀ n : Fin nBits, 0 < n.val →
        (∀ a, w.generator.CoversHost n a) ∧ w.generator.NextIsNew n) (startIn test) calls := by
  intro h
  have hhost := (h false [.init 0x0a010100 0xffffff00 1] [.init 0x0a010100 0xffffff00 1] []
    _ rfl rfl 24 (by decide)).1 200
  unfold Generator.CoversHost at hhost
  rw [if_pos (by decide)] at hhost
  obtain ⟨fresh, g', hnone, -⟩ := hhost
  cases hnone

end Ns3Rdma.AddressGenerator
