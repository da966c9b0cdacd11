import Mathlib.Data.List.Basic
import Mathlib.Data.UInt
import Mathlib.Data.Set.Basic
import Mathlib.Logic.Function.Basic
import Ns3Rdma.Lib.StepSystem

/-!
# Allocation of IPv4 addresses

The generator counts network numbers and host numbers for every mask length, and it
remembers the allocated addresses as a list of ranges. The record is exact: over every
run in test mode the ranges increase, and they cover the allocated addresses.
-/

namespace Ns3Rdma.AddressGenerator

open StepSystem

/-- `Ipv4AddressGeneratorImpl::N_BITS`. -/
abbrev nBits : Nat := 32

/-- `Ipv4AddressGeneratorImpl::MOST_SIGNIFICANT_BIT`. -/
def mostSignificantBit : UInt32 := 0x80000000

structure NetworkState where
  mask : UInt32
  shift : UInt32
  network : UInt32
  addr : UInt32
  addrMax : UInt32
  deriving DecidableEq, Repr

structure Entry where
  addrLow : UInt32
  addrHigh : UInt32
  deriving DecidableEq, Repr

/-- The data members of `Ipv4AddressGeneratorImpl`. -/
structure Generator where
  netTable : Fin nBits → NetworkState
  entries : List Entry
  test : Bool

/-- The loop variable `mask` of `Reset` at the head of iteration `i`. -/
def resetMask : Nat → UInt32
  | 0 => 0
  | i + 1 => (resetMask i >>> 1) ||| mostSignificantBit

/-- `Reset`; `addrMax` is taken from the mask that was already shifted. -/
def reset : Generator where
  netTable i :=
    { mask := resetMask i
      network := 1
      addr := 1
      addrMax := ~~~ resetMask (i + 1)
      shift := UInt32.ofNat (nBits - i) }
  entries := []
  test := false

/-- `TestMode`: a collision is then reported instead of stopping the program. -/
def Generator.testMode (g : Generator) : Generator :=
  { g with test := true }

/-- The loop of `MaskToIndex` with the given number of iterations left. -/
def maskToIndexFrom (maskBits : UInt32) : Nat → Option (Fin nBits)
  | 0 => none
  | left + 1 =>
      if maskBits &&& 1 ≠ 0 then
        if h : 0 < left + 1 ∧ left + 1 < nBits then some ⟨left + 1, h.2⟩ else none
      else maskToIndexFrom (maskBits >>> 1) left

/-- `MaskToIndex`; an illegal mask stops the program. -/
def maskToIndex (mask : UInt32) : Option (Fin nBits) :=
  maskToIndexFrom mask nBits

/-- Assign one row of `m_netTable`. -/
def Generator.setNet (g : Generator) (index : Fin nBits) (row : NetworkState) : Generator :=
  { g with netTable := Function.update g.netTable index row }

/-- `Init`. -/
def Generator.init (g : Generator) (net mask addr : UInt32) : Option Generator :=
  if net &&& ~~~ mask = 0 ∧ addr &&& mask = 0 then
    (maskToIndex mask).bind fun index =>
      let row := { g.netTable index with network := net >>> (g.netTable index).shift }
      if addr ≤ row.addrMax then some (g.setNet index { row with addr := addr }) else none
  else none

/-- `NextNetwork`: pre-increment the network number and return the network. -/
def Generator.nextNetwork (g : Generator) (mask : UInt32) : Option (UInt32 × Generator) :=
  (maskToIndex mask).map fun index =>
    let row := { g.netTable index with network := (g.netTable index).network + 1 }
    (row.network <<< row.shift, g.setNet index row)

/-- `InitAddress`. -/
def Generator.initAddress (g : Generator) (addr mask : UInt32) : Option Generator :=
  (maskToIndex mask).bind fun index =>
    let row := g.netTable index
    if addr ≤ row.addrMax then some (g.setNet index { row with addr := addr }) else none

/-- The loop of `AddAllocated` over `m_entries`, with the insertion after it. -/
def addAllocatedLoop (addr : UInt32) : List Entry → Bool × List Entry
  | [] => (true, [⟨addr, addr⟩])
  | i :: rest =>
      if addr ≥ i.addrLow ∧ addr ≤ i.addrHigh then (false, i :: rest)
      else if addr < i.addrLow - 1 then (true, ⟨addr, addr⟩ :: i :: rest)
      else if addr = i.addrHigh + 1 then
        -- the look-ahead at the next block
        if rest.head?.any fun j => addr = j.addrLow then (false, i :: rest)
        else (true, { i with addrHigh := addr } :: rest)
      else if addr = i.addrLow - 1 then (true, { i with addrLow := addr } :: rest)
      else
        let (fresh, rest) := addAllocatedLoop addr rest
        (fresh, i :: rest)

/-- `AddAllocated`. The zero address stops the program, and so does a collision outside
test mode. -/
def Generator.addAllocated (g : Generator) (addr : UInt32) : Option (Bool × Generator) :=
  if addr = 0 then none
  else
    let result := addAllocatedLoop addr g.entries
    if result.1 = false ∧ g.test = false then none
    else some (result.1, { g with entries := result.2 })

/-- `NextAddress`: post-increment the host number and allocate the address. The result
of `AddAllocated`, which the source drops, is returned beside the address. -/
def Generator.nextAddress (g : Generator) (mask : UInt32) :
    Option (UInt32 × Bool × Generator) :=
  (maskToIndex mask).bind fun index =>
    let row := g.netTable index
    if row.addr ≤ row.addrMax then
      let addr := (row.network <<< row.shift) ||| row.addr
      ((g.setNet index { row with addr := row.addr + 1 }).addAllocated addr).map
        fun (fresh, g) => (addr, fresh, g)
    else none

/-! ## What the calls do -/

/-- One row gets another network number or host number. -/
def Generator.Moves (g g' : Generator) : Prop :=
  ∃ index row, row.addrMax = (g.netTable index).addrMax ∧
    row.shift = (g.netTable index).shift ∧ g' = g.setNet index row

theorem Generator.Moves.refl (g : Generator) : g.Moves g := by
  refine ⟨0, g.netTable 0, rfl, rfl, ?_⟩
  unfold Generator.setNet
  rw [Function.update_eq_self]

theorem Generator.Moves.entries_eq {g g' : Generator} (h : g.Moves g') :
    g'.entries = g.entries := by
  obtain ⟨index, row, -, -, rfl⟩ := h
  rfl

theorem Generator.Moves.test_eq {g g' : Generator} (h : g.Moves g') : g'.test = g.test := by
  obtain ⟨index, row, -, -, rfl⟩ := h
  rfl

theorem moves_setNet {g : Generator} {index : Fin nBits} {row : NetworkState}
    (hmax : row.addrMax = (g.netTable index).addrMax)
    (hshift : row.shift = (g.netTable index).shift) : g.Moves (g.setNet index row) :=
  ⟨index, row, hmax, hshift, rfl⟩

theorem moves_of_init {g g' : Generator} {net mask addr : UInt32}
    (h : g.init net mask addr = some g') : g.Moves g' := by
  unfold Generator.init at h
  split at h
  next =>
      obtain ⟨index, -, hrow⟩ := Option.bind_eq_some_iff.mp h
      dsimp only at hrow
      split at hrow
      next =>
          obtain rfl := Option.some.inj hrow
          exact moves_setNet rfl rfl
      next => cases hrow
  next => cases h

theorem moves_of_nextNetwork {g g' : Generator} {mask network : UInt32}
    (h : g.nextNetwork mask = some (network, g')) : g.Moves g' := by
  obtain ⟨index, -, hrow⟩ := Option.map_eq_some_iff.mp h
  obtain ⟨-, rfl⟩ := Prod.mk.inj hrow
  exact moves_setNet rfl rfl

theorem moves_of_initAddress {g g' : Generator} {addr mask : UInt32}
    (h : g.initAddress addr mask = some g') : g.Moves g' := by
  obtain ⟨index, -, hrow⟩ := Option.bind_eq_some_iff.mp h
  dsimp only at hrow
  split at hrow
  next =>
      obtain rfl := Option.some.inj hrow
      exact moves_setNet rfl rfl
  next => cases hrow

theorem moves_of_nextAddress {g g' : Generator} {mask addr : UInt32} {fresh : Bool}
    (h : g.nextAddress mask = some (addr, fresh, g')) :
    ∃ g₁, g.Moves g₁ ∧ g₁.addAllocated addr = some (fresh, g') := by
  obtain ⟨index, -, hrow⟩ := Option.bind_eq_some_iff.mp h
  dsimp only at hrow
  split at hrow
  next =>
      obtain ⟨⟨fresh', g''⟩, hadd, hpair⟩ := Option.map_eq_some_iff.mp hrow
      obtain ⟨rfl, hresult⟩ := Prod.mk.inj hpair
      obtain ⟨rfl, rfl⟩ := Prod.mk.inj hresult
      refine ⟨_, ?_, hadd⟩
      exact moves_setNet rfl rfl
  next => cases hrow

/-- The guards that a call of `AddAllocated` passed, and its effect. -/
theorem addAllocated_eq_some {g g' : Generator} {addr : UInt32} {fresh : Bool}
    (h : g.addAllocated addr = some (fresh, g')) :
    addr ≠ 0 ∧ fresh = (addAllocatedLoop addr g.entries).1 ∧
      g' = { g with entries := (addAllocatedLoop addr g.entries).2 } := by
  unfold Generator.addAllocated at h
  split at h
  next => cases h
  next haddr =>
  dsimp only at h
  split at h
  next => cases h
  next =>
      obtain ⟨rfl, rfl⟩ := Prod.mk.inj (Option.some.inj h)
      exact ⟨haddr, rfl, rfl⟩

/-! ## The record of ranges -/

/-- The addresses of one block. -/
def Entry.toSet (e : Entry) : Set UInt32 :=
  {a | e.addrLow ≤ a ∧ a ≤ e.addrHigh}

/-- The addresses in some block of the list. -/
def covered (entries : List Entry) : Set UInt32 :=
  {a | ∃ e ∈ entries, a ∈ e.toSet}

/-- No block is empty, and each block lies above the ones before it. -/
def Increasing (entries : List Entry) : Prop :=
  (∀ e ∈ entries, e.addrLow ≤ e.addrHigh) ∧
    entries.Pairwise fun e f => e.addrHigh < f.addrLow

theorem Entry.mem_toSet {e : Entry} {a : UInt32} :
    a ∈ e.toSet ↔ e.addrLow ≤ a ∧ a ≤ e.addrHigh :=
  Iff.rfl

@[simp] theorem covered_nil : covered [] = ∅ := by
  ext a
  simp [covered]

theorem mem_covered_cons {e : Entry} {rest : List Entry} {a : UInt32} :
    a ∈ covered (e :: rest) ↔ (e.addrLow ≤ a ∧ a ≤ e.addrHigh) ∨ a ∈ covered rest := by
  simp [covered, Entry.mem_toSet]

theorem increasing_cons {e : Entry} {rest : List Entry} :
    Increasing (e :: rest) ↔
      e.addrLow ≤ e.addrHigh ∧ (∀ f ∈ rest, e.addrHigh < f.addrLow) ∧ Increasing rest := by
  simp only [Increasing, List.forall_mem_cons, List.pairwise_cons]
  tauto

/-- An increasing list starts a longer one when everything it covers lies higher. -/
theorem increasing_cons_of_covered {e : Entry} {rest : List Entry}
    (hne : e.addrLow ≤ e.addrHigh) (habove : ∀ a ∈ covered rest, e.addrHigh < a)
    (hrest : Increasing rest) : Increasing (e :: rest) := by
  refine increasing_cons.mpr ⟨hne, ?_, hrest⟩
  intro f hf
  exact habove f.addrLow ⟨f, hf, Entry.mem_toSet.mpr ⟨UInt32.le_refl _, hrest.1 f hf⟩⟩

/-- What an increasing list covers after its first block lies above that block. -/
theorem Increasing.lt_of_covered {e : Entry} {rest : List Entry} (h : Increasing (e :: rest))
    {a : UInt32} (ha : a ∈ covered rest) : e.addrHigh < a := by
  obtain ⟨f, hf, hlow, -⟩ := ha
  exact UInt32.lt_of_lt_of_le ((increasing_cons.mp h).2.1 f hf) hlow

/-- The blocks of an increasing list are pairwise disjoint. -/
theorem Increasing.disjoint {entries : List Entry} (h : Increasing entries) :
    entries.Pairwise fun e f => e.toSet ∩ f.toSet = ∅ := by
  refine h.2.imp fun {e f} hlt => Set.eq_empty_iff_forall_notMem.mpr ?_
  rintro a ⟨hae, haf⟩
  exact absurd (UInt32.lt_of_le_of_lt hae.2 (UInt32.lt_of_lt_of_le hlt haf.1))
    (UInt32.lt_irrefl a)

/-! ### Neighbours of a block

The wrapped comparisons of the loop, read as arithmetic on naturals. -/

theorem lt_pred_iff {a low : UInt32} (hlow : low ≠ 0) :
    a < low - 1 ↔ a.toNat + 1 < low.toNat := by
  have hpos : 0 < low.toNat := by
    rw [Nat.pos_iff_ne_zero]
    exact fun h => hlow (UInt32.toNat.inj h)
  rw [UInt32.lt_iff_toNat_lt, UInt32.toNat_sub_of_le]
  · simp only [UInt32.toNat_one]
    omega
  · rw [UInt32.le_iff_toNat_le, UInt32.toNat_one]
    exact hpos

theorem eq_pred_iff {a low : UInt32} (hlow : low ≠ 0) :
    a = low - 1 ↔ a.toNat + 1 = low.toNat := by
  have hpos : 0 < low.toNat := by
    rw [Nat.pos_iff_ne_zero]
    exact fun h => hlow (UInt32.toNat.inj h)
  rw [← UInt32.toNat_inj, UInt32.toNat_sub_of_le]
  · simp only [UInt32.toNat_one]
    omega
  · rw [UInt32.le_iff_toNat_le, UInt32.toNat_one]
    exact hpos

theorem eq_succ_iff {a high : UInt32} (ha : a ≠ 0) :
    a = high + 1 ↔ a.toNat = high.toNat + 1 := by
  have hpos : 0 < a.toNat := by
    rw [Nat.pos_iff_ne_zero]
    exact fun h => ha (UInt32.toNat.inj h)
  have hbound := a.toNat_lt
  have hhigh := high.toNat_lt
  rw [← UInt32.toNat_inj, UInt32.toNat_add, UInt32.toNat_one]
  omega

theorem mem_covered_single {a low : UInt32} : a ∈ covered [⟨low, low⟩] ↔ a = low := by
  rw [mem_covered_cons, covered_nil]
  simp only [Set.mem_empty_iff_false, or_false, UInt32.le_iff_toNat_le, ← UInt32.toNat_inj]
  omega

/-- What one call of the loop does to an increasing record that leaves out zero. -/
structure LoopResult (addr : UInt32) (entries : List Entry) (result : Bool × List Entry) :
    Prop where
  increasing : Increasing result.2
  covered_iff : ∀ a, a ∈ covered result.2 ↔ a = addr ∨ a ∈ covered entries
  fresh_iff : result.1 = true ↔ addr ∉ covered entries

/-- A collision leaves the record alone. -/
theorem loopResult_collision {addr : UInt32} {entries : List Entry} (hinc : Increasing entries)
    (hmem : addr ∈ covered entries) : LoopResult addr entries (false, entries) where
  increasing := hinc
  covered_iff a := by
    constructor
    · exact Or.inr
    · rintro (rfl | h)
      · exact hmem
      · exact h
  fresh_iff := by simp [hmem]

/-- Replacing or preceding the first block by one that adds the new address. -/
theorem loopResult_front {addr : UInt32} {entries rest : List Entry} {front : Entry}
    (hne : front.addrLow ≤ front.addrHigh)
    (habove : ∀ a ∈ covered rest, front.addrHigh < a) (hrest : Increasing rest)
    (hcover : ∀ a, a ∈ covered (front :: rest) ↔ a = addr ∨ a ∈ covered entries)
    (hnew : addr ∉ covered entries) : LoopResult addr entries (true, front :: rest) where
  increasing := increasing_cons_of_covered hne habove hrest
  covered_iff := hcover
  fresh_iff := by simp [hnew]

/-- A block that lies below the new address stays in front of the result for the rest. -/
theorem LoopResult.cons {addr : UInt32} {i : Entry} {rest : List Entry}
    {result : Bool × List Entry} (hinc : Increasing (i :: rest)) (hlt : i.addrHigh < addr)
    (h : LoopResult addr rest result) : LoopResult addr (i :: rest) (result.1, i :: result.2) where
  increasing := by
    refine increasing_cons_of_covered (increasing_cons.mp hinc).1 ?_ h.increasing
    intro a ha
    rcases (h.covered_iff a).mp ha with rfl | hrest
    · exact hlt
    · exact hinc.lt_of_covered hrest
  covered_iff a := by
    rw [mem_covered_cons, mem_covered_cons, h.covered_iff]
    tauto
  fresh_iff := by
    rw [h.fresh_iff, mem_covered_cons, not_or, iff_and_self]
    rintro - ⟨-, hle⟩
    exact absurd (UInt32.lt_of_lt_of_le hlt hle) (UInt32.lt_irrefl _)

/-- The look-ahead: no later block starts with the address, so it lies below all of them. -/
theorem lt_covered_of_head_ne {addr : UInt32} {rest : List Entry} (hrest : Increasing rest)
    (hgap : ∀ e ∈ rest, addr.toNat ≤ e.addrLow.toNat)
    (hnext : ¬ (rest.head?.any fun e => decide (addr = e.addrLow)) = true) :
    ∀ a ∈ covered rest, addr.toNat < a.toNat := by
  intro a ha
  cases rest with
  | nil => simp at ha
  | cons j tail =>
      simp only [List.head?_cons, Option.any_some, decide_eq_true_eq, ← UInt32.toNat_inj] at hnext
      have hj := hgap j List.mem_cons_self
      rcases mem_covered_cons.mp ha with ⟨hle, -⟩ | hmem
      · rw [UInt32.le_iff_toNat_le] at hle
        omega
      · have hlater := hrest.lt_of_covered hmem
        have hjne := (increasing_cons.mp hrest).1
        rw [UInt32.lt_iff_toNat_lt] at hlater
        rw [UInt32.le_iff_toNat_le] at hjne
        omega

theorem addAllocatedLoop_spec {addr : UInt32} (haddr : addr ≠ 0) {entries : List Entry}
    (hinc : Increasing entries) (hzero : ∀ e ∈ entries, e.addrLow ≠ 0) :
    LoopResult addr entries (addAllocatedLoop addr entries) := by
  induction entries with
  | nil =>
      refine loopResult_front (UInt32.le_refl _) ?_ hinc ?_ ?_
      · simp
      · intro a
        rw [mem_covered_single, covered_nil]
        simp
      · simp
  | cons i rest ih =>
      obtain ⟨hne, hgap, hrest⟩ := increasing_cons.mp hinc
      have hlow : i.addrLow ≠ 0 := hzero i List.mem_cons_self
      have habove (a : UInt32) (ha : a ∈ covered rest) := hinc.lt_of_covered ha
      simp only [UInt32.lt_iff_toNat_lt, UInt32.le_iff_toNat_le] at hne hgap habove
      unfold addAllocatedLoop
      split
      next hin => exact loopResult_collision hinc (mem_covered_cons.mpr (Or.inl hin))
      next hout =>
      split
      next hbefore =>
          rw [lt_pred_iff hlow] at hbefore
          have hnew : ∀ a ∈ covered (i :: rest), addr < a := by
            intro a ha
            rw [UInt32.lt_iff_toNat_lt]
            rcases mem_covered_cons.mp ha with ⟨hle, -⟩ | hmem
            · rw [UInt32.le_iff_toNat_le] at hle
              omega
            · have := habove a hmem
              omega
          refine loopResult_front (UInt32.le_refl _) hnew hinc ?_ ?_
          · intro a
            rw [mem_covered_cons]
            simp only [UInt32.le_iff_toNat_le, ← UInt32.toNat_inj]
            rw [← Nat.le_antisymm_iff, eq_comm]
          · exact fun hmem => UInt32.lt_irrefl _ (hnew addr hmem)
      next hbefore =>
      rw [lt_pred_iff hlow] at hbefore
      simp only [ge_iff_le, UInt32.le_iff_toNat_le] at hout
      split
      next hend =>
          rw [eq_succ_iff haddr] at hend
          split
          next hnext =>
              -- the look-ahead finds the address at the start of the next block
              cases rest with
              | nil => simp at hnext
              | cons j tail =>
                  simp only [List.head?_cons, Option.any_some, decide_eq_true_eq] at hnext
                  refine loopResult_collision hinc (mem_covered_cons.mpr (Or.inr ?_))
                  rw [hnext]
                  have hfirst := (increasing_cons.mp hrest).1
                  exact mem_covered_cons.mpr (Or.inl ⟨UInt32.le_refl _, hfirst⟩)
          next hnext =>
              have hfresh := lt_covered_of_head_ne hrest (fun e he => by
                have hbehind := hgap e he
                omega) hnext
              refine loopResult_front ?_ ?_ hrest ?_ ?_
              · simp only [UInt32.le_iff_toNat_le]
                omega
              · simpa only [UInt32.lt_iff_toNat_lt] using hfresh
              · intro a
                simp only [mem_covered_cons, UInt32.le_iff_toNat_le, ← UInt32.toNat_inj,
                  ← or_assoc]
                refine or_congr_left ?_
                omega
              · rw [mem_covered_cons]
                simp only [UInt32.le_iff_toNat_le]
                rintro (h | h)
                · omega
                · exact absurd (hfresh addr h) (Nat.lt_irrefl _)
      next hend =>
      rw [eq_succ_iff haddr] at hend
      split
      next hstart =>
          rw [eq_pred_iff hlow] at hstart
          refine loopResult_front ?_ ?_ hrest ?_ ?_
          · simp only [UInt32.le_iff_toNat_le]
            omega
          · simpa only [UInt32.lt_iff_toNat_lt] using habove
          · intro a
            simp only [mem_covered_cons, UInt32.le_iff_toNat_le, ← UInt32.toNat_inj, ← or_assoc]
            refine or_congr_left ?_
            omega
          · rw [mem_covered_cons]
            simp only [UInt32.le_iff_toNat_le]
            rintro (h | h)
            · omega
            · have := habove addr h
              omega
      next hstart =>
          rw [eq_pred_iff hlow] at hstart
          refine LoopResult.cons hinc ?_ (ih hrest fun e he => hzero e (List.mem_cons_of_mem _ he))
          rw [UInt32.lt_iff_toNat_lt]
          omega

/-! ## Runs -/

inductive Call where
  | init (net mask addr : UInt32)
  | nextNetwork (mask : UInt32)
  | initAddress (addr mask : UInt32)
  | nextAddress (mask : UInt32)
  | addAllocated (addr : UInt32)

/-- The generator, with every call of `AddAllocated` so far and its result, oldest first. -/
structure World where
  generator : Generator
  allocations : List (UInt32 × Bool)

/-- Execute one call; an aborted call has no successor. -/
def step (w : World) : Call → Option World
  | .init net mask addr =>
      (w.generator.init net mask addr).map fun g => { w with generator := g }
  | .nextNetwork mask =>
      (w.generator.nextNetwork mask).map fun (_, g) => { w with generator := g }
  | .initAddress addr mask =>
      (w.generator.initAddress addr mask).map fun g => { w with generator := g }
  | .nextAddress mask =>
      (w.generator.nextAddress mask).map fun (addr, fresh, g) =>
        ⟨g, w.allocations ++ [(addr, fresh)]⟩
  | .addAllocated addr =>
      (w.generator.addAllocated addr).map fun (fresh, g) =>
        ⟨g, w.allocations ++ [(addr, fresh)]⟩

/-- Test mode right after `Reset`. -/
def start : World where
  generator := reset.testMode
  allocations := []

/-- The addresses passed to `AddAllocated`. -/
def passed (allocations : List (UInt32 × Bool)) : List UInt32 :=
  allocations.map Prod.fst

/-- Each call of `AddAllocated` failed exactly if its argument had been passed before. -/
def Truthful (allocations : List (UInt32 × Bool)) : Prop :=
  ∀ before addr fresh after, allocations = before ++ (addr, fresh) :: after →
    (fresh = false ↔ addr ∈ passed before)

/-- The record covers exactly the allocated addresses, and the results were right. -/
structure Exact (w : World) : Prop where
  increasing : Increasing w.generator.entries
  covered_iff : ∀ a, a ∈ covered w.generator.entries ↔ a ∈ passed w.allocations
  nonzero : ∀ a ∈ passed w.allocations, a ≠ 0
  truthful : Truthful w.allocations

theorem exact_start : Exact start where
  increasing := by simp [start, reset, Generator.testMode, Increasing]
  covered_iff := by simp [start, reset, Generator.testMode, passed]
  nonzero := by simp [start, passed]
  truthful := by simp [start, Truthful]

/-- The counters of the networks do not enter the record. -/
theorem Exact.of_moves {w : World} (h : Exact w) {g : Generator}
    (hmoves : w.generator.Moves g) : Exact { w with generator := g } where
  increasing := by simpa only [hmoves.entries_eq] using h.increasing
  covered_iff := by simpa only [hmoves.entries_eq] using h.covered_iff
  nonzero := h.nonzero
  truthful := h.truthful

/-- A recorded call is an earlier one or the last one. -/
theorem Truthful.append {allocations : List (UInt32 × Bool)} (h : Truthful allocations)
    {addr : UInt32} {fresh : Bool} (hlast : fresh = false ↔ addr ∈ passed allocations) :
    Truthful (allocations ++ [(addr, fresh)]) := by
  intro before a f after heq
  rcases List.eq_nil_or_concat after with rfl | ⟨after, last, rfl⟩
  · obtain ⟨rfl, hpair⟩ := List.append_inj' heq rfl
    obtain ⟨rfl, rfl⟩ := Prod.mk.inj (List.cons.inj hpair).1
    exact hlast
  · have hinit : allocations ++ [(addr, fresh)] = (before ++ (a, f) :: after) ++ [last] := by
      rw [heq]
      simp
    exact h before a f after (List.append_inj' hinit rfl).1

theorem Exact.lows_ne_zero {w : World} (h : Exact w) :
    ∀ e ∈ w.generator.entries, e.addrLow ≠ 0 := by
  intro e he
  apply h.nonzero
  exact (h.covered_iff _).mp ⟨e, he, UInt32.le_refl _, h.increasing.1 e he⟩

theorem exact_addAllocated {w : World} (h : Exact w) {addr : UInt32} {fresh : Bool}
    {g g' : Generator} (hg : g.entries = w.generator.entries)
    (hadd : g.addAllocated addr = some (fresh, g')) :
    Exact ⟨g', w.allocations ++ [(addr, fresh)]⟩ := by
  obtain ⟨haddr, rfl, rfl⟩ := addAllocated_eq_some hadd
  have hloop := addAllocatedLoop_spec haddr (hg ▸ h.increasing) (hg ▸ h.lows_ne_zero)
  have hcover (a : UInt32) : a ∈ covered g.entries ↔ a ∈ passed w.allocations := by
    rw [hg]
    exact h.covered_iff a
  refine ⟨hloop.increasing, ?_, ?_, h.truthful.append ?_⟩
  · intro a
    refine (hloop.covered_iff a).trans ?_
    rw [hcover]
    simp [passed, or_comm]
  · intro a ha
    simp only [passed, List.map_append, List.map_cons, List.map_nil, List.mem_append,
      List.mem_singleton] at ha
    rcases ha with hold | rfl
    · exact h.nonzero a hold
    · exact haddr
  · rw [← hcover, ← Bool.not_eq_true, hloop.fresh_iff, not_not]

/-- A call moves one network, and two of the calls then allocate an address. -/
theorem step_cases {w next : World} (call : Call) (hstep : step w call = some next) :
    (∃ g, w.generator.Moves g ∧ next = { w with generator := g }) ∨
      ∃ g g' addr fresh, w.generator.Moves g ∧ g.addAllocated addr = some (fresh, g') ∧
        next = ⟨g', w.allocations ++ [(addr, fresh)]⟩ := by
  cases call with
  | init net mask addr =>
      obtain ⟨g, hg, rfl⟩ := Option.map_eq_some_iff.mp hstep
      exact Or.inl ⟨g, moves_of_init hg, rfl⟩
  | nextNetwork mask =>
      obtain ⟨⟨network, g⟩, hg, rfl⟩ := Option.map_eq_some_iff.mp hstep
      exact Or.inl ⟨g, moves_of_nextNetwork hg, rfl⟩
  | initAddress addr mask =>
      obtain ⟨g, hg, rfl⟩ := Option.map_eq_some_iff.mp hstep
      exact Or.inl ⟨g, moves_of_initAddress hg, rfl⟩
  | nextAddress mask =>
      obtain ⟨⟨addr, fresh, g'⟩, hg, rfl⟩ := Option.map_eq_some_iff.mp hstep
      obtain ⟨g, hmoves, hadd⟩ := moves_of_nextAddress hg
      exact Or.inr ⟨g, g', addr, fresh, hmoves, hadd, rfl⟩
  | addAllocated addr =>
      obtain ⟨⟨fresh, g'⟩, hg, rfl⟩ := Option.map_eq_some_iff.mp hstep
      exact Or.inr ⟨w.generator, g', addr, fresh, .refl _, hg, rfl⟩

theorem exact_step {w next : World} (h : Exact w) (call : Call)
    (hstep : step w call = some next) : Exact next := by
  obtain ⟨g, hmoves, rfl⟩ | ⟨g, g', addr, fresh, hmoves, hadd, rfl⟩ := step_cases call hstep
  · exact h.of_moves hmoves
  · exact exact_addAllocated h hmoves.entries_eq hadd

/-- No call leaves test mode. -/
theorem test_step {w next : World} (call : Call) (hstep : step w call = some next) :
    next.generator.test = w.generator.test := by
  obtain ⟨g, hmoves, rfl⟩ | ⟨g, g', addr, fresh, hmoves, hadd, rfl⟩ := step_cases call hstep
  · exact hmoves.test_eq
  · obtain ⟨-, -, rfl⟩ := addAllocated_eq_some hadd
    exact hmoves.test_eq

/-- In test mode `AddAllocated` returns for every address but zero, and tells whether it was
passed before. -/
theorem Exact.addAllocated_eq {w : World} (h : Exact w) {g : Generator} {addr : UInt32}
    (hg : g.entries = w.generator.entries) (htest : g.test = true) (haddr : addr ≠ 0) :
    ∃ g', g.addAllocated addr = some (decide (addr ∉ passed w.allocations), g') := by
  have hloop := addAllocatedLoop_spec haddr h.increasing h.lows_ne_zero
  have hfresh : (addAllocatedLoop addr w.generator.entries).1 =
      decide (addr ∉ passed w.allocations) := by
    rw [Bool.eq_iff_iff, hloop.fresh_iff, h.covered_iff, decide_eq_true_iff]
  unfold Generator.addAllocated
  rw [if_neg haddr, hg, htest]
  dsimp only
  rw [hfresh]
  exact ⟨_, if_neg fun hcollision => Bool.false_ne_true hcollision.2.symm⟩

/-- The address that `NextAddress` allocates. -/
def Generator.address (g : Generator) (index : Fin nBits) : UInt32 :=
  ((g.netTable index).network <<< (g.netTable index).shift) ||| (g.netTable index).addr

/-- So does `NextAddress`, for every legal mask whose host numbers are not used up. -/
theorem Exact.nextAddress_eq {w : World} (h : Exact w) (htest : w.generator.test = true)
    {mask : UInt32} {index : Fin nBits}
    (hindex : maskToIndex mask = some index)
    (hroom : (w.generator.netTable index).addr ≤ (w.generator.netTable index).addrMax)
    (haddr : w.generator.address index ≠ 0) :
    ∃ g', w.generator.nextAddress mask =
      some (w.generator.address index, decide (w.generator.address index ∉ passed w.allocations),
        g') := by
  obtain ⟨g', hadd⟩ := h.addAllocated_eq (g := w.generator.setNet index
    { w.generator.netTable index with addr := (w.generator.netTable index).addr + 1 }) rfl htest haddr
  refine ⟨g', ?_⟩
  unfold Generator.nextAddress
  rw [hindex, Option.bind_some]
  dsimp only
  rw [if_pos hroom]
  exact congrArg (Option.map _) hadd

/-- What the next calls return. -/
structure Answers (w : World) : Prop where
  addAllocated : ∀ addr, addr ≠ 0 → ∃ g',
    w.generator.addAllocated addr = some (decide (addr ∉ passed w.allocations), g')
  nextAddress : ∀ mask index, maskToIndex mask = some index →
    (w.generator.netTable index).addr ≤ (w.generator.netTable index).addrMax →
      w.generator.address index ≠ 0 → ∃ g', w.generator.nextAddress mask =
        some (w.generator.address index,
          decide (w.generator.address index ∉ passed w.allocations), g')

/-- Over every run in test mode after `Reset`, the blocks increase and are pairwise
disjoint, together they are the allocated addresses, none of which is zero, and
`AddAllocated` returns, and fails exactly for the addresses that had been passed before. -/
theorem allocation_collision_free (calls : List Call) :
    Throughout step (fun w =>
      Increasing w.generator.entries ∧
      (w.generator.entries.Pairwise fun e f => e.toSet ∩ f.toSet = ∅) ∧
      covered w.generator.entries = {a | a ≠ 0 ∧ a ∈ passed w.allocations} ∧
      Truthful w.allocations ∧ Answers w) start calls := by
  have hinvariant : Throughout step (fun w => Exact w ∧ w.generator.test = true)
      start calls := by
    refine throughout_of_invariant ?_ ⟨exact_start, rfl⟩ calls
    rintro w call next ⟨h, htest⟩ hstep
    exact ⟨exact_step h call hstep, (test_step call hstep).trans htest⟩
  refine hinvariant.mono fun w h => ?_
  obtain ⟨h, htest⟩ := h
  refine ⟨h.increasing, h.increasing.disjoint, ?_, h.truthful,
    fun addr haddr => h.addAllocated_eq rfl htest haddr,
    fun mask index hindex hroom haddr => h.nextAddress_eq htest hindex hroom haddr⟩
  ext a
  rw [h.covered_iff, Set.mem_ofPred_eq]
  exact ⟨fun ha => ⟨h.nonzero a ha, ha⟩, And.right⟩

/-- A network whose second host number is allocated by hand before it is counted. -/
def handAndCounted : List Call :=
  [.init 0x0a000000 0xffffff00 1, .addAllocated 0x0a000002, .nextAddress 0xffffff00,
    .nextAddress 0xffffff00, .addAllocated 0x0a000003]

/-- The collision is reported, and the record stays one block. -/
theorem allocation_collision_free_run :
    ∃ w, run step start handAndCounted = some w ∧
      w.allocations = [(0x0a000002, true), (0x0a000001, true), (0x0a000002, false),
        (0x0a000003, true)] ∧
      w.generator.entries = [⟨0x0a000001, 0x0a000003⟩] ∧ Answers w := by
  have hsome : (run step start handAndCounted).isSome = true := rfl
  have hrun := (Option.some_get hsome).symm
  exact ⟨_, hrun, rfl, rfl,
    (allocation_collision_free handAndCounted _ [] _ (List.append_nil _).symm hrun).2.2.2.2⟩

end Ns3Rdma.AddressGenerator
