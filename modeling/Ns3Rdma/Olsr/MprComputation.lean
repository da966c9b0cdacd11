import Mathlib.Data.Finset.Sort
import Mathlib.Data.Fintype.Order
import Ns3Rdma.Olsr.OlsrState

/-!
# The multipoint relays

The computation scans the two-hop neighbours that are left to cover and erases those that a relay
reaches: first for the neighbours that are always willing, then for those that are the only ones
to reach some address, and last one neighbour after the other. The last loop ends only if a
neighbour of nonzero reachability is found in every turn.
-/

namespace Ns3Rdma.Olsr

def willNever : UInt8 := 0

def willAlways : UInt8 := 7

/-- Remove the two-hop neighbours that a neighbour reaches, with all of their records. -/
def coverTwoHopNeighbors (neighborMainAddr : Ipv4Address) (n2 : List TwoHopNeighborTuple) :
    List TwoHopNeighborTuple :=
  let toRemove := ((n2.filter fun it => it.neighborMainAddr = neighborMainAddr).map
    TwoHopNeighborTuple.twoHopNeighborAddr).toFinset
  n2.filter fun it => it.twoHopNeighborAddr ∉ toRemove

/-- The number of records that are left for a neighbour. -/
def reach (n2 : List TwoHopNeighborTuple) (tuple : NeighborTuple) : ℕ :=
  n2.countP fun it => tuple.neighborMainAddr = it.neighborMainAddr

namespace OlsrState

variable (s : OlsrState) (mainAddress : Ipv4Address)

def degree (tuple : NeighborTuple) : ℕ :=
  s.twoHopNeighborSet.countP fun it =>
    it.neighborMainAddr = tuple.neighborMainAddr ∧ s.findNeighborTuple it.neighborMainAddr = none

/-! ## The computation -/

/-- `N`, the symmetric neighbours. -/
def symNeighbors : List NeighborTuple :=
  s.neighborSet.filter fun it => it.status = .SYM

/-- Whether the first neighbour that a record is listed with is willing. -/
def reachable (it : TwoHopNeighborTuple) : Bool :=
  match s.symNeighbors.find? fun neigh => neigh.neighborMainAddr = it.neighborMainAddr with
  | some neigh => neigh.willingness ≠ willNever
  | none => false

/-- `N2`, the two-hop neighbours to be covered. -/
def twoHopNeighbors : List TwoHopNeighborTuple :=
  s.twoHopNeighborSet.filter fun it =>
    it.twoHopNeighborAddr ≠ mainAddress ∧ s.reachable it ∧
      ¬ s.symNeighbors.any fun neigh => neigh.neighborMainAddr = it.twoHopNeighborAddr

/-- The set that is built, and the records that are left. -/
structure Relays where
  mprSet : Finset Ipv4Address
  n2 : List TwoHopNeighborTuple

/-- Insert a neighbour and remove what it covers. -/
def Relays.elect (r : Relays) (addr : Ipv4Address) : Relays where
  mprSet := insert addr r.mprSet
  n2 := coverTwoHopNeighbors addr r.n2

def Relays.electAlways (r : Relays) (neighbor : NeighborTuple) : Relays :=
  if neighbor.willingness = willAlways then r.elect neighbor.neighborMainAddr else r

/-- Step 1: the neighbours that are always willing. -/
def electAlways (r : Relays) : Relays :=
  s.symNeighbors.foldl Relays.electAlways r

/-- No other neighbour reaches the address. -/
def onlyOne (n2 : List TwoHopNeighborTuple) (it : TwoHopNeighborTuple) : Bool :=
  ¬ n2.any fun other => other.twoHopNeighborAddr = it.twoHopNeighborAddr ∧
    other.neighborMainAddr ≠ it.neighborMainAddr

/-- One turn of step 3. The records are removed when all turns are done. -/
def noteOnly (n2 : List TwoHopNeighborTuple) (acc : Finset Ipv4Address × Finset Ipv4Address)
    (it : TwoHopNeighborTuple) : Finset Ipv4Address × Finset Ipv4Address :=
  if onlyOne n2 it then
    (insert it.neighborMainAddr acc.1,
      acc.2 ∪ ((n2.filter fun other => other.neighborMainAddr = it.neighborMainAddr).map
        TwoHopNeighborTuple.twoHopNeighborAddr).toFinset)
  else acc

/-- Step 3: the neighbours that are the only ones to reach an address. -/
def electOnly (r : Relays) : Relays :=
  let (mprSet, covered) := r.n2.foldl (noteOnly r.n2) (r.mprSet, ∅)
  ⟨mprSet, r.n2.filter fun it => it.twoHopNeighborAddr ∉ covered⟩

/-- The better one of the candidate so far and a neighbour, each with its reachability. -/
def better (max : Option (NeighborTuple × ℕ)) (tuple : NeighborTuple) (r : ℕ) :
    Option (NeighborTuple × ℕ) :=
  match max with
  | none => some (tuple, r)
  | some (best, maxR) =>
      if best.willingness < tuple.willingness then some (tuple, r)
      else if tuple.willingness = best.willingness then
        if maxR < r then some (tuple, r)
        else if r = maxR then
          if s.degree best < s.degree tuple then some (tuple, r) else some (best, maxR)
        else some (best, maxR)
      else some (best, maxR)

/-- The best one with the neighbours of one reachability. -/
def bestWith (n2 : List TwoHopNeighborTuple) (max : Option (NeighborTuple × ℕ)) (r : ℕ) :
    Option (NeighborTuple × ℕ) :=
  if r = 0 then max
  else (s.symNeighbors.filter fun tuple => reach n2 tuple = r).foldl
    (fun max tuple => s.better max tuple r) max

/-- Step 4.2, over the reachabilities from the lowest to the highest. -/
def findMax (n2 : List TwoHopNeighborTuple) : Option (NeighborTuple × ℕ) :=
  (Finset.sort (s.symNeighbors.map (reach n2)).toFinset).foldl (s.bestWith n2) none

/-- Step 4, for at most so many turns. A turn without a candidate changes nothing. -/
def electGreedy : ℕ → Relays → Option (Finset Ipv4Address)
  | 0, _ => none
  | fuel + 1, r =>
      if r.n2 = [] then some r.mprSet
      else
        match s.findMax r.n2 with
        | some (max, _) => electGreedy fuel (r.elect max.neighborMainAddr)
        | none => electGreedy fuel r

def mprComputation (fuel : ℕ) : Option OlsrState :=
  (s.electGreedy fuel (electOnly (s.electAlways ⟨∅, s.twoHopNeighbors mainAddress⟩))).map
    fun mprSet => { s with mprSet := mprSet }

end OlsrState

/-! ## Covering -/

open OlsrState

variable {n2 : List TwoHopNeighborTuple} {addr : Ipv4Address}

/-- A record is removed if its address is listed with the neighbour. -/
theorem mem_coverTwoHopNeighbors {it : TwoHopNeighborTuple} :
    it ∈ coverTwoHopNeighbors addr n2 ↔ it ∈ n2 ∧
      ∀ other ∈ n2, other.neighborMainAddr = addr →
        other.twoHopNeighborAddr ≠ it.twoHopNeighborAddr := by
  simp [coverTwoHopNeighbors]

theorem length_coverTwoHopNeighbors_lt {it : TwoHopNeighborTuple} (hit : it ∈ n2)
    (haddr : it.neighborMainAddr = addr) :
    (coverTwoHopNeighbors addr n2).length < n2.length := by
  apply List.length_filter_lt_length_iff_exists.mpr
  refine ⟨it, hit, ?_⟩
  simp only [decide_eq_true_eq, List.mem_toFinset, List.mem_map, List.mem_filter, not_not]
  exact ⟨it, ⟨hit, haddr⟩, rfl⟩

/-- The records that are left are among the first ones, the address of every other one is listed
with a relay, and every relay satisfies the predicate. -/
structure Covers (allowed : Ipv4Address → Prop) (n2 : List TwoHopNeighborTuple) (r : Relays) :
    Prop where
  left : r.n2.Sublist n2
  covered : ∀ it ∈ n2, it ∈ r.n2 ∨ ∃ other ∈ n2,
    other.twoHopNeighborAddr = it.twoHopNeighborAddr ∧ other.neighborMainAddr ∈ r.mprSet
  allowed : ∀ addr ∈ r.mprSet, allowed addr

namespace Covers

variable {allowed : Ipv4Address → Prop} {r : Relays}

theorem start (n2 : List TwoHopNeighborTuple) : Covers allowed n2 ⟨∅, n2⟩ where
  left := List.Sublist.refl n2
  covered _ hit := Or.inl hit
  allowed _ haddr := absurd haddr (Finset.notMem_empty _)

/-- Records are removed that relays cover, and relays are added that are allowed. -/
theorem mono {next : Relays} (h : Covers allowed n2 r)
    (hleft : next.n2.Sublist r.n2)
    (hremoved : ∀ it ∈ r.n2, it ∉ next.n2 → ∃ other ∈ r.n2,
      other.twoHopNeighborAddr = it.twoHopNeighborAddr ∧ other.neighborMainAddr ∈ next.mprSet)
    (hmono : r.mprSet ⊆ next.mprSet) (hallowed : ∀ addr ∈ next.mprSet, allowed addr) :
    Covers allowed n2 next where
  left := hleft.trans h.left
  covered it hit := by
    rcases h.covered it hit with hin | ⟨other, hother, haddr, hmem⟩
    · by_cases hstays : it ∈ next.n2
      · exact Or.inl hstays
      · obtain ⟨other, hother, haddr, hmem⟩ := hremoved it hin hstays
        exact Or.inr ⟨other, h.left.subset hother, haddr, hmem⟩
    · exact Or.inr ⟨other, hother, haddr, hmono hmem⟩
  allowed := hallowed

theorem elect (h : Covers allowed n2 r) (haddr : allowed addr) :
    Covers allowed n2 (r.elect addr) := by
  apply h.mono
  · exact List.filter_sublist
  · intro it hit hgone
    unfold Relays.elect at hgone
    rw [mem_coverTwoHopNeighbors, not_and] at hgone
    have hsome := hgone hit
    push Not at hsome
    obtain ⟨other, hother, hmain, hsame⟩ := hsome
    refine ⟨other, hother, hsame, ?_⟩
    rw [hmain]
    exact Finset.mem_insert_self _ _
  · exact Finset.subset_insert _ _
  · intro other hother
    rcases Finset.mem_insert.mp hother with heq | hold
    · rw [heq]
      exact haddr
    · exact h.allowed other hold

end Covers

/-! ## The steps -/

namespace OlsrState

variable {s : OlsrState} {allowed : Ipv4Address → Prop} {r : Relays}

/-- Every neighbour that is always willing is elected. -/
theorem electAlways_fold (neighbors : List NeighborTuple) (h : Covers allowed n2 r)
    (hallowed : ∀ neighbor ∈ neighbors, neighbor.willingness = willAlways →
      allowed neighbor.neighborMainAddr) :
    Covers allowed n2 (neighbors.foldl Relays.electAlways r) ∧
      r.mprSet ⊆ (neighbors.foldl Relays.electAlways r).mprSet ∧
      ∀ neighbor ∈ neighbors, neighbor.willingness = willAlways →
        neighbor.neighborMainAddr ∈ (neighbors.foldl Relays.electAlways r).mprSet := by
  induction neighbors generalizing r with
  | nil => exact ⟨h, Finset.Subset.refl _, fun _ hmem => absurd hmem List.not_mem_nil⟩
  | cons neighbor rest ih =>
      rw [List.forall_mem_cons] at hallowed
      rw [List.foldl_cons]
      by_cases halways : neighbor.willingness = willAlways
      · rw [Relays.electAlways, if_pos halways]
        obtain ⟨hcovers, hmono, hmem⟩ := ih (h.elect (hallowed.1 halways)) hallowed.2
        refine ⟨hcovers, (Finset.subset_insert _ _).trans hmono, ?_⟩
        rw [List.forall_mem_cons]
        exact ⟨fun _ => hmono (Finset.mem_insert_self _ _), hmem⟩
      · rw [Relays.electAlways, if_neg halways]
        obtain ⟨hcovers, hmono, hmem⟩ := ih h hallowed.2
        refine ⟨hcovers, hmono, ?_⟩
        rw [List.forall_mem_cons]
        exact ⟨fun halways' => absurd halways' halways, hmem⟩

/-- What the turns of step 3 have noted: relays, and addresses that are listed with one. -/
structure Noted (allowed : Ipv4Address → Prop) (r : Relays)
    (acc : Finset Ipv4Address × Finset Ipv4Address) : Prop where
  mono : r.mprSet ⊆ acc.1
  allowed : ∀ addr ∈ acc.1, allowed addr
  listed : ∀ addr ∈ acc.2, ∃ other ∈ r.n2,
    other.twoHopNeighborAddr = addr ∧ other.neighborMainAddr ∈ acc.1

theorem Noted.note {acc : Finset Ipv4Address × Finset Ipv4Address} (h : Noted allowed r acc)
    (it : TwoHopNeighborTuple) (hit : allowed it.neighborMainAddr) :
    Noted allowed r (noteOnly r.n2 acc it) := by
  unfold noteOnly
  split
  · constructor
    · exact h.mono.trans (Finset.subset_insert _ _)
    · intro addr haddr
      rcases Finset.mem_insert.mp haddr with heq | hold
      · rw [heq]
        exact hit
      · exact h.allowed addr hold
    · intro addr haddr
      rcases Finset.mem_union.mp haddr with hold | hnew
      · obtain ⟨other, hother, hsame, hmem⟩ := h.listed addr hold
        exact ⟨other, hother, hsame, Finset.mem_insert_of_mem hmem⟩
      · simp only [List.mem_toFinset, List.mem_map, List.mem_filter, decide_eq_true_eq] at hnew
        obtain ⟨other, ⟨hother, hmain⟩, hsame⟩ := hnew
        refine ⟨other, hother, hsame, ?_⟩
        rw [hmain]
        exact Finset.mem_insert_self _ _
  · exact h

theorem Noted.fold {acc : Finset Ipv4Address × Finset Ipv4Address} (h : Noted allowed r acc)
    (records : List TwoHopNeighborTuple)
    (hallowed : ∀ it ∈ records, allowed it.neighborMainAddr) :
    Noted allowed r (records.foldl (noteOnly r.n2) acc) := by
  induction records generalizing acc with
  | nil => exact h
  | cons it rest ih =>
      rw [List.forall_mem_cons] at hallowed
      exact ih (h.note it hallowed.1) hallowed.2

theorem electOnly_covers (h : Covers allowed n2 r)
    (hallowed : ∀ it ∈ n2, allowed it.neighborMainAddr) :
    Covers allowed n2 (electOnly r) ∧ r.mprSet ⊆ (electOnly r).mprSet := by
  have hnoted : Noted allowed r (r.n2.foldl (noteOnly r.n2) (r.mprSet, ∅)) := by
    apply Noted.fold
    · exact ⟨Finset.Subset.refl _, h.allowed, fun _ haddr => absurd haddr (Finset.notMem_empty _)⟩
    · exact fun it hit => hallowed it (h.left.subset hit)
  refine ⟨?_, hnoted.mono⟩
  apply h.mono
  · exact List.filter_sublist
  · intro it hit hgone
    apply hnoted.listed
    unfold electOnly at hgone
    by_contra hnot
    exact hgone (List.mem_filter.mpr ⟨hit, decide_eq_true hnot⟩)
  · exact hnoted.mono
  · exact hnoted.allowed

/-! ## The candidates of a turn -/

theorem better_cases (max : Option (NeighborTuple × ℕ)) (tuple : NeighborTuple) (n : ℕ) :
    s.better max tuple n = some (tuple, n) ∨
      s.better max tuple n = max ∧ max.isSome = true := by
  unfold better
  cases max with
  | none => exact Or.inl rfl
  | some best =>
      dsimp only
      split
      · exact Or.inl rfl
      · split
        · split
          · exact Or.inl rfl
          · split
            · split
              · exact Or.inl rfl
              · exact Or.inr ⟨rfl, rfl⟩
            · exact Or.inr ⟨rfl, rfl⟩
        · exact Or.inr ⟨rfl, rfl⟩

/-- The neighbours of one reachability: the best candidate is the old one or one of them. -/
theorem better_fold (tuples : List NeighborTuple) (n : ℕ) (max : Option (NeighborTuple × ℕ)) :
    (tuples.foldl (fun max tuple => s.better max tuple n) max = max ∧
        (tuples = [] ∨ max.isSome = true)) ∨
      ∃ tuple ∈ tuples, tuples.foldl (fun max tuple => s.better max tuple n) max =
        some (tuple, n) := by
  induction tuples generalizing max with
  | nil => exact Or.inl ⟨rfl, Or.inl rfl⟩
  | cons tuple rest ih =>
      rw [List.foldl_cons]
      rcases ih (s.better max tuple n) with ⟨hsame, -⟩ | ⟨other, hother, hfold⟩
      · rw [hsame]
        rcases better_cases max tuple n with hnew | ⟨hold, hsome⟩
        · exact Or.inr ⟨tuple, List.mem_cons_self, hnew⟩
        · exact Or.inl ⟨hold, Or.inr hsome⟩
      · exact Or.inr ⟨other, List.mem_cons_of_mem _ hother, hfold⟩

/-- A candidate is a neighbour with records left, and there is one as soon as some neighbour
has records left. -/
theorem findMax_fold (rs : List ℕ) (max : Option (NeighborTuple × ℕ))
    (hmax : ∀ best, max = some best → best.1 ∈ s.symNeighbors ∧ 0 < reach n2 best.1) :
    (∀ best, rs.foldl (s.bestWith n2) max = some best →
        best.1 ∈ s.symNeighbors ∧ 0 < reach n2 best.1) ∧
      ((max.isSome = true ∨ ∃ tuple ∈ s.symNeighbors, 0 < reach n2 tuple ∧ reach n2 tuple ∈ rs) →
        (rs.foldl (s.bestWith n2) max).isSome = true) := by
  induction rs generalizing max with
  | nil =>
      refine ⟨hmax, fun hsome => hsome.elim id ?_⟩
      rintro ⟨tuple, -, -, hmem⟩
      exact absurd hmem List.not_mem_nil
  | cons n rest ih =>
      rw [List.foldl_cons]
      by_cases hzero : n = 0
      · rw [bestWith, if_pos hzero]
        refine ⟨(ih max hmax).1, fun hsome => (ih max hmax).2 (hsome.imp_right ?_)⟩
        rintro ⟨tuple, htuple, hpos, hmem⟩
        refine ⟨tuple, htuple, hpos, (List.mem_cons.mp hmem).resolve_left fun heq => ?_⟩
        omega
      · rw [bestWith, if_neg hzero]
        rcases better_fold (s := s) (s.symNeighbors.filter fun tuple => reach n2 tuple = n) n max
          with ⟨hsame, hnone⟩ | ⟨best, hbest, hfold⟩
        · rw [hsame]
          refine ⟨(ih max hmax).1, fun hsome => (ih max hmax).2 ?_⟩
          rcases hnone with hnil | hsome'
          · refine hsome.imp_right ?_
            rintro ⟨tuple, htuple, hpos, hmem⟩
            refine ⟨tuple, htuple, hpos, (List.mem_cons.mp hmem).resolve_left fun heq => ?_⟩
            rw [List.filter_eq_nil_iff] at hnil
            exact hnil tuple htuple (decide_eq_true heq)
          · exact Or.inl hsome'
        · rw [hfold]
          rw [List.mem_filter, decide_eq_true_eq] at hbest
          have hnew : ∀ other, some (best, n) = some other →
              other.1 ∈ s.symNeighbors ∧ 0 < reach n2 other.1 := by
            intro other heq
            obtain rfl := Option.some.inj heq
            refine ⟨hbest.1, ?_⟩
            rw [hbest.2]
            exact Nat.pos_of_ne_zero hzero
          exact ⟨(ih _ hnew).1, fun _ => (ih _ hnew).2 (Or.inl rfl)⟩

theorem reach_pos_iff {tuple : NeighborTuple} :
    0 < reach n2 tuple ↔ ∃ it ∈ n2, tuple.neighborMainAddr = it.neighborMainAddr := by
  simp only [reach, List.countP_pos_iff, decide_eq_true_eq]

theorem reach_pos_of_findMax {best : NeighborTuple × ℕ} (h : s.findMax n2 = some best) :
    0 < reach n2 best.1 :=
  ((findMax_fold _ none fun _ hnone => nomatch hnone).1 best h).2

theorem findMax_isSome {tuple : NeighborTuple} (htuple : tuple ∈ s.symNeighbors)
    (hpos : 0 < reach n2 tuple) : (s.findMax n2).isSome = true := by
  apply (findMax_fold _ none fun _ hnone => nomatch hnone).2
  refine Or.inr ⟨tuple, htuple, hpos, ?_⟩
  rw [Finset.mem_sort, List.mem_toFinset]
  exact List.mem_map_of_mem htuple

/-! ## The result -/

/-- The last loop ends, and then nothing is left to be covered. -/
theorem electGreedy_covers (h : Covers allowed n2 r)
    (hlisted : ∀ it ∈ n2, allowed it.neighborMainAddr ∧
      ∃ tuple ∈ s.symNeighbors, tuple.neighborMainAddr = it.neighborMainAddr) :
    ∃ mprSet, (∀ fuel, r.n2.length < fuel → s.electGreedy fuel r = some mprSet) ∧
      r.mprSet ⊆ mprSet ∧ Covers allowed n2 ⟨mprSet, []⟩ := by
  induction hlength : r.n2.length using Nat.strong_induction_on generalizing r with
  | _ length ih =>
      cases hn2 : r.n2 with
      | nil =>
          refine ⟨r.mprSet, fun fuel hfuel => ?_, Finset.Subset.refl _, ?_⟩
          · obtain ⟨fuel, rfl⟩ := Nat.exists_eq_succ_of_ne_zero (Nat.ne_zero_of_lt hfuel)
            rw [electGreedy, if_pos hn2]
          · rw [← hn2]
            exact h
      | cons it rest =>
          have hit : it ∈ r.n2 := by
            rw [hn2]
            exact List.mem_cons_self
          -- The neighbour of the first record has records left.
          obtain ⟨tuple, htuple, hmain⟩ := (hlisted it (h.left.subset hit)).2
          have hsome := findMax_isSome htuple (reach_pos_iff.mpr ⟨it, hit, hmain⟩)
          obtain ⟨best, hbest⟩ := Option.isSome_iff_exists.mp hsome
          obtain ⟨other, hother, hsame⟩ := reach_pos_iff.mp (reach_pos_of_findMax hbest)
          have hallowed : allowed best.1.neighborMainAddr := by
            rw [hsame]
            exact (hlisted other (h.left.subset hother)).1
          have hshorter := length_coverTwoHopNeighbors_lt hother hsame.symm
          obtain ⟨mprSet, hrun, hmono, hcovers⟩ :=
            ih _ (hlength ▸ hshorter) (h.elect hallowed) rfl
          refine ⟨mprSet, fun fuel hfuel => ?_, ?_, hcovers⟩
          · obtain ⟨fuel, rfl⟩ := Nat.exists_eq_succ_of_ne_zero (Nat.ne_zero_of_lt hfuel)
            have hne : r.n2 ≠ [] := List.ne_nil_of_mem hit
            rw [electGreedy, if_neg hne, hbest]
            apply hrun
            change (coverTwoHopNeighbors best.1.neighborMainAddr r.n2).length < fuel
            omega
          · exact (Finset.subset_insert _ _).trans hmono

variable {mainAddress : Ipv4Address}

theorem mem_symNeighbors {neighbor : NeighborTuple} :
    neighbor ∈ s.symNeighbors ↔ neighbor ∈ s.neighborSet ∧ neighbor.status = .SYM := by
  simp [symNeighbors]

/-- A record is reachable through a symmetric neighbour that is willing. -/
theorem exists_of_reachable {it : TwoHopNeighborTuple} (h : s.reachable it = true) :
    ∃ neigh ∈ s.symNeighbors, neigh.neighborMainAddr = it.neighborMainAddr ∧
      neigh.willingness ≠ willNever := by
  unfold reachable at h
  split at h
  next neigh hfind =>
    have hmain := List.find?_some hfind
    exact ⟨neigh, List.mem_of_find?_eq_some hfind, of_decide_eq_true hmain, of_decide_eq_true h⟩
  next => cases h

/-- With distinct main addresses, the neighbour that is found is the one. -/
theorem reachable_of_willing (hdistinct : (s.neighborSet.map NeighborTuple.neighborMainAddr).Nodup)
    {it : TwoHopNeighborTuple} {neigh : NeighborTuple} (hneigh : neigh ∈ s.symNeighbors)
    (hmain : neigh.neighborMainAddr = it.neighborMainAddr)
    (hwilling : neigh.willingness ≠ willNever) : s.reachable it = true := by
  unfold reachable
  split
  next found hfind =>
    have hfound := List.find?_some hfind
    rw [decide_eq_true_eq] at hfound
    have hsame : found = neigh := by
      apply List.inj_on_of_nodup_map hdistinct
      · exact (mem_symNeighbors.mp (List.mem_of_find?_eq_some hfind)).1
      · exact (mem_symNeighbors.mp hneigh).1
      · rw [hfound, hmain]
    rw [hsame]
    exact decide_eq_true hwilling
  next hnone =>
    have hnot := List.find?_eq_none.mp hnone neigh hneigh
    exact absurd (decide_eq_true hmain) hnot

theorem mem_twoHopNeighbors {it : TwoHopNeighborTuple} :
    it ∈ s.twoHopNeighbors mainAddress ↔ it ∈ s.twoHopNeighborSet ∧
      it.twoHopNeighborAddr ≠ mainAddress ∧ s.reachable it = true ∧
        ∀ neigh ∈ s.symNeighbors, neigh.neighborMainAddr ≠ it.twoHopNeighborAddr := by
  simp [twoHopNeighbors]

/-- The relays are willing symmetric neighbours, all that are always willing are among them, and
they cover every address that a willing symmetric neighbour reaches. -/
structure CoversTwoHop (s : OlsrState) (mainAddress : Ipv4Address) (mprSet : Finset Ipv4Address) :
    Prop where
  willing : ∀ addr ∈ mprSet, ∃ neigh ∈ s.neighborSet, neigh.neighborMainAddr = addr ∧
    neigh.status = .SYM ∧ neigh.willingness ≠ willNever
  always : ∀ neigh ∈ s.neighborSet, neigh.status = .SYM → neigh.willingness = willAlways →
    neigh.neighborMainAddr ∈ mprSet
  covered : ∀ it ∈ s.twoHopNeighborSet, it.twoHopNeighborAddr ≠ mainAddress →
    (∀ neigh ∈ s.neighborSet, neigh.status = .SYM →
      neigh.neighborMainAddr ≠ it.twoHopNeighborAddr) →
    (∃ neigh ∈ s.neighborSet, neigh.status = .SYM ∧ neigh.willingness ≠ willNever ∧
      neigh.neighborMainAddr = it.neighborMainAddr) →
    ∃ other ∈ s.twoHopNeighborSet, other.twoHopNeighborAddr = it.twoHopNeighborAddr ∧
      other.neighborMainAddr ∈ mprSet

/-- The computation ends, and its set covers the two-hop neighbourhood. -/
theorem mprComputation_covers (s : OlsrState) (mainAddress : Ipv4Address)
    (hdistinct : (s.neighborSet.map NeighborTuple.neighborMainAddr).Nodup) :
    ∃ mprSet, (∀ fuel, s.twoHopNeighborSet.length < fuel →
        s.mprComputation mainAddress fuel = some { s with mprSet := mprSet }) ∧
      s.CoversTwoHop mainAddress mprSet := by
  let allowed : Ipv4Address → Prop := fun addr => ∃ neigh ∈ s.symNeighbors,
    neigh.neighborMainAddr = addr ∧ neigh.willingness ≠ willNever
  have hlisted : ∀ it ∈ s.twoHopNeighbors mainAddress, allowed it.neighborMainAddr :=
    fun it hit => exists_of_reachable (mem_twoHopNeighbors.mp hit).2.2.1
  have hstart : Covers allowed (s.twoHopNeighbors mainAddress)
      ⟨∅, s.twoHopNeighbors mainAddress⟩ := Covers.start _
  obtain ⟨halways, -, hmem⟩ := electAlways_fold s.symNeighbors hstart
    fun neigh hneigh hwilling => ⟨neigh, hneigh, rfl, by rw [hwilling]; decide⟩
  obtain ⟨honly, hmono⟩ := electOnly_covers halways hlisted
  obtain ⟨mprSet, hrun, hmono', hcovers⟩ := electGreedy_covers (s := s) honly fun it hit => by
    obtain ⟨neigh, hneigh, hmain, hwilling⟩ := hlisted it hit
    exact ⟨⟨neigh, hneigh, hmain, hwilling⟩, neigh, hneigh, hmain⟩
  refine ⟨mprSet, fun fuel hfuel => ?_, ?_, ?_, ?_⟩
  · unfold mprComputation
    rw [electAlways, hrun fuel]
    · rfl
    · -- Every turn of the last loop removes a record.
      have hlength := (honly.left.trans List.filter_sublist).length_le
      exact Nat.lt_of_le_of_lt hlength hfuel
  · intro addr haddr
    obtain ⟨neigh, hneigh, hmain, hwilling⟩ := hcovers.allowed addr haddr
    obtain ⟨hin, hsym⟩ := mem_symNeighbors.mp hneigh
    exact ⟨neigh, hin, hmain, hsym, hwilling⟩
  · intro neigh hneigh hsym hwilling
    exact hmono' (hmono (hmem neigh (mem_symNeighbors.mpr ⟨hneigh, hsym⟩) hwilling))
  · rintro it hit hself hnotSym ⟨neigh, hneigh, hsym, hwilling, hmain⟩
    have hreachable :=
      reachable_of_willing hdistinct (mem_symNeighbors.mpr ⟨hneigh, hsym⟩) hmain hwilling
    have hn2 : it ∈ s.twoHopNeighbors mainAddress := by
      refine mem_twoHopNeighbors.mpr ⟨hit, hself, hreachable, fun neigh' hneigh' => ?_⟩
      obtain ⟨hin, hsym'⟩ := mem_symNeighbors.mp hneigh'
      exact hnotSym neigh' hin hsym'
    rcases hcovers.covered it hn2 with hleft | ⟨other, hother, hsame, hrelay⟩
    · exact absurd hleft List.not_mem_nil
    · exact ⟨other, (mem_twoHopNeighbors.mp hother).1, hsame, hrelay⟩

/-- Neighbour 1 is the only one to reach 11, and 2 is always willing. -/
def twoNeighbors : OlsrState where
  linkSet := []
  neighborSet := [⟨1, .SYM, 3⟩, ⟨2, .SYM, 7⟩]
  twoHopNeighborSet := [⟨1, 11⟩, ⟨1, 12⟩, ⟨2, 12⟩]
  topologySet := []
  mprSet := ∅

theorem mprComputation_covers_twoNeighbors :
    ∃ mprSet, (∀ fuel, 3 < fuel →
        twoNeighbors.mprComputation 5 fuel = some { twoNeighbors with mprSet := mprSet }) ∧
      twoNeighbors.CoversTwoHop 5 mprSet :=
  mprComputation_covers twoNeighbors 5 (by decide)

end OlsrState

end Ns3Rdma.Olsr
