import Ns3Rdma.Lib.BreadthFirst
import Ns3Rdma.Lib.StepSystem
import Ns3Rdma.Net.NixVector

/-!
# Routing by nix-vectors

`Ipv4NixVectorRouting` finds a path by a breadth-first search, and a packet carries the neighbour
index of every hop. There are no bridges, the topology does not change, and no output device is
requested. The caches are those for one destination.
-/

namespace Ns3Rdma.NixVectorRouting

open BreadthFirst ShortestPath

/-- A device, whether its interface and its link are up, and the channel it is attached to. -/
structure NetDevice where
  isUp : Bool
  channel : Option ℕ

/-- The devices of the nodes, in order, and the devices of the channels: node and number there. -/
structure Topology where
  nodes : ℕ
  devices : ℕ → List NetDevice
  channelDevices : ℕ → List (ℕ × ℕ)

/-- The loop of `BitCount`; a `uint32_t` is zero after 32 shifts. -/
def bitCountLoop : ℕ → ℕ → ℕ
  | 0, _ => 0
  | fuel + 1, n => if n = 0 then 0 else bitCountLoop fuel (n / 2) + 1

/-- `NixVector::BitCount` -/
def bitCount (numberOfNeighbors : ℕ) : ℕ :=
  if numberOfNeighbors < 2 then 1 else bitCountLoop 32 (numberOfNeighbors - 1)

/-- `Ipv4Route`: the output device, and the device that has the address of the gateway. -/
structure Ipv4Route where
  outputDevice : ℕ
  gateway : ℕ × ℕ
deriving DecidableEq

/-- The nix-vector of a destination in the cache of each node, and the route. -/
structure Caches where
  nixCache : ℕ → Option NixVector
  ipv4RouteCache : ℕ → Option Ipv4Route

def Caches.flushed : Caches := ⟨fun _ => none, fun _ => none⟩

/-- Count through the containers of the devices. Without a device for the index, the source goes on
without a gateway. -/
def findNetDevice : List (List (ℕ × ℕ)) → ℕ → ℕ → Option Ipv4Route
  | [], _, _ => none
  | container :: rest, i, nodeIndex =>
      match container[nodeIndex]? with
      | some gateway => some ⟨i, gateway⟩
      | none => findNetDevice rest (i + 1) (nodeIndex - container.length)

namespace Topology

variable (t : Topology)

def getAdjacentNetDevices (netDevice : ℕ × ℕ) (channel : ℕ) : List (ℕ × ℕ) :=
  (t.channelDevices channel).filter (· ≠ netDevice)

/-- The container of each device of a node, empty without a channel. -/
def containers (node : ℕ) : List (List (ℕ × ℕ)) :=
  (t.devices node).mapIdx fun i device =>
    (device.channel.map (t.getAdjacentNetDevices (node, i))).getD []

/-- All neighbours of a node, in the order of their indices. -/
def neighbors (node : ℕ) : List (ℕ × ℕ) := (t.containers node).flatten

/-- The nodes that `BFS` discovers from a node. -/
def reachable (node : ℕ) : List ℕ :=
  ((t.devices node).mapIdx fun i device =>
    if device.isUp then
      ((device.channel.map (t.getAdjacentNetDevices (node, i))).getD []).map Prod.fst
    else []).flatten

/-- The index of a neighbour, the last one of several. -/
def destId (parentNode dest : ℕ) : ℕ :=
  (t.neighbors parentNode).zipIdx.foldl (fun destId r => if r.1.1 = dest then r.2 else destId) 0

/-- The number of bits of the indices at a node. -/
def numberOfBits (node : ℕ) : ℕ := bitCount (t.neighbors node).length

/-- `BuildNixVector`: what it returns, and the nix-vector. The result of the recursive call is not
looked at. -/
def buildNixVector (parentVector : ℕ → Option ℕ) (source : ℕ) :
    ℕ → ℕ → NixVector → Option (Bool × NixVector)
  | 0, _, _ => none
  | fuel + 1, dest, nixVector =>
      if source = dest then some (true, nixVector)
      else match parentVector dest with
        | none => some (false, nixVector)
        | some parentNode =>
            (nixVector.addNeighborIndex (t.destId parentNode dest)
              (t.numberOfBits parentNode)).bind fun nixVector =>
                (buildNixVector parentVector source fuel parentNode nixVector).map fun r =>
                  (true, r.2)

/-- `GetNixVector`, with `BFS`. A search that fails leaves the destination without a parent. -/
def getNixVector (source dest : ℕ) : Option NixVector :=
  if source = dest then none
  else
    (Search.run t.reachable dest (t.nodes + 1) (Search.start source)).bind fun search =>
      (t.buildNixVector search.parent source (t.nodes + 1) dest NixVector.create).bind fun r =>
        if r.1 then some r.2 else none

/-- `FindNetDeviceForNixIndex` -/
def findNetDeviceForNixIndex (node nodeIndex : ℕ) : Option Ipv4Route :=
  findNetDevice (t.containers node) 0 nodeIndex

/-- `RouteOutput`: the route, the nix-vector of the packet, and the caches. Without a requested
device a route from the cache is built again. -/
def routeOutput (c : Caches) (node dest : ℕ) : Option (Ipv4Route × NixVector × Caches) :=
  ((c.nixCache node).or (t.getNixVector node dest)).bind fun cached =>
    (cached.extractNeighborIndex (t.numberOfBits node)).bind fun r =>
      (t.findNetDeviceForNixIndex node r.1).map fun rtentry =>
        (rtentry, r.2,
          { nixCache := Function.update c.nixCache node (some cached)
            ipv4RouteCache := Function.update c.ipv4RouteCache node (some rtentry) })

/-- `RouteInput` -/
def routeInput (c : Caches) (node : ℕ) (nixVector : NixVector) :
    Option (Ipv4Route × NixVector × Caches) :=
  (nixVector.extractNeighborIndex (t.numberOfBits node)).bind fun r =>
    match c.ipv4RouteCache node with
    | some rtentry => some (rtentry, r.2, c)
    | none =>
        (t.findNetDeviceForNixIndex node r.1).map fun rtentry =>
          (rtentry, r.2,
            { c with ipv4RouteCache := Function.update c.ipv4RouteCache node (some rtentry) })

/-- The nodes that a packet passes until it comes to its destination. -/
def forward (dest : ℕ) : ℕ → Caches → ℕ → NixVector → Option (List ℕ × Caches)
  | 0, _, _, _ => none
  | fuel + 1, c, node, nixVector =>
      if node = dest then some ([node], c)
      else (t.routeInput c node nixVector).bind fun r =>
        (forward dest fuel r.2.2 r.1.gateway.1 r.2.1).map fun passed => (node :: passed.1, passed.2)

/-- Send a packet. -/
def send (c : Caches) (source dest : ℕ) : Option (List ℕ × Caches) :=
  (t.routeOutput c source dest).bind fun r =>
    (t.forward dest t.nodes r.2.2 r.1.gateway.1 r.2.1).map fun passed =>
      (source :: passed.1, passed.2)

/-- The indices of a path with their numbers of bits, in the order in which they are extracted. -/
def hops : List ℕ → List (ℕ × ℕ)
  | a :: b :: rest => (t.destId a b, t.numberOfBits a) :: hops (b :: rest)
  | _ => []

/-- The nodes of the channels exist, and no node has too many neighbours for a word. -/
structure WellFormed : Prop where
  exists_node : ∀ node < t.nodes, ∀ g ∈ t.neighbors node, g.1 < t.nodes
  size : ∀ node < t.nodes, (t.neighbors node).length ≤ 2 ^ 32

end Topology

/-! ## Numbers of bits -/

theorem bitCountLoop_le (fuel n : ℕ) : bitCountLoop fuel n ≤ fuel := by
  induction fuel generalizing n with
  | zero => exact le_rfl
  | succ fuel ih =>
      unfold bitCountLoop
      split
      · exact Nat.zero_le _
      · exact Nat.succ_le_succ (ih _)

theorem lt_two_pow_bitCountLoop {fuel n : ℕ} (hn : n < 2 ^ fuel) : n < 2 ^ bitCountLoop fuel n := by
  induction fuel generalizing n with
  | zero => exact hn
  | succ fuel ih =>
      unfold bitCountLoop
      by_cases hzero : n = 0
      · rw [if_pos hzero, hzero]
        exact Nat.one_pos
      · rw [if_neg hzero, Nat.pow_succ]
        rw [Nat.pow_succ] at hn
        have hhalf := ih (n := n / 2) (by omega)
        omega

/-- An index fits in the bits for the number of neighbours. -/
theorem bitCount_spec {n : ℕ} (hn : n ≤ 2 ^ 32) :
    1 ≤ bitCount n ∧ bitCount n ≤ 32 ∧ ∀ k < n, k < 2 ^ bitCount n := by
  unfold bitCount
  by_cases hsmall : n < 2
  · rw [if_pos hsmall]
    exact ⟨le_rfl, by decide, fun k hk => by omega⟩
  · rw [if_neg hsmall]
    have hbound : n - 1 < 2 ^ bitCountLoop 32 (n - 1) := lt_two_pow_bitCountLoop (by omega)
    refine ⟨?_, bitCountLoop_le _ _, fun k hk => by omega⟩
    by_contra hzero
    rw [Nat.lt_one_iff.mp (Nat.not_le.mp hzero)] at hbound
    omega

/-! ## Indices of neighbours -/

theorem findNetDevice_flatten {containers : List (List (ℕ × ℕ))} {i k : ℕ} {g : ℕ × ℕ}
    (hg : containers.flatten[k]? = some g) :
    ∃ rtentry, findNetDevice containers i k = some rtentry ∧ rtentry.gateway = g := by
  induction containers generalizing i k with
  | nil => cases hg
  | cons container rest ih =>
      unfold findNetDevice
      rw [List.flatten_cons] at hg
      cases hfound : container[k]? with
      | some gateway =>
          rw [List.getElem?_append_left (List.getElem?_eq_some_iff.mp hfound).1, hfound] at hg
          exact ⟨⟨i, gateway⟩, rfl, Option.some.inj hg⟩
      | none =>
          rw [List.getElem?_append_right (List.getElem?_eq_none_iff.mp hfound)] at hg
          exact ih hg

namespace Topology

variable {t : Topology} {a b source dest : ℕ} {path : List ℕ}

/-- The index found by the scan is one of the neighbour. -/
theorem getElem_foldl_destId {l : List (ℕ × ℕ)} (hdest : dest ∈ l.map Prod.fst) :
    ∃ g, l[l.zipIdx.foldl (fun destId r => if r.1.1 = dest then r.2 else destId) 0]? = some g ∧
      g.1 = dest := by
  induction l using List.reverseRecOn with
  | nil => cases hdest
  | append_singleton l x ih =>
      rw [List.zipIdx_append, List.foldl_append]
      simp only [List.zipIdx_singleton, List.foldl_cons, List.foldl_nil, Nat.zero_add]
      by_cases hx : x.1 = dest
      · rw [if_pos hx]
        exact ⟨x, List.getElem?_concat_length, hx⟩
      · rw [if_neg hx]
        have hold : dest ∈ l.map Prod.fst := by
          rw [List.map_append] at hdest
          refine (List.mem_append.mp hdest).resolve_right fun hmem => hx ?_
          exact (List.mem_singleton.mp hmem).symm
        obtain ⟨g, hg, hgd⟩ := ih hold
        refine ⟨g, ?_, hgd⟩
        rw [List.getElem?_append_left (List.getElem?_eq_some_iff.mp hg).1]
        exact hg

theorem mem_neighbors_of_reachable (hb : b ∈ t.reachable a) :
    b ∈ (t.neighbors a).map Prod.fst := by
  unfold reachable at hb
  obtain ⟨l, hl, hb⟩ := List.mem_flatten.mp hb
  obtain ⟨i, hi, rfl⟩ := List.mem_mapIdx.mp hl
  split at hb
  next =>
      unfold neighbors containers
      obtain ⟨g, hg, rfl⟩ := List.mem_map.mp hb
      refine List.mem_map_of_mem (List.mem_flatten.mpr ⟨_, ?_, hg⟩)
      exact List.mem_mapIdx.mpr ⟨i, hi, rfl⟩
  next => cases hb

/-- The device for the index of a neighbour leads to it. -/
theorem findNetDeviceForNixIndex_destId (hb : b ∈ t.reachable a) :
    t.destId a b < (t.neighbors a).length ∧
      ∃ rtentry, t.findNetDeviceForNixIndex a (t.destId a b) = some rtentry ∧
        rtentry.gateway.1 = b := by
  obtain ⟨g, hg, rfl⟩ := getElem_foldl_destId (mem_neighbors_of_reachable hb)
  obtain ⟨rtentry, hfound, rfl⟩ := findNetDevice_flatten (i := 0) hg
  exact ⟨(List.getElem?_eq_some_iff.mp hg).1, rtentry, hfound, rfl⟩

/-! ## Paths -/

theorem hops_concat (front : List ℕ) (a b : ℕ) :
    t.hops (front ++ [a] ++ [b]) =
      t.hops (front ++ [a]) ++ [(t.destId a b, t.numberOfBits a)] := by
  induction front with
  | nil => rfl
  | cons x front ih =>
      cases front with
      | nil => rfl
      | cons y front =>
          change _ :: t.hops ((y :: front) ++ [a] ++ [b]) = _ :: t.hops ((y :: front) ++ [a]) ++ _
          rw [ih]
          rfl

variable {parent : ℕ → Option ℕ}

theorem exists_front_of_path (hpath : Path t.reachable parent source path dest) :
    ∃ front, path = front ++ [dest] := by
  cases hpath with
  | root => exact ⟨[], rfl⟩
  | snoc before new ne_root step neighbour => exact ⟨_, rfl⟩

theorem exists_tail_of_path (hpath : Path t.reachable parent source path dest) :
    ∃ rest, path = source :: rest := by
  induction hpath with
  | root => exact ⟨[], rfl⟩
  | snoc before new ne_root step neighbour ih =>
      obtain ⟨rest, rfl⟩ := ih
      exact ⟨_, rfl⟩

theorem nodup_of_path (hpath : Path t.reachable parent source path dest) : path.Nodup := by
  induction hpath with
  | root => exact List.nodup_singleton _
  | snoc before new ne_root step neighbour ih =>
      rw [← List.concat_eq_append]
      exact List.Nodup.concat new ih

/-- Consecutive nodes of a path are neighbours. -/
theorem reachable_of_path (hpath : Path t.reachable parent source path dest)
    {front back : List ℕ} (heq : path = front ++ a :: b :: back) : b ∈ t.reachable a := by
  induction hpath generalizing back with
  | root =>
      have hlength := congrArg List.length heq
      simp only [List.length_append, List.length_cons, List.length_nil] at hlength
      omega
  | @snoc path p v before new ne_root step neighbour ih =>
      obtain rfl | ⟨back, x, rfl⟩ := List.eq_nil_or_concat back
      · obtain ⟨front', rfl⟩ := exists_front_of_path before
        have hsplit : front' ++ [p] ++ [v] = front ++ [a] ++ [b] := by
          rw [heq]
          simp
        obtain ⟨hfront, hv⟩ := List.append_inj' hsplit rfl
        obtain ⟨-, hp⟩ := List.append_inj' hfront rfl
        rw [← List.singleton_inj.mp hp, ← List.singleton_inj.mp hv]
        exact neighbour
      · have hsplit : path ++ [v] = (front ++ a :: b :: back) ++ [x] := by
          rw [heq]
          simp
        exact ih (List.append_inj' hsplit rfl).1

theorem lt_nodes_of_path (h : t.WellFormed) (hsource : source < t.nodes)
    (hpath : Path t.reachable parent source path dest) : ∀ x ∈ path, x < t.nodes := by
  induction hpath with
  | root =>
      intro x hx
      rwa [List.mem_singleton.mp hx]
  | snoc before new ne_root step neighbour ih =>
      intro x hx
      obtain ⟨front, rfl⟩ := exists_front_of_path before
      rcases List.mem_append.mp hx with hx | hx
      · exact ih x hx
      · obtain ⟨g, hg, hgv⟩ := List.mem_map.mp (mem_neighbors_of_reachable neighbour)
        rw [List.mem_singleton.mp hx, ← hgv]
        exact h.exists_node _ (ih _ (List.mem_append_right _ (List.mem_singleton_self _))) g hg

theorem length_le_of_path (h : t.WellFormed) (hsource : source < t.nodes)
    (hpath : Path t.reachable parent source path dest) : path.length ≤ t.nodes := by
  have hsub : path ⊆ List.range t.nodes := fun x hx =>
    List.mem_range.mpr (lt_nodes_of_path h hsource hpath x hx)
  have hlength := (List.Nodup.subperm (nodup_of_path hpath) hsub).length_le
  rwa [List.length_range] at hlength

/-- The indices are added from the last hop to the first one. -/
theorem buildNixVector_eq (hpath : Path t.reachable parent source path dest) {fuel : ℕ}
    (hfuel : path.length ≤ fuel) (nixVector : NixVector) :
    t.buildNixVector parent source fuel dest nixVector =
      (nixVector.addAll (t.hops path).reverse).map fun r => (true, r) := by
  induction hpath generalizing fuel nixVector with
  | root =>
      obtain ⟨fuel, rfl⟩ := Nat.exists_eq_succ_of_ne_zero (Nat.ne_of_gt hfuel)
      unfold buildNixVector
      rw [if_pos rfl]
      rfl
  | @snoc path p v before new ne_root step neighbour ih =>
      rw [List.length_append, List.length_singleton] at hfuel
      obtain ⟨fuel, rfl⟩ := Nat.exists_eq_succ_of_ne_zero
        (Nat.ne_of_gt (Nat.lt_of_lt_of_le (Nat.succ_pos _) hfuel))
      obtain ⟨front, rfl⟩ := exists_front_of_path before
      unfold buildNixVector
      rw [if_neg (Ne.symm ne_root), step, hops_concat, List.reverse_append, List.reverse_singleton,
        List.singleton_append, NixVector.addAll, Option.map_bind]
      dsimp only
      refine Option.bind_congr fun next _ => ?_
      rw [ih (Nat.le_of_succ_le_succ hfuel), Option.map_map]
      rfl

theorem mem_hops {item : ℕ × ℕ} (hitem : item ∈ t.hops path) :
    ∃ front a b back, path = front ++ a :: b :: back ∧
      item = (t.destId a b, t.numberOfBits a) := by
  induction path with
  | nil => cases hitem
  | cons a rest ih =>
      cases rest with
      | nil => cases hitem
      | cons b rest =>
          rcases List.mem_cons.mp hitem with rfl | hitem
          · exact ⟨[], a, b, rest, rfl, rfl⟩
          · obtain ⟨front, x, y, back, heq, rfl⟩ := ih hitem
            exact ⟨a :: front, x, y, back, by rw [heq]; rfl, rfl⟩

theorem fits_of_path (h : t.WellFormed) (hsource : source < t.nodes)
    (hpath : Path t.reachable parent source path dest) : NixVector.Fits (t.hops path).reverse := by
  intro item hitem
  obtain ⟨front, a, b, back, heq, rfl⟩ := mem_hops (List.mem_reverse.mp hitem)
  have ha : a ∈ path := by
    rw [heq]
    simp
  obtain ⟨hone, hmax, hfit⟩ := bitCount_spec (h.size a (lt_nodes_of_path h hsource hpath a ha))
  exact ⟨hone, hmax, hfit _ (findNetDeviceForNixIndex_destId (reachable_of_path hpath heq)).1⟩

/-! ## Forwarding -/

/-- No extraction on the path starts at a whole number of words, where `ExtractNeighborIndex` would
shift by 32, and the bits can be counted. -/
def Extractable (t : Topology) (path : List ℕ) : Prop :=
  (∀ first, first <+: (t.hops path).reverse → first ≠ [] → NixVector.totalBits first % 32 ≠ 0) ∧
    NixVector.totalBits (t.hops path).reverse < 2 ^ 32

/-- What `BuildNixVector` adds for a path comes back hop by hop. -/
theorem exists_nixVector (hfits : NixVector.Fits (t.hops path).reverse)
    (hextractable : t.Extractable path) :
    ∃ nix, NixVector.create.addAll (t.hops path).reverse = some nix ∧
      nix.extractAll ((t.hops path).map Prod.snd) = some ((t.hops path).map Prod.fst) := by
  obtain ⟨nix, hadd, hholds⟩ := NixVector.create_holds.addAll hfits
  have hleft := hholds.left
  simp only [Nat.shiftLeft_zero, Nat.zero_or, Nat.zero_add] at hleft
  rw [Nat.mod_eq_of_lt hextractable.2] at hleft
  have hback := (hleft.extractAll_reverse hfits
    (Nat.mod_eq_of_lt (NixVector.stream_lt hfits))).mpr hextractable.1
  rw [List.reverse_reverse] at hback
  exact ⟨nix, hadd, hback⟩

/-- If all indices can be extracted, none of the extractions starts at a whole number of words. -/
theorem prefixes_of_extractAll {items : List (ℕ × ℕ)} (hfits : NixVector.Fits items)
    {nix : NixVector} {bits : ℕ} (h : NixVector.Left nix bits (NixVector.totalBits items))
    {values : List ℕ} (hvalues : nix.extractAll (items.reverse.map Prod.snd) = some values) :
    ∀ first, first <+: items → first ≠ [] → NixVector.totalBits first % 32 ≠ 0 := by
  induction items using List.reverseRecOn generalizing nix values with
  | nil =>
      intro first hfirst hne
      exact absurd (List.prefix_nil.mp hfirst) hne
  | append_singleton init item ih =>
      obtain ⟨hone, hmax, -⟩ := hfits item (by simp)
      rw [NixVector.totalBits_append, NixVector.totalBits_cons, NixVector.totalBits_nil,
        Nat.add_zero] at h
      obtain ⟨hvalue, hnext⟩ := h.extractNeighborIndex hone hmax
      rw [List.reverse_append, List.reverse_singleton, List.singleton_append, List.map_cons,
        NixVector.extractAll, hvalue] at hvalues
      rw [NixVector.prefixes_append_singleton]
      split at hvalues
      next => cases hvalues
      next hmod =>
          obtain ⟨others, hothers, -⟩ := Option.map_eq_some_iff.mp hvalues
          exact ⟨hmod, ih (fun other hother => hfits other (List.mem_append_left _ hother)) hnext
            hothers⟩

theorem extractable_of_extractAll (hfits : NixVector.Fits (t.hops path).reverse) {nix : NixVector}
    (hadd : NixVector.create.addAll (t.hops path).reverse = some nix) {values : List ℕ}
    (hvalues : nix.extractAll ((t.hops path).map Prod.snd) = some values) : t.Extractable path := by
  obtain ⟨final, hfinal, hholds⟩ := NixVector.create_holds.addAll hfits
  obtain rfl := Option.some.inj (hadd.symm.trans hfinal)
  have hleft := hholds.left
  simp only [Nat.shiftLeft_zero, Nat.zero_or, Nat.zero_add] at hleft
  rw [← List.reverse_reverse (t.hops path)] at hvalues
  have hsum := hleft.sum_le hvalues
  rw [List.map_reverse, List.sum_reverse] at hsum
  have hsize : NixVector.totalBits (t.hops path).reverse < 2 ^ 32 :=
    Nat.lt_of_le_of_lt hsum (Nat.mod_lt _ (by decide))
  rw [Nat.mod_eq_of_lt hsize] at hleft
  exact ⟨prefixes_of_extractAll hfits hleft hvalues, hsize⟩

/-- The cached routes of the nodes of a path lead along it. -/
def Follows (t : Topology) (path : List ℕ) (c : Caches) : Prop :=
  ∀ front a b back, path = front ++ a :: b :: back → ∀ rtentry,
    c.ipv4RouteCache a = some rtentry →
      t.findNetDeviceForNixIndex a (t.destId a b) = some rtentry

/-- A vertex occurs once in a path. -/
theorem append_cons_inj {l front front' back back' : List ℕ} {x : ℕ} (hnodup : l.Nodup)
    (h : l = front ++ x :: back) (h' : l = front' ++ x :: back') : back = back' := by
  induction front generalizing front' l with
  | nil =>
      cases front' with
      | nil => exact (List.cons.inj (h.symm.trans h')).2
      | cons y front' =>
          obtain ⟨rfl, hback⟩ := List.cons.inj (h.symm.trans h')
          rw [h, hback] at hnodup
          exact absurd (by simp) (List.nodup_cons.mp hnodup).1
  | cons y front ih =>
      cases front' with
      | nil =>
          obtain ⟨rfl, hback⟩ := List.cons.inj (h.symm.trans h')
          rw [h', ← hback] at hnodup
          exact absurd (by simp) (List.nodup_cons.mp hnodup).1
      | cons y' front' =>
          obtain ⟨rfl, htail⟩ := List.cons.inj (h.symm.trans h')
          rw [h] at hnodup
          exact ih (List.nodup_cons.mp hnodup).2 rfl htail

theorem Follows.update {c : Caches} (hc : t.Follows path c) (hnodup : path.Nodup)
    {front back : List ℕ} (heq : path = front ++ a :: b :: back) {rtentry : Ipv4Route}
    (hfound : t.findNetDeviceForNixIndex a (t.destId a b) = some rtentry)
    (nixCache : ℕ → Option NixVector) :
    t.Follows path ⟨nixCache, Function.update c.ipv4RouteCache a (some rtentry)⟩ := by
  intro front' a' b' back' heq' r hr
  by_cases ha : a' = a
  · subst ha
    obtain ⟨rfl, -⟩ := List.cons.inj (append_cons_inj hnodup heq heq')
    have hsame : some rtentry = some r := by simpa using hr
    rw [← hsame]
    exact hfound
  · have hold : c.ipv4RouteCache a' = some r := by simpa [ha] using hr
    exact hc front' a' b' back' heq' r hold

/-- From any node of the path, the packet goes on along it. -/
theorem forward_eq (hnodup : path.Nodup)
    (hreachable : ∀ front a b back, path = front ++ a :: b :: back → b ∈ t.reachable a)
    {rest front : List ℕ} (heq : path = front ++ a :: rest)
    (hlast : (a :: rest).getLast? = some dest) {nix : NixVector}
    (hextract : nix.extractAll ((t.hops (a :: rest)).map Prod.snd) =
      some ((t.hops (a :: rest)).map Prod.fst))
    {c : Caches} (hc : t.Follows path c) {fuel : ℕ} (hfuel : rest.length < fuel) :
    ∃ c', t.forward dest fuel c a nix = some (a :: rest, c') ∧ t.Follows path c' ∧
      c'.nixCache = c.nixCache := by
  obtain ⟨fuel, rfl⟩ := Nat.exists_eq_succ_of_ne_zero (Nat.ne_of_gt (Nat.zero_lt_of_lt hfuel))
  induction rest generalizing a front nix c fuel with
  | nil =>
      have ha : a = dest := by simpa using hlast
      unfold forward
      rw [if_pos ha]
      exact ⟨c, rfl, hc, rfl⟩
  | cons b rest ih =>
      have hmem : dest ∈ b :: rest := by
        rw [List.getLast?_cons_cons] at hlast
        exact List.mem_of_getLast? hlast
      have hne : a ≠ dest := by
        rintro rfl
        rw [heq] at hnodup
        exact (List.nodup_cons.mp (List.nodup_append.mp hnodup).2.1).1 hmem
      obtain ⟨-, rtentry, hfound, hgateway⟩ :=
        findNetDeviceForNixIndex_destId (hreachable front a b rest heq)
      change (nix.extractNeighborIndex (t.numberOfBits a)).bind _ = _ at hextract
      obtain ⟨⟨k, next⟩, hfirst, hrest⟩ := Option.bind_eq_some_iff.mp hextract
      obtain ⟨others, hothers, hcons⟩ := Option.map_eq_some_iff.mp hrest
      obtain ⟨rfl, rfl⟩ := List.cons.inj hcons
      obtain ⟨c₁, hinput, hc₁, hcache⟩ : ∃ c₁, t.routeInput c a nix = some (rtentry, next, c₁) ∧
          t.Follows path c₁ ∧ c₁.nixCache = c.nixCache := by
        unfold routeInput
        rw [hfirst, Option.bind_some]
        dsimp only
        cases hcached : c.ipv4RouteCache a with
        | some cached =>
            obtain rfl := Option.some.inj (hfound.symm.trans (hc front a b rest heq cached hcached))
            exact ⟨c, rfl, hc, rfl⟩
        | none =>
            rw [hfound]
            exact ⟨_, rfl, hc.update hnodup heq hfound c.nixCache, rfl⟩
      obtain ⟨fuel, rfl⟩ := Nat.exists_eq_succ_of_ne_zero
        (Nat.ne_of_gt (Nat.zero_lt_of_lt (Nat.lt_of_succ_lt_succ hfuel)))
      have heq' : path = (front ++ [a]) ++ b :: rest := by
        rw [heq]
        simp
      obtain ⟨c', hforward, hc', hcache'⟩ := ih heq' (by rwa [List.getLast?_cons_cons] at hlast)
        hothers hc₁ fuel (Nat.lt_of_succ_lt_succ hfuel)
      refine ⟨c', ?_, hc', hcache'.trans hcache⟩
      rw [forward, if_neg hne, hinput, Option.bind_some, hgateway, hforward]
      rfl

theorem routeInput_spec {c c' : Caches} {nix next : NixVector} {rtentry : Ipv4Route}
    (hinput : t.routeInput c a nix = some (rtentry, next, c')) :
    ∃ k, nix.extractNeighborIndex (t.numberOfBits a) = some (k, next) := by
  obtain ⟨⟨k, rest⟩, hfirst, hroute⟩ := Option.bind_eq_some_iff.mp hinput
  dsimp only at hroute
  split at hroute
  next =>
      obtain ⟨-, hrest⟩ := Prod.mk.inj (Option.some.inj hroute)
      exact ⟨k, by rw [hfirst, (Prod.mk.inj hrest).1]⟩
  next =>
      obtain ⟨r, -, heq⟩ := Option.map_eq_some_iff.mp hroute
      obtain ⟨-, hrest⟩ := Prod.mk.inj heq
      exact ⟨k, by rw [hfirst, (Prod.mk.inj hrest).1]⟩

theorem exists_tail_of_forward {fuel : ℕ} {c c' : Caches} {nix : NixVector}
    (hforward : t.forward dest fuel c a nix = some (path, c')) : ∃ rest, path = a :: rest := by
  cases fuel with
  | zero => cases hforward
  | succ fuel =>
      unfold forward at hforward
      split at hforward
      next => exact ⟨[], (Prod.mk.inj (Option.some.inj hforward)).1.symm⟩
      next =>
          obtain ⟨r, -, hmap⟩ := Option.bind_eq_some_iff.mp hforward
          obtain ⟨passed, -, heq⟩ := Option.map_eq_some_iff.mp hmap
          exact ⟨passed.1, (Prod.mk.inj heq).1.symm⟩

/-- A packet that is forwarded gives an index at every node but the last one. -/
theorem extractAll_of_forward {rest : List ℕ} {fuel : ℕ} {c c' : Caches} {nix : NixVector}
    (hforward : t.forward dest fuel c a nix = some (a :: rest, c')) :
    ∃ values, nix.extractAll ((t.hops (a :: rest)).map Prod.snd) = some values := by
  induction fuel generalizing a rest c nix with
  | zero => cases hforward
  | succ fuel ih =>
      unfold forward at hforward
      split at hforward
      next =>
          obtain ⟨hlist, -⟩ := Prod.mk.inj (Option.some.inj hforward)
          rw [← hlist]
          exact ⟨[], rfl⟩
      next =>
          obtain ⟨⟨rtentry, next, c₁⟩, hinput, hmap⟩ := Option.bind_eq_some_iff.mp hforward
          obtain ⟨⟨passed, c₂⟩, hpassed, heq⟩ := Option.map_eq_some_iff.mp hmap
          obtain ⟨hlist, rfl⟩ := Prod.mk.inj heq
          obtain ⟨-, rfl⟩ := List.cons.inj hlist
          obtain ⟨rest', rfl⟩ := exists_tail_of_forward hpassed
          obtain ⟨k, hfirst⟩ := routeInput_spec hinput
          obtain ⟨values, hvalues⟩ := ih hpassed
          refine ⟨k :: values, ?_⟩
          change (nix.extractNeighborIndex (t.numberOfBits a)).bind _ = _
          rw [hfirst, Option.bind_some]
          dsimp only
          rw [hvalues]
          rfl

theorem extractAll_of_send {c c' : Caches} {nix : NixVector}
    (hnix : (c.nixCache source).or (t.getNixVector source dest) = some nix)
    (hsend : t.send c source dest = some (path, c')) :
    ∃ values, nix.extractAll ((t.hops path).map Prod.snd) = some values := by
  obtain ⟨⟨rtentry, next, c₁⟩, houtput, hmap⟩ := Option.bind_eq_some_iff.mp hsend
  obtain ⟨⟨passed, c₂⟩, hpassed, heq⟩ := Option.map_eq_some_iff.mp hmap
  obtain ⟨rfl, -⟩ := Prod.mk.inj heq
  unfold routeOutput at houtput
  rw [hnix, Option.bind_some] at houtput
  obtain ⟨⟨k, rest⟩, hfirst, hroute⟩ := Option.bind_eq_some_iff.mp houtput
  obtain ⟨r, -, hr⟩ := Option.map_eq_some_iff.mp hroute
  obtain ⟨-, hrest⟩ := Prod.mk.inj hr
  obtain ⟨rfl, -⟩ := Prod.mk.inj hrest
  dsimp only at hpassed
  obtain ⟨rest', rfl⟩ := exists_tail_of_forward hpassed
  obtain ⟨values, hvalues⟩ := extractAll_of_forward hpassed
  refine ⟨k :: values, ?_⟩
  change (nix.extractNeighborIndex (t.numberOfBits source)).bind _ = _
  rw [hfirst, Option.bind_some]
  dsimp only
  rw [hvalues]
  rfl

/-! ## Sending -/

/-- The caches of the nodes when the source has sent by this nix-vector only. -/
structure Serves (t : Topology) (source : ℕ) (path : List ℕ) (nix : NixVector) (c : Caches) :
    Prop where
  follows : t.Follows path c
  cached : ∀ other, c.nixCache source = some other → other = nix

theorem getNixVector_eq (h : t.WellFormed) (hsource : source < t.nodes) (hne : source ≠ dest)
    {search : Search ℕ}
    (hrun : Search.run t.reachable dest (t.nodes + 1) (Search.start source) = some search)
    (hpath : Path t.reachable search.parent source path dest) {nix : NixVector}
    (hadd : NixVector.create.addAll (t.hops path).reverse = some nix) :
    t.getNixVector source dest = some nix := by
  have hlength := length_le_of_path h hsource hpath
  unfold getNixVector
  rw [if_neg hne, hrun, Option.bind_some, buildNixVector_eq hpath (Nat.le_succ_of_le hlength), hadd]
  rfl

theorem send_spec (h : t.WellFormed) (hsource : source < t.nodes) (hne : source ≠ dest)
    (hpath : Path t.reachable parent source path dest) {nix : NixVector}
    (hnix : t.getNixVector source dest = some nix)
    (hextract : nix.extractAll ((t.hops path).map Prod.snd) = some ((t.hops path).map Prod.fst))
    {c : Caches} (hc : t.Serves source path nix c) :
    ∃ c', t.send c source dest = some (path, c') ∧ t.Serves source path nix c' := by
  have hnodup := nodup_of_path hpath
  have hlength := length_le_of_path h hsource hpath
  have hreachable : ∀ front a b back, path = front ++ a :: b :: back → b ∈ t.reachable a :=
    fun front a b back heq => reachable_of_path hpath heq
  have hlast : path.getLast? = some dest := by
    obtain ⟨front, rfl⟩ := exists_front_of_path hpath
    exact List.getLast?_concat
  obtain ⟨rest, hrest⟩ := exists_tail_of_path hpath
  cases rest with
  | nil =>
      rw [hrest] at hlast
      exact absurd (Option.some.inj hlast) hne
  | cons b rest =>
      rw [hrest] at hextract hlast hlength
      have hor : (c.nixCache source).or (t.getNixVector source dest) = some nix := by
        cases hcached : c.nixCache source with
        | none => exact hnix
        | some other =>
            rw [hc.cached other hcached]
            rfl
      obtain ⟨-, rtentry, hfound, hgateway⟩ :=
        findNetDeviceForNixIndex_destId (hreachable [] source b rest hrest)
      change (nix.extractNeighborIndex (t.numberOfBits source)).bind _ = _ at hextract
      obtain ⟨⟨k, next⟩, hfirst, hmap⟩ := Option.bind_eq_some_iff.mp hextract
      obtain ⟨others, hothers, hcons⟩ := Option.map_eq_some_iff.mp hmap
      obtain ⟨rfl, rfl⟩ := List.cons.inj hcons
      rw [List.getLast?_cons_cons] at hlast
      have hnil : path = [] ++ source :: b :: rest := hrest
      have hfollows := hc.follows.update hnodup hnil hfound
        (Function.update c.nixCache source (some nix))
      have hsplit : path = [source] ++ b :: rest := hrest
      have hfuel : rest.length < t.nodes := Nat.lt_of_succ_lt (Nat.lt_of_succ_le hlength)
      obtain ⟨c', hforward, hfollows', hcache⟩ :=
        forward_eq hnodup hreachable hsplit hlast hothers hfollows hfuel
      refine ⟨c', ?_, hfollows', fun other hother => ?_⟩
      · unfold send routeOutput
        rw [hor, Option.bind_some, hfirst, Option.bind_some]
        dsimp only
        rw [hfound, Option.map_some, Option.bind_some]
        dsimp only
        rw [hgateway, hforward, hrest]
        rfl
      · rw [hcache] at hother
        simpa using hother.symm

/-- Another packet is sent. -/
def step (t : Topology) (source dest : ℕ) (c : Caches) (_ : Unit) : Option Caches :=
  (t.send c source dest).map Prod.snd

/-- The search finds a path with the least number of hops in its parent vector. All packets of the
flow follow this path to the destination if and only if no extraction on it starts at a whole number
of words. -/
theorem nixVector_delivers (h : t.WellFormed) (hsource : source < t.nodes) (hne : source ≠ dest)
    {cost : ℕ} (hwalk : Walk (Step t.reachable) source dest cost) :
    ∃ search path,
      Search.run t.reachable dest (t.nodes + 1) (Search.start source) = some search ∧
      Path t.reachable search.parent source path dest ∧
      path.head? = some source ∧ path.getLast? = some dest ∧
      (∀ front a b back, path = front ++ a :: b :: back → b ∈ t.reachable a) ∧
        (∀ k, Walk (Step t.reachable) source dest k → path.length ≤ k + 1) ∧
          ((∀ packets, StepSystem.Throughout (t.step source dest)
            (fun c => (t.send c source dest).map Prod.fst = some path) Caches.flushed packets) ↔
              t.Extractable path) := by
  have hclosed : ∀ v ∈ List.range t.nodes, ∀ w ∈ t.reachable v, w ∈ List.range t.nodes := by
    intro v hv w hw
    obtain ⟨g, hg, rfl⟩ := List.mem_map.mp (mem_neighbors_of_reachable hw)
    exact List.mem_range.mpr (h.exists_node v (List.mem_range.mp hv) g hg)
  obtain ⟨search, path, hrun, hpath, hleast⟩ := exists_path_of_walk (List.mem_range.mpr hsource)
    hclosed hwalk (show (List.range t.nodes).length < t.nodes + 1 + 1 by
      rw [List.length_range]
      omega)
  have hfits := fits_of_path h hsource hpath
  refine ⟨search, path, hrun, hpath, ?_, ?_, fun front a b back heq => reachable_of_path hpath heq,
    hleast, fun hall => ?_, fun hextractable packets => ?_⟩
  · obtain ⟨rest, rfl⟩ := exists_tail_of_path hpath
    rfl
  · obtain ⟨front, rfl⟩ := exists_front_of_path hpath
    exact List.getLast?_concat
  · obtain ⟨nix, hadd, -⟩ := NixVector.create_holds.addAll hfits
    have hnix := getNixVector_eq h hsource hne hrun hpath hadd
    obtain ⟨⟨passed, c'⟩, hsend, rfl⟩ := Option.map_eq_some_iff.mp (hall [] [] [] _ rfl rfl)
    have hor : (Caches.flushed.nixCache source).or (t.getNixVector source dest) = some nix := hnix
    obtain ⟨values, hvalues⟩ := extractAll_of_send hor hsend
    exact extractable_of_extractAll hfits hadd hvalues
  · obtain ⟨nix, hadd, hextract⟩ := exists_nixVector hfits hextractable
    have hnix := getNixVector_eq h hsource hne hrun hpath hadd
    refine (StepSystem.throughout_of_invariant (I := t.Serves source path nix) ?_ ?_ packets).mono
      fun c hc => ?_
    · intro c packet next hc hstep
      obtain ⟨c', hsend, hc'⟩ := send_spec h hsource hne hpath hnix hextract hc
      unfold step at hstep
      rw [hsend] at hstep
      obtain rfl := Option.some.inj hstep
      exact hc'
    · exact ⟨fun _ _ _ _ _ _ hcached => (Option.some_ne_none _ hcached.symm).elim,
        fun _ hother => (Option.some_ne_none _ hother.symm).elim⟩
    · obtain ⟨c', hsend, -⟩ := send_spec h hsource hne hpath hnix hextract hc
      rw [hsend]
      rfl

end Topology

/-- A ring of four nodes, with channel `i` from node `i` to the next one. -/
def ring : Topology where
  nodes := 4
  devices node := [⟨true, some node⟩, ⟨true, some ((node + 3) % 4)⟩]
  channelDevices channel := [(channel, 0), ((channel + 1) % 4, 1)]

theorem nixVector_delivers_ring :
    ∃ search path, Search.run ring.reachable 2 5 (Search.start 0) = some search ∧
      Path ring.reachable search.parent 0 path 2 ∧
      path.head? = some 0 ∧ path.getLast? = some 2 ∧
      (∀ front a b back, path = front ++ a :: b :: back → b ∈ ring.reachable a) ∧
        (∀ k, Walk (Step ring.reachable) 0 2 k → path.length ≤ k + 1) ∧
          ((∀ packets, StepSystem.Throughout (ring.step 0 2)
            (fun c => (ring.send c 0 2).map Prod.fst = some path) Caches.flushed packets) ↔
              ring.Extractable path) :=
  Topology.nixVector_delivers ⟨by decide, by decide⟩ (by decide) (by decide)
    ((Walk.nil.snoc (v := 0) (w := 1) ⟨by decide, rfl⟩).snoc (w := 2) ⟨by decide, rfl⟩)

example : (ring.send Caches.flushed 0 2).map Prod.fst = some [0, 1, 2] := by decide

end Ns3Rdma.NixVectorRouting
