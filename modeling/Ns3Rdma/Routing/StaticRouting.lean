import Mathlib.Data.List.Induction
import Ns3Rdma.Routing.GlobalRouteManager

/-! # Looking up a static route

`LookupStatic` goes over the network routes once and keeps the longest mask and the shortest metric
for it. -/

namespace Ns3Rdma.Routing

structure Ipv4Mask where
  mask : UInt32
deriving DecidableEq

namespace Ipv4Mask

variable (m : Ipv4Mask)

def isMatch (a b : Ipv4Address) : Bool := a &&& m.mask = b &&& m.mask

/-- The loop of `GetPrefixLength`, which takes one bit at a time. -/
def prefixLoop : ℕ → UInt32 → UInt16 → UInt16
  | 0, _, tmp => tmp
  | bits + 1, mask, tmp => if mask ≠ 0 then prefixLoop bits (mask <<< 1) (tmp + 1) else tmp

def getPrefixLength : UInt16 := prefixLoop 32 m.mask 0

/-- The number of ones. -/
def ones : ℕ := (List.range 32).countP fun i => m.mask.toNat.testBit i

/-- The contiguous mask with `n` ones. -/
def leading (n : ℕ) : Ipv4Mask := ⟨UInt32.ofNat (2 ^ 32 - 2 ^ (32 - n))⟩

def Contiguous : Prop := ∃ n ≤ 32, m = leading n

theorem getPrefixLength_leading : ∀ n ≤ 32,
    ((leading n).getPrefixLength).toNat = n ∧ (leading n).ones = n := by
  decide +kernel

theorem Contiguous.getPrefixLength {m : Ipv4Mask} (h : m.Contiguous) :
    m.getPrefixLength.toNat = m.ones := by
  obtain ⟨n, hn, rfl⟩ := h
  exact (getPrefixLength_leading n hn).1.trans (getPrefixLength_leading n hn).2.symm

end Ipv4Mask

structure Ipv4RoutingTableEntry where
  dest : Ipv4Address
  destNetworkMask : Ipv4Mask
  gateway : Ipv4Address
  interface : UInt32
deriving DecidableEq

/-- An element of `m_networkRoutes`: the entry and its metric. -/
structure NetworkRoute where
  entry : Ipv4RoutingTableEntry
  metric : UInt32
deriving DecidableEq

structure Ipv4Route (NetDevice : Type) where
  destination : Ipv4Address
  source : Ipv4Address
  gateway : Ipv4Address
  outputDevice : NetDevice
deriving DecidableEq

/-- What the lookup asks the node for. -/
structure Ipv4 (NetDevice : Type) where
  getNetDevice : UInt32 → NetDevice
  /-- The first address of the interface of a device. -/
  getLocal : NetDevice → Ipv4Address
  sourceAddressSelection : UInt32 → Ipv4Address → Ipv4Address

def isLocalMulticast (dest : Ipv4Address) : Bool := dest &&& 0xffffff00 = 0xe0000000

namespace StaticRouting

/-- The variables of the loop. -/
structure Search (NetDevice : Type) where
  longestMask : UInt16
  shortestMetric : UInt32
  rtentry : Option (Ipv4Route NetDevice)

variable {NetDevice : Type} [DecidableEq NetDevice] (ipv4 : Ipv4 NetDevice)
  (dest : Ipv4Address) (oif : Option NetDevice)

def routeOf (j : Ipv4RoutingTableEntry) : Ipv4Route NetDevice where
  destination := j.dest
  source := ipv4.sourceAddressSelection j.interface j.dest
  gateway := j.gateway
  outputDevice := ipv4.getNetDevice j.interface

/-- Whether an entry matches the destination and, if there is one, the requested device. -/
def matching (j : Ipv4RoutingTableEntry) : Bool :=
  j.destNetworkMask.isMatch dest j.dest &&
    oif.all fun oif => oif = ipv4.getNetDevice j.interface

/-- One pass through the loop of `LookupStatic`. -/
def consider (s : Search NetDevice) (i : NetworkRoute) : Search NetDevice :=
  let masklen := i.entry.destNetworkMask.getPrefixLength
  if i.entry.destNetworkMask.isMatch dest i.entry.dest then
    if oif.any fun oif => oif ≠ ipv4.getNetDevice i.entry.interface then s
    else if masklen < s.longestMask then s
    else
      let shortestMetric := if masklen > s.longestMask then 0xffffffff else s.shortestMetric
      if i.metric > shortestMetric then
        { s with longestMask := masklen, shortestMetric := shortestMetric }
      else ⟨masklen, i.metric, some (routeOf ipv4 i.entry)⟩
  else s

/-- `LookupStatic`; `none` is a failed assertion. -/
def lookupStatic (networkRoutes : List NetworkRoute) :
    Option (Option (Ipv4Route NetDevice)) :=
  if isLocalMulticast dest then
    oif.map fun oif => some ⟨dest, ipv4.getLocal oif, 0, oif⟩
  else
    some (networkRoutes.foldl (consider ipv4 dest oif) ⟨0, 0xffffffff, none⟩).rtentry

/-! ## The best route -/

/-- A route is better than another one with a longer mask, or with as long a mask and a smaller
metric. -/
def Better (a b : NetworkRoute) : Prop :=
  b.entry.destNetworkMask.ones < a.entry.destNetworkMask.ones ∨
    (b.entry.destNetworkMask.ones = a.entry.destNetworkMask.ones ∧ a.metric < b.metric)

/-- `r` is the last one of the best routes for a destination and a device. -/
structure LastBest (routes : List NetworkRoute) (r : NetworkRoute) : Prop where
  matches_dest : matching ipv4 dest oif r.entry = true
  split : ∃ before after, routes = before ++ r :: after ∧
    (∀ x ∈ before, matching ipv4 dest oif x.entry = true → ¬ Better x r) ∧
    ∀ x ∈ after, matching ipv4 dest oif x.entry = true → Better r x

/-- What the variables of the loop hold after the routes. -/
def Found (routes : List NetworkRoute) (s : Search NetDevice) : Prop :=
  (s = ⟨0, 0xffffffff, none⟩ ∧ ∀ x ∈ routes, matching ipv4 dest oif x.entry = false) ∨
    ∃ r, LastBest ipv4 dest oif routes r ∧
      s = ⟨r.entry.destNetworkMask.getPrefixLength, r.metric, some (routeOf ipv4 r.entry)⟩

variable {ipv4 dest oif} {routes : List NetworkRoute} {r i : NetworkRoute} {s : Search NetDevice}

/-- An entry that does not match leaves the variables as they are. -/
theorem consider_not_matching (h : matching ipv4 dest oif i.entry = false) :
    consider ipv4 dest oif s i = s := by
  unfold consider
  by_cases hmatch : i.entry.destNetworkMask.isMatch dest i.entry.dest = true
  · cases oif with
    | none => simp [matching, hmatch] at h
    | some oif =>
        have hdev : oif ≠ ipv4.getNetDevice i.entry.interface := by simpa [matching, hmatch] using h
        simp [hmatch, hdev]
  · simp [hmatch]

/-- A matching entry is compared with the mask and the metric kept so far. -/
theorem consider_matching (h : matching ipv4 dest oif i.entry = true) :
    consider ipv4 dest oif s i =
      let masklen := i.entry.destNetworkMask.getPrefixLength
      if masklen < s.longestMask then s
      else
        let shortestMetric := if masklen > s.longestMask then 0xffffffff else s.shortestMetric
        if i.metric > shortestMetric then
          { s with longestMask := masklen, shortestMetric := shortestMetric }
        else ⟨masklen, i.metric, some (routeOf ipv4 i.entry)⟩ := by
  obtain ⟨hmatch, hdev⟩ := Bool.and_eq_true_iff.mp h
  have hany : (oif.any fun oif => oif ≠ ipv4.getNetDevice i.entry.interface) = false := by
    cases oif with
    | none => rfl
    | some oif => simpa using hdev
  unfold consider
  simp only [hmatch, hany, if_true, Bool.false_eq_true, if_false]

/-- A route behind the best one that is not taken is worse. -/
theorem LastBest.keep (h : LastBest ipv4 dest oif routes r)
    (hi : matching ipv4 dest oif i.entry = true → Better r i) :
    LastBest ipv4 dest oif (routes ++ [i]) r := by
  obtain ⟨hmatch, before, after, rfl, hbefore, hafter⟩ := h
  refine ⟨hmatch, before, after ++ [i], by simp, hbefore, ?_⟩
  intro x hx
  rcases List.mem_append.mp hx with hx | hx
  · exact hafter x hx
  · exact List.mem_singleton.mp hx ▸ hi

/-- A route that none of the matching ones before is better than is taken. -/
theorem LastBest.take (hmatch : matching ipv4 dest oif i.entry = true)
    (h : ∀ x ∈ routes, matching ipv4 dest oif x.entry = true → ¬ Better x i) :
    LastBest ipv4 dest oif (routes ++ [i]) i :=
  ⟨hmatch, routes, [], rfl, h, by simp⟩

/-- What is not better than the best route is not better than one that is as good. -/
theorem LastBest.not_better (h : LastBest ipv4 dest oif routes r) (hle : ¬ Better r i)
    {x : NetworkRoute} (hx : x ∈ routes) (hmatch : matching ipv4 dest oif x.entry = true) :
    ¬ Better x i := by
  obtain ⟨_, before, after, rfl, hbefore, hafter⟩ := h
  have htrans : ¬ Better x r → ¬ Better x i := by
    unfold Better at *
    simp only [UInt32.lt_iff_toNat_lt] at *
    omega
  rcases List.mem_append.mp hx with hx | hx
  · exact htrans (hbefore x hx hmatch)
  · rcases List.mem_cons.mp hx with rfl | hx
    · exact hle
    · have := hafter x hx hmatch
      unfold Better at *
      simp only [UInt32.lt_iff_toNat_lt] at *
      omega

theorem not_gt_infinity (metric : UInt32) : ¬ metric > 0xffffffff := by
  have hlt := metric.toNat_lt
  simp only [gt_iff_lt, UInt32.lt_iff_toNat_lt, UInt32.reduceToNat]
  omega

/-- The first matching entry is taken. -/
theorem consider_first (hmatch : matching ipv4 dest oif i.entry = true) :
    consider ipv4 dest oif ⟨0, 0xffffffff, none⟩ i =
      ⟨i.entry.destNetworkMask.getPrefixLength, i.metric, some (routeOf ipv4 i.entry)⟩ := by
  rw [consider_matching hmatch]
  have hmask : ¬ i.entry.destNetworkMask.getPrefixLength < 0 := by
    simp [UInt16.lt_iff_toNat_lt]
  simp only [hmask, if_false, ite_self, not_gt_infinity]

section Kept

variable (hmatch : matching ipv4 dest oif i.entry = true)
  (hi : i.entry.destNetworkMask.Contiguous) (hr : r.entry.destNetworkMask.Contiguous)
include hmatch hi hr

/-- A matching entry leaves a better route in place. -/
theorem consider_of_better (hbetter : Better r i) :
    consider ipv4 dest oif
        ⟨r.entry.destNetworkMask.getPrefixLength, r.metric, some (routeOf ipv4 r.entry)⟩ i =
      ⟨r.entry.destNetworkMask.getPrefixLength, r.metric, some (routeOf ipv4 r.entry)⟩ := by
  rw [consider_matching hmatch]
  have hlenI := hi.getPrefixLength
  have hlenR := hr.getPrefixLength
  rcases hbetter with hshort | ⟨hones, hmetric⟩
  · have hlt : i.entry.destNetworkMask.getPrefixLength <
        r.entry.destNetworkMask.getPrefixLength := by
      rw [UInt16.lt_iff_toNat_lt]
      omega
    simp only [hlt, if_true]
  · have hlen : i.entry.destNetworkMask.getPrefixLength =
        r.entry.destNetworkMask.getPrefixLength :=
      UInt16.toNat.inj (hlenI.trans (hones.trans hlenR.symm))
    have hsame : ¬ r.entry.destNetworkMask.getPrefixLength <
        r.entry.destNetworkMask.getPrefixLength := UInt16.lt_irrefl _
    simp only [hlen, hsame, gt_iff_lt, hmetric, if_true, if_false]

/-- A matching entry replaces every other route. -/
theorem consider_of_not_better (hworse : ¬ Better r i) :
    consider ipv4 dest oif
        ⟨r.entry.destNetworkMask.getPrefixLength, r.metric, some (routeOf ipv4 r.entry)⟩ i =
      ⟨i.entry.destNetworkMask.getPrefixLength, i.metric, some (routeOf ipv4 i.entry)⟩ := by
  rw [consider_matching hmatch]
  have hlenI := hi.getPrefixLength
  have hlenR := hr.getPrefixLength
  unfold Better at hworse
  rw [not_or] at hworse
  obtain ⟨hlong, hmetric⟩ := hworse
  have hshort : ¬ i.entry.destNetworkMask.getPrefixLength <
      r.entry.destNetworkMask.getPrefixLength := by
    rw [UInt16.lt_iff_toNat_lt]
    omega
  simp only [hshort, if_false]
  by_cases hgt : i.entry.destNetworkMask.getPrefixLength >
      r.entry.destNetworkMask.getPrefixLength
  · simp only [hgt, if_true, not_gt_infinity, if_false]
  · have hones : i.entry.destNetworkMask.ones = r.entry.destNetworkMask.ones := by
      rw [gt_iff_lt, UInt16.lt_iff_toNat_lt] at hgt
      omega
    have hle : ¬ i.metric > r.metric := fun hlt => hmetric ⟨hones, hlt⟩
    simp only [hgt, if_false, hle]

end Kept

/-- One pass through the loop keeps the best route. -/
theorem Found.consider (h : Found ipv4 dest oif routes s)
    (hroutes : ∀ x ∈ routes ++ [i], x.entry.destNetworkMask.Contiguous) :
    Found ipv4 dest oif (routes ++ [i]) (consider ipv4 dest oif s i) := by
  cases hmatch : matching ipv4 dest oif i.entry with
  | false =>
      rw [consider_not_matching hmatch]
      rcases h with ⟨rfl, hnone⟩ | ⟨r, hr, rfl⟩
      · refine .inl ⟨rfl, ?_⟩
        intro x hx
        rcases List.mem_append.mp hx with hx | hx
        · exact hnone x hx
        · exact List.mem_singleton.mp hx ▸ hmatch
      · exact .inr ⟨r, hr.keep fun h => absurd (h.symm.trans hmatch) (by simp), rfl⟩
  | true =>
      rcases h with ⟨rfl, hnone⟩ | ⟨r, hr, rfl⟩
      · have htake : LastBest ipv4 dest oif (routes ++ [i]) i :=
          .take hmatch fun x hx hmatch => absurd (hmatch.symm.trans (hnone x hx)) (by simp)
        exact .inr ⟨i, htake, consider_first hmatch⟩
      · have hin : r ∈ routes := by
          obtain ⟨_, before, after, rfl, _⟩ := hr
          simp
        have hmaskI := hroutes i (by simp)
        have hmaskR := hroutes r (by simp [hin])
        by_cases hbetter : Better r i
        · exact .inr ⟨r, hr.keep fun _ => hbetter, consider_of_better hmatch hmaskI hmaskR hbetter⟩
        · exact .inr ⟨i, .take hmatch fun x hx => hr.not_better hbetter hx,
            consider_of_not_better hmatch hmaskI hmaskR hbetter⟩

variable (ipv4 dest oif) in
theorem found_foldl (hroutes : ∀ x ∈ routes, x.entry.destNetworkMask.Contiguous) :
    Found ipv4 dest oif routes
      (routes.foldl (StaticRouting.consider ipv4 dest oif) ⟨0, 0xffffffff, none⟩) := by
  induction routes using List.reverseRecOn with
  | nil => exact .inl ⟨rfl, by simp⟩
  | append_singleton routes i ih =>
      rw [List.foldl_concat]
      exact (ih fun x hx => hroutes x (List.mem_append_left _ hx)).consider hroutes

variable (ipv4 dest oif)

/-- A lookup finds a route if and only if an entry matches, and then the last inserted one of those
with the longest mask and, among these, the smallest metric. -/
theorem lookupStatic_longest (networkRoutes : List NetworkRoute)
    (hroutes : ∀ x ∈ networkRoutes, x.entry.destNetworkMask.Contiguous)
    (hdest : isLocalMulticast dest = false) :
    ∃ rtentry, lookupStatic ipv4 dest oif networkRoutes = some rtentry ∧
      (rtentry.isSome = true ↔
        ∃ x ∈ networkRoutes, matching ipv4 dest oif x.entry = true) ∧
      ∀ route, rtentry = some route →
        ∃ r, LastBest ipv4 dest oif networkRoutes r ∧ route = routeOf ipv4 r.entry := by
  unfold lookupStatic
  rw [if_neg (by simp [hdest])]
  refine ⟨_, rfl, ?_⟩
  rcases found_foldl ipv4 dest oif hroutes with ⟨hs, hnone⟩ | ⟨r, hr, hs⟩
  · rw [hs]
    refine ⟨⟨by simp, ?_⟩, by simp⟩
    rintro ⟨x, hx, hmatch⟩
    exact absurd (hmatch.symm.trans (hnone x hx)) (by simp)
  · rw [hs]
    refine ⟨⟨fun _ => ?_, fun _ => rfl⟩, fun route h => ⟨r, hr, (Option.some_inj.mp h).symm⟩⟩
    obtain ⟨hmatch, before, after, rfl, _⟩ := hr
    exact ⟨r, by simp, hmatch⟩

/-- Of two equal routes to 10.1.0.0/16, one of them behind a default route, the last is taken. -/
theorem lookupStatic_longest_tie :
    let ipv4 : Ipv4 UInt32 := ⟨id, id, fun _ _ => 0⟩
    let route (gateway : Ipv4Address) : NetworkRoute :=
      ⟨⟨0x0a010000, .leading 16, gateway, 1⟩, 0xffffffff⟩
    let networkRoutes := [route 5, ⟨⟨0, .leading 0, 6, 1⟩, 0⟩, route 7]
    ∃ rtentry, lookupStatic ipv4 0x0a010203 none networkRoutes = some rtentry ∧
      (rtentry.isSome = true ↔
        ∃ x ∈ networkRoutes, matching ipv4 0x0a010203 none x.entry = true) ∧
      ∀ r, rtentry = some r →
        ∃ x, LastBest ipv4 0x0a010203 none networkRoutes x ∧ r = routeOf ipv4 x.entry := by
  intro ipv4 route networkRoutes
  refine lookupStatic_longest ipv4 0x0a010203 none networkRoutes ?_ (by decide)
  intro x hx
  rcases List.mem_cons.mp hx with rfl | hx
  · exact ⟨16, by decide, rfl⟩
  · rcases List.mem_cons.mp hx with rfl | hx
    · exact ⟨0, by decide, rfl⟩
    · exact ⟨16, by decide, congrArg _ (congrArg _ (List.mem_singleton.mp hx))⟩

end StaticRouting

end Ns3Rdma.Routing
