import Ns3Rdma.Net.Ipv6Reassembly

/-!
# Reassembly timeouts

`Process` schedules a timeout when it creates a collection and cancels it when the collection is
entire. `HandleFragmentsTimeout` sends the part of the packet that has arrived back and clears the
collection. `none` stands for a failed assertion or a null pointer that is dereferenced.
-/

namespace Ns3Rdma.Ipv6

open StepSystem

namespace Fragments

variable (q : Fragments)

/-- The loop of `GetPartialPacket`, which stops at the first gap. -/
def partialLoop (lastEndOffset : UInt16) : List (List UInt8 × UInt16) → List UInt8
  | [] => []
  | it :: rest =>
      if lastEndOffset ≠ it.2 then []
      else it.1 ++ partialLoop (lastEndOffset + UInt16.ofNat it.1.length) rest

/-- `GetPartialPacket`; `none` is the null pointer. -/
def getPartialPacket : Option (List UInt8) :=
  q.unfragmentable.map fun p => p ++ partialLoop 0 q.packetFragments

end Fragments

/-- A scheduled `HandleFragmentsTimeout`. -/
structure Timeout where
  eventId : ℕ
  fragmentsId : FragmentsId
  ipHeader : Ipv6Header

/-- The collections with the events of their timeouts, the events that are pending, and the number
of the next event. -/
structure Reassembler where
  fragments : FragmentsId → Option (Fragments × ℕ)
  pending : List Timeout
  nextEvent : ℕ

namespace Reassembler

def new : Reassembler := ⟨fun _ => none, [], 0⟩

variable (s : Reassembler)

/-- The collection of a fragment, created with a timeout if there is none. -/
def find (fragmentsId : FragmentsId) (ipHeader : Ipv6Header) : Reassembler × Fragments × ℕ :=
  match s.fragments fragmentsId with
  | some found => (s, found)
  | none =>
      ({ fragments := Function.update s.fragments fragmentsId (some (.new, s.nextEvent))
         pending := ⟨s.nextEvent, fragmentsId, ipHeader⟩ :: s.pending
         nextEvent := s.nextEvent + 1 }, .new, s.nextEvent)

/-- The end of `Process`: an entire collection is taken out and its timeout cancelled. -/
def store (fragmentsId : FragmentsId) (added : Fragments) (eventId : ℕ) :
    Option (Reassembler × Option (List UInt8)) :=
  if added.isEntire then
    added.getPacket.map fun entire =>
      ({ s with
         fragments := Function.update s.fragments fragmentsId none
         pending := s.pending.filter fun t => t.eventId ≠ eventId }, some entire)
  else
    some ({ s with
      fragments := Function.update s.fragments fragmentsId (some (added, eventId)) }, none)

/-- `Process`, for a fragment header at the position `offset`. -/
def process (packet : Ipv6Packet) (offset : UInt8) : Option (Reassembler × Option (List UInt8)) :=
  (FragmentHeader.removeHeader (packet.bytes.drop offset.toNat)).bind fun (fragmentHeader, p) =>
    let fragmentsId := (packet.header.source, fragmentHeader.identification)
    let found := s.find fragmentsId { packet.header with nextHeader := fragmentHeader.nextHeader }
    let fragments :=
      if fragmentHeader.getOffset = 0 then
        found.2.1.setUnfragmentablePart (packet.bytes.take offset.toNat)
      else found.2.1
    found.1.store fragmentsId
      (fragments.addFragment p fragmentHeader.getOffset fragmentHeader.getMoreFragment) found.2.2

/-- `HandleFragmentsTimeout`: the state afterwards, and the packet that is sent back and dropped. -/
def handleFragmentsTimeout (t : Timeout) : Option (Reassembler × Ipv6Packet) :=
  (s.fragments t.fragmentsId).bind fun fragments =>
    fragments.1.getPartialPacket.map fun packet =>
      ({ s with fragments := Function.update s.fragments t.fragmentsId none },
        ⟨t.ipHeader, packet⟩)

inductive Event
  | arrive (packet : Ipv6Packet) (offset : UInt8)
  | fire (eventId : ℕ)

/-- An event that fires is not pending any more. -/
def expire (eventId : ℕ) : Reassembler :=
  { s with pending := s.pending.filter fun t => t.eventId ≠ eventId }

def step : Event → Option Reassembler
  | .arrive packet offset => (s.process packet offset).map Prod.fst
  | .fire eventId =>
      (s.pending.find? fun t => t.eventId = eventId).bind fun t =>
        ((s.expire eventId).handleFragmentsTimeout t).map Prod.fst

/-! ## The collections are those without timeouts -/

/-- The collections without their timeouts. -/
def collections : FragmentsId → Option Fragments := fun id => (s.fragments id).map Prod.fst

theorem collections_update (m : FragmentsId → Option (Fragments × ℕ)) (id : FragmentsId)
    (v : Option (Fragments × ℕ)) : (fun x => (Function.update m id v x).map Prod.fst) =
      Function.update (fun x => (m x).map Prod.fst) id (v.map Prod.fst) := by
  funext x
  by_cases hx : x = id
  · rw [hx, Function.update_self, Function.update_self]
  · rw [Function.update_of_ne hx, Function.update_of_ne hx]

theorem collections_find (id : FragmentsId) (ipHeader : Ipv6Header) :
    (s.find id ipHeader).2.1 = (s.collections id).getD .new ∧
      ∀ v, Function.update (s.find id ipHeader).1.collections id v =
        Function.update s.collections id v := by
  unfold find collections
  cases s.fragments id with
  | some found => exact ⟨rfl, fun v => rfl⟩
  | none =>
      refine ⟨rfl, fun v => ?_⟩
      dsimp only
      rw [collections_update, Function.update_idem]

theorem collections_store (id : FragmentsId) (added : Fragments) (eventId : ℕ) :
    (s.store id added eventId).map (fun r => (r.1.collections, r.2)) =
      if added.isEntire then
        added.getPacket.map fun entire => (Function.update s.collections id none, some entire)
      else some (Function.update s.collections id (some added), none) := by
  unfold store collections
  split
  · rw [Option.map_map]
    congr 1
    funext entire
    exact congrArg (fun m => (m, some entire)) (collections_update _ _ _)
  · exact congrArg (fun m => some (m, none)) (collections_update _ _ _)

/-- Forgetting the timeouts leaves the collections of `Process` as they were modelled before. -/
theorem collections_process (packet : Ipv6Packet) (offset : UInt8) :
    (s.process packet offset).map (fun r => (r.1.collections, r.2)) =
      Ipv6.process s.collections packet offset := by
  unfold process Ipv6.process
  cases FragmentHeader.removeHeader (packet.bytes.drop offset.toNat) with
  | none => rfl
  | some r =>
      obtain ⟨header, p⟩ := r
      dsimp only [Option.bind_some]
      obtain ⟨hfound, hupdate⟩ := s.collections_find (packet.header.source, header.identification)
        { packet.header with nextHeader := header.nextHeader }
      rw [collections_store, hfound]
      simp only [hupdate]

/-! ## The invariant -/

/-- A collection has its unfragmentable part once the fragment at offset 0 has arrived. -/
def HasFirst (q : Fragments) : Prop := ∃ it ∈ q.packetFragments, it.2 = 0

/-- Pending timeouts and stored collections belong together. -/
structure Timed : Prop where
  pendingStored : ∀ t ∈ s.pending, ∃ q, s.fragments t.fragmentsId = some (q, t.eventId)
  storedPending : ∀ id q eventId, s.fragments id = some (q, eventId) →
    ∃ t ∈ s.pending, t.eventId = eventId ∧ t.fragmentsId = id
  distinct : (s.pending.map Timeout.eventId).Nodup
  earlier : ∀ t ∈ s.pending, t.eventId < s.nextEvent
  first : ∀ id q eventId, s.fragments id = some (q, eventId) →
    (q.unfragmentable.isSome = true ↔ HasFirst q)

variable {s}

theorem timed_new : new.Timed where
  pendingStored := by simp [new]
  storedPending := by simp [new]
  distinct := List.nodup_nil
  earlier := by simp [new]
  first := by simp [new]

/-- An event belongs to one collection. -/
theorem Timed.unique (h : s.Timed) {t u : Timeout} (ht : t ∈ s.pending) (hu : u ∈ s.pending)
    (heq : t.eventId = u.eventId) : t = u :=
  List.inj_on_of_nodup_map h.distinct ht hu heq

/-- A collection is created with a timeout. -/
theorem Timed.find (h : s.Timed) (fragmentsId : FragmentsId) (ipHeader : Ipv6Header) :
    (s.find fragmentsId ipHeader).1.Timed ∧
      (s.find fragmentsId ipHeader).1.fragments fragmentsId =
        some (s.find fragmentsId ipHeader).2 := by
  unfold Reassembler.find
  cases hfound : s.fragments fragmentsId with
  | some found => exact ⟨h, hfound⟩
  | none =>
      refine ⟨⟨?_, ?_, ?_, ?_, ?_⟩, Function.update_self _ _ _⟩
      · intro t ht
        rcases List.mem_cons.mp ht with rfl | ht
        · exact ⟨.new, Function.update_self _ _ _⟩
        · obtain ⟨q, hq⟩ := h.pendingStored t ht
          refine ⟨q, ?_⟩
          have hne : t.fragmentsId ≠ fragmentsId := by
            intro heq
            rw [heq, hfound] at hq
            exact absurd hq (by simp)
          exact (Function.update_of_ne hne _ _).trans hq
      · intro id q eventId hid
        by_cases heq : id = fragmentsId
        · subst heq
          replace hid := (Function.update_self _ _ _).symm.trans hid
          obtain ⟨-, rfl⟩ := Prod.mk.inj (Option.some_inj.mp hid)
          exact ⟨_, List.mem_cons_self, rfl, rfl⟩
        · replace hid := (Function.update_of_ne heq _ _).symm.trans hid
          obtain ⟨t, ht, hevent, hkey⟩ := h.storedPending id q eventId hid
          exact ⟨t, List.mem_cons_of_mem _ ht, hevent, hkey⟩
      · rw [List.map_cons, List.nodup_cons]
        refine ⟨?_, h.distinct⟩
        intro hmem
        obtain ⟨t, ht, heq⟩ := List.mem_map.mp hmem
        exact absurd (h.earlier t ht) (by rw [heq]; exact Nat.lt_irrefl _)
      · intro t ht
        rcases List.mem_cons.mp ht with rfl | ht
        · exact Nat.lt_succ_self _
        · exact (h.earlier t ht).trans (Nat.lt_succ_self _)
      · intro id q eventId hid
        by_cases heq : id = fragmentsId
        · subst heq
          replace hid := (Function.update_self _ _ _).symm.trans hid
          obtain ⟨rfl, -⟩ := Prod.mk.inj (Option.some_inj.mp hid)
          simp [Fragments.new, HasFirst]
        · replace hid := (Function.update_of_ne heq _ _).symm.trans hid
          exact h.first id q eventId hid

/-- Another content of a stored collection. -/
theorem Timed.replace (h : s.Timed) {fragmentsId : FragmentsId} {q : Fragments} {eventId : ℕ}
    (hstored : s.fragments fragmentsId = some (q, eventId)) {added : Fragments}
    (hfirst : added.unfragmentable.isSome = true ↔ HasFirst added) :
    Timed { s with
      fragments := Function.update s.fragments fragmentsId (some (added, eventId)) } where
  pendingStored t ht := by
    obtain ⟨r, hr⟩ := h.pendingStored t ht
    by_cases heq : t.fragmentsId = fragmentsId
    · rw [heq, hstored] at hr
      obtain ⟨-, hevent⟩ := Prod.mk.inj (Option.some_inj.mp hr)
      refine ⟨added, ?_⟩
      rw [heq, ← hevent]
      exact Function.update_self _ _ _
    · exact ⟨r, (Function.update_of_ne heq _ _).trans hr⟩
  storedPending id r e hid := by
    by_cases heq : id = fragmentsId
    · subst heq
      replace hid := (Function.update_self _ _ _).symm.trans hid
      obtain ⟨-, rfl⟩ := Prod.mk.inj (Option.some_inj.mp hid)
      exact h.storedPending id q eventId hstored
    · exact h.storedPending id r e ((Function.update_of_ne heq _ _).symm.trans hid)
  distinct := h.distinct
  earlier := h.earlier
  first id r e hid := by
    by_cases heq : id = fragmentsId
    · subst heq
      replace hid := (Function.update_self _ _ _).symm.trans hid
      obtain ⟨rfl, -⟩ := Prod.mk.inj (Option.some_inj.mp hid)
      exact hfirst
    · exact h.first id r e ((Function.update_of_ne heq _ _).symm.trans hid)

/-- A collection is erased together with its timeout. -/
theorem Timed.erase (h : s.Timed) {fragmentsId : FragmentsId} {q : Fragments} {eventId : ℕ}
    (hstored : s.fragments fragmentsId = some (q, eventId)) :
    Timed { s with
      fragments := Function.update s.fragments fragmentsId none
      pending := s.pending.filter fun t => t.eventId ≠ eventId } where
  pendingStored t ht := by
    obtain ⟨ht, hne⟩ := List.mem_filter.mp ht
    obtain ⟨r, hr⟩ := h.pendingStored t ht
    refine ⟨r, (Function.update_of_ne ?_ _ _).trans hr⟩
    intro heq
    rw [heq, hstored] at hr
    exact of_decide_eq_true hne (Prod.mk.inj (Option.some_inj.mp hr)).2.symm
  storedPending id r e hid := by
    by_cases heq : id = fragmentsId
    · subst heq
      exact absurd ((Function.update_self _ _ _).symm.trans hid) (by simp)
    · replace hid := (Function.update_of_ne heq _ _).symm.trans hid
      obtain ⟨t, ht, hevent, hkey⟩ := h.storedPending id r e hid
      refine ⟨t, List.mem_filter.mpr ⟨ht, decide_eq_true ?_⟩, hevent, hkey⟩
      intro hsame
      obtain ⟨u, hu, huevent, hukey⟩ := h.storedPending fragmentsId q eventId hstored
      have htu := h.unique ht hu (hsame.trans huevent.symm)
      exact heq (hkey.symm.trans ((congrArg Timeout.fragmentsId htu).trans hukey))
  distinct := h.distinct.sublist (List.filter_sublist.map _)
  earlier t ht := h.earlier t (List.mem_filter.mp ht).1
  first id r e hid := by
    by_cases heq : id = fragmentsId
    · subst heq
      exact absurd ((Function.update_self _ _ _).symm.trans hid) (by simp)
    · exact h.first id r e ((Function.update_of_ne heq _ _).symm.trans hid)

theorem hasFirst_addFragment (q : Fragments) (fragment : List UInt8) (fragmentOffset : UInt16)
    (moreFragment : Bool) :
    HasFirst (q.addFragment fragment fragmentOffset moreFragment) ↔
      fragmentOffset = 0 ∨ HasFirst q := by
  have hmem (it : List UInt8 × UInt16) :
      it ∈ (q.addFragment fragment fragmentOffset moreFragment).packetFragments ↔
        it = (fragment, fragmentOffset) ∨ it ∈ q.packetFragments := by
    have hsplit := List.takeWhile_append_dropWhile
      (p := fun it : List UInt8 × UInt16 => decide (it.2 ≤ fragmentOffset)) (l := q.packetFragments)
    have hold : it ∈ q.packetFragments ↔
        it ∈ q.packetFragments.takeWhile (fun it => decide (it.2 ≤ fragmentOffset)) ∨
          it ∈ q.packetFragments.dropWhile (fun it => decide (it.2 ≤ fragmentOffset)) := by
      rw [← List.mem_append, hsplit]
    unfold Fragments.addFragment
    rw [List.mem_append, List.mem_cons, hold]
    tauto
  constructor
  · rintro ⟨it, hit, hzero⟩
    rcases (hmem it).mp hit with rfl | hit
    · exact .inl hzero
    · exact .inr ⟨it, hit, hzero⟩
  · rintro (hzero | ⟨it, hit, hzero⟩)
    · exact ⟨_, (hmem _).mpr (.inl rfl), hzero⟩
    · exact ⟨it, (hmem it).mpr (.inr hit), hzero⟩

theorem Timed.store (h : s.Timed) {fragmentsId : FragmentsId} {q added : Fragments} {eventId : ℕ}
    (hstored : s.fragments fragmentsId = some (q, eventId))
    (hfirst : added.unfragmentable.isSome = true ↔ HasFirst added)
    {r : Reassembler × Option (List UInt8)} (hr : s.store fragmentsId added eventId = some r) :
    r.1.Timed := by
  unfold Reassembler.store at hr
  split at hr
  · obtain ⟨entire, -, rfl⟩ := Option.map_eq_some_iff.mp hr
    exact h.erase hstored
  · obtain rfl := Option.some_inj.mp hr
    exact h.replace hstored hfirst

/-- Every fragment that arrives keeps the invariant. -/
theorem Timed.process (h : s.Timed) {packet : Ipv6Packet} {offset : UInt8}
    {r : Reassembler × Option (List UInt8)} (hr : s.process packet offset = some r) :
    r.1.Timed := by
  unfold Reassembler.process at hr
  obtain ⟨⟨header, p⟩, -, hr⟩ := Option.bind_eq_some_iff.mp hr
  obtain ⟨hfound, hstored⟩ := h.find (packet.header.source, header.identification)
    { packet.header with nextHeader := header.nextHeader }
  refine hfound.store hstored ?_ hr
  have hbefore := hfound.first _ _ _ hstored
  rw [hasFirst_addFragment]
  split
  · next hzero => exact ⟨fun _ => .inl hzero, fun _ => rfl⟩
  · next hnot =>
    constructor
    · exact fun hsome => .inr (hbefore.mp hsome)
    · rintro (hzero | hfirst)
      · exact absurd hzero hnot
      · exact hbefore.mpr hfirst

/-- A timeout that fires finds its collection, whether it can be handled or not. -/
theorem Timed.handleFragmentsTimeout (h : s.Timed) {t : Timeout} (ht : t ∈ s.pending) :
    ∃ q, s.fragments t.fragmentsId = some (q, t.eventId) ∧
      (((s.expire t.eventId).handleFragmentsTimeout t).isSome = true ↔ HasFirst q) ∧
      ∀ r, (s.expire t.eventId).handleFragmentsTimeout t = some r →
        r.1 = { s with
          fragments := Function.update s.fragments t.fragmentsId none
          pending := s.pending.filter fun u => u.eventId ≠ t.eventId } := by
  obtain ⟨q, hq⟩ := h.pendingStored t ht
  have hhandled : (s.expire t.eventId).handleFragmentsTimeout t =
      q.getPartialPacket.map fun packet =>
        ({ s.expire t.eventId with
           fragments := Function.update s.fragments t.fragmentsId none },
          ⟨t.ipHeader, packet⟩) := by
    unfold Reassembler.handleFragmentsTimeout
    have hsame : (s.expire t.eventId).fragments t.fragmentsId = some (q, t.eventId) := hq
    rw [hsame]
    rfl
  refine ⟨q, hq, ?_, ?_⟩
  · rw [hhandled, Option.isSome_map, ← h.first _ q _ hq]
    unfold Fragments.getPartialPacket
    rw [Option.isSome_map]
  · intro r hr
    rw [hhandled] at hr
    obtain ⟨packet, -, rfl⟩ := Option.map_eq_some_iff.mp hr
    rfl

theorem Timed.step (h : s.Timed) {event : Event} {next : Reassembler}
    (hstep : s.step event = some next) : next.Timed := by
  cases event with
  | arrive packet offset =>
      obtain ⟨r, hr, rfl⟩ := Option.map_eq_some_iff.mp hstep
      exact h.process hr
  | fire eventId =>
      obtain ⟨t, hfind, hfired⟩ := Option.bind_eq_some_iff.mp hstep
      obtain ⟨r, hr, rfl⟩ := Option.map_eq_some_iff.mp hfired
      have hevent := List.find?_some hfind
      obtain rfl : t.eventId = eventId := of_decide_eq_true hevent
      obtain ⟨q, hq, -, heq⟩ := h.handleFragmentsTimeout (List.mem_of_find?_eq_some hfind)
      rw [heq r hr]
      exact h.erase hq

theorem timed_of_run {history : List Event} (hrun : run step new history = some s) : s.Timed := by
  have hthroughout : Throughout step Timed new history :=
    throughout_of_invariant (fun _ _ _ h hstep => h.step hstep) timed_new history
  exact hthroughout history [] s (List.append_nil _).symm hrun

/-- In every state that a run reaches, every pending timeout finds its collection, and it is handled
if and only if the fragment at offset 0 has arrived; then the collection is gone and the others are
as before. -/
theorem timeout_handled_iff (history : List Event) (s : Reassembler)
    (hrun : run step new history = some s) (t : Timeout) (ht : t ∈ s.pending) :
    ∃ q, s.fragments t.fragmentsId = some (q, t.eventId) ∧
      ((∃ next, s.step (.fire t.eventId) = some next ∧ next.fragments t.fragmentsId = none ∧
          ∀ other ≠ t.fragmentsId, next.fragments other = s.fragments other) ↔
        ∃ it ∈ q.packetFragments, it.2 = 0) := by
  have h := timed_of_run hrun
  obtain ⟨q, hq, hsome, hstate⟩ := h.handleFragmentsTimeout ht
  have hfind : (s.pending.find? fun u => u.eventId = t.eventId) = some t := by
    cases hfound : s.pending.find? fun u => u.eventId = t.eventId with
    | none =>
        exact absurd (decide_eq_true rfl) (List.find?_eq_none.mp hfound t ht)
    | some u =>
        have hu := List.find?_some hfound
        rw [h.unique (List.mem_of_find?_eq_some hfound) ht (of_decide_eq_true hu)]
  have hstep : s.step (.fire t.eventId) =
      ((s.expire t.eventId).handleFragmentsTimeout t).map Prod.fst :=
    (congrArg (fun found : Option Timeout => found.bind fun t' =>
      ((s.expire t.eventId).handleFragmentsTimeout t').map Prod.fst) hfind).trans rfl
  refine ⟨q, hq, ?_⟩
  rw [hstep]
  constructor
  · rintro ⟨next, hnext, -, -⟩
    obtain ⟨r, hr, -⟩ := Option.map_eq_some_iff.mp hnext
    exact hsome.mp (by rw [hr]; rfl)
  · intro hfirst
    obtain ⟨r, hr⟩ := Option.isSome_iff_exists.mp (hsome.mpr hfirst)
    refine ⟨r.1, by rw [hr]; rfl, ?_, ?_⟩
    · rw [hstate r hr]
      exact Function.update_self _ _ _
    · intro other hother
      rw [hstate r hr]
      exact Function.update_of_ne hother _ _

/-- A fragment at an offset, with more to come. -/
def fragmentAt (offset : UInt16) : Ipv6Packet where
  header := ⟨1, 2, 44, 16⟩
  bytes := (FragmentHeader.mk 17 0 (offset + 1) 5).bytes ++ List.replicate 8 0

/-- The first fragment of a packet arrives, and the timeout fires. -/
theorem timeout_handled_iff_first :
    ∃ s, run step new [.arrive (fragmentAt 0) 0] = some s ∧
      ∃ next, s.step (.fire 0) = some next ∧ next.fragments (1, 5) = none := by
  have hrun : run step new [.arrive (fragmentAt 0) 0] = some
      ⟨Function.update (Function.update (fun _ => none) (1, 5) (some (.new, 0))) (1, 5)
        (some (⟨true, [(List.replicate 8 0, 0)], some []⟩, 0)),
        [⟨0, (1, 5), ⟨1, 2, 17, 16⟩⟩], 1⟩ := rfl
  obtain ⟨q, hq, hiff⟩ := timeout_handled_iff _ _ hrun ⟨0, (1, 5), ⟨1, 2, 17, 16⟩⟩
    List.mem_cons_self
  dsimp only at hq
  rw [Function.update_self] at hq
  obtain ⟨rfl, -⟩ := Prod.mk.inj (Option.some_inj.mp hq)
  obtain ⟨next, hnext, hgone, -⟩ := hiff.mpr ⟨_, List.mem_cons_self, rfl⟩
  exact ⟨_, hrun, next, hnext, hgone⟩

/-- Only a later fragment arrives: the timeout finds the collection and no partial packet. -/
theorem timeout_not_handled :
    ∃ s, run step new [.arrive (fragmentAt 8) 0] = some s ∧
      (s.fragments (1, 5)).isSome = true ∧ s.step (.fire 0) = none :=
  ⟨_, rfl, rfl, rfl⟩

end Reassembler

end Ns3Rdma.Ipv6
