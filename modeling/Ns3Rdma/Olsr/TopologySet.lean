import Mathlib.Data.List.Nodup
import Ns3Rdma.Lib.StepSystem
import Ns3Rdma.Olsr.OlsrState

/-!
# Topology information and the advertised neighbour sequence number

A TC message replaces what was recorded for its originator if its ANSN is newer. The originator
counts modulo 65536, and a serial-number order tells which of two numbers is more recent. The
handler compares the numbers as they are, so the two orders agree as long as the recorded numbers
and the received one lie less than half of the range apart.
-/

namespace Ns3Rdma.Olsr

open StepSystem

/-- What processing a TC message reads of it. -/
structure MessageHeader where
  vTime : ℕ
  originatorAddress : Ipv4Address
  ansn : UInt16
  neighborAddresses : List Ipv4Address

namespace OlsrState

/-- One turn of the loop over the advertised neighbours. -/
def recordNeighbor (msg : MessageHeader) (now : ℕ) (s : OlsrState) (addr : Ipv4Address) :
    OlsrState :=
  match s.findTopologyTuple addr msg.originatorAddress with
  | some _ => s.prolongTopologyTuple addr msg.originatorAddress (now + msg.vTime)
  | none => s.insertTopologyTuple ⟨addr, msg.originatorAddress, msg.ansn, now + msg.vTime⟩

def processTc (s : OlsrState) (msg : MessageHeader) (senderIface : Ipv4Address) (now : ℕ) :
    OlsrState :=
  match s.findSymLinkTuple senderIface now with
  | none => s
  | some _ =>
      match s.findNewerTopologyTuple msg.originatorAddress msg.ansn with
      | some _ => s
      | none => msg.neighborAddresses.foldl (recordNeighbor msg now)
          (s.eraseOlderTopologyTuples msg.originatorAddress msg.ansn)

/-- A tuple that is not due yet is looked at again later. -/
def topologyTupleTimerExpire (s : OlsrState) (destAddr lastAddr : Ipv4Address) (now : ℕ) :
    OlsrState :=
  match s.findTopologyTuple destAddr lastAddr with
  | none => s
  | some tuple => if tuple.expirationTime < now then s.eraseTopologyTuple tuple else s

/-- The tuples that an originator's messages have left. -/
def recorded (s : OlsrState) (originator : Ipv4Address) : List TopologyTuple :=
  s.topologySet.filter fun it => it.lastAddr = originator

variable {s : OlsrState} {msg : MessageHeader} {now : ℕ}
  {originator destAddr lastAddr addr : Ipv4Address} {ansn : UInt16}

theorem mem_recorded {t : TopologyTuple} :
    t ∈ s.recorded originator ↔ t ∈ s.topologySet ∧ t.lastAddr = originator := by
  simp [recorded]

theorem findTopologyTuple_eq_none :
    s.findTopologyTuple destAddr lastAddr = none ↔
      destAddr ∉ (s.recorded lastAddr).map TopologyTuple.destAddr := by
  simp only [findTopologyTuple, List.find?_eq_none, decide_eq_true_eq, List.mem_map, mem_recorded]
  constructor
  · rintro hnone ⟨t, ⟨ht, hlast⟩, hdest⟩
    exact hnone t ht ⟨hdest, hlast⟩
  · rintro hnot t ht ⟨hdest, hlast⟩
    exact hnot ⟨t, ⟨ht, hlast⟩, hdest⟩

theorem of_findTopologyTuple {t : TopologyTuple}
    (hfind : s.findTopologyTuple destAddr lastAddr = some t) :
    t ∈ s.recorded lastAddr ∧ t.destAddr = destAddr := by
  unfold findTopologyTuple at hfind
  have hmatch := List.find?_some hfind
  rw [decide_eq_true_eq] at hmatch
  exact ⟨mem_recorded.mpr ⟨List.mem_of_find?_eq_some hfind, hmatch.2⟩, hmatch.1⟩

theorem findNewerTopologyTuple_eq_none :
    s.findNewerTopologyTuple originator ansn = none ↔
      ∀ t ∈ s.recorded originator, t.sequenceNumber ≤ ansn := by
  simp only [findNewerTopologyTuple, List.find?_eq_none, decide_eq_true_eq, mem_recorded,
    and_imp, not_and, UInt16.not_lt]

theorem recorded_insert (t : TopologyTuple) :
    (s.insertTopologyTuple t).recorded originator =
      s.recorded originator ++ if t.lastAddr = originator then [t] else [] := by
  by_cases hlast : t.lastAddr = originator <;> simp [recorded, insertTopologyTuple, hlast]

/-- A later expiry time changes nothing else of the tuples. -/
theorem map_recorded_prolong {α : Type*} (f : TopologyTuple → α)
    (hf : ∀ t time, f { t with expirationTime := time } = f t) (time : ℕ) :
    ((s.prolongTopologyTuple destAddr lastAddr time).recorded originator).map f =
      (s.recorded originator).map f := by
  simp only [recorded, prolongTopologyTuple]
  induction s.topologySet with
  | nil => rfl
  | cons it rest ih =>
      rw [prolong]
      split
      next hit =>
        by_cases hlast : it.lastAddr = originator
        · rw [List.filter_cons_of_pos (by simpa using hlast),
            List.filter_cons_of_pos (by simpa using hlast), List.map_cons, List.map_cons, hf]
        · simp [hlast]
      next hit => by_cases hlast : it.lastAddr = originator <;> simp [hlast, ih]

theorem recorded_prolong_of_ne (hne : lastAddr ≠ originator) (time : ℕ) :
    (s.prolongTopologyTuple destAddr lastAddr time).recorded originator =
      s.recorded originator := by
  simp only [recorded, prolongTopologyTuple]
  induction s.topologySet with
  | nil => rfl
  | cons it rest ih =>
      rw [prolong]
      split
      next hit =>
        have hother : it.lastAddr ≠ originator := fun heq => hne (hit.2.symm.trans heq)
        simp [hother]
      next hit => by_cases hlast : it.lastAddr = originator <;> simp [hlast, ih]

theorem recorded_eraseOlder :
    (s.eraseOlderTopologyTuples originator ansn).recorded originator =
      (s.recorded originator).filter fun it => ansn ≤ it.sequenceNumber := by
  simp only [recorded, eraseOlderTopologyTuples, List.filter_filter]
  refine List.filter_congr fun t _ => ?_
  by_cases hlast : t.lastAddr = originator <;> simp [hlast]

theorem recorded_eraseOlder_of_ne (hne : lastAddr ≠ originator) :
    (s.eraseOlderTopologyTuples lastAddr ansn).recorded originator = s.recorded originator := by
  simp only [recorded, eraseOlderTopologyTuples, List.filter_filter]
  refine List.filter_congr fun t _ => ?_
  by_cases hlast : t.lastAddr = originator
  · have hother : t.lastAddr ≠ lastAddr := fun heq => hne (heq.symm.trans hlast)
    simp [hlast, hne.symm]
  · simp [hlast]

/-- Recording the neighbours of one originator leaves the tuples of another one. -/
theorem recorded_recordNeighbor_of_ne (hne : msg.originatorAddress ≠ originator) :
    (s.recordNeighbor msg now addr).recorded originator = s.recorded originator := by
  unfold recordNeighbor
  split
  · exact recorded_prolong_of_ne hne _
  · rw [recorded_insert, if_neg hne, List.append_nil]

theorem recorded_recordNeighbors_of_ne (hne : msg.originatorAddress ≠ originator)
    (addrs : List Ipv4Address) :
    (addrs.foldl (recordNeighbor msg now) s).recorded originator = s.recorded originator := by
  induction addrs generalizing s with
  | nil => rfl
  | cons addr rest ih =>
      rw [List.foldl_cons, ih]
      exact recorded_recordNeighbor_of_ne hne

theorem recorded_processTc_of_ne (hne : msg.originatorAddress ≠ originator)
    (senderIface : Ipv4Address) :
    (s.processTc msg senderIface now).recorded originator = s.recorded originator := by
  unfold processTc
  split
  · rfl
  · split
    · rfl
    · rw [recorded_recordNeighbors_of_ne hne, recorded_eraseOlder_of_ne hne]

end OlsrState

/-! ## What the tuples of one originator hold -/

/-- The tuples record the addresses, each one once and under the same number. -/
structure Holds (tuples : List TopologyTuple) (ansn : UInt16) (addrs : List Ipv4Address) :
    Prop where
  ansn : ∀ t ∈ tuples, t.sequenceNumber = ansn
  nodup : (tuples.map TopologyTuple.destAddr).Nodup
  mem_iff : ∀ addr, addr ∈ tuples.map TopologyTuple.destAddr ↔ addr ∈ addrs

namespace Holds

open OlsrState

variable {s : OlsrState} {msg : MessageHeader} {now : ℕ} {addr : Ipv4Address} {ansn : UInt16}
  {addrs : List Ipv4Address} {tuples : List TopologyTuple}

theorem nil (ansn : UInt16) : Holds [] ansn [] :=
  ⟨fun _ ht => absurd ht List.not_mem_nil, List.nodup_nil, fun _ => Iff.rfl⟩

/-- Tuples that differ in their expiry times only. -/
theorem of_map_eq {others : List TopologyTuple} (h : Holds tuples ansn addrs)
    (hseq : others.map TopologyTuple.sequenceNumber = tuples.map TopologyTuple.sequenceNumber)
    (hdest : others.map TopologyTuple.destAddr = tuples.map TopologyTuple.destAddr) :
    Holds others ansn addrs where
  ansn := by
    have hall : ∀ n ∈ tuples.map TopologyTuple.sequenceNumber, n = ansn :=
      List.forall_mem_map.mpr h.ansn
    rw [← hseq] at hall
    exact List.forall_mem_map.mp hall
  nodup := by
    rw [hdest]
    exact h.nodup
  mem_iff addr := by
    rw [hdest]
    exact h.mem_iff addr

/-- One advertised neighbour is recorded. -/
theorem recordNeighbor (h : Holds (s.recorded msg.originatorAddress) msg.ansn addrs) :
    Holds ((s.recordNeighbor msg now addr).recorded msg.originatorAddress) msg.ansn
      (addrs ++ [addr]) := by
  unfold OlsrState.recordNeighbor
  split
  next found hfound =>
    have hmem : addr ∈ (s.recorded msg.originatorAddress).map TopologyTuple.destAddr := by
      by_contra hnot
      rw [findTopologyTuple_eq_none.mpr hnot] at hfound
      cases hfound
    have hprolonged : Holds ((s.prolongTopologyTuple addr msg.originatorAddress
        (now + msg.vTime)).recorded msg.originatorAddress) msg.ansn addrs :=
      h.of_map_eq (map_recorded_prolong _ (fun _ _ => rfl) _)
        (map_recorded_prolong _ (fun _ _ => rfl) _)
    refine ⟨hprolonged.ansn, hprolonged.nodup, fun other => ?_⟩
    rw [hprolonged.mem_iff, List.mem_append, List.mem_singleton]
    refine ⟨Or.inl, fun hother => hother.elim id fun heq => ?_⟩
    rw [heq]
    exact (h.mem_iff addr).mp hmem
  next hnone =>
    have hnot := findTopologyTuple_eq_none.mp hnone
    rw [recorded_insert, if_pos rfl]
    constructor
    · intro t ht
      rcases List.mem_append.mp ht with hold | hnew
      · exact h.ansn t hold
      · rw [List.mem_singleton.mp hnew]
    · rw [List.map_append]
      refine List.Nodup.append h.nodup (List.nodup_singleton addr) ?_
      rw [List.map_singleton, List.disjoint_singleton]
      exact hnot
    · intro other
      rw [List.map_append, List.mem_append, List.mem_append, h.mem_iff]
      rfl

/-- The whole message is recorded, one neighbour after the other. -/
theorem recordNeighbors (advertised : List Ipv4Address)
    (h : Holds (s.recorded msg.originatorAddress) msg.ansn addrs) :
    Holds ((advertised.foldl (OlsrState.recordNeighbor msg now) s).recorded
      msg.originatorAddress) msg.ansn (addrs ++ advertised) := by
  induction advertised generalizing s addrs with
  | nil =>
      rw [List.append_nil]
      exact h
  | cons addr rest ih =>
      rw [List.foldl_cons, List.append_cons]
      exact ih h.recordNeighbor

/-- Erasing the one tuple with a destination removes that destination. -/
theorem mem_map_eraseP {p : TopologyTuple → Bool} {dest : Ipv4Address}
    (hp : ∀ t ∈ tuples, p t = true ↔ t.destAddr = dest)
    (hnodup : (tuples.map TopologyTuple.destAddr).Nodup) (addr : Ipv4Address) :
    addr ∈ (tuples.eraseP p).map TopologyTuple.destAddr ↔
      addr ∈ tuples.map TopologyTuple.destAddr ∧ addr ≠ dest := by
  induction tuples with
  | nil => simp
  | cons t rest ih =>
      rw [List.map_cons, List.nodup_cons] at hnodup
      rw [List.forall_mem_cons] at hp
      by_cases hdest : t.destAddr = dest
      · rw [List.eraseP_cons_of_pos (hp.1.mpr hdest), List.map_cons, List.mem_cons, hdest]
        rw [hdest] at hnodup
        refine ⟨fun hmem => ⟨Or.inr hmem, fun heq => ?_⟩, fun h => h.1.resolve_left h.2⟩
        rw [heq] at hmem
        exact hnodup.1 hmem
      · rw [List.eraseP_cons_of_neg (fun hpos => hdest (hp.1.mp hpos)), List.map_cons,
          List.map_cons, List.mem_cons, List.mem_cons, ih hp.2 hnodup.2]
        refine ⟨?_, fun ⟨hmem, hne⟩ => hmem.imp_right fun hrest => ⟨hrest, hne⟩⟩
        rintro (heq | hrest)
        · refine ⟨Or.inl heq, fun hdest' => hdest ?_⟩
          rw [← heq, hdest']
        · exact ⟨Or.inr hrest.1, hrest.2⟩

theorem eraseP {p : TopologyTuple → Bool} {dest : Ipv4Address} (h : Holds tuples ansn addrs)
    (hp : ∀ t ∈ tuples, p t = true ↔ t.destAddr = dest) :
    Holds (tuples.eraseP p) ansn (addrs.filter fun addr => addr ≠ dest) where
  ansn t ht := h.ansn t (List.mem_of_mem_eraseP ht)
  nodup := h.nodup.sublist (List.eraseP_sublist.map _)
  mem_iff addr := by
    rw [mem_map_eraseP hp h.nodup, h.mem_iff, List.mem_filter, decide_eq_true_eq]

end Holds

/-! ## Serial numbers -/

/-- The serial-number order of RFC 3626. -/
def MoreRecent (recent old : UInt16) : Prop :=
  old.toNat < recent.toNat ∧ recent.toNat - old.toNat ≤ 32767 ∨
    recent.toNat < old.toNat ∧ 32767 < old.toNat - recent.toNat

instance (recent old : UInt16) : Decidable (MoreRecent recent old) :=
  inferInstanceAs (Decidable (_ ∨ _))

/-- The numbers are less than half of the range apart. -/
def Near (a b : UInt16) : Prop :=
  a.toNat ≤ b.toNat + 32767 ∧ b.toNat ≤ a.toNat + 32767

theorem moreRecent_iff_of_near {recent old : UInt16} (h : Near recent old) :
    MoreRecent recent old ↔ old < recent := by
  obtain ⟨hrecent, hold⟩ := h
  rw [MoreRecent, UInt16.lt_iff_toNat_lt]
  omega

theorem moreRecent_iff_of_not_near {recent old : UInt16} (h : ¬ Near recent old) :
    MoreRecent recent old ↔ recent < old := by
  rw [Near, not_and_or] at h
  rw [MoreRecent, UInt16.lt_iff_toNat_lt]
  omega

theorem Near.symm {a b : UInt16} (h : Near a b) : Near b a := ⟨h.2, h.1⟩

theorem MoreRecent.asymm {a b : UInt16} (h : MoreRecent a b) : ¬ MoreRecent b a := by
  unfold MoreRecent at h ⊢
  omega

theorem MoreRecent.irrefl (a : UInt16) : ¬ MoreRecent a a := fun h => h.asymm h

def incrementAnsn (ansn : UInt16) : UInt16 :=
  .ofNat ((ansn.toNat + 1) % (65535 + 1))

/-- The ANSN of a node after some increments. -/
def ansnAfter : ℕ → UInt16
  | 0 => 65535
  | n + 1 => incrementAnsn (ansnAfter n)

theorem toNat_ansnAfter (n : ℕ) : (ansnAfter n).toNat = (65535 + n) % 65536 := by
  induction n with
  | zero => rfl
  | succ n ih =>
      rw [ansnAfter, incrementAnsn, UInt16.toNat_ofNat', ih]
      omega

/-- The numbers of an originator are more recent than its older ones across the wrap-around. -/
theorem moreRecent_ansnAfter {n k : ℕ} (hpos : 0 < k) (hlate : k ≤ 32767) :
    MoreRecent (ansnAfter (n + k)) (ansnAfter n) := by
  rw [MoreRecent, toNat_ansnAfter, toNat_ansnAfter]
  omega

/-! ## The receiving node -/

/-- The addresses that were received under the number in force, once a message has come. -/
def receivedWith (tuples : List TopologyTuple) (msg : MessageHeader) (before : List Ipv4Address) :
    List Ipv4Address :=
  if ∀ t ∈ tuples, MoreRecent msg.ansn t.sequenceNumber then msg.neighborAddresses
  else if ∃ t ∈ tuples, MoreRecent t.sequenceNumber msg.ansn then before
  else before ++ msg.neighborAddresses

/-- A node that hears TC messages, the counters of their originators, and the addresses that
each originator has advertised under the most recent number. -/
structure Node where
  now : ℕ
  olsr : OlsrState
  increments : Ipv4Address → ℕ
  received : Ipv4Address → List Ipv4Address

namespace Node

/-- An originator increments its counter, one of its messages arrives, sent some increments ago, a
timer expires, the links change, or time passes. -/
inductive Event where
  | incrementAnsn (originator : Ipv4Address)
  | tc (late : ℕ) (msg : MessageHeader) (senderIface : Ipv4Address)
  | topologyTupleTimerExpire (destAddr lastAddr : Ipv4Address)
  | links (linkSet : List LinkTuple)
  | advance (delay : ℕ)

def start : Node where
  now := 0
  olsr := ⟨[], [], [], [], ∅⟩
  increments := fun _ => 0
  received := fun _ => []

variable (s : Node)

def step : Event → Option Node
  | .incrementAnsn originator => some { s with
      increments := Function.update s.increments originator (s.increments originator + 1) }
  | .tc late msg senderIface =>
      if late ≤ 32767 ∧ late ≤ s.increments msg.originatorAddress ∧
          msg.ansn = ansnAfter (s.increments msg.originatorAddress - late) then
        some { s with
          olsr := s.olsr.processTc msg senderIface s.now
          received :=
            if (s.olsr.findSymLinkTuple senderIface s.now).isSome then
              Function.update s.received msg.originatorAddress
                (receivedWith (s.olsr.recorded msg.originatorAddress) msg
                  (s.received msg.originatorAddress))
            else s.received }
      else none
  | .topologyTupleTimerExpire destAddr lastAddr => some { s with
      olsr := s.olsr.topologyTupleTimerExpire destAddr lastAddr s.now
      received :=
        if ∃ t, s.olsr.findTopologyTuple destAddr lastAddr = some t ∧
            t.expirationTime < s.now then
          Function.update s.received lastAddr
            ((s.received lastAddr).filter fun addr => addr ≠ destAddr)
        else s.received }
  | .links linkSet => some { s with olsr := { s.olsr with linkSet := linkSet } }
  | .advance delay => some { s with now := s.now + delay }

/-- A message of a symmetric neighbour that is not less recent than any recorded tuple leaves
exactly the addresses of its number, and one that is less recent changes nothing. -/
def FollowsAnsn (event : Event) (next : Node) : Prop :=
  match event with
  | .tc _ msg senderIface => (s.olsr.findSymLinkTuple senderIface s.now).isSome = true →
      ((∀ t ∈ s.olsr.recorded msg.originatorAddress, ¬ MoreRecent t.sequenceNumber msg.ansn) →
        Holds (next.olsr.recorded msg.originatorAddress) msg.ansn
          (next.received msg.originatorAddress)) ∧
      ((∃ t ∈ s.olsr.recorded msg.originatorAddress, MoreRecent t.sequenceNumber msg.ansn) →
        next.olsr.topologySet = s.olsr.topologySet)
  | _ => True

/-- The recorded numbers of the originator are near the one that arrives. -/
def NearRecorded (event : Event) : Prop :=
  match event with
  | .tc _ msg senderIface => (s.olsr.findSymLinkTuple senderIface s.now).isSome = true →
      ∀ t ∈ s.olsr.recorded msg.originatorAddress, Near t.sequenceNumber msg.ansn
  | _ => True

/-- The tuples of each originator hold what it advertised under one number. -/
def Kept : Prop :=
  ∀ originator, ∃ ansn, Holds (s.olsr.recorded originator) ansn (s.received originator)

end Node

namespace OlsrState

variable {s : OlsrState} {msg : MessageHeader} {senderIface : Ipv4Address} {now : ℕ}
  {old : UInt16} {before : List Ipv4Address}

theorem processTc_of_newer (hsym : (s.findSymLinkTuple senderIface now).isSome = true)
    {t : TopologyTuple} (ht : t ∈ s.recorded msg.originatorAddress)
    (hnewer : msg.ansn < t.sequenceNumber) : s.processTc msg senderIface now = s := by
  obtain ⟨link, hlink⟩ := Option.isSome_iff_exists.mp hsym
  rw [processTc, hlink]
  dsimp only
  split
  · rfl
  next hnone =>
    have hle := findNewerTopologyTuple_eq_none.mp hnone t ht
    exact absurd hnewer (UInt16.not_lt.mpr hle)

theorem processTc_of_le (hsym : (s.findSymLinkTuple senderIface now).isSome = true)
    (hle : ∀ t ∈ s.recorded msg.originatorAddress, t.sequenceNumber ≤ msg.ansn) :
    s.processTc msg senderIface now = msg.neighborAddresses.foldl (recordNeighbor msg now)
      (s.eraseOlderTopologyTuples msg.originatorAddress msg.ansn) := by
  obtain ⟨link, hlink⟩ := Option.isSome_iff_exists.mp hsym
  rw [processTc, hlink, findNewerTopologyTuple_eq_none.mpr hle]

/-- Older tuples give way to the message. -/
theorem holds_processTc_of_lt (hsym : (s.findSymLinkTuple senderIface now).isSome = true)
    (hlt : ∀ t ∈ s.recorded msg.originatorAddress, t.sequenceNumber < msg.ansn) :
    Holds ((s.processTc msg senderIface now).recorded msg.originatorAddress) msg.ansn
      msg.neighborAddresses := by
  rw [processTc_of_le hsym fun t ht => UInt16.le_of_lt (hlt t ht)]
  rw [← List.nil_append msg.neighborAddresses]
  apply Holds.recordNeighbors
  have hnone : (s.eraseOlderTopologyTuples msg.originatorAddress msg.ansn).recorded
      msg.originatorAddress = [] := by
    rw [recorded_eraseOlder, List.filter_eq_nil_iff]
    intro t ht
    rw [decide_eq_true_eq, UInt16.not_le]
    exact hlt t ht
  rw [hnone]
  exact Holds.nil msg.ansn

/-- Tuples with the number of the message stay. -/
theorem holds_processTc_of_eq (hsym : (s.findSymLinkTuple senderIface now).isSome = true)
    (h : Holds (s.recorded msg.originatorAddress) msg.ansn before) :
    Holds ((s.processTc msg senderIface now).recorded msg.originatorAddress) msg.ansn
      (before ++ msg.neighborAddresses) := by
  rw [processTc_of_le hsym fun t ht => UInt16.le_of_eq (h.ansn t ht)]
  apply Holds.recordNeighbors
  have hall : (s.eraseOlderTopologyTuples msg.originatorAddress msg.ansn).recorded
      msg.originatorAddress = s.recorded msg.originatorAddress := by
    rw [recorded_eraseOlder, List.filter_eq_self]
    intro t ht
    rw [h.ansn t ht, decide_eq_true_eq]
    exact UInt16.le_refl _
  rw [hall]
  exact h

end OlsrState

section Received

variable {tuples : List TopologyTuple} {msg : MessageHeader} {before : List Ipv4Address}

theorem receivedWith_of_older (h : ∀ t ∈ tuples, MoreRecent msg.ansn t.sequenceNumber) :
    receivedWith tuples msg before = msg.neighborAddresses := if_pos h

theorem receivedWith_of_newer {t : TopologyTuple} (ht : t ∈ tuples)
    (hrecent : MoreRecent t.sequenceNumber msg.ansn) :
    receivedWith tuples msg before = before := by
  rw [receivedWith, if_neg fun hall => (hall t ht).asymm hrecent, if_pos ⟨t, ht, hrecent⟩]

theorem receivedWith_of_eq {t : TopologyTuple} (ht : t ∈ tuples)
    (heq : ∀ t ∈ tuples, t.sequenceNumber = msg.ansn) :
    receivedWith tuples msg before = before ++ msg.neighborAddresses := by
  have hnot : ∀ t ∈ tuples, ¬ MoreRecent t.sequenceNumber msg.ansn := fun t ht => by
    rw [heq t ht]
    exact MoreRecent.irrefl _
  rw [receivedWith, if_neg, if_neg]
  · rintro ⟨t, ht, hrecent⟩
    exact hnot t ht hrecent
  · intro hall
    have hrecent := hall t ht
    rw [heq t ht] at hrecent
    exact MoreRecent.irrefl _ hrecent

/-- How the number of a message compares with the one that is recorded. -/
theorem Holds.compare {old : UInt16} (h : Holds tuples old before) (ansn : UInt16) :
    (∀ t ∈ tuples, t.sequenceNumber < ansn) ∨
      (Holds tuples ansn before ∧ ∃ t, t ∈ tuples) ∨
        ansn < old ∧ ∃ t, t ∈ tuples := by
  rcases List.eq_nil_or_concat tuples with hnil | ⟨_, t, hcons⟩
  · left
    rw [hnil]
    exact fun t ht => absurd ht List.not_mem_nil
  · have ht : t ∈ tuples := by
      rw [hcons]
      simp
    rcases Nat.lt_trichotomy old.toNat ansn.toNat with hlt | heq | hgt
    · left
      intro u hu
      rw [h.ansn u hu]
      exact UInt16.lt_iff_toNat_lt.mpr hlt
    · right; left
      rw [← UInt16.toNat_inj.mp heq]
      exact ⟨h, t, ht⟩
    · right; right
      exact ⟨UInt16.lt_iff_toNat_lt.mpr hgt, t, ht⟩

end Received

namespace Node

variable {s next : Node} {msg : MessageHeader} {senderIface : Ipv4Address} {old : UInt16}
  {before : List Ipv4Address} {late : ℕ}

/-- What a message leaves of its originator's tuples. -/
theorem holds_tc (hsym : (s.olsr.findSymLinkTuple senderIface s.now).isSome = true)
    (h : Holds (s.olsr.recorded msg.originatorAddress) old before)
    (hnear : ∀ t ∈ s.olsr.recorded msg.originatorAddress, Near t.sequenceNumber msg.ansn) :
    ∃ ansn, Holds ((s.olsr.processTc msg senderIface s.now).recorded msg.originatorAddress) ansn
        (receivedWith (s.olsr.recorded msg.originatorAddress) msg before) ∧
      ((∀ t ∈ s.olsr.recorded msg.originatorAddress, ¬ MoreRecent t.sequenceNumber msg.ansn) →
        ansn = msg.ansn) := by
  rcases h.compare msg.ansn with hlt | ⟨hsame, t, ht⟩ | ⟨hgt, t, ht⟩
  · refine ⟨msg.ansn, ?_, fun _ => rfl⟩
    rw [receivedWith_of_older fun t ht =>
      (moreRecent_iff_of_near (hnear t ht).symm).mpr (hlt t ht)]
    exact OlsrState.holds_processTc_of_lt hsym hlt
  · refine ⟨msg.ansn, ?_, fun _ => rfl⟩
    rw [receivedWith_of_eq ht hsame.ansn]
    exact OlsrState.holds_processTc_of_eq hsym hsame
  · have hrecent : MoreRecent t.sequenceNumber msg.ansn := by
      rw [moreRecent_iff_of_near (hnear t ht), h.ansn t ht]
      exact hgt
    refine ⟨old, ?_, fun hnone => absurd hrecent (hnone t ht)⟩
    rw [receivedWith_of_newer ht hrecent, OlsrState.processTc_of_newer hsym ht]
    · exact h
    · rw [h.ansn t ht]
      exact hgt

/-- A message that is near changes nothing if it is less recent. -/
theorem processTc_of_lessRecent
    (hsym : (s.olsr.findSymLinkTuple senderIface s.now).isSome = true)
    {t : TopologyTuple} (ht : t ∈ s.olsr.recorded msg.originatorAddress)
    (hnear : Near t.sequenceNumber msg.ansn) (hrecent : MoreRecent t.sequenceNumber msg.ansn) :
    s.olsr.processTc msg senderIface s.now = s.olsr :=
  OlsrState.processTc_of_newer hsym ht ((moreRecent_iff_of_near hnear).mp hrecent)

/-- A message that is far from a recorded number is taken for the contrary of what it is. -/
theorem near_of_follows (hsym : (s.olsr.findSymLinkTuple senderIface s.now).isSome = true)
    (h : Holds (s.olsr.recorded msg.originatorAddress) old before) {addrs : List Ipv4Address}
    (hfresh : (∀ t ∈ s.olsr.recorded msg.originatorAddress,
      ¬ MoreRecent t.sequenceNumber msg.ansn) →
        Holds ((s.olsr.processTc msg senderIface s.now).recorded msg.originatorAddress) msg.ansn
          addrs)
    (hstale : (∃ t ∈ s.olsr.recorded msg.originatorAddress,
      MoreRecent t.sequenceNumber msg.ansn) →
        (s.olsr.processTc msg senderIface s.now).topologySet = s.olsr.topologySet)
    {t : TopologyTuple} (ht : t ∈ s.olsr.recorded msg.originatorAddress) :
    Near t.sequenceNumber msg.ansn := by
  by_contra hfar
  have hrecent := moreRecent_iff_of_not_near hfar
  rcases h.compare msg.ansn with hlt | ⟨hsame, -⟩ | ⟨hgt, -⟩
  · -- The tuple is more recent, and it is erased.
    have hset := hstale ⟨t, ht, hrecent.mpr (hlt t ht)⟩
    have hkept : t ∈ (s.olsr.processTc msg senderIface s.now).recorded msg.originatorAddress := by
      rw [OlsrState.recorded, hset]
      exact ht
    have heq := (OlsrState.holds_processTc_of_lt hsym hlt).ansn t hkept
    have hless := hlt t ht
    rw [heq] at hless
    exact UInt16.lt_irrefl _ hless
  · rw [hsame.ansn t ht] at hfar
    exact hfar ⟨Nat.le_add_right _ _, Nat.le_add_right _ _⟩
  · -- The message is more recent, and it is discarded.
    have hnewer : msg.ansn < t.sequenceNumber := by
      rw [h.ansn t ht]
      exact hgt
    have hnone : ∀ u ∈ s.olsr.recorded msg.originatorAddress,
        ¬ MoreRecent u.sequenceNumber msg.ansn := fun u hu => by
      rw [h.ansn u hu, ← h.ansn t ht, hrecent, UInt16.not_lt]
      exact UInt16.le_of_lt hnewer
    have hnext := hfresh hnone
    rw [OlsrState.processTc_of_newer hsym ht hnewer] at hnext
    rw [hnext.ansn t ht] at hnewer
    exact UInt16.lt_irrefl _ hnewer

/-! ## Steps and runs -/

theorem step_tc (hstep : s.step (.tc late msg senderIface) = some next) :
    next = { s with
      olsr := s.olsr.processTc msg senderIface s.now
      received :=
        if (s.olsr.findSymLinkTuple senderIface s.now).isSome then
          Function.update s.received msg.originatorAddress
            (receivedWith (s.olsr.recorded msg.originatorAddress) msg
              (s.received msg.originatorAddress))
        else s.received } := by
  unfold step at hstep
  dsimp only at hstep
  split at hstep
  · exact (Option.some.inj hstep).symm
  · cases hstep

theorem processTc_of_not_sym
    (hsym : ¬ (s.olsr.findSymLinkTuple senderIface s.now).isSome = true) :
    s.olsr.processTc msg senderIface s.now = s.olsr := by
  rw [Bool.not_eq_true, Option.isSome_eq_false_iff, Option.isNone_iff_eq_none] at hsym
  rw [OlsrState.processTc, hsym]

/-- A message keeps the tuples of every originator, its own included. -/
theorem Kept.tc (h : s.Kept) (hnear : s.NearRecorded (.tc late msg senderIface))
    (hstep : s.step (.tc late msg senderIface) = some next) : next.Kept := by
  rw [step_tc hstep]
  intro originator
  dsimp only
  by_cases hsym : (s.olsr.findSymLinkTuple senderIface s.now).isSome = true
  · rw [if_pos hsym]
    by_cases horiginator : originator = msg.originatorAddress
    · rw [horiginator, Function.update_self]
      obtain ⟨old, hold⟩ := h msg.originatorAddress
      obtain ⟨ansn, hansn, -⟩ := holds_tc hsym hold (hnear hsym)
      exact ⟨ansn, hansn⟩
    · rw [Function.update_of_ne horiginator,
        OlsrState.recorded_processTc_of_ne (Ne.symm horiginator)]
      exact h originator
  · rw [if_neg hsym, processTc_of_not_sym hsym]
    exact h originator

theorem filter_eraseP_of_not {α : Type*} {p q : α → Bool} (hpq : ∀ a, p a = true → q a ≠ true)
    (l : List α) : (l.eraseP p).filter q = l.filter q := by
  induction l with
  | nil => rfl
  | cons a rest ih =>
      by_cases ha : p a = true
      · rw [List.eraseP_cons_of_pos ha, List.filter_cons_of_neg (hpq a ha)]
      · rw [List.eraseP_cons_of_neg ha, List.filter_cons, List.filter_cons, ih]

/-- Erasing one tuple concerns its originator only. -/
theorem recorded_eraseTopologyTuple (o : OlsrState) (tuple : TopologyTuple)
    (originator : Ipv4Address) :
    (o.eraseTopologyTuple tuple).recorded originator =
      if tuple.lastAddr = originator then (o.recorded originator).eraseP fun it => it.same tuple
      else o.recorded originator := by
  have hlast : ∀ it : TopologyTuple, it.same tuple = true → it.lastAddr = tuple.lastAddr :=
    fun it hsame => (of_decide_eq_true hsame).2.1
  simp only [OlsrState.recorded, OlsrState.eraseTopologyTuple]
  split
  next heq =>
    rw [List.eraseP_filter]
    congr 2
    funext it
    by_cases hsame : it.same tuple = true
    · simp [hsame, hlast it hsame, heq]
    · simp [hsame]
  next hne =>
    apply filter_eraseP_of_not
    intro it hsame
    rw [hlast it hsame]
    exact fun heq => hne (of_decide_eq_true heq)

/-- An expired tuple goes together with its address. -/
theorem Kept.expire {destAddr lastAddr : Ipv4Address} (h : s.Kept)
    (hstep : s.step (.topologyTupleTimerExpire destAddr lastAddr) = some next) : next.Kept := by
  obtain rfl := Option.some.inj hstep
  intro originator
  dsimp only
  obtain ⟨ansn, hansn⟩ := h originator
  by_cases hdue : ∃ t, s.olsr.findTopologyTuple destAddr lastAddr = some t ∧
      t.expirationTime < s.now
  · rw [if_pos hdue]
    obtain ⟨t, hfind, htime⟩ := hdue
    obtain ⟨ht, hdest⟩ := OlsrState.of_findTopologyTuple hfind
    have hlast := (OlsrState.mem_recorded.mp ht).2
    rw [OlsrState.topologyTupleTimerExpire, hfind]
    dsimp only
    rw [if_pos htime, recorded_eraseTopologyTuple, hlast]
    by_cases horiginator : lastAddr = originator
    · rw [if_pos horiginator, ← horiginator, Function.update_self]
      rw [← horiginator] at hansn
      refine ⟨ansn, hansn.eraseP fun u hu => ?_⟩
      rw [TopologyTuple.same, decide_eq_true_eq, hdest]
      refine ⟨fun hsame => hsame.1, fun heq => ⟨heq, ?_, ?_⟩⟩
      · rw [(OlsrState.mem_recorded.mp hu).2, hlast]
      · rw [hansn.ansn u hu, hansn.ansn t ht]
    · rw [if_neg horiginator, Function.update_of_ne (Ne.symm horiginator)]
      exact ⟨ansn, hansn⟩
  · rw [if_neg hdue]
    have hstays : s.olsr.topologyTupleTimerExpire destAddr lastAddr s.now = s.olsr := by
      unfold OlsrState.topologyTupleTimerExpire
      split
      · rfl
      next t hfind => exact if_neg fun htime => hdue ⟨t, hfind, htime⟩
    rw [hstays]
    exact ⟨ansn, hansn⟩

theorem Kept.step {event : Event} (h : s.Kept) (hstep : s.step event = some next)
    (hnear : s.NearRecorded event) : next.Kept := by
  cases event with
  | incrementAnsn originator =>
      obtain rfl := Option.some.inj hstep
      exact h
  | tc late msg senderIface => exact h.tc hnear hstep
  | topologyTupleTimerExpire destAddr lastAddr => exact h.expire hstep
  | links linkSet =>
      obtain rfl := Option.some.inj hstep
      exact h
  | advance delay =>
      obtain rfl := Option.some.inj hstep
      exact h

theorem kept_start : start.Kept := fun _ => ⟨0, Holds.nil 0⟩

/-- One event: what the claim of the order asks for, and the numbers it is right for. -/
theorem followsAnsn_iff {event : Event} (h : s.Kept) (hstep : s.step event = some next) :
    s.FollowsAnsn event next ↔ s.NearRecorded event := by
  cases event with
  | tc late msg senderIface =>
      rw [step_tc hstep]
      refine forall_congr' fun hsym => ?_
      dsimp only
      rw [if_pos hsym, Function.update_self]
      obtain ⟨old, hold⟩ := h msg.originatorAddress
      constructor
      · rintro ⟨hfresh, hstale⟩ t ht
        exact near_of_follows hsym hold hfresh hstale ht
      · intro hnear
        obtain ⟨ansn, hansn, hnumber⟩ := holds_tc hsym hold hnear
        refine ⟨fun hnone => ?_, fun ⟨t, ht, hrecent⟩ => ?_⟩
        · rw [← hnumber hnone]
          exact hansn
        · rw [processTc_of_lessRecent hsym ht (hnear t ht) hrecent]
  | incrementAnsn originator => exact Iff.rfl
  | topologyTupleTimerExpire destAddr lastAddr => exact Iff.rfl
  | links linkSet => exact Iff.rfl
  | advance delay => exact Iff.rfl

/-- Over every run, the topology set follows the most recent ANSN if and only if each message
carries a number that is near the recorded ones. -/
theorem followsAnsn_iff_nearRecorded (events : List Event) :
    EachStep step FollowsAnsn start events ↔
      EachStep step (fun s event _ => s.NearRecorded event) start events :=
  eachStep_iff_of_invariant (fun _ _ _ => followsAnsn_iff) (fun _ _ _ h => h.step) kept_start
    events

/-- The counter wraps between two messages. -/
def wrapping : List Event :=
  [.links [⟨9, 1000⟩], .tc 0 ⟨100, 7, 65535, [1]⟩ 9, .incrementAnsn 7, .tc 0 ⟨100, 7, 0, [2]⟩ 9]

/-- The message after the wrap is discarded. -/
theorem wrapping_not_followsAnsn : ¬ EachStep step FollowsAnsn start wrapping := by
  intro h
  have hlast := h [.links [⟨9, 1000⟩], .tc 0 ⟨100, 7, 65535, [1]⟩ 9, .incrementAnsn 7]
    (.tc 0 ⟨100, 7, 0, [2]⟩ 9) [] _ _ rfl rfl rfl (by decide)
  have hholds := hlast.1 (by decide)
  exact absurd (hholds.ansn ⟨1, 7, 65535, 100⟩ (by decide)) (by decide)

end Node

end Ns3Rdma.Olsr
