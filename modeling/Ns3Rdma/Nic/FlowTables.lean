import Mathlib.Data.Finset.Card
import Mathlib.Order.Interval.Finset.Nat
import Ns3Rdma.Nic.Frame
import Ns3Rdma.Queue.Fairness

/-! # The flow tables of a NIC

`Send` gives each pair of a source port and a class the first unused index, and the receiving side
appends each flow to `m_ecn_source`. The arrays that both indices go into have `fCnt` entries. -/

namespace Ns3Rdma

open StepSystem

/-- A source port and the class of the packet. -/
abbrev FlowPair := UInt16 × Fin qCnt

namespace Nic

/-- The variable `i` behind the search of `Send`: `fCnt` if nothing stops it. -/
def sendIndex (s : Nic) (pair : FlowPair) : ℕ := (s.flowSlot pair.1 pair.2).elim fCnt Fin.val

/-- What the tables hold at an index. -/
def pairAt (s : Nic) (i : Fin fCnt) : FlowPair := (s.findexUdpportMap i, s.findexQindexMap i)

/-- The packet goes to the control queue. -/
def isControl (c : NicConfig) (p : Packet) : Bool := c.qcnEnabled && sendClass p = 7

end Nic

/-- The loop of `Receive` over `m_ecn_source`, which does not stop at a match, and the index behind
the list if there is none. -/
def ecnKey (source : List FlowKey) (k : FlowKey) : ℕ :=
  ((List.range source.length).foldl (fun key i => if source[i]? = some k then some i else key)
    none).getD source.length

/-- A NIC, the keys in `m_ecn_source`, and the indices that were used so far, each with the pair
or the flow that it was used for. -/
structure FlowTables where
  nic : Nic
  ecnSource : List FlowKey
  sends : List (FlowPair × ℕ)
  keys : List (FlowKey × ℕ)

namespace FlowTables

inductive Event where
  | send (p : Packet)
  | receive (k : FlowKey)
  | other (event : Nic.Event)

variable (c : NicConfig)

def start (maxBytes : ℚ) : FlowTables := ⟨.start c maxBytes, [], [], []⟩

/-- `Send`. An index behind the arrays is recorded, and nothing more is said about the device. -/
def send (s : FlowTables) (p : Packet) : Option FlowTables :=
  if Nic.isControl c p then (s.nic.send c p).map fun result => { s with nic := result.1 }
  else if p.sourcePort = 0 then none
  else
    let pair := (p.sourcePort, Nic.sendClass p)
    let s := { s with sends := (pair, s.nic.sendIndex pair) :: s.sends }
    if s.nic.sendIndex pair = fCnt then some s
    else (s.nic.send c p).map fun result => { s with nic := result.1 }

/-- The lookup of `Receive`. -/
def receive (s : FlowTables) (k : FlowKey) : FlowTables :=
  { s with
    ecnSource := if k ∈ s.ecnSource then s.ecnSource else s.ecnSource ++ [k]
    keys := (k, ecnKey s.ecnSource k) :: s.keys }

def step (s : FlowTables) : Event → Option FlowTables
  | .send p => s.send c p
  | .receive k => some (s.receive k)
  | .other (.send _) => none
  | .other event => (s.nic.handle c event).map fun result => { s with nic := result.1 }

def sentPairs (s : FlowTables) : Finset FlowPair := s.sends.toFinset.image Prod.fst

def receivedFlows (s : FlowTables) : Finset FlowKey := s.keys.toFinset.image Prod.fst

/-- Indices stay inside the arrays, none is used for two flows, no flow has two, and `m_fcount` is
one more than the highest index in use. -/
structure Right (s : FlowTables) : Prop where
  index_range : ∀ e ∈ s.sends, 1 ≤ e.2 ∧ e.2 < fCnt
  index_iff : ∀ e ∈ s.sends, ∀ e' ∈ s.sends, e.1 = e'.1 ↔ e.2 = e'.2
  index_le : ∀ e ∈ s.sends, e.2 + 1 ≤ s.nic.queue.fcount
  fcount : s.nic.queue.fcount = 1 ∨ ∃ e ∈ s.sends, e.2 + 1 = s.nic.queue.fcount
  key_lt : ∀ e ∈ s.keys, e.2 < fCnt
  key_iff : ∀ e ∈ s.keys, ∀ e' ∈ s.keys, e.1 = e'.1 ↔ e.2 = e'.2

/-- At most 127 pairs were sent, and at most 128 flows received. -/
def Few (s : FlowTables) : Prop := s.sentPairs.card ≤ 127 ∧ s.receivedFlows.card ≤ 128

/-! ## Counting -/

/-- Indices that tell their owners apart are at least as many. -/
theorem card_owners_le {α : Type*} [DecidableEq α] {used : List (α × ℕ)} (first last : ℕ)
    (hrange : ∀ e ∈ used, first ≤ e.2 ∧ e.2 < last)
    (hiff : ∀ e ∈ used, ∀ e' ∈ used, e.1 = e'.1 ↔ e.2 = e'.2) :
    (used.toFinset.image Prod.fst).card ≤ last - first := by
  have hindices : used.toFinset.image Prod.snd ⊆ Finset.Ico first last := by
    intro n hn
    obtain ⟨e, he, rfl⟩ := Finset.mem_image.mp hn
    exact Finset.mem_Ico.mpr (hrange e (List.mem_toFinset.mp he))
  have hinjective : Set.InjOn Prod.snd (used.toFinset : Set (α × ℕ)) := by
    intro e he e' he' heq
    have howner := (hiff e (by simpa using he) e' (by simpa using he')).mpr heq
    exact Prod.ext howner heq
  calc (used.toFinset.image Prod.fst).card ≤ used.toFinset.card := Finset.card_image_le
    _ = (used.toFinset.image Prod.snd).card := (Finset.card_image_of_injOn hinjective).symm
    _ ≤ (Finset.Ico first last).card := Finset.card_le_card hindices
    _ = last - first := Nat.card_Ico first last

theorem Right.few {s : FlowTables} (h : Right s) : Few s :=
  ⟨card_owners_le 1 fCnt h.index_range h.index_iff,
    card_owners_le 0 fCnt (fun e he => ⟨Nat.zero_le _, h.key_lt e he⟩) h.key_iff⟩

/-! ## The search of `Receive` -/

theorem ecnKey_spec (source : List FlowKey) (k : FlowKey) :
    source[ecnKey source k]? = some k ∨ ecnKey source k = source.length ∧ k ∉ source := by
  have hfold : ∀ m,
      let found := (List.range m).foldl
        (fun key i => if source[i]? = some k then some i else key) none
      (∀ n, found = some n → source[n]? = some k) ∧
        (found = none → ∀ i < m, source[i]? ≠ some k) := by
    intro m
    induction m with
    | zero => simp
    | succ m ih =>
        dsimp only at ih ⊢
        rw [List.range_succ, List.foldl_append, List.foldl_cons, List.foldl_nil]
        split
        next hmatch =>
          refine ⟨fun n hn => ?_, by simp⟩
          obtain rfl := Option.some.inj hn
          exact hmatch
        next hmatch =>
          refine ⟨ih.1, fun hnone i hi => ?_⟩
          rcases Nat.lt_succ_iff_lt_or_eq.mp hi with hi | rfl
          · exact ih.2 hnone i hi
          · exact hmatch
  obtain ⟨hsome, hnone⟩ := hfold source.length
  unfold ecnKey
  cases hfound : (List.range source.length).foldl
      (fun key i => if source[i]? = some k then some i else key) none with
  | some n => exact Or.inl (hsome n hfound)
  | none =>
      refine Or.inr ⟨rfl, fun hmem => ?_⟩
      obtain ⟨i, hi, rfl⟩ := List.getElem_of_mem hmem
      exact hnone hfound i hi (List.getElem?_eq_getElem hi)

end FlowTables

/-! ## What leaves the tables alone -/

namespace Nic

/-- The tables of flows are the same. -/
structure SameTables (s t : Nic) : Prop where
  ports : t.findexUdpportMap = s.findexUdpportMap
  classes : t.findexQindexMap = s.findexQindexMap
  fcount : t.queue.fcount = s.queue.fcount

theorem SameTables.trans {s t u : Nic} (h : s.SameTables t) (h' : t.SameTables u) :
    s.SameTables u :=
  ⟨h'.ports.trans h.ports, h'.classes.trans h.classes, h'.fcount.trans h.fcount⟩

theorem SameTables.of_sameFlows {s t : Nic} (h : s.SameFlows t)
    (hfcount : t.queue.fcount = s.queue.fcount) : s.SameTables t :=
  ⟨h.ports, h.classes, hfcount⟩

variable {c : NicConfig} {s t : Nic} {result : Nic × Option Packet}

theorem dequeueNext_fcount {popped : Packet × BEgressQueue}
    (h : s.dequeueNext c = some popped) : popped.2.fcount = s.queue.fcount := by
  have hpop : ∀ {i rrlast qlast : Fin fCnt}, s.queue.popFrom i rrlast qlast = some popped →
      popped.2.fcount = s.queue.fcount := by
    intro i rrlast qlast hpop
    obtain ⟨rest, -, hnext⟩ := BEgressQueue.popFrom_eq_some.mp hpop
    rw [hnext]
    rfl
  unfold dequeueNext at h
  split at h
  · unfold BEgressQueue.dequeueQCN at h
    split at h
    · cases h
    · obtain ⟨i, -, h⟩ := Option.bind_eq_some_iff.mp h
      exact hpop h
  · unfold BEgressQueue.dequeueNIC at h
    split at h
    · cases h
    · obtain ⟨j, -, h⟩ := Option.bind_eq_some_iff.mp h
      exact hpop h

theorem dequeueAndTransmit_sameTables (c : NicConfig) (s : Nic) :
    s.SameTables (dequeueAndTransmit c s).1 := by
  refine SameTables.of_sameFlows (dequeueAndTransmit_sameFlows c s) ?_
  unfold dequeueAndTransmit
  split
  · rfl
  · split
    next hpopped => exact dequeueNext_fcount hpopped
    next => rfl

theorem SameTables.then_transmit (h : s.SameTables t) :
    s.SameTables (dequeueAndTransmit c t).1 :=
  h.trans (dequeueAndTransmit_sameTables c t)

theorem recover_sameTables (i : Fin fCnt) (buffer : DropTailQueue) :
    s.SameTables (s.recover i buffer) :=
  ⟨rfl, rfl, (BEgressQueue.recoverQueue_fcount buffer i).1⟩

theorem receiveFeedback_sameTables {f : Feedback} (h : s.receiveFeedback c f = some result) :
    s.SameTables result.1 := by
  cases f with
  | ack qbbh =>
      obtain ⟨i, buffer, kept, t, -, -, hports, hclasses, -, hqueue, hresult⟩ := receiveAck_cuts h
      have hsame : s.SameTables t := ⟨hports, hclasses, by rw [hqueue]⟩
      rcases hresult with rfl | rfl
      · exact hsame
      · exact hsame.then_transmit
  | nack qbbh =>
      obtain ⟨i, buffer, seq, -, -, -, -, rfl⟩ := receiveNack_recovers h
      have hsame := recover_sameTables (s := s) i (keptFrom buffer seq)
      split
      · exact SameTables.then_transmit (t := (s.recover i (keptFrom buffer seq)).stopWaiting i)
          ⟨hsame.ports, hsame.classes, hsame.fcount⟩
      · exact hsame
  | cnp cnHead =>
      obtain ⟨hflows, hqueue⟩ := receiveCnp_sameFlows h
      exact SameTables.of_sameFlows hflows (by rw [hqueue])

theorem sendControl_sameTables (c : NicConfig) (s : Nic) (p : Packet) :
    s.SameTables (s.sendControl c p).1 := by
  unfold sendControl
  apply SameTables.then_transmit
  exact ⟨rfl, rfl, BEgressQueue.enqueue_fcount _ p _⟩

/-- No event but `Send` changes the tables. -/
theorem handle_sameTables {event : Event} (hevent : ∀ p, event ≠ .send p)
    (h : s.handle c event = some result) : s.SameTables result.1 := by
  cases event with
  | send p => exact absurd rfl (hevent p)
  | control p =>
      obtain rfl := Option.some.inj h
      exact sendControl_sameTables c s p
  | transmitComplete =>
      obtain rfl := Option.some.inj h
      exact SameTables.then_transmit (t := { s with currentPkt := none }) ⟨rfl, rfl, rfl⟩
  | nextSend =>
      obtain rfl := Option.some.inj h
      exact SameTables.then_transmit (t := { s with nextSend := none }) ⟨rfl, rfl, rfl⟩
  | retransmit findex =>
      obtain ⟨buffer, -, rfl⟩ := Option.map_eq_some_iff.mp h
      have hsame := recover_sameTables (s := s) findex buffer
      exact SameTables.then_transmit (t := (s.recover findex buffer).stopWaiting findex)
        ⟨hsame.ports, hsame.classes, hsame.fcount⟩
  | feedback f => exact receiveFeedback_sameTables h
  | pause pauseh =>
      obtain rfl := Option.some.inj h
      obtain ⟨t, hflows, hqueue, hresult⟩ := receivePause_cases c s pauseh
      have hsame := SameTables.of_sameFlows hflows (by rw [hqueue])
      rcases hresult with hresult | hresult
      · rw [hresult]
        exact hsame
      · rw [hresult]
        exact hsame.then_transmit
  | pauseFinish qIndex =>
      obtain rfl := Option.some.inj h
      unfold pauseFinish
      apply SameTables.then_transmit
      exact ⟨rfl, rfl, rfl⟩
  | rateTimer fIndex =>
      obtain rfl := Option.some.inj h
      exact ⟨rfl, rfl, rfl⟩
  | alphaTimer fIndex =>
      obtain rfl := Option.some.inj h
      exact ⟨rfl, rfl, rfl⟩
  | advance time =>
      obtain rfl := Option.some.inj h
      exact ⟨rfl, rfl, rfl⟩

/-- `Send` changes the tables where it adds the flow, and nowhere else. -/
theorem send_sameTables {p : Packet} (h : s.send c p = some result)
    (hdata : isControl c p = false) : ∃ i, s.flowSlot p.sourcePort (sendClass p) = some i ∧
      (s.addFlow c i p.sourcePort (sendClass p)).SameTables result.1 := by
  obtain ⟨i, buffer, hi, -, rfl⟩ := send_eq_some h (by simpa [isControl] using hdata)
  refine ⟨i, hi, ?_⟩
  apply SameTables.then_transmit
  exact ⟨rfl, rfl, BEgressQueue.enqueue_fcount _ p _⟩

theorem send_control_sameTables {p : Packet} (h : s.send c p = some result)
    (hcontrol : isControl c p = true) : s.SameTables result.1 := by
  unfold send at h
  dsimp only at h
  rw [if_pos (by simpa [isControl] using hcontrol)] at h
  obtain rfl := Option.some.inj h
  exact sendControl_sameTables c s p

end Nic

/-! ## The tables over a run -/

namespace FlowTables

/-- While nothing has overflowed, the tables hold what was recorded. -/
structure Tables (s : FlowTables) : Prop where
  used_iff : ∀ i : Fin fCnt, i ≠ 0 →
    (i.val < s.nic.queue.fcount ↔ s.nic.findexUdpportMap i ≠ 0)
  sent : ∀ e ∈ s.sends, ∃ i : Fin fCnt, i ≠ 0 ∧ i.val = e.2 ∧ i.val < s.nic.queue.fcount ∧
    s.nic.pairAt i = e.1
  used : ∀ i : Fin fCnt, i ≠ 0 → i.val < s.nic.queue.fcount → (s.nic.pairAt i, i.val) ∈ s.sends
  apart : ∀ i j : Fin fCnt, i ≠ 0 → j ≠ 0 → i.val < s.nic.queue.fcount →
    j.val < s.nic.queue.fcount → s.nic.pairAt i = s.nic.pairAt j → i = j
  keys : ∀ e ∈ s.keys, s.ecnSource[e.2]? = some e.1
  listed : ∀ k ∈ s.ecnSource, ∃ n, (k, n) ∈ s.keys
  nodup : s.ecnSource.Nodup

variable {c : NicConfig} {s next : FlowTables}

/-- No index is in use at the start. -/
theorem not_lt_start_fcount (c : NicConfig) (maxBytes : ℚ) {i : Fin fCnt} (hne : i ≠ 0) :
    ¬ i.val < (start c maxBytes).nic.queue.fcount := by
  have hpos := Fin.val_ne_zero_iff.mpr hne
  change ¬ i.val < 1
  omega

theorem start_tables (c : NicConfig) (maxBytes : ℚ) : Tables (start c maxBytes) where
  used_iff := fun i hne => iff_of_false (not_lt_start_fcount c maxBytes hne) (not_not.mpr rfl)
  sent := by simp [start]
  used := fun i hne hlt => absurd hlt (not_lt_start_fcount c maxBytes hne)
  apart := fun i j hne _ hlt => absurd hlt (not_lt_start_fcount c maxBytes hne)
  keys := by simp [start]
  listed := by simp [start]
  nodup := List.nodup_nil

/-- The received flows are those in `m_ecn_source`. -/
theorem Tables.length_le (h : Tables s) : s.ecnSource.length ≤ s.receivedFlows.card := by
  have hsub : s.ecnSource.toFinset ⊆ s.receivedFlows := by
    intro k hk
    obtain ⟨n, hn⟩ := h.listed k (List.mem_toFinset.mp hk)
    exact Finset.mem_image.mpr ⟨(k, n), List.mem_toFinset.mpr hn, rfl⟩
  rw [← List.toFinset_card_of_nodup h.nodup]
  exact Finset.card_le_card hsub

theorem Tables.right (h : Tables s) (hfew : Few s) : Right s where
  index_range := by
    intro e he
    obtain ⟨i, hne, hi, -, -⟩ := h.sent e he
    have hpos := Fin.val_ne_zero_iff.mpr hne
    have hlt := i.isLt
    omega
  index_iff := by
    intro e he e' he'
    obtain ⟨i, hne, hi, hlt, hpair⟩ := h.sent e he
    obtain ⟨j, hne', hj, hlt', hpair'⟩ := h.sent e' he'
    rw [← hi, ← hj, ← hpair, ← hpair']
    constructor
    · intro heq
      rw [h.apart i j hne hne' hlt hlt' heq]
    · intro heq
      rw [Fin.ext heq]
  index_le := by
    intro e he
    obtain ⟨i, -, hi, hlt, -⟩ := h.sent e he
    omega
  fcount := by
    have hpos := s.nic.queue.fcount_pos
    have hle := s.nic.queue.fcount_le
    by_cases hone : s.nic.queue.fcount = 1
    · exact Or.inl hone
    · have hlast : s.nic.queue.fcount - 1 < fCnt := by omega
      have hne : (⟨s.nic.queue.fcount - 1, hlast⟩ : Fin fCnt) ≠ 0 := by
        apply Fin.ne_of_val_ne
        simp only [Fin.val_zero]
        omega
      have hused := h.used _ hne (by simp only; omega)
      refine Or.inr ⟨_, hused, ?_⟩
      simp only
      omega
  key_lt := by
    intro e he
    obtain ⟨hlt, -⟩ := List.getElem?_eq_some_iff.mp (h.keys e he)
    exact hlt.trans_le (h.length_le.trans hfew.2)
  key_iff := by
    intro e he e' he'
    obtain ⟨hlt, hkey⟩ := List.getElem?_eq_some_iff.mp (h.keys e he)
    obtain ⟨hlt', hkey'⟩ := List.getElem?_eq_some_iff.mp (h.keys e' he')
    rw [← hkey, ← hkey']
    exact h.nodup.getElem_inj_iff

/-- What the tables hold does not depend on the rest of the device. -/
theorem Tables.of_sameTables {nic : Nic} (h : Tables s) (hsame : s.nic.SameTables nic) :
    Tables { s with nic := nic } := by
  have hpair : ∀ i, nic.pairAt i = s.nic.pairAt i := by
    intro i
    unfold Nic.pairAt
    rw [hsame.ports, hsame.classes]
  constructor
  · intro i hne
    simp only [hsame.fcount, hsame.ports]
    exact h.used_iff i hne
  · simp only [hsame.fcount, hpair]
    exact h.sent
  · simp only [hsame.fcount, hpair]
    exact h.used
  · simp only [hsame.fcount, hpair]
    exact h.apart
  · exact h.keys
  · exact h.listed
  · exact h.nodup

/-- A search that finds nothing has met 127 other pairs. -/
theorem Tables.card_of_full (h : Tables s) (pair : FlowPair)
    (hnone : s.nic.flowSlot pair.1 pair.2 = none) : 127 < (insert pair s.sentPairs).card := by
  have hmet := Nic.flowSlot_eq_none hnone
  have hlt : ∀ i : Fin fCnt, i ≠ 0 → i.val < s.nic.queue.fcount := fun i hne =>
    (h.used_iff i hne).mpr (hmet i hne).1
  have hnew : pair ∉ (Finset.univ.erase 0).image s.nic.pairAt := by
    intro hmem
    obtain ⟨i, hi, rfl⟩ := Finset.mem_image.mp hmem
    exact (hmet i (Finset.ne_of_mem_erase hi)).2 ⟨rfl, rfl⟩
  have hsub : (Finset.univ.erase 0).image s.nic.pairAt ⊆ s.sentPairs := by
    intro other hother
    obtain ⟨i, hi, rfl⟩ := Finset.mem_image.mp hother
    have hused := h.used i (Finset.ne_of_mem_erase hi) (hlt i (Finset.ne_of_mem_erase hi))
    exact Finset.mem_image.mpr ⟨_, List.mem_toFinset.mpr hused, rfl⟩
  have hcard : ((Finset.univ.erase 0).image s.nic.pairAt).card = 127 := by
    rw [Finset.card_image_of_injOn, Finset.card_erase_of_mem (Finset.mem_univ 0),
      Finset.card_univ, Fintype.card_fin]
    · rfl
    · intro i hi j hj heq
      have hine := Finset.ne_of_mem_erase hi
      have hjne := Finset.ne_of_mem_erase hj
      exact h.apart i j hine hjne (hlt i hine) (hlt j hjne) heq
  have hle := Finset.card_le_card (Finset.insert_subset_insert pair hsub)
  rw [Finset.card_insert_of_notMem hnew, hcard] at hle
  exact hle

/-- `Send` finds the index of the pair. -/
theorem Tables.send_known (h : Tables s) (pair : FlowPair) {i : Fin fCnt} (hne : i ≠ 0)
    (hused : s.nic.findexUdpportMap i ≠ 0) (hpair : s.nic.pairAt i = pair) :
    Tables { s with sends := (pair, i.val) :: s.sends } where
  used_iff := h.used_iff
  sent := by
    intro e he
    rcases List.mem_cons.mp he with rfl | he
    · exact ⟨i, hne, rfl, (h.used_iff i hne).mpr hused, hpair⟩
    · exact h.sent e he
  used := fun j hj hlt => List.mem_cons_of_mem _ (h.used j hj hlt)
  apart := h.apart
  keys := h.keys
  listed := h.listed
  nodup := h.nodup

/-- The index of a new pair. -/
structure Fresh (s : FlowTables) (pair : FlowPair) (i : Fin fCnt) : Prop where
  ne : i ≠ 0
  unused : s.nic.findexUdpportMap i = 0
  fcount : s.nic.queue.fcount = i.val
  new : ∀ j : Fin fCnt, j ≠ 0 → j.val < i.val → s.nic.pairAt j ≠ pair

/-- `Send` gives a new pair the first unused index. -/
theorem Tables.fresh (h : Tables s) (pair : FlowPair) {i : Fin fCnt}
    (hi : s.nic.flowSlot pair.1 pair.2 = some i) (hunused : s.nic.findexUdpportMap i = 0) :
    Fresh s pair i := by
  obtain ⟨⟨hne, -⟩, hearlier⟩ := Nic.flowSlot_eq_some hi
  have hfcount := Nic.fcount_eq_of_unused h.used_iff hne hunused
    fun j hj hlt => (hearlier j hj hlt).1
  refine ⟨hne, hunused, hfcount, ?_⟩
  rintro j hj hlt rfl
  exact (hearlier j hj hlt).2 ⟨rfl, rfl⟩

section AddFlow

variable {pair : FlowPair} {i : Fin fCnt}

theorem pairAt_addFlow_self (hunused : s.nic.findexUdpportMap i = 0) :
    (s.nic.addFlow c i pair.1 pair.2).pairAt i = pair := by
  simp [Nic.addFlow, hunused, Nic.pairAt]

theorem pairAt_addFlow_of_ne (hunused : s.nic.findexUdpportMap i = 0) {j : Fin fCnt}
    (hj : j ≠ i) : (s.nic.addFlow c i pair.1 pair.2).pairAt j = s.nic.pairAt j := by
  simp [Nic.addFlow, hunused, Nic.pairAt, hj]

theorem fcount_addFlow (pair : FlowPair) (hunused : s.nic.findexUdpportMap i = 0) :
    (s.nic.addFlow c i pair.1 pair.2).queue.fcount = i.val + 1 := by
  unfold Nic.addFlow
  rw [if_pos hunused]
  rfl

/-- An index in use is the new one or was in use before. -/
theorem Fresh.used_cases (hfresh : Fresh s pair i) {j : Fin fCnt} (hlt : j.val < i.val + 1) :
    j = i ∨ j ≠ i ∧ j.val < s.nic.queue.fcount := by
  have hfcount := hfresh.fcount
  by_cases hj : j = i
  · exact Or.inl hj
  · have hval : j.val ≠ i.val := fun heq => hj (Fin.ext heq)
    exact Or.inr ⟨hj, by omega⟩

theorem Fresh.used_iff (hfresh : Fresh s pair i) (h : Tables s) (hport : pair.1 ≠ 0)
    {j : Fin fCnt} (hj : j ≠ 0) :
    j.val < i.val + 1 ↔ (s.nic.addFlow c i pair.1 pair.2).findexUdpportMap j ≠ 0 := by
  by_cases hji : j = i
  · rw [hji]
    simp [Nic.addFlow, hfresh.unused, hport]
  · have hval : j.val ≠ i.val := fun heq => hji (Fin.ext heq)
    have hmap : (s.nic.addFlow c i pair.1 pair.2).findexUdpportMap j =
        s.nic.findexUdpportMap j :=
      congrArg Prod.fst (pairAt_addFlow_of_ne hfresh.unused hji)
    rw [hmap, ← h.used_iff j hj, hfresh.fcount]
    omega

/-- The new pair is at no other index. -/
theorem Fresh.apart (hfresh : Fresh s pair i) (h : Tables s) {j k : Fin fCnt} (hj : j ≠ 0)
    (hk : k ≠ 0) (hjlt : j.val < i.val + 1) (hklt : k.val < i.val + 1)
    (heq : (s.nic.addFlow c i pair.1 pair.2).pairAt j =
      (s.nic.addFlow c i pair.1 pair.2).pairAt k) : j = k := by
  have hfcount := hfresh.fcount
  rcases hfresh.used_cases hjlt with hji | ⟨hji, hjlt⟩
  · rcases hfresh.used_cases hklt with hki | ⟨hki, hklt⟩
    · exact hji.trans hki.symm
    · rw [hji, pairAt_addFlow_self hfresh.unused, pairAt_addFlow_of_ne hfresh.unused hki] at heq
      exact absurd heq.symm (hfresh.new k hk (by omega))
  · rcases hfresh.used_cases hklt with hki | ⟨hki, hklt⟩
    · rw [hki, pairAt_addFlow_self hfresh.unused, pairAt_addFlow_of_ne hfresh.unused hji] at heq
      exact absurd heq (hfresh.new j hj (by omega))
    · rw [pairAt_addFlow_of_ne hfresh.unused hji, pairAt_addFlow_of_ne hfresh.unused hki] at heq
      exact h.apart j k hj hk hjlt hklt heq

theorem Tables.send_new (h : Tables s) (hport : pair.1 ≠ 0) (hfresh : Fresh s pair i) :
    Tables { s with
      nic := s.nic.addFlow c i pair.1 pair.2
      sends := (pair, i.val) :: s.sends } := by
  have hcount := fcount_addFlow (c := c) pair hfresh.unused
  constructor
  · intro j hj
    simp only [hcount]
    exact hfresh.used_iff h hport hj
  · intro e he
    simp only [hcount]
    rcases List.mem_cons.mp he with rfl | he
    · exact ⟨i, hfresh.ne, rfl, Nat.lt_succ_self _, pairAt_addFlow_self hfresh.unused⟩
    · obtain ⟨j, hj, hval, hlt, hpair⟩ := h.sent e he
      rw [hfresh.fcount] at hlt
      have hji : j ≠ i := by
        rintro rfl
        exact Nat.lt_irrefl _ hlt
      exact ⟨j, hj, hval, by omega, (pairAt_addFlow_of_ne hfresh.unused hji).trans hpair⟩
  · intro j hj hlt
    simp only [hcount] at hlt
    simp only
    rcases hfresh.used_cases hlt with rfl | ⟨hji, hlt⟩
    · rw [pairAt_addFlow_self hfresh.unused]
      exact List.mem_cons_self
    · rw [pairAt_addFlow_of_ne hfresh.unused hji]
      exact List.mem_cons_of_mem _ (h.used j hj hlt)
  · intro j k hj hk hjlt hklt heq
    simp only [hcount] at hjlt hklt
    exact hfresh.apart h hj hk hjlt hklt heq
  · exact h.keys
  · exact h.listed
  · exact h.nodup

end AddFlow

theorem Tables.send (h : Tables s) {p : Packet} (hsend : s.send c p = some next)
    (hfew : Few next) : Tables next := by
  unfold FlowTables.send at hsend
  split at hsend
  next hcontrol =>
    obtain ⟨result, hresult, rfl⟩ := Option.map_eq_some_iff.mp hsend
    exact h.of_sameTables (Nic.send_control_sameTables hresult hcontrol)
  next hdata =>
    split at hsend
    · cases hsend
    next hport =>
      dsimp only at hsend
      cases hslot : s.nic.flowSlot p.sourcePort (Nic.sendClass p) with
      | none =>
          -- the search has run off the table, so the pair is the 128th
          have hindex : s.nic.sendIndex (p.sourcePort, Nic.sendClass p) = fCnt := by
            simp [Nic.sendIndex, hslot]
          rw [if_pos hindex] at hsend
          obtain rfl := Option.some.inj hsend
          have hmany := h.card_of_full (p.sourcePort, Nic.sendClass p) hslot
          have hle := hfew.1
          simp only [sentPairs, List.toFinset_cons, Finset.image_insert] at hle
          exact absurd hmany (Nat.not_lt.mpr hle)
      | some i =>
          have hindex : s.nic.sendIndex (p.sourcePort, Nic.sendClass p) = i.val := by
            simp [Nic.sendIndex, hslot]
          rw [hindex, if_neg (Nat.ne_of_lt i.isLt)] at hsend
          obtain ⟨result, hresult, rfl⟩ := Option.map_eq_some_iff.mp hsend
          obtain ⟨j, hj, hsame⟩ := Nic.send_sameTables hresult (by simpa using hdata)
          obtain rfl := Option.some.inj (hslot.symm.trans hj)
          by_cases hunused : s.nic.findexUdpportMap i = 0
          · have hfresh := h.fresh (p.sourcePort, Nic.sendClass p) hslot hunused
            exact (h.send_new hport hfresh).of_sameTables hsame
          · obtain ⟨⟨hne, hfound⟩, -⟩ := Nic.flowSlot_eq_some hslot
            have hpair := hfound.resolve_left hunused
            rw [Nic.addFlow, if_neg hunused] at hsame
            have hsent := h.send_known (p.sourcePort, Nic.sendClass p) hne hunused
              (Prod.ext hpair.1 hpair.2)
            exact hsent.of_sameTables hsame

theorem Tables.receive (h : Tables s) (k : FlowKey) : Tables (s.receive k) := by
  have hkey := ecnKey_spec s.ecnSource k
  refine ⟨h.used_iff, h.sent, h.used, h.apart, ?_, ?_, ?_⟩
  · intro e he
    simp only [FlowTables.receive] at he ⊢
    rcases List.mem_cons.mp he with rfl | he
    · rcases hkey with hfound | ⟨hend, hnot⟩
      · rw [if_pos (List.mem_of_getElem? hfound)]
        exact hfound
      · rw [if_neg hnot, hend, List.getElem?_concat_length]
    · obtain ⟨hlt, -⟩ := List.getElem?_eq_some_iff.mp (h.keys e he)
      split
      · exact h.keys e he
      · rw [List.getElem?_append_left hlt]
        exact h.keys e he
  · intro other hother
    simp only [FlowTables.receive] at hother ⊢
    split at hother
    · obtain ⟨n, hn⟩ := h.listed other hother
      exact ⟨n, List.mem_cons_of_mem _ hn⟩
    · rcases List.mem_append.mp hother with hother | hother
      · obtain ⟨n, hn⟩ := h.listed other hother
        exact ⟨n, List.mem_cons_of_mem _ hn⟩
      · obtain rfl := List.mem_singleton.mp hother
        exact ⟨_, List.mem_cons_self⟩
  · simp only [FlowTables.receive]
    split
    · exact h.nodup
    next hnot =>
      rw [List.nodup_append]
      refine ⟨h.nodup, List.nodup_singleton k, ?_⟩
      rintro other hother last hlast rfl
      exact hnot (List.mem_singleton.mp hlast ▸ hother)

theorem step_other {event : Nic.Event} (hstep : step c s (.other event) = some next) :
    (∀ p, event ≠ .send p) ∧
      ∃ result, s.nic.handle c event = some result ∧ { s with nic := result.1 } = next := by
  cases event with
  | send p => cases hstep
  | _ =>
      simp only [step, Option.map_eq_some_iff] at hstep
      exact ⟨by simp, hstep⟩

theorem Tables.step (h : Tables s) {event : Event} (hstep : s.step c event = some next)
    (hfew : Few next) : Tables next := by
  cases event with
  | send p => exact h.send hstep hfew
  | receive k =>
      obtain rfl := Option.some.inj hstep
      exact h.receive k
  | other event =>
      obtain ⟨hother, result, hresult, rfl⟩ := step_other hstep
      exact h.of_sameTables (Nic.handle_sameTables hother hresult)

/-- The tables of flows are right in every state of a run exactly if in every state at most 127
pairs were sent and at most 128 flows received. -/
theorem tables_right_iff_few (c : NicConfig) (maxBytes : ℚ) (events : List Event) :
    Throughout (step c) Right (start c maxBytes) events ↔
      EachStep (step c) (fun _ _ next => Few next) (start c maxBytes) events := by
  have hfew : Few (start c maxBytes) := by simp [Few, sentPairs, receivedFlows, start]
  have hstart := start_tables c maxBytes
  rw [throughout_iff_eachStep,
    eachStep_iff_of_invariant (D := fun _ _ next => Few next) (I := Tables) ?_ ?_ hstart]
  · exact and_iff_right (hstart.right hfew)
  · intro state event next htables hstep
    exact ⟨Right.few, fun hnext => (htables.step hstep hnext).right hnext⟩
  · intro state event next htables hstep hnext
    exact htables.step hstep hnext

/-- A flow from each of `n` source ports. -/
def flowsFrom (n : ℕ) : List Event :=
  (List.range n).map fun port => .receive ⟨10, 3, UInt16.ofNat port⟩

/-- The flow after 128 others has a key behind the arrays. -/
theorem not_tables_right_129 :
    ¬ Throughout (step (Link.goBackN 0 false)) Right (start (Link.goBackN 0 false) 0)
      (flowsFrom 129) := by
  intro hall
  have hrun : (run (step (Link.goBackN 0 false)) (start (Link.goBackN 0 false) 0)
      (flowsFrom 129)).any
      (fun s => s.keys.any fun e => e.2 = fCnt) = true := by decide +kernel
  obtain ⟨s, hs, hkey⟩ := (Option.any_eq_true _ _).mp hrun
  obtain ⟨e, he, hfull⟩ := List.any_eq_true.mp hkey
  have hlt := (hall.last hs).key_lt e he
  rw [of_decide_eq_true hfull] at hlt
  exact Nat.lt_irrefl _ hlt

end FlowTables

end Ns3Rdma
