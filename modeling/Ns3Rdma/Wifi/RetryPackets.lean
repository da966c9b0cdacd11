import Mathlib.Data.List.Nodup
import Mathlib.Data.List.TakeWhile
import Ns3Rdma.Lib.StepSystem
import Ns3Rdma.Wifi.BlockAckManager

/-! # The packets to send again

Every iterator of `m_retryPackets` points to a stored packet, and none is listed twice, in the runs
that get a block ack only when no packet of its agreement is listed, and that clean up only when the
old packets of a queue lie in front of a fresh one and none of them is listed. -/

namespace Ns3Rdma.Wifi

open StepSystem

/-- The operations of the manager, and time. -/
inductive BlockAckEvent where
  | createAgreement (recipient : Mac48Address) (tid : UInt8) (startingSeq : UInt16)
  | updateAgreement (key : AgreementKey)
  | notifyAgreementUnsuccessful (key : AgreementKey)
  | switchToBlockAckIfNeeded (key : AgreementKey) (startingSeq : UInt16) (queued : UInt32)
  | storePacket (packet : Packet) (hdr : WifiMacHeader) (tStamp : ℕ)
  | notifyGotBlockAck (blockAck : CtrlBAckResponseHeader) (recipient : Mac48Address)
      (newSeq : UInt16) (queued : UInt32)
  | getNextPacket (queued : UInt32)
  | cleanupBuffers
  | destroyAgreement (key : AgreementKey)
  | advance (time : ℕ)

namespace BlockAckManager

variable (c : BlockAckConfig) (m : BlockAckManager)

/-- What the callers see to: numbers have twelve bits and fragment numbers four, a packet is stored
under an agreement that exists, and an agreement is not switched before it was answered. -/
def Enabled : BlockAckEvent → Prop
  | .createAgreement _ _ startingSeq => startingSeq < 4096
  | .updateAgreement _ | .getNextPacket _ | .cleanupBuffers | .destroyAgreement _ => True
  | .notifyAgreementUnsuccessful key => (m.agreements.entry key).isSome
  | .switchToBlockAckIfNeeded key startingSeq _ =>
      startingSeq < 4096 ∧ ¬ m.existsAgreementInState key .PENDING
  | .storePacket _ hdr _ => hdr.isQosData ∧ hdr.seqSeq < 4096 ∧ hdr.seqFrag < 16 ∧
      (m.agreements.entry hdr.agreementKey).isSome
  | .notifyGotBlockAck blockAck _ newSeq _ =>
      blockAck.multiTid = false ∧ blockAck.startingSeq < 4096 ∧ newSeq < 4096
  | .advance time => m.now ≤ time

instance : (event : BlockAckEvent) → Decidable (m.Enabled event)
  | .createAgreement _ _ startingSeq => inferInstanceAs (Decidable (startingSeq < 4096))
  | .updateAgreement _ | .getNextPacket _ | .cleanupBuffers | .destroyAgreement _ =>
      inferInstanceAs (Decidable True)
  | .notifyAgreementUnsuccessful key =>
      inferInstanceAs (Decidable ((m.agreements.entry key).isSome = true))
  | .switchToBlockAckIfNeeded key startingSeq _ =>
      inferInstanceAs (Decidable (startingSeq < 4096 ∧ ¬ m.existsAgreementInState key .PENDING))
  | .storePacket _ hdr _ => inferInstanceAs (Decidable (hdr.isQosData = true ∧ hdr.seqSeq < 4096 ∧
      hdr.seqFrag < 16 ∧ (m.agreements.entry hdr.agreementKey).isSome = true))
  | .notifyGotBlockAck blockAck _ newSeq _ => inferInstanceAs (Decidable
      (blockAck.multiTid = false ∧ blockAck.startingSeq < 4096 ∧ newSeq < 4096))
  | .advance time => inferInstanceAs (Decidable (m.now ≤ time))

def execute : BlockAckEvent → Option BlockAckManager
  | .createAgreement recipient tid startingSeq => m.createAgreement recipient tid startingSeq
  | .updateAgreement key => some (m.updateAgreement key)
  | .notifyAgreementUnsuccessful key => m.notifyAgreementUnsuccessful key
  | .switchToBlockAckIfNeeded key startingSeq queued =>
      (m.switchToBlockAckIfNeeded c key startingSeq queued).map Prod.fst
  | .storePacket packet hdr tStamp => m.storePacket packet hdr tStamp
  | .notifyGotBlockAck blockAck recipient newSeq queued =>
      m.notifyGotBlockAck c blockAck recipient newSeq queued
  | .getNextPacket queued => (m.getNextPacket c queued).map Prod.fst
  | .cleanupBuffers => m.cleanupBuffers c
  | .destroyAgreement key => m.destroyAgreement key
  | .advance time => some { m with now := time }

/-- A run goes on from a manager, or from undefined behaviour (`none`). -/
def step : Option BlockAckManager → BlockAckEvent → Option (Option BlockAckManager)
  | none, _ => some none
  | some m, event => if m.Enabled event then some (m.execute c event) else none

/-! ## What the claim says of a state and of a step -/

/-- Every iterator points to a stored packet, and none is listed twice. -/
structure Refers : Prop where
  live : ∀ it ∈ m.retryPackets, m.live it
  nodup : m.retryPackets.Nodup

/-- The packet is older than the maximum delay. -/
def old (item : Item) : Bool := item.timestamp + c.maxDelay ≤ m.now

/-- `CleanupBuffers` is defined, and removes the old packets. -/
def CleansUp : Prop :=
  ∃ m', m.cleanupBuffers c = some m' ∧
    m'.retryPackets = m.retryPackets.filter (fun it => !m.old c it) ∧
    ∀ key, ((m'.agreements.entry key).map fun a => a.queue) =
      (m.agreements.entry key).map fun a => a.queue.filter fun item => !m.old c item

/-- `GetNextPacket` cleans up if there is a packet to send again. -/
def Cleaning : BlockAckEvent → Prop
  | .cleanupBuffers => True
  | .getNextPacket _ => m.retryPackets ≠ []
  | _ => False

/-! ## The runs -/

/-- The old packets of the queue lie in front of a fresh one, and no listed packet has the number of
one of them. -/
def Tidy (a : Agreement) : Prop :=
  a.queue = [] ∨ (a.queue.dropWhile (m.old c) ≠ [] ∧
    (∀ item ∈ a.queue.dropWhile (m.old c), m.old c item = false) ∧
    ∀ item ∈ a.queue, m.old c item → ∀ it ∈ m.retryPackets,
      it.hdr.agreementKey = (a.peer, a.tid) → it.hdr.seqSeq ≠ item.hdr.seqSeq)

instance (a : Agreement) : Decidable (m.Tidy c a) := inferInstanceAs (Decidable (_ ∨ _))

def InOrder : BlockAckEvent → Prop
  | .notifyGotBlockAck blockAck recipient _ _ =>
      m.existsAgreementInState (recipient, blockAck.tidInfo) .ESTABLISHED →
        ∀ it ∈ m.retryPackets, it.hdr.agreementKey ≠ (recipient, blockAck.tidInfo)
  | .cleanupBuffers => ∀ a ∈ m.agreements.live, m.Tidy c a
  | .getNextPacket _ => m.retryPackets ≠ [] → ∀ a ∈ m.agreements.live, m.Tidy c a
  | _ => True

instance : (event : BlockAckEvent) → Decidable (m.InOrder c event)
  | .notifyGotBlockAck blockAck recipient _ _ => inferInstanceAs (Decidable
      (m.existsAgreementInState (recipient, blockAck.tidInfo) .ESTABLISHED →
        ∀ it ∈ m.retryPackets, it.hdr.agreementKey ≠ (recipient, blockAck.tidInfo)))
  | .cleanupBuffers => inferInstanceAs (Decidable (∀ a ∈ m.agreements.live, m.Tidy c a))
  | .getNextPacket _ =>
      inferInstanceAs (Decidable (m.retryPackets ≠ [] → ∀ a ∈ m.agreements.live, m.Tidy c a))
  | .createAgreement _ _ _ | .updateAgreement _ | .notifyAgreementUnsuccessful _
  | .switchToBlockAckIfNeeded _ _ _ | .storePacket _ _ _ | .destroyAgreement _ | .advance _ =>
      inferInstanceAs (Decidable True)

end BlockAckManager

/-! ## The loops over a queue -/

/-- The agreement of a key: its queue has distinct packets of the key, whose numbers are in
range. -/
structure Agreement.Good (key : AgreementKey) (bound : ℕ) (a : Agreement) : Prop where
  key_eq : (a.peer, a.tid) = key
  nodup : a.queue.Nodup
  item : ∀ item ∈ a.queue, item.hdr.agreementKey = key ∧ item.hdr.seqSeq < 4096 ∧
    item.hdr.seqFrag < 16 ∧ item.name < bound
  startingSeq : a.startingSeq < 4096

namespace CtrlBAckResponseHeader

variable {b : CtrlBAckResponseHeader} {seq : UInt16} {frag : UInt8} {queue : List Item}

theorem indexInBitmap_isSome (hstart : b.startingSeq < 4096) (hseq : seq < 4096)
    (hin : b.isInBitmap seq = true) : (b.indexInBitmap seq).isSome := by
  have hwindow : ((seq.toNat : ℤ) - b.startingSeq.toNat + 4096).tmod 4096 < 64 :=
    of_decide_eq_true hin
  have hstart' : b.startingSeq.toNat < 4096 := hstart
  have hseq' : seq.toNat < 4096 := hseq
  rw [Int.tmod_eq_emod_of_nonneg (by omega)] at hwindow
  unfold indexInBitmap
  dsimp only
  rw [if_pos]
  · rfl
  · split
    · next hle =>
      have hle' : b.startingSeq.toNat ≤ seq.toNat := hle
      change (seq - b.startingSeq).toUInt8.toNat ≤ 63
      rw [UInt16.toNat_toUInt8, UInt16.toNat_sub_of_le _ _ hle]
      omega
    · next hlt =>
      have hlt' : ¬ b.startingSeq.toNat ≤ seq.toNat := hlt
      have hdiff : (4096 - b.startingSeq).toNat = 4096 - b.startingSeq.toNat :=
        UInt16.toNat_sub_of_le _ _ (UInt16.le_of_lt hstart)
      change (4096 - b.startingSeq + seq).toUInt8.toNat ≤ 63
      rw [UInt16.toNat_toUInt8, UInt16.toNat_add, hdiff]
      omega

theorem compressedBit_isSome (hstart : b.startingSeq < 4096) (hseq : seq < 4096)
    (hin : b.isInBitmap seq = true) : ∃ received, b.compressedBit seq = some received := by
  obtain ⟨index, hindex⟩ := Option.isSome_iff_exists.mp (indexInBitmap_isSome hstart hseq hin)
  unfold compressedBit
  rw [hindex]
  exact ⟨_, rfl⟩

theorem isPacketReceived_isSome (hmulti : b.multiTid = false) (hstart : b.startingSeq < 4096)
    (hseq : seq < 4096) : ∃ received, b.isPacketReceived seq = some received := by
  unfold isPacketReceived
  cases hin : b.isInBitmap seq with
  | false => exact ⟨false, rfl⟩
  | true =>
      rw [hmulti]
      cases hcompressed : b.compressed with
      | false => exact ⟨false, rfl⟩
      | true => exact compressedBit_isSome hstart hseq hin

theorem isFragmentReceived_isSome (hmulti : b.multiTid = false) (hstart : b.startingSeq < 4096)
    (hseq : seq < 4096) (hfrag : frag < 16) :
    ∃ received, b.isFragmentReceived seq frag = some received := by
  unfold isFragmentReceived
  rw [if_pos hfrag]
  cases hin : b.isInBitmap seq with
  | false => exact ⟨false, rfl⟩
  | true =>
      rw [hmulti]
      cases hcompressed : b.compressed with
      | false =>
          obtain ⟨index, hindex⟩ :=
            Option.isSome_iff_exists.mp (indexInBitmap_isSome hstart hseq hin)
          rw [hindex]
          exact ⟨_, rfl⟩
      | true => exact compressedBit_isSome hstart hseq hin

theorem basicLoop_spec (hmulti : b.multiTid = false) (hstart : b.startingSeq < 4096)
    (hqueue : ∀ item ∈ queue, item.hdr.seqSeq < 4096 ∧ item.hdr.seqFrag < 16) :
    ∃ kept, b.basicLoop queue = some kept ∧ kept.Sublist queue := by
  induction queue with
  | nil => exact ⟨[], rfl, .slnil⟩
  | cons item rest ih =>
      obtain ⟨hseq, hfrag⟩ := hqueue item List.mem_cons_self
      obtain ⟨received, hreceived⟩ := isFragmentReceived_isSome hmulti hstart hseq hfrag
      obtain ⟨kept, hkept, hsub⟩ := ih fun item hitem => hqueue item (List.mem_cons_of_mem _ hitem)
      unfold basicLoop
      rw [hreceived, Option.bind_some, hkept, Option.map_some]
      cases received with
      | true => exact ⟨kept, rfl, hsub.cons _⟩
      | false => exact ⟨item :: kept, rfl, hsub.cons_cons _⟩

theorem compressedLoop_spec (hmulti : b.multiTid = false) (hstart : b.startingSeq < 4096)
    (hqueue : ∀ item ∈ queue, item.hdr.seqSeq < 4096) (erasing : Option UInt16) :
    ∃ kept, b.compressedLoop erasing queue = some kept ∧ kept.Sublist queue := by
  induction queue generalizing erasing with
  | nil => exact ⟨[], by unfold compressedLoop; rfl, .slnil⟩
  | cons item rest ih =>
      have hrest : ∀ item ∈ rest, item.hdr.seqSeq < 4096 :=
        fun item hitem => hqueue item (List.mem_cons_of_mem _ hitem)
      obtain ⟨received, hreceived⟩ :=
        isPacketReceived_isSome hmulti hstart (hqueue item List.mem_cons_self)
      unfold compressedLoop
      by_cases herasing : erasing = some item.hdr.seqSeq
      · obtain ⟨kept, hkept, hsub⟩ := ih hrest erasing
        rw [if_pos herasing, hkept]
        exact ⟨kept, rfl, hsub.cons _⟩
      · rw [if_neg herasing, hreceived, Option.bind_some]
        cases received with
        | true =>
            obtain ⟨kept, hkept, hsub⟩ := ih hrest (some item.hdr.seqSeq)
            rw [if_pos rfl, hkept]
            exact ⟨kept, rfl, hsub.cons _⟩
        | false =>
            obtain ⟨kept, hkept, hsub⟩ := ih hrest none
            rw [if_neg Bool.false_ne_true, hkept]
            exact ⟨item :: kept, rfl, hsub.cons_cons _⟩

/-- Some items are erased, and the others are those that are pushed to `m_retryPackets`. -/
theorem keptItems_spec (hmulti : b.multiTid = false) (hstart : b.startingSeq < 4096)
    (hqueue : ∀ item ∈ queue, item.hdr.seqSeq < 4096 ∧ item.hdr.seqFrag < 16) :
    ∃ kept, b.keptItems queue = some kept ∧ kept.Sublist queue := by
  unfold keptItems
  split
  · exact basicLoop_spec hmulti hstart hqueue
  · exact compressedLoop_spec hmulti hstart (fun item hitem => (hqueue item hitem).1) none

end CtrlBAckResponseHeader

namespace Agreement

variable {a : Agreement} {live : Item → Bool} {seq : UInt16} {retryPackets queue : List Item}
  {maxDelay now : ℕ}

theorem eraseRetries_eq_some (hlive : ∀ it ∈ retryPackets, live it)
    (hother : ∀ it ∈ retryPackets, it.hdr.agreementKey = (a.peer, a.tid) → it.hdr.seqSeq ≠ seq) :
    a.eraseRetries live seq retryPackets = some retryPackets := by
  induction retryPackets with
  | nil => rfl
  | cons it rest ih =>
      have hne : (it.hdr.addr1 == a.peer && it.hdr.qosTid == a.tid &&
          it.hdr.seqSeq == seq) = false := by
        by_contra htrue
        simp only [Bool.not_eq_false, Bool.and_eq_true, beq_iff_eq] at htrue
        obtain ⟨⟨hpeer, htid⟩, hseq⟩ := htrue
        refine hother it List.mem_cons_self ?_ hseq
        unfold WifiMacHeader.agreementKey
        rw [hpeer, htid]
      unfold eraseRetries
      rw [if_pos (hlive it List.mem_cons_self), hne, if_neg Bool.false_ne_true,
        ih (fun it hit => hlive it (List.mem_cons_of_mem _ hit))
          (fun it hit => hother it (List.mem_cons_of_mem _ hit))]
      rfl

theorem firstFresh_eq {old : Item → Bool}
    (hold : ∀ item, old item = true ↔ item.timestamp + maxDelay ≤ now)
    (hlive : ∀ it ∈ retryPackets, live it)
    (hother : ∀ item ∈ queue, old item → ∀ it ∈ retryPackets,
      it.hdr.agreementKey = (a.peer, a.tid) → it.hdr.seqSeq ≠ item.hdr.seqSeq)
    (hfresh : queue.dropWhile old ≠ []) :
    a.firstFresh live retryPackets maxDelay now queue = some (some (queue.dropWhile old)) := by
  induction queue with
  | nil => exact absurd rfl hfresh
  | cons item rest ih =>
      unfold firstFresh
      cases hitem : old item with
      | true =>
          rw [List.dropWhile_cons_of_pos hitem] at hfresh ⊢
          rw [if_neg (Nat.not_lt.mpr ((hold item).mp hitem)),
            eraseRetries_eq_some hlive (hother item List.mem_cons_self hitem), Option.bind_some]
          exact ih (fun item hitem => hother item (List.mem_cons_of_mem _ hitem)) hfresh
      | false =>
          have hnot : ¬ item.timestamp + maxDelay ≤ now := by
            rw [← hold item, hitem]
            exact Bool.false_ne_true
          rw [if_pos (Nat.lt_of_not_le hnot), List.dropWhile_cons_of_neg (by rw [hitem]; decide)]

end Agreement

/-- What is left when the packets in front are old and the others are not. -/
theorem filter_eq_dropWhile {old : Item → Bool} {queue : List Item}
    (hfresh : ∀ item ∈ queue.dropWhile old, old item = false) :
    queue.filter (fun item => !old item) = queue.dropWhile old := by
  conv_lhs => rw [← List.takeWhile_append_dropWhile (p := old) (l := queue)]
  rw [List.filter_append]
  have hold : (queue.takeWhile old).filter (fun item => !old item) = [] := by
    rw [List.filter_eq_nil_iff]
    intro item hitem
    simp [List.mem_takeWhile_imp hitem]
  have hall : (queue.dropWhile old).filter (fun item => !old item) = queue.dropWhile old := by
    rw [List.filter_eq_self]
    intro item hitem
    simp [hfresh item hitem]
  rw [hold, hall, List.nil_append]

namespace BlockAckManager

variable {c : BlockAckConfig} {m m' : BlockAckManager} {key : AgreementKey} {a a' : Agreement}
  {it : Item} {listed : List Item} {seq : UInt16} {bound : ℕ}

theorem live_iff : m.live it = true ↔
    ∃ a, m.agreements.entry it.hdr.agreementKey = some a ∧ it ∈ a.queue := by
  unfold live
  rw [Option.any_eq_true]
  simp only [decide_eq_true_eq]

/-- The iterators are in order, and so are the agreements; an agreement of which a packet is listed
was answered. -/
structure Ready (m : BlockAckManager) : Prop where
  refers : m.Refers
  good : ∀ key a, m.agreements.entry key = some a → a.Good key m.nextName
  answered : ∀ it ∈ m.retryPackets, ∀ a, m.agreements.entry it.hdr.agreementKey = some a →
    a.state ≠ .PENDING

theorem ready_new (now : ℕ) : (new now).Ready := by
  constructor
  case refers => exact ⟨fun it hit => absurd hit List.not_mem_nil, List.nodup_nil⟩
  case good =>
    intro key a ha
    cases ha
  case answered =>
    intro it hit
    cases hit

theorem good_mono {bound' : ℕ} (h : a.Good key bound) (hle : bound ≤ bound') :
    a.Good key bound' :=
  ⟨h.key_eq, h.nodup, fun item hitem =>
    let ⟨hkey, hseq, hfrag, hname⟩ := h.item item hitem
    ⟨hkey, hseq, hfrag, Nat.lt_of_lt_of_le hname hle⟩, h.startingSeq⟩

/-- One agreement changes, and the listed packets are packets of it or were listed before. -/
theorem Ready.put (h : m.Ready) (hgood : a.Good key bound) (hbound : m.nextName ≤ bound)
    (hlisted : ∀ it ∈ listed, if it.hdr.agreementKey = key then it ∈ a.queue ∧ a.state ≠ .PENDING
      else it ∈ m.retryPackets) (hnodup : listed.Nodup) :
    Ready ⟨m.agreements.put key a, listed, bound, m.now⟩ := by
  constructor
  case refers =>
    refine ⟨fun it hit => ?_, hnodup⟩
    have hcase := hlisted it hit
    rw [live_iff]
    split at hcase
    · next hkey =>
      refine ⟨a, ?_, hcase.1⟩
      rw [hkey]
      exact Registry.put_entry_self _ _ _
    · next hkey =>
      obtain ⟨b, hb, hmem⟩ := live_iff.mp (h.refers.live it hcase)
      exact ⟨b, (Registry.put_entry_of_ne hkey a).trans hb, hmem⟩
  case good =>
    intro other b hb
    by_cases hother : other = key
    · subst hother
      obtain rfl := Option.some.inj ((Registry.put_entry_self _ _ _).symm.trans hb)
      exact hgood
    · rw [Registry.put_entry_of_ne hother a] at hb
      exact good_mono (h.good other b hb) hbound
  case answered =>
    intro it hit b hb
    have hcase := hlisted it hit
    split at hcase
    · next hkey =>
      rw [hkey] at hb
      obtain rfl := Option.some.inj ((Registry.put_entry_self _ _ _).symm.trans hb)
      exact hcase.2
    · next hkey =>
      exact h.answered it hcase b ((Registry.put_entry_of_ne hkey a).symm.trans hb)

/-- The listed packets of an agreement are in its queue. -/
theorem Ready.listed_mem (h : m.Ready) (ha : m.agreements.entry key = some a)
    (hit : it ∈ m.retryPackets) (hkey : it.hdr.agreementKey = key) :
    it ∈ a.queue ∧ a.state ≠ .PENDING := by
  obtain ⟨b, hb, hmem⟩ := live_iff.mp (h.refers.live it hit)
  have hstate := h.answered it hit b hb
  rw [hkey] at hb
  obtain rfl := Option.some.inj (ha.symm.trans hb)
  exact ⟨hmem, hstate⟩

/-- The queue stays, and an answered agreement stays answered. -/
theorem Ready.put_same (h : m.Ready) (ha : m.agreements.entry key = some a)
    (hgood : a'.Good key m.nextName) (hqueue : a'.queue = a.queue)
    (hstate : a.state ≠ .PENDING → a'.state ≠ .PENDING) :
    ({ m with agreements := m.agreements.put key a' } : BlockAckManager).Ready := by
  refine h.put hgood le_rfl (fun it hit => ?_) h.refers.nodup
  split
  · next hkey =>
    obtain ⟨hmem, hanswered⟩ := h.listed_mem ha hit hkey
    exact ⟨hqueue ▸ hmem, hstate hanswered⟩
  · exact hit

theorem Ready.setState (h : m.Ready) (key : AgreementKey) {state : AgreementState}
    (hstate : state ≠ .PENDING) :
    (m.setState key state).Ready := by
  unfold BlockAckManager.setState
  split
  · next a ha =>
    obtain ⟨hkey, hnodup, hitem, hseq⟩ := h.good key a ha
    exact h.put_same ha ⟨hkey, hnodup, hitem, hseq⟩ rfl fun _ => hstate
  · exact h

/-- The agreement is established, or nothing changes. -/
theorem Ready.switchToBlockAckIfNeeded (h : m.Ready) (hseq : seq < 4096)
    (hanswered : ∀ a, m.agreements.entry key = some a → a.state ≠ .PENDING) (queued : UInt32) :
    (∃ m', m.switchToBlockAckIfNeeded c key seq queued = some (m', true) ∧ m'.Ready) ∨
      m.switchToBlockAckIfNeeded c key seq queued = some (m, false) := by
  unfold BlockAckManager.switchToBlockAckIfNeeded
  split
  · next a ha =>
    rw [if_neg (hanswered a ha)]
    split
    · exact Or.inr rfl
    · split
      · unfold Agreement.setStartingSequence
        rw [if_pos hseq]
        refine Or.inl ⟨_, rfl, ?_⟩
        obtain ⟨hkey, hnodup, hitem, -⟩ := h.good key a ha
        exact h.put_same ha ⟨hkey, hnodup, hitem, hseq⟩ rfl fun _ => nofun
      · exact Or.inr rfl
  · exact Or.inr rfl

theorem Ready.createAgreement (h : m.Ready) {recipient : Mac48Address} {tid : UInt8}
    (hseq : seq < 4096) : ∃ m', m.createAgreement recipient tid seq = some m' ∧ m'.Ready := by
  unfold BlockAckManager.createAgreement Agreement.setStartingSequence
  rw [if_pos hseq, Option.map_some]
  refine ⟨_, rfl, ?_⟩
  split
  · exact h
  · next hnone =>
    refine h.put ⟨rfl, List.nodup_nil, fun item hitem => absurd hitem List.not_mem_nil, hseq⟩ le_rfl
      (fun it hit => ?_) h.refers.nodup
    split
    · next hkey =>
      obtain ⟨a, ha, -⟩ := live_iff.mp (h.refers.live it hit)
      rw [hkey, hnone] at ha
      cases ha
    · exact hit

theorem Ready.storePacket (h : m.Ready) {packet : Packet} {hdr : WifiMacHeader} {tStamp : ℕ}
    (hqos : hdr.isQosData) (hseq : hdr.seqSeq < 4096) (hfrag : hdr.seqFrag < 16)
    (hexists : (m.agreements.entry hdr.agreementKey).isSome) :
    ∃ m', m.storePacket packet hdr tStamp = some m' ∧ m'.Ready := by
  obtain ⟨a, ha⟩ := Option.isSome_iff_exists.mp hexists
  obtain ⟨hkey, hnodup, hitem, hstart⟩ := h.good _ a ha
  unfold BlockAckManager.storePacket
  rw [if_pos hqos, ha, Option.map_some]
  refine ⟨_, rfl, h.put ⟨hkey, ?_, ?_, hstart⟩ (Nat.le_succ _) (fun it hit => ?_) h.refers.nodup⟩
  · refine hnodup.append (List.nodup_singleton _) fun item hmem hnew => ?_
    rw [List.mem_singleton] at hnew
    subst hnew
    exact absurd (hitem _ hmem).2.2.2 (Nat.lt_irrefl _)
  · intro item hmem
    rcases List.mem_append.mp hmem with hmem | hnew
    · obtain ⟨hkey, hseq, hfrag, hname⟩ := hitem item hmem
      exact ⟨hkey, hseq, hfrag, Nat.lt_succ_of_lt hname⟩
    · rw [List.mem_singleton] at hnew
      subst hnew
      exact ⟨rfl, hseq, hfrag, Nat.lt_succ_self _⟩
  · split
    · next hkey =>
      obtain ⟨hmem, hstate⟩ := h.listed_mem ha hit hkey
      exact ⟨List.mem_append_left _ hmem, hstate⟩
    · exact hit

theorem Ready.destroyAgreement (h : m.Ready) (key : AgreementKey) :
    ∃ m', m.destroyAgreement key = some m' ∧ m'.Ready := by
  unfold BlockAckManager.destroyAgreement
  split
  · rw [if_pos (List.all_eq_true.mpr h.refers.live)]
    refine ⟨_, rfl, ⟨⟨fun it hit => ?_, h.refers.nodup.filter _⟩, fun other b hb => ?_,
      fun it hit b hb => ?_⟩⟩
    · obtain ⟨hmem, hne⟩ := List.mem_filter.mp hit
      obtain ⟨b, hb, hqueue⟩ := live_iff.mp (h.refers.live it hmem)
      exact live_iff.mpr
        ⟨b, (Registry.drop_entry_of_ne (of_decide_eq_true hne)).trans hb, hqueue⟩
    · by_cases hother : other = key
      · subst hother
        cases (Registry.drop_entry_self _ _).symm.trans hb
      · exact h.good other b ((Registry.drop_entry_of_ne hother).symm.trans hb)
    · obtain ⟨hmem, hne⟩ := List.mem_filter.mp hit
      exact h.answered it hmem b
        ((Registry.drop_entry_of_ne (of_decide_eq_true hne)).symm.trans hb)
  · exact ⟨m, rfl, h⟩

/-! ## Cleaning up -/

theorem old_iff {item : Item} : m.old c item = true ↔ item.timestamp + c.maxDelay ≤ m.now :=
  decide_eq_true_iff

theorem Ready.cleanup (h : m.Ready) (ha : m.agreements.entry key = some a) (htidy : m.Tidy c a) :
    ∃ a', a.cleanup m.live m.retryPackets c.maxDelay m.now = some a' ∧ a'.Good key m.nextName ∧
      a'.queue = a.queue.filter (fun item => !m.old c item) ∧ a'.state = a.state := by
  have hgood := h.good key a ha
  unfold Agreement.cleanup
  split
  · next hempty =>
    exact ⟨a, rfl, hgood, by rw [hempty]; rfl, rfl⟩
  · next first rest hqueue =>
    rcases htidy with hnil | ⟨hne, hfresh, hother⟩
    · rw [hqueue] at hnil
      cases hnil
    · rw [hqueue] at hne hfresh hother
      rw [Agreement.firstFresh_eq (fun item => old_iff) h.refers.live hother hne, Option.bind_some]
      have hfilter := filter_eq_dropWhile hfresh
      cases hdrop : (first :: rest).dropWhile (m.old c) with
      | nil => exact absurd hdrop hne
      | cons fresh others =>
          rw [hdrop] at hfilter
          have hsub : (fresh :: others).Sublist a.queue := by
            rw [← hfilter, hqueue]
            exact List.filter_sublist
          have hseq : fresh.hdr.seqSeq < 4096 :=
            (hgood.item fresh (hsub.subset List.mem_cons_self)).2.1
          refine ⟨{ a with queue := fresh :: others, startingSeq := fresh.hdr.seqSeq }, if_pos hseq,
            ⟨hgood.key_eq, hgood.nodup.sublist hsub, fun item hitem =>
              hgood.item item (hsub.subset hitem), hseq⟩, ?_, rfl⟩
          rw [hqueue, hfilter]

/-- No listed packet is old. -/
theorem Ready.listed_fresh (h : m.Ready) (htidy : ∀ a ∈ m.agreements.live, m.Tidy c a)
    (hit : it ∈ m.retryPackets) : m.old c it = false := by
  obtain ⟨a, ha, hmem⟩ := live_iff.mp (h.refers.live it hit)
  rcases htidy a (Registry.mem_live.mpr ⟨_, ha⟩) with hnil | ⟨-, -, hother⟩
  · rw [hnil] at hmem
    cases hmem
  · by_contra hold
    exact hother it hmem (Bool.eq_true_of_not_eq_false hold) it hit (h.good _ a ha).key_eq.symm rfl

theorem Ready.cleanupBuffers (h : m.Ready) (htidy : ∀ a ∈ m.agreements.live, m.Tidy c a) :
    ∃ m', m.cleanupBuffers c = some m' ∧ m'.Ready ∧ m'.retryPackets = m.retryPackets ∧
      m.CleansUp c := by
  have hclean (key : AgreementKey) (a : Agreement) (ha : m.agreements.entry key = some a) :=
    h.cleanup (c := c) ha (htidy a (Registry.mem_live.mpr ⟨key, ha⟩))
  have hcleanup : m.cleanupBuffers c = some { m with
      agreements := m.agreements.map fun a =>
        (a.cleanup m.live m.retryPackets c.maxDelay m.now).getD a } := by
    unfold BlockAckManager.cleanupBuffers
    refine if_pos fun a ha => ?_
    obtain ⟨key, hkey⟩ := Registry.mem_live.mp ha
    obtain ⟨a', ha', -⟩ := hclean key a hkey
    dsimp only
    rw [ha']
    rfl
  have hfilter : m.retryPackets.filter (fun it => !m.old c it) = m.retryPackets := by
    rw [List.filter_eq_self]
    intro it hit
    rw [h.listed_fresh htidy hit]
    rfl
  -- The agreement of a key afterwards comes from the one that was there before.
  have hentry (key : AgreementKey) (b : Agreement)
      (hb : (m.agreements.map fun a =>
        (a.cleanup m.live m.retryPackets c.maxDelay m.now).getD a).entry key = some b) :
      ∃ a, m.agreements.entry key = some a ∧ b.Good key m.nextName ∧
        b.queue = a.queue.filter (fun item => !m.old c item) ∧ b.state = a.state := by
    obtain ⟨a, ha, rfl⟩ := Option.map_eq_some_iff.mp hb
    obtain ⟨a', ha', hgood, hqueue, hstate⟩ := hclean key a ha
    refine ⟨a, ha, ?_⟩
    rw [ha', Option.getD_some]
    exact ⟨hgood, hqueue, hstate⟩
  refine ⟨_, hcleanup, ⟨⟨fun it hit => ?_, h.refers.nodup⟩, fun key b hb => ?_,
    fun it hit b hb => ?_⟩, rfl, ⟨_, hcleanup, hfilter.symm, fun key => ?_⟩⟩
  · obtain ⟨a, ha, hmem⟩ := live_iff.mp (h.refers.live it hit)
    obtain ⟨a', ha', -, hqueue, -⟩ := hclean _ a ha
    refine live_iff.mpr ⟨a', ?_, ?_⟩
    · change (m.agreements.entry it.hdr.agreementKey).map _ = some a'
      rw [ha, Option.map_some, ha', Option.getD_some]
    · rw [hqueue, List.mem_filter, h.listed_fresh htidy hit]
      exact ⟨hmem, rfl⟩
  · exact (hentry key b hb).choose_spec.2.1
  · obtain ⟨a, ha, -, -, hstate⟩ := hentry _ b hb
    rw [hstate]
    exact h.answered it hit a ha
  · change ((m.agreements.entry key).map _).map _ = _
    cases ha : m.agreements.entry key with
    | none => rfl
    | some a =>
        obtain ⟨a', ha', -, hqueue, -⟩ := hclean key a ha
        rw [Option.map_some, Option.map_some, Option.map_some, ha', Option.getD_some, hqueue]

/-! ## Block acks and retries -/

theorem Ready.notifyGotBlockAck (h : m.Ready) {blockAck : CtrlBAckResponseHeader}
    {recipient : Mac48Address} {newSeq : UInt16} {queued : UInt32}
    (hmulti : blockAck.multiTid = false) (hstart : blockAck.startingSeq < 4096)
    (hnew : newSeq < 4096)
    (horder : m.InOrder c (.notifyGotBlockAck blockAck recipient newSeq queued)) :
    ∃ m', m.notifyGotBlockAck c blockAck recipient newSeq queued = some m' ∧ m'.Ready := by
  unfold BlockAckManager.notifyGotBlockAck
  dsimp only
  have hsingle : blockAck.isMultiTid = false := by
    unfold CtrlBAckResponseHeader.isMultiTid
    rw [hmulti, Bool.false_and]
  rw [hsingle, if_neg Bool.false_ne_true]
  split
  case h_2 => exact ⟨m, rfl, h⟩
  case h_1 a ha =>
    split
    case isFalse => exact ⟨m, rfl, h⟩
    case isTrue hestablished =>
      obtain ⟨hkey, hnodup, hitem, hseq⟩ := h.good _ a ha
      obtain ⟨kept, hkept, hsub⟩ := CtrlBAckResponseHeader.keptItems_spec hmulti hstart
        fun item hmem => ⟨(hitem item hmem).2.1, (hitem item hmem).2.2.1⟩
      have hnone : ∀ it ∈ m.retryPackets, it.hdr.agreementKey ≠ (recipient, blockAck.tidInfo) := by
        refine horder ?_
        unfold existsAgreementInState
        rw [ha]
        exact decide_eq_true hestablished
      have hkeptSeq : ∀ item ∈ kept, item.hdr.seqSeq < 4096 :=
        fun item hmem => (hitem item (hsub.subset hmem)).2.1
      have hlost (other : UInt16) (hother : other < 4096) :
          (kept.head?.map fun item => item.hdr.seqSeq).getD other < 4096 := by
        cases hkept : kept with
        | nil => exact hother
        | cons first rest => exact hkeptSeq first (hkept ▸ List.mem_cons_self)
      rw [hkept, Option.bind_some]
      unfold Agreement.setStartingSequence
      rw [if_pos (hlost _ hseq), Option.bind_some]
      -- The items that are kept are pushed behind those of other agreements.
      have hready : Ready ⟨m.agreements.put (recipient, blockAck.tidInfo)
          { a with
            queue := kept
            startingSeq := (kept.head?.map fun item => item.hdr.seqSeq).getD a.startingSeq },
          m.retryPackets ++ kept, m.nextName, m.now⟩ := by
        refine h.put ⟨hkey, hnodup.sublist hsub, fun item hmem => hitem item (hsub.subset hmem),
          hlost _ hseq⟩ le_rfl (fun it hit => ?_) ?_
        · rcases List.mem_append.mp hit with hit | hit
          · rw [if_neg (hnone it hit)]
            exact hit
          · rw [if_pos (hitem it (hsub.subset hit)).1]
            refine ⟨hit, ?_⟩
            rw [hestablished]
            exact nofun
        · refine h.refers.nodup.append (hnodup.sublist hsub) fun it hit hmem => ?_
          exact hnone it hit (hitem it (hsub.subset hmem)).1
      have hanswered : ∀ b, (m.agreements.put (recipient, blockAck.tidInfo)
          { a with
            queue := kept
            startingSeq := (kept.head?.map fun item => item.hdr.seqSeq).getD a.startingSeq }).entry
          (recipient, blockAck.tidInfo) = some b → b.state ≠ .PENDING := by
        intro b hb
        obtain rfl := Option.some.inj ((Registry.put_entry_self _ _ _).symm.trans hb)
        dsimp only
        rw [hestablished]
        exact nofun
      rcases hready.switchToBlockAckIfNeeded (c := c) (hlost newSeq hnew) hanswered queued with
        ⟨m', hswitch, hready'⟩ | hswitch
      · exact ⟨m', by rw [hswitch]; rfl, hready'⟩
      · have hinactive : AgreementState.INACTIVE ≠ .PENDING := nofun
        exact ⟨_, by rw [hswitch]; rfl, hready.setState _ hinactive⟩

theorem Ready.eraseItem (h : m.Ready) (ha : m.agreements.entry it.hdr.agreementKey = some a)
    (hnot : it ∉ m.retryPackets) : ∃ m', m.eraseItem it = some m' ∧ m'.Ready := by
  obtain ⟨hkey, hnodup, hitem, hseq⟩ := h.good _ a ha
  unfold BlockAckManager.eraseItem
  rw [ha, Option.map_some]
  refine ⟨_, rfl, h.put ⟨hkey, hnodup.erase it,
    fun item hmem => hitem item (List.mem_of_mem_erase hmem), hseq⟩ le_rfl (fun other hother => ?_)
    h.refers.nodup⟩
  split
  · next hsame =>
    obtain ⟨hmem, hstate⟩ := h.listed_mem ha hother hsame
    have hne : other ≠ it := fun heq => hnot (heq ▸ hother)
    exact ⟨(List.mem_erase_of_ne hne).mpr hmem, hstate⟩
  · exact hother

theorem Ready.getNextPacket (h : m.Ready) {queued : UInt32}
    (horder : m.InOrder c (.getNextPacket queued)) :
    ∃ r, m.getNextPacket c queued = some r ∧ r.1.Ready ∧
      (m.Cleaning (.getNextPacket queued) → m.CleansUp c) := by
  unfold BlockAckManager.getNextPacket
  by_cases hempty : m.retryPackets = []
  · rw [if_pos hempty]
    exact ⟨_, rfl, h, fun hne => absurd hempty hne⟩
  · obtain ⟨m₁, hcleanup, hready, hlisted, hcleans⟩ := h.cleanupBuffers (horder hempty)
    obtain ⟨it, rest, hretry⟩ := List.exists_cons_of_ne_nil hempty
    rw [hretry] at hlisted
    have hmem : it ∈ m₁.retryPackets := by
      rw [hlisted]
      exact List.mem_cons_self
    obtain ⟨hnotMem, hnodup⟩ : it ∉ rest ∧ rest.Nodup := by
      rw [← List.nodup_cons, ← hlisted]
      exact hready.refers.nodup
    obtain ⟨a, ha, hqueue⟩ := live_iff.mp (hready.refers.live it hmem)
    -- Without the iterator that is taken, everything is still in order.
    have hpopped : ({ m₁ with retryPackets := rest } : BlockAckManager).Ready := by
      have hsub : ∀ other ∈ rest, other ∈ m₁.retryPackets := fun other hother => by
        rw [hlisted]
        exact List.mem_cons_of_mem _ hother
      exact ⟨⟨fun other hother => hready.refers.live other (hsub other hother), hnodup⟩,
        hready.good, fun other hother => hready.answered other (hsub other hother)⟩
    have hlive : ({ m₁ with retryPackets := rest } : BlockAckManager).live it = true :=
      live_iff.mpr ⟨a, ha, hqueue⟩
    rw [if_neg hempty, hcleanup, Option.bind_some, hlisted]
    dsimp only
    rw [hlive, if_neg (by decide)]
    split
    · exact ⟨_, rfl, hpopped, fun _ => hcleans⟩
    · have hseq := ((hready.good _ a ha).item it hqueue).2.1
      have hanswered : ∀ b, m₁.agreements.entry it.hdr.agreementKey = some b →
          b.state ≠ .PENDING := fun b hb => hready.answered it hmem b hb
      rcases hpopped.switchToBlockAckIfNeeded (c := c) hseq hanswered queued with
        ⟨m', hswitch, hready'⟩ | hswitch
      · rw [hswitch]
        exact ⟨_, rfl, hready', fun _ => hcleans⟩
      · obtain ⟨m', herase, hready'⟩ := hpopped.eraseItem ha hnotMem
        rw [hswitch, Option.bind_some]
        dsimp only
        rw [herase]
        exact ⟨_, rfl, hready', fun _ => hcleans⟩

/-! ## Steps -/

/-- An operation is defined and keeps everything in order, if it comes in order. -/
theorem Ready.execute (h : m.Ready) {event : BlockAckEvent} (henabled : m.Enabled event)
    (horder : m.InOrder c event) :
    ∃ m', m.execute c event = some m' ∧ m'.Ready ∧ (m.Cleaning event → m.CleansUp c) := by
  cases event with
  | createAgreement recipient tid startingSeq =>
      obtain ⟨m', hm', hready⟩ := h.createAgreement henabled
      exact ⟨m', hm', hready, False.elim⟩
  | updateAgreement key =>
      have hestablished : AgreementState.ESTABLISHED ≠ .PENDING := nofun
      exact ⟨_, rfl, h.setState key hestablished, False.elim⟩
  | notifyAgreementUnsuccessful key =>
      obtain ⟨a, ha⟩ := Option.isSome_iff_exists.mp henabled
      have hunsuccessful : AgreementState.UNSUCCESSFUL ≠ .PENDING := nofun
      refine ⟨_, ?_, h.setState key hunsuccessful, False.elim⟩
      unfold BlockAckManager.execute notifyAgreementUnsuccessful
      dsimp only
      rw [ha, Option.map_some]
  | switchToBlockAckIfNeeded key startingSeq queued =>
      obtain ⟨hseq, hpending⟩ := henabled
      -- The caller asks before whether the agreement is pending.
      have hanswered : ∀ a, m.agreements.entry key = some a → a.state ≠ .PENDING := by
        intro a ha hstate
        refine hpending ?_
        unfold existsAgreementInState
        rw [ha]
        exact decide_eq_true hstate
      unfold BlockAckManager.execute
      dsimp only
      rcases h.switchToBlockAckIfNeeded (c := c) hseq hanswered queued with
        ⟨m', hswitch, hready⟩ | hswitch
      · exact ⟨m', by rw [hswitch]; rfl, hready, False.elim⟩
      · exact ⟨m, by rw [hswitch]; rfl, h, False.elim⟩
  | storePacket packet hdr tStamp =>
      obtain ⟨hqos, hseq, hfrag, hexists⟩ := henabled
      obtain ⟨m', hm', hready⟩ := h.storePacket hqos hseq hfrag hexists
      exact ⟨m', hm', hready, False.elim⟩
  | notifyGotBlockAck blockAck recipient newSeq queued =>
      obtain ⟨hmulti, hstart, hnew⟩ := henabled
      obtain ⟨m', hm', hready⟩ := h.notifyGotBlockAck hmulti hstart hnew horder
      exact ⟨m', hm', hready, False.elim⟩
  | getNextPacket queued =>
      obtain ⟨r, hr, hready, hcleans⟩ := h.getNextPacket horder
      refine ⟨r.1, ?_, hready, hcleans⟩
      unfold BlockAckManager.execute
      dsimp only
      rw [hr, Option.map_some]
  | cleanupBuffers =>
      obtain ⟨m', hm', hready, -, hcleans⟩ := h.cleanupBuffers horder
      exact ⟨m', hm', hready, fun _ => hcleans⟩
  | destroyAgreement key =>
      obtain ⟨m', hm', hready⟩ := h.destroyAgreement key
      exact ⟨m', hm', hready, False.elim⟩
  | advance time =>
      exact ⟨_, rfl, ⟨⟨h.refers.live, h.refers.nodup⟩, h.good, h.answered⟩, False.elim⟩

/-- A state of a run: the behaviour is defined, and the iterators refer to stored packets. -/
def Sane (s : Option BlockAckManager) : Prop := ∃ m, s = some m ∧ m.Refers

/-- A step that cleans up removes what is old. -/
def Removes (c : BlockAckConfig) (s : Option BlockAckManager) (event : BlockAckEvent)
    (_ : Option BlockAckManager) : Prop :=
  ∀ m ∈ s, m.Cleaning event → m.CleansUp c

/-- The events of a run come in order. -/
def Orderly (c : BlockAckConfig) (s : Option BlockAckManager) (event : BlockAckEvent)
    (_ : Option BlockAckManager) : Prop :=
  ∀ m ∈ s, m.InOrder c event

/-- In a run whose events come in order, every listed iterator refers to a stored packet, none is
listed twice, and `CleanupBuffers` removes what is old. -/
theorem sane_of_orderly (c : BlockAckConfig) (now : ℕ) (events : List BlockAckEvent)
    (horder : EachStep (step c) (Orderly c) (some (new now)) events) :
    Throughout (step c) Sane (some (new now)) events ∧
      EachStep (step c) (Removes c) (some (new now)) events := by
  have hspec : ∀ (s : Option BlockAckManager) event next, (∃ m, s = some m ∧ m.Ready) →
      step c s event = some next → Orderly c s event next →
        (∃ m', next = some m' ∧ m'.Ready) ∧ Removes c s event next := by
    rintro s event next ⟨m, rfl, hready⟩ hstep horder
    obtain ⟨henabled, hstep⟩ := Option.ite_none_right_eq_some.mp hstep
    obtain rfl := Option.some.inj hstep
    obtain ⟨m', hm', hready', hcleans⟩ := hready.execute henabled (horder m rfl)
    refine ⟨⟨m', hm', hready'⟩, fun m₁ hm₁ hcleaning => ?_⟩
    obtain rfl := Option.some.inj hm₁
    exact hcleans hcleaning
  have hready : Throughout (step c) (fun s => ∃ m, s = some m ∧ m.Ready)
      (some (new now)) events :=
    throughout_of_eachStep
      (fun s event next hs hstep hcond => (hspec s event next hs hstep hcond).1)
      ⟨new now, rfl, ready_new now⟩ horder
  refine ⟨hready.mono ?_, ?_⟩
  · rintro s ⟨m, rfl, h⟩
    exact ⟨m, rfl, h.refers⟩
  · intro done event rest s next heq hrun hstep
    exact (hspec s event next (hready done (event :: rest) s heq hrun) hstep
      (horder done event rest s next heq hrun hstep)).2

/-! ## A repeated block ack -/

def recipient : Mac48Address := ⟨Vector.replicate 6 2⟩

/-- A QoS data packet for the recipient. -/
def dataHeader (seq : UInt16) : WifiMacHeader :=
  ⟨2, 8, false, false, recipient, ⟨Vector.replicate 6 4⟩, 0, seq, 0⟩

/-- A compressed block ack of no packet. -/
def nothingReceived : CtrlBAckResponseHeader := ⟨false, true, 0, 0, Vector.replicate 64 0, 0⟩

def config : BlockAckConfig := ⟨10, 1⟩

def repeating : List BlockAckEvent :=
  [.createAgreement recipient 0 0, .updateAgreement (recipient, 0),
    .storePacket [7] (dataHeader 0) 0,
    .notifyGotBlockAck nothingReceived recipient 1 0,
    .notifyGotBlockAck nothingReceived recipient 1 0]

/-- Packets are lost, sent again and lost again, and one becomes old behind a fresh one. -/
def retrying : List BlockAckEvent :=
  [.createAgreement recipient 0 0, .updateAgreement (recipient, 0),
    .storePacket [7] (dataHeader 0) 0,
    .advance 5, .storePacket [8] (dataHeader 1) 5, .notifyGotBlockAck nothingReceived recipient 2 0,
    .getNextPacket 0, .getNextPacket 0, .advance 12, .cleanupBuffers,
    .notifyGotBlockAck nothingReceived recipient 2 0, .destroyAgreement (recipient, 0)]

instance (c : BlockAckConfig) (s : Option BlockAckManager) (event : BlockAckEvent)
    (next : Option BlockAckManager) : Decidable (Orderly c s event next) :=
  inferInstanceAs (Decidable (∀ m ∈ s, m.InOrder c event))

theorem sane_of_orderly_retrying :
    Throughout (step config) Sane (some (new 0)) retrying ∧
      EachStep (step config) (Removes config) (some (new 0)) retrying :=
  sane_of_orderly config 0 retrying (eachStep_of_take (by decide))

/-- The packet that was not received is listed by each of two block acks. -/
theorem repeating_not_sane :
    ¬ Throughout (step config) Sane (some (new 0)) repeating := by
  intro h
  have hrun : (run (step config) (some (new 0)) repeating).isSome := by decide
  obtain ⟨s, hs⟩ := Option.isSome_iff_exists.mp hrun
  obtain ⟨m, rfl, hrefers⟩ := h.last hs
  have htwice : (run (step config) (some (new 0)) repeating).all
      (fun s => s.all fun m => ! decide m.retryPackets.Nodup) := by decide
  rw [hs] at htwice
  simp only [Option.all_some, hrefers.nodup, decide_true] at htwice
  cases htwice

end BlockAckManager

end Ns3Rdma.Wifi
