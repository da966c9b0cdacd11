import Mathlib.Data.List.Basic
import Ns3Rdma.Lib.Registry
import Ns3Rdma.Wifi.MacRxMiddle

/-! # Packets under a block ack

`BlockAckManager` keeps the packets of an agreement in a queue until they are acknowledged. A list
of all agreements, `m_retryPackets`, holds iterators into the queues, of the packets that have to be
sent again. An iterator is modelled by the item that it points to, and it may be dereferenced while
the item is in its queue. `none` stands for undefined behaviour or a failed assertion. -/

namespace Ns3Rdma.Wifi

abbrev AgreementKey := Mac48Address × UInt8

/-- An element of a queue; every element that is stored has a name of its own. -/
structure Item where
  name : ℕ
  packet : Packet
  hdr : WifiMacHeader
  timestamp : ℕ
deriving DecidableEq

/-- The recipient and the TID. -/
def WifiMacHeader.agreementKey (hdr : WifiMacHeader) : AgreementKey := (hdr.addr1, hdr.qosTid)

/-! ## The block ack -/

structure CtrlBAckResponseHeader where
  multiTid : Bool
  compressed : Bool
  tidInfo : UInt8
  startingSeq : UInt16
  bitmap : Vector UInt16 64
  compressedBitmap : UInt64

namespace CtrlBAckResponseHeader

variable (b : CtrlBAckResponseHeader)

def isBasic : Bool := !b.multiTid && !b.compressed

def isMultiTid : Bool := b.multiTid && b.compressed

/-- The sum is an `int`. -/
def isInBitmap (seq : UInt16) : Bool :=
  ((seq.toNat : ℤ) - b.startingSeq.toNat + 4096).tmod 4096 < 64

def indexInBitmap (seq : UInt16) : Option UInt8 :=
  let index := if b.startingSeq ≤ seq then (seq - b.startingSeq).toUInt8
    else (4096 - b.startingSeq + seq).toUInt8
  if index ≤ 63 then some index else none

def compressedBit (seq : UInt16) : Option Bool :=
  (b.indexInBitmap seq).map fun index => (b.compressedBitmap >>> index.toUInt64) &&& 1 == 1

def isPacketReceived (seq : UInt16) : Option Bool :=
  if !b.isInBitmap seq then some false
  else if b.multiTid then none
  else if !b.compressed then some false
  else b.compressedBit seq

def isFragmentReceived (seq : UInt16) (frag : UInt8) : Option Bool :=
  if frag < 16 then
    if !b.isInBitmap seq then some false
    else if b.multiTid then none
    else if !b.compressed then
      (b.indexInBitmap seq).map fun index =>
        b.bitmap.toArray.getD index.toNat 0 &&& (1 <<< frag.toUInt16) != 0
    else b.compressedBit seq
  else none

/-- The loop over the queue for a basic block ack: the items that are not erased. -/
def basicLoop : List Item → Option (List Item)
  | [] => some []
  | item :: rest =>
      (b.isFragmentReceived item.hdr.seqSeq item.hdr.seqFrag).bind fun received =>
        (basicLoop rest).map fun kept => if received then kept else item :: kept

/-- The loop for a compressed block ack. Its inner loop erases the items with one number. -/
def compressedLoop : Option UInt16 → List Item → Option (List Item)
  | _, [] => some []
  | erasing, item :: rest =>
      if erasing = some item.hdr.seqSeq then compressedLoop erasing rest
      else
        (b.isPacketReceived item.hdr.seqSeq).bind fun received =>
          if received then compressedLoop (some item.hdr.seqSeq) rest
          else (compressedLoop none rest).map (item :: ·)

def keptItems (queue : List Item) : Option (List Item) :=
  if b.isBasic then b.basicLoop queue else b.compressedLoop none queue

end CtrlBAckResponseHeader

/-! ## Agreements -/

inductive AgreementState where
  | PENDING
  | ESTABLISHED
  | INACTIVE
  | UNSUCCESSFUL
deriving DecidableEq

/-- An `OriginatorBlockAckAgreement` and its queue. -/
structure Agreement where
  peer : Mac48Address
  tid : UInt8
  state : AgreementState
  startingSeq : UInt16
  queue : List Item

namespace Agreement

variable (a : Agreement)

def setStartingSequence (seq : UInt16) : Option Agreement :=
  if seq < 4096 then some { a with startingSeq := seq } else none

/-- `GetNBufferedPackets`: the fragments of a packet are counted once. -/
def nBufferedPackets : Option UInt16 → List Item → UInt32
  | _, [] => 0
  | currentSeq, item :: rest =>
      if currentSeq = some item.hdr.seqSeq then nBufferedPackets currentSeq rest
      else nBufferedPackets (some item.hdr.seqSeq) rest + 1

/-- The loop of `CleanupBuffers` over `m_retryPackets` for one old item. It goes on from an iterator
that it has erased. -/
def eraseRetries (live : Item → Bool) (seq : UInt16) : List Item → Option (List Item)
  | [] => some []
  | it :: rest =>
      if live it then
        if it.hdr.addr1 == a.peer && it.hdr.qosTid == a.tid && it.hdr.seqSeq == seq then none
        else (eraseRetries live seq rest).map (it :: ·)
      else none

/-- The loop over the queue up to the first item that is not old, if there is one. -/
def firstFresh (live : Item → Bool) (retryPackets : List Item) (maxDelay now : ℕ) :
    List Item → Option (Option (List Item))
  | [] => some none
  | item :: rest =>
      if now < item.timestamp + maxDelay then some (some (item :: rest))
      else
        (a.eraseRetries live item.hdr.seqSeq retryPackets).bind fun retryPackets =>
          firstFresh live retryPackets maxDelay now rest

/-- `CleanupBuffers` for one agreement. `end` is the beginning of the queue when all items are
old. -/
def cleanup (live : Item → Bool) (retryPackets : List Item) (maxDelay now : ℕ) : Option Agreement :=
  match a.queue with
  | [] => some a
  | first :: rest =>
      (a.firstFresh live retryPackets maxDelay now (first :: rest)).bind fun
        | some (fresh :: rest) =>
            ({ a with queue := fresh :: rest } : Agreement).setStartingSequence fresh.hdr.seqSeq
        | some [] => none
        | none => a.setStartingSequence first.hdr.seqSeq

end Agreement

/-! ## The manager -/

structure BlockAckConfig where
  maxDelay : ℕ
  blockAckThreshold : UInt8

structure BlockAckManager where
  agreements : Registry AgreementKey Agreement
  retryPackets : List Item
  nextName : ℕ
  now : ℕ

inductive QosAckPolicy where
  | NORMAL_ACK
  | BLOCK_ACK

namespace BlockAckManager

variable (c : BlockAckConfig) (m : BlockAckManager)

def new (now : ℕ) : BlockAckManager := ⟨.empty, [], 0, now⟩

/-- The iterator points to an item of the queue of its agreement. -/
def live (it : Item) : Bool :=
  (m.agreements.entry it.hdr.agreementKey).any fun a => it ∈ a.queue

def existsAgreementInState (key : AgreementKey) (state : AgreementState) : Bool :=
  (m.agreements.entry key).any fun a => a.state = state

def createAgreement (recipient : Mac48Address) (tid : UInt8) (startingSeq : UInt16) :
    Option BlockAckManager :=
  (Agreement.setStartingSequence ⟨recipient, tid, .PENDING, 0, []⟩ startingSeq).map fun a =>
    match m.agreements.entry (recipient, tid) with
    | some _ => m
    | none => { m with agreements := m.agreements.put (recipient, tid) a }

def destroyAgreement (key : AgreementKey) : Option BlockAckManager :=
  match m.agreements.entry key with
  | some _ =>
      if m.retryPackets.all m.live then
        some { m with
          retryPackets := m.retryPackets.filter fun it => it.hdr.agreementKey ≠ key
          agreements := m.agreements.drop key }
      else none
  | none => some m

def setState (key : AgreementKey) (state : AgreementState) : BlockAckManager :=
  match m.agreements.entry key with
  | some a => { m with agreements := m.agreements.put key { a with state := state } }
  | none => m

/-- `UpdateAgreement`: the recipient has accepted. -/
def updateAgreement (key : AgreementKey) : BlockAckManager := m.setState key .ESTABLISHED

def notifyAgreementUnsuccessful (key : AgreementKey) : Option BlockAckManager :=
  (m.agreements.entry key).map fun _ => m.setState key .UNSUCCESSFUL

def storePacket (packet : Packet) (hdr : WifiMacHeader) (tStamp : ℕ) : Option BlockAckManager :=
  if hdr.isQosData then
    (m.agreements.entry hdr.agreementKey).map fun a =>
      { m with
        agreements := m.agreements.put hdr.agreementKey
          { a with queue := a.queue ++ [⟨m.nextName, packet, hdr, tStamp⟩] }
        nextName := m.nextName + 1 }
  else none

/-- `queued` is what `m_queue` holds for the recipient and the TID. -/
def switchToBlockAckIfNeeded (key : AgreementKey) (startingSeq : UInt16) (queued : UInt32) :
    Option (BlockAckManager × Bool) :=
  match m.agreements.entry key with
  | some a =>
      if a.state = .PENDING then none
      else if a.state = .UNSUCCESSFUL then some (m, false)
      else if queued + Agreement.nBufferedPackets none a.queue ≥ c.blockAckThreshold.toUInt32 then
        (Agreement.setStartingSequence { a with state := .ESTABLISHED } startingSeq).map fun a =>
          ({ m with agreements := m.agreements.put key a }, true)
      else some (m, false)
  | none => some (m, false)

/-- `newSeq` is what `m_txMiddle` will use next. -/
def notifyGotBlockAck (blockAck : CtrlBAckResponseHeader) (recipient : Mac48Address)
    (newSeq : UInt16) (queued : UInt32) : Option BlockAckManager :=
  let key := (recipient, blockAck.tidInfo)
  if blockAck.isMultiTid then none
  else
    match m.agreements.entry key with
    | some a =>
        if a.state = .ESTABLISHED then
          (blockAck.keptItems a.queue).bind fun kept =>
            let lost := kept.head?.map fun item => item.hdr.seqSeq
            (Agreement.setStartingSequence { a with queue := kept }
                (lost.getD a.startingSeq)).bind fun a =>
              let m := { m with
                agreements := m.agreements.put key a
                retryPackets := m.retryPackets ++ kept }
              (m.switchToBlockAckIfNeeded c key (lost.getD newSeq) queued).map fun
                | (m, true) => m
                | (m, false) => m.setState key .INACTIVE
        else some m
    | none => some m

/-- The agreements are cleaned one after the other, none sees another one, and `m_retryPackets` is
as it was unless the behaviour is undefined. -/
def cleanupBuffers : Option BlockAckManager :=
  let cleaned (a : Agreement) := a.cleanup m.live m.retryPackets c.maxDelay m.now
  if ∀ a ∈ m.agreements.live, (cleaned a).isSome then
    some { m with agreements := m.agreements.map fun a => (cleaned a).getD a }
  else none

/-- The item of an iterator leaves the queue of its agreement. -/
def eraseItem (it : Item) : Option BlockAckManager :=
  (m.agreements.entry it.hdr.agreementKey).map fun a =>
    { m with
      agreements := m.agreements.put it.hdr.agreementKey { a with queue := a.queue.erase it } }

def getNextPacket (queued : UInt32) :
    Option (BlockAckManager × Option (Packet × WifiMacHeader × QosAckPolicy)) :=
  if m.retryPackets = [] then some (m, none)
  else
    (m.cleanupBuffers c).bind fun m =>
      match m.retryPackets with
      | [] => none
      | it :: rest =>
          let m := { m with retryPackets := rest }
          let key := it.hdr.agreementKey
          let hdr := { it.hdr with ctrlRetry := true }
          if !m.live it then none
          else if m.existsAgreementInState key .ESTABLISHED then
            some (m, some (it.packet, hdr, .BLOCK_ACK))
          else
            (m.switchToBlockAckIfNeeded c key hdr.seqSeq queued).bind fun
              | (m, true) => some (m, some (it.packet, hdr, .BLOCK_ACK))
              | (m, false) => (m.eraseItem it).map fun m =>
                  (m, some (it.packet, hdr, .NORMAL_ACK))

end BlockAckManager

end Ns3Rdma.Wifi
