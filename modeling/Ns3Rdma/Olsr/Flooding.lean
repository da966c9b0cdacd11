import Ns3Rdma.Olsr.MprComputation
import Ns3Rdma.Lib.RelayFlooding

/-!
# Flooding over the multipoint relays

A node sends a message on only if its first copy came from a node that has elected it as relay.
A node has one interface here, whose address is its main address. A packet reaches all neighbours
of its sender before the next packet is sent, no duplicate tuple expires, and the sets of
neighbours and relays stay as they are.
-/

namespace Ns3Rdma.Olsr

open RelayFlooding

def HELLO_MESSAGE : UInt8 := 1

structure Message where
  messageType : UInt8
  originatorAddress : Ipv4Address
  messageSequenceNumber : UInt16
  timeToLive : UInt8
  hopCount : UInt8

structure DuplicateTuple where
  address : Ipv4Address
  sequenceNumber : UInt16
  retransmitted : Bool
  ifaceList : List Ipv4Address

/-- What a node has learnt from the HELLO messages. -/
structure Station where
  state : OlsrState
  mprSelectorSet : List Ipv4Address

/-- `processed` are the messages that have been read. -/
structure Agent where
  duplicateSet : List DuplicateTuple
  queuedMessages : List Message
  processed : List Message

/-- Assign through the pointer that `FindDuplicateTuple` returns. -/
def considerAgain (addr : Ipv4Address) (sequenceNumber : UInt16) (retransmitted : Bool)
    (localIface : Ipv4Address) : List DuplicateTuple → List DuplicateTuple
  | [] => []
  | it :: rest =>
      if it.address = addr ∧ it.sequenceNumber = sequenceNumber then
        { it with retransmitted := retransmitted, ifaceList := it.ifaceList ++ [localIface] } ::
          rest
      else it :: considerAgain addr sequenceNumber retransmitted localIface rest

namespace Agent

variable (agent : Agent)

def findDuplicateTuple (addr : Ipv4Address) (sequenceNumber : UInt16) : Option DuplicateTuple :=
  agent.duplicateSet.find? fun it => it.address = addr ∧ it.sequenceNumber = sequenceNumber

def queueMessage (message : Message) : Agent :=
  { agent with queuedMessages := agent.queuedMessages ++ [message] }

def forwardDefault (station : Station) (now : ℕ) (olsrMessage : Message)
    (duplicated : Option DuplicateTuple) (localIface senderAddress : Ipv4Address) : Agent :=
  match station.state.findSymLinkTuple senderAddress now with
  | none => agent
  | some _ =>
      if duplicated.any DuplicateTuple.retransmitted then agent
      else
        let retransmitted :=
          decide (1 < olsrMessage.timeToLive ∧ senderAddress ∈ station.mprSelectorSet)
        let agent := if retransmitted then
            agent.queueMessage { olsrMessage with
              timeToLive := olsrMessage.timeToLive - 1
              hopCount := olsrMessage.hopCount + 1 }
          else agent
        match duplicated with
        | some _ => { agent with
            duplicateSet := considerAgain olsrMessage.originatorAddress
              olsrMessage.messageSequenceNumber retransmitted localIface agent.duplicateSet }
        | none => { agent with
            duplicateSet := agent.duplicateSet ++ [⟨olsrMessage.originatorAddress,
              olsrMessage.messageSequenceNumber, retransmitted, [localIface]⟩] }

/-- A turn of the loop of `RecvOlsr` over the messages of a packet. -/
def recvMessage (mainAddress : Ipv4Address) (station : Station) (now : ℕ)
    (senderIfaceAddr : Ipv4Address) (messageHeader : Message) : Agent :=
  if messageHeader.timeToLive = 0 ∨ messageHeader.originatorAddress = mainAddress then agent
  else
    let duplicated := agent.findDuplicateTuple messageHeader.originatorAddress
      messageHeader.messageSequenceNumber
    let agent := if duplicated.isNone then
        { agent with processed := agent.processed ++ [messageHeader] } else agent
    let doForwarding := !duplicated.any fun tuple => mainAddress ∈ tuple.ifaceList
    if doForwarding && messageHeader.messageType ≠ HELLO_MESSAGE then
      agent.forwardDefault station now messageHeader duplicated mainAddress senderIfaceAddr
    else agent

def recvOlsr (mainAddress : Ipv4Address) (station : Station) (now : ℕ)
    (senderIfaceAddr : Ipv4Address) (messages : List Message) : Agent :=
  messages.foldl (fun agent => agent.recvMessage mainAddress station now senderIfaceAddr) agent

end Agent

/-! ## One message of one originator -/

/-- The message is the one with this originator and sequence number. -/
def Message.hasKey (addr : Ipv4Address) (sequenceNumber : UInt16) (message : Message) : Bool :=
  message.originatorAddress = addr ∧ message.messageSequenceNumber = sequenceNumber

/-- What a node knows of one message. -/
structure Known where
  tuple : Option DuplicateTuple
  queued : List Message
  read : List Message

section Known

variable {addr : Ipv4Address} {sequenceNumber : UInt16}

theorem find_considerAgain {other : Ipv4Address} {number : UInt16} {retransmitted : Bool}
    {localIface : Ipv4Address} (hother : ¬ (other = addr ∧ number = sequenceNumber))
    (tuples : List DuplicateTuple) :
    (considerAgain other number retransmitted localIface tuples).find?
        (fun it => it.address = addr ∧ it.sequenceNumber = sequenceNumber) =
      tuples.find? fun it => it.address = addr ∧ it.sequenceNumber = sequenceNumber := by
  induction tuples with
  | nil => rfl
  | cons it rest ih =>
      by_cases hit : it.address = other ∧ it.sequenceNumber = number
      · obtain ⟨rfl, rfl⟩ := hit
        simp [considerAgain, hother]
      · simp only [considerAgain, if_neg hit, List.find?_cons, ih]

namespace Agent

variable {agent : Agent} {mainAddress : Ipv4Address} {station : Station} {now : ℕ}
  {senderIfaceAddr : Ipv4Address} {message : Message}

def about (addr : Ipv4Address) (sequenceNumber : UInt16) (agent : Agent) : Known :=
  ⟨agent.findDuplicateTuple addr sequenceNumber,
    agent.queuedMessages.filter (Message.hasKey addr sequenceNumber),
    agent.processed.filter (Message.hasKey addr sequenceNumber)⟩

theorem hasKey_eq_false : message.hasKey addr sequenceNumber = false ↔
    ¬ (message.originatorAddress = addr ∧ message.messageSequenceNumber = sequenceNumber) := by
  rw [Message.hasKey, decide_eq_false_iff_not]

theorem about_queueMessage_other (hkey : message.hasKey addr sequenceNumber = false) :
    (agent.queueMessage message).about addr sequenceNumber = agent.about addr sequenceNumber := by
  simp [about, queueMessage, findDuplicateTuple, hkey]

theorem about_forwardDefault_other (hkey : message.hasKey addr sequenceNumber = false)
    (duplicated : Option DuplicateTuple) :
    (agent.forwardDefault station now message duplicated mainAddress senderIfaceAddr).about addr
      sequenceNumber = agent.about addr sequenceNumber := by
  have hother := hasKey_eq_false.mp hkey
  have htuples : ∀ (agent' : Agent) (tuples : List DuplicateTuple),
      tuples.find? (fun it => it.address = addr ∧ it.sequenceNumber = sequenceNumber) =
        agent'.findDuplicateTuple addr sequenceNumber →
      ({ agent' with duplicateSet := tuples }).about addr sequenceNumber =
        agent'.about addr sequenceNumber := by
    intro agent' tuples h
    rw [about, about, findDuplicateTuple, h]
  have hqueue : ∀ (condition : Bool) (message' : Message),
      message'.hasKey addr sequenceNumber = false →
      (if condition then agent.queueMessage message' else agent).about addr sequenceNumber =
        agent.about addr sequenceNumber := by
    intro condition message' hkey'
    cases condition
    · rfl
    · exact about_queueMessage_other hkey'
  unfold forwardDefault
  split
  · rfl
  · split
    · rfl
    · cases duplicated with
      | none =>
          refine (htuples _ _ ?_).trans (hqueue _ _ hkey)
          simp [findDuplicateTuple, List.find?_append, hother]
      | some tuple =>
          refine (htuples _ _ ?_).trans (hqueue _ _ hkey)
          exact find_considerAgain hother _

/-- Other messages do not change what a node knows of this one. -/
theorem about_recvMessage_other (hkey : message.hasKey addr sequenceNumber = false) :
    (agent.recvMessage mainAddress station now senderIfaceAddr message).about addr
      sequenceNumber = agent.about addr sequenceNumber := by
  have hread : ∀ condition : Bool, (if condition then
      { agent with processed := agent.processed ++ [message] } else agent).about addr
        sequenceNumber = agent.about addr sequenceNumber := by
    intro condition
    cases condition
    · rfl
    · simp [about, findDuplicateTuple, hkey]
  unfold recvMessage
  split
  · rfl
  · dsimp only
    rw [apply_ite (about addr sequenceNumber), about_forwardDefault_other hkey, ite_self]
    exact hread _

/-- A message that a node has originated or read before changes nothing. -/
theorem recvMessage_known
    (hknown : message.originatorAddress = mainAddress ∨
      ∃ tuple, agent.findDuplicateTuple message.originatorAddress
        message.messageSequenceNumber = some tuple ∧ mainAddress ∈ tuple.ifaceList) :
    agent.recvMessage mainAddress station now senderIfaceAddr message = agent := by
  unfold recvMessage
  by_cases hdrop : message.timeToLive = 0 ∨ message.originatorAddress = mainAddress
  · exact if_pos hdrop
  · rw [if_neg hdrop]
    rcases hknown with howner | ⟨tuple, hfind, hmem⟩
    · exact absurd (Or.inr howner) hdrop
    · simp [hfind, hmem]

/-- The first copy of a message, from a symmetric neighbour. -/
theorem about_recvMessage_first (hkey : message.hasKey addr sequenceNumber = true)
    (howner : addr ≠ mainAddress) (httl : message.timeToLive ≠ 0)
    (htype : message.messageType ≠ HELLO_MESSAGE)
    (hfind : agent.findDuplicateTuple addr sequenceNumber = none)
    (hsym : ∃ it, station.state.findSymLinkTuple senderIfaceAddr now = some it) :
    (agent.recvMessage mainAddress station now senderIfaceAddr message).about addr
        sequenceNumber =
      let retransmitted := decide (1 < message.timeToLive ∧
        senderIfaceAddr ∈ station.mprSelectorSet)
      ⟨some ⟨addr, sequenceNumber, retransmitted, [mainAddress]⟩,
        (agent.about addr sequenceNumber).queued ++ if retransmitted then
          [{ message with
            timeToLive := message.timeToLive - 1, hopCount := message.hopCount + 1 }] else [],
        (agent.about addr sequenceNumber).read ++ [message]⟩ := by
  obtain ⟨it, hit⟩ := hsym
  obtain ⟨rfl, rfl⟩ : message.originatorAddress = addr ∧
      message.messageSequenceNumber = sequenceNumber := by
    simpa [Message.hasKey] using hkey
  have hfind' := hfind
  simp only [findDuplicateTuple, Bool.decide_and] at hfind'
  simp only [recvMessage, if_neg (not_or.mpr ⟨httl, howner⟩), hfind, forwardDefault, hit]
  by_cases hretransmit : 1 < message.timeToLive ∧ senderIfaceAddr ∈ station.mprSelectorSet
  · simp [about, findDuplicateTuple, queueMessage, hretransmit, htype, List.find?_append, hfind',
      Message.hasKey]
  · simp [about, findDuplicateTuple, hretransmit, htype, List.find?_append, hfind',
      Message.hasKey]

/-- Messages of which none has the key. -/
theorem about_recvOlsr_other {messages : List Message}
    (hkey : ∀ message ∈ messages, message.hasKey addr sequenceNumber = false) :
    (agent.recvOlsr mainAddress station now senderIfaceAddr messages).about addr
      sequenceNumber = agent.about addr sequenceNumber := by
  induction messages generalizing agent with
  | nil => rfl
  | cons message messages ih =>
      rw [List.forall_mem_cons] at hkey
      exact (ih hkey.2).trans (about_recvMessage_other hkey.1)

/-- Messages that do not tell anything new. -/
theorem about_recvOlsr_known {messages : List Message}
    (hknown : addr = mainAddress ∨ ∃ tuple,
      (agent.about addr sequenceNumber).tuple = some tuple ∧ mainAddress ∈ tuple.ifaceList) :
    (agent.recvOlsr mainAddress station now senderIfaceAddr messages).about addr
      sequenceNumber = agent.about addr sequenceNumber := by
  induction messages generalizing agent with
  | nil => rfl
  | cons message messages ih =>
      have hstep : (agent.recvMessage mainAddress station now senderIfaceAddr message).about addr
          sequenceNumber = agent.about addr sequenceNumber := by
        cases hkey : message.hasKey addr sequenceNumber with
        | false => exact about_recvMessage_other hkey
        | true =>
            obtain ⟨rfl, rfl⟩ : message.originatorAddress = addr ∧
              message.messageSequenceNumber = sequenceNumber := of_decide_eq_true hkey
            rw [recvMessage_known hknown]
      refine Eq.trans (ih ?_) hstep
      rwa [hstep]

/-- The messages of a neighbour, with the first copy of this one. -/
theorem about_recvOlsr_first {messages : List Message}
    (hmessages : messages.filter (Message.hasKey addr sequenceNumber) = [message])
    (howner : addr ≠ mainAddress) (httl : message.timeToLive ≠ 0)
    (htype : message.messageType ≠ HELLO_MESSAGE)
    (hfind : (agent.about addr sequenceNumber).tuple = none)
    (hsym : ∃ it, station.state.findSymLinkTuple senderIfaceAddr now = some it) :
    (agent.recvOlsr mainAddress station now senderIfaceAddr messages).about addr
        sequenceNumber =
      let retransmitted := decide (1 < message.timeToLive ∧
        senderIfaceAddr ∈ station.mprSelectorSet)
      ⟨some ⟨addr, sequenceNumber, retransmitted, [mainAddress]⟩,
        (agent.about addr sequenceNumber).queued ++ if retransmitted then
          [{ message with
            timeToLive := message.timeToLive - 1, hopCount := message.hopCount + 1 }] else [],
        (agent.about addr sequenceNumber).read ++ [message]⟩ := by
  obtain ⟨before, after, rfl, hbefore, hkey, hafter⟩ := List.filter_eq_cons_iff.mp hmessages
  have hstart : (agent.recvOlsr mainAddress station now senderIfaceAddr before).about addr
      sequenceNumber = agent.about addr sequenceNumber :=
    about_recvOlsr_other fun message hmem => Bool.eq_false_of_not_eq_true (hbefore message hmem)
  have hunknown : (agent.recvOlsr mainAddress station now senderIfaceAddr before).findDuplicateTuple
      addr sequenceNumber = none := (congrArg Known.tuple hstart).trans hfind
  have hrest : ∀ message ∈ after, message.hasKey addr sequenceNumber = false :=
    fun message hmem => Bool.eq_false_of_not_eq_true (List.filter_eq_nil_iff.mp hafter message hmem)
  have hfirst := about_recvMessage_first hkey howner httl htype hunknown hsym
  rw [hstart] at hfirst
  rw [recvOlsr, List.foldl_append, List.foldl_cons]
  exact (about_recvOlsr_other hrest).trans hfirst

end Agent

end Known

/-! ## Runs of a network -/

/-- The graph says whose packets a node receives. -/
structure Mesh where
  graph : SimpleGraph Ipv4Address
  decidable : DecidableRel graph.Adj
  station : Ipv4Address → Station

instance Mesh.decidableAdj (mesh : Mesh) : DecidableRel mesh.graph.Adj := mesh.decidable

/-- `txPacketTrace` are the messages that each `SendQueuedMessages` has sent. -/
structure Air where
  agent : Ipv4Address → Agent
  txPacketTrace : List (Ipv4Address × List Message)

inductive Event
  | queueMessage (node : Ipv4Address) (message : Message)
  | sendQueuedMessages (node : Ipv4Address) (now : ℕ)

/-- The event does not make the message, and is over before the links expire. -/
def Event.Before (origin : Ipv4Address) (sequenceNumber : UInt16) (horizon : ℕ) : Event → Prop
  | .queueMessage _ message => message.hasKey origin sequenceNumber = false
  | .sendQueuedMessages _ now => now < horizon

namespace Mesh

variable (mesh : Mesh)

def start : Air := ⟨fun _ => ⟨[], [], []⟩, []⟩

def step (air : Air) : Event → Air
  | .queueMessage node message =>
      { air with agent := Function.update air.agent node ((air.agent node).queueMessage message) }
  | .sendQueuedMessages node now =>
      let messages := (air.agent node).queuedMessages
      { agent := fun addr =>
          if addr = node then { air.agent node with queuedMessages := [] }
          else if mesh.graph.Adj node addr then
            (air.agent addr).recvOlsr addr (mesh.station addr) now node messages
          else air.agent addr
        txPacketTrace := air.txPacketTrace ++ [(node, messages)] }

def run (air : Air) (events : List Event) : Air := events.foldl mesh.step air

theorem run_append (air : Air) (events later : List Event) :
    mesh.run air (events ++ later) = mesh.run (mesh.run air events) later :=
  List.foldl_append

/-- The sets of every node are those of the graph, its links are symmetric until then, and the
relays cover its two-hop neighbours, as `mprComputation` sees to it. -/
structure Accurate (horizon : ℕ) : Prop where
  links : ∀ v w, mesh.graph.Adj v w → ∃ it, (mesh.station v).state.linkSet.find?
    (fun it => it.neighborIfaceAddr = w) = some it ∧ horizon ≤ it.symTime
  neighbors : ∀ v w, (∃ neigh ∈ (mesh.station v).state.neighborSet,
    neigh.neighborMainAddr = w ∧ neigh.status = .SYM) ↔ mesh.graph.Adj v w
  willing : ∀ v, ∀ neigh ∈ (mesh.station v).state.neighborSet, neigh.willingness ≠ willNever
  twoHopNeighbors : ∀ v it, it ∈ (mesh.station v).state.twoHopNeighborSet ↔
    mesh.graph.Adj v it.neighborMainAddr ∧
      mesh.graph.Adj it.neighborMainAddr it.twoHopNeighborAddr ∧ it.twoHopNeighborAddr ≠ v
  mprSet : ∀ v, (mesh.station v).state.CoversTwoHop v (mesh.station v).state.mprSet
  mprSelectors : ∀ v, ∀ m ∈ (mesh.station v).state.mprSet, v ∈ (mesh.station m).mprSelectorSet

/-- The second node knows that the first one has elected it as relay. -/
def Elects (w m : Ipv4Address) : Prop := w ∈ (mesh.station m).mprSelectorSet

variable {mesh} {horizon : ℕ}

theorem Accurate.covering (h : mesh.Accurate horizon) : Covering mesh.graph mesh.Elects := by
  intro w a b hwa hab hne hnot
  obtain ⟨neigh, hneigh, hmain, hsym⟩ := (h.neighbors w a).mpr hwa
  obtain ⟨other, hother, haddr, hrelay⟩ := (h.mprSet w).covered ⟨a, b⟩
    ((h.twoHopNeighbors w ⟨a, b⟩).mpr ⟨hwa, hab, hne⟩) hne
    (fun neigh hneigh hsym hmain => hnot ((h.neighbors w b).mp ⟨neigh, hneigh, hmain, hsym⟩))
    ⟨neigh, hneigh, hsym, h.willing w neigh hneigh, hmain⟩
  obtain ⟨hadj, hreach, -⟩ := (h.twoHopNeighbors w other).mp hother
  rw [haddr] at hreach
  exact ⟨other.neighborMainAddr, hadj, hreach, h.mprSelectors w _ hrelay⟩

theorem Accurate.findSymLinkTuple (h : mesh.Accurate horizon) {v w : Ipv4Address} {now : ℕ}
    (hadj : mesh.graph.Adj v w) (hnow : now < horizon) :
    ∃ it, (mesh.station v).state.findSymLinkTuple w now = some it := by
  obtain ⟨it, hfind, hsym⟩ := h.links v w hadj
  refine ⟨it, ?_⟩
  rw [OlsrState.findSymLinkTuple, hfind]
  exact if_pos (Nat.lt_of_lt_of_le hnow hsym)

/-! ## The nodes that have sent the message -/

variable (mesh)

/-- A neighbour of the node has sent the message. -/
def Heard (senders : List Ipv4Address) (v : Ipv4Address) : Prop :=
  ∃ w ∈ senders, mesh.graph.Adj w v

theorem heard_append {senders : List Ipv4Address} {node v : Ipv4Address} :
    mesh.Heard (senders ++ [node]) v ↔ mesh.Heard senders v ∨ mesh.graph.Adj node v := by
  simp [Heard, or_and_right, exists_or]

/-- A node has this copy of the message to send. -/
structure Waiting (origin : Ipv4Address) (ttl : ℕ) (senders : List Ipv4Address) (v : Ipv4Address)
    (queued : List Message) (message : Message) : Prop where
  notSent : v ∉ senders
  only : queued = [message]
  timeToLive : ttl ≤ message.timeToLive.toNat + senders.length
  messageType : message.messageType ≠ HELLO_MESSAGE
  heard : v = origin ∨ mesh.Heard senders v

/-- The nodes that have sent the message, in this order, have sent it once. What a node does depends
on the first one that it has heard. -/
structure Flooding (addresses : Finset Ipv4Address) (origin : Ipv4Address) (ttl : ℕ)
    (senders : List Ipv4Address) (known : Ipv4Address → Known) : Prop where
  nodup : senders.Nodup
  subset : ∀ w ∈ senders, w ∈ addresses
  started : origin ∈ senders ∨ (known origin).queued ≠ []
  unread : (known origin).read = []
  sender : ∀ w ∈ senders, w = origin ∨ mesh.Heard senders w
  queued : ∀ v, ∀ message ∈ (known v).queued,
    mesh.Waiting origin ttl senders v (known v).queued message
  unheard : ∀ v, v ≠ origin → ¬ mesh.Heard senders v →
    (known v).tuple = none ∧ (known v).read = []
  heard : ∀ v, v ≠ origin → mesh.Heard senders v →
    (∃ tuple, (known v).tuple = some tuple ∧ v ∈ tuple.ifaceList) ∧ (known v).read.length = 1
  relay : ∀ v, v ≠ origin → ∀ w, senders.find? (fun u => mesh.graph.Adj u v) = some w →
    w ∈ (mesh.station v).mprSelectorSet → v ∈ senders ∨ (known v).queued ≠ []

variable {mesh} {addresses : Finset Ipv4Address} {origin : Ipv4Address} {ttl : ℕ}
  {senders : List Ipv4Address} {known known' : Ipv4Address → Known}

/-- What a transmission of the message does to what the nodes know. -/
structure Sent (mesh : Mesh) (origin node : Ipv4Address) (sequenceNumber : UInt16)
    (message : Message) (senders : List Ipv4Address) (known known' : Ipv4Address → Known) :
    Prop where
  own : (known' node).queued = [] ∧ (known' node).tuple = (known node).tuple ∧
    (known' node).read = (known node).read
  same : ∀ v, v ≠ node → (v = origin ∨ mesh.Heard senders v ∨ ¬ mesh.graph.Adj node v) →
    known' v = known v
  first : ∀ v, mesh.graph.Adj node v → v ≠ origin → ¬ mesh.Heard senders v → known' v =
    ⟨some ⟨origin, sequenceNumber, decide (node ∈ (mesh.station v).mprSelectorSet), [v]⟩,
      if node ∈ (mesh.station v).mprSelectorSet then
        [{ message with timeToLive := message.timeToLive - 1, hopCount := message.hopCount + 1 }]
      else [], [message]⟩

theorem Flooding.mem_addresses (h : mesh.Flooding addresses origin ttl senders known)
    (horigin : origin ∈ addresses) (hadj : ∀ v w, mesh.graph.Adj v w → w ∈ addresses)
    {node : Ipv4Address} {message : Message} (hmem : message ∈ (known node).queued) :
    node ∈ addresses := by
  rcases (h.queued node message hmem).heard with rfl | ⟨w, -, hw⟩
  · exact horigin
  · exact hadj w node hw

/-- A node that has the message to send has not sent it, so that not all nodes have. -/
theorem Flooding.length_lt (h : mesh.Flooding addresses origin ttl senders known)
    (horigin : origin ∈ addresses) (hadj : ∀ v w, mesh.graph.Adj v w → w ∈ addresses)
    {node : Ipv4Address} {message : Message} (hmem : message ∈ (known node).queued) :
    senders.length < addresses.card := by
  have hnot := (h.queued node message hmem).notSent
  have hnode := h.mem_addresses horigin hadj hmem
  have hcard : (node :: senders).toFinset.card ≤ addresses.card := by
    refine Finset.card_le_card fun v hv => ?_
    rcases List.mem_cons.mp (List.mem_toFinset.mp hv) with rfl | hmem
    · exact hnode
    · exact h.subset v hmem
  rw [List.toFinset_card_of_nodup (List.nodup_cons.mpr ⟨hnot, h.nodup⟩)] at hcard
  exact hcard

theorem Flooding.one_lt_timeToLive (h : mesh.Flooding addresses origin ttl senders known)
    (horigin : origin ∈ addresses) (hadj : ∀ v w, mesh.graph.Adj v w → w ∈ addresses)
    (httl : addresses.card < ttl) {node : Ipv4Address} {message : Message}
    (hmem : message ∈ (known node).queued) : 1 < message.timeToLive := by
  have hlive := (h.queued node message hmem).timeToLive
  have hlength := h.length_lt horigin hadj hmem
  rw [UInt8.lt_iff_toNat_lt]
  change 1 < message.timeToLive.toNat
  omega

/-- A node with a copy to send has no other, and sends it on. -/
theorem Flooding.head (h : mesh.Flooding addresses origin ttl senders known)
    (horigin : origin ∈ addresses) (hadj : ∀ v w, mesh.graph.Adj v w → w ∈ addresses)
    (httl : addresses.card < ttl) {node : Ipv4Address} {message : Message} {rest : List Message}
    (hqueued : (known node).queued = message :: rest) :
    (known node).queued = [message] ∧ 1 < message.timeToLive := by
  have hmem : message ∈ (known node).queued := by
    rw [hqueued]
    exact List.mem_cons_self
  exact ⟨(h.queued node message hmem).only, h.one_lt_timeToLive horigin hadj httl hmem⟩

/-- The copies that are queued after a transmission. -/
theorem Flooding.sent_waiting (h : mesh.Flooding addresses origin ttl senders known)
    {node : Ipv4Address} {sequenceNumber : UInt16} {message : Message}
    (hone : 1 < message.timeToLive) (hqueued : (known node).queued = [message])
    (hsent : Sent mesh origin node sequenceNumber message senders known known')
    {v : Ipv4Address} {m : Message} (hm : m ∈ (known' v).queued) :
    mesh.Waiting origin ttl (senders ++ [node]) v (known' v).queued m := by
  have hne : v ≠ node := by
    rintro rfl
    rw [hsent.own.1] at hm
    exact List.not_mem_nil hm
  have hwaiting := h.queued node message (by simp [hqueued])
  by_cases hold : v = origin ∨ mesh.Heard senders v ∨ ¬ mesh.graph.Adj node v
  · rw [hsent.same v hne hold] at hm ⊢
    obtain ⟨hv, honly, hlive, htype, hheard⟩ := h.queued v m hm
    refine ⟨?_, honly, ?_, htype, hheard.imp_right fun h => mesh.heard_append.mpr (Or.inl h)⟩
    · rw [List.mem_append, List.mem_singleton]
      exact not_or.mpr ⟨hv, hne⟩
    · rw [List.length_append]
      omega
  · rw [not_or, not_or, not_not] at hold
    obtain ⟨hv, hunheard, hreach⟩ := hold
    rw [hsent.first v hreach hv hunheard] at hm ⊢
    dsimp only at hm ⊢
    split at hm
    next hselector =>
      obtain rfl := List.mem_singleton.mp hm
      rw [if_pos hselector]
      refine ⟨?_, rfl, ?_, hwaiting.messageType, Or.inr (mesh.heard_append.mpr (Or.inr hreach))⟩
      · rw [List.mem_append, List.mem_singleton]
        exact not_or.mpr ⟨fun hmem => (h.sender v hmem).elim hv hunheard, hne⟩
      · -- The time to live goes down by one and the number of transmissions up.
        have hsub : (message.timeToLive - 1).toNat = message.timeToLive.toNat - 1 := by
          apply UInt8.toNat_sub_of_le
          exact UInt8.le_of_lt hone
        have hpos : 1 < message.timeToLive.toNat := UInt8.lt_iff_toNat_lt.mp hone
        have hlive := hwaiting.timeToLive
        dsimp only
        rw [hsub, List.length_append, List.length_singleton]
        omega
    next => exact absurd hm List.not_mem_nil

/-- A node that hears the message from one that has elected it sends it on, unless it has heard it
before. -/
theorem Flooding.sent_relay (h : mesh.Flooding addresses origin ttl senders known)
    {node : Ipv4Address} {sequenceNumber : UInt16} {message : Message}
    (hsent : Sent mesh origin node sequenceNumber message senders known known')
    {v w : Ipv4Address} (hv : v ≠ origin)
    (hfind : (senders ++ [node]).find? (fun u => mesh.graph.Adj u v) = some w)
    (hselector : w ∈ (mesh.station v).mprSelectorSet) :
    v ∈ senders ++ [node] ∨ (known' v).queued ≠ [] := by
  rw [List.find?_append, Option.or_eq_some_iff] at hfind
  rcases hfind with hfind | ⟨hnone, hfind⟩
  · have hold : mesh.Heard senders v :=
      ⟨w, List.mem_of_find?_eq_some hfind, by simpa using List.find?_some hfind⟩
    by_cases hne : v = node
    · exact Or.inl (by simp [hne])
    · rw [hsent.same v hne (Or.inr (Or.inl hold)), List.mem_append]
      exact (h.relay v hv w hfind hselector).imp_left Or.inl
  · have hreach : mesh.graph.Adj node v ∧ node = w := by
      simpa [List.find?_cons_eq_some] using hfind
    obtain ⟨hreach, rfl⟩ := hreach
    have hunheard : ¬ mesh.Heard senders v := by
      rintro ⟨u, hu, hadj'⟩
      exact absurd (by simpa using hadj') (List.find?_eq_none.mp hnone u hu)
    right
    rw [hsent.first v hreach hv hunheard]
    dsimp only
    rw [if_pos hselector]
    exact List.cons_ne_nil _ _

theorem Flooding.sent (h : mesh.Flooding addresses origin ttl senders known)
    (horigin : origin ∈ addresses) (hadj : ∀ v w, mesh.graph.Adj v w → w ∈ addresses)
    (httl : addresses.card < ttl) {node : Ipv4Address} {sequenceNumber : UInt16}
    {message : Message} (hqueued : (known node).queued = [message])
    (hsent : Sent mesh origin node sequenceNumber message senders known known') :
    mesh.Flooding addresses origin ttl (senders ++ [node]) known' := by
  have hmem : message ∈ (known node).queued := by
    rw [hqueued]
    exact List.mem_singleton_self message
  have hone := h.one_lt_timeToLive horigin hadj httl hmem
  have hwaiting := h.queued node message hmem
  have hnode := h.mem_addresses horigin hadj hmem
  refine ⟨?_, ?_, ?_, ?_, ?_, ?_, ?_, ?_, ?_⟩
  · rw [← List.concat_eq_append]
    exact h.nodup.concat hwaiting.notSent
  · intro w hw
    rcases List.mem_append.mp hw with hw | hw
    · exact h.subset w hw
    · rw [List.mem_singleton.mp hw]
      exact hnode
  · by_cases hsame : origin = node
    · exact Or.inl (by simp [hsame])
    · rw [hsent.same origin hsame (Or.inl rfl), List.mem_append]
      exact h.started.imp_left Or.inl
  · by_cases hsame : origin = node
    · rw [hsame, hsent.own.2.2, ← hsame]
      exact h.unread
    · rw [hsent.same origin hsame (Or.inl rfl)]
      exact h.unread
  · intro w hw
    rw [heard_append]
    rcases List.mem_append.mp hw with hw | hw
    · exact (h.sender w hw).imp_right Or.inl
    · rw [List.mem_singleton.mp hw]
      exact hwaiting.heard.imp_right Or.inl
  · exact fun v m hm => h.sent_waiting hone hqueued hsent hm
  · intro v hv hunheard
    rw [heard_append, not_or] at hunheard
    by_cases hne : v = node
    · rw [hne, hsent.own.2.1, hsent.own.2.2, ← hne]
      exact h.unheard v hv hunheard.1
    · rw [hsent.same v hne (Or.inr (Or.inr hunheard.2))]
      exact h.unheard v hv hunheard.1
  · intro v hv hheard'
    rw [heard_append] at hheard'
    by_cases hold : mesh.Heard senders v
    · by_cases hne : v = node
      · rw [hne, hsent.own.2.1, hsent.own.2.2, ← hne]
        exact h.heard v hv hold
      · rw [hsent.same v hne (Or.inr (Or.inl hold))]
        exact h.heard v hv hold
    · rw [hsent.first v (hheard'.resolve_left hold) hv hold]
      exact ⟨⟨_, rfl, List.mem_singleton_self v⟩, rfl⟩
  · exact fun v hv w hfind hselector => h.sent_relay hsent hv hfind hselector

/-! ## Steps and runs -/

variable {sequenceNumber : UInt16} {air : Air}

def knownOf (origin : Ipv4Address) (sequenceNumber : UInt16) (air : Air) (v : Ipv4Address) :
    Known :=
  (air.agent v).about origin sequenceNumber

/-- The nodes that have sent the message, in this order, each as often as it has sent a copy. -/
def sendersOf (origin : Ipv4Address) (sequenceNumber : UInt16) (air : Air) : List Ipv4Address :=
  air.txPacketTrace.flatMap fun sent =>
    (sent.2.filter (Message.hasKey origin sequenceNumber)).map fun _ => sent.1

theorem known_queueMessage_other {node : Ipv4Address} {message : Message}
    (hkey : message.hasKey origin sequenceNumber = false) :
    knownOf origin sequenceNumber (mesh.step air (.queueMessage node message)) =
      knownOf origin sequenceNumber air := by
  funext v
  simp only [knownOf, step, Function.update_apply]
  split
  next h => rw [Agent.about_queueMessage_other hkey, h]
  next => rfl

/-- A node that does not have the message to send. -/
theorem known_send_silent (mesh : Mesh) (now : ℕ) {node : Ipv4Address}
    (hqueued : (knownOf origin sequenceNumber air node).queued = []) :
    knownOf origin sequenceNumber (mesh.step air (.sendQueuedMessages node now)) =
        knownOf origin sequenceNumber air ∧
      sendersOf origin sequenceNumber (mesh.step air (.sendQueuedMessages node now)) =
        sendersOf origin sequenceNumber air := by
  have hother : ∀ message ∈ (air.agent node).queuedMessages,
      message.hasKey origin sequenceNumber = false :=
    fun message hmem =>
      Bool.eq_false_of_not_eq_true (List.filter_eq_nil_iff.mp hqueued message hmem)
  constructor
  · funext v
    simp only [knownOf, step]
    split
    next h =>
      rw [h]
      simp only [Agent.about, List.filter_nil, Known.mk.injEq, and_true]
      exact ⟨rfl, hqueued.symm⟩
    next =>
      split
      · exact Agent.about_recvOlsr_other hother
      · rfl
  · have hfilter : (air.agent node).queuedMessages.filter
        (Message.hasKey origin sequenceNumber) = [] := hqueued
    simp [sendersOf, step, hfilter]

theorem senders_send {node : Ipv4Address} {now : ℕ} {message : Message}
    (hqueued : (knownOf origin sequenceNumber air node).queued = [message]) :
    sendersOf origin sequenceNumber (mesh.step air (.sendQueuedMessages node now)) =
      sendersOf origin sequenceNumber air ++ [node] := by
  have hfilter : (air.agent node).queuedMessages.filter
      (Message.hasKey origin sequenceNumber) = [message] := hqueued
  simp [sendersOf, step, hfilter]

theorem Flooding.sends (h : mesh.Flooding addresses origin ttl
      (sendersOf origin sequenceNumber air) (knownOf origin sequenceNumber air))
    (haccurate : mesh.Accurate horizon) {node : Ipv4Address} {now : ℕ} {message : Message}
    (hnow : now < horizon) (hone : 1 < message.timeToLive)
    (hqueued : (knownOf origin sequenceNumber air node).queued = [message]) :
    Sent mesh origin node sequenceNumber message (sendersOf origin sequenceNumber air)
      (knownOf origin sequenceNumber air)
      (knownOf origin sequenceNumber (mesh.step air (.sendQueuedMessages node now))) := by
  have htype := (h.queued node message (by simp [hqueued])).messageType
  have hlive : message.timeToLive ≠ 0 := by
    intro hzero
    rw [hzero] at hone
    exact absurd hone (by decide)
  refine ⟨?_, fun v hne hsame => ?_, fun v hreach hv hunheard => ?_⟩
  · simp only [knownOf, step, if_pos]
    exact ⟨rfl, rfl, rfl⟩
  · simp only [knownOf, step, if_neg hne]
    split
    next hreach =>
      apply Agent.about_recvOlsr_known
      by_cases hv : v = origin
      · exact Or.inl hv.symm
      · obtain hheard : mesh.Heard (sendersOf origin sequenceNumber air) v :=
          (hsame.resolve_left hv).resolve_right (not_not.mpr hreach)
        exact Or.inr (h.heard v hv hheard).1
    next => rfl
  · obtain ⟨htuple, hread⟩ := h.unheard v hv hunheard
    have hempty : (knownOf origin sequenceNumber air v).queued = [] := by
      rw [List.eq_nil_iff_forall_not_mem]
      intro m hm
      exact (h.queued v m hm).heard.elim hv hunheard
    have hne : v ≠ node := fun heq => mesh.graph.loopless.irrefl node (heq ▸ hreach)
    simp only [knownOf, step, if_neg hne, if_pos hreach]
    rw [Agent.about_recvOlsr_first hqueued (Ne.symm hv) hlive htype
      htuple (haccurate.findSymLinkTuple hreach.symm hnow)]
    simp only [knownOf] at hempty hread
    simp [hone, hempty, hread]

theorem Flooding.step (h : mesh.Flooding addresses origin ttl
      (sendersOf origin sequenceNumber air) (knownOf origin sequenceNumber air))
    (haccurate : mesh.Accurate horizon) (horigin : origin ∈ addresses)
    (hadj : ∀ v w, mesh.graph.Adj v w → w ∈ addresses) (httl : addresses.card < ttl)
    {event : Event} (hevent : Event.Before origin sequenceNumber horizon event) :
    mesh.Flooding addresses origin ttl (sendersOf origin sequenceNumber (mesh.step air event))
      (knownOf origin sequenceNumber (mesh.step air event)) := by
  cases event with
  | queueMessage node message =>
      rw [known_queueMessage_other hevent]
      exact h
  | sendQueuedMessages node now =>
      cases hqueued : (knownOf origin sequenceNumber air node).queued with
      | nil =>
          obtain ⟨hknown, hsenders⟩ := known_send_silent mesh now hqueued
          rw [hknown, hsenders]
          exact h
      | cons message rest =>
          obtain ⟨honly, hone⟩ := h.head horigin hadj httl hqueued
          rw [senders_send honly]
          exact h.sent horigin hadj httl honly (h.sends haccurate hevent hone honly)

theorem Flooding.run (h : mesh.Flooding addresses origin ttl
      (sendersOf origin sequenceNumber air) (knownOf origin sequenceNumber air))
    (haccurate : mesh.Accurate horizon) (horigin : origin ∈ addresses)
    (hadj : ∀ v w, mesh.graph.Adj v w → w ∈ addresses) (httl : addresses.card < ttl)
    {events : List Event} (hevents : ∀ event ∈ events, event.Before origin sequenceNumber horizon) :
    mesh.Flooding addresses origin ttl (sendersOf origin sequenceNumber (mesh.run air events))
      (knownOf origin sequenceNumber (mesh.run air events)) := by
  induction events generalizing air with
  | nil => exact h
  | cons event events ih =>
      rw [List.forall_mem_cons] at hevents
      exact ih (h.step haccurate horigin hadj httl hevents.1) hevents.2

/-! ## The end of the flooding -/

theorem senders_grow_step (mesh : Mesh) (air : Air) (event : Event) :
    sendersOf origin sequenceNumber air <+:
      sendersOf origin sequenceNumber (mesh.step air event) := by
  cases event with
  | queueMessage node message => exact List.prefix_rfl
  | sendQueuedMessages node now =>
      simp only [sendersOf, Mesh.step, List.flatMap_append]
      exact List.prefix_append _ _

theorem senders_grow (mesh : Mesh) (air : Air) (events : List Event) :
    sendersOf origin sequenceNumber air <+:
      sendersOf origin sequenceNumber (mesh.run air events) := by
  induction events generalizing air with
  | nil => exact List.prefix_rfl
  | cons event events ih => exact (senders_grow_step mesh air event).trans (ih _)

theorem quiet_run (mesh : Mesh) {events : List Event}
    (hquiet : ∀ v, (knownOf origin sequenceNumber air v).queued = [])
    (hevents : ∀ event ∈ events, event.Before origin sequenceNumber horizon) (v : Ipv4Address) :
    (knownOf origin sequenceNumber (mesh.run air events) v).queued = [] := by
  induction events generalizing air with
  | nil => exact hquiet v
  | cons event events ih =>
      rw [List.forall_mem_cons] at hevents
      refine ih ?_ hevents.2
      cases event with
      | queueMessage node message =>
          rw [known_queueMessage_other hevents.1]
          exact hquiet
      | sendQueuedMessages node now =>
          rw [(known_send_silent mesh now (hquiet node)).1]
          exact hquiet

/-- A node that has the message to send has it until it sends it. -/
theorem Flooding.waits (h : mesh.Flooding addresses origin ttl
      (sendersOf origin sequenceNumber air) (knownOf origin sequenceNumber air))
    (haccurate : mesh.Accurate horizon) (horigin : origin ∈ addresses)
    (hadj : ∀ v w, mesh.graph.Adj v w → w ∈ addresses) (httl : addresses.card < ttl)
    {event : Event} (hevent : event.Before origin sequenceNumber horizon) {v : Ipv4Address}
    (hv : (knownOf origin sequenceNumber air v).queued ≠ []) :
    v ∈ sendersOf origin sequenceNumber (mesh.step air event) ∨
      (knownOf origin sequenceNumber (mesh.step air event) v).queued ≠ [] ∧
        ∀ now, event ≠ .sendQueuedMessages v now := by
  cases event with
  | queueMessage node message =>
      rw [known_queueMessage_other hevent]
      exact Or.inr ⟨hv, fun now => Event.noConfusion⟩
  | sendQueuedMessages node now =>
      cases hqueued : (knownOf origin sequenceNumber air node).queued with
      | nil =>
          rw [(known_send_silent mesh now hqueued).1]
          refine Or.inr ⟨hv, fun now heq => ?_⟩
          injection heq with hnode
          exact hv (hnode ▸ hqueued)
      | cons message rest =>
          obtain ⟨honly, hone⟩ := h.head horigin hadj httl hqueued
          by_cases hnode : v = node
          · left
            rw [senders_send honly, hnode]
            exact List.mem_append_right _ (List.mem_singleton_self node)
          · obtain ⟨m, hm⟩ := List.exists_mem_of_ne_nil _ hv
            have hheard := (h.queued v m hm).heard
            have hsame := (h.sends haccurate hevent hone honly).same v hnode
              (hheard.imp_right Or.inl)
            rw [hsame]
            refine Or.inr ⟨hv, fun now heq => ?_⟩
            injection heq with hsender
            exact hnode hsender.symm

/-- After a round in which a node that has the message to send sends its queue, it has sent it. -/
theorem Flooding.sent_in_round (h : mesh.Flooding addresses origin ttl
      (sendersOf origin sequenceNumber air) (knownOf origin sequenceNumber air))
    (haccurate : mesh.Accurate horizon) (horigin : origin ∈ addresses)
    (hadj : ∀ v w, mesh.graph.Adj v w → w ∈ addresses) (httl : addresses.card < ttl)
    {round : List Event} (hround : ∀ event ∈ round, event.Before origin sequenceNumber horizon)
    {v : Ipv4Address} (hv : (knownOf origin sequenceNumber air v).queued ≠ [])
    (hsends : ∃ now, .sendQueuedMessages v now ∈ round) :
    v ∈ sendersOf origin sequenceNumber (mesh.run air round) := by
  induction round generalizing air with
  | nil =>
      obtain ⟨now, hmem⟩ := hsends
      exact absurd hmem List.not_mem_nil
  | cons event round ih =>
      rw [List.forall_mem_cons] at hround
      rcases h.waits haccurate horigin hadj httl hround.1 hv with hsender | ⟨hwaits, hother⟩
      · exact (senders_grow mesh _ round).subset hsender
      · refine ih (h.step haccurate horigin hadj httl hround.1) hround.2 hwaits ?_
        obtain ⟨now, hmem⟩ := hsends
        rcases List.mem_cons.mp hmem with heq | hmem
        · exact absurd heq.symm (hother now)
        · exact ⟨now, hmem⟩

/-- In every round at least one more node has sent the message, or no node has it to send. -/
theorem Flooding.rounds (h : mesh.Flooding addresses origin ttl
      (sendersOf origin sequenceNumber air) (knownOf origin sequenceNumber air))
    (haccurate : mesh.Accurate horizon) (horigin : origin ∈ addresses)
    (hadj : ∀ v w, mesh.graph.Adj v w → w ∈ addresses) (httl : addresses.card < ttl)
    {rounds : List (List Event)} (hrounds : ∀ round ∈ rounds,
      ∀ event ∈ round, event.Before origin sequenceNumber horizon)
    (hsends : ∀ round ∈ rounds, ∀ v ∈ addresses, ∃ now, .sendQueuedMessages v now ∈ round)
    (hlength : addresses.card ≤
      (sendersOf origin sequenceNumber air).length + rounds.length) (v : Ipv4Address) :
    (knownOf origin sequenceNumber (mesh.run air rounds.flatten) v).queued = [] := by
  induction rounds generalizing air with
  | nil =>
      -- Every node has sent the message.
      by_contra hv
      obtain ⟨m, hm⟩ := List.exists_mem_of_ne_nil _ hv
      have hlt := h.length_lt horigin hadj hm
      rw [List.length_nil] at hlength
      omega
  | cons round rounds ih =>
      rw [List.forall_mem_cons] at hrounds hsends
      rw [List.flatten_cons, run_append]
      by_cases hquiet : ∀ u, (knownOf origin sequenceNumber air u).queued = []
      · have hrest : ∀ event ∈ round ++ rounds.flatten,
            event.Before origin sequenceNumber horizon := by
          rw [List.forall_mem_append]
          refine ⟨hrounds.1, fun event hmem => ?_⟩
          obtain ⟨later, hlater, hin⟩ := List.mem_flatten.mp hmem
          exact hrounds.2 later hlater event hin
        have hsame := quiet_run mesh hquiet hrest v
        rw [run_append] at hsame
        exact hsame
      · obtain ⟨u, hu⟩ := not_forall.mp hquiet
        obtain ⟨m, hm⟩ := List.exists_mem_of_ne_nil _ hu
        have hsent := h.sent_in_round haccurate horigin hadj httl hrounds.1 hu
          (hsends.1 u (h.mem_addresses horigin hadj hm))
        have hgrow : sendersOf origin sequenceNumber air <+:
            sendersOf origin sequenceNumber (mesh.run air round) :=
          senders_grow mesh air round
        refine ih (h.run haccurate horigin hadj httl hrounds.1) hrounds.2 hsends.2 ?_
        have hmore : (sendersOf origin sequenceNumber air).length <
            (sendersOf origin sequenceNumber (mesh.run air round)).length := by
          by_contra hle
          rw [← hgrow.eq_of_length_le (not_lt.mp hle)] at hsent
          exact (h.queued u m hm).notSent hsent
        rw [List.length_cons] at hlength
        omega

/-! ## Every node is reached -/

/-- When no node has the message to send any more, every node that the graph connects with the
origin has heard it. -/
theorem Flooding.reaches (h : mesh.Flooding addresses origin ttl senders known)
    (haccurate : mesh.Accurate horizon) (hquiet : ∀ v, (known v).queued = []) {v : Ipv4Address}
    (hv : v ≠ origin) (hreach : mesh.graph.Reachable origin v) : mesh.Heard senders v := by
  have hfinished : Finished mesh.graph mesh.Elects origin senders := by
    refine ⟨h.started.resolve_right fun hne => hne (hquiet origin), h.sender,
      fun v hv w hfind hselector => ?_⟩
    exact (h.relay v hv w hfind hselector).resolve_right fun hne => hne (hquiet v)
  exact hfinished.reaches haccurate.covering hv hreach

/-! ## Delivery -/

/-- No node knows of the message. -/
def Unknown (origin : Ipv4Address) (sequenceNumber : UInt16) (air : Air) : Prop :=
  sendersOf origin sequenceNumber air = [] ∧
    ∀ v, knownOf origin sequenceNumber air v = ⟨none, [], []⟩

theorem Unknown.run (h : Unknown origin sequenceNumber air) {events : List Event}
    (hevents : ∀ event ∈ events, event.Before origin sequenceNumber horizon) :
    Unknown origin sequenceNumber (mesh.run air events) := by
  induction events generalizing air with
  | nil => exact h
  | cons event events ih =>
      rw [List.forall_mem_cons] at hevents
      refine ih ?_ hevents.2
      cases event with
      | queueMessage node message =>
          refine ⟨h.1, ?_⟩
          rw [known_queueMessage_other hevents.1]
          exact h.2
      | sendQueuedMessages node now =>
          obtain ⟨hknown, hsenders⟩ := known_send_silent mesh now
            (congrArg Known.queued (h.2 node))
          exact ⟨hsenders.trans h.1, hknown ▸ h.2⟩

theorem Unknown.queueMessage (h : Unknown origin sequenceNumber air) {message : Message}
    (hkey : message.hasKey origin sequenceNumber = true)
    (htype : message.messageType ≠ HELLO_MESSAGE) :
    mesh.Flooding addresses origin message.timeToLive.toNat
      (sendersOf origin sequenceNumber (mesh.step air (.queueMessage origin message)))
      (knownOf origin sequenceNumber (mesh.step air (.queueMessage origin message))) := by
  have hsenders : sendersOf origin sequenceNumber
      (mesh.step air (.queueMessage origin message)) = [] := h.1
  have hother : ∀ v, v ≠ origin → knownOf origin sequenceNumber
      (mesh.step air (.queueMessage origin message)) v = ⟨none, [], []⟩ := by
    intro v hv
    rw [← h.2 v]
    simp [knownOf, Mesh.step, Function.update_of_ne hv]
  have hown : (knownOf origin sequenceNumber
      (mesh.step air (.queueMessage origin message)) origin).queued = [message] := by
    have hqueued := congrArg Known.queued (h.2 origin)
    simp only [knownOf, Agent.about] at hqueued
    simp [knownOf, Mesh.step, Agent.about, Agent.queueMessage, hqueued, hkey]
  have hunread : (knownOf origin sequenceNumber
      (mesh.step air (.queueMessage origin message)) origin).read = [] := by
    have hread := congrArg Known.read (h.2 origin)
    simp only [knownOf, Agent.about] at hread
    simp [knownOf, Mesh.step, Agent.about, Agent.queueMessage, hread]
  rw [hsenders]
  have hnone : ∀ v, ¬ mesh.Heard [] v := fun v ⟨_, hmem, _⟩ => List.not_mem_nil hmem
  refine ⟨List.nodup_nil, ?_, Or.inr (by simp [hown]), hunread, ?_, fun v m hm => ?_,
    fun v hv _ => ?_, fun v _ hheard => absurd hheard (hnone v), ?_⟩
  · simp
  · simp
  · by_cases hv : v = origin
    · subst hv
      rw [hown] at hm ⊢
      obtain rfl := List.mem_singleton.mp hm
      exact ⟨List.not_mem_nil, rfl, Nat.le_refl _, htype, Or.inl rfl⟩
    · rw [hother v hv] at hm
      exact absurd hm List.not_mem_nil
  · rw [hother v hv]
    exact ⟨rfl, rfl⟩
  · simp

/-- A message with enough time to live is flooded: no node sends two copies of it, no node reads it
twice and its originator never does, and when no node has it to send any more, every node that can
be reached has read it. So it is after as many rounds as there are nodes, if every node sends its
queue in every round. -/
theorem floods (mesh : Mesh) (addresses : Finset Ipv4Address) (horizon : ℕ)
    (haccurate : mesh.Accurate horizon) (hadj : ∀ v w, mesh.graph.Adj v w → w ∈ addresses)
    (message : Message) (horigin : message.originatorAddress ∈ addresses)
    (htype : message.messageType ≠ HELLO_MESSAGE)
    (httl : addresses.card < message.timeToLive.toNat) (earlier later : List Event)
    (hevents : ∀ event ∈ earlier ++ later,
      event.Before message.originatorAddress message.messageSequenceNumber horizon) :
    let key := Message.hasKey message.originatorAddress message.messageSequenceNumber
    let air := mesh.run start
      (earlier ++ .queueMessage message.originatorAddress message :: later)
    (air.txPacketTrace.flatMap fun sent => (sent.2.filter key).map fun _ => sent.1).Nodup ∧
      (∀ v, ((air.agent v).processed.filter key).length ≤ 1) ∧
      (air.agent message.originatorAddress).processed.filter key = [] ∧
      ((∀ v, (air.agent v).queuedMessages.filter key = []) →
        ∀ v, v ≠ message.originatorAddress →
          mesh.graph.Reachable message.originatorAddress v →
          ((air.agent v).processed.filter key).length = 1) ∧
      ∀ rounds : List (List Event), later = rounds.flatten → addresses.card ≤ rounds.length →
        (∀ round ∈ rounds, ∀ v ∈ addresses, ∃ now, .sendQueuedMessages v now ∈ round) →
          ∀ v, (air.agent v).queuedMessages.filter key = [] := by
  intro key air
  rw [List.forall_mem_append] at hevents
  have hstart : Unknown message.originatorAddress message.messageSequenceNumber start :=
    ⟨rfl, fun v => rfl⟩
  have hkey : message.hasKey message.originatorAddress message.messageSequenceNumber = true :=
    decide_eq_true ⟨rfl, rfl⟩
  have hunknown : Unknown message.originatorAddress message.messageSequenceNumber
      (mesh.run start earlier) := hstart.run hevents.1
  have hmade : mesh.Flooding addresses _ _ _ _ := hunknown.queueMessage hkey htype
  have hflooding := hmade.run haccurate horigin hadj httl hevents.2
  have hair : air = mesh.run (mesh.step (mesh.run start earlier)
      (.queueMessage message.originatorAddress message)) later := by
    exact mesh.run_append start earlier (.queueMessage message.originatorAddress message :: later)
  rw [← hair] at hflooding
  have hunread : (air.agent message.originatorAddress).processed.filter key = [] :=
    hflooding.unread
  refine ⟨hflooding.nodup, fun v => ?_, hunread, fun hquiet v hv hreach => ?_,
    fun rounds hlater hlength hsends v => ?_⟩
  · by_cases hv : v = message.originatorAddress
    · rw [hv, hunread]
      exact Nat.zero_le 1
    by_cases hheard : mesh.Heard (sendersOf message.originatorAddress
        message.messageSequenceNumber air) v
    · exact (hflooding.heard v hv hheard).2.le
    · have hread : (air.agent v).processed.filter key = [] := (hflooding.unheard v hv hheard).2
      rw [hread]
      exact Nat.zero_le 1
  · exact (hflooding.heard v hv (hflooding.reaches haccurate hquiet hv hreach)).2
  · rw [hair, hlater]
    refine hmade.rounds haccurate horigin hadj httl (fun round hround event hevent => ?_) hsends
      (Nat.le_add_left_of_le hlength) v
    apply hevents.2
    rw [hlater]
    exact List.mem_flatten_of_mem hround hevent

/-- Nodes 1, 2 and 3 in a line. -/
def lineLinks : List (Ipv4Address × Ipv4Address) := [(1, 2), (2, 1), (2, 3), (3, 2)]

def lineNeighbors (v : Ipv4Address) : List Ipv4Address :=
  [1, 2, 3].filter fun w => (v, w) ∈ lineLinks

theorem mem_lineLinks {v w : Ipv4Address} : (v, w) ∈ lineLinks ↔
    v = 1 ∧ w = 2 ∨ v = 2 ∧ w = 1 ∨ v = 2 ∧ w = 3 ∨ v = 3 ∧ w = 2 := by
  simp [lineLinks]

theorem mem_lineNeighbors {v w : Ipv4Address} : w ∈ lineNeighbors v ↔ (v, w) ∈ lineLinks := by
  rw [lineNeighbors, List.mem_filter, decide_eq_true_eq, and_iff_right_iff_imp, mem_lineLinks]
  rintro (⟨-, rfl⟩ | ⟨-, rfl⟩ | ⟨-, rfl⟩ | ⟨-, rfl⟩) <;> decide

/-- The outer nodes have the inner one as relay. -/
def line : Mesh where
  graph :=
    { Adj := fun v w => (v, w) ∈ lineLinks
      symm := ⟨fun v w h => by
        rw [mem_lineLinks] at h ⊢
        tauto⟩
      loopless := ⟨fun v h => by
        rw [mem_lineLinks] at h
        rcases h with ⟨rfl, h⟩ | ⟨rfl, h⟩ | ⟨rfl, h⟩ | ⟨rfl, h⟩ <;> exact absurd h (by decide)⟩ }
  decidable := fun v w => (inferInstance : Decidable ((v, w) ∈ lineLinks))
  station := fun v =>
    { state :=
        { linkSet := (lineNeighbors v).map fun w => ⟨w, 100⟩
          neighborSet := (lineNeighbors v).map fun w => ⟨w, .SYM, 3⟩
          twoHopNeighborSet := (lineNeighbors v).flatMap fun w =>
            ((lineNeighbors w).filter fun b => b ≠ v).map fun b => ⟨w, b⟩
          topologySet := []
          mprSet := if v = 2 then ∅ else (lineNeighbors v).toFinset }
      mprSelectorSet := if v = 2 then [1, 3] else [] }

theorem line_accurate : line.Accurate 100 where
  links := by
    intro v w h
    rcases mem_lineLinks.mp h with ⟨rfl, rfl⟩ | ⟨rfl, rfl⟩ | ⟨rfl, rfl⟩ | ⟨rfl, rfl⟩ <;>
      exact ⟨_, rfl, Nat.le_refl _⟩
  neighbors := by
    intro v w
    simp [line, mem_lineNeighbors]
  willing := by
    intro v neigh hneigh
    obtain ⟨w, -, rfl⟩ := List.mem_map.mp hneigh
    exact (by decide : (3 : UInt8) ≠ willNever)
  twoHopNeighbors := by
    rintro v ⟨w, b⟩
    simp [line, mem_lineNeighbors]
  mprSet := by
    intro v
    refine ⟨fun addr haddr => ?_, fun neigh hneigh _ hwilling => ?_, fun it hit _ _ _ => ?_⟩
    · by_cases hv : v = 2
      · simp [line, hv] at haddr
      · simp only [line, if_neg hv, List.mem_toFinset] at haddr
        exact ⟨⟨addr, .SYM, 3⟩, List.mem_map.mpr ⟨addr, haddr, rfl⟩, rfl, rfl,
          (by decide : (3 : UInt8) ≠ willNever)⟩
    · obtain ⟨w, -, rfl⟩ := List.mem_map.mp hneigh
      exact absurd hwilling (by decide : (3 : UInt8) ≠ willAlways)
    · by_cases hv : v = 2
      · subst hv
        exact absurd hit List.not_mem_nil
      · refine ⟨it, hit, rfl, ?_⟩
        obtain ⟨w, hw, hmem⟩ := List.mem_flatMap.mp hit
        obtain ⟨b, -, rfl⟩ := List.mem_map.mp hmem
        simpa [line, hv] using hw
  mprSelectors := by
    intro v m hm
    by_cases hv : v = 2
    · simp [line, hv] at hm
    · simp only [line, if_neg hv, List.mem_toFinset] at hm
      rcases mem_lineLinks.mp (mem_lineNeighbors.mp hm) with
        ⟨rfl, rfl⟩ | ⟨rfl, rfl⟩ | ⟨rfl, rfl⟩ | ⟨rfl, rfl⟩
      · decide
      · exact absurd rfl hv
      · exact absurd rfl hv
      · decide

def lineEvents : List Event :=
  [.queueMessage 1 ⟨2, 1, 7, 255, 0⟩, .sendQueuedMessages 1 0, .sendQueuedMessages 2 1]

theorem lineEvents_quiet (v : Ipv4Address) :
    (((line.run start lineEvents).agent v).queuedMessages.filter (Message.hasKey 1 7)) = [] := by
  by_cases hone : v = 1
  · subst hone
    rfl
  by_cases htwo : v = 2
  · subst htwo
    rfl
  by_cases hthree : v = 3
  · subst hthree
    rfl
  have hnot : ∀ w, ¬ line.graph.Adj w v := by
    intro w h
    rcases mem_lineLinks.mp h with ⟨-, rfl⟩ | ⟨-, rfl⟩ | ⟨-, rfl⟩ | ⟨-, rfl⟩ <;> contradiction
  simp [lineEvents, run, step, hnot, hone, htwo, start]

theorem floods_line :
    (((line.run start lineEvents).agent 3).processed.filter (Message.hasKey 1 7)).length = 1 := by
  refine (floods line {1, 2, 3} 100 line_accurate ?_ ⟨2, 1, 7, 255, 0⟩ (by decide) (by decide)
    (by decide) [] [.sendQueuedMessages 1 0, .sendQueuedMessages 2 1] ?_).2.2.2.1 lineEvents_quiet 3
      (by decide) ?_
  · intro v w h
    rcases mem_lineLinks.mp h with ⟨-, rfl⟩ | ⟨-, rfl⟩ | ⟨-, rfl⟩ | ⟨-, rfl⟩ <;> decide
  · simp [Event.Before]
  · have hfirst : line.graph.Adj 1 2 := by decide
    have hsecond : line.graph.Adj 2 3 := by decide
    exact hfirst.reachable.trans hsecond.reachable

end Mesh

end Ns3Rdma.Olsr
