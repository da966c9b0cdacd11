import Mathlib.Data.UInt
import Mathlib.Logic.Function.Basic
import Ns3Rdma.Net.DataRate

/-! # The receiving side of a NIC

What `Receive` does with a UDP packet: it looks up the flow, counts its ECN marks, checks
the sequence number, answers, and hands the packet up. -/

namespace Ns3Rdma

/-- Parameters of the receiver. `chunk` is 0 when chunks are disabled. -/
structure RxConfig where
  qcnEnabled : Bool
  backto0 : Bool
  testRead : Bool
  chunk : UInt32
  ackInterval : UInt32
  nackInterval : Nat

/-- The fields by which a flow is found. -/
structure FlowKey where
  source : UInt32
  qIndex : Fin qCnt
  port : UInt16
deriving DecidableEq

/-- The ECN counters and the sequence state of one flow. `milestoneRx` and `lastNACK` hold the
32 bits of signed and unsigned variables, which are only compared as unsigned. -/
structure RxFlow where
  ecnbits : UInt8
  qfb : UInt16
  total : UInt16
  receiverNextExpectedSeq : UInt32
  nackTimer : Nat
  milestoneRx : UInt32
  lastNACK : UInt32

/-- The results 1 to 5 of `ReceiverCheckSeq`. -/
inductive SeqCheck where
  | generateAck
  | generateNack
  | duplicate
  | gap
  | inOrder

namespace SeqCheck

/-- The packet is not the next one: a gap (2 or 4) or a duplicate (3). -/
def refuses : SeqCheck → Bool
  | generateAck | inOrder => false
  | generateNack | duplicate | gap => true

end SeqCheck

namespace RxFlow

variable (c : RxConfig)

/-- The state of a flow at its first packet. The ECN bits start from an indeterminate value. -/
def new (indeterminate ecnbits : UInt8) (pg : Fin qCnt) (now : Nat) : RxFlow where
  ecnbits := if ecnbits ≠ 0 ∧ now / 1000 > 0 ∧ pg ≠ 1 then indeterminate ||| ecnbits else 0
  qfb := if ecnbits ≠ 0 ∧ now / 1000 > 0 ∧ pg ≠ 1 then 1 else 0
  total := 1
  receiverNextExpectedSeq := 0
  nackTimer := 0
  milestoneRx := c.ackInterval
  lastNACK := 0xFFFFFFFF

/-- The ECN counters at a further packet. -/
def countEcn (f : RxFlow) (ecnbits : UInt8) (now : Nat) : RxFlow :=
  if ecnbits ≠ 0 ∧ now / 1000 > 0 then
    { f with ecnbits := f.ecnbits ||| ecnbits, qfb := f.qfb + 1, total := f.total + 1 }
  else { f with total := f.total + 1 }

/-- `CheckandSendQCN`: a notification if the flow was marked, then the counters restart. -/
def checkandSendQCN (f : RxFlow) (key : FlowKey) : RxFlow × List Feedback :=
  if !c.qcnEnabled then (f, [])
  else
    ({ f with ecnbits := 0, qfb := 0, total := 0 },
      if f.ecnbits = 3 then [.cnp ⟨key.port, key.qIndex, f.ecnbits, f.qfb, f.total⟩] else [])

/-- A remainder or quotient by a chunk size of 0 stops the program. -/
def receiverCheckSeq (f : RxFlow) (seq : UInt32) (now : Nat) : Option (SeqCheck × RxFlow) :=
  let expected := f.receiverNextExpectedSeq
  if seq = expected then
    let f := { f with receiverNextExpectedSeq := expected + 1 }
    if f.milestoneRx < f.receiverNextExpectedSeq then
      some (.generateAck, { f with milestoneRx := f.milestoneRx + c.ackInterval })
    else if c.chunk = 0 then none
    else if f.receiverNextExpectedSeq % c.chunk = 0 then some (.generateAck, f)
    else some (.inOrder, f)
  else if expected < seq then
    if f.nackTimer < now ∨ f.lastNACK ≠ expected then
      let f := { f with nackTimer := now + microSeconds c.nackInterval, lastNACK := expected }
      if c.backto0 && !c.testRead then
        if c.chunk = 0 then none
        else some (.generateNack, { f with receiverNextExpectedSeq := expected / c.chunk * c.chunk })
      else some (.generateNack, f)
    else some (.gap, f)
  else some (.duplicate, f)

/-- The frame that answers a packet, with the expected number after the check. -/
def answer (f : RxFlow) (key : FlowKey) : SeqCheck → List Feedback
  | .generateNack => [.nack ⟨key.qIndex, f.receiverNextExpectedSeq, key.port⟩]
  | .generateAck => [.ack ⟨key.qIndex, f.receiverNextExpectedSeq, key.port⟩]
  | _ => []

end RxFlow

/-- The flows a NIC has seen, as `m_ecn_source` and the arrays indexed by its positions hold
them, and what it has handed up, oldest first. -/
structure Receiver where
  flows : FlowKey → Option RxFlow
  size : Nat
  delivered : List Packet

/-- A UDP packet arrives, at a time and with the outcomes of the two error-model tests. -/
structure Arrival where
  packet : Packet
  now : Nat
  corrupt : Bool
  corruptAgain : Bool
  indeterminate : UInt8

namespace Receiver

variable (c : RxConfig)

def start : Receiver where
  flows := fun _ => none
  size := 0
  delivered := []

def key (p : Packet) : FlowKey := ⟨p.source, p.pg, p.sourcePort⟩

/-- The flow of a packet, the number of flows, and the frames that a new flow causes. -/
structure Found where
  flow : RxFlow
  size : Nat
  sent : List Feedback

/-- Find the flow of a packet or add it; only `fCnt` flows have room for their state. -/
def lookup (s : Receiver) (a : Arrival) : Option Found :=
  match s.flows (key a.packet) with
  | some f => some ⟨f.countEcn a.packet.ecn a.now, s.size, []⟩
  | none =>
      if s.size < fCnt then
        let new := RxFlow.new c a.indeterminate a.packet.ecn a.packet.pg a.now
        let checked := new.checkandSendQCN c (key a.packet)
        some ⟨checked.1, s.size + 1, checked.2⟩
      else none

/-- Hand the packet up, after a second test of the error model. -/
def pointToPointReceive (s : Receiver) (a : Arrival) : Receiver :=
  if a.corruptAgain then s else { s with delivered := s.delivered ++ [a.packet] }

/-- `Receive` for a UDP packet at a NIC, and the control frames it enqueues. The result of
`ReceiverCheckSeq` decides on the answer only: every packet goes on to `PointToPointReceive`. -/
def receive (s : Receiver) (a : Arrival) : Option (Receiver × List Feedback) :=
  if a.corrupt then some (s, [])
  else
    (s.lookup c a).bind fun found =>
      (found.flow.receiverCheckSeq c a.packet.seq a.now).map fun checked =>
        (pointToPointReceive
            { s with
              flows := Function.update s.flows (key a.packet) (some checked.2)
              size := found.size } a,
          found.sent ++ checked.2.answer (key a.packet) checked.1)

/-- One arrival. -/
def step (s : Receiver) (a : Arrival) : Option Receiver :=
  (s.receive c a).map Prod.fst

/-- The number expected next of a flow. -/
def expected (s : Receiver) (k : FlowKey) : UInt32 :=
  (s.flows k).elim 0 RxFlow.receiverNextExpectedSeq

end Receiver

end Ns3Rdma
