import Mathlib.Data.UInt
import Mathlib.Data.Fintype.Prod

/-! # Packets, headers and device dimensions

A packet is reduced to the header fields that the device, the egress queue and
the switch read. The array dimensions are those of the device classes. Simulation time
is a natural number of nanoseconds. -/

namespace Ns3Rdma

/-- Number of queues (priorities) of a switch port. -/
abbrev qCnt : Nat := 8

/-- Number of ports of a switch. -/
abbrev pCnt : Nat := 64

/-- Number of transmit queues of a NIC; queue 0 is reserved for control frames. -/
abbrev fCnt : Nat := 128

instance : NeZero qCnt := ⟨by decide⟩

instance : NeZero pCnt := ⟨by decide⟩

instance : NeZero fCnt := ⟨by decide⟩

/-- Address of one priority group or egress queue of a switch: port, then priority. -/
abbrev QueueId := Fin pCnt × Fin qCnt

namespace Protocol

def udp : UInt8 := 17
def ack : UInt8 := 0xFC
def nack : UInt8 := 0xFD
def pfc : UInt8 := 0xFE
def cnp : UInt8 := 0xFF

end Protocol

/-- The header fields used by the modelled code, and the size `GetSize()` reports. Every frame
carries a PPP and an IPv4 header, and the layer above fragments to a 16-bit MTU. -/
structure Packet where
  size : UInt32
  protocol : UInt8
  source : UInt32
  ecn : UInt8
  sourcePort : UInt16
  seq : UInt32
  pg : Fin qCnt
  size_pos : 0 < size.toNat
  size_le : size.toNat ≤ 2 + 65535

/-- A data packet of 1000 bytes and class 3, for concrete runs. -/
def Packet.sample (seq : UInt32) : Packet where
  size := 1000
  protocol := Protocol.udp
  source := 0
  ecn := 0
  sourcePort := 1
  seq := seq
  pg := 3
  size_pos := by decide
  size_le := by decide

/-- A frame with a positive time pauses a class, one with time 0 resumes it. -/
structure PauseHeader where
  time : UInt32
  qlen : UInt32
  qIndex : Fin qCnt

/-- Header of an ACK or a NACK. -/
structure QbbHeader where
  pg : Fin qCnt
  seq : UInt32
  port : UInt16

/-- Header of a congestion notification. -/
structure CnHeader where
  flow : UInt16
  qIndex : Fin qCnt
  ecnbits : UInt8
  qfb : UInt16
  total : UInt16

/-- A control frame from the receiver of a flow to its sender. -/
inductive Feedback where
  | ack (header : QbbHeader)
  | nack (header : QbbHeader)
  | cnp (header : CnHeader)

end Ns3Rdma
