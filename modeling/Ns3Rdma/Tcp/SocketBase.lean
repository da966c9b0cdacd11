import Ns3Rdma.Tcp.RxBuffer

/-! # What all TCP sockets share -/

namespace Ns3Rdma

/-- `TcpStates_t`. -/
inductive TcpStates
  | CLOSED | LISTEN | SYN_SENT | SYN_RCVD | ESTABLISHED | CLOSE_WAIT | LAST_ACK | FIN_WAIT_1
  | FIN_WAIT_2 | CLOSING | TIME_WAIT
deriving DecidableEq, Repr

namespace TcpSocketBase

def outOfRange (state : TcpStates) (rxBuffer : TcpRxBuffer) (head tail : SequenceNumber32) : Bool :=
  if state = .LISTEN ∨ state = .SYN_SENT ∨ state = .SYN_RCVD then false
  else if state = .LAST_ACK ∨ state = .CLOSING ∨ state = .CLOSE_WAIT then
    decide (rxBuffer.nextRxSeq ≠ head)
  else decide (tail < rxBuffer.nextRxSeq ∨ rxBuffer.maxRxSequence ≤ head)

def advertisedWindowSize (rxBuffer : TcpRxBuffer) (maxWinSize : UInt16) : UInt16 :=
  (min (rxBuffer.maxBuffer - rxBuffer.size) maxWinSize.toUInt32).toUInt16

theorem outOfRange_established {rxBuffer : TcpRxBuffer} {head tail : SequenceNumber32} :
    outOfRange .ESTABLISHED rxBuffer head tail = true ↔
      tail < rxBuffer.nextRxSeq ∨ rxBuffer.maxRxSequence ≤ head := by
  simp [outOfRange]

end TcpSocketBase

end Ns3Rdma
