import Ns3Rdma.Tcp.SequenceNumber
import Ns3Rdma.Lib.StepSystem

/-! # The TCP receive buffer

Segments are kept in a map from their sequence numbers, in the order of the map. A failed assertion
is `none`. -/

namespace Ns3Rdma

/-- A packet is the list of its bytes here. -/
abbrev Payload := List UInt8

namespace Payload

def getSize (p : Payload) : UInt32 := UInt32.ofNat p.length

def createFragment (p : Payload) (start length : UInt32) : Option Payload :=
  if start + length ≤ p.getSize then some ((p.drop start.toNat).take length.toNat) else none

variable {p q : Payload} {start length : UInt32}

theorem toNat_getSize (hp : p.length < 2 ^ 32) : p.getSize.toNat = p.length := by
  unfold getSize
  exact UInt32.toNat_ofNat_of_lt' hp

theorem createFragment_eq (hp : p.length < 2 ^ 32)
    (h : start.toNat + length.toNat ≤ p.length) :
    p.createFragment start length = some ((p.drop start.toNat).take length.toNat) := by
  unfold createFragment
  rw [if_pos]
  rw [UInt32.le_iff_toNat_le, UInt32.toNat_add, toNat_getSize hp]
  omega

theorem length_le_of_createFragment (h : p.createFragment start length = some q) :
    q.length ≤ length.toNat := by
  unfold createFragment at h
  split at h
  · obtain rfl := Option.some.inj h
    exact List.length_take_le _ _
  · cases h

end Payload

abbrev RxEntry := SequenceNumber32 × Payload

structure TcpRxBuffer where
  nextRxSeq : SequenceNumber32
  finSeq : SequenceNumber32
  gotFin : Bool
  size : UInt32
  maxBuffer : UInt32
  availBytes : UInt32
  data : List RxEntry

namespace TcpRxBuffer

/-- A new buffer, which expects the number `next`. -/
def init (next : SequenceNumber32) (maxBuffer : UInt32) : TcpRxBuffer where
  nextRxSeq := next
  finSeq := ⟨0⟩
  gotFin := false
  size := 0
  maxBuffer := maxBuffer
  availBytes := 0
  data := []

/-- `m_data[key] = p`. -/
def insert (key : SequenceNumber32) (p : Payload) : List RxEntry → List RxEntry
  | [] => [(key, p)]
  | (first, q) :: rest =>
      if first < key then (first, q) :: insert key p rest
      else if key < first then (key, p) :: (first, q) :: rest
      else (first, p) :: rest

/-- `m_data.erase (i)`, where `i` is the entry with this key. -/
def erase (key : SequenceNumber32) (data : List RxEntry) : List RxEntry :=
  data.filter fun entry => entry.1 ≠ key

/-- The lowest sequence number that the buffer does not accept. -/
def maxRxSequence (b : TcpRxBuffer) : SequenceNumber32 :=
  if b.gotFin then b.finSeq
  else match b.data with
    | (first, _) :: _ => first + b.maxBuffer
    | [] => b.nextRxSeq + b.maxBuffer

def setFinSequence (b : TcpRxBuffer) (s : SequenceNumber32) : TcpRxBuffer :=
  { b with
    gotFin := true
    finSeq := s
    nextRxSeq := if b.nextRxSeq = s then b.nextRxSeq + (1 : UInt32) else b.nextRxSeq }

def finished (b : TcpRxBuffer) : Bool := b.gotFin && decide (b.finSeq < b.nextRxSeq)

/-- The bounds of the new segment before it is compared with the stored ones. -/
def window (b : TcpRxBuffer) (headSeq tailSeq : SequenceNumber32) :
    SequenceNumber32 × SequenceNumber32 :=
  let headSeq := if headSeq < b.nextRxSeq then b.nextRxSeq else headSeq
  match b.data with
  | [] => (headSeq, tailSeq)
  | (first, _) :: _ =>
      let maxSeq := first + b.maxBuffer
      let tailSeq := if maxSeq < tailSeq then maxSeq else tailSeq
      (if tailSeq < headSeq then tailSeq else headSeq, tailSeq)

structure Trimmed where
  data : List RxEntry
  headSeq : SequenceNumber32
  tailSeq : SequenceNumber32
  size : UInt32

/-- The loop of `Add` that removes the overlapped bytes. -/
def trim (headSeq tailSeq : SequenceNumber32) (size : UInt32) : List RxEntry → Trimmed
  | [] => ⟨[], headSeq, tailSeq, size⟩
  | (first, p) :: rest =>
      if first ≤ tailSeq then
        let lastByteSeq := first + p.getSize
        if headSeq < lastByteSeq then
          if headSeq < first ∧ lastByteSeq < tailSeq then trim headSeq tailSeq (size - p.getSize) rest
          else
            let r := trim (if first ≤ headSeq then lastByteSeq else headSeq)
              (if tailSeq ≤ lastByteSeq then first else tailSeq) size rest
            { r with data := (first, p) :: r.data }
        else
          let r := trim headSeq tailSeq size rest
          { r with data := (first, p) :: r.data }
      else ⟨(first, p) :: rest, headSeq, tailSeq, size⟩

/-- The loop of `Add` that updates `m_nextRxSeq` and `m_availBytes`. -/
def advance (nextRxSeq : SequenceNumber32) (availBytes : UInt32) :
    List RxEntry → SequenceNumber32 × UInt32
  | [] => (nextRxSeq, availBytes)
  | (first, p) :: rest =>
      if first < nextRxSeq then advance nextRxSeq availBytes rest
      else if nextRxSeq < first then (nextRxSeq, availBytes)
      else advance (first + p.getSize) (availBytes + p.getSize) rest

/-- `Add (p, tcph)`, where the header has this sequence number. -/
def add (b : TcpRxBuffer) (p : Payload) (seq : SequenceNumber32) :
    Option (TcpRxBuffer × Bool) :=
  let bounds := b.window seq (seq + p.getSize)
  let r := trim bounds.1 bounds.2 b.size b.data
  if r.tailSeq ≤ r.headSeq then some ({ b with data := r.data, size := r.size }, false)
  else
    (p.createFragment (r.headSeq - seq).toUInt32 (r.tailSeq - r.headSeq).toUInt32).bind fun p =>
      if (r.tailSeq - r.headSeq).toUInt32 = p.getSize ∧ r.headSeq ∉ r.data.map Prod.fst then
        let data := insert r.headSeq p r.data
        let next := advance b.nextRxSeq b.availBytes data
        some
          ({ b with
              data := data
              size := r.size + p.getSize
              availBytes := next.2
              nextRxSeq := if b.gotFin ∧ next.1 = b.finSeq then next.1 + (1 : UInt32)
                else next.1 }, true)
      else none

/-- The loop of `Extract`: the extracted bytes and the entries that are left. -/
def extractLoop (nextRxSeq : SequenceNumber32) (extractSize : UInt32) :
    List RxEntry → Option (Payload × List RxEntry)
  | [] => if extractSize = 0 then some ([], []) else none
  | (first, p) :: rest =>
      if extractSize = 0 then some ([], (first, p) :: rest)
      else if first ≤ nextRxSeq then
        if p.getSize ≤ extractSize then
          (extractLoop nextRxSeq (extractSize - p.getSize) rest).map fun r => (p ++ r.1, r.2)
        else
          (p.createFragment 0 extractSize).bind fun taken =>
            (p.createFragment extractSize (p.getSize - extractSize)).map fun left =>
              (taken, erase first (insert (first + extractSize) left ((first, p) :: rest)))
      else none

/-- `Extract (maxSize)`. Each iteration takes as much off the counters as off `extractSize`. -/
def extract (b : TcpRxBuffer) (maxSize : UInt32) : Option (TcpRxBuffer × Payload) :=
  let extractSize := min maxSize b.availBytes
  (extractLoop b.nextRxSeq extractSize b.data).map fun r =>
    ({ b with
        data := r.2
        size := b.size - extractSize
        availBytes := b.availBytes - extractSize }, r.1)

end TcpRxBuffer

end Ns3Rdma
