import Ns3Rdma.Olsr.OlsrState
import Ns3Rdma.Tcp.TcpOption

/-!
# OLSR messages

A message is a header of 12 bytes and a body of one of four kinds. The readers stop with `none` at
an assertion, also at the one of the buffer that there is a byte left to read.
-/

namespace Ns3Rdma

namespace Reader

/-- Read a number of values. -/
def readMany {α : Type} (decode : List UInt8 → Option (α × List UInt8)) :
    ℕ → List UInt8 → Option (List α × List UInt8)
  | 0, bytes => some ([], bytes)
  | n + 1, bytes => (decode bytes).bind fun v =>
      (readMany decode n v.2).map fun rest => (v.1 :: rest.1, rest.2)

/-- A reader that takes `n` bytes if they are there and else stops. -/
def Takes {α : Type} (n : ℕ) (decode : List UInt8 → Option (α × List UInt8)) : Prop :=
  ∀ bytes, (n ≤ bytes.length → ∃ v, decode bytes = some (v, bytes.drop n)) ∧
    (bytes.length < n → decode bytes = none)

section Takes

variable {α : Type} {decode : List UInt8 → Option (α × List UInt8)} {n k : ℕ}

theorem Takes.eq_some (h : Takes n decode) {bytes : List UInt8} {r : α × List UInt8}
    (hr : decode bytes = some r) : n ≤ bytes.length ∧ r.2 = bytes.drop n := by
  rcases Nat.lt_or_ge bytes.length n with hlt | hle
  · rw [(h bytes).2 hlt] at hr
    exact absurd hr (by simp)
  · obtain ⟨v, hv⟩ := (h bytes).1 hle
    rw [hv] at hr
    exact ⟨hle, congrArg Prod.snd (Option.some_inj.mp hr.symm)⟩

theorem takes_readU8 : Takes 1 readU8 := by
  intro bytes
  cases bytes with
  | nil => exact ⟨fun h => absurd h (by decide), fun _ => rfl⟩
  | cons v rest => exact ⟨fun _ => ⟨v, rfl⟩, fun h => absurd h (by simp)⟩

theorem takes_readNtohU16 : Takes 2 readNtohU16 := by
  intro bytes
  rcases bytes with _ | ⟨high, _ | ⟨low, rest⟩⟩
  · exact ⟨fun h => absurd h (by decide), fun _ => rfl⟩
  · exact ⟨fun h => absurd h (by simp), fun _ => rfl⟩
  · exact ⟨fun _ => ⟨_, rfl⟩, fun h => absurd h (by simp)⟩

theorem takes_readNtohU32 : Takes 4 readNtohU32 := by
  intro bytes
  rcases bytes with _ | ⟨a, _ | ⟨b, _ | ⟨c, _ | ⟨d, rest⟩⟩⟩⟩
  · exact ⟨fun h => absurd h (by decide), fun _ => rfl⟩
  · exact ⟨fun h => absurd h (by simp), fun _ => rfl⟩
  · exact ⟨fun h => absurd h (by simp), fun _ => rfl⟩
  · exact ⟨fun h => absurd h (by simp), fun _ => rfl⟩
  · exact ⟨fun _ => ⟨_, rfl⟩, fun h => absurd h (by simp)⟩

theorem Takes.bind {β : Type} {next : α → List UInt8 → Option (β × List UInt8)}
    (h : Takes n decode) (hnext : ∀ v, Takes k (next v)) :
    Takes (n + k) fun bytes => (decode bytes).bind fun v => next v.1 v.2 := by
  intro bytes
  constructor
  · intro hle
    obtain ⟨v, hv⟩ := (h bytes).1 (Nat.le_of_add_right_le hle)
    obtain ⟨w, hw⟩ := (hnext v (bytes.drop n)).1 (by rw [List.length_drop]; omega)
    refine ⟨w, ?_⟩
    simp only [hv, Option.bind_some, hw, List.drop_drop]
  · intro hlt
    rcases Nat.lt_or_ge bytes.length n with hfew | hmany
    · simp only [(h bytes).2 hfew, Option.bind_none]
    · obtain ⟨v, hv⟩ := (h bytes).1 hmany
      simp only [hv, Option.bind_some]
      exact (hnext v _).2 (by rw [List.length_drop]; omega)

theorem Takes.map {β : Type} (h : Takes n decode) (f : α → β) :
    Takes n fun bytes => (decode bytes).map fun v => (f v.1, v.2) := by
  intro bytes
  constructor
  · intro hle
    obtain ⟨v, hv⟩ := (h bytes).1 hle
    exact ⟨f v, by simp only [hv, Option.map_some]⟩
  · intro hlt
    simp only [(h bytes).2 hlt, Option.map_none]

theorem takes_readMany (h : Takes k decode) (n : ℕ) : Takes (n * k) (readMany decode n) := by
  induction n with
  | zero =>
      rw [Nat.zero_mul]
      exact fun bytes => ⟨fun _ => ⟨[], rfl⟩, fun hlt => absurd hlt (Nat.not_lt_zero _)⟩
  | succ n ih =>
      rw [Nat.add_mul, Nat.one_mul, Nat.add_comm]
      exact h.bind fun v => ih.map fun rest => v :: rest

theorem readMany_length {bytes : List UInt8} {r : List α × List UInt8}
    (h : readMany decode n bytes = some r) : r.1.length = n := by
  induction n generalizing bytes r with
  | zero => exact congrArg List.length (congrArg Prod.fst (Option.some_inj.mp h.symm))
  | succ n ih =>
      obtain ⟨v, -, hrest⟩ := Option.bind_eq_some_iff.mp h
      obtain ⟨rest, hread, rfl⟩ := Option.map_eq_some_iff.mp hrest
      rw [List.length_cons, ih hread]

/-- What was encoded is read again. -/
theorem readMany_flatMap {encode : α → List UInt8} {values : List α}
    (hdecode : ∀ v l, decode (encode v ++ l) = some (v, l)) (rest : List UInt8) :
    readMany decode values.length (values.flatMap encode ++ rest) = some (values, rest) := by
  induction values with
  | nil => rfl
  | cons v others ih =>
      rw [List.length_cons, readMany, List.flatMap_cons, List.append_assoc, hdecode,
        Option.bind_some, ih, Option.map_some]

end Takes

end Reader

namespace OlsrWire

open Writer Reader

namespace MessageHeader

structure LinkMessage where
  linkCode : UInt8
  neighborInterfaceAddresses : List Olsr.Ipv4Address
deriving DecidableEq

structure Mid where
  interfaceAddresses : List Olsr.Ipv4Address
deriving DecidableEq

structure Hello where
  hTime : UInt8
  willingness : UInt8
  linkMessages : List LinkMessage
deriving DecidableEq

structure Tc where
  ansn : UInt16
  neighborAddresses : List Olsr.Ipv4Address
deriving DecidableEq

/-- The address of a network and its mask. -/
structure NetworkAddress where
  address : Olsr.Ipv4Address
  mask : UInt32
deriving DecidableEq

structure Hna where
  associations : List NetworkAddress
deriving DecidableEq

/-! ## The bodies -/

def Mid.getSerializedSize (m : Mid) : ℕ := m.interfaceAddresses.length * 4

def Mid.serialize (m : Mid) : List UInt8 := m.interfaceAddresses.flatMap htonU32

/-- The number that is returned is the size that was read. -/
def Mid.deserialize (messageSize : UInt32) (bytes : List UInt8) :
    Option ((Mid × UInt32) × List UInt8) :=
  if messageSize % 4 ≠ 0 then none
  else (readMany readNtohU32 (messageSize / 4).toNat bytes).map fun r =>
    ((⟨r.1⟩, UInt32.ofNat (Mid.getSerializedSize ⟨r.1⟩)), r.2)

def LinkMessage.getSerializedSize (lm : LinkMessage) : ℕ :=
  4 + 4 * lm.neighborInterfaceAddresses.length

def LinkMessage.serialize (lm : LinkMessage) : List UInt8 :=
  [lm.linkCode, 0] ++ htonU16 (UInt16.ofNat (4 + lm.neighborInterfaceAddresses.length * 4)) ++
    lm.neighborInterfaceAddresses.flatMap htonU32

def Hello.getSerializedSize (m : Hello) : ℕ :=
  4 + (m.linkMessages.map LinkMessage.getSerializedSize).sum

def Hello.serialize (m : Hello) : List UInt8 :=
  [0, 0, m.hTime, m.willingness] ++ m.linkMessages.flatMap LinkMessage.serialize

/-- How often a loop `for (int n = ...; n; --n)` runs; a negative counter comes around to 0. -/
def passes (n : ℤ) : ℕ := (n % 2 ^ 32).toNat

/-- A link message and its size. -/
def LinkMessage.deserialize (bytes : List UInt8) : Option ((LinkMessage × UInt16) × List UInt8) :=
  (readU8 bytes).bind fun linkCode =>
  (readU8 linkCode.2).bind fun reserved =>
  (readNtohU16 reserved.2).bind fun lmSize =>
    if ((lmSize.1.toNat : ℤ) - 4).tmod 4 ≠ 0 then none
    else (readMany readNtohU32 (passes (((lmSize.1.toNat : ℤ) - 4).tdiv 4)) lmSize.2).map fun r =>
      ((⟨linkCode.1, r.1⟩, lmSize.1), r.2)

theorem LinkMessage.deserialize_length {bytes : List UInt8}
    {r : (LinkMessage × UInt16) × List UInt8} (h : LinkMessage.deserialize bytes = some r) :
    r.2.length < bytes.length := by
  unfold LinkMessage.deserialize at h
  rcases bytes with _ | ⟨linkCode, _ | ⟨reserved, _ | ⟨high, _ | ⟨low, rest⟩⟩⟩⟩
  · exact absurd h (by simp [readU8])
  · exact absurd h (by simp [readU8])
  · exact absurd h (by simp [readU8, readNtohU16])
  · exact absurd h (by simp [readU8, readNtohU16])
  · simp only [readU8, readNtohU16, Option.bind_some] at h
    split at h
    · exact absurd h (by simp)
    · obtain ⟨s, hs, rfl⟩ := Option.map_eq_some_iff.mp h
      have hrest := ((takes_readMany takes_readNtohU32 _).eq_some hs).2
      simp only [hrest, List.length_drop, List.length_cons]
      omega

/-- The loop `while (helloSizeLeft)`. -/
def readLinkMessages (helloSizeLeft : UInt16) (bytes : List UInt8) :
    Option (List LinkMessage × List UInt8) :=
  if helloSizeLeft = 0 then some ([], bytes)
  else if helloSizeLeft < 4 then none
  else
    match _hread : LinkMessage.deserialize bytes with
    | none => none
    | some lm => (readLinkMessages (helloSizeLeft - lm.1.2) lm.2).map fun r =>
        (lm.1.1 :: r.1, r.2)
termination_by bytes.length
decreasing_by exact LinkMessage.deserialize_length _hread

def Hello.deserialize (messageSize : UInt32) (bytes : List UInt8) :
    Option ((Hello × UInt32) × List UInt8) :=
  if messageSize < 4 then none
  else
    (readNtohU16 bytes).bind fun reserved =>
    (readU8 reserved.2).bind fun hTime =>
    (readU8 hTime.2).bind fun willingness =>
    (readLinkMessages (messageSize.toUInt16 - 4) willingness.2).map fun r =>
      ((⟨hTime.1, willingness.1, r.1⟩, messageSize), r.2)

def Tc.getSerializedSize (m : Tc) : ℕ := 4 + m.neighborAddresses.length * 4

def Tc.serialize (m : Tc) : List UInt8 :=
  htonU16 m.ansn ++ htonU16 0 ++ m.neighborAddresses.flatMap htonU32

def Tc.deserialize (messageSize : UInt32) (bytes : List UInt8) :
    Option ((Tc × UInt32) × List UInt8) :=
  if messageSize < 4 then none
  else
    (readNtohU16 bytes).bind fun ansn =>
    (readNtohU16 ansn.2).bind fun reserved =>
      if (messageSize - 4) % 4 ≠ 0 then none
      else (readMany readNtohU32 ((messageSize - 4) / 4).toNat reserved.2).map fun r =>
        ((⟨ansn.1, r.1⟩, messageSize), r.2)

def Hna.getSerializedSize (m : Hna) : ℕ := 2 * m.associations.length * 4

def NetworkAddress.serialize (a : NetworkAddress) : List UInt8 :=
  htonU32 a.address ++ htonU32 a.mask

def Hna.serialize (m : Hna) : List UInt8 := m.associations.flatMap NetworkAddress.serialize

def NetworkAddress.deserialize (bytes : List UInt8) : Option (NetworkAddress × List UInt8) :=
  (readNtohU32 bytes).bind fun address =>
    (readNtohU32 address.2).map fun mask => (⟨address.1, mask.1⟩, mask.2)

def Hna.deserialize (messageSize : UInt32) (bytes : List UInt8) :
    Option ((Hna × UInt32) × List UInt8) :=
  if messageSize % (4 * 2) ≠ 0 then none
  else (readMany NetworkAddress.deserialize (messageSize / 4 / 2).toNat bytes).map fun r =>
    ((⟨r.1⟩, messageSize), r.2)

/-- `m_message`, with the type of the message. -/
inductive Message
  | HELLO_MESSAGE (hello : Hello)
  | TC_MESSAGE (tc : Tc)
  | MID_MESSAGE (mid : Mid)
  | HNA_MESSAGE (hna : Hna)
deriving DecidableEq

namespace Message

def messageType : Message → UInt8
  | .HELLO_MESSAGE _ => 1
  | .TC_MESSAGE _ => 2
  | .MID_MESSAGE _ => 3
  | .HNA_MESSAGE _ => 4

def getSerializedSize : Message → ℕ
  | .HELLO_MESSAGE hello => hello.getSerializedSize
  | .TC_MESSAGE tc => tc.getSerializedSize
  | .MID_MESSAGE mid => mid.getSerializedSize
  | .HNA_MESSAGE hna => hna.getSerializedSize

def serialize : Message → List UInt8
  | .HELLO_MESSAGE hello => hello.serialize
  | .TC_MESSAGE tc => tc.serialize
  | .MID_MESSAGE mid => mid.serialize
  | .HNA_MESSAGE hna => hna.serialize

/-- The reader for a type of message. No other type passes the assertion. -/
def deserialize (messageType : UInt8) (messageSize : UInt32) (bytes : List UInt8) :
    Option ((Message × UInt32) × List UInt8) :=
  if messageType = 3 then
    (Mid.deserialize messageSize bytes).map fun r => ((.MID_MESSAGE r.1.1, r.1.2), r.2)
  else if messageType = 1 then
    (Hello.deserialize messageSize bytes).map fun r => ((.HELLO_MESSAGE r.1.1, r.1.2), r.2)
  else if messageType = 2 then
    (Tc.deserialize messageSize bytes).map fun r => ((.TC_MESSAGE r.1.1, r.1.2), r.2)
  else if messageType = 4 then
    (Hna.deserialize messageSize bytes).map fun r => ((.HNA_MESSAGE r.1.1, r.1.2), r.2)
  else none

end Message

/-- The fields that are read in front of a body. -/
structure Fields where
  messageType : UInt8
  vTime : UInt8
  messageSize : UInt16
  originatorAddress : Olsr.Ipv4Address
  timeToLive : UInt8
  hopCount : UInt8
  messageSequenceNumber : UInt16

def readFields (bytes : List UInt8) : Option (Fields × List UInt8) :=
  (readU8 bytes).bind fun messageType =>
  (readU8 messageType.2).bind fun vTime =>
  (readNtohU16 vTime.2).bind fun messageSize =>
  (readNtohU32 messageSize.2).bind fun originatorAddress =>
  (readU8 originatorAddress.2).bind fun timeToLive =>
  (readU8 timeToLive.2).bind fun hopCount =>
  (readNtohU16 hopCount.2).map fun messageSequenceNumber =>
    (⟨messageType.1, vTime.1, messageSize.1, originatorAddress.1, timeToLive.1, hopCount.1,
      messageSequenceNumber.1⟩, messageSequenceNumber.2)

end MessageHeader

open MessageHeader

/-! ## Messages -/

structure MessageHeader where
  vTime : UInt8
  originatorAddress : Olsr.Ipv4Address
  timeToLive : UInt8
  hopCount : UInt8
  messageSequenceNumber : UInt16
  message : Message
deriving DecidableEq

namespace MessageHeader

def getSerializedSize (h : MessageHeader) : ℕ := 12 + h.message.getSerializedSize

def serialize (h : MessageHeader) : List UInt8 :=
  [h.message.messageType, h.vTime] ++ htonU16 (UInt16.ofNat h.getSerializedSize) ++
    htonU32 h.originatorAddress ++ [h.timeToLive, h.hopCount] ++
    htonU16 h.messageSequenceNumber ++ h.message.serialize

/-- The message and the size that is returned. -/
def deserialize (bytes : List UInt8) : Option ((MessageHeader × UInt32) × List UInt8) :=
  (readFields bytes).bind fun f =>
  (Message.deserialize f.1.messageType (f.1.messageSize.toUInt32 - 12) f.2).map fun r =>
    ((⟨f.1.vTime, f.1.originatorAddress, f.1.timeToLive, f.1.hopCount,
      f.1.messageSequenceNumber, r.1.1⟩, 12 + r.1.2), r.2)

end MessageHeader

end OlsrWire

end Ns3Rdma
