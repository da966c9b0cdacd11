import Mathlib.Data.UInt
import Ns3Rdma.Lib.Search
import Ns3Rdma.Lib.StepSystem

/-!
# Ephemeral ports of the IPv4 end points

The demultiplexer keeps the end points of a protocol and a cursor into the range of
ephemeral ports. An allocation walks the range cyclically from the cursor. It is exact:
it returns a free port of the range, and it fails only when there is none.
-/

namespace Ns3Rdma.EndPointDemux

/-- The port and address members of `Ipv4EndPoint`. The handle stands for the pointer by
which a socket refers to its end point. -/
structure EndPoint where
  handle : Nat
  localAddr : UInt32
  localPort : UInt16
  peerAddr : UInt32
  peerPort : UInt16
  deriving DecidableEq, Repr

/-- The data members of `Ipv4EndPointDemux`, with the next handle that `new` returns. -/
structure Demux where
  endPoints : List EndPoint
  ephemeral : UInt16
  fresh : Nat
  deriving DecidableEq, Repr

/-- `m_portFirst`. -/
def portFirst : UInt16 := 49152

/-- `m_portLast`. -/
def portLast : UInt16 := 65535

/-- `Ipv4Address::GetAny`. -/
def any : UInt32 := 0

/-- The constructor. -/
def initial : Demux where
  endPoints := []
  ephemeral := 49152
  fresh := 0

/-- `LookupPortLocal`. -/
def Demux.lookupPortLocal (d : Demux) (port : UInt16) : Bool :=
  d.endPoints.any fun e => e.localPort == port

/-- `LookupLocal`. -/
def Demux.lookupLocal (d : Demux) (addr : UInt32) (port : UInt16) : Bool :=
  d.endPoints.any fun e => e.localPort == port && e.localAddr == addr

/-- The increment in the loop of `AllocateEphemeralPort`, and the wrap after it. -/
def nextPort (port : UInt16) : UInt16 :=
  if port + 1 < portFirst ∨ port + 1 > portLast then portFirst else port + 1

/-- How often the loop passes its counter. The counter starts at
`m_portLast - m_portFirst`, and it is tested for a negative value before it is decreased. -/
def tries : Nat :=
  portLast.toNat - portFirst.toNat + 1

/-- `AllocateEphemeralPort`; the cursor stays where it was when the loop gives up. -/
def Demux.allocateEphemeralPort (d : Demux) : UInt16 × Demux :=
  match Search.scan nextPort d.lookupPortLocal tries d.ephemeral with
  | none => (0, d)
  | some port => (port, { d with ephemeral := port })

/-- Append a new end point. -/
def Demux.push (d : Demux) (localAddr : UInt32) (localPort : UInt16) (peerAddr : UInt32)
    (peerPort : UInt16) : Option Nat × Demux :=
  (some d.fresh,
    { d with
      endPoints := d.endPoints ++ [⟨d.fresh, localAddr, localPort, peerAddr, peerPort⟩]
      fresh := d.fresh + 1 })

/-- `Allocate (Ipv4Address)`: the port is chosen here. -/
def Demux.allocateAddress (d : Demux) (address : UInt32) : Option Nat × Demux :=
  let (port, d) := d.allocateEphemeralPort
  if port = 0 then (none, d) else d.push address port any 0

/-- `Allocate (void)`. -/
def Demux.allocate (d : Demux) : Option Nat × Demux :=
  d.allocateAddress any

/-- `Allocate (Ipv4Address, uint16_t)`. -/
def Demux.allocateAddressPort (d : Demux) (address : UInt32) (port : UInt16) :
    Option Nat × Demux :=
  if d.lookupLocal address port then (none, d) else d.push address port any 0

/-- `Allocate (uint16_t)`. -/
def Demux.allocatePort (d : Demux) (port : UInt16) : Option Nat × Demux :=
  d.allocateAddressPort any port

/-- `Allocate` with both ends of the connection. -/
def Demux.allocateConnection (d : Demux) (localAddress : UInt32) (localPort : UInt16)
    (peerAddress : UInt32) (peerPort : UInt16) : Option Nat × Demux :=
  if d.endPoints.any fun e => e.localPort == localPort && e.localAddr == localAddress &&
      e.peerPort == peerPort && e.peerAddr == peerAddress then (none, d)
  else d.push localAddress localPort peerAddress peerPort

/-- `DeAllocate`: erase the first end point with the pointer, if there is one. -/
def Demux.deAllocate (d : Demux) (handle : Nat) : Demux :=
  { d with endPoints := d.endPoints.eraseP fun e => e.handle == handle }

/-- `Ipv4EndPoint::SetLocalAddress` and `Ipv4EndPoint::SetPeer` on an end point of the list. -/
def Demux.update (d : Demux) (handle : Nat) (f : EndPoint → EndPoint) : Demux :=
  { d with endPoints := d.endPoints.map fun e => if e.handle = handle then f e else e }

/-! ## The walk through the range -/

/-- The ports of the ephemeral range. -/
def InRange (port : UInt16) : Prop :=
  portFirst ≤ port ∧ port ≤ portLast

instance (port : UInt16) : Decidable (InRange port) :=
  inferInstanceAs (Decidable (_ ∧ _))

theorem inRange_iff {port : UInt16} : InRange port ↔ 49152 ≤ port.toNat := by
  have hbound := port.toNat_lt
  simp only [InRange, UInt16.le_iff_toNat_le, portFirst, portLast, UInt16.reduceToNat]
  omega

theorem InRange.ne_zero {port : UInt16} (h : InRange port) : port ≠ 0 := by
  rintro rfl
  rw [inRange_iff] at h
  simp at h

/-- Counted from the first port, the walk is addition modulo the number of ports. -/
theorem toNat_nextPort {port : UInt16} (h : InRange port) :
    (nextPort port).toNat = 49152 + (port.toNat - 49152 + 1) % 16384 := by
  rw [inRange_iff] at h
  have hbound := port.toNat_lt
  have hadd : (port + 1).toNat = (port.toNat + 1) % 65536 := by
    rw [UInt16.toNat_add, UInt16.toNat_one]
  unfold nextPort
  split
  next hwrap =>
      simp only [gt_iff_lt, UInt16.lt_iff_toNat_lt, hadd, portFirst, portLast,
        UInt16.reduceToNat] at hwrap ⊢
      omega
  next hnext =>
      simp only [gt_iff_lt, UInt16.lt_iff_toNat_lt, hadd, portFirst, portLast,
        UInt16.reduceToNat] at hnext ⊢
      omega

theorem InRange.nextPort {port : UInt16} (h : InRange port) :
    InRange (EndPointDemux.nextPort port) := by
  rw [inRange_iff, toNat_nextPort h]
  exact Nat.le_add_right _ _

theorem InRange.iterate {port : UInt16} (h : InRange port) (k : Nat) :
    InRange (EndPointDemux.nextPort^[k] port) := by
  induction k generalizing port with
  | zero => exact h
  | succ k ih => exact ih h.nextPort

theorem toNat_iterate {port : UInt16} (h : InRange port) (k : Nat) :
    (nextPort^[k] port).toNat = 49152 + (port.toNat - 49152 + k) % 16384 := by
  have hbound := port.toNat_lt
  induction k generalizing port with
  | zero =>
      rw [inRange_iff] at h
      simp only [Function.iterate_zero, id_eq]
      omega
  | succ k ih =>
      rw [Function.iterate_succ_apply, ih h.nextPort (UInt16.toNat_lt _), toNat_nextPort h]
      omega

/-- The tries of one allocation pass through every port of the range. -/
theorem exists_iterate_eq {cursor port : UInt16} (hcursor : InRange cursor)
    (hport : InRange port) : ∃ k < tries, nextPort^[k] (nextPort cursor) = port := by
  rw [inRange_iff] at hport
  have hbound := port.toNat_lt
  have hlow := inRange_iff.mp hcursor
  have hhigh := cursor.toNat_lt
  refine ⟨(port.toNat + 65536 - (cursor.toNat + 1)) % 16384, Nat.mod_lt _ (by decide), ?_⟩
  rw [← UInt16.toNat_inj, ← Function.iterate_succ_apply, toNat_iterate hcursor]
  omega

/-! ## Exact allocation -/

/-- What a caller relies on: a port other than zero is a free port of the range, and zero
means that the range has no free port. -/
def AllocatesExactly (d : Demux) : Prop :=
  (d.allocateEphemeralPort.1 ≠ 0 →
    InRange d.allocateEphemeralPort.1 ∧
      ∀ e ∈ d.endPoints, e.localPort ≠ d.allocateEphemeralPort.1) ∧
  (d.allocateEphemeralPort.1 = 0 →
    ∀ port, InRange port → ∃ e ∈ d.endPoints, e.localPort = port)

theorem lookupPortLocal_eq_true {d : Demux} {port : UInt16} :
    d.lookupPortLocal port = true ↔ ∃ e ∈ d.endPoints, e.localPort = port := by
  simp [Demux.lookupPortLocal]

/-- The two ways an allocation can end. -/
theorem allocateEphemeralPort_cases {d : Demux} (h : InRange d.ephemeral) :
    ((∀ port, InRange port → d.lookupPortLocal port = true) ∧
      d.allocateEphemeralPort = (0, d)) ∨
    ∃ port, InRange port ∧ d.lookupPortLocal port = false ∧
      d.allocateEphemeralPort = (port, { d with ephemeral := port }) := by
  unfold Demux.allocateEphemeralPort
  cases hscan : Search.scan nextPort d.lookupPortLocal tries d.ephemeral with
  | none =>
      refine Or.inl ⟨?_, rfl⟩
      intro port hport
      obtain ⟨k, hk, rfl⟩ := exists_iterate_eq h hport
      exact Search.scan_eq_none hscan hk
  | some port =>
      obtain ⟨hfree, k, rfl⟩ := Search.scan_eq_some hscan
      exact Or.inr ⟨_, h.nextPort.iterate k, hfree, rfl⟩

theorem allocatesExactly_of_inRange {d : Demux} (h : InRange d.ephemeral) :
    AllocatesExactly d := by
  rcases allocateEphemeralPort_cases h with ⟨hfull, heq⟩ | ⟨port, hport, hfree, heq⟩
  · refine ⟨?_, ?_⟩
    · intro hne
      rw [heq] at hne
      exact absurd rfl hne
    · rintro - port hport
      exact lookupPortLocal_eq_true.mp (hfull port hport)
  · refine ⟨?_, ?_⟩
    · rintro -
      rw [heq]
      refine ⟨hport, fun e he heport => ?_⟩
      rw [lookupPortLocal_eq_true.mpr ⟨e, he, heport⟩] at hfree
      cases hfree
    · intro hzero
      rw [heq] at hzero
      exact absurd hzero hport.ne_zero

/-! ## Histories -/

inductive Call where
  | allocate
  | allocateAddress (address : UInt32)
  | allocatePort (port : UInt16)
  | allocateAddressPort (address : UInt32) (port : UInt16)
  | allocateConnection (localAddress : UInt32) (localPort : UInt16) (peerAddress : UInt32)
      (peerPort : UInt16)
  | allocateEphemeralPort
  | deAllocate (handle : Nat)
  | setLocalAddress (handle : Nat) (address : UInt32)
  | setPeer (handle : Nat) (address : UInt32) (port : UInt16)

/-- Execute one call; no call aborts. -/
def step (d : Demux) : Call → Option Demux
  | .allocate => some d.allocate.2
  | .allocateAddress address => some (d.allocateAddress address).2
  | .allocatePort port => some (d.allocatePort port).2
  | .allocateAddressPort address port => some (d.allocateAddressPort address port).2
  | .allocateConnection localAddress localPort peerAddress peerPort =>
      some (d.allocateConnection localAddress localPort peerAddress peerPort).2
  | .allocateEphemeralPort => some d.allocateEphemeralPort.2
  | .deAllocate handle => some (d.deAllocate handle)
  | .setLocalAddress handle address =>
      some (d.update handle fun e => { e with localAddr := address })
  | .setPeer handle address port =>
      some (d.update handle fun e => { e with peerAddr := address, peerPort := port })

theorem inRange_allocateEphemeralPort {d : Demux} (h : InRange d.ephemeral) :
    InRange d.allocateEphemeralPort.2.ephemeral := by
  rcases allocateEphemeralPort_cases h with ⟨-, heq⟩ | ⟨port, hport, -, heq⟩
  · rw [heq]
    exact h
  · rw [heq]
    exact hport

theorem inRange_allocateAddress {d : Demux} (h : InRange d.ephemeral) (address : UInt32) :
    InRange (d.allocateAddress address).2.ephemeral := by
  have hport := inRange_allocateEphemeralPort h
  unfold Demux.allocateAddress
  dsimp only
  split
  · exact hport
  · exact hport

theorem ephemeral_allocateAddressPort (d : Demux) (address : UInt32) (port : UInt16) :
    (d.allocateAddressPort address port).2.ephemeral = d.ephemeral := by
  unfold Demux.allocateAddressPort
  split <;> rfl

theorem ephemeral_allocateConnection (d : Demux) (localAddress : UInt32) (localPort : UInt16)
    (peerAddress : UInt32) (peerPort : UInt16) :
    (d.allocateConnection localAddress localPort peerAddress peerPort).2.ephemeral =
      d.ephemeral := by
  unfold Demux.allocateConnection
  split <;> rfl

/-- Every call leaves the cursor in the range. -/
theorem inRange_step {d next : Demux} (h : InRange d.ephemeral) (call : Call)
    (hstep : step d call = some next) : InRange next.ephemeral := by
  cases call with
  | allocate =>
      obtain rfl := Option.some.inj hstep
      exact inRange_allocateAddress h any
  | allocateAddress address =>
      obtain rfl := Option.some.inj hstep
      exact inRange_allocateAddress h address
  | allocatePort port =>
      obtain rfl := Option.some.inj hstep
      exact (ephemeral_allocateAddressPort d any port).symm ▸ h
  | allocateAddressPort address port =>
      obtain rfl := Option.some.inj hstep
      exact (ephemeral_allocateAddressPort d address port).symm ▸ h
  | allocateConnection localAddress localPort peerAddress peerPort =>
      obtain rfl := Option.some.inj hstep
      exact (ephemeral_allocateConnection d localAddress localPort peerAddress peerPort).symm ▸ h
  | allocateEphemeralPort =>
      obtain rfl := Option.some.inj hstep
      exact inRange_allocateEphemeralPort h
  | deAllocate handle =>
      obtain rfl := Option.some.inj hstep
      exact h
  | setLocalAddress handle address =>
      obtain rfl := Option.some.inj hstep
      exact h
  | setPeer handle address port =>
      obtain rfl := Option.some.inj hstep
      exact h

/-- After every history of calls, an allocation over any set of end points is exact. -/
theorem ephemeral_allocation_exact (calls : List Call) :
    StepSystem.Throughout step
      (fun d => ∀ endPoints, AllocatesExactly { d with endPoints := endPoints }) initial calls := by
  have hstart : InRange initial.ephemeral := by decide
  refine (StepSystem.throughout_of_invariant
    (fun d call next hd => inRange_step hd call) hstart calls).mono ?_
  intro d hd endPoints
  exact allocatesExactly_of_inRange hd

end Ns3Rdma.EndPointDemux
