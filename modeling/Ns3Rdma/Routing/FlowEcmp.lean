import Ns3Rdma.Net.Ipv4Fragmentation
import Ns3Rdma.Routing.StaticRouting
import Ns3Rdma.Tcp.TcpHeader

/-! # One route for a flow

`LookupGlobal` collects the routes that match and, for flow ECMP, selects one by a number that it
computes from the IP header and from what it reads as a transport header behind it. -/

namespace Ns3Rdma.Routing

open Writer Reader TcpWire

/-! ## What is read behind the IP header -/

structure UdpHeader where
  sourcePort : UInt16
  destinationPort : UInt16
  payloadSize : UInt16

/-- `RemoveHeader` of a header that does not compute the checksum. -/
def UdpHeader.deserialize (bytes : List UInt8) : Option (UdpHeader × List UInt8) :=
  (readNtohU16 bytes).bind fun sourcePort =>
  (readNtohU16 sourcePort.2).bind fun destinationPort =>
  (readNtohU16 destinationPort.2).bind fun payloadSize =>
  (Reader.read 2 payloadSize.2).map fun skipped =>
    (⟨sourcePort.1, destinationPort.1, payloadSize.1 - 8⟩, skipped.2)

structure SeqTsHeader where
  seq : UInt32
  ts : UInt64
  pg : UInt16

def SeqTsHeader.deserialize (bytes : List UInt8) : Option (SeqTsHeader × List UInt8) :=
  (readNtohU32 bytes).bind fun seq =>
  (readNtohU32 seq.2).bind fun high =>
  (readNtohU32 high.2).bind fun low =>
  (readNtohU16 low.2).map fun pg =>
    (⟨seq.1, high.1.toUInt64 <<< 32 ||| low.1.toUInt64, pg.1⟩, pg.2)

def UDP_PROT_NUMBER : UInt8 := 17
def TCP_PROT_NUMBER : UInt8 := 6

/-- Mix the ports into the number. -/
def withPorts (tupleValue : UInt32) (sourcePort destinationPort : UInt16) : UInt32 :=
  tupleValue ^^^ (sourcePort.toUInt32 <<< 16) ^^^ destinationPort.toUInt32

/-- `GetTupleValue`; `none` is a read behind the end of the payload. `fuel` is for the loop over the
options of a TCP header. -/
def getTupleValue (fuel : ℕ) (header : Ipv4.Ipv4Header) (ipPayload : List UInt8) : Option UInt32 :=
  let tupleValue := (header.source * 59) ^^^ header.destination ^^^ header.protocol.toUInt32
  if header.protocol = UDP_PROT_NUMBER then
    (UdpHeader.deserialize ipPayload).bind fun udpHeader =>
    (SeqTsHeader.deserialize udpHeader.2).map fun seqh =>
      withPorts tupleValue udpHeader.1.sourcePort udpHeader.1.destinationPort ^^^ seqh.1.pg.toUInt32
  else if header.protocol = TCP_PROT_NUMBER then
    (TcpHeader.create.deserialize 0 fuel ipPayload).map fun tcpHeader =>
      withPorts tupleValue tcpHeader.sourcePort tcpHeader.destinationPort
  else some tupleValue

/-! ## The lookup -/

/-- What the lookup asks the node for, among it the first address of an interface. -/
structure Ipv4Addresses (NetDevice : Type) extends Ipv4 NetDevice where
  getAddress : UInt32 → Ipv4Address

/-- The routes, those of `m_hostRoutes` with the mask of a host, and the modes. -/
structure GlobalRouting where
  hostRoutes : List Ipv4RoutingTableEntry
  networkRoutes : List Ipv4RoutingTableEntry
  asExternalRoutes : List Ipv4RoutingTableEntry
  randomEcmpRouting : Bool
  flowEcmpRouting : Bool
  isHost : ∀ i ∈ hostRoutes, i.destNetworkMask = ⟨0xffffffff⟩

namespace GlobalRouting

theorem isHost_nil :
    ∀ i ∈ ([] : List Ipv4RoutingTableEntry), i.destNetworkMask = ⟨0xffffffff⟩ := nofun

variable {NetDevice : Type} [DecidableEq NetDevice] (r : GlobalRouting)
  (ipv4 : Ipv4Addresses NetDevice) (oif : Option NetDevice)

/-- The first loop. -/
def matchingHosts (dest : Ipv4Address) : List Ipv4RoutingTableEntry :=
  r.hostRoutes.filter fun i =>
    i.dest = dest && oif.all fun oif => oif = ipv4.getNetDevice i.interface

/-- The second loop. -/
def matchingNetworks (dest : Ipv4Address) : List Ipv4RoutingTableEntry :=
  r.networkRoutes.filter (StaticRouting.matching ipv4.toIpv4 dest oif)

/-- The third loop, which stops at the first route. -/
def matchingExternal (dest : Ipv4Address) : List Ipv4RoutingTableEntry :=
  (r.asExternalRoutes.find? (StaticRouting.matching ipv4.toIpv4 dest oif)).toList

def allRoutes (dest : Ipv4Address) : List Ipv4RoutingTableEntry :=
  if (r.matchingHosts ipv4 oif dest).length = 0 then
    if (r.matchingNetworks ipv4 oif dest).length = 0 then r.matchingExternal ipv4 oif dest
    else r.matchingNetworks ipv4 oif dest
  else r.matchingHosts ipv4 oif dest

def routeOf (route : Ipv4RoutingTableEntry) : Ipv4Route NetDevice where
  destination := route.dest
  source := ipv4.getAddress route.interface
  gateway := route.gateway
  outputDevice := ipv4.getNetDevice route.interface

/-- `LookupGlobal`; `none` is an abort or a read behind the end. `getInteger` draws a number that is
at most its argument. -/
def lookupGlobal (getInteger : ℕ → ℕ) (fuel : ℕ) (header : Ipv4.Ipv4Header)
    (ipPayload : List UInt8) : Option (Option (Ipv4Route NetDevice)) :=
  if r.randomEcmpRouting && r.flowEcmpRouting then none
  else
    let allRoutes := r.allRoutes ipv4 oif header.destination
    if allRoutes.length > 0 then
      let selectIndex :=
        if r.randomEcmpRouting then some (getInteger (allRoutes.length - 1))
        else if r.flowEcmpRouting && allRoutes.length > 1 then
          (getTupleValue fuel header ipPayload).map fun tupleValue =>
            tupleValue.toNat % allRoutes.length
        else some 0
      selectIndex.bind fun selectIndex =>
        allRoutes[selectIndex]?.map fun route => some (routeOf ipv4 route)
    else some none

end GlobalRouting

/-! ## Packets of a flow -/

structure Flow where
  source : Ipv4Address
  destination : Ipv4Address
  protocol : UInt8
  sourcePort : UInt16
  destinationPort : UInt16
  pg : UInt16

namespace Flow

variable (flow : Flow)

def udpBytes (length checksum : UInt16) : List UInt8 :=
  htonU16 flow.sourcePort ++ (htonU16 flow.destinationPort ++ (htonU16 length ++ htonU16 checksum))

def seqTsBytes (seq high low : UInt32) : List UInt8 :=
  htonU32 seq ++ (htonU32 high ++ (htonU32 low ++ htonU16 flow.pg))

/-- The headers behind the IP header of a datagram, as far as the flow is concerned. -/
inductive Headers : List UInt8 → Prop
  | udp (hprotocol : flow.protocol = UDP_PROT_NUMBER) (length checksum : UInt16)
      (seq high low : UInt32) :
      Headers (flow.udpBytes length checksum ++ flow.seqTsBytes seq high low)
  | tcp (hprotocol : flow.protocol = TCP_PROT_NUMBER) (h : TcpHeader) (hbuilt : h.Built)
      (hlength : h.length = TcpHeader.lengthOf h.options) (hproper : ∀ op ∈ h.options, op.Proper)
      (hsource : h.sourcePort = flow.sourcePort)
      (hdestination : h.destinationPort = flow.destinationPort) (checksum : UInt16) :
      Headers (h.serialize checksum)
  | other (hudp : flow.protocol ≠ UDP_PROT_NUMBER) (htcp : flow.protocol ≠ TCP_PROT_NUMBER) :
      Headers []

/-- A datagram is its headers and data. The data of a UDP datagram may be too short for a
`SeqTsHeader`. -/
inductive Datagram : List UInt8 → Prop
  | whole {headers : List UInt8} (hheaders : flow.Headers headers) (data : List UInt8) :
      Datagram (headers ++ data)
  | short (hprotocol : flow.protocol = UDP_PROT_NUMBER) (length checksum : UInt16)
      {data : List UInt8} (hdata : data.length < 14) :
      Datagram (flow.udpBytes length checksum ++ data)

/-- An unfragmented packet of the flow, or a fragment of one. -/
structure Carries (p : Ipv4.Ipv4Packet) : Prop where
  source : p.header.source = flow.source
  destination : p.header.destination = flow.destination
  protocol : p.header.protocol = flow.protocol
  aligned : 8 ∣ p.header.fragmentOffset.toNat
  payload : ∃ datagram, flow.Datagram datagram ∧
    p.payload = Ipv4.createFragment datagram p.header.fragmentOffset.toNat p.payload.length ∧
    (p.header.moreFragments = true ↔
      p.header.fragmentOffset.toNat + p.payload.length < datagram.length)

/-- A packet of the flow that starts with all its headers. -/
structure CarriesHeaders (p : Ipv4.Ipv4Packet) : Prop extends flow.Carries p where
  headers : ∃ headers data, flow.Headers headers ∧ p.payload = headers ++ data

/-- The number that the lookup computes for the flow. -/
def tupleValue : UInt32 :=
  let addresses := (flow.source * 59) ^^^ flow.destination ^^^ flow.protocol.toUInt32
  let ports := withPorts addresses flow.sourcePort flow.destinationPort
  if flow.protocol = UDP_PROT_NUMBER then ports ^^^ flow.pg.toUInt32
  else if flow.protocol = TCP_PROT_NUMBER then ports
  else addresses

end Flow

/-! ## The number of a flow -/

theorem UdpHeader.deserialize_udpBytes (flow : Flow) (length checksum : UInt16)
    (data : List UInt8) : UdpHeader.deserialize (flow.udpBytes length checksum ++ data) =
      some (⟨flow.sourcePort, flow.destinationPort, length - 8⟩, data) := by
  have hskip : Reader.read 2 (htonU16 checksum ++ data) = some (htonU16 checksum, data) :=
    read_append (htonU16 checksum) data
  unfold UdpHeader.deserialize Flow.udpBytes
  simp only [List.append_assoc, readNtohU16_htonU16, Option.bind_some, hskip, Option.map_some]

theorem SeqTsHeader.deserialize_seqTsBytes (flow : Flow) (seq high low : UInt32)
    (data : List UInt8) : ∃ seqh, seqh.pg = flow.pg ∧
      SeqTsHeader.deserialize (flow.seqTsBytes seq high low ++ data) = some (seqh, data) := by
  refine ⟨⟨seq, high.toUInt64 <<< 32 ||| low.toUInt64, flow.pg⟩, rfl, ?_⟩
  unfold SeqTsHeader.deserialize Flow.seqTsBytes
  simp only [List.append_assoc, readNtohU32_htonU32, readNtohU16_htonU16, Option.bind_some,
    Option.map_some]

/-- The header of a TCP segment is read, whatever follows it. -/
theorem deserialize_serialize_append {h : TcpHeader} (hbuilt : h.Built)
    (hlength : h.length = TcpHeader.lengthOf h.options) (hproper : ∀ op ∈ h.options, op.Proper)
    (checksum : UInt16) (data : List UInt8) : ∃ tcpHeader,
      TcpHeader.create.deserialize 0 ((TcpHeader.padded h.options).length + 1)
        (h.serialize checksum ++ data) = some tcpHeader ∧
      tcpHeader.sourcePort = h.sourcePort ∧ tcpHeader.destinationPort = h.destinationPort := by
  have hsize := TcpHeader.toNat_lengthOf hbuilt.totalLen_le
  have hshort : h.length.toNat < 16 := by
    have hle := hbuilt.totalLen_le
    rw [← hlength, TcpHeader.totalLen_padded] at hsize
    unfold TcpHeader.padding at hsize
    omega
  obtain ⟨first, second, heq⟩ := TcpHeader.serialize_eq checksum h
  obtain ⟨-, hoffset⟩ := TcpHeader.field_split hshort hbuilt.flags_lt
  have hpadded : ∀ op ∈ TcpHeader.padded h.options, op.Proper := by
    intro op hop
    rcases TcpHeader.mem_padded hop with hop | rfl
    · exact hproper op hop
    · trivial
  have hloop := OptionReader.loop_flatMap
    (s := OptionReader.start h.length
      ((TcpHeader.padded h.options).flatMap TcpOption.serialize ++ data))
    hpadded rfl (hbuilt.toNat_optionLen hlength)
  unfold TcpHeader.deserialize
  rw [heq]
  simp only [List.append_assoc, List.cons_append]
  rw [TcpHeader.readFields_append, Option.bind_some]
  dsimp only
  rw [hoffset, hloop]
  exact ⟨_, rfl, rfl, rfl⟩

namespace Flow

variable {flow : Flow} {p : Ipv4.Ipv4Packet}

/-- Behind an IP header of the flow, the headers give the number of the flow. -/
theorem getTupleValue_headers (h : flow.Carries p) {headers : List UInt8}
    (hheaders : flow.Headers headers) : ∃ fuel, ∀ data,
      getTupleValue fuel p.header (headers ++ data) = some flow.tupleValue := by
  unfold getTupleValue tupleValue
  rw [h.source, h.destination, h.protocol]
  cases hheaders with
  | udp hprotocol length checksum seq high low =>
      refine ⟨0, fun data => ?_⟩
      obtain ⟨seqh, hpg, hseqh⟩ := SeqTsHeader.deserialize_seqTsBytes flow seq high low data
      rw [if_pos hprotocol, if_pos hprotocol, List.append_assoc, UdpHeader.deserialize_udpBytes,
        Option.bind_some, hseqh, Option.map_some, hpg]
  | tcp hprotocol segment hbuilt hlength hproper hsource hdestination checksum =>
      refine ⟨(TcpHeader.padded segment.options).length + 1, fun data => ?_⟩
      obtain ⟨tcpHeader, hread, hports⟩ :=
        deserialize_serialize_append hbuilt hlength hproper checksum data
      have hudp : flow.protocol ≠ UDP_PROT_NUMBER := by
        rw [hprotocol]
        decide
      rw [if_neg hudp, if_neg hudp, if_pos hprotocol, if_pos hprotocol, hread, Option.map_some,
        hports.1, hports.2, hsource, hdestination]
  | other hudp htcp =>
      refine ⟨0, fun data => ?_⟩
      rw [if_neg hudp, if_neg hudp, if_neg htcp, if_neg htcp]

/-- How long the loop over the options may run makes no difference. -/
theorem getTupleValue_unique {header : Ipv4.Ipv4Header} {payload : List UInt8} {fuel fuel' : ℕ}
    {v w : UInt32} (hv : getTupleValue fuel header payload = some v)
    (hw : getTupleValue fuel' header payload = some w) : v = w := by
  unfold getTupleValue at hv hw
  dsimp only at hv hw
  by_cases hudp : header.protocol = UDP_PROT_NUMBER
  · rw [if_pos hudp] at hv hw
    exact Option.some.inj (hv.symm.trans hw)
  · rw [if_neg hudp] at hv hw
    by_cases htcp : header.protocol = TCP_PROT_NUMBER
    · rw [if_pos htcp] at hv hw
      obtain ⟨h₁, hread₁, rfl⟩ := Option.map_eq_some_iff.mp hv
      obtain ⟨h₂, hread₂, rfl⟩ := Option.map_eq_some_iff.mp hw
      obtain ⟨r₁, hfields₁, hloop₁⟩ := Option.bind_eq_some_iff.mp hread₁
      obtain ⟨r₂, hfields₂, hloop₂⟩ := Option.bind_eq_some_iff.mp hread₂
      obtain ⟨s₁, -, rfl⟩ := Option.map_eq_some_iff.mp hloop₁
      obtain ⟨s₂, -, rfl⟩ := Option.map_eq_some_iff.mp hloop₂
      obtain rfl := Option.some.inj (hfields₁.symm.trans hfields₂)
      rfl
    · rw [if_neg htcp] at hv hw
      exact Option.some.inj (hv.symm.trans hw)

/-! ## Packets that there are -/

variable (flow)

/-- A segment without options. -/
def segment : TcpHeader :=
  { TcpHeader.create with sourcePort := flow.sourcePort, destinationPort := flow.destinationPort }

theorem headers_segment (hprotocol : flow.protocol = TCP_PROT_NUMBER) :
    flow.Headers (flow.segment.serialize 0) :=
  .tcp hprotocol flow.segment ⟨TcpHeader.create_built.flags_lt, TcpHeader.create_built.noEnd,
    TcpHeader.create_built.totalLen_le⟩
    (show TcpHeader.create.length = TcpHeader.lengthOf TcpHeader.create.options by decide)
    (fun op hop => absurd hop List.not_mem_nil) rfl rfl 0

theorem exists_headers : ∃ headers, flow.Headers headers := by
  by_cases hudp : flow.protocol = UDP_PROT_NUMBER
  · exact ⟨_, .udp hudp 22 0 0 0 0⟩
  · by_cases htcp : flow.protocol = TCP_PROT_NUMBER
    · exact ⟨_, flow.headers_segment htcp⟩
    · exact ⟨_, .other hudp htcp⟩

/-- A packet with the last bytes of a datagram from an offset on. -/
def lastPacket (datagram : List UInt8) (offset : UInt16) : Ipv4.Ipv4Packet where
  header := ⟨flow.source, flow.destination, 0, flow.protocol, false, false, offset,
    UInt16.ofNat (datagram.length - offset.toNat)⟩
  payload := datagram.drop offset.toNat

variable {flow}

theorem carries_lastPacket {datagram : List UInt8} (hdatagram : flow.Datagram datagram)
    {offset : UInt16} (haligned : 8 ∣ offset.toNat) (hle : offset.toNat ≤ datagram.length) :
    flow.Carries (flow.lastPacket datagram offset) where
  source := rfl
  destination := rfl
  protocol := rfl
  aligned := haligned
  payload := by
    refine ⟨datagram, hdatagram, ?_, ?_⟩
    · exact (List.take_length).symm
    · change false = true ↔ offset.toNat + (datagram.drop offset.toNat).length < datagram.length
      rw [List.length_drop]
      constructor
      · exact fun h => absurd h Bool.false_ne_true
      · omega

theorem exists_carriesHeaders (flow : Flow) : ∃ p, flow.CarriesHeaders p := by
  obtain ⟨headers, hheaders⟩ := flow.exists_headers
  have hdatagram := Datagram.whole hheaders []
  exact ⟨flow.lastPacket (headers ++ []) 0,
    { toCarries := carries_lastPacket hdatagram (by decide) (Nat.zero_le _)
      headers := ⟨headers, [], hheaders, rfl⟩ }⟩

/-- A UDP datagram without data has no `SeqTsHeader`. -/
theorem exists_udp_unread (hprotocol : flow.protocol = UDP_PROT_NUMBER) :
    ∃ p, flow.Carries p ∧ ∀ fuel, getTupleValue fuel p.header p.payload = none := by
  refine ⟨flow.lastPacket (flow.udpBytes 8 0 ++ []) 0,
    carries_lastPacket (.short hprotocol 8 0 (by decide)) (by decide) (Nat.zero_le _),
    fun fuel => ?_⟩
  have hheader : (flow.lastPacket (flow.udpBytes 8 0 ++ []) 0).header.protocol = UDP_PROT_NUMBER :=
    hprotocol
  change getTupleValue fuel _ (flow.udpBytes 8 0 ++ []) = none
  unfold getTupleValue
  dsimp only
  rw [if_pos hheader, UdpHeader.deserialize_udpBytes]
  rfl

theorem getTupleValue_tcp_short {fuel : ℕ} {header : Ipv4.Ipv4Header}
    (hprotocol : header.protocol = TCP_PROT_NUMBER) (byte : UInt8) :
    getTupleValue fuel header [byte] = none := by
  unfold getTupleValue
  dsimp only
  rw [hprotocol, if_neg (by decide), if_pos rfl]
  rfl

/-- The last fragment of a TCP segment can be shorter than the ports. -/
theorem exists_tcp_unread (hprotocol : flow.protocol = TCP_PROT_NUMBER) :
    ∃ p, flow.Carries p ∧ ∀ fuel, getTupleValue fuel p.header p.payload = none := by
  have hlength : (flow.segment.serialize 0).length = 20 := by
    rw [TcpHeader.length_serialize]
    exact (show 20 + TcpHeader.totalLen (TcpHeader.padded TcpHeader.create.options) = 20 by decide)
  have hdatagram := Datagram.whole (flow.headers_segment hprotocol) (List.replicate 5 0)
  refine ⟨flow.lastPacket (flow.segment.serialize 0 ++ List.replicate 5 0) 24,
    carries_lastPacket hdatagram (by decide) ?_, fun fuel => ?_⟩
  · rw [List.length_append, hlength]
    decide
  · have hpayload : (flow.lastPacket (flow.segment.serialize 0 ++ List.replicate 5 0) 24).payload =
        [0] := by
      have hoffset : (24 : UInt16).toNat = 24 := rfl
      rw [lastPacket, hoffset, List.drop_append, hlength, List.drop_of_length_le (by omega)]
      rfl
    rw [hpayload]
    exact getTupleValue_tcp_short hprotocol 0

end Flow

/-! ## The selected route -/

namespace GlobalRouting

variable {NetDevice : Type} [DecidableEq NetDevice] (r : GlobalRouting)
  (ipv4 : Ipv4Addresses NetDevice) (oif : Option NetDevice)

/-- The route that a number selects. -/
def selected (dest : Ipv4Address) (v : UInt32) : Option (Ipv4Route NetDevice) :=
  (r.allRoutes ipv4 oif dest)[v.toNat % (r.allRoutes ipv4 oif dest).length]?.map (routeOf ipv4)

/-- A route of one of the entries with the longest mask. -/
def Longest (routes : List Ipv4RoutingTableEntry) (route : Ipv4Route NetDevice) : Prop :=
  ∃ i ∈ routes, routeOf ipv4 i = route ∧
    ∀ x ∈ routes, x.destNetworkMask.ones ≤ i.destNetworkMask.ones

/-- If network routes are searched and some match, the one that the number of the flow selects has
the longest mask. -/
def SelectsLongest (flow : Flow) : Prop :=
  r.matchingHosts ipv4 oif flow.destination = [] →
    r.matchingNetworks ipv4 oif flow.destination ≠ [] →
    ∃ i, (r.matchingNetworks ipv4 oif flow.destination)[flow.tupleValue.toNat %
        (r.matchingNetworks ipv4 oif flow.destination).length]? = some i ∧
      Longest ipv4 (r.matchingNetworks ipv4 oif flow.destination) (routeOf ipv4 i)

/-- The lookups of two packets to a destination return, and return the same route. It is one of the
matching network routes with the longest mask if there are such and no host route matches. -/
def SameRoute (getInteger : ℕ → ℕ) (dest : Ipv4Address) (p q : Ipv4.Ipv4Packet) : Prop :=
  ∃ rtentry, (∃ fuel, r.lookupGlobal ipv4 oif getInteger fuel p.header p.payload = some rtentry) ∧
    (∃ fuel, r.lookupGlobal ipv4 oif getInteger fuel q.header q.payload = some rtentry) ∧
    (r.matchingHosts ipv4 oif dest = [] → r.matchingNetworks ipv4 oif dest ≠ [] →
      ∃ route, rtentry = some route ∧ Longest ipv4 (r.matchingNetworks ipv4 oif dest) route)

section Lookup

variable {r ipv4 oif} {getInteger : ℕ → ℕ} {fuel : ℕ} {header : Ipv4.Ipv4Header}
  {payload : List UInt8} (hflow : r.flowEcmpRouting = true) (hrandom : r.randomEcmpRouting = false)

include hrandom in
theorem lookupGlobal_of_le_one (hle : (r.allRoutes ipv4 oif header.destination).length ≤ 1)
    (v : UInt32) : r.lookupGlobal ipv4 oif getInteger fuel header payload =
      some (r.selected ipv4 oif header.destination v) := by
  unfold lookupGlobal selected
  cases hroutes : r.allRoutes ipv4 oif header.destination with
  | nil => simp [hrandom]
  | cons route rest =>
      rw [hroutes] at hle
      obtain rfl : rest = [] :=
        List.length_eq_zero_iff.mp (Nat.le_zero.mp (Nat.le_of_succ_le_succ hle))
      simp [hrandom, Nat.mod_one]

include hflow hrandom

theorem lookupGlobal_of_one_lt (hlt : 1 < (r.allRoutes ipv4 oif header.destination).length) :
    r.lookupGlobal ipv4 oif getInteger fuel header payload =
      (getTupleValue fuel header payload).map (r.selected ipv4 oif header.destination) := by
  have hpos := Nat.lt_of_succ_lt hlt
  unfold lookupGlobal selected
  simp only [hrandom, hflow, Bool.false_and, Bool.false_eq_true, if_false, Bool.true_and,
    decide_eq_true_eq, gt_iff_lt, hlt, hpos, if_true]
  cases getTupleValue fuel header payload with
  | none => rfl
  | some v =>
      have hindex := Nat.mod_lt v.toNat hpos
      rw [Option.map_some, Option.map_some, Option.bind_some, List.getElem?_eq_getElem hindex]
      rfl

theorem lookupGlobal_of_tupleValue {v : UInt32} (hv : getTupleValue fuel header payload = some v) :
    r.lookupGlobal ipv4 oif getInteger fuel header payload =
      some (r.selected ipv4 oif header.destination v) := by
  rcases Nat.lt_or_ge 1 (r.allRoutes ipv4 oif header.destination).length with hlt | hle
  · rw [lookupGlobal_of_one_lt hflow hrandom hlt, hv, Option.map_some]
  · exact lookupGlobal_of_le_one hrandom hle v

/-- Once the headers were read, every lookup that returns selects by the same number. -/
theorem eq_selected {v : UInt32} {fuel' : ℕ} {rtentry : Option (Ipv4Route NetDevice)}
    (hv : getTupleValue fuel header payload = some v)
    (h : r.lookupGlobal ipv4 oif getInteger fuel' header payload = some rtentry) :
    rtentry = r.selected ipv4 oif header.destination v := by
  rcases Nat.lt_or_ge 1 (r.allRoutes ipv4 oif header.destination).length with hlt | hle
  · rw [lookupGlobal_of_one_lt hflow hrandom hlt] at h
    obtain ⟨w, hw, rfl⟩ := Option.map_eq_some_iff.mp h
    rw [Flow.getTupleValue_unique hv hw]
  · rw [lookupGlobal_of_le_one hrandom hle v] at h
    exact (Option.some.inj h).symm

end Lookup

section Selection

variable {r ipv4 oif} {flow : Flow} {getInteger : ℕ → ℕ} {p q : Ipv4.Ipv4Packet}

theorem allRoutes_of_networks {dest : Ipv4Address} (hhosts : r.matchingHosts ipv4 oif dest = [])
    (hnetworks : r.matchingNetworks ipv4 oif dest ≠ []) :
    r.allRoutes ipv4 oif dest = r.matchingNetworks ipv4 oif dest := by
  unfold allRoutes
  rw [hhosts, if_pos List.length_nil, if_neg fun h => hnetworks (List.length_eq_zero_iff.mp h)]

/-- If at most one route matches, it has the longest mask. -/
theorem selectsLongest_of_le_one (hle : (r.allRoutes ipv4 oif flow.destination).length ≤ 1) :
    r.SelectsLongest ipv4 oif flow := by
  intro hhosts hnetworks
  obtain ⟨i, rest, heq⟩ := List.exists_cons_of_ne_nil hnetworks
  rw [allRoutes_of_networks hhosts hnetworks, heq] at hle
  obtain rfl : rest = [] :=
    List.length_eq_zero_iff.mp (Nat.le_zero.mp (Nat.le_of_succ_le_succ hle))
  rw [heq]
  refine ⟨i, ?_, i, List.mem_singleton_self i, rfl, ?_⟩
  · rw [List.length_singleton, Nat.mod_one]
    rfl
  · intro x hx
    rw [List.mem_singleton.mp hx]

/-- Two lookups that select by the number of the flow. -/
theorem sameRoute_of_selected
    (hp : ∃ fuel, r.lookupGlobal ipv4 oif getInteger fuel p.header p.payload =
      some (r.selected ipv4 oif flow.destination flow.tupleValue))
    (hq : ∃ fuel, r.lookupGlobal ipv4 oif getInteger fuel q.header q.payload =
      some (r.selected ipv4 oif flow.destination flow.tupleValue))
    (hlongest : r.SelectsLongest ipv4 oif flow) :
    r.SameRoute ipv4 oif getInteger flow.destination p q := by
  refine ⟨_, hp, hq, fun hhosts hnetworks => ?_⟩
  obtain ⟨i, hi, hbest⟩ := hlongest hhosts hnetworks
  refine ⟨routeOf ipv4 i, ?_, hbest⟩
  rw [selected, allRoutes_of_networks hhosts hnetworks, hi, Option.map_some]

theorem exists_tupleValue (h : flow.CarriesHeaders p) :
    ∃ fuel, getTupleValue fuel p.header p.payload = some flow.tupleValue := by
  obtain ⟨headers, data, hheaders, hpayload⟩ := h.headers
  obtain ⟨fuel, hread⟩ := Flow.getTupleValue_headers h.toCarries hheaders
  exact ⟨fuel, hpayload ▸ hread data⟩

variable (hflow : r.flowEcmpRouting = true) (hrandom : r.randomEcmpRouting = false)

include hflow hrandom

theorem lookup_carriesHeaders (h : flow.CarriesHeaders p) :
    ∃ fuel, r.lookupGlobal ipv4 oif getInteger fuel p.header p.payload =
      some (r.selected ipv4 oif flow.destination flow.tupleValue) := by
  obtain ⟨fuel, hv⟩ := exists_tupleValue h
  rw [← h.destination]
  exact ⟨fuel, lookupGlobal_of_tupleValue hflow hrandom hv⟩

/-- Packets that start with the headers take the same route. It has the longest mask if and only if
the number of the flow selects such a route. -/
theorem sameRoute_headers_iff :
    (∀ p q, flow.CarriesHeaders p → flow.CarriesHeaders q →
      r.SameRoute ipv4 oif getInteger flow.destination p q) ↔ r.SelectsLongest ipv4 oif flow := by
  constructor
  · intro h hhosts hnetworks
    obtain ⟨p, hp⟩ := flow.exists_carriesHeaders
    obtain ⟨rtentry, ⟨fuel', hreturn⟩, -, hlongest⟩ := h p p hp hp
    obtain ⟨route, hroute, hbest⟩ := hlongest hhosts hnetworks
    obtain ⟨fuel, hv⟩ := exists_tupleValue hp
    have heq := eq_selected hflow hrandom hv hreturn
    rw [hroute, hp.destination, selected, allRoutes_of_networks hhosts hnetworks] at heq
    obtain ⟨i, hi, rfl⟩ := Option.map_eq_some_iff.mp heq.symm
    exact ⟨i, hi, hbest⟩
  · intro hlongest p q hp hq
    exact sameRoute_of_selected (lookup_carriesHeaders hflow hrandom hp)
      (lookup_carriesHeaders hflow hrandom hq) hlongest

/-- If more than one route matches, a packet whose headers cannot be read has no lookup. -/
theorem not_sameRoute_of_unread (hlt : 1 < (r.allRoutes ipv4 oif p.header.destination).length)
    (hunread : ∀ fuel, getTupleValue fuel p.header p.payload = none) {dest : Ipv4Address} :
    ¬ r.SameRoute ipv4 oif getInteger dest p q := by
  rintro ⟨rtentry, ⟨fuel, hreturn⟩, -⟩
  rw [lookupGlobal_of_one_lt hflow hrandom hlt, hunread] at hreturn
  exact absurd hreturn (by simp)

end Selection

variable {r} in
/-- Packets of a flow that start with their headers take the same route, and all packets do if and
only if at most one route matches or the flow is neither UDP nor TCP. The route has the longest mask
if and only if the number of the flow selects such a one. -/
theorem lookupGlobal_sameRoute_iff (hflow : r.flowEcmpRouting = true)
    (hrandom : r.randomEcmpRouting = false) (getInteger : ℕ → ℕ) (flow : Flow) :
    ((∀ p q, flow.Carries p → flow.Carries q →
        r.SameRoute ipv4 oif getInteger flow.destination p q) ↔
      (r.allRoutes ipv4 oif flow.destination).length ≤ 1 ∨
        (flow.protocol ≠ UDP_PROT_NUMBER ∧ flow.protocol ≠ TCP_PROT_NUMBER ∧
          r.SelectsLongest ipv4 oif flow)) ∧
    ((∀ p q, flow.CarriesHeaders p → flow.CarriesHeaders q →
        r.SameRoute ipv4 oif getInteger flow.destination p q) ↔
      r.SelectsLongest ipv4 oif flow) := by
  refine ⟨⟨fun h => ?_, ?_⟩, sameRoute_headers_iff hflow hrandom⟩
  · rcases Nat.lt_or_ge 1 (r.allRoutes ipv4 oif flow.destination).length with hlt | hle
    · refine .inr ⟨fun hudp => ?_, fun htcp => ?_, ?_⟩
      · obtain ⟨p, hp, hunread⟩ := Flow.exists_udp_unread hudp
        rw [← hp.destination] at hlt
        exact not_sameRoute_of_unread hflow hrandom hlt hunread (h p p hp hp)
      · obtain ⟨p, hp, hunread⟩ := Flow.exists_tcp_unread htcp
        rw [← hp.destination] at hlt
        exact not_sameRoute_of_unread hflow hrandom hlt hunread (h p p hp hp)
      · exact (sameRoute_headers_iff hflow hrandom).mp fun p q hp hq =>
          h p q hp.toCarries hq.toCarries
    · exact .inl hle
  · rintro (hle | ⟨hudp, htcp, hlongest⟩)
    · intro p q hp hq
      have hreturn {x : Ipv4.Ipv4Packet} (hx : flow.Carries x) :
          ∃ fuel, r.lookupGlobal ipv4 oif getInteger fuel x.header x.payload =
            some (r.selected ipv4 oif flow.destination flow.tupleValue) := by
        rw [← hx.destination] at hle ⊢
        exact ⟨0, lookupGlobal_of_le_one hrandom hle flow.tupleValue⟩
      exact sameRoute_of_selected (hreturn hp) (hreturn hq)
        (selectsLongest_of_le_one hle)
    · have hheaders {x : Ipv4.Ipv4Packet} (hx : flow.Carries x) : flow.CarriesHeaders x :=
        { toCarries := hx
          headers := ⟨[], x.payload, .other hudp htcp, rfl⟩ }
      exact fun p q hp hq =>
        (sameRoute_headers_iff hflow hrandom).mpr hlongest p q (hheaders hp) (hheaders hq)

/-! ## A fragment on another path -/

/-- Two routes to a host, over two devices. -/
def twoPaths : GlobalRouting where
  hostRoutes :=
    [⟨0x0a000002, ⟨0xffffffff⟩, 0x0b000001, 1⟩, ⟨0x0a000002, ⟨0xffffffff⟩, 0x0c000001, 2⟩]
  networkRoutes := []
  asExternalRoutes := []
  randomEcmpRouting := false
  flowEcmpRouting := true
  isHost := by decide

def devices : Ipv4Addresses UInt32 where
  getNetDevice interface := interface
  getLocal _ := 0x0a000001
  sourceAddressSelection _ _ := 0x0a000001
  getAddress _ := 0x0a000001

def dataFlow : Flow := ⟨0x0a000001, 0x0a000002, UDP_PROT_NUMBER, 1, 2, 3⟩

/-- A datagram with 26 bytes of data, as a packet or as its last 24 bytes. -/
def dataPacket (offset : UInt16) : Ipv4.Ipv4Packet :=
  dataFlow.lastPacket (dataFlow.udpBytes 48 0 ++ dataFlow.seqTsBytes 0 0 0 ++
    List.replicate 26 0) offset

/-- Two routes to networks with the host, in either order. -/
def twoMasks (longestLast : Bool) : GlobalRouting where
  hostRoutes := []
  networkRoutes :=
    let short := ⟨0x0a000000, ⟨0xff000000⟩, 0x0b000001, 1⟩
    let long := ⟨0x0a000000, ⟨0xffffff00⟩, 0x0c000001, 2⟩
    if longestLast then [short, long] else [long, short]
  asExternalRoutes := []
  randomEcmpRouting := false
  flowEcmpRouting := true
  isHost := isHost_nil

/-- The number of the flow is odd and selects the last route. Packets with their headers in front
take the same one of the longest mask if this is the last one, but not all packets do. -/
theorem lookupGlobal_sameRoute_iff_twoMasks :
    (∀ p q, dataFlow.CarriesHeaders p → dataFlow.CarriesHeaders q →
      (twoMasks true).SameRoute devices none id dataFlow.destination p q) ∧
    (¬ ∀ p q, dataFlow.Carries p → dataFlow.Carries q →
      (twoMasks true).SameRoute devices none id dataFlow.destination p q) ∧
    ¬ ∀ p q, dataFlow.CarriesHeaders p → dataFlow.CarriesHeaders q →
      (twoMasks false).SameRoute devices none id dataFlow.destination p q := by
  obtain ⟨hall, hheaders⟩ := lookupGlobal_sameRoute_iff (r := twoMasks true) devices none rfl rfl
    id dataFlow
  have hlast := (lookupGlobal_sameRoute_iff (r := twoMasks false) devices none rfl rfl id
    dataFlow).2
  refine ⟨hheaders.mpr fun _ _ => ?_, fun h => ?_, fun h => ?_⟩
  · exact ⟨_, rfl, _, List.mem_cons_of_mem _ (List.mem_singleton_self _), rfl, by decide⟩
  · rcases hall.mp h with hle | ⟨hudp, -, -⟩
    · exact absurd hle (by decide)
    · exact hudp rfl
  · obtain ⟨i, hi, best, hbest, hroute, hlongest⟩ := hlast.mp h rfl (by decide)
    have hi' : i = ⟨0x0a000000, ⟨0xff000000⟩, 0x0b000001, 1⟩ := (Option.some.inj hi).symm
    subst hi'
    have hmem : best = ⟨0x0a000000, ⟨0xffffff00⟩, 0x0c000001, 2⟩ ∨
        best = ⟨0x0a000000, ⟨0xff000000⟩, 0x0b000001, 1⟩ := by
      rcases List.mem_cons.mp hbest with rfl | hbest
      · exact Or.inl rfl
      · exact Or.inr (List.mem_singleton.mp hbest)
    rcases hmem with rfl | rfl
    · exact absurd hroute (by decide)
    · exact absurd (hlongest ⟨0x0a000000, ⟨0xffffff00⟩, 0x0c000001, 2⟩ List.mem_cons_self)
        (by decide)

/-- The unfragmented packet and a later fragment take different routes. -/
theorem not_sameRoute_fragment :
    dataFlow.Carries (dataPacket 0) ∧ dataFlow.Carries (dataPacket 24) ∧
      ¬ twoPaths.SameRoute devices none id dataFlow.destination (dataPacket 0) (dataPacket 24) := by
  have hheaders : dataFlow.Headers (dataFlow.udpBytes 48 0 ++ dataFlow.seqTsBytes 0 0 0) :=
    .udp rfl 48 0 0 0 0
  have hdatagram := Flow.Datagram.whole hheaders (List.replicate 26 0)
  refine ⟨Flow.carries_lastPacket hdatagram (by decide) (by decide),
    Flow.carries_lastPacket hdatagram (by decide) (by decide), ?_⟩
  rintro ⟨rtentry, ⟨fuel, hfirst⟩, ⟨fuel', hlater⟩, -⟩
  have hgateway₁ : twoPaths.lookupGlobal devices none id fuel (dataPacket 0).header
      (dataPacket 0).payload = some (some ⟨0x0a000002, 0x0a000001, 0x0c000001, 2⟩) := rfl
  have hgateway₂ : twoPaths.lookupGlobal devices none id fuel' (dataPacket 24).header
      (dataPacket 24).payload = some (some ⟨0x0a000002, 0x0a000001, 0x0b000001, 1⟩) := rfl
  have heq := (hgateway₁.symm.trans hfirst).trans (hgateway₂.symm.trans hlater).symm
  exact absurd heq (by decide)

end GlobalRouting

end Ns3Rdma.Routing
