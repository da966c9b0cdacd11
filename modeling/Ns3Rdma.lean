import Ns3Rdma.Lib.Consecutive
import Ns3Rdma.Lib.HeapOrder
import Ns3Rdma.Lib.Memory
import Ns3Rdma.Lib.Others
import Ns3Rdma.Lib.Registry
import Ns3Rdma.Lib.Search
import Ns3Rdma.Lib.StepSystem
import Ns3Rdma.Lib.Tally
import Ns3Rdma.Lib.Tiling
import Ns3Rdma.Lib.Word
import Ns3Rdma.Buffer.Buffer
import Ns3Rdma.Buffer.View
import Ns3Rdma.Buffer.Sharing
import Ns3Rdma.Buffer.Heap
import Ns3Rdma.Buffer.Operations
import Ns3Rdma.Buffer.Writes
import Ns3Rdma.Buffer.FullCopy
import Ns3Rdma.Buffer.Append
import Ns3Rdma.Buffer.CopyData
import Ns3Rdma.Buffer.Pool
import Ns3Rdma.Buffer.Refinement
import Ns3Rdma.Buffer.Offsets
import Ns3Rdma.Net.Packet
import Ns3Rdma.Net.DataRate
import Ns3Rdma.Net.PacketTagList
import Ns3Rdma.Net.ByteTagList
import Ns3Rdma.Net.PacketPool
import Ns3Rdma.Net.Coverage
import Ns3Rdma.Net.TagsStick
import Ns3Rdma.Net.AddressGenerator
import Ns3Rdma.Net.Ipv4Fragmentation
import Ns3Rdma.Net.Ipv4Reassembly
import Ns3Rdma.Net.FragmentRoundTrip
import Ns3Rdma.Net.FragmentQueues
import Ns3Rdma.Queue.DropTailQueue
import Ns3Rdma.Queue.BEgressQueue
import Ns3Rdma.Queue.PauseHonoured
import Ns3Rdma.Queue.Counters
import Ns3Rdma.Rate.ReactionPoint
import Ns3Rdma.Rate.Range
import Ns3Rdma.Rate.Phase
import Ns3Rdma.Nic.Receiver
import Ns3Rdma.Nic.Delivery
import Ns3Rdma.Nic.Answers
import Ns3Rdma.Nic.Notify
import Ns3Rdma.Nic.Device
import Ns3Rdma.Nic.Flow
import Ns3Rdma.Nic.Link
import Ns3Rdma.Nic.Transmit
import Ns3Rdma.Nic.Frame
import Ns3Rdma.Nic.View
import Ns3Rdma.Nic.Simulation
import Ns3Rdma.Nic.Retention
import Ns3Rdma.Nic.StopAndWait
import Ns3Rdma.Switch.BroadcomNode
import Ns3Rdma.Switch.Egress
import Ns3Rdma.Switch.Ingress
import Ns3Rdma.Switch.Admission
import Ns3Rdma.Switch.TagRemoval
import Ns3Rdma.Switch.Pfc
import Ns3Rdma.Sched.Scheduler
import Ns3Rdma.Sched.HeapScheduler
import Ns3Rdma.Sched.HeapRefinesList
import Ns3Rdma.Sched.DefaultSimulator
import Ns3Rdma.Sched.Causality
import Ns3Rdma.Tcp.SequenceNumber
import Ns3Rdma.Tcp.RxBuffer
import Ns3Rdma.Tcp.Pieces
import Ns3Rdma.Tcp.Reassembly
import Ns3Rdma.Tcp.TxBuffer
import Ns3Rdma.Tcp.SlidingWindow
import Ns3Rdma.Tcp.Arrangement
import Ns3Rdma.Tcp.SocketBase
import Ns3Rdma.Tcp.ReceiveWindow
import Ns3Rdma.Tcp.NewReno
import Ns3Rdma.Tcp.SendLoop
import Ns3Rdma.Tcp.CongestionWindow
import Ns3Rdma.Tcp.FlowControl
import Ns3Rdma.Tcp.Socket
import Ns3Rdma.Tcp.TransmitSide
import Ns3Rdma.Tcp.LastAck
import Ns3Rdma.Tcp.Progress
import Ns3Rdma.Tcp.PeerFin
import Ns3Rdma.Tcp.FinHonoured
import Ns3Rdma.Lib.HeapOrder
import Ns3Rdma.Sched.Causality
import Ns3Rdma.Tcp.Established
import Ns3Rdma.Tcp.InFlight
import Ns3Rdma.Tcp.SenderTimers
import Ns3Rdma.Sched.CalendarScheduler
import Ns3Rdma.Sched.CalendarQueue
import Ns3Rdma.Lib.Codec
import Ns3Rdma.Packetbb.PacketBb
import Ns3Rdma.Packetbb.Format
import Ns3Rdma.Packetbb.RoundTrip
import Ns3Rdma.Serial.PacketSerialization
import Ns3Rdma.Serial.Overrun
import Ns3Rdma.Arp.ArpCache
import Ns3Rdma.Arp.Resolution
import Ns3Rdma.Wifi.MacRxMiddle
import Ns3Rdma.Wifi.FragmentBurst
import Ns3Rdma.Wifi.BlockAckManager
import Ns3Rdma.Wifi.RetryPackets
import Ns3Rdma.Lte.SequenceNumber10
import Ns3Rdma.Lte.Segmentation
import Ns3Rdma.Lte.LteRlcAm
import Ns3Rdma.Lte.TransmitWindow
import Ns3Rdma.Lte.LteRlcHeader
import Ns3Rdma.Lte.LteRlcUm
import Ns3Rdma.Lte.SduStream
import Ns3Rdma.Lte.Reassembly
import Ns3Rdma.Lte.InOrder
import Ns3Rdma.Lte.Opportunity
import Ns3Rdma.Lte.PerfectChannel
import Ns3Rdma.Lib.ShortestPath
import Ns3Rdma.Routing.GlobalRouteManager
import Ns3Rdma.Routing.Nexthop
import Ns3Rdma.Routing.SpfTree
import Ns3Rdma.Routing.SpfNext
import Ns3Rdma.Routing.SpfCalculate
import Ns3Rdma.Routing.RootExits
import Ns3Rdma.Routing.FirstHops
import Ns3Rdma.Queue.Fairness
import Ns3Rdma.Switch.EgressLevels
import Ns3Rdma.Switch.ServicePools
import Ns3Rdma.Switch.Hysteresis
import Ns3Rdma.Nic.PauseTimers
import Ns3Rdma.Nic.ZeroIntervals
import Ns3Rdma.Olsr.OlsrState
import Ns3Rdma.Olsr.OlsrState
import Ns3Rdma.Olsr.TopologySet
import Ns3Rdma.Olsr.MprComputation
import Ns3Rdma.Net.Ipv6Extension
import Ns3Rdma.Net.Ipv6Reassembly
import Ns3Rdma.Aodv.RoutingProtocol
import Ns3Rdma.Aodv.Entries
import Ns3Rdma.Aodv.FreshRoutes
import Ns3Rdma.Net.NixVector
import Ns3Rdma.Net.FragmentMtu
import Ns3Rdma.Net.PartialPacket
import Ns3Rdma.Buffer.NtohReads
import Ns3Rdma.Net.PacketMetadata
import Ns3Rdma.Apps.UdpEchoClient
import Ns3Rdma.Nic.NackRate
import Ns3Rdma.Nic.FlowTables
import Ns3Rdma.Tcp.TcpHeader
import Ns3Rdma.Core.Int64x64
import Ns3Rdma.Core.Time
import Ns3Rdma.Net.EphemeralPorts
import Ns3Rdma.Net.SubnetCoverage
import Ns3Rdma.Tcp.SackScoreBoard
import Ns3Rdma.Sched.CalendarWidth
import Ns3Rdma.Net.Ipv4Header
import Ns3Rdma.Net.HeaderChecksums
import Ns3Rdma.Tcp.RttEstimator
import Ns3Rdma.Lte.RlcHeaders
import Ns3Rdma.Lte.LteRlcAmHeader
import Ns3Rdma.Wifi.RetryCount
import Ns3Rdma.Wifi.BlockAckCache
import Ns3Rdma.Core.Int64x64Text
import Ns3Rdma.Lte.StatusPdu
import Ns3Rdma.Apps.PacketLossCounter
import Ns3Rdma.Lte.Grant
import Ns3Rdma.Lte.Reordering
import Ns3Rdma.Net.PbbAddressBlock
import Ns3Rdma.Routing.NextLink
import Ns3Rdma.Routing.StaticRouting
import Ns3Rdma.Olsr.HnaTable
import Ns3Rdma.Olsr.MessageHeader
import Ns3Rdma.Olsr.MessageParser
import Ns3Rdma.Wifi.MsduAggregator
import Ns3Rdma.Wifi.BackoffRuns
import Ns3Rdma.Net.FragmentTimeouts
import Ns3Rdma.Routing.FlowEcmp
import Ns3Rdma.Olsr.RoutingTable
import Ns3Rdma.Tcp.Transfer
import Ns3Rdma.Tcp.Connection
import Ns3Rdma.Routing.Forwarding
import Ns3Rdma.Lib.Simulation
import Ns3Rdma.Sched.Independence
import Ns3Rdma.Lib.BreadthFirst
import Ns3Rdma.Routing.NixVectorRouting
import Ns3Rdma.Routing.Network
import Ns3Rdma.Rate.Recovery
import Ns3Rdma.Lib.RelayFlooding
import Ns3Rdma.Olsr.Flooding
