import Drain.Lib.Holds
import Drain.Lib.Table
import Drain.Lib.MinPlus
import Drain.Flit
import Drain.Topology
import Drain.Network
import Drain.Routing
import Drain.Spin
import Drain.Router
import Drain.NetworkInterface
import Drain.Run
import Drain.ShortestPath
import Drain.RoutingTable
import Drain.Lib.Acyclic
import Drain.Mesh
import Drain.TurnModel
import Drain.MakeTopology
import Drain.MeshLinks
import Drain.IrregularMesh
import Drain.MeshRouting
import Drain.RouteCompute
import Drain.RouteChoice
import Drain.Ring
import Drain.SpinStep
import Drain.DoSpin
import Drain.Rotation
import Drain.Lib.Located
import Drain.Lib.Trace
import Drain.Moves
import Drain.Flow
import Drain.WellFormed
import Drain.RouterMoves
import Drain.AllocatorMoves
import Drain.NiMoves
import Drain.SpinMoves
import Drain.Phases
import Drain.Control
import Drain.Events
import Drain.Upstream
import Drain.SendOrder
import Drain.RoundRobin
import Drain.Matching
import Drain.EventOrder
import Drain.Lib.Lane
import Drain.MiCache
import Drain.MiDirectory
import Drain.Lib.Carries
import Drain.MiLine
import Drain.MiSequencer
import Drain.MiInvariant
import Drain.MiCacheSteps
import Drain.MiCacheEvents
import Drain.MiDirSteps
import Drain.MiRun
import Drain.MeshNet
import Drain.Deflection
import Drain.AdaptiveChoice
import Drain.StepInvariant
import Drain.FlitInvariant
import Drain.VnetChoice
import Drain.Lib.Words
import Drain.SpinRing
import Drain.Multicast
import Drain.Lib.Frame
import Drain.WakeupFrame
import Drain.MessageBuffer
import Drain.System
import Drain.Ejection
import Drain.Stranded
import Drain.InjectionOrder
import Drain.Conservation
import Drain.Detours
import Drain.Awake
import Drain.SyntheticTraffic
import Drain.BufferCalls
import Drain.BufferRoom
import Drain.BufferOrder
import Drain.WaitingBuffers
import Drain.NetworkStats
import Drain.MarkedFlits
import Drain.FunctionalWrite
import Drain.SpinStats
import Drain.Ledger
import Drain.Lib.Calls
import Drain.RubyTypes
import Drain.TimerTable
import Drain.Clocked
import Drain.TrafficTester
import Drain.Lib.AssocList
import Drain.Sequencer
import Drain.CacheMemory
import Drain.Lib.BinaryHeap
import Drain.WireBuffer
import Drain.Prefetcher
import Drain.Lib.Tiles
import Drain.DmaSequencer
import Drain.Lib.GreedySplit
import Drain.PerfectSwitch
import Drain.Lib.ShiftRegister
import Drain.Bitfield
import Drain.SkewedAssociative
import Drain.Lib.InPlace
import Drain.Histogram
import Drain.HistStor
import Drain.Lib.LinkedList
import Drain.Lib.Recency
import Drain.FaLru
import Drain.FaLruMoves
import Drain.FaLruRun
import Drain.FaLruStats
import Drain.PacketQueue
import Drain.AddrRange
import Drain.ChunkGenerator
import Drain.AddrRangeMap
import Drain.SnoopFilter
import Drain.MshrQueue
