import FuchsiaSdk.Machine
import FuchsiaSdk.FdTable
import FuchsiaSdk.AcceptReservation
import FuchsiaSdk.PromiseScope
import FuchsiaSdk.TaskQueue
import FuchsiaSdk.ClientBase
import FuchsiaSdk.AsyncBinding
import FuchsiaSdk.CleanPath
import FuchsiaSdk.Chroot
import FuchsiaSdk.PrefixMap
import FuchsiaSdk.LocalVnode
import FuchsiaSdk.Namespace
import FuchsiaSdk.IdCursor
import FuchsiaSdk.NamespaceReaddir
import FuchsiaSdk.NamespaceMounts
import FuchsiaSdk.NamespaceTree
import FuchsiaSdk.NamespaceOpens
import FuchsiaSdk.NamespaceExport
import FuchsiaSdk.NamespaceExportPasses
import FuchsiaSdk.VfsPath
import FuchsiaSdk.LazyDir
import FuchsiaSdk.SysOutgoing
import FuchsiaSdk.OutgoingConnections
import FuchsiaSdk.VfsRights
import FuchsiaSdk.Completers
import FuchsiaSdk.Custody
import FuchsiaSdk.IncomingMessages
import FuchsiaSdk.ProxyController
import FuchsiaSdk.WatchChain
import FuchsiaSdk.MessageReader
import FuchsiaSdk.MessageReaderProofs
import FuchsiaSdk.Memory
import FuchsiaSdk.WireFormat
import FuchsiaSdk.WireEncoder
import FuchsiaSdk.WireEncodeHandles
import FuchsiaSdk.WireEncodeImage
import FuchsiaSdk.WireDecoder
import FuchsiaSdk.WireObject
import FuchsiaSdk.WireRoundTrip
import FuchsiaSdk.WireAccepted
import FuchsiaSdk.WireCanonical
import FuchsiaSdk.CodingTable
import FuchsiaSdk.CodedDecoder
import FuchsiaSdk.CodedDecodeHandles
import FuchsiaSdk.HandleDispositions
import FuchsiaSdk.DecodersAgree
import FuchsiaSdk.SortedMap
import FuchsiaSdk.FileLocks
import FuchsiaSdk.FileLockProofs
import FuchsiaSdk.Utf8
import FuchsiaSdk.Utf8Scalar
import FuchsiaSdk.Lanes
import FuchsiaSdk.Utf8Simd
import FuchsiaSdk.Utf8SimdLanes
import FuchsiaSdk.Utf8SimdProofs
import FuchsiaSdk.LogRecord
import FuchsiaSdk.LogRecordProofs
import FuchsiaSdk.TimelineFunction
import FuchsiaSdk.RemoteVector
import FuchsiaSdk.TimelineRate
import FuchsiaSdk.WireVectored
import FuchsiaSdk.ClientTxids
import FuchsiaSdk.Tiling
import FuchsiaSdk.CodedExtent
import FuchsiaSdk.CodedTiling
import FuchsiaSdk.CodedValidate
import FuchsiaSdk.CodedReach
import FuchsiaSdk.CodedLimits
import FuchsiaSdk.Bridge
import FuchsiaSdk.BridgeProtocol
import FuchsiaSdk.BridgeChain
import FuchsiaSdk.Sequencer
import FuchsiaSdk.Barrier
import FuchsiaSdk.TaskScheduler
import FuchsiaSdk.TaskScope
import FuchsiaSdk.SingleThreadedExecutor
import FuchsiaSdk.ExecutorLifetime
import FuchsiaSdk.FdioTimer
import FuchsiaSdk.OutgoingMessageBytes
import FuchsiaSdk.WatchEvents
import FuchsiaSdk.InspectNames
import FuchsiaSdk.SocketPair
import FuchsiaSdk.ProxyControllerSend
