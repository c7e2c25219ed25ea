import ArkWire.Protocol.SizeGates
import ArkWire.Protocol.Encoding
import ArkWire.Protocol.Contents
import ArkWire.Lib.ProtobufEncoding
import ArkWire.Memory.Streams
import ArkWire.Lib.Sequences
import ArkWire.Protocol.Settlement
import ArkWire.Protocol.Ownership
import ArkWire.Protocol.Accounting
import ArkWire.Protocol.Frames
import ArkWire.Protocol.Correspondence
import ArkWire.Protocol.Deadlines
import ArkWire.Protocol.Matching
import ArkWire.Lib.Monitors
import ArkWire.Protocol.Wakeups
import ArkWire.Transport.FrameReader
import ArkWire.Transport.Grammar
import ArkWire.Lib.Cobs
import ArkWire.Transport.FrameWriter
import ArkWire.Transport.Recovery
import ArkWire.Lib.Histories
import ArkWire.Lib.Locks
import ArkWire.Transport.Outbound
import ArkWire.Transport.OutboundSteps
import ArkWire.Transport.Isolation
import ArkWire.Transport.SendOrder
import ArkWire.Transport.Client
import ArkWire.Transport.Server
import ArkWire.Transport.Hearing
import ArkWire.Transport.Integrity
import ArkWire.Transport.Events
import ArkWire.Transport.Shutdown
import ArkWire.Protocol.Server
import ArkWire.Protocol.Succession
import ArkWire.Lib.Protobuf
import ArkWire.Lib.Symbolic
import ArkWire.Transport.Handshake
import ArkWire.Transport.Agreement
import ArkWire.Transport.Secrecy
import ArkWire.Protocol.Headers
import ArkWire.Transport.Retirement
import ArkWire.Transport.WriteHalf
import ArkWire.Lib.Programs
import ArkWire.Protocol.Publication
import ArkWire.Protocol.Callbacks
import ArkWire.Protocol.Discipline
import ArkWire.Protocol.Lives
import ArkWire.Protocol.Notification
import ArkWire.Lib.Waiting
import ArkWire.Transport.Progress
import ArkWire.Protocol.Conservation
import ArkWire.Memory.Waking
import ArkWire.Protocol.Acceptance
import ArkWire.Transport.Company
import ArkWire.Transport.Flow
import ArkWire.Transport.Pair
import ArkWire.Transport.Ledger
import ArkWire.Transport.ClientMoves
import ArkWire.Transport.ClientCourse
import ArkWire.Transport.ServerMoves
import ArkWire.Transport.ServerCourse
import ArkWire.Transport.Alignment
import ArkWire.Transport.Freshness
import ArkWire.Lib.Fairness
import ArkWire.Lib.Contracts
import ArkWire.Protocol.Possession
import ArkWire.Protocol.Locking
