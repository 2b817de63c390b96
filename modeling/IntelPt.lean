import IntelPt.Lib.Transducer
import IntelPt.Lib.HeaderCode
import IntelPt.Lib.Runs
import IntelPt.Lib.Custody
import IntelPt.Lib.LittleEndian
import IntelPt.Lib.Bits
import IntelPt.Lib.BitFields
import IntelPt.Lib.Pool
import IntelPt.Lib.Tally
import IntelPt.Lib.CString
import IntelPt.Lib.LinkedList
import IntelPt.Lib.Conservation
import IntelPt.Lib.IssueOrder
import IntelPt.Decoder.IntelPacketDefinitions
import IntelPt.Decoder.PacketInterpreter
import IntelPt.Decoder.HeaderSearch
import IntelPt.Decoder.Dispatch
import IntelPt.Decoder.Framing
import IntelPt.Decoder.Emission
import IntelPt.Decoder.TableOrder
import IntelPt.Decoder.Recovery
import IntelPt.Decoder.Conservation
import IntelPt.Decoder.IpCompression
import IntelPt.Decoder.Synchronisation
import IntelPt.Decoder.TimeStamps
import IntelPt.Decoder.BranchOutcomes
import IntelPt.Decoder.Meaning
import IntelPt.Decoder.TraceDecoder
import IntelPt.Decoder.TraceStatistics
import IntelPt.Decoder.WireFormat
import IntelPt.Decoder.Fill
import IntelPt.Decoder.Exceptions
import IntelPt.Decoder.Reordering
import IntelPt.Decoder.Sequences
import IntelPt.Decoder.Messages
import IntelPt.Decoder.TraceSummary
import IntelPt.Decoder.MessageLoop
import IntelPt.Decoder.Cores
import IntelPt.Driver.ProcessorTraceShared
import IntelPt.Driver.Capabilities
import IntelPt.Driver.Validation
import IntelPt.Driver.ProcessorTrace
import IntelPt.Driver.ControlRegister
import IntelPt.Driver.WindowsControl
import IntelPt.Driver.ShownHardware
import IntelPt.Driver.DriverUtils
import IntelPt.Driver.QueueThreads
import IntelPt.Driver.DriverOperations
import IntelPt.Driver.PacketPool
import IntelPt.Driver.CoreInvariants
import IntelPt.Driver.TopaOutput
import IntelPt.Driver.Sessions
import IntelPt.Driver.Ownership
import IntelPt.Driver.PendingErrors
import IntelPt.Driver.TraceStatus
import IntelPt.Driver.BufferOrder
import IntelPt.Driver.Mapping
import IntelPt.Driver.WakeUp
import IntelPt.Driver.Requests
import IntelPt.Driver.PacketIds
import IntelPt.Driver.IoControl
import IntelPt.Driver.PerCoreExecution
import IntelPt.Driver.StartUp
import IntelPt.Driver.PmiRecovery
import IntelPt.Driver.SessionProtocol
import IntelPt.UserModeApp.Publishing
import IntelPt.UserModeApp.Delivery
import IntelPt.UserModeApp.Application
import IntelPt.UserModeApp.ProducerLifetime
import IntelPt.UserModeApp.Workers
import IntelPt.UserModeApp.Pipeline
import IntelPt.UserModeApp.Draining
import IntelPt.UserModeApp.TracedSession
import IntelPt.UserModeApp.Realisation
import IntelPt.UserModeApp.ConfigData
