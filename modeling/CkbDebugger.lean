import CkbDebugger.Loop.Basic
import CkbDebugger.Framing.Tokenizer
import CkbDebugger.Bytes.LittleEndian
import CkbDebugger.Nom.Basic
import CkbDebugger.Nom.Lemmas
import CkbDebugger.Nom.CrashTable
import CkbDebugger.Nom.Texts
import CkbDebugger.Nom.Grammar
import CkbDebugger.Nom.Leftover
import CkbDebugger.GdbRemote.Types
import CkbDebugger.GdbRemote.Command
import CkbDebugger.GdbRemote.Overflow
import CkbDebugger.GdbRemote.Totality
import CkbDebugger.GdbRemote.Frame
import CkbDebugger.GdbRemote.Response
import CkbDebugger.GdbRemote.Handler
import CkbDebugger.GdbRemote.Session
import CkbDebugger.ElfDumper.Segments
import CkbDebugger.ElfDumper.Stub
import CkbDebugger.ElfDumper.Emit
import CkbDebugger.ElfDumper.Image
import CkbDebugger.Riscv.Line
import CkbDebugger.ElfDumper.Restore
import CkbDebugger.Pprof.Profile
import CkbDebugger.Pprof.Flamegraph
import CkbDebugger.Pprof.CallStack
import CkbDebugger.Pprof.ProgramBreak
import CkbDebugger.Pprof.Machine
import CkbDebugger.CkbVm.Interface
import CkbDebugger.GdbStub.Handler
import CkbDebugger.GdbStub.Watch
import CkbDebugger.GdbServer.Handler
import CkbDebugger.GdbServer.Watchpoint
import CkbDebugger.CkbVm.Cache
import CkbDebugger.Cli.Loops
import CkbDebugger.GdbStub.Coherence
import CkbDebugger.GdbStub.Polling
import CkbDebugger.Cli.Coherence
import CkbDebugger.Cli.Spawn
import CkbDebugger.Cli.Depth
import CkbDebugger.Cli.FileOperation
import CkbDebugger.Cli.FetchString
import CkbDebugger.GdbStub.Tables
import CkbDebugger.GdbRemote.BreakpointPacket
import CkbDebugger.GdbServer.Requests
import CkbDebugger.GdbServer.Breakpoints
import CkbDebugger.GdbServer.Resume
import CkbDebugger.GdbServer.Panics
import CkbDebugger.GdbRemote.Writer
import CkbDebugger.GdbRemote.SelfDelimiting
import CkbDebugger.GdbRemote.Progress
import CkbDebugger.GdbRemote.Escaping
import CkbDebugger.GdbRemote.HexText
import CkbDebugger.GdbRemote.MemoryPacket
import CkbDebugger.GdbRemote.VContPacket
import CkbDebugger.GdbRemote.BreakpointLists
import CkbDebugger.GdbRemote.QueryPacket
import CkbDebugger.GdbRemote.Reply
import CkbDebugger.GdbRemote.HostFile
import CkbDebugger.GdbRemote.Arguments
import CkbDebugger.GdbRemote.WholePackets
import CkbDebugger.GdbServer.MemoryRead
import CkbDebugger.GdbServer.Registers
import CkbDebugger.PprofConverter.Frames
import CkbDebugger.Table.First
import CkbDebugger.PprofProtos.Builder
import CkbDebugger.SignalProfiler.Report
import CkbDebugger.PprofConverter.Profile
import CkbDebugger.MockTx.Resource
import CkbDebugger.DebuggerApi.Check
import CkbDebugger.PprofProtos.Meaning
import CkbDebugger.PprofProtos.Times
import CkbDebugger.PprofConverter.Meaning
import CkbDebugger.SignalProfiler.Recording
import CkbDebugger.DebuggerApi.Criterion
import CkbDebugger.Loop.Finite
import CkbDebugger.SignalProfiler.Unwinder
import CkbDebugger.SignalProfiler.Unwinding
import CkbDebugger.Protobuf.Varint
import CkbDebugger.Protobuf.Wire
import CkbDebugger.Protobuf.Message
import CkbDebugger.PprofProtos.Messages
import CkbDebugger.PprofProtos.File
import CkbDebugger.PprofConverter.File
import CkbDebugger.SignalProfiler.Lifecycle
import CkbDebugger.Loop.Simulation
import CkbDebugger.CkbVm.Plain
import CkbDebugger.Cli.Modes
import CkbDebugger.GdbStub.Transparency
import CkbDebugger.GdbServer.Course
import CkbDebugger.GdbRemote.Conversation
import CkbDebugger.GdbRemote.RequestPacket
import CkbDebugger.ElfDumper.Resume
import CkbDebugger.Regex.Replace
import CkbDebugger.DebuggerApi.Embed
import CkbDebugger.DebuggerApi.Template
import CkbDebugger.DebuggerApi.Rendering
import CkbDebugger.Pprof.StackTrace
import CkbDebugger.Cli.FileStream
import CkbDebugger.GdbRemote.FileTransfer
