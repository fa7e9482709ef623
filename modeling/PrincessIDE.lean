import PrincessIDE.Foundation.Utf8
import PrincessIDE.Foundation.Str
import PrincessIDE.Foundation.Loop
import PrincessIDE.Foundation.Effect
import PrincessIDE.Foundation.Latest
import PrincessIDE.Foundation.Paging
import PrincessIDE.Foundation.Drain
import PrincessIDE.Foundation.Steps
import PrincessIDE.Foundation.Lru
import PrincessIDE.Foundation.Fields
import PrincessIDE.Foundation.Overlay
import PrincessIDE.Foundation.Maxima
import PrincessIDE.Foundation.FileTree
import PrincessIDE.Core.Error
import PrincessIDE.Core.Json
import PrincessIDE.Core.Stream
import PrincessIDE.Core.Event
import PrincessIDE.Core.Serde
import PrincessIDE.Core.Wire
import PrincessIDE.Core.Envelope
import PrincessIDE.Core.Recorder
import PrincessIDE.Run.Reader
import PrincessIDE.Run.Serial
import PrincessIDE.Run.Process
import PrincessIDE.Run.Backend
import PrincessIDE.Run.Launch
import PrincessIDE.Ai.Http
import PrincessIDE.Ai.Sse
import PrincessIDE.Ai.Live
import PrincessIDE.Ai.Exchange
import PrincessIDE.Ai.Heard
import PrincessIDE.Ai.Completion
import PrincessIDE.Ai.Abort
import PrincessIDE.Debug.Framing
import PrincessIDE.Debug.Transport
import PrincessIDE.Debug.Delivery
import PrincessIDE.Debug.Capability
import PrincessIDE.Debug.Backend
import PrincessIDE.Debug.Upkeep
import PrincessIDE.Debug.Stop
import PrincessIDE.Debug.Poison
import PrincessIDE.Debug.Closing
import PrincessIDE.Debug.Gate
import PrincessIDE.Debug.Attach
import PrincessIDE.Bin.GuestMemory
import PrincessIDE.Bin.PageTable
import PrincessIDE.Bin.Hex
import PrincessIDE.Bin.Descriptor
import PrincessIDE.Debug.MonitorDump
import PrincessIDE.Debug.Chunking
import PrincessIDE.Run.Qemu
import PrincessIDE.Desktop.Contract
import PrincessIDE.Desktop.Ops
import PrincessIDE.Desktop.EventStore
import PrincessIDE.Desktop.EventBus
import PrincessIDE.Desktop.Replay
import PrincessIDE.Desktop.Publishing
import PrincessIDE.Build.Diagnostics
import PrincessIDE.Build.Process
import PrincessIDE.Build.Lines
import PrincessIDE.Build.Database
import PrincessIDE.Cli.Reason
import PrincessIDE.Desktop.LspStopped
import PrincessIDE.Desktop.FsConfined
import PrincessIDE.Bin.Leaf
import PrincessIDE.Bin.Explain
import PrincessIDE.Bin.GuestWrite
import PrincessIDE.Bin.Source
import PrincessIDE.Cli.Observers
import PrincessIDE.Desktop.Retained
import PrincessIDE.Desktop.EditorView
import PrincessIDE.Run.Jvm
import PrincessIDE.Build.Artifacts
import PrincessIDE.Run.Pieces
import PrincessIDE.Cli.Diagnostics
import PrincessIDE.Cli.Build
import PrincessIDE.Cli.Delivered
import PrincessIDE.Cli.Scripted
import PrincessIDE.Cli.Arrivals
import PrincessIDE.Cli.ChildOutput
import PrincessIDE.Bin.InfoMem
import PrincessIDE.Bin.InfoRegisters
import PrincessIDE.Bin.Granularity
import PrincessIDE.Bin.IdtGates
import PrincessIDE.Run.FaultError
import PrincessIDE.Run.FaultEvents
import PrincessIDE.Run.SerialLog
import PrincessIDE.Run.QemuArgs
import PrincessIDE.Debug.Base64
import PrincessIDE.Debug.Breakpoints
import PrincessIDE.Debug.Arch
import PrincessIDE.Debug.Rerun
import PrincessIDE.Build.Quoted
import PrincessIDE.View.Source
import PrincessIDE.Build.Printed
import PrincessIDE.Build.Recipes
import PrincessIDE.Build.Folded
import PrincessIDE.Cli.Agreement
import PrincessIDE.Ai.LineEnds
import PrincessIDE.Ai.Url
import PrincessIDE.Bin.Disasm
import PrincessIDE.Core.Config
import PrincessIDE.Symbol.Coarse
import PrincessIDE.Symbol.Frames
import PrincessIDE.Ai.Config
import PrincessIDE.Foundation.Delimited
import PrincessIDE.Foundation.Keyed
import PrincessIDE.Desktop.Doctor
import PrincessIDE.Desktop.DoctorTools
import PrincessIDE.Lang.Registry
import PrincessIDE.Core.JsonText
import PrincessIDE.Build.Clangd
import PrincessIDE.Build.Shim
import PrincessIDE.Debug.Startup
import PrincessIDE.View.Disasm
import PrincessIDE.Ai.Chunks
import PrincessIDE.Foundation.Calendar
import PrincessIDE.Desktop.Timestamp
import PrincessIDE.Cli.Env
import PrincessIDE.Cli.Symbolize
import PrincessIDE.Cli.Argv
import PrincessIDE.Cli.BuildPlan
import PrincessIDE.Cli.CommandLine
import PrincessIDE.Build.ClangdSound
import PrincessIDE.Desktop.LspDelivered
import PrincessIDE.Guest.Booted
import PrincessIDE.Ai.Answered
