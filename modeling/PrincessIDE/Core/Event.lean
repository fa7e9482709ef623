import PrincessIDE.Core.Error
import PrincessIDE.Core.Stream
import PrincessIDE.Foundation.Effect

namespace PrincessIDE.Event
open Utf8 PrincessIDE.Stream Error Effect

inductive LogStream where
  | build
  | serialCom1
  | qemuMonitor
  | gdbConsole
  | ide
deriving DecidableEq, Repr

structure LogAppendPayload where
  stream : LogStream
  chunk : Text
  encoding : TextEncoding
deriving DecidableEq, Repr

inductive DiagnosticSeverity where
  | error
  | warning
  | note
deriving DecidableEq, Repr

inductive DiagnosticSource where
  | clang
  | gcc
  | ld
  | nasm
deriving DecidableEq, Repr

inductive BuildStatus where
  | ok
  | failed
  | cancelled
deriving DecidableEq, Repr

inductive ExitReason where
  | guestShutdown
  | tripleFault
  | timeout
  | killed
deriving DecidableEq, Repr

def ExitReason.asStr : ExitReason → Text
  | .guestShutdown => "guest-shutdown".toList
  | .tripleFault => "triple-fault".toList
  | .timeout => "timeout".toList
  | .killed => "killed".toList

inductive ArtifactKind where
  | elf
  | iso
  | image
  | object
  | archive
  | other
deriving DecidableEq, Repr

structure Artifact where
  path : Text
  kind : ArtifactKind
  size : Nat
  sha256 : Text
deriving DecidableEq, Repr

structure BuildStartedPayload where
  backend : Text
  toolchainId : Text
  argv : List Text
  cwd : Text
deriving DecidableEq, Repr

structure BuildDiagnosticPayload where
  severity : DiagnosticSeverity
  file : Option Text
  line : Option Nat
  col : Option Nat
  message : Text
  source : DiagnosticSource
deriving DecidableEq, Repr

structure BuildFinishedPayload where
  status : BuildStatus
  exitCode : Option Int
  durationMs : Nat
  artifacts : List Artifact
deriving DecidableEq, Repr

structure RunStartedPayload where
  qemuArgv : List Text
  gdbStub : Option Text
deriving DecidableEq, Repr

structure SymbolicatedLocation where
  symbol : Text
  file : Text
  line : Nat
deriving DecidableEq, Repr

-- A `BTreeMap` of register texts: the rows are sorted by name.
abbrev RegisterFile := List (Text × Text)

def RegisterFile.insert (name value : Text) : RegisterFile → RegisterFile
  | [] => [(name,value)]
  | row :: rest =>
    if name = row.1 then (name,value) :: rest
    else if name < row.1 then (name,value) :: row :: rest
    else row :: RegisterFile.insert name value rest

structure RunFaultPayload where
  vector : Text
  rip : Nat
  ripText : Text
  errorCode : Nat
  regs : RegisterFile
  symbolicated : Option SymbolicatedLocation
deriving DecidableEq, Repr

structure RunExitedPayload where
  exitCode : Option Int
  reason : ExitReason
  uptimeMs : Nat
deriving DecidableEq, Repr

structure SourceLocation where
  file : Text
  line : Nat
  column : Option Nat
deriving DecidableEq, Repr

structure StackFrame where
  id : Nat
  name : Text
  source : Option SourceLocation
  instructionPointer : Text
deriving DecidableEq, Repr

inductive StopReason where
  | breakpoint
  | step
  | signal
  | entry
deriving DecidableEq, Repr

def StopReason.debug : StopReason → Text
  | .breakpoint => "Breakpoint".toList
  | .step => "Step".toList
  | .signal => "Signal".toList
  | .entry => "Entry".toList

structure DebugStoppedPayload where
  reason : StopReason
  threadId : Int
  frame : StackFrame
  regs : RegisterFile
deriving DecidableEq, Repr

structure DebugBreakpointChangedPayload where
  id : Text
  verified : Bool
  location : Option SourceLocation
deriving DecidableEq, Repr

inductive DebugOutputCategory where
  | console
  | stdout
  | stderr
deriving DecidableEq, Repr

structure DebugOutputPayload where
  category : DebugOutputCategory
  text : Text
deriving DecidableEq, Repr

structure SymbolsIndexedPayload where
  artifact : Text
  buildId : Option Text
  symbolCount : Nat
deriving DecidableEq, Repr

structure ArtifactChangedPayload where
  path : Text
  kind : ArtifactKind
deriving DecidableEq, Repr

structure AiUsage where
  promptTokens : Nat
  completionTokens : Nat
  totalTokens : Nat
deriving DecidableEq, Repr

structure AiChunkPayload where
  requestId : Text
  text : Text
deriving DecidableEq, Repr

structure AiFinishedPayload where
  requestId : Text
  usage : AiUsage
deriving DecidableEq, Repr

inductive EventBody where
  | logAppend (payload : LogAppendPayload)
  | buildStarted (payload : BuildStartedPayload)
  | buildDiagnostic (payload : BuildDiagnosticPayload)
  | buildFinished (payload : BuildFinishedPayload)
  | runStarted (payload : RunStartedPayload)
  | runFault (payload : RunFaultPayload)
  | runExited (payload : RunExitedPayload)
  | debugStopped (payload : DebugStoppedPayload)
  | debugBreakpointChanged (payload : DebugBreakpointChangedPayload)
  | debugOutput (payload : DebugOutputPayload)
  | symbolsIndexed (payload : SymbolsIndexedPayload)
  | artifactChanged (payload : ArtifactChangedPayload)
  | aiChunk (payload : AiChunkPayload)
  | aiFinished (payload : AiFinishedPayload)
deriving DecidableEq, Repr

-- A sink answers one event, given the events it accepted before; an answer is
-- the error it refuses the event with.
abbrev Sink := List EventBody → EventBody → Option PrincessError

def Accepts (sink : Sink) : Prop := ∀ accepted body, sink accepted body = none

def emit (sink : Sink) (body : EventBody) : Action (List EventBody) PrincessError Unit := do
  match sink (← get) body with
  | some e => throw e
  | none => modify (· ++ [body])

-- What a sink's answer comes to.
def settle (body : EventBody) : Option PrincessError → Action (List EventBody) PrincessError Unit
  | some e => throw e
  | none => modify (· ++ [body])

theorem emit_settles (sink : Sink) (body : EventBody) (events : List EventBody) :
    (emit sink body).run events = (settle body (sink events body)).run events := by
  rw [emit,run_get]
  cases sink events body <;> rfl

-- A sink that takes everything only collects.
theorem emit_accepts (accepts : Accepts sink) (body : EventBody) : emit sink body = modify (· ++ [body]) := by
  funext events
  have settled := emit_settles sink body events
  rwa [accepts events body] at settled

theorem emit_run (accepts : Accepts sink) (body : EventBody) (events : List EventBody) :
    (emit sink body).run events = .ok () (events ++ [body]) := by
  rw [emit_accepts accepts]
  rfl

def log (sink : Sink) (stream : LogStream) (chunk : Text) : Action (List EventBody) PrincessError Unit :=
  emit sink (.logAppend ⟨stream,chunk,.utf8⟩)

def note (sink : Sink) (text : Text) : Action (List EventBody) PrincessError Unit :=
  log sink .ide (if text.getLast? = some '\n' then text else text ++ ['\n'])

theorem emit_sure (accepts : Accepts sink) (body : EventBody) : Sure (emit sink body) :=
  fun events => ⟨(),by rw [answer,emit_run accepts]⟩

theorem note_sure (accepts : Accepts sink) (text : Text) : Sure (note sink text) := emit_sure accepts _

theorem emit_sent (done : (emit sink body).run events = .ok a ended) : ended = events ++ [body] := by
  rw [emit_settles] at done
  cases answered : sink events body with
  | some e => rw [answered] at done; cases done
  | none => rw [answered] at done; cases done; rfl

def faultsOf (events : List EventBody) : List RunFaultPayload := events.filterMap fun
  | .runFault payload => some payload
  | _ => none

theorem faultsOf_append (a b : List EventBody) : faultsOf (a++b) = faultsOf a ++ faultsOf b := List.filterMap_append

end PrincessIDE.Event
