import PrincessIDE.Core.Event
import PrincessIDE.Core.Serde

namespace PrincessIDE.Event
open Utf8 Str PrincessIDE.Stream Error Serde

-- The wire texts of the enumerations.
def LogStream.asStr : LogStream → Text
  | .build => "build".toList
  | .serialCom1 => "serial.com1".toList
  | .qemuMonitor => "qemu.monitor".toList
  | .gdbConsole => "gdb.console".toList
  | .ide => "ide".toList

def DiagnosticSeverity.asStr : DiagnosticSeverity → Text
  | .error => "error".toList
  | .warning => "warning".toList
  | .note => "note".toList

def DiagnosticSource.asStr : DiagnosticSource → Text
  | .clang => "clang".toList
  | .gcc => "gcc".toList
  | .ld => "ld".toList
  | .nasm => "nasm".toList

def BuildStatus.asStr : BuildStatus → Text
  | .ok => "ok".toList
  | .failed => "failed".toList
  | .cancelled => "cancelled".toList

def ArtifactKind.asStr : ArtifactKind → Text
  | .elf => "elf".toList
  | .iso => "iso".toList
  | .image => "image".toList
  | .object => "object".toList
  | .archive => "archive".toList
  | .other => "other".toList

def StopReason.asStr : StopReason → Text
  | .breakpoint => "breakpoint".toList
  | .step => "step".toList
  | .signal => "signal".toList
  | .entry => "entry".toList

def DebugOutputCategory.asStr : DebugOutputCategory → Text
  | .console => "console".toList
  | .stdout => "stdout".toList
  | .stderr => "stderr".toList

namespace Wire

def u32 : Codec Nat := .unsigned (2^32)
def u64 : Codec Nat := .unsigned (2^64)
def i32 : Codec Int := .signed (2^31)
def i64 : Codec Int := .signed (2^63)

def logStream : Codec LogStream :=
  .named [.build,.serialCom1,.qemuMonitor,.gdbConsole,.ide] LogStream.asStr (by intro a; cases a <;> rfl)

def textEncoding : Codec TextEncoding := .named [.utf8,.utf8Lossy] TextEncoding.asStr (by intro a; cases a <;> rfl)

def diagnosticSeverity : Codec DiagnosticSeverity :=
  .named [.error,.warning,.note] DiagnosticSeverity.asStr (by intro a; cases a <;> rfl)

def diagnosticSource : Codec DiagnosticSource :=
  .named [.clang,.gcc,.ld,.nasm] DiagnosticSource.asStr (by intro a; cases a <;> rfl)

def buildStatus : Codec BuildStatus := .named [.ok,.failed,.cancelled] BuildStatus.asStr (by intro a; cases a <;> rfl)

def exitReason : Codec ExitReason :=
  .named [.guestShutdown,.tripleFault,.timeout,.killed] ExitReason.asStr (by intro a; cases a <;> rfl)

def artifactKind : Codec ArtifactKind :=
  .named [.elf,.iso,.image,.object,.archive,.other] ArtifactKind.asStr (by intro a; cases a <;> rfl)

def stopReason : Codec StopReason := .named [.breakpoint,.step,.signal,.entry] StopReason.asStr (by intro a; cases a <;> rfl)

def debugOutputCategory : Codec DebugOutputCategory :=
  .named [.console,.stdout,.stderr] DebugOutputCategory.asStr (by intro a; cases a <;> rfl)

-- A map is written in the order of its keys and read row by row.
def readRegisters (regs : RegisterFile) : List (Text × Json) → Option RegisterFile
  | [] => some regs
  | (name,v) :: rest => do
    let value ← v.asStr
    readRegisters (regs.insert name value) rest

theorem insert_last {regs : RegisterFile} (above : ∀ row ∈ regs, row.1 < name) (value : Text) :
    regs.insert name value = regs ++ [(name,value)] := by
  induction regs with
  | nil => rfl
  | cons row rest ih =>
    have first := above row List.mem_cons_self
    have differs : name ≠ row.1 := fun same => List.lt_irrefl _ (same ▸ first)
    have after : ¬ name < row.1 := List.lt_asymm first
    rw [RegisterFile.insert,if_neg differs,if_neg after,ih fun other member => above other (List.mem_cons_of_mem row member)]
    rfl

theorem readRegisters_sorted (front rest : RegisterFile) (sorted : ((front++rest).map Prod.fst).Pairwise (· < ·)) :
    readRegisters front (rest.map fun row => (row.1,.str row.2)) = some (front++rest) := by
  induction rest generalizing front with
  | nil => simp [readRegisters]
  | cons row rest ih =>
    have above : ∀ other ∈ front, other.1 < row.1 := by
      intro other member
      simp only [List.map_append,List.pairwise_append] at sorted
      exact sorted.2.2 other.1 (List.mem_map_of_mem member) row.1 (by simp)
    have later := ih (front++[row]) (by simpa using sorted)
    rw [List.append_assoc] at later
    change readRegisters (front.insert row.1 row.2) _ = _
    rw [insert_last above]
    exact later

def registerFile : Codec RegisterFile where
  write regs := .obj (regs.map fun row => (row.1,.str row.2))
  read
    | .obj rows => readRegisters [] rows
    | _ => none
  Fits regs := (regs.map Prod.fst).Pairwise (· < ·)
  faithful regs sorted := readRegisters_sorted [] regs sorted

theorem text_solid (t : Text) : Codec.text.write t ≠ .null := Json.noConfusion
theorem unsigned_solid (n : Nat) : (Codec.unsigned bound).write n ≠ .null := Json.noConfusion
theorem signed_solid (i : Int) : (Codec.signed bound).write i ≠ .null := Json.noConfusion

def sourceLocation : Codec SourceLocation := .record
  (.cons "file" (.required .text) <| .cons "line" (.required u32) <| .cons "column" (.skipped u32 unsigned_solid) .nil)
  (by decide) (fun (file,line,column,_) => ⟨file,line,column⟩) (fun p => (p.file,p.line,p.column,())) (fun _ => rfl)

def symbolicatedLocation : Codec SymbolicatedLocation := .record
  (.cons "symbol" (.required .text) <| .cons "file" (.required .text) <| .cons "line" (.required u32) .nil)
  (by decide) (fun (symbol,file,line,_) => ⟨symbol,file,line⟩) (fun p => (p.symbol,p.file,p.line,())) (fun _ => rfl)

def stackFrame : Codec StackFrame := .record
  (.cons "id" (.required u64) <| .cons "name" (.required .text) <|
    .cons "source" (.skipped sourceLocation (fun _ => Json.noConfusion)) <| .cons "instructionPointer" (.required .text) .nil)
  (by decide) (fun (id,name,source,pointer,_) => ⟨id,name,source,pointer⟩)
  (fun p => (p.id,p.name,p.source,p.instructionPointer,())) (fun _ => rfl)

def artifact : Codec Artifact := .record
  (.cons "path" (.required .text) <| .cons "kind" (.required artifactKind) <| .cons "size" (.required u64) <|
    .cons "sha256" (.required .text) .nil)
  (by decide) (fun (path,kind,size,sha256,_) => ⟨path,kind,size,sha256⟩)
  (fun p => (p.path,p.kind,p.size,p.sha256,())) (fun _ => rfl)

def aiUsage : Codec AiUsage := .record
  (.cons "promptTokens" (.defaulted u64 0) <| .cons "completionTokens" (.defaulted u64 0) <|
    .cons "totalTokens" (.defaulted u64 0) .nil)
  (by decide) (fun (prompt,completion,total,_) => ⟨prompt,completion,total⟩)
  (fun p => (p.promptTokens,p.completionTokens,p.totalTokens,())) (fun _ => rfl)

def logAppend : Codec LogAppendPayload := .record
  (.cons "stream" (.required logStream) <| .cons "chunk" (.required .text) <| .cons "encoding" (.required textEncoding) .nil)
  (by decide) (fun (stream,chunk,encoding,_) => ⟨stream,chunk,encoding⟩)
  (fun p => (p.stream,p.chunk,p.encoding,())) (fun _ => rfl)

def buildStarted : Codec BuildStartedPayload := .record
  (.cons "backend" (.required .text) <| .cons "toolchainId" (.required .text) <|
    .cons "argv" (.required (.list .text)) <| .cons "cwd" (.required .text) .nil)
  (by decide) (fun (backend,toolchainId,argv,cwd,_) => ⟨backend,toolchainId,argv,cwd⟩)
  (fun p => (p.backend,p.toolchainId,p.argv,p.cwd,())) (fun _ => rfl)

def buildDiagnostic : Codec BuildDiagnosticPayload := .record
  (.cons "severity" (.required diagnosticSeverity) <| .cons "file" (.skipped .text text_solid) <|
    .cons "line" (.skipped u32 unsigned_solid) <| .cons "col" (.skipped u32 unsigned_solid) <|
    .cons "message" (.required .text) <| .cons "source" (.required diagnosticSource) .nil)
  (by decide) (fun (severity,file,line,col,message,source,_) => ⟨severity,file,line,col,message,source⟩)
  (fun p => (p.severity,p.file,p.line,p.col,p.message,p.source,())) (fun _ => rfl)

def buildFinished : Codec BuildFinishedPayload := .record
  (.cons "status" (.required buildStatus) <| .cons "exitCode" (.nullable i32 signed_solid) <|
    .cons "durationMs" (.required u64) <| .cons "artifacts" (.required (.list artifact)) .nil)
  (by decide) (fun (status,exitCode,durationMs,artifacts,_) => ⟨status,exitCode,durationMs,artifacts⟩)
  (fun p => (p.status,p.exitCode,p.durationMs,p.artifacts,())) (fun _ => rfl)

def runStarted : Codec RunStartedPayload := .record
  (.cons "qemuArgv" (.required (.list .text)) <| .cons "gdbStub" (.nullable .text text_solid) .nil)
  (by decide) (fun (qemuArgv,gdbStub,_) => ⟨qemuArgv,gdbStub⟩) (fun p => (p.qemuArgv,p.gdbStub,())) (fun _ => rfl)

def runFault : Codec RunFaultPayload := .record
  (.cons "vector" (.required .text) <| .cons "rip" (.required u64) <| .cons "ripText" (.required .text) <|
    .cons "errorCode" (.required u64) <| .cons "regs" (.defaulted registerFile []) <|
    .cons "symbolicated" (.skipped symbolicatedLocation (fun _ => Json.noConfusion)) .nil)
  (by decide) (fun (vector,rip,ripText,errorCode,regs,symbolicated,_) => ⟨vector,rip,ripText,errorCode,regs,symbolicated⟩)
  (fun p => (p.vector,p.rip,p.ripText,p.errorCode,p.regs,p.symbolicated,())) (fun _ => rfl)

def runExited : Codec RunExitedPayload := .record
  (.cons "exitCode" (.nullable i32 signed_solid) <| .cons "reason" (.required exitReason) <| .cons "uptimeMs" (.required u64) .nil)
  (by decide) (fun (exitCode,reason,uptimeMs,_) => ⟨exitCode,reason,uptimeMs⟩)
  (fun p => (p.exitCode,p.reason,p.uptimeMs,())) (fun _ => rfl)

def debugStopped : Codec DebugStoppedPayload := .record
  (.cons "reason" (.required stopReason) <| .cons "threadId" (.required i64) <| .cons "frame" (.required stackFrame) <|
    .cons "regs" (.defaulted registerFile []) .nil)
  (by decide) (fun (reason,threadId,frame,regs,_) => ⟨reason,threadId,frame,regs⟩)
  (fun p => (p.reason,p.threadId,p.frame,p.regs,())) (fun _ => rfl)

def debugBreakpointChanged : Codec DebugBreakpointChangedPayload := .record
  (.cons "id" (.required .text) <| .cons "verified" (.required .bool) <|
    .cons "location" (.skipped sourceLocation (fun _ => Json.noConfusion)) .nil)
  (by decide) (fun (id,verified,location,_) => ⟨id,verified,location⟩)
  (fun p => (p.id,p.verified,p.location,())) (fun _ => rfl)

def debugOutput : Codec DebugOutputPayload := .record
  (.cons "category" (.required debugOutputCategory) <| .cons "text" (.required .text) .nil)
  (by decide) (fun (category,text,_) => ⟨category,text⟩) (fun p => (p.category,p.text,())) (fun _ => rfl)

def symbolsIndexed : Codec SymbolsIndexedPayload := .record
  (.cons "artifact" (.required .text) <| .cons "buildId" (.nullable .text text_solid) <|
    .cons "symbolCount" (.required u64) .nil)
  (by decide) (fun (artifact,buildId,symbolCount,_) => ⟨artifact,buildId,symbolCount⟩)
  (fun p => (p.artifact,p.buildId,p.symbolCount,())) (fun _ => rfl)

def artifactChanged : Codec ArtifactChangedPayload := .record
  (.cons "path" (.required .text) <| .cons "kind" (.required artifactKind) .nil)
  (by decide) (fun (path,kind,_) => ⟨path,kind⟩) (fun p => (p.path,p.kind,())) (fun _ => rfl)

def aiChunk : Codec AiChunkPayload := .record
  (.cons "requestId" (.required .text) <| .cons "text" (.required .text) .nil)
  (by decide) (fun (requestId,text,_) => ⟨requestId,text⟩) (fun p => (p.requestId,p.text,())) (fun _ => rfl)

def aiFinished : Codec AiFinishedPayload := .record
  (.cons "requestId" (.required .text) <| .cons "usage" (.required aiUsage) .nil)
  (by decide) (fun (requestId,usage,_) => ⟨requestId,usage⟩) (fun p => (p.requestId,p.usage,())) (fun _ => rfl)

end Wire

inductive EventKind where
  | logAppend
  | buildStarted
  | buildDiagnostic
  | buildFinished
  | runStarted
  | runFault
  | runExited
  | debugStopped
  | debugBreakpointChanged
  | debugOutput
  | symbolsIndexed
  | artifactChanged
  | aiChunk
  | aiFinished
deriving DecidableEq, Repr

namespace EventKind

def asStr : EventKind → Text
  | logAppend => "log.append".toList
  | buildStarted => "build.started".toList
  | buildDiagnostic => "build.diagnostic".toList
  | buildFinished => "build.finished".toList
  | runStarted => "run.started".toList
  | runFault => "run.fault".toList
  | runExited => "run.exited".toList
  | debugStopped => "debug.stopped".toList
  | debugBreakpointChanged => "debug.breakpoint.changed".toList
  | debugOutput => "debug.output".toList
  | symbolsIndexed => "symbols.indexed".toList
  | artifactChanged => "artifact.changed".toList
  | aiChunk => "ai.chunk".toList
  | aiFinished => "ai.finished".toList

def all : List EventKind :=
  [logAppend,buildStarted,buildDiagnostic,buildFinished,runStarted,runFault,runExited,debugStopped,
    debugBreakpointChanged,debugOutput,symbolsIndexed,artifactChanged,aiChunk,aiFinished]

end EventKind

namespace EventBody
open Wire

def kind : EventBody → EventKind
  | logAppend _ => .logAppend
  | buildStarted _ => .buildStarted
  | buildDiagnostic _ => .buildDiagnostic
  | buildFinished _ => .buildFinished
  | runStarted _ => .runStarted
  | runFault _ => .runFault
  | runExited _ => .runExited
  | debugStopped _ => .debugStopped
  | debugBreakpointChanged _ => .debugBreakpointChanged
  | debugOutput _ => .debugOutput
  | symbolsIndexed _ => .symbolsIndexed
  | artifactChanged _ => .artifactChanged
  | aiChunk _ => .aiChunk
  | aiFinished _ => .aiFinished

def payload : EventBody → Json
  | logAppend p => Wire.logAppend.write p
  | buildStarted p => Wire.buildStarted.write p
  | buildDiagnostic p => Wire.buildDiagnostic.write p
  | buildFinished p => Wire.buildFinished.write p
  | runStarted p => Wire.runStarted.write p
  | runFault p => Wire.runFault.write p
  | runExited p => Wire.runExited.write p
  | debugStopped p => Wire.debugStopped.write p
  | debugBreakpointChanged p => Wire.debugBreakpointChanged.write p
  | debugOutput p => Wire.debugOutput.write p
  | symbolsIndexed p => Wire.symbolsIndexed.write p
  | artifactChanged p => Wire.artifactChanged.write p
  | aiChunk p => Wire.aiChunk.write p
  | aiFinished p => Wire.aiFinished.write p

-- The integers of a body are in the range of their types and its maps sorted.
def Fits : EventBody → Prop
  | logAppend p => Wire.logAppend.Fits p
  | buildStarted p => Wire.buildStarted.Fits p
  | buildDiagnostic p => Wire.buildDiagnostic.Fits p
  | buildFinished p => Wire.buildFinished.Fits p
  | runStarted p => Wire.runStarted.Fits p
  | runFault p => Wire.runFault.Fits p
  | runExited p => Wire.runExited.Fits p
  | debugStopped p => Wire.debugStopped.Fits p
  | debugBreakpointChanged p => Wire.debugBreakpointChanged.Fits p
  | debugOutput p => Wire.debugOutput.Fits p
  | symbolsIndexed p => Wire.symbolsIndexed.Fits p
  | artifactChanged p => Wire.artifactChanged.Fits p
  | aiChunk p => Wire.aiChunk.Fits p
  | aiFinished p => Wire.aiFinished.Fits p

end EventBody

def decodePayload (value : Json) : EventKind → Option EventBody
  | .logAppend => (Wire.logAppend.read value).map .logAppend
  | .buildStarted => (Wire.buildStarted.read value).map .buildStarted
  | .buildDiagnostic => (Wire.buildDiagnostic.read value).map .buildDiagnostic
  | .buildFinished => (Wire.buildFinished.read value).map .buildFinished
  | .runStarted => (Wire.runStarted.read value).map .runStarted
  | .runFault => (Wire.runFault.read value).map .runFault
  | .runExited => (Wire.runExited.read value).map .runExited
  | .debugStopped => (Wire.debugStopped.read value).map .debugStopped
  | .debugBreakpointChanged => (Wire.debugBreakpointChanged.read value).map .debugBreakpointChanged
  | .debugOutput => (Wire.debugOutput.read value).map .debugOutput
  | .symbolsIndexed => (Wire.symbolsIndexed.read value).map .symbolsIndexed
  | .artifactChanged => (Wire.artifactChanged.read value).map .artifactChanged
  | .aiChunk => (Wire.aiChunk.read value).map .aiChunk
  | .aiFinished => (Wire.aiFinished.read value).map .aiFinished

theorem decodePayload_payload (body : EventBody) (fits : body.Fits) : decodePayload body.payload body.kind = some body := by
  cases body with
  | logAppend p | buildStarted p | buildDiagnostic p | buildFinished p | runStarted p | runFault p | runExited p
  | debugStopped p | debugBreakpointChanged p | debugOutput p | symbolsIndexed p | artifactChanged p | aiChunk p
  | aiFinished p =>
    have back := Codec.faithful _ p fits
    simp only [decodePayload,EventBody.payload,EventBody.kind,back,Option.map_some]

end PrincessIDE.Event
