import PrincessIDE.Build.Make

namespace PrincessIDE.BuildBackend
open Utf8 (Text)
open Str Error Event Effect Diagnostics
open BuildProcess (StdioChunk StdioStream CommandOutput)

namespace Javac

def buildDir (cwd : Text) : Text := Path.join cwd "build".toList

def parseDiagnostics (stderr cwd : Text) : List ParsedDiagnostic :=
  let (produced,parser) := ((DiagnosticParser.new cwd).withFamily .gcc).feedLines (lines stderr)
  dedup (produced ++ parser.flush.1.toList)

def stderrText (chunks : List StdioChunk) : Text := (chunks.filter (·.stream = .stderr)).flatMap StdioChunk.text

-- A cancelled compilation is reported as a failed one.
def statusOf (output : CommandOutput) : BuildStatus := if output.success then .ok else .failed

variable (sys : System)

-- Behind a compiler that the runner reports on.
def conclude (plan : BuildPlan) (chunks : List StdioChunk) (output : CommandOutput) : Act BuildFinishedPayload := do
  MakeBackend.streamChunks sys chunks
  (parseDiagnostics (stderrText chunks) plan.cwd).forM fun d => sys.emit (.buildDiagnostic d.toPayload)
  let artifacts ← sys.ask (.classFiles (buildDir plan.cwd))
  artifacts.forM fun artifact => sys.emit (.artifactChanged ⟨artifact.path,artifact.kind⟩)
  let durationMs ← sys.ask .elapsedMs
  let finished : BuildFinishedPayload := ⟨statusOf output,output.exitCode,durationMs,artifacts⟩
  sys.emit (.buildFinished finished)
  pure finished

def execute (plan : BuildPlan) : Act BuildFinishedPayload := do
  sys.emit (.buildStarted plan.startedEvent)
  let created ← sys.ask (.createDirAll (buildDir plan.cwd))
  orFail created
  let (chunks,result) ← sys.ask (.run plan .callers)
  let output ← orFail result
  conclude sys plan chunks output

end Javac

end PrincessIDE.BuildBackend
