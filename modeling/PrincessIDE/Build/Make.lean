import PrincessIDE.Build.Plan
import PrincessIDE.Run.Launch

namespace PrincessIDE.BuildBackend
open Utf8 (Text)
open Str Error Event Effect Diagnostics
open BuildProcess (StdioChunk CommandOutput)
open RunBackend (quotedOption signedText)

def defaultDatabase (dir : Text) : Text := Path.join dir "compile_commands.json".toList

-- `project.compile_commands`, or the default in the build directory.
def database (project : ResolvedProject) : Text := project.compileCommands.getD (defaultDatabase project.buildCwd)

-- `ProjectConfig::default().resolve(root)` with the two fields of the plan.
def projectFrom (currentDir : Text) (plan : BuildPlan) (root : Text) : ResolvedProject :=
  let root := Path.normalize (if Path.isAbsolute root then root else Path.join currentDir root)
  ⟨root,plan.cwd,none,[],plan.declaredArtifacts,some (Path.normalize (defaultDatabase root)),none,none,none⟩

namespace MakeBackend
variable (b : MakeBackend) (sys : System)

def streamChunks (chunks : List StdioChunk) : Act Unit := chunks.forM fun chunk => sys.log chunk.text

def collect (plan : BuildPlan) : Act (CommandOutput × List StdioChunk) := do
  let (chunks,result) ← sys.ask (.run plan .fresh)
  let output ← orFail result
  pure (output,chunks)

def noteClean (output : CommandOutput) : Act Unit :=
  if output.success then sys.note "princess: make clean before the compile-db run (D18)\n".toList
  else sys.note ("princess: \x60make clean\x60 did not succeed (no clean goal?); continuing — the " ++
    "web of D18 corruption is handled by overwriting the database\n").toList

def runCleanStep (project : ResolvedProject) : Act Unit := do
  let plan ← b.plan sys project
  let (output,chunks) ← collect sys {plan with argv:=plan.argv++["clean".toList],timeoutMs:=some 60000,declaredArtifacts:=[]}
  noteClean sys output
  streamChunks sys chunks

def bearPlan (project : ResolvedProject) (bear : Text) : Act BuildPlan := do
  let env ← b.buildEnv sys project
  pure ⟨.make,b.toolchain.id,bear :: "--output".toList :: database project :: "--".toList :: b.makeArgv project,
    project.buildCwd,env,[],some b.timeoutMs⟩

def shimScript (buildDir : Text) : Text := Path.join buildDir ".princesside-cc-shim".toList

def generateWithShim (project : ResolvedProject) : Act (Option Text) := do
  let buildDir := project.buildCwd
  let installed ← sys.ask (.installShim ((b.toolchain.pathOf "gcc".toList).getD "gcc".toList) buildDir)
  orFail installed
  b.runCleanStep sys project
  let plan ← b.plan sys project
  let script := shimScript buildDir
  let env := RegisterFile.insert "HOSTCC".toList script (RegisterFile.insert "CC".toList script plan.env)
  let (output,chunks) ← collect sys {plan with env:=env}
  streamChunks sys chunks
  let collected ← sys.ask (.collectShim buildDir)
  let db ← orFail collected
  if db = [] then do
    sys.note "princess: the wrapper shim recorded no compiles; compile_commands.json left untouched\n".toList
    pure none
  else do
    let target := database project
    let written ← sys.ask (.writeDatabase target db)
    orFail written
    sys.note ("princess: wrote ".toList ++ target ++ " from the wrapper shim (".toList ++ decimal db.length ++
      " entries, exit=".toList ++ quotedOption signedText output.exitCode ++ ")\n".toList)
    pure (some target)

def generateWithBear (project : ResolvedProject) (bear : Text) : Act (Option Text) := do
  sys.note ("princess: generating compile_commands.json with ".toList ++ bear ++ " (D8)\n".toList)
  b.runCleanStep sys project
  let plan ← b.bearPlan sys project bear
  let (output,chunks) ← collect sys plan
  streamChunks sys chunks
  if !output.success then do
    sys.note "princess: bear failed; falling back to the D8 wrapper shim\n".toList
    b.generateWithShim sys project
  else do
    let target := database project
    let read ← sys.ask (.bearOutput target project.buildCwd)
    let db ← orFail read
    if db = [] then do
      sys.note ("princess: compile database is empty after a successful producer run; " ++
        "not overwriting the previous file (D18)\n").toList
      pure none
    else do
      let written ← sys.ask (.writeDatabase target db)
      orFail written
      sys.note ("princess: wrote ".toList ++ target ++ " (".toList ++ decimal db.length ++ " entries)\n".toList)
      pure (some target)

def generateDatabase (project : ResolvedProject) : Act (Option Text) := match b.toolchain.pathOf "bear".toList with
  | some bear => b.generateWithBear sys project bear
  | none => do
    sys.note "princess: bear is unavailable; using the D8 wrapper shim for compile_commands.json\n".toList
    b.generateWithShim sys project

end MakeBackend

-- What `execute` lends to the runner's callback: the first failure of the sink
-- is kept.
structure Streaming where
  events : List EventBody
  parser : DiagnosticParser
  diagnostics : List ParsedDiagnostic
  streamError : Option PrincessError

def Streaming.refused (s : Streaming) (e : PrincessError) (events : List EventBody) : Streaming :=
  {s with events:=events,streamError:=s.streamError.or (some e)}

-- A diagnostic that the sink refuses ends the callback.
def emitProduced (sink : Sink) (s : Streaming) : List ParsedDiagnostic → Streaming
  | [] => s
  | d :: rest => match (Event.emit sink (.buildDiagnostic d.toPayload)).run s.events with
    | .error e events => s.refused e events
    | .ok _ events => emitProduced sink {s with events:=events,diagnostics:=s.diagnostics++[d]} rest

def onChunk (sink : Sink) (s : Streaming) (chunk : StdioChunk) : Streaming :=
  match (Event.log sink .build chunk.text).run s.events with
  | .error e events => s.refused e events
  | .ok _ events =>
    let (produced,parser) := s.parser.feedText chunk.text
    emitProduced sink {s with events:=events,parser:=parser} produced

def statusOf (command : CommandOutput) : BuildStatus :=
  if command.cancelled then .cancelled else if command.success then .ok else .failed

def failureSummary (plan : BuildPlan) (command : CommandOutput) (diagnostics : List ParsedDiagnostic) : Text :=
  if command.timedOut then
    "princess: build timed out after ".toList ++ decimal (plan.timeoutMs.getD 0) ++ " ms and the process group was killed\n".toList
  else if command.cancelled then "princess: build cancelled by the user; the process group was killed\n".toList
  else "princess: build failed (exit=".toList ++ quotedOption signedText command.exitCode ++ ", signal=".toList ++
    quotedOption signedText command.signal ++ ") with ".toList ++
    decimal (diagnostics.countP (·.severity = .error)) ++ " error diagnostic(s)\n".toList

namespace MakeBackend
variable (b : MakeBackend) (sys : System)

def familyFor (plan : BuildPlan) : ToolFamily := match plan.argv.head? with
  | some program => .forProgram program
  | none => .unknown

def parserFor (plan : BuildPlan) : DiagnosticParser := (DiagnosticParser.new plan.cwd).withFamily (familyFor plan)

def reportTail (command : CommandOutput) (diagnostics : List ParsedDiagnostic) : Act Unit :=
  let tail := (((lines command.combinedTail).reverse.take 15).reverse).flatMap (· ++ ['\n'])
  if diagnostics = [] && !command.timedOut && trim tail ≠ [] then do
    sys.note "princess: last output lines:\n".toList
    sys.log tail
  else pure ()

def reportFailure (plan : BuildPlan) (command : CommandOutput) (diagnostics : List ParsedDiagnostic) : Act Unit := do
  sys.note (failureSummary plan command diagnostics)
  reportTail sys command diagnostics

def failureStep (plan : BuildPlan) (command : CommandOutput) (diagnostics : List ParsedDiagnostic) : Act Unit :=
  if statusOf command = .ok then pure () else reportFailure sys plan command diagnostics

-- A database that could not be made does not fail the build.
def databaseStep (plan : BuildPlan) (root : Text) (status : BuildStatus) : Act (Option Text) :=
  if status = .ok && b.generateCompileCommands then do
    let generated ← caught (b.generateDatabase sys (projectFrom sys.currentDir plan root))
    match generated with
    | .ok path => pure path
    | .error e => do
      sys.note ("princess: compile_commands.json generation failed (".toList ++ e.display ++ "); the build is still ok\n".toList)
      pure none
  else pure none

def noteNoArtifact (artifacts : List Artifact) : Act Unit :=
  if artifacts = [] then sys.note ("princess: the build succeeded but no artifact was discovered; " ++
    "check [build] artifacts or the project's output directory\n").toList
  else pure ()

def artifactStep (plan : BuildPlan) (root : Text) (status : BuildStatus) : Act (List Artifact) :=
  if status = .ok then do
    let project := projectFrom sys.currentDir plan root
    let artifacts ← sys.ask (.discover project.root project.declaredArtifacts)
    artifacts.forM fun artifact => sys.emit (.artifactChanged ⟨artifact.path,artifact.kind⟩)
    noteNoArtifact sys artifacts
    pure artifacts
  else pure []

-- Behind a command that the runner reports on.
def conclude (plan : BuildPlan) (root : Text) (streamed : List ParsedDiagnostic) (command : CommandOutput) : Act BuildFinishedPayload := do
  let fromTail := ((parserFor plan).feedTextDedup command.combinedTail).1
  let diagnostics := dedup (streamed ++ fromTail)
  failureStep sys plan command diagnostics
  let status := statusOf command
  let compileCommands ← b.databaseStep sys plan root status
  let artifacts ← artifactStep sys plan root status
  let durationMs ← sys.ask .elapsedMs
  let payload : BuildFinishedPayload := ⟨status,command.exitCode,durationMs,artifacts⟩
  sys.emit (.buildFinished payload)
  modify fun s => {s with lastCompileCommands:=compileCommands}
  pure payload

def rootOf (plan : BuildPlan) : Text := if b.artifactRoot = [] then plan.cwd else b.artifactRoot

def execute (plan : BuildPlan) : Act BuildFinishedPayload := do
  sys.emit (.buildStarted plan.startedEvent)
  let (chunks,result) ← sys.ask (.run plan .callers)
  let site ← get
  let streaming := chunks.foldl (onChunk sys.sink) ⟨site.events,parserFor plan,[],none⟩
  set {site with events:=streaming.events}
  match streaming.streamError with
  | some e => throw e
  | none => do
    let command ← orFail result
    b.conclude sys plan (b.rootOf plan) streaming.diagnostics command

end MakeBackend

end PrincessIDE.BuildBackend
