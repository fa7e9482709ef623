import PrincessIDE.Build.Artifacts
import PrincessIDE.Cli.Diagnostics
import PrincessIDE.Cli.Run
import PrincessIDE.Core.Wire

namespace PrincessIDE.CliBuild
open Utf8 (Text Bytes)
open Str Error Event Effect PrincessIDE.Stream Loop CliDiagnostics
open Process (ExitStatus SpawnFailure)
open BuildProcess (StdioStream)
open CliRun (Killing Child killGroupAndWait taken)
open Artifacts (Place Disk)

-- In nanoseconds, as are the instants.
def drainGrace : Nat := 3000000000
def outputTailLimit : Nat := 8192

structure BuildPlan where
  backend : Text
  toolchainId : Text
  argv : List Text
  cwd : Text
  timeoutMs : Option Nat
deriving DecidableEq, Repr

def BuildPlan.startedEvent (p : BuildPlan) : BuildStartedPayload := ⟨p.backend,p.toolchainId,p.argv,p.cwd⟩

def BuildPlan.defaultSource (p : BuildPlan) : DiagnosticSource :=
  if contains "clang".toList (p.argv.headD []) then .clang else .gcc

-- A future of the `select!`, with what it completes with.
inductive Arm where
  | read (which : StdioStream) (read : Except Text Bytes)
  | waited (answer : Except Text ExitStatus)
  | idle
  | deadline

-- What one iteration of the loop is answered: the clock, the futures in the
-- order in which they complete, the process group, and the cancel token.
structure Tick where
  now : Nat
  ready : List Arm
  killing : Killing
  cancelled : Bool
  cancelKilling : Killing
  exitedAt : Nat

structure Watch where
  timedOut : Bool
  status : Option ExitStatus
  exitAt : Option Nat
  outOpen : Bool
  errOpen : Bool
  deadline : Bool
deriving DecidableEq, Repr

structure Output where
  events : List EventBody
  out : Utf8Chunker
  err : Utf8Chunker
  diagnostics : List BuildDiagnosticPayload
  tail : Text
deriving DecidableEq, Repr

structure Running where
  watch : Watch
  output : Output
deriving DecidableEq, Repr

-- Everything a build is answered.
structure World where
  sink : Sink
  opId : Option Text
  planned : Except PrincessError BuildPlan
  spawned : Except (SpawnFailure × Text) Child
  ticks : List Tick
  reaped : Except Text ExitStatus
  durationMs : Nat
  -- the cancel token, at its two readings behind the loop
  cancelled : Bool
  cancelledAfter : Bool
  root : Place
  declared : List Place
  disk : Disk
  -- the build id and the symbol count of an image that can be read
  indexed : Text → Option (Option Text × Nat)

structure Plan where
  build : BuildPlan
  -- of the options
  timeoutMs : Option Nat
  pgid : Nat
deriving DecidableEq, Repr

structure BuildResult where
  payload : BuildFinishedPayload
  diagnostics : List BuildDiagnosticPayload
  cancelled : Bool
  timedOut : Bool
  outputTail : Text
deriving DecidableEq, Repr

abbrev Printer := Action Output PrincessError
abbrev Runner := Action Running PrincessError

def sending (x : Action (List EventBody) PrincessError Unit) : Printer Unit :=
  zoom Output.events (fun events s => {s with events:=events}) x

def printing (x : Printer α) : Runner α := zoom Running.output (fun output s => {s with output:=output}) x

def watching (f : Watch → Watch) : Runner Unit := modify fun s => {s with watch:=f s.watch}

def Output.chunker (s : Output) : StdioStream → Utf8Chunker
  | .stdout => s.out
  | .stderr => s.err

def Output.put (s : Output) (c : Utf8Chunker) : StdioStream → Output
  | .stdout => {s with out:=c}
  | .stderr => {s with err:=c}

def Watch.isOpen (s : Watch) : StdioStream → Bool
  | .stdout => s.outOpen
  | .stderr => s.errOpen

def Watch.close (s : Watch) : StdioStream → Watch
  | .stdout => {s with outOpen:=false}
  | .stderr => {s with errOpen:=false}

-- The text from the first character that begins at the offset or behind it.
def dropBytes (offset : Nat) : Text → Text
  | [] => []
  | c :: t => if offset = 0 then c :: t else dropBytes (offset - c.utf8Size) t

def keepTail (tail : Text) : Text := dropBytes ((Utf8.encode tail).length - outputTailLimit) tail

def onLine (w : World) (p : Plan) (line : Text) : Printer Unit := match parseLine line p.build.cwd p.build.defaultSource with
  | some diagnostic => do
    sending (emit w.sink (.buildDiagnostic diagnostic))
    modify fun s => {s with diagnostics:=s.diagnostics++[diagnostic]}
  | none => pure ()

def handleChunk (w : World) (p : Plan) (chunk : Chunk) : Printer Unit := do
  sending (emit w.sink (.logAppend ⟨.build,chunk.1,chunk.2⟩))
  modify fun s => {s with tail:=keepTail (s.tail++chunk.1)}
  (lines chunk.1).forM (onLine w p)

def flushChunker (w : World) (p : Plan) (which : StdioStream) (linesOnly : Bool) : Printer Unit := do
  let flushed := taken linesOnly ((← get).chunker which)
  modify fun s => s.put flushed.2 which
  flushed.1.forM (handleChunk w p)

def enabled (s : Watch) : Arm → Bool
  | .read which _ => s.isOpen which
  | .waited _ => s.status.isNone
  | .idle => true
  | .deadline => s.deadline

-- The idle interval runs out when nothing else completes.
def armOf (s : Watch) (t : Tick) : Arm := (t.ready.find? (enabled s)).getD .idle

def pipeName : StdioStream → Text
  | .stdout => "stdout".toList
  | .stderr => "stderr".toList

def deadlineNote (p : Plan) : Text := "build exceeded its ".toList ++ decimal ((p.build.timeoutMs.or p.timeoutMs).getD 0) ++
  " ms deadline; killing process group ".toList ++ decimal p.pgid

def cancelNote (p : Plan) : Text := "build cancelled; killing process group ".toList ++ decimal p.pgid

def kill (p : Plan) (killing : Killing) : Runner Unit := MonadExcept.ofExcept (killGroupAndWait p.pgid killing)

def onArm (w : World) (p : Plan) (t : Tick) : Arm → Runner Unit
  | .read which (.ok []) => do
    watching fun s => s.close which
    printing (flushChunker w p which false)
  | .read which (.ok bytes) => printing do
    modify fun s => s.put ((s.chunker which).push bytes) which
    flushChunker w p which true
  | .read which (.error err) => do
    watching fun s => s.close which
    printing (sending (note w.sink ("build ".toList ++ pipeName which ++ " read error: ".toList ++ err)))
  | .waited (.ok status) => watching fun s => {s with status:=some status,exitAt:=some t.exitedAt}
  | .waited (.error err) => throw (.internal ("cannot wait for the build: ".toList ++ err))
  | .idle => printing do
    flushChunker w p .stdout false
    flushChunker w p .stderr false
  | .deadline => do
    watching fun s => {s with timedOut:=true}
    printing (sending (note w.sink (deadlineNote p)))
    kill p t.killing
    watching fun s => {s with deadline:=false}

-- The loop is left when the token is found set.
def heed (w : World) (p : Plan) (t : Tick) : Runner Bool :=
  if t.cancelled then do
    printing (sending (note w.sink (cancelNote p)))
    kill p t.cancelKilling
    pure true
  else pure false

def turn (w : World) (p : Plan) (t : Tick) : Runner Bool := do
  onArm w p t (armOf (← get).watch t)
  heed w p t

inductive Left where
  | broke
  | failed (e : PrincessError)
deriving DecidableEq, Repr

def drained (s : Watch) (t : Tick) : Bool := (s.status.isSome && !s.outOpen && !s.errOpen) ||
  match s.exitAt with
  | some exited => drainGrace < t.now - exited
  | none => false

def iteration (w : World) (p : Plan) (s : Running) (t : Tick) : Turn Running Left :=
  if drained s.watch t then .leave .broke s
  else match (turn w p t).run s with
    | .ok false s => .next s
    | .ok true s => .leave .broke s
    | .error e s => .leave (.failed e) s

def handleRemainder (w : World) (p : Plan) (which : StdioStream) : Printer Unit := do
  match ((← get).chunker which).takeRemainder with
  | some (chunk,next) =>
    modify fun s => s.put next which
    handleChunk w p chunk
  | none => pure ()

def finalDrain (w : World) (p : Plan) : Printer Unit := do
  flushChunker w p .stdout false
  flushChunker w p .stderr false
  handleRemainder w p .stdout
  handleRemainder w p .stderr

def reapLast (w : World) : Runner Unit := do
  if (← get).watch.status.isNone then
    match w.reaped with
    | .error err => throw (.internal ("cannot reap the build: ".toList ++ err))
    | .ok status => watching fun s => {s with status:=some status}

def statusOf (w : World) (s : Watch) : BuildStatus :=
  if w.cancelled then .cancelled
  else if s.timedOut then .failed
  else if s.status.bind ExitStatus.code = some 0 then .ok
  else .failed

def noteTimeout (w : World) (s : Watch) : Printer Unit :=
  if !w.cancelled && s.timedOut then sending (note w.sink "build ended by timeout: reported as failed".toList) else pure ()

def noteMissing (w : World) (path : Place) : Printer Unit := if w.disk.isFile path then pure () else
  sending (note w.sink ("declared artifact ".toList ++ path.toStringLossy ++ " was not produced".toList))

def emitSymbolsIndexed (w : World) (artifact : Artifact) : Printer Unit :=
  if artifact.kind = .elf then match w.indexed artifact.path with
    | some (buildId,symbolCount) => sending (emit w.sink (.symbolsIndexed ⟨artifact.path,buildId,symbolCount⟩))
    | none => pure ()
  else pure ()

def summaryText (w : World) (payload : BuildFinishedPayload) : Text :=
  "build ".toList ++ payload.status.asStr ++ " in ".toList ++ decimal payload.durationMs ++ " ms".toList ++
    (match payload.exitCode with
      | some code => ", exit ".toList ++ RunBackend.signedText code
      | none => []) ++
    " (op ".toList ++ w.opId.getD "op-unknown".toList ++ ")".toList

-- Whatever the status, the artifacts are those of the tree as it stands.
def finished (w : World) (s : Watch) : BuildFinishedPayload :=
  Artifacts.cliFinished w.disk w.root w.declared (statusOf w s) (s.status.bind ExitStatus.code) w.durationMs

def report (w : World) (s : Watch) : Printer BuildResult := do
  noteTimeout w s
  w.declared.forM (noteMissing w)
  let payload := finished w s
  payload.artifacts.forM fun artifact => sending (emit w.sink (.artifactChanged ⟨artifact.path,artifact.kind⟩))
  payload.artifacts.forM (emitSymbolsIndexed w)
  sending (note w.sink (summaryText w payload))
  sending (emit w.sink (.buildFinished payload))
  let output ← get
  pure ⟨payload,output.diagnostics,w.cancelledAfter,s.timedOut,output.tail⟩

def conclude (w : World) (p : Plan) : Runner BuildResult := do
  printing (finalDrain w p)
  reapLast w
  printing (report w (← get).watch)

def begin (p : Plan) (events : List EventBody) : Running :=
  ⟨⟨false,none,none,true,true,(p.build.timeoutMs.or p.timeoutMs).isSome⟩,⟨events,.new,.new,[],[]⟩⟩

-- No result means that the answers ended while the loop was still going.
def supervise (w : World) (p : Plan) (s : Running) : Option (Except PrincessError BuildResult) × Running :=
  match loop (iteration w p) s w.ticks with
  | (none,s,_) => (none,s)
  | (some (.failed e),s,_) => (some (.error e),s)
  | (some .broke,s,_) => match (conclude w p).run s with
    | .ok result s => (some (.ok result),s)
    | .error e s => (some (.error e),s)

abbrev Teller := Action (List EventBody) PrincessError

def spawnError (plan : BuildPlan) (failure : SpawnFailure) (err : Text) : PrincessError :=
  let code := match failure with
    | .notFound => ErrorCode.toolchainMissing
    | .permissionDenied => .sandboxDenied
    | .other => .internal
  .new code ("cannot execute ".toList ++ plan.argv.headD [] ++ ": ".toList ++ err)

def spawnFailed (w : World) (plan : BuildPlan) (e : PrincessError) : Teller α := do
  note w.sink ("build failed to start: ".toList ++ e.display)
  emit w.sink (.buildFinished ⟨.failed,none,w.durationMs,[]⟩)
  throw (e.withDetail (Qemu.joinWords plan.argv))

def handles (child : Child) : Except PrincessError Nat := match child.id with
  | none => .error (.internal "child has no pid".toList)
  | some pgid =>
    if !child.stdout then .error (.internal "child stdout is not piped".toList)
    else if !child.stderr then .error (.internal "child stderr is not piped".toList)
    else .ok pgid

def returning : Option (Except PrincessError BuildResult) × Running → EStateM.Result PrincessError (List EventBody) (Option BuildResult)
  | (none,s) => .ok none s.output.events
  | (some (.ok result),s) => .ok (some result) s.output.events
  | (some (.error e),s) => .error e s.output.events

def watchChild (w : World) (plan : BuildPlan) (timeoutMs : Option Nat) (child : Child) : Teller (Option BuildResult) := do
  let pgid ← MonadExcept.ofExcept (handles child)
  fun events => returning (supervise w ⟨plan,timeoutMs,pgid⟩ (begin ⟨plan,timeoutMs,pgid⟩ events))

def execute (w : World) (timeoutMs : Option Nat) : Teller (Option BuildResult) := do
  let plan ← MonadExcept.ofExcept w.planned
  emit w.sink (.buildStarted plan.startedEvent)
  match w.spawned with
  | .error (failure,err) => spawnFailed w plan (spawnError plan failure err)
  | .ok child => watchChild w plan timeoutMs child

end PrincessIDE.CliBuild
