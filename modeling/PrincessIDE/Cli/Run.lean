import PrincessIDE.Cli.Serial
import PrincessIDE.Foundation.Path
import PrincessIDE.Run.Qemu

namespace PrincessIDE.CliRun
open Utf8 (Text Bytes lossy fromUtf8)
open Str Error Event Effect PrincessIDE.Stream Loop CliSerial
open Process (ExitStatus KillAnswer SpawnFailure)
open Reader (drainLines)
open Qemu (BootMedium PartitionedArgs joinWords mediumArgs captureArgs)
open RunBackend (GdbStub SerialCapture RunPlan RunOutcome ExitFacts SymbolizeFn classifyExit detectTripleFault hexText
  maxFaultEvents quotedOption signedText)

-- In nanoseconds, as are the instants.
def drainGrace : Nat := 3000000000

structure RunOptions where
  timeoutMs : Option Nat
  cancelAfterMs : Option Nat
  doBuild : Bool
deriving DecidableEq, Repr

-- What the planning of a run reads of a project and its toolchain.
structure Project where
  qemu : Option Text
  qemuDataDir : Option Text
  root : Text
  buildCwd : Text
  args : List Text
  timeoutMs : Nat
  stub : GdbStub
  serial : SerialCapture
deriving DecidableEq, Repr

def engineOwnedFlags : List Text := [
  "-serial","-monitor","-display","-nographic","-d","-D","-cdrom","-boot","-kernel","-no-reboot"].map String.toList

-- A flag goes together with the token behind it, unless that looks like a flag.
def partitionArgs : List Text → PartitionedArgs
  | [] => ⟨[],[]⟩
  | [token] => if engineOwnedFlags.contains token then ⟨[],[token]⟩ else ⟨[token],[]⟩
  | token :: value :: rest =>
    if engineOwnedFlags.contains token then
      if startsWith ['-'] value then (partitionArgs (value::rest)).drop [token]
      else (partitionArgs rest).drop [token,value]
    else (partitionArgs (value::rest)).keep token

def qemuDebugLog (project : Project) : Text :=
  Path.join (Path.join project.root "build".toList) "qemu-debug.log".toList

def dataArgs (project : Project) : List Text := match project.qemuDataDir with
  | some data => ["-L".toList,data]
  | none => []

def planRun (project : Project) (medium : BootMedium) (options : RunOptions) : Except PrincessError RunPlan :=
  match project.qemu with
  | none => .error (.new .toolchainMissing
      "qemu-system-x86_64 was not found on PATH; run \x60bash scripts/bootstrap-toolchain.sh\x60".toList)
  | some qemu => .ok {
      argv:=[qemu] ++ dataArgs project ++ (partitionArgs project.args).kept ++ mediumArgs medium ++ captureArgs (qemuDebugLog project),
      cwd:=project.buildCwd,
      timeoutMs:=options.timeoutMs.getD project.timeoutMs,
      serial:=project.serial,
      gdbStub:=if project.args.contains "-s".toList then some project.stub else none}

-- What the `kill` calls and the scans of one `kill_group_and_wait` answer.
structure Killing where
  term : KillAnswer
  -- whether a running member was found by each of the scans
  alive : Nat → Bool
  kill : KillAnswer

def killGroup (pgid : Nat) (answer : KillAnswer) : Except PrincessError Unit :=
  if pgid = 0 then .error (.internal "refusing to signal process group 0 (would signal this process)".toList)
  else match answer with
    | .delivered => .ok ()
    | .noSuchProcess => .ok ()
    | .failed err => .error (.internal ("cannot signal process group ".toList ++ decimal pgid ++ ": ".toList ++ err))

def killGroupAndWait (pgid : Nat) (k : Killing) : Except PrincessError Unit := do
  killGroup pgid k.term
  if (List.range 20).any (fun i => !k.alive i) then pure ()
  else
    killGroup pgid k.kill
    if (List.range 40).any (fun i => !k.alive (20+i)) then pure ()
    else throw (.internal ("process group ".toList ++ decimal pgid ++ " still has survivors after SIGKILL".toList))

-- A future of the `select!`, with what it completes with.
inductive Arm where
  | serial (read : Except Text Bytes)
  | monitor (read : Except Text Bytes)
  | waited (answer : Except Text ExitStatus)
  | idle
  | deadline
  | cancelAfter

-- What one iteration of the loop is answered: the clock, the futures in the
-- order in which they complete, the serial log, the process group, whether
-- anybody else has set the cancel token by then, and the last `wait`.
structure Tick where
  now : Nat
  ready : List Arm
  written : Except Text Unit
  killing : Killing
  cancelled : Bool
  reaped : Except Text ExitStatus
  reapedAt : Nat

-- The locals that decide how the loop goes on.
structure Watch where
  timedOut : Bool
  cancelled : Bool
  status : Option ExitStatus
  exitAt : Option Nat
  serialOpen : Bool
  monitorOpen : Bool
  deadline : Bool
  cancelDeadline : Bool
  cancelKillDone : Bool
deriving DecidableEq, Repr

-- The locals that what was read goes through.
structure Output where
  events : List EventBody
  serial : Utf8Chunker
  monitor : Utf8Chunker
  file : Option Text
  observer : SerialObserver
  faults : List RunFaultPayload
  monitorText : Text
deriving DecidableEq, Repr

structure Running where
  watch : Watch
  output : Output
deriving DecidableEq, Repr

structure Child where
  id : Option Nat
  stdout : Bool
  stderr : Bool
deriving DecidableEq, Repr

-- Everything a run is answered.
structure World where
  sink : Sink
  -- the events of the build, and whether it succeeded
  built : List EventBody × Except PrincessError Bool
  medium : Except PrincessError BootMedium
  created : Except Text Unit
  spawned : Except (SpawnFailure × Text) Child
  symbols : Option SymbolizeFn
  ticks : List Tick
  -- the serial log, at the two writes behind the loop
  flushed : Except Text Unit
  remainder : Except Text Unit
  reaped : Except Text ExitStatus
  uptimeMs : Nat
  qemuDebug : Option Bytes
  -- whether anybody else has set the cancel token at its two last readings
  cancelled : Bool
  cancelledAfter : Bool

abbrev Printer := Action Output PrincessError
abbrev Runner := Action Running PrincessError

def sending (x : Action (List EventBody) PrincessError Unit) : Printer Unit :=
  zoom Output.events (fun events s => {s with events:=events}) x

def printing (x : Printer α) : Runner α := zoom Running.output (fun output s => {s with output:=output}) x

def watching (f : Watch → Watch) : Runner Unit := modify fun s => {s with watch:=f s.watch}

def faultNote (rip : Nat) : Option SymbolicatedLocation → Text
  | some location => "fault ".toList ++ hexText rip ++ " symbolicated as ".toList ++ location.symbol ++ " at ".toList ++
      location.file ++ ":".toList ++ decimal location.line
  | none => "fault ".toList ++ hexText rip ++ " could not be symbolicated (no debug info covers it)".toList

def reportFault (w : World) (payload : RunFaultPayload) : Printer Unit := do
  if maxFaultEvents ≤ (← get).faults.length then
    sending (note w.sink ("more than ".toList ++ decimal maxFaultEvents ++
      " faults in this run; suppressing further run.fault events".toList))
  else
    sending (emit w.sink (.runFault payload))
    modify fun s => {s with faults:=s.faults++[payload]}

def onFault (w : World) (raw : RawFault) : Printer Unit := do
  let symbolicated := w.symbols.bind (fun lookup => lookup raw.rip)
  sending (note w.sink (faultNote raw.rip symbolicated))
  reportFault w (raw.intoPayload symbolicated)

def onObservation (w : World) : SerialObservation → Printer Unit
  | .banner => sending (note w.sink "guest banner observed on serial.com1".toList)
  | .panicked => sending (note w.sink "guest panic observed on serial.com1".toList)
  | .fault raw => onFault w raw

def onLine (w : World) (line : Text) : Printer Unit := do
  let fed := feed (← get).observer line
  modify fun s => {s with observer:=fed.2}
  fed.1.forM (onObservation w)

def tee (written : Except Text Unit) (text : Text) : Printer Unit := do
  match (← get).file,written with
  | none,_ => pure ()
  | some _,.error err => throw (.internal ("cannot write the serial log: ".toList ++ err))
  | some file,.ok _ => modify fun s => {s with file:=some (file++text)}

def pushSerial (w : World) (written : Except Text Unit) (chunk : Chunk) : Printer Unit := do
  tee written chunk.1
  sending (emit w.sink (.logAppend ⟨.serialCom1,chunk.1,chunk.2⟩))
  (lines chunk.1).forM (onLine w)

-- What a drain takes; behind the last newline no second round finds one.
def taken (linesOnly : Bool) (s : Utf8Chunker) : List Chunk × Utf8Chunker :=
  if linesOnly then drainLines s
  else match s.takeAvailable with
    | some (chunk,next) => ([chunk],next)
    | none => ([],s)

def drainSerial (w : World) (written : Except Text Unit) (linesOnly : Bool) : Printer Unit := do
  let drained := taken linesOnly (← get).serial
  modify fun s => {s with serial:=drained.2}
  drained.1.forM (pushSerial w written)

def monitorChunk (linesOnly : Bool) (s : Utf8Chunker) : Option (Chunk × Utf8Chunker) :=
  if linesOnly then s.takeLines else s.takeAvailable

def drainMonitor (w : World) (linesOnly : Bool) : Printer Unit := do
  match monitorChunk linesOnly (← get).monitor with
  | some (chunk,next) =>
    modify fun s => {s with monitor:=next,monitorText:=s.monitorText++chunk.1}
    sending (emit w.sink (.logAppend ⟨.qemuMonitor,chunk.1,chunk.2⟩))
  | none => pure ()

-- What holds of the whole run beside its answers.
structure Plan where
  run : RunPlan
  cancelAfterMs : Option Nat
  pgid : Nat
deriving DecidableEq, Repr

-- A future whose condition is off is not polled.
def enabled (s : Watch) : Arm → Bool
  | .serial _ => s.serialOpen
  | .monitor _ => s.monitorOpen
  | .waited _ => s.status.isNone
  | .idle => true
  | .deadline => s.deadline
  | .cancelAfter => s.cancelDeadline

-- The idle interval runs out when nothing else completes.
def armOf (s : Watch) (t : Tick) : Arm := (t.ready.find? (enabled s)).getD .idle

def deadlineNote (p : Plan) : Text := "run exceeded its ".toList ++ decimal p.run.timeoutMs ++
  " ms deadline; killing process group ".toList ++ decimal p.pgid

def cancelAfterNote (p : Plan) : Text := "run cancelled after ".toList ++ decimal (p.cancelAfterMs.getD 0) ++
  " ms (--cancel-after-ms); killing process group ".toList ++ decimal p.pgid

def cancelNote (p : Plan) : Text := "run cancelled; killing process group ".toList ++ decimal p.pgid

def kill (p : Plan) (t : Tick) : Runner Unit := MonadExcept.ofExcept (killGroupAndWait p.pgid t.killing)

def onArm (w : World) (p : Plan) (t : Tick) : Arm → Runner Unit
  | .serial (.ok []) => do
    watching fun s => {s with serialOpen:=false}
    printing (drainSerial w t.written false)
  | .serial (.ok bytes) => printing do
    modify fun s => {s with serial:=s.serial.push bytes}
    drainSerial w t.written true
  | .serial (.error err) => do
    watching fun s => {s with serialOpen:=false}
    printing (sending (note w.sink ("serial read error: ".toList ++ err)))
  | .monitor (.ok []) => do
    watching fun s => {s with monitorOpen:=false}
    printing (drainMonitor w false)
  | .monitor (.ok bytes) => printing do
    modify fun s => {s with monitor:=s.monitor.push bytes}
    drainMonitor w true
  | .monitor (.error err) => do
    watching fun s => {s with monitorOpen:=false}
    printing (sending (note w.sink ("qemu stderr read error: ".toList ++ err)))
  | .waited (.ok status) => watching fun s => {s with status:=some status,exitAt:=some t.reapedAt}
  | .waited (.error err) => throw (.new .qemuFailed ("cannot wait for qemu: ".toList ++ err))
  | .idle => printing do
    drainSerial w t.written false
    drainMonitor w false
  | .deadline => do
    watching fun s => {s with deadline:=false,timedOut:=true,cancelKillDone:=true}
    printing (sending (note w.sink (deadlineNote p)))
    kill p t
  | .cancelAfter => do
    watching fun s => {s with cancelDeadline:=false,cancelKillDone:=true}
    printing (sending (note w.sink (cancelAfterNote p)))
    watching fun s => {s with cancelled:=true}
    kill p t

-- A cancel from outside the loop.
def heed (w : World) (p : Plan) (t : Tick) : Runner Unit := do
  watching fun s => {s with cancelled:=s.cancelled || t.cancelled}
  let s := (← get).watch
  if s.cancelled && !s.cancelKillDone && s.status.isNone then
    watching fun s => {s with cancelKillDone:=true}
    printing (sending (note w.sink (cancelNote p)))
    kill p t

def reap (t : Tick) : Runner Unit := do
  let s := (← get).watch
  if s.cancelKillDone && s.status.isNone then
    match t.reaped with
    | .error err => throw (.new .qemuFailed ("cannot reap qemu: ".toList ++ err))
    | .ok status => watching fun s => {s with status:=some status,exitAt:=some t.reapedAt}

def turn (w : World) (p : Plan) (t : Tick) : Runner Unit := do
  onArm w p t (armOf (← get).watch t)
  heed w p t
  reap t

inductive Left where
  | broke
  | failed (e : PrincessError)
deriving DecidableEq, Repr

def drained (s : Watch) (t : Tick) : Bool := (s.status.isSome && !s.serialOpen && !s.monitorOpen) ||
  match s.exitAt with
  | some exited => drainGrace < t.now - exited
  | none => false

def iteration (w : World) (p : Plan) (s : Running) (t : Tick) : Turn Running Left :=
  if drained s.watch t then .leave .broke s
  else match (turn w p t).run s with
    | .ok _ s => .next s
    | .error e s => .leave (.failed e) s

def takeSerialRemainder (w : World) : Printer Unit := do
  match (← get).serial.takeRemainder with
  | some (chunk,next) =>
    modify fun s => {s with serial:=next}
    pushSerial w w.remainder chunk
  | none => pure ()

def takeMonitorRemainder (w : World) : Printer Unit := do
  match (← get).monitor.takeRemainder with
  | some (chunk,next) =>
    modify fun s => {s with monitor:=next}
    sending (emit w.sink (.logAppend ⟨.qemuMonitor,chunk.1,chunk.2⟩))
  | none => pure ()

def finalDrain (w : World) : Printer Unit := do
  drainSerial w w.flushed false
  drainMonitor w false
  takeSerialRemainder w
  takeMonitorRemainder w

def reapLast (w : World) : Runner Unit := do
  if (← get).watch.status.isNone then
    match w.reaped with
    | .error err => throw (.new .qemuFailed ("cannot reap qemu: ".toList ++ err))
    | .ok status => watching fun s => {s with status:=some status}

-- `read_to_string(..).unwrap_or_default()`
def readDebugLog (w : World) : Text := match w.qemuDebug.map fromUtf8 with
  | some (.ok text) => text
  | _ => []

def tripleFault (w : World) (s : Running) : Bool :=
  detectTripleFault (readDebugLog w) || detectTripleFault s.output.monitorText

def facts (w : World) (s : Running) : ExitFacts :=
  let exitCode := s.watch.status.bind ExitStatus.code
  let cancelled := s.watch.cancelled || w.cancelled
  { exitCode:=exitCode,
    signal:=s.watch.status.bind ExitStatus.signal,
    timedOut:=s.watch.timedOut,
    cancelled:=cancelled && !s.watch.timedOut,
    guestPoweredOff:=!s.watch.timedOut && !(cancelled || w.cancelledAfter) && !tripleFault w s && exitCode == some 0,
    tripleFault:=tripleFault w s}

def boolText (b : Bool) : Text := if b then "true".toList else "false".toList

def summaryText (s : Output) : Text :=
  "serial: banner_seen=".toList ++ boolText s.observer.bannerSeen ++ " panic_seen=".toList ++ boolText s.observer.panicSeen ++
    " faults=".toList ++ decimal s.faults.length ++
    match s.observer.fault with
    | some fault => " last_fault=".toList ++ fault.ripText ++ " ".toList ++ fault.vector
    | none => []

def endedText (plan : RunPlan) (o : RunOutcome) : Text :=
  "run ended: reason=".toList ++ o.reason.asStr ++ ", exit=".toList ++ quotedOption signedText o.exitCode ++
    ", uptime=".toList ++ decimal o.uptimeMs ++ " ms".toList ++
    match plan.serial.teeToFile with
    | some path => ", serial log ".toList ++ path
    | none => []

def noteTripleFault (w : World) (s : Running) : Printer Unit :=
  if tripleFault w s then
    sending (note w.sink "guest reset without a recovery path (triple fault) observed in the QEMU log".toList)
  else pure ()

def outcomeOf (w : World) (p : Plan) (s : Running) : RunOutcome :=
  ⟨(facts w s).exitCode,classifyExit (facts w s),w.uptimeMs,s.output.faults.getLast?,p.run.serial.teeToFile⟩

def report (w : World) (p : Plan) (s : Running) : Printer RunOutcome := do
  noteTripleFault w s
  sending (note w.sink (summaryText s.output))
  sending (note w.sink (endedText p.run (outcomeOf w p s)))
  sending (emit w.sink (.runExited (outcomeOf w p s).exitedEvent))
  pure (outcomeOf w p s)

-- The group is killed once more, and the answer ignored.
def conclude (w : World) (p : Plan) : Runner RunOutcome := do
  printing (finalDrain w)
  reapLast w
  printing (report w p (← get))

def begin (plan : RunPlan) (options : RunOptions) (events : List EventBody) : Running :=
  ⟨⟨false,false,none,none,true,true,true,options.cancelAfterMs.isSome,false⟩,
    ⟨events,.new,.new,plan.serial.teeToFile.map fun _ => [],.new,[],[]⟩⟩

-- No result means that the answers ended while the loop was still going.
def supervise (w : World) (p : Plan) (s : Running) : Option (Except PrincessError RunOutcome) × Running :=
  match loop (iteration w p) s w.ticks with
  | (none,s,_) => (none,s)
  | (some (.failed e),s,_) => (some (.error e),s)
  | (some .broke,s,_) => match (conclude w p).run s with
    | .ok outcome s => (some (.ok outcome),s)
    | .error e s => (some (.error e),s)

abbrev Teller := Action (List EventBody) PrincessError

def spawnError (plan : RunPlan) (failure : SpawnFailure) (err : Text) : PrincessError :=
  let code := match failure with
    | .notFound => ErrorCode.toolchainMissing
    | .permissionDenied => .sandboxDenied
    | .other => .qemuFailed
  .new code ("cannot execute ".toList ++ plan.argv.headD [] ++ ": ".toList ++ err)

def spawnFailed (w : World) (plan : RunPlan) (e : PrincessError) : Teller α := do
  note w.sink ("run failed to start: ".toList ++ e.display)
  let outcome : RunOutcome := ⟨none,.killed,w.uptimeMs,none,plan.serial.teeToFile⟩
  emit w.sink (.runExited outcome.exitedEvent)
  throw (e.withDetail (joinWords plan.argv))

def createSerialLog (w : World) (plan : RunPlan) : Teller Unit := match plan.serial.teeToFile,w.created with
  | some path,.error err => throw (.internal ("cannot create serial log ".toList ++ path ++ ": ".toList ++ err))
  | _,_ => pure ()

def handles (child : Child) : Except PrincessError Nat := match child.id with
  | none => .error (.internal "qemu child has no pid".toList)
  | some pgid =>
    if !child.stdout then .error (.internal "qemu stdout is not piped".toList)
    else if !child.stderr then .error (.internal "qemu stderr is not piped".toList)
    else .ok pgid

def noteSymbols (w : World) : Teller Unit := match w.symbols with
  | none => note w.sink "no ELF with debug info: faults will be reported unsymbolicated".toList
  | some _ => pure ()

def returning : Option (Except PrincessError RunOutcome) × Running → EStateM.Result PrincessError (List EventBody) (Option RunOutcome)
  | (none,s) => .ok none s.output.events
  | (some (.ok outcome),s) => .ok (some outcome) s.output.events
  | (some (.error e),s) => .error e s.output.events

def watchChild (w : World) (plan : RunPlan) (options : RunOptions) (child : Child) : Teller (Option RunOutcome) := do
  let pgid ← MonadExcept.ofExcept (handles child)
  noteSymbols w
  fun events => returning (supervise w ⟨plan,options.cancelAfterMs,pgid⟩ (begin plan options events))

def startedPayload (plan : RunPlan) : RunStartedPayload := ⟨plan.argv,plan.gdbStub.map GdbStub.endpoint⟩

def startedBody (plan : RunPlan) : EventBody := .runStarted (startedPayload plan)

def launch (w : World) (plan : RunPlan) (options : RunOptions) : Teller (Option RunOutcome) := do
  emit w.sink (startedBody plan)
  createSerialLog w plan
  match w.spawned with
  | .error (failure,err) => spawnFailed w plan (spawnError plan failure err)
  | .ok child => watchChild w plan options child

def build (w : World) (options : RunOptions) : Teller Unit :=
  if options.doBuild then do
    w.built.1.forM (emit w.sink)
    if !(← MonadExcept.ofExcept w.built.2) then
      note w.sink "build did not succeed; booting the artifacts that exist anyway".toList
  else pure ()

def noteDropped (w : World) (dropped : List Text) : Teller Unit :=
  if dropped = [] then pure ()
  else note w.sink ("[run] args contains emulator flags the engine owns and ignores: ".toList ++ joinWords dropped)

-- All that comes before the run is announced.
def prepare (w : World) (project : Project) (options : RunOptions) : Teller RunPlan := do
  build w options
  let medium ← MonadExcept.ofExcept w.medium
  noteDropped w (partitionArgs project.args).dropped
  MonadExcept.ofExcept (planRun project medium options)

def execute (w : World) (project : Project) (options : RunOptions) : Teller (Option RunOutcome) := do
  let plan ← prepare w project options
  launch w plan options

end PrincessIDE.CliRun
