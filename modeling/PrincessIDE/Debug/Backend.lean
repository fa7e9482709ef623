import PrincessIDE.Core.Event
import PrincessIDE.Debug.Capability

namespace PrincessIDE.Dap
open Utf8 Str Error Effect Event

inductive SessionState where
  | idle
  | ready
  | attaching
  | poisoned
  | detached
deriving DecidableEq, Repr

inductive HardwareSupport where
  | unknown
  | hardware
  | unsupported
deriving DecidableEq, Repr

structure QemuCommand where
  argv : List Text
  cwd : Text
  readyTimeout : Nat
deriving DecidableEq, Repr

def shellQuote (text : Text) : Text :=
  if text ≠ [] ∧ text.all (fun c => c.isAlphanum || "._-/:@=+,".toList.contains c) then text
  else '\'' :: text.flatMap (fun c => if c = '\'' then "'\\''".toList else [c]) ++ ['\'']

def QemuCommand.display (command : QemuCommand) : Text :=
  [' '].intercalate (("cd ".toList ++ shellQuote command.cwd) :: command.argv.map shellQuote)

structure QemuProcess where
  pid : Nat
  command : QemuCommand
deriving DecidableEq, Repr

inductive TargetMode where
  | launch (command : QemuCommand)
  | attach
deriving DecidableEq, Repr

structure DebugSessionConfig where
  adapter : Text
  symbols : Text
  target : TargetMode
  requestTimeout : Nat
  readyTimeout : Nat
  serialLog : Option Text
deriving DecidableEq, Repr

structure GdbStub where
  host : Text
  port : Nat
deriving DecidableEq, Repr

-- `event` is the message the stop was built from; the payload of the source has
-- no such field.
structure DebugStoppedPayload where
  reason : StopReason
  threadId : Int
  frame : StackFrame
  regs : RegisterFile
  event : Message

structure BreakpointSpec where
  id : Text
  file : Option Text
  line : Option Nat
  address : Option Text
  condition : Option Text
  verified : Bool
  location : Option SourceLocation
deriving DecidableEq, Repr

structure Scope where
  name : Text
  variablesReference : Int
  expensive : Bool
deriving DecidableEq, Repr

structure Variable where
  name : Text
  value : Text
  typeName : Option Text
  variablesReference : Int
deriving DecidableEq, Repr

structure DisassembledInstruction where
  address : Text
  bytes : Text
  text : Text
  symbol : Option Text
  source : Option SourceLocation
deriving DecidableEq, Repr

structure DapBackend where
  config : DebugSessionConfig
  qemu : Option QemuProcess
  transport : Option Transport
  state : SessionState
  threadId : Int
  hardware : HardwareSupport
  archCheck : Option ArchCheck
  hardwareBreakpoints : List BreakpointRecord
  frames : List StackFrame
  adapterSupports : Option Json

-- The backend with what surrounds it: the ticks to come, the events the sink
-- took, the transports and machines that were shut down, and the record of lost
-- requests.
structure World where
  backend : DapBackend
  ticks : List Tick
  accepted : List EventBody
  dropped : List Transport
  reaped : List QemuProcess
  started : Nat
  lost : List Loss

abbrev Act (α : Type) := Action World PrincessError α

def DapBackend.new (config : DebugSessionConfig) : DapBackend :=
  ⟨config,none,none,.idle,1,.unknown,none,[],[],none⟩

def World.start (config : DebugSessionConfig) (ticks : List Tick) : World := ⟨.new config,ticks,[],[],[],0,[]⟩

def poisonedError (what : Text) : PrincessError :=
  (PrincessError.new .qemuFailed ("cannot ".toList ++ what ++ ": the debug session is no longer usable".toList)).withDetail
    ("gdb's DAP session answers with plausible-looking but wrong data after a protocol-level failure (research C §3.2), ".toList ++
      "so the engine refuses to keep using it. Re-attach to continue.".toList)

def change (f : DapBackend → DapBackend) : Act PUnit := modify fun w => {w with backend:=f w.backend}

def Transport.poison (t : Transport) : Transport :=
  match t.poisonedAt with
  | none => {t with poisonedAt:=some t.written.length}
  | some _ => t

def poison : Act PUnit := change fun b => {b with state:=.poisoned, transport:=b.transport.map Transport.poison}

def hand (result : Except PrincessError α) : Act α := match result with
  | .ok a => pure a
  | .error e => throw e

-- What a borrowed transport became is the backend's again.
def World.back (w : World) (s : Session) : World :=
  {w with backend:={w.backend with transport:=some s.transport}, ticks:=s.ticks, lost:=s.lost}

-- A transport in the place of the one before, and in no one's.
def World.adopt (t : Transport) (w : World) : World :=
  {w with dropped:=w.backend.transport.toList ++ w.dropped, backend:={w.backend with transport:=some t, state:=.ready}}

def World.part (w : World) : World :=
  {w with dropped:=w.backend.transport.toList ++ w.dropped, backend:={w.backend with transport:=none}}

def talk (t : Transport) (x : Wire α) : Act α := fun w => match x ⟨t,w.ticks,w.lost⟩ with
  | .ok a s => .ok a (w.back s)
  | .error e s => .error e (w.back s)

def emitted (sink : Sink) (body : EventBody) : Act PUnit := zoom World.accepted (fun events w => {w with accepted:=events}) (emit sink body)

def logged (sink : Sink) (text : Text) : Act PUnit := emitted sink (.logAppend ⟨.ide,text,.utf8⟩)

def transportMut : Act Transport := do
  match (← get).backend.transport with
  | some t => if t.isClosed then throw (poisonedError "there is no live debug adapter connection".toList) else return t
  | none => throw (poisonedError "there is no live debug adapter connection".toList)

def requireReady (what : Text) : Act Transport := do
  let b := (← get).backend
  match b.state with
  | .ready => match b.transport with
    | none => throw (poisonedError what)
    | some t =>
      if t.isClosed then do
        poison
        throw (poisonedError what)
      else return {t with defaultTimeout:=b.config.requestTimeout}
  | .poisoned => throw (poisonedError what)
  | .idle | .attaching =>
    throw (PrincessError.internal ("cannot ".toList ++ what ++ ": the debug session is not attached yet".toList))
  | .detached =>
    throw (PrincessError.internal ("cannot ".toList ++ what ++ ": the debug session has been detached".toList))

def num (n : Nat) : Json := .int n
def text (t : String) : Json := .str t.toList
def object (fields : List (String × Json)) : Json := .obj (fields.map fun field => (field.1.toList,field.2))

variable (kit : Kit)

def whenReady (what : String) (x : Wire α) : Act α := do
  let t ← requireReady what.toList
  talk t x

def whenLive (x : Wire α) : Act α := do
  let t ← transportMut
  talk t x

-- One request of a ready session, whose answer must say success.
def ask (what command : String) (arguments : Json) : Act Json := do
  let timeout := (← get).backend.config.requestTimeout
  let response ← whenReady what (requestWithin command.toList (some arguments) timeout)
  hand (ensureSuccess kit command.toList response)

def locate (file : Text) (line : Nat) (column : Option Nat) : SourceLocation := ⟨file,line % u32,column.map (· % u32)⟩

def parseStackFrames (body : Json) : List StackFrame :=
  (((body.pointer ["body","stackFrames"]).bind Json.asArray).getD []).map fun item => {
    id := ((item.get "id").bind Json.asU64).getD 0
    name := ((item.get "name").bind Json.asStr).getD []
    source := ((item.pointer ["source","path"]).bind Json.asStr).map fun path =>
      locate path (((item.get "line").bind Json.asU64).getD 0) (((item.get "column").bind Json.asU64).filter (0 < ·))
    instructionPointer := ((item.get "instructionPointerReference").bind Json.asStr).getD [] }

def requestStackTrace (threadId : Int) (startFrame levels : Nat) : Act (List StackFrame) := do
  let timeout := (← get).backend.config.requestTimeout
  let t ← requireReady "read the stack trace".toList
  let response ← onError (fun e => e.code = .timeout || e.code = .qemuFailed) poison
    (talk t (requestWithin "stackTrace".toList (some (object [("threadId",.int threadId),("startFrame",num startFrame),
      ("levels",num (if levels = 0 then 20 else levels))])) timeout))
  let body ← hand (ensureSuccess kit "stackTrace".toList response)
  let frames := parseStackFrames body
  change fun b => {b with frames:=frames}
  return frames

def registerMap (entries : List RegisterEntry) : RegisterFile :=
  entries.foldl (fun map entry => map.insert entry.name entry.value) []

def tryReadRegisters : Act (Option RegisterFile) := do
  match (← get).backend.transport with
  | none => return none
  | some t => return (← attempt (talk t (readRegisters kit))).map registerMap

def stoppedPayload (event : Message) (reason : StopReason) : Act DebugStoppedPayload := do
  let threadId := ((event.value.pointer ["body","threadId"]).bind Json.asI64).getD (← get).backend.threadId
  change fun b => {b with threadId:=threadId}
  let frames ← attempt (requestStackTrace kit threadId 0 1)
  let regs ← tryReadRegisters kit
  return ⟨reason,threadId,(frames.getD []).headD ⟨0,[],none,[]⟩,regs.getD [],event⟩

def stopReason (body : Json) : StopReason :=
  match ((body.get "reason").bind Json.asStr).map String.ofList with
  | some "breakpoint" => .breakpoint
  | some "step" => .step
  | some "signal" | some "exception" => .signal
  | some "entry" | some "attach" => .entry
  | _ => .signal

def awaitStop (sink : Sink) (what : String) : Act DebugStoppedPayload := do
  match ← whenLive (waitEvent "stopped".toList) with
  | none =>
    throw ((PrincessError.new .timeout (what.toList ++ ": the target never reported a stopped event".toList)).withDetail
      ("the engine waited for a `stopped` DAP event; without it there is no honest answer to give about where the CPU is.".toList))
  | some event =>
    let reason := stopReason ((event.value.get "body").getD .null)
    emitted sink (.debugOutput ⟨.console,"stopped: ".toList ++ reason.debug ++ "\n".toList⟩)
    stoppedPayload kit event reason

-- What `continue_` and the steps share.
def resume (sink : Sink) (what command : String) (extra : List (String × Json)) (threadId : Option Int) :
    Act DebugStoppedPayload := do
  let thread := threadId.getD (← get).backend.threadId
  let _ ← ask kit what command (object (("threadId",.int thread) :: extra))
  awaitStop kit sink what

def continue_ (sink : Sink) : Option Int → Act DebugStoppedPayload := resume kit sink "continue" "continue" []
def stepOver (sink : Sink) : Option Int → Act DebugStoppedPayload := resume kit sink "step over" "next" []
def stepInto (sink : Sink) : Option Int → Act DebugStoppedPayload :=
  resume kit sink "step into" "stepIn" [("granularity",text "instruction")]

def asLocation (source : Json) (key : String) (line : Nat) (column : Option Nat) : Option SourceLocation :=
  ((source.get key).bind Json.asStr).map fun path => locate path line column

def setBreakpoints (sink : Sink) (file : Text) (breakpoints : List BreakpointSpec) : Act (List BreakpointSpec) := do
  let requested := breakpoints.map fun bp => object
    ((bp.line.map fun line => ("line",num line)).toList ++ (bp.condition.map fun condition => ("condition",Json.str condition)).toList)
  let body ← ask kit "set breakpoints" "setBreakpoints" (object [
    ("source",object [("path",.str file),("name",((kit.fileName file).map Json.str).getD .null)]),
    ("breakpoints",.arr requested),("sourceModified",.bool false)])
  let items := ((body.pointer ["body","breakpoints"]).bind Json.asArray).getD []
  let result := items.zipIdx.map fun (item,index) =>
    let template := breakpoints[index]?
    let line := (((item.get "line").bind Json.asU64).map (· % u32)).or (template.bind (·.line))
    { id := ((item.get "id").map kit.compact).or (template.map (·.id)) |>.getD ("bp-".toList ++ decimal index)
      file := some file
      line := line
      address := (item.get "instructionReference").bind Json.asStr
      condition := template.bind (·.condition)
      verified := ((item.get "verified").bind Json.asBool).getD false
      location := (item.get "source").bind fun source =>
        asLocation source "path" (line.getD 0) ((item.get "column").bind Json.asU64) : BreakpointSpec }
  result.forM fun bp => emitted sink (.debugBreakpointChanged ⟨bp.id,bp.verified,bp.location⟩)
  return result

def stackTrace (threadId : Int) (startFrame levels : Nat) : Act (List StackFrame) :=
  requestStackTrace kit threadId startFrame levels

def registersScopeReference : Int := -1

def scopes (frameId : Nat) : Act (List Scope) := do
  let body ← ask kit "read scopes" "scopes" (object [("frameId",num frameId)])
  let listed := (((body.pointer ["body","scopes"]).bind Json.asArray).getD []).filterMap fun item =>
    ((item.get "name").bind Json.asStr).map fun name =>
      (⟨name,((item.get "variablesReference").bind Json.asI64).getD 0,((item.get "expensive").bind Json.asBool).getD false⟩ : Scope)
  if listed.any fun scope => scope.name = "Registers".toList then return listed
  else return listed ++ [⟨"Registers".toList,registersScopeReference,false⟩]

def readVariables (variablesReference : Int) : Act (List Variable) := do
  if variablesReference = registersScopeReference then
    let entries ← whenReady "read the register panel" (readRegisters kit)
    return entries.map fun entry => ⟨entry.name,entry.value,entry.annotation,0⟩
  else
    let body ← ask kit "read variables" "variables" (object [("variablesReference",.int variablesReference)])
    return (((body.pointer ["body","variables"]).bind Json.asArray).getD []).filterMap fun item =>
      ((item.get "name").bind Json.asStr).map fun name =>
        ⟨name,((item.get "value").bind Json.asStr).getD [],(item.get "type").bind Json.asStr,
          ((item.get "variablesReference").bind Json.asI64).getD 0⟩

def memoryReference (address : Nat) : Json := .str ("0x".toList ++ hex address)

def readMemory (address byteCount : Nat) : Act (List (BitVec 8)) := do
  let body ← ask kit "read memory" "readMemory" (object [("memoryReference",memoryReference address),("count",num byteCount)])
  match (body.pointer ["body","data"]).bind Json.asStr with
  | none => throw ((PrincessError.internal "readMemory returned no data field".toList).withDetail (kit.compact body))
  | some encoded => match kit.base64Decode encoded with
    | none => throw ((PrincessError.internal "readMemory returned data that is not valid base64".toList).withDetail
        ("data: ".toList ++ encoded.take 200))
    | some bytes =>
      if bytes.length = byteCount then return bytes
      else throw ((PrincessError.internal ("readMemory returned ".toList ++ decimal bytes.length ++ " bytes for a ".toList ++
        decimal byteCount ++ " byte request".toList)).withDetail (kit.compact body))

def writeMemory (address : Nat) (bytes : List (BitVec 8)) : Act PUnit := do
  let _ ← ask kit "write memory" "writeMemory" (object [("memoryReference",memoryReference address),
    ("data",.str (kit.base64Encode bytes))])

def disassemble (address count : Nat) : Act (List DisassembledInstruction) := do
  let body ← ask kit "disassemble" "disassemble" (object [("memoryReference",memoryReference address),
    ("instructionCount",num count),("resolveSymbols",.bool true)])
  return (((body.pointer ["body","instructions"]).bind Json.asArray).getD []).filterMap fun item =>
    ((item.get "instruction").bind Json.asStr).map fun instruction => {
      address := ((item.get "address").bind Json.asStr).getD []
      bytes := ((item.get "instructionBytes").bind Json.asStr).getD []
      text := instruction
      symbol := (item.get "symbol").bind Json.asStr
      source := (item.get "location").bind fun location =>
        asLocation location "path" (((location.get "line").bind Json.asU64).getD 0) none }

def registers : Act RegisterFile := do
  return registerMap (← whenReady "read registers" (readRegisters kit))

def readPhysicalMemory (address count : Nat) : Act (List (BitVec 8)) :=
  whenReady "read physical memory" (readPhysical kit address count)

-- A caller of `capabilities_layer` runs GDB commands on the transport it gets;
-- the first one that fails ends it.
def capabilitiesLayer (commands : List Text) : Act PUnit :=
  whenLive (commands.forM fun command => do let _ ← repl kit command)

def setHardwareBreakpoint (sink : Sink) (spec : Text) : Act BreakpointRecord := do
  let t ← transportMut
  let refused := fun (e : PrincessError) => e.detail.any fun d =>
    contains "not supported".toList d || contains "Undefined command".toList d
  let record ← onError refused (change fun b => {b with hardware:=.unsupported}) (talk t (createHardwareBreakpoint kit spec))
  change fun b => {b with hardware:=.hardware, hardwareBreakpoints:=b.hardwareBreakpoints ++ [record]}
  emitted sink (.debugBreakpointChanged ⟨"hw:".toList ++ decimal record.number,!record.isPending,some ⟨record.what,0,none⟩⟩)
  return record

def prepareTarget : Act PUnit := do
  let symbols := (← get).backend.config.symbols
  let verdict ← whenLive (do
    prepareSession kit
    let _ ← loadSymbols kit symbols
    archCheck kit symbols)
  let _ ← hand (verdict.requireConsistent symbols)
  change fun b => {b with archCheck:=some verdict}

-- A tick of the host: it reaches the transport the backend holds.
def World.reach (tick : Tick) (w : World) : World :=
  {w with backend:={w.backend with transport:=w.backend.transport.map fun t => t.reach tick}}

def hostTick : Act Tick := fun w => match w.ticks with
  | [] => .ok .last w
  | tick :: rest => .ok tick {w.reach tick with ticks:=rest}

def startQemu (command : QemuCommand) : Act QemuProcess := do
  match command.argv with
  | [] => throw (PrincessError.new .qemuFailed "QEMU command is empty".toList)
  | program :: _ =>
    let couldNot (code : ErrorCode) (t : Text) := (PrincessError.new code ("could not start ".toList ++ program)).withDetail
      (command.display ++ "\n".toList ++ t)
    match (← hostTick).failure with
    | some (.notFound t) => throw (couldNot .toolchainMissing t)
    | some (.other t) => throw (couldNot .qemuFailed t)
    | some (.notReady t) => throw ((PrincessError.new .qemuFailed "QEMU did not come up for debugging".toList).withDetail
        (command.display ++ "\n".toList ++ t))
    | none =>
      let pid := (← get).started
      modify fun w => {w with started:=w.started+1}
      return ⟨pid,command⟩

def spawnAdapter (argv : List Text) : Act Transport := do
  let display := [' '].intercalate argv
  let failed (code : ErrorCode) (t : Text) := (PrincessError.new code ("could not start debug adapter ".toList ++
    argv.headD [])).withDetail (display ++ "\n".toList ++ t)
  match (← hostTick).failure with
  | some (.notFound t) => throw (failed .toolchainMissing t)
  | some failure => throw (failed .internal failure.text)
  | none => return spawned display

-- `attach` owns the transport until the session takes it: an error drops it.
structure Handshake where
  world : World
  transport : Transport

abbrev Shake (α : Type) := Action Handshake PrincessError α

def host (x : Act α) : Shake α := zoom Handshake.world (fun w h => {h with world:=w}) x

def wire (x : Wire α) : Shake α :=
  zoom (fun h => ⟨h.transport,h.world.ticks,h.world.lost⟩)
    (fun s h => ⟨{h.world with ticks:=s.ticks, lost:=s.lost},s.transport⟩) x

def poisoning (x : Shake α) : Shake α := onError (fun _ => true) (host poison) x

def initializeArguments : Json := object [("clientID",text "princesside"),("clientName",text "PrincessIDE"),
  ("adapterID",text "gdb"),("locale",text "en_US"),("linesStartAt1",.bool true),("columnsStartAt1",.bool true),
  ("pathFormat",text "path"),("supportsRunInTerminalRequest",.bool false),("supportsVariableType",.bool true),
  ("supportsMemoryReferences",.bool true),("supportsProgressReporting",.bool false)]

def handshake (target : Text) : Shake PUnit := do
  let timeout := (← get).world.backend.config.requestTimeout
  let response ← wire (requestWithin "initialize".toList (some initializeArguments) timeout)
  let initialized ← host (hand (ensureSuccess kit "initialize".toList response))
  host (change fun b => {b with adapterSupports:=initialized.get "body"})
  let attachSeq ← wire (watched "attach".toList (send "attach".toList (some (object [("target",.str target)]))))
  let configSeq ← wire (watched "configurationDone".toList (send "configurationDone".toList none))
  let _ ← poisoning (wire (watched "configurationDone".toList (waitResponse configSeq timeout)))
  let attached ← poisoning (wire (watched "attach".toList (waitResponse attachSeq timeout)))
  let _ ← poisoning (host (hand (ensureSuccess kit "attach".toList attached.value)))
  let _ ← wire (waitEvent "stopped".toList)
  let events ← wire takeEvents
  match events.findSome? fun event => (event.value.pointer ["body","threadId"]).bind Json.asI64 with
  | some id => host (change fun b => {b with threadId:=id})
  | none => return ⟨⟩

def bringUp (t : Transport) (x : Shake PUnit) : Act Transport := fun w => match x ⟨w,t⟩ with
  | .ok _ h => .ok h.transport h.world
  | .error e h => .error e {h.world with dropped:=h.transport :: h.world.dropped}

def launch (sink : Sink) : Act PUnit := do
  let config := (← get).backend.config
  match config.target with
  | .attach => return ⟨⟩
  | .launch command =>
    let argv := match config.serialLog with
      | none => command.argv
      | some log => command.argv.map fun arg => if startsWith "file:".toList arg then "file:".toList ++ log else arg
    let command := {command with argv:=argv, readyTimeout:=config.readyTimeout}
    logged sink ("qemu (engine-owned, timeout-wrapped): ".toList ++ command.display ++ "\n".toList)
    let process ← startQemu command
    onError (fun _ => true) (modify fun w => {w with reaped:=process :: w.reaped})
      (logged sink ("qemu pid ".toList ++ decimal process.pid ++ " is up; GDB stub listening\n".toList))
    modify fun w => {w with reaped:=w.backend.qemu.toList ++ w.reaped, backend:={w.backend with qemu:=some process}}

def attach (sink : Sink) (stub : GdbStub) : Act PUnit := do
  let config := (← get).backend.config
  if (← get).backend.state = .ready then
    throw (PrincessError.internal "the debug session is already attached; detach first".toList)
  change fun b => {b with state:=.attaching}
  launch sink
  let t ← spawnAdapter [config.adapter,"-q".toList,"-i=dap".toList]
  let target := stub.host ++ ":".toList ++ decimal stub.port
  let t ← bringUp t (do
    host (logged sink ("debug adapter: ".toList ++ config.adapter ++ " -q -i=dap\n".toList))
    handshake kit target)
  modify (·.adopt t)
  emitted sink (.debugOutput ⟨.console,"attached to ".toList ++ target ++ "\n".toList⟩)

def disconnect : Act PUnit := do
  match (← get).backend.transport with
  | none => return ⟨⟩
  | some t =>
    let _ ← attempt (talk t (requestWithin "disconnect".toList (some (object [])) 3000))
    modify World.part

def detach : Act PUnit := do
  disconnect
  modify fun w => {w with reaped:=w.backend.qemu.toList ++ w.reaped, backend:={w.backend with qemu:=none, state:=.detached}}

inductive Resume where
  | continue_
  | stepOver
  | stepInto
deriving DecidableEq, Repr

def Resume.command : Resume → String
  | .continue_ => "continue"
  | .stepOver => "next"
  | .stepInto => "stepIn"

def Resume.perform (sink : Sink) (threadId : Option Int) : Resume → Act DebugStoppedPayload
  | .continue_ => Dap.continue_ kit sink threadId
  | .stepOver => Dap.stepOver kit sink threadId
  | .stepInto => Dap.stepInto kit sink threadId

inductive Op where
  | attach (stub : GdbStub)
  | detach
  | setBreakpoints (file : Text) (breakpoints : List BreakpointSpec)
  | resume (how : Resume) (threadId : Option Int)
  | stackTrace (threadId : Int) (startFrame levels : Nat)
  | scopes (frameId : Nat)
  | readVariables (reference : Int)
  | readMemory (address count : Nat)
  | writeMemory (address : Nat) (bytes : List (BitVec 8))
  | disassemble (address count : Nat)
  | registers
  | readPhysicalMemory (address count : Nat)
  | capabilitiesLayer (commands : List Text)
  | setHardwareBreakpoint (spec : Text)
  | prepareTarget

def quietly (x : Act α) : Act PUnit := do let _ ← x

def Op.perform (sink : Sink) : Op → Act PUnit
  | .attach stub => Dap.attach kit sink stub
  | .detach => Dap.detach
  | .setBreakpoints file breakpoints => quietly (Dap.setBreakpoints kit sink file breakpoints)
  | .resume how threadId => quietly (how.perform kit sink threadId)
  | .stackTrace threadId startFrame levels => quietly (Dap.stackTrace kit threadId startFrame levels)
  | .scopes frameId => quietly (Dap.scopes kit frameId)
  | .readVariables reference => quietly (Dap.readVariables kit reference)
  | .readMemory address count => quietly (Dap.readMemory kit address count)
  | .writeMemory address bytes => Dap.writeMemory kit address bytes
  | .disassemble address count => quietly (Dap.disassemble kit address count)
  | .registers => quietly (Dap.registers kit)
  | .readPhysicalMemory address count => quietly (Dap.readPhysicalMemory kit address count)
  | .capabilitiesLayer commands => Dap.capabilitiesLayer kit commands
  | .setHardwareBreakpoint spec => quietly (Dap.setHardwareBreakpoint kit sink spec)
  | .prepareTarget => Dap.prepareTarget kit

-- A session: one operation after the other, whatever they answer. The source's
-- `start_session` is `attach` and, if it answered, `prepareTarget`.
def session (sink : Sink) (w : World) : List Op → World
  | [] => w
  | op :: ops => session sink (after (op.perform kit sink) w) ops

-- A session to try: readers of texts that find nothing, a sink that takes all
-- events, and an adapter that answers the handshake.
def plainKit : Kit where
  pretty _ := []
  compact _ := []
  parseBreakpoints _ := []
  parseInfoRegisters _ := []
  parseMonitorXp _ _ := []
  countFunctionDeclarations _ := 0
  readElfFacts _ := .error (.internal [])
  parseShowArchitecture _ := none
  parseSizeofPointer _ := none
  judge _ arch := .unknown arch.raw
  base64Decode _ := none
  base64Encode _ := []
  shellEscape text := text
  debugRecord _ := []
  fileName _ := none

def openSink : Sink := fun _ _ => none

def debugConfig : DebugSessionConfig := ⟨"gdb".toList,"kernel.elf".toList,.attach,30000,30000,none⟩

def localStub : GdbStub := ⟨"127.0.0.1".toList,1234⟩

def reply (seq : Int) : Frame :=
  .message (object [("type",text "response"),("request_seq",.int seq),("success",.bool true)])

def stopEvent : Json := object [("type",text "event"),("event",text "stopped")]

def hears (frames : List Frame) : Tick := ⟨frames,false,none⟩

def overdue : Tick := ⟨[],true,none⟩

def attached (ticks : List Tick) : World := .start debugConfig ([hears [],hears [],hears [reply 1],hears [],hears [],
  hears [reply 3],hears [reply 2],hears [.message stopEvent]] ++ ticks)

end PrincessIDE.Dap
