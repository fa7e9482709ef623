import PrincessIDE.Core.Envelope

namespace PrincessIDE.Contract
open Utf8

inductive EventKind where
  | logAppend
  | buildStarted
  | buildDiagnostic
  | buildFinished
  | runStarted
  | runFault
  | runExited
  | debugStopped
  | debugBreakpointChanged
  | debugOutput
  | symbolsIndexed
  | artifactChanged
  | aiChunk
  | aiFinished
  | lspMessage
  | lspStopped
deriving DecidableEq, Repr

def EventKind.text : EventKind → Text
  | .logAppend => "log.append".toList
  | .buildStarted => "build.started".toList
  | .buildDiagnostic => "build.diagnostic".toList
  | .buildFinished => "build.finished".toList
  | .runStarted => "run.started".toList
  | .runFault => "run.fault".toList
  | .runExited => "run.exited".toList
  | .debugStopped => "debug.stopped".toList
  | .debugBreakpointChanged => "debug.breakpoint.changed".toList
  | .debugOutput => "debug.output".toList
  | .symbolsIndexed => "symbols.indexed".toList
  | .artifactChanged => "artifact.changed".toList
  | .aiChunk => "ai.chunk".toList
  | .aiFinished => "ai.finished".toList
  | .lspMessage => "lsp.message".toList
  | .lspStopped => "lsp.stopped".toList

def eventKinds : List EventKind :=
  [.logAppend,.buildStarted,.buildDiagnostic,.buildFinished,.runStarted,.runFault,.runExited,.debugStopped,
    .debugBreakpointChanged,.debugOutput,.symbolsIndexed,.artifactChanged,.aiChunk,.aiFinished,.lspMessage,.lspStopped]

structure ContractViolation where
  path : Text
  message : Text
deriving DecidableEq, Repr

-- `JSON.stringify`, and the integer that the text of a float spells, if it
-- spells one.
structure JavaScript where
  stringify : Json → Text
  integer : Text → Option Int

-- `/^\d{n}/`, and what is behind it.
def digits : Nat → Text → Option Text
  | 0,t => some t
  | n+1,c :: t => if c.isDigit then digits n t else none
  | _,[] => none

def literal (c : Char) : Text → Option Text
  | d :: t => if d = c then some t else none
  | [] => none

-- `(\.\d+)?`
def fraction : Text → Text
  | '.' :: d :: t => if d.isDigit then t.dropWhile Char.isDigit else '.' :: d :: t
  | t => t

-- `(Z|[+-]\d{2}:\d{2})$`
def zone : Text → Bool
  | ['Z'] => true
  | sign :: t => (sign = '+' || sign = '-') && ((digits 2 t).bind (literal ':')).bind (digits 2) = some []
  | [] => false

def isoTs (t : Text) : Bool :=
  match (do
    let t ← literal '-' (← digits 4 t)
    let t ← literal '-' (← digits 2 t)
    let t ← literal 'T' (← digits 2 t)
    let t ← literal ':' (← digits 2 t)
    let t ← literal ':' (← digits 2 t)
    digits 2 t) with
  | some t => zone (fraction t)
  | none => false

example : isoTs "2026-05-05T12:00:00.123Z".toList = true := by decide
example : isoTs "+10000-01-01T00:00:00.000Z".toList = false := by decide

abbrev FieldCheck := Json → Bool

def isString : FieldCheck
  | .str _ => true
  | _ => false

-- The text of a JSON number is finite.
def isNumber : FieldCheck
  | .int _ | .float _ => true
  | _ => false

def isBoolean : FieldCheck
  | .bool _ => true
  | _ => false

def isObject : FieldCheck
  | .obj _ => true
  | _ => false

def isArrayOf (check : FieldCheck) : FieldCheck
  | .arr items => items.all check
  | _ => false

def isStringArray : FieldCheck := isArrayOf isString

def isObjectOrNull : FieldCheck
  | .null => true
  | v => isObject v

def isEnum (allowed : List String) : FieldCheck
  | .str t => allowed.any fun name => name.toList == t
  | _ => false

-- A check of `v.key`, which is `undefined` where there is no such key.
def keyed (key : String) (check : FieldCheck) (v : Json) : Bool := (v.get key).elim false check

structure PayloadSchema where
  required : List (String × FieldCheck)
  optional : List (String × FieldCheck) := []

def artifactRef : FieldCheck := fun v =>
  isObject v && keyed "path" isString v && keyed "kind" isString v && keyed "size" isNumber v && keyed "sha256" isString v

def regs : FieldCheck
  | .obj fields => fields.all fun field => isString field.2
  | _ => false

def frame : FieldCheck := fun v =>
  isObject v && keyed "id" isNumber v && keyed "name" isString v && keyed "file" isString v && keyed "line" isNumber v &&
    keyed "pc" isString v

def symbolicated : FieldCheck := fun v =>
  isObject v && keyed "symbol" isString v && keyed "file" isString v && keyed "line" isNumber v

def usage : FieldCheck := fun v =>
  isObject v && keyed "promptTokens" isNumber v && keyed "completionTokens" isNumber v && keyed "totalTokens" isNumber v

def payloadSchemas : EventKind → PayloadSchema
  | .logAppend => {required:=[("stream",isEnum ["build","serial.com1","qemu.monitor","gdb.console","ide"]),("chunk",isString),
      ("encoding",isEnum ["utf8","utf8-lossy"])]}
  | .buildStarted => {required:=[("backend",isString),("toolchainId",isString),("argv",isStringArray),("cwd",isString)]}
  | .buildDiagnostic => {required:=[("severity",isString),("file",isString),("line",isNumber),("col",isNumber),
      ("message",isString),("source",isEnum ["clang","ld","nasm"])]}
  | .buildFinished => {required:=[("status",isEnum ["ok","failed","cancelled"]),("exitCode",isNumber),("durationMs",isNumber),
      ("artifacts",isArrayOf artifactRef)]}
  | .runStarted => {required:=[("qemuArgv",isStringArray),("gdbStub",isObjectOrNull)]}
  | .runFault => ⟨[("vector",isString),("rip",isString),("errorCode",isString),("regs",regs)],[("symbolicated",symbolicated)]⟩
  | .runExited => {required:=[("exitCode",isNumber),("reason",isEnum ["guest-shutdown","triple-fault","timeout","killed"]),
      ("uptimeMs",isNumber)]}
  | .debugStopped => {required:=[("reason",isEnum ["breakpoint","step","signal","entry"]),("threadId",isNumber),
      ("frame",frame),("regs",regs)]}
  | .debugBreakpointChanged => {required:=[("id",isNumber),("verified",isBoolean),("location",isString)]}
  | .debugOutput => {required:=[("category",isEnum ["console","stdout","stderr"]),("text",isString)]}
  | .symbolsIndexed => {required:=[("artifact",isString),("buildId",isString),("symbolCount",isNumber)]}
  | .artifactChanged => {required:=[("path",isString),("kind",isString)]}
  | .aiChunk => {required:=[("requestId",isString),("text",isString)]}
  | .aiFinished => {required:=[("requestId",isString),("usage",usage)]}
  | .lspMessage => {required:=[("serverId",isString),("message",isString)]}
  | .lspStopped => {required:=[("serverId",isString),("reason",isEnum ["shutdown","crashed","killed"])]}

-- `if (!holds) throw new ContractViolation(path, message)`
def require (holds : Bool) (path message : Text) : Except ContractViolation Unit :=
  if holds then .ok () else .error ⟨path,message⟩

def envelopeKeys : List String := ["v","seq","ts","opId","kind","payload"]

def isOpId : FieldCheck
  | .null => true
  | v => isString v

def isTimestamp : FieldCheck
  | .str t => isoTs t
  | _ => false

def kindOf : Json → Option EventKind
  | .str t => eventKinds.find? fun kind => kind.text == t
  | _ => none

section
variable (js : JavaScript) (origin : Text)

-- `Number.isInteger(v) && v >= 1`
def isPositive : FieldCheck
  | .int n => 1 ≤ n
  | .float t => (js.integer t).elim false (1 ≤ ·)
  | _ => false

def checkRequired (kind : EventKind) (payload : Json) (entry : String × FieldCheck) : Except ContractViolation Unit := do
  let path := origin ++ ".payload.".toList ++ entry.1.toList
  require (payload.get entry.1).isSome path ("missing required field for kind ".toList ++ kind.text)
  require (keyed entry.1 entry.2 payload) path
    ("wrong type for kind ".toList ++ kind.text ++ ": ".toList ++ js.stringify ((payload.get entry.1).getD .null))

def checkOptional (kind : EventKind) (payload : Json) (entry : String × FieldCheck) : Except ContractViolation Unit :=
  require ((payload.get entry.1).elim true entry.2) (origin ++ ".payload.".toList ++ entry.1.toList)
    ("wrong type for kind ".toList ++ kind.text)

def parsePayload (kind : EventKind) (payload : Json) : Except ContractViolation Unit := do
  (payloadSchemas kind).required.forM (checkRequired js origin kind payload)
  (payloadSchemas kind).optional.forM (checkOptional origin kind payload)

def parseEventEnvelope (value : Json) : Except ContractViolation Json := do
  let named := (value.get "kind").getD .null
  let payload := (value.get "payload").getD .null
  require (isObject value) origin "envelope is not a JSON object".toList
  envelopeKeys.forM fun key =>
    require (value.get key).isSome (origin ++ ['.'] ++ key.toList) "missing required envelope key".toList
  require (keyed "v" isNumber value) (origin ++ ".v".toList) "must be a number".toList
  require (keyed "seq" (isPositive js) value) (origin ++ ".seq".toList) "must be an integer >= 1".toList
  require (keyed "ts" isTimestamp value) (origin ++ ".ts".toList) "must be an ISO-8601 UTC timestamp string".toList
  require (keyed "opId" isOpId value) (origin ++ ".opId".toList) "must be a string or null".toList
  match kindOf named with
  | none => throw ⟨origin ++ ".kind".toList,"unknown event kind ".toList ++ js.stringify named⟩
  | some kind =>
    require (isObject payload) (origin ++ ".payload".toList) "must be an object".toList
    parsePayload js origin kind payload
    pure value

end

theorem require_ok : require holds path message = .ok () ↔ holds = true := by
  cases holds <;> simp [require]

theorem unit_bind_ok {checked : Except ε Unit} {rest : Except ε α} :
    (checked >>= fun _ => rest) = .ok a ↔ checked = .ok () ∧ rest = .ok a := by
  cases checked <;> simp [bind,Except.bind]

theorem forM_ok {xs : List α} {check : α → Except ε Unit} : xs.forM check = .ok () ↔ ∀ x ∈ xs, check x = .ok () := by
  induction xs with
  | nil => simp [pure,Except.pure]
  | cons x xs ih => rw [List.forall_mem_cons,← ih]; exact unit_bind_ok

-- What a schema asks of a payload.
def PayloadSchema.accepts (schema : PayloadSchema) (payload : Json) : Bool :=
  schema.required.all (fun entry => keyed entry.1 entry.2 payload) &&
    schema.optional.all fun entry => (payload.get entry.1).elim true entry.2

structure WellFormed (js : JavaScript) (value : Json) (kind : EventKind) (payload : Json) : Prop where
  object : isObject value = true
  version : keyed "v" isNumber value = true
  seq : keyed "seq" (isPositive js) value = true
  ts : keyed "ts" isTimestamp value = true
  opId : keyed "opId" isOpId value = true
  named : (value.get "kind").bind kindOf = some kind
  carried : value.get "payload" = some payload
  fields : isObject payload = true
  schema : (payloadSchemas kind).accepts payload = true

theorem keyed_present (passes : keyed key test v = true) : (v.get key).isSome = true := by
  unfold keyed at passes
  cases found : v.get key with
  | none => rw [found] at passes; cases passes
  | some _ => rfl

theorem checkRequired_ok : checkRequired js origin kind payload entry = .ok () ↔ keyed entry.1 entry.2 payload = true := by
  rw [checkRequired,unit_bind_ok,require_ok,require_ok]
  exact ⟨And.right,fun passes => ⟨keyed_present passes,passes⟩⟩

theorem parsePayload_ok : parsePayload js origin kind payload = .ok () ↔ (payloadSchemas kind).accepts payload = true := by
  rw [parsePayload,unit_bind_ok,forM_ok,forM_ok]
  simp only [checkRequired_ok,checkOptional,require_ok,PayloadSchema.accepts,Bool.and_eq_true,List.all_eq_true]

-- An envelope is accepted if and only if it is well formed, and it is answered
-- unchanged.
theorem parseEventEnvelope_ok : parseEventEnvelope js origin value = .ok answer ↔
    answer = value ∧ ∃ kind payload, WellFormed js value kind payload := by
  unfold parseEventEnvelope
  simp only [unit_bind_ok,forM_ok,require_ok]
  constructor
  · rintro ⟨object,keys,version,seq,ts,opId,rest⟩
    obtain ⟨named,found⟩ := Option.isSome_iff_exists.mp (keys "kind" (by decide))
    obtain ⟨payload,carried⟩ := Option.isSome_iff_exists.mp (keys "payload" (by decide))
    simp only [found,carried,Option.getD_some] at rest
    cases known : kindOf named with
    | none => rw [known] at rest; cases rest
    | some kind =>
      simp only [known,unit_bind_ok,require_ok,parsePayload_ok] at rest
      obtain ⟨fields,schema,same⟩ := rest
      exact ⟨(Except.ok.inj same).symm,kind,payload,object,version,seq,ts,opId,by rw [found]; exact known,carried,fields,schema⟩
  · rintro ⟨rfl,kind,payload,object,version,seq,ts,opId,named,carried,fields,schema⟩
    obtain ⟨text,found,known⟩ := Option.bind_eq_some_iff.mp named
    refine ⟨object,?_,version,seq,ts,opId,?_⟩
    · have kinds : (answer.get "kind").isSome = true := by rw [found]; rfl
      have payloads : (answer.get "payload").isSome = true := by rw [carried]; rfl
      simp only [envelopeKeys,List.forall_mem_cons]
      exact ⟨keyed_present version,keyed_present seq,keyed_present ts,keyed_present opId,kinds,payloads,List.forall_mem_nil _⟩
    · simp only [found,carried,Option.getD_some,known,unit_bind_ok,require_ok,parsePayload_ok]
      exact ⟨fields,schema,rfl⟩

-- The engine's kinds are the first fourteen.
def engineKind : Event.EventKind → EventKind
  | .logAppend => .logAppend
  | .buildStarted => .buildStarted
  | .buildDiagnostic => .buildDiagnostic
  | .buildFinished => .buildFinished
  | .runStarted => .runStarted
  | .runFault => .runFault
  | .runExited => .runExited
  | .debugStopped => .debugStopped
  | .debugBreakpointChanged => .debugBreakpointChanged
  | .debugOutput => .debugOutput
  | .symbolsIndexed => .symbolsIndexed
  | .artifactChanged => .artifactChanged
  | .aiChunk => .aiChunk
  | .aiFinished => .aiFinished

theorem kindOf_engineKind (kind : Event.EventKind) : kindOf (.str kind.asStr) = some (engineKind kind) := by
  cases kind <;> rfl

-- Where the engine's payload is one that the schema of its kind describes.
def described : Event.EventBody → Bool
  | .buildDiagnostic p => p.file.isSome && p.line.isSome && p.col.isSome && p.source ≠ .gcc
  | .buildFinished p => p.exitCode.isSome
  | .runStarted p => p.gdbStub.isNone
  | .runExited p => p.exitCode.isSome
  | .symbolsIndexed p => p.buildId.isSome
  | .runFault _ | .debugStopped _ | .debugBreakpointChanged _ => false
  | _ => true

theorem isArrayOf_write {c : Serde.Codec α} (passes : ∀ a, test (c.write a) = true) (xs : List α) :
    isArrayOf test ((Serde.Codec.list c).write xs) = true := by
  have all : (xs.map c.write).all test = true := by
    rw [List.all_map,List.all_eq_true]
    exact fun a _ => passes a
  exact all

theorem isStringArray_write (xs : List Text) : isStringArray ((Serde.Codec.list .text).write xs) = true :=
  isArrayOf_write (fun _ => rfl) xs

theorem accepts_payload (body : Event.EventBody) :
    (payloadSchemas (engineKind body.kind)).accepts body.payload = described body := by
  cases body with
  | logAppend p =>
    obtain ⟨stream,chunk,encoding⟩ := p
    cases stream <;> cases encoding <;> rfl
  | buildStarted p =>
    have argv := isStringArray_write p.argv
    have whole : (payloadSchemas .buildStarted).accepts (Event.Wire.buildStarted.write p) =
      ((isStringArray ((Serde.Codec.list .text).write p.argv) && true) && true) := rfl
    exact whole.trans (by rw [argv]; rfl)
  | buildDiagnostic p =>
    obtain ⟨severity,file,line,col,message,source⟩ := p
    cases file <;> cases line <;> cases col <;> cases source <;> rfl
  | buildFinished p =>
    obtain ⟨status,exitCode,durationMs,artifacts⟩ := p
    have refs : isArrayOf artifactRef ((Serde.Codec.list Event.Wire.artifact).write artifacts) = true :=
      isArrayOf_write (fun a => rfl) artifacts
    have whole : (payloadSchemas .buildFinished).accepts (Event.Wire.buildFinished.write ⟨status,exitCode,durationMs,artifacts⟩) =
        ((exitCode.isSome && (isArrayOf artifactRef ((Serde.Codec.list Event.Wire.artifact).write artifacts) && true)) && true) := by
      cases status <;> cases exitCode <;> rfl
    exact whole.trans (by rw [refs]; simp [described])
  | runStarted p =>
    obtain ⟨qemuArgv,gdbStub⟩ := p
    have argv := isStringArray_write qemuArgv
    have whole : (payloadSchemas .runStarted).accepts (Event.Wire.runStarted.write ⟨qemuArgv,gdbStub⟩) =
        ((isStringArray ((Serde.Codec.list .text).write qemuArgv) && gdbStub.isNone) && true) := by
      cases gdbStub <;> rfl
    exact whole.trans (by rw [argv]; simp [described])
  | runFault p => rfl
  | runExited p =>
    obtain ⟨exitCode,reason,uptimeMs⟩ := p
    cases exitCode <;> cases reason <;> rfl
  | debugStopped p =>
    obtain ⟨reason,threadId,⟨id,name,source,pointer⟩,regs⟩ := p
    cases reason <;> cases source <;> rfl
  | debugBreakpointChanged p => rfl
  | debugOutput p =>
    obtain ⟨category,text⟩ := p
    cases category <;> rfl
  | symbolsIndexed p =>
    obtain ⟨artifact,buildId,symbolCount⟩ := p
    cases buildId <;> rfl
  | artifactChanged p =>
    obtain ⟨path,kind⟩ := p
    cases kind <;> rfl
  | aiChunk p => rfl
  | aiFinished p => rfl

-- A year from 0000 to 9999. The time library gives any other a sign, which the
-- pattern does not know.
def FourDigits (t : Event.DateTime) : Prop := -62167219200 ≤ t.seconds ∧ t.seconds < 253402300800

instance (t : Event.DateTime) : Decidable (FourDigits t) := inferInstanceAs (Decidable (_ ∧ _))

def Dates (chrono : Event.Chrono) (t : Event.DateTime) : Prop := isoTs (chrono.toRfc3339Millis t) = true ↔ FourDigits t

-- The envelopes that the engine writes and the front end takes.
theorem parse_serialize_iff (js : JavaScript) (origin : Text) (e : Event.Envelope) (dates : Dates chrono e.ts) :
    parseEventEnvelope js origin (e.serialize chrono) = .ok (e.serialize chrono) ↔
      1 ≤ e.seq ∧ FourDigits e.ts ∧ described e.body = true := by
  have named : ((e.serialize chrono).get "kind").bind kindOf = some (engineKind e.kind) := kindOf_engineKind e.kind
  have carried : (e.serialize chrono).get "payload" = some e.body.payload := rfl
  have seq : keyed "seq" (isPositive js) (e.serialize chrono) = decide (1 ≤ (e.seq : Int)) := rfl
  have ts : keyed "ts" isTimestamp (e.serialize chrono) = isoTs (chrono.toRfc3339Millis e.ts) := rfl
  rw [parseEventEnvelope_ok]
  constructor
  · rintro ⟨_,kind,payload,formed⟩
    have kinds := formed.named
    have payloads := formed.carried
    have positive := formed.seq
    have stamped := formed.ts
    rw [named] at kinds
    rw [carried] at payloads
    rw [seq,decide_eq_true_eq] at positive
    rw [ts] at stamped
    have schema := formed.schema
    rw [← Option.some.inj kinds,← Option.some.inj payloads,Event.Envelope.kind,accepts_payload] at schema
    exact ⟨by omega,dates.mp stamped,schema⟩
  · rintro ⟨positive,stamped,schema⟩
    refine ⟨rfl,engineKind e.kind,e.body.payload,rfl,rfl,?_,?_,?_,named,carried,?_,(accepts_payload e.body).trans schema⟩
    · rw [seq,decide_eq_true_eq]
      omega
    · rw [ts]
      exact dates.mpr stamped
    · cases opId : e.opId <;> simp only [Event.Envelope.serialize,opId] <;> rfl
    · cases e.body <;> rfl

def plainJs : JavaScript := ⟨fun v => match v with | .int n => (toString n).toList | _ => [],fun _ => none⟩

theorem parse_serialize_noon : parseEventEnvelope plainJs "event".toList (Event.noon.serialize Event.noonChrono) =
    .ok (Event.noon.serialize Event.noonChrono) := by
  have dates : Dates Event.noonChrono Event.noon.ts := iff_of_true (by decide) (by decide)
  exact (parse_serialize_iff plainJs "event".toList Event.noon dates).mpr ⟨by decide,by decide,rfl⟩

-- A page fault at 0x101000, as the engine writes it.
def fault : Event.Envelope := {Event.noon with body:=.runFault ⟨"#PF".toList,0x101000,"0000000000101000".toList,2,[],none⟩}

theorem parse_serialize_fault :
    fault.Fits ∧ 1 ≤ fault.seq ∧ FourDigits fault.ts ∧ Dates Event.noonChrono fault.ts ∧
    parseEventEnvelope plainJs "event".toList (fault.serialize Event.noonChrono) =
      .error ⟨"event.payload.rip".toList,"wrong type for kind run.fault: 1052672".toList⟩ := by
  have dates : Dates Event.noonChrono fault.ts := iff_of_true (by decide) (by decide)
  have unmapped : ∀ place ∈ (none : Option Event.SymbolicatedLocation), Event.Wire.symbolicatedLocation.Fits place := by simp
  have payload : fault.body.Fits :=
    ⟨trivial,show 0x101000 < 2^64 by decide,trivial,show 2 < 2^64 by decide,List.Pairwise.nil,unmapped,trivial⟩
  exact ⟨⟨show 1 < 2^32 by decide,show 7 < 2^64 by decide,payload⟩,by decide,by decide,dates,rfl⟩

end PrincessIDE.Contract
