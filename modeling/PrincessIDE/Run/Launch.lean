import PrincessIDE.Run.Backend
import PrincessIDE.Run.Process

namespace PrincessIDE.RunBackend
open Utf8 Str Error Event Effect Reader Serial
open Process (SpawnSpec ProcessOutcome)

structure GdbStub where
  host : Text
  port : Nat
deriving DecidableEq, Repr

def GdbStub.endpoint (stub : GdbStub) : Text := stub.host ++ ':' :: decimal stub.port

structure SerialCapture where
  device : Text
  teeToFile : Option Text
deriving DecidableEq, Repr

structure RunPlan where
  argv : List Text
  cwd : Text
  timeoutMs : Nat
  serial : SerialCapture
  gdbStub : Option GdbStub
deriving DecidableEq, Repr

def valueAfter (flag : Text) : List Text → Option Text
  | [] => none
  | token :: rest => if token = flag then rest.head? else valueAfter flag rest

def qemuDebugItems : Text := "int,cpu_reset,guest_errors".toList

-- `{:?}` of an option, from that of its value.
def quotedOption (quoted : α → Text) : Option α → Text
  | none => "None".toList
  | some a => "Some(".toList ++ quoted a ++ ")".toList

-- One pair of the contract; `why` is what the complaint says of it.
def checkPair (quoted : Text → Text) (argv : List Text) (flag value why : Text) : Except PrincessError Unit :=
  if valueAfter flag argv = some value then .ok ()
  else .error (.internal ("QEMU argv must carry \x60".toList ++ flag ++ " ".toList ++ value ++ "\x60".toList ++ why ++
    " (D9); got ".toList ++ quotedOption quoted (valueAfter flag argv)))

def checkArgvContract (quoted : Text → Text) (argv : List Text) : Except PrincessError Unit := do
  if "-nographic".toList ∈ argv then
    throw (.internal "QEMU argv contains -nographic, which D9 forbids: it multiplexes the monitor onto the serial stream".toList)
  checkPair quoted argv "-serial".toList "stdio".toList []
  checkPair quoted argv "-monitor".toList "none".toList []
  checkPair quoted argv "-display".toList "none".toList []
  checkPair quoted argv "-d".toList qemuDebugItems " so a triple fault is observable".toList
  if "-D".toList ∉ argv then
    throw (.internal "QEMU argv has -d but no -D: the debug output would go to stderr and be lost".toList)

structure ExitFacts where
  exitCode : Option Int
  signal : Option Int
  timedOut : Bool
  cancelled : Bool
  guestPoweredOff : Bool
  tripleFault : Bool
deriving DecidableEq, Repr

def classifyExit (facts : ExitFacts) : ExitReason :=
  if facts.cancelled then .killed
  else if facts.timedOut then .timeout
  else if facts.tripleFault then .tripleFault
  else if facts.guestPoweredOff then .guestShutdown
  else match facts.exitCode with
    | some 0 => .guestShutdown
    | _ => .killed

structure QemuEvidence where
  exitCode : Option Int
  signal : Option Int
  timedOut : Bool
  cancelled : Bool
  tripleFault : Bool
  guestShutdown : Bool
deriving DecidableEq, Repr

namespace QemuEvidence

def intoFacts (e : QemuEvidence) : ExitFacts :=
  ⟨e.exitCode,e.signal,e.timedOut,e.cancelled,e.guestShutdown && !e.timedOut && !e.cancelled && !e.tripleFault,e.tripleFault⟩

def reason (e : QemuEvidence) : ExitReason := classifyExit e.intoFacts

end QemuEvidence

-- `{}` of a signed number.
def signedText : Int → Text
  | .ofNat n => decimal n
  | .negSucc n => '-' :: decimal (n+1)

def QemuEvidence.justification (e : QemuEvidence) : Text :=
  let because (basis : Text) := e.reason.asStr ++ ": ".toList ++ basis
  match e.reason with
  | .killed =>
    if e.cancelled then because "cancellation was requested".toList
    else match e.exitCode,e.signal with
      | _,some sig => "killed: signal ".toList ++ signedText sig ++ " (no cancellation was requested)".toList
      | some code,none => "killed: exit code ".toList ++ signedText code ++ " with no shutdown evidence".toList
      | none,none => because "no exit status was available".toList
  | .timeout => because "the deadline fired before the machine stopped".toList
  | .tripleFault => because "\x60Triple fault\x60 appeared in the -d int,cpu_reset log".toList
  | .guestShutdown =>
    if e.guestShutdown then because "the guest requested power-off and QEMU exited cleanly".toList
    else because "a clean exit with no reset and no fault".toList

def detectTripleFault (debugLog : Text) : Bool :=
  (lines debugLog).any fun line => contains "triple fault".toList (line.map toAsciiLowercase)

-- A log that cannot be read is no evidence.
def tripleFaultInFile (files : Text → Option Bytes) (path : Text) : Bool := match files path with
  | some bytes => detectTripleFault (lossy bytes)
  | none => false

structure RunOutcome where
  exitCode : Option Int
  reason : ExitReason
  uptimeMs : Nat
  fault : Option RunFaultPayload
  serialLog : Option Text
deriving DecidableEq, Repr

def RunOutcome.exitedEvent (o : RunOutcome) : RunExitedPayload := ⟨o.exitCode,o.reason,o.uptimeMs⟩

-- What a launch is given beside its plan: the backend's debug log, the runner with
-- the chunks that it hands over, and what the file system, the clock and the cancel
-- token answer behind it.
structure Machine where
  debugLog : Option Text
  quoted : Text → Text
  runner : SpawnSpec → List StreamChunk × Except PrincessError ProcessOutcome
  files : Text → Option Bytes
  uptimeMs : Nat
  cancelled : Bool
  symbols : Option SymbolizeFn
  sink : Sink

def spawnSpec (plan : RunPlan) : SpawnSpec := ⟨plan.argv,plan.cwd,some plan.timeoutMs,plan.serial.teeToFile⟩

def debugLogFromArgv (argv : List Text) : Option Text := valueAfter "-D".toList argv

def evidenceFrom (m : Machine) (plan : RunPlan) (outcome : ProcessOutcome) (debugLog : Option Text) : QemuEvidence :=
  let tripleFault := (debugLog.map (tripleFaultInFile m.files)).getD false
  let guestShutdown := outcome.exitCode = some 0 ∧ outcome.signal = none ∧ ¬ outcome.timedOut ∧ ¬ outcome.cancelled ∧ ¬ tripleFault
  ⟨outcome.exitCode,outcome.signal,outcome.timedOut,outcome.cancelled || m.cancelled,tripleFault,
    guestShutdown ∧ plan.serial.device = "com1".toList⟩

def summaryText (observer : SerialObserver) (faults suppressed : Nat) : Text :=
  "serial: banner_seen=".toList ++ boolText observer.banner.isSome ++ " panic_seen=".toList ++ boolText observer.panicSeen ++
    " faults=".toList ++ decimal faults ++
    (if suppressed > 0 then " (suppressed=".toList ++ decimal suppressed ++ ")".toList else []) ++
    match observer.fault with
    | some fault => " last_fault=".toList ++ fault.ripText ++ " ".toList ++ fault.vector
    | none => []
where
  boolText (b : Bool) : Text := if b then "true".toList else "false".toList

def endedText (plan : RunPlan) (evidence : QemuEvidence) (exitCode : Option Int) (uptimeMs : Nat) : Text :=
  "run ended: reason=".toList ++ evidence.reason.asStr ++ ", exit=".toList ++ quotedOption signedText exitCode ++
    ", uptime=".toList ++ decimal uptimeMs ++ " ms (".toList ++ evidence.justification ++ ")".toList ++
    match plan.serial.teeToFile with
    | some path => ", serial log ".toList ++ path
    | none => []

-- The machine never reported a status.
def failedRun (m : Machine) (plan : RunPlan) (s : Handling) (e : PrincessError) : Action (List EventBody) PrincessError RunOutcome := do
  let terminal : RunOutcome := ⟨none,.killed,m.uptimeMs,s.faults.getLast?,plan.serial.teeToFile⟩
  note m.sink ("run failed before the machine stopped: ".toList ++ e.display)
  emit m.sink (.runExited terminal.exitedEvent)
  throw e

def endedRun (m : Machine) (plan : RunPlan) (s : Handling) (outcome : ProcessOutcome) : Action (List EventBody) PrincessError RunOutcome := do
  let evidence := evidenceFrom m plan outcome (m.debugLog.or (debugLogFromArgv plan.argv))
  note m.sink (summaryText s.observer s.faults.length s.suppressed)
  note m.sink (endedText plan evidence outcome.exitCode m.uptimeMs)
  let terminal : RunOutcome := ⟨outcome.exitCode,evidence.reason,m.uptimeMs,s.faults.getLast?,plan.serial.teeToFile⟩
  emit m.sink (.runExited terminal.exitedEvent)
  pure terminal

def concludeRun (m : Machine) (plan : RunPlan) (s : Launch) (outcome : Except PrincessError ProcessOutcome) :
    Action (List EventBody) PrincessError RunOutcome := do
  set s.handling.events
  match s.emitError,outcome with
  | some e,_ => throw e
  | none,.error e => failedRun m plan s.handling e
  | none,.ok outcome => endedRun m plan s.handling outcome

def launchPlan (m : Machine) (plan : RunPlan) : Action (List EventBody) PrincessError RunOutcome :=
  match checkArgvContract m.quoted plan.argv with
  | .error e => throw e
  | .ok _ => do
    emit m.sink (.runStarted ⟨plan.argv,plan.gdbStub.map GdbStub.endpoint⟩)
    let (chunks,outcome) := m.runner (spawnSpec plan)
    concludeRun m plan (chunks.foldl (onChunk m.sink m.symbols) ⟨⟨← get,.new,[],0⟩,none⟩) outcome

def isStarted : EventBody → Bool
  | .runStarted _ => true
  | _ => false

def isExited : EventBody → Bool
  | .runExited _ => true
  | _ => false

def noteBody (text : Text) : EventBody := .logAppend ⟨.ide,if text.getLast? = some '\n' then text else text ++ ['\n'],.utf8⟩

-- The note that tells how many faults were suppressed.
def Tells (count : Nat) (body : EventBody) : Prop := ∃ observer faults, body = noteBody (summaryText observer faults count)

def eventsOf (m : Machine) (plan : RunPlan) : List EventBody := after (launchPlan m plan) []

def seenFaults (observations : List SerialObservation) : List RawFault := observations.filterMap fun
  | .fault raw => some raw
  | _ => none

-- The faults that the observer finds in some lines, in their order.
def found : SerialObserver → List Text → List RawFault
  | _,[] => []
  | o,line :: rest => seenFaults (feed o line).1 ++ found (feed o line).2 rest

def foundBy (m : Machine) (plan : RunPlan) : List RawFault := found .new (serialLines (m.runner (spawnSpec plan)).1)

def payloadOf (symbols : Option SymbolizeFn) (raw : RawFault) : RunFaultPayload :=
  raw.intoPayload (symbols.bind (fun lookup => lookup raw.rip))

structure Orderly (m : Machine) (plan : RunPlan) : Prop where
  started : (eventsOf m plan).countP isStarted = 1
  first : ((eventsOf m plan).head?).any isStarted
  exited : (eventsOf m plan).countP isExited = 1
  last : ((eventsOf m plan).getLast?).any isExited
  faults : faultsOf (eventsOf m plan) = ((foundBy m plan).take maxFaultEvents).map (payloadOf m.symbols)
  suppression : maxFaultEvents < (foundBy m plan).length →
    ∃ body ∈ eventsOf m plan, Tells ((foundBy m plan).length-maxFaultEvents) body

-- A tally of the faults seen so far: the first are kept, the others counted.
def Capped (symbols : Option SymbolizeFn) (seen : List RawFault) (t : Tally) : Prop :=
  t.faults = (seen.take maxFaultEvents).map (payloadOf symbols) ∧ t.suppressed = seen.length-maxFaultEvents

theorem absorb_capped (capped : Capped symbols seen t) (o : SerialObservation) :
    Capped symbols (seen ++ seenFaults [o]) (t.absorb symbols o) := by
  obtain ⟨kept,dropped⟩ := capped
  have length : t.faults.length = min maxFaultEvents seen.length := by
    rw [kept,List.length_map,List.length_take]
  cases o with
  | fault raw =>
    change Capped symbols (seen ++ [raw]) _
    rw [Tally.absorb,length]
    by_cases full : maxFaultEvents ≤ seen.length
    · rw [if_pos (by omega)]
      refine ⟨?_,?_⟩
      · rw [List.take_append_of_le_length full]
        exact kept
      · dsimp only
        rw [dropped,List.length_append,List.length_singleton]
        omega
    · rw [if_neg (by omega)]
      refine ⟨?_,?_⟩
      · dsimp only
        rw [kept,List.take_of_length_le (by omega),List.take_of_length_le (by simp; omega),List.map_append]
        rfl
      · dsimp only
        rw [dropped,List.length_append,List.length_singleton]
        omega
  | banner text | panicked | pagingState enabled =>
    change Capped symbols (seen ++ []) t
    rw [List.append_nil]
    exact ⟨kept,dropped⟩

theorem absorb_observer (symbols : Option SymbolizeFn) (t : Tally) (o : SerialObservation) : (t.absorb symbols o).observer = t.observer := by
  cases o with
  | fault raw =>
    rw [Tally.absorb]
    split <;> rfl
  | banner text | panicked | pagingState enabled => rfl

theorem absorbs_capped (observations : List SerialObservation) (capped : Capped symbols seen t) :
    Capped symbols (seen ++ seenFaults observations) (observations.foldl (Tally.absorb symbols) t) ∧
    (observations.foldl (Tally.absorb symbols) t).observer = t.observer := by
  induction observations generalizing seen t with
  | nil =>
    rw [show seen ++ seenFaults [] = seen from List.append_nil seen]
    exact ⟨capped,rfl⟩
  | cons o rest ih =>
    obtain ⟨later,observer⟩ := ih (absorb_capped capped o)
    have split : seenFaults (o :: rest) = seenFaults [o] ++ seenFaults rest := List.filterMap_append (l:=[o])
    rw [split,← List.append_assoc]
    exact ⟨later,observer.trans (absorb_observer symbols t o)⟩

theorem lines_capped (ls : List Text) (capped : Capped symbols seen t) :
    Capped symbols (seen ++ found t.observer ls) (ls.foldl (Tally.line symbols) t) := by
  induction ls generalizing seen t with
  | nil =>
    rw [found,List.append_nil]
    exact capped
  | cons line rest ih =>
    have start : Capped symbols seen {t with observer:=(feed t.observer line).2} := capped
    obtain ⟨here,observer⟩ := absorbs_capped (feed t.observer line).1 start
    have later := ih (t:=t.line symbols line) here
    rw [show (t.line symbols line).observer = (feed t.observer line).2 from observer,List.append_assoc] at later
    exact later

-- What the handler sends between the first and the last event: nothing of theirs,
-- and no summary.
def Ordinary : EventBody → Bool
  | .runStarted _ => false
  | .runExited _ => false
  | .logAppend payload => payload.stream ≠ .ide ∨ payload.chunk.head? ≠ some 's'
  | _ => true

def Adds (s t : Handling) : Prop := ∃ added, t.events = s.events ++ added ∧ ∀ body ∈ added, Ordinary body = true

instance : IsPreorder Handling Adds where
  refl s := ⟨[],by simp,by simp⟩
  trans s t u := by
    intro ⟨one,events,ordinary⟩ ⟨two,events',ordinary'⟩
    refine ⟨one++two,by rw [events',events,List.append_assoc],?_⟩
    intro body member
    rcases List.mem_append.mp member with first | second
    · exact ordinary body first
    · exact ordinary' body second

theorem emit_adds (sink : Sink) (ordinary : Ordinary body = true) : Moves Adds (sending (emit sink body)) := by
  intro s
  rw [sending,after_zoom,after,emit_settles]
  cases sink s.events body with
  | some e => exact refl_of Adds s
  | none => exact ⟨[body],rfl,by simpa using ordinary⟩

theorem noteBody_ordinary (other : c ≠ 's') (rest : Text) : Ordinary (noteBody (c :: rest)) = true := by
  simp only [Ordinary,noteBody,decide_eq_true_eq]
  refine .inr ?_
  split <;> simpa using other

theorem note_adds (sink : Sink) (other : c ≠ 's') (rest : Text) : Moves Adds (sending (note sink (c :: rest))) :=
  emit_adds sink (noteBody_ordinary other rest)

theorem update_adds {f : Handling → Handling} (events : ∀ s, (f s).events = s.events) : Moves Adds (modify f : Handler) := by
  apply Moves.modify
  intro s
  exact ⟨[],by simp [events],by simp⟩

theorem gateNote_start (told : gateNote gate = some text) : ∃ rest, text = 'g' :: rest := by
  unfold gateNote at told
  split at told
  · cases told
  · exact ⟨_,(Option.some.inj told).symm⟩
  · exact ⟨_,(Option.some.inj told).symm⟩

theorem faultNote_start (raw : RawFault) (location : Option SymbolicatedLocation) : ∃ rest, faultNote raw location = 'f' :: rest := by
  cases location with
  | some location => exact ⟨_,rfl⟩
  | none => exact ⟨_,rfl⟩

theorem reportGate_adds (sink : Sink) (raw : RawFault) : Moves Adds (reportGate sink raw) := by
  unfold reportGate
  split
  · refine .bind .get fun s => ?_
    split
    · rename_i text told
      obtain ⟨rest,rfl⟩ := gateNote_start told
      exact note_adds sink (by decide) rest
    · exact .pure _
  · exact .pure _

theorem reportFault_adds (sink : Sink) (payload : RunFaultPayload) : Moves Adds (reportFault sink payload) := by
  unfold reportFault
  refine .bind .get fun s => ?_
  split
  · refine .bind (update_adds fun _ => rfl) fun _ => .bind .get fun t => ?_
    split
    · exact note_adds (c:= 'm') sink (by decide) _
    · exact .pure _
  · exact .bind (emit_adds sink rfl) fun _ => update_adds fun _ => rfl

theorem onObservation_adds (sink : Sink) (symbols : Option SymbolizeFn) (o : SerialObservation) :
    Moves Adds (onObservation sink symbols o) := by
  cases o with
  | banner text => exact note_adds (c:= 'g') sink (by decide) _
  | pagingState enabled => exact note_adds (c:= 'g') sink (by decide) _
  | panicked => exact note_adds (c:= 'g') sink (by decide) _
  | fault raw =>
    obtain ⟨rest,text⟩ := faultNote_start raw (symbols.bind fun lookup => lookup raw.rip)
    refine .bind (reportGate_adds sink raw) fun _ => .bind ?_ fun _ => reportFault_adds sink _
    rw [text]
    exact note_adds sink (by decide) rest

theorem handleChunk_adds (sink : Sink) (symbols : Option SymbolizeFn) (chunk : StreamChunk) :
    Moves Adds (handleChunk sink symbols chunk) := by
  unfold handleChunk
  split
  · refine .bind (emit_adds sink rfl) fun _ => .each fun line _ => ?_
    exact .bind .get fun s => .bind (update_adds fun _ => rfl) fun _ => .each fun o _ => onObservation_adds sink symbols o
  · exact emit_adds sink rfl

theorem chunks_adds (sink : Sink) (symbols : Option SymbolizeFn) (chunks : List StreamChunk) (s : Launch) :
    Adds s.handling (chunks.foldl (onChunk sink symbols) s).handling := by
  induction chunks generalizing s with
  | nil => exact refl_of Adds s.handling
  | cons c cs ih =>
    refine trans_of Adds ?_ (ih _)
    rcases onChunk_handling sink symbols s c with same | handled
    · rw [same]
      exact refl_of Adds s.handling
    · rw [handled]
      exact handleChunk_adds sink symbols c s.handling

theorem note_run (accepts : Accepts sink) (text : Text) (events : List EventBody) :
    (note sink text).run events = .ok () (events ++ [noteBody text]) := emit_run accepts (noteBody text) events

def exitedBody (m : Machine) (plan : RunPlan) : Except PrincessError ProcessOutcome → EventBody
  | .error _ => .runExited ⟨none,.killed,m.uptimeMs⟩
  | .ok outcome => .runExited
    ⟨outcome.exitCode,(evidenceFrom m plan outcome (m.debugLog.or (debugLogFromArgv plan.argv))).reason,m.uptimeMs⟩

-- The notes that come last before the final event.
def closingNotes (m : Machine) (plan : RunPlan) (s : Handling) : Except PrincessError ProcessOutcome → List Text
  | .error e => ["run failed before the machine stopped: ".toList ++ e.display]
  | .ok outcome => [summaryText s.observer s.faults.length s.suppressed,
    endedText plan (evidenceFrom m plan outcome (m.debugLog.or (debugLogFromArgv plan.argv))) outcome.exitCode m.uptimeMs]

theorem concludeRun_accepts (accepts : Accepts m.sink) (healthy : s.emitError = none) (outcome : Except PrincessError ProcessOutcome)
    (events : List EventBody) : after (concludeRun m plan s outcome) events =
      s.handling.events ++ ((closingNotes m plan s.handling outcome).map noteBody ++ [exitedBody m plan outcome]) := by
  obtain ⟨handling,emitError⟩ := s
  dsimp only at healthy
  subst healthy
  cases outcome with
  | error e =>
    change after (failedRun m plan handling e) handling.events = _
    rw [after,failedRun,run_bind_ok (note_run accepts _ _),run_bind_ok (emit_run accepts _ _),List.append_assoc]
    rfl
  | ok outcome =>
    change after (endedRun m plan handling outcome) handling.events = _
    rw [after,endedRun,run_bind_ok (note_run accepts _ _),run_bind_ok (note_run accepts _ _),
      run_bind_ok (emit_run accepts _ _),List.append_assoc,List.append_assoc]
    rfl

def startedBody (plan : RunPlan) : EventBody := .runStarted ⟨plan.argv,plan.gdbStub.map GdbStub.endpoint⟩

-- The state of a launch behind its runner.
def ran (m : Machine) (plan : RunPlan) : Launch :=
  (m.runner (spawnSpec plan)).1.foldl (onChunk m.sink m.symbols) ⟨⟨[startedBody plan],.new,[],0⟩,none⟩

theorem launchPlan_events (accepts : Accepts m.sink) (passes : checkArgvContract m.quoted plan.argv = .ok ())
    (healthy : (ran m plan).emitError = none) : eventsOf m plan = (ran m plan).handling.events ++
      ((closingNotes m plan (ran m plan).handling (m.runner (spawnSpec plan)).2).map noteBody ++
        [exitedBody m plan (m.runner (spawnSpec plan)).2]) := by
  have here : eventsOf m plan = after (concludeRun m plan (ran m plan) (m.runner (spawnSpec plan)).2) [startedBody plan] := by
    rw [eventsOf,launchPlan,passes,after]
    dsimp only
    rw [run_bind_ok (emit_run accepts _ _)]
    rfl
  rw [here,concludeRun_accepts accepts healthy]

theorem ordinary_inner (ordinary : Ordinary body = true) : isStarted body = false ∧ isExited body = false := by
  cases body with
  | runStarted payload | runExited payload => cases ordinary
  | _ => exact ⟨rfl,rfl⟩

-- A summary is a note that no ordinary event is.
theorem ordinary_untold (ordinary : Ordinary body = true) (count : Nat) : ¬ Tells count body := by
  rintro ⟨observer,faults,rfl⟩
  have start : ∃ rest, summaryText observer faults count = 's' :: rest := ⟨_,rfl⟩
  obtain ⟨rest,start⟩ := start
  rw [noteBody,start] at ordinary
  simp only [Ordinary,decide_eq_true_eq] at ordinary
  rcases ordinary with stream | head
  · exact stream rfl
  · apply head
    split <;> rfl

-- A launch is one first event, ordinary ones, notes and one last event.
structure Shaped (m : Machine) (plan : RunPlan) (added : List EventBody) : Prop where
  events : eventsOf m plan = startedBody plan :: (added ++
    ((closingNotes m plan (ran m plan).handling (m.runner (spawnSpec plan)).2).map noteBody ++
      [exitedBody m plan (m.runner (spawnSpec plan)).2]))
  ordinary : ∀ body ∈ added, Ordinary body = true
  faults : faultsOf (eventsOf m plan) = (ran m plan).handling.faults
  capped : Capped m.symbols (foundBy m plan) (ran m plan).handling.tally

theorem launchPlan_shaped (accepts : Accepts m.sink) (passes : checkArgvContract m.quoted plan.argv = .ok ()) :
    ∃ added, Shaped m plan added := by
  obtain ⟨healthy,tally,sent⟩ := chunks_does accepts m.symbols (s:=⟨⟨[startedBody plan],.new,[],0⟩,none⟩) rfl rfl (m.runner (spawnSpec plan)).1
  obtain ⟨added,whole,ordinary⟩ := chunks_adds m.sink m.symbols (m.runner (spawnSpec plan)).1 ⟨⟨[startedBody plan],.new,[],0⟩,none⟩
  have events := launchPlan_events accepts passes healthy
  have whole : (ran m plan).handling.events = startedBody plan :: added := whole
  have tally : (ran m plan).handling.tally = (serialLines (m.runner (spawnSpec plan)).1).foldl (Tally.line m.symbols) .new := tally
  have start : Capped m.symbols [] Tally.new := ⟨rfl,rfl⟩
  refine ⟨added,?_,ordinary,?_,?_⟩
  · rw [events,whole,List.cons_append]
  · have none : ∀ texts : List Text, faultsOf (texts.map noteBody) = [] := by
      intro texts
      induction texts with
      | nil => rfl
      | cons text rest ih => exact ih
    have last : faultsOf [exitedBody m plan (m.runner (spawnSpec plan)).2] = [] := by
      cases (m.runner (spawnSpec plan)).2 <;> rfl
    rw [events,faultsOf,List.filterMap_append,List.filterMap_append]
    change faultsOf (ran m plan).handling.events ++ (faultsOf _ ++ faultsOf _) = _
    rw [none,last,List.append_nil,List.append_nil]
    exact sent
  · rw [tally]
    exact lines_capped _ start

theorem exitedBody_last (m : Machine) (plan : RunPlan) (outcome : Except PrincessError ProcessOutcome) :
    isExited (exitedBody m plan outcome) = true ∧ isStarted (exitedBody m plan outcome) = false := by
  cases outcome with
  | error e => exact ⟨rfl,rfl⟩
  | ok outcome => exact ⟨rfl,rfl⟩

theorem Shaped.counts (shaped : Shaped m plan added) :
    (eventsOf m plan).countP isStarted = 1 ∧ (eventsOf m plan).countP isExited = 1 := by
  obtain ⟨last,unstarted⟩ := exitedBody_last m plan (m.runner (spawnSpec plan)).2
  have noted : ∀ (texts : List Text) (p : EventBody → Bool), (∀ text, p (noteBody text) = false) → (texts.map noteBody).countP p = 0 := by
    intro texts p none
    rw [List.countP_eq_zero]
    intro body member
    obtain ⟨text,-,rfl⟩ := List.mem_map.mp member
    simp [none]
  have started : added.countP isStarted = 0 := by
    rw [List.countP_eq_zero]
    intro body member
    simp [(ordinary_inner (shaped.ordinary body member)).1]
  have exited : added.countP isExited = 0 := by
    rw [List.countP_eq_zero]
    intro body member
    simp [(ordinary_inner (shaped.ordinary body member)).2]
  rw [shaped.events]
  constructor
  · rw [List.countP_cons_of_pos rfl,List.countP_append,List.countP_append,started,noted _ _ fun _ => rfl,
      List.countP_singleton,unstarted]
    rfl
  · rw [List.countP_cons_of_neg Bool.false_ne_true,List.countP_append,List.countP_append,exited,noted _ _ fun _ => rfl,
      List.countP_singleton,last]
    rfl

theorem Shaped.told (shaped : Shaped m plan added) : (∃ body ∈ eventsOf m plan, Tells ((foundBy m plan).length-maxFaultEvents) body) ↔
    (m.runner (spawnSpec plan)).2.isOk = true := by
  have dropped := shaped.capped.2
  rw [shaped.events]
  cases outcome : (m.runner (spawnSpec plan)).2 with
  | ok status =>
    refine iff_of_true ?_ rfl
    refine ⟨noteBody (summaryText (ran m plan).handling.observer (ran m plan).handling.faults.length (ran m plan).handling.suppressed),?_,?_⟩
    · simp [closingNotes]
    · exact ⟨_,_,by rw [← dropped]; rfl⟩
  | error e =>
    refine iff_of_false ?_ (by simp [Except.isOk,Except.toBool])
    rintro ⟨body,member,tells⟩
    simp only [closingNotes,List.map_cons,List.map_nil,List.cons_append,List.nil_append,List.mem_cons,List.mem_append,
      List.not_mem_nil,or_false] at member
    rcases member with rfl | ordinary | rfl | rfl
    · obtain ⟨_,_,same⟩ := tells
      cases same
    · exact ordinary_untold (shaped.ordinary body ordinary) _ tells
    · exact ordinary_untold (noteBody_ordinary (c:= 'r') (by decide) _) _ tells
    · obtain ⟨_,_,same⟩ := tells
      cases same

-- Whatever the machine prints and however the runner ends: everything in order,
-- except that an error of the runner leaves suppressed faults uncounted.
theorem launch_orderly (accepts : Accepts m.sink) (passes : checkArgvContract m.quoted plan.argv = .ok ()) :
    Orderly m plan ↔ (m.runner (spawnSpec plan)).2.isOk = true ∨ (foundBy m plan).length ≤ maxFaultEvents := by
  obtain ⟨added,shaped⟩ := launchPlan_shaped accepts passes
  constructor
  · intro orderly
    by_cases few : (foundBy m plan).length ≤ maxFaultEvents
    · exact .inr few
    · exact .inl (shaped.told.mp (orderly.suppression (Nat.lt_of_not_le few)))
  · intro told
    refine ⟨shaped.counts.1,?_,shaped.counts.2,?_,?_,?_⟩
    · rw [shaped.events]
      rfl
    · rw [shaped.events,← List.cons_append,← List.append_assoc,List.getLast?_append]
      simp [(exitedBody_last m plan _).1]
    · rw [shaped.faults]
      exact shaped.capped.1
    · intro many
      rcases told with ok | few
      · exact shaped.told.mpr ok
      · exact absurd many (Nat.not_lt.mpr few)

def seabiosPlan : RunPlan :=
  ⟨["-serial".toList,"stdio".toList,"-monitor".toList,"none".toList,"-display".toList,"none".toList,"-d".toList,qemuDebugItems,
    "-D".toList,"log".toList],[],0,⟨"com1".toList,none⟩,none⟩

theorem seabiosPlan_passes : checkArgvContract id seabiosPlan.argv = .ok () := by decide

def faultChunk : StreamChunk := ⟨.serial,"FAULT_RIP=0x10\n".toList,.utf8,false⟩

def storm (outcome : Except PrincessError ProcessOutcome) : Machine :=
  ⟨none,id,fun _ => (List.replicate 17 faultChunk,outcome),fun _ => none,0,false,none,fun _ _ => none⟩

theorem launch_orderly_storm : Orderly (storm (.ok ⟨some 0,none,false,false,0,true⟩)) seabiosPlan := by
  have accepts : Accepts (storm (.ok ⟨some 0,none,false,false,0,true⟩)).sink := fun _ _ => rfl
  have passes : checkArgvContract (storm (.ok ⟨some 0,none,false,false,0,true⟩)).quoted seabiosPlan.argv = .ok () := seabiosPlan_passes
  exact (launch_orderly accepts passes).mpr (.inl rfl)

theorem found_marked (ls : List Text)
    (marked : ∀ line ∈ ls, ∃ f, (splitOnce faultPrefix line).bind (fun found => parseFault found.2) = some f)
    (o : SerialObserver) : ls.length ≤ (found o ls).length := by
  induction ls generalizing o with
  | nil => exact Nat.le_refl 0
  | cons line rest ih =>
    obtain ⟨raw,seen⟩ := (feed_fault o line).mpr (marked line List.mem_cons_self)
    have member : raw ∈ seenFaults (feed o line).1 := List.mem_filterMap.mpr ⟨.fault raw,seen,rfl⟩
    have one := List.length_pos_of_mem member
    have later := ih (fun l member => marked l (List.mem_cons_of_mem _ member)) (feed o line).2
    rw [found,List.length_append,List.length_cons]
    omega

-- A runner that fails behind a storm of faults: nobody is told how many were
-- suppressed.
theorem failed_untold : ¬ ∀ m plan, Accepts m.sink → checkArgvContract m.quoted plan.argv = .ok () → Orderly m plan := by
  intro claim
  have accepts : Accepts (storm (.error (.internal []))).sink := fun _ _ => rfl
  have orderly := claim (storm (.error (.internal []))) seabiosPlan accepts seabiosPlan_passes
  have lines : serialLines (List.replicate 17 faultChunk) = List.replicate 17 "FAULT_RIP=0x10".toList := by decide
  have many : 17 ≤ (foundBy (storm (.error (.internal []))) seabiosPlan).length := by
    change 17 ≤ (found .new (serialLines (List.replicate 17 faultChunk))).length
    rw [lines]
    refine found_marked (List.replicate 17 "FAULT_RIP=0x10".toList) ?_ .new
    intro line member
    rw [List.eq_of_mem_replicate member]
    exact Option.isSome_iff_exists.mp (by decide)
  rcases (launch_orderly accepts seabiosPlan_passes).mp orderly with ok | few
  · cases ok
  · exact absurd (Nat.le_trans many few) (by decide)

end PrincessIDE.RunBackend
