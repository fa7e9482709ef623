import PrincessIDE.Run.Launch

namespace PrincessIDE.Jvm
open Utf8 Error Event Effect Reader RunBackend
open Process (SpawnSpec ProcessOutcome)

abbrev Runner := SpawnSpec → List StreamChunk × Except PrincessError ProcessOutcome

-- The guest has no power switch and no faults, and nothing is teed.
def spawnSpec (plan : RunPlan) : SpawnSpec := ⟨plan.argv,plan.cwd,some plan.timeoutMs,none⟩

def logOf (chunk : StreamChunk) : EventBody := .logAppend ⟨.ide,chunk.text,.utf8⟩

def outcomeOf (output : ProcessOutcome) (uptimeMs : Nat) : RunOutcome :=
  let reason := classifyExit ⟨output.exitCode,output.signal,output.timedOut,output.cancelled,false,false⟩
  ⟨output.exitCode,reason,uptimeMs,none,none⟩

-- The runner has ended when the chunks that it handed over are published.
def launch (runner : Runner) (uptimeMs : Nat) (sink : Sink) (plan : RunPlan) : Action (List EventBody) PrincessError RunOutcome := do
  emit sink (.runStarted ⟨plan.argv,none⟩)
  let (chunks,output) := runner (spawnSpec plan)
  match output with
  | .error e => throw e
  | .ok output =>
    chunks.forM fun chunk => emit sink (logOf chunk)
    let outcome := outcomeOf output uptimeMs
    emit sink (.runExited outcome.exitedEvent)
    pure outcome

def eventsOf (runner : Runner) (uptimeMs : Nat) (sink : Sink) (plan : RunPlan) : List EventBody := after (launch runner uptimeMs sink plan) []

-- The start, the chunks as they came, and the end.
def Published (chunks : List StreamChunk) (events : List EventBody) : Prop := ∃ started exited, ∃ logs : List LogAppendPayload,
  events = .runStarted started :: logs.map .logAppend ++ [.runExited exited] ∧
  logs.map (fun log => (log.chunk,log.encoding)) = chunks.map fun chunk => (chunk.text,chunk.encoding)

theorem run_emits (accepts : Accepts sink) (f : α → EventBody) (xs : List α) (events : List EventBody) :
    (xs.forM fun x => emit sink (f x)).run events = .ok ⟨⟩ (events ++ xs.map f) := by
  induction xs generalizing events with
  | nil => exact congrArg (EStateM.Result.ok PUnit.unit) (List.append_nil events).symm
  | cons x rest ih =>
    have first := emit_run accepts (f x) events
    change (emit sink (f x) >>= fun _ => rest.forM fun x => emit sink (f x)).run events = _
    rw [run_bind_ok first,ih,List.map_cons,List.append_assoc]
    rfl

theorem launch_failed (accepts : Accepts sink) {runner : Runner} (handed : runner (spawnSpec plan) = (chunks,.error e)) (uptimeMs : Nat) :
    eventsOf runner uptimeMs sink plan = [.runStarted ⟨plan.argv,none⟩] := by
  refine after_error (e:=e) ?_
  rw [launch,run_bind_ok (emit_run accepts _ []),handed]
  rfl

theorem launch_ended (accepts : Accepts sink) {runner : Runner} (handed : runner (spawnSpec plan) = (chunks,.ok output)) (uptimeMs : Nat) :
    eventsOf runner uptimeMs sink plan = .runStarted ⟨plan.argv,none⟩ :: chunks.map logOf ++
      [.runExited (outcomeOf output uptimeMs).exitedEvent] := by
  refine after_ok (a:=outcomeOf output uptimeMs) ?_
  rw [launch,run_bind_ok (emit_run accepts _ []),handed]
  change (chunks.forM (fun chunk => emit sink (logOf chunk)) >>= _).run _ = _
  rw [run_bind_ok (run_emits accepts logOf chunks _),run_bind_ok (emit_run accepts _ _)]
  rfl

theorem published_clean (chunks : List StreamChunk) (started : RunStartedPayload) (exited : RunExitedPayload) :
    Published chunks (.runStarted started :: chunks.map logOf ++ [.runExited exited]) ↔ ∀ chunk ∈ chunks, chunk.encoding = .utf8 := by
  constructor
  · rintro ⟨_,_,logs,events,same⟩
    have between := (List.append_inj' (List.cons.inj events).2 rfl).1
    have taken : logs = chunks.map fun chunk => ⟨.ide,chunk.text,.utf8⟩ := by
      refine (List.map_inj_right fun one other => EventBody.logAppend.inj).mp (between.symm.trans ?_)
      rw [List.map_map]
      rfl
    rw [taken,List.map_map] at same
    exact fun chunk member => (Prod.mk.inj (List.map_inj_left.mp same chunk member)).2.symm
  · intro clean
    refine ⟨_,_,chunks.map fun chunk => ⟨.ide,chunk.text,.utf8⟩,by rw [List.map_map]; rfl,?_⟩
    rw [List.map_map]
    exact List.map_congr_left fun chunk member => by rw [clean chunk member]; rfl

theorem unpublished_alone (chunks : List StreamChunk) (started : RunStartedPayload) : ¬ Published chunks [.runStarted started] := by
  rintro ⟨_,_,logs,events,_⟩
  have ends := (List.cons.inj events).2
  exact List.append_ne_nil_of_right_ne_nil _ (List.cons_ne_nil _ _) ends.symm

-- Everything is published as it came exactly when the runner answers and no chunk
-- was decoded with losses.
theorem launch_published_iff (accepts : Accepts sink) (runner : Runner) (uptimeMs : Nat) (plan : RunPlan) :
    Published (runner (spawnSpec plan)).1 (eventsOf runner uptimeMs sink plan) ↔
      (runner (spawnSpec plan)).2.isOk = true ∧ ∀ chunk ∈ (runner (spawnSpec plan)).1, chunk.encoding = .utf8 := by
  cases handed : runner (spawnSpec plan) with
  | mk chunks answer => cases answer with
    | error e =>
      rw [launch_failed accepts handed]
      exact ⟨fun published => absurd published (unpublished_alone chunks _),fun told => absurd told.1 nofun⟩
    | ok output =>
      rw [launch_ended accepts handed,published_clean]
      exact ⟨fun clean => ⟨rfl,clean⟩,And.right⟩

def javaPlan : RunPlan := ⟨["java".toList,"-cp".toList,"build".toList,"Main".toList],"/p".toList,60000,⟨"com1".toList,none⟩,none⟩

def taking : Sink := fun _ _ => none

def printing (encoding : Stream.TextEncoding) (answer : Except PrincessError ProcessOutcome) : Runner :=
  fun _ => ([⟨.serial,[replacement],encoding,false⟩],answer)

def ended : ProcessOutcome := ⟨some 0,none,false,false,5,true⟩

theorem launch_published_clean :
    Published [⟨.serial,[replacement],.utf8,false⟩] (eventsOf (printing .utf8 (.ok ended)) 5 taking javaPlan) := by
  have accepts : Accepts taking := fun _ _ => rfl
  refine (launch_published_iff accepts (printing .utf8 (.ok ended)) 5 javaPlan).mpr ⟨rfl,fun chunk member => ?_⟩
  rw [List.mem_singleton.mp member]

-- A lossy chunk, and a runner that fails.
theorem launch_unpublished :
    ¬ Published [⟨.serial,[replacement],.utf8Lossy,false⟩] (eventsOf (printing .utf8Lossy (.ok ended)) 5 taking javaPlan) ∧
    ¬ Published [⟨.serial,[replacement],.utf8,false⟩] (eventsOf (printing .utf8 (.error (.internal []))) 5 taking javaPlan) := by
  have accepts : Accepts taking := fun _ _ => rfl
  constructor
  · rw [launch_ended accepts rfl,published_clean]
    intro clean
    cases clean _ List.mem_cons_self
  · rw [launch_failed accepts rfl]
    exact unpublished_alone _ _

end PrincessIDE.Jvm
