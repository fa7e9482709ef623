import PrincessIDE.Build.Javac

namespace PrincessIDE.BuildBackend
open Utf8 (Text)
open Error Event Effect Diagnostics
open BuildProcess (StdioChunk CommandOutput)

def isStarted : EventBody → Bool
  | .buildStarted _ => true
  | _ => false

def isFinished : EventBody → Bool
  | .buildFinished _ => true
  | _ => false

def idle : Site := ⟨[],[],none⟩

def eventsOf (x : Act α) : List EventBody := (after x idle).events

-- What a build owes its sink, given what became of its command.
structure Reports (result : Except PrincessError CommandOutput) (events : List EventBody) : Prop where
  started : (events.head?).any isStarted
  finished : events.countP isFinished = 1
  last : ∃ payload, events.getLast? = some (.buildFinished payload) ∧
    (payload.status = .cancelled ↔ ∃ output, result = .ok output ∧ output.cancelled = true) ∧
    (payload.status = .ok ↔ ∃ output, result = .ok output ∧ output.success = true)

-- What is sent between the first event of a build and its last.
def Between : EventBody → Bool
  | .logAppend _ => true
  | .buildDiagnostic _ => true
  | .artifactChanged _ => true
  | _ => false

-- The same without the diagnostics.
def Plain : EventBody → Bool
  | .logAppend _ => true
  | .artifactChanged _ => true
  | _ => false

theorem plain_between (plain : Plain body = true) : Between body = true := by
  cases body <;> first | rfl | cases plain

def Adds (allowed : EventBody → Bool) (s t : Site) : Prop :=
  ∃ added, t.events = s.events ++ added ∧ ∀ body ∈ added, allowed body = true

instance : IsPreorder Site (Adds allowed) where
  refl s := ⟨[],by simp,by simp⟩
  trans s t u := by
    intro ⟨one,events,first⟩ ⟨two,events',second⟩
    exact ⟨one++two,by rw [events',events,List.append_assoc],List.forall_mem_append.mpr ⟨first,second⟩⟩

theorem adds_same (same : t.events = s.events) : Adds allowed s t := ⟨[],by simp [same],by simp⟩

theorem emit_adds (sys : System) (ok : allowed body = true) : Moves (Adds allowed) (sys.emit body) := .zoom fun s => by
  rw [after,emit_settles]
  cases sys.sink s.events body with
  | some e => exact adds_same rfl
  | none => exact ⟨[body],rfl,by simpa using ok⟩

theorem ask_adds (sys : System) (q : Question) : Moves (Adds allowed) (sys.ask q) := fun _ => adds_same rfl

variable {sys : System} {R : Site → Site → Prop}

theorem orFail_moves [IsPreorder Site R] (r : Except PrincessError α) : Moves R (orFail r) := by
  cases r with
  | ok a => exact .pure a
  | error e => exact .throw e

-- The questions that neither run a command beside the build's own nor write a database.
def Silent : Question → Bool
  | .run _ .fresh => false
  | .writeDatabase _ _ => false
  | _ => true

-- The relations along which plain events and silent questions lead.
structure Mild (sys : System) (R : Site → Site → Prop) : Prop where
  emits : ∀ body, Plain body = true → Moves R (sys.emit body)
  asks : ∀ q, Silent q = true → Moves R (sys.ask q)

namespace Mild

theorem note (mild : Mild sys R) (text : Text) : Moves R (sys.note text) := mild.emits _ rfl
theorem log (mild : Mild sys R) (text : Text) : Moves R (sys.log text) := mild.emits _ rfl

theorem noteClean (mild : Mild sys R) (output : CommandOutput) : Moves R (MakeBackend.noteClean sys output) := by
  unfold MakeBackend.noteClean
  split <;> exact mild.note _

variable [IsPreorder Site R]

theorem needsNasm (mild : Mild sys R) (project : ResolvedProject) : Moves R (needsNasm sys project) := by
  unfold BuildBackend.needsNasm
  dsimp only
  split
  · exact .pure _
  · exact .bind (mild.asks _ rfl) fun _ => .pure _

theorem refuseMissing (missing : List ToolStatus) : Moves R (MakeBackend.refuseMissing missing) := by
  unfold MakeBackend.refuseMissing
  split
  · exact .pure _
  · exact .throw _

theorem buildEnv (mild : Mild sys R) (b : MakeBackend) (project : ResolvedProject) : Moves R (b.buildEnv sys project) :=
  .bind (mild.asks _ rfl) fun _ => .pure _

theorem plan (mild : Mild sys R) (b : MakeBackend) (project : ResolvedProject) : Moves R (b.plan sys project) :=
  .bind (.bind (mild.needsNasm project) fun _ => refuseMissing _) fun _ => .bind (orFail_moves _) fun _ =>
    .bind (mild.buildEnv b project) fun _ => .pure _

theorem bearPlan (mild : Mild sys R) (b : MakeBackend) (project : ResolvedProject) (bear : Text) :
    Moves R (b.bearPlan sys project bear) := .bind (mild.buildEnv b project) fun _ => .pure _

theorem streamChunks (mild : Mild sys R) (chunks : List StdioChunk) : Moves R (MakeBackend.streamChunks sys chunks) :=
  .each fun chunk _ => mild.log chunk.text

theorem failureStep (mild : Mild sys R) (plan : BuildPlan) (command : CommandOutput) (diagnostics : List ParsedDiagnostic) :
    Moves R (MakeBackend.failureStep sys plan command diagnostics) := by
  unfold MakeBackend.failureStep MakeBackend.reportFailure MakeBackend.reportTail
  dsimp only
  split
  · exact .pure _
  · refine .bind (mild.note _) fun _ => ?_
    split
    · exact .bind (mild.note _) fun _ => mild.log _
    · exact .pure _

theorem artifactStep (mild : Mild sys R) (plan : BuildPlan) (root : Text) (status : BuildStatus) :
    Moves R (MakeBackend.artifactStep sys plan root status) := by
  unfold MakeBackend.artifactStep MakeBackend.noteNoArtifact
  split
  · refine .bind (mild.asks _ rfl) fun artifacts => .bind (.each fun artifact _ => mild.emits _ rfl) fun _ => .bind ?_ fun _ => .pure _
    split
    · exact mild.note _
    · exact .pure _
  · exact .pure _

end Mild

theorem mild_adds (sys : System) : Mild sys (Adds Plain) := ⟨fun _ plain => emit_adds sys plain,fun _ _ => ask_adds sys _⟩

theorem emit_run (accepts : Accepts sys.sink) (body : EventBody) (s : Site) :
    (sys.emit body).run s = .ok () {s with events:=s.events++[body]} := run_zoom_ok (Event.emit_run accepts body s.events)

theorem ask_run (sys : System) (q : Question) (s : Site) :
    (sys.ask q).run s = .ok (sys.answers s.asked q) {s with asked:=s.asked++[q]} := rfl

theorem emit_sure (accepts : Accepts sys.sink) (body : EventBody) : Sure (sys.emit body) :=
  fun s => ⟨(),by rw [answer,emit_run accepts]⟩

theorem note_sure (accepts : Accepts sys.sink) (text : Text) : Sure (sys.note text) := emit_sure accepts _

theorem log_sure (accepts : Accepts sys.sink) (text : Text) : Sure (sys.log text) := emit_sure accepts _

theorem ask_sure (sys : System) (q : Question) : Sure (sys.ask q) := fun _ => ⟨_,rfl⟩

namespace MakeBackend

theorem collect_adds (sys : System) (plan : BuildPlan) : Moves (Adds allowed) (collect sys plan) :=
  .bind (ask_adds sys _) fun _ => .bind (orFail_moves _) fun _ => .pure _

theorem runCleanStep_adds (b : MakeBackend) (sys : System) (project : ResolvedProject) :
    Moves (Adds Plain) (b.runCleanStep sys project) :=
  .bind ((mild_adds sys).plan b project) fun _ => .bind (collect_adds sys _) fun _ => .bind ((mild_adds sys).noteClean _) fun _ =>
    (mild_adds sys).streamChunks _

theorem generateWithShim_adds (b : MakeBackend) (sys : System) (project : ResolvedProject) :
    Moves (Adds Plain) (b.generateWithShim sys project) := by
  refine .bind (ask_adds sys _) fun _ => .bind (orFail_moves _) fun _ => .bind (b.runCleanStep_adds sys project) fun _ =>
    .bind ((mild_adds sys).plan b project) fun _ => .bind (collect_adds sys _) fun _ => .bind ((mild_adds sys).streamChunks _) fun _ =>
    .bind (ask_adds sys _) fun _ => .bind (orFail_moves _) fun db => ?_
  split
  · exact .bind ((mild_adds sys).note _) fun _ => .pure _
  · exact .bind (ask_adds sys _) fun _ => .bind (orFail_moves _) fun _ => .bind ((mild_adds sys).note _) fun _ => .pure _

theorem generateWithBear_adds (b : MakeBackend) (sys : System) (project : ResolvedProject) (bear : Text) :
    Moves (Adds Plain) (b.generateWithBear sys project bear) := by
  refine .bind ((mild_adds sys).note _) fun _ => .bind (b.runCleanStep_adds sys project) fun _ =>
    .bind ((mild_adds sys).bearPlan b project bear) fun _ => .bind (collect_adds sys _) fun _ =>
    .bind ((mild_adds sys).streamChunks _) fun _ => ?_
  split
  · exact .bind ((mild_adds sys).note _) fun _ => b.generateWithShim_adds sys project
  · refine .bind (ask_adds sys _) fun _ => .bind (orFail_moves _) fun db => ?_
    split
    · exact .bind ((mild_adds sys).note _) fun _ => .pure _
    · exact .bind (ask_adds sys _) fun _ => .bind (orFail_moves _) fun _ => .bind ((mild_adds sys).note _) fun _ => .pure _

theorem generateDatabase_adds (b : MakeBackend) (sys : System) (project : ResolvedProject) :
    Moves (Adds Plain) (b.generateDatabase sys project) := by
  unfold generateDatabase
  split
  · exact b.generateWithBear_adds sys project _
  · exact .bind ((mild_adds sys).note _) fun _ => b.generateWithShim_adds sys project

theorem failureStep_sure (accepts : Accepts sys.sink) (plan : BuildPlan) (command : CommandOutput)
    (diagnostics : List ParsedDiagnostic) : Sure (failureStep sys plan command diagnostics) := by
  unfold failureStep reportFailure reportTail
  dsimp only
  split
  · exact .pure _
  · refine .bind (note_sure accepts _) fun _ => ?_
    split
    · exact .bind (note_sure accepts _) fun _ => log_sure accepts _
    · exact .pure _

theorem databaseStep_adds (b : MakeBackend) (sys : System) (plan : BuildPlan) (root : Text) (status : BuildStatus) :
    Moves (Adds Plain) (b.databaseStep sys plan root status) := by
  unfold databaseStep
  split
  · refine .bind (.caught (b.generateDatabase_adds sys _)) fun generated => ?_
    cases generated with
    | ok path => exact .pure _
    | error e => exact .bind ((mild_adds sys).note _) fun _ => .pure _
  · exact .pure _

theorem databaseStep_sure (accepts : Accepts sys.sink) (b : MakeBackend) (plan : BuildPlan) (root : Text) (status : BuildStatus) :
    Sure (b.databaseStep sys plan root status) := by
  unfold databaseStep
  split
  · refine .bind (.caught _) fun generated => ?_
    cases generated with
    | ok path => exact .pure _
    | error e => exact .bind (note_sure accepts _) fun _ => .pure _
  · exact .pure _

theorem artifactStep_sure (accepts : Accepts sys.sink) (plan : BuildPlan) (root : Text) (status : BuildStatus) :
    Sure (artifactStep sys plan root status) := by
  unfold artifactStep noteNoArtifact
  split
  · refine .bind (ask_sure sys _) fun artifacts => .bind (.each fun artifact => emit_sure accepts _) fun _ => .bind ?_ fun _ => .pure _
    split
    · exact note_sure accepts _
    · exact .pure _
  · exact .pure _

-- Behind a command that was run to its end: plain events, and the last one.
theorem conclude_ends (accepts : Accepts sys.sink) (b : MakeBackend) (plan : BuildPlan) (root : Text)
    (streamed : List ParsedDiagnostic) (command : CommandOutput) (s : Site) :
    ∃ payload t added, (b.conclude sys plan root streamed command).run s = .ok payload t ∧
      t.events = s.events ++ added ++ [EventBody.buildFinished payload] ∧ (∀ body ∈ added, Plain body = true) ∧
      payload.status = statusOf command ∧
      ∃ s₁ s₂, (b.databaseStep sys plan root (statusOf command)).run s₁ = .ok t.lastCompileCommands s₂ := by
  obtain ⟨diagnostics,told⟩ : ∃ ds, dedup (streamed ++ ((parserFor plan).feedTextDedup command.combinedTail).1) = ds := ⟨_,rfl⟩
  have first := (mild_adds sys).failureStep plan command diagnostics s
  obtain ⟨_,failed⟩ := (failureStep_sure accepts plan command diagnostics).run s
  generalize after (failureStep sys plan command diagnostics) s = s₁ at failed first
  have second := b.databaseStep_adds sys plan root (statusOf command) s₁
  obtain ⟨path,generated⟩ := (databaseStep_sure accepts b plan root (statusOf command)).run s₁
  generalize after (b.databaseStep sys plan root (statusOf command)) s₁ = s₂ at generated second
  have third := (mild_adds sys).artifactStep plan root (statusOf command) s₂
  obtain ⟨artifacts,found⟩ := (artifactStep_sure accepts plan root (statusOf command)).run s₂
  generalize after (artifactStep sys plan root (statusOf command)) s₂ = s₃ at found third
  obtain ⟨added,events,plain⟩ := trans_of (Adds Plain) first (trans_of (Adds Plain) second third)
  obtain ⟨payload,built⟩ : ∃ payload : BuildFinishedPayload,
    payload = ⟨statusOf command,command.exitCode,sys.answers s₃.asked .elapsedMs,artifacts⟩ := ⟨_,rfl⟩
  refine ⟨payload,⟨s₃.asked++[Question.elapsedMs],s₃.events++[EventBody.buildFinished payload],path⟩,added,?_,by rw [events],plain,by rw [built],
    s₁,s₂,generated⟩
  unfold conclude
  dsimp only
  rw [told,run_bind_ok failed,run_bind_ok generated,run_bind_ok found,run_bind_ok (ask_run sys .elapsedMs s₃),← built,
    run_bind_ok (emit_run accepts _ _)]
  rfl

end MakeBackend

theorem emitProduced_accepts (accepts : Accepts sink) (s : Streaming) (produced : List ParsedDiagnostic) :
    emitProduced sink s produced = {s with
      events:=s.events ++ produced.map (fun d => .buildDiagnostic d.toPayload),diagnostics:=s.diagnostics++produced} := by
  induction produced generalizing s with
  | nil => simp [emitProduced]
  | cons d rest ih =>
    rw [emitProduced,Event.emit_run accepts]
    dsimp only
    rw [ih]
    simp

-- What a chunk comes to with a sink that takes everything.
theorem onChunk_accepts (accepts : Accepts sink) (s : Streaming) (chunk : StdioChunk) :
    onChunk sink s chunk = ⟨s.events ++ EventBody.logAppend ⟨.build,chunk.text,.utf8⟩ ::
        (s.parser.feedText chunk.text).1.map (fun d => .buildDiagnostic d.toPayload),
      (s.parser.feedText chunk.text).2,s.diagnostics ++ (s.parser.feedText chunk.text).1,s.streamError⟩ := by
  rw [onChunk,Event.log,Event.emit_run accepts]
  dsimp only
  rw [emitProduced_accepts accepts]
  simp

def diagnosticsOf (events : List EventBody) : List BuildDiagnosticPayload := events.filterMap fun
  | .buildDiagnostic payload => some payload
  | _ => none

theorem diagnosticsOf_append (a b : List EventBody) : diagnosticsOf (a++b) = diagnosticsOf a ++ diagnosticsOf b := List.filterMap_append

theorem diagnosticsOf_plain (plain : ∀ body ∈ events, Plain body = true) : diagnosticsOf events = [] := by
  refine List.filterMap_eq_nil_iff.mpr fun body member => ?_
  have ok := plain body member
  cases body <;> first | rfl | cases ok

-- The parser over the texts of some chunks.
def feedChunks (p : DiagnosticParser) : List StdioChunk → List ParsedDiagnostic
  | [] => []
  | chunk :: rest => (p.feedText chunk.text).1 ++ feedChunks (p.feedText chunk.text).2 rest

theorem diagnosticsOf_payloads (ds : List ParsedDiagnostic) :
    diagnosticsOf (ds.map fun d => .buildDiagnostic d.toPayload) = ds.map ParsedDiagnostic.toPayload := by
  simp [diagnosticsOf,List.filterMap_map]

theorem streaming_accepts (accepts : Accepts sink) (s : Streaming) (chunks : List StdioChunk) :
    ∃ added, (chunks.foldl (onChunk sink) s).events = s.events ++ added ∧ (∀ body ∈ added, Between body = true) ∧
      diagnosticsOf added = (feedChunks s.parser chunks).map ParsedDiagnostic.toPayload ∧
      (chunks.foldl (onChunk sink) s).streamError = s.streamError := by
  induction chunks generalizing s with
  | nil => exact ⟨[],by simp,by simp,rfl,rfl⟩
  | cons chunk rest ih =>
    obtain ⟨added,events,between,diagnostics,clear⟩ := ih (onChunk sink s chunk)
    rw [List.foldl_cons]
    rw [onChunk_accepts accepts] at events diagnostics clear ⊢
    refine ⟨_,events.trans (List.append_assoc _ _ _),?_,?_,clear⟩
    · refine List.forall_mem_append.mpr ⟨List.forall_mem_cons.mpr ⟨rfl,?_⟩,between⟩
      intro body member
      obtain ⟨d,_,rfl⟩ := List.mem_map.mp member
      rfl
    · have front := diagnosticsOf_payloads (s.parser.feedText chunk.text).1
      unfold diagnosticsOf at front diagnostics ⊢
      rw [List.filterMap_append,List.filterMap_cons,front,diagnostics,feedChunks,List.map_append]

theorem emitStarted_run (accepts : Accepts sys.sink) (plan : BuildPlan) (s : Site) :
    (sys.emit (.buildStarted plan.startedEvent)).run s = .ok () {s with events:=s.events++[EventBody.buildStarted plan.startedEvent]} :=
  emit_run accepts _ s

-- A build by what its command came to.
theorem MakeBackend.execute_ends (accepts : Accepts sys.sink) (b : MakeBackend) (plan : BuildPlan) (s : Site) :
    ∃ streamed, (∀ body ∈ streamed, Between body = true) ∧
      diagnosticsOf streamed = (feedChunks (parserFor plan) (sys.answers s.asked (.run plan .callers)).1).map ParsedDiagnostic.toPayload ∧
      (∀ e, (sys.answers s.asked (.run plan .callers)).2 = .error e → ∃ t, (b.execute sys plan).run s = .error e t ∧
          t.events = s.events ++ [EventBody.buildStarted plan.startedEvent] ++ streamed) ∧
      (∀ command, (sys.answers s.asked (.run plan .callers)).2 = .ok command →
        ∃ payload t added, (b.execute sys plan).run s = .ok payload t ∧
          t.events = s.events ++ [EventBody.buildStarted plan.startedEvent] ++ streamed ++ added ++ [EventBody.buildFinished payload] ∧
          (∀ body ∈ added, Plain body = true) ∧ payload.status = statusOf command ∧
          ∃ s₁ s₂, (b.databaseStep sys plan (b.rootOf plan) (statusOf command)).run s₁ = .ok t.lastCompileCommands s₂) := by
  obtain ⟨streamed,events,between,diagnostics,clear⟩ := streaming_accepts accepts
    ⟨s.events ++ [EventBody.buildStarted plan.startedEvent],parserFor plan,[],none⟩ (sys.answers s.asked (.run plan .callers)).1
  refine ⟨streamed,between,diagnostics,?_⟩
  generalize whole : (sys.answers s.asked (.run plan .callers)).1.foldl (onChunk sys.sink)
    ⟨s.events ++ [EventBody.buildStarted plan.startedEvent],parserFor plan,[],none⟩ = streaming at events clear
  have start : (b.execute sys plan).run s = (orFail (sys.answers s.asked (.run plan .callers)).2 >>= fun command =>
      b.conclude sys plan (b.rootOf plan) streaming.diagnostics command).run
        ⟨s.asked++[Question.run plan .callers],streaming.events,s.lastCompileCommands⟩ := by
    unfold execute
    rw [run_bind_ok (emitStarted_run accepts plan s)]
    dsimp only
    rw [run_bind_ok (ask_run sys (.run plan .callers) _)]
    dsimp only
    rw [run_get,whole,clear]
    rfl
  rw [start]
  constructor
  · intro e failed
    rw [failed]
    exact ⟨_,rfl,events⟩
  · intro command ran
    rw [ran]
    obtain ⟨payload,t,added,done,told,ends⟩ := b.conclude_ends accepts plan
      (b.rootOf plan) streaming.diagnostics command
      ⟨s.asked++[Question.run plan .callers],streaming.events,s.lastCompileCommands⟩
    exact ⟨payload,t,added,done,by rw [told,events],ends⟩

namespace Javac

theorem conclude_ends (accepts : Accepts sys.sink) (plan : BuildPlan) (chunks : List StdioChunk) (output : CommandOutput) (s : Site) :
    ∃ payload t added, (conclude sys plan chunks output).run s = .ok payload t ∧
      t.events = s.events ++ added ++ [EventBody.buildFinished payload] ∧ (∀ body ∈ added, Between body = true) ∧
      payload.status = statusOf output := by
  have first : Moves (Adds Between) (MakeBackend.streamChunks sys chunks) := .each fun chunk _ => emit_adds sys rfl
  have firstSure : Sure (MakeBackend.streamChunks sys chunks) := .each fun chunk => log_sure accepts _
  obtain ⟨_,logged⟩ := firstSure.run s
  have one := first s
  generalize after (MakeBackend.streamChunks sys chunks) s = s₁ at logged one
  have second : Moves (Adds Between) ((parseDiagnostics (stderrText chunks) plan.cwd).forM
      fun d => sys.emit (.buildDiagnostic d.toPayload)) := .each fun d _ => emit_adds sys rfl
  have secondSure : Sure ((parseDiagnostics (stderrText chunks) plan.cwd).forM
      fun d => sys.emit (.buildDiagnostic d.toPayload)) := .each fun d => emit_sure accepts _
  obtain ⟨_,reported⟩ := secondSure.run s₁
  have two := second s₁
  generalize after ((parseDiagnostics (stderrText chunks) plan.cwd).forM fun d => sys.emit (.buildDiagnostic d.toPayload)) s₁ =
    s₂ at reported two
  obtain ⟨artifacts,found⟩ : ∃ artifacts, sys.answers s₂.asked (.classFiles (buildDir plan.cwd)) = artifacts := ⟨_,rfl⟩
  obtain ⟨s₃,listed⟩ : ∃ t : Site, {s₂ with asked:=s₂.asked++[Question.classFiles (buildDir plan.cwd)]} = t := ⟨_,rfl⟩
  have three : Adds Between s₂ s₃ := listed ▸ adds_same rfl
  have third : Moves (Adds Between) (artifacts.forM fun artifact => sys.emit (.artifactChanged ⟨artifact.path,artifact.kind⟩)) :=
    .each fun artifact _ => emit_adds sys rfl
  have thirdSure : Sure (artifacts.forM fun artifact => sys.emit (.artifactChanged ⟨artifact.path,artifact.kind⟩)) :=
    .each fun artifact => emit_sure accepts _
  obtain ⟨_,changed⟩ := thirdSure.run s₃
  have four := third s₃
  generalize after (artifacts.forM fun artifact => sys.emit (.artifactChanged ⟨artifact.path,artifact.kind⟩)) s₃ = s₄ at changed four
  obtain ⟨added,events,between⟩ := trans_of (Adds Between) one (trans_of (Adds Between) two (trans_of (Adds Between) three four))
  obtain ⟨payload,built⟩ : ∃ payload : BuildFinishedPayload,
    payload = ⟨statusOf output,output.exitCode,sys.answers s₄.asked .elapsedMs,artifacts⟩ := ⟨_,rfl⟩
  refine ⟨payload,⟨s₄.asked++[Question.elapsedMs],s₄.events++[EventBody.buildFinished payload],s₄.lastCompileCommands⟩,added,?_,by rw [events],
    between,by rw [built]⟩
  unfold conclude
  rw [run_bind_ok logged,run_bind_ok reported,run_bind_ok (ask_run sys (.classFiles (buildDir plan.cwd)) s₂),found,listed,
    run_bind_ok changed,run_bind_ok (ask_run sys .elapsedMs s₄)]
  dsimp only
  rw [← built,run_bind_ok (emit_run accepts _ _)]
  rfl

-- A compilation by what became of its directory and its command.
theorem execute_ends (accepts : Accepts sys.sink) (plan : BuildPlan) (s : Site) :
    (∃ made output payload t added, sys.answers s.asked (.createDirAll (buildDir plan.cwd)) = .ok made ∧
      (sys.answers (s.asked++[Question.createDirAll (buildDir plan.cwd)]) (.run plan .callers)).2 = .ok output ∧
      (execute sys plan).run s = .ok payload t ∧
      t.events = s.events ++ [EventBody.buildStarted plan.startedEvent] ++ added ++ [EventBody.buildFinished payload] ∧
      (∀ body ∈ added, Between body = true) ∧ payload.status = statusOf output) ∨
    (∃ e t, (sys.answers s.asked (.createDirAll (buildDir plan.cwd)) = .error e ∨
        (sys.answers (s.asked++[Question.createDirAll (buildDir plan.cwd)]) (.run plan .callers)).2 = .error e) ∧
      (execute sys plan).run s = .error e t ∧ t.events = s.events ++ [EventBody.buildStarted plan.startedEvent]) := by
  have start : (execute sys plan).run s = (orFail (sys.answers s.asked (.createDirAll (buildDir plan.cwd))) >>= fun _ =>
      sys.ask (.run plan .callers) >>= fun ran => orFail ran.2 >>= conclude sys plan ran.1).run
        ⟨s.asked++[Question.createDirAll (buildDir plan.cwd)],s.events++[EventBody.buildStarted plan.startedEvent],s.lastCompileCommands⟩ := by
    unfold execute
    rw [run_bind_ok (emitStarted_run accepts plan s),run_bind_ok (ask_run sys (.createDirAll (buildDir plan.cwd)) _)]
  rw [start]
  cases created : sys.answers s.asked (.createDirAll (buildDir plan.cwd)) with
  | error e => exact .inr ⟨e,_,.inl rfl,rfl,rfl⟩
  | ok made =>
    have next := ask_run sys (.run plan .callers)
      ⟨s.asked++[Question.createDirAll (buildDir plan.cwd)],s.events++[EventBody.buildStarted plan.startedEvent],s.lastCompileCommands⟩
    rw [run_bind_ok (show (orFail (.ok made) : Act Unit).run _ = .ok made _ from rfl),run_bind_ok next]
    dsimp only
    cases result : (sys.answers (s.asked++[Question.createDirAll (buildDir plan.cwd)]) (.run plan .callers)).2 with
    | error e => exact .inr ⟨e,_,.inr rfl,rfl,rfl⟩
    | ok output =>
      obtain ⟨payload,t,added,done,ends⟩ := conclude_ends accepts plan
        (sys.answers (s.asked++[Question.createDirAll (buildDir plan.cwd)]) (.run plan .callers)).1 output
        ⟨s.asked++[Question.createDirAll (buildDir plan.cwd)]++[Question.run plan .callers],s.events++[EventBody.buildStarted plan.startedEvent],
          s.lastCompileCommands⟩
      exact .inl ⟨made,output,payload,t,added,rfl,rfl,done,ends⟩

end Javac

theorem between_unfinished (between : Between body = true) : isFinished body = false := by
  cases body <;> first | rfl | cases between

theorem unfinished_reports (open_ : ∀ body ∈ events, isFinished body = false) : ¬ Reports result events := by
  intro reports
  have none : events.countP isFinished = 0 := List.countP_eq_zero.mpr fun body member => by simp [open_ body member]
  have one := reports.finished
  omega

-- Between its two ends a build reports what the status in the last event says.
theorem finished_reports {middle : List EventBody} (between : ∀ body ∈ middle, Between body = true) :
    Reports result ([EventBody.buildStarted first] ++ middle ++ [EventBody.buildFinished payload]) ↔
      (payload.status = .cancelled ↔ ∃ output, result = .ok output ∧ output.cancelled = true) ∧
      (payload.status = .ok ↔ ∃ output, result = .ok output ∧ output.success = true) := by
  have last : ([EventBody.buildStarted first] ++ middle ++ [EventBody.buildFinished payload]).getLast? = some (EventBody.buildFinished payload) :=
    List.getLast?_concat
  constructor
  · rintro ⟨_,_,other,here,cancelled,ok⟩
    rw [last] at here
    cases here
    exact ⟨cancelled,ok⟩
  · intro status
    refine ⟨rfl,?_,payload,last,status⟩
    have none : middle.countP isFinished = 0 :=
      List.countP_eq_zero.mpr fun body member => by simp [between_unfinished (between body member)]
    rw [List.countP_append,List.countP_append,none]
    rfl

theorem ok_output {output : CommandOutput} {P : CommandOutput → Prop} :
    (∃ other, (Except.ok output : Except PrincessError CommandOutput) = .ok other ∧ P other) ↔ P output := by
  constructor
  · rintro ⟨_,same,held⟩
    cases same
    exact held
  · exact fun held => ⟨output,rfl,held⟩

theorem MakeBackend.status_exact (output : CommandOutput) :
    (statusOf output = .cancelled ↔ output.cancelled = true) ∧ (statusOf output = .ok ↔ output.success = true) := by
  unfold statusOf
  cases done : output.success <;> cases cancelled : output.cancelled <;> simp
  simp [CommandOutput.success,cancelled] at done

theorem Javac.status_exact (output : CommandOutput) :
    ((Javac.statusOf output = .cancelled ↔ output.cancelled = true) ∧ (Javac.statusOf output = .ok ↔ output.success = true)) ↔
      output.cancelled = false := by
  unfold Javac.statusOf
  cases output.success <;> cases output.cancelled <;> simp

-- What the runner answers a build that starts from nothing.
def makeResult (sys : System) (plan : BuildPlan) : Except PrincessError CommandOutput := (sys.answers [] (.run plan .callers)).2

def javacDirectory (sys : System) (plan : BuildPlan) : Except PrincessError Unit :=
  sys.answers [] (.createDirAll (Javac.buildDir plan.cwd))

def javacResult (sys : System) (plan : BuildPlan) : Except PrincessError CommandOutput :=
  (sys.answers [.createDirAll (Javac.buildDir plan.cwd)] (.run plan .callers)).2

theorem make_reports (accepts : Accepts sys.sink) (b : MakeBackend) (plan : BuildPlan) :
    Reports (makeResult sys plan) (eventsOf (b.execute sys plan)) ↔ ∃ output, makeResult sys plan = .ok output := by
  obtain ⟨streamed,between,_,fails,ends⟩ := b.execute_ends accepts plan idle
  unfold makeResult eventsOf
  cases result : (sys.answers [] (.run plan .callers)).2 with
  | error e =>
    obtain ⟨t,done,events⟩ := fails e result
    rw [after_error done,events]
    refine ⟨fun reports => absurd reports (unfinished_reports fun body member => ?_),fun ⟨_,ok⟩ => nomatch ok⟩
    rcases List.mem_append.mp member with started | later
    · rw [List.mem_singleton.mp started]
      rfl
    · exact between_unfinished (between body later)
  | ok output =>
    obtain ⟨payload,t,added,done,events,plain,status,_⟩ := ends output result
    rw [after_ok done,events,show idle.events ++ [EventBody.buildStarted plan.startedEvent] ++ streamed ++ added =
      [EventBody.buildStarted plan.startedEvent] ++ (streamed ++ added) from List.append_assoc _ _ _]
    have middle : ∀ body ∈ streamed ++ added, Between body = true :=
      List.forall_mem_append.mpr ⟨between,fun body member => plain_between (plain body member)⟩
    rw [finished_reports middle,ok_output,ok_output,status]
    exact ⟨fun _ => ⟨output,rfl⟩,fun _ => MakeBackend.status_exact output⟩

theorem javac_reports (accepts : Accepts sys.sink) (plan : BuildPlan) :
    Reports (javacResult sys plan) (eventsOf (Javac.execute sys plan)) ↔
      (∃ made, javacDirectory sys plan = .ok made) ∧ ∃ output, javacResult sys plan = .ok output ∧ output.cancelled = false := by
  unfold javacResult javacDirectory eventsOf
  rcases Javac.execute_ends accepts plan idle with ⟨made,output,payload,t,added,created,result,done,events,between,status⟩ | ⟨e,t,refused,done,events⟩
  · rw [show (sys.answers [] (.createDirAll (Javac.buildDir plan.cwd))) = _ from created,
      show (sys.answers [.createDirAll (Javac.buildDir plan.cwd)] (.run plan .callers)).2 = _ from result]
    rw [after_ok done,events,show idle.events = [] from rfl,List.nil_append,finished_reports between,ok_output,ok_output,
      status,Javac.status_exact,ok_output]
    exact ⟨fun held => ⟨⟨made,rfl⟩,held⟩,And.right⟩
  · rw [after_error done,events]
    refine ⟨fun reports => absurd reports (unfinished_reports fun body member => ?_),?_⟩
    · rw [List.mem_singleton.mp member]
      rfl
    · rintro ⟨⟨made,created⟩,output,result,_⟩
      rcases refused with failed | failed
      · exact nomatch created.symm.trans failed
      · exact nomatch result.symm.trans failed

theorem build_finished_iff (accepts : Accepts sys.sink) (b : MakeBackend) (plan : BuildPlan) :
    (Reports (makeResult sys plan) (eventsOf (b.execute sys plan)) ↔ ∃ output, makeResult sys plan = .ok output) ∧
    (Reports (javacResult sys plan) (eventsOf (Javac.execute sys plan)) ↔
      (∃ made, javacDirectory sys plan = .ok made) ∧ ∃ output, javacResult sys plan = .ok output ∧ output.cancelled = false) :=
  ⟨make_reports accepts b plan,javac_reports accepts plan⟩

-- A system whose every command comes to one result, and where all else goes well.
def settled (chunks : List StdioChunk) (result : Except PrincessError CommandOutput) : System := ⟨fun _ q => match q with
  | .run _ _ => (chunks,result)
  | .sources _ => []
  | .launcher => (none,[])
  | .bearOutput _ _ => .ok []
  | .installShim _ _ => .ok ()
  | .collectShim _ => .ok []
  | .writeDatabase _ _ => .ok ()
  | .discover _ _ => []
  | .classFiles _ => []
  | .createDirAll _ => .ok ()
  | .elapsedMs => 7,fun _ _ => none,"/".toList⟩

def make : MakeBackend := ⟨⟨[],none⟩,true,[],600000,none⟩

def kernelPlan : BuildPlan := ⟨.make,"host/unknown-cc".toList,["make".toList],"/w".toList,[],[],some 600000⟩

def spawnFailed : Except PrincessError CommandOutput := .error (.internal "cannot execute make: No such file or directory".toList)

def cancelled : Except PrincessError CommandOutput := .ok ⟨none,some 15,false,true,[]⟩

theorem build_finished_settled :
    (Reports (makeResult (settled [] spawnFailed) kernelPlan) (eventsOf (make.execute (settled [] spawnFailed) kernelPlan)) ↔
      ∃ output, spawnFailed = .ok output) ∧
    (Reports (javacResult (settled [] cancelled) kernelPlan) (eventsOf (Javac.execute (settled [] cancelled) kernelPlan)) ↔
      (∃ made, javacDirectory (settled [] cancelled) kernelPlan = .ok made) ∧ ∃ output, cancelled = .ok output ∧ output.cancelled = false) :=
  ⟨(build_finished_iff (fun _ _ => rfl) make kernelPlan).1,(build_finished_iff (fun _ _ => rfl) make kernelPlan).2⟩

theorem build_finished_missing :
    (Accepts (settled [] spawnFailed).sink ∧
      ¬ Reports (makeResult (settled [] spawnFailed) kernelPlan) (eventsOf (make.execute (settled [] spawnFailed) kernelPlan))) ∧
    Accepts (settled [] cancelled).sink ∧
      ¬ Reports (javacResult (settled [] cancelled) kernelPlan) (eventsOf (Javac.execute (settled [] cancelled) kernelPlan)) := by
  refine ⟨⟨fun _ _ => rfl,fun reports => ?_⟩,fun _ _ => rfl,fun reports => ?_⟩
  · have one := reports.finished
    exact absurd one (by decide)
  · obtain ⟨payload,last,stopped,_⟩ := reports.last
    have failed : (eventsOf (Javac.execute (settled [] cancelled) kernelPlan)).getLast? =
        some (.buildFinished ⟨.failed,none,7,[]⟩) := by decide
    rw [failed] at last
    cases last
    exact absurd (stopped.mpr ⟨_,rfl,rfl⟩) (by decide)

end PrincessIDE.BuildBackend
