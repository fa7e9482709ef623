import PrincessIDE.Build.Finished

namespace PrincessIDE.BuildBackend
open Utf8 (Text)
open Str Error Event Effect Diagnostics
open BuildProcess (StdioChunk CommandOutput)

-- What the producer of the compile database does outside the engine.
inductive Deed where
  | ran (argv : List Text)
  | wrote (path : Text)
deriving DecidableEq, Repr

def deed : Question → Option Deed
  | .run plan .fresh => some (.ran plan.argv)
  | .writeDatabase path _ => some (.wrote path)
  | _ => none

def deedsOf (asked : List Question) : List Deed := asked.filterMap deed

def cleaning (argv : List Text) : Deed := .ran (argv++["clean".toList])

def bearing (bear path : Text) (argv : List Text) : Deed := .ran (bear :: "--output".toList :: path :: "--".toList :: argv)

-- The shim's way for a build command and a database path.
def shimWay (argv : List Text) (path : Text) : List Deed := [cleaning argv,.ran argv,.wrote path]

-- The ways of the producer; a failing bear gives way to the shim.
def scripts (bear : Option Text) (argv : List Text) (path : Text) : List (List Deed) := match bear with
  | some bear => [[cleaning argv,bearing bear path argv,.wrote path],
      cleaning argv :: bearing bear path argv :: shimWay argv path]
  | none => [shimWay argv path]

-- The producer keeps to a build command and a database path, as far as it comes.
def Follows (b : MakeBackend) (argv : List Text) (path : Text) (asked : List Question) : Prop :=
  ∃ script ∈ scripts (b.toolchain.pathOf "bear".toList) argv path, deedsOf asked <+: script

def Did (deeds : List Deed) (s : Site) : Prop := deedsOf s.asked = deeds

def Quiet (s t : Site) : Prop := deedsOf t.asked = deedsOf s.asked

instance : IsPreorder Site Quiet where
  refl _ := rfl
  trans _ _ _ first second := second.trans first

theorem ask_asked (sys : System) (q : Question) (s : Site) : (after (sys.ask q) s).asked = s.asked ++ [q] := rfl

variable {sys : System}

theorem ask_quiet (silent : deed q = none) : Moves Quiet (sys.ask q) := by
  intro s
  unfold Quiet deedsOf
  rw [ask_asked,List.filterMap_append,List.filterMap_cons,silent,List.filterMap_nil,List.append_nil]

theorem mild_quiet (sys : System) : Mild sys Quiet := by
  refine ⟨fun body _ => .zoom fun s => rfl,fun q silent => ask_quiet ?_⟩
  cases q with
  | run plan token => cases token <;> first | rfl | cases silent
  | writeDatabase path db => cases silent
  | sources root => rfl
  | launcher => rfl
  | bearOutput path cwd => rfl
  | installShim cc dir => rfl
  | collectShim dir => rfl
  | discover root declared => rfl
  | classFiles dir => rfl
  | createDirAll path => rfl
  | elapsedMs => rfl

variable {E : Site → Prop} {Q : α → Site → Prop}

-- A quiet action leaves the deeds as they are, whatever comes of it.
theorem quiet_did (quiet : Moves Quiet x) : Ensures (Did d) x (fun _ => Did d) (Did d) := by
  intro s start
  have moved := quiet s
  unfold Quiet at moved
  cases done : x.run s with
  | ok a t => rw [after_ok done] at moved; exact moved.trans start
  | error e t => rw [after_error done] at moved; exact moved.trans start

theorem quiet_then {x : Act β} {f : β → Act α} (quiet : Moves Quiet x) (ends : ∀ s, Did d s → E s)
    (rest : ∀ a, Ensures (Did d) (f a) Q E) : Ensures (Did d) (x >>= f) Q E :=
  ((quiet_did quiet).weaken (fun _ h => h) (fun _ _ h => h) ends).bind rest

theorem did_snoc (done : Did d s) (told : deed q = some step) : Did (d++[step]) {s with asked:=s.asked++[q]} := by
  unfold Did deedsOf at done ⊢
  rw [List.filterMap_append,done,List.filterMap_cons,told]
  rfl

theorem collect_did (plan : BuildPlan) :
    Ensures (Did d) (MakeBackend.collect sys plan) (fun _ => Did (d++[Deed.ran plan.argv])) (Did (d++[Deed.ran plan.argv])) := by
  intro s start
  have ran : Did (d++[Deed.ran plan.argv]) {s with asked:=s.asked++[Question.run plan .fresh]} := did_snoc start rfl
  unfold MakeBackend.collect
  rw [run_bind_ok (ask_run sys (.run plan .fresh) s)]
  dsimp only
  cases (sys.answers s.asked (.run plan .fresh)).2 with
  | ok output => exact ran
  | error e => exact ran

theorem collect_then {f : CommandOutput × List StdioChunk → Act α} (plan : BuildPlan)
    (ends : ∀ s, Did (d++[Deed.ran plan.argv]) s → E s) (rest : ∀ a, Ensures (Did (d++[Deed.ran plan.argv])) (f a) Q E) :
    Ensures (Did d) (MakeBackend.collect sys plan >>= f) Q E :=
  ((collect_did plan).weaken (fun _ h => h) (fun _ _ h => h) ends).bind rest

theorem write_then {f : Except PrincessError Unit → Act α} (path : Text) (db : CompileCommands)
    (rest : ∀ a, Ensures (Did (d++[Deed.wrote path])) (f a) Q E) :
    Ensures (Did d) (sys.ask (.writeDatabase path db) >>= f) Q E :=
  Ensures.bind (Q:=fun _ => Did (d++[Deed.wrote path])) (fun _ start => did_snoc start rfl) rest

theorem plan_argv {b : MakeBackend} (planned : answer (b.plan sys project) s = .ok plan) : b.planArgv project = .ok plan.argv := by
  obtain ⟨_,_,later⟩ := answer_bind_ok planned
  obtain ⟨argv,chosen,later⟩ := answer_bind_ok later
  obtain ⟨env,_,rest⟩ := answer_bind_ok later
  cases rest
  cases same : b.planArgv project with
  | ok other => rw [same] at chosen; exact chosen
  | error e => rw [same] at chosen; cases chosen

theorem refuseMissing_ok (passed : answer (MakeBackend.refuseMissing missing) s = .ok ()) : missing = [] := by
  by_contra some
  rw [MakeBackend.refuseMissing,if_neg some] at passed
  cases passed

-- A planned build misses no tool.
theorem plan_complete {b : MakeBackend} (planned : answer (b.plan sys project) s = .ok plan) : b.toolchain.missingRequired = [] := by
  obtain ⟨_,required,_⟩ := answer_bind_ok planned
  obtain ⟨nasm,_,refused⟩ := answer_bind_ok required
  have none := refuseMissing_ok refused
  split at none
  · split at none
    · exact absurd none (List.append_ne_nil_of_right_ne_nil _ (List.cons_ne_nil _ _))
    · exact none
  · exact none

theorem plan_then {b : MakeBackend} {f : BuildPlan → Act α} (ends : ∀ s, Did d s → E s)
    (rest : ∀ plan, b.planArgv project = .ok plan.argv → Ensures (Did d) (f plan) Q E) :
    Ensures (Did d) (b.plan sys project >>= f) Q E := by
  have quiet := (mild_quiet sys).plan b project
  refine Ensures.bind (Q:=fun plan s => Did d s ∧ b.planArgv project = .ok plan.argv) ?_ fun plan s here => rest plan here.2 s here.1
  intro s start
  have here := quiet_did quiet s start
  cases done : (b.plan sys project).run s with
  | ok plan t =>
    rw [done] at here
    exact ⟨here,plan_argv (s:=s) (by rw [answer,done])⟩
  | error e t =>
    rw [done] at here
    exact ends t here

-- As far along a script as the deeds go.
def Upto (d script : List Deed) (s : Site) : Prop := ∃ front, front <+: script ∧ Did (d++front) s

theorem did_upto (cut : front <+: script) (s : Site) (done : Did (d++front) s) : Upto d script s := ⟨front,cut,done⟩

theorem start_upto (s : Site) (done : Did d s) : Upto d script s := ⟨[],List.nil_prefix,by rwa [List.append_nil]⟩

theorem upto_append (d : List Deed) (front : List Deed) (s : Site) (upto : Upto (d++front) rest s) : Upto d (front++rest) s := by
  obtain ⟨more,cut,done⟩ := upto
  exact ⟨front++more,(List.prefix_append_right_inj front).mpr cut,by rwa [List.append_assoc] at done⟩

theorem clean_then {b : MakeBackend} {f : Unit → Act α} (chosen : b.planArgv project = .ok argv) (start : ∀ s, Did d s → E s)
    (ends : ∀ s, Did (d++[cleaning argv]) s → E s) (rest : Ensures (Did (d++[cleaning argv])) (f ()) Q E) :
    Ensures (Did d) (b.runCleanStep sys project >>= f) Q E := by
  refine Ensures.bind (Q:=fun _ => Did (d++[cleaning argv])) ?_ fun _ => rest
  refine plan_then start fun plan planned => ?_
  rw [chosen] at planned
  cases planned
  refine collect_then _ ends fun done => ?_
  exact quiet_then ((mild_quiet sys).noteClean done.1) ends fun _ =>
    (quiet_did ((mild_quiet sys).streamChunks done.2)).weaken (fun _ h => h) (fun _ _ h => h) ends

-- With an answer the producer has come to the end of its script, and answers
-- where the database is.
def Through (d script : List Deed) (target : Text) (path : Option Text) (s : Site) : Prop :=
  Upto d script s ∧ ∀ told ∈ path, told = target ∧ Did (d++script) s

theorem shim_did {b : MakeBackend} (sys : System) (chosen : b.planArgv project = .ok argv) :
    Ensures (Did d) (b.generateWithShim sys project) (Through d (shimWay argv (database project)) (database project))
      (Upto d (shimWay argv (database project))) := by
  have mild := mild_quiet sys
  have first : [cleaning argv] <+: shimWay argv (database project) := ⟨_,rfl⟩
  have second : [cleaning argv] ++ [Deed.ran argv] <+: shimWay argv (database project) := ⟨[.wrote (database project)],rfl⟩
  refine quiet_then (mild.asks _ rfl) start_upto fun installed => quiet_then (orFail_moves installed) start_upto fun _ => ?_
  refine clean_then chosen start_upto (did_upto first) ?_
  refine plan_then (did_upto first) fun plan planned => ?_
  rw [chosen] at planned
  cases planned
  have later : ∀ s, Did (d++[cleaning plan.argv]++[Deed.ran plan.argv]) s → Upto d (shimWay plan.argv (database project)) s := by
    intro s done
    rw [List.append_assoc] at done
    exact did_upto second s done
  refine collect_then _ later fun done => quiet_then (mild.streamChunks _) later fun _ => quiet_then (mild.asks _ rfl) later fun read =>
    quiet_then (orFail_moves read) later fun db => ?_
  split
  · exact quiet_then (mild.note _) later fun _ => .pure fun s here => ⟨later s here,fun _ none => nomatch none⟩
  · have whole : ∀ s, Did (d++[cleaning plan.argv]++[Deed.ran plan.argv]++[Deed.wrote (database project)]) s →
        Did (d++shimWay plan.argv (database project)) s := by
      intro s done
      rw [List.append_assoc,List.append_assoc] at done
      exact done
    have ends : ∀ s, Did (d++[cleaning plan.argv]++[Deed.ran plan.argv]++[Deed.wrote (database project)]) s →
        Upto d (shimWay plan.argv (database project)) s := fun s done => did_upto (List.prefix_refl _) s (whole s done)
    exact write_then _ _ fun written => quiet_then (orFail_moves written) ends fun _ => quiet_then (mild.note _) ends fun _ =>
      .pure fun s here => ⟨ends s here,fun _ told => ⟨(Option.some.inj told).symm,whole s here⟩⟩

-- Along one of the producer's ways.
def Along (d : List Deed) (ways : List (List Deed)) (s : Site) : Prop := ∃ script ∈ ways, Upto d script s

def Made (d : List Deed) (ways : List (List Deed)) (target : Text) (path : Option Text) (s : Site) : Prop :=
  ∃ script ∈ ways, Through d script target path s

theorem bear_did {b : MakeBackend} (chosen : b.planArgv project = .ok argv) (made : b.makeArgv project = argv) (bear : Text) :
    Ensures (Did d) (b.generateWithBear sys project bear) (Made d (scripts (some bear) argv (database project)) (database project))
      (Along d (scripts (some bear) argv (database project))) := by
  have mild := mild_quiet sys
  have direct : ∀ s, Upto d [cleaning argv,bearing bear (database project) argv,.wrote (database project)] s →
      Along d (scripts (some bear) argv (database project)) s := fun s upto => ⟨_,List.mem_cons_self,upto⟩
  have first : ∀ s, Did (d++[cleaning argv]) s → Along d (scripts (some bear) argv (database project)) s :=
    fun s done => direct s (did_upto ⟨_,rfl⟩ s done)
  have start : ∀ s, Did d s → Along d (scripts (some bear) argv (database project)) s := fun s done => direct s (start_upto s done)
  refine quiet_then (mild.note _) start fun _ => clean_then chosen start first ?_
  refine Ensures.bind (Q:=fun plan s => Did (d++[cleaning argv]) s ∧ plan.argv = bear :: "--output".toList :: database project :: "--".toList :: argv)
    ?_ fun plan => ?_
  · intro s here
    exact ⟨(mild.bearPlan b project bear s).trans here,by rw [← made]⟩
  · intro s ⟨here,planned⟩
    have ran : Deed.ran plan.argv = bearing bear (database project) argv := by rw [planned,bearing]
    have second : ∀ s, Did (d++[cleaning argv]++[Deed.ran plan.argv]) s → Along d (scripts (some bear) argv (database project)) s := by
      intro s done
      rw [ran,List.append_assoc] at done
      exact direct s (did_upto ⟨[.wrote (database project)],rfl⟩ s done)
    refine collect_then (E:=Along d (scripts (some bear) argv (database project)))
      (Q:=Made d (scripts (some bear) argv (database project)) (database project)) plan second (fun done => ?_) s here
    refine quiet_then (mild.streamChunks _) second fun _ => ?_
    split
    · have shim := (shim_did (d:=d++[cleaning argv]++[Deed.ran plan.argv]) sys chosen)
      have back : ∀ s, Upto (d++[cleaning argv]++[Deed.ran plan.argv]) (shimWay argv (database project)) s →
          Upto d (cleaning argv :: bearing bear (database project) argv :: shimWay argv (database project)) s := by
        intro s upto
        rw [ran,List.append_assoc] at upto
        exact upto_append d _ s upto
      refine quiet_then (mild.note _) second fun _ => shim.weaken (fun _ h => h) (fun path s through => ?_) fun s upto => ?_
      · refine ⟨_,List.mem_cons_of_mem _ (List.mem_singleton.mpr rfl),back s through.1,fun told here => ?_⟩
        obtain ⟨same,done⟩ := through.2 told here
        rw [ran,List.append_assoc,List.append_assoc] at done
        exact ⟨same,done⟩
      · exact ⟨_,List.mem_cons_of_mem _ (List.mem_singleton.mpr rfl),back s upto⟩
    · refine quiet_then (mild.asks _ rfl) second fun read => quiet_then (orFail_moves read) second fun db => ?_
      split
      · refine quiet_then (mild.note _) second fun _ => .pure fun s done => ?_
        rw [ran,List.append_assoc] at done
        exact ⟨_,List.mem_cons_self,did_upto ⟨[.wrote (database project)],rfl⟩ s done,fun _ none => nomatch none⟩
      · have whole : ∀ s, Did (d++[cleaning argv]++[Deed.ran plan.argv]++[Deed.wrote (database project)]) s →
            Did (d++[cleaning argv,bearing bear (database project) argv,.wrote (database project)]) s := by
          intro s done
          rw [ran,List.append_assoc,List.append_assoc] at done
          exact done
        exact write_then _ _ fun written => quiet_then (orFail_moves written)
          (fun s done => direct s (did_upto (List.prefix_refl _) s (whole s done))) fun _ =>
          quiet_then (mild.note _) (fun s done => direct s (did_upto (List.prefix_refl _) s (whole s done))) fun _ =>
          .pure fun s done => ⟨_,List.mem_cons_self,did_upto (List.prefix_refl _) s (whole s done),
            fun _ told => ⟨(Option.some.inj told).symm,whole s done⟩⟩

theorem generate_did {b : MakeBackend} (chosen : b.planArgv project = .ok argv) (made : b.makeArgv project = argv) :
    Ensures (Did d) (b.generateDatabase sys project) (Made d (scripts (b.toolchain.pathOf "bear".toList) argv (database project)) (database project))
      (Along d (scripts (b.toolchain.pathOf "bear".toList) argv (database project))) := by
  unfold MakeBackend.generateDatabase
  cases b.toolchain.pathOf "bear".toList with
  | some bear => exact bear_did chosen made bear
  | none =>
    refine quiet_then ((mild_quiet sys).note _) (fun s done => ⟨_,List.mem_singleton.mpr rfl,start_upto s done⟩) fun _ => ?_
    exact (shim_did _ chosen).weaken (fun _ h => h) (fun path s through => ⟨_,List.mem_singleton.mpr rfl,through⟩)
      fun s upto => ⟨_,List.mem_singleton.mpr rfl,upto⟩

theorem quiet_keeps {P : Site → Prop} {x : Act α} (quiet : Moves Quiet x) (closed : ∀ s t, P s → Quiet s t → P t) :
    Ensures P x (fun _ => P) P := by
  intro s start
  have moved := closed s _ start (quiet s)
  cases done : x.run s with
  | ok a t => rwa [after_ok done] at moved
  | error e t => rwa [after_error done] at moved

theorem along_closed (s t : Site) (along : Along d ways s) (quiet : Quiet s t) : Along d ways t := by
  obtain ⟨script,member,front,cut,done⟩ := along
  exact ⟨script,member,front,cut,quiet.trans done⟩

theorem made_along (made : Made d ways target path s) : Along d ways s := by
  obtain ⟨script,member,upto,_⟩ := made
  exact ⟨script,member,upto⟩

theorem made_closed (s t : Site) (made : Made d ways target path s) (quiet : Quiet s t) : Made d ways target path t := by
  obtain ⟨script,member,⟨front,cut,done⟩,whole⟩ := made
  exact ⟨script,member,⟨front,cut,quiet.trans done⟩,fun told here => ⟨(whole told here).1,quiet.trans (whole told here).2⟩⟩

theorem emit_quiet (sys : System) (body : EventBody) : Moves Quiet (sys.emit body) := .zoom fun _ => rfl

namespace MakeBackend
variable {b : MakeBackend}

-- What the producer builds: the driver alone, for the default path at the root.
def producers (b : MakeBackend) (dir : Text) (plan : BuildPlan) : ResolvedProject := projectFrom dir plan (b.rootOf plan)

def defaultWays (b : MakeBackend) (dir : Text) (plan : BuildPlan) : List (List Deed) :=
  scripts (b.toolchain.pathOf "bear".toList) [b.driver] (database (b.producers dir plan))

theorem no_script (ways : List (List Deed)) (target : Text) (some : ways ≠ []) (s : Site) (done : Did [] s) : Made [] ways target none s := by
  obtain ⟨script,member⟩ := List.exists_mem_of_ne_nil ways some
  exact ⟨script,member,start_upto s done,fun _ none => nomatch none⟩

theorem scripts_some (bear : Option Text) (argv : List Text) (path : Text) : scripts bear argv path ≠ [] := by
  cases bear <;> exact List.cons_ne_nil _ _

theorem databaseStep_made (sys : System) (plan : BuildPlan) (status : BuildStatus) :
    Ensures (Did []) (b.databaseStep sys plan (b.rootOf plan) status)
      (Made [] (b.defaultWays sys.currentDir plan) (database (b.producers sys.currentDir plan)))
      (Along [] (b.defaultWays sys.currentDir plan)) := by
  unfold databaseStep
  split
  · refine Ensures.bind (Ensures.caught (F:=Along [] (b.defaultWays sys.currentDir plan)) (generate_did (b:=b) rfl rfl)) fun generated => ?_
    cases generated with
    | ok path => exact .pure fun s made => made
    | error e =>
      refine Ensures.bind (quiet_keeps (mild_quiet sys |>.note _) along_closed) fun _ => .pure fun s along => ?_
      obtain ⟨script,member,upto⟩ := along
      exact ⟨script,member,upto,fun _ none => nomatch none⟩
  · exact .pure (no_script _ _ (scripts_some _ _ _))

theorem conclude_made (sys : System) (plan : BuildPlan) (streamed : List ParsedDiagnostic) (command : CommandOutput) :
    Ensures (Did []) (b.conclude sys plan (b.rootOf plan) streamed command)
      (fun _ s => Made [] (b.defaultWays sys.currentDir plan) (database (b.producers sys.currentDir plan)) s.lastCompileCommands s)
      (Along [] (b.defaultWays sys.currentDir plan)) := by
  have mild := mild_quiet sys
  have start : ∀ s, Did [] s → Along [] (b.defaultWays sys.currentDir plan) s :=
    fun s done => made_along (no_script _ [] (scripts_some _ _ _) s done)
  refine quiet_then (mild.failureStep plan command _) start fun _ => Ensures.bind (databaseStep_made sys plan _) fun path => ?_
  have keep : ∀ {α : Type} {x : Act α}, Moves Quiet x → Ensures
      (Made [] (b.defaultWays sys.currentDir plan) (database (b.producers sys.currentDir plan)) path) x
      (fun _ => Made [] (b.defaultWays sys.currentDir plan) (database (b.producers sys.currentDir plan)) path)
      (Along [] (b.defaultWays sys.currentDir plan)) :=
    fun quiet => (quiet_keeps quiet made_closed).weaken (fun _ h => h) (fun _ _ h => h) fun _ made => made_along made
  refine (keep (mild.artifactStep plan _ _)).bind fun artifacts => (keep (mild.asks _ rfl)).bind fun durationMs => ?_
  exact (keep (emit_quiet sys _)).bind fun _ => Ensures.bind (.modify fun s made => made) fun _ => .pure fun s made => made

theorem execute_made (sys : System) (plan : BuildPlan) :
    Ensures (Did []) (b.execute sys plan)
      (fun _ s => Made [] (b.defaultWays sys.currentDir plan) (database (b.producers sys.currentDir plan)) s.lastCompileCommands s)
      (Along [] (b.defaultWays sys.currentDir plan)) := by
  have start : ∀ s, Did [] s → Along [] (b.defaultWays sys.currentDir plan) s :=
    fun s done => made_along (no_script _ [] (scripts_some _ _ _) s done)
  refine quiet_then (emit_quiet sys _) start fun _ => quiet_then (ask_quiet rfl) start fun ran => ?_
  refine Ensures.bind (Q:=fun site s => site = s ∧ Did [] s) (.get fun s done => ⟨rfl,done⟩) fun site => ?_
  refine Ensures.bind (Q:=fun _ => Did []) ?_ fun _ => ?_
  · rintro s ⟨rfl,done⟩
    exact done
  · split
    · exact .throw start
    · exact quiet_then (orFail_moves _) start fun command => conclude_made sys plan _ command

-- A project that names nothing of its own.
structure Default (b : MakeBackend) (project : ResolvedProject) (path : Text) : Prop where
  targets : project.targets = []
  command : ∀ command ∈ project.buildCommand,
    trim command = [] ∨ shellSplit command = ["make".toList] ∨ shellSplit command = [b.driver]
  path : database project = path

theorem clamp_driver (parts : List Text) : b.clampDriver parts = [b.driver] ↔ parts = ["make".toList] ∨ parts = [b.driver] := by
  cases parts with
  | nil => simp [clampDriver]
  | cons program rest =>
    by_cases make : program = "make".toList
    · simp [clampDriver,make]
    · rw [clampDriver,if_neg make]
      simp only [List.cons.injEq,make,false_and,false_or]

theorem planArgv_driver {project : ResolvedProject} (chosen : b.planArgv project = .ok argv) :
    argv = [b.driver] ↔ project.targets = [] ∧ ∀ command ∈ project.buildCommand,
      trim command = [] ∨ shellSplit command = ["make".toList] ∨ shellSplit command = [b.driver] := by
  unfold planArgv at chosen
  cases command : project.buildCommand with
  | none =>
    rw [command] at chosen
    cases chosen
    simp [makeArgv]
  | some text =>
    rw [command] at chosen
    dsimp only at chosen
    split at chosen
    · rename_i blank
      cases chosen
      simp [makeArgv,blank]
    · rename_i text_
      split at chosen
      · cases chosen
      · rename_i words
        cases chosen
        simp only [Option.mem_some_iff,forall_eq',text_,false_or]
        rw [← clamp_driver]
        cases split : shellSplit text with
        | nil => exact absurd split words
        | cons program rest => simp [clampDriver]; tauto

end MakeBackend

-- What the producer owes the command that a build was planned with: it keeps to
-- the command and the path, and a database that the build records is written there.
structure Kept (b : MakeBackend) (argv : List Text) (path : Text) (x : Act α) : Prop where
  follows : Follows b argv path (after x idle).asked
  written : ∀ payload t, x.run idle = .ok payload t → ∀ told ∈ t.lastCompileCommands, told = path ∧ .wrote path ∈ deedsOf t.asked

theorem along_follows (along : Along [] (scripts (b.toolchain.pathOf "bear".toList) argv path) s) : Follows b argv path s.asked := by
  obtain ⟨script,member,front,cut,done⟩ := along
  exact ⟨script,member,by rw [show deedsOf s.asked = front from done]; exact cut⟩

theorem script_parts (member : script ∈ scripts bear argv path) :
    script.head? = some (cleaning argv) ∧ .wrote path ∈ script ∧ ∀ other, .wrote other ∈ script → other = path := by
  cases bear <;> simp only [scripts,List.mem_cons,List.not_mem_nil,or_false] at member
  · subst script
    simp [shimWay,cleaning]
  · rcases member with rfl | rfl <;> simp [shimWay,cleaning,bearing]

theorem prefix_head {a b : List Deed} (cut : a <+: b) (here : a.head? = some first) : b.head? = some first := by
  obtain ⟨rest,rfl⟩ := cut
  rw [List.head?_append,here]
  rfl

theorem execute_kept {b : MakeBackend} (defaults : b.defaultWays sys.currentDir plan = scripts (b.toolchain.pathOf "bear".toList) argv path)
    (target : database (b.producers sys.currentDir plan) = path) : Kept b argv path (b.execute sys plan) := by
  have made := MakeBackend.execute_made (b:=b) sys plan idle rfl
  rw [defaults,target] at made
  constructor
  · unfold after
    cases done : (b.execute sys plan).run idle with
    | error e t => rw [done] at made; exact along_follows made
    | ok payload t => rw [done] at made; exact along_follows (made_along made)
  · intro payload t done told here
    rw [done] at made
    obtain ⟨script,member,_,whole⟩ := made
    obtain ⟨same,all⟩ := whole told here
    exact ⟨same,by rw [show deedsOf t.asked = script from all]; exact (script_parts member).2.1⟩

-- A system in which every command succeeds and the producer finds an entry.
def producing (dir : Text) : System := ⟨fun _ q => match q with
  | .run _ _ => ([],.ok ⟨some 0,none,false,false,[]⟩)
  | .sources _ => []
  | .launcher => (none,[])
  | .bearOutput _ _ => .ok [⟨dir,[],[],none⟩]
  | .installShim _ _ => .ok ()
  | .collectShim _ => .ok [⟨dir,[],[],none⟩]
  | .writeDatabase _ _ => .ok ()
  | .discover _ _ => []
  | .classFiles _ => []
  | .createDirAll _ => .ok ()
  | .elapsedMs => 7,fun _ _ => none,dir⟩

theorem producing_accepts (dir : Text) : Accepts (producing dir).sink := fun _ _ => rfl

theorem ask_yields (answered : ∀ asked, sys.answers asked q = a) : Yields (sys.ask q) a := fun s => by
  rw [answer,ask_run,answered]

namespace MakeBackend
variable {b : MakeBackend}

theorem plan_yields (complete : b.toolchain.missingRequired = []) (dir : Text) (plan : BuildPlan) (root : Text) :
    ∃ made, Yields (b.plan (producing dir) (projectFrom dir plan root)) made := by
  have nasm : Yields (needsNasm (producing dir) (projectFrom dir plan root)) false := by
    refine Yields.bind (ask_yields fun _ => rfl) ?_
    exact .pure _
  have tools : Yields (b.requireToolsFor (producing dir) (projectFrom dir plan root)) () := by
    refine nasm.bind ?_
    rw [complete]
    cases b.toolchain.find "nasm".toList with
    | none => exact .pure _
    | some tool => exact .pure _
  exact ⟨_,tools.bind (Yields.bind (.pure _) (Yields.bind (Yields.bind (ask_yields fun _ => rfl) (.pure _)) (.pure _)))⟩

theorem streamChunks_sure (dir : Text) (chunks : List StdioChunk) : Sure (streamChunks (producing dir) chunks) :=
  .each fun _ => log_sure (producing_accepts dir) _

theorem noteClean_sure (dir : Text) (output : CommandOutput) : Sure (noteClean (producing dir) output) := by
  unfold noteClean
  split <;> exact note_sure (producing_accepts dir) _

theorem collect_yields (dir : Text) (plan : BuildPlan) :
    Yields (collect (producing dir) plan) (⟨some 0,none,false,false,[]⟩,[]) :=
  Yields.bind (ask_yields fun _ => rfl) (Yields.bind (.pure _) (.pure _))

theorem runCleanStep_yields (complete : b.toolchain.missingRequired = []) (dir : Text) (plan : BuildPlan) (root : Text) :
    Yields (b.runCleanStep (producing dir) (projectFrom dir plan root)) () := by
  obtain ⟨made,planned⟩ := plan_yields complete dir plan root
  refine planned.bind ((collect_yields dir _).bind (.after_sure (noteClean_sure dir _) fun _ => ?_))
  intro s
  obtain ⟨_,done⟩ := streamChunks_sure dir [] s
  exact done

theorem generateWithShim_yields (complete : b.toolchain.missingRequired = []) (dir : Text) (plan : BuildPlan) (root : Text) :
    Yields (b.generateWithShim (producing dir) (projectFrom dir plan root)) (some (database (projectFrom dir plan root))) := by
  obtain ⟨made,planned⟩ := plan_yields complete dir plan root
  refine Yields.bind (ask_yields fun _ => rfl) (Yields.bind (.pure ()) ((runCleanStep_yields complete dir plan root).bind (planned.bind ?_)))
  refine (collect_yields dir _).bind (.after_sure (streamChunks_sure dir _) fun _ => Yields.bind (ask_yields fun _ => rfl) (Yields.bind (.pure _) ?_))
  exact Yields.bind (ask_yields fun _ => rfl) (Yields.bind (.pure ()) (.after_sure (note_sure (producing_accepts dir) _) fun _ => .pure _))

theorem generateDatabase_yields (complete : b.toolchain.missingRequired = []) (dir : Text) (plan : BuildPlan) (root : Text) :
    Yields (b.generateDatabase (producing dir) (projectFrom dir plan root)) (some (database (projectFrom dir plan root))) := by
  unfold generateDatabase
  cases b.toolchain.pathOf "bear".toList with
  | none => exact .after_sure (note_sure (producing_accepts dir) _) fun _ => generateWithShim_yields complete dir plan root
  | some bear =>
    refine .after_sure (note_sure (producing_accepts dir) _) fun _ => (runCleanStep_yields complete dir plan root).bind
      (Yields.bind (Yields.bind (Yields.bind (ask_yields fun _ => rfl) (.pure _)) (.pure _)) ((collect_yields dir _).bind
      (.after_sure (streamChunks_sure dir _) fun _ => Yields.bind (ask_yields fun _ => rfl) (Yields.bind (.pure _) ?_))))
    exact Yields.bind (ask_yields fun _ => rfl) (Yields.bind (.pure ()) (.after_sure (note_sure (producing_accepts dir) _) fun _ => .pure _))

-- In the producing system the build records the database of the producer, and
-- its whole script is done.
theorem execute_produces (on : b.generateCompileCommands = true) (complete : b.toolchain.missingRequired = []) (dir : Text)
    (plan : BuildPlan) : ∃ payload t, (b.execute (producing dir) plan).run idle = .ok payload t ∧
      t.lastCompileCommands = some (database (b.producers dir plan)) ∧ deedsOf t.asked ∈ b.defaultWays dir plan := by
  obtain ⟨_,_,_,_,ends⟩ := b.execute_ends (producing_accepts dir) plan idle
  obtain ⟨payload,t,_,done,_,_,_,s₁,s₂,recorded⟩ := ends _ rfl
  have step : Yields (b.databaseStep (producing dir) plan (b.rootOf plan) .ok) (some (database (b.producers dir plan))) := by
    unfold databaseStep
    rw [on]
    exact (Yields.caught (generateDatabase_yields complete dir plan (b.rootOf plan))).bind (.pure _)
  have path : t.lastCompileCommands = some (database (b.producers dir plan)) := by
    have yielded := step s₁
    rw [answer,show (b.databaseStep (producing dir) plan (b.rootOf plan) .ok).run s₁ = _ from recorded] at yielded
    exact Except.ok.inj yielded
  have made := execute_made (b:=b) (producing dir) plan idle rfl
  rw [done] at made
  obtain ⟨script,member,_,whole⟩ := made
  have all : deedsOf t.asked = script := (whole _ path).2
  exact ⟨payload,t,done,path,by rw [all]; exact member⟩

end MakeBackend

theorem database_kept_iff {b : MakeBackend} (on : b.generateCompileCommands = true)
    (planned : (b.plan origin project).run start = .ok plan before) (dir : Text) :
    (∀ sys : System, sys.currentDir = dir → Kept b plan.argv (database project) (b.execute sys plan)) ↔
      MakeBackend.Default b project (database (b.producers dir plan)) := by
  have answered : answer (b.plan origin project) start = .ok plan := by rw [answer,planned]
  have chosen := MakeBackend.planArgv_driver (plan_argv answered)
  constructor
  · intro kept
    obtain ⟨payload,t,done,path,member⟩ := MakeBackend.execute_produces on (plan_complete answered) dir plan
    have here := kept (producing dir) rfl
    have same := (here.written payload t done _ path).1
    have follows := here.follows
    rw [after_ok done] at follows
    obtain ⟨script,listed,cut⟩ := follows
    have heads := prefix_head cut (script_parts member).1
    rw [(script_parts listed).1] at heads
    have driver : plan.argv = [b.driver] := by
      have ran := Deed.ran.inj (Option.some.inj heads)
      exact List.append_cancel_right ran
    exact ⟨(chosen.mp driver).1,(chosen.mp driver).2,same.symm⟩
  · rintro ⟨targets,command,path⟩ sys rfl
    have driver := chosen.mpr ⟨targets,command⟩
    exact execute_kept (by rw [driver,path]; rfl) path.symm

-- `make -f Makefile.kernel` as the command of a project, planned where `bear` is missing.
def kernelProject : ResolvedProject :=
  ⟨"/w".toList,"/w".toList,some "make -f Makefile.kernel".toList,[],[],some "/w/compile_commands.json".toList,none,none,none⟩

def plainProject : ResolvedProject := {kernelProject with buildCommand:=none}

def makeAt : MakeBackend := ⟨⟨[],none⟩,true,"/w".toList,600000,none⟩

def planFor (project : ResolvedProject) : BuildPlan :=
  ⟨.make,"host/unknown-cc".toList,(makeAt.planArgv project).toOption.getD [],"/w".toList,[],[],some 600000⟩

theorem database_kept_plain :
    (∀ sys : System, sys.currentDir = "/".toList →
      Kept makeAt (planFor plainProject).argv (database plainProject) (makeAt.execute sys (planFor plainProject))) ↔
    MakeBackend.Default makeAt plainProject (database (makeAt.producers "/".toList (planFor plainProject))) :=
  @database_kept_iff (producing "/".toList) plainProject idle (planFor plainProject) _ makeAt rfl rfl _

theorem database_loses_command :
    (makeAt.plan (producing "/".toList) kernelProject).run idle = .ok (planFor kernelProject) ⟨[.sources "/w".toList,.launcher],[],none⟩ ∧
    deedsOf (after (makeAt.execute (producing "/".toList) (planFor kernelProject)) idle).asked =
      [.ran ["make".toList,"clean".toList],.ran ["make".toList],.wrote "/w/compile_commands.json".toList] ∧
    ¬ Kept makeAt (planFor kernelProject).argv (database kernelProject) (makeAt.execute (producing "/".toList) (planFor kernelProject)) := by
  have deeds : deedsOf (after (makeAt.execute (producing "/".toList) (planFor kernelProject)) idle).asked =
      [.ran ["make".toList,"clean".toList],.ran ["make".toList],.wrote "/w/compile_commands.json".toList] := by decide +kernel
  refine ⟨rfl,deeds,fun kept => ?_⟩
  obtain ⟨script,member,cut⟩ := kept.follows
  rw [deeds] at cut
  have heads := prefix_head cut rfl
  rw [(script_parts member).1] at heads
  exact absurd heads (by decide)

end PrincessIDE.BuildBackend
