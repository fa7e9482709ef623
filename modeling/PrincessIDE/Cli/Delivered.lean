import PrincessIDE.Cli.Build
import PrincessIDE.Run.Pieces

namespace PrincessIDE.CliBuild
open Utf8 (Text Bytes)
open Str Error Event Effect PrincessIDE.Stream Loop CliDiagnostics
open BuildProcess (StdioStream)
open BuildBackend (diagnosticsOf diagnosticsOf_append)
open CliRun (taken killGroupAndWait)
open Reader (Wake wake told hear closing)

variable {w : World} {p : Plan}

def BuildPlan.parse (build : BuildPlan) (line : Text) : Option BuildDiagnosticPayload := parseLine line build.cwd build.defaultSource

-- What the pipes meet with a future.
def arrivalsOf : Arm → List (StdioStream × Wake)
  | .read which (.ok []) => [(which,.idle)]
  | .read which (.ok bytes) => [(which,.bytes bytes)]
  | .idle => [(.stdout,.idle),(.stderr,.idle)]
  | _ => []

-- What the pipes meet in a run of the loop, the iteration included that finds
-- the cancel token set.
def arrivals (w : World) (p : Plan) (s : Running) : List Tick → List (StdioStream × Wake)
  | [] => []
  | t :: rest => match iteration w p s t with
    | .next u => arrivalsOf (armOf s.watch t) ++ arrivals w p u rest
    | .leave _ _ => if drained s.watch t then [] else arrivalsOf (armOf s.watch t)

-- The diagnostics that are sent are those of the chunks.
def Tells (build : BuildPlan) (chunks : List Chunk) (s t : Output) : Prop :=
  diagnosticsOf t.events = diagnosticsOf s.events ++ (told chunks).filterMap build.parse

theorem Tells.nothing (same : diagnosticsOf t.events = diagnosticsOf s.events) : Tells build [] s t := by
  rw [Tells,same]
  exact (List.append_nil _).symm

theorem Tells.trans (first : Tells build a s t) (second : Tells build b t u) : Tells build (a++b) s u := by
  rw [Tells,second,first,Reader.told_append,List.filterMap_append,List.append_assoc]

theorem sending_sent {sink : Sink} (done : (sending (emit sink body)).run s = .ok a t) : t = {s with events:=s.events++[body]} := by
  obtain ⟨events,ran,rfl⟩ := run_zoom_parts done
  rw [emit_sent ran]

-- Neither a chunker nor a diagnostic is touched.
structure Aside (s t : Output) : Prop where
  chunkers : t.chunker = s.chunker
  sent : diagnosticsOf t.events = diagnosticsOf s.events

instance : IsPreorder Output Aside where
  refl _ := ⟨rfl,rfl⟩
  trans _ _ _ first second := ⟨second.chunkers.trans first.chunkers,second.sent.trans first.sent⟩

theorem emit_aside (sink : Sink) (other : diagnosticsOf [body] = []) : Moves Aside (sending (emit sink body)) := .zoom fun s => by
  refine ⟨funext fun which => by cases which <;> rfl,?_⟩
  rw [after,emit_settles]
  cases sink s.events body with
  | some e => rfl
  | none =>
    change diagnosticsOf (s.events ++ [body]) = _
    rw [diagnosticsOf_append,other,List.append_nil]

theorem note_aside (sink : Sink) (text : Text) : Moves Aside (sending (note sink text)) := emit_aside sink rfl

-- The lines of a chunk, one by one.
structure Parses (build : BuildPlan) (ls : List Text) (s t : Output) : Prop where
  chunkers : t.chunker = s.chunker
  sent : diagnosticsOf t.events = diagnosticsOf s.events ++ ls.filterMap build.parse

theorem onLine_parses (done : (onLine w p line).run s = .ok a t) : Parses p.build [line] s t := by
  unfold onLine at done
  cases parsed : parseLine line p.build.cwd p.build.defaultSource with
  | none =>
    rw [parsed] at done
    cases done
    exact ⟨rfl,by simp [BuildPlan.parse,parsed]⟩
  | some d =>
    rw [parsed] at done
    obtain ⟨_,u,sent,pushed⟩ := run_bind_parts done
    rw [sending_sent sent] at pushed
    cases pushed
    refine ⟨funext fun which => by cases which <;> rfl,?_⟩
    have one : [line].filterMap p.build.parse = [d] := by simp [BuildPlan.parse,parsed]
    change diagnosticsOf (s.events ++ [EventBody.buildDiagnostic d]) = _
    rw [diagnosticsOf_append,one]
    rfl

theorem lines_parses (ls : List Text) (done : (ls.forM (onLine w p)).run s = .ok a t) : Parses p.build ls s t := by
  induction ls generalizing s with
  | nil => cases done; exact ⟨rfl,(List.append_nil _).symm⟩
  | cons line ls ih =>
    obtain ⟨u,first,rest⟩ := run_each_parts done
    have here := onLine_parses first
    have later := ih rest
    refine ⟨later.chunkers.trans here.chunkers,?_⟩
    have cut : (line :: ls).filterMap p.build.parse = [line].filterMap p.build.parse ++ ls.filterMap p.build.parse :=
      List.filterMap_append (l:=[line])
    rw [later.sent,here.sent,cut,List.append_assoc]

theorem handleChunk_tells (done : (handleChunk w p chunk).run s = .ok a t) : t.chunker = s.chunker ∧ Tells p.build [chunk] s t := by
  obtain ⟨_,s₁,logged,done⟩ := run_bind_parts done
  obtain ⟨_,s₂,kept,done⟩ := run_bind_parts done
  rw [sending_sent logged] at kept
  cases kept
  have parsed := lines_parses _ done
  refine ⟨parsed.chunkers.trans (funext fun which => by cases which <;> rfl),?_⟩
  rw [Tells,parsed.sent,diagnosticsOf_append]
  have one : told [chunk] = lines chunk.1 := List.append_nil _
  have aside : diagnosticsOf [.logAppend ⟨.build,chunk.1,chunk.2⟩] = [] := rfl
  rw [one,aside,List.append_nil]

theorem chunks_tells (chunks : List Chunk) (done : (chunks.forM (handleChunk w p)).run s = .ok a t) :
    t.chunker = s.chunker ∧ Tells p.build chunks s t := by
  induction chunks generalizing s with
  | nil => cases done; exact ⟨rfl,.nothing rfl⟩
  | cons chunk chunks ih =>
    obtain ⟨u,first,rest⟩ := run_each_parts done
    obtain ⟨same,here⟩ := handleChunk_tells first
    obtain ⟨same',later⟩ := ih rest
    exact ⟨same'.trans same,here.trans later⟩

theorem put_chunker (s : Output) (c : Utf8Chunker) (which : StdioStream) : (s.put c which).chunker = Function.update s.chunker which c := by
  funext p
  cases p <;> cases which <;> rfl

theorem put_events (s : Output) (c : Utf8Chunker) (which : StdioStream) : (s.put c which).events = s.events := by cases which <;> rfl

-- What the pipes meet, and what is sent of it.
structure Heard (build : BuildPlan) (met : List (StdioStream × Wake)) (s t : Output) : Prop where
  chunkers : t.chunker = (hear s.chunker met).2
  tells : Tells build (hear s.chunker met).1 s t

theorem Aside.heard (quiet : Aside s t) : Heard build [] s t := ⟨quiet.chunkers,.nothing quiet.sent⟩

theorem Heard.trans (first : Heard build a s t) (second : Heard build b t u) : Heard build (a++b) s u := by
  have later := second.tells
  rw [first.chunkers] at later
  constructor
  · rw [Reader.hear_append,second.chunkers,first.chunkers]
  · rw [Reader.hear_append]
    exact first.tells.trans later

theorem flushChunker_takes (done : (flushChunker w p which linesOnly).run s = .ok a t) :
    t.chunker = Function.update s.chunker which (taken linesOnly (s.chunker which)).2 ∧
      Tells p.build (taken linesOnly (s.chunker which)).1 s t := by
  obtain ⟨_,_,got,done⟩ := run_bind_parts done
  cases got
  obtain ⟨_,_,kept,done⟩ := run_bind_parts done
  cases kept
  obtain ⟨same,tells⟩ := chunks_tells _ done
  rw [put_chunker] at same
  rw [Tells,put_events] at tells
  exact ⟨same,tells⟩

theorem hear_once (s : StdioStream → Utf8Chunker) (which : StdioStream) (met : Wake) :
    hear s [(which,met)] = ((Reader.wake (s which) met).1,Function.update s which (Reader.wake (s which) met).2) := by
  simp [hear]

theorem idle_heard (done : (flushChunker w p which false).run s = .ok a t) : Heard p.build [(which,.idle)] s t := by
  obtain ⟨same,tells⟩ := flushChunker_takes done
  have once := hear_once s.chunker which .idle
  constructor
  · rw [once]
    exact same
  · rw [once]
    exact tells

theorem bytes_heard (done : (flushChunker w p which true).run (s.put ((s.chunker which).push bytes) which) = .ok a t) :
    Heard p.build [(which,.bytes bytes)] s t := by
  obtain ⟨same,tells⟩ := flushChunker_takes done
  have once := hear_once s.chunker which (.bytes bytes)
  have pushed : (s.put ((s.chunker which).push bytes) which).chunker which = (s.chunker which).push bytes := by
    rw [put_chunker,Function.update_self]
  rw [pushed] at same tells
  rw [put_chunker,Function.update_idem] at same
  rw [Tells,put_events] at tells
  constructor
  · rw [once]
    exact same
  · rw [once]
    exact tells

theorem printing_parts {x : Printer α} (done : (printing x).run s = .ok a u) : ∃ out, x.run s.output = .ok a out ∧ u = ⟨s.watch,out⟩ :=
  run_zoom_parts done

theorem printing_aside {x : Printer α} (quiet : Moves Aside x) (done : (printing x).run s = .ok a u) : Aside s.output u.output := by
  obtain ⟨out,ran,rfl⟩ := printing_parts done
  have moved := quiet s.output
  rwa [after_ok ran] at moved

theorem kill_parts (done : (kill p killing).run s = .ok a u) : u = s := by
  unfold kill at done
  cases killed : killGroupAndWait p.pgid killing with
  | ok made => rw [killed] at done; cases done; rfl
  | error e => rw [killed] at done; cases done

theorem onArm_heard (arm : Arm) (done : (onArm w p t arm).run s = .ok a u) : Heard p.build (arrivalsOf arm) s.output u.output := by
  cases arm with
  | read which read => cases read with
    | error err =>
      obtain ⟨_,_,closed,done⟩ := run_bind_parts done
      cases closed
      exact (printing_aside (note_aside _ _) done).heard
    | ok bytes => cases bytes with
      | nil =>
        obtain ⟨_,_,closed,done⟩ := run_bind_parts done
        cases closed
        obtain ⟨out,flushed,rfl⟩ := printing_parts done
        exact idle_heard flushed
      | cons b bytes =>
        obtain ⟨out,ran,rfl⟩ := printing_parts done
        obtain ⟨_,_,pushed,flushed⟩ := run_bind_parts ran
        cases pushed
        exact bytes_heard flushed
  | waited answer => cases answer with
    | error err => cases done
    | ok status => cases done; exact (refl_of Aside _).heard
  | idle =>
    obtain ⟨out,ran,rfl⟩ := printing_parts done
    obtain ⟨_,_,first,second⟩ := run_bind_parts ran
    exact (idle_heard first).trans (idle_heard second)
  | deadline =>
    obtain ⟨_,_,marked,done⟩ := run_bind_parts done
    cases marked
    obtain ⟨_,_,said,done⟩ := run_bind_parts done
    obtain ⟨_,_,killed,done⟩ := run_bind_parts done
    rw [kill_parts killed] at done
    cases done
    exact (printing_aside (note_aside _ _) said).heard

theorem heed_aside (done : (heed w p t).run s = .ok b u) : Aside s.output u.output := by
  unfold heed at done
  split at done
  · obtain ⟨_,_,said,done⟩ := run_bind_parts done
    obtain ⟨_,_,killed,done⟩ := run_bind_parts done
    rw [kill_parts killed] at done
    cases done
    exact printing_aside (note_aside _ _) said
  · cases done
    exact refl_of Aside _

theorem turn_heard (done : (turn w p t).run s = .ok b u) : Heard p.build (arrivalsOf (armOf s.watch t)) s.output u.output := by
  obtain ⟨_,_,got,done⟩ := run_bind_parts done
  cases got
  obtain ⟨_,_,armed,heeded⟩ := run_bind_parts done
  have all := (onArm_heard _ armed).trans (heed_aside heeded).heard
  rwa [List.append_nil] at all

theorem loop_heard (ticks : List Tick) (left : loop (iteration w p) s ticks = (some .broke,u,rest)) :
    Heard p.build (arrivals w p s ticks) s.output u.output := by
  induction ticks generalizing s with
  | nil => cases left
  | cons t ticks ih =>
    rw [loop] at left
    rw [arrivals]
    cases here : iteration w p s t with
    | next m =>
      rw [here] at left
      unfold iteration at here
      split at here
      · cases here
      · split at here
        · next ran => cases here; exact (turn_heard ran).trans (ih left)
        · cases here
        · cases here
    | leave result m =>
      rw [here] at left
      cases left
      unfold iteration at here
      dsimp only
      split at here
      · next ended =>
        cases here
        rw [if_pos ended]
        exact (refl_of Aside _).heard
      · next going =>
        rw [if_neg going]
        split at here
        · cases here
        · next ran => cases here; exact turn_heard ran
        · cases here

theorem handleRemainder_tells (done : (handleRemainder w p which).run s = .ok a t) :
    t.chunker = Function.update s.chunker which ((s.chunker which).takeRemainder.elim (s.chunker which) Prod.snd) ∧
      Tells p.build ((s.chunker which).takeRemainder.elim [] fun out => [out.1]) s t := by
  obtain ⟨_,_,got,done⟩ := run_bind_parts done
  cases got
  cases left : (s.chunker which).takeRemainder with
  | none =>
    rw [left] at done
    cases done
    exact ⟨(Function.update_eq_self which s.chunker).symm,.nothing rfl⟩
  | some out =>
    rw [left] at done
    obtain ⟨_,_,kept,done⟩ := run_bind_parts done
    cases kept
    obtain ⟨same,tells⟩ := handleChunk_tells done
    rw [put_chunker] at same
    rw [Tells,put_events] at tells
    exact ⟨same,tells⟩

-- The two pipes are drained one behind the other, first their flushes and then
-- what is left of them.
theorem finalDrain_tells (done : (finalDrain w p).run s = .ok a t) :
    ∃ chunks, Tells p.build chunks s t ∧ ∀ c, c ∈ chunks ↔ ∃ which, c ∈ closing (s.chunker which) := by
  obtain ⟨_,s₁,first,done⟩ := run_bind_parts done
  obtain ⟨_,s₂,second,done⟩ := run_bind_parts done
  obtain ⟨_,s₃,third,last⟩ := run_bind_parts done
  obtain ⟨same₁,tells₁⟩ := flushChunker_takes first
  obtain ⟨same₂,tells₂⟩ := flushChunker_takes second
  obtain ⟨same₃,tells₃⟩ := handleRemainder_tells third
  obtain ⟨_,tells₄⟩ := handleRemainder_tells last
  have differ : StdioStream.stderr ≠ .stdout := by decide
  have out : s₂.chunker .stdout = (Reader.wake (s.chunker .stdout) .idle).2 := by
    rw [same₂,Function.update_of_ne differ.symm,same₁,Function.update_self]
    rfl
  have err : s₁.chunker .stderr = s.chunker .stderr := by rw [same₁,Function.update_of_ne differ]
  have err' : s₃.chunker .stderr = (Reader.wake (s.chunker .stderr) .idle).2 := by
    rw [same₃,Function.update_of_ne differ,same₂,Function.update_self,err]
    rfl
  refine ⟨_,((tells₁.trans tells₂).trans tells₃).trans tells₄,fun c => ?_⟩
  rw [out,err',err]
  have parts : ∀ which, c ∈ closing (s.chunker which) ↔ c ∈ (taken false (s.chunker which)).1 ∨
      c ∈ ((Reader.wake (s.chunker which) .idle).2.takeRemainder.elim [] fun out => [out.1] : List Chunk) := by
    intro which
    rw [closing,List.mem_append]
    cases (Reader.wake (s.chunker which) .idle).2.takeRemainder <;> rfl
  simp only [List.mem_append]
  constructor
  · rintro (((flushed | flushed) | left) | left)
    · exact ⟨.stdout,(parts _).mpr (.inl flushed)⟩
    · exact ⟨.stderr,(parts _).mpr (.inl flushed)⟩
    · exact ⟨.stdout,(parts _).mpr (.inr left)⟩
    · exact ⟨.stderr,(parts _).mpr (.inr left)⟩
  · rintro ⟨which,inside⟩
    cases which with
    | stdout => exact ((parts _).mp inside).elim (fun flushed => .inl (.inl (.inl flushed))) fun left => .inl (.inr left)
    | stderr => exact ((parts _).mp inside).elim (fun flushed => .inl (.inl (.inr flushed))) .inr

theorem report_aside (w : World) (s : Watch) : Moves Aside (report w s) := by
  refine .bind ?_ fun _ => .bind (.each fun path _ => ?_) fun _ => .bind (.each fun artifact _ => emit_aside _ rfl) fun _ =>
    .bind (.each fun artifact _ => ?_) fun _ => .bind (note_aside _ _) fun _ => .bind (emit_aside _ rfl) fun _ => .bind .get fun _ => .pure _
  · unfold noteTimeout
    split
    · exact note_aside _ _
    · exact .pure _
  · unfold noteMissing
    split
    · exact .pure _
    · exact note_aside _ _
  · unfold emitSymbolsIndexed
    split
    · split
      · exact emit_aside _ rfl
      · exact .pure _
    · exact .pure _

theorem reapLast_parts (done : (reapLast w).run s = .ok a u) : u.output = s.output := by
  obtain ⟨_,_,got,done⟩ := run_bind_parts done
  cases got
  split at done
  · cases answer : w.reaped with
    | error err => rw [answer] at done; cases done
    | ok status => rw [answer] at done; cases done; rfl
  · cases done; rfl

theorem conclude_tells (done : (conclude w p).run s = .ok result u) :
    ∃ chunks, Tells p.build chunks s.output u.output ∧ ∀ c, c ∈ chunks ↔ ∃ which, c ∈ closing (s.output.chunker which) := by
  obtain ⟨_,m,drained,done⟩ := run_bind_parts done
  obtain ⟨out,ran,rfl⟩ := printing_parts drained
  obtain ⟨_,reaped,reaping,done⟩ := run_bind_parts done
  obtain ⟨_,_,got,done⟩ := run_bind_parts done
  cases got
  obtain ⟨chunks,tells,members⟩ := finalDrain_tells ran
  have quiet := printing_aside (report_aside w reaped.watch) done
  refine ⟨chunks,?_,members⟩
  have sent := quiet.sent
  rw [reapLast_parts reaping] at sent
  rw [Tells,sent]
  exact tells

-- Whatever a build is answered, the diagnostics it sends are those of the chunks
-- that its pipes hand out, at their ends included.
theorem supervise_tells (done : supervise w p (begin p events) = (some (.ok result),u)) :
    ∃ chunks, diagnosticsOf u.output.events = diagnosticsOf events ++ (told chunks).filterMap p.build.parse ∧
      ∀ c, c ∈ chunks ↔ c ∈ (hear (fun _ => .new) (arrivals w p (begin p events) w.ticks)).1 ∨
        ∃ which, c ∈ closing ((hear (fun _ => .new) (arrivals w p (begin p events) w.ticks)).2 which) := by
  have start : (begin p events).output.chunker = fun _ => .new := funext fun which => by cases which <;> rfl
  unfold supervise at done
  split at done
  · cases done
  · cases done
  · next m rest left =>
    split at done
    · next concluded =>
      cases done
      have met := loop_heard w.ticks left
      obtain ⟨chunks,tells,members⟩ := conclude_tells concluded
      refine ⟨_,met.tells.trans tells,fun c => ?_⟩
      rw [List.mem_append,members,met.chunkers,start]
    · cases done

end PrincessIDE.CliBuild
