import PrincessIDE.Cli.Delivered

namespace PrincessIDE.CliBuild
open Utf8 (Text Bytes)
open Str Event Effect PrincessIDE.Stream Loop CliDiagnostics
open Process (ExitStatus)
open BuildProcess (StdioStream)
open BuildBackend (diagnosticsOf)
open CliRun (Killing taken)
open Reader (Wake Wake.read wake wakes crumbs told hear alone closing Line noLine finish Aboard Piece Script script Busy)

-- What a build may send of what is written to its pipes, over all the ways in
-- which that may arrive.
def Publishes (build : BuildPlan) (written : Script StdioStream) (ds : List BuildDiagnosticPayload) : Prop :=
  ∃ (w : World) (p : Plan) (events : List EventBody) (result : BuildResult) (u : Running), p.build = build ∧ diagnosticsOf events = [] ∧
    supervise w p (begin p events) = (some (.ok result),u) ∧
    script .empty (arrivals w p (begin p events) w.ticks) = written ∧ diagnosticsOf u.output.events = ds

-- No stretch of a line that can be handed out on its own is a diagnostic.
def Silent (build : BuildPlan) (written : Script StdioStream) : Prop :=
  (∀ line ∈ written.lines, ∀ t, Piece true line.2.1 t → build.parse t = none) ∧
    ∀ which t, Piece false (written.tail which).1 t → build.parse t = none

theorem parse_dropReturn (build : BuildPlan) (t : Text) : build.parse (dropReturn t) = build.parse t := parseLine_dropReturn ..

theorem parse_short (build : BuildPlan) (short : t.length ≤ 4) : build.parse t = none := by
  cases parsed : build.parse t with
  | none => rfl
  | some d =>
    have long := parseLine_long parsed
    omega

theorem silent_publishes (silent : Silent build written) (publishes : Publishes build written ds) : ds = [] := by
  obtain ⟨w,p,events,result,u,rfl,none,done,rfl,rfl⟩ := publishes
  obtain ⟨chunks,sent,members⟩ := supervise_tells done
  rw [sent,none,List.nil_append,List.filterMap_eq_nil_iff]
  intro t inside
  obtain ⟨c,among,line⟩ := List.mem_flatMap.mp inside
  obtain ⟨met,same⟩ : ∃ met, arrivals w p (begin p events) w.ticks = met := ⟨_,rfl⟩
  rw [same] at silent members
  obtain ⟨states,chunks⟩ := Reader.hear_alone (fun _ => .new) met
  have lone : ∀ which, Aboard ((script .empty met).tail which).1 ((hear (fun _ => .new) met).2 which) ∧
      ∀ t ∈ told (wakes .new (alone which met)).1, p.build.parse t = .none := by
    intro which
    obtain ⟨aboard,pieces⟩ := Reader.wakes_pieces (u:=noLine) Reader.aboard_new (alone which met)
    obtain ⟨tail,lines⟩ := Reader.script_alone .empty which met
    change (script .empty met).tail which = (finish noLine (Reader.read (alone which met))).2 at tail
    rw [← tail] at aboard pieces
    refine ⟨by rwa [states],fun t inside => ?_⟩
    obtain ⟨t',cut,piece⟩ := pieces t inside
    have parsed : p.build.parse t' = .none := by
      rcases piece with ⟨ended,finished,piece⟩ | piece
      · exact silent.1 _ ((lines ended).mpr (.inr finished)) t' piece
      · exact silent.2 which t' piece
    rcases cut with rfl | rfl
    · exact parsed
    · rw [parse_dropReturn,parsed]
  rcases (members c).mp among with running | ⟨which,last⟩
  · obtain ⟨which,handed⟩ := (chunks c).mp running
    exact (lone which).2 t (List.mem_flatMap.mpr ⟨c,handed,line⟩)
  · rcases Reader.closing_pieces (lone which).1 t (List.mem_flatMap.mpr ⟨c,last,line⟩) with short | piece
    · exact parse_short _ (by omega)
    · exact silent.2 which t piece

-- How a pipe's bytes and idle intervals come to the loop.
def armFor (which : StdioStream) : Wake → Arm
  | .bytes bytes => .read which (.ok bytes)
  | .idle => .idle

def met (which : StdioStream) (schedule : List Wake) : List (StdioStream × Wake) := schedule.flatMap fun x => arrivalsOf (armFor which x)

theorem met_bytes (some : bytes ≠ []) (which : StdioStream) (rest : List Wake) :
    met which (.bytes bytes :: rest) = [(which,.bytes bytes)] ++ met which rest := by
  cases bytes with
  | nil => exact absurd rfl some
  | cons b bytes => rfl

theorem met_idle (which : StdioStream) (rest : List Wake) : met which (.idle :: rest) = [(StdioStream.stdout,Wake.idle),(StdioStream.stderr,Wake.idle)] ++ met which rest := rfl

-- An idle interval flushes both pipes, but the other one has nothing to flush.
theorem hear_idle {s : StdioStream → Utf8Chunker} (stuck : ∀ other, other ≠ which → (s other).takeAvailable = none) :
    hear s [(.stdout,.idle),(.stderr,.idle)] = ((wake (s which) .idle).1,Function.update s which (wake (s which) .idle).2) := by
  have quiet : ∀ other, other ≠ which → wake (s other) .idle = ([],s other) := fun other differ => by rw [wake,stuck other differ]
  cases which with
  | stdout =>
    have other := quiet .stderr (by decide)
    have kept : Function.update s .stdout (wake (s .stdout) .idle).2 .stderr = s .stderr := Function.update_of_ne (by decide) ..
    simp only [hear,kept,other,List.append_nil]
    rw [← kept,Function.update_eq_self]
  | stderr =>
    have other := quiet .stdout (by decide)
    simp only [hear,other,Function.update_eq_self,List.append_nil,List.nil_append]

theorem hear_met (which : StdioStream) (busy : Busy schedule) {s : StdioStream → Utf8Chunker} (stuck : ∀ other, other ≠ which → (s other).takeAvailable = none) :
    hear s (met which schedule) = ((wakes (s which) schedule).1,Function.update s which (wakes (s which) schedule).2) := by
  induction schedule generalizing s with
  | nil => simp [met,hear,wakes]
  | cons x rest ih =>
    have first : ∃ front, met which (x::rest) = front ++ met which rest ∧
        hear s front = ((wake (s which) x).1,Function.update s which (wake (s which) x).2) := by
      cases x with
      | bytes bytes => exact ⟨_,met_bytes (fun none => busy _ (.head _) (by rw [none])) which rest,hear_once s which _⟩
      | idle => exact ⟨_,met_idle which rest,hear_idle stuck⟩
    obtain ⟨front,split,heard⟩ := first
    have later := ih (fun y inside => busy y (.tail _ inside)) (s:=Function.update s which (wake (s which) x).2) fun other differ => by
      rw [Function.update_of_ne differ]
      exact stuck other differ
    rw [split,Reader.hear_append,heard,later,Function.update_self,Function.update_idem]
    rfl

theorem write_idle (written : Script StdioStream) (which : StdioStream) : written.write (which,.idle) = written := by
  simp [Script.write,Wake.read,finish]

theorem script_met (which : StdioStream) (busy : Busy schedule) (written : Script StdioStream) : script written (met which schedule) =
    ⟨written.lines ++ (finish (written.tail which) (Reader.read schedule)).1.map (which,·),
      Function.update written.tail which (finish (written.tail which) (Reader.read schedule)).2⟩ := by
  induction schedule generalizing written with
  | nil => simp [met,script,Reader.read,finish]
  | cons x rest ih =>
    have later := ih (fun y inside => busy y (.tail _ inside))
    have cut : Reader.read (x::rest) = x.read ++ Reader.read rest := rfl
    rw [cut,Reader.finish_append]
    cases x with
    | bytes bytes =>
      rw [met_bytes (fun none => busy _ (.head _) (by rw [none])),Reader.script_append,later]
      simp [script,Script.write,Wake.read]
    | idle =>
      rw [met_idle,Reader.script_append,later]
      simp [script,write_idle,Wake.read,finish]

-- A line of a script, with a way for it to arrive.
abbrev Part := (StdioStream × Line) × List Wake

def Part.Ends (part : Part) : Prop := Busy part.2 ∧ Reader.read part.2 = part.1.2.1 ++ [newline]

theorem finish_line (line : Line) : finish noLine (line.1 ++ [newline]) = ([line],noLine) := by
  have plain : newline ∉ noLine.1 ++ line.1 := line.2
  exact Reader.finish_ended plain

theorem Part.Ends.renews {part : Part} (ends : part.Ends) : (wakes .new part.2).2 = .new := by
  obtain ⟨aboard,_⟩ := Reader.wakes_pieces (u:=noLine) Reader.aboard_new part.2
  rw [ends.2,finish_line] at aboard
  obtain ⟨x,split,_⟩ := aboard
  have none := (List.append_eq_nil_iff.mp split.symm).2
  exact congrArg Utf8Chunker.mk none

def metParts (parts : List Part) : List (StdioStream × Wake) := parts.flatMap fun part => met part.1.1 part.2

theorem hear_parts {parts : List Part} (every : ∀ part ∈ parts, part.Ends) :
    hear (fun _ => .new) (metParts parts) = (parts.flatMap fun part => (wakes .new part.2).1,fun _ => .new) := by
  induction parts with
  | nil => rfl
  | cons part parts ih =>
    have here := every part (.head _)
    have first := hear_met (s:=fun _ => .new) part.1.1 here.1 fun _ _ => by decide
    rw [here.renews] at first
    have same : Function.update (fun _ : StdioStream => Utf8Chunker.new) part.1.1 .new = fun _ => .new := Function.update_eq_self ..
    have later := ih fun part inside => every part (.tail _ inside)
    rw [metParts,List.flatMap_cons,Reader.hear_append,first,same]
    rw [metParts] at later
    rw [later]
    rfl

theorem script_parts {parts : List Part} (every : ∀ part ∈ parts, part.Ends) (lines : List (StdioStream × Line)) :
    script ⟨lines,fun _ => noLine⟩ (metParts parts) = ⟨lines ++ parts.map Prod.fst,fun _ => noLine⟩ := by
  induction parts generalizing lines with
  | nil => simp [metParts,script]
  | cons part parts ih =>
    have here := every part (.head _)
    have same : Function.update (fun _ : StdioStream => noLine) part.1.1 noLine = fun _ => noLine := Function.update_eq_self ..
    have first := script_met part.1.1 here.1 ⟨lines,fun _ => noLine⟩
    dsimp only at first
    rw [here.2,finish_line,same] at first
    have later := ih (fun part inside => every part (.tail _ inside)) (lines ++ [part.1])
    rw [metParts,List.flatMap_cons,Reader.script_append,first]
    rw [metParts] at later
    have one : [part.1.2].map (part.1.1,·) = [part.1] := rfl
    rw [one,later]
    simp

def other : StdioStream → StdioStream
  | .stdout => .stderr
  | .stderr => .stdout

-- All the lines, then what is left of the two pipes, one behind the other.
def metAll (parts : List Part) (which : StdioStream) (a b : List Wake) : List (StdioStream × Wake) :=
  metParts parts ++ (met (other which) a ++ met which b)

theorem hear_all {parts : List Part} (every : ∀ part ∈ parts, part.Ends) (busy : Busy a) (busy' : Busy b)
    (stuck : (wakes .new a).2.takeAvailable = none) (which : StdioStream) :
    (∀ c, c ∈ (hear (fun _ => .new) (metAll parts which a b)).1 ↔
        (c ∈ parts.flatMap fun part => (wakes .new part.2).1) ∨ c ∈ (wakes .new a).1 ∨ c ∈ (wakes .new b).1) ∧
      (hear (fun _ => .new) (metAll parts which a b)).2 (other which) = (wakes .new a).2 ∧
      (hear (fun _ => .new) (metAll parts which a b)).2 which = (wakes .new b).2 := by
  have differ : other which ≠ which := by cases which <;> decide
  have first := hear_met (s:=fun _ => .new) (other which) busy fun _ _ => by decide
  have second := hear_met (s:=Function.update (fun _ => .new) (other which) (wakes .new a).2) which busy' fun p apart => by
    have same : p = other which := by cases p <;> cases which <;> first | rfl | exact absurd rfl apart
    rw [same,Function.update_self]
    exact stuck
  rw [Function.update_of_ne differ.symm] at second
  rw [metAll,Reader.hear_append,hear_parts every,Reader.hear_append,first,second]
  refine ⟨fun c => by simp only [List.mem_append],?_,Function.update_self ..⟩
  dsimp only
  rw [Function.update_of_ne differ,Function.update_self]

theorem script_all {parts : List Part} (every : ∀ part ∈ parts, part.Ends) (busy : Busy a) (busy' : Busy b) {tail : StdioStream → Line}
    {which : StdioStream} (reads : Reader.read a = (tail (other which)).1) (reads' : Reader.read b = (tail which).1) :
    script .empty (metAll parts which a b) = ⟨parts.map Prod.fst,tail⟩ := by
  have differ : other which ≠ which := by cases which <;> decide
  have opened : ∀ line : Line, finish noLine line.1 = ([],line) := by
    intro line
    have plain : newline ∉ noLine.1 ++ line.1 := line.2
    exact Reader.finish_open plain
  rw [metAll,Reader.script_append,Script.empty,script_parts every,Reader.script_append,script_met _ busy,script_met _ busy']
  dsimp only
  rw [reads,reads',opened,Function.update_of_ne differ.symm,opened]
  simp only [List.map_nil,List.append_nil,List.nil_append,Script.mk.injEq,true_and]
  funext p
  by_cases same : p = which
  · rw [same,Function.update_self]
  · have here : p = other which := by cases p <;> cases which <;> first | rfl | exact absurd rfl same
    rw [Function.update_of_ne same,here,Function.update_self]

-- The chunks, in whatever order the two pipes hand them out.
def handed (parts : List Part) (a b : List Wake) : List Chunk :=
  (parts.flatMap fun part => (wakes .new part.2).1) ++
    (((wakes .new a).1 ++ closing (wakes .new a).2) ++ ((wakes .new b).1 ++ closing (wakes .new b).2))

section Runs
variable {w : World} {p : Plan}

theorem sending_sure (accepts : Accepts w.sink) (body : EventBody) : Sure (sending (emit w.sink body)) := .zoom (emit_sure accepts body)

theorem noting_sure (accepts : Accepts w.sink) (text : Text) : Sure (sending (note w.sink text)) := .zoom (note_sure accepts text)

theorem modify_sure (f : Output → Output) : Sure (modify f : Printer PUnit) := fun _ => ⟨⟨⟩,rfl⟩

theorem get_sure : Sure (get : Printer Output) := fun s => ⟨s,rfl⟩

theorem onLine_sure (accepts : Accepts w.sink) (line : Text) : Sure (onLine w p line) := by
  unfold onLine
  split
  · exact .bind (sending_sure accepts _) fun _ => modify_sure _
  · exact .pure _

theorem handleChunk_sure (accepts : Accepts w.sink) (chunk : Chunk) : Sure (handleChunk w p chunk) :=
  .bind (sending_sure accepts _) fun _ => .bind (modify_sure _) fun _ => .each fun line => onLine_sure accepts line

theorem flushChunker_sure (accepts : Accepts w.sink) (which : StdioStream) (linesOnly : Bool) : Sure (flushChunker w p which linesOnly) :=
  .bind get_sure fun _ => .bind (modify_sure _) fun _ => .each fun chunk => handleChunk_sure accepts chunk

theorem handleRemainder_sure (accepts : Accepts w.sink) (which : StdioStream) : Sure (handleRemainder w p which) := by
  refine .bind get_sure fun _ => ?_
  split
  · exact .bind (modify_sure _) fun _ => handleChunk_sure accepts _
  · exact .pure _

theorem finalDrain_sure (accepts : Accepts w.sink) : Sure (finalDrain w p) :=
  .bind (flushChunker_sure accepts _ _) fun _ => .bind (flushChunker_sure accepts _ _) fun _ =>
    .bind (handleRemainder_sure accepts _) fun _ => handleRemainder_sure accepts _

theorem report_sure (accepts : Accepts w.sink) (s : Watch) : Sure (report w s) := by
  refine .bind ?_ fun _ => .bind (.each fun path => ?_) fun _ => .bind (.each fun artifact => sending_sure accepts _) fun _ =>
    .bind (.each fun artifact => ?_) fun _ => .bind (noting_sure accepts _) fun _ => .bind (sending_sure accepts _) fun _ =>
      .bind get_sure fun _ => .pure _
  · unfold noteTimeout
    split
    · exact noting_sure accepts _
    · exact .pure _
  · unfold noteMissing
    split
    · exact .pure _
    · exact noting_sure accepts _
  · unfold emitSymbolsIndexed
    split
    · split
      · exact sending_sure accepts _
      · exact .pure _
    · exact .pure _

-- What feeds the loop and leaves it as it is.
inductive Feeding : Arm → Prop where
  | read (which : StdioStream) (some : bytes ≠ []) : Feeding (.read which (.ok bytes))
  | idle : Feeding .idle

theorem feeding_met (busy : Busy schedule) (which : StdioStream) : ∀ arm ∈ schedule.map (armFor which), Feeding arm := by
  intro arm inside
  obtain ⟨x,among,rfl⟩ := List.mem_map.mp inside
  cases x with
  | bytes bytes => exact .read which fun none => busy _ among (by rw [none])
  | idle => exact .idle

theorem onArm_feeds (accepts : Accepts w.sink) (feeding : Feeding arm) (t : Tick) (s : Running) :
    ∃ out, (onArm w p t arm).run s = .ok () ⟨s.watch,out⟩ := by
  have printed : ∀ x : Printer Unit, Sure x → ∃ out, (printing x).run s = .ok () ⟨s.watch,out⟩ := fun x sure => by
    obtain ⟨_,ran⟩ := sure.run s.output
    exact ⟨_,run_zoom_ok ran⟩
  cases feeding with
  | read which some =>
    rename_i bytes
    cases bytes with
    | nil => exact absurd rfl some
    | cons b bytes => exact printed _ (.bind (modify_sure _) fun _ => flushChunker_sure accepts _ _)
  | idle => exact printed _ (.bind (flushChunker_sure accepts _ _) fun _ => flushChunker_sure accepts _ _)

-- Nothing is killed and nobody cancels.
def still : Killing := ⟨.delivered,fun _ => false,.delivered⟩

def tickOf (arm : Arm) : Tick := ⟨0,[arm],still,false,still,0⟩

-- The child exits, and the drain grace runs out.
def lastTicks : List Tick := [tickOf (.waited (.ok ⟨some 0,none⟩)),⟨drainGrace+1,[],still,false,still,0⟩]

def Underway (s : Watch) : Prop := s.outOpen = true ∧ s.errOpen = true ∧ s.status = none ∧ s.exitAt = none

theorem underway_drained (underway : Underway s) (t : Tick) : drained s t = false := by
  obtain ⟨_,_,status,exitAt⟩ := underway
  simp [drained,status,exitAt]

theorem feeding_arm (underway : Underway s) (feeding : Feeding arm) : armOf s (tickOf arm) = arm := by
  obtain ⟨out,err,_,_⟩ := underway
  cases feeding with
  | read which some => cases which <;> simp [armOf,tickOf,enabled,Watch.isOpen,out,err]
  | idle => rfl

theorem feed_next (accepts : Accepts w.sink) (underway : Underway s.watch) (feeding : Feeding arm) :
    ∃ out, iteration w p s (tickOf arm) = .next ⟨s.watch,out⟩ := by
  obtain ⟨out,ran⟩ := onArm_feeds (p:=p) accepts feeding (tickOf arm) s
  refine ⟨out,?_⟩
  have turned : (turn w p (tickOf arm)).run s = .ok false ⟨s.watch,out⟩ := by
    rw [turn,run_get,feeding_arm underway feeding,run_bind_ok ran]
    rfl
  rw [iteration,underway_drained underway,turned]
  rfl

theorem feeds_loop {arms : List Arm} (accepts : Accepts w.sink) (underway : Underway s.watch) (feeding : ∀ arm ∈ arms, Feeding arm)
    (rest : List Tick) :
    ∃ out, loop (iteration w p) s (arms.map tickOf ++ rest) = loop (iteration w p) ⟨s.watch,out⟩ rest ∧
      arrivals w p s (arms.map tickOf ++ rest) = arms.flatMap arrivalsOf ++ arrivals w p ⟨s.watch,out⟩ rest := by
  induction arms generalizing s with
  | nil => exact ⟨s.output,rfl,rfl⟩
  | cons arm arms ih =>
    obtain ⟨middle,next⟩ := feed_next (p:=p) accepts underway (feeding arm (.head _))
    obtain ⟨out,looped,met⟩ := ih (s:=⟨s.watch,middle⟩) underway fun arm inside => feeding arm (.tail _ inside)
    refine ⟨out,?_,?_⟩
    · rw [List.map_cons,List.cons_append,loop,next]
      exact looped
    · rw [List.map_cons,List.cons_append,arrivals,next]
      dsimp only
      rw [met,feeding_arm underway (feeding arm (.head _)),List.flatMap_cons,List.append_assoc]

theorem ends_loop (underway : Underway s.watch) : ∃ m, loop (iteration w p) s lastTicks = (some .broke,m,[]) ∧ m.output = s.output ∧
    m.watch.status = some ⟨some 0,none⟩ ∧ arrivals w p s lastTicks = [] := by
  have exits : iteration w p s (tickOf (.waited (.ok ⟨some 0,none⟩))) =
      .next ⟨{s.watch with status:=some ⟨some 0,none⟩,exitAt:=some 0},s.output⟩ := by
    have arm : armOf s.watch (tickOf (.waited (.ok ⟨some 0,none⟩))) = .waited (.ok ⟨some 0,none⟩) := by
      simp [armOf,tickOf,enabled,underway.2.2.1]
    rw [iteration,underway_drained underway,turn,run_get,arm]
    rfl
  have leaves : ∀ t, iteration w p ⟨{s.watch with status:=some ⟨some 0,none⟩,exitAt:=some 0},s.output⟩ ⟨drainGrace+1,t,still,false,still,0⟩ =
      .leave .broke ⟨{s.watch with status:=some ⟨some 0,none⟩,exitAt:=some 0},s.output⟩ := by
    intro t
    simp [iteration,drained]
  refine ⟨⟨{s.watch with status:=some ⟨some 0,none⟩,exitAt:=some 0},s.output⟩,?_,rfl,rfl,?_⟩
  · simp only [lastTicks,loop,exits,leaves]
  · simp only [lastTicks,arrivals,exits,leaves]
    simp [drained,arrivalsOf,armOf,tickOf,enabled,underway.2.2.1]

theorem conclude_runs (accepts : Accepts w.sink) (exited : s.watch.status = some status) : ∃ result u, (conclude w p).run s = .ok result u := by
  obtain ⟨_,first⟩ := (finalDrain_sure (p:=p) accepts).run s.output
  obtain ⟨out,output⟩ : ∃ out, Effect.after (finalDrain w p) s.output = out := ⟨_,rfl⟩
  rw [output] at first
  have reaped : (reapLast w).run ⟨s.watch,out⟩ = .ok () ⟨s.watch,out⟩ := by
    rw [reapLast,run_get,exited]
    rfl
  obtain ⟨result,last⟩ := (report_sure accepts s.watch).run out
  refine ⟨result,⟨s.watch,Effect.after (report w s.watch) out⟩,?_⟩
  have drained : (printing (finalDrain w p)).run s = .ok _ ⟨s.watch,out⟩ := run_zoom_ok first
  rw [conclude,run_bind_ok drained,run_bind_ok reaped,run_get]
  exact run_zoom_ok last

end Runs

-- Every event is taken, and nothing stands on the disk.
def calm (ticks : List Tick) : World :=
  ⟨fun _ _ => none,none,.error (.internal []),.error (.other,[]),ticks,.ok ⟨none,none⟩,0,false,false,[],[],
    ⟨fun _ => false,fun _ => false,fun _ => none,fun _ => .error (.internal [])⟩,fun _ => none⟩

theorem arms_run {arms : List Arm} (build : BuildPlan) (feeding : ∀ arm ∈ arms, Feeding arm) : ∃ w p result u, p.build = build ∧
    supervise w p (begin p []) = (some (.ok result),u) ∧ arrivals w p (begin p []) w.ticks = arms.flatMap arrivalsOf := by
  obtain ⟨w,made⟩ : ∃ w, calm (arms.map tickOf ++ lastTicks) = w := ⟨_,rfl⟩
  have accepts : Accepts w.sink := by rw [← made]; exact fun _ _ => rfl
  have ticks : w.ticks = arms.map tickOf ++ lastTicks := by rw [← made]; rfl
  let p : Plan := ⟨build,none,0⟩
  have underway : Underway (begin p []).watch := ⟨rfl,rfl,rfl,rfl⟩
  obtain ⟨out,looped,met⟩ := feeds_loop (p:=p) (s:=begin p []) accepts underway feeding lastTicks
  obtain ⟨m,ended,_,status,none⟩ := ends_loop (w:=w) (p:=p) (s:=⟨(begin p []).watch,out⟩) underway
  obtain ⟨result,u,concluded⟩ := conclude_runs (p:=p) accepts status
  refine ⟨w,p,result,u,rfl,?_,?_⟩
  · rw [supervise,ticks,looped,ended]
    dsimp only
    rw [concluded]
  · rw [ticks,met,none,List.append_nil]

theorem handed_published (build : BuildPlan) {parts : List Part} (every : ∀ part ∈ parts, part.Ends) (busy : Busy a) (busy' : Busy b)
    (stuck : (wakes .new a).2.takeAvailable = none) (tail : StdioStream → Line) (which : StdioStream)
    (reads : Reader.read a = (tail (other which)).1) (reads' : Reader.read b = (tail which).1) :
    ∃ ds, Publishes build ⟨parts.map Prod.fst,tail⟩ ds ∧ ∀ d, d ∈ ds ↔ ∃ t ∈ told (handed parts a b), build.parse t = some d := by
  let arms := (parts.flatMap fun part => part.2.map (armFor part.1.1)) ++ (a.map (armFor (other which)) ++ b.map (armFor which))
  have feeding : ∀ arm ∈ arms, Feeding arm := by
    intro arm inside
    rcases List.mem_append.mp inside with line | rest
    · obtain ⟨part,among,here⟩ := List.mem_flatMap.mp line
      exact feeding_met (every part among).1 _ arm here
    · rcases List.mem_append.mp rest with first | last
      · exact feeding_met busy _ arm first
      · exact feeding_met busy' _ arm last
  have whole : arms.flatMap arrivalsOf = metAll parts which a b := by
    simp [arms,metAll,metParts,met,List.flatMap_assoc,List.flatMap_map]
  obtain ⟨w,p,result,u,plan,done,met⟩ := arms_run build feeding
  rw [whole] at met
  obtain ⟨chunks,sent,members⟩ := supervise_tells done
  rw [met] at members
  obtain ⟨running,first,last⟩ := hear_all every busy busy' stuck which
  have same : ∀ c, c ∈ chunks ↔ c ∈ handed parts a b := by
    intro c
    have both : (∃ p, c ∈ closing ((hear (fun _ => .new) (metAll parts which a b)).2 p)) ↔
        c ∈ closing (wakes .new a).2 ∨ c ∈ closing (wakes .new b).2 := by
      rw [← first,← last]
      cases which with
      | stdout => exact ⟨fun ⟨p,inside⟩ => by cases p <;> [exact .inr inside; exact .inl inside],
          fun inside => inside.elim (fun left => ⟨_,left⟩) fun right => ⟨_,right⟩⟩
      | stderr => exact ⟨fun ⟨p,inside⟩ => by cases p <;> [exact .inl inside; exact .inr inside],
          fun inside => inside.elim (fun left => ⟨_,left⟩) fun right => ⟨_,right⟩⟩
    rw [members,running,both]
    simp only [handed,List.mem_append]
    tauto
  refine ⟨_,⟨w,p,[],result,u,plan,rfl,done,?_,rfl⟩,fun d => ?_⟩
  · rw [met]
    exact script_all every busy busy' reads reads'
  · rw [sent,plan]
    change d ∈ (told chunks).filterMap build.parse ↔ _
    rw [List.mem_filterMap]
    refine exists_congr fun t => and_congr_left fun _ => ?_
    simp only [told,List.mem_flatMap,same]

def crumbed (line : StdioStream × Line) : Part := (line,crumbs (line.2.1 ++ [newline]))

theorem crumbed_ends (line : StdioStream × Line) : (crumbed line).Ends := ⟨Reader.busy_crumbs _,Reader.read_crumbs _⟩

theorem crumbed_lines (lines : List (StdioStream × Line)) : (lines.map crumbed).map Prod.fst = lines := by
  rw [List.map_map]
  exact List.map_id _

theorem handed_told (parts : List Part) (a b : List Wake) : t ∈ told (handed parts a b) ↔
    (∃ part ∈ parts, t ∈ told (wakes .new part.2).1) ∨ t ∈ told ((wakes .new a).1 ++ closing (wakes .new a).2) ∨
      t ∈ told ((wakes .new b).1 ++ closing (wakes .new b).2) := by
  have lines : t ∈ told (parts.flatMap fun part => (wakes .new part.2).1) ↔ ∃ part ∈ parts, t ∈ told (wakes .new part.2).1 := by
    rw [told,List.flatMap_assoc]
    exact List.mem_flatMap
  rw [handed,Reader.told_append,Reader.told_append,List.mem_append,List.mem_append,lines]

-- Byte by byte, nothing is a diagnostic.
theorem publishes_nothing (build : BuildPlan) (written : Script StdioStream) : Publishes build written [] := by
  obtain ⟨lines,tail⟩ := written
  have every : ∀ part ∈ lines.map crumbed, part.Ends := by
    intro part inside
    obtain ⟨line,_,rfl⟩ := List.mem_map.mp inside
    exact crumbed_ends line
  obtain ⟨ds,publishes,members⟩ := handed_published build every (Reader.busy_crumbs _) (Reader.busy_crumbs _) (Reader.crumbs_told _).1
    tail .stdout (Reader.read_crumbs _) (Reader.read_crumbs _)
  rw [crumbed_lines] at publishes
  have none : ds = [] := by
    rw [List.eq_nil_iff_forall_not_mem]
    intro d inside
    obtain ⟨t,told,parsed⟩ := (members d).mp inside
    have short : t.length ≤ 4 := by
      rcases (handed_told ..).mp told with ⟨part,among,line⟩ | first | last
      · obtain ⟨line',_,rfl⟩ := List.mem_map.mp among
        exact (Reader.crumbs_told _).2 t (by rw [Reader.told_append]; exact List.mem_append_left _ line)
      · exact (Reader.crumbs_told _).2 t first
      · exact (Reader.crumbs_told _).2 t last
    rw [parse_short build short] at parsed
    cases parsed
  rwa [none] at publishes

theorem parse_some (parsed : BuildPlan.parse build t = some d) : t ≠ [] := by
  rintro rfl
  rw [parse_short build (by decide)] at parsed
  cases parsed

-- A line arrives so that one of its pieces is handed out on its own.
theorem publishes_line (inside : line ∈ written.lines) (piece : Piece true line.2.1 t) (parsed : BuildPlan.parse build t = some d) :
    ∃ ds, Publishes build written ds ∧ d ∈ ds := by
  obtain ⟨lines,tail⟩ := written
  obtain ⟨front,back,rfl⟩ := List.append_of_mem inside
  obtain ⟨schedule,busy,reads,handing⟩ := Reader.piece_ended piece (parse_some parsed) line.2.2
  let parts : List Part := front.map crumbed ++ (line,schedule) :: back.map crumbed
  have every : ∀ part ∈ parts, part.Ends := by
    intro part among
    rcases List.mem_append.mp among with before | here
    · obtain ⟨other,_,rfl⟩ := List.mem_map.mp before
      exact crumbed_ends other
    · rcases List.mem_cons.mp here with rfl | behind
      · exact ⟨busy,reads⟩
      · obtain ⟨other,_,rfl⟩ := List.mem_map.mp behind
        exact crumbed_ends other
  obtain ⟨ds,publishes,members⟩ := handed_published build every (Reader.busy_crumbs _) (Reader.busy_crumbs _) (Reader.crumbs_told _).1
    tail .stdout (Reader.read_crumbs _) (Reader.read_crumbs _)
  have same : parts.map Prod.fst = front ++ line :: back := by
    rw [List.map_append,List.map_cons,crumbed_lines,crumbed_lines]
  rw [same] at publishes
  have here : (line,schedule) ∈ parts := List.mem_append_right _ (.head _)
  refine ⟨ds,publishes,(members d).mpr ?_⟩
  rcases handing with whole | bare
  · exact ⟨t,(handed_told ..).mpr (.inl ⟨_,here,whole⟩),parsed⟩
  · exact ⟨dropReturn t,(handed_told ..).mpr (.inl ⟨_,here,bare⟩),by rw [parse_dropReturn,parsed]⟩

theorem publishes_tail (which : StdioStream) (piece : Piece false (Script.tail written which).1 t) (parsed : BuildPlan.parse build t = some d) :
    ∃ ds, Publishes build written ds ∧ d ∈ ds := by
  obtain ⟨lines,tail⟩ := written
  obtain ⟨schedule,busy,reads,handing⟩ := Reader.piece_left piece (parse_some parsed) (tail which).2
  have every : ∀ part ∈ lines.map crumbed, part.Ends := by
    intro part inside
    obtain ⟨line,_,rfl⟩ := List.mem_map.mp inside
    exact crumbed_ends line
  obtain ⟨ds,publishes,members⟩ := handed_published build every (Reader.busy_crumbs _) busy (Reader.crumbs_told _).1
    tail which (Reader.read_crumbs _) reads
  rw [crumbed_lines] at publishes
  exact ⟨ds,publishes,(members d).mpr ⟨t,(handed_told ..).mpr (.inr (.inr handing)),parsed⟩⟩

-- The diagnostics do not depend on the arrival exactly where there are none.
theorem publishes_iff (build : BuildPlan) (written : Script StdioStream) :
    (∀ ds ds', Publishes build written ds → Publishes build written ds' → ds = ds') ↔ Silent build written := by
  constructor
  · intro same
    have never : ∀ t, (∀ d, build.parse t = some d → ∃ ds, Publishes build written ds ∧ d ∈ ds) → build.parse t = none := by
      intro t publishes
      cases parsed : build.parse t with
      | none => rfl
      | some d =>
        obtain ⟨ds,published,inside⟩ := publishes d parsed
        rw [same ds [] published (publishes_nothing build written)] at inside
        cases inside
    exact ⟨fun line inside t piece => never t fun d parsed => publishes_line inside piece parsed,
      fun which t piece => never t fun d parsed => publishes_tail which piece parsed⟩
  · intro silent ds ds' one two
    rw [silent_publishes silent one,silent_publishes silent two]

end PrincessIDE.CliBuild
