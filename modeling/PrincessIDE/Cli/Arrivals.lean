import PrincessIDE.Cli.Exited
import PrincessIDE.Cli.Observers
import PrincessIDE.Run.Pieces

namespace PrincessIDE.CliRun
open Utf8 (Text Bytes lossy encode)
open Str Error Event Effect PrincessIDE.Stream Loop CliSerial
open Serial (CarriesFault FaultMark)
open RunBackend (RunPlan RunOutcome SymbolizeFn)
open Reader (Wake wake wakes crumbs told closing Busy)

variable {w : World} {p : Plan}

-- What the serial pipe meets with a future.
def arrivalsOf : Arm → List Wake
  | .serial (.ok []) => [.idle]
  | .serial (.ok bytes) => [.bytes bytes]
  | .idle => [.idle]
  | _ => []

def arrivals (w : World) (p : Plan) (s : Running) : List Tick → List Wake
  | [] => []
  | t :: rest => match iteration w p s t with
    | .next u => arrivalsOf (armOf s.watch t) ++ arrivals w p u rest
    | .leave _ _ => []

-- The faults that are added to those that are sent: none where none is raised,
-- and when one is raised there is one at the end, since the list is full otherwise.
structure Adds (raised : Prop) (s t : Output) : Prop where
  sent : ∃ added, faultsOf t.events = faultsOf s.events ++ added ∧ t.faults = s.faults ++ added ∧ (¬ raised → added = [])
  some : raised → t.faults ≠ []

-- Nothing that a fault goes through is touched.
structure Aside (s t : Output) : Prop where
  serial : t.serial = s.serial
  faults : t.faults = s.faults
  sent : faultsOf t.events = faultsOf s.events

instance : IsPreorder Output Aside where
  refl _ := ⟨rfl,rfl,rfl⟩
  trans _ _ _ first second := ⟨second.serial.trans first.serial,second.faults.trans first.faults,second.sent.trans first.sent⟩

theorem Aside.adds (quiet : Aside s t) : Adds False s t :=
  ⟨⟨[],by rw [quiet.sent,List.append_nil],by rw [quiet.faults,List.append_nil],fun _ => rfl⟩,False.elim⟩

theorem Adds.trans {a b : Prop} (first : Adds a s t) (second : Adds b t u) : Adds (a ∨ b) s u := by
  obtain ⟨one,events,faults,silent⟩ := first.sent
  obtain ⟨two,events',faults',silent'⟩ := second.sent
  constructor
  · refine ⟨one++two,by rw [events',events,List.append_assoc],by rw [faults',faults,List.append_assoc],fun quiet => ?_⟩
    rw [silent fun here => quiet (.inl here),silent' fun here => quiet (.inr here)]
    rfl
  · rintro (here | later)
    · rw [faults']
      exact List.append_ne_nil_of_left_ne_nil (first.some here) _
    · exact second.some later

theorem Adds.of_iff {a b : Prop} (same : a ↔ b) (adds : Adds a s t) : Adds b s t := propext same ▸ adds

theorem emit_aside (sink : Sink) (other : faultsOf [body] = []) : Moves Aside (sending (emit sink body)) := .zoom fun s => by
  refine ⟨rfl,rfl,?_⟩
  rw [after,emit_settles]
  cases sink s.events body with
  | some e => rfl
  | none =>
    change faultsOf (s.events ++ [body]) = _
    rw [faultsOf_append,other,List.append_nil]

theorem note_aside (sink : Sink) (text : Text) : Moves Aside (sending (note sink text)) := emit_aside sink rfl

theorem aside_parts {x : Printer α} (quiet : Moves Aside x) (done : x.run s = .ok a t) : Aside s t := by
  have moved := quiet s
  rwa [after_ok done] at moved

theorem aside_first (quiet : Aside s t) (later : u.serial = t.serial ∧ Adds raised t u) : u.serial = s.serial ∧ Adds raised s u :=
  ⟨later.1.trans quiet.serial,(quiet.adds.trans later.2).of_iff (by simp)⟩

theorem reportFault_adds (done : (reportFault w payload).run s = .ok a t) : t.serial = s.serial ∧ Adds True s t := by
  obtain ⟨_,_,got,done⟩ := run_bind_parts done
  cases got
  split at done
  · next full =>
    have quiet := aside_parts (note_aside _ _) done
    obtain ⟨added,sent,kept,_⟩ := quiet.adds.sent
    refine ⟨quiet.serial,⟨added,sent,kept,fun none => absurd trivial none⟩,fun _ => ?_⟩
    rw [quiet.faults]
    intro none
    rw [none] at full
    exact absurd full (by decide)
  · obtain ⟨_,m,sent,kept⟩ := run_bind_parts done
    obtain ⟨events,ran,rfl⟩ := run_zoom_parts sent
    rw [emit_sent ran] at kept
    cases kept
    exact ⟨rfl,⟨[payload],faultsOf_append ..,rfl,fun none => absurd trivial none⟩,fun _ => by simp⟩

theorem onObservation_adds (done : (onObservation w o).run s = .ok a t) : t.serial = s.serial ∧ Adds ((cliFault o).isSome = true) s t := by
  have quiet : ∀ text, (sending (note w.sink text)).run s = .ok a t → t.serial = s.serial ∧ Adds (false = true) s t := fun text done => by
    have quiet := aside_parts (note_aside _ _) done
    exact ⟨quiet.serial,quiet.adds.of_iff (by simp)⟩
  cases o with
  | banner => exact quiet _ done
  | panicked => exact quiet _ done
  | fault raw =>
    obtain ⟨_,m,noted,done⟩ := run_bind_parts done
    obtain ⟨serial,adds⟩ := aside_first (aside_parts (note_aside _ _) noted) (reportFault_adds done)
    exact ⟨serial,adds.of_iff (by simp [cliFault])⟩

theorem observations_adds (os : List SerialObservation) (done : (os.forM (onObservation w)).run s = .ok a t) :
    t.serial = s.serial ∧ Adds (∃ o ∈ os, (cliFault o).isSome = true) s t := by
  induction os generalizing s with
  | nil => cases done; exact ⟨rfl,(refl_of Aside t).adds.of_iff (by simp)⟩
  | cons o os ih =>
    obtain ⟨m,first,rest⟩ := run_each_parts done
    obtain ⟨serial,adds⟩ := onObservation_adds first
    obtain ⟨serial',adds'⟩ := ih rest
    exact ⟨serial'.trans serial,(adds.trans adds').of_iff (by simp)⟩

-- Some of the lines is read as a fault.
def Raises (ls : List Text) : Prop := ∃ line ∈ ls, (cliParse line).isSome = true

instance (ls : List Text) : Decidable (Raises ls) := inferInstanceAs (Decidable (∃ line ∈ ls, (cliParse line).isSome = true))

theorem raises_append (a b : List Text) : Raises (a++b) ↔ Raises a ∨ Raises b := by
  simp only [Raises,List.mem_append,or_and_right,exists_or]

theorem feed_raises (o : SerialObserver) (line : Text) : (∃ seen ∈ (feed o line).1, (cliFault seen).isSome = true) ↔ (cliParse line).isSome = true := by
  have found := (cli_feed o line).1
  cases parsed : cliParse line with
  | none =>
    rw [parsed] at found
    have none : ∀ seen ∈ (feed o line).1, cliFault seen = .none := List.filterMap_eq_nil_iff.mp found
    constructor
    · rintro ⟨seen,inside,some⟩
      rw [none seen inside] at some
      cases some
    · exact fun absurd => nomatch absurd
  | some f =>
    rw [parsed] at found
    obtain ⟨seen,inside,fault⟩ := List.mem_filterMap.mp (show cliVector _ f ∈ (feed o line).1.filterMap cliFault by rw [found]; exact List.mem_singleton_self _)
    exact ⟨fun _ => rfl,fun _ => ⟨seen,inside,by rw [fault]; rfl⟩⟩

theorem onLine_adds (done : (onLine w line).run s = .ok a t) : t.serial = s.serial ∧ Adds (Raises [line]) s t := by
  obtain ⟨_,_,got,done⟩ := run_bind_parts done
  cases got
  obtain ⟨_,_,kept,done⟩ := run_bind_parts done
  cases kept
  obtain ⟨serial,adds⟩ := observations_adds _ done
  have same : (∃ o ∈ (feed s.observer line).1, (cliFault o).isSome = true) ↔ Raises [line] := by
    rw [feed_raises]
    simp [Raises]
  exact ⟨serial,(adds.of_iff same).sent,(adds.of_iff same).some⟩

theorem lines_adds (ls : List Text) (done : (ls.forM (onLine w)).run s = .ok a t) : t.serial = s.serial ∧ Adds (Raises ls) s t := by
  induction ls generalizing s with
  | nil => cases done; exact ⟨rfl,(refl_of Aside t).adds.of_iff (by simp [Raises])⟩
  | cons line ls ih =>
    obtain ⟨m,first,rest⟩ := run_each_parts done
    obtain ⟨serial,adds⟩ := onLine_adds first
    obtain ⟨serial',adds'⟩ := ih rest
    exact ⟨serial'.trans serial,(adds.trans adds').of_iff (raises_append [line] ls).symm⟩

theorem tee_aside (written : Except Text Unit) (text : Text) : Moves Aside (tee written text) := by
  refine .bind .get fun s => ?_
  split
  · exact .pure _
  · exact .throw _
  · exact .modify fun _ => ⟨rfl,rfl,rfl⟩

theorem pushSerial_adds (done : (pushSerial w written chunk).run s = .ok a t) : t.serial = s.serial ∧ Adds (Raises (lines chunk.1)) s t := by
  obtain ⟨_,_,teed,done⟩ := run_bind_parts done
  obtain ⟨_,_,logged,done⟩ := run_bind_parts done
  exact aside_first (aside_parts (tee_aside _ _) teed) (aside_first (aside_parts (emit_aside _ rfl) logged) (lines_adds _ done))

theorem chunks_adds (chunks : List Chunk) (done : (chunks.forM (pushSerial w written)).run s = .ok a t) :
    t.serial = s.serial ∧ Adds (Raises (told chunks)) s t := by
  induction chunks generalizing s with
  | nil => cases done; exact ⟨rfl,(refl_of Aside t).adds.of_iff (by simp [Raises,told])⟩
  | cons chunk chunks ih =>
    obtain ⟨m,first,rest⟩ := run_each_parts done
    obtain ⟨serial,adds⟩ := pushSerial_adds first
    obtain ⟨serial',adds'⟩ := ih rest
    exact ⟨serial'.trans serial,(adds.trans adds').of_iff (raises_append (lines chunk.1) (told chunks)).symm⟩

theorem drainSerial_adds (done : (drainSerial w written linesOnly).run s = .ok a t) :
    t.serial = (taken linesOnly s.serial).2 ∧ Adds (Raises (told (taken linesOnly s.serial).1)) s t := by
  rw [drainSerial_run] at done
  obtain ⟨serial,adds⟩ := chunks_adds _ done
  exact ⟨serial,adds.sent,adds.some⟩

theorem drainMonitor_aside (w : World) (linesOnly : Bool) : Moves Aside (drainMonitor w linesOnly) := by
  refine .bind .get fun s => ?_
  split
  · exact .bind (.modify fun _ => ⟨rfl,rfl,rfl⟩) fun _ => emit_aside _ rfl
  · exact .pure _

-- What the serial pipe meets, and what is sent of it.
structure Hears (met : List Wake) (s t : Output) : Prop where
  serial : t.serial = (wakes s.serial met).2
  adds : Adds (Raises (told (wakes s.serial met).1)) s t

theorem Aside.hears (quiet : Aside s t) : Hears [] s t := ⟨quiet.serial,quiet.adds.of_iff (by simp [Raises,told,wakes])⟩

theorem Hears.trans (first : Hears a s t) (second : Hears b t u) : Hears (a++b) s u := by
  have later := second.adds
  rw [first.serial] at later
  have cut := Reader.wakes_append s.serial a b
  constructor
  · rw [cut,second.serial,first.serial]
  · refine (first.adds.trans later).of_iff ?_
    rw [cut,Reader.told_append,raises_append]

theorem Hears.then_aside (first : Hears a s t) (quiet : Aside t u) : Hears a s u := by
  have all := first.trans quiet.hears
  rwa [List.append_nil] at all

theorem wakes_once (s : Utf8Chunker) (x : Wake) : wakes s [x] = wake s x := by simp [wakes]

theorem idle_hears (done : (drainSerial w written false).run s = .ok a t) : Hears [.idle] s t := by
  obtain ⟨serial,adds⟩ := drainSerial_adds done
  constructor
  · rw [wakes_once]
    exact serial
  · rw [wakes_once]
    exact adds

theorem bytes_hears (done : (drainSerial w written true).run {s with serial:=s.serial.push bytes} = .ok a t) : Hears [.bytes bytes] s t := by
  obtain ⟨serial,adds⟩ := drainSerial_adds done
  constructor
  · rw [wakes_once]
    exact serial
  · rw [wakes_once]
    exact ⟨adds.sent,adds.some⟩

theorem printing_aside {x : Printer α} (quiet : Moves Aside x) (done : (printing x).run s = .ok a u) : Aside s.output u.output := by
  obtain ⟨out,ran,rfl⟩ := printing_parts done
  exact aside_parts quiet ran

theorem onArm_hears (arm : Arm) (done : (onArm w p t arm).run s = .ok a u) : Hears (arrivalsOf arm) s.output u.output := by
  cases arm with
  | serial read => cases read with
    | error err =>
      obtain ⟨_,_,closed,done⟩ := run_bind_parts done
      cases closed
      exact (printing_aside (note_aside _ _) done).hears
    | ok bytes => cases bytes with
      | nil =>
        obtain ⟨_,_,closed,done⟩ := run_bind_parts done
        cases closed
        obtain ⟨out,ran,rfl⟩ := printing_parts done
        exact idle_hears ran
      | cons b bytes =>
        obtain ⟨out,ran,rfl⟩ := printing_parts done
        obtain ⟨_,_,pushed,drained⟩ := run_bind_parts ran
        cases pushed
        exact bytes_hears drained
  | monitor read => cases read with
    | error err =>
      obtain ⟨_,_,closed,done⟩ := run_bind_parts done
      cases closed
      exact (printing_aside (note_aside _ _) done).hears
    | ok bytes => cases bytes with
      | nil =>
        obtain ⟨_,_,closed,done⟩ := run_bind_parts done
        cases closed
        exact (printing_aside (drainMonitor_aside _ _) done).hears
      | cons b bytes =>
        obtain ⟨out,ran,rfl⟩ := printing_parts done
        obtain ⟨_,_,pushed,drained⟩ := run_bind_parts ran
        cases pushed
        have quiet := aside_parts (drainMonitor_aside _ _) drained
        exact (show Aside s.output out from ⟨quiet.serial,quiet.faults,quiet.sent⟩).hears
  | waited answer => cases answer with
    | error err => cases done
    | ok status => cases done; exact (refl_of Aside _).hears
  | idle =>
    obtain ⟨out,ran,rfl⟩ := printing_parts done
    obtain ⟨_,_,first,second⟩ := run_bind_parts ran
    exact (idle_hears first).then_aside (aside_parts (drainMonitor_aside _ _) second)
  | deadline =>
    obtain ⟨_,_,marked,done⟩ := run_bind_parts done
    cases marked
    obtain ⟨_,_,said,done⟩ := run_bind_parts done
    rw [(kill_parts done).2]
    exact (printing_aside (note_aside _ _) said).hears
  | cancelAfter =>
    obtain ⟨_,_,marked,done⟩ := run_bind_parts done
    cases marked
    obtain ⟨_,_,said,done⟩ := run_bind_parts done
    obtain ⟨_,_,marked,done⟩ := run_bind_parts done
    cases marked
    rw [(kill_parts done).2]
    exact (printing_aside (note_aside _ _) said).hears

theorem heed_aside (done : (heed w p t).run s = .ok a u) : Aside s.output u.output := by
  obtain ⟨_,_,marked,done⟩ := run_bind_parts done
  cases marked
  obtain ⟨_,_,got,done⟩ := run_bind_parts done
  cases got
  dsimp only at done
  split at done
  · obtain ⟨_,_,marked,done⟩ := run_bind_parts done
    cases marked
    obtain ⟨_,_,said,done⟩ := run_bind_parts done
    rw [(kill_parts done).2]
    have quiet := printing_aside (note_aside _ _) said
    exact ⟨quiet.serial,quiet.faults,quiet.sent⟩
  · cases done
    exact ⟨rfl,rfl,rfl⟩

theorem reap_aside (done : (reap t).run s = .ok a u) : Aside s.output u.output := by
  obtain ⟨_,_,got,done⟩ := run_bind_parts done
  cases got
  dsimp only at done
  split at done
  · cases answer : t.reaped with
    | error err => rw [answer] at done; cases done
    | ok status => rw [answer] at done; cases done; exact refl_of Aside _
  · cases done
    exact refl_of Aside _

theorem turn_hears (done : (turn w p t).run s = .ok a u) : Hears (arrivalsOf (armOf s.watch t)) s.output u.output := by
  obtain ⟨_,_,got,done⟩ := run_bind_parts done
  cases got
  obtain ⟨_,_,armed,done⟩ := run_bind_parts done
  obtain ⟨_,_,heeded,reaped⟩ := run_bind_parts done
  exact ((onArm_hears _ armed).then_aside (heed_aside heeded)).then_aside (reap_aside reaped)

theorem loop_hears (ticks : List Tick) (left : loop (iteration w p) s ticks = (some .broke,u,rest)) :
    Hears (arrivals w p s ticks) s.output u.output := by
  induction ticks generalizing s with
  | nil => cases left
  | cons t ticks ih =>
    rw [loop] at left
    rw [arrivals]
    cases here : iteration w p s t with
    | next m =>
      rw [here] at left
      unfold iteration at here
      split at here
      · cases here
      · split at here
        · next ran => cases here; exact (turn_hears ran).trans (ih left)
        · cases here
    | leave result m =>
      rw [here] at left
      cases left
      unfold iteration at here
      split at here
      · cases here; exact (refl_of Aside _).hears
      · split at here <;> cases here

theorem finalDrain_adds (done : (finalDrain w).run s = .ok a t) : Adds (Raises (told (closing s.serial))) s t := by
  obtain ⟨_,s₁,first,done⟩ := run_bind_parts done
  obtain ⟨_,s₂,second,done⟩ := run_bind_parts done
  obtain ⟨_,s₃,third,last⟩ := run_bind_parts done
  obtain ⟨serial,adds⟩ := drainSerial_adds first
  have quiet := aside_parts (drainMonitor_aside _ _) second
  have monitor : Moves Aside (takeMonitorRemainder w) := by
    refine .bind .get fun s => ?_
    split
    · exact .bind (.modify fun _ => ⟨rfl,rfl,rfl⟩) fun _ => emit_aside _ rfl
    · exact .pure _
  have quiet' := aside_parts monitor last
  obtain ⟨_,_,got,third⟩ := run_bind_parts third
  cases got
  have here : s₂.serial = (wake s.serial .idle).2 := quiet.serial.trans serial
  have flushed : Adds (Raises (told (wake s.serial .idle).1)) s s₁ := adds
  have running := (flushed.trans quiet.adds).of_iff (or_false _).to_iff
  rw [closing]
  rw [here] at third
  cases left : (wake s.serial .idle).2.takeRemainder with
  | none =>
    rw [left] at third
    cases third
    rw [List.append_nil]
    exact (running.trans quiet'.adds).of_iff (by simp)
  | some out =>
    rw [left] at third
    obtain ⟨_,_,kept,third⟩ := run_bind_parts third
    cases kept
    have pushed := (pushSerial_adds third).2
    have tail : Adds (Raises (lines out.1.1)) s₂ s₃ := ⟨pushed.sent,pushed.some⟩
    refine ((running.trans tail).trans quiet'.adds).of_iff ?_
    rw [Reader.told_append,raises_append]
    simp [told]

theorem report_aside (w : World) (p : Plan) (s : Running) : Moves Aside (report w p s) := by
  refine .bind ?_ fun _ => .bind (note_aside _ _) fun _ => .bind (note_aside _ _) fun _ => .bind (emit_aside _ rfl) fun _ => .pure _
  unfold noteTripleFault
  split
  · exact note_aside _ _
  · exact .pure _

theorem reapLast_same (done : (reapLast w).run s = .ok a u) : u.output = s.output := by
  obtain ⟨_,_,got,done⟩ := run_bind_parts done
  cases got
  split at done
  · cases answer : w.reaped with
    | error err => rw [answer] at done; cases done
    | ok status => rw [answer] at done; cases done; rfl
  · cases done; rfl

theorem conclude_adds (done : (conclude w p).run s = .ok o u) : Adds (Raises (told (closing s.output.serial))) s.output u.output := by
  obtain ⟨_,m,drained,done⟩ := run_bind_parts done
  obtain ⟨out,ran,rfl⟩ := printing_parts drained
  obtain ⟨_,r,reaping,done⟩ := run_bind_parts done
  obtain ⟨_,_,got,done⟩ := run_bind_parts done
  cases got
  have quiet := printing_aside (report_aside w p r) done
  rw [reapLast_same reaping] at quiet
  exact ((finalDrain_adds ran).trans quiet.adds).of_iff (or_false _).to_iff

-- Whatever a run is answered, it sends faults exactly of the lines of the chunks
-- that its serial pipe hands out, at its end included.
theorem supervise_adds (done : supervise w p (begin plan options events) = (some (.ok outcome),u)) (fresh : faultsOf events = []) :
    (faultsOf u.output.events ≠ [] ↔ Raises (told ((wakes .new (arrivals w p (begin plan options events) w.ticks)).1 ++
      closing (wakes .new (arrivals w p (begin plan options events) w.ticks)).2))) := by
  unfold supervise at done
  split at done
  · cases done
  · cases done
  · next m rest left =>
    split at done
    · next concluded =>
      cases done
      have hears := loop_hears w.ticks left
      have last := conclude_adds concluded
      rw [hears.serial] at last
      have all := hears.adds.trans last
      rw [← raises_append,← Reader.told_append] at all
      obtain ⟨added,sent,kept,none⟩ := all.sent
      have faults : faultsOf (begin plan options events).output.events = [] := fresh
      have start : (begin plan options events).output.faults = [] := rfl
      rw [faults,List.nil_append] at sent
      rw [start,List.nil_append] at kept
      have some := all.some
      rw [kept,← sent] at some
      refine ⟨fun raised => ?_,some⟩
      by_contra quiet
      exact raised (sent.trans (none quiet))
    · cases done

-- What a run may send of what a guest writes, over all the ways in which that may arrive.
def Serves (symbols : Option SymbolizeFn) (bs : Bytes) (faults : List RunFaultPayload) : Prop :=
  ∃ (w : World) (plan : RunPlan) (options : RunOptions) (pgid : Nat) (events : List EventBody) (outcome : RunOutcome) (u : Running),
    w.symbols = symbols ∧ faultsOf events = [] ∧
    supervise w ⟨plan,options.cancelAfterMs,pgid⟩ (begin plan options events) = (some (.ok outcome),u) ∧
    Reader.read (arrivals w ⟨plan,options.cancelAfterMs,pgid⟩ (begin plan options events) w.ticks) = bs ∧
    faultsOf u.output.events = faults

-- The chunks of the pipe are those of a reader that is woken once more.
theorem handed_reader (schedule : List Wake) : (Reader.spawnReader .serial (schedule ++ [Wake.idle])).map (fun c => (c.text,c.encoding)) =
    (wakes .new schedule).1 ++ closing (wakes .new schedule).2 := by
  rw [Reader.spawnReader,Reader.wakes_append,wakes_once,closing]
  simp only [List.map_append,List.map_map,List.append_assoc]
  have texts : ((fun c : Reader.StreamChunk => (c.text,c.encoding)) ∘ Reader.toChunk .serial false) = id := rfl
  rw [texts,List.map_id,List.map_id]
  cases (wake (wakes .new schedule).2 .idle).2.takeRemainder <;> rfl

theorem cliParse_iff (line : Text) : (cliParse line).isSome = true ↔ (engineParse line).isSome = true := by
  rw [cliParse_words,engineParse_words,Option.isSome_map,Option.isSome_map]

theorem raises_carries (raised : Raises (told ((wakes .new schedule).1 ++ closing (wakes .new schedule).2))) :
    CarriesFault (lossy (Reader.read schedule)) := by
  obtain ⟨line,inside,parsed⟩ := raised
  rw [← handed_reader] at inside
  obtain ⟨c,among,here⟩ := List.mem_flatMap.mp inside
  obtain ⟨chunk,sent,rfl⟩ := List.mem_map.mp among
  obtain ⟨plain,pre,post,cut⟩ := lines_within here
  dsimp only at cut
  obtain ⟨before,behind,whole⟩ := Reader.spawnReader_infix sent
  obtain ⟨f,fault⟩ := Option.isSome_iff_exists.mp ((cliParse_iff line).mp parsed)
  have carries := Serial.parseFault_carries plain fault
  have same : Reader.read (schedule ++ [Wake.idle]) = Reader.read schedule := by
    rw [Reader.read_append]
    exact List.append_nil _
  rw [← same,whole,cut]
  exact (carries.within pre post).within before behind

theorem crumbs_quiet (bs : Bytes) : ¬ Raises (told ((wakes .new (crumbs bs)).1 ++ closing (wakes .new (crumbs bs)).2)) := by
  rintro ⟨line,inside,parsed⟩
  have short := (Reader.crumbs_told bs).2 line inside
  obtain ⟨c,among,here⟩ := List.mem_flatMap.mp inside
  obtain ⟨f,fault⟩ := Option.isSome_iff_exists.mp ((cliParse_iff line).mp parsed)
  have long := Serial.carriesFault_long (Serial.parseFault_carries (lines_within here).1 fault)
  omega

-- A mark arrives so that it is handed out on its own.
theorem mark_raises (marked : FaultMark mark) (x y : Bytes) : ∃ schedule, Busy schedule ∧ Reader.read schedule = x ++ encode mark ++ y ∧
    Raises (told ((wakes .new schedule).1 ++ closing (wakes .new schedule).2)) := by
  obtain ⟨rest,rfl⟩ := Serial.faultMark_start marked
  have plain := (Serial.faultMark_plain marked).1
  have some : encode ('F'::rest) ≠ [] := by
    intro none
    have back := Utf8.lossy_encode ('F'::rest)
    rw [none] at back
    cases back
  have quiet : Busy (Reader.idles 2) := fun w inside => by
    rw [List.eq_of_mem_replicate inside]
    exact fun none => nomatch none
  refine ⟨crumbs x ++ ((.bytes (encode ('F'::rest)) :: Reader.idles 2) ++ crumbs y),?_,?_,?_⟩
  · exact (Reader.busy_crumbs x).append (((Reader.busy_bytes some).append quiet).append (Reader.busy_crumbs y))
  · rw [Reader.read_append,Reader.read_append,Reader.read_crumbs,Reader.read_crumbs,List.append_assoc]
    have one : Reader.read (.bytes (encode ('F'::rest)) :: Reader.idles 2) = encode ('F'::rest) := by
      simp [Reader.read,Reader.idles,Wake.read]
    rw [one]
  · obtain ⟨_,stuck⟩ := Reader.crumbs_wakes (s:=.new) (by decide) x
    have clean := Reader.wakes_clean (s:=.new) (by decide) (crumbs x)
    have handed := Reader.stuck_hands stuck clean (by decide) plain
    have line : 'F'::rest ∈ lines ('F'::rest) := by
      rw [lines_single plain (List.cons_ne_nil _ _)]
      exact List.mem_singleton_self _
    have sent : ('F'::rest,TextEncoding.utf8) ∈
        (wakes .new (crumbs x ++ ((.bytes (encode ('F'::rest)) :: Reader.idles 2) ++ crumbs y))).1 := by
      rw [Reader.wakes_append,Reader.wakes_append]
      exact List.mem_append_right _ (List.mem_append_left _ handed)
    refine ⟨'F'::rest,List.mem_flatMap.mpr ⟨_,List.mem_append_left _ sent,line⟩,?_⟩
    obtain ⟨f,fault⟩ := Serial.parseFault_mark marked
    exact (cliParse_iff _).mpr (Option.isSome_iff_exists.mpr ⟨f,fault⟩)

-- How the guest's bytes and idle intervals come to the loop.
def armFor : Wake → Arm
  | .bytes bytes => .serial (.ok bytes)
  | .idle => .idle

-- Nothing is killed and nobody cancels.
def still : Killing := ⟨.delivered,fun _ => false,.delivered⟩

def tickOf (arm : Arm) : Tick := ⟨0,[arm],.ok (),still,false,.ok ⟨none,none⟩,0⟩

-- The child exits, and the drain grace runs out.
def lastTicks : List Tick := [tickOf (.waited (.ok ⟨some 0,none⟩)),⟨drainGrace+1,[],.ok (),still,false,.ok ⟨none,none⟩,0⟩]

structure Underway (s : Watch) : Prop where
  isOpen : s.serialOpen = true
  status : s.status = none
  exitAt : s.exitAt = none
  cancelled : s.cancelled = false
  killed : s.cancelKillDone = false

theorem Underway.drained (underway : Underway s) (t : Tick) : drained s t = false := by
  simp [CliRun.drained,underway.status,underway.exitAt]

theorem Underway.whole {arm : Arm} (underway : Underway s.watch) (armed : armOf s.watch (tickOf arm) = arm) (timer : arm.timer = false)
    (answered : ∀ err, arm ≠ .waited (.error err)) : ¬ Broken p s (tickOf arm) := by
  have flags : (CliRun.armed s.watch (tickOf arm)).cancelled = false ∧ (CliRun.armed s.watch (tickOf arm)).cancelKillDone = false := by
    have here := And.intro underway.cancelled underway.killed
    unfold CliRun.armed
    rw [armed]
    cases arm with
    | serial read => rcases read with err | (_ | _) <;> exact here
    | monitor read => rcases read with err | (_ | _) <;> exact here
    | waited answer => cases answer <;> exact here
    | idle => exact here
    | deadline => cases timer
    | cancelAfter => cases timer
  have quiet : heeds (CliRun.armed s.watch (tickOf arm)) (tickOf arm) = false := by
    have token : (tickOf arm).cancelled = false := rfl
    rw [heeds,flags.1,token]
    rfl
  intro broken
  cases broken with
  | wait waited => exact answered _ (armed.symm.trans waited)
  | log _ _ failed => cases failed
  | kill due _ =>
    rw [kills,armed,timer,quiet] at due
    cases due
  | reap due _ =>
    rw [reaps,heard,quiet] at due
    simp [flags.2] at due

theorem feeding_arm (underway : Underway s) (x : Wake) : armOf s (tickOf (armFor x)) = armFor x := by
  cases x <;> simp [armOf,tickOf,enabled,armFor,underway.isOpen]

theorem feed_step {x : Wake} (underway : Underway s) (some : x ≠ .bytes []) : step s (tickOf (armFor x)) = s := by
  obtain ⟨timedOut,cancelled,status,exitAt,serialOpen,monitorOpen,deadline,cancelDeadline,cancelKillDone⟩ := s
  obtain ⟨rfl,rfl,rfl,rfl,rfl⟩ := underway
  cases x with
  | bytes bytes => cases bytes with
    | nil => exact absurd rfl some
    | cons b bytes => rfl
  | idle => rfl

theorem feed_next {x : Wake} (accepts : Accepts w.sink) (underway : Underway s.watch) (some : x ≠ .bytes []) :
    ∃ out, iteration w p s (tickOf (armFor x)) = .next ⟨s.watch,out⟩ := by
  have timer : (armFor x).timer = false := by cases x <;> rfl
  have answered : ∀ err, armFor x ≠ .waited (.error err) := by cases x <;> exact fun _ none => nomatch none
  obtain ⟨out,turned⟩ := turn_done (p:=p) accepts (underway.whole (feeding_arm underway x) timer answered)
  rw [feed_step underway some] at turned
  refine ⟨out,?_⟩
  rw [iteration,underway.drained,turned]
  rfl

theorem feeds_loop (accepts : Accepts w.sink) (underway : Underway s.watch) (busy : Busy schedule) (rest : List Tick) :
    ∃ out, loop (iteration w p) s (schedule.map (fun x => tickOf (armFor x)) ++ rest) = loop (iteration w p) ⟨s.watch,out⟩ rest ∧
      arrivals w p s (schedule.map (fun x => tickOf (armFor x)) ++ rest) = schedule ++ arrivals w p ⟨s.watch,out⟩ rest := by
  induction schedule generalizing s with
  | nil => exact ⟨s.output,rfl,rfl⟩
  | cons x schedule ih =>
    have some := busy x (.head _)
    obtain ⟨middle,next⟩ := feed_next (p:=p) accepts underway some
    obtain ⟨out,looped,met⟩ := ih (s:=⟨s.watch,middle⟩) underway fun y inside => busy y (.tail _ inside)
    have here : arrivalsOf (armFor x) = [x] := by
      cases x with
      | bytes bytes => cases bytes with
        | nil => exact absurd rfl some
        | cons b bytes => rfl
      | idle => rfl
    refine ⟨out,?_,?_⟩
    · rw [List.map_cons,List.cons_append,loop,next]
      exact looped
    · rw [List.map_cons,List.cons_append,arrivals,next]
      dsimp only
      rw [met,feeding_arm underway x,here]
      rfl

theorem ends_loop (accepts : Accepts w.sink) (underway : Underway s.watch) : ∃ m, loop (iteration w p) s lastTicks = (some .broke,m,[]) ∧
    m.watch.status = some ⟨some 0,none⟩ ∧ arrivals w p s lastTicks = [] := by
  have armed : armOf s.watch (tickOf (.waited (.ok ⟨some 0,none⟩))) = .waited (.ok ⟨some 0,none⟩) := by
    simp [armOf,tickOf,enabled,underway.status]
  obtain ⟨out,turned⟩ := turn_done (p:=p) accepts (underway.whole armed rfl fun _ none => nomatch none)
  have stepped : step s.watch (tickOf (.waited (.ok ⟨some 0,none⟩))) = {s.watch with status:=some ⟨some 0,none⟩,exitAt:=some 0} := by
    unfold step reaped heard heeds CliRun.armed reaps
    rw [armed]
    simp [tickOf,underway.cancelled,underway.killed]
  rw [stepped] at turned
  have exits : iteration w p s (tickOf (.waited (.ok ⟨some 0,none⟩))) =
      .next ⟨{s.watch with status:=some ⟨some 0,none⟩,exitAt:=some 0},out⟩ := by
    rw [iteration,underway.drained,turned]
    rfl
  have leaves : ∀ answer, iteration w p ⟨{s.watch with status:=some ⟨some 0,none⟩,exitAt:=some 0},out⟩
      ⟨drainGrace+1,[],.ok (),still,false,answer,0⟩ = .leave .broke ⟨{s.watch with status:=some ⟨some 0,none⟩,exitAt:=some 0},out⟩ := by
    intro answer
    simp [iteration,drained]
  refine ⟨⟨{s.watch with status:=some ⟨some 0,none⟩,exitAt:=some 0},out⟩,?_,rfl,?_⟩
  · simp only [lastTicks,loop,exits,leaves]
  · simp only [lastTicks,arrivals,exits,leaves,armed,arrivalsOf,List.append_nil]

-- Every event is taken, and nothing but the symbols is there.
def calm (symbols : Option SymbolizeFn) (ticks : List Tick) : World :=
  ⟨fun _ _ => none,([],.ok true),.error (.internal []),.ok (),.error (.other,[]),symbols,ticks,.ok (),.ok (),.ok ⟨none,none⟩,0,none,false,false⟩

theorem schedule_run (symbols : Option SymbolizeFn) (busy : Busy schedule) (plan : RunPlan) :
    ∃ (w : World) (outcome : RunOutcome) (u : Running), w.symbols = symbols ∧
      supervise w ⟨plan,none,0⟩ (begin plan ⟨none,none,false⟩ []) = (some (.ok outcome),u) ∧
      arrivals w ⟨plan,none,0⟩ (begin plan ⟨none,none,false⟩ []) w.ticks = schedule := by
  obtain ⟨w,made⟩ : ∃ w, calm symbols (schedule.map (fun x => tickOf (armFor x)) ++ lastTicks) = w := ⟨_,rfl⟩
  have accepts : Accepts w.sink := by rw [← made]; exact fun _ _ => rfl
  have ticks : w.ticks = schedule.map (fun x => tickOf (armFor x)) ++ lastTicks := by rw [← made]; rfl
  let p : Plan := ⟨plan,none,0⟩
  have underway : Underway (begin plan ⟨none,none,false⟩ []).watch := ⟨rfl,rfl,rfl,rfl,rfl⟩
  obtain ⟨out,looped,met⟩ := feeds_loop (p:=p) (s:=begin plan ⟨none,none,false⟩ []) accepts underway busy lastTicks
  obtain ⟨m,ended,status,none⟩ := ends_loop (p:=p) (s:=⟨(begin plan ⟨.none,.none,false⟩ []).watch,out⟩) accepts underway
  have whole : ¬ FinalBroken w m := by
    intro broken
    cases broken with
    | log _ _ failed => rw [← made] at failed; cases failed
    | remainder _ _ failed => rw [← made] at failed; cases failed
    | reap running _ => rw [status] at running; cases running
  obtain ⟨outcome,u,_,concluded,_⟩ := conclude_done (p:=p) accepts whole
  refine ⟨w,outcome,u,by rw [← made]; rfl,?_,?_⟩
  · rw [supervise,ticks,looped,ended]
    dsimp only
    rw [concluded]
  · rw [ticks,met,none,List.append_nil]

theorem schedule_serves (symbols : Option SymbolizeFn) (busy : Busy schedule) : ∃ faults, Serves symbols (Reader.read schedule) faults ∧
    (faults ≠ [] ↔ Raises (told ((wakes .new schedule).1 ++ closing (wakes .new schedule).2))) := by
  let plan : RunPlan := ⟨[],[],0,⟨[],none⟩,none⟩
  obtain ⟨w,outcome,u,same,done,met⟩ := schedule_run symbols busy plan
  have adds := supervise_adds done rfl
  rw [met] at adds
  exact ⟨_,⟨w,plan,⟨none,none,false⟩,0,[],outcome,u,same,rfl,done,by rw [met],rfl⟩,adds⟩

theorem unmarked_serves (unmarked : ¬ CarriesFault (lossy bs)) (serves : Serves symbols bs faults) : faults = [] := by
  obtain ⟨w,plan,options,pgid,events,outcome,u,_,fresh,done,rfl,rfl⟩ := serves
  by_contra some
  exact unmarked (raises_carries ((supervise_adds done fresh).mp some))

-- The faults do not depend on the arrival exactly where there can be none.
theorem serves_iff (symbols : Option SymbolizeFn) (bs : Bytes) :
    (∀ faults faults', Serves symbols bs faults → Serves symbols bs faults' → faults = faults') ↔ ¬ CarriesFault (lossy bs) := by
  constructor
  · rintro same ⟨before,mark,behind,whole,marked⟩
    obtain ⟨x,y,cut⟩ := Utf8.lossy_infix whole (Serial.faultMark_plain marked).2
    obtain ⟨schedule,busy,reads,raises⟩ := mark_raises marked x y
    obtain ⟨loud,served,some⟩ := schedule_serves symbols busy
    obtain ⟨quiet,served',none⟩ := schedule_serves symbols (Reader.busy_crumbs bs)
    rw [reads,← cut] at served
    rw [Reader.read_crumbs] at served'
    have equal := same loud quiet served served'
    rw [← equal] at none
    exact crumbs_quiet bs (none.mp (some.mpr raises))
  · intro unmarked faults faults' one two
    rw [unmarked_serves unmarked one,unmarked_serves unmarked two]

end PrincessIDE.CliRun
