import PrincessIDE.Cli.Run

namespace PrincessIDE.CliRun
open Utf8 (Text)
open Error Event Effect PrincessIDE.Stream Loop CliSerial
open RunBackend (RunPlan RunOutcome isExited)

variable {w : World} {p : Plan}

-- What an iteration makes of the locals that decide how the loop goes on, part by part.
def armed (s : Watch) (t : Tick) : Watch := match armOf s t with
  | .serial (.ok (_::_)) => s
  | .serial _ => {s with serialOpen:=false}
  | .monitor (.ok (_::_)) => s
  | .monitor _ => {s with monitorOpen:=false}
  | .waited (.ok status) => {s with status:=some status,exitAt:=some t.reapedAt}
  | .waited (.error _) => s
  | .idle => s
  | .deadline => {s with deadline:=false,timedOut:=true,cancelKillDone:=true}
  | .cancelAfter => {s with cancelDeadline:=false,cancelKillDone:=true,cancelled:=true}

def heeds (s : Watch) (t : Tick) : Bool := (s.cancelled || t.cancelled) && !s.cancelKillDone && s.status.isNone

def heard (s : Watch) (t : Tick) : Watch :=
  if heeds s t then {s with cancelled:=s.cancelled || t.cancelled,cancelKillDone:=true} else {s with cancelled:=s.cancelled || t.cancelled}

def reaps (s : Watch) : Bool := s.cancelKillDone && s.status.isNone

def reaped (s : Watch) (t : Tick) : Watch := match t.reaped with
  | .ok status => if reaps s then {s with status:=some status,exitAt:=some t.reapedAt} else s
  | .error _ => s

def step (s : Watch) (t : Tick) : Watch := reaped (heard (armed s t) t) t

def Arm.timer : Arm → Bool
  | .deadline => true
  | .cancelAfter => true
  | _ => false

def kills (s : Watch) (t : Tick) : Bool := (armOf s t).timer || heeds (armed s t) t

-- The serial chunks that an iteration pushes.
def serialTaken (s : Running) (t : Tick) : List Chunk := match armOf s.watch t with
  | .serial (.ok (b::bytes)) => (taken true (s.output.serial.push (b::bytes))).1
  | .serial (.ok []) => (taken false s.output.serial).1
  | .idle => (taken false s.output.serial).1
  | _ => []

-- An operation that an iteration needs fails.
inductive Broken (p : Plan) (s : Running) (t : Tick) : Prop where
  | wait : armOf s.watch t = .waited (.error err) → Broken p s t
  | log : s.output.file.isSome → serialTaken s t ≠ [] → t.written = .error err → Broken p s t
  | kill : kills s.watch t = true → killGroupAndWait p.pgid t.killing = .error e → Broken p s t
  | reap : reaps (heard (armed s.watch t) t) = true → t.reaped = .error err → Broken p s t

-- An operation that is needed behind the loop fails.
inductive FinalBroken (w : World) (s : Running) : Prop where
  | log : s.output.file.isSome → (taken false s.output.serial).1 ≠ [] → w.flushed = .error err → FinalBroken w s
  | remainder : s.output.file.isSome → ((taken false s.output.serial).2.takeRemainder).isSome → w.remainder = .error err → FinalBroken w s
  | reap : s.watch.status = none → w.reaped = .error err → FinalBroken w s

abbrev Quiet (body : EventBody) : Prop := isExited body = false

-- What a drain leads to: it opens no log and sends no terminal event.
structure Drains (s t : Output) : Prop where
  events : Appends Output.events Quiet s t
  file : t.file.isSome = s.file.isSome

instance : IsPreorder Output Drains where
  refl s := ⟨refl_of _ s,rfl⟩
  trans _ _ _ first second := ⟨trans_of _ first.events second.events,second.file.trans first.file⟩

-- What the pushing of a chunk leads to.
structure Pushes (s t : Output) : Prop extends Drains s t where
  serial : t.serial = s.serial

instance : IsPreorder Output Pushes where
  refl s := ⟨refl_of _ s,rfl⟩
  trans _ _ _ first second := ⟨trans_of _ first.toDrains second.toDrains,second.serial.trans first.serial⟩

theorem emit_pushes (sink : Sink) (quiet : Quiet body) : Moves Pushes (sending (emit sink body)) := .zoom fun s => by
  refine ⟨⟨?_,rfl⟩,rfl⟩
  rw [after,emit_settles]
  cases sink s.events body with
  | some e => exact appends_none rfl
  | none => exact ⟨[body],rfl,by simpa using quiet⟩

theorem note_pushes (sink : Sink) (text : Text) : Moves Pushes (sending (note sink text)) := emit_pushes sink rfl

theorem onObservation_pushes (w : World) (o : SerialObservation) : Moves Pushes (onObservation w o) := by
  cases o with
  | banner => exact note_pushes _ _
  | panicked => exact note_pushes _ _
  | fault raw =>
    refine .bind (note_pushes _ _) fun _ => .bind .get fun s => ?_
    split
    · exact note_pushes _ _
    · exact .bind (emit_pushes _ rfl) fun _ => .modify fun _ => ⟨⟨appends_none rfl,rfl⟩,rfl⟩

theorem onLine_pushes (w : World) (line : Text) : Moves Pushes (onLine w line) :=
  .bind .get fun _ => .bind (.modify fun _ => ⟨⟨appends_none rfl,rfl⟩,rfl⟩) fun _ => .each fun o _ => onObservation_pushes w o

theorem tee_pushes (written : Except Text Unit) (text : Text) : Moves Pushes (tee written text) := by
  intro s
  rw [after,tee,run_get]
  cases file : s.file with
  | none => exact refl_of _ s
  | some log => cases written with
    | error err => exact refl_of _ s
    | ok made => exact ⟨⟨appends_none rfl,by rw [file]; rfl⟩,rfl⟩

theorem pushSerial_pushes (w : World) (written : Except Text Unit) (chunk : Chunk) : Moves Pushes (pushSerial w written chunk) :=
  .bind (tee_pushes _ _) fun _ => .bind (emit_pushes _ rfl) fun _ => .each fun line _ => onLine_pushes w line

theorem pushSerial_drains (w : World) (written : Except Text Unit) (chunk : Chunk) : Moves Drains (pushSerial w written chunk) :=
  fun s => (pushSerial_pushes w written chunk s).toDrains

theorem emit_drains (sink : Sink) (quiet : Quiet body) : Moves Drains (sending (emit sink body)) :=
  fun s => (emit_pushes sink quiet s).toDrains

theorem drainSerial_drains (w : World) (written : Except Text Unit) (linesOnly : Bool) : Moves Drains (drainSerial w written linesOnly) :=
  .bind .get fun _ => .bind (.modify fun _ => ⟨appends_none rfl,rfl⟩) fun _ => .each fun chunk _ => pushSerial_drains w written chunk

theorem drainMonitor_pushes (w : World) (linesOnly : Bool) : Moves Pushes (drainMonitor w linesOnly) := by
  refine .bind .get fun s => ?_
  split
  · exact .bind (.modify fun _ => ⟨⟨appends_none rfl,rfl⟩,rfl⟩) fun _ => emit_pushes _ rfl
  · exact .pure _

theorem drainMonitor_drains (w : World) (linesOnly : Bool) : Moves Drains (drainMonitor w linesOnly) :=
  fun s => (drainMonitor_pushes w linesOnly s).toDrains

theorem finalDrain_drains (w : World) : Moves Drains (finalDrain w) := by
  refine .bind (drainSerial_drains w _ _) fun _ => .bind (drainMonitor_drains w _) fun _ => .bind (.bind .get fun s => ?_) fun _ => .bind .get fun s => ?_
  · split
    · exact .bind (.modify fun _ => ⟨appends_none rfl,rfl⟩) fun _ => pushSerial_drains w _ _
    · exact .pure _
  · split
    · exact .bind (.modify fun _ => ⟨appends_none rfl,rfl⟩) fun _ => emit_drains _ rfl
    · exact .pure _

-- The same of the run as a whole.
abbrev Hushed (x : Runner α) : Prop := Moves (Appends (fun s => s.output.events) Quiet) x

theorem printing_hushed {x : Printer α} (inner : Moves Drains x) : Hushed (printing x) := .zoom fun s => (inner s.output).events

theorem watching_hushed (f : Watch → Watch) : Hushed (watching f) := .modify fun _ => appends_none rfl

theorem kill_hushed (p : Plan) (t : Tick) : Hushed (kill p t) := by
  unfold kill
  cases killGroupAndWait p.pgid t.killing with
  | ok done => exact .pure _
  | error e => exact .throw _

theorem onArm_hushed (w : World) (p : Plan) (t : Tick) (arm : Arm) : Hushed (onArm w p t arm) := by
  unfold onArm
  split
  · exact .bind (watching_hushed _) fun _ => printing_hushed (drainSerial_drains w _ _)
  · exact printing_hushed (.bind (.modify fun _ => ⟨appends_none rfl,rfl⟩) fun _ => drainSerial_drains w _ _)
  · exact .bind (watching_hushed _) fun _ => printing_hushed (emit_drains _ rfl)
  · exact .bind (watching_hushed _) fun _ => printing_hushed (drainMonitor_drains w _)
  · exact printing_hushed (.bind (.modify fun _ => ⟨appends_none rfl,rfl⟩) fun _ => drainMonitor_drains w _)
  · exact .bind (watching_hushed _) fun _ => printing_hushed (emit_drains _ rfl)
  · exact watching_hushed _
  · exact .throw _
  · exact printing_hushed (.bind (drainSerial_drains w _ _) fun _ => drainMonitor_drains w _)
  · exact .bind (watching_hushed _) fun _ => .bind (printing_hushed (emit_drains _ rfl)) fun _ => kill_hushed p t
  · exact .bind (watching_hushed _) fun _ => .bind (printing_hushed (emit_drains _ rfl)) fun _ => .bind (watching_hushed _) fun _ =>
      kill_hushed p t

theorem heed_hushed (w : World) (p : Plan) (t : Tick) : Hushed (heed w p t) := by
  refine .bind (watching_hushed _) fun _ => .bind .get fun s => ?_
  dsimp only
  split
  · exact .bind (watching_hushed _) fun _ => .bind (printing_hushed (emit_drains _ rfl)) fun _ => kill_hushed p t
  · exact .pure _

theorem reap_hushed (t : Tick) : Hushed (reap t) := by
  refine .bind .get fun s => ?_
  dsimp only
  split
  · split
    · exact .throw _
    · exact watching_hushed _
  · exact .pure _

theorem turn_hushed (w : World) (p : Plan) (t : Tick) : Hushed (turn w p t) :=
  .bind .get fun _ => .bind (onArm_hushed w p t _) fun _ => .bind (heed_hushed w p t) fun _ => reap_hushed t

-- Whatever is pushed, the serial log takes it.
def Writable (written : Except Text Unit) (s : Output) : Prop := s.file.isSome → ∃ made, written = .ok made

theorem sending_writable {x : Action (List EventBody) PrincessError Unit} (sure : Sure x) :
    Ensures (Writable written) (sending x) (fun _ => Writable written) fun _ => False := .zoom fun s start => by
  obtain ⟨a,done⟩ := sure.run s.events
  rw [done]
  exact start

theorem onObservation_writable (accepts : Accepts w.sink) (o : SerialObservation) :
    Ensures (Writable written) (onObservation w o) (fun _ => Writable written) fun _ => False := by
  cases o with
  | banner => exact sending_writable (note_sure accepts _)
  | panicked => exact sending_writable (note_sure accepts _)
  | fault raw =>
    refine .bind (sending_writable (note_sure accepts _)) fun _ => .bind (.get (Q:=fun _ => Writable written) fun _ => id) fun s => ?_
    split
    · exact sending_writable (note_sure accepts _)
    · exact .bind (sending_writable (emit_sure accepts _)) fun _ => .modify fun _ => id

theorem onLine_writable (accepts : Accepts w.sink) (line : Text) :
    Ensures (Writable written) (onLine w line) (fun _ => Writable written) fun _ => False :=
  .bind (.get (Q:=fun _ => Writable written) fun _ => id) fun _ => .bind (.modify (Q:=fun _ => Writable written) fun _ => id) fun _ =>
    .each fun o _ => onObservation_writable accepts o

theorem tee_writable (written : Except Text Unit) (text : Text) :
    Ensures (Writable written) (tee written text) (fun _ => Writable written) fun _ => False := by
  intro s start
  rw [tee,run_get]
  cases file : s.file with
  | none => exact start
  | some log =>
    obtain ⟨made,rfl⟩ := start (by rw [file]; rfl)
    exact fun _ => ⟨made,rfl⟩

theorem pushSerial_writable (accepts : Accepts w.sink) (written : Except Text Unit) (chunk : Chunk) :
    Ensures (Writable written) (pushSerial w written chunk) (fun _ => Writable written) fun _ => False :=
  .bind (tee_writable _ _) fun _ => .bind (sending_writable (emit_sure accepts _)) fun _ => .each fun line _ => onLine_writable accepts line

theorem drainSerial_run (w : World) (written : Except Text Unit) (linesOnly : Bool) (s : Output) :
    (drainSerial w written linesOnly).run s =
      ((taken linesOnly s.serial).1.forM (pushSerial w written)).run {s with serial:=(taken linesOnly s.serial).2} := rfl

theorem drainSerial_leaves (done : (drainSerial w written linesOnly).run s = .ok a out) :
    out.serial = (taken linesOnly s.serial).2 ∧ out.file.isSome = s.file.isSome := by
  rw [drainSerial_run] at done
  have pushed : Moves Pushes ((taken linesOnly s.serial).1.forM (pushSerial w written)) := .each fun c _ => pushSerial_pushes w written c
  have moved := pushed {s with serial:=(taken linesOnly s.serial).2}
  rw [after_ok done] at moved
  exact ⟨moved.serial,moved.file⟩

theorem drainSerial_done (linesOnly : Bool) (accepts : Accepts w.sink) (writable : (taken linesOnly s.serial).1 ≠ [] → Writable written s) :
    ∃ out, (drainSerial w written linesOnly).run s = .ok () out := by
  rw [drainSerial_run]
  cases chunks : (taken linesOnly s.serial).1 with
  | nil => exact ⟨_,rfl⟩
  | cons chunk rest =>
    obtain ⟨_,out,done,_⟩ := Ensures.runs (.each fun c _ => pushSerial_writable accepts written c)
      (show Writable written {s with serial:=(taken linesOnly s.serial).2} from writable (by rw [chunks]; exact List.cons_ne_nil _ _))
    exact ⟨out,done⟩

theorem tee_parts (done : (tee written text).run s = .ok a u) : Writable written s := by
  rw [tee,run_get] at done
  intro opened
  obtain ⟨log,file⟩ := Option.isSome_iff_exists.mp opened
  rw [file] at done
  cases written with
  | ok made => exact ⟨made,rfl⟩
  | error err => cases done

theorem drainSerial_parts (done : (drainSerial w written linesOnly).run s = .ok a u) (some : (taken linesOnly s.serial).1 ≠ []) :
    Writable written s := by
  rw [drainSerial_run] at done
  obtain ⟨chunk,rest,chunks⟩ := List.exists_cons_of_ne_nil some
  rw [chunks] at done
  obtain ⟨t,pushed,_⟩ := run_each_parts done
  obtain ⟨_,t,teed,_⟩ := run_bind_parts pushed
  exact tee_parts (s:={s with serial:=(taken linesOnly s.serial).2}) teed

theorem sending_run (accepts : Accepts sink) (body : EventBody) (s : Output) :
    (sending (emit sink body)).run s = .ok () {s with events:=s.events++[body]} := run_zoom_ok (emit_run accepts body s.events)

theorem drainMonitor_done (accepts : Accepts w.sink) (linesOnly : Bool) (s : Output) :
    ∃ out, (drainMonitor w linesOnly).run s = .ok () out := by
  rw [drainMonitor,run_get]
  cases monitorChunk linesOnly s.monitor with
  | none => exact ⟨s,rfl⟩
  | some found =>
    have sent := sending_run accepts (.logAppend ⟨.qemuMonitor,found.1.1,found.1.2⟩)
      {s with monitor:=found.2,monitorText:=s.monitorText++found.1.1}
    exact ⟨_,sent⟩

theorem printing_run {x : Printer α} (done : x.run s.output = .ok a out) : (printing x).run s = .ok a ⟨s.watch,out⟩ :=
  run_zoom_ok done

theorem printing_parts {x : Printer α} (done : (printing x).run s = .ok a u) : ∃ out, x.run s.output = .ok a out ∧ u = ⟨s.watch,out⟩ :=
  run_zoom_parts done

theorem saying_run (accepts : Accepts w.sink) (text : Text) (s : Running) :
    ∃ out, (printing (sending (note w.sink text))).run s = .ok () ⟨s.watch,out⟩ :=
  ⟨_,printing_run (sending_run accepts _ s.output)⟩

theorem kill_run (done : killGroupAndWait p.pgid t.killing = .ok ()) (s : Running) : (kill p t).run s = .ok () s := by
  rw [kill,done]
  rfl

theorem kill_parts (done : (kill p t).run s = .ok a u) : killGroupAndWait p.pgid t.killing = .ok () ∧ u = s := by
  unfold kill at done
  cases killed : killGroupAndWait p.pgid t.killing with
  | ok made => rw [killed] at done; cases done; exact ⟨rfl,rfl⟩
  | error e => rw [killed] at done; cases done

theorem killed (whole : ¬ Broken p s t) (due : kills s.watch t = true) : killGroupAndWait p.pgid t.killing = .ok () := by
  cases done : killGroupAndWait p.pgid t.killing with
  | ok made => rfl
  | error e => exact absurd (.kill due done) whole

theorem logged (whole : ¬ Broken p s t) (taken : serialTaken s t ≠ []) : Writable t.written s.output := by
  intro opened
  cases done : t.written with
  | ok made => exact ⟨made,rfl⟩
  | error err => exact absurd (.log opened taken done) whole

theorem onArm_done (accepts : Accepts w.sink) (whole : ¬ Broken p s t) :
    ∃ out, (onArm w p t (armOf s.watch t)).run s = .ok () ⟨armed s.watch t,out⟩ := by
  have taken := logged whole
  have due := killed whole
  unfold armed
  unfold serialTaken at taken
  unfold kills at due
  cases arm : armOf s.watch t with
  | serial read =>
    rw [arm] at taken
    cases read with
    | error err => exact saying_run accepts _ {s with watch:={s.watch with serialOpen:=false}}
    | ok bytes => cases bytes with
      | nil =>
        obtain ⟨out,done⟩ := drainSerial_done (s:=s.output) false accepts taken
        exact ⟨out,printing_run (s:={s with watch:={s.watch with serialOpen:=false}}) done⟩
      | cons b bytes =>
        obtain ⟨out,done⟩ := drainSerial_done (s:={s.output with serial:=s.output.serial.push (b::bytes)}) true accepts taken
        exact ⟨out,printing_run done⟩
  | monitor read => cases read with
    | error err => exact saying_run accepts _ {s with watch:={s.watch with monitorOpen:=false}}
    | ok bytes => cases bytes with
      | nil =>
        obtain ⟨out,done⟩ := drainMonitor_done accepts false s.output
        exact ⟨out,printing_run (s:={s with watch:={s.watch with monitorOpen:=false}}) done⟩
      | cons b bytes =>
        obtain ⟨out,done⟩ := drainMonitor_done accepts true {s.output with monitor:=s.output.monitor.push (b::bytes)}
        exact ⟨out,printing_run done⟩
  | waited answer => cases answer with
    | error err => exact absurd (.wait arm) whole
    | ok status => exact ⟨s.output,rfl⟩
  | idle =>
    rw [arm] at taken
    obtain ⟨middle,first⟩ := drainSerial_done (s:=s.output) false accepts taken
    obtain ⟨out,second⟩ := drainMonitor_done accepts false middle
    exact ⟨out,printing_run ((run_bind_ok first _).trans second)⟩
  | deadline =>
    rw [arm] at due
    obtain ⟨out,said⟩ := saying_run accepts (deadlineNote p)
      {s with watch:={s.watch with deadline:=false,timedOut:=true,cancelKillDone:=true}}
    exact ⟨out,(run_bind_ok said _).trans (kill_run (due rfl) _)⟩
  | cancelAfter =>
    rw [arm] at due
    obtain ⟨out,said⟩ := saying_run accepts (cancelAfterNote p) {s with watch:={s.watch with cancelDeadline:=false,cancelKillDone:=true}}
    exact ⟨out,(run_bind_ok said _).trans (kill_run (due rfl) _)⟩

theorem heed_done (accepts : Accepts w.sink) (due : heeds s.watch t = true → killGroupAndWait p.pgid t.killing = .ok ()) :
    ∃ out, (heed w p t).run s = .ok () ⟨heard s.watch t,out⟩ := by
  change ∃ out, (if heeds s.watch t then _ else _ : Runner Unit).run {s with watch:={s.watch with cancelled:=_}} = _
  unfold heard
  split
  · rename_i heeded
    obtain ⟨out,said⟩ := saying_run accepts (cancelNote p)
      {s with watch:={s.watch with cancelled:=s.watch.cancelled || t.cancelled,cancelKillDone:=true}}
    exact ⟨out,(run_bind_ok said _).trans (kill_run (due heeded) _)⟩
  · exact ⟨_,rfl⟩

theorem reap_done (due : reaps s.watch = true → ∃ status, t.reaped = .ok status) :
    (reap t).run s = .ok () ⟨reaped s.watch t,s.output⟩ := by
  change (if reaps s.watch then _ else _ : Runner Unit).run s = _
  unfold reaped
  split
  · rename_i needed
    obtain ⟨status,answer⟩ := due needed
    rw [answer]
    rfl
  · cases t.reaped <;> rfl

theorem turn_done (accepts : Accepts w.sink) (whole : ¬ Broken p s t) : ∃ out, (turn w p t).run s = .ok () ⟨step s.watch t,out⟩ := by
  obtain ⟨first,done⟩ := onArm_done accepts whole
  obtain ⟨second,done'⟩ := heed_done (s:=⟨armed s.watch t,first⟩) accepts fun due =>
    killed whole (by simp only [kills,show heeds (armed s.watch t) t = true from due,Bool.or_true])
  have last := reap_done (s:=⟨heard (armed s.watch t) t,second⟩) fun due => by
    cases answer : t.reaped with
    | ok status => exact ⟨status,rfl⟩
    | error err => exact absurd (.reap due answer) whole
  refine ⟨second,?_⟩
  rw [turn,run_get]
  exact (run_bind_ok done _).trans ((run_bind_ok done' _).trans last)

-- What a part of an iteration that succeeds tells.
theorem onArm_parts (done : (onArm w p t (armOf s.watch t)).run s = .ok a u) : u.watch = armed s.watch t ∧
    (∀ err, armOf s.watch t ≠ .waited (.error err)) ∧ (serialTaken s t ≠ [] → Writable t.written s.output) ∧
    ((armOf s.watch t).timer = true → killGroupAndWait p.pgid t.killing = .ok ()) := by
  unfold armed serialTaken
  cases arm : armOf s.watch t with
  | serial read =>
    rw [arm] at done
    refine ⟨?_,nofun,?_,nofun⟩
    · cases read with
      | error err =>
        obtain ⟨_,_,⟨⟩,rest⟩ := run_bind_parts done
        obtain ⟨out,_,rfl⟩ := printing_parts rest
        rfl
      | ok bytes => cases bytes with
        | nil =>
          obtain ⟨_,_,⟨⟩,rest⟩ := run_bind_parts done
          obtain ⟨out,_,rfl⟩ := printing_parts rest
          rfl
        | cons b bytes =>
          obtain ⟨out,_,rfl⟩ := printing_parts done
          rfl
    · cases read with
      | error err => exact fun some => absurd rfl some
      | ok bytes => cases bytes with
        | nil =>
          obtain ⟨_,_,⟨⟩,rest⟩ := run_bind_parts done
          obtain ⟨out,drained,_⟩ := printing_parts rest
          exact drainSerial_parts drained
        | cons b bytes =>
          obtain ⟨out,drained,_⟩ := printing_parts done
          exact drainSerial_parts (s:={s.output with serial:=s.output.serial.push (b::bytes)}) drained
  | monitor read =>
    rw [arm] at done
    refine ⟨?_,nofun,fun some => absurd rfl some,nofun⟩
    cases read with
    | error err =>
      obtain ⟨_,_,⟨⟩,rest⟩ := run_bind_parts done
      obtain ⟨out,_,rfl⟩ := printing_parts rest
      rfl
    | ok bytes => cases bytes with
      | nil =>
        obtain ⟨_,_,⟨⟩,rest⟩ := run_bind_parts done
        obtain ⟨out,_,rfl⟩ := printing_parts rest
        rfl
      | cons b bytes =>
        obtain ⟨out,_,rfl⟩ := printing_parts done
        rfl
  | waited answer =>
    rw [arm] at done
    cases answer with
    | error err => cases done
    | ok status =>
      cases done
      exact ⟨rfl,nofun,fun some => absurd rfl some,nofun⟩
  | idle =>
    rw [arm] at done
    obtain ⟨out,drained,rfl⟩ := printing_parts done
    obtain ⟨_,_,first,_⟩ := run_bind_parts drained
    exact ⟨rfl,nofun,drainSerial_parts first,nofun⟩
  | deadline =>
    rw [arm] at done
    obtain ⟨_,_,⟨⟩,rest⟩ := run_bind_parts done
    obtain ⟨_,_,said,last⟩ := run_bind_parts rest
    obtain ⟨out,_,rfl⟩ := printing_parts said
    obtain ⟨dead,rfl⟩ := kill_parts last
    exact ⟨rfl,nofun,fun some => absurd rfl some,fun _ => dead⟩
  | cancelAfter =>
    rw [arm] at done
    obtain ⟨_,_,⟨⟩,rest⟩ := run_bind_parts done
    obtain ⟨_,_,said,later⟩ := run_bind_parts rest
    obtain ⟨out,_,rfl⟩ := printing_parts said
    obtain ⟨_,_,⟨⟩,last⟩ := run_bind_parts later
    obtain ⟨dead,rfl⟩ := kill_parts last
    exact ⟨rfl,nofun,fun some => absurd rfl some,fun _ => dead⟩

theorem heed_parts (done : (heed w p t).run s = .ok a u) : u.watch = heard s.watch t ∧
    (heeds s.watch t = true → killGroupAndWait p.pgid t.killing = .ok ()) := by
  change (if heeds s.watch t then _ else _ : Runner Unit).run {s with watch:={s.watch with cancelled:=_}} = _ at done
  unfold heard
  split at done
  · rename_i heeded
    obtain ⟨_,_,⟨⟩,rest⟩ := run_bind_parts done
    obtain ⟨_,_,said,last⟩ := run_bind_parts rest
    obtain ⟨out,_,rfl⟩ := printing_parts said
    obtain ⟨dead,rfl⟩ := kill_parts last
    rw [if_pos heeded]
    exact ⟨rfl,fun _ => dead⟩
  · rename_i calm
    cases done
    rw [if_neg calm]
    exact ⟨rfl,fun heeded => absurd heeded calm⟩

theorem reap_parts (done : (reap t).run s = .ok a u) : u.watch = reaped s.watch t ∧
    (reaps s.watch = true → ∃ status, t.reaped = .ok status) := by
  change (if reaps s.watch then _ else _ : Runner Unit).run s = _ at done
  unfold reaped
  split at done
  · rename_i needed
    cases answer : t.reaped with
    | error err => rw [answer] at done; cases done
    | ok status =>
      rw [answer] at done
      cases done
      dsimp only
      rw [if_pos needed]
      exact ⟨rfl,fun _ => ⟨status,rfl⟩⟩
  · rename_i calm
    cases done
    refine ⟨?_,fun needed => absurd needed calm⟩
    cases t.reaped with
    | ok status => exact (if_neg calm).symm
    | error err => rfl

theorem turn_parts (done : (turn w p t).run s = .ok a u) : u.watch = step s.watch t ∧ ¬ Broken p s t := by
  rw [turn,run_get] at done
  obtain ⟨_,first,armedDone,rest⟩ := run_bind_parts done
  obtain ⟨_,second,heardDone,last⟩ := run_bind_parts rest
  obtain ⟨flags,waited,logged,timed⟩ := onArm_parts armedDone
  obtain ⟨flags',heeded⟩ := heed_parts heardDone
  obtain ⟨flags'',reaping⟩ := reap_parts last
  rw [flags',flags] at flags'' reaping
  rw [flags] at heeded
  refine ⟨flags'',fun broken => ?_⟩
  cases broken with
  | wait arm => exact waited _ arm
  | log opened taken failed =>
    obtain ⟨made,done⟩ := logged taken opened
    cases failed.symm.trans done
  | kill due failed =>
    have done := (Bool.or_eq_true _ _).mp due |>.elim timed heeded
    cases failed.symm.trans done
  | reap due failed =>
    obtain ⟨status,done⟩ := reaping due
    cases failed.symm.trans done

theorem finalDrain_done (accepts : Accepts w.sink) (whole : ¬ FinalBroken w s) : ∃ out, (finalDrain w).run s.output = .ok () out := by
  have flushed : (taken false s.output.serial).1 ≠ [] → Writable w.flushed s.output := by
    intro some opened
    cases done : w.flushed with
    | ok made => exact ⟨made,rfl⟩
    | error err => exact absurd (.log opened some done) whole
  obtain ⟨one,first⟩ := drainSerial_done _ accepts flushed
  obtain ⟨two,second⟩ := drainMonitor_done accepts false one
  obtain ⟨serial,file⟩ := drainSerial_leaves first
  have moved := drainMonitor_pushes w false one
  rw [after_ok second] at moved
  have third : ∃ three, (takeSerialRemainder w).run two = .ok () three := by
    rw [takeSerialRemainder,run_get]
    cases left : two.serial.takeRemainder with
    | none => exact ⟨two,rfl⟩
    | some found =>
      have remainder : Writable w.remainder {two with serial:=found.2} := by
        intro opened
        cases done : w.remainder with
        | ok made => exact ⟨made,rfl⟩
        | error err =>
          rw [moved.serial,serial] at left
          exact absurd (.remainder (file.symm.trans (moved.file.symm.trans opened)) (by rw [left]; rfl) done) whole
      obtain ⟨_,three,done,_⟩ := (pushSerial_writable accepts w.remainder found.1).runs remainder
      exact ⟨three,done⟩
  obtain ⟨three,third⟩ := third
  have last : ∃ four, (takeMonitorRemainder w).run three = .ok () four := by
    rw [takeMonitorRemainder,run_get]
    cases three.monitor.takeRemainder with
    | none => exact ⟨three,rfl⟩
    | some found => exact ⟨_,sending_run accepts (.logAppend ⟨.qemuMonitor,found.1.1,found.1.2⟩) {three with monitor:=found.2}⟩
  obtain ⟨four,last⟩ := last
  exact ⟨four,(run_bind_ok first _).trans ((run_bind_ok second _).trans ((run_bind_ok third _).trans last))⟩

theorem finalDrain_parts (done : (finalDrain w).run s = .ok a out) : ((taken false s.serial).1 ≠ [] → Writable w.flushed s) ∧
    (((taken false s.serial).2.takeRemainder).isSome → Writable w.remainder s) := by
  obtain ⟨_,one,first,rest⟩ := run_bind_parts done
  obtain ⟨_,two,second,rest'⟩ := run_bind_parts rest
  obtain ⟨_,three,third,_⟩ := run_bind_parts rest'
  obtain ⟨serial,file⟩ := drainSerial_leaves first
  have moved := drainMonitor_pushes w false one
  rw [after_ok second] at moved
  refine ⟨drainSerial_parts first,fun partly opened => ?_⟩
  rw [takeSerialRemainder,run_get,moved.serial,serial] at third
  obtain ⟨found,left⟩ := Option.isSome_iff_exists.mp partly
  rw [left] at third
  obtain ⟨_,_,teed,_⟩ := run_bind_parts (x:=tee w.remainder found.1.1) (s:={two with serial:=found.2}) third
  exact tee_parts teed (moved.file.trans (file.trans opened))

theorem reapLast_hushed (w : World) : Hushed (reapLast w) := by
  refine .bind .get fun s => ?_
  split
  · split
    · exact .throw _
    · exact watching_hushed _
  · exact .pure _

theorem reapLast_done (due : s.watch.status = none → ∃ status, w.reaped = .ok status) : ∃ u, (reapLast w).run s = .ok () u ∧
    u.output = s.output := by
  rw [reapLast,run_get]
  cases status : s.watch.status with
  | some status => exact ⟨s,rfl,rfl⟩
  | none =>
    obtain ⟨status,answer⟩ := due status
    rw [answer]
    exact ⟨_,rfl,rfl⟩

theorem reapLast_parts (done : (reapLast w).run s = .ok a u) (running : s.watch.status = none) : ∃ status, w.reaped = .ok status := by
  rw [reapLast,run_get,running,if_pos Option.isNone_none] at done
  cases answer : w.reaped with
  | ok status => exact ⟨status,rfl⟩
  | error err => rw [answer] at done; cases done

theorem note_run (accepts : Accepts sink) (text : Text) (s : Output) :
    (sending (note sink text)).run s = .ok () {s with events:=s.events++[RunBackend.noteBody text]} := sending_run accepts _ s

theorem noteTripleFault_done (accepts : Accepts w.sink) (r : Running) (s : Output) : ∃ out added,
    (noteTripleFault w r).run s = .ok () out ∧ out.events = s.events ++ added ∧ ∀ body ∈ added, Quiet body := by
  unfold noteTripleFault
  split
  · refine ⟨_,_,note_run accepts _ s,rfl,fun body member => ?_⟩
    rw [List.mem_singleton.mp member]
    rfl
  · exact ⟨s,[],rfl,by simp,by simp⟩

theorem report_done (accepts : Accepts w.sink) (r : Running) (s : Output) : ∃ out added,
    (report w p r).run s = .ok (outcomeOf w p r) out ∧
    out.events = s.events ++ (added ++ [EventBody.runExited (outcomeOf w p r).exitedEvent]) ∧ ∀ body ∈ added, Quiet body := by
  obtain ⟨one,added,noted,events,quiet⟩ := noteTripleFault_done accepts r s
  unfold report
  generalize summaryText r.output = summary
  generalize endedText p.run (outcomeOf w p r) = ended
  rw [run_bind_ok noted,run_bind_ok (note_run accepts summary one),run_bind_ok (note_run accepts ended _),
    run_bind_ok (sending_run accepts _ _)]
  refine ⟨_,added ++ [RunBackend.noteBody summary,RunBackend.noteBody ended],rfl,?_,?_⟩
  · simp [events]
  · intro body member
    rcases List.mem_append.mp member with before | last
    · exact quiet body before
    · simp only [List.mem_cons,List.not_mem_nil,or_false] at last
      rcases last with rfl | rfl <;> rfl

theorem conclude_done (accepts : Accepts w.sink) (whole : ¬ FinalBroken w s) : ∃ o u added, (conclude w p).run s = .ok o u ∧
    u.output.events = s.output.events ++ (added ++ [EventBody.runExited o.exitedEvent]) ∧ ∀ body ∈ added, Quiet body := by
  obtain ⟨out,done⟩ := finalDrain_done accepts whole
  have printed := printing_run done
  obtain ⟨r,reaped,same⟩ := reapLast_done (s:=⟨s.watch,out⟩) fun running => by
    cases answer : w.reaped with
    | ok status => exact ⟨status,rfl⟩
    | error err => exact absurd (.reap running answer) whole
  obtain ⟨last,added,told,events,quiet⟩ := report_done (p:=p) accepts r r.output
  obtain ⟨before,drained,quiet'⟩ := (finalDrain_drains w s.output).events
  rw [after_ok done] at drained
  refine ⟨outcomeOf w p r,⟨r.watch,last⟩,before++added,?_,?_,List.forall_mem_append.mpr ⟨quiet',quiet⟩⟩
  · rw [conclude,run_bind_ok printed,run_bind_ok reaped,run_get]
    exact printing_run told
  · dsimp only
    rw [events,same,drained]
    simp

theorem conclude_parts (done : (conclude w p).run s = .ok o u) : ¬ FinalBroken w s := by
  obtain ⟨_,_,printed,rest⟩ := run_bind_parts done
  obtain ⟨out,drained,rfl⟩ := printing_parts printed
  obtain ⟨_,_,reaped,_⟩ := run_bind_parts rest
  obtain ⟨flushed,remainder⟩ := finalDrain_parts drained
  intro broken
  cases broken with
  | log opened some failed =>
    obtain ⟨made,done⟩ := flushed some opened
    cases failed.symm.trans done
  | remainder opened partly failed =>
    obtain ⟨made,done⟩ := remainder partly opened
    cases failed.symm.trans done
  | reap running failed =>
    obtain ⟨status,done⟩ := reapLast_parts reaped running
    cases failed.symm.trans done

theorem conclude_failed (accepts : Accepts w.sink) (failed : (conclude w p).run s = .error e u) :
    Appends (fun s => s.output.events) Quiet s u := by
  have first := printing_hushed (finalDrain_drains w) s
  rw [conclude] at failed
  cases drained : (printing (finalDrain w)).run s with
  | error e t =>
    rw [run_bind_error drained] at failed
    cases failed
    rwa [after_error drained] at first
  | ok a t =>
    rw [run_bind_ok drained] at failed
    rw [after_ok drained] at first
    have second := reapLast_hushed w t
    cases reaped : (reapLast w).run t with
    | error e v =>
      rw [run_bind_error reaped] at failed
      cases failed
      rw [after_error reaped] at second
      exact trans_of _ first second
    | ok b v =>
      obtain ⟨out,_,told,_⟩ := report_done (p:=p) accepts v v.output
      rw [run_bind_ok reaped,run_get,printing_run told] at failed
      cases failed

-- No operation that the run needs fails: none that an iteration made needs, and
-- none that is needed behind the loop.
def Sound (w : World) (p : Plan) (s : Running) : Prop := ∀ seen t rest m, w.ticks = seen ++ t :: rest →
  goesOn (iteration w p) s seen = some m → if drained m.watch t then ¬ FinalBroken w m else ¬ Broken p m t

theorem iteration_next (next : iteration w p s t = .next u) : drained s.watch t = false ∧ (turn w p t).run s = .ok () u := by
  unfold iteration at next
  split at next
  · cases next
  · rename_i still
    refine ⟨by simpa using still,?_⟩
    cases done : (turn w p t).run s with
    | ok a v => rw [done] at next; cases next; rfl
    | error e v => rw [done] at next; cases next

theorem iteration_leave (leave : iteration w p s t = .leave result u) : (drained s.watch t = true ∧ result = .broke ∧ u = s) ∨
    (drained s.watch t = false ∧ ∃ e, (turn w p t).run s = .error e u ∧ result = .failed e) := by
  unfold iteration at leave
  split at leave
  · rename_i spent
    cases leave
    exact .inl ⟨spent,rfl,rfl⟩
  · rename_i still
    refine .inr ⟨by simpa using still,?_⟩
    cases done : (turn w p t).run s with
    | ok a v => rw [done] at leave; cases leave
    | error e v => rw [done] at leave; cases leave; exact ⟨e,rfl,rfl⟩

theorem loop_hushed (w : World) (p : Plan) (s : Running) (ticks : List Tick) :
    Appends (fun s => s.output.events) Quiet s (loop (iteration w p) s ticks).2.1 := by
  refine loop_yields (fun s _ u => Appends (fun s => s.output.events) Quiet s u) (fun s => refl_of _ s) ?_ ?_ s ticks
  · intro s t u r v next later
    have here := turn_hushed w p t s
    rw [after_ok (iteration_next next).2] at here
    exact trans_of _ here later
  · intro s t r u leave
    rcases iteration_leave leave with ⟨_,_,rfl⟩ | ⟨_,e,failed,_⟩
    · exact refl_of _ u
    · have here := turn_hushed w p t s
      rwa [after_error failed] at here

theorem sound_iff (accepts : Accepts w.sink) (left : loop (iteration w p) s w.ticks = (some result,out,rest)) :
    Sound w p s ↔ result = .broke ∧ ¬ FinalBroken w out := by
  constructor
  · intro sound
    obtain ⟨seen,t,m,split,on,leave⟩ := loop_left left
    have here := sound seen t rest m split on
    rcases iteration_leave leave with ⟨spent,rfl,rfl⟩ | ⟨still,e,failed,_⟩
    · rw [if_pos spent] at here
      exact ⟨rfl,here⟩
    · rw [if_neg (by rw [still]; exact Bool.false_ne_true)] at here
      obtain ⟨_,done⟩ := turn_done accepts here
      cases failed.symm.trans done
  · rintro ⟨rfl,whole⟩ seen t later m split on
    rw [split] at left
    rcases loop_met left on with ⟨u,next⟩ | leave
    · obtain ⟨still,done⟩ := iteration_next next
      rw [if_neg (by rw [still]; exact Bool.false_ne_true)]
      exact (turn_parts done).2
    · rcases iteration_leave leave with ⟨spent,_,rfl⟩ | ⟨_,e,_,same⟩
      · rw [if_pos spent]
        exact whole
      · cases same

-- What a supervised run that has returned has sent.
theorem supervise_ends (accepts : Accepts w.sink) (returned : supervise w p s = (some result,u)) :
    (Sound w p s ∧ ∃ added payload, u.output.events = s.output.events ++ (added ++ [EventBody.runExited payload]) ∧ ∀ body ∈ added, Quiet body) ∨
    (¬ Sound w p s ∧ Appends (fun s => s.output.events) Quiet s u) := by
  have hushed := loop_hushed w p s w.ticks
  unfold supervise at returned
  rcases here : loop (iteration w p) s w.ticks with ⟨left,m,rest⟩
  rw [here] at returned hushed
  dsimp only at returned hushed
  cases left with
  | none => cases returned
  | some left =>
    rw [sound_iff accepts here]
    cases left with
    | failed e =>
      cases returned
      exact .inr ⟨nofun,hushed⟩
    | broke =>
      dsimp only at returned
      by_cases broken : FinalBroken w m
      · refine .inr ⟨fun held => held.2 broken,?_⟩
        cases concluded : (conclude w p).run m with
        | ok o v => exact absurd broken (conclude_parts concluded)
        | error e v =>
          rw [concluded] at returned
          cases returned
          exact trans_of _ hushed (conclude_failed accepts concluded)
      · obtain ⟨o,v,added,concluded,events,quiet⟩ := conclude_done (p:=p) accepts broken
        rw [concluded] at returned
        cases returned
        obtain ⟨before,same,quiet'⟩ := hushed
        dsimp only at same
        refine .inl ⟨⟨rfl,broken⟩,before++added,o.exitedEvent,?_,List.forall_mem_append.mpr ⟨quiet',quiet⟩⟩
        rw [events,same]
        simp

-- What the sink holds when the loop starts.
def greeted (w : World) (plan : RunPlan) (announced : List EventBody) : List EventBody :=
  after (noteSymbols w) (announced ++ [startedBody plan])

-- Behind what was sent before, `run.started` is followed by one `run.exited`, which is last.
def Reported (announced events : List EventBody) : Prop := ∃ started middle exited,
  events = announced ++ .runStarted started :: (middle ++ [.runExited exited]) ∧ ∀ body ∈ middle, Quiet body

-- Nothing that the run needs fails, a spawn apart.
structure Unbroken (w : World) (plan : RunPlan) (options : RunOptions) (announced : List EventBody) : Prop where
  created : plan.serial.teeToFile.isSome → ∃ made, w.created = .ok made
  supervised : ∀ child, w.spawned = .ok child → ∃ pgid, handles child = .ok pgid ∧
    Sound w ⟨plan,options.cancelAfterMs,pgid⟩ (begin plan options (greeted w plan announced))

theorem unreported (plain : ∀ body ∈ added, Quiet body) : ¬ Reported announced (announced ++ startedBody plan :: added) := by
  rintro ⟨started,middle,exited,same,_⟩
  have tail := (List.cons.inj (List.append_cancel_left same)).2
  have quiet := plain (.runExited exited) (by rw [tail]; simp)
  cases quiet

theorem noteSymbols_sure (accepts : Accepts w.sink) : Sure (noteSymbols w) := by
  unfold noteSymbols
  split
  · exact note_sure accepts _
  · exact .pure _

theorem noteSymbols_quiet (accepts : Accepts w.sink) (events : List EventBody) :
    ∃ added, after (noteSymbols w) events = events ++ added ∧ ∀ body ∈ added, Quiet body := by
  unfold noteSymbols
  split
  · refine ⟨[RunBackend.noteBody _],after_ok (emit_run accepts _ events),fun body member => ?_⟩
    rw [List.mem_singleton.mp member]
    rfl
  · exact ⟨[],by simp,by simp⟩

theorem spawnFailed_reports (accepts : Accepts w.sink) (plan : RunPlan) (e : PrincessError) (announced : List EventBody) :
    Reported announced (after (spawnFailed w plan e : Teller α) (announced ++ [startedBody plan])) := by
  have failed : (spawnFailed w plan e : Teller α).run (announced ++ [startedBody plan]) = .error (e.withDetail (Qemu.joinWords plan.argv))
      (announced ++ [startedBody plan] ++ [RunBackend.noteBody ("run failed to start: ".toList ++ e.display)] ++
        [.runExited ⟨none,.killed,w.uptimeMs⟩]) :=
    (run_bind_ok (emit_run accepts _ _) _).trans (run_bind_ok (emit_run accepts _ _) _)
  rw [after_error failed]
  refine ⟨startedPayload plan,[RunBackend.noteBody ("run failed to start: ".toList ++ e.display)],⟨none,.killed,w.uptimeMs⟩,?_,
    fun body member => ?_⟩
  · simp [startedBody]
  · rw [List.mem_singleton.mp member]
    rfl

theorem watchChild_reports (accepts : Accepts w.sink) (handled : handles child = .ok pgid)
    (returned : answer (watchChild w plan options child) (announced ++ [startedBody plan]) ≠ .ok none) :
    Reported announced (after (watchChild w plan options child) (announced ++ [startedBody plan])) ↔
      Sound w ⟨plan,options.cancelAfterMs,pgid⟩ (begin plan options (greeted w plan announced)) := by
  obtain ⟨_,noted⟩ := (noteSymbols_sure accepts).run (announced ++ [startedBody plan])
  obtain ⟨added,greeting,quiet⟩ := noteSymbols_quiet accepts (announced ++ [startedBody plan])
  have run : (watchChild w plan options child).run (announced ++ [startedBody plan]) =
      returning (supervise w ⟨plan,options.cancelAfterMs,pgid⟩ (begin plan options (greeted w plan announced))) := by
    rw [watchChild,handled]
    exact run_bind_ok noted _
  have start : (begin plan options (greeted w plan announced)).output.events = announced ++ startedBody plan :: added := by
    change greeted w plan announced = _
    rw [greeted,greeting]
    simp
  rcases ended : supervise w ⟨plan,options.cancelAfterMs,pgid⟩ (begin plan options (greeted w plan announced)) with ⟨result,u⟩
  rw [ended] at run
  cases result with
  | none => exact absurd (by rw [answer,run]; rfl) returned
  | some result =>
    have events : after (watchChild w plan options child) (announced ++ [startedBody plan]) = u.output.events := by
      rw [after,run]
      cases result <;> rfl
    rw [events]
    rcases supervise_ends accepts ended with ⟨sound,more,exited,same,quiet'⟩ | ⟨broken,more,same,quiet'⟩
    · refine ⟨fun _ => sound,fun _ => ⟨startedPayload plan,added++more,exited,?_,List.forall_mem_append.mpr ⟨quiet,quiet'⟩⟩⟩
      rw [same,start]
      simp [startedBody]
    · refine ⟨fun reported => absurd reported ?_,fun sound => absurd sound broken⟩
      dsimp only at same
      rw [same,start,List.append_assoc,List.cons_append]
      exact unreported (List.forall_mem_append.mpr ⟨quiet,quiet'⟩)

theorem created_done (made : plan.serial.teeToFile.isSome → ∃ made, w.created = .ok made) (events : List EventBody) :
    (createSerialLog w plan).run events = .ok () events := by
  unfold createSerialLog
  cases log : plan.serial.teeToFile with
  | none => rfl
  | some path =>
    obtain ⟨made,done⟩ := made (by rw [log]; rfl)
    rw [done]
    rfl

theorem created_failed (failed : ¬ (plan.serial.teeToFile.isSome → ∃ made, w.created = .ok made)) (events : List EventBody) :
    ∃ e, (createSerialLog w plan).run events = .error e events := by
  unfold createSerialLog
  cases log : plan.serial.teeToFile with
  | none => exact absurd (fun some => by rw [log] at some; cases some) failed
  | some path => cases done : w.created with
    | ok made => exact absurd (fun _ => ⟨made,done⟩) failed
    | error err => exact ⟨_,rfl⟩

theorem run_exited_iff (accepts : Accepts w.sink) (prepared : (prepare w project options).run before = .ok plan announced)
    (returned : answer (execute w project options) before ≠ .ok none) :
    Reported announced (after (execute w project options) before) ↔ Unbroken w plan options announced := by
  have launched : (execute w project options).run before = (launch w plan options).run announced := run_bind_ok prepared _
  have started : (launch w plan options).run announced = _ := run_bind_ok (emit_run accepts (startedBody plan) announced) _
  unfold answer at returned
  unfold after
  rw [launched,started] at returned ⊢
  by_cases made : plan.serial.teeToFile.isSome → ∃ made, w.created = .ok made
  · have created := created_done made (announced ++ [startedBody plan])
    rw [run_bind_ok created] at returned ⊢
    cases spawned : w.spawned with
    | error failure =>
      rw [spawned] at returned
      refine ⟨fun _ => ⟨made,fun child spawned' => nomatch spawned'.symm.trans spawned⟩,fun _ => ?_⟩
      exact spawnFailed_reports accepts plan _ announced
    | ok child =>
      rw [spawned] at returned
      cases handled : handles child with
      | error e =>
        have failed : (watchChild w plan options child).run (announced ++ [startedBody plan]) = .error e (announced ++ [startedBody plan]) := by
          rw [watchChild,handled]
          rfl
        refine ⟨fun reported => absurd reported ?_,fun unbroken => ?_⟩
        · dsimp only
          rw [failed]
          exact unreported (List.forall_mem_nil _)
        · obtain ⟨pgid,ok,_⟩ := unbroken.supervised child spawned
          cases handled.symm.trans ok
      | ok pgid =>
        refine (watchChild_reports accepts handled returned).trans ⟨fun sound => ⟨made,fun other spawned' => ?_⟩,fun unbroken => ?_⟩
        · cases spawned.symm.trans spawned'
          exact ⟨pgid,handled,sound⟩
        · obtain ⟨pgid',ok,sound⟩ := unbroken.supervised child spawned
          cases handled.symm.trans ok
          exact sound
  · obtain ⟨e,failed⟩ := created_failed made (announced ++ [startedBody plan])
    rw [run_bind_error failed]
    refine ⟨fun reported => absurd reported ?_,fun unbroken => absurd unbroken.created made⟩
    exact unreported (List.forall_mem_nil _)

-- Iterations that take these futures, where nothing fails.
def answering (arms : List Arm) : List Tick :=
  arms.map fun arm => ⟨0,[arm],.ok (),⟨.delivered,fun _ => false,.delivered⟩,false,.ok ⟨some 0,none⟩,0⟩

-- QEMU exits by itself.
def booted : World where
  sink _ _ := none
  built := ([],.ok true)
  medium := .ok (.iso "/k/build/k.iso".toList)
  created := .ok ()
  spawned := .ok ⟨some 7,true,true⟩
  symbols := none
  ticks := answering [.waited (.ok ⟨some 0,none⟩),.serial (.ok []),.monitor (.ok []),.idle]
  flushed := .ok ()
  remainder := .ok ()
  reaped := .ok ⟨some 0,none⟩
  uptimeMs := 40
  qemuDebug := none
  cancelled := false
  cancelledAfter := false

def kernel : Project :=
  ⟨some "qemu-system-x86_64".toList,none,"/k".toList,"/k".toList,[],60000,⟨"127.0.0.1".toList,1234⟩,⟨"com1".toList,some "/k/serial.log".toList⟩⟩

def kernelPlan : RunPlan where
  argv := "qemu-system-x86_64".toList :: Qemu.mediumArgs (.iso "/k/build/k.iso".toList) ++ Qemu.captureArgs "/k/build/qemu-debug.log".toList
  cwd := "/k".toList
  timeoutMs := 60000
  serial := ⟨"com1".toList,some "/k/serial.log".toList⟩
  gdbStub := none

def plain : RunOptions := ⟨none,none,false⟩

theorem run_exited_booted : Unbroken booted kernelPlan plain [] :=
  (run_exited_iff (fun _ _ => rfl) (show (prepare booted kernel plain).run [] = .ok kernelPlan [] from rfl) (by decide +kernel)).mp
    ⟨startedPayload kernelPlan,((after (execute booted kernel plain) []).drop 1).dropLast,⟨some 0,.guestShutdown,40⟩,
      by decide +kernel,by decide +kernel⟩

theorem run_unexited : (prepare {booted with created:=.error "denied".toList} kernel plain).run [] = .ok kernelPlan [] ∧
    ¬ Reported [] (after (execute {booted with created:=.error "denied".toList} kernel plain) []) := by
  refine ⟨rfl,?_⟩
  rw [show after (execute {booted with created:=.error "denied".toList} kernel plain) [] = [startedBody kernelPlan] from by decide +kernel]
  exact unreported (List.forall_mem_nil _)

end PrincessIDE.CliRun
