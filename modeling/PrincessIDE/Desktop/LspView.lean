import PrincessIDE.Desktop.LspServers

namespace PrincessIDE.LspServers
open EventStore Bus Runs Lsp Str
open Utf8 (Text Bytes)

-- What the frontend is told of one server.
inductive Told where
  | message (text : Text)
  | stopped (reason : LspStopReason)
deriving DecidableEq, Repr

def tell (sid : Text) : Payload → Option Told
  | .lspMessage serverId message => if serverId = sid then some (.message message) else none
  | .lspStopped serverId reason => if serverId = sid then some (.stopped reason) else none
  | _ => none

def Told.text : Told → Option Text
  | message text => some text
  | stopped _ => none

def Told.reason : Told → Option LspStopReason
  | message _ => none
  | stopped reason => some reason

def told (sid : Text) (emitted : List AnyEvent) : List Told := emitted.filterMap fun env => tell sid env.payload

def reasons (tales : List Told) : List LspStopReason := tales.filterMap Told.reason

def messages (tales : List Told) : List Text := tales.filterMap Told.text

def Shell.stage (s : Shell) (sid : Text) : Option Stage := (s.stopping.filter fun row => row.1 = sid).map Prod.snd

-- A server ends only after its stop has asked it to, and its reader has nothing
-- left to emit when the stop emits `lsp.stopped`.
def Permitted (s : Shell) : Step → Prop
  | .exit sid => ∀ server, s.servers sid = some server → server.ended = none → s.stopping = some (sid,.asked)
  | .report _ => ∀ sid server, s.stopping = some (sid,.waited) → s.servers sid = some server → server.left = []
  | _ => True

-- The part of the state that one server is about, and what can become of it; a
-- move carries the condition that it puts on a run.
structure View where
  server : Option Server
  stage : Option Stage
  listed : Bool
  tales : List Told

def Shell.view (s : Shell) (sid : Text) : View := ⟨s.servers sid,s.stage sid,s.registry.contains sid,told sid s.emitted⟩

inductive Moves : Prop → View → View → Prop where
  | same : Moves True v v
  | spawn : v.server = none → Moves True v ⟨some spawned,v.stage,true,v.tales⟩
  | feed (bytes : Bytes) : v.server = some server → Moves True v {v with server:=some (server.fed bytes)}
  | write (bytes : Bytes) : v.server = some server → Moves True v {v with server:=some (server.wrote bytes)}
  | read : v.server = some server → Moves True v {v with server:=some server.advanced}
  | deliver : v.server = some server → server.held = some message →
      Moves True v {v with server:=some server.released,tales:=v.tales ++ [.message message]}
  | leave : v.server = some server → server.ended = none → v.stage = some .asked →
      Moves True v {v with server:=some (server.exited .asked)}
  | crash : v.server = some server → server.ended = none → Moves False v {v with server:=some (server.exited .byItself)}
  | remove : v.stage = none → v.listed = true → Moves True v {v with stage:=some .removed,listed:=false}
  | ask (bytes : Bytes) : v.server = some server → v.stage = some .removed →
      Moves True v {v with server:=some (server.fed bytes),stage:=some .asked}
  | kill : v.server = some server → v.stage = some .asked →
      Moves True v {v with server:=some (server.exited .asked),stage:=some .waited}
  | report : v.server = some server → v.stage = some .waited →
      Moves (server.left = []) v {v with stage:=some .reported,tales:=v.tales ++ [.stopped .shutdown]}
  | finish : v.stage = some .reported → Moves True v {v with stage:=none}

-- What is so in every run.
structure Sound (v : View) : Prop where
  absent : v.server = none → v.listed = false ∧ v.stage = none ∧ v.tales = []
  listed : v.listed = true → v.stage = none ∧ reasons v.tales = [] ∧ ∀ server, v.server = some server → server.ended ≠ some .asked
  working : ∀ stage, v.stage = some stage → reasons v.tales = if stage = .reported then [.shutdown] else []
  gone : ∀ server, v.server = some server → v.listed = false → v.stage = none → reasons v.tales = [.shutdown]
  dead : ∀ server, v.server = some server → v.stage = some .waited ∨ reasons v.tales ≠ [] → server.ended ≠ none

theorem reasons_message (tales : List Told) (text : Text) : reasons (tales ++ [Told.message text]) = reasons tales := by
  simp [reasons,Told.reason]

theorem reasons_stopped (tales : List Told) (reason : LspStopReason) :
    reasons (tales ++ [Told.stopped reason]) = reasons tales ++ [reason] := by
  simp [reasons,Told.reason]

theorem messages_message (tales : List Told) (text : Text) : messages (tales ++ [Told.message text]) = messages tales ++ [text] := by
  simp [messages,Told.text]

theorem messages_stopped (tales : List Told) (reason : LspStopReason) : messages (tales ++ [Told.stopped reason]) = messages tales := by
  simp [messages,Told.text]

@[simp] theorem fed_ended (server : Server) (bytes : Bytes) : (server.fed bytes).ended = server.ended := rfl
@[simp] theorem fed_left (server : Server) (bytes : Bytes) : (server.fed bytes).left = server.left := rfl
@[simp] theorem advanced_ended (server : Server) : server.advanced.ended = server.ended := rfl
@[simp] theorem released_ended (server : Server) : server.released.ended = server.ended := rfl
@[simp] theorem exited_ended (server : Server) (how : Ending) : (server.exited how).ended = some (server.ended.getD how) := rfl

@[simp] theorem wrote_ended (server : Server) (bytes : Bytes) : (server.wrote bytes).ended = server.ended := by
  unfold Server.wrote
  split <;> rfl

theorem wrote_closed {server : Server} (ended : server.ended ≠ none) (bytes : Bytes) : server.wrote bytes = server := if_neg ended

@[simp] theorem exited_left (server : Server) (how : Ending) : (server.exited how).left = server.left := rfl

@[simp] theorem advanced_left (server : Server) : server.advanced.left = server.left := by
  have kept := remaining_advance server.ended.isSome server.reader server.unread [] fun _ => rfl
  rw [List.append_nil,List.append_nil] at kept
  exact kept

theorem held_reader {server : Server} (held : server.held = some message) : server.reader = .holding message := by
  unfold Server.held at held
  split at held
  · rename_i reader
    cases held
    exact reader
  · cases held

theorem released_left {server : Server} (held : server.held = some message) : server.left = message :: server.released.left := by
  rw [Server.left,held_reader held,remaining,readLspStream_remaining]
  rfl

-- A step of the server or of its reader, seen by the handlers.
theorem Sound.changed {after : Server} (sound : Sound v) (found : v.server = some server)
    (asked : v.listed = true → server.ended ≠ some .asked → after.ended ≠ some .asked)
    (dead : server.ended ≠ none → after.ended ≠ none) (same : reasons tales = reasons v.tales) :
    Sound {v with server:=some after,tales:=tales} where
  absent := nofun
  listed here := by
    refine ⟨(sound.listed here).1,same.trans (sound.listed here).2.1,fun other here' => ?_⟩
    rw [← Option.some.inj here']
    exact asked here ((sound.listed here).2.2 server found)
  working stage here := same.trans (sound.working stage here)
  gone _ _ listed stage := same.trans (sound.gone server found listed stage)
  dead other here ended := by
    rw [← Option.some.inj here]
    simp only [same] at ended
    exact dead (sound.dead server found ended)

theorem Sound.unlisted (sound : Sound v) (stage : v.stage = some stage') (listed : v.listed = true) : False := by
  rw [(sound.listed listed).1] at stage
  cases stage

-- A stop that goes on to its next stage.
theorem Sound.staged (sound : Sound v) (stage : v.stage = some stage')
    (told : reasons tales = if next = .reported then [.shutdown] else [])
    (dead : next = .waited ∨ reasons tales ≠ [] → after.ended ≠ none) :
    Sound ⟨some after,some next,v.listed,tales⟩ where
  absent := nofun
  listed here := (sound.unlisted stage here).elim
  working other here := by
    rw [← Option.some.inj here]
    exact told
  gone _ _ _ := nofun
  dead other here ended := by
    rw [← Option.some.inj here]
    exact dead (ended.imp_left Option.some.inj)

theorem moves_sound (move : Moves met v w) (sound : Sound v) : Sound w := by
  cases move with
  | same => exact sound
  | spawn none =>
    obtain ⟨_,stage,tales⟩ := sound.absent none
    refine ⟨nofun,fun _ => ⟨stage,by rw [tales]; rfl,fun other here => ?_⟩,sound.working,nofun,fun _ _ ended => ?_⟩
    · rw [← Option.some.inj here]
      nofun
    · simp [stage,tales,reasons] at ended
  | feed bytes found => exact sound.changed found (fun _ => id) id rfl
  | write bytes found => exact sound.changed found (by simp) (by simp) rfl
  | read found => exact sound.changed found (fun _ => id) id rfl
  | deliver found held => exact sound.changed found (fun _ => id) id (reasons_message _ _)
  | leave found running stage => exact sound.changed found (fun listed => (sound.unlisted stage listed).elim) (by simp) rfl
  | crash found running => exact sound.changed found (by simp [running]) (by simp) rfl
  | remove idle here =>
    have quiet := (sound.listed here).2.1
    refine ⟨fun none => ?_,nofun,fun stage same => ?_,fun _ _ _ => nofun,fun _ _ ended => ?_⟩
    · rw [(sound.absent none).1] at here
      cases here
    · rw [← Option.some.inj same]
      exact quiet
    · simp [quiet] at ended
  | ask bytes found stage =>
    have quiet : reasons v.tales = [] := sound.working _ stage
    exact sound.staged stage quiet (by simp [quiet])
  | kill found stage =>
    have quiet : reasons v.tales = [] := sound.working _ stage
    exact sound.staged stage quiet (by simp)
  | report found stage =>
    have quiet : reasons v.tales = [] := sound.working _ stage
    rw [found]
    exact sound.staged stage (by rw [reasons_stopped,quiet]; rfl) fun _ => sound.dead _ found (.inl stage)
  | finish stage =>
    have told := sound.working _ stage
    refine ⟨fun none => ?_,fun here => (sound.unlisted stage here).elim,nofun,fun _ _ _ _ => told,fun server found ended => ?_⟩
    · rw [(sound.absent none).2.1] at stage
      cases stage
    · exact sound.dead server found (.inr (ended.resolve_left nofun))

theorem serverId_injective (same : serverId m = serverId n) : m = n :=
  leftpad_injective (by decide) (by decide) 4 (List.append_cancel_left same)

-- The ids are those of the counter so far.
def Known (s : Shell) : Prop := ∀ sid server, s.servers sid = some server → ∃ n, n ≤ s.counter ∧ sid = serverId n

theorem view_emit (s : Shell) (ts : Text) (payload : Payload) (sid : Text) :
    (s.emit ts payload).view sid = {s.view sid with tales:=(s.view sid).tales ++ (tell sid payload).toList} := by
  have tales : told sid (s.emit ts payload).emitted = told sid s.emitted ++ (tell sid payload).toList := by
    simp only [told,Shell.emit,List.filterMap_append]
    congr 1
  simp only [Shell.view,tales]
  rfl

theorem view_log (s : Shell) (ts chunk sid : Text) : (s.logAppend ts chunk).view sid = s.view sid := by
  rw [Shell.logAppend,view_emit]
  simp [tell]

theorem view_update_self (s : Shell) (sid : Text) (change : Server → Server) :
    (s.update sid change).view sid = {s.view sid with server:=(s.servers sid).map change} := by
  simp only [Shell.view,Shell.update,Function.update_self]
  rfl

theorem view_update_other (s : Shell) (other : sid ≠ changed) (change : Server → Server) :
    (s.update changed change).view sid = s.view sid := by
  simp only [Shell.view,Shell.update,Function.update_of_ne other]
  rfl

theorem update_moves (s : Shell) (changed sid : Text) (change : Server → Server)
    (move : ∀ server, s.servers sid = some server → Moves True (s.view sid) {s.view sid with server:=some (change server)}) :
    Moves True (s.view sid) ((s.update changed change).view sid) := by
  by_cases here : sid = changed
  · subst changed
    rw [view_update_self]
    cases found : s.servers sid with
    | none =>
      have unchanged : s.view sid = {s.view sid with server:=none} := by simp only [Shell.view,found]
      rw [Option.map_none]
      exact unchanged ▸ .same
    | some server => exact move server found
  · rw [view_update_other s here]
    exact .same

theorem stage_self {s : Shell} (stopping : s.stopping = some (sid,stage)) : s.stage sid = some stage := by
  simp [Shell.stage,stopping]

theorem stage_other {s : Shell} (stopping : s.stopping = some (stopped,stage)) (other : sid ≠ stopped) : s.stage sid = none := by
  simp [Shell.stage,stopping,other.symm]

theorem stage_idle {s : Shell} (stopping : s.stopping = none) (sid : Text) : s.stage sid = none := by
  simp [Shell.stage,stopping]

theorem start_moves (known : Known s) (args : Json) (launch : Launch) (sid : Text) :
    Moves True (s.view sid) ((lspStart s args launch).1.view sid) := by
  unfold lspStart
  cases launch.isDir with
  | false => exact .same
  | true =>
    cases launch.failed with
    | some e => exact .same
    | none =>
      simp only [if_true]
      by_cases here : sid = serverId (s.counter+1)
      · have fresh : (s.view sid).server = none := by
          by_contra old
          obtain ⟨server,found⟩ := Option.ne_none_iff_exists'.mp old
          obtain ⟨n,issued,same⟩ := known sid server found
          have next := serverId_injective (here.symm.trans same)
          omega
        convert Moves.spawn fresh using 1
        simp [here,Shell.view,Shell.stage]
      · convert Moves.same using 1
        simp [here,Shell.view,Shell.stage]

theorem send_moves (display : Json → Text) (s : Shell) (args : Json) (fate : Option Fate) (sid : Text) :
    Moves True (s.view sid) ((lspSend display s args fate).1.view sid) := by
  unfold lspSend
  split
  · split
    · cases fate <;> exact update_moves s _ sid _ fun server found => .feed _ found
    · exact .same
  · exact .same

theorem stop_moves (display : Json → Text) (free : s.stopping = none) (args : Json) (sid : Text) :
    Moves True (s.view sid) ((lspStop display s args).1.view sid) := by
  unfold lspStop
  split
  · exact .same
  · rename_i stopped _
    split
    · rename_i listed
      by_cases here : sid = stopped
      · subst stopped
        convert Moves.remove (v:=s.view sid) (stage_idle free sid) listed using 1
        simp [Shell.view,Shell.stage]
      · convert Moves.same using 1
        simp [Shell.view,Shell.stage,free,here,Ne.symm here]
    · exact .same

-- A step of the stop that is under way: the server that it is about exists.
theorem stopping_server {s : Shell} (sound : ∀ sid, Sound (s.view sid)) (stopping : s.stopping = some (stopped,stage)) :
    ∃ server, s.servers stopped = some server := by
  refine Option.ne_none_iff_exists'.mp fun none => ?_
  have idle := ((sound stopped).absent none).2.1
  cases (stage_self stopping).symm.trans idle

theorem view_staged_self (s : Shell) (sid : Text) (next : Stage) :
    Shell.view {s with stopping:=some (sid,next)} sid = {s.view sid with stage:=some next} := by
  simp [Shell.view,Shell.stage]

theorem view_staged_other {s : Shell} (stopping : s.stopping = some (stopped,stage)) (other : sid ≠ stopped) (next : Stage) :
    Shell.view {s with stopping:=some (stopped,next)} sid = s.view sid := by
  simp only [Shell.view,stage_other stopping other]
  rw [stage_other rfl other]

theorem view_freed (s : Shell) (sid : Text) : Shell.view {s with stopping:=none} sid = {s.view sid with stage:=none} := rfl

theorem ask_moves (display : Json → Text) (sound : ∀ sid, Sound (s.view sid)) (fate : Option Fate) (sid : Text) :
    Moves True (s.view sid) ((perform display s (.ask fate)).view sid) := by
  rw [perform]
  split
  · rename_i stopped stopping
    dsimp only
    by_cases here : sid = stopped
    · subst stopped
      obtain ⟨server,found⟩ := stopping_server sound stopping
      rw [view_update_self,view_staged_self,found]
      exact .ask _ found (stage_self stopping)
    · rw [view_update_other _ here,view_staged_other stopping here]
      exact .same
  · exact .same

theorem kill_moves (display : Json → Text) (sound : ∀ sid, Sound (s.view sid)) (sid : Text) :
    Moves True (s.view sid) ((perform display s .kill).view sid) := by
  rw [perform]
  split
  · rename_i stopped stopping
    by_cases here : sid = stopped
    · subst stopped
      obtain ⟨server,found⟩ := stopping_server sound stopping
      rw [view_update_self,view_staged_self,found]
      exact .kill found (stage_self stopping)
    · rw [view_update_other _ here,view_staged_other stopping here]
      exact .same
  · exact .same

theorem report_moves {s : Shell} (sound : ∀ sid, Sound (s.view sid)) (stopping : s.stopping = some (stopped,.waited)) (ts sid : Text) :
    ∃ met, Moves met (s.view sid) ((Shell.emit {s with stopping:=some (stopped,.reported)} ts (.lspStopped stopped .shutdown)).view sid) ∧
      (met ↔ sid = stopped → ∀ server, s.servers stopped = some server → server.left = []) := by
  by_cases here : sid = stopped
  · subst stopped
    obtain ⟨server,found⟩ := stopping_server sound stopping
    refine ⟨server.left = [],?_,by simp [found]⟩
    rw [view_emit,view_staged_self]
    simp only [tell,if_true,Option.toList]
    exact .report found (stage_self stopping)
  · refine ⟨True,?_,by simp [here]⟩
    rw [view_emit,view_staged_other stopping here]
    simp only [tell,if_neg (Ne.symm here),Option.toList,List.append_nil]
    exact .same

theorem finish_moves (display : Json → Text) (s : Shell) (ts sid : Text) :
    Moves True (s.view sid) ((perform display s (.finish ts)).view sid) := by
  rw [perform]
  split
  · rename_i stopped stopping
    rw [view_log,view_freed]
    by_cases here : sid = stopped
    · subst stopped
      exact .finish (stage_self stopping)
    · have idle : s.view sid = {s.view sid with stage:=none} := by
        simp only [Shell.view,stage_other stopping here]
      exact idle ▸ .same
  · exact .same

theorem exit_moves (s : Shell) (exited sid : Text) :
    ∃ met, Moves met (s.view sid)
        ((s.update exited (·.exited (if s.stopping = some (exited,.asked) then .asked else .byItself))).view sid) ∧
      (met ↔ sid = exited → ∀ server, s.servers exited = some server → server.ended = none → s.stopping = some (exited,.asked)) := by
  by_cases here : sid = exited
  · subst exited
    cases found : s.servers sid with
    | none => exact ⟨True,update_moves s _ sid _ fun server other => absurd (found.symm.trans other) nofun,by simp⟩
    | some server =>
      rw [view_update_self,found]
      by_cases running : server.ended = none
      · by_cases asked : s.stopping = some (sid,.asked)
        · refine ⟨True,?_,by simp [asked]⟩
          rw [if_pos asked]
          exact .leave found running (stage_self asked)
        · refine ⟨False,?_,by simp [asked,running]⟩
          rw [if_neg asked]
          exact .crash found running
      · refine ⟨True,?_,by simp [running]⟩
        obtain ⟨how,ended⟩ := Option.ne_none_iff_exists'.mp running
        have unchanged : ∀ other, server.exited other = server := by
          intro other
          simp only [Server.exited,ended,Option.getD_some]
          rw [← ended]
        have view : s.view sid = {s.view sid with server:=some server} := by simp only [Shell.view,found]
        rw [Option.map_some,unchanged]
        exact view ▸ .same
  · refine ⟨True,?_,by simp [here]⟩
    rw [view_update_other s here]
    exact .same

theorem deliver_moves (display : Json → Text) (s : Shell) (delivered ts sid : Text) :
    Moves True (s.view sid) ((perform display s (.deliver delivered ts)).view sid) := by
  rw [perform]
  split
  · rename_i message bound
    obtain ⟨server,found,held⟩ := Option.bind_eq_some_iff.mp bound
    rw [view_emit]
    by_cases here : sid = delivered
    · subst delivered
      rw [view_update_self,found]
      simp only [tell,if_true,Option.toList]
      exact .deliver found held
    · rw [view_update_other s here]
      simp only [tell,if_neg (Ne.symm here),Option.toList,List.append_nil]
      exact .same
  · exact .same

-- What a run permits, read off for one server.
def PermittedOf (s : Shell) (sid : Text) : Step → Prop
  | .exit exited => sid = exited → ∀ server, s.servers exited = some server → server.ended = none → s.stopping = some (exited,.asked)
  | .report _ => ∀ stopped, s.stopping = some (stopped,.waited) → sid = stopped → ∀ server, s.servers stopped = some server → server.left = []
  | _ => True

theorem permitted_iff : Permitted s step ↔ ∀ sid, PermittedOf s sid step := by
  cases step with
  | exit exited => exact ⟨fun held _ _ => held,fun held => held exited rfl⟩
  | report ts => exact ⟨fun held _ stopped stopping _ server => held stopped server stopping,
      fun held stopped server stopping => held stopped stopped stopping rfl server⟩
  | _ => exact ⟨fun _ _ => trivial,fun _ => trivial⟩

theorem perform_moves (display : Json → Text) {s : Shell} (known : Known s) (sound : ∀ sid, Sound (s.view sid)) (step : Step) (sid : Text) :
    ∃ met, Moves met (s.view sid) ((perform display s step).view sid) ∧ (met ↔ PermittedOf s sid step) := by
  cases step with
  | start args launch =>
    refine ⟨True,?_,Iff.rfl⟩
    rw [perform]
    split
    · exact start_moves known args launch sid
    · exact .same
  | note index ts =>
    refine ⟨True,?_,Iff.rfl⟩
    rw [perform]
    split
    · rw [view_log]
      exact .same
    · exact .same
  | send args fate =>
    refine ⟨True,?_,Iff.rfl⟩
    rw [perform]
    split
    · exact send_moves display s args fate sid
    · exact .same
  | stop args =>
    refine ⟨True,?_,Iff.rfl⟩
    rw [perform]
    split
    · exact stop_moves display ‹_› args sid
    · exact .same
  | ask fate => exact ⟨True,ask_moves display sound fate sid,Iff.rfl⟩
  | kill => exact ⟨True,kill_moves display sound sid,Iff.rfl⟩
  | report ts =>
    rw [perform]
    split
    · rename_i stopped stopping
      obtain ⟨met,move,same⟩ := report_moves sound stopping ts sid
      refine ⟨met,move,same.trans ⟨fun held other also => ?_,fun held => held stopped stopping⟩⟩
      cases stopping.symm.trans also
      exact held
    · rename_i other
      exact ⟨True,.same,⟨fun _ stopped stopping => absurd stopping (other stopped),fun _ => trivial⟩⟩
  | finish ts => exact ⟨True,finish_moves display s ts sid,Iff.rfl⟩
  | write written bytes => exact ⟨True,update_moves s _ sid _ fun server found => .write bytes found,Iff.rfl⟩
  | exit exited => exact exit_moves s exited sid
  | read reader => exact ⟨True,update_moves s _ sid _ fun server found => .read found,Iff.rfl⟩
  | deliver delivered ts => exact ⟨True,deliver_moves display s delivered ts sid,Iff.rfl⟩
  | complain line ts =>
    refine ⟨True,?_,Iff.rfl⟩
    rw [perform,view_log]
    exact .same

theorem update_known (known : Known s) (changed : Text) (change : Server → Server) : Known (s.update changed change) := by
  intro sid server found
  by_cases here : sid = changed
  · subst changed
    simp only [Shell.update,Function.update_self,Option.map_eq_some_iff] at found
    obtain ⟨before,old,_⟩ := found
    exact known sid before old
  · simp only [Shell.update,Function.update_of_ne here] at found
    exact known sid server found

theorem start_known (known : Known s) (args : Json) (launch : Launch) : Known (lspStart s args launch).1 := by
  have later : ∀ sid server, s.servers sid = some server → ∃ n, n ≤ s.counter+1 ∧ sid = serverId n := by
    intro sid server found
    obtain ⟨n,issued,same⟩ := known sid server found
    exact ⟨n,Nat.le_succ_of_le issued,same⟩
  unfold lspStart
  cases launch.isDir with
  | false => exact known
  | true => cases launch.failed with
    | some e => exact later
    | none =>
      intro sid server found
      by_cases here : sid = serverId (s.counter+1)
      · exact ⟨s.counter+1,Nat.le_refl _,here⟩
      · simp only [if_true,Function.update_of_ne here] at found
        exact later sid server found

theorem perform_known (display : Json → Text) (known : Known s) (step : Step) : Known (perform display s step) := by
  cases step with
  | start args launch =>
    rw [perform]
    split
    · exact start_known known args launch
    · exact known
  | send args fate =>
    rw [perform,lspSend]
    split
    · split
      · split
        · cases fate <;> exact update_known known _ _
        · exact known
      · exact known
    · exact known
  | stop args =>
    rw [perform,lspStop]
    split
    · split
      · exact known
      · split <;> exact known
    · exact known
  | ask fate =>
    rw [perform]
    split
    · exact update_known (s:={s with stopping:=_}) known _ _
    · exact known
  | kill =>
    rw [perform]
    split
    · exact update_known (s:={s with stopping:=_}) known _ _
    · exact known
  | write sid bytes => exact update_known known _ _
  | exit sid => exact update_known known _ _
  | read sid => exact update_known known _ _
  | deliver sid ts =>
    rw [perform]
    split
    · exact update_known known _ _
    · exact known
  | note _ _ | report _ | finish _ =>
    rw [perform]
    split <;> exact known
  | complain line ts => exact known

structure Invariant (s : Shell) : Prop where
  known : Known s
  sound : ∀ sid, Sound (s.view sid)

theorem idle_invariant : Invariant idle :=
  ⟨nofun,fun _ => ⟨fun _ => ⟨rfl,rfl,rfl⟩,nofun,nofun,nofun,nofun⟩⟩

theorem perform_invariant (display : Json → Text) (invariant : Invariant s) (step : Step) : Invariant (perform display s step) := by
  refine ⟨perform_known display invariant.known step,fun sid => ?_⟩
  obtain ⟨_,move,_⟩ := perform_moves display invariant.known invariant.sound step sid
  exact moves_sound move (invariant.sound sid)

-- What the frontend is told of a server, and what its reader still has, is what
-- it wrote, whatever it will write.
def Whole (tales : List Told) (server : Server) : Prop := ∀ more, (server.ended ≠ none → more = []) →
  messages tales ++ remaining server.reader (server.unread ++ more) = readLspStream (server.written ++ more)

theorem Whole.exited (whole : Whole tales server) (how : Ending) : Whole tales (server.exited how) := by
  intro more final
  exact whole more fun _ => final (by simp)

theorem Whole.wrote (whole : Whole tales server) (bytes : Bytes) : Whole tales (server.wrote bytes) := by
  by_cases running : server.ended = none
  · rw [Server.wrote,if_pos running]
    intro more final
    simpa using whole (bytes ++ more) fun ended => absurd running ended
  · rw [wrote_closed running]
    exact whole

theorem Whole.advanced (whole : Whole tales server) : Whole tales server.advanced := by
  intro more final
  have kept := remaining_advance server.ended.isSome server.reader server.unread more
    fun ended => final (Option.isSome_iff_ne_none.mp ended)
  exact (congrArg (messages tales ++ ·) kept).trans (whole more final)

theorem Whole.released (whole : Whole tales server) (held : server.held = some message) :
    Whole (tales ++ [Told.message message]) server.released := by
  intro more final
  have earlier := whole more final
  rw [held_reader held,remaining,readLspStream_remaining] at earlier
  rw [messages_message,List.append_assoc]
  exact earlier

theorem moves_whole (move : Moves met v w) (sound : Sound v) (whole : ∀ server, v.server = some server → Whole v.tales server)
    (found : w.server = some server) : Whole w.tales server := by
  cases move with
  | same => exact whole server found
  | spawn none =>
    obtain ⟨_,_,tales⟩ := sound.absent none
    rw [← Option.some.inj found,tales]
    intro more _
    exact (readLspStream_remaining _).symm
  | feed bytes before =>
    rw [← Option.some.inj found]
    intro more final
    exact whole _ before more final
  | write bytes before =>
    rw [← Option.some.inj found]
    exact (whole _ before).wrote bytes
  | read before =>
    rw [← Option.some.inj found]
    exact (whole _ before).advanced
  | deliver before held =>
    rw [← Option.some.inj found]
    exact (whole _ before).released held
  | leave before running stage =>
    rw [← Option.some.inj found]
    exact (whole _ before).exited _
  | crash before running =>
    rw [← Option.some.inj found]
    exact (whole _ before).exited _
  | remove idle here => exact whole _ found
  | ask bytes before stage =>
    rw [← Option.some.inj found]
    intro more final
    exact whole _ before more final
  | kill before stage =>
    rw [← Option.some.inj found]
    exact (whole _ before).exited _
  | report before stage =>
    intro more final
    rw [messages_stopped]
    exact whole _ found more final
  | finish stage => exact whole _ found

theorem run_invariant (display : Json → Text) (steps : List Step) : Invariant (run (perform display) idle steps) ∧
    ∀ sid server, (run (perform display) idle steps).servers sid = some server →
      Whole (told sid (run (perform display) idle steps).emitted) server := by
  induction steps using List.reverseRecOn with
  | nil => exact ⟨idle_invariant,nofun⟩
  | append_singleton steps step ih =>
    rw [run_snoc]
    refine ⟨perform_invariant display ih.1 step,fun sid server found => ?_⟩
    obtain ⟨_,move,_⟩ := perform_moves display ih.1.known ih.1.sound step sid
    exact moves_whole move (ih.1.sound sid) (ih.2 sid) found

-- No message is lost or told twice, in any run: when the reader of a server is at
-- its end, the frontend was told what `readLspStream` reads.
theorem run_messages (display : Json → Text) (steps : List Step) (found : (run (perform display) idle steps).servers sid = some server)
    (returned : server.reader = .returned) :
    messages (told sid (run (perform display) idle steps).emitted) = readLspStream server.written := by
  have whole := (run_invariant display steps).2 sid server found [] fun _ => rfl
  rw [returned,remaining,List.append_nil,List.append_nil] at whole
  exact whole

end PrincessIDE.LspServers
