import PrincessIDE.Desktop.LspView

namespace PrincessIDE.LspServers
open EventStore Bus Runs Lsp
open Utf8 (Text)

-- No message comes behind a stop.
def Final (tales : List Told) : Prop := tales.Pairwise fun earlier later => earlier.reason.isSome → later.text = none

-- What the shell owes the frontend about a server: a stop is told once, of a
-- server that has ended and that the registry does not list, with no message
-- behind it; and of a server that has ended it is told when neither its reader
-- nor a stop is still at work.
structure Proper (s : Shell) (sid : Text) (server : Server) : Prop where
  once : (reasons (told sid s.emitted)).length ≤ 1
  final : Final (told sid s.emitted)
  after : reasons (told sid s.emitted) ≠ [] → server.ended ≠ none ∧ sid ∉ s.registry
  reported : ∀ how, server.ended = some how → server.reader = .returned → s.stage sid = none →
    ∃ reason, reasons (told sid s.emitted) = [reason] ∧ (how = .byItself → reason = .crashed) ∧ sid ∉ s.registry

def Reported (s : Shell) : Prop := ∀ sid server, s.servers sid = some server → Proper s sid server

-- No stop is under way, and the readers of the servers that have ended have too.
def Settled (s : Shell) : Prop :=
  s.stopping = none ∧ ∀ sid server, s.servers sid = some server → server.ended ≠ none → server.reader = .returned

theorem final_message (text : Text) : Final (tales ++ [Told.message text]) ↔ Final tales ∧ reasons tales = [] := by
  simp [Final,List.pairwise_append,reasons,Told.text,List.filterMap_eq_nil_iff]

theorem final_stopped (final : Final tales) (reason : LspStopReason) : Final (tales ++ [Told.stopped reason]) := by
  simpa [Final,List.pairwise_append,Told.text] using final

theorem sound_reasons (sound : Sound v) : reasons v.tales = [] ∨ reasons v.tales = [.shutdown] ∧ v.listed = false := by
  cases here : v.listed with
  | true => exact .inl (sound.listed here).2.1
  | false =>
    cases stage : v.stage with
    | some stage' =>
      have told := sound.working _ stage
      split at told
      · exact .inr ⟨told,rfl⟩
      · exact .inl told
    | none => cases found : v.server with
      | none =>
        rw [(sound.absent found).2.2]
        exact .inl rfl
      | some server => exact .inr ⟨sound.gone server found here stage,rfl⟩

-- What is so of a server in the runs that meet the condition.
structure Kept (tales : List Told) (server : Server) : Prop where
  asked : server.ended ≠ some .byItself
  final : Final tales
  drained : reasons tales ≠ [] → server.left = []

-- What no later step mends.
def Spoiled (v : View) : Prop := ∃ server, v.server = some server ∧
  (server.ended = some .byItself ∨ reasons v.tales ≠ [] ∧ (¬ Final v.tales ∨ server.left ≠ []))

theorem Kept.changed {after : Server} (kept : Kept tales server) (asked : server.ended ≠ some .byItself → after.ended ≠ some .byItself)
    (left : reasons tales ≠ [] → after.left = server.left) : Kept tales after :=
  ⟨asked kept.asked,kept.final,fun told => (left told).trans (kept.drained told)⟩

theorem exited_asked {server : Server} (asked : server.ended ≠ some .byItself) : (server.exited .asked).ended ≠ some .byItself := by
  intro same
  cases ended : server.ended with
  | none => simp [ended] at same
  | some how =>
    rw [exited_ended,ended] at same
    exact asked (ended.trans same)

theorem moves_kept (move : Moves met v w) (holds : met) (sound : Sound v) (kept : ∀ server, v.server = some server → Kept v.tales server)
    (found : w.server = some server) : Kept w.tales server := by
  cases move with
  | same => exact kept server found
  | spawn none =>
    obtain ⟨_,_,tales⟩ := sound.absent none
    rw [← Option.some.inj found,tales]
    exact ⟨nofun,.nil,fun told => absurd rfl told⟩
  | feed bytes before =>
    rw [← Option.some.inj found]
    exact (kept _ before).changed id fun _ => rfl
  | write bytes before =>
    rw [← Option.some.inj found]
    refine (kept _ before).changed (by simp) fun told => ?_
    rw [wrote_closed (sound.dead _ before (.inr told))]
  | read before =>
    rw [← Option.some.inj found]
    exact (kept _ before).changed id fun _ => advanced_left _
  | deliver before held =>
    obtain ⟨asked,final,drained⟩ := kept _ before
    have quiet : reasons v.tales = [] := by
      by_contra told
      have none := drained told
      rw [released_left held] at none
      cases none
    rw [← Option.some.inj found]
    exact ⟨asked,(final_message _).mpr ⟨final,quiet⟩,fun told => absurd ((reasons_message _ _).trans quiet) told⟩
  | leave before running stage =>
    rw [← Option.some.inj found]
    exact (kept _ before).changed exited_asked fun _ => rfl
  | crash before running => exact holds.elim
  | remove idle here => exact kept _ found
  | ask bytes before stage =>
    rw [← Option.some.inj found]
    exact (kept _ before).changed id fun _ => rfl
  | kill before stage =>
    rw [← Option.some.inj found]
    exact (kept _ before).changed exited_asked fun _ => rfl
  | report before stage =>
    obtain ⟨asked,final,_⟩ := kept _ before
    rw [before] at found
    rw [← Option.some.inj found]
    exact ⟨asked,final_stopped final _,fun _ => holds⟩
  | finish stage => exact kept _ found

-- A server that ended by itself, or of which messages are left behind its stop.
theorem moves_spoils (move : Moves met v w) (unmet : ¬ met) : Spoiled w := by
  cases move with
  | crash found running => exact ⟨_,rfl,.inl (by simp [running])⟩
  | report found stage => exact ⟨_,found,.inr ⟨by simp [reasons_stopped],.inr unmet⟩⟩
  | _ => exact absurd trivial unmet

theorem Spoiled.changed {after : Server} (found : v.server = some server) (asked : server.ended = some .byItself → after.ended = some .byItself)
    (left : reasons v.tales ≠ [] → after.left = server.left) (spoiled : Spoiled v) : Spoiled ⟨some after,stage,listed,v.tales⟩ := by
  obtain ⟨other,same,bad⟩ := spoiled
  rw [found] at same
  cases same
  refine ⟨after,rfl,bad.imp asked fun late => ⟨late.1,?_⟩⟩
  rw [left late.1]
  exact late.2

theorem exited_byItself {server : Server} (how : Ending) (ended : server.ended = some .byItself) :
    (server.exited how).ended = some .byItself := by
  simp [ended]

theorem moves_spoiled (move : Moves met v w) (sound : Sound v) (spoiled : Spoiled v) : Spoiled w := by
  cases move with
  | same => exact spoiled
  | spawn none =>
    obtain ⟨server,found,_⟩ := spoiled
    cases none.symm.trans found
  | feed bytes found => exact spoiled.changed found id fun _ => rfl
  | write bytes found =>
    refine spoiled.changed found (by simp) fun told => ?_
    rw [wrote_closed (sound.dead _ found (.inr told))]
  | read found => exact spoiled.changed found id fun _ => advanced_left _
  | deliver found held =>
    obtain ⟨other,same,bad⟩ := spoiled
    rw [found] at same
    cases same
    refine ⟨_,rfl,bad.imp id fun late => ⟨by rw [reasons_message]; exact late.1,.inl fun final => ?_⟩⟩
    exact late.1 ((final_message _).mp final).2
  | leave found running stage => exact spoiled.changed found (exited_byItself _) fun _ => rfl
  | crash found running => exact ⟨_,rfl,.inl (by simp [running])⟩
  | remove idle here => exact spoiled
  | ask bytes found stage => exact spoiled.changed found id fun _ => rfl
  | kill found stage => exact spoiled.changed found (exited_byItself _) fun _ => rfl
  | report found stage =>
    have quiet : reasons v.tales = [] := sound.working _ stage
    obtain ⟨other,same,bad⟩ := spoiled
    exact ⟨other,same,.inl (bad.resolve_right fun late => late.1 quiet)⟩
  | finish stage => exact spoiled

structure Faithful (s : Shell) : Prop extends Invariant s where
  kept : ∀ sid server, s.servers sid = some server → Kept (told sid s.emitted) server

theorem perform_faithful (display : Json → Text) (faithful : Faithful s) (permitted : Permitted s step) :
    Faithful (perform display s step) := by
  refine ⟨perform_invariant display faithful.toInvariant step,fun sid server found => ?_⟩
  obtain ⟨met,move,same⟩ := perform_moves display faithful.known faithful.sound step sid
  exact moves_kept move (same.mpr (permitted_iff.mp permitted sid)) (faithful.sound sid) (faithful.kept sid) found

theorem faithful_reported (faithful : Faithful s) : Reported s := by
  intro sid server found
  have sound := faithful.sound sid
  obtain ⟨asked,final,_⟩ := faithful.kept sid server found
  have unlisted : s.registry.contains sid = false → sid ∉ s.registry := by simp
  have shutdown := sound_reasons sound
  refine ⟨?_,final,fun told => ⟨sound.dead server found (.inr told),?_⟩,fun how ended _ idle => ?_⟩
  · rcases shutdown with none | ⟨one,_⟩
    · exact (congrArg List.length none).trans_le (Nat.zero_le _)
    · exact (congrArg List.length one).le
  · exact unlisted (shutdown.resolve_left told).2
  · have listed : s.registry.contains sid = false := by
      by_contra here
      have not := (sound.listed (Bool.not_eq_false _ ▸ here)).2.2 server found
      cases how with
      | byItself => exact asked ended
      | asked => exact not ended
    refine ⟨.shutdown,sound.gone server found listed idle,?_,unlisted listed⟩
    rintro rfl
    exact absurd ended asked

theorem spoiled_unreported (invariant : Invariant s) (settled : Settled s) (spoiled : Spoiled (s.view sid)) : ¬ Reported s := by
  intro reported
  obtain ⟨server,found,bad⟩ := spoiled
  have sound := invariant.sound sid
  have proper := reported sid server found
  have done : server.ended ≠ none → server.reader = .returned := settled.2 sid server found
  rcases bad with crashed | ⟨told,late⟩
  · obtain ⟨reason,one,right,_⟩ := proper.reported .byItself crashed (done (by simp [crashed])) (stage_idle settled.1 sid)
    have shutdown := sound_reasons sound
    simp only [Shell.view,one,right rfl] at shutdown
    simp at shutdown
  · have returned := done (sound.dead server found (.inr told))
    have empty : server.left = [] := by
      rw [Server.left,returned]
      rfl
    exact late.elim (fun unfinal => unfinal proper.final) fun some => some empty

theorem lsp_stopped_iff (display : Json → Text) (steps : List Step) :
    (Along (perform display) idle Permitted steps → Always (perform display) idle Reported steps) ∧
    (Settled (run (perform display) idle steps) →
      (Reported (run (perform display) idle steps) ↔ Along (perform display) idle Permitted steps)) := by
  have holds : ∀ steps, Along (perform display) idle Permitted steps → Reported (run (perform display) idle steps) := fun steps along =>
    faithful_reported (run_keeps Faithful ⟨idle_invariant,nofun⟩ (fun s step => perform_faithful display) along)
  refine ⟨fun along before front => holds before (along_front along front),fun settled => ⟨fun reported => ?_,holds steps⟩⟩
  have outcome := along_or Invariant (fun s => ∃ sid, Spoiled (s.view sid)) (C:=Permitted) idle_invariant
    (fun s step invariant => perform_invariant display invariant step) (fun s step invariant unmet => ?_)
    (fun s step invariant spoiled => ?_) steps
  · exact outcome.resolve_right fun ⟨sid,spoiled⟩ => spoiled_unreported (run_invariant display steps).1 settled spoiled reported
  · obtain ⟨sid,not⟩ := not_forall.mp fun all => unmet (permitted_iff.mpr all)
    obtain ⟨met,move,same⟩ := perform_moves display invariant.known invariant.sound step sid
    exact ⟨sid,moves_spoils move fun held => not (same.mp held)⟩
  · obtain ⟨sid,bad⟩ := spoiled
    obtain ⟨met,move,same⟩ := perform_moves display invariant.known invariant.sound step sid
    exact ⟨sid,moves_spoiled move (invariant.sound sid) bad⟩

def clangd : Launch := ⟨true,none,(none,none),(none,none),none⟩

def first : Text := "lsp-0001".toList

def firstArgs : Json := .obj [("serverId".toList,.str first)]

-- The server answers the shutdown request, and its reader gets to its end before
-- the stop goes on.
def orderly : List Step :=
  [.start .null clangd,.note 0 [],.stop firstArgs,.ask none,.write first (frameMessage "{}".toList),.read first,.read first,.read first,
    .deliver first [],.exit first,.read first,.kill,.report [],.finish []]

def plain : Json → Text := fun _ => []

-- The server of the orderly run at its end.
def served : Server := ⟨frameMessage "{}".toList,[],frameMessage shutdownMsg,.returned,some .asked⟩

theorem orderly_permitted : Along (perform plain) idle Permitted orderly := by
  simp only [orderly,along_cons,Permitted,true_and]
  refine ⟨fun _ _ _ => by decide,fun sid server stopping found => ?_,along_nil⟩
  have same : some (first,Stage.waited) = some (sid,.waited) := stopping
  obtain rfl : first = sid := (Prod.mk.inj (Option.some.inj same)).1
  have there : some served = some server := by
    rw [← found]
    decide +kernel
  rw [← Option.some.inj there]
  rfl

theorem orderly_settled : Settled (run (perform plain) idle orderly) := by
  refine ⟨rfl,fun sid server found _ => ?_⟩
  obtain ⟨n,issued,rfl⟩ := (run_invariant plain orderly).1.known sid server found
  have count : (run (perform plain) idle orderly).counter = 1 := by decide +kernel
  rw [count] at issued
  obtain rfl | rfl : n = 0 ∨ n = 1 := by omega
  · have none : (run (perform plain) idle orderly).servers (serverId 0) = none := by decide +kernel
    cases none.symm.trans found
  · have there : (run (perform plain) idle orderly).servers (serverId 1) = some served := by decide +kernel
    rw [there] at found
    rw [← Option.some.inj found]
    rfl

theorem lsp_stopped_orderly : Always (perform plain) idle Reported orderly ∧ Reported (run (perform plain) idle orderly) ∧
    told first (run (perform plain) idle orderly).emitted = [.message "{}".toList,.stopped .shutdown] :=
  ⟨(lsp_stopped_iff plain orderly).1 orderly_permitted,((lsp_stopped_iff plain orderly).2 orderly_settled).mpr orderly_permitted,
    by decide +kernel⟩

-- A server that crashes, and is stopped afterwards.
def crashed : List Step := [.start .null clangd,.exit first,.read first]

def buried : List Step := crashed ++ [.stop firstArgs,.ask none,.kill,.report [],.finish []]

-- A message that is in the pipe when the server is stopped.
def overtaken : List Step :=
  [.start .null clangd,.write first (frameMessage "{}".toList),.stop firstArgs,.ask none,.kill,.report [],.read first,.read first,
    .read first,.deliver first []]

theorem lsp_stopped_missed :
    (told first (run (perform plain) idle crashed).emitted = [] ∧ first ∈ (run (perform plain) idle crashed).registry ∧
      ¬ Always (perform plain) idle Reported crashed) ∧
    (told first (run (perform plain) idle buried).emitted = [.stopped .shutdown] ∧ ¬ Always (perform plain) idle Reported buried) ∧
    (told first (run (perform plain) idle overtaken).emitted = [.stopped .shutdown,.message "{}".toList] ∧
      ¬ Always (perform plain) idle Reported overtaken) := by
  have silent : told first (run (perform plain) idle crashed).emitted = [] := by decide +kernel
  have shutdown : told first (run (perform plain) idle buried).emitted = [.stopped .shutdown] := by decide +kernel
  have late : told first (run (perform plain) idle overtaken).emitted = [.stopped .shutdown,.message "{}".toList] := by decide +kernel
  refine ⟨⟨silent,by decide +kernel,fun always => ?_⟩,⟨shutdown,fun always => ?_⟩,⟨late,fun always => ?_⟩⟩
  · have ended : (run (perform plain) idle crashed).servers first = some ⟨[],[],[],.returned,some .byItself⟩ := by decide +kernel
    obtain ⟨_,one,_⟩ := (always_last always first _ ended).reported .byItself rfl rfl rfl
    rw [silent] at one
    cases one
  · have ended : (run (perform plain) idle buried).servers first = some ⟨[],[],frameMessage shutdownMsg,.returned,some .byItself⟩ := by
      decide +kernel
    obtain ⟨_,one,right,_⟩ := (always_last always first _ ended).reported .byItself rfl rfl rfl
    rw [shutdown,right rfl] at one
    cases one
  · have ended : (run (perform plain) idle overtaken).servers first = some {served with reader:=.headers none} := by decide +kernel
    have final := (always_last always first _ ended).final
    rw [late] at final
    cases List.rel_of_pairwise_cons final (List.mem_singleton.mpr rfl) rfl

end PrincessIDE.LspServers
