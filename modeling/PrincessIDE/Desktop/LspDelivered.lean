import Mathlib.Data.List.Nodup
import PrincessIDE.Desktop.LspBridge

namespace PrincessIDE.LspBridge
open EventStore Bus Runs LspServers
open Utf8 (Text)

def Call.text (call : Call) : Text := textOf call.event

-- What the window owes the handlers of the bridge: each message of the server is
-- handed on in its turn, to every handler there is and not before there is one.
structure Delivered (w : World) : Prop where
  all : w.calls.map Call.text ++ w.own = w.owed
  reached : ∀ call ∈ w.calls, call.called = call.subscribed ∧ call.subscribed ≠ []
  once : ∀ call ∈ w.calls, call.subscribed.Nodup

def OwnOnly (w : World) : Prop := ∀ call ∈ w.calls, ∃ sid, w.started = some sid ∧ stringAt ["payload","serverId"] call.event = some sid

-- What a handler was called with.
def World.heard (w : World) (h : Handler) : List Text := w.calls.flatMap fun call => (call.called.filter (· = h)).map fun _ => call.text

theorem Delivered.heard_all (delivered : Delivered w) (there : ∀ call ∈ w.calls, h ∈ call.subscribed) :
    World.heard w h ++ w.own = w.owed := by
  have each : ∀ call ∈ w.calls, ((call.called.filter (· = h)).map fun _ => call.text) = [call.text] := by
    intro call member
    have one := List.count_eq_one_of_mem (delivered.once call member) (there call member)
    rw [(delivered.reached call member).1,List.filter_eq,one]
    rfl
  rw [← delivered.all,World.heard,List.flatMap_congr each,List.map_eq_flatMap]

-- No message of the server is sent before the listener is there, none is handed on
-- before there is a handler, none is on its way when the bridge is stopped, and
-- only the last handler throws.
def Kept (display : Json → Text) (w : World) : Step → Prop
  | .engine step => w.attached = true ∨ w.fresh (emittedBy w.shell (LspServers.perform display w.shell step)) = []
  | .publish body => w.attached = true ∨ w.fresh (emittedBy w.shell (published w.shell body)) = []
  | .dispatch throws => ∀ event ∈ w.coming.head?, isLspMessageEvent event w.bridge.serverId = true →
      w.bridge.handlers ≠ [] ∧ ∀ h ∈ w.bridge.handlers.dropLast, throws h = false
  | .stop => match w.progress with
    | .returned => w.own = []
    | _ => True
  | _ => True

-- The bridge has the id of the server that was started.
structure Live (serverId started : Option Text) (stopped : Bool) : Prop where
  known : serverId = started
  named : started.isSome
  running : stopped = false

def Placed (serverId : Option Text) (unlisten : Bool) (started : Option Text) (stopped : Bool) : Progress → Prop
  | .requested => started = none ∧ stopped = false ∧ unlisten = false
  | .answered reply => started = repliedId reply ∧ (succeeded reply = true → (repliedId reply).isSome) ∧ stopped = false ∧ unlisten = false
  | .listening => Live serverId started stopped
  | .registered => Live serverId started stopped
  | .returned => unlisten = true → Live serverId started stopped

structure Tidy (w : World) : Prop where
  distinct : w.bridge.handlers.Nodup
  quiet : w.attached = false → w.coming = []
  placed : Placed w.bridge.serverId w.bridge.unlisten w.started w.stopped w.progress
  own : OwnOnly w

theorem tidy_live (tidy : Tidy w) (attached : w.attached = true) : Live w.bridge.serverId w.started w.stopped := by
  have placed := tidy.placed
  unfold World.attached at attached
  cases progress : w.progress with
  | registered =>
    rw [progress] at placed
    exact placed
  | returned =>
    rw [progress] at placed attached
    exact placed attached
  | requested => rw [progress] at attached; cases attached
  | answered reply => rw [progress] at attached; cases attached
  | listening => rw [progress] at attached; cases attached

theorem tidy_session (tidy : Tidy w) (attached : w.attached = true) :
    ∃ sid, w.bridge.serverId = some sid ∧ w.started = some sid ∧ w.session = some sid := by
  have live := tidy_live tidy attached
  obtain ⟨sid,named⟩ := Option.isSome_iff_exists.mp live.named
  refine ⟨sid,live.known.trans named,named,?_⟩
  rw [World.session,live.running,if_neg Bool.false_ne_true,named]

theorem opened_tidy : Tidy opened := ⟨List.nodup_nil,fun _ => rfl,⟨rfl,rfl,rfl⟩,fun _ none => (nomatch none)⟩

section
variable (others : Payload → Json)

theorem emit_own (tidy : Tidy w) (events : List AnyEvent) :
    (w.emit others events).own = w.own ++ if w.attached then w.fresh events else [] := by
  unfold World.emit World.own
  dsimp only
  cases attached : w.attached with
  | false => simp
  | true =>
    obtain ⟨sid,known,_,session⟩ := tidy_session tidy attached
    rw [if_pos rfl,if_pos rfl,List.filterMap_append,World.fresh,session,known]
    exact congrArg _ (accept_told others sid events)

theorem emit_tidy (tidy : Tidy w) (events : List AnyEvent) : Tidy (w.emit others events) := by
  refine ⟨tidy.distinct,fun detached => ?_,tidy.placed,tidy.own⟩
  have before : w.attached = false := detached
  rw [World.emit,before]
  exact tidy.quiet before

theorem shell_tidy (tidy : Tidy w) (shell : Shell) : Tidy {w with shell:=shell} := ⟨tidy.distinct,tidy.quiet,tidy.placed,tidy.own⟩

theorem listened_server (listened : isLspMessageEvent event (some sid) = true) : stringAt ["payload","serverId"] event = some sid := by
  unfold isLspMessageEvent at listened
  split at listened
  · cases listened
  · split at listened
    · next other _ server _ =>
      have same : other = sid := of_decide_eq_true listened
      rw [server,same]
    · cases listened

theorem moved_tidy (tidy : Tidy w) (after : Shell) : Tidy (w.moved others after) := emit_tidy others (shell_tidy tidy after) _

variable (display : Json → Text) (options : Options)

theorem perform_tidy (tidy : Tidy w) (step : Step) : Tidy (perform others display options w step) := by
  obtain ⟨distinct,quiet,placed,own⟩ := id tidy
  cases step with
  | engine step => exact moved_tidy others tidy _
  | publish body => exact moved_tidy others tidy _
  | start launch =>
    rw [perform]
    split
    · next progress =>
      split
      · rw [progress] at placed
        have detached : w.attached = false := by rw [World.attached,progress]
        refine ⟨distinct,fun _ => quiet detached,⟨rfl,start_replied _ _ _,placed.2⟩,fun call member => ?_⟩
        obtain ⟨sid,started,_⟩ := own call member
        rw [placed.1] at started
        cases started
      · exact tidy
    · exact tidy
  | resume =>
    rw [perform]
    split
    · next reply progress =>
      rw [progress] at placed
      obtain ⟨started,named,running,unheard⟩ := placed
      have detached : w.attached = false := by rw [World.attached,progress]
      refine ⟨distinct,fun _ => quiet detached,?_,own⟩
      dsimp only
      split
      · next listens => exact ⟨started.symm,started ▸ named (Bool.and_eq_true_iff.mp listens).1,running⟩
      · intro unlisten
        cases unheard.symm.trans unlisten
    · exact tidy
  | attach =>
    rw [perform]
    split
    · next progress =>
      rw [progress] at placed
      exact ⟨distinct,nofun,placed,own⟩
    · exact tidy
  | settle =>
    rw [perform]
    split
    · next progress =>
      rw [progress] at placed
      exact ⟨distinct,nofun,fun _ => ⟨placed.known,placed.named,placed.running⟩,own⟩
    · exact tidy
  | dispatch throws =>
    rw [perform]
    split
    · next event rest coming =>
      have attached : w.attached = true := by
        cases attached : w.attached with
        | true => rfl
        | false => cases coming.symm.trans (quiet attached)
      obtain ⟨sid,known,started,_⟩ := tidy_session tidy attached
      refine ⟨distinct,fun detached => ?_,placed,?_⟩
      · cases attached.symm.trans detached
      · dsimp only [OwnOnly]
        split
        · next listened =>
          rw [known] at listened
          intro call member
          rcases List.mem_append.mp member with earlier | last
          · exact own call earlier
          · rw [List.mem_singleton.mp last]
            exact ⟨sid,started,listened_server listened⟩
        · exact own
    · exact tidy
  | subscribe h =>
    rw [perform,World.held]
    split
    · unfold Bridge.subscribe
      split
      · exact tidy
      · next absent =>
        have new : h ∉ w.bridge.handlers := fun member => absent (List.contains_iff_mem.mpr member)
        exact ⟨List.nodup_append_comm.mp (List.nodup_cons.mpr ⟨new,distinct⟩),quiet,placed,own⟩
    · exact tidy
  | unsubscribe h =>
    rw [perform,World.held]
    split
    · exact ⟨distinct.filter _,quiet,placed,own⟩
    · exact tidy
  | stop =>
    rw [perform,World.held]
    split
    · next progress => exact ⟨distinct,fun _ => rfl,by rw [progress]; nofun,own⟩
    · exact tidy

end

-- What a step does to the messages, and when nothing is lost by it.
inductive Moves (w v : World) : Prop → Prop where
  | idle : v.calls = w.calls → v.own = w.own → v.owed = w.owed → Moves w v True
  | emitted (texts : List Text) : v.calls = w.calls → v.own = w.own ++ (if w.attached then texts else []) → v.owed = w.owed ++ texts →
      Moves w v (w.attached = true ∨ texts = [])
  | handed (event : Json) (throws : Handler → Bool) : w.own = textOf event :: v.own →
      v.calls = w.calls ++ [⟨event,w.bridge.handlers,called throws w.bridge.handlers⟩] → v.owed = w.owed →
      Moves w v (w.bridge.handlers ≠ [] ∧ ∀ h ∈ w.bridge.handlers.dropLast, throws h = false)
  | dropped : v.calls = w.calls → v.own = [] → v.owed = w.owed → Moves w v (w.own = [])

theorem moves_delivered (move : Moves w v met) (here : met) (distinct : w.bridge.handlers.Nodup) (delivered : Delivered w) : Delivered v := by
  obtain ⟨all,reached,once⟩ := delivered
  cases move with
  | idle calls own owed => exact ⟨by rw [calls,own,owed,all],calls ▸ reached,calls ▸ once⟩
  | emitted texts calls own owed =>
    refine ⟨?_,calls ▸ reached,calls ▸ once⟩
    have sent : (if w.attached then texts else []) = texts := by
      rcases here with attached | none
      · exact if_pos attached
      · rw [none,ite_self]
    rw [calls,own,owed,sent,← List.append_assoc,all]
  | handed event throws own calls owed =>
    refine ⟨?_,?_,?_⟩
    · rw [calls,List.map_append,List.append_assoc,owed,← all,own]
      rfl
    · rw [calls]
      exact List.forall_mem_append.mpr ⟨reached,List.forall_mem_singleton.mpr ⟨called_all.mpr here.2,here.1⟩⟩
    · rw [calls]
      exact List.forall_mem_append.mpr ⟨once,List.forall_mem_singleton.mpr distinct⟩
  | dropped calls own owed => exact ⟨by rw [calls,own,owed,← all,here],calls ▸ reached,calls ▸ once⟩

theorem moves_breaks (move : Moves w v met) (unmet : ¬ met) (delivered : Delivered w) : ¬ Delivered v := by
  intro still
  have all := delivered.all
  have after := still.all
  cases move with
  | idle calls own owed => exact unmet trivial
  | emitted texts calls own owed =>
    obtain ⟨detached,some⟩ := not_or.mp unmet
    rw [calls,own,owed,if_neg detached,List.append_nil,all] at after
    exact some (List.self_eq_append_right.mp after)
  | handed event throws own calls owed =>
    have last := still.reached _ (calls ▸ List.mem_append_right _ (List.mem_singleton.mpr rfl))
    exact unmet ⟨last.2,called_all.mp last.1⟩
  | dropped calls own owed =>
    rw [calls,own,owed,← all] at after
    exact unmet (List.append_cancel_left after).symm

section
variable (others : Payload → Json) (display : Json → Text) (options : Options)

theorem moved_moves (tidy : Tidy w) (after : Shell) :
    Moves w (w.moved others after) (w.attached = true ∨ w.fresh (emittedBy w.shell after) = []) :=
  .emitted _ rfl (emit_own others (shell_tidy tidy after) _) rfl

theorem perform_moves (tidy : Tidy w) (step : Step) :
    ∃ met, Moves w (perform others display options w step) met ∧ (met ↔ Kept display w step) := by
  have same : Moves w w True := .idle rfl rfl rfl
  cases step with
  | engine step => exact ⟨_,moved_moves others tidy _,Iff.rfl⟩
  | publish body => exact ⟨_,moved_moves others tidy _,Iff.rfl⟩
  | start launch =>
    refine ⟨True,?_,Iff.rfl⟩
    rw [perform]
    split
    · split
      · exact .idle rfl rfl rfl
      · exact same
    · exact same
  | resume =>
    refine ⟨True,?_,Iff.rfl⟩
    rw [perform]
    split
    · next reply progress =>
      have none : w.coming = [] := tidy.quiet (by rw [World.attached,progress])
      exact .idle rfl (by rw [World.own,World.own,none]; rfl) rfl
    · exact same
  | attach =>
    refine ⟨True,?_,Iff.rfl⟩
    rw [perform]
    split
    · exact .idle rfl rfl rfl
    · exact same
  | settle =>
    refine ⟨True,?_,Iff.rfl⟩
    rw [perform]
    split
    · exact .idle rfl rfl rfl
    · exact same
  | dispatch throws =>
    rw [perform]
    unfold Kept
    split
    · next event rest coming =>
      rw [coming]
      cases listened : isLspMessageEvent event w.bridge.serverId with
      | true =>
        refine ⟨_,.handed event throws ?_ rfl rfl,?_⟩
        · rw [World.own,coming,List.filterMap_cons,accept,if_pos listened]
          rfl
        · simp [listened]
      | false =>
        refine ⟨True,.idle rfl ?_ rfl,?_⟩
        · rw [World.own,World.own,coming,List.filterMap_cons,accept,listened]
          rfl
        · simp [listened]
    · next coming =>
      rw [coming]
      exact ⟨True,same,by simp⟩
  | subscribe h =>
    refine ⟨True,?_,Iff.rfl⟩
    rw [perform,World.held]
    split
    · unfold Bridge.subscribe
      split <;> exact .idle rfl rfl rfl
    · exact same
  | unsubscribe h =>
    refine ⟨True,?_,Iff.rfl⟩
    rw [perform,World.held]
    split
    · exact .idle rfl rfl rfl
    · exact same
  | stop =>
    cases progress : w.progress with
    | returned =>
      refine ⟨w.own = [],?_,by rw [Kept,progress]⟩
      rw [perform,World.held,progress]
      exact .dropped rfl rfl rfl
    | _ =>
      refine ⟨True,?_,by rw [Kept,progress]⟩
      rw [perform,World.held,progress]
      exact same

theorem delivered_iff (steps : List Step) :
    Always (perform others display options) opened OwnOnly steps ∧
      (Always (perform others display options) opened Delivered steps ↔ Along (perform others display options) opened (Kept display) steps) := by
  have tidy : ∀ w step, Tidy w → Tidy (perform others display options w step) := fun w step here => perform_tidy others display options here step
  refine ⟨always_kept Tidy OwnOnly opened_tidy (fun w here => here.own) tidy steps,?_⟩
  refine always_iff (fun w => Tidy w ∧ Delivered w) Delivered (Kept display) ⟨opened_tidy,⟨rfl,nofun,nofun⟩⟩ (fun w here => here.2) ?_ ?_ steps
  · intro w step here kept
    obtain ⟨met,move,same⟩ := perform_moves others display options here.1 step
    exact ⟨tidy w step here.1,moves_delivered move (same.mpr kept) here.1.distinct here.2⟩
  · intro w step here unkept
    obtain ⟨met,move,same⟩ := perform_moves others display options here.1 step
    exact moves_breaks move (fun held => unkept (same.mp held)) here.2

end

def launched : Launch := ⟨true,none,(none,none),(none,none),none⟩

def greeting : Text := "\x7b\"method\":\"language/status\"\x7d".toList

def hello : Text := "lsp-0001".toList

-- The server speaks before the window has its id, and the client subscribes as
-- soon as it has the bridge.
def early : List Step := [.start launched,.engine (.write hello (Lsp.frameMessage greeting)),.engine (.read hello),.engine (.read hello),
  .engine (.read hello),.engine (.deliver hello []),.resume,.attach,.settle,.subscribe 0]

def performed : World → Step → World := perform (fun _ => .null) (fun _ => []) ⟨['.'],true⟩

theorem early_lost : (run performed opened early).bridge.handlers = [0] ∧ (run performed opened early).owed = [greeting] ∧
    (run performed opened early).calls.length = 0 ∧ (run performed opened early).own = [] ∧ ¬ Always performed opened Delivered early := by
  have owed : (run performed opened early).owed = [greeting] := by decide +kernel
  have calls : (run performed opened early).calls.length = 0 := by decide +kernel
  have own : (run performed opened early).own = [] := by decide +kernel
  refine ⟨by decide +kernel,owed,calls,own,fun always => ?_⟩
  have all := (always_last always).all
  rw [own,owed,List.eq_nil_of_length_eq_zero calls] at all
  cases all

end PrincessIDE.LspBridge
