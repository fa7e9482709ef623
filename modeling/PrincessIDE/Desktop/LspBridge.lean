import PrincessIDE.Desktop.LspView

namespace PrincessIDE.LspBridge
open EventStore Bus Runs LspServers
open Utf8 (Text)

-- What `app.emit` sends: only the payload of a message is spelled out, and no
-- part of the engine publishes an event of an unknown kind.
def payloadJson (others : Payload → Json) : Payload → Json
  | .lspMessage serverId message => .obj [("serverId".toList,.str serverId),("message".toList,.str message)]
  | .unhandled _ => .null
  | payload => others payload

def envelopeJson (others : Payload → Json) (env : AnyEvent) : Json := .obj
  [("v".toList,.int env.v),("seq".toList,.int env.seq),("ts".toList,.str env.ts),("opId".toList,env.opId.elim .null .str),
    ("kind".toList,.str env.payload.kind),("payload".toList,payloadJson others env.payload)]

def stringAt (path : List String) (value : Json) : Option Text := (value.pointer path).bind Json.asStr

def isLspMessageEvent (event : Json) (serverId : Option Text) : Bool :=
  if stringAt ["kind"] event ≠ some "lsp.message".toList then false
  else match stringAt ["payload","serverId"] event,stringAt ["payload","message"] event with
    | some sid,some _ => serverId.all (sid = ·)
    | _,_ => false

def textOf (event : Json) : Text := (stringAt ["payload","message"] event).getD []

-- The text that a listener hands on of an event.
def accept (serverId : Option Text) (event : Json) : Option Text :=
  if isLspMessageEvent event serverId then some (textOf event) else none

-- A function, by its identity.
abbrev Handler := Nat

-- `IpcLspBridge`: of `unlisten` it is only known whether it is there.
structure Bridge where
  handlers : List Handler
  serverId : Option Text
  unlisten : Bool
deriving DecidableEq, Repr

namespace Bridge

def constructed : Bridge := ⟨[],none,false⟩

def subscribe (b : Bridge) (h : Handler) : Bridge := if b.handlers.contains h then b else {b with handlers:=b.handlers ++ [h]}

def unsubscribe (b : Bridge) (h : Handler) : Bridge := {b with handlers:=b.handlers.filter (· != h)}

def stop (b : Bridge) : Bridge := {b with serverId:=none,unlisten:=false}

end Bridge

-- The loop over the handlers: one that throws is the last that is called.
def called (throws : Handler → Bool) : List Handler → List Handler
  | [] => []
  | h :: rest => if throws h then [h] else h :: called throws rest

structure Options where
  projectRoot : Text
  listens : Bool
deriving DecidableEq, Repr

-- How far `IpcLspBridge.start` is: its request is on the way, or the reply; the
-- listener is asked for, or there, and then the promise of it is yet to come.
inductive Progress where
  | requested
  | answered (reply : Json)
  | listening
  | registered
  | returned

-- The handlers of the bridge when an event was handed on, and those it reached.
structure Call where
  event : Json
  subscribed : List Handler
  called : List Handler

-- The engine and the window. `coming` are the events for the listener that it
-- has not been called with. What was called, the id that the request returned,
-- whether it was stopped and the messages between are kept for what is said of runs.
structure World where
  shell : Shell
  progress : Progress
  bridge : Bridge
  coming : List Json
  calls : List Call
  started : Option Text
  stopped : Bool
  owed : List Text

def opened : World := ⟨idle,.requested,.constructed,[],[],none,false,[]⟩

namespace World

def attached (w : World) : Bool := match w.progress with
  | .registered => true
  | .returned => w.bridge.unlisten
  | _ => false

def session (w : World) : Option Text := if w.stopped then none else w.started

-- The messages among events that the window should get.
def fresh (w : World) (events : List AnyEvent) : List Text := w.session.elim [] fun sid => messages (told sid events)

-- What is on its way to the handlers.
def own (w : World) : List Text := w.coming.filterMap (accept w.bridge.serverId)

-- A listener that is there is called with every event in its turn.
def emit (others : Payload → Json) (w : World) (events : List AnyEvent) : World := {w with
  coming:=if w.attached then w.coming ++ events.map (envelopeJson others) else w.coming
  owed:=w.owed ++ w.fresh events}

end World

def startArgs (options : Options) : Json := .obj [("projectRoot".toList,.str options.projectRoot)]

def succeeded (reply : Json) : Bool := (reply.get "ok").bind Json.asBool = some true

def repliedId (reply : Json) : Option Text := if succeeded reply then stringAt ["data","serverId"] reply else none

def published (s : Shell) (body : Body) : Shell :=
  let (bus,env) := s.bus.envelope body
  {s with bus:=bus,emitted:=s.emitted ++ [env]}

def emittedBy (s after : Shell) : List AnyEvent := after.emitted.drop s.emitted.length

-- A step of the language servers and their handlers, an event of another part of
-- the engine, or a step of the window. The engine has its part of `stop` as a
-- step of its own.
inductive Step where
  | engine (step : LspServers.Step)
  | publish (body : Body)
  | start (launch : Launch)
  | resume
  | attach
  | settle
  | dispatch (throws : Handler → Bool)
  | subscribe (h : Handler)
  | unsubscribe (h : Handler)
  | stop

section
variable (others : Payload → Json) (display : Json → Text) (options : Options)

def World.moved (w : World) (after : Shell) : World := World.emit others {w with shell:=after} (emittedBy w.shell after)

-- The caller has the bridge, and can subscribe and stop, when `start` has returned it.
def World.held (w : World) (change : World → World) : World := match w.progress with
  | .returned => change w
  | _ => w

def perform (w : World) : Step → World
  | .engine step => w.moved others (LspServers.perform display w.shell step)
  | .publish body => w.moved others (published w.shell body)
  | .start launch => match w.progress with
    | .requested =>
      if w.shell.stopping = none then
        let (shell,reply) := lspStart w.shell (startArgs options) launch
        {w with shell:=shell,progress:=.answered reply,started:=repliedId reply}
      else w
    | _ => w
  | .resume => match w.progress with
    | .answered reply => {w with
        bridge:={w.bridge with serverId:=repliedId reply}
        progress:=if succeeded reply && options.listens then .listening else .returned}
    | _ => w
  | .attach => match w.progress with
    | .listening => {w with progress:=.registered}
    | _ => w
  | .settle => match w.progress with
    | .registered => {w with progress:=.returned,bridge:={w.bridge with unlisten:=true}}
    | _ => w
  | .dispatch throws => match w.coming with
    | event :: rest => {w with
        coming:=rest
        calls:=if isLspMessageEvent event w.bridge.serverId then
          w.calls ++ [⟨event,w.bridge.handlers,called throws w.bridge.handlers⟩] else w.calls}
    | [] => w
  | .subscribe h => w.held fun w => {w with bridge:=w.bridge.subscribe h}
  | .unsubscribe h => w.held fun w => {w with bridge:=w.bridge.unsubscribe h}
  -- `unlisten` takes the listener away at once, with all that it was yet to be called with
  | .stop => w.held fun w => {w with bridge:=w.bridge.stop,coming:=[],stopped:=true}

end

theorem kind_message {payload : Payload} (same : payload.kind = "lsp.message".toList) :
    match payload with | .lspMessage .. | .unhandled _ => True | _ => False := by
  cases payload with
  | lspMessage => trivial
  | unhandled => trivial
  | _ => exact absurd (String.toList_injective same) (by decide)

theorem accept_other (others : Payload → Json) {env : AnyEvent} (kind : env.payload.kind ≠ "lsp.message".toList) (sid : Option Text) :
    accept sid (envelopeJson others env) = none := by
  have named : stringAt ["kind"] (envelopeJson others env) = some env.payload.kind := rfl
  have other : stringAt ["kind"] (envelopeJson others env) ≠ some "lsp.message".toList := by
    rw [named]
    exact fun same => kind (Option.some.inj same)
  rw [accept,isLspMessageEvent,if_pos other]
  rfl

-- The listener of a server takes its messages and nothing else.
theorem accept_envelope (others : Payload → Json) (env : AnyEvent) (sid : Text) :
    accept (some sid) (envelopeJson others env) = (LspServers.tell sid env.payload).bind Told.text := by
  obtain ⟨v,seq,ts,opId,payload⟩ := env
  cases payload with
  | lspMessage serverId message =>
    have listened : isLspMessageEvent (envelopeJson others ⟨v,seq,ts,opId,.lspMessage serverId message⟩) (some sid) = decide (serverId = sid) := rfl
    have text : textOf (envelopeJson others ⟨v,seq,ts,opId,.lspMessage serverId message⟩) = message := rfl
    rw [accept,listened,text]
    by_cases same : serverId = sid <;> simp [LspServers.tell,same,Told.text]
  | unhandled kind =>
    have empty : stringAt ["payload","serverId"] (envelopeJson others ⟨v,seq,ts,opId,.unhandled kind⟩) = none := rfl
    have silent : isLspMessageEvent (envelopeJson others ⟨v,seq,ts,opId,.unhandled kind⟩) (some sid) = false := by
      rw [isLspMessageEvent,empty]
      split <;> rfl
    rw [accept,silent]
    rfl
  | lspStopped serverId reason =>
    rw [accept_other others kind_message]
    by_cases same : serverId = sid <;> simp [LspServers.tell,same,Told.text]
  | _ => exact accept_other others kind_message _

theorem accept_told (others : Payload → Json) (sid : Text) (events : List AnyEvent) :
    (events.map (envelopeJson others)).filterMap (accept (some sid)) = messages (told sid events) := by
  rw [List.filterMap_map,messages,told,List.filterMap_filterMap]
  exact List.filterMap_congr fun env _ => accept_envelope others env sid

-- A reply that reports a server has its id.
theorem start_replied (s : Shell) (args : Json) (launch : Launch) (ok : succeeded (lspStart s args launch).2 = true) :
    (repliedId (lspStart s args launch).2).isSome := by
  rw [repliedId,if_pos ok]
  revert ok
  unfold lspStart
  cases launch.isDir with
  | false => nofun
  | true => cases launch.failed with
    | some e => nofun
    | none => exact fun _ => rfl

theorem called_all {throws : Handler → Bool} {hs : List Handler} : called throws hs = hs ↔ ∀ h ∈ hs.dropLast, throws h = false := by
  induction hs with
  | nil => simp [called]
  | cons h rest ih =>
    cases rest with
    | nil =>
      rw [called]
      split <;> simp [called]
    | cons next rest =>
      rw [called,List.dropLast_cons_cons,List.forall_mem_cons,← ih]
      cases throws h with
      | true => simp
      | false => simp

end PrincessIDE.LspBridge
