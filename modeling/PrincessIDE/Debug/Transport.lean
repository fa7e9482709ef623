import PrincessIDE.Foundation.Effect
import PrincessIDE.Foundation.Loop
import PrincessIDE.Foundation.Str
import PrincessIDE.Core.Error
import PrincessIDE.Core.Json

namespace PrincessIDE.Dap
open Utf8 Str Error Effect Loop

inductive Incoming where
  | response (requestSeq : Int) (message : Json)
  | event (value : Json)
  | closed (reason : Text)

-- One item the reader thread gets off the adapter's stdout: a message, or what
-- makes it stop (the end of the stream, a frame that is broken or no JSON).
inductive Frame where
  | message (value : Json)
  | stop (reason : Text)

-- A message that is neither an event nor the answer to a request is passed over.
def classify (value : Json) : Option Incoming :=
  if (value.get "type").bind Json.asStr = some "event".toList then some (.event value)
  else ((value.get "request_seq").bind Json.asI64).map fun seq => .response seq value

-- What the channel carries has its place in the order of arrival, which no code
-- looks at.
structure Parcel where
  arrival : Nat
  incoming : Incoming

structure Message where
  arrival : Nat
  value : Json

def Message.name (message : Message) : Option Text := (message.value.get "event").bind Json.asStr

structure Request where
  seq : Int
  command : Text
  arguments : Option Json
  arrived : Nat

-- `queue` is what the channel holds, and `readerGone` that its sender is
-- dropped. The last three fields record what the reader sent, what was written
-- to the adapter (with the number of parcels sent by then), and how much had been
-- written when the session on this transport was poisoned.
structure Transport where
  command : Text
  queue : List Parcel
  readerGone : Bool
  early : Int → Option Message
  events : List Message
  nextSeq : Int
  defaultTimeout : Nat
  closed : Option Text
  delivered : List Parcel
  written : List Request
  poisonedAt : Option Nat

-- How a call into the system fails: the file is not there, some other error, or
-- a process that was started and did not come up.
inductive Failure where
  | notFound (text : Text)
  | other (text : Text)
  | notReady (text : Text)
deriving DecidableEq, Repr

def Failure.text : Failure → Text
  | .notFound text | .other text | .notReady text => text

-- The surroundings at one point of an operation: what reaches the reader before
-- it, whether the deadline has passed, and how a call into the system fails.
structure Tick where
  frames : List Frame
  expired : Bool
  failure : Option Failure

-- After the given ticks nothing arrives any more and every deadline has passed.
def Tick.last : Tick := ⟨[],true,none⟩

namespace Transport

def isClosed (t : Transport) : Bool := t.closed.isSome

def push (incoming : Incoming) (t : Transport) : Transport :=
  let parcel : Parcel := ⟨t.delivered.length,incoming⟩
  {t with queue:=t.queue ++ [parcel], delivered:=t.delivered ++ [parcel]}

def hear (t : Transport) (frame : Frame) : Transport :=
  if t.readerGone then t
  else match frame with
    | .stop reason => {t.push (.closed reason) with readerGone:=true}
    | .message value => match classify value with
      | some incoming => t.push incoming
      | none => t

def reach (tick : Tick) (t : Transport) : Transport := tick.frames.foldl hear t

def stash (seq : Int) (message : Message) (t : Transport) : Transport :=
  {t with early:=fun s => if s = seq then some message else t.early s}

def unstash (seq : Int) (t : Transport) : Transport :=
  {t with early:=fun s => if s = seq then none else t.early s}

def closedError (t : Transport) (reason : Text) : PrincessError :=
  (PrincessError.new .qemuFailed "the debug adapter terminated while the engine was talking to it".toList).withDetail
    (t.command ++ "\n".toList ++ reason)

def writeError (t : Transport) (command : Text) (failure : Failure) : PrincessError :=
  (PrincessError.internal ("could not write the ".toList ++ command ++ " request to the adapter".toList)).withDetail
    (t.command ++ "\n".toList ++ failure.text)

end Transport

structure Loss where
  command : Text
  code : ErrorCode
deriving DecidableEq, Repr

-- `lost` records the requests that ended without a response.
structure Session where
  transport : Transport
  ticks : List Tick
  lost : List Loss

abbrev Wire (α : Type) := Action Session PrincessError α

def Session.alter (f : Transport → Transport) (s : Session) : Session := {s with transport:=f s.transport}

-- The `Debug` text of a `Duration`, given in milliseconds.
def durationText (ms : Nat) : Text :=
  if ms = 0 then "0ns".toList
  else if ms < 1000 then decimal ms ++ "ms".toList
  else
    let fraction := (decimal (1000+ms%1000)).drop 1
    let digits := (fraction.reverse.dropWhile (· = '0')).reverse
    decimal (ms/1000) ++ (if digits = [] then [] else '.' :: digits) ++ "s".toList

def seqText (seq : Int) : Text := if seq < 0 then '-' :: decimal seq.natAbs else decimal seq.natAbs

def nextTick : Wire Tick := fun s => match s.ticks with
  | [] => .ok .last (s.alter (·.reach .last))
  | tick :: rest => .ok tick {s with transport:=s.transport.reach tick, ticks:=rest}

def send (command : Text) (arguments : Option Json) : Wire Int := do
  let t := (← get).transport
  match t.closed with
  | some reason => throw (t.closedError reason)
  | none =>
    let seq := t.nextSeq
    modify (·.alter fun t => {t with nextSeq:=seq+1})
    let tick ← nextTick
    match tick.failure with
    | some failure => throw (t.writeError command failure)
    | none =>
      modify (·.alter fun t => {t with written:=t.written ++ [⟨seq,command,arguments,t.delivered.length⟩]})
      return seq

-- A loop over the surroundings; when they end, over as many last ones as it
-- takes to empty the channel.
def wait (turn : Transport → Tick → Turn Transport ρ) (idle : ρ) (s : Session) : ρ × Session :=
  match loop turn s.transport s.ticks with
  | (some result,t,rest) => (result,{s with transport:=t, ticks:=rest})
  | (none,t,_) => match loop turn t (.replicate (t.queue.length+1) .last) with
    | (result,t,_) => (result.getD idle,{s with transport:=t, ticks:=[]})

def timedOut (t : Transport) (seq : Int) (timeout : Nat) : PrincessError :=
  (PrincessError.new .timeout ("timed out after ".toList ++ durationText timeout ++
    " waiting for the DAP response to seq ".toList ++ seqText seq)).withDetail t.command

def responseTurn (seq : Int) (timeout : Nat) (t : Transport) (tick : Tick) : Turn Transport (Except PrincessError Message) :=
  let t := t.reach tick
  match t.early seq with
  | some response => .leave (.ok response) (t.unstash seq)
  | none =>
    if tick.expired then .leave (.error (timedOut t seq timeout)) t
    else match t.queue with
      | [] =>
        let reason := "debug adapter reader thread stopped".toList
        if t.readerGone then .leave (.error (t.closedError reason)) {t with closed:=some reason} else .next t
      | ⟨arrival,.response requestSeq message⟩ :: rest =>
        let t := {t with queue:=rest}
        if requestSeq = seq then .leave (.ok ⟨arrival,message⟩) t else .next (t.stash requestSeq ⟨arrival,message⟩)
      | ⟨arrival,.event event⟩ :: rest => .next {t with queue:=rest, events:=t.events ++ [⟨arrival,event⟩]}
      | ⟨_,.closed reason⟩ :: rest => .leave (.error (t.closedError reason)) {t with queue:=rest, closed:=some reason}

def waitResponse (seq : Int) (timeout : Nat) : Wire Message := fun s =>
  match s.transport.early seq with
  | some response => .ok response (s.alter (·.unstash seq))
  | none => match wait (responseTurn seq timeout) (.error (timedOut s.transport seq timeout)) s with
    | (.ok response,s) => .ok response s
    | (.error e,s) => .error e s

def takeEvents : Wire (List Message) := fun s => .ok s.transport.events (s.alter fun t => {t with events:=[]})

def named (name : Text) (message : Message) : Bool := message.name = some name

-- Past the deadline the channel is only swept; before it a message is waited for.
def eventTurn (name : Text) (t : Transport) (tick : Tick) : Turn Transport (Except PrincessError (Option Message)) :=
  let t := t.reach tick
  match t.queue with
  | [] => if tick.expired || t.readerGone then .leave (.ok none) t else .next t
  | ⟨arrival,.event event⟩ :: rest =>
    let t := {t with queue:=rest}
    if named name ⟨arrival,event⟩ then .leave (.ok (some ⟨arrival,event⟩)) t
    else .next {t with events:=t.events ++ [⟨arrival,event⟩]}
  | ⟨arrival,.response requestSeq message⟩ :: rest => .next ({t with queue:=rest}.stash requestSeq ⟨arrival,message⟩)
  | ⟨_,.closed reason⟩ :: rest =>
    if tick.expired then .leave (.ok none) {t with queue:=rest}
    else .leave (.error (t.closedError reason)) {t with queue:=rest, closed:=some reason}

def waitEvent (name : Text) : Wire (Option Message) := fun s =>
  match s.transport.events.find? (named name) with
  | some event => .ok (some event) (s.alter fun t => {t with events:=t.events.eraseP (named name)})
  | none => match wait (eventTurn name) (.ok none) s with
    | (.ok found,s) => .ok found s
    | (.error e,s) => .error e s

-- The request whose loss is on record.
def watched (command : Text) (x : Wire α) : Wire α := fun s => match x s with
  | .ok a s => .ok a s
  | .error e s => .error e {s with lost:=s.lost ++ [⟨command,e.code⟩]}

def requestWithin (command : Text) (arguments : Option Json) (timeout : Nat) : Wire Json := watched command do
  let seq ← send command arguments
  let response ← waitResponse seq timeout
  return response.value

def request (command : Text) (arguments : Option Json) : Wire Json := do
  requestWithin command arguments (← get).transport.defaultTimeout

def spawned (command : Text) : Transport where
  command := command
  queue := []
  readerGone := false
  early _ := none
  events := []
  nextSeq := 1
  defaultTimeout := 30000
  closed := none
  delivered := []
  written := []
  poisonedAt := none

end PrincessIDE.Dap
