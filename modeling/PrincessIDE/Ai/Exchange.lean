import PrincessIDE.Ai.Http
import PrincessIDE.Ai.Sse
import PrincessIDE.Core.Event

namespace PrincessIDE.Ai
open Utf8 (Text Bytes lossy encode)
open Str Error Event Effect Sse
open Http (HttpResponse Failure OnBody Arrival readResponseWith forTransport)

structure ChunkDelta where
  content : Option Text
deriving DecidableEq, Repr

structure ChunkChoice where
  delta : Option ChunkDelta
  text : Option Text
deriving DecidableEq, Repr

structure StreamUsage where
  promptTokens : Nat
  completionTokens : Nat
  totalTokensField : Nat
deriving DecidableEq, Repr

structure ChatCompletionChunk where
  choices : List ChunkChoice
  usage : Option StreamUsage
deriving DecidableEq, Repr

-- `serde_json::from_str` of a payload, or what it complains of.
abbrev ParseChunk := Text → Except Text ChatCompletionChunk

-- The sum of two counts beyond 64 bits is a panic where the build checks for
-- overflow, and wraps where it does not.
def StreamUsage.total (overflowChecks : Bool) (u : StreamUsage) : Option Nat :=
  if u.totalTokensField ≠ 0 then some u.totalTokensField
  else if u.promptTokens + u.completionTokens < u64 then some (u.promptTokens + u.completionTokens)
  else if overflowChecks then none
  else some ((u.promptTokens + u.completionTokens) % u64)

def StreamUsage.toAiUsage (overflowChecks : Bool) (u : StreamUsage) : Option AiUsage :=
  (u.total overflowChecks).map fun total => ⟨u.promptTokens,u.completionTokens,total⟩

def choiceText (choice : ChunkChoice) : Text :=
  (choice.delta.bind ChunkDelta.content).getD [] ++ choice.text.getD []

def chunkText (chunk : ChatCompletionChunk) : Option Text :=
  let out := chunk.choices.flatMap choiceText
  if out = [] then none else some out

-- What the callback finds in one event of the stream.
inductive Finding where
  | done
  | unparsed (complaint : Text)
  | chunk (usage : Option StreamUsage) (text : Option Text)
deriving DecidableEq, Repr

def finding (parseChunk : ParseChunk) : SseEvent → Finding
  | .done => .done
  | .data payload => match parseChunk payload with
    | .error complaint => .unparsed complaint
    | .ok chunk => .chunk chunk.usage (chunkText chunk)

def forCancelled (requestId : Text) : PrincessError := .new .cancelled ("AI request ".toList ++ requestId ++ " was cancelled".toList)

def cancelled (opId : Text) : PrincessError := .new .cancelled ("operation ".toList ++ opId ++ " was cancelled".toList)

-- Which error a cancelled exchange ends with depends on whether the token is set.
def cancelledError (token : Bool) (requestId : Text) : PrincessError :=
  if token then cancelled requestId else forCancelled requestId

def detailLimit : Nat := 2048

-- The longest front of a text that has at most so many bytes.
def takeBytes (limit : Nat) : Text → Text
  | [] => []
  | c :: rest => if (encode [c]).length ≤ limit then c :: takeBytes (limit - (encode [c]).length) rest else []

def truncateForDetail (body : Text) : Text :=
  let trimmed := trim body
  if (encode trimmed).length ≤ detailLimit then trimmed
  else takeBytes detailLimit trimmed ++ "… [".toList ++ decimal (encode trimmed).length ++ " bytes total]".toList

def statusMessage (status : Nat) : ErrorCode × Text :=
  let http := "(HTTP ".toList ++ decimal status ++ ")".toList
  if status = 401 ∨ status = 403 then (.aiUnavailable,"AI provider rejected the credentials ".toList ++ http)
  else if status = 404 then (.aiUnavailable,"AI provider endpoint not found ".toList ++ http ++ "; check \x60[ai].base_url\x60".toList)
  else if status = 408 then (.timeout,"AI provider timed out the request ".toList ++ http)
  else if status = 429 then (.aiUnavailable,"AI provider rate-limited the request ".toList ++ http)
  else if 500 ≤ status ∧ status < 600 then (.aiUnavailable,"AI provider failed server-side ".toList ++ http)
  else (.aiUnavailable,"AI provider returned an unexpected status ".toList ++ http)

def forHttpStatus (status : Nat) (body : Text) : PrincessError :=
  let (code,message) := statusMessage status
  (PrincessError.new code message).withDetail (truncateForDetail body)

def isSuccess (response : HttpResponse) : Bool := 200 ≤ response.status ∧ response.status < 300

-- What an exchange is given and does not change: the parser of payloads, `{:?}` of
-- a text, how the build adds, the sink and the id of the request.
structure Setting where
  parseChunk : ParseChunk
  quoted : Text → Text
  overflowChecks : Bool
  sink : Sink
  requestId : Text

-- The locals of `exchange`, with the events that the sink took.
structure Stage where
  decoder : SseDecoder
  usage : AiUsage
  sawContent : Bool
  sawDone : Bool
  panicked : Bool
  events : List EventBody
deriving DecidableEq, Repr

def Stage.start (events : List EventBody) : Stage := ⟨.new,⟨0,0,0⟩,false,false,false,events⟩

abbrev Staged := Action Stage PrincessError

def sending (x : Action (List EventBody) PrincessError Unit) : Staged Unit :=
  zoom Stage.events (fun events s => {s with events:=events}) x

-- Stands for the panic of an addition; `exchange` tells it from an error.
def overflowed : PrincessError := .internal "attempt to add with overflow".toList

def takeUsage (k : Setting) : Option StreamUsage → Staged Unit
  | none => pure ()
  | some streamUsage => match streamUsage.toAiUsage k.overflowChecks with
    | some usage => modify fun s => {s with usage:=usage}
    | none => do
      modify fun s => {s with panicked:=true}
      throw overflowed

def takeText (k : Setting) : Option Text → Staged Unit
  | none => pure ()
  | some text => do
    modify fun s => {s with sawContent:=true}
    sending (emit k.sink (.aiChunk ⟨k.requestId,text⟩))

def onFrames (k : Setting) : List SseEvent → Staged Unit
  | [] => pure ()
  | event :: rest => match finding k.parseChunk event with
    | .done => modify fun s => {s with sawDone:=true}
    | .unparsed complaint => do
      sending (log k.sink .ide ("ai: skipped an unparseable stream frame: ".toList ++ complaint ++ ['\n']))
      onFrames k rest
    | .chunk usage text => do
      takeUsage k usage
      takeText k text
      onFrames k rest

-- The frames of the end of a stream: what is no chunk is passed over.
def onTail (k : Setting) : List SseEvent → Staged Unit
  | [] => pure ()
  | event :: rest => match finding k.parseChunk event with
    | .done => onTail k rest
    | .unparsed _ => onTail k rest
    | .chunk usage text => do
      takeUsage k usage
      takeText k text
      onTail k rest

-- A cancelled exchange ends with the first frame. `abort` is what was sampled
-- before the frames were decoded: none, or whether the token is set.
def unlessAborted (k : Setting) (abort : Option Bool) (frames : List SseEvent) (handle : List SseEvent → Staged Unit) : Staged Unit :=
  match abort,frames with
  | some token,_ :: _ => throw (cancelledError token k.requestId)
  | _,_ => handle frames

def onBody (k : Setting) (abort : Option Bool) (bytes : Bytes) : Staged Unit := do
  let pushed := (← get).decoder.push bytes
  modify fun s => {s with decoder:=pushed.2}
  unlessAborted k abort pushed.1 (onFrames k)

def flush (k : Setting) (abort : Option Bool) : Staged Unit := do
  let finished := (← get).decoder.finish
  modify fun s => {s with decoder:=finished.2}
  unlessAborted k abort finished.1 (onTail k)

-- What one exchange meets: the connection, the socket, and the samples of the
-- two cancellation flags at the slices of the body and at its end.
structure Attempt where
  connect : Option PrincessError
  socket : List Arrival
  abort : Nat → Option Bool
  abortTail : Option Bool

def stageFrom (k : Setting) (abort : Nat → Option Bool) : Nat → Stage → List Bytes → Stage
  | _,s,[] => s
  | i,s,bytes :: rest => stageFrom k abort (i+1) (after (onBody k (abort i) bytes) s) rest

def callback (k : Setting) (abort : Nat → Option Bool) (start : Stage) : OnBody := fun slices bytes =>
  match (onBody k (abort slices.length) bytes).run (stageFrom k abort 0 start slices) with
  | .ok _ _ => none
  | .error e _ => some e

-- A panic of the callback is no error of the response.
def panicOr (s : Stage) (e : PrincessError) : Failure := if s.panicked then .overflow else .error e

-- The response with the flush behind it.
def receive (k : Setting) (attempt : Attempt) (events : List EventBody) : Except Failure HttpResponse × Stage :=
  let (outcome,slices) := readResponseWith k.quoted (callback k attempt.abort (.start events)) attempt.socket
  let s := stageFrom k attempt.abort 0 (.start events) slices
  match outcome with
  | .error (.error e) => (.error (panicOr s e),s)
  | .error .overflow => (.error .overflow,s)
  | .ok response => match (flush k attempt.abortTail).run s with
    | .ok _ s => (.ok response,s)
    | .error e s => (.error (panicOr s e),s)

def answeredText (response : HttpResponse) : Text :=
  "ai: provider answered HTTP ".toList ++ decimal response.status ++ " ".toList ++ response.reason ++ ['\n']

def noContentText (k : Setting) (s : Stage) : Text := "ai: provider returned no content for request ".toList ++ k.requestId ++
  " (done=".toList ++ (if s.sawDone then "true".toList else "false".toList) ++ ")\n".toList

def conclude (k : Setting) (response : HttpResponse) (s : Stage) : Action (List EventBody) PrincessError AiUsage :=
  if isSuccess response then do
    emit k.sink (.aiFinished ⟨k.requestId,s.usage⟩)
    if s.sawContent = false ∧ s.usage.totalTokens = 0 then log k.sink .ide (noContentText k s)
    pure s.usage
  else do
    log k.sink .ide (answeredText response)
    throw (forHttpStatus response.status (lossy response.body))

-- An action whose only failures are errors, among those that can panic.
def unpanicked (x : Action σ PrincessError α) : Action σ Failure α := fun s => match x.run s with
  | .ok a t => .ok a t
  | .error e t => .error (.error e) t

def exchange (k : Setting) (attempt : Attempt) : Action (List EventBody) Failure AiUsage := fun events =>
  match attempt.connect with
  | some e => .error (.error e) events
  | none => match receive k attempt events with
    | (.error failure,s) => .error failure s.events
    | (.ok response,s) => unpanicked (conclude k response s) s.events

def speaks (k : Setting) (event : SseEvent) : Bool := match finding k.parseChunk event with
  | .chunk _ (some _) => true
  | _ => false

def isChunk : EventBody → Bool
  | .aiChunk _ => true
  | _ => false

def isFinished : EventBody → Bool
  | .aiFinished _ => true
  | _ => false

def logged (text : Text) : EventBody := .logAppend ⟨.ide,text,.utf8⟩

-- Between two stages only events were added, none of them final, and content was
-- seen exactly where one of them is a chunk.
def Streams (s t : Stage) : Prop := ∃ added, t.events = s.events ++ added ∧ added.any isFinished = false ∧
  t.sawContent = (s.sawContent || added.any isChunk)

instance : IsPreorder Stage Streams where
  refl s := ⟨[],by simp,rfl,by simp⟩
  trans s t u := by
    intro ⟨one,events,unfinished,saw⟩ ⟨two,events',unfinished',saw'⟩
    refine ⟨one++two,by rw [events',events,List.append_assoc],by rw [List.any_append,unfinished,unfinished']; rfl,?_⟩
    rw [saw',saw,List.any_append,Bool.or_assoc]

theorem sending_run (accepts : Accepts sink) (body : EventBody) (s : Stage) :
    (sending (emit sink body)).run s = .ok () {s with events:=s.events ++ [body]} := run_zoom_ok (emit_run accepts body s.events)

theorem sending_accepts (accepts : Accepts sink) (body : EventBody) (s : Stage) :
    after (sending (emit sink body)) s = {s with events:=s.events ++ [body]} := by
  exact after_ok (sending_run accepts body s)

variable {k : Setting}

theorem modify_streams {f : Stage → Stage} (events : ∀ s, (f s).events = s.events) (saw : ∀ s, (f s).sawContent = s.sawContent) :
    Moves Streams (modify f : Staged PUnit) := by
  apply Moves.modify
  intro s
  exact ⟨[],by simp [events],rfl,by simp [saw]⟩

theorem takeUsage_streams (usage : Option StreamUsage) : Moves Streams (takeUsage k usage) := by
  unfold takeUsage
  split
  · exact .pure _
  · split
    · exact modify_streams (fun _ => rfl) (fun _ => rfl)
    · exact .bind (modify_streams (fun _ => rfl) (fun _ => rfl)) fun _ => .throw _

theorem takeText_streams (accepts : Accepts k.sink) (text : Option Text) : Moves Streams (takeText k text) := by
  cases text with
  | none => exact .pure _
  | some text =>
    intro s
    refine ⟨[.aiChunk ⟨k.requestId,text⟩],?_,rfl,?_⟩
    all_goals
      rw [takeText,after_bind,answer_modify]
      dsimp only
      rw [sending_accepts accepts,after_modify]
    simp [isChunk]

theorem onFrames_streams (accepts : Accepts k.sink) (frames : List SseEvent) : Moves Streams (onFrames k frames) := by
  induction frames with
  | nil => exact .pure _
  | cons event rest ih =>
    unfold onFrames
    split
    · exact modify_streams (fun _ => rfl) (fun _ => rfl)
    · refine .bind ?_ fun _ => ih
      intro s
      exact ⟨[_],congrArg Stage.events (sending_accepts accepts _ s),rfl,by
        rw [log,sending_accepts accepts]
        simp [isChunk]⟩
    · exact .bind (takeUsage_streams _) fun _ => .bind (takeText_streams accepts _) fun _ => ih

theorem onTail_streams (accepts : Accepts k.sink) (frames : List SseEvent) : Moves Streams (onTail k frames) := by
  induction frames with
  | nil => exact .pure _
  | cons event rest ih =>
    unfold onTail
    split
    · exact ih
    · exact ih
    · exact .bind (takeUsage_streams _) fun _ => .bind (takeText_streams accepts _) fun _ => ih

theorem unlessAborted_streams (every : ∀ frames, Moves Streams (handle frames)) (abort : Option Bool) (frames : List SseEvent) :
    Moves Streams (unlessAborted k abort frames handle) := by
  unfold unlessAborted
  split
  · exact .throw _
  · exact every _

theorem onBody_streams (accepts : Accepts k.sink) (abort : Option Bool) (bytes : Bytes) : Moves Streams (onBody k abort bytes) :=
  .bind .get fun _ => .bind (modify_streams (fun _ => rfl) (fun _ => rfl)) fun _ => unlessAborted_streams (onFrames_streams accepts) abort _

theorem flush_streams (accepts : Accepts k.sink) (abort : Option Bool) : Moves Streams (flush k abort) :=
  .bind .get fun _ => .bind (modify_streams (fun _ => rfl) (fun _ => rfl)) fun _ => unlessAborted_streams (onTail_streams accepts) abort _

theorem stageFrom_streams (accepts : Accepts k.sink) (abort : Nat → Option Bool) (i : Nat) (s : Stage) (slices : List Bytes) :
    Streams s (stageFrom k abort i s slices) := by
  induction slices generalizing i s with
  | nil => exact refl_of Streams s
  | cons bytes rest ih => exact trans_of Streams (onBody_streams accepts (abort i) bytes s) (ih (i+1) _)

theorem receive_streams (accepts : Accepts k.sink) (attempt : Attempt) (events : List EventBody) :
    Streams (.start events) (receive k attempt events).2 := by
  rw [receive]
  generalize readResponseWith k.quoted (callback k attempt.abort (.start events)) attempt.socket = read
  obtain ⟨outcome,slices⟩ := read
  have read := stageFrom_streams accepts attempt.abort 0 (.start events) slices
  dsimp only
  split
  · exact read
  · exact read
  · have flushed := flush_streams accepts attempt.abortTail (stageFrom k attempt.abort 0 (.start events) slices)
    have both := trans_of Streams read flushed
    cases ran : (flush k attempt.abortTail).run (stageFrom k attempt.abort 0 (.start events) slices) with
    | ok _ s => rwa [after_ok ran] at both
    | error e s => rwa [after_error ran] at both

end PrincessIDE.Ai
