import PrincessIDE.Ai.Completion
import PrincessIDE.Foundation.Steps

namespace PrincessIDE.Abort
open Utf8 (Text Bytes encode)
open Error Event Effect Sse Ai Steps
open Http (HttpResponse Failure)

-- The frames of one read that are not handled yet, and whether a flag was set
-- before they were decoded.
structure Batch where
  aborted : Bool
  frames : List SseEvent
deriving DecidableEq, Repr

-- `first` is whether the exchange is the first of the call, `stop` its stop flag.
inductive Phase where
  | starting
  | waiting (first : Bool)
  | reading (first stop : Bool)
  | handling (first stop : Bool) (batch : Batch)
  | flushing (first stop : Bool) (response : HttpResponse) (batch : Batch)
  | over
deriving DecidableEq, Repr

-- A call of `chat_completions`, at a point where a flag can become set.
-- `cancelled` is no field of the code's: it remembers that one was set.
structure Call where
  includeUsage : Bool
  token : Bool
  cancelled : Bool
  stage : Stage
  phase : Phase
deriving DecidableEq, Repr

-- The socket, the provider and whoever cancels decide which step comes next.
inductive Step where
  | setToken
  | setStop
  | begin (configured : Bool)
  | register
  | read (bytes : Bytes)
  | frame
  | close (response : HttpResponse)
  | fail (failure : Failure)
deriving DecidableEq, Repr

namespace Call

def start (includeUsage token : Bool) (events : List EventBody) : Call := ⟨includeUsage,token,token,.start events,.starting⟩

def put (s : Call) (events : List EventBody) (phase : Phase) : Call :=
  {s with stage:={s.stage with events:=events},phase:=phase}

-- An exchange that failed is followed by the retry or ends the call.
def failed (k : Setting) (s : Call) (first : Bool) (e : PrincessError) : Call :=
  if first ∧ s.includeUsage ∧ isUnknownOptionRejection e then
    match (log k.sink .ide retryNote).run s.stage.events with
    | .ok _ events => s.put events (.waiting false)
    | .error _ events => s.put events .over
  else s.put (after (finishWithError k e) s.stage.events) .over

-- What a frame did to the stage; behind a panic nothing more happens.
def moved (k : Setting) (s : Call) (first : Bool) (next : Phase) : EStateM.Result PrincessError Stage Unit → Call
  | .ok _ stage => {s with stage:=stage,phase:=next}
  | .error e stage => if stage.panicked then {s with stage:=stage,phase:=.over} else failed k {s with stage:=stage} first e

def abort (s : Call) (batch : Batch) : Option Bool := if batch.aborted then some s.token else none

def concluded (k : Setting) (s : Call) (first : Bool) (response : HttpResponse) : Call :=
  match (conclude k response s.stage).run s.stage.events with
  | .ok _ events => s.put events .over
  | .error e events => failed k (s.put events s.phase) first e

def execute (k : Setting) (s : Call) : Step → Option Call
  | .setToken => some {s with token:=true,cancelled:=true}
  | .setStop => match s.phase with
    | .reading first _ => some {s with cancelled:=true,phase:=.reading first true}
    | .handling first _ batch => some {s with cancelled:=true,phase:=.handling first true batch}
    | .flushing first _ response batch => some {s with cancelled:=true,phase:=.flushing first true response batch}
    | _ => none
  | .begin configured => match s.phase with
    | .starting => some {s with phase:=if s.token ∨ ¬ configured then .over else .waiting true}
    | _ => none
  | .register => match s.phase with
    | .waiting first => some {s with stage:=.start s.stage.events,phase:=.reading first false}
    | _ => none
  | .read bytes => match s.phase with
    | .reading first stop => some {s with
      stage:={s.stage with decoder:=(s.stage.decoder.push bytes).2}
      phase:=.handling first stop ⟨stop || s.token,(s.stage.decoder.push bytes).1⟩}
    | _ => none
  | .close response => match s.phase with
    | .reading first stop => some {s with
      stage:={s.stage with decoder:=s.stage.decoder.finish.2}
      phase:=.flushing first stop response ⟨stop || s.token,s.stage.decoder.finish.1⟩}
    | _ => none
  | .frame => match s.phase with
    | .handling first stop ⟨aborted,event :: rest⟩ =>
      some (moved k s first
        (if finding k.parseChunk event = .done then .reading first stop else .handling first stop ⟨aborted,rest⟩)
        ((unlessAborted k (s.abort ⟨aborted,[event]⟩) [event] (onFrames k)).run s.stage))
    | .handling first stop ⟨_,[]⟩ => some {s with phase:=.reading first stop}
    | .flushing first stop response ⟨aborted,event :: rest⟩ =>
      some (moved k s first (.flushing first stop response ⟨aborted,rest⟩)
        ((unlessAborted k (s.abort ⟨aborted,[event]⟩) [event] (onTail k)).run s.stage))
    | .flushing first _ response ⟨_,[]⟩ => some (concluded k s first response)
    | _ => none
  | .fail failure => match s.phase,failure with
    | .reading first _,.error e => some (failed k s first e)
    | .reading _ _,.overflow => some {s with phase:=.over}
    | _,_ => none

def chunks (s : Call) : List EventBody := s.stage.events.filter isChunk

end Call

variable {k : Setting} {s t : Call}

theorem onFrames_done (ends : finding k.parseChunk event = .done) (rest : List SseEvent) : onFrames k (event :: rest) = onFrames k [event] := by
  simp only [onFrames,ends]

theorem onFrames_cons (goes : finding k.parseChunk event ≠ .done) (rest : List SseEvent) :
    onFrames k (event :: rest) = onFrames k [event] >>= fun _ => onFrames k rest := by
  cases found : finding k.parseChunk event with
  | done => exact absurd found goes
  | unparsed complaint => simp only [onFrames,found,bind_assoc,pure_bind]
  | chunk usage text => simp only [onFrames,found,bind_assoc,pure_bind]

-- The call behind a batch that nothing came between.
def afterBatch (k : Setting) (s : Call) (first stop : Bool) (abort : Option Bool) (frames : List SseEvent) : Call :=
  s.moved k first (.reading first stop) ((unlessAborted k abort frames (onFrames k)).run s.stage)

def frames (k : Setting) (n : Nat) (s : Call) : Option Call := (List.replicate n Step.frame).foldlM (Call.execute k) s

theorem frames_one (taken : s.execute k .frame = some t) : frames k 1 s = some t := by
  simp [frames,List.foldlM_cons,taken]

theorem frames_succ (taken : s.execute k .frame = some t) (n : Nat) : frames k (n+1) s = frames k n t := by
  simp [frames,List.replicate_succ,List.foldlM_cons,taken]

-- What follows from a stage does not depend on the phase before it.
theorem moved_put (k : Setting) (s : Call) (first : Bool) (next phase : Phase) (stage : Stage) (result : EStateM.Result PrincessError Stage Unit) :
    Call.moved k {s with stage:=stage,phase:=phase} first next result = Call.moved k s first next result := by
  rcases result with ⟨_,after⟩ | ⟨e,after⟩
  · rfl
  · simp only [Call.moved,Call.failed,Call.put]

theorem handle_batch (phase : s.phase = .handling first stop ⟨aborted,batch⟩) : ∃ n,
    frames k n s = some (afterBatch k s first stop (s.abort ⟨aborted,batch⟩) batch) := by
  induction batch generalizing s with
  | nil =>
    refine ⟨1,frames_one ?_⟩
    simp only [Call.execute,phase]
    cases aborted <;> rfl
  | cons event rest ih =>
    cases aborted with
    | true =>
      refine ⟨1,frames_one ?_⟩
      simp only [Call.execute,phase]
      rfl
    | false =>
      by_cases ends : finding k.parseChunk event = .done
      · refine ⟨1,frames_one ?_⟩
        simp only [Call.execute,phase,if_pos ends]
        change _ = some (s.moved k first _ ((onFrames k (event :: rest)).run s.stage))
        rw [onFrames_done ends]
        rfl
      · change ∃ n, _ = some (s.moved k first _ ((onFrames k (event :: rest)).run s.stage))
        rw [onFrames_cons ends]
        cases ran : (onFrames k [event]).run s.stage with
        | error e stage =>
          refine ⟨1,frames_one ?_⟩
          simp only [Call.execute,phase]
          rw [run_bind_error ran]
          change some (s.moved k first _ ((onFrames k [event]).run s.stage)) = _
          rw [ran]
          rfl
        | ok _ stage =>
          have taken : s.execute k .frame = some {s with stage:=stage,phase:=.handling first stop ⟨false,rest⟩} := by
            simp only [Call.execute,phase,if_neg ends]
            change some (s.moved k first _ ((onFrames k [event]).run s.stage)) = _
            rw [ran]
            rfl
          obtain ⟨n,handled⟩ := ih (s:={s with stage:=stage,phase:=.handling first stop ⟨false,rest⟩}) rfl
          refine ⟨n+1,?_⟩
          rw [frames_succ taken,handled,afterBatch,moved_put,run_bind_ok ran]
          rfl

-- Undisturbed, the steps of one read are what the callback of the exchange does.
theorem read_frames (phase : s.phase = .reading first stop) (bytes : Bytes) : ∃ t n, s.execute k (.read bytes) = some t ∧
    frames k n t = some (s.moved k first (.reading first stop)
      ((onBody k (if stop || s.token then some s.token else none) bytes).run s.stage)) := by
  have taken : s.execute k (.read bytes) = some {s with
      stage:={s.stage with decoder:=(s.stage.decoder.push bytes).2}
      phase:=.handling first stop ⟨stop || s.token,(s.stage.decoder.push bytes).1⟩} := by
    simp only [Call.execute,phase]
  obtain ⟨n,handled⟩ := handle_batch (k:=k) (s:={s with
      stage:={s.stage with decoder:=(s.stage.decoder.push bytes).2}
      phase:=.handling first stop ⟨stop || s.token,(s.stage.decoder.push bytes).1⟩}) rfl
  refine ⟨_,n,taken,?_⟩
  rw [handled,afterBatch,moved_put]
  rfl

theorem onTail_cons (event : SseEvent) (rest : List SseEvent) : onTail k (event :: rest) = onTail k [event] >>= fun _ => onTail k rest := by
  cases found : finding k.parseChunk event with
  | done | unparsed complaint => simp only [onTail,found,pure_bind]
  | chunk usage text => simp only [onTail,found,bind_assoc,pure_bind]

-- The call behind a flush that nothing came between.
def afterFlush (k : Setting) (s : Call) (first : Bool) (response : HttpResponse) : EStateM.Result PrincessError Stage Unit → Call
  | .ok _ stage => {s with stage:=stage}.concluded k first response
  | .error e stage => s.moved k first .over (.error e stage)

theorem concluded_put (k : Setting) (s : Call) (first : Bool) (response : HttpResponse) (phase : Phase) :
    {s with phase:=phase}.concluded k first response = s.concluded k first response := by
  unfold Call.concluded
  dsimp only
  split
  · rfl
  · rfl

theorem afterFlush_put (k : Setting) (s : Call) (first : Bool) (response : HttpResponse) (phase : Phase) (stage : Stage)
    (result : EStateM.Result PrincessError Stage Unit) :
    afterFlush k {s with stage:=stage,phase:=phase} first response result = afterFlush k s first response result := by
  cases result with
  | ok _ after => exact concluded_put k {s with stage:=after} first response phase
  | error e after => exact moved_put k s first .over phase stage (.error e after)

theorem flush_batch (phase : s.phase = .flushing first stop response ⟨aborted,batch⟩) : ∃ n,
    frames k n s = some (afterFlush k s first response ((unlessAborted k (s.abort ⟨aborted,batch⟩) batch (onTail k)).run s.stage)) := by
  induction batch generalizing s with
  | nil =>
    refine ⟨1,frames_one ?_⟩
    simp only [Call.execute,phase]
    cases aborted <;> rfl
  | cons event rest ih =>
    cases aborted with
    | true =>
      refine ⟨1,frames_one ?_⟩
      simp only [Call.execute,phase]
      rfl
    | false =>
      change ∃ n, _ = some (afterFlush k s first response ((onTail k (event :: rest)).run s.stage))
      rw [onTail_cons]
      cases ran : (onTail k [event]).run s.stage with
      | error e stage =>
        refine ⟨1,frames_one ?_⟩
        simp only [Call.execute,phase]
        rw [run_bind_error ran]
        change some (s.moved k first _ ((onTail k [event]).run s.stage)) = _
        rw [ran]
        rfl
      | ok _ stage =>
        have taken : s.execute k .frame = some {s with stage:=stage,phase:=.flushing first stop response ⟨false,rest⟩} := by
          simp only [Call.execute,phase]
          change some (s.moved k first _ ((onTail k [event]).run s.stage)) = _
          rw [ran]
          rfl
        obtain ⟨n,handled⟩ := ih (s:={s with stage:=stage,phase:=.flushing first stop response ⟨false,rest⟩}) rfl
        refine ⟨n+1,?_⟩
        rw [frames_succ taken,handled,afterFlush_put,run_bind_ok ran]
        rfl

-- And those of the end of a response are its flush, with what concludes it.
theorem close_frames (phase : s.phase = .reading first stop) (response : HttpResponse) : ∃ t n, s.execute k (.close response) = some t ∧
    frames k n t = some (afterFlush k s first response ((flush k (if stop || s.token then some s.token else none)).run s.stage)) := by
  have taken : s.execute k (.close response) = some {s with
      stage:={s.stage with decoder:=s.stage.decoder.finish.2}
      phase:=.flushing first stop response ⟨stop || s.token,s.stage.decoder.finish.1⟩} := by
    simp only [Call.execute,phase]
  obtain ⟨n,handled⟩ := flush_batch (k:=k) (s:={s with
      stage:={s.stage with decoder:=s.stage.decoder.finish.2}
      phase:=.flushing first stop response ⟨stop || s.token,s.stage.decoder.finish.1⟩}) rfl
  refine ⟨_,n,taken,?_⟩
  rw [handled,afterFlush_put]
  rfl

-- Nothing that is decoded already has text, up to the mark of the end. The frames
-- behind the mark are dropped, except those of the flush.
def Mute (k : Setting) : Phase → Prop
  | .handling _ _ batch => batch.aborted = true ∨
    ∀ event ∈ batch.frames.takeWhile (fun event => finding k.parseChunk event ≠ .done), speaks k event = false
  | .flushing _ _ _ batch => batch.aborted = true ∨ ∀ event ∈ batch.frames, speaks k event = false
  | _ => True

-- No flag becomes set while text waits in a batch that was sampled before, and
-- no retry starts whose own flag knows nothing of the one that was set.
def Careful (k : Setting) (s : Call) : Step → Prop
  | .setToken | .setStop => Mute k s.phase
  | .register => s.cancelled = true → s.token = true
  | _ => True

def Phase.stop : Phase → Option Bool
  | .reading _ stop | .handling _ stop _ | .flushing _ stop _ _ => some stop
  | _ => none

-- A flag that was set is seen by the next sample, and what was decoded before it
-- is mute.
def Noticed (k : Setting) (s : Call) : Prop := s.cancelled = true →
  (∀ stop ∈ s.phase.stop, (stop || s.token) = true) ∧ Mute k s.phase

def Hushed (s t : List EventBody) : Prop := t.filter isChunk = s.filter isChunk

instance : IsPreorder (List EventBody) Hushed where
  refl _ := rfl
  trans _ _ _ first second := second.trans first

def HushedStage (s t : Stage) : Prop := Hushed s.events t.events

instance : IsPreorder Stage HushedStage where
  refl s := refl_of Hushed s.events
  trans _ _ _ first second := trans_of Hushed first second

theorem emit_hushed (sink : Sink) (unspoken : isChunk body = false) : Moves Hushed (emit sink body) := by
  intro events
  rw [after,emit_settles]
  cases sink events body with
  | some e => exact refl_of Hushed events
  | none =>
    change (events ++ [body]).filter isChunk = _
    rw [List.filter_append,List.filter_cons_of_neg (by simp [unspoken]),List.filter_nil,List.append_nil]

theorem log_hushed (sink : Sink) (stream : LogStream) (text : Text) : Moves Hushed (log sink stream text) := emit_hushed sink rfl

theorem sending_hushed (hushed : Moves Hushed x) : Moves HushedStage (sending x) := by
  intro stage
  rw [sending,after_zoom]
  exact hushed stage.events

theorem conclude_hushed (response : HttpResponse) (stage : Stage) : Moves Hushed (conclude k response stage) := by
  unfold conclude
  split
  · refine .bind (emit_hushed _ rfl) fun _ => ?_
    dsimp only
    split
    · exact .bind (log_hushed _ _ _) fun _ => .pure _
    · exact .pure _
  · exact .bind (log_hushed _ _ _) fun _ => .throw _

theorem finishWithError_hushed (e : PrincessError) : Moves Hushed (finishWithError k e) :=
  .bind (.attempt (log_hushed _ _ _)) fun _ => .bind (.attempt (emit_hushed _ rfl)) fun _ => .pure _

theorem takeUsage_hushed (usage : Option StreamUsage) : Moves HushedStage (takeUsage k usage) := by
  unfold takeUsage
  split
  · exact .pure _
  · split
    · exact .modify fun stage => refl_of Hushed stage.events
    · exact .bind (.modify fun stage => refl_of Hushed stage.events) fun _ => .throw _

theorem speaks_text (mute : speaks k event = false) (found : finding k.parseChunk event = .chunk usage text) : text = none := by
  rw [speaks,found] at mute
  cases text with
  | none => rfl
  | some text => cases mute

theorem onFrames_hushed (mute : speaks k event = false) : Moves HushedStage (onFrames k [event]) := by
  unfold onFrames
  split
  · exact .modify fun stage => refl_of Hushed stage.events
  · exact .bind (sending_hushed (log_hushed _ _ _)) fun _ => .pure _
  · rename_i usage text found
    rw [speaks_text mute found]
    exact .bind (takeUsage_hushed _) fun _ => .bind (.pure _) fun _ => .pure _

theorem onTail_hushed (mute : speaks k event = false) : Moves HushedStage (onTail k [event]) := by
  unfold onTail
  split
  · exact .pure _
  · exact .pure _
  · rename_i usage text found
    rw [speaks_text mute found]
    exact .bind (takeUsage_hushed _) fun _ => .bind (.pure _) fun _ => .pure _

-- An aborted batch hands nothing on.
theorem unlessAborted_hushed {handle : List SseEvent → Staged Unit} (hushed : aborted = false → Moves HushedStage (handle [event])) :
    Moves HushedStage (unlessAborted k (s.abort ⟨aborted,[event]⟩) [event] handle) := by
  cases aborted with
  | true => exact .throw _
  | false => exact hushed rfl

theorem failed_chunks (k : Setting) (s : Call) (first : Bool) (e : PrincessError) : (s.failed k first e).chunks = s.chunks := by
  unfold Call.failed
  split
  · have logged := log_hushed k.sink .ide retryNote s.stage.events
    split
    · rename_i ran
      rwa [after_ok ran] at logged
    · rename_i ran
      rwa [after_error ran] at logged
  · exact finishWithError_hushed e s.stage.events

theorem moved_chunks (hushed : Moves HushedStage x) (first : Bool) (next : Phase) :
    (s.moved k first next (x.run s.stage)).chunks = s.chunks := by
  have moves := hushed s.stage
  unfold Call.moved
  cases ran : x.run s.stage with
  | ok _ stage => rwa [after_ok ran] at moves
  | error e stage =>
    rw [after_error ran] at moves
    dsimp only
    split
    · exact moves
    · rw [failed_chunks]
      exact moves

theorem concluded_chunks (k : Setting) (s : Call) (first : Bool) (response : HttpResponse) :
    (s.concluded k first response).chunks = s.chunks := by
  have moves := conclude_hushed (k:=k) response s.stage s.stage.events
  unfold Call.concluded
  cases ran : (conclude k response s.stage).run s.stage.events with
  | ok _ events => rwa [after_ok ran] at moves
  | error e events =>
    rw [after_error ran] at moves
    dsimp only
    rw [failed_chunks]
    exact moves

theorem handling_mute (mute : Mute k (.handling first stop ⟨false,event :: rest⟩)) : speaks k event = false := by
  rcases mute with aborted | silent
  · cases aborted
  · by_cases ends : finding k.parseChunk event = .done
    · rw [speaks,ends]
    · refine silent event ?_
      rw [List.takeWhile_cons_of_pos (by simpa using ends)]
      exact List.mem_cons_self

theorem flushing_mute (mute : Mute k (.flushing first stop response ⟨false,event :: rest⟩)) : speaks k event = false := by
  rcases mute with aborted | silent
  · cases aborted
  · exact silent event List.mem_cons_self

-- Only frames have text, and those that are left at a cancel have none.
theorem execute_chunks (noticed : Noticed k s) (taken : s.execute k step = some t) (cancelled : s.cancelled = true) :
    t.chunks = s.chunks := by
  obtain ⟨-,mute⟩ := noticed cancelled
  cases step with
  | setToken => cases taken; rfl
  | setStop | begin configured | register | read bytes | close response =>
    simp only [Call.execute] at taken
    split at taken <;> cases taken
    all_goals rfl
  | fail failure =>
    simp only [Call.execute] at taken
    split at taken <;> cases taken
    · exact failed_chunks ..
    · rfl
  | frame =>
    simp only [Call.execute] at taken
    split at taken <;> cases taken
    · rename_i phase
      rw [phase] at mute
      apply moved_chunks
      apply unlessAborted_hushed
      intro unaborted
      subst unaborted
      exact onFrames_hushed (handling_mute mute)
    · rfl
    · rename_i phase
      rw [phase] at mute
      apply moved_chunks
      apply unlessAborted_hushed
      intro unaborted
      subst unaborted
      exact onTail_hushed (flushing_mute mute)
    · exact concluded_chunks ..

theorem idle_noticed (idle : s.phase.stop = none) : Noticed k s := by
  intro _
  refine ⟨by simp [idle],?_⟩
  cases phase : s.phase with
  | handling | flushing =>
    rw [phase] at idle
    cases idle
  | _ => trivial

theorem failed_idle (k : Setting) (s : Call) (first : Bool) (e : PrincessError) : (s.failed k first e).phase.stop = none := by
  unfold Call.failed
  split
  · split <;> rfl
  · rfl

theorem concluded_idle (k : Setting) (s : Call) (first : Bool) (response : HttpResponse) :
    (s.concluded k first response).phase.stop = none := by
  unfold Call.concluded
  split
  · rfl
  · exact failed_idle ..

theorem moved_noticed (next : s.cancelled = true → (∀ stop ∈ phase.stop, (stop || s.token) = true) ∧ Mute k phase)
    (first : Bool) (result : EStateM.Result PrincessError Stage Unit) : Noticed k (s.moved k first phase result) := by
  cases result with
  | ok _ stage => exact next
  | error e stage =>
    rw [Call.moved]
    split
    · exact idle_noticed rfl
    · exact idle_noticed (failed_idle ..)

-- What is mute stays so as its frames are handled one by one.
theorem handling_next (mute : Mute k (.handling first stop ⟨aborted,event :: rest⟩)) (goes : finding k.parseChunk event ≠ .done) :
    Mute k (.handling first stop ⟨aborted,rest⟩) := by
  rcases mute with set | silent
  · exact .inl set
  · refine .inr fun later member => silent later ?_
    rw [List.takeWhile_cons_of_pos (by simpa using goes)]
    exact List.mem_cons_of_mem _ member

theorem flushing_next (mute : Mute k (.flushing first stop response ⟨aborted,event :: rest⟩)) :
    Mute k (.flushing first stop response ⟨aborted,rest⟩) := by
  rcases mute with set | silent
  · exact .inl set
  · exact .inr fun later member => silent later (List.mem_cons_of_mem _ member)

theorem execute_noticed (noticed : Noticed k s) (taken : s.execute k step = some t) (careful : Careful k s step) : Noticed k t := by
  cases step with
  | setToken =>
    cases taken
    exact fun _ => ⟨by simp,careful⟩
  | setStop =>
    simp only [Careful] at careful
    simp only [Call.execute] at taken
    split at taken <;> cases taken
    all_goals
      rename_i phase
      rw [phase] at careful
      exact fun _ => ⟨by simp [Phase.stop],careful⟩
  | begin configured =>
    simp only [Call.execute] at taken
    split at taken <;> cases taken
    apply idle_noticed
    dsimp only
    split <;> rfl
  | register =>
    simp only [Call.execute] at taken
    split at taken <;> cases taken
    intro cancelled
    have set := careful cancelled
    exact ⟨by simp [set],trivial⟩
  | read bytes | close response =>
    simp only [Call.execute] at taken
    split at taken <;> cases taken
    rename_i stop phase
    intro cancelled
    have sampled := (noticed cancelled).1
    rw [phase] at sampled
    exact ⟨sampled,.inl (sampled stop rfl)⟩
  | fail failure =>
    simp only [Call.execute] at taken
    split at taken <;> cases taken
    · exact idle_noticed (failed_idle ..)
    · exact idle_noticed rfl
  | frame =>
    simp only [Call.execute] at taken
    split at taken <;> cases taken
    · rename_i phase
      apply moved_noticed
      intro cancelled
      obtain ⟨sampled,mute⟩ := noticed cancelled
      rw [phase] at sampled mute
      split
      · exact ⟨sampled,trivial⟩
      · rename_i goes
        exact ⟨sampled,handling_next mute goes⟩
    · rename_i phase
      intro cancelled
      have sampled := (noticed cancelled).1
      rw [phase] at sampled
      exact ⟨sampled,trivial⟩
    · rename_i phase
      apply moved_noticed
      intro cancelled
      obtain ⟨sampled,mute⟩ := noticed cancelled
      rw [phase] at sampled mute
      exact ⟨sampled,flushing_next mute⟩
    · exact idle_noticed (concluded_idle ..)

-- Whatever the provider streams and whenever a flag becomes set: along careful
-- steps no chunk is sent any more once one is.
theorem cancelled_hushed (k : Setting) (includeUsage token : Bool) (events : List EventBody) (steps : List Step)
    (careful : Along (Call.execute k) (fun s step _ => Careful k s step) (.start includeUsage token events) steps) :
    Along (Call.execute k) (fun s _ t => s.cancelled = true → t.chunks = s.chunks) (.start includeUsage token events) steps := by
  apply along_mono (Noticed k) _ (idle_noticed rfl) careful careful
  intro s step t noticed taken careful _
  exact ⟨execute_chunks noticed taken,execute_noticed noticed taken careful⟩

-- A cancel before the first read.
theorem cancelled_hushed_hi : Along (Call.execute hiSetting) (fun s _ t => s.cancelled = true → t.chunks = s.chunks) (.start true false [])
    [.begin true,.register,.setStop,.read hiBody,.frame] := by
  apply cancelled_hushed
  refine (along_cons rfl).mpr ⟨trivial,(along_cons rfl).mpr ⟨?_,?_⟩⟩
  · intro set
    cases set
  · exact (along_cons rfl).mpr ⟨trivial,(along_cons rfl).mpr ⟨trivial,(along_cons rfl).mpr ⟨trivial,trivial⟩⟩⟩

def pairBody : Bytes := encode "data: x\n\ndata: y\n\n".toList

-- The second frame of one read is streamed behind a cancel after the first.
theorem pair_unhushed : ¬ Along (Call.execute hiSetting) (fun s _ t => s.cancelled = true → t.chunks = s.chunks) (.start true false [])
    [.begin true,.register,.read pairBody,.frame,.setStop,.frame] := by
  intro ⟨_,_,_,_,_,spoke,_⟩
  have same := congrArg List.length (spoke rfl)
  cases same

def rejection : HttpResponse := ⟨400,[],[],encode "unsupported".toList⟩

def rejected : Call := ⟨true,false,true,.start [logged (answeredText rejection),logged retryNote],.waiting false⟩

theorem rejection_retried :
    Call.execute hiSetting ⟨true,false,true,.start [],.flushing true true rejection ⟨true,[]⟩⟩ .frame = some rejected := rfl

theorem rejected_unhushed : ¬ Along (Call.execute hiSetting) (fun s _ t => s.cancelled = true → t.chunks = s.chunks) rejected
    [.register,.read hiBody,.frame] := by
  intro ⟨_,_,spoke,_⟩
  have same := congrArg List.length (spoke rfl)
  cases same

-- Nor does the retry know of a cancel that its predecessor heard.
theorem cancel_unhushed :
    ¬ Along (Call.execute hiSetting) (fun s _ t => s.cancelled = true → t.chunks = s.chunks) (.start true false [])
      [.begin true,.register,.read pairBody,.frame,.setStop,.frame] ∧
    ¬ Along (Call.execute hiSetting) (fun s _ t => s.cancelled = true → t.chunks = s.chunks) (.start true false [])
      [.begin true,.register,.setStop,.close rejection,.frame,.register,.read hiBody,.frame] := by
  refine ⟨pair_unhushed,?_⟩
  intro hushed
  have cancelled := ((along_cons rfl).mp ((along_cons rfl).mp ((along_cons rfl).mp hushed).2).2).2
  have retried := ((along_cons rejection_retried).mp ((along_cons rfl).mp cancelled).2).2
  exact rejected_unhushed retried

end PrincessIDE.Abort
