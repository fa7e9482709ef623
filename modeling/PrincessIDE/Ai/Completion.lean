import PrincessIDE.Ai.Heard

namespace PrincessIDE.Ai
open Utf8 (Text Bytes encode)
open Str Error Event Effect
open Http (Failure HttpResponse OnBody readResponseWith)

structure AiConfig where
  baseUrl : Text
  model : Text
deriving DecidableEq, Repr

-- What one call of `chat_completions` meets. The second attempt is that of the
-- retry.
structure Calling where
  config : Option AiConfig
  includeUsage : Bool
  stream : Bool
  cancelled : Bool
  first : Attempt
  second : Attempt

def notConfigured (detail : Text) : PrincessError :=
  (PrincessError.new .aiUnavailable "no AI provider is configured for this project".toList).withDetail detail

def unavailableError : PrincessError := notConfigured
  ("[ai].provider is not \"openai-compatible\", or no base_url/model was configured ".toList ++
    "(project manifest, PRINCESSIDE_AI_BASE_URL / OPENAI_BASE_URL, or the global setting)".toList)

-- The refusals before a socket is opened.
def preflight (k : Setting) (c : Calling) : Option PrincessError :=
  if c.cancelled then some (cancelled k.requestId)
  else match c.config with
    | none => some unavailableError
    | some config =>
      if trim config.baseUrl = [] ∨ trim config.model = [] then
        some (notConfigured ("base_url=".toList ++ k.quoted config.baseUrl ++ " model=".toList ++ k.quoted config.model))
      else if ¬ c.stream then
        some ((PrincessError.new .aiUnavailable "this provider implements streaming chat/completions only".toList).withDetail
          "set \x60stream = true\x60 on the request (contract §5: v1 always streams)".toList)
      else none

def isUnknownOptionRejection (e : PrincessError) : Bool := match e.code,e.detail with
  | .aiUnavailable,some detail =>
    let lowered := detail.map toAsciiLowercase
    contains "stream_options".toList lowered || contains "unknown field".toList lowered || contains "unsupported".toList lowered
  | _,_ => false

def reportGenerationError (k : Setting) (e : PrincessError) : Action (List EventBody) PrincessError Unit :=
  note k.sink (match e.detail with
    | some detail => "ai ".toList ++ e.code.asStr ++ ": ".toList ++ e.message ++ " (".toList ++ detail ++ ")\n".toList
    | none => "ai ".toList ++ e.code.asStr ++ ": ".toList ++ e.message ++ ['\n'])

def finishWithError (k : Setting) (e : PrincessError) : Action (List EventBody) PrincessError Unit := do
  let _ ← attempt (reportGenerationError k e)
  let _ ← attempt (emit k.sink (.aiFinished ⟨k.requestId,⟨0,0,0⟩⟩))

abbrev Reply := EStateM.Result Failure (List EventBody) AiUsage

-- An error is reported and finished with; a panic is not.
def settled (k : Setting) : Reply → Reply
  | .error (.error e) t => .error (.error e) (after (finishWithError k e) t)
  | .error .overflow t => .error .overflow t
  | .ok usage t => .ok usage t

def retryNote : Text := "ai: provider rejected \x60stream_options\x60; retrying without it\n".toList

def chatCompletions (k : Setting) (c : Calling) : Action (List EventBody) Failure AiUsage := fun events =>
  match preflight k c with
  | some e => .error (.error e) events
  | none => match exchange k c.first events with
    | .error (.error e) t =>
      if c.includeUsage ∧ isUnknownOptionRejection e then
        match (log k.sink .ide retryNote).run t with
        | .error failed u => .error (.error failed) u
        | .ok _ u => settled k (exchange k c.second u)
      else settled k (.error (.error e) t)
    | .error .overflow t => .error .overflow t
    | .ok usage t => .ok usage t

-- The status of a response, known as soon as its head is.
def headStatus (attempt : Attempt) : Option Nat := match Http.readHead [] attempt.socket with
  | (.ok (headerEnd,buf),_) => match Http.parseStatusLine ((Http.headLines (Utf8.lossy (buf.take headerEnd))).headD []) with
    | .ok (status,_) => some status
    | .error _ => none
  | (.error _,_) => none

def Served (attempt : Attempt) : Prop := ∃ status, headStatus attempt = some status ∧ 200 ≤ status ∧ status < 300

-- The events with which the retry starts, if it comes to that.
def retryStart (k : Setting) (c : Calling) : Option (List EventBody) := match exchange k c.first [] with
  | .error (.error e) t =>
    if c.includeUsage ∧ isUnknownOptionRejection e then
      match (log k.sink .ide retryNote).run t with
      | .error _ _ => none
      | .ok _ u => some u
    else none
  | _ => none

-- The exchanges of a call, each with the events before it.
def exchanges (k : Setting) (c : Calling) : List (Attempt × List EventBody) :=
  if (preflight k c).isSome then [] else (c.first,[]) :: (retryStart k c).toList.map fun u => (c.second,u)

def eventsIn : Reply → List EventBody
  | .ok _ t => t
  | .error _ t => t

def eventsOf (k : Setting) (c : Calling) : List EventBody := eventsIn (chatCompletions k c [])

-- The events that one exchange adds.
def addedBy (k : Setting) (x : Attempt × List EventBody) : List EventBody := (after (exchange k x.1) x.2).drop x.2.length

structure Proper (k : Setting) (c : Calling) : Prop where
  once : (eventsOf k c).countP isFinished = 1
  last : ((eventsOf k c).getLast?).any isFinished
  chunks : ∀ x ∈ exchanges k c, (addedBy k x).any isChunk → Served x.1

-- A frame with text is handled, in a response or in its broken remains.
def Speaks (k : Setting) (a : Attempt) : Prop := a.connect = none ∧ (hear k a).frames.any (speaks k) = true

-- An addition overflows, of chunk lengths or of counts of tokens.
def Panics (k : Setting) (a : Attempt) : Prop := a.connect = none ∧ (hear k a).outcome = .error .overflow

-- A complete 2xx response that has neither text nor a count of tokens.
def Hollow (k : Setting) (a : Attempt) : Prop := a.connect = none ∧
  ∃ response, (hear k a).outcome = .ok response ∧ isSuccess response ∧
    (hear k a).frames.any (speaks k) = false ∧ ((hear k a).frames.foldl (usageOf k) ⟨0,0,0⟩).totalTokens = 0

-- The error that a provider's answer amounts to.
def refusalOf (k : Setting) (a : Attempt) : Option PrincessError := match a.connect,(hear k a).outcome with
  | some e,_ => some e
  | none,.error (.error e) => some e
  | none,.error .overflow => none
  | none,.ok response => if isSuccess response then none else some (forHttpStatus response.status (Utf8.lossy response.body))

def attempts (k : Setting) (c : Calling) : List Attempt :=
  if (preflight k c).isSome then []
  else c.first :: if c.includeUsage ∧ (refusalOf k c.first).any isUnknownOptionRejection then [c.second] else []

structure Regular (k : Setting) (c : Calling) : Prop where
  reaches : preflight k c = none
  calm : ∀ a ∈ attempts k c, ¬ Panics k a
  solid : ∀ a ∈ attempts k c, ¬ Hollow k a
  served : ∀ a ∈ attempts k c, Speaks k a → Served a

-- What an exchange comes to with a sink that takes everything.
inductive Spoke (k : Setting) (a : Attempt) (events : List EventBody) : Reply → Prop where
  | finished (usage : AiUsage) (payload : AiFinishedPayload) : ¬ Panics k a → ¬ Hollow k a → refusalOf k a = none →
      Spoke k a events (.ok usage (events ++ [.aiFinished payload]))
  | hollow (usage : AiUsage) (payload : AiFinishedPayload) (note : LogAppendPayload) : ¬ Panics k a → Hollow k a → refusalOf k a = none →
      Spoke k a events (.ok usage (events ++ [.aiFinished payload,.logAppend note]))
  | failed (e : PrincessError) : ¬ Panics k a → ¬ Hollow k a → refusalOf k a = some e → Spoke k a events (.error (.error e) events)
  | panicked : Panics k a → refusalOf k a = none → Spoke k a events (.error .overflow events)

variable {k : Setting}

theorem conclude_failure (accepts : Accepts k.sink) (failure : isSuccess response = false) (s : Stage) (events : List EventBody) :
    (conclude k response s).run events =
      .error (forHttpStatus response.status (Utf8.lossy response.body)) (events ++ [logged (answeredText response)]) := by
  rw [conclude,failure,if_neg Bool.false_ne_true,log,run_bind_ok (emit_run accepts _ events)]
  rfl

theorem conclude_success (accepts : Accepts k.sink) (success : isSuccess response = true) (s : Stage) (events : List EventBody) :
    (conclude k response s).run events = .ok s.usage (events ++ .aiFinished ⟨k.requestId,s.usage⟩ ::
      if s.sawContent = false ∧ s.usage.totalTokens = 0 then [logged (noContentText k s)] else []) := by
  rw [conclude,success,if_pos rfl,run_bind_ok (emit_run accepts _ events)]
  split
  · rw [log,run_bind_ok (emit_run accepts _ _),List.append_assoc]
    rfl
  · rfl

theorem exchange_spoke (accepts : Accepts k.sink) (a : Attempt) (events : List EventBody) :
    ∃ added, added.any isFinished = false ∧ (¬ Panics k a → (added.any isChunk = true ↔ Speaks k a)) ∧
      Spoke k a (events ++ added) (exchange k a events) := by
  rw [exchange]
  cases connected : a.connect with
  | some e =>
    have unmade : ∀ P : Prop, ¬ (a.connect = none ∧ P) := by
      intro P both
      cases connected.symm.trans both.1
    have spoke : Spoke k a (events ++ []) (.error (.error e) (events ++ [])) :=
      .failed e (unmade _) (unmade _) (by rw [refusalOf,connected])
    rw [List.append_nil] at spoke
    exact ⟨[],rfl,fun _ => iff_of_false (by simp) (unmade _),by rw [List.append_nil]; exact spoke⟩
  | none =>
    obtain ⟨added,after,unfinished,saw⟩ := receive_streams accepts a events
    have outcome := (receive_hear accepts a events).1
    have heard := receive_heard (a:=a) accepts events
    have speech : ¬ Panics k a → (added.any isChunk = true ↔ Speaks k a) := by
      intro calm
      rw [Speaks,and_iff_right connected,← (heard fun overflow => calm ⟨connected,overflow⟩).1,saw]
      simp [Stage.start]
    have after : (receive k a events).2.events = events ++ added := after
    generalize receive k a events = received at outcome after heard
    obtain ⟨ended,s⟩ := received
    dsimp only at outcome after heard
    cases ended with
    | error failure =>
      have unhollow : ¬ Hollow k a := by simp [Hollow,← outcome]
      cases failure with
      | overflow =>
        refine ⟨added,unfinished,speech,?_⟩
        dsimp only
        rw [after]
        exact .panicked ⟨connected,outcome.symm⟩ (by rw [refusalOf,connected,← outcome])
      | error e =>
        refine ⟨added,unfinished,speech,?_⟩
        dsimp only
        rw [after]
        exact .failed e (by simp [Panics,← outcome]) unhollow (by rw [refusalOf,connected,← outcome])
    | ok response =>
      have calm : ¬ Panics k a := by simp [Panics,← outcome]
      obtain ⟨saw',usage⟩ := heard (by simp [← outcome])
      cases success : isSuccess response with
      | false =>
        have refused : refusalOf k a = some (forHttpStatus response.status (Utf8.lossy response.body)) := by
          rw [refusalOf,connected,← outcome]
          simp [success]
        refine ⟨added ++ [logged (answeredText response)],by simp [unfinished,isFinished,logged],?_,?_⟩
        · intro _
          rw [← speech calm]
          simp [isChunk,logged]
        · dsimp only [unpanicked]
          rw [conclude_failure accepts success,after,List.append_assoc]
          exact .failed _ calm (by simp [Hollow,← outcome,success]) refused
      | true =>
        have unrefused : refusalOf k a = none := by
          rw [refusalOf,connected,← outcome]
          simp [success]
        refine ⟨added,unfinished,speech,?_⟩
        dsimp only [unpanicked]
        rw [conclude_success accepts success,after]
        by_cases empty : s.sawContent = false ∧ s.usage.totalTokens = 0
        · rw [if_pos empty]
          refine .hollow _ _ _ calm ⟨connected,response,outcome.symm,success,?_⟩ unrefused
          rw [← saw',← usage]
          exact empty
        · rw [if_neg empty]
          refine .finished _ _ calm ?_ unrefused
          intro found
          obtain ⟨-,other,-,-,both⟩ := found
          rw [← saw',← usage] at both
          exact empty both

theorem finishWithError_accepts (accepts : Accepts k.sink) (e : PrincessError) (events : List EventBody) :
    ∃ note, after (finishWithError k e) events = events ++ [logged note,.aiFinished ⟨k.requestId,⟨0,0,0⟩⟩] := by
  have noted : ∃ text, (reportGenerationError k e).run events = .ok () (events ++ [logged text]) :=
    ⟨_,emit_run accepts _ events⟩
  obtain ⟨text,noted⟩ := noted
  refine ⟨text,?_⟩
  rw [after,finishWithError,run_bind_ok (run_attempt_ok noted),run_bind_ok (run_attempt_ok (emit_run accepts _ _)),List.append_assoc]
  rfl

-- The end of a call is one final event exactly where its last exchange neither
-- panics nor is hollow.
theorem settled_ends (accepts : Accepts k.sink) (unfinished : events.any isFinished = false) (spoke : Spoke k a events reply) :
    ((eventsIn (settled k reply)).countP isFinished = 1 ∧ ((eventsIn (settled k reply)).getLast?).any isFinished = true) ↔
      ¬ Panics k a ∧ ¬ Hollow k a := by
  have none : events.countP isFinished = 0 := by
    rw [List.countP_eq_zero]
    intro e member
    exact List.any_eq_false.mp unfinished e member
  cases spoke with
  | finished usage payload calm solid =>
    refine iff_of_true ?_ ⟨calm,solid⟩
    rw [settled,eventsIn,List.countP_append,none]
    simp [isFinished]
  | hollow usage payload note calm hollow =>
    refine iff_of_false ?_ (fun both => both.2 hollow)
    intro both
    simp [settled,eventsIn,isFinished] at both
  | failed e calm solid =>
    refine iff_of_true ?_ ⟨calm,solid⟩
    obtain ⟨note,finished⟩ := finishWithError_accepts accepts e events
    rw [settled,eventsIn,finished,List.countP_append,none]
    simp [isFinished,logged]
  | panicked panics =>
    refine iff_of_false ?_ (fun both => both.1 panics)
    intro both
    rw [settled,eventsIn,none] at both
    exact absurd both.1 (by decide)

theorem addedBy_chunk (accepts : Accepts k.sink) (calm : ¬ Panics k a) (events : List EventBody) :
    (addedBy k (a,events)).any isChunk = true ↔ Speaks k a := by
  obtain ⟨added,-,speech,spoke⟩ := exchange_spoke accepts a events
  rw [← speech calm,addedBy,after]
  cases reply : exchange k a events with
  | ok usage t =>
    rw [reply] at spoke
    cases spoke <;> simp [EStateM.run,reply,isChunk]
  | error failure t =>
    rw [reply] at spoke
    cases spoke <;> simp [EStateM.run,reply]

-- A call that reaches the provider comes down to its last exchange; one before it
-- was refused and followed by the note of the retry.
inductive Unfolds (k : Setting) (c : Calling) : Prop where
  | single : exchanges k c = [(c.first,[])] → attempts k c = [c.first] →
      eventsOf k c = eventsIn (settled k (exchange k c.first [])) → Unfolds k c
  | retried (t : List EventBody) : ¬ Panics k c.first → ¬ Hollow k c.first → t.any isFinished = false →
      exchanges k c = [(c.first,[]),(c.second,t)] → attempts k c = [c.first,c.second] →
      eventsOf k c = eventsIn (settled k (exchange k c.second t)) → Unfolds k c

theorem call_unfolds (accepts : Accepts k.sink) (passed : preflight k c = none) : Unfolds k c := by
  obtain ⟨added,unfinished,-,spoke⟩ := exchange_spoke accepts c.first []
  cases reply : exchange k c.first [] with
  | ok usage t =>
    have unrefused : refusalOf k c.first = none := by
      rw [reply] at spoke
      cases spoke <;> assumption
    exact .single (by simp [exchanges,retryStart,passed,reply]) (by simp [attempts,passed,unrefused])
      (by simp [eventsOf,chatCompletions,passed,reply,settled])
  | error failure t =>
    rw [reply] at spoke
    cases spoke with
    | panicked panics unrefused =>
      exact .single (by simp [exchanges,retryStart,passed,reply]) (by simp [attempts,passed,unrefused])
        (by simp [eventsOf,chatCompletions,passed,reply,settled])
    | failed e calm solid refused =>
      by_cases retry : c.includeUsage = true ∧ isUnknownOptionRejection e = true
      · have noted : (log k.sink .ide retryNote).run ([] ++ added) = .ok () ([] ++ added ++ [logged retryNote]) :=
          emit_run accepts _ _
        refine .retried ([] ++ added ++ [logged retryNote]) calm solid ?_ ?_ ?_ ?_
        · rw [List.any_append,List.nil_append,unfinished]
          rfl
        · simp only [exchanges,retryStart,passed,reply,if_pos retry,noted]
          rfl
        · simp [attempts,passed,refused,retry]
        · simp only [eventsOf,chatCompletions,passed,reply,if_pos retry,noted]
      · exact .single (by simp [exchanges,retryStart,passed,reply,retry]) (by simp [attempts,passed,refused,retry])
          (by simp [eventsOf,chatCompletions,passed,reply,retry])

theorem call_ends (accepts : Accepts k.sink) (passed : preflight k c = none) :
    ((eventsOf k c).countP isFinished = 1 ∧ ((eventsOf k c).getLast?).any isFinished = true) ↔
      ∀ a ∈ attempts k c, ¬ Panics k a ∧ ¬ Hollow k a := by
  rcases call_unfolds accepts passed with ⟨-,made,events⟩ | ⟨t,calm,solid,before,-,made,events⟩
  · obtain ⟨added,unfinished,-,spoke⟩ := exchange_spoke accepts c.first []
    rw [made,events,settled_ends accepts unfinished spoke]
    simp
  · obtain ⟨added,unfinished,-,spoke⟩ := exchange_spoke accepts c.second t
    have none : (t ++ added).any isFinished = false := by
      rw [List.any_append,before,unfinished]
      rfl
    rw [made,events,settled_ends accepts none spoke]
    simp [calm,solid]

theorem exchanges_attempts (accepts : Accepts k.sink) (passed : preflight k c = none) :
    (exchanges k c).map Prod.fst = attempts k c := by
  rcases call_unfolds accepts passed with ⟨exchanged,made,-⟩ | ⟨t,-,-,-,exchanged,made,-⟩
  · rw [exchanged,made]
    rfl
  · rw [exchanged,made]
    rfl

-- Every call, whatever the provider answers, ends and streams as it should exactly
-- where it is regular.
theorem completion_proper (accepts : Accepts k.sink) (c : Calling) : Proper k c ↔ Regular k c := by
  cases passed : preflight k c with
  | some e =>
    have silent : eventsOf k c = [] := by simp [eventsOf,chatCompletions,passed,eventsIn]
    refine iff_of_false ?_ ?_
    · intro proper
      have once := proper.once
      rw [silent] at once
      cases once
    · intro regular
      cases passed.symm.trans regular.reaches
  | none =>
    have ends := call_ends accepts passed
    have exchanged := exchanges_attempts accepts passed
    constructor
    · intro proper
      have all := ends.mp ⟨proper.once,proper.last⟩
      refine ⟨passed,fun a made => (all a made).1,fun a made => (all a made).2,?_⟩
      intro a made speaks
      rw [← exchanged] at made
      obtain ⟨⟨_,events⟩,made',rfl⟩ := List.mem_map.mp made
      rw [exchanged] at made
      exact proper.chunks _ made' ((addedBy_chunk accepts (all _ made).1 events).mpr speaks)
    · intro regular
      obtain ⟨once,last⟩ := ends.mpr fun a made => ⟨regular.calm a made,regular.solid a made⟩
      refine ⟨once,last,?_⟩
      intro x made chunk
      have attempted : x.1 ∈ attempts k c := by
        rw [← exchanged]
        exact List.mem_map_of_mem made
      exact regular.served x.1 attempted ((addedBy_chunk accepts (regular.calm x.1 attempted) x.2).mp chunk)

-- A provider that answers any status with one frame, in a project that echoes it.
def hiSetting : Setting := ⟨fun payload => .ok ⟨[⟨none,some payload⟩],none⟩,id,true,fun _ _ => none,['r']⟩

def hiBody : Bytes := encode "data: x\n\n".toList

def told (status : Text) : Attempt :=
  ⟨none,[.data (encode ("HTTP/1.1 ".toList ++ status ++ " X\r\n\r\n".toList) ++ hiBody)],fun _ => none,none⟩

def calling (a : Attempt) : Calling := ⟨some ⟨['b'],['m']⟩,true,true,false,a,a⟩

theorem accepts_hi : Accepts hiSetting.sink := fun _ _ => rfl

theorem hear_hi (read : ∀ onBody : OnBody, onBody [] hiBody = none → readResponseWith id onBody (told status).socket = (.ok response,[hiBody])) :
    hear hiSetting (told status) = ⟨.ok response,[.data ['x']]⟩ := by
  have taken : refusal hiSetting (fun _ => none) [] hiBody = none := rfl
  have read : readResponseWith hiSetting.quoted (refusal hiSetting (told status).abort) (told status).socket = (.ok response,[hiBody]) :=
    read _ taken
  rw [hear,read]
  rfl

theorem read_served (onBody : OnBody) (taken : onBody [] hiBody = none) :
    readResponseWith id onBody (told "200".toList).socket = (.ok ⟨200,['X'],[],hiBody⟩,[hiBody]) := by
  change (match onBody [] hiBody with
    | some e => (.error (.error e),[hiBody])
    | none => (.ok ⟨200,['X'],[],hiBody⟩,[hiBody])) = (_ : Except Failure HttpResponse × List Bytes)
  rw [taken]

theorem read_refused (onBody : OnBody) (taken : onBody [] hiBody = none) :
    readResponseWith id onBody (told "500".toList).socket = (.ok ⟨500,['X'],[],hiBody⟩,[hiBody]) := by
  change (match onBody [] hiBody with
    | some e => (.error (.error e),[hiBody])
    | none => (.ok ⟨500,['X'],[],hiBody⟩,[hiBody])) = (_ : Except Failure HttpResponse × List Bytes)
  rw [taken]

theorem served_hi : Served (told "200".toList) := ⟨200,by decide,by decide,by decide⟩

theorem completion_proper_hi : Proper hiSetting (calling (told "200".toList)) := by
  have heard := hear_hi read_served
  have unrefused : refusalOf hiSetting (told "200".toList) = none := by
    rw [refusalOf,heard]
    rfl
  have made : ∀ a ∈ attempts hiSetting (calling (told "200".toList)), a = told "200".toList := by
    intro a member
    rw [attempts] at member
    change a ∈ told "200".toList ::
      (if true = true ∧ (refusalOf hiSetting (told "200".toList)).any isUnknownOptionRejection = true then _ else []) at member
    rw [unrefused] at member
    simpa using member
  apply (completion_proper accepts_hi _).mpr
  refine ⟨rfl,?_,?_,?_⟩
  · intro a member
    rw [made a member,Panics,heard]
    simp
  · intro a member
    rw [made a member,Hollow,heard]
    simp [speaks,finding,hiSetting,chunkText,choiceText]
  · intro a member _
    rw [made a member]
    exact served_hi

theorem speaks_unserved (accepts : Accepts k.sink) (passed : preflight k c = none) (calm : ¬ Panics k c.first) (speaks : Speaks k c.first)
    (status : headStatus c.first = some 500) : ¬ Proper k c := by
  intro proper
  have made : (c.first,[]) ∈ exchanges k c := by simp [exchanges,passed]
  obtain ⟨other,given,-,high⟩ := proper.chunks _ made ((addedBy_chunk accepts calm []).mpr speaks)
  cases status.symm.trans given
  exact absurd high (by decide)

-- The body reaches the decoder before the status is judged: the frame of a 500 is
-- streamed.
theorem refused_streams : ¬ ∀ k c, Accepts k.sink → preflight k c = none → Proper k c := by
  intro claim
  have heard := hear_hi read_refused
  have calm : ¬ Panics hiSetting (told "500".toList) := by
    rw [Panics,heard]
    simp
  have spoken : Speaks hiSetting (told "500".toList) := by
    rw [Speaks,heard]
    exact ⟨rfl,rfl⟩
  have improper := speaks_unserved (c:=calling (told "500".toList)) accepts_hi rfl calm spoken (by decide)
  exact improper (claim _ _ accepts_hi rfl)

end PrincessIDE.Ai
