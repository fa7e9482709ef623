import PrincessIDE.Ai.Exchange

namespace PrincessIDE.Ai
open Utf8 (Text Bytes)
open Str Error Event Effect Sse
open Http (HttpResponse Failure OnBody readResponseWith)

-- Whether the counts of a frame can be summed.
def adds (k : Setting) (event : SseEvent) : Bool := match finding k.parseChunk event with
  | .chunk (some usage) _ => (usage.toAiUsage k.overflowChecks).isSome
  | _ => true

def usageOf (k : Setting) (usage : AiUsage) (event : SseEvent) : AiUsage := match finding k.parseChunk event with
  | .chunk (some counts) _ => (counts.toAiUsage k.overflowChecks).getD usage
  | _ => usage

-- The frames of a read before the mark of the end.
def heardOf (k : Setting) (frames : List SseEvent) : List SseEvent :=
  frames.takeWhile fun event => finding k.parseChunk event ≠ .done

def decoderAfter (slices : List Bytes) : SseDecoder := slices.foldl (fun decoder bytes => (decoder.push bytes).2) .new

-- How the frames of a read, of which some are handled, are refused: with the
-- first where the read was aborted, else with counts that cannot be summed.
def refuse (k : Setting) (handled : List SseEvent) : Option Bool → List SseEvent → Option PrincessError
  | some token,_ :: _ => some (cancelledError token k.requestId)
  | some _,[] => none
  | none,_ => if handled.all (adds k) then none else some overflowed

-- What the callback says to a slice.
def refusal (k : Setting) (abort : Nat → Option Bool) : OnBody := fun slices bytes =>
  let frames := ((decoderAfter slices).push bytes).1
  refuse k (heardOf k frames) (abort slices.length) frames

def heardFrom (k : Setting) (abort : Nat → Option Bool) : Nat → SseDecoder → List Bytes → List SseEvent
  | _,_,[] => []
  | i,decoder,bytes :: rest =>
    (if abort i = none then heardOf k (decoder.push bytes).1 else []) ++ heardFrom k abort (i+1) (decoder.push bytes).2 rest

-- What a provider's answer amounts to, whatever is done with it: how it ends, and
-- the frames that are handled.
structure Answer where
  outcome : Except Failure HttpResponse
  frames : List SseEvent

def heardOn (k : Setting) (a : Attempt) (outcome : Except Failure HttpResponse) (slices : List Bytes) : Answer :=
  let tail := if outcome.isOk then (decoderAfter slices).finish.1 else []
  let frames := heardFrom k a.abort 0 .new slices ++ if a.abortTail = none then tail else []
  let ended := match refuse k [] a.abortTail tail with
    | some e => .error (.error e)
    | none => outcome
  ⟨if frames.all (adds k) then ended else .error .overflow,frames⟩

def hear (k : Setting) (a : Attempt) : Answer :=
  let read := readResponseWith k.quoted (refusal k a.abort) a.socket
  heardOn k a read.1 read.2

variable {k : Setting}

-- An action that handles some frames: it fails exactly on counts that cannot be
-- summed, in a panic.
def Heeds (k : Setting) (frames : List SseEvent) (x : Staged Unit) : Prop := ∀ s, (after x s).decoder = s.decoder ∧
  if frames.all (adds k) then
    answer x s = .ok () ∧ (after x s).panicked = s.panicked ∧
    (after x s).sawContent = (s.sawContent || frames.any (speaks k)) ∧ (after x s).usage = frames.foldl (usageOf k) s.usage
  else answer x s = .error overflowed ∧ (after x s).panicked = true

theorem heeds_idle (decoder : ∀ s, (f s).decoder = s.decoder) (panicked : ∀ s, (f s).panicked = s.panicked)
    (saw : ∀ s, (f s).sawContent = s.sawContent) (usage : ∀ s, (f s).usage = s.usage) : Heeds k [] (modify f) := by
  intro s
  simp [decoder,panicked,saw,usage]

theorem heeds_pure : Heeds k [] (pure ()) := by
  intro s
  simp

theorem Heeds.bind (first : Heeds k one x) (second : Heeds k two y) : Heeds k (one ++ two) (x >>= fun _ => y) := by
  intro s
  obtain ⟨decoder,here⟩ := first s
  obtain ⟨decoder',there⟩ := second (after x s)
  rw [after_bind,answer_bind,List.all_append]
  cases sums : one.all (adds k) with
  | false =>
    rw [sums] at here
    obtain ⟨failed,panicked⟩ := here
    rw [failed]
    exact ⟨decoder,rfl,panicked⟩
  | true =>
    rw [sums] at here
    obtain ⟨ok,panicked,saw,usage⟩ := here
    rw [ok]
    refine ⟨decoder'.trans decoder,?_⟩
    rw [Bool.true_and]
    cases sums' : two.all (adds k) with
    | false =>
      rw [sums'] at there
      exact there
    | true =>
      rw [sums'] at there
      obtain ⟨ok',panicked',saw',usage'⟩ := there
      refine ⟨ok',panicked'.trans panicked,?_,?_⟩
      · dsimp only
        rw [saw',saw,List.any_append,Bool.or_assoc]
      · dsimp only
        rw [usage',usage,List.foldl_append]

theorem log_heeds (accepts : Accepts k.sink) (text : Text) : Heeds k [] (sending (log k.sink .ide text)) := by
  intro s
  simp [after,answer,log,sending_run accepts]

theorem takeText_run (accepts : Accepts k.sink) (text : Option Text) (s : Stage) : ∃ events,
    (takeText k text).run s = .ok () {s with sawContent:=s.sawContent || text.isSome,events:=events} := by
  cases text with
  | none => exact ⟨s.events,by simp [takeText]⟩
  | some text =>
    refine ⟨s.events ++ [EventBody.aiChunk ⟨k.requestId,text⟩],?_⟩
    rw [takeText]
    have marked : (modify fun s => {s with sawContent:=true} : Staged PUnit).run s = .ok ⟨⟩ {s with sawContent:=true} := rfl
    rw [run_bind_ok marked,sending_run accepts]
    simp

theorem speaks_chunk (found : finding k.parseChunk event = .chunk usage text) : speaks k event = text.isSome := by
  rw [speaks,found]
  cases text <;> rfl

theorem chunk_heeds (accepts : Accepts k.sink) (found : finding k.parseChunk event = .chunk usage text) :
    Heeds k [event] (takeUsage k usage >>= fun _ => takeText k text) := by
  intro s
  have speech := speaks_chunk found
  cases usage with
  | none =>
    obtain ⟨events,ran⟩ := takeText_run accepts text s
    simp [takeUsage,after,answer,ran,adds,usageOf,found,speech]
  | some counts =>
    cases total : counts.toAiUsage k.overflowChecks with
    | none => simp [takeUsage,total,after_bind,answer_bind,adds,found]
    | some usage =>
      obtain ⟨events,ran⟩ := takeText_run accepts text {s with usage:=usage}
      have set : (takeUsage k (some counts)).run s = .ok () {s with usage:=usage} := by
        rw [takeUsage,total]
        rfl
      simp [after,answer,run_bind_ok set,ran,adds,usageOf,found,speech,total]

-- Frames without a chunk count for nothing.
theorem silent_heeds (quiet : ∀ usage text, finding k.parseChunk event ≠ .chunk usage text) (heeds : Heeds k frames x) :
    Heeds k (event :: frames) x := by
  have alike : adds k event = true ∧ speaks k event = false ∧ ∀ usage, usageOf k usage event = usage := by
    unfold adds speaks usageOf
    cases found : finding k.parseChunk event with
    | chunk usage text => exact absurd found (quiet usage text)
    | done => exact ⟨rfl,rfl,fun _ => rfl⟩
    | unparsed complaint => exact ⟨rfl,rfl,fun _ => rfl⟩
  intro s
  have here := heeds s
  rw [List.all_cons,List.any_cons,List.foldl_cons,alike.1,alike.2.1,alike.2.2]
  exact here

theorem onFrames_heeds (accepts : Accepts k.sink) (frames : List SseEvent) : Heeds k (heardOf k frames) (onFrames k frames) := by
  induction frames with
  | nil => exact heeds_pure
  | cons event rest ih =>
    unfold onFrames
    cases found : finding k.parseChunk event with
    | done =>
      rw [heardOf,List.takeWhile_cons_of_neg (by simp [found])]
      exact heeds_idle (fun _ => rfl) (fun _ => rfl) (fun _ => rfl) (fun _ => rfl)
    | unparsed complaint =>
      rw [heardOf,List.takeWhile_cons_of_pos (by simp [found])]
      exact (silent_heeds (by simp [found]) (log_heeds accepts _)).bind ih
    | chunk usage text =>
      rw [heardOf,List.takeWhile_cons_of_pos (by simp [found])]
      have chunk := (chunk_heeds accepts found).bind ih
      rw [bind_assoc] at chunk
      exact chunk

theorem onTail_heeds (accepts : Accepts k.sink) (frames : List SseEvent) : Heeds k frames (onTail k frames) := by
  induction frames with
  | nil => exact heeds_pure
  | cons event rest ih =>
    unfold onTail
    cases found : finding k.parseChunk event with
    | done => exact silent_heeds (by simp [found]) ih
    | unparsed complaint => exact silent_heeds (by simp [found]) ih
    | chunk usage text =>
      have chunk := (chunk_heeds accepts found).bind ih
      rw [bind_assoc] at chunk
      exact chunk

-- What some handled frames did to a stage.
def Took (k : Setting) (frames : List SseEvent) (s t : Stage) : Prop :=
  if frames.all (adds k) then
    t.panicked = s.panicked ∧ t.sawContent = (s.sawContent || frames.any (speaks k)) ∧ t.usage = frames.foldl (usageOf k) s.usage
  else t.panicked = true

theorem took_nil (panicked : t.panicked = s.panicked) (saw : t.sawContent = s.sawContent) (usage : t.usage = s.usage) : Took k [] s t := by
  simp [Took,panicked,saw,usage]

theorem Took.trans (first : Took k one s t) (second : Took k two t u) : Took k (one ++ two) s u := by
  unfold Took at *
  rw [List.all_append]
  cases sums : one.all (adds k) with
  | false =>
    simp only [sums,Bool.false_eq_true,if_false] at first
    cases sums' : two.all (adds k) with
    | false =>
      simp only [sums',Bool.false_eq_true,if_false] at second
      exact second
    | true =>
      simp only [sums',if_true] at second
      exact second.1.trans first
  | true =>
    simp only [sums,if_true] at first
    rw [Bool.true_and]
    cases sums' : two.all (adds k) with
    | false =>
      simp only [sums',Bool.false_eq_true,if_false] at second
      exact second
    | true =>
      simp only [sums',if_true] at second
      rw [if_pos rfl,second.1,second.2.1,second.2.2,first.1,first.2.1,first.2.2,List.any_append,List.foldl_append,Bool.or_assoc]
      exact ⟨rfl,rfl,rfl⟩

theorem Heeds.took (heeds : Heeds k frames x) (s : Stage) : Took k frames s (after x s) := by
  have here := (heeds s).2
  unfold Took
  split at here
  · rename_i sums
    rw [if_pos sums]
    exact here.2
  · rename_i sums
    rw [if_neg sums]
    exact here.2

def complaint (x : Staged Unit) (s : Stage) : Option PrincessError := match x.run s with
  | .ok _ _ => none
  | .error e _ => some e

theorem complaint_ok (ok : answer x s = .ok ()) : complaint x s = none := by
  unfold answer at ok
  unfold complaint
  cases ran : x.run s with
  | ok _ t => rfl
  | error e t =>
    rw [ran] at ok
    cases ok

theorem complaint_error (error : answer x s = .error e) : complaint x s = some e := by
  unfold answer at error
  unfold complaint
  cases ran : x.run s with
  | ok _ t =>
    rw [ran] at error
    cases error
  | error e t =>
    rw [ran] at error
    cases error
    rfl

theorem unlessAborted_frames {handle : List SseEvent → Staged Unit} (idle : handle [] = pure ())
    (heeds : Heeds k handled (handle frames)) (abort : Option Bool) (s : Stage) : (after (unlessAborted k abort frames handle) s).decoder = s.decoder ∧
    Took k (if abort = none then handled else []) s (after (unlessAborted k abort frames handle) s) ∧
    complaint (unlessAborted k abort frames handle) s = refuse k handled abort frames := by
  cases abort with
  | some token =>
    rw [if_neg (by simp)]
    cases frames with
    | nil =>
      rw [unlessAborted,idle]
      · exact ⟨rfl,took_nil rfl rfl rfl,rfl⟩
      · intro _ _ _ _ more
        cases more
    | cons event rest => exact ⟨rfl,took_nil rfl rfl rfl,rfl⟩
  | none =>
    rw [if_pos rfl]
    refine ⟨(heeds _).1,heeds.took _,?_⟩
    have here := (heeds s).2
    cases sums : handled.all (adds k) with
    | true =>
      simp only [sums,if_true] at here
      rw [refuse,sums]
      exact complaint_ok here.1
    | false =>
      simp only [sums,Bool.false_eq_true,if_false] at here
      rw [refuse,sums]
      exact complaint_error here.1

theorem onBody_frames (accepts : Accepts k.sink) (abort : Option Bool) (bytes : Bytes) (s : Stage) :
    (after (onBody k abort bytes) s).decoder = (s.decoder.push bytes).2 ∧
    Took k (if abort = none then heardOf k (s.decoder.push bytes).1 else []) s (after (onBody k abort bytes) s) ∧
    complaint (onBody k abort bytes) s = refuse k (heardOf k (s.decoder.push bytes).1) abort (s.decoder.push bytes).1 :=
  unlessAborted_frames rfl (onFrames_heeds accepts _) abort {s with decoder:=(s.decoder.push bytes).2}

theorem flush_frames (accepts : Accepts k.sink) (abort : Option Bool) (s : Stage) :
    Took k (if abort = none then s.decoder.finish.1 else []) s (after (flush k abort) s) ∧
    complaint (flush k abort) s = refuse k s.decoder.finish.1 abort s.decoder.finish.1 :=
  (unlessAborted_frames rfl (onTail_heeds accepts _) abort {s with decoder:=s.decoder.finish.2}).2

theorem stageFrom_frames (accepts : Accepts k.sink) (abort : Nat → Option Bool) (i : Nat) (s : Stage) (slices : List Bytes) :
    (stageFrom k abort i s slices).decoder = slices.foldl (fun decoder bytes => (decoder.push bytes).2) s.decoder ∧
    Took k (heardFrom k abort i s.decoder slices) s (stageFrom k abort i s slices) := by
  induction slices generalizing i s with
  | nil => exact ⟨rfl,took_nil rfl rfl rfl⟩
  | cons bytes rest ih =>
    obtain ⟨decoder,took,-⟩ := onBody_frames accepts (abort i) bytes s
    obtain ⟨decoder',took'⟩ := ih (i+1) (after (onBody k (abort i) bytes) s)
    rw [decoder] at decoder' took'
    exact ⟨decoder',took.trans took'⟩

theorem callback_refusal (accepts : Accepts k.sink) (abort : Nat → Option Bool) (events : List EventBody) :
    callback k abort (.start events) = refusal k abort := by
  funext slices bytes
  have decoder := (stageFrom_frames accepts abort 0 (.start events) slices).1
  have here := (onBody_frames accepts (abort slices.length) bytes (stageFrom k abort 0 (.start events) slices)).2.2
  rw [decoder] at here
  exact here

-- No slice of a complete response was refused, so that every count was summed.
theorem heardFrom_adds (front : List Bytes) (agreed : Http.Agreed (refusal k abort) front slices) :
    (heardFrom k abort front.length (decoderAfter front) slices).all (adds k) = true := by
  induction slices generalizing front with
  | nil => rfl
  | cons bytes rest ih =>
    have here := agreed [] bytes rest rfl
    rw [List.append_nil] at here
    have later : Http.Agreed (refusal k abort) (front ++ [bytes]) rest := by
      intro next last back split
      rw [List.append_assoc]
      exact agreed ([bytes] ++ next) last back (by rw [split]; rfl)
    have rest := ih (front ++ [bytes]) later
    rw [List.length_append,List.length_singleton,decoderAfter,List.foldl_append] at rest
    rw [heardFrom,List.all_append,Bool.and_eq_true]
    refine ⟨?_,rest⟩
    unfold refusal refuse at here
    cases sample : abort front.length with
    | some token => rw [if_neg (by simp)]; rfl
    | none =>
      rw [sample] at here
      rw [if_pos rfl]
      dsimp only at here
      split at here
      · rename_i sums
        exact sums
      · cases here

theorem refuse_sums (sums : abort = none → handled.all (adds k) = true) (frames : List SseEvent) :
    refuse k handled abort frames = refuse k [] abort frames := by
  cases abort with
  | some token => cases frames <;> rfl
  | none => rw [refuse,if_pos (sums rfl)]; rfl

theorem Took.panicked (took : Took k frames s t) (calm : s.panicked = false) : t.panicked = !frames.all (adds k) := by
  unfold Took at took
  cases sums : frames.all (adds k) with
  | true =>
    simp only [sums,if_true] at took
    exact took.1.trans calm
  | false =>
    simp only [sums,Bool.false_eq_true,if_false] at took
    exact took

theorem panicOr_took (took : Took k frames s t) (calm : s.panicked = false) (e : PrincessError) :
    (.error (panicOr t e) : Except Failure HttpResponse) = if frames.all (adds k) then .error (.error e) else .error .overflow := by
  rw [panicOr,took.panicked calm]
  cases frames.all (adds k) <;> rfl

-- What an exchange receives, for a sink that takes everything.
theorem receive_hear (accepts : Accepts k.sink) (a : Attempt) (events : List EventBody) :
    (receive k a events).1 = (hear k a).outcome ∧ Took k (hear k a).frames (.start events) (receive k a events).2 := by
  rw [receive,hear,callback_refusal accepts]
  dsimp only
  obtain ⟨decoder,took⟩ := stageFrom_frames accepts a.abort 0 (.start events) (readResponseWith k.quoted (refusal k a.abort) a.socket).2
  have agreed : ∀ response, (readResponseWith k.quoted (refusal k a.abort) a.socket).1 = .ok response →
      (heardFrom k a.abort 0 .new (readResponseWith k.quoted (refusal k a.abort) a.socket).2).all (adds k) = true := by
    intro response ok
    exact heardFrom_adds [] (Http.readResponse_agreed (Prod.ext ok rfl))
  generalize readResponseWith k.quoted (refusal k a.abort) a.socket = read at *
  obtain ⟨outcome,slices⟩ := read
  rw [heardOn]
  have empty : (if a.abortTail = none then ([] : List SseEvent) else []) = [] := ite_self _
  have unasked : refuse k [] a.abortTail [] = none := by cases a.abortTail <;> rfl
  cases outcome with
  | error failure =>
    simp only [Except.isOk,Except.toBool,Bool.false_eq_true,if_false,empty,List.append_nil,unasked]
    cases failure with
    | overflow => exact ⟨(ite_self _).symm,took⟩
    | error e => exact ⟨panicOr_took took rfl e,took⟩
  | ok response =>
    have sums := agreed response rfl
    obtain ⟨flushed,answered⟩ := flush_frames accepts a.abortTail (stageFrom k a.abort 0 (.start events) slices)
    rw [decoder] at flushed answered
    have both := took.trans flushed
    change complaint _ _ = refuse k (decoderAfter slices).finish.1 a.abortTail (decoderAfter slices).finish.1 at answered
    change Took k (heardFrom k a.abort 0 .new slices ++ if a.abortTail = none then (decoderAfter slices).finish.1 else []) _ _ at both
    simp only [Except.isOk,Except.toBool,if_true]
    generalize (decoderAfter slices).finish.1 = tail at answered both
    unfold complaint at answered
    have summed : ((heardFrom k a.abort 0 .new slices ++ if a.abortTail = none then tail else []).all (adds k) = true) ↔
        (a.abortTail = none → tail.all (adds k) = true) := by
      rw [List.all_append,sums,Bool.true_and]
      split
      · rename_i asked
        simp [asked]
      · rename_i unasked
        simp [unasked]
    cases ran : (flush k a.abortTail).run (stageFrom k a.abort 0 (.start events) slices) with
    | ok _ t =>
      rw [after_ok ran] at both
      rw [ran] at answered
      dsimp only at answered
      refine ⟨?_,both⟩
      have all : a.abortTail = none → tail.all (adds k) = true := by
        intro asked
        rw [asked,refuse] at answered
        split at answered
        · rename_i here
          exact here
        · cases answered
      rw [if_pos (summed.mpr all),← refuse_sums all,← answered]
    | error e t =>
      rw [after_error ran] at both
      rw [ran] at answered
      dsimp only at answered
      refine ⟨?_,both⟩
      dsimp only
      rw [panicOr_took both rfl e]
      by_cases all : a.abortTail = none → tail.all (adds k) = true
      · rw [if_pos (summed.mpr all),if_pos (summed.mpr all),← refuse_sums all,← answered]
      · rw [if_neg (fun here => all (summed.mp here)),if_neg (fun here => all (summed.mp here))]

theorem hear_sums (calm : (hear k a).outcome ≠ .error .overflow) : (hear k a).frames.all (adds k) = true := by
  by_contra unsummed
  apply calm
  rw [hear,heardOn] at unsummed ⊢
  exact if_neg unsummed

-- An exchange that does not panic has seen what was to be heard.
theorem receive_heard (accepts : Accepts k.sink) (events : List EventBody) (calm : (hear k a).outcome ≠ .error .overflow) :
    (receive k a events).2.sawContent = (hear k a).frames.any (speaks k) ∧
    (receive k a events).2.usage = (hear k a).frames.foldl (usageOf k) ⟨0,0,0⟩ := by
  have took := (receive_hear accepts a events).2
  rw [Took,if_pos (hear_sums calm)] at took
  exact ⟨took.2.1.trans (Bool.false_or _),took.2.2⟩

end PrincessIDE.Ai
