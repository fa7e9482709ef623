import PrincessIDE.Ai.Heard
import PrincessIDE.Ai.Replies

namespace PrincessIDE.Http
open Utf8 Str Error

theorem readBody_extends (quoted : Text → Text) (onBody : OnBody) (f : Framing) (slices : List Bytes) (body : Bytes) (socket : List Arrival) :
    ∃ used, (readBody quoted onBody f slices body socket).2 = slices ++ used := by
  induction socket generalizing slices body with
  | nil =>
    refine ⟨[],?_⟩
    unfold readBody
    split <;> simp
  | cons a socket ih =>
    unfold readBody
    split
    · exact ⟨[],by simp⟩
    · split
      · exact ⟨[],by simp⟩
      · exact ⟨[],by simp⟩
      · exact ⟨[],by simp⟩
      · exact ⟨[],by simp⟩
      · next b bytes rest shape =>
        cases shape
        split
        · exact ⟨[],by simp⟩
        · next next grown =>
          split
          · exact ⟨[b::bytes],rfl⟩
          · obtain ⟨used,more⟩ := ih (slices ++ [b::bytes]) next
            exact ⟨(b::bytes) :: used,by rw [more,List.append_assoc]; rfl⟩

-- A callback that agrees to the slices of the call is as good as none.
theorem readBody_quiet {onBody : OnBody} (agreed : ∀ used, (readBody quoted accepting f slices body socket).2 = slices ++ used → Agreed onBody slices used) :
    readBody quoted onBody f slices body socket = readBody quoted accepting f slices body socket := by
  induction socket generalizing slices body with
  | nil =>
    unfold readBody
    rfl
  | cons a socket ih =>
    unfold readBody at agreed ⊢
    cases told : verdict quoted f body with
    | some done => rfl
    | none =>
      rw [told] at agreed
      cases a with
      | closed | failed e => rfl
      | data read => cases read with
        | nil => rfl
        | cons b read =>
          dsimp only at agreed ⊢
          cases grown : grow readingBody body (b::read) with
          | error e => rfl
          | ok next =>
            rw [grown] at agreed
            simp only [accepting] at agreed ⊢
            obtain ⟨used,more⟩ := readBody_extends quoted accepting f (slices ++ [b::read]) next socket
            have all := agreed ((b::read) :: used) (by rw [List.append_assoc] at more; exact more)
            have here : onBody slices (b::read) = none := by
              have first := all [] (b::read) used rfl
              rwa [List.append_nil] at first
            rw [here]
            apply ih
            intro used' more'
            have same : used' = used := List.append_cancel_left (more'.symm.trans more)
            subst same
            intro front bytes back split
            rw [List.append_assoc]
            exact all ((b::read) :: front) bytes back (by rw [split]; rfl)

theorem readResponse_quiet {onBody : OnBody} (agreed : Agreed onBody [] (readResponseWith quoted accepting socket).2) :
    readResponseWith quoted onBody socket = readResponseWith quoted accepting socket := by
  unfold readResponseWith at agreed ⊢
  cases read : readHead [] socket with
  | mk outcome rest =>
    rw [read] at agreed
    cases outcome with
    | error e => rfl
    | ok found =>
      obtain ⟨headerEnd,buf⟩ := found
      dsimp only at agreed ⊢
      cases parsed : parseStatusLine ((headLines (lossy (buf.take headerEnd))).headD []) with
      | error e => rfl
      | ok line =>
        obtain ⟨status,reason⟩ := line
        rw [parsed] at agreed
        dsimp only at agreed ⊢
        cases encoded : checkEncoding (parseHeaders (headLines (lossy (buf.take headerEnd))).tail) with
        | error e => rfl
        | ok encoding =>
          rw [encoded] at agreed
          dsimp only at agreed ⊢
          generalize framing (parseHeaders (headLines (lossy (buf.take headerEnd))).tail) = f at agreed ⊢
          generalize buf.drop (headerEnd+4) = body at agreed ⊢
          have callback : (if body = [] then none else accepting [] body) = none := ite_self _
          rw [callback] at agreed ⊢
          dsimp only at agreed ⊢
          obtain ⟨used,more⟩ := readBody_extends quoted accepting f (if body = [] then [] else [body]) body rest
          have given : Agreed onBody [] ((if body = [] then [] else [body]) ++ used) := by
            cases ran : readBody quoted accepting f (if body = [] then [] else [body]) body rest with
            | mk outcome slices =>
              rw [ran] at agreed more
              cases outcome <;> exact more ▸ agreed
          have first : (if body = [] then none else onBody [] body) = none := by
            by_cases empty : body = []
            · rw [if_pos empty]
            · rw [if_neg empty] at given ⊢
              exact given [] body used rfl
          have later : ∀ rest', (readBody quoted accepting f (if body = [] then [] else [body]) body rest).2 =
              (if body = [] then [] else [body]) ++ rest' → Agreed onBody (if body = [] then [] else [body]) rest' := by
            intro rest' more'
            have same : rest' = used := List.append_cancel_left (more'.symm.trans more)
            subst same
            intro front bytes back split
            exact given ((if body = [] then [] else [body]) ++ front) bytes back (by rw [split,List.append_assoc])
          rw [first]
          dsimp only
          rw [readBody_quiet later]

-- Whether the framing takes exactly these bytes for a body.
def Takes (h : Head) (ending : Option PrincessError) (body : Bytes) : Prop :=
  framing h.headers = .declared body.length ∨ framing h.headers = .untilClose ∧ ending = none

-- A reply with its body, and the slices of the body that the callback is given.
theorem readResponse_written (h : Head) (plain : checkEncoding h.headers = .ok ()) (takes : Takes h (endOf socket) body)
    (small : (encode h.text).length ≤ maxHeaderBytes) (fits : (encode h.text ++ body).length ≤ maxResponseBytes)
    (bytes : (delivered socket).flatten = encode h.text ++ body) : ∃ slices, slices.flatten = body ∧
      readResponseWith quoted accepting socket = (.ok ⟨h.status.toNat,h.reason,h.headers,body⟩,slices) := by
  have told : (readResponseWith quoted accepting socket).1 = .ok ⟨h.status.toNat,h.reason,h.headers,body⟩ := by
    have early : ∀ pos, findHeaderEnd (delivered socket).flatten = some pos → pos+3 ≤ maxHeaderBytes := by
      intro pos found
      rw [bytes,findHeaderEnd_written] at found
      rw [h.text_length] at small
      cases found
      omega
    rw [readResponse_respond (bytes ▸ fits) early,bytes,respond_written h plain]
    rcases takes with declared | ⟨close,ends⟩
    · rw [declared,verdict,if_neg (Nat.lt_irrefl _),List.take_length]
      rfl
    · rw [close,ends]
      rfl
  cases read : readResponseWith quoted accepting socket with
  | mk outcome slices =>
    rw [read] at told
    obtain rfl : outcome = _ := told
    obtain ⟨headerEnd,buf,rest,used,last,head,given,returns⟩ := readResponse_ok read
    obtain ⟨first,taken,whole,found,-⟩ := readHead_ok head
    rw [List.nil_append] at whole
    have stream : (delivered socket).flatten = buf ++ (used.flatten ++ (delivered last).flatten) := by
      rw [taken,returns.taken,whole]
      simp
    have enough := findHeaderEnd_bound found
    have start := findHeaderEnd_append found (used.flatten ++ (delivered last).flatten)
    rw [← stream,bytes,findHeaderEnd_written] at start
    cases start
    have front : buf.take (encode (broken h.statusLine (h.fields.map Field.line))).length =
        encode (broken h.statusLine (h.fields.map Field.line)) := by
      have both := congrArg (List.take (encode (broken h.statusLine (h.fields.map Field.line))).length) (bytes.symm.trans stream)
      rw [h.text_bytes,List.take_left,List.take_append_of_le_length (by omega)] at both
      exact both.symm
    have rows : framing (headersOf (lossy (buf.take (encode (broken h.statusLine (h.fields.map Field.line))).length))) = framing h.headers := by
      rw [front,lossy_encode,headersOf,headLines_broken h.lines_plain,List.tail_cons,parseHeaders_written]
      rfl
    have behind : body = buf.drop ((encode (broken h.statusLine (h.fields.map Field.line))).length+4) ++
        (used.flatten ++ (delivered last).flatten) := by
      have both := congrArg (List.drop ((encode (broken h.statusLine (h.fields.map Field.line))).length+4)) (bytes.symm.trans stream)
      rwa [← h.text_length,List.drop_left,h.text_length,List.drop_append_of_le_length enough] at both
    rw [rows] at returns
    have nothing : (delivered last).flatten = [] := by
      rcases returns.ending with done | ⟨_,closes,_⟩
      · rcases takes with declared | ⟨close,_⟩
        · rw [declared] at done
          have all : ¬ (buf.drop ((encode (broken h.statusLine (h.fields.map Field.line))).length+4) ++ used.flatten).length < body.length := by
            intro short
            rw [verdict,if_pos short] at done
            cases done
          have lengths := congrArg List.length behind
          simp only [List.length_append] at lengths all
          exact List.eq_nil_of_length_eq_zero (by omega)
        · rw [close] at done
          cases done
      · rw [show delivered last = [] from closes]
        rfl
    rw [nothing,List.append_nil] at behind
    exact ⟨slices,given.trans behind.symm,rfl⟩

end PrincessIDE.Http

namespace PrincessIDE.Ai
open Utf8 (Text Bytes encode lossy)
open Str Error Event Effect Sse
open Http (HttpResponse Failure Arrival Head readResponseWith readResponse_quiet readResponse_written accepting Agreed)

def skippedText (complaint : Text) : Text := "ai: skipped an unparseable stream frame: ".toList ++ complaint ++ ['\n']

-- What a frame of the stream does to a stage, where its counts can be summed.
def heed (k : Setting) (s : Stage) (event : SseEvent) : Stage := match finding k.parseChunk event with
  | .done => {s with sawDone:=true}
  | .unparsed complaint => {s with events:=s.events ++ [logged (skippedText complaint)]}
  | .chunk _ text => {s with
      usage:=usageOf k s.usage event
      sawContent:=s.sawContent || text.isSome
      events:=s.events ++ (text.map fun t => EventBody.aiChunk ⟨k.requestId,t⟩).toList}

-- At the end of a stream only chunks count.
def heedTail (k : Setting) (s : Stage) (event : SseEvent) : Stage := match finding k.parseChunk event with
  | .chunk _ _ => heed k s event
  | _ => s

variable {k : Setting}

theorem chunk_run (accepts : Accepts k.sink) (found : finding k.parseChunk event = .chunk usage text) (sums : adds k event = true) (s : Stage) :
    (takeUsage k usage >>= fun _ => takeText k text).run s = .ok () (heed k s event) := by
  have counted : (takeUsage k usage).run s = .ok () {s with usage:=usageOf k s.usage event} := by
    unfold usageOf
    unfold adds at sums
    rw [found] at sums ⊢
    cases usage with
    | none => rfl
    | some counts =>
      obtain ⟨total,fits⟩ := Option.isSome_iff_exists.mp sums
      dsimp only
      rw [takeUsage,fits]
      rfl
  rw [run_bind_ok counted,heed,found]
  cases text with
  | none => simp [takeText]
  | some text =>
    have marked : ∀ t : Stage, (modify fun s => {s with sawContent:=true} : Staged PUnit).run t = .ok ⟨⟩ {t with sawContent:=true} := fun _ => rfl
    rw [takeText,run_bind_ok (marked _),sending_run accepts]
    simp

theorem finding_done : finding parseChunk event = .done ↔ event = .done := by
  cases event with
  | done => exact ⟨fun _ => rfl,fun _ => rfl⟩
  | data payload =>
    cases parsed : parseChunk payload <;> simp [finding,parsed]

-- The mark of the end stands behind every other frame.
def DoneLast (frames : List SseEvent) : Prop := ∀ before after, frames = before ++ .done :: after → after = []

theorem DoneLast.tail (last : DoneLast (event :: frames)) : DoneLast frames := by
  intro before after split
  exact last (event :: before) after (by rw [split]; rfl)

theorem onFrames_run (accepts : Accepts k.sink) (last : DoneLast frames) (sums : frames.all (adds k) = true) (s : Stage) :
    (onFrames k frames).run s = .ok () (frames.foldl (heed k) s) := by
  induction frames generalizing s with
  | nil => rfl
  | cons event rest ih =>
    rw [List.all_cons,Bool.and_eq_true] at sums
    have later := ih last.tail sums.2 (heed k s event)
    rw [List.foldl_cons,← later,onFrames]
    cases found : finding k.parseChunk event with
    | done =>
      obtain rfl := finding_done.mp found
      obtain rfl := last [] rest rfl
      rw [heed,found]
      rfl
    | unparsed complaint =>
      have wrote : (sending (log k.sink .ide (skippedText complaint))).run s = .ok () (heed k s event) := by
        rw [heed,found]
        exact sending_run accepts _ s
      exact run_bind_ok wrote _
    | chunk usage text =>
      have here := chunk_run accepts found sums.1 s
      have whole := run_bind_ok here fun _ => onFrames k rest
      rw [bind_assoc] at whole
      exact whole

theorem onTail_run (accepts : Accepts k.sink) (sums : frames.all (adds k) = true) (s : Stage) :
    (onTail k frames).run s = .ok () (frames.foldl (heedTail k) s) := by
  induction frames generalizing s with
  | nil => rfl
  | cons event rest ih =>
    rw [List.all_cons,Bool.and_eq_true] at sums
    have later := ih sums.2 (heedTail k s event)
    rw [List.foldl_cons,← later,onTail,heedTail]
    cases found : finding k.parseChunk event with
    | done | unparsed complaint => rfl
    | chunk usage text =>
      have here := chunk_run accepts found sums.1 s
      have whole := run_bind_ok here fun _ => onTail k rest
      rw [bind_assoc] at whole
      exact whole

theorem onBody_run (accepts : Accepts k.sink) {s : Stage} (last : DoneLast (s.decoder.push bytes).1)
    (sums : (s.decoder.push bytes).1.all (adds k) = true) :
    (onBody k none bytes).run s = .ok () ((s.decoder.push bytes).1.foldl (heed k) {s with decoder:=(s.decoder.push bytes).2}) :=
  onFrames_run accepts last sums {s with decoder:=(s.decoder.push bytes).2}

theorem flush_run (accepts : Accepts k.sink) {s : Stage} (sums : s.decoder.finish.1.all (adds k) = true) :
    (flush k none).run s = .ok () (s.decoder.finish.1.foldl (heedTail k) {s with decoder:=s.decoder.finish.2}) :=
  onTail_run accepts sums {s with decoder:=s.decoder.finish.2}

-- A frame leaves the decoder as it is, and does not depend on it.
theorem heed_decoder (s : Stage) (decoder : SseDecoder) (event : SseEvent) :
    heed k {s with decoder:=decoder} event = {heed k s event with decoder:=decoder} ∧ (heed k s event).decoder = s.decoder := by
  unfold heed
  cases finding k.parseChunk event <;> exact ⟨rfl,rfl⟩

theorem heeds_decoder (s : Stage) (decoder : SseDecoder) (frames : List SseEvent) :
    frames.foldl (heed k) {s with decoder:=decoder} = {frames.foldl (heed k) s with decoder:=decoder} ∧
      (frames.foldl (heed k) s).decoder = s.decoder := by
  induction frames generalizing s with
  | nil => exact ⟨rfl,rfl⟩
  | cons event rest ih =>
    rw [List.foldl_cons,List.foldl_cons,(heed_decoder s decoder event).1]
    exact ⟨(ih _).1,(ih _).2.trans (heed_decoder s decoder event).2⟩

-- What a push brings has the mark of the end only behind the rest.
theorem push_last (a bytes : Bytes) : DoneLast ((Sse.decoderAfter a).push bytes).1 := by
  intro before after split
  have whole := (push_after a bytes).2
  rw [split,← List.append_assoc] at whole
  exact throughDone_last whole.symm

-- By induction on the slices: the stage is that of all the frames they bring.
theorem stageFrom_run (accepts : Accepts k.sink) (a : Bytes) (slices : List Bytes) (i : Nat) (s : Stage)
    (sums : ((Sse.decoderAfter a).pushAll slices).1.all (adds k) = true) :
    stageFrom k (fun _ => none) i {s with decoder:=Sse.decoderAfter a} slices =
      ((Sse.decoderAfter a).pushAll slices).1.foldl (heed k) {s with decoder:=Sse.decoderAfter (a ++ slices.flatten)} := by
  induction slices generalizing a i s with
  | nil =>
    rw [List.flatten_nil,List.append_nil]
    rfl
  | cons bytes rest ih =>
    rw [SseDecoder.pushAll,List.all_append,Bool.and_eq_true] at sums
    have state := (push_after a bytes).1
    have here : after (onBody k none bytes) {s with decoder:=Sse.decoderAfter a} =
        ((Sse.decoderAfter a).push bytes).1.foldl (heed k) {s with decoder:=((Sse.decoderAfter a).push bytes).2} :=
      after_ok (onBody_run accepts (push_last a bytes) sums.1)
    have step : after (onBody k none bytes) {s with decoder:=Sse.decoderAfter a} =
        {((Sse.decoderAfter a).push bytes).1.foldl (heed k) s with decoder:=Sse.decoderAfter (a++bytes)} := by
      rw [here,state]
      exact (heeds_decoder s _ _).1
    rw [state] at sums
    rw [stageFrom,step,ih (a++bytes) (i+1) _ sums.2,SseDecoder.pushAll,state,List.foldl_append,List.flatten_cons,List.append_assoc]
    exact congrArg (fun t => ((Sse.decoderAfter (a++bytes)).pushAll rest).1.foldl (heed k) t) (heeds_decoder s _ _).1.symm

-- The stage that all the bytes of a body lead to.
def toldBy (k : Setting) (events : List EventBody) (body : Bytes) : Stage :=
  let s := (throughDone (Sse.eventsIn body)).foldl (heed k) {Stage.start events with decoder:=Sse.decoderAfter body}
  s.decoder.finish.1.foldl (heedTail k) {s with decoder:=s.decoder.finish.2}

-- Where a body ends with its last frame, there is nothing left to flush.
theorem toldBy_flushed (empty : (Sse.decoderAfter body).buffer = []) (events : List EventBody) : toldBy k events body =
    (throughDone (Sse.eventsIn body)).foldl (heed k) {Stage.start events with decoder:=Sse.decoderAfter body} := by
  have finished : (Sse.decoderAfter body).finish = ([],Sse.decoderAfter body) := if_pos empty
  have decoder := (heeds_decoder (k:=k) {Stage.start events with decoder:=Sse.decoderAfter body} .new (throughDone (Sse.eventsIn body))).2
  unfold toldBy
  dsimp only at decoder ⊢
  generalize (throughDone (Sse.eventsIn body)).foldl (heed k) {Stage.start events with decoder:=Sse.decoderAfter body} = s at decoder ⊢
  rw [decoder,finished,← decoder]
  rfl

-- Every frame of a body has counts that can be summed.
def Sums (k : Setting) (body : Bytes) : Prop := (throughDone (Sse.eventsIn body) ++ (Sse.decoderAfter body).finish.1).all (adds k) = true

theorem pushAll_whole (slices : List Bytes) : (SseDecoder.new.pushAll slices).1 = throughDone (Sse.eventsIn slices.flatten) := by
  have events := (pushAll_after [] slices).2
  rw [eventsIn_nil,throughDone,List.nil_append,List.nil_append,decoderAfter_nil] at events
  exact events

theorem pushAll_append (s : SseDecoder) (front back : List Bytes) :
    (s.pushAll (front ++ back)).1 = (s.pushAll front).1 ++ ((s.pushAll front).2.pushAll back).1 := by
  induction front generalizing s with
  | nil => rfl
  | cons bytes front ih =>
    rw [List.cons_append,SseDecoder.pushAll,SseDecoder.pushAll,ih,List.append_assoc]

theorem start_run (accepts : Accepts k.sink) (events : List EventBody) (sums : (SseDecoder.new.pushAll slices).1.all (adds k) = true) :
    stageFrom k (fun _ => none) 0 (.start events) slices =
      (SseDecoder.new.pushAll slices).1.foldl (heed k) {Stage.start events with decoder:=Sse.decoderAfter slices.flatten} := by
  have ran := stageFrom_run accepts [] slices 0 (.start events) (by rw [decoderAfter_nil]; exact sums)
  rw [decoderAfter_nil] at ran
  exact ran

-- Where all counts can be summed, the callback refuses no slice.
theorem callback_agrees (accepts : Accepts k.sink) (events : List EventBody) (sums : (SseDecoder.new.pushAll slices).1.all (adds k) = true) :
    Agreed (callback k (fun _ => none) (.start events)) [] slices := by
  intro front bytes back split
  have state := (pushAll_after [] front).1
  rw [decoderAfter_nil,List.nil_append] at state
  rw [split,pushAll_append,state,SseDecoder.pushAll,List.all_append,List.all_append,Bool.and_eq_true,Bool.and_eq_true] at sums
  have stage := start_run accepts events sums.1
  have decoder : (stageFrom k (fun _ => none) 0 (.start events) front).decoder = Sse.decoderAfter front.flatten := by
    rw [stage]
    exact (heeds_decoder _ .new _).2
  have ran := onBody_run (s:=stageFrom k (fun _ => none) 0 (.start events) front) accepts (decoder ▸ push_last front.flatten bytes)
    (decoder ▸ sums.2.1)
  rw [List.nil_append,callback,ran]

-- A call that nobody aborts, for a reply whose framing takes its body: what is
-- shown depends on the bytes of the body alone.
theorem receive_told (accepts : Accepts k.sink) (h : Head) (plain : Http.checkEncoding h.headers = .ok ())
    (takes : Http.Takes h (Http.endOf socket) body) (small : (encode h.text).length ≤ Http.maxHeaderBytes)
    (fits : (encode h.text ++ body).length ≤ Http.maxResponseBytes) (bytes : (Http.delivered socket).flatten = encode h.text ++ body)
    (sums : Sums k body) (events : List EventBody) : receive k ⟨none,socket,fun _ => none,none⟩ events =
      (.ok ⟨h.status.toNat,h.reason,h.headers,body⟩,toldBy k events body) := by
  have arrives : ∃ slices, slices.flatten = body ∧
      readResponseWith k.quoted accepting socket = (.ok ⟨h.status.toNat,h.reason,h.headers,body⟩,slices) :=
    readResponse_written h plain takes small fits bytes
  obtain ⟨slices,whole,read⟩ := arrives
  subst whole
  rw [Sums,List.all_append,Bool.and_eq_true,← pushAll_whole] at sums
  have quiet : Agreed (callback k (fun _ => none) (.start events)) [] (readResponseWith k.quoted accepting socket).2 := by
    rw [read]
    exact callback_agrees accepts events sums.1
  have stage := start_run accepts events sums.1
  have decoder : (stageFrom k (fun _ => none) 0 (.start events) slices).decoder = Sse.decoderAfter slices.flatten := by
    rw [stage]
    exact (heeds_decoder _ .new _).2
  have flushed := flush_run (s:=stageFrom k (fun _ => none) 0 (.start events) slices) accepts (decoder ▸ sums.2)
  rw [receive,readResponse_quiet quiet,read]
  dsimp only
  rw [flushed,stage,pushAll_whole]
  rfl

end PrincessIDE.Ai
