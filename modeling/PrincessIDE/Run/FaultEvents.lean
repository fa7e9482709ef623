import PrincessIDE.Run.FaultVector

namespace PrincessIDE.RunBackend
open Utf8 Str Error Event Effect Reader Serial

-- The last paging statement in a text, if there is one.
def lastMark : Text → Option Bool
  | [] => none
  | c :: rest => (lastMark rest).or <|
    if startsWith pagingEnabledMarker (c::rest) then some true
    else if startsWith pagingDisabledMarker (c::rest) then some false
    else none

def lastStatement (seen : List Text) : Option Bool := seen.foldl (fun last line => (lastMark line).or last) none

-- What the observer makes of the statements: a line with both switches it.
def pagingStated (last : Option Bool) (line : Text) : Option Bool :=
  if contains pagingEnabledMarker line && last != some true then some true
  else if contains pagingDisabledMarker line && last != some false then some false
  else last

def pagingAfter (seen : List Text) : Option Bool := seen.foldl pagingStated none

def namesPageFault (vector : Option (Nat × Text)) : Bool := vector.any fun v => v.1 == 14 || v.2 == "#PF".toList

-- The lines up to each reported fault, its own line included.
def faultFronts (front : List Text) : List Text → List (List Text)
  | [] => []
  | line :: later => if (lineRaw line).isSome then (front++[line]) :: faultFronts (front++[line]) later else faultFronts (front++[line]) later

-- A page fault that the stream, or the backend itself, denies.
def Denied (seen : List Text) : Prop :=
  ((lastPrinted none seen).map Prod.snd = some "#PF".toList ∧ lastStatement seen = some false) ∨
  (namesPageFault (lastPrinted none seen) = true ∧ pagingAfter seen = some false)

def denialText : Text := "guest reported #PF but the stream showed CR0.PG=0: not attributing a page fault".toList

-- Each `run.fault` with whether the backend denied a page fault since the one before.
def attributing (s : Bool × List (Bool × RunFaultPayload)) (body : EventBody) : Bool × List (Bool × RunFaultPayload) := match body with
  | .runFault payload => (false,s.2++[(s.1,payload)])
  | body => (s.1 || body = noteBody denialText,s.2)

def scanned (events : List EventBody) : Bool × List (Bool × RunFaultPayload) := events.foldl attributing (false,[])
def attributions (events : List EventBody) : List (Bool × RunFaultPayload) := (scanned events).2

-- No event for a denied report, and none named #PF behind CR0.PG=0.
def Withheld (symbols : Option SymbolizeFn) (chunks : List StreamChunk) : Prop := ∀ (sink : Sink) (i : Nat) (denied : Bool) (payload : RunFaultPayload),
  (attributions (handleChunks sink symbols chunks).handling.events)[i]? = some (denied,payload) → denied = false ∧
    ∃ seen : List Text, (faultFronts [] (serialLines chunks))[i]? = some seen ∧ ¬ (payload.vector = "#PF".toList ∧ lastStatement seen = some false)

-- The sink that takes every event.
def taking : Sink := fun _ _ => none

theorem taking_accepts : Accepts taking := fun _ _ => rfl

-- With any other sink the handler does the same, until that sink refuses an event.
theorem emit_cuts (sink : Sink) (ordinary : Ordinary body = true) :
    Cuts Adds (sending (emit sink body)) (sending (emit taking body)) := by
  refine .zoom fun s => ?_
  have grows := emit_adds taking ordinary s
  rw [sending,after_zoom] at grows
  have settled := emit_settles sink body s.events
  cases answered : sink s.events body with
  | none =>
    rw [answered] at settled
    exact .inl (settled.trans (emit_settles taking body s.events).symm)
  | some e =>
    rw [answered] at settled
    exact .inr ⟨e,s.events,settled,grows⟩

theorem note_cuts (sink : Sink) (other : c ≠ 's') (rest : Text) :
    Cuts Adds (sending (note sink (c :: rest))) (sending (note taking (c :: rest))) := emit_cuts sink (noteBody_ordinary other rest)

theorem reportGate_cuts (sink : Sink) (raw : RawFault) : Cuts Adds (reportGate sink raw) (reportGate taking raw) := by
  unfold reportGate
  split
  · refine .bind (.same _) (fun s => ?_) fun s => ?_
    · split
      · next text told =>
        obtain ⟨rest,rfl⟩ := gateNote_start told
        exact note_cuts sink (by decide) rest
      · exact .same _
    · split
      · next text told =>
        obtain ⟨rest,rfl⟩ := gateNote_start told
        exact note_adds taking (by decide) rest
      · exact .pure _
  · exact .same _

-- The note in front of the suppressed faults.
theorem suppression_adds (sink : Sink) (text : Text) (other : c ≠ 's') :
    Moves Adds (do if (← get).suppressed = 1 then sending (note sink (c :: text)) : Handler) := by
  refine .bind .get fun s => ?_
  split
  · exact note_adds sink other text
  · exact .pure _

theorem reportFault_cuts (sink : Sink) (payload : RunFaultPayload) : Cuts Adds (reportFault sink payload) (reportFault taking payload) := by
  unfold reportFault
  refine .bind (.same _) (fun s => ?_) fun s => ?_
  · split
    · refine .bind (.same _) (fun _ => .bind (.same _) (fun t => ?_) fun t => ?_) fun _ => suppression_adds taking _ (by decide : 'm' ≠ 's')
      · split
        · exact note_cuts sink (by decide : 'm' ≠ 's') _
        · exact .same _
      · split
        · exact note_adds taking (by decide : 'm' ≠ 's') _
        · exact .pure _
    · exact .bind (emit_cuts sink rfl) (fun _ => .same _) fun _ => update_adds fun _ => rfl
  · split
    · exact .bind (update_adds fun _ => rfl) fun _ => suppression_adds taking _ (by decide : 'm' ≠ 's')
    · exact .bind (emit_adds taking rfl) fun _ => update_adds fun _ => rfl

theorem onObservation_cuts (sink : Sink) (symbols : Option SymbolizeFn) (o : SerialObservation) :
    Cuts Adds (onObservation sink symbols o) (onObservation taking symbols o) := by
  cases o with
  | banner text => exact note_cuts sink (by decide : 'g' ≠ 's') _
  | pagingState enabled => exact note_cuts sink (by decide : 'g' ≠ 's') _
  | panicked => exact note_cuts sink (by decide : 'g' ≠ 's') _
  | fault raw =>
    obtain ⟨rest,text⟩ := faultNote_start raw (symbols.bind fun lookup => lookup raw.rip)
    have tells : Cuts Adds (sending (note sink ('f' :: rest))) (sending (note taking ('f' :: rest))) := note_cuts sink (by decide) rest
    have told : Moves Adds (sending (note taking ('f' :: rest))) := note_adds taking (by decide) rest
    rw [← text] at tells told
    exact .bind (reportGate_cuts sink raw) (fun _ => .bind tells (fun _ => reportFault_cuts sink _) fun _ => reportFault_adds taking _)
      fun _ => .bind told fun _ => reportFault_adds taking _

theorem onLine_adds (sink : Sink) (symbols : Option SymbolizeFn) (line : Text) : Moves Adds (onLine sink symbols line) :=
  .bind .get fun _ => .bind (update_adds fun _ => rfl) fun _ => .each fun o _ => onObservation_adds sink symbols o

theorem onLine_cuts (sink : Sink) (symbols : Option SymbolizeFn) (line : Text) :
    Cuts Adds (onLine sink symbols line) (onLine taking symbols line) := by
  have every := Cuts.each (R:=Adds) (fun o => onObservation_cuts sink symbols o) fun o => onObservation_adds taking symbols o
  exact .bind (.same _) (fun s => .bind (.same _) (fun _ => every _) fun _ => .each fun o _ => onObservation_adds taking symbols o)
    fun s => .bind (update_adds fun _ => rfl) fun _ => .each fun o _ => onObservation_adds taking symbols o

theorem handleChunk_cuts (sink : Sink) (symbols : Option SymbolizeFn) (chunk : StreamChunk) :
    Cuts Adds (handleChunk sink symbols chunk) (handleChunk taking symbols chunk) := by
  unfold handleChunk
  cases chunk.pipe with
  | serial =>
    have every := Cuts.each (R:=Adds) (fun line => onLine_cuts sink symbols line) fun line => onLine_adds taking symbols line
    exact .bind (emit_cuts sink rfl) (fun _ => every _) fun _ => .each fun line _ => onLine_adds taking symbols line
  | emulator => exact emit_cuts sink rfl

theorem onChunk_refused (sink : Sink) (symbols : Option SymbolizeFn) (refused : Launch.emitError s = some e) (chunks : List StreamChunk) :
    chunks.foldl (onChunk sink symbols) s = s := by
  induction chunks with
  | nil => rfl
  | cons c cs ih => rw [List.foldl_cons,onChunk,refused,Option.isSome_some,if_pos rfl,ih]

-- Over a whole stream: as with the sink that takes everything, or refused on the way.
theorem chunks_cuts (sink : Sink) (symbols : Option SymbolizeFn) (chunks : List StreamChunk) (healthy : Launch.emitError s = none) :
    chunks.foldl (onChunk sink symbols) s = chunks.foldl (onChunk taking symbols) s ∨
    (chunks.foldl (onChunk sink symbols) s).emitError.isSome = true ∧
      Adds (chunks.foldl (onChunk sink symbols) s).handling (chunks.foldl (onChunk taking symbols) s).handling := by
  induction chunks generalizing s with
  | nil => exact .inl rfl
  | cons c cs ih =>
    rw [List.foldl_cons,List.foldl_cons]
    obtain ⟨ok,_⟩ := handleChunk_does taking_accepts symbols c s.handling
    obtain ⟨t,took⟩ : ∃ t, (handleChunk taking symbols c).run s.handling = .ok () t := by
      unfold answer at ok
      cases run : (handleChunk taking symbols c).run s.handling with
      | ok _ t => exact ⟨t,rfl⟩
      | error e t => rw [run] at ok; cases ok
    have took' : onChunk taking symbols s c = {s with handling:=t} := by
      unfold onChunk
      rw [healthy,took]
      rfl
    rcases handleChunk_cuts sink symbols c s.handling with same | ⟨e,u,failed,before⟩
    · have same' : onChunk sink symbols s c = {s with handling:=t} := by
        unfold onChunk
        rw [healthy,same,took]
        rfl
      rw [same',took']
      exact ih healthy
    · have refused : onChunk sink symbols s c = ⟨u,some e⟩ := by
        unfold onChunk
        rw [healthy,failed]
        rfl
      rw [refused,onChunk_refused sink symbols rfl,took']
      rw [after_ok took] at before
      exact .inr ⟨rfl,trans_of Adds before (chunks_adds taking symbols cs {s with handling:=t})⟩

theorem attributed_front (front back : List EventBody) : attributions front <+: attributions (front++back) := by
  have grows : ∀ (events : List EventBody) s, s.2 <+: (events.foldl attributing s).2 := by
    intro events
    induction events with
    | nil => exact fun s => List.prefix_rfl
    | cons body rest ih =>
      intro s
      refine List.IsPrefix.trans ?_ (ih _)
      cases body with
      | runFault payload => exact List.prefix_append _ _
      | _ => exact List.prefix_rfl
  rw [attributions,attributions,scanned,scanned,List.foldl_append]
  exact grows back _

theorem sink_attributions (sink : Sink) (symbols : Option SymbolizeFn) (chunks : List StreamChunk) :
    attributions (handleChunks sink symbols chunks).handling.events <+: attributions (handleChunks taking symbols chunks).handling.events := by
  rcases chunks_cuts sink symbols (chunks.filter fun c => c.text ≠ []) (s:=launched) rfl with same | ⟨-,added,whole,-⟩
  · have equal : handleChunks sink symbols chunks = handleChunks taking symbols chunks := same
    exact equal ▸ List.prefix_rfl
  · rw [handleChunks,handleChunks,whole]
    exact attributed_front _ _

-- The runs of the parts of the handler with the sink that takes everything.
theorem taking_run (body : EventBody) (s : Handling) : (sending (emit taking body)).run s = .ok () {s with events:=s.events++[body]} :=
  run_zoom_ok (emit_run taking_accepts body s.events)

-- A note that begins otherwise is no denial.
theorem noteBody_other (other : front.isPrefixOf (denialText ++ ['\n']) = false) (rest : Text) : noteBody (front++rest) ≠ noteBody denialText := by
  have denial : noteBody denialText = .logAppend ⟨.ide,denialText ++ ['\n'],.utf8⟩ := by decide
  rw [denial,noteBody]
  intro same
  injection same with same
  injection same with _ chunk _
  have within : front <+: denialText ++ ['\n'] := by
    rw [← chunk]
    split
    · exact List.prefix_append _ _
    · exact (List.prefix_append _ _).trans (List.prefix_append _ _)
  rw [List.isPrefixOf_iff_prefix.mpr within] at other
  cases other

theorem scanned_snoc (events : List EventBody) (body : EventBody) : scanned (events++[body]) = attributing (scanned events) body := by
  rw [scanned,List.foldl_append]
  rfl

theorem attributing_log (other : .logAppend payload ≠ noteBody denialText) (s : Bool × List (Bool × RunFaultPayload)) :
    attributing s (.logAppend payload) = s := by
  change (s.1 || decide (EventBody.logAppend payload = noteBody denialText),s.2) = s
  rw [decide_eq_false other,Bool.or_false]

theorem note_scanned (front : Text) (other : front.isPrefixOf (denialText ++ ['\n']) = false) (rest : Text) (s : Handling) :
    ∃ t, (sending (note taking (front++rest))).run s = .ok () t ∧ t.tally = s.tally ∧ scanned t.events = scanned s.events :=
  ⟨_,taking_run (noteBody (front++rest)) s,rfl,(scanned_snoc _ _).trans (attributing_log (noteBody_other other rest) _)⟩

def denies (o : SerialObserver) (raw : RawFault) : Bool := raw.isPageFault && o.pageFaultGate == some .pagingDisabled

theorem reportGate_scanned (raw : RawFault) (s : Handling) :
    ∃ t, (reportGate taking raw).run s = .ok () t ∧ t.tally = s.tally ∧
      scanned t.events = ((scanned s.events).1 || denies s.observer raw,(scanned s.events).2) := by
  unfold reportGate denies
  cases raw.isPageFault with
  | false => exact ⟨s,rfl,rfl,by rw [Bool.false_and,Bool.or_false]⟩
  | true =>
    rw [if_pos rfl,run_get,Bool.true_and]
    have unproven : ∀ text, gateNote none = some text → ∃ t, (sending (note taking text)).run s = .ok () t ∧ t.tally = s.tally ∧
        scanned t.events = ((scanned s.events).1 || false,(scanned s.events).2) := by
      rintro _ ⟨⟩
      rw [Bool.or_false]
      exact note_scanned "guest reported #PF;".toList (by decide) _ s
    cases s.observer.pageFaultGate with
    | none => exact unproven _ rfl
    | some gate => cases gate with
      | pagingConfirmed => exact ⟨s,rfl,rfl,Prod.ext (Bool.or_false _).symm rfl⟩
      | pagingDisabled =>
        refine ⟨_,taking_run (noteBody denialText) s,rfl,?_⟩
        rw [scanned_snoc]
        change (_ || decide (noteBody denialText = noteBody denialText),_) = _
        rw [decide_eq_true rfl]
        rfl
      | pagingUnproven | notApplicable => exact unproven _ rfl

theorem faultNote_scanned (raw : RawFault) (location : Option SymbolicatedLocation) (s : Handling) :
    ∃ t, (sending (note taking (faultNote raw location))).run s = .ok () t ∧ t.tally = s.tally ∧ scanned t.events = scanned s.events := by
  obtain ⟨rest,text⟩ := faultNote_start raw location
  rw [text]
  exact note_scanned ['f'] (by decide) rest s

-- What the events come to, where these reports are seen.
structure Told (seen : List (Bool × RunFaultPayload)) (s : Handling) : Prop where
  count : s.faults.length = min maxFaultEvents seen.length
  settled : seen.length < maxFaultEvents → (scanned s.events).1 = false
  sent : attributions s.events = seen.take maxFaultEvents

theorem Told.same (told : Told seen s) (faults : t.faults = s.faults) (events : scanned t.events = scanned s.events) : Told seen t := by
  refine ⟨by rw [faults]; exact told.count,fun few => by rw [events]; exact told.settled few,?_⟩
  rw [attributions,events]
  exact told.sent

theorem Told.full (told : Told seen s) (full : maxFaultEvents ≤ seen.length) (faults : t.faults = s.faults)
    (events : attributions t.events = attributions s.events) (report : Bool × RunFaultPayload) : Told (seen++[report]) t := by
  refine ⟨?_,fun few => ?_,?_⟩
  · rw [faults,told.count,List.length_append]
    omega
  · rw [List.length_append] at few
    omega
  · rw [events,told.sent,List.take_append_of_le_length full]

theorem reportFault_told (told : Told seen s) (gate : scanned u.events = ((scanned s.events).1 || denied,(scanned s.events).2))
    (tally : u.tally = s.tally) (payload : RunFaultPayload) :
    ∃ t, (reportFault taking payload).run u = .ok () t ∧ t.observer = u.observer ∧ Told (seen++[(denied,payload)]) t := by
  have faults : u.faults = s.faults := congrArg Tally.faults tally
  have scan : attributions u.events = attributions s.events := by rw [attributions,gate]; rfl
  unfold reportFault
  rw [run_get,faults,told.count]
  by_cases full : maxFaultEvents ≤ seen.length
  · rw [if_pos (by omega)]
    have note := note_scanned ['m'] (by decide) ("ore than ".toList ++ decimal maxFaultEvents ++
      " faults in this run; suppressing further run.fault events".toList) {u with suppressed:=u.suppressed+1}
    obtain ⟨t,run,tally',events⟩ := note
    have counted : (modify (fun s => {s with suppressed:=s.suppressed+1}) : Handler).run u = .ok () {u with suppressed:=u.suppressed+1} := rfl
    rw [run_bind_ok counted,run_get]
    split
    · refine ⟨t,run,congrArg Tally.observer tally',told.full full ((congrArg Tally.faults tally').trans faults) ?_ _⟩
      exact (congrArg Prod.snd events).trans scan
    · exact ⟨_,rfl,rfl,told.full (t:={u with suppressed:=u.suppressed+1}) full faults scan _⟩
  · rw [if_neg (by omega),run_bind_ok (taking_run _ u)]
    refine ⟨_,rfl,rfl,?_,fun _ => ?_,?_⟩
    · change (u.faults ++ [payload]).length = _
      rw [List.length_append,faults,told.count,List.length_append,List.length_singleton,List.length_singleton]
      omega
    · change (scanned (u.events ++ [EventBody.runFault payload])).1 = false
      rw [scanned_snoc]
      rfl
    · change (scanned (u.events ++ [EventBody.runFault payload])).2 = _
      rw [scanned_snoc,gate,told.settled (by omega),List.take_of_length_le (by simp; omega)]
      have sent := told.sent
      rw [List.take_of_length_le (by omega)] at sent
      change (scanned s.events).2 ++ [_] = _
      rw [← sent]
      rfl

def reportOf (symbols : Option SymbolizeFn) (o : SerialObserver) (raw : RawFault) : Bool × RunFaultPayload := (denies o raw,payloadOf symbols raw)

theorem onFault_told (told : Told seen s) (raw : RawFault) : ∃ t, (onFault taking symbols raw).run s = .ok () t ∧
    t.observer = s.observer ∧ Told (seen ++ [reportOf symbols s.observer raw]) t := by
  obtain ⟨u,gated,tally,gate⟩ := reportGate_scanned raw s
  obtain ⟨v,noted,tally',scan⟩ := faultNote_scanned raw (symbols.bind fun lookup => lookup raw.rip) u
  obtain ⟨t,reported,observer,told⟩ := reportFault_told told (scan.trans gate) (tally'.trans tally) (payloadOf symbols raw)
  refine ⟨t,?_,observer.trans (congrArg Tally.observer (tally'.trans tally)),told⟩
  unfold onFault
  rw [run_bind_ok gated,run_bind_ok noted]
  exact reported

-- The reports of some lines, in their order.
def lineReports (symbols : Option SymbolizeFn) (o : SerialObserver) (line : Text) : List (Bool × RunFaultPayload) :=
  (seenFaults (feed o line).1).map (reportOf symbols (feed o line).2)

def reportsOf (symbols : Option SymbolizeFn) : SerialObserver → List Text → List (Bool × RunFaultPayload)
  | _,[] => []
  | o,line :: later => lineReports symbols o line ++ reportsOf symbols (feed o line).2 later

-- The observer behind some lines.
def fed (o : SerialObserver) (rows : List Text) : SerialObserver := rows.foldl (fun o line => (feed o line).2) o

theorem reportsOf_append (symbols : Option SymbolizeFn) (front back : List Text) (o : SerialObserver) :
    reportsOf symbols o (front++back) = reportsOf symbols o front ++ reportsOf symbols (fed o front) back := by
  induction front generalizing o with
  | nil => rfl
  | cons line front ih => rw [List.cons_append,reportsOf,reportsOf,ih,List.append_assoc]; rfl

theorem onObservation_told (symbols : Option SymbolizeFn) (told : Told seen s) (o : SerialObservation) : ∃ t, (onObservation taking symbols o).run s = .ok () t ∧
    t.observer = s.observer ∧ Told (seen ++ (seenFaults [o]).map (reportOf symbols s.observer)) t := by
  have noted : ∀ front : Text, front.isPrefixOf (denialText ++ ['\n']) = false → ∀ rest, ∃ t,
      (sending (note taking (front++rest))).run s = .ok () t ∧ t.observer = s.observer ∧ Told (seen++[]) t := by
    intro front other rest
    obtain ⟨t,run,tally,events⟩ := note_scanned front other rest s
    rw [List.append_nil]
    exact ⟨t,run,congrArg Tally.observer tally,told.same (congrArg Tally.faults tally) events⟩
  cases o with
  | banner text => exact noted "guest b".toList (by decide) _
  | pagingState enabled => exact noted "guest pa".toList (by decide) _
  | panicked => exact noted "guest pa".toList (by decide) _
  | fault raw => exact onFault_told told raw

theorem observations_told (symbols : Option SymbolizeFn) (told : Told seen s) (observations : List SerialObservation) :
    ∃ t, (observations.forM (onObservation taking symbols)).run s = .ok () t ∧ t.observer = s.observer ∧
      Told (seen ++ (seenFaults observations).map (reportOf symbols s.observer)) t := by
  induction observations generalizing seen s with
  | nil => exact ⟨s,rfl,rfl,by rw [show seenFaults [] = [] from rfl,List.map_nil,List.append_nil]; exact told⟩
  | cons o later ih =>
    obtain ⟨t,first,observer,told⟩ := onObservation_told symbols told o
    obtain ⟨u,rest,observer',told⟩ := ih told
    have split : seenFaults (o :: later) = seenFaults [o] ++ seenFaults later := List.filterMap_append (l:=[o])
    rw [observer,List.append_assoc,← List.map_append,← split] at told
    exact ⟨u,(run_bind_ok first _).trans rest,observer'.trans observer,told⟩

theorem onLine_told (symbols : Option SymbolizeFn) (told : Told seen s) (line : Text) : ∃ t, (onLine taking symbols line).run s = .ok () t ∧
    t.observer = (feed s.observer line).2 ∧ Told (seen ++ lineReports symbols s.observer line) t :=
  observations_told (s:={s with observer:=(feed s.observer line).2}) symbols (told.same rfl rfl) (feed s.observer line).1

theorem lines_told (symbols : Option SymbolizeFn) (told : Told seen s) (rows : List Text) : ∃ t, (rows.forM (onLine taking symbols)).run s = .ok () t ∧
    t.observer = fed s.observer rows ∧ Told (seen ++ reportsOf symbols s.observer rows) t := by
  induction rows generalizing seen s with
  | nil => exact ⟨s,rfl,rfl,by rw [reportsOf,List.append_nil]; exact told⟩
  | cons line later ih =>
    obtain ⟨t,first,observer,told⟩ := onLine_told symbols told line
    obtain ⟨u,rest,observer',told⟩ := ih told
    rw [observer,List.append_assoc] at told
    refine ⟨u,(run_bind_ok first _).trans rest,?_,told⟩
    rw [observer',observer]
    rfl

theorem handleChunk_told (symbols : Option SymbolizeFn) (told : Told seen s) (chunk : StreamChunk) : ∃ t, (handleChunk taking symbols chunk).run s = .ok () t ∧
    t.observer = fed s.observer (serialLines [chunk]) ∧ Told (seen ++ reportsOf symbols s.observer (serialLines [chunk])) t := by
  have logged : ∀ payload, EventBody.logAppend payload ≠ noteBody denialText →
      Told seen {s with events:=s.events++[EventBody.logAppend payload]} := by
    intro payload other
    exact told.same rfl ((scanned_snoc _ _).trans (attributing_log other _))
  unfold handleChunk
  cases pipe : chunk.pipe with
  | serial =>
    have rows : serialLines [chunk] = lines chunk.text := by simp [serialLines,pipe]
    have other : EventBody.logAppend ⟨.serialCom1,chunk.text,chunk.encoding⟩ ≠ noteBody denialText := by simp [noteBody]
    rw [rows]
    dsimp only
    rw [run_bind_ok (taking_run _ s)]
    exact lines_told symbols (logged _ other) _
  | emulator =>
    have rows : serialLines [chunk] = [] := by simp [serialLines,pipe]
    have other : EventBody.logAppend ⟨.qemuMonitor,chunk.text,chunk.encoding⟩ ≠ noteBody denialText := by simp [noteBody]
    rw [rows,reportsOf,List.append_nil]
    exact ⟨_,taking_run _ s,rfl,logged _ other⟩

theorem chunks_told (symbols : Option SymbolizeFn) (healthy : Launch.emitError s = none) (told : Told seen s.handling) (chunks : List StreamChunk) :
    Told (seen ++ reportsOf symbols s.handling.observer (serialLines chunks)) (chunks.foldl (onChunk taking symbols) s).handling := by
  induction chunks generalizing seen s with
  | nil =>
    rw [show serialLines [] = [] from rfl,reportsOf,List.append_nil]
    exact told
  | cons c cs ih =>
    obtain ⟨t,run,observer,told⟩ := handleChunk_told symbols told c
    have next : onChunk taking symbols s c = {s with handling:=t} := by
      unfold onChunk
      rw [healthy,run]
      rfl
    have later := ih (s:={s with handling:=t}) healthy told
    rw [observer,List.append_assoc,← reportsOf_append,← serialLines_cons] at later
    rw [List.foldl_cons,next]
    exact later

theorem taking_attributions (symbols : Option SymbolizeFn) (chunks : List StreamChunk) :
    attributions (handleChunks taking symbols chunks).handling.events = (reportsOf symbols .new (serialLines chunks)).take maxFaultEvents := by
  have told : Told [] launched.handling := ⟨rfl,fun _ => rfl,rfl⟩
  have sent := (chunks_told symbols (s:=launched) rfl told (chunks.filter fun c => c.text ≠ [])).sent
  rw [serialLines_text] at sent
  exact sent

theorem feed_paging (o : SerialObserver) (line : Text) : (feed o line).2.pagingEnabled = pagingStated o.pagingEnabled line := by
  have banner : (feedBanner o line).2.pagingEnabled = o.pagingEnabled := by
    obtain ⟨_,changed⟩ := (feedBanner_only o line).1
    rw [changed]
  have paging : ∀ o, (feedPaging o line).2.pagingEnabled = pagingStated o.pagingEnabled line := by
    intro o
    unfold feedPaging pagingStated
    repeat' split
    all_goals rfl
  have vector : ∀ o, (feedVector o line).pagingEnabled = o.pagingEnabled := by
    intro o
    obtain ⟨_,changed⟩ := feedVector_only o line
    rw [changed]
  have fault : ∀ o, (feedFault o line).2.pagingEnabled = o.pagingEnabled := by
    intro o
    obtain ⟨_,_,_,changed⟩ := feedFault_only o line
    rw [changed]
  have panicked : ∀ o, (feedPanic o line).2.pagingEnabled = o.pagingEnabled := by
    intro o
    obtain ⟨_,changed⟩ := (feedPanic_only o line).1
    rw [changed]
  rw [feed,panicked,fault,vector,paging,banner]

-- The report of a line, with the observer's state behind it.
structure Reports (o : SerialObserver) (raw : RawFault) : Prop where
  gate : o.pageFaultGate = some (gateFor o raw)
  number : raw.vectorNumber = o.lastVector.map Prod.fst
  name : raw.vector = (o.lastVector.map Prod.snd).getD []

theorem feed_reports (o : SerialObserver) (line : Text) : (lineRaw line = none ∧ seenFaults (feed o line).1 = []) ∨
    ((lineRaw line).isSome = true ∧ ∃ raw, seenFaults (feed o line).1 = [raw] ∧ Reports (feed o line).2 raw) := by
  rw [seenFaults_feed]
  unfold feed
  dsimp only
  generalize feedVector (feedPaging (feedBanner o line).2 line).2 line = behind
  have panicked : ∀ raw o, Reports o raw → Reports (feedPanic o line).2 raw := by
    intro raw o report
    obtain ⟨_,changed⟩ := (feedPanic_only o line).1
    rw [changed]
    exact ⟨report.gate,report.number,report.name⟩
  unfold feedFault
  cases raw : (splitOnce faultPrefix line).bind fun found => parseFault found.2 with
  | none => exact .inl ⟨raw,rfl⟩
  | some f =>
    obtain ⟨found,_,parsed⟩ := Option.bind_eq_some_iff.mp raw
    obtain ⟨bare,unnamed⟩ := parseFault_bare parsed
    refine .inr ⟨by rw [lineRaw,raw]; rfl,_,rfl,panicked _ _ ⟨rfl,?_,?_⟩⟩
    · unfold completeFault
      cases behind.lastVector <;> cases lineError line <;> simp [bare]
    · unfold completeFault
      cases behind.lastVector <;> cases lineError line <;> simp [unnamed]

theorem Reports.pageFault (report : Reports o raw) : raw.isPageFault = namesPageFault o.lastVector := by
  rw [RawFault.isPageFault,report.number,report.name]
  cases o.lastVector with
  | none => rfl
  | some vector => rfl

theorem Reports.denies (report : Reports o raw) : denies o raw = true ↔ namesPageFault o.lastVector = true ∧ o.pagingEnabled = some false := by
  unfold RunBackend.denies
  rw [report.gate,← report.pageFault,gateFor]
  cases raw.isPageFault with
  | false => simp
  | true =>
    cases paging : o.pagingEnabled with
    | none => simp
    | some on => cases on <;> simp

-- What a report says, in terms of the lines up to it.
structure FaultTells (seen : List Text) (report : Bool × RunFaultPayload) : Prop where
  denied : report.1 = true ↔ namesPageFault (lastPrinted none seen) = true ∧ pagingAfter seen = some false
  vector : report.2.vector = ((lastPrinted none seen).map Prod.snd).getD []

theorem reports_fronts (symbols : Option SymbolizeFn) (front : List Text) (vector : SerialObserver.lastVector o = lastPrinted none front)
    (paging : o.pagingEnabled = pagingAfter front) (rows : List Text) :
    List.Forall₂ FaultTells (faultFronts front rows) (reportsOf symbols o rows) := by
  induction rows generalizing o front with
  | nil => exact .nil
  | cons line later ih =>
    have vector' : (feed o line).2.lastVector = lastPrinted none (front++[line]) := by rw [feed_lastVector,vector,lastPrinted_snoc]
    have paging' : (feed o line).2.pagingEnabled = pagingAfter (front++[line]) := by
      rw [feed_paging,paging,pagingAfter,pagingAfter,List.foldl_append]
      rfl
    have rest := ih (front++[line]) vector' paging'
    rw [faultFronts,reportsOf,lineReports]
    rcases feed_reports o line with ⟨none,same⟩ | ⟨some,raw,same,report⟩
    · rw [none,same]
      exact rest
    · rw [some,same,if_pos rfl]
      refine .cons ⟨?_,?_⟩ rest
      · rw [← vector',← paging']
        exact report.denies
      · rw [← vector',← report.name]
        rfl

theorem forall₂_at {R : α → β → Prop} {xs : List α} {ys : List β} {i : Nat} (all : List.Forall₂ R xs ys) (here : xs[i]? = some x) : ∃ y, ys[i]? = some y ∧ R x y := by
  induction all generalizing i with
  | nil => cases here
  | cons one _ ih => cases i with
    | zero =>
      cases here
      exact ⟨_,rfl,one⟩
    | succ i => exact ih here

theorem first_reports (symbols : Option SymbolizeFn) (chunks : List StreamChunk) : List.Forall₂ FaultTells
    ((faultFronts [] (serialLines chunks)).take maxFaultEvents) (attributions (handleChunks taking symbols chunks).handling.events) := by
  rw [taking_attributions]
  exact List.forall₂_take maxFaultEvents (reports_fronts symbols (o:=.new) [] rfl rfl (serialLines chunks))

theorem Withheld.none (withheld : Withheld symbols chunks) (seen : List Text) (member : seen ∈ (faultFronts [] (serialLines chunks)).take maxFaultEvents) :
    ¬ Denied seen := by
  intro denied
  obtain ⟨i,here⟩ := List.mem_iff_getElem?.mp member
  obtain ⟨report,sent,tells⟩ := forall₂_at (first_reports symbols chunks) here
  obtain ⟨quiet,seen',same,unnamed⟩ := withheld taking i report.1 report.2 sent
  rw [List.getElem?_take] at here
  split at here
  · rw [here] at same
    obtain rfl := Option.some.inj same
    rcases denied with ⟨named,off⟩ | gated
    · exact unnamed ⟨by rw [tells.vector,named]; rfl,off⟩
    · rw [tells.denied.mpr gated] at quiet
      cases quiet
  · cases here

def deniedFault : List StreamChunk := [⟨.serial,
  "[pagingkernel] CR0.PG=0\n[pagingkernel] EXCEPTION: vector=0x0e (#PF page fault)\n[pagingkernel] FAULT_RIP=0x00000000001011dd cs=0x0008\n".toList,
  .utf8,false⟩]

-- The state of a launch whose sink took everything: the first faults are kept.
theorem healthy_faults (m : Machine) (plan : RunPlan) (healthy : (ran m plan).emitError = none) :
    (ran m plan).handling.faults = ((foundBy m plan).take maxFaultEvents).map (payloadOf m.symbols) := by
  have same : ran m plan = (m.runner (spawnSpec plan)).1.foldl (onChunk taking m.symbols) ⟨⟨[startedBody plan],.new,[],0⟩,none⟩ := by
    rcases chunks_cuts m.sink m.symbols (m.runner (spawnSpec plan)).1 (s:=⟨⟨[startedBody plan],.new,[],0⟩,none⟩) rfl with same | ⟨refused,_⟩
    · exact same
    · rw [ran] at healthy
      rw [healthy] at refused
      cases refused
  obtain ⟨-,tally,-⟩ := chunks_does taking_accepts m.symbols (s:=⟨⟨[startedBody plan],.new,[],0⟩,none⟩) rfl rfl (m.runner (spawnSpec plan)).1
  rw [← same] at tally
  have start : Capped m.symbols [] Tally.new := ⟨rfl,rfl⟩
  have capped := (lines_capped (serialLines (m.runner (spawnSpec plan)).1) start).1
  exact (congrArg Tally.faults tally).trans capped

-- What a launch returns comes from a run in which the sink took everything.
theorem launch_concluded (returned : answer (launchPlan m plan) [] = .ok outcome) :
    answer (concludeRun m plan (ran m plan) (m.runner (spawnSpec plan)).2) [startedBody plan] = .ok outcome := by
  unfold launchPlan at returned
  split at returned
  · cases returned
  · obtain ⟨_,started,rest⟩ := answer_bind_ok returned
    have settled := emit_settles m.sink (startedBody plan) []
    have events : after (emit m.sink (startedBody plan)) [] = [startedBody plan] := by
      unfold answer at started
      rw [after,settled]
      cases answered : m.sink [] (startedBody plan) with
      | none => rfl
      | some e =>
        rw [show emit m.sink (.runStarted ⟨plan.argv,plan.gdbStub.map GdbStub.endpoint⟩) = emit m.sink (startedBody plan) from rfl,
          settled,answered] at started
        cases started
    have rest : answer (concludeRun m plan ((m.runner (spawnSpec plan)).1.foldl (onChunk m.sink m.symbols)
        ⟨⟨after (emit m.sink (startedBody plan)) [],.new,[],0⟩,none⟩) (m.runner (spawnSpec plan)).2)
        (after (emit m.sink (startedBody plan)) []) = .ok outcome := rest
    rwa [events] at rest

theorem concludeRun_healthy (returned : answer (concludeRun m plan s result) events = .ok outcome) :
    s.emitError = none ∧ outcome.fault = s.handling.faults.getLast? := by
  obtain ⟨_,_,rest⟩ := answer_bind_ok returned
  cases refused : s.emitError with
  | some e => rw [refused] at rest; cases rest
  | none =>
    rw [refused] at rest
    cases result with
    | error e =>
      obtain ⟨_,_,rest⟩ := answer_bind_ok rest
      obtain ⟨_,_,rest⟩ := answer_bind_ok rest
      cases rest
    | ok status =>
      obtain ⟨_,_,rest⟩ := answer_bind_ok rest
      obtain ⟨_,_,rest⟩ := answer_bind_ok rest
      obtain ⟨_,_,rest⟩ := answer_bind_ok rest
      cases rest
      exact ⟨rfl,rfl⟩

theorem outcome_fault (returned : answer (launchPlan m plan) [] = .ok outcome) :
    outcome.fault = ((foundBy m plan).take maxFaultEvents).getLast?.map (payloadOf m.symbols) := by
  obtain ⟨healthy,fault⟩ := concludeRun_healthy (launch_concluded returned)
  rw [fault,healthy_faults m plan healthy,List.getLast?_map]

def lastReported (m : Machine) (plan : RunPlan) : Option RunFaultPayload := (foundBy m plan).getLast?.map (payloadOf m.symbols)

-- The outcome has the last fault below the cap, or where the last one within the
-- cap happens to be the same.
theorem last_fault_iff (returned : answer (launchPlan m plan) [] = .ok outcome) : outcome.fault = lastReported m plan ↔
    (foundBy m plan).length ≤ maxFaultEvents ∨
      (foundBy m plan)[maxFaultEvents-1]?.map (payloadOf m.symbols) = lastReported m plan := by
  rw [outcome_fault returned]
  by_cases few : (foundBy m plan).length ≤ maxFaultEvents
  · rw [List.take_of_length_le few]
    exact iff_of_true rfl (.inl few)
  · have last : ((foundBy m plan).take maxFaultEvents).getLast? = (foundBy m plan)[maxFaultEvents-1]? := by
      have within : maxFaultEvents-1 < (foundBy m plan).length := by omega
      rw [List.getLast?_take,if_neg (by decide),List.getElem?_eq_getElem within,Option.some_or]
    rw [last]
    exact ⟨.inr,fun same => same.resolve_left few⟩

-- A machine that reports a fault at each of these addresses.
def reporting (addresses : List Text) : Machine :=
  ⟨none,id,fun _ => (addresses.map fun address => ⟨.serial,faultPrefix ++ address ++ ['\n'],.utf8,false⟩,.ok ⟨some 0,none,false,false,0,true⟩),
    fun _ => none,0,false,none,taking⟩

theorem launch_returned (m : Machine) (plan : RunPlan) (done : (answer (launchPlan m plan) []).isOk = true) : ∃ outcome, answer (launchPlan m plan) [] = .ok outcome := by
  cases returned : answer (launchPlan m plan) [] with
  | ok outcome => exact ⟨outcome,rfl⟩
  | error e => rw [returned] at done; cases done

theorem last_fault_once : ∃ outcome, answer (launchPlan (reporting ["0x10".toList]) seabiosPlan) [] = .ok outcome ∧
    outcome.fault = lastReported (reporting ["0x10".toList]) seabiosPlan := by
  obtain ⟨outcome,returned⟩ := launch_returned (reporting ["0x10".toList]) seabiosPlan (by decide +kernel)
  exact ⟨outcome,returned,(last_fault_iff returned).mpr (.inl (by decide +kernel))⟩

def movingStorm : Machine := reporting (List.replicate 16 "0x10".toList ++ ["0x20".toList])

theorem last_fault_suppressed : ¬ ∀ m plan outcome, answer (launchPlan m plan) [] = .ok outcome → outcome.fault = lastReported m plan := by
  intro claim
  obtain ⟨outcome,returned⟩ := launch_returned movingStorm seabiosPlan (by decide +kernel)
  have addresses : (foundBy movingStorm seabiosPlan).map RawFault.rip = List.replicate 16 0x10 ++ [0x20] := by decide +kernel
  have kept := outcome_fault returned
  rw [claim movingStorm seabiosPlan outcome returned,lastReported] at kept
  have last : ((foundBy movingStorm seabiosPlan).getLast?).map RawFault.rip = some 0x20 := by
    rw [← List.getLast?_map,addresses]
    rfl
  have first : (((foundBy movingStorm seabiosPlan).take maxFaultEvents).getLast?).map RawFault.rip = some 0x10 := by
    rw [← List.getLast?_map,List.map_take,addresses]
    rfl
  have same := congrArg (Option.map RunFaultPayload.rip) kept
  rw [Option.map_map,Option.map_map] at same
  exact absurd (last.symm.trans (same.trans first)) (by decide)

end PrincessIDE.RunBackend
