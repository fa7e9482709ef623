import PrincessIDE.Run.Reader
import PrincessIDE.Run.Serial

namespace PrincessIDE.RunBackend
open Utf8 Str Error Event Effect Reader Serial

def maxFaultEvents : Nat := 16

abbrev SymbolizeFn := Nat → Option SymbolicatedLocation

-- What `launch_plan` lends to `handle_chunk`.
structure Handling where
  events : List EventBody
  observer : SerialObserver
  faults : List RunFaultPayload
  suppressed : Nat
deriving DecidableEq, Repr

abbrev Handler := Action Handling PrincessError Unit

def sending (x : Action (List EventBody) PrincessError Unit) : Handler :=
  zoom Handling.events (fun events s => {s with events:=events}) x

-- `{:#x}`
def hexText (n : Nat) : Text := "0x".toList ++ Nat.toDigits 16 n

def faultNote (raw : RawFault) : Option SymbolicatedLocation → Text
  | some location => "fault ".toList ++ hexText raw.rip ++ " symbolicated as ".toList ++ location.symbol ++ " at ".toList ++
      location.file ++ ":".toList ++ decimal location.line
  | none => "fault ".toList ++ hexText raw.rip ++ " could not be symbolicated (no debug info covers it)".toList

def gateNote : Option PageFaultGate → Option Text
  | some .pagingConfirmed => none
  | some .pagingDisabled => some "guest reported #PF but the stream showed CR0.PG=0: not attributing a page fault".toList
  | _ => some "guest reported #PF; CR0.PG=1 was not observed on the serial stream, so paging is unproven".toList

def reportGate (sink : Sink) (raw : RawFault) : Handler := do
  if raw.isPageFault then
    match gateNote (← get).observer.pageFaultGate with
    | some text => sending (note sink text)
    | none => pure ()

def reportFault (sink : Sink) (payload : RunFaultPayload) : Handler := do
  if maxFaultEvents ≤ (← get).faults.length then
    modify fun s => {s with suppressed:=s.suppressed+1}
    if (← get).suppressed = 1 then
      sending (note sink ("more than ".toList ++ decimal maxFaultEvents ++
        " faults in this run; suppressing further run.fault events".toList))
  else
    sending (emit sink (.runFault payload))
    modify fun s => {s with faults:=s.faults++[payload]}

def onFault (sink : Sink) (symbols : Option SymbolizeFn) (raw : RawFault) : Handler := do
  reportGate sink raw
  let symbolicated := symbols.bind (fun lookup => lookup raw.rip)
  sending (note sink (faultNote raw symbolicated))
  reportFault sink (raw.intoPayload symbolicated)

def onObservation (sink : Sink) (symbols : Option SymbolizeFn) : SerialObservation → Handler
  | .banner banner => sending (note sink ("guest banner observed on serial.com1: ".toList ++ banner))
  | .pagingState enabled => sending (note sink ("guest paging state: CR0.PG=".toList ++ decimal enabled.toNat))
  | .panicked => sending (note sink "guest panic observed on serial.com1".toList)
  | .fault raw => onFault sink symbols raw

def onLine (sink : Sink) (symbols : Option SymbolizeFn) (line : Text) : Handler := do
  let fed := feed (← get).observer line
  modify fun s => {s with observer:=fed.2}
  fed.1.forM (onObservation sink symbols)

def handleChunk (sink : Sink) (symbols : Option SymbolizeFn) (chunk : StreamChunk) : Handler :=
  match chunk.pipe with
  | .serial => do
    sending (emit sink (.logAppend ⟨.serialCom1,chunk.text,chunk.encoding⟩))
    (lines chunk.text).forM (onLine sink symbols)
  | .emulator => sending (emit sink (.logAppend ⟨.qemuMonitor,chunk.text,chunk.encoding⟩))

-- The state of `launch_plan` around its runner: the first failure of the sink
-- is kept, and nothing is handled behind it.
structure Launch where
  handling : Handling
  emitError : Option PrincessError
deriving DecidableEq, Repr

def onChunk (sink : Sink) (symbols : Option SymbolizeFn) (s : Launch) (chunk : StreamChunk) : Launch :=
  if s.emitError.isSome then s
  else match (handleChunk sink symbols chunk).run s.handling with
    | .ok _ handling => {s with handling:=handling}
    | .error e handling => ⟨handling,some e⟩

def launched : Launch := ⟨⟨[],.new,[],0⟩,none⟩

-- The runner hands over every chunk that has text.
def handleChunks (sink : Sink) (symbols : Option SymbolizeFn) (chunks : List StreamChunk) : Launch :=
  (chunks.filter (fun c => c.text ≠ [])).foldl (onChunk sink symbols) launched

def faults (sink : Sink) (symbols : Option SymbolizeFn) (chunks : List StreamChunk) : List RunFaultPayload :=
  faultsOf (handleChunks sink symbols chunks).handling.events

-- No step of the handler that sees no fault sends a `run.fault`.
def Silent (s t : Handling) : Prop := faultsOf t.events = faultsOf s.events

instance : IsPreorder Handling Silent where
  refl _ := rfl
  trans _ _ _ first second := second.trans first

theorem emit_silent (sink : Sink) (payload : LogAppendPayload) (events : List EventBody) :
    faultsOf (after (emit sink (.logAppend payload)) events) = faultsOf events := by
  rw [after,emit_settles]
  cases sink events (.logAppend payload) with
  | some e => rfl
  | none =>
    change faultsOf (events ++ [EventBody.logAppend payload]) = _
    simp [faultsOf]

theorem sending_log_silent (sink : Sink) (payload : LogAppendPayload) : Moves Silent (sending (emit sink (.logAppend payload))) := by
  intro s
  rw [sending,after_zoom]
  exact emit_silent sink payload s.events

theorem note_silent (sink : Sink) (text : Text) : Moves Silent (sending (note sink text)) := sending_log_silent sink _

theorem onObservation_silent (quiet : ∀ f, o ≠ .fault f) : Moves Silent (onObservation sink symbols o) := by
  cases o with
  | banner text => exact note_silent sink _
  | pagingState enabled => exact note_silent sink _
  | panicked => exact note_silent sink _
  | fault f => exact absurd rfl (quiet f)

theorem onLine_silent (quiet : ¬ CarriesFault line) (plain : '\n' ∉ line) : Moves Silent (onLine sink symbols line) := by
  refine .bind .get fun s => .bind (fun t => rfl) fun _ => .each fun o member => onObservation_silent ?_
  rintro f rfl
  obtain ⟨g,parsed⟩ := (feed_fault s.observer line).mp ⟨f,member⟩
  exact quiet (parseFault_carries plain parsed)

theorem handleChunk_silent (quiet : chunk.pipe = .serial → ¬ CarriesFault chunk.text) :
    Moves Silent (handleChunk sink symbols chunk) := by
  unfold handleChunk
  split
  · rename_i serial
    refine .bind (sending_log_silent sink _) fun _ => .each fun line member => ?_
    obtain ⟨plain,before,after,cut⟩ := lines_within member
    refine onLine_silent (fun inside => quiet serial ?_) plain
    rw [cut]
    exact inside.within before after
  · exact sending_log_silent sink _

theorem onChunk_handling (sink : Sink) (symbols : Option SymbolizeFn) (s : Launch) (chunk : StreamChunk) :
    (onChunk sink symbols s chunk).handling = s.handling ∨
    (onChunk sink symbols s chunk).handling = after (handleChunk sink symbols chunk) s.handling := by
  unfold onChunk after
  split
  · exact .inl rfl
  · right
    cases (handleChunk sink symbols chunk).run s.handling <;> rfl

theorem faults_none (quiet : ∀ c ∈ chunks, c.pipe = .serial → ¬ CarriesFault c.text) : faults sink symbols chunks = [] := by
  have run : ∀ (cs : List StreamChunk) (s : Launch), (∀ c ∈ cs, c.pipe = .serial → ¬ CarriesFault c.text) →
      faultsOf (cs.foldl (onChunk sink symbols) s).handling.events = faultsOf s.handling.events := by
    intro cs
    induction cs with
    | nil => intro s _; rfl
    | cons c cs ih =>
      intro s none
      rw [List.foldl_cons,ih _ fun d member => none d (List.mem_cons_of_mem _ member)]
      rcases onChunk_handling sink symbols s c with same | handled
      · rw [same]
      · rw [handled]
        exact handleChunk_silent (none c (by simp)) s.handling
  exact run _ launched fun c member => quiet c (List.mem_of_mem_filter member)

-- What a run reports, with the events left out: a function of the lines alone.
structure Tally where
  observer : SerialObserver
  faults : List RunFaultPayload
  suppressed : Nat
deriving DecidableEq, Repr

def Handling.tally (s : Handling) : Tally := ⟨s.observer,s.faults,s.suppressed⟩

def Tally.absorb (symbols : Option SymbolizeFn) (s : Tally) : SerialObservation → Tally
  | .fault raw =>
    if maxFaultEvents ≤ s.faults.length then {s with suppressed:=s.suppressed+1}
    else {s with faults:=s.faults++[raw.intoPayload (symbols.bind (fun lookup => lookup raw.rip))]}
  | _ => s

def Tally.line (symbols : Option SymbolizeFn) (s : Tally) (line : Text) : Tally :=
  (feed s.observer line).1.foldl (Tally.absorb symbols) {s with observer:=(feed s.observer line).2}

def Tally.new : Tally := ⟨.new,[],0⟩

-- An action that cannot fail, whose tally is `f` of the tally before, and that
-- sends a fault exactly when it counts one.
def Does (f : Tally → Tally) (x : Handler) : Prop := ∀ s, answer x s = .ok () ∧ (after x s).tally = f s.tally ∧
  (faultsOf s.events = s.faults → faultsOf (after x s).events = (after x s).faults)

theorem Does.bind (first : Does f x) (second : Does g y) : Does (g ∘ f) (x >>= fun _ => y) := by
  intro s
  obtain ⟨ok,tally,sent⟩ := first s
  obtain ⟨ok',tally',sent'⟩ := second (after x s)
  rw [answer_bind,after_bind,ok]
  exact ⟨ok',by rw [tally',tally]; rfl,fun start => sent' (sent start)⟩

theorem Does.each {x : α → Handler} {f : Tally → α → Tally} (every : ∀ a, Does (fun t => f t a) (x a)) (xs : List α) :
    Does (fun t => xs.foldl f t) (xs.forM x) := by
  induction xs with
  | nil => intro s; exact ⟨rfl,rfl,id⟩
  | cons a xs ih => exact (every a).bind ih

theorem Does.update {f : Handling → Handling} (tally : ∀ s, (f s).tally = g s.tally)
    (sent : ∀ s, faultsOf s.events = s.faults → faultsOf (f s).events = (f s).faults) :
    Does g (modify f : Handler) := fun s => ⟨rfl,tally s,sent s⟩

theorem log_does (accepts : Accepts sink) (payload : LogAppendPayload) : Does id (sending (emit sink (.logAppend payload))) := by
  rw [emit_accepts accepts]
  exact Does.update (f:=fun s => {s with events:=s.events++[EventBody.logAppend payload]}) (fun _ => rfl)
    (fun s start => by simpa [faultsOf] using start)

theorem note_does (accepts : Accepts sink) (text : Text) : Does id (sending (note sink text)) := log_does accepts _

theorem reportGate_does (accepts : Accepts sink) (raw : RawFault) : Does id (reportGate sink raw) := by
  intro s
  unfold reportGate
  split
  · rw [answer_bind,after_bind]
    simp only [answer_get,after_get]
    split
    · exact note_does accepts _ s
    · exact ⟨rfl,rfl,id⟩
  · exact ⟨rfl,rfl,id⟩

theorem fault_does (accepts : Accepts sink) (payload : RunFaultPayload) :
    Does (fun t => {t with faults:=t.faults++[payload]})
      (do sending (emit sink (.runFault payload)); modify fun s => {s with faults:=s.faults++[payload]}) := by
  intro s
  rw [emit_accepts accepts]
  refine ⟨rfl,rfl,fun start => ?_⟩
  change faultsOf (s.events ++ [EventBody.runFault payload]) = s.faults ++ [payload]
  rw [← start]
  simp [faultsOf]

theorem reportFault_does (accepts : Accepts sink) (payload : RunFaultPayload) :
    Does (fun t => if maxFaultEvents ≤ t.faults.length then {t with suppressed:=t.suppressed+1}
      else {t with faults:=t.faults++[payload]}) (reportFault sink payload) := by
  intro s
  unfold reportFault
  rw [answer_bind,after_bind]
  simp only [answer_get,after_get]
  by_cases full : maxFaultEvents ≤ s.faults.length
  · have tally : maxFaultEvents ≤ s.tally.faults.length := full
    have count : Does (fun t => {t with suppressed:=t.suppressed+1}) (modify fun s => {s with suppressed:=s.suppressed+1}) :=
      .update (fun _ => rfl) (fun _ => id)
    have told : ∀ text, Does id (do if (← get).suppressed = 1 then sending (note sink text)) := by
      intro text t
      rw [answer_bind,after_bind]
      simp only [answer_get,after_get]
      split
      · exact note_does accepts text t
      · exact ⟨rfl,rfl,id⟩
    simp only [full,tally,if_true]
    exact count.bind (told _) s
  · have tally : ¬ maxFaultEvents ≤ s.tally.faults.length := full
    simp only [full,tally,if_false]
    exact fault_does accepts payload s

theorem onFault_does (accepts : Accepts sink) (raw : RawFault) : Does (fun t => t.absorb symbols (.fault raw)) (onFault sink symbols raw) :=
  (reportGate_does accepts raw).bind ((note_does accepts _).bind (reportFault_does accepts _))

theorem onObservation_does (accepts : Accepts sink) (symbols : Option SymbolizeFn) (o : SerialObservation) :
    Does (fun t => t.absorb symbols o) (onObservation sink symbols o) := by
  cases o with
  | banner text => exact note_does accepts _
  | pagingState enabled => exact note_does accepts _
  | panicked => exact note_does accepts _
  | fault raw => exact onFault_does accepts raw

theorem onLine_does (accepts : Accepts sink) (line : Text) : Does (fun t => t.line symbols line) (onLine sink symbols line) := by
  intro s
  have update : Does (fun t => {t with observer:=(feed s.observer line).2})
      (modify fun t => {t with observer:=(feed s.observer line).2}) := .update (fun _ => rfl) (fun _ => id)
  have every := Does.each (fun o => onObservation_does accepts symbols o) (feed s.observer line).1
  exact (update.bind every) s

theorem handleChunk_does (accepts : Accepts sink) (symbols : Option SymbolizeFn) (chunk : StreamChunk) :
    Does (fun t => if chunk.pipe = .serial then (lines chunk.text).foldl (Tally.line symbols) t else t)
      (handleChunk sink symbols chunk) := by
  unfold handleChunk
  cases pipe : chunk.pipe with
  | serial => exact (log_does accepts _).bind (.each (fun line => onLine_does accepts line) _)
  | emulator => exact log_does accepts _

def serialLines (chunks : List StreamChunk) : List Text :=
  (chunks.filter (fun c => c.pipe = .serial)).flatMap (fun c => lines c.text)

theorem serialLines_cons (c : StreamChunk) (cs : List StreamChunk) : serialLines (c::cs) = serialLines [c] ++ serialLines cs := by
  have one := List.filter_append (p:=fun c : StreamChunk => decide (c.pipe = .serial)) [c] cs
  simp only [serialLines,← List.flatMap_append,← one,List.singleton_append]

theorem serialLines_text (cs : List StreamChunk) : serialLines (cs.filter (fun c => c.text ≠ [])) = serialLines cs := by
  induction cs with
  | nil => rfl
  | cons c cs ih =>
    rw [serialLines_cons c cs]
    by_cases empty : c.text = []
    · have none : serialLines [c] = [] := by
        cases pipe : c.pipe <;> simp [serialLines,pipe,empty,lines,linesFrom]
      rw [List.filter_cons_of_neg (by simpa using empty),ih,none,List.nil_append]
    · rw [List.filter_cons_of_pos (by simpa using empty),serialLines_cons,ih]

theorem onChunk_does (accepts : Accepts sink) (symbols : Option SymbolizeFn) (healthy : Launch.emitError s = none)
    (sent : faultsOf s.handling.events = s.handling.faults) (chunk : StreamChunk) :
    (onChunk sink symbols s chunk).emitError = none ∧
    (onChunk sink symbols s chunk).handling.tally = (serialLines [chunk]).foldl (Tally.line symbols) s.handling.tally ∧
    faultsOf (onChunk sink symbols s chunk).handling.events = (onChunk sink symbols s chunk).handling.faults := by
  obtain ⟨ok,tally,kept⟩ := handleChunk_does accepts symbols chunk s.handling
  have handled : onChunk sink symbols s chunk = {s with handling:=after (handleChunk sink symbols chunk) s.handling} := by
    unfold onChunk
    unfold answer at ok
    unfold after
    rw [healthy]
    cases result : (handleChunk sink symbols chunk).run s.handling with
    | ok _ t => rfl
    | error e t => rw [result] at ok; cases ok
  rw [handled]
  refine ⟨healthy,?_,kept sent⟩
  rw [tally]
  cases pipe : chunk.pipe <;> simp [serialLines,pipe]

theorem chunks_does (accepts : Accepts sink) (symbols : Option SymbolizeFn) (healthy : Launch.emitError s = none)
    (sent : faultsOf s.handling.events = s.handling.faults) (chunks : List StreamChunk) :
    (chunks.foldl (onChunk sink symbols) s).emitError = none ∧
    (chunks.foldl (onChunk sink symbols) s).handling.tally = (serialLines chunks).foldl (Tally.line symbols) s.handling.tally ∧
    faultsOf (chunks.foldl (onChunk sink symbols) s).handling.events = (chunks.foldl (onChunk sink symbols) s).handling.faults := by
  induction chunks generalizing s with
  | nil => exact ⟨healthy,rfl,sent⟩
  | cons c cs ih =>
    obtain ⟨healthy',tally,sent'⟩ := onChunk_does accepts symbols healthy sent c
    obtain ⟨done,rest,faults⟩ := ih healthy' sent'
    refine ⟨done,?_,faults⟩
    rw [List.foldl_cons,rest,tally,serialLines_cons c cs,List.foldl_append]

theorem faults_accepts (accepts : Accepts sink) (symbols : Option SymbolizeFn) (chunks : List StreamChunk) :
    faults sink symbols chunks = ((serialLines chunks).foldl (Tally.line symbols) .new).faults := by
  obtain ⟨-,tally,sent⟩ := chunks_does accepts symbols (s:=launched) rfl rfl (chunks.filter (fun c => c.text ≠ []))
  rw [serialLines_text] at tally
  exact sent.trans (congrArg Tally.faults tally)

theorem absorb_grows (symbols : Option SymbolizeFn) (s : Tally) (o : SerialObservation) :
    s.faults ≠ [] → (s.absorb symbols o).faults ≠ [] := by
  intro some
  cases o with
  | fault raw =>
    simp only [Tally.absorb]
    split <;> simp [some]
  | _ => exact some

theorem line_grows (symbols : Option SymbolizeFn) (s : Tally) (line : Text) (some : s.faults ≠ []) : (s.line symbols line).faults ≠ [] := by
  unfold Tally.line
  generalize (feed s.observer line).1 = seen
  have start : ({s with observer:=(feed s.observer line).2} : Tally).faults ≠ [] := some
  generalize ({s with observer:=(feed s.observer line).2} : Tally) = t at start ⊢
  induction seen generalizing t with
  | nil => exact start
  | cons o seen ih => exact ih _ (absorb_grows symbols t o start)

theorem absorb_faulty (symbols : Option SymbolizeFn) (t : Tally) {seen : List SerialObservation} (inside : .fault f ∈ seen) :
    (seen.foldl (Tally.absorb symbols) t).faults ≠ [] := by
  have grows : ∀ (later : List SerialObservation) (t : Tally), t.faults ≠ [] → (later.foldl (Tally.absorb symbols) t).faults ≠ [] := by
    intro later
    induction later with
    | nil => exact fun _ some => some
    | cons o later ih => exact fun t some => ih _ (absorb_grows symbols t o some)
  obtain ⟨front,back,rfl⟩ := List.append_of_mem inside
  rw [List.foldl_append,List.foldl_cons]
  refine grows back _ ?_
  generalize front.foldl (Tally.absorb symbols) t = u
  simp only [Tally.absorb]
  split
  · rename_i full
    intro none
    rw [show u.faults = [] from none] at full
    exact absurd full (by decide)
  · simp

theorem mark_faulty {ls : List Text} (marked : FaultMark mark) (inside : mark ∈ ls) (t : Tally) :
    (ls.foldl (Tally.line symbols) t).faults ≠ [] := by
  have grows : ∀ (later : List Text) (t : Tally), t.faults ≠ [] → (later.foldl (Tally.line symbols) t).faults ≠ [] := by
    intro later
    induction later with
    | nil => exact fun _ some => some
    | cons l later ih => exact fun t some => ih _ (line_grows symbols t l some)
  obtain ⟨front,back,rfl⟩ := List.append_of_mem inside
  rw [List.foldl_append,List.foldl_cons]
  refine grows back _ ?_
  obtain ⟨f,fault⟩ := (feed_fault (front.foldl (Tally.line symbols) t).observer mark).mpr (parseFault_mark marked)
  exact absorb_faulty symbols _ fault

-- The chunks of a run: the reader's chunks of the serial pipe in their order,
-- the emulator's chunks anywhere between them.
def Delivers (schedule : List Wake) (chunks : List StreamChunk) : Prop :=
  chunks.filter (fun c => c.pipe = .serial) = spawnReader .serial schedule

theorem delivers_reader (schedule : List Wake) : Delivers schedule (spawnReader .serial schedule) := by
  refine List.filter_eq_self.mpr fun c member => ?_
  simpa using spawnReader_pipe member

theorem serialLines_reader (schedule : List Wake) :
    serialLines (spawnReader .serial schedule) =
      (Stream.session (schedule.flatMap Wake.ops)).flatMap (fun h => lines h.text) := by
  have texts := congrArg (List.flatMap (fun c => lines c.1)) (spawnReader_session .serial schedule)
  rw [serialLines,delivers_reader]
  simpa [List.flatMap_map,chunkOf] using texts

theorem aligned_faults (accepts : Accepts sink) (symbols : Option SymbolizeFn) (aligned : Aligned schedule) (delivers : Delivers schedule chunks) :
    faults sink symbols chunks = ((lines (lossy (read schedule))).foldl (Tally.line symbols) .new).faults := by
  rw [faults_accepts accepts,serialLines,delivers,aligned_lines aligned]

theorem unmarked_faults (unmarked : ¬ CarriesFault (lossy (read schedule))) (delivers : Delivers schedule chunks) :
    faults sink symbols chunks = [] := by
  refine faults_none fun c member serial inside => unmarked ?_
  have read : c ∈ spawnReader .serial schedule := by
    rw [← delivers]
    exact List.mem_filter.mpr ⟨member,by simpa using serial⟩
  obtain ⟨before,after,cut⟩ := spawnReader_infix read
  rw [cut]
  exact inside.within before after

theorem crumbs_faults (sink : Sink) (symbols : Option SymbolizeFn) (bs : Bytes) :
    faults sink symbols (spawnReader .serial (crumbs bs)) = [] := by
  refine faults_none fun c member _ inside => ?_
  have short := crumbs_short member
  have long := carriesFault_long inside
  omega

theorem isolated_faults (accepts : Accepts sink) (symbols : Option SymbolizeFn) (marked : FaultMark mark) (x y : Bytes) :
    faults sink symbols (spawnReader .serial (isolate x (encode mark) y)) ≠ [] := by
  obtain ⟨rest,rfl⟩ := faultMark_start marked
  have plain := (faultMark_plain marked).1
  have chunk := isolated .serial (by decide) plain x y
  rw [faults_accepts accepts]
  refine mark_faulty marked (List.mem_flatMap.mpr ⟨_,List.mem_filter.mpr ⟨chunk,rfl⟩,?_⟩) .new
  rw [toChunk,lines_single plain (by simp)]
  simp

theorem chunking_faults (bs : Bytes) (symbols : Option SymbolizeFn) :
    ((∀ sink σ τ cs ds, read σ = bs → read τ = bs → Delivers σ cs → Delivers τ ds →
        faults sink symbols cs = faults sink symbols ds) ↔ ¬ CarriesFault (lossy bs)) ∧
    (∀ sink σ τ cs ds, Accepts sink → read σ = bs → read τ = bs → Aligned σ → Aligned τ → Delivers σ cs → Delivers τ ds →
        faults sink symbols cs = faults sink symbols ds) := by
  refine ⟨⟨?_,?_⟩,?_⟩
  · rintro agree ⟨before,mark,after,whole,marked⟩
    obtain ⟨x,y,cut⟩ := lossy_infix whole (faultMark_plain marked).2
    have accepts : Accepts (fun _ _ => none) := fun _ _ => rfl
    have same := agree (fun _ _ => none) (isolate x (encode mark) y) (crumbs bs) _ _
      (by rw [read_isolate,cut]) (read_crumbs bs) (delivers_reader _) (delivers_reader _)
    rw [crumbs_faults] at same
    exact isolated_faults accepts symbols marked x y same
  · intro unmarked sink σ τ cs ds whole whole' delivers delivers'
    rw [unmarked_faults (whole ▸ unmarked) delivers,unmarked_faults (whole' ▸ unmarked) delivers']
  · intro sink σ τ cs ds accepts whole whole' aligned aligned' delivers delivers'
    rw [aligned_faults accepts symbols aligned delivers,aligned_faults accepts symbols aligned' delivers',whole,whole']

theorem chunking_faults_banner : ∀ sink cs ds, Accepts sink →
    Delivers [.bytes (encode "FAULT_RIP=0x10\n".toList)] cs →
    Delivers [.bytes (encode "FAULT_RIP=0x1".toList),.bytes (encode "0\n".toList),.idle] ds →
    faults sink none cs = faults sink none ds := by
  intro sink cs ds accepts delivers delivers'
  refine (chunking_faults (encode "FAULT_RIP=0x10\n".toList) none).2 sink _ _ cs ds accepts (by decide) (by decide) ?_ ?_ delivers delivers'
  · intro before after split
    have inside : Wake.idle ∈ [Wake.bytes (encode "FAULT_RIP=0x10\n".toList)] := by rw [split]; simp
    simp at inside
  · intro before after split
    match before,split with
    | [],split => cases split
    | [_],split => cases split
    | [_,_],split => cases split; exact .inr (by decide)
    | _ :: _ :: _ :: _,split => simp at split

-- The flush cuts `0x10` behind its first digit.
theorem idle_flush_truncates : ¬ ∀ bs symbols sink σ τ cs ds, Accepts sink → read σ = bs → read τ = bs →
    Delivers σ cs → Delivers τ ds → faults sink symbols cs = faults sink symbols ds := by
  intro claim
  have accepts : Accepts (fun _ _ => none) := fun _ _ => rfl
  have same := claim (encode "FAULT_RIP=0x10\n".toList) none (fun _ _ => none)
    [.bytes (encode "FAULT_RIP=0x1".toList),.idle,.bytes (encode "0\n".toList)] [.bytes (encode "FAULT_RIP=0x10\n".toList)]
    _ _ accepts (by decide) (by decide) (delivers_reader _) (delivers_reader _)
  rw [faults_accepts accepts,faults_accepts accepts,serialLines_reader,serialLines_reader] at same
  revert same
  decide

end PrincessIDE.RunBackend
