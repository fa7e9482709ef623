import PrincessIDE.Foundation.Latest
import PrincessIDE.Debug.Transport

namespace PrincessIDE.Dap
open Utf8 Str Error Effect Loop

def eventsOf (parcels : List Parcel) : List Message := parcels.filterMap fun parcel => match parcel.incoming with
  | .event value => some ⟨parcel.arrival,value⟩
  | _ => none

def responsesTo (seq : Int) (parcels : List Parcel) : List Message := parcels.filterMap fun parcel => match parcel.incoming with
  | .response requestSeq message => if requestSeq = seq then some ⟨parcel.arrival,message⟩ else none
  | _ => none

@[simp] theorem eventsOf_nil : eventsOf [] = [] := rfl
@[simp] theorem eventsOf_event : eventsOf (⟨arrival,.event value⟩ :: rest) = ⟨arrival,value⟩ :: eventsOf rest := rfl
@[simp] theorem eventsOf_response : eventsOf (⟨arrival,.response seq message⟩ :: rest) = eventsOf rest := rfl
@[simp] theorem eventsOf_closed : eventsOf (⟨arrival,.closed reason⟩ :: rest) = eventsOf rest := rfl
@[simp] theorem eventsOf_append (a b : List Parcel) : eventsOf (a++b) = eventsOf a ++ eventsOf b := List.filterMap_append

@[simp] theorem responsesTo_nil : responsesTo seq [] = [] := rfl
@[simp] theorem responsesTo_event : responsesTo seq (⟨arrival,.event value⟩ :: rest) = responsesTo seq rest := rfl
@[simp] theorem responsesTo_closed : responsesTo seq (⟨arrival,.closed reason⟩ :: rest) = responsesTo seq rest := rfl
@[simp] theorem responsesTo_own :
    responsesTo seq (⟨arrival,.response seq message⟩ :: rest) = ⟨arrival,message⟩ :: responsesTo seq rest := by
  simp [responsesTo]
theorem responsesTo_other (other : requestSeq ≠ seq) :
    responsesTo seq (⟨arrival,.response requestSeq message⟩ :: rest) = responsesTo seq rest := by
  simp [responsesTo,other]
@[simp] theorem responsesTo_append (seq : Int) (a b : List Parcel) :
    responsesTo seq (a++b) = responsesTo seq a ++ responsesTo seq b := List.filterMap_append

def has (name : Option Text) (message : Message) : Bool := message.name = name

def Transport.pendingEvents (t : Transport) (name : Option Text) : List Message :=
  t.events.filter (has name) ++ (eventsOf t.queue).filter (has name)

def Transport.pendingResponses (t : Transport) (seq : Int) : List Message :=
  (t.early seq).toList ++ responsesTo seq t.queue

-- What a call hands to its caller; a response with the request it was asked for.
structure Given where
  events : List Message
  responses : List (Int × Message)

def Given.none : Given := ⟨[],[]⟩

def Given.to (given : Given) (seq : Int) : List Message := (given.responses.filter (·.1 = seq)).map (·.2)

def Given.append (a b : Given) : Given := ⟨a.events ++ b.events,a.responses ++ b.responses⟩

-- Between two states of a transport: what was pending and what arrived since is
-- what was given out and what is pending now, in order for each event name and,
-- up to responses overwritten by a later one, for each request.
def Accounts (t : Transport) (given : Given) (u : Transport) : Prop :=
  ∃ new, u.delivered = t.delivered ++ new ∧ new.map (·.arrival) = List.range' t.delivered.length new.length ∧
    (∀ name, t.pendingEvents name ++ (eventsOf new).filter (has name) = given.events.filter (has name) ++ u.pendingEvents name) ∧
    (∀ seq, Latest (given.to seq ++ u.pendingResponses seq) (t.pendingResponses seq ++ responsesTo seq new))

namespace Accounts

theorem refl (t : Transport) : Accounts t .none t :=
  ⟨[],by simp,rfl,fun name => by simp [Given.none],fun seq => by
    simpa [Given.none,Given.to] using Latest.refl (t.pendingResponses seq)⟩

theorem trans {a b c : Transport} (first : Accounts a g b) (second : Accounts b h c) : Accounts a (g.append h) c := by
  obtain ⟨m,fromA,numbered,events,responses⟩ := first
  obtain ⟨n,fromB,onward,later,answers⟩ := second
  refine ⟨m++n,by rw [fromB,fromA,List.append_assoc],?_,?_,?_⟩
  · rw [List.map_append,numbered,onward,fromA,List.length_append,List.length_append,List.range'_append_1]
  · intro name
    have one := events name
    have two := later name
    calc a.pendingEvents name ++ (eventsOf (m++n)).filter (has name)
        = (a.pendingEvents name ++ (eventsOf m).filter (has name)) ++ (eventsOf n).filter (has name) := by
          simp
      _ = g.events.filter (has name) ++ (b.pendingEvents name ++ (eventsOf n).filter (has name)) := by
          rw [one,List.append_assoc]
      _ = (g.append h).events.filter (has name) ++ c.pendingEvents name := by
          rw [two]; simp [Given.append]
  · intro seq
    have one := (responses seq).append_right (responsesTo seq n)
    have two := (answers seq).append_left (g.to seq)
    rw [← List.append_assoc,← List.append_assoc] at two
    have both := two.trans one
    simpa [Given.append,Given.to] using both

theorem quiet_trans {a b c : Transport} (first : Accounts a .none b) (second : Accounts b h c) : Accounts a h c := by
  simpa [Given.append,Given.none] using first.trans second

-- A change of fields that hold no message.
theorem silent {t u : Transport} (delivered : u.delivered = t.delivered) (queue : u.queue = t.queue)
    (events : u.events = t.events) (early : u.early = t.early) : Accounts t .none u :=
  ⟨[],by simp [delivered],rfl,
    fun name => by simp [Given.none,Transport.pendingEvents,queue,events],
    fun seq => by
      simpa [Given.none,Given.to,Transport.pendingResponses,queue,early] using Latest.refl (t.pendingResponses seq)⟩

theorem push (t : Transport) (incoming : Incoming) : Accounts t .none (t.push incoming) :=
  ⟨[⟨t.delivered.length,incoming⟩],rfl,rfl,
    fun name => by simp [Given.none,Transport.pendingEvents,Transport.push],
    fun seq => by
      simpa [Given.none,Given.to,Transport.pendingResponses,Transport.push] using Latest.refl _⟩

theorem hear (t : Transport) (frame : Frame) : Accounts t .none (t.hear frame) := by
  unfold Transport.hear
  split
  · exact refl t
  · split
    · exact (push t _).quiet_trans (silent rfl rfl rfl rfl)
    · split
      · exact push t _
      · exact refl t

theorem reach (tick : Tick) (t : Transport) : Accounts t .none (t.reach tick) := by
  unfold Transport.reach
  generalize tick.frames = frames
  induction frames generalizing t with
  | nil => exact refl t
  | cons frame frames ih => exact (hear t frame).quiet_trans (ih _)

variable {t : Transport} {rest : List Parcel}

theorem buffered (head : t.queue = ⟨arrival,.event event⟩ :: rest) :
    Accounts t .none {t with queue:=rest, events:=t.events ++ [⟨arrival,event⟩]} :=
  ⟨[],by simp,rfl,
    fun name => by
      by_cases mine : has name ⟨arrival,event⟩ = true <;> simp [Given.none,Transport.pendingEvents,head,mine],
    fun seq => by
      simpa [Given.none,Given.to,Transport.pendingResponses,head] using Latest.refl _⟩

-- No event of the name waits in the buffer, so the one in the channel is next.
theorem caught (head : t.queue = ⟨arrival,.event event⟩ :: rest) (match' : named name ⟨arrival,event⟩ = true)
    (clear : ∀ message ∈ t.events, named name message = false) :
    Accounts t ⟨[⟨arrival,event⟩],[]⟩ {t with queue:=rest} := by
  refine ⟨[],by simp,rfl,?_,fun seq => by
    simpa [Given.to,Transport.pendingResponses,head] using Latest.refl _⟩
  intro other
  by_cases same : other = some name
  · subst same
    have none' : t.events.filter (has (some name)) = [] := List.filter_eq_nil_iff.mpr fun message member => by
      simpa [has,named] using clear message member
    have yes : has (some name) ⟨arrival,event⟩ = true := by simpa [has,named] using match'
    simp [Transport.pendingEvents,head,none',yes]
  · have no : has other ⟨arrival,event⟩ = false := by
      simp only [named,decide_eq_true_eq] at match'
      simp [has,match',Ne.symm same]
    simp [Transport.pendingEvents,head,no]

theorem fetched (found : t.events.find? (named name) = some message) :
    Accounts t ⟨[message],[]⟩ {t with events:=t.events.eraseP (named name)} := by
  refine ⟨[],by simp,rfl,?_,fun seq => by
    simpa [Given.to,Transport.pendingResponses] using Latest.refl _⟩
  intro other
  obtain ⟨match',before,after,split,clear⟩ := List.find?_eq_some_iff_append.mp found
  have erased : (before ++ message :: after).eraseP (named name) = before ++ after := by
    rw [List.eraseP_append_right _ (fun b member => by simpa using clear b member)]
    simp [match']
  simp only [named,decide_eq_true_eq] at match'
  simp only [Transport.pendingEvents,split,erased,List.filter_append,List.filter_cons]
  by_cases same : other = some name
  · subst same
    have none' : before.filter (has (some name)) = [] := List.filter_eq_nil_iff.mpr fun message member => by
      simpa [has,named] using clear message member
    simp [none',has,match']
  · have no : has other message = false := by simp [has,match',Ne.symm same]
    simp [no]

theorem stashed (head : t.queue = ⟨arrival,.response requestSeq message⟩ :: rest) :
    Accounts t .none ({t with queue:=rest}.stash requestSeq ⟨arrival,message⟩) := by
  refine ⟨[],by simp [Transport.stash],rfl,fun name => by
    simp [Given.none,Transport.pendingEvents,Transport.stash,head],?_⟩
  intro seq
  by_cases same : requestSeq = seq
  · subst same
    cases old : t.early requestSeq with
    | none => simpa [Given.none,Given.to,Transport.pendingResponses,Transport.stash,head,old] using Latest.refl _
    | some before =>
      simpa [Given.none,Given.to,Transport.pendingResponses,Transport.stash,head,old] using
        Latest.overwritten before ⟨arrival,message⟩ (responsesTo requestSeq rest)
  · have other : seq ≠ requestSeq := fun h => same h.symm
    simpa [Given.none,Given.to,Transport.pendingResponses,Transport.stash,head,responsesTo_other same,other] using Latest.refl _

theorem answered (head : t.queue = ⟨arrival,.response requestSeq message⟩ :: rest) (free : t.early requestSeq = none) :
    Accounts t ⟨[],[(requestSeq,⟨arrival,message⟩)]⟩ {t with queue:=rest} := by
  refine ⟨[],by simp,rfl,fun name => by simp [Transport.pendingEvents,head],?_⟩
  intro seq
  by_cases same : requestSeq = seq
  · subst same
    simpa [Given.to,Transport.pendingResponses,head,free] using Latest.refl _
  · simpa [Given.to,Transport.pendingResponses,head,responsesTo_other same,same] using Latest.refl _

theorem unstashed (found : t.early seq = some message) : Accounts t ⟨[],[(seq,message)]⟩ (t.unstash seq) := by
  refine ⟨[],by simp [Transport.unstash],rfl,fun name => by simp [Transport.pendingEvents,Transport.unstash],?_⟩
  intro other
  by_cases same : seq = other
  · subst same
    simpa [Given.to,Transport.pendingResponses,Transport.unstash,found] using Latest.refl _
  · have no : other ≠ seq := fun h => same h.symm
    simpa [Given.to,Transport.pendingResponses,Transport.unstash,same,no] using Latest.refl _

theorem ended (head : t.queue = ⟨arrival,.closed reason⟩ :: rest) : Accounts t .none {t with queue:=rest} :=
  ⟨[],by simp,rfl,
    fun name => by simp [Given.none,Transport.pendingEvents,head],
    fun seq => by
      simpa [Given.none,Given.to,Transport.pendingResponses,head] using Latest.refl _⟩

end Accounts

-- The rule for a wait: what one turn does, over both of its loops.
theorem wait_yields (turn : Transport → Tick → Turn Transport ρ) (Q : Transport → Option ρ → Transport → Prop)
    (stay : ∀ t, Q t none t) (next : ∀ t tick u r v, turn t tick = .next u → Q u r v → Q t r v)
    (leave : ∀ t tick r u, turn t tick = .leave r u → Q t (some r) u)
    (after : ∀ t u r v, Q t none u → Q u r v → Q t r v) (idle : ρ) (timely : ∀ t u, Q t none u → Q t (some idle) u) (s : Session) :
    Q s.transport (some (wait turn idle s).1) (wait turn idle s).2.transport := by
  have first := loop_yields Q stay next leave s.transport s.ticks
  unfold wait
  generalize loop turn s.transport s.ticks = run at first
  obtain ⟨found,t,rest⟩ := run
  cases found with
  | some result => exact first
  | none =>
    have second := loop_yields Q stay next leave t (.replicate (t.queue.length+1) .last)
    dsimp only
    generalize loop turn t (.replicate (t.queue.length+1) .last) = run at second
    obtain ⟨found,u,rest⟩ := run
    cases found with
    | some result => exact after _ _ _ _ first second
    | none => exact timely _ _ (after _ _ _ _ first second)

def givenResponse (seq : Int) : Except PrincessError Message → Given
  | .ok response => ⟨[],[(seq,response)]⟩
  | .error _ => .none

theorem responseTurn_accounts (seq : Int) (timeout : Nat) (t : Transport) (tick : Tick) :
    match responseTurn seq timeout t tick with
    | .next u => Accounts t .none u
    | .leave r u => Accounts t (givenResponse seq r) u := by
  have reached := Accounts.reach tick t
  unfold responseTurn
  generalize t.reach tick = u at reached ⊢
  dsimp only
  cases stashed : u.early seq with
  | some response => exact reached.quiet_trans (.unstashed stashed)
  | none =>
    cases tick.expired with
    | true => exact reached
    | false =>
      cases head : u.queue with
      | nil =>
        cases u.readerGone with
        | true => exact reached.quiet_trans (.silent rfl head.symm rfl rfl)
        | false => exact reached
      | cons parcel rest =>
        obtain ⟨arrival,incoming⟩ := parcel
        cases incoming with
        | response requestSeq message =>
          by_cases own : requestSeq = seq
          · subst own
            simpa [givenResponse] using reached.quiet_trans (.answered head stashed)
          · simpa [own] using reached.quiet_trans (.stashed head)
        | event event => exact reached.quiet_trans (.buffered head)
        | closed reason => exact reached.quiet_trans ((Accounts.ended head).quiet_trans (.silent rfl rfl rfl rfl))

theorem waitResponse_accounts (seq : Int) (timeout : Nat) (s : Session) :
    Accounts s.transport (givenResponse seq (answer (waitResponse seq timeout) s)) (after (waitResponse seq timeout) s).transport := by
  unfold after answer waitResponse
  simp only [EStateM.run]
  cases stashed : s.transport.early seq with
  | some response => exact .unstashed stashed
  | none =>
    have waited := wait_yields (responseTurn seq timeout)
      (fun t r u => Accounts t (r.elim .none (givenResponse seq)) u) Accounts.refl
      (fun t tick u r v here later => by
        have turn := responseTurn_accounts seq timeout t tick
        rw [here] at turn
        exact turn.quiet_trans later)
      (fun t tick r u here => by
        have turn := responseTurn_accounts seq timeout t tick
        rwa [here] at turn)
      (fun t u r v first later => first.quiet_trans later) (.error (timedOut s.transport seq timeout))
      (fun t u quiet => quiet) s
    dsimp only
    generalize wait (responseTurn seq timeout) (.error (timedOut s.transport seq timeout)) s = result at waited
    obtain ⟨answer | response,u⟩ := result <;> exact waited

def givenEvent : Except PrincessError (Option Message) → Given
  | .ok (some event) => ⟨[event],[]⟩
  | _ => .none

def Clear (name : Text) (t : Transport) : Prop := ∀ message ∈ t.events, named name message = false

theorem reach_events (tick : Tick) (t : Transport) : (t.reach tick).events = t.events := by
  unfold Transport.reach
  generalize tick.frames = frames
  induction frames generalizing t with
  | nil => rfl
  | cons frame frames ih =>
    rw [List.foldl_cons,ih]
    unfold Transport.hear Transport.push
    repeat (first | rfl | split)

-- The buffer holds no event of the name, and goes on holding none.
theorem eventTurn_accounts (name : Text) (t : Transport) (tick : Tick) (clear : Clear name t) :
    match eventTurn name t tick with
    | .next u => Accounts t .none u ∧ Clear name u
    | .leave r u => Accounts t (givenEvent r) u := by
  have reached := Accounts.reach tick t
  have still : Clear name (t.reach tick) := by rw [Clear,reach_events]; exact clear
  unfold eventTurn
  generalize t.reach tick = u at reached still ⊢
  dsimp only
  cases head : u.queue with
  | nil =>
    dsimp only
    cases tick.expired || u.readerGone with
    | true => exact reached
    | false => exact ⟨reached,still⟩
  | cons parcel rest =>
    obtain ⟨arrival,incoming⟩ := parcel
    cases incoming with
    | event event =>
      dsimp only
      cases match' : named name ⟨arrival,event⟩ with
      | true => exact reached.quiet_trans (.caught head match' still)
      | false =>
        refine ⟨reached.quiet_trans (.buffered head),?_⟩
        intro message member
        rcases List.mem_append.mp member with old | new
        · exact still message old
        · rw [List.mem_singleton.mp new]; exact match'
    | response requestSeq message => exact ⟨reached.quiet_trans (.stashed head),still⟩
    | closed reason =>
      dsimp only
      cases tick.expired with
      | true => exact reached.quiet_trans (.ended head)
      | false => exact reached.quiet_trans ((Accounts.ended head).quiet_trans (.silent rfl rfl rfl rfl))

theorem waitEvent_accounts (name : Text) (s : Session) :
    Accounts s.transport (givenEvent (answer (waitEvent name) s)) (after (waitEvent name) s).transport := by
  unfold after answer waitEvent
  simp only [EStateM.run]
  cases found : s.transport.events.find? (named name) with
  | some event => exact .fetched found
  | none =>
    have clear : Clear name s.transport := fun message member => by
      simpa using List.find?_eq_none.mp found message member
    have waited := wait_yields (eventTurn name)
      (fun t r u => Clear name t → Accounts t (r.elim .none givenEvent) u ∧ (r = none → Clear name u))
      (fun t clear => ⟨.refl t,fun _ => clear⟩)
      (fun t tick u r v here later clear => by
        have turn := eventTurn_accounts name t tick clear
        rw [here] at turn
        exact ⟨turn.1.quiet_trans (later turn.2).1,(later turn.2).2⟩)
      (fun t tick r u here clear => by
        have turn := eventTurn_accounts name t tick clear
        rw [here] at turn
        exact ⟨turn,fun no => by cases no⟩)
      (fun t u r v first later clear =>
        ⟨(first clear).1.quiet_trans (later ((first clear).2 rfl)).1,(later ((first clear).2 rfl)).2⟩)
      (.ok none) (fun t u quiet clear => ⟨(quiet clear).1,fun no => by cases no⟩) s
    have accounted := (waited clear).1
    dsimp only
    generalize wait (eventTurn name) (.ok none) s = result at accounted
    obtain ⟨answer | event,u⟩ := result <;> exact accounted

theorem takeEvents_accounts (s : Session) : Accounts s.transport ⟨s.transport.events,[]⟩ (after takeEvents s).transport :=
  ⟨[],by simp [after,takeEvents,Session.alter,EStateM.run],rfl,
    fun name => by simp [after,takeEvents,Session.alter,EStateM.run,Transport.pendingEvents],
    fun seq => by
      simpa [after,takeEvents,Session.alter,EStateM.run,Transport.pendingResponses,Given.to] using Latest.refl _⟩

-- An action that gives nothing out.
def Quiet (s s' : Session) : Prop := Accounts s.transport .none s'.transport

instance : IsPreorder Session Quiet where
  refl s := .refl s.transport
  trans _ _ _ := .quiet_trans

theorem nextTick_quiet : Moves Quiet nextTick := by
  intro s
  unfold after nextTick
  simp only [EStateM.run]
  cases s.ticks with
  | nil => exact .reach .last s.transport
  | cons tick rest => exact .reach tick s.transport

theorem send_quiet (command : Text) (arguments : Option Json) : Moves Quiet (send command arguments) := by
  unfold send
  refine .bind .get fun s => ?_
  dsimp only
  split
  · exact .throw _
  · refine .bind (.modify fun s => .silent rfl rfl rfl rfl) fun _ => .bind nextTick_quiet fun tick => ?_
    split
    · exact .throw _
    · exact .bind (.modify fun s => .silent rfl rfl rfl rfl) fun _ => .pure _

inductive Call where
  | send (command : Text) (arguments : Option Json)
  | waitResponse (seq : Int) (timeout : Nat)
  | waitEvent (name : Text)
  | takeEvents

def givenEvents : Except PrincessError (List Message) → Given
  | .ok events => ⟨events,[]⟩
  | .error _ => .none

def Call.perform (s : Session) : Call → Given × Session
  | .send command arguments => (.none,after (Dap.send command arguments) s)
  | .waitResponse seq timeout => (givenResponse seq (answer (Dap.waitResponse seq timeout) s),after (Dap.waitResponse seq timeout) s)
  | .waitEvent name => (givenEvent (answer (Dap.waitEvent name) s),after (Dap.waitEvent name) s)
  | .takeEvents => (givenEvents (answer Dap.takeEvents s),after Dap.takeEvents s)

def performAll (s : Session) : List Call → Given × Session
  | [] => (.none,s)
  | call :: calls =>
    let (given,s) := call.perform s
    let (later,s) := performAll s calls
    (given.append later,s)

theorem perform_accounts (s : Session) (call : Call) : Accounts s.transport (call.perform s).1 (call.perform s).2.transport := by
  cases call with
  | send command arguments => exact send_quiet command arguments s
  | waitResponse seq timeout => exact waitResponse_accounts seq timeout s
  | waitEvent name => exact waitEvent_accounts name s
  | takeEvents => exact takeEvents_accounts s

theorem performAll_accounts (s : Session) (calls : List Call) :
    Accounts s.transport (performAll s calls).1 (performAll s calls).2.transport := by
  induction calls generalizing s with
  | nil => exact .refl s.transport
  | cons call calls ih => exact (perform_accounts s call).trans (ih _)

-- Once the adapter is silent, every call on a channel that still holds a message
-- takes one out, so that some calls empty both the channel and the buffer.
def Transport.burden (t : Transport) : Nat := 2*t.queue.length + t.events.length

theorem eventTurn_last (name : Text) (t : Transport) :
    (eventTurn name t .last).state.burden ≤ t.burden ∧ (t.queue ≠ [] → (eventTurn name t .last).state.burden < t.burden) := by
  have still : t.reach .last = t := rfl
  unfold eventTurn
  rw [still]
  dsimp only
  cases head : t.queue with
  | nil => exact ⟨by simp [Tick.last,Turn.state],fun more => (more rfl).elim⟩
  | cons parcel rest =>
    have taken : t.burden = 2*rest.length + t.events.length + 2 := by
      rw [Transport.burden,head,List.length_cons]
      omega
    obtain ⟨arrival,incoming⟩ := parcel
    have strict : ∀ u : Transport, u.queue = rest → u.events.length ≤ t.events.length + 1 → u.burden ≤ t.burden ∧
        ((⟨arrival,incoming⟩ :: rest : List Parcel) ≠ [] → u.burden < t.burden) := by
      intro u queue events
      rw [taken,Transport.burden,queue]
      exact ⟨by omega,fun _ => by omega⟩
    cases incoming with
    | response seq message => exact strict _ rfl (Nat.le_succ _)
    | closed reason => exact strict _ rfl (Nat.le_succ _)
    | event event =>
      dsimp only
      split
      · exact strict _ rfl (Nat.le_succ _)
      · exact strict _ rfl (Nat.le_of_eq List.length_append)

theorem sweep_burden (name : Text) (n : Nat) (t : Transport) :
    (loop (eventTurn name) t (.replicate n .last)).2.1.burden ≤ t.burden ∧
      (t.queue ≠ [] → n ≠ 0 → (loop (eventTurn name) t (.replicate n .last)).2.1.burden < t.burden) := by
  induction n generalizing t with
  | zero => exact ⟨Nat.le_refl _,fun _ some' => (some' rfl).elim⟩
  | succ n ih =>
    have turn := eventTurn_last name t
    rw [List.replicate_succ]
    simp only [loop]
    cases here : eventTurn name t .last with
    | next u =>
      rw [here] at turn
      exact ⟨Nat.le_trans (ih u).1 turn.1,fun more _ => Nat.lt_of_le_of_lt (ih u).1 (turn.2 more)⟩
    | leave r u =>
      rw [here] at turn
      exact ⟨turn.1,fun more _ => turn.2 more⟩

theorem waitEvent_drains (name : Text) (t : Transport) (more : t.queue ≠ []) :
    (after (waitEvent name) ⟨t,[],[]⟩).transport.burden < t.burden ∧ (after (waitEvent name) ⟨t,[],[]⟩).ticks = [] ∧ (after (waitEvent name) ⟨t,[],[]⟩).lost = [] := by
  unfold after waitEvent
  simp only [EStateM.run]
  cases found : t.events.find? (named name) with
  | some event =>
    have fewer : (t.events.eraseP (named name)).length < t.events.length := by
      have shorter := List.length_eraseP_of_mem (List.mem_of_find?_eq_some found) (List.find?_some found)
      have some' := List.length_pos_of_mem (List.mem_of_find?_eq_some found)
      omega
    exact ⟨by simp only [Session.alter,Transport.burden]; omega,rfl,rfl⟩
  | none =>
    have swept := (sweep_burden name (t.queue.length+1) t).2 more (Nat.succ_ne_zero _)
    simp only [wait,loop]
    generalize loop (eventTurn name) t (.replicate (t.queue.length+1) .last) = run at swept
    obtain ⟨found,u,rest⟩ := run
    rcases found with - | e | message <;> exact ⟨swept,rfl,rfl⟩

-- By induction on the burden: wait for some event until the channel is empty,
-- then take the buffer.
theorem events_drain (t : Transport) : ∃ calls, (∀ name, (performAll ⟨t,[],[]⟩ calls).2.transport.pendingEvents name = []) ∧
    (performAll ⟨t,[],[]⟩ calls).2.transport.queue = [] := by
  induction size : t.burden using Nat.strong_induction_on generalizing t with
  | _ size ih =>
    subst size
    by_cases empty : t.queue = []
    · refine ⟨[.takeEvents],fun name => ?_,?_⟩
      · simp [performAll,Call.perform,after,takeEvents,Session.alter,EStateM.run,Transport.pendingEvents,empty]
      · simpa [performAll,Call.perform,after,takeEvents,Session.alter,EStateM.run] using empty
    · obtain ⟨lighter,silent,kept⟩ := waitEvent_drains [] t empty
      cases next : after (waitEvent []) ⟨t,[],[]⟩ with
      | mk u ticks lost =>
        rw [next] at lighter silent kept
        obtain rfl : ticks = [] := silent
        obtain rfl : lost = [] := kept
        obtain ⟨calls,events,queue⟩ := ih _ lighter u rfl
        refine ⟨.waitEvent [] :: calls,?_,?_⟩
        · simpa only [performAll,Call.perform,next] using events
        · simpa only [performAll,Call.perform,next] using queue

theorem waitResponse_drains (seq : Int) (timeout : Nat) (s : Session) (empty : s.transport.queue = [])
    (stashed : s.transport.early seq = some message) :
    (after (waitResponse seq timeout) s).transport.pendingResponses seq = [] := by
  unfold after waitResponse
  simp only [EStateM.run,stashed]
  simp [Session.alter,Transport.unstash,Transport.pendingResponses,empty]

theorem performAll_append (s : Session) (a b : List Call) : performAll s (a++b) =
    ((performAll s a).1.append (performAll (performAll s a).2 b).1,(performAll (performAll s a).2 b).2) := by
  induction a generalizing s with
  | nil => simp [performAll,Given.append,Given.none]
  | cons call a ih => simp [performAll,ih,Given.append]

theorem responses_drain (t : Transport) (seq : Int) : ∃ calls,
    (performAll ⟨t,[],[]⟩ calls).2.transport.pendingResponses seq = [] := by
  obtain ⟨calls,-,empty⟩ := events_drain t
  cases stashed : (performAll ⟨t,[],[]⟩ calls).2.transport.early seq with
  | none => exact ⟨calls,by simp [Transport.pendingResponses,stashed,empty]⟩
  | some message =>
    refine ⟨calls ++ [.waitResponse seq 0],?_⟩
    rw [performAll_append]
    exact waitResponse_drains seq 0 _ empty stashed

-- What a transport has given out since it was spawned.
def Balanced (given : Given) (t : Transport) : Prop :=
  (∀ name, (eventsOf t.delivered).filter (has name) = given.events.filter (has name) ++ t.pendingEvents name) ∧
  (∀ seq, Latest (given.to seq ++ t.pendingResponses seq) (responsesTo seq t.delivered))

theorem balanced_spawned (accounts : Accounts (spawned command) given t) : Balanced given t := by
  obtain ⟨new,delivered,-,events,responses⟩ := accounts
  obtain rfl : t.delivered = new := delivered
  exact ⟨fun name => by simpa [Transport.pendingEvents,spawned] using events name,
    fun seq => by simpa [Transport.pendingResponses,spawned] using responses seq⟩

-- After any calls, in any surroundings: the events of one name were given out
-- in the order of their arrival and none is missing; a response went only to a
-- wait for its own request, and is missing only behind a later response to the
-- same request; and nothing that is pending is out of the reach of later calls.
theorem calls_account (command : Text) (ticks : List Tick) (calls : List Call) :
    let given := (performAll ⟨spawned command,ticks,[]⟩ calls).1
    let t := (performAll ⟨spawned command,ticks,[]⟩ calls).2.transport
    (∀ name, (eventsOf t.delivered).filter (has name) = given.events.filter (has name) ++ t.pendingEvents name) ∧
    (∀ seq, Latest (given.to seq ++ t.pendingResponses seq) (responsesTo seq t.delivered)) ∧
    (∀ seq, (responsesTo seq t.delivered).length ≤ 1 → given.to seq ++ t.pendingResponses seq = responsesTo seq t.delivered) ∧
    (∃ more, let later := performAll ⟨t,[],[]⟩ more
      t.delivered <+: later.2.transport.delivered ∧
      ∀ name, (eventsOf later.2.transport.delivered).filter (has name) = (given.append later.1).events.filter (has name)) ∧
    (∀ seq, ∃ more, let later := performAll ⟨t,[],[]⟩ more
      t.delivered <+: later.2.transport.delivered ∧
      Latest ((given.append later.1).to seq) (responsesTo seq later.2.transport.delivered)) := by
  intro given t
  have accounts : Accounts (spawned command) given t := performAll_accounts ⟨spawned command,ticks,[]⟩ calls
  have now := balanced_spawned accounts
  have extended : ∀ more, t.delivered <+: (performAll ⟨t,[],[]⟩ more).2.transport.delivered ∧
      Balanced (given.append (performAll ⟨t,[],[]⟩ more).1) (performAll ⟨t,[],[]⟩ more).2.transport := by
    intro more
    have later := performAll_accounts ⟨t,[],[]⟩ more
    exact ⟨by obtain ⟨new,delivered,-⟩ := later; exact ⟨new,delivered.symm⟩,balanced_spawned (accounts.trans later)⟩
  refine ⟨now.1,now.2,fun seq short => (now.2 seq).eq_of_short short,?_,fun seq => ?_⟩
  · obtain ⟨more,drained,-⟩ := events_drain t
    refine ⟨more,(extended more).1,fun name => ?_⟩
    have balance := (extended more).2.1 name
    rwa [drained name,List.append_nil] at balance
  · obtain ⟨more,drained⟩ := responses_drain t seq
    refine ⟨more,(extended more).1,?_⟩
    have balance := (extended more).2.2 seq
    rwa [drained,List.append_nil] at balance

-- Two responses to request 1 come while an event is waited for: the second takes
-- the place of the first, which no wait returns.
def doubleResponse (mark : Int) : Json := .obj [("type".toList,.str "response".toList),("request_seq".toList,.int 1),("mark".toList,.int mark)]

theorem stash_overwrites :
    let run := performAll ⟨spawned [],[⟨[.message (doubleResponse 1),.message (doubleResponse 2)],false,none⟩],[]⟩
      [.waitEvent "stopped".toList,.waitResponse 1 0,.waitResponse 1 0]
    (responsesTo 1 run.2.transport.delivered) = [⟨0,doubleResponse 1⟩,⟨1,doubleResponse 2⟩] ∧
    run.1.to 1 = [⟨1,doubleResponse 2⟩] ∧ run.2.transport.pendingResponses 1 = [] := by
  refine ⟨?_,?_,?_⟩ <;> rfl

end PrincessIDE.Dap
