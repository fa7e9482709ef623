import PrincessIDE.Debug.Upkeep

namespace PrincessIDE.Dap
open Utf8 Str Error Effect Loop Event

-- Where a transport stands for its messages does not depend on these two fields.
theorem reach_tuned (tick : Tick) (t : Transport) (seq : Int) (timeout : Nat) :
    {t with nextSeq:=seq, defaultTimeout:=timeout}.reach tick = {t.reach tick with nextSeq:=seq, defaultTimeout:=timeout} := by
  unfold Transport.reach
  generalize tick.frames = frames
  induction frames generalizing t with
  | nil => rfl
  | cons frame frames ih =>
    have heard : {t with nextSeq:=seq, defaultTimeout:=timeout}.hear frame =
        {t.hear frame with nextSeq:=seq, defaultTimeout:=timeout} := by
      unfold Transport.hear Transport.push
      dsimp only
      repeat (first | rfl | split)
    rw [List.foldl_cons,List.foldl_cons,heard]
    exact ih (t.hear frame)

-- The transport a request of the session finds when it is written.
def World.sending (w : World) (t : Transport) : Transport := t.reach (w.ticks.headD .last)

def stopped : Text := "stopped".toList

-- An event is waited for that has the name.
theorem waitEvent_named (name : Text) (s : Session) (event : Message) (found : answer (waitEvent name) s = .ok (some event)) :
    named name event = true := by
  revert found
  unfold answer waitEvent
  simp only [EStateM.run]
  cases here : s.transport.events.find? (named name) with
  | some first =>
    rintro ⟨⟩
    exact List.find?_some here
  | none =>
    have waited := wait_yields (eventTurn name) (fun _ r _ => ∀ event, r = some (.ok (some event)) → named name event = true)
      (fun t event no => by cases no)
      (fun t tick u r v _ later => later)
      (fun t tick r u left event yes => by
        cases yes
        unfold eventTurn at left
        dsimp only at left
        split at left
        · split at left <;> simp at left
        · split at left
          · rename_i match'
            simp only [Turn.leave.injEq,Except.ok.injEq,Option.some.injEq] at left
            exact left.1 ▸ match'
          · cases left
        · cases left
        · split at left <;> simp at left)
      (fun t u r v _ later => later) (.ok none) (fun t u _ event no => by cases no) s
    dsimp only
    generalize wait (eventTurn name) (.ok none) s = result at waited
    obtain ⟨e | message,u⟩ := result
    · rintro ⟨⟩
    · rintro ⟨⟩
      exact waited event rfl

theorem watched_ensures {P : Session → Prop} {Q : α → Session → Prop} (inner : Ensures P x Q fun _ => True) :
    Ensures P (watched command x) Q fun _ => True := by
  intro s start
  have here := inner s start
  simp only [EStateM.run,watched] at here ⊢
  cases done : x s with
  | ok a t => rw [done] at here; exact here
  | error e t => trivial

-- A request that is answered was written once, with what had arrived by then,
-- and gives no event away.
def Asked (command : Text) (s s' : Session) : Prop :=
  (∃ request, s'.transport.written = s.transport.written ++ [request] ∧ request.command = command ∧
    request.arrived = s.numbered.delivered.length) ∧
  ∃ given, given.events = [] ∧ Accounts s.numbered given s'.transport

theorem requestWithin_asked (command : Text) (arguments : Option Json) (timeout : Nat) (s : Session) :
    Ensures (· = s) (requestWithin command arguments timeout) (fun _ => Asked command s) (fun _ => True) := by
  refine watched_ensures (.bind (Q:=fun _ sent => sent.transport = {s.numbered with
    written:=s.numbered.written ++ [⟨s.transport.nextSeq,command,arguments,s.numbered.delivered.length⟩]}) ?_ fun seq => ?_)
  · rintro t rfl
    rw [send_run]
    cases t.transport.closed with
    | some reason => trivial
    | none => cases t.tick.failure <;> trivial
  · refine .bind (Q:=fun _ => Asked command s) ?_ fun _ => .pure fun _ => id
    intro sent here
    have ended := (waitResponse_end seq timeout sent).1.1
    have flow := waitResponse_accounts seq timeout sent
    have quiet : Accounts s.numbered .none sent.transport := by rw [here]; exact .silent rfl rfl rfl rfl
    have all := quiet.quiet_trans flow
    unfold after answer at *
    cases done : (waitResponse seq timeout).run sent with
    | error e t => trivial
    | ok response t =>
      rw [done] at ended all
      refine ⟨⟨⟨s.transport.nextSeq,command,arguments,s.numbered.delivered.length⟩,?_,rfl,rfl⟩,_,?_,all⟩
      · rw [ended.written,here,(numbered_idle s).1.written]
      · rfl

-- The resume has the transport its request went to, and the stop, if there is
-- one, is the first of what waited there and what came since.
def Sent (command : Text) (w w' : World) : Prop :=
  ∃ t t' request, w.backend.transport = some t ∧ w'.backend.transport = some t' ∧ t'.written = t.written ++ [request] ∧
    request.command = command ∧ request.arrived = (w.sending t).delivered.length ∧
    ∃ given, given.events = [] ∧ Accounts (w.sending t) given t'

theorem ask_sent (kit : Kit) (what command : String) (arguments : Json) (w : World) :
    Ensures (· = w) (ask kit what command arguments) (fun _ => Sent command.toList w) (fun _ => True) := by
  refine .bind (Q:=fun _ => (· = w)) (.get fun _ => id) fun before => .bind (Q:=fun _ => Sent command.toList w) ?_ fun response => ?_
  · refine .bind ((requireReady_ensures w).weaken (fun _ => id) (fun _ _ => id) fun _ _ => trivial) fun t => ?_
    rintro w' ⟨rfl,-,held,holds,-,rfl⟩
    have asked := requestWithin_asked command.toList (some arguments) before.backend.config.requestTimeout
      ⟨w'.asked held,w'.ticks,w'.lost⟩ _ rfl
    simp only [talk,EStateM.run] at asked ⊢
    cases done : requestWithin command.toList (some arguments) before.backend.config.requestTimeout ⟨w'.asked held,w'.ticks,w'.lost⟩ with
    | error e s => trivial
    | ok a s =>
      rw [done] at asked
      obtain ⟨⟨request,written,own,arrived⟩,given,none',flow⟩ := asked
      have tuned : Session.numbered ⟨w'.asked held,w'.ticks,w'.lost⟩ = {w'.sending held with
        nextSeq:=held.nextSeq+1, defaultTimeout:=w'.backend.config.requestTimeout} := reach_tuned _ held _ _
      rw [tuned] at arrived flow
      have same : Accounts (w'.sending held) .none {w'.sending held with
        nextSeq:=held.nextSeq+1, defaultTimeout:=w'.backend.config.requestTimeout} := .silent rfl rfl rfl rfl
      exact ⟨held,s.transport,request,holds,rfl,written,own,arrived,given,none',same.quiet_trans flow⟩
  · cases ensureSuccess kit command.toList response with
    | ok body => exact .pure fun _ => id
    | error e => exact .throw fun _ _ => trivial

def Reported (event : Message) (command : Text) (w w' : World) : Prop :=
  ∃ t t' request later, w.backend.transport = some t ∧ w'.backend.transport = some t' ∧
    t'.written = t.written ++ request :: later ∧ request.command = command ∧
    request.arrived = (w.sending t).delivered.length ∧
    ∃ new : List Parcel, new.map (·.arrival) = List.range' (w.sending t).delivered.length new.length ∧
      ((w.sending t).pendingEvents (some stopped) ++ (eventsOf new).filter (has (some stopped))).head? = some event

theorem reported_stable (event : Message) (command : Text) (w : World) : Stable True (Reported event command w) where
  neutral same _ _ := by
    rintro ⟨t,t',request,later,holds,held,rest⟩
    exact ⟨t,t',request,later,holds,same.trans held,rest⟩
  talked now _ grown := by
    rintro ⟨t,t',request,later,holds,held,written,rest⟩
    cases now.symm.trans held
    obtain ⟨more,longer⟩ := grown.written
    exact ⟨t,_,request,later ++ more,holds,rfl,by rw [← longer]; simp [written],rest⟩
  poisoned := by
    rintro w' ⟨t,t',request,later,holds,held,written,rest⟩
    refine ⟨t,t'.poison,request,later,holds,?_,?_,rest⟩
    · simp [poison,change,held]
    · rw [← written]
      unfold Transport.poison
      split <;> rfl

theorem wait_reported (command : Text) (w : World) : Ensures (Sent command w) (whenLive (waitEvent stopped))
    (fun event w' => ∀ stop, event = some stop → Reported stop command w w') (fun _ => True) := by
  rintro w₁ ⟨t,held,request,holds,now,written,own,arrived,given,none',flow⟩
  refine Ensures.bind ((transportMut_ensures w₁).weaken (fun _ => id) (fun _ _ => id) fun _ _ => trivial) (fun u => ?_) w₁ rfl
  rintro w₂ ⟨rfl,same,-⟩
  cases same.symm.trans now
  have waited := waitEvent_accounts stopped ⟨held,w₂.ticks,w₂.lost⟩
  have idle := (waitEvent_idle stopped ⟨held,w₂.ticks,w₂.lost⟩).1
  have called := waitEvent_named stopped ⟨held,w₂.ticks,w₂.lost⟩
  simp only [talk,EStateM.run,after,answer] at waited idle called ⊢
  cases done : waitEvent stopped ⟨held,w₂.ticks,w₂.lost⟩ with
  | error e s => trivial
  | ok event s =>
    rw [done] at waited idle called
    rintro stop rfl
    have name : has (some stopped) stop = true := by simpa [named,has] using called stop rfl
    obtain ⟨new,-,numbered,events,-⟩ := flow.trans waited
    refine ⟨t,s.transport,request,[],holds,rfl,idle.written.trans written,own,arrived,new,numbered,?_⟩
    rw [events (some stopped)]
    simp [Given.append,none',givenEvent,name]

theorem resume_reported (kit : Kit) (sink : Sink) (what command : String) (extra : List (String × Json)) (threadId : Option Int)
    (w : World) : Ensures (· = w) (resume kit sink what command extra threadId)
      (fun stop w' => Reported stop.event command.toList w w') (fun _ => True) := by
  refine .bind (Q:=fun _ => (· = w)) (.get fun _ => id) fun _ => .bind (ask_sent kit what command _ w) fun _ =>
    .bind (wait_reported command.toList w) fun event => ?_
  cases event with
  | none => exact .throw fun _ _ => trivial
  | some event =>
    have stable := reported_stable event command.toList w
    have kept : ∀ {α} {x : Act α}, Moves (Carries (Reported event command.toList w)) x →
        Ensures (Reported event command.toList w) x (fun _ => Reported event command.toList w) (fun _ => True) := by
      intro α x moves s start
      have here := (moves s).2 start
      cases done : x.run s with
      | ok a t => rwa [after_ok done] at here
      | error e t => trivial
    refine .bind (Q:=fun _ => Reported event command.toList w) ((kept (emitted_carries stable _)).weaken
      (fun s here => here event rfl) (fun _ _ => id) fun _ => id) fun _ => ?_
    refine .bind (kept .get) fun _ => .bind (kept (change_carries stable ?_ ?_)) fun _ =>
      .bind (kept (.attempt (requestStackTrace_carries stable _ _ _))) fun _ =>
      .bind (kept (Ensures.moves fun w => tryReadRegisters_carries stable fun _ _ => .inl trivial)) fun _ => .pure fun _ => id
      <;> exact fun _ => rfl

def HeldLived (w : World) : Prop := ∀ t, w.backend.transport = some t → Lived t

theorem heldLived_lasting : Lasting True HeldLived where
  neutral same _ _ lived t holds := lived t (same ▸ holds)
  talked holds _ grown lived t now := by
    cases now
    obtain ⟨given,flow⟩ := grown.flow
    exact (lived _ holds).flows flow
  poisoned := by
    intro w lived t holds
    obtain ⟨before,held,rfl⟩ := Option.map_eq_some_iff.mp holds
    have same : Accounts before .none before.poison := by
      unfold Transport.poison
      split
      · exact .silent rfl rfl rfl rfl
      · exact .refl before
    exact (lived before held).flows same
  attaching _ lived := lived
  reached := by
    intro w tick lived t holds
    obtain ⟨before,held,rfl⟩ := Option.map_eq_some_iff.mp holds
    exact (lived before held).flows (.reach tick before)
  discarded _ lived := lived
  adopted fresh _ t holds := by
    cases holds
    exact fresh.1
  parted _ _ _ _ t holds := by cases holds
  detached _ lived := lived

theorem eventsOf_arrival {parcels : List Parcel} (member : event ∈ eventsOf parcels) :
    event.arrival ∈ parcels.map (·.arrival) := by
  obtain ⟨parcel,inside,same⟩ := List.mem_filterMap.mp member
  refine List.mem_map.mpr ⟨parcel,inside,?_⟩
  split at same
  · cases same; rfl
  · cases same

-- What waits in a transport has a number below what comes next.
theorem lived_pending (lived : Lived t) (waits : event ∈ t.pendingEvents name) : event.arrival < t.delivered.length := by
  obtain ⟨command,given,new,delivered,numbered,events,-⟩ := lived
  obtain rfl : t.delivered = new := delivered
  have all := events name
  simp only [Transport.pendingEvents,spawned,eventsOf_nil,List.filter_nil,List.nil_append] at all
  have member : event ∈ (eventsOf t.delivered).filter (has name) := all ▸ List.mem_append_right _ waits
  have arrival := eventsOf_arrival (List.mem_of_mem_filter member)
  rw [numbered] at arrival
  simpa [spawned] using (List.mem_range'_1.mp arrival).2

-- The event a stop was built from came when the request was written.
def Prompt (command : Text) (stop : DebugStoppedPayload) (w w' : World) : Prop :=
  stop.event.name = some stopped ∧ ∃ t t' request later, w.backend.transport = some t ∧ w'.backend.transport = some t' ∧
    t'.written = t.written ++ request :: later ∧ request.command = command ∧ request.arrived ≤ stop.event.arrival

-- No `stopped` event waits, in the buffer or in the channel, when the request is
-- about to be written.
def Unannounced (w : World) : Prop := ∀ t, w.backend.transport = some t → (w.sending t).pendingEvents (some stopped) = []

theorem reported_prompt (lived : HeldLived w) (reported : Reported stop.event command w w') :
    Prompt command stop w w' ↔ Unannounced w := by
  obtain ⟨t,t',request,later,holds,held,written,own,arrived,new,numbered,first⟩ := reported
  have known : Lived (w.sending t) := (lived t holds).flows (.reach _ t)
  constructor
  · rintro ⟨-,u,u',other,rest,holds',held',written',-,late⟩ v now
    cases holds.symm.trans holds'
    cases holds.symm.trans now
    cases held.symm.trans held'
    obtain ⟨rfl,-⟩ := List.cons.inj (List.append_cancel_left (written.symm.trans written'))
    cases waits : (w.sending t).pendingEvents (some stopped) with
    | nil => rfl
    | cons event events =>
      have same : event = stop.event := by simpa [waits] using first
      have early := lived_pending known (show event ∈ (w.sending t).pendingEvents (some stopped) by simp [waits])
      rw [same] at early
      omega
  · intro clear
    rw [clear t holds,List.nil_append] at first
    obtain ⟨member,name⟩ := List.mem_filter.mp (List.mem_of_mem_head? (Option.mem_def.mpr first))
    have arrival := eventsOf_arrival member
    rw [numbered] at arrival
    exact ⟨by simpa [has] using name,t,t',request,later,holds,held,written,own,arrived ▸ (List.mem_range'_1.mp arrival).1⟩

-- In every session, whatever the surroundings do: a resume that answers with a
-- stop was told of it after its own request went out, exactly if no `stopped`
-- event was waiting by then.
theorem stop_prompt (kit : Kit) (sink : Sink) (config : DebugSessionConfig) (ticks : List Tick) (ops : List Op) (how : Resume)
    (threadId : Option Int) (stop : DebugStoppedPayload)
    (stops : answer (how.perform kit sink threadId) (session kit sink (.start config ticks) ops) = .ok stop) :
    let w := session kit sink (.start config ticks) ops
    Prompt how.command.toList stop w (after (how.perform kit sink threadId) w) ↔ Unannounced w := by
  intro w
  have lived : HeldLived w := (session_carries heldLived_lasting (.start config ticks) ops).2 fun t no => by cases no
  have reported : Ensures (· = w) (how.perform kit sink threadId)
      (fun stop w' => Reported stop.event how.command.toList w w') (fun _ => True) := by
    cases how <;> exact resume_reported kit sink _ _ _ threadId w
  have here := reported w rfl
  have same : answer (how.perform kit sink threadId) w = .ok stop := stops
  unfold after answer at *
  cases done : (how.perform kit sink threadId).run w with
  | ok a t =>
    rw [done] at here same
    cases same
    exact reported_prompt lived here
  | error e t =>
    rw [done] at same
    cases same

-- A stop that comes while `continue` waits.
def nextStop : List Tick := [hears [],hears [reply 4],hears [.message stopEvent],hears [],hears [reply 5],hears [],hears [reply 6]]

theorem stop_prompt_next : Prompt "continue".toList ⟨.signal,1,⟨0,[],none,[]⟩,[],⟨5,stopEvent⟩⟩
    (session plainKit openSink (attached nextStop) [.attach localStub])
    (after (Resume.continue_.perform plainKit openSink none) (session plainKit openSink (attached nextStop) [.attach localStub])) := by
  refine (stop_prompt plainKit openSink debugConfig (attached nextStop).ticks [.attach localStub] .continue_ none _ rfl).mpr ?_
  intro t holds
  have clear : (session plainKit openSink (attached nextStop) [.attach localStub]).backend.transport.map
      (fun t => ((World.sending (session plainKit openSink (attached nextStop) [.attach localStub]) t).pendingEvents
        (some stopped)).length) = some 0 := by decide +kernel
  have here := holds ▸ clear
  exact List.length_eq_zero_iff.mp (Option.some.inj here)

-- The first `continue` waits in vain; its stop arrives while a stack trace is
-- asked for, and the second `continue` answers with it.
def lateStop : List Tick := [hears [],hears [reply 4],overdue,hears [],hears [.message stopEvent,reply 5],hears [],
  hears [],hears [reply 6],hears [],hears [reply 7],hears [],hears [reply 8]]

def lateSession : World := session plainKit openSink (attached lateStop)
  [.attach localStub,.resume .continue_ none,.stackTrace 1 0 0]

theorem stale_stop : ∃ stop, answer (Resume.continue_.perform plainKit openSink none) lateSession = .ok stop ∧
    (∃ t, lateSession.backend.transport = some t ∧ stop.event ∈ t.events) ∧
    ¬ Prompt Resume.continue_.command.toList stop lateSession
      (after (Resume.continue_.perform plainKit openSink none) lateSession) := by
  refine ⟨⟨.signal,1,⟨0,[],none,[]⟩,[],⟨5,stopEvent⟩⟩,rfl,⟨_,rfl,.head _⟩,?_⟩
  rintro ⟨-,t,t',request,later,holds,held,written,-,late⟩
  have before : lateSession.backend.transport.map (·.written.length) = some 5 := by decide +kernel
  have now : (after (Resume.continue_.perform plainKit openSink none) lateSession).backend.transport.map
      (fun t => (t.written.map (·.arrived))[5]?) = some (some 7) := by decide +kernel
  rw [holds] at before
  rw [held] at now
  simp only [Option.map_some,Option.some.injEq] at before now
  rw [written,List.map_append,List.getElem?_append_right (by simp [before])] at now
  simp only [List.length_map,before,Nat.sub_self,List.map_cons,List.getElem?_cons_zero,Option.some.injEq] at now
  rw [now] at late
  exact absurd late (by decide)

end PrincessIDE.Dap
