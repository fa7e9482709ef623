import PrincessIDE.Debug.Backend
import PrincessIDE.Debug.Delivery

namespace PrincessIDE.Dap
open Utf8 Str Error Effect Loop Event

-- What use of a transport leaves alone while it waits.
structure Idle (t u : Transport) : Prop where
  mark : u.poisonedAt = t.poisonedAt
  written : u.written = t.written
  closed : t.isClosed = true → u.isClosed = true

namespace Idle

theorem refl (t : Transport) : Idle t t := ⟨rfl,rfl,id⟩

theorem trans {a b c : Transport} (first : Idle a b) (second : Idle b c) : Idle a c :=
  ⟨second.mark.trans first.mark,second.written.trans first.written,second.closed ∘ first.closed⟩

end Idle

theorem reach_idle (tick : Tick) (t : Transport) : Idle t (t.reach tick) ∧ (t.reach tick).closed = t.closed := by
  unfold Transport.reach
  generalize tick.frames = frames
  induction frames generalizing t with
  | nil => exact ⟨.refl t,rfl⟩
  | cons frame frames ih =>
    have heard : Idle t (t.hear frame) ∧ (t.hear frame).closed = t.closed := by
      unfold Transport.hear Transport.push
      repeat (first | exact ⟨⟨rfl,rfl,id⟩,rfl⟩ | split)
    exact ⟨heard.1.trans (ih _).1,(ih _).2.trans heard.2⟩

-- A wait for a response that fails is past its deadline, or the adapter is gone.
def ResponseEnd (t : Transport) (r : Option (Except PrincessError Message)) (u : Transport) : Prop :=
  Idle t u ∧ match r with
    | some (.error e) => e.code = .timeout ∨ e.code = .qemuFailed ∧ u.isClosed = true
    | _ => u.closed = t.closed

theorem ResponseEnd.after (first : Idle t u ∧ u.closed = t.closed) (rest : ResponseEnd u r v) : ResponseEnd t r v := by
  refine ⟨first.1.trans rest.1,?_⟩
  have ended := rest.2
  split at ended
  · exact ended
  · simpa [first.2] using ended

@[simp] theorem timedOut_code : (timedOut t seq timeout).code = .timeout := by simp [timedOut,PrincessError.new]
@[simp] theorem closedError_code (t : Transport) (reason : Text) : (t.closedError reason).code = .qemuFailed := by
  simp [Transport.closedError,PrincessError.new]

theorem responseTurn_end (seq : Int) (timeout : Nat) (t : Transport) (tick : Tick) :
    match responseTurn seq timeout t tick with
    | .next u => Idle t u ∧ u.closed = t.closed
    | .leave r u => ResponseEnd t (some r) u := by
  have reached := reach_idle tick t
  unfold responseTurn
  generalize t.reach tick = u at reached ⊢
  dsimp only
  cases u.early seq with
  | some response => exact .after reached ⟨⟨rfl,rfl,id⟩,rfl⟩
  | none =>
    cases tick.expired with
    | true => exact .after reached ⟨.refl u,.inl (by simp)⟩
    | false =>
      cases u.queue with
      | nil =>
        cases u.readerGone with
        | true => exact .after reached ⟨⟨rfl,rfl,fun _ => rfl⟩,.inr ⟨by simp,rfl⟩⟩
        | false => exact reached
      | cons parcel rest =>
        obtain ⟨arrival,incoming⟩ := parcel
        cases incoming with
        | response requestSeq message =>
          by_cases own : requestSeq = seq
          · simp only [own,if_true]
            exact .after reached ⟨⟨rfl,rfl,id⟩,rfl⟩
          · simpa [own] using ⟨reached.1.trans ⟨rfl,rfl,id⟩,reached.2⟩
        | event event => exact ⟨reached.1.trans ⟨rfl,rfl,id⟩,reached.2⟩
        | closed reason => exact .after reached ⟨⟨rfl,rfl,fun _ => rfl⟩,.inr ⟨by simp,rfl⟩⟩

theorem wait_lost (turn : Transport → Tick → Turn Transport ρ) (idle : ρ) (s : Session) : (wait turn idle s).2.lost = s.lost := by
  unfold wait
  split <;> rfl

theorem waitResponse_end (seq : Int) (timeout : Nat) (s : Session) :
    ResponseEnd s.transport (some (answer (waitResponse seq timeout) s)) (after (waitResponse seq timeout) s).transport ∧
      (after (waitResponse seq timeout) s).lost = s.lost := by
  unfold after answer waitResponse
  simp only [EStateM.run]
  cases s.transport.early seq with
  | some response => exact ⟨⟨⟨rfl,rfl,id⟩,rfl⟩,rfl⟩
  | none =>
    have waited := wait_yields (responseTurn seq timeout) ResponseEnd
      (fun t => ⟨.refl t,rfl⟩)
      (fun t tick u r v here later => by
        have turn := responseTurn_end seq timeout t tick
        rw [here] at turn
        exact .after turn later)
      (fun t tick r u here => by
        have turn := responseTurn_end seq timeout t tick
        rwa [here] at turn)
      (fun t u r v first later => .after first later) (.error (timedOut s.transport seq timeout))
      (fun t u quiet => ⟨quiet.1,.inl (by simp)⟩) s
    have lost := wait_lost (responseTurn seq timeout) (.error (timedOut s.transport seq timeout)) s
    dsimp only
    generalize wait (responseTurn seq timeout) (.error (timedOut s.transport seq timeout)) s = result at waited lost
    obtain ⟨e | response,u⟩ := result <;> exact ⟨waited,lost⟩

theorem eventTurn_idle (name : Text) (t : Transport) (tick : Tick) : Idle t (eventTurn name t tick).state := by
  have reached := (reach_idle tick t).1
  unfold eventTurn
  generalize t.reach tick = u at reached ⊢
  dsimp only
  cases u.queue with
  | nil => dsimp only; split <;> exact reached
  | cons parcel rest =>
    obtain ⟨arrival,incoming⟩ := parcel
    cases incoming with
    | event event => dsimp only; split <;> exact reached.trans ⟨rfl,rfl,id⟩
    | response requestSeq message => exact reached.trans ⟨rfl,rfl,id⟩
    | closed reason => dsimp only; split <;> exact reached.trans ⟨rfl,rfl,fun old => by first | exact old | rfl⟩

theorem waitEvent_idle (name : Text) (s : Session) :
    Idle s.transport (after (waitEvent name) s).transport ∧ (after (waitEvent name) s).lost = s.lost := by
  unfold after waitEvent
  simp only [EStateM.run]
  cases s.transport.events.find? (named name) with
  | some event => exact ⟨⟨rfl,rfl,id⟩,rfl⟩
  | none =>
    have turn := eventTurn_idle name
    have waited := wait_yields (eventTurn name) (fun t _ u => Idle t u) .refl
      (fun t tick u r v here later => by
        have first := turn t tick
        rw [here] at first
        exact first.trans later)
      (fun t tick r u here => by
        have first := turn t tick
        rwa [here] at first)
      (fun t u r v first later => first.trans later) (.ok none) (fun t u quiet => quiet) s
    have lost := wait_lost (eventTurn name) (.ok none) s
    dsimp only
    generalize wait (eventTurn name) (.ok none) s = result at waited lost
    obtain ⟨e | event,u⟩ := result <;> exact ⟨waited,lost⟩

-- What any use of a transport does to it: messages are accounted for, the record
-- of what was written and lost only grows, and a transport known to be closed
-- is written to no more.
structure Grows (s s' : Session) : Prop where
  flow : ∃ given, Accounts s.transport given s'.transport
  mark : s'.transport.poisonedAt = s.transport.poisonedAt
  written : s.transport.written <+: s'.transport.written
  closed : s.transport.isClosed = true → s'.transport.isClosed = true ∧ s'.transport.written = s.transport.written
  lost : s.lost <+: s'.lost

namespace Grows

theorem refl (s : Session) : Grows s s := ⟨⟨_,.refl _⟩,rfl,List.prefix_refl _,fun old => ⟨old,rfl⟩,List.prefix_refl _⟩

theorem trans {a b c : Session} (first : Grows a b) (second : Grows b c) : Grows a c := by
  obtain ⟨g,early⟩ := first.flow
  obtain ⟨h,late⟩ := second.flow
  refine ⟨⟨g.append h,early.trans late⟩,second.mark.trans first.mark,first.written.trans second.written,fun old => ?_,
    first.lost.trans second.lost⟩
  have still := first.closed old
  have later := second.closed still.1
  exact ⟨later.1,later.2.trans still.2⟩

instance : IsPreorder Session Grows where
  refl := refl
  trans _ _ _ := trans

theorem of_idle (flow : Accounts s.transport given s'.transport) (idle : Idle s.transport s'.transport) (lost : s'.lost = s.lost) :
    Grows s s' :=
  ⟨⟨given,flow⟩,idle.mark,idle.written ▸ List.prefix_refl _,fun old => ⟨idle.closed old,idle.written⟩,lost ▸ List.prefix_refl _⟩

end Grows

def Session.tick (s : Session) : Tick := s.ticks.headD .last

-- The transport once its next request has a number and the tick has reached it.
def Session.numbered (s : Session) : Transport := {s.transport with nextSeq:=s.transport.nextSeq+1}.reach s.tick

theorem send_run (command : Text) (arguments : Option Json) (s : Session) :
    (send command arguments).run s = match s.transport.closed with
      | some reason => .error (s.transport.closedError reason) s
      | none => match s.tick.failure with
        | some failure => .error (s.transport.writeError command failure) {s with transport:=s.numbered, ticks:=s.ticks.tail}
        | none => .ok s.transport.nextSeq {s with
            transport:={s.numbered with
              written:=s.numbered.written ++ [⟨s.transport.nextSeq,command,arguments,s.numbered.delivered.length⟩]}
            ticks:=s.ticks.tail} := by
  obtain ⟨t,ticks,lost⟩ := s
  simp only [send,run_get]
  cases opened : t.closed with
  | some reason => rfl
  | none =>
    cases ticks with
    | nil => rfl
    | cons tick rest =>
      obtain ⟨frames,expired,failure⟩ := tick
      cases failure <;> rfl

theorem numbered_idle (s : Session) : Idle s.transport s.numbered ∧ s.numbered.closed = s.transport.closed := by
  have reached := reach_idle s.tick {s.transport with nextSeq:=s.transport.nextSeq+1}
  exact ⟨⟨reached.1.mark,reached.1.written,reached.1.closed⟩,reached.2⟩

theorem numbered_flow (s : Session) : Accounts s.transport .none s.numbered :=
  .quiet_trans (.silent rfl rfl rfl rfl) (.reach s.tick _)

-- The one way in which a request grows the record of what was written.
theorem send_grows (command : Text) (arguments : Option Json) : Moves Grows (send command arguments) := by
  intro s
  have flow := numbered_flow s
  obtain ⟨idle,still⟩ := numbered_idle s
  unfold after
  rw [send_run]
  cases opened : s.transport.closed with
  | some reason => exact .refl s
  | none =>
    have unclosed : s.transport.isClosed = true → False := by simp [Transport.isClosed,opened]
    cases s.tick.failure with
    | some failure => exact .of_idle flow idle rfl
    | none =>
      exact ⟨⟨_,flow.quiet_trans (.silent rfl rfl rfl rfl)⟩,idle.mark,⟨_,by rw [idle.written]⟩,fun old => (unclosed old).elim,
        List.prefix_refl _⟩

theorem waitResponse_grows (seq : Int) (timeout : Nat) : Moves Grows (waitResponse seq timeout) := by
  intro s
  have ended := waitResponse_end seq timeout s
  exact .of_idle (waitResponse_accounts seq timeout s) ended.1.1 ended.2

theorem waitEvent_grows (name : Text) : Moves Grows (waitEvent name) := by
  intro s
  have ended := waitEvent_idle name s
  exact .of_idle (waitEvent_accounts name s) ended.1 ended.2

theorem takeEvents_grows : Moves Grows takeEvents := fun s =>
  .of_idle (takeEvents_accounts s) ⟨rfl,rfl,id⟩ rfl

theorem watched_grows (inner : Moves Grows x) : Moves Grows (watched command x) := by
  intro s
  have grown := inner s
  unfold after watched at *
  simp only [EStateM.run] at *
  cases here : x s with
  | ok a t => simpa [here] using grown
  | error e t =>
    rw [here] at grown
    exact {grown with lost := grown.lost.trans (List.prefix_append _ _)}

theorem requestWithin_grows (command : Text) (arguments : Option Json) (timeout : Nat) :
    Moves Grows (requestWithin command arguments timeout) :=
  watched_grows (.bind (send_grows _ _) fun _ => .bind (waitResponse_grows _ _) fun _ => .pure _)

theorem request_grows (command : Text) (arguments : Option Json) : Moves Grows (request command arguments) :=
  .bind .get fun _ => requestWithin_grows _ _ _

-- What was written since then is requests of one command.
def Writes (command : Text) (s s' : Session) : Prop :=
  ∃ more, s'.transport.written = s.transport.written ++ more ∧ ∀ request ∈ more, request.command = command

instance : IsPreorder Session (Writes command) where
  refl s := ⟨[],by simp,by simp⟩
  trans a b c first second := by
    obtain ⟨m,early,one⟩ := first
    obtain ⟨n,late,two⟩ := second
    refine ⟨m++n,by rw [late,early,List.append_assoc],fun request member => ?_⟩
    rcases List.mem_append.mp member with old | new
    · exact one request old
    · exact two request new

theorem requestWithin_writes (command : Text) (arguments : Option Json) (timeout : Nat) :
    Moves (Writes command) (requestWithin command arguments timeout) := by
  have sent : Moves (Writes command) (send command arguments) := by
    intro s
    unfold after
    rw [send_run]
    have same := (numbered_idle s).1.written
    cases s.transport.closed with
    | some reason => exact refl_of (Writes command) s
    | none =>
      cases s.tick.failure with
      | some failure => exact ⟨[],by simp [same],by simp⟩
      | none => exact ⟨[_],by rw [same],fun request only => by rw [List.mem_singleton.mp only]⟩
  have waited : ∀ seq, Moves (Writes command) (waitResponse seq timeout) := fun seq s =>
    ⟨[],by simp [(waitResponse_end seq timeout s).1.1.written],by simp⟩
  have both : Moves (Writes command) (do
      let seq ← send command arguments
      let response ← waitResponse seq timeout
      return response.value : Wire Json) := .bind sent fun seq => .bind (waited seq) fun _ => .pure _
  intro s
  have here := both s
  unfold requestWithin after watched at *
  simp only [EStateM.run] at *
  split at here <;> rename_i done <;> rw [done] <;> exact here

theorem talk_ensures {R : Session → Session → Prop} {P E : World → Prop} (use : Moves R x)
    (back : ∀ w s, P w → R ⟨t,w.ticks,w.lost⟩ s → E (w.back s)) : Ensures P (talk t x) (fun _ => E) E := by
  intro w start
  have grown := back w _ start (use ⟨t,w.ticks,w.lost⟩)
  simp only [talk,EStateM.run]
  cases here : x ⟨t,w.ticks,w.lost⟩ with
  | ok a s => rwa [after_ok here] at grown
  | error e s => rwa [after_error here] at grown

def World.asked (w : World) (t : Transport) : Transport := {t with defaultTimeout:=w.backend.config.requestTimeout}

-- What `requireReady` hands out.
def Lent (w : World) (t : Transport) (w' : World) : Prop :=
  w' = w ∧ w.backend.state = .ready ∧ ∃ held, w.backend.transport = some held ∧ held.isClosed = false ∧ t = w.asked held

theorem requireReady_ensures (w : World) : Ensures (· = w) (requireReady what) (Lent w)
    (fun w' => w' = w ∨ w' = after poison w ∧ ∃ held, w.backend.transport = some held ∧ held.isClosed = true) := by
  rintro s rfl
  simp only [requireReady,run_get]
  cases ready : s.backend.state with
  | ready =>
    cases holds : s.backend.transport with
    | none => exact .inl rfl
    | some held =>
      dsimp only
      cases closed : held.isClosed with
      | true => exact .inr ⟨rfl,held,rfl,closed⟩
      | false => exact ⟨rfl,ready,held,holds,closed,rfl⟩
  | poisoned | idle | attaching | detached => exact .inl rfl

theorem transportMut_ensures (w : World) : Ensures (· = w) transportMut
    (fun t w' => w' = w ∧ w.backend.transport = some t ∧ t.isClosed = false) (· = w) := by
  rintro s rfl
  simp only [transportMut,run_get]
  cases holds : s.backend.transport with
  | none => exact rfl
  | some held =>
    dsimp only
    cases closed : held.isClosed with
    | true => exact rfl
    | false => exact ⟨rfl,rfl,closed⟩

-- A transport that came into being by being spawned, and one no session was
-- poisoned on.
def Lived (t : Transport) : Prop := ∃ command given, Accounts (spawned command) given t

def Fresh (t : Transport) : Prop := Lived t ∧ t.poisonedAt = none

theorem Lived.flows (lived : Lived t) (flow : Accounts t given u) : Lived u := by
  obtain ⟨command,before,early⟩ := lived
  exact ⟨command,_,early.trans flow⟩

theorem Fresh.grows (fresh : Fresh t) (grown : Grows ⟨t,ticks,lost⟩ s) : Fresh s.transport := by
  obtain ⟨given,flow⟩ := grown.flow
  exact ⟨fresh.1.flows flow,grown.mark.trans fresh.2⟩

-- While machines and adapters are started the backend only hears more.
def Calm (w w' : World) : Prop := w'.lost = w.lost ∧ w'.backend.state = w.backend.state ∧ w'.dropped = w.dropped ∧
  ∃ ticks : List Tick, w'.backend.transport = w.backend.transport.map (ticks.foldl fun t tick => t.reach tick)

instance : IsPreorder World Calm where
  refl _ := ⟨rfl,rfl,rfl,[],by simp⟩
  trans _ _ _ := by
    rintro ⟨lost,state,dropped,m,early⟩ ⟨lost',state',dropped',n,late⟩
    refine ⟨lost'.trans lost,state'.trans state,dropped'.trans dropped,m++n,?_⟩
    rw [late,early]
    simp [Function.comp_def,List.foldl_append]

theorem Calm.still (lost : w'.lost = w.lost) (state : w'.backend.state = w.backend.state) (dropped : w'.dropped = w.dropped)
    (transport : w'.backend.transport = w.backend.transport) : Calm w w' := ⟨lost,state,dropped,[],by simp [transport]⟩

theorem emitted_calm (sink : Sink) (body : EventBody) : Moves Calm (emitted sink body) := by
  intro w
  unfold emitted
  rw [after_zoom]
  exact .still rfl rfl rfl rfl

theorem hostTick_calm : Moves Calm hostTick := by
  intro w
  obtain ⟨b,ticks,accepted,dropped,reaped,started,lost⟩ := w
  cases ticks with
  | nil => exact refl_of Calm _
  | cons tick rest => exact ⟨rfl,rfl,rfl,[tick],rfl⟩

theorem startQemu_calm (command : QemuCommand) : Moves Calm (startQemu command) := by
  unfold startQemu
  split
  · exact .throw _
  · refine .bind hostTick_calm fun tick => ?_
    split
    · exact .throw _
    · exact .throw _
    · exact .throw _
    · exact .bind .get fun _ => .bind (.modify fun w => .still rfl rfl rfl rfl) fun _ => .pure _

theorem launch_calm (sink : Sink) : Moves Calm (launch sink) := by
  refine .bind .get fun w => ?_
  dsimp only
  split
  · exact .pure _
  · exact .bind (emitted_calm sink _) fun _ => .bind (startQemu_calm _) fun process =>
      .bind (.onError (emitted_calm sink _) (.modify fun w => .still rfl rfl rfl rfl)) fun _ => .modify fun w => .still rfl rfl rfl rfl

-- An adapter that was started has said and heard nothing.
theorem spawnAdapter_calm (argv : List Text) (w : World) : Ensures (Calm w) (spawnAdapter argv)
    (fun t w' => Calm w w' ∧ ∃ command, t = spawned command) (Calm w) := by
  refine .bind (.follows hostTick_calm w) fun tick => ?_
  split
  · exact .throw fun _ => id
  · exact .throw fun _ => id
  · exact .pure fun _ calm => ⟨calm,_,rfl⟩

-- A property of the backend that use of its transport keeps, as long as none is
-- used that still works but whose session is not ready; where the property bears
-- that use too, it is `free`.
structure Stable (free : Prop) (I : World → Prop) : Prop where
  neutral : ∀ {w w'}, w'.backend.transport = w.backend.transport → w'.backend.state = w.backend.state → w'.dropped = w.dropped →
    I w → I w'
  talked : ∀ {w t s}, w.backend.transport = some t → (free ∨ w.backend.state = .ready ∨ t.isClosed = true) →
    Grows ⟨t,w.ticks,w.lost⟩ s → I w → I (w.back s)
  poisoned : ∀ {w}, I w → I (after poison w)

-- One that coming and going transports keep as well.
structure Lasting (free : Prop) (I : World → Prop) : Prop extends Stable free I where
  attaching : ∀ {w}, w.backend.state ≠ .ready → I w → I {w with backend:={w.backend with state:=.attaching}}
  reached : ∀ {w tick}, I w → I (w.reach tick)
  discarded : ∀ {w t}, Fresh t → I w → I {w with dropped:=t :: w.dropped}
  adopted : ∀ {w t}, Fresh t → I w → I (w.adopt t)
  parted : ∀ {w t s}, w.backend.transport = some t → Grows ⟨t,w.ticks,w.lost⟩ s →
    (∀ request ∈ s.transport.written.drop t.written.length, request.command = "disconnect".toList) → I w → I (w.back s).part
  detached : ∀ {w}, w.backend.transport = none → I w → I {w with backend:={w.backend with state:=.detached}}

def Carries (I : World → Prop) (w w' : World) : Prop := w.lost <+: w'.lost ∧ (I w → I w')

instance : IsPreorder World (Carries I) where
  refl _ := ⟨List.prefix_refl _,id⟩
  trans _ _ _ first second := ⟨first.1.trans second.1,second.2 ∘ first.2⟩

theorem Carries.refl (w : World) : Carries I w w := refl_of (Carries I) w

theorem hand_carries (result : Except PrincessError α) : Moves (Carries I) (hand result) := by
  cases result with
  | ok a => exact .pure a
  | error e => exact .throw e

theorem transportMut_carries {f : Transport → Act α} (rest : ∀ t, w.backend.transport = some t →
    Ensures (· = w) (f t) (fun _ => Carries I w) (Carries I w)) :
    Ensures (· = w) (transportMut >>= f) (fun _ => Carries I w) (Carries I w) := by
  refine .bind ((transportMut_ensures w).weaken (fun _ => id) (fun _ _ => id) ?_) fun t => ?_
  · rintro w' rfl
    exact Carries.refl w'
  · rintro w' ⟨rfl,holds,-⟩
    exact rest t holds w' rfl

-- Up to its end a handshake has the transport for itself.
def Shakes (I : World → Prop) (h h' : Handshake) : Prop :=
  Carries I h.world h'.world ∧ (Fresh h.transport → Fresh h'.transport)

instance : IsPreorder Handshake (Shakes I) where
  refl h := ⟨Carries.refl h.world,id⟩
  trans _ _ _ first second := ⟨trans_of (Carries I) first.1 second.1,second.2 ∘ first.2⟩

theorem host_shakes (inner : Moves (Carries I) x) : Moves (Shakes I) (host x) := by
  intro h
  unfold host
  rw [after_zoom]
  exact ⟨inner h.world,id⟩

section operations
variable {kit : Kit} {sink : Sink} {free : Prop} {I : World → Prop} (stable : Stable free I)
include stable

theorem neutral_carries (lost : w'.lost = w.lost) (transport : w'.backend.transport = w.backend.transport)
    (state : w'.backend.state = w.backend.state) (dropped : w'.dropped = w.dropped) : Carries I w w' :=
  ⟨lost ▸ List.prefix_refl _,stable.neutral transport state dropped⟩

theorem emitted_carries (body : EventBody) : Moves (Carries I) (emitted sink body) := by
  intro w
  unfold emitted
  rw [after_zoom]
  exact neutral_carries stable rfl rfl rfl rfl

theorem poison_carries : Moves (Carries I) poison := fun _ => ⟨List.prefix_refl _,stable.poisoned⟩

theorem lent_talk (use : Moves Grows x) : Ensures (Lent w t) (talk t x) (fun _ => Carries I w) (Carries I w) := by
  refine talk_ensures use ?_
  rintro w' s ⟨rfl,ready,held,holds,-,rfl⟩ grown
  have quiet : Grows ⟨held,w'.ticks,w'.lost⟩ ⟨w'.asked held,w'.ticks,w'.lost⟩ :=
    .of_idle (.silent rfl rfl rfl rfl) ⟨rfl,rfl,id⟩ rfl
  have both := quiet.trans grown
  exact ⟨both.lost,stable.talked holds (.inr (.inl ready)) both⟩

theorem requireReady_carries {f : Transport → Act α}
    (rest : ∀ w t, Ensures (Lent w t) (f t) (fun _ => Carries I w) (Carries I w)) : Moves (Carries I) (requireReady what >>= f) := by
  refine Ensures.moves fun w => .bind ((requireReady_ensures w).weaken (fun _ => id) (fun _ _ => id) ?_) (rest w)
  rintro w' (rfl | ⟨rfl,-⟩)
  · exact Carries.refl w'
  · exact poison_carries stable w

theorem whenReady_carries (use : Moves Grows x) : Moves (Carries I) (whenReady what x) :=
  requireReady_carries stable fun _ _ => lent_talk stable use

theorem ask_carries (what command : String) (arguments : Json) : Moves (Carries I) (ask kit what command arguments) :=
  .bind .get fun _ => .bind (whenReady_carries stable (requestWithin_grows _ _ _)) fun _ => hand_carries _

theorem change_carries {f : DapBackend → DapBackend} (transport : ∀ b, (f b).transport = b.transport)
    (state : ∀ b, (f b).state = b.state) : Moves (Carries I) (change f) := fun w =>
  neutral_carries stable rfl (transport w.backend) (state w.backend) rfl

theorem setBreakpoints_carries (file : Text) (breakpoints : List BreakpointSpec) :
    Moves (Carries I) (setBreakpoints kit sink file breakpoints) :=
  .bind (ask_carries stable _ _ _) fun _ => .bind (.each fun _ _ => emitted_carries stable _) fun _ => .pure _

theorem requestStackTrace_carries (threadId : Int) (startFrame levels : Nat) :
    Moves (Carries I) (requestStackTrace kit threadId startFrame levels) := by
  refine .bind .get fun _ => requireReady_carries stable fun w t => ?_
  refine .bind (.onError (lent_talk stable (requestWithin_grows _ _ _)) (.follows (poison_carries stable) w) fun _ => id) fun _ => ?_
  refine .follows (.bind (hand_carries _) fun _ => .bind (change_carries stable ?_ ?_) fun _ => .pure _) w <;> exact fun _ => rfl

theorem scopes_carries (frameId : Nat) : Moves (Carries I) (scopes kit frameId) := by
  refine .bind (ask_carries stable _ _ _) fun body => ?_
  dsimp only
  split <;> exact .pure _

theorem readVariables_carries (reference : Int) : Moves (Carries I) (readVariables kit reference) := by
  unfold readVariables
  split
  · exact .bind (whenReady_carries stable (readRegisters_moves (request_grows _))) fun _ => .pure _
  · exact .bind (ask_carries stable _ _ _) fun _ => .pure _

theorem readMemory_carries (address byteCount : Nat) : Moves (Carries I) (readMemory kit address byteCount) := by
  refine .bind (ask_carries stable _ _ _) fun body => ?_
  split
  · exact .throw _
  · split
    · exact .throw _
    · split
      · exact .pure _
      · exact .throw _

theorem writeMemory_carries (address : Nat) (bytes : List (BitVec 8)) : Moves (Carries I) (writeMemory kit address bytes) :=
  .bind (ask_carries stable _ _ _) fun _ => .pure _

theorem disassemble_carries (address count : Nat) : Moves (Carries I) (disassemble kit address count) :=
  .bind (ask_carries stable _ _ _) fun _ => .pure _

theorem registers_carries : Moves (Carries I) (registers kit) :=
  .bind (whenReady_carries stable (readRegisters_moves (request_grows _))) fun _ => .pure _

theorem readPhysicalMemory_carries (address count : Nat) : Moves (Carries I) (readPhysicalMemory kit address count) :=
  whenReady_carries stable (readPhysical_moves (request_grows _) _ _)

def Usable (free : Prop) (w : World) : Prop :=
  ∀ t, w.backend.transport = some t → free ∨ w.backend.state = .ready ∨ t.isClosed = true

theorem held_talk (use : Moves Grows x) (usable : Usable free w) (holds : w.backend.transport = some t) :
    Ensures (· = w) (talk t x) (fun _ => Carries I w) (Carries I w) := by
  refine talk_ensures use ?_
  rintro w' s rfl grown
  exact ⟨grown.lost,stable.talked holds (usable t holds) grown⟩

theorem whenLive_carries (use : Moves Grows x) (usable : Usable free w) :
    Ensures (· = w) (whenLive x) (fun _ => Carries I w) (Carries I w) :=
  transportMut_carries fun _ holds => held_talk stable use usable holds

theorem capabilitiesLayer_carries (commands : List Text) (usable : Usable free w) :
    Ensures (· = w) (capabilitiesLayer kit commands) (fun _ => Carries I w) (Carries I w) :=
  whenLive_carries stable (.each fun _ _ => .bind (repl_moves (request_grows _) _) fun _ => .pure _) usable

theorem setHardwareBreakpoint_carries (spec : Text) (usable : Usable free w) :
    Ensures (· = w) (setHardwareBreakpoint kit sink spec) (fun _ => Carries I w) (Carries I w) := by
  refine transportMut_carries fun t holds => ?_
  refine .bind (.onError (held_talk stable (createHardwareBreakpoint_moves (request_grows _) spec) usable holds)
    (.follows (change_carries stable ?_ ?_) w) fun _ => id) fun record => .follows (.bind (change_carries stable ?_ ?_) fun _ =>
    .bind (emitted_carries stable _) fun _ => .pure _) w <;> exact fun _ => rfl

theorem prepareTarget_carries (usable : Usable free w) :
    Ensures (· = w) (prepareTarget kit) (fun _ => Carries I w) (Carries I w) := by
  have use : ∀ symbols, Moves Grows (do
      prepareSession kit
      let _ ← loadSymbols kit symbols
      archCheck kit symbols : Wire ArchCheck) := fun symbols =>
    .bind (prepareSession_moves (request_grows _)) fun _ => .bind (loadSymbols_moves (request_grows _) _) fun _ =>
      archCheck_moves (request_grows _) _
  refine .bind (Q:=fun w' => (· = w' ∧ w' = w)) (.get fun s same => ⟨rfl,same⟩) fun w' => ?_
  rintro s ⟨rfl,rfl⟩
  refine Ensures.bind (whenLive_carries stable (use _) usable) (fun verdict => .follows (.bind (hand_carries _) fun _ =>
    change_carries stable ?_ ?_) s) s rfl <;> exact fun _ => rfl

theorem tryReadRegisters_carries (usable : Usable free w) :
    Ensures (· = w) (tryReadRegisters kit) (fun _ => Carries I w) (Carries I w) := by
  refine .bind (Q:=fun w' s => w' = w ∧ s = w) (.get fun s same => ⟨same,same⟩) fun w' => ?_
  rintro s ⟨rfl,rfl⟩
  cases holds : s.backend.transport with
  | none => exact Carries.refl s
  | some t =>
    exact Ensures.bind (.attempt (held_talk stable (readRegisters_moves (request_grows _)) usable holds))
      (fun _ => .follows (.pure _) s) s rfl

theorem wire_shakes (inner : Moves Grows x) : Moves (Shakes I) (wire x) := by
  intro h
  have grown := inner ⟨h.transport,h.world.ticks,h.world.lost⟩
  unfold wire
  rw [after_zoom]
  refine ⟨⟨grown.lost,stable.neutral ?_ ?_ ?_⟩,fun fresh => fresh.grows grown⟩ <;> rfl

theorem poisoning_shakes (inner : Moves (Shakes I) x) : Moves (Shakes I) (poisoning x) :=
  .onError inner (host_shakes (poison_carries stable))

theorem handshake_shakes (target : Text) : Moves (Shakes I) (handshake kit target) := by
  have handed : ∀ result : Except PrincessError Json, Moves (Shakes I) (host (hand result)) := fun result =>
    host_shakes (hand_carries result)
  have sent : ∀ command arguments, Moves (Shakes I) (wire (watched command (send command arguments))) := fun _ _ =>
    wire_shakes stable (watched_grows (send_grows _ _))
  have waited : ∀ command seq timeout, Moves (Shakes I) (poisoning (wire (watched command (waitResponse seq timeout)))) :=
    fun _ _ _ => poisoning_shakes stable (wire_shakes stable (watched_grows (waitResponse_grows _ _)))
  refine .bind .get fun _ => .bind (wire_shakes stable (requestWithin_grows _ _ _)) fun _ => .bind (handed _) fun _ =>
    .bind (host_shakes (change_carries stable ?_ ?_)) fun _ => .bind (sent _ _) fun _ => .bind (sent _ _) fun _ =>
    .bind (waited _ _ _) fun _ => .bind (waited _ _ _) fun _ => .bind (poisoning_shakes stable (handed _)) fun _ =>
    .bind (wire_shakes stable (waitEvent_grows _)) fun _ => .bind (wire_shakes stable takeEvents_grows) fun events => ?_
  · exact fun _ => rfl
  · exact fun _ => rfl
  · split
    · exact host_shakes (change_carries stable (fun _ => rfl) fun _ => rfl)
    · exact .pure _

end operations

section coming
variable {kit : Kit} {sink : Sink} {free : Prop} {I : World → Prop} (lasting : Lasting free I)
include lasting

theorem disconnect_carries (w : World) :
    Ensures (· = w) disconnect (fun _ w' => Carries I w w' ∧ w'.backend.transport = none) (Carries I w) := by
  refine .bind (Q:=fun w' s => w' = w ∧ s = w) (.get fun s same => ⟨same,same⟩) fun w' => ?_
  rintro s ⟨rfl,rfl⟩
  dsimp only
  cases holds : s.backend.transport with
  | none => exact ⟨Carries.refl s,holds⟩
  | some t =>
    have asked : Moves (fun a b => Grows a b ∧ Writes "disconnect".toList a b)
        (requestWithin "disconnect".toList (some (object [])) 3000) := fun a =>
      ⟨requestWithin_grows _ _ _ a,requestWithin_writes _ _ _ a⟩
    refine Ensures.bind (P:=(· = s)) (.attempt (talk_ensures asked
      (E:=fun w' => ∃ u, w' = s.back u ∧ Grows ⟨t,s.ticks,s.lost⟩ u ∧ Writes "disconnect".toList ⟨t,s.ticks,s.lost⟩ u) ?_))
      (fun _ => .modify ?_) s rfl
    · rintro w' u rfl both
      exact ⟨u,rfl,both⟩
    · rintro w' ⟨u,rfl,grown,more,written,only⟩
      refine ⟨⟨grown.lost,lasting.parted holds grown fun request member => only request ?_⟩,rfl⟩
      simpa [written] using member

theorem detach_carries : Moves (Carries I) detach := by
  refine Ensures.moves fun w => .bind (disconnect_carries lasting w) fun _ => .modify ?_
  rintro w' ⟨carried,none'⟩
  refine ⟨carried.1,fun held => lasting.neutral ?_ ?_ ?_ (lasting.detached none' (carried.2 held))⟩ <;> rfl

theorem calm_carries (calm : Calm w w') : Carries I w w' := by
  obtain ⟨lost,state,dropped,ticks,transport⟩ := calm
  refine ⟨lost ▸ List.prefix_refl _,fun held => ?_⟩
  clear lost
  induction ticks generalizing w with
  | nil => exact lasting.neutral (by simpa using transport) state dropped held
  | cons tick ticks ih =>
    refine ih (w:=w.reach tick) state dropped ?_ (lasting.reached held)
    simpa [World.reach,Function.comp_def] using transport

theorem bringUp_carries (inner : Moves (Shakes I) x) (w : World) :
    Ensures (fun w' => Carries I w w' ∧ Fresh t) (bringUp t x) (fun t w' => Carries I w w' ∧ Fresh t) (Carries I w) := by
  rintro w' ⟨carried,fresh⟩
  obtain ⟨onward,still⟩ := inner ⟨w',t⟩
  simp only [bringUp,EStateM.run,after] at onward still ⊢
  cases here : x ⟨w',t⟩ with
  | ok a h =>
    rw [here] at onward still
    exact ⟨trans_of (Carries I) carried onward,still fresh⟩
  | error e h =>
    rw [here] at onward still
    have kept : Carries I h.world {h.world with dropped:=h.transport :: h.world.dropped} :=
      ⟨List.prefix_refl _,lasting.discarded (still fresh)⟩
    exact trans_of (Carries I) carried (trans_of (Carries I) onward kept)

theorem attach_carries (stub : GdbStub) : Moves (Carries I) (attach kit sink stub) := by
  refine Ensures.moves fun w => .bind (Q:=fun _ => (· = w)) (.get fun _ => id) fun before => ?_
  refine .bind (Q:=fun now s => now = w ∧ s = w) (.get fun _ same => ⟨same,same⟩) fun now => ?_
  by_cases ready : now.backend.state = .ready
  · simp only [ready,if_true]
    refine .throw ?_
    rintro s ⟨-,rfl⟩
    exact Carries.refl s
  · simp only [ready,if_false]
    have started : Ensures (Carries I w) (launch sink) (fun _ => Carries I w) (Carries I w) :=
      .follows (fun w => calm_carries lasting (launch_calm sink w)) w
    have spawned' : ∀ argv, Ensures (Carries I w) (spawnAdapter argv) (fun t w' => Carries I w w' ∧ Fresh t) (Carries I w) := fun argv =>
      .pointwise fun s carried => (spawnAdapter_calm argv s).weaken (fun s' same => same ▸ refl_of Calm s')
        (fun t s' calm => ⟨trans_of (Carries I) carried (calm_carries lasting calm.1),calm.2.elim fun command same => same ▸
          ⟨⟨command,.none,.refl _⟩,rfl⟩⟩) fun s' calm => trans_of (Carries I) carried (calm_carries lasting calm)
    refine .bind (Q:=fun _ => Carries I w) (.modify ?_) fun _ => .bind started fun _ => .bind (spawned' _) fun t =>
      .bind (bringUp_carries lasting (.bind (host_shakes (emitted_carries lasting.toStable _)) fun _ =>
        handshake_shakes lasting.toStable _) w) fun t => .bind (Q:=fun _ => Carries I w) (.modify ?_) fun _ =>
      .follows (emitted_carries lasting.toStable _) w
    · rintro s ⟨rfl,rfl⟩
      exact ⟨List.prefix_refl _,lasting.attaching ready⟩
    · rintro s ⟨carried,fresh⟩
      exact ⟨carried.1,lasting.adopted fresh ∘ carried.2⟩

end coming

-- A property that bears any use of a transport is kept by a whole resume.
section resume
variable {kit : Kit} {sink : Sink} {I : World → Prop} (stable : Stable True I)
include stable

theorem stoppedPayload_carries (event : Message) (reason : StopReason) : Moves (Carries I) (stoppedPayload kit event reason) := by
  refine .bind .get fun _ => .bind (change_carries stable ?_ ?_) fun _ =>
    .bind (.attempt (requestStackTrace_carries stable _ _ _)) fun _ =>
    .bind (Ensures.moves fun w => tryReadRegisters_carries stable fun _ _ => .inl trivial) fun _ => .pure _ <;> exact fun _ => rfl

theorem resume_carries (what command : String) (extra : List (String × Json)) (threadId : Option Int) :
    Moves (Carries I) (resume kit sink what command extra threadId) := by
  refine .bind .get fun _ => .bind (ask_carries stable _ _ _) fun _ =>
    .bind (Ensures.moves fun w => whenLive_carries stable (waitEvent_grows _) fun _ _ => .inl trivial) fun event => ?_
  cases event with
  | none => exact .throw _
  | some event => exact .bind (emitted_carries stable _) fun _ => stoppedPayload_carries stable _ _

end resume

theorem quietly_moves {R : World → World → Prop} [IsPreorder World R] (inner : Moves R x) : Moves R (quietly x) :=
  .bind inner fun _ => .pure _

section sessions
variable {kit : Kit} {sink : Sink} {I : World → Prop} (lasting : Lasting True I)
include lasting

theorem perform_carries (op : Op) : Moves (Carries I) (op.perform kit sink) := by
  have stable := lasting.toStable
  have usable : ∀ w, Usable True w := fun _ _ _ => .inl trivial
  cases op with
  | attach stub => exact attach_carries lasting stub
  | detach => exact detach_carries lasting
  | setBreakpoints file breakpoints => exact quietly_moves (setBreakpoints_carries stable file breakpoints)
  | resume how threadId => cases how <;> exact quietly_moves (resume_carries stable _ _ _ threadId)
  | stackTrace threadId startFrame levels => exact quietly_moves (requestStackTrace_carries stable _ _ _)
  | scopes frameId => exact quietly_moves (scopes_carries stable frameId)
  | readVariables reference => exact quietly_moves (readVariables_carries stable reference)
  | readMemory address count => exact quietly_moves (readMemory_carries stable address count)
  | writeMemory address bytes => exact writeMemory_carries stable address bytes
  | disassemble address count => exact quietly_moves (disassemble_carries stable address count)
  | registers => exact quietly_moves (registers_carries stable)
  | readPhysicalMemory address count => exact quietly_moves (readPhysicalMemory_carries stable address count)
  | capabilitiesLayer commands => exact Ensures.moves fun w => capabilitiesLayer_carries stable commands (usable w)
  | setHardwareBreakpoint spec =>
    exact quietly_moves (Ensures.moves fun w => setHardwareBreakpoint_carries stable spec (usable w))
  | prepareTarget => exact Ensures.moves fun w => prepareTarget_carries stable (usable w)

theorem session_carries (w : World) (ops : List Op) : Carries I w (session kit sink w ops) := by
  induction ops generalizing w with
  | nil => exact Carries.refl w
  | cons op ops ih => exact trans_of (Carries I) (perform_carries lasting op w) (ih _)

end sessions
end PrincessIDE.Dap
