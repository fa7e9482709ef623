import PrincessIDE.Debug.Upkeep

namespace PrincessIDE.Dap
open Utf8 Str Error Effect Loop

def Parcel.isStop (parcel : Parcel) : Bool := match parcel.incoming with
  | .closed _ => true
  | _ => false

-- Whether the next receive gets the reader's last word, or no reader at all.
def Transport.atEnd (t : Transport) : Bool := match t.queue with
  | [] => t.readerGone
  | parcel :: _ => parcel.isStop

-- The turn at which a wait ended, with the channel as it was at that moment.
def waitLeaving (turn : Transport → Tick → Turn Transport ρ) (s : Session) : Option (Transport × Tick) :=
  let t := (loop turn s.transport s.ticks).2.1
  (leaving turn s.transport s.ticks).or (leaving turn t (.replicate (t.queue.length+1) .last))

-- The receive a call ended with; a response or an event that was kept for it
-- takes none, nor does a wait for a response past its deadline.
def Call.receive (s : Session) : Call → Option (Transport × Tick)
  | .waitResponse seq timeout =>
    if (s.transport.early seq).isSome then none
    else ((waitLeaving (responseTurn seq timeout) s).map fun at' => (at'.1.reach at'.2,at'.2)).filter fun at' =>
      (at'.1.early seq).isNone && !at'.2.expired
  | .waitEvent name =>
    if (s.transport.events.find? (named name)).isSome then none
    else (waitLeaving (eventTurn name) s).map fun at' => (at'.1.reach at'.2,at'.2)
  | .send .. | .takeEvents => none

def Call.meetsEnd (s : Session) (call : Call) : Bool := (call.receive s).any fun at' => at'.1.atEnd

-- The reader's last word is taken by the sweep that a wait for an event makes
-- past its deadline.
def Call.overlooks (s : Session) : Call → Bool
  | .waitEvent name => ((Call.waitEvent name).receive s).any fun at' => at'.2.expired && at'.1.queue.head?.any Parcel.isStop
  | _ => false

-- The transport says that it is closed, and a send is refused with that.
def Refusing (s : Session) : Prop := s.transport.isClosed = true ∧
  ∀ command arguments, ∃ reason, s.transport.closed = some reason ∧
    (send command arguments).run s = .error (s.transport.closedError reason) s

-- Whatever calls follow one that met the end.
def Remembers (s : Session) (calls : List Call) : Prop := ∀ before call later rest, calls = before ++ call :: later ++ rest →
  call.meetsEnd (performAll s before).2 = true → Refusing (performAll s (before ++ call :: later)).2

theorem refusing_closed (s : Session) : Refusing s ↔ s.transport.isClosed = true := by
  refine ⟨And.left,fun closed => ⟨closed,fun command arguments => ?_⟩⟩
  obtain ⟨reason,known⟩ := Option.isSome_iff_exists.mp closed
  exact ⟨reason,known,by rw [send_run,known]⟩

-- The reader's last words that are in the channel or known to the transport: one
-- for a reader that is gone, or fewer where some wait has overlooked it.
def Transport.stops (t : Transport) : Nat := t.queue.countP Parcel.isStop + t.isClosed.toNat

def Transport.Candid (t : Transport) : Prop := t.stops = t.readerGone.toNat

def Transport.Single (t : Transport) : Prop := t.stops ≤ t.readerGone.toNat

theorem hear_stops (t : Transport) (frame : Frame) :
    (t.hear frame).stops + t.readerGone.toNat = t.stops + (t.hear frame).readerGone.toNat := by
  have quiet : ∀ value incoming, classify value = some incoming → ∀ n, Parcel.isStop ⟨n,incoming⟩ = false := by
    intro value incoming found n
    unfold classify at found
    split at found
    · cases found
      rfl
    · obtain ⟨seq,-,rfl⟩ := Option.map_eq_some_iff.mp found
      rfl
  unfold Transport.hear
  cases gone : t.readerGone with
  | true => simp [gone]
  | false =>
    cases frame with
    | stop reason => simp [Transport.stops,Transport.push,Transport.isClosed,Parcel.isStop]; omega
    | message value =>
      cases found : classify value with
      | none => simp [found,gone]
      | some incoming => simp [found,Transport.stops,Transport.push,Transport.isClosed,gone,quiet value incoming found]

theorem reach_stops (tick : Tick) (t : Transport) :
    (t.reach tick).stops + t.readerGone.toNat = t.stops + (t.reach tick).readerGone.toNat := by
  unfold Transport.reach
  generalize tick.frames = frames
  induction frames generalizing t with
  | nil => rfl
  | cons frame frames ih =>
    have first := hear_stops t frame
    have later := ih (t.hear frame)
    rw [List.foldl_cons]
    omega

theorem reach_candid {t : Transport} (candid : t.Candid) : (t.reach tick).Candid := by
  have same := reach_stops tick t
  unfold Transport.Candid at candid ⊢
  omega

theorem reach_single {t : Transport} (single : t.Single) (tick : Tick) : (t.reach tick).Single := by
  have same := reach_stops tick t
  unfold Transport.Single at single ⊢
  omega

-- A receive that keeps what it took, or finds no more than the transport knows.
def Keeps (t u : Transport) : Prop := (t.Candid → u.Candid) ∧ (t.Single → u.Single)

theorem keeps_of {t u : Transport} (stops : u.stops = t.stops) (gone : u.readerGone = t.readerGone) : Keeps t u := by
  unfold Keeps Transport.Candid Transport.Single
  rw [stops,gone]
  exact ⟨id,id⟩

theorem Keeps.after_reach {t : Transport} (tick : Tick) (kept : Keeps (t.reach tick) u) : Keeps t u :=
  ⟨fun candid => kept.1 (reach_candid candid),fun single => kept.2 (reach_single single tick)⟩

theorem stops_taken {t : Transport} (head : t.queue = parcel :: rest) (message : parcel.isStop = false) :
    Transport.stops {t with queue:=rest} = t.stops := by
  simp [Transport.stops,Transport.isClosed,head,message]

theorem stops_told {t : Transport} (head : t.queue = parcel :: rest) (last : parcel.isStop = true) (reason : Text) (single : t.Single) :
    Transport.stops {t with queue:=rest, closed:=some reason} = t.stops := by
  have bound : t.readerGone.toNat ≤ 1 := Bool.toNat_le _
  simp only [Transport.Single,Transport.stops,Transport.isClosed,head,last,List.countP_cons,if_true] at single ⊢
  cases closed : t.closed with
  | some old => simp [closed] at single; omega
  | none => simp

theorem responseTurn_keeps (seq : Int) (timeout : Nat) (t : Transport) (tick : Tick) (single : t.Single) :
    Keeps t (responseTurn seq timeout t tick).state := by
  refine Keeps.after_reach tick ?_
  replace single := reach_single single tick
  unfold responseTurn
  generalize t.reach tick = u at single ⊢
  dsimp only
  cases u.early seq with
  | some response => exact keeps_of rfl rfl
  | none =>
    cases tick.expired with
    | true => exact keeps_of rfl rfl
    | false =>
      cases head : u.queue with
      | nil =>
        dsimp only
        cases gone : u.readerGone with
        | false => exact keeps_of rfl rfl
        | true =>
          constructor <;> intro _ <;> simp [Transport.Candid,Transport.Single,Transport.stops,Transport.isClosed,Turn.state]
      | cons parcel rest =>
        obtain ⟨arrival,incoming⟩ := parcel
        cases incoming with
        | response requestSeq message =>
          by_cases own : requestSeq = seq
          · simp only [own,if_true]
            exact keeps_of (stops_taken head rfl) rfl
          · simp only [own,if_false]
            exact keeps_of (stops_taken head rfl) rfl
        | event event => exact keeps_of (stops_taken head rfl) rfl
        | closed reason => exact keeps_of (stops_told head rfl reason single) rfl

theorem eventTurn_keeps (name : Text) (t : Transport) (tick : Tick) (single : t.Single)
    (heard : tick.expired = false ∨ (t.reach tick).queue.head?.any Parcel.isStop = false) : Keeps t (eventTurn name t tick).state := by
  refine Keeps.after_reach tick ?_
  replace single := reach_single single tick
  unfold eventTurn
  generalize t.reach tick = u at single heard ⊢
  dsimp only
  cases head : u.queue with
  | nil => dsimp only; split <;> exact keeps_of rfl rfl
  | cons parcel rest =>
    obtain ⟨arrival,incoming⟩ := parcel
    cases incoming with
    | response requestSeq message => exact keeps_of (stops_taken head rfl) rfl
    | event event => dsimp only; split <;> exact keeps_of (stops_taken head rfl) rfl
    | closed reason =>
      have timely : tick.expired = false := by simpa [head,Parcel.isStop] using heard
      simp only [timely]
      exact keeps_of (stops_told head rfl reason single) rfl

-- The sweep that overlooks the last word leaves one less to be found.
theorem eventTurn_single (name : Text) (t : Transport) (tick : Tick) (single : t.Single) : (eventTurn name t tick).state.Single := by
  by_cases heard : tick.expired = false ∨ (t.reach tick).queue.head?.any Parcel.isStop = false
  · exact (eventTurn_keeps name t tick single heard).2 single
  · obtain ⟨late,last⟩ : tick.expired = true ∧ (t.reach tick).queue.head?.any Parcel.isStop = true := by simpa using heard
    replace single := reach_single single tick
    unfold eventTurn
    generalize t.reach tick = u at single last ⊢
    dsimp only
    cases head : u.queue with
    | nil => simp [head] at last
    | cons parcel rest =>
      obtain ⟨arrival,incoming⟩ := parcel
      cases incoming with
      | response requestSeq message => simp [head,Parcel.isStop] at last
      | event event => simp [head,Parcel.isStop] at last
      | closed reason =>
        simp only [late,if_true,Turn.state]
        simp only [Transport.Single,Transport.stops,Transport.isClosed,head,List.countP_cons] at single ⊢
        omega

-- What every turn that goes on keeps holds where the wait was left, or at its end.
theorem wait_leaving (turn : Transport → Tick → Turn Transport ρ) (idle : ρ) (P : Transport → Prop)
    (step : ∀ t tick u, P t → turn t tick = .next u → P u) (s : Session) (start : P s.transport) : match waitLeaving turn s with
    | some (m,tick) => P m ∧ ∃ r, turn m tick = .leave r (wait turn idle s).2.transport
    | none => P (wait turn idle s).2.transport := by
  have first := loop_leaving turn s.transport s.ticks
  have kept := leaving_invariant P step start s.ticks
  unfold waitLeaving wait
  cases left : leaving turn s.transport s.ticks with
  | some at' =>
    obtain ⟨m,tick⟩ := at'
    rw [left] at first kept
    obtain ⟨r,out,rest,here,done⟩ := first
    rw [done]
    exact ⟨kept,r,here⟩
  | none =>
    rw [left] at first kept
    obtain ⟨t,done⟩ := first
    rw [done] at kept ⊢
    dsimp only [Option.none_or] at kept ⊢
    have second := loop_leaving turn t (.replicate (t.queue.length+1) .last)
    have still := leaving_invariant P step kept (.replicate (t.queue.length+1) .last)
    cases again : leaving turn t (.replicate (t.queue.length+1) .last) with
    | some at' =>
      obtain ⟨m,tick⟩ := at'
      rw [again] at second still
      obtain ⟨r,out,rest,here,ended⟩ := second
      rw [ended]
      exact ⟨still,r,here⟩
    | none =>
      rw [again] at second still
      obtain ⟨u,ended⟩ := second
      rw [ended] at still ⊢
      exact still

theorem eventTurn_next {t : Transport} (on : eventTurn name t tick = .next u) :
    (t.reach tick).queue.head?.any Parcel.isStop = false ∧ u.closed = t.closed := by
  have still := (reach_idle tick t).2
  unfold eventTurn at on
  generalize t.reach tick = v at on still ⊢
  dsimp only at on
  cases head : v.queue with
  | nil =>
    simp only [head] at on
    split at on <;> cases on
    exact ⟨rfl,still⟩
  | cons parcel rest =>
    obtain ⟨arrival,incoming⟩ := parcel
    simp only [head] at on
    cases incoming with
    | response requestSeq message => cases on; exact ⟨rfl,still⟩
    | event event =>
      dsimp only at on
      split at on <;> cases on
      exact ⟨rfl,still⟩
    | closed reason =>
      dsimp only at on
      split at on <;> cases on

-- How a wait for an event is left: at the last word in time, or with what the
-- transport knows unchanged.
theorem eventTurn_left {t : Transport} (left : eventTurn name t tick = .leave r u) :
    ((t.reach tick).queue.head?.any Parcel.isStop = true ∧ tick.expired = false ∧ u.isClosed = true) ∨
    ((t.reach tick).queue.head?.any Parcel.isStop = true → tick.expired = true) ∧ u.closed = t.closed := by
  have still := (reach_idle tick t).2
  unfold eventTurn at left
  generalize t.reach tick = v at left still ⊢
  dsimp only at left
  cases head : v.queue with
  | nil =>
    simp only [head] at left
    split at left <;> cases left
    exact .inr ⟨fun no => (by simp at no),still⟩
  | cons parcel rest =>
    obtain ⟨arrival,incoming⟩ := parcel
    simp only [head] at left
    cases incoming with
    | response requestSeq message => cases left
    | event event =>
      dsimp only at left
      split at left <;> cases left
      exact .inr ⟨fun no => (by simp [Parcel.isStop] at no),still⟩
    | closed reason =>
      dsimp only at left
      cases late : tick.expired with
      | true =>
        simp only [late,if_true] at left
        cases left
        exact .inr ⟨fun _ => rfl,still⟩
      | false =>
        simp only [late] at left
        cases left
        exact .inl ⟨by simp [Parcel.isStop],rfl,rfl⟩

-- A wait for a response that ended with a receive of the end has told the transport.
theorem responseTurn_left {t : Transport} (left : responseTurn seq timeout t tick = .leave r u)
    (received : (t.reach tick).early seq = none ∧ tick.expired = false) (ended : (t.reach tick).atEnd = true) : u.isClosed = true := by
  unfold responseTurn at left
  generalize t.reach tick = v at left received ended
  simp only [received.1,received.2] at left
  unfold Transport.atEnd at ended
  cases head : v.queue with
  | nil =>
    simp only [head] at left ended
    simp only [ended,if_true] at left
    cases left
    rfl
  | cons parcel rest =>
    obtain ⟨arrival,incoming⟩ := parcel
    simp only [head] at left ended
    cases incoming with
    | response requestSeq message => cases ended
    | event event => cases ended
    | closed reason => cases left; rfl

theorem numbered_keeps (s : Session) : Keeps s.transport s.numbered :=
  .after_reach (t:={s.transport with nextSeq:=s.transport.nextSeq+1}) s.tick (keeps_of rfl rfl)

theorem send_keeps (command : Text) (arguments : Option Json) (s : Session) :
    Keeps s.transport (after (send command arguments) s).transport := by
  unfold after
  rw [send_run]
  cases s.transport.closed with
  | some reason => exact keeps_of rfl rfl
  | none => cases s.tick.failure <;> exact numbered_keeps s

theorem waitResponse_keeps (seq : Int) (timeout : Nat) (s : Session) (single : s.transport.Single) :
    Keeps s.transport (after (waitResponse seq timeout) s).transport := by
  unfold after waitResponse
  simp only [EStateM.run]
  cases s.transport.early seq with
  | some response => exact keeps_of rfl rfl
  | none =>
    have turn := responseTurn_keeps seq timeout
    have waited := wait_leaving (responseTurn seq timeout) (.error (timedOut s.transport seq timeout))
      (fun t => t.Single ∧ Keeps s.transport t) (fun t tick u kept on => by
        have step := turn t tick kept.1
        rw [on] at step
        exact ⟨step.2 kept.1,step.1 ∘ kept.2.1,step.2 ∘ kept.2.2⟩) s ⟨single,keeps_of rfl rfl⟩
    have ended : Keeps s.transport (wait (responseTurn seq timeout) (.error (timedOut s.transport seq timeout)) s).2.transport := by
      cases left : waitLeaving (responseTurn seq timeout) s with
      | none => rw [left] at waited; exact waited.2
      | some at' =>
        rw [left] at waited
        obtain ⟨kept,r,here⟩ := waited
        have step := turn at'.1 at'.2 kept.1
        rw [here] at step
        exact ⟨step.1 ∘ kept.2.1,step.2 ∘ kept.2.2⟩
    dsimp only
    generalize wait (responseTurn seq timeout) (.error (timedOut s.transport seq timeout)) s = result at ended
    obtain ⟨e | response,u⟩ := result <;> exact ended

-- A call that meets the end in a wait for a response tells the transport.
theorem waitResponse_tells (met : (Call.waitResponse seq timeout).meetsEnd s = true) :
    (after (waitResponse seq timeout) s).transport.isClosed = true := by
  unfold Call.meetsEnd Call.receive at met
  unfold after waitResponse
  simp only [EStateM.run]
  cases kept : s.transport.early seq with
  | some response => simp [kept] at met
  | none =>
    have waited := wait_leaving (responseTurn seq timeout) (.error (timedOut s.transport seq timeout)) (fun _ => True)
      (fun _ _ _ _ _ => trivial) s trivial
    simp only [kept,Option.isSome_none] at met
    cases left : waitLeaving (responseTurn seq timeout) s with
    | none => simp [left] at met
    | some at' =>
      rw [left] at waited
      obtain ⟨-,r,here⟩ := waited
      by_cases received : (at'.1.reach at'.2).early seq = none ∧ at'.2.expired = false
      · have told := responseTurn_left here received (by simpa [left,Option.filter,received] using met)
        dsimp only
        generalize wait (responseTurn seq timeout) (.error (timedOut s.transport seq timeout)) s = result at told
        obtain ⟨e | response,u⟩ := result <;> exact told
      · simp [left,Option.filter,received] at met

-- What a wait for an event comes to: the sweep that overlooks the last word lets
-- the transport know no more than before, and any other end is known.
structure Swept (name : Text) (s s' : Session) : Prop where
  single : s'.transport.Single
  candid : (Call.waitEvent name).overlooks s = false → s.transport.Candid → s'.transport.Candid
  met : (Call.waitEvent name).overlooks s = false → s.transport.Candid → (Call.waitEvent name).meetsEnd s = true →
    s'.transport.isClosed = true
  overlooked : (Call.waitEvent name).overlooks s = true → s'.transport.closed = s.transport.closed ∧
    ∃ t tick, (Call.waitEvent name).receive s = some (t,tick) ∧ t.Single ∧ t.closed = s.transport.closed

theorem atEnd_closed {t : Transport} (candid : t.Candid) (ended : t.atEnd = true)
    (heard : t.queue.head?.any Parcel.isStop = false) : t.isClosed = true := by
  unfold Transport.atEnd at ended
  cases head : t.queue with
  | nil =>
    simp only [head] at ended
    cases closed : t.isClosed with
    | true => rfl
    | false => simp [Transport.Candid,Transport.stops,head,ended,closed] at candid
  | cons parcel rest => simp_all

theorem waitEvent_sweeps (name : Text) (s : Session) (single : s.transport.Single) : Swept name s (after (waitEvent name) s) := by
  unfold after waitEvent
  simp only [EStateM.run]
  cases kept : s.transport.events.find? (named name) with
  | some event => exact ⟨single,fun _ => id,fun _ _ met => by simp [Call.meetsEnd,Call.receive,kept] at met,fun no => by
      simp [Call.overlooks,Call.receive,kept] at no⟩
  | none =>
    have waited := wait_leaving (eventTurn name) (.ok none)
      (fun t => t.Single ∧ (s.transport.Candid → t.Candid) ∧ t.closed = s.transport.closed) (fun t tick u held on => by
        have step := eventTurn_keeps name t tick held.1 (.inr (eventTurn_next on).1)
        rw [on] at step
        exact ⟨step.2 held.1,step.1 ∘ held.2.1,(eventTurn_next on).2.trans held.2.2⟩) s ⟨single,id,rfl⟩
    have swept : Swept name s (wait (eventTurn name) (.ok none) s).2 := by
      have received : (Call.waitEvent name).receive s = (waitLeaving (eventTurn name) s).map fun at' => (at'.1.reach at'.2,at'.2) := by
        simp [Call.receive,kept]
      cases left : waitLeaving (eventTurn name) s with
      | none =>
        rw [left] at waited received
        exact ⟨waited.1,fun _ => waited.2.1,fun _ _ met => by simp [Call.meetsEnd,received] at met,fun no => by
          simp [Call.overlooks,received] at no⟩
      | some at' =>
        obtain ⟨t,tick⟩ := at'
        rw [left] at waited received
        obtain ⟨held,r,here⟩ := waited
        have still := (reach_idle tick t).2
        have overlooks : (Call.waitEvent name).overlooks s = (tick.expired && (t.reach tick).queue.head?.any Parcel.isStop) := by
          simp [Call.overlooks,received]
        have state : (eventTurn name t tick).state = (wait (eventTurn name) (.ok none) s).2.transport := by rw [here]; rfl
        have heard : (Call.waitEvent name).overlooks s = false → tick.expired = false ∨ (t.reach tick).queue.head?.any Parcel.isStop = false :=
          fun quiet => Bool.and_eq_false_iff.mp (overlooks.symm.trans quiet)
        refine ⟨state ▸ eventTurn_single name t tick held.1,fun quiet candid =>
          state ▸ (eventTurn_keeps name t tick held.1 (heard quiet)).1 (held.2.1 candid),fun quiet candid met => ?_,fun missed => ?_⟩
        · rcases eventTurn_left here with ⟨-,-,told⟩ | ⟨late,same⟩
          · exact told
          · have ended : (t.reach tick).atEnd = true := by simpa [Call.meetsEnd,received] using met
            have unseen : (t.reach tick).queue.head?.any Parcel.isStop = false := by
              rcases heard quiet with timely | unseen
              · exact Bool.eq_false_iff.mpr fun last => by cases timely.symm.trans (late last)
              · exact unseen
            have known := atEnd_closed (reach_candid (held.2.1 candid)) ended unseen
            rwa [Transport.isClosed,same,← still]
        · refine ⟨?_,t.reach tick,tick,received,reach_single held.1 tick,still.trans held.2.2⟩
          obtain ⟨late,-⟩ : tick.expired = true ∧ _ := by simpa [overlooks] using missed
          rcases eventTurn_left here with ⟨-,timely,-⟩ | ⟨-,same⟩
          · cases late.symm.trans timely
          · exact same.trans held.2.2
    dsimp only
    generalize wait (eventTurn name) (.ok none) s = result at swept
    obtain ⟨e | found,u⟩ := result <;> exact swept

-- One call: the reader's last word stays single, and unless it is overlooked the
-- transport stays candid and knows of an end that was met.
theorem call_single (call : Call) (single : s.transport.Single) : (call.perform s).2.transport.Single := by
  cases call with
  | send command arguments => exact (send_keeps command arguments s).2 single
  | waitResponse seq timeout => exact (waitResponse_keeps seq timeout s single).2 single
  | waitEvent name => exact (waitEvent_sweeps name s single).single
  | takeEvents => exact single

theorem call_candid (call : Call) (single : s.transport.Single) (candid : s.transport.Candid) (heard : call.overlooks s = false) :
    (call.perform s).2.transport.Candid ∧ (call.meetsEnd s = true → (call.perform s).2.transport.isClosed = true) := by
  cases call with
  | send command arguments => exact ⟨(send_keeps command arguments s).1 candid,fun no => by cases no⟩
  | waitResponse seq timeout => exact ⟨(waitResponse_keeps seq timeout s single).1 candid,waitResponse_tells⟩
  | waitEvent name =>
    have swept := waitEvent_sweeps name s single
    exact ⟨swept.candid heard candid,swept.met heard candid⟩
  | takeEvents => exact ⟨candid,fun no => by cases no⟩

theorem call_overlooked (call : Call) (single : s.transport.Single) (missed : call.overlooks s = true) :
    call.meetsEnd s = true ∧ (call.perform s).2.transport.isClosed = false := by
  cases call with
  | send command arguments | waitResponse seq timeout | takeEvents => cases missed
  | waitEvent name =>
    obtain ⟨same,t,tick,received,single',still⟩ := (waitEvent_sweeps name s single).overlooked missed
    obtain ⟨-,last⟩ : tick.expired = true ∧ t.queue.head?.any Parcel.isStop = true := by
      simpa [Call.overlooks,received] using missed
    cases head : t.queue with
    | nil => simp [head] at last
    | cons parcel rest =>
      have stop : parcel.isStop = true := by simpa [head] using last
      refine ⟨by simp [Call.meetsEnd,received,Transport.atEnd,head,stop],?_⟩
      have bound : t.readerGone.toNat ≤ 1 := Bool.toNat_le _
      have open' : t.isClosed = false := by
        cases closed : t.isClosed with
        | false => rfl
        | true => simp [Transport.Single,Transport.stops,head,stop,closed] at single'; omega
      exact (congrArg Option.isSome (same.trans still.symm)).trans open'

theorem call_closed (call : Call) (closed : s.transport.isClosed = true) : (call.perform s).2.transport.isClosed = true := by
  cases call with
  | send command arguments => exact ((send_grows command arguments s).closed closed).1
  | waitResponse seq timeout => exact ((waitResponse_grows seq timeout s).closed closed).1
  | waitEvent name => exact ((waitEvent_grows name s).closed closed).1
  | takeEvents => exact closed

theorem calls_closed (calls : List Call) (closed : s.transport.isClosed = true) : (performAll s calls).2.transport.isClosed = true := by
  induction calls generalizing s with
  | nil => exact closed
  | cons call calls ih => exact ih (call_closed call closed)

theorem performAll_state (s : Session) (before : List Call) (call : Call) (later : List Call) :
    (performAll s (before ++ call :: later)).2 = (performAll (call.perform (performAll s before).2).2 later).2 := by
  rw [performAll_append]
  rfl

theorem calls_single (calls : List Call) (single : s.transport.Single) : (performAll s calls).2.transport.Single := by
  induction calls generalizing s with
  | nil => exact single
  | cons call calls ih => exact ih (call_single call single)

def Heard (s : Session) (calls : List Call) : Prop := ∀ before call rest, calls = before ++ call :: rest →
  call.overlooks (performAll s before).2 = false

theorem calls_candid (calls : List Call) (single : s.transport.Single) (candid : s.transport.Candid) (heard : Heard s calls) :
    (performAll s calls).2.transport.Candid := by
  induction calls generalizing s with
  | nil => exact candid
  | cons call calls ih =>
    refine ih (call_single call single) (call_candid call single candid (heard [] call calls rfl)).1 ?_
    intro before next rest split
    exact heard (call :: before) next rest (by rw [split]; rfl)

-- In every run of a transport, whatever the adapter sends and when: the end of the
-- stream is remembered by all calls after the wait that met it exactly when no
-- wait for an event took the reader's last word past its deadline.
theorem end_remembered (command : Text) (ticks : List Tick) (calls : List Call) :
    Remembers ⟨spawned command,ticks,[]⟩ calls ↔ Heard ⟨spawned command,ticks,[]⟩ calls := by
  have single : (spawned command).Single := Nat.le_refl _
  constructor
  · intro remembers before call rest split
    cases missed : call.overlooks (performAll ⟨spawned command,ticks,[]⟩ before).2 with
    | false => rfl
    | true =>
      obtain ⟨met,unknown⟩ := call_overlooked call (calls_single before single) missed
      have known := (remembers before call [] rest (by simpa using split) met).1
      rw [performAll_state] at known
      cases known.symm.trans unknown
  · intro heard before call later rest split met
    have early : Heard ⟨spawned command,ticks,[]⟩ before := fun first next middle split' =>
      heard first next (middle ++ call :: later ++ rest) (by simp [split,split'])
    have candid := calls_candid (s:=⟨spawned command,ticks,[]⟩) before single rfl early
    have told := (call_candid call (calls_single before single) candid (heard before call (later ++ rest) (by simp [split]))).2 met
    rw [refusing_closed,performAll_state]
    exact calls_closed later told

-- The adapter goes away and nobody waits in time: a wait for an event takes the
-- reader's last word in its sweep, and the request after it is sent.
def lateWait : Session := ⟨spawned [],[⟨[.stop "adapter stdout closed".toList],true,none⟩],[]⟩

theorem end_overlooked : ¬ Remembers lateWait [.waitEvent "stopped".toList] ∧
    (answer (send "threads".toList none) (performAll lateWait [.waitEvent "stopped".toList]).2) = .ok 1 := by
  refine ⟨fun remembers => ?_,by decide +kernel⟩
  have known := (remembers [] (.waitEvent "stopped".toList) [] [] rfl (by decide +kernel)).1
  exact absurd known (by decide +kernel)

end PrincessIDE.Dap
