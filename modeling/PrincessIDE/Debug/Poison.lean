import PrincessIDE.Debug.Upkeep

namespace PrincessIDE.Dap
open Utf8 Str Error Effect Event

def World.transports (w : World) : List Transport := w.backend.transport.toList ++ w.dropped

-- Of what was written since its session was poisoned, only the farewell.
def Sealed (t : Transport) : Prop :=
  ∀ n, t.poisonedAt = some n → ∀ request ∈ t.written.drop n, request.command = "disconnect".toList

-- The transport of a session is marked as soon as the session is not ready, and
-- all transports there ever were are sealed.
structure Kept (w : World) : Prop where
  clean : ∀ t, w.backend.transport = some t → (t.poisonedAt = none ↔ w.backend.state = .ready)
  held : ∀ t, w.backend.transport = some t → Sealed t
  gone : ∀ t ∈ w.dropped, Sealed t

theorem sealed_clean (clean : t.poisonedAt = none) : Sealed t := fun n marked => by simp [clean] at marked

theorem sealed_congr (mark : u.poisonedAt = t.poisonedAt) (written : u.written = t.written) (shut : Sealed t) : Sealed u :=
  fun n marked request member => shut n (mark ▸ marked) request (written ▸ member)

-- Marked now, a transport has nothing written since.
theorem sealed_poison (shut : Sealed t) : Sealed t.poison := by
  unfold Transport.poison
  split
  · rintro n ⟨⟩ request member
    simp at member
  · exact shut

theorem sealed_farewell (mark : u.poisonedAt = t.poisonedAt) (written : t.written <+: u.written)
    (only : ∀ request ∈ u.written.drop t.written.length, request.command = "disconnect".toList) (shut : Sealed t) : Sealed u := by
  obtain ⟨more,longer⟩ := written
  rw [← longer,List.drop_left] at only
  intro n marked request member
  rw [← longer,List.drop_append] at member
  rcases List.mem_append.mp member with old | new
  · exact shut n (mark ▸ marked) request old
  · exact only request (List.mem_of_mem_drop new)

theorem poison_marked (t : Transport) : t.poison.poisonedAt ≠ none := by
  unfold Transport.poison
  split
  · simp
  · rename_i marked
    simp [marked]

theorem kept_lasting : Lasting False Kept where
  neutral transport state dropped kept :=
    ⟨fun t holds => state ▸ kept.clean t (transport ▸ holds),fun t holds => kept.held t (transport ▸ holds),
      fun t member => kept.gone t (dropped ▸ member)⟩
  talked := by
    intro w t s holds usable grown kept
    refine ⟨fun u now => ?_,fun u now => ?_,kept.gone⟩ <;> cases now
    · exact grown.mark ▸ kept.clean t holds
    · rcases usable with no | ready | closed
      · exact no.elim
      · exact sealed_clean (grown.mark.trans ((kept.clean t holds).mpr ready))
      · exact sealed_congr grown.mark (grown.closed closed).2 (kept.held t holds)
  poisoned := by
    intro w kept
    refine ⟨fun u now => ?_,fun u now => ?_,kept.gone⟩ <;> obtain ⟨t,holds,rfl⟩ := Option.map_eq_some_iff.mp now
    · exact ⟨fun clean => (poison_marked t clean).elim,fun ready => by cases ready⟩
    · exact sealed_poison (kept.held t holds)
  attaching := by
    intro w other kept
    exact ⟨fun t holds => ⟨fun clean => (other ((kept.clean t holds).mp clean)).elim,fun ready => by cases ready⟩,kept.held,kept.gone⟩
  reached := by
    intro w tick kept
    refine ⟨fun u now => ?_,fun u now => ?_,kept.gone⟩ <;> obtain ⟨t,holds,rfl⟩ := Option.map_eq_some_iff.mp now
    · exact (reach_idle tick t).1.mark ▸ kept.clean t holds
    · exact sealed_congr (reach_idle tick t).1.mark (reach_idle tick t).1.written (kept.held t holds)
  discarded := by
    intro w t fresh kept
    exact ⟨kept.clean,kept.held,fun u member => (List.mem_cons.mp member).elim (fun same => same ▸ sealed_clean fresh.2) (kept.gone u)⟩
  adopted := by
    intro w t fresh kept
    refine ⟨fun u now => ?_,fun u now => ?_,fun u member => ?_⟩
    · cases now
      exact ⟨fun _ => rfl,fun _ => fresh.2⟩
    · cases now
      exact sealed_clean fresh.2
    · rcases List.mem_append.mp member with old | gone
      · exact kept.held u (Option.mem_toList.mp old)
      · exact kept.gone u gone
  parted := by
    intro w t s holds grown only kept
    refine ⟨fun u no => (by cases no),fun u no => (by cases no),fun u member => ?_⟩
    rcases List.mem_append.mp member with old | gone
    · cases Option.mem_toList.mp old
      exact sealed_farewell grown.mark grown.written only (kept.held t holds)
    · exact kept.gone u gone
  detached := by
    intro w none' kept
    exact ⟨fun t holds => (by simp [none'] at holds),kept.held,kept.gone⟩

-- How the two halves of a request end.
theorem send_ends (command : Text) (arguments : Option Json) (s : Session) : match (send command arguments).run s with
    | .ok _ s' => s'.lost = s.lost ∧ s'.transport.closed = none
    | .error e s' => s'.lost = s.lost ∧ (e.code = .qemuFailed → s'.transport.isClosed = true) ∧
        (s.transport.closed = none → e.code = .internal) := by
  have still := (numbered_idle s).2
  rw [send_run]
  cases opened : s.transport.closed with
  | some reason => exact ⟨rfl,fun _ => by simp [Transport.isClosed,opened],fun no => by cases no⟩
  | none =>
    cases s.tick.failure with
    | some failure =>
      have code : (s.transport.writeError command failure).code = .internal := by
        simp [Transport.writeError,PrincessError.internal,PrincessError.new]
      exact ⟨rfl,fun no => (by rw [code] at no; cases no),fun _ => code⟩
    | none => exact ⟨rfl,still.trans opened⟩

theorem waitResponse_ends (seq : Int) (timeout : Nat) (s : Session) : match (waitResponse seq timeout).run s with
    | .ok _ s' => s'.lost = s.lost ∧ s'.transport.closed = s.transport.closed
    | .error e s' => s'.lost = s.lost ∧ (e.code = .qemuFailed → s'.transport.isClosed = true) := by
  obtain ⟨ended,lost⟩ := waitResponse_end seq timeout s
  unfold after at ended lost
  unfold answer at ended
  cases done : (waitResponse seq timeout).run s with
  | ok response s' =>
    rw [done] at ended lost
    exact ⟨lost,ended.2⟩
  | error e s' =>
    rw [done] at ended lost
    refine ⟨lost,fun failed => ?_⟩
    rcases ended.2 with late | gone
    · simp [late] at failed
    · exact gone.2

theorem requestWithin_ends (command : Text) (arguments : Option Json) (timeout : Nat) (s : Session) :
    match (requestWithin command arguments timeout).run s with
    | .ok _ s' => s'.lost = s.lost ∧ s'.transport.closed = none
    | .error e s' => s'.lost = s.lost ++ [⟨command,e.code⟩] ∧ (e.code = .qemuFailed → s'.transport.isClosed = true) := by
  have sent := send_ends command arguments s
  simp only [requestWithin,watched,bind,EStateM.bind,EStateM.run,pure,EStateM.pure] at sent ⊢
  cases first : send command arguments s with
  | error e t =>
    rw [first] at sent
    exact ⟨by rw [sent.1],sent.2.1⟩
  | ok seq t =>
    rw [first] at sent
    have waited := waitResponse_ends seq timeout t
    simp only [EStateM.run] at waited
    cases second : waitResponse seq timeout t with
    | error e u =>
      rw [second] at waited
      simpa [second,waited.1,sent.1] using waited.2
    | ok response u =>
      rw [second] at waited
      simpa [second,waited.1,sent.1] using waited.2.trans sent.2

def Loses (command : Text) (s s' : Session) : Prop := ∃ more, s'.lost = s.lost ++ more ∧ ∀ loss ∈ more, loss.command = command

instance : IsPreorder Session (Loses command) where
  refl s := ⟨[],by simp,by simp⟩
  trans a b c first second := by
    obtain ⟨m,early,one⟩ := first
    obtain ⟨n,late,two⟩ := second
    refine ⟨m++n,by rw [late,early,List.append_assoc],fun loss member => ?_⟩
    exact (List.mem_append.mp member).elim (one loss) (two loss)

theorem request_loses (command : Text) (arguments : Option Json) : Moves (Loses command) (request command arguments) := by
  refine .bind .get fun s t => ?_
  have ended := requestWithin_ends command arguments s.transport.defaultTimeout t
  unfold after
  cases done : (requestWithin command arguments s.transport.defaultTimeout).run t with
  | ok a u =>
    rw [done] at ended
    exact ⟨[],by simp [ended.1],by simp⟩
  | error e u =>
    rw [done] at ended
    exact ⟨[_],ended.1,fun loss only => by rw [List.mem_singleton.mp only]⟩

theorem hand_ensures {P E : World → Prop} (failed : ∀ w, P w → E w) (result : Except PrincessError α) :
    Ensures P (hand result) (fun _ => P) E := by
  cases result with
  | ok a => exact .pure fun _ => id
  | error e => exact .throw failed

theorem ask_loses (kit : Kit) (what command : String) (arguments : Json) (w : World) :
    Ensures (· = w) (ask kit what command arguments) (fun _ w' => w'.lost = w.lost ∧ w'.backend.state = .ready)
      (fun w' => w'.lost = w.lost ∨ ∃ code, w'.lost = w.lost ++ [⟨command.toList,code⟩]) := by
  refine .bind (Q:=fun _ => (· = w)) (.get fun _ => id) fun before =>
    .bind (Q:=fun _ w' => w'.lost = w.lost ∧ w'.backend.state = .ready) ?_ fun _ => hand_ensures (fun w' held => .inl held.1) _
  refine .bind ((requireReady_ensures w).weaken (fun _ => id) (fun _ _ => id) ?_) fun t => ?_
  · rintro w' (rfl | ⟨rfl,-⟩)
    · exact .inl rfl
    · exact .inl rfl
  · rintro w' ⟨rfl,ready,-⟩
    have ended := requestWithin_ends command.toList (some arguments) before.backend.config.requestTimeout ⟨t,w'.ticks,w'.lost⟩
    simp only [talk,EStateM.run] at ended ⊢
    cases done : requestWithin command.toList (some arguments) before.backend.config.requestTimeout ⟨t,w'.ticks,w'.lost⟩ with
    | ok a s =>
      rw [done] at ended
      exact ⟨ended.1,ready⟩
    | error e s =>
      rw [done] at ended
      exact .inr ⟨_,ended.1⟩

def Closed (w : World) : Prop := ∀ t, w.backend.transport = some t → t.isClosed = true

theorem poison_closed (closed : Closed w) : Closed (after poison w) := by
  intro t now
  have held : w.backend.transport.map Transport.poison = some t := now
  obtain ⟨u,same,rfl⟩ := Option.map_eq_some_iff.mp held
  have still := closed u same
  unfold Transport.poison
  split <;> exact still

-- How a stack trace fails: the session is poisoned if its request was late or met
-- an adapter that is gone, and in the second case the transport knows it is.
def TraceFailed (w w' : World) : Prop :=
  (w'.lost = w.lost ∧ (w'.backend.state = w.backend.state ∨ Closed w')) ∨
  ∃ code, w'.lost = w.lost ++ [⟨"stackTrace".toList,code⟩] ∧
    (code = .timeout ∨ code = .qemuFailed → w'.backend.state = .poisoned) ∧
    (code = .qemuFailed → Closed w')

theorem stackTrace_loses (kit : Kit) (threadId : Int) (startFrame levels : Nat) (w : World) :
    Ensures (· = w) (requestStackTrace kit threadId startFrame levels) (fun _ => TraceFailed w) (TraceFailed w) := by
  have kept : ∀ w', w'.lost = w.lost ∧ w'.backend.state = w.backend.state → TraceFailed w w' := fun w' held => .inl ⟨held.1,.inl held.2⟩
  refine .bind (Q:=fun _ => (· = w)) (.get fun _ => id) fun before =>
    .bind ((requireReady_ensures w).weaken (fun _ => id) (fun _ _ => id) ?_) fun t =>
    .bind (Q:=fun _ w' => w'.lost = w.lost ∧ w'.backend.state = w.backend.state) ?_ fun _ =>
    .bind (hand_ensures kept _) fun _ => .bind (Q:=fun _ w' => w'.lost = w.lost ∧ w'.backend.state = w.backend.state)
      (.modify fun _ => id) fun _ => .pure kept
  · rintro w' (rfl | ⟨rfl,held,holds,closed⟩)
    · exact kept w' ⟨rfl,rfl⟩
    · exact .inl ⟨rfl,.inr (poison_closed fun t now => by cases holds.symm.trans now; exact closed)⟩
  · rintro w' ⟨rfl,ready,-⟩
    generalize some (object [("threadId",.int threadId),("startFrame",num startFrame),
      ("levels",num (if levels = 0 then 20 else levels))]) = arguments
    have ended := requestWithin_ends "stackTrace".toList arguments before.backend.config.requestTimeout ⟨t,w'.ticks,w'.lost⟩
    simp only [onError,talk,EStateM.run] at ended ⊢
    cases done : requestWithin "stackTrace".toList arguments before.backend.config.requestTimeout ⟨t,w'.ticks,w'.lost⟩ with
    | ok a s =>
      rw [done] at ended
      exact ⟨ended.1,rfl⟩
    | error e s =>
      rw [done] at ended
      dsimp only
      by_cases poisonous : e.code = .timeout ∨ e.code = .qemuFailed
      · rw [if_pos (by simpa using poisonous)]
        show TraceFailed w' (after poison (w'.back s))
        refine .inr ⟨e.code,ended.1,fun _ => rfl,fun gone => poison_closed fun t now => ?_⟩
        cases now
        exact ended.2 gone
      · rw [if_neg (by simpa using poisonous)]
        exact .inr ⟨e.code,ended.1,fun bad => (poisonous bad).elim,fun gone => (poisonous (.inr gone)).elim⟩

-- The operations that do not ask whether the session is ready.
def Op.bypasses : Op → Bool
  | .capabilitiesLayer _ | .setHardwareBreakpoint _ | .prepareTarget => true
  | _ => false

-- The lost requests that an operation answers by poisoning the session, with
-- none sent after them.
def Op.minds : Op → Loss → Bool
  | .stackTrace .., loss => loss.command = "stackTrace".toList && (loss.code = .timeout || loss.code = .qemuFailed)
  | .resume .., loss => loss.command = "stackTrace".toList && loss.code = .qemuFailed
  | .attach _, loss => (loss.command = "configurationDone".toList || loss.command = "attach".toList) && loss.code ≠ .internal
  | _, _ => false

-- What an operation of a session must meet: one that does not ask has a session
-- that is ready, or no adapter to talk to; and the first request it loses is one
-- it minds.
structure Sound (kit : Kit) (sink : Sink) (w : World) (op : Op) : Prop where
  asks : op.bypasses = true → ∀ t, w.backend.transport = some t → t.isClosed = false → w.backend.state = .ready
  minds : ∀ loss, (after (op.perform kit sink) w).lost[w.lost.length]? = some loss → op.minds loss = true

-- A step from `w` whose first lost request is not minded, or one that has kept
-- the session in order.
def Settled (minds : Loss → Bool) (w w' : World) : Prop :=
  (∃ loss, w.lost ++ [loss] <+: w'.lost ∧ minds loss = false) ∨ Kept w' ∧ (w'.lost = w.lost ∨ w'.backend.state = .poisoned)

theorem Settled.unminded (lost : w'.lost = w.lost ++ [loss]) (other : minds loss = false) : Settled minds w w' :=
  .inl ⟨loss,lost ▸ List.prefix_refl _,other⟩

theorem Sound.settles (sound : Sound kit sink w op) (settled : Settled op.minds w (after (op.perform kit sink) w)) :
    Kept (after (op.perform kit sink) w) ∧
      ((after (op.perform kit sink) w).lost = w.lost ∨ (after (op.perform kit sink) w).backend.state = .poisoned) := by
  rcases settled with ⟨loss,⟨more,longer⟩,other⟩ | fine
  · have first := sound.minds loss (by rw [← longer]; simp)
    rw [other] at first
    cases first
  · exact fine

-- An operation that minds no lost request loses none.
theorem Sound.lossless (sound : Sound kit sink w op) (grown : w.lost <+: (after (op.perform kit sink) w).lost)
    (none' : ∀ loss, op.minds loss = false) : (after (op.perform kit sink) w).lost = w.lost := by
  obtain ⟨more,longer⟩ := grown
  cases more with
  | nil => rw [← longer,List.append_nil]
  | cons loss more =>
    have first := sound.minds loss (by rw [← longer]; simp)
    rw [none'] at first
    cases first

theorem emitted_ensures {P : World → Prop} (sink : Sink) (body : EventBody) (still : ∀ w accepted, P w → P {w with accepted:=accepted}) :
    Ensures P (emitted sink body) (fun _ => P) P := by
  refine .zoom fun w start => ?_
  cases (emit sink body).run w.accepted with
  | ok a accepted => exact still w accepted start
  | error e accepted => exact still w accepted start

-- Reading registers costs nothing but its own requests.
def Evaluated (w w' : World) : Prop :=
  w'.backend.state = w.backend.state ∧ ∃ more, w'.lost = w.lost ++ more ∧ ∀ loss ∈ more, loss.command = "evaluate".toList

theorem tryReadRegisters_loses (kit : Kit) (w : World) :
    Ensures (· = w) (tryReadRegisters kit) (fun _ => Evaluated w) (Evaluated w) := by
  refine .bind (Q:=fun w' s => w' = w ∧ s = w) (.get fun s same => ⟨same,same⟩) fun w' => ?_
  rintro s ⟨rfl,rfl⟩
  cases holds : s.backend.transport with
  | none => exact ⟨rfl,[],by simp,by simp⟩
  | some t =>
    have talked : Ensures (· = s) (talk t (readRegisters kit)) (fun _ => Evaluated s) (Evaluated s) :=
      talk_ensures (readRegisters_moves (request_loses _)) fun w' u same lost => same ▸ ⟨rfl,same ▸ lost⟩
    exact Ensures.bind (S:=fun _ => Evaluated s) (.attempt talked) (fun _ => .pure fun _ => id) s rfl

-- Up to the stack trace a resume that goes on has lost nothing.
structure Sailing (w w' : World) : Prop where
  kept : Kept w'
  lost : w'.lost = w.lost
  ready : w'.backend.state = .ready

theorem wait_sails (w : World) : Ensures (Sailing w) (whenLive (waitEvent "stopped".toList)) (fun _ => Sailing w)
    (fun w' => Kept w' ∧ w'.lost = w.lost) := by
  refine .pointwise fun w₁ sailing => .bind ((transportMut_ensures w₁).weaken (fun _ => id) (fun _ _ => id) ?_) fun t => ?_
  · rintro w' rfl
    exact ⟨sailing.kept,sailing.lost⟩
  · have use : Moves (fun a b => Grows a b ∧ b.lost = a.lost) (waitEvent "stopped".toList) := fun s =>
      ⟨waitEvent_grows _ s,(waitEvent_idle _ s).2⟩
    refine (talk_ensures (E:=Sailing w) use ?_).weaken (fun _ => id) (fun _ _ => id) fun w' later => ⟨later.kept,later.lost⟩
    rintro w' s ⟨rfl,holds,-⟩ ⟨grown,lost⟩
    exact ⟨kept_lasting.talked holds (.inr (.inl sailing.ready)) grown sailing.kept,lost.trans sailing.lost,sailing.ready⟩

-- Registers are read after a stack trace that may have failed.
theorem registers_settle (kit : Kit) (sailing : Sailing w w₁) (kept : Kept w₂) (traced : TraceFailed w₁ w₂) :
    Ensures (· = w₂) (tryReadRegisters kit) (fun _ => Settled (Op.resume how threadId).minds w)
      (Settled (Op.resume how threadId).minds w) := by
  have carried : Usable False w₂ → Ensures (· = w₂) (tryReadRegisters kit) (fun _ w' => Carries Kept w₂ w' ∧ Evaluated w₂ w')
      (fun w' => Carries Kept w₂ w' ∧ Evaluated w₂ w') := fun usable =>
    (tryReadRegisters_carries kept_lasting.toStable usable).and (tryReadRegisters_loses kit w₂)
  have evaluated : ∀ loss : Loss, loss.command = "evaluate".toList → (Op.resume how threadId).minds loss = false := by
    intro loss command
    simp only [Op.minds,command]
    rfl
  rcases traced with ⟨lost,quiet⟩ | ⟨code,lost,poisoned,closed⟩
  · have usable : Usable False w₂ := fun t holds => .inr (quiet.imp (fun same => same.trans sailing.ready) fun closed => closed t holds)
    have settles : ∀ w', Carries Kept w₂ w' ∧ Evaluated w₂ w' → Settled (Op.resume how threadId).minds w w' := by
      rintro w' ⟨carries,-,more,longer,only⟩
      have total := longer.trans (by rw [lost,sailing.lost])
      cases more with
      | nil => exact .inr ⟨carries.2 kept,.inl (total.trans (List.append_nil _))⟩
      | cons loss more => exact .inl ⟨loss,⟨more,by simp [total]⟩,evaluated loss (only loss (.head _))⟩
    exact (carried usable).weaken (fun _ => id) (fun _ => settles) settles
  · rw [sailing.lost] at lost
    by_cases gone : code = .qemuFailed
    · have usable : Usable False w₂ := fun t holds => .inr (.inr (closed gone t holds))
      have settles : ∀ w', Carries Kept w₂ w' ∧ Evaluated w₂ w' → Settled (Op.resume how threadId).minds w w' := by
        rintro w' ⟨carries,state,-⟩
        exact .inr ⟨carries.2 kept,.inr (state.trans (poisoned (.inr gone)))⟩
      exact (carried usable).weaken (fun _ => id) (fun _ => settles) settles
    · have settles : ∀ w', Evaluated w₂ w' → Settled (Op.resume how threadId).minds w w' := by
        rintro w' ⟨-,more,longer,-⟩
        exact .inl ⟨_,⟨more,by rw [longer,lost]⟩,by simp [Op.minds,gone]⟩
      exact (tryReadRegisters_loses kit w₂).weaken (fun _ => id) (fun _ => settles) settles

theorem follows_from {x : Act α} (moves : Moves (Carries I) x) (w : World) :
    Ensures (· = w) x (fun _ => Carries I w) (Carries I w) :=
  (Ensures.follows moves w).weaken (fun s same => same ▸ Carries.refl s) (fun _ _ => id) fun _ => id

theorem stoppedPayload_settles (kit : Kit) (event : Message) (reason : StopReason) (how : Resume) (threadId : Option Int) (w : World) :
    Ensures (Sailing w) (stoppedPayload kit event reason) (fun _ => Settled (Op.resume how threadId).minds w)
      (Settled (Op.resume how threadId).minds w) := by
  refine .bind (Q:=fun _ => Sailing w) (.get fun _ => id) fun before => .bind (Q:=fun _ => Sailing w) (.modify ?_) fun _ => ?_
  · rintro s ⟨kept,lost,ready⟩
    exact ⟨kept_lasting.neutral (w:=s) rfl rfl rfl kept,lost,ready⟩
  · refine .pointwise fun w₁ sailing => ?_
    have traced : ∀ thread, Ensures (· = w₁) (attempt (requestStackTrace kit thread 0 1))
        (fun _ w₂ => Kept w₂ ∧ TraceFailed w₁ w₂) (fun _ => False) := fun thread => .attempt
      (((follows_from (requestStackTrace_carries kept_lasting.toStable thread 0 1) w₁).and (stackTrace_loses kit thread 0 1 w₁)).weaken
        (fun _ => id) (fun _ s both => ⟨both.1.2 sailing.kept,both.2⟩) fun s both => ⟨both.1.2 sailing.kept,both.2⟩)
    refine .bind ((traced _).weaken (fun _ => id) (fun _ _ => id) fun _ no => no.elim) fun _ => ?_
    refine .bind (.pointwise fun w₂ both => registers_settle kit sailing both.1 both.2) fun _ => .pure fun _ => id

theorem resume_settles (kit : Kit) (sink : Sink) (what command : String) (extra : List (String × Json)) (how : Resume)
    (threadId : Option Int) (other : command ≠ "stackTrace") (kept : Kept w) :
    Ensures (· = w) (resume kit sink what command extra threadId) (fun _ => Settled (Op.resume how threadId).minds w)
      (Settled (Op.resume how threadId).minds w) := by
  have ended : ∀ w', Kept w' ∧ w'.lost = w.lost → Settled (Op.resume how threadId).minds w w' := fun w' held => .inr ⟨held.1,.inl held.2⟩
  have asked : ∀ arguments, Ensures (· = w) (ask kit what command arguments) (fun _ => Sailing w)
      (Settled (Op.resume how threadId).minds w) := by
    intro arguments
    refine ((ask_loses kit what command arguments w).and (follows_from (ask_carries kept_lasting.toStable what command arguments) w)).weaken
      (fun _ => id) (fun _ s both => ⟨both.2.2 kept,both.1.1,both.1.2⟩) fun s both => ?_
    rcases both.1 with same | ⟨code,lost⟩
    · exact ended s ⟨both.2.2 kept,same⟩
    · have differs : command.toList ≠ "stackTrace".toList := fun same => other (String.toList_inj.mp same)
      exact .unminded lost (by simp only [Op.minds,differs,decide_false,Bool.false_and])
  refine .bind (Q:=fun _ => (· = w)) (.get fun _ => id) fun before => .bind (asked _) fun _ =>
    .bind ((wait_sails w).weaken (fun _ => id) (fun _ _ => id) ended) fun event => ?_
  cases event with
  | none => exact .throw fun s sailing => ended s ⟨sailing.kept,sailing.lost⟩
  | some event =>
    refine .bind ((emitted_ensures (P:=Sailing w) sink _ ?_).weaken (fun _ => id) (fun _ _ => id) fun s sailing =>
      ended s ⟨sailing.kept,sailing.lost⟩) fun _ => stoppedPayload_settles kit event _ how threadId w
    rintro s accepted ⟨kept,lost,ready⟩
    exact ⟨kept_lasting.neutral (w:=s) rfl rfl rfl kept,lost,ready⟩

theorem stackTrace_settles (kit : Kit) (threadId : Int) (startFrame levels : Nat) (kept : Kept w) :
    Ensures (· = w) (stackTrace kit threadId startFrame levels) (fun _ => Settled (Op.stackTrace threadId startFrame levels).minds w)
      (Settled (Op.stackTrace threadId startFrame levels).minds w) := by
  have settles : ∀ w', Carries Kept w w' ∧ TraceFailed w w' → Settled (Op.stackTrace threadId startFrame levels).minds w w' := by
    rintro w' ⟨carries,⟨lost,-⟩ | ⟨code,lost,poisoned,-⟩⟩
    · exact .inr ⟨carries.2 kept,.inl lost⟩
    · by_cases bad : code = .timeout ∨ code = .qemuFailed
      · exact .inr ⟨carries.2 kept,.inr (poisoned bad)⟩
      · exact .unminded lost (by simpa [Op.minds] using bad)
  exact ((follows_from (requestStackTrace_carries kept_lasting.toStable threadId startFrame levels) w).and
    (stackTrace_loses kit threadId startFrame levels w)).weaken (fun _ => id) (fun _ => settles) settles

-- A handshake that goes on has lost nothing, on a transport that works.
structure Shaking (w : World) (h : Handshake) : Prop where
  lost : h.world.lost = w.lost
  opened : h.transport.closed = none

def AttachEnd (w w' : World) : Prop :=
  (∃ loss, w'.lost = w.lost ++ [loss] ∧ (Op.attach localStub).minds loss = false) ∨ w'.lost = w.lost ∨ w'.backend.state = .poisoned

theorem host_shaking {x : Act α} (calm : ∀ w', (after x w').lost = w'.lost) (w : World) :
    Ensures (Shaking w) (host x) (fun _ => Shaking w) (fun h => AttachEnd w h.world) := by
  refine .zoom fun h shaking => ?_
  have same := calm h.world
  cases done : x.run h.world with
  | ok a w' => rw [after_ok done] at same; exact ⟨same.trans shaking.lost,shaking.opened⟩
  | error e w' => rw [after_error done] at same; exact .inr (.inl (same.trans shaking.lost))

theorem poisoning_poisons {P : Handshake → Prop} {x : Shake α} {Q : α → Handshake → Prop} (inner : Ensures P x Q fun _ => True) :
    Ensures P (poisoning x) Q fun h => h.world.backend.state = .poisoned := .onFailure inner (.zoom fun _ _ => rfl)

-- A request of the handshake that is only sent.
theorem send_shaking (command : String) (arguments : Option Json) (w : World) :
    Ensures (Shaking w) (wire (watched command.toList (send command.toList arguments))) (fun _ => Shaking w)
      (fun h => AttachEnd w h.world) := by
  refine .zoom fun h shaking => ?_
  have sent := send_ends command.toList arguments ⟨h.transport,h.world.ticks,h.world.lost⟩
  simp only [EStateM.run,watched] at sent ⊢
  cases done : send command.toList arguments ⟨h.transport,h.world.ticks,h.world.lost⟩ with
  | ok a s =>
    rw [done] at sent
    exact ⟨sent.1.trans shaking.lost,sent.2⟩
  | error e s =>
    rw [done] at sent
    refine .inl ⟨⟨command.toList,e.code⟩,by simp only [sent.1,shaking.lost],?_⟩
    simp [Op.minds,sent.2.2 shaking.opened]

theorem waited_shaking (command : Text) (seq : Int) (timeout : Nat) (w : World) :
    Ensures (Shaking w) (poisoning (wire (watched command (waitResponse seq timeout)))) (fun _ => Shaking w)
      (fun h => AttachEnd w h.world) := by
  refine (poisoning_poisons (.zoom fun h shaking => ?_)).weaken (fun _ => id) (fun _ _ => id) fun h poisoned => .inr (.inr poisoned)
  have waited := waitResponse_ends seq timeout ⟨h.transport,h.world.ticks,h.world.lost⟩
  simp only [EStateM.run,watched] at waited ⊢
  cases done : waitResponse seq timeout ⟨h.transport,h.world.ticks,h.world.lost⟩ with
  | ok a s =>
    rw [done] at waited
    exact ⟨waited.1.trans shaking.lost,waited.2.trans shaking.opened⟩
  | error e s => trivial

theorem hand_lost (result : Except PrincessError α) (w : World) : (after (hand result) w).lost = w.lost := by
  cases result <;> rfl

theorem handshake_ends (kit : Kit) (target : Text) (w : World) :
    Ensures (Shaking w) (handshake kit target) (fun _ h => h.world.lost = w.lost) (fun h => AttachEnd w h.world) := by
  have handed : ∀ result : Except PrincessError Json, Ensures (Shaking w) (host (hand result)) (fun _ => Shaking w)
      (fun h => AttachEnd w h.world) := fun result => host_shaking (hand_lost result) w
  have begun : ∀ arguments timeout, Ensures (Shaking w) (wire (requestWithin "initialize".toList arguments timeout))
      (fun _ => Shaking w) (fun h => AttachEnd w h.world) := by
    intro arguments timeout
    refine .zoom fun h shaking => ?_
    have ended := requestWithin_ends "initialize".toList arguments timeout ⟨h.transport,h.world.ticks,h.world.lost⟩
    cases done : (requestWithin "initialize".toList arguments timeout).run ⟨h.transport,h.world.ticks,h.world.lost⟩ with
    | ok a s =>
      rw [done] at ended
      exact ⟨ended.1.trans shaking.lost,ended.2⟩
    | error e s =>
      rw [done] at ended
      exact .inl ⟨⟨"initialize".toList,e.code⟩,by simp only [ended.1,shaking.lost],rfl⟩
  have stopped' : Ensures (Shaking w) (wire (waitEvent "stopped".toList)) (fun _ h => h.world.lost = w.lost)
      (fun h => AttachEnd w h.world) := by
    refine .zoom fun h shaking => ?_
    have lost := (waitEvent_idle "stopped".toList ⟨h.transport,h.world.ticks,h.world.lost⟩).2
    cases done : (waitEvent "stopped".toList).run ⟨h.transport,h.world.ticks,h.world.lost⟩ with
    | ok a s => rw [after_ok done] at lost; exact lost.trans shaking.lost
    | error e s => rw [after_error done] at lost; exact .inr (.inl (lost.trans shaking.lost))
  refine .bind (Q:=fun _ => Shaking w) (.get fun _ => id) fun _ => .bind (begun _ _) fun _ => .bind (handed _) fun _ =>
    .bind (host_shaking (fun _ => rfl) w) fun _ => .bind (send_shaking "attach" _ w) fun _ =>
    .bind (send_shaking "configurationDone" _ w) fun _ => .bind (waited_shaking _ _ _ w) fun _ => .bind (waited_shaking _ _ _ w) fun _ =>
    .bind ((poisoning_poisons ((handed _).weaken (fun _ => id) (fun _ _ => id) fun _ _ => trivial)).weaken (fun _ => id) (fun _ _ => id)
      fun h poisoned => .inr (.inr poisoned)) fun _ =>
    .bind stopped' fun _ => .bind (Q:=fun _ h => h.world.lost = w.lost) ?_ fun events => ?_
  · exact .zoom fun h lost => lost
  · split
    · exact .zoom fun h lost => lost
    · exact .pure fun _ => id

theorem bringUp_ends {x : Shake PUnit} (inner : Ensures (Shaking w) x (fun _ h => h.world.lost = w.lost) fun h => AttachEnd w h.world) :
    Ensures (fun w' => w'.lost = w.lost ∧ ∃ command, t = spawned command) (bringUp t x) (fun _ w' => w'.lost = w.lost) (AttachEnd w) := by
  rintro w' ⟨lost,command,rfl⟩
  have here := inner ⟨w',spawned command⟩ ⟨lost,rfl⟩
  simp only [bringUp,EStateM.run] at here ⊢
  cases done : x ⟨w',spawned command⟩ with
  | ok a h => rw [done] at here; exact here
  | error e h => rw [done] at here; exact here

theorem attach_ends (kit : Kit) (sink : Sink) (stub : GdbStub) (w : World) :
    Ensures (· = w) (attach kit sink stub) (fun _ => AttachEnd w) (AttachEnd w) := by
  have kept : ∀ s : World, s.lost = w.lost → AttachEnd w s := fun _ lost => .inr (.inl lost)
  have calmly : ∀ {α} {x : Act α}, Moves Calm x →
      Ensures (fun s => s.lost = w.lost) x (fun _ s => s.lost = w.lost) (AttachEnd w) := fun moves =>
    .pointwise fun s lost => (Ensures.follows moves s).weaken (fun t same => same ▸ refl_of Calm t)
      (fun _ t calm => calm.1.trans lost) fun t calm => kept t (calm.1.trans lost)
  refine .bind (Q:=fun _ => (· = w)) (.get fun _ => id) fun before => .bind (Q:=fun _ => (· = w)) (.get fun _ => id) fun now => ?_
  by_cases ready : now.backend.state = .ready
  · simp only [ready,if_true]
    exact .throw fun s same => kept s (same ▸ rfl)
  · simp only [ready,if_false]
    refine .bind (Q:=fun _ s => s.lost = w.lost) (.modify fun s same => same ▸ rfl) fun _ => .bind (calmly (launch_calm sink)) fun _ =>
      .bind (Q:=fun t s => s.lost = w.lost ∧ ∃ command, t = spawned command) (.pointwise fun s lost =>
        (spawnAdapter_calm _ s).weaken (fun t same => same ▸ refl_of Calm t) (fun t s' calm => ⟨calm.1.1.trans lost,calm.2⟩)
          fun t calm => kept t (calm.1.trans lost)) fun t =>
      .bind (bringUp_ends (.bind (host_shaking (fun s => (emitted_calm sink _ s).1) w) fun _ => handshake_ends kit _ w)) fun t =>
      .bind (Q:=fun _ s => s.lost = w.lost) (.modify fun _ => id) fun _ => (calmly (emitted_calm sink _)).weaken (fun _ => id) (fun _ => kept)
        fun _ => id

theorem attach_settles (kit : Kit) (sink : Sink) (stub : GdbStub) (kept : Kept w) :
    Ensures (· = w) (attach kit sink stub) (fun _ => Settled (Op.attach stub).minds w) (Settled (Op.attach stub).minds w) := by
  have settles : ∀ w', Carries Kept w w' ∧ AttachEnd w w' → Settled (Op.attach stub).minds w w' := by
    rintro w' ⟨carries,⟨loss,lost,other⟩ | same⟩
    · exact .unminded lost other
    · exact .inr ⟨carries.2 kept,same⟩
  exact ((follows_from (attach_carries kept_lasting stub) w).and (attach_ends kit sink stub w)).weaken
    (fun _ => id) (fun _ => settles) settles

theorem quietly_ensures {P E : World → Prop} (inner : Ensures P x (fun _ => E) E) : Ensures P (quietly x) (fun _ => E) E :=
  .bind inner fun _ => .pure fun _ => id

-- One operation: a member of the poisoning family settles, one that bypasses the
-- question is asked for a ready session, and what is left loses nothing.
theorem perform_keeps (kept : Kept w) (sound : Sound kit sink w op) : Kept (after (op.perform kit sink) w) ∧
    ((after (op.perform kit sink) w).lost = w.lost ∨ (after (op.perform kit sink) w).backend.state = .poisoned) := by
  have stable := kept_lasting.toStable
  have lossless : (∀ loss, op.minds loss = false) → Carries Kept w (after (op.perform kit sink) w) →
      Kept (after (op.perform kit sink) w) ∧
        ((after (op.perform kit sink) w).lost = w.lost ∨ (after (op.perform kit sink) w).backend.state = .poisoned) :=
    fun none' carries => ⟨carries.2 kept,.inl (sound.lossless carries.1 none')⟩
  have usable : op.bypasses = true → Usable False w := by
    intro bypasses t holds
    cases closed : t.isClosed with
    | true => exact .inr (.inr rfl)
    | false => exact .inr (.inl (sound.asks bypasses t holds closed))
  cases op with
  | attach stub => exact sound.settles (Ensures.after_of (attach_settles kit sink stub kept) rfl)
  | stackTrace threadId startFrame levels =>
    exact sound.settles (Ensures.after_of (quietly_ensures (stackTrace_settles kit threadId startFrame levels kept)) rfl)
  | resume how threadId =>
    refine sound.settles (Ensures.after_of (P:=(· = w)) ?_ rfl)
    cases how <;> exact quietly_ensures (resume_settles kit sink _ _ _ _ threadId (by decide) kept)
  | detach => exact lossless (fun _ => rfl) (detach_carries kept_lasting w)
  | setBreakpoints file breakpoints => exact lossless (fun _ => rfl) (quietly_moves (setBreakpoints_carries stable file breakpoints) w)
  | scopes frameId => exact lossless (fun _ => rfl) (quietly_moves (scopes_carries stable frameId) w)
  | readVariables reference => exact lossless (fun _ => rfl) (quietly_moves (readVariables_carries stable reference) w)
  | readMemory address count => exact lossless (fun _ => rfl) (quietly_moves (readMemory_carries stable address count) w)
  | writeMemory address bytes => exact lossless (fun _ => rfl) (writeMemory_carries stable address bytes w)
  | disassemble address count => exact lossless (fun _ => rfl) (quietly_moves (disassemble_carries stable address count) w)
  | registers => exact lossless (fun _ => rfl) (quietly_moves (registers_carries stable) w)
  | readPhysicalMemory address count =>
    exact lossless (fun _ => rfl) (quietly_moves (readPhysicalMemory_carries stable address count) w)
  | capabilitiesLayer commands =>
    exact lossless (fun _ => rfl) (Ensures.after_of (capabilitiesLayer_carries stable commands (usable rfl)) rfl)
  | setHardwareBreakpoint spec =>
    exact lossless (fun _ => rfl) (Ensures.after_of (quietly_ensures (setHardwareBreakpoint_carries stable spec (usable rfl))) rfl)
  | prepareTarget => exact lossless (fun _ => rfl) (Ensures.after_of (prepareTarget_carries stable (usable rfl)) rfl)

def SoundRun (kit : Kit) (sink : Sink) : World → List Op → Prop
  | _,[] => True
  | w,op :: ops => Sound kit sink w op ∧ SoundRun kit sink (after (op.perform kit sink) w) ops

theorem soundRun_snoc (sound : SoundRun kit sink w (ops ++ [op])) :
    SoundRun kit sink w ops ∧ Sound kit sink (session kit sink w ops) op := by
  induction ops generalizing w with
  | nil => exact ⟨trivial,sound.1⟩
  | cons first ops ih => exact ⟨⟨sound.1,(ih sound.2).1⟩,(ih sound.2).2⟩

theorem session_kept (kept : Kept w) (sound : SoundRun kit sink w ops) : Kept (session kit sink w ops) := by
  induction ops generalizing w with
  | nil => exact kept
  | cons op ops ih => exact ih (perform_keeps kept sound.1).1 sound.2

-- Refused: an error, and nothing else happened.
def Refuses (x : Act α) (w : World) : Prop := ∃ e, x.run w = .error e w

theorem Refuses.bind {f : α → Act β} (refused : Refuses x w) : Refuses (x >>= f) w := by
  obtain ⟨e,here⟩ := refused
  exact ⟨e,by simp only [EStateM.run,Bind.bind,EStateM.bind] at here ⊢; rw [here]⟩

theorem Refuses.get {f : World → Act α} (refused : Refuses (f w) w) : Refuses (MonadState.get >>= f) w := refused

theorem Refuses.after (refused : Refuses x w) : after x w = w := by
  obtain ⟨e,here⟩ := refused
  simp [Effect.after,here]

theorem requireReady_refuses (unready : w.backend.state ≠ .ready) : Refuses (requireReady what) w := by
  unfold Refuses requireReady
  cases state : w.backend.state with
  | ready => exact (unready state).elim
  | poisoned | idle | attaching | detached =>
    simp only [run_get,state]
    exact ⟨_,rfl⟩

theorem transportMut_refuses (closed : Closed w) : Refuses transportMut w := by
  refine ⟨poisonedError "there is no live debug adapter connection".toList,?_⟩
  simp only [transportMut,run_get]
  cases holds : w.backend.transport with
  | none => rfl
  | some t => simp only [closed t holds,if_true]; rfl

-- The operations that may replace or give up the adapter.
def Op.connects : Op → Bool
  | .attach _ | .detach => true
  | _ => false

theorem ask_refuses (kit : Kit) (what command : String) (arguments : Json) (unready : w.backend.state ≠ .ready) :
    Refuses (ask kit what command arguments) w :=
  .get (.bind (.bind (requireReady_refuses unready)))

-- The readiness gate: only connecting, disconnecting and the operations that do
-- not ask get past it.
theorem perform_unready (kit : Kit) (sink : Sink) (op : Op) (asks : op.bypasses = false) (stays : op.connects = false)
    (unready : w.backend.state ≠ .ready) : Refuses (op.perform kit sink) w := by
  have asked := fun what command arguments => ask_refuses kit what command arguments unready
  cases op with
  | attach stub | detach => cases stays
  | capabilitiesLayer commands | setHardwareBreakpoint spec | prepareTarget => cases asks
  | resume how threadId => cases how <;> exact .bind (.get (.bind (asked _ _ _)))
  | stackTrace threadId startFrame levels => exact .bind (.get (.bind (requireReady_refuses unready)))
  | readVariables reference =>
    refine .bind ?_
    unfold readVariables
    split
    · exact .bind (.bind (requireReady_refuses unready))
    · exact .bind (asked _ _ _)
  | setBreakpoints file breakpoints | scopes frameId | readMemory address count | disassemble address count => exact .bind (.bind (asked _ _ _))
  | writeMemory address bytes => exact .bind (asked _ _ _)
  | registers => exact .bind (.bind (.bind (requireReady_refuses unready)))
  | readPhysicalMemory address count => exact .bind (.bind (requireReady_refuses unready))

theorem perform_refuses (sound : Sound kit sink w op) (poisoned : w.backend.state = .poisoned) (stays : op.connects = false) :
    after (op.perform kit sink) w = w := by
  have unready : w.backend.state ≠ .ready := by rw [poisoned]; rintro ⟨⟩
  refine Refuses.after ?_
  cases bypasses : op.bypasses with
  | false => exact perform_unready kit sink op bypasses stays unready
  | true =>
    have closed : Closed w := by
      intro t holds
      cases closed : t.isClosed with
      | true => rfl
      | false => exact (unready (sound.asks bypasses t holds closed)).elim
    cases op with
    | capabilitiesLayer commands => exact .bind (transportMut_refuses closed)
    | setHardwareBreakpoint spec => exact .bind (.bind (transportMut_refuses closed))
    | prepareTarget => exact .get (.bind (.bind (transportMut_refuses closed)))
    | _ => cases bypasses

theorem kept_start (config : DebugSessionConfig) (ticks : List Tick) : Kept (.start config ticks) :=
  ⟨fun _ no => (by cases no),fun _ no => (by cases no),fun _ no => (by cases no)⟩

-- In every session whose steps are sound: after each of them a lost request has
-- the session poisoned; a poisoned session refuses every operation that is not
-- to replace or give up the adapter, which changes nothing; the held transport is
-- marked exactly while its session is not ready; and no transport that was ever
-- marked, held or dropped, had anything but the farewell written since.
theorem poisoned_session (kit : Kit) (sink : Sink) (config : DebugSessionConfig) (ticks : List Tick) (ops : List Op) (op : Op)
    (sound : SoundRun kit sink (.start config ticks) (ops ++ [op])) :
    let w := session kit sink (.start config ticks) ops
    let w' := after (op.perform kit sink) w
    (w'.lost ≠ w.lost → w'.backend.state = .poisoned) ∧
    (w.backend.state = .poisoned → op.connects = false → w' = w) ∧
    (∀ t, w'.backend.transport = some t → (t.poisonedAt = none ↔ w'.backend.state = .ready)) ∧
    ∀ t ∈ w'.transports, Sealed t := by
  intro w w'
  obtain ⟨before,last⟩ := soundRun_snoc sound
  have kept : Kept w := session_kept (kept_start config ticks) before
  obtain ⟨kept',settled⟩ := perform_keeps kept last
  refine ⟨fun more => settled.resolve_left more,perform_refuses last,kept'.clean,fun t member => ?_⟩
  rcases List.mem_append.mp member with held | gone
  · exact kept'.held t (Option.mem_toList.mp held)
  · exact kept'.gone t gone

-- After the handshake the adapter answers no more: a stack trace that is late
-- poisons the session, and the scopes are refused.
def lateTrace : World := session plainKit openSink (attached [hears []]) [.attach localStub,.stackTrace 1 0 0]

theorem poisoned_session_late : lateTrace.backend.state = .poisoned ∧
    after ((Op.scopes 0).perform plainKit openSink) lateTrace = lateTrace := by
  have connected : (session plainKit openSink (attached [hears []]) [.attach localStub]).lost[0]? = none := by decide +kernel
  have traced : lateTrace.lost[(session plainKit openSink (attached [hears []]) [.attach localStub]).lost.length]? =
      some ⟨"stackTrace".toList,.timeout⟩ := by decide +kernel
  have refused : (session plainKit openSink (attached [hears []]) [.attach localStub,.stackTrace 1 0 0,.scopes 0]).lost[
      lateTrace.lost.length]? = none := by decide +kernel
  have poisoned : lateTrace.backend.state = .poisoned := by decide +kernel
  have sound : SoundRun plainKit openSink (attached [hears []]) ([.attach localStub,.stackTrace 1 0 0] ++ [.scopes 0]) :=
    ⟨⟨fun no => (by cases no),fun loss first => (by cases connected.symm.trans first)⟩,
      ⟨fun no => (by cases no),fun loss first => Option.some.inj (traced.symm.trans first) ▸ rfl⟩,
      ⟨fun no => (by cases no),fun loss first => (by cases refused.symm.trans first)⟩,trivial⟩
  exact ⟨poisoned,(poisoned_session plainKit openSink debugConfig (attached [hears []]).ticks [.attach localStub,.stackTrace 1 0 0]
    (.scopes 0) sound).2.1 poisoned rfl⟩

-- Scopes that are late leave the session ready; and after a stack trace that was
-- late `prepareTarget` goes on to talk to the adapter.
def lateScopes : World := session plainKit openSink (attached [hears []]) [.attach localStub,.scopes 0]

theorem half_dead_session : lateScopes.lost = [⟨"scopes".toList,.timeout⟩] ∧ lateScopes.backend.state = .ready ∧
    lateTrace.backend.state = .poisoned ∧
    (after (Op.prepareTarget.perform plainKit openSink) lateTrace).backend.transport.map
      (fun t => (t.poisonedAt,(t.written.drop 4).map (·.command))) = some (some 4,["evaluate".toList]) :=
  ⟨by decide +kernel,by decide +kernel,by decide +kernel,by decide +kernel⟩

end PrincessIDE.Dap
