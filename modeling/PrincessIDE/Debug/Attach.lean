import PrincessIDE.Debug.Poison

namespace PrincessIDE.Dap
open Utf8 Str Error Effect Event

-- The steps of `attach`, each named for what it does.
inductive AttachStep where
  | startQemu
  | spawnAdapter
  | logAdapter
  | initializeAdapter
  | sendAttach
  | sendConfigurationDone
  | configurationDone
  | attachReply
  | attachSuccess
  | firstStop
  | announce
deriving DecidableEq, Repr

abbrev Stage (σ α : Type) := Action σ (AttachStep × PrincessError) α

variable (kit : Kit)

-- `handshake` and `attach` once more, with the step a failure comes from.
def handshakeSteps (target : Text) : Stage Handshake PUnit := do
  let timeout := (← get).world.backend.config.requestTimeout
  let response ← staged .initializeAdapter (wire (requestWithin "initialize".toList (some initializeArguments) timeout))
  let initialized ← staged .initializeAdapter (host (hand (ensureSuccess kit "initialize".toList response)))
  staged .initializeAdapter (host (change fun b => {b with adapterSupports:=initialized.get "body"}))
  let attachSeq ← staged .sendAttach (wire (watched "attach".toList (send "attach".toList (some (object [("target",.str target)])))))
  let configSeq ← staged .sendConfigurationDone (wire (watched "configurationDone".toList (send "configurationDone".toList none)))
  let _ ← staged .configurationDone (poisoning (wire (watched "configurationDone".toList (waitResponse configSeq timeout))))
  let attached ← staged .attachReply (poisoning (wire (watched "attach".toList (waitResponse attachSeq timeout))))
  let _ ← staged .attachSuccess (poisoning (host (hand (ensureSuccess kit "attach".toList attached.value))))
  let _ ← staged .firstStop (wire (waitEvent "stopped".toList))
  let events ← staged .firstStop (wire takeEvents)
  match events.findSome? fun event => (event.value.pointer ["body","threadId"]).bind Json.asI64 with
  | some id => staged .firstStop (host (change fun b => {b with threadId:=id}))
  | none => return ⟨⟩

def bringUpSteps (t : Transport) (x : Stage Handshake PUnit) : Stage World Transport := fun w => match x ⟨w,t⟩ with
  | .ok _ h => .ok h.transport h.world
  | .error e h => .error e {h.world with dropped:=h.transport :: h.world.dropped}

-- What follows once the session is known not to be ready.
def attachSteps (sink : Sink) (stub : GdbStub) (config : DebugSessionConfig) : Stage World PUnit := do
  staged .startQemu (change fun b => {b with state:=.attaching})
  staged .startQemu (launch sink)
  let t ← staged .spawnAdapter (spawnAdapter [config.adapter,"-q".toList,"-i=dap".toList])
  let target := stub.host ++ ":".toList ++ decimal stub.port
  let t ← bringUpSteps t (do
    staged .logAdapter (host (logged sink ("debug adapter: ".toList ++ config.adapter ++ " -q -i=dap\n".toList)))
    handshakeSteps kit target)
  staged .announce (modify (·.adopt t))
  staged .announce (emitted sink (.debugOutput ⟨.console,"attached to ".toList ++ target ++ "\n".toList⟩))

-- What a failure leaves the session in: three of the steps poison it, and the
-- last one comes when it is ready already.
def AttachStep.leaves : AttachStep → SessionState
  | .configurationDone | .attachReply | .attachSuccess => .poisoned
  | .announce => .ready
  | _ => .attaching

-- The adapters that are started before a step.
def AttachStep.adapters : AttachStep → Nat
  | .startQemu | .spawnAdapter => 0
  | _ => 1

-- The step at which an attach fails, if it does at one.
def attachFailure (sink : Sink) (stub : GdbStub) (w : World) : Option AttachStep :=
  if w.backend.state = .ready then none
  else match (attachSteps kit sink stub w.backend.config).run w with
    | .ok _ _ => none
    | .error (step,_) _ => some step

theorem handshake_steps (target : Text) : unstaged (handshakeSteps kit target) = handshake kit target := by
  unfold handshakeSteps handshake
  simp only [unstaged_bind,unstaged_get,unstaged_staged]
  refine bind_congr fun _ => bind_congr fun _ => bind_congr fun _ => bind_congr fun _ => bind_congr fun _ => bind_congr fun _ =>
    bind_congr fun _ => bind_congr fun _ => bind_congr fun _ => bind_congr fun _ => bind_congr fun events => ?_
  cases events.findSome? fun event => (event.value.pointer ["body","threadId"]).bind Json.asI64 with
  | some id => exact unstaged_staged _ _
  | none => rfl

theorem bringUp_steps (t : Transport) (x : Stage Handshake PUnit) : unstaged (bringUpSteps t x) = bringUp t (unstaged x) := by
  funext w
  unfold unstaged bringUpSteps bringUp
  dsimp only
  cases x ⟨w,t⟩ <;> rfl

theorem attach_steps (sink : Sink) (stub : GdbStub) (unready : w.backend.state ≠ .ready) :
    (attach kit sink stub).run w = (unstaged (attachSteps kit sink stub w.backend.config)).run w := by
  unfold attach attachSteps
  simp only [run_get,unready,if_false,unstaged_bind,unstaged_staged,bringUp_steps,handshake_steps]

def World.machines (w : World) : List QemuProcess := w.backend.qemu.toList ++ w.reaped

-- Each machine there was, and each one started since, is stopped or held by the
-- backend, which stops it when it lets go of it.
structure Owned (w w' : World) : Prop where
  kept : ∀ process ∈ w.machines, process ∈ w'.machines
  started : w.started ≤ w'.started
  fresh : ∀ pid, w.started ≤ pid → pid < w'.started → ∃ process ∈ w'.machines, process.pid = pid

theorem Owned.refl (w : World) : Owned w w := ⟨fun _ => id,Nat.le_refl _,fun _ low high => (Nat.not_lt_of_le low high).elim⟩

theorem Owned.still (owned : Owned w u) (machines : ∀ process ∈ u.machines, process ∈ v.machines) (started : v.started = u.started) : Owned w v where
  kept process member := machines process (owned.kept process member)
  started := started ▸ owned.started
  fresh pid low high := by
    obtain ⟨process,member,same⟩ := owned.fresh pid low (started ▸ high)
    exact ⟨process,machines process member,same⟩

-- An attach on its way, with so many adapters more than there were.
structure Underway (w : World) (phase : SessionState) (adapters : Nat) (w' : World) : Prop where
  owned : Owned w w'
  adapters : w'.transports.length = w.transports.length + adapters
  state : w'.backend.state = phase

theorem Underway.still (underway : Underway w phase n u) (machines : v.machines = u.machines) (started : v.started = u.started)
    (transports : v.transports.length = u.transports.length) (same : v.backend.state = u.backend.state) : Underway w phase n v where
  owned := underway.owned.still (fun _ => machines ▸ id) started
  adapters := transports.trans underway.adapters
  state := same.trans underway.state

theorem emitted_underway (sink : Sink) (body : EventBody) :
    Ensures (Underway w phase n) (emitted sink body) (fun _ => Underway w phase n) (Underway w phase n) :=
  emitted_ensures sink body fun _ _ underway => underway.still rfl rfl rfl rfl

theorem hostTick_underway : Ensures (Underway w phase n) hostTick (fun _ => Underway w phase n) (Underway w phase n) := by
  intro u underway
  unfold hostTick
  simp only [EStateM.run]
  cases u.ticks with
  | nil => exact underway
  | cons tick rest =>
    refine underway.still rfl rfl ?_ rfl
    cases held : u.backend.transport <;> simp [World.transports,World.reach,held]

-- A machine just started is in no one's hands: it will be stopped or held.
def Starting (w : World) (phase : SessionState) (n : Nat) (process : QemuProcess) (u : World) : Prop :=
  Underway w phase n {u with reaped:=process :: u.reaped}

theorem startQemu_underway (command : QemuCommand) :
    Ensures (Underway w phase n) (startQemu command) (fun process => Starting w phase n process) (Underway w phase n) := by
  unfold startQemu
  split
  · exact .throw fun _ => id
  · refine .bind hostTick_underway fun tick => ?_
    split
    · exact .throw fun _ => id
    · exact .throw fun _ => id
    · exact .throw fun _ => id
    · intro u underway
      refine ⟨⟨fun process member => ?_,Nat.le_succ_of_le underway.owned.started,fun pid low high => ?_⟩,underway.adapters,underway.state⟩
      · have inside := underway.owned.kept process member
        simp only [World.machines,List.mem_append,List.mem_cons] at inside ⊢
        tauto
      · rcases Nat.lt_succ_iff_lt_or_eq.mp high with earlier | same
        · obtain ⟨process,member,own⟩ := underway.owned.fresh pid low earlier
          refine ⟨process,?_,own⟩
          simp only [World.machines,List.mem_append,List.mem_cons] at member ⊢
          tauto
        · exact ⟨_,List.mem_append_right _ List.mem_cons_self,same.symm⟩

theorem launch_underway (sink : Sink) :
    Ensures (Underway w phase n) (launch sink) (fun _ => Underway w phase n) (Underway w phase n) := by
  refine .bind (Q:=fun _ => Underway w phase n) (.get fun _ => id) fun before => ?_
  dsimp only
  split
  · exact .pure fun _ => id
  · refine .bind (emitted_underway sink _) fun _ => .bind (startQemu_underway _) fun process => .bind (Q:=fun _ => Starting w phase n process) ?_
      fun _ => .modify fun u starting => ?_
    · have announced : Ensures (Starting w phase n process) (logged sink ("qemu pid ".toList ++ decimal process.pid ++
          " is up; GDB stub listening\n".toList)) (fun _ => Starting w phase n process) (Starting w phase n process) :=
        emitted_ensures sink _ fun _ _ underway => underway.still rfl rfl rfl rfl
      exact .onFailure announced (.modify fun _ => id)
    · refine ⟨starting.owned.still (fun other member => ?_) rfl,starting.adapters,starting.state⟩
      simp only [World.machines,List.mem_append,List.mem_cons,Option.toList_some,List.not_mem_nil,or_false] at member ⊢
      tauto

theorem spawnAdapter_underway (argv : List Text) :
    Ensures (Underway w phase n) (spawnAdapter argv) (fun _ => Underway w phase n) (Underway w phase n) := by
  refine .bind hostTick_underway fun tick => ?_
  split
  · exact .throw fun _ => id
  · exact .throw fun _ => id
  · exact .pure fun _ => id

-- While the handshake runs the transport is its own; the world goes on as it was.
def Holding (w : World) (phase : SessionState) (h : Handshake) : Prop := Underway w phase 0 h.world

theorem wire_holding (x : Wire α) : Ensures (Holding w phase) (wire x) (fun _ => Holding w phase) (Holding w phase) := by
  refine .zoom fun h holding => ?_
  cases x.run ⟨h.transport,h.world.ticks,h.world.lost⟩ <;> exact Underway.still holding rfl rfl rfl rfl

theorem host_holding {x : Act α} (inner : Ensures (Underway w phase 0) x (fun _ => Underway w phase 0) (Underway w phase 0)) :
    Ensures (Holding w phase) (host x) (fun _ => Holding w phase) (Holding w phase) := by
  refine .zoom fun h holding => ?_
  have here := inner h.world holding
  cases done : x.run h.world with
  | ok a t => rw [done] at here; exact here
  | error e t => rw [done] at here; exact here

theorem change_underway {f : DapBackend → DapBackend} (qemu : ∀ b, (f b).qemu = b.qemu) (transport : ∀ b, (f b).transport = b.transport)
    (state : ∀ b, (f b).state = b.state) :
    Ensures (Underway w phase n) (change f) (fun _ => Underway w phase n) (Underway w phase n) := by
  refine .modify fun u underway => underway.still ?_ rfl ?_ (state u.backend)
  · simp [World.machines,qemu]
  · simp [World.transports,transport]

theorem hand_underway (result : Except PrincessError α) :
    Ensures (Underway w phase n) (hand result) (fun _ => Underway w phase n) (Underway w phase n) :=
  hand_ensures (fun _ => id) result

theorem poisoning_holding {x : Shake α} (inner : Ensures (Holding w phase) x (fun _ => Holding w phase) (Holding w phase)) :
    Ensures (Holding w phase) (poisoning x) (fun _ => Holding w phase) (Holding w .poisoned) := by
  refine .onFailure inner (.zoom fun h holding => ⟨Owned.still holding.owned (fun _ => id) rfl,?_,rfl⟩)
  have adapters := holding.adapters
  cases held : h.world.backend.transport <;> simpa [World.transports,held] using adapters

-- A failure once the adapter is started and before the session has it.
def Shaken (w : World) (failure : AttachStep × PrincessError) (h : Handshake) : Prop :=
  Holding w failure.1.leaves h ∧ failure.1.adapters = 1

theorem staged_shaken {x : Shake α} (step : AttachStep)
    (inner : Ensures (Holding w .attaching) x (fun _ => Holding w .attaching) (Holding w step.leaves)) (late : step.adapters = 1) :
    Ends (Holding w .attaching) (staged step x) (fun _ => Holding w .attaching) (Shaken w) :=
  .staged inner fun _ _ holding => ⟨holding,late⟩

theorem handshake_underway (target : Text) (w : World) :
    Ends (Holding w .attaching) (handshakeSteps kit target) (fun _ => Holding w .attaching) (Shaken w) := by
  refine .bind (Q:=fun _ => Holding w .attaching) (.get fun _ => id) fun _ =>
    .bind (staged_shaken .initializeAdapter (wire_holding _) rfl) fun _ =>
    .bind (staged_shaken .initializeAdapter (host_holding (hand_underway _)) rfl) fun _ =>
    .bind (staged_shaken .initializeAdapter (host_holding (change_underway ?_ ?_ ?_)) rfl) fun _ =>
    .bind (staged_shaken .sendAttach (wire_holding _) rfl) fun _ =>
    .bind (staged_shaken .sendConfigurationDone (wire_holding _) rfl) fun _ =>
    .bind (staged_shaken .configurationDone (poisoning_holding (wire_holding _)) rfl) fun _ =>
    .bind (staged_shaken .attachReply (poisoning_holding (wire_holding _)) rfl) fun _ =>
    .bind (staged_shaken .attachSuccess (poisoning_holding (host_holding (hand_underway _))) rfl) fun _ =>
    .bind (staged_shaken .firstStop (wire_holding _) rfl) fun _ =>
    .bind (staged_shaken .firstStop (wire_holding _) rfl) fun events => ?_
  · exact fun _ => rfl
  · exact fun _ => rfl
  · exact fun _ => rfl
  · cases events.findSome? fun event => (event.value.pointer ["body","threadId"]).bind Json.asI64 with
    | some id => exact staged_shaken .firstStop (host_holding (change_underway (fun _ => rfl) (fun _ => rfl) fun _ => rfl)) rfl
    | none => exact .pure fun _ => id

def Failed (w : World) (failure : AttachStep × PrincessError) (w' : World) : Prop :=
  Underway w failure.1.leaves failure.1.adapters w'

theorem staged_failed {x : Act α} {P : World → Prop} {Q : α → World → Prop} (step : AttachStep)
    (inner : Ensures P x Q (Underway w step.leaves step.adapters)) : Ends P (staged step x) Q (Failed w) :=
  .staged inner fun _ _ => id

-- A transport the handshake fails with is dropped, and its adapter shut down.
theorem bringUp_underway {x : Stage Handshake PUnit} (inner : Ends (Holding w .attaching) x (fun _ => Holding w .attaching) (Shaken w))
    (t : Transport) :
    Ends (Underway w .attaching 0) (bringUpSteps t x) (fun _ => Underway w .attaching 0) (Failed w) := by
  intro u underway
  have here := inner ⟨u,t⟩ underway
  simp only [EStateM.run,bringUpSteps] at here ⊢
  cases done : x ⟨u,t⟩ with
  | ok a h => rw [done] at here; exact here
  | error failure h =>
    rw [done] at here
    obtain ⟨holding,late⟩ := here
    refine ⟨holding.owned.still (fun _ => id) rfl,?_,holding.state⟩
    have adapters := holding.adapters
    rw [late]
    simp only [World.transports,List.length_append,List.length_cons] at adapters ⊢
    omega

theorem attach_fails (sink : Sink) (stub : GdbStub) (config : DebugSessionConfig) (w : World) :
    Ends (· = w) (attachSteps kit sink stub config) (fun _ => Underway w .ready 1) (Failed w) := by
  refine .bind (Q:=fun _ => Underway w .attaching 0) (staged_failed .startQemu (.modify ?_)) fun _ =>
    .bind (staged_failed .startQemu (launch_underway sink)) fun _ => .bind (staged_failed .spawnAdapter (spawnAdapter_underway _)) fun t =>
    .bind (bringUp_underway (.bind (staged_shaken .logAdapter (host_holding (emitted_underway sink _)) rfl) fun _ =>
      handshake_underway kit _ w) t) fun t => .bind (Q:=fun _ => Underway w .ready 1)
      (staged_failed .announce (.modify ?_)) fun _ => staged_failed .announce (emitted_underway sink _)
  · rintro u rfl
    exact ⟨(Owned.refl u).still (fun _ => id) rfl,rfl,rfl⟩
  · intro u underway
    refine ⟨underway.owned.still (fun _ => id) rfl,?_,rfl⟩
    have adapters := underway.adapters
    simp only [World.transports,World.adopt,List.length_append,Option.toList_some,List.length_cons,List.length_nil] at adapters ⊢
    omega

-- What a failed attach must leave: a session that is poisoned, or detached with
-- nothing in its hands, and every machine and adapter that was ever started
-- either stopped or held by the session.
def LeftClean (step : AttachStep) (w w' : World) : Prop :=
  (w'.backend.state = .poisoned ∨
    w'.backend.state = .detached ∧ w'.backend.qemu = none ∧ w'.backend.transport = none) ∧
  w'.backend.state ≠ .attaching ∧ Owned w w' ∧ w'.transports.length = w.transports.length + step.adapters

-- For every attach that fails at one of its steps: no machine and no adapter is
-- ever without an owner, and the session is left clean exactly after the three
-- steps that wait for the adapter's word; after the last step it is ready, and
-- after all the others it goes on attaching.
theorem attach_failure (sink : Sink) (stub : GdbStub) (w : World) (step : AttachStep) (fails : attachFailure kit sink stub w = some step) :
    let w' := after (attach kit sink stub) w
    (∃ e, answer (attach kit sink stub) w = .error e) ∧ Owned w w' ∧ w'.transports.length = w.transports.length + step.adapters ∧
    w'.backend.state = step.leaves ∧
    (LeftClean step w w' ↔ step = .configurationDone ∨ step = .attachReply ∨ step = .attachSuccess) := by
  intro w'
  unfold attachFailure at fails
  split at fails
  · cases fails
  · rename_i unready
    have ended := attach_fails kit sink stub w.backend.config w w rfl
    have same := attach_steps kit sink stub unready
    cases done : (attachSteps kit sink stub w.backend.config).run w with
    | ok a u => rw [done] at fails; cases fails
    | error failure u =>
      obtain ⟨at',e⟩ := failure
      rw [done] at fails ended
      obtain rfl : at' = step := by simpa using fails
      have run : (attach kit sink stub).run w = .error e u := by
        rw [same]
        simp only [EStateM.run,unstaged] at done ⊢
        rw [done]
      have left : w' = u := by
        show after (attach kit sink stub) w = u
        rw [after,run]
      rw [left]
      refine ⟨⟨e,by rw [answer,run]⟩,ended.owned,ended.adapters,ended.state,?_⟩
      have state := ended.state
      constructor
      · rintro ⟨poisoned | ⟨detached,-⟩,-⟩ <;> cases at' <;> simp_all [AttachStep.leaves]
      · intro minds
        have poisoned : u.backend.state = .poisoned := by rcases minds with rfl | rfl | rfl <;> exact state
        exact ⟨.inl poisoned,by simp [poisoned],ended.owned,ended.adapters⟩

-- An adapter that takes the three requests and answers only the first.
def halfShaken : World := .start debugConfig [hears [],hears [],hears [reply 1],hears [],hears [],overdue]

theorem attach_failure_late : (after (attach plainKit openSink localStub) halfShaken).backend.state = .poisoned ∧
    LeftClean .configurationDone halfShaken (after (attach plainKit openSink localStub) halfShaken) := by
  have failed := attach_failure plainKit openSink localStub halfShaken .configurationDone (by decide +kernel)
  exact ⟨failed.2.2.2.1,failed.2.2.2.2.mpr (.inl rfl)⟩

-- An adapter that answers nothing.
def unshaken : World := .start debugConfig [hears [],hears [],overdue]

theorem attach_stuck : attachFailure plainKit openSink localStub unshaken = some .initializeAdapter ∧
    (after (attach plainKit openSink localStub) unshaken).backend.state = .attaching ∧
    ¬ LeftClean .initializeAdapter unshaken (after (attach plainKit openSink localStub) unshaken) := by
  have attaching : (after (attach plainKit openSink localStub) unshaken).backend.state = .attaching := by decide +kernel
  exact ⟨by decide +kernel,attaching,fun clean => clean.2.1 attaching⟩

end PrincessIDE.Dap
