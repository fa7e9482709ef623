import PrincessIDE.Core.Error
import PrincessIDE.Foundation.Loop
import PrincessIDE.Foundation.Str
import PrincessIDE.Run.Reader

namespace PrincessIDE.Process
open Utf8 Reader Error Loop

structure ProcessOutcome where
  exitCode : Option Int
  signal : Option Int
  timedOut : Bool
  cancelled : Bool
  wallMs : Nat
  groupDead : Bool
deriving DecidableEq, Repr

structure ExitStatus where
  code : Option Int
  signal : Option Int
deriving DecidableEq, Repr

inductive Signal where
  | term
  | kill
deriving DecidableEq, Repr

-- What a run did to the child's process group and what it learned of it.
inductive Deed where
  -- a `kill` call on the group
  | signalled (signal : Signal)
  -- a scan of the group that found no running member
  | quiet
  -- the exit status of the direct child
  | reaped
  -- the last chunk of a pipe, which its reader sends at the end of the pipe
  | ended (pipe : Pipe)
deriving DecidableEq, Repr

-- The operating system never numbers a child 0.
structure Child where
  pgid : Nat
  positive : 0 < pgid
deriving DecidableEq, Repr

inductive KillAnswer where
  | delivered
  | noSuchProcess
  | failed (message : Text)
deriving DecidableEq, Repr

def killGroup (pgid : Nat) (signal : Signal) (answer : KillAnswer) : Except PrincessError Unit × List Deed :=
  if pgid = 0 then
    (.error (.internal "refusing to signal process group 0 (would signal the engine itself)".toList),[])
  else match answer with
    | .delivered => (.ok (),[.signalled signal])
    | .noSuchProcess => (.ok (),[.signalled signal])
    | .failed err =>
      (.error (.internal ("cannot signal process group ".toList ++ Str.decimal pgid ++ ": ".toList ++ err)),[.signalled signal])

-- What the scans and the `kill` calls of one `kill_group_blocking` answer.
structure Blocking where
  alive : Bool
  term : KillAnswer
  goneAfterTerm : Bool
  kill : KillAnswer
  goneAfterKill : Bool
deriving DecidableEq, Repr

def killGroupBlocking (pgid : Nat) (w : Blocking) : Except PrincessError Unit × List Deed :=
  if w.alive = false then (.ok (),[.quiet])
  else match killGroup pgid .term w.term with
    | (.error e,deeds) => (.error e,deeds)
    | (.ok _,termed) =>
      if w.goneAfterTerm then (.ok (),termed ++ [.quiet])
      else match killGroup pgid .kill w.kill with
        | (.error e,deeds) => (.error e,termed ++ deeds)
        | (.ok _,killed) =>
          if w.goneAfterKill then (.ok (),termed ++ killed ++ [.quiet])
          else (.error (.new .qemuFailed ("process group ".toList ++ Str.decimal pgid ++
            " still has running members after SIGKILL".toList)),termed ++ killed)

-- SIGTERM, then SIGKILL, both answers ignored.
def killBoth (child : Child) (answer : KillAnswer) : List Deed :=
  (killGroup child.pgid .term answer).2 ++ (killGroup child.pgid .kill answer).2

inductive Waited where
  | running
  | exited (status : ExitStatus)
  | failed (message : Text)
deriving DecidableEq, Repr

inductive Received where
  | chunk (chunk : StreamChunk)
  | timeout
  | disconnected
deriving DecidableEq, Repr

-- What one iteration of the wait loop is answered: `try_wait`, the cancel
-- token, the clock at its three readings, the channel and the tee file.
structure Tick where
  waited : Waited
  blocking : Blocking
  cancelled : Bool
  checkedAt : Nat
  kill : KillAnswer
  received : Received
  receivedAt : Nat
  written : Except Text Unit
  drainedAt : Nat

structure Watch where
  timedOut : Bool
  cancelled : Bool
  killDone : Bool
  status : Option ExitStatus
  eofSeen : Nat
  lastEof : Nat
  tee : Option Text
  teed : Nat
  chunks : List StreamChunk
  deeds : List Deed
deriving DecidableEq, Repr

inductive Left where
  | broke
  | failed (e : PrincessError)
deriving DecidableEq, Repr

-- Both pipes of the child are piped, so it has two readers.
def readers : Nat := 2

structure Plan where
  child : Child
  deadline : Option Nat
  drainGrace : Nat
deriving DecidableEq, Repr

def reap (p : Plan) (s : Watch) (t : Tick) : Except PrincessError Unit × Watch :=
  if s.status = none then match t.waited with
    | .exited status => (.ok (),{s with status:=some status,deeds:=s.deeds++[.reaped]})
    | .running => (.ok (),s)
    | .failed err =>
      (.error (.new .qemuFailed ("cannot wait for the emulator: ".toList ++ err)),
        {s with deeds:=s.deeds++(killGroupBlocking p.child.pgid t.blocking).2})
  else (.ok (),s)

def expired (p : Plan) (t : Tick) : Bool := match p.deadline with
  | some limit => limit ≤ t.checkedAt
  | none => false

def killCancelled (p : Plan) (s : Watch) (t : Tick) : Watch :=
  if t.cancelled && !s.cancelled then
    {s with cancelled:=true,killDone:=true,deeds:=s.deeds++killBoth p.child t.kill}
  else s

def killExpired (p : Plan) (s : Watch) (t : Tick) : Watch :=
  if expired p t && !s.timedOut then
    {s with timedOut:=true,killDone:=true,deeds:=s.deeds++killBoth p.child t.kill}
  else s

def enforce (p : Plan) (s : Watch) (t : Tick) : Watch :=
  if s.status = none ∧ s.killDone = false then killExpired p (killCancelled p s t) t else s

def seeEof (s : Watch) (c : StreamChunk) (t : Tick) : Watch :=
  if c.atEof then {s with eofSeen:=s.eofSeen+1,lastEof:=t.receivedAt,deeds:=s.deeds++[.ended c.pipe]} else s

def deliver (s : Watch) (c : StreamChunk) (t : Tick) : Except PrincessError Unit × Watch :=
  let s := seeEof s c t
  if c.text = [] then (.ok (),s)
  else match c.pipe,s.tee with
    | .serial,some file => match t.written with
      | .error err => (.error (.internal ("cannot write the serial log: ".toList ++ err)),s)
      | .ok _ => (.ok (),{s with tee:=some (file++c.text),teed:=s.teed+(encode c.text).length,chunks:=s.chunks++[c]})
    | _,_ => (.ok (),{s with chunks:=s.chunks++[c]})

def settle (p : Plan) (s : Watch) (t : Tick) : Turn Watch Left :=
  if readers ≤ s.eofSeen ∧ s.status.isSome ∧ p.drainGrace ≤ t.drainedAt - s.lastEof then .leave .broke s else .next s

def receive (p : Plan) (s : Watch) (t : Tick) : Turn Watch Left :=
  match t.received with
  | .disconnected => .leave .broke s
  | .timeout => settle p s t
  | .chunk c => match deliver s c t with
    | (.error e,s) => .leave (.failed e) s
    | (.ok _,s) => settle p s t

def turn (p : Plan) (s : Watch) (t : Tick) : Turn Watch Left :=
  match reap p s t with
  | (.error e,s) => .leave (.failed e) s
  | (.ok _,s) => receive p (enforce p s t) t

def begin (tee : Option Text) (now : Nat) : Watch := ⟨false,false,false,none,0,now,tee,0,[],[]⟩

structure RunnerConfig where
  flushEvery : Nat
  drainGrace : Nat
  killGrace : Nat
deriving DecidableEq, Repr

structure SpawnSpec where
  argv : List Text
  cwd : Text
  timeout : Option Nat
  serialTee : Option Text
deriving DecidableEq, Repr

inductive SpawnFailure where
  | notFound
  | permissionDenied
  | other
deriving DecidableEq, Repr

-- Everything a run is answered, from the spawn to the final scans.
structure World where
  spawned : Except (SpawnFailure × Text) Child
  created : Except Text Unit
  createBlocking : Blocking
  started : Nat
  ticks : List Tick
  kill : KillAnswer
  waited : Except Text ExitStatus
  alive : Bool
  aliveAfterKill : Bool
  wallMs : Nat

def spawnError (spec : SpawnSpec) (failure : SpawnFailure) (err : Text) : PrincessError :=
  let code := match failure with
    | .notFound => ErrorCode.toolchainMissing
    | .permissionDenied => .sandboxDenied
    | .other => .qemuFailed
  (PrincessError.new code ("cannot execute ".toList ++ spec.argv.headD [] ++ ": ".toList ++ err)).withDetail
    ("cwd: ".toList ++ spec.cwd)

-- Behind the loop: kill what was not reaped, reap, scan. Joining the readers
-- takes time and changes nothing here.
def finish (child : Child) (s : Watch) (w : World) : Except PrincessError ProcessOutcome × Watch :=
  let s := if s.status = none then {s with deeds:=s.deeds++killBoth child w.kill} else s
  match (match s.status with
    | some status => Except.ok status
    | none => w.waited) with
  | .error err => (.error (.new .qemuFailed ("cannot reap the emulator: ".toList ++ err)),s)
  | .ok status =>
    let s := {s with
      status:=some status,
      deeds:=s.deeds ++ .reaped :: if w.alive then (killGroup child.pgid .kill w.kill).2 else [.quiet]}
    (.ok {
      exitCode:=status.code,
      signal:=status.signal,
      timedOut:=s.timedOut,
      cancelled:=s.cancelled,
      wallMs:=w.wallMs,
      groupDead:=!w.alive || !w.aliveAfterKill},s)

def plan (cfg : RunnerConfig) (spec : SpawnSpec) (child : Child) (w : World) : Plan :=
  ⟨child,spec.timeout.map (w.started + ·),cfg.drainGrace⟩

def teeOf (spec : SpawnSpec) : Option Text := spec.serialTee.map (fun _ => [])

def supervise (cfg : RunnerConfig) (spec : SpawnSpec) (child : Child) (w : World) :
    Option (Except PrincessError ProcessOutcome) × Watch :=
  match spec.serialTee,w.created with
  | some path,.error err =>
    (some (.error (.internal ("cannot create the serial log ".toList ++ path ++ ": ".toList ++ err))),
      {begin (teeOf spec) w.started with deeds:=(killGroupBlocking child.pgid w.createBlocking).2 ++
        if w.waited.isOk then [.reaped] else []})
  | _,_ => match loop (turn (plan cfg spec child w)) (begin (teeOf spec) w.started) w.ticks with
    | (none,s,_) => (none,s)
    | (some (.failed e),s,_) => (some (.error e),s)
    | (some .broke,s,_) => ((some (finish child s w).1),(finish child s w).2)

-- No result means that the run has not returned within the answers given.
def run (cfg : RunnerConfig) (spec : SpawnSpec) (w : World) : Option (Except PrincessError ProcessOutcome) × Watch :=
  let idle := begin none w.started
  if spec.argv = [] then (some (.error (.internal "run plan has an empty argv: nothing to execute".toList)),idle)
  else match w.spawned with
    | .error (failure,err) => (some (.error (spawnError spec failure err)),idle)
    | .ok child => supervise cfg spec child w

@[simp] theorem killGroup_deeds (child : Child) (signal : Signal) (answer : KillAnswer) :
    (killGroup child.pgid signal answer).2 = [.signalled signal] := by
  have positive : child.pgid ≠ 0 := Nat.ne_of_gt child.positive
  cases answer <;> simp [killGroup,positive]

@[simp] theorem killBoth_deeds (child : Child) (answer : KillAnswer) :
    killBoth child answer = [.signalled .term,.signalled .kill] := by
  simp [killBoth]

theorem killGroupBlocking_deeds (child : Child) (w : Blocking) :
    .quiet ∈ (killGroupBlocking child.pgid w).2 ∨ .signalled .term ∈ (killGroupBlocking child.pgid w).2 := by
  unfold killGroupBlocking
  split
  · exact .inl (by simp)
  · have termed := killGroup_deeds child .term w.term
    right
    split
    · rename_i asked; rw [asked] at termed; simp_all
    · rename_i asked; rw [asked] at termed
      dsimp only at termed
      split
      · simp [termed]
      · split
        · simp [termed]
        · split <;> simp [termed]

-- What the iterations of a run saw, whatever the runner made of it.
def Observes (p : Plan) (t : Tick) : Prop := t.cancelled = true ∨ expired p t = true

def Exits (t : Tick) : Prop := ∃ status, t.waited = .exited status

def Exited (seen : List Tick) : Prop := ∃ t ∈ seen, Exits t

def FailsWait (seen : List Tick) (t : Tick) : Prop := ¬ Exited seen ∧ ∃ err, t.waited = .failed err

def Ends (pipe : Pipe) (t : Tick) : Prop := ∃ c, t.received = .chunk c ∧ c.pipe = pipe ∧ c.atEof = true

def Ended (pipe : Pipe) (seen : List Tick) : Prop := ∃ t ∈ seen, Ends pipe t

-- Some iteration found the deadline passed or the token set while the child
-- was not yet reported as exited.
def Caught (p : Plan) (seen : List Tick) : Prop :=
  ∃ before t after, seen = before ++ t :: after ∧ Observes p t ∧ ¬ Exited (before++[t])

theorem exited_snoc : Exited (seen++[t]) ↔ Exited seen ∨ Exits t := by simp [Exited,or_and_right,exists_or]

theorem ended_snoc : Ended pipe (seen++[t]) ↔ Ended pipe seen ∨ Ends pipe t := by
  simp [Ended,or_and_right,exists_or]

theorem caught_snoc : Caught p (seen++[t]) ↔ Caught p seen ∨ (Observes p t ∧ ¬ Exited (seen++[t])) := ahead_snoc

-- The flags and deeds of the loop, as what was seen so far determines them.
structure Facts (exited caught : Prop) (ended : Pipe → Prop) (s : Watch) : Prop where
  status : s.status ≠ none ↔ exited
  reaped : .reaped ∈ s.deeds ↔ exited
  killDone : s.killDone = true ↔ caught
  signalled : ∀ g, .signalled g ∈ s.deeds ↔ caught
  quiet : .quiet ∉ s.deeds
  ended : ∀ pipe, .ended pipe ∈ s.deeds ↔ ended pipe
  cancelled : s.cancelled = true → s.killDone = true
  timedOut : s.timedOut = true → s.killDone = true

theorem Facts.congr (facts : Facts e c d s) (exited : e ↔ e') (caught : c ↔ c') (ended : ∀ pipe, d pipe ↔ d' pipe) :
    Facts e' c' d' s :=
  ⟨facts.status.trans exited,facts.reaped.trans exited,facts.killDone.trans caught,
    fun g => (facts.signalled g).trans caught,facts.quiet,fun pipe => (facts.ended pipe).trans (ended pipe),
    facts.cancelled,facts.timedOut⟩

theorem begin_facts (tee : Option Text) (now : Nat) : Facts (Exited []) (Caught p []) (fun pipe => Ended pipe []) (begin tee now) := by
  constructor <;> simp [begin,Exited,Caught,Ended]

theorem reap_facts (facts : Facts e c d s) (waited : (reap p s t).1 = .ok ()) : Facts (e ∨ Exits t) c d (reap p s t).2 := by
  unfold reap at waited ⊢
  split at waited
  · rename_i waiting
    rw [if_pos waiting]
    have running : ¬ e := fun exited => facts.status.mpr exited waiting
    cases answer : t.waited with
    | exited status =>
      have exits : Exits t := ⟨status,answer⟩
      constructor <;> simp [exits,facts.killDone,facts.signalled,facts.quiet,facts.ended]
      · exact fun h => facts.killDone.mp (facts.cancelled h)
      · exact fun h => facts.killDone.mp (facts.timedOut h)
    | running => exact facts.congr (by simp [Exits,answer]) .rfl (fun _ => .rfl)
    | failed err => simp [answer] at waited
  · rename_i reaped
    rw [if_neg reaped]
    have exited : e := facts.status.mp reaped
    exact facts.congr (by simp [exited]) .rfl (fun _ => .rfl)

-- A kill sets its flag and issues both signals, whatever was known before.
theorem killed_facts (facts : Facts e c d s) (flags : s'.status = s.status) (killed : s'.killDone = true)
    (deeds : s'.deeds = s.deeds ++ [Deed.signalled .term,.signalled .kill]) (caught : c') : Facts e c' d s' := by
  constructor
  · rw [flags]; exact facts.status
  · simpa [deeds] using facts.reaped
  · simp [killed,caught]
  · intro g; cases g <;> simp [deeds,caught]
  · simpa [deeds] using facts.quiet
  · simpa [deeds] using facts.ended
  · exact fun _ => killed
  · exact fun _ => killed

theorem killCancelled_facts (facts : Facts e c d s) (fresh : s.killDone = false) :
    Facts e (c ∨ t.cancelled = true) d (killCancelled p s t) := by
  have unflagged : s.cancelled = false := by
    by_contra flagged
    simpa [fresh] using facts.cancelled (by simpa using flagged)
  unfold killCancelled
  split
  · rename_i set
    exact killed_facts facts rfl rfl (by simp) (.inr (by simp_all))
  · rename_i clear
    have clear : ¬ t.cancelled = true := by simpa [unflagged] using clear
    exact facts.congr .rfl (by simp [clear]) (fun _ => .rfl)

theorem killExpired_facts (facts : Facts e c d s) (flags : s.timedOut = false) :
    Facts e (c ∨ expired p t = true) d (killExpired p s t) := by
  unfold killExpired
  split
  · exact killed_facts facts rfl rfl (by simp) (.inr (by simp_all))
  · rename_i early
    have early : ¬ expired p t = true := by simpa [flags] using early
    exact facts.congr .rfl (by simp [early]) (fun _ => .rfl)

theorem enforce_facts (facts : Facts e c d s) : Facts e (c ∨ (Observes p t ∧ ¬ e)) d (enforce p s t) := by
  unfold enforce
  split
  · rename_i watching
    have running : ¬ e := fun exited => facts.status.mpr exited watching.1
    have unflagged : (killCancelled p s t).timedOut = false := by
      have early : s.timedOut = false := by
        by_contra late
        simpa [watching.2] using facts.timedOut (by simpa using late)
      unfold killCancelled
      split <;> exact early
    exact (killExpired_facts (killCancelled_facts facts watching.2) unflagged).congr .rfl
      (by simp [Observes,running,or_assoc]) (fun _ => .rfl)
  · rename_i settled
    have done : (Observes p t ∧ ¬ e) → c := by
      rintro ⟨_,running⟩
      have waiting : s.status = none := by
        by_contra some
        exact running (facts.status.mp some)
      exact facts.killDone.mp (by simpa [waiting] using settled)
    exact facts.congr .rfl (by tauto) (fun _ => .rfl)

theorem seeEof_facts (facts : Facts e c d s) (chunk : StreamChunk) (t : Tick) : Facts e c (fun pipe => d pipe ∨ (chunk.pipe = pipe ∧ chunk.atEof = true)) (seeEof s chunk t) := by
  unfold seeEof
  split
  · rename_i last
    constructor
    · exact facts.status
    · simpa using facts.reaped
    · exact facts.killDone
    · simpa using facts.signalled
    · simpa using facts.quiet
    · intro pipe; simp [facts.ended,last,eq_comm]
    · exact facts.cancelled
    · exact facts.timedOut
  · rename_i more
    exact facts.congr .rfl .rfl (fun _ => by simp [more])

theorem deliver_facts (facts : Facts e c d s) (chunk : StreamChunk) (t : Tick) : Facts e c (fun pipe => d pipe ∨ (chunk.pipe = pipe ∧ chunk.atEof = true)) (deliver s chunk t).2 := by
  have seen := seeEof_facts facts chunk t
  unfold deliver
  dsimp only
  split
  · exact seen
  · split
    · split
      · exact seen
      · exact ⟨seen.status,seen.reaped,seen.killDone,seen.signalled,seen.quiet,seen.ended,seen.cancelled,seen.timedOut⟩
    · exact ⟨seen.status,seen.reaped,seen.killDone,seen.signalled,seen.quiet,seen.ended,seen.cancelled,seen.timedOut⟩

theorem settle_state (p : Plan) (s : Watch) (t : Tick) : (settle p s t).state = s := by
  unfold settle
  split <;> rfl

theorem receive_facts (facts : Facts e c d s) : Facts e c (fun pipe => d pipe ∨ Ends pipe t) (receive p s t).state := by
  unfold receive
  cases answer : t.received with
  | disconnected => exact facts.congr .rfl .rfl (fun _ => by simp [Ends,answer])
  | timeout => rw [settle_state]; exact facts.congr .rfl .rfl (fun _ => by simp [Ends,answer])
  | chunk chunk =>
    have delivered : Facts e c (fun pipe => d pipe ∨ Ends pipe t) (deliver s chunk t).2 :=
      (deliver_facts facts chunk t).congr .rfl .rfl (fun _ => by simp [Ends,answer])
    dsimp only
    split
    · rename_i failed; rw [failed] at delivered; exact delivered
    · rename_i done; rw [done] at delivered; rw [settle_state]; exact delivered

def Known (p : Plan) (seen : List Tick) : Watch → Prop :=
  Facts (Exited seen) (Caught p seen) (fun pipe => Ended pipe seen)

theorem turn_known (known : Known p seen s) (waited : (reap p s t).1 = .ok ()) : Known p (seen++[t]) (turn p s t).state := by
  have facts := receive_facts (p:=p) (t:=t) (enforce_facts (p:=p) (t:=t) (reap_facts known waited))
  have same : turn p s t = receive p (enforce p (reap p s t).2 t) t := by
    cases reaped : reap p s t with
    | mk answer next => rw [reaped] at waited; cases waited; simp [turn,reaped]
  rw [same]
  exact facts.congr exited_snoc.symm (by rw [caught_snoc,exited_snoc]) (fun _ => ended_snoc.symm)

theorem next_waited (next : turn p s t = .next s') : (reap p s t).1 = .ok () := by
  unfold turn at next
  split at next
  · cases next
  · rename_i reaped; rw [reaped]

theorem waited_iff (known : Known p seen s) : (reap p s t).1 = .ok () ↔ ¬ FailsWait seen t := by
  have status : s.status = none ↔ ¬ Exited seen := by rw [← known.status]; simp
  unfold reap
  split
  · rename_i waiting
    cases answer : t.waited <;> simp [FailsWait,answer,status.mp waiting]
  · rename_i reaped
    have exited : Exited seen := known.status.mp reaped
    simp [FailsWait,exited]

theorem goesOn_known (on : goesOn (turn p) (begin tee now) seen = some m) : Known p seen m :=
  goesOn_invariant (Known p) [] (begin_facts tee now)
    (fun _ _ _ _ known step => by
      have later := turn_known known (next_waited step)
      rwa [step] at later) on

-- One iteration of a run: `t` is taken in state `m`, behind the iterations
-- `seen`, and its `try_wait` does not fail.
structure Iteration (cfg : RunnerConfig) (spec : SpawnSpec) (child : Child) (w : World) (seen : List Tick) (t : Tick)
    (m : Watch) : Prop where
  taken : ∃ rest, w.ticks = seen ++ t :: rest
  entered : goesOn (turn (plan cfg spec child w)) (begin (teeOf spec) w.started) seen = some m
  waited : ¬ FailsWait seen t

theorem kill_issued (cfg : RunnerConfig) (spec : SpawnSpec) (child : Child) (w : World) :
    ∀ seen t m, Iteration cfg spec child w seen t m → Observes (plan cfg spec child w) t →
      (.signalled .kill ∈ (turn (plan cfg spec child w) m t).state.deeds ↔ Caught (plan cfg spec child w) (seen++[t])) := by
  intro seen t m iteration _
  have known := goesOn_known iteration.entered
  exact (turn_known known ((waited_iff known).mpr iteration.waited)).signalled .kill

theorem reap_tee (p : Plan) (s : Watch) (t : Tick) : (reap p s t).2.tee = s.tee := by
  unfold reap
  split
  · split <;> rfl
  · rfl

theorem enforce_tee (p : Plan) (s : Watch) (t : Tick) : (enforce p s t).tee = s.tee := by
  unfold enforce killExpired killCancelled
  repeat' split
  all_goals rfl

theorem deliver_tee (s : Watch) (c : StreamChunk) (t : Tick) : (deliver s c t).2.tee.isSome = s.tee.isSome := by
  have seen : (seeEof s c t).tee = s.tee := by unfold seeEof; split <;> rfl
  unfold deliver
  dsimp only
  split
  · rw [seen]
  · split
    · rename_i file configured
      rw [seen] at configured
      split
      · rw [seen]
      · simp [configured]
    · rw [← seen]

theorem turn_tee (p : Plan) (s : Watch) (t : Tick) : (turn p s t).state.tee.isSome = s.tee.isSome := by
  have waited := reap_tee p s t
  unfold turn
  split
  · rename_i reaped
    rw [reaped] at waited
    exact congrArg Option.isSome waited
  · rename_i next reaped
    rw [reaped] at waited
    have enforced : (enforce p next t).tee = s.tee := (enforce_tee p next t).trans waited
    unfold receive
    split
    · exact congrArg Option.isSome enforced
    · rw [settle_state,enforced]
    · rename_i c _
      have delivered := deliver_tee (enforce p next t) c t
      rw [enforced] at delivered
      split
      · rename_i failed; rw [failed] at delivered; exact delivered
      · rename_i done; rw [done] at delivered; rw [settle_state]; exact delivered

theorem goesOn_tee (on : goesOn (turn p) s seen = some m) : m.tee.isSome = s.tee.isSome :=
  goesOn_invariant (fun _ m => m.tee.isSome = s.tee.isSome) [] rfl
    (fun _ m i _ same step => by
      have kept := turn_tee p m i
      rw [step] at kept
      exact kept.trans same) on

-- The tee is configured and the write of this iteration's serial text fails.
def FailsWrite (spec : SpawnSpec) (t : Tick) : Prop :=
  spec.serialTee ≠ none ∧ ∃ c err, t.received = .chunk c ∧ c.pipe = .serial ∧ c.text ≠ [] ∧ t.written = .error err

theorem deliver_fails (s : Watch) (c : StreamChunk) (t : Tick) :
    (∃ e, (deliver s c t).1 = .error e) ↔ s.tee ≠ none ∧ c.pipe = .serial ∧ c.text ≠ [] ∧ ∃ err, t.written = .error err := by
  have seen : (seeEof s c t).tee = s.tee := by unfold seeEof; split <;> rfl
  unfold deliver
  dsimp only
  rw [seen]
  cases tee : s.tee <;> cases pipe : c.pipe <;> cases wrote : t.written <;> by_cases empty : c.text = [] <;> simp [empty]

theorem turn_failed (waited : (reap p m t).1 = .ok ()) (tee : m.tee.isSome = spec.serialTee.isSome) :
    (∃ e s, turn p m t = .leave (.failed e) s) ↔ FailsWrite spec t := by
  obtain ⟨next,reaped⟩ : ∃ next, reap p m t = (.ok (),next) := ⟨_,Prod.ext waited rfl⟩
  have kept : (enforce p next t).tee.isSome = spec.serialTee.isSome := by
    rw [enforce_tee,← tee]
    have same := reap_tee p m t
    rw [reaped] at same
    exact congrArg Option.isSome same
  have settled : ∀ s e out, settle p s t ≠ .leave (.failed e) out := by
    intro s e out
    unfold settle
    split <;> simp
  have configured : (enforce p next t).tee ≠ none ↔ spec.serialTee ≠ none := by
    rw [← Option.isSome_iff_ne_none,← Option.isSome_iff_ne_none,kept]
  simp only [turn,reaped,receive]
  cases answer : t.received with
  | disconnected => simp [FailsWrite,answer]
  | timeout => simp [FailsWrite,answer,settled]
  | chunk c =>
    have fails := deliver_fails (enforce p next t) c t
    rw [configured] at fails
    cases delivered : deliver (enforce p next t) c t with
    | mk outcome after =>
      rw [delivered] at fails
      cases outcome with
      | error e => simpa [FailsWrite,answer,delivered] using fails
      | ok _ => simpa [FailsWrite,answer,delivered,settled] using fails

-- What a returning run owes the child's process group.
def Settled (deeds : List Deed) : Prop :=
  (∃ g, .signalled g ∈ deeds) ∨ .quiet ∈ deeds ∨ (.reaped ∈ deeds ∧ ∀ pipe, .ended pipe ∈ deeds)

theorem blocking_settled (child : Child) (b : Blocking) (before after : List Deed) :
    Settled (before ++ (killGroupBlocking child.pgid b).2 ++ after) := by
  rcases killGroupBlocking_deeds child b with quiet | termed
  · exact .inr (.inl (by simp [quiet]))
  · exact .inl ⟨.term,by simp [termed]⟩

theorem finish_settled (child : Child) (s : Watch) (w : World) : Settled (finish child s w).2.deeds := by
  cases reaped : s.status with
  | none => cases answer : w.waited <;> exact .inl ⟨.term,by simp [finish,reaped,answer]⟩
  | some status =>
    cases alive : w.alive with
    | true => exact .inl ⟨.kill,by simp [finish,reaped,alive]⟩
    | false => exact .inr (.inl (by simp [finish,reaped,alive]))

theorem Facts.settled (facts : Facts e c d s) : Settled s.deeds ↔ c ∨ (e ∧ ∀ pipe, d pipe) := by
  have some : Nonempty Signal := ⟨.term⟩
  simp [Settled,facts.signalled,facts.quiet,facts.reaped,facts.ended]

theorem reap_failed (failed : reap p m t = (.error e,s)) : Settled s.deeds := by
  unfold reap at failed
  split at failed
  · split at failed
    · cases failed
    · cases failed
    · cases failed
      simpa using blocking_settled p.child t.blocking m.deeds []
  · cases failed

-- The run is left by a failing write of the serial log although no iteration
-- has killed the group, and the child or one of its pipes may still be there.
def Leaks (cfg : RunnerConfig) (spec : SpawnSpec) (child : Child) (w : World) : Prop :=
  w.created.isOk = true ∧ ∃ seen t m, Iteration cfg spec child w seen t m ∧ FailsWrite spec t ∧
    ¬ Caught (plan cfg spec child w) (seen++[t]) ∧ ¬ (Exited (seen++[t]) ∧ ∀ pipe, Ended pipe (seen++[t]))

-- A loop left in a failing iteration: its facts decide whether it leaks.
theorem failing_settles (iteration : Iteration cfg spec child w seen t m) :
    Settled (turn (plan cfg spec child w) m t).state.deeds ↔
      Caught (plan cfg spec child w) (seen++[t]) ∨ (Exited (seen++[t]) ∧ ∀ pipe, Ended pipe (seen++[t])) := by
  have known := goesOn_known iteration.entered
  exact (turn_known known ((waited_iff known).mpr iteration.waited)).settled

theorem iteration_failed (iteration : Iteration cfg spec child w seen t m) :
    (∃ e s, turn (plan cfg spec child w) m t = .leave (.failed e) s) ↔ FailsWrite spec t := by
  refine turn_failed ((waited_iff (goesOn_known iteration.entered)).mpr iteration.waited) ?_
  rw [goesOn_tee iteration.entered]
  simp [begin,teeOf]

-- A leak is the way the loop is left, so the run that leaks returns unsettled.
theorem leaks_left (leaks : Leaks cfg spec child w) :
    ∃ e s rest, loop (turn (plan cfg spec child w)) (begin (teeOf spec) w.started) w.ticks = (some (.failed e),s,rest) ∧
      ¬ Settled s.deeds := by
  obtain ⟨_,seen,t,m,iteration,writes,uncaught,unended⟩ := leaks
  obtain ⟨e,out,failed⟩ := (iteration_failed iteration).mpr writes
  obtain ⟨rest,taken⟩ := iteration.taken
  have settles := failing_settles iteration
  rw [failed] at settles
  refine ⟨e,out,rest,?_,fun settled => (settles.mp settled).elim uncaught unended⟩
  rw [taken,loop_append iteration.entered,loop,failed]

theorem run_settles (started : spec.argv ≠ []) (spawned : w.spawned = .ok child)
    (returned : run cfg spec w = (some r,s)) : Settled s.deeds ↔ ¬ Leaks cfg spec child w := by
  rw [run,if_neg started,spawned] at returned
  dsimp only at returned
  unfold supervise at returned
  split at returned
  · rename_i path err configured failed
    cases returned
    have settled := blocking_settled child w.createBlocking [] (if w.waited.isOk then [.reaped] else [])
    have closed : ¬ Leaks cfg spec child w := by simp [Leaks,failed,Except.isOk,Except.toBool]
    exact ⟨fun _ => closed,fun _ => by simpa using settled⟩
  · rename_i opened
    split at returned
    · cases returned
    · rename_i e out rest left
      cases returned
      refine ⟨fun settled leaks => ?_,fun safe => ?_⟩
      · obtain ⟨_,_,_,leaked,unsettled⟩ := leaks_left leaks
        rw [left] at leaked
        cases leaked
        exact unsettled settled
      obtain ⟨seen,t,m,taken,entered,last⟩ := loop_left left
      by_cases waited : FailsWait seen t
      · cases reaped : reap (plan cfg spec child w) m t with
        | mk answer next => cases answer with
          | ok _ => exact absurd waited ((waited_iff (goesOn_known entered)).mp (by rw [reaped]))
          | error _ =>
            simp only [turn,reaped] at last
            cases last
            exact reap_failed reaped
      · have iteration : Iteration cfg spec child w seen t m := ⟨⟨rest,taken⟩,entered,waited⟩
        have writes := (iteration_failed iteration).mp ⟨e,s,last⟩
        have settles := failing_settles iteration
        rw [last] at settles
        refine settles.mpr ?_
        by_contra neither
        obtain ⟨path,configured⟩ := Option.ne_none_iff_exists'.mp writes.1
        have created : w.created.isOk = true := by
          cases answer : w.created with
          | ok _ => rfl
          | error err => exact absurd answer (opened path err configured)
        exact safe ⟨created,seen,t,m,iteration,writes,fun caught => neither (.inl caught),fun ended => neither (.inr ended)⟩
    · rename_i out rest left
      cases returned
      refine ⟨fun _ leaks => ?_,fun _ => finish_settled child out w⟩
      obtain ⟨_,_,_,leaked,_⟩ := leaks_left leaks
      rw [left] at leaked
      cases leaked

def quietTick : Tick := ⟨.running,⟨true,.delivered,true,.delivered,true⟩,false,0,.delivered,.timeout,0,.ok (),0⟩

def qemu : Child := ⟨42,by decide⟩

def quietWorld (ticks : List Tick) : World :=
  ⟨.ok qemu,.ok (),quietTick.blocking,0,ticks,.delivered,.ok ⟨some 0,none⟩,false,false,0⟩

def qemuSpec (timeout : Option Nat) (tee : Option Text) : SpawnSpec := ⟨["qemu".toList],[],timeout,tee⟩

-- A full disk: the first serial chunk cannot be written, QEMU runs on.
def fullDisk : World :=
  quietWorld [{quietTick with received:=.chunk ⟨.serial,"boot\n".toList,.utf8,false⟩,written:=.error "No space left on device".toList}]

def runnerConfig : RunnerConfig := ⟨120,3000,3000⟩

theorem run_settles_quiet :
    Settled (run runnerConfig (qemuSpec none none) (quietWorld [{quietTick with received:=.disconnected}])).2.deeds := by
  have settles : Settled (run runnerConfig (qemuSpec none none) (quietWorld [{quietTick with received:=.disconnected}])).2.deeds ↔
      ¬ Leaks runnerConfig (qemuSpec none none) qemu (quietWorld [{quietTick with received:=.disconnected}]) :=
    run_settles (by decide) rfl rfl
  refine settles.mpr ?_
  rintro ⟨_,_,_,_,_,writes,_⟩
  exact writes.1 rfl

theorem full_disk_leaks : ¬ ∀ cfg spec child w r s, spec.argv ≠ [] → w.spawned = .ok child →
    run cfg spec w = (some r,s) → Settled s.deeds := by
  intro claim
  have unsignalled : (run runnerConfig (qemuSpec none (some [])) fullDisk).2.deeds = [] := by decide
  have settled := claim runnerConfig (qemuSpec none (some [])) qemu fullDisk
    (.error (.internal "cannot write the serial log: No space left on device".toList))
    (run runnerConfig (qemuSpec none (some [])) fullDisk).2 (by decide) rfl rfl
  rw [unsignalled] at settled
  simp [Settled] at settled

-- QEMU exits at once, a grandchild keeps its pipe open, the deadline passes.
def heldPipe : World := quietWorld [{quietTick with waited:=.exited ⟨some 0,none⟩},{quietTick with checkedAt:=2}]

theorem kill_issued_deadline : .signalled .kill ∈ (turn (plan runnerConfig (qemuSpec (some 1) none) qemu
    (quietWorld [{quietTick with checkedAt:=2}])) (begin none 0) {quietTick with checkedAt:=2}).state.deeds := by
  refine (kill_issued runnerConfig (qemuSpec (some 1) none) qemu (quietWorld [{quietTick with checkedAt:=2}])
    [] _ _ ⟨⟨[],rfl⟩,rfl,?_⟩ (.inr rfl)).mpr ⟨[],_,[],rfl,.inr rfl,?_⟩
  · rintro ⟨_,err,failed⟩; cases failed
  · simp [Exited,Exits,quietTick]

theorem held_pipe_unkilled : ¬ ∀ cfg spec child w seen t m, Iteration cfg spec child w seen t m →
    Observes (plan cfg spec child w) t → .signalled .kill ∈ (turn (plan cfg spec child w) m t).state.deeds := by
  intro claim
  have killed := claim runnerConfig (qemuSpec (some 1) none) qemu heldPipe
    [{quietTick with waited:=.exited ⟨some 0,none⟩}] {quietTick with checkedAt:=2} _ ⟨⟨[],rfl⟩,rfl,?_⟩ (.inr rfl)
  · revert killed
    decide
  · rintro ⟨_,err,failed⟩; cases failed

end PrincessIDE.Process
