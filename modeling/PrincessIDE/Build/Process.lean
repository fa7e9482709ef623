import PrincessIDE.Run.Process

namespace PrincessIDE.BuildProcess
open Utf8 (Text Bytes)
open Str PrincessIDE.Stream Error Loop
open Reader (Wake wakes)
open Process (ExitStatus Signal Waited)

inductive StdioStream where
  | stdout
  | stderr
deriving DecidableEq, Repr

structure StdioChunk where
  stream : StdioStream
  text : Text
  encoding : TextEncoding
  atEof : Bool
deriving DecidableEq, Repr

structure CommandOutput where
  exitCode : Option Int
  signal : Option Int
  timedOut : Bool
  cancelled : Bool
  combinedTail : Text
deriving DecidableEq, Repr

def CommandOutput.success (o : CommandOutput) : Bool := o.exitCode = some 0 && !o.timedOut && !o.cancelled

def toChunk (which : StdioStream) (atEof : Bool) (c : Chunk) : StdioChunk := ⟨which,c.1,c.2,atEof⟩

-- The chunks a reader thread sends over the life of its pipe.
def spawnReader (which : StdioStream) (schedule : List Wake) : List StdioChunk :=
  let s := wakes .new schedule
  s.1.map (toChunk which false) ++ (match s.2.takeRemainder with
    | some (chunk,_) => [toChunk which true chunk]
    | none => [])

-- The end of a pipe is told only by a line that was left unfinished.
theorem spawnReader_final (which : StdioStream) (schedule : List Wake) :
    (∃ c ∈ spawnReader which schedule, c.atEof = true) ↔ (wakes .new schedule).2.pending ≠ [] := by
  unfold spawnReader
  simp only [List.mem_append,List.mem_map,or_and_right,exists_or]
  constructor
  · rintro (⟨_,⟨c,_,rfl⟩,final⟩ | ⟨c,last,_⟩) empty
    · cases final
    · simp [Utf8Chunker.takeRemainder,empty] at last
  · intro partly
    right
    simp [Utf8Chunker.takeRemainder,partly,toChunk]

inductive Received where
  | chunk (chunk : StdioChunk)
  | timeout
  | disconnected
deriving DecidableEq, Repr

-- What one iteration of the loop is answered. The clock is not read at
-- `try_wait`: `waitedAt` only tells when the answer came.
structure Tick where
  waited : Waited
  waitedAt : Nat
  cancelled : Bool
  checkedAt : Nat
  received : Received
  receivedAt : Nat
  drainedAt : Nat
deriving DecidableEq, Repr

structure Watch where
  timedOut : Bool
  cancelled : Bool
  status : Option ExitStatus
  eofSeen : Nat
  lastEof : Nat
  tail : List Text
  chunks : List StdioChunk
  -- the signals issued to the process group, whose answers are ignored
  signals : List Signal
deriving DecidableEq, Repr

inductive Left where
  | broke
  | failed (e : PrincessError)
deriving DecidableEq, Repr

-- Both pipes of the child are piped.
def readers : Nat := 2

structure Plan where
  deadline : Option Nat
  drainGrace : Nat
deriving DecidableEq, Repr

def expired (p : Plan) (t : Tick) : Bool := match p.deadline with
  | some limit => limit ≤ t.checkedAt
  | none => false

def killCancelled (s : Watch) (t : Tick) : Watch :=
  if t.cancelled && !s.cancelled then {s with cancelled:=true,signals:=s.signals++[.term,.kill]} else s

def killExpired (p : Plan) (s : Watch) (t : Tick) : Watch :=
  if expired p t && !s.timedOut then {s with timedOut:=true,signals:=s.signals++[.term,.kill]} else s

def enforce (p : Plan) (s : Watch) (t : Tick) : Watch :=
  if s.status = none then killExpired p (killCancelled s t) t else s

def keepTail (tail : List Text) (text : Text) : List Text :=
  if text = [] then tail else (tail++[text]).drop ((tail++[text]).length-512)

def deliver (s : Watch) (c : StdioChunk) (t : Tick) : Watch :=
  let s := if c.atEof then {s with eofSeen:=s.eofSeen+1,lastEof:=t.receivedAt} else s
  {s with tail:=keepTail s.tail c.text,chunks:=s.chunks++[c]}

def settle (p : Plan) (s : Watch) (t : Tick) : Turn Watch Left :=
  if readers ≤ s.eofSeen ∧ s.status.isSome ∧ p.drainGrace ≤ t.drainedAt - s.lastEof then .leave .broke s else .next s

def receive (p : Plan) (s : Watch) (t : Tick) : Turn Watch Left := match t.received with
  | .chunk c => settle p (deliver s c t) t
  | .timeout => settle p s t
  | .disconnected => .leave .broke s

def reap (s : Watch) (t : Tick) : Except PrincessError Unit × Watch :=
  if s.status = none then match t.waited with
    | .exited status => (.ok (),{s with status:=some status})
    | .running => (.ok (),s)
    | .failed err => (.error (.internal ("cannot wait for build child: ".toList ++ err)),{s with signals:=s.signals++[.kill]})
  else (.ok (),s)

def turn (p : Plan) (s : Watch) (t : Tick) : Turn Watch Left := match reap s t with
  | (.error e,s) => .leave (.failed e) s
  | (.ok _,s) => receive p (enforce p s t) t

def begin (now : Nat) : Watch := ⟨false,false,none,0,now,[],[],[]⟩

structure SystemRunner where
  drainGrace : Nat
  flushEvery : Nat
deriving DecidableEq, Repr

-- Everything a run is answered.
structure World where
  spawned : Except Text Unit
  started : Nat
  ticks : List Tick
  waited : Except Text ExitStatus

-- The part of a `BuildPlan` that the runner reads besides the environment.
structure Command where
  argv : List Text
  cwd : Text
  timeoutMs : Option Nat
deriving DecidableEq, Repr

-- `quoted` is `{:?}` of a text.
def displayArgv (quoted : Text → Text) (argv : List Text) : Text :=
  [' '].intercalate (argv.map fun part => if part.contains ' ' then quoted part else part)

-- Behind the loop the readers are joined, which takes time and changes nothing here.
def finish (s : Watch) (w : World) : Except PrincessError CommandOutput :=
  match (match s.status with
    | some status => Except.ok status
    | none => w.waited) with
  | .error err => .error (.internal ("cannot reap build child: ".toList ++ err))
  | .ok status => .ok ⟨status.code,status.signal,s.timedOut,s.cancelled,(s.tail.flatten.reverse.take 8192).reverse⟩

def planOf (r : SystemRunner) (c : Command) (w : World) : Plan := ⟨c.timeoutMs.map (w.started + ·),r.drainGrace⟩

-- No result means that the run has not returned within the answers given.
def run (quoted : Text → Text) (r : SystemRunner) (c : Command) (w : World) :
    Option (Except PrincessError CommandOutput) × Watch :=
  if c.argv = [] then (some (.error (.internal "build plan has an empty argv: nothing to execute".toList)),begin w.started)
  else match w.spawned with
    | .error err => (some (.error ((PrincessError.internal ("cannot execute ".toList ++ displayArgv quoted c.argv ++
        ": ".toList ++ err)).withDetail ("cwd: ".toList ++ c.cwd))),begin w.started)
    | .ok _ => match loop (turn (planOf r c w)) (begin w.started) w.ticks with
      | (none,s,_) => (none,s)
      | (some (.failed e),s,_) => (some (.error e),s)
      | (some .broke,s,_) => (some (finish s w),s)

-- What the iterations of a run saw, whatever the runner made of it.
def Observes (p : Plan) (t : Tick) : Prop := t.cancelled = true ∨ expired p t = true

def Exits (t : Tick) : Prop := ∃ status, t.waited = .exited status

def Exited (seen : List Tick) : Prop := ∃ t ∈ seen, Exits t

-- Some iteration found the deadline passed or the token set while the child
-- was not yet reported as exited.
def Caught (p : Plan) : List Tick → Prop := Ahead (Observes p) Exits

def exit (t : Tick) : Option Nat := match t.waited with
  | .exited _ => some t.waitedAt
  | _ => none

-- When the exit of the direct child was first reported.
def exitedAt (seen : List Tick) : Option Nat := seen.findSome? exit

def final (t : Tick) : Option Nat := match t.received with
  | .chunk c => if c.atEof then some t.receivedAt else none
  | _ => none

def finals (seen : List Tick) : List Nat := seen.filterMap final

-- The state of the loop, as what was seen so far determines it.
structure Facts (exited caught : Prop) (ends : List Nat) (now : Nat) (s : Watch) : Prop where
  status : s.status ≠ none ↔ exited
  signalled : .kill ∈ s.signals ↔ caught
  cancelled : s.cancelled = true → caught
  timedOut : s.timedOut = true → caught
  eofSeen : s.eofSeen = ends.length
  lastEof : s.lastEof = ends.getLastD now

theorem Facts.congr (facts : Facts e c ends now s) (exited : e ↔ e') (caught : c ↔ c') (same : ends = ends') :
    Facts e' c' ends' now s :=
  ⟨facts.status.trans exited,facts.signalled.trans caught,fun h => caught.mp (facts.cancelled h),
    fun h => caught.mp (facts.timedOut h),same ▸ facts.eofSeen,same ▸ facts.lastEof⟩

theorem begin_facts (now : Nat) : Facts (Exited []) (Caught p []) (finals []) now (begin now) := by
  constructor <;> simp [begin,Exited,Caught,Ahead,finals]

theorem reap_facts (facts : Facts e c ends now s) (waited : (reap s t).1 = .ok ()) :
    Facts (e ∨ Exits t) c ends now (reap s t).2 := by
  unfold reap at waited ⊢
  split at waited
  · rename_i waiting
    rw [if_pos waiting]
    have running : ¬ e := fun exited => facts.status.mpr exited waiting
    cases answer : t.waited with
    | exited status =>
      exact ⟨by simp [Exits,answer],facts.signalled,facts.cancelled,facts.timedOut,facts.eofSeen,facts.lastEof⟩
    | running => exact facts.congr (by simp [Exits,answer]) .rfl rfl
    | failed err => simp [answer] at waited
  · rename_i reaped
    rw [if_neg reaped]
    exact facts.congr (by simp [facts.status.mp reaped]) .rfl rfl

theorem killCancelled_facts (facts : Facts e c ends now s) : Facts e (c ∨ t.cancelled = true) ends now (killCancelled s t) := by
  unfold killCancelled
  split
  · rename_i set
    have caught : c ∨ t.cancelled = true := .inr (by simp_all)
    exact ⟨facts.status,by simp [caught],fun _ => caught,fun _ => caught,facts.eofSeen,facts.lastEof⟩
  · rename_i clear
    refine facts.congr .rfl ⟨.inl,?_⟩ rfl
    rintro (before | set)
    · exact before
    · exact facts.cancelled (by simpa [set] using clear)

theorem killExpired_facts (facts : Facts e c ends now s) : Facts e (c ∨ expired p t = true) ends now (killExpired p s t) := by
  unfold killExpired
  split
  · rename_i late
    have caught : c ∨ expired p t = true := .inr (by simp_all)
    exact ⟨facts.status,by simp [caught],fun _ => caught,fun _ => caught,facts.eofSeen,facts.lastEof⟩
  · rename_i early
    refine facts.congr .rfl ⟨.inl,?_⟩ rfl
    rintro (before | late)
    · exact before
    · exact facts.timedOut (by simpa [late] using early)

theorem enforce_facts (facts : Facts e c ends now s) : Facts e (c ∨ (Observes p t ∧ ¬ e)) ends now (enforce p s t) := by
  unfold enforce
  split
  · rename_i waiting
    have running : ¬ e := fun exited => facts.status.mpr exited waiting
    exact (killExpired_facts (killCancelled_facts facts)).congr .rfl (by simp [Observes,running,or_assoc]) rfl
  · rename_i reaped
    have exited : e := facts.status.mp reaped
    exact facts.congr .rfl (by simp [exited]) rfl

theorem deliver_facts (facts : Facts e c ends now s) (chunk : StdioChunk) (t : Tick) :
    Facts e c (ends ++ if chunk.atEof then [t.receivedAt] else []) now (deliver s chunk t) := by
  unfold deliver
  split
  · exact ⟨facts.status,facts.signalled,facts.cancelled,facts.timedOut,by simp [facts.eofSeen],by simp⟩
  · exact ⟨facts.status,facts.signalled,facts.cancelled,facts.timedOut,by simp [facts.eofSeen],by simp [facts.lastEof]⟩

theorem settle_state (p : Plan) (s : Watch) (t : Tick) : (settle p s t).state = s := by
  unfold settle
  split <;> rfl

theorem receive_facts (facts : Facts e c ends now s) : Facts e c (ends ++ (final t).toList) now (receive p s t).state := by
  unfold receive
  cases answer : t.received with
  | disconnected => exact facts.congr .rfl .rfl (by simp [final,answer])
  | timeout => rw [settle_state]; exact facts.congr .rfl .rfl (by simp [final,answer])
  | chunk chunk =>
    rw [settle_state]
    refine (deliver_facts facts chunk t).congr .rfl .rfl ?_
    simp only [final,answer]
    split <;> rfl

def Known (p : Plan) (now : Nat) (seen : List Tick) : Watch → Prop := Facts (Exited seen) (Caught p seen) (finals seen) now

theorem exited_snoc : Exited (seen++[t]) ↔ Exited seen ∨ Exits t := by simp [Exited,or_and_right,exists_or]

theorem caught_snoc : Caught p (seen++[t]) ↔ Caught p seen ∨ (Observes p t ∧ ¬ Exited (seen++[t])) := ahead_snoc

theorem finals_snoc (seen : List Tick) (t : Tick) : finals (seen++[t]) = finals seen ++ (final t).toList := by
  rw [finals,List.filterMap_append]
  cases here : final t <;> simp [here,finals]

theorem turn_waited (waited : (reap m t).1 = .ok ()) : turn p m t = receive p (enforce p (reap m t).2 t) t := by
  cases reaped : reap m t with
  | mk answer next => rw [reaped] at waited; cases waited; simp [turn,reaped]

theorem turn_known (known : Known p now seen m) (waited : (reap m t).1 = .ok ()) : Known p now (seen++[t]) (turn p m t).state := by
  have facts := receive_facts (p:=p) (t:=t) (enforce_facts (p:=p) (t:=t) (reap_facts known waited))
  rw [turn_waited waited]
  exact facts.congr exited_snoc.symm (by rw [caught_snoc,exited_snoc]) (finals_snoc seen t).symm

theorem next_waited (next : turn p m t = .next out) : (reap m t).1 = .ok () := by
  unfold turn at next
  split at next
  · cases next
  · rename_i reaped
    rw [reaped]

theorem goesOn_known (on : goesOn (turn p) (begin now) seen = some m) : Known p now seen m :=
  goesOn_invariant (Known p now) [] (begin_facts now)
    (fun _ _ _ _ known step => by
      have later := turn_known known (next_waited step)
      rwa [step] at later) on

-- A wait that fails is not behind or at an exit, and it kills the group.
theorem failed_wait (known : Known p now seen m) (failed : (reap m t).1 ≠ .ok ()) :
    ¬ Exited (seen++[t]) ∧ .kill ∈ (turn p m t).state.signals := by
  unfold turn
  unfold reap at failed ⊢
  split at failed
  · rename_i waiting
    have running : ¬ Exited seen := fun exited => known.status.mpr exited waiting
    cases answer : t.waited with
    | exited status => simp [answer] at failed
    | running => simp [answer] at failed
    | failed err => exact ⟨by simp [exited_snoc,running,Exits,answer],by simp [waiting,Turn.state]⟩
  · exact absurd rfl failed

theorem exitedAt_exited (here : moment ∈ exitedAt seen) : Exited seen := by
  obtain ⟨t,member,told⟩ := List.exists_of_findSome?_eq_some here
  refine ⟨t,member,?_⟩
  unfold exit at told
  cases answer : t.waited with
  | exited status => exact ⟨status,answer⟩
  | running => rw [answer] at told; cases told
  | failed err => rw [answer] at told; cases told

theorem settle_leaves (facts : Facts e c ends now s) (exited : e) :
    (∃ result out, settle p s t = .leave result out) ↔ readers ≤ ends.length ∧ p.drainGrace ≤ t.drainedAt - ends.getLastD now := by
  have status : s.status.isSome := Option.isSome_iff_ne_none.mpr (facts.status.mpr exited)
  unfold settle
  rw [facts.eofSeen,facts.lastEof]
  split
  · rename_i drained
    exact ⟨fun _ => ⟨drained.1,drained.2.2⟩,fun _ => ⟨_,_,rfl⟩⟩
  · rename_i held
    exact ⟨fun ⟨_,_,left⟩ => (nomatch left),fun drained => absurd ⟨drained.1,status,drained.2⟩ held⟩

-- An iteration that finds the child gone leaves only for one of these.
def Drained (p : Plan) (now : Nat) (seen : List Tick) (t : Tick) : Prop :=
  t.received = .disconnected ∨
    (readers ≤ (finals (seen++[t])).length ∧ p.drainGrace ≤ t.drainedAt - (finals (seen++[t])).getLastD now)

theorem turn_leaves (known : Known p now seen m) (waited : (reap m t).1 = .ok ()) (exited : Exited (seen++[t])) :
    (∃ result out, turn p m t = .leave result out) ↔ Drained p now seen t := by
  have facts : Facts (Exited (seen++[t])) (Caught p (seen++[t])) (finals seen) now (enforce p (reap m t).2 t) :=
    (enforce_facts (p:=p) (t:=t) (reap_facts known waited)).congr exited_snoc.symm (by rw [caught_snoc,exited_snoc]) rfl
  rw [turn_waited waited]
  unfold Drained receive
  rw [finals_snoc]
  cases answer : t.received with
  | disconnected => simp
  | timeout =>
    have silent : final t = none := by simp [final,answer]
    simpa [silent] using settle_leaves (p:=p) (t:=t) facts exited
  | chunk chunk =>
    have told : (final t).toList = if chunk.atEof then [t.receivedAt] else [] := by
      simp only [final,answer]
      split <;> rfl
    rw [told]
    simpa using settle_leaves (p:=p) (t:=t) (deliver_facts facts chunk t) exited

-- One iteration of a run: `t` is taken in state `m`, behind the iterations `seen`.
structure Iteration (r : SystemRunner) (c : Command) (w : World) (seen : List Tick) (t : Tick) (m : Watch) : Prop where
  running : c.argv ≠ [] ∧ w.spawned = .ok ()
  taken : ∃ rest, w.ticks = seen ++ t :: rest
  entered : goesOn (turn (planOf r c w)) (begin w.started) seen = some m

-- What the watchdog and the drain grace owe one iteration.
structure Bounded (p : Plan) (seen : List Tick) (t : Tick) (m : Watch) : Prop where
  signalled : Observes p t → .kill ∈ (turn p m t).state.signals
  leaves : ∀ moment ∈ exitedAt (seen++[t]), moment + p.drainGrace ≤ t.drainedAt → ∃ result out, turn p m t = .leave result out

-- The deadline or the token is first met before the exit of the child, and a
-- drain grace behind the exit both pipes are told to be closed.
structure Timely (p : Plan) (now : Nat) (seen : List Tick) (t : Tick) : Prop where
  caught : Observes p t → Exited (seen++[t]) → Caught p seen
  closed : ∀ moment ∈ exitedAt (seen++[t]), moment + p.drainGrace ≤ t.drainedAt → Drained p now seen t

theorem bounded_iff_timely (known : Known p now seen m) : Bounded p seen t m ↔ Timely p now seen t := by
  by_cases waited : (reap m t).1 = .ok ()
  · have signals := (turn_known (t:=t) known waited).signalled
    rw [caught_snoc] at signals
    constructor
    · intro bounded
      refine ⟨fun observes exited => ?_,fun moment here late => ?_⟩
      · exact (signals.mp (bounded.signalled observes)).resolve_right fun running => running.2 exited
      · exact (turn_leaves known waited (exitedAt_exited here)).mp (bounded.leaves moment here late)
    · intro timely
      refine ⟨fun observes => signals.mpr ?_,fun moment here late => ?_⟩
      · by_cases exited : Exited (seen++[t])
        · exact .inl (timely.caught observes exited)
        · exact .inr ⟨observes,exited⟩
      · exact (turn_leaves known waited (exitedAt_exited here)).mpr (timely.closed moment here late)
  · obtain ⟨running,killed⟩ := failed_wait known waited
    exact ⟨fun _ => ⟨fun _ exited => absurd exited running,fun _ here => absurd (exitedAt_exited here) running⟩,
      fun _ => ⟨fun _ => killed,fun _ here => absurd (exitedAt_exited here) running⟩⟩

theorem command_bounded_iff (r : SystemRunner) (c : Command) (w : World) :
    (∀ seen t m, Iteration r c w seen t m → Bounded (planOf r c w) seen t m) ↔
      ∀ seen t m, Iteration r c w seen t m → Timely (planOf r c w) w.started seen t := by
  constructor
  · intro bounded seen t m iteration
    exact (bounded_iff_timely (goesOn_known iteration.entered)).mp (bounded seen t m iteration)
  · intro timely seen t m iteration
    exact (bounded_iff_timely (goesOn_known iteration.entered)).mpr (timely seen t m iteration)

-- `sh -c 'echo done; sleep 600 &'` with a deadline of a second: the shell has
-- ended, its last bytes end in a newline, and the sleep holds both pipes.
def held : World := ⟨.ok (),0,[
  ⟨.exited ⟨some 0,none⟩,1,false,1,.chunk ⟨.stdout,"done\n".toList,.utf8,false⟩,2,2⟩,
  ⟨.running,990,false,990,.timeout,1010,1010⟩,
  ⟨.running,1010,true,1010,.timeout,1030,1030⟩],.ok ⟨some 0,none⟩⟩

def build : Command := ⟨["sh".toList],"/w".toList,some 1000⟩

theorem command_held :
    spawnReader .stdout [.bytes (Utf8.encode "done\n".toList)] = [⟨.stdout,"done\n".toList,.utf8,false⟩] ∧
    (run id ⟨250,120⟩ build held).1 = none ∧ (run id ⟨250,120⟩ build held).2.signals = [] ∧
    ¬ ∀ seen t m, Iteration ⟨250,120⟩ build held seen t m → Bounded (planOf ⟨250,120⟩ build held) seen t m := by
  refine ⟨by decide +kernel,by decide,by decide,fun bounded => ?_⟩
  have last := bounded (held.ticks.take 2) (held.ticks[2]) _ ⟨⟨by decide,rfl⟩,⟨[],rfl⟩,rfl⟩
  have killed := last.signalled (.inl rfl)
  exact absurd killed (by decide)

end PrincessIDE.BuildProcess
