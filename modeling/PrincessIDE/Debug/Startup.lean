import PrincessIDE.Debug.Backend

namespace PrincessIDE.Startup
open Utf8 (Text Bytes lossy)
open Str Error
open Dap (QemuCommand QemuProcess)

-- What a pipe of the child brings, and when, as long as nobody signals its group.
-- It ends when the last process that holds its write end lets go of it.
structure Pipe where
  arrivals : List (Nat × Bytes)
  ended : Option Nat
  ordered : arrivals.Pairwise fun a b => a.1 ≤ b.1

-- As much as is read of one pipe.
def limit : Nat := 64*1024

def heldOf (arrivals : List (Nat × Bytes)) (now : Nat) : Bytes := (arrivals.filter fun a => a.1 ≤ now).flatMap Prod.snd

-- When so many bytes have arrived.
def fillsAt : Nat → List (Nat × Bytes) → Option Nat
  | _,[] => none
  | n,(time,bytes) :: rest => if n ≤ bytes.length then some time else fillsAt (n-bytes.length) rest

def earliest : Option Nat → Option Nat → Option Nat
  | some a,some b => some (min a b)
  | some a,none => some a
  | none,b => b

namespace Pipe

def held (p : Pipe) (now : Nat) : Bytes := heldOf p.arrivals now

-- When a read to the limit or to the end has all that it waits for.
def ready (p : Pipe) : Option Nat := earliest (fillsAt limit p.arrivals) p.ended

def readyBy (p : Pipe) (now : Nat) : Bool := p.ready.any (· ≤ now)

end Pipe

inductive Stream where
  | stderr
  | stdout
deriving DecidableEq

inductive Connect where
  | accepted (ms : Nat)
  | refused (ms : Nat) (err : Text)

def Connect.ms : Connect → Nat
  | .accepted ms => ms
  | .refused ms _ => ms

-- A spawned child. It may exit on its own, with a status that is shown as a text;
-- it may exit some time after a SIGTERM, and does so after a SIGKILL.
structure Child where
  pid : Nat
  stderr : Pipe
  stdout : Pipe
  exits : Option (Nat × Text)
  connects : Nat → Connect
  quick : ∀ n, (connects n).ms ≤ 200
  terminates : Option Nat
  killed : Nat

inductive Signal where
  | term
  | kill
deriving DecidableEq

-- What startup does to the child; a read may have to wait for what it reads.
inductive Deed where
  | reads (stream : Stream) (waits : Bool)
  | signalled (signal : Signal)
deriving DecidableEq

-- The clock in milliseconds, the deeds so far, when the group was first sent a
-- SIGTERM, and whether the exit status of the child is known.
structure Host where
  now : Nat
  deeds : List Deed
  termed : Option Nat
  reaped : Bool

namespace Host

def did (s : Host) (deed : Deed) : Host := {s with deeds:=s.deeds++[deed]}

def sleep (s : Host) (ms : Nat) : Host := {s with now:=s.now+ms}

-- `killpg` with the group of the child.
def killpg (s : Host) : Signal → Host
  | .term => {s.did (.signalled .term) with termed:=s.termed.or (some s.now)}
  | .kill => s.did (.signalled .kill)

end Host

def parseGdbSpec (spec : Text) : Option Nat :=
  let tail := (split ":".toList spec).getLast?.getD []
  let digits := tail.takeWhile Char.isDigit
  if digits = [] then none else fromStrRadix 10 u16 digits

def stubPort : List Text → Option Nat
  | [] => none
  | arg :: rest =>
    if arg = "-s".toList then some 1234
    else
      let value := if arg = "-gdb".toList then rest.head?.bind parseGdbSpec else none
      (value.or ((stripPrefix "-gdb=".toList arg).bind parseGdbSpec)).or (stubPort rest)

-- `{:?}` of a duration of whole milliseconds.
def durationText (ms : Nat) : Text :=
  if ms = 0 then "0ns".toList
  else if ms < 1000 then decimal ms ++ "ms".toList
  else if ms % 1000 = 0 then decimal (ms / 1000) ++ "s".toList
  else decimal (ms / 1000) ++ '.' :: trimEndMatches (· = '0') ((decimal (ms % 1000)).leftpad 3 '0') ++ "s".toList

section
variable (c : Child)

-- `try_wait` has a status.
def Child.gone (s : Host) : Bool :=
  s.reaped || c.exits.any (·.1 ≤ s.now) || s.termed.any fun sent => c.terminates.any (sent + · ≤ s.now)

-- No answer is a read that never returns.
def drainPipe (stream : Stream) (p : Pipe) (s : Host) : Option Bytes × Host :=
  let s := s.did (.reads stream (!p.readyBy s.now))
  match p.ready with
  | none => (none,s)
  | some time =>
    let s := {s with now:=max s.now time}
    (some ((p.held s.now).take limit),s)

def drainOutput (s : Host) : Option Text × Host := match drainPipe .stderr c.stderr s with
  | (none,s) => (none,s)
  | (some err,s) => match drainPipe .stdout c.stdout s with
    | (none,s) => (none,s)
    | (some out,s) => (some (lossy err ++ if trim (lossy out) = [] then [] else lossy out),s)

-- Polls for the exit until the deadline, then kills the group and waits. The first
-- argument bounds the polls.
def awaitExit (deadline : Nat) : Nat → Host → Host
  | 0,s => s
  | n+1,s =>
    if c.gone s then {s with reaped:=true}
    else if s.now < deadline then awaitExit deadline n (s.sleep 20)
    else {(s.killpg .kill).sleep c.killed with reaped:=true}

def terminateGroup (s : Host) : Host :=
  let s := s.killpg .term
  (awaitExit c (s.now+2000) 2001 s).killpg .kill

variable (command : QemuCommand)

def startupFailure (message : Text) (s : Host) : Option PrincessError × Host := match drainOutput c s with
  | (none,s) => (none,s)
  | (some captured,s) =>
    (some ((PrincessError.new .qemuFailed "QEMU did not come up for debugging".toList).withDetail
      (command.display ++ '\n' :: message ++ '\n' :: captured)),terminateGroup c s)

def exitedMessage (status : Text) : Text := "QEMU exited before the GDB stub opened (".toList ++ status ++ ")".toList

def refusedMessage (port : Nat) (err : Text) : Text := "GDB stub on 127.0.0.1:".toList ++ decimal port ++
  " never accepted a connection within ".toList ++ durationText command.readyTimeout ++ ": ".toList ++ err

def refuse (failure : Option PrincessError × Host) : Option (Except PrincessError Unit) × Host := (failure.1.map .error,failure.2)

-- The rounds of the loop, each with the number of its attempt to connect.
def probe (port deadline : Nat) : Nat → Nat → Host → Option (Except PrincessError Unit) × Host
  | 0,_,s => (none,s)
  | n+1,k,s => match c.exits.filter (·.1 ≤ s.now) with
    | some (_,status) => refuse (startupFailure c command (exitedMessage status) s)
    | none => match c.connects k with
      | .accepted ms => (some (.ok ()),s.sleep ms)
      | .refused ms err =>
        let s := s.sleep ms
        if s.now < deadline then probe port deadline n (k+1) (s.sleep 50)
        else refuse (startupFailure c command (refusedMessage command port err) s)

-- Each round takes time, so that there are no more rounds than milliseconds.
def waitUntilReady (s : Host) : Option (Except PrincessError Unit) × Host := match stubPort command.argv with
  | none => (some (.ok ()),s)
  | some port => probe c command port (s.now+command.readyTimeout) (command.readyTimeout+1) 0 s

end

inductive SpawnFailure where
  | notFound (err : Text)
  | other (err : Text)

-- An error drops the process, which ends its group once more.
def start (spawned : Except SpawnFailure Child) (command : QemuCommand) (s : Host) : Option (Except PrincessError QemuProcess) × Host :=
  match command.argv with
  | [] => (some (.error (.new .qemuFailed "QEMU command is empty".toList)),s)
  | program :: _ =>
    let couldNot (code : ErrorCode) (err : Text) := (PrincessError.new code ("could not start ".toList ++ program)).withDetail
      (command.display ++ '\n' :: err)
    match spawned with
    | .error (.notFound err) => (some (.error (couldNot .toolchainMissing err)),s)
    | .error (.other err) => (some (.error (couldNot .qemuFailed err)),s)
    | .ok c => match waitUntilReady c command s with
      | (none,s) => (none,s)
      | (some (.error e),s) => (some (.error e),terminateGroup c s)
      | (some (.ok ()),s) => (some (.ok ⟨c.pid,command⟩),s)

theorem heldOf_early {arrivals : List (Nat × Bytes)} (late : ∀ a ∈ arrivals, now < a.1) : heldOf arrivals now = [] := by
  rw [heldOf,List.filter_eq_nil_iff.mpr fun a inside => by simpa using late a inside]
  rfl

theorem fillsAt_by {arrivals : List (Nat × Bytes)} (ordered : arrivals.Pairwise fun a b => a.1 ≤ b.1) (positive : 0 < n) (now : Nat) :
    (fillsAt n arrivals).any (· ≤ now) = true ↔ n ≤ (heldOf arrivals now).length := by
  induction arrivals generalizing n with
  | nil =>
    change false = true ↔ n ≤ 0
    exact iff_of_false Bool.false_ne_true (by omega)
  | cons arrival rest ih =>
    obtain ⟨time,bytes⟩ := arrival
    obtain ⟨behind,later⟩ := List.pairwise_cons.mp ordered
    rw [fillsAt]
    by_cases early : time ≤ now
    · have held : heldOf ((time,bytes) :: rest) now = bytes ++ heldOf rest now := by
        rw [heldOf,List.filter_cons,if_pos (decide_eq_true early)]
        rfl
      rw [held,List.length_append]
      split
      · next enough => exact iff_of_true (decide_eq_true early) (by omega)
      · next short =>
        rw [ih later (by omega)]
        omega
    · have none : heldOf ((time,bytes) :: rest) now = [] := heldOf_early fun a inside => by
        rcases List.mem_cons.mp inside with rfl | inside
        · exact Nat.lt_of_not_le early
        · exact Nat.lt_of_lt_of_le (Nat.lt_of_not_le early) (behind a inside)
      have rest' : heldOf rest now = [] := heldOf_early fun a inside =>
        Nat.lt_of_lt_of_le (Nat.lt_of_not_le early) (behind a inside)
      rw [none]
      refine iff_of_false ?_ (by simp; omega)
      split
      · next enough => simpa using Nat.lt_of_not_le early
      · next short =>
        rw [ih later (by omega),rest']
        simp
        omega

theorem earliest_by (a b : Option Nat) (now : Nat) : (earliest a b).any (· ≤ now) = (a.any (· ≤ now) || b.any (· ≤ now)) := by
  cases a with
  | none => rfl
  | some a =>
    cases b with
    | none => exact (Bool.or_false _).symm
    | some b =>
      change decide (min a b ≤ now) = (decide (a ≤ now) || decide (b ≤ now))
      rw [← Bool.decide_or]
      exact decide_eq_decide.mpr (by omega)

-- A read need not wait for a pipe that has ended or holds as much as is read.
theorem Pipe.readyBy_iff (p : Pipe) (now : Nat) : p.readyBy now = true ↔ (∃ time, p.ended = some time ∧ time ≤ now) ∨ limit ≤ (p.held now).length := by
  rw [readyBy,ready,earliest_by,Bool.or_eq_true,fillsAt_by p.ordered (by decide),or_comm]
  refine or_congr_left ?_
  cases p.ended <;> simp

section
variable {c : Child}

-- From here on the deeds that are added are signals.
def Signals (s t : Host) : Prop := ∃ rest, t.deeds = s.deeds ++ rest ∧ ∀ deed ∈ rest, ∃ signal, deed = .signalled signal

theorem Signals.refl (s : Host) : Signals s s := ⟨[],(List.append_nil _).symm,fun _ none => (nomatch none)⟩

theorem Signals.trans (first : Signals s t) (second : Signals t u) : Signals s u := by
  obtain ⟨a,same,quiet⟩ := first
  obtain ⟨b,same',quiet'⟩ := second
  exact ⟨a ++ b,by rw [same',same,List.append_assoc],List.forall_mem_append.mpr ⟨quiet,quiet'⟩⟩

theorem Signals.deeds (signals : Signals s t) : s.deeds <+: t.deeds := by
  obtain ⟨rest,same,_⟩ := signals
  exact ⟨rest,same.symm⟩

theorem Signals.kill (s : Host) (signal : Signal) : Signals s (s.killpg signal) := by
  cases signal <;> exact ⟨[_],rfl,fun deed inside => ⟨_,List.mem_singleton.mp inside⟩⟩

theorem awaitExit_signals (c : Child) (deadline n : Nat) (s : Host) : Signals s (awaitExit c deadline n s) := by
  induction n generalizing s with
  | zero => exact .refl s
  | succ n ih =>
    rw [awaitExit]
    split
    · exact .refl s
    · split
      · exact ih (s.sleep 20)
      · exact .kill s .kill

theorem terminateGroup_signals (c : Child) (s : Host) : Signals s (terminateGroup c s) :=
  (Signals.kill s .term).trans ((awaitExit_signals c _ _ _).trans (.kill _ .kill))

-- The wait ends by one poll behind the deadline, or by the kill at that poll.
theorem awaitExit_bound (early : s.now ≤ deadline+20) (some : 0 < n) (enough : deadline < s.now + n) :
    (awaitExit c deadline n s).now ≤ deadline+20+c.killed ∧ (awaitExit c deadline n s).reaped = true := by
  induction n generalizing s with
  | zero => exact absurd some (Nat.lt_irrefl 0)
  | succ n ih =>
    rw [awaitExit]
    split
    · exact ⟨by change s.now ≤ _; omega,rfl⟩
    · split
      · next before =>
        have slept : (s.sleep 20).now = s.now+20 := rfl
        exact ih (by omega) (by omega) (by omega)
      · exact ⟨by change s.now+c.killed ≤ _; omega,rfl⟩

-- How long a group may take to end.
def killWait (c : Child) : Nat := 2000+20+c.killed

theorem terminateGroup_bound (c : Child) (s : Host) :
    (terminateGroup c s).now ≤ s.now + killWait c ∧ (terminateGroup c s).reaped = true := by
  have begun : (s.killpg .term).now = s.now := rfl
  obtain ⟨ends,reaped⟩ : (awaitExit c (s.now+2000) 2001 (s.killpg .term)).now ≤ s.now+2000+20+c.killed ∧ _ :=
    awaitExit_bound (by omega) (by decide) (by omega)
  refine ⟨?_,reaped⟩
  change (awaitExit c (s.now+2000) 2001 (s.killpg .term)).now ≤ _
  rw [killWait]
  omega

-- A child whose status is known has nothing more to wait for.
theorem terminateGroup_reaped (reaped : s.reaped = true) : (terminateGroup c s).now = s.now := by
  have gone : c.gone (s.killpg .term) = true := by
    change (s.reaped || _ || _) = true
    rw [reaped]
    rfl
  change (awaitExit c (s.now+2000) 2001 (s.killpg .term)).now = s.now
  rw [awaitExit,if_pos gone]
  rfl

theorem drainPipe_ready {p : Pipe} (ready : p.readyBy s.now = true) (stream : Stream) :
    ∃ bytes, drainPipe stream p s = (some bytes,s.did (.reads stream false)) := by
  unfold drainPipe
  cases time : p.ready with
  | none =>
    rw [Pipe.readyBy,time] at ready
    cases ready
  | some time' =>
    have past : time' ≤ s.now := by
      rw [Pipe.readyBy,time] at ready
      exact of_decide_eq_true ready
    have now : max s.now time' = s.now := Nat.max_eq_left past
    rw [ready]
    exact ⟨_,Prod.ext rfl (by change Host.mk (max s.now time') _ _ _ = _; rw [now]; rfl)⟩

theorem drainPipe_deeds (stream : Stream) (p : Pipe) (s : Host) :
    (drainPipe stream p s).2.deeds = s.deeds ++ [.reads stream (!p.readyBy s.now)] := by
  unfold drainPipe
  cases p.ready <;> rfl

theorem drainOutput_ready (err : c.stderr.readyBy s.now = true) (out : c.stdout.readyBy s.now = true) :
    ∃ text, drainOutput c s = (some text,(s.did (.reads .stderr false)).did (.reads .stdout false)) := by
  obtain ⟨_,first⟩ := drainPipe_ready err .stderr
  obtain ⟨_,second⟩ := drainPipe_ready (s:=s.did (.reads .stderr false)) out .stdout
  unfold drainOutput
  rw [first]
  dsimp only
  rw [second]
  exact ⟨_,rfl⟩

theorem drainOutput_first (c : Child) (s : Host) : (drainPipe .stderr c.stderr s).2.deeds <+: (drainOutput c s).2.deeds := by
  unfold drainOutput
  cases first : drainPipe .stderr c.stderr s with
  | mk err s =>
    cases err with
    | none => exact List.prefix_refl _
    | some err =>
      dsimp only
      have second := drainPipe_deeds .stdout c.stdout s
      cases later : drainPipe .stdout c.stdout s with
      | mk out t =>
        rw [later] at second
        cases out <;> exact ⟨_,second.symm⟩

-- A pipe that is not ready is waited for, whatever comes then.
theorem drainOutput_waits (wait : ¬ (c.stderr.readyBy s.now = true ∧ c.stdout.readyBy s.now = true)) :
    s.deeds ++ [.reads .stderr true] <+: (drainOutput c s).2.deeds ∨
      s.deeds ++ [.reads .stderr false,.reads .stdout true] <+: (drainOutput c s).2.deeds := by
  cases err : c.stderr.readyBy s.now with
  | false =>
    have first := drainOutput_first c s
    rw [drainPipe_deeds,err] at first
    exact .inl first
  | true =>
    have out : c.stdout.readyBy s.now = false := by
      rw [← Bool.not_eq_true]
      exact fun out => wait ⟨err,out⟩
    obtain ⟨bytes,first⟩ := drainPipe_ready err .stderr
    have second := drainPipe_deeds .stdout c.stdout (s.did (.reads .stderr false))
    have later : (drainOutput c s).2.deeds = (drainPipe .stdout c.stdout (s.did (.reads .stderr false))).2.deeds := by
      unfold drainOutput
      rw [first]
      dsimp only
      cases drainPipe .stdout c.stdout (s.did (.reads .stderr false)) with
      | mk out t => cases out <;> rfl
    refine .inr ⟨[],?_⟩
    rw [later,second,List.append_nil]
    change _ = s.deeds ++ [.reads .stderr false] ++ [.reads .stdout (!c.stdout.readyBy s.now)]
    rw [out,List.append_assoc]
    rfl

variable {command : QemuCommand}

theorem startupFailure_clear (err : c.stderr.readyBy s.now = true) (out : c.stdout.readyBy s.now = true) (message : Text) :
    ∃ e, startupFailure c command message s = (some e,terminateGroup c ((s.did (.reads .stderr false)).did (.reads .stdout false))) := by
  obtain ⟨text,drained⟩ := drainOutput_ready err out
  unfold startupFailure
  rw [drained]
  exact ⟨_,rfl⟩

theorem startupFailure_first (c : Child) (command : QemuCommand) (message : Text) (s : Host) :
    (drainOutput c s).2.deeds <+: (startupFailure c command message s).2.deeds := by
  unfold startupFailure
  cases drainOutput c s with
  | mk text t =>
    cases text with
    | none => exact List.prefix_refl _
    | some text => exact (terminateGroup_signals c t).deeds

end

-- When the rounds of the loop begin, as long as it goes on.
def began (c : Child) (origin : Nat) : Nat → Nat
  | 0 => origin
  | k+1 => began c origin k + (c.connects k).ms + 50

def Child.exitedBy (c : Child) (now : Nat) : Bool := c.exits.any (·.1 ≤ now)

-- The round and the moment of the failure: the first round that finds the child
-- gone, or that ends behind the deadline.
structure GivesUp (c : Child) (origin deadline k time : Nat) : Prop where
  earlier : ∀ j < k, c.exitedBy (began c origin j) = false ∧ began c origin j + (c.connects j).ms < deadline
  last : (c.exitedBy (began c origin k) = true ∧ time = began c origin k) ∨
    (c.exitedBy (began c origin k) = false ∧ deadline ≤ time ∧ time = began c origin k + (c.connects k).ms)

theorem GivesUp.unique (one : GivesUp c origin deadline k time) (other : GivesUp c origin deadline j time') : time = time' := by
  have before : ∀ {k j time time'}, GivesUp c origin deadline k time → GivesUp c origin deadline j time' → ¬ k < j := by
    intro k j time time' one other less
    obtain ⟨running,soon⟩ := other.earlier k less
    rcases one.last with ⟨gone,_⟩ | ⟨_,late,same⟩
    · rw [running] at gone
      cases gone
    · omega
  have same : k = j := Nat.le_antisymm (Nat.le_of_not_lt (before other one)) (Nat.le_of_not_lt (before one other))
  subst same
  rcases one.last with ⟨gone,now⟩ | ⟨running,_,now⟩ <;> rcases other.last with ⟨gone',now'⟩ | ⟨running',_,now'⟩
  · omega
  · rw [gone] at running'; cases running'
  · rw [running] at gone'; cases gone'
  · omega

-- The last round begins at most one pause behind the deadline.
theorem GivesUp.soon (gives : GivesUp c origin deadline k time) (ahead : origin ≤ deadline) : time ≤ deadline + 250 := by
  have begins : began c origin k ≤ deadline + 50 := by
    cases k with
    | zero => change origin ≤ _; omega
    | succ k =>
      have soon := (gives.earlier k (Nat.lt_succ_self k)).2
      change began c origin k + (c.connects k).ms + 50 ≤ _
      omega
  have quick := c.quick k
  rcases gives.last with ⟨_,now⟩ | ⟨_,_,now⟩ <;> omega

def NeverAccepts (c : Child) : Prop := ∀ k, ∃ ms err, c.connects k = .refused ms err

-- The loop ends with a failure at the moment it gives up.
theorem probe_gives {c : Child} {command : QemuCommand} (never : NeverAccepts c) (port : Nat) {origin : Nat} (some : 0 < n)
    (enough : deadline < s.now + n) (here : s.now = began c origin k)
    (earlier : ∀ j < k, c.exitedBy (began c origin j) = false ∧ began c origin j + (c.connects j).ms < deadline) :
    ∃ j time message, GivesUp c origin deadline j time ∧
      probe c command port deadline n k s = refuse (startupFailure c command message {s with now:=time}) := by
  induction n generalizing k s with
  | zero => exact absurd some (Nat.lt_irrefl 0)
  | succ n ih =>
    rw [probe]
    cases found : c.exits.filter (·.1 ≤ s.now) with
    | some exit =>
      have gone : c.exitedBy (began c origin k) = true := by
        obtain ⟨same,past⟩ := Option.filter_eq_some_iff.mp found
        rw [← here,Child.exitedBy,same]
        exact past
      exact ⟨k,s.now,exitedMessage exit.2,⟨earlier,.inl ⟨gone,here⟩⟩,rfl⟩
    | none =>
      have running : c.exitedBy (began c origin k) = false := by
        rw [← here,Child.exitedBy]
        cases exits : c.exits with
        | none => rfl
        | some exit => simpa [exits] using Option.filter_eq_none_iff.mp found exit exits
      obtain ⟨ms,err,same⟩ := never k
      have took : (c.connects k).ms = ms := by rw [same]; rfl
      dsimp only
      rw [same]
      dsimp only
      by_cases soon : s.now + ms < deadline
      · have later : ∀ j < k+1, c.exitedBy (began c origin j) = false ∧ began c origin j + (c.connects j).ms < deadline := by
          intro j less
          rcases Nat.lt_succ_iff_lt_or_eq.mp less with before | rfl
          · exact earlier j before
          · exact ⟨running,by rw [took,← here]; exact soon⟩
        have slept : ((s.sleep ms).sleep 50).now = s.now+ms+50 := rfl
        have next : ((s.sleep ms).sleep 50).now = began c origin (k+1) := by
          rw [slept,here,← took]
          rfl
        obtain ⟨j,time,message,gives,ends⟩ := ih (s:=(s.sleep ms).sleep 50) (by omega) (by omega) next later
        refine ⟨j,time,message,gives,?_⟩
        exact (if_pos soon).trans ends
      · refine ⟨k,s.now+ms,refusedMessage command port err,⟨earlier,.inr ⟨running,Nat.le_of_not_lt soon,by rw [here,took]⟩⟩,?_⟩
        exact if_neg soon

def Host.fresh (now : Nat) : Host := ⟨now,[],none,false⟩

-- Startup of a child whose stub never accepts: the group is signalled before a
-- read that has to wait, and the error is there in time, up to the last round.
structure Prompt (c : Child) (command : QemuCommand) (now : Nat) : Prop where
  ordered : ∀ front stream back, (start (.ok c) command (.fresh now)).2.deeds = front ++ .reads stream true :: back →
    ∃ signal, .signalled signal ∈ front
  answers : ∃ e after, start (.ok c) command (.fresh now) = (some (.error e),after) ∧
    after.now ≤ now + command.readyTimeout + 250 + killWait c

-- When startup gives up, both pipes have ended or hold as much as is read of them.
def Drained (c : Child) (command : QemuCommand) (now : Nat) : Prop := ∃ k time, GivesUp c now (now+command.readyTimeout) k time ∧
  c.stderr.readyBy time = true ∧ c.stdout.readyBy time = true

theorem stub_argv (port : stubPort argv = some p) : ∃ program rest, argv = program :: rest := by
  cases argv with
  | nil => cases port
  | cons program rest => exact ⟨program,rest,rfl⟩

theorem start_fails {c : Child} {command : QemuCommand} (stub : stubPort command.argv = some port) (never : NeverAccepts c) (now : Nat) :
    ∃ k time message, GivesUp c now (now+command.readyTimeout) k time ∧
      start (.ok c) command (.fresh now) = match startupFailure c command message {Host.fresh now with now:=time} with
        | (none,s) => (none,s)
        | (some e,s) => (some (.error e),terminateGroup c s) := by
  have begun : (Host.fresh now).now = now := rfl
  obtain ⟨k,time,message,gives,ends⟩ : ∃ k time message, GivesUp c now (now+command.readyTimeout) k time ∧
      probe c command port (now+command.readyTimeout) (command.readyTimeout+1) 0 (.fresh now) =
        refuse (startupFailure c command message {Host.fresh now with now:=time}) :=
    probe_gives never port (by omega) (by omega) begun (fun j none => (nomatch none))
  obtain ⟨program,rest,argv⟩ := stub_argv stub
  refine ⟨k,time,message,gives,?_⟩
  have waited : waitUntilReady c command (.fresh now) = refuse (startupFailure c command message {Host.fresh now with now:=time}) := by
    rw [waitUntilReady,stub]
    exact ends
  unfold start
  rw [argv]
  dsimp only
  rw [waited]
  cases startupFailure c command message {Host.fresh now with now:=time} with
  | mk e s => cases e <;> rfl

theorem start_clear {c : Child} {command : QemuCommand} (stub : stubPort command.argv = some port) (never : NeverAccepts c) {now : Nat}
    (drained : Drained c command now) : Prompt c command now := by
  obtain ⟨k,time,message,gives,ends⟩ := start_fails stub never now
  obtain ⟨j,time',gives',err,out⟩ := drained
  obtain rfl := gives.unique gives'
  generalize failing : ({Host.fresh now with now:=time} : Host) = s at ends
  have at' : s.now = time := by rw [← failing]
  obtain ⟨e,failed⟩ : ∃ e, startupFailure c command message s = (some e,terminateGroup c ((s.did (.reads .stderr false)).did (.reads .stdout false))) :=
    startupFailure_clear (at' ▸ err) (at' ▸ out) message
  rw [failed] at ends
  have signals := (terminateGroup_signals c ((s.did (.reads .stderr false)).did (.reads .stdout false))).trans (terminateGroup_signals c _)
  constructor
  · intro front stream back same
    obtain ⟨rest,deeds,quiet⟩ := signals
    have waits : .reads stream true ∈ (start (.ok c) command (.fresh now)).2.deeds := by
      rw [same]
      exact List.mem_append_right _ List.mem_cons_self
    rw [ends] at waits
    dsimp only at waits
    rw [deeds,← failing] at waits
    rcases List.mem_append.mp waits with drained | later
    · change Deed.reads stream true ∈ [Deed.reads .stderr false,Deed.reads .stdout false] at drained
      simp at drained
    · obtain ⟨signal,other⟩ := quiet _ later
      cases other
  · refine ⟨e,_,ends,?_⟩
    obtain ⟨bound,reaped⟩ := terminateGroup_bound c ((s.did (.reads .stderr false)).did (.reads .stdout false))
    have soon := gives.soon (Nat.le_add_right now command.readyTimeout)
    have same : ((s.did (.reads .stderr false)).did (.reads .stdout false)).now = time := at'
    rw [terminateGroup_reaped reaped]
    omega

theorem start_waits {c : Child} {command : QemuCommand} (stub : stubPort command.argv = some port) (never : NeverAccepts c) {now : Nat}
    (prompt : Prompt c command now) : Drained c command now := by
  obtain ⟨k,time,message,gives,ends⟩ := start_fails stub never now
  refine ⟨k,time,gives,?_⟩
  by_contra wait
  have first := startupFailure_first c command message {Host.fresh now with now:=time}
  have whole : (startupFailure c command message {Host.fresh now with now:=time}).2.deeds <+: (start (.ok c) command (.fresh now)).2.deeds := by
    rw [ends]
    cases startupFailure c command message {Host.fresh now with now:=time} with
    | mk e s =>
      cases e with
      | none => exact List.prefix_refl _
      | some e => exact (terminateGroup_signals c s).deeds
  have unordered : ∀ front stream, front ++ [.reads stream true] <+: (start (.ok c) command (.fresh now)).2.deeds →
      ∃ signal, .signalled signal ∈ front := by
    rintro front stream ⟨back,same⟩
    refine prompt.ordered front stream back ?_
    rw [← same,List.append_assoc]
    rfl
  rcases drainOutput_waits (s:={Host.fresh now with now:=time}) wait with err | out
  · obtain ⟨signal,inside⟩ := unordered [] .stderr ((err.trans first).trans whole)
    cases inside
  · obtain ⟨signal,inside⟩ := unordered [.reads .stderr false] .stdout ((out.trans first).trans whole)
    simp at inside

-- Startup keeps its promise exactly where its reads have nothing to wait for.
theorem start_iff {c : Child} {command : QemuCommand} (stub : stubPort command.argv = some port) (never : NeverAccepts c) (now : Nat) :
    Prompt c command now ↔ Drained c command now := ⟨start_waits stub never,start_clear stub never⟩

def stubCommand : QemuCommand := ⟨["qemu-system-x86_64".toList,"-s".toList],"/".toList,100⟩

-- A child that prints a line, and whose pipes end with it, if at all.
def child (exits : Option Nat) (ended : Option Nat) : Child where
  pid := 7
  stderr := ⟨[(10,[101,10])],ended,List.pairwise_singleton _ _⟩
  stdout := ⟨[],ended,.nil⟩
  exits := exits.map fun time => (time,"exit status: 1".toList)
  connects _ := .refused 0 "Connection refused".toList
  quick _ := Nat.zero_le _
  terminates := some 5
  killed := 1

theorem child_refuses (exits ended : Option Nat) : NeverAccepts (child exits ended) := fun _ => ⟨0,_,rfl⟩

-- A machine that exits with nobody else at its pipes.
theorem exit_prompt : Prompt (child (some 30) (some 30)) stubCommand 0 := by
  refine (start_iff (rfl : stubPort stubCommand.argv = some 1234) (child_refuses _ _) 0).mpr ⟨1,50,⟨fun j less => ?_,.inl (by decide)⟩,by decide,by decide⟩
  obtain rfl : j = 0 := by omega
  decide

-- A machine that hangs, or exits with somebody else at its pipes: startup never answers.
theorem silent_hangs : stubPort stubCommand.argv = some 1234 ∧ NeverAccepts (child none none) ∧ NeverAccepts (child (some 30) none) ∧
    ¬ Prompt (child none none) stubCommand 0 ∧ ¬ Prompt (child (some 30) none) stubCommand 0 := by
  have stuck : ∀ c now, (start (.ok c) stubCommand (.fresh now)).1 = none → ¬ Prompt c stubCommand now := by
    intro c now never prompt
    obtain ⟨e,after,answer,_⟩ := prompt.answers
    rw [answer] at never
    cases never
  exact ⟨rfl,child_refuses _ _,child_refuses _ _,stuck _ _ rfl,stuck _ _ rfl⟩

end PrincessIDE.Startup
