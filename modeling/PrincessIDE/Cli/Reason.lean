import PrincessIDE.Cli.Exited

namespace PrincessIDE.CliRun
open Utf8 (Text)
open Error Event Effect Loop
open RunBackend (RunPlan RunOutcome ExitFacts classifyExit)

variable {w : World} {p : Plan}

-- What came first: the exit of the emulator was observed, or its group was
-- killed for the deadline or for a cancel.
inductive Cause where
  | exited
  | deadline
  | cancelled
deriving DecidableEq, Repr

def ends (s : Watch) (t : Tick) : Option Cause := match armOf s t with
  | .waited (.ok _) => some .exited
  | .deadline => some .deadline
  | .cancelAfter => some .cancelled
  | _ => if heeds (armed s t) t then some .cancelled else none

-- The iteration that was the first of these, with the state it led to and those behind it.
structure Decision where
  cause : Cause
  tick : Tick
  after : Watch
  later : List Tick

def decision (s : Watch) : List Tick → Option Decision
  | [] => none
  | t :: rest => match ends s t with
    | some cause => some ⟨cause,t,step s t,rest⟩
    | none => decision (step s t) rest

-- An iteration takes the future.
def Fires (arm : Arm) (s : Watch) : List Tick → Prop
  | [] => False
  | t :: rest => armOf s t = arm ∨ Fires arm (step s t) rest

-- Somebody else sets the cancel token before the facts are read.
def Heard (w : World) (ticks : List Tick) : Prop := (∃ t ∈ ticks, t.cancelled = true) ∨ w.cancelled = true

-- No timer and no cancel comes behind the exit, and no deadline behind the kill of a cancel.
def Undisturbed (w : World) (d : Decision) : Prop := match d.cause with
  | .deadline => True
  | .cancelled => ¬ Fires .deadline d.after d.later
  | .exited => ¬ Fires .deadline d.after d.later ∧ ¬ Fires .cancelAfter d.after d.later ∧ ¬ Heard w (d.tick :: d.later)

def KilledByCancel (f : ExitFacts) : Prop := classifyExit f = .killed ∧ f.cancelled = true

structure Attributed (d : Decision) (o : RunOutcome) (f : ExitFacts) : Prop where
  exited : d.cause = .exited → o.reason ≠ .timeout ∧ ¬ KilledByCancel f
  timeout : o.reason = .timeout ↔ d.cause = .deadline

-- Nothing has happened to the emulator yet.
structure Fresh (s : Watch) : Prop where
  timedOut : s.timedOut = false
  cancelled : s.cancelled = false
  status : s.status = none
  exitAt : s.exitAt = none
  cancelKillDone : s.cancelKillDone = false

theorem heard_timedOut (s : Watch) (t : Tick) : (heard s t).timedOut = s.timedOut := by
  unfold heard
  split <;> rfl

theorem heard_cancelled (s : Watch) (t : Tick) : (heard s t).cancelled = (s.cancelled || t.cancelled) := by
  unfold heard
  split <;> rfl

theorem reaped_timedOut (s : Watch) (t : Tick) : (reaped s t).timedOut = s.timedOut := by
  unfold reaped
  split
  · split <;> rfl
  · rfl

theorem reaped_cancelled (s : Watch) (t : Tick) : (reaped s t).cancelled = s.cancelled := by
  unfold reaped
  split
  · split <;> rfl
  · rfl

theorem armed_timedOut (s : Watch) (t : Tick) : (armed s t).timedOut = true ↔ s.timedOut = true ∨ armOf s t = .deadline := by
  unfold armed
  split <;> simp_all

theorem armed_cancelled (s : Watch) (t : Tick) : (armed s t).cancelled = true ↔ s.cancelled = true ∨ armOf s t = .cancelAfter := by
  unfold armed
  split <;> simp_all

theorem step_timedOut (s : Watch) (t : Tick) : (step s t).timedOut = true ↔ s.timedOut = true ∨ armOf s t = .deadline := by
  rw [step,reaped_timedOut,heard_timedOut,armed_timedOut]

theorem step_cancelled (s : Watch) (t : Tick) :
    (step s t).cancelled = true ↔ (s.cancelled = true ∨ armOf s t = .cancelAfter) ∨ t.cancelled = true := by
  rw [step,reaped_cancelled,heard_cancelled,Bool.or_eq_true,armed_cancelled]

theorem run_timedOut (s : Watch) (ticks : List Tick) :
    (ticks.foldl step s).timedOut = true ↔ s.timedOut = true ∨ Fires .deadline s ticks := by
  induction ticks generalizing s with
  | nil => simp [Fires]
  | cons t rest ih =>
    rw [List.foldl_cons,ih,step_timedOut,Fires]
    tauto

theorem run_cancelled (s : Watch) (ticks : List Tick) : (ticks.foldl step s).cancelled = true ↔
    s.cancelled = true ∨ Fires .cancelAfter s ticks ∨ ∃ t ∈ ticks, t.cancelled = true := by
  induction ticks generalizing s with
  | nil => simp [Fires]
  | cons t rest ih =>
    rw [List.foldl_cons,ih,step_cancelled,Fires]
    simp only [List.mem_cons,exists_eq_or_imp]
    tauto

-- As long as nothing has been first, the emulator runs on.
theorem ends_none (fresh : Fresh s) (undecided : ends s t = none) : Fresh (step s t) := by
  have armedFresh : Fresh (armed s t) ∧ heeds (armed s t) t = false := by
    unfold ends at undecided
    split at undecided
    · cases undecided
    · cases undecided
    · cases undecided
    · rename_i exited deadline cancelAfter
      refine ⟨?_,by simpa using undecided⟩
      unfold armed
      split
      all_goals first | exact ⟨fresh.1,fresh.2,fresh.3,fresh.4,fresh.5⟩ | contradiction | skip
      · exact absurd ‹_› (exited _)
  obtain ⟨still,calm⟩ := armedFresh
  have quiet : t.cancelled = false := by simpa [heeds,still.cancelled,still.cancelKillDone,still.status] using calm
  have unheard : heard (armed s t) t = armed s t := by
    have same : (armed s t).cancelled = ((armed s t).cancelled || t.cancelled) := by rw [quiet,Bool.or_false]
    unfold heard
    rw [calm,if_neg Bool.false_ne_true,← same]
  have running : reaped (armed s t) t = armed s t := by
    have idle : reaps (armed s t) = false := by simp [reaps,still.cancelKillDone]
    unfold reaped
    split
    · rw [idle,if_neg Bool.false_ne_true]
    · rfl
  rw [step,unheard,running]
  exact still

theorem decision_none (fresh : Fresh s) (undecided : decision s ticks = none) : Fresh (ticks.foldl step s) := by
  induction ticks generalizing s with
  | nil => exact fresh
  | cons t rest ih =>
    rw [decision] at undecided
    cases first : ends s t with
    | some cause => rw [first] at undecided; cases undecided
    | none =>
      rw [first] at undecided
      exact ih (ends_none fresh first) undecided

theorem decision_some (fresh : Fresh s) (decided : decision s ticks = some d) : ticks.foldl step s = d.later.foldl step d.after ∧
    ∃ m, Fresh m ∧ ends m d.tick = some d.cause ∧ d.after = step m d.tick := by
  induction ticks generalizing s with
  | nil => cases decided
  | cons t rest ih =>
    rw [decision] at decided
    cases first : ends s t with
    | some cause =>
      rw [first] at decided
      cases decided
      exact ⟨rfl,s,fresh,first,rfl⟩
    | none =>
      rw [first] at decided
      exact ih (ends_none fresh first) decided

theorem ends_deadline : ends s t = some .deadline ↔ armOf s t = .deadline := by
  unfold ends
  constructor
  · intro first
    split at first
    · cases first
    · assumption
    · cases first
    · split at first <;> cases first
  · intro arm
    rw [arm]

theorem ends_exited (first : ends s t = some .exited) : armOf s t ≠ .cancelAfter := by
  intro arm
  rw [ends,arm] at first
  cases first

-- Whether the deadline has fired, from what came first.
theorem decided_timedOut (fresh : Fresh s) (decided : decision s ticks = some d) :
    (ticks.foldl step s).timedOut = true ↔ d.cause = .deadline ∨ Fires .deadline d.after d.later := by
  obtain ⟨same,m,still,first,after⟩ := decision_some fresh decided
  rw [same,run_timedOut,after,step_timedOut,still.timedOut,← ends_deadline,first]
  simp

theorem decided_cancelled (fresh : Fresh s) (decided : decision s ticks = some d) (exited : d.cause = .exited) :
    (ticks.foldl step s).cancelled = true ↔ Fires .cancelAfter d.after d.later ∨ ∃ t ∈ d.tick :: d.later, t.cancelled = true := by
  obtain ⟨same,m,still,first,after⟩ := decision_some fresh decided
  rw [exited] at first
  rw [same,run_cancelled,after,step_cancelled,still.cancelled]
  simp only [Bool.false_eq_true,ends_exited first,or_self,false_or,List.mem_cons,exists_eq_or_imp]
  tauto

theorem classifyExit_timeout (f : ExitFacts) : classifyExit f = .timeout ↔ f.cancelled = false ∧ f.timedOut = true := by
  unfold classifyExit
  split
  · simp_all
  · split
    · simp_all
    · split
      · simp_all
      · split
        · simp_all
        · split <;> simp_all

theorem facts_timeout (w : World) (s : Running) : classifyExit (facts w s) = .timeout ↔ s.watch.timedOut = true := by
  rw [classifyExit_timeout]
  cases timedOut : s.watch.timedOut <;> simp [facts,timedOut]

theorem facts_killed (w : World) (s : Running) :
    KilledByCancel (facts w s) ↔ (s.watch.cancelled = true ∨ w.cancelled = true) ∧ s.watch.timedOut = false := by
  have killed : (facts w s).cancelled = true → classifyExit (facts w s) = .killed := fun held => by rw [classifyExit,if_pos held]
  have both : (facts w s).cancelled = true ↔ (s.watch.cancelled = true ∨ w.cancelled = true) ∧ s.watch.timedOut = false := by
    simp [facts]
  exact ⟨fun held => both.mp held.2,fun held => ⟨killed (both.mpr held),both.mpr held⟩⟩

theorem reapLast_flags (done : (reapLast w).run s = .ok a u) :
    u.watch.timedOut = s.watch.timedOut ∧ u.watch.cancelled = s.watch.cancelled := by
  rw [reapLast,run_get] at done
  cases status : s.watch.status with
  | some status =>
    rw [status] at done
    cases done
    exact ⟨rfl,rfl⟩
  | none =>
    rw [status,if_pos Option.isNone_none] at done
    cases answer : w.reaped with
    | ok status =>
      rw [answer] at done
      cases done
      exact ⟨rfl,rfl⟩
    | error err =>
      rw [answer] at done
      cases done

-- What is concluded is concluded from the flags that the loop left.
theorem conclude_flags (done : (conclude w p).run s = .ok o u) : (o.reason = .timeout ↔ s.watch.timedOut = true) ∧
    u.watch.timedOut = s.watch.timedOut ∧ u.watch.cancelled = s.watch.cancelled := by
  obtain ⟨_,_,printed,rest⟩ := run_bind_parts done
  obtain ⟨out,_,rfl⟩ := printing_parts printed
  obtain ⟨_,r,reaped,last⟩ := run_bind_parts rest
  have flags : r.watch.timedOut = s.watch.timedOut ∧ r.watch.cancelled = s.watch.cancelled :=
    reapLast_flags (s:=⟨s.watch,out⟩) reaped
  rw [run_get] at last
  obtain ⟨final,told,rfl⟩ := printing_parts last
  have outcome : o = outcomeOf w p r := by
    obtain ⟨_,_,_,told⟩ := run_bind_parts told
    obtain ⟨_,_,_,told⟩ := run_bind_parts told
    obtain ⟨_,_,_,told⟩ := run_bind_parts told
    obtain ⟨_,_,_,told⟩ := run_bind_parts told
    cases told
    rfl
  rw [outcome]
  exact ⟨(facts_timeout w r).trans (by rw [flags.1]),flags⟩

theorem supervise_broke (returned : supervise w p s = (some (.ok outcome),u)) :
    ∃ m rest, loop (iteration w p) s w.ticks = (some .broke,m,rest) ∧ (conclude w p).run m = .ok outcome u := by
  unfold supervise at returned
  rcases here : loop (iteration w p) s w.ticks with ⟨left,m,rest⟩
  rw [here] at returned
  cases left with
  | none => cases returned
  | some left => cases left with
    | failed e => cases returned
    | broke =>
      dsimp only at returned
      cases concluded : (conclude w p).run m with
      | ok o v => rw [concluded] at returned; cases returned; exact ⟨m,rest,rfl,concluded⟩
      | error e v => rw [concluded] at returned; cases returned

theorem begin_fresh (plan : RunPlan) (options : RunOptions) (events : List EventBody) : Fresh (begin plan options events).watch :=
  ⟨rfl,rfl,rfl,rfl,rfl⟩

theorem fresh_runs (fresh : Fresh s) (t : Tick) : drained s t = false := by
  unfold drained
  rw [fresh.status,fresh.exitAt]
  rfl

-- The loop is left only behind an iteration that decided, with the flags that its iterations made.
theorem supervise_decided (fresh : Fresh s.watch) (left : loop (iteration w p) s w.ticks = (some .broke,m,rest)) :
    ∃ d, decision s.watch (passed (iteration w p) s w.ticks) = some d ∧
      m.watch = (passed (iteration w p) s w.ticks).foldl step s.watch := by
  obtain ⟨t,last,on,leave⟩ := passed_left left
  have flags := goesOn_fold Running.watch step (fun s t u next => (turn_parts (iteration_next next).2).1) on
  rcases iteration_leave leave with ⟨ended,_,rfl⟩ | ⟨_,e,_,same⟩
  · cases decided : decision s.watch (passed (iteration w p) s w.ticks) with
    | some d => exact ⟨d,rfl,flags⟩
    | none =>
      have still := decision_none fresh decided
      rw [← flags] at still
      rw [fresh_runs still] at ended
      cases ended
  · cases same

theorem exit_attributed_iff (returned : supervise w p (begin plan options events) = (some (.ok outcome),u)) :
    ∃ d, decision (begin plan options events).watch (passed (iteration w p) (begin plan options events) w.ticks) = some d ∧
      (Attributed d outcome (facts w u) ↔ Undisturbed w d) := by
  obtain ⟨m,rest,left,concluded⟩ := supervise_broke returned
  obtain ⟨d,decided,flags⟩ := supervise_decided (begin_fresh plan options events) left
  obtain ⟨reason,timedOut,cancelled⟩ := conclude_flags concluded
  have fresh := begin_fresh plan options events
  have fired := decided_timedOut fresh decided
  rw [← flags] at fired
  have killed := facts_killed w u
  rw [timedOut,cancelled] at killed
  refine ⟨d,decided,?_⟩
  unfold Undisturbed
  cases cause : d.cause with
  | deadline =>
    refine ⟨fun _ => trivial,fun _ => ⟨fun other => (nomatch cause.symm.trans other),?_⟩⟩
    exact ⟨fun _ => cause,fun _ => reason.mpr (fired.mpr (.inl cause))⟩
  | cancelled =>
    rw [cause] at fired
    constructor
    · intro attributed late
      have same := attributed.timeout.mp (reason.mpr (fired.mpr (.inr late)))
      cases cause.symm.trans same
    · intro calm
      refine ⟨fun other => (nomatch cause.symm.trans other),fun timeout => ?_,fun other => (nomatch cause.symm.trans other)⟩
      exact absurd ((fired.mp (reason.mp timeout)).resolve_left nofun) calm
  | exited =>
    have heard := decided_cancelled fresh decided cause
    rw [← flags] at heard
    rw [cause] at fired
    constructor
    · intro attributed
      obtain ⟨untimed,unkilled⟩ := attributed.exited cause
      have calm : ¬ Fires .deadline d.after d.later := fun late => untimed (reason.mpr (fired.mpr (.inr late)))
      have running : m.watch.timedOut = false := by
        rw [← Bool.not_eq_true,← reason]
        exact untimed
      refine ⟨calm,fun late => unkilled (killed.mpr ⟨.inl (heard.mpr (.inl late)),running⟩),?_⟩
      rintro (inside | after)
      · exact unkilled (killed.mpr ⟨.inl (heard.mpr (.inr inside)),running⟩)
      · exact unkilled (killed.mpr ⟨.inr after,running⟩)
    · rintro ⟨calm,uncancelled,unheard⟩
      have untimed : outcome.reason ≠ .timeout := fun timeout => absurd ((fired.mp (reason.mp timeout)).resolve_left nofun) calm
      refine ⟨fun _ => ⟨untimed,fun held => ?_⟩,fun timeout => absurd timeout untimed,fun other => (nomatch cause.symm.trans other)⟩
      rcases (killed.mp held).1 with set | after
      · rcases heard.mp set with late | inside
        · exact uncancelled late
        · exact unheard (.inl inside)
      · exact unheard (.inr after)

theorem exit_attributed_booted : ∃ d, decision (begin kernelPlan plain []).watch
    (passed (iteration booted ⟨kernelPlan,none,7⟩) (begin kernelPlan plain []) booted.ticks) = some d ∧
      (Attributed d ⟨some 0,.guestShutdown,40,none,some "/k/serial.log".toList⟩
        (facts booted (supervise booted ⟨kernelPlan,none,7⟩ (begin kernelPlan plain [])).2) ↔ Undisturbed booted d) :=
  exit_attributed_iff (Prod.ext (by decide +kernel) rfl)

-- QEMU exits at once, and its pipes stay open until the deadline has passed.
def held : World := {booted with ticks:=answering [.waited (.ok ⟨some 0,none⟩),.deadline,.serial (.ok []),.monitor (.ok []),.idle]}

theorem exit_misattributed : ∃ d outcome u, supervise held ⟨kernelPlan,none,7⟩ (begin kernelPlan plain []) = (some (.ok outcome),u) ∧
    decision (begin kernelPlan plain []).watch
      (passed (iteration held ⟨kernelPlan,none,7⟩) (begin kernelPlan plain []) held.ticks) = some d ∧
    ¬ Attributed d outcome (facts held u) :=
  ⟨_,⟨some 0,.timeout,40,none,some "/k/serial.log".toList⟩,_,Prod.ext (by decide +kernel) rfl,rfl,
    fun attributed => (attributed.exited rfl).1 rfl⟩

end PrincessIDE.CliRun
