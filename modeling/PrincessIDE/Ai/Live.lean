import PrincessIDE.Foundation.Steps
import PrincessIDE.Foundation.Utf8

namespace PrincessIDE.Ai
open Utf8 (Text)
open Steps

-- A stop flag is a shared cell, named by the number it was made under.
structure LiveRequest where
  requestId : Text
  stop : Nat
deriving DecidableEq, Repr

inductive Phase where
  | starting
  | attempt (stop : Nat) (first : Bool)
  | between
  | ending
  | finishing
deriving DecidableEq, Repr

-- A call of `chat_completions` that has not returned. `cancelled` is no field of
-- the code's: it remembers that a `cancel` with the id came since the call began.
structure ChatCall where
  requestId : Text
  phase : Phase
  cancelled : Bool
deriving DecidableEq, Repr

-- The flag that the call polls.
def ChatCall.stop (call : ChatCall) : Option Nat := match call.phase with
  | .attempt stop _ => some stop
  | _ => none

structure OpenAiProvider where
  includeUsage : Bool
  live : List LiveRequest
  stops : Nat → Bool
  made : Nat
  calls : Nat → Option ChatCall

-- Every step is one critical section of the table, or lies between two.
inductive Step where
  | begin (call : Nat) (requestId : Text)
  | refuse (call : Nat)
  | register (call : Nat)
  | leave (call : Nat) (unknownOption : Bool)
  | giveUp (call : Nat)
  | remove (call : Nat)
  | finish (call : Nat)
  | cancel (requestId : Text)
deriving DecidableEq, Repr

namespace OpenAiProvider

def new (includeUsage : Bool) : OpenAiProvider := ⟨includeUsage,[],fun _ => false,0,fun _ => none⟩

def put (p : OpenAiProvider) (c : Nat) (call : Option ChatCall) : OpenAiProvider :=
  {p with calls:=fun d => if d = c then call else p.calls d}

def push (p : OpenAiProvider) (requestId : Text) : OpenAiProvider :=
  {p with live:=p.live ++ [⟨requestId,p.made⟩],made:=p.made+1}

def removeLiveRequest (p : OpenAiProvider) (requestId : Text) : OpenAiProvider :=
  {p with live:=p.live.filter fun entry => entry.requestId ≠ requestId}

def cancel (p : OpenAiProvider) (requestId : Text) : OpenAiProvider :=
  {p with
    stops:=fun f => p.stops f || p.live.any fun entry => entry.requestId = requestId ∧ entry.stop = f
    calls:=fun c => (p.calls c).map fun call => {call with cancelled:=call.cancelled || call.requestId = requestId}}

-- The first exchange of a call is followed by a second where the server knows no
-- `stream_options`.
def nextPhase (p : OpenAiProvider) (first unknownOption : Bool) : Phase :=
  if first ∧ p.includeUsage ∧ unknownOption then .between else .ending

-- The guard of an exchange and the end of the call both remove by id. A sink that
-- fails between two exchanges ends the call at once.
def execute (p : OpenAiProvider) : Step → Option OpenAiProvider
  | .begin c requestId => match p.calls c with
    | none => some (p.put c (some ⟨requestId,.starting,false⟩))
    | some _ => none
  | .refuse c => match p.calls c with
    | some ⟨_,.starting,_⟩ => some (p.put c none)
    | _ => none
  | .register c => match p.calls c with
    | some ⟨requestId,.starting,cancelled⟩ =>
      some ((p.push requestId).put c (some ⟨requestId,.attempt p.made true,cancelled⟩))
    | some ⟨requestId,.between,cancelled⟩ =>
      some ((p.push requestId).put c (some ⟨requestId,.attempt p.made false,cancelled⟩))
    | _ => none
  | .leave c unknownOption => match p.calls c with
    | some ⟨requestId,.attempt _ first,cancelled⟩ =>
      some ((p.removeLiveRequest requestId).put c (some ⟨requestId,p.nextPhase first unknownOption,cancelled⟩))
    | _ => none
  | .giveUp c => match p.calls c with
    | some ⟨_,.between,_⟩ => some (p.put c none)
    | _ => none
  | .remove c => match p.calls c with
    | some ⟨requestId,.ending,cancelled⟩ =>
      some ((p.removeLiveRequest requestId).put c (some ⟨requestId,.finishing,cancelled⟩))
    | _ => none
  | .finish c => match p.calls c with
    | some ⟨_,.finishing,_⟩ => some (p.put c none)
    | _ => none
  | .cancel requestId => some (p.cancel requestId)

end OpenAiProvider

-- Every call that polls a flag has its entry in the table, and where it was
-- cancelled the flag is set.
def Heard (p : OpenAiProvider) : Prop := ∀ c call stop, p.calls c = some call → call.stop = some stop →
  ⟨call.requestId,stop⟩ ∈ p.live ∧ (call.cancelled → p.stops stop)

-- No call enters an exchange that was cancelled before, and none removes the
-- entries of an id under which another call is in an exchange.
def Careful (p : OpenAiProvider) : Step → Prop
  | .register c => ∀ call, p.calls c = some call → call.cancelled = false
  | .leave c _ | .remove c => ∀ call, p.calls c = some call → ∀ d other, d ≠ c → p.calls d = some other →
    other.stop.isSome → other.requestId ≠ call.requestId
  | _ => True

-- Flags are set only through entries, and entries are of flags that were made.
def Fresh (p : OpenAiProvider) : Prop :=
  (∀ entry ∈ p.live, entry.stop < p.made) ∧ ∀ f, p.made ≤ f → p.stops f = false

def Sound (p : OpenAiProvider) : Prop := Heard p ∧ Fresh p

theorem new_sound (includeUsage : Bool) : Sound (.new includeUsage) := by
  simp [Sound,Heard,Fresh,OpenAiProvider.new]

theorem put_fresh (fresh : Fresh p) (c : Nat) (call : Option ChatCall) : Fresh (p.put c call) := fresh

theorem push_fresh (fresh : Fresh p) (requestId : Text) : Fresh (p.push requestId) := by
  constructor
  · intro entry present
    change entry.stop < p.made+1
    rcases List.mem_append.mp present with prior | added
    · exact Nat.lt_succ_of_lt (fresh.1 entry prior)
    · rw [List.mem_singleton.mp added]
      exact Nat.lt_succ_self _
  · intro f above
    exact fresh.2 f (Nat.le_of_succ_le above)

theorem remove_fresh (fresh : Fresh p) (requestId : Text) : Fresh (p.removeLiveRequest requestId) :=
  ⟨fun entry present => fresh.1 entry (List.mem_of_mem_filter present),fresh.2⟩

theorem cancel_fresh (fresh : Fresh p) (requestId : Text) : Fresh (p.cancel requestId) := by
  refine ⟨fresh.1,?_⟩
  intro f above
  have unset := fresh.2 f above
  have unheld : ∀ entry ∈ p.live, entry.stop ≠ f := fun entry present => Nat.ne_of_lt (Nat.lt_of_lt_of_le (fresh.1 entry present) above)
  simp only [OpenAiProvider.cancel,unset,Bool.false_or,List.any_eq_false,decide_eq_true_eq]
  intro entry present both
  exact unheld entry present both.2

-- A call that polls nothing may come, go and change.
theorem put_heard (heard : Heard p) (c : Nat) (call : Option ChatCall) (idle : ∀ x ∈ call, x.stop = none) :
    Heard (p.put c call) := by
  intro d other stop held polls
  by_cases same : d = c
  · subst same
    have there : call = some other := by simpa [OpenAiProvider.put] using held
    cases polls.symm.trans (idle other there)
  · exact heard d other stop (by simpa [OpenAiProvider.put,same] using held) polls

theorem cancel_heard (heard : Heard p) (requestId : Text) : Heard (p.cancel requestId) := by
  intro c call stop held polls
  obtain ⟨before,there,rfl⟩ := Option.map_eq_some_iff.mp held
  obtain ⟨entered,set⟩ := heard c before stop there polls
  refine ⟨entered,?_⟩
  intro cancelled
  simp only [Bool.or_eq_true,decide_eq_true_eq] at cancelled
  simp only [OpenAiProvider.cancel,Bool.or_eq_true,List.any_eq_true,decide_eq_true_eq]
  rcases cancelled with earlier | now
  · exact .inl (set earlier)
  · exact .inr ⟨_,entered,now,rfl⟩

-- The flag of a new exchange is unset, so that it serves a call only if that was
-- not cancelled so far.
theorem register_heard (sound : Sound p) (held : p.calls c = some call) (first : Bool) :
    Heard ((p.push call.requestId).put c (some ⟨call.requestId,.attempt p.made first,call.cancelled⟩)) ↔
      call.cancelled = false := by
  obtain ⟨heard,fresh⟩ := sound
  constructor
  · intro after
    have set := (after c _ p.made (if_pos rfl) rfl).2
    cases cancelled : call.cancelled with
    | false => rfl
    | true => cases (set cancelled).symm.trans (fresh.2 p.made (Nat.le_refl _))
  · intro uncancelled d other stop there polls
    by_cases same : d = c
    · subst same
      obtain rfl : _ = other := by simpa [OpenAiProvider.put] using there
      obtain rfl : p.made = stop := Option.some.inj polls
      refine ⟨List.mem_append_right _ (List.mem_singleton.mpr rfl),?_⟩
      intro cancelled
      cases uncancelled.symm.trans cancelled
    · obtain ⟨entered,set⟩ := heard d other stop (by simpa [OpenAiProvider.put,OpenAiProvider.push,same] using there) polls
      exact ⟨List.mem_append_left _ entered,set⟩

-- Removing by id takes the entries of every call with the id.
theorem remove_heard (heard : Heard p) (held : p.calls c = some call) (next : Option ChatCall) (idle : ∀ x ∈ next, x.stop = none) :
    Heard ((p.removeLiveRequest call.requestId).put c next) ↔
      ∀ d other, d ≠ c → p.calls d = some other → other.stop.isSome → other.requestId ≠ call.requestId := by
  constructor
  · intro after d other apart there polls same
    obtain ⟨stop,polls⟩ := Option.isSome_iff_exists.mp polls
    have entered := (after d other stop (by simpa [OpenAiProvider.put,OpenAiProvider.removeLiveRequest,apart] using there) polls).1
    simp [OpenAiProvider.put,OpenAiProvider.removeLiveRequest,same] at entered
  · intro alone d other stop there polls
    by_cases same : d = c
    · subst same
      have there : next = some other := by simpa [OpenAiProvider.put] using there
      cases polls.symm.trans (idle other there)
    · have there : p.calls d = some other := by simpa [OpenAiProvider.put,OpenAiProvider.removeLiveRequest,same] using there
      obtain ⟨entered,set⟩ := heard d other stop there polls
      have differs := alone d other same there (by simp [polls])
      exact ⟨List.mem_filter.mpr ⟨entered,by simpa using differs⟩,set⟩

theorem nextPhase_idle (p : OpenAiProvider) (first unknownOption : Bool) (requestId : Text) (cancelled : Bool) :
    ChatCall.stop ⟨requestId,p.nextPhase first unknownOption,cancelled⟩ = none := by
  rw [OpenAiProvider.nextPhase]
  split <;> rfl

-- What a step does to the table and to the call that it is of.
inductive Changes (p : OpenAiProvider) : Step → OpenAiProvider → Prop where
  | put (c : Nat) (next : Option ChatCall) : (∀ x ∈ next, x.stop = none) → Careful p step → Changes p step (p.put c next)
  | register (c : Nat) (first : Bool) : p.calls c = some call →
      Changes p (.register c) ((p.push call.requestId).put c (some ⟨call.requestId,.attempt p.made first,call.cancelled⟩))
  | remove (c : Nat) (next : Option ChatCall) : p.calls c = some call → (∀ x ∈ next, x.stop = none) →
      (step = .remove c ∨ ∃ unknownOption, step = .leave c unknownOption) →
      Changes p step ((p.removeLiveRequest call.requestId).put c next)
  | cancel (requestId : Text) : Changes p (.cancel requestId) (p.cancel requestId)

theorem execute_changes (taken : p.execute step = some t) : Changes p step t := by
  cases step with
  | begin c requestId =>
    simp only [OpenAiProvider.execute] at taken
    split at taken <;> cases taken
    exact .put c _ (by simp [ChatCall.stop]) trivial
  | refuse c | giveUp c | finish c =>
    simp only [OpenAiProvider.execute] at taken
    split at taken <;> cases taken
    exact .put c none (by simp) trivial
  | register c =>
    simp only [OpenAiProvider.execute] at taken
    split at taken <;> cases taken
    all_goals
      rename_i held
      exact .register c _ held
  | leave c unknownOption =>
    simp only [OpenAiProvider.execute] at taken
    split at taken <;> cases taken
    rename_i held
    refine .remove c _ held ?_ (.inr ⟨unknownOption,rfl⟩)
    intro x there
    cases there
    exact nextPhase_idle p _ unknownOption _ _
  | remove c =>
    simp only [OpenAiProvider.execute] at taken
    split at taken <;> cases taken
    rename_i held
    exact .remove c _ held (by simp [ChatCall.stop]) (.inl rfl)
  | cancel requestId =>
    cases taken
    exact .cancel requestId

theorem execute_heard (sound : Sound p) (taken : p.execute step = some t) : Heard t ↔ Careful p step := by
  have heard := sound.1
  cases execute_changes taken with
  | put c next idle careful => exact iff_of_true (put_heard heard c next idle) careful
  | register c first held =>
    simp only [Careful,held,Option.some.injEq,forall_eq']
    exact register_heard sound held first
  | remove c next held idle kind =>
    have removed := remove_heard heard held next idle
    rcases kind with rfl | ⟨unknownOption,rfl⟩
    · simp only [Careful,held,Option.some.injEq,forall_eq']
      exact removed
    · simp only [Careful,held,Option.some.injEq,forall_eq']
      exact removed
  | cancel requestId => exact iff_of_true (cancel_heard heard requestId) trivial

theorem execute_fresh (fresh : Fresh p) (taken : p.execute step = some t) : Fresh t := by
  cases execute_changes taken with
  | put c next => exact put_fresh fresh c next
  | register c => exact put_fresh (push_fresh fresh _) c _
  | remove c next => exact put_fresh (remove_fresh fresh _) c next
  | cancel requestId => exact cancel_fresh fresh requestId

-- Over every interleaving: cancels are heard and entries are kept in all states
-- that are reached, exactly where every step is careful.
theorem calls_heard (includeUsage : Bool) (steps : List Step) :
    Along OpenAiProvider.execute (fun _ _ t => Heard t) (.new includeUsage) steps ↔
      Along OpenAiProvider.execute (fun p step _ => Careful p step) (.new includeUsage) steps := by
  apply along_iff Sound
  · intro p step t sound taken _
    exact execute_heard sound taken
  · intro p step t sound taken _ careful
    exact ⟨(execute_heard sound taken).mpr careful,execute_fresh sound.2 taken⟩
  · exact new_sound includeUsage
  · exact along_always (fun _ _ _ _ => trivial) _ steps

-- A cancel in the gap before the retry is lost, and a call that ends takes the
-- entry of another that runs under the same id.
theorem calls_unheard :
    ¬ Along OpenAiProvider.execute (fun _ _ t => Heard t) (.new true)
      [.begin 0 ['r'],.register 0,.leave 0 true,.cancel ['r'],.register 0] ∧
    ¬ Along OpenAiProvider.execute (fun _ _ t => Heard t) (.new true)
      [.begin 0 ['r'],.begin 1 ['r'],.register 0,.register 1,.leave 0 false] := by
  constructor
  · intro ⟨_,_,_,_,retried,_⟩
    have set := (retried 0 ⟨['r'],.attempt 1 false,true⟩ 1 rfl rfl).2 rfl
    cases set
  · intro ⟨_,_,_,_,left,_⟩
    have entered := (left 1 ⟨['r'],.attempt 1 true,false⟩ 1 rfl rfl).1
    cases entered

end PrincessIDE.Ai
