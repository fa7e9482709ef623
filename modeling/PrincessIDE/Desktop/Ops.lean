import Mathlib.Data.Char
import Mathlib.Data.List.Lex
import PrincessIDE.Core.Error
import PrincessIDE.Core.Json
import PrincessIDE.Foundation.Steps
import PrincessIDE.Foundation.Str

namespace PrincessIDE.Ops
open Str Error
open Utf8 (Text)

-- An `Arc<AtomicBool>`, by the place of its cell among all those made so far.
abbrev Flag := Nat

structure OpHandle where
  opId : Text
  kind : Text
  cancel : Flag
deriving DecidableEq, Repr

structure CancelToken where
  flag : Flag
deriving DecidableEq, Repr

inductive CancelOutcome where
  | cancelled
  | alreadyCancelled
  | notFound
deriving DecidableEq, Repr

-- `inner` has one row a key.
structure OpRegistry where
  inner : List (Text × OpHandle)
  counter : Nat
deriving DecidableEq, Repr

namespace OpRegistry

def new : OpRegistry := ⟨[],0⟩

def get (r : OpRegistry) (opId : Text) : Option OpHandle := r.inner.lookup opId

def remove (r : OpRegistry) (opId : Text) : OpRegistry := {r with inner:=r.inner.filter fun row => row.1 != opId}

def insert (r : OpRegistry) (opId : Text) (handle : OpHandle) : OpRegistry :=
  {r with inner:=(opId,handle) :: (r.remove opId).inner}

def live (r : OpRegistry) : List Text := (r.inner.map Prod.fst).mergeSort

end OpRegistry

-- `format!("op-{:04x}", n)`
def opIdOf (n : Nat) : Text := "op-".toList ++ (Nat.toDigits 16 n).leftpad 4 '0'

example : opIdOf 1 = "op-0001".toList := by decide
example : opIdOf 0x17f3a = "op-17f3a".toList := by decide

inductive Start where
  | toolsDetect
  | buildStart
  | runStart
deriving DecidableEq, Repr

def Start.kind : Start → Text
  | .toolsDetect => "tools:detect".toList
  | .buildStart => "build:start".toList
  | .runStart => "run:start".toList

-- A start request on its way: its id minted, its handle registered, its backend
-- running with a token of its own.
inductive Task where
  | minted (start : Start) (opId : Text)
  | registered (start : Start) (op : OpHandle)
  | running (start : Start) (op : OpHandle) (token : CancelToken)
deriving DecidableEq, Repr

namespace Task

def op : Task → Option OpHandle
  | minted _ _ => none
  | registered _ op => some op
  | running _ op _ => some op

-- The flag that the work of the operation looks at. `run_doctor` is handed the
-- operation itself.
def polled : Task → Option Flag
  | registered .toolsDetect op => some op.cancel
  | running _ _ token => some token.flag
  | _ => none

-- Where `ops.finish` may be next. `build_start` does not return between the
-- registration and the build.
def ends : Task → Bool
  | minted _ _ => false
  | registered .buildStart _ => false
  | _ => true

end Task

-- `acknowledged` keeps the handles for which a request was answered as
-- cancelled; no code reads it.
structure AppState where
  flags : List Bool
  ops : OpRegistry
  tasks : List Task
  acknowledged : List Flag
deriving DecidableEq, Repr

def initial : AppState := ⟨[],.new,[],[]⟩

def isSet (flags : List Bool) (flag : Flag) : Bool := flags[flag]?.getD false

def cancel (s : AppState) (opId : Text) : CancelOutcome × AppState :=
  match s.ops.get opId with
  | none => (.notFound,s)
  | some handle =>
    if isSet s.flags handle.cancel then (.alreadyCancelled,s)
    else (.cancelled,{s with flags:=s.flags.set handle.cancel true,acknowledged:=handle.cancel :: s.acknowledged})

inductive Request where
  | opCancel
  | buildCancel
  | runStop
deriving DecidableEq, Repr

def ok (data : Json) : Json := .obj [("ok".toList,.bool true),("data".toList,data)]

def err (code : ErrorCode) (message detail : Text) : Json := .obj
  [("ok".toList,.bool false),("error".toList,.obj
    [("code".toList,.str code.asStr),("message".toList,.str message),("detail".toList,.str detail)])]

def joined (ids : List Text) : Text := ", ".toList.intercalate ids

def describeLive (ops : OpRegistry) : Text := if ops.live = [] then "none".toList else joined ops.live

def Request.command : Request → Text
  | .opCancel => "princess:op:cancel".toList
  | .buildCancel => "princess:build:cancel".toList
  | .runStop => "princess:run:stop".toList

def Request.respond (request : Request) (opId : Text) (ops : OpRegistry) : CancelOutcome → Json
  | .cancelled => ok <| .obj <| ("opId".toList,.str opId) :: match request with
    | .opCancel => [("cancelled".toList,.bool true),("found".toList,.bool true)]
    | .buildCancel => [("cancelled".toList,.bool true)]
    | .runStop => [("stopped".toList,.bool true)]
  | .alreadyCancelled => match request with
    | .opCancel => err .cancelled (opId ++ " was already cancelled".toList) ("live operations: ".toList ++ describeLive ops)
    | .buildCancel => err .cancelled (opId ++ " was already cancelled".toList) []
    | .runStop => err .cancelled (opId ++ " was already stopped".toList) []
  | .notFound => match request with
    | .opCancel => err .notFound ("no live operation named ".toList ++ opId) ("live operations: ".toList ++ describeLive ops)
    | .buildCancel => err .notFound ("no live build operation named ".toList ++ opId) ("live operations: ".toList ++ joined ops.live)
    | .runStop => err .notFound ("no live run operation named ".toList ++ opId) ("live operations: ".toList ++ joined ops.live)

def opIdArg (args : Json) : Option Text := (args.get "opId").bind Json.asStr

def answer (display : Json → Text) (s : AppState) (request : Request) (args : Json) : Json :=
  match opIdArg args with
  | none => err .invalidConfig (request.command ++ " requires \x7b opId: string \x7d".toList) ("received args: ".toList ++ display args)
  | some opId => request.respond opId s.ops (cancel s opId).1

-- One atomic step of a handler: the counter, the map under its lock, a flag. A
-- start request that finds no project takes no step.
inductive Step where
  | mint (start : Start)
  | register (task : Nat)
  | spawn (task : Nat)
  | finish (task : Nat)
  | cancel (request : Request) (args : Json)

def execute (s : AppState) : Step → Option AppState
  | .mint start =>
    let n := (s.ops.counter+1) % u64
    some {s with ops:={s.ops with counter:=n},tasks:=s.tasks ++ [.minted start (opIdOf n)]}
  | .register i => match s.tasks[i]? with
    | some (.minted start opId) =>
      let op : OpHandle := ⟨opId,start.kind,s.flags.length⟩
      some {s with flags:=s.flags ++ [false],ops:=s.ops.insert opId op,tasks:=s.tasks.set i (.registered start op)}
    | _ => none
  | .spawn i => match s.tasks[i]? with
    | some (.registered start op) =>
      if start = .toolsDetect then none
      else some {s with flags:=s.flags ++ [false],tasks:=s.tasks.set i (.running start op ⟨s.flags.length⟩)}
    | _ => none
  | .finish i => match s.tasks[i]? with
    | some task => if task.ends then task.op.map fun op => {s with ops:=s.ops.remove op.opId,tasks:=s.tasks.eraseIdx i} else none
    | none => none
  | .cancel _ args => match opIdArg args with
    | none => some s
    | some opId => some (cancel s opId).2

-- The work of a live operation sees every cancel that was acknowledged.
def Heard (s : AppState) : Prop := ∀ task ∈ s.tasks, ∀ op flag, task.op = some op → task.polled = some flag →
  op.cancel ∈ s.acknowledged → isSet s.flags flag = true

-- The step does not cancel an operation whose backend runs, and starts no
-- backend for one that is cancelled.
def Spares (s : AppState) : Step → Prop
  | .cancel _ args => ∀ opId op, opIdArg args = some opId → s.ops.get opId = some op → isSet s.flags op.cancel = false →
    ∀ start other token, .running start other token ∈ s.tasks → other.cancel ≠ op.cancel
  | .spawn i => ∀ start op, s.tasks[i]? = some (.registered start op) → isSet s.flags op.cancel = false
  | _ => True

variable {flags : List Bool} {flag other : Flag} {s t : AppState}

theorem isSet_append (flags : List Bool) (flag : Flag) : isSet (flags ++ [false]) flag = isSet flags flag := by
  unfold isSet
  rcases Nat.lt_trichotomy flag flags.length with inside | rfl | outside
  · rw [List.getElem?_append_left inside]
  · simp
  · rw [List.getElem?_append_right (Nat.le_of_lt outside),List.getElem?_eq_none (by simp; omega),
      List.getElem?_eq_none (Nat.le_of_lt outside)]

theorem isSet_beyond (beyond : flags.length ≤ flag) : isSet flags flag = false := by
  rw [isSet,List.getElem?_eq_none beyond]
  rfl

theorem isSet_swap (inside : flag < flags.length) : isSet (flags.set flag true) flag = true := by
  simp [isSet,inside]

theorem isSet_swap_other (differs : flag ≠ other) : isSet (flags.set flag true) other = isSet flags other := by
  rw [isSet,List.getElem?_set_ne differs,isSet]

theorem isSet_kept (other : Flag) (was : isSet flags flag = true) : isSet (flags.set other true) flag = true := by
  by_cases same : other = flag
  · subst same
    refine isSet_swap ?_
    by_contra beyond
    rw [isSet_beyond (Nat.le_of_not_lt beyond)] at was
    cases was
  · rwa [isSet_swap_other same]

namespace OpRegistry

theorem get_mem {r : OpRegistry} (found : r.get opId = some op) : (opId,op) ∈ r.inner := by
  obtain ⟨before,after,split,_⟩ := List.lookup_eq_some_iff.mp found
  rw [split]
  exact List.mem_append_right _ List.mem_cons_self

theorem remove_mem {r : OpRegistry} (member : row ∈ (r.remove opId).inner) : row ∈ r.inner := (List.mem_filter.mp member).1

theorem insert_mem {r : OpRegistry} (member : row ∈ (r.insert opId op).inner) : row = (opId,op) ∨ row ∈ r.inner :=
  (List.mem_cons.mp member).imp_right remove_mem

end OpRegistry

-- Handles and tokens have cells of their own: a token is no handle's flag, and
-- nothing sets it.
structure Sound (s : AppState) : Prop where
  listed : ∀ row ∈ s.ops.inner, row.2.cancel < s.flags.length
  held : ∀ task ∈ s.tasks, ∀ op, task.op = some op → isSet s.flags op.cancel = true → op.cancel ∈ s.acknowledged
  noted : ∀ flag ∈ s.acknowledged, isSet s.flags flag = true
  made : ∀ start op token, .running start op token ∈ s.tasks → token.flag < s.flags.length
  silent : ∀ start op token, .running start op token ∈ s.tasks → isSet s.flags token.flag = false
  apart : ∀ start op token, .running start op token ∈ s.tasks → ∀ row ∈ s.ops.inner, row.2.cancel ≠ token.flag

theorem initial_sound : Sound initial := by
  constructor <;> simp [initial,OpRegistry.new]

-- A step that touches no flag: it may make cells, and every task and row is an
-- old one or holds a new cell.
structure Grown (s t : AppState) : Prop where
  flags : ∀ flag, isSet t.flags flag = isSet s.flags flag
  cells : s.flags.length ≤ t.flags.length
  noted : t.acknowledged = s.acknowledged
  rows : ∀ row ∈ t.ops.inner, row ∈ s.ops.inner ∨ (row.2.cancel = s.flags.length ∧ s.flags.length < t.flags.length)
  tasks : ∀ task ∈ t.tasks, ∀ op, task.op = some op → (∃ old ∈ s.tasks, old.op = some op) ∨ op.cancel = s.flags.length
  running : ∀ start op token, .running start op token ∈ t.tasks → .running start op token ∈ s.tasks ∨
    (token.flag = s.flags.length ∧ s.flags.length < t.flags.length ∧ t.ops = s.ops)

theorem grown_sound (sound : Sound s) (grown : Grown s t) : Sound t where
  listed row member := by
    rcases grown.rows row member with old | ⟨fresh,room⟩
    · exact Nat.lt_of_lt_of_le (sound.listed row old) grown.cells
    · exact fresh.trans_lt room
  held task member op handle set := by
    rw [grown.flags] at set
    rw [grown.noted]
    rcases grown.tasks task member op handle with ⟨old,inside,same⟩ | fresh
    · exact sound.held old inside op same set
    · rw [fresh,isSet_beyond (Nat.le_refl _)] at set
      cases set
  noted flag member := by
    rw [grown.flags]
    exact sound.noted flag (grown.noted ▸ member)
  made start op token member := by
    rcases grown.running start op token member with old | ⟨fresh,room,_⟩
    · exact Nat.lt_of_lt_of_le (sound.made start op token old) grown.cells
    · exact fresh.trans_lt room
  silent start op token member := by
    rw [grown.flags]
    rcases grown.running start op token member with old | ⟨fresh,_,_⟩
    · exact sound.silent start op token old
    · exact isSet_beyond (Nat.le_of_eq fresh.symm)
  apart start op token member row inside := by
    rcases grown.running start op token member with old | ⟨fresh,_,same⟩
    · have place := sound.made start op token old
      rcases grown.rows row inside with listed | ⟨here,_⟩
      · exact sound.apart start op token old row listed
      · exact fun same => Nat.ne_of_lt place (same.symm.trans here)
    · have place := sound.listed row (same ▸ inside)
      exact fun same => Nat.ne_of_lt place (same.trans fresh)

theorem mint_grown (taken : execute s (.mint start) = some t) : Grown s t := by
  cases taken
  refine ⟨fun _ => rfl,Nat.le_refl _,rfl,fun row member => .inl member,fun task member op handle => ?_,fun start op token member => ?_⟩
  · rcases List.mem_append.mp member with old | new
    · exact .inl ⟨task,old,handle⟩
    · rw [List.mem_singleton.mp new] at handle
      cases handle
  · rcases List.mem_append.mp member with old | new
    · exact .inl old
    · cases List.mem_singleton.mp new

theorem register_grown (taken : execute s (.register i) = some t) : Grown s t := by
  simp only [execute] at taken
  split at taken
  · rename_i start opId here
    cases taken
    refine ⟨isSet_append s.flags,by simp,rfl,fun row member => ?_,fun task member op handle => ?_,fun start op token member => ?_⟩
    · rcases OpRegistry.insert_mem member with rfl | old
      · exact .inr ⟨rfl,by simp⟩
      · exact .inl old
    · rcases List.mem_or_eq_of_mem_set member with old | rfl
      · exact .inl ⟨task,old,handle⟩
      · cases handle
        exact .inr rfl
    · rcases List.mem_or_eq_of_mem_set member with old | new
      · exact .inl old
      · cases new
  · cases taken

theorem spawn_grown (taken : execute s (.spawn i) = some t) : Grown s t := by
  simp only [execute] at taken
  split at taken
  · rename_i start op here
    split at taken
    · cases taken
    · cases taken
      refine ⟨isSet_append s.flags,by simp,rfl,fun row member => .inl member,fun task member op handle => ?_,
        fun start op token member => ?_⟩
      · rcases List.mem_or_eq_of_mem_set member with old | rfl
        · exact .inl ⟨task,old,handle⟩
        · cases handle
          exact .inl ⟨_,List.mem_of_getElem? here,rfl⟩
      · rcases List.mem_or_eq_of_mem_set member with old | new
        · exact .inl old
        · cases new
          exact .inr ⟨rfl,by simp,rfl⟩
  · cases taken

theorem finish_grown (taken : execute s (.finish i) = some t) : Grown s t ∧ ∀ task ∈ t.tasks, task ∈ s.tasks := by
  simp only [execute] at taken
  split at taken
  · split at taken
    · obtain ⟨op,_,rfl⟩ := Option.map_eq_some_iff.mp taken
      have old : ∀ task ∈ s.tasks.eraseIdx i, task ∈ s.tasks := fun task member => List.mem_of_mem_eraseIdx member
      exact ⟨⟨fun _ => rfl,Nat.le_refl _,rfl,fun row member => .inl (OpRegistry.remove_mem member),
        fun task member op handle => .inl ⟨task,old task member,handle⟩,fun start op token member => .inl (old _ member)⟩,old⟩
    · cases taken
  · cases taken

-- A cancel changes at most one flag, that of a registered handle.
theorem cancel_cases (taken : execute s (.cancel request args) = some t) :
    (t = s ∧ ∀ opId op, opIdArg args = some opId → s.ops.get opId = some op → isSet s.flags op.cancel = true) ∨
    ∃ opId op, opIdArg args = some opId ∧ s.ops.get opId = some op ∧ isSet s.flags op.cancel = false ∧
      t = {s with flags:=s.flags.set op.cancel true,acknowledged:=op.cancel :: s.acknowledged} := by
  simp only [execute] at taken
  cases named : opIdArg args with
  | none =>
    rw [named] at taken
    cases taken
    exact .inl ⟨rfl,fun _ _ given => by cases given⟩
  | some opId =>
    rw [named] at taken
    cases taken
    rw [cancel]
    cases found : s.ops.get opId with
    | none =>
      refine .inl ⟨rfl,fun _ op given listed => ?_⟩
      cases given
      cases found.symm.trans listed
    | some op =>
      by_cases set : isSet s.flags op.cancel = true
      · simp only [if_pos set]
        refine .inl ⟨trivial,fun _ other given listed => ?_⟩
        cases given
        cases found.symm.trans listed
        exact set
      · simp only [if_neg set]
        exact .inr ⟨opId,op,rfl,found,Bool.eq_false_iff.mpr set,rfl⟩

theorem cancel_sound (sound : Sound s) (taken : execute s (.cancel request args) = some t) : Sound t := by
  rcases cancel_cases taken with ⟨rfl,_⟩ | ⟨opId,op,_,found,_,rfl⟩
  · exact sound
  · have listed := OpRegistry.get_mem found
    have inside := sound.listed _ listed
    refine ⟨?_,?_,?_,?_,?_,sound.apart⟩
    · simpa using sound.listed
    · intro task member other handle set
      by_cases same : op.cancel = other.cancel
      · exact List.mem_cons.mpr (.inl same.symm)
      · simp only [isSet_swap_other same] at set
        exact List.mem_cons_of_mem _ (sound.held task member other handle set)
    · intro flag member
      rcases List.mem_cons.mp member with rfl | old
      · exact isSet_swap inside
      · exact isSet_kept _ (sound.noted flag old)
    · simpa using sound.made
    · intro start other token member
      have differs := sound.apart start other token member _ listed
      simp only [isSet_swap_other differs]
      exact sound.silent start other token member

theorem execute_sound (sound : Sound s) (taken : execute s step = some t) : Sound t := by
  cases step with
  | mint start => exact grown_sound sound (mint_grown taken)
  | register i => exact grown_sound sound (register_grown taken)
  | spawn i => exact grown_sound sound (spawn_grown taken)
  | finish i => exact grown_sound sound (finish_grown taken).1
  | cancel request args => exact cancel_sound sound taken

-- What a step has to keep: only a task with new work could fail to hear.
theorem heard_grown (heard : Heard s) (grown : Grown s t)
    (work : ∀ task ∈ t.tasks, task ∈ s.tasks ∨ ∀ op flag, task.op = some op → task.polled = some flag → op.cancel ∉ t.acknowledged) :
    Heard t := by
  intro task member op flag handle polls noted
  rcases work task member with old | unheard
  · rw [grown.flags]
    exact heard task old op flag handle polls (grown.noted ▸ noted)
  · exact absurd noted (unheard op flag handle polls)

theorem mint_heard (heard : Heard s) (taken : execute s (.mint start) = some t) : Heard t := by
  refine heard_grown heard (mint_grown taken) fun task member => ?_
  cases taken
  rcases List.mem_append.mp member with old | new
  · exact .inl old
  · rw [List.mem_singleton.mp new]
    exact .inr fun op flag handle => by cases handle

theorem register_heard (sound : Sound s) (heard : Heard s) (taken : execute s (.register i) = some t) : Heard t := by
  refine heard_grown heard (register_grown taken) fun task member => ?_
  simp only [execute] at taken
  split at taken
  · cases taken
    rcases List.mem_or_eq_of_mem_set member with old | rfl
    · exact .inl old
    · refine .inr fun op flag handle _ noted => ?_
      cases handle
      have set := sound.noted _ noted
      rw [isSet_beyond (Nat.le_refl _)] at set
      cases set
  · cases taken

-- The token of a new backend is fresh, whatever happened to the operation before.
theorem spawn_heard_iff (sound : Sound s) (heard : Heard s) (taken : execute s (.spawn i) = some t) :
    Heard t ↔ Spares s (.spawn i) := by
  have grown := spawn_grown taken
  simp only [execute] at taken
  split at taken
  · rename_i start op here
    split at taken
    · cases taken
    · have place := (List.getElem?_eq_some_iff.mp here).1
      have registered : Task.registered start op ∈ s.tasks := List.mem_of_getElem? here
      have spawned : Task.running start op ⟨s.flags.length⟩ ∈ t.tasks := by
        cases taken
        exact List.mem_set place _
      constructor
      · intro after begun other found
        rw [here] at found
        cases found
        by_contra set
        rw [Bool.not_eq_false] at set
        have noted := grown.noted ▸ sound.held _ registered op rfl set
        have polled := after _ spawned op _ rfl rfl noted
        rw [grown.flags,isSet_beyond (Nat.le_refl _)] at polled
        cases polled
      · intro spares
        have unset := spares start op here
        refine heard_grown heard grown fun task member => ?_
        cases taken
        rcases List.mem_or_eq_of_mem_set member with old | rfl
        · exact .inl old
        · refine .inr fun other flag handle _ noted => ?_
          cases handle
          rw [sound.noted _ noted] at unset
          cases unset
  · cases taken

theorem finish_heard (heard : Heard s) (taken : execute s (.finish i) = some t) : Heard t :=
  heard_grown heard (finish_grown taken).1 fun task member => .inl ((finish_grown taken).2 task member)

-- A cancel reaches the work that polls the handle itself, and no other.
theorem cancel_heard_iff (sound : Sound s) (heard : Heard s) (taken : execute s (.cancel request args) = some t) :
    Heard t ↔ Spares s (.cancel request args) := by
  have after := cancel_sound sound taken
  rcases cancel_cases taken with ⟨rfl,set⟩ | ⟨opId,op,named,found,unset,rfl⟩
  · refine iff_of_true heard fun opId op named found unset => ?_
    rw [set opId op named found] at unset
    cases unset
  · have listed := OpRegistry.get_mem found
    constructor
    · intro hears opId' op' named' found' _ start other token running same
      rw [named] at named'
      cases named'
      rw [found] at found'
      cases found'
      have polled := hears _ running other token.flag rfl rfl (List.mem_cons.mpr (.inl same))
      rw [isSet_swap_other (sound.apart start other token running _ listed),sound.silent start other token running] at polled
      cases polled
    · intro spares task member other flag handle polls noted
      cases task with
      | minted => cases handle
      | registered start op' =>
        cases handle
        cases start with
        | toolsDetect =>
          cases polls
          exact after.noted _ noted
        | buildStart => cases polls
        | runStart => cases polls
      | running start op' token =>
        cases handle
        have differs := spares opId op named found unset start other token member
        rcases List.mem_cons.mp noted with same | old
        · exact absurd same differs
        · exact isSet_kept _ (heard _ member other flag rfl polls old)

theorem execute_heard_iff (sound : Sound s) (heard : Heard s) (taken : execute s step = some t) : Heard t ↔ Spares s step := by
  cases step with
  | mint start => exact iff_of_true (mint_heard heard taken) trivial
  | register i => exact iff_of_true (register_heard sound heard taken) trivial
  | spawn i => exact spawn_heard_iff sound heard taken
  | finish i => exact iff_of_true (finish_heard heard taken) trivial
  | cancel request args => exact cancel_heard_iff sound heard taken

-- The runs in which no acknowledged cancel is lost.
theorem cancels_heard_iff (steps : List Step) :
    Steps.Along execute (fun _ _ t => Heard t) initial steps ↔ Steps.Along execute (fun s step _ => Spares s step) initial steps := by
  have start : Sound initial ∧ Heard initial := ⟨initial_sound,fun task member => by cases member⟩
  have granted : Steps.Along execute (fun _ _ _ => True) initial steps := Steps.along_always (fun _ _ _ _ => trivial) initial steps
  refine Steps.along_iff (fun s => Sound s ∧ Heard s) ?_ ?_ start granted
  · intro s step t inside taken _
    exact execute_heard_iff inside.1 inside.2 taken
  · intro s step t inside taken _ spares
    exact ⟨execute_sound inside.1 taken,(execute_heard_iff inside.1 inside.2 taken).mpr spares⟩

def firstBuild : OpHandle := ⟨"op-0001".toList,"build:start".toList,0⟩

def building : AppState := ⟨[false,false],⟨[("op-0001".toList,firstBuild)],1⟩,[.running .buildStart firstBuild ⟨1⟩],[]⟩

def firstId : Json := .obj [("opId".toList,.str "op-0001".toList)]

-- The cancel of a running build is acknowledged, and its token stays as it was.
theorem cancels_heard_lost :
    [Step.mint .buildStart,.register 0,.spawn 0].foldlM execute initial = some building ∧
    answer (fun _ => []) building .opCancel firstId =
      ok (.obj [("opId".toList,.str "op-0001".toList),("cancelled".toList,.bool true),("found".toList,.bool true)]) ∧
    (cancel building "op-0001".toList).2.tasks = [.running .buildStart firstBuild ⟨1⟩] ∧
    isSet (cancel building "op-0001".toList).2.flags 1 = false ∧
    ¬ Steps.Along execute (fun _ _ t => Heard t) initial [.mint .buildStart,.register 0,.spawn 0,.cancel .opCancel firstId] := by
  refine ⟨by decide,rfl,by decide,by decide,fun along => ?_⟩
  have heard : Heard (cancel building "op-0001".toList).2 := along.2.2.2.1
  exact absurd (heard _ List.mem_cons_self firstBuild 1 rfl rfl (by decide)) (by decide)

end PrincessIDE.Ops
