import Mathlib.Data.List.Chain
import PrincessIDE.Bin.GuestMemory
import PrincessIDE.Core.Error

namespace PrincessIDE.Symbol
open Error Memory

-- A frame, with what the line table says of its return address.
structure StackFrameFacts (ρ : Type) where
  framePointer : U64
  returnAddress : U64
  location : Option ρ
deriving DecidableEq

section
variable {σ ρ : Type} (sourceLineForAddress : U64 → Except PrincessError (Option ρ)) (readWord : σ → U64 → Option U64 × σ)

-- The line table is not asked about zero.
def lookup (returnAddress : U64) : Except PrincessError (Option ρ) := if returnAddress = 0 then .ok none else sourceLineForAddress returnAddress

-- The loop, by the number of frames that there is still room for. The reader may
-- answer differently each time that it is asked.
def walkFrom : Nat → Option U64 → U64 → σ → Except PrincessError (List (StackFrameFacts ρ)) × σ
  | 0,_,_,s => (.ok [],s)
  | room+1,last,framePointer,s =>
    if framePointer = 0 || last.any (framePointer ≤ ·) then (.ok [],s)
    else match readWord s framePointer with
      | (none,s) => (.ok [],s)
      | (some next,s) => match readWord s (framePointer + 8) with
        | (none,s) => (.ok [],s)
        | (some returnAddress,s) => match lookup sourceLineForAddress returnAddress with
          | .error e => (.error e,s)
          | .ok location =>
            if returnAddress = 0 || next ≤ framePointer then (.ok [⟨framePointer,returnAddress,location⟩],s)
            else ((walkFrom room (some framePointer) next s).1.map (⟨framePointer,returnAddress,location⟩ :: ·),
              (walkFrom room (some framePointer) next s).2)

theorem walkFrom_stop (zero : framePointer = 0) : walkFrom sourceLineForAddress readWord (room+1) last framePointer s = (.ok [],s) :=
  if_pos (Bool.or_eq_true_iff.mpr (.inl (decide_eq_true zero)))

theorem walkFrom_go (zero : framePointer ≠ 0) (above : last.any (framePointer ≤ ·) = false) :
    walkFrom sourceLineForAddress readWord (room+1) last framePointer s = match readWord s framePointer with
      | (none,s) => (.ok [],s)
      | (some next,s) => match readWord s (framePointer + 8) with
        | (none,s) => (.ok [],s)
        | (some returnAddress,s) => match lookup sourceLineForAddress returnAddress with
          | .error e => (.error e,s)
          | .ok location =>
            if returnAddress = 0 || next ≤ framePointer then (.ok [⟨framePointer,returnAddress,location⟩],s)
            else ((walkFrom sourceLineForAddress readWord room (some framePointer) next s).1.map (⟨framePointer,returnAddress,location⟩ :: ·),
              (walkFrom sourceLineForAddress readWord room (some framePointer) next s).2) :=
  if_neg (by rw [above,decide_eq_false zero]; exact Bool.false_ne_true)

def walkFramePointerChain (rbp : U64) (maxFrames : Nat) (s : σ) : Except PrincessError (List (StackFrameFacts ρ)) × σ :=
  walkFrom sourceLineForAddress readWord maxFrames none rbp s

end

-- What is read for a frame: the pointer that was followed and the two words there.
structure Step where
  pointer : U64
  next : U64
  returnAddress : U64
deriving DecidableEq

def Step.words (x : Step) : List (U64 × Option U64) := [(x.pointer,some x.next),(x.pointer + 8,some x.returnAddress)]

-- The reader's answers, in the order in which it was asked.
inductive Asked (readWord : σ → U64 → Option U64 × σ) : σ → List (U64 × Option U64) → σ → Prop where
  | nil : Asked readWord s [] s
  | cons : readWord s address = (answer,t) → Asked readWord t later u → Asked readWord s ((address,answer) :: later) u

-- Frames on a chain: each pointer is the word at the one before it and lies above
-- it, and a return address of zero ends the chain.
structure Chained (limit : Nat) (rbp : U64) (steps : List Step) : Prop where
  short : steps.length ≤ limit
  first : ∀ x ∈ steps.head?, x.pointer = rbp
  linked : steps.IsChain fun x y => y.pointer = x.next ∧ x.pointer < y.pointer
  inner : ∀ x ∈ steps.dropLast, x.returnAddress ≠ 0

-- The pointer that would be followed next.
def following (rbp : U64) (steps : List Step) : U64 := (steps.getLast?.map Step.next).getD rbp

-- Why a chain ends, and what was asked in vain there.
inductive Ended (limit : Nat) (rbp : U64) (steps : List Step) : List (U64 × Option U64) → Prop where
  | full : steps.length = limit → Ended limit rbp steps []
  | outermost : x ∈ steps.getLast? → x.returnAddress = 0 → Ended limit rbp steps []
  | zero : following rbp steps = 0 → Ended limit rbp steps []
  | stuck : x ∈ steps.getLast? → x.next ≤ x.pointer → Ended limit rbp steps []
  | unreadable : Ended limit rbp steps [(following rbp steps,none)]
  | unreturned : Ended limit rbp steps [(following rbp steps,some next),(following rbp steps + 8,none)]

theorem following_cons (rbp : U64) (x : Step) (steps : List Step) : following rbp (x :: steps) = following x.next steps := by
  unfold following
  cases steps with
  | nil => rfl
  | cons y ys =>
    rw [List.getLast?_cons_cons]
    obtain ⟨z,last⟩ := Option.ne_none_iff_exists'.mp fun none => List.cons_ne_nil y ys (List.getLast?_eq_none_iff.mp none)
    rw [last]
    rfl

theorem last_cons {x y : Step} (last : y ∈ steps.getLast?) : y ∈ (x :: steps).getLast? := by
  cases steps with
  | nil => cases last
  | cons z zs => rwa [List.getLast?_cons_cons]

theorem Ended.cons (ended : Ended limit x.next steps tail) : Ended (limit+1) rbp (x :: steps) tail := by
  cases ended with
  | full whole => exact .full (congrArg (· + 1) whole)
  | outermost last zero => exact .outermost (last_cons last) zero
  | zero none => exact .zero ((following_cons rbp x steps).trans none)
  | stuck last low => exact .stuck (last_cons last) low
  | unreadable =>
    rw [← following_cons rbp x steps]
    exact .unreadable
  | unreturned =>
    rw [← following_cons rbp x steps]
    exact .unreturned

theorem Chained.cons (chained : Chained limit x.next steps) (ahead : x.pointer < x.next) (some : x.returnAddress ≠ 0) :
    Chained (limit+1) x.pointer (x :: steps) := by
  refine ⟨Nat.succ_le_succ chained.short,fun y first => by cases first; rfl,?_,?_⟩
  · cases steps with
    | nil => exact .singleton _
    | cons y ys =>
      have same := chained.first y rfl
      exact .cons_cons ⟨same,by rwa [same]⟩ chained.linked
  · cases steps with
    | nil => exact List.forall_mem_nil _
    | cons y ys => exact List.forall_mem_cons.mpr ⟨some,chained.inner⟩

theorem Chained.one (x : Step) (limit : Nat) : Chained (limit+1) x.pointer [x] :=
  ⟨Nat.succ_le_succ (Nat.zero_le _),fun y first => by cases first; rfl,.singleton _,List.forall_mem_nil _⟩

theorem Chained.none (limit : Nat) (rbp : U64) : Chained limit rbp [] :=
  ⟨Nat.zero_le _,fun _ first => (by cases first),.nil,List.forall_mem_nil _⟩

section
variable {σ ρ : Type} {sourceLineForAddress : U64 → Except PrincessError (Option ρ)} {readWord : σ → U64 → Option U64 × σ}

def Located (sourceLineForAddress : U64 → Except PrincessError (Option ρ)) (x : Step) (frame : StackFrameFacts ρ) : Prop :=
  frame.framePointer = x.pointer ∧ frame.returnAddress = x.returnAddress ∧ lookup sourceLineForAddress x.returnAddress = .ok frame.location

-- A walk has read the words of its steps and what ends them, and gives a frame for
-- each step, or the error with which the line table answers the last of them.
structure Walked (sourceLineForAddress : U64 → Except PrincessError (Option ρ)) (readWord : σ → U64 → Option U64 × σ) (limit : Nat) (rbp : U64) (s : σ)
    (steps : List Step) (tail : List (U64 × Option U64)) (result : Except PrincessError (List (StackFrameFacts ρ)) × σ) : Prop where
  asked : Asked readWord s (steps.flatMap Step.words ++ tail) result.2
  chained : Chained limit rbp steps
  outcome : match result.1 with
    | .ok frames => List.Forall₂ (Located sourceLineForAddress) steps frames ∧ Ended limit rbp steps tail
    | .error e => tail = [] ∧ ∃ x ∈ steps.getLast?, lookup sourceLineForAddress x.returnAddress = .error e

theorem Walked.none (ended : Ended limit rbp [] tail) (asked : Asked readWord s tail t) :
    Walked sourceLineForAddress readWord limit rbp s [] tail (.ok [],t) :=
  ⟨asked,.none limit rbp,.nil,ended⟩

-- One frame in front of a walk that goes on at the word that was read there.
theorem Walked.cons {rest : Except PrincessError (List (StackFrameFacts ρ)) × σ} (walked : Walked sourceLineForAddress readWord limit x.next s steps tail rest)
    (first : readWord r x.pointer = (some x.next,q)) (second : readWord q (x.pointer + 8) = (some x.returnAddress,s))
    (answer : lookup sourceLineForAddress x.returnAddress = .ok location) (ahead : x.pointer < x.next) (inner : x.returnAddress ≠ 0) :
    Walked sourceLineForAddress readWord (limit+1) x.pointer r (x :: steps) tail (rest.1.map (⟨x.pointer,x.returnAddress,location⟩ :: ·),rest.2) := by
  obtain ⟨asked,chained,outcome⟩ := walked
  refine ⟨.cons first (.cons second asked),chained.cons ahead inner,?_⟩
  obtain ⟨value,t⟩ := rest
  cases value with
  | ok frames => exact ⟨.cons ⟨rfl,rfl,answer⟩ outcome.1,outcome.2.cons⟩
  | error e =>
    obtain ⟨empty,y,last,refused⟩ := outcome
    exact ⟨empty,y,last_cons last,refused⟩

-- By induction on the room: the pointer only has to lie above the frame before it,
-- and the check at the head of the loop then never ends it.
theorem walkFrom_walked (room : Nat) (last : Option U64) (framePointer : U64) (s : σ) (above : ∀ p ∈ last, p < framePointer) :
    ∃ steps tail, Walked sourceLineForAddress readWord room framePointer s steps tail (walkFrom sourceLineForAddress readWord room last framePointer s) := by
  induction room generalizing last framePointer s with
  | zero => exact ⟨[],[],.none (.full rfl) .nil⟩
  | succ room ih =>
    by_cases zero : framePointer = 0
    · refine ⟨[],[],?_⟩
      rw [walkFrom_stop _ _ zero]
      exact .none (.zero zero) .nil
    have onwards : last.any (framePointer ≤ ·) = false := by
      cases last with
      | none => rfl
      | some p =>
        have low := above p rfl
        exact decide_eq_false (by bv_omega)
    rw [walkFrom_go _ _ zero onwards]
    rcases first : readWord s framePointer with ⟨next | next,q⟩
    · exact ⟨[],_,.none .unreadable (.cons first .nil)⟩
    dsimp only
    rcases second : readWord q (framePointer + 8) with ⟨returnAddress | returnAddress,r⟩
    · exact ⟨[],_,.none .unreturned (.cons first (.cons second .nil))⟩
    dsimp only
    let x : Step := ⟨framePointer,next,returnAddress⟩
    have read : Asked readWord s ([x].flatMap Step.words ++ []) r := .cons first (.cons second .nil)
    cases answer : lookup sourceLineForAddress returnAddress with
    | error e => exact ⟨[x],[],read,.one x room,rfl,x,rfl,answer⟩
    | ok location =>
      dsimp only
      split
      · next stop =>
        refine ⟨[x],[],read,.one x room,.cons ⟨rfl,rfl,answer⟩ .nil,?_⟩
        rcases Bool.or_eq_true_iff.mp stop with outermost | stuck
        · exact .outermost rfl (of_decide_eq_true outermost)
        · exact .stuck rfl (of_decide_eq_true stuck)
      · next go =>
        obtain ⟨inner,ahead⟩ := not_or.mp (mt Bool.or_eq_true_iff.mpr go)
        have ahead : framePointer < next := by
          rw [decide_eq_true_eq] at ahead
          bv_omega
        obtain ⟨steps,tail,walked⟩ := ih (some framePointer) next r fun p same => Option.some.inj same ▸ ahead
        exact ⟨x :: steps,tail,walked.cons (x := x) first second answer ahead (mt decide_eq_true inner)⟩

end

theorem walk_chain {σ ρ : Type} (sourceLineForAddress : U64 → Except PrincessError (Option ρ)) (readWord : σ → U64 → Option U64 × σ) (rbp : U64) (maxFrames : Nat) (s : σ) :
    ∃ steps tail, Walked sourceLineForAddress readWord maxFrames rbp s steps tail (walkFramePointerChain sourceLineForAddress readWord rbp maxFrames s) :=
  walkFrom_walked maxFrames none rbp s fun _ none => (nomatch none)

end PrincessIDE.Symbol
