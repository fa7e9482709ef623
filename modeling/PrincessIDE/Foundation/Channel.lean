import Mathlib.Logic.Function.Basic

namespace PrincessIDE.Channel
variable {ι α : Type} [DecidableEq ι]

-- What a receiver that waits for some time is answered.
inductive Answer (α : Type) where
  | item (a : α)
  | timeout
  | closed
deriving DecidableEq, Repr

-- The answers of a channel of several senders, given what each of them still sends:
-- the items of a sender come in their order, and the end comes behind all of them.
inductive Answers (sender : α → ι) : (ι → List α) → List (Answer α) → Prop where
  | none : Answers sender unsent []
  | item (a : α) (rest : List α) : unsent (sender a) = a :: rest → Answers sender (Function.update unsent (sender a) rest) later → Answers sender unsent (.item a :: later)
  | timeout : Answers sender unsent later → Answers sender unsent (.timeout :: later)
  | closed : (∀ i, unsent i = []) → Answers sender unsent later → Answers sender unsent (.closed :: later)

-- What was heard of one sender.
def heard (sender : α → ι) (i : ι) (answers : List (Answer α)) : List α := answers.filterMap fun
  | .item a => if sender a = i then some a else none
  | _ => none

variable {sender : α → ι}

theorem heard_item (a : α) (later : List (Answer α)) (i : ι) :
    heard sender i (.item a :: later) = (if sender a = i then [a] else []) ++ heard sender i later := by
  rw [heard,List.filterMap_cons]
  by_cases same : sender a = i
  · simp only [same,if_true]
    rfl
  · simp only [same,if_false]
    rfl

-- What a sender sends is what was heard of it and what is still unsent.
theorem Answers.split (answers : Answers sender unsent (front++back)) :
    ∃ left : ι → List α, (∀ i, unsent i = heard sender i front ++ left i) ∧ Answers sender left back := by
  induction front generalizing unsent with
  | nil => exact ⟨unsent,fun _ => rfl,answers⟩
  | cons answer front ih =>
    cases answers with
    | item a rest next answers =>
      obtain ⟨left,whole,answers⟩ := ih answers
      refine ⟨left,fun i => ?_,answers⟩
      have here := whole i
      rw [heard_item]
      by_cases same : sender a = i
      · subst same
        rw [Function.update_self] at here
        rw [next,here,if_pos rfl]
        rfl
      · rw [Function.update_of_ne (Ne.symm same)] at here
        rw [here,if_neg same]
        rfl
    | timeout answers => exact ih answers
    | closed _ answers => exact ih answers

-- At the end everything that was sent has been heard.
theorem Answers.heard_all (answers : Answers sender unsent (front ++ .closed :: back)) (i : ι) : heard sender i front = unsent i := by
  obtain ⟨left,whole,rest⟩ := answers.split
  cases rest with
  | closed none _ => rw [whole,none,List.append_nil]

end PrincessIDE.Channel
