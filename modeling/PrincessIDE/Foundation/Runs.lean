import Mathlib.Data.List.Induction

namespace PrincessIDE.Runs

section
variable (step : σ → α → σ) (start : σ)

def run (steps : List α) : σ := steps.foldl step start

-- What holds of every state that is reached, the first one included.
def Always (P : σ → Prop) (steps : List α) : Prop := ∀ before, before <+: steps → P (run step start before)

-- What holds of every step in the state before it.
def Along (C : σ → α → Prop) (steps : List α) : Prop :=
  ∀ before a, before ++ [a] <+: steps → C (run step start before) a

end

section
variable {step : σ → α → σ} {start : σ}

theorem run_snoc (steps : List α) (a : α) : run step start (steps ++ [a]) = step (run step start steps) a := by
  rw [run,List.foldl_append]
  rfl

theorem always_last (always : Always step start P steps) : P (run step start steps) := always steps (List.prefix_refl _)

theorem along_nil : Along step start C [] := by
  intro before a cut
  exact absurd (List.prefix_nil.mp cut) (List.append_ne_nil_of_right_ne_nil _ (List.cons_ne_nil _ _))

theorem along_front (along : Along step start C steps) (front : before <+: steps) : Along step start C before :=
  fun earlier a cut => along earlier a (cut.trans front)

theorem along_last (along : Along step start C (steps ++ [a])) : C (run step start steps) a :=
  along steps a (List.prefix_refl _)

theorem along_snoc (along : Along step start C steps) (here : C (run step start steps) a) :
    Along step start C (steps ++ [a]) := by
  intro before last cut
  rcases List.prefix_concat_iff.mp cut with same | earlier
  · obtain ⟨front,final⟩ := List.append_inj' same rfl
    cases front
    cases final
    exact here
  · exact along before last earlier

theorem along_cons : Along step start C (a :: steps) ↔ C start a ∧ Along step (step start a) C steps := by
  constructor
  · intro along
    refine ⟨along [] a (List.prefix_append [a] steps),fun before b cut => ?_⟩
    exact along (a :: before) b (List.cons_prefix_cons.mpr ⟨rfl,cut⟩)
  · rintro ⟨here,rest⟩ before b cut
    cases before with
    | nil =>
      obtain ⟨same,_⟩ := List.cons_prefix_cons.mp cut
      exact same ▸ here
    | cons first before =>
      obtain ⟨same,later⟩ := List.cons_prefix_cons.mp cut
      subst same
      exact rest before b later

theorem run_keeps (I : σ → Prop) (first : I start) (keeps : ∀ s a, I s → C s a → I (step s a))
    (along : Along step start C steps) : I (run step start steps) := by
  induction steps using List.reverseRecOn with
  | nil => exact first
  | append_singleton steps a ih =>
    rw [run_snoc]
    exact keeps _ a (ih (along_front along (List.prefix_append _ _))) (along_last along)

theorem always_kept (I P : σ → Prop) (first : I start) (holds : ∀ s, I s → P s) (keeps : ∀ s a, I s → I (step s a)) (steps : List α) :
    Always step start P steps := by
  intro before _
  have along : Along step start (fun _ _ => True) before := fun _ _ _ => trivial
  exact holds _ (run_keeps I first (fun s a inside _ => keeps s a inside) along)

-- A condition on the steps is exact for a property of the states if a step that
-- meets it keeps an invariant that gives the property, and one that does not
-- leads to a state without it.
theorem always_iff (I P : σ → Prop) (C : σ → α → Prop) (first : I start) (holds : ∀ s, I s → P s)
    (keeps : ∀ s a, I s → C s a → I (step s a)) (breaks : ∀ s a, I s → ¬ C s a → ¬ P (step s a)) (steps : List α) :
    Always step start P steps ↔ Along step start C steps := by
  constructor
  · intro always
    induction steps using List.reverseRecOn with
    | nil => exact along_nil
    | append_singleton steps a ih =>
      have earlier := ih fun before front => always before (front.trans (List.prefix_append _ _))
      refine along_snoc earlier ?_
      by_contra unmet
      have last := always_last always
      rw [run_snoc] at last
      exact breaks _ a (run_keeps I first keeps earlier) unmet last
  · intro along before front
    exact holds _ (run_keeps I first keeps (along_front along front))

-- A step outside the condition spoils the run, and what is spoiled stays so.
theorem along_or (I S : σ → Prop) (first : I start) (keeps : ∀ s a, I s → I (step s a))
    (spoils : ∀ s a, I s → ¬ C s a → S (step s a)) (stays : ∀ s a, I s → S s → S (step s a)) (steps : List α) :
    Along step start C steps ∨ S (run step start steps) := by
  have inside : ∀ steps, I (run step start steps) := fun steps => always_last (always_kept I I first (fun _ => id) keeps steps)
  induction steps using List.reverseRecOn with
  | nil => exact .inl along_nil
  | append_singleton steps a ih =>
    rw [run_snoc]
    rcases ih with met | spoiled
    · by_cases here : C (run step start steps) a
      · exact .inl (along_snoc met here)
      · exact .inr (spoils _ a (inside steps) here)
    · exact .inr (stays _ a (inside steps) spoiled)

end

end PrincessIDE.Runs
