namespace PrincessIDE.Steps

-- A system that executes the steps it is given, one after the other; a step that
-- is not open to it is answered with none, and ends the run.
def Along (execute : σ → α → Option σ) (P : σ → α → σ → Prop) : σ → List α → Prop
  | _,[] => True
  | s,step :: rest => match execute s step with
    | none => True
    | some t => P s step t ∧ Along execute P t rest

variable {execute : σ → α → Option σ}

theorem along_cons {P : σ → α → σ → Prop} (taken : execute s a = some t) :
    Along execute P s (a :: steps) ↔ P s a t ∧ Along execute P t steps := by
  rw [Along,taken]

-- Along a run in which every step is granted and does P, every step does Q: from
-- what holds of one step from a state of the invariant.
theorem along_mono {P Q A : σ → α → σ → Prop} (I : σ → Prop)
    (step : ∀ s a t, I s → execute s a = some t → A s a t → P s a t → Q s a t ∧ I t) (start : I s)
    (granted : Along execute A s steps) (does : Along execute P s steps) : Along execute Q s steps := by
  induction steps generalizing s with
  | nil => trivial
  | cons a rest ih =>
    simp only [Along] at granted does ⊢
    cases taken : execute s a with
    | none => trivial
    | some t =>
      rw [taken] at granted does
      obtain ⟨here,still⟩ := step s a t start taken granted.1 does.1
      exact ⟨here,ih still granted.2 does.2⟩

-- Two properties of steps are those of the same runs, where they agree on every
-- step from a state of the invariant and keep the invariant.
theorem along_iff {P Q A : σ → α → σ → Prop} (I : σ → Prop)
    (agree : ∀ s a t, I s → execute s a = some t → A s a t → (P s a t ↔ Q s a t))
    (keep : ∀ s a t, I s → execute s a = some t → A s a t → Q s a t → I t) (start : I s)
    (granted : Along execute A s steps) : Along execute P s steps ↔ Along execute Q s steps := by
  constructor
  · apply along_mono I _ start granted
    intro s a t inside taken given does
    have there := (agree s a t inside taken given).mp does
    exact ⟨there,keep s a t inside taken given there⟩
  · apply along_mono I _ start granted
    intro s a t inside taken given does
    exact ⟨(agree s a t inside taken given).mpr does,keep s a t inside taken given does⟩

theorem along_always {P : σ → α → σ → Prop} (always : ∀ s a t, execute s a = some t → P s a t) (s : σ) (steps : List α) :
    Along execute P s steps := by
  induction steps generalizing s with
  | nil => trivial
  | cons a rest ih =>
    simp only [Along]
    cases taken : execute s a with
    | none => trivial
    | some t => exact ⟨always s a t taken,ih t⟩

theorem along_and {P Q : σ → α → σ → Prop} (one : Along execute P s steps) (two : Along execute Q s steps) :
    Along execute (fun s a t => P s a t ∧ Q s a t) s steps := by
  induction steps generalizing s with
  | nil => trivial
  | cons a rest ih =>
    simp only [Along] at one two ⊢
    cases taken : execute s a with
    | none => trivial
    | some t =>
      rw [taken] at one two
      exact ⟨⟨one.1,two.1⟩,ih one.2 two.2⟩

theorem along_forall {B : α → Prop} (all : ∀ a ∈ steps, B a) (s : σ) : Along execute (fun _ a _ => B a) s steps := by
  induction steps generalizing s with
  | nil => trivial
  | cons a rest ih =>
    simp only [Along]
    cases execute s a with
    | none => trivial
    | some t => exact ⟨all a List.mem_cons_self,ih (fun b member => all b (List.mem_cons_of_mem a member)) t⟩

-- Where every step is open, a property of the steps alone is one of all of them.
theorem along_total {B : α → Prop} (total : ∀ s a, ∃ t, execute s a = some t) (s : σ) {steps : List α} :
    Along execute (fun _ a _ => B a) s steps ↔ ∀ a ∈ steps, B a := by
  constructor
  · intro along
    induction steps generalizing s with
    | nil => simp
    | cons a rest ih =>
      obtain ⟨t,taken⟩ := total s a
      rw [along_cons taken] at along
      simpa using ⟨along.1,ih t along.2⟩
  · intro all
    exact along_forall all s

end PrincessIDE.Steps
