import Mathlib.Data.List.Infix

namespace PrincessIDE

theorem snoc_cases {xs before after : List α} (whole : xs ++ [x] = before ++ y :: after) :
    (after = [] ∧ before = xs ∧ y = x) ∨ ∃ front, after = front ++ [x] ∧ xs = before ++ y :: front := by
  cases List.eq_nil_or_concat' after with
  | inl empty =>
    rw [empty] at whole
    obtain ⟨first,last⟩ := List.append_inj' whole rfl
    exact .inl ⟨empty,first.symm,(List.singleton_inj.mp last).symm⟩
  | inr split =>
    obtain ⟨front,z,rfl⟩ := split
    rw [show before ++ y :: (front ++ [z]) = (before ++ y :: front) ++ [z] by simp] at whole
    obtain ⟨first,last⟩ := List.append_inj' whole rfl
    exact .inr ⟨front,by rw [List.singleton_inj.mp last],first⟩

-- The value of the last element that names one, or the initial value.
def Last (names : α → β → Prop) (initial : β) (xs : List α) (b : β) : Prop :=
  (∃ before x after, xs = before ++ x :: after ∧ names x b ∧ ∀ y ∈ after, ∀ c, ¬ names y c) ∨
  (b = initial ∧ ∀ y ∈ xs, ∀ c, ¬ names y c)

namespace Last
variable {names : α → β → Prop} {initial b c : β} {xs : List α} {x : α}

theorem nil_iff : Last names initial [] b ↔ b = initial := by
  constructor
  · rintro (⟨before,x,after,none,_⟩ | ⟨same,_⟩)
    · exact absurd none.symm (by simp)
    · exact same
  · rintro rfl
    exact .inr ⟨rfl,fun _ inside => absurd inside List.not_mem_nil⟩

theorem named (here : names x b) (xs : List α) : Last names initial (xs++[x]) b :=
  .inl ⟨xs,x,[],rfl,here,fun _ inside => absurd inside List.not_mem_nil⟩

-- An element that names nothing changes nothing.
theorem silent_iff (silent : ∀ c, ¬ names x c) : Last names initial (xs++[x]) b ↔ Last names initial xs b := by
  constructor
  · rintro (⟨before,y,after,whole,here,quiet⟩ | ⟨same,quiet⟩)
    · obtain ⟨_,_,rfl⟩ | ⟨front,rfl,first⟩ := snoc_cases whole
      · exact absurd here (silent b)
      · exact .inl ⟨before,y,front,first,here,fun w inside => quiet w (List.mem_append_left _ inside)⟩
    · exact .inr ⟨same,fun y inside => quiet y (List.mem_append_left _ inside)⟩
  · have extended : ∀ ys : List α, (∀ y ∈ ys, ∀ c, ¬ names y c) → ∀ y ∈ ys ++ [x], ∀ c, ¬ names y c := by
      intro ys quiet y inside
      rcases List.mem_append.mp inside with early | last
      · exact quiet y early
      · rw [List.mem_singleton.mp last]
        exact silent
    rintro (⟨before,y,after,rfl,here,quiet⟩ | ⟨same,quiet⟩)
    · exact .inl ⟨before,y,after ++ [x],by simp,here,extended after quiet⟩
    · exact .inr ⟨same,extended xs quiet⟩

theorem unique (functional : ∀ x b c, names x b → names x c → b = c) (one : Last names initial xs b) (other : Last names initial xs c) : b = c := by
  induction xs using List.reverseRecOn with
  | nil => exact (nil_iff.mp one).trans (nil_iff.mp other).symm
  | append_singleton xs x ih =>
    by_cases some : ∃ d, names x d
    · obtain ⟨d,here⟩ := some
      have only : ∀ e, Last names initial (xs++[x]) e → e = d := by
        rintro e (⟨before,y,after,whole,found,quiet⟩ | ⟨_,quiet⟩)
        · obtain ⟨_,_,rfl⟩ | ⟨front,rfl,_⟩ := snoc_cases whole
          · exact functional y e d found here
          · exact absurd here (quiet x (by simp) d)
        · exact absurd here (quiet x (by simp) d)
      rw [only b one,only c other]
    · have silent : ∀ d, ¬ names x d := not_exists.mp some
      exact ih ((silent_iff silent).mp one) ((silent_iff silent).mp other)

end Last

-- What a reader holds that takes over every value it reads.
def hold (read : α → Option β) (b : β) (xs : List α) : β := xs.foldl (fun b x => (read x).getD b) b

theorem hold_snoc (read : α → Option β) (b : β) (xs : List α) (x : α) : hold read b (xs++[x]) = (read x).getD (hold read b xs) := by
  simp [hold]

-- A reader that reads every value named holds the last one all along a list exactly if
-- whatever else it reads is the value named last.
theorem hold_last_iff {names : α → β → Prop} {read : α → Option β} (reads : ∀ x b, names x b → read x = some b) (initial : β) (xs : List α) :
    (∀ before, before <+: xs → Last names initial before (hold read initial before)) ↔
      ∀ before x, before ++ [x] <+: xs → (∀ c, ¬ names x c) → ∀ b, read x = some b → Last names initial before b := by
  constructor
  · intro always before x here silent b found
    have after := always _ here
    rw [hold_snoc,found] at after
    exact (Last.silent_iff silent).mp after
  · intro misread before
    induction before using List.reverseRecOn with
    | nil => exact fun _ => Last.nil_iff.mpr rfl
    | append_singleton before x ih =>
      intro here
      have held := ih ((List.prefix_append before [x]).trans here)
      rw [hold_snoc]
      by_cases some : ∃ c, names x c
      · obtain ⟨c,named⟩ := some
        rw [reads x c named]
        exact Last.named named before
      · have silent : ∀ c, ¬ names x c := not_exists.mp some
        refine (Last.silent_iff silent).mpr ?_
        cases found : read x with
        | none => exact held
        | some b => exact misread before x here silent b found

end PrincessIDE
