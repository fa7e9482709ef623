import Mathlib.Algebra.BigOperators.Group.List.Basic
import Mathlib.Algebra.Ring.Nat

namespace PrincessIDE

-- Spans of at least one that follow each other without a gap, from a start on.
inductive Spans (place width : α → Nat) : Nat → List α → Prop where
  | nil : Spans place width start []
  | cons : place x = start → 1 ≤ width x → Spans place width (start + width x) xs → Spans place width start (x :: xs)

namespace Spans
variable {place width : α → Nat} {start : Nat} {xs : List α}

theorem bounds (spans : Spans place width start xs) :
    ∀ x ∈ xs, start ≤ place x ∧ 1 ≤ width x ∧ place x + width x ≤ start + (xs.map width).sum := by
  induction spans with
  | nil => exact fun _ none => absurd none List.not_mem_nil
  | cons here wide _ ih =>
    rw [List.map_cons,List.sum_cons]
    refine List.forall_mem_cons.mpr ⟨by omega,fun x inside => ?_⟩
    have later := ih x inside
    omega

theorem ordered (spans : Spans place width start xs) : xs.Pairwise fun a b => place a + width a ≤ place b := by
  induction spans with
  | nil => exact .nil
  | cons here _ rest ih =>
    refine List.pairwise_cons.mpr ⟨fun x inside => ?_,ih⟩
    have later := rest.bounds x inside
    omega

theorem last_end (spans : Spans place width start xs) (last : xs.getLast? = some x) : place x + width x = start + (xs.map width).sum := by
  induction spans with
  | nil => cases last
  | @cons start y ys here _ rest ih =>
    rw [List.map_cons,List.sum_cons]
    cases ys with
    | nil =>
      cases last
      simp [here]
    | cons z zs =>
      rw [List.getLast?_cons_cons] at last
      have later := ih last
      omega

theorem first_start (spans : Spans place width start xs) (first : xs.head? = some x) : place x = start := by
  cases spans with
  | nil => cases first
  | cons here _ _ =>
    cases first
    exact here

end Spans

-- The last of a list is behind all others.
theorem getLast_behind {r : α → α → Prop} {xs : List α} (pairwise : xs.Pairwise r) (last : xs.getLast? = some k) (inside : x ∈ xs) : x = k ∨ r x k := by
  obtain ⟨front,rfl⟩ := List.getLast?_eq_some_iff.mp last
  rcases List.mem_append.mp inside with early | here
  · exact .inr ((List.pairwise_append.mp pairwise).2.2 x early k (List.mem_singleton.mpr rfl))
  · exact .inl (List.mem_singleton.mp here)

-- What is counted by rows is counted by columns.
theorem count_twice (p : α → β → Bool) (rows : List α) (columns : List β) :
    (rows.map fun r => (columns.filter (p r)).length).sum = (columns.map fun c => (rows.filter (p · c)).length).sum := by
  induction rows with
  | nil => simp
  | cons r rows ih =>
    rw [List.map_cons,List.sum_cons,ih]
    clear ih
    induction columns with
    | nil => rfl
    | cons c columns ih =>
      rw [List.map_cons,List.map_cons,List.sum_cons,List.sum_cons,← ih,List.filter_cons,List.filter_cons]
      cases p r c <;> simp <;> omega

end PrincessIDE
