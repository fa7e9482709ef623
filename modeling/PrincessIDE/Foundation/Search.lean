import Mathlib.Data.List.Basic

namespace PrincessIDE.Search

-- The binary search of the standard library, over what a comparison says of each
-- index: `.lt` for an element below the one sought, `.gt` for one above it.
def narrow (cmp : Nat → Ordering) (base size : Nat) : Nat :=
  if 1 < size then narrow cmp (if cmp (base+size/2) = .gt then base else base+size/2) (size-size/2) else base
termination_by size
decreasing_by omega

def settle (cmp : Nat → Ordering) (base : Nat) : Except Nat Nat := match cmp base with
  | .eq => .ok base
  | .lt => .error (base+1)
  | .gt => .error base

def binarySearch (cmp : Nat → Ordering) (length : Nat) : Except Nat Nat :=
  if length = 0 then .error 0 else settle cmp (narrow cmp 0 length)

-- What is above lies behind what is not, and what is below before what is not.
structure Partitioned (cmp : Nat → Ordering) (length : Nat) : Prop where
  above : ∀ i j, i < j → j < length → cmp i = .gt → cmp j = .gt
  below : ∀ i j, i < j → j < length → cmp j = .lt → cmp i = .lt

variable {cmp : Nat → Ordering}

theorem narrow_lt (cmp : Nat → Ordering) (some : 0 < size) (inside : base+size ≤ length) : narrow cmp base size < length := by
  induction size using Nat.strongRecOn generalizing base with
  | ind size ih =>
    rw [narrow]
    by_cases more : 1 < size
    · rw [if_pos more]
      by_cases above : cmp (base+size/2) = .gt
      · rw [if_pos above]
        exact ih _ (by omega) (by omega) (by omega)
      · rw [if_neg above]
        exact ih _ (by omega) (by omega) (by omega)
    · rw [if_neg more]
      omega

theorem binarySearch_sound (found : binarySearch cmp length = .ok i) : i < length ∧ cmp i = .eq := by
  unfold binarySearch settle at found
  split at found
  · cases found
  · split at found
    · rw [← Except.ok.inj found]
      exact ⟨narrow_lt cmp (by omega) (by omega),by assumption⟩
    · cases found
    · cases found

-- The part that is left holds every index that is neither below nor above. By
-- induction on its size.
theorem narrow_keeps (parted : Partitioned cmp length) (some : 0 < size) (inside : base+size ≤ length)
    (here : cmp i = .eq) (low : i < base → cmp base = .eq) (high : i < base+size) : cmp (narrow cmp base size) = .eq := by
  induction size using Nat.strongRecOn generalizing base with
  | ind size ih =>
    rw [narrow]
    by_cases more : 1 < size
    · rw [if_pos more]
      by_cases above : cmp (base+size/2) = .gt
      · rw [if_pos above]
        have left : i < base+size/2 := by
          by_contra right
          rcases Nat.eq_or_lt_of_le (Nat.le_of_not_lt right) with same | behind
          · rw [same,here] at above
            cases above
          · have later := parted.above _ i behind (by omega) above
            rw [here] at later
            cases later
        exact ih _ (by omega) (by omega) (by omega) low (by omega)
      · rw [if_neg above]
        refine ih _ (by omega) (by omega) (by omega) (fun front => ?_) (by omega)
        cases middle : cmp (base+size/2) with
        | eq => rfl
        | gt => exact absurd middle above
        | lt =>
          have earlier := parted.below i _ front (by omega) middle
          rw [here] at earlier
          cases earlier
    · rw [if_neg more]
      by_cases front : i < base
      · exact low front
      · rwa [show i = base by omega] at here

theorem binarySearch_iff (parted : Partitioned cmp length) :
    (∃ i, binarySearch cmp length = .ok i) ↔ ∃ i, i < length ∧ cmp i = .eq := by
  constructor
  · rintro ⟨i,found⟩
    exact ⟨i,binarySearch_sound found⟩
  · rintro ⟨i,inside,here⟩
    have equal := narrow_keeps parted (Nat.zero_lt_of_lt inside) (Nat.le_of_eq (Nat.zero_add length)) here (fun no => by omega) (by omega)
    exact ⟨narrow cmp 0 length,by rw [binarySearch,if_neg (by omega),settle,equal]⟩

-- A linear search whose first hit is the item at `k`, where there is one.
theorem find?_index {k : Nat} {p : α → Bool} {items : List α} (front : ∀ i a, i < k → items[i]? = some a → p a = false)
    (here : ∀ a, items[k]? = some a → p a = true) : items.find? p = items[k]? := by
  induction items generalizing k with
  | nil => rfl
  | cons a items ih =>
    cases k with
    | zero => rw [List.find?_cons_of_pos (here a rfl),List.getElem?_cons_zero]
    | succ k =>
      rw [List.find?_cons_of_neg (by simp [front 0 a (Nat.succ_pos k) rfl]),List.getElem?_cons_succ]
      exact ih (fun i b less there => front (i+1) b (Nat.succ_lt_succ less) there) here

end PrincessIDE.Search
