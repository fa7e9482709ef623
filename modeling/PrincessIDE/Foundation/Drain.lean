import Mathlib.Data.List.Basic

namespace PrincessIDE.Drain

-- A reader takes one item off the front of a buffer, or needs more than is there.
abbrev Reader (α β : Type) := List α → Option (β × List α)

def Shortens (read : Reader α β) : Prop := ∀ {xs b rest}, read xs = some (b,rest) → rest.length < xs.length

-- What it takes it would take whatever came behind.
structure Steady (read : Reader α β) : Prop where
  shorter : read xs = some (b,rest) → rest.length < xs.length
  ahead : read xs = some (b,rest) → ∀ ys, read (xs++ys) = some (b,rest++ys)

def rounds (read : Reader α β) : Nat → List α → List β × List α
  | 0, xs => ([],xs)
  | n+1, xs => match read xs with
    | none => ([],xs)
    | some (b,rest) => (b :: (rounds read n rest).1,(rounds read n rest).2)

-- The items a buffer holds and what is left of it; every item is shorter than
-- the buffer, so that as many rounds as it is long are enough.
def drain (read : Reader α β) (xs : List α) : List β × List α := rounds read xs.length xs

variable {read : Reader α β}

theorem rounds_agree (shortens : Shortens read) (enough : xs.length ≤ m) (also : xs.length ≤ n) : rounds read m xs = rounds read n xs := by
  induction m generalizing n xs with
  | zero =>
    obtain rfl := List.eq_nil_of_length_eq_zero (Nat.le_zero.mp enough)
    cases n with
    | zero => rfl
    | succ n =>
      cases here : read [] with
      | none => simp [rounds,here]
      | some found => exact absurd (shortens here) (Nat.not_lt_zero _)
  | succ m ih =>
    cases n with
    | zero =>
      obtain rfl := List.eq_nil_of_length_eq_zero (Nat.le_zero.mp also)
      cases here : read [] with
      | none => simp [rounds,here]
      | some found => exact absurd (shortens here) (Nat.not_lt_zero _)
    | succ n =>
      simp only [rounds]
      cases here : read xs with
      | none => rfl
      | some found =>
        have shorter := shortens here
        have same : rounds read m found.2 = rounds read n found.2 := ih (by omega) (by omega)
        simp only [same]

theorem drain_none (needs : read xs = none) : drain read xs = ([],xs) := by
  unfold drain
  cases xs.length with
  | zero => rfl
  | succ n => simp [rounds,needs]

theorem drain_some (shortens : Shortens read) (taken : read xs = some (b,rest)) :
    drain read xs = (b :: (drain read rest).1,(drain read rest).2) := by
  have shorter := shortens taken
  obtain ⟨n,size⟩ : ∃ n, xs.length = n+1 := ⟨xs.length-1,by omega⟩
  rw [drain,size]
  simp only [rounds,taken]
  rw [rounds_agree shortens (n:=rest.length) (by omega) (Nat.le_refl _)]
  rfl

-- A buffer of encoded items.
theorem drain_items (item : γ → List α) (value : γ → β) {xs : List γ} (shortens : Shortens read)
    (reads : ∀ x ∈ xs, ∀ rest, read (item x ++ rest) = some (value x,rest)) (rest : List α) :
    drain read (xs.flatMap item ++ rest) = (xs.map value ++ (drain read rest).1,(drain read rest).2) := by
  induction xs with
  | nil => rfl
  | cons x xs ih =>
    rw [List.flatMap_cons,List.append_assoc,drain_some shortens (reads x (by simp) _),
      ih fun y member => reads y (List.mem_cons_of_mem _ member)]
    rfl

-- Two readers that take the same items, each off its own form of a buffer.
theorem drain_through {other : Reader γ δ} {form : List α → List γ} {item : β → δ} (shortens : Shortens read) (also : Shortens other)
    (through : ∀ xs, other (form xs) = (read xs).map fun found => (item found.1,form found.2)) (xs : List α) :
    drain other (form xs) = ((drain read xs).1.map item,form (drain read xs).2) := by
  induction size : xs.length using Nat.strongRecOn generalizing xs with
  | _ size ih =>
    subst size
    have step := through xs
    cases here : read xs with
    | none =>
      rw [here] at step
      rw [drain_none step,drain_none here]
      rfl
    | some found =>
      obtain ⟨b,rest⟩ := found
      rw [here] at step
      rw [drain_some also step,drain_some shortens here,ih rest.length (shortens here) rest rfl]
      rfl

-- By induction on the length of what was there first.
theorem drain_append (steady : Steady read) (xs ys : List α) : drain read (xs++ys) =
    ((drain read xs).1 ++ (drain read ((drain read xs).2 ++ ys)).1,(drain read ((drain read xs).2 ++ ys)).2) := by
  induction size : xs.length using Nat.strongRecOn generalizing xs with
  | _ size ih =>
    subst size
    cases here : read xs with
    | none => simp [drain_none here]
    | some found =>
      obtain ⟨b,rest⟩ := found
      have later := ih rest.length (steady.shorter here) rest rfl
      rw [drain_some steady.shorter (steady.ahead here ys),drain_some steady.shorter here,later]
      rfl

end PrincessIDE.Drain
