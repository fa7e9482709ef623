import PrincessIDE.Foundation.Overlay

namespace PrincessIDE.Overlay

theorem foldl_or {acc : Option α} (writes : List (Nat × List α)) (place : Nat) :
    writes.foldl (fun last write => (laid write place).or last) acc = (lastLaid writes place).or acc := by
  induction writes generalizing acc with
  | nil => rfl
  | cons write rest ih =>
    simp only [lastLaid,List.foldl_cons]
    rw [ih,ih,Option.or_none,Option.or_assoc]

theorem lastLaid_append (before after : List (Nat × List α)) (place : Nat) :
    lastLaid (before ++ after) place = (lastLaid after place).or (lastLaid before place) := by
  rw [lastLaid,List.foldl_append]
  exact foldl_or after place

theorem lastLaid_single (write : Nat × List α) (place : Nat) : lastLaid [write] place = laid write place := Option.or_none

theorem laid_at (offset : Nat) (data : List α) (k : Nat) : laid (offset,data) (offset+k) = data[k]? := by
  rw [laid,if_pos (Nat.le_add_right offset k)]
  congr 1
  omega

theorem laid_outside {data : List α} (outside : place < offset ∨ offset+data.length ≤ place) : laid (offset,data) place = none := by
  unfold laid
  split
  · apply List.getElem?_eq_none
    dsimp only
    omega
  · rfl

-- Two writes side by side are one.
theorem lastLaid_beside (offset : Nat) (low high : List α) (place : Nat) :
    lastLaid [(offset,low),(offset+low.length,high)] place = laid (offset,low ++ high) place := by
  have both : lastLaid [(offset,low),(offset+low.length,high)] place = (laid (offset+low.length,high) place).or (laid (offset,low) place) := by
    rw [← lastLaid_single (offset,low)]
    exact lastLaid_snoc [(offset,low)] _ place
  rw [both]
  by_cases front : place < offset+low.length
  · rw [laid_outside (.inl front),Option.none_or]
    by_cases below : place < offset
    · rw [laid_outside (.inl below),laid_outside (.inl below)]
    · obtain ⟨k,rfl⟩ := Nat.exists_eq_add_of_le (Nat.le_of_not_lt below)
      rw [laid_at,laid_at,List.getElem?_append_left (by omega)]
  · obtain ⟨k,rfl⟩ := Nat.exists_eq_add_of_le (Nat.le_of_not_lt front)
    rw [laid_at,laid_outside (.inr (by omega)),Option.or_none,Nat.add_assoc,laid_at,List.getElem?_append_right (by omega)]
    congr 1
    omega

-- What a loop leaves that writes the element `i` of an array of elements of one
-- size in its round `i`, each round with as many writes as it takes.
def element (base size first rounds : Nat) (data : Nat → List α) (place : Nat) : Option α :=
  if base+size*first ≤ place ∧ place < base+size*(first+rounds) then (data ((place-base)/size))[(place-base)%size]? else none

theorem lastLaid_loop {round : Nat → List (Nat × List α)} {data : Nat → List α} (first rounds : Nat)
    (each : ∀ i, first ≤ i → i < first+rounds → ∀ place, lastLaid (round i) place = laid (base+size*i,data i) place)
    (sized : ∀ i, first ≤ i → i < first+rounds → (data i).length = size) (place : Nat) :
    lastLaid ((List.range' first rounds).flatMap round) place = element base size first rounds data place := by
  induction rounds with
  | zero =>
    rw [element,Nat.add_zero,if_neg (by omega)]
    rfl
  | succ rounds ih =>
    have before := ih (fun i low high => each i low (by omega)) (fun i low high => sized i low (by omega))
    have long := sized (first+rounds) (by omega) (by omega)
    have next : size*(first+(rounds+1)) = size*(first+rounds)+size := by rw [← Nat.add_assoc,Nat.mul_succ]
    rw [List.range'_1_concat,List.flatMap_append,List.flatMap_singleton,lastLaid_append,each _ (by omega) (by omega),before]
    unfold element
    by_cases here : base+size*(first+rounds) ≤ place ∧ place < base+size*(first+rounds)+size
    · obtain ⟨k,rfl⟩ := Nat.exists_eq_add_of_le here.1
      have small : k < size := by omega
      have low : size*first ≤ size*(first+rounds) := Nat.mul_le_mul_left _ (Nat.le_add_right ..)
      have place : base+size*(first+rounds)+k-base = size*(first+rounds)+k := by omega
      rw [laid_at,if_neg (by omega),Option.or_none,if_pos (by omega),place,Nat.mul_add_div (by omega),Nat.mul_add_mod,
        Nat.div_eq_of_lt small,Nat.mod_eq_of_lt small,Nat.add_zero]
    · rw [laid_outside (by omega),Option.none_or]
      by_cases inside : base+size*first ≤ place ∧ place < base+size*(first+rounds)
      · rw [if_pos inside,if_pos (by omega)]
      · rw [if_neg inside,if_neg (by omega)]

theorem element_at (base : Nat) {data : Nat → List α} (low : first ≤ i) (high : i < first+rounds) (inside : k < size) :
    element base size first rounds data (base+size*i+k) = (data i)[k]? := by
  have start : size*first ≤ size*i := Nat.mul_le_mul_left _ low
  have stop : size*i+size ≤ size*(first+rounds) := Nat.mul_le_mul_left size high
  have place : base+size*i+k-base = size*i+k := by omega
  rw [element,if_pos (by omega),place,Nat.mul_add_div (by omega),Nat.mul_add_mod,Nat.div_eq_of_lt inside,Nat.mod_eq_of_lt inside,Nat.add_zero]

theorem element_outside {data : Nat → List α} (outside : place < base+size*first ∨ base+size*(first+rounds) ≤ place) :
    element base size first rounds data place = none := by
  apply if_neg
  omega

end PrincessIDE.Overlay
