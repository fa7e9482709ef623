import Mathlib.Algebra.Ring.Nat
import Mathlib.Data.List.Basic
import Mathlib.Order.Lattice

namespace PrincessIDE.Maxima

section
variable {α : Type} [LinearOrder α]

-- The left-to-right maxima of a list: what is greater than all before it.
def maxima : List α → List α
  | [] => []
  | x :: xs => x :: (maxima xs).filter (x < ·)

theorem maxima_nil : maxima ([] : List α) = [] := rfl

theorem maxima_cons (x : α) (xs : List α) : maxima (x :: xs) = x :: (maxima xs).filter (x < ·) := rfl

theorem maxima_mem {xs : List α} (member : x ∈ maxima xs) : x ∈ xs := by
  induction xs with
  | nil => exact member
  | cons y xs ih =>
    rcases List.mem_cons.mp member with rfl | later
    · exact List.mem_cons_self
    · exact List.mem_cons_of_mem _ (ih (List.mem_filter.mp later).1)

theorem maxima_iff {xs : List α} : x ∈ maxima xs ↔ ∃ before after, xs = before ++ x :: after ∧ ∀ y ∈ before, y < x := by
  induction xs with
  | nil => simp [maxima_nil]
  | cons z xs ih =>
    constructor
    · intro member
      rcases List.mem_cons.mp member with rfl | later
      · exact ⟨[],xs,rfl,List.forall_mem_nil _⟩
      · obtain ⟨inside,above⟩ := List.mem_filter.mp later
        obtain ⟨before,after,rfl,below⟩ := ih.mp inside
        exact ⟨z::before,after,rfl,List.forall_mem_cons.mpr ⟨by simpa using above,below⟩⟩
    · rintro ⟨before,after,split,below⟩
      cases before with
      | nil =>
        cases split
        exact List.mem_cons_self
      | cons y before =>
        cases split
        obtain ⟨above,below⟩ := List.forall_mem_cons.mp below
        exact List.mem_cons_of_mem _ (List.mem_filter.mpr ⟨ih.mpr ⟨before,after,rfl,below⟩,by simpa using above⟩)

theorem maxima_ascends (xs : List α) : (maxima xs).Pairwise (· < ·) := by
  induction xs with
  | nil => exact .nil
  | cons x xs ih =>
    refine List.pairwise_cons.mpr ⟨fun y member => ?_,ih.filter _⟩
    simpa using (List.mem_filter.mp member).2

theorem maxima_snoc (xs : List α) (x : α) : maxima (xs ++ [x]) = maxima xs ++ if ∀ y ∈ xs, y < x then [x] else [] := by
  induction xs with
  | nil => rfl
  | cons y xs ih =>
    rw [List.cons_append,maxima_cons,ih,List.filter_append,maxima_cons,List.cons_append]
    by_cases below : ∀ z ∈ xs, z < x
    · rw [if_pos below]
      by_cases first : y < x
      · have both : ∀ z ∈ y :: xs, z < x := List.forall_mem_cons.mpr ⟨first,below⟩
        rw [if_pos both,List.filter_cons_of_pos (by simpa using first),List.filter_nil]
      · rw [if_neg fun all => first (all y List.mem_cons_self),List.filter_cons_of_neg (by simpa using first),List.filter_nil]
    · have both : ¬ ∀ z ∈ y :: xs, z < x := fun all => below fun z member => all z (List.mem_cons_of_mem y member)
      rw [if_neg below,if_neg both,List.filter_nil]

-- The last of the maxima is the greatest of all.
theorem maxima_top {xs : List α} (member : x ∈ xs) : ∃ top ∈ maxima xs, x ≤ top := by
  induction xs with
  | nil => cases member
  | cons y xs ih =>
    rcases List.mem_cons.mp member with rfl | later
    · exact ⟨x,List.mem_cons_self,le_rfl⟩
    · obtain ⟨top,inside,most⟩ := ih later
      by_cases above : y < top
      · exact ⟨top,List.mem_cons_of_mem _ (List.mem_filter.mpr ⟨inside,by simpa using above⟩),most⟩
      · exact ⟨y,List.mem_cons_self,le_trans most (not_lt.mp above)⟩

-- The last item of an ascending list is its greatest.
theorem ascends_last {xs : List α} (ascends : xs.Pairwise (· < ·)) (last : xs.getLast? = some top) (member : x ∈ xs) : x ≤ top := by
  rw [← List.dropLast_append_getLast? top last] at member ascends
  rcases List.mem_append.mp member with front | back
  · exact le_of_lt ((List.pairwise_append.mp ascends).2.2 x front top (by simp))
  · exact le_of_eq (List.mem_singleton.mp back)

theorem maxima_last {xs : List α} (last : (maxima xs).getLast? = some top) : top ∈ xs ∧ ∀ y ∈ xs, y ≤ top := by
  refine ⟨maxima_mem (List.mem_of_getLast? last),fun y member => ?_⟩
  obtain ⟨m,inside,most⟩ := maxima_top member
  exact le_trans most (ascends_last (maxima_ascends xs) last inside)

-- The next item is a maximum if it is greater than the last one so far.
theorem maxima_next {xs : List α} (last : (maxima xs).getLast? = some top) (x : α) : (∀ y ∈ xs, y < x) ↔ top < x := by
  obtain ⟨inside,greatest⟩ := maxima_last last
  exact ⟨fun below => below top inside,fun above y member => lt_of_le_of_lt (greatest y member) above⟩

theorem maxima_nil_iff {xs : List α} : maxima xs = [] ↔ xs = [] := by
  cases xs <;> simp [maxima_nil,maxima_cons]

end

-- The numbers that an ascending list leaves out between its items, as ranges:
-- the first of them, and the item behind them.
def holes : List Nat → List (Nat × Nat)
  | a :: b :: rest => (if b = a+1 then [] else [(a+1,b)]) ++ holes (b::rest)
  | _ => []

theorem holes_cons (a b : Nat) (rest : List Nat) : holes (a :: b :: rest) = (if b = a+1 then [] else [(a+1,b)]) ++ holes (b::rest) := rfl

theorem holes_one (a : Nat) : holes [a] = [] := rfl

theorem holes_snoc (xs : List Nat) (last : xs.getLast? = some a) (b : Nat) :
    holes (xs ++ [b]) = holes xs ++ if b = a+1 then [] else [(a+1,b)] := by
  induction xs with
  | nil => cases last
  | cons x xs ih =>
    cases xs with
    | nil =>
      obtain rfl : x = a := by simpa using last
      simp [holes_cons,holes_one]
    | cons y rest =>
      have step := ih (by simpa using last)
      simp only [List.cons_append] at step
      rw [List.cons_append,List.cons_append,holes_cons,step,holes_cons,List.append_assoc]

theorem holes_count (ascends : (a::xs).Pairwise (· < ·)) (last : (a::xs).getLast? = some z) :
    (a::xs).length + ((holes (a::xs)).map fun hole => hole.2-hole.1).sum = z-a+1 := by
  induction xs generalizing a with
  | nil =>
    cases last
    simp [holes_one]
  | cons b rest ih =>
    obtain ⟨above,ascends⟩ := List.pairwise_cons.mp ascends
    have next := above b List.mem_cons_self
    have count := ih ascends (by simpa using last)
    have top := ascends_last ascends (show (b::rest).getLast? = some z by simpa using last) List.mem_cons_self
    rw [holes_cons,List.map_append,List.sum_append]
    by_cases close : b = a+1
    · simp only [if_pos close,List.map_nil,List.sum_nil,List.length_cons] at count ⊢
      omega
    · simp only [if_neg close,List.map_cons,List.map_nil,List.sum_cons,List.sum_nil,List.length_cons] at count ⊢
      omega

-- A hole lies above the first item and ends at an item.
theorem holes_range (ascends : (a::xs).Pairwise (· < ·)) (member : (lo,hi) ∈ holes (a::xs)) : a < lo ∧ lo < hi ∧ hi ∈ xs := by
  induction xs generalizing a with
  | nil => cases member
  | cons b rest ih =>
    obtain ⟨above,ascends⟩ := List.pairwise_cons.mp ascends
    have next := above b List.mem_cons_self
    rw [holes_cons] at member
    rcases List.mem_append.mp member with here | later
    · split at here
      · cases here
      · cases List.mem_singleton.mp here
        exact ⟨by omega,by omega,List.mem_cons_self⟩
    · obtain ⟨low,range,inside⟩ := ih ascends later
      exact ⟨by omega,range,List.mem_cons_of_mem _ inside⟩

theorem holes_apart (ascends : xs.Pairwise (· < ·)) : (holes xs).Pairwise fun one two => one.2 < two.1 := by
  induction xs with
  | nil => exact .nil
  | cons a xs ih =>
    cases xs with
    | nil => exact .nil
    | cons b rest =>
      obtain ⟨_,ascends⟩ := List.pairwise_cons.mp ascends
      rw [holes_cons]
      refine List.pairwise_append.mpr ⟨by split <;> simp,ih ascends,fun one here two later => ?_⟩
      split at here
      · cases here
      · cases List.mem_singleton.mp here
        exact (holes_range ascends later).1

-- No item lies in a hole.
theorem holes_empty (ascends : xs.Pairwise (· < ·)) (member : (lo,hi) ∈ holes xs) (low : lo ≤ n) (high : n < hi) : n ∉ xs := by
  induction xs with
  | nil => cases member
  | cons a xs ih =>
    cases xs with
    | nil => cases member
    | cons b rest =>
      obtain ⟨above,ascends⟩ := List.pairwise_cons.mp ascends
      have next := above b List.mem_cons_self
      rw [holes_cons] at member
      intro inside
      rcases List.mem_append.mp member with here | later
      · split at here
        · cases here
        · cases List.mem_singleton.mp here
          rcases List.mem_cons.mp inside with rfl | inside
          · omega
          · rcases List.mem_cons.mp inside with rfl | inside
            · omega
            · have beyond := (List.pairwise_cons.mp ascends).1 n inside
              omega
      · have range := holes_range ascends later
        rcases List.mem_cons.mp inside with rfl | inside
        · omega
        · exact ih ascends later inside

-- There is no hole if every number up to the last item is an item.
theorem holes_nil_iff (ascends : (a::xs).Pairwise (· < ·)) (last : (a::xs).getLast? = some z) :
    holes (a::xs) = [] ↔ ∀ n, a ≤ n → n ≤ z → n ∈ a::xs := by
  constructor
  · intro none n low high
    induction xs generalizing a with
    | nil =>
      cases last
      exact List.mem_singleton.mpr (Nat.le_antisymm high low)
    | cons b rest ih =>
      rw [holes_cons] at none
      obtain ⟨here,later⟩ := List.append_eq_nil_iff.mp none
      have close : b = a+1 := by
        by_contra apart
        rw [if_neg apart] at here
        cases here
      by_cases first : n = a
      · rw [first]
        exact List.mem_cons_self
      · exact List.mem_cons_of_mem a (ih (List.pairwise_cons.mp ascends).2 (by simpa using last) later (by omega))
  · intro all
    refine List.eq_nil_iff_forall_not_mem.mpr fun hole member => ?_
    obtain ⟨low,range,inside⟩ := holes_range ascends member
    have top := ascends_last ascends last (List.mem_cons_of_mem a inside)
    exact holes_empty ascends member (Nat.le_refl _) range (all hole.1 (by omega) (by omega))

end PrincessIDE.Maxima
