import Mathlib.Data.List.Sort

namespace PrincessIDE.Groups
variable {κ α β : Type}

-- The values of a list by a key, as a map from keys to lists.
abbrev Table (κ α : Type) := List (κ × List α)

section Maps
variable [DecidableEq κ]

def get (k : κ) : Table κ α → Option (List α)
  | [] => none
  | (l,values) :: rest => if l = k then some values else get k rest

-- `entry(k).or_default().push(a)`
def push (k : κ) (a : α) : Table κ α → Table κ α
  | [] => [(k,[a])]
  | (l,values) :: rest => if l = k then (l,values++[a]) :: rest else (l,values) :: push k a rest

def remove (k : κ) (groups : Table κ α) : Table κ α := groups.filter (·.1 ≠ k)

def mapValues (f : List α → List α) (groups : Table κ α) : Table κ α := groups.map fun entry => (entry.1,f entry.2)

def collect (key : α → κ) (value : α → β) (xs : List α) : Table κ β := xs.foldl (fun groups x => push (key x) (value x) groups) []

theorem get_push (k l : κ) (a : α) (groups : Table κ α) :
    (get k (push l a groups)).getD [] = if l = k then (get k groups).getD [] ++ [a] else (get k groups).getD [] := by
  induction groups with
  | nil =>
    by_cases same : l = k
    · simp [push,get,same]
    · simp [push,get,same]
  | cons entry rest ih =>
    obtain ⟨m,values⟩ := entry
    by_cases here : m = l
    · subst here
      by_cases same : m = k
      · simp [push,get,same]
      · simp [push,get,same]
    · by_cases first : m = k
      · have other : l ≠ k := fun same => here (first.trans same.symm)
        simp only [push,if_neg here,get,if_pos first,if_neg other]
      · simp only [push,if_neg here,get,if_neg first]
        exact ih

theorem get_mapValues (k : κ) (f : List α → List α) (groups : Table κ α) : get k (mapValues f groups) = (get k groups).map f := by
  induction groups with
  | nil => rfl
  | cons entry rest ih =>
    rw [mapValues,List.map_cons,get,get]
    split
    · rfl
    · exact ih

theorem get_remove (k l : κ) (groups : Table κ α) : get k (remove l groups) = if k = l then none else get k groups := by
  induction groups with
  | nil => simp [remove,get]
  | cons entry rest ih =>
    obtain ⟨m,values⟩ := entry
    unfold remove at ih ⊢
    by_cases gone : m = l
    · subst gone
      rw [List.filter_cons_of_neg (by simp),ih,get]
      by_cases same : k = m
      · rw [if_pos same,if_pos same]
      · rw [if_neg same,if_neg same,if_neg fun here => same here.symm]
    · rw [List.filter_cons_of_pos (by simpa using gone),get,get,ih]
      by_cases here : m = k
      · subst here
        rw [if_pos rfl,if_neg gone,if_pos rfl]
      · rw [if_neg here,if_neg here]

theorem get_collect (key : α → κ) (value : α → β) (k : κ) (xs : List α) :
    (get k (collect key value xs)).getD [] = (xs.filter (key · = k)).map value := by
  have fold : ∀ groups : Table κ β, (get k (xs.foldl (fun groups x => push (key x) (value x) groups) groups)).getD [] =
      (get k groups).getD [] ++ (xs.filter (key · = k)).map value := by
    induction xs with
    | nil => simp
    | cons x xs ih =>
      intro groups
      rw [List.foldl_cons,ih,get_push]
      by_cases here : key x = k
      · simp [here]
      · simp [here]
  exact fold []

end Maps

variable [LinearOrder κ]

-- A stable sort by a key: nothing lost or added, in the order of the keys, and
-- what has one key in the order it was given in.
structure Arranged (key : α → κ) (given shown : List α) : Prop where
  perm : shown.Perm given
  sorted : shown.Pairwise fun a b => key a ≤ key b
  stable : ∀ k, shown.filter (key · = k) = given.filter (key · = k)

theorem arranged_insertionSort (key : α → κ) (xs : List α) : Arranged key xs (xs.insertionSort fun a b => key a ≤ key b) := by
  have _ : Std.Total fun a b => key a ≤ key b := ⟨fun a b => le_total (key a) (key b)⟩
  have _ : IsTrans α fun a b => key a ≤ key b := ⟨fun a b c => le_trans⟩
  have perm := List.perm_insertionSort (fun a b => key a ≤ key b) xs
  refine ⟨perm,List.pairwise_insertionSort _ xs,fun k => ?_⟩
  have same : (xs.filter (key · = k)).Pairwise fun a b => key a ≤ key b := by
    refine List.pairwise_iff_forall_sublist.mpr fun {a b} pair => ?_
    have one := of_decide_eq_true (List.mem_filter.mp (pair.subset (by simp : a ∈ [a,b]))).2
    have other := of_decide_eq_true (List.mem_filter.mp (pair.subset (by simp : b ∈ [a,b]))).2
    exact le_of_eq (one.trans other.symm)
  -- the ones of a key are in their order in the sorted list, and as many
  have within := (List.sublist_insertionSort same List.filter_sublist).filter (key · = k)
  rw [List.filter_filter] at within
  simp only [Bool.and_self] at within
  exact (within.eq_of_length (perm.filter _).length_eq.symm).symm

end PrincessIDE.Groups
