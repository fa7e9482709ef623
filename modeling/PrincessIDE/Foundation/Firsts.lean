import Mathlib.Data.List.Nodup

namespace PrincessIDE.Firsts
variable {α κ : Type} [DecidableEq κ] (key : α → κ)

-- The first item of every key that has not been seen.
def firsts (seen : List κ) : List α → List α
  | [] => []
  | x :: xs => if key x ∈ seen then firsts seen xs else x :: firsts (seen ++ [key x]) xs

variable {key} {seen : List κ} {xs ys : List α}

theorem firsts_sublist : (firsts key seen xs).Sublist xs := by
  induction xs generalizing seen with
  | nil => exact .slnil
  | cons x xs ih =>
    rw [firsts]
    split
    · exact .cons x ih
    · exact .cons_cons x ih

theorem firsts_unseen (member : y ∈ firsts key seen xs) : key y ∉ seen := by
  induction xs generalizing seen with
  | nil => cases member
  | cons x xs ih =>
    rw [firsts] at member
    split at member
    · exact ih member
    · rename_i fresh
      rcases List.mem_cons.mp member with rfl | later
      · exact fresh
      · exact fun inside => ih later (List.mem_append_left _ inside)

theorem firsts_nodup : ((firsts key seen xs).map key).Nodup := by
  induction xs generalizing seen with
  | nil => exact List.nodup_nil
  | cons x xs ih =>
    rw [firsts]
    split
    · exact ih
    · rw [List.map_cons,List.nodup_cons]
      refine ⟨fun again => ?_,ih⟩
      obtain ⟨y,member,same⟩ := List.mem_map.mp again
      exact firsts_unseen member (by rw [same]; simp)

theorem firsts_every (member : x ∈ xs) : key x ∈ seen ∨ ∃ y ∈ firsts key seen xs, key y = key x := by
  induction xs generalizing seen with
  | nil => cases member
  | cons z xs ih =>
    rw [firsts]
    by_cases old : key z ∈ seen
    · rw [if_pos old]
      rcases List.mem_cons.mp member with rfl | later
      · exact .inl old
      · exact ih later
    · rw [if_neg old]
      rcases List.mem_cons.mp member with rfl | later
      · exact .inr ⟨x,List.mem_cons_self,rfl⟩
      · rcases ih later with known | ⟨y,inside,same⟩
        · rcases List.mem_append.mp known with early | last
          · exact .inl early
          · exact .inr ⟨z,List.mem_cons_self,(List.mem_singleton.mp last).symm⟩
        · exact .inr ⟨y,List.mem_cons_of_mem _ inside,same⟩

theorem firsts_append : firsts key seen (xs ++ ys) = firsts key seen xs ++ firsts key (seen ++ (firsts key seen xs).map key) ys := by
  induction xs generalizing seen with
  | nil => rw [List.nil_append,firsts,List.nil_append,List.map_nil,List.append_nil]
  | cons x xs ih =>
    rw [List.cons_append,firsts,firsts]
    split
    · exact ih
    · rw [ih,List.map_cons,List.cons_append,List.append_assoc]
      rfl

theorem firsts_known (known : ∀ x ∈ xs, key x ∈ seen) : firsts key seen xs = [] := by
  induction xs with
  | nil => rfl
  | cons x xs ih =>
    rw [firsts,if_pos (known x List.mem_cons_self)]
    exact ih fun y later => known y (List.mem_cons_of_mem _ later)

theorem firsts_fresh (fresh : ∀ x ∈ xs, key x ∉ seen) (nodup : (xs.map key).Nodup) : firsts key seen xs = xs := by
  induction xs generalizing seen with
  | nil => rfl
  | cons x xs ih =>
    rw [List.map_cons,List.nodup_cons] at nodup
    have later : ∀ y ∈ xs, key y ∉ seen ++ [key x] := by
      intro y inside again
      rcases List.mem_append.mp again with old | last
      · exact fresh y (List.mem_cons_of_mem _ inside) old
      · exact nodup.1 (List.mem_singleton.mp last ▸ List.mem_map_of_mem inside)
    rw [firsts,if_neg (fresh x List.mem_cons_self),ih later nodup.2]

-- What has been put in front once is not put in front again.
theorem firsts_again (xs ys : List α) : firsts key [] (xs ++ firsts key [] (xs ++ ys)) = firsts key [] (xs ++ ys) := by
  have split : firsts key [] (xs ++ ys) = firsts key [] xs ++ firsts key ((firsts key [] xs).map key) ys := by
    rw [firsts_append,List.nil_append]
  rw [split]
  have known : firsts key ((firsts key [] xs).map key) (firsts key [] xs) = [] := firsts_known fun x inside => List.mem_map_of_mem inside
  have fresh : firsts key ((firsts key [] xs).map key) (firsts key ((firsts key [] xs).map key) ys) =
      firsts key ((firsts key [] xs).map key) ys :=
    firsts_fresh (fun x inside => firsts_unseen inside) firsts_nodup
  rw [firsts_append,List.nil_append,firsts_append,known,List.nil_append,List.map_nil,List.append_nil,fresh]

end PrincessIDE.Firsts
