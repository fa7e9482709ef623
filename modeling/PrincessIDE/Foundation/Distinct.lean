import Mathlib.Data.List.Nodup

namespace PrincessIDE
variable {α κ : Type} [DecidableEq α] [DecidableEq κ]

-- The elements of a list in the order in which they are first seen.
def distinct (xs : List α) : List α := xs.foldl (fun out x => if out.contains x then out else out++[x]) []

theorem distinct_fold (xs out : List α) (nodup : out.Nodup) :
    (xs.foldl (fun out x => if out.contains x then out else out++[x]) out).Nodup ∧
    ∀ x, x ∈ xs.foldl (fun out x => if out.contains x then out else out++[x]) out ↔ x ∈ out ∨ x ∈ xs := by
  induction xs generalizing out with
  | nil => exact ⟨nodup,fun x => by simp⟩
  | cons y xs ih =>
    rw [List.foldl_cons]
    by_cases seen : y ∈ out
    · rw [if_pos (List.contains_iff_mem.mpr seen)]
      refine ⟨(ih out nodup).1,fun x => ?_⟩
      rw [(ih out nodup).2,List.mem_cons]
      constructor
      · exact fun early => early.imp_right .inr
      · rintro (early | rfl | later)
        · exact .inl early
        · exact .inl seen
        · exact .inr later
    · rw [if_neg (fun found => seen (List.contains_iff_mem.mp found))]
      have extended : (out++[y]).Nodup := by
        rw [List.nodup_append]
        exact ⟨nodup,List.nodup_singleton y,fun a early b last same => seen (List.mem_singleton.mp last ▸ same ▸ early)⟩
      refine ⟨(ih _ extended).1,fun x => ?_⟩
      rw [(ih _ extended).2,List.mem_append,List.mem_singleton,List.mem_cons,or_assoc]

theorem distinct_nodup (xs : List α) : (distinct xs).Nodup := (distinct_fold xs [] List.nodup_nil).1

theorem mem_distinct (xs : List α) (x : α) : x ∈ distinct xs ↔ x ∈ xs := by
  have members := (distinct_fold xs [] List.nodup_nil).2 x
  simpa [distinct] using members

-- One element of a key, where its key has an element and no two.
theorem filter_one {xs : List α} (nodup : xs.Nodup) (key : α → κ) (k : κ) :
    (xs.filter (key · = k)).length = 1 ↔ (∃ a ∈ xs, key a = k) ∧ ∀ a ∈ xs, ∀ b ∈ xs, key a = k → key b = k → a = b := by
  have member : ∀ a, a ∈ xs.filter (key · = k) ↔ a ∈ xs ∧ key a = k := fun a => by simp
  constructor
  · intro one
    obtain ⟨only,list⟩ := List.length_eq_one_iff.mp one
    have same : ∀ a ∈ xs, key a = k → a = only := fun a inside keyed => by
      have here := (member a).mpr ⟨inside,keyed⟩
      rwa [list,List.mem_singleton] at here
    refine ⟨?_,fun a inside b inside' keyed keyed' => (same a inside keyed).trans (same b inside' keyed').symm⟩
    exact ⟨only,(member only).mp (by rw [list]; exact List.mem_singleton.mpr rfl)⟩
  · rintro ⟨⟨a,inside,keyed⟩,unique⟩
    have all : ∀ b ∈ xs.filter (key · = k), b = a := fun b here =>
      unique b ((member b).mp here).1 a inside ((member b).mp here).2 keyed
    have short := List.nodup_iff_count_le_one.mp (nodup.filter (key · = k)) a
    have whole : (xs.filter (key · = k)).count a = (xs.filter (key · = k)).length := List.count_eq_length.mpr fun b here => (all b here).symm
    have some : 0 < (xs.filter (key · = k)).length := List.length_pos_of_mem ((member a).mpr ⟨inside,keyed⟩)
    omega

-- Of the keys wanted each is there once, and none of them twice with a difference.
theorem distinct_once (key : α → κ) (wanted : κ → Prop) (xs : List α) :
    (∀ k, wanted k → ((distinct xs).filter (key · = k)).length = 1) ↔
      (∀ k, wanted k → ∃ a ∈ xs, key a = k) ∧ ∀ a ∈ xs, ∀ b ∈ xs, wanted (key a) → key a = key b → a = b := by
  have each := fun k => filter_one (distinct_nodup xs) key k
  simp only [mem_distinct] at each
  constructor
  · intro once
    refine ⟨fun k want => ((each k).mp (once k want)).1,fun a inside b inside' want same => ?_⟩
    exact ((each _).mp (once _ want)).2 a inside b inside' rfl same.symm
  · rintro ⟨present,unique⟩ k want
    refine (each k).mpr ⟨present k want,fun a inside b inside' keyed keyed' => ?_⟩
    exact unique a inside b inside' (keyed ▸ want) (keyed.trans keyed'.symm)

end PrincessIDE
