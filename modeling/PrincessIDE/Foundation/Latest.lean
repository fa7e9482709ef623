import Mathlib.Data.List.Basic

namespace PrincessIDE

-- What is left of a list when an element may be lost to a later one: the rest
-- keeps its order, and the last element stays.
def Latest (kept all : List α) : Prop := kept.Sublist all ∧ kept.getLast? = all.getLast?

namespace Latest

theorem refl (xs : List α) : Latest xs xs := ⟨List.Sublist.refl xs,rfl⟩

theorem trans {a b c : List α} (first : Latest a b) (second : Latest b c) : Latest a c :=
  ⟨first.1.trans second.1,first.2.trans second.2⟩

theorem append_right {a b : List α} (kept : Latest a b) (xs : List α) : Latest (a++xs) (b++xs) := by
  refine ⟨kept.1.append (List.Sublist.refl xs),?_⟩
  rw [List.getLast?_append,List.getLast?_append,kept.2]

theorem append_left {a b : List α} (kept : Latest a b) (xs : List α) : Latest (xs++a) (xs++b) := by
  refine ⟨(List.Sublist.refl xs).append kept.1,?_⟩
  rw [List.getLast?_append,List.getLast?_append,kept.2]

theorem overwritten (old new : α) (xs : List α) : Latest (new::xs) (old::new::xs) :=
  ⟨(List.Sublist.refl _).cons old,by rw [List.getLast?_cons_cons]⟩

-- Where there is no later element, nothing is lost.
theorem eq_of_short {kept all : List α} (latest : Latest kept all) (short : all.length ≤ 1) : kept = all := by
  match all with
  | [] => exact List.sublist_nil.mp latest.1
  | [x] =>
    rcases List.sublist_singleton.mp latest.1 with rfl | same
    · cases latest.2
    · exact same

end Latest
end PrincessIDE
