import Mathlib.Data.List.Destutter
import Mathlib.Data.List.Perm.Subperm
import Mathlib.Data.List.Sort

namespace PrincessIDE.Sorting
variable {α κ : Type}

theorem chain_both {xs : List α} {R S T : α → α → Prop} (both : ∀ a b, R a b → S a b → T a b) (rises : xs.Pairwise R) (apart : xs.IsChain S) :
    xs.IsChain T := by
  induction xs with
  | nil => exact .nil
  | cons a xs ih =>
    cases xs with
    | nil => exact .singleton a
    | cons b xs =>
      obtain ⟨step,rest⟩ := List.isChain_cons_cons.mp apart
      exact List.isChain_cons_cons.mpr ⟨both a b (List.rel_of_pairwise_cons rises (List.mem_cons_self ..)) step,ih rises.of_cons rest⟩

section Images
variable {β : Type} {f : α → Option β} {xs : List α}

-- What gives no image does not count.
theorem filterMap_filter_of_image {keep : α → Bool} (here : ∀ x ∈ xs, (f x).isSome → keep x = true) :
    (xs.filter keep).filterMap f = xs.filterMap f := by
  induction xs with
  | nil => rfl
  | cons x xs ih =>
    have rest := ih fun y inside => here y (.tail _ inside)
    cases kept : keep x with
    | true => rw [List.filter_cons_of_pos kept,List.filterMap_cons,List.filterMap_cons,rest]
    | false =>
      have none : f x = none := by
        by_contra some
        exact Bool.noConfusion (kept.symm.trans (here x (.head _) (Option.isSome_iff_ne_none.mpr some)))
      rw [List.filter_cons_of_neg (by simp [kept]),List.filterMap_cons_none none,rest]

theorem length_filterMap (f : α → Option β) (xs : List α) : (xs.filterMap f).length = (xs.filter fun x => (f x).isSome).length := by
  rw [List.length_filterMap_eq_countP,List.countP_eq_length_filter]

-- A part of a list has as many images as the whole: it holds all that has one.
theorem holds_images {ys : List α} (nodup : xs.Nodup) (within : xs ⊆ ys)
    (same : (xs.filterMap f).length = (ys.filterMap f).length) (there : y ∈ ys) (image : (f y).isSome) : y ∈ xs := by
  have part : (xs.filter fun x => (f x).isSome).Subperm (ys.filter fun x => (f x).isSome) :=
    List.Nodup.subperm (nodup.filter _) fun x inside => by
      obtain ⟨here,some⟩ := List.mem_filter.mp inside
      exact List.mem_filter.mpr ⟨within here,some⟩
  have whole := part.perm_of_length_le (by rw [← length_filterMap,← length_filterMap,same])
  exact (List.mem_filter.mp (whole.mem_iff.mpr (List.mem_filter.mpr ⟨there,image⟩))).1

end Images

variable [LinearOrder κ]

theorem nodup_of_ascends {xs : List α} {key : α → κ} (ascends : xs.Pairwise (key · < key ·)) : xs.Nodup := by
  refine ascends.imp fun less same => ?_
  rw [same] at less
  exact lt_irrefl _ less

-- Two ascending lists of the same members are one list.
theorem ascends_ext {xs ys : List α} {key : α → κ} (first : xs.Pairwise (key · < key ·)) (second : ys.Pairwise (key · < key ·))
    (same : ∀ a, a ∈ xs ↔ a ∈ ys) : xs = ys := by
  have perm := (List.perm_ext_iff_of_nodup (nodup_of_ascends first) (nodup_of_ascends second)).mpr same
  exact perm.eq_of_pairwise (fun a b _ _ less greater => absurd (lt_trans less greater) (lt_irrefl _)) first second

variable [DecidableEq α]

-- Sorted by a key, with equal neighbours taken once.
def ordered (key : α → κ) (xs : List α) : List α :=
  (xs.insertionSort fun a b => key a ≤ key b).destutter (· ≠ ·)

theorem mem_destutter (xs : List α) : a ∈ xs.destutter (· ≠ ·) ↔ a ∈ xs := by
  have from' : ∀ (rest : List α) first, a ∈ rest.destutter' (· ≠ ·) first ↔ a = first ∨ a ∈ rest := by
    intro rest
    induction rest with
    | nil => simp
    | cons b rest ih =>
      intro first
      by_cases same : first = b
      · rw [List.destutter'_cons_neg _ (not_not.mpr same),ih,List.mem_cons,same]
        exact ⟨fun inside => inside.elim .inl (.inr ∘ .inr),fun inside => inside.elim .inl id⟩
      · rw [List.destutter'_cons_pos _ same,List.mem_cons,ih,List.mem_cons]
  cases xs with
  | nil => simp
  | cons b rest => rw [List.destutter_cons',from',List.mem_cons]

theorem mem_ordered (key : α → κ) (xs : List α) : a ∈ ordered key xs ↔ a ∈ xs := by
  rw [ordered,mem_destutter,List.mem_insertionSort]

theorem ordered_ascends {key : α → κ} (injective : Function.Injective key) (xs : List α) :
    (ordered key xs).Pairwise (key · < key ·) := by
  have _ : Std.Total fun a b => key a ≤ key b := ⟨fun a b => le_total (key a) (key b)⟩
  have _ : IsTrans α fun a b => key a ≤ key b := ⟨fun a b c => le_trans⟩
  have sorted := List.pairwise_insertionSort (fun a b => key a ≤ key b) xs
  have rises : (ordered key xs).Pairwise fun a b => key a ≤ key b := sorted.sublist (List.destutter_sublist ..)
  have apart : (ordered key xs).IsChain (· ≠ ·) := List.isChain_destutter ..
  have strict : ∀ a b, key a ≤ key b → a ≠ b → InvImage (· < ·) key a b :=
    fun a b le ne => lt_of_le_of_ne le fun same => ne (injective same)
  have steps := chain_both strict rises apart
  have _ : Trans (InvImage (· < ·) key) (InvImage (· < ·) key) (InvImage (· < ·) key) := ⟨fun first second => lt_trans first second⟩
  exact steps.pairwise

end PrincessIDE.Sorting
