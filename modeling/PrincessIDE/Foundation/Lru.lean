import Mathlib.Data.List.Nodup
import Mathlib.Data.List.Perm.Basic

namespace PrincessIDE.Lru

-- A bounded store of keyed values, the most recently used first. A lookup takes
-- its entry out, to be put back in front; what is loaded goes in front, and the
-- back gives way.
def takeOut [DecidableEq κ] (key : κ) : List (κ × ν) → Option ((κ × ν) × List (κ × ν))
  | [] => none
  | entry :: rest => if entry.1 = key then some (entry,rest)
    else (takeOut key rest).map fun found => (found.1,entry::found.2)

def evict (capacity : Nat) (entries : List (κ × ν)) : List (κ × ν) := entries.take capacity

structure Keeps (capacity : Nat) (good : κ → ν → Prop) (entries : List (κ × ν)) : Prop where
  bounded : entries.length ≤ capacity
  distinct : (entries.map Prod.fst).Nodup
  faithful : ∀ entry ∈ entries, good entry.1 entry.2

variable {good : κ → ν → Prop}

theorem keeps_nil (capacity : Nat) (good : κ → ν → Prop) : Keeps capacity good [] :=
  ⟨Nat.zero_le _,List.nodup_nil,by simp⟩

theorem Keeps.mono {weaker : κ → ν → Prop} (kept : Keeps capacity good entries)
    (implied : ∀ entry ∈ entries, good entry.1 entry.2 → weaker entry.1 entry.2) : Keeps capacity weaker entries :=
  ⟨kept.bounded,kept.distinct,fun entry member => implied entry member (kept.faithful entry member)⟩

theorem Keeps.perm (kept : Keeps capacity good entries) (same : entries.Perm others) : Keeps capacity good others :=
  ⟨same.length_eq ▸ kept.bounded,(same.map Prod.fst).nodup_iff.mp kept.distinct,
    fun entry member => kept.faithful entry (same.mem_iff.mpr member)⟩

theorem takeOut_perm [DecidableEq κ] {key : κ} {entries : List (κ × ν)} (found : takeOut key entries = some (entry,rest)) :
    entry.1 = key ∧ entries.Perm (entry::rest) := by
  induction entries generalizing rest with
  | nil => cases found
  | cons first others ih =>
    rw [takeOut] at found
    split at found
    · rename_i same
      cases found
      exact ⟨same,List.Perm.refl _⟩
    · cases taken : takeOut key others with
      | none => simp [taken] at found
      | some pair =>
        rw [taken] at found
        cases found
        obtain ⟨same,moved⟩ := ih taken
        exact ⟨same,(moved.cons first).trans (List.Perm.swap _ _ _)⟩

theorem takeOut_none [DecidableEq κ] {key : κ} {entries : List (κ × ν)} : takeOut key entries = none ↔ key ∉ entries.map Prod.fst := by
  induction entries with
  | nil => simp [takeOut]
  | cons first others ih =>
    by_cases same : first.1 = key
    · simp [takeOut,same]
    · simp [takeOut,same,ih,Ne.symm same]

theorem takeOut_unique [DecidableEq κ] {entries : List (κ × ν)} (distinct : (entries.map Prod.fst).Nodup) (member : entry ∈ entries)
    (found : takeOut entry.1 entries = some (other,rest)) : other = entry := by
  obtain ⟨same,moved⟩ := takeOut_perm found
  exact List.inj_on_of_nodup_map distinct (moved.mem_iff.mpr List.mem_cons_self) member same

-- The two ways to the front: what was held moves there, what is loaded is put
-- there and the least recently used entries leave.
theorem keeps_touch [DecidableEq κ] {key : κ} (kept : Keeps capacity good entries) (found : takeOut key entries = some (entry,rest)) :
    Keeps capacity good (entry::rest) ∧ good key entry.2 := by
  obtain ⟨rfl,moved⟩ := takeOut_perm found
  have after := kept.perm moved
  exact ⟨after,after.faithful entry List.mem_cons_self⟩

theorem keeps_admit [DecidableEq κ] {key : κ} (kept : Keeps capacity good entries) (absent : takeOut key entries = none)
    (loaded : good key value) : Keeps capacity good (evict capacity ((key,value)::entries)) := by
  have kept_fst := (List.take_sublist capacity ((key,value)::entries)).map Prod.fst
  refine ⟨List.length_take_le _ _,?_,?_⟩
  · apply kept_fst.nodup
    exact List.nodup_cons.mpr ⟨takeOut_none.mp absent,kept.distinct⟩
  · intro entry member
    rcases List.mem_cons.mp (List.mem_of_mem_take member) with rfl | old
    · exact loaded
    · exact kept.faithful entry old

end PrincessIDE.Lru
