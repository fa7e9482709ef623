import Mathlib.Data.List.Induction
import PrincessIDE.Foundation.Distinct

namespace PrincessIDE

theorem distinct_snoc {α : Type} [DecidableEq α] (xs : List α) (x : α) : distinct (xs ++ [x]) = if x ∈ distinct xs then distinct xs else distinct xs ++ [x] := by
  unfold distinct
  rw [List.foldl_append,List.foldl_cons,List.foldl_nil]
  simp only [List.contains_iff_mem]

theorem distinct_fresh {α : Type} [DecidableEq α] {xs : List α} {x : α} (fresh : x ∉ distinct xs) : distinct (xs ++ [x]) = distinct xs ++ [x] := by
  rw [distinct_snoc,if_neg fresh]

theorem distinct_seen {α : Type} [DecidableEq α] {xs : List α} {x : α} (seen : x ∈ distinct xs) : distinct (xs ++ [x]) = distinct xs := by
  rw [distinct_snoc,if_pos seen]

theorem distinct_self {α : Type} [DecidableEq α] {xs : List α} (nodup : xs.Nodup) : distinct xs = xs := by
  induction xs using List.reverseRecOn with
  | nil => rfl
  | append_singleton xs x ih =>
    obtain ⟨front,_,apart⟩ := List.nodup_append.mp nodup
    have same := ih front
    rw [distinct_fresh,same]
    intro early
    exact apart x ((mem_distinct _ _).mp early) x List.mem_cons_self rfl

namespace Keyed
section
variable {κ ρ ε : Type} [DecidableEq κ] (key : ρ → κ) (name : ε → κ) (create : ρ → ε) (merge : ρ → ε → ε)

-- A row changes the first entry of its key, or makes one behind the others.
def upsert (row : ρ) : List ε → List ε
  | [] => [create row]
  | entry :: rest => if name entry = key row then merge row entry :: rest else entry :: upsert row rest

theorem upsert_cons (row : ρ) (entry : ε) (rest : List ε) : upsert key name create merge row (entry :: rest) =
    if name entry = key row then merge row entry :: rest else entry :: upsert key name create merge row rest := rfl

-- What the rows of one key make together.
def summary : List ρ → Option ε
  | [] => none
  | first :: later => some (later.foldl (fun entry row => merge row entry) (create first))

end

section
variable {κ ρ ε : Type} [DecidableEq κ] {key : ρ → κ} {name : ε → κ} {create : ρ → ε} {merge : ρ → ε → ε}

theorem upsert_known {front back : List ε} {entry : ε} {row : ρ} (fresh : key row ∉ front.map name) (same : name entry = key row) :
    upsert key name create merge row (front ++ entry :: back) = front ++ merge row entry :: back := by
  induction front with
  | nil => exact if_pos same
  | cons e front ih =>
    have other : name e ≠ key row := fun same => fresh (by simp [same])
    have later := ih fun inside => fresh (List.mem_cons_of_mem _ inside)
    rw [List.cons_append,upsert_cons,if_neg other,later]
    rfl

theorem upsert_fresh {entries : List ε} {row : ρ} (fresh : key row ∉ entries.map name) :
    upsert key name create merge row entries = entries ++ [create row] := by
  induction entries with
  | nil => rfl
  | cons e entries ih =>
    have other : name e ≠ key row := fun same => fresh (by simp [same])
    rw [upsert_cons,if_neg other,ih fun inside => fresh (List.mem_cons_of_mem _ inside)]
    rfl

omit [DecidableEq κ] in
-- The entry of a key that is known, and those around it.
theorem known_cut {entries : List ε} {k : κ} (nodup : (entries.map name).Nodup) (known : k ∈ entries.map name) :
    ∃ front entry back, entries = front ++ entry :: back ∧ name entry = k ∧ k ∉ front.map name ∧ k ∉ back.map name := by
  obtain ⟨entry,inside,same⟩ := List.mem_map.mp known
  obtain ⟨front,back,rfl⟩ := List.append_of_mem inside
  rw [List.map_append,List.map_cons,same,List.nodup_append] at nodup
  obtain ⟨_,behind,apart⟩ := nodup
  exact ⟨front,entry,back,rfl,same,fun early => apart k early k List.mem_cons_self rfl,(List.nodup_cons.mp behind).1⟩

theorem upsert_names (named : ∀ row, name (create row) = key row) (kept : ∀ row entry, name (merge row entry) = name entry)
    {entries : List ε} (nodup : (entries.map name).Nodup) (row : ρ) : (upsert key name create merge row entries).map name =
    if key row ∈ entries.map name then entries.map name else entries.map name ++ [key row] := by
  split
  · next known =>
    obtain ⟨front,entry,back,rfl,same,fresh,_⟩ := known_cut nodup known
    rw [upsert_known fresh same,List.map_append,List.map_append,List.map_cons,List.map_cons,kept]
  · next fresh =>
    rw [upsert_fresh fresh,List.map_append]
    simp [named]

theorem upsert_mem {entries : List ε} (nodup : (entries.map name).Nodup) {row : ρ} {e : ε} (inside : e ∈ upsert key name create merge row entries) :
    (e ∈ entries ∧ name e ≠ key row) ∨ (∃ old ∈ entries, name old = key row ∧ e = merge row old) ∨ (key row ∉ entries.map name ∧ e = create row) := by
  by_cases known : key row ∈ entries.map name
  · obtain ⟨front,entry,back,rfl,same,before,behind⟩ := known_cut nodup known
    rw [upsert_known before same] at inside
    rcases List.mem_append.mp inside with early | later
    · exact .inl ⟨List.mem_append_left _ early,fun is => before (is ▸ List.mem_map_of_mem early)⟩
    · rcases List.mem_cons.mp later with here | late
      · exact .inr (.inl ⟨entry,List.mem_append_right _ List.mem_cons_self,same,here⟩)
      · exact .inl ⟨List.mem_append_right _ (List.mem_cons_of_mem _ late),fun is => behind (is ▸ List.mem_map_of_mem late)⟩
  · rw [upsert_fresh known] at inside
    rcases List.mem_append.mp inside with early | last
    · exact .inl ⟨early,fun same => known (same ▸ List.mem_map_of_mem early)⟩
    · exact .inr (.inr ⟨known,List.mem_singleton.mp last⟩)

theorem upsert_still {entries : List ε} (nodup : (entries.map name).Nodup) (row : ρ) {e : ε} (inside : e ∈ entries) :
    e ∈ upsert key name create merge row entries ∨ merge row e ∈ upsert key name create merge row entries := by
  by_cases known : key row ∈ entries.map name
  · obtain ⟨front,entry,back,rfl,same,before,_⟩ := known_cut nodup known
    rw [upsert_known before same]
    rcases List.mem_append.mp inside with early | later
    · exact .inl (List.mem_append_left _ early)
    · rcases List.mem_cons.mp later with rfl | late
      · exact .inr (List.mem_append_right _ List.mem_cons_self)
      · exact .inl (List.mem_append_right _ (List.mem_cons_of_mem _ late))
  · rw [upsert_fresh known]
    exact .inl (List.mem_append_left _ inside)

theorem summary_snoc (rows : List ρ) (row : ρ) : summary create merge (rows ++ [row]) =
    some (match summary create merge rows with | none => create row | some entry => merge row entry) := by
  cases rows with
  | nil => rfl
  | cons first later =>
    rw [List.cons_append,summary,summary,List.foldl_append]
    rfl

-- Entries that are, as far as they are looked at, what the rows of their keys make.
structure Summed (key : ρ → κ) (name : ε → κ) (create : ρ → ε) (merge : ρ → ε → ε) (view : ε → ε) (rows : List ρ) (entries : List ε) : Prop where
  names : entries.map name = distinct (rows.map key)
  facts : ∀ entry ∈ entries, summary create merge (rows.filter (key · = name entry)) = some (view entry)

theorem Summed.nodup {view : ε → ε} {rows : List ρ} {entries : List ε} (summed : Summed key name create merge view rows entries) :
    (entries.map name).Nodup := by
  rw [summed.names]
  exact distinct_nodup _

theorem Summed.upsert {view : ε → ε} {rows : List ρ} {entries : List ε} (summed : Summed key name create merge view rows entries)
    (named : ∀ row, name (create row) = key row) (kept : ∀ row entry, name (merge row entry) = name entry)
    (made : ∀ row, view (create row) = create row) (through : ∀ row entry, view (merge row entry) = merge row (view entry)) (row : ρ) :
    Summed key name create merge view (rows ++ [row]) (upsert key name create merge row entries) := by
  constructor
  · rw [upsert_names named kept summed.nodup,summed.names,List.map_append,List.map_cons,List.map_nil,distinct_snoc]
  · intro e inside
    rw [List.filter_append]
    rcases upsert_mem summed.nodup inside with ⟨old,other⟩ | ⟨old,early,same,rfl⟩ | ⟨fresh,rfl⟩
    · rw [List.filter_cons_of_neg (by simpa using other.symm),List.filter_nil,List.append_nil]
      exact summed.facts e old
    · rw [kept,List.filter_cons_of_pos (by simpa using same.symm),List.filter_nil,summary_snoc,summed.facts old early,through]
    · have none : rows.filter (key · = key row) = [] := by
        rw [List.filter_eq_nil_iff]
        intro r inside same
        rw [summed.names] at fresh
        exact fresh ((mem_distinct _ _).mpr (of_decide_eq_true same ▸ List.mem_map_of_mem inside))
      rw [named,none,List.filter_cons_of_pos (by simp),List.filter_nil,made]
      rfl

end
end Keyed
end PrincessIDE
