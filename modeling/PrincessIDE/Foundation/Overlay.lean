import Mathlib.Data.List.Basic

namespace PrincessIDE.Overlay

-- Writing into a buffer of fixed size.
def overlay (buf : List α) (offset : Nat) (bytes : List α) : List α :=
  buf.take offset ++ bytes ++ buf.drop (offset+bytes.length)

def Inside (size : Nat) (write : Nat × List α) : Prop := write.1+write.2.length ≤ size

def Covers (write : Nat × List α) (i : Nat) : Prop := write.1 ≤ i ∧ i < write.1+write.2.length

theorem overlay_length {buf bytes : List α} (inside : Inside buf.length (offset,bytes)) :
    (overlay buf offset bytes).length = buf.length := by
  have room : offset+bytes.length ≤ buf.length := inside
  simp only [overlay,List.length_append,List.length_take,List.length_drop]
  omega

theorem overlay_covered {buf bytes : List α} (inside : Inside buf.length (offset,bytes)) (covered : Covers (offset,bytes) i) :
    (overlay buf offset bytes)[i]? = bytes[i-offset]? := by
  have room : offset+bytes.length ≤ buf.length := inside
  obtain ⟨low,high⟩ : offset ≤ i ∧ i < offset+bytes.length := covered
  have front : (buf.take offset).length = offset := by rw [List.length_take]; omega
  rw [overlay,List.append_assoc,List.getElem?_append_right (by omega),front,List.getElem?_append_left (by omega)]

theorem overlay_uncovered {buf bytes : List α} (inside : Inside buf.length (offset,bytes)) (uncovered : ¬ Covers (offset,bytes) i) :
    (overlay buf offset bytes)[i]? = buf[i]? := by
  have room : offset+bytes.length ≤ buf.length := inside
  have front : (buf.take offset).length = offset := by rw [List.length_take]; omega
  rw [overlay,List.append_assoc]
  by_cases low : i < offset
  · rw [List.getElem?_append_left (by omega),List.getElem?_take_of_lt low]
  · have high : offset+bytes.length ≤ i := Nat.le_of_not_lt fun short => uncovered ⟨Nat.le_of_not_lt low,short⟩
    rw [List.getElem?_append_right (by omega),front,List.getElem?_append_right (by omega),List.getElem?_drop]
    congr 1
    omega

def overlays (buf : List α) (writes : List (Nat × List α)) : List α := writes.foldl (fun buf write => overlay buf write.1 write.2) buf

-- What stands at a place comes from a write that covers it, or was there where
-- none does.
theorem overlays_get (buf : List α) {writes : List (Nat × List α)} (inside : ∀ write ∈ writes, Inside buf.length write) (i : Nat) :
    (∃ write ∈ writes, Covers write i ∧ (overlays buf writes)[i]? = write.2[i-write.1]?) ∨
      ((∀ write ∈ writes, ¬ Covers write i) ∧ (overlays buf writes)[i]? = buf[i]?) := by
  induction writes generalizing buf with
  | nil => exact .inr ⟨by simp,rfl⟩
  | cons first rest ih =>
    have here := inside first List.mem_cons_self
    have size := overlay_length here
    rcases ih (overlay buf first.1 first.2) (fun write member => size ▸ inside write (List.mem_cons_of_mem _ member)) with
      later | ⟨none,same⟩
    · obtain ⟨write,member,covered,value⟩ := later
      exact .inl ⟨write,List.mem_cons_of_mem _ member,covered,value⟩
    · by_cases covered : Covers first i
      · exact .inl ⟨first,List.mem_cons_self,covered,same.trans (overlay_covered here covered)⟩
      · refine .inr ⟨?_,same.trans (overlay_uncovered here covered)⟩
        intro write member
        rcases List.mem_cons.mp member with rfl | other
        · exact covered
        · exact none write other

theorem overlays_length (buf : List α) {writes : List (Nat × List α)} (inside : ∀ write ∈ writes, Inside buf.length write) :
    (overlays buf writes).length = buf.length := by
  induction writes generalizing buf with
  | nil => rfl
  | cons first rest ih =>
    have size := overlay_length (inside first List.mem_cons_self)
    exact (ih (overlay buf first.1 first.2) fun write member => size ▸ inside write (List.mem_cons_of_mem _ member)).trans size

-- What a write lays at a place, and what stands there behind several of them:
-- the last that lays anything there counts.
def laid (write : Nat × List α) (i : Nat) : Option α := if write.1 ≤ i then write.2[i-write.1]? else none

def lastLaid (writes : List (Nat × List α)) (i : Nat) : Option α := writes.foldl (fun last write => (laid write i).or last) none

theorem lastLaid_snoc (writes : List (Nat × List α)) (write : Nat × List α) (i : Nat) :
    lastLaid (writes ++ [write]) i = (laid write i).or (lastLaid writes i) := by
  simp [lastLaid]

theorem laid_cons (offset : Nat) (first : α) (rest : List α) (i : Nat) :
    laid (offset,first :: rest) i = if i = offset then some first else laid (offset+1,rest) i := by
  unfold laid
  by_cases same : i = offset
  · simp [same]
  · by_cases low : offset ≤ i
    · obtain ⟨k,rfl⟩ := Nat.exists_eq_add_of_lt (Nat.lt_of_le_of_ne low (Ne.symm same))
      simp [Nat.add_assoc,Nat.add_sub_add_left]
    · rw [if_neg low,if_neg same,if_neg (by omega)]

end PrincessIDE.Overlay
