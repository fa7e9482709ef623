import PrincessIDE.Foundation.Str

namespace PrincessIDE.Str
open Utf8

-- The places of a pattern that what stands around them makes count, and the search
-- for the first of them, which goes on behind each place that does not.
section
variable (counts : Text → Text → Bool) (pat : Text)

def placeFrom : Nat → Text → Text → Option (Text × Text)
  | 0,_,_ => none
  | n+1,front,t => match splitOnce pat t with
    | none => none
    | some (gap,rest) => if counts (front++gap) rest then some (front++gap,rest) else placeFrom n (front++gap++pat) rest

def firstPlace (t : Text) : Option (Text × Text) := placeFrom counts pat (t.length+1) [] t

end

structure Placed (counts : Text → Text → Bool) (pat t before after : Text) : Prop where
  whole : t = before ++ pat ++ after
  counted : counts before after = true

-- A pattern no end of which is its start.
def unbordered (pat : Text) : Bool := (List.range pat.length).all fun k => k = 0 || !startsWith (pat.drop k) pat

section
variable {counts : Text → Text → Bool} {pat : Text}

theorem placeFrom_found (found : splitOnce pat t = some (gap,rest)) (n : Nat) (front : Text) : placeFrom counts pat (n+1) front t =
    if counts (front++gap) rest then some (front++gap,rest) else placeFrom counts pat n (front++gap++pat) rest := by
  rw [placeFrom,found]

theorem placeFrom_placed (found : placeFrom counts pat n front t = some (before,after)) : Placed counts pat (front++t) before after := by
  induction n generalizing front t with
  | zero => cases found
  | succ n ih =>
    cases cut : splitOnce pat t with
    | none =>
      rw [placeFrom,cut] at found
      cases found
    | some next =>
      obtain ⟨gap,rest⟩ := next
      rw [placeFrom_found cut] at found
      have whole := splitOnce_eq cut
      split at found
      · next counted =>
        cases found
        exact ⟨by rw [whole]; simp only [List.append_assoc],counted⟩
      · have later := ih found
        rw [whole]
        simpa only [List.append_assoc] using later

-- No place is further in front than the one that is found.
theorem splitOnce_least (t before after : Text) (whole : t = before ++ pat ++ after) :
    ∃ gap rest, splitOnce pat t = some (gap,rest) ∧ gap.length ≤ before.length := by
  subst whole
  induction before with
  | nil => exact ⟨[],after,splitOnce_start pat after,Nat.le_refl _⟩
  | cons c before ih =>
    obtain ⟨gap,rest,found,short⟩ := ih
    rw [List.cons_append,List.cons_append,splitOnce]
    split
    · exact ⟨[],_,rfl,Nat.zero_le _⟩
    · exact ⟨c :: gap,rest,by rw [found]; rfl,Nat.succ_le_succ short⟩

-- Two places of a pattern that does not overlap itself lie apart.
theorem unbordered_apart (single : unbordered pat = true) (first : t = a ++ pat ++ rest) (second : t = b ++ pat ++ after) (front : a.length < b.length) :
    ∃ between, b = a ++ pat ++ between ∧ rest = between ++ pat ++ after := by
  rw [first,List.append_assoc,List.append_assoc] at second
  rcases List.append_eq_append_iff.mp second with ⟨x,cut,behind⟩ | ⟨x,cut,_⟩
  · rcases List.append_eq_append_iff.mp behind with ⟨y,whole,later⟩ | ⟨y,whole,later⟩
    · exact ⟨y,by rw [cut,whole,List.append_assoc],by rw [later,List.append_assoc]⟩
    · -- the second place begins inside the first
      cases y with
      | nil =>
        rw [List.append_nil] at whole
        exact ⟨[],by rw [cut,whole,List.append_nil],by rw [List.nil_append]; exact later.symm⟩
      | cons c y =>
        have inside : x.length < pat.length := by
          rw [whole,List.length_append,List.length_cons]
          omega
        have some : 0 < x.length := by
          rw [cut,List.length_append] at front
          omega
        have alone := List.all_eq_true.mp single x.length (List.mem_range.mpr inside)
        have tail : pat.drop x.length = c :: y := by rw [whole,List.drop_left]
        have starts : startsWith (pat.drop x.length) pat = true := by
          rw [tail]
          have head : ∃ more, pat = (c :: y) ++ more := by
            rcases List.append_eq_append_iff.mp later with ⟨more,same,_⟩ | ⟨more,same,_⟩
            · have lengths := congrArg List.length same
              have long := congrArg List.length whole
              rw [List.length_append] at lengths long
              omega
            · exact ⟨more,same⟩
          obtain ⟨more,same⟩ := head
          rw [startsWith,same,stripPrefix_append]
          rfl
        simp [starts,Nat.ne_of_gt some] at alone
  · have lengths := congrArg List.length cut
    rw [List.length_append] at lengths
    omega

theorem placeFrom_least (single : unbordered pat = true) (some : pat ≠ []) (room : t.length < n) (whole : t = before ++ pat ++ after)
    (counted : counts (front++before) after = true) :
    ∃ b a, placeFrom counts pat n front t = .some (b,a) ∧ b.length ≤ (front++before).length := by
  induction n generalizing front t before with
  | zero => omega
  | succ n ih =>
    obtain ⟨gap,rest,found,short⟩ := splitOnce_least t before after whole
    rw [placeFrom_found found]
    by_cases here : counts (front++gap) rest = true
    · exact ⟨_,_,if_pos here,by simp only [List.length_append]; omega⟩
    rw [if_neg here]
    rcases Nat.lt_or_eq_of_le short with front' | level
    · obtain ⟨between,cut,later⟩ := unbordered_apart single (splitOnce_eq found) whole front'
      have less := splitOnce_short some found
      rw [cut,← List.append_assoc,← List.append_assoc] at counted
      obtain ⟨b,a,last,bound⟩ := ih (by omega) later counted
      refine ⟨b,a,last,?_⟩
      rw [cut,← List.append_assoc,← List.append_assoc]
      exact bound
    · have same := (splitOnce_eq found).symm.trans whole
      rw [List.append_assoc,List.append_assoc] at same
      obtain ⟨rfl,behind⟩ := List.append_inj same level
      rw [List.append_cancel_left behind] at here
      exact absurd counted here

theorem firstPlace_placed (found : firstPlace counts pat t = some (before,after)) : Placed counts pat t before after := placeFrom_placed found

theorem firstPlace_least (single : unbordered pat = true) (some : pat ≠ []) (placed : Placed counts pat t before after) :
    ∃ b a, firstPlace counts pat t = .some (b,a) ∧ Placed counts pat t b a ∧ b.length ≤ before.length := by
  have counted : counts ([] ++ before) after = true := placed.counted
  obtain ⟨b,a,found,short⟩ := placeFrom_least single some (Nat.lt_succ_self _) placed.whole counted
  exact ⟨b,a,found,firstPlace_placed found,short⟩

theorem firstPlace_none (off : ∀ before after, ¬ Placed counts pat t before after) : firstPlace counts pat t = none := by
  cases found : firstPlace counts pat t with
  | none => rfl
  | some cut => exact absurd (firstPlace_placed found) (off cut.1 cut.2)

-- Where a place can lie in a text that has `c` somewhere.
theorem place_cases {c : Char} {x y b a : Text} (whole : x ++ c :: y = b ++ pat ++ a) :
    (∃ more, x = b ++ pat ++ more ∧ a = more ++ c :: y) ∨ (∃ more, b = x ++ more ∧ c :: y = more ++ pat ++ a) ∨
      ∃ u v, u ≠ [] ∧ x = b ++ u ∧ pat = u ++ c :: v ∧ y = v ++ a := by
  rw [List.append_assoc] at whole
  rcases List.append_eq_append_iff.mp whole with ⟨more,cut,behind⟩ | ⟨more,cut,behind⟩
  · exact .inr (.inl ⟨more,cut,by rw [List.append_assoc]; exact behind⟩)
  · rcases List.append_eq_append_iff.mp behind with ⟨rest,first,last⟩ | ⟨rest,first,last⟩
    · exact .inl ⟨rest,by rw [cut,first,List.append_assoc],last⟩
    · cases rest with
      | nil =>
        rw [List.append_nil] at first
        exact .inl ⟨[],by rw [cut,first,List.append_nil],last.symm⟩
      | cons d v =>
        rw [List.cons_append] at last
        obtain ⟨rfl,later⟩ := List.cons.inj last
        cases more with
        | nil =>
          rw [List.append_nil] at cut
          exact .inr (.inl ⟨[],by rw [cut,List.append_nil],by rw [List.nil_append]; exact behind.symm⟩)
        | cons e more => exact .inr (.inr ⟨e :: more,v,List.cons_ne_nil e more,cut,first,later⟩)

end
end PrincessIDE.Str
