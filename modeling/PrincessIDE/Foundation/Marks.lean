import PrincessIDE.Foundation.Str

namespace PrincessIDE.Str
open Utf8

-- A pattern that begins and ends with a character that it has nowhere else.
structure Fenced (c : Char) (pat : Text) : Prop where
  shape : ∃ mid, pat = c :: mid ++ [c] ∧ c ∉ mid

-- One that stands nowhere in `a`, not even with the first `c` behind it, stands
-- behind it or not at all.
theorem splitOnce_fenced (fenced : Fenced c pat) (quiet : splitOnce pat (a++[c]) = none) (t : Text) :
    splitOnce pat (a ++ c :: t) = (splitOnce pat (c :: t)).map fun found => (a ++ found.1,found.2) := by
  obtain ⟨mid,shape,clean⟩ := fenced.shape
  induction a with
  | nil => simp
  | cons x a ih =>
    obtain ⟨here,later⟩ : stripPrefix pat (x :: a ++ [c]) = none ∧ splitOnce pat (a++[c]) = none := splitOnce_quiet quiet
    have off : stripPrefix pat (x :: a ++ c :: t) = none := by
      cases found : stripPrefix pat (x :: a ++ c :: t) with
      | none => rfl
      | some rest =>
        have whole := stripPrefix_eq found
        rw [show x :: a ++ c :: t = (x :: a ++ [c]) ++ t by simp] at whole
        rcases List.append_eq_append_iff.mp whole with ⟨more,cut,_⟩ | ⟨more,cut,_⟩
        · -- the pattern reaches past that `c`, or ends with it
          cases List.eq_nil_or_concat more with
          | inl none =>
            rw [none,List.append_nil] at cut
            have same := stripPrefix_append pat []
            rw [List.append_nil] at same
            rw [← cut,same] at here
            cases here
          | inr last =>
            obtain ⟨front,d,rfl⟩ := last
            have inside : c :: mid ++ [c] = (x :: (a ++ [c] ++ front)) ++ [d] := by rw [← shape,cut]; simp
            obtain ⟨middle,_⟩ := List.append_inj' inside rfl
            obtain ⟨_,same⟩ := List.cons.inj middle
            exact absurd (same ▸ by simp) clean
        · rw [cut,stripPrefix_append] at here
          cases here
    rw [List.cons_append] at off ⊢
    rw [splitOnce,off,ih later]
    simp [Function.comp_def]

theorem stripPrefix_beyond (off : stripPrefix pat t = none) (long : pat.length ≤ t.length) (more : Text) : stripPrefix pat (t++more) = none := by
  cases found : stripPrefix pat (t++more) with
  | none => rfl
  | some rest =>
    have whole := stripPrefix_eq found
    obtain ⟨cut,same⟩ : ∃ cut, t = pat ++ cut := by
      rcases List.append_eq_append_iff.mp whole with ⟨x,first,_⟩ | ⟨x,first,_⟩
      · have lengths := congrArg List.length first
        rw [List.length_append] at lengths
        have none : x = [] := List.eq_nil_of_length_eq_zero (by omega)
        exact ⟨[],by rw [first,none]; simp⟩
      · exact ⟨x,first⟩
    rw [same,stripPrefix_append] at off
    cases off

-- A character that a pattern does not have ends what it is looked for in.
theorem stripPrefix_before (absent : c ∉ pat) (t more : Text) : stripPrefix pat (t ++ c :: more) = (stripPrefix pat t).map (· ++ c :: more) := by
  cases here : stripPrefix pat t with
  | some rest => rw [stripPrefix_eq here,List.append_assoc,stripPrefix_append]; rfl
  | none =>
    cases found : stripPrefix pat (t ++ c :: more) with
    | none => rfl
    | some rest =>
      rcases List.append_eq_append_iff.mp (stripPrefix_eq found) with ⟨x,whole,cut⟩ | ⟨x,whole,_⟩
      · cases x with
        | nil =>
          have same := stripPrefix_append pat []
          rw [List.append_nil] at same whole
          rw [← whole,same] at here
          cases here
        | cons y x =>
          obtain ⟨rfl,_⟩ := List.cons.inj cut
          exact absurd (whole ▸ by simp) absent
      · rw [whole,stripPrefix_append] at here
        cases here

-- What is found in a text is found at the same place in one that goes on with it.
theorem splitOnce_ahead (found : splitOnce pat t = some (a,rest)) (more : Text) : splitOnce pat (t++more) = some (a,rest++more) := by
  induction t generalizing a with
  | nil =>
    obtain ⟨_,here,same⟩ := Option.map_eq_some_iff.mp found
    have empty := List.append_eq_nil_iff.mp (stripPrefix_eq here).symm
    cases same
    rw [empty.1,empty.2]
    exact splitOnce_start [] _
  | cons c t ih =>
    have whole := congrArg List.length (splitOnce_eq found)
    simp only [splitOnce] at found
    split at found
    · next here =>
      cases found
      have ahead : stripPrefix pat (c :: (t ++ more)) = some (rest++more) := by
        rw [← List.cons_append,stripPrefix_eq here,List.append_assoc,stripPrefix_append]
      rw [List.cons_append,splitOnce,ahead]
    · next off =>
      obtain ⟨⟨b,r⟩,later,same⟩ := Option.map_eq_some_iff.mp found
      cases same
      simp only [List.length_append,List.length_cons] at whole
      have ahead := stripPrefix_beyond off (by simp only [List.length_cons]; omega) more
      rw [List.cons_append] at ahead ⊢
      rw [splitOnce,ahead]
      dsimp only
      rw [ih later]
      rfl

theorem contains_ahead (inside : contains pat t = true) (more : Text) : contains pat (t++more) = true := by
  obtain ⟨⟨a,rest⟩,found⟩ := Option.isSome_iff_exists.mp inside
  rw [contains,splitOnce_ahead found more]
  rfl

theorem contains_behind (inside : contains pat t = true) (front : Text) : contains pat (front++t) = true := by
  induction front with
  | nil => exact inside
  | cons c front ih =>
    rw [List.cons_append,contains,splitOnce]
    split
    · rfl
    · rw [Option.isSome_map]
      exact ih

theorem contains_within (pat front back : Text) : contains pat (front ++ pat ++ back) = true := by
  have here : contains pat (pat ++ back) = true := by rw [contains,splitOnce_start]; rfl
  rw [List.append_assoc]
  exact contains_behind here front

-- A pattern of two different characters.
theorem splitOnce_pair (differ : x ≠ y) (quiet : splitOnce [x,y] a = none) (rest : Text) :
    splitOnce [x,y] (a ++ x :: y :: rest) = some (a,rest) := by
  induction a with
  | nil => exact splitOnce_start [x,y] rest
  | cons z a ih =>
    obtain ⟨off,later⟩ := splitOnce_quiet quiet
    have ahead : stripPrefix [x,y] (z :: a ++ x :: y :: rest) = none := by
      cases a with
      | nil => simp [stripPrefix,differ.symm]
      | cons w a => exact stripPrefix_beyond off (by simp) _
    rw [List.cons_append] at ahead ⊢
    rw [splitOnce,ahead,ih later]
    rfl

theorem splitOnce_pair_none (quiet : splitOnce [x,y] a = none) (absent : y ∉ b) : splitOnce [x,y] (a ++ b) = none := by
  induction a with
  | nil => exact splitOnce_none absent (by simp)
  | cons z a ih =>
    obtain ⟨off,later⟩ := splitOnce_quiet quiet
    have ahead : stripPrefix [x,y] (z :: a ++ b) = none := by
      cases a with
      | nil =>
        cases b with
        | nil => exact off
        | cons w b =>
          have other : y ≠ w := fun same => absent (by simp [same])
          simp [stripPrefix,other]
      | cons w a => exact stripPrefix_beyond off (by simp) _
    rw [List.cons_append] at ahead ⊢
    rw [splitOnce,ahead,ih later]
    rfl

end PrincessIDE.Str
