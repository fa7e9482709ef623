import PrincessIDE.Foundation.Str

namespace PrincessIDE.Str
open Utf8

-- `str::split_inclusive('\n')`: the lines with what ends them.
def inclusiveFrom (line : Text) : Text → List Text
  | [] => if line = [] then [] else [line]
  | c :: t => if c = '\n' then (line++[c]) :: inclusiveFrom [] t else inclusiveFrom (line++[c]) t

def splitInclusive (t : Text) : List Text := inclusiveFrom [] t

def isEnding (c : Char) : Bool := c = '\n' || c = '\r'

-- Every line under its number, counted from one, and at its byte offset.
def numbered (index offset : Nat) : List Text → List (Nat × Nat × Text)
  | [] => []
  | line :: rest => (index+1,offset,trimEndMatches isEnding line) :: numbered (index+1) (offset+(encode line).length) rest

def linesWithOffsets (t : Text) : List (Nat × Nat × Text) := numbered 0 0 (splitInclusive t)

theorem inclusiveFrom_append (line a b : Text) :
    inclusiveFrom line (a ++ '\n' :: b) = inclusiveFrom line (a++['\n']) ++ inclusiveFrom [] b := by
  induction a generalizing line with
  | nil => simp [inclusiveFrom]
  | cons c a ih =>
    simp only [List.cons_append,inclusiveFrom]
    split
    · simp [ih]
    · exact ih _

-- Cutting a text behind a newline cuts its lines.
theorem splitInclusive_append (ended : a = [] ∨ a.getLast? = some '\n') (b : Text) :
    splitInclusive (a++b) = splitInclusive a ++ splitInclusive b := by
  rcases ended with rfl | last
  · rfl
  · obtain ⟨front,rfl⟩ := List.getLast?_eq_some_iff.mp last
    simpa [splitInclusive] using inclusiveFrom_append [] front b

theorem inclusiveFrom_flatten (line t : Text) : (inclusiveFrom line t).flatten = line ++ t := by
  induction t generalizing line with
  | nil =>
    simp only [inclusiveFrom]
    split
    · simp_all
    · simp
  | cons c t ih =>
    simp only [inclusiveFrom]
    split
    · simp [ih]
    · simp [ih]

theorem splitInclusive_flatten (t : Text) : (splitInclusive t).flatten = t := inclusiveFrom_flatten [] t

-- A line with its newline; the last line of a text may lack one.
def Ended (row : Text) : Prop := ∃ plain, '\n' ∉ plain ∧ row = plain ++ ['\n']

def lastRow (last : Text) : List Text := if last = [] then [] else [last]

theorem inclusiveFrom_shape (plain : '\n' ∉ line) (t : Text) : ∃ rows last, (∀ row ∈ rows, Ended row) ∧ '\n' ∉ last ∧
    inclusiveFrom line t = rows ++ lastRow last := by
  induction t generalizing line with
  | nil => exact ⟨[],line,by simp,plain,rfl⟩
  | cons c t ih =>
    simp only [inclusiveFrom]
    split
    · rename_i newline
      subst newline
      obtain ⟨rows,last,ended,bare,shape⟩ := ih (List.not_mem_nil)
      refine ⟨(line++['\n']) :: rows,last,?_,bare,by rw [shape]; rfl⟩
      intro row member
      rcases List.mem_cons.mp member with rfl | later
      · exact ⟨line,plain,rfl⟩
      · exact ended row later
    · rename_i other
      exact ih (by simp [plain,Ne.symm other])

theorem splitInclusive_shape (t : Text) : ∃ rows last, (∀ row ∈ rows, Ended row) ∧ '\n' ∉ last ∧
    splitInclusive t = rows ++ lastRow last := inclusiveFrom_shape (List.not_mem_nil) t

theorem splitInclusive_ended (ended : Ended row) : splitInclusive row = [row] := by
  obtain ⟨plain,bare,rfl⟩ := ended
  have whole : ∀ line, inclusiveFrom line (plain++['\n']) = [line++plain++['\n']] := by
    induction plain with
    | nil => simp [inclusiveFrom]
    | cons c t ih =>
      intro line
      have other : c ≠ '\n' := fun same => bare (by simp [same])
      simp [inclusiveFrom,other,ih fun inside => bare (List.mem_cons_of_mem _ inside)]
  exact whole []

theorem flatten_ended {rows : List Text} (ended : ∀ row ∈ rows, Ended row) : rows.flatten = [] ∨ rows.flatten.getLast? = some '\n' := by
  rcases List.eq_nil_or_concat rows with rfl | ⟨front,row,rfl⟩
  · exact .inl rfl
  · obtain ⟨plain,_,rfl⟩ := ended row (by simp)
    exact .inr (by simp)

theorem splitInclusive_flatten_ended {rows : List Text} (ended : ∀ row ∈ rows, Ended row) : splitInclusive rows.flatten = rows := by
  induction rows with
  | nil => rfl
  | cons row rows ih =>
    have first := ended row List.mem_cons_self
    obtain ⟨plain,_,last⟩ := first
    rw [List.flatten_cons,splitInclusive_append (.inr (by rw [last]; simp)),splitInclusive_ended (ended row List.mem_cons_self),
      ih fun r member => ended r (List.mem_cons_of_mem _ member)]
    rfl

theorem count_ended {rows : List Text} (ended : ∀ row ∈ rows, Ended row) : rows.flatten.count '\n' = rows.length := by
  induction rows with
  | nil => rfl
  | cons row rows ih =>
    obtain ⟨plain,bare,rfl⟩ := ended row List.mem_cons_self
    rw [List.flatten_cons,List.count_append,List.count_append,List.count_eq_zero.mpr bare,
      ih fun r member => ended r (List.mem_cons_of_mem _ member),List.length_cons,List.count_singleton]
    simp [Nat.add_comm]

theorem numbered_cut (cut : numbered index offset rows = before ++ (n,o,line) :: later) : ∃ front row rest, rows = front ++ row :: rest ∧
    before = numbered index offset front ∧ n = index+front.length+1 ∧ o = offset+(encode front.flatten).length ∧
    line = trimEndMatches isEnding row := by
  induction rows generalizing index offset before with
  | nil => simp [numbered] at cut
  | cons first rest ih =>
    simp only [numbered] at cut
    cases before with
    | nil =>
      obtain ⟨here,_⟩ := List.cons.inj cut
      cases here
      exact ⟨[],first,rest,rfl,rfl,rfl,rfl,rfl⟩
    | cons head before =>
      obtain ⟨rfl,further⟩ := List.cons.inj cut
      obtain ⟨front,row,rest,rfl,rfl,rfl,rfl,shown⟩ := ih further
      refine ⟨first::front,row,rest,rfl,rfl,?_,?_,shown⟩
      · rw [List.length_cons]
        omega
      · rw [List.flatten_cons,encode_append,List.length_append]
        omega

-- Where a line stands: behind whole lines, under the number of newlines before
-- it and one, and at the number of bytes before it.
structure Stands (t front : Text) (number offset : Nat) (line : Text) : Prop where
  cut : ∃ row rest, t = front ++ row ++ rest ∧ line = trimEndMatches isEnding row ∧ (Ended row ∨ '\n' ∉ row ∧ row ≠ [] ∧ rest = [])
  behind : front = [] ∨ front.getLast? = some '\n'
  number : number = front.count '\n' + 1
  offset : offset = (encode front).length

-- Each line stands where its number and its offset say.
theorem linesWithOffsets_stands (cut : linesWithOffsets t = before ++ (n,o,line) :: later) :
    ∃ front, before = linesWithOffsets front ∧ Stands t front n o line := by
  obtain ⟨front,row,rest,split,rfl,rfl,rfl,rfl⟩ := numbered_cut cut
  obtain ⟨rows,last,ended,bare,shape⟩ := splitInclusive_shape t
  have whole := splitInclusive_flatten t
  have parts : rows ++ lastRow last = front ++ row :: rest := shape.symm.trans split
  have inner : (∀ r ∈ front, Ended r) ∧ (Ended row ∨ '\n' ∉ row ∧ row ≠ [] ∧ rest = []) := by
    rcases List.append_eq_append_iff.mp parts with ⟨more,rfl,tail⟩ | ⟨more,rfl,tail⟩
    · unfold lastRow at tail
      split at tail
      · simp at tail
      · rename_i some
        cases more with
        | nil =>
          rw [List.append_nil]
          obtain ⟨rfl,rfl⟩ := List.cons.inj tail
          exact ⟨ended,.inr ⟨bare,some,rfl⟩⟩
        | cons _ _ => simp at tail
    · cases more with
      | nil =>
        unfold lastRow at tail
        split at tail
        · simp at tail
        · rename_i some
          obtain ⟨rfl,rfl⟩ := List.cons.inj tail
          exact ⟨fun r member => ended r (by simpa using member),.inr ⟨bare,some,rfl⟩⟩
      | cons first more =>
        obtain ⟨rfl,_⟩ := List.cons.inj tail
        exact ⟨fun r member => ended r (List.mem_append_left _ member),.inl (ended row (by simp))⟩
  refine ⟨front.flatten,?_,⟨row,rest.flatten,?_,rfl,?_⟩,flatten_ended inner.1,?_,?_⟩
  · rw [linesWithOffsets,splitInclusive_flatten_ended inner.1]
  · rw [← whole,split]
    simp
  · exact inner.2.imp id fun whole => ⟨whole.1,whole.2.1,by rw [whole.2.2]; rfl⟩
  · rw [count_ended inner.1]
    omega
  · omega

theorem numbered_texts (index offset : Nat) (rows : List Text) :
    (numbered index offset rows).map (fun located => located.2.2) = rows.map (trimEndMatches isEnding) := by
  induction rows generalizing index offset with
  | nil => rfl
  | cons row rows ih => simp [numbered,ih]

theorem trimEndMatches_bare {p : Char → Bool} (all : ∀ c ∈ tail, p c = true) (stop : p c = false) (t : Text) :
    trimEndMatches p (t ++ c :: tail) = t ++ [c] := by
  unfold trimEndMatches
  rw [List.append_cons,List.reverse_append,List.dropWhile_append_of_pos fun x member => all x (List.mem_reverse.mp member)]
  simp [stop]

-- A later line has a larger number.
theorem numbered_lower (member : (n,o,line) ∈ numbered index offset rows) : index < n := by
  induction rows generalizing index offset with
  | nil => cases member
  | cons first rest ih =>
    simp only [numbered] at member
    rcases List.mem_cons.mp member with same | later
    · cases same
      exact Nat.lt_succ_self index
    · exact Nat.lt_trans (Nat.lt_succ_self index) (ih later)

theorem numbered_ascends (index offset : Nat) (rows : List Text) : (numbered index offset rows).Pairwise fun a b => a.1 < b.1 := by
  induction rows generalizing index offset with
  | nil => exact .nil
  | cons first rest ih => exact .cons (fun _ member => numbered_lower member) (ih _ _)

end PrincessIDE.Str
