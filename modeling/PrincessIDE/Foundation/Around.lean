import PrincessIDE.Foundation.Trim

namespace PrincessIDE.Str
open Utf8

def trimMatches (p : Char → Bool) (t : Text) : Text := trimEndMatches p (t.dropWhile p)

-- A text between others that have characters of one kind only.
def Around (p : Char → Bool) (t inner : Text) : Prop :=
  ∃ front back, t = front ++ inner ++ back ∧ (∀ c ∈ front, p c = true) ∧ ∀ c ∈ back, p c = true

-- It does not begin or end with one of them.
def Tight (p : Char → Bool) (t : Text) : Prop := (∀ c ∈ t.head?, p c = false) ∧ ∀ c ∈ t.getLast?, p c = false

variable {p : Char → Bool} {t inner : Text}

theorem Around.trans {core : Text} (outer : Around p t inner) (nested : Around p inner core) : Around p t core := by
  obtain ⟨front,back,rfl,before,behind⟩ := outer
  obtain ⟨first,last,rfl,early,late⟩ := nested
  refine ⟨front ++ first,last ++ back,by simp only [List.append_assoc],fun c member => ?_,fun c member => ?_⟩
  · exact (List.mem_append.mp member).elim (before c) (early c)
  · exact (List.mem_append.mp member).elim (late c) (behind c)

theorem Around.mono {q : Char → Bool} (around : Around p t inner) (wider : ∀ c, p c = true → q c = true) : Around q t inner := by
  obtain ⟨front,back,cut,before,behind⟩ := around
  exact ⟨front,back,cut,fun c member => wider c (before c member),fun c member => wider c (behind c member)⟩

theorem Around.keeps (around : Around p t inner) (solid : p c = false) (inside : c ∈ t) : c ∈ inner := by
  obtain ⟨front,back,rfl,before,behind⟩ := around
  rcases List.mem_append.mp inside with early | late
  · rcases List.mem_append.mp early with front | inner
    · exact absurd (before c front) (by simp [solid])
    · exact inner
  · exact absurd (behind c late) (by simp [solid])

theorem trim_around (t : Text) : Around isWhitespace t (trim t) := by
  obtain ⟨blanks,front,blank⟩ := trimStart_cut t
  obtain ⟨tail,back,white⟩ := trimEnd_cut (trimStart t)
  refine ⟨blanks,tail,?_,blank,white⟩
  rw [List.append_assoc]
  exact front.trans (congrArg (blanks ++ ·) back)

theorem trimMatches_around (p : Char → Bool) (t : Text) : Around p t (trimMatches p t) := by
  obtain ⟨tail,back,white⟩ := trimEndMatches_cut p (t.dropWhile p)
  refine ⟨t.takeWhile p,tail,?_,fun c member => List.mem_takeWhile_imp member,white⟩
  rw [List.append_assoc]
  exact List.takeWhile_append_dropWhile.symm.trans (congrArg (t.takeWhile p ++ ·) back)

theorem dropWhile_ahead {α : Type} {p : α → Bool} {front : List α} {c : α} (before : ∀ c ∈ front, p c = true) (first : p c = false) (rest : List α) :
    (front ++ c :: rest).dropWhile p = c :: rest := by
  rw [List.dropWhile_append_of_pos before,List.dropWhile_cons_of_neg (by simp [first])]

-- What is left between them is only one text.
theorem Around.trimMatches_eq (around : Around p t inner) (tight : Tight p inner) (filled : inner ≠ []) : trimMatches p t = inner := by
  obtain ⟨front,back,rfl,before,behind⟩ := around
  obtain ⟨c,rest,rfl⟩ := List.exists_cons_of_ne_nil filled
  obtain ⟨early,last,whole⟩ := List.eq_nil_or_concat' (c :: rest) |>.resolve_left filled
  have opened : (front ++ (c :: rest) ++ back).dropWhile p = (c :: rest) ++ back := by
    rw [List.append_assoc,List.cons_append,dropWhile_ahead before (tight.1 c rfl)]
  have solid : p last = false := tight.2 last (by rw [whole]; simp)
  have reversed : ∀ c ∈ back.reverse, p c = true := fun c member => behind c (List.mem_reverse.mp member)
  rw [trimMatches,opened,whole,trimEndMatches,List.reverse_append,List.reverse_append,List.reverse_singleton,List.singleton_append,
    dropWhile_ahead reversed solid,List.reverse_cons,List.reverse_reverse]

theorem trimMatches_none (none : ∀ c ∈ t, p c = false) : trimMatches p t = t := by
  have whole : t.dropWhile p = t := List.dropWhile_eq_self_iff.mpr fun filled => by simp [none _ (List.getElem_mem filled)]
  rw [trimMatches,whole]
  exact trimEndMatches_of_last fun c last => none c (List.mem_of_getLast? last)

theorem Around.unique {other : Text} (one : Around p t inner) (two : Around p t other) (here : Tight p inner) (there : Tight p other)
    (filled : inner ≠ []) (some : other ≠ []) : inner = other :=
  (one.trimMatches_eq here filled).symm.trans (two.trimMatches_eq there some)

theorem startsWith_iff (pat t : Text) : startsWith pat t = true ↔ pat <+: t := by
  constructor
  · intro starts
    obtain ⟨rest,found⟩ := Option.isSome_iff_exists.mp starts
    exact ⟨rest,(stripPrefix_eq found).symm⟩
  · rintro ⟨rest,rfl⟩
    rw [startsWith,stripPrefix_append]
    rfl

end PrincessIDE.Str
