import PrincessIDE.Foundation.Words

namespace PrincessIDE.Str
open Utf8

def isAsciiWhitespace (c : Char) : Bool := ['\t','\n','\x0c','\r',' '].contains c

def Solid (word : Text) : Prop := word ≠ [] ∧ ∀ c ∈ word, isWhitespace c = false

-- A word and the number of blanks behind it, less one.
structure Cell where
  word : Text
  pad : Nat
deriving DecidableEq, Repr

def Cell.text (cell : Cell) : Text := cell.word ++ List.replicate (cell.pad+1) ' '

def cellsText (cells : List Cell) : Text := cells.flatMap Cell.text

-- What can follow a word: nothing, or a text that starts with a blank.
def Behind (t : Text) : Prop := ∀ c ∈ t.head?, isAsciiWhitespace c = true

theorem ascii_whitespace (blank : isAsciiWhitespace c = true) : isWhitespace c = true := by
  have all : ['\t','\n','\x0c','\r',' '].all isWhitespace = true := by decide
  exact List.all_eq_true.mp all c (List.contains_iff_mem.mp blank)

theorem solid_ascii (solid : isWhitespace c = false) : isAsciiWhitespace c = false := by
  cases blank : isAsciiWhitespace c with
  | false => rfl
  | true => rw [ascii_whitespace blank] at solid; cases solid

theorem space_blank : isWhitespace ' ' = true ∧ isAsciiWhitespace ' ' = true := by decide

theorem spaces_blank (member : c ∈ List.replicate n ' ') : isWhitespace c = true ∧ isAsciiWhitespace c = true := by
  rw [(List.mem_replicate.mp member).2]
  exact space_blank

theorem spaces_behind (n : Nat) (t : Text) : Behind (List.replicate (n+1) ' ' ++ t) := by
  intro c member
  rw [List.replicate_succ,List.cons_append,List.head?_cons,Option.mem_some_iff] at member
  rw [← member]
  exact space_blank.2

theorem trimEnd_cut (t : Text) : ∃ tail, t = trimEnd t ++ tail ∧ ∀ c ∈ tail, isWhitespace c = true := trimEndMatches_cut isWhitespace t

theorem trimEnd_dropReturn (line : Text) : trimEnd (dropReturn line) = trimEnd line := by
  unfold dropReturn
  split
  · rename_i last
    obtain ⟨front,rfl⟩ := List.getLast?_eq_some_iff.mp last
    have blank : ∀ c ∈ ['\r'], isWhitespace c := List.forall_mem_singleton.mpr (by decide)
    rw [List.dropLast_concat,trimEnd_append blank]
  · rfl

-- Blanks in front stay unless nothing else does.
theorem trimEnd_blanks (blank : ∀ c ∈ blanks, isWhitespace c = true) (t : Text) :
    trimEnd (blanks ++ t) = if trimEnd t = [] then [] else blanks ++ trimEnd t := by
  by_cases all : ∀ c ∈ t, isWhitespace c = true
  · have gone : ∀ {a : Text}, (∀ c ∈ a, isWhitespace c = true) → trimEnd a = [] := fun white => trimEnd_append white []
    rw [gone all,if_pos rfl]
    exact gone fun c member => (List.mem_append.mp member).elim (blank c) (all c)
  · simp only [not_forall,Bool.not_eq_true] at all
    obtain ⟨c,member,solid⟩ := all
    obtain ⟨x,y,rfl⟩ := List.mem_iff_append.mp member
    rw [trimEnd_behind solid,if_neg (by simp),← List.append_assoc,trimEnd_behind solid,List.append_assoc]

theorem words_trimEnd (t : Text) : words [] (trimEnd t) = words [] t := by
  obtain ⟨tail,cut,blank⟩ := trimEnd_cut t
  cases tail with
  | nil => rw [List.append_nil] at cut; rw [← cut]
  | cons c tail =>
    obtain ⟨first,later⟩ := List.forall_mem_cons.mp blank
    have none : words [] tail = [] := by simpa [words] using words_blank later []
    conv => rhs; rw [cut,words_gap first,none,List.append_nil]

theorem words_trim (t : Text) : splitWhitespace (trim t) = splitWhitespace t := by
  obtain ⟨blanks,cut,blank⟩ := trimStart_cut t
  rw [trim,splitWhitespace,words_trimEnd,splitWhitespace]
  conv => rhs; rw [cut,words_blank blank]

theorem solid_plain (solid : Solid w) : '\n' ∉ w := by
  intro member
  have inside := solid.2 _ member
  cases inside

theorem trimEnd_behind_blank (behind : Behind t) : Behind (trimEnd t) := by
  obtain ⟨tail,cut,_⟩ := trimEnd_cut t
  intro c member
  apply behind
  rw [cut,List.head?_append,Option.mem_def.mp member]
  rfl

theorem trimEnd_word (solid : Solid w) (front t : Text) : trimEnd (front ++ (w ++ t)) = front ++ (w ++ trimEnd t) := by
  obtain ⟨start,c,rfl⟩ := List.eq_nil_or_concat w |>.resolve_left solid.1
  have last : isWhitespace c = false := solid.2 c (by simp)
  have cut := trimEnd_behind last (front ++ start) t
  simpa [List.append_assoc] using cut

theorem words_behind (solid : Solid w) (behind : Behind t) : words [] (w ++ t) = w :: words [] t := by
  have filled : [] ++ w ≠ [] := solid.1
  cases t with
  | nil => simpa [words] using words_solid solid.2 filled
  | cons c t =>
    have blank := ascii_whitespace (behind c rfl)
    rw [words_word solid.2 filled blank,List.nil_append]
    have skipped : words [] ([c] ++ t) = words [] t := words_blank (by simpa using blank) t
    exact congrArg (w :: ·) skipped.symm

theorem words_cells (solid : ∀ cell ∈ cells, Solid cell.word) (t : Text) :
    words [] (cellsText cells ++ t) = cells.map Cell.word ++ words [] t := by
  induction cells with
  | nil => rfl
  | cons cell cells ih =>
    obtain ⟨first,later⟩ := List.forall_mem_cons.mp solid
    rw [cellsText,List.flatMap_cons,Cell.text,List.append_assoc,List.append_assoc,words_behind first (spaces_behind _ _),
      words_blank fun c member => (spaces_blank member).1]
    exact congrArg (cell.word :: ·) (ih later)

-- The fields of a line of columns, whose last text may have blanks of its own.
theorem words_columns (solid : ∀ cell ∈ cells, Solid cell.word) (last : Solid w) (n : Nat) (what : Text) :
    splitWhitespace (cellsText cells ++ (w ++ (List.replicate (n+1) ' ' ++ what))) =
      cells.map Cell.word ++ w :: splitWhitespace what := by
  rw [splitWhitespace,words_cells solid,words_behind last (spaces_behind _ _),words_blank fun c member => (spaces_blank member).1]
  rfl

end PrincessIDE.Str
