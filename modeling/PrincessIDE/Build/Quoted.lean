import PrincessIDE.Build.Plan

namespace PrincessIDE.BuildBackend
open Utf8 (Text)
open Str

-- An argument between double quotes, with what would end or escape there escaped.
def escaped (c : Char) : Text := if c = '\\' ∨ c = '"' then ['\\',c] else [c]

def doubleQuoted (arg : Text) : Text := '"' :: arg.flatMap escaped ++ ['"']

-- Whitespace between two arguments.
structure Gap where
  text : Text
  filled : text ≠ []
  blank : ∀ c ∈ text, isWhitespace c = true

def oneSpace : Gap := ⟨[' '],List.cons_ne_nil _ _,fun c here => by rw [List.mem_singleton.mp here]; decide⟩

-- The gap in front of the last `n` arguments is `gap n`.
def commandOf (gap : Nat → Gap) : List Text → Text
  | [] => []
  | [arg] => doubleQuoted arg
  | arg :: next :: rest => doubleQuoted arg ++ (gap (rest.length+1)).text ++ commandOf gap (next :: rest)

-- What `shell_split` does with a word where it ends.
def pushWord (out : List Text) (word : Text) : List Text := if word = [] then out else out++[word]

theorem blank_plain (white : isWhitespace c = true) : ¬ (c = '\'' ∨ c = '"') ∧ c ≠ '\\' := by
  refine ⟨?_,?_⟩
  · rintro (rfl | rfl) <;> exact absurd white (by decide)
  · rintro rfl
    exact absurd white (by decide)

theorem shellWords_blank (white : isWhitespace c = true) (out : List Text) (word rest : Text) :
    shellWords out word none false (c :: rest) = shellWords (pushWord out word) [] none false rest := by
  have plain := blank_plain white
  simp only [shellWords,plain,white,if_true,if_false,Bool.false_eq_true]
  rfl

theorem shellWords_blanks (blank : ∀ c ∈ blanks, isWhitespace c = true) (out : List Text) (rest : Text) :
    shellWords out [] none false (blanks ++ rest) = shellWords out [] none false rest := by
  induction blanks with
  | nil => rfl
  | cons c blanks ih =>
    rw [List.cons_append,shellWords_blank (blank c (by simp))]
    exact ih fun x inside => blank x (List.mem_cons_of_mem _ inside)

theorem shellWords_gap (gap : Gap) (out : List Text) (word rest : Text) :
    shellWords out word none false (gap.text ++ rest) = shellWords (pushWord out word) [] none false rest := by
  obtain ⟨text,filled,blank⟩ := gap
  cases text with
  | nil => exact absurd rfl filled
  | cons c text =>
    rw [List.cons_append,shellWords_blank (blank c (by simp))]
    exact shellWords_blanks (fun x inside => blank x (List.mem_cons_of_mem _ inside)) _ _

-- Between the quotes every character is taken over, and none ends them.
theorem shellWords_escaped (out : List Text) (word arg rest : Text) :
    shellWords out word (some '"') false (arg.flatMap escaped ++ rest) = shellWords out (word++arg) (some '"') false rest := by
  induction arg generalizing word with
  | nil => rw [List.flatMap_nil,List.nil_append,List.append_nil]
  | cons c arg ih =>
    have one : shellWords out word (some '"') false (escaped c ++ (arg.flatMap escaped ++ rest)) =
        shellWords out (word++[c]) (some '"') false (arg.flatMap escaped ++ rest) := by
      unfold escaped
      split
      · next marked => simp only [List.cons_append,List.nil_append,shellWords,if_true,if_false,Bool.false_eq_true]
      · next plain =>
        have other := not_or.mp plain
        simp only [List.cons_append,List.nil_append,shellWords,other,if_false,Bool.false_eq_true]
    rw [List.flatMap_cons,List.append_assoc,one,ih,List.append_assoc]
    rfl

theorem shellWords_quoted (out : List Text) (arg rest : Text) :
    shellWords out [] none false (doubleQuoted arg ++ rest) = shellWords out arg none false rest := by
  have opened : shellWords out [] none false (doubleQuoted arg ++ rest) =
      shellWords out [] (some '"') false (arg.flatMap escaped ++ ('"' :: rest)) := by
    simp [doubleQuoted,shellWords]
  rw [opened,shellWords_escaped,List.nil_append]
  simp [shellWords]

theorem shellWords_command (gap : Nat → Gap) (out args : List Text) :
    shellWords out [] none false (commandOf gap args) = args.foldl pushWord out := by
  induction args generalizing out with
  | nil => rfl
  | cons arg rest ih =>
    cases rest with
    | nil =>
      have whole := shellWords_quoted out arg []
      rw [List.append_nil] at whole
      rw [commandOf,whole]
      rfl
    | cons next rest =>
      rw [commandOf,List.append_assoc,shellWords_quoted,shellWords_gap,ih]
      rfl

theorem foldl_pushWord (out args : List Text) : args.foldl pushWord out = out ++ args.filter (· ≠ []) := by
  induction args generalizing out with
  | nil => rw [List.foldl_nil,List.filter_nil,List.append_nil]
  | cons arg args ih =>
    rw [List.foldl_cons,ih,pushWord]
    by_cases empty : arg = []
    · simp [empty]
    · simp [empty]

-- An empty argument is lost: the word it would be is not pushed.
theorem shellSplit_command (gap : Nat → Gap) (args : List Text) : shellSplit (commandOf gap args) = args.filter (· ≠ []) := by
  rw [shellSplit,shellWords_command,foldl_pushWord,List.nil_append]

theorem split_back_iff (gap : Nat → Gap) (args : List Text) : shellSplit (commandOf gap args) = args ↔ [] ∉ args := by
  rw [shellSplit_command,List.filter_eq_self]
  constructor
  · intro filled inside
    simpa using filled [] inside
  · intro filled arg inside
    exact decide_eq_true fun empty => filled (empty ▸ inside)

-- `make CFLAGS= ""`
theorem empty_argument_lost : ¬ ∀ gap args, shellSplit (commandOf gap args) = args := by
  intro every
  have lost := every (fun _ => oneSpace) ["make".toList,"CFLAGS=".toList,[]]
  exact absurd lost (by decide)

end PrincessIDE.BuildBackend
