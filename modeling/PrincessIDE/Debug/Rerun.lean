import PrincessIDE.Debug.Backend
import PrincessIDE.Foundation.Path
import PrincessIDE.Foundation.Shell

namespace PrincessIDE.Dap
open Utf8 (Text)
open Shell (Ordinary Quotes Token tokens)

def unquoted (c : Char) : Bool := c.isAlphanum || "._-/:@=+,".toList.contains c

theorem unquoted_ordinary (safe : unquoted c = true) : Ordinary c := by
  have marks : ∀ marks : List Char, marks.all (fun c => !unquoted c) = true → marks.contains c = false := by
    intro marks none
    refine Bool.eq_false_iff.mpr fun marked => ?_
    have quoted := List.all_eq_true.mp none c (List.contains_iff_mem.mp marked)
    rw [safe] at quoted
    cases quoted
  refine ⟨?_,?_,?_,?_,?_,?_,?_,?_,marks _ (by decide),marks _ (by decide)⟩
  all_goals
    rintro rfl
    exact absurd safe (by decide)

-- Between single quotes all stands for itself; a quote closes them, is escaped
-- and opens them again.
theorem tokens_requoted (word t rest : Text) :
    tokens (some word) .single (t.flatMap (fun c => if c = '\'' then "'\\''".toList else [c]) ++ '\'' :: rest) =
      tokens (some (word++t)) .bare rest := by
  induction t generalizing word with
  | nil =>
    rw [List.flatMap_nil,List.nil_append,List.append_nil,tokens,if_pos rfl]
  | cons c t ih =>
    rw [List.flatMap_cons,List.append_assoc]
    by_cases quote : c = '\''
    · have reopened : ∀ more, tokens (some word) .single ("'\\''".toList ++ more) = tokens (some (word++['\''])) .single more := fun _ => rfl
      rw [if_pos quote,reopened,ih,quote,List.append_assoc]
      rfl
    · rw [if_neg quote,List.cons_append,List.nil_append,tokens,if_neg quote,Shell.extend,Option.getD_some,ih,List.append_assoc]
      rfl

theorem shellQuote_quotes : Quotes shellQuote := by
  intro t rest
  unfold shellQuote
  split
  · next plain =>
    refine Shell.tokens_word (fun c inside => unquoted_ordinary ?_) plain.1 rest
    exact List.all_eq_true.mp plain.2 c inside
  · have opened : ∀ more, tokens none .bare ('\'' :: more) = tokens (some []) .single more := fun _ => rfl
    rw [List.append_assoc,List.cons_append,opened]
    exact tokens_requoted [] t rest

theorem read_display (command : QemuCommand) :
    Shell.read command.display = some (Token.word "cd".toList :: Token.word command.cwd :: command.argv.map Token.word) := by
  have front : ∀ more, tokens none .bare ("cd ".toList ++ more) = (tokens none .bare more).map (Token.word "cd".toList :: ·) := fun _ => rfl
  have whole : command.display = "cd ".toList ++ [' '].intercalate ((command.cwd :: command.argv).map shellQuote) := by
    unfold QemuCommand.display
    cases command.argv <;> simp [List.intercalate]
  have behind := Shell.read_quoted shellQuote_quotes (command.cwd :: command.argv)
  rw [Shell.read] at behind ⊢
  rw [whole,front,behind]
  rfl

-- The line is one command, a `cd` with the whole argv behind its directory.
theorem run_display (w : Shell.World) (dir : Text) (command : QemuCommand) :
    Shell.run w dir command.display = some (Shell.perform w (Shell.start dir) ("cd".toList :: command.cwd :: command.argv)) := by
  have words := Shell.carry_words w (Shell.start dir) [] ("cd".toList :: command.cwd :: command.argv)
  rw [Shell.run,read_display,Option.map_some]
  exact congrArg some words

-- The shell ends up in the command's directory and has carried out its argv there.
def Reruns (w : Shell.World) (dir : Text) (command : QemuCommand) : Prop :=
  (Shell.run w dir command.display).map (fun s => (s.dir,s.ran)) =
    some (Path.join dir command.cwd,if command.argv = [] then [] else [(Path.join dir command.cwd,command.argv)])

theorem perform_cd (w : Shell.World) (dir : Text) (operands : List Text) :
    (Shell.perform w (Shell.start dir) ("cd".toList :: operands)).dir = (w.cd dir operands).getD dir ∧
    (Shell.perform w (Shell.start dir) ("cd".toList :: operands)).ran = [] := by
  rw [Shell.perform,if_pos rfl,Shell.start]
  cases w.cd dir operands with
  | none => exact ⟨rfl,rfl⟩
  | some there => exact ⟨rfl,rfl⟩

-- Whatever the shell's `cd` makes of the operands, nothing runs.
theorem display_reruns_iff (w : Shell.World) (dir : Text) (args : List Text) (command : QemuCommand) :
    Shell.words ([' '].intercalate (args.map shellQuote)) = some args ∧
    (Reruns w dir command ↔ command.argv = [] ∧ (w.cd dir [command.cwd]).getD dir = Path.join dir command.cwd) := by
  refine ⟨Shell.words_quoted shellQuote_quotes args,?_⟩
  obtain ⟨moved,ran⟩ := perform_cd w dir (command.cwd :: command.argv)
  rw [Reruns,run_display,Option.map_some,moved,ran,Option.some.injEq,Prod.mk.injEq]
  constructor
  · rintro ⟨there,none⟩
    by_cases empty : command.argv = []
    · rw [empty] at there
      exact ⟨empty,there⟩
    · rw [if_neg empty] at none
      cases none
  · rintro ⟨empty,there⟩
    rw [if_pos empty,empty]
    exact ⟨there,rfl⟩

def bootCommand : QemuCommand := ⟨["qemu-system-x86_64".toList,"-S".toList],"/w".toList,1000⟩

-- Like a `cd` that takes its first operand.
def firstOperand : Shell.World := ⟨fun dir operands => operands.head?.map (Path.join dir),fun _ _ => true⟩

theorem pasted_runs_nothing : ¬ ∀ (w : Shell.World) (dir : Text) (args : List Text) (command : QemuCommand),
    Shell.words ([' '].intercalate (args.map shellQuote)) = some args ∧ Reruns w dir command := by
  intro every
  have reruns := (every firstOperand "/home".toList [] bootCommand).2
  have cd : (Shell.run firstOperand "/home".toList bootCommand.display).map (fun s => (s.dir,s.ran)) = some ("/w".toList,[]) := by decide +kernel
  rw [Reruns,cd] at reruns
  exact absurd reruns (by decide)

end PrincessIDE.Dap
