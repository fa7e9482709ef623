import PrincessIDE.Foundation.Str

namespace PrincessIDE.Shell
open Utf8 (Text)

-- The words of a POSIX shell and the operators that end a simple command.
inductive Token where
  | word (text : Text)
  | andIf
  | sequel
deriving DecidableEq, Repr

-- Where the reader stands: outside quotes, inside a pair of them, behind a
-- backslash in either place, or behind one `&`.
inductive Mode where
  | bare
  | single
  | double
  | escape
  | doubleEscape
  | ampersand
deriving DecidableEq, Repr

-- What stands for something else than itself outside quotes, and what does so
-- only in front of a word.
def special (c : Char) : Bool := "|<>()$`*?[".toList.contains c
def leading (c : Char) : Bool := "#~".toList.contains c

def flush (word : Option Text) (rest : List Token) : List Token := match word with
  | some text => .word text :: rest
  | none => rest

def extend (word : Option Text) (c : Char) : Option Text := some (word.getD [] ++ [c])

-- The tokens of a line, with the word being read; a word is there, though empty,
-- as soon as a quote has opened. A line with an open quote, an expansion, a
-- pattern or another operator has no reading here.
def tokens (word : Option Text) : Mode → Text → Option (List Token)
  | .bare,[] => some (flush word [])
  | _,[] => none
  | .bare,c :: rest =>
    if c = ' ' ∨ c = '\t' then (tokens none .bare rest).map (flush word)
    else if c = '\n' ∨ c = ';' then (tokens none .bare rest).map fun later => flush word (.sequel :: later)
    else if c = '&' then tokens word .ampersand rest
    else if c = '\'' then tokens (some (word.getD [])) .single rest
    else if c = '"' then tokens (some (word.getD [])) .double rest
    else if c = '\\' then tokens word .escape rest
    else if special c || (word.isNone && leading c) then none
    else tokens (extend word c) .bare rest
  | .ampersand,c :: rest =>
    if c = '&' then (tokens none .bare rest).map fun later => flush word (.andIf :: later) else none
  | .escape,c :: rest => tokens (if c = '\n' then word else extend word c) .bare rest
  | .single,c :: rest => if c = '\'' then tokens word .bare rest else tokens (extend word c) .single rest
  | .double,c :: rest =>
    if c = '"' then tokens word .bare rest
    else if c = '\\' then tokens word .doubleEscape rest
    else if c = '$' ∨ c = '`' then none
    else tokens (extend word c) .double rest
  | .doubleEscape,c :: rest =>
    if c = '\n' then tokens word .double rest
    else if "$`\"\\".toList.contains c then tokens (extend word c) .double rest
    else tokens (extend (extend word '\\') c) .double rest

def read (line : Text) : Option (List Token) := tokens none .bare line

def wordOf : Token → Option Text
  | .word text => some text
  | _ => none

-- The words of a line that is one simple command.
def words (line : Text) : Option (List Text) := (read line).bind fun found => found.mapM wordOf

-- What the shell does besides reading: where its `cd` leads, and whether another
-- command succeeds.
structure World where
  cd : Text → List Text → Option Text
  succeeds : Text → List Text → Bool

-- The working directory, the commands that were carried out, each with the
-- directory it ran in, and whether the last one succeeded.
structure State where
  dir : Text
  ran : List (Text × List Text)
  ok : Bool
deriving DecidableEq, Repr

def start (dir : Text) : State := ⟨dir,[],true⟩

def perform (w : World) (s : State) : List Text → State
  | [] => s
  | name :: operands =>
    if name = "cd".toList then match w.cd s.dir operands with
      | some dir => {s with dir:=dir,ok:=true}
      | none => {s with ok:=false}
    else {s with ran:=s.ran++[(s.dir,name::operands)],ok:=w.succeeds s.dir (name::operands)}

-- The simple commands of a line in turn; one behind `&&` only if what stands
-- before it succeeded.
def carry (w : World) (s : State) (due : Bool) (command : List Text) : List Token → State
  | [] => if due then perform w s command else s
  | .word text :: rest => carry w s due (command++[text]) rest
  | .sequel :: rest => carry w (if due then perform w s command else s) true [] rest
  | .andIf :: rest =>
    let s := if due then perform w s command else s
    carry w s s.ok [] rest

def run (w : World) (dir line : Text) : Option State := (read line).map (carry w (start dir) true [])

example : words "cd '/w x' \"a\\$\" b\\ c".toList = some ["cd".toList,"/w x".toList,"a$".toList,"b c".toList] := by decide +kernel

-- A character that stands for itself wherever it stands.
def Ordinary (c : Char) : Prop :=
  c ≠ ' ' ∧ c ≠ '\t' ∧ c ≠ '\n' ∧ c ≠ ';' ∧ c ≠ '&' ∧ c ≠ '\'' ∧ c ≠ '"' ∧ c ≠ '\\' ∧ special c = false ∧ leading c = false

theorem tokens_ordinary (plain : Ordinary c) (word : Option Text) (rest : Text) :
    tokens word .bare (c :: rest) = tokens (extend word c) .bare rest := by
  obtain ⟨space,tab,line,semi,amp,quote,double,back,special,leading⟩ := plain
  simp [tokens,space,tab,line,semi,amp,quote,double,back,special,leading]

theorem tokens_plain (plain : ∀ c ∈ t, Ordinary c) (front rest : Text) :
    tokens (some front) .bare (t ++ rest) = tokens (some (front++t)) .bare rest := by
  induction t generalizing front with
  | nil => rw [List.nil_append,List.append_nil]
  | cons c t ih =>
    rw [List.cons_append,tokens_ordinary (plain c (by simp)),extend,Option.getD_some,
      ih fun x inside => plain x (List.mem_cons_of_mem _ inside),List.append_assoc]
    rfl

theorem tokens_word (plain : ∀ c ∈ t, Ordinary c) (filled : t ≠ []) (rest : Text) :
    tokens none .bare (t ++ rest) = tokens (some t) .bare rest := by
  cases t with
  | nil => exact absurd rfl filled
  | cons c t =>
    rw [List.cons_append,tokens_ordinary (plain c (by simp)),extend,
      tokens_plain fun x inside => plain x (List.mem_cons_of_mem _ inside)]
    rfl

theorem tokens_space (word rest : Text) :
    tokens (some word) .bare (' ' :: rest) = (tokens none .bare rest).map (Token.word word :: ·) := by
  simp only [tokens,true_or,if_true]
  rfl

-- How one argument is written so that the shell reads it back, whatever is behind it.
def Quotes (quote : Text → Text) : Prop := ∀ t rest, tokens none .bare (quote t ++ rest) = tokens (some t) .bare rest

theorem read_quoted (quotes : Quotes quote) (args : List Text) :
    read ([' '].intercalate (args.map quote)) = some (args.map Token.word) := by
  unfold read
  induction args with
  | nil => rfl
  | cons arg args ih =>
    cases args with
    | nil =>
      have last := quotes arg []
      rw [List.append_nil] at last
      rw [List.map_singleton,List.intercalate_singleton,last]
      rfl
    | cons next args =>
      have cut : [' '].intercalate ((arg :: next :: args).map quote) = quote arg ++ ' ' :: [' '].intercalate ((next :: args).map quote) := by
        simp [List.intercalate]
      rw [cut,quotes,tokens_space,ih]
      rfl

theorem words_quoted (quotes : Quotes quote) (args : List Text) : words ([' '].intercalate (args.map quote)) = some args := by
  have each : ∀ args : List Text, (args.map Token.word).mapM wordOf = some args := by
    intro args
    induction args with
    | nil => rfl
    | cons arg args ih =>
      rw [List.map_cons,List.mapM_cons,ih]
      rfl
  rw [words,read_quoted quotes,Option.bind_some,each]

-- Words without an operator are one command.
theorem carry_words (w : World) (s : State) (command args : List Text) :
    carry w s true command (args.map Token.word) = perform w s (command++args) := by
  induction args generalizing command with
  | nil => rw [List.append_nil]; rfl
  | cons arg args ih =>
    rw [List.map_cons,carry,ih,List.append_assoc]
    rfl

end PrincessIDE.Shell
