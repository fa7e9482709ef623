import PrincessIDE.Foundation.Lexical

namespace PrincessIDE.Config
open Utf8 Str PrincessIDE.Path

-- The environment: a variable that is not set counts as empty.
structure Env where
  home : Option Text
  var : Text → Text

def isAsciiAlphabetic (c : Char) : Bool := (65 ≤ c.toNat && c.toNat ≤ 90) || (97 ≤ c.toNat && c.toNat ≤ 122)

def startsName (c : Char) : Bool := isAsciiAlphabetic c || c = '_'

def inName (c : Char) : Bool := isAsciiAlphabetic c || (48 ≤ c.toNat && c.toNat ≤ 57) || c = '_'

section
variable (env : Env)

-- A round takes off at least one character.
def expandRounds : Nat → Text → Text
  | 0,text => text
  | _+1,[] => []
  | n+1,c :: rest =>
    if c ≠ '$' then c :: expandRounds n rest
    else match rest with
      | [] => ['$']
      | next :: inner =>
        if next = '\x7b' then
          -- an unterminated name stays as it was typed
          if inner.contains '\x7d' then env.var (inner.takeWhile (· ≠ '\x7d')) ++ expandRounds n ((inner.dropWhile (· ≠ '\x7d')).drop 1)
          else '$' :: '\x7b' :: inner
        else if startsName next then env.var (rest.takeWhile inName) ++ expandRounds n (rest.dropWhile inName)
        else '$' :: expandRounds n rest

theorem expandRounds_enough (here : text.length ≤ n) (there : text.length ≤ m) : expandRounds env n text = expandRounds env m text := by
  induction n generalizing text m with
  | zero =>
    cases List.length_eq_zero_iff.mp (Nat.le_zero.mp here)
    cases m <;> rfl
  | succ n ih =>
    cases text with
    | nil => cases m <;> rfl
    | cons c rest =>
      cases m with
      | zero => cases there
      | succ m =>
        have short : rest.length ≤ n := Nat.le_of_succ_le_succ here
        have brief : rest.length ≤ m := Nat.le_of_succ_le_succ there
        unfold expandRounds
        rw [ih short brief]
        cases rest with
        | nil => rfl
        | cons next inner =>
          rw [List.length_cons] at short brief
          have behind := (List.dropWhile_sublist (p:=(· ≠ '\x7d')) (l:=inner)).length_le
          have name := (List.dropWhile_sublist (p:=inName) (l:=next::inner)).length_le
          rw [List.length_cons] at name
          have braced : expandRounds env n ((inner.dropWhile (· ≠ '\x7d')).drop 1) = expandRounds env m ((inner.dropWhile (· ≠ '\x7d')).drop 1) := by
            refine ih ?_ ?_ <;> (rw [List.length_drop]; omega)
          have bare : expandRounds env n ((next::inner).dropWhile inName) = expandRounds env m ((next::inner).dropWhile inName) :=
            ih (by omega) (by omega)
          dsimp only
          rw [braced,bare]

def expandEnv (text : Text) : Text :=
  if text = "~".toList then env.home.getD []
  else if startsWith "~/".toList text then env.home.getD [] ++ expandRounds env text.length (text.drop 1)
  else expandRounds env text.length text

-- The path that is normalised.
def joined (path root : Text) : Text :=
  let expanded := expandEnv env path
  if isAbsolute expanded then expanded else join root expanded

def resolvePath (path root : Text) : Text := normalize (joined env path root)

end

-- The current directory, which the system may fail to name.
def absoluteJoined (currentDir : Option Text) (path : Text) : Text :=
  if isAbsolute path then path else join (currentDir.getD "/".toList) path

def absolute (currentDir : Option Text) (path : Text) : Text := normalize (absoluteJoined currentDir path)

example : expandEnv ⟨some "/h".toList,fun name => if name = "ROOT".toList then "/tmp/r".toList else []⟩ "$ROOT/k$b/$".toList = "/tmp/r/k/$".toList := by decide +kernel

-- The result means what the path does, and a rooted one has no dots left.
def Kept (path result : Text) : Prop := result = lexical path ∧
  (isAbsolute result = true → ∀ c ∈ components result, c ≠ .curDir ∧ c ≠ .parentDir)

theorem normalize_kept (path : Text) : Kept path (normalize path) ↔ Steady path := by
  refine ⟨fun kept => (normalize_lexical path).mp kept.1,fun steady => ⟨(normalize_lexical path).mpr steady,fun rooted => ?_⟩⟩
  have start : isAbsolute path = true := (normalize_absolute path).symm.trans rooted
  rw [Steady,if_pos start] at steady
  exact (normalize_undotted start).mpr steady

theorem resolution_iff (env : Env) (path root : Text) (currentDir : Option Text) :
    normalize (normalize path) = normalize path ∧
    (normalize path = lexical path ↔ Steady path) ∧
    (Kept (joined env path root) (resolvePath env path root) ↔ Steady (joined env path root)) ∧
    (Kept (absoluteJoined currentDir path) (absolute currentDir path) ↔ Steady (absoluteJoined currentDir path)) :=
  ⟨normalize_idempotent path,normalize_lexical path,normalize_kept _,normalize_kept _⟩

-- The second `..` takes off the first, and one that is left at the root stays.
theorem climbs_lost :
    normalize "../../lib".toList = "lib".toList ∧ lexical "../../lib".toList = "../../lib".toList ∧
    resolvePath ⟨none,fun _ => []⟩ "../../k.elf".toList "/p".toList = "/../k.elf".toList ∧
    Component.parentDir ∈ components "/../k.elf".toList := by decide +kernel

end PrincessIDE.Config
