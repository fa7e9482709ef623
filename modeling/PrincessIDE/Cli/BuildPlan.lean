import PrincessIDE.Build.Plan
import PrincessIDE.Foundation.Path
import PrincessIDE.Foundation.Trim

namespace PrincessIDE.CliBuild
open Utf8 (Text)
open Str Error
open BuildBackend (ResolvedProject MakeBackend shellSplit shellWords)

-- `[build] backend`
inductive BackendKind where
  | make
  | cmake
  | cargo
  | zig
  | javac
  | custom
deriving DecidableEq, Repr

-- `split_command`: the words of the command.
def splitCommand (command : Text) : List Text := splitWhitespace command

def defaultArgv : BackendKind → Except PrincessError (List Text)
  | .make => .ok ["make".toList]
  | .cmake => .ok ["cmake".toList,"--build".toList,".".toList]
  | .cargo => .ok ["cargo".toList,"build".toList]
  | .zig => .ok ["zig".toList,"build".toList]
  | .javac => .ok ["javac".toList]
  | .custom => .error (.new .invalidConfig "[build] backend = \"custom\" requires an explicit [build] command".toList)

def commandArgv (kind : BackendKind) : Option Text → Except PrincessError (List Text)
  | some command => if trim command ≠ [] then .ok (splitCommand command) else defaultArgv kind
  | none => defaultArgv kind

def targetArgs (kind : BackendKind) (selected : List Text) : List Text := match kind with
  | .cmake => selected.flatMap fun target => ["--target".toList,target]
  | _ => selected

-- What the tools are found by.
structure Tools where
  which : Text → Option Text
  isFile : Text → Bool

-- A path in the manifest is relative to the directory of the build.
def Tools.program (tools : Tools) (buildCwd program : Text) : Option Text :=
  if '/' ∈ program then
    let candidate := if Path.isAbsolute program then program else Path.join buildCwd program
    if tools.isFile candidate then some candidate else none
  else tools.which program

def toolNotFound (buildCwd program : Text) : PrincessError := .new .toolchainMissing
  ("build tool \x60".toList ++ program ++ "\x60 was not found (PATH, or a path relative to ".toList ++ buildCwd ++
    "); run \x60bash scripts/doctor.sh\x60 or set [toolchain] in princess.toml".toList)

-- The first word becomes a real binary.
def Tools.resolved (tools : Tools) (buildCwd : Text) (argv : List Text) : Except PrincessError (List Text) :=
  if argv.headD [] = [] then .error (.new .invalidConfig "empty build command".toList)
  else match tools.program buildCwd (argv.headD []) with
    | none => .error (toolNotFound buildCwd (argv.headD []))
    | some program => .ok (program :: argv.tail)

-- The argv of `plan_build`.
def planArgv (tools : Tools) (kind : BackendKind) (project : ResolvedProject) (targets : Option (List Text)) : Except PrincessError (List Text) := do
  let argv ← commandArgv kind project.buildCommand
  tools.resolved project.buildCwd (argv ++ targetArgs kind (targets.getD project.targets))

-- One list of words is behind the plans of both, whatever is installed: the
-- engine puts its own `make` for the first, the command line a binary.
def SamePlan (project : ResolvedProject) : Prop := ∃ words : List Text,
  (∀ b : MakeBackend, b.planArgv project = .ok (b.clampDriver words)) ∧
  ∀ tools : Tools, planArgv tools .make project none = tools.resolved project.buildCwd words

def Special (c : Char) : Prop := c = '\'' ∨ c = '"' ∨ c = '\\'

instance : DecidablePred Special := fun c => inferInstanceAs (Decidable (c = '\'' ∨ c = '"' ∨ c = '\\'))

theorem special_solid (special : Special c) : isWhitespace c = false := by
  rcases special with rfl | rfl | rfl <;> decide

-- No special character is a blank, so that the words have them all.
theorem splitCommand_special (command : Text) : (splitCommand command).flatten.countP (Special ·) = command.countP (Special ·) := by
  rw [splitCommand,splitWhitespace,words_flatten,List.nil_append,solids,List.countP_filter]
  refine List.countP_congr fun c _ => ?_
  simp only [Bool.and_eq_true,decide_eq_true_eq,Bool.not_eq_true']
  exact ⟨And.left,fun special => ⟨special,special_solid special⟩⟩

theorem taken_count (p : Char → Bool) (out : List Text) (current : Text) (c : Char) (t : Text) :
    (out.flatten ++ (current ++ [c])).countP p + t.countP p = (out.flatten ++ current).countP p + (c::t).countP p := by
  simp only [List.countP_append,List.countP_cons,List.countP_nil]
  omega

theorem pushed_flatten (out : List Text) (current : Text) :
    (if current = [] then out else out ++ [current]).flatten ++ [] = out.flatten ++ current := by
  split
  · next empty => rw [empty]
  · simp

-- What `shell_split` gives out is in its input.
theorem shellWords_count (p : Char → Bool) (out : List Text) (current : Text) (quote : Option Char) (escaped : Bool) (t : Text) :
    (shellWords out current quote escaped t).flatten.countP p ≤ (out.flatten ++ current).countP p + t.countP p := by
  induction t generalizing out current quote escaped with
  | nil =>
    rw [shellWords,← pushed_flatten,List.append_nil,List.countP_nil]
    exact Nat.le_refl _
  | cons c t ih =>
    have taken := fun quote => taken_count p out current c t ▸ ih out (current ++ [c]) quote false
    have dropped : ∀ quote escaped, (shellWords out current quote escaped t).flatten.countP p ≤ (out.flatten ++ current).countP p + (c::t).countP p := by
      intro quote escaped
      refine (ih out current quote escaped).trans (Nat.add_le_add_left ?_ _)
      exact (List.sublist_cons_self c t).countP_le
    rw [shellWords.eq_def]
    dsimp only
    split
    · exact taken quote
    · split
      · split
        · exact dropped _ _
        · split
          · exact dropped _ _
          · exact taken _
      · split
        · exact dropped _ _
        · split
          · exact dropped _ _
          · split
            · refine (ih ..).trans ?_
              rw [pushed_flatten]
              exact Nat.add_le_add_left (List.sublist_cons_self c t).countP_le _
            · exact taken none

-- Outside of quotes a special character never comes out.
theorem shellWords_special (special : ∃ c ∈ t, Special c) (out : List Text) (current : Text) :
    (shellWords out current none false t).flatten.countP (Special ·) < (out.flatten ++ current).countP (Special ·) + t.countP (Special ·) := by
  induction t generalizing out current with
  | nil =>
    obtain ⟨_,member,_⟩ := special
    cases member
  | cons c t ih =>
    by_cases here : Special c
    · have gone : ∀ quote escaped, (shellWords out current quote escaped t).flatten.countP (Special ·) <
          (out.flatten ++ current).countP (Special ·) + (c::t).countP (Special ·) := by
        intro quote escaped
        rw [List.countP_cons_of_pos (by simpa using here)]
        exact Nat.lt_of_le_of_lt (shellWords_count (Special ·) out current quote escaped t) (Nat.lt_succ_self _)
      rw [shellWords,if_neg Bool.false_ne_true]
      split
      · exact gone _ _
      · next noQuote =>
        rw [if_pos ((or_assoc.mpr here).resolve_left noQuote)]
        exact gone _ _
    · have later : ∃ c ∈ t, Special c := by
        obtain ⟨x,member,found⟩ := special
        exact ⟨x,(List.mem_cons.mp member).resolve_left fun same => here (same ▸ found),found⟩
      have plain := not_or.mp (fun either => here (or_assoc.mp either))
      rw [shellWords,if_neg Bool.false_ne_true,if_neg plain.1,if_neg plain.2]
      split
      · have smaller := ih later (if current = [] then out else out ++ [current]) []
        rw [pushed_flatten] at smaller
        exact Nat.lt_of_lt_of_le smaller (Nat.add_le_add_left (List.sublist_cons_self c t).countP_le _)
      · exact taken_count (Special ·) out current c t ▸ ih later out (current ++ [c])

theorem shellWords_plain (plain : ∀ c ∈ t, ¬ Special c) (out : List Text) (current : Text) :
    shellWords out current none false t = out ++ words current t := by
  induction t generalizing out current with
  | nil =>
    rw [shellWords,words]
    split <;> simp
  | cons c t ih =>
    have here := not_or.mp (fun either => plain c List.mem_cons_self (or_assoc.mp either))
    have later := ih fun x member => plain x (List.mem_cons_of_mem _ member)
    rw [shellWords,words,if_neg Bool.false_ne_true,if_neg here.1,if_neg here.2]
    split
    · rw [later]
      split
      · rfl
      · rw [List.append_assoc,List.singleton_append]
    · exact later out (current ++ [c])

theorem split_same_iff (command : Text) : shellSplit command = splitCommand command ↔ ∀ c ∈ command, ¬ Special c := by
  constructor
  · intro same c member special
    have fewer := shellWords_special ⟨c,member,special⟩ [] []
    rw [show shellWords [] [] none false command = splitCommand command from same,splitCommand_special] at fewer
    simp at fewer
  · exact fun plain => shellWords_plain plain [] []

-- A command that is not blank has a first word.
theorem splitCommand_head (some : trim command ≠ []) : (splitCommand command).headD [] ≠ [] := by
  cases split : splitCommand command with
  | nil =>
    have flat := words_flatten [] command
    rw [show words [] command = [] from split] at flat
    exact absurd ((trim_solids command).mpr flat.symm) some
  | cons w ws =>
    have member : w ∈ words [] command := by
      rw [show words [] command = w :: ws from split]
      exact List.mem_cons_self
    exact words_filled member

theorem clampDriver_append (b : MakeBackend) (filled : parts ≠ []) (targets : List Text) :
    b.clampDriver parts ++ targets = b.clampDriver (parts ++ targets) := by
  cases parts with
  | nil => exact absurd rfl filled
  | cons program rest => rfl

-- The engine's `make` where none was found.
def plainBackend : MakeBackend := ⟨⟨[],none⟩,false,[],0,none⟩

theorem clampDriver_plain (parts : List Text) : plainBackend.clampDriver parts = parts := by
  cases parts with
  | nil => rfl
  | cons program rest =>
    rw [MakeBackend.clampDriver]
    split
    · next same => rw [same]; rfl
    · rfl

def noTools : Tools := ⟨fun _ => none,fun _ => false⟩
def allTools : Tools := ⟨some,fun _ => true⟩

theorem noTools_resolved (filled : argv.headD [] ≠ []) (cwd : Text) : noTools.resolved cwd argv = .error (toolNotFound cwd (argv.headD [])) := by
  have missing : noTools.program cwd (argv.headD []) = none := by
    unfold Tools.program
    split
    · exact if_neg Bool.false_ne_true
    · rfl
  rw [Tools.resolved,if_neg filled,missing]

theorem allTools_resolved (filled : argv.headD [] ≠ []) (cwd : Text) : ∃ program, allTools.resolved cwd argv = .ok (program :: argv.tail) := by
  obtain ⟨program,found⟩ : ∃ program, allTools.program cwd (argv.headD []) = some program := by
    unfold Tools.program
    split
    · exact ⟨_,if_pos rfl⟩
    · exact ⟨_,rfl⟩
  refine ⟨program,?_⟩
  rw [Tools.resolved,if_neg filled,found]

theorem headed (filled : argv.headD [] ≠ []) : argv = argv.headD [] :: argv.tail := by
  cases argv with
  | nil => exact absurd rfl filled
  | cons program rest => rfl

-- What is told of a missing tool and what is kept of a found one say which
-- words were resolved.
theorem resolved_injective (filled : argv.headD [] ≠ []) (same : ∀ tools : Tools, tools.resolved cwd argv = tools.resolved cwd other) : argv = other := by
  have told := same noTools
  rw [noTools_resolved filled] at told
  have named : other.headD [] ≠ [] := by
    intro empty
    rw [Tools.resolved,if_pos empty] at told
    cases told
  rw [noTools_resolved named] at told
  have head : argv.headD [] = other.headD [] := by
    have message := congrArg PrincessError.message (Except.error.inj told)
    simpa only [toolNotFound,PrincessError.new,List.append_assoc,List.append_cancel_left_eq,List.append_cancel_right_eq] using message
  obtain ⟨_,here⟩ := allTools_resolved filled cwd
  obtain ⟨_,there⟩ := allTools_resolved named cwd
  have found := same allTools
  rw [here,there] at found
  have tail : argv.tail = other.tail := (List.cons.inj (Except.ok.inj found)).2
  rw [headed filled,headed named,head,tail]

theorem plan_same_iff (project : ResolvedProject) : SamePlan project ↔
    ∀ command, project.buildCommand = some command → ∀ c ∈ command, ¬ Special c := by
  constructor
  · rintro ⟨words,engine,cli⟩ command given
    by_cases blank : trim command = []
    · intro c member special
      have white := solids_nil.mp ((trim_solids command).mp blank) c member
      rw [special_solid special] at white
      cases white
    · have planned := engine plainBackend
      rw [MakeBackend.planArgv,given] at planned
      dsimp only at planned
      rw [if_neg blank] at planned
      split at planned
      · cases planned
      · next filled =>
        rw [clampDriver_append plainBackend filled,clampDriver_plain,clampDriver_plain] at planned
        have every : ∀ tools : Tools, tools.resolved project.buildCwd (splitCommand command ++ project.targets) =
            tools.resolved project.buildCwd words := by
          intro tools
          rw [← cli tools,planArgv,given,commandArgv,if_pos blank]
          rfl
        have first : (splitCommand command ++ project.targets).headD [] ≠ [] := by
          rw [headed (splitCommand_head blank)]
          exact splitCommand_head blank
        have read := resolved_injective first every
        rw [← read] at planned
        exact (split_same_iff command).mp (List.append_cancel_right (Except.ok.inj planned))
  · intro plain
    cases given : project.buildCommand with
    | none =>
      refine ⟨"make".toList :: project.targets,fun b => ?_,fun tools => ?_⟩
      · rw [MakeBackend.planArgv,given]
        rfl
      · rw [planArgv,given]
        rfl
    | some command =>
      by_cases blank : trim command = []
      · refine ⟨"make".toList :: project.targets,fun b => ?_,fun tools => ?_⟩
        · rw [MakeBackend.planArgv,given]
          exact if_pos blank
        · rw [planArgv,given,commandArgv,if_neg (not_not.mpr blank)]
          rfl
      · have same := (split_same_iff command).mpr (plain command given)
        have filled : splitCommand command ≠ [] := fun none => splitCommand_head blank (by rw [none]; rfl)
        refine ⟨splitCommand command ++ project.targets,fun b => ?_,fun tools => ?_⟩
        · rw [MakeBackend.planArgv,given]
          dsimp only
          rw [if_neg blank,same,if_neg filled,clampDriver_append b filled]
        · rw [planArgv,given,commandArgv,if_pos blank]
          rfl

-- One argument of the engine is two of the command line.
theorem quotedCommand_differs : shellSplit "make CC=\"gcc -m64\" all".toList = ["make".toList,"CC=gcc -m64".toList,"all".toList] ∧
    splitCommand "make CC=\"gcc -m64\" all".toList = ["make".toList,"CC=\"gcc".toList,"-m64\"".toList,"all".toList] ∧
    ¬ SamePlan ⟨[],[],some "make CC=\"gcc -m64\" all".toList,[],[],none,none,none,none⟩ := by
  refine ⟨by decide +kernel,by decide +kernel,?_⟩
  rintro ⟨words,engine,cli⟩
  have planned := engine plainBackend
  rw [clampDriver_plain] at planned
  obtain rfl : ["make".toList,"CC=gcc -m64".toList,"all".toList] = words := by
    refine Except.ok.inj (Eq.trans ?_ planned)
    decide +kernel
  have told := cli allTools
  revert told
  decide +kernel

end PrincessIDE.CliBuild
