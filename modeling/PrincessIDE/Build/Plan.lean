import PrincessIDE.Build.Diagnostics
import PrincessIDE.Build.Process

namespace PrincessIDE.BuildBackend
open Utf8 (Text)
open Str Error Event Effect
open BuildProcess (StdioChunk CommandOutput)

structure ToolStatus where
  name : Text
  path : Option Text
  version : Option Text
  available : Bool
  required : Bool
  purpose : Text
  detail : Option Text
deriving DecidableEq, Repr

structure Toolchain where
  tools : List ToolStatus
  hostTriple : Option Text
deriving DecidableEq, Repr

namespace Toolchain

def find (t : Toolchain) (name : Text) : Option ToolStatus := t.tools.find? (·.name = name)

def pathOf (t : Toolchain) (name : Text) : Option Text := (t.find name).bind ToolStatus.path

def missingRequired (t : Toolchain) : List ToolStatus := t.tools.filter fun tool => tool.required && !tool.available

def firstTwoWords (text : Text) : Text :=
  (([' '].intercalate ((splitWhitespace text).take 2)).map fun c => if c = ' ' then '-' else c).map toAsciiLowercase

def id (t : Toolchain) : Text :=
  let name := match (t.find "gcc".toList).bind ToolStatus.version with
    | some version => firstTwoWords version
    | none => "unknown-cc".toList
  t.hostTriple.getD "host".toList ++ '/' :: name

end Toolchain

def fixes : List (Text × Text) := [
  ("make".toList,"sudo apt-get install -y make    # or: apt-get install build-essential".toList),
  ("gcc".toList,"sudo apt-get install -y gcc    # a cross compiler also works; then set [toolchain] cc = \"x86_64-elf-gcc\"".toList),
  ("ld".toList,"sudo apt-get install -y binutils    # or set [toolchain] ld = \"ld.lld\" and install lld".toList),
  ("nasm".toList,("sudo apt-get install -y nasm    # or remove the NASM sources from the project " ++
    "(the engine only needs nasm when the Makefile calls it)").toList),
  ("bear".toList,("bash scripts/bootstrap-toolchain.sh    # unpacks bear 3.1.1 into .toolchain/, " ++
    "then: source scripts/env.sh").toList),
  ("clangd-16".toList,("bash scripts/bootstrap-toolchain.sh    # installs clangd-16 into .toolchain/ " ++
    "(D6: clangd-14 is not enough)").toList)]

def fixFor (name : Text) : Text :=
  (fixes.lookup name).getD "sudo apt-get install -y <package>    # then re-run scripts/doctor.sh".toList

def repairSuggestions (missing : List ToolStatus) : List Text := missing.map fun tool =>
  tool.name ++ " is missing (".toList ++ tool.purpose ++ ") — ".toList ++ tool.detail.getD "not found".toList ++
    " → fix: ".toList ++ fixFor tool.name

inductive BuildBackendKind where
  | make
  | javac
deriving DecidableEq, Repr

def BuildBackendKind.asStr : BuildBackendKind → Text
  | .make => "make".toList
  | .javac => "javac".toList

structure ResolvedProject where
  root : Text
  buildCwd : Text
  buildCommand : Option Text
  targets : List Text
  declaredArtifacts : List Text
  compileCommands : Option Text
  -- `config.toolchain`
  cc : Option Text
  ld : Option Text
  assembler : Option Text
deriving DecidableEq, Repr

-- A `BTreeMap` of variables: the rows are sorted by name.
abbrev Env := RegisterFile

structure BuildPlan where
  backend : BuildBackendKind
  toolchainId : Text
  argv : List Text
  cwd : Text
  env : Env
  declaredArtifacts : List Text
  timeoutMs : Option Nat
deriving DecidableEq, Repr

def BuildPlan.startedEvent (p : BuildPlan) : BuildStartedPayload := ⟨p.backend.asStr,p.toolchainId,p.argv,p.cwd⟩

-- The token that a command runs under: that of the caller, or one of its own
-- that nobody trips.
inductive Token where
  | callers
  | fresh
deriving DecidableEq, Repr

structure CompileCommand where
  directory : Text
  arguments : List Text
  file : Text
  output : Option Text
deriving DecidableEq, Repr

abbrev CompileCommands := List CompileCommand

-- What the backends ask of the system around them.
inductive Question where
  | run (plan : BuildPlan) (token : Token)
  -- `walk_files` from a root
  | sources (root : Text)
  -- `launcher_dir`, and the `PATH` of the engine
  | launcher
  -- the file that bear wrote, read and normalised
  | bearOutput (path cwd : Text)
  | installShim (realCc buildDir : Text)
  | collectShim (buildDir : Text)
  | writeDatabase (path : Text) (db : CompileCommands)
  | discover (root : Text) (declared : List Text)
  -- the `.class` files of a directory, as the Java backend lists them
  | classFiles (dir : Text)
  | createDirAll (path : Text)
  | elapsedMs
deriving DecidableEq, Repr

abbrev Answer : Question → Type
  | .run _ _ => List StdioChunk × Except PrincessError CommandOutput
  | .sources _ => List Text
  | .launcher => Option Text × Text
  | .bearOutput _ _ => Except PrincessError CompileCommands
  | .installShim _ _ => Except PrincessError Unit
  | .collectShim _ => Except PrincessError CompileCommands
  | .writeDatabase _ _ => Except PrincessError Unit
  | .discover _ _ => List Artifact
  | .classFiles _ => List Artifact
  | .createDirAll _ => Except PrincessError Unit
  | .elapsedMs => Nat

structure System where
  answers : Host Question Answer
  sink : Sink
  currentDir : Text

structure Site where
  asked : List Question
  events : List EventBody
  lastCompileCommands : Option Text

abbrev Act (α : Type) := Action Site PrincessError α

def System.ask (sys : System) (q : Question) : Act (Answer q) :=
  zoom Site.asked (fun asked s => {s with asked:=asked}) (Effect.ask sys.answers q)

def sending (x : Action (List EventBody) PrincessError Unit) : Act Unit :=
  zoom Site.events (fun events s => {s with events:=events}) x

def System.emit (sys : System) (body : EventBody) : Act Unit := sending (Event.emit sys.sink body)
def System.note (sys : System) (text : Text) : Act Unit := sending (Event.note sys.sink text)
def System.log (sys : System) (text : Text) : Act Unit := sending (Event.log sys.sink .build text)

def orFail : Except PrincessError α → Act α
  | .ok a => pure a
  | .error e => throw e

structure MakeBackend where
  toolchain : Toolchain
  generateCompileCommands : Bool
  artifactRoot : Text
  timeoutMs : Nat
  jobs : Option Nat
deriving DecidableEq, Repr

-- `shell_split`: the words so far, the one that is being read, the quote that is
-- open, and whether a backslash stands before the next character.
def shellWords (out : List Text) (current : Text) (quote : Option Char) (escaped : Bool) : Text → List Text
  | [] => if current = [] then out else out++[current]
  | ch :: rest =>
    if escaped then shellWords out (current++[ch]) quote false rest
    else match quote with
      | some q =>
        if ch = '\\' then shellWords out current quote true rest
        else if ch = q then shellWords out current none false rest
        else shellWords out (current++[ch]) quote false rest
      | none =>
        if ch = '\'' ∨ ch = '"' then shellWords out current (some ch) false rest
        else if ch = '\\' then shellWords out current none true rest
        else if isWhitespace ch then shellWords (if current = [] then out else out++[current]) [] none false rest
        else shellWords out (current++[ch]) none false rest

def shellSplit (command : Text) : List Text := shellWords [] [] none false command

example : shellSplit "make -f 'My Makefile' a\\ b".toList = ["make".toList,"-f".toList,"My Makefile".toList,"a b".toList] := by decide

def needsNasm (sys : System) (project : ResolvedProject) : Act Bool :=
  let pinned := (project.assembler.bind Path.fileName).any fun name => contains "nasm".toList (name.map toAsciiLowercase)
  if pinned then pure true
  else do
    let sources ← sys.ask (.sources project.root)
    pure (sources.any fun file =>
      let ext := (Path.extension file).map (·.map toAsciiLowercase)
      ext = some "asm".toList || ext = some "nasm".toList)

namespace MakeBackend
variable (b : MakeBackend) (sys : System)

def refuseMissing (missing : List ToolStatus) : Act Unit :=
  if missing = [] then pure ()
  else throw ((PrincessError.new .toolchainMissing
    ("required toolchain tool(s) missing: ".toList ++ ", ".toList.intercalate (missing.map ToolStatus.name))).withDetail
    (['\n'].intercalate (repairSuggestions missing)))

def requireToolsFor (project : ResolvedProject) : Act Unit := do
  let missing := b.toolchain.missingRequired
  let nasm ← needsNasm sys project
  refuseMissing (match b.toolchain.find "nasm".toList with
    | some tool => if nasm && !tool.available && !missing.any (·.name = "nasm".toList) then missing++[tool] else missing
    | none => missing)

def buildEnv (project : ResolvedProject) : Act Env := do
  let (bin,existing) ← sys.ask .launcher
  let env := match bin with
    | some bin => RegisterFile.insert "PATH".toList (bin ++ ':' :: existing) []
    | none => []
  let env := match b.jobs with
    | some jobs => RegisterFile.insert "CARGO_BUILD_JOBS".toList (decimal jobs)
        (RegisterFile.insert "MAKEFLAGS".toList ("-j".toList ++ decimal jobs) env)
    | none => env
  let env := match project.cc with
    | some cc => RegisterFile.insert "CC".toList cc env
    | none => env
  pure (match project.ld with
    | some ld => RegisterFile.insert "LD".toList ld env
    | none => env)

def driver : Text := (b.toolchain.pathOf "make".toList).getD "make".toList

def makeArgv (project : ResolvedProject) : List Text := b.driver :: project.targets

-- The `make` that a command names without a path is the resolved one.
def clampDriver : List Text → List Text
  | [] => []
  | program :: rest => (if program = "make".toList then b.driver else program) :: rest

def planArgv (project : ResolvedProject) : Except PrincessError (List Text) := match project.buildCommand with
  | some command =>
    if trim command = [] then .ok (b.makeArgv project)
    else if shellSplit command = [] then .error (.new .invalidConfig "[build] command is empty".toList)
    else .ok (b.clampDriver (shellSplit command) ++ project.targets)
  | none => .ok (b.makeArgv project)

def plan (project : ResolvedProject) : Act BuildPlan := do
  b.requireToolsFor sys project
  let argv ← orFail (b.planArgv project)
  let env ← b.buildEnv sys project
  pure ⟨.make,b.toolchain.id,argv,project.buildCwd,env,project.declaredArtifacts,some b.timeoutMs⟩

end MakeBackend

end PrincessIDE.BuildBackend
