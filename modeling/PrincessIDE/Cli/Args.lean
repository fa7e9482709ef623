import PrincessIDE.Foundation.Str

namespace PrincessIDE.CliArgs
open Utf8 (Text)
open Str

structure BuildArgs where
  targets : List Text
  timeoutMs : Option Nat
deriving DecidableEq, Repr

structure RunArgs where
  timeoutMs : Option Nat
  cancelAfterMs : Option Nat
  noBuild : Bool
  keepQemuLog : Bool
deriving DecidableEq, Repr

structure SymbolicateArgs where
  rip : Option Text
  fromLog : Option Text
  elf : Option Text
deriving DecidableEq, Repr

structure EventsArgs where
  file : Option Text
deriving DecidableEq, Repr

inductive Command where
  | doctor
  | build (args : BuildArgs)
  | run (args : RunArgs)
  | symbolicate (args : SymbolicateArgs)
  | events (args : EventsArgs)
deriving DecidableEq, Repr

def Command.name : Command → Text
  | .doctor => "doctor".toList
  | .build _ => "build".toList
  | .run _ => "run".toList
  | .symbolicate _ => "symbolicate".toList
  | .events _ => "events".toList

-- The subcommands, as they are before their options.
def subcommands : List Command := [.doctor,.build ⟨[],none⟩,.run ⟨none,none,false,false⟩,.symbolicate ⟨none,none,none⟩,.events ⟨none⟩]

def subcommand (token : Text) : Option Command := subcommands.find? (·.name = token)

structure Args where
  command : Option Command
  project : Text
  record : Option Text
  opId : Option Text
  quiet : Bool
  strict : Bool
  help : Bool
deriving DecidableEq, Repr

def Args.default : Args := ⟨none,".".toList,none,none,false,false,false⟩

abbrev UsageError := Text

def quoted (t : Text) : Text := '\x60' :: t ++ ['\x60']

inductive Flag where
  | project
  | record
  | opId
  | quiet
  | strict
  | target
  | timeoutMs
  | cancelAfterMs
  | noBuild
  | keepQemuLog
  | rip
  | fromLog
  | elf
  | file
deriving DecidableEq, Repr

namespace Flag

def text : Flag → Text
  | .project => "--project".toList
  | .record => "--record".toList
  | .opId => "--op-id".toList
  | .quiet => "--quiet".toList
  | .strict => "--strict".toList
  | .target => "--target".toList
  | .timeoutMs => "--timeout-ms".toList
  | .cancelAfterMs => "--cancel-after-ms".toList
  | .noBuild => "--no-build".toList
  | .keepQemuLog => "--keep-qemu-log".toList
  | .rip => "--rip".toList
  | .fromLog => "--from-log".toList
  | .elf => "--elf".toList
  | .file => "--file".toList

def all : List Flag := [.project,.record,.opId,.quiet,.strict,.target,.timeoutMs,.cancelAfterMs,.noBuild,.keepQemuLog,.rip,.fromLog,.elf,.file]

def read (t : Text) : Option Flag := all.find? (·.text = t)

end Flag

-- A value, and whether it is the token behind the flag.
abbrev Value := Except UsageError (Text × Bool)

def needsValue (flag : Text) : UsageError := quoted flag ++ " needs a value".toList

def value (flag : Text) (inline next : Option Text) : Value := match inline with
  | some v => .ok (v,false)
  | none => match next with
    | none => .error (needsValue flag)
    | some v => .ok (v,true)

def onlyFor (flag : Flag) (names : Text) : UsageError := quoted flag.text ++ " is only valid for ".toList ++ names

def parseNumber (flag : Flag) (raw : Text) : Except UsageError Nat := match fromStrRadix 10 u64 raw with
  | some n => .ok n
  | none => .error (quoted (flag.text ++ ' ' :: raw) ++ " is not a number".toList)

-- The arm of a flag; no value is looked at unless the arm asks for it.
def flagArm (args : Args) (flag : Flag) (value : Value) : Except UsageError (Args × Bool) := match flag with
  | .project => do
    let (v,used) ← value
    pure ({args with project:=v},used)
  | .record => do
    let (v,used) ← value
    pure ({args with record:=some v},used)
  | .opId => do
    let (v,used) ← value
    pure ({args with opId:=some v},used)
  | .quiet => pure ({args with quiet:=true},false)
  | .strict => pure ({args with strict:=true},false)
  | .target => match args.command with
    | some (.build build) => do
      let (v,used) ← value
      pure ({args with command:=some (.build {build with targets:=build.targets++[v]})},used)
    | _ => throw (onlyFor .target (quoted "build".toList))
  | .timeoutMs => do
    let (raw,used) ← value
    let parsed ← parseNumber .timeoutMs raw
    match args.command with
    | some (.build build) => pure ({args with command:=some (.build {build with timeoutMs:=some parsed})},used)
    | some (.run run) => pure ({args with command:=some (.run {run with timeoutMs:=some parsed})},used)
    | _ => throw (onlyFor .timeoutMs (quoted "build".toList ++ " and ".toList ++ quoted "run".toList))
  | .cancelAfterMs => do
    let (raw,used) ← value
    let parsed ← parseNumber .cancelAfterMs raw
    match args.command with
    | some (.run run) => pure ({args with command:=some (.run {run with cancelAfterMs:=some parsed})},used)
    | _ => throw (onlyFor .cancelAfterMs (quoted "run".toList))
  | .noBuild => match args.command with
    | some (.run run) => pure ({args with command:=some (.run {run with noBuild:=true})},false)
    | _ => throw (onlyFor .noBuild (quoted "run".toList))
  | .keepQemuLog => match args.command with
    | some (.run run) => pure ({args with command:=some (.run {run with keepQemuLog:=true})},false)
    | _ => throw (onlyFor .keepQemuLog (quoted "run".toList))
  | .rip => match args.command with
    | some (.symbolicate sym) => do
      let (v,used) ← value
      pure ({args with command:=some (.symbolicate {sym with rip:=some v})},used)
    | _ => throw (onlyFor .rip (quoted "symbolicate".toList))
  | .fromLog => match args.command with
    | some (.symbolicate sym) => do
      let (v,used) ← value
      pure ({args with command:=some (.symbolicate {sym with fromLog:=some v})},used)
    | _ => throw (onlyFor .fromLog (quoted "symbolicate".toList))
  | .elf => match args.command with
    | some (.symbolicate sym) => do
      let (v,used) ← value
      pure ({args with command:=some (.symbolicate {sym with elf:=some v})},used)
    | _ => throw (onlyFor .elf (quoted "symbolicate".toList))
  | .file => match args.command with
    | some (.events _) => do
      let (v,used) ← value
      pure ({args with command:=some (.events ⟨some v⟩)},used)
    | _ => throw (onlyFor .file (quoted "events".toList))

def splitValue (token : Text) : Text × Option Text := match splitOnce ['='] token with
  | some (flag,value) => (flag,some value)
  | none => (token,none)

def isHelp (token : Text) : Bool := token = "-h".toList || token = "--help".toList

def word (args : Args) (token : Text) : Except UsageError Args := match args.command with
  | some command => .error ("unexpected argument ".toList ++ quoted token ++ " (subcommand ".toList ++ quoted command.name ++ " already given)".toList)
  | none => match subcommand token with
    | some command => .ok {args with command:=some command}
    | none => .error ("unknown subcommand ".toList ++ quoted token ++ " (expected doctor|build|run|symbolicate|events)".toList)

-- One turn of the loop, and whether it takes the token behind as well.
def turn (args : Args) (token : Text) (next : Option Text) : Except UsageError (Args × Bool) :=
  if isHelp token then .ok ({args with help:=true},false)
  else if !startsWith ['-'] token then (word args token).map fun args => (args,false)
  else
    let (flag,inline) := splitValue token
    match Flag.read flag with
    | some known => flagArm args known (value flag inline next)
    | none => .error ("unknown option ".toList ++ quoted flag)

def parseFrom (args : Args) : List Text → Except UsageError Args
  | [] => .ok args
  | [token] => (turn args token none).map Prod.fst
  | token :: next :: rest => match turn args token (some next) with
    | .error e => .error e
    | .ok (args,true) => parseFrom args rest
    | .ok (args,false) => parseFrom args (next::rest)

def parse (tokens : List Text) : Except UsageError Args := parseFrom .default tokens

end PrincessIDE.CliArgs
