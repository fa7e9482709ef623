import Mathlib.Data.List.Perm.Basic
import PrincessIDE.Cli.Args

namespace PrincessIDE.CliArgs
open Utf8 (Text)
open Str

-- A number in any spelling that reads as it.
structure Number where
  text : Text
  value : Nat
  reads : fromStrRadix 10 u64 text = some value

-- An option with what it is to say.
inductive Opt where
  | help
  | project (dir : Text)
  | record (path : Text)
  | opId (id : Text)
  | quiet
  | strict
  | target (name : Text)
  | timeoutMs (limit : Number)
  | cancelAfterMs (limit : Number)
  | noBuild
  | keepQemuLog
  | rip (address : Text)
  | fromLog (path : Text)
  | elf (path : Text)
  | file (path : Text)

inductive Spelling where
  | spaced
  | inline
deriving DecidableEq, Repr

def written (flag : Flag) (spelling : Spelling) (v : Text) : List Text := match spelling with
  | .spaced => [flag.text,v]
  | .inline => [flag.text ++ '=' :: v]

def Opt.tokens (spelling : Spelling) : Opt → List Text
  | .help => match spelling with
    | .spaced => ["--help".toList]
    | .inline => ["-h".toList]
  | .project dir => written .project spelling dir
  | .record path => written .record spelling path
  | .opId id => written .opId spelling id
  | .quiet => [Flag.quiet.text]
  | .strict => [Flag.strict.text]
  | .target name => written .target spelling name
  | .timeoutMs limit => written .timeoutMs spelling limit.text
  | .cancelAfterMs limit => written .cancelAfterMs spelling limit.text
  | .noBuild => [Flag.noBuild.text]
  | .keepQemuLog => [Flag.keepQemuLog.text]
  | .rip address => written .rip spelling address
  | .fromLog path => written .fromLog spelling path
  | .elf path => written .elf spelling path
  | .file path => written .file spelling path

inductive Kind where
  | doctor
  | build
  | run
  | symbolicate
  | events
deriving DecidableEq, Repr

-- What a subcommand and its options say.
inductive Meant where
  | doctor
  | build (targets : List Text) (timeoutMs : Option Number)
  | run (timeoutMs cancelAfterMs : Option Number) (noBuild keepQemuLog : Bool)
  | symbolicate (rip fromLog elf : Option Text)
  | events (file : Option Text)

structure Meaning where
  help : Bool
  project : Option Text
  record : Option Text
  opId : Option Text
  quiet : Bool
  strict : Bool
  command : Meant

def given (flag : Bool) (opt : Opt) : List Opt := if flag then [opt] else []

namespace Meant

def command : Meant → Command
  | .doctor => .doctor
  | .build targets timeoutMs => .build ⟨targets,timeoutMs.map Number.value⟩
  | .run timeoutMs cancelAfterMs noBuild keepQemuLog =>
    .run ⟨timeoutMs.map Number.value,cancelAfterMs.map Number.value,noBuild,keepQemuLog⟩
  | .symbolicate rip fromLog elf => .symbolicate ⟨rip,fromLog,elf⟩
  | .events file => .events ⟨file⟩

def kind : Meant → Kind
  | .doctor => .doctor
  | .build .. => .build
  | .run .. => .run
  | .symbolicate .. => .symbolicate
  | .events _ => .events

def options : Meant → List Opt
  | .doctor => []
  | .build targets timeoutMs => targets.map .target ++ (timeoutMs.map .timeoutMs).toList
  | .run timeoutMs cancelAfterMs noBuild keepQemuLog => (timeoutMs.map .timeoutMs).toList ++ (cancelAfterMs.map .cancelAfterMs).toList ++
      given noBuild .noBuild ++ given keepQemuLog .keepQemuLog
  | .symbolicate rip fromLog elf => (rip.map .rip).toList ++ (fromLog.map .fromLog).toList ++ (elf.map .elf).toList
  | .events file => (file.map .file).toList

end Meant

namespace Meaning

def args (m : Meaning) : Args :=
  ⟨some m.command.command,m.project.getD ".".toList,m.record,m.opId,m.quiet,m.strict,m.help⟩

def common (m : Meaning) : List Opt := given m.help .help ++ (m.project.map .project).toList ++ (m.record.map .record).toList ++
  (m.opId.map .opId).toList ++ given m.quiet .quiet ++ given m.strict .strict

end Meaning

def targetOf : Opt → Option Text
  | .target name => some name
  | _ => none

-- A way of writing it: the common options on either side of the subcommand, its
-- own behind it, each once and in any order but that of the targets.
structure Writing (m : Meaning) where
  before : List (Opt × Spelling)
  after : List (Opt × Spelling)
  -- those of the common options that stand behind the subcommand
  commons : List Opt
  common : (before.map Prod.fst ++ commons).Perm m.common
  own : (after.map Prod.fst).Perm (commons ++ m.command.options)
  targets : (after.map Prod.fst).filterMap targetOf = m.command.options.filterMap targetOf

def tokensOf (options : List (Opt × Spelling)) : List Text := options.flatMap fun row => row.1.tokens row.2

def Writing.tokens (w : Writing m) : List Text := tokensOf w.before ++ [m.command.command.name] ++ tokensOf w.after

-- Every option there is, whatever the subcommand.
structure Own where
  targets : List Text
  timeoutMs : Option Nat
  cancelAfterMs : Option Nat
  noBuild : Bool
  keepQemuLog : Bool
  rip : Option Text
  fromLog : Option Text
  elf : Option Text
  file : Option Text

def Own.none : Own := ⟨[],.none,.none,false,false,.none,.none,.none,.none⟩

def Own.command (own : Own) : Kind → Command
  | .doctor => .doctor
  | .build => .build ⟨own.targets,own.timeoutMs⟩
  | .run => .run ⟨own.timeoutMs,own.cancelAfterMs,own.noBuild,own.keepQemuLog⟩
  | .symbolicate => .symbolicate ⟨own.rip,own.fromLog,own.elf⟩
  | .events => .events ⟨own.file⟩

structure Said where
  help : Bool
  project : Text
  record : Option Text
  opId : Option Text
  quiet : Bool
  strict : Bool
  own : Own

def Said.nothing : Said := ⟨false,".".toList,none,none,false,false,.none⟩

def Said.args (s : Said) (kind : Option Kind) : Args := ⟨kind.map s.own.command,s.project,s.record,s.opId,s.quiet,s.strict,s.help⟩

def Said.say (s : Said) : Opt → Said
  | .help => {s with help:=true}
  | .project dir => {s with project:=dir}
  | .record path => {s with record:=some path}
  | .opId id => {s with opId:=some id}
  | .quiet => {s with quiet:=true}
  | .strict => {s with strict:=true}
  | .target name => {s with own:={s.own with targets:=s.own.targets++[name]}}
  | .timeoutMs limit => {s with own:={s.own with timeoutMs:=some limit.value}}
  | .cancelAfterMs limit => {s with own:={s.own with cancelAfterMs:=some limit.value}}
  | .noBuild => {s with own:={s.own with noBuild:=true}}
  | .keepQemuLog => {s with own:={s.own with keepQemuLog:=true}}
  | .rip address => {s with own:={s.own with rip:=some address}}
  | .fromLog path => {s with own:={s.own with fromLog:=some path}}
  | .elf path => {s with own:={s.own with elf:=some path}}
  | .file path => {s with own:={s.own with file:=some path}}

-- The subcommand that an option needs.
def Opt.fits : Opt → Option Kind → Prop
  | .target _,kind => kind = some .build
  | .timeoutMs _,kind => kind = some .build ∨ kind = some .run
  | .cancelAfterMs _,kind | .noBuild,kind | .keepQemuLog,kind => kind = some .run
  | .rip _,kind | .fromLog _,kind | .elf _,kind => kind = some .symbolicate
  | .file _,kind => kind = some .events
  | _,_ => True

theorem flag_read (flag : Flag) : Flag.read flag.text = some flag := by cases flag <;> decide

theorem flag_shape (flag : Flag) : startsWith ['-'] flag.text = true ∧ '=' ∉ flag.text ∧ isHelp flag.text = false := by
  cases flag <;> decide

theorem flag_start (flag : Flag) (rest : Text) : startsWith ['-'] (flag.text ++ rest) = true := by
  cases flag <;> rfl

theorem turn_spaced (args : Args) (flag : Flag) (next : Option Text) : turn args flag.text next = flagArm args flag (value flag.text none next) := by
  obtain ⟨dash,uncut,other⟩ := flag_shape flag
  have cut : splitValue flag.text = (flag.text,none) := by rw [splitValue,splitOnce_none uncut List.mem_cons_self]
  rw [turn,other,dash,cut]
  simp only [Bool.false_eq_true,if_false,Bool.not_true,flag_read]

theorem turn_inline (args : Args) (flag : Flag) (v : Text) (next : Option Text) :
    turn args (flag.text ++ '=' :: v) next = flagArm args flag (.ok (v,false)) := by
  have uncut := (flag_shape flag).2.1
  have cut : splitValue (flag.text ++ '=' :: v) = (flag.text,some v) := by rw [splitValue,splitOnce_char uncut]
  have other : isHelp (flag.text ++ '=' :: v) = false := by
    rw [isHelp,Bool.or_eq_false_iff,decide_eq_false_iff_not,decide_eq_false_iff_not]
    constructor
    all_goals
      intro same
      have inside : '=' ∈ flag.text ++ '=' :: v := List.mem_append_right _ List.mem_cons_self
      rw [same] at inside
      revert inside
      decide
  rw [turn,other,flag_start,cut]
  simp only [Bool.false_eq_true,if_false,Bool.not_true,flag_read,value]

theorem parseFrom_alone (took : ∀ next, turn args token next = .ok (other,false)) (rest : List Text) :
    parseFrom args (token::rest) = parseFrom other rest := by
  cases rest with
  | nil => rw [parseFrom.eq_2,took]; rfl
  | cons next rest => rw [parseFrom,took]

theorem parseFrom_pair (took : turn args token (some v) = .ok (other,true)) (rest : List Text) :
    parseFrom args (token::v::rest) = parseFrom other rest := by
  rw [parseFrom,took]

-- A flag that takes a value, in either way of writing.
theorem parseFrom_written (arm : ∀ used, flagArm args flag (.ok (v,used)) = .ok (other,used)) (spelling : Spelling) (rest : List Text) :
    parseFrom args (written flag spelling v ++ rest) = parseFrom other rest := by
  cases spelling with
  | spaced =>
    refine parseFrom_pair ?_ rest
    rw [turn_spaced]
    exact arm true
  | inline =>
    refine parseFrom_alone (fun next => ?_) rest
    rw [turn_inline]
    exact arm false

theorem parseFrom_switch (arm : ∀ value, flagArm args flag value = .ok (other,false)) (rest : List Text) :
    parseFrom args ([flag.text] ++ rest) = parseFrom other rest := by
  refine parseFrom_alone (fun next => ?_) rest
  rw [turn_spaced]
  exact arm _

theorem parseNumber_text (flag : Flag) (limit : Number) : parseNumber flag limit.text = .ok limit.value := by
  rw [parseNumber,limit.reads]

-- One option in front of anything that fits the subcommand is said.
theorem parseFrom_option (fits : o.fits kind) (s : Said) (spelling : Spelling) (rest : List Text) :
    parseFrom (s.args kind) (o.tokens spelling ++ rest) = parseFrom ((s.say o).args kind) rest := by
  cases o with
  | help => cases spelling <;> exact parseFrom_alone (fun _ => rfl) rest
  | project dir => exact parseFrom_written (fun _ => rfl) spelling rest
  | record path => exact parseFrom_written (fun _ => rfl) spelling rest
  | opId id => exact parseFrom_written (fun _ => rfl) spelling rest
  | quiet => exact parseFrom_switch (fun _ => rfl) rest
  | strict => exact parseFrom_switch (fun _ => rfl) rest
  | target name =>
    cases fits
    exact parseFrom_written (fun _ => rfl) spelling rest
  | timeoutMs limit =>
    refine parseFrom_written (fun used => ?_) spelling rest
    rcases fits with rfl | rfl
    all_goals
      simp only [flagArm,parseNumber_text,bind,Except.bind]
      rfl
  | cancelAfterMs limit =>
    cases fits
    refine parseFrom_written (fun used => ?_) spelling rest
    simp only [flagArm,parseNumber_text,bind,Except.bind]
    rfl
  | noBuild =>
    cases fits
    exact parseFrom_switch (fun _ => rfl) rest
  | keepQemuLog =>
    cases fits
    exact parseFrom_switch (fun _ => rfl) rest
  | rip address =>
    cases fits
    exact parseFrom_written (fun _ => rfl) spelling rest
  | fromLog path =>
    cases fits
    exact parseFrom_written (fun _ => rfl) spelling rest
  | elf path =>
    cases fits
    exact parseFrom_written (fun _ => rfl) spelling rest
  | file path =>
    cases fits
    exact parseFrom_written (fun _ => rfl) spelling rest

theorem parseFrom_options {options : List (Opt × Spelling)} (fits : ∀ row ∈ options, row.1.fits kind) (s : Said) (rest : List Text) :
    parseFrom (s.args kind) (tokensOf options ++ rest) = parseFrom (((options.map Prod.fst).foldl Said.say s).args kind) rest := by
  induction options generalizing s with
  | nil => rfl
  | cons row options ih =>
    have cut : tokensOf (row::options) ++ rest = row.1.tokens row.2 ++ (tokensOf options ++ rest) := by
      rw [tokensOf,List.flatMap_cons,List.append_assoc]
      rfl
    rw [cut,parseFrom_option (fits row List.mem_cons_self),ih fun later member => fits later (List.mem_cons_of_mem _ member)]
    rfl

def Meaning.options (m : Meaning) : List Opt := m.common ++ m.command.options

theorem fold_last {field : Said → α} {get : Opt → Option α} (each : ∀ s o, field (s.say o) = (get o).getD (field s)) (s : Said) (options : List Opt) :
    field (options.foldl Said.say s) = ((options.filterMap get).getLast?).getD (field s) := by
  induction options generalizing s with
  | nil => rfl
  | cons o options ih =>
    rw [List.foldl_cons,ih,each,List.filterMap_cons]
    cases get o with
    | none => rfl
    | some v =>
      rw [Option.getD_some,List.getLast?_cons,Option.getD_some]

theorem fold_targets (s : Said) (options : List Opt) :
    (options.foldl Said.say s).own.targets = s.own.targets ++ options.filterMap targetOf := by
  induction options generalizing s with
  | nil => exact (List.append_nil _).symm
  | cons o options ih =>
    rw [List.foldl_cons,ih,List.filterMap_cons]
    cases o with
    | target name =>
      dsimp only [Said.say,targetOf]
      rw [List.append_assoc,List.singleton_append]
    | _ => rfl

-- An option that is given at most once says the same wherever it stands.
theorem fold_once (field : Said → α) (get : Opt → Option α) {o : Option α} {options all : List Opt}
    (each : ∀ s o, field (s.say o) = (get o).getD (field s)) (perm : options.Perm all) (once : all.filterMap get = o.toList) (s : Said) :
    field (options.foldl Said.say s) = o.getD (field s) := by
  have same : (options.filterMap get).Perm o.toList := once ▸ perm.filterMap get
  rw [fold_last each]
  cases o with
  | none => rw [same.eq_nil]; rfl
  | some v => rw [List.perm_singleton.mp same]; rfl

theorem fold_value (field : Said → Option α) (get : Opt → Option α) {v : Option α} {options all : List Opt}
    (each : ∀ s o, field (s.say o) = (get o).or (field s)) (perm : options.Perm all) (once : all.filterMap get = v.toList)
    (start : field s = none) : field (options.foldl Said.say s) = v := by
  have either : ∀ s o, field (s.say o) = ((get o).map some).getD (field s) := by
    intro s o
    rw [each]
    cases get o <;> rfl
  have some : all.filterMap (fun o => (get o).map some) = (v.map some).toList := by
    rw [← List.map_filterMap,once]
    cases v <;> rfl
  rw [fold_once field _ either perm some,start]
  cases v <;> rfl

theorem fold_switch (field : Said → Bool) (get : Opt → Option Bool) {flag : Bool} {options all : List Opt}
    (each : ∀ s o, field (s.say o) = (get o).getD (field s)) (perm : options.Perm all) (once : all.filterMap get = if flag then [true] else [])
    (start : field s = false) : field (options.foldl Said.say s) = flag := by
  have some : all.filterMap get = (if flag then Option.some true else none).toList := by
    rw [once]
    cases flag <;> rfl
  rw [fold_once field get each perm some,start]
  cases flag <;> rfl

@[simp] theorem filterMap_given (get : Opt → Option α) (flag : Bool) (opt : Opt) :
    (given flag opt).filterMap get = if flag then (get opt).toList else [] := by
  cases flag with
  | false => rfl
  | true =>
    rw [given,if_pos rfl,List.filterMap_cons]
    cases get opt <;> rfl

@[simp] theorem filterMap_said (get : Opt → Option α) (f : β → Opt) (v : Option β) :
    ((v.map f).toList).filterMap get = (v.bind fun v => get (f v)).toList := by
  cases v with
  | none => rfl
  | some v =>
    rw [Option.map_some,Option.toList_some,List.filterMap_cons,Option.bind_some]
    cases get (f v) <;> rfl

@[simp] theorem filterMap_targets (get : Opt → Option α) (targets : List Text) :
    (targets.map Opt.target).filterMap get = targets.filterMap fun name => get (.target name) := List.filterMap_map ..

section
variable {help quiet strict : Bool} {project record opId : Option Text} {command : Meant} {options : List Opt}

-- What is said when every option of a meaning is, each in its place.
theorem said_common (perm : options.Perm (Meaning.mk help project record opId quiet strict command).options) :
    let s := options.foldl Said.say .nothing
    s.help = help ∧ s.project = project.getD ".".toList ∧ s.record = record ∧ s.opId = opId ∧ s.quiet = quiet ∧ s.strict = strict := by
  refine ⟨?_,?_,?_,?_,?_,?_⟩
  · refine fold_switch Said.help (fun | .help => some true | _ => none) (fun s o => by cases o <;> rfl) perm ?_ rfl
    cases command <;> simp [Meaning.options,Meaning.common,Meant.options]
  · refine fold_once Said.project (fun | .project dir => some dir | _ => none) (fun s o => by cases o <;> rfl) perm ?_ .nothing
    cases command <;> simp [Meaning.options,Meaning.common,Meant.options]
  · refine fold_value Said.record (fun | .record path => some path | _ => none) (fun s o => by cases o <;> rfl) perm ?_ rfl
    cases command <;> simp [Meaning.options,Meaning.common,Meant.options]
  · refine fold_value Said.opId (fun | .opId id => some id | _ => none) (fun s o => by cases o <;> rfl) perm ?_ rfl
    cases command <;> simp [Meaning.options,Meaning.common,Meant.options]
  · refine fold_switch Said.quiet (fun | .quiet => some true | _ => none) (fun s o => by cases o <;> rfl) perm ?_ rfl
    cases command <;> simp [Meaning.options,Meaning.common,Meant.options]
  · refine fold_switch Said.strict (fun | .strict => some true | _ => none) (fun s o => by cases o <;> rfl) perm ?_ rfl
    cases command <;> simp [Meaning.options,Meaning.common,Meant.options]

theorem said_own (perm : options.Perm (Meaning.mk help project record opId quiet strict command).options)
    (targets : options.filterMap targetOf = command.options.filterMap targetOf) :
    (options.foldl Said.say .nothing).own.command command.kind = command.command := by
  cases command with
  | doctor => rfl
  | build names timeoutMs =>
    have first : (options.foldl Said.say .nothing).own.targets = names := by
      have limits : ((timeoutMs.map Opt.timeoutMs).toList).filterMap targetOf = [] := by cases timeoutMs <;> rfl
      rw [fold_targets,targets,Meant.options,List.filterMap_append,limits,List.append_nil,filterMap_targets]
      exact List.filterMap_some
    have limit : (options.foldl Said.say .nothing).own.timeoutMs = timeoutMs.map Number.value := by
      refine fold_value (·.own.timeoutMs) (fun | .timeoutMs limit => some limit.value | _ => none) (fun s o => by cases o <;> rfl) perm ?_ rfl
      simp [Meaning.options,Meaning.common,Meant.options]
      cases timeoutMs <;> rfl
    rw [Meant.kind,Own.command,first,limit]
    rfl
  | run timeoutMs cancelAfterMs noBuild keepQemuLog =>
    have limit : (options.foldl Said.say .nothing).own.timeoutMs = timeoutMs.map Number.value := by
      refine fold_value (·.own.timeoutMs) (fun | .timeoutMs limit => some limit.value | _ => none) (fun s o => by cases o <;> rfl) perm ?_ rfl
      simp [Meaning.options,Meaning.common,Meant.options]
      cases timeoutMs <;> rfl
    have cancel : (options.foldl Said.say .nothing).own.cancelAfterMs = cancelAfterMs.map Number.value := by
      refine fold_value (·.own.cancelAfterMs) (fun | .cancelAfterMs limit => some limit.value | _ => none) (fun s o => by cases o <;> rfl) perm ?_ rfl
      simp [Meaning.options,Meaning.common,Meant.options]
      cases cancelAfterMs <;> rfl
    have build : (options.foldl Said.say .nothing).own.noBuild = noBuild := by
      refine fold_switch (·.own.noBuild) (fun | .noBuild => some true | _ => none) (fun s o => by cases o <;> rfl) perm ?_ rfl
      simp [Meaning.options,Meaning.common,Meant.options]
    have log : (options.foldl Said.say .nothing).own.keepQemuLog = keepQemuLog := by
      refine fold_switch (·.own.keepQemuLog) (fun | .keepQemuLog => some true | _ => none) (fun s o => by cases o <;> rfl) perm ?_ rfl
      simp [Meaning.options,Meaning.common,Meant.options]
    rw [Meant.kind,Own.command,limit,cancel,build,log]
    rfl
  | symbolicate rip fromLog elf =>
    have address : (options.foldl Said.say .nothing).own.rip = rip := by
      refine fold_value (·.own.rip) (fun | .rip address => some address | _ => none) (fun s o => by cases o <;> rfl) perm ?_ rfl
      simp [Meaning.options,Meaning.common,Meant.options]
    have log : (options.foldl Said.say .nothing).own.fromLog = fromLog := by
      refine fold_value (·.own.fromLog) (fun | .fromLog path => some path | _ => none) (fun s o => by cases o <;> rfl) perm ?_ rfl
      simp [Meaning.options,Meaning.common,Meant.options]
    have image : (options.foldl Said.say .nothing).own.elf = elf := by
      refine fold_value (·.own.elf) (fun | .elf path => some path | _ => none) (fun s o => by cases o <;> rfl) perm ?_ rfl
      simp [Meaning.options,Meaning.common,Meant.options]
    rw [Meant.kind,Own.command,address,log,image]
    rfl
  | events file =>
    have stream : (options.foldl Said.say .nothing).own.file = file := by
      refine fold_value (·.own.file) (fun | .file path => some path | _ => none) (fun s o => by cases o <;> rfl) perm ?_ rfl
      simp [Meaning.options,Meaning.common,Meant.options]
    rw [Meant.kind,Own.command,stream]
    rfl

end

theorem said_args {m : Meaning} {options : List Opt} (perm : options.Perm m.options)
    (targets : options.filterMap targetOf = m.command.options.filterMap targetOf) :
    (options.foldl Said.say .nothing).args (some m.command.kind) = m.args := by
  obtain ⟨help,project,record,opId,quiet,strict⟩ := said_common perm
  have own := said_own perm targets
  rw [Said.args,Option.map_some,own,help,project,record,opId,quiet,strict]
  rfl

theorem mem_given {o opt : Opt} (member : o ∈ given flag opt) : o = opt := by
  cases flag with
  | false => cases member
  | true => exact List.mem_singleton.mp member

theorem mem_said {o : Opt} {f : α → Opt} {v : Option α} (member : o ∈ (v.map f).toList) : ∃ x, o = f x := by
  cases v with
  | none => cases member
  | some x => exact ⟨x,List.mem_singleton.mp member⟩

-- The common options fit everywhere, and are no targets.
theorem common_fits {m : Meaning} (member : o ∈ m.common) (kind : Option Kind) : o.fits kind ∧ targetOf o = none := by
  unfold Meaning.common at member
  simp only [List.mem_append] at member
  rcases member with ((((help | project) | record) | opId) | quiet) | strict
  · exact mem_given help ▸ ⟨trivial,rfl⟩
  · obtain ⟨x,rfl⟩ := mem_said project
    exact ⟨trivial,rfl⟩
  · obtain ⟨x,rfl⟩ := mem_said record
    exact ⟨trivial,rfl⟩
  · obtain ⟨x,rfl⟩ := mem_said opId
    exact ⟨trivial,rfl⟩
  · exact mem_given quiet ▸ ⟨trivial,rfl⟩
  · exact mem_given strict ▸ ⟨trivial,rfl⟩

theorem own_fits {command : Meant} (member : o ∈ command.options) : o.fits (some command.kind) := by
  cases command with
  | doctor => cases member
  | build targets timeoutMs =>
    rcases List.mem_append.mp member with target | limit
    · obtain ⟨name,_,rfl⟩ := List.mem_map.mp target
      rfl
    · obtain ⟨x,rfl⟩ := mem_said limit
      exact .inl rfl
  | run timeoutMs cancelAfterMs noBuild keepQemuLog =>
    simp only [Meant.options,List.mem_append] at member
    rcases member with ((limit | cancel) | build) | log
    · obtain ⟨x,rfl⟩ := mem_said limit
      exact .inr rfl
    · obtain ⟨x,rfl⟩ := mem_said cancel
      rfl
    · exact mem_given build ▸ rfl
    · exact mem_given log ▸ rfl
  | symbolicate rip fromLog elf =>
    simp only [Meant.options,List.mem_append] at member
    rcases member with (address | log) | image
    · obtain ⟨x,rfl⟩ := mem_said address
      rfl
    · obtain ⟨x,rfl⟩ := mem_said log
      rfl
    · obtain ⟨x,rfl⟩ := mem_said image
      rfl
  | events file =>
    obtain ⟨x,rfl⟩ := mem_said member
    rfl

theorem parseFrom_subcommand {s : Said} (command : Meant) (fresh : s.own = .none) (rest : List Text) :
    parseFrom (s.args none) (command.command.name :: rest) = parseFrom (s.args (some command.kind)) rest := by
  refine parseFrom_alone (fun next => ?_) rest
  rw [Said.args,Said.args,Option.map_some,fresh]
  cases command <;> rfl

theorem say_common {m : Meaning} {options : List Opt} (common : ∀ o ∈ options, o ∈ m.common) (s : Said) : (options.foldl Said.say s).own = s.own := by
  induction options generalizing s with
  | nil => rfl
  | cons o options ih =>
    rw [List.foldl_cons,ih fun later member => common later (List.mem_cons_of_mem _ member)]
    have fits := (common_fits (common o List.mem_cons_self) none).1
    cases o <;> first | rfl | simp [Opt.fits] at fits

theorem parse_writing (m : Meaning) (w : Writing m) : parse w.tokens = .ok m.args := by
  have front : ∀ o ∈ w.before.map Prod.fst, o ∈ m.common := fun o member => w.common.subset (List.mem_append_left _ member)
  have commons : ∀ o ∈ w.commons, o ∈ m.common := fun o member => w.common.subset (List.mem_append_right _ member)
  have fitsBefore : ∀ row ∈ w.before, row.1.fits none := fun row member => (common_fits (front row.1 (List.mem_map_of_mem member)) none).1
  have fitsAfter : ∀ row ∈ w.after, row.1.fits (some m.command.kind) := by
    intro row member
    rcases List.mem_append.mp (w.own.subset (List.mem_map_of_mem member)) with common | own
    · exact (common_fits (commons row.1 common) _).1
    · exact own_fits own
  have perm : (w.before.map Prod.fst ++ w.after.map Prod.fst).Perm m.options := by
    refine (w.own.append_left _).trans ?_
    rw [← List.append_assoc]
    exact w.common.append_right _
  have targets : (w.before.map Prod.fst ++ w.after.map Prod.fst).filterMap targetOf = m.command.options.filterMap targetOf := by
    have none : (w.before.map Prod.fst).filterMap targetOf = [] :=
      List.filterMap_eq_nil_iff.mpr fun o member => (common_fits (front o member) Option.none).2
    rw [List.filterMap_append,none,List.nil_append,w.targets]
  have start : Args.default = Said.nothing.args none := rfl
  have fresh := say_common front .nothing
  calc parse w.tokens
      = parseFrom (Said.nothing.args none) (tokensOf w.before ++ (m.command.command.name :: tokensOf w.after)) := by
        rw [parse,start,Writing.tokens,List.append_assoc,List.singleton_append]
    _ = parseFrom (((w.before.map Prod.fst).foldl Said.say .nothing).args (some m.command.kind)) (tokensOf w.after ++ []) := by
        rw [parseFrom_options fitsBefore,parseFrom_subcommand m.command fresh,List.append_nil]
    _ = .ok (((w.before.map Prod.fst ++ w.after.map Prod.fst).foldl Said.say .nothing).args (some m.command.kind)) := by
        rw [parseFrom_options fitsAfter,List.foldl_append,parseFrom]
    _ = .ok m.args := by rw [said_args perm targets]

-- What was read is read in front of anything else as well.
theorem flagArm_unasked (read : flagArm args flag (.error e) = .ok (other,used)) (value : Value) :
    used = false ∧ flagArm args flag value = .ok (other,false) := by
  cases flag
  case quiet | strict =>
    cases read
    exact ⟨rfl,rfl⟩
  case noBuild | keepQemuLog =>
    simp only [flagArm] at read ⊢
    split at read
    · cases read
      exact ⟨rfl,rfl⟩
    · cases read
  case project | record | opId | timeoutMs | cancelAfterMs => cases read
  all_goals
    simp only [flagArm] at read
    split at read <;> cases read

theorem flagArm_inline (read : flagArm args flag (.ok (v,false)) = .ok (other,used)) : used = false := by
  cases flag
  case timeoutMs | cancelAfterMs =>
    simp only [flagArm,bind,Except.bind] at read
    split at read
    · cases read
    · split at read <;> first | (cases read; rfl) | cases read
  case quiet | strict | project | record | opId =>
    cases read
    rfl
  all_goals
    simp only [flagArm] at read
    split at read <;> first | (cases read; rfl) | cases read

theorem turn_front (took : turn args token none = .ok (other,used)) : used = false ∧ ∀ next, turn args token next = .ok (other,false) := by
  unfold turn at took ⊢
  by_cases help : isHelp token = true
  · rw [if_pos help] at took
    cases took
    exact ⟨rfl,fun _ => if_pos help⟩
  · rw [if_neg help] at took
    simp only [if_neg help]
    by_cases bare : (!startsWith ['-'] token) = true
    · rw [if_pos bare] at took
      simp only [if_pos bare]
      cases found : word args token with
      | error e => rw [found] at took; cases took
      | ok found =>
        rw [found] at took
        cases took
        exact ⟨rfl,fun _ => rfl⟩
    · rw [if_neg bare] at took
      simp only [if_neg bare]
      dsimp only at took
      cases known : Flag.read (splitValue token).1 with
      | none => rw [known] at took; cases took
      | some flag =>
        rw [known] at took
        cases inline : (splitValue token).2 with
        | some v =>
          rw [inline] at took
          obtain rfl := flagArm_inline took
          exact ⟨rfl,fun _ => took⟩
        | none =>
          rw [inline] at took
          exact ⟨(flagArm_unasked took (.error [])).1,fun next => (flagArm_unasked took _).2⟩

-- What stands behind a command line that can be read is read where that ends.
theorem parseFrom_front (read : parseFrom args front = .ok other) (rest : List Text) : parseFrom args (front ++ rest) = parseFrom other rest := by
  induction args, front using parseFrom.induct with
  | case1 args =>
    cases read
    rfl
  | case2 args token =>
    rw [parseFrom.eq_2] at read
    cases took : turn args token none with
    | error e => rw [took] at read; cases read
    | ok next =>
      obtain ⟨next,used⟩ := next
      rw [took] at read
      cases read
      obtain ⟨rfl,always⟩ := turn_front took
      exact parseFrom_alone always rest
  | case3 args token next tokens e took => 
    rw [parseFrom,took] at read
    cases read
  | case4 args token next tokens after took ih =>
    rw [parseFrom,took] at read
    rw [List.cons_append,List.cons_append,parseFrom,took]
    exact ih read
  | case5 args token next tokens after took ih =>
    rw [parseFrom,took] at read
    rw [List.cons_append,List.cons_append,parseFrom,took]
    exact ih read

def Command.kind : Command → Kind
  | .doctor => .doctor
  | .build _ => .build
  | .run _ => .run
  | .symbolicate _ => .symbolicate
  | .events _ => .events

-- The subcommands that an option is for; a common one is for all.
def Flag.owners : Flag → Option (List Kind)
  | .project | .record | .opId | .quiet | .strict => none
  | .target => some [.build]
  | .timeoutMs => some [.build,.run]
  | .cancelAfterMs | .noBuild | .keepQemuLog => some [.run]
  | .rip | .fromLog | .elf => some [.symbolicate]
  | .file => some [.events]

def Foreign (flag : Flag) (command : Option Command) : Prop :=
  ∃ owners, flag.owners = some owners ∧ ∀ c ∈ command, c.kind ∉ owners

def Rejected (tokens : List Text) : Prop := ∃ e, parse tokens = .error e

theorem flagArm_foreign (foreign : Foreign flag args.command) (value : Value) : ∃ e, flagArm args flag value = .error e := by
  obtain ⟨owners,own,apart⟩ := foreign
  cases flag
  case project | record | opId | quiet | strict => cases own
  case timeoutMs =>
    cases own
    cases value with
    | error e => exact ⟨e,rfl⟩
    | ok v =>
      simp only [flagArm,bind,Except.bind]
      cases parseNumber .timeoutMs v.1 with
      | error e => exact ⟨e,rfl⟩
      | ok n =>
        dsimp only
        split
        · next here => exact absurd List.mem_cons_self (apart _ here)
        · next here => exact absurd (List.mem_cons_of_mem _ List.mem_cons_self) (apart _ here)
        · exact ⟨_,rfl⟩
  case cancelAfterMs =>
    cases own
    cases value with
    | error e => exact ⟨e,rfl⟩
    | ok v =>
      simp only [flagArm,bind,Except.bind]
      cases parseNumber .cancelAfterMs v.1 with
      | error e => exact ⟨e,rfl⟩
      | ok n =>
        dsimp only
        split
        · next here => exact absurd List.mem_cons_self (apart _ here)
        · exact ⟨_,rfl⟩
  all_goals
    cases own
    simp only [flagArm]
    split
    · next here => exact absurd List.mem_cons_self (apart _ here)
    · exact ⟨_,rfl⟩

theorem turn_rejected (failed : ∀ next, ∃ e, turn args token next = .error e) (rest : List Text) : ∃ e, parseFrom args (token::rest) = .error e := by
  cases rest with
  | nil =>
    obtain ⟨e,took⟩ := failed none
    exact ⟨e,by rw [parseFrom.eq_2,took]; rfl⟩
  | cons next rest =>
    obtain ⟨e,took⟩ := failed (some next)
    exact ⟨e,by rw [parseFrom,took]⟩

-- Every spelling of a flag: what is behind it stands behind an equals sign or
-- is the rest of the command line.
inductive Spelled (flag : Flag) : Text → Prop
  | spaced : Spelled flag flag.text
  | inline (v : Text) : Spelled flag (flag.text ++ '=' :: v)

theorem foreign_rejected (read : parse front = .ok args) (foreign : Foreign flag args.command) (spelled : Spelled flag token) (rest : List Text) :
    Rejected (front ++ token :: rest) := by
  rw [Rejected,parse,parseFrom_front read]
  refine turn_rejected (fun next => ?_) rest
  cases spelled with
  | spaced =>
    rw [turn_spaced]
    exact flagArm_foreign foreign _
  | inline v =>
    rw [turn_inline]
    exact flagArm_foreign foreign _

theorem second_rejected (read : parse front = .ok args) (some : args.command = some command) (bare : startsWith ['-'] token = false) (rest : List Text) :
    Rejected (front ++ token :: rest) := by
  rw [Rejected,parse,parseFrom_front read]
  refine turn_rejected (fun next => ?_) rest
  have plain : isHelp token = false := by
    rw [isHelp,Bool.or_eq_false_iff,decide_eq_false_iff_not,decide_eq_false_iff_not]
    constructor
    all_goals
      rintro rfl
      revert bare
      decide
  exact ⟨_,by simp only [turn,plain,bare,Bool.false_eq_true,if_false,Bool.not_false,if_true,word,some]; rfl⟩

theorem parse_meaning :
    (∀ (m : Meaning) (w : Writing m), parse w.tokens = .ok m.args) ∧
    (∀ front args flag token rest, parse front = .ok args → Foreign flag args.command → Spelled flag token → Rejected (front ++ token :: rest)) ∧
    (∀ front args command token rest, parse front = .ok args → args.command = some command → startsWith ['-'] token = false →
      Rejected (front ++ token :: rest)) :=
  ⟨parse_writing,fun _ _ _ _ rest read foreign spelled => foreign_rejected read foreign spelled rest,
    fun _ _ _ _ rest read some bare => second_rejected read some bare rest⟩

-- Every meaning has a way of writing.
def Meaning.plain (m : Meaning) : Writing m := ⟨[],m.options.map fun o => (o,.spaced),m.common,
  .refl _,
  by rw [List.map_map]; exact .of_eq (List.map_id _),
  by
    have none : m.common.filterMap targetOf = [] := List.filterMap_eq_nil_iff.mpr fun o member => (common_fits member Option.none).2
    rw [List.map_map,show (Prod.fst ∘ fun o : Opt => (o,Spelling.spaced)) = id from rfl,List.map_id,Meaning.options,List.filterMap_append,none,
      List.nil_append]⟩

def dashed : Meaning := ⟨false,some "--help".toList,none,none,true,false,.build ["-x=1".toList,"a".toList] none⟩

theorem parse_dashed : parse dashed.plain.tokens = .ok dashed.args ∧ Rejected (["doctor".toList] ++ "--target=x".toList :: []) ∧
    Rejected (["doctor".toList] ++ "run".toList :: []) :=
  ⟨parse_meaning.1 dashed dashed.plain,
    parse_meaning.2.1 ["doctor".toList] _ .target _ [] rfl ⟨_,rfl,fun c member => by cases member; decide⟩ (.inline "x".toList),
    parse_meaning.2.2 ["doctor".toList] _ .doctor _ [] rfl rfl rfl⟩

end PrincessIDE.CliArgs
