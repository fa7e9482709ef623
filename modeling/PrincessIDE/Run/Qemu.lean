import Mathlib.Data.List.Nodup
import PrincessIDE.Run.Launch

namespace PrincessIDE.Qemu
open Utf8 Str Error RunBackend

def engineOwnedFlags : List Text := [
  "-serial","-monitor","-display","-nographic","-d","-D","-cdrom","-boot","-kernel","-drive","-no-reboot","-s","-S","-gdb"
  ].map String.toList

def qemuDebugLogRel : Text := "build/qemu-debug.log".toList

inductive BootMedium where
  | iso (path : Text)
  | kernel (path : Text)
  | disk (path : Text)
deriving DecidableEq, Repr

structure PlanOptions where
  timeoutMs : Option Nat
  gdbStub : Option GdbStub
  debugLog : Option Text
  qemuDataDir : Option Text
  qemuBin : Text
deriving DecidableEq, Repr

structure PlanInputs where
  root : Text
  cwd : Text
  args : List Text
  timeoutMs : Nat
  serialDevice : Text
  serialTee : Option Text
deriving DecidableEq, Repr

structure PartitionedArgs where
  kept : List Text
  dropped : List Text
deriving DecidableEq, Repr

def joinWords : List Text → Text
  | [] => []
  | [word] => word
  | word :: rest => word ++ ' ' :: joinWords rest

def PartitionedArgs.droppedNote (p : PartitionedArgs) : Option Text :=
  if p.dropped = [] then none
  else some ("[run] args repeats emulator flags the engine owns and enforces (D9); ignoring: ".toList ++ joinWords p.dropped)

def PartitionedArgs.keep (token : Text) (p : PartitionedArgs) : PartitionedArgs := {p with kept:=token::p.kept}
def PartitionedArgs.drop (tokens : List Text) (p : PartitionedArgs) : PartitionedArgs := {p with dropped:=tokens++p.dropped}

-- A flag goes together with the token behind it, unless that looks like a flag.
def partitionArgs : List Text → PartitionedArgs
  | [] => ⟨[],[]⟩
  | [token] => if engineOwnedFlags.contains token then ⟨[],[token]⟩ else ⟨[token],[]⟩
  | token :: value :: rest =>
    if engineOwnedFlags.contains token then
      if startsWith ['-'] value then (partitionArgs (value::rest)).drop [token]
      else (partitionArgs rest).drop [token,value]
    else (partitionArgs (value::rest)).keep token

inductive ElfClass where
  | elf32 | elf64 | other
deriving DecidableEq, Repr

-- `opened` is what opening a file and reading its first five bytes gives, or why
-- it could not be opened.
def classifyElf (opened : Text → Except Text Bytes) (path : Text) : Except PrincessError ElfClass :=
  match opened path with
  | .error err => .error (.new .notFound ("cannot open ".toList ++ path ++ ": ".toList ++ err))
  | .ok ident =>
    if ident.length < 5 ∨ ident.take 4 ≠ [0x7F,0x45,0x4C,0x46] then .ok .other
    else match (ident[4]? : Option UInt8) with
      | some 1 => .ok .elf32
      | some 2 => .ok .elf64
      | _ => .ok .other

def checkMedium (opened : Text → Except Text Bytes) : BootMedium → Except PrincessError Unit
  | .iso path | .disk path =>
    if path = [] then
      .error (.new .invalidConfig "boot medium path is empty: refusing to start an emulator with nothing to boot".toList)
    else .ok ()
  | .kernel path =>
    if path = [] then
      .error (.new .invalidConfig "kernel path is empty: refusing to start an emulator with nothing to boot".toList)
    else do
      let cls ← classifyElf opened path
      if cls = .elf64 then
        .error ((PrincessError.new .invalidConfig (path ++
          " is ELF64: QEMU's -kernel multiboot loader only accepts a 32-bit image (D2)".toList)).withDetail
          "Boot an x86_64 kernel through a GRUB ISO instead: \x60-cdrom <iso> -boot d\x60".toList)
      else .ok ()

-- `PathBuf::join` with a relative path.
def joinPath (root rel : Text) : Text :=
  if root = [] then rel else if root.getLast? = some '/' then root ++ rel else root ++ '/' :: rel

def debugLogPath (inputs : PlanInputs) (options : PlanOptions) : Text :=
  options.debugLog.getD (joinPath inputs.root qemuDebugLogRel)

def dataArgs (options : PlanOptions) : List Text := match options.qemuDataDir with
  | some data => ["-L".toList,data]
  | none => []

def mediumArgs : BootMedium → List Text
  | .iso path => ["-cdrom".toList,path,"-boot".toList,"d".toList]
  | .kernel path => ["-kernel".toList,path]
  | .disk path => ["-drive".toList,"file=".toList ++ path ++ ",format=raw,if=floppy".toList]

def captureArgs (log : Text) : List Text :=
  ["-display".toList,"none".toList,"-monitor".toList,"none".toList,"-serial".toList,"stdio".toList,"-no-reboot".toList,
    "-d".toList,qemuDebugItems,"-D".toList,log]

def stubArgs (options : PlanOptions) : List Text := if options.gdbStub.isSome then ["-s".toList] else []

def planArgv (inputs : PlanInputs) (medium : BootMedium) (options : PlanOptions) : List Text :=
  [options.qemuBin] ++ dataArgs options ++ (partitionArgs inputs.args).kept ++ mediumArgs medium ++
    captureArgs (debugLogPath inputs options) ++ stubArgs options

-- The assertions of a debug build.
def asserted (argv : List Text) : Bool :=
  !argv.contains "-nographic".toList && argv.count "-serial".toList = 1 && argv.count "-monitor".toList = 1 &&
    ¬ (valueAfter "-serial".toList argv = some "stdio".toList ∧ valueAfter "-monitor".toList argv = some "stdio".toList)

-- No answer is a panic.
def planRun (opened : Text → Except Text Bytes) (debugAssertions : Bool) (inputs : PlanInputs) (medium : BootMedium)
    (options : PlanOptions) : Option (Except PrincessError RunPlan) :=
  if options.qemuBin = [] then
    some (.error (.new .toolchainMissing
      "no qemu-system-x86_64 binary was resolved; run \x60bash scripts/bootstrap-toolchain.sh\x60".toList))
  else match checkMedium opened medium with
    | .error e => some (.error e)
    | .ok () =>
      let argv := planArgv inputs medium options
      if debugAssertions && !asserted argv then none
      else some (.ok ⟨argv,inputs.cwd,options.timeoutMs.getD inputs.timeoutMs,⟨inputs.serialDevice,inputs.serialTee⟩,options.gdbStub⟩)

theorem partitionArgs_kept (args : List Text) : ∀ token ∈ (partitionArgs args).kept, token ∉ engineOwnedFlags := by
  induction args using partitionArgs.induct with
  | case1 => simp [partitionArgs]
  | case2 token owned =>
    rw [partitionArgs,if_pos owned]
    exact List.forall_mem_nil _
  | case3 token plain =>
    rw [partitionArgs,if_neg plain]
    exact List.forall_mem_singleton.mpr fun own => plain (List.contains_iff_mem.mpr own)
  | case4 token value rest owned flag ih =>
    rw [partitionArgs,if_pos owned,if_pos flag]
    exact ih
  | case5 token value rest owned value_plain ih =>
    rw [partitionArgs,if_pos owned,if_neg value_plain]
    exact ih
  | case6 token value rest plain ih =>
    rw [partitionArgs,if_neg plain]
    exact List.forall_mem_cons.mpr ⟨fun own => plain (List.contains_iff_mem.mpr own),ih⟩

theorem partitionArgs_sublist (args : List Text) : (partitionArgs args).kept.Sublist args := by
  induction args using partitionArgs.induct with
  | case1 => exact .slnil
  | case2 token owned =>
    rw [partitionArgs,if_pos owned]
    simp
  | case3 token plain =>
    rw [partitionArgs,if_neg plain]
  | case4 token value rest owned flag ih =>
    rw [partitionArgs,if_pos owned,if_pos flag]
    exact ih.cons token
  | case5 token value rest owned value_plain ih =>
    rw [partitionArgs,if_pos owned,if_neg value_plain]
    exact (ih.cons value).cons token
  | case6 token value rest plain ih =>
    rw [partitionArgs,if_neg plain]
    exact ih.cons_cons token

theorem partitionArgs_perm (args : List Text) : ((partitionArgs args).kept ++ (partitionArgs args).dropped).Perm args := by
  induction args using partitionArgs.induct with
  | case1 => exact .refl _
  | case2 token owned =>
    rw [partitionArgs,if_pos owned]
    simp
  | case3 token plain =>
    rw [partitionArgs,if_neg plain]
    simp
  | case4 token value rest owned flag ih =>
    rw [partitionArgs,if_pos owned,if_pos flag]
    exact List.perm_middle.trans (ih.cons token)
  | case5 token value rest owned value_plain ih =>
    rw [partitionArgs,if_pos owned,if_neg value_plain]
    have inner : ((partitionArgs rest).kept ++ value::(partitionArgs rest).dropped).Perm (value::rest) :=
      List.perm_middle.trans (ih.cons value)
    exact List.perm_middle.trans (inner.cons token)
  | case6 token value rest plain ih =>
    rw [partitionArgs,if_neg plain]
    exact ih.cons token

-- Where no token is an owned flag there is nothing to drop.
theorem partitionArgs_plain (plain : ∀ token ∈ args, token ∉ engineOwnedFlags) : partitionArgs args = ⟨args,[]⟩ := by
  induction args using partitionArgs.induct with
  | case1 => rfl
  | case2 token owned => exact absurd (List.contains_iff_mem.mp owned) (plain token (by simp))
  | case3 token own => rw [partitionArgs,if_neg own]
  | case4 token value rest owned flag ih => exact absurd (List.contains_iff_mem.mp owned) (plain token (by simp))
  | case5 token value rest owned value_plain ih => exact absurd (List.contains_iff_mem.mp owned) (plain token (by simp))
  | case6 token value rest own ih =>
    rw [partitionArgs,if_neg own,ih fun later member => plain later (List.mem_cons_of_mem _ member)]
    rfl

theorem valueAfter_append (before : List Text) (absent : flag ∉ before) (after : List Text) :
    valueAfter flag (before ++ flag :: value :: after) = some value := by
  induction before with
  | nil => simp [valueAfter]
  | cons token before ih =>
    simp only [List.mem_cons,not_or] at absent
    simp [valueAfter,Ne.symm absent.1,ih absent.2]

def mediumPath : BootMedium → List Text
  | .iso path | .kernel path => [path]
  | .disk _ => []

-- The paths that stand in a plan as arguments of their own.
def pathsOf (medium : BootMedium) (options : PlanOptions) : List Text :=
  options.qemuBin :: (options.qemuDataDir.toList ++ mediumPath medium ++ options.debugLog.toList)

def mediumFlags : BootMedium → List Text
  | .iso _ => ["-cdrom".toList,"-boot".toList]
  | .kernel _ => ["-kernel".toList]
  | .disk _ => ["-drive".toList]

def captureFlags : List Text := ["-display","-monitor","-serial","-no-reboot","-d","-D"].map String.toList

-- The owned flags a plan carries, in their order.
def usedFlags (medium : BootMedium) (options : PlanOptions) : List Text := mediumFlags medium ++ captureFlags ++ stubArgs options

def owned (token : Text) : Bool := engineOwnedFlags.contains token

theorem owned_false : owned token = false ↔ token ∉ engineOwnedFlags := by simp [owned]

theorem owned_dash {token : Text} (own : token ∈ engineOwnedFlags) : token.head? = some '-' ∧ token.length ≤ 11 := by
  have all : ∀ flag ∈ engineOwnedFlags, flag.head? = some '-' ∧ flag.length ≤ 11 := by decide
  exact all token own

theorem debugLogPath_plain (inputs : PlanInputs) (options : PlanOptions) (plain : ∀ path ∈ options.debugLog.toList, path ∉ engineOwnedFlags) :
    debugLogPath inputs options ∉ engineOwnedFlags := by
  unfold debugLogPath
  cases beyond : options.debugLog with
  | some path => exact plain path (by simp [beyond])
  | none =>
    intro own
    have short := (owned_dash own).2
    have long : qemuDebugLogRel.length ≤ (joinPath inputs.root qemuDebugLogRel).length := by
      unfold joinPath
      split
      · exact Nat.le_refl _
      · split
        · rw [List.length_append]
          omega
        · rw [List.length_append,List.length_cons]
          omega
    have size : qemuDebugLogRel.length = 20 := by decide
    simp only [Option.getD_none] at short
    omega

theorem captureArgs_filter (plain : log ∉ engineOwnedFlags) : (captureArgs log).filter owned = captureFlags := by
  have front : ((captureArgs log).take 10).filter owned = captureFlags := by
    have same : (captureArgs log).take 10 = (captureArgs []).take 10 := rfl
    rw [same]
    decide
  have whole : captureArgs log = (captureArgs log).take 10 ++ [log] := rfl
  rw [whole,List.filter_append,front,List.filter_singleton,owned_false.mpr plain]
  rfl

theorem mediumArgs_filter (medium : BootMedium) (plain : ∀ path ∈ mediumPath medium, path ∉ engineOwnedFlags) :
    (mediumArgs medium).filter owned = mediumFlags medium := by
  cases medium with
  | iso path =>
    have here := owned_false.mpr (plain path (by simp [mediumPath]))
    have boot : ["-boot".toList,"d".toList].filter owned = ["-boot".toList] := by decide
    rw [mediumArgs,List.filter_cons_of_pos (by decide),List.filter_cons_of_neg (Bool.eq_false_iff.mp here),boot]
    rfl
  | kernel path =>
    have here := owned_false.mpr (plain path (by simp [mediumPath]))
    rw [mediumArgs,List.filter_cons_of_pos (by decide),List.filter_cons_of_neg (Bool.eq_false_iff.mp here)]
    rfl
  | disk path =>
    have here : owned ("file=".toList ++ path ++ ",format=raw,if=floppy".toList) = false := by
      rw [owned_false]
      intro own
      cases (owned_dash own).1
    rw [mediumArgs,List.filter_cons_of_pos (by decide),List.filter_cons_of_neg (Bool.eq_false_iff.mp here)]
    rfl

theorem dataArgs_filter (options : PlanOptions) (plain : ∀ path ∈ options.qemuDataDir.toList, path ∉ engineOwnedFlags) :
    (dataArgs options).filter owned = [] := by
  unfold dataArgs
  cases dir : options.qemuDataDir with
  | none => rfl
  | some data =>
    have here := owned_false.mpr (plain data (by simp [dir]))
    rw [List.filter_cons_of_neg (by decide),List.filter_cons_of_neg (Bool.eq_false_iff.mp here)]
    rfl

theorem stubArgs_filter (options : PlanOptions) : (stubArgs options).filter owned = stubArgs options := by
  unfold stubArgs
  split
  · decide
  · rfl

-- What stands before the capture arguments holds no owned flag but the medium's.
def before (inputs : PlanInputs) (medium : BootMedium) (options : PlanOptions) : List Text :=
  [options.qemuBin] ++ dataArgs options ++ (partitionArgs inputs.args).kept ++ mediumArgs medium

theorem before_filter (inputs : PlanInputs) (plain : ∀ path ∈ pathsOf medium options, path ∉ engineOwnedFlags) :
    (before inputs medium options).filter owned = mediumFlags medium := by
  have bin := owned_false.mpr (plain options.qemuBin (by simp [pathsOf]))
  have kept : (partitionArgs inputs.args).kept.filter owned = [] :=
    List.filter_eq_nil_iff.mpr fun token member => by simpa [owned] using partitionArgs_kept inputs.args token member
  rw [before,List.filter_append,List.filter_append,List.filter_append,kept,List.filter_singleton,bin,
    dataArgs_filter options fun path member => plain path (by simp [pathsOf,member]),
    mediumArgs_filter medium fun path member => plain path (by simp [pathsOf,member])]
  rfl

theorem planArgv_filter (inputs : PlanInputs) (plain : ∀ path ∈ pathsOf medium options, path ∉ engineOwnedFlags) :
    (planArgv inputs medium options).filter owned = usedFlags medium options := by
  have log := debugLogPath_plain inputs options fun path member => plain path (by simp [pathsOf,member])
  have whole : planArgv inputs medium options = before inputs medium options ++ captureArgs (debugLogPath inputs options) ++ stubArgs options := rfl
  rw [whole,List.filter_append,List.filter_append,before_filter inputs plain,captureArgs_filter log,stubArgs_filter]
  rfl

theorem usedFlags_nodup (medium : BootMedium) (options : PlanOptions) : (usedFlags medium options).Nodup := by
  unfold usedFlags stubArgs
  cases medium <;> split <;> simp only [mediumFlags] <;> decide

theorem planArgv_count (inputs : PlanInputs) (plain : ∀ path ∈ pathsOf medium options, path ∉ engineOwnedFlags)
    (flag : Text) (own : flag ∈ engineOwnedFlags) :
    (planArgv inputs medium options).count flag = if flag ∈ usedFlags medium options then 1 else 0 := by
  have here : owned flag = true := by simpa [owned] using own
  rw [← List.count_filter here,planArgv_filter inputs plain]
  split
  · rename_i used
    exact List.count_eq_one_of_mem (usedFlags_nodup medium options) used
  · rename_i unused
    exact List.count_eq_zero_of_not_mem unused

theorem planArgv_nographic (inputs : PlanInputs) (plain : ∀ path ∈ pathsOf medium options, path ∉ engineOwnedFlags) :
    "-nographic".toList ∉ planArgv inputs medium options := by
  have unused : "-nographic".toList ∉ usedFlags medium options := by
    unfold usedFlags stubArgs
    cases medium <;> split <;> simp only [mediumFlags] <;> decide
  have none := planArgv_count inputs plain "-nographic".toList (by decide)
  rw [if_neg unused] at none
  exact List.count_eq_zero.mp none

theorem mediumFlags_capture (medium : BootMedium) (capture : flag ∈ captureFlags) : flag ∉ mediumFlags medium := by
  have apart : ∀ flag ∈ captureFlags, flag ∉ ["-cdrom","-boot","-kernel","-drive"].map String.toList := by decide
  have inside : ∀ flag ∈ mediumFlags medium, flag ∈ ["-cdrom","-boot","-kernel","-drive"].map String.toList := by
    cases medium <;> simp only [mediumFlags] <;> decide
  exact fun member => apart flag capture (inside flag member)

theorem captureFlags_owned : ∀ flag ∈ captureFlags, flag ∈ engineOwnedFlags := by decide

-- The value behind a capture flag is the engine's: the flag stands nowhere before.
theorem planArgv_value (inputs : PlanInputs) (plain : ∀ path ∈ pathsOf medium options, path ∉ engineOwnedFlags)
    (captured rest : List Text) (capture : flag ∈ captureFlags) (front : flag ∉ captured)
    (split : captureArgs (debugLogPath inputs options) = captured ++ flag :: value :: rest) :
    valueAfter flag (planArgv inputs medium options) = some value := by
  have whole : planArgv inputs medium options =
      (before inputs medium options ++ captured) ++ flag :: value :: (rest ++ stubArgs options) := by
    change before inputs medium options ++ captureArgs (debugLogPath inputs options) ++ stubArgs options = _
    rw [split]
    simp
  have own : owned flag = true := by simpa [owned] using captureFlags_owned flag capture
  have absent : flag ∉ before inputs medium options := by
    intro member
    have inside : flag ∈ (before inputs medium options).filter owned := List.mem_filter.mpr ⟨member,own⟩
    rw [before_filter inputs plain] at inside
    exact mediumFlags_capture medium capture inside
  rw [whole]
  exact valueAfter_append _ (by simpa using ⟨absent,front⟩) _

theorem planArgv_log (inputs : PlanInputs) (medium : BootMedium) (options : PlanOptions) :
    "-D".toList ∈ planArgv inputs medium options := by
  have early : "-D".toList ∈ (captureArgs []).take 10 := by decide
  have inside : "-D".toList ∈ captureArgs (debugLogPath inputs options) := List.mem_of_mem_take (i:=10) early
  exact List.mem_append_left _ (List.mem_append_right _ inside)

theorem planArgv_contract (quoted : Text → Text) (inputs : PlanInputs)
    (plain : ∀ path ∈ pathsOf medium options, path ∉ engineOwnedFlags) :
    checkArgvContract quoted (planArgv inputs medium options) = .ok () := by
  have serial : valueAfter "-serial".toList (planArgv inputs medium options) = some "stdio".toList :=
    planArgv_value inputs plain ["-display".toList,"none".toList,"-monitor".toList,"none".toList] _ (by decide) (by decide) rfl
  have monitor : valueAfter "-monitor".toList (planArgv inputs medium options) = some "none".toList :=
    planArgv_value inputs plain ["-display".toList,"none".toList] _ (by decide) (by decide) rfl
  have display : valueAfter "-display".toList (planArgv inputs medium options) = some "none".toList :=
    planArgv_value inputs plain [] _ (by decide) (by decide) rfl
  have debug : valueAfter "-d".toList (planArgv inputs medium options) = some qemuDebugItems :=
    planArgv_value inputs plain
      ["-display".toList,"none".toList,"-monitor".toList,"none".toList,"-serial".toList,"stdio".toList,"-no-reboot".toList]
      _ (by decide) (by decide) rfl
  have nographic := planArgv_nographic inputs plain
  have log := planArgv_log inputs medium options
  generalize planArgv inputs medium options = argv at serial monitor display debug nographic log
  rw [checkArgvContract,if_neg nographic,checkPair,if_pos serial,checkPair,if_pos monitor,checkPair,if_pos display,
    checkPair,if_pos debug,if_neg (not_not.mpr log)]
  rfl

theorem planRun_argv (planned : planRun opened debugAssertions inputs medium options = some (.ok plan)) :
    plan.argv = planArgv inputs medium options := by
  unfold planRun at planned
  split at planned
  · cases planned
  · split at planned
    · cases planned
    · dsimp only at planned
      split at planned
      · cases planned
      · cases planned
        rfl

theorem asserted_planned (inputs : PlanInputs) (plain : ∀ path ∈ pathsOf medium options, path ∉ engineOwnedFlags) :
    asserted (planArgv inputs medium options) = true := by
  have serial := planArgv_count inputs plain "-serial".toList (by decide)
  have monitor := planArgv_count inputs plain "-monitor".toList (by decide)
  have used : ∀ flag ∈ captureFlags, flag ∈ usedFlags medium options := fun flag member =>
    List.mem_append_left _ (List.mem_append_right _ member)
  rw [if_pos (used _ (by decide))] at serial monitor
  have none : valueAfter "-monitor".toList (planArgv inputs medium options) = some "none".toList :=
    planArgv_value inputs plain ["-display".toList,"none".toList] _ (by decide) (by decide) rfl
  have apart : ¬ "none".toList = "stdio".toList := by decide
  have plainly : (planArgv inputs medium options).contains "-nographic".toList = false :=
    Bool.eq_false_iff.mpr fun inside => planArgv_nographic inputs plain (List.contains_iff_mem.mp inside)
  simp only [asserted,serial,monitor,none,plainly,Option.some.injEq,apart,and_false]
  decide

-- Where no path is itself an owned flag, a debug build plans what a release
-- build does.
theorem planRun_asserts (opened : Text → Except Text Bytes) (inputs : PlanInputs)
    (plain : ∀ path ∈ pathsOf medium options, path ∉ engineOwnedFlags) :
    planRun opened true inputs medium options = planRun opened false inputs medium options := by
  simp only [planRun,asserted_planned inputs plain,Bool.not_true,Bool.and_false]

theorem planRun_contract (opened : Text → Except Text Bytes) (debugAssertions : Bool) (quoted : Text → Text) (inputs : PlanInputs)
    (medium : BootMedium) (options : PlanOptions) (plan : RunPlan)
    (planned : planRun opened debugAssertions inputs medium options = some (.ok plan))
    (plain : ∀ path ∈ pathsOf medium options, path ∉ engineOwnedFlags) :
    checkArgvContract quoted plan.argv = .ok () ∧
      (∀ flag ∈ engineOwnedFlags, plan.argv.count flag = if flag ∈ usedFlags medium options then 1 else 0) ∧
      (partitionArgs inputs.args).kept <:+: plan.argv ∧ (partitionArgs inputs.args).kept.Sublist inputs.args ∧
      ((partitionArgs inputs.args).kept ++ (partitionArgs inputs.args).dropped).Perm inputs.args ∧
      partitionArgs (partitionArgs inputs.args).kept = ⟨(partitionArgs inputs.args).kept,[]⟩ := by
  rw [planRun_argv planned]
  refine ⟨planArgv_contract quoted inputs plain,planArgv_count inputs plain,?_,partitionArgs_sublist _,partitionArgs_perm _,
    partitionArgs_plain (partitionArgs_kept _)⟩
  refine ⟨[options.qemuBin] ++ dataArgs options,
    mediumArgs medium ++ captureArgs (debugLogPath inputs options) ++ stubArgs options,?_⟩
  simp [planArgv]

def isoInputs (args : List Text) : PlanInputs := ⟨"/proj".toList,"/proj".toList,args,15000,"com1".toList,none⟩
def isoOptions (dataDir : Option Text) : PlanOptions := ⟨none,none,none,dataDir,"/usr/bin/qemu-system-x86_64".toList⟩
def unopened : Text → Except Text Bytes := fun _ => .error []

def isoArgs : List Text := ["-m","512M","-serial","stdio","-display","none","-no-reboot","-smp","2"].map String.toList

def isoPlan : RunPlan :=
  ⟨planArgv (isoInputs isoArgs) (.iso "k.iso".toList) (isoOptions none),"/proj".toList,15000,⟨"com1".toList,none⟩,none⟩

theorem planRun_contract_iso : checkArgvContract id isoPlan.argv = .ok () ∧
    (∀ flag ∈ engineOwnedFlags, isoPlan.argv.count flag =
      if flag ∈ usedFlags (.iso "k.iso".toList) (isoOptions none) then 1 else 0) ∧
    (partitionArgs isoArgs).kept <:+: isoPlan.argv ∧ (partitionArgs isoArgs).kept.Sublist isoArgs ∧
    ((partitionArgs isoArgs).kept ++ (partitionArgs isoArgs).dropped).Perm isoArgs ∧
    partitionArgs (partitionArgs isoArgs).kept = ⟨(partitionArgs isoArgs).kept,[]⟩ :=
  planRun_contract unopened false id (isoInputs isoArgs) (.iso "k.iso".toList) (isoOptions none) isoPlan rfl (by decide)

-- A plan carries the flags of one medium only, and a path that is spelled like a
-- flag is taken for it.
theorem planRun_contract_flags :
    (∃ plan, planRun unopened true (isoInputs isoArgs) (.iso "k.iso".toList) (isoOptions none) = some (.ok plan) ∧
      ¬ ∀ flag ∈ engineOwnedFlags, plan.argv.count flag = 1) ∧
    ∃ plan, planRun unopened true (isoInputs []) (.iso "k.iso".toList) (isoOptions (some "-display".toList)) = some (.ok plan) ∧
      checkArgvContract id plan.argv ≠ .ok () := by
  refine ⟨⟨isoPlan,by decide +kernel,by decide +kernel⟩,?_⟩
  refine ⟨⟨planArgv (isoInputs []) (.iso "k.iso".toList) (isoOptions (some "-display".toList)),"/proj".toList,15000,
    ⟨"com1".toList,none⟩,none⟩,by decide +kernel,?_⟩
  intro passes
  exact absurd (congrArg Except.isOk passes) (by decide +kernel)

end PrincessIDE.Qemu
