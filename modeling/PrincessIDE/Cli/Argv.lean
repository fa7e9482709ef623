import PrincessIDE.Cli.Run
import PrincessIDE.Foundation.Lexical

namespace PrincessIDE.CliRun
open Utf8 (Text)
open Str Error Qemu RunBackend

-- The places of the arguments that `partition_args` drops.
def dropMarks : List Text → List Bool
  | [] => []
  | [token] => [CliRun.engineOwnedFlags.contains token]
  | token :: value :: rest =>
    if CliRun.engineOwnedFlags.contains token then
      if startsWith ['-'] value then true :: dropMarks (value::rest)
      else true :: true :: dropMarks rest
    else false :: dropMarks (value::rest)

-- What stands at the places with a mark, or at those without.
def pick (mark : Bool) (args : List Text) (marks : List Bool) : List Text := ((args.zip marks).filter fun row => row.2 == mark).map Prod.fst

theorem pick_cons (mark other : Bool) (token : Text) (args : List Text) (marks : List Bool) :
    pick mark (token::args) (other::marks) = if other = mark then token :: pick mark args marks else pick mark args marks := by
  unfold pick
  rw [List.zip_cons_cons]
  by_cases same : other = mark
  · rw [if_pos same,List.filter_cons_of_pos (by simpa using same)]
    rfl
  · rw [if_neg same,List.filter_cons_of_neg (by simpa using same)]

theorem partitionArgs_marks (args : List Text) :
    CliRun.partitionArgs args = ⟨pick false args (dropMarks args),pick true args (dropMarks args)⟩ := by
  induction args using dropMarks.induct with
  | case1 => rfl
  | case2 token =>
    rw [CliRun.partitionArgs,dropMarks,pick_cons,pick_cons]
    cases CliRun.engineOwnedFlags.contains token <;> rfl
  | case3 token value rest own flag ih =>
    rw [CliRun.partitionArgs,dropMarks,if_pos own,if_pos flag,if_pos own,if_pos flag,ih]
    simp [PartitionedArgs.drop,pick_cons]
  | case4 token value rest own solid ih =>
    rw [CliRun.partitionArgs,dropMarks,if_pos own,if_neg solid,if_pos own,if_neg solid,ih]
    simp [PartitionedArgs.drop,pick_cons]
  | case5 token value rest free ih =>
    rw [CliRun.partitionArgs,dropMarks,if_neg free,if_neg free,ih]
    simp [PartitionedArgs.keep,pick_cons]

-- The same marks, by what the token in front was.
def marksBehind : Bool → List Text → List Bool
  | _,[] => []
  | flagged,token::rest => (CliRun.engineOwnedFlags.contains token || flagged && !startsWith ['-'] token) ::
      marksBehind (CliRun.engineOwnedFlags.contains token) rest

theorem owned_dash (own : token ∈ CliRun.engineOwnedFlags) : startsWith ['-'] token = true := by
  have all : ∀ token ∈ CliRun.engineOwnedFlags, startsWith ['-'] token = true := by decide
  exact all token own

theorem marksBehind_flag (flag : startsWith ['-'] value = true) (flagged : Bool) (rest : List Text) :
    marksBehind flagged (value::rest) = marksBehind false (value::rest) := by
  rw [marksBehind,marksBehind,flag,Bool.not_true,Bool.and_false,Bool.and_false]

theorem dropMarks_behind (args : List Text) : dropMarks args = marksBehind false args := by
  induction args using dropMarks.induct with
  | case1 => rfl
  | case2 token => rw [dropMarks,marksBehind,marksBehind,Bool.false_and,Bool.or_false]
  | case3 token value rest own flag ih =>
    rw [dropMarks,if_pos own,if_pos flag,marksBehind,own,marksBehind_flag flag,ih]
    rfl
  | case4 token value rest own solid ih =>
    have free : CliRun.engineOwnedFlags.contains value = false := by
      rw [← Bool.not_eq_true,List.contains_iff_mem]
      exact fun inside => solid (CliRun.owned_dash inside)
    rw [dropMarks,if_pos own,if_neg solid,marksBehind,own,marksBehind,free,ih,Bool.eq_false_iff.mpr solid]
    rfl
  | case5 token value rest free ih =>
    rw [dropMarks,if_neg free,marksBehind,Bool.eq_false_iff.mpr free,ih]
    rfl

theorem marksBehind_get (flagged : Bool) (args : List Text) (i : Nat) : (marksBehind flagged args)[i]? = some true ↔
    ∃ token, args[i]? = some token ∧ (token ∈ CliRun.engineOwnedFlags ∨ startsWith ['-'] token = false ∧
      (i = 0 ∧ flagged = true ∨ ∃ j flag, i = j+1 ∧ args[j]? = some flag ∧ flag ∈ CliRun.engineOwnedFlags)) := by
  induction args generalizing flagged i with
  | nil => simp [marksBehind]
  | cons token args ih =>
    rw [marksBehind]
    cases i with
    | zero => simp [and_comm]
    | succ i =>
      rw [List.getElem?_cons_succ,ih,List.getElem?_cons_succ]
      refine exists_congr fun next => and_congr_right fun _ => or_congr_right (and_congr_right fun _ => ?_)
      constructor
      · rintro (⟨rfl,own⟩ | ⟨j,flag,rfl,at',own⟩)
        · exact .inr ⟨0,token,rfl,rfl,List.contains_iff_mem.mp own⟩
        · exact .inr ⟨j+1,flag,rfl,at',own⟩
      · rintro (⟨no,_⟩ | ⟨j,flag,same,at',own⟩)
        · cases no
        · cases same
          cases i with
          | zero =>
            cases at'
            exact .inl ⟨rfl,List.contains_iff_mem.mpr own⟩
          | succ i => exact .inr ⟨i,flag,rfl,at',own⟩

-- What is dropped is an owned flag, or stands behind one and is not written as a flag.
theorem dropMarks_get (args : List Text) (i : Nat) : (dropMarks args)[i]? = some true ↔
    ∃ token, args[i]? = some token ∧ (token ∈ CliRun.engineOwnedFlags ∨ startsWith ['-'] token = false ∧
      ∃ j flag, i = j+1 ∧ args[j]? = some flag ∧ flag ∈ CliRun.engineOwnedFlags) := by
  simp only [dropMarks_behind,marksBehind_get,Bool.false_eq_true,and_false,false_or]

-- The owned flags that QEMU reads a value behind, and those that it does not.
def valuedFlags : List Text := ["-serial","-monitor","-display","-d","-D","-cdrom","-boot","-kernel"].map String.toList
def bareFlags : List Text := ["-nographic","-no-reboot"].map String.toList

theorem owned_iff : flag ∈ CliRun.engineOwnedFlags ↔ flag ∈ valuedFlags ∨ flag ∈ bareFlags := by
  have perm : CliRun.engineOwnedFlags.Perm (valuedFlags ++ bareFlags) := by decide
  rw [perm.mem_iff,List.mem_append]

theorem valued_bare (valued : flag ∈ valuedFlags) : flag ∉ bareFlags := by
  have apart : ∀ flag ∈ valuedFlags, flag ∉ bareFlags := by decide
  exact apart flag valued

def stubFlag : Text := "-s".toList
def gdbFlag : Text := "-gdb".toList

-- What a plan should do with the arguments and say of the debugger's port.
structure Faithful (args : List Text) (plan : RunPlan) : Prop where
  argv : ∃ front back, plan.argv = front ++ pick false args (dropMarks args) ++ back
  dropped : ∀ i token, (dropMarks args)[i]? = some true → args[i]? = some token → token ∉ CliRun.engineOwnedFlags →
    ∃ j flag, i = j+1 ∧ args[j]? = some flag ∧ flag ∈ valuedFlags
  opened : plan.gdbStub.isSome = true ↔ stubFlag ∈ plan.argv ∨ gdbFlag ∈ plan.argv
  port : stubFlag ∈ plan.argv → ∀ stub ∈ plan.gdbStub, stub.port = 1234

-- No word that could be a value stands behind a flag that has none.
def Spared (args : List Text) : Prop := ∀ j flag token, args[j]? = some flag → flag ∈ bareFlags → args[j+1]? = some token →
  startsWith ['-'] token = true

-- Texts are compared as lists of characters, also where they are looked up.
local instance textLawful : LawfulBEq Text := inferInstanceAs (LawfulBEq (List Char))

-- With `-s` the configured port is the one it opens; without it nothing in the
-- command line is read as opening one.
def Agrees (project : Project) (medium : BootMedium) (qemu : Text) : Prop :=
  if stubFlag ∈ project.args then project.stub.port = 1234
  else gdbFlag ∉ project.args ∧ ∀ word ∈ [qemu] ++ CliRun.dataArgs project ++ mediumArgs medium, word ≠ stubFlag ∧ word ≠ gdbFlag

theorem dropped_iff (args : List Text) : (∀ i token, (dropMarks args)[i]? = some true → args[i]? = some token → token ∉ CliRun.engineOwnedFlags →
    ∃ j flag, i = j+1 ∧ args[j]? = some flag ∧ flag ∈ valuedFlags) ↔ Spared args := by
  constructor
  · intro dropped j flag token before bare behind
    by_contra solid
    have marked : (dropMarks args)[j+1]? = some true :=
      (dropMarks_get args (j+1)).mpr ⟨token,behind,.inr ⟨Bool.eq_false_iff.mpr solid,j,flag,rfl,before,owned_iff.mpr (.inr bare)⟩⟩
    obtain ⟨k,other,same,found,valued⟩ := dropped (j+1) token marked behind fun own => solid (CliRun.owned_dash own)
    obtain rfl : j = k := Nat.succ.inj same
    cases before.symm.trans found
    exact valued_bare valued bare
  · intro spared i token marked here free
    obtain ⟨found,at',reason⟩ := (dropMarks_get args i).mp marked
    cases here.symm.trans at'
    obtain ⟨solid,j,flag,rfl,before,own⟩ := reason.resolve_left free
    refine ⟨j,flag,rfl,before,(owned_iff.mp own).resolve_right fun bare => ?_⟩
    rw [spared j flag token before bare here] at solid
    cases solid

theorem mem_kept (free : token ∉ CliRun.engineOwnedFlags) (flag : startsWith ['-'] token = true) (args : List Text) :
    token ∈ (CliRun.partitionArgs args).kept ↔ token ∈ args := by
  induction args using CliRun.partitionArgs.induct with
  | case1 => rfl
  | case2 other own =>
    rw [CliRun.partitionArgs,if_pos own,List.mem_singleton]
    exact ⟨fun no => (nomatch no),fun same => absurd (same ▸ List.contains_iff_mem.mp own) free⟩
  | case3 other plain => rw [CliRun.partitionArgs,if_neg plain]
  | case4 other value rest own dash ih =>
    rw [CliRun.partitionArgs,if_pos own,if_pos dash,List.mem_cons]
    refine ih.trans (or_iff_right fun same => ?_).symm
    exact free (same ▸ List.contains_iff_mem.mp own)
  | case5 other value rest own solid ih =>
    rw [CliRun.partitionArgs,if_pos own,if_neg solid,List.mem_cons,List.mem_cons]
    refine ih.trans ?_
    have here : token ≠ other := fun same => free (same ▸ List.contains_iff_mem.mp own)
    have next : token ≠ value := fun same => solid (same ▸ flag)
    rw [or_iff_right here,or_iff_right next]
  | case6 other value rest plain ih =>
    rw [CliRun.partitionArgs,if_neg plain,List.mem_cons]
    exact (List.mem_cons.trans (or_congr_right ih))

theorem captured_apart (project : Project) : ∀ word ∈ captureArgs (CliRun.qemuDebugLog project), word ≠ stubFlag ∧ word ≠ gdbFlag := by
  have log : CliRun.qemuDebugLog project ≠ stubFlag ∧ CliRun.qemuDebugLog project ≠ gdbFlag := by
    have relative : Path.isAbsolute "qemu-debug.log".toList ≠ true := by decide
    obtain ⟨front,cut⟩ := Path.join_relative relative (Path.join project.root "build".toList)
    rw [CliRun.qemuDebugLog,cut]
    constructor
    all_goals
      intro same
      have length := congrArg List.length same
      simp [stubFlag,gdbFlag] at length
  intro word member
  rcases List.mem_append.mp (show word ∈ (captureArgs []).dropLast ++ [CliRun.qemuDebugLog project] from member) with fixed | last
  · have apart : ∀ word ∈ (captureArgs []).dropLast, word ≠ stubFlag ∧ word ≠ gdbFlag := by decide
    exact apart word fixed
  · rw [List.mem_singleton.mp last]
    exact log

-- The words of the command line in which a flag can stand.
theorem mem_argv (planned : planRun project medium options = .ok plan) (named : project.qemu = some qemu)
    (word : flag = stubFlag ∨ flag = gdbFlag) : flag ∈ plan.argv ↔
      flag ∈ project.args ∨ flag ∈ [qemu] ++ CliRun.dataArgs project ++ mediumArgs medium := by
  have free : flag ∉ CliRun.engineOwnedFlags := by rcases word with rfl | rfl <;> decide
  have dash : startsWith ['-'] flag = true := by rcases word with rfl | rfl <;> rfl
  have outside : flag ∉ captureArgs (CliRun.qemuDebugLog project) := by
    intro inside
    have apart := captured_apart project flag inside
    rcases word with rfl | rfl
    · exact apart.1 rfl
    · exact apart.2 rfl
  rw [planRun,named] at planned
  cases planned
  simp only [List.mem_append,mem_kept free dash,outside,or_false]
  tauto

theorem planned_faithful_iff (planned : planRun project medium options = .ok plan) (named : project.qemu = some qemu) :
    Faithful project.args plan ↔ Spared project.args ∧ Agrees project medium qemu := by
  have stub := mem_argv planned named (.inl rfl)
  have gdb := mem_argv planned named (.inr rfl)
  have told : plan.gdbStub = if stubFlag ∈ project.args then some project.stub else none := by
    rw [planRun,named] at planned
    cases planned
    simp only [List.contains_iff_mem]
    rfl
  have argv : ∃ front back, plan.argv = front ++ pick false project.args (dropMarks project.args) ++ back := by
    rw [planRun,named,partitionArgs_marks] at planned
    cases planned
    exact ⟨_,_,List.append_assoc _ _ _⟩
  have agrees : ((plan.gdbStub.isSome = true ↔ stubFlag ∈ plan.argv ∨ gdbFlag ∈ plan.argv) ∧
      (stubFlag ∈ plan.argv → ∀ stub ∈ plan.gdbStub, stub.port = 1234)) ↔ Agrees project medium qemu := by
    rw [told,Agrees]
    by_cases given : stubFlag ∈ project.args
    · rw [if_pos given,if_pos given]
      have here : stubFlag ∈ plan.argv := stub.mpr (.inl given)
      simp [here]
    · rw [if_neg given,if_neg given]
      simp only [stub,gdb,given,false_or,Option.isSome_none,Bool.false_eq_true,false_iff,not_or,Option.not_mem_none,false_imp_iff,implies_true,and_true]
      constructor
      · rintro ⟨noStub,noGdb,later⟩
        exact ⟨noGdb,fun word inside => ⟨fun same => noStub (same ▸ inside),fun same => later (same ▸ inside)⟩⟩
      · rintro ⟨noGdb,apart⟩
        exact ⟨fun inside => (apart _ inside).1 rfl,noGdb,fun inside => (apart _ inside).2 rfl⟩
  rw [← agrees,← dropped_iff]
  exact ⟨fun faithful => ⟨faithful.dropped,faithful.opened,faithful.port⟩,fun parts => ⟨argv,parts.1,parts.2.1,parts.2.2⟩⟩

theorem planRun_faithful_iff (project : Project) (medium : BootMedium) (options : CliRun.RunOptions) :
    (∀ plan, planRun project medium options = .ok plan → Faithful project.args plan) ↔
      ∀ qemu, project.qemu = some qemu → Spared project.args ∧ Agrees project medium qemu := by
  constructor
  · intro all qemu named
    obtain ⟨plan,planned⟩ : ∃ plan, planRun project medium options = .ok plan := by
      rw [planRun,named]
      exact ⟨_,rfl⟩
    exact (planned_faithful_iff planned named).mp (all plan planned)
  · intro good plan planned
    cases named : project.qemu with
    | none =>
      rw [planRun,named] at planned
      cases planned
    | some qemu => exact (planned_faithful_iff planned named).mpr (good qemu named)

def gdbProject : Project := {
  qemu:=some "/usr/bin/qemu-system-x86_64".toList
  qemuDataDir:=none
  root:="/w".toList
  buildCwd:="/w".toList
  args:=["-nographic","disk.img","-gdb","tcp::1234"].map String.toList
  timeoutMs:=1000
  stub:=⟨"127.0.0.1".toList,1234⟩
  serial:=⟨"com1".toList,none⟩}

-- The disk image goes with the flag in front of it, and no stub is told of.
theorem gdbProject_unfaithful : ∃ plan, planRun gdbProject (.kernel "/w/k.elf".toList) ⟨none,none,false⟩ = .ok plan ∧
    "disk.img".toList ∉ plan.argv ∧ gdbFlag ∈ plan.argv ∧ plan.gdbStub = none ∧ ¬ Faithful gdbProject.args plan := by
  refine ⟨_,rfl,by decide +kernel,by decide +kernel,rfl,fun faithful => ?_⟩
  have told := faithful.opened.mpr (.inr (by decide +kernel))
  cases told

end PrincessIDE.CliRun
