import PrincessIDE.Run.Qemu

namespace PrincessIDE.Qemu
open Utf8 Str Error RunBackend

def valueless : List Text := ["-nographic","-no-reboot","-s","-S"].map String.toList

-- This occurrence of an argument is among the kept ones.
def Keeps (front : List Text) (arg : Text) (back : List Text) : Prop :=
  (partitionArgs (front ++ arg :: back)).kept = (partitionArgs front).kept ++ arg :: (partitionArgs back).kept

structure DropsValues (args : List Text) : Prop where
  -- What is dropped and no owned flag is the value of one that takes a value.
  values : ∀ front arg back, args = front ++ arg :: back → arg ∉ engineOwnedFlags → ¬ Keeps front arg back →
    ∃ before flag, front = before ++ [flag] ∧ flag ∈ engineOwnedFlags ∧ flag ∉ valueless
  kept : ∀ front flag arg back, args = front ++ flag :: arg :: back → flag ∈ valueless → arg ∉ engineOwnedFlags →
    Keeps (front++[flag]) arg back

@[simp] theorem keep_kept (token : Text) (p : PartitionedArgs) : (p.keep token).kept = token :: p.kept := rfl
@[simp] theorem drop_kept (tokens : List Text) (p : PartitionedArgs) : (p.drop tokens).kept = p.kept := rfl

theorem partitionArgs_last (own : token ∈ engineOwnedFlags) : partitionArgs [token] = ⟨[],[token]⟩ := by
  rw [partitionArgs.eq_2,if_pos (List.contains_iff_mem.mpr own)]

theorem partitionArgs_alone (own : token ∈ engineOwnedFlags) (flag : startsWith ['-'] value = true) (rest : List Text) :
    partitionArgs (token :: value :: rest) = (partitionArgs (value::rest)).drop [token] := by
  rw [partitionArgs,if_pos (List.contains_iff_mem.mpr own),if_pos flag]

theorem partitionArgs_taken (own : token ∈ engineOwnedFlags) (solid : ¬ startsWith ['-'] value = true) (rest : List Text) :
    partitionArgs (token :: value :: rest) = (partitionArgs rest).drop [token,value] := by
  rw [partitionArgs,if_pos (List.contains_iff_mem.mpr own),if_neg solid]

theorem partitionArgs_free (free : token ∉ engineOwnedFlags) (rest : List Text) :
    partitionArgs (token :: rest) = (partitionArgs rest).keep token := by
  have plain : ¬ engineOwnedFlags.contains token = true := fun own => free (List.contains_iff_mem.mp own)
  cases rest with
  | nil => rw [partitionArgs.eq_2,if_neg plain]; rfl
  | cons value rest => rw [partitionArgs,if_neg plain]

-- An argument is swallowed by the owned flag right before it.
def swallows (front : List Text) (arg : Text) : Bool := front.getLast?.any owned && !startsWith ['-'] arg

theorem swallows_cons (token value : Text) (rest : List Text) (arg : Text) : swallows (token::value::rest) arg = swallows (value::rest) arg := by
  rw [swallows,swallows,List.getLast?_cons_cons]

theorem solid_free (solid : ¬ startsWith ['-'] value = true) : value ∉ engineOwnedFlags := by
  intro inside
  have start := (owned_dash inside).1
  cases value with
  | nil => cases start
  | cons c value =>
    cases start
    exact solid (by simp [startsWith,stripPrefix])

theorem swallows_solid (solid : ¬ startsWith ['-'] value = true) (rest : List Text) (arg : Text) :
    swallows (value::rest) arg = swallows rest arg := by
  cases rest with
  | cons next rest => exact swallows_cons value next rest arg
  | nil =>
    have apart := owned_false.mpr (solid_free solid)
    simp [swallows,apart]

theorem partitionArgs_split (free : arg ∉ engineOwnedFlags) (front back : List Text) :
    (partitionArgs (front ++ arg :: back)).kept =
      (partitionArgs front).kept ++ (if swallows front arg then [] else [arg]) ++ (partitionArgs back).kept := by
  induction front using partitionArgs.induct with
  | case1 =>
    rw [List.nil_append,partitionArgs_free free]
    rfl
  | case2 token own =>
    have mine : owned token = true := own
    have own := List.contains_iff_mem.mp own
    rw [List.singleton_append,partitionArgs_last own]
    by_cases flag : startsWith ['-'] arg = true
    · rw [partitionArgs_alone own flag,partitionArgs_free free]
      simp [swallows,flag]
    · rw [partitionArgs_taken own flag]
      simp [swallows,flag,mine]
  | case3 token plain =>
    have other : owned token = false := Bool.eq_false_iff.mpr plain
    have apart := owned_false.mp other
    rw [List.singleton_append,partitionArgs_free apart,partitionArgs_free free,partitionArgs_free apart]
    simp [swallows,other,partitionArgs]
  | case4 token value rest own flag ih =>
    have own := List.contains_iff_mem.mp own
    rw [swallows_cons,List.cons_append,List.cons_append,partitionArgs_alone own flag,partitionArgs_alone own flag]
    exact ih
  | case5 token value rest own solid ih =>
    have own := List.contains_iff_mem.mp own
    rw [swallows_cons,swallows_solid solid,List.cons_append,List.cons_append,partitionArgs_taken own solid,partitionArgs_taken own solid]
    exact ih
  | case6 token value rest plain ih =>
    have apart : token ∉ engineOwnedFlags := fun inside => plain (List.contains_iff_mem.mpr inside)
    rw [swallows_cons,List.cons_append,partitionArgs_free apart,partitionArgs_free apart]
    exact congrArg (token :: ·) ih

theorem keeps_iff (free : arg ∉ engineOwnedFlags) (front back : List Text) : Keeps front arg back ↔ swallows front arg = false := by
  rw [Keeps,partitionArgs_split free]
  cases swallows front arg with
  | false => simp
  | true =>
    refine iff_of_false (fun same => ?_) (by simp)
    have lengths := congrArg List.length same
    simp at lengths

-- The partition drops values only exactly where every flag without a value is
-- followed by nothing or by something that looks like a flag.
theorem drops_values_iff (args : List Text) : DropsValues args ↔
    ∀ front flag arg back, args = front ++ flag :: arg :: back → flag ∈ valueless → startsWith ['-'] arg = true := by
  have bare : ∀ flag ∈ valueless, owned flag = true := by
    have all : valueless.all owned = true := by decide
    exact fun flag member => List.all_eq_true.mp all flag member
  have behind : ∀ front flag arg, owned flag = true → swallows (front++[flag]) arg = !startsWith ['-'] arg := by
    intro front flag arg own
    rw [swallows,List.getLast?_concat,Option.any_some,own,Bool.true_and]
  constructor
  · intro drops front flag arg back split member
    by_contra solid
    have keeps := drops.kept front flag arg back split member (solid_free solid)
    rw [keeps_iff (solid_free solid),behind front flag arg (bare flag member)] at keeps
    simp [solid] at keeps
  · intro followed
    refine ⟨?_,?_⟩
    · intro front arg back split free lost
      rw [keeps_iff free,Bool.not_eq_false,swallows,Bool.and_eq_true] at lost
      obtain ⟨some,solid⟩ := lost
      rcases List.eq_nil_or_concat front with rfl | ⟨before,flag,rfl⟩
      · cases some
      · rw [List.concat_eq_append] at split some ⊢
        rw [List.getLast?_concat,Option.any_some] at some
        refine ⟨before,flag,rfl,List.contains_iff_mem.mp some,fun member => ?_⟩
        rw [followed before flag arg back (by simp [split]) member] at solid
        cases solid
    · intro front flag arg back split member free
      rw [keeps_iff free,behind front flag arg (bare flag member),followed front flag arg back split member]
      rfl

def swallowedArgs : List Text := ["-nographic","disk.img"].map String.toList

theorem image_swallowed : ¬ ∀ args, DropsValues args := by
  intro claim
  have keeps := (claim swallowedArgs).kept [] "-nographic".toList "disk.img".toList [] rfl (by decide) (by decide)
  exact absurd keeps (by unfold Keeps; decide)

-- How QEMU reads its arguments: an option takes the token behind it where the
-- option table says so, and anything without a dash is an image.
structure Reading where
  pending : Option Text
  devices : List Text
deriving DecidableEq, Repr

-- `--name` is read as `-name`.
def optionName : Text → Option Text
  | '-' :: '-' :: name => some name
  | '-' :: name => some name
  | _ => none

def shorthandDevice : Text := "tcp::1234".toList

def readToken (takesValue : Text → Bool) (r : Reading) (token : Text) : Reading := match r.pending with
  | some name => ⟨none,r.devices ++ if name = "gdb".toList then [token] else []⟩
  | none => match optionName token with
    | none => r
    | some name =>
      if name = ['s'] then ⟨none,r.devices ++ [shorthandDevice]⟩
      else if takesValue name then ⟨some name,r.devices⟩
      else r

-- The GDB devices that an argument vector opens.
def gdbDevices (takesValue : Text → Bool) (args : List Text) : List Text := (args.foldl (readToken takesValue) ⟨none,[]⟩).devices

-- What QEMU's option table says of the capture flags.
structure Documented (takesValue : Text → Bool) : Prop where
  valued : ∀ name ∈ ["display","monitor","serial","d","D"].map String.toList, takesValue name = true
  bare : takesValue "no-reboot".toList = false

-- A device `tcp:host:port` listens at the endpoint; with no host it does so on every address.
def Listens (stub : GdbStub) (device : Text) : Prop :=
  ∃ host, (host = [] ∨ host = stub.host) ∧ device = "tcp:".toList ++ host ++ ':' :: decimal stub.port

-- The arguments of a plan but the engine's own `-s`.
def otherArgs (inputs : PlanInputs) (medium : BootMedium) (options : PlanOptions) : List Text :=
  dataArgs options ++ (partitionArgs inputs.args).kept ++ mediumArgs medium ++ captureArgs (debugLogPath inputs options)

-- The reported endpoint is the one that the planned vector opens.
def Opens (takesValue : Text → Bool) (plan : RunPlan) : Prop := match plan.gdbStub with
  | none => gdbDevices takesValue plan.argv.tail = []
  | some stub => gdbDevices takesValue plan.argv.tail ≠ [] ∧ ∀ device ∈ gdbDevices takesValue plan.argv.tail, Listens stub device

theorem pair_reads (named : optionName token = some name) (valued : takesValue name = true) (other : name ≠ ['s'] ∧ name ≠ "gdb".toList)
    (devices : List Text) (value : Text) (rest : List Text) :
    (token :: value :: rest).foldl (readToken takesValue) ⟨none,devices⟩ = rest.foldl (readToken takesValue) ⟨none,devices⟩ := by
  have first : readToken takesValue ⟨none,devices⟩ token = ⟨some name,devices⟩ := by simp [readToken,named,valued,other.1]
  have second : readToken takesValue ⟨some name,devices⟩ value = ⟨none,devices⟩ := by
    simp only [readToken]
    rw [if_neg other.2,List.append_nil]
  rw [List.foldl_cons,List.foldl_cons,first,second]

-- Behind its first two tokens the capture flags are read as they are meant,
-- whatever the arguments before them left open.
theorem capture_reads (documented : Documented takesValue) (r : Reading) (log : Text) :
    ((captureArgs log).foldl (readToken takesValue) r).pending = none := by
  obtain ⟨devices,settled⟩ : ∃ devices, ["-display".toList,"none".toList].foldl (readToken takesValue) r = ⟨none,devices⟩ := by
    obtain ⟨pending,devices⟩ := r
    cases pending with
    | none => exact ⟨devices,pair_reads rfl (documented.valued _ (by decide)) (by decide) devices _ []⟩
    | some name => exact ⟨_,rfl⟩
  have rebooted : readToken takesValue ⟨none,devices⟩ "-no-reboot".toList = ⟨none,devices⟩ := by
    have named : optionName "-no-reboot".toList = some "no-reboot".toList := rfl
    simp only [readToken,named,documented.bare]
    rfl
  have split : captureArgs log = ["-display".toList,"none".toList] ++ ["-monitor".toList,"none".toList,"-serial".toList,"stdio".toList,
      "-no-reboot".toList,"-d".toList,qemuDebugItems,"-D".toList,log] := rfl
  rw [split,List.foldl_append,settled,pair_reads rfl (documented.valued _ (by decide)) (by decide),
    pair_reads rfl (documented.valued _ (by decide)) (by decide),List.foldl_cons,rebooted,
    pair_reads rfl (documented.valued _ (by decide)) (by decide),pair_reads rfl (documented.valued _ (by decide)) (by decide)]
  rfl

theorem decimal_inj (same : decimal m = decimal n) : m = n := by
  have one := readDigits_decimal (Nat.lt_succ_of_le (Nat.le_max_left m n))
  have two := readDigits_decimal (Nat.lt_succ_of_le (Nat.le_max_right m n))
  rw [same,two] at one
  exact (Option.some.inj one).symm

theorem listens_shorthand (stub : GdbStub) : Listens stub shorthandDevice ↔ stub.port = 1234 := by
  constructor
  · rintro ⟨host,_,same⟩
    have start : shorthandDevice = "tcp:".toList ++ (':' :: decimal 1234) := by decide
    rw [start,List.append_assoc] at same
    have rest := List.append_cancel_left same
    cases host with
    | nil => exact (decimal_inj (List.cons.inj rest).2).symm
    | cons c host =>
      have inside : ':' ∈ decimal 1234 := by
        rw [(List.cons.inj rest).2]
        simp
      exact absurd (decimal_isDigit inside).2 (by decide)
  · intro port
    refine ⟨[],.inl rfl,?_⟩
    rw [port]
    decide

theorem planArgv_reads (documented : Documented takesValue) (inputs : PlanInputs) (medium : BootMedium) (options : PlanOptions) :
    gdbDevices takesValue (planArgv inputs medium options).tail =
      gdbDevices takesValue (otherArgs inputs medium options) ++ if options.gdbStub.isSome then [shorthandDevice] else [] := by
  have split : (planArgv inputs medium options).tail = otherArgs inputs medium options ++ stubArgs options := by
    simp [planArgv,otherArgs]
  have settled : ((otherArgs inputs medium options).foldl (readToken takesValue) ⟨none,[]⟩).pending = none := by
    rw [otherArgs,List.foldl_append]
    exact capture_reads documented _ _
  rw [split,gdbDevices,gdbDevices,List.foldl_append]
  generalize (otherArgs inputs medium options).foldl (readToken takesValue) ⟨none,[]⟩ = r at settled ⊢
  unfold stubArgs
  cases options.gdbStub with
  | none => simp
  | some stub =>
    have named : optionName "-s".toList = some ['s'] := rfl
    change (readToken takesValue r "-s".toList).devices = _
    simp only [readToken,settled,named]
    rfl

theorem planRun_stub (planned : planRun opened debugAssertions inputs medium options = some (.ok plan)) : plan.gdbStub = options.gdbStub := by
  unfold planRun at planned
  split at planned
  · cases planned
  · split at planned
    · cases planned
    · dsimp only at planned
      split at planned
      · cases planned
      · cases planned
        rfl

-- Only these four spellings reach the stub, and the partition knows two of them.
theorem gdbDevices_none (takesValue : Text → Bool)
    (quiet : ∀ token ∈ args, optionName token ≠ some ['s'] ∧ optionName token ≠ some "gdb".toList) : gdbDevices takesValue args = [] := by
  have run : ∀ r : Reading, r.pending ≠ some "gdb".toList → r.devices = [] → (args.foldl (readToken takesValue) r).devices = [] := by
    induction args with
    | nil => exact fun _ _ none => none
    | cons token args ih =>
      obtain ⟨here,later⟩ := List.forall_mem_cons.mp quiet
      intro r pending none
      obtain ⟨pending',none'⟩ : (readToken takesValue r token).pending ≠ some "gdb".toList ∧ (readToken takesValue r token).devices = [] := by
        unfold readToken
        cases waiting : r.pending with
        | some name =>
          rw [waiting] at pending
          have other : name ≠ "gdb".toList := fun same => pending (congrArg some same)
          dsimp only
          rw [if_neg other,none]
          exact ⟨by simp,rfl⟩
        | none =>
          cases named : optionName token with
          | none => exact ⟨pending,none⟩
          | some name =>
            rw [named] at here
            have other : name ≠ ['s'] := fun same => here.1 (congrArg some same)
            dsimp only
            rw [if_neg other]
            split
            · exact ⟨here.2,none⟩
            · exact ⟨pending,none⟩
      exact ih later _ pending' none'
  exact run ⟨none,[]⟩ (by simp) rfl

-- The part of QEMU's option table that these plans need.
def optionTable (name : Text) : Bool := (["L","m","smp","cdrom","boot","kernel","drive","display","monitor","serial","d","D","gdb"].map String.toList).contains name

theorem optionTable_documented : Documented optionTable := ⟨by decide,by decide⟩

def stubOptions (port : Nat) : PlanOptions :=
  ⟨none,some ⟨"127.0.0.1".toList,port⟩,none,none,"/usr/bin/qemu-system-x86_64".toList⟩

def stubPlan (port : Nat) : RunPlan :=
  ⟨planArgv (isoInputs isoArgs) (.iso "k.iso".toList) (stubOptions port),"/proj".toList,15000,⟨"com1".toList,none⟩,(stubOptions port).gdbStub⟩

end PrincessIDE.Qemu
