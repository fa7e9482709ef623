import PrincessIDE.Debug.Capability
import PrincessIDE.Foundation.Words

namespace PrincessIDE.Arch
open Utf8 Str Error Dap Effect

def pointerBits : ElfClass → Nat
  | .elf32 => 32
  | .elf64 => 64

def asStr : ElfClass → Text
  | .elf32 => "elf32".toList
  | .elf64 => "elf64".toList

def machineName (machine : Nat) : Text × Bool :=
  if machine = 3 then ("EM_386".toList,true)
  else if machine = 62 then ("EM_X86_64".toList,true)
  else if machine = 183 then ("EM_AARCH64".toList,false)
  else if machine = 243 then ("EM_RISCV".toList,false)
  else ("EM_UNKNOWN".toList,false)

def factsOf (cls : ElfClass) (machine : Nat) : ElfFacts := ⟨cls,machine,(machineName machine).1,(machineName machine).2⟩

-- `{:02x?}` of some bytes
def hexList (bytes : Bytes) : Text := '[' :: (", ".toList.intercalate (bytes.map fun byte => padded 2 byte.toNat) ++ [']'])

-- The first twenty bytes of a file.
abbrev Header := Vector UInt8 20

def magic : Bytes := [0x7f,0x45,0x4c,0x46]

def invalid (path message detail : Text) : PrincessError := (PrincessError.new .invalidConfig (path ++ message)).withDetail detail

def readClass (path : Text) (header : Header) : Except PrincessError ElfClass :=
  if header[4].toNat = 1 then .ok .elf32
  else if header[4].toNat = 2 then .ok .elf64
  else .error (invalid path " has an unknown ELF class byte".toList ("EI_CLASS = ".toList ++ decimal header[4].toNat))

def readMachine (path : Text) (header : Header) : Except PrincessError Nat :=
  if header[5].toNat = 1 then .ok (header[18].toNat + header[19].toNat*256)
  else if header[5].toNat = 2 then .ok (header[18].toNat*256 + header[19].toNat)
  else .error (invalid path " has an unknown EI_DATA byte".toList ("EI_DATA = ".toList ++ decimal header[5].toNat))

-- The file as it is opened and then read; the texts are those of the system's errors.
def readElfFacts (path : Text) (file : Except Text (Except Text Header)) : Except PrincessError ElfFacts :=
  match file with
  | .error e => .error ((PrincessError.new .notFound ("cannot open the debug symbols file ".toList ++ path)).withDetail e)
  | .ok (.error e) => .error (invalid path " is too small to be an ELF file".toList e)
  | .ok (.ok header) =>
    let start := header.toList.take 4
    if start ≠ magic then
      .error (invalid path " is not an ELF file (bad magic)".toList ("first 4 bytes: ".toList ++ hexList start))
    else do
      let cls ← readClass path header
      let machine ← readMachine path header
      return factsOf cls machine

theorem readMachine_lt (read : readMachine path header = .ok machine) : machine < 65536 := by
  have low := header[18].toNat_lt
  have high := header[19].toNat_lt
  rw [readMachine] at read
  split_ifs at read <;> cases read <;> omega

theorem readElfFacts_facts (read : readElfFacts path file = .ok facts) : ∃ cls machine, machine < 65536 ∧ facts = factsOf cls machine := by
  unfold readElfFacts at read
  split at read
  · cases read
  · cases read
  rename_i header
  dsimp only at read
  split at read
  · cases read
  cases wide : readClass path header with
  | error e => rw [wide] at read; cases read
  | ok cls =>
    cases number : readMachine path header with
    | error e => rw [wide,number] at read; cases read
    | ok machine =>
      rw [wide,number] at read
      cases read
      exact ⟨cls,machine,readMachine_lt number,rfl⟩

def lower (name : Text) : Text := name.map toAsciiLowercase

def isX86_64 (name : Text) : Bool :=
  contains "x86-64".toList (lower name) || contains "x86_64".toList (lower name) || lower name = "i386:x64-32".toList

def isI386 (name : Text) : Bool :=
  (lower name = "i386".toList || startsWith "i386:".toList (lower name) && !contains "x86-64".toList (lower name)) ||
    lower name = "i8086".toList

def parseShowArchitecture (text : Text) : Option Text := do
  let (_,rest) ← splitOnce "currently \"".toList text
  let (name,_) ← splitOnce "\"".toList rest
  if trim name = [] then none else some (trim name)

def isAsciiDigit (c : Char) : Bool := 48 ≤ c.toNat && c.toNat ≤ 57

-- The outer option is empty where the multiplication panics.
def parseSizeofPointer (overflowChecks : Bool) (text : Text) : Option (Option Nat) :=
  match (split "=".toList text)[1]?.bind fun value => fromStrRadix 10 u32 ((trim value).takeWhile isAsciiDigit) with
  | none => some none
  | some bytes => if bytes*8 < u32 then some (some (bytes*8)) else if overflowChecks then none else some (some (bytes*8 % u32))

-- Whether the name is the one that the class stands for.
def agrees : ElfClass → Text → Bool
  | .elf64,name => isX86_64 name
  | .elf32,name => isI386 name

section
-- `{:?}` of a text
variable (quoted : Text → Text)

def judge (elf : ElfFacts) (target : TargetArch) : ArchCheck :=
  let bitsText := (target.pointerBits.map decimal).getD "unknown".toList
  match target.pointerBits.filter (· ≠ pointerBits elf.cls) with
  | some bits => .mismatch (asStr elf.cls ++ " (".toList ++ decimal (pointerBits elf.cls) ++ " pointer bits)".toList)
      (target.name ++ " (".toList ++ decimal bits ++ " pointer bits)".toList)
      ("the stub reports a ".toList ++ decimal bits ++ "-bit pointer but the ELF is ".toList ++ asStr elf.cls)
  | none =>
    if !agrees elf.cls target.name then
      .mismatch (asStr elf.cls ++ " (".toList ++ elf.machineName ++ ")".toList)
        (target.name ++ " (".toList ++ bitsText ++ " pointer bits)".toList)
        ("the ELF is ".toList ++ asStr elf.cls ++ " but the stub negotiated ".toList ++ quoted target.name)
    else if !elf.isX86 then
      .mismatch (asStr elf.cls ++ " (".toList ++ elf.machineName ++ ")".toList) target.name
        ("the ELF machine ".toList ++ elf.machineName ++ " is not the x86 target gdb negotiated (".toList ++ target.name ++ ")".toList)
    else .consistent target.name (target.pointerBits.getD (pointerBits elf.cls))

theorem judge_consistent (cls : ElfClass) (machine : Nat) (target : TargetArch) (shown : Text) (bits : Nat) :
    judge quoted (factsOf cls machine) target = .consistent shown bits ↔ target.pointerBits.all (· = pointerBits cls) = true ∧
      agrees cls target.name = true ∧ (machine = 3 ∨ machine = 62) ∧ shown = target.name ∧
      bits = target.pointerBits.getD (pointerBits cls) := by
  have x86 : (machineName machine).2 = decide (machine = 3 ∨ machine = 62) := by
    unfold machineName
    split_ifs <;> simp_all
  have width : target.pointerBits.all (· = pointerBits cls) = (target.pointerBits.filter (· ≠ pointerBits cls)).isNone := by
    cases target.pointerBits with
    | none => rfl
    | some bits => by_cases same : bits = pointerBits cls <;> simp [same,Option.filter]
  have facts : (factsOf cls machine).cls = cls ∧ (factsOf cls machine).isX86 = decide (machine = 3 ∨ machine = 62) := ⟨rfl,x86⟩
  rw [judge,width,facts.1,facts.2]
  cases target.pointerBits.filter (· ≠ pointerBits cls) with
  | some bits => simp
  | none =>
    by_cases named : agrees cls target.name = true
    · by_cases member : machine = 3 ∨ machine = 62
      · simp [named,member,eq_comm]
      · simp [named,member]
    · simp [named]

-- The answer that names the architecture; one with an error text does not.
def reported (arch : ReplOutcome) : Option Text := if arch.sawErrorText then none else parseShowArchitecture arch.text

def reportedBits (overflowChecks : Bool) (probe : Option ReplOutcome) : Option (Option Nat) :=
  match probe.filter fun outcome => !outcome.sawErrorText with
  | none => some none
  | some outcome => parseSizeofPointer overflowChecks outcome.text

-- `check` on the answers that it gets.
def check (overflowChecks : Bool) (elf : ElfFacts) (arch : ReplOutcome) (probe : Option ReplOutcome) : Option ArchCheck :=
  match reported arch with
  | none => some (.unknown arch.text)
  | some name => (reportedBits overflowChecks probe).map fun bits => judge quoted elf ⟨name,bits,arch.text⟩

theorem check_consistent : check quoted overflowChecks elf arch probe = some (.consistent shown bits) ↔ ∃ name width,
    reported arch = some name ∧ reportedBits overflowChecks probe = some width ∧ judge quoted elf ⟨name,width,arch.text⟩ = .consistent shown bits := by
  rw [check]
  cases reported arch with
  | none => simp
  | some name => simp

theorem reportedBits_release (probe : Option ReplOutcome) : reportedBits false probe =
    some ((probe.filter fun outcome => !outcome.sawErrorText).bind fun outcome => (parseSizeofPointer false outcome.text).getD none) := by
  rw [reportedBits]
  cases probe.filter fun outcome => !outcome.sawErrorText with
  | none => rfl
  | some outcome =>
    dsimp only [Option.bind_some]
    rw [parseSizeofPointer]
    split
    · rfl
    · split <;> rfl

theorem ensures_any (x : Wire α) : Ensures (fun _ => True) x (fun _ _ => True) fun _ => True := by
  intro s _
  cases x.run s <;> trivial

-- The kit of a session that reads its files and answers as they are read here.
def archKit (files : Text → Except Text (Except Text Header)) (kit : Kit) : Kit := {kit with
  readElfFacts:=fun path => readElfFacts path (files path)
  parseShowArchitecture:=parseShowArchitecture
  parseSizeofPointer:=fun text => (parseSizeofPointer false text).getD none
  judge:=judge quoted}

-- Over the wire, too, the verdict is the one on two answers.
theorem archCheck_checked (files : Text → Except Text (Except Text Header)) (kit : Kit) (elf : Text) :
    Ensures (fun _ => True) (archCheck (archKit quoted files kit) elf)
      (fun verdict _ => ∃ cls machine arch probe, machine < 65536 ∧ check quoted false (factsOf cls machine) arch probe = some verdict)
      (fun _ => True) := by
  have known : Ensures (fun _ => True) (orThrow ((archKit quoted files kit).readElfFacts elf) : Wire ElfFacts)
      (fun facts _ => ∃ cls machine, machine < 65536 ∧ facts = factsOf cls machine) fun _ => True := by
    have same : (archKit quoted files kit).readElfFacts elf = readElfFacts elf (files elf) := rfl
    rw [same]
    cases read : readElfFacts elf (files elf) with
    | ok facts => exact .pure fun _ _ => readElfFacts_facts read
    | error e => exact .throw fun _ _ => trivial
  refine .bind known fun facts => .pointwise fun s read => .weaken (P:=fun _ => True) (.bind (ensures_any _) fun arch => ?_)
    (fun _ _ => trivial) (fun _ _ => id) (fun _ => id)
  obtain ⟨cls,machine,small,rfl⟩ := read
  split
  · rename_i failed
    refine .pure fun _ _ => ⟨cls,machine,arch,none,small,?_⟩
    rw [check,reported,if_pos failed]
  · rename_i answered
    have said : reported arch = (archKit quoted files kit).parseShowArchitecture arch.text := if_neg answered
    dsimp only
    split
    · rename_i silent
      refine .pure fun _ _ => ⟨cls,machine,arch,none,small,?_⟩
      rw [check,said,silent]
    · rename_i name found
      refine .bind (ensures_any _) fun probe => .pure fun _ _ => ⟨cls,machine,arch,probe,small,?_⟩
      rw [check,said,found,reportedBits_release]
      rfl

end

-- The names that are taken for both widths.
def bothWays (name : Text) : Bool := startsWith "i386:".toList (lower name) && !contains "x86-64".toList (lower name) &&
  (contains "x86_64".toList (lower name) || lower name = "i386:x64-32".toList)

theorem both_iff (name : Text) : (isX86_64 name && isI386 name) = bothWays name := by
  have bare : ∀ t ∈ ["i386".toList,"i8086".toList], contains "x86-64".toList t = false ∧ contains "x86_64".toList t = false ∧
      startsWith "i386:".toList t = false ∧ t ≠ "i386:x64-32".toList := by decide
  rw [isX86_64,isI386,bothWays]
  by_cases short : lower name ∈ ["i386".toList,"i8086".toList]
  · obtain ⟨dash,line,start,other⟩ := bare _ short
    rw [dash,line,start,decide_eq_false other]
    rfl
  · simp only [List.mem_cons,List.not_mem_nil,or_false,not_or] at short
    simp only [short.1,short.2,decide_false,Bool.false_or,Bool.or_false]
    cases contains "x86-64".toList (lower name) <;> cases startsWith "i386:".toList (lower name) <;> simp

def machineOf : ElfClass → Nat
  | .elf32 => 3
  | .elf64 => 62

theorem one_architecture_iff (name : Text) (quoted : Text → Text) (overflowChecks : Bool) (cls : ElfClass) (machine : Nat)
    (arch : ReplOutcome) (probe : Option ReplOutcome) :
    (¬(isX86_64 name = true ∧ isI386 name = true) ↔ bothWays name = false) ∧
    ((∀ shown bits, check quoted overflowChecks (factsOf cls machine) arch probe = some (.consistent shown bits) →
        (isX86_64 shown = true → machine = 62) ∧ (isI386 shown = true → machine = 3)) ↔
      ∀ name width, reported arch = some name → reportedBits overflowChecks probe = some width →
        width.all (· = pointerBits cls) = true → agrees cls name = true → machine = 3 ∨ machine = 62 →
        bothWays name = false ∧ machine = machineOf cls) := by
  refine ⟨by rw [← Bool.and_eq_true,both_iff,Bool.not_eq_true],?_,?_⟩
  · intro faithful name width said sized fits named x86
    have consistent := (check_consistent quoted).mpr ⟨name,width,said,sized,(judge_consistent quoted cls machine _ _ _).mpr ⟨fits,named,x86,rfl,rfl⟩⟩
    obtain ⟨wide,narrow⟩ := faithful _ _ consistent
    refine ⟨?_,?_⟩
    · rw [← both_iff,Bool.eq_false_iff]
      intro both
      obtain ⟨one,other⟩ := Bool.and_eq_true_iff.mp both
      have clash := (wide one).symm.trans (narrow other)
      omega
    · cases cls with
      | elf32 => exact narrow named
      | elf64 => exact wide named
  · intro condition shown bits consistent
    obtain ⟨name,width,said,sized,judged⟩ := (check_consistent quoted).mp consistent
    obtain ⟨fits,named,x86,rfl,_⟩ := (judge_consistent quoted cls machine _ _ _).mp judged
    obtain ⟨once,same⟩ := condition _ width said sized fits named x86
    rw [← both_iff,Bool.and_eq_false_iff] at once
    cases cls with
    | elf32 =>
      refine ⟨fun wide => ?_,fun _ => same⟩
      rcases once with absent | absent
      · rw [absent] at wide; cases wide
      · exact absurd (absent.symm.trans named) (by decide)
    | elf64 =>
      refine ⟨fun _ => same,fun narrow => ?_⟩
      rcases once with absent | absent
      · exact absurd (absent.symm.trans named) (by decide)
      · rw [absent] at narrow; cases narrow

-- An object file for EM_386 passes for x86-64, and one name passes for both.
theorem other_machine_consistent :
    check id true (factsOf .elf64 3)
      ⟨"show architecture".toList,"The target architecture is set to \"auto\" (currently \"i386:x86-64\").\n".toList,false,none⟩
      (some ⟨"p sizeof(void*)".toList,"$1 = 8\n".toList,false,none⟩) = some (.consistent "i386:x86-64".toList 64) ∧
    isX86_64 "i386:x86-64".toList = true ∧
    isX86_64 "i386:x64-32".toList = true ∧ isI386 "i386:x64-32".toList = true := by decide +kernel

end PrincessIDE.Arch
