import PrincessIDE.Debug.Transport

namespace PrincessIDE.Dap
open Utf8 Str Error Effect

structure BreakpointRecord where
  number : Nat
  kind : Text
  enabled : Bool
  address : Option Text
  what : Text
deriving DecidableEq, Repr

def BreakpointRecord.isHardware (record : BreakpointRecord) : Bool := contains "hw breakpoint".toList record.kind
def BreakpointRecord.isPending (record : BreakpointRecord) : Bool :=
  contains "<PENDING>".toList record.what || record.address = some "<PENDING>".toList

structure RegisterEntry where
  name : Text
  value : Text
  decimal : Option Text
  annotation : Option Text
  raw : Text
deriving DecidableEq, Repr

inductive ElfClass where
  | elf32
  | elf64
deriving DecidableEq, Repr

structure ElfFacts where
  cls : ElfClass
  machine : Nat
  machineName : Text
  isX86 : Bool
deriving DecidableEq, Repr

structure TargetArch where
  name : Text
  pointerBits : Option Nat
  raw : Text
deriving DecidableEq, Repr

inductive ArchCheck where
  | consistent (arch : Text) (pointerBits : Nat)
  | mismatch (expected actual reason : Text)
  | unknown (raw : Text)
deriving DecidableEq, Repr

-- The pure readers and printers of texts that a session goes through. None of
-- them touches the adapter, and what is shown here holds for any of them.
structure Kit where
  pretty : Json → Text
  compact : Json → Text
  parseBreakpoints : Text → List BreakpointRecord
  parseInfoRegisters : Text → List RegisterEntry
  parseMonitorXp : Text → Nat → List (BitVec 8)
  countFunctionDeclarations : Text → Nat
  readElfFacts : Text → Except PrincessError ElfFacts
  parseShowArchitecture : Text → Option Text
  parseSizeofPointer : Text → Option Nat
  judge : ElfFacts → TargetArch → ArchCheck
  base64Decode : Text → Option (List (BitVec 8))
  base64Encode : List (BitVec 8) → Text
  shellEscape : Text → Text
  debugRecord : BreakpointRecord → Text
  fileName : Text → Option Text

def errorSigns : List Text := [
  "not defined.","No symbol table is loaded","No symbol \"","Undefined command:","Undefined item:","Invalid syntax",
  "is not a valid","Cannot access memory at address","Cannot insert breakpoint","Warning: ","error: ","Error: ",
  "No registers.","The program has no registers now.","You can't do that","Requires an argument",
  "not supported by this target","is not the same architecture","Architecture rejected"].map String.toList

structure ReplOutcome where
  command : Text
  text : Text
  sawErrorText : Bool
  errorSign : Option Text
deriving DecidableEq, Repr

def ReplOutcome.intoError (outcome : ReplOutcome) (context : Text) : PrincessError :=
  (PrincessError.new .notFound (context ++ ": GDB rejected `".toList ++ outcome.command ++ "` (".toList ++
    outcome.errorSign.getD [] ++ ")".toList)).withDetail
    ("command: ".toList ++ outcome.command ++ "\noutput:\n".toList ++ outcome.text)

def ReplOutcome.requireOk (outcome : ReplOutcome) (context : Text) : Except PrincessError ReplOutcome :=
  if outcome.sawErrorText then .error (outcome.intoError context) else .ok outcome

def hex (n : Nat) : Text := Nat.toDigits 16 n

variable (kit : Kit)

def ensureSuccess (command : Text) (response : Json) : Except PrincessError Json :=
  if ((response.get "success").bind Json.asBool).getD false then .ok response
  else
    let message := ((response.get "message").bind Json.asStr).getD "(adapter sent no message)".toList
    let detail := kit.pretty response ++ match response.get "body" with
      | some extra => "\nbody: ".toList ++ kit.compact extra
      | none => []
    .error ((PrincessError.new .internal ("DAP request `".toList ++ command ++ "` failed: ".toList ++ message)).withDetail detail)

def interpretResponse (command : Text) (response : Json) : Except PrincessError ReplOutcome :=
  if !((response.get "success").bind Json.asBool).getD false then
    let message := ((response.get "message").bind Json.asStr).getD "(no message)".toList
    .error ((PrincessError.new .notFound ("GDB rejected the repl command `".toList ++ command ++ "`: ".toList ++ message)).withDetail
      (kit.pretty response))
  else
    let text := ((response.pointer ["body","result"]).bind Json.asStr).getD []
    let sign := errorSigns.find? fun sign => contains sign text
    .ok ⟨command,text,sign.isSome,sign⟩

def orThrow (result : Except PrincessError α) : Wire α := match result with
  | .ok a => pure a
  | .error e => throw e

def repl (command : Text) : Wire ReplOutcome := do
  let response ← request "evaluate".toList (some (.obj [("expression".toList,.str command),("context".toList,.str "repl".toList)]))
  orThrow (interpretResponse kit command response)

def replOk (command : Text) : Wire ReplOutcome := do
  orThrow ((← repl kit command).requireOk "gdb command".toList)

def prepareSession : Wire PUnit :=
  (["set pagination off","set confirm off","set print elements 0","set print repeats 0"].map String.toList).forM
    fun command => do let _ ← replOk kit command

def loadSymbols (elf : Text) : Wire Nat := do
  let outcome ← repl kit ("symbol-file ".toList ++ kit.shellEscape elf)
  if outcome.sawErrorText then
    throw ((PrincessError.new .notFound ("could not load symbols from ".toList ++ elf)).withDetail
      ("command: ".toList ++ outcome.command ++ "\noutput:\n".toList ++ outcome.text))
  let listing ← repl kit "info functions".toList
  if listing.sawErrorText then
    throw (listing.intoError ("could not enumerate the functions in ".toList ++ elf))
  let count := kit.countFunctionDeclarations listing.text
  -- The source cuts the text at byte 2000 and does not go on inside a character.
  if count = 0 then
    throw ((PrincessError.new .notFound (elf ++
      " loaded but GDB reports no functions; the ELF probably has no debug info".toList)).withDetail
      ("command: ".toList ++ listing.command ++ "\noutput (first 2000 bytes):\n".toList ++
        lossy ((encode listing.text).take 2000)))
  return count

def listBreakpoints : Wire (List BreakpointRecord) := do
  return kit.parseBreakpoints (← replOk kit "info breakpoints".toList).text

def createHardwareBreakpoint (spec : Text) : Wire BreakpointRecord := do
  let before := (← listBreakpoints kit).map (·.number)
  let outcome ← repl kit ("hbreak ".toList ++ spec)
  if outcome.sawErrorText then
    throw (outcome.intoError ("cannot set a hardware breakpoint at `".toList ++ spec ++ "`".toList))
  let records ← listBreakpoints kit
  match records.find? fun record => !before.contains record.number with
  | none =>
    throw ((PrincessError.new .internal ("`hbreak ".toList ++ spec ++
      "` reported success but created no breakpoint".toList)).withDetail outcome.text)
  | some record =>
    if !record.isHardware then
      throw ((PrincessError.new .internal ("`hbreak ".toList ++ spec ++ "` created a ".toList ++ record.kind ++
        ", not a hardware breakpoint".toList)).withDetail outcome.text)
    else if record.isPending then
      throw ((PrincessError.new .notFound ("no such symbol or location for a hardware breakpoint: `".toList ++ spec ++
        "`".toList)).withDetail ("gdb left the breakpoint pending, so the location does not exist in this image.\n".toList ++
        "command: hbreak ".toList ++ spec ++ "\noutput:\n".toList ++ outcome.text ++
        "\nbreakpoint: ".toList ++ kit.debugRecord record))
    else return record

-- Whether the target answers `monitor xp` at all.
def physicalMemoryBackend : Wire Bool := do
  let outcome ← repl kit "monitor xp /1xb 0x0".toList
  return !(outcome.sawErrorText || contains "not supported".toList outcome.text ||
    contains "Undefined command".toList outcome.text)

def xpCommand (width cursor : Nat) : Text :=
  let letter := if 8 ≤ width ∧ width % 8 = 0 then (8,'g') else if 4 ≤ width ∧ width % 4 = 0 then (4,'w')
    else if 2 ≤ width ∧ width % 2 = 0 then (2,'h') else (1,'b')
  "monitor xp /".toList ++ decimal (width/letter.1) ++ ['x',letter.2] ++ " 0x".toList ++ hex cursor

-- Each round reads at least one byte, so as many rounds as bytes are enough.
def readRounds (count : Nat) : Nat → List (BitVec 8) → Nat → Wire (List (BitVec 8))
  | 0, bytes, _ => return bytes
  | rounds+1, bytes, cursor =>
    if count ≤ bytes.length then return bytes
    else do
      let outcome ← repl kit (xpCommand (min (count-bytes.length) 16) cursor)
      if outcome.sawErrorText then
        throw (outcome.intoError ("cannot read physical memory at 0x".toList ++ hex cursor))
      let parsed := kit.parseMonitorXp outcome.text cursor
      if parsed = [] then
        throw ((PrincessError.new .internal ("could not parse the physical memory dump at 0x".toList ++ hex cursor)).withDetail
          ("command: ".toList ++ outcome.command ++ "\noutput:\n".toList ++ outcome.text))
      let taken := parsed.take (count-bytes.length)
      readRounds count rounds (bytes ++ taken) (cursor+taken.length)

def readPhysical (address count : Nat) : Wire (List (BitVec 8)) := do
  if count = 0 then return []
  if ← physicalMemoryBackend kit then
    return (← readRounds kit count count [] address).take count
  else
    throw ((PrincessError.new .toolchainMissing
      "the connected target has no `monitor` command, so physical memory cannot be read".toList).withDetail
      ("`monitor` is a QEMU feature; on Bochs, real hardware over BDM/JTAG, or a custom stub there is no physical-memory path ".toList ++
        "through GDB. PrincessIDE refuses to substitute a virtual read, which would return plausible-looking bytes from the ".toList ++
        "wrong address space.".toList))

def readRegisters : Wire (List RegisterEntry) := do
  let outcome ← replOk kit "info registers".toList
  let entries := kit.parseInfoRegisters outcome.text
  if entries = [] then
    throw ((PrincessError.new .internal "`info registers` returned nothing parseable".toList).withDetail
      ("command: info registers\noutput:\n".toList ++ outcome.text))
  return entries

-- A failing second probe is not an error of the check.
def archCheck (elf : Text) : Wire ArchCheck := do
  let facts ← orThrow (kit.readElfFacts elf)
  let arch ← repl kit "show architecture".toList
  if arch.sawErrorText then return .unknown arch.text
  match kit.parseShowArchitecture arch.text with
  | none => return .unknown arch.text
  | some name =>
    let probe ← attempt (repl kit "p sizeof(void*)".toList)
    let bits := (probe.filter fun outcome => !outcome.sawErrorText).bind fun outcome => kit.parseSizeofPointer outcome.text
    return kit.judge facts ⟨name,bits,arch.text⟩

def ArchCheck.requireConsistent (elf : Text) : ArchCheck → Except PrincessError ArchCheck
  | .mismatch expected actual reason =>
    .error ((PrincessError.new .invalidConfig ("architecture mismatch between ".toList ++ elf ++
      " and the debug stub: ".toList ++ reason)).withDetail
      ("elf: ".toList ++ expected ++ "\ntarget: ".toList ++ actual ++
        "\n(D10: a mismatched architecture makes gdbstub return truncated register data and nonsense stack frames; ".toList ++
        "the engine refuses to debug rather than report either.)".toList))
  | other => .ok other

-- Nothing here touches the transport but through requests to evaluate.
section moves
variable {kit} {R : Session → Session → Prop} [IsPreorder Session R]

theorem orThrow_moves (result : Except PrincessError α) : Moves R (orThrow result) := by
  cases result with
  | ok a => exact .pure a
  | error e => exact .throw e

variable (requests : ∀ arguments, Moves R (request "evaluate".toList arguments))
include requests

theorem repl_moves (command : Text) : Moves R (repl kit command) :=
  .bind (requests _) fun _ => orThrow_moves _

theorem replOk_moves (command : Text) : Moves R (replOk kit command) :=
  .bind (repl_moves requests command) fun _ => orThrow_moves _

theorem prepareSession_moves : Moves R (prepareSession kit) :=
  .each fun command _ => .bind (replOk_moves requests command) fun _ => .pure _

theorem loadSymbols_moves (elf : Text) : Moves R (loadSymbols kit elf) := by
  refine .bind (repl_moves requests _) fun outcome => ?_
  split
  · exact .throw _
  refine .bind (repl_moves requests _) fun listing => ?_
  split
  · exact .throw _
  dsimp only
  split
  · exact .throw _
  · exact .pure _

theorem listBreakpoints_moves : Moves R (listBreakpoints kit) :=
  .bind (replOk_moves requests _) fun _ => .pure _

theorem createHardwareBreakpoint_moves (spec : Text) : Moves R (createHardwareBreakpoint kit spec) := by
  refine .bind (listBreakpoints_moves requests) fun before => .bind (repl_moves requests _) fun outcome => ?_
  split
  · exact .throw _
  refine .bind (listBreakpoints_moves requests) fun records => ?_
  split
  · exact .throw _
  · split
    · exact .throw _
    · split
      · exact .throw _
      · exact .pure _

theorem physicalMemoryBackend_moves : Moves R (physicalMemoryBackend kit) :=
  .bind (repl_moves requests _) fun _ => .pure _

theorem readRounds_moves (count rounds : Nat) (bytes : List (BitVec 8)) (cursor : Nat) :
    Moves R (readRounds kit count rounds bytes cursor) := by
  induction rounds generalizing bytes cursor with
  | zero => exact .pure _
  | succ rounds ih =>
    unfold readRounds
    split
    · exact .pure _
    refine .bind (repl_moves requests _) fun outcome => ?_
    split
    · exact .throw _
    dsimp only
    split
    · exact .throw _
    · exact ih _ _

theorem readPhysical_moves (address count : Nat) : Moves R (readPhysical kit address count) := by
  unfold readPhysical
  split
  · exact .pure _
  refine .bind (physicalMemoryBackend_moves requests) fun available => ?_
  split
  · exact .bind (readRounds_moves requests _ _ _ _) fun _ => .pure _
  · exact .throw _

theorem readRegisters_moves : Moves R (readRegisters kit) := by
  refine .bind (replOk_moves requests _) fun outcome => ?_
  dsimp only
  split
  · exact .throw _
  · exact .pure _

theorem archCheck_moves (elf : Text) : Moves R (archCheck kit elf) := by
  refine .bind (orThrow_moves _) fun facts => .bind (repl_moves requests _) fun arch => ?_
  split
  · exact .pure _
  split
  · exact .pure _
  · exact .bind (.attempt (repl_moves requests _)) fun _ => .pure _

end moves

-- A physical read is made of dumps, each asked for at the address behind what
-- the ones before it gave.
inductive Chunked (parse : Text → Nat → List (BitVec 8)) : Nat → List (BitVec 8) → Prop where
  | done : Chunked parse address []
  | chunk (text : Text) (size : Nat) (rest : Chunked parse (address+((parse text address).take size).length) more) :
    Chunked parse address ((parse text address).take size ++ more)

theorem readRounds_chunked (ran : answer (readRounds kit count rounds bytes cursor) s = .ok out) :
    ∃ more, out = bytes ++ more ∧ Chunked kit.parseMonitorXp cursor more := by
  induction rounds generalizing bytes cursor s with
  | zero =>
    cases ran
    exact ⟨[],by simp,.done⟩
  | succ rounds ih =>
    unfold readRounds at ran
    split at ran
    · cases ran
      exact ⟨[],by simp,.done⟩
    obtain ⟨outcome,-,ran⟩ := answer_bind_ok ran
    split at ran
    · cases ran
    dsimp only at ran
    split at ran
    · cases ran
    obtain ⟨more,rfl,chunked⟩ := ih ran
    exact ⟨_,List.append_assoc _ _ _,.chunk outcome.text _ chunked⟩

theorem chunked_reported {parse : Text → Nat → List (BitVec 8)} (chunked : Chunked parse address bytes) (found : bytes[k]? = some byte) :
    ∃ text cursor place, (parse text cursor)[place]? = some byte ∧ cursor+place = address+k := by
  induction chunked generalizing k with
  | done => cases found
  | @chunk address more text size rest ih =>
    by_cases short : k < ((parse text address).take size).length
    · rw [List.getElem?_append_left short] at found
      have inside := List.length_take_le size (parse text address)
      rw [List.getElem?_take_of_lt (by omega)] at found
      exact ⟨text,address,k,found,rfl⟩
    · rw [List.getElem?_append_right (Nat.le_of_not_lt short)] at found
      obtain ⟨text,cursor,place,reported,same⟩ := ih found
      exact ⟨text,cursor,place,reported,by omega⟩

-- No byte of a physical read is anywhere but where a dump reported it.
theorem readPhysical_reported (ran : answer (readPhysical kit address count) s = .ok bytes) (found : bytes[k]? = some byte) :
    ∃ text cursor place, (kit.parseMonitorXp text cursor)[place]? = some byte ∧ cursor+place = address+k := by
  unfold readPhysical at ran
  split at ran
  · cases ran
    cases found
  obtain ⟨available,-,ran⟩ := answer_bind_ok ran
  split at ran
  · obtain ⟨out,read,done⟩ := answer_bind_ok ran
    cases done
    obtain ⟨more,whole,chunked⟩ := readRounds_chunked kit read
    rw [whole,List.nil_append] at found
    have inside := (List.getElem?_eq_some_iff.mp found).1
    rw [List.length_take] at inside
    rw [List.getElem?_take_of_lt (by omega)] at found
    exact chunked_reported chunked found
  · cases ran

end PrincessIDE.Dap
