import PrincessIDE.Bin.Monitor
import PrincessIDE.Core.Event

namespace PrincessIDE.Monitor
open Utf8 Str Loop Event
open Memory (U64)

-- The panics of the standard library that a slice or an index of the parser can
-- end in.
inductive Panic where
  | charBoundary
  | outOfBounds
deriving DecidableEq, Repr

inductive Failure where
  | panicked (panic : Panic)
  | parse (e : ParseError)
deriving DecidableEq, Repr

-- `str::split_at`: the byte offset has to lie between two characters.
def splitAtByte (n : Nat) : Text → Except Panic (Text × Text)
  | [] => if n = 0 then .ok ([],[]) else .error .charBoundary
  | c :: t =>
    if n = 0 then .ok ([],c :: t)
    else if c.utf8Size ≤ n then (splitAtByte (n-c.utf8Size) t).map fun cut => (c :: cut.1,cut.2)
    else .error .charBoundary

def fieldAt (fields : List Text) (index : Nat) : Except Panic Text := match fields[index]? with
  | some field => .ok field
  | none => .error .outOfBounds

def fieldsFrom (fields : List Text) (start : Nat) : Except Panic (List Text) :=
  if start ≤ fields.length then .ok (fields.drop start) else .error .outOfBounds

structure SegmentRegister where
  name : Text
  selector : BitVec 16
  base : U64
  limit : BitVec 32
  access : BitVec 32
  dpl : Nat
  typeName : Text
  permissions : Option Text
deriving DecidableEq, Repr

structure RegistersReport where
  cpu : Option Nat
  registers : RegisterFile
  rflags : Option Text
  flagsText : Option Text
  cpl : Option Nat
  segments : List SegmentRegister
  gdtBase : Option U64
  gdtLimit : Option (BitVec 32)
  idtBase : Option U64
  idtLimit : Option (BitVec 32)
  halted : Option Bool
deriving DecidableEq, Repr

def RegistersReport.empty : RegistersReport := ⟨none,[],none,none,none,[],none,none,none,none,none⟩

def parseU8 (text : Text) : Option Nat := fromStrRadix 10 256 text

def isBracket (c : Char) : Bool := c = '[' || c = ']'

def bracketed (field : Text) : Bool := field.head? == some '[' && field.getLast? == some ']'

def unbracketed (field : Text) : Text := trimEndMatches isBracket (field.dropWhile isBracket)

def isAsciiAlphanumeric (c : Char) : Bool :=
  (48 ≤ c.toNat && c.toNat ≤ 57) || (65 ≤ c.toNat && c.toNat ≤ 90) || (97 ≤ c.toNat && c.toNat ≤ 122)

def parseLimitPair (text : Text) : Option (U64 × BitVec 32) := do
  let fields := splitWhitespace text
  let base ← fields[0]?.bind parseHexU64
  let limit ← fields[1]?.bind parseHexU32
  if fields[2]?.isSome then none else some (base,limit)

-- The name of a segment line and what stands behind it.
def segmentName (line : Text) : Except Panic (Option (Text × Text)) :=
  match stripPrefix "LDT=".toList line,stripPrefix "TR ".toList line,stripPrefix "TR=".toList line with
  | some rest,_,_ => .ok (some ("LDT".toList,rest))
  | none,some rest,_ => .ok (some ("TR".toList,rest))
  | none,none,some rest => .ok (some ("TR".toList,rest))
  | none,none,none => do
    let (name,rest) ← splitAtByte 2 line
    if !name.all isAsciiUppercase then return none
    return (stripPrefix ['='] (trimStart rest)).map fun rest => (name,rest)

structure SegmentTail where
  dpl : Nat
  typeName : Text
  permissions : Option Text
deriving DecidableEq, Repr

-- The loop over the fields behind the access dword; a second bare token ends it
-- without a result.
def segmentTail (tail : SegmentTail) : List Text → Option SegmentTail
  | [] => some tail
  | field :: rest =>
    match stripPrefix "DPL=".toList field with
    | some value => segmentTail {tail with dpl:=(parseU8 value).getD 0} rest
    | none =>
      if bracketed field then segmentTail {tail with permissions:=some (unbracketed field)} rest
      else if contains ['='] field then segmentTail tail rest
      else if tail.typeName = [] then segmentTail {tail with typeName:=field} rest
      else none

def parseSegmentLine (line : Text) : Except Panic (Option SegmentRegister) := do
  let some (name,rest) ← segmentName line | return none
  let rest := (stripPrefix ['='] (trimStart rest)).getD rest
  let fields := splitWhitespace rest
  if fields.length < 3 then return none
  let some selector := (parseHexU32 (← fieldAt fields 0)).map (BitVec.setWidth 16) | return none
  let some base := parseHexU64 (← fieldAt fields 1) | return none
  let some limit := parseHexU32 (← fieldAt fields 2) | return none
  let some access := fields[3]?.bind parseHexU32 | return none
  let some tail := segmentTail ⟨0,[],none⟩ (← fieldsFrom fields 4) | return none
  return some ⟨name,selector,base,limit,access,tail.dpl,tail.typeName,tail.permissions⟩

def registerName (name : Text) : Bool := !name.isEmpty && name.all isAsciiAlphanumeric

-- The `while` loop over the tokens, on those from its index on.
def parseRegisterPairs : List Text → Option (List (Text × Text))
  | [] => some []
  | token :: rest =>
    match splitOnce ['='] token with
    | some (name,value) => if registerName name && isHex value then (parseRegisterPairs rest).map ((name,value) :: ·) else none
    | none =>
      if !registerName token then none
      else match rest with
        | [] => none
        | next :: rest => match stripPrefix ['='] next with
          | none => none
          | some [] => match rest with
            | [] => none
            | value :: rest => if isHex value then (parseRegisterPairs rest).map ((token,value) :: ·) else none
          | some value => if isHex value then (parseRegisterPairs rest).map ((token,value) :: ·) else none

-- One field of the `RIP=` line.
def ripField (report : RegistersReport) (field : Text) : RegistersReport :=
  match stripPrefix "RIP=".toList field,stripPrefix "RFL=".toList field,stripPrefix "CPL=".toList field,stripPrefix "HLT=".toList field with
  | some value,_,_,_ => {report with registers:=report.registers.insert "RIP".toList value}
  | none,some value,_,_ => {report with rflags:=some value}
  | none,none,some value,_ => {report with cpl:=parseU8 value}
  | none,none,none,some value => {report with halted:=some (value == ['1'])}
  | none,none,none,none => if bracketed field then {report with flagsText:=some (unbracketed field)} else report

def ignorablePrefixes : List Text := ["FCW=".toList,"FPR".toList,"XMM".toList,"YMM".toList,"ZMM".toList,"ST".toList,"MM".toList]

-- What a line that is not blank does to the report, or why it fails.
def registersLine (quoted : Text → Text) (line : Text) : Except (Panic ⊕ Text) (RegistersReport → RegistersReport) :=
  match stripPrefix "CPU#".toList line,stripPrefix "GDT=".toList line,stripPrefix "IDT=".toList line with
  | some rest,_,_ => match fromStrRadix 10 u32 (trim rest) with
    | some cpu => .ok fun report => {report with cpu:=some cpu}
    | none => .error (.inr ("CPU header ".toList ++ quoted line ++ " does not end in a decimal number".toList))
  | none,some rest,_ => match parseLimitPair rest with
    | some (base,limit) => .ok fun report => {report with gdtBase:=some base,gdtLimit:=some limit}
    | none => .error (.inr "expected \x60GDT=<hex base> <hex limit>\x60".toList)
  | none,none,some rest => match parseLimitPair rest with
    | some (base,limit) => .ok fun report => {report with idtBase:=some base,idtLimit:=some limit}
    | none => .error (.inr "expected \x60IDT=<hex base> <hex limit>\x60".toList)
  | none,none,none => match parseSegmentLine line with
    | .error panic => .error (.inl panic)
    | .ok (some segment) => .ok fun report => {report with segments:=report.segments ++ [segment]}
    | .ok none =>
      if startsWith "RIP=".toList line then .ok fun report => (splitWhitespace line).foldl ripField report
      else match parseRegisterPairs (splitWhitespace line) with
        | some (first :: pairs) => .ok fun report =>
          {report with registers:=(first :: pairs).foldl (fun registers pair => registers.insert pair.1 pair.2) report.registers}
        | _ =>
          if ignorablePrefixes.any (startsWith · line) then .ok id
          else .error (.inr "line matches no known \x60info registers\x60 shape".toList)

def registersTurn (quoted : Text → Text) (report : RegistersReport) (located : Nat × Nat × Text) :
    Turn RegistersReport (Except Failure RegistersReport) :=
  if trim located.2.2 = [] then .next report
  else match registersLine quoted (trim located.2.2) with
    | .ok update => .next (update report)
    | .error (.inl panic) => .leave (.error (.panicked panic)) report
    | .error (.inr reason) => .leave (.error (.parse ⟨"info registers".toList,located.1,located.2.1,trim located.2.2,reason⟩)) report

def parseInfoRegisters (quoted : Text → Text) (text : Text) : Except Failure RegistersReport :=
  match loop (registersTurn quoted) .empty (linesWithOffsets text) with
  | (some result,_,_) => result
  | (none,report,_) => .ok report

-- The byte offset `n` lies inside the text and between two characters.
def HasBoundary (n : Nat) (t : Text) : Prop := ∃ a b, t = a ++ b ∧ (encode a).length = n

theorem encode_width (c : Char) (t : Text) : (encode (c :: t)).length = c.utf8Size + (encode t).length := by
  rw [encode,List.flatMap_cons,List.length_append,String.length_utf8EncodeChar]
  rfl

theorem splitAtByte_boundary (n : Nat) (t : Text) : (∃ cut, splitAtByte n t = .ok cut) ↔ HasBoundary n t := by
  induction t generalizing n with
  | nil =>
    unfold splitAtByte
    by_cases start : n = 0
    · rw [if_pos start]
      exact ⟨fun _ => ⟨[],[],rfl,start.symm⟩,fun _ => ⟨_,rfl⟩⟩
    · rw [if_neg start]
      constructor
      · rintro ⟨cut,same⟩
        cases same
      · rintro ⟨a,b,same,size⟩
        obtain ⟨rfl,rfl⟩ := List.append_eq_nil_iff.mp same.symm
        exact absurd size.symm start
  | cons c t ih =>
    unfold splitAtByte
    by_cases start : n = 0
    · rw [if_pos start]
      exact ⟨fun _ => ⟨[],c :: t,rfl,start.symm⟩,fun _ => ⟨_,rfl⟩⟩
    · rw [if_neg start]
      have wide := c.utf8Size_pos
      constructor
      · rintro ⟨cut,same⟩
        split at same
        · rename_i inside
          cases further : splitAtByte (n-c.utf8Size) t with
          | error panic =>
            rw [further] at same
            cases same
          | ok rest =>
            obtain ⟨a,b,rfl,size⟩ := (ih (n-c.utf8Size)).mp ⟨rest,further⟩
            exact ⟨c :: a,b,rfl,by rw [encode_width]; omega⟩
        · cases same
      · rintro ⟨a,b,same,size⟩
        cases a with
        | nil => exact absurd size.symm start
        | cons x a =>
          obtain ⟨rfl,rest⟩ := List.cons.inj same
          rw [encode_width] at size
          obtain ⟨cut,found⟩ := (ih (n-c.utf8Size)).mpr ⟨a,b,rest,by omega⟩
          rw [if_pos (by omega),found]
          exact ⟨_,rfl⟩

theorem fieldAt_inside {fields : List Text} (inside : index < fields.length) : ∃ field, fieldAt fields index = .ok field := by
  rw [fieldAt,List.getElem?_eq_getElem inside]
  exact ⟨_,rfl⟩

theorem fieldsFrom_inside {fields : List Text} (inside : start ≤ fields.length) : fieldsFrom fields start = .ok (fields.drop start) :=
  if_pos inside

-- Behind the name every index and slice stays inside the fields.
theorem parseSegmentLine_named (named : segmentName line = .ok found) : ∃ segment, parseSegmentLine line = .ok segment := by
  unfold parseSegmentLine
  rw [named]
  cases found with
  | none => exact ⟨none,rfl⟩
  | some found =>
    obtain ⟨name,rest⟩ := found
    simp only [bind,Except.bind]
    generalize splitWhitespace ((stripPrefix ['='] (trimStart rest)).getD rest) = fields
    by_cases few : fields.length < 3
    · rw [if_pos few]
      exact ⟨none,rfl⟩
    · rw [if_neg few]
      obtain ⟨first,zero⟩ := @fieldAt_inside 0 fields (by omega)
      obtain ⟨second,one⟩ := @fieldAt_inside 1 fields (by omega)
      obtain ⟨third,two⟩ := @fieldAt_inside 2 fields (by omega)
      rw [zero,one,two]
      dsimp only
      cases (parseHexU32 first).map (BitVec.setWidth 16) with
      | none => exact ⟨none,rfl⟩
      | some selector => cases parseHexU64 second with
        | none => exact ⟨none,rfl⟩
        | some base => cases parseHexU32 third with
          | none => exact ⟨none,rfl⟩
          | some limit => cases fourth : fields[3]? with
            | none => exact ⟨none,rfl⟩
            | some field => cases access : parseHexU32 field with
              | none => exact ⟨none,by simp [access,pure,Except.pure]⟩
              | some value =>
                have inside := (List.getElem?_eq_some_iff.mp fourth).1
                rw [fieldsFrom_inside inside]
                cases rest : segmentTail ⟨0,[],none⟩ (fields.drop 4) with
                | none => exact ⟨none,by simp [access,rest,pure,Except.pure]⟩
                | some tail => exact ⟨some ⟨name,selector,base,limit,value,tail.dpl,tail.typeName,tail.permissions⟩,
                    by simp [access,rest,pure,Except.pure]⟩

theorem prefix_boundary (found : stripPrefix (a :: b :: front) line = some rest) (narrow : a.utf8Size + b.utf8Size = 2) : HasBoundary 2 line := by
  refine ⟨[a,b],front ++ rest,by rw [stripPrefix_eq found]; rfl,?_⟩
  rw [encode_width,encode_width,encode,List.flatMap_nil,List.length_nil]
  exact narrow

theorem segmentName_cut (cut : splitAtByte 2 line = .ok found) : ∃ name, segmentName line = .ok name := by
  unfold segmentName
  split
  · exact ⟨_,rfl⟩
  · exact ⟨_,rfl⟩
  · exact ⟨_,rfl⟩
  · rw [cut]
    by_cases upper : found.1.all isAsciiUppercase
    · exact ⟨_,by simp [bind,Except.bind,upper]; rfl⟩
    · exact ⟨none,by simp [bind,Except.bind,upper]; rfl⟩

-- The only slice that can fail is the one at byte 2.
theorem registersLine_panics (quoted : Text → Text) (line : Text) : (∃ panic, registersLine quoted line = .error (.inl panic)) ↔ ¬ HasBoundary 2 line := by
  constructor
  · rintro ⟨panic,failed⟩ boundary
    obtain ⟨cut,found⟩ := (splitAtByte_boundary 2 line).mpr boundary
    obtain ⟨name,named⟩ := segmentName_cut found
    obtain ⟨segment,parsed⟩ := parseSegmentLine_named named
    unfold registersLine at failed
    rw [parsed] at failed
    repeat' split at failed
    all_goals try cases failed
    rename_i same
    cases same
  · intro off
    have missing : ∀ {a b : Char} {front : Text}, a.utf8Size + b.utf8Size = 2 → stripPrefix (a :: b :: front) line = none := by
      intro a b front narrow
      cases found : stripPrefix (a :: b :: front) line with
      | none => rfl
      | some rest => exact absurd (prefix_boundary found narrow) off
    cases cut : splitAtByte 2 line with
    | ok found => exact absurd ((splitAtByte_boundary 2 line).mp ⟨found,cut⟩) off
    | error panic =>
      have named : segmentName line = .error panic := by
        unfold segmentName
        rw [show stripPrefix "LDT=".toList line = none from missing rfl,show stripPrefix "TR ".toList line = none from missing rfl,
          show stripPrefix "TR=".toList line = none from missing rfl,cut]
        rfl
      have parsed : parseSegmentLine line = .error panic := by
        unfold parseSegmentLine
        rw [named]
        rfl
      refine ⟨panic,?_⟩
      unfold registersLine
      rw [show stripPrefix "CPU#".toList line = none from missing rfl,show stripPrefix "GDT=".toList line = none from missing rfl,
        show stripPrefix "IDT=".toList line = none from missing rfl,parsed]

-- A line that matches one of the shapes of the parser.
def Known (quoted : Text → Text) (line : Text) : Prop := ∃ update, registersLine quoted (trim line) = .ok update

theorem registersTurn_next (on : registersTurn quoted report located = .next report') : Blank located.2.2 ∨ Known quoted located.2.2 := by
  unfold registersTurn at on
  split at on
  · exact .inl (by assumption)
  · split at on
    · exact .inr ⟨_,by assumption⟩
    · cases on
    · cases on

theorem registersTurn_leave (left : registersTurn quoted report located = .leave result report') : ¬ Blank located.2.2 ∧
    ((∃ panic, registersLine quoted (trim located.2.2) = .error (.inl panic) ∧ result = .error (.panicked panic)) ∨
      ∃ reason e, registersLine quoted (trim located.2.2) = .error (.inr reason) ∧ result = .error (.parse e)) := by
  unfold registersTurn at left
  split at left
  · cases left
  · refine ⟨by assumption,?_⟩
    split at left
    · cases left
    · cases left
      exact .inl ⟨_,by assumption,rfl⟩
    · cases left
      exact .inr ⟨_,_,by assumption,rfl⟩

theorem registers_on (on : goesOn (registersTurn quoted) report rows = some report') : ∀ line ∈ solid rows, Known quoted line := by
  induction rows generalizing report with
  | nil => simp [solid]
  | cons located rows ih =>
    obtain ⟨number,offset,line⟩ := located
    simp only [goesOn] at on
    cases turn : registersTurn quoted report (number,offset,line) with
    | leave result s =>
      rw [turn] at on
      cases on
    | next next =>
      rw [turn] at on
      by_cases blank : Blank line
      · rw [solid_blank blank]
        exact ih on
      · rw [solid_cons blank]
        intro other member
        rcases List.mem_cons.mp member with rfl | later
        · exact (registersTurn_next turn).resolve_left blank
        · exact ih on other later

-- The ways the loop ends, at the first line of no known shape if there is one.
theorem parseInfoRegisters_cases (quoted : Text → Text) (text : Text) :
    ((∃ report, parseInfoRegisters quoted text = .ok report) ∧ ∀ line ∈ solidLines text, Known quoted line) ∨
    ∃ before line later, solidLines text = before ++ line :: later ∧ (∀ earlier ∈ before, Known quoted earlier) ∧
      ((∃ panic, registersLine quoted (trim line) = .error (.inl panic) ∧ parseInfoRegisters quoted text = .error (.panicked panic)) ∨
        ∃ reason e, registersLine quoted (trim line) = .error (.inr reason) ∧ parseInfoRegisters quoted text = .error (.parse e)) := by
  unfold parseInfoRegisters
  cases whole : loop (registersTurn quoted) .empty (linesWithOffsets text) with
  | mk result rest =>
    obtain ⟨report,rest⟩ := rest
    cases result with
    | none => exact .inl ⟨⟨report,rfl⟩,registers_on (loop_ended whole)⟩
    | some result =>
      obtain ⟨seen,⟨number,offset,line⟩,m,cut,on,last⟩ := loop_left whole
      obtain ⟨filled,ends⟩ := registersTurn_leave last
      refine .inr ⟨solid seen,line,solid rest,?_,registers_on on,ends⟩
      rw [solidLines,cut,solid_append,solid_cons filled]

-- The parser never panics exactly where the first line of no known shape can be
-- cut at byte 2.
theorem parseInfoRegisters_total (quoted : Text → Text) (text : Text) : (∀ panic, parseInfoRegisters quoted text ≠ .error (.panicked panic)) ↔
    ∀ before line later, solidLines text = before ++ line :: later → (∀ earlier ∈ before, Known quoted earlier) →
      HasBoundary 2 (trim line) := by
  constructor
  · intro total before line later cut known
    by_contra off
    obtain ⟨panic,failed⟩ := (registersLine_panics quoted (trim line)).mpr off
    have other : ¬ Known quoted line := by
      rintro ⟨update,read⟩
      cases failed.symm.trans read
    rcases parseInfoRegisters_cases quoted text with ⟨_,all⟩ | ⟨before',line',later',cut',known',ends⟩
    · exact other (all line (by rw [cut]; simp))
    · have other' : ¬ Known quoted line' := by
        rintro ⟨update,read⟩
        rcases ends with ⟨panic,failed,_⟩ | ⟨reason,e,failed,_⟩
        · cases failed.symm.trans read
        · cases failed.symm.trans read
      obtain ⟨_,rfl,_⟩ := first_unique (cut.symm.trans cut') known other known' other'
      rcases ends with ⟨panic',_,answer⟩ | ⟨reason,e,failed',_⟩
      · exact total panic' answer
      · cases failed.symm.trans failed'
  · intro cuts panic answer
    rcases parseInfoRegisters_cases quoted text with ⟨⟨report,same⟩,_⟩ | ⟨before,line,later,cut,known,⟨panic',failed,_⟩ | ⟨reason,e,_,same⟩⟩
    · cases answer.symm.trans same
    · exact (registersLine_panics quoted (trim line)).mp ⟨panic',failed⟩ (cuts before line later cut known)
    · cases answer.symm.trans same

-- Output that breaks off behind the first letter of a line, and a line whose
-- first character takes three bytes.
theorem short_line_panics : ¬ (∀ panic, parseInfoRegisters id "CPU#0\nE".toList ≠ .error (.panicked panic)) ∧
    ¬ ∀ panic, parseInfoRegisters id [Char.ofNat 0x20AC] ≠ .error (.panicked panic) := by
  constructor
  · intro total
    exact total .charBoundary (by decide +kernel)
  · intro total
    exact total .charBoundary (by decide +kernel)

end PrincessIDE.Monitor
