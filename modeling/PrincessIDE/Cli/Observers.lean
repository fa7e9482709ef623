import PrincessIDE.Cli.Serial

namespace PrincessIDE.CliSerial
open Utf8 (Text)
open Str Event
open Serial (exceptionPrefix faultPrefix parseHexU64 parseVector lineError)

-- The faults that each of the two observers reports of some lines.
def engineFault : Serial.SerialObservation → Option Serial.RawFault
  | .fault f => some f
  | _ => none

def cliFault : SerialObservation → Option RawFault
  | .fault f => some f
  | _ => none

def engineFaults (o : Serial.SerialObserver) : List Text → List Serial.RawFault
  | [] => []
  | line :: rest => (Serial.feed o line).1.filterMap engineFault ++ engineFaults (Serial.feed o line).2 rest

def cliFaults (o : SerialObserver) : List Text → List RawFault
  | [] => []
  | line :: rest => (feed o line).1.filterMap cliFault ++ cliFaults (feed o line).2 rest

-- The facts of a fault as they are published: vector, address and its text,
-- error code and the registers CS and RFLAGS.
def Agree (lines : List Text) : Prop :=
  (cliFaults .new lines).map (fun f => f.intoPayload none) = (engineFaults .new lines).map (fun f => f.intoPayload none)

-- The address on a line that reports a fault, its text and the words behind it.
def faultWords (line : Text) : Option (Nat × Text × List Text) :=
  match (splitOnce faultPrefix line).map fun found => splitWhitespace found.2 with
  | some (ripText :: fields) => (parseHexU64 ripText).map (·,ripText,fields)
  | _ => none

def valuesOf (name : Text) (fields : List Text) : List Text := fields.filterMap (stripPrefix name)

-- The last `error=` of a line, and 0 where it has none or a malformed one.
def errorField (fields : List Text) : Nat := (((valuesOf "error=".toList fields).getLast?).bind parseHexU64).getD 0

-- A line that reports a fault names both registers, and no other error code than
-- its last `error=`.
structure Told (line : Text) (fields : List Text) : Prop where
  cs : valuesOf "cs=".toList fields ≠ []
  rflags : valuesOf "rflags=".toList fields ≠ []
  error : ∀ code, lineError line = some code → code = errorField fields

def vectorAfter (last : Option (Nat × Text)) (line : Text) : Option (Nat × Text) :=
  ((splitOnce exceptionPrefix line).bind (fun found => parseVector found.2)).or last

def engineParse (line : Text) : Option Serial.RawFault := (splitOnce faultPrefix line).bind (fun found => Serial.parseFault found.2)

def cliParse (line : Text) : Option RawFault := (splitOnce faultPrefix line).bind (fun found => parseFault found.2)

def engineVector (last : Option (Nat × Text)) (f : Serial.RawFault) : Serial.RawFault := match last with
  | some (number,name) => {f with vectorNumber:=some number,vector:=name}
  | none => f

def cliVector (last : Option (Nat × Text)) (f : RawFault) : RawFault := match last with
  | some (number,name) => {f with vectorNumber:=number,vector:=name}
  | none => f

def engineCode (line : Text) (f : Serial.RawFault) : Serial.RawFault := match lineError line with
  | some error => {f with errorCode:=error}
  | none => f

-- What the other parts of a line add is no fault, and leaves the last vector.
theorem engine_banner (o : Serial.SerialObserver) (line : Text) :
    (Serial.feedBanner o line).1.filterMap engineFault = [] ∧ (Serial.feedBanner o line).2.lastVector = o.lastVector := by
  obtain ⟨⟨_,changed⟩,only⟩ := Serial.feedBanner_only o line
  refine ⟨List.filterMap_eq_nil_iff.mpr fun seen member => ?_,by rw [changed]⟩
  obtain ⟨_,rfl⟩ := only seen member
  rfl

theorem engine_paging (o : Serial.SerialObserver) (line : Text) :
    (Serial.feedPaging o line).1.filterMap engineFault = [] ∧ (Serial.feedPaging o line).2.lastVector = o.lastVector := by
  obtain ⟨⟨_,changed⟩,only⟩ := Serial.feedPaging_only o line
  refine ⟨List.filterMap_eq_nil_iff.mpr fun seen member => ?_,by rw [changed]⟩
  obtain ⟨_,rfl⟩ := only seen member
  rfl

theorem engine_panic (o : Serial.SerialObserver) (line : Text) :
    (Serial.feedPanic o line).1.filterMap engineFault = [] ∧ (Serial.feedPanic o line).2.lastVector = o.lastVector := by
  obtain ⟨⟨_,changed⟩,only⟩ := Serial.feedPanic_only o line
  refine ⟨List.filterMap_eq_nil_iff.mpr fun seen member => ?_,by rw [changed]⟩
  rw [only seen member]
  rfl

theorem engine_vector (o : Serial.SerialObserver) (line : Text) :
    (Serial.feedVector o line).lastVector = vectorAfter o.lastVector line := by
  unfold Serial.feedVector vectorAfter
  cases (splitOnce exceptionPrefix line).bind (fun found => parseVector found.2) <;> rfl

theorem engine_fault (o : Serial.SerialObserver) (line : Text) : (Serial.feedFault o line).1.filterMap engineFault =
      ((engineParse line).map fun f => engineCode line (engineVector o.lastVector f)).toList ∧
    (Serial.feedFault o line).2.lastVector = o.lastVector := by
  unfold Serial.feedFault
  rw [show (splitOnce faultPrefix line).bind (fun found => Serial.parseFault found.2) = engineParse line from rfl]
  cases engineParse line <;> exact ⟨rfl,rfl⟩

theorem engine_feed (o : Serial.SerialObserver) (line : Text) : (Serial.feed o line).1.filterMap engineFault =
      ((engineParse line).map fun f => engineCode line (engineVector (vectorAfter o.lastVector line) f)).toList ∧
    (Serial.feed o line).2.lastVector = vectorAfter o.lastVector line := by
  unfold Serial.feed
  simp only [List.filterMap_append,engine_banner,engine_paging,engine_panic,engine_fault,engine_vector,List.nil_append,List.append_nil,and_self]

theorem cli_banner (o : SerialObserver) (line : Text) :
    (feedBanner o line).1.filterMap cliFault = [] ∧ (feedBanner o line).2.lastVector = o.lastVector := by
  unfold feedBanner
  split <;> exact ⟨rfl,rfl⟩

theorem cli_panic (o : SerialObserver) (line : Text) :
    (feedPanic o line).1.filterMap cliFault = [] ∧ (feedPanic o line).2.lastVector = o.lastVector := by
  unfold feedPanic
  split <;> exact ⟨rfl,rfl⟩

theorem cli_vector (o : SerialObserver) (line : Text) : (feedVector o line).lastVector = vectorAfter o.lastVector line := by
  unfold feedVector vectorAfter
  cases (splitOnce exceptionPrefix line).bind (fun found => parseVector found.2) <;> rfl

theorem cli_fault (o : SerialObserver) (line : Text) :
    (feedFault o line).1.filterMap cliFault = ((cliParse line).map (cliVector o.lastVector)).toList ∧
    (feedFault o line).2.lastVector = o.lastVector := by
  unfold feedFault
  rw [show (splitOnce faultPrefix line).bind (fun found => parseFault found.2) = cliParse line from rfl]
  cases cliParse line <;> exact ⟨rfl,rfl⟩

theorem cli_feed (o : SerialObserver) (line : Text) : (feed o line).1.filterMap cliFault =
      ((cliParse line).map (cliVector (vectorAfter o.lastVector line))).toList ∧
    (feed o line).2.lastVector = vectorAfter o.lastVector line := by
  unfold feed
  simp only [List.filterMap_append,cli_banner,cli_panic,cli_fault,cli_vector,List.nil_append,List.append_nil,and_self]

-- The two readings of one line: the registers of the CLI are empty where the
-- engine has none.
structure Alike (g : RawFault) (f : Serial.RawFault) : Prop where
  vector : g.vector = f.vector
  rip : g.rip = f.rip
  ripText : g.ripText = f.ripText
  errorCode : g.errorCode = f.errorCode
  cs : g.cs = f.cs.getD []
  rflags : g.rflags = f.rflags.getD []

theorem readField_alike (alike : Alike g f) (field : Text) : Alike (readField g field) (Serial.readField f field) := by
  obtain ⟨vector,rip,ripText,errorCode,cs,rflags⟩ := alike
  unfold readField Serial.readField
  cases stripPrefix "cs=".toList field with
  | some value => exact ⟨vector,rip,ripText,errorCode,rfl,rflags⟩
  | none => cases stripPrefix "rflags=".toList field with
    | some value => exact ⟨vector,rip,ripText,errorCode,cs,rfl⟩
    | none => cases stripPrefix "error=".toList field with
      | some value => exact ⟨vector,rip,ripText,rfl,cs,rflags⟩
      | none => exact ⟨vector,rip,ripText,errorCode,cs,rflags⟩

theorem readFields_alike (alike : Alike g f) (fields : List Text) : Alike (fields.foldl readField g) (fields.foldl Serial.readField f) := by
  induction fields generalizing g f with
  | nil => exact alike
  | cons field rest ih => exact ih (readField_alike alike field)

-- Each field goes to the register that it names.
structure Read (f g : Serial.RawFault) (field : Text) : Prop where
  cs : g.cs = (stripPrefix "cs=".toList field).or f.cs
  rflags : g.rflags = (stripPrefix "rflags=".toList field).or f.rflags
  error : g.errorCode = ((stripPrefix "error=".toList field).map fun value => (parseHexU64 value).getD 0).getD f.errorCode
  rip : g.rip = f.rip ∧ g.ripText = f.ripText

theorem readField_read (f : Serial.RawFault) (field : Text) : Read f (Serial.readField f field) field := by
  unfold Serial.readField
  cases cs : stripPrefix "cs=".toList field with
  | some value =>
    have rflags : stripPrefix "rflags=".toList field = none := stripPrefix_other (by decide) cs
    have error : stripPrefix "error=".toList field = none := stripPrefix_other (by decide) cs
    exact ⟨by rw [cs]; rfl,by rw [rflags]; rfl,by rw [error]; rfl,rfl,rfl⟩
  | none => cases rflags : stripPrefix "rflags=".toList field with
    | some value =>
      have error : stripPrefix "error=".toList field = none := stripPrefix_other (by decide) rflags
      exact ⟨by rw [cs]; rfl,by rw [rflags]; rfl,by rw [error]; rfl,rfl,rfl⟩
    | none => cases error : stripPrefix "error=".toList field with
      | some value => exact ⟨by rw [cs]; rfl,by rw [rflags]; rfl,by rw [error]; rfl,rfl,rfl⟩
      | none => exact ⟨by rw [cs]; rfl,by rw [rflags]; rfl,by rw [error]; rfl,rfl,rfl⟩

theorem valuesOf_last (name field : Text) (rest : List Text) :
    (valuesOf name (field :: rest)).getLast? = (valuesOf name rest).getLast?.or (stripPrefix name field) := by
  unfold valuesOf
  cases named : stripPrefix name field with
  | none => rw [List.filterMap_cons_none named,Option.or_none]
  | some value =>
    rw [List.filterMap_cons_some named,List.getLast?_cons]
    cases (rest.filterMap (stripPrefix name)).getLast? <;> rfl

-- After some fields a register has the last value that was given to it.
structure ReadAll (f g : Serial.RawFault) (fields : List Text) : Prop where
  cs : g.cs = (valuesOf "cs=".toList fields).getLast?.or f.cs
  rflags : g.rflags = (valuesOf "rflags=".toList fields).getLast?.or f.rflags
  error : g.errorCode = ((valuesOf "error=".toList fields).getLast?.map fun value => (parseHexU64 value).getD 0).getD f.errorCode

theorem readFields_read (f : Serial.RawFault) (fields : List Text) : ReadAll f (fields.foldl Serial.readField f) fields := by
  induction fields generalizing f with
  | nil => exact ⟨rfl,rfl,rfl⟩
  | cons field rest ih =>
    obtain ⟨cs,rflags,error⟩ := ih (Serial.readField f field)
    obtain ⟨cs₁,rflags₁,error₁,_⟩ := readField_read f field
    refine ⟨?_,?_,?_⟩
    · rw [List.foldl_cons,cs,cs₁,valuesOf_last,Option.or_assoc]
    · rw [List.foldl_cons,rflags,rflags₁,valuesOf_last,Option.or_assoc]
    · rw [List.foldl_cons,error,error₁,valuesOf_last]
      cases (valuesOf "error=".toList rest).getLast? <;> rfl

-- Both parsers find a fault on the same lines.
theorem engineParse_words (line : Text) : engineParse line =
    (faultWords line).map fun found => found.2.2.foldl Serial.readField ⟨none,[],found.1,found.2.1,0,none,none⟩ := by
  unfold engineParse faultWords
  cases splitOnce faultPrefix line with
  | none => rfl
  | some cut =>
    simp only [Option.bind_some,Option.map_some,Serial.parseFault]
    cases splitWhitespace cut.2 with
    | nil => rfl
    | cons ripText fields =>
      dsimp only
      cases parseHexU64 ripText <;> rfl

theorem cliParse_words (line : Text) : cliParse line =
    (faultWords line).map fun found => found.2.2.foldl readField ⟨0,[],found.1,found.2.1,0,[],[]⟩ := by
  unfold cliParse faultWords
  cases splitOnce faultPrefix line with
  | none => rfl
  | some cut =>
    simp only [Option.bind_some,Option.map_some,parseFault]
    cases splitWhitespace cut.2 with
    | nil => rfl
    | cons ripText fields =>
      dsimp only
      cases parseHexU64 ripText <;> rfl

theorem cli_regs (f : RawFault) (symbolicated : Option SymbolicatedLocation) : (f.intoPayload symbolicated).regs =
    [("CS".toList,f.cs),("RFLAGS".toList,f.rflags),("RIP".toList,f.ripText)] := rfl

theorem engine_regs (f : Serial.RawFault) (symbolicated : Option SymbolicatedLocation) : (f.intoPayload symbolicated).regs =
    (f.cs.map ("CS".toList,·)).toList ++ (f.rflags.map ("RFLAGS".toList,·)).toList ++ [("RIP".toList,f.ripText)] := by
  unfold Serial.RawFault.intoPayload
  cases f.cs <;> cases f.rflags <;> rfl

theorem engineCode_eq (line : Text) (f : Serial.RawFault) : engineCode line f = {f with errorCode:=(lineError line).getD f.errorCode} := by
  unfold engineCode
  cases lineError line <;> rfl

theorem vector_alike (alike : Alike g f) (last : Option (Nat × Text)) : Alike (cliVector last g) (engineVector last f) := by
  cases last with
  | none => exact alike
  | some named => exact ⟨rfl,alike.rip,alike.ripText,alike.errorCode,alike.cs,alike.rflags⟩

theorem engineVector_same (last : Option (Nat × Text)) (f : Serial.RawFault) : (engineVector last f).cs = f.cs ∧
    (engineVector last f).rflags = f.rflags ∧ (engineVector last f).errorCode = f.errorCode := by
  cases last <;> exact ⟨rfl,rfl,rfl⟩

-- The engine publishes what the CLI does exactly if it has both registers and
-- no other error code.
theorem payload_iff (alike : Alike g f) (code : Nat) : g.intoPayload none = ({f with errorCode:=code} : Serial.RawFault).intoPayload none ↔
    f.cs ≠ none ∧ f.rflags ≠ none ∧ code = f.errorCode := by
  obtain ⟨vector,rip,ripText,errorCode,cs,rflags⟩ := alike
  have all : g.intoPayload none = ({f with errorCode:=code} : Serial.RawFault).intoPayload none ↔
      (g.intoPayload none).regs = (f.intoPayload none).regs ∧ code = f.errorCode := by
    rw [RunFaultPayload.mk.injEq]
    change (g.vector = f.vector ∧ g.rip = f.rip ∧ g.ripText = f.ripText ∧ g.errorCode = code ∧
      (g.intoPayload none).regs = (f.intoPayload none).regs ∧ none = none) ↔ _
    simp [vector,rip,ripText,errorCode,and_comm,eq_comm]
  rw [all,cli_regs,engine_regs,cs,rflags,ripText,← and_assoc]
  refine and_congr_left fun _ => ?_
  cases f.cs <;> cases f.rflags <;> simp

-- One line by what it says: both observers find its fault, or neither.
theorem line_payloads (last : Option (Nat × Text)) (line : Text) :
    ((engineParse line).map fun f => engineCode line (engineVector last f)).toList.length = ((cliParse line).map (cliVector last)).toList.length ∧
    (((cliParse line).map (cliVector last)).toList.map (fun g => g.intoPayload none) =
      ((engineParse line).map fun f => engineCode line (engineVector last f)).toList.map (fun f => f.intoPayload none) ↔
      ∀ found, faultWords line = some found → Told line found.2.2) := by
  rw [engineParse_words,cliParse_words]
  cases words : faultWords line with
  | none => exact ⟨rfl,fun _ _ => nofun,fun _ => rfl⟩
  | some found =>
    obtain ⟨rip,ripText,fields⟩ := found
    refine ⟨rfl,?_⟩
    obtain ⟨cs,rflags,error⟩ := readFields_read ⟨none,[],rip,ripText,0,none,none⟩ fields
    have alike := readFields_alike (g:=⟨0,[],rip,ripText,0,[],[]⟩) (f:=⟨none,[],rip,ripText,0,none,none⟩) ⟨rfl,rfl,rfl,rfl,rfl,rfl⟩ fields
    simp only [Option.map_some,Option.toList_some,List.map_singleton,List.cons.injEq,and_true,Option.some.injEq,forall_eq']
    generalize fields.foldl readField _ = g at alike
    generalize fields.foldl Serial.readField _ = f at *
    obtain ⟨sameCs,sameRflags,sameError⟩ := engineVector_same last f
    have field : f.errorCode = errorField fields := by
      rw [error,errorField]
      cases (valuesOf "error=".toList fields).getLast? <;> rfl
    rw [engineCode_eq,payload_iff (vector_alike alike last),sameCs,sameRflags,sameError,cs,rflags,field,Option.or_none,Option.or_none,
      Ne,Ne,List.getLast?_eq_none_iff,List.getLast?_eq_none_iff]
    constructor
    · rintro ⟨hasCs,hasRflags,code⟩
      exact ⟨hasCs,hasRflags,fun other named => by rw [named] at code; exact code⟩
    · rintro ⟨hasCs,hasRflags,code⟩
      refine ⟨hasCs,hasRflags,?_⟩
      cases named : lineError line with
      | none => rfl
      | some other => exact code other named

-- By induction on the lines, from observers that remember the same vector.
theorem faults_agree (same : c.lastVector = e.lastVector) (lines : List Text) :
    (cliFaults c lines).map (fun f => f.intoPayload none) = (engineFaults e lines).map (fun f => f.intoPayload none) ↔
      ∀ line ∈ lines, ∀ found, faultWords line = some found → Told line found.2.2 := by
  induction lines generalizing c e with
  | nil => exact ⟨fun _ _ member => (List.not_mem_nil member).elim,fun _ => rfl⟩
  | cons line rest ih =>
    obtain ⟨cli,cliNext⟩ := cli_feed c line
    obtain ⟨engine,engineNext⟩ := engine_feed e line
    obtain ⟨lengths,here⟩ := line_payloads (vectorAfter e.lastVector line) line
    rw [cliFaults,engineFaults,cli,engine,same,List.map_append,List.map_append,List.forall_mem_cons,← here,
      ← ih (show (feed c line).2.lastVector = (Serial.feed e line).2.lastVector by rw [cliNext,engineNext,same])]
    refine ⟨fun both => List.append_inj both (by rw [List.length_map,List.length_map,lengths]),fun both => ?_⟩
    rw [both.1,both.2]

theorem observers_agree_iff (lines : List Text) :
    Agree lines ↔ ∀ line ∈ lines, ∀ found, faultWords line = some found → Told line found.2.2 := faults_agree rfl lines

-- A line that names no register, and one that carries two error codes.
theorem observers_disagree : ¬ Agree ["FAULT_RIP=0x100b3d".toList] ∧
    ¬ Agree ["FAULT_RIP=0x1000 cs=0x8 rflags=0x2 error=0x0 FAULT_ERROR=0x2".toList] := by
  constructor <;> (unfold Agree; decide +kernel)

end PrincessIDE.CliSerial
