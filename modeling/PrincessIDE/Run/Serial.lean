import PrincessIDE.Core.Event
import PrincessIDE.Foundation.Str

namespace PrincessIDE.Serial
open Utf8 Str Event

def bannerPrefix : Text := "PrincessIDE".toList
def exceptionPrefix : Text := "EXCEPTION: vector=".toList
def faultPrefix : Text := "FAULT_RIP=".toList
def panicPrefix : Text := "PANIC:".toList
def pagingEnabledMarker : Text := "CR0.PG=1".toList
def pagingDisabledMarker : Text := "CR0.PG=0".toList
def faultErrorPrefix : Text := "FAULT_ERROR=".toList

structure RawFault where
  vectorNumber : Option Nat
  vector : Text
  rip : Nat
  ripText : Text
  errorCode : Nat
  cs : Option Text
  rflags : Option Text
deriving DecidableEq, Repr

namespace RawFault

def intoPayload (f : RawFault) (symbolicated : Option SymbolicatedLocation) : RunFaultPayload :=
  let regs : RegisterFile := RegisterFile.insert "RIP".toList f.ripText []
  let regs := match f.cs with
    | some cs => regs.insert "CS".toList cs
    | none => regs
  let regs := match f.rflags with
    | some rflags => regs.insert "RFLAGS".toList rflags
    | none => regs
  ⟨f.vector,f.rip,f.ripText,f.errorCode,regs,symbolicated⟩

def isPageFault (f : RawFault) : Bool := f.vectorNumber == some 14 || f.vector == "#PF".toList

end RawFault

inductive PageFaultGate where
  | pagingConfirmed
  | pagingUnproven
  | pagingDisabled
  | notApplicable
deriving DecidableEq, Repr

inductive SerialObservation where
  | banner (text : Text)
  | fault (fault : RawFault)
  | panicked
  | pagingState (enabled : Bool)
deriving DecidableEq, Repr

structure SerialObserver where
  banner : Option Text
  panicSeen : Bool
  pagingEnabled : Option Bool
  lastVector : Option (Nat × Text)
  fault : Option RawFault
  faultCount : Nat
  pageFaultGate : Option PageFaultGate
deriving DecidableEq, Repr

def SerialObserver.new : SerialObserver := ⟨none,false,none,none,none,0,none⟩

def detectBanner (line : Text) : Option Text :=
  let trimmed := trim line
  if !startsWith bannerPrefix trimmed then none
  else if startsWith ['['] trimmed then none
  else some trimmed

def parseHexU64 (text : Text) : Option Nat :=
  let trimmed := trimEndMatches (· = ',') (trim text)
  let digits := ((stripPrefix "0x".toList trimmed).or (stripPrefix "0X".toList trimmed)).getD trimmed
  if digits = [] || !digits.all isHexDigit then none else fromStrRadix 16 u64 digits

def vectorName : Nat → Text
  | 0 => "#DE".toList
  | 1 => "#DB".toList
  | 2 => "NMI".toList
  | 3 => "#BP".toList
  | 4 => "#OF".toList
  | 5 => "#BR".toList
  | 6 => "#UD".toList
  | 7 => "#NM".toList
  | 8 => "#DF".toList
  | 10 => "#TS".toList
  | 11 => "#NP".toList
  | 12 => "#SS".toList
  | 13 => "#GP".toList
  | 14 => "#PF".toList
  | 16 => "#MF".toList
  | 17 => "#AC".toList
  | 18 => "#MC".toList
  | 19 => "#XM".toList
  | 21 => "#CP".toList
  | _ => "unknown".toList

def parseVector (rest : Text) : Option (Nat × Text) := do
  let token ← (splitWhitespace rest).head?
  let number := (← parseHexU64 token) % u32
  let name := match splitOnce ['('] rest with
    | some (_,after) =>
      let candidate := (splitWhitespace after).headD []
      if startsWith ['#'] candidate || candidate.all isAsciiUppercase then candidate else vectorName number
    | none => vectorName number
  return (number,name)

def readField (f : RawFault) (field : Text) : RawFault :=
  match stripPrefix "cs=".toList field with
  | some value => {f with cs:=some value}
  | none => match stripPrefix "rflags=".toList field with
    | some value => {f with rflags:=some value}
    | none => match stripPrefix "error=".toList field with
      | some value => {f with errorCode:=(parseHexU64 value).getD 0}
      | none => f

def parseFault (rest : Text) : Option RawFault :=
  match splitWhitespace rest with
  | [] => none
  | ripText :: fields => match parseHexU64 ripText with
    | none => none
    | some rip => some (fields.foldl readField ⟨none,[],rip,ripText,0,none,none⟩)

def gateFor (o : SerialObserver) (f : RawFault) : PageFaultGate :=
  if !f.isPageFault then .notApplicable
  else match o.pagingEnabled with
    | some true => .pagingConfirmed
    | some false => .pagingDisabled
    | none => .pagingUnproven

-- The parts of `feed`, each with what it adds to the observations.
def feedBanner (o : SerialObserver) (line : Text) : List SerialObservation × SerialObserver :=
  if o.banner = none then match detectBanner line with
    | some banner => ([.banner banner],{o with banner:=some banner})
    | none => ([],o)
  else ([],o)

def feedPaging (o : SerialObserver) (line : Text) : List SerialObservation × SerialObserver :=
  if contains pagingEnabledMarker line && o.pagingEnabled != some true then
    ([.pagingState true],{o with pagingEnabled:=some true})
  else if contains pagingDisabledMarker line && o.pagingEnabled != some false then
    ([.pagingState false],{o with pagingEnabled:=some false})
  else ([],o)

def feedVector (o : SerialObserver) (line : Text) : SerialObserver :=
  match (splitOnce exceptionPrefix line).bind (fun found => parseVector found.2) with
  | some vector => {o with lastVector:=some vector}
  | none => o

def lineError (line : Text) : Option Nat :=
  (splitOnce faultErrorPrefix line).bind (fun found => (splitWhitespace found.2).head?.bind parseHexU64)

def completeFault (o : SerialObserver) (line : Text) (f : RawFault) : RawFault :=
  let f := match o.lastVector with
    | some (number,name) => {f with vectorNumber:=some number,vector:=name}
    | none => f
  match lineError line with
  | some error => {f with errorCode:=error}
  | none => f

def feedFault (o : SerialObserver) (line : Text) : List SerialObservation × SerialObserver :=
  match (splitOnce faultPrefix line).bind (fun found => parseFault found.2) with
  | some f =>
    let f := completeFault o line f
    ([.fault f],{o with faultCount:=o.faultCount+1,pageFaultGate:=some (gateFor o f),fault:=some f})
  | none => ([],o)

def feedPanic (o : SerialObserver) (line : Text) : List SerialObservation × SerialObserver :=
  if contains panicPrefix line && !o.panicSeen then ([.panicked],{o with panicSeen:=true}) else ([],o)

def feed (o : SerialObserver) (line : Text) : List SerialObservation × SerialObserver :=
  let banner := feedBanner o line
  let paging := feedPaging banner.2 line
  let fault := feedFault (feedVector paging.2 line) line
  let panicked := feedPanic fault.2 line
  (banner.1 ++ paging.1 ++ fault.1 ++ panicked.1,panicked.2)

-- What each part of `feed` reports, and the fields of the observer it may change.
theorem feedBanner_only (o : SerialObserver) (line : Text) :
    (∃ banner, (feedBanner o line).2 = {o with banner:=banner}) ∧ ∀ seen ∈ (feedBanner o line).1, ∃ banner, seen = .banner banner := by
  unfold feedBanner
  split
  · split
    · exact ⟨⟨_,rfl⟩,fun seen member => ⟨_,List.mem_singleton.mp member⟩⟩
    · exact ⟨⟨_,rfl⟩,fun seen member => nomatch member⟩
  · exact ⟨⟨_,rfl⟩,fun seen member => nomatch member⟩

theorem feedPaging_only (o : SerialObserver) (line : Text) :
    (∃ enabled, (feedPaging o line).2 = {o with pagingEnabled:=enabled}) ∧
      ∀ seen ∈ (feedPaging o line).1, ∃ enabled, seen = .pagingState enabled := by
  unfold feedPaging
  split
  · exact ⟨⟨_,rfl⟩,fun seen member => ⟨_,List.mem_singleton.mp member⟩⟩
  · split
    · exact ⟨⟨_,rfl⟩,fun seen member => ⟨_,List.mem_singleton.mp member⟩⟩
    · exact ⟨⟨_,rfl⟩,fun seen member => nomatch member⟩

theorem feedVector_only (o : SerialObserver) (line : Text) : ∃ vector, feedVector o line = {o with lastVector:=vector} := by
  unfold feedVector
  split
  · exact ⟨_,rfl⟩
  · exact ⟨_,rfl⟩

theorem feedFault_only (o : SerialObserver) (line : Text) :
    ∃ fault count gate, (feedFault o line).2 = {o with fault:=fault,faultCount:=count,pageFaultGate:=gate} := by
  unfold feedFault
  split
  · exact ⟨_,_,_,rfl⟩
  · exact ⟨_,_,_,rfl⟩

theorem feedPanic_only (o : SerialObserver) (line : Text) :
    (∃ seen, (feedPanic o line).2 = {o with panicSeen:=seen}) ∧ ∀ seen ∈ (feedPanic o line).1, seen = .panicked := by
  unfold feedPanic
  split
  · exact ⟨⟨_,rfl⟩,fun seen member => List.mem_singleton.mp member⟩
  · exact ⟨⟨_,rfl⟩,fun seen member => nomatch member⟩

-- The shortest text that makes a line report a fault.
structure FaultMark (mark : Text) : Prop where
  shape : ∃ blanks base digit, mark = faultPrefix ++ blanks ++ base ++ [digit] ∧
    (∀ c ∈ blanks, isWhitespace c = true ∧ c ≠ '\n') ∧
    (base = [] ∨ base = "0x".toList ∨ base = "0X".toList) ∧ isHexDigit digit = true

def CarriesFault (t : Text) : Prop := ∃ before mark after, t = before ++ mark ++ after ∧ FaultMark mark

theorem CarriesFault.within (inside : CarriesFault t) (before after : Text) : CarriesFault (before ++ t ++ after) := by
  obtain ⟨front,mark,back,rfl,marked⟩ := inside
  exact ⟨before++front,mark,back++after,by simp,marked⟩

theorem parseHexU64_cut (parsed : parseHexU64 t = some v) :
    ∃ blanks base digit tail, t = blanks ++ base ++ digit :: tail ∧ (∀ c ∈ blanks, isWhitespace c = true) ∧
      (base = [] ∨ base = "0x".toList ∨ base = "0X".toList) ∧ isHexDigit digit = true := by
  unfold parseHexU64 at parsed
  dsimp only at parsed
  obtain ⟨blanks,tail,cut,blank⟩ := trim_cut t
  obtain ⟨commas,rest,_⟩ := trimEndMatches_cut (· = ',') (trim t)
  generalize trimEndMatches (fun x => decide (x = ',')) (trim t) = trimmed at parsed rest
  split at parsed
  · cases parsed
  rename_i shape
  simp only [Bool.or_eq_true,decide_eq_true_eq,Bool.not_eq_true',not_or,Bool.not_eq_false,List.all_eq_true] at shape
  obtain ⟨some,hex⟩ := shape
  have based : ∃ base, trimmed = base ++ ((stripPrefix "0x".toList trimmed).or (stripPrefix "0X".toList trimmed)).getD trimmed ∧
      (base = [] ∨ base = "0x".toList ∨ base = "0X".toList) := by
    cases lower : stripPrefix "0x".toList trimmed with
    | some digits => exact ⟨_,stripPrefix_eq lower,.inr (.inl rfl)⟩
    | none => cases upper : stripPrefix "0X".toList trimmed with
      | some digits => exact ⟨_,stripPrefix_eq upper,.inr (.inr rfl)⟩
      | none => exact ⟨[],rfl,.inl rfl⟩
  obtain ⟨base,split,kind⟩ := based
  cases digits : ((stripPrefix "0x".toList trimmed).or (stripPrefix "0X".toList trimmed)).getD trimmed with
  | nil => exact absurd digits some
  | cons digit more =>
    rw [digits] at split hex
    refine ⟨blanks,base,digit,more++commas++tail,?_,blank,kind,hex digit (by simp)⟩
    rw [cut,rest,split]
    simp

theorem parseHexU64_digit (kind : base = [] ∨ base = "0x".toList ∨ base = "0X".toList) (hex : isHexDigit digit = true) :
    ∃ v, parseHexU64 (base ++ [digit]) = some v := by
  obtain ⟨solid,comma,plus,_,v,value,small⟩ := hexDigit_plain hex
  have start : trimStart (base ++ [digit]) = base ++ [digit] := by
    rcases kind with rfl | rfl | rfl
    · exact trimStart_solid solid []
    · exact trimStart_solid (by decide) _
    · exact trimStart_solid (by decide) _
  have trimmed : trim (base ++ [digit]) = base ++ [digit] := by rw [trim,start,trimEnd_solid solid]
  have kept : trimEndMatches (fun x => decide (x = ',')) (base ++ [digit]) = base ++ [digit] := by
    simp [trimEndMatches,comma]
  have digits : ((stripPrefix "0x".toList (base++[digit])).or (stripPrefix "0X".toList (base++[digit]))).getD (base++[digit]) = [digit] := by
    rcases kind with rfl | rfl | rfl <;> simp [stripPrefix]
  have read : fromStrRadix 16 u64 [digit] = some v := by
    have bound : v < u64 := Nat.lt_trans small (by decide)
    simp [fromStrRadix,plus,readDigits,value,bound]
  refine ⟨v,?_⟩
  unfold parseHexU64
  dsimp only
  rw [trimmed,kept,digits]
  simp [hex,read]

theorem faultMark_start (marked : FaultMark mark) : ∃ rest, mark = 'F' :: rest := by
  obtain ⟨blanks,base,digit,rfl,_⟩ := marked.shape
  exact ⟨_,rfl⟩

theorem faultMark_plain (marked : FaultMark mark) : '\n' ∉ mark ∧ replacement ∉ mark := by
  obtain ⟨blanks,base,digit,rfl,blank,kind,hex⟩ := marked.shape
  obtain ⟨solid,_,_,line,v,value,_⟩ := hexDigit_plain hex
  have unread : ∀ c ∈ blanks, c ≠ replacement := by
    rintro c member rfl
    exact absurd (blank _ member).1 (by decide)
  have digitOther : digit ≠ replacement := by
    rintro rfl
    rw [(by decide : digitValue 16 replacement = none)] at value
    cases value
  have baseOther : '\n' ∉ base ∧ replacement ∉ base := by rcases kind with rfl | rfl | rfl <;> decide
  have prefixOther : '\n' ∉ faultPrefix ∧ replacement ∉ faultPrefix := by decide
  simp only [List.mem_append,List.mem_singleton,not_or]
  exact ⟨⟨⟨⟨prefixOther.1,fun inside => (blank _ inside).2 rfl⟩,baseOther.1⟩,fun same => line same.symm⟩,
    ⟨⟨⟨prefixOther.2,fun inside => unread _ inside rfl⟩,baseOther.2⟩,fun same => digitOther same.symm⟩⟩

theorem faultMark_long (marked : FaultMark mark) : 11 ≤ mark.length := by
  obtain ⟨blanks,base,digit,rfl,_⟩ := marked.shape
  have name : faultPrefix.length = 10 := by decide
  simp only [List.length_append,List.length_singleton,name]
  omega

theorem carriesFault_long (inside : CarriesFault t) : 11 ≤ t.length := by
  obtain ⟨before,mark,after,rfl,marked⟩ := inside
  have long := faultMark_long marked
  simp only [List.length_append]
  omega

theorem parseFault_mark (marked : FaultMark mark) : ∃ f, (splitOnce faultPrefix mark).bind (fun found => parseFault found.2) = some f := by
  obtain ⟨blanks,base,digit,rfl,blank,kind,hex⟩ := marked.shape
  obtain ⟨v,parsed⟩ := parseHexU64_digit kind hex
  have solid : ∀ c ∈ base ++ [digit], isWhitespace c = false := by
    intro c member
    rcases List.mem_append.mp member with inside | last
    · rcases kind with rfl | rfl | rfl
      · cases inside
      · exact eq_of_beq (List.all_eq_true.mp (by decide : "0x".toList.all (isWhitespace · == false) = true) c inside)
      · exact eq_of_beq (List.all_eq_true.mp (by decide : "0X".toList.all (isWhitespace · == false) = true) c inside)
    · rw [List.mem_singleton.mp last]
      exact (hexDigit_plain hex).1
  have word : splitWhitespace (blanks ++ (base ++ [digit])) = [base ++ [digit]] := by
    rw [splitWhitespace,words_blank fun c member => (blank c member).1]
    exact words_solid solid (by simp)
  rw [List.append_assoc,List.append_assoc,splitOnce_start]
  simp only [Option.bind_some,parseFault,word,parsed]
  exact ⟨_,rfl⟩

theorem parseFault_carries (plain : '\n' ∉ line)
    (parsed : (splitOnce faultPrefix line).bind (fun found => parseFault found.2) = some f) : CarriesFault line := by
  obtain ⟨⟨before,rest⟩,found,fault⟩ := Option.bind_eq_some_iff.mp parsed
  have cut := splitOnce_eq found
  dsimp only at fault
  unfold parseFault at fault
  split at fault
  · cases fault
  · rename_i token fields split
    split at fault
    · cases fault
    · rename_i rip value
      obtain ⟨blanks,tail,front,blank,_⟩ := words_first split
      obtain ⟨more,base,digit,behind,shape,blank',kind,hex⟩ := parseHexU64_cut value
      rw [List.nil_append] at front
      refine ⟨before,faultPrefix ++ (blanks++more) ++ base ++ [digit],behind++tail,?_,⟨_,base,digit,rfl,?_,kind,hex⟩⟩
      · rw [cut,front,shape]; simp
      · intro c member
        refine ⟨(List.mem_append.mp member).elim (blank c) (blank' c),?_⟩
        rintro rfl
        refine plain ?_
        rw [cut,front,shape]
        simp only [List.mem_append] at member ⊢
        tauto

theorem feed_fault (o : SerialObserver) (line : Text) :
    (∃ f, .fault f ∈ (feed o line).1) ↔ ∃ f, (splitOnce faultPrefix line).bind (fun found => parseFault found.2) = some f := by
  have banner : ∀ o f, .fault f ∉ (feedBanner o line).1 := by
    intro o f member
    obtain ⟨_,other⟩ := (feedBanner_only o line).2 _ member
    cases other
  have paging : ∀ o f, .fault f ∉ (feedPaging o line).1 := by
    intro o f member
    obtain ⟨_,other⟩ := (feedPaging_only o line).2 _ member
    cases other
  have panicked : ∀ o f, .fault f ∉ (feedPanic o line).1 := by
    intro o f member
    cases (feedPanic_only o line).2 _ member
  simp only [feed,List.mem_append,banner,paging,panicked,false_or,or_false]
  unfold feedFault
  cases parsed : (splitOnce faultPrefix line).bind (fun found => parseFault found.2) <;> simp

end PrincessIDE.Serial
