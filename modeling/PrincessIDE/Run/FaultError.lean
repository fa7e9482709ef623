import PrincessIDE.Foundation.Words
import PrincessIDE.Run.Launch
import Mathlib.Data.List.Forall2

namespace PrincessIDE.Serial
open Utf8 Str
open RunBackend (found seenFaults)

-- A text in which the guest prints neither an address nor an error code.
def Quiet (t : Text) : Prop := splitOnce faultPrefix t = none ∧ splitOnce faultErrorPrefix t = none

instance : DecidablePred Quiet := fun t => inferInstanceAs (Decidable (splitOnce faultPrefix t = none ∧ splitOnce faultErrorPrefix t = none))

abbrev QuietText := {t : Text // Quiet t}

-- A further `name=value` behind the address, such as `cs=` and `rflags=`.
abbrev RegisterField := {t : Text // (t ≠ [] ∧ t.all (isWhitespace · == false) = true) ∧ startsWith "error=".toList t = false ∧ Quiet t}

-- Where a kernel prints the error code: as `error=` or as `FAULT_ERROR=` on the
-- line of the address, or on a line after it.
inductive ErrorPlace where
  | field
  | marked
  | later (between : List QuietText)

def ErrorPlace.together : ErrorPlace → Bool
  | .field | .marked => true
  | .later _ => false

structure PrintedFault where
  kernel : QuietText
  vector : BitVec 64
  name : QuietText
  between : List QuietText
  -- The least number of digits the kernel prints of a 64-bit number.
  digits : Nat
  rip : BitVec 64
  fields : List RegisterField
  error : BitVec 64
  place : ErrorPlace

-- `0x%0*lx`
def hexWord (width : Nat) (n : BitVec 64) : Text := "0x".toList ++ padded width n.toNat

def tagged (kernel text : Text) : Text := '[' :: (kernel ++ ']' :: ' ' :: text)

namespace PrintedFault

def exceptionLine (f : PrintedFault) : Text :=
  tagged f.kernel.val (exceptionPrefix ++ hexWord 2 f.vector ++ ' ' :: '(' :: (f.name.val ++ [')']))

def errorField (f : PrintedFault) : Text := "error=".toList ++ hexWord f.digits f.error
def errorMark (f : PrintedFault) : Text := faultErrorPrefix ++ hexWord f.digits f.error

def ripWords (f : PrintedFault) : List Text := f.fields.map (·.val) ++ match f.place with
  | .field => [f.errorField]
  | .marked => [f.errorMark]
  | .later _ => []

def ripLine (f : PrintedFault) : Text :=
  tagged f.kernel.val (faultPrefix ++ (hexWord f.digits f.rip ++ following f.ripWords))

def errorLines (f : PrintedFault) : List Text := match f.place with
  | .field | .marked => []
  | .later between => between.map (·.val) ++ [tagged f.kernel.val f.errorMark]

def texts (f : PrintedFault) : List Text :=
  f.exceptionLine :: (f.between.map (·.val) ++ f.ripLine :: f.errorLines)

end PrintedFault

-- A serial stream: the faults a guest prints among its other lines.
inductive SerialPart where
  | other (line : QuietText)
  | fault (f : PrintedFault)

def SerialPart.texts : SerialPart → List Text
  | .other line => [line.val]
  | .fault f => f.texts

def SerialPart.fault? : SerialPart → Option PrintedFault
  | .other _ => none
  | .fault f => some f

def serialTexts (stream : List SerialPart) : List Text := stream.flatMap SerialPart.texts
def printed (stream : List SerialPart) : List PrintedFault := stream.filterMap SerialPart.fault?

-- The reported fault is the printed one and has its error code.
def Carries (seen : RawFault) (f : PrintedFault) : Prop := seen.rip = f.rip.toNat ∧ seen.errorCode = f.error.toNat

-- What a line reports does not depend on the lines before it, the vector apart.
def lineFault (line : Text) : Option (Nat × Nat) :=
  ((splitOnce faultPrefix line).bind fun found => parseFault found.2).map fun f => (f.rip,(lineError line).getD f.errorCode)

def ripAndError (f : RawFault) : Nat × Nat := (f.rip,f.errorCode)

theorem completeFault_error (o : SerialObserver) (line : Text) (f : RawFault) :
    ripAndError (completeFault o line f) = (f.rip,(lineError line).getD f.errorCode) := by
  unfold completeFault
  cases o.lastVector <;> cases lineError line <;> rfl

-- Of the parts of `feed` only one reports faults.
theorem seenFaults_feed (o : SerialObserver) (line : Text) : seenFaults (feed o line).1 =
    seenFaults (feedFault (feedVector (feedPaging (feedBanner o line).2 line).2 line) line).1 := by
  have banner : ∀ o, seenFaults (feedBanner o line).1 = [] := by
    refine fun o => List.filterMap_eq_nil_iff.mpr fun seen member => ?_
    obtain ⟨_,rfl⟩ := (feedBanner_only o line).2 seen member
    rfl
  have paging : ∀ o, seenFaults (feedPaging o line).1 = [] := by
    refine fun o => List.filterMap_eq_nil_iff.mpr fun seen member => ?_
    obtain ⟨_,rfl⟩ := (feedPaging_only o line).2 seen member
    rfl
  have panicked : ∀ o, seenFaults (feedPanic o line).1 = [] := by
    refine fun o => List.filterMap_eq_nil_iff.mpr fun seen member => ?_
    rw [(feedPanic_only o line).2 seen member]
  simp only [seenFaults] at banner paging panicked
  simp only [feed,seenFaults,List.filterMap_append,banner,paging,panicked,List.nil_append,List.append_nil]

theorem feed_reported (o : SerialObserver) (line : Text) :
    (seenFaults (feed o line).1).map ripAndError = (lineFault line).toList := by
  rw [seenFaults_feed]
  generalize feedVector (feedPaging (feedBanner o line).2 line).2 line = o
  unfold feedFault lineFault
  cases (splitOnce faultPrefix line).bind fun found => parseFault found.2 with
  | none => rfl
  | some f => exact congrArg (· :: []) (completeFault_error o line f)

theorem found_reported (o : SerialObserver) (rows : List Text) : (found o rows).map ripAndError = rows.filterMap lineFault := by
  induction rows generalizing o with
  | nil => rfl
  | cons line rows ih =>
    rw [found,List.map_append,feed_reported,ih]
    cases seen : lineFault line <;> simp [seen]

-- What the reading of a printed line is built from.
theorem parseHexU64_hexWord (width : Nat) (n : BitVec 64) : parseHexU64 (hexWord width n) = some n.toNat := by
  have hex : ∀ c ∈ padded width n.toNat, isHexDigit c = true := fun c member => padded_hex member
  have filled := padded_filled width n.toNat
  have start : trimStart (hexWord width n) = hexWord width n := trimStart_solid (by decide) _
  obtain ⟨digits,digit,shape⟩ : ∃ digits digit, padded width n.toNat = digits ++ [digit] :=
    ⟨_,_,(List.dropLast_append_getLast filled).symm⟩
  have last := hexDigit_plain (hex digit (by simp [shape]))
  have whole : hexWord width n = ("0x".toList ++ digits) ++ [digit] := by rw [hexWord,shape,List.append_assoc]
  have trimmed : trim (hexWord width n) = hexWord width n := by
    rw [trim,start,whole,trimEnd_solid last.1]
  have kept : trimEndMatches (· = ',') (hexWord width n) = hexWord width n := by
    rw [whole]
    simp [trimEndMatches,last.2.1]
  unfold parseHexU64
  dsimp only
  rw [trimmed,kept]
  have bare : stripPrefix "0x".toList (hexWord width n) = some (padded width n.toNat) := stripPrefix_append _ _
  rw [bare,Option.some_or,Option.getD_some,if_neg (by simpa [filled] using hex)]
  exact fromStrRadix_padded n.isLt width

theorem hexWord_solid (width : Nat) (n : BitVec 64) : hexWord width n ≠ [] ∧ ∀ c ∈ hexWord width n, isWhitespace c = false := by
  have base : "0x".toList.all (isWhitespace · == false) = true := by decide
  refine ⟨by simp [hexWord],?_⟩
  intro c member
  rcases List.mem_append.mp member with front | digit
  · exact eq_of_beq (List.all_eq_true.mp base c front)
  · exact (hexDigit_plain (padded_hex digit)).1

theorem hexWord_word (width : Nat) (n : BitVec 64) : splitWhitespace (hexWord width n) = [hexWord width n] :=
  words_solid (hexWord_solid width n).2 (hexWord_solid width n).1

-- The marks as a pattern: no blank and no bracket of a printed line stands in one.
def Mark (pat : Text) : Prop := ['[',']',' ','(',')'].all (!pat.contains ·) = true ∧ splitOnce pat [] = none

theorem faultPrefix_mark : Mark faultPrefix := ⟨by decide,by decide⟩
theorem faultErrorPrefix_mark : Mark faultErrorPrefix := ⟨by decide,by decide⟩

theorem Mark.gap (mark : Mark pat) (member : c ∈ ['[',']',' ','(',')']) : c ∉ pat := by
  simpa using List.all_eq_true.mp mark.1 c member

theorem splitOnce_tagged (mark : Mark pat) (quiet : splitOnce pat kernel = none) (t : Text) :
    splitOnce pat (tagged kernel t) = (splitOnce pat t).map fun found => (tagged kernel found.1,found.2) := by
  have blank := splitOnce_gap (mark.gap (by simp : ' ' ∈ _)) mark.2 t
  have close := splitOnce_gap (mark.gap (by simp : ']' ∈ _)) quiet (' ' :: t)
  have opened := splitOnce_gap (mark.gap (by simp : '[' ∈ _)) mark.2 (kernel ++ ']' :: ' ' :: t)
  rw [List.nil_append] at blank opened
  rw [tagged,opened,close,blank]
  simp [Function.comp_def,tagged]

theorem readField_rip (f : RawFault) (field : Text) : (readField f field).rip = f.rip := by
  unfold readField
  repeat' split
  all_goals rfl

theorem readField_other (other : startsWith "error=".toList field = false) (f : RawFault) :
    (readField f field).errorCode = f.errorCode := by
  have off : stripPrefix "error=".toList field = none := Option.isNone_iff_eq_none.mp (by simpa [startsWith] using other)
  unfold readField
  rw [off]
  cases stripPrefix "cs=".toList field <;> cases stripPrefix "rflags=".toList field <;> rfl

theorem readFields_other {row : List Text} (others : ∀ field ∈ row, startsWith "error=".toList field = false) (f : RawFault) :
    ripAndError (row.foldl readField f) = ripAndError f := by
  induction row generalizing f with
  | nil => rfl
  | cons field row ih =>
    obtain ⟨first,later⟩ := List.forall_mem_cons.mp others
    rw [List.foldl_cons,ih later,ripAndError,readField_rip,readField_other first,ripAndError]

theorem parseFault_words {row : List Text} (each : ∀ field ∈ row, field ≠ [] ∧ ∀ c ∈ field, isWhitespace c = false) (width : Nat) (n : BitVec 64) :
    parseFault (hexWord width n ++ following row) = some (row.foldl readField ⟨none,[],n.toNat,hexWord width n,0,none,none⟩) := by
  have solid := hexWord_solid width n
  unfold parseFault
  rw [words_following solid.2 solid.1 each]
  dsimp only
  rw [parseHexU64_hexWord]

-- A pattern with a letter that is no digit stands in no number behind such a name.
theorem splitOnce_number (letter : isHexDigit c = false) (needed : c ∈ pat) (bare : c ∉ front ++ "0x".toList) (width : Nat) (n : BitVec 64) :
    splitOnce pat (front ++ hexWord width n) = none := by
  refine splitOnce_none (c:=c) ?_ needed
  rw [hexWord,← List.append_assoc,List.mem_append,not_or]
  refine ⟨bare,fun digit => ?_⟩
  rw [padded_hex digit] at letter
  cases letter

theorem following_snoc (row : List Text) (w : Text) : following (row ++ [w]) = following row ++ ' ' :: w := by
  simp [following]

namespace PrintedFault

theorem exceptionLine_quiet (f : PrintedFault) : splitOnce faultPrefix f.exceptionLine = none := by
  have vector := splitOnce_number (by decide : isHexDigit 'U' = false) (by decide : 'U' ∈ faultPrefix) (by decide : 'U' ∉ exceptionPrefix ++ _) 2 f.vector
  have close := splitOnce_gap (faultPrefix_mark.gap (by simp : ')' ∈ _)) f.name.property.1 []
  have opened := splitOnce_gap (faultPrefix_mark.gap (by simp : '(' ∈ _)) faultPrefix_mark.2 (f.name.val ++ [')'])
  have blank := splitOnce_gap (faultPrefix_mark.gap (by simp : ' ' ∈ _)) vector ('(' :: (f.name.val ++ [')']))
  rw [List.nil_append] at opened
  rw [exceptionLine,splitOnce_tagged faultPrefix_mark f.kernel.property.1,blank,opened,close,faultPrefix_mark.2]
  rfl

theorem errorMark_quiet (f : PrintedFault) : splitOnce faultPrefix f.errorMark = none :=
  splitOnce_number (by decide : isHexDigit 'P' = false) (by decide) (by decide) f.digits f.error

theorem errorField_quiet (f : PrintedFault) : splitOnce faultErrorPrefix f.errorField = none :=
  splitOnce_number (by decide : isHexDigit 'O' = false) (by decide) (by decide) f.digits f.error

-- The line of the address up to an error code that stands on it.
def ripFront (f : PrintedFault) : Text := faultPrefix ++ hexWord f.digits f.rip ++ following (f.fields.map (·.val))

theorem ripFront_quiet (f : PrintedFault) : splitOnce faultErrorPrefix f.ripFront = none := by
  refine splitOnce_following (by decide) (splitOnce_number (by decide : isHexDigit 'O' = false) (by decide) (by decide) f.digits f.rip) ?_
  intro v member
  obtain ⟨field,_,rfl⟩ := List.mem_map.mp member
  exact field.property.2.2.2

theorem ripLine_error (f : PrintedFault) : lineError f.ripLine =
    (splitOnce faultErrorPrefix (faultPrefix ++ (hexWord f.digits f.rip ++ following f.ripWords))).bind
      fun cut => (splitWhitespace cut.2).head?.bind parseHexU64 := by
  rw [lineError,ripLine,splitOnce_tagged faultErrorPrefix_mark f.kernel.property.2,Option.bind_map]
  rfl

def readAddress (f : PrintedFault) : RawFault := ⟨none,[],f.rip.toNat,hexWord f.digits f.rip,0,none,none⟩

theorem fields_read (f : PrintedFault) : ripAndError ((f.fields.map (·.val)).foldl readField f.readAddress) = (f.rip.toNat,0) := by
  refine readFields_other ?_ f.readAddress
  intro v member
  obtain ⟨field,_,rfl⟩ := List.mem_map.mp member
  exact field.property.2.1

theorem ripWords_solid (f : PrintedFault) : ∀ word ∈ f.ripWords, word ≠ [] ∧ ∀ c ∈ word, isWhitespace c = false := by
  have named : ∀ name : Text, name.all (isWhitespace · == false) = true →
      name ++ hexWord f.digits f.error ≠ [] ∧ ∀ c ∈ name ++ hexWord f.digits f.error, isWhitespace c = false := by
    intro name bare
    obtain ⟨some,solid⟩ := hexWord_solid f.digits f.error
    refine ⟨by simp [some],?_⟩
    intro c member
    rcases List.mem_append.mp member with front | value
    · exact eq_of_beq (List.all_eq_true.mp bare c front)
    · exact solid c value
  intro word member
  rcases List.mem_append.mp member with front | last
  · obtain ⟨field,_,rfl⟩ := List.mem_map.mp front
    exact ⟨field.property.1.1,fun c inside => eq_of_beq (List.all_eq_true.mp field.property.1.2 c inside)⟩
  · cases place : f.place with
    | field =>
      rw [place] at last
      rw [List.mem_singleton.mp last]
      exact named "error=".toList (by decide)
    | marked =>
      rw [place] at last
      rw [List.mem_singleton.mp last]
      exact named faultErrorPrefix (by decide)
    | later between =>
      rw [place] at last
      cases last

theorem ripLine_fault (f : PrintedFault) : lineFault f.ripLine =
    some ((f.ripWords.foldl readField f.readAddress).rip,(lineError f.ripLine).getD (f.ripWords.foldl readField f.readAddress).errorCode) := by
  have cut : splitOnce faultPrefix f.ripLine = some (tagged f.kernel.val [],hexWord f.digits f.rip ++ following f.ripWords) := by
    rw [ripLine,splitOnce_tagged faultPrefix_mark f.kernel.property.1,splitOnce_start]
    rfl
  rw [lineFault,cut,Option.bind_some,parseFault_words f.ripWords_solid]
  rfl

-- The printed code is read from either place on the line, and no code is read as 0.
theorem ripLine_reports (f : PrintedFault) : lineFault f.ripLine = some (f.rip.toNat,if f.place.together then f.error.toNat else 0) := by
  obtain ⟨rip,error⟩ := Prod.ext_iff.mp f.fields_read
  dsimp only [ripAndError] at rip error
  have front := f.ripFront_quiet
  have last : ∀ word, splitOnce faultErrorPrefix (faultPrefix ++ (hexWord f.digits f.rip ++ following (f.fields.map (·.val) ++ [word]))) =
      (splitOnce faultErrorPrefix word).map fun found => (f.ripFront ++ ' ' :: found.1,found.2) := by
    intro word
    rw [following_snoc,← List.append_assoc,← List.append_assoc]
    exact splitOnce_gap (faultErrorPrefix_mark.gap (by simp)) front word
  rw [ripLine_fault,ripLine_error]
  cases place : f.place with
  | later between =>
    have row : f.ripWords = f.fields.map (·.val) := by rw [ripWords,place]; exact List.append_nil _
    rw [ripFront,List.append_assoc] at front
    rw [row,front,rip,error]
    rfl
  | field =>
    have row : f.ripWords = f.fields.map (·.val) ++ [f.errorField] := by rw [ripWords,place]
    have code : (readField ((f.fields.map (·.val)).foldl readField f.readAddress) f.errorField).errorCode = f.error.toNat := by
      have named : stripPrefix "error=".toList f.errorField = some (hexWord f.digits f.error) := stripPrefix_append _ _
      have cs : stripPrefix "cs=".toList f.errorField = none := stripPrefix_other (by decide) named
      have rflags : stripPrefix "rflags=".toList f.errorField = none := stripPrefix_other (by decide) named
      rw [readField,cs,rflags,named]
      dsimp only
      rw [parseHexU64_hexWord,Option.getD_some]
    rw [row,last,f.errorField_quiet,List.foldl_append,List.foldl_cons,List.foldl_nil,readField_rip,rip,code]
    rfl
  | marked =>
    have row : f.ripWords = f.fields.map (·.val) ++ [f.errorMark] := by rw [ripWords,place]
    have named : splitOnce faultErrorPrefix f.errorMark = some ([],hexWord f.digits f.error) := splitOnce_start _ _
    rw [row,last,named,List.foldl_append,List.foldl_cons,List.foldl_nil,readField_rip,rip,Option.map_some,Option.bind_some,
      hexWord_word,List.head?_cons,Option.bind_some,parseHexU64_hexWord]
    rfl

theorem texts_report (f : PrintedFault) : f.texts.filterMap lineFault = [(f.rip.toNat,if f.place.together then f.error.toNat else 0)] := by
  have still : ∀ t, splitOnce faultPrefix t = none → lineFault t = none := fun t none => by rw [lineFault,none]; rfl
  have others : ∀ between : List QuietText, (between.map (·.val)).filterMap lineFault = [] := by
    intro between
    rw [List.filterMap_eq_nil_iff]
    intro t member
    obtain ⟨line,_,rfl⟩ := List.mem_map.mp member
    exact still _ line.property.1
  have behind : f.errorLines.filterMap lineFault = [] := by
    unfold errorLines
    cases f.place with
    | field | marked => rfl
    | later between =>
      have code : lineFault (tagged f.kernel.val f.errorMark) = none := by
        refine still _ ?_
        rw [splitOnce_tagged faultPrefix_mark f.kernel.property.1,f.errorMark_quiet]
        rfl
      dsimp only
      rw [List.filterMap_append,others,List.nil_append,List.filterMap_cons_none code,List.filterMap_nil]
  rw [texts,List.filterMap_cons_none (still _ f.exceptionLine_quiet),List.filterMap_append,others,List.nil_append,
    List.filterMap_cons_some f.ripLine_reports,behind]

end PrintedFault

theorem serialTexts_report (stream : List SerialPart) : (serialTexts stream).filterMap lineFault =
    (printed stream).map fun f => (f.rip.toNat,if f.place.together then f.error.toNat else 0) := by
  induction stream with
  | nil => rfl
  | cons part stream ih =>
    rw [serialTexts,List.flatMap_cons,List.filterMap_append]
    rw [serialTexts] at ih
    rw [ih]
    cases part with
    | other line =>
      have none : lineFault line.val = none := by rw [lineFault,line.property.1]; rfl
      rw [SerialPart.texts,List.filterMap_cons_none none]
      rfl
    | fault f => rw [SerialPart.texts,f.texts_report]; rfl

theorem feed_errors_iff (o : SerialObserver) (stream : List SerialPart) :
    List.Forall₂ Carries (found o (serialTexts stream)) (printed stream) ↔
      ∀ f ∈ printed stream, f.place.together = true ∨ f.error = 0 := by
  have reports := (found_reported o (serialTexts stream)).trans (serialTexts_report stream)
  have same : List.Forall₂ Carries (found o (serialTexts stream)) (printed stream) ↔
      (found o (serialTexts stream)).map ripAndError = (printed stream).map fun f => (f.rip.toNat,f.error.toNat) := by
    rw [← List.forall₂_eq_eq_eq,List.forall₂_map_left_iff,List.forall₂_map_right_iff]
    simp only [ripAndError,Prod.mk.injEq]
    rfl
  rw [same,reports,List.map_inj_left]
  refine forall₂_congr fun f _ => ?_
  cases f.place.together <;> simp [eq_comm,BitVec.toNat_eq]

-- The paging kernel's report of a write to an absent page.
def pagingFault : PrintedFault where
  kernel := ⟨"pagingkernel".toList,by decide⟩
  vector := 0x0e
  name := ⟨"#PF page fault".toList,by decide⟩
  between := []
  digits := 16
  rip := 0x1011dd
  fields := [⟨"cs=0x0008".toList,by decide⟩,⟨"rflags=0x0000000000000002".toList,by decide⟩]
  error := 2
  place := .later []

example : pagingFault.texts = [
    "[pagingkernel] EXCEPTION: vector=0x0e (#PF page fault)".toList,
    "[pagingkernel] FAULT_RIP=0x00000000001011dd cs=0x0008 rflags=0x0000000000000002".toList,
    "[pagingkernel] FAULT_ERROR=0x0000000000000002".toList] := by decide +kernel

theorem paging_error_lost : ¬ ∀ o stream, List.Forall₂ Carries (found o (serialTexts stream)) (printed stream) := by
  intro claim
  have seen := claim .new [.fault pagingFault]
  have lost : (found .new (serialTexts [.fault pagingFault])).map ripAndError = [(0x1011dd,0)] := by decide +kernel
  cases reports : found .new (serialTexts [.fault pagingFault]) with
  | nil => rw [reports] at lost; cases lost
  | cons f rest =>
    rw [reports] at seen lost
    have kept : f.errorCode = 2 := (List.forall₂_cons.mp seen).1.2
    have zero : f.errorCode = 0 := congrArg Prod.snd (List.cons.inj lost).1
    exact absurd (kept.symm.trans zero) (by decide)

end PrincessIDE.Serial
