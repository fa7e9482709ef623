import PrincessIDE.Guest.Kernels
import PrincessIDE.Run.FaultEvents

namespace PrincessIDE.Fixture
open Utf8 Str Memory Console Serial

-- Every name a kernel prints is that of one of these vectors.
theorem vectorName_each {P : Text → Prop} (each : ∀ n : Fin 23, P (vectorName (.ofNat 64 n))) (v : U64) : P (vectorName v) := by
  by_cases small : v.toNat < 22
  · have here := each ⟨v.toNat,by omega⟩
    rwa [BitVec.ofNat_toNat,BitVec.setWidth_eq] at here
  · have same : vectorName v = vectorName 22 := by
      unfold vectorName
      split <;> first | omega | rfl
    rw [same]
    exact each 22

def nameChar (c : Char) : Bool := smoothChar c && c ≠ '_' && c ≠ ':' && c ≠ '.'

theorem vectorName_plain (v : U64) : (vectorName v).all nameChar = true := by
  apply vectorName_each (P:=fun name => name.all nameChar = true)
  decide +kernel

theorem vectorName_smooth (v : U64) : (vectorName v).all smoothChar = true := by
  apply List.all_eq_true.mpr
  intro c member
  have here := List.all_eq_true.mp (vectorName_plain v) c member
  simp only [nameChar,Bool.and_eq_true] at here
  exact here.1.1.1

theorem vectorName_absent (mark : '_' ∈ pat ∨ ':' ∈ pat ∨ '.' ∈ pat) (v : U64) : splitOnce pat (vectorName v) = none := by
  have each := List.all_eq_true.mp (vectorName_plain v)
  rcases mark with mark | mark | mark
  all_goals
    apply splitOnce_none (c:=_) _ mark
    intro member
    exact absurd (each _ member) (by decide)

-- What the host takes for the vector's name: the word behind the bracket where it
-- looks like one, and its own name otherwise. Both kernels print the host's names.
def bracketWord (name : Text) : Text := (splitWhitespace (name ++ [')'])).headD []

def hostName (word : Text) (number : Nat) : Text :=
  if startsWith ['#'] word || word.all isAsciiUppercase then word else Serial.vectorName number

theorem hostName_vector (v : U64) : hostName (bracketWord (vectorName v)) (v.toNat % u32) = Serial.vectorName (v.toNat % u32) := by
  have each : ∀ n : Fin 22, hostName (bracketWord (vectorName (.ofNat 64 n))) n = Serial.vectorName n := by decide +kernel
  by_cases small : v.toNat < 22
  · have here := each ⟨v.toNat,small⟩
    rw [BitVec.ofNat_toNat,BitVec.setWidth_eq] at here
    rw [Nat.mod_eq_of_lt (Nat.lt_trans small (by decide))]
    exact here
  · have same : vectorName v = literal "unknown exception" := by
      unfold vectorName
      split <;> first | omega | rfl
    have word : bracketWord (literal "unknown exception") = literal "unknown" := by decide +kernel
    rw [same,word]
    rfl

-- A pattern that reaches across no bracket is looked for behind the kernel's name.
structure Bracketed (kernel pat : Text) : Prop where
  gaps : '[' ∉ pat ∧ ']' ∉ pat
  bare : splitOnce pat [] = none
  quiet : splitOnce pat kernel = none
  start : stripPrefix pat [' '] = none ∧ pat.head? ≠ some ' '

theorem splitOnce_bracketed (bracketed : Bracketed kernel pat) (t : Text) :
    splitOnce pat (tagged kernel t) = (splitOnce pat t).map fun found => (tagged kernel found.1,found.2) := by
  have opened := splitOnce_gap bracketed.gaps.1 bracketed.bare (kernel ++ ']' :: ' ' :: t)
  have closed := splitOnce_gap bracketed.gaps.2 bracketed.quiet (' ' :: t)
  have blank : stripPrefix pat (' ' :: t) = none := by
    cases pat with
    | nil => exact absurd bracketed.start.1 (by simp [stripPrefix])
    | cons p pat =>
      rw [stripPrefix,if_neg]
      intro same
      exact bracketed.start.2 (congrArg some same)
  rw [List.nil_append] at opened
  rw [tagged,opened,closed,splitOnce,blank]
  simp [Function.comp_def,tagged]

def exceptionRow (kernel : Text) (v : U64) : Text :=
  tagged kernel (exceptionPrefix ++ (hexWord 2 v ++ ' ' :: '(' :: (vectorName v ++ [')'])))

theorem parseVector_row (v : U64) : parseVector (hexWord 2 v ++ ' ' :: '(' :: (vectorName v ++ [')'])) =
    some (v.toNat % u32,Serial.vectorName (v.toNat % u32)) := by
  have solid := hexWord_solid 2 v
  have filled : [] ++ hexWord 2 v ≠ [] := solid.1
  have first : (splitWhitespace (hexWord 2 v ++ ' ' :: '(' :: (vectorName v ++ [')']))).head? = some (hexWord 2 v) := by
    rw [splitWhitespace,words_word solid.2 filled (by decide)]
    rfl
  have opened : '(' ∉ hexWord 2 v ++ [' '] := by
    intro member
    rcases List.mem_append.mp member with digit | blank
    · rcases List.mem_append.mp digit with base | digit
      · exact absurd base (by decide)
      · exact absurd (padded_hex digit) (by decide)
    · exact absurd blank (by decide)
  have cut : splitOnce ['('] (hexWord 2 v ++ ' ' :: '(' :: (vectorName v ++ [')'])) = some (hexWord 2 v ++ [' '],vectorName v ++ [')']) := by
    have found := splitOnce_char opened (vectorName v ++ [')'])
    rwa [List.append_assoc] at found
  unfold parseVector
  rw [first,Option.bind_eq_bind,Option.bind_some,parseHexU64_hexWord,Option.bind_eq_bind,Option.bind_some,cut]
  exact congrArg (fun name => some (v.toNat % u32,name)) (hostName_vector v)

theorem lineVector_exception (bracketed : Bracketed kernel exceptionPrefix) (v : U64) :
    lineVector (exceptionRow kernel v) = some (v.toNat % u32,Serial.vectorName (v.toNat % u32)) := by
  rw [lineVector,exceptionRow,splitOnce_bracketed bracketed,splitOnce_start,Option.map_some,Option.bind_some,parseVector_row]

-- Behind the mark of the exception's line nothing else is found.
theorem exceptionRow_absent (mark : Mark pat) (bracketed : Bracketed kernel pat) (word : splitOnce pat "EXCEPTION:".toList = none)
    (letter : isHexDigit c = false) (needed : c ∈ pat) (bare : c ∉ "vector=".toList ++ "0x".toList)
    (other : '_' ∈ pat ∨ ':' ∈ pat ∨ '.' ∈ pat) (v : U64) : splitOnce pat (exceptionRow kernel v) = none := by
  have number := splitOnce_number letter needed bare 2 v
  have name := vectorName_absent other v
  have close := splitOnce_gap (mark.gap (by simp : ')' ∈ _)) name []
  have opened := splitOnce_gap (mark.gap (by simp : '(' ∈ _)) mark.2 (vectorName v ++ [')'])
  have blank := splitOnce_gap (mark.gap (by simp : ' ' ∈ _)) number ('(' :: (vectorName v ++ [')']))
  have front := splitOnce_gap (mark.gap (by simp : ' ' ∈ _)) word ("vector=".toList ++ hexWord 2 v ++ ' ' :: '(' :: (vectorName v ++ [')']))
  have shape : exceptionPrefix ++ (hexWord 2 v ++ ' ' :: '(' :: (vectorName v ++ [')'])) =
      "EXCEPTION:".toList ++ ' ' :: ("vector=".toList ++ hexWord 2 v ++ ' ' :: '(' :: (vectorName v ++ [')'])) := by
    rw [List.append_assoc]
    rfl
  rw [List.nil_append] at opened
  rw [exceptionRow,splitOnce_bracketed bracketed,shape,front,blank,opened,close,mark.2]
  rfl

-- The line of the address with the words behind it.
def word (name : String) (width : Nat) (n : U64) : Text := name.toList ++ hexWord width n

def registerWords (frame : ExceptionFrame) : List Text := [word "cs=" 4 frame.cs,word "rflags=" 16 frame.rflags]

def errorWord (frame : ExceptionFrame) : Text := word "error=" 16 frame.error

def ripRow (kernel : Text) (frame : ExceptionFrame) (more : List Text) : Text :=
  tagged kernel (faultPrefix ++ (hexWord 16 frame.rip ++ following (registerWords frame ++ more)))

def readFrame (frame : ExceptionFrame) (error : Nat) : RawFault :=
  ⟨none,[],frame.rip.toNat,hexWord 16 frame.rip,error,some (hexWord 4 frame.cs),some (hexWord 16 frame.rflags)⟩

theorem word_solid {name : String} (bare : name.toList.all (isWhitespace · == false) = true) (width : Nat) (n : U64) :
    word name width n ≠ [] ∧ ∀ c ∈ word name width n, isWhitespace c = false := by
  obtain ⟨filled,solid⟩ := hexWord_solid width n
  refine ⟨by simp [word,filled],fun c member => ?_⟩
  rcases List.mem_append.mp member with front | value
  · exact eq_of_beq (List.all_eq_true.mp bare c front)
  · exact solid c value

theorem readField_cs (f : RawFault) (width : Nat) (n : U64) : readField f (word "cs=" width n) = {f with cs:=some (hexWord width n)} := by
  rw [readField,word,stripPrefix_append]

theorem readField_rflags (f : RawFault) (width : Nat) (n : U64) : readField f (word "rflags=" width n) = {f with rflags:=some (hexWord width n)} := by
  have found : stripPrefix "rflags=".toList (word "rflags=" width n) = some (hexWord width n) := stripPrefix_append _ _
  have other : stripPrefix "cs=".toList (word "rflags=" width n) = none := stripPrefix_other (by decide) found
  rw [readField,other,found]

theorem readField_error (f : RawFault) (width : Nat) (n : U64) : readField f (word "error=" width n) = {f with errorCode:=n.toNat} := by
  have found : stripPrefix "error=".toList (word "error=" width n) = some (hexWord width n) := stripPrefix_append _ _
  have cs : stripPrefix "cs=".toList (word "error=" width n) = none := stripPrefix_other (by decide) found
  have rflags : stripPrefix "rflags=".toList (word "error=" width n) = none := stripPrefix_other (by decide) found
  rw [readField,cs,rflags,found]
  dsimp only
  rw [parseHexU64_hexWord]
  rfl

theorem lineRaw_row (bracketed : Bracketed kernel faultPrefix) (frame : ExceptionFrame) {more : List Text} {error : Nat}
    (solid : ∀ word ∈ more, word ≠ [] ∧ ∀ c ∈ word, isWhitespace c = false)
    (read : more.foldl readField (readFrame frame 0) = readFrame frame error) : lineRaw (ripRow kernel frame more) = some (readFrame frame error) := by
  have each : ∀ word ∈ registerWords frame ++ more, word ≠ [] ∧ ∀ c ∈ word, isWhitespace c = false := by
    intro word member
    rcases List.mem_append.mp member with register | other
    · rcases List.mem_cons.mp register with rfl | rflags
      · exact word_solid (by decide) 4 frame.cs
      · rw [List.mem_singleton.mp rflags]
        exact word_solid (by decide) 16 frame.rflags
    · exact solid word other
  rw [lineRaw,ripRow,splitOnce_bracketed bracketed,splitOnce_start,Option.map_some,Option.bind_some,parseFault_words each,List.foldl_append,
    registerWords,List.foldl_cons,List.foldl_cons,List.foldl_nil,readField_cs,readField_rflags]
  exact congrArg some read

theorem lineRaw_error (bracketed : Bracketed kernel faultPrefix) (frame : ExceptionFrame) :
    lineRaw (ripRow kernel frame [errorWord frame]) = some (readFrame frame frame.error.toNat) := by
  apply lineRaw_row bracketed frame
  · intro word member
    rw [List.mem_singleton.mp member]
    exact word_solid (by decide) 16 frame.error
  · exact readField_error (readFrame frame 0) 16 frame.error

theorem lineRaw_bare (bracketed : Bracketed kernel faultPrefix) (frame : ExceptionFrame) :
    lineRaw (ripRow kernel frame []) = some (readFrame frame 0) := by
  apply lineRaw_row bracketed frame
  · intro word member
    cases member
  · rfl

-- What the observer makes of the three lines of a report.
theorem feed_exception (known : o.banner ≠ none) (vector : lineVector row = some v) (fault : splitOnce faultPrefix row = none)
    (panicked : contains panicPrefix row = false)
    (paging : contains pagingEnabledMarker row = false ∧ contains pagingDisabledMarker row = false) :
    feed o row = ([],{o with lastVector:=some v}) := by
  have named : feedVector o row = {o with lastVector:=some v} := by
    rw [lineVector] at vector
    rw [feedVector,vector]
  simp only [feed,feedBanner_known known,feedPaging_unmarked paging,named,feedFault_unmarked fault,feedPanic_unmarked panicked]
  rfl

def named (f : RawFault) (vector : Nat × Text) : RawFault := {f with vectorNumber:=some vector.1,vector:=vector.2}

def reported (o : SerialObserver) (f : RawFault) : SerialObserver :=
  {o with fault:=some f,faultCount:=o.faultCount+1,pageFaultGate:=some (gateFor o f)}

theorem feed_rip (known : o.banner ≠ none) (last : o.lastVector = some v) (raw : lineRaw row = some f)
    (vector : splitOnce exceptionPrefix row = none) (error : splitOnce faultErrorPrefix row = none) (panicked : contains panicPrefix row = false)
    (paging : contains pagingEnabledMarker row = false ∧ contains pagingDisabledMarker row = false) :
    feed o row = ([.fault (named f v)],reported o (named f v)) := by
  have code : lineError row = none := by
    rw [lineError,error]
    rfl
  have whole : completeFault o row f = named f v := by
    rw [completeFault,last,code]
    rfl
  have found : feedFault o row = ([.fault (named f v)],reported o (named f v)) := by
    rw [lineRaw] at raw
    rw [feedFault,raw]
    dsimp only
    rw [whole]
    rfl
  simp only [feed,feedBanner_known known,feedPaging_unmarked paging,feedVector_unmarked vector,found,feedPanic_unmarked panicked]
  rfl

theorem feed_panic (known : o.banner ≠ none) (unseen : o.panicSeen = false) (panicked : contains panicPrefix row = true)
    (vector : splitOnce exceptionPrefix row = none) (fault : splitOnce faultPrefix row = none)
    (paging : contains pagingEnabledMarker row = false ∧ contains pagingDisabledMarker row = false) :
    feed o row = ([.panicked],{o with panicSeen:=true}) := by
  have found : feedPanic o row = ([.panicked],{o with panicSeen:=true}) := by
    rw [feedPanic,panicked,unseen]
    rfl
  simp only [feed,feedBanner_known known,feedPaging_unmarked paging,feedVector_unmarked vector,feedFault_unmarked fault,found]
  rfl

-- The marks in the brackets of a kernel's name.
structure Tag (kernel : Text) : Prop where
  vector : Bracketed kernel exceptionPrefix
  fault : Bracketed kernel faultPrefix
  panicked : Bracketed kernel panicPrefix
  enabled : Bracketed kernel pagingEnabledMarker
  disabled : Bracketed kernel pagingDisabledMarker

theorem refkernel_tag : Tag "refkernel".toList :=
  ⟨⟨by decide,by decide,by decide,by decide⟩,⟨by decide,by decide,by decide,by decide⟩,⟨by decide,by decide,by decide,by decide⟩,
    ⟨by decide,by decide,by decide,by decide⟩,⟨by decide,by decide,by decide,by decide⟩⟩

theorem pagingkernel_tag : Tag "pagingkernel".toList :=
  ⟨⟨by decide,by decide,by decide,by decide⟩,⟨by decide,by decide,by decide,by decide⟩,⟨by decide,by decide,by decide,by decide⟩,
    ⟨by decide,by decide,by decide,by decide⟩,⟨by decide,by decide,by decide,by decide⟩⟩

theorem panicPrefix_mark : Mark panicPrefix := ⟨by decide,by decide⟩
theorem enabledMarker_mark : Mark pagingEnabledMarker := ⟨by decide,by decide⟩
theorem disabledMarker_mark : Mark pagingDisabledMarker := ⟨by decide,by decide⟩

theorem feed_exceptionRow (tag : Tag kernel) (known : o.banner ≠ none) (v : U64) :
    feed o (exceptionRow kernel v) = ([],{o with lastVector:=some (v.toNat % u32,Serial.vectorName (v.toNat % u32))}) := by
  apply feed_exception known (lineVector_exception tag.vector v)
  · exact exceptionRow_absent faultPrefix_mark tag.fault (by decide) (c:= 'U') (by decide) (by decide) (by decide) (by decide) v
  · exact contains_none (exceptionRow_absent panicPrefix_mark tag.panicked (by decide) (c:= 'P') (by decide) (by decide) (by decide) (by decide) v)
  · exact ⟨contains_none (exceptionRow_absent enabledMarker_mark tag.enabled (by decide) (c:= '.') (by decide) (by decide) (by decide) (by decide) v),
      contains_none (exceptionRow_absent disabledMarker_mark tag.disabled (by decide) (c:= '.') (by decide) (by decide) (by decide) (by decide) v)⟩

theorem tagged_append (kernel a b : Text) : tagged kernel (a ++ b) = tagged kernel a ++ b := by simp [tagged]

theorem exceptionCall_row (front : Text) (same : front.flatMap serialPutc = tagged kernel (exceptionPrefix ++ "0x".toList)) (v : U64) :
    (Call.printf [.text front,hexLong 2 v,lit " (",Console.str (vectorName v),lit ")"]).row = exceptionRow kernel v := by
  have name := puts_plain (vectorName_smooth v)
  have opened : (literal " (").flatMap serialPutc = [' ','('] := by decide
  have closed : (literal ")").flatMap serialPutc = [')'] := by decide
  have shown : (hexLong 2 v).shown = padded 2 v.toNat := numeral_hex 2 v.toNat
  have text : (Console.str (vectorName v)).shown = vectorName v := by
    rw [Console.str,Piece.shown,Conversion.shown,Option.getD_some,serialPuts,name.2,name.1]
  rw [Call.row,List.flatMap_cons,List.flatMap_cons,List.flatMap_cons,List.flatMap_cons,List.flatMap_cons,List.flatMap_nil,shown,text,lit,lit,
    Piece.shown,Piece.shown,Piece.shown,same,opened,closed,exceptionRow,hexWord,tagged_append,tagged_append]
  simp

-- The words of the address's line, from the format's pieces.
theorem ripCall_row (front : Text) (same : front.flatMap serialPutc = tagged kernel (faultPrefix ++ "0x".toList)) (frame : ExceptionFrame) :
    (Call.printf [.text front,hexLong 16 frame.rip,lit " cs=0x",hexLong 4 frame.cs,lit " rflags=0x",hexLong 16 frame.rflags]).row =
      ripRow kernel frame [] := by
  have cs : (literal " cs=0x").flatMap serialPutc = ' ' :: ("cs=".toList ++ "0x".toList) := by decide
  have rflags : (literal " rflags=0x").flatMap serialPutc = ' ' :: ("rflags=".toList ++ "0x".toList) := by decide
  have shown : ∀ width (v : BitVec 64), (hexLong width v).shown = padded width v.toNat := fun width v => numeral_hex width v.toNat
  rw [Call.row,List.flatMap_cons,List.flatMap_cons,List.flatMap_cons,List.flatMap_cons,List.flatMap_cons,List.flatMap_cons,List.flatMap_nil,
    shown,shown,shown,lit,lit,Piece.shown,Piece.shown,Piece.shown,same,cs,rflags,ripRow,registerWords,following,word,word,hexWord,hexWord,hexWord,
    tagged_append,tagged_append]
  simp

theorem ripCall_error_row (front : Text) (same : front.flatMap serialPutc = tagged kernel (faultPrefix ++ "0x".toList)) (frame : ExceptionFrame) :
    (Call.printf [.text front,hexLong 16 frame.rip,lit " cs=0x",hexLong 4 frame.cs,lit " rflags=0x",hexLong 16 frame.rflags,
      lit " error=0x",hexLong 16 frame.error]).row = ripRow kernel frame [errorWord frame] := by
  have bare := ripCall_row front same frame
  have error : (lit " error=0x").shown = ' ' :: ("error=".toList ++ "0x".toList) := by decide
  have shown : (hexLong 16 frame.error).shown = padded 16 frame.error.toNat := numeral_hex 16 frame.error.toNat
  have more : ripRow kernel frame [errorWord frame] = ripRow kernel frame [] ++ ' ' :: errorWord frame := by
    simp [ripRow,following,tagged]
  rw [more,← bare,Call.row,Call.row,errorWord,word,hexWord]
  simp only [List.flatMap_cons,List.flatMap_nil,List.append_nil,shown,List.append_assoc]
  rw [error]
  simp

-- A call whose line has no room for a mark.
theorem call_absent {call : Call} (smooth : call.smooth = true) (lacks : (pat : Text).any call.lacks = true) : splitOnce pat call.row = none := by
  obtain ⟨c,inside,here⟩ := List.any_eq_true.mp lacks
  exact splitOnce_none (call.lacks_row smooth here) inside

-- The characters of a build stamp stand in no mark.
def stampChar (c : Char) : Bool := smoothChar c && c ≠ '%' && !(['X','_','P','.'].contains c)

theorem stampChar_digit (member : c ∈ decimal n) : stampChar c = true := by
  have each : ∀ d : Fin 10, stampChar (Nat.digitChar d) = true := by decide
  have digit := decimal_isDigit member
  have same : c = Nat.digitChar (c.toNat-48) := by
    have code : ∀ d : Fin 10, (Nat.digitChar d).toNat = 48 + d := by decide
    apply Char.toNat_inj.mp
    have value := code ⟨c.toNat-48,by omega⟩
    dsimp only at value
    omega
  rw [same]
  exact each ⟨c.toNat-48,by omega⟩

theorem stampChar_leftpad (plain : stampChar pad = true) (width n : Nat) : ∀ c ∈ (decimal n).leftpad width pad, stampChar c = true := by
  intro c member
  rw [List.leftpad] at member
  rcases List.mem_append.mp member with front | digit
  · rw [List.eq_of_mem_replicate front]
    exact plain
  · exact stampChar_digit digit

theorem stamp_plain (stamp : BuildStamp) : (∀ c ∈ stamp.date, stampChar c = true) ∧ ∀ c ∈ stamp.time, stampChar c = true := by
  have months : ∀ name ∈ monthNames, ∀ c ∈ literal name, stampChar c = true := by
    have all : monthNames.all (fun name => (literal name).all stampChar) = true := by decide
    exact fun name member => List.all_eq_true.mp (List.all_eq_true.mp all name member)
  have blank : stampChar ' ' = true := by decide
  have colon : stampChar ':' = true := by decide
  have zero : stampChar '0' = true := by decide
  constructor
  · intro c member
    simp only [BuildStamp.date,List.mem_append,List.mem_cons] at member
    rcases member with (month | rfl | day) | rfl | year
    · exact months _ (List.getElem_mem _) c month
    · exact blank
    · exact stampChar_leftpad blank 2 stamp.day c day
    · exact blank
    · exact stampChar_leftpad zero 4 stamp.year c year
  · intro c member
    simp only [BuildStamp.time,List.mem_append,List.mem_cons] at member
    rcases member with (hour | rfl | minute) | rfl | second
    · exact stampChar_leftpad zero 2 stamp.hour c hour
    · exact colon
    · exact stampChar_leftpad zero 2 stamp.minute c minute
    · exact colon
    · exact stampChar_leftpad zero 2 stamp.second c second

theorem stamp_piece {t : Text} (plain : ∀ c ∈ t, stampChar c = true) :
    (Piece.text t).smooth = true ∧ ∀ c ∈ ['X','_','P','.'], (Piece.text t).lacks c = true := by
  constructor
  · apply List.all_eq_true.mpr
    intro c member
    have here := plain c member
    simp only [stampChar,Bool.and_eq_true] at here
    simpa using here.1
  · intro c mark
    have absent : c ∉ t := by
      intro member
      have here := plain c member
      simp only [stampChar,Bool.and_eq_true,Bool.not_eq_true',List.contains_eq_mem,decide_eq_false_iff_not] at here
      exact here.2 mark
    simpa [Piece.lacks] using absent

-- A call whose line the observer passes over.
def Mild (call : Call) : Prop := call.smooth = true ∧ call.silent = true

theorem mild_build {front : String} (smooth : (lit front).smooth = true) (lacks : ∀ c ∈ ['X','_','P','.'], (lit front).lacks c = true)
    (stamp : BuildStamp) : Mild (.printf [lit front,.text stamp.date,lit " ",.text stamp.time]) := by
  obtain ⟨date,dateLacks⟩ := stamp_piece (stamp_plain stamp).1
  obtain ⟨time,timeLacks⟩ := stamp_piece (stamp_plain stamp).2
  have blank : (lit " ").smooth = true ∧ ∀ c ∈ ['X','_','P','.'], (lit " ").lacks c = true :=
    ⟨rfl,List.all_eq_true.mp (by decide)⟩
  have row : ∀ c ∈ ['X','_','P','.'], (Call.printf [lit front,.text stamp.date,lit " ",.text stamp.time]).lacks c = true := by
    intro c mark
    simp only [Call.lacks,List.all_cons,List.all_nil,lacks c mark,dateLacks c mark,blank.2 c mark,timeLacks c mark]
    rfl
  refine ⟨?_,?_⟩
  · simp only [Call.smooth,List.all_cons,List.all_nil,smooth,date,blank.1,time]
    rfl
  · apply List.all_eq_true.mpr
    intro pat member
    apply List.any_eq_true.mpr
    have marked : ∃ c ∈ ['X','_','P','.'], c ∈ pat := by
      have each : ∀ pat ∈ [exceptionPrefix,faultPrefix,panicPrefix,pagingEnabledMarker,pagingDisabledMarker],
          ['X','_','P','.'].any (fun c => pat.contains c) = true := by decide
      obtain ⟨c,inside,here⟩ := List.any_eq_true.mp (each pat member)
      exact ⟨c,inside,by simpa using here⟩
    obtain ⟨c,mark,inside⟩ := marked
    exact ⟨c,inside,row c mark⟩

theorem mild_boot (before : List Piece) {after : List Piece} (magic : BitVec 32)
    (each : ∀ name ∈ ["multiboot 1","multiboot 2","unrecognised"], Mild (.printf (before ++ Console.str (literal name) :: after))) :
    Mild (.printf (before ++ Console.str (bootName magic) :: after)) := by
  unfold bootName
  split
  · exact each "multiboot 1" (by simp)
  · split
    · exact each "multiboot 2" (by simp)
    · exact each "unrecognised" (by simp)

theorem watch_mild {calls : List Call} (known : o.banner ≠ none) (mild : ∀ call ∈ calls, Mild call) : watch o (calls.map Call.row) = ([],o) :=
  watch_silent known (List.all_eq_true.mpr fun call member => (mild call member).1) (List.all_eq_true.mpr fun call member => (mild call member).2)

-- The lines of a kernel's panic path, in front of the halt.
structure Report (kernel : Text) (frame : ExceptionFrame) (error : Nat) (calls : List Call) : Prop where
  smooth : calls.all Call.smooth = true
  watched : ∀ o : SerialObserver, o.banner ≠ none → o.panicSeen = false →
    watch o (calls.map Call.row) =
      ([.fault (named (readFrame frame error) (frame.vector.toNat % u32,Serial.vectorName (frame.vector.toNat % u32))),.panicked],
        {reported {o with lastVector:=some (frame.vector.toNat % u32,Serial.vectorName (frame.vector.toNat % u32))}
          (named (readFrame frame error) (frame.vector.toNat % u32,Serial.vectorName (frame.vector.toNat % u32))) with panicSeen:=true})

theorem report_dispatch (tag : Tag kernel) {first exception rip panicked : Call} {between : List Call}
    (blank : Mild first) (exceptionSmooth : exception.smooth = true) (exceptionRow : exception.row = exceptionRow kernel frame.vector)
    (ripSmooth : rip.smooth = true) (raw : lineRaw rip.row = some (readFrame frame error))
    (ripLacks : ([exceptionPrefix,faultErrorPrefix,panicPrefix,pagingEnabledMarker,pagingDisabledMarker].all fun pat => pat.any rip.lacks) = true)
    (mild : ∀ call ∈ between, Mild call) (panickedSmooth : panicked.smooth = true) (mark : contains panicPrefix panicked.row = true)
    (panickedLacks : ([exceptionPrefix,faultPrefix,pagingEnabledMarker,pagingDisabledMarker].all fun pat => pat.any panicked.lacks) = true) :
    Report kernel frame error (first :: exception :: rip :: between ++ [panicked]) := by
  refine ⟨?_,?_⟩
  · apply List.all_eq_true.mpr
    intro call member
    simp only [List.cons_append,List.mem_cons,List.mem_append,List.not_mem_nil,or_false] at member
    rcases member with rfl | rfl | rfl | inside | rfl
    · exact blank.1
    · exact exceptionSmooth
    · exact ripSmooth
    · exact (mild call inside).1
    · exact panickedSmooth
  · intro o known unseen
    have absent : ∀ pat ∈ [exceptionPrefix,faultErrorPrefix,panicPrefix,pagingEnabledMarker,pagingDisabledMarker], splitOnce pat rip.row = none :=
      fun pat member => call_absent ripSmooth (List.all_eq_true.mp ripLacks pat member)
    have absent' : ∀ pat ∈ [exceptionPrefix,faultPrefix,pagingEnabledMarker,pagingDisabledMarker], splitOnce pat panicked.row = none :=
      fun pat member => call_absent panickedSmooth (List.all_eq_true.mp panickedLacks pat member)
    have start := feed_unmarked known (first.silent_unmarked blank.1 blank.2)
    have vector := feed_exceptionRow tag known frame.vector
    generalize frame.vector.toNat % u32 = number at vector ⊢
    have address := feed_rip (o:={o with lastVector:=some (number,Serial.vectorName number)}) known rfl raw
      (absent _ (by simp)) (absent _ (by simp)) (contains_none (absent _ (by simp)))
      ⟨contains_none (absent _ (by simp)),contains_none (absent _ (by simp))⟩
    have rest := watch_mild
      (o:=reported {o with lastVector:=some (number,Serial.vectorName number)} (named (readFrame frame error) (number,Serial.vectorName number)))
      known mild
    have last := feed_panic
      (o:=reported {o with lastVector:=some (number,Serial.vectorName number)} (named (readFrame frame error) (number,Serial.vectorName number)))
      known unseen mark (absent' _ (by simp)) (absent' _ (by simp)) ⟨contains_none (absent' _ (by simp)),contains_none (absent' _ (by simp))⟩
    simp only [List.cons_append,List.map_cons,List.map_append,List.map_nil,watch,start,exceptionRow,vector,address,watch_append,rest,last]
    rfl

end PrincessIDE.Fixture
