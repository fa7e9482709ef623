import PrincessIDE.Guest.Console
import PrincessIDE.Foundation.Digits
import PrincessIDE.Run.FaultVector

namespace PrincessIDE.Console
open Utf8 Str Serial

-- One call of the console, without the newline that every text of the kernels ends with.
inductive Call where
  | puts (s : Text)
  | printf (fmt : List Piece)

def Call.sent : Call → Option Text
  | .puts s => some (serialPuts (s ++ ['\n']))
  | .printf fmt => serialPrintf (fmt.flatMap Piece.spelling ++ ['\n']) (fmt.flatMap Piece.args)

def sent : List Call → Option Text
  | [] => some []
  | call :: later => do
    let first ← call.sent
    let rest ← sent later
    return first ++ rest

-- The directives of the kernels' formats: `%0<width>x` and `%0<width>lx`, `%u` and `%lu`, `%s`.
def lit (s : String) : Piece := .text (literal s)
def hexInt (width : Nat) (v : BitVec 32) : Piece := .conversion true width (.hex false (.int v))
def hexLong (width : Nat) (v : BitVec 64) : Piece := .conversion true width (.hex false (.long v))
def decInt (v : BitVec 32) : Piece := .conversion false 0 (.unsigned (.int v))
def decLong (v : BitVec 64) : Piece := .conversion false 0 (.unsigned (.long v))
def str (s : Text) : Piece := .conversion false 0 (.string (some s))

-- The line that a call shows.
def Call.row : Call → Text
  | .puts s => s
  | .printf fmt => fmt.flatMap Piece.shown

def smoothChar (c : Char) : Bool := c.toNat < 0x80 && c ≠ '\n' && c ≠ nul

-- A piece that shows what it says on one line of ASCII.
def Piece.smooth : Piece → Bool
  | .text t => t.all fun c => smoothChar c && c ≠ '%'
  | .conversion _ width (.hex false _) | .conversion _ width (.unsigned _) => width < 2^31
  | .conversion _ width (.string (some s)) => width < 2^31 && s.all smoothChar
  | _ => false

def Call.smooth : Call → Bool
  | .puts s => s.all smoothChar
  | .printf fmt => fmt.all Piece.smooth

-- A character that a piece does not show.
def Piece.lacks (c : Char) : Piece → Bool
  | .text t => !t.contains c
  | .conversion _ _ (.hex false _) | .conversion _ _ (.unsigned _) => !isHexDigit c
  | .conversion _ _ (.string (some s)) => !s.contains c
  | _ => false

def Call.lacks (c : Char) : Call → Bool
  | .puts s => !s.contains c
  | .printf fmt => fmt.all (Piece.lacks c)

-- A line that says nothing to the serial observer: each of its marks has a
-- character that is not on it.
def Call.silent (call : Call) : Bool :=
  [exceptionPrefix,faultPrefix,panicPrefix,pagingEnabledMarker,pagingDisabledMarker].all fun pat => pat.any call.lacks

theorem puts_plain (smooth : s.all smoothChar = true) : s.flatMap serialPutc = s ∧ cString s = s := by
  have each := List.all_eq_true.mp smooth
  constructor
  · induction s with
    | nil => rfl
    | cons c s ih =>
      have first := each c List.mem_cons_self
      simp only [smoothChar,Bool.and_eq_true,decide_eq_true_eq] at first
      rw [List.all_cons,Bool.and_eq_true] at smooth
      rw [List.flatMap_cons,ih smooth.2 fun d member => each d (List.mem_cons_of_mem _ member),serialPutc,if_neg first.1.2]
      rfl
  · apply List.takeWhile_eq_self_iff.mpr
    intro c member
    have here := each c member
    simp only [smoothChar,Bool.and_eq_true] at here
    exact here.2

theorem digitsOf_lower (base n : Nat) : digitsOf base false n = Nat.toDigits base n := by simp [digitsOf]

theorem numeral_hex (width n : Nat) : numeral 16 false true width n = padded width n := by
  rw [numeral,digitsOf_lower]
  rfl

theorem numeral_hexDigit (kind : base = 10 ∨ base = 16) (member : c ∈ numeral base false padZero width n) : isHexDigit c = true := by
  rw [numeral,digitsOf_lower,List.leftpad] at member
  rcases List.mem_append.mp member with zero | digit
  · rw [List.eq_of_mem_replicate zero]
    decide
  · exact toDigits_hexDigit (by omega) (by omega) digit

theorem smoothChar_hex (hex : isHexDigit c = true) : smoothChar c = true := by
  obtain ⟨-,-,-,line,v,value,small⟩ := hexDigit_plain hex
  have range := digitValue_range value
  have ended : c ≠ nul := by
    intro same
    rw [same] at hex
    exact absurd hex (by decide)
  simp only [smoothChar,Bool.and_eq_true,decide_eq_true_eq]
  exact ⟨⟨by omega,line⟩,ended⟩

-- What a smooth piece shows is on one line, and is what the host can read.
theorem Piece.smooth_shown {piece : Piece} (smooth : piece.smooth = true) :
    piece.WellFormed ∧ ∀ c ∈ piece.shown, smoothChar c = true := by
  cases piece with
  | text t =>
    have each : ∀ c ∈ t, smoothChar c = true ∧ c ≠ '%' := by
      intro c member
      have here := List.all_eq_true.mp smooth c member
      simpa using here
    have whole : t.all smoothChar = true := List.all_eq_true.mpr fun c member => (each c member).1
    refine ⟨⟨fun percent => (each _ percent).2 rfl,fun ended => absurd (each _ ended).1 (by decide)⟩,?_⟩
    rw [Piece.shown,(puts_plain whole).1]
    exact fun c member => (each c member).1
  | percent => cases smooth
  | conversion padZero width conversion => cases conversion with
    | string s => cases s with
      | none => cases smooth
      | some s =>
        obtain ⟨fits,each⟩ := Bool.and_eq_true_iff.mp smooth
        refine ⟨⟨of_decide_eq_true fits,trivial⟩,?_⟩
        rw [Piece.shown,Conversion.shown,Option.getD_some,serialPuts,(puts_plain each).2,(puts_plain each).1]
        exact List.all_eq_true.mp each
    | unsigned v => exact ⟨⟨of_decide_eq_true smooth,trivial⟩,fun c member => smoothChar_hex (numeral_hexDigit (.inl rfl) member)⟩
    | hex upper v => cases upper with
      | true => cases smooth
      | false => exact ⟨⟨of_decide_eq_true smooth,trivial⟩,fun c member => smoothChar_hex (numeral_hexDigit (.inr rfl) member)⟩
    | char | signed | pointer => cases smooth

theorem Piece.lacks_shown {piece : Piece} (smooth : piece.smooth = true) (lacks : piece.lacks c = true) : c ∉ piece.shown := by
  cases piece with
  | text t =>
    have whole : t.all smoothChar = true := by
      apply List.all_eq_true.mpr
      intro c member
      exact (Bool.and_eq_true_iff.mp (List.all_eq_true.mp smooth c member)).1
    rw [Piece.shown,(puts_plain whole).1]
    simpa [Piece.lacks] using lacks
  | percent => cases smooth
  | conversion padZero width conversion => cases conversion with
    | string s => cases s with
      | none => cases smooth
      | some s =>
        obtain ⟨-,each⟩ := Bool.and_eq_true_iff.mp smooth
        rw [Piece.shown,Conversion.shown,Option.getD_some,serialPuts,(puts_plain each).2,(puts_plain each).1]
        simpa [Piece.lacks] using lacks
    | unsigned v =>
      intro member
      have hex : isHexDigit c = true := numeral_hexDigit (.inl rfl) member
      rw [Piece.lacks,hex] at lacks
      cases lacks
    | hex upper v => cases upper with
      | true => cases smooth
      | false =>
        intro member
        have hex : isHexDigit c = true := numeral_hexDigit (.inr rfl) member
        rw [Piece.lacks,hex] at lacks
        cases lacks
    | char | signed | pointer => cases smooth

namespace Call

theorem row_smooth {call : Call} (smooth : call.smooth = true) : ∀ c ∈ call.row, smoothChar c = true := by
  cases call with
  | puts s => exact List.all_eq_true.mp smooth
  | printf fmt =>
    intro c member
    obtain ⟨piece,inside,here⟩ := List.mem_flatMap.mp member
    exact (Piece.smooth_shown (List.all_eq_true.mp smooth piece inside)).2 c here

theorem sent_row {call : Call} (smooth : call.smooth = true) : call.sent = some (call.row ++ ['\r','\n']) := by
  cases call with
  | puts s =>
    have plain := puts_plain smooth
    have kept : cString (s ++ ['\n']) = s ++ ['\n'] := by
      have front := plain.2
      rw [cString] at front ⊢
      rw [List.takeWhile_append_of_pos,List.takeWhile_cons_of_pos (by decide),List.takeWhile_nil]
      exact List.takeWhile_eq_self_iff.mp front
    rw [Call.sent,serialPuts,kept,List.flatMap_append,plain.1]
    rfl
  | printf fmt =>
    have formed : ∀ piece ∈ fmt ++ [.text ['\n']], piece.WellFormed := by
      intro piece member
      rcases List.mem_append.mp member with inside | last
      · exact (Piece.smooth_shown (List.all_eq_true.mp smooth piece inside)).1
      · rw [List.mem_singleton.mp last]
        exact ⟨by decide,by decide⟩
    have printed := serialPrintf_pieces (fmt ++ [.text ['\n']]) formed
    simp only [List.flatMap_append,List.flatMap_cons,List.flatMap_nil,List.append_nil,Piece.args,Piece.spelling] at printed
    exact printed

theorem lacks_row {call : Call} (smooth : call.smooth = true) (lacks : call.lacks c = true) : c ∉ call.row := by
  cases call with
  | puts s =>
    have absent : c ∉ s := by simpa [Call.lacks] using lacks
    exact absent
  | printf fmt =>
    intro member
    obtain ⟨piece,inside,here⟩ := List.mem_flatMap.mp member
    exact Piece.lacks_shown (List.all_eq_true.mp smooth piece inside) (List.all_eq_true.mp lacks piece inside) here

end Call

-- The host reads the calls' lines from the bytes on the wire.
theorem sent_rows {calls : List Call} (smooth : calls.all Call.smooth = true) :
    sent calls = some (calls.flatMap fun call => call.row ++ ['\r'] ++ ['\n']) := by
  induction calls with
  | nil => rfl
  | cons call later ih =>
    obtain ⟨first,rest⟩ := Bool.and_eq_true_iff.mp smooth
    rw [sent,call.sent_row first,ih rest]
    simp

theorem wire_lines {calls : List Call} (smooth : calls.all Call.smooth = true) :
    lines (lossy (wire (calls.flatMap fun call => call.row ++ ['\r'] ++ ['\n']))) = calls.map Call.row := by
  have each : ∀ call ∈ calls, ∀ c ∈ call.row, smoothChar c = true := fun call member => call.row_smooth (List.all_eq_true.mp smooth call member)
  have ascii : ∀ c ∈ calls.flatMap (fun call => call.row ++ ['\r'] ++ ['\n']), c.toNat < 0x80 := by
    intro c member
    obtain ⟨call,inside,here⟩ := List.mem_flatMap.mp member
    rcases List.mem_append.mp here with front | newline
    · rcases List.mem_append.mp front with row | carriage
      · have small := each call inside c row
        simp only [smoothChar,Bool.and_eq_true,decide_eq_true_eq] at small
        exact small.1.1
      · rw [List.mem_singleton.mp carriage]
        decide
    · rw [List.mem_singleton.mp newline]
      decide
  rw [wire,← encode_ascii ascii,lossy_encode,lines_flatten]
  · apply List.map_congr_left
    intro call _
    rw [dropReturn,List.getLast?_concat,if_pos rfl,List.dropLast_concat]
  · intro call member newline
    rcases List.mem_append.mp newline with row | carriage
    · exact absurd (each call member _ row) (by decide)
    · exact absurd carriage (by decide)

-- What the observer says of a stream of lines, and the state they leave it in.
def watch (o : SerialObserver) : List Text → List SerialObservation × SerialObserver
  | [] => ([],o)
  | line :: later => ((feed o line).1 ++ (watch (feed o line).2 later).1,(watch (feed o line).2 later).2)

theorem watch_append (o : SerialObserver) (front back : List Text) :
    watch o (front ++ back) = ((watch o front).1 ++ (watch (watch o front).2 back).1,(watch (watch o front).2 back).2) := by
  induction front generalizing o with
  | nil => rfl
  | cons line front ih =>
    rw [List.cons_append,watch,watch,ih]
    simp

-- A line without one of the observer's marks, the banner apart.
structure Unmarked (row : Text) : Prop where
  vector : splitOnce exceptionPrefix row = none
  fault : splitOnce faultPrefix row = none
  panicked : contains panicPrefix row = false
  paging : contains pagingEnabledMarker row = false ∧ contains pagingDisabledMarker row = false

theorem contains_none (absent : splitOnce pat row = none) : contains pat row = false := by
  rw [contains,absent]
  rfl

theorem Call.silent_unmarked {call : Call} (smooth : call.smooth = true) (silent : call.silent = true) : Unmarked call.row := by
  have absent : ∀ pat ∈ [exceptionPrefix,faultPrefix,panicPrefix,pagingEnabledMarker,pagingDisabledMarker], splitOnce pat call.row = none := by
    intro pat member
    obtain ⟨c,inside,lacks⟩ := List.any_eq_true.mp (List.all_eq_true.mp silent pat member)
    exact splitOnce_none (call.lacks_row smooth lacks) inside
  exact ⟨absent _ (by simp),absent _ (by simp),contains_none (absent _ (by simp)),contains_none (absent _ (by simp)),contains_none (absent _ (by simp))⟩

theorem feedBanner_known (known : o.banner ≠ none) (line : Text) : feedBanner o line = ([],o) := if_neg known

theorem feedPaging_unmarked (unmarked : contains pagingEnabledMarker row = false ∧ contains pagingDisabledMarker row = false) (o : SerialObserver) :
    feedPaging o row = ([],o) := by
  rw [feedPaging,unmarked.1,unmarked.2]
  rfl

theorem feedVector_unmarked (absent : splitOnce exceptionPrefix row = none) (o : SerialObserver) : feedVector o row = o := by
  rw [feedVector,absent]
  rfl

theorem feedFault_unmarked (absent : splitOnce faultPrefix row = none) (o : SerialObserver) : feedFault o row = ([],o) := by
  rw [feedFault,absent]
  rfl

theorem feedPanic_unmarked (absent : contains panicPrefix row = false) (o : SerialObserver) : feedPanic o row = ([],o) := by
  rw [feedPanic,absent]
  rfl

theorem feed_unmarked (known : o.banner ≠ none) (unmarked : Unmarked row) : feed o row = ([],o) := by
  simp only [feed,feedBanner_known known,feedPaging_unmarked unmarked.paging,feedVector_unmarked unmarked.vector,
    feedFault_unmarked unmarked.fault,feedPanic_unmarked unmarked.panicked]
  rfl

theorem watch_unmarked (known : o.banner ≠ none) (unmarked : ∀ row ∈ rows, Unmarked row) : watch o rows = ([],o) := by
  induction rows with
  | nil => rfl
  | cons row rows ih =>
    obtain ⟨first,later⟩ := List.forall_mem_cons.mp unmarked
    rw [watch,feed_unmarked known first,ih later]
    rfl

-- The silent calls of a kernel, read by an observer that knows its banner.
theorem watch_silent {calls : List Call} (known : o.banner ≠ none) (smooth : calls.all Call.smooth = true)
    (silent : calls.all Call.silent = true) : watch o (calls.map Call.row) = ([],o) := by
  apply watch_unmarked known
  intro row member
  obtain ⟨call,inside,rfl⟩ := List.mem_map.mp member
  exact call.silent_unmarked (List.all_eq_true.mp smooth call inside) (List.all_eq_true.mp silent call inside)

-- Zeros in front of the base: the text is no number to the host.
theorem parseHexU64_zeros {digits : Text} (hex : ∀ c ∈ digits, isHexDigit c = true) (filled : digits ≠ []) (more : Nat) :
    parseHexU64 (List.replicate (more+1) '0' ++ "0x".toList ++ digits) = none := by
  obtain ⟨front,last,rfl⟩ : ∃ front last, digits = front ++ [last] := ⟨_,_,(List.dropLast_append_getLast filled).symm⟩
  have plain := hexDigit_plain (hex last (by simp))
  have base : "0x".toList = ['0','x'] := by decide
  obtain ⟨rest,start,inside⟩ : ∃ rest, List.replicate (more+1) '0' ++ "0x".toList ++ (front ++ [last]) = '0' :: '0' :: rest ∧ 'x' ∈ rest := by
    cases more with
    | zero => exact ⟨'x' :: (front ++ [last]),by rw [base]; rfl,by simp⟩
    | succ more => exact ⟨List.replicate more '0' ++ "0x".toList ++ (front ++ [last]),by simp [List.replicate_succ],by simp [base]⟩
  have whole : List.replicate (more+1) '0' ++ "0x".toList ++ (front ++ [last]) = (List.replicate (more+1) '0' ++ "0x".toList ++ front) ++ [last] :=
    (List.append_assoc _ _ _).symm
  have trimmed : trim (List.replicate (more+1) '0' ++ "0x".toList ++ (front ++ [last])) = List.replicate (more+1) '0' ++ "0x".toList ++ (front ++ [last]) := by
    rw [trim,start,trimStart_solid (by decide),← start,whole,trimEnd_solid plain.1]
  have kept : trimEndMatches (· = ',') (List.replicate (more+1) '0' ++ "0x".toList ++ (front ++ [last])) =
      List.replicate (more+1) '0' ++ "0x".toList ++ (front ++ [last]) := by
    rw [whole]
    simp [trimEndMatches,plain.2.1]
  have lower : stripPrefix "0x".toList ('0' :: '0' :: rest) = none := by simp [stripPrefix]
  have upper : stripPrefix "0X".toList ('0' :: '0' :: rest) = none := by simp [stripPrefix]
  have bad : ('0' :: '0' :: rest).all isHexDigit = false := by
    apply List.all_eq_false.mpr
    exact ⟨'x',by simp [inside],by decide⟩
  unfold parseHexU64
  dsimp only
  rw [trimmed,kept,start,lower,upper,Option.none_or,Option.getD_none,bad]
  simp

-- `%p` fills up with zeros in front of the `0x` and up to sixteen characters in
-- all: its comment holds, and the host reads the address, from these addresses on.
theorem pointer_printed (v : BitVec 64) : ∃ out, serialPrintf ['%','p'] [.long v] = some out ∧
    (out = hexWord 16 v ↔ 2^60 ≤ v.toNat) ∧ (parseHexU64 out = some v.toNat ↔ 2^52 ≤ v.toNat) := by
  have formed : ∀ piece ∈ [Piece.conversion false 0 (.pointer v)], piece.WellFormed := by
    intro piece member
    rw [List.mem_singleton.mp member]
    exact ⟨by decide,trivial⟩
  have printed : serialPrintf ['%','p'] [.long v] = some (pointerText v) :=
    (serialPrintf_pieces [.conversion false 0 (.pointer v)] formed).trans (congrArg some (List.append_nil _))
  refine ⟨pointerText v,printed,?_,?_⟩
  · have fifteen := @Nat.length_toDigits_le_iff 16 v.toNat 15 (by decide) (by decide)
    have sixteen := (@Nat.length_toDigits_le_iff 16 v.toNat 16 (by decide) (by decide)).mpr v.isLt
    have size : "0x".toList.length = 2 := by decide
    constructor
    · intro same
      have lengths := congrArg List.length same
      simp only [pointerText,hexWord,padded,List.length_append,List.length_replicate,List.length_leftpad,size] at lengths
      have long : ¬ (Nat.toDigits 16 v.toNat).length ≤ 15 := by omega
      have large := mt fifteen.mpr long
      omega
    · intro large
      have long : (Nat.toDigits 16 v.toNat).length = 16 := by
        have := mt fifteen.mp (by omega)
        omega
      simp [pointerText,hexWord,padded,List.leftpad,long]
  · have thirteen := @Nat.length_toDigits_le_iff 16 v.toNat 13 (by decide) (by decide)
    by_cases large : 2^52 ≤ v.toNat
    · have long : 14 - (Nat.toDigits 16 v.toNat).length = 0 := by
        have := mt thirteen.mp (by omega)
        omega
      have word : pointerText v = hexWord 0 v := by simp [pointerText,hexWord,padded,List.leftpad,long]
      rw [word]
      exact iff_of_true (parseHexU64_hexWord 0 v) large
    · have short : (Nat.toDigits 16 v.toNat).length ≤ 13 := thirteen.mpr (by omega)
      have zeros : 14 - (Nat.toDigits 16 v.toNat).length = 13 - (Nat.toDigits 16 v.toNat).length + 1 := by omega
      have unread := parseHexU64_zeros (fun c member => toDigits_hexDigit (by decide) (by decide) member) (@Nat.toDigits_ne_nil v.toNat 16)
        (13 - (Nat.toDigits 16 v.toNat).length)
      rw [pointerText,zeros,unread]
      exact iff_of_false (by simp) large

end PrincessIDE.Console
