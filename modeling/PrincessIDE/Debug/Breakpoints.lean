import PrincessIDE.Debug.Capability
import PrincessIDE.Foundation.Columns
import PrincessIDE.Foundation.Trim

namespace PrincessIDE.Breakpoints
open Utf8 Str Dap

-- One field with the blanks before it; nothing where only blanks are left.
def skipField (line : Text) : Option Text := match line.dropWhile isAsciiWhitespace with
  | [] => none
  | rest => some (rest.dropWhile (!isAsciiWhitespace ·))

def skipFields : Nat → Text → Option Text
  | 0,line => some line
  | n+1,line => (skipField line).bind (skipFields n)

def stripAfterNthField (line : Text) (n : Nat) : Text :=
  if n = 0 then line else match skipFields n line with
    | none => []
    | some rest => rest.dropWhile isAsciiWhitespace

-- The type of a row and the index behind it.
def typeColumn (fields : List Text) : Option (Text × Nat) := fields[1]?.map fun field =>
  if field = "hw".toList then ("hw ".toList ++ fields[2]?.getD "breakpoint".toList,3) else (field,2)

def isAddress (field : Text) : Bool := startsWith "0x".toList field || field = "<PENDING>".toList || startsWith "*".toList field

-- The address column and the text behind it.
def location (line : Text) (fields : List Text) (index : Nat) : Option Text × Text := match fields[index]? with
  | some address =>
    if isAddress address then (some (trimStartMatches "*".toList address),stripAfterNthField line (index+1))
    else (none,stripAfterNthField line index)
  | none => (none,stripAfterNthField line index)

def parseRow (line : Text) (fields : List Text) (number : Nat) : Option BreakpointRecord := (typeColumn fields).map fun (kind,index) =>
  let enabled := (fields[index]? = some "keep".toList || fields[index]? = some "del".toList) && fields[index+1]? = some "y".toList
  let rest := location line fields (index+2)
  ⟨number,kind,enabled,rest.1,rest.2⟩

def isHeading (line first : Text) : Bool :=
  first = "Num".toList || startsWith "No breakpoints".toList line || startsWith "No watchpoints".toList line

-- One turn of the loop, on a line without the blanks at its end.
def parseLine (line : Text) : Option BreakpointRecord :=
  if trim line = [] then none
  else match splitWhitespace line with
    | [] => none
    | first :: fields =>
      if isHeading line first then none
      else (fromStrRadix 10 u32 first).bind (parseRow line (first::fields))

def readLine (line : Text) : Option BreakpointRecord := parseLine (trimEnd line)

def parseBreakpoints (text : Text) : List BreakpointRecord := (lines text).filterMap readLine

-- What gdb lists. A text of the program under test stands on one line.
abbrev Line := {t : Text // '\n' ∉ t}

inductive Kind where
  | breakpoint
  | hwBreakpoint
  | hwWatchpoint
  | readWatchpoint
  | accWatchpoint
deriving DecidableEq, Repr

def Kind.words : Kind → Text × Option Text
  | .breakpoint => ("breakpoint".toList,none)
  | .hwBreakpoint => ("hw".toList,some "breakpoint".toList)
  | .hwWatchpoint => ("hw".toList,some "watchpoint".toList)
  | .readWatchpoint => ("read".toList,some "watchpoint".toList)
  | .accWatchpoint => ("acc".toList,some "watchpoint".toList)

def Kind.name (kind : Kind) : Text := match kind.words with
  | (one,none) => one
  | (one,some two) => one ++ ' ' :: two

inductive Disposition where
  | keep
  | del
  | dis
deriving DecidableEq, Repr

def Disposition.name : Disposition → Text
  | .keep => "keep".toList
  | .del => "del".toList
  | .dis => "dis".toList

inductive Address where
  | known (value : Nat)
  | pending
  | multiple
deriving DecidableEq, Repr

def Address.text : Address → Text
  | .known value => "0x".toList ++ padded 16 value
  | .pending => "<PENDING>".toList
  | .multiple => "<MULTIPLE>".toList

-- The lines under a row: its hits, its condition, and the places of a row with several.
inductive Detail where
  | hits (count : Nat)
  | condition (text : Line)
  | place (index : Nat) (enabled : Bool) (address : Nat) (what : Line)
deriving DecidableEq, Repr

structure Row where
  number : UInt32
  kind : Kind
  disposition : Disposition
  enabled : Bool
  address : Option Address
  what : Line
  details : List Detail
deriving DecidableEq, Repr

structure Widths where
  number : Nat
  kind : Nat
  disposition : Nat
  enabled : Nat
  address : Nat

def column (width : Nat) (text : Text) : Text := text ++ List.replicate (width-text.length+1) ' '

def enablement (enabled : Bool) : Text := if enabled then ['y'] else ['n']

def tableLine (widths : Widths) (number kind disposition enabled address what : Text) : Text :=
  column widths.number number ++ column widths.kind kind ++ column widths.disposition disposition ++
    column widths.enabled enabled ++ column widths.address address ++ what

def Row.line (widths : Widths) (row : Row) : Text :=
  tableLine widths (decimal row.number.toNat) row.kind.name row.disposition.name (enablement row.enabled)
    ((row.address.map Address.text).getD []) row.what

def Detail.line (widths : Widths) (number : UInt32) : Detail → Text
  | .hits count => "\tbreakpoint already hit ".toList ++ decimal count ++ (if count = 1 then " time" else " times").toList
  | .condition text => "\tstop only if ".toList ++ text
  | .place index enabled address what =>
    tableLine widths (decimal number.toNat ++ '.' :: decimal index) [] [] (enablement enabled) (Address.known address).text what

def header (widths : Widths) : Text :=
  tableLine widths "Num".toList "Type".toList "Disp".toList "Enb".toList "Address".toList "What".toList

def listing (widths : Widths) : List Row → List Text
  | [] => ["No breakpoints or watchpoints.".toList]
  | rows => header widths :: rows.flatMap fun row => row.line widths :: row.details.map (Detail.line widths row.number)

def infoBreakpoints (widths : Widths) (rows : List Row) : Text := (listing widths rows).flatMap (· ++ ['\n'])

def Row.record (row : Row) : BreakpointRecord := ⟨row.number.toNat,row.kind.name,row.enabled,row.address.map Address.text,row.what⟩

theorem skipField_word (blank : ∀ c ∈ blanks, isAsciiWhitespace c = true) (solid : Solid w) (behind : Behind t) :
    skipField (blanks ++ (w ++ t)) = some t := by
  obtain ⟨c,w,rfl⟩ := List.exists_cons_of_ne_nil solid.1
  have plain : ∀ x ∈ c::w, isAsciiWhitespace x = false := fun x member => solid_ascii (solid.2 x member)
  have first := plain c List.mem_cons_self
  have ends : t.dropWhile (!isAsciiWhitespace ·) = t := by
    cases t with
    | nil => rfl
    | cons b t => rw [List.dropWhile_cons,behind b rfl]; rfl
  have cut : (c :: w ++ t).dropWhile (!isAsciiWhitespace ·) = t := by
    rw [List.dropWhile_append_of_pos fun x member => by rw [plain x member]; rfl,ends]
  rw [skipField,List.dropWhile_append_of_pos blank,List.cons_append,List.dropWhile_cons,first]
  exact congrArg some cut

-- A field at a time, whatever the blanks before the first one.
theorem skipFields_cells (solid : ∀ cell ∈ cells, Solid cell.word) (last : Solid w) (behind : Behind t)
    (blank : ∀ c ∈ blanks, isAsciiWhitespace c = true) :
    skipFields (cells.length+1) (blanks ++ (cellsText cells ++ (w ++ t))) = some t := by
  induction cells generalizing blanks with
  | nil =>
    rw [skipFields,cellsText,List.flatMap_nil,List.nil_append,skipField_word blank last behind]
    rfl
  | cons cell cells ih =>
    obtain ⟨first,later⟩ := List.forall_mem_cons.mp solid
    rw [skipFields,cellsText,List.flatMap_cons,Cell.text,List.append_assoc,List.append_assoc,
      skipField_word blank first (spaces_behind _ _)]
    exact ih later fun c member => (spaces_blank member).2

theorem strip_columns (solid : ∀ cell ∈ cells, Solid cell.word) (last : Solid w) (n : Nat) (what : Text) :
    stripAfterNthField (trimEnd (cellsText cells ++ (w ++ (List.replicate (n+1) ' ' ++ what)))) (cells.length+1) =
      (trimEnd what).dropWhile isAsciiWhitespace := by
  have behind := trimEnd_behind_blank (spaces_behind n what)
  have none : ∀ c ∈ ([] : Text), isAsciiWhitespace c = true := List.forall_mem_nil _
  have found := skipFields_cells solid last behind none
  rw [List.nil_append] at found
  have gap : (trimEnd (List.replicate (n+1) ' ' ++ what)).dropWhile isAsciiWhitespace = (trimEnd what).dropWhile isAsciiWhitespace := by
    rw [trimEnd_blanks fun c member => (spaces_blank member).1]
    split
    · rename_i none
      rw [none]
    · exact List.dropWhile_append_of_pos fun c member => (spaces_blank member).2
  rw [trimEnd_word last,stripAfterNthField,if_neg (Nat.succ_ne_zero _),found]
  exact gap

def Kind.wordList (kind : Kind) : List Text := kind.words.1 :: kind.words.2.toList

def Kind.cells (width : Nat) (kind : Kind) : List Cell := match kind.words with
  | (one,none) => [⟨one,width-one.length⟩]
  | (one,some two) => [⟨one,0⟩,⟨two,width-(one ++ ' ' :: two).length⟩]

-- The columns of a row up to its disposition.
def Row.front (widths : Widths) (row : Row) : List Cell :=
  ⟨decimal row.number.toNat,widths.number-(decimal row.number.toNat).length⟩ ::
    (row.kind.cells widths.kind ++ [⟨row.disposition.name,widths.disposition-row.disposition.name.length⟩])

theorem solid_word (filled : word ≠ []) (all : word.all (!isWhitespace ·) = true) : Solid word :=
  ⟨filled,fun c member => by simpa using List.all_eq_true.mp all c member⟩

theorem decimal_word (n : Nat) : Solid (decimal n) := ⟨decimal_nonempty n,fun _ => decimal_solid⟩

theorem enablement_word (enabled : Bool) : Solid (enablement enabled) := by
  cases enabled with
  | true | false => exact solid_word (by decide) (by decide)

theorem known_text (value : Nat) : (Address.known value).text = "0x".toList ++ padded 16 value := rfl

theorem known_word (value : Nat) : Solid (Address.known value).text := by
  have start : Solid "0x".toList := solid_word (by decide) (by decide)
  rw [known_text]
  refine ⟨List.append_ne_nil_of_left_ne_nil start.1 _,fun c member => ?_⟩
  rcases List.mem_append.mp member with inside | inside
  · exact start.2 c inside
  · have hex : isHexDigit c = true := padded_hex inside
    exact (hexDigit_plain hex).1

theorem address_word (address : Address) : Solid address.text := by
  cases address with
  | pending | multiple => exact solid_word (by decide) (by decide)
  | known value => exact known_word value

theorem kind_cells (width : Nat) (kind : Kind) : column width kind.name = cellsText (kind.cells width) ∧
    (kind.cells width).map Cell.word = kind.wordList ∧ ∀ cell ∈ kind.cells width, Solid cell.word := by
  have one : ∀ kind : Kind, Solid kind.words.1 := by
    intro kind
    cases kind <;> exact solid_word (by decide) (by decide)
  have two : ∀ kind : Kind, ∀ word ∈ kind.words.2, Solid word := by
    rintro kind word member
    cases kind <;> cases member <;> exact solid_word (by decide) (by decide)
  have first := one kind
  have second := two kind
  rw [Kind.name,Kind.cells,Kind.wordList]
  split
  · rename_i word words
    rw [words] at first ⊢
    exact ⟨by simp [cellsText,Cell.text,column],rfl,by simpa using first⟩
  · rename_i word other words
    rw [words] at first second ⊢
    exact ⟨by simp [cellsText,Cell.text,column],rfl,by simpa using ⟨first,second other rfl⟩⟩

theorem front_solid (widths : Widths) (row : Row) : ∀ cell ∈ row.front widths, Solid cell.word := by
  have last : Solid row.disposition.name := by
    cases row.disposition <;> exact solid_word (by decide) (by decide)
  have kind := (kind_cells widths.kind row.kind).2.2
  rw [Row.front,List.forall_mem_cons,List.forall_mem_append]
  exact ⟨decimal_word _,kind,by simpa using last⟩

theorem front_words (widths : Widths) (row : Row) :
    (row.front widths).map Cell.word = decimal row.number.toNat :: (row.kind.wordList ++ [row.disposition.name]) := by
  rw [Row.front,List.map_cons,List.map_append,(kind_cells _ _).2.1]
  rfl

theorem front_text (widths : Widths) (row : Row) (enabled address what : Text) :
    tableLine widths (decimal row.number.toNat) row.kind.name row.disposition.name enabled address what =
      cellsText (row.front widths) ++ (enabled ++ (List.replicate (widths.enabled-enabled.length+1) ' ' ++ (column widths.address address ++ what))) := by
  rw [tableLine,(kind_cells widths.kind row.kind).1,Row.front]
  simp [cellsText,column,Cell.text]

-- What is left of a text at the end of a line.
def shown (what : Text) : Text := (trimEnd what).dropWhile isAsciiWhitespace

-- A text without a blank at its start or its end.
def textRecovered (what : Text) : Bool := what.head?.all (!isAsciiWhitespace ·) && what.getLast?.all (!isWhitespace ·)

theorem shown_short (what : Text) : (shown what).length ≤ (trimEnd what).length ∧ (trimEnd what).length ≤ what.length := by
  obtain ⟨tail,cut,_⟩ := trimEnd_cut what
  have whole := congrArg List.length cut
  rw [List.length_append] at whole
  exact ⟨(List.dropWhile_sublist _).length_le,by omega⟩

theorem shown_iff (what : Text) : shown what = what ↔ textRecovered what = true := by
  rcases List.eq_nil_or_concat' what with rfl | ⟨start,d,rfl⟩
  · exact ⟨fun _ => rfl,fun _ => rfl⟩
  · rw [textRecovered,List.getLast?_concat,Option.all_some]
    cases last : isWhitespace d with
    | true =>
      refine ⟨fun same => ?_,fun fine => by simp at fine⟩
      have cut : trimEnd (start ++ [d]) = trimEnd start := trimEnd_append (by simpa using last) start
      have short := (shown_short (start ++ [d])).1
      have start_short := (shown_short start).2
      rw [same,cut,List.length_append,List.length_singleton] at short
      omega
    | false =>
      rw [shown,trimEnd_solid last,Bool.not_false,Bool.and_true]
      cases whole : start ++ [d] with
      | nil => simp at whole
      | cons c rest =>
        rw [List.head?_cons,Option.all_some,List.dropWhile_cons]
        cases blank : isAsciiWhitespace c with
        | false => simp
        | true =>
          refine ⟨fun same => ?_,fun fine => by cases fine⟩
          have short := (List.dropWhile_sublist isAsciiWhitespace (l:=rest)).length_le
          rw [if_pos rfl] at same
          rw [same,List.length_cons] at short
          omega

-- The fields behind the enablement.
def Row.more (row : Row) : List Text := (row.address.map Address.text).toList ++ splitWhitespace row.what

def Row.fields (row : Row) : List Text :=
  decimal row.number.toNat :: (row.kind.wordList ++ row.disposition.name :: enablement row.enabled :: row.more)

theorem line_none (widths : Widths) (row : Row) (none : row.address = .none) : ∃ n, row.line widths =
    cellsText (row.front widths) ++ (enablement row.enabled ++ (List.replicate (n+1) ' ' ++ row.what)) := by
  refine ⟨widths.enabled-(enablement row.enabled).length+widths.address+1,?_⟩
  have gap : List.replicate (widths.enabled-(enablement row.enabled).length+widths.address+1+1) ' ' =
      List.replicate (widths.enabled-(enablement row.enabled).length+1) ' ' ++ List.replicate (widths.address+1) ' ' := by
    rw [List.replicate_append_replicate]
    congr 1
    omega
  rw [Row.line,front_text,none,gap,column,List.append_assoc (List.replicate _ ' ')]
  rfl

theorem line_some (widths : Widths) (row : Row) (given : row.address = some address) : ∃ pad n, row.line widths =
    cellsText (row.front widths ++ [⟨enablement row.enabled,pad⟩]) ++ (address.text ++ (List.replicate (n+1) ' ' ++ row.what)) := by
  refine ⟨widths.enabled-(enablement row.enabled).length,widths.address-address.text.length,?_⟩
  rw [Row.line,front_text,given]
  simp [column,cellsText,Cell.text]

theorem front_enablement (widths : Widths) (row : Row) (pad : Nat) :
    ∀ cell ∈ row.front widths ++ [⟨enablement row.enabled,pad⟩], Solid cell.word :=
  List.forall_mem_append.mpr ⟨front_solid widths row,List.forall_mem_singleton.mpr (enablement_word _)⟩

theorem row_fields (widths : Widths) (row : Row) : splitWhitespace (trimEnd (row.line widths)) = row.fields := by
  have trimmed : splitWhitespace (trimEnd (row.line widths)) = splitWhitespace (row.line widths) := words_trimEnd _
  rw [trimmed]
  cases given : row.address with
  | none =>
    obtain ⟨n,shape⟩ := line_none widths row given
    rw [shape,words_columns (front_solid widths row) (enablement_word _),front_words,Row.fields,Row.more,given]
    simp
  | some address =>
    obtain ⟨pad,n,shape⟩ := line_some widths row given
    rw [shape,words_columns (front_enablement widths row pad) (address_word address),List.map_append,front_words,Row.fields,
      Row.more,given]
    simp

theorem front_length (widths : Widths) (row : Row) : (row.front widths).length = row.kind.wordList.length+2 := by
  have words := congrArg List.length (front_words widths row)
  simpa using words

theorem fields_disposition (row : Row) : row.fields[row.kind.wordList.length+1]? = some row.disposition.name ∧
    row.fields[row.kind.wordList.length+2]? = some (enablement row.enabled) ∧
    row.fields[row.kind.wordList.length+3]? = row.more.head? := by
  simp [Row.fields,List.getElem?_append_right,List.head?_eq_getElem?]

theorem address_taken (address : Address) : isAddress address.text = !(address = .multiple) ∧
    (address ≠ .multiple → trimStartMatches "*".toList address.text = address.text) := by
  cases address with
  | pending => exact ⟨by decide,fun _ => trimStartMatches_other (by decide)⟩
  | multiple => exact ⟨by decide,fun other => absurd rfl other⟩
  | known value =>
    rw [known_text]
    have starts : stripPrefix "0x".toList ("0x".toList ++ padded 16 value) = some (padded 16 value) := stripPrefix_append _ _
    refine ⟨?_,fun _ => trimStartMatches_other (stripPrefix_other (by decide) starts)⟩
    rw [isAddress,startsWith,starts]
    rfl

def addressRecovered : Option Address → Text → Bool
  | none,what => (splitWhitespace what).head?.all (!isAddress ·)
  | some address,_ => !(address = .multiple)

theorem location_iff (widths : Widths) (row : Row) :
    location (trimEnd (row.line widths)) row.fields (row.kind.wordList.length+3) = (row.address.map Address.text,row.what.val) ↔
      (addressRecovered row.address row.what && textRecovered row.what) = true := by
  have length := front_length widths row
  rw [Bool.and_eq_true,← shown_iff,location,(fields_disposition row).2.2,Row.more]
  cases given : row.address with
  | none =>
    obtain ⟨n,shape⟩ := line_none widths row given
    have strip := strip_columns (front_solid widths row) (enablement_word row.enabled) n row.what
    rw [← shape,length] at strip
    rw [addressRecovered,strip,Option.map_none,Option.toList_none,List.nil_append]
    cases first : (splitWhitespace row.what).head? with
    | none => simp [shown]
    | some word => cases taken : isAddress word <;> simp [shown,taken]
  | some address =>
    obtain ⟨pad,n,shape⟩ := line_some widths row given
    have strip := strip_columns (front_enablement widths row pad) (address_word address) n row.what
    rw [← shape,List.length_append,List.length_singleton,length] at strip
    obtain ⟨taken,kept⟩ := address_taken address
    simp only [Option.map_some,Option.toList_some,List.singleton_append,List.head?_cons,addressRecovered,taken]
    by_cases multiple : address = .multiple
    · simp [multiple]
    · rw [if_pos (by simpa using multiple),kept multiple,strip]
      simp [multiple,shown]

def Kind.recovered (kind : Kind) : Bool := kind ≠ .readWatchpoint && kind ≠ .accWatchpoint

def Row.recovered (row : Row) : Bool :=
  row.kind.recovered && !(row.disposition = .dis && row.enabled) && addressRecovered row.address row.what && textRecovered row.what

-- A type of two words is taken whole behind `hw` only.
theorem typeColumn_kind (kind : Kind) (number : Text) (rest : List Text) :
    (kind.recovered = true → typeColumn (number :: (kind.wordList ++ rest)) = some (kind.name,kind.wordList.length+1)) ∧
    (kind.recovered = false → ∃ name, name ≠ kind.name ∧ typeColumn (number :: (kind.wordList ++ rest)) = some (name,2)) := by
  refine ⟨fun fine => ?_,fun missed => ?_⟩
  · cases kind with
    | breakpoint | hwBreakpoint | hwWatchpoint => rfl
    | readWatchpoint | accWatchpoint => cases fine
  · cases kind with
    | breakpoint | hwBreakpoint | hwWatchpoint => cases missed
    | readWatchpoint => exact ⟨"read".toList,by decide,rfl⟩
    | accWatchpoint => exact ⟨"acc".toList,by decide,rfl⟩

theorem enabled_iff (disposition : Disposition) (enabled : Bool) :
    (((disposition.name = "keep".toList || disposition.name = "del".toList) && enablement enabled = "y".toList) : Bool) = enabled ↔
      (!(disposition = .dis && enabled)) = true := by
  cases disposition <;> cases enabled <;> decide

theorem parseRow_iff (widths : Widths) (row : Row) : ∃ record,
    parseRow (trimEnd (row.line widths)) row.fields row.number.toNat = some record ∧ (record = row.record ↔ row.recovered = true) := by
  obtain ⟨whole,part⟩ := typeColumn_kind row.kind (decimal row.number.toNat) (row.disposition.name :: enablement row.enabled :: row.more)
  cases kind : row.kind.recovered with
  | false =>
    obtain ⟨name,other,found⟩ := part kind
    rw [parseRow,Row.fields,found]
    refine ⟨_,rfl,fun same => ?_,fun fine => ?_⟩
    · exact absurd (congrArg BreakpointRecord.kind same) other
    · simp [Row.recovered,kind] at fine
  | true =>
    have fields : typeColumn row.fields = some (row.kind.name,row.kind.wordList.length+1) := whole kind
    obtain ⟨disposition,enabled,_⟩ := fields_disposition row
    rw [parseRow,fields]
    refine ⟨_,rfl,?_⟩
    have place := location_iff widths row
    have flag := enabled_iff row.disposition row.enabled
    simp only [Row.record,BreakpointRecord.mk.injEq,true_and,disposition,enabled,Option.some.injEq]
    rw [Row.recovered,kind,Bool.true_and,Bool.and_assoc,Bool.and_eq_true,← place,← flag,Prod.ext_iff]

theorem trim_words (split : splitWhitespace line = first::rest) : trim line ≠ [] := by
  intro none
  rw [← words_trim,none] at split
  cases split

-- A line whose first word is no number is passed over.
theorem parseLine_other (split : splitWhitespace line = first::rest) (unread : fromStrRadix 10 u32 first = none) :
    parseLine line = none := by
  rw [parseLine,if_neg (trim_words split),split]
  dsimp only
  rw [unread]
  exact ite_self none

theorem decimal_start (n : Nat) : ∃ c rest, decimal n = c::rest ∧ 48 ≤ c.toNat ∧ c.toNat ≤ 57 := by
  obtain ⟨c,rest,shape⟩ := List.exists_cons_of_ne_nil (decimal_nonempty n)
  exact ⟨c,rest,shape,decimal_isDigit (n:=n) (by rw [shape]; exact List.mem_cons_self)⟩

theorem isHeading_decimal (n : Nat) (rest : Text) : isHeading (decimal n ++ rest) (decimal n) = false := by
  obtain ⟨c,digits,shape,low,high⟩ := decimal_start n
  have other : 'N' ≠ c := by rintro rfl; simp at high
  rw [shape]
  simp [isHeading,startsWith,stripPrefix,other,other.symm]

theorem tableLine_start (widths : Widths) (number kind disposition enabled address what : Text) : ∃ n rest,
    tableLine widths number kind disposition enabled address what = number ++ (List.replicate (n+1) ' ' ++ rest) :=
  ⟨widths.number-number.length,column widths.kind kind ++ (column widths.disposition disposition ++
    (column widths.enabled enabled ++ (column widths.address address ++ what))),by simp [tableLine,column]⟩

theorem parseLine_row (widths : Widths) (row : Row) :
    parseLine (trimEnd (row.line widths)) = parseRow (trimEnd (row.line widths)) row.fields row.number.toNat := by
  have split := row_fields widths row
  have plain : isHeading (trimEnd (row.line widths)) (decimal row.number.toNat) = false := by
    obtain ⟨n,rest,shape⟩ := tableLine_start widths (decimal row.number.toNat) row.kind.name row.disposition.name
      (enablement row.enabled) ((row.address.map Address.text).getD []) row.what
    have trimmed := trimEnd_word (decimal_word row.number.toNat) [] (List.replicate (n+1) ' ' ++ rest)
    rw [Row.line,shape]
    exact (congrArg (isHeading · _) trimmed).trans (isHeading_decimal _ _)
  have read : fromStrRadix 10 u32 (decimal row.number.toNat) = some row.number.toNat := fromStrRadix_decimal row.number.toNat_lt
  rw [parseLine,if_neg (trim_words split),split]
  simp only [Row.fields,plain,Bool.false_eq_true,if_false,read,Option.bind_some]

-- The number of a place has a point in it.
theorem place_unread (n : Nat) (t : Text) : fromStrRadix 10 bound (decimal n ++ '.' :: t) = none :=
  fromStrRadix_stopped (by decide) (by decide) (List.mem_append_right _ List.mem_cons_self)

theorem place_word (n k : Nat) : Solid (decimal n ++ '.' :: decimal k) := by
  refine ⟨by simp,fun c member => ?_⟩
  rcases List.mem_append.mp member with inside | inside
  · exact decimal_solid inside
  · rcases List.mem_cons.mp inside with rfl | later
    · decide
    · exact decimal_solid later

theorem place_line (widths : Widths) (number : UInt32) (index : Nat) (enabled : Bool) (address : Nat) (what : Line) :
    (Detail.place index enabled address what).line widths number =
      tableLine widths (decimal number.toNat ++ '.' :: decimal index) [] [] (enablement enabled) (Address.known address).text what := rfl

theorem detail_skipped (widths : Widths) (number : UInt32) (detail : Detail) : readLine (detail.line widths number) = none := by
  have words : ∃ first rest, splitWhitespace (detail.line widths number) = first::rest ∧ fromStrRadix 10 u32 first = none := by
    cases detail with
    | hits count =>
      have word : Solid "breakpoint".toList := solid_word (by decide) (by decide)
      exact ⟨_,_,words_behind word (t:=" already hit ".toList ++ _ ++ _) fun c member => by cases member; decide,by decide⟩
    | condition text =>
      have word : Solid "stop".toList := solid_word (by decide) (by decide)
      exact ⟨_,_,words_behind word (t:=" only if ".toList ++ _) fun c member => by cases member; decide,by decide⟩
    | place index enabled address what =>
      obtain ⟨n,rest,shape⟩ := tableLine_start widths (decimal number.toNat ++ '.' :: decimal index) [] []
        (enablement enabled) (Address.known address).text what
      have unread : fromStrRadix 10 u32 (decimal number.toNat ++ '.' :: decimal index) = none := place_unread _ _
      rw [place_line,shape,splitWhitespace,words_behind (place_word _ _) (spaces_behind _ _)]
      exact ⟨_,_,rfl,unread⟩
  obtain ⟨first,rest,split,unread⟩ := words
  exact parseLine_other ((words_trimEnd _).trans split) unread

theorem column_plain (width : Nat) (plain : '\n' ∉ t) : '\n' ∉ column width t := by
  intro member
  rcases List.mem_append.mp member with inside | inside
  · exact plain inside
  · cases (List.mem_replicate.mp inside).2

theorem tableLine_plain (widths : Widths) {number kind disposition enabled address what : Text} (one : '\n' ∉ number)
    (two : '\n' ∉ kind) (three : '\n' ∉ disposition) (four : '\n' ∉ enabled) (five : '\n' ∉ address) (six : '\n' ∉ what) :
    '\n' ∉ tableLine widths number kind disposition enabled address what := by
  simp only [tableLine,List.mem_append,not_or]
  exact ⟨⟨⟨⟨⟨column_plain _ one,column_plain _ two⟩,column_plain _ three⟩,column_plain _ four⟩,column_plain _ five⟩,six⟩

theorem enablement_plain (enabled : Bool) : '\n' ∉ enablement enabled := solid_plain (enablement_word enabled)

theorem row_plain (widths : Widths) (row : Row) : '\n' ∉ row.line widths := by
  have kind : '\n' ∉ row.kind.name := by cases row.kind <;> decide
  have disposition : '\n' ∉ row.disposition.name := by cases row.disposition <;> decide
  refine tableLine_plain widths (solid_plain (decimal_word _)) kind disposition (enablement_plain _) ?_ row.what.2
  cases row.address with
  | none => exact List.not_mem_nil
  | some address => exact solid_plain (address_word address)

theorem detail_plain (widths : Widths) (number : UInt32) (detail : Detail) : '\n' ∉ detail.line widths number := by
  cases detail with
  | hits count =>
    have start : '\n' ∉ "\tbreakpoint already hit ".toList := by decide
    have close : '\n' ∉ (if count = 1 then " time" else " times").toList := by split <;> decide
    intro member
    rcases List.mem_append.mp member with front | inside
    · exact (List.mem_append.mp front).elim start (solid_plain (decimal_word count))
    · exact close inside
  | condition text =>
    have start : '\n' ∉ "\tstop only if ".toList := by decide
    exact fun member => (List.mem_append.mp member).elim start text.2
  | place index enabled address what =>
    rw [place_line]
    exact tableLine_plain widths (solid_plain (place_word _ _)) List.not_mem_nil List.not_mem_nil (enablement_plain _)
      (solid_plain (known_word address)) what.2

theorem header_skipped (widths : Widths) : readLine (header widths) = none := by
  obtain ⟨n,rest,shape⟩ := tableLine_start widths "Num".toList "Type".toList "Disp".toList "Enb".toList "Address".toList "What".toList
  have word : Solid "Num".toList := solid_word (by decide) (by decide)
  have split : splitWhitespace (trimEnd (header widths)) = "Num".toList :: splitWhitespace rest := by
    rw [splitWhitespace,words_trimEnd,header,shape,words_behind word (spaces_behind _ _),words_blank fun c member => (spaces_blank member).1]
    rfl
  exact parseLine_other split (by decide)

theorem header_plain (widths : Widths) : '\n' ∉ header widths :=
  tableLine_plain widths (by decide) (by decide) (by decide) (by decide) (by decide) (by decide)

theorem listing_plain (widths : Widths) (rows : List Row) : ∀ line ∈ listing widths rows, '\n' ∉ line := by
  cases rows with
  | nil => exact List.forall_mem_singleton.mpr (by decide)
  | cons row rows =>
    refine List.forall_mem_cons.mpr ⟨header_plain widths,fun line member => ?_⟩
    obtain ⟨row,_,inside⟩ := List.mem_flatMap.mp member
    rcases List.mem_cons.mp inside with rfl | below
    · exact row_plain widths row
    · obtain ⟨detail,_,rfl⟩ := List.mem_map.mp below
      exact detail_plain widths row.number detail

theorem parse_listing (widths : Widths) (rows : List Row) :
    parseBreakpoints (infoBreakpoints widths rows) = (listing widths rows).filterMap readLine := by
  have cut := lines_flatten (f:=id) (listing_plain widths rows)
  simp only [id_eq] at cut
  rw [parseBreakpoints,infoBreakpoints,cut,List.filterMap_map]
  refine List.filterMap_congr fun line _ => ?_
  exact congrArg parseLine (trimEnd_dropReturn line)

theorem rows_iff (widths : Widths) (rows : List Row) :
    (rows.flatMap fun row => row.line widths :: row.details.map (Detail.line widths row.number)).filterMap readLine =
      rows.map Row.record ↔ ∀ row ∈ rows, row.recovered = true := by
  induction rows with
  | nil => simp
  | cons row rows ih =>
    obtain ⟨record,read,same⟩ := parseRow_iff widths row
    have details : (row.details.map (Detail.line widths row.number)).filterMap readLine = [] := by
      rw [List.filterMap_map]
      exact List.filterMap_eq_nil_iff.mpr fun detail _ => detail_skipped widths row.number detail
    have found : readLine (row.line widths) = some record := (parseLine_row widths row).trans read
    rw [List.flatMap_cons,List.filterMap_append,List.filterMap_cons_some found,details,
      List.map_cons,List.forall_mem_cons,← same,← ih]
    exact List.cons.injEq _ _ _ _ ▸ Iff.rfl

theorem recovered_iff (widths : Widths) (rows : List Row) :
    parseBreakpoints (infoBreakpoints widths rows) = rows.map Row.record ↔ ∀ row ∈ rows, row.recovered = true := by
  rw [parse_listing]
  cases rows with
  | nil =>
    have none : readLine "No breakpoints or watchpoints.".toList = none := by decide
    exact ⟨fun _ => List.forall_mem_nil _,fun _ => List.filterMap_cons_none none⟩
  | cons row rows =>
    have skipped : (listing widths (row::rows)).filterMap readLine = ((row::rows).flatMap fun row =>
        row.line widths :: row.details.map (Detail.line widths row.number)).filterMap readLine :=
      List.filterMap_cons_none (header_skipped widths)
    rw [skipped]
    exact rows_iff widths (row::rows)

def gdbWidths : Widths := ⟨7,14,4,3,18⟩

def readWatch : Row := ⟨4,.readWatchpoint,.keep,true,none,⟨"counter".toList,by decide⟩,[.hits 2]⟩
def disabling : Row := ⟨1,.breakpoint,.dis,true,some (.known 0x1011c9),⟨"in kernel_main at kernel.c:120".toList,by decide⟩,[]⟩
def pointer : Row := ⟨2,.hwWatchpoint,.keep,true,none,⟨"*counter".toList,by decide⟩,[]⟩

theorem rows_misread :
    parseBreakpoints (infoBreakpoints gdbWidths [readWatch]) = [⟨4,"read".toList,false,none,"y                      counter".toList⟩] ∧
    parseBreakpoints (infoBreakpoints gdbWidths [disabling]) = [{disabling.record with enabled:=false}] ∧
    parseBreakpoints (infoBreakpoints gdbWidths [pointer]) = [{pointer.record with address:=some "counter".toList,what:=[]}] := by
  decide +kernel

end PrincessIDE.Breakpoints
