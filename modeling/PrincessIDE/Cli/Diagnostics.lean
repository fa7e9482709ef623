import PrincessIDE.Build.Diagnostics
import PrincessIDE.Foundation.Trim

namespace PrincessIDE.CliDiagnostics
open Utf8 (Text)
open Str Event
open Diagnostics (endsWith endsWith_eq isAsciiDigit)

def severityOf (token : Text) : Option DiagnosticSeverity :=
  if token = "error".toList ∨ token = "fatal".toList then some .error
  else if token = "warning".toList then some .warning
  else if token = "note".toList then some .note
  else none

def sourceForFile (file : Option Text) (defaultSource : DiagnosticSource) : DiagnosticSource := match file with
  | some path => if endsWith ".asm".toList path || endsWith ".nasm".toList path then .nasm else defaultSource
  | none => defaultSource

def takeNumber (text : Text) : Option (Nat × Text) :=
  let digits := text.takeWhile isAsciiDigit
  if digits = [] then none else (fromStrRadix 10 u32 digits).map (·,text.dropWhile isAsciiDigit)

def resolveFile (file cwd : Text) : Text :=
  if Path.isAbsolute file then file else Path.normalize (Path.join cwd file)

def isLinker (head : Text) : Bool :=
  head = "ld".toList || endsWith "/ld".toList head || head = "collect2".toList || endsWith "/collect2".toList head

def isDriver (head : Text) : Bool :=
  head = "cc1".toList || head = "clang".toList || head = "gcc".toList || head = "nasm".toList

def isLineEnd (c : Char) : Bool := c = '\r' || c = '\n'

-- The severity and the message of a line behind the name of its tool.
def toolParts (tail : Text) : Text × Option Text := match splitOnce ": ".toList tail with
  | some (first,rest) => (trim first,some (trim rest))
  | none => (trim tail,none)

def toolMessage (parts : Text × Option Text) : Text := match parts.2 with
  | some rest => if rest = [] then parts.1 else parts.1 ++ ": ".toList ++ rest
  | none => parts.1

-- `tool: [severity: ]message`: only a linker needs no severity.
def parseTool (line : Text) (defaultSource : DiagnosticSource) : Option BuildDiagnosticPayload := do
  let (head,tail) ← splitOnce ": ".toList line
  let head := trim head
  if isLinker head || isDriver head then
    let parts := toolParts tail
    let severity ← (severityOf parts.1).or (if isLinker head then some .error else none)
    some ⟨severity,none,none,none,toolMessage parts,if isLinker head then .ld else defaultSource⟩
  else none

-- The column behind a line number, and the text behind both: that behind the
-- line number where there is no column.
def columnOf (behind rest : Text) : Option Nat × Text := match takeNumber behind with
  | some (col,rest) => (some col,rest)
  | none => (none,rest)

def tokenOf (rest : Text) : Text × Text := match splitOnce ":".toList rest with
  | some (token,message) => (trim token,trim message)
  | none => (trim rest,[])

-- `file:line[:col]: severity: message`
def parseLocated (line cwd : Text) (defaultSource : DiagnosticSource) : Option BuildDiagnosticPayload := do
  let (file,rest) ← splitOnce ":".toList line
  if file = [] || file.contains ' ' || file.contains '\t' then none
  else
    let (lineNumber,rest) ← takeNumber rest
    let behind ← stripPrefix ":".toList rest
    let (col,rest) := columnOf behind rest
    let rest ← stripPrefix ":".toList rest
    let (token,message) := tokenOf (trimStart rest)
    let severity ← severityOf token
    let fileText := resolveFile file cwd
    some ⟨severity,some fileText,some lineNumber,col,if message = [] then token else token ++ ": ".toList ++ message,
      sourceForFile (some fileText) defaultSource⟩

def parseLine (line cwd : Text) (defaultSource : DiagnosticSource) : Option BuildDiagnosticPayload :=
  let line := trim (trimEndMatches isLineEnd line)
  if line = [] then none else (parseTool line defaultSource).or (parseLocated line cwd defaultSource)

example : parseLine "ld: build/k.o: undefined".toList "/p".toList .gcc =
    some ⟨.error,none,none,none,"build/k.o: undefined".toList,.ld⟩ := by decide +kernel

theorem lineEnd_blank {c : Char} (ended : isLineEnd c = true) : isWhitespace c = true := by
  simp only [isLineEnd,Bool.or_eq_true,decide_eq_true_eq] at ended
  rcases ended with rfl | rfl <;> decide

theorem trim_lineEnd (t : Text) : trim (trimEndMatches isLineEnd t) = trim t := by
  have split : t = trimEndMatches isLineEnd t ++ (t.reverse.takeWhile isLineEnd).reverse := by
    have cut := congrArg List.reverse (List.takeWhile_append_dropWhile (p:=isLineEnd) (l:=t.reverse))
    rw [List.reverse_append,List.reverse_reverse] at cut
    exact cut.symm
  have blank : ∀ c ∈ (t.reverse.takeWhile isLineEnd).reverse, isWhitespace c = true :=
    fun c inside => lineEnd_blank (List.mem_takeWhile_imp (List.mem_reverse.mp inside))
  have same := trim_append blank (trimEndMatches isLineEnd t)
  rwa [← split,eq_comm] at same

-- Only the trimmed line counts, so a carriage return at its end makes no difference.
theorem parseLine_dropReturn (line cwd : Text) (defaultSource : DiagnosticSource) :
    parseLine (dropReturn line) cwd defaultSource = parseLine line cwd defaultSource := by
  have same := trim_dropReturn line
  unfold parseLine
  rw [trim_lineEnd,trim_lineEnd,same]

theorem severityOf_long (found : severityOf token = some severity) : 4 ≤ token.length := by
  unfold severityOf at found
  split at found
  · next named => rcases named with rfl | rfl <;> decide
  · split at found
    · next named => rw [named]; decide
    · split at found
      · next named => rw [named]; decide
      · cases found

theorem endsWith_long {pat t : Text} (ends : endsWith pat t = true) : pat.length ≤ t.length := by
  obtain ⟨front,rfl⟩ := endsWith_eq ends
  rw [List.length_append]
  omega

theorem named_long {head : Text} (named : (isLinker head || isDriver head) = true) : 2 ≤ head.length := by
  simp only [isLinker,isDriver,Bool.or_eq_true,decide_eq_true_eq] at named
  rcases named with (((rfl | ends) | rfl) | ends) | (((rfl | rfl) | rfl) | rfl)
  · decide
  · exact Nat.le_trans (by decide) (endsWith_long ends)
  · decide
  · exact Nat.le_trans (by decide) (endsWith_long ends)
  all_goals decide

theorem parseTool_long (solid : ∀ c, line.getLast? = some c → isWhitespace c = false) (parsed : parseTool line defaultSource = some d) :
    5 ≤ line.length := by
  obtain ⟨⟨head,tail⟩,found,parsed⟩ := Option.bind_eq_some_iff.mp parsed
  dsimp only at parsed
  split at parsed
  · next named =>
    have cut := splitOnce_eq found
    have long := Nat.le_trans (named_long named) (trim_short head)
    have behind : tail ≠ [] := by
      rintro rfl
      have blank := solid ' ' (by rw [cut,List.append_nil]; simp)
      exact absurd blank (by decide)
    have some := List.length_pos_iff.mpr behind
    have length := congrArg List.length cut
    simp only [List.length_append,show ": ".toList.length = 2 from rfl] at length
    omega
  · cases parsed

theorem takeNumber_short (taken : takeNumber text = some (n,rest)) : rest.length < text.length := by
  dsimp only [takeNumber] at taken
  split at taken
  · cases taken
  · next some =>
    obtain ⟨value,_,same⟩ := Option.map_eq_some_iff.mp taken
    have length := congrArg List.length (List.takeWhile_append_dropWhile (p:=isAsciiDigit) (l:=text))
    have positive := List.length_pos_iff.mpr some
    rw [List.length_append] at length
    rw [← (Prod.mk.inj same).2]
    omega

theorem columnOf_short (colon : stripPrefix ":".toList rest = some behind) : (columnOf behind rest).2.length ≤ rest.length := by
  unfold columnOf
  split
  · next col after taken =>
    have shorter := takeNumber_short taken
    have length := congrArg List.length (stripPrefix_eq colon)
    rw [List.length_append] at length
    dsimp only
    omega
  · exact Nat.le_refl _

theorem tokenOf_short (rest : Text) : (tokenOf rest).1.length ≤ rest.length := by
  unfold tokenOf
  split
  · next token message found =>
    have length := congrArg List.length (splitOnce_eq found)
    have short := trim_short token
    simp only [List.length_append] at length
    dsimp only
    omega
  · exact trim_short rest

-- The parts of a line with a place, in their order.
theorem located_read (parsed : parseLocated line cwd defaultSource = some d) :
    ∃ file rest number behind last, splitOnce ":".toList line = some (file,rest) ∧ (file = [] || file.contains ' ' || file.contains '\t') = false ∧
      takeNumber rest = some (number,':' :: behind) ∧ (columnOf behind (':' :: behind)).2 = ':' :: last ∧
      severityOf (tokenOf (trimStart last)).1 = some d.severity ∧ d.file = some (resolveFile file cwd) ∧ d.line = some number ∧
      d.col = (columnOf behind (':' :: behind)).1 := by
  obtain ⟨⟨file,rest⟩,found,parsed⟩ := Option.bind_eq_some_iff.mp parsed
  dsimp only at parsed
  split at parsed
  · cases parsed
  next bare =>
  obtain ⟨⟨number,rest'⟩,numbered,parsed⟩ := Option.bind_eq_some_iff.mp parsed
  obtain ⟨behind,colon,parsed⟩ := Option.bind_eq_some_iff.mp parsed
  obtain ⟨last,colon',parsed⟩ := Option.bind_eq_some_iff.mp parsed
  obtain ⟨severity,named,parsed⟩ := Option.bind_eq_some_iff.mp parsed
  cases parsed
  dsimp only at colon colon' numbered
  have first : rest' = ':' :: behind := stripPrefix_eq colon
  subst first
  exact ⟨file,rest,number,behind,last,found,Bool.eq_false_iff.mpr bare,numbered,stripPrefix_eq colon',named,rfl,rfl,rfl⟩

theorem parseLocated_long (parsed : parseLocated line cwd defaultSource = some d) : 5 ≤ line.length := by
  obtain ⟨file,rest,number,behind,last,found,_,numbered,second,named,_⟩ := located_read parsed
  have token := severityOf_long named
  have whole := tokenOf_short (trimStart last)
  have start : (trimStart last).length ≤ last.length := (List.dropWhile_suffix _).length_le
  have column : (columnOf behind (':' :: behind)).2.length ≤ (':' :: behind).length := columnOf_short (stripPrefix_append ":".toList behind)
  have short := takeNumber_short numbered
  have lines := congrArg List.length (splitOnce_eq found)
  rw [second] at column
  simp only [List.length_append,List.length_cons] at lines column short
  omega

-- What is shorter than a linker's name, its colon, a blank and a letter is no diagnostic.
theorem parseLine_long (parsed : parseLine line cwd defaultSource = some d) : 5 ≤ line.length := by
  unfold parseLine at parsed
  rw [trim_lineEnd] at parsed
  dsimp only at parsed
  split at parsed
  · cases parsed
  have short := trim_short line
  rcases Option.or_eq_some_iff.mp parsed with tool | ⟨_,located⟩
  · exact Nat.le_trans (parseTool_long (fun c last => (trim_trimmed line).2 c last) tool) short
  · exact Nat.le_trans (parseLocated_long located) short

end PrincessIDE.CliDiagnostics
