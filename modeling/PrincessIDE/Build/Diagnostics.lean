import PrincessIDE.Core.Event
import PrincessIDE.Foundation.Path

namespace PrincessIDE.Diagnostics
open Utf8 (Text encode)
open Str Event

inductive ToolFamily where
  | gcc
  | clang
  | ld
  | nasm
  | unknown
deriving DecidableEq, Repr

def endsWith (pat t : Text) : Bool := startsWith pat.reverse t.reverse

theorem endsWith_append (pat front : Text) : endsWith pat (front ++ pat) = true := by
  unfold endsWith startsWith
  rw [List.reverse_append,stripPrefix_append]
  rfl

theorem endsWith_eq (ends : endsWith pat t = true) : ∃ front, t = front ++ pat := by
  obtain ⟨rest,found⟩ := Option.isSome_iff_exists.mp ends
  refine ⟨rest.reverse,?_⟩
  have whole := congrArg List.reverse (stripPrefix_eq found)
  rwa [List.reverse_append,List.reverse_reverse,List.reverse_reverse] at whole

namespace ToolFamily

def forProgram (program : Text) : ToolFamily :=
  let name := ((Path.fileName program).getD []).map toAsciiLowercase
  if contains "nasm".toList name || name = "yasm".toList then .nasm
  else if contains "clang".toList name then .clang
  else if contains "gcc".toList name || contains "g++".toList name || contains "cc1".toList name then .gcc
  else if name = "ld".toList || contains "ld.".toList name || endsWith "-ld".toList name || contains "collect2".toList name then .ld
  else .unknown

def defaultSource : ToolFamily → Option DiagnosticSource
  | .gcc => some .gcc
  | .clang => some .clang
  | .ld => some .ld
  | .nasm => some .nasm
  | .unknown => none

def fromRecipeLine (line : Text) : Option ToolFamily := do
  let first ← (splitWhitespace line).head?
  if !startsWith first (trimStart line) then none
  else match forProgram first with
    | .unknown => none
    | other => some other

end ToolFamily

structure RawDiagnostic where
  severity : DiagnosticSeverity
  file : Option Text
  line : Option Nat
  col : Option Nat
  message : Text
  source : DiagnosticSource
deriving DecidableEq, Repr

structure ParsedDiagnostic where
  severity : DiagnosticSeverity
  file : Option Text
  line : Option Nat
  col : Option Nat
  message : Text
  source : DiagnosticSource
deriving DecidableEq, Repr

def ParsedDiagnostic.toPayload (d : ParsedDiagnostic) : BuildDiagnosticPayload :=
  ⟨d.severity,d.file,d.line,d.col,d.message,d.source⟩

def classifySource (message wholeLine : Text) (family : ToolFamily) : DiagnosticSource :=
  let lower := wholeLine.map toAsciiLowercase
  if contains "nasm:".toList lower || contains "nasm ".toList lower || family = .nasm ||
      contains "parser: instruction expected".toList wholeLine then .nasm
  else if family = .clang then .clang
  else if family = .ld then .ld
  else if family = .unknown && (contains "use of undeclared identifier".toList message ||
      contains "expected ';' after".toList message || contains "incompatible integer to pointer".toList message) then .clang
  else if contains "each undeclared identifier is reported only once".toList message ||
      contains "expected '=' , ',' , ';' , 'asm' or '__attribute__'".toList message ||
      contains "note: expected".toList message then .gcc
  else if contains "undefined reference to".toList message || contains "cannot find entry symbol".toList message ||
      contains "relocation truncated".toList message || contains "final link failed".toList message then .ld
  else family.defaultSource.getD .gcc

-- `rfind` of a character, with what stands on both sides of it.
def rsplitOnce (c : Char) (t : Text) : Option (Text × Text) :=
  (splitOnce [c] t.reverse).map fun parts => (parts.2.reverse,parts.1.reverse)

def isAsciiDigit (c : Char) : Bool := 48 ≤ c.toNat && c.toNat ≤ 57

-- The walk back over `:digits` groups: the text before them and the numbers as
-- they were met. No answer is a number that does not fit.
def walkNumbers : Nat → Text → List Nat → Option (Text × List Nat)
  | 0,location,numbers => some (location,numbers)
  | rounds+1,location,numbers => match rsplitOnce ':' location with
    | none => some (location,numbers)
    | some (before,tail) =>
      if tail = [] || !tail.all isAsciiDigit then some (location,numbers)
      else match fromStrRadix 10 u32 tail with
        | none => none
        | some n => walkNumbers rounds before (numbers++[n])

def splitLocation (location : Text) : Option (Text × Option Nat × Option Nat) :=
  if location = [] then none
  else match walkNumbers 2 location [] with
    | none => none
    | some (rest,numbers) =>
      if numbers = [] then
        let file := trim location
        if file = [] || file.contains ' ' then none else some (file,none,none)
      else
        let file := trim rest
        if file = [] then none else some (file,numbers.reverse[0]?,numbers.reverse[1]?)

def markers : List (Text × DiagnosticSeverity) :=
  [(": fatal error:".toList,.error),(": error:".toList,.error),(": warning:".toList,.warning),(": note:".toList,.note)]

-- The earliest marker of a line, and of those that begin at one place the first
-- of the list, with the text on both sides of it.
def earliest (line : Text) : List (Text × DiagnosticSeverity) → Option (Text × Text × DiagnosticSeverity)
  | [] => none
  | (needle,severity) :: rest => match splitOnce needle line,earliest line rest with
    | none,later => later
    | some (before,after),none => some (before,after,severity)
    | some (before,after),some later =>
      if before.length ≤ later.1.length then some (before,after,severity) else some later

def parseColonForm (line : Text) (family : ToolFamily) : Option RawDiagnostic := do
  let (location,after,severity) ← earliest line markers
  let message := trim after
  if message = [] then none
  else do
    let (file,lineNo,col) ← splitLocation location
    some ⟨severity,some file,lineNo,col,message,classifySource message line family⟩

def parseMakeError (line : Text) (family : ToolFamily) : Option RawDiagnostic :=
  if !startsWith "make".toList (trimStart line) then none
  else if !(contains "***".toList line || contains "Error ".toList line) then none
  else some ⟨.error,none,none,none,trim line,family.defaultSource.getD .gcc⟩

def parseLdForm (line : Text) : Option RawDiagnostic := do
  let (program,rest) ← splitOnce ":".toList (trimStart line)
  if ToolFamily.forProgram (trim program) ≠ .ld then none
  else if trim rest = [] then none
  else do
    let (file,message) ← splitOnce ":".toList (trim rest)
    if trim file = [] || trim message = [] then none
    else some ⟨.error,some (trim file),none,none,trim message,.ld⟩

def parseLineFor (line : Text) (family : ToolFamily) : Option RawDiagnostic :=
  (parseColonForm line family).or ((parseMakeError line family).or (parseLdForm line))

def parseLine (line : Text) : Option RawDiagnostic := parseLineFor line .unknown

def isContinuation (trimmed : Text) : Bool :=
  if (encode trimmed).length < 2 then false
  else if startsWith "^".toList trimmed || startsWith "~".toList trimmed || startsWith "|".toList trimmed then true
  else if startsWith "In file included from".toList trimmed || startsWith "In function".toList trimmed ||
      startsWith "from ".toList trimmed then true
  else match splitOnce "|".toList trimmed with
    | some (left,_) => left ≠ [] && (trim left).all isAsciiDigit
    | none => false

def isClangMarker (trimmed : Text) : Bool :=
  contains "~~~^".toList trimmed || contains "[-W".toList trimmed || startsWith "~~~".toList trimmed

structure DiagnosticParser where
  cwd : Text
  family : ToolFamily
  last : Option RawDiagnostic
deriving DecidableEq, Repr

namespace DiagnosticParser

def new (cwd : Text) : DiagnosticParser := ⟨cwd,.unknown,none⟩

def withFamily (p : DiagnosticParser) (family : ToolFamily) : DiagnosticParser := {p with family:=family}

def resolve (p : DiagnosticParser) (file : Text) : Text :=
  let file := trim file
  if startsWith "<".toList file && endsWith ">".toList file then file
  else Path.normalize (if Path.isAbsolute file then file else Path.join p.cwd file)

def finish (p : DiagnosticParser) (raw : RawDiagnostic) : Option ParsedDiagnostic :=
  let message := trim raw.message
  if message = [] then none
  else some ⟨raw.severity,raw.file.map p.resolve,raw.line,raw.col,message,raw.source⟩

-- What a continuation line adds to the diagnostic before it.
def fold (last : RawDiagnostic) (fragment : Text) : RawDiagnostic :=
  let last := if isClangMarker fragment then {last with source:=.clang} else last
  if contains fragment last.message then last else {last with message:=last.message ++ '\n' :: fragment}

def feed (p : DiagnosticParser) (line : Text) : List ParsedDiagnostic × DiagnosticParser :=
  let trimmed := trimEndMatches (fun c => c = '\r' || c = '\n') line
  if trim trimmed = [] then ([],p)
  else
    let p := match ToolFamily.fromRecipeLine trimmed with
      | some family => {p with family:=family}
      | none => p
    match parseLineFor trimmed p.family with
    | some raw => ((p.finish raw).toList,{p with last:=some raw})
    | none =>
      let fragment := trim trimmed
      if !isContinuation fragment then ([],{p with last:=none})
      else ([],{p with last:=p.last.map (fold · fragment)})

def feedLines (p : DiagnosticParser) : List Text → List ParsedDiagnostic × DiagnosticParser
  | [] => ([],p)
  | line :: rest => ((p.feed line).1 ++ (feedLines (p.feed line).2 rest).1,(feedLines (p.feed line).2 rest).2)

def feedText (p : DiagnosticParser) (text : Text) : List ParsedDiagnostic × DiagnosticParser :=
  p.feedLines (split "\n".toList text)

def flush (p : DiagnosticParser) : Option ParsedDiagnostic × DiagnosticParser :=
  (p.last.bind p.finish,{p with last:=none})

end DiagnosticParser

def sameProblem (a b : ParsedDiagnostic) : Bool :=
  a.file = b.file && a.line = b.line && a.col = b.col && a.source = b.source

def dedup (diagnostics : List ParsedDiagnostic) : List ParsedDiagnostic :=
  diagnostics.foldl (fun out d => if out.contains d then out else out++[d]) []

-- The stale copy of the flushed diagnostic is dropped.
def settlePending (out : List ParsedDiagnostic) : Option ParsedDiagnostic → List ParsedDiagnostic
  | none => out
  | some pending => match out.findIdx? (sameProblem · pending) with
    | some index => out.eraseIdx index ++ [pending]
    | none => out ++ [pending]

def DiagnosticParser.feedTextDedup (p : DiagnosticParser) (text : Text) : List ParsedDiagnostic × DiagnosticParser :=
  let (out,p) := p.feedText text
  let (pending,p) := p.flush
  (dedup (settlePending out pending),p)

-- The three forms that a line is read from: with a marker, make's own, and the linker's.
inductive Form (line : Text) (family : ToolFamily) : RawDiagnostic → Prop where
  | colon : earliest line markers = some (location,after,severity) → trim after ≠ [] → splitLocation location = some (file,lineNo,col) →
      Form line family ⟨severity,some file,lineNo,col,trim after,classifySource (trim after) line family⟩
  | make : Form line family ⟨.error,none,none,none,trim line,family.defaultSource.getD .gcc⟩
  | ld : parseLdForm line = some ⟨.error,some (trim file),none,none,trim message,.ld⟩ → trim message ≠ [] →
      Form line family ⟨.error,some (trim file),none,none,trim message,.ld⟩

theorem ldForm_message (parsed : parseLdForm line = some raw) :
    ∃ file message, trim message ≠ [] ∧ raw = ⟨.error,some (trim file),none,none,trim message,.ld⟩ := by
  obtain ⟨_,_,linked⟩ := Option.bind_eq_some_iff.mp parsed
  dsimp only at linked
  split at linked
  · cases linked
  split at linked
  · cases linked
  obtain ⟨⟨file,message⟩,_,linked⟩ := Option.bind_eq_some_iff.mp linked
  dsimp only at linked
  split at linked
  · cases linked
  next filled =>
  cases linked
  exact ⟨file,message,fun empty => filled (by simp [empty]),rfl⟩

theorem parsed_form (parsed : parseLineFor line family = some raw) : Form line family raw := by
  rcases Option.or_eq_some_iff.mp parsed with colon | ⟨_,other⟩
  · obtain ⟨⟨location,after,severity⟩,first,rest⟩ := Option.bind_eq_some_iff.mp colon
    dsimp only at rest
    split at rest
    · cases rest
    next said =>
    obtain ⟨_,place,same⟩ := Option.bind_eq_some_iff.mp rest
    cases same
    exact .colon first said place
  · rcases Option.or_eq_some_iff.mp other with make | ⟨_,ld⟩
    · unfold parseMakeError at make
      split at make
      · cases make
      split at make
      · cases make
      cases make
      exact .make
    · obtain ⟨_,_,said,rfl⟩ := ldForm_message ld
      exact .ld ld said

end PrincessIDE.Diagnostics
