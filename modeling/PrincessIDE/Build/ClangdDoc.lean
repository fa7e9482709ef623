import PrincessIDE.Build.DotClangd
import PrincessIDE.Foundation.Marks

namespace PrincessIDE.DotClangd
open Utf8 (Text)
open Str

-- A text that stands in one line.
structure Line where
  text : Text
  line : ∀ c ∈ text, c ≠ '\n' ∧ c ≠ '\r'

inductive Style where
  | plain
  | single
  | double
deriving DecidableEq, Repr

-- What is read as itself without quotes.
def Plain (t : Text) : Prop := (∀ c ∈ t.head?, c ∉ "?:,[]\x7b\x7d#&*!|>%@\x60".toList) ∧ startsWith "- ".toList t = false ∧ t ≠ ['-'] ∧
  contains " #".toList t = false ∧ contains ": ".toList t = false ∧ t.getLast? ≠ some ':'

structure Scalar where
  text : Text
  style : Style
  filled : text ≠ []
  trimmed : Trimmed text
  line : ∀ c ∈ text, c ≠ '\n' ∧ c ≠ '\r'
  unquoted : ∀ c ∈ text, c ≠ '"' ∧ c ≠ '\'' ∧ c ≠ '\\'
  plainly : style = .plain → Plain text

def Scalar.shown (s : Scalar) : Text := match s.style with
  | .plain => s.text
  | .single => '\'' :: s.text ++ ['\'']
  | .double => '"' :: s.text ++ ['"']

def blanks (n : Nat) : Text := List.replicate n ' '

-- What stands behind all else in a line.
structure Tail where
  spaces : Nat
  comment : Option Line

def Tail.shown (tail : Tail) : Text := blanks tail.spaces ++ match tail.comment with
  | none => []
  | some c => ' ' :: '#' :: c.text

structure Item where
  before : Nat
  scalar : Scalar
  after : Nat
  -- a plain one ends at a comma or a bracket
  flow : scalar.style = .plain → ∀ c ∈ scalar.text, c ∉ [',','[',']','\x7b','\x7d']

def Item.shown (item : Item) : Text := blanks item.before ++ item.scalar.shown ++ blanks item.after

inductive Value where
  | none
  | scalar (gap : Nat) (s : Scalar)
  | inline (gap : Nat) (items : List Item)

def Value.shown : Value → Text
  | .none => []
  | .scalar gap s => blanks (gap+1) ++ s.shown
  | .inline gap items => blanks (gap+1) ++ '[' :: [','].intercalate (items.map Item.shown) ++ [']']

structure Name where
  text : Text
  filled : text ≠ []
  plain : ∀ c ∈ text, isWhitespace c = false ∧ c ≠ ':' ∧ c ≠ '#' ∧ c ≠ '-'

inductive Content where
  | blank
  | comment (c : Line)
  | key (name : Name) (value : Value) (tail : Tail)
  | entry (gap : Nat) (s : Scalar) (tail : Tail)

def Content.shown : Content → Text
  | .blank => []
  | .comment c => '#' :: c.text
  | .key name value tail => name.text ++ ':' :: (value.shown ++ tail.shown)
  | .entry gap s tail => '-' :: (blanks (gap+1) ++ s.shown ++ tail.shown)

structure Row where
  indent : Nat
  content : Content

def Row.line (row : Row) : Text := blanks row.indent ++ row.content.shown

-- A row that says nothing.
def Row.Filler (row : Row) : Prop := match row.content with
  | .blank => True
  | .comment _ => True
  | _ => False

instance : DecidablePred Row.Filler := fun row => match row with
  | ⟨_,.blank⟩ => .isTrue trivial
  | ⟨_,.comment _⟩ => .isTrue trivial
  | ⟨_,.key ..⟩ => .isFalse id
  | ⟨_,.entry ..⟩ => .isFalse id

def Row.Entry (row : Row) : Prop := match row.content with
  | .entry .. => True
  | _ => False

def Row.entryText (row : Row) : Option Text := match row.content with
  | .entry _ s _ => some s.text
  | _ => none

def Row.IsKey (row : Row) : Prop := match row.content with
  | .key .. => True
  | _ => False

def compileFlags : Text := "CompileFlags".toList

def Row.IsFlags (row : Row) : Prop := match row.content with
  | .key name _ _ => name.text = compileFlags
  | _ => False

-- What stands under a key without a value.
inductive Under where
  | list (depth : Nat)
  | nested

-- A key with all that belongs to it, blank lines and comments included.
structure Section where
  name : Name
  value : Value
  tail : Tail
  under : Under
  body : List Row

namespace Section

def row (s : Section) (indent : Nat) : Row := ⟨indent,.key s.name s.value s.tail⟩

def IsInline (s : Section) : Prop := match s.value with
  | .inline .. => True
  | _ => False

def Deep (indent : Nat) (rows : List Row) : Prop := ∀ row ∈ rows, row.Filler ∨ indent < row.indent

-- The entries of a list stand below each other, at the key or deeper; the rest
-- that can be nested stands deeper and begins with a key.
def Fits (s : Section) (indent : Nat) : Prop := match s.value,s.under with
  | .none,.list depth => ∀ row ∈ s.body, row.Filler ∨ row.Entry ∧ row.indent = indent+depth
  | .none,.nested => Deep indent s.body ∧ ∃ lead key rest, s.body = lead ++ key :: rest ∧ (∀ row ∈ lead, row.Filler) ∧ key.IsKey
  | _,_ => ∀ row ∈ s.body, row.Filler

-- The entries, of either style of list.
def list (s : Section) : List Text := match s.value,s.under with
  | .none,.list _ => s.body.filterMap Row.entryText
  | .inline _ items,_ => items.map fun item => item.scalar.text
  | _,_ => []

end Section

-- `CompileFlags` with keys in it.
structure Dictionary where
  tail : Tail
  lead : List Row
  width : Nat
  children : List Section
  filled : children ≠ []
  filler : ∀ row ∈ lead, row.Filler
  deeper : 0 < width
  distinct : (children.map fun s => s.name.text).Nodup

theorem compileFlags_plain : ∀ c ∈ compileFlags, isWhitespace c = false ∧ c ≠ ':' ∧ c ≠ '#' ∧ c ≠ '-' := by
  intro c member
  have all : compileFlags.all (fun c => isWhitespace c = false ∧ c ≠ ':' ∧ c ≠ '#' ∧ c ≠ '-') = true := by decide
  exact of_decide_eq_true (List.all_eq_true.mp all c member)

def flagsName : Name := ⟨compileFlags,by decide,compileFlags_plain⟩

-- What the key is otherwise: a value or a list.
structure Flat where
  whole : Section
  named : whole.name = flagsName
  notNested : whole.value = .none → ∃ depth, whole.under = .list depth

inductive Flags where
  | flat (f : Flat)
  | dictionary (d : Dictionary)

namespace Flags

def rows (top : Nat) : Flags → List Row
  | .flat f => f.whole.row top :: f.whole.body
  | .dictionary d => ⟨top,.key flagsName .none d.tail⟩ :: (d.lead ++ d.children.flatMap fun s => s.row (top+d.width) :: s.body)

def Fits (top : Nat) : Flags → Prop
  | .flat f => f.whole.Fits top
  | .dictionary d => ∀ s ∈ d.children, s.Fits (top+d.width)

end Flags

-- A file: the key at the top and what stands in front of it and behind.
structure Doc where
  top : Nat
  crlf : Bool
  before : List Row
  flags : Option Flags
  after : List Row
  fits : ∀ f ∈ flags, f.Fits top
  others : ∀ row ∈ before ++ after, row.Filler ∨ top < row.indent ∨ row.Entry ∧ row.indent = top ∨ row.IsKey ∧ row.indent = top ∧ ¬ row.IsFlags
  next : ∀ row ∈ after.head?, row.IsKey ∧ row.indent = top

namespace Doc

def rows (doc : Doc) : List Row := doc.before ++ (doc.flags.map (Flags.rows doc.top)).getD [] ++ doc.after

def ending (doc : Doc) : Text := if doc.crlf then ['\r','\n'] else ['\n']

def text (doc : Doc) : Text := doc.rows.flatMap fun row => row.line ++ doc.ending

def IsDictionary (doc : Doc) : Prop := match doc.flags with
  | some (.dictionary _) => True
  | _ => False

def child (doc : Doc) (name : Text) : Option Section := match doc.flags with
  | some (.dictionary d) => d.children.find? fun s => s.name.text = name
  | _ => none

def listOf (doc : Doc) (name : Text) : List Text := ((doc.child name).map Section.list).getD []

def add (doc : Doc) : List Text := doc.listOf "Add".toList
def remove (doc : Doc) : List Text := doc.listOf "Remove".toList

end Doc

def Sparing (entries : List Text) : Prop := ∀ entry ∈ entries, wildcardMarker ∈ entry → entry = allowedWildcard

-- What a file should do that nothing is said of.
structure Good (doc : Doc) : Prop where
  dictionary : doc.IsDictionary
  target : ∃ entry ∈ doc.add, "--target=".toList <+: entry
  nostdlibinc : nostdIncludeFlag ∈ doc.add
  nostdinc : "-nostdinc".toList ∉ doc.add
  blacklist : ∀ flag ∈ flagBlacklist, flag ∈ doc.remove
  wildcards : Sparing doc.remove

-- What the checks find in a row. A comment behind an entry counts as a part of it,
-- and so does a quote that has two blanks in front.
def Row.Quiet (row : Row) : Prop := match row.content with
  | .entry gap s tail => (wildcardMarker ∉ s.text ∧ ∀ c ∈ tail.comment, wildcardMarker ∉ c.text) ∨
      s.text = allowedWildcard ∧ tail.comment = none ∧ (s.style = .plain ∨ s.style = .double ∧ gap = 0)
  | _ => True

def Tail.EndsColon (tail : Tail) (bare : Prop) : Prop := match tail.comment with
  | none => bare
  | some c => (trimEnd c.text).getLast? = some ':'

def Row.EndsColon (row : Row) : Prop := match row.content with
  | .key _ value tail => tail.EndsColon (value = .none)
  | .entry _ _ tail => tail.EndsColon False
  | _ => False

-- The rows below a key that are deeper.
def block (top : Nat) (rows : List Row) : List Row := rows.takeWhile fun row => row.Filler ∨ top < row.indent

-- Below the first line with the key no row that is two deeper is an entry, and one
-- ends in a colon.
def Surveyed (rows : List Row) : Prop := ∃ before flags rest, rows = before ++ flags :: rest ∧ flags.IsFlags ∧ (∀ row ∈ before, ¬ row.IsFlags) ∧
  (∀ row ∈ block flags.indent rest, row.indent = flags.indent+2 → ¬ row.Entry) ∧
  ∃ row ∈ block flags.indent rest, row.indent = flags.indent+2 ∧ row.EndsColon

-- A file with all that is looked for, wherever it stands.
structure Passed (doc : Doc) : Prop where
  surveyed : Surveyed doc.rows
  target : contains "--target=".toList doc.text = true
  nostdlibinc : contains nostdIncludeFlag doc.text = true
  nostdinc : contains "-nostdinc".toList doc.text = false
  blacklist : ∀ flag ∈ flagBlacklist, contains flag doc.text = true
  quiet : ∀ row ∈ doc.rows, row.Quiet

-- What no check finds out: that a text is in its list, that the key is the one at
-- the top, and that a list in brackets has no wildcard.
structure Placed (doc : Doc) : Prop where
  top : (doc.flags = none ∨ ∃ row ∈ doc.before, row.IsFlags) → doc.IsDictionary
  target : ∃ entry ∈ doc.add, "--target=".toList <+: entry
  nostdlibinc : nostdIncludeFlag ∈ doc.add
  blacklist : ∀ flag ∈ flagBlacklist, flag ∈ doc.remove
  inline : ∀ s ∈ doc.child "Remove".toList, s.IsInline → Sparing s.list

end PrincessIDE.DotClangd
