import PrincessIDE.Foundation.Str

namespace PrincessIDE.Path
open Utf8 (Text)
open Str

inductive Component where
  | rootDir
  | curDir
  | parentDir
  | normal (name : Text)
deriving DecidableEq, Repr

def isAbsolute (path : Text) : Bool := path.head? = some '/'

def component (name : Text) : Option Component :=
  if name = [] ∨ name = ".".toList then none
  else if name = "..".toList then some .parentDir
  else some (.normal name)

-- A `.` counts only at the front of a relative path.
def components (path : Text) : List Component :=
  let names := split "/".toList path
  let body := names.filterMap component
  if isAbsolute path then .rootDir :: body
  else if names.head? = some ".".toList then .curDir :: body
  else body

def fileName (path : Text) : Option Text := match (components path).getLast? with
  | some (.normal name) => some name
  | _ => none

-- The text behind the last dot of the name; a dot in front does not count.
def extension (path : Text) : Option Text := do
  let name ← fileName path
  let (after,before) ← splitOnce ".".toList name.reverse
  if before = [] then none else some after.reverse

def join (base path : Text) : Text :=
  if isAbsolute path then path
  else if base = [] ∨ base.getLast? = some '/' then base ++ path
  else base ++ '/' :: path

-- A path that is built up by pushes and pops.
structure Buf where
  rooted : Bool
  names : List Text
deriving DecidableEq, Repr

namespace Buf

def new : Buf := ⟨false,[]⟩

def pushComponent (buf : Buf) : Component → Buf
  | .rootDir => ⟨true,[]⟩
  | .curDir => buf
  -- `pop` fails where there is no name to take off
  | .parentDir => if buf.names = [] then {buf with names:=["..".toList]} else {buf with names:=buf.names.dropLast}
  | .normal name => {buf with names:=buf.names++[name]}

def text (buf : Buf) : Text := (if buf.rooted then ['/'] else []) ++ ['/'].intercalate buf.names

end Buf

-- `.` and `..` are taken lexically.
def normalize (path : Text) : Text :=
  let out := ((components path).foldl Buf.pushComponent .new).text
  if out = [] then ".".toList else out

example : normalize "/w/./src//../boot.s".toList = "/w/boot.s".toList := by decide +kernel

end PrincessIDE.Path
