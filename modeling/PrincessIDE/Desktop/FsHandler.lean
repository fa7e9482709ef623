import PrincessIDE.Desktop.Ops
import PrincessIDE.Foundation.FileTree
import PrincessIDE.Foundation.Path

namespace PrincessIDE.Fs
open FileTree Str Error
open Utf8 (Text Bytes encode lossy)
open Ops (ok err)

-- The names of a file system are bytes; those of a request are text.
abbrev FsTree := Tree Bytes Bytes
abbrev FsPlace := Place Bytes
abbrev FsPath := List (Piece Bytes)

def maxReadBytes : Nat := 8*1024*1024

def faultText : Fault → Text
  | .noEntry => "No such file or directory (os error 2)".toList
  | .notDirectory => "Not a directory (os error 20)".toList
  | .isDirectory => "Is a directory (os error 21)".toList
  | .loop => "Too many levels of symbolic links (os error 40)".toList

def piece (name : Text) : Piece Bytes :=
  if name = [] ∨ name = ['.'] then .here else if name = ['.','.'] then .up else .name (encode name)

def parse (path : Text) : FsPath := (split ['/'] path).map piece

def pathOf (place : FsPlace) : FsPath := place.map .name

-- `display` of a canonical path.
def placeText (place : FsPlace) : Text := if place = [] then ['/'] else lossy (place.flatMap fun name => 47 :: name)

def hasNul (path : FsPath) : Bool := path.any fun
  | .name n => n.contains 0
  | _ => false

-- A path goes to the system as a C string; at most forty links are followed.
def maxLinks : Nat := 40

def lookup (t : FsTree) (create : Bool) (start : FsPlace) (path : FsPath) : Except Text FsPlace :=
  if hasNul path then .error "file name contained an unexpected NUL byte".toList
  else match walk t create maxLinks start path with
    | .ok (place,_) => .ok place
    | .error fault => .error (faultText fault)

def denied (path : Text) (root : FsPlace) : Json := err .sandboxDenied ("path escapes the project root: ".toList ++ path)
  ("resolved against ".toList ++ placeText root ++ ".  Pick a file inside the opened project, or open that project first.".toList)

-- Of a relative root, `cwd` is the directory of the process.
def canonicalRoot (t : FsTree) (cwd : FsPlace) (root : Text) : Except Json FsPlace :=
  if trim root = [] then
    .error (err .invalidConfig "projectRoot is required".toList "pass the root returned by princess:project:open".toList)
  else (lookup t false (if Path.isAbsolute root then [] else cwd) (parse root)).mapError
    (err .notFound ("project root does not exist: ".toList ++ root))

def joinChecked (root : FsPlace) (path : Text) : Except Json FsPath :=
  if trim path = [] then .error (err .invalidConfig "path is required".toList "received an empty path".toList)
  else
    let candidate := if Path.isAbsolute path then parse path else pathOf root ++ parse path
    if candidate.contains .up then .error (denied path root) else .ok candidate

def argStr (display : Json → Text) (args : Json) (key : String) (cmd : Text) : Except Json Text :=
  match (args.get key).bind Json.asStr with
  | some value => .ok value
  | none => .error (err .invalidConfig (cmd ++ " requires \x7b ".toList ++ key.toList ++ ": string \x7d".toList)
      ("received args: ".toList ++ display args))

structure ReadData where
  path : Text
  bytes : Nat
  content : Text
  truncated : Bool
deriving DecidableEq, Repr

def ReadData.reply (data : ReadData) : Json := ok (.obj [("path".toList,.str data.path),("bytes".toList,.int data.bytes),
  ("content".toList,.str data.content),("truncated".toList,.bool data.truncated)])

-- The errors that the system has besides those of the tree.
structure ReadFate where
  stat : Option Text
  read : Option Text
deriving DecidableEq, Repr

-- The canonical path of an entry leads to that entry.
def readReal (t : FsTree) (fate : ReadFate) (path : Text) (real : FsPlace) : Except Json ReadData :=
  match fate.stat with
  | some e => .error (err .notFound ("cannot stat ".toList ++ path) e)
  | none => match t.nodes real with
    | some (.file content) => match fate.read with
      | some e => .error (err .internal ("cannot read ".toList ++ path) e)
      | none => .ok ⟨placeText real,content.length,lossy (content.take maxReadBytes),decide (content.length > maxReadBytes)⟩
    | _ => .error (err .invalidConfig ("not a regular file: ".toList ++ path) (placeText real ++ " is a directory or special file".toList))

def fsRead (t : FsTree) (cwd : FsPlace) (display : Json → Text) (args : Json) (fate : ReadFate) : Except Json ReadData := do
  let root ← argStr display args "projectRoot" "princess:fs:read".toList
  let path ← argStr display args "path" "princess:fs:read".toList
  let root ← canonicalRoot t cwd root
  let candidate ← joinChecked root path
  let real ← (lookup t false [] candidate).mapError (err .notFound ("cannot open ".toList ++ path))
  if root.isPrefixOf real then readReal t fate path real else .error (denied path root)

def isHere (p : Piece Bytes) : Bool := p == .here

-- `components` pass over a dot and over what is empty.
def bare (path : FsPath) : FsPath := path.rdropWhile isHere

def parent (path : FsPath) : Option FsPath := if bare path = [] then none else some (bare (bare path).dropLast)

def fileName (path : FsPath) : Option Bytes := match (bare path).getLast? with
  | some (.name n) => some n
  | _ => none

def exists' (t : FsTree) (path : FsPath) : Bool := (lookup t false [] path).isOk

def isFile (t : FsTree) (path : FsPath) : Bool := match lookup t false [] path with
  | .ok place => match t.nodes place with
    | some (.file _) => true
    | _ => false
  | .error _ => false

-- What `fs_write` has found out before it writes.
structure Job where
  path : Text
  content : Text
  root : FsPlace
  candidate : FsPath
  parent : FsPlace
  name : Bytes
  existed : Bool
deriving DecidableEq, Repr

def Job.target (job : Job) : FsPlace := job.parent ++ [job.name]

def checkTarget (t : FsTree) (job : Job) : Except Json Job :=
  if job.existed && !isFile t (pathOf job.target) then
    .error (err .invalidConfig ("not a regular file: ".toList ++ job.path)
      (placeText job.target ++ " is a directory or special file".toList))
  else .ok job

def checkWrite (t : FsTree) (cwd : FsPlace) (display : Json → Text) (args : Json) : Except Json Job := do
  let root ← argStr display args "projectRoot" "princess:fs:write".toList
  let path ← argStr display args "path" "princess:fs:write".toList
  let content ← argStr display args "content" "princess:fs:write".toList
  let root ← canonicalRoot t cwd root
  let candidate ← joinChecked root path
  match parent candidate with
  | none => .error (denied path root)
  | some above =>
    let parent ← (lookup t false [] above).mapError (err .notFound ("cannot open the directory of ".toList ++ path))
    if root.isPrefixOf parent then
      match fileName candidate with
      | none => .error (denied path root)
      | some name => checkTarget t ⟨path,content,root,candidate,parent,name,exists' t (pathOf (parent ++ [name]))⟩
    else .error (denied path root)

def tmpName (pid : Nat) (name : Bytes) : Bytes :=
  encode (".".toList ++ lossy name ++ ".princesside-".toList ++ decimal pid ++ ".tmp".toList)

def Job.tmp (job : Job) (pid : Nat) : FsPlace := job.parent ++ [tmpName pid job.name]

-- The steps that the system may refuse: the file is not opened, is written up to
-- a point, is not renamed, or not removed.
structure WriteFate where
  opened : Option Text
  written : Option (Nat × Text)
  renamed : Option Text
  removed : Bool
deriving DecidableEq, Repr

-- The file that `File::create` opens, through links.
def createFile (t : FsTree) (path : FsPath) : Except Text FsPlace := match lookup t true [] path with
  | .error e => .error e
  | .ok place => if t.nodes place = some .dir then .error (faultText .isDirectory) else .ok place

def removeFile (t : FsTree) (fate : WriteFate) (place : FsPlace) : FsTree := if fate.removed then t.erase place else t

structure WriteData where
  path : Text
  bytes : Nat
  created : Bool
deriving DecidableEq, Repr

def WriteData.reply (data : WriteData) : Json := ok (.obj [("path".toList,.str data.path),("bytes".toList,.int data.bytes),
  ("created".toList,.bool data.created)])

def openTmp (t : FsTree) (fate : WriteFate) (tmp : FsPlace) : Except Text FsPlace := match fate.opened with
  | some e => .error e
  | none => createFile t (pathOf tmp)

def replace (t : FsTree) (pid : Nat) (fate : WriteFate) (job : Job) : FsTree × Except Json WriteData :=
  match openTmp t fate (job.tmp pid) with
  | .error e => (removeFile t fate (job.tmp pid),.error (err .internal ("cannot write ".toList ++ job.path) e))
  | .ok place => match fate.written with
    | some (n,e) =>
      let started := t.set place (.file ((encode job.content).take n))
      (removeFile started fate (job.tmp pid),.error (err .internal ("cannot write ".toList ++ job.path) e))
    | none =>
      let written := t.set place (.file (encode job.content))
      match fate.renamed with
      | some e => (removeFile written fate (job.tmp pid),.error (err .internal ("cannot replace ".toList ++ job.path) e))
      | none => (written.rename (job.tmp pid) job.target,.ok ⟨placeText job.target,(encode job.content).length,!job.existed⟩)

def fsWrite (t : FsTree) (cwd : FsPlace) (pid : Nat) (display : Json → Text) (args : Json) (fate : WriteFate) :
    FsTree × Except Json WriteData :=
  match checkWrite t cwd display args with
  | .error e => (t,.error e)
  | .ok job => replace t pid fate job

end PrincessIDE.Fs
