import Mathlib.Logic.Function.Basic
import PrincessIDE.Desktop.EventBus
import PrincessIDE.Desktop.LspFraming
import PrincessIDE.Desktop.Ops
import PrincessIDE.Foundation.Runs

namespace PrincessIDE.LspServers
open EventStore Bus Runs Lsp Error Str Drain
open Utf8 (Text Bytes encode lossy)
open Ops (ok err joined)

-- Where the stdout reader of a server stands: in a header block, before a body,
-- with a message that it is about to emit, or at its end.
inductive Phase where
  | headers (found : Option Nat)
  | body (len : Nat)
  | holding (message : Text)
  | returned
deriving DecidableEq, Repr

-- A server ends by itself, or after `lsp_stop` has asked it to.
inductive Ending where
  | byItself
  | asked
deriving DecidableEq, Repr

-- A child, its pipes and its stdout reader. Of what was written to its stdout
-- the reader still has the unread rest.
structure Server where
  written : Bytes
  unread : Bytes
  stdin : Bytes
  reader : Phase
  ended : Option Ending
deriving DecidableEq, Repr

def spawned : Server := ⟨[],[],[],.headers none,none⟩

-- One `read_line` or `read_exact` of `read_lsp_stream`: it waits for the newline,
-- or for the whole body, as long as the pipe has another end.
def advance (closed : Bool) (reader : Phase) (unread : Bytes) : Phase × Bytes := match reader with
  | .headers found =>
    if !closed && !unread.contains 10 then (.headers found,unread)
    else match readLine unread with
      | none => (.returned,unread)
      | some (line,rest) =>
        if trim line = [] then (match found with | none => .headers none | some len => .body len,rest)
        else (.headers (noteLength found (trim line)),rest)
  | .body len =>
    if unread.length < len then (if closed then .returned else .body len,unread)
    else (.holding (lossy (unread.take len)),unread.drop len)
  | .holding message => (.holding message,unread)
  | .returned => (.returned,unread)

-- The messages that the reader has yet to emit when nothing more is written.
def bodyLeft (len : Nat) (unread : Bytes) : List Text :=
  if unread.length < len then [] else lossy (unread.take len) :: readLspStream (unread.drop len)

def remaining (reader : Phase) (unread : Bytes) : List Text := match reader with
  | .headers found => match readHeaders unread.length found unread with
    | none => []
    | some (none,rest) => readLspStream rest
    | some (some len,rest) => bodyLeft len rest
  | .body len => bodyLeft len unread
  | .holding message => message :: readLspStream unread
  | .returned => []

theorem readLspStream_remaining (stream : Bytes) : readLspStream stream = remaining (.headers none) stream := by
  rw [readLspStream,remaining]
  cases headers : readHeaders stream.length none stream with
  | none =>
    have stuck : readFrame stream = none := by rw [readFrame,headers]
    rw [drain_none stuck]
    rfl
  | some found =>
    obtain ⟨length,rest⟩ := found
    cases length with
    | none =>
      have passed : readFrame stream = some (none,rest) := by rw [readFrame,headers]
      rw [drain_some readFrame_shortens passed]
      rfl
    | some len =>
      dsimp only
      unfold bodyLeft
      by_cases short : rest.length < len
      · have stuck : readFrame stream = none := by
          rw [readFrame,headers]
          exact if_pos short
        rw [drain_none stuck,if_pos short]
        rfl
      · have taken : readFrame stream = some (some (lossy (rest.take len)),rest.drop len) := by
          rw [readFrame,headers]
          exact if_neg short
        rw [drain_some readFrame_shortens taken,if_neg short]
        rfl

-- A line that has its newline is read the same whatever comes behind it.
theorem cutLine_ahead (ends : 10 ∈ unread) (more : Bytes) :
    cutLine (unread ++ more) = ((cutLine unread).1,(cutLine unread).2 ++ more) := by
  induction unread with
  | nil => cases ends
  | cons b rest ih =>
    rw [List.cons_append,cutLine,cutLine]
    by_cases newline : b = 10
    · rw [if_pos newline,if_pos newline]
    · have later : 10 ∈ rest := (List.mem_cons.mp ends).resolve_left fun same => newline same.symm
      rw [if_neg newline,if_neg newline,ih later]

theorem readLine_ahead (ends : 10 ∈ unread) (more : Bytes) :
    readLine (unread ++ more) = (readLine unread).map fun cut => (cut.1,cut.2 ++ more) := by
  have nonempty : unread ≠ [] := List.ne_nil_of_mem ends
  have longer : unread ++ more ≠ [] := List.append_ne_nil_of_left_ne_nil nonempty _
  rw [readLine,readLine,if_neg nonempty,if_neg longer,cutLine_ahead ends]
  cases Utf8.fromUtf8 (cutLine unread).1 <;> rfl

theorem readHeaders_enough (enough : stream.length ≤ n) : readHeaders n found stream = readHeaders stream.length found stream := by
  induction size : stream.length using Nat.strongRecOn generalizing n found stream with
  | _ size ih =>
    subst size
    cases line : readLine stream with
    | none => cases n <;> cases stream.length <;> simp only [readHeaders,line]
    | some cut =>
      have shorter := readLine_shorter line
      obtain ⟨k,length⟩ : ∃ k, stream.length = k+1 := ⟨stream.length-1,by omega⟩
      obtain ⟨m,fuel⟩ : ∃ m, n = m+1 := ⟨n-1,by omega⟩
      rw [length,fuel,readHeaders,readHeaders,line]
      dsimp only
      split
      · rfl
      · rw [ih cut.2.length shorter (by omega) rfl,ih cut.2.length shorter (n:=k) (by omega) rfl]

-- What a reader does changes nothing of what it will have emitted in the end,
-- nor does it depend on what is yet to be written.
theorem remaining_advance (closed : Bool) (reader : Phase) (unread more : Bytes) (final : closed = true → more = []) :
    remaining (advance closed reader unread).1 ((advance closed reader unread).2 ++ more) = remaining reader (unread ++ more) := by
  cases reader with
  | headers found =>
    unfold advance
    dsimp only
    by_cases waits : (!closed && !unread.contains 10) = true
    · rw [if_pos waits]
    · have ahead : readLine (unread ++ more) = (readLine unread).map fun cut => (cut.1,cut.2 ++ more) := by
        by_cases ended : closed = true
        · rw [final ended,List.append_nil]
          cases readLine unread <;> simp
        · have ends : 10 ∈ unread := by simpa [ended] using waits
          exact readLine_ahead ends more
      rw [if_neg waits,remaining]
      cases line : readLine unread with
      | none =>
        rw [line] at ahead
        have stuck : readHeaders (unread ++ more).length found (unread ++ more) = none := by
          cases (unread ++ more).length with
          | zero => rfl
          | succ n => rw [readHeaders,ahead]; rfl
        rw [stuck]
        rfl
      | some cut =>
        obtain ⟨text,rest⟩ := cut
        rw [line] at ahead
        have shorter : (rest ++ more).length < (unread ++ more).length := readLine_shorter ahead
        obtain ⟨k,length⟩ : ∃ k, (unread ++ more).length = k+1 := ⟨(unread ++ more).length-1,by omega⟩
        rw [length,readHeaders,ahead]
        dsimp only [Option.map]
        by_cases blank : trim text = []
        · rw [if_pos blank,if_pos blank]
          cases found with
          | none => exact (readLspStream_remaining _).symm
          | some len => rfl
        · rw [if_neg blank,if_neg blank,readHeaders_enough (by omega),remaining]
  | body len =>
    unfold advance
    dsimp only
    by_cases short : unread.length < len
    · rw [if_pos short]
      cases closed with
      | false => rfl
      | true =>
        rw [final rfl,List.append_nil,remaining,bodyLeft,if_pos short]
        rfl
    · rw [if_neg short,remaining,remaining,bodyLeft,if_neg (by rw [List.length_append]; omega),
        List.take_append_of_le_length (by omega),List.drop_append_of_le_length (by omega)]
  | holding message => rfl
  | returned => rfl

def Server.advanced (server : Server) : Server :=
  let (reader,unread) := advance server.ended.isSome server.reader server.unread
  {server with reader:=reader,unread:=unread}

def Server.left (server : Server) : List Text := remaining server.reader server.unread

def Server.held (server : Server) : Option Text := match server.reader with
  | .holding message => some message
  | _ => none

-- How far the handler of a stop is, which holds the lock of the registry to its
-- end: the instance is removed, the shutdown request is written, the child is
-- killed and waited for, `lsp.stopped` is emitted.
inductive Stage where
  | removed
  | asked
  | waited
  | reported
deriving DecidableEq, Repr

-- `registry` has the keys of the map, `servers` every server that was ever
-- spawned; `notes` are those that starts have yet to emit.
structure Shell where
  counter : Nat
  servers : Text → Option Server
  registry : List Text
  stopping : Option (Text × Stage)
  notes : List Text
  bus : EventBus
  emitted : List AnyEvent

def idle : Shell := ⟨0,fun _ => none,[],none,[],.new,[]⟩

-- `bus.envelope`, whose two parts are those of Publishing, and `app.emit`.
def Shell.emit (s : Shell) (ts : Text) (payload : Payload) : Shell :=
  let (bus,env) := s.bus.envelope ⟨ts,none,payload⟩
  {s with bus:=bus,emitted:=s.emitted ++ [env]}

def Shell.logAppend (s : Shell) (ts chunk : Text) : Shell := s.emit ts (.logAppend .ide chunk .utf8)

def Shell.update (s : Shell) (sid : Text) (change : Server → Server) : Shell :=
  {s with servers:=Function.update s.servers sid ((s.servers sid).map change)}

def languageOf (line : Text) : Option Text :=
  let trimmed := trim line
  if startsWith "language".toList trimmed && contains ['='] trimmed then
    match (split ['='] trimmed)[1]? with
    | some value =>
      let bare := trim (trimEndMatches (· == '"') ((trim value).dropWhile (· == '"')))
      if bare = [] then none else some bare
    | none => none
  else none

-- `manifest` is what `princess.toml` has where it is a file that can be read.
def detectLanguage (manifest : Option Text) : Text :=
  ((manifest.bind fun content => (lines content).findSome? languageOf)).getD "c".toList

example : detectLanguage (some "name = \"os\"\n language = \"java\" \n".toList) = "java".toList := by decide +kernel

-- What a start finds: the variable for the binary and its place beside the
-- launcher, of clangd and of jdtls, and the error where the child does not start.
structure Launch where
  isDir : Bool
  manifest : Option Text
  clangd : Option Text × Option Text
  jdtls : Option Text × Option Text
  failed : Option Text
deriving DecidableEq, Repr

def findClangd (found : Option Text × Option Text) : Text := (found.1.or found.2).getD "clangd-16".toList

def findJdtls (found : Option Text × Option Text) : Text := (found.1.or found.2).getD "jdtls".toList

def serverCommand (launch : Launch) (root : Text) : Text × List Text :=
  if detectLanguage launch.manifest = "java".toList then (findJdtls launch.jdtls,[])
  else (findClangd launch.clangd,["--compile-commands-dir=".toList ++ root,"--resource-dir=".toList ++ root,
    "--pch-storage=memory".toList,"--log=error".toList,"-j=2".toList])

-- `format!("lsp-{:04x}", n)`
def serverId (n : Nat) : Text := "lsp-".toList ++ (Nat.toDigits 16 n).leftpad 4 '0'

def lspStart (s : Shell) (args : Json) (launch : Launch) : Shell × Json :=
  let root := ((args.get "projectRoot").bind Json.asStr).getD ['.']
  if launch.isDir then
    let (bin,arguments) := serverCommand launch root
    let n := s.counter+1
    let sid := serverId n
    let shown := bin ++ [' '] ++ [' '].intercalate arguments
    match launch.failed with
    | some e => ({s with counter:=n},err .internal ("failed to start ".toList ++ bin ++ ": ".toList ++ e)
        ("command: ".toList ++ shown ++ "\nproject root: ".toList ++ root))
    | none =>
      let note := "princess:lsp:start → ".toList ++ shown ++ " (serverId=".toList ++ sid ++ ")\n".toList
      let servers := Function.update s.servers sid (some spawned)
      ({s with counter:=n,servers:=servers,registry:=sid :: s.registry,notes:=s.notes ++ [note]},
        ok (.obj [("serverId".toList,.str sid),("command".toList,.str bin),("args".toList,.arr (arguments.map .str))]))
  else (s,err .invalidConfig ("project root ".toList ++ root ++ " does not exist".toList) [])

def stringArg (args : Json) (key : String) : Option Text := (args.get key).bind Json.asStr

-- The map has no order of its own.
def unknownServer (s : Shell) (sid : Text) : Json :=
  err .notFound ("no LSP server named ".toList ++ sid) ("active servers: ".toList ++ joined s.registry)

-- A write that fails has written a part, and has an error.
structure Fate where
  taken : Nat
  error : Text
deriving DecidableEq, Repr

def Server.fed (server : Server) (bytes : Bytes) : Server := {server with stdin:=server.stdin ++ bytes}

def lspSend (display : Json → Text) (s : Shell) (args : Json) (fate : Option Fate) : Shell × Json :=
  match stringArg args "serverId",stringArg args "message" with
  | some sid,some msg =>
    if s.registry.contains sid then
      match fate with
      | none => (s.update sid (·.fed (frameMessage msg)),ok (.obj []))
      | some fate => (s.update sid (·.fed ((frameMessage msg).take fate.taken)),
          err .internal ("failed to write to LSP server ".toList ++ sid) fate.error)
    else (s,unknownServer s sid)
  | _,_ => (s,err .invalidConfig "princess:lsp:send requires \x7b serverId: string, message: string \x7d".toList
      ("received args: ".toList ++ display args))

def shutdownMsg : Text := "\x7b\"jsonrpc\":\"2.0\",\"id\":0,\"method\":\"shutdown\"\x7d".toList

-- Up to where the instance is removed; without a reply the handler goes on.
def lspStop (display : Json → Text) (s : Shell) (args : Json) : Shell × Option Json :=
  match stringArg args "serverId" with
  | none => (s,some (err .invalidConfig "princess:lsp:stop requires \x7b serverId: string \x7d".toList
      ("received args: ".toList ++ display args)))
  | some sid =>
    if s.registry.contains sid then ({s with registry:=s.registry.filter (· != sid),stopping:=some (sid,.removed)},none)
    else (s,some (unknownServer s sid))

-- One step of a handler, of a reader thread or of a server. A request that needs
-- the registry waits while a stop holds its lock.
inductive Step where
  | start (args : Json) (launch : Launch)
  | note (index : Nat) (ts : Text)
  | send (args : Json) (fate : Option Fate)
  | stop (args : Json)
  | ask (fate : Option Fate)
  | kill
  | report (ts : Text)
  | finish (ts : Text)
  | write (sid : Text) (bytes : Bytes)
  | exit (sid : Text)
  | read (sid : Text)
  | deliver (sid ts : Text)
  | complain (line ts : Text)

def Server.wrote (server : Server) (bytes : Bytes) : Server :=
  if server.ended = none then {server with written:=server.written ++ bytes,unread:=server.unread ++ bytes} else server

def Server.exited (server : Server) (how : Ending) : Server := {server with ended:=some (server.ended.getD how)}

-- The next round of the reader, for the next header block.
def Server.released (server : Server) : Server := {server with reader:=.headers none}

def perform (display : Json → Text) (s : Shell) : Step → Shell
  | .start args launch => if s.stopping = none then (lspStart s args launch).1 else s
  | .note index ts => match s.notes[index]? with
    | some note => Shell.logAppend {s with notes:=s.notes.eraseIdx index} ts note
    | none => s
  | .send args fate => if s.stopping = none then (lspSend display s args fate).1 else s
  | .stop args => if s.stopping = none then (lspStop display s args).1 else s
  | .ask fate => match s.stopping with
    | some (sid,.removed) =>
      let request := frameMessage shutdownMsg
      Shell.update {s with stopping:=some (sid,.asked)} sid (·.fed (fate.elim request fun fate => request.take fate.taken))
    | _ => s
  | .kill => match s.stopping with
    | some (sid,.asked) => Shell.update {s with stopping:=some (sid,.waited)} sid (·.exited .asked)
    | _ => s
  | .report ts => match s.stopping with
    | some (sid,.waited) => Shell.emit {s with stopping:=some (sid,.reported)} ts (.lspStopped sid .shutdown)
    | _ => s
  | .finish ts => match s.stopping with
    | some (sid,.reported) => Shell.logAppend {s with stopping:=none} ts ("princess:lsp:stop → ".toList ++ sid ++ ['\n'])
    | _ => s
  | .write sid bytes => s.update sid (·.wrote bytes)
  | .exit sid => s.update sid (·.exited (if s.stopping = some (sid,.asked) then .asked else .byItself))
  | .read sid => s.update sid Server.advanced
  | .deliver sid ts => match (s.servers sid).bind Server.held with
    | some message => (s.update sid Server.released).emit ts (.lspMessage sid message)
    | none => s
  | .complain line ts => s.logAppend ts ("[clangd stderr] ".toList ++ line ++ ['\n'])

end PrincessIDE.LspServers
