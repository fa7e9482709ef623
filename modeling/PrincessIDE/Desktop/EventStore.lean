import Mathlib.Data.List.Induction
import PrincessIDE.Core.Event
import PrincessIDE.Foundation.Maxima

namespace PrincessIDE.EventStore
open Event Maxima
open Utf8 (Text)
open PrincessIDE.Stream (TextEncoding)

-- A JavaScript number of the contract, which has integers only. They are exact
-- up to 2^53.
abbrev Number := Int

structure ArtifactRef where
  path : Text
  kind : Text
  size : Number
  sha256 : Text
deriving DecidableEq, Repr

structure GdbStubRef where
  host : Text
  port : Number
  mode : Text
deriving DecidableEq, Repr

structure BuildStarted where
  backend : Text
  toolchainId : Text
  argv : List Text
  cwd : Text
deriving DecidableEq, Repr

structure BuildDiagnostic where
  severity : Text
  file : Text
  line : Number
  col : Number
  message : Text
  source : DiagnosticSource
deriving DecidableEq, Repr

structure BuildFinished where
  status : BuildStatus
  exitCode : Number
  durationMs : Number
  artifacts : List ArtifactRef
deriving DecidableEq, Repr

structure RunStarted where
  qemuArgv : List Text
  gdbStub : Option GdbStubRef
deriving DecidableEq, Repr

structure Symbolicated where
  symbol : Text
  file : Text
  line : Number
deriving DecidableEq, Repr

structure RunFault where
  vector : Text
  rip : Text
  errorCode : Text
  regs : List (Text × Text)
  symbolicated : Option Symbolicated
deriving DecidableEq, Repr

structure RunExited where
  exitCode : Option Number
  reason : ExitReason
  uptimeMs : Number
deriving DecidableEq, Repr

structure DebugFrame where
  id : Number
  name : Text
  file : Text
  line : Number
  pc : Text
deriving DecidableEq, Repr

structure DebugStopped where
  reason : StopReason
  threadId : Number
  frame : DebugFrame
  regs : List (Text × Text)
deriving DecidableEq, Repr

structure DebugBreakpointChanged where
  id : Number
  verified : Bool
  location : Text
deriving DecidableEq, Repr

structure DebugOutput where
  category : DebugOutputCategory
  text : Text
deriving DecidableEq, Repr

structure SymbolsView where
  artifact : Text
  buildId : Text
  symbolCount : Number
deriving DecidableEq, Repr

structure Usage where
  promptTokens : Number
  completionTokens : Number
  totalTokens : Number
deriving DecidableEq, Repr

inductive LspStopReason where
  | shutdown
  | crashed
  | killed
deriving DecidableEq, Repr

-- `unhandled` is an envelope of another kind, which skipped the validation.
inductive Payload where
  | logAppend (stream : LogStream) (chunk : Text) (encoding : TextEncoding)
  | buildStarted (p : BuildStarted)
  | buildDiagnostic (p : BuildDiagnostic)
  | buildFinished (p : BuildFinished)
  | runStarted (p : RunStarted)
  | runFault (p : RunFault)
  | runExited (p : RunExited)
  | debugStopped (p : DebugStopped)
  | debugBreakpointChanged (p : DebugBreakpointChanged)
  | debugOutput (p : DebugOutput)
  | symbolsIndexed (p : SymbolsView)
  | artifactChanged (path kind : Text)
  | aiChunk (requestId text : Text)
  | aiFinished (requestId : Text) (usage : Usage)
  | lspMessage (serverId message : Text)
  | lspStopped (serverId : Text) (reason : LspStopReason)
  | unhandled (kind : Text)
deriving DecidableEq, Repr

def Payload.kind : Payload → Text
  | logAppend .. => "log.append".toList
  | buildStarted .. => "build.started".toList
  | buildDiagnostic .. => "build.diagnostic".toList
  | buildFinished .. => "build.finished".toList
  | runStarted .. => "run.started".toList
  | runFault .. => "run.fault".toList
  | runExited .. => "run.exited".toList
  | debugStopped .. => "debug.stopped".toList
  | debugBreakpointChanged .. => "debug.breakpoint.changed".toList
  | debugOutput .. => "debug.output".toList
  | symbolsIndexed .. => "symbols.indexed".toList
  | artifactChanged .. => "artifact.changed".toList
  | aiChunk .. => "ai.chunk".toList
  | aiFinished .. => "ai.finished".toList
  | lspMessage .. => "lsp.message".toList
  | lspStopped .. => "lsp.stopped".toList
  | unhandled kind => kind

structure AnyEvent where
  v : Number
  seq : Nat
  ts : Text
  opId : Option Text
  payload : Payload
deriving DecidableEq, Repr

structure LogLine where
  seq : Nat
  ts : Text
  opId : Option Text
  stream : LogStream
  text : Text
  encoding : TextEncoding
  lossy : Bool
deriving DecidableEq, Repr

structure SeqGap where
  expected : Nat
  received : Nat
  size : Nat
deriving DecidableEq, Repr

structure BuildView where
  backend : Text
  toolchainId : Text
  argv : List Text
  cwd : Text
  startedAt : Text
  running : Bool
  status : Option BuildStatus
  exitCode : Option Number
  durationMs : Option Number
  artifacts : List ArtifactRef
deriving DecidableEq, Repr

structure RunView where
  qemuArgv : List Text
  gdbStub : Option GdbStubRef
  startedAt : Text
  running : Bool
  fault : Option RunFault
  exit : Option RunExited
deriving DecidableEq, Repr

-- A record of the source, its keys in the order in which they were first set.
abbrev Record (κ α : Type) := List (κ × α)

def Record.set [DecidableEq κ] (key : κ) (value : α) : Record κ α → Record κ α
  | [] => [(key,value)]
  | row :: rest => if row.1 = key then (key,value) :: rest else row :: Record.set key value rest

structure DebugView where
  active : Bool
  stops : List (Nat × DebugStopped)
  breakpoints : Record Number DebugBreakpointChanged
  output : List (Nat × DebugOutput)
deriving DecidableEq, Repr

structure ArtifactView where
  path : Text
  kind : Text
  seq : Nat
deriving DecidableEq, Repr

structure LspServerView where
  serverId : Text
  messages : List Text
  stopped : Option (LspStopReason × Nat)
deriving DecidableEq, Repr

structure AiView where
  requestId : Text
  text : Text
  usage : Option Usage
  finished : Bool
deriving DecidableEq, Repr

structure Ignored where
  seq : Nat
  kind : Text
  reason : Text
deriving DecidableEq, Repr

-- What the panels show.
structure Panels where
  logs : List LogLine
  logBytes : Nat
  build : Option BuildView
  diagnostics : List BuildDiagnostic
  run : Option RunView
  debug : DebugView
  symbols : Option SymbolsView
  artifact : Option ArtifactView
  ai : Record Text AiView
  lsp : Record Text LspServerView
deriving DecidableEq, Repr

structure IdeState extends Panels where
  modelVersion : Number
  lastSeq : Nat
  appliedEvents : Nat
  gaps : List SeqGap
  duplicates : Nat
  outOfOrder : Nat
  versionMismatches : List Number
  needsReplay : Bool
  ignored : List Ignored
deriving DecidableEq, Repr

def maxLogLines : Nat := 5000
def maxDiagnostics : Nat := 1000
def maxLspMessages : Nat := 500

def emptyPanels : Panels := ⟨[],0,none,[],none,⟨false,[],[],[]⟩,none,none,[],[]⟩

def createInitialState : IdeState := ⟨emptyPanels,1,0,0,[],0,0,[],false,[]⟩

-- `xs.splice(0, xs.length - cap)` where there are more.
def capped (cap : Nat) (xs : List α) : List α := xs.drop (xs.length-cap)

-- `length` of a string, in units of UTF-16.
def stringLength (t : Text) : Nat := (t.map fun c => if c.toNat < 0x10000 then 1 else 2).foldl (· + ·) 0

def serverView (lsp : Record Text LspServerView) (serverId : Text) : LspServerView :=
  (lsp.lookup serverId).getD ⟨serverId,[],none⟩

-- The branch of the `switch` for a kind, and the reason where it notes one.
def applyPayload (env : AnyEvent) (s : Panels) : Panels × Option Text :=
  match env.payload with
  | .logAppend stream chunk encoding =>
    let line : LogLine := ⟨env.seq,env.ts,env.opId,stream,chunk,encoding,encoding = .utf8Lossy⟩
    ({s with logs:=capped maxLogLines (s.logs ++ [line]),logBytes:=s.logBytes + stringLength chunk},none)
  | .buildStarted p =>
    ({s with build:=some ⟨p.backend,p.toolchainId,p.argv,p.cwd,env.ts,true,none,none,none,[]⟩},none)
  | .buildDiagnostic p => ({s with diagnostics:=capped maxDiagnostics (s.diagnostics ++ [p])},none)
  | .buildFinished p => match s.build with
    | none =>
      let unknown := "(unknown)".toList
      ({s with build:=some ⟨unknown,unknown,[],[],env.ts,false,some p.status,some p.exitCode,some p.durationMs,p.artifacts⟩},
        some "build.finished without build.started".toList)
    | some build =>
      let finished : BuildView := ⟨build.backend,build.toolchainId,build.argv,build.cwd,build.startedAt,
        false,some p.status,some p.exitCode,some p.durationMs,p.artifacts⟩
      ({s with build:=some finished},none)
  | .runStarted p => ({s with run:=some ⟨p.qemuArgv,p.gdbStub,env.ts,true,none,none⟩},none)
  | .runFault p => match s.run with
    | some run => ({s with run:=some {run with fault:=some p}},none)
    | none => ({s with run:=some ⟨[],none,env.ts,true,some p,none⟩},none)
  | .runExited p => match s.run with
    | some run => ({s with run:=some {run with running:=false,exit:=some p}},none)
    | none => ({s with run:=some ⟨[],none,env.ts,false,none,some p⟩},none)
  | .debugStopped p => ({s with debug:={s.debug with active:=true,stops:=s.debug.stops ++ [(env.seq,p)]}},none)
  | .debugBreakpointChanged p => ({s with debug:={s.debug with breakpoints:=Record.set p.id p s.debug.breakpoints}},none)
  | .debugOutput p => ({s with debug:={s.debug with output:=s.debug.output ++ [(env.seq,p)]}},none)
  | .symbolsIndexed p => ({s with symbols:=some p},none)
  | .artifactChanged path kind => ({s with artifact:=some ⟨path,kind,env.seq⟩},none)
  | .aiChunk requestId text =>
    let view : AiView := match s.ai.lookup requestId with
      | some prev => {prev with requestId:=requestId,text:=prev.text ++ text}
      | none => ⟨requestId,text,none,false⟩
    ({s with ai:=Record.set requestId view s.ai},none)
  | .lspMessage serverId message =>
    let prev := serverView s.lsp serverId
    ({s with lsp:=Record.set serverId {prev with messages:=capped maxLspMessages (prev.messages ++ [message])} s.lsp},none)
  | .lspStopped serverId reason =>
    let prev := serverView s.lsp serverId
    ({s with lsp:=Record.set serverId {prev with stopped:=some (reason,env.seq)} s.lsp},none)
  | .aiFinished requestId usage =>
    let text := ((s.ai.lookup requestId).map AiView.text).getD []
    ({s with ai:=Record.set requestId ⟨requestId,text,some usage,true⟩ s.ai},none)
  | .unhandled kind => (s,some ("unhandled kind ".toList ++ kind))

def noteVersion (s : IdeState) (v : Number) : IdeState :=
  if v ≠ s.modelVersion && !s.versionMismatches.contains v then {s with versionMismatches:=s.versionMismatches ++ [v]} else s

def ignore (s : IdeState) (env : AnyEvent) (reason : Text) : IdeState :=
  {s with ignored:=s.ignored ++ [⟨env.seq,env.payload.kind,reason⟩]}

-- An envelope whose number is not above the last one.
def skip (s : IdeState) (env : AnyEvent) : IdeState :=
  let counted := if env.seq = s.lastSeq then {s with duplicates:=s.duplicates+1} else {s with outOfOrder:=s.outOfOrder+1}
  ignore counted env "seq not greater than lastSeq".toList

def noteGap (s : IdeState) (seq : Nat) : IdeState :=
  let gap : SeqGap := ⟨s.lastSeq+1,seq,seq-s.lastSeq-1⟩
  if s.lastSeq ≠ 0 ∧ seq ≠ s.lastSeq+1 then {s with gaps:=s.gaps ++ [gap],needsReplay:=true} else s

def applyNext (s : IdeState) (env : AnyEvent) : IdeState :=
  let (panels,reason) := applyPayload env s.toPanels
  let applied : IdeState := {s with toPanels:=panels,lastSeq:=env.seq,appliedEvents:=s.appliedEvents+1}
  match reason with
  | some reason => ignore applied env reason
  | none => applied

def applyEvent (state : IdeState) (env : AnyEvent) : IdeState :=
  let next := noteVersion state env.v
  if env.seq ≤ next.lastSeq then skip next env else applyNext (noteGap next env.seq) env

def replayEvents (events : List AnyEvent) (initial : IdeState) : IdeState := events.foldl applyEvent initial

-- The part of the state that follows the numbers.
structure Sequence where
  lastSeq : Nat
  appliedEvents : Nat
  gaps : List SeqGap
  duplicates : Nat
  outOfOrder : Nat
  needsReplay : Bool
deriving DecidableEq, Repr

def IdeState.sequence (s : IdeState) : Sequence := ⟨s.lastSeq,s.appliedEvents,s.gaps,s.duplicates,s.outOfOrder,s.needsReplay⟩

theorem noteVersion_same (s : IdeState) (v : Number) :
    (noteVersion s v).sequence = s.sequence ∧ (noteVersion s v).toPanels = s.toPanels := by
  unfold noteVersion
  split <;> exact ⟨rfl,rfl⟩

theorem skip_same (s : IdeState) (env : AnyEvent) : (skip s env).toPanels = s.toPanels ∧ (skip s env).sequence =
    if env.seq = s.lastSeq then {s.sequence with duplicates:=s.duplicates+1} else {s.sequence with outOfOrder:=s.outOfOrder+1} := by
  unfold skip
  split <;> exact ⟨rfl,rfl⟩

theorem noteGap_same (s : IdeState) (seq : Nat) : (noteGap s seq).toPanels = s.toPanels := by
  unfold noteGap
  split <;> rfl

theorem applyNext_same (s : IdeState) (env : AnyEvent) : (applyNext s env).toPanels = (applyPayload env s.toPanels).1 ∧
    (applyNext s env).sequence = {s.sequence with lastSeq:=env.seq,appliedEvents:=s.appliedEvents+1} := by
  unfold applyNext
  obtain ⟨panels,reason⟩ := applyPayload env s.toPanels
  cases reason <;> exact ⟨rfl,rfl⟩

-- What the numbers alone make of an envelope.
def Sequence.next (q : Sequence) (seq : Nat) : Sequence :=
  if seq ≤ q.lastSeq then
    if seq = q.lastSeq then {q with duplicates:=q.duplicates+1} else {q with outOfOrder:=q.outOfOrder+1}
  else if q.lastSeq ≠ 0 ∧ seq ≠ q.lastSeq+1 then
    ⟨seq,q.appliedEvents+1,q.gaps ++ [⟨q.lastSeq+1,seq,seq-q.lastSeq-1⟩],q.duplicates,q.outOfOrder,true⟩
  else {q with lastSeq:=seq,appliedEvents:=q.appliedEvents+1}

theorem applyEvent_cases (s : IdeState) (env : AnyEvent) : (applyEvent s env).sequence = s.sequence.next env.seq ∧
    (applyEvent s env).toPanels = if env.seq ≤ s.lastSeq then s.toPanels else (applyPayload env s.toPanels).1 := by
  obtain ⟨numbers,panels⟩ := noteVersion_same s env.v
  rw [applyEvent,← numbers,← panels]
  have last : (noteVersion s env.v).lastSeq = s.lastSeq := congrArg Sequence.lastSeq numbers
  rw [← last]
  generalize noteVersion s env.v = next
  simp only [Sequence.next]
  by_cases old : env.seq ≤ next.lastSeq
  · obtain ⟨shown,counted⟩ := skip_same next env
    rw [if_pos old,if_pos old,shown,counted,if_pos (show env.seq ≤ next.sequence.lastSeq from old)]
    exact ⟨rfl,rfl⟩
  · obtain ⟨shown,counted⟩ := applyNext_same (noteGap next env.seq) env
    rw [if_neg old,if_neg old,shown,noteGap_same,counted,if_neg (show ¬ env.seq ≤ next.sequence.lastSeq from old)]
    refine ⟨?_,rfl⟩
    by_cases hole : next.lastSeq ≠ 0 ∧ env.seq ≠ next.lastSeq+1
    · rw [noteGap,if_pos hole,if_pos (show next.sequence.lastSeq ≠ 0 ∧ env.seq ≠ next.sequence.lastSeq+1 from hole)]
      rfl
    · rw [noteGap,if_neg hole,if_neg (show ¬ (next.sequence.lastSeq ≠ 0 ∧ env.seq ≠ next.sequence.lastSeq+1) from hole)]
      rfl

theorem applyEvent_old {s : IdeState} {env : AnyEvent} (old : env.seq ≤ s.lastSeq) :
    (applyEvent s env).lastSeq = s.lastSeq ∧ (applyEvent s env).appliedEvents = s.appliedEvents := by
  have step := (applyEvent_cases s env).1
  rw [Sequence.next,if_pos (show env.seq ≤ s.sequence.lastSeq from old)] at step
  split at step <;> exact ⟨congrArg Sequence.lastSeq step,congrArg Sequence.appliedEvents step⟩

theorem applyEvent_new {s : IdeState} {env : AnyEvent} (new : ¬ env.seq ≤ s.lastSeq) :
    (applyEvent s env).lastSeq = env.seq ∧ (applyEvent s env).appliedEvents = s.appliedEvents+1 := by
  have step := (applyEvent_cases s env).1
  rw [Sequence.next,if_neg (show ¬ env.seq ≤ s.sequence.lastSeq from new)] at step
  split at step <;> exact ⟨congrArg Sequence.lastSeq step,congrArg Sequence.appliedEvents step⟩

def gapOf (hole : Nat × Nat) : SeqGap := ⟨hole.1,hole.2,hole.2-hole.1⟩

-- The numbers against the left-to-right maxima of all that were fed.
structure Counted (q : Sequence) (seqs : List Nat) : Prop where
  last : q.lastSeq = (maxima seqs).getLast?.getD 0
  applied : q.appliedEvents = (maxima seqs).length
  gaps : q.gaps = (holes (maxima seqs)).map gapOf
  fed : q.appliedEvents+q.duplicates+q.outOfOrder = seqs.length
  replay : q.needsReplay = true ↔ q.gaps ≠ []

theorem counted_next (counted : Counted q seqs) (above : ∀ n ∈ seqs, 1 ≤ n) (seq : Nat) (positive : 1 ≤ seq) :
    Counted (q.next seq) (seqs ++ [seq]) := by
  obtain ⟨last,applied,gaps,fed,replay⟩ := counted
  cases tops : (maxima seqs).getLast? with
  | none =>
    cases seqs with
    | cons n rest => cases List.getLast?_eq_none_iff.mp tops
    | nil =>
      have first : q.lastSeq = 0 := last
      rw [Sequence.next,if_neg (by omega),if_neg (fun both => both.1 first)]
      exact ⟨rfl,by simpa [maxima] using applied,gaps,by simp only [List.length_append,List.length_nil,List.length_cons] at fed ⊢; omega,replay⟩
  | some top =>
    have next := maxima_next tops seq
    have lowest := above top (maxima_mem (List.mem_of_getLast? tops))
    rw [tops,Option.getD_some] at last
    have length : (seqs ++ [seq]).length = seqs.length+1 := List.length_append
    by_cases old : seq ≤ q.lastSeq
    · have same : maxima (seqs ++ [seq]) = maxima seqs := by
        rw [maxima_snoc,if_neg (by rw [next]; omega),List.append_nil]
      have keeps : q.lastSeq = (maxima seqs).getLast?.getD 0 := by rw [tops,last]; rfl
      rw [Sequence.next,if_pos old]
      by_cases equal : seq = q.lastSeq
      · rw [if_pos equal]
        refine ⟨by rw [same]; exact keeps,by rw [same]; exact applied,by rw [same]; exact gaps,?_,replay⟩
        rw [length,← fed]
        simp only
        omega
      · rw [if_neg equal]
        refine ⟨by rw [same]; exact keeps,by rw [same]; exact applied,by rw [same]; exact gaps,?_,replay⟩
        rw [length,← fed]
        simp only
        omega
    · have more : maxima (seqs ++ [seq]) = maxima seqs ++ [seq] := by
        rw [maxima_snoc,if_pos (by rw [next]; omega)]
      have gapped := holes_snoc (maxima seqs) tops seq
      rw [← more] at gapped
      have highest : seq = (maxima (seqs ++ [seq])).getLast?.getD 0 := by rw [more,List.getLast?_concat]; rfl
      have count : q.appliedEvents+1 = (maxima (seqs ++ [seq])).length := by rw [more,List.length_append,applied]; rfl
      rw [Sequence.next,if_neg old]
      by_cases hole : q.lastSeq ≠ 0 ∧ seq ≠ q.lastSeq+1
      · rw [if_pos hole]
        refine ⟨highest,count,?_,by rw [length,← fed]; simp only; omega,by simp⟩
        rw [if_neg (by omega)] at gapped
        rw [gapped,List.map_append,← gaps,List.map_singleton,gapOf,last]
        have size : seq-top-1 = seq-(top+1) := by omega
        simp only [size]
      · rw [if_neg hole]
        refine ⟨highest,count,?_,by rw [length,← fed]; simp only; omega,replay⟩
        rw [if_pos (by omega),List.append_nil] at gapped
        rw [gapped]
        exact gaps

theorem replayEvents_snoc (fed : List AnyEvent) (s : IdeState) (env : AnyEvent) :
    replayEvents (fed ++ [env]) s = applyEvent (replayEvents fed s) env := List.foldl_concat _ _ _ _

theorem replay_counted (fed : List AnyEvent) (positive : ∀ env ∈ fed, 1 ≤ env.seq) :
    Counted (replayEvents fed createInitialState).sequence (fed.map AnyEvent.seq) := by
  induction fed using List.reverseRecOn with
  | nil => exact ⟨rfl,rfl,rfl,rfl,by simp [replayEvents,createInitialState,IdeState.sequence]⟩
  | append_singleton fed env ih =>
    obtain ⟨before,here⟩ := List.forall_mem_append.mp positive
    rw [replayEvents_snoc,(applyEvent_cases _ env).1,List.map_append]
    refine counted_next (ih before) (fun n member => ?_) env.seq (here env (by simp))
    obtain ⟨other,inside,rfl⟩ := List.mem_map.mp member
    exact before other inside

-- The numbers of the envelopes that are counted as applied, in their order.
def appliedNumbers : IdeState → List AnyEvent → List Nat
  | _,[] => []
  | s,env :: rest =>
    (if (applyEvent s env).appliedEvents = s.appliedEvents then [] else [env.seq]) ++ appliedNumbers (applyEvent s env) rest

theorem appliedNumbers_maxima (s : IdeState) (fed : List AnyEvent) :
    appliedNumbers s fed = (maxima (fed.map AnyEvent.seq)).filter (s.lastSeq < ·) := by
  induction fed generalizing s with
  | nil => rfl
  | cons env rest ih =>
    rw [appliedNumbers,ih,List.map_cons,maxima]
    by_cases old : env.seq ≤ s.lastSeq
    · obtain ⟨last,count⟩ := applyEvent_old old
      have below : ¬ s.lastSeq < env.seq := Nat.not_lt.mpr old
      rw [if_pos count,List.nil_append,List.filter_cons_of_neg (by simpa using below),List.filter_filter,last]
      refine List.filter_congr fun n _ => ?_
      rw [Bool.eq_iff_iff]
      simp only [decide_eq_true_eq,Bool.and_eq_true]
      exact ⟨fun above => ⟨above,Nat.lt_of_le_of_lt old above⟩,And.left⟩
    · obtain ⟨last,count⟩ := applyEvent_new old
      have above : s.lastSeq < env.seq := Nat.not_le.mp old
      rw [if_neg (by rw [count]; exact Nat.succ_ne_self _),List.filter_cons_of_pos (by simpa using above),List.filter_filter,last]
      refine congrArg (env.seq :: ·) (List.filter_congr fun n _ => ?_)
      rw [Bool.eq_iff_iff]
      simp only [decide_eq_true_eq,Bool.and_eq_true]
      exact ⟨fun higher => ⟨Nat.lt_trans above higher,higher⟩,And.right⟩

theorem appliedNumbers_initial (fed : List AnyEvent) (positive : ∀ env ∈ fed, 1 ≤ env.seq) :
    appliedNumbers createInitialState fed = maxima (fed.map AnyEvent.seq) := by
  rw [appliedNumbers_maxima,List.filter_eq_self]
  intro n member
  obtain ⟨env,inside,rfl⟩ := List.mem_map.mp (maxima_mem member)
  exact decide_eq_true (positive env inside)

-- The last number is that of an envelope, and no other is above it.
theorem replay_last {fed : List AnyEvent} (positive : ∀ env ∈ fed, 1 ≤ env.seq) (member : env ∈ fed) :
    (∃ other ∈ fed, other.seq = (replayEvents fed createInitialState).lastSeq) ∧
    env.seq ≤ (replayEvents fed createInitialState).lastSeq := by
  have last := (replay_counted fed positive).last
  change (replayEvents fed createInitialState).lastSeq = _ at last
  have inside : env.seq ∈ fed.map AnyEvent.seq := List.mem_map_of_mem member
  cases top : (maxima (fed.map AnyEvent.seq)).getLast? with
  | none =>
    rw [List.getLast?_eq_none_iff,maxima_nil_iff] at top
    rw [top] at inside
    cases inside
  | some greatest =>
    rw [top,Option.getD_some] at last
    obtain ⟨among,above⟩ := maxima_last top
    rw [last]
    exact ⟨List.mem_map.mp among,above env.seq inside⟩

-- The books of a state after the envelopes that were fed to it.
structure Tally (s : IdeState) (fed : List AnyEvent) (applied : List Nat) : Prop where
  greatest : ∀ env ∈ fed, env.seq ≤ s.lastSeq
  seen : fed ≠ [] → ∃ env ∈ fed, env.seq = s.lastSeq
  count : s.appliedEvents = applied.length
  which : ∀ n, n ∈ applied ↔ ∃ before after, fed.map AnyEvent.seq = before ++ n :: after ∧ ∀ m ∈ before, m < n
  once : applied.Pairwise (· < ·)
  accounted : s.appliedEvents+s.duplicates+s.outOfOrder = fed.length
  balance : ∀ first ∈ applied.head?, s.appliedEvents+(s.gaps.map SeqGap.size).sum = s.lastSeq-first+1
  ranges : ∀ gap ∈ s.gaps, gap.expected < gap.received ∧ gap.size = gap.received-gap.expected ∧
    ∀ n, gap.expected ≤ n → n < gap.received → n ∉ applied
  apart : s.gaps.Pairwise fun one two => one.received < two.expected

theorem gapOf_sizes (ranges : List (Nat × Nat)) :
    ((ranges.map gapOf).map SeqGap.size).sum = (ranges.map fun hole => hole.2-hole.1).sum := by
  rw [List.map_map]
  rfl

def chunkAt (seq : Nat) : AnyEvent := ⟨1,seq,"t".toList,none,.aiChunk "r".toList "x".toList⟩

end PrincessIDE.EventStore
