import PrincessIDE.Build.Finished

namespace PrincessIDE.BuildBackend
open Utf8 (Text Bytes lossy)
open Str PrincessIDE.Stream Error Event Effect Diagnostics
open Reader (Wake wake drainLines)
open BuildProcess (StdioStream StdioChunk CommandOutput toChunk spawnReader)

-- What the reader threads meet, in the order in which the runner receives what
-- they make of it.
inductive Arrival where
  | wake (which : StdioStream) (w : Wake)
  | ended (which : StdioStream)
deriving DecidableEq, Repr

def arrive (s : StdioStream → Utf8Chunker) : Arrival → List StdioChunk × (StdioStream → Utf8Chunker)
  | .wake which w => ((wake (s which) w).1.map (toChunk which false),Function.update s which (wake (s which) w).2)
  | .ended which => (match (s which).takeRemainder with
      | some (chunk,_) => [toChunk which true chunk]
      | none => [],Function.update s which .new)

def deliver (s : StdioStream → Utf8Chunker) : List Arrival → List StdioChunk
  | [] => []
  | a :: rest => (arrive s a).1 ++ deliver (arrive s a).2 rest

def delivered (arrivals : List Arrival) : List StdioChunk := deliver (fun _ => .new) arrivals

theorem deliver_wakes (s : StdioStream → Utf8Chunker) (which : StdioStream) (schedule : List Wake) :
    deliver s (schedule.map (.wake which) ++ [Arrival.ended which]) =
      (Reader.wakes (s which) schedule).1.map (toChunk which false) ++
        match (Reader.wakes (s which) schedule).2.takeRemainder with
        | some (chunk,_) => [toChunk which true chunk]
        | none => [] := by
  induction schedule generalizing s with
  | nil => simp [deliver,arrive,Reader.wakes]
  | cons w rest ih =>
    have later := ih (arrive s (.wake which w)).2
    simp only [arrive,Function.update_self] at later
    simp only [List.map_cons,List.cons_append,deliver,arrive,Reader.wakes,List.map_append,List.append_assoc]
    rw [later]

-- A pipe alone is what its reader thread sends.
theorem delivered_alone (which : StdioStream) (schedule : List Wake) :
    delivered (schedule.map (.wake which) ++ [Arrival.ended which]) = spawnReader which schedule := deliver_wakes _ which schedule

-- The bytes up to the last newline, and those of the unfinished line behind it.
def cutLines (bs : Bytes) : Bytes × Bytes := match rposition newline bs with
  | some i => (bs.take (i+1),bs.drop (i+1))
  | none => ([],bs)

-- The lines of some bytes that end in a newline.
def lineTexts (bs : Bytes) : List Text := (split ['\n'] (lossy bs)).dropLast

-- The lines that are whole with an arrival, and the unfinished line of each pipe.
def write (unfinished : StdioStream → Bytes) : Arrival → List (StdioStream × Text) × (StdioStream → Bytes)
  | .wake which (.bytes got) => ((lineTexts (cutLines (unfinished which ++ got)).1).map (which,·),
      Function.update unfinished which (cutLines (unfinished which ++ got)).2)
  | .wake _ .idle => ([],unfinished)
  | .ended which => (if unfinished which = [] then [] else [(which,lossy (unfinished which))],Function.update unfinished which [])

def writeAll (unfinished : StdioStream → Bytes) : List Arrival → List (StdioStream × Text)
  | [] => []
  | a :: rest => (write unfinished a).1 ++ writeAll (write unfinished a).2 rest

-- The lines a build writes, in the order in which they are whole.
def written (arrivals : List Arrival) : List (StdioStream × Text) := writeAll (fun _ => []) arrivals

-- No idle flush meets an unfinished line.
def WholeFrom (unfinished : StdioStream → Bytes) : List Arrival → Prop
  | [] => True
  | a :: rest => (∀ which, a = .wake which .idle → unfinished which = []) ∧ WholeFrom (write unfinished a).2 rest

def Whole (arrivals : List Arrival) : Prop := WholeFrom (fun _ => []) arrivals

theorem feedLines_append (p : DiagnosticParser) (a b : List Text) :
    p.feedLines (a++b) = ((p.feedLines a).1 ++ ((p.feedLines a).2.feedLines b).1,((p.feedLines a).2.feedLines b).2) := by
  induction a generalizing p with
  | nil => rfl
  | cons line a ih => simp [DiagnosticParser.feedLines,ih]

theorem feedText_lines (p : DiagnosticParser) (bs : Bytes) (ended : bs.getLast? = some newline) :
    p.feedText (lossy bs) = p.feedLines (lineTexts bs) := by
  obtain ⟨t,whole⟩ := List.getLast?_eq_some_iff.mp (Reader.lossy_line bs ended)
  have blank : ∀ q : DiagnosticParser, q.feedLines [[]] = ([],q) := fun q => rfl
  unfold DiagnosticParser.feedText lineTexts
  rw [whole,show "\n".toList = ['\n'] from rfl,split_ended,List.dropLast_concat,feedLines_append,blank]
  simp

theorem feedText_single (p : DiagnosticParser) (plain : newline ∉ bs) : p.feedText (lossy bs) = p.feedLines [lossy bs] := by
  unfold DiagnosticParser.feedText
  rw [show "\n".toList = ['\n'] from rfl,split_absent (lossy_plain plain) (List.mem_singleton.mpr rfl)]

theorem cutLines_some (inside : newline ∈ bs) : ∃ i, rposition newline bs = some i ∧ cutLines bs = (bs.take (i+1),bs.drop (i+1)) ∧
    (bs.take (i+1)).getLast? = some newline ∧ newline ∉ bs.drop (i+1) := by
  cases found : rposition newline bs with
  | none => exact absurd inside (rposition_none.mp found)
  | some i =>
    obtain ⟨front,back,split,rfl,last⟩ := rposition_some found
    have cut : bs = (front ++ [newline]) ++ back := by rw [split,List.append_assoc]; rfl
    have length : front.length+1 = (front ++ [newline]).length := by simp
    refine ⟨_,rfl,by rw [cutLines,found],?_,?_⟩
    · rw [cut,length,List.take_left,List.getLast?_concat]
    · rwa [cut,length,List.drop_left]

theorem cutLines_none (absent : newline ∉ bs) : cutLines bs = ([],bs) := by
  rw [cutLines,rposition_none.mpr absent]

theorem cutLines_open (bs : Bytes) : newline ∉ (cutLines bs).2 := by
  by_cases inside : newline ∈ bs
  · obtain ⟨i,_,cut,_,last⟩ := cutLines_some inside
    rwa [cut]
  · rwa [cutLines_none inside]

theorem drainLines_cut (s : Utf8Chunker) : drainLines s =
    (if newline ∈ s.pending then [decodeChunk (cutLines s.pending).1] else [],⟨(cutLines s.pending).2⟩) := by
  by_cases inside : newline ∈ s.pending
  · obtain ⟨i,found,cut,_⟩ := cutLines_some inside
    have taken : s.takeLines = some (s.takePrefix (i+1)) := by rw [Utf8Chunker.takeLines,found]; rfl
    rw [Reader.drainLines_once,taken,if_pos inside,cut]
    rfl
  · rw [Reader.drainLines_dry inside,if_neg inside,cutLines_none inside]

-- The chunks of one arrival against the lines that are whole with it.
structure Lined (s : StdioStream → Utf8Chunker) (unfinished : StdioStream → Bytes) : Prop where
  pending : ∀ which, (s which).pending = unfinished which
  plain : ∀ which, newline ∉ unfinished which

theorem Lined.update (lined : Lined s u) (which : StdioStream) (c : Utf8Chunker) (plain : newline ∉ c.pending) :
    Lined (Function.update s which c) (Function.update u which c.pending) := by
  constructor
  · intro other
    by_cases same : other = which
    · subst other
      simp
    · simp [same,lined.pending]
  · intro other
    by_cases same : other = which
    · subst other
      simpa using plain
    · simpa [same] using lined.plain other

-- The parser over chunks that carry some lines and nothing else.
def Carries (chunks : List StdioChunk) (texts : List Text) : Prop :=
  ∀ (p : DiagnosticParser) rest, feedChunks p (chunks++rest) = (p.feedLines texts).1 ++ feedChunks (p.feedLines texts).2 rest

theorem carries_nothing : Carries [] [] := fun _ _ => rfl

theorem carries_one (fed : ∀ p : DiagnosticParser, p.feedText chunk.text = p.feedLines texts) : Carries [chunk] texts := by
  intro p rest
  rw [List.singleton_append,feedChunks,fed]

theorem arrive_lined (lined : Lined s u) (whole : ∀ which, a = .wake which .idle → u which = []) :
    Lined (arrive s a).2 (write u a).2 ∧ Carries (arrive s a).1 ((write u a).1.map Prod.snd) := by
  cases a with
  | ended which =>
    refine ⟨lined.update which .new (List.not_mem_nil),?_⟩
    by_cases empty : u which = []
    · simp only [arrive,write,empty,Utf8Chunker.takeRemainder,lined.pending,if_true]
      exact carries_nothing
    · simp only [arrive,write,empty,Utf8Chunker.takeRemainder,lined.pending,if_false]
      refine carries_one fun p => ?_
      simp only [toChunk,Utf8Chunker.takePrefix,List.take_length,lined.pending,decodeChunk_text]
      exact feedText_single p (lined.plain which)
  | wake which w => cases w with
    | idle =>
      have empty := whole which rfl
      have pending := lined.pending which
      rw [empty] at pending
      have quiet : wake (s which) .idle = ([],s which) := by simp [wake,Utf8Chunker.takeAvailable,pending]
      simp only [arrive,write,quiet,Function.update_eq_self]
      exact ⟨lined,carries_nothing⟩
    | bytes got =>
      have pending : ((s which).push got).pending = u which ++ got := by rw [Utf8Chunker.push,lined.pending]
      simp only [arrive,write,wake,drainLines_cut,pending]
      refine ⟨lined.update which ⟨_⟩ (cutLines_open _),?_⟩
      by_cases inside : newline ∈ u which ++ got
      · obtain ⟨i,_,cut,ended,_⟩ := cutLines_some inside
        rw [if_pos inside,cut]
        refine carries_one fun p => ?_
        simp only [toChunk,decodeChunk_text,feedText_lines p _ ended,List.map_map,Function.comp_def,List.map_id']
      · rw [if_neg inside,cutLines_none inside]
        exact carries_nothing

theorem deliver_lines (lined : Lined s u) (whole : WholeFrom u arrivals) (p : DiagnosticParser) :
    feedChunks p (deliver s arrivals) = (p.feedLines ((writeAll u arrivals).map Prod.snd)).1 := by
  induction arrivals generalizing s u p with
  | nil => rfl
  | cons a rest ih =>
    obtain ⟨next,carries⟩ := arrive_lined lined whole.1
    rw [deliver,carries,ih next whole.2,writeAll,List.map_append,feedLines_append]

-- What a build emits are the diagnostics of the texts its runner hands over.
theorem execute_diagnostics (accepts : Accepts sys.sink) (b : MakeBackend) (plan : BuildPlan) :
    diagnosticsOf (eventsOf (b.execute sys plan)) =
      (feedChunks (MakeBackend.parserFor plan) (sys.answers [] (.run plan .callers)).1).map ParsedDiagnostic.toPayload := by
  obtain ⟨streamed,_,told,fails,ends⟩ := b.execute_ends accepts plan idle
  rw [show (sys.answers [] (.run plan .callers)).1 = (sys.answers idle.asked (.run plan .callers)).1 from rfl,← told]
  unfold eventsOf
  cases ran : (sys.answers idle.asked (.run plan .callers)).2 with
  | error e =>
    obtain ⟨t,done,events⟩ := fails e ran
    rw [after_error done,events,diagnosticsOf_append]
    rfl
  | ok command =>
    obtain ⟨payload,t,added,done,events,plain,_⟩ := ends command ran
    rw [after_ok done,events,diagnosticsOf_append,diagnosticsOf_append,diagnosticsOf_append,diagnosticsOf_plain plain,List.append_nil]
    exact List.append_nil _

theorem diagnostics_whole (accepts : Accepts sys.sink) (accepts' : Accepts sys'.sink) (b : MakeBackend) (plan : BuildPlan)
    (ran : (sys.answers [] (.run plan .callers)).1 = delivered first)
    (ran' : (sys'.answers [] (.run plan .callers)).1 = delivered second)
    (same : written first = written second) (whole : Whole first) (whole' : Whole second) :
    diagnosticsOf (eventsOf (b.execute sys plan)) = diagnosticsOf (eventsOf (b.execute sys' plan)) := by
  have lined : Lined (fun _ => .new) (fun _ => []) := ⟨fun _ => rfl,fun _ => List.not_mem_nil⟩
  rw [execute_diagnostics accepts,execute_diagnostics accepts',ran,ran']
  unfold delivered written at *
  rw [deliver_lines lined whole,deliver_lines lined whole',same]

def failed : Except PrincessError CommandOutput := .ok ⟨some 2,none,false,false,[]⟩

-- One line on stderr: read at once, read in two pieces, and with an idle flush
-- between the pieces.
def oneRead : List Arrival := [.wake .stderr (.bytes (Utf8.encode "k.c:1:2: error: boom\n".toList)),.ended .stderr,.ended .stdout]

def twoReads : List Arrival := [.wake .stderr (.bytes (Utf8.encode "k.c:1:2: error: bo".toList)),
  .wake .stderr (.bytes (Utf8.encode "om\n".toList)),.ended .stderr,.ended .stdout]

def flushed : List Arrival := [.wake .stderr (.bytes (Utf8.encode "k.c:1:2: error: bo".toList)),.wake .stderr .idle,
  .wake .stderr (.bytes (Utf8.encode "om\n".toList)),.ended .stderr,.ended .stdout]

theorem diagnostics_whole_read :
    diagnosticsOf (eventsOf (make.execute (settled (delivered oneRead) failed) kernelPlan)) =
      diagnosticsOf (eventsOf (make.execute (settled (delivered twoReads) failed) kernelPlan)) :=
  diagnostics_whole (fun _ _ => rfl) (fun _ _ => rfl) make kernelPlan rfl rfl (by decide +kernel)
    ⟨nofun,nofun,nofun,trivial⟩ ⟨nofun,nofun,nofun,nofun,trivial⟩

theorem diagnostics_flushed : written oneRead = written flushed ∧
    diagnosticsOf (eventsOf (make.execute (settled (delivered oneRead) failed) kernelPlan)) =
      [⟨.error,some "/w/k.c".toList,some 1,some 2,"boom".toList,.gcc⟩] ∧
    diagnosticsOf (eventsOf (make.execute (settled (delivered flushed) failed) kernelPlan)) =
      [⟨.error,some "/w/k.c".toList,some 1,some 2,"bo".toList,.gcc⟩] := by
  refine ⟨?_,?_,?_⟩ <;> decide +kernel

end PrincessIDE.BuildBackend
