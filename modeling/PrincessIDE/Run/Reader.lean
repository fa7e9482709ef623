import PrincessIDE.Core.Stream
import PrincessIDE.Foundation.Str

namespace PrincessIDE.Reader
open Utf8 PrincessIDE.Stream

inductive Pipe where
  | serial
  | emulator
deriving DecidableEq, Repr

structure StreamChunk where
  pipe : Pipe
  text : Text
  encoding : TextEncoding
  atEof : Bool
deriving DecidableEq, Repr


-- What the reader thread's `recv_timeout` on the pump's channel answers until
-- the pump is gone.
inductive Wake where
  | bytes (bytes : Bytes)
  | idle
deriving DecidableEq, Repr

theorem takeLines_shorter {s : Utf8Chunker} (taken : s.takeLines = some out) : out.2.pendingLen < s.pendingLen := by
  obtain ⟨h,_,clean,_,_⟩ := takeLines_clean taken
  have lengths := congrArg List.length clean.split
  have some := List.length_pos_iff.mpr clean.some
  simp only [List.length_append] at lengths
  unfold Utf8Chunker.pendingLen
  omega

def drainLines (s : Utf8Chunker) : List Chunk × Utf8Chunker :=
  match _ : s.takeLines with
  | none => ([],s)
  | some (chunk,next) => (chunk :: (drainLines next).1,(drainLines next).2)
termination_by s.pendingLen
decreasing_by all_goals exact takeLines_shorter (by assumption)

def wake (s : Utf8Chunker) : Wake → List Chunk × Utf8Chunker
  | .bytes bytes => drainLines (s.push bytes)
  | .idle => match s.takeAvailable with
    | some (chunk,next) => ([chunk],next)
    | none => ([],s)

def wakes (s : Utf8Chunker) : List Wake → List Chunk × Utf8Chunker
  | [] => ([],s)
  | w :: rest => ((wake s w).1 ++ (wakes (wake s w).2 rest).1,(wakes (wake s w).2 rest).2)

def toChunk (pipe : Pipe) (atEof : Bool) (c : Chunk) : StreamChunk := ⟨pipe,c.1,c.2,atEof⟩

-- The chunks a reader thread sends over the life of its pipe; the receiver
-- outlives the reader.
def spawnReader (pipe : Pipe) (schedule : List Wake) : List StreamChunk :=
  let s := wakes .new schedule
  s.1.map (toChunk pipe false) ++ (match s.2.takeRemainder with
    | some (chunk,_) => [toChunk pipe true chunk]
    | none => [])

def Wake.read : Wake → Bytes
  | .bytes got => got
  | .idle => []

def read (schedule : List Wake) : Bytes := schedule.flatMap Wake.read

-- The reader as a run of the chunker's operations.
def Wake.ops : Wake → List Op
  | .bytes got => [.push got,.takeLines]
  | .idle => [.takeAvailable]

def chunkOf (h : Handed) : Chunk := (h.text,h.encoding)

theorem drainLines_once (s : Utf8Chunker) :
    drainLines s = ((hand s s.takeLines).1.map chunkOf,(hand s s.takeLines).2) := by
  rw [drainLines]
  cases taken : s.takeLines with
  | none => rfl
  | some out =>
    obtain ⟨h,handed,_,last,_⟩ := takeLines_clean taken
    have dry : out.2.takeLines = none := by simp [Utf8Chunker.takeLines,rposition_none.mpr last]
    have same : chunkOf h = out.1 := by
      obtain ⟨⟨text,encoding⟩,next⟩ := out
      have first := (List.cons.inj (Prod.mk.inj handed).1).1
      rw [← first]
      rfl
    rw [handed]
    dsimp only
    rw [drainLines]
    split
    · simp [same]
    · rename_i _ _ again
      rw [dry] at again
      cases again

theorem wake_ops (s : Utf8Chunker) (w : Wake) :
    wake s w = ((runOps s w.ops).1.map chunkOf,(runOps s w.ops).2) := by
  cases w with
  | bytes got => simp [wake,Wake.ops,runOps,apply,drainLines_once]
  | idle =>
    simp only [wake,Wake.ops,runOps,apply]
    cases taken : s.takeAvailable with
    | none => simp [hand]
    | some out => simp [hand,chunkOf]

theorem wakes_ops (s : Utf8Chunker) (schedule : List Wake) :
    wakes s schedule = ((runOps s (schedule.flatMap Wake.ops)).1.map chunkOf,(runOps s (schedule.flatMap Wake.ops)).2) := by
  induction schedule generalizing s with
  | nil => rfl
  | cons w rest ih => simp [wakes,wake_ops,ih,runOps_append]

theorem fed_ops (schedule : List Wake) : fed (schedule.flatMap Wake.ops) = read schedule := by
  unfold fed read
  rw [List.flatMap_assoc]
  congr 1
  funext w
  cases w <;> simp [Wake.ops,pushed,Wake.read]

theorem spawnReader_session (pipe : Pipe) (schedule : List Wake) :
    (spawnReader pipe schedule).map (fun c => (c.text,c.encoding)) = (session (schedule.flatMap Wake.ops)).map chunkOf := by
  unfold spawnReader session
  simp only [wakes_ops,List.map_append,List.map_map]
  congr 1
  cases taken : (runOps .new (schedule.flatMap Wake.ops)).2.takeRemainder with
  | none => rfl
  | some out => rfl

theorem spawnReader_pipe (member : c ∈ spawnReader pipe schedule) : c.pipe = pipe := by
  rcases List.mem_append.mp member with running | last
  · obtain ⟨_,_,rfl⟩ := List.mem_map.mp running
    rfl
  · split at last
    · simp only [List.mem_singleton] at last
      subst c; rfl
    · cases last

theorem spawnReader_text (pipe : Pipe) (schedule : List Wake) :
    (spawnReader pipe schedule).flatMap StreamChunk.text = lossy (read schedule) := by
  have texts := congrArg (List.flatMap Prod.fst) (spawnReader_session pipe schedule)
  rw [← fed_ops,← session_text]
  simpa [List.flatMap_map,chunkOf] using texts

theorem spawnReader_infix (member : c ∈ spawnReader pipe schedule) :
    ∃ before after, lossy (read schedule) = before ++ c.text ++ after := by
  obtain ⟨front,back,split⟩ := List.append_of_mem member
  refine ⟨front.flatMap StreamChunk.text,back.flatMap StreamChunk.text,?_⟩
  rw [← spawnReader_text pipe schedule,split]
  simp

theorem spawnReader_from (member : c ∈ spawnReader pipe schedule) :
    ∃ h ∈ session (schedule.flatMap Wake.ops), c.text = h.text ∧ c.encoding = h.encoding := by
  have inside : (c.text,c.encoding) ∈ (session (schedule.flatMap Wake.ops)).map chunkOf := by
    rw [← spawnReader_session pipe]
    exact List.mem_map.mpr ⟨c,member,rfl⟩
  obtain ⟨h,taken,same⟩ := List.mem_map.mp inside
  exact ⟨h,taken,(Prod.mk.inj same).1.symm,(Prod.mk.inj same).2.symm⟩

-- Enough idle flushes leave at most one unfinished sequence behind.
def idles (n : Nat) : List Wake := List.replicate n .idle

theorem wakes_append (s : Utf8Chunker) (a b : List Wake) :
    wakes s (a++b) = ((wakes s a).1 ++ (wakes (wakes s a).2 b).1,(wakes (wakes s a).2 b).2) := by
  induction a generalizing s with
  | nil => rfl
  | cons w a ih => simp [wakes,ih]

theorem idles_quiet (stuck : Utf8Chunker.takeAvailable s = none) (n : Nat) : wakes s (idles n) = ([],s) := by
  induction n with
  | zero => rfl
  | succ n ih =>
    have same : wake s .idle = ([],s) := by simp [wake,stuck]
    simp only [idles] at ih
    simp [idles,List.replicate_succ,wakes,same,ih]

theorem takeAvailable_shorter {s : Utf8Chunker} (taken : s.takeAvailable = some out) : out.2.pendingLen < s.pendingLen := by
  obtain ⟨h,_,clean⟩ := takeAvailable_clean taken
  have lengths := congrArg List.length clean.split
  have some := List.length_pos_iff.mpr clean.some
  simp only [List.length_append] at lengths
  unfold Utf8Chunker.pendingLen
  omega

theorem idles_stuck (enough : Utf8Chunker.pendingLen s ≤ n) : (wakes s (idles n)).2.takeAvailable = none := by
  induction n generalizing s with
  | zero =>
    have empty : s.pending = [] := List.length_eq_zero_iff.mp (Nat.le_zero.mp enough)
    simp [idles,wakes,Utf8Chunker.takeAvailable,empty]
  | succ n ih =>
    cases taken : s.takeAvailable with
    | none => rw [idles_quiet taken]; exact taken
    | some out =>
      have shorter := takeAvailable_shorter taken
      have next : wake s .idle = ([out.1],out.2) := by simp [wake,taken]
      simp only [idles] at ih
      simp only [idles,List.replicate_succ,wakes,next]
      exact ih (by omega)

-- What a run of wakes sends is no longer than what was pending or read.
theorem wakes_short (s : Utf8Chunker) (schedule : List Wake) :
    (∀ c ∈ (wakes s schedule).1, c.1.length ≤ s.pendingLen + (read schedule).length) ∧
    (wakes s schedule).2.pendingLen ≤ s.pendingLen + (read schedule).length := by
  have lengths := congrArg List.length (runOps_bytes s (schedule.flatMap Wake.ops))
  rw [fed_ops,List.length_append,List.length_append] at lengths
  rw [wakes_ops]
  unfold Utf8Chunker.pendingLen
  dsimp only
  refine ⟨fun c member => ?_,by omega⟩
  obtain ⟨h,inside,rfl⟩ := List.mem_map.mp member
  have text : h.text = lossy h.bytes :=
    (congrArg Prod.fst (runOps_decoded s _ h inside)).trans (decodeChunk_text _)
  obtain ⟨front,back,split⟩ := List.append_of_mem inside
  have short := lossy_length h.bytes
  rw [split,List.flatMap_append,List.flatMap_cons,List.length_append,List.length_append] at lengths
  simp only [chunkOf,text]
  omega

-- One byte at a time, with idle flushes between the bytes.
def crumbs (bs : Bytes) : List Wake := bs.flatMap (fun b => .bytes [b] :: idles 4)

theorem read_crumbs (bs : Bytes) : read (crumbs bs) = bs := by
  have one : ∀ b : UInt8, (Wake.bytes [b] :: idles 4).flatMap Wake.read = [b] := fun b => rfl
  unfold read crumbs
  rw [List.flatMap_assoc]
  simp [one]

theorem crumb_short (stuck : Utf8Chunker.takeAvailable s = none) (b : UInt8) :
    (∀ c ∈ (wakes s (.bytes [b] :: idles 4)).1, c.1.length ≤ 4) ∧
    (wakes s (.bytes [b] :: idles 4)).2.takeAvailable = none := by
  have start := stuck_short stuck
  have short := wakes_short s (.bytes [b] :: idles 4)
  have first := (wakes_short s [.bytes [b]]).2
  have one : (read (.bytes [b] :: idles 4)).length = 1 := rfl
  have single : (read [.bytes [b]]).length = 1 := rfl
  have settled := idles_stuck (s:=(wakes s [.bytes [b]]).2) (n:=4) (by omega)
  refine ⟨fun c member => Nat.le_trans (short.1 c member) (by omega),?_⟩
  have cut := wakes_append s [.bytes [b]] (idles 4)
  rw [List.singleton_append] at cut
  rwa [cut]

theorem crumbs_wakes (stuck : Utf8Chunker.takeAvailable s = none) (bs : Bytes) :
    (∀ c ∈ (wakes s (crumbs bs)).1, c.1.length ≤ 4) ∧ (wakes s (crumbs bs)).2.takeAvailable = none := by
  induction bs generalizing s with
  | nil => exact ⟨by simp [crumbs,wakes],stuck⟩
  | cons b bs ih =>
    obtain ⟨short,settled⟩ := crumb_short stuck b
    obtain ⟨later,last⟩ := ih settled
    have cut : crumbs (b::bs) = (.bytes [b] :: idles 4) ++ crumbs bs := by simp [crumbs]
    rw [cut,wakes_append]
    exact ⟨fun c member => (List.mem_append.mp member).elim (short c) (later c),last⟩

theorem crumbs_short (member : c ∈ spawnReader pipe (crumbs bs)) : c.text.length ≤ 4 := by
  obtain ⟨short,stuck⟩ := crumbs_wakes (s:=.new) (by simp [Utf8Chunker.new,Utf8Chunker.takeAvailable]) bs
  rcases List.mem_append.mp member with running | last
  · obtain ⟨chunk,inside,rfl⟩ := List.mem_map.mp running
    exact short chunk inside
  · split at last
    · rename_i chunk _ taken
      simp only [List.mem_singleton] at last
      subst c
      have few := stuck_short stuck
      unfold Utf8Chunker.takeRemainder at taken
      split at taken
      · cases taken
      · cases taken
        have short := lossy_length (wakes .new (crumbs bs)).2.pending
        unfold Utf8Chunker.pendingLen at few
        simp only [toChunk,List.take_length,decodeChunk_text]
        omega
    · cases last

theorem drainLines_clean (s : Utf8Chunker) : newline ∉ (drainLines s).2.pending := by
  rw [drainLines_once]
  cases taken : s.takeLines with
  | none =>
    simp only [Utf8Chunker.takeLines,Option.map_eq_none_iff] at taken
    exact rposition_none.mp taken
  | some out =>
    obtain ⟨h,handed,_,last,_⟩ := takeLines_clean taken
    rw [handed]
    exact last

theorem wake_clean (clean : newline ∉ s.pending) (w : Wake) : newline ∉ (wake s w).2.pending := by
  cases w with
  | bytes got => exact drainLines_clean _
  | idle =>
    cases taken : s.takeAvailable with
    | none => simpa [wake,taken] using clean
    | some out =>
      obtain ⟨h,_,cut⟩ := takeAvailable_clean taken
      simp only [wake,taken]
      intro inside
      exact clean (by rw [cut.split]; exact List.mem_append_right _ inside)

theorem wakes_clean (clean : newline ∉ s.pending) (schedule : List Wake) : newline ∉ (wakes s schedule).2.pending := by
  induction schedule generalizing s with
  | nil => exact clean
  | cons w rest ih => exact ih (wake_clean clean w)

theorem drainLines_dry (dry : newline ∉ s.pending) : drainLines s = ([],s) := by
  have none : s.takeLines = none := by simp [Utf8Chunker.takeLines,rposition_none.mpr dry]
  simp [drainLines_once,none,hand]

-- A schedule that hands out one stretch of a stream as a chunk of its own.
def isolate (x needle y : Bytes) : List Wake :=
  (.bytes x :: idles x.length) ++ ((.bytes needle :: idles 2) ++ [.bytes y])

theorem read_isolate (x needle y : Bytes) : read (isolate x needle y) = x ++ needle ++ y := by
  have quiet : ∀ n, (idles n).flatMap Wake.read = [] := by
    intro n
    simp [idles,Wake.read]
  simp [read,isolate,Wake.read,quiet]

theorem idle_whole (some : t ≠ []) : wake ⟨encode t⟩ .idle = ([(t,.utf8)],⟨[]⟩) := by
  have bytes : encode t ≠ [] := by
    intro empty
    have back := lossy_encode t
    rw [empty] at back
    exact some (by simpa [lossy,segments,run,close] using back.symm)
  simp [wake,Utf8Chunker.takeAvailable,bytes,fromUtf8_encode,Utf8Chunker.takePrefix,decodeChunk]

theorem idle_cut (held : run none q = ([],some h)) (ascii : c.toNat < 0x80) (rest : Bytes) :
    wake ⟨q++c::rest⟩ .idle = ([decodeChunk q],⟨c::rest⟩) := by
  simp [wake,Utf8Chunker.takeAvailable,fromUtf8_cut held ascii,Utf8Chunker.takePrefix]

-- Behind what is stuck, a stretch that begins with an ASCII character is flushed on its own.
theorem stuck_hands (stuck : Utf8Chunker.takeAvailable s = none) (clean : newline ∉ s.pending) (ascii : c.toNat < 0x80) (plain : '\n' ∉ c::t) :
    (c::t,TextEncoding.utf8) ∈ (wakes s (.bytes (encode (c::t)) :: idles 2)).1 := by
  have dry : newline ∉ s.pending ++ encode (c::t) := by
    intro inside
    rcases List.mem_append.mp inside with before | here
    · exact clean before
    · exact plain (ascii_encode (by decide) here)
  have pushed : wake s (.bytes (encode (c::t))) = ([],⟨s.pending ++ encode (c::t)⟩) := drainLines_dry (s:=s.push _) dry
  have whole : wake ⟨encode (c::t)⟩ .idle = ([(c::t,.utf8)],⟨[]⟩) := idle_whole (by simp)
  simp only [idles,List.replicate,wakes,pushed]
  rcases takeAvailable_stuck stuck with empty | ⟨h,held⟩
  · simp [empty,whole]
  · have first : (UInt8.ofNat c.toNat).toNat < 0x80 := by rw [UInt8.toNat_ofNat']; omega
    have split : encode (c::t) = UInt8.ofNat c.toNat :: encode t := by
      have one : encode [c] = [UInt8.ofNat c.toNat] := encode_ascii (by simpa using ascii)
      have cut := encode_append [c] t
      rw [one] at cut
      exact cut
    have cut := idle_cut held first (encode t)
    rw [← split] at cut
    simp [cut,whole]

theorem isolated (pipe : Pipe) (ascii : c.toNat < 0x80) (plain : '\n' ∉ c::t) (x y : Bytes) :
    toChunk pipe false (c::t,.utf8) ∈ spawnReader pipe (isolate x (encode (c::t)) y) := by
  obtain ⟨s,entered⟩ : ∃ s, (wakes .new (.bytes x :: idles x.length)).2 = s := ⟨_,rfl⟩
  have stuck : s.takeAvailable = none := by
    have short := (wakes_short .new [.bytes x]).2
    have settled := idles_stuck (s:=(wakes .new [.bytes x]).2) (n:=x.length) (by simpa [read,Wake.read,Utf8Chunker.new,Utf8Chunker.pendingLen] using short)
    rw [← entered,← List.singleton_append,wakes_append]
    exact settled
  have clean : newline ∉ s.pending := entered ▸ wakes_clean (s:=.new) (by simp [Utf8Chunker.new]) _
  refine List.mem_append_left _ (List.mem_map.mpr ⟨_,?_,rfl⟩)
  rw [isolate,wakes_append,wakes_append,entered]
  exact List.mem_append_right _ (List.mem_append_left _ (stuck_hands stuck clean ascii plain))

def LineEnd (bs : Bytes) : Prop := bs = [] ∨ bs.getLast? = some newline

-- Idle flushes only where the guest has just ended a line.
def Aligned (schedule : List Wake) : Prop :=
  ∀ before after, schedule = before ++ .idle :: after → LineEnd (read before)

-- What is pending is the unfinished line of what was read.
structure Lined (seen : Bytes) (s : Utf8Chunker) : Prop where
  split : ∃ lines, seen = lines ++ s.pending ∧ LineEnd lines
  unfinished : newline ∉ s.pending

theorem Lined.ended (lined : Lined seen s) (ended : LineEnd seen) : s.pending = [] := by
  obtain ⟨⟨lines,split,_⟩,unfinished⟩ := lined
  by_contra some
  obtain ⟨front,last,shape⟩ := List.eq_nil_or_concat s.pending |>.resolve_left some
  rw [List.concat_eq_append] at shape
  rcases ended with rfl | ended
  · simp [shape] at split
  · rw [split,shape,← List.append_assoc,List.getLast?_concat] at ended
    cases ended
    exact unfinished (by simp [shape])

theorem lossy_line (bs : Bytes) (ended : bs.getLast? = some newline) : (lossy bs).getLast? = some '\n' := by
  obtain ⟨front,rfl⟩ := List.getLast?_eq_some_iff.mp ended
  rw [lossy,segments_snoc_ascii front (c:=newline) (by decide)]
  simp [Segment.char,newline]

theorem wake_lined (lined : Lined seen s) (aligned : w = .idle → LineEnd seen) :
    (∀ c ∈ (wake s w).1, c.1.getLast? = some '\n') ∧ Lined (seen ++ w.read) (wake s w).2 := by
  cases w with
  | idle =>
    have empty := lined.ended (aligned rfl)
    have none : s.takeAvailable = none := by simp [Utf8Chunker.takeAvailable,empty]
    simpa [wake,none,Wake.read] using lined
  | bytes got =>
    obtain ⟨lines,split,ended⟩ := lined.split
    have whole : seen ++ got = lines ++ (s.push got).pending := by simp [split,Utf8Chunker.push]
    have clean := drainLines_clean (s.push got)
    simp only [wake,Wake.read] at clean ⊢
    rw [drainLines_once] at clean ⊢
    cases taken : (s.push got).takeLines with
    | none =>
      rw [taken] at clean
      exact ⟨by simp [hand],⟨lines,whole,ended⟩,clean⟩
    | some out =>
      obtain ⟨h,handed,cut,last,line⟩ := takeLines_clean taken
      have text : h.text = lossy h.bytes := (congrArg Prod.fst cut.decoded).trans (decodeChunk_text _)
      rw [handed]
      refine ⟨by simp [chunkOf,text,lossy_line _ line],⟨lines ++ h.bytes,?_,.inr ?_⟩,last⟩
      · rw [whole,cut.split,List.append_assoc]
      · obtain ⟨front,shape⟩ := List.getLast?_eq_some_iff.mp line
        rw [shape,← List.append_assoc,List.getLast?_concat]

theorem wakes_lined (lined : Lined seen s)
    (aligned : ∀ before after, schedule = before ++ .idle :: after → LineEnd (seen ++ read before)) :
    ∀ c ∈ (wakes s schedule).1, c.1.getLast? = some '\n' := by
  induction schedule generalizing seen s with
  | nil => simp [wakes]
  | cons w rest ih =>
    have first := wake_lined (w:=w) lined (by
      rintro rfl
      simpa [read] using aligned [] rest rfl)
    have later := ih first.2 (by
      intro before after split
      have here := aligned (w::before) after (by simp [split])
      simpa [read] using here)
    intro c member
    exact (List.mem_append.mp member).elim (first.1 c) (later c)

theorem aligned_lines (aligned : Aligned schedule) (pipe : Pipe) :
    (spawnReader pipe schedule).flatMap (fun c => Str.lines c.text) = Str.lines (lossy (read schedule)) := by
  have ended : ∀ c ∈ (wakes .new schedule).1, c.1.getLast? = some '\n' :=
    wakes_lined (show Lined [] .new from ⟨⟨[],by simp [Utf8Chunker.new],.inl rfl⟩,by simp [Utf8Chunker.new]⟩)
      (fun before after split => by simpa using aligned before after split)
  rw [← spawnReader_text pipe]
  simp only [spawnReader,List.flatMap_append,List.flatMap_map,toChunk]
  rw [Str.lines_flatMap (fun c member => .inr (ended c member))]
  congr 1
  split <;> simp [Str.lines,Str.linesFrom]

end PrincessIDE.Reader
