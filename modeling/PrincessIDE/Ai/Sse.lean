import PrincessIDE.Foundation.Drain
import PrincessIDE.Foundation.Str

namespace PrincessIDE.Sse
open Utf8 Str Drain

inductive SseEvent where
  | data (payload : Text)
  | done
deriving DecidableEq, Repr

structure SseDecoder where
  buffer : Bytes
  done : Bool
deriving DecidableEq, Repr

def doneSentinel : Text := "[DONE]".toList

def lineFeed : UInt8 := 10
def carriageReturn : UInt8 := 13

-- The length of the frame end that starts at the first byte, where one does.
def frameEndHere : Bytes → Option Nat
  | [] => none
  | b :: rest =>
    if b = lineFeed then
      if rest[0]? = some lineFeed then some 2
      else if rest[0]? = some carriageReturn ∧ rest[1]? = some lineFeed then some 3
      else none
    else if b = carriageReturn then
      if rest[0]? = some lineFeed ∧ rest[1]? = some carriageReturn then
        if rest[2]? = some lineFeed then some 4 else none
      else if rest[0]? = some carriageReturn then some 2
      else none
    else none

-- `find_frame_end` from index `i` on.
def findFrameEndFrom (i : Nat) : Bytes → Option (Nat × Nat)
  | [] => none
  | b :: rest => match frameEndHere (b::rest) with
    | some n => some (i,i+n)
    | none => findFrameEndFrom (i+1) rest

def findFrameEnd (bytes : Bytes) : Option (Nat × Nat) := findFrameEndFrom 0 bytes

-- The payload of a line, if it is a `data:` line.
def dataOf (line : Text) : Option Text :=
  let line := dropReturn line
  if line = [] ∨ startsWith [':'] line then none
  else (stripPrefix "data:".toList line).map fun rest => (stripPrefix [' '] rest).getD rest

def decodeFrame (frame : Bytes) : Option SseEvent :=
  let data := (split ['\n'] (lossy frame)).filterMap dataOf
  if data = [] then none
  else
    let payload := ['\n'].intercalate data
    if trim payload = doneSentinel then some .done else some (.data payload)

namespace SseDecoder

def new : SseDecoder := ⟨[],false⟩

def isDone (s : SseDecoder) : Bool := s.done

-- The loop of `push`; each round takes a frame end off the buffer, so that its
-- length bounds the rounds.
def takeFrames : Nat → SseDecoder → List SseEvent × SseDecoder
  | 0,s => ([],s)
  | n+1,s => match findFrameEnd s.buffer with
    | none => ([],s)
    | some (frameEnd,nextStart) =>
      let frame := s.buffer.take frameEnd
      let s := {s with buffer:=s.buffer.drop nextStart}
      match decodeFrame frame with
      | some .done => ([.done],⟨[],true⟩)
      | some event => (event :: (takeFrames n s).1,(takeFrames n s).2)
      | none => takeFrames n s

def push (s : SseDecoder) (bytes : Bytes) : List SseEvent × SseDecoder :=
  if s.done then ([],s)
  else
    let s := {s with buffer:=s.buffer ++ bytes}
    takeFrames s.buffer.length s

def finish (s : SseDecoder) : List SseEvent × SseDecoder :=
  if s.buffer = [] then ([],s) else ((decodeFrame s.buffer).toList,{s with buffer:=[]})

def pushAll (s : SseDecoder) : List Bytes → List SseEvent × SseDecoder
  | [] => ([],s)
  | bytes :: rest => ((s.push bytes).1 ++ (pushAll (s.push bytes).2 rest).1,(pushAll (s.push bytes).2 rest).2)

end SseDecoder

-- What a stream cut into these pieces is decoded to, its end included.
def decodeStream (pieces : List Bytes) : List SseEvent :=
  let (events,s) := SseDecoder.new.pushAll pieces
  events ++ s.finish.1

-- The frames of a buffer, by the reader that takes one off its front.
def nextFrame : Reader UInt8 Bytes := fun buffer =>
  (findFrameEnd buffer).map fun ends => (buffer.take ends.1,buffer.drop ends.2)

theorem frameEndHere_bound (found : frameEndHere bytes = some n) : 2 ≤ n ∧ n ≤ bytes.length := by
  match bytes with
  | [] => cases found
  | [a] => simp [frameEndHere] at found
  | [a,b] =>
    simp [frameEndHere] at found ⊢
    grind
  | [a,b,c] =>
    simp [frameEndHere] at found ⊢
    grind
  | a :: b :: c :: d :: rest =>
    simp [frameEndHere] at found ⊢
    grind

-- A frame end does not depend on what is behind it.
theorem frameEndHere_ahead (found : frameEndHere bytes = some n) (more : Bytes) : frameEndHere (bytes++more) = some n := by
  match bytes with
  | [] => cases found
  | [a] => simp [frameEndHere] at found
  | [a,b] =>
    simp [frameEndHere] at found ⊢
    grind
  | [a,b,c] =>
    simp [frameEndHere] at found ⊢
    grind
  | a :: b :: c :: d :: rest => simpa [frameEndHere] using found

-- One that needs more than has arrived is the first: none starts behind it.
theorem frameEndHere_late (unfound : frameEndHere bytes = none) (found : frameEndHere (bytes++more) = some n) (i : Nat) :
    findFrameEndFrom i bytes.tail = none := by
  match bytes with
  | [] => rfl
  | [a] => rfl
  | [a,b] =>
    simp [findFrameEndFrom,frameEndHere]
  | [a,b,c] =>
    simp [frameEndHere] at found unfound
    simp [findFrameEndFrom,frameEndHere]
    grind
  | a :: b :: c :: d :: rest => simp_all [frameEndHere]

theorem findFrameEndFrom_bound (found : findFrameEndFrom i bytes = some (e,n)) : i ≤ e ∧ e+2 ≤ n ∧ n ≤ i + bytes.length := by
  induction bytes generalizing i with
  | nil => cases found
  | cons b rest ih =>
    simp only [findFrameEndFrom] at found
    cases here : frameEndHere (b::rest) with
    | some m =>
      rw [here] at found
      cases found
      have bound := frameEndHere_bound here
      simp only [List.length_cons] at bound ⊢
      omega
    | none =>
      rw [here] at found
      have bound := ih found
      simp only [List.length_cons]
      omega

theorem findFrameEndFrom_ahead (found : findFrameEndFrom i bytes = some ends) (more : Bytes) :
    findFrameEndFrom i (bytes++more) = some ends := by
  induction bytes generalizing i with
  | nil => cases found
  | cons b rest ih =>
    simp only [findFrameEndFrom] at found
    cases here : frameEndHere (b::rest) with
    | some m =>
      rw [here] at found
      have ahead := frameEndHere_ahead here more
      rw [List.cons_append] at ahead ⊢
      simp only [findFrameEndFrom,ahead]
      exact found
    | none =>
      rw [here] at found
      cases late : frameEndHere (b::rest ++ more) with
      | some m => cases (frameEndHere_late here late (i+1)).symm.trans found
      | none =>
        rw [List.cons_append] at late ⊢
        simp only [findFrameEndFrom,late]
        exact ih found

theorem nextFrame_steady : Steady nextFrame where
  shorter := by
    intro xs frame rest taken
    obtain ⟨⟨e,n⟩,found,same⟩ := Option.map_eq_some_iff.mp taken
    cases same
    have bound := findFrameEndFrom_bound found
    rw [List.length_drop]
    omega
  ahead := by
    intro xs frame rest taken ys
    obtain ⟨⟨e,n⟩,found,same⟩ := Option.map_eq_some_iff.mp taken
    cases same
    have bound := findFrameEndFrom_bound found
    have again : findFrameEnd (xs++ys) = some (e,n) := findFrameEndFrom_ahead found ys
    rw [nextFrame,again,Option.map_some,List.take_append_of_le_length (by omega),List.drop_append_of_le_length (by omega)]

-- The events up to the first `[DONE]`, which ends the stream.
def throughDone : List SseEvent → List SseEvent
  | [] => []
  | .done :: _ => [.done]
  | .data payload :: rest => .data payload :: throughDone rest

theorem throughDone_append (a b : List SseEvent) :
    throughDone (a++b) = if .done ∈ a then throughDone a else a ++ throughDone b := by
  induction a with
  | nil => rfl
  | cons event a ih =>
    cases event with
    | done => simp [throughDone]
    | data payload => by_cases inside : SseEvent.done ∈ a <;> simp [throughDone,ih,inside]

theorem throughDone_undone (undone : .done ∉ events) : throughDone events = events := by
  have whole := throughDone_append events []
  rw [if_neg undone,List.append_nil] at whole
  simpa [throughDone] using whole

theorem throughDone_last (split : throughDone events = before ++ .done :: after) : after = [] := by
  induction events generalizing before with
  | nil => simp [throughDone] at split
  | cons event events ih =>
    cases event with
    | done =>
      cases before with
      | nil => simpa [throughDone] using split.symm
      | cons first before => simp [throughDone] at split
    | data payload =>
      cases before with
      | nil => simp [throughDone] at split
      | cons first before =>
        rw [throughDone,List.cons_append,List.cons.injEq] at split
        exact ih split.2

-- The events of a stream of bytes, and the decoder that has read it.
def eventsIn (bytes : Bytes) : List SseEvent := (drain nextFrame bytes).1.filterMap decodeFrame

def decoderAfter (bytes : Bytes) : SseDecoder :=
  if .done ∈ eventsIn bytes then ⟨[],true⟩ else ⟨(drain nextFrame bytes).2,false⟩

theorem eventsIn_nil : eventsIn [] = [] := by rw [eventsIn,drain_none rfl]; rfl

theorem decoderAfter_nil : decoderAfter [] = .new := by
  rw [decoderAfter,eventsIn_nil,drain_none rfl]
  rfl

theorem eventsIn_append (a b : Bytes) : eventsIn (a++b) = eventsIn a ++ eventsIn ((drain nextFrame a).2 ++ b) := by
  rw [eventsIn,drain_append nextFrame_steady]
  exact List.filterMap_append

theorem takeFrames_drain (n : Nat) (buffer : Bytes) (enough : buffer.length ≤ n) :
    SseDecoder.takeFrames n ⟨buffer,false⟩ = (throughDone (eventsIn buffer),decoderAfter buffer) := by
  induction n generalizing buffer with
  | zero =>
    obtain rfl := List.eq_nil_of_length_eq_zero (Nat.le_zero.mp enough)
    rw [eventsIn_nil,decoderAfter_nil]
    rfl
  | succ n ih =>
    cases found : findFrameEnd buffer with
    | none =>
      have needs : nextFrame buffer = none := by rw [nextFrame,found]; rfl
      simp [SseDecoder.takeFrames,found,decoderAfter,eventsIn,drain_none needs,throughDone]
    | some ends =>
      have taken : nextFrame buffer = some (buffer.take ends.1,buffer.drop ends.2) := by rw [nextFrame,found]; rfl
      have shorter := nextFrame_steady.shorter taken
      have later := ih (buffer.drop ends.2) (by omega)
      have split := drain_some nextFrame_steady.shorter taken
      simp only [SseDecoder.takeFrames,found]
      cases frame : decodeFrame (buffer.take ends.1) with
      | none =>
        have same : eventsIn buffer = eventsIn (buffer.drop ends.2) := by simp [eventsIn,split,frame]
        simp only [later,decoderAfter,same,split]
      | some event =>
        have more : eventsIn buffer = event :: eventsIn (buffer.drop ends.2) := by simp [eventsIn,split,frame]
        cases event with
        | done => simp [decoderAfter,more,throughDone]
        | data payload =>
          simp only [later,decoderAfter,more,throughDone,split,List.mem_cons]
          simp

-- One push brings what the bytes add to the events, wherever they were cut.
theorem push_after (a b : Bytes) : ((decoderAfter a).push b).2 = decoderAfter (a++b) ∧
    throughDone (eventsIn a) ++ ((decoderAfter a).push b).1 = throughDone (eventsIn (a++b)) := by
  rw [eventsIn_append,throughDone_append]
  by_cases ended : SseEvent.done ∈ eventsIn a
  · simp [SseDecoder.push,ended,decoderAfter,eventsIn_append a b]
  · have open' : decoderAfter a = ⟨(drain nextFrame a).2,false⟩ := if_neg ended
    have taken := takeFrames_drain ((drain nextFrame a).2 ++ b).length ((drain nextFrame a).2 ++ b) (Nat.le_refl _)
    have pushed : (decoderAfter a).push b = (throughDone (eventsIn ((drain nextFrame a).2 ++ b)),decoderAfter ((drain nextFrame a).2 ++ b)) := by
      rw [open',SseDecoder.push]
      exact taken
    rw [pushed]
    refine ⟨?_,by simp [ended,throughDone_undone ended]⟩
    simp only [decoderAfter,eventsIn_append a b,List.mem_append,ended,false_or,drain_append nextFrame_steady a b]

theorem pushAll_after (a : Bytes) (pieces : List Bytes) :
    ((decoderAfter a).pushAll pieces).2 = decoderAfter (a ++ pieces.flatten) ∧
    throughDone (eventsIn a) ++ ((decoderAfter a).pushAll pieces).1 = throughDone (eventsIn (a ++ pieces.flatten)) := by
  induction pieces generalizing a with
  | nil => simp [SseDecoder.pushAll]
  | cons bytes pieces ih =>
    obtain ⟨state,events⟩ := push_after a bytes
    obtain ⟨last,more⟩ := ih (a++bytes)
    simp only [SseDecoder.pushAll,List.flatten_cons]
    rw [state]
    exact ⟨by rw [last,List.append_assoc],by rw [← List.append_assoc,events,more,List.append_assoc]⟩

-- A stream is decoded to the events of its bytes and, where no `[DONE]` came, to
-- the frame it broke off in.
theorem decodeStream_bytes (pieces : List Bytes) : decodeStream pieces =
    throughDone (eventsIn pieces.flatten) ++
      if .done ∈ eventsIn pieces.flatten then [] else ((decoderAfter pieces.flatten).finish).1 := by
  obtain ⟨state,events⟩ := pushAll_after [] pieces
  rw [decoderAfter_nil,List.nil_append] at state events
  rw [eventsIn_nil,throughDone,List.nil_append] at events
  have whole : decodeStream pieces = (SseDecoder.new.pushAll pieces).1 ++ (SseDecoder.new.pushAll pieces).2.finish.1 := rfl
  rw [whole,events,state]
  split
  · rename_i ended
    rw [decoderAfter,if_pos ended]
    rfl
  · rfl

theorem finish_short (s : SseDecoder) : s.finish.1.length ≤ 1 := by
  unfold SseDecoder.finish
  split
  · exact Nat.zero_le 1
  · cases decodeFrame s.buffer <;> simp

-- However a stream is cut into pieces it is decoded to the same events, and
-- nothing comes after `[DONE]`.
theorem decodeStream_split (pieces : List Bytes) : decodeStream pieces = decodeStream [pieces.flatten] ∧
    ∀ before after, decodeStream pieces = before ++ .done :: after → after = [] := by
  constructor
  · rw [decodeStream_bytes,decodeStream_bytes]
    simp
  · intro before after split
    rw [decodeStream_bytes] at split
    by_cases ended : SseEvent.done ∈ eventsIn pieces.flatten
    · rw [if_pos ended,List.append_nil] at split
      exact throughDone_last split
    · rw [if_neg ended,throughDone_undone ended] at split
      have short := finish_short (decoderAfter pieces.flatten)
      generalize ((decoderAfter pieces.flatten).finish).1 = tail at split short
      rcases List.append_eq_append_iff.mp split with ⟨front,-,rest⟩ | ⟨front,inside,rest⟩
      · have lengths := congrArg List.length rest
        simp only [List.length_append,List.length_cons] at lengths
        exact List.eq_nil_of_length_eq_zero (by omega)
      · cases front with
        | nil =>
          obtain rfl : SseEvent.done :: after = tail := rest
          rw [List.length_cons] at short
          exact List.eq_nil_of_length_eq_zero (by omega)
        | cons first front =>
          obtain ⟨rfl,-⟩ := List.cons.inj rest
          exact (ended (by simp [inside])).elim

end PrincessIDE.Sse
