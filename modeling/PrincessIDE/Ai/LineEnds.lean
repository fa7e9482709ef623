import PrincessIDE.Ai.Sse
import PrincessIDE.Foundation.Marks
import PrincessIDE.Foundation.Trim

namespace PrincessIDE.Sse
open Utf8 Str Drain

-- A line without its end: a field, a comment, or nothing.
structure Line where
  text : Text
  plain : '\n' ∉ text ∧ '\r' ∉ text
deriving DecidableEq

inductive Ending where
  | lf
  | crlf
  | cr
deriving DecidableEq, Repr

def Ending.text : Ending → Text
  | .lf => ['\n']
  | .crlf => ['\r','\n']
  | .cr => ['\r']

def stream (e : Ending) (lines : List Line) : Bytes := encode (lines.flatMap fun line => line.text ++ e.text)

-- The text of a frame, which has no line end behind its last line.
def joined (e : Ending) (frame : List Line) : Text := e.text.intercalate (frame.map Line.text)

-- The first frame of a list of lines: those before a blank line, which can not be the first.
def splitFrame : Reader Line (List Line)
  | [] => none
  | [_] => none
  | line :: next :: rest =>
    if next.text = [] then some ([line],rest)
    else (splitFrame (next :: rest)).map fun found => (line :: found.1,found.2)

-- The frames of a list of lines, with that at its end, whether or not it is finished.
def groups (lines : List Line) : List (List Line) := (drain splitFrame lines).1 ++ [(drain splitFrame lines).2]

def eventOf (data : List Text) : Option SseEvent :=
  if data = [] then none
  else
    let payload := ['\n'].intercalate data
    if trim payload = doneSentinel then some .done else some (.data payload)

-- What the decoder makes of a frame: with carriage returns alone all its lines are one.
def read (e : Ending) (frame : List Line) : Option SseEvent := match e with
  | .cr => eventOf (dataOf (joined .cr frame)).toList
  | _ => eventOf (frame.filterMap fun line => dataOf line.text)

theorem nextFrame_cons (here : frameEndHere (b :: bytes) = none) :
    nextFrame (b :: bytes) = (nextFrame bytes).map fun found => (b :: found.1,found.2) := by
  have shift : ∀ (xs : Bytes) (i : Nat), findFrameEndFrom (i+1) xs = (findFrameEndFrom i xs).map fun ends => (ends.1+1,ends.2+1) := by
    intro xs
    induction xs with
    | nil => exact fun _ => rfl
    | cons x xs ih =>
      intro i
      simp only [findFrameEndFrom]
      cases frameEndHere (x :: xs) with
      | none => exact ih (i+1)
      | some n => simp; omega
  unfold nextFrame findFrameEnd
  rw [findFrameEndFrom,here]
  dsimp only
  rw [shift]
  cases findFrameEndFrom 0 bytes <;> rfl

theorem plain_here (feed : b ≠ lineFeed) (ret : b ≠ carriageReturn) (bytes : Bytes) : frameEndHere (b :: bytes) = none := by
  simp [frameEndHere,feed,ret]

theorem nextFrame_plain (plain : ∀ b ∈ front, b ≠ lineFeed ∧ b ≠ carriageReturn) (bytes : Bytes) :
    nextFrame (front ++ bytes) = (nextFrame bytes).map fun found => (front ++ found.1,found.2) := by
  induction front with
  | nil => simp
  | cons b front ih =>
    have first := plain b List.mem_cons_self
    rw [List.cons_append,nextFrame_cons (plain_here first.1 first.2 _),ih fun x inside => plain x (List.mem_cons_of_mem _ inside),Option.map_map]
    rfl

theorem line_plain (line : Line) : ∀ b ∈ encode line.text, b ≠ lineFeed ∧ b ≠ carriageReturn := by
  intro b inside
  constructor
  · rintro rfl
    exact line.plain.1 (ascii_encode (by decide) inside)
  · rintro rfl
    exact line.plain.2 (ascii_encode (by decide) inside)

theorem stream_cons (e : Ending) (line : Line) (rest : List Line) : stream e (line :: rest) = encode line.text ++ (encode e.text ++ stream e rest) := by
  unfold stream
  rw [List.flatMap_cons,encode_append,encode_append,List.append_assoc]
-- A line end that no blank line follows ends no frame.
theorem nextFrame_end (e : Ending) (apart : ∀ b ∈ bytes.head?, b ≠ lineFeed ∧ b ≠ carriageReturn) :
    nextFrame (encode e.text ++ bytes) = (nextFrame bytes).map fun found => (encode e.text ++ found.1,found.2) := by
  have feed : bytes[0]? ≠ some lineFeed := fun first => (apart lineFeed (by rw [List.head?_eq_getElem?]; exact first)).1 rfl
  have ret : bytes[0]? ≠ some carriageReturn := fun first => (apart carriageReturn (by rw [List.head?_eq_getElem?]; exact first)).2 rfl
  have here : frameEndHere (lineFeed :: bytes) = none := by simp [frameEndHere,feed,ret]
  cases e with
  | lf =>
    change nextFrame (lineFeed :: bytes) = _
    rw [nextFrame_cons here]
    rfl
  | crlf =>
    have both : frameEndHere (carriageReturn :: lineFeed :: bytes) = none := by
      simp only [frameEndHere,List.getElem?_cons_zero,List.getElem?_cons_succ]
      rw [if_neg (by decide),if_pos trivial,if_neg (fun both => ret both.2),if_neg (by decide)]
    change nextFrame (carriageReturn :: lineFeed :: bytes) = _
    rw [nextFrame_cons both,nextFrame_cons here,Option.map_map]
    rfl
  | cr =>
    have alone : frameEndHere (carriageReturn :: bytes) = none := by
      simp only [frameEndHere]
      rw [if_neg (by decide),if_pos trivial,if_neg (fun both => feed both.1),if_neg ret]
    change nextFrame (carriageReturn :: bytes) = _
    rw [nextFrame_cons alone]
    rfl

theorem nextFrame_blank (e : Ending) (bytes : Bytes) : nextFrame (encode e.text ++ (encode e.text ++ bytes)) = some ([],bytes) := by
  cases e <;> rfl

theorem stream_apart (e : Ending) (solid : line.text ≠ []) (rest : List Line) :
    ∀ b ∈ (stream e (line :: rest)).head?, b ≠ lineFeed ∧ b ≠ carriageReturn := by
  intro b first
  refine line_plain line b ?_
  rw [stream_cons] at first
  cases encoded : encode line.text with
  | nil =>
    have empty := lossy_encode line.text
    rw [encoded] at empty
    exact absurd empty.symm solid
  | cons x xs =>
    rw [encoded] at first
    cases first
    exact List.mem_cons_self

theorem joined_cons (e : Ending) (line next : Line) (rest : List Line) :
    joined e (line :: next :: rest) = line.text ++ (e.text ++ joined e (next :: rest)) := by
  simp [joined,List.intercalate]

-- A frame begins with the first line, and no line behind it is blank.
def Framed (frame : List Line) : Prop := ∀ line ∈ frame.tail, line.text ≠ []

theorem splitFrame_some {lines : List Line} (taken : splitFrame lines = some (frame,rest)) :
    ∃ blank : Line, blank.text = [] ∧ lines = frame ++ blank :: rest ∧ (∃ line more, frame = line :: more) ∧ Framed frame := by
  fun_induction splitFrame lines generalizing frame with
  | case1 => cases taken
  | case2 => cases taken
  | case3 line next rest blank =>
    cases taken
    exact ⟨next,blank,rfl,⟨line,[],rfl⟩,fun _ none => absurd none List.not_mem_nil⟩
  | case4 line next rest solid ih =>
    obtain ⟨⟨first,later⟩,found,same⟩ := Option.map_eq_some_iff.mp taken
    cases same
    obtain ⟨blank,empty,whole,⟨head,more,rfl⟩,framed⟩ := ih found
    obtain ⟨rfl,_⟩ := List.cons.inj whole
    refine ⟨blank,empty,by rw [List.cons_append,← whole],⟨line,_,rfl⟩,fun x inside => ?_⟩
    rcases List.mem_cons.mp inside with rfl | inside
    · exact solid
    · exact framed x inside

-- The frames of the bytes are those of the lines, whatever the lines end in.
theorem nextFrame_stream (e : Ending) (lines : List Line) :
    nextFrame (stream e lines) = (splitFrame lines).map fun found => (encode (joined e found.1),stream e found.2) := by
  fun_induction splitFrame lines with
  | case1 => rfl
  | case2 line =>
    rw [stream_cons,nextFrame_plain (line_plain line),nextFrame_end e (by simp [stream,encode])]
    rfl
  | case3 line next rest blank =>
    have empty : stream e (next :: rest) = encode e.text ++ stream e rest := by rw [stream_cons,blank]; rfl
    rw [stream_cons,empty,nextFrame_plain (line_plain line),nextFrame_blank]
    simp [joined,List.intercalate]
  | case4 line next rest solid ih =>
    rw [stream_cons,nextFrame_plain (line_plain line),nextFrame_end e (stream_apart e solid rest),ih]
    cases found : splitFrame (next :: rest) with
    | none => rfl
    | some parts =>
      obtain ⟨frame,later⟩ := parts
      obtain ⟨_,_,_,⟨head,more,rfl⟩,_⟩ := splitFrame_some found
      simp only [Option.map_some,joined_cons,encode_append]

theorem splitFrame_shortens : Shortens splitFrame := by
  intro lines frame rest taken
  obtain ⟨_,_,rfl,_,_⟩ := splitFrame_some taken
  simp only [List.length_append,List.length_cons]
  omega

theorem splitFrame_ahead {lines : List Line} (taken : splitFrame lines = some (frame,rest)) (more : List Line) :
    splitFrame (lines ++ more) = some (frame,rest ++ more) := by
  fun_induction splitFrame lines generalizing frame with
  | case1 => cases taken
  | case2 => cases taken
  | case3 line next rest blank =>
    cases taken
    exact if_pos blank
  | case4 line next rest solid ih =>
    obtain ⟨⟨first,later⟩,found,same⟩ := Option.map_eq_some_iff.mp taken
    cases same
    have ahead := ih found
    rw [List.cons_append] at ahead
    rw [List.cons_append,List.cons_append,splitFrame,if_neg solid,ahead]
    rfl

-- Every line but the first of what is left is no blank one.
theorem splitFrame_none {lines : List Line} (needs : splitFrame lines = none) : Framed lines := by
  fun_induction splitFrame lines with
  | case1 => exact fun _ none => absurd none List.not_mem_nil
  | case2 => exact fun _ none => absurd none List.not_mem_nil
  | case3 => cases needs
  | case4 line next rest solid ih =>
    intro x inside
    rcases List.mem_cons.mp inside with rfl | inside
    · exact solid
    · exact ih (Option.map_eq_none_iff.mp needs) x inside

theorem splitFrame_framed (framed : Framed frame) : splitFrame frame = none := by
  fun_induction splitFrame frame with
  | case1 => rfl
  | case2 => rfl
  | case3 line next rest blank => exact absurd blank (framed next List.mem_cons_self)
  | case4 line next rest solid ih =>
    rw [ih fun x inside => framed x (List.mem_cons_of_mem _ inside)]
    rfl
theorem line_last (line : Line) : line.text.getLast? ≠ some '\r' := fun last => line.plain.2 (List.mem_of_getLast? last)

theorem dataOf_ended (line : Line) : dataOf (line.text ++ ['\r']) = dataOf line.text := by
  unfold dataOf
  rw [dropReturn_ended,dropReturn_plain (line_last line)]

theorem joined_last {frame : List Line} (framed : Framed frame) : (joined .cr frame).getLast? ≠ some '\r' := by
  induction frame with
  | nil => simp [joined,List.intercalate]
  | cons line frame ih =>
    cases frame with
    | nil => simpa [joined,List.intercalate] using line_last line
    | cons next frame =>
      have solid : next.text ≠ [] := framed next List.mem_cons_self
      have later := ih fun x inside => framed x (List.mem_cons_of_mem _ inside)
      have some : joined .cr (next :: frame) ≠ [] := by
        cases frame with
        | nil => simpa [joined,List.intercalate] using solid
        | cons => simp [joined_cons,solid]
      obtain ⟨front,c,split⟩ := (List.eq_nil_or_concat' (joined .cr (next :: frame))).resolve_left some
      rw [joined_cons]
      rw [split] at later ⊢
      simpa using later

-- Both with and without a line end behind the last line.
theorem data_lf (line : Line) (rest : List Line) (more : List Text) (ended : more.filterMap dataOf = []) :
    ((split ['\n'] (joined .lf (line :: rest))) ++ more).filterMap dataOf = (line :: rest).filterMap fun line => dataOf line.text := by
  induction rest generalizing line with
  | nil =>
    have whole : joined .lf [line] = line.text := by simp [joined,List.intercalate]
    rw [whole,split_absent line.plain.1 (List.mem_singleton.mpr rfl),List.filterMap_append,ended]
    simp [List.filterMap]
  | cons next rest ih =>
    have cut : split ['\n'] (joined .lf (line :: next :: rest)) = line.text :: split ['\n'] (joined .lf (next :: rest)) := by
      rw [joined_cons]
      exact split_char line.plain.1 _
    rw [cut,List.cons_append,List.filterMap_cons,ih next]
    rfl

theorem data_crlf (line : Line) (rest : List Line) (tail : Text) (ended : tail = [] ∨ tail = ['\r','\n']) :
    (split ['\n'] (joined .crlf (line :: rest) ++ tail)).filterMap dataOf = (line :: rest).filterMap fun line => dataOf line.text := by
  have apart : ∀ line : Line, '\n' ∉ line.text ++ ['\r'] := fun line inside => (List.mem_append.mp inside).elim line.plain.1 (by decide)
  induction rest generalizing line with
  | nil =>
    have whole : joined .crlf [line] = line.text := by simp [joined,List.intercalate]
    rw [whole]
    rcases ended with rfl | rfl
    · rw [List.append_nil,split_absent line.plain.1 (List.mem_singleton.mpr rfl)]
      rfl
    · have cut := split_char (apart line) []
      rw [List.append_assoc,List.singleton_append] at cut
      rw [cut,List.filterMap_cons,dataOf_ended]
      rfl
  | cons next rest ih =>
    have cut := split_char (apart line) (joined .crlf (next :: rest) ++ tail)
    have whole : joined .crlf (line :: next :: rest) ++ tail = line.text ++ ['\r'] ++ '\n' :: (joined .crlf (next :: rest) ++ tail) := by
      rw [joined_cons]
      simp [Ending.text]
    rw [whole,cut,List.filterMap_cons,ih next,dataOf_ended]
    rfl

theorem joined_feedless (frame : List Line) : '\n' ∉ joined .cr frame := by
  induction frame with
  | nil => simp [joined,List.intercalate]
  | cons line frame ih =>
    cases frame with
    | nil => simpa [joined,List.intercalate] using line.plain.1
    | cons next frame =>
      rw [joined_cons]
      simp [Ending.text,line.plain.1,ih]

theorem data_one (t : Text) : [t].filterMap dataOf = (dataOf t).toList := by
  cases found : dataOf t <;> simp [found]

theorem decode_lines (bytes : Text) : decodeFrame (encode bytes) = eventOf ((split ['\n'] bytes).filterMap dataOf) := by
  unfold decodeFrame
  rw [lossy_encode]
  rfl

theorem decode_joined (e : Ending) (frame : List Line) : decodeFrame (encode (joined e frame)) = read e frame := by
  rw [decode_lines]
  cases e with
  | cr =>
    rw [split_absent (joined_feedless _) (List.mem_singleton.mpr rfl),data_one]
    rfl
  | lf =>
    cases frame with
    | nil => rfl
    | cons line rest =>
      have data := data_lf line rest [] rfl
      rw [List.append_nil] at data
      rw [data]
      rfl
  | crlf =>
    cases frame with
    | nil => rfl
    | cons line rest =>
      have data := data_crlf line rest [] (.inl rfl)
      rw [List.append_nil] at data
      rw [data]
      rfl

theorem stream_joined (e : Ending) (line : Line) (rest : List Line) : stream e (line :: rest) = encode (joined e (line :: rest) ++ e.text) := by
  induction rest generalizing line with
  | nil => simp [stream,joined,List.intercalate]
  | cons next rest ih =>
    rw [stream_cons,ih next,joined_cons]
    simp only [encode_append,List.append_assoc]

theorem decode_rest (e : Ending) (line : Line) (rest : List Line) (framed : Framed (line :: rest)) :
    decodeFrame (stream e (line :: rest)) = read e (line :: rest) := by
  rw [stream_joined,decode_lines]
  cases e with
  | lf =>
    have data := data_lf line rest [[]] rfl
    change eventOf ((split ['\n'] (joined .lf (line :: rest) ++ ['\n'])).filterMap dataOf) = _
    rw [split_ended,data]
    rfl
  | crlf =>
    have data := data_crlf line rest ['\r','\n'] (.inr rfl)
    change eventOf ((split ['\n'] (joined .crlf (line :: rest) ++ ['\r','\n'])).filterMap dataOf) = _
    rw [data]
    rfl
  | cr =>
    have feedless : '\n' ∉ joined .cr (line :: rest) ++ ['\r'] := fun inside => (List.mem_append.mp inside).elim (joined_feedless _) (by decide)
    have same : dataOf (joined .cr (line :: rest) ++ ['\r']) = dataOf (joined .cr (line :: rest)) := by
      unfold dataOf
      rw [dropReturn_ended,dropReturn_plain (joined_last framed)]
    change eventOf ((split ['\n'] (joined .cr (line :: rest) ++ ['\r'])).filterMap dataOf) = _
    rw [split_absent feedless (List.mem_singleton.mpr rfl),data_one,same]
    rfl

theorem groups_some {lines : List Line} (taken : splitFrame lines = some (frame,rest)) : groups lines = frame :: groups rest := by
  unfold groups
  rw [drain_some splitFrame_shortens taken]
  rfl

theorem groups_none {lines : List Line} (needs : splitFrame lines = none) : groups lines = [lines] := by
  unfold groups
  rw [drain_none needs]
  rfl

-- The first frame of the lines is all of them, or one that was taken.
theorem groups_split {lines : List Line} (split : groups lines = frame :: after) : (splitFrame lines = none ∧ frame = lines ∧ after = []) ∨
    ∃ rest, splitFrame lines = some (frame,rest) ∧ after = groups rest := by
  cases taken : splitFrame lines with
  | none =>
    rw [groups_none taken] at split
    cases split
    exact .inl ⟨rfl,rfl,rfl⟩
  | some parts =>
    obtain ⟨first,rest⟩ := parts
    rw [groups_some taken] at split
    cases split
    exact .inr ⟨rest,rfl,rfl⟩

theorem groups_framed (lines : List Line) : ∀ frame ∈ groups lines, Framed frame := by
  induction size : lines.length using Nat.strongRecOn generalizing lines with
  | _ size ih =>
    subst size
    cases taken : splitFrame lines with
    | none =>
      rw [groups_none taken]
      intro frame inside
      rw [List.mem_singleton.mp inside]
      exact splitFrame_none taken
    | some parts =>
      obtain ⟨first,rest⟩ := parts
      rw [groups_some taken]
      intro frame inside
      rcases List.mem_cons.mp inside with rfl | later
      · obtain ⟨_,_,_,_,framed⟩ := splitFrame_some taken
        exact framed
      · exact ih rest.length (splitFrame_shortens taken) rest rfl frame later

theorem read_nil (e : Ending) : read e [] = none := by
  cases e <;> rfl

theorem throughDone_option (event : Option SseEvent) : throughDone event.toList = event.toList := by
  cases event with
  | none => rfl
  | some event => cases event <;> rfl

theorem finish_rest (e : Ending) {rest : List Line} (framed : Framed rest) (ended : Bool) :
    (SseDecoder.finish ⟨stream e rest,ended⟩).1 = (read e rest).toList := by
  cases rest with
  | nil =>
    rw [read_nil]
    rfl
  | cons line rest =>
    have some : stream e (line :: rest) ≠ [] := by
      rw [stream_cons]
      cases e <;> simp [Ending.text,encode]
    unfold SseDecoder.finish
    dsimp only
    rw [if_neg some,decode_rest e line rest framed]

-- A stream of lines is decoded frame by frame, whatever the lines end in.
theorem decodeStream_groups (e : Ending) (lines : List Line) : decodeStream [stream e lines] = throughDone ((groups lines).filterMap (read e)) := by
  have frames : drain nextFrame (stream e lines) =
      ((drain splitFrame lines).1.map fun frame => encode (joined e frame),stream e (drain splitFrame lines).2) :=
    drain_through splitFrame_shortens (fun taken => nextFrame_steady.shorter taken) (nextFrame_stream e) lines
  have events : eventsIn (stream e lines) = (drain splitFrame lines).1.filterMap (read e) := by
    rw [eventsIn,frames,List.filterMap_map]
    exact List.filterMap_congr fun frame _ => decode_joined e frame
  have framed : Framed (drain splitFrame lines).2 := groups_framed lines _ (by simp [groups])
  have last : [(drain splitFrame lines).2].filterMap (read e) = (read e (drain splitFrame lines).2).toList := by
    cases found : read e (drain splitFrame lines).2 <;> simp [found]
  rw [decodeStream_bytes,List.flatten_singleton,groups,List.filterMap_append,throughDone_append,decoderAfter,frames,← events,last,throughDone_option]
  by_cases ended : SseEvent.done ∈ eventsIn (stream e lines)
  · simp [ended]
  · simp only [if_neg ended]
    rw [throughDone_undone ended,finish_rest e framed false]
-- One line, or no payload, or a `[DONE]` that nothing but blanks follows.
def Mergeable (frame : List Line) : Prop :=
  frame.length ≤ 1 ∨ (∀ line ∈ frame, dataOf line.text = none) ∨
  ∃ line rest payload, frame = line :: rest ∧ dataOf line.text = some payload ∧ trim payload = doneSentinel ∧
    ∀ other ∈ rest, ∀ c ∈ other.text, isWhitespace c = true

def fieldValue (rest : Text) : Text := (stripPrefix [' '] rest).getD rest

theorem dataOf_eq {t : Text} (last : t.getLast? ≠ some '\r') : dataOf t = (stripPrefix "data:".toList t).map fieldValue := by
  unfold dataOf
  rw [dropReturn_plain last]
  dsimp only
  split
  · next other =>
    rcases other with rfl | comment
    · rfl
    · obtain ⟨rest,found⟩ := Option.isSome_iff_exists.mp comment
      rw [stripPrefix_eq found]
      rfl
  · rfl

theorem line_data (line : Line) : dataOf line.text = (stripPrefix "data:".toList line.text).map fieldValue := dataOf_eq (line_last line)

-- A payload is the rest of its line.
theorem data_within (line : Line) (found : dataOf line.text = some payload) : 'd' ∈ line.text ∧ ∀ c ∈ payload, c ∈ line.text := by
  rw [line_data] at found
  obtain ⟨rest,stripped,rfl⟩ := Option.map_eq_some_iff.mp found
  rw [stripPrefix_eq stripped]
  refine ⟨List.mem_append_left _ List.mem_cons_self,fun c inside => List.mem_append_right _ ?_⟩
  unfold fieldValue at inside
  cases here : stripPrefix [' '] rest with
  | none =>
    rw [here] at inside
    exact inside
  | some value =>
    rw [here] at inside
    rw [stripPrefix_eq here]
    exact List.mem_append_right _ inside

theorem data_joined (line next : Line) (rest : List Line) (framed : Framed (line :: next :: rest)) :
    dataOf (joined .cr (line :: next :: rest)) = (dataOf line.text).map fun payload => payload ++ '\r' :: joined .cr (next :: rest) := by
  have last := joined_last framed
  have whole : joined .cr (line :: next :: rest) = line.text ++ '\r' :: joined .cr (next :: rest) := joined_cons .cr line next rest
  rw [dataOf_eq last,line_data,whole,stripPrefix_before (by decide),Option.map_map,Option.map_map]
  congr 1
  funext rest'
  simp only [Function.comp_apply,fieldValue]
  rw [stripPrefix_before (by decide)]
  cases stripPrefix [' '] rest' <;> rfl

theorem joined_member {frame : List Line} (inside : c ∈ joined .cr frame) : c = '\r' ∨ ∃ line ∈ frame, c ∈ line.text := by
  induction frame with
  | nil => simp [joined,List.intercalate] at inside
  | cons line frame ih =>
    cases frame with
    | nil => exact .inr ⟨line,List.mem_cons_self,by simpa [joined,List.intercalate] using inside⟩
    | cons next frame =>
      rw [joined_cons] at inside
      rcases List.mem_append.mp inside with own | rest
      · exact .inr ⟨line,List.mem_cons_self,own⟩
      · rcases List.mem_cons.mp rest with same | later
        · exact .inl same
        · exact (ih later).imp_right fun ⟨other,listed,within⟩ => ⟨other,List.mem_cons_of_mem _ listed,within⟩

theorem member_joined {frame : List Line} (listed : line ∈ frame) (inside : c ∈ line.text) : c ∈ joined .cr frame := by
  induction frame with
  | nil => cases listed
  | cons first frame ih =>
    cases frame with
    | nil =>
      rw [List.mem_singleton.mp listed] at inside
      simpa [joined,List.intercalate] using inside
    | cons next frame =>
      rw [joined_cons]
      rcases List.mem_cons.mp listed with rfl | later
      · exact List.mem_append_left _ inside
      · exact List.mem_append_right _ (List.mem_cons_of_mem _ (ih later))

theorem eventOf_cons (payload : Text) (more : List Text) : eventOf (payload :: more) =
    some (if trim (['\n'].intercalate (payload :: more)) = doneSentinel then .done else .data (['\n'].intercalate (payload :: more))) := by
  unfold eventOf
  rw [if_neg (List.cons_ne_nil _ _)]
  dsimp only
  split <;> rfl

theorem intercalate_one (t : Text) : ['\n'].intercalate [t] = t := by simp [List.intercalate]
-- No payload has a carriage return, so a payload that does is of no frame with other line ends.
theorem payloads_plain (frame : List Line) : '\r' ∉ ['\n'].intercalate (frame.filterMap fun line => dataOf line.text) := by
  intro inside
  have member : ∀ parts : List Text, '\r' ∈ ['\n'].intercalate parts → ∃ part ∈ parts, '\r' ∈ part := by
    intro parts
    induction parts with
    | nil => simp [List.intercalate]
    | cons part parts ih =>
      cases parts with
      | nil => intro inside; exact ⟨part,List.mem_cons_self,by simpa [List.intercalate] using inside⟩
      | cons next parts =>
        intro inside
        have whole : ['\n'].intercalate (part :: next :: parts) = part ++ '\n' :: ['\n'].intercalate (next :: parts) := by simp [List.intercalate]
        rw [whole] at inside
        rcases List.mem_append.mp inside with own | rest
        · exact ⟨part,List.mem_cons_self,own⟩
        · rcases List.mem_cons.mp rest with same | later
          · exact absurd same (by decide)
          · obtain ⟨other,listed,within⟩ := ih later
            exact ⟨other,List.mem_cons_of_mem _ listed,within⟩
  obtain ⟨payload,listed,within⟩ := member _ inside
  obtain ⟨line,_,found⟩ := List.mem_filterMap.mp listed
  exact line.plain.2 ((data_within line found).2 _ within)

theorem solids_done : solids doneSentinel = doneSentinel := by decide

-- Where `[DONE]` is read from lines run together, only its own has a payload and only
-- blanks follow.
theorem done_alone (next : Line) (rest : List Line) (done : trim (payload ++ '\r' :: joined .cr (next :: rest)) = doneSentinel) :
    (next :: rest).filterMap (fun line => dataOf line.text) = [] ∧
      (trim payload = doneSentinel → ∀ other ∈ next :: rest, ∀ c ∈ other.text, isWhitespace c = true) := by
  have solid : solids payload ++ solids ('\r' :: joined .cr (next :: rest)) = doneSentinel := by
    rw [← solids_append,← solids_trim,done,solids_done]
  constructor
  · refine List.filterMap_eq_nil_iff.mpr fun other listed => ?_
    cases found : dataOf other.text with
    | none => rfl
    | some value =>
      have inside : 'd' ∈ solids ('\r' :: joined .cr (next :: rest)) :=
        List.mem_filter.mpr ⟨List.mem_cons_of_mem _ (member_joined listed (data_within other found).1),by decide⟩
      have within : 'd' ∈ doneSentinel := solid ▸ List.mem_append_right _ inside
      exact absurd within (by decide)
  · intro own other listed c inside
    have none : solids ('\r' :: joined .cr (next :: rest)) = [] := by
      rw [← solids_trim payload,own,solids_done] at solid
      exact List.append_right_eq_self.mp solid
    exact solids_nil.mp none c (List.mem_cons_of_mem _ (member_joined listed inside))

theorem merge_iff {frame : List Line} (framed : Framed frame) : read .cr frame = read .lf frame ↔ Mergeable frame := by
  match frame with
  | [] => exact iff_of_true rfl (.inl (Nat.zero_le 1))
  | [line] =>
    refine iff_of_true ?_ (.inl (Nat.le_refl 1))
    have whole : joined .cr [line] = line.text := by simp [joined,List.intercalate]
    unfold read
    dsimp only
    rw [whole]
    cases found : dataOf line.text <;> simp [found]
  | line :: next :: rest =>
    have long : ¬ (line :: next :: rest).length ≤ 1 := by simp
    have merged : read .cr (line :: next :: rest) = eventOf ((dataOf line.text).map fun payload => payload ++ '\r' :: joined .cr (next :: rest)).toList := by
      rw [← data_joined line next rest framed]
      rfl
    rw [merged]
    cases found : dataOf line.text with
    | none =>
      have apart : read .lf (line :: next :: rest) = eventOf ((next :: rest).filterMap fun line => dataOf line.text) := by
        unfold read
        rw [List.filterMap_cons,found]
      rw [apart]
      cases data : (next :: rest).filterMap fun line => dataOf line.text with
      | nil =>
        refine iff_of_true rfl (.inr (.inl fun other listed => ?_))
        rcases List.mem_cons.mp listed with rfl | later
        · exact found
        · exact List.filterMap_eq_nil_iff.mp data other later
      | cons payload more =>
        rw [eventOf_cons]
        refine iff_of_false (by simp [eventOf]) ?_
        rintro (short | none | ⟨first,others,own,same,here,_⟩)
        · exact long short
        · rw [List.filterMap_eq_nil_iff.mpr fun other listed => none other (List.mem_cons_of_mem _ listed)] at data
          cases data
        · cases same
          rw [found] at here
          cases here
    | some payload =>
      have apart : read .lf (line :: next :: rest) = eventOf (payload :: (next :: rest).filterMap fun line => dataOf line.text) := by
        unfold read
        rw [List.filterMap_cons,found]
      have plain := payloads_plain (line :: next :: rest)
      rw [List.filterMap_cons,found] at plain
      dsimp only at plain
      rw [apart,Option.map_some,Option.toList_some,eventOf_cons,eventOf_cons,intercalate_one]
      constructor
      · intro same
        have equal := Option.some.inj same
        by_cases done : trim (payload ++ '\r' :: joined .cr (next :: rest)) = doneSentinel
        · obtain ⟨alone,blank⟩ := done_alone next rest done
          rw [if_pos done,alone,intercalate_one] at equal
          by_cases own : trim payload = doneSentinel
          · exact .inr (.inr ⟨line,next :: rest,payload,rfl,found,own,blank own⟩)
          · rw [if_neg own] at equal
            cases equal
        · rw [if_neg done] at equal
          split at equal
          · cases equal
          · exact absurd (SseEvent.data.inj equal ▸ List.mem_append_right _ List.mem_cons_self) plain
      · rintro (short | none | ⟨first,others,own,same,here,done,blank⟩)
        · exact absurd short long
        · rw [none line List.mem_cons_self] at found
          cases found
        · cases same
          rw [found] at here
          cases here
          have alone : ((next :: rest).filterMap fun line => dataOf line.text) = [] := List.filterMap_eq_nil_iff.mpr fun other listed => by
            cases data : dataOf other.text with
            | none => rfl
            | some value => exact absurd (blank other listed 'd' (data_within other data).1) (by decide)
          have white : ∀ c ∈ '\r' :: joined .cr (next :: rest), isWhitespace c = true := by
            intro c inside
            rcases List.mem_cons.mp inside with rfl | later
            · decide
            · rcases joined_member later with rfl | ⟨other,listed,within⟩
              · decide
              · exact blank other listed c within
          rw [alone,intercalate_one,if_pos done,if_pos ((trim_append white payload).trans done)]

-- The lines of a stream give the same events with all three ends, as far as they have come.
def SameEvents (lines : List Line) : Prop :=
  ∀ n e, decodeStream [stream e (lines.take n)] = decodeStream [stream .lf (lines.take n)]

-- Every frame up to the first `[DONE]` reads the same with its lines run together.
def Readable (lines : List Line) : Prop :=
  ∀ before frame after, groups lines = before ++ frame :: after → (∀ earlier ∈ before, read .lf earlier ≠ some .done) → Mergeable frame

theorem Mergeable.begun (mergeable : Mergeable frame) (front : shorter <+: frame) : Mergeable shorter := by
  rcases mergeable with one | none | ⟨line,rest,payload,rfl,found,done,blank⟩
  · exact .inl (Nat.le_trans front.length_le one)
  · exact .inr (.inl fun line inside => none line (front.subset inside))
  · cases shorter with
    | nil => exact .inl (Nat.zero_le 1)
    | cons first shorter =>
      obtain ⟨rfl,within⟩ := List.cons_prefix_cons.mp front
      exact .inr (.inr ⟨first,shorter,payload,rfl,found,done,fun other listed => blank other (within.subset listed)⟩)

-- Two readings that agree up to the first `[DONE]` give the same events.
theorem throughDone_agree {f g : α → Option SseEvent} (xs : List α)
    (agree : ∀ before x after, xs = before ++ x :: after → (∀ y ∈ before, g y ≠ some .done) → f x = g x) :
    throughDone (xs.filterMap f) = throughDone (xs.filterMap g) := by
  induction xs with
  | nil => rfl
  | cons x xs ih =>
    have first := agree [] x xs rfl (fun _ none => absurd none List.not_mem_nil)
    by_cases done : g x = some .done
    · rw [List.filterMap_cons,List.filterMap_cons,first,done]
      rfl
    · have later := ih fun before y after whole quiet => agree (x :: before) y after (by rw [whole]; rfl) fun z inside =>
        (List.mem_cons.mp inside).elim (fun same => same ▸ done) (quiet z)
      rw [List.filterMap_cons,List.filterMap_cons,first]
      cases found : g x with
      | none => exact later
      | some event =>
        cases event with
        | done => exact absurd found done
        | data payload => exact congrArg (SseEvent.data payload :: ·) later
theorem splitFrame_closed (framed : Framed frame) (some : frame ≠ []) (empty : blank.text = []) (rest : List Line) :
    splitFrame (frame ++ blank :: rest) = .some (frame,rest) := by
  induction frame with
  | nil => exact absurd rfl some
  | cons line frame ih =>
    cases frame with
    | nil => exact if_pos empty
    | cons next frame =>
      have later := ih (fun x inside => framed x (List.mem_cons_of_mem _ inside)) (List.cons_ne_nil _ _)
      rw [List.cons_append] at later
      rw [List.cons_append,List.cons_append,splitFrame,if_neg (framed next List.mem_cons_self),later]
      rfl

-- What is left of the lines at one time begins the first of the frames still to come.
theorem groups_ahead {lines : List Line} (needs : splitFrame lines = none) (more : List Line) :
    ∃ frame after, groups (lines ++ more) = frame :: after ∧ lines <+: frame := by
  cases taken : splitFrame (lines ++ more) with
  | none => exact ⟨_,[],groups_none taken,List.prefix_append lines more⟩
  | some parts =>
    obtain ⟨frame,rest⟩ := parts
    refine ⟨frame,_,groups_some taken,?_⟩
    obtain ⟨blank,empty,whole,⟨line,others,rfl⟩,_⟩ := splitFrame_some taken
    rcases List.append_eq_append_iff.mp whole with ⟨x,cut,_⟩ | ⟨x,cut,rest'⟩
    · exact ⟨x,cut.symm⟩
    · cases x with
      | nil => exact ⟨[],by rw [cut]; simp⟩
      | cons y x =>
        -- the blank line behind the frame is one of the lines, and not the first
        obtain ⟨rfl,_⟩ := List.cons.inj rest'
        have inside : blank ∈ lines.tail := by rw [cut]; simp
        exact absurd empty (splitFrame_none needs blank inside)

theorem groups_append (lines more : List Line) (split : groups lines = before ++ frame :: after) :
    ∃ whole later, groups (lines ++ more) = before ++ whole :: later ∧ frame <+: whole := by
  induction before generalizing lines with
  | nil =>
    rcases groups_split split with ⟨needs,rfl,_⟩ | ⟨rest,taken,_⟩
    · exact groups_ahead needs more
    · exact ⟨frame,_,groups_some (splitFrame_ahead taken more),List.prefix_refl _⟩
  | cons first before ih =>
    rcases groups_split split with ⟨_,_,none⟩ | ⟨rest,taken,below⟩
    · exact absurd none (by simp)
    · obtain ⟨whole,later,found,front⟩ := ih rest below.symm
      refine ⟨whole,later,?_,front⟩
      rw [groups_some (splitFrame_ahead taken more),found]
      rfl

-- Up to the end of any frame the lines are a stream with that frame as its last.
theorem groups_reach {lines : List Line} (split : groups lines = before ++ frame :: after) : ∃ n, groups (lines.take n) = before ++ [frame] := by
  induction before generalizing lines with
  | nil =>
    rcases groups_split split with ⟨needs,rfl,_⟩ | ⟨rest,taken,_⟩
    · exact ⟨frame.length,by rw [List.take_length,groups_none needs]; rfl⟩
    · obtain ⟨blank,_,rfl,_,framed⟩ := splitFrame_some taken
      refine ⟨frame.length,?_⟩
      rw [List.take_left,groups_none (splitFrame_framed framed)]
      rfl
  | cons first before ih =>
    rcases groups_split split with ⟨_,_,none⟩ | ⟨rest,taken,below⟩
    · exact absurd none (by simp)
    · obtain ⟨n,reached⟩ := ih below.symm
      obtain ⟨blank,empty,rfl,⟨line,more,rfl⟩,framed⟩ := splitFrame_some taken
      have short := splitFrame_closed framed (List.cons_ne_nil _ _) empty (rest.take n)
      refine ⟨(line :: more).length + (n+1),?_⟩
      rw [List.take_length_add_append,List.take_succ_cons,groups_some short,reached]
      rfl

theorem same_events_iff (lines : List Line) : SameEvents lines ↔ Readable lines := by
  have last : ∀ e frame, [frame].filterMap (read e) = (read e frame).toList := by
    intro e frame
    cases found : read e frame <;> simp [found]
  constructor
  · intro same before
    -- by the number of frames before it: those are readable already
    induction size : before.length using Nat.strongRecOn generalizing before with
    | _ size ih =>
      subst size
      intro frame after split quiet
      have agree : ∀ earlier ∈ before, read .cr earlier = read .lf earlier := by
        intro earlier inside
        obtain ⟨front,back,rfl⟩ := List.append_of_mem inside
        have whole : groups lines = front ++ earlier :: (back ++ frame :: after) := by rw [split]; simp
        have merged := ih front.length (by simp) front rfl earlier _ whole fun x listed => quiet x (List.mem_append_left _ listed)
        exact (merge_iff (groups_framed lines earlier (by rw [whole]; simp))).mpr merged
      obtain ⟨n,reached⟩ := groups_reach split
      have equal := same n .cr
      rw [decodeStream_groups,decodeStream_groups,reached,List.filterMap_append,List.filterMap_append,last,last,List.filterMap_congr agree] at equal
      have undone : SseEvent.done ∉ before.filterMap (read .lf) := by
        intro inside
        obtain ⟨earlier,listed,done⟩ := List.mem_filterMap.mp inside
        exact quiet earlier listed done
      rw [throughDone_append,throughDone_append,if_neg undone,if_neg undone,throughDone_option,throughDone_option] at equal
      have framed := groups_framed lines frame (by rw [split]; simp)
      have heads := congrArg List.head? (List.append_cancel_left equal)
      rw [Option.head?_toList,Option.head?_toList] at heads
      exact (merge_iff framed).mp heads
  · intro readable n e
    rw [decodeStream_groups,decodeStream_groups]
    refine throughDone_agree _ fun before frame after split quiet => ?_
    cases e with
    | lf => rfl
    | crlf => rfl
    | cr =>
      obtain ⟨whole,later,found,front⟩ := groups_append (lines.take n) (lines.drop n) split
      rw [List.take_append_drop] at found
      have framed := groups_framed (lines.take n) frame (by rw [split]; simp)
      exact (merge_iff framed).mpr ((readable before whole later found quiet).begun front)
-- `event: m` and `data: x`, two lines of one frame.
def named : List Line := [⟨"event: m".toList,by decide⟩,⟨"data: x".toList,by decide⟩,⟨[],by decide⟩]

theorem named_lost : decodeStream [stream .cr named] ≠ decodeStream [stream .lf named] := by decide +kernel

end PrincessIDE.Sse
