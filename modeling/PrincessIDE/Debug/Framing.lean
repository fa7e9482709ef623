import PrincessIDE.Foundation.Str

namespace PrincessIDE.Framing
open Utf8 Str

def headerLength : Text := "Content-Length".toList
def maxContentLength : Nat := 16*1024*1024
def headerLimit : Nat := 64*1024

inductive FrameError where
  | headerTooLong (limit : Nat)
  | malformedHeader (line : Text)
  | missingContentLength (header : Text)
  | badContentLength (value : Text)
  | bodyTooLarge (length limit : Nat)
  | unexpectedEof (wanted got : Nat)
  | notUtf8 (lossy : Text)
  | readFailed (message : Text)
deriving DecidableEq, Repr

def frameHeader (length : Nat) : Text := headerLength ++ ": ".toList ++ decimal length ++ "\r\n\r\n".toList

def encodeFrame (body : Text) : Bytes := encode (frameHeader (encode body).length) ++ encode body

-- The loop of `find_header_terminator` at index `i`; the list is what is left
-- of the input there.
def findHeaderTerminator (i : Nat) : Bytes → Option (Nat × Nat)
  | [] => none
  | b :: rest =>
    if b = 10 ∧ rest.take 1 = [10] then some (i,i+2)
    else if b = 10 ∧ rest.take 2 = [13,10] then some (i,i+3)
    else findHeaderTerminator (i+1) rest

def headerLines (header : Text) : List Text := (split ['\r','\n'] header).flatMap (split ['\n'])

def contentLength (found : Option Nat) : List Text → Except FrameError (Option Nat)
  | [] => .ok found
  | raw :: rest =>
    let line := trim raw
    if line = [] then contentLength found rest
    else match splitOnce [':'] line with
      | none => .error (.malformedHeader line)
      | some (name,value) =>
        if eqIgnoreAsciiCase (trim name) headerLength then
          match fromStrRadix 10 u64 (trim value) with
          | none => .error (.badContentLength (trim value))
          | some parsed => contentLength (some parsed) rest
        else contentLength found rest

def decodeFrame (input : Bytes) : Except FrameError (Option (Text × Nat)) :=
  match findHeaderTerminator 0 input with
  | none => if input.length > min maxContentLength headerLimit then .error (.headerTooLong headerLimit) else .ok none
  | some (headerEnd,bodyStart) =>
    let header := lossy (input.take headerEnd)
    match contentLength none (headerLines header) with
    | .error e => .error e
    | .ok none => .error (.missingContentLength header)
    | .ok (some length) =>
      if length > maxContentLength then .error (.bodyTooLarge length maxContentLength)
      else if input.length < bodyStart+length then .ok none
      else
        let bytes := (input.drop bodyStart).take length
        match fromUtf8 bytes with
        | .error _ => .error (.notUtf8 (lossy bytes))
        | .ok body => .ok (some (body,bodyStart+length))

-- What one call of the reader answers; `data []` is its `Ok(0)`.
inductive Read where
  | data (bytes : Bytes)
  | interrupted
  | failed (message : Text)
deriving DecidableEq, Repr

-- `reader` lists the answers of the reader's next calls, `Ok(0)` behind them.
structure FrameReader where
  reader : List Read
  buffer : Bytes
  eof : Bool
deriving DecidableEq, Repr

namespace FrameReader

def new (reader : List Read) : FrameReader := ⟨reader,[],false⟩

def pull (s : FrameReader) : Except FrameError Unit × FrameReader :=
  match s.reader with
  | [] => (.ok (),{s with eof:=true})
  | .data [] :: later => (.ok (),{s with reader:=later,eof:=true})
  | .data (b::bytes) :: later => (.ok (),{s with reader:=later,buffer:=s.buffer++b::bytes})
  | .interrupted :: later => (.ok (),{s with reader:=later})
  | .failed message :: later => (.error (.readFailed message),{s with reader:=later})

def callsLeft (s : FrameReader) : Nat := s.reader.length + if s.eof then 0 else 1

theorem pull_callsLeft (s : FrameReader) (reading : s.eof = false) : s.pull.2.callsLeft < s.callsLeft := by
  unfold pull
  split
  all_goals
    rename_i left
    simp only [callsLeft,left,reading,List.length_cons,List.length_nil,if_true]
    grind

def nextBody (s : FrameReader) : Except FrameError (Option Text) × FrameReader :=
  match decodeFrame s.buffer with
  | .error e => (.error e,s)
  | .ok (some (body,used)) => (.ok (some body),{s with buffer:=s.buffer.drop used})
  | .ok none =>
    if reading : s.eof = false then
      match s.pull.1 with
      | .error e => (.error e,s.pull.2)
      | .ok _ => nextBody s.pull.2
    else if s.buffer = [] then (.ok none,s)
    else (.error (.unexpectedEof (s.buffer.length+1) s.buffer.length),s)
termination_by s.callsLeft
decreasing_by exact pull_callsLeft s reading

def bodies (s : FrameReader) : Nat → List (Except FrameError (Option Text))
  | 0 => []
  | n+1 => s.nextBody.1 :: s.nextBody.2.bodies n

end FrameReader

theorem findHeaderTerminator_skip (plain : 10 ∉ line) (i : Nat) (rest : Bytes) :
    findHeaderTerminator i (line++rest) = findHeaderTerminator (i+line.length) rest := by
  induction line generalizing i with
  | nil => rfl
  | cons b line ih =>
    have other : b ≠ 10 := fun same => plain (by simp [same])
    simp only [List.cons_append,findHeaderTerminator,other,false_and,if_false]
    rw [ih (fun inside => plain (List.mem_cons_of_mem _ inside)),List.length_cons]
    congr 1; omega

theorem findHeaderTerminator_plain (plain : 10 ∉ line) : findHeaderTerminator i line = none := by
  have skipped := findHeaderTerminator_skip plain i []
  simpa [findHeaderTerminator] using skipped

-- The header block up to its first newline.
def lengthLine (length : Nat) : Text := headerLength ++ ':' :: ' ' :: (decimal length ++ ['\r'])

theorem frameHeader_line (length : Nat) : frameHeader length = lengthLine length ++ ['\n','\r','\n'] := by
  simp [frameHeader,lengthLine]

theorem lengthLine_ascii (member : c ∈ lengthLine n) : c.toNat < 0x80 ∧ c ≠ '\n' := by
  simp only [lengthLine,List.mem_append,List.mem_cons,List.not_mem_nil,or_false] at member
  rcases member with name | rfl | rfl | digit | rfl
  · have plain : headerLength.all (fun c => c.toNat < 0x80 ∧ c ≠ '\n') = true := by decide
    exact of_decide_eq_true (List.all_eq_true.mp plain c name)
  · decide
  · decide
  · have range := decimal_isDigit digit
    refine ⟨by omega,?_⟩
    rintro rfl
    simp at range
  · decide

def lengthBytes (length : Nat) : Bytes := encode (lengthLine length)

theorem lengthBytes_plain (n : Nat) : 10 ∉ lengthBytes n :=
  fun inside => (lengthLine_ascii (ascii_encode (by decide) inside)).2 rfl

theorem encode_frameHeader (n : Nat) : encode (frameHeader n) = lengthBytes n ++ [10,13,10] := by
  rw [frameHeader_line,encode_append]
  rfl

theorem headerLines_lengthLine (n : Nat) : headerLines (lengthLine n) = [lengthLine n] := by
  have plain : '\n' ∉ lengthLine n := fun inside => (lengthLine_ascii inside).2 rfl
  simp [headerLines,split_absent plain]

theorem trimEnd_decimal (front : Text) (n : Nat) : trimEnd (front ++ decimal n) = front ++ decimal n := by
  obtain ⟨digits,last,split⟩ := List.eq_nil_or_concat (decimal n) |>.resolve_left (decimal_nonempty n)
  have solid : isWhitespace last = false := decimal_solid (n:=n) (by simp [split])
  rw [split,List.concat_eq_append,← List.append_assoc]
  exact trimEnd_solid solid _

theorem trim_lengthLine (n : Nat) : trim (lengthLine n) = headerLength ++ ':' :: ' ' :: decimal n := by
  have start : trimStart (lengthLine n) = (headerLength ++ [':',' '] ++ decimal n) ++ ['\r'] := by
    have head : headerLength = 'C' :: headerLength.tail := by decide
    rw [lengthLine,head,List.cons_append,trimStart_solid (by decide)]
    simp
  rw [trim,start,trimEnd_append (List.all_eq_true.mp (by decide)),trimEnd_decimal]
  simp

theorem trim_length (n : Nat) : trim (' ' :: decimal n) = decimal n := by
  have front : trimStart ([' '] ++ decimal n) = decimal n := by
    rw [trimStart_append (List.all_eq_true.mp (by decide))]
    cases digits : decimal n with
    | nil => rfl
    | cons c rest => exact trimStart_solid (decimal_solid (n:=n) (by simp [digits])) rest
  rw [trim]
  exact (congrArg trimEnd front).trans (trimEnd_decimal [] n)

theorem contentLength_lengthLine (small : n < u64) : contentLength none (headerLines (lengthLine n)) = .ok (some n) := by
  have cut : splitOnce [':'] (headerLength ++ ':' :: ' ' :: decimal n) = some (headerLength,' ' :: decimal n) :=
    splitOnce_char (by decide) _
  have named : eqIgnoreAsciiCase (trim headerLength) headerLength = true := by decide
  rw [headerLines_lengthLine]
  simp [contentLength,trim_lengthLine,cut,named,trim_length,fromStrRadix_decimal small]

theorem decodeFrame_header (small : n ≤ maxContentLength) (rest : Bytes) :
    decodeFrame (encode (frameHeader n) ++ rest) =
      if rest.length < n then .ok none
      else match fromUtf8 (rest.take n) with
        | .error _ => .error (.notUtf8 (lossy (rest.take n)))
        | .ok body => .ok (some (body,(encode (frameHeader n)).length+n)) := by
  have found : findHeaderTerminator 0 (lengthBytes n ++ ([10,13,10] ++ rest)) =
      some ((lengthBytes n).length,(lengthBytes n).length+3) := by
    rw [findHeaderTerminator_skip (lengthBytes_plain n)]
    simp [findHeaderTerminator]
  have parsed : contentLength none (headerLines (lengthLine n)) = .ok (some n) :=
    contentLength_lengthLine (Nat.lt_of_le_of_lt small (by decide))
  have header : lossy (lengthBytes n) = lengthLine n := lossy_encode _
  have body : (lengthBytes n ++ ([10,13,10] ++ rest)).drop ((lengthBytes n).length+3) = rest := by simp
  have large : ¬ n > maxContentLength := by omega
  rw [encode_frameHeader,List.append_assoc,decodeFrame,found]
  simp only [List.take_left,header,parsed,body,if_neg large,List.length_append]
  by_cases short : rest.length < n
  · rw [if_pos short,if_pos (by simp; omega)]
  · rw [if_neg short,if_neg (by simp; omega)]
    rfl

theorem lengthBytes_length (small : n ≤ maxContentLength) : (lengthBytes n).length ≤ 25 := by
  have digits : (decimal n).length ≤ 8 :=
    (Nat.length_toDigits_le_iff (by decide) (by decide)).mpr (Nat.lt_of_le_of_lt small (by decide))
  have name : headerLength.length = 14 := by decide
  rw [lengthBytes,encode_ascii fun c member => (lengthLine_ascii member).1]
  simp only [lengthLine,List.length_map,List.length_append,List.length_cons,List.length_nil,name]
  omega

-- Inside the header block there is no terminator yet, and the block is far
-- below the limit on it.
theorem decodeFrame_header_prefix (small : n ≤ maxContentLength) (cut : p ++ more = encode (frameHeader n))
    (strict : more ≠ []) : decodeFrame p = .ok none := by
  have bound := lengthBytes_length small
  have lengths := congrArg List.length cut
  rw [encode_frameHeader] at cut lengths
  simp only [List.length_append,List.length_cons,List.length_nil] at lengths
  have missing : findHeaderTerminator 0 p = none := by
    rcases List.append_eq_append_iff.mp cut with ⟨left,whole,_⟩ | ⟨left,rfl,ending⟩
    · refine findHeaderTerminator_plain fun inside => lengthBytes_plain n ?_
      simp [whole,inside]
    · rw [findHeaderTerminator_skip (lengthBytes_plain n)]
      match left,ending with
      | [],_ => rfl
      | [a],ending => simp at ending; simp [findHeaderTerminator]
      | [a,b],ending =>
        simp at ending
        obtain ⟨rfl,rfl,_⟩ := ending
        rfl
      | [a,b,c],ending => simp at ending; exact absurd ending.2.2.2 strict
      | a :: b :: c :: d :: rest,ending => simp at ending
  have limit : ¬ p.length > min maxContentLength headerLimit := by
    have least : min maxContentLength headerLimit = 65536 := by decide
    omega
  rw [decodeFrame,missing]
  exact if_neg limit

theorem decodeFrame_prefix (fits : (encode body).length ≤ maxContentLength) (cut : p ++ more = encodeFrame body)
    (strict : more ≠ []) : decodeFrame p = .ok none := by
  rcases List.append_eq_append_iff.mp cut with ⟨left,header,rest⟩ | ⟨left,rfl,rest⟩
  · cases left with
    | nil =>
      rw [List.append_nil] at header
      have whole := decodeFrame_header fits []
      have some : 0 < (encode body).length := by
        simp only [List.nil_append] at rest
        exact List.length_pos_iff.mpr (rest ▸ strict)
      rw [List.append_nil,header,if_pos (by simpa using some)] at whole
      exact whole
    | cons b left => exact decodeFrame_header_prefix fits header.symm (by simp)
  · rw [decodeFrame_header fits,if_pos]
    rw [rest,List.length_append]
    have := List.length_pos_iff.mpr strict
    omega

theorem decodeFrame_frame (fits : (encode body).length ≤ maxContentLength) (rest : Bytes) :
    decodeFrame (encodeFrame body ++ rest) = .ok (some (body,(encodeFrame body).length)) := by
  rw [encodeFrame,List.append_assoc,decodeFrame_header fits,if_neg (by simp)]
  simp [fromUtf8_encode]

def Read.bytes : Read → Bytes
  | .data bytes => bytes
  | _ => []

-- A read that neither ends nor breaks the stream.
def Read.Delivers : Read → Prop
  | .data bytes => bytes ≠ []
  | .interrupted => True
  | .failed _ => False

namespace FrameReader

-- Inside a stream: what is buffered and what the reads still bring is `left`.
structure Inside (s : FrameReader) (left : Bytes) : Prop where
  reading : s.eof = false
  delivers : ∀ r ∈ s.reader, r.Delivers
  stream : s.buffer ++ s.reader.flatMap Read.bytes = left

theorem pull_inside (inside : Inside s left) (some : s.reader ≠ []) : s.pull.1 = .ok () ∧ Inside s.pull.2 left := by
  obtain ⟨reading,delivers,stream⟩ := inside
  unfold pull
  split <;> rename_i reads <;> rw [reads] at delivers stream
  · exact absurd reads some
  · exact absurd rfl (delivers (.data []) (by simp))
  · exact ⟨rfl,reading,fun r member => delivers r (List.mem_cons_of_mem _ member),by simpa [Read.bytes] using stream⟩
  · exact ⟨rfl,reading,fun r member => delivers r (List.mem_cons_of_mem _ member),by simpa [Read.bytes] using stream⟩
  · rename_i message later
    exact False.elim (delivers (.failed message) (by simp))

theorem nextBody_frame (fits : (encode body).length ≤ maxContentLength) (inside : Inside s (encodeFrame body ++ left)) :
    s.nextBody.1 = .ok (some body) ∧ Inside s.nextBody.2 left := by
  generalize calls : s.callsLeft = k
  induction k using Nat.strongRecOn generalizing s with
  | _ k ih =>
    rcases List.append_eq_append_iff.mp inside.stream with ⟨missing,frame,rest⟩ | ⟨extra,buffer,rest⟩
    · cases missing with
      | nil =>
        rw [List.append_nil] at frame
        have decoded := decodeFrame_frame fits []
        rw [List.append_nil,frame] at decoded
        rw [nextBody,decoded]
        exact ⟨rfl,inside.reading,inside.delivers,by simpa using rest⟩
      | cons b missing =>
        have decoded := decodeFrame_prefix fits frame.symm (by simp)
        have some : s.reader ≠ [] := by intro none; simp [none] at rest
        obtain ⟨pulled,next⟩ := pull_inside inside some
        rw [nextBody,decoded]
        simp only [inside.reading,dif_pos,pulled]
        exact ih _ (calls ▸ pull_callsLeft s inside.reading) next rfl
    · have decoded := decodeFrame_frame fits extra
      rw [← buffer] at decoded
      rw [nextBody,decoded]
      exact ⟨rfl,inside.reading,inside.delivers,by simp [buffer,rest]⟩

def ended : FrameReader := ⟨[],[],true⟩

theorem decodeFrame_nil : decodeFrame [] = .ok none := by decide

theorem ended_nextBody : ended.nextBody = (.ok none,ended) := by
  rw [nextBody]
  simp [ended,decodeFrame_nil]

theorem nextBody_end (inside : Inside s []) : s.nextBody = (.ok none,ended) := by
  generalize calls : s.callsLeft = k
  induction k using Nat.strongRecOn generalizing s with
  | _ k ih =>
    have empty : s.buffer = [] := (List.append_eq_nil_iff.mp inside.stream).1
    by_cases last : s.reader = []
    · have pulled : s.pull = (.ok (),ended) := by simp [pull,last,empty,ended]
      rw [nextBody,empty,decodeFrame_nil]
      simp only [inside.reading,dif_pos,pulled]
      exact ended_nextBody
    · obtain ⟨pulled,next⟩ := pull_inside inside last
      rw [nextBody,empty,decodeFrame_nil]
      simp only [inside.reading,dif_pos,pulled]
      exact ih _ (calls ▸ pull_callsLeft s inside.reading) next rfl

theorem bodies_ended (n : Nat) : ended.bodies n = List.replicate n (.ok none) := by
  induction n with
  | zero => rfl
  | succ n ih => simp [bodies,ended_nextBody,ih,List.replicate_succ]

theorem bodies_frames {sent : List Text} (fits : ∀ b ∈ sent, (encode b).length ≤ maxContentLength)
    (inside : Inside s (sent.flatMap encodeFrame)) (later : Nat) :
    s.bodies (sent.length+later+1) = sent.map (fun b => Except.ok (some b)) ++ List.replicate (later+1) (Except.ok none) := by
  induction sent generalizing s with
  | nil =>
    simp only [bodies,nextBody_end inside,bodies_ended]
    simp [List.replicate_succ]
  | cons body sent ih =>
    obtain ⟨read,next⟩ := nextBody_frame (fits body (by simp)) inside
    have rest := ih (fun b member => fits b (List.mem_cons_of_mem _ member)) next
    have count : (body::sent).length+later+1 = (sent.length+later+1)+1 := by simp; omega
    rw [count,bodies,read,rest]
    rfl

end FrameReader

theorem frames_read (sent : List Text) (fits : ∀ b ∈ sent, (encode b).length ≤ maxContentLength) :
    (∀ reader later, (∀ r ∈ reader, Read.Delivers r) → reader.flatMap Read.bytes = sent.flatMap encodeFrame →
      (FrameReader.new reader).bodies (sent.length+later+1) =
        sent.map (fun b => .ok (some b)) ++ List.replicate (later+1) (.ok none)) ∧
    ∀ body ∈ sent, ∀ p more, encodeFrame body = p ++ more → more ≠ [] → decodeFrame p = .ok none := by
  refine ⟨fun reader later delivers stream => ?_,fun body member p more cut strict => ?_⟩
  · have inside : (FrameReader.new reader).Inside (sent.flatMap encodeFrame) := ⟨rfl,delivers,by simpa [FrameReader.new] using stream⟩
    exact FrameReader.bodies_frames fits inside later
  · exact decodeFrame_prefix (fits body member) cut.symm strict

theorem frames_read_two :
    (FrameReader.new [.data (encodeFrame ['a'] ++ (encodeFrame ['\n','é']).take 7),.interrupted,
      .data ((encodeFrame ['\n','é']).drop 7)]).bodies 4 =
        [.ok (some ['a']),.ok (some ['\n','é']),.ok none,.ok none] ∧
    decodeFrame ((encodeFrame ['\n','é']).take 23) = .ok none := by
  have read := frames_read [['a'],['\n','é']] (by decide)
  refine ⟨read.1 _ 1 ?_ (by decide),read.2 ['\n','é'] (by decide) _ ((encodeFrame ['\n','é']).drop 23) (by decide) (by decide)⟩
  intro r member
  simp only [List.mem_cons,List.not_mem_nil,or_false] at member
  rcases member with rfl | rfl | rfl
  · exact (by decide : encodeFrame ['a'] ++ (encodeFrame ['\n','é']).take 7 ≠ [])
  · trivial
  · exact (by decide : (encodeFrame ['\n','é']).drop 7 ≠ [])

end PrincessIDE.Framing
