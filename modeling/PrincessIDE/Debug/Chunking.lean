import PrincessIDE.Debug.Framing

namespace PrincessIDE.Framing
open Utf8 Str

-- The array `next_body` reads into.
def chunkLength : Nat := 8192

-- Reads that bring `stream` and nothing else, none of them longer than the
-- array.
def Cuts (reads : List Read) (stream : Bytes) : Prop :=
  (∀ r ∈ reads, r.Delivers ∧ r.bytes.length ≤ chunkLength) ∧ reads.flatMap Read.bytes = stream

def upToError : List (Except ε α) → List (Except ε α)
  | [] => []
  | .error e :: _ => [.error e]
  | .ok a :: rest => .ok a :: upToError rest

def ChunkFree (stream : Bytes) : Prop :=
  ∀ a b, Cuts a stream → Cuts b stream →
    ∀ n, upToError ((FrameReader.new a).bodies n) = upToError ((FrameReader.new b).bodies n)

-- The blank line is inside the limit, or there is none.
def Near (rest : Bytes) : Prop := ∀ headerEnd bodyStart, findHeaderTerminator 0 rest = some (headerEnd,bodyStart) → bodyStart ≤ headerLimit+1

-- The blank line is out of reach of the read that crosses the limit.
def Far (rest : Bytes) : Prop :=
  ∃ headerEnd bodyStart, findHeaderTerminator 0 rest = some (headerEnd,bodyStart) ∧ headerLimit+chunkLength < bodyStart

-- What is left of the stream at the start of each frame it holds.
inductive Reached (stream : Bytes) : Bytes → Prop where
  | start : Reached stream stream
  | next (before : Reached stream rest) (near : Near rest) (frame : decodeFrame rest = .ok (some (body,used))) :
      Reached stream (rest.drop used)

theorem pair_take (p : Nat) (rest : Bytes) : (rest.take p).take 1 = [10] ↔ 1 ≤ p ∧ rest.take 1 = [10] := by
  cases p <;> cases rest <;> simp

theorem triple_take (p : Nat) (rest : Bytes) : (rest.take p).take 2 = [13,10] ↔ 2 ≤ p ∧ rest.take 2 = [13,10] := by
  match p,rest with
  | 0,_ => simp
  | 1,[] => simp
  | 1,_::_ => simp
  | p+2,[] => simp
  | p+2,[_] => simp
  | p+2,_::_::_ => simp

theorem findHeaderTerminator_found (found : findHeaderTerminator i input = some (headerEnd,bodyStart)) :
    i ≤ headerEnd ∧ headerEnd+2 ≤ bodyStart ∧ bodyStart ≤ i+input.length := by
  induction input generalizing i with
  | nil => cases found
  | cons b rest ih =>
    rw [findHeaderTerminator] at found
    split at found
    · rename_i here
      have next := congrArg List.length here.2
      simp only [Option.some.injEq,Prod.mk.injEq] at found
      simp only [List.length_take,List.length_cons,List.length_nil] at next ⊢
      omega
    · split at found
      · rename_i here
        have next := congrArg List.length here.2
        simp only [Option.some.injEq,Prod.mk.injEq] at found
        simp only [List.length_take,List.length_cons,List.length_nil] at next ⊢
        omega
      · have later := ih found
        simp only [List.length_cons]
        omega

theorem findHeaderTerminator_short (short : input.length < 2) : findHeaderTerminator i input = none := by
  cases found : findHeaderTerminator i input with
  | none => rfl
  | some ends =>
    have place := findHeaderTerminator_found found
    omega

theorem findHeaderTerminator_prefix (found : findHeaderTerminator i input = some (headerEnd,bodyStart)) (p : Nat) :
    findHeaderTerminator i (input.take p) = if bodyStart ≤ i+p then some (headerEnd,bodyStart) else none := by
  induction input generalizing i p with
  | nil => cases found
  | cons b rest ih =>
    have place := findHeaderTerminator_found found
    cases p with
    | zero => rw [if_neg (by omega)]; rfl
    | succ p =>
      rw [findHeaderTerminator] at found
      rw [List.take_succ_cons,findHeaderTerminator]
      simp only [pair_take,triple_take]
      by_cases pair : b = 10 ∧ rest.take 1 = [10]
      · rw [if_pos pair] at found
        cases found
        by_cases room : 1 ≤ p
        · rw [if_pos ⟨pair.1,room,pair.2⟩,if_pos (by omega)]
        · rw [if_neg (fun both => room both.2.1),if_neg (fun both => room (by omega)),if_neg (by omega)]
          exact findHeaderTerminator_short (by simp only [List.length_take]; omega)
      · rw [if_neg pair] at found
        have absent : ¬ (b = 10 ∧ 1 ≤ p ∧ rest.take 1 = [10]) := fun both => pair ⟨both.1,both.2.2⟩
        rw [if_neg absent]
        by_cases triple : b = 10 ∧ rest.take 2 = [13,10]
        · rw [if_pos triple] at found
          cases found
          by_cases room : 2 ≤ p
          · rw [if_pos ⟨triple.1,room,triple.2⟩,if_pos (by omega)]
          · rw [if_neg (fun both => room both.2.1),if_neg (by omega)]
            exact findHeaderTerminator_short (by simp only [List.length_take]; omega)
        · rw [if_neg triple] at found
          have absent : ¬ (b = 10 ∧ 2 ≤ p ∧ rest.take 2 = [13,10]) := fun both => triple ⟨both.1,both.2.2⟩
          have room : i+1+p = i+(p+1) := by omega
          rw [if_neg absent,ih found,room]

theorem findHeaderTerminator_missing (missing : findHeaderTerminator i input = none) (p : Nat) :
    findHeaderTerminator i (input.take p) = none := by
  induction input generalizing i p with
  | nil => simpa using missing
  | cons b rest ih =>
    cases p with
    | zero => rfl
    | succ p =>
      rw [findHeaderTerminator] at missing
      split at missing
      · cases missing
      · split at missing
        · cases missing
        · rename_i pair triple
          rw [List.take_succ_cons,findHeaderTerminator]
          simp only [pair_take,triple_take]
          rw [if_neg fun both => pair ⟨both.1,both.2.2⟩,if_neg fun both => triple ⟨both.1,both.2.2⟩]
          exact ih missing p


theorem contentLength_not_long (lines : List Text) (found : Option Nat) :
    contentLength found lines ≠ .error (.headerTooLong limit) := by
  induction lines generalizing found with
  | nil => simp [contentLength]
  | cons raw lines ih =>
    rw [contentLength]
    grind

-- The length a header block declares, or what is wrong with the block.
def declared (header : Text) : Except FrameError Nat :=
  match contentLength none (headerLines header) with
  | .error e => .error e
  | .ok none => .error (.missingContentLength header)
  | .ok (some length) => if length > maxContentLength then .error (.bodyTooLarge length maxContentLength) else .ok length

def bodyOf (bytes : Bytes) (used : Nat) : Except FrameError (Option (Text × Nat)) :=
  match fromUtf8 bytes with
  | .error _ => .error (.notUtf8 (lossy bytes))
  | .ok body => .ok (some (body,used))

theorem decodeFrame_found (found : findHeaderTerminator 0 input = some (headerEnd,bodyStart)) :
    decodeFrame input = match declared (lossy (input.take headerEnd)) with
      | .error e => .error e
      | .ok length =>
        if input.length < bodyStart+length then .ok none
        else bodyOf ((input.drop bodyStart).take length) (bodyStart+length) := by
  rw [decodeFrame,found,declared]
  simp only
  cases contentLength none (headerLines (lossy (input.take headerEnd))) with
  | error e => rfl
  | ok length =>
    cases length with
    | none => rfl
    | some length =>
      by_cases large : length > maxContentLength
      · simp only [if_pos large]
      · simp only [if_neg large]
        rfl

theorem decodeFrame_missing (missing : findHeaderTerminator 0 input = none) :
    decodeFrame input = if input.length > headerLimit then .error (.headerTooLong headerLimit) else .ok none := by
  rw [decodeFrame,missing]
  rfl

theorem declared_not_long (header : Text) : declared header ≠ .error (.headerTooLong limit) := by
  have parsed : contentLength none (headerLines header) ≠ .error (.headerTooLong limit) := contentLength_not_long _ none
  rw [declared]
  grind

theorem bodyOf_not_long (bytes : Bytes) (used : Nat) : bodyOf bytes used ≠ .error (.headerTooLong limit) := by
  rw [bodyOf]
  grind

-- Once the blank line is in the buffer the limit on the header is not asked
-- any more.
theorem decodeFrame_found_not_long (found : findHeaderTerminator 0 input = some (headerEnd,bodyStart)) :
    decodeFrame input ≠ .error (.headerTooLong limit) := by
  rw [decodeFrame_found found]
  cases parsed : declared (lossy (input.take headerEnd)) with
  | error e =>
    intro long
    cases long
    exact declared_not_long _ parsed
  | ok length =>
    simp only
    split
    · intro none; cases none
    · exact bodyOf_not_long _ _

theorem bodyOf_used (frame : bodyOf bytes n = .ok (some (body,used))) : n = used := by
  rw [bodyOf] at frame
  grind

-- A whole frame: where its blank line ends, and the length it declares.
theorem decodeFrame_frame_used (frame : decodeFrame input = .ok (some (body,used))) :
    ∃ headerEnd bodyStart length, findHeaderTerminator 0 input = some (headerEnd,bodyStart) ∧
      declared (lossy (input.take headerEnd)) = .ok length ∧ used = bodyStart+length ∧ used ≤ input.length := by
  cases found : findHeaderTerminator 0 input with
  | none =>
    rw [decodeFrame_missing found] at frame
    split at frame <;> cases frame
  | some ends =>
    rw [decodeFrame_found found] at frame
    cases parsed : declared (lossy (input.take ends.1)) with
    | error e => rw [parsed] at frame; cases frame
    | ok length =>
      rw [parsed] at frame
      simp only at frame
      split at frame
      · cases frame
      · rename_i room
        have total := bodyOf_used frame
        exact ⟨ends.1,ends.2,length,rfl,parsed,total.symm,by omega⟩

-- With the blank line in it, a prefix is incomplete or decodes as the whole.
theorem decodeFrame_take_found (found : findHeaderTerminator 0 input = some (headerEnd,bodyStart)) (seen : bodyStart ≤ p) :
    decodeFrame (input.take p) = .ok none ∨ decodeFrame (input.take p) = decodeFrame input := by
  have prefixed := findHeaderTerminator_prefix found p
  have place := findHeaderTerminator_found found
  rw [if_pos (by omega)] at prefixed
  have header : (input.take p).take headerEnd = input.take headerEnd := by rw [List.take_take,min_eq_left (by omega)]
  rw [decodeFrame_found found,decodeFrame_found prefixed,header]
  cases declared (lossy (input.take headerEnd)) with
  | error e => exact .inr rfl
  | ok length =>
    simp only
    by_cases short : (input.take p).length < bodyStart+length
    · exact .inl (if_pos short)
    · have most : bodyStart+length ≤ p ∧ bodyStart+length ≤ input.length := by rw [List.length_take] at short; omega
      have bytes : ((input.take p).drop bodyStart).take length = (input.drop bodyStart).take length := by
        rw [List.drop_take,List.take_take,min_eq_left (by omega)]
      rw [if_neg short,if_neg (by omega),bytes]
      exact .inr rfl

-- Before the blank line a prefix is incomplete up to the limit and too long
-- behind it.
theorem decodeFrame_take_unseen (found : findHeaderTerminator 0 input = some (headerEnd,bodyStart)) (unseen : p < bodyStart) :
    decodeFrame (input.take p) = if p > headerLimit then .error (.headerTooLong headerLimit) else .ok none := by
  have prefixed := findHeaderTerminator_prefix found p
  have place := findHeaderTerminator_found found
  rw [if_neg (by omega)] at prefixed
  rw [decodeFrame_missing prefixed,List.length_take,min_eq_left (by omega)]

theorem decodeFrame_take (near : Near input) (p : Nat) :
    decodeFrame (input.take p) = .ok none ∨ decodeFrame (input.take p) = decodeFrame input := by
  cases found : findHeaderTerminator 0 input with
  | none =>
    rw [decodeFrame_missing (findHeaderTerminator_missing found p),decodeFrame_missing found,List.length_take]
    by_cases long : min p input.length > headerLimit
    · exact .inr (by rw [if_pos long,if_pos (by omega)])
    · exact .inl (if_neg long)
  | some ends =>
    have close := near ends.1 ends.2 found
    by_cases seen : ends.2 ≤ p
    · exact decodeFrame_take_found found seen
    · exact .inl (by rw [decodeFrame_take_unseen found (by omega),if_neg (by omega)])

-- The bytes of a frame are incomplete up to its last one.
theorem decodeFrame_take_frame (near : Near input) (frame : decodeFrame input = .ok (some (body,used))) :
    decodeFrame (input.take p) = if p < used then .ok none else .ok (some (body,used)) := by
  obtain ⟨headerEnd,bodyStart,length,found,parsed,total,room⟩ := decodeFrame_frame_used frame
  have place := findHeaderTerminator_found found
  have close := near _ _ found
  by_cases seen : bodyStart ≤ p
  · have prefixed := findHeaderTerminator_prefix found p
    rw [if_pos (by omega)] at prefixed
    have header : (input.take p).take headerEnd = input.take headerEnd := by rw [List.take_take,min_eq_left (by omega)]
    have whole := decodeFrame_found prefixed
    rw [header,parsed] at whole
    simp only [List.length_take] at whole
    by_cases short : p < used
    · rw [if_pos short,whole,if_pos (by omega)]
    · rw [if_neg short]
      rcases decodeFrame_take near p with incomplete | same
      · rw [incomplete,if_neg (by omega)] at whole
        rw [bodyOf] at whole
        grind
      · rw [same,frame]
  · rw [if_pos (by omega),decodeFrame_take_unseen found (by omega),if_neg (by omega)]

namespace FrameReader

-- Inside a stream, with reads of at most `limit` bytes to come.
structure Cutting (limit : Nat) (s : FrameReader) (left : Bytes) : Prop where
  inside : Inside s left
  small : ∀ r ∈ s.reader, r.bytes.length ≤ limit

theorem Cutting.buffer_take (cutting : Cutting limit s left) : s.buffer = left.take s.buffer.length := by
  rw [← cutting.inside.stream,List.take_left]

theorem Cutting.pull (cutting : Cutting limit s left) (some : s.reader ≠ []) :
    s.pull.1 = .ok () ∧ Cutting limit s.pull.2 left ∧ ∃ more, more ≤ limit ∧ s.pull.2.buffer.length = s.buffer.length+more := by
  obtain ⟨pulled,inside⟩ := pull_inside cutting.inside some
  have small := cutting.small
  refine ⟨pulled,⟨inside,fun r member => ?_⟩,?_⟩
  · refine small r ?_
    unfold FrameReader.pull at member
    grind
  · have delivers := cutting.inside.delivers
    unfold FrameReader.pull
    split <;> rename_i reads <;> rw [reads] at small
    · exact ⟨0,by simp,by simp⟩
    · exact ⟨0,by simp,by simp⟩
    · rename_i b bytes later
      exact ⟨(b::bytes).length,small (.data (b::bytes)) (by simp),by simp⟩
    · exact ⟨0,by simp,by simp⟩
    · exact ⟨0,by simp,by simp⟩

-- The loop of `next_body` under an invariant on how much is buffered: it comes
-- to rest where the buffer decodes, or at the end of the stream.
theorem nextBody_settles (inv : Nat → Prop) (cutting : Cutting limit s left) (start : inv s.buffer.length)
    (grow : ∀ p more, inv p → decodeFrame (left.take p) = .ok none → more ≤ limit → inv (p+more)) :
    ∃ t, s.nextBody = t.nextBody ∧ inv t.buffer.length ∧
      (Cutting limit t left ∧ decodeFrame t.buffer ≠ .ok none ∨ t = ⟨[],left,true⟩ ∧ decodeFrame left = .ok none) := by
  generalize calls : s.callsLeft = k
  induction k using Nat.strongRecOn generalizing s with
  | _ k ih =>
    by_cases settled : decodeFrame s.buffer = .ok none
    · have reading := cutting.inside.reading
      by_cases last : s.reader = []
      · have whole : s.buffer = left := by simpa [last] using cutting.inside.stream
        have pulled : s.pull = (.ok (),⟨[],left,true⟩) := by simp [FrameReader.pull,last,whole]
        refine ⟨⟨[],left,true⟩,?_,by rwa [← whole],.inr ⟨rfl,whole ▸ settled⟩⟩
        rw [nextBody,settled]
        simp only [reading,dif_pos,pulled]
      · obtain ⟨pulled,next,more,most,grown⟩ := cutting.pull last
        have kept : inv s.pull.2.buffer.length := by
          rw [grown]
          exact grow _ _ start (cutting.buffer_take ▸ settled) most
        obtain ⟨t,same,rest⟩ := ih _ (calls ▸ pull_callsLeft s reading) next kept rfl
        refine ⟨t,?_,rest⟩
        rw [← same]
        conv => lhs; rw [nextBody]
        rw [settled]
        simp only [reading,dif_pos,pulled]
    · exact ⟨s,rfl,start,.inl ⟨cutting,settled⟩⟩

-- What `next_body` answers on the whole rest of the stream.
def outcome (left : Bytes) : Except FrameError (Option Text) :=
  match decodeFrame left with
  | .error e => .error e
  | .ok (some (body,_)) => .ok (some body)
  | .ok none => if left = [] then .ok none else .error (.unexpectedEof (left.length+1) left.length)

variable {s t : FrameReader}

theorem nextBody_error (wrong : decodeFrame s.buffer = .error e) : s.nextBody = (.error e,s) := by
  rw [nextBody,wrong]

theorem nextBody_whole (frame : decodeFrame s.buffer = .ok (some (body,used))) :
    s.nextBody = (.ok (some body),{s with buffer:=s.buffer.drop used}) := by
  rw [nextBody,frame]

theorem nextBody_over (short : decodeFrame left = .ok none) : (FrameReader.mk [] left true).nextBody.1 = outcome left := by
  rw [nextBody,outcome]
  simp only [short]
  by_cases empty : left = [] <;> simp [empty]

theorem nextBody_outcome (settled : decodeFrame s.buffer ≠ .ok none) (same : decodeFrame s.buffer = decodeFrame left) :
    s.nextBody.1 = outcome left := by
  cases decoded : decodeFrame s.buffer with
  | error e => rw [nextBody_error decoded,outcome,← same,decoded]
  | ok frame =>
    cases frame with
    | none => exact absurd decoded settled
    | some frame => rw [nextBody_whole decoded,outcome,← same,decoded]

structure Ready (s : FrameReader) (left : Bytes) : Prop where
  cutting : Cutting chunkLength s left
  short : s.buffer.length ≤ chunkLength

theorem near_nextBody (ready : Ready s left) (near : Near left) : s.nextBody.1 = outcome left := by
  obtain ⟨t,same,_,⟨cutting,settled⟩ | ⟨rfl,whole⟩⟩ := nextBody_settles (fun _ => True) ready.cutting trivial (fun _ _ _ _ _ => trivial)
  · have decoded := decodeFrame_take near t.buffer.length
    rw [← cutting.buffer_take] at decoded
    rw [same]
    exact nextBody_outcome settled (decoded.resolve_left settled)
  · rw [same,nextBody_over whole]

-- A frame leaves no more in the buffer than the last read brought.
theorem near_frame (ready : Ready s left) (near : Near left) (frame : decodeFrame left = .ok (some (body,used))) :
    Ready s.nextBody.2 (left.drop used) := by
  have grow : ∀ p more, p ≤ used+chunkLength → decodeFrame (left.take p) = .ok none → more ≤ chunkLength → p+more ≤ used+chunkLength := by
    intro p more _ incomplete most
    rw [decodeFrame_take_frame near frame] at incomplete
    by_cases short : p < used
    · omega
    · rw [if_neg short] at incomplete; cases incomplete
  have start : s.buffer.length ≤ used+chunkLength := Nat.le_trans ready.short (Nat.le_add_left _ _)
  obtain ⟨t,same,bounded,⟨cutting,settled⟩ | ⟨rfl,whole⟩⟩ :=
    nextBody_settles (fun p => p ≤ used+chunkLength) ready.cutting start grow
  · have decoded := decodeFrame_take near t.buffer.length
    rw [← cutting.buffer_take,frame] at decoded
    have now := decoded.resolve_left settled
    obtain ⟨_,_,_,_,_,_,room⟩ := decodeFrame_frame_used now
    obtain ⟨⟨reading,delivers,stream⟩,small⟩ := cutting
    rw [same,nextBody_whole now]
    refine ⟨⟨⟨reading,delivers,?_⟩,small⟩,?_⟩
    · rw [← stream,List.drop_append_of_le_length room]
    · simp only [List.length_drop]
      omega
  · rw [frame] at whole; cases whole

theorem distant_nextBody (found : findHeaderTerminator 0 left = some (headerEnd,bodyStart)) (distant : headerLimit+limit < bodyStart)
    (cutting : Cutting limit s left) (short : s.buffer.length ≤ limit) : s.nextBody.1 = .error (.headerTooLong headerLimit) := by
  have place := findHeaderTerminator_found found
  have grow : ∀ p more, p < bodyStart → decodeFrame (left.take p) = .ok none → more ≤ limit → p+more < bodyStart := by
    intro p more unseen incomplete most
    rw [decodeFrame_take_unseen found unseen] at incomplete
    by_cases long : p > headerLimit
    · rw [if_pos long] at incomplete; cases incomplete
    · omega
  obtain ⟨t,same,unseen,⟨cutting,settled⟩ | ⟨rfl,_⟩⟩ :=
    nextBody_settles (fun p => p < bodyStart) cutting (by omega) grow
  · have decoded := decodeFrame_take_unseen found unseen
    rw [← cutting.buffer_take] at decoded
    by_cases long : t.buffer.length > headerLimit
    · rw [if_pos long] at decoded
      rw [same,nextBody_error decoded]
    · rw [if_neg long] at decoded
      exact absurd decoded settled
  · simp only at unseen; omega

theorem far_nextBody (ready : Ready s left) (far : Far left) : s.nextBody.1 = .error (.headerTooLong headerLimit) := by
  obtain ⟨headerEnd,bodyStart,found,distant⟩ := far
  exact distant_nextBody found distant ready.cutting ready.short

theorem seen_nextBody (found : findHeaderTerminator 0 left = some (headerEnd,bodyStart)) (cutting : Cutting limit s left)
    (seen : bodyStart ≤ s.buffer.length) : s.nextBody.1 ≠ .error (.headerTooLong headerLimit) := by
  obtain ⟨t,same,later,⟨cutting,settled⟩ | ⟨rfl,whole⟩⟩ :=
    nextBody_settles (fun p => bodyStart ≤ p) cutting seen (fun p more past _ _ => Nat.le_add_right_of_le past)
  · have shown := findHeaderTerminator_prefix found t.buffer.length
    rw [if_pos (by omega),← cutting.buffer_take] at shown
    have short : decodeFrame t.buffer ≠ .error (.headerTooLong headerLimit) := decodeFrame_found_not_long shown
    rw [same]
    cases decoded : decodeFrame t.buffer with
    | error e =>
      rw [nextBody_error decoded]
      intro long
      cases long
      exact short decoded
    | ok frame =>
      cases frame with
      | none => exact absurd decoded settled
      | some frame => rw [nextBody_whole decoded]; intro long; cases long
  · rw [same,nextBody_over whole,outcome,whole]
    by_cases empty : left = [] <;> simp [empty]

theorem ready_end (ready : Ready s []) : s.nextBody = (.ok none,ended) := nextBody_end ready.cutting.inside

theorem bodies_agree (apart : ∀ rest, Reached stream rest → Near rest ∨ Far rest) (n : Nat) (reached : Reached stream left)
    (a : Ready s left) (b : Ready t left) : upToError (s.bodies n) = upToError (t.bodies n) := by
  induction n generalizing left s t with
  | zero => rfl
  | succ n ih =>
    rw [bodies,bodies]
    rcases apart left reached with near | far
    · rw [near_nextBody a near,near_nextBody b near]
      cases decoded : decodeFrame left with
      | error e => simp only [outcome,decoded,upToError]
      | ok frame =>
        cases frame with
        | some frame =>
          have rest := ih (.next reached near decoded) (near_frame a near decoded) (near_frame b near decoded)
          simp only [outcome,decoded,upToError,rest]
        | none =>
          by_cases empty : left = []
          · subst empty
            simp only [outcome,decoded,if_pos,upToError,ready_end a,ready_end b]
          · simp only [outcome,decoded,if_neg empty,upToError]
    · rw [far_nextBody a far,far_nextBody b far]
      rfl

end FrameReader

-- One byte a read.
def dribble (bytes : Bytes) : List Read := bytes.map fun b => .data [b]

theorem dribble_cuts (bytes : Bytes) : Cuts (dribble bytes) bytes := by
  refine ⟨fun r member => ?_,?_⟩
  · obtain ⟨b,_,rfl⟩ := List.mem_map.mp member
    exact ⟨List.cons_ne_nil b [],(by decide : 1 ≤ chunkLength)⟩
  · induction bytes with
    | nil => rfl
    | cons b bytes ih => simpa [dribble,Read.bytes] using ih

theorem dribble_small (bytes : Bytes) : ∀ r ∈ dribble bytes, r.bytes.length ≤ 1 := by
  intro r member
  obtain ⟨b,_,rfl⟩ := List.mem_map.mp member
  exact Nat.le_refl 1

theorem Cuts.cons (some : bytes ≠ []) (short : bytes.length ≤ chunkLength) (back : Cuts b more) :
    Cuts (.data bytes::b) (bytes++more) := by
  refine ⟨fun r member => ?_,by rw [List.flatMap_cons,back.2]; rfl⟩
  rcases List.mem_cons.mp member with rfl | later
  · exact ⟨some,short⟩
  · exact back.1 r later

theorem Cuts.append (front : Cuts a bytes) (back : Cuts b more) : Cuts (a++b) (bytes++more) := by
  refine ⟨fun r member => ?_,by rw [List.flatMap_append,front.2,back.2]⟩
  exact (List.mem_append.mp member).elim (front.1 r) (back.1 r)

namespace FrameReader

theorem nextBody_data {buffer : Bytes} (incomplete : decodeFrame buffer = .ok none) (some : bytes ≠ []) (later : List Read) :
    (FrameReader.mk (.data bytes::later) buffer false).nextBody = (FrameReader.mk later (buffer++bytes) false).nextBody := by
  obtain ⟨b,bytes,rfl⟩ := List.exists_cons_of_ne_nil some
  conv => lhs; rw [nextBody]
  simp only [incomplete,pull,dif_pos]

theorem nextBody_dribble (buffer bytes : Bytes) (later : List Read)
    (incomplete : ∀ p, buffer.length ≤ p → p < buffer.length+bytes.length → decodeFrame ((buffer++bytes).take p) = .ok none) :
    (FrameReader.mk (dribble bytes ++ later) buffer false).nextBody = (FrameReader.mk later (buffer++bytes) false).nextBody := by
  induction bytes generalizing buffer with
  | nil => simp [dribble]
  | cons b bytes ih =>
    have now := incomplete buffer.length (Nat.le_refl _) (by simp)
    rw [List.take_left] at now
    have next := ih (buffer++[b]) fun p most room => by
      have step := incomplete p
      simp only [List.length_append,List.length_cons,List.length_nil] at step most room
      rw [List.append_assoc]
      exact step (by omega) (by omega)
    have split : dribble (b::bytes) ++ later = .data [b] :: (dribble bytes ++ later) := rfl
    rw [split,nextBody_data now (List.cons_ne_nil b []),next,List.append_assoc]
    rfl

-- A frame is reached with an empty buffer when the bytes before it come one a
-- read.
theorem reached_dribble (reached : Reached stream rest) :
    ∃ (front : Bytes) (sent : List (Option Text)), front ++ rest = stream ∧
      ∀ later n, (new (dribble front ++ later)).bodies (sent.length+n) =
        sent.map .ok ++ (FrameReader.mk later [] false).bodies n := by
  induction reached with
  | start => exact ⟨[],[],rfl,fun later n => by simp [dribble,new]⟩
  | @next rest body used _ near frame ih =>
    obtain ⟨front,sent,whole,run⟩ := ih
    obtain ⟨_,_,_,_,_,_,room⟩ := decodeFrame_frame_used frame
    refine ⟨front++rest.take used,sent++[some body],by rw [List.append_assoc,List.take_append_drop,whole],fun later n => ?_⟩
    have parts : dribble (front++rest.take used) ++ later = dribble front ++ (dribble (rest.take used) ++ later) := by
      simp [dribble]
    have decoded : decodeFrame (rest.take used) = .ok (some (body,used)) := by
      rw [decodeFrame_take_frame near frame,if_neg (Nat.lt_irrefl used)]
    have read : (FrameReader.mk (dribble (rest.take used) ++ later) [] false).nextBody = (.ok (some body),⟨later,[],false⟩) := by
      rw [nextBody_dribble]
      · rw [List.nil_append,nextBody_whole decoded]
        simp
      · intro p _ short
        simp only [List.length_nil,List.length_take] at short
        rw [List.nil_append,List.take_take,min_eq_left (by omega),decodeFrame_take_frame near frame,if_pos (by omega)]
    have count : (sent++[some body]).length+n = sent.length+(n+1) := by simp; omega
    rw [parts,count,run,bodies,read]
    simp

end FrameReader

theorem Cuts.ready (cuts : Cuts reads stream) : (FrameReader.new reads).Ready stream := by
  refine ⟨⟨⟨rfl,fun r member => (cuts.1 r member).1,?_⟩,fun r member => (cuts.1 r member).2⟩,by simp [FrameReader.new]⟩
  simpa [FrameReader.new] using cuts.2

theorem upToError_last (sent : List α) (last : Except ε α) :
    upToError (sent.map .ok ++ [last]) = sent.map .ok ++ [last] := by
  induction sent with
  | nil => cases last <;> rfl
  | cons a sent ih => rw [List.map_cons,List.cons_append,upToError,ih]

-- Up to the limit one byte a read, then one read across it.
theorem nextBody_across (found : findHeaderTerminator 0 rest = some (headerEnd,bodyStart)) (beyond : headerLimit < bodyStart)
    (some : across ≠ []) (later : List Read) :
    (FrameReader.mk (dribble (rest.take headerLimit) ++ .data across::later) [] false).nextBody =
      (FrameReader.mk later (rest.take headerLimit ++ across) false).nextBody := by
  have incomplete : ∀ p, p ≤ headerLimit → decodeFrame ((rest.take headerLimit).take p) = .ok none := by
    intro p most
    rw [List.take_take,min_eq_left most,decodeFrame_take_unseen found (by omega),if_neg (by omega)]
  have full := incomplete headerLimit (Nat.le_refl _)
  rw [List.take_take,min_self] at full
  rw [FrameReader.nextBody_dribble,List.nil_append,FrameReader.nextBody_data full some]
  intro p _ short
  simp only [List.length_nil,List.length_take] at short
  exact incomplete p (by omega)

-- Between the two bounds the read that crosses the limit decides: one byte
-- shows no blank line, a full array shows it.
theorem between_differs (found : findHeaderTerminator 0 rest = some (headerEnd,bodyStart)) (beyond : headerLimit+1 < bodyStart)
    (within : bodyStart ≤ headerLimit+chunkLength) :
    (FrameReader.mk (dribble rest) [] false).nextBody.1 = .error (.headerTooLong headerLimit) ∧
    ∃ leap, Cuts leap rest ∧ (FrameReader.mk leap [] false).nextBody.1 ≠ .error (.headerTooLong headerLimit) := by
  have place := findHeaderTerminator_found found
  have slow := dribble_cuts rest
  constructor
  · refine FrameReader.distant_nextBody found beyond ⟨⟨rfl,fun r member => (slow.1 r member).1,?_⟩,dribble_small rest⟩ (by simp)
    simpa using slow.2
  · let across := (rest.drop headerLimit).take chunkLength
    let left := rest.drop (headerLimit+chunkLength)
    have some : across ≠ [] := by
      refine List.ne_nil_of_length_pos ?_
      simp only [across,List.length_take,List.length_drop,chunkLength]
      omega
    have shown : rest.take headerLimit ++ across = rest.take (headerLimit+chunkLength) := List.take_add.symm
    have parts : rest.take headerLimit ++ (across ++ left) = rest := by
      rw [← List.append_assoc,shown,List.take_append_drop]
    have tail := dribble_cuts left
    have leaps := (dribble_cuts (rest.take headerLimit)).append (Cuts.cons some (List.length_take_le _ _) tail)
    rw [parts] at leaps
    refine ⟨_,leaps,?_⟩
    rw [nextBody_across found (by omega) some,shown]
    have inside : FrameReader.Inside ⟨dribble left,rest.take (headerLimit+chunkLength),false⟩ rest := by
      refine ⟨rfl,fun r member => (tail.1 r member).1,?_⟩
      rw [tail.2]
      exact List.take_append_drop _ rest
    refine FrameReader.seen_nextBody found ⟨inside,dribble_small left⟩ ?_
    simp only [List.length_take]
    omega

theorem between_not_free (reached : Reached stream rest) (near : ¬ Near rest) (far : ¬ Far rest) : ¬ ChunkFree stream := by
  intro free
  obtain ⟨headerEnd,bodyStart,found,beyond⟩ : ∃ headerEnd bodyStart,
      findHeaderTerminator 0 rest = some (headerEnd,bodyStart) ∧ headerLimit+1 < bodyStart := by
    simpa [Near] using near
  have within : bodyStart ≤ headerLimit+chunkLength := by
    by_contra distant
    exact far ⟨headerEnd,bodyStart,found,by omega⟩
  obtain ⟨long,leap,leaps,short⟩ := between_differs found beyond within
  obtain ⟨front,sent,whole,run⟩ := FrameReader.reached_dribble reached
  have same := free _ _ (whole ▸ (dribble_cuts front).append (dribble_cuts rest))
    (whole ▸ (dribble_cuts front).append leaps) (sent.length+1)
  rw [run,run] at same
  simp only [FrameReader.bodies,long,upToError_last] at same
  have last := List.append_cancel_left same
  simp only [List.cons.injEq,and_true] at last
  exact short last.symm

theorem chunking_free_iff (stream : Bytes) : ChunkFree stream ↔ ∀ rest, Reached stream rest → Near rest ∨ Far rest := by
  refine ⟨fun free rest reached => ?_,fun apart a b cutsA cutsB n => ?_⟩
  · by_contra between
    rw [not_or] at between
    exact between_not_free reached between.1 between.2 free
  · exact FrameReader.bodies_agree apart n .start (Cuts.ready cutsA) (Cuts.ready cutsB)

def zeroLine : Text := headerLength ++ [':','0']

def padding (spaces : Nat) : Text := zeroLine ++ List.replicate spaces ' '

-- A frame without a body, its header line padded with spaces.
def padded (spaces : Nat) : Bytes := encode (padding spaces) ++ [10,10]

theorem padding_ascii (spaces : Nat) (member : c ∈ padding spaces) : c.toNat < 0x80 ∧ c ≠ '\n' := by
  rw [padding,List.mem_append] at member
  rcases member with name | space
  · have plain : zeroLine.all (fun c => c.toNat < 0x80 ∧ c ≠ '\n') = true := by decide
    exact of_decide_eq_true (List.all_eq_true.mp plain c name)
  · obtain ⟨_,rfl⟩ := List.mem_replicate.mp space
    decide

theorem padding_length (spaces : Nat) : (encode (padding spaces)).length = 16+spaces := by
  have name : zeroLine.length = 16 := by decide
  rw [encode_ascii fun c member => (padding_ascii spaces member).1,List.length_map,padding,List.length_append,name,List.length_replicate]

theorem padded_found (spaces : Nat) : findHeaderTerminator 0 (padded spaces) = some (16+spaces,18+spaces) := by
  have plain : (10 : UInt8) ∉ encode (padding spaces) := by
    intro inside
    have member := ascii_encode (by decide) inside
    exact (padding_ascii spaces member).2 rfl
  have total : 16+spaces+2 = 18+spaces := by omega
  rw [padded,findHeaderTerminator_skip plain,padding_length,findHeaderTerminator,if_pos ⟨rfl,rfl⟩,Nat.zero_add,total]

theorem declared_padding (spaces : Nat) : declared (padding spaces) = .ok 0 := by
  have lines : headerLines (padding spaces) = [padding spaces] := by
    have feed : '\n' ∉ padding spaces := fun inside => (padding_ascii spaces inside).2 rfl
    simp only [headerLines,split_absent feed (show '\n' ∈ ['\r','\n'] by decide),List.flatMap_cons,List.flatMap_nil,
      split_absent feed (show '\n' ∈ ['\n'] by decide),List.append_nil]
  have trimmed : trim (padding spaces) = zeroLine := by
    have name : zeroLine = 'C' :: zeroLine.tail := by decide
    have start : trimStart (padding spaces) = padding spaces := by
      rw [padding,name,List.cons_append,trimStart_solid (by decide)]
    rw [trim,start,padding,trimEnd_append]
    · decide
    · intro c space
      obtain ⟨_,rfl⟩ := List.mem_replicate.mp space
      decide
  have parsed : contentLength none (headerLines (padding spaces)) = .ok (some 0) := by
    have plain : contentLength none [zeroLine] = .ok (some 0) := by decide
    have same : trim zeroLine = zeroLine := by decide
    simp only [contentLength,same] at plain
    rw [lines]
    simp only [contentLength,trimmed]
    exact plain
  rw [declared,parsed]
  rfl

theorem padded_frame (spaces : Nat) : decodeFrame (padded spaces) = .ok (some ([],18+spaces)) := by
  have header : lossy ((padded spaces).take (16+spaces)) = padding spaces := by
    rw [padded,← padding_length,List.take_left,lossy_encode]
  have room : (padded spaces).length = 18+spaces := by
    rw [padded,List.length_append,padding_length]
    simp only [List.length_cons,List.length_nil]
    omega
  rw [decodeFrame_found (padded_found spaces),header,declared_padding]
  simp only
  rw [if_neg (by omega)]
  rfl

def leap (bytes : Bytes) : List Read := dribble (bytes.take headerLimit) ++ [.data (bytes.drop headerLimit)]

-- Read in one go across the limit the frame is accepted, read by the byte it
-- is refused.
theorem chunking_free_padded :
    Cuts (dribble (padded 65536)) (padded 65536) ∧ Cuts (leap (padded 65536)) (padded 65536) ∧
    (FrameReader.new (dribble (padded 65536))).bodies 1 = [.error (.headerTooLong 65536)] ∧
    (FrameReader.new (leap (padded 65536))).bodies 1 = [.ok (some [])] ∧ ¬ ChunkFree (padded 65536) := by
  have limit : headerLimit = 65536 := rfl
  have chunk : chunkLength = 8192 := rfl
  have length : (padded 65536).length = 65554 := by
    rw [padded,List.length_append,padding_length]
    rfl
  have found := padded_found 65536
  have frame := padded_frame 65536
  generalize padded 65536 = stream at *
  have behind : stream.drop headerLimit ≠ [] := List.ne_nil_of_length_pos (by rw [List.length_drop]; omega)
  have cuts : Cuts (leap stream) stream := by
    have last := Cuts.cons behind (by rw [List.length_drop]; omega) (dribble_cuts [])
    have both := (dribble_cuts (stream.take headerLimit)).append last
    rw [List.append_nil,List.take_append_drop] at both
    exact both
  have slow := (between_differs found (by omega) (by omega)).1
  have fast := nextBody_across found (by omega) behind []
  rw [List.take_append_drop,FrameReader.nextBody_whole (s:=⟨[],stream,false⟩) frame] at fast
  have refused : (FrameReader.new (dribble stream)).bodies 1 = [.error (.headerTooLong headerLimit)] := by
    rw [FrameReader.bodies,FrameReader.bodies]
    exact congrArg (· :: []) slow
  have accepted : (FrameReader.new (leap stream)).bodies 1 = [.ok (some [])] := by
    rw [FrameReader.bodies,FrameReader.bodies,FrameReader.new,leap,fast]
  refine ⟨dribble_cuts stream,cuts,refused,accepted,fun free => ?_⟩
  have same := free _ _ (dribble_cuts stream) cuts 1
  rw [refused,accepted] at same
  cases same

end PrincessIDE.Framing
