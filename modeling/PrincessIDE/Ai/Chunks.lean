import PrincessIDE.Ai.Http
import PrincessIDE.Foundation.Trim

namespace PrincessIDE.Chunks
open Utf8 (Text Bytes lossy encode)
open Str
open Http (Stop ChunkedState chunkSize walkChunks)

-- What a sum or a slice of the decoders can run into.
inductive Fault where
  | overflow
  | outOfBounds
deriving DecidableEq, Repr

def add (a b : Nat) : Except Fault Nat := if u64 ≤ a+b then .error .overflow else .ok (a+b)

def slice (body : Bytes) (start stop : Nat) : Except Fault Bytes :=
  if start ≤ stop ∧ stop ≤ body.length then .ok ((body.drop start).take (stop-start)) else .error .outOfBounds

def findCrlf (buf : Bytes) (start : Nat) : Except Fault (Option Nat) := do
  let tail ← slice buf start buf.length
  match Http.findCrlf tail with
  | none => pure none
  | some offset => return some (← add start offset)

-- One turn of the loop that both decoders have: it ends the loop, or takes a
-- chunk and goes on at `next`.
inductive Turn where
  | ended (stop : Stop)
  | chunk (data : Bytes) (next : Nat)
deriving DecidableEq, Repr

def turn (body : Bytes) (pos : Nat) : Except Fault Turn := do
  match ← findCrlf body pos with
  | none => pure (.ended .noLine)
  | some lineEnd =>
    let line := lossy (← slice body pos lineEnd)
    match chunkSize line with
    | none => pure (.ended (.badLine line))
    | some size =>
      let dataStart ← add lineEnd 2
      if size = 0 then pure (.ended .last)
      else
        let dataEnd ← add dataStart size
        let next ← add dataEnd 2
        if body.length < next then pure (.ended .short)
        else return .chunk (← slice body dataStart dataEnd) next

-- The loop, for at most so many turns.
def turns (body : Bytes) : Nat → Bytes → Nat → Except Fault (Option (Bytes × Stop))
  | 0,_,_ => pure none
  | n+1,decoded,pos => do
    match ← turn body pos with
    | .ended stop => pure (some (decoded,stop))
    | .chunk data next => turns body n (decoded++data) next

def stateOf : Bytes × Stop → ChunkedState
  | (decoded,.last) => .complete decoded
  | (_,.noLine) => .needMore
  | (_,.short) => .needMore
  | (_,.badLine line) => .malformed line
  | (_,.overflow) => .overflow

def decodeChunked (n : Nat) (body : Bytes) : Except Fault (Option ChunkedState) := return (← turns body n [] 0).map stateOf

def decodeChunkedPartial (n : Nat) (body : Bytes) : Except Fault (Option Bytes) := return (← turns body n [] 0).map Prod.fst

theorem findCrlf_bound (found : Http.findCrlf buf = some i) : i+2 ≤ buf.length := by
  induction buf generalizing i with
  | nil => cases found
  | cons b rest ih =>
    rw [Http.findCrlf] at found
    split at found
    · rename_i here
      cases found
      have lengths := congrArg List.length here
      simp only [List.length_take,List.length_cons,List.length_nil] at lengths ⊢
      omega
    · obtain ⟨inner,later,rfl⟩ := Option.map_eq_some_iff.mp found
      have bound := ih later
      simp only [List.length_cons]
      omega

theorem slice_ok (order : start ≤ stop) (inside : stop ≤ body.length) : slice body start stop = .ok ((body.drop start).take (stop-start)) :=
  if_pos ⟨order,inside⟩

theorem add_ok (small : a+b < u64) : add a b = .ok (a+b) := if_neg (by omega)

theorem add_overflow (large : u64 ≤ a+b) : add a b = .error .overflow := if_pos large

-- What a turn makes of the rest of the body: no slice of it is out of bounds,
-- and only the end of a chunk can overflow.
def turnOf (pos : Nat) (rest : Bytes) : Except Fault Turn := match Http.findCrlf rest with
  | none => .ok (.ended .noLine)
  | some i => match chunkSize (lossy (rest.take i)) with
    | none => .ok (.ended (.badLine (lossy (rest.take i))))
    | some size =>
      if size = 0 then .ok (.ended .last)
      else if u64 ≤ pos+i+2+size+2 then .error .overflow
      else if (rest.drop (i+2)).length < size+2 then .ok (.ended .short)
      else .ok (.chunk ((rest.drop (i+2)).take size) (pos+i+2+size+2))

theorem findCrlf_eq (fits : body.length < u64) (inside : pos ≤ body.length) :
    findCrlf body pos = .ok ((Http.findCrlf (body.drop pos)).map (pos + ·)) := by
  have tail : slice body pos body.length = .ok (body.drop pos) := by
    rw [slice_ok inside (Nat.le_refl _),List.take_of_length_le (Nat.le_of_eq List.length_drop)]
  unfold findCrlf
  simp only [tail,bind,Except.bind]
  cases found : Http.findCrlf (body.drop pos) with
  | none => rfl
  | some i =>
    have bound := findCrlf_bound found
    rw [List.length_drop] at bound
    simp only [add_ok (show pos+i < u64 by omega),pure,Except.pure,Option.map_some]

theorem turn_eq (fits : body.length < u64) (inside : pos ≤ body.length) : turn body pos = turnOf pos (body.drop pos) := by
  unfold turn turnOf
  rw [findCrlf_eq fits inside]
  cases found : Http.findCrlf (body.drop pos) with
  | none => rfl
  | some i =>
    have bound := findCrlf_bound found
    rw [List.length_drop] at bound
    have line : slice body pos (pos+i) = .ok ((body.drop pos).take i) := by
      rw [slice_ok (by omega) (by omega),Nat.add_sub_cancel_left]
    have start : add (pos+i) 2 = .ok (pos+i+2) := add_ok (by omega)
    simp only [bind,Except.bind,pure,Except.pure,Option.map_some,line,start]
    cases chunkSize (lossy ((body.drop pos).take i)) with
    | none => rfl
    | some size =>
      dsimp only
      by_cases last : size = 0
      · rw [if_pos last,if_pos last]
      · rw [if_neg last,if_neg last]
        by_cases large : u64 ≤ pos+i+2+size+2
        · rw [if_pos large]
          by_cases early : u64 ≤ pos+i+2+size
          · rw [add_overflow early]
          · rw [add_ok (by omega)]
            dsimp only
            rw [add_overflow large]
        · rw [if_neg large,add_ok (by omega)]
          dsimp only
          rw [add_ok (by omega),List.drop_drop,List.length_drop]
          dsimp only
          by_cases short : body.length < pos+i+2+size+2
          · rw [if_pos short,if_pos (by omega)]
          · have data : slice body (pos+i+2) (pos+i+2+size) = .ok ((body.drop (pos+i+2)).take size) := by
              rw [slice_ok (by omega) (by omega),Nat.add_sub_cancel_left]
            rw [if_neg short,if_neg (by omega),data,Nat.add_assoc]

-- The turns are those of the walk over the rest of the body.
def walked : Bytes × Stop → Except Fault (Option (Bytes × Stop))
  | (_,.overflow) => .error .overflow
  | found => .ok (some found)

theorem turns_walk (fits : body.length < u64) (inside : pos ≤ body.length) (enough : body.length - pos < n) (decoded : Bytes) :
    turns body n decoded pos = walked (walkChunks decoded pos (body.drop pos)) := by
  induction n generalizing decoded pos with
  | zero => omega
  | succ n ih =>
    rw [turns,turn_eq fits inside,turnOf,walkChunks]
    cases found : Http.findCrlf (body.drop pos) with
    | none => rfl
    | some i =>
      have bound := findCrlf_bound found
      rw [List.length_drop] at bound
      dsimp only
      cases chunkSize (lossy ((body.drop pos).take i)) with
      | none => rfl
      | some size =>
        dsimp only
        by_cases last : size = 0
        · rw [if_pos last,if_pos last]
          rfl
        · rw [if_neg last,if_neg last]
          by_cases large : u64 ≤ pos+i+2+size+2
          · rw [if_pos large,if_pos large]
            rfl
          · rw [if_neg large,if_neg large]
            by_cases short : ((body.drop pos).drop (i+2)).length < size+2
            · rw [if_pos short,if_pos short]
              rfl
            · rw [if_neg short,if_neg short]
              rw [List.length_drop,List.length_drop] at short
              change turns body n _ _ = _
              have behind : body.drop (pos+i+2+size+2) = (body.drop pos).drop (i+2+size+2) := by
                rw [List.drop_drop,show pos + (i+2+size+2) = pos+i+2+size+2 by omega]
              rw [ih (by omega) (by omega),behind]

theorem findCrlf_pair (b c : UInt8) (rest : Bytes) :
    Http.findCrlf (b::c::rest) = if b = 13 ∧ c = 10 then some 0 else (Http.findCrlf (c::rest)).map (·+1) := by
  rw [Http.findCrlf]
  exact if_congr (by simp) rfl rfl

theorem findCrlf_append (found : Http.findCrlf buf = some i) (more : Bytes) : Http.findCrlf (buf++more) = some i := by
  induction buf generalizing i with
  | nil => cases found
  | cons b buf ih =>
    cases buf with
    | nil => simp [Http.findCrlf] at found
    | cons c buf =>
      rw [findCrlf_pair] at found
      rw [List.cons_append,List.cons_append,findCrlf_pair]
      split at found
      · rename_i here
        rw [if_pos here]
        exact found
      · rename_i elsewhere
        obtain ⟨inner,later,rfl⟩ := Option.map_eq_some_iff.mp found
        rw [if_neg elsewhere,← List.cons_append,ih later]
        rfl

theorem findCrlf_line (plain : Http.findCrlf line = none) (rest : Bytes) : Http.findCrlf (line ++ 13::10::rest) = some line.length := by
  induction line with
  | nil => rfl
  | cons b line ih =>
    cases line with
    | nil =>
      change Http.findCrlf (b::13::10::rest) = _
      rw [findCrlf_pair,if_neg (by simp)]
      rfl
    | cons c line =>
      rw [findCrlf_pair] at plain
      have later : ¬ (b = 13 ∧ c = 10) := by
        intro here
        rw [if_pos here] at plain
        cases plain
      rw [if_neg later,Option.map_eq_none_iff] at plain
      rw [List.cons_append,List.cons_append,findCrlf_pair,if_neg later,← List.cons_append,ih plain]
      rfl

-- Where the line is cut, its end is not found.
theorem findCrlf_cut (plain : Http.findCrlf line = none) (rest : Bytes) (short : k < line.length+2) :
    Http.findCrlf ((line ++ 13::10::rest).take k) = none := by
  cases found : Http.findCrlf ((line ++ 13::10::rest).take k) with
  | none => rfl
  | some i =>
    have bound := findCrlf_bound found
    have whole := findCrlf_append found ((line ++ 13::10::rest).drop k)
    rw [List.take_append_drop,findCrlf_line plain] at whole
    rw [List.length_take] at bound
    cases whole
    omega

-- Chunks as the decoders take them: a line that announces how many bytes there
-- are behind it, those bytes, and two bytes that are passed over.
inductive Taken : Bytes → Bytes → Prop where
  | nil : Taken [] []
  | chunk (plain : Http.findCrlf line = none) (size : chunkSize (lossy line) = some data.length) (some : data ≠ [])
      (two : ending.length = 2) (rest : Taken more front) : Taken (data++more) (line ++ 13::10::(data ++ (ending ++ front)))

theorem walk_line (plain : Http.findCrlf line = none) (size : chunkSize (lossy line) = some n) (decoded : Bytes) (pos : Nat) (rest : Bytes) :
    walkChunks decoded pos (line ++ 13::10::rest) =
      if n = 0 then (decoded,.last)
      else if u64 ≤ pos+line.length+2+n+2 then (decoded,.overflow)
      else if rest.length < n+2 then (decoded,.short)
      else walkChunks (decoded ++ rest.take n) (pos+line.length+2+n+2) (rest.drop (n+2)) := by
  have behind : (line ++ 13::10::rest).drop (line.length+2) = rest := by
    rw [List.drop_append]
    simp
  have further : (line ++ 13::10::rest).drop (line.length+2+n+2) = rest.drop (n+2) := by
    rw [show line.length+2+n+2 = line.length+2+(n+2) by omega,← List.drop_drop,behind]
  rw [walkChunks,findCrlf_line plain]
  simp only [List.take_left,size,behind,further]

theorem walk_chunk (plain : Http.findCrlf line = none) (size : chunkSize (lossy line) = some data.length) (some : data ≠ [])
    (two : ending.length = 2) (fits : pos + line.length+2+data.length+2 < u64) (decoded rest : Bytes) :
    walkChunks decoded pos (line ++ 13::10::(data ++ (ending ++ rest))) = walkChunks (decoded++data) (pos+line.length+2+data.length+2) rest := by
  have filled := List.length_pos_iff.mpr some
  have behind : (data ++ (ending ++ rest)).drop (data.length+2) = rest := by
    rw [List.drop_append,List.drop_of_length_le (by omega),List.nil_append,Nat.add_sub_cancel_left,← two,List.drop_left]
  rw [walk_line plain size,if_neg (by omega),if_neg (by omega),if_neg (by simp only [List.length_append]; omega),List.take_left,behind]

theorem walk_taken (taken : Taken data front) (fits : pos + front.length < u64) (decoded rest : Bytes) :
    walkChunks decoded pos (front ++ rest) = walkChunks (decoded++data) (pos+front.length) rest := by
  induction taken generalizing decoded pos with
  | nil => rw [List.nil_append,List.append_nil,List.length_nil,Nat.add_zero]
  | @chunk line data more front ending plain size some two _ ih =>
    simp only [List.length_append,List.length_cons] at fits
    have whole : line ++ 13::10::(data ++ (ending ++ front)) ++ rest = line ++ 13::10::(data ++ (ending ++ (front ++ rest))) := by
      simp only [List.append_assoc,List.cons_append]
    have length : pos + (line ++ 13::10::(data ++ (ending ++ front))).length = pos+line.length+2+data.length+2+front.length := by
      simp only [List.length_append,List.length_cons]
      omega
    rw [whole,walk_chunk plain size some two (by omega),ih (by omega),length,List.append_assoc]

theorem take_line (line rest : Bytes) (j : Nat) : (line ++ 13::10::rest).take (line.length+2+j) = line ++ 13::10::rest.take j := by
  rw [Nat.add_assoc,List.take_length_add_append,Nat.add_comm 2 j]
  rfl

-- A body that is cut before its last size line is complete: what is found in it
-- is in front of the cut, by induction on the chunks.
theorem walk_cut (taken : Taken data front) (plain : Http.findCrlf line = none) (fits : pos + front.length < u64)
    (short : k < front.length + line.length + 2) (decoded tail : Bytes) :
    ∃ out stop, walkChunks decoded pos ((front ++ (line ++ 13::10::tail)).take k) = (decoded++out,stop) ∧ out <+: data ∧
      (stop = .noLine ∨ stop = .short) := by
  have unfinished : ∀ {l r : Bytes} {j : Nat}, Http.findCrlf l = none → j < l.length+2 → ∀ decoded pos,
      walkChunks decoded pos ((l ++ 13::10::r).take j) = (decoded,.noLine) := by
    intro l r j plain short decoded pos
    rw [walkChunks,findCrlf_cut plain r short]
  induction taken generalizing decoded pos k with
  | nil =>
    rw [List.length_nil,Nat.zero_add] at short
    exact ⟨[],.noLine,by rw [List.nil_append,List.append_nil,unfinished plain short],List.nil_prefix,.inl rfl⟩
  | @chunk l data more front ending lineEnds size some two _ ih =>
    have filled := List.length_pos_iff.mpr some
    simp only [List.length_append,List.length_cons] at fits short
    have whole : l ++ 13::10::(data ++ (ending ++ front)) ++ (line ++ 13::10::tail) =
        l ++ 13::10::(data ++ (ending ++ (front ++ (line ++ 13::10::tail)))) := by
      simp only [List.append_assoc,List.cons_append]
    rw [whole]
    by_cases inLine : k < l.length+2
    · exact ⟨[],.noLine,by rw [List.append_nil,unfinished lineEnds inLine],List.nil_prefix,.inl rfl⟩
    · obtain ⟨j,rfl⟩ : ∃ j, k = l.length+2+j := ⟨k-(l.length+2),by omega⟩
      rw [take_line]
      by_cases inData : j < data.length+2
      · refine ⟨[],.short,?_,List.nil_prefix,.inr rfl⟩
        have fewer : ((data ++ (ending ++ (front ++ (line ++ 13::10::tail)))).take j).length < data.length+2 :=
          Nat.lt_of_le_of_lt (List.length_take_le _ _) inData
        rw [walk_line lineEnds size,if_neg (by omega),if_neg (by omega),if_pos fewer,List.append_nil]
      · obtain ⟨m,rfl⟩ : ∃ m, j = data.length+(ending.length+m) := ⟨j-(data.length+2),by omega⟩
        obtain ⟨out,stop,walks,found,ends⟩ := @ih (pos+l.length+2+data.length+2) m (by omega) (by omega) (decoded++data)
        rw [List.take_length_add_append,List.take_length_add_append,walk_chunk lineEnds size some two (by omega),walks]
        exact ⟨data++out,stop,by rw [List.append_assoc],List.prefix_append_right_inj data |>.mpr found,ends⟩

theorem findCrlf_split (found : Http.findCrlf buf = some i) : ∃ line rest, buf = line ++ 13::10::rest ∧ Http.findCrlf line = none := by
  induction buf generalizing i with
  | nil => cases found
  | cons b buf ih =>
    cases buf with
    | nil => simp [Http.findCrlf] at found
    | cons c buf =>
      rw [findCrlf_pair] at found
      split at found
      · rename_i here
        exact ⟨[],buf,by rw [here.1,here.2]; rfl,rfl⟩
      · rename_i elsewhere
        obtain ⟨inner,later,_⟩ := Option.map_eq_some_iff.mp found
        obtain ⟨line,rest,whole,plain⟩ := ih later
        refine ⟨b::line,rest,by rw [whole]; rfl,?_⟩
        cases line with
        | nil => simp [Http.findCrlf]
        | cons d line =>
          rw [List.cons_append,List.cons.injEq] at whole
          rw [findCrlf_pair,← whole.1,if_neg elsewhere,whole.1,plain]
          rfl

-- Behind some chunks stands a line that announces more than a sum can hold.
def Overlong (pos : Nat) (body : Bytes) : Prop :=
  ∃ data front line rest n, Taken data front ∧ body = front ++ (line ++ 13::10::rest) ∧ Http.findCrlf line = none ∧
    chunkSize (lossy line) = some n ∧ n ≠ 0 ∧ u64 ≤ pos + front.length + line.length+2+n+2

theorem overlong_overflow (fits : pos + body.length < u64) (overlong : Overlong pos body) (decoded : Bytes) :
    (walkChunks decoded pos body).2 = .overflow := by
  obtain ⟨data,front,line,rest,n,taken,rfl,plain,size,some,large⟩ := overlong
  rw [List.length_append] at fits
  rw [walk_taken taken (by omega),walk_line plain size,if_neg some,if_pos large]

theorem Overlong.behind (plain : Http.findCrlf line = none) (size : chunkSize (lossy line) = some data.length) (some : data ≠ [])
    (two : ending.length = 2) (later : Overlong (pos+line.length+2+data.length+2) rest) :
    Overlong pos (line ++ 13::10::(data ++ (ending ++ rest))) := by
  obtain ⟨more,front,last,tail,n,taken,rfl,lastPlain,lastSize,large⟩ := later
  refine ⟨data++more,_,last,tail,n,.chunk plain size some two taken,by simp only [List.append_assoc,List.cons_append],lastPlain,lastSize,
    large.1,?_⟩
  have reached := large.2
  simp only [List.length_append,List.length_cons]
  omega

-- By induction on the length of the rest: each turn that goes on takes a chunk.
theorem overflow_overlong (overflows : (walkChunks decoded pos body).2 = .overflow) : Overlong pos body := by
  induction length : body.length using Nat.strongRecOn generalizing decoded pos body with
  | _ length ih =>
    cases found : Http.findCrlf body with
    | none =>
      rw [walkChunks,found] at overflows
      cases overflows
    | some i =>
      obtain ⟨line,rest,rfl,plain⟩ := findCrlf_split found
      cases size : chunkSize (lossy line) with
      | none =>
        rw [walkChunks,findCrlf_line plain] at overflows
        simp only [List.take_left,size] at overflows
        cases overflows
      | some n =>
        rw [walk_line plain size] at overflows
        split at overflows
        · cases overflows
        · rename_i some
          split at overflows
          · rename_i large
            exact ⟨[],[],line,rest,n,.nil,rfl,plain,size,some,large⟩
          · split at overflows
            · cases overflows
            · rename_i room
              have cut : rest = rest.take n ++ ((rest.drop n).take 2 ++ rest.drop (n+2)) := by
                rw [← List.drop_drop,List.take_append_drop,List.take_append_drop]
              have taken : (rest.take n).length = n := List.length_take_of_le (by omega)
              have later := ih _ (by rw [← length]; simp only [List.length_append,List.length_cons,List.length_drop]; omega) overflows rfl
              rw [cut]
              refine Overlong.behind plain (by rw [taken]; exact size) (fun none => some (by rw [← taken,none]; rfl)) ?_ (by rw [taken]; exact later)
              rw [List.length_take,List.length_drop]
              omega

-- The number that hex digits of either case write.
def hexNumber (digits : Text) : Nat := digits.foldl (fun value c => value*16 + (digitValue 16 c).getD 0) 0

-- A size line: the number, and extensions behind a semicolon that may have blanks
-- in front of it.
inductive SizeLine (n : Nat) : Bytes → Prop where
  | plain (digits : Text) : digits ≠ [] → (∀ c ∈ digits, isHexDigit c = true) → hexNumber digits = n → SizeLine n (encode digits)
  | extended (digits blanks : Text) (extensions : Bytes) : digits ≠ [] → (∀ c ∈ digits, isHexDigit c = true) → hexNumber digits = n →
      (∀ c ∈ blanks, c = ' ' ∨ c = '\t') → Http.findCrlf extensions = none → SizeLine n (encode (digits++blanks) ++ 59::extensions)

inductive ChunksOf : Bytes → Bytes → Prop where
  | nil : ChunksOf [] []
  | chunk : SizeLine data.length line → data ≠ [] → ChunksOf more front →
      ChunksOf (data++more) (line ++ 13::10::(data ++ (13::10::front)))

-- A chunked encoding: chunks, the size line of zero, and the trailers.
structure Encoding (data front line trailers body : Bytes) : Prop where
  chunks : ChunksOf data front
  last : SizeLine 0 line
  whole : body = front ++ (line ++ 13::10::trailers)

theorem readDigits_hexNumber (digits : ∀ c ∈ t, isHexDigit c = true)
    (small : t.foldl (fun value c => value*16 + (digitValue 16 c).getD 0) v < bound) : readDigits 16 bound v t =
      some (t.foldl (fun value c => value*16 + (digitValue 16 c).getD 0) v) := by
  have grows : ∀ (t : Text) (v : Nat), v ≤ t.foldl (fun value c => value*16 + (digitValue 16 c).getD 0) v := by
    intro t
    induction t with
    | nil => exact fun v => Nat.le_refl v
    | cons c t ih =>
      intro v
      have later := ih (v*16 + (digitValue 16 c).getD 0)
      rw [List.foldl_cons]
      omega
  induction t generalizing v with
  | nil => rfl
  | cons c t ih =>
    obtain ⟨d,value⟩ := Option.isSome_iff_exists.mp (digits c List.mem_cons_self)
    rw [List.foldl_cons,value,Option.getD_some] at small ⊢
    have below := Nat.lt_of_le_of_lt (grows t (v*16+d)) small
    rw [readDigits,value]
    dsimp only
    rw [if_pos below,ih (fun c member => digits c (List.mem_cons_of_mem _ member)) small]

theorem fromStrRadix_hexNumber (filled : t ≠ []) (digits : ∀ c ∈ t, isHexDigit c = true) (small : hexNumber t < bound) :
    fromStrRadix 16 bound t = some (hexNumber t) := by
  have read := readDigits_hexNumber digits small
  cases t with
  | nil => exact absurd rfl filled
  | cons c t =>
    rw [fromStrRadix,if_neg (hexDigit_plain (digits c List.mem_cons_self)).2.2.1]
    exact read

theorem hex_trimmed (digits : ∀ c ∈ t, isHexDigit c = true) : Trimmed t :=
  ⟨fun c first => (hexDigit_plain (digits c (List.mem_of_mem_head? first))).1,
    fun c last => (hexDigit_plain (digits c (List.mem_of_mem_getLast? last))).1⟩

theorem findCrlf_behind (absent : 13 ∉ front) (plain : Http.findCrlf rest = none) : Http.findCrlf (front ++ rest) = none := by
  induction front with
  | nil => exact plain
  | cons b front ih =>
    have other : ¬ (b::(front++rest)).take 2 = [13,10] := by
      intro here
      simp only [List.take_succ_cons,List.cons.injEq] at here
      exact absent (here.1 ▸ List.mem_cons_self)
    rw [List.cons_append,Http.findCrlf,if_neg other,ih fun later => absent (List.mem_cons_of_mem _ later)]
    rfl

theorem hex_other {t : Text} (foreign : isHexDigit c = false) (digits : ∀ c ∈ t, isHexDigit c = true) : c ∉ t := fun member => by
  rw [digits c member] at foreign
  cases foreign

theorem SizeLine.plain_line (line : SizeLine n bs) : Http.findCrlf bs = none := by
  have free : ∀ t : Text, '\r' ∉ t → 13 ∉ encode t := fun t absent inside => absent (Utf8.ascii_encode (by decide) inside)
  cases line with
  | plain digits _ hex _ =>
    have alone : Http.findCrlf (encode digits ++ []) = none := findCrlf_behind (free digits (hex_other (by decide) hex)) rfl
    rwa [List.append_nil] at alone
  | extended digits blanks extensions _ hex _ blank plain =>
    have semicolon : Http.findCrlf ([59] ++ extensions) = none := findCrlf_behind (by decide) plain
    refine findCrlf_behind (free _ fun inside => ?_) semicolon
    rcases List.mem_append.mp inside with digit | gap
    · exact hex_other (by decide) hex digit
    · rcases blank _ gap with same | same <;> cases same

theorem SizeLine.size (line : SizeLine n bs) (small : n < u64) : chunkSize (lossy bs) = some n := by
  cases line with
  | plain digits filled hex value =>
    subst value
    rw [Utf8.lossy_encode,chunkSize,split_absent (hex_other (by decide) hex) List.mem_cons_self,List.headD_cons,(hex_trimmed hex).trim_eq]
    exact fromStrRadix_hexNumber filled hex small
  | extended digits blanks extensions filled hex value blank _ =>
    subst value
    have shown : lossy (encode (digits++blanks) ++ 59::extensions) = (digits++blanks) ++ ';' :: lossy extensions := by
      have semicolon : lossy (encode [';'] ++ extensions) = [';'] ++ lossy extensions := Utf8.lossy_front _ _
      rw [Utf8.lossy_front]
      exact congrArg _ semicolon
    have absent : ';' ∉ digits++blanks := by
      rw [List.mem_append]
      rintro (digit | gap)
      · exact hex_other (by decide) hex digit
      · rcases blank _ gap with same | same <;> cases same
    have white : ∀ c ∈ blanks, isWhitespace c = true := by
      intro c gap
      rcases blank c gap with rfl | rfl <;> decide
    rw [shown,chunkSize,split_char absent,List.headD_cons,trim_append white,(hex_trimmed hex).trim_eq]
    exact fromStrRadix_hexNumber filled hex small

theorem ChunksOf.taken (chunks : ChunksOf data front) (fits : front.length < u64) : Taken data front := by
  induction chunks with
  | nil => exact .nil
  | @chunk data line more front size some _ ih =>
    simp only [List.length_append,List.length_cons] at fits
    have two : ([13,10] : Bytes).length = 2 := rfl
    exact .chunk size.plain_line (size.size (by omega)) some two (ih (by omega))

-- What the decoders make of a body when there are turns enough.
theorem decodeChunked_eq (fits : body.length < u64) (enough : body.length < n) :
    decodeChunked n body = return (← walked (walkChunks [] 0 body)).map stateOf := by
  unfold decodeChunked
  rw [turns_walk fits (Nat.zero_le _) (by omega)]
  rfl

theorem decodeChunkedPartial_eq (fits : body.length < u64) (enough : body.length < n) :
    decodeChunkedPartial n body = return (← walked (walkChunks [] 0 body)).map Prod.fst := by
  unfold decodeChunkedPartial
  rw [turns_walk fits (Nat.zero_le _) (by omega)]
  rfl

-- That the decoders do with a body what they should: they come to an end without
-- a sum that overflows or a slice that is out of bounds, however many turns more
-- they are given; and if the body is an encoding, so they find the data, and in
-- front of a cut no more than is there.
structure Lawful (body : Bytes) : Prop where
  ends : ∃ state out, ∀ n, body.length < n → decodeChunked n body = .ok (some state) ∧ decodeChunkedPartial n body = .ok (some out)
  whole : ∀ data front line trailers, Encoding data front line trailers body → ∀ n, body.length < n →
    decodeChunked n body = .ok (some (.complete data)) ∧ decodeChunkedPartial n body = .ok (some data)
  unfinished : ∀ data front line trailers, Encoding data front line trailers body → ∀ k n, k < front.length + line.length + 2 → k < n →
    decodeChunked n (body.take k) = .ok (some .needMore)
  front : ∀ data front line trailers, Encoding data front line trailers body → ∀ k n, body.length < n →
    ∃ out, decodeChunkedPartial n (body.take k) = .ok (some out) ∧ out <+: data

theorem walked_ok (calm : (walkChunks decoded pos body).2 ≠ .overflow) :
    walked (walkChunks decoded pos body) = .ok (some (walkChunks decoded pos body)) := by
  cases found : walkChunks decoded pos body with
  | mk out stop =>
    rw [found] at calm
    cases stop with
    | overflow => exact absurd rfl calm
    | _ => rfl

theorem decoded_ok (fits : body.length < u64) (walks : walkChunks [] 0 body = found) (calm : found.2 ≠ .overflow) (enough : body.length < n) :
    decodeChunked n body = .ok (some (stateOf found)) ∧ decodeChunkedPartial n body = .ok (some found.1) := by
  subst walks
  rw [decodeChunked_eq fits enough,decodeChunkedPartial_eq fits enough,walked_ok calm]
  exact ⟨rfl,rfl⟩

theorem decoded_overflow (fits : body.length < u64) (overflows : (walkChunks [] 0 body).2 = .overflow) (enough : body.length < n) :
    decodeChunked n body = .error .overflow ∧ decodeChunkedPartial n body = .error .overflow := by
  have stops : walked (walkChunks [] 0 body) = .error .overflow := by
    cases found : walkChunks [] 0 body with
    | mk out stop =>
      rw [found] at overflows
      cases overflows
      rfl
  rw [decodeChunked_eq fits enough,decodeChunkedPartial_eq fits enough,stops]
  exact ⟨rfl,rfl⟩

-- A cut of an encoding: in front of the end of the last size line, or behind it.
theorem Encoding.cut (encoding : Encoding data front line trailers body) (fits : body.length < u64) (k : Nat) :
    ∃ out stop, walkChunks [] 0 (body.take k) = (out,stop) ∧ out <+: data ∧
      if k < front.length + line.length + 2 then stop = .noLine ∨ stop = .short else out = data ∧ stop = .last := by
  obtain ⟨chunks,last,rfl⟩ := encoding
  rw [List.length_append] at fits
  have taken := chunks.taken (by omega)
  by_cases short : k < front.length + line.length + 2
  · obtain ⟨out,stop,walks,found,ends⟩ := walk_cut taken last.plain_line (by omega : 0 + front.length < u64) short [] trailers
    exact ⟨out,stop,walks,found,by rwa [if_pos short]⟩
  · obtain ⟨j,rfl⟩ : ∃ j, k = front.length + (line.length + 2 + j) := ⟨k-(front.length+line.length+2),by omega⟩
    refine ⟨data,.last,?_,List.prefix_refl _,by rw [if_neg short]; exact ⟨rfl,rfl⟩⟩
    rw [List.take_length_add_append,take_line,walk_taken taken (by omega),walk_line last.plain_line (last.size (by decide)),if_pos rfl]
    rfl

theorem Encoding.walk (encoding : Encoding data front line trailers body) (fits : body.length < u64) : walkChunks [] 0 body = (data,.last) := by
  obtain ⟨out,stop,walks,_,ends⟩ := encoding.cut fits body.length
  have long : ¬ body.length < front.length + line.length + 2 := by
    rw [encoding.whole]
    simp only [List.length_append,List.length_cons]
    omega
  rw [if_neg long] at ends
  rw [List.take_length] at walks
  rw [walks,ends.1,ends.2]

-- Where no line announces too much, a body is decoded as it should be.
theorem chunked_lawful_iff (fits : body.length < u64) : Lawful body ↔ ¬ Overlong 0 body := by
  constructor
  · intro lawful overlong
    obtain ⟨state,out,ends⟩ := lawful.ends
    have calm := (ends (body.length+1) (Nat.lt_succ_self _)).1
    rw [(decoded_overflow fits (overlong_overflow (by omega) overlong []) (Nat.lt_succ_self _)).1] at calm
    cases calm
  · intro bounded
    have calm : (walkChunks [] 0 body).2 ≠ .overflow := fun overflows => bounded (overflow_overlong overflows)
    refine ⟨⟨_,_,fun n enough => decoded_ok fits rfl calm enough⟩,fun data front line trailers encoding n enough => ?_,
      fun data front line trailers encoding k n short enough => ?_,fun data front line trailers encoding k n enough => ?_⟩
    · exact decoded_ok fits (encoding.walk fits) (by simp) enough
    · obtain ⟨out,stop,walks,_,ends⟩ := encoding.cut fits k
      have fewer := List.length_take_le k body
      have within := List.length_take_le' k body
      rw [if_pos short] at ends
      rcases ends with rfl | rfl
      · exact (decoded_ok (by omega) walks (by simp) (by omega)).1
      · exact (decoded_ok (by omega) walks (by simp) (by omega)).1
    · obtain ⟨out,stop,walks,found,ends⟩ := encoding.cut fits k
      have within := List.length_take_le' k body
      refine ⟨out,(decoded_ok (by omega) walks ?_ (by omega)).2,found⟩
      split at ends
      · rcases ends with rfl | rfl <;> simp
      · rw [ends.2]
        simp

theorem chunked_lawful_once : Http.oneChunk.length < u64 ∧ (Lawful Http.oneChunk ↔ ¬ Overlong 0 Http.oneChunk) :=
  ⟨by decide,chunked_lawful_iff (by decide)⟩

-- The largest size that a size line can announce.
def hugeChunk : Bytes := encode "ffffffffffffffff\r\n".toList

theorem hugeChunk_overflows : decodeChunked 19 hugeChunk = .error .overflow ∧ decodeChunkedPartial 19 hugeChunk = .error .overflow ∧
    ¬ ∀ body : Bytes, body.length < u64 → Lawful body := by
  have line : SizeLine (u64-1) (encode "ffffffffffffffff".toList) := .plain _ (by decide) (List.all_eq_true.mp (by decide)) (by decide)
  have overlong : Overlong 0 hugeChunk :=
    ⟨[],[],_,[],u64-1,.nil,rfl,line.plain_line,line.size (by decide),by decide,by decide⟩
  have fits : hugeChunk.length < u64 := by decide
  have fails : ∀ n, hugeChunk.length < n → decodeChunked n hugeChunk = .error .overflow ∧ decodeChunkedPartial n hugeChunk = .error .overflow :=
    fun n enough => decoded_overflow fits (overlong_overflow fits overlong []) enough
  refine ⟨(fails 19 (by decide)).1,(fails 19 (by decide)).2,fun law => ?_⟩
  obtain ⟨state,out,ends⟩ := (law hugeChunk fits).ends
  have calm := (ends 19 (by decide)).1
  rw [(fails 19 (by decide)).1] at calm
  cases calm

end PrincessIDE.Chunks
