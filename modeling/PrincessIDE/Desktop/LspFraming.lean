import Mathlib.Data.List.ReduceOption
import PrincessIDE.Debug.Chunking
import PrincessIDE.Foundation.Drain

namespace PrincessIDE.Lsp
open Utf8 (Text Bytes encode lossy fromUtf8)
open Str Framing Drain

-- `read_line`: up to a newline, which it takes along, or to the end.
def cutLine : Bytes → Bytes × Bytes
  | [] => ([],[])
  | b :: rest => if b = 10 then ([b],rest) else (b :: (cutLine rest).1,(cutLine rest).2)

-- No line is the end of the stream, or one that is not UTF-8: the reader returns.
def readLine (stream : Bytes) : Option (Text × Bytes) :=
  if stream = [] then none
  else match fromUtf8 (cutLine stream).1 with
    | .ok line => some (line,(cutLine stream).2)
    | .error _ => none

def headerName : Text := "Content-Length:".toList

def noteLength (found : Option Nat) (trimmed : Text) : Option Nat := match stripPrefix headerName trimmed with
  | none => found
  | some value => match fromStrRadix 10 u64 (trim value) with
    | none => found
    | some n => some n

-- Up to the blank line; every line is at least one byte long, so that the
-- length of the stream bounds the rounds.
def readHeaders : Nat → Option Nat → Bytes → Option (Option Nat × Bytes)
  | 0,_,_ => none
  | n+1,found,stream => match readLine stream with
    | none => none
    | some (line,rest) => if trim line = [] then some (found,rest) else readHeaders n (noteLength found (trim line)) rest

-- A header block without a length is passed over.
def readFrame : Reader UInt8 (Option Text) := fun stream => match readHeaders stream.length none stream with
  | none => none
  | some (none,rest) => some (none,rest)
  | some (some len,rest) => if rest.length < len then none else some (some (lossy (rest.take len)),rest.drop len)

-- The messages that `read_lsp_stream` emits for what a server writes to its stdout.
def readLspStream (stream : Bytes) : List Text := (drain readFrame stream).1.reduceOption

-- What `lsp_send` writes to the stdin of a server.
def frameMessage (msg : Text) : Bytes :=
  encode ("Content-Length: ".toList ++ decimal (encode msg).length ++ "\r\n\r\n".toList) ++ encode msg

-- The frames that `decode_frame` takes off a stream, one behind the other.
def decodeNext : Reader UInt8 Text := fun stream => match decodeFrame stream with
  | .ok (some (body,used)) => some (body,stream.drop used)
  | _ => none

def decodeFrames (stream : Bytes) : List Text := (drain decodeNext stream).1

theorem cutLine_whole (stream : Bytes) : (cutLine stream).1 ++ (cutLine stream).2 = stream := by
  induction stream with
  | nil => rfl
  | cons b rest ih =>
    unfold cutLine
    split
    · rfl
    · exact congrArg (b :: ·) ih

theorem readLine_shorter (read : readLine stream = some (line,rest)) : rest.length < stream.length := by
  unfold readLine at read
  split at read
  · cases read
  · rename_i nonempty
    have taken : (cutLine stream).1 ≠ [] := by
      cases stream with
      | nil => exact absurd rfl nonempty
      | cons b rest =>
        unfold cutLine
        split <;> exact List.cons_ne_nil _ _
    have lengths := congrArg List.length (cutLine_whole stream)
    have positive := List.length_pos_iff.mpr taken
    rw [List.length_append] at lengths
    split at read
    · cases read
      omega
    · cases read

theorem readHeaders_shorter (read : readHeaders n found stream = some (length,rest)) : rest.length < stream.length := by
  induction n generalizing found stream with
  | zero => cases read
  | succ n ih =>
    rw [readHeaders] at read
    cases line : readLine stream with
    | none => rw [line] at read; cases read
    | some cut =>
      obtain ⟨text,later⟩ := cut
      have shorter := readLine_shorter line
      rw [line] at read
      dsimp only at read
      split at read
      · cases read
        exact shorter
      · exact Nat.lt_trans (ih read) shorter

theorem readFrame_shortens : Shortens readFrame := by
  intro stream message rest read
  unfold readFrame at read
  cases headers : readHeaders stream.length none stream with
  | none => rw [headers] at read; cases read
  | some found =>
    obtain ⟨length,later⟩ := found
    have shorter := readHeaders_shorter headers
    rw [headers] at read
    cases length with
    | none => cases read; exact shorter
    | some len =>
      dsimp only at read
      split at read
      · cases read
      · cases read
        rw [List.length_drop]
        omega

-- A line that ends is read whole.
theorem cutLine_line (plain : 10 ∉ line) (rest : Bytes) : cutLine (line ++ 10 :: rest) = (line ++ [10],rest) := by
  induction line with
  | nil => rfl
  | cons b line ih =>
    have other : b ≠ 10 := fun same => plain (by simp [same])
    rw [List.cons_append,cutLine,if_neg other,ih fun inside => plain (List.mem_cons_of_mem _ inside)]
    rfl

theorem encode_plain (plain : '\n' ∉ t) : 10 ∉ encode t := fun inside => plain (Utf8.ascii_encode (by decide) inside)

theorem encode_line (t : Text) : encode (t ++ ['\n']) = encode t ++ [10] := Utf8.encode_append t ['\n']

theorem readLine_line (plain : '\n' ∉ t) (rest : Bytes) : readLine (encode (t++['\n']) ++ rest) = some (t++['\n'],rest) := by
  have cut : cutLine (encode (t++['\n']) ++ rest) = (encode (t++['\n']),rest) := by
    rw [encode_line,List.append_assoc,List.singleton_append,cutLine_line (encode_plain plain)]
  have some : encode (t++['\n']) ++ rest ≠ [] := by
    rw [encode_line,List.append_assoc]
    exact List.append_ne_nil_of_right_ne_nil _ (List.cons_ne_nil _ _)
  rw [readLine,if_neg some,cut,Utf8.fromUtf8_encode]

-- A header field `name: value` with its line ending.
structure Header where
  name : Text
  value : Text
  crlf : Bool
  named : name ≠ []
  solid : trim name = name
  single : ':' ∉ name ∧ '\n' ∉ name
  plain : '\n' ∉ value

def ending (crlf : Bool) : Text := if crlf then ['\r'] else []

-- The line of a header, its newline apart.
def Header.line (h : Header) : Text := h.name ++ ':' :: (h.value ++ ending h.crlf)

theorem ending_blank (crlf : Bool) : ∀ c ∈ ending crlf, isWhitespace c = true := by
  cases crlf <;> exact List.all_eq_true.mp (by decide)

theorem ending_plain (crlf : Bool) : '\n' ∉ ending crlf := by
  cases crlf <;> decide

theorem Header.line_plain (h : Header) : '\n' ∉ h.line := by
  simp only [line,List.mem_append,List.mem_cons,not_or]
  exact ⟨h.single.2,by decide,h.plain,ending_plain h.crlf⟩

-- A name that trimming leaves alone starts with no blank.
theorem solid_start {t : Text} (named : t ≠ []) (solid : trim t = t) : ∃ c rest, t = c :: rest ∧ isWhitespace c = false := by
  obtain ⟨c,rest,rfl⟩ := List.exists_cons_of_ne_nil named
  refine ⟨c,rest,rfl,?_⟩
  by_contra blank
  have start : trimStart (c::rest) = trimStart rest := by
    simp [trimStart,Bool.not_eq_false _ ▸ blank]
  obtain ⟨tail,cut,_⟩ := trimEndMatches_cut isWhitespace (trimStart rest)
  obtain ⟨blanks,front,_⟩ := trimStart_cut rest
  have whole : trimStart rest = (c::rest) ++ tail := by
    rw [trim,start] at solid
    exact cut.trans (congrArg (· ++ tail) solid)
  have lengths := congrArg List.length front
  rw [whole] at lengths
  simp only [List.length_append,List.length_cons] at lengths
  omega

theorem Header.trim_line (h : Header) (blank : ∀ c ∈ tail, isWhitespace c = true) :
    trim (h.line ++ tail) = h.name ++ ':' :: trimEnd h.value := by
  obtain ⟨c,rest,name,solid⟩ := solid_start h.named h.solid
  rw [trim_append blank,trim]
  have start : trimStart h.line = h.line := by
    rw [line,name,List.cons_append]
    exact trimStart_solid solid _
  rw [start,line,trimEnd_behind (by decide),trimEnd_append (ending_blank h.crlf)]

theorem headerName_colon (value : Text) : headerName ++ value = headerLength ++ ':' :: value := by
  have name : headerName = headerLength ++ [':'] := by decide
  rw [name,List.append_assoc]
  rfl

-- The exact spelling of the name is what the shell looks for.
theorem noteLength_header (h : Header) (found : Option Nat) : noteLength found (h.name ++ ':' :: trimEnd h.value) =
    if h.name = headerLength then (fromStrRadix 10 u64 (trim (trimEnd h.value))).or found else found := by
  unfold noteLength
  split
  · rename_i absent
    rw [if_neg]
    intro same
    have present := stripPrefix_append headerName (trimEnd h.value)
    rw [headerName_colon,← same] at present
    cases absent.symm.trans present
  · rename_i value present
    have cut := stripPrefix_eq present
    have left := splitOnce_char h.single.1 (trimEnd h.value)
    have right := splitOnce_char (show ':' ∉ headerLength by decide) value
    rw [← headerName_colon,← cut,left] at right
    obtain ⟨named,same⟩ := Prod.mk.inj (Option.some.inj right)
    rw [if_pos named,same]
    cases fromStrRadix 10 u64 (trim value) <;> rfl

theorem contentLength_header (h : Header) (found : Option Nat) (rest : List Text) :
    contentLength found (h.line :: rest) =
      if eqIgnoreAsciiCase h.name headerLength then match fromStrRadix 10 u64 (trim (trimEnd h.value)) with
        | none => .error (.badContentLength (trim (trimEnd h.value)))
        | some parsed => contentLength (some parsed) rest
      else contentLength found rest := by
  have trimmed := h.trim_line (List.forall_mem_nil _)
  rw [List.append_nil] at trimmed
  have solid : h.name ++ ':' :: trimEnd h.value ≠ [] := List.append_ne_nil_of_right_ne_nil _ (List.cons_ne_nil _ _)
  rw [contentLength]
  simp only [trimmed,if_neg solid,splitOnce_char h.single.1,h.solid]
  all_goals rfl

-- The lines of a header block up to the newline of the last one.
def headerText : List Header → Text
  | [] => []
  | [h] => h.line
  | h :: rest => h.line ++ '\n' :: headerText rest

def blockText (hs : List Header) (ended : Bool) : Text := hs.flatMap (fun h => h.line ++ ['\n']) ++ ending ended ++ ['\n']

theorem blockText_cut (nonempty : hs ≠ []) (ended : Bool) : blockText hs ended = headerText hs ++ '\n' :: (ending ended ++ ['\n']) := by
  induction hs with
  | nil => exact absurd rfl nonempty
  | cons h rest ih =>
    cases rest with
    | nil => simp [blockText,headerText]
    | cons next rest =>
      have later := ih (List.cons_ne_nil _ _)
      have tail : headerText (h :: next :: rest) = h.line ++ '\n' :: headerText (next :: rest) := rfl
      have front : blockText (h :: next :: rest) ended = h.line ++ '\n' :: blockText (next :: rest) ended := by simp [blockText]
      rw [front,later,tail]
      simp

theorem split_headerText (nonempty : hs ≠ []) : split ['\n'] (headerText hs) = hs.map Header.line := by
  induction hs with
  | nil => exact absurd rfl nonempty
  | cons h rest ih =>
    cases rest with
    | nil => exact split_absent h.line_plain (List.mem_singleton.mpr rfl)
    | cons next rest =>
      rw [headerText,split_char h.line_plain,ih (List.cons_ne_nil _ _)]
      · rfl
      · exact nofun

-- Whichever way the line endings are split off, the trimmed lines are the same.
theorem headerLines_trim (t : Text) : (headerLines t).map trim = (split ['\n'] t).map trim := by
  induction h : t.length using Nat.strong_induction_on generalizing t with
  | _ length ih =>
    cases found : splitOnce ['\r','\n'] t with
    | none => simp [headerLines,split_none found]
    | some cut =>
      obtain ⟨a,rest⟩ := cut
      have shorter := splitOnce_short (List.cons_ne_nil _ _) found
      have later := ih rest.length (h ▸ shorter) rest rfl
      have whole : t = (a ++ ['\r']) ++ '\n' :: rest := by
        rw [splitOnce_eq found]
        simp
      have returned : (split ['\n'] (a ++ ['\r'])).map trim = (split ['\n'] a).map trim := split_returned a
      rw [headerLines,split_found (List.cons_ne_nil _ _) found,List.flatMap_cons,List.map_append,whole,split_behind,List.map_append,
        returned,← later]
      rfl
where
  split_returned (a : Text) : (split ['\n'] (a ++ ['\r'])).map trim = (split ['\n'] a).map trim := by
    induction h : a.length using Nat.strong_induction_on generalizing a with
    | _ length ih =>
      by_cases inside : '\n' ∈ a
      · obtain ⟨line,rest,rfl,absent⟩ := List.eq_append_cons_of_mem inside
        have shorter : rest.length < length := by
          rw [← h,List.length_append,List.length_cons]
          omega
        rw [List.append_assoc,List.cons_append,split_char absent,split_char absent,List.map_cons,List.map_cons,ih _ shorter rest rfl]
      · have still : '\n' ∉ a ++ ['\r'] := by simpa using inside
        rw [split_absent still (List.mem_singleton.mpr rfl),split_absent inside (List.mem_singleton.mpr rfl),List.map_singleton,
          List.map_singleton,trim_append (List.all_eq_true.mp (by decide))]

theorem contentLength_trim (same : as.map trim = bs.map trim) (found : Option Nat) : contentLength found as = contentLength found bs := by
  induction as generalizing bs found with
  | nil =>
    cases bs with
    | nil => rfl
    | cons b bs => cases same
  | cons a as ih =>
    cases bs with
    | nil => cases same
    | cons b bs =>
      obtain ⟨first,rest⟩ := List.cons.inj same
      simp only [contentLength,first,ih rest]

-- A frame of the protocol, its body apart: further headers around the length,
-- whose name may be spelled in any letter case, with blanks around the number.
structure Shape where
  before : List Header
  spelling : Text
  front : Text
  back : Text
  crlf : Bool
  after : List Header
  ended : Bool
  length : eqIgnoreAsciiCase spelling headerLength = true
  blank : ∀ c ∈ front ++ back, isWhitespace c = true ∧ c ≠ '\n'
  others : ∀ h ∈ before ++ after, eqIgnoreAsciiCase h.name headerLength = false

namespace Shape

theorem spelling_char (s : Shape) (member : c ∈ s.spelling) : toAsciiLowercase c ∈ headerLength.map toAsciiLowercase := by
  have same := eq_of_beq s.length
  rw [← same]
  exact List.mem_map_of_mem member

theorem spelling_plain (s : Shape) (member : c ∈ s.spelling) : isWhitespace c = false ∧ c ≠ ':' ∧ c ≠ '\n' := by
  have inside := s.spelling_char member
  have plain : ∀ d ∈ headerLength.map toAsciiLowercase, isWhitespace d = false ∧ d ≠ ':' := by
    have each : (headerLength.map toAsciiLowercase).all (fun d => !isWhitespace d && d != ':') = true := by decide
    simpa using List.all_eq_true.mp each
  have kept : isWhitespace c = true ∨ c = ':' → toAsciiLowercase c = c := by
    intro special
    unfold toAsciiLowercase
    rw [if_neg]
    intro upper
    unfold isAsciiUppercase at upper
    simp only [Bool.and_eq_true,decide_eq_true_eq] at upper
    rcases special with blank | rfl
    · rw [printable_solid (by omega) (by omega)] at blank
      cases blank
    · exact absurd upper (by decide)
  have solid : isWhitespace c = false := by
    by_contra blank
    have white := (Bool.not_eq_false _).mp blank
    rw [kept (.inl white)] at inside
    exact blank (plain c inside).1
  refine ⟨solid,?_,?_⟩
  · rintro rfl
    rw [kept (.inr rfl)] at inside
    exact (plain ':' inside).2 rfl
  · rintro rfl
    cases solid

theorem spelling_named (s : Shape) : s.spelling ≠ [] := by
  intro empty
  have length := s.length
  rw [empty] at length
  cases length

theorem spelling_solid (s : Shape) : trim s.spelling = s.spelling := by
  obtain ⟨c,rest,cut⟩ := List.exists_cons_of_ne_nil s.spelling_named
  have start : trimStart s.spelling = s.spelling := by
    rw [cut]
    exact trimStart_solid (s.spelling_plain (by simp [cut])).1 rest
  rw [trim,start]
  obtain ⟨front,last,split⟩ := (List.eq_nil_or_concat s.spelling).resolve_left s.spelling_named
  rw [List.concat_eq_append] at split
  rw [split]
  exact trimEnd_solid (s.spelling_plain (by simp [split])).1 front

-- The header that tells the length of a body.
def lengthHeader (s : Shape) (n : Nat) : Header where
  name := s.spelling
  value := s.front ++ decimal n ++ s.back
  crlf := s.crlf
  named := s.spelling_named
  solid := s.spelling_solid
  single := ⟨fun inside => (s.spelling_plain inside).2.1 rfl,fun inside => (s.spelling_plain inside).2.2 rfl⟩
  plain := by
    simp only [List.mem_append,not_or]
    refine ⟨⟨fun inside => (s.blank _ (List.mem_append_left _ inside)).2 rfl,fun inside => ?_⟩,
      fun inside => (s.blank _ (List.mem_append_right _ inside)).2 rfl⟩
    exact absurd (decimal_isDigit inside) (by decide)

def headers (s : Shape) (n : Nat) : List Header := s.before ++ s.lengthHeader n :: s.after

def frame (s : Shape) (body : Text) : Bytes := encode (blockText (s.headers (encode body).length) s.ended) ++ encode body

-- The shell knows one spelling.
def Spelled (s : Shape) : Prop := s.spelling = headerLength

theorem lengthHeader_value (s : Shape) (n : Nat) : trim (trimEnd (s.lengthHeader n).value) = decimal n := by
  have front : ∀ c ∈ s.front, isWhitespace c = true := fun c member => (s.blank c (List.mem_append_left _ member)).1
  have back : ∀ c ∈ s.back, isWhitespace c = true := fun c member => (s.blank c (List.mem_append_right _ member)).1
  change trim (trimEnd (s.front ++ decimal n ++ s.back)) = _
  rw [trimEnd_append back,trimEnd_decimal,trim,trimStart_append front]
  have start : trimStart (decimal n) = decimal n := by
    cases digits : decimal n with
    | nil => rfl
    | cons c rest => exact trimStart_solid (decimal_solid (n:=n) (by simp [digits])) rest
  rw [start]
  exact trimEnd_decimal [] n

theorem other_name {h : Header} (other : eqIgnoreAsciiCase h.name headerLength = false) : h.name ≠ headerLength := by
  intro same
  rw [same] at other
  exact absurd other (by decide)

-- What the shell makes of the headers of a frame.
theorem noteLength_headers (s : Shape) (small : n < u64) (found : Option Nat) :
    (s.headers n).foldl (fun found h => noteLength found (h.name ++ ':' :: trimEnd h.value)) found =
      if s.spelling = headerLength then some n else found := by
  have skip : ∀ (hs : List Header) (found : Option Nat), (∀ h ∈ hs, eqIgnoreAsciiCase h.name headerLength = false) →
      hs.foldl (fun found h => noteLength found (h.name ++ ':' :: trimEnd h.value)) found = found := by
    intro hs
    induction hs with
    | nil => exact fun found _ => rfl
    | cons h hs ih =>
      intro found others
      rw [List.foldl_cons,noteLength_header,if_neg (other_name (others h (by simp))),ih _ fun g member => others g (List.mem_cons_of_mem _ member)]
  rw [headers,List.foldl_append,List.foldl_cons,skip s.before found fun h member => s.others h (List.mem_append_left _ member),
    skip s.after _ fun h member => s.others h (List.mem_append_right _ member),noteLength_header,lengthHeader_value,fromStrRadix_decimal small]
  rfl

theorem contentLength_headers (s : Shape) (small : n < u64) (found : Option Nat) :
    contentLength found ((s.headers n).map Header.line) = .ok (some n) := by
  have skip : ∀ (hs : List Header) (rest : List Text) (found : Option Nat), (∀ h ∈ hs, eqIgnoreAsciiCase h.name headerLength = false) →
      contentLength found (hs.map Header.line ++ rest) = contentLength found rest := by
    intro hs rest
    induction hs with
    | nil => exact fun found _ => rfl
    | cons h hs ih =>
      intro found others
      rw [List.map_cons,List.cons_append,contentLength_header,others h (by simp)]
      exact ih found fun g member => others g (List.mem_cons_of_mem _ member)
  have last := skip s.after [] (some n) fun h member => s.others h (List.mem_append_right _ member)
  rw [List.append_nil] at last
  rw [headers,List.map_append,List.map_cons,skip s.before _ found fun h member => s.others h (List.mem_append_left _ member),
    contentLength_header,lengthHeader_value,fromStrRadix_decimal small,
    if_pos (show eqIgnoreAsciiCase (s.lengthHeader n).name headerLength = true from s.length)]
  dsimp only
  rw [last]
  rfl

end Shape

theorem readHeaders_block (hs : List Header) (ended : Bool) (enough : hs.length < n) (found : Option Nat) (rest : Bytes) :
    readHeaders n found (encode (blockText hs ended) ++ rest) =
      some (hs.foldl (fun found h => noteLength found (h.name ++ ':' :: trimEnd h.value)) found,rest) := by
  induction hs generalizing n found with
  | nil =>
    obtain ⟨m,rfl⟩ : ∃ m, n = m+1 := ⟨n-1,by omega⟩
    have blank : trim (ending ended ++ ['\n']) = [] := by cases ended <;> decide
    have line : readLine (encode (ending ended ++ ['\n']) ++ rest) = some (ending ended ++ ['\n'],rest) := readLine_line (ending_plain ended) rest
    rw [readHeaders,show blockText [] ended = ending ended ++ ['\n'] from rfl,line]
    exact if_pos blank
  | cons h hs ih =>
    obtain ⟨m,rfl⟩ : ∃ m, n = m+1 := ⟨n-1,by omega⟩
    have cut : encode (blockText (h::hs) ended) ++ rest = encode (h.line ++ ['\n']) ++ (encode (blockText hs ended) ++ rest) := by
      rw [← List.append_assoc,← Utf8.encode_append]
      simp [blockText]
    have trimmed : trim (h.line ++ ['\n']) = h.name ++ ':' :: trimEnd h.value := h.trim_line (List.all_eq_true.mp (by decide))
    have solid : h.name ++ ':' :: trimEnd h.value ≠ [] := List.append_ne_nil_of_right_ne_nil _ (List.cons_ne_nil _ _)
    rw [readHeaders,cut,readLine_line h.line_plain]
    dsimp only
    rw [trimmed,if_neg solid]
    exact ih (by simpa using enough) _

theorem encode_length (t : Text) : t.length ≤ (encode t).length := by
  have count := Utf8.lossy_length (encode t)
  rwa [Utf8.lossy_encode] at count

theorem blockText_length (hs : List Header) (ended : Bool) : hs.length < (encode (blockText hs ended)).length := by
  refine Nat.lt_of_lt_of_le ?_ (encode_length _)
  induction hs with
  | nil => cases ended <;> decide
  | cons h hs ih =>
    have front : blockText (h :: hs) ended = h.line ++ '\n' :: blockText hs ended := by simp [blockText]
    rw [front]
    simp only [List.length_append,List.length_cons]
    omega

theorem readFrame_frame (s : Shape) (small : (encode body).length < u64) (rest : Bytes) : readFrame (s.frame body ++ rest) =
    if s.spelling = headerLength then some (some body,rest) else some (none,encode body ++ rest) := by
  have enough : (s.headers (encode body).length).length < (s.frame body ++ rest).length := by
    have block := blockText_length (s.headers (encode body).length) s.ended
    simp only [Shape.frame,List.length_append]
    omega
  unfold readFrame
  rw [Shape.frame,List.append_assoc] at enough ⊢
  rw [readHeaders_block _ _ enough,s.noteLength_headers small]
  by_cases spelled : s.spelling = headerLength
  · rw [if_pos spelled,if_pos spelled]
    simp [Utf8.lossy_encode]
  · rw [if_neg spelled,if_neg spelled]

theorem encode_cons (c : Char) (t : Text) : encode (c::t) = encode [c] ++ encode t := Utf8.encode_append [c] t

-- A line of a header starts with no byte of a line ending.
theorem line_start (h : Header) (rest : Bytes) : ∃ b more, encode h.line ++ rest = b :: more ∧ b ≠ 10 ∧ b ≠ 13 := by
  obtain ⟨c,name,cut,solid⟩ := solid_start h.named h.solid
  have first : encode h.line = encode [c] ++ encode (name ++ ':' :: (h.value ++ ending h.crlf)) := by
    rw [Header.line,cut,List.cons_append,encode_cons]
  have byte : ∀ b ∈ encode [c], b ≠ 10 ∧ b ≠ 13 := by
    intro b member
    constructor
    · rintro rfl
      have same := List.mem_singleton.mp (Utf8.ascii_encode (by decide) member)
      rw [← same] at solid
      cases solid
    · rintro rfl
      have same := List.mem_singleton.mp (Utf8.ascii_encode (by decide) member)
      rw [← same] at solid
      cases solid
  cases head : encode [c] with
  | nil => exact absurd (encode_length [c]) (by rw [head]; exact Nat.not_succ_le_zero 0)
  | cons b more =>
    rw [head] at byte
    exact ⟨b,more ++ encode (name ++ ':' :: (h.value ++ ending h.crlf)) ++ rest,by rw [first,head]; simp,byte b (by simp)⟩

theorem findHeaderTerminator_line (plain : 10 ∉ line) (other : b ≠ 10) (back : b ≠ 13) (i : Nat) (more : Bytes) :
    findHeaderTerminator i (line ++ 10 :: b :: more) = findHeaderTerminator (i+line.length+1) (b :: more) := by
  rw [findHeaderTerminator_skip plain]
  simp [findHeaderTerminator,other,back]

theorem findHeaderTerminator_block (hs : List Header) (nonempty : hs ≠ []) (ended : Bool) (i : Nat) (rest : Bytes) :
    findHeaderTerminator i (encode (blockText hs ended) ++ rest) =
      some (i+(encode (headerText hs)).length,i+(encode (blockText hs ended)).length) := by
  induction hs generalizing i with
  | nil => exact absurd rfl nonempty
  | cons h hs ih =>
    have plain : 10 ∉ encode h.line := encode_plain h.line_plain
    have front : encode (blockText (h :: hs) ended) = encode h.line ++ 10 :: encode (blockText hs ended) := by
      have cut : blockText (h :: hs) ended = (h.line ++ ['\n']) ++ blockText hs ended := by simp [blockText]
      rw [cut,Utf8.encode_append,encode_line]
      simp
    rw [front,List.append_assoc,List.cons_append]
    cases hs with
    | nil =>
      rw [findHeaderTerminator_skip plain,show headerText [h] = h.line from rfl]
      cases ended with
      | true =>
        have block : encode (blockText [] true) = [13,10] := by decide
        rw [block]
        simp [findHeaderTerminator]
        omega
      | false =>
        have block : encode (blockText [] false) = [10] := by decide
        rw [block]
        simp [findHeaderTerminator]
        omega
    | cons next more =>
      have text : encode (headerText (h :: next :: more)) = encode h.line ++ 10 :: encode (headerText (next :: more)) := by
        have cut : headerText (h :: next :: more) = (h.line ++ ['\n']) ++ headerText (next :: more) := by simp [headerText]
        rw [cut,Utf8.encode_append,encode_line]
        simp
      have start : encode (blockText (next :: more) ended) ++ rest =
          encode next.line ++ (10 :: encode (blockText more ended) ++ rest) := by
        have cut : blockText (next :: more) ended = (next.line ++ ['\n']) ++ blockText more ended := by simp [blockText]
        rw [cut,Utf8.encode_append,encode_line]
        simp
      obtain ⟨b,tail,first,other,back⟩ := line_start next (10 :: encode (blockText more ended) ++ rest)
      rw [start,first,findHeaderTerminator_line plain other back,← first,← start,ih (List.cons_ne_nil _ _),text]
      simp only [List.length_append,List.length_cons]
      congr 2 <;> omega

theorem decodeFrame_block (s : Shape) (small : n < u64) (rest : Bytes) :
    decodeFrame (encode (blockText (s.headers n) s.ended) ++ rest) =
      if n > maxContentLength then .error (.bodyTooLarge n maxContentLength)
      else if rest.length < n then .ok none
      else match fromUtf8 (rest.take n) with
        | .error _ => .error (.notUtf8 (lossy (rest.take n)))
        | .ok body => .ok (some (body,(encode (blockText (s.headers n) s.ended)).length+n)) := by
  have nonempty : s.headers n ≠ [] := List.append_ne_nil_of_right_ne_nil _ (List.cons_ne_nil _ _)
  have found := findHeaderTerminator_block (s.headers n) nonempty s.ended 0 rest
  rw [Nat.zero_add,Nat.zero_add] at found
  have header : lossy ((encode (blockText (s.headers n) s.ended) ++ rest).take (encode (headerText (s.headers n))).length) =
      headerText (s.headers n) := by
    rw [blockText_cut nonempty,Utf8.encode_append,List.append_assoc,List.take_left,Utf8.lossy_encode]
  have parsed : contentLength none (headerLines (headerText (s.headers n))) = .ok (some n) := by
    rw [contentLength_trim (headerLines_trim _),split_headerText nonempty,s.contentLength_headers small]
  rw [decodeFrame,found]
  dsimp only
  rw [header,parsed]
  dsimp only
  by_cases large : n > maxContentLength
  · rw [if_pos large,if_pos large]
  · rw [if_neg large,if_neg large,List.length_append,List.drop_left]
    by_cases short : rest.length < n
    · rw [if_pos short,if_pos (by omega)]
    · rw [if_neg short,if_neg (by omega)]
      all_goals rfl

theorem decodeNext_frame (s : Shape) (fits : (encode body).length ≤ maxContentLength) (rest : Bytes) :
    decodeNext (s.frame body ++ rest) = some (body,rest) := by
  have small : (encode body).length < u64 := Nat.lt_of_le_of_lt fits (by decide)
  have decoded := decodeFrame_block s small (encode body ++ rest)
  rw [if_neg (by omega),if_neg (by simp),List.take_left,Utf8.fromUtf8_encode] at decoded
  rw [decodeNext,Shape.frame,List.append_assoc,decoded]
  simp

theorem decodeNext_large (s : Shape) (small : (encode body).length < u64) (large : ¬ (encode body).length ≤ maxContentLength)
    (rest : Bytes) : decodeNext (s.frame body ++ rest) = none := by
  have decoded := decodeFrame_block s small (encode body ++ rest)
  rw [if_pos (by omega)] at decoded
  rw [decodeNext,Shape.frame,List.append_assoc,decoded]

theorem decodeNext_shortens : Shortens decodeNext := by
  intro stream body rest read
  unfold decodeNext at read
  split at read
  · rename_i decoded
    obtain ⟨headerEnd,bodyStart,length,found,_,used,inside⟩ := decodeFrame_frame_used decoded
    have place := findHeaderTerminator_found found
    cases read
    rw [List.length_drop]
    omega
  · cases read

-- What a sender writes: frames of any shapes with their bodies.
abbrev Frames := List (Shape × Text)

def streamOf (frames : Frames) : Bytes := frames.flatMap fun f => f.1.frame f.2

def Agree (frames : Frames) : Prop := readLspStream (streamOf frames) = decodeFrames (streamOf frames)

theorem readFrame_nil : readFrame [] = none := rfl

theorem decodeNext_nil : decodeNext [] = none := rfl

theorem reduceOption_somes (frames : Frames) : (frames.map fun f => some f.2).reduceOption = frames.map Prod.snd := by
  induction frames with
  | nil => rfl
  | cons f rest ih => rw [List.map_cons,List.reduceOption_cons_of_some,ih,List.map_cons]

theorem readLspStream_spelled (spelled : ∀ f ∈ frames, f.1.Spelled) (small : ∀ f ∈ frames, (encode f.2).length < u64) :
    readLspStream (streamOf frames) = frames.map Prod.snd := by
  have read := drain_items (fun f : Shape × Text => f.1.frame f.2) (fun f => some f.2) readFrame_shortens
    (fun f member rest => (readFrame_frame f.1 (small f member) rest).trans (if_pos (spelled f member))) []
  rw [List.append_nil,drain_none readFrame_nil] at read
  rw [readLspStream,streamOf,read,List.append_nil]
  exact reduceOption_somes _

theorem decodeFrames_fits (fits : ∀ f ∈ frames, (encode f.2).length ≤ maxContentLength) :
    decodeFrames (streamOf frames) = frames.map Prod.snd := by
  have read := drain_items (fun f : Shape × Text => f.1.frame f.2) Prod.snd decodeNext_shortens
    (fun f member rest => decodeNext_frame f.1 (fits f member) rest) []
  rw [List.append_nil,drain_none decodeNext_nil] at read
  rw [decodeFrames,streamOf,read]
  simp

-- A body above the limit is the end of what the engine decodes.
theorem decodeFrames_large (small : ∀ f ∈ frames, (encode f.2).length < u64)
    (large : ∃ f ∈ frames, ¬ (encode f.2).length ≤ maxContentLength) : (decodeFrames (streamOf frames)).length < frames.length := by
  induction frames with
  | nil => obtain ⟨f,member,_⟩ := large; cases member
  | cons f rest ih =>
    by_cases fits : (encode f.2).length ≤ maxContentLength
    · have later : ∃ g ∈ rest, ¬ (encode g.2).length ≤ maxContentLength := by
        obtain ⟨g,member,above⟩ := large
        rcases List.mem_cons.mp member with rfl | inside
        · exact absurd fits above
        · exact ⟨g,inside,above⟩
      have shorter := ih (fun g member => small g (List.mem_cons_of_mem _ member)) later
      have taken := drain_some decodeNext_shortens (decodeNext_frame f.1 fits (streamOf rest))
      rw [decodeFrames,show streamOf (f :: rest) = f.1.frame f.2 ++ streamOf rest from rfl,taken]
      exact Nat.succ_lt_succ shorter
    · have stopped := decodeNext_large f.1 (small f (by simp)) fits (streamOf rest)
      rw [decodeFrames,show streamOf (f :: rest) = f.1.frame f.2 ++ streamOf rest from rfl,drain_none stopped]
      exact Nat.succ_pos _

theorem reduceOption_if (p : α → Prop) [DecidablePred p] (b : β) (as : List α) :
    (as.map fun a => if p a then some b else none).reduceOption.length = (as.filter p).length := by
  induction as with
  | nil => rfl
  | cons a rest ih =>
    by_cases held : p a
    · simpa [List.reduceOption_cons_of_some,held] using ih
    · simpa [List.reduceOption_cons_of_none,held] using ih

def emptied (shapes : List Shape) : Frames := shapes.map fun s => (s,[])

theorem zip_emptied (shapes : List Shape) : shapes.zip (shapes.map fun _ => []) = emptied shapes := by
  induction shapes with
  | nil => rfl
  | cons s rest ih => exact congrArg ((s,[]) :: ·) ih

theorem emptied_body (member : f ∈ emptied shapes) : f.2 = [] := by
  obtain ⟨_,_,rfl⟩ := List.mem_map.mp member
  rfl

-- A header that the shell does not know costs it the frame, here of an empty body.
theorem readLspStream_empty (shapes : List Shape) :
    (readLspStream (streamOf (emptied shapes))).length = (shapes.filter fun s => s.spelling = headerLength).length := by
  have small : (encode []).length < u64 := by decide
  have read := drain_items (fun s : Shape => s.frame []) (fun s => if s.spelling = headerLength then some ([] : Text) else none)
    readFrame_shortens (fun s (_ : s ∈ shapes) rest => by
      rw [readFrame_frame s small rest]
      split <;> rfl) []
  rw [List.append_nil,drain_none readFrame_nil] at read
  rw [readLspStream,streamOf,emptied,List.flatMap_map,read,List.append_nil]
  exact reduceOption_if _ _ shapes

theorem shapes_agree (shapes : List Shape) : (∀ bodies : List Text, bodies.length = shapes.length →
    (∀ b ∈ bodies, (encode b).length ≤ maxContentLength) → Agree (shapes.zip bodies)) ↔ ∀ s ∈ shapes, s.Spelled := by
  constructor
  · intro agree s member
    by_contra other
    have none : (encode []).length ≤ maxContentLength := by decide
    have empty := agree (shapes.map fun _ => []) (List.length_map _) (by
      intro b inside
      obtain ⟨_,_,rfl⟩ := List.mem_map.mp inside
      exact none)
    rw [zip_emptied,Agree,decodeFrames_fits fun f inside => by rw [emptied_body inside]; exact none] at empty
    have counts := congrArg List.length empty
    rw [readLspStream_empty,List.length_map,emptied,List.length_map,List.length_filter_eq_length_iff] at counts
    have spelled : s.spelling = headerLength := by simpa using counts s member
    exact other spelled
  · intro spelled bodies _ fits
    have held : ∀ f ∈ shapes.zip bodies, f.1.Spelled ∧ (encode f.2).length ≤ maxContentLength := fun f member =>
      ⟨spelled _ (List.of_mem_zip member).1,fits _ (List.of_mem_zip member).2⟩
    rw [Agree,decodeFrames_fits fun f member => (held f member).2]
    exact readLspStream_spelled (fun f member => (held f member).1) fun f member => Nat.lt_of_le_of_lt (held f member).2 (by decide)

theorem bodies_agree (spelled : ∀ f ∈ frames, f.1.Spelled) (small : ∀ f ∈ frames, (encode f.2).length < u64) :
    Agree frames ↔ ∀ f ∈ frames, (encode f.2).length ≤ maxContentLength := by
  rw [Agree,readLspStream_spelled spelled small]
  constructor
  · intro same f member
    by_contra large
    have shorter := decodeFrames_large small ⟨f,member,large⟩
    rw [← same,List.length_map] at shorter
    exact Nat.lt_irrefl _ shorter
  · intro fits
    rw [decodeFrames_fits fits]

theorem space_blank : ∀ c ∈ [' '] ++ ([] : Text), isWhitespace c = true ∧ c ≠ '\n' := by
  intro c member
  rw [List.append_nil,List.mem_singleton] at member
  rw [member]
  decide

-- The frames of the shell itself.
def sent : Shape where
  before := []
  spelling := headerLength
  front := [' ']
  back := []
  crlf := true
  after := []
  ended := true
  length := by decide
  blank := space_blank
  others := by simp

theorem frameMessage_frame (msg : Text) : frameMessage msg = sent.frame msg := by
  have block : blockText (sent.headers (encode msg).length) true = "Content-Length: ".toList ++ decimal (encode msg).length ++ "\r\n\r\n".toList := by
    have name : "Content-Length: ".toList = headerLength ++ [':',' '] := by decide
    have blank : "\r\n\r\n".toList = ['\r','\n','\r','\n'] := by decide
    rw [name,blank]
    simp only [blockText,Shape.headers,Shape.lengthHeader,Header.line,sent,ending,List.nil_append,List.flatMap_cons,List.flatMap_nil,
      List.append_nil,if_true,List.append_assoc,List.cons_append]
  rw [frameMessage,Shape.frame,← block]
  rfl

theorem sent_stream (messages : List Text) : messages.flatMap frameMessage = streamOf (messages.map fun m => (sent,m)) := by
  rw [streamOf,List.flatMap_map]
  exact congrArg (messages.flatMap ·) (funext frameMessage_frame)

theorem sent_decoded (small : ∀ m ∈ messages, (encode m).length < u64) : readLspStream (messages.flatMap frameMessage) = messages ∧
    (decodeFrames (messages.flatMap frameMessage) = messages ↔ ∀ m ∈ messages, (encode m).length ≤ maxContentLength) := by
  have spelled : ∀ f ∈ messages.map fun m => (sent,m), f.1.Spelled := by
    intro f inside
    obtain ⟨m,_,rfl⟩ := List.mem_map.mp inside
    rfl
  have bounded : ∀ f ∈ messages.map fun m => (sent,m), (encode f.2).length < u64 := by
    intro f inside
    obtain ⟨m,member,rfl⟩ := List.mem_map.mp inside
    exact small m member
  have read := readLspStream_spelled spelled bounded
  have agree := bodies_agree spelled bounded
  rw [Agree,read] at agree
  rw [sent_stream,read]
  have back : (messages.map fun m => (sent,m)).map Prod.snd = messages := by
    rw [List.map_map]
    exact List.map_id messages
  rw [back] at agree ⊢
  refine ⟨rfl,eq_comm.trans (agree.trans ⟨fun held m member => ?_,fun held f member => ?_⟩)⟩
  · exact held (sent,m) (List.mem_map_of_mem member)
  · obtain ⟨m,inside,rfl⟩ := List.mem_map.mp member
    exact held m inside

theorem lsp_frames_iff (shapes : List Shape) (frames : Frames) (messages : List Text) :
    ((∀ bodies : List Text, bodies.length = shapes.length → (∀ b ∈ bodies, (encode b).length ≤ maxContentLength) →
      Agree (shapes.zip bodies)) ↔ ∀ s ∈ shapes, s.Spelled) ∧
    ((∀ f ∈ frames, f.1.Spelled) → (∀ f ∈ frames, (encode f.2).length < u64) →
      (Agree frames ↔ ∀ f ∈ frames, (encode f.2).length ≤ maxContentLength)) ∧
    ((∀ m ∈ messages, (encode m).length < u64) → readLspStream (messages.flatMap frameMessage) = messages ∧
      (decodeFrames (messages.flatMap frameMessage) = messages ↔ ∀ m ∈ messages, (encode m).length ≤ maxContentLength)) :=
  ⟨shapes_agree shapes,bodies_agree,sent_decoded⟩

theorem lsp_frames_two : Agree [(sent,"{}".toList),(sent,"é".toList)] ∧
    readLspStream (["{}".toList,"é".toList].flatMap frameMessage) = ["{}".toList,"é".toList] :=
  ⟨((lsp_frames_iff [] [(sent,"{}".toList),(sent,"é".toList)] []).2.1 (by
      intro f member
      simp only [List.mem_cons,List.not_mem_nil,or_false] at member
      rcases member with rfl | rfl <;> rfl) (by decide)).mpr (by decide),
    ((lsp_frames_iff [] [] ["{}".toList,"é".toList]).2.2 (by decide)).1⟩

-- The name in small letters, as the engine takes it.
def lowered : Shape where
  before := []
  spelling := "content-length".toList
  front := [' ']
  back := []
  crlf := true
  after := []
  ended := true
  length := by decide
  blank := space_blank
  others := by simp

theorem lowered_unread : readLspStream (streamOf [(lowered,"{}".toList)]) = [] ∧ decodeFrames (streamOf [(lowered,"{}".toList)]) = ["{}".toList] ∧
    ¬ Agree [(lowered,"{}".toList)] := by
  unfold Agree
  decide +kernel

end PrincessIDE.Lsp
