import PrincessIDE.Core.Error
import PrincessIDE.Foundation.Str

namespace PrincessIDE.Http
open Utf8 Str Error

def maxResponseBytes : Nat := 32*1024*1024
def maxHeaderBytes : Nat := 256*1024

def forTransport (context detail : Text) : PrincessError :=
  (PrincessError.new .aiUnavailable ("AI provider is unreachable (".toList ++ context ++ ")".toList)).withDetail detail

def forMalformed (context detail : Text) : PrincessError :=
  (PrincessError.new .aiUnavailable ("AI provider sent a reply this engine cannot parse (".toList ++ context ++ ")".toList)).withDetail detail

structure HttpResponse where
  status : Nat
  reason : Text
  headers : List (Text × Text)
  body : Bytes
deriving DecidableEq, Repr

-- How a call ends without a value: with an error, or in a panic of the length
-- arithmetic of the chunk decoder.
inductive Failure where
  | error (e : PrincessError)
  | overflow
deriving DecidableEq, Repr

-- What one call of `read_more` meets: bytes, the end of the stream, or an error
-- (cancelled, past the deadline, broken). `data []` is the socket's `Ok(0)`.
inductive Arrival where
  | data (bytes : Bytes)
  | closed
  | failed (e : PrincessError)
deriving DecidableEq, Repr

-- The callback answers one slice, given the slices before it.
abbrev OnBody := List Bytes → Bytes → Option PrincessError

def findHeaderEnd : Bytes → Option Nat
  | [] => none
  | b :: rest => if (b::rest).take 4 = [13,10,13,10] then some 0 else (findHeaderEnd rest).map (·+1)

def findCrlf : Bytes → Option Nat
  | [] => none
  | b :: rest => if (b::rest).take 2 = [13,10] then some 0 else (findCrlf rest).map (·+1)

def grow (context : Text) (buf bytes : Bytes) : Except PrincessError Bytes :=
  if buf.length + bytes.length > maxResponseBytes then
    .error (forMalformed context ("response exceeds the ".toList ++ decimal maxResponseBytes ++ "-byte ceiling this engine allows".toList))
  else .ok (buf ++ bytes)

def readingHeaders : Text := "reading the response headers".toList
def readingBody : Text := "reading the response body".toList

def headersCut : PrincessError :=
  forTransport readingHeaders "the provider closed the connection before sending a complete response".toList

-- The header loop: the index of the blank line and the buffer it was found in.
def readHead (buf : Bytes) (socket : List Arrival) : Except PrincessError (Nat × Bytes) × List Arrival :=
  match findHeaderEnd buf with
  | some pos => (.ok (pos,buf),socket)
  | none =>
    if buf.length > maxHeaderBytes then
      (.error (forMalformed "response headers".toList "header block exceeds 256 KiB".toList),socket)
    else match socket with
      | [] => (.error headersCut,[])
      | .closed :: rest => (.error headersCut,rest)
      | .data [] :: rest => (.error headersCut,rest)
      | .failed e :: rest => (.error e,rest)
      | .data (b::bytes) :: rest => match grow readingHeaders buf (b::bytes) with
        | .error e => (.error e,rest)
        | .ok next => readHead next rest

def parseStatusLine (line : Text) : Except PrincessError (Nat × Text) :=
  let version := (splitOnce [' '] line).getD (line,[])
  let status := (splitOnce [' '] version.2).getD (version.2,[])
  match fromStrRadix 10 u16 status.1 with
  | some code =>
    if startsWith "HTTP/".toList version.1 then .ok (code,status.2)
    else .error (forMalformed "HTTP status line".toList line)
  | none => .error (forMalformed "HTTP status line".toList line)

def headLines (head : Text) : List Text := split "\r\n".toList head

def parseHeaders (ls : List Text) : List (Text × Text) := ls.filterMap fun line =>
  if line = [] then none else (splitOnce [':'] line).map (fun found => (trim found.1,trim found.2))

def header (headers : List (Text × Text)) (name : Text) : Option Text :=
  (headers.find? (fun row => eqIgnoreAsciiCase row.1 name)).map Prod.snd

inductive Framing where
  | chunked
  | declared (length : Nat)
  | untilClose
deriving DecidableEq, Repr

def framing (headers : List (Text × Text)) : Framing :=
  if ((header headers "Transfer-Encoding".toList).map (fun v => contains "chunked".toList (v.map toAsciiLowercase))).getD false then .chunked
  else match (header headers "Content-Length".toList).bind (fun v => fromStrRadix 10 u64 (trim v)) with
    | some length => .declared length
    | none => .untilClose

-- Why the walk over the chunks stopped.
inductive Stop where
  | noLine
  | badLine (line : Text)
  | last
  | short
  | overflow
deriving DecidableEq, Repr

def chunkSize (line : Text) : Option Nat := fromStrRadix 16 u64 (trim ((split [';'] line).headD []))

-- The loop both decoders share. `rest` is the body from index `pos` on; the
-- index is there for the sums that can overflow.
def walkChunks (decoded : Bytes) (pos : Nat) (rest : Bytes) : Bytes × Stop :=
  match findCrlf rest with
  | none => (decoded,.noLine)
  | some i =>
    let line := lossy (rest.take i)
    match chunkSize line with
    | none => (decoded,.badLine line)
    | some size =>
      let dataStart := pos+i+2
      if size = 0 then (decoded,.last)
      else if u64 ≤ dataStart+size+2 then (decoded,.overflow)
      else if (rest.drop (i+2)).length < size+2 then (decoded,.short)
      else walkChunks (decoded ++ (rest.drop (i+2)).take size) (dataStart+size+2) (rest.drop (i+2+size+2))
termination_by rest.length
decreasing_by
  simp only [List.length_drop] at *
  omega

inductive ChunkedState where
  | complete (decoded : Bytes)
  | needMore
  | malformed (line : Text)
  | overflow
deriving DecidableEq, Repr

def decodeChunked (body : Bytes) : ChunkedState := match walkChunks [] 0 body with
  | (decoded,.last) => .complete decoded
  | (_,.noLine) => .needMore
  | (_,.short) => .needMore
  | (_,.badLine line) => .malformed line
  | (_,.overflow) => .overflow

def decodeChunkedPartial (body : Bytes) : Except Failure Bytes := match walkChunks [] 0 body with
  | (_,.overflow) => .error .overflow
  | (decoded,_) => .ok decoded

-- Whether the bytes of the body so far end the loop of their framing, and what
-- the loop makes of them when the stream ends. `quoted` is `{:?}` of a text.
def verdict (quoted : Text → Text) (f : Framing) (body : Bytes) : Option (Except Failure Bytes) := match f with
  | .chunked => match decodeChunked body with
    | .complete decoded => some (.ok decoded)
    | .needMore => none
    | .malformed line =>
      some (.error (.error (forMalformed "chunked response body".toList ("bad chunk size line: ".toList ++ quoted line))))
    | .overflow => some (.error .overflow)
  | .declared length => if body.length < length then none else some (.ok (body.take length))
  | .untilClose => none

def atClose (f : Framing) (body : Bytes) : Except Failure Bytes := match f with
  | .chunked => decodeChunkedPartial body
  | .declared length => .error (.error (forTransport readingBody
      ("stream ended after ".toList ++ decimal body.length ++ " of ".toList ++ decimal length ++ " declared bytes".toList)))
  | .untilClose => .ok body

def readBody (quoted : Text → Text) (onBody : OnBody) (f : Framing) (slices : List Bytes) (body : Bytes) (socket : List Arrival) :
    Except Failure Bytes × List Bytes :=
  match verdict quoted f body with
  | some done => (done,slices)
  | none => match socket with
    | [] => (atClose f body,slices)
    | .closed :: _ => (atClose f body,slices)
    | .data [] :: _ => (atClose f body,slices)
    | .failed e :: _ => (.error (.error e),slices)
    | .data (b::bytes) :: rest => match grow readingBody body (b::bytes) with
      | .error e => (.error (.error e),slices)
      | .ok next => match onBody slices (b::bytes) with
        | some e => (.error (.error e),slices ++ [b::bytes])
        | none => readBody quoted onBody f (slices ++ [b::bytes]) next rest

def checkEncoding (headers : List (Text × Text)) : Except PrincessError Unit :=
  match header headers "Content-Encoding".toList with
  | none => .ok ()
  | some encoding =>
    let encoding := (trim encoding).map toAsciiLowercase
    if encoding = "identity".toList then .ok ()
    else .error ((PrincessError.new .aiUnavailable ("AI provider used an unsupported Content-Encoding: ".toList ++ encoding)).withDetail
      "this build speaks uncompressed HTTP only".toList)

-- The response and the slices handed to `on_body`, in order.
def readResponseWith (quoted : Text → Text) (onBody : OnBody) (socket : List Arrival) : Except Failure HttpResponse × List Bytes :=
  match readHead [] socket with
  | (.error e,_) => (.error (.error e),[])
  | (.ok (headerEnd,buf),rest) =>
    let ls := headLines (lossy (buf.take headerEnd))
    match parseStatusLine (ls.headD []) with
    | .error e => (.error (.error e),[])
    | .ok (status,reason) =>
      let headers := parseHeaders ls.tail
      match checkEncoding headers with
      | .error e => (.error (.error e),[])
      | .ok _ =>
        let body := buf.drop (headerEnd+4)
        match (if body = [] then none else onBody [] body) with
        | some e => (.error (.error e),[body])
        | none =>
          match readBody quoted onBody (framing headers) (if body = [] then [] else [body]) body rest with
          | (.error e,slices) => (.error e,slices)
          | (.ok out,slices) => (.ok ⟨status,reason,headers,out⟩,slices)

-- Decoding drops at least the size lines: nothing decodes to its own length.
theorem walkChunks_shorter (decoded : Bytes) (pos : Nat) (rest : Bytes) :
    ∃ more, (walkChunks decoded pos rest).1 = decoded ++ more ∧ more.length ≤ rest.length ∧ (rest ≠ [] → more.length < rest.length) := by
  have none : ∀ stop : Stop, ∃ more, (decoded,stop).1 = decoded ++ more ∧ more.length ≤ rest.length ∧ (rest ≠ [] → more.length < rest.length) :=
    fun stop => ⟨[],by simp,by simp,fun some => by simpa using List.length_pos_iff.mpr some⟩
  generalize measure : rest.length = n at none
  induction n using Nat.strongRecOn generalizing decoded pos rest with
  | _ n ih =>
    rw [walkChunks]
    split
    · exact none _
    · rename_i i _
      dsimp only
      split
      · exact none _
      · rename_i size _
        split
        · exact none _
        · split
          · exact none _
          · split
            · exact none _
            · rename_i fits
              simp only [List.length_drop] at fits
              have behind : (rest.drop (i+2+size+2)).length = rest.length-(i+2+size+2) := List.length_drop
              obtain ⟨more,whole,bound,_⟩ := ih (rest.drop (i+2+size+2)).length (by omega)
                (decoded ++ (rest.drop (i+2)).take size) (pos+i+2+size+2) (rest.drop (i+2+size+2))
                rfl (fun stop => ⟨[],by simp,by simp,fun some => by simpa using List.length_pos_iff.mpr some⟩)
              refine ⟨(rest.drop (i+2)).take size ++ more,by rw [whole,List.append_assoc],?_,fun _ => ?_⟩ <;>
                simp only [List.length_append,List.length_take,List.length_drop] <;> omega

theorem decoded_shorter (some : body ≠ []) : (walkChunks [] 0 body).1.length < body.length := by
  obtain ⟨more,whole,_,shorter⟩ := walkChunks_shorter [] 0 body
  rw [whole,List.nil_append]
  exact shorter some

theorem walkChunks_nil : walkChunks [] 0 [] = ([],.noLine) := by
  rw [walkChunks]
  rfl

theorem findHeaderEnd_bound (found : findHeaderEnd buf = some pos) : pos+4 ≤ buf.length := by
  induction buf generalizing pos with
  | nil => cases found
  | cons b rest ih =>
    simp only [findHeaderEnd] at found
    split at found
    · rename_i here
      cases found
      have lengths := congrArg List.length here
      simp only [List.length_take,List.length_cons,List.length_nil] at lengths ⊢
      omega
    · obtain ⟨inner,later,rfl⟩ := Option.map_eq_some_iff.mp found
      have bound := ih later
      simp only [List.length_cons]
      omega

-- Where the head ends depends on no byte behind it.
theorem findHeaderEnd_take (found : findHeaderEnd buf = some pos) (enough : pos+4 ≤ k) : findHeaderEnd (buf.take k) = some pos := by
  induction buf generalizing pos k with
  | nil => cases found
  | cons b rest ih =>
    obtain ⟨k,rfl⟩ : ∃ j, k = j+1 := ⟨k-1,by omega⟩
    have window : (b :: rest.take k).take 4 = (b::rest).take 4 := by
      rw [← List.take_succ_cons,List.take_take,Nat.min_eq_left (by omega)]
    simp only [findHeaderEnd] at found
    rw [List.take_succ_cons,findHeaderEnd,window]
    split at found
    · rename_i here
      rw [if_pos here]
      exact found
    · rename_i elsewhere
      obtain ⟨inner,later,rfl⟩ := Option.map_eq_some_iff.mp found
      rw [if_neg elsewhere,ih later (by omega)]
      rfl

theorem findHeaderEnd_append (found : findHeaderEnd buf = some pos) (more : Bytes) : findHeaderEnd (buf++more) = some pos := by
  induction buf generalizing pos with
  | nil => cases found
  | cons b rest ih =>
    have bound := findHeaderEnd_bound found
    simp only [List.length_cons] at bound
    simp only [findHeaderEnd] at found
    rw [List.cons_append,findHeaderEnd]
    split at found
    · rename_i here
      have lengths := congrArg List.length here
      simp only [List.length_take,List.length_cons,List.length_nil] at lengths
      rw [if_pos]
      · exact found
      · rw [← List.cons_append,List.take_append_of_le_length (by simp only [List.length_cons]; omega)]
        exact here
    · rename_i elsewhere
      obtain ⟨inner,later,rfl⟩ := Option.map_eq_some_iff.mp found
      have room := findHeaderEnd_bound later
      rw [if_neg,ih later]
      · rfl
      · rw [← List.cons_append,List.take_append_of_le_length (by simp only [List.length_cons]; omega)]
        exact elsewhere

-- The reads that bring bytes before the stream ends or breaks.
def delivered : List Arrival → List Bytes
  | .data (b::bytes) :: rest => (b::bytes) :: delivered rest
  | _ => []

theorem delivered_nonempty (member : bytes ∈ delivered socket) : bytes ≠ [] := by
  induction socket with
  | nil => simp [delivered] at member
  | cons a rest ih =>
    unfold delivered at member
    split at member
    · rename_i b bytes' rest' split
      cases split
      rcases List.mem_cons.mp member with rfl | later
      · simp
      · exact ih later
    · cases member

theorem grow_ok (grown : grow context buf bytes = .ok next) : next = buf ++ bytes := by
  unfold grow at grown
  split at grown
  · cases grown
  · cases grown; rfl

-- A loop that returned took the reads `used` and found nothing before the last.
theorem readHead_ok (read : readHead buf socket = (.ok (pos,out),rest)) :
    ∃ used, delivered socket = used ++ delivered rest ∧ out = buf ++ used.flatten ∧ findHeaderEnd out = some pos ∧
      ∀ a b, used = a ++ b → b ≠ [] → findHeaderEnd (buf ++ a.flatten) = none := by
  induction socket generalizing buf with
  | nil =>
    unfold readHead at read
    split at read
    · rename_i found
      cases read
      refine ⟨[],rfl,by simp,found,fun a b split some => ?_⟩
      exact absurd (List.append_eq_nil_iff.mp split.symm).2 some
    · split at read <;> cases read
  | cons a socket ih =>
    unfold readHead at read
    split at read
    · rename_i found
      cases read
      refine ⟨[],rfl,by simp,found,fun a b split some => ?_⟩
      exact absurd (List.append_eq_nil_iff.mp split.symm).2 some
    · rename_i missing
      split at read
      · cases read
      · split at read
        · cases read
        · cases read
        · cases read
        · cases read
        · rename_i b bytes later split
          cases split
          split at read
          · cases read
          · rename_i next grown
            obtain ⟨used,taken,whole,found,before⟩ := ih read
            have same := grow_ok grown
            subst same
            refine ⟨(b::bytes)::used,by simp [delivered,taken],by rw [whole]; simp,found,fun x y cut some => ?_⟩
            cases x with
            | nil => simpa using missing
            | cons first x =>
              obtain ⟨rfl,rest'⟩ := List.cons.inj cut
              have inner := before x y rest' some
              simpa using inner

def Closes (socket : List Arrival) : Prop := delivered socket = []

-- A body loop that took the reads `used` and returned `out`.
structure Returns (quoted : Text → Text) (f : Framing) (body : Bytes) (socket : List Arrival) (out : Bytes)
    (used : List Bytes) (rest : List Arrival) : Prop where
  taken : delivered socket = used ++ delivered rest
  before : ∀ a b, used = a ++ b → b ≠ [] → verdict quoted f (body ++ a.flatten) = none
  ending : verdict quoted f (body ++ used.flatten) = some (.ok out) ∨
    (verdict quoted f (body ++ used.flatten) = none ∧ Closes rest ∧ atClose f (body ++ used.flatten) = .ok out)

theorem Returns.here (ending : verdict quoted f body = some (.ok out) ∨
    (verdict quoted f body = none ∧ Closes socket ∧ atClose f body = .ok out)) : Returns quoted f body socket out [] socket :=
  ⟨by simp,fun _ _ split some => absurd (List.append_eq_nil_iff.mp split.symm).2 some,by simpa using ending⟩

theorem Returns.more (missing : verdict quoted f body = none) (later : Returns quoted f (body ++ b::bytes) socket out used rest) :
    Returns quoted f body (.data (b::bytes) :: socket) out ((b::bytes)::used) rest := by
  refine ⟨by simp [delivered,later.taken],fun x y cut some => ?_,by simpa using later.ending⟩
  cases x with
  | nil => simpa using missing
  | cons first x =>
    obtain ⟨rfl,rest'⟩ := List.cons.inj cut
    simpa using later.before x y rest' some

theorem readBody_ok (read : readBody quoted onBody f slices body socket = (.ok out,given)) :
    ∃ used rest, given = slices ++ used ∧ Returns quoted f body socket out used rest := by
  induction socket generalizing slices body with
  | nil =>
    unfold readBody at read
    split at read
    · rename_i found
      cases read
      exact ⟨[],[],by simp,.here (.inl found)⟩
    · rename_i missing
      obtain ⟨ended,rfl⟩ := Prod.mk.inj read
      exact ⟨[],[],by simp,.here (.inr ⟨missing,rfl,ended⟩)⟩
  | cons a socket ih =>
    unfold readBody at read
    split at read
    · rename_i found
      cases read
      exact ⟨[],a::socket,by simp,.here (.inl found)⟩
    · rename_i missing
      split at read
      · rename_i split; cases split
      · rename_i split
        cases split
        obtain ⟨ended,rfl⟩ := Prod.mk.inj read
        exact ⟨[],_,by simp,.here (.inr ⟨missing,rfl,ended⟩)⟩
      · rename_i split
        cases split
        obtain ⟨ended,rfl⟩ := Prod.mk.inj read
        exact ⟨[],_,by simp,.here (.inr ⟨missing,rfl,ended⟩)⟩
      · cases read
      · rename_i b bytes later split
        cases split
        split at read
        · cases read
        · rename_i next grown
          split at read
          · cases read
          · obtain ⟨used,rest,given,returns⟩ := ih read
            rw [grow_ok grown] at returns
            exact ⟨(b::bytes)::used,rest,by simp [given],returns.more missing⟩

-- The callback agreed to every slice of the rest.
def Agreed (onBody : OnBody) (slices rest : List Bytes) : Prop :=
  ∀ front bytes back, rest = front ++ bytes :: back → onBody (slices ++ front) bytes = none

theorem agreed_nil (onBody : OnBody) (slices : List Bytes) : Agreed onBody slices [] := by
  intro front bytes back split
  simp at split

theorem agreed_cons (here : onBody slices bytes = none) (later : Agreed onBody (slices ++ [bytes]) rest) :
    Agreed onBody slices (bytes :: rest) := by
  intro front next back split
  cases front with
  | nil =>
    cases split
    rw [List.append_nil]
    exact here
  | cons first front =>
    obtain ⟨rfl,rest'⟩ := List.cons.inj split
    rw [← List.singleton_append,← List.append_assoc]
    exact later front next back rest'

theorem readBody_agreed (read : readBody quoted onBody f slices body socket = (.ok out,given)) :
    ∃ used, given = slices ++ used ∧ Agreed onBody slices used := by
  induction socket generalizing slices body with
  | nil =>
    unfold readBody at read
    split at read
    · cases read
      exact ⟨[],by simp,agreed_nil _ _⟩
    · obtain ⟨-,rfl⟩ := Prod.mk.inj read
      exact ⟨[],by simp,agreed_nil _ _⟩
  | cons a socket ih =>
    unfold readBody at read
    split at read
    · cases read
      exact ⟨[],by simp,agreed_nil _ _⟩
    · split at read
      · rename_i split; cases split
      · obtain ⟨-,rfl⟩ := Prod.mk.inj read
        exact ⟨[],by simp,agreed_nil _ _⟩
      · obtain ⟨-,rfl⟩ := Prod.mk.inj read
        exact ⟨[],by simp,agreed_nil _ _⟩
      · cases read
      · rename_i split
        cases split
        split at read
        · cases read
        · split at read
          · cases read
          · rename_i here
            obtain ⟨used,given,agreed⟩ := ih read
            exact ⟨_ :: used,by simp [given],agreed_cons here agreed⟩

theorem readResponse_agreed (read : readResponseWith quoted onBody socket = (.ok response,slices)) : Agreed onBody [] slices := by
  unfold readResponseWith at read
  split at read
  · cases read
  · dsimp only at read
    split at read
    · cases read
    · split at read
      · cases read
      · split at read
        · cases read
        · rename_i first
          split at read
          · cases read
          · rename_i body
            cases read
            obtain ⟨used,whole,agreed⟩ := readBody_agreed body
            rw [whole]
            split at first
            · rename_i empty
              simpa [empty] using agreed
            · rename_i some
              simp only [some,if_false] at agreed ⊢
              exact agreed_cons first agreed

def headersOf (head : Text) : List (Text × Text) := parseHeaders (headLines head).tail

-- A read boundary falls exactly at the end of the body: of a declared length,
-- or, for chunks, of a body that has no byte at all.
def Exact (socket : List Arrival) : Prop :=
  ∃ pos, findHeaderEnd (delivered socket).flatten = some pos ∧
    match framing (headersOf (lossy ((delivered socket).flatten.take pos))) with
    | .untilClose => True
    | .declared length => ∃ k, ((delivered socket).take k).flatten.length = pos+4+length
    | .chunked => (delivered socket).flatten.length = pos+4

theorem readResponse_ok (read : readResponseWith quoted onBody socket = (.ok response,slices)) :
    ∃ headerEnd buf rest used last, readHead [] socket = (.ok (headerEnd,buf),rest) ∧
      slices.flatten = buf.drop (headerEnd+4) ++ used.flatten ∧
      Returns quoted (framing (headersOf (lossy (buf.take headerEnd)))) (buf.drop (headerEnd+4)) rest response.body used last := by
  unfold readResponseWith at read
  split at read
  · cases read
  · rename_i headerEnd buf rest head
    dsimp only at read
    split at read
    · cases read
    · split at read
      · cases read
      · split at read
        · cases read
        · split at read
          · cases read
          · rename_i out given body
            cases read
            obtain ⟨used,last,whole,returns⟩ := readBody_ok body
            refine ⟨headerEnd,buf,rest,used,last,head,?_,returns⟩
            rw [whole]
            split
            · rename_i empty; simp [empty]
            · simp

-- Chunk framing is never body: the slices and the decoded body differ in
-- length as soon as there is one byte.
theorem chunked_exact (returns : Returns quoted .chunked raw socket out used rest) :
    raw ++ used.flatten = out ↔ raw ++ used.flatten = [] ∧ Closes rest := by
  have decoded : (walkChunks [] 0 (raw ++ used.flatten)).1 = out := by
    rcases returns.ending with done | ⟨_,_,partial_⟩
    · unfold verdict decodeChunked at done
      dsimp only at done
      split at done
      · rename_i whole
        split at whole <;> rename_i walked <;> cases whole
        cases done
        rw [walked]
      · cases done
      · cases done
      · cases done
    · unfold atClose decodeChunkedPartial at partial_
      dsimp only at partial_
      split at partial_
      · cases partial_
      · rename_i walked
        cases partial_
        rw [walked]
  by_cases empty : raw ++ used.flatten = []
  · rw [empty,walkChunks_nil] at decoded
    have closes : Closes rest := by
      rcases returns.ending with done | ⟨_,closes,_⟩
      · rw [empty] at done
        simp [verdict,decodeChunked,walkChunks_nil] at done
      · exact closes
    have none : out = [] := decoded.symm
    simp [empty,none,closes]
  · have shorter := decoded_shorter empty
    rw [decoded] at shorter
    refine ⟨fun same => ?_,fun none => absurd none.1 empty⟩
    rw [same] at shorter
    exact absurd shorter (Nat.lt_irrefl _)

theorem declared_exact (returns : Returns quoted (.declared length) raw socket out used rest) :
    (raw ++ used.flatten = out ↔ (raw ++ used.flatten).length = length) ∧ length ≤ (raw ++ used.flatten).length := by
  rcases returns.ending with done | ⟨_,_,failed⟩
  · unfold verdict at done
    dsimp only at done
    split at done
    · cases done
    · rename_i enough
      cases done
      refine ⟨⟨fun same => ?_,fun exact_ => ?_⟩,Nat.le_of_not_lt enough⟩
      · have lengths := congrArg List.length same
        rw [List.length_take] at lengths
        omega
      · rw [List.take_of_length_le (Nat.le_of_eq exact_)]
  · simp [atClose] at failed

theorem chunked_boundary (bound : headerEnd+4 ≤ List.length buf)
    (bytes : (delivered socket).flatten = buf ++ (used ++ (delivered last).flatten)) :
    (buf.drop (headerEnd+4) ++ used = [] ∧ Closes last) ↔ (delivered socket).flatten.length = headerEnd+4 := by
  have lengths : (delivered socket).flatten.length = buf.length + (used.length + (delivered last).flatten.length) := by
    rw [bytes,List.length_append,List.length_append]
  constructor
  · rintro ⟨none,closes⟩
    obtain ⟨left,read⟩ := List.append_eq_nil_iff.mp none
    have all := List.drop_eq_nil_iff.mp left
    rw [lengths,read,show delivered last = [] from closes]
    simp only [List.length_nil,List.flatten_nil]
    omega
  · intro same
    have left : buf.drop (headerEnd+4) = [] := List.drop_eq_nil_iff.mpr (by omega)
    have read : used = [] := List.length_eq_zero_iff.mp (by omega)
    refine ⟨by rw [left,read]; rfl,?_⟩
    cases more : delivered last with
    | nil => exact more
    | cons bytes rest =>
      have some := List.length_pos_iff.mpr (delivered_nonempty (show bytes ∈ delivered last by simp [more]))
      rw [more,List.flatten_cons,List.length_append] at lengths
      omega

-- No boundary before the last read of a declared body is its end: there the
-- head was unfinished or the body still short.
theorem declared_boundary {first : List Bytes} (whole : buf = first.flatten)
    (before : ∀ a b, first = a ++ b → b ≠ [] → findHeaderEnd ([] ++ a.flatten) = none)
    (found : findHeaderEnd buf = some headerEnd)
    (returns : Returns quoted (.declared length) (buf.drop (headerEnd+4)) socket out used last)
    (enough : length ≤ (buf.drop (headerEnd+4) ++ used.flatten).length)
    (boundary : ((first ++ (used ++ tail)).take k).flatten.length = headerEnd+4+length) :
    (buf.drop (headerEnd+4) ++ used.flatten).length = length := by
  have bound := findHeaderEnd_bound found
  rw [List.length_append,List.length_drop] at enough ⊢
  rw [List.take_append,List.flatten_append,List.length_append] at boundary
  by_cases inHead : k < first.length
  · have missing := before (first.take k) (first.drop k) (List.take_append_drop k first).symm (by
      intro none
      have all := List.drop_eq_nil_iff.mp none
      omega)
    have prefix_ : (first.take k).flatten = buf.take (headerEnd+4+length) := by
      have none : (used ++ tail).take (k-first.length) = [] := by
        rw [Nat.sub_eq_zero_of_le (Nat.le_of_lt inHead)]
        rfl
      rw [none,List.flatten_nil,List.length_nil,Nat.add_zero] at boundary
      have cut : buf = (first.take k).flatten ++ (first.drop k).flatten := by
        rw [whole,← List.flatten_append,List.take_append_drop]
      rw [cut,← boundary,List.take_left]
    rw [List.nil_append,prefix_,findHeaderEnd_take found (by omega)] at missing
    cases missing
  · rw [List.take_of_length_le (by omega),← whole,List.take_append,List.flatten_append,List.length_append] at boundary
    by_cases inBody : k - first.length < used.length
    · have short := returns.before (used.take (k-first.length)) (used.drop (k-first.length)) (List.take_append_drop _ used).symm (by
        intro none
        have all := List.drop_eq_nil_iff.mp none
        omega)
      have none : tail.take (k-first.length-used.length) = [] := by
        rw [show k-first.length-used.length = 0 by omega]
        rfl
      simp only [verdict,List.length_append,List.length_drop] at short
      rw [none] at boundary
      simp only [List.flatten_nil,List.length_nil] at boundary
      split at short
      · omega
      · cases short
    · rw [List.take_of_length_le (by omega)] at boundary
      omega

theorem slices_exact (read : readResponseWith quoted onBody socket = (.ok response,slices)) :
    slices.flatten = response.body ↔ Exact socket := by
  obtain ⟨headerEnd,buf,rest,used,last,head,given,returns⟩ := readResponse_ok read
  obtain ⟨first,taken,whole,found,before⟩ := readHead_ok head
  rw [List.nil_append] at whole
  have stream : delivered socket = first ++ used ++ delivered last := by rw [taken,returns.taken,List.append_assoc]
  have bytes : (delivered socket).flatten = buf ++ (used.flatten ++ (delivered last).flatten) := by
    rw [stream,whole]; simp
  have start : findHeaderEnd (delivered socket).flatten = some headerEnd := by rw [bytes]; exact findHeaderEnd_append found _
  have bound := findHeaderEnd_bound found
  have text : (delivered socket).flatten.take headerEnd = buf.take headerEnd := by
    rw [bytes,List.take_append_of_le_length (by omega)]
  have raw : (buf.drop (headerEnd+4) ++ used.flatten).length = buf.length - (headerEnd+4) + used.flatten.length := by simp
  have condition : Exact socket ↔ match framing (headersOf (lossy (buf.take headerEnd))) with
      | .untilClose => True
      | .declared length => ∃ k, ((delivered socket).take k).flatten.length = headerEnd+4+length
      | .chunked => (delivered socket).flatten.length = headerEnd+4 := by
    unfold Exact
    rw [start]
    simp only [Option.some.injEq,exists_eq_left',text]
  rw [condition,given]
  cases kind : framing (headersOf (lossy (buf.take headerEnd))) with
  | untilClose =>
    rw [kind] at returns
    rcases returns.ending with done | ⟨_,_,closed⟩
    · cases done
    · simp only [atClose,Except.ok.injEq] at closed
      simp [closed]
  | chunked =>
    rw [kind] at returns
    rw [chunked_exact returns]
    dsimp only
    exact chunked_boundary bound bytes
  | declared length =>
    rw [kind] at returns
    obtain ⟨exact_,enough⟩ := declared_exact returns
    rw [exact_]
    dsimp only
    refine ⟨fun same => ⟨(first++used).length,?_⟩,fun ⟨k,boundary⟩ => ?_⟩
    · rw [stream,List.take_left,List.flatten_append,← whole,List.length_append]
      omega
    · rw [stream,List.append_assoc] at boundary
      exact declared_boundary whole before found returns enough boundary

def accepting : OnBody := fun _ _ => none

def lengthResponse : Bytes := encode "HTTP/1.1 200 OK\r\nContent-Length: 2\r\n\r\n".toList

theorem slices_exact_declared : Exact [.data lengthResponse,.data [104],.data [105]] := by
  have read : readResponseWith id accepting [.data lengthResponse,.data [104],.data [105]] =
      (.ok ⟨200,"OK".toList,[("Content-Length".toList,"2".toList)],[104,105]⟩,[[104],[105]]) := rfl
  exact (slices_exact read).mp rfl

def chunkedResponse : Bytes := encode "HTTP/1.1 200 OK\r\nTransfer-Encoding: chunked\r\n\r\n".toList

def oneChunk : Bytes := encode "1\r\na\r\n0\r\n\r\n".toList

theorem oneChunk_decoded : decodeChunked oneChunk = .complete [97] := by
  have first : walkChunks [] 0 oneChunk = walkChunks [97] 6 (encode "0\r\n\r\n".toList) := by
    rw [walkChunks]
    rfl
  have last : walkChunks [97] 6 (encode "0\r\n\r\n".toList) = ([97],.last) := by
    rw [walkChunks]
    rfl
  rw [decodeChunked,first,last]

-- The callback sees the size lines of the chunks.
theorem chunked_slices : ¬ ∀ quoted onBody socket response slices,
    readResponseWith quoted onBody socket = (.ok response,slices) → slices.flatten = response.body := by
  intro claim
  have read : readBody id accepting .chunked [] [] [.data oneChunk] = (.ok [97],[oneChunk]) := by
    have start : decodeChunked [] = .needMore := by rw [decodeChunked,walkChunks_nil]
    have more : verdict id .chunked [] = none := by rw [verdict,start]
    have done : verdict id .chunked oneChunk = some (.ok [97]) := by rw [verdict,oneChunk_decoded]
    rw [readBody.eq_def,more]
    change readBody id accepting .chunked [oneChunk] oneChunk [] = _
    rw [readBody.eq_def,done]
  have same := claim id accepting [.data chunkedResponse,.data oneChunk]
    ⟨200,"OK".toList,[("Transfer-Encoding".toList,"chunked".toList)],[97]⟩ [oneChunk] (by
      change (match readBody id accepting .chunked [] [] [.data oneChunk] with
        | (.error e,slices) => (Except.error e,slices)
        | (.ok out,slices) =>
          (.ok (HttpResponse.mk 200 "OK".toList [("Transfer-Encoding".toList,"chunked".toList)] out),slices)) = _
      rw [read])
  revert same
  decide

end PrincessIDE.Http
