import PrincessIDE.Ai.Replies
import PrincessIDE.Ai.Url
import PrincessIDE.Foundation.Digits

namespace PrincessIDE.Mock
open Utf8 (Text Bytes encode lossy)
open Str Error
open Http

-- Of a `Duration`, the nanoseconds.
abbrev Duration := Nat

def Duration.fromMillis (millis : Nat) : Duration := millis*1000000

inductive Delivery where
  | whole
  | wholeThenStall (delay : Duration)
  | delayBeforeHeaders (delay : Duration)
  | chunkedSse
  | truncated (advertised : BitVec 64)
  | none
  | slowSse (perLine tail : Duration)
deriving DecidableEq, Repr

structure MockResponse where
  status : BitVec 16
  reason : Text
  contentType : Text
  body : Bytes
  delivery : Delivery
deriving DecidableEq, Repr

def MockResponse.okSse (body : Bytes) : MockResponse := ⟨200,"OK".toList,"text/event-stream".toList,body,.whole⟩

def MockResponse.slowSse (body : Bytes) (perLine tail : Duration) : MockResponse :=
  ⟨200,"OK".toList,"text/event-stream".toList,body,.slowSse perLine tail⟩

def reasonFor (status : BitVec 16) : Text :=
  (if status = 200 then "OK" else if status = 401 then "Unauthorized" else if status = 403 then "Forbidden"
  else if status = 404 then "Not Found" else if status = 408 then "Request Timeout" else if status = 429 then "Too Many Requests"
  else if status = 500 then "Internal Server Error" else if status = 502 then "Bad Gateway"
  else if status = 503 then "Service Unavailable" else "Unknown").toList

def MockResponse.json (status : BitVec 16) (body : Text) : MockResponse :=
  ⟨status,reasonFor status,"application/json".toList,encode body,.whole⟩

def MockResponse.withDelivery (r : MockResponse) (delivery : Delivery) : MockResponse := {r with delivery:=delivery}

-- The lines of a body, each with its line feed.
def splitInclusive : Bytes → List Bytes
  | [] => []
  | b :: rest =>
    if b = 10 then [b] :: splitInclusive rest
    else match splitInclusive rest with
      | [] => [[b]]
      | line :: later => (b::line) :: later

-- `chunks` of a slice, for at most so many rounds.
def chunkRounds (size : Nat) : Nat → Bytes → List Bytes
  | _,[] => []
  | 0,_ => []
  | n+1,bytes => bytes.take size :: chunkRounds size n (bytes.drop size)

def chunks (size : Nat) (bytes : Bytes) : List Bytes := chunkRounds size bytes.length bytes

-- What `serve` does to its connection when every write is taken.
inductive Act where
  | write (bytes : Bytes)
  | sleep (duration : Duration)
  | shutdown
deriving DecidableEq, Repr

def head (r : MockResponse) : Text :=
  let start := "HTTP/1.1 ".toList ++ decimal r.status.toNat ++ ' ' :: r.reason ++ "\r\nContent-Type: ".toList ++ r.contentType
  let close := "\r\nConnection: close\r\n\r\n".toList
  match r.delivery with
  | .chunkedSse => start ++ "\r\nTransfer-Encoding: chunked".toList ++ close
  | .truncated advertised => start ++ "\r\nContent-Length: ".toList ++ decimal advertised.toNat ++ close
  | _ => start ++ "\r\nContent-Length: ".toList ++ decimal r.body.length ++ close

def hex (n : Nat) : Text := Nat.toDigits 16 n

def frame (line : Bytes) : List Act := [.write (encode (hex line.length ++ crlf)),.write line,.write (encode crlf)]

def deliver (r : MockResponse) : List Act := match r.delivery with
  | .chunkedSse => (splitInclusive r.body).flatMap frame ++ [.write (encode "0\r\n\r\n".toList)]
  | .truncated advertised => [.write (r.body.take (min r.body.length (advertised.toNat-1)))]
  | .wholeThenStall delay =>
    (chunks 64 r.body).flatMap (fun piece => [.write piece,.sleep (max (.fromMillis 5) (delay/20))]) ++ [.sleep delay]
  | .slowSse perLine tail => (splitInclusive r.body).flatMap (fun line => [.write line,.sleep perLine]) ++ [.sleep tail]
  | .delayBeforeHeaders _ | .whole => [.write r.body]
  | .none => []

def serve (r : MockResponse) : List Act :=
  (match r.delivery with
    | .delayBeforeHeaders delay => [.sleep delay]
    | _ => []) ++
  match r.delivery with
  | .none => [.shutdown]
  | _ => .write (encode (head r)) :: deliver r ++ [.shutdown]

def Act.bytes : Act → Bytes
  | .write bytes => bytes
  | .sleep _ | .shutdown => []

-- What a peer can read of a connection.
def wire (acts : List Act) : Bytes := acts.flatMap Act.bytes

theorem splitInclusive_flatten (body : Bytes) : (splitInclusive body).flatten = body := by
  induction body with
  | nil => rfl
  | cons b rest ih =>
    rw [splitInclusive]
    split
    · rw [List.flatten_cons,ih]
      rfl
    · split
      · next empty =>
        rw [empty,List.flatten_nil] at ih
        rw [← ih]
        rfl
      · next line later shape =>
        rw [shape] at ih
        rw [← ih]
        rfl

theorem splitInclusive_filled (body : Bytes) : ∀ line ∈ splitInclusive body, line ≠ [] := by
  induction body with
  | nil => exact fun line none => absurd none List.not_mem_nil
  | cons b rest ih =>
    intro line member
    rw [splitInclusive] at member
    split at member
    · rcases List.mem_cons.mp member with rfl | later
      · exact List.cons_ne_nil _ _
      · exact ih line later
    · split at member
      · rw [List.mem_singleton.mp member]
        exact List.cons_ne_nil _ _
      · next shape =>
        rcases List.mem_cons.mp member with rfl | later
        · exact List.cons_ne_nil _ _
        · exact ih line (by rw [shape]; exact List.mem_cons_of_mem _ later)

theorem chunkRounds_flatten (positive : 0 < size) (enough : bytes.length ≤ n) : (chunkRounds size n bytes).flatten = bytes := by
  induction n generalizing bytes with
  | zero =>
    rw [List.length_eq_zero_iff.mp (Nat.le_zero.mp enough)]
    rfl
  | succ n ih => cases bytes with
    | nil => rfl
    | cons b bytes =>
      have shorter : ((b::bytes).drop size).length ≤ n := by
        rw [List.length_drop]
        omega
      rw [chunkRounds,List.flatten_cons,ih shorter,List.take_append_drop]
      exact List.cons_ne_nil _ _

theorem chunks_flatten (positive : 0 < size) (bytes : Bytes) : (chunks size bytes).flatten = bytes :=
  chunkRounds_flatten positive (Nat.le_refl _)

-- Pauses between writes carry nothing.
theorem wire_spaced (pieces : List Bytes) (pause : Duration) : wire (pieces.flatMap fun piece => [.write piece,.sleep pause]) = pieces.flatten := by
  induction pieces with
  | nil => rfl
  | cons piece pieces ih =>
    unfold wire at ih ⊢
    rw [List.flatMap_cons,List.flatMap_append,ih,List.flatten_cons]
    simp [Act.bytes]

theorem wire_append (a b : List Act) : wire (a ++ b) = wire a ++ wire b := List.flatMap_append

-- What is on the wire behind the head.
def payload (r : MockResponse) : Bytes := match r.delivery with
  | .chunkedSse => ((splitInclusive r.body).flatMap fun line => encode (hex line.length) ++ 13::10::(line ++ [13,10])) ++ encode "0\r\n\r\n".toList
  | .truncated advertised => r.body.take (min r.body.length (advertised.toNat-1))
  | .none => []
  | _ => r.body

theorem wire_frames (ls : List Bytes) : wire (ls.flatMap frame) = ls.flatMap fun line => encode (hex line.length) ++ 13::10::(line ++ [13,10]) := by
  induction ls with
  | nil => rfl
  | cons line ls ih =>
    have bytes : wire (frame line) = encode (hex line.length) ++ 13::10::(line ++ [13,10]) := by
      have breaks : encode crlf = [13,10] := rfl
      simp [wire,frame,Act.bytes,Utf8.encode_append,breaks]
    rw [List.flatMap_cons,wire_append,ih,bytes,List.flatMap_cons]

theorem wire_deliver (r : MockResponse) : wire (deliver r) = payload r := by
  unfold deliver payload
  cases r.delivery with
  | whole | delayBeforeHeaders _ | truncated _ => simp [wire,Act.bytes]
  | none => rfl
  | chunkedSse =>
    rw [wire_append,wire_frames]
    simp [wire,Act.bytes]
  | wholeThenStall delay =>
    dsimp only
    rw [wire_append,wire_spaced,chunks_flatten (by decide)]
    simp [wire,Act.bytes]
  | slowSse perLine tail =>
    dsimp only
    rw [wire_append,wire_spaced,splitInclusive_flatten]
    simp [wire,Act.bytes]

theorem wire_serve (some : r.delivery ≠ .none) : wire (serve r) = encode (head r) ++ payload r := by
  unfold serve
  rw [wire_append]
  have before : wire (match r.delivery with
      | .delayBeforeHeaders delay => [.sleep delay]
      | _ => []) = [] := by
    split <;> rfl
  have behind : wire (.write (encode (head r)) :: deliver r ++ [.shutdown]) = encode (head r) ++ payload r := by
    rw [List.cons_append,← List.singleton_append,wire_append,wire_append,wire_deliver]
    simp [wire,Act.bytes]
  rw [before,List.nil_append]
  split
  · next none => exact absurd none some
  · exact behind

-- A response that a reply can carry: no line break of its own in the head, and
-- within what the client takes.
structure Lawful (r : MockResponse) : Prop where
  reason : '\r' ∉ r.reason
  contentType : Trimmed r.contentType ∧ '\r' ∉ r.contentType
  small : (encode (head r)).length ≤ maxHeaderBytes
  fits : (wire (serve r)).length ≤ maxResponseBytes

-- The row that frames the body.
def framingRow (r : MockResponse) : Text × Text := match r.delivery with
  | .chunkedSse => ("Transfer-Encoding".toList,"chunked".toList)
  | .truncated advertised => ("Content-Length".toList,decimal advertised.toNat)
  | _ => ("Content-Length".toList,decimal r.body.length)

def headers (r : MockResponse) : List (Text × Text) :=
  [("Content-Type".toList,r.contentType),framingRow r,("Connection".toList,"close".toList)]

-- What the client is to make of a response: of a body that was cut off, an error;
-- of any other, the response.
def expected (r : MockResponse) (ending : Option PrincessError) : Except Failure HttpResponse := match r.delivery with
  | .none => .error (.error (ending.getD headersCut))
  | .truncated advertised =>
    if advertised = 0 then .ok ⟨r.status.toNat,r.reason,headers r,[]⟩
    else .error (.error (ending.getD (forTransport readingBody ("stream ended after ".toList ++
      decimal (min r.body.length (advertised.toNat-1)) ++ " of ".toList ++ decimal advertised.toNat ++ " declared bytes".toList))))
  | _ => .ok ⟨r.status.toNat,r.reason,headers r,r.body⟩

theorem framingRow_field (r : MockResponse) : (Trimmed (framingRow r).1 ∧ ':' ∉ (framingRow r).1) ∧ Trimmed (framingRow r).2 ∧
    '\r' ∉ (framingRow r).1 ++ (framingRow r).2 := by
  have name : Trimmed "Content-Length".toList ∧ ':' ∉ "Content-Length".toList := ⟨trimmed_iff.mpr rfl,by decide⟩
  have number : ∀ n : Nat, Trimmed (decimal n) ∧ '\r' ∉ "Content-Length".toList ++ decimal n := by
    intro n
    have digits : Trimmed (decimal n) := toDigits_trimmed (by decide) (by decide) n
    have plain : '\r' ∉ decimal n := toDigits_plain (by decide) (by decide) (by decide)
    have row : '\r' ∉ "Content-Length".toList := by decide
    exact ⟨digits,fun inside => (List.mem_append.mp inside).elim row plain⟩
  have chunked : Trimmed "Transfer-Encoding".toList ∧ ':' ∉ "Transfer-Encoding".toList := ⟨trimmed_iff.mpr rfl,by decide⟩
  have whole : Trimmed "chunked".toList ∧ '\r' ∉ "Transfer-Encoding".toList ++ "chunked".toList := ⟨trimmed_iff.mpr rfl,by decide⟩
  unfold framingRow
  cases r.delivery with
  | chunkedSse => exact ⟨chunked,whole⟩
  | truncated advertised => exact ⟨name,number _⟩
  | whole | wholeThenStall _ | delayBeforeHeaders _ | none | slowSse _ _ => exact ⟨name,number _⟩

def framingField (r : MockResponse) : Field :=
  ⟨(framingRow r).1,(framingRow r).2,(framingRow_field r).1,(framingRow_field r).2.1,(framingRow_field r).2.2⟩

def closeField : Field := ⟨"Connection".toList,"close".toList,⟨trimmed_iff.mpr rfl,by decide⟩,trimmed_iff.mpr rfl,by decide⟩

namespace Lawful

theorem typed (lawful : Lawful r) : '\r' ∉ "Content-Type".toList ++ r.contentType := by
  rw [List.mem_append,not_or]
  exact ⟨by decide,lawful.contentType.2⟩

def typeField (lawful : Lawful r) : Field :=
  ⟨"Content-Type".toList,r.contentType,⟨trimmed_iff.mpr rfl,by decide⟩,lawful.contentType.1,lawful.typed⟩

def written (lawful : Lawful r) : Head := ⟨r.status,r.reason,[lawful.typeField,framingField r,closeField],lawful.reason⟩

theorem written_text (lawful : Lawful r) : lawful.written.text = head r := by
  have text : lawful.written.text = "HTTP/1.1 ".toList ++ decimal r.status.toNat ++ ' ' :: r.reason ++ crlf ++
      ("Content-Type".toList ++ ": ".toList ++ r.contentType ++ crlf ++ ((framingRow r).1 ++ ": ".toList ++ (framingRow r).2 ++ crlf ++
        ("Connection".toList ++ ": ".toList ++ "close".toList ++ crlf ++ []))) ++ crlf := rfl
  rw [text]
  unfold head framingRow
  cases r.delivery <;> simp [crlf]

end Lawful

theorem headers_plain (r : MockResponse) : checkEncoding (headers r) = .ok () := by
  unfold headers framingRow
  cases r.delivery <;> rfl

theorem framing_declared (r : MockResponse) (small : n < u64) (row : framingRow r = ("Content-Length".toList,decimal n)) :
    framing (headers r) = .declared n := by
  have value : header (headers r) "Content-Length".toList = some (decimal n) := by
    rw [headers,row]
    rfl
  have whole : header (headers r) "Transfer-Encoding".toList = none := by
    rw [headers,row]
    rfl
  have number : fromStrRadix 10 u64 (trim (decimal n)) = some n := by
    have trimmed : Trimmed (decimal n) := toDigits_trimmed (by decide) (by decide) n
    rw [trimmed.trim_eq]
    exact fromStrRadix_decimal small
  unfold framing
  rw [whole,value,Option.bind_some,number]
  rfl

theorem framing_chunked (r : MockResponse) (kind : r.delivery = .chunkedSse) : framing (headers r) = .chunked := by
  unfold headers framingRow
  rw [kind]
  rfl

theorem chunkSize_hex (small : n < u64) : chunkSize (lossy (encode (hex n))) = some n := by
  have whole : split [';'] (hex n) = [hex n] := split_absent (toDigits_plain (by decide) (by decide) (by decide)) List.mem_cons_self
  have trimmed : Trimmed (hex n) := toDigits_trimmed (by decide) (by decide) n
  rw [Utf8.lossy_encode,chunkSize,whole,List.headD_cons,trimmed.trim_eq]
  exact fromStrRadix_toDigits (by decide) (by decide) small

theorem hex_line (n : Nat) : findCrlf (encode (hex n)) = none := by
  have absent : '\r' ∉ hex n := toDigits_plain (by decide) (by decide) (by decide)
  have alone : findCrlf (encode (hex n) ++ []) = none := Chunks.findCrlf_behind (encode_plain absent) rfl
  rwa [List.append_nil] at alone

theorem frames_taken {ls : List Bytes} (filled : ∀ line ∈ ls, line ≠ []) (small : ls.flatten.length < u64) :
    Chunks.Taken ls.flatten (ls.flatMap fun line => encode (hex line.length) ++ 13::10::(line ++ [13,10])) := by
  induction ls with
  | nil => exact .nil
  | cons line ls ih =>
    rw [List.flatten_cons,List.length_append] at small
    have later := ih (fun l member => filled l (List.mem_cons_of_mem _ member)) (by omega)
    have size : chunkSize (lossy (encode (hex line.length))) = some line.length := chunkSize_hex (by omega)
    have two : ([13,10] : Bytes).length = 2 := rfl
    have taken := Chunks.Taken.chunk (hex_line line.length) size (filled line List.mem_cons_self) two later
    rw [List.flatten_cons,List.flatMap_cons]
    simpa only [List.append_assoc,List.cons_append] using taken

-- The frames decode to the body they were made of.
theorem frames_decoded (quoted : Text → Text) (body : Bytes)
    (fits : ((splitInclusive body).flatMap fun line => encode (hex line.length) ++ 13::10::(line ++ [13,10])).length + body.length < u64) :
    verdict quoted .chunked (((splitInclusive body).flatMap fun line => encode (hex line.length) ++ 13::10::(line ++ [13,10])) ++
      encode "0\r\n\r\n".toList) = some (.ok body) := by
  have same := splitInclusive_flatten body
  have taken := frames_taken (splitInclusive_filled body) (by rw [same]; omega)
  rw [same] at taken
  have zero : chunkSize (lossy (encode (hex 0))) = some 0 := chunkSize_hex (by decide)
  have room : 0 + ((splitInclusive body).flatMap fun line => encode (hex line.length) ++ 13::10::(line ++ [13,10])).length < u64 := by omega
  have walks := Chunks.walk_taken taken room [] (encode "0\r\n\r\n".toList)
  have last := Chunks.walk_line (hex_line 0) zero body (0 + ((splitInclusive body).flatMap fun line =>
    encode (hex line.length) ++ 13::10::(line ++ [13,10])).length) [13,10]
  have shape : encode "0\r\n\r\n".toList = encode (hex 0) ++ 13::10::[13,10] := by decide
  rw [if_pos rfl] at last
  rw [List.nil_append,shape,last] at walks
  rw [verdict,decodeChunked,shape,walks]

theorem frames_longer (ls : List Bytes) :
    ls.flatten.length ≤ (ls.flatMap fun line => encode (hex line.length) ++ 13::10::(line ++ [13,10])).length := by
  induction ls with
  | nil => exact Nat.le_refl _
  | cons line ls ih =>
    rw [List.flatten_cons,List.flatMap_cons]
    simp only [List.length_append,List.length_cons] at ih ⊢
    omega

theorem lawful_bytes (lawful : Lawful r) (some : r.delivery ≠ .none) : (encode (head r)).length + (payload r).length ≤ maxResponseBytes := by
  have fits := lawful.fits
  rwa [wire_serve some,List.length_append] at fits

theorem head_end (lawful : Lawful r) (found : findHeaderEnd (wire (serve r)) = some pos) : pos+3 ≤ maxHeaderBytes := by
  by_cases none : r.delivery = .none
  · have empty : wire (serve r) = [] := by
      unfold serve
      rw [none]
      rfl
    rw [empty] at found
    cases found
  · have small := lawful.small
    rw [wire_serve none,← lawful.written_text,findHeaderEnd_written] at found
    rw [← lawful.written_text,lawful.written.text_length] at small
    cases found
    omega

theorem verdict_whole (quoted : Text → Text) (body : Bytes) : verdict quoted (.declared body.length) body = some (.ok body) := by
  rw [verdict,if_neg (Nat.lt_irrefl _),List.take_length]

-- The body of a response as its framing has it, or how it was cut off.
theorem payload_told (lawful : Lawful r) (some : r.delivery ≠ .none) :
    ((verdict quoted (framing (headers r)) (payload r)).getD (stopped (framing (headers r)) (payload r) ending)).map
      (HttpResponse.mk r.status.toNat r.reason (headers r)) = expected r ending := by
  have bound := lawful_bytes lawful some
  have room : maxResponseBytes + maxResponseBytes < u64 := by decide
  unfold expected
  have plainly : payload r = r.body → framingRow r = ("Content-Length".toList,decimal r.body.length) →
      ((verdict quoted (framing (headers r)) (payload r)).getD (stopped (framing (headers r)) (payload r) ending)).map
        (HttpResponse.mk r.status.toNat r.reason (headers r)) = .ok ⟨r.status.toNat,r.reason,headers r,r.body⟩ := by
    intro body row
    rw [body] at bound ⊢
    rw [framing_declared r (by omega) row,verdict_whole]
    rfl
  cases kind : r.delivery with
  | none => exact absurd kind some
  | whole | wholeThenStall _ | delayBeforeHeaders _ | slowSse _ _ =>
    apply plainly
    · rw [payload,kind]
    · rw [framingRow,kind]
  | chunkedSse =>
    have frames : payload r = ((splitInclusive r.body).flatMap fun line => encode (hex line.length) ++ 13::10::(line ++ [13,10])) ++
        encode "0\r\n\r\n".toList := by
      rw [payload,kind]
    have longer := frames_longer (splitInclusive r.body)
    rw [splitInclusive_flatten] at longer
    rw [frames,List.length_append] at bound
    rw [framing_chunked r kind,frames,frames_decoded quoted r.body (by omega)]
    rfl
  | truncated advertised =>
    have cut : payload r = r.body.take (min r.body.length (advertised.toNat-1)) := by rw [payload,kind]
    have row : framingRow r = ("Content-Length".toList,decimal advertised.toNat) := by rw [framingRow,kind]
    have length : (payload r).length = min r.body.length (advertised.toNat-1) := by
      rw [cut,List.length_take]
      omega
    rw [framing_declared r advertised.isLt row,verdict]
    dsimp only
    by_cases nothing : advertised = 0
    · subst nothing
      rw [if_pos rfl,if_neg (show ¬ (payload r).length < (0 : BitVec 64).toNat from Nat.not_lt_zero _),cut]
      rfl
    · have positive : advertised.toNat ≠ 0 := fun zero => nothing (BitVec.eq_of_toNat_eq zero)
      rw [if_neg nothing,if_pos (by omega)]
      cases ending with
      | some e => rfl
      | none =>
        rw [Option.getD_none,Option.getD_none,stopped,atClose,length]
        rfl

-- However the bytes of a response are cut into reads, the client has the response
-- that the mock was told to give; of one that is cut off, it knows how much is missing.
theorem client_served (lawful : Lawful r) (bytes : (delivered socket).flatten = wire (serve r)) :
    (readResponseWith quoted accepting socket).1 = expected r (endOf socket) := by
  have read : (readResponseWith quoted accepting socket).1 = respond quoted (endOf socket) (delivered socket).flatten := by
    apply readResponse_respond
    · rw [bytes]
      exact lawful.fits
    · exact fun pos found => head_end lawful (bytes ▸ found)
  rw [read,bytes]
  by_cases none : r.delivery = .none
  · have empty : wire (serve r) = [] := by
      unfold serve
      rw [none]
      rfl
    rw [empty,expected,none]
    rfl
  · have plain : checkEncoding lawful.written.headers = .ok () := headers_plain r
    rw [wire_serve none,← lawful.written_text,respond_written lawful.written plain]
    exact payload_told lawful none

def declaredLength (line : Text) : Option Nat := (splitOnce [':'] line).bind fun cut =>
  if eqIgnoreAsciiCase cut.1 "content-length".toList then fromStrRadix 10 u64 (trim cut.2) else none

-- The length that the first row with a number declares.
def contentLength (head : Text) : Nat := ((lines head).findSome? declaredLength).getD 0

-- What the bytes so far settle: a complete request, or the panic of a length
-- beyond 64 bits. The head is looked for again: more bytes do not move its end.
def settled (buf : Bytes) : Option (Option Text) := match findHeaderEnd buf with
  | none => none
  | some pos =>
    let needed := pos+4 + contentLength (lossy (buf.take (pos+4)))
    if u64 ≤ needed then some none
    else if needed ≤ buf.length then some (some (lossy buf))
    else none

def readRequest (buf : Bytes) (socket : List Arrival) : Option Text := match settled buf with
  | some answer => answer
  | none => match socket with
    | .data (b::bytes) :: rest => readRequest (buf ++ b::bytes) rest
    | _ => some (lossy buf)

theorem lines_rows {rows : List Text} (unbroken : ∀ row ∈ rows, Unbroken row) : lines ((rows.flatMap fun row => row ++ crlf) ++ crlf) = rows ++ [[]] := by
  have plain : ∀ row ∈ rows ++ [[]], '\n' ∉ row ++ ['\r'] := by
    intro row member inside
    rcases List.mem_append.mp inside with here | last
    · rcases List.mem_append.mp member with listed | blank
      · exact (unbroken row listed).2 here
      · rw [List.mem_singleton.mp blank] at here
        cases here
    · cases List.mem_singleton.mp last
  have whole := lines_flatten (f:=fun row => row ++ ['\r']) plain
  simp only [dropReturn_ended,List.map_id',List.flatMap_append,List.flatMap_singleton,List.append_assoc] at whole
  exact whole

-- A request line is no row of a length, whatever its target has.
theorem requestLine_length (request : HttpRequest) (colon : ':' ∉ request.method) (found : splitOnce [':'] (requestLine request parsed) = some cut) :
    eqIgnoreAsciiCase cut.1 "content-length".toList = false := by
  have blank : ' ' ∈ cut.1 := by
    by_cases later : ':' ∈ parsed.target ++ " HTTP/1.1".toList
    · obtain ⟨front,back,shape,absent⟩ := List.eq_append_cons_of_mem later
      have plain : ':' ∉ request.method ++ ' ' :: front := by
        simp only [List.mem_append,List.mem_cons,not_or]
        exact ⟨colon,by decide,absent⟩
      have first := splitOnce_char plain back
      rw [requestLine,shape] at found
      rw [List.append_assoc,List.cons_append,found] at first
      cases first
      simp
    · have absent : ':' ∉ requestLine request parsed := by
        simp only [requestLine,List.mem_append,List.mem_cons,not_or] at later ⊢
        exact ⟨colon,by decide,later⟩
      rw [splitOnce_none absent List.mem_cons_self] at found
      cases found
  cases same : eqIgnoreAsciiCase cut.1 "content-length".toList with
  | false => rfl
  | true =>
    have lowered := eq_of_beq same
    have inside : toAsciiLowercase ' ' ∈ cut.1.map toAsciiLowercase := List.mem_map_of_mem blank
    rw [lowered] at inside
    exact absurd inside (by decide)

theorem declaredLength_request (request : HttpRequest) (colon : ':' ∉ request.method) : declaredLength (requestLine request parsed) = none := by
  unfold declaredLength
  cases found : splitOnce [':'] (requestLine request parsed) with
  | none => rfl
  | some cut =>
    rw [Option.bind_some,requestLine_length request colon found]
    rfl

theorem declaredLength_host (host : Text) : declaredLength ("Host: ".toList ++ host) = none := by
  have cut : splitOnce [':'] ("Host: ".toList ++ host) = some ("Host".toList,' ' :: host) :=
    splitOnce_char (a:="Host".toList) (by decide) (' ' :: host)
  rw [declaredLength,cut]
  rfl

theorem declaredLength_written (small : n < u64) : declaredLength ("Content-Length: ".toList ++ decimal n) = some n := by
  have cut : splitOnce [':'] ("Content-Length: ".toList ++ decimal n) = some ("Content-Length".toList,' ' :: decimal n) :=
    splitOnce_char (a:="Content-Length".toList) (by decide) (' ' :: decimal n)
  have trimmed : Trimmed (decimal n) := toDigits_trimmed (by decide) (by decide) n
  have blank : trim ([' '] ++ decimal n) = trim (decimal n) := trim_behind (List.all_eq_true.mp (by decide)) _
  have value : trim (' ' :: decimal n) = decimal n := blank.trans trimmed.trim_eq
  have number : fromStrRadix 10 u64 (trim (' ' :: decimal n)) = some n := (congrArg _ value).trans (fromStrRadix_decimal small)
  have name : eqIgnoreAsciiCase "Content-Length".toList "content-length".toList = true := by decide
  unfold declaredLength
  rw [cut,Option.bind_some,number]
  exact if_pos name

theorem contentLength_request {request : HttpRequest} (proper : request.Proper parsed) (small : request.body.length < u64) :
    contentLength (requestHead request parsed) = request.body.length := by
  have close : declaredLength "Connection: close".toList = none := by decide
  unfold contentLength
  rw [requestHead_rows,lines_rows proper.rows,requestRows,List.cons_append,List.cons_append,List.cons_append,List.cons_append,
    List.findSome?_cons,declaredLength_request request proper.method.2]
  dsimp only
  rw [List.findSome?_cons,declaredLength_host]
  dsimp only
  rw [List.findSome?_cons,close]
  dsimp only
  rw [List.findSome?_cons,declaredLength_written small]
  rfl

-- A front of a request settles nothing, unless it is the request.
theorem settled_front (found : findHeaderEnd (buf ++ later) = some pos) (small : (buf ++ later).length < u64)
    (length : pos+4 + contentLength (lossy ((buf ++ later).take (pos+4))) = (buf ++ later).length) :
    settled buf = if later = [] then some (some (lossy buf)) else none := by
  unfold settled
  cases here : findHeaderEnd buf with
  | none =>
    by_cases last : later = []
    · rw [last,List.append_nil,here] at found
      cases found
    · rw [if_neg last]
  | some first =>
    have same := findHeaderEnd_append here later
    rw [found] at same
    cases same
    have bound := findHeaderEnd_bound here
    rw [List.take_append_of_le_length bound] at length
    dsimp only
    rw [length,if_neg (Nat.not_le.mpr small),List.length_append]
    by_cases last : later = []
    · rw [last,if_pos rfl]
      exact if_pos (Nat.le_refl _)
    · have more := List.length_pos_iff.mpr last
      rw [if_neg last]
      exact if_neg (by omega)

-- By induction on the reads: a request that ends with its declared length is
-- complete with its last byte.
theorem readRequest_whole (found : findHeaderEnd whole = some pos) (small : whole.length < u64)
    (length : pos+4 + contentLength (lossy (whole.take (pos+4))) = whole.length) (bytes : whole = buf ++ (delivered socket).flatten) :
    readRequest buf socket = some (lossy whole) := by
  induction socket generalizing buf with
  | nil =>
    have last : whole = buf := by simpa [delivered] using bytes
    rw [readRequest.eq_def]
    subst last
    split
    · next answer settles =>
      have alone : whole ++ [] = whole := List.append_nil whole
      have front : settled whole = if ([] : Bytes) = [] then some (some (lossy whole)) else none :=
        settled_front (alone.symm ▸ found) (alone.symm ▸ small) (alone.symm ▸ length)
      rw [settles] at front
      cases front
      rfl
    · rfl
  | cons a socket ih =>
    have front : settled buf = if (delivered (a::socket)).flatten = [] then some (some (lossy buf)) else none :=
      settled_front (bytes ▸ found) (bytes ▸ small) (bytes ▸ length)
    rw [readRequest.eq_def,front]
    by_cases last : (delivered (a::socket)).flatten = []
    · rw [if_pos last,bytes,last,List.append_nil]
    · rw [if_neg last]
      dsimp only
      cases a with
      | closed | failed e => exact absurd rfl last
      | data read => cases read with
        | nil => exact absurd rfl last
        | cons b read =>
          apply ih
          rw [bytes,delivered,List.flatten_cons,List.append_assoc]

theorem request_heard {request : HttpRequest} (proper : request.Proper parsed) (small : (buildRequestBytes request parsed).length < u64)
    (bytes : (delivered socket).flatten = buildRequestBytes request parsed) :
    readRequest [] socket = some (requestHead request parsed ++ lossy request.body) := by
  have shape : buildRequestBytes request parsed = encode (requestHead request parsed) ++ request.body := rfl
  have found := findHeaderEnd_request proper
  have bound := findHeaderEnd_bound found
  have enough : 4 ≤ (encode (requestHead request parsed)).length := by
    rw [requestHead_broken,Utf8.encode_append,List.length_append]
    exact Nat.le_add_left _ _
  have head : (buildRequestBytes request parsed).take ((encode (requestHead request parsed)).length-4+4) = encode (requestHead request parsed) := by
    rw [Nat.sub_add_cancel enough,shape,List.take_left]
  have total : (buildRequestBytes request parsed).length = (encode (requestHead request parsed)).length + request.body.length := by
    rw [shape,List.length_append]
  have length := contentLength_request proper (show request.body.length < u64 by omega)
  have read : readRequest [] socket = some (lossy (buildRequestBytes request parsed)) := by
    apply readRequest_whole found small
    · rw [head,Utf8.lossy_encode,length,total]
      omega
    · exact bytes.symm
  rw [read,shape,Utf8.lossy_front]

def probeUrl : Text := "http://127.0.0.1:8080/v1/chat/completions".toList
def probeParsed : ParsedUrl := ⟨"127.0.0.1".toList,8080,"/v1/chat/completions".toList,false⟩
def probeAnswer : MockResponse := (MockResponse.okSse (encode "data: 1\n\ndata: [DONE]\n\n".toList)).withDelivery .chunkedSse

theorem probeAnswer_lawful : Lawful probeAnswer :=
  ⟨by decide,⟨trimmed_iff.mpr rfl,by decide⟩,by decide +kernel,by decide +kernel⟩

-- Reads of one byte each.
def bytewise (bytes : Bytes) (rest : List Arrival) : List Arrival := bytes.map (fun b => .data [b]) ++ rest

theorem bytewise_bytes (last : delivered rest = []) (bytes : Bytes) : (delivered (bytewise bytes rest)).flatten = bytes := by
  induction bytes with
  | nil => exact congrArg List.flatten last
  | cons b bytes ih => exact congrArg (b :: ·) ih

end PrincessIDE.Mock
