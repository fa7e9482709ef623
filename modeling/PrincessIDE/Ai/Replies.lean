import PrincessIDE.Ai.Reading
import PrincessIDE.Ai.Url
import PrincessIDE.Foundation.Digits

namespace PrincessIDE.Http
open Utf8 Str Error

def crlf : Text := ['\r','\n']

-- A header row that the client reads back as it was written.
structure Field where
  name : Text
  value : Text
  named : Trimmed name ∧ ':' ∉ name
  valued : Trimmed value
  plain : '\r' ∉ name ++ value

def Field.line (f : Field) : Text := f.name ++ ": ".toList ++ f.value

def Field.row (f : Field) : Text × Text := (f.name,f.value)

-- The head of a reply, from the status line to the blank line.
structure Head where
  status : BitVec 16
  reason : Text
  fields : List Field
  plain : '\r' ∉ reason

def Head.statusLine (h : Head) : Text := "HTTP/1.1 ".toList ++ decimal h.status.toNat ++ ' ' :: h.reason

def Head.text (h : Head) : Text := h.statusLine ++ crlf ++ (h.fields.flatMap fun f => f.line ++ crlf) ++ crlf

def Head.headers (h : Head) : List (Text × Text) := h.fields.map Field.row

-- Lines, each but the first behind a line break.
def broken (first : Text) (rest : List Text) : Text := first ++ rest.flatMap (crlf ++ ·)

theorem broken_ended (first : Text) (rest : List Text) : first ++ crlf ++ rest.flatMap (· ++ crlf) = broken first rest ++ crlf := by
  induction rest generalizing first with
  | nil => simp [broken]
  | cons line rest ih =>
    have later := ih line
    unfold broken at later ⊢
    rw [List.flatMap_cons,List.flatMap_cons,List.append_assoc first crlf,← List.append_assoc crlf,← List.append_assoc crlf,List.append_assoc,
      List.append_assoc crlf,← List.append_assoc line,later]
    simp only [List.append_assoc]

theorem splitOnce_crlf (plain : '\r' ∉ line) (rest : Text) : splitOnce crlf (line ++ (crlf ++ rest)) = some (line,rest) := by
  induction line with
  | nil => exact splitOnce_start crlf rest
  | cons c line ih =>
    have other : '\r' ≠ c := fun same => plain (same ▸ List.mem_cons_self)
    have later := ih fun inside => plain (List.mem_cons_of_mem _ inside)
    rw [List.cons_append,splitOnce,later]
    simp [crlf,stripPrefix,other]

theorem headLines_broken (plain : ∀ line ∈ first :: rest, '\r' ∉ line) : headLines (broken first rest) = first :: rest := by
  induction rest generalizing first with
  | nil =>
    have alone := plain first List.mem_cons_self
    rw [headLines,broken,List.flatMap_nil,List.append_nil]
    exact split_absent alone (by simp)
  | cons line rest ih =>
    have later : headLines (broken line rest) = line :: rest := ih fun l member => plain l (List.mem_cons_of_mem _ member)
    have shape : broken first (line :: rest) = first ++ (crlf ++ broken line rest) := by
      simp only [broken,List.flatMap_cons,List.append_assoc]
    have cut : splitOnce "\r\n".toList (broken first (line :: rest)) = some (first,broken line rest) := by
      rw [shape]
      exact splitOnce_crlf (plain first List.mem_cons_self) _
    have solid : "\r\n".toList ≠ [] := by decide
    rw [headLines,split_found solid cut]
    exact congrArg _ later

theorem encode_plain (plain : '\r' ∉ t) : 13 ∉ encode t := fun inside => plain (ascii_encode (by decide) inside)

-- The end of a line is the end of the head where another line break follows it.
theorem findHeaderEnd_line (plain : 13 ∉ line) (rest : Bytes) : findHeaderEnd (line ++ 13::10::rest) =
    if rest.take 2 = [13,10] then some line.length else (findHeaderEnd rest).map (· + (line.length+2)) := by
  induction line with
  | nil =>
    have inner : findHeaderEnd (10::rest) = (findHeaderEnd rest).map (·+1) := by
      rw [findHeaderEnd,if_neg (by simp)]
    rw [List.nil_append,findHeaderEnd,inner]
    by_cases blank : rest.take 2 = [13,10]
    · rw [if_pos blank,if_pos (by simp [blank])]
      rfl
    · rw [if_neg blank,if_neg (by simpa using blank),Option.map_map]
      rfl
  | cons b line ih =>
    have other : ¬ (b::(line ++ 13::10::rest)).take 4 = [13,10,13,10] := by
      intro here
      rw [List.take_succ_cons] at here
      exact plain ((List.cons.inj here).1 ▸ List.mem_cons_self)
    rw [List.cons_append,findHeaderEnd,if_neg other,ih fun inside => plain (List.mem_cons_of_mem _ inside)]
    split
    · rfl
    · rw [Option.map_map]
      rfl

theorem encode_crlf (t : Text) : encode (crlf ++ t) = 13::10::encode t := by
  rw [encode_append]
  rfl

-- By induction on the lines: none but the one in front of the blank line ends the head.
theorem findHeaderEnd_broken (plain : ∀ line ∈ first :: rest, '\r' ∉ line) (solid : ∀ line ∈ rest, line ≠ []) (body : Bytes) :
    findHeaderEnd (encode (broken first rest) ++ 13::10::13::10::body) = some (encode (broken first rest)).length := by
  induction rest generalizing first with
  | nil =>
    have alone := encode_plain (plain first List.mem_cons_self)
    rw [broken,List.flatMap_nil,List.append_nil,findHeaderEnd_line alone]
    rfl
  | cons line rest ih =>
    have later : findHeaderEnd (encode (broken line rest) ++ 13::10::13::10::body) = some (encode (broken line rest)).length :=
      ih (fun l member => plain l (List.mem_cons_of_mem _ member)) (fun l member => solid l (List.mem_cons_of_mem _ member))
    have shape : encode (broken first (line :: rest)) = encode first ++ 13::10::encode (broken line rest) := by
      rw [← encode_crlf,← encode_append]
      simp only [broken,List.flatMap_cons,List.append_assoc]
    have begun : (encode (broken line rest) ++ 13::10::13::10::body).take 2 ≠ [13,10] := by
      intro blank
      have free := encode_plain (plain line (by simp))
      have filled : encode line ≠ [] := by
        intro empty
        have text := congrArg lossy empty
        rw [lossy_encode] at text
        exact solid line List.mem_cons_self text
      rw [broken,encode_append,List.append_assoc] at blank
      obtain ⟨b,bytes,start⟩ := List.exists_cons_of_ne_nil filled
      rw [start,List.cons_append,List.take_succ_cons] at blank
      rw [start] at free
      exact free ((List.cons.inj blank).1 ▸ List.mem_cons_self)
    rw [shape,List.append_assoc,List.cons_append,List.cons_append,findHeaderEnd_line (encode_plain (plain first List.mem_cons_self)),if_neg begun,later]
    simp only [Option.map_some,List.length_append,List.length_cons]
    exact congrArg some (by omega)

theorem parseStatusLine_written (h : Head) : parseStatusLine h.statusLine = .ok (h.status.toNat,h.reason) := by
  have shape : h.statusLine = "HTTP/1.1".toList ++ ' ' :: (decimal h.status.toNat ++ ' ' :: h.reason) := by
    have word : "HTTP/1.1 ".toList = "HTTP/1.1".toList ++ [' '] := by decide
    apply (congrArg (fun t => t ++ decimal h.status.toNat ++ ' ' :: h.reason) word).trans
    simp only [List.append_assoc,List.cons_append,List.nil_append]
  have version : splitOnce [' '] h.statusLine = some ("HTTP/1.1".toList,decimal h.status.toNat ++ ' ' :: h.reason) :=
    (congrArg _ shape).trans (splitOnce_char (by decide) _)
  have solid : ' ' ∉ decimal h.status.toNat := by
    intro inside
    have blank := decimal_solid inside
    cases blank
  have status := splitOnce_char solid h.reason
  have number : fromStrRadix 10 u16 (decimal h.status.toNat) = some h.status.toNat := fromStrRadix_decimal h.status.isLt
  have protocol : startsWith "HTTP/".toList "HTTP/1.1".toList = true := by decide
  unfold parseStatusLine
  rw [version]
  dsimp only [Option.getD_some]
  rw [status]
  dsimp only [Option.getD_some]
  rw [number]
  exact if_pos protocol

theorem Field.line_row (f : Field) : (splitOnce [':'] f.line).map (fun found => (trim found.1,trim found.2)) = some f.row := by
  have cut : splitOnce [':'] f.line = some (f.name,' ' :: f.value) := by
    have shape : f.line = f.name ++ ':' :: (' ' :: f.value) := by simp [Field.line]
    rw [shape]
    exact splitOnce_char f.named.2 _
  have value : trim (' ' :: f.value) = f.value := by
    have blank : trim ([' '] ++ f.value) = trim f.value := trim_behind (List.all_eq_true.mp (by decide)) f.value
    rw [List.singleton_append] at blank
    rw [blank,f.valued.trim_eq]
  rw [cut,Option.map_some,f.named.1.trim_eq,value]
  rfl

theorem Field.line_solid (f : Field) : f.line ≠ [] := by
  simp [Field.line]

theorem Field.line_plain (f : Field) : '\r' ∉ f.line := by
  have plain := f.plain
  simp only [Field.line,List.mem_append] at plain ⊢
  have punctuation : '\r' ∉ ": ".toList := by decide
  tauto

theorem parseHeaders_written (fields : List Field) : parseHeaders (fields.map Field.line) = fields.map Field.row := by
  induction fields with
  | nil => rfl
  | cons f fields ih =>
    rw [List.map_cons,List.map_cons,parseHeaders,List.filterMap_cons,if_neg f.line_solid,f.line_row]
    exact congrArg _ ih

theorem Head.lines_plain (h : Head) : ∀ line ∈ h.statusLine :: h.fields.map Field.line, '\r' ∉ line := by
  intro line member
  rcases List.mem_cons.mp member with rfl | row
  · have plain := h.plain
    have version : '\r' ∉ "HTTP/1.1 ".toList := by decide
    have status : '\r' ∉ decimal h.status.toNat := by
      intro inside
      have solid := decimal_solid inside
      have blank : isWhitespace '\r' = true := by decide
      rw [blank] at solid
      cases solid
    unfold Head.statusLine
    simp only [List.mem_append,List.mem_cons,not_or]
    exact ⟨⟨version,status⟩,by decide,plain⟩
  · obtain ⟨f,_,rfl⟩ := List.mem_map.mp row
    exact f.line_plain

theorem Head.text_broken (h : Head) : h.text = broken h.statusLine (h.fields.map Field.line) ++ (crlf ++ crlf) := by
  have ended := broken_ended h.statusLine (h.fields.map Field.line)
  rw [List.flatMap_map] at ended
  rw [Head.text,ended,List.append_assoc]

theorem broken_bytes (first : Text) (rest : List Text) (body : Bytes) :
    encode (broken first rest ++ (crlf ++ crlf)) ++ body = encode (broken first rest) ++ 13::10::13::10::body := by
  rw [encode_append,List.append_assoc]
  rfl

theorem Head.text_bytes (h : Head) (body : Bytes) :
    encode h.text ++ body = encode (broken h.statusLine (h.fields.map Field.line)) ++ 13::10::13::10::body := by
  rw [h.text_broken,broken_bytes]

theorem findHeaderEnd_written (h : Head) (body : Bytes) : findHeaderEnd (encode h.text ++ body) =
    some (encode (broken h.statusLine (h.fields.map Field.line))).length := by
  have solid : ∀ line ∈ h.fields.map Field.line, line ≠ [] := by
    intro line member
    obtain ⟨f,_,rfl⟩ := List.mem_map.mp member
    exact f.line_solid
  rw [h.text_bytes]
  exact findHeaderEnd_broken h.lines_plain solid body

-- The blank line is the last of the head.
theorem Head.text_length (h : Head) : (encode h.text).length = (encode (broken h.statusLine (h.fields.map Field.line))).length + 4 := by
  have bytes := h.text_bytes []
  rw [List.append_nil] at bytes
  rw [bytes,List.length_append]
  rfl

-- What the client makes of a reply: its head as it was written, and of the body
-- what its framing says.
theorem respond_written (h : Head) (plain : checkEncoding h.headers = .ok ()) (body : Bytes) : respond quoted ending (encode h.text ++ body) =
    ((verdict quoted (framing h.headers) body).getD (stopped (framing h.headers) body ending)).map
      (HttpResponse.mk h.status.toNat h.reason h.headers) := by
  have behind : (encode h.text ++ body).drop ((encode (broken h.statusLine (h.fields.map Field.line))).length+4) = body := by
    rw [← h.text_length,List.drop_left]
  have front : (encode h.text ++ body).take (encode (broken h.statusLine (h.fields.map Field.line))).length =
      encode (broken h.statusLine (h.fields.map Field.line)) := by
    rw [h.text_bytes,List.take_left]
  have fields : parseHeaders (h.fields.map Field.line) = h.headers := parseHeaders_written h.fields
  unfold respond
  rw [findHeaderEnd_written]
  dsimp only
  rw [front,behind,lossy_encode,headLines_broken h.lines_plain,List.headD_cons,parseStatusLine_written,List.tail_cons,fields]
  dsimp only
  rw [plain]

-- What a request asks the transport for, but for its deadlines.
structure HttpRequest where
  url : Text
  method : Text
  headers : List (Text × Text)
  body : Bytes

def HttpRequest.postJson (url : Text) (body : Bytes) : HttpRequest :=
  ⟨url,"POST".toList,[("Content-Type".toList,"application/json".toList),("Accept".toList,"text/event-stream".toList)],body⟩

def requestHead (request : HttpRequest) (parsed : ParsedUrl) : Text :=
  request.method ++ ' ' :: parsed.target ++ " HTTP/1.1\r\nHost: ".toList ++ hostHeader parsed ++
    "\r\nConnection: close\r\nContent-Length: ".toList ++ decimal request.body.length ++ crlf ++
    (request.headers.flatMap fun row => row.1 ++ ": ".toList ++ row.2 ++ crlf) ++ crlf

def buildRequestBytes (request : HttpRequest) (parsed : ParsedUrl) : Bytes := encode (requestHead request parsed) ++ request.body

-- A text that breaks no line.
def Unbroken (t : Text) : Prop := '\r' ∉ t ∧ '\n' ∉ t

instance (t : Text) : Decidable (Unbroken t) := inferInstanceAs (Decidable ('\r' ∉ t ∧ '\n' ∉ t))

theorem Unbroken.append (a : Unbroken t) (b : Unbroken u) : Unbroken (t ++ u) :=
  ⟨fun inside => (List.mem_append.mp inside).elim a.1 b.1,fun inside => (List.mem_append.mp inside).elim a.2 b.2⟩

-- A request whose head is that of its parts.
structure HttpRequest.Proper (request : HttpRequest) (parsed : ParsedUrl) : Prop where
  method : Unbroken request.method ∧ ':' ∉ request.method
  target : Unbroken parsed.target
  host : Unbroken parsed.host
  headers : ∀ row ∈ request.headers, Unbroken (row.1 ++ row.2)

def requestLine (request : HttpRequest) (parsed : ParsedUrl) : Text := request.method ++ ' ' :: (parsed.target ++ " HTTP/1.1".toList)

def requestRows (request : HttpRequest) (parsed : ParsedUrl) : List Text :=
  ("Host: ".toList ++ hostHeader parsed) :: "Connection: close".toList :: ("Content-Length: ".toList ++ decimal request.body.length) ::
    request.headers.map fun row => row.1 ++ ": ".toList ++ row.2

theorem requestHead_rows (request : HttpRequest) (parsed : ParsedUrl) :
    requestHead request parsed = ((requestLine request parsed :: requestRows request parsed).flatMap fun row => row ++ crlf) ++ crlf := by
  simp only [requestHead,requestLine,requestRows,List.flatMap_cons,List.flatMap_map,List.append_assoc]
  simp [crlf]

theorem requestHead_broken (request : HttpRequest) (parsed : ParsedUrl) :
    requestHead request parsed = broken (requestLine request parsed) (requestRows request parsed) ++ (crlf ++ crlf) := by
  have ended := broken_ended (requestLine request parsed) (requestRows request parsed)
  rw [requestHead_rows,List.flatMap_cons,ended,List.append_assoc]

theorem decimal_unbroken (n : Nat) : Unbroken (decimal n) :=
  ⟨toDigits_plain (by decide) (by decide) (by decide),toDigits_plain (by decide) (by decide) (by decide)⟩

theorem HttpRequest.Proper.rows {request : HttpRequest} (proper : request.Proper parsed) :
    ∀ row ∈ requestLine request parsed :: requestRows request parsed, Unbroken row := by
  intro row member
  simp only [requestRows,List.mem_cons,List.mem_map] at member
  rcases member with rfl | rfl | rfl | rfl | ⟨field,listed,rfl⟩
  · have version : Unbroken (' ' :: (parsed.target ++ " HTTP/1.1".toList)) := by
      have blank : Unbroken [' '] := by decide
      exact blank.append (proper.target.append (by decide))
    exact proper.method.1.append version
  · have host : Unbroken (hostHeader parsed) := by
      unfold hostHeader
      split
      · exact proper.host
      · have colon : Unbroken [':'] := by decide
        exact proper.host.append (colon.append (decimal_unbroken _))
    have name : Unbroken "Host: ".toList := by decide
    exact name.append host
  · decide
  · have name : Unbroken "Content-Length: ".toList := by decide
    exact name.append (decimal_unbroken _)
  · have plain := proper.headers field listed
    simp only [Unbroken,List.mem_append,not_or] at plain ⊢
    have colon : Unbroken ": ".toList := by decide
    exact ⟨⟨⟨plain.1.1,colon.1⟩,plain.1.2⟩,⟨plain.2.1,colon.2⟩,plain.2.2⟩

-- The head of a request ends in front of its body and nowhere before.
theorem findHeaderEnd_request {request : HttpRequest} (proper : request.Proper parsed) :
    findHeaderEnd (buildRequestBytes request parsed) = some ((encode (requestHead request parsed)).length-4) := by
  have solid : ∀ row ∈ requestRows request parsed, row ≠ [] := by
    intro row member
    simp only [requestRows,List.mem_cons,List.mem_map] at member
    rcases member with rfl | rfl | rfl | ⟨field,listed,rfl⟩ <;> simp
  have found := findHeaderEnd_broken (fun row member => (proper.rows row member).1) solid request.body
  have bytes := broken_bytes (requestLine request parsed) (requestRows request parsed)
  have length := congrArg List.length (bytes [])
  rw [List.append_nil,List.length_append] at length
  rw [buildRequestBytes,requestHead_broken,bytes,found,length]
  rfl

theorem splitAuthority_within (authority : Text) : ∀ c ∈ (splitAuthority authority).1, c ∈ authority := by
  intro c inside
  unfold splitAuthority at inside
  split at inside
  · next front rest bracketed =>
    obtain ⟨inner,_,cut⟩ := Option.bind_eq_some_iff.mp bracketed
    rw [splitOnce_eq cut]
    simp only [List.mem_append]
    exact .inl (.inl (List.mem_of_mem_drop inside))
  · split at inside
    · next host port cut =>
      split at inside
      · rw [Diagnostics.rsplitOnce_eq cut]
        exact List.mem_append_left _ inside
      · exact inside
    · exact inside

-- A host and a target are made of what is in the URL.
theorem parse_within (parsed : parseUrl quoted url = .ok p) : ∀ c, c ∈ p.host ∨ c ∈ p.target → c ∈ url ∨ c = '/' := by
  unfold parseUrl at parsed
  split at parsed
  · cases parsed
  · next scheme rest cut =>
    dsimp only at parsed
    split at parsed
    · cases parsed
    · split at parsed
      · cases parsed
      · cases parsed
        have behind : ∀ c ∈ rest, c ∈ url := by
          intro c inside
          rw [splitOnce_eq cut]
          exact List.mem_append_right _ inside
        intro c inside
        by_cases slash : '/' ∈ rest
        · obtain ⟨authority,path,rfl,absent⟩ := List.eq_append_cons_of_mem slash
          rw [splitTarget_rendered absent] at inside
          apply Or.inl
          apply behind
          rcases inside with host | target
          · exact List.mem_append_left _ (splitAuthority_within authority c host)
          · exact List.mem_append_right _ target
        · have whole : splitTarget rest = (rest,['/']) := by
            unfold splitTarget
            rw [splitOnce_none slash (List.mem_singleton.mpr rfl)]
          rw [whole] at inside
          rcases inside with host | target
          · exact .inl (behind c (splitAuthority_within rest c host))
          · exact .inr (List.mem_singleton.mp target)

-- The request that the provider makes: its URL breaks no line.
theorem postJson_proper (parsed : parseUrl quoted url = .ok p) (plain : Unbroken url) (body : Bytes) : (HttpRequest.postJson url body).Proper p := by
  have within := parse_within parsed
  have part : ∀ t : Text, (∀ c ∈ t, c ∈ p.host ∨ c ∈ p.target) → Unbroken t := by
    intro t inside
    have free : ∀ c ∈ t, c ∈ url ∨ c = '/' := fun c member => within c (inside c member)
    refine ⟨fun member => ?_,fun member => ?_⟩
    · exact (free _ member).elim plain.1 (by decide)
    · exact (free _ member).elim plain.2 (by decide)
  have method : Unbroken "POST".toList ∧ ':' ∉ "POST".toList := by decide
  refine ⟨method,part p.target fun _ => .inr,part p.host fun _ => .inl,?_⟩
  intro row member
  simp only [HttpRequest.postJson,List.mem_cons,List.not_mem_nil,or_false] at member
  rcases member with rfl | rfl <;> decide

end PrincessIDE.Http
