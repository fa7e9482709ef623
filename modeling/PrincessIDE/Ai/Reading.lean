import PrincessIDE.Ai.Chunks

namespace PrincessIDE.Http
open Utf8 Str Error

-- How a stream goes on behind the bytes it brings: it closes, or it breaks.
def endOf : List Arrival → Option PrincessError
  | .data (_::_) :: rest => endOf rest
  | .failed e :: _ => some e
  | _ => none

-- What the loop of a framing makes of a body that got no further.
def stopped (f : Framing) (body : Bytes) : Option PrincessError → Except Failure Bytes
  | none => atClose f body
  | some e => .error (.error e)

def headersLong : PrincessError := forMalformed "response headers".toList "header block exceeds 256 KiB".toList

-- A response taken from all the bytes of a stream at once.
def respond (quoted : Text → Text) (ending : Option PrincessError) (bytes : Bytes) : Except Failure HttpResponse :=
  match findHeaderEnd bytes with
  | none => .error (.error (if maxHeaderBytes < bytes.length then headersLong else ending.getD headersCut))
  | some headerEnd =>
    let ls := headLines (lossy (bytes.take headerEnd))
    match parseStatusLine (ls.headD []) with
    | .error e => .error (.error e)
    | .ok (status,reason) =>
      let headers := parseHeaders ls.tail
      match checkEncoding headers with
      | .error e => .error (.error e)
      | .ok _ =>
        let body := bytes.drop (headerEnd+4)
        ((verdict quoted (framing headers) body).getD (stopped (framing headers) body ending)).map (HttpResponse.mk status reason headers)

-- By induction on the rest of the body: what a cut of it decides, the whole
-- decides in the same way.
theorem walkChunks_take (decoded : Bytes) (pos : Nat) (rest : Bytes) (k : Nat) :
    (∃ out, walkChunks decoded pos (rest.take k) = (out,.noLine) ∨ walkChunks decoded pos (rest.take k) = (out,.short)) ∨
      walkChunks decoded pos (rest.take k) = walkChunks decoded pos rest := by
  induction measure : rest.length using Nat.strongRecOn generalizing decoded pos rest k with
  | _ n ih =>
    cases found : findCrlf (rest.take k) with
    | none => exact .inl ⟨decoded,.inl (by rw [walkChunks,found])⟩
    | some i =>
      have bound := Chunks.findCrlf_bound found
      rw [List.length_take] at bound
      have whole : findCrlf rest = some i := by
        have further := Chunks.findCrlf_append found (rest.drop k)
        rwa [List.take_append_drop] at further
      have line : (rest.take k).take i = rest.take i := by rw [List.take_take,Nat.min_eq_left (by omega)]
      have behind : (rest.take k).drop (i+2) = (rest.drop (i+2)).take (k-(i+2)) := List.drop_take
      rw [walkChunks,found,walkChunks,whole]
      dsimp only
      rw [line,behind]
      cases chunkSize (lossy (rest.take i)) with
      | none => exact .inr rfl
      | some size =>
        dsimp only
        by_cases last : size = 0
        · rw [if_pos last,if_pos last]
          exact .inr rfl
        · rw [if_neg last,if_neg last]
          by_cases large : u64 ≤ pos+i+2+size+2
          · rw [if_pos large,if_pos large]
            exact .inr rfl
          · rw [if_neg large,if_neg large]
            by_cases short : ((rest.drop (i+2)).take (k-(i+2))).length < size+2
            · rw [if_pos short]
              exact .inl ⟨decoded,.inr rfl⟩
            · rw [List.length_take,List.length_drop] at short
              have enough : ¬ (rest.drop (i+2)).length < size+2 := by
                rw [List.length_drop]
                omega
              have data : ((rest.drop (i+2)).take (k-(i+2))).take size = (rest.drop (i+2)).take size := by
                rw [List.take_take,Nat.min_eq_left (by omega)]
              have after : (rest.take k).drop (i+2+size+2) = (rest.drop (i+2+size+2)).take (k-(i+2+size+2)) := List.drop_take
              have kept : ¬ ((rest.drop (i+2)).take (k-(i+2))).length < size+2 := by
                rw [List.length_take,List.length_drop]
                omega
              rw [if_neg kept,if_neg enough,data,after]
              apply ih (rest.drop (i+2+size+2)).length
              · rw [List.length_drop]
                omega
              · rfl

theorem verdict_take (quoted : Text → Text) (f : Framing) (body : Bytes) (k : Nat) :
    verdict quoted f (body.take k) = none ∨ verdict quoted f (body.take k) = verdict quoted f body := by
  cases f with
  | untilClose => exact .inl rfl
  | declared length =>
    unfold verdict
    dsimp only
    by_cases short : (body.take k).length < length
    · rw [if_pos short]
      exact .inl rfl
    · rw [if_neg short]
      rw [List.length_take] at short
      rw [if_neg (by omega),List.take_take,Nat.min_eq_left (by omega)]
      exact .inr rfl
  | chunked =>
    unfold verdict decodeChunked
    dsimp only
    rcases walkChunks_take [] 0 body k with ⟨out,cut | cut⟩ | same
    · rw [cut]
      exact .inl rfl
    · rw [cut]
      exact .inl rfl
    · rw [same]
      exact .inr rfl

theorem grow_fits (context : Text) (fits : buf.length + bytes.length ≤ maxResponseBytes) : grow context buf bytes = .ok (buf ++ bytes) :=
  if_neg (Nat.not_lt.mpr fits)

-- The loop of the body, by induction on the reads: its answer is that of the
-- whole body.
theorem readBody_whole (bytes : whole = body ++ (delivered socket).flatten) (fits : whole.length ≤ maxResponseBytes) :
    (readBody quoted accepting f slices body socket).1 = (verdict quoted f whole).getD (stopped f whole (endOf socket)) := by
  induction socket generalizing slices body with
  | nil =>
    obtain rfl : whole = body := by simpa [delivered] using bytes
    unfold readBody
    cases verdict quoted f whole <;> rfl
  | cons a socket ih =>
    have steady := verdict_take quoted f whole body.length
    rw [bytes,List.take_left,← bytes] at steady
    unfold readBody
    cases told : verdict quoted f body with
    | some done =>
      rcases steady with none | same
      · rw [told] at none
        cases none
      · rw [← same,told]
        rfl
    | none =>
      have ended : delivered (a::socket) = [] → whole = body := by
        intro nothing
        rw [bytes,nothing,List.flatten_nil,List.append_nil]
      cases a with
      | closed => rw [ended rfl,told]; rfl
      | failed e => rw [ended rfl,told]; rfl
      | data read => cases read with
        | nil => rw [ended rfl,told]; rfl
        | cons b read =>
          have further : whole = (body ++ b::read) ++ (delivered socket).flatten := by
            rw [bytes,delivered,List.flatten_cons,List.append_assoc]
          have room : body.length + (b::read).length ≤ maxResponseBytes := by
            rw [further,List.length_append,List.length_append] at fits
            omega
          simp only [grow_fits readingBody room,accepting]
          exact ih further

-- The loop of the header, by induction on the reads.
theorem readHead_found (bytes : whole = buf ++ (delivered socket).flatten) (fits : whole.length ≤ maxResponseBytes)
    (found : findHeaderEnd whole = some headerEnd) (early : headerEnd+3 ≤ maxHeaderBytes) :
    ∃ out rest, readHead buf socket = (.ok (headerEnd,out),rest) ∧ whole = out ++ (delivered rest).flatten ∧
      headerEnd+4 ≤ out.length ∧ endOf rest = endOf socket := by
  induction socket generalizing buf with
  | nil =>
    obtain rfl : whole = buf := by simpa [delivered] using bytes
    refine ⟨whole,[],by rw [readHead,found],by simp [delivered],findHeaderEnd_bound found,rfl⟩
  | cons a socket ih =>
    unfold readHead
    cases here : findHeaderEnd buf with
    | some first =>
      have same := findHeaderEnd_append here (delivered (a::socket)).flatten
      rw [← bytes,found] at same
      cases same
      exact ⟨buf,a::socket,rfl,bytes,findHeaderEnd_bound here,rfl⟩
    | none =>
      have short : buf.length < headerEnd+4 := by
        apply Nat.lt_of_not_le
        intro enough
        have front := findHeaderEnd_take found enough
        rw [bytes,List.take_left,here] at front
        cases front
      have unended : delivered (a::socket) ≠ [] := by
        intro nothing
        rw [nothing,List.flatten_nil,List.append_nil] at bytes
        rw [bytes,here] at found
        cases found
      dsimp only
      rw [if_neg (by omega)]
      cases a with
      | closed | failed e => exact absurd rfl unended
      | data read => cases read with
        | nil => exact absurd rfl unended
        | cons b read =>
          have further : whole = (buf ++ b::read) ++ (delivered socket).flatten := by
            rw [bytes,delivered,List.flatten_cons,List.append_assoc]
          have room : buf.length + (b::read).length ≤ maxResponseBytes := by
            rw [further,List.length_append,List.length_append] at fits
            omega
          simp only [grow_fits readingHeaders room]
          exact ih further

theorem readHead_missing (bytes : whole = buf ++ (delivered socket).flatten) (fits : whole.length ≤ maxResponseBytes)
    (missing : findHeaderEnd whole = none) :
    (readHead buf socket).1 = .error (if maxHeaderBytes < whole.length then headersLong else (endOf socket).getD headersCut) := by
  have nowhere : ∀ front back, whole = front ++ back → findHeaderEnd front = none := by
    intro front back cut
    cases here : findHeaderEnd front with
    | none => rfl
    | some pos =>
      have further := findHeaderEnd_append here back
      rw [← cut,missing] at further
      cases further
  induction socket generalizing buf with
  | nil =>
    obtain rfl : whole = buf := by simpa [delivered] using bytes
    rw [readHead,missing]
    dsimp only
    split <;> rfl
  | cons a socket ih =>
    unfold readHead
    rw [nowhere buf _ bytes]
    dsimp only
    by_cases long : buf.length > maxHeaderBytes
    · have all : maxHeaderBytes < whole.length := by
        rw [bytes,List.length_append]
        omega
      rw [if_pos long,if_pos all]
      rfl
    · rw [if_neg long]
      have ended : delivered (a::socket) = [] → ¬ maxHeaderBytes < whole.length := by
        intro nothing
        rwa [bytes,nothing,List.flatten_nil,List.append_nil]
      cases a with
      | closed => rw [if_neg (ended rfl)]; rfl
      | failed e => rw [if_neg (ended rfl)]; rfl
      | data read => cases read with
        | nil => rw [if_neg (ended rfl)]; rfl
        | cons b read =>
          have further : whole = (buf ++ b::read) ++ (delivered socket).flatten := by
            rw [bytes,delivered,List.flatten_cons,List.append_assoc]
          have room : buf.length + (b::read).length ≤ maxResponseBytes := by
            rw [further,List.length_append,List.length_append] at fits
            omega
          simp only [grow_fits readingHeaders room]
          exact ih further

-- A call that buffers its response depends on the bytes of the stream and on how
-- it ends, and on no boundary between two reads.
theorem readResponse_respond (fits : (delivered socket).flatten.length ≤ maxResponseBytes)
    (early : ∀ pos, findHeaderEnd (delivered socket).flatten = some pos → pos+3 ≤ maxHeaderBytes) :
    (readResponseWith quoted accepting socket).1 = respond quoted (endOf socket) (delivered socket).flatten := by
  have start : (delivered socket).flatten = [] ++ (delivered socket).flatten := rfl
  unfold readResponseWith respond
  cases found : findHeaderEnd (delivered socket).flatten with
  | none =>
    have failed := readHead_missing start fits found
    cases read : readHead [] socket with
    | mk outcome rest =>
      rw [read] at failed
      cases failed
      rfl
  | some headerEnd =>
    obtain ⟨out,rest,read,whole,enough,ending⟩ := readHead_found start fits found (early headerEnd found)
    have head : (delivered socket).flatten.take headerEnd = out.take headerEnd := by
      rw [whole,List.take_append_of_le_length (by omega)]
    have body : (delivered socket).flatten.drop (headerEnd+4) = out.drop (headerEnd+4) ++ (delivered rest).flatten := by
      rw [whole,List.drop_append_of_le_length enough]
    have small : ((delivered socket).flatten.drop (headerEnd+4)).length ≤ maxResponseBytes :=
      Nat.le_trans (List.length_drop ▸ Nat.sub_le ..) fits
    rw [read]
    dsimp only
    rw [head]
    cases parseStatusLine ((headLines (lossy (out.take headerEnd))).headD []) with
    | error e => rfl
    | ok line =>
      obtain ⟨status,reason⟩ := line
      dsimp only
      cases checkEncoding (parseHeaders (headLines (lossy (out.take headerEnd))).tail) with
      | error e => rfl
      | ok encoding =>
        have callback : (if out.drop (headerEnd+4) = [] then none else accepting [] (out.drop (headerEnd+4))) = none := ite_self _
        dsimp only
        rw [callback,← ending,← readBody_whole body small]
        dsimp only
        split <;> rename_i ran <;> rw [ran] <;> rfl

-- Two streams of the same bytes give the same response, however they are cut into
-- reads.
theorem readResponse_cut (bytes : (delivered one).flatten = (delivered other).flatten) (ends : endOf one = endOf other)
    (fits : (delivered one).flatten.length ≤ maxResponseBytes)
    (early : ∀ pos, findHeaderEnd (delivered one).flatten = some pos → pos+3 ≤ maxHeaderBytes) :
    (readResponseWith quoted accepting one).1 = (readResponseWith quoted accepting other).1 := by
  have first : (readResponseWith quoted accepting one).1 = respond quoted (endOf one) (delivered one).flatten := readResponse_respond fits early
  rw [bytes] at fits early first
  rw [first,ends]
  exact (readResponse_respond fits early).symm

theorem readResponse_cut_chunked : (readResponseWith id accepting [.data chunkedResponse,.data oneChunk]).1 =
    (readResponseWith id accepting ((chunkedResponse ++ oneChunk).map fun b => .data [b])).1 := by
  have one : (delivered [.data chunkedResponse,.data oneChunk]).flatten = chunkedResponse ++ oneChunk := by decide
  have head : findHeaderEnd (chunkedResponse ++ oneChunk) = some 43 := by decide
  apply readResponse_cut
  · decide
  · decide
  · rw [one]
    decide
  · intro pos found
    rw [one,head] at found
    cases found
    decide

end PrincessIDE.Http
