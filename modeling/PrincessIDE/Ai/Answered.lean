import PrincessIDE.Ai.Streamed
import PrincessIDE.Ai.Mock
import PrincessIDE.Ai.LineEnds
import PrincessIDE.Ai.Completion
import PrincessIDE.Core.JsonText

namespace PrincessIDE.JsonText
open Utf8 (Text)
open Http (Unbroken)

-- What is printed between quotes breaks no line.
theorem quote_unbroken (s : Text) : Unbroken (quote s) := by
  have high : ∀ c ∈ quote s, 0x20 ≤ c.toNat := by
    intro c inside
    rw [quote,List.mem_cons,List.mem_append,List.mem_singleton] at inside
    rcases inside with rfl | within | rfl
    · decide
    · obtain ⟨source,_,here⟩ := List.mem_flatMap.mp within
      exact letter_high source c here
    · decide
  exact ⟨fun inside => absurd (high _ inside) (by decide),fun inside => absurd (high _ inside) (by decide)⟩

end PrincessIDE.JsonText

namespace PrincessIDE.Sse
open Utf8 Str Drain
open Http (Unbroken)

def dataFrame (payload : Text) : Text := "data: ".toList ++ payload ++ "\n\n".toList

theorem dataFrame_text (payload : Text) : dataFrame payload = "data: ".toList ++ (payload ++ "\n\n".toList) := List.append_assoc ..

def heardAs (payload : Text) : SseEvent := if trim payload = doneSentinel then .done else .data payload

theorem decodeFrame_data (plain : Unbroken payload) : decodeFrame (encode ("data: ".toList ++ payload)) = some (heardAs payload) := by
  have feed : '\n' ∉ "data: ".toList ++ payload := by
    intro inside
    exact (List.mem_append.mp inside).elim (by decide) plain.2
  have last : ("data: ".toList ++ payload).getLast? ≠ some '\r' := by
    intro ends
    exact (List.mem_append.mp (List.mem_of_getLast? ends)).elim (by decide) plain.1
  have data : dataOf ("data: ".toList ++ payload) = some payload := by
    have field : stripPrefix "data:".toList ("data: ".toList ++ payload) = some (' ' :: payload) := stripPrefix_append "data:".toList (' ' :: payload)
    rw [dataOf_eq last,field,Option.map_some,fieldValue]
    exact congrArg some (congrArg (Option.getD · (' ' :: payload)) (stripPrefix_append [' '] payload))
  rw [decode_lines,split_absent feed List.mem_cons_self,data_one,data,Option.toList_some,eventOf,if_neg (List.cons_ne_nil _ _),intercalate_one]
  unfold heardAs
  dsimp only
  split <;> rfl

-- A frame of one line at the front of a stream.
theorem nextFrame_data (plain : Unbroken payload) (rest : Bytes) :
    nextFrame (encode (dataFrame payload) ++ rest) = some (encode ("data: ".toList ++ payload),rest) := by
  have front : ∀ b ∈ encode ("data: ".toList ++ payload), b ≠ lineFeed ∧ b ≠ carriageReturn := by
    intro b inside
    constructor
    · rintro rfl
      exact (List.mem_append.mp (ascii_encode (by decide) inside)).elim (by decide) plain.2
    · rintro rfl
      exact (List.mem_append.mp (ascii_encode (by decide) inside)).elim (by decide) plain.1
  have blank := nextFrame_blank .lf rest
  have shape : encode (dataFrame payload) ++ rest = encode ("data: ".toList ++ payload) ++ (encode Ending.lf.text ++ (encode Ending.lf.text ++ rest)) := by
    have written : encode (dataFrame payload) = encode ("data: ".toList ++ payload) ++ encode "\n\n".toList := encode_append _ _
    rw [written,List.append_assoc]
    rfl
  rw [shape,nextFrame_plain front,blank,Option.map_some,List.append_nil]

-- The frames of payloads of one line each, with nothing left over.
theorem drain_frames {payloads : List Text} (plain : ∀ p ∈ payloads, Unbroken p) :
    eventsIn (encode (payloads.flatMap dataFrame)) = payloads.map heardAs ∧ (drain nextFrame (encode (payloads.flatMap dataFrame))).2 = [] := by
  induction payloads with
  | nil => exact ⟨eventsIn_nil,by rw [List.flatMap_nil]; exact congrArg Prod.snd (drain_none rfl)⟩
  | cons payload payloads ih =>
    obtain ⟨events,left⟩ := ih fun p member => plain p (List.mem_cons_of_mem _ member)
    have here := plain payload List.mem_cons_self
    have split := drain_some nextFrame_steady.shorter (nextFrame_data here (encode (payloads.flatMap dataFrame)))
    rw [← encode_append,← List.flatMap_cons] at split
    unfold eventsIn at events ⊢
    rw [split,List.filterMap_cons,decodeFrame_data here]
    exact ⟨congrArg _ events,left⟩

theorem decoderAfter_frames {payloads : List Text} (plain : ∀ p ∈ payloads, Unbroken p) :
    (decoderAfter (encode (payloads.flatMap dataFrame))).buffer = [] := by
  unfold decoderAfter
  split
  · rfl
  · exact (drain_frames plain).2


-- What opens with a brace is no mark of the end.
theorem heardAs_brace (first : payload.head? = some '{') : heardAs payload = .data payload := by
  have other : trim payload ≠ doneSentinel := by
    intro same
    have inside : '{' ∈ trim payload := trim_keeps (by decide) (List.mem_of_head? first)
    rw [same] at inside
    exact absurd inside (by decide)
  exact if_neg other

end PrincessIDE.Sse

namespace PrincessIDE.Mock
open Utf8 (Text Bytes encode lossy)
open Str Error Event Effect Sse Ai JsonText
open Http (Unbroken Arrival delivered)

-- The counts of prompt, completion and both that a body reports.
abbrev Counts := BitVec 64 × BitVec 64 × BitVec 64

def roleLine : Text := "data: \x7b\"choices\":[\x7b\"delta\":\x7b\"role\":\"assistant\"\x7d\x7d]\x7d\n\n".toList
def stopLine : Text := "data: \x7b\"choices\":[\x7b\"delta\":\x7b\x7d,\"finish_reason\":\"stop\"\x7d]\x7d\n\n".toList
def doneLine : Text := "data: [DONE]\n\n".toList

-- An object of `json!` has its keys in order.
def chunkFrame (piece : Text) : Json := .obj [
  ("choices".toList,.arr [.obj [("delta".toList,.obj [("content".toList,.str piece)]),("index".toList,.int 0)]]),
  ("id".toList,.str "chatcmpl-mock".toList),
  ("model".toList,.str "mock-model".toList),
  ("object".toList,.str "chat.completion.chunk".toList)]

def usageFrame (counts : Counts) : Json := .obj [
  ("choices".toList,.arr []),
  ("id".toList,.str "chatcmpl-mock".toList),
  ("model".toList,.str "mock-model".toList),
  ("object".toList,.str "chat.completion.chunk".toList),
  ("usage".toList,.obj [
    ("completion_tokens".toList,.int counts.2.1.toNat),
    ("prompt_tokens".toList,.int counts.1.toNat),
    ("total_tokens".toList,.int counts.2.2.toNat)])]

def pieceText (piece : Text) : Text := compact 4 (chunkFrame piece)
def usageText (counts : Counts) : Text := compact 4 (usageFrame counts)

def sseBody (pieces : List Text) (usage : Option Counts) (includeDone : Bool) : Bytes := encode (
  roleLine ++
  (pieces.flatMap fun piece => "data: ".toList ++ pieceText piece ++ "\n\n".toList) ++
  (match usage with
    | some counts => "data: ".toList ++ usageText counts ++ "\n\n".toList
    | none => []) ++
  stopLine ++
  if includeDone then doneLine else [])

def roleText : Text := "\x7b\"choices\":[\x7b\"delta\":\x7b\"role\":\"assistant\"\x7d\x7d]\x7d".toList
def stopText : Text := "\x7b\"choices\":[\x7b\"delta\":\x7b\x7d,\"finish_reason\":\"stop\"\x7d]\x7d".toList

-- The payloads of the frames that are no mark of the end.
def payloads (pieces : List Text) (usage : Option Counts) : List Text :=
  roleText :: (pieces.map pieceText ++ (usage.toList.map usageText ++ [stopText]))

def marked (includeDone : Bool) : List Text := if includeDone then [doneSentinel] else []

theorem sseBody_frames (pieces : List Text) (usage : Option Counts) (includeDone : Bool) :
    sseBody pieces usage includeDone = encode ((payloads pieces usage ++ marked includeDone).flatMap dataFrame) := by
  have role : roleLine = dataFrame roleText := rfl
  have stop : stopLine = dataFrame stopText := rfl
  have last : doneLine = dataFrame doneSentinel := rfl
  unfold sseBody
  rw [role,stop,last]
  cases usage <;> cases includeDone <;> simp [payloads,marked,dataFrame_text,List.flatMap_map]

theorem pieceText_unbroken (piece : Text) : Unbroken (pieceText piece) := by
  constructor <;> simp [pieceText,chunkFrame,compact,(quote_unbroken _).1,(quote_unbroken _).2,(Http.decimal_unbroken _).1,(Http.decimal_unbroken _).2]

theorem usageText_unbroken (counts : Counts) : Unbroken (usageText counts) := by
  constructor <;> simp [usageText,usageFrame,compact,(quote_unbroken _).1,(quote_unbroken _).2,(Http.decimal_unbroken _).1,(Http.decimal_unbroken _).2]

theorem payloads_unbroken (pieces : List Text) (usage : Option Counts) : ∀ p ∈ payloads pieces usage, Unbroken p ∧ p.head? = some '{' := by
  intro p inside
  simp only [payloads,List.mem_cons,List.mem_append,List.mem_map,List.not_mem_nil,or_false] at inside
  rcases inside with rfl | ⟨piece,_,rfl⟩ | ⟨counts,_,rfl⟩ | rfl
  · exact ⟨by decide,rfl⟩
  · exact ⟨pieceText_unbroken piece,rfl⟩
  · exact ⟨usageText_unbroken counts,rfl⟩
  · exact ⟨by decide,rfl⟩

-- What a body says, frame by frame.
def spoken (pieces : List Text) (usage : Option Counts) (includeDone : Bool) : List SseEvent :=
  (payloads pieces usage).map .data ++ if includeDone then [.done] else []

-- The frames of a body, as the decoder has them.
theorem sseBody_heard (pieces : List Text) (usage : Option Counts) (includeDone : Bool) :
    throughDone (Sse.eventsIn (sseBody pieces usage includeDone)) = spoken pieces usage includeDone ∧
    (Sse.decoderAfter (sseBody pieces usage includeDone)).buffer = [] := by
  have plain : ∀ p ∈ payloads pieces usage ++ marked includeDone, Unbroken p := by
    intro p inside
    rcases List.mem_append.mp inside with here | last
    · exact (payloads_unbroken pieces usage p here).1
    · unfold marked at last
      split at last
      · rw [List.mem_singleton.mp last]
        decide
      · cases last
  have data : (payloads pieces usage).map heardAs = (payloads pieces usage).map .data := by
    apply List.map_congr_left
    intro p inside
    exact heardAs_brace (payloads_unbroken pieces usage p inside).2
  have ends : (marked includeDone).map heardAs = if includeDone then [.done] else [] := by
    cases includeDone <;> rfl
  have undone : SseEvent.done ∉ (payloads pieces usage).map SseEvent.data := by simp
  rw [sseBody_frames]
  constructor
  · rw [(drain_frames plain).1,List.map_append,data,ends,throughDone_append,if_neg undone]
    cases includeDone <;> rfl
  · exact decoderAfter_frames plain

-- What `serde_json` is to make of the frames of a body.
structure Knows (parse : ParseChunk) (pieces : List Text) (usage : Option Counts) : Prop where
  role : parse roleText = .ok ⟨[⟨some ⟨none⟩,none⟩],none⟩
  piece : ∀ piece ∈ pieces, parse (pieceText piece) = .ok ⟨[⟨some ⟨some piece⟩,none⟩],none⟩
  usage : ∀ counts ∈ usage, parse (usageText counts) = .ok ⟨[],some ⟨counts.1.toNat,counts.2.1.toNat,counts.2.2.toNat⟩⟩
  stop : parse stopText = .ok ⟨[⟨some ⟨none⟩,none⟩],none⟩

-- The usage that a body is to leave behind, where its counts can be summed.
def counted (overflowChecks : Bool) : Option Counts → Option AiUsage
  | none => some ⟨0,0,0⟩
  | some counts => StreamUsage.toAiUsage overflowChecks ⟨counts.1.toNat,counts.2.1.toNat,counts.2.2.toNat⟩

def chunkOf (k : Setting) (piece : Text) : Option EventBody := if piece = [] then none else some (.aiChunk ⟨k.requestId,piece⟩)

-- What a sink is to be shown of a body.
def shown (k : Setting) (pieces : List Text) (total : AiUsage) (includeDone : Bool) : List EventBody :=
  pieces.filterMap (chunkOf k) ++ .aiFinished ⟨k.requestId,total⟩ ::
    if (∀ piece ∈ pieces, piece = []) ∧ total.totalTokens = 0 then [logged (noContentText k {Stage.start [] with sawDone:=includeDone})] else []

variable {k : Setting} {pieces : List Text} {usage : Option Counts}

theorem finding_silent (parsed : k.parseChunk p = .ok ⟨[⟨some ⟨none⟩,none⟩],none⟩) : finding k.parseChunk (.data p) = .chunk none none := by
  rw [finding,parsed]
  rfl

theorem finding_piece (parsed : k.parseChunk p = .ok ⟨[⟨some ⟨some piece⟩,none⟩],none⟩) :
    finding k.parseChunk (.data p) = .chunk none (if piece = [] then none else some piece) := by
  rw [finding,parsed]
  simp [chunkText,choiceText]

theorem finding_usage (parsed : k.parseChunk p = .ok ⟨[],some counts⟩) : finding k.parseChunk (.data p) = .chunk (some counts) none := by
  rw [finding,parsed]
  rfl

theorem heed_silent (found : finding k.parseChunk event = .chunk none none) (s : Stage) : heed k s event = s ∧ adds k event = true := by
  constructor
  · rw [heed,found]
    simp [usageOf,found]
  · rw [adds,found]

theorem heed_piece (found : finding k.parseChunk event = .chunk none (if piece = [] then none else some piece)) (s : Stage) :
    heed k s event = {s with sawContent:=s.sawContent || piece ≠ [],events:=s.events ++ (chunkOf k piece).toList} ∧ adds k event = true := by
  constructor
  · rw [heed,found]
    by_cases empty : piece = [] <;> simp [usageOf,found,chunkOf,empty]
  · rw [adds,found]

theorem heed_pieces (knows : Knows k.parseChunk pieces usage) (s : Stage) :
    ((pieces.map pieceText).map .data).foldl (heed k) s =
      {s with sawContent:=s.sawContent || pieces.any (· ≠ []),events:=s.events ++ pieces.filterMap (chunkOf k)} := by
  have parsed := knows.piece
  clear knows
  induction pieces generalizing s with
  | nil => simp
  | cons piece pieces ih =>
    obtain ⟨here,later⟩ := List.forall_mem_cons.mp parsed
    rw [List.map_cons,List.map_cons,List.foldl_cons,(heed_piece (finding_piece here) s).1,ih _ later]
    cases chunk : chunkOf k piece <;> simp [chunk,Bool.or_assoc]

theorem spoken_adds (knows : Knows k.parseChunk pieces usage) (total : counted k.overflowChecks usage = some sum) (includeDone : Bool) :
    (spoken pieces usage includeDone).all (adds k) = true := by
  rw [List.all_eq_true]
  intro event inside
  rw [spoken,List.mem_append,List.mem_map] at inside
  rcases inside with ⟨p,listed,rfl⟩ | last
  · simp only [payloads,List.mem_cons,List.mem_append,List.mem_map,List.not_mem_nil,or_false,Option.mem_toList] at listed
    rcases listed with rfl | ⟨piece,given,rfl⟩ | ⟨counts,given,rfl⟩ | rfl
    · exact (heed_silent (finding_silent knows.role) (.start [])).2
    · exact (heed_piece (finding_piece (knows.piece piece given)) (.start [])).2
    · obtain rfl : usage = some counts := given
      rw [adds,finding_usage (knows.usage counts rfl)]
      exact Option.isSome_of_eq_some total
    · exact (heed_silent (finding_silent knows.stop) (.start [])).2
  · cases includeDone with
    | false => cases last
    | true =>
      rw [List.mem_singleton.mp last]
      rfl

-- The stage behind all frames of a body.
theorem spoken_heed (knows : Knows k.parseChunk pieces usage) (total : counted k.overflowChecks usage = some sum) (includeDone : Bool)
    (decoder : SseDecoder) (events : List EventBody) :
    (spoken pieces usage includeDone).foldl (heed k) {Stage.start events with decoder:=decoder} =
      ⟨decoder,sum,pieces.any (· ≠ []),includeDone,false,events ++ pieces.filterMap (chunkOf k)⟩ := by
  have role := fun s => (heed_silent (finding_silent knows.role) s).1
  have stop := fun s => (heed_silent (finding_silent knows.stop) s).1
  have reported : ∀ s : Stage, s.usage = ⟨0,0,0⟩ → ((usage.toList.map usageText).map .data).foldl (heed k) s = {s with usage:=sum} := by
    intro s unset
    cases usage with
    | none =>
      cases total
      rw [← unset]
      rfl
    | some counts =>
      have found := finding_usage (knows.usage counts rfl)
      have here : usageOf k s.usage (.data (usageText counts)) = sum := by
        rw [usageOf,found]
        exact congrArg (Option.getD · s.usage) total
      change heed k s (.data (usageText counts)) = {s with usage:=sum}
      rw [heed,found]
      dsimp only
      rw [here]
      simp
  have marks : ∀ s : Stage, s.sawDone = false → (if includeDone then [SseEvent.done] else []).foldl (heed k) s = {s with sawDone:=includeDone} := by
    intro s unset
    cases includeDone with
    | false =>
      cases s
      cases unset
      rfl
    | true => rfl
  rw [spoken,payloads,List.map_cons,List.map_append,List.map_append,List.foldl_append,List.foldl_cons,role,List.foldl_append,heed_pieces knows,
    List.foldl_append,reported _ rfl]
  change (if includeDone then [SseEvent.done] else []).foldl (heed k) (heed k _ (.data stopText)) = _
  rw [stop,marks _ rfl]
  rfl

theorem sseBody_told (knows : Knows k.parseChunk pieces usage) (total : counted k.overflowChecks usage = some sum) (includeDone : Bool)
    (events : List EventBody) : Sums k (sseBody pieces usage includeDone) ∧ toldBy k events (sseBody pieces usage includeDone) =
      ⟨Sse.decoderAfter (sseBody pieces usage includeDone),sum,pieces.any (· ≠ []),includeDone,false,events ++ pieces.filterMap (chunkOf k)⟩ := by
  obtain ⟨frames,empty⟩ := sseBody_heard pieces usage includeDone
  generalize sseBody pieces usage includeDone = body at frames empty ⊢
  have finished : (Sse.decoderAfter body).finish = ([],Sse.decoderAfter body) := if_pos empty
  constructor
  · rw [Sums,finished,List.append_nil,frames]
    exact spoken_adds knows total includeDone
  · rw [toldBy_flushed empty,frames]
    exact spoken_heed knows total includeDone _ events

-- The ways of delivery that send the body as it is.
def Delivery.plain : Delivery → Bool
  | .whole | .wholeThenStall _ | .delayBeforeHeaders _ | .slowSse _ _ => true
  | .chunkedSse | .truncated _ | .none => false

theorem plain_payload (plain : r.delivery.plain = true) : r.delivery ≠ .none ∧ payload r = r.body ∧
    framingRow r = ("Content-Length".toList,decimal r.body.length) := by
  unfold payload framingRow
  cases kind : r.delivery <;> simp [kind,Delivery.plain] at plain ⊢

section
variable {socket : List Arrival}

-- An answer that is sent as it is: the exchange concludes with the stage of its body.
theorem exchange_plain (accepts : Accepts k.sink) (lawful : Lawful r) (plain : r.delivery.plain = true) (sums : Sums k r.body)
    (bytes : (delivered socket).flatten = wire (serve r)) (events : List EventBody) :
    exchange k ⟨none,socket,fun _ => none,none⟩ events =
      unpanicked (conclude k ⟨r.status.toNat,r.reason,headers r,r.body⟩ (toldBy k events r.body)) (toldBy k events r.body).events := by
  obtain ⟨some,sent,row⟩ := plain_payload plain
  have bound := lawful_bytes lawful some
  have room : Http.maxResponseBytes < u64 := by decide
  rw [sent] at bound
  have declared : Http.framing lawful.written.headers = .declared r.body.length := framing_declared r (by omega) row
  have stream : (delivered socket).flatten = encode lawful.written.text ++ r.body := by
    rw [bytes,wire_serve some,sent,lawful.written_text]
  have small : (encode lawful.written.text).length ≤ Http.maxHeaderBytes := by
    rw [lawful.written_text]
    exact lawful.small
  have fits : (encode lawful.written.text ++ r.body).length ≤ Http.maxResponseBytes := by
    rw [lawful.written_text,List.length_append]
    exact bound
  have received := receive_told accepts lawful.written (headers_plain r) (.inl declared) small fits stream sums events
  unfold exchange
  dsimp only
  rw [received]
  rfl

theorem exchange_streamed (accepts : Accepts k.sink) (knows : Knows k.parseChunk pieces usage) (total : counted k.overflowChecks usage = some sum)
    (lawful : Lawful r) (plain : r.delivery.plain = true) (success : 200 ≤ r.status.toNat ∧ r.status.toNat < 300)
    (body : r.body = sseBody pieces usage includeDone) (bytes : (delivered socket).flatten = wire (serve r)) (events : List EventBody) :
    exchange k ⟨none,socket,fun _ => none,none⟩ events = .ok sum (events ++ shown k pieces sum includeDone) := by
  obtain ⟨sums,stage⟩ := sseBody_told knows total includeDone events
  rw [← body] at sums stage
  have answered : isSuccess ⟨r.status.toNat,r.reason,headers r,r.body⟩ = true := decide_eq_true success
  have concluded := conclude_success (k:=k) accepts answered ⟨Sse.decoderAfter r.body,sum,pieces.any (· ≠ []),includeDone,false,
    events ++ pieces.filterMap (chunkOf k)⟩ (events ++ pieces.filterMap (chunkOf k))
  have hollow : (pieces.any (· ≠ []) = false ∧ sum.totalTokens = 0) ↔ (∀ piece ∈ pieces, piece = []) ∧ sum.totalTokens = 0 := by simp
  rw [exchange_plain accepts lawful plain sums bytes,stage,unpanicked,concluded,shown,List.append_assoc]
  dsimp only
  rw [if_congr hollow rfl rfl]
  rfl

-- A body that carries no frame leaves nothing to show.
theorem exchange_refused (accepts : Accepts k.sink) (lawful : Lawful r) (plain : r.delivery.plain = true)
    (failure : ¬ (200 ≤ r.status.toNat ∧ r.status.toNat < 300)) (silent : decodeStream [r.body] = [])
    (bytes : (delivered socket).flatten = wire (serve r)) (events : List EventBody) :
    exchange k ⟨none,socket,fun _ => none,none⟩ events = .error (.error (forHttpStatus r.status.toNat (lossy r.body)))
      (events ++ [logged (answeredText ⟨r.status.toNat,r.reason,headers r,r.body⟩)]) := by
  have pushed := pushAll_whole [r.body]
  have state := (pushAll_after [] [r.body]).1
  rw [decoderAfter_nil,List.nil_append] at state
  rw [List.flatten_singleton] at pushed state
  have none : throughDone (Sse.eventsIn r.body) = [] ∧ (Sse.decoderAfter r.body).finish.1 = [] := by
    have whole : (SseDecoder.new.pushAll [r.body]).1 ++ (SseDecoder.new.pushAll [r.body]).2.finish.1 = [] := silent
    rw [pushed,state] at whole
    exact List.append_eq_nil_iff.mp whole
  have sums : Sums k r.body := by
    rw [Sums,none.1,none.2]
    rfl
  have stage : (toldBy k events r.body).events = events := by
    unfold toldBy
    rw [none.1]
    dsimp only [List.foldl_nil]
    rw [none.2]
    rfl
  have refused : isSuccess ⟨r.status.toNat,r.reason,headers r,r.body⟩ = false := decide_eq_false failure
  rw [exchange_plain accepts lawful plain sums bytes,unpanicked,conclude_failure accepts refused,stage]

end

def samplePieces : List Text := ["hi".toList]
def sampleCounts : Counts := (1,2,3)

-- What `serde_json` makes of the frames of the sample.
def sampleParse : ParseChunk := fun payload =>
  if payload = roleText ∨ payload = stopText then .ok ⟨[⟨some ⟨none⟩,none⟩],none⟩
  else if payload = pieceText "hi".toList then .ok ⟨[⟨some ⟨some "hi".toList⟩,none⟩],none⟩
  else if payload = usageText sampleCounts then .ok ⟨[],some ⟨1,2,3⟩⟩
  else .error "expected value at line 1 column 1".toList

def sampleSetting : Setting := ⟨sampleParse,id,true,fun _ _ => none,['r']⟩
def sampleAnswer : MockResponse := .slowSse (sseBody samplePieces (some sampleCounts) true) (.fromMillis 5) 0
def sampleRefusal : MockResponse := .json 400 "\x7b\"error\":\"unknown field stream_options\"\x7d".toList

def sampleCall (first second : List Arrival) : Calling :=
  ⟨some ⟨probeUrl,['m']⟩,true,true,false,⟨none,first,fun _ => none,none⟩,⟨none,second,fun _ => none,none⟩⟩

theorem sample_knows : Knows sampleParse samplePieces (some sampleCounts) where
  role := if_pos (.inl rfl)
  piece := by
    intro piece inside
    rw [List.mem_singleton.mp inside]
    have other : ¬ (pieceText "hi".toList = roleText ∨ pieceText "hi".toList = stopText) := by decide +kernel
    exact (if_neg other).trans (if_pos rfl)
  usage := by
    intro counts inside
    obtain rfl : sampleCounts = counts := Option.some.inj inside
    have other : ¬ (usageText sampleCounts = roleText ∨ usageText sampleCounts = stopText) := by decide +kernel
    have unlike : usageText sampleCounts ≠ pieceText "hi".toList := by decide +kernel
    exact (if_neg other).trans ((if_neg unlike).trans (if_pos rfl))
  stop := if_pos (.inr rfl)

theorem sampleAnswer_lawful : Lawful sampleAnswer := ⟨by decide,⟨trimmed_iff.mpr rfl,by decide⟩,by decide +kernel,by decide +kernel⟩

theorem sampleAnswer_body : sampleAnswer.body = sseBody samplePieces (some sampleCounts) true := rfl

theorem sampleRefusal_lawful : Lawful sampleRefusal := ⟨by decide,⟨trimmed_iff.mpr rfl,by decide⟩,by decide +kernel,by decide +kernel⟩

end PrincessIDE.Mock
