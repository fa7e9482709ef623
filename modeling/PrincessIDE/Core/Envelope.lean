import PrincessIDE.Core.Wire

namespace PrincessIDE.Event
open Utf8 Str Error Serde Wire

def eventModelVersion : Nat := 1

-- A `DateTime<Utc>`: a second since the epoch and the nanoseconds in it, which
-- are 10^9 or more in a leap second.
structure DateTime where
  seconds : Int
  nanos : Nat
deriving DecidableEq, Repr

def DateTime.truncated (t : DateTime) : DateTime := {t with nanos:=t.nanos / 1000000 * 1000000}

def DateTime.Millis (t : DateTime) : Prop := t.nanos % 1000000 = 0

-- What RFC 3339 can spell: a year of four digits (from 0000 to 9999), a leap
-- second at the end of a minute.
def DateTime.Spelled (t : DateTime) : Prop :=
  -62167219200 ≤ t.seconds ∧ t.seconds < 253402300800 ∧ (t.nanos < 1000000000 ∨ t.seconds % 60 = 59)

instance (t : DateTime) : Decidable t.Millis := inferInstanceAs (Decidable (_ = _))
instance (t : DateTime) : Decidable t.Spelled := inferInstanceAs (Decidable (_ ∧ _))

-- `to_rfc3339_opts(Millis, true)` and `parse_from_rfc3339` of the time library.
structure Chrono where
  toRfc3339Millis : DateTime → Text
  parseFromRfc3339 : Text → Option DateTime

-- The library reads back, to the millisecond, a moment that has a spelling.
def Chrono.Spells (chrono : Chrono) (t : DateTime) : Prop :=
  t.Spelled → chrono.parseFromRfc3339 (chrono.toRfc3339Millis t) = some t.truncated

-- The source's `Event`.
structure Envelope where
  v : Nat
  seq : Nat
  ts : DateTime
  opId : Option Text
  body : EventBody
deriving DecidableEq, Repr

namespace Envelope

def new (seq : Nat) (ts : DateTime) (opId : Option Text) (body : EventBody) : Envelope := ⟨eventModelVersion,seq,ts,opId,body⟩

def kind (e : Envelope) : EventKind := e.body.kind

def validate (e : Envelope) : Except PrincessError Unit :=
  if e.v ≠ eventModelVersion then .error (.internal ("event model version ".toList ++ decimal e.v ++
    " is not supported by this engine (expected ".toList ++ decimal eventModelVersion ++ ")".toList))
  else if e.seq = 0 then .error (.internal "event seq must start at 1".toList)
  else .ok ()

-- The six keys in the order of the contract.
def serialize (chrono : Chrono) (e : Envelope) : Json := .obj
  [("v".toList,u32.write e.v),("seq".toList,u64.write e.seq),("ts".toList,.str (chrono.toRfc3339Millis e.ts)),
    ("opId".toList,match e.opId with | none => .null | some opId => .str opId),
    ("kind".toList,.str e.kind.asStr),("payload".toList,e.body.payload)]

-- The envelope that its text tells, if the time library reads the moment back.
def readBack (chrono : Chrono) (e : Envelope) : Option Envelope :=
  (chrono.parseFromRfc3339 (chrono.toRfc3339Millis e.ts)).map fun t => {e with ts:=t}

def Fits (e : Envelope) : Prop := u32.Fits e.v ∧ u64.Fits e.seq ∧ e.body.Fits

end Envelope

-- The payload is kept raw until the kind is known; `ts` is kept as its text,
-- which is parsed behind the other fields.
structure EventWire where
  v : Nat
  seq : Nat
  ts : Text
  opId : Option Text
  kind : EventKind
  payload : Json

def eventKind : Codec EventKind := .named EventKind.all EventKind.asStr (by intro a; cases a <;> rfl)

def eventWire : Codec EventWire := .record
  (.cons "v" (.required u32) <| .cons "seq" (.required u64) <| .cons "ts" (.required .text) <|
    .cons "opId" (.nullable .text text_solid) <| .cons "kind" (.required eventKind) <| .cons "payload" (.required .value) .nil)
  (by decide) (fun (v,seq,ts,opId,kind,payload,_) => ⟨v,seq,ts,opId,kind,payload⟩)
  (fun w => (w.v,w.seq,w.ts,w.opId,w.kind,w.payload,())) (fun _ => rfl)

def Envelope.deserialize (chrono : Chrono) (value : Json) : Option Envelope := do
  let wire ← eventWire.read value
  let ts ← chrono.parseFromRfc3339 wire.ts
  let body ← decodePayload wire.payload wire.kind
  pure ⟨wire.v,wire.seq,ts,wire.opId,body⟩

-- The text of a JSON value, the value of a text, and the complaint about a text
-- that is no event.
structure SerdeJson where
  toString : Json → Text
  fromStr : Text → Option Json
  complaint : Text → Text

-- A value is read back from its text, which is one line and, for an object, in
-- braces.
structure SerdeJson.Keeps (serde : SerdeJson) (value : Json) : Prop where
  back : serde.fromStr (serde.toString value) = some value
  compact : '\n' ∉ serde.toString value
  braces : ∀ rows, value = .obj rows → ∃ inner, serde.toString value = '{' :: inner ++ ['}']

section
variable (chrono : Chrono) (serde : SerdeJson)

def Envelope.fromStr (line : Text) : Option Envelope := (serde.fromStr line).bind (Envelope.deserialize chrono)

def Envelope.toNdjson (e : Envelope) : Text := serde.toString (e.serialize chrono) ++ ['\n']

def parseLines : Nat → List Text → Except PrincessError (List Envelope)
  | _,[] => .ok []
  | index,line :: rest => do
    let line := trim line
    if line = [] then parseLines (index+1) rest
    else match Envelope.fromStr chrono serde line with
      | none => .error ((PrincessError.internal ("line ".toList ++ decimal (index+1) ++
          " is not a valid PrincessIDE event: ".toList ++ serde.complaint line)).withDetail line)
      | some event => do
        let events ← parseLines (index+1) rest
        pure (event :: events)

def parseNdjson (text : Text) : Except PrincessError (List Envelope) := parseLines chrono serde 0 (lines text)

variable {chrono serde}

theorem serialize_wire (e : Envelope) : e.serialize chrono =
    eventWire.write ⟨e.v,e.seq,chrono.toRfc3339Millis e.ts,e.opId,e.kind,e.body.payload⟩ := by
  obtain ⟨v,seq,ts,opId,body⟩ := e
  cases opId <;> rfl

theorem eventWire_fits (w : EventWire) (v : u32.Fits w.v) (seq : u64.Fits w.seq) : eventWire.Fits w :=
  ⟨v,seq,trivial,fun _ _ => trivial,trivial,trivial,trivial⟩

theorem deserialize_serialize (e : Envelope) (fits : e.Fits) :
    Envelope.deserialize chrono (e.serialize chrono) = e.readBack chrono := by
  have read := eventWire.faithful ⟨e.v,e.seq,chrono.toRfc3339Millis e.ts,e.opId,e.kind,e.body.payload⟩
    (eventWire_fits _ fits.1 fits.2.1)
  have body := decodePayload_payload e.body fits.2.2
  rw [serialize_wire,Envelope.deserialize,read,Envelope.readBack]
  cases parsed : chrono.parseFromRfc3339 (chrono.toRfc3339Millis e.ts) with
  | none => simp only [bind,Option.bind,parsed,Option.map_none]
  | some t =>
    simp only [bind,Option.bind,parsed,Envelope.kind,body,Option.map_some]
    rfl

theorem fromStr_toString (fits : e.Fits) (keeps : serde.Keeps (Envelope.serialize chrono e)) :
    Envelope.fromStr chrono serde (serde.toString (e.serialize chrono)) = e.readBack chrono := by
  rw [Envelope.fromStr,keeps.back,Option.bind_some]
  exact deserialize_serialize e fits

theorem serialize_braces (keeps : serde.Keeps (Envelope.serialize chrono e)) :
    ∃ inner, serde.toString (e.serialize chrono) = '{' :: inner ++ ['}'] := keeps.braces _ rfl

theorem trim_line (keeps : serde.Keeps (Envelope.serialize chrono e)) :
    trim (dropReturn (serde.toString (e.serialize chrono))) = serde.toString (e.serialize chrono) := by
  obtain ⟨inner,text⟩ := serialize_braces keeps
  have ends : dropReturn (('{' :: inner) ++ ['}']) = ('{' :: inner) ++ ['}'] := by
    rw [dropReturn,List.getLast?_concat]
    exact if_neg (by decide)
  have start : trimStart ('{' :: (inner ++ ['}'])) = '{' :: (inner ++ ['}']) := trimStart_solid (by decide) _
  rw [text,ends,trim,List.cons_append,start,← List.cons_append]
  exact trimEnd_solid (by decide) _

theorem parseLines_line (trimmed : trim raw = line) (some : line ≠ []) :
    (parseLines chrono serde index (raw::rest)).toOption =
      (Envelope.fromStr chrono serde line).bind fun e => (parseLines chrono serde (index+1) rest).toOption.map (e :: ·) := by
  subst trimmed
  rw [parseLines]
  simp only [if_neg some]
  cases Envelope.fromStr chrono serde (trim raw) with
  | none => rfl
  | some e => cases parseLines chrono serde (index+1) rest <;> rfl

-- The lines of events give the events back, if all their moments are read back.
theorem parseNdjson_written (events : List Envelope) (fits : ∀ e ∈ events, e.Fits)
    (keeps : ∀ e ∈ events, serde.Keeps (e.serialize chrono)) :
    (parseNdjson chrono serde (events.flatMap (Envelope.toNdjson chrono serde))).toOption = events.mapM (Envelope.readBack chrono) := by
  have split : lines (events.flatMap (Envelope.toNdjson chrono serde)) =
      events.map fun e => dropReturn (serde.toString (e.serialize chrono)) :=
    lines_flatten fun e member => (keeps e member).compact
  rw [parseNdjson,split]
  clear split
  generalize 0 = index
  induction events generalizing index with
  | nil => rfl
  | cons e rest ih =>
    have later := ih (fun f member => fits f (List.mem_cons_of_mem e member)) (fun f member => keeps f (List.mem_cons_of_mem e member))
    have whole := keeps e List.mem_cons_self
    obtain ⟨inner,text⟩ := serialize_braces whole
    have nonempty : serde.toString (e.serialize chrono) ≠ [] := by
      rw [text]
      exact List.cons_ne_nil _ _
    rw [List.map_cons,parseLines_line (trim_line whole) nonempty,fromStr_toString (fits e List.mem_cons_self) whole,later,
      List.mapM_cons]
    cases e.readBack chrono with
    | none => rfl
    | some k => cases rest.mapM (Envelope.readBack chrono) <;> rfl

theorem readBack_spelled {e : Envelope} (millis : e.ts.Millis) (spelled : e.ts.Spelled) (spells : chrono.Spells e.ts) :
    e.readBack chrono = some e := by
  have whole := Nat.div_add_mod e.ts.nanos 1000000
  rw [millis,Nat.add_zero,Nat.mul_comm] at whole
  rw [Envelope.readBack,spells spelled,DateTime.truncated,whole]
  rfl

theorem mapM_same {f : α → Option α} {xs : List α} (same : ∀ a ∈ xs, f a = some a) : xs.mapM f = some xs := by
  induction xs with
  | nil => rfl
  | cons a xs ih =>
    rw [List.mapM_cons,same a List.mem_cons_self,ih fun b member => same b (List.mem_cons_of_mem a member)]
    rfl

-- Every envelope comes back from its text, and a list of them from its lines.
theorem envelopes_roundtrip (events : List Envelope) (fits : ∀ e ∈ events, e.Fits)
    (stamped : ∀ e ∈ events, e.ts.Millis ∧ e.ts.Spelled) (spells : ∀ e ∈ events, chrono.Spells e.ts)
    (keeps : ∀ e ∈ events, serde.Keeps (e.serialize chrono)) :
    (∀ e ∈ events, Envelope.fromStr chrono serde (serde.toString (e.serialize chrono)) = some e) ∧
      parseNdjson chrono serde (events.flatMap (Envelope.toNdjson chrono serde)) = .ok events := by
  have same : ∀ e ∈ events, e.readBack chrono = some e := fun e member =>
    readBack_spelled (stamped e member).1 (stamped e member).2 (spells e member)
  constructor
  · intro e member
    rw [fromStr_toString (fits e member) (keeps e member)]
    exact same e member
  · have parsed := parseNdjson_written events fits keeps
    rw [mapM_same same] at parsed
    cases read : parseNdjson chrono serde (events.flatMap (Envelope.toNdjson chrono serde)) with
    | error e => rw [read] at parsed; cases parsed
    | ok out => rw [read] at parsed; exact congrArg _ (Option.some.inj parsed)

end

-- The text libraries, as they behave on one value.
def oneMoment (text : Text) (t : Option DateTime) : Chrono := ⟨fun _ => text,fun _ => t⟩

def oneValue (inner : Text) (value : Json) : SerdeJson :=
  ⟨fun _ => '{' :: inner ++ ['}'],fun text => if text = '{' :: inner ++ ['}'] then some value else none,fun _ => []⟩

theorem oneValue_keeps {inner : Text} (plain : '\n' ∉ inner) (value : Json) : (oneValue inner value).Keeps value where
  back := if_pos rfl
  compact := by simp [oneValue,plain]
  braces _ _ := ⟨inner,rfl⟩

def answerChunk : EventBody := .aiChunk ⟨['r'],['h','i']⟩

def noon : Envelope := ⟨1,7,⟨1777982400,123000000⟩,none,answerChunk⟩

def noonChrono : Chrono := oneMoment "2026-05-05T12:00:00.123Z".toList (some noon.ts)

def chunkPayload : Text := '{' :: "\"requestId\":\"r\",\"text\":\"hi\"".toList ++ ['}']

def noonInner : Text :=
  "\"v\":1,\"seq\":7,\"ts\":\"2026-05-05T12:00:00.123Z\",\"opId\":null,\"kind\":\"ai.chunk\",\"payload\":".toList ++ chunkPayload

def noonSerde : SerdeJson := oneValue noonInner (noon.serialize noonChrono)

theorem noon_fits : noon.Fits := ⟨show 1 < 2^32 by decide,show 7 < 2^64 by decide,trivial,trivial,trivial⟩

theorem envelopes_roundtrip_noon :
    (∀ e ∈ [noon],Envelope.fromStr noonChrono noonSerde (noonSerde.toString (e.serialize noonChrono)) = some e) ∧
      parseNdjson noonChrono noonSerde ([noon].flatMap (Envelope.toNdjson noonChrono noonSerde)) = .ok [noon] := by
  apply envelopes_roundtrip
  · intro e member
    cases List.mem_singleton.mp member
    exact noon_fits
  · intro e member
    cases List.mem_singleton.mp member
    exact ⟨by decide,by decide⟩
  · intro e member
    cases List.mem_singleton.mp member
    exact fun _ => rfl
  · intro e member
    cases List.mem_singleton.mp member
    exact oneValue_keeps (by decide) _

def farYear : Envelope := {noon with ts:=⟨253402300800,0⟩}

-- A year of five digits gets a sign, which RFC 3339 does not know.
def farChrono : Chrono := oneMoment "+10000-01-01T00:00:00.000Z".toList none

def farInner : Text :=
  "\"v\":1,\"seq\":7,\"ts\":\"+10000-01-01T00:00:00.000Z\",\"opId\":null,\"kind\":\"ai.chunk\",\"payload\":".toList ++ chunkPayload

theorem farYear_lost : ¬ ∀ (chrono : Chrono) (serde : SerdeJson) (e : Envelope), e.Fits → e.ts.Millis → chrono.Spells e.ts →
    serde.Keeps (e.serialize chrono) → Envelope.fromStr chrono serde (serde.toString (e.serialize chrono)) = some e := by
  intro back
  have fits : farYear.Fits := noon_fits
  have whole := oneValue_keeps (show '\n' ∉ farInner by decide) (farYear.serialize farChrono)
  have read := back farChrono (oneValue farInner (farYear.serialize farChrono)) farYear fits (by decide)
    (fun spelled => absurd spelled (by decide)) whole
  rw [fromStr_toString fits whole] at read
  cases read

end PrincessIDE.Event
