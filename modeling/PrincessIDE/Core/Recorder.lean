import PrincessIDE.Core.Envelope
import PrincessIDE.Foundation.Steps

namespace PrincessIDE.Event
open Utf8 (Text Bytes encode fromUtf8 fromUtf8_encode encode_append)
open Str Error Steps

-- What the writer did with a line: of a `torn` one it took so many bytes and failed.
inductive Answer where
  | whole
  | torn (taken : Nat)
deriving DecidableEq, Repr

structure EventRecorder where
  out : Bytes
  nextSeq : Nat
  opId : Option Text
deriving DecidableEq, Repr

-- A recorder with the envelopes that went into its log.
structure Recording where
  recorder : EventRecorder
  log : List Envelope
deriving DecidableEq, Repr

inductive Call where
  | emitAt (ts : DateTime) (body : EventBody)
  | record (event : Envelope)
  | setOpId (opId : Option Text)
deriving DecidableEq, Repr

structure Recorded where
  call : Call
  answer : Answer
deriving DecidableEq, Repr

def EventRecorder.new : EventRecorder := ⟨[],1,none⟩

-- `seq + 1`: beyond the largest it panics where the build checks for overflow,
-- and wraps to 0 where it does not.
def advance (overflowChecks : Bool) (seq : Nat) : Option Nat :=
  if seq+1 < u64 then some (seq+1) else if overflowChecks then none else some 0

section
variable (chrono : Chrono) (serde : SerdeJson) (overflowChecks : Bool)

namespace Recording

def new : Recording := ⟨.new,[]⟩

def write (r : Recording) (event : Envelope) : Answer → Recording
  | .whole => {recorder:={r.recorder with out:=r.recorder.out ++ encode (event.toNdjson chrono serde)},log:=r.log ++ [event]}
  | .torn taken => {r with recorder:={r.recorder with out:=r.recorder.out ++ (encode (event.toNdjson chrono serde)).take taken}}

def emitAt (r : Recording) (ts : DateTime) (body : EventBody) (answer : Answer) : Option Recording :=
  let event := Envelope.new r.recorder.nextSeq ts r.recorder.opId body
  match event.validate with
  | .error _ => some r
  | .ok _ => (advance overflowChecks r.recorder.nextSeq).map fun next =>
    write chrono serde {r with recorder:={r.recorder with nextSeq:=next}} event answer

def record (r : Recording) (event : Envelope) (answer : Answer) : Option Recording :=
  match event.validate with
  | .error _ => some r
  | .ok _ =>
    let next := if r.recorder.nextSeq ≤ event.seq then advance overflowChecks event.seq else some r.recorder.nextSeq
    next.map fun next => write chrono serde {r with recorder:={r.recorder with nextSeq:=next}} event answer

-- A panic ends the run.
def execute (r : Recording) (step : Recorded) : Option Recording := match step.call with
  | .emitAt ts body => r.emitAt chrono serde overflowChecks ts body step.answer
  | .record event => r.record chrono serde overflowChecks event step.answer
  | .setOpId opId => some {r with recorder:={r.recorder with opId:=opId}}

end Recording

def checkOrder (event : Envelope) : Option Nat → Except PrincessError Unit
  | none => .ok ()
  | some previous =>
    if event.seq ≤ previous then .error (.internal ("event seq is not monotonic: ".toList ++ decimal previous ++ " then ".toList ++
      decimal event.seq ++ " (kind ".toList ++ event.kind.asStr ++ ")".toList))
    else .ok ()

def validateFrom : Option Nat → List Envelope → Except PrincessError Unit
  | _,[] => .ok ()
  | last,event :: rest => do
    event.validate
    checkOrder event last
    validateFrom (some event.seq) rest

def validateStream (events : List Envelope) : Except PrincessError Unit := validateFrom none events

-- What was written parses back and passes the check of a stream.
def Replays (r : Recording) : Prop := ∃ text events, fromUtf8 r.recorder.out = .ok text ∧
  parseNdjson chrono serde text = .ok events ∧ validateStream events = .ok ()

-- The moment has a spelling that is read back.
def Readable (ts : DateTime) : Prop := (chrono.parseFromRfc3339 (chrono.toRfc3339Millis ts)).isSome

-- The line is taken whole; it has a readable moment and, where it is recorded, a
-- number above those of all lines before.
def Orderly (r : Recording) (step : Recorded) : Prop := step.answer = .whole ∧ match step.call with
  | .emitAt ts _ => 0 < r.recorder.nextSeq → Readable chrono ts
  | .record event => event.validate = .ok () → Readable chrono event.ts ∧ ∀ e ∈ r.log, e.seq < event.seq
  | .setOpId _ => True

variable {chrono serde overflowChecks}

theorem new_validate (numbered : 0 < seq) (ts : DateTime) (opId : Option Text) (body : EventBody) :
    (Envelope.new seq ts opId body).validate = .ok () := by
  have apart : (Envelope.new seq ts opId body).seq ≠ 0 := Nat.ne_of_gt numbered
  rw [Envelope.validate,if_neg (fun other => other rfl),if_neg apart]

theorem checkOrder_ok (event : Envelope) (last : Option Nat) : checkOrder event last = .ok () ↔ ∀ p ∈ last, p < event.seq := by
  cases last with
  | none => simp [checkOrder]
  | some previous =>
    by_cases behind : event.seq ≤ previous
    · simp [checkOrder,behind]
    · simp [checkOrder,behind]
      omega

theorem validateFrom_ok (last : Option Nat) (events : List Envelope) : validateFrom last events = .ok () ↔
    (∀ e ∈ events, e.validate = .ok ()) ∧ (∀ e ∈ events, ∀ p ∈ last, p < e.seq) ∧ events.Pairwise fun a b => a.seq < b.seq := by
  induction events generalizing last with
  | nil => simp [validateFrom]
  | cons e rest ih =>
    have first := checkOrder_ok e last
    have later := ih (some e.seq)
    constructor
    · intro passed
      cases valid : e.validate with
      | error failure => simp [validateFrom,valid,bind,Except.bind] at passed
      | ok _ =>
        cases order : checkOrder e last with
        | error failure => simp [validateFrom,valid,order,bind,Except.bind] at passed
        | ok _ =>
          simp only [validateFrom,valid,order,bind,Except.bind] at passed
          obtain ⟨valids,above,sorted⟩ := later.mp passed
          have front := first.mp order
          refine ⟨?_,?_,?_⟩
          · intro f member
            rcases List.mem_cons.mp member with rfl | inside
            · exact valid
            · exact valids f inside
          · intro f member p given
            rcases List.mem_cons.mp member with rfl | inside
            · exact front p given
            · exact Nat.lt_trans (front p given) (above f inside e.seq rfl)
          · exact List.pairwise_cons.mpr ⟨fun f inside => above f inside e.seq rfl,sorted⟩
    · intro parts
      obtain ⟨valids,above,sorted⟩ := parts
      obtain ⟨ahead,sorted⟩ := List.pairwise_cons.mp sorted
      have order := first.mpr (above e List.mem_cons_self)
      have rest := later.mpr ⟨fun f inside => valids f (List.mem_cons_of_mem e inside),
        fun f inside p given => (Option.mem_some.mp given) ▸ ahead f inside,sorted⟩
      simp only [validateFrom,valids e List.mem_cons_self,order,bind,Except.bind]
      exact rest

theorem mapM_isSome {f : α → Option β} {xs : List α} : (xs.mapM f).isSome ↔ ∀ a ∈ xs, (f a).isSome := by
  induction xs with
  | nil => simp
  | cons a xs ih =>
    rw [List.mapM_cons]
    cases here : f a with
    | none => simp [here]
    | some b =>
      rw [List.forall_mem_cons,← ih]
      cases xs.mapM f <;> simp [here]

-- The check of a stream sees nothing of what reading back changes.
theorem validateFrom_readBack {entries : List Envelope} (read : entries.mapM (Envelope.readBack chrono) = some events) (last : Option Nat) :
    validateFrom last events = validateFrom last entries := by
  induction entries generalizing events last with
  | nil => cases read; rfl
  | cons e entries ih =>
    rw [List.mapM_cons] at read
    cases first : e.readBack chrono with
    | none => rw [first] at read; cases read
    | some f =>
      cases rest : entries.mapM (Envelope.readBack chrono) with
      | none => rw [first,rest] at read; cases read
      | some fs =>
        rw [first,rest] at read
        cases read
        obtain ⟨t,-,rfl⟩ := Option.map_eq_some_iff.mp first
        have later := ih rest (some e.seq)
        simp only [validateFrom,later]
        rfl

-- The log as the writer has it: whole lines of valid envelopes.
structure Logged (chrono : Chrono) (serde : SerdeJson) (r : Recording) : Prop where
  lines : r.recorder.out = encode (r.log.flatMap (Envelope.toNdjson chrono serde))
  fits : ∀ e ∈ r.log, e.Fits
  valid : ∀ e ∈ r.log, e.validate = .ok ()

-- What a stream has to have besides.
structure Ordered (chrono : Chrono) (log : List Envelope) : Prop where
  readable : ∀ e ∈ log, Readable chrono e.ts
  sorted : log.Pairwise fun a b => a.seq < b.seq

theorem replays_iff (logged : Logged chrono serde r) (keeps : ∀ e ∈ r.log, serde.Keeps (e.serialize chrono)) :
    Replays chrono serde r ↔ Ordered chrono r.log := by
  have parsed := parseNdjson_written r.log logged.fits keeps
  have decoded : fromUtf8 r.recorder.out = .ok (r.log.flatMap (Envelope.toNdjson chrono serde)) := by
    rw [logged.lines]
    exact fromUtf8_encode _
  have readable : (r.log.mapM (Envelope.readBack chrono)).isSome ↔ ∀ e ∈ r.log, Readable chrono e.ts := by
    rw [mapM_isSome]
    simp [Envelope.readBack,Readable]
  constructor
  · intro replays
    obtain ⟨text,events,whole,read,passed⟩ := replays
    cases decoded.symm.trans whole
    rw [read] at parsed
    have same := validateFrom_readBack parsed.symm none
    have ordered := (validateFrom_ok none r.log).mp (same.symm.trans passed)
    exact ⟨readable.mp (by rw [← parsed]; rfl),ordered.2.2⟩
  · intro ordered
    obtain ⟨events,read⟩ := Option.isSome_iff_exists.mp (readable.mpr ordered.readable)
    have same := validateFrom_readBack read none
    have passed := (validateFrom_ok none r.log).mpr ⟨logged.valid,by simp,ordered.sorted⟩
    cases whole : parseNdjson chrono serde (r.log.flatMap (Envelope.toNdjson chrono serde)) with
    | error e => rw [whole,read] at parsed; cases parsed
    | ok out =>
      rw [whole,read] at parsed
      cases parsed
      exact ⟨_,events,decoded,whole,same.trans passed⟩

theorem forall_snoc {log : List Envelope} {P : Envelope → Prop} : (∀ f ∈ log ++ [e], P f) ↔ (∀ f ∈ log, P f) ∧ P e := by
  rw [List.forall_mem_append,List.forall_mem_singleton]

theorem ordered_snoc {log : List Envelope} : Ordered chrono (log ++ [e]) ↔
    Ordered chrono log ∧ Readable chrono e.ts ∧ ∀ f ∈ log, f.seq < e.seq := by
  constructor
  · intro whole
    obtain ⟨readable,sorted⟩ := whole
    obtain ⟨before,-,ahead⟩ := List.pairwise_append.mp sorted
    obtain ⟨earlier,last⟩ := forall_snoc.mp readable
    exact ⟨⟨earlier,before⟩,last,fun f inside => ahead f inside e List.mem_cons_self⟩
  · intro parts
    obtain ⟨⟨readable,sorted⟩,last,ahead⟩ := parts
    refine ⟨forall_snoc.mpr ⟨readable,last⟩,List.pairwise_append.mpr ⟨sorted,List.pairwise_singleton _ _,?_⟩⟩
    intro f inside g same
    rw [List.mem_singleton.mp same]
    exact ahead f inside

-- The next number is above those of the log, unless it wrapped.
structure Numbered (r : Recording) : Prop where
  above : 0 < r.recorder.nextSeq → ∀ e ∈ r.log, e.seq < r.recorder.nextSeq
  small : r.recorder.nextSeq < u64

-- An invariant of the runs, apart from what serde keeps.
structure Sound (chrono : Chrono) (serde : SerdeJson) (r : Recording) : Prop where
  logged : Logged chrono serde r
  ordered : Ordered chrono r.log
  numbered : Numbered r

theorem new_sound : Sound chrono serde .new := by
  refine ⟨⟨rfl,?_,?_⟩,⟨?_,List.Pairwise.nil⟩,⟨?_,by decide⟩⟩
  all_goals simp [Recording.new]

theorem advance_bound (advanced : advance overflowChecks seq = some next) : next < u64 ∧ (next = seq+1 ∨ next = 0) := by
  unfold advance at advanced
  split at advanced
  · cases advanced
    exact ⟨by assumption,.inl rfl⟩
  · split at advanced
    · cases advanced
    · cases advanced
      exact ⟨by decide,.inr rfl⟩

theorem write_logged (logged : Logged chrono serde r) (fits : Envelope.Fits e) (valid : e.validate = .ok ()) :
    Logged chrono serde (r.write chrono serde e .whole) := by
  refine ⟨?_,forall_snoc.mpr ⟨logged.fits,fits⟩,forall_snoc.mpr ⟨logged.valid,valid⟩⟩
  simp [Recording.write,logged.lines,encode_append]

-- The integers of what a call is given are in the range of their types.
def Recorded.Fits (step : Recorded) : Prop := match step.call with
  | .emitAt _ body => body.Fits
  | .record event => event.Fits
  | .setOpId _ => True

-- A step with a whole line writes a valid envelope or leaves the log alone.
inductive Wrote (chrono : Chrono) (serde : SerdeJson) (r : Recording) (step : Recorded) : Recording → Prop where
  | nothing (opId : Option Text) : Orderly chrono r step → Wrote chrono serde r step {r with recorder:={r.recorder with opId:=opId}}
  | line (e : Envelope) (next : Nat) : e.Fits → e.validate = .ok () → next < u64 →
      (Orderly chrono r step ↔ Readable chrono e.ts ∧ ∀ f ∈ r.log, f.seq < e.seq) →
      ((∀ f ∈ r.log, f.seq < e.seq) → 0 < next → ∀ f ∈ r.log ++ [e], f.seq < next) →
      Wrote chrono serde r step (Recording.write chrono serde {r with recorder:={r.recorder with nextSeq:=next}} e .whole)

theorem emitAt_wrote (numbered : Numbered r) (typed : EventBody.Fits body)
    (taken : r.emitAt chrono serde overflowChecks ts body .whole = some t) : Wrote chrono serde r ⟨.emitAt ts body,.whole⟩ t := by
  rw [Recording.emitAt] at taken
  rcases Nat.eq_zero_or_pos r.recorder.nextSeq with wrapped | counting
  · have refused : (Envelope.new r.recorder.nextSeq ts r.recorder.opId body).validate = .error (.internal "event seq must start at 1".toList) := by
      rw [wrapped]
      rfl
    rw [refused] at taken
    cases taken
    exact .nothing r.recorder.opId ⟨rfl,fun some => absurd wrapped (Nat.ne_of_gt some)⟩
  · have valid := new_validate counting ts r.recorder.opId body
    rw [valid] at taken
    obtain ⟨next,advanced,rfl⟩ := Option.map_eq_some_iff.mp taken
    obtain ⟨bound,steps⟩ := advance_bound advanced
    have above := numbered.above counting
    refine .line _ next ⟨show 1 < 2^32 by decide,numbered.small,typed⟩ valid bound ?_ ?_
    · exact ⟨fun orderly => ⟨orderly.2 counting,above⟩,fun both => ⟨rfl,fun _ => both.1⟩⟩
    · intro ahead some
      have step : r.recorder.nextSeq < next := by omega
      exact forall_snoc.mpr ⟨fun f inside => Nat.lt_trans (above f inside) step,step⟩

theorem record_wrote (numbered : Numbered r) (typed : Envelope.Fits e)
    (taken : r.record chrono serde overflowChecks e .whole = some t) : Wrote chrono serde r ⟨.record e,.whole⟩ t := by
  rw [Recording.record] at taken
  cases valid : e.validate with
  | error failure =>
    rw [valid] at taken
    cases taken
    refine .nothing r.recorder.opId ⟨rfl,?_⟩
    intro passed
    cases valid.symm.trans passed
  | ok _ =>
    rw [valid] at taken
    obtain ⟨next,counted,rfl⟩ := Option.map_eq_some_iff.mp taken
    have bound : next < u64 ∧ ((∀ f ∈ r.log, f.seq < e.seq) → 0 < next → ∀ f ∈ r.log ++ [e], f.seq < next) := by
      by_cases reached : r.recorder.nextSeq ≤ e.seq
      · rw [if_pos reached] at counted
        obtain ⟨bound,steps⟩ := advance_bound counted
        refine ⟨bound,?_⟩
        intro ahead some
        have step : e.seq < next := by omega
        exact forall_snoc.mpr ⟨fun f inside => Nat.lt_trans (ahead f inside) step,step⟩
      · rw [if_neg reached] at counted
        cases counted
        exact ⟨numbered.small,fun _ some => forall_snoc.mpr ⟨numbered.above some,Nat.lt_of_not_le reached⟩⟩
    refine .line e next typed valid bound.1 ?_ bound.2
    exact ⟨fun orderly => orderly.2 valid,fun both => ⟨rfl,fun _ => both⟩⟩

theorem execute_wrote (numbered : Numbered r) (typed : step.Fits) (whole : step.answer = .whole)
    (taken : r.execute chrono serde overflowChecks step = some t) : Wrote chrono serde r step t := by
  obtain ⟨call,answer⟩ := step
  obtain rfl : answer = .whole := whole
  cases call with
  | emitAt ts body => exact emitAt_wrote numbered typed taken
  | record e => exact record_wrote numbered typed taken
  | setOpId opId =>
    cases taken
    exact .nothing opId ⟨rfl,trivial⟩

-- The log replays after a step exactly where that was orderly, and stays sound.
theorem wrote_replays (sound : Sound chrono serde r) (wrote : Wrote chrono serde r step t)
    (keeps : ∀ e ∈ t.log, serde.Keeps (e.serialize chrono)) :
    (Replays chrono serde t ↔ Orderly chrono r step) ∧ (Orderly chrono r step → Sound chrono serde t) := by
  cases wrote with
  | nothing opId orderly =>
    have logged : Logged chrono serde {r with recorder:={r.recorder with opId:=opId}} :=
      ⟨sound.logged.lines,sound.logged.fits,sound.logged.valid⟩
    exact ⟨iff_of_true ((replays_iff logged keeps).mpr sound.ordered) orderly,
      fun _ => ⟨logged,sound.ordered,sound.numbered.above,sound.numbered.small⟩⟩
  | line e next fits valid bound orderly below =>
    have before : Logged chrono serde {r with recorder:={r.recorder with nextSeq:=next}} :=
      ⟨sound.logged.lines,sound.logged.fits,sound.logged.valid⟩
    have logged := write_logged before fits valid
    have ordered : Ordered chrono (r.log ++ [e]) ↔ Orderly chrono r step := by
      rw [ordered_snoc,orderly]
      exact and_iff_right sound.ordered
    refine ⟨(replays_iff logged keeps).trans ordered,?_⟩
    intro careful
    exact ⟨logged,ordered.mpr careful,below (orderly.mp careful).2,bound⟩

-- The log replays after every step of a run whose steps are all orderly; and
-- where the writer takes all lines whole, only then.
theorem recorder_replays (steps : List Recorded) (typed : ∀ step ∈ steps, step.Fits)
    (keeps : Along (Recording.execute chrono serde overflowChecks) (fun _ _ t => ∀ e ∈ t.log, serde.Keeps (e.serialize chrono)) .new steps) :
    (Along (Recording.execute chrono serde overflowChecks) (fun r step _ => Orderly chrono r step) .new steps →
      Along (Recording.execute chrono serde overflowChecks) (fun _ _ t => Replays chrono serde t) .new steps) ∧
    ((∀ step ∈ steps, step.answer = .whole) →
      Along (Recording.execute chrono serde overflowChecks) (fun _ _ t => Replays chrono serde t) .new steps →
      Along (Recording.execute chrono serde overflowChecks) (fun r step _ => Orderly chrono r step) .new steps) := by
  have granted := along_and keeps (along_forall typed Recording.new)
  constructor
  · apply along_mono (Sound chrono serde) _ new_sound granted
    intro r step t sound taken given orderly
    have wrote := execute_wrote sound.numbered given.2 orderly.1 taken
    obtain ⟨exact',still⟩ := wrote_replays sound wrote given.1
    exact ⟨exact'.mpr orderly,still orderly⟩
  · intro whole
    apply along_mono (Sound chrono serde) _ new_sound (along_and granted (along_forall whole Recording.new))
    intro r step t sound taken given replays
    have wrote := execute_wrote sound.numbered given.1.2 given.2 taken
    obtain ⟨exact',still⟩ := wrote_replays sound wrote given.1.1
    exact ⟨exact'.mp replays,still (exact'.mp replays)⟩

end

theorem noon_keeps : noonSerde.Keeps (noon.serialize noonChrono) := oneValue_keeps (by decide) _

def noonLine : Bytes := encode (noon.toNdjson noonChrono noonSerde)

theorem record_noon : Recording.execute noonChrono noonSerde true .new ⟨.record noon,.whole⟩ = some ⟨⟨noonLine,8,none⟩,[noon]⟩ := rfl

theorem record_noon_again : Recording.execute noonChrono noonSerde true ⟨⟨noonLine,8,none⟩,[noon]⟩ ⟨.record noon,.whole⟩ =
    some ⟨⟨noonLine ++ noonLine,8,none⟩,[noon,noon]⟩ := rfl

theorem recorder_replays_noon : Along (Recording.execute noonChrono noonSerde true)
    (fun _ _ t => Replays noonChrono noonSerde t) .new [⟨.record noon,.whole⟩] := by
  refine (recorder_replays [⟨.record noon,.whole⟩] ?_ ?_).1 ?_
  · intro step member
    cases List.mem_singleton.mp member
    exact noon_fits
  · simp only [Along,record_noon]
    refine ⟨?_,trivial⟩
    intro e member
    cases List.mem_singleton.mp member
    exact noon_keeps
  · simp only [Along,record_noon]
    exact ⟨⟨rfl,fun _ => ⟨rfl,fun _ member => absurd member List.not_mem_nil⟩⟩,trivial⟩

-- A stream is recorded that was recorded before.
theorem recorded_twice : ¬ ∀ (chrono : Chrono) (serde : SerdeJson) (overflowChecks : Bool) (steps : List Recorded),
    (∀ step ∈ steps, step.Fits ∧ step.answer = .whole) →
    Along (Recording.execute chrono serde overflowChecks)
      (fun _ _ t => ∀ e ∈ t.log, e.ts.Spelled ∧ chrono.Spells e.ts ∧ serde.Keeps (e.serialize chrono)) .new steps →
    Along (Recording.execute chrono serde overflowChecks) (fun _ _ t => Replays chrono serde t) .new steps := by
  intro replays
  have kept : ∀ e, e ∈ [noon] ∨ e ∈ [noon,noon] →
      e.ts.Spelled ∧ noonChrono.Spells e.ts ∧ noonSerde.Keeps (e.serialize noonChrono) := by
    intro e member
    obtain rfl : e = noon := by simpa using member
    exact ⟨by decide,fun _ => rfl,noon_keeps⟩
  have both := replays noonChrono noonSerde true [⟨.record noon,.whole⟩,⟨.record noon,.whole⟩]
    (fun step member => by
      obtain rfl : step = ⟨.record noon,.whole⟩ := by simpa using member
      exact ⟨noon_fits,rfl⟩)
    (by
      simp only [Along,record_noon,record_noon_again]
      exact ⟨fun e member => kept e (.inl member),fun e member => kept e (.inr member),trivial⟩)
  simp only [Along,record_noon,record_noon_again] at both
  have logged : Logged noonChrono noonSerde ⟨⟨noonLine ++ noonLine,8,none⟩,[noon,noon]⟩ := by
    refine ⟨?_,?_,?_⟩
    · simp [noonLine,encode_append]
    · intro e member
      obtain rfl : e = noon := by simpa using member
      exact noon_fits
    · intro e member
      obtain rfl : e = noon := by simpa using member
      rfl
  have ordered := (replays_iff logged fun e member => (kept e (.inr member)).2.2).mp both.2.1
  exact absurd (List.rel_of_pairwise_cons ordered.sorted List.mem_cons_self) (Nat.lt_irrefl _)

end PrincessIDE.Event
