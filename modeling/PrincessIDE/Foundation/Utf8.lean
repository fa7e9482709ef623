import Mathlib.Data.List.Basic

namespace PrincessIDE.Utf8

abbrev Bytes := List UInt8
abbrev Text := List Char

def replacement : Char := Char.ofNat 0xFFFD

-- A multi-byte scalar in progress: the bits read so far, how many bytes follow
-- the next one, and the range of the next byte. Only the second byte of a
-- sequence is ever narrower than 80..BF (overlong forms, surrogates, 10FFFF).
structure Owed where
  bits : Nat
  after : Nat
  low : Nat
  high : Nat
  floor : 0x80 ≤ low
deriving DecidableEq, Repr

def lead (b : UInt8) : Option Owed :=
  let v := b.toNat
  if 0xC2 ≤ v ∧ v ≤ 0xDF then some ⟨v-0xC0,0,0x80,0xBF,by decide⟩
  else if v = 0xE0 then some ⟨0,1,0xA0,0xBF,by decide⟩
  else if v = 0xED then some ⟨13,1,0x80,0x9F,by decide⟩
  else if 0xE1 ≤ v ∧ v ≤ 0xEF then some ⟨v-0xE0,1,0x80,0xBF,by decide⟩
  else if v = 0xF0 then some ⟨0,2,0x90,0xBF,by decide⟩
  else if v = 0xF4 then some ⟨4,2,0x80,0x8F,by decide⟩
  else if 0xF1 ≤ v ∧ v ≤ 0xF3 then some ⟨v-0xF0,2,0x80,0xBF,by decide⟩
  else none

inductive Answer where
  | complete (c : Char)
  | owes (o : Owed)
  | refuse
deriving DecidableEq, Repr

def Owed.accept (o : Owed) (b : UInt8) : Answer :=
  if o.low ≤ b.toNat ∧ b.toNat ≤ o.high then
    let bits := o.bits*64 + b.toNat%64
    match o.after with
    | 0 => .complete (Char.ofNat bits)
    | n+1 => .owes ⟨bits,n,0x80,0xBF,by decide⟩
  else .refuse

structure Held where
  bytes : Bytes
  owed : Owed
deriving DecidableEq, Repr

-- A byte string falls apart into encoded scalars and maximal broken subparts;
-- each broken subpart is decoded to one replacement character.
inductive Segment where
  | scalar (bytes : Bytes) (c : Char)
  | broken (bytes : Bytes)
deriving DecidableEq, Repr

def Segment.bytes : Segment → Bytes
  | .scalar bytes _ => bytes
  | .broken bytes => bytes

def Segment.char : Segment → Char
  | .scalar _ c => c
  | .broken _ => replacement

def Segment.isBroken : Segment → Bool
  | .scalar _ _ => false
  | .broken _ => true

def opening (b : UInt8) : List Segment × Option Held :=
  if b.toNat < 0x80 then ([.scalar [b] (Char.ofNat b.toNat)],none)
  else match lead b with
    | some o => ([],some ⟨[b],o⟩)
    | none => ([.broken [b]],none)

def step : Option Held → UInt8 → List Segment × Option Held
  | none,b => opening b
  | some h,b => match h.owed.accept b with
    | .complete c => ([.scalar (h.bytes++[b]) c],none)
    | .owes o => ([],some ⟨h.bytes++[b],o⟩)
    | .refuse => (.broken h.bytes :: (opening b).1,(opening b).2)

def run (q : Option Held) : Bytes → List Segment × Option Held
  | [] => ([],q)
  | b :: rest => ((step q b).1 ++ (run (step q b).2 rest).1,(run (step q b).2 rest).2)

def heldBytes : Option Held → Bytes
  | none => []
  | some h => h.bytes

def close : Option Held → List Segment
  | none => []
  | some h => [.broken h.bytes]

def segments (bs : Bytes) : List Segment := (run none bs).1 ++ close (run none bs).2

-- `String::from_utf8_lossy`.
def lossy (bs : Bytes) : Text := (segments bs).map Segment.char

@[simp] theorem heldBytes_none : heldBytes none = [] := rfl
@[simp] theorem heldBytes_some (h : Held) : heldBytes (some h) = h.bytes := rfl

theorem run_append (q : Option Held) (a b : Bytes) :
    run q (a++b) = ((run q a).1 ++ (run (run q a).2 b).1,(run (run q a).2 b).2) := by
  induction a generalizing q with
  | nil => simp [run]
  | cons x a ih => simp [run,ih,List.append_assoc]

theorem run_snoc (q : Option Held) (a : Bytes) (b : UInt8) :
    run q (a++[b]) = ((run q a).1 ++ (step (run q a).2 b).1,(step (run q a).2 b).2) := by
  simp [run_append,run]

theorem opening_bytes (b : UInt8) :
    (opening b).1.flatMap Segment.bytes ++ heldBytes (opening b).2 = [b] := by
  unfold opening
  split
  · simp [Segment.bytes]
  · cases lead b <;> simp [Segment.bytes]

theorem step_bytes (q : Option Held) (b : UInt8) :
    (step q b).1.flatMap Segment.bytes ++ heldBytes (step q b).2 = heldBytes q ++ [b] := by
  cases q with
  | none => simpa [step] using opening_bytes b
  | some h =>
    cases answer : h.owed.accept b with
    | complete c => simp [step,answer,Segment.bytes]
    | owes o => simp [step,answer]
    | refuse => simpa [step,answer,Segment.bytes] using opening_bytes b

theorem run_bytes (q : Option Held) (bs : Bytes) :
    (run q bs).1.flatMap Segment.bytes ++ heldBytes (run q bs).2 = heldBytes q ++ bs := by
  induction bs generalizing q with
  | nil => simp [run]
  | cons b rest ih =>
    have one := step_bytes q b
    simp only [run,List.flatMap_append,List.append_assoc,ih]
    rw [← List.append_assoc,one]
    simp

theorem close_bytes (q : Option Held) : (close q).flatMap Segment.bytes = heldBytes q := by
  cases q <;> simp [close,Segment.bytes]

@[simp] theorem segments_bytes (bs : Bytes) : (segments bs).flatMap Segment.bytes = bs := by
  have whole := run_bytes none bs
  simpa [segments,close_bytes] using whole

-- A cut is a seam when no segment of the whole crosses it.
def Seam (a b : Bytes) : Prop := segments (a++b) = segments a ++ segments b

theorem Seam.lossy (seam : Seam a b) : lossy (a++b) = Utf8.lossy a ++ Utf8.lossy b := by
  unfold Seam at seam
  simp [Utf8.lossy,seam]

theorem Seam.nil (a : Bytes) : Seam a [] := by simp [Seam,segments,run,close]

theorem Seam.of_closed (closed : (run none a).2 = none) (b : Bytes) : Seam a b := by
  simp [Seam,segments,run_append,closed,close]

theorem Seam.of_refused (held : (run none a).2 = some h) (refused : h.owed.accept c = .refuse)
    (b : Bytes) : Seam a (c::b) := by
  simp [Seam,segments,run_append,held,run,step,refused,close,List.append_assoc]

theorem accept_ascii (o : Owed) (ascii : b.toNat < 0x80) : o.accept b = .refuse := by
  have floor := o.floor
  unfold Owed.accept
  rw [if_neg (by omega)]

theorem step_ascii (q : Option Held) (ascii : b.toNat < 0x80) :
    step q b = (close q ++ [Segment.scalar [b] (Char.ofNat b.toNat)],none) := by
  cases q with
  | none => simp [step,opening,ascii,close]
  | some h => simp [step,accept_ascii h.owed ascii,opening,ascii,close]

theorem Seam.before_ascii (a : Bytes) (ascii : c.toNat < 0x80) (b : Bytes) : Seam a (c::b) := by
  cases held : (run none a).2 with
  | none => exact .of_closed held _
  | some h => exact .of_refused held (accept_ascii _ ascii) b

theorem Seam.after_ascii (a : Bytes) (ascii : c.toNat < 0x80) (b : Bytes) : Seam (a++[c]) b :=
  .of_closed (by simp [run_snoc,step_ascii _ ascii]) b

theorem segments_ascii (ascii : c.toNat < 0x80) (b : Bytes) :
    segments (c::b) = .scalar [c] (Char.ofNat c.toNat) :: segments b := by
  simp [segments,run,step_ascii none ascii,close]

theorem segments_snoc_ascii (a : Bytes) (ascii : c.toNat < 0x80) :
    segments (a++[c]) = segments a ++ [Segment.scalar [c] (Char.ofNat c.toNat)] := by
  rw [Seam.before_ascii a ascii [],segments_ascii ascii]
  rfl

-- `std::str::Utf8Error`: the length of the valid prefix, and the length of the
-- broken subpart behind it unless the input merely ended inside a sequence.
structure Utf8Error where
  validUpTo : Nat
  errorLen : Option Nat
deriving DecidableEq, Repr

def check (valid : Nat) (q : Option Held) : Bytes → Option Utf8Error
  | [] => match q with
    | none => none
    | some _ => some ⟨valid,none⟩
  | b :: rest => match step q b with
    | ([],next) => check valid next rest
    | (.scalar bytes _ :: _,next) => check (valid+bytes.length) next rest
    | (.broken bytes :: _,_) => some ⟨valid,some bytes.length⟩

theorem check_quiet (quiet : run q a = ([],next)) (b : Bytes) : check v q (a++b) = check v next b := by
  induction a generalizing q with
  | nil => cases quiet; rfl
  | cons x a ih =>
    simp only [run,Prod.mk.injEq,List.append_eq_nil_iff] at quiet
    obtain ⟨⟨silent,later⟩,last⟩ := quiet
    have one : step q x = ([],(step q x).2) := Prod.ext silent rfl
    rw [List.cons_append,check,one]
    exact ih (Prod.ext later last)

-- `std::str::from_utf8`.
def fromUtf8 (bs : Bytes) : Except Utf8Error Text :=
  match check 0 none bs with
  | none => .ok (lossy bs)
  | some e => .error e

def Intact (segs : List Segment) : Prop := ∀ s ∈ segs, s.isBroken = false

theorem step_shape (q : Option Held) (b : UInt8) :
    (∃ h, step q b = ([],some h) ∧ h.bytes = heldBytes q ++ [b]) ∨
    (∃ c, step q b = ([.scalar (heldBytes q ++ [b]) c],none)) ∨
    (q = none ∧ step q b = ([.broken [b]],none)) ∨
    (∃ h, q = some h ∧ h.owed.accept b = .refuse ∧
      step q b = (.broken h.bytes :: (opening b).1,(opening b).2)) := by
  cases q with
  | none =>
    by_cases ascii : b.toNat < 0x80
    · exact .inr (.inl ⟨_,by simp [step,opening,ascii]; rfl⟩)
    · cases begun : lead b with
      | some o => exact .inl ⟨⟨[b],o⟩,by simp [step,opening,ascii,begun],rfl⟩
      | none => exact .inr (.inr (.inl ⟨rfl,by simp [step,opening,ascii,begun]⟩))
  | some h =>
    cases answer : h.owed.accept b with
    | complete c => exact .inr (.inl ⟨c,by simp [step,answer]⟩)
    | owes o => exact .inl ⟨⟨h.bytes++[b],o⟩,by simp [step,answer],rfl⟩
    | refuse => exact .inr (.inr (.inr ⟨h,rfl,answer,by simp [step,answer]⟩))

-- What `check` says about the bytes it read, given that `q` is the state the
-- machine reaches on its own held bytes: the induction is on the input, and
-- the three outcomes are the three shapes of `Utf8Error`.
theorem check_none (quiet : run none (heldBytes q) = ([],q)) (valid : check v q bs = none) :
    (run none (heldBytes q ++ bs)).2 = none ∧ Intact (run none (heldBytes q ++ bs)).1 := by
  induction bs generalizing q v with
  | nil =>
    cases q with
    | none => simp [run,Intact]
    | some h => simp [check] at valid
  | cons b rest ih =>
    have next := run_snoc none (heldBytes q) b
    rw [quiet] at next
    simp only [List.nil_append] at next
    have regroup : heldBytes q ++ b :: rest = (heldBytes q ++ [b]) ++ rest := by simp
    rcases step_shape q b with ⟨h,one,bytes⟩ | ⟨c,one⟩ | ⟨rfl,one⟩ | ⟨h,rfl,refused,one⟩
    · rw [one] at next
      simp only [check,one] at valid
      rw [regroup,← bytes]
      exact ih (q:=some h) (by rw [heldBytes_some,bytes,next]) valid
    · rw [one] at next
      simp only [check,one] at valid
      obtain ⟨closed,intact⟩ := ih (q:=none) rfl valid
      rw [regroup,run_append,next]
      refine ⟨closed,?_⟩
      intro s member
      rcases List.mem_append.mp member with first | later
      · simp only [List.mem_singleton] at first
        subst s; rfl
      · exact intact s later
    · simp [check,one] at valid
    · simp [check,one] at valid

theorem check_some (quiet : run none (heldBytes q) = ([],q)) (failed : check v q bs = some e) :
    ∃ good bad rest, heldBytes q ++ bs = good ++ bad ++ rest ∧ bad ≠ [] ∧ e.validUpTo = v + good.length ∧
      (run none good).2 = none ∧ Intact (run none good).1 ∧
      ((e.errorLen = none ∧ rest = [] ∧ ∃ h, run none bad = ([],some h)) ∨
       (e.errorLen = some bad.length ∧ run none bad = ([.broken bad],none)) ∨
       (e.errorLen = some bad.length ∧ ∃ h c tail, run none bad = ([],some h) ∧
         rest = c :: tail ∧ h.owed.accept c = .refuse)) := by
  induction bs generalizing q v with
  | nil =>
    cases q with
    | none => simp [check] at failed
    | some h =>
      simp only [check,Option.some.injEq] at failed
      subst e
      refine ⟨[],h.bytes,[],by simp,?_,by simp,rfl,by simp [Intact,run],.inl ⟨rfl,rfl,h,quiet⟩⟩
      intro empty
      rw [heldBytes_some,empty] at quiet
      simp [run] at quiet
  | cons b rest ih =>
    have next := run_snoc none (heldBytes q) b
    rw [quiet] at next
    simp only [List.nil_append] at next
    have regroup : heldBytes q ++ b :: rest = (heldBytes q ++ [b]) ++ rest := by simp
    rcases step_shape q b with ⟨h,one,bytes⟩ | ⟨c,one⟩ | ⟨rfl,one⟩ | ⟨h,rfl,refused,one⟩
    · rw [one] at next
      simp only [check,one] at failed
      rw [regroup,← bytes]
      exact ih (q:=some h) (by rw [heldBytes_some,bytes,next]) failed
    · rw [one] at next
      simp only [check,one] at failed
      obtain ⟨good,bad,tail,split,some,upTo,closed,intact,kind⟩ := ih (q:=none) rfl failed
      refine ⟨(heldBytes q ++ [b]) ++ good,bad,tail,?_,some,?_,?_,?_,kind⟩
      · rw [regroup]; simp only [heldBytes_none,List.nil_append] at split; simp [split]
      · rw [upTo]; simp; omega
      · rw [run_append,next]; exact closed
      · rw [run_append,next]
        intro s member
        rcases List.mem_append.mp member with first | later
        · simp only [List.mem_singleton] at first
          subst s; rfl
        · exact intact s later
    · simp only [check,one,Option.some.injEq] at failed
      subst e
      exact ⟨[],[b],rest,by simp,by simp,by simp,rfl,by simp [Intact,run],
        .inr (.inl ⟨rfl,by simpa using one ▸ next⟩)⟩
    · simp only [check,one,Option.some.injEq] at failed
      subst e
      refine ⟨[],h.bytes,b::rest,by simp,?_,by simp,rfl,by simp [Intact,run],
        .inr (.inr ⟨rfl,h,b,rest,quiet,rfl,refused⟩)⟩
      intro empty
      rw [heldBytes_some,empty] at quiet
      simp [run] at quiet

theorem segments_of_closed (closed : (run none bs).2 = none) : segments bs = (run none bs).1 := by
  simp [segments,closed,close]

theorem fromUtf8_ok (valid : fromUtf8 bs = .ok t) :
    (run none bs).2 = none ∧ Intact (segments bs) ∧ t = lossy bs := by
  unfold fromUtf8 at valid
  cases checked : check 0 none bs with
  | some e => simp [checked] at valid
  | none =>
    simp only [checked,Except.ok.injEq] at valid
    obtain ⟨closed,intact⟩ := check_none (q:=none) rfl checked
    simp only [heldBytes_none,List.nil_append] at closed intact
    exact ⟨closed,by rwa [segments_of_closed closed],valid.symm⟩

-- The cut that an error makes: what was taken whole, what was not, and the rest.
theorem fromUtf8_stop (failed : fromUtf8 bs = .error e) :
    ∃ good bad rest, bs = good ++ bad ++ rest ∧ bad ≠ [] ∧ e.validUpTo = good.length ∧
      (run none good).2 = none ∧ Intact (segments good) ∧
      ((e.errorLen = none ∧ rest = [] ∧ ∃ h, run none bad = ([],some h)) ∨
       (e.errorLen = some bad.length ∧ run none bad = ([.broken bad],none)) ∨
       (e.errorLen = some bad.length ∧ ∃ h c tail, run none bad = ([],some h) ∧ rest = c :: tail ∧ h.owed.accept c = .refuse)) := by
  unfold fromUtf8 at failed
  cases checked : check 0 none bs with
  | none => simp [checked] at failed
  | some found =>
    simp only [checked,Except.error.injEq] at failed
    subst found
    obtain ⟨good,bad,rest,split,some,upTo,closed,intact,kind⟩ := check_some (q:=none) rfl checked
    simp only [heldBytes_none,List.nil_append] at split
    exact ⟨good,bad,rest,split,some,by simpa using upTo,closed,by rwa [segments_of_closed closed],kind⟩

-- Where an error cuts the input: behind the valid prefix when the input ended
-- early, and behind the broken subpart otherwise. Either cut stays a seam
-- whatever bytes arrive later.
theorem fromUtf8_error (failed : fromUtf8 bs = .error e) :
    ∃ good bad rest, bs = good ++ bad ++ rest ∧ bad ≠ [] ∧ e.validUpTo = good.length ∧
      (run none good).2 = none ∧ Intact (segments good) ∧
      ((e.errorLen = none ∧ rest = [] ∧ ∃ h, run none bad = ([],some h)) ∨
       (e.errorLen = some bad.length ∧ segments bad = [.broken bad] ∧ ∀ more, Seam bad (rest ++ more))) := by
  obtain ⟨good,bad,rest,split,some,upTo,closed,intact,kind⟩ := fromUtf8_stop failed
  refine ⟨good,bad,rest,split,some,upTo,closed,intact,?_⟩
  rcases kind with ⟨len,ended,h,held⟩ | ⟨len,ran⟩ | ⟨len,h,c,tail,held,shape,refused⟩
  · exact .inl ⟨len,ended,h,held⟩
  · exact .inr ⟨len,by simp [segments,ran,close],fun more => .of_closed (by simp [ran]) _⟩
  · have kept := run_bytes none bad
    simp only [held,List.flatMap_nil,List.nil_append,heldBytes_some,heldBytes_none] at kept
    refine .inr ⟨len,by simp [segments,held,close,kept],fun more => ?_⟩
    rw [shape]
    exact .of_refused (by rw [held]) refused _

theorem fromUtf8_intact (bs : Bytes) : (fromUtf8 bs = .ok (lossy bs)) ↔ Intact (segments bs) := by
  constructor
  · intro valid
    exact (fromUtf8_ok valid).2.1
  · intro intact
    cases result : fromUtf8 bs with
    | ok t => rw [(fromUtf8_ok result).2.2]
    | error e =>
      obtain ⟨good,bad,rest,rfl,_,_,closed,_,kind⟩ := fromUtf8_error result
      have member : Segment.broken bad ∈ segments (good ++ bad ++ rest) := by
        rw [List.append_assoc,Seam.of_closed closed]
        rcases kind with ⟨_,rfl,h,held⟩ | ⟨_,one,seam⟩
        · have kept := run_bytes none bad
          simp only [held,List.flatMap_nil,List.nil_append,heldBytes_some,heldBytes_none] at kept
          simp [segments,held,close,kept]
        · have cut := seam []
          rw [List.append_nil] at cut
          rw [cut,one]
          simp
      cases intact _ member

def encode (t : Text) : Bytes := t.flatMap String.utf8EncodeChar

-- The machine's state as arithmetic: the bytes held are the bits read so far,
-- spread over a lead byte and continuation bytes, and the bits stay inside the
-- range whose scalars need exactly this many bytes.
inductive Tracks : Bytes → Owed → Prop where
  | two (first : a.toNat = 0xC0+v) (low : 2 ≤ v) (high : v < 32) : Tracks [a] ⟨v,0,0x80,0xBF,floor⟩
  | three (first : a.toNat = 0xE0+v) (high : v < 16) (narrow : v = 0 → 0xA0 ≤ l)
      (surrogate : v = 13 → h ≤ 0x9F) (top : h ≤ 0xBF) : Tracks [a] ⟨v,1,l,h,floor⟩
  | four (first : a.toNat = 0xF0+v) (high : v < 5) (narrow : v = 0 → 0x90 ≤ l)
      (last : v = 4 → h ≤ 0x8F) (top : h ≤ 0xBF) : Tracks [a] ⟨v,2,l,h,floor⟩
  | threeLast (first : a.toNat = 0xE0+v/64) (second : b.toNat = 0x80+v%64) (low : 32 ≤ v) (high : v < 1024)
      (surrogate : v < 864 ∨ 896 ≤ v) : Tracks [a,b] ⟨v,0,0x80,0xBF,floor⟩
  | fourThird (first : a.toNat = 0xF0+v/64) (second : b.toNat = 0x80+v%64) (low : 16 ≤ v) (high : v < 272) :
      Tracks [a,b] ⟨v,1,0x80,0xBF,floor⟩
  | fourLast (first : a.toNat = 0xF0+v/4096) (second : b.toNat = 0x80+v/64%64) (third : c.toNat = 0x80+v%64)
      (low : 1024 ≤ v) (high : v < 17408) : Tracks [a,b,c] ⟨v,0,0x80,0xBF,floor⟩

theorem lead_tracks (begun : lead b = some o) : Tracks [b] o := by
  have bounded := b.toNat_lt
  unfold lead at begun
  dsimp only at begun
  repeat' split at begun
  · cases Option.some.inj begun; exact .two (by omega) (by omega) (by omega)
  · cases Option.some.inj begun; exact .three (by omega) (by omega) (by omega) (by omega) (by omega)
  · cases Option.some.inj begun; exact .three (by omega) (by omega) (by omega) (by omega) (by omega)
  · cases Option.some.inj begun; exact .three (by omega) (by omega) (by omega) (by omega) (by omega)
  · cases Option.some.inj begun; exact .four (by omega) (by omega) (by omega) (by omega) (by omega)
  · cases Option.some.inj begun; exact .four (by omega) (by omega) (by omega) (by omega) (by omega)
  · cases Option.some.inj begun; exact .four (by omega) (by omega) (by omega) (by omega) (by omega)
  · cases begun

theorem accept_range {o : Owed} {b : UInt8} (answer : o.accept b ≠ .refuse) :
    o.low ≤ b.toNat ∧ b.toNat ≤ o.high := by
  unfold Owed.accept at answer
  split at answer
  · assumption
  · exact absurd rfl answer

theorem accept_tracks {o next : Owed} {b : UInt8} (tracks : Tracks bytes o) (answer : o.accept b = .owes next) :
    Tracks (bytes++[b]) next := by
  obtain ⟨atLeast,atMost⟩ := accept_range (o:=o) (b:=b) (by rw [answer]; simp)
  have floor := o.floor
  unfold Owed.accept at answer
  rw [if_pos ⟨atLeast,atMost⟩] at answer
  cases tracks with
  | two => cases answer
  | threeLast => cases answer
  | fourLast => cases answer
  | three first high narrow surrogate top =>
    dsimp only at answer atLeast atMost floor
    cases answer
    exact .threeLast (by omega) (by omega) (by omega) (by omega) (by omega)
  | four first high narrow last top =>
    dsimp only at answer atLeast atMost floor
    cases answer
    exact .fourThird (by omega) (by omega) (by omega) (by omega)
  | fourThird first second low high =>
    dsimp only at answer atLeast atMost floor
    cases answer
    exact .fourLast (by omega) (by omega) (by omega) (by omega) (by omega)

theorem toNat_ofNat (valid : n < 0xD800 ∨ (0xDFFF < n ∧ n < 0x110000)) : (Char.ofNat n).toNat = n := by
  have scalar : n.isValidChar := valid
  rw [Char.ofNat,dif_pos scalar]
  rfl

theorem byte_eq {b : UInt8} (same : b.toNat = n % 256) : UInt8.ofNat n = b :=
  UInt8.toNat_inj.mp (by rw [UInt8.toNat_ofNat']; exact same.symm)

theorem encodeChar_two {c : Char} {a b : UInt8} (low : 0x80 ≤ c.val.toNat) (high : c.val.toNat < 0x800)
    (first : a.toNat = 0xC0+c.val.toNat/64) (second : b.toNat = 0x80+c.val.toNat%64) :
    String.utf8EncodeChar c = [a,b] := by
  unfold String.utf8EncodeChar
  dsimp only
  rw [if_neg (by omega),if_pos (by omega),byte_eq (b:=a) (by omega),byte_eq (b:=b) (by omega)]

theorem encodeChar_three {c : Char} {a b d : UInt8} (low : 0x800 ≤ c.val.toNat) (high : c.val.toNat < 0x10000)
    (first : a.toNat = 0xE0+c.val.toNat/4096) (second : b.toNat = 0x80+c.val.toNat/64%64)
    (third : d.toNat = 0x80+c.val.toNat%64) : String.utf8EncodeChar c = [a,b,d] := by
  unfold String.utf8EncodeChar
  dsimp only
  rw [if_neg (by omega),if_neg (by omega),if_pos (by omega),byte_eq (b:=a) (by omega),
    byte_eq (b:=b) (by omega),byte_eq (b:=d) (by omega)]

theorem encodeChar_four {c : Char} {a b d e : UInt8} (low : 0x10000 ≤ c.val.toNat) (high : c.val.toNat < 0x110000)
    (first : a.toNat = 0xF0+c.val.toNat/262144) (second : b.toNat = 0x80+c.val.toNat/4096%64)
    (third : d.toNat = 0x80+c.val.toNat/64%64) (fourth : e.toNat = 0x80+c.val.toNat%64) :
    String.utf8EncodeChar c = [a,b,d,e] := by
  unfold String.utf8EncodeChar
  dsimp only
  rw [if_neg (by omega),if_neg (by omega),if_neg (by omega),byte_eq (b:=a) (by omega),
    byte_eq (b:=b) (by omega),byte_eq (b:=d) (by omega),byte_eq (b:=e) (by omega)]

theorem encodeChar_ascii {b : UInt8} (ascii : b.toNat < 0x80) :
    String.utf8EncodeChar (Char.ofNat b.toNat) = [b] := by
  have value : (Char.ofNat b.toNat).val.toNat = b.toNat := toNat_ofNat (.inl (by omega))
  unfold String.utf8EncodeChar
  dsimp only
  rw [value,if_pos (by omega),byte_eq (b:=b) (by omega)]

theorem accept_encodes {o : Owed} {b : UInt8} (tracks : Tracks bytes o) (answer : o.accept b = .complete c) :
    String.utf8EncodeChar c = bytes++[b] := by
  obtain ⟨atLeast,atMost⟩ := accept_range (o:=o) (b:=b) (by rw [answer]; simp)
  unfold Owed.accept at answer
  rw [if_pos ⟨atLeast,atMost⟩] at answer
  cases tracks with
  | three => cases answer
  | four => cases answer
  | fourThird => cases answer
  | @two v a _ first low high =>
    dsimp only at answer atLeast atMost
    cases answer
    have value : (Char.ofNat (v*64+b.toNat%64)).val.toNat = v*64+b.toNat%64 := toNat_ofNat (by omega)
    exact encodeChar_two (by omega) (by omega) (by omega) (by omega)
  | @threeLast v a d _ first second low high surrogate =>
    dsimp only at answer atLeast atMost
    cases answer
    have value : (Char.ofNat (v*64+b.toNat%64)).val.toNat = v*64+b.toNat%64 := toNat_ofNat (by omega)
    exact encodeChar_three (by omega) (by omega) (by omega) (by omega) (by omega)
  | @fourLast v a d e _ first second third low high =>
    dsimp only at answer atLeast atMost
    cases answer
    have value : (Char.ofNat (v*64+b.toNat%64)).val.toNat = v*64+b.toNat%64 := toNat_ofNat (by omega)
    exact encodeChar_four (by omega) (by omega) (by omega) (by omega) (by omega) (by omega)

def Tracked (q : Option Held) : Prop := ∀ h, q = some h → Tracks h.bytes h.owed

theorem opening_tracked (b : UInt8) : Tracked (opening b).2 := by
  unfold opening
  intro h same
  split at same
  · cases same
  · cases begun : lead b with
    | none => simp [begun] at same
    | some o =>
      simp only [begun,Option.some.injEq] at same
      subst h
      exact lead_tracks begun

theorem opening_scalar (member : .scalar bytes c ∈ (opening b).1) : String.utf8EncodeChar c = bytes := by
  unfold opening at member
  split at member
  · simp only [List.mem_singleton,Segment.scalar.injEq] at member
    obtain ⟨rfl,rfl⟩ := member
    exact encodeChar_ascii ‹_›
  · cases begun : lead b <;> simp [begun] at member

theorem step_tracked (tracked : Tracked q) (b : UInt8) :
    Tracked (step q b).2 ∧ ∀ bytes c, .scalar bytes c ∈ (step q b).1 → String.utf8EncodeChar c = bytes := by
  cases q with
  | none => exact ⟨opening_tracked b,fun _ _ => opening_scalar⟩
  | some held =>
    have owed := tracked held rfl
    cases answer : held.owed.accept b with
    | complete c =>
      refine ⟨by simp [step,answer,Tracked],?_⟩
      intro bytes d member
      simp only [step,answer,List.mem_singleton,Segment.scalar.injEq] at member
      obtain ⟨rfl,rfl⟩ := member
      exact accept_encodes owed answer
    | owes o =>
      refine ⟨?_,by simp [step,answer]⟩
      intro h same
      simp only [step,answer,Option.some.injEq] at same
      subst h
      exact accept_tracks owed answer
    | refuse =>
      refine ⟨by simpa [step,answer] using opening_tracked b,?_⟩
      intro bytes c member
      simp only [step,answer,List.mem_cons,reduceCtorEq,false_or] at member
      exact opening_scalar member

theorem run_tracked (tracked : Tracked q) (bs : Bytes) :
    Tracked (run q bs).2 ∧ ∀ bytes c, .scalar bytes c ∈ (run q bs).1 → String.utf8EncodeChar c = bytes := by
  induction bs generalizing q with
  | nil => exact ⟨tracked,by simp [run]⟩
  | cons b rest ih =>
    obtain ⟨next,here⟩ := step_tracked tracked b
    obtain ⟨last,later⟩ := ih next
    refine ⟨last,fun bytes c member => ?_⟩
    rcases List.mem_append.mp member with first | more
    · exact here bytes c first
    · exact later bytes c more

-- A scalar segment holds exactly the encoding of its character.
theorem segments_scalar (member : .scalar bytes c ∈ segments bs) : String.utf8EncodeChar c = bytes := by
  rcases List.mem_append.mp member with inside | tail
  · exact (run_tracked (q:=none) (by simp [Tracked]) bs).2 bytes c inside
  · cases held : (run none bs).2 <;> simp [held,close] at tail

theorem Tracks.short (tracks : Tracks bytes o) : bytes ≠ [] ∧ bytes.length ≤ 3 := by
  cases tracks <;> simp

theorem held_short (held : (run none bs).2 = some h) : h.bytes ≠ [] ∧ h.bytes.length ≤ 3 :=
  ((run_tracked (q:=none) (by simp [Tracked]) bs).1 h held).short

theorem run_nonempty (tracked : Tracked q) (bs : Bytes) : ∀ s ∈ (run q bs).1, s.bytes ≠ [] := by
  induction bs generalizing q with
  | nil => simp [run]
  | cons b rest ih =>
    intro s member
    rcases List.mem_append.mp member with first | later
    · rcases step_shape q b with ⟨h,one,_⟩ | ⟨c,one⟩ | ⟨rfl,one⟩ | ⟨h,rfl,refused,one⟩
      · simp [one] at first
      · simp only [one,List.mem_singleton] at first
        subst s; simp [Segment.bytes]
      · simp only [one,List.mem_singleton] at first
        subst s; simp [Segment.bytes]
      · simp only [one,List.mem_cons] at first
        rcases first with rfl | fresh
        · exact (tracked h rfl).short.1
        · have opened := opening_bytes b
          cases s with
          | scalar bytes c => rw [← opening_scalar fresh]; exact String.utf8EncodeChar_ne_nil
          | broken bytes =>
            unfold opening at fresh
            split at fresh
            · simp at fresh
            · cases begun : lead b <;> simp [begun] at fresh
              subst bytes; simp [Segment.bytes]
    · exact ih (step_tracked tracked b).1 s later

theorem segments_nonempty (member : s ∈ segments bs) : s.bytes ≠ [] := by
  rcases List.mem_append.mp member with inside | tail
  · exact run_nonempty (q:=none) (by simp [Tracked]) bs s inside
  · cases held : (run none bs).2 with
    | none => simp [held,close] at tail
    | some h =>
      simp only [held,close,List.mem_singleton] at tail
      subst s
      exact (held_short held).1

theorem lead_two {a : UInt8} (first : a.toNat = 0xC0+w) (low : 2 ≤ w) (high : w < 32) :
    lead a = some ⟨w,0,0x80,0xBF,by decide⟩ := by
  unfold lead
  dsimp only
  rw [if_pos (by omega)]
  simp only [Option.some.injEq,Owed.mk.injEq,and_self,and_true]
  omega

theorem lead_three {a : UInt8} (first : a.toNat = 0xE0+w) (high : w < 16) :
    ∃ l h floor, lead a = some ⟨w,1,l,h,floor⟩ ∧ l ≤ (if w = 0 then 0xA0 else 0x80) ∧
      (if w = 13 then 0x9F else 0xBF) ≤ h := by
  unfold lead
  dsimp only
  rw [if_neg (by omega)]
  by_cases zero : w = 0
  · subst w; simp [first]
  · rw [if_neg (by omega)]
    by_cases surrogate : w = 13
    · subst w; simp [first]
    · rw [if_neg (by omega),if_pos (by omega)]
      refine ⟨0x80,0xBF,by decide,?_,by simp [zero],by simp [surrogate]⟩
      simp only [Option.some.injEq,Owed.mk.injEq,and_self,and_true]
      omega

theorem lead_four {a : UInt8} (first : a.toNat = 0xF0+w) (high : w < 5) :
    ∃ l h floor, lead a = some ⟨w,2,l,h,floor⟩ ∧ l ≤ (if w = 0 then 0x90 else 0x80) ∧
      (if w = 4 then 0x8F else 0xBF) ≤ h := by
  unfold lead
  dsimp only
  rw [if_neg (by omega),if_neg (by omega),if_neg (by omega),if_neg (by omega)]
  by_cases zero : w = 0
  · subst w; simp [first]
  · rw [if_neg (by omega)]
    by_cases last : w = 4
    · subst w; simp [first]
    · rw [if_neg (by omega),if_pos (by omega)]
      refine ⟨0x80,0xBF,by decide,?_,by simp [zero],by simp [last]⟩
      simp only [Option.some.injEq,Owed.mk.injEq,and_self,and_true]
      omega

theorem accept_inside {o : Owed} {b : UInt8} (second : b.toNat = 0x80+w) (small : w < 64) (low : o.low ≤ 0x80+w)
    (high : 0x80+w ≤ o.high) : o.accept b = match o.after with
      | 0 => .complete (Char.ofNat (o.bits*64+w))
      | n+1 => .owes ⟨o.bits*64+w,n,0x80,0xBF,by decide⟩ := by
  have rest : b.toNat % 64 = w := by omega
  unfold Owed.accept
  rw [if_pos (by omega),rest]

theorem run_lead {a : UInt8} (notAscii : 0x80 ≤ a.toNat) (begun : lead a = some o) (rest : Bytes) :
    run none (a::rest) = run (some ⟨[a],o⟩) rest := by
  have opened : opening a = ([],some ⟨[a],o⟩) := by
    unfold opening
    rw [if_neg (by omega),begun]
  simp [run,step,opened]

theorem run_encodeChar (c : Char) :
    run none (String.utf8EncodeChar c) = ([.scalar (String.utf8EncodeChar c) c],none) := by
  have valid : c.val.toNat < 0xD800 ∨ (0xDFFF < c.val.toNat ∧ c.val.toNat < 0x110000) := c.valid
  obtain ⟨v,value⟩ : ∃ v, v = c.val.toNat := ⟨_,rfl⟩
  have char : c = Char.ofNat v := by rw [value]; exact (Char.ofNat_toNat c).symm
  rw [← value] at valid
  by_cases one : v < 0x80
  · have byte : (UInt8.ofNat v).toNat = v := by rw [UInt8.toNat_ofNat']; omega
    have coded : String.utf8EncodeChar c = [.ofNat v] := by
      rw [char]; simpa only [byte] using encodeChar_ascii (b:=.ofNat v) (by omega)
    rw [coded]
    simp [run,step,opening,byte,one,← char]
  by_cases two : v < 0x800
  · obtain ⟨a,first⟩ : ∃ a : UInt8, a.toNat = 0xC0+v/64 := ⟨.ofNat (0xC0+v/64),by rw [UInt8.toNat_ofNat']; omega⟩
    obtain ⟨b,second⟩ : ∃ b : UInt8, b.toNat = 0x80+v%64 := ⟨.ofNat (0x80+v%64),by rw [UInt8.toNat_ofNat']; omega⟩
    rw [encodeChar_two (c:=c) (a:=a) (b:=b) (by omega) (by omega) (by omega) (by omega),
      run_lead (by omega) (lead_two first (by omega) (by omega))]
    have done := accept_inside (o:=⟨v/64,0,0x80,0xBF,by decide⟩) second (by omega) (by simp) (by simp; omega)
    have sum : v/64*64+v%64 = v := by omega
    simp [run,step,done,sum,← char]
  by_cases three : v < 0x10000
  · obtain ⟨a,first⟩ : ∃ a : UInt8, a.toNat = 0xE0+v/4096 := ⟨.ofNat (0xE0+v/4096),by rw [UInt8.toNat_ofNat']; omega⟩
    obtain ⟨b,second⟩ : ∃ b : UInt8, b.toNat = 0x80+v/64%64 := ⟨.ofNat (0x80+v/64%64),by rw [UInt8.toNat_ofNat']; omega⟩
    obtain ⟨d,third⟩ : ∃ d : UInt8, d.toNat = 0x80+v%64 := ⟨.ofNat (0x80+v%64),by rw [UInt8.toNat_ofNat']; omega⟩
    obtain ⟨l,h,floor,begun,low,high⟩ := lead_three first (by omega)
    rw [encodeChar_three (c:=c) (a:=a) (b:=b) (d:=d) (by omega) (by omega) (by omega) (by omega) (by omega),
      run_lead (by omega) begun]
    have more := accept_inside (o:=⟨v/4096,1,l,h,floor⟩) second (by omega)
      (by dsimp only; split at low <;> omega) (by dsimp only; split at high <;> omega)
    have done := accept_inside (o:=⟨v/4096*64+v/64%64,0,0x80,0xBF,by decide⟩) third (by omega) (by simp) (by simp; omega)
    have sum : (v/4096*64+v/64%64)*64+v%64 = v := by omega
    simp [run,step,more,done,sum,← char]
  · obtain ⟨a,first⟩ : ∃ a : UInt8, a.toNat = 0xF0+v/262144 := ⟨.ofNat (0xF0+v/262144),by rw [UInt8.toNat_ofNat']; omega⟩
    obtain ⟨b,second⟩ : ∃ b : UInt8, b.toNat = 0x80+v/4096%64 := ⟨.ofNat (0x80+v/4096%64),by rw [UInt8.toNat_ofNat']; omega⟩
    obtain ⟨d,third⟩ : ∃ d : UInt8, d.toNat = 0x80+v/64%64 := ⟨.ofNat (0x80+v/64%64),by rw [UInt8.toNat_ofNat']; omega⟩
    obtain ⟨e,fourth⟩ : ∃ e : UInt8, e.toNat = 0x80+v%64 := ⟨.ofNat (0x80+v%64),by rw [UInt8.toNat_ofNat']; omega⟩
    obtain ⟨l,h,floor,begun,low,high⟩ := lead_four first (by omega)
    rw [encodeChar_four (c:=c) (a:=a) (b:=b) (d:=d) (e:=e) (by omega) (by omega) (by omega) (by omega) (by omega) (by omega),
      run_lead (by omega) begun]
    have more := accept_inside (o:=⟨v/262144,2,l,h,floor⟩) second (by omega)
      (by dsimp only; split at low <;> omega) (by dsimp only; split at high <;> omega)
    have again := accept_inside (o:=⟨v/262144*64+v/4096%64,1,0x80,0xBF,by decide⟩) third (by omega) (by simp) (by simp; omega)
    have done := accept_inside (o:=⟨(v/262144*64+v/4096%64)*64+v/64%64,0,0x80,0xBF,by decide⟩) fourth (by omega)
      (by simp) (by simp; omega)
    have sum : ((v/262144*64+v/4096%64)*64+v/64%64)*64+v%64 = v := by omega
    simp [run,step,more,again,done,sum,← char]

theorem run_encode (t : Text) :
    run none (encode t) = (t.map (fun c => .scalar (String.utf8EncodeChar c) c),none) := by
  induction t with
  | nil => rfl
  | cons c rest ih =>
    have split : encode (c::rest) = String.utf8EncodeChar c ++ encode rest := rfl
    rw [split,run_append,run_encodeChar,ih]
    rfl

theorem segments_encode (t : Text) : segments (encode t) = t.map (fun c => .scalar (String.utf8EncodeChar c) c) := by
  simp [segments,run_encode,close]

theorem lossy_encode (t : Text) : lossy (encode t) = t := by
  simp [lossy,segments_encode,Segment.char,Function.comp_def]

theorem fromUtf8_encode (t : Text) : fromUtf8 (encode t) = .ok t := by
  have intact : Intact (segments (encode t)) := by
    intro s member
    rw [segments_encode] at member
    obtain ⟨c,_,rfl⟩ := List.mem_map.mp member
    rfl
  rw [(fromUtf8_intact _).mpr intact,lossy_encode]

-- Text without replacement characters stands in the bytes exactly as encoded.
theorem lossy_infix (whole : lossy bs = pre ++ needle ++ post) (plain : replacement ∉ needle) :
    ∃ x y, bs = x ++ encode needle ++ y := by
  obtain ⟨front,back,split,middle,rfl⟩ := List.map_eq_append_iff.mp whole
  obtain ⟨first,inner,rfl,rfl,rfl⟩ := List.map_eq_append_iff.mp middle
  have coded : encode (inner.map Segment.char) = inner.flatMap Segment.bytes := by
    unfold encode
    rw [List.flatMap_map]
    apply List.flatMap_congr
    intro s member
    cases s with
    | scalar bytes c =>
      have inside : .scalar bytes c ∈ segments bs := by rw [split]; simp [member]
      exact segments_scalar inside
    | broken bytes => exact absurd (List.mem_map.mpr ⟨_,member,rfl⟩) plain
  refine ⟨first.flatMap Segment.bytes,back.flatMap Segment.bytes,?_⟩
  have bytes := segments_bytes bs
  rw [split] at bytes
  rw [coded]
  simpa using bytes.symm

theorem encode_ascii (ascii : ∀ c ∈ t, c.toNat < 0x80) : encode t = t.map (fun c => UInt8.ofNat c.toNat) := by
  induction t with
  | nil => rfl
  | cons c t ih =>
    have small := ascii c (by simp)
    have byte : (UInt8.ofNat c.toNat).toNat = c.toNat := by rw [UInt8.toNat_ofNat']; omega
    have coded := encodeChar_ascii (b:=.ofNat c.toNat) (by omega)
    rw [byte,Char.ofNat_toNat] at coded
    have rest := ih fun c member => ascii c (List.mem_cons_of_mem _ member)
    simp only [encode,List.flatMap_cons,List.map_cons,coded] at rest ⊢
    rw [rest]
    rfl

theorem ascii_encode (ascii : b.toNat < 0x80) (member : b ∈ encode t) : Char.ofNat b.toNat ∈ t := by
  obtain ⟨front,back,split⟩ := List.append_of_mem member
  have segs := segments_encode t
  rw [split,Seam.before_ascii front ascii back,segments_ascii ascii] at segs
  have inside : Segment.scalar [b] (Char.ofNat b.toNat) ∈ t.map (fun c => .scalar (String.utf8EncodeChar c) c) := by
    rw [← segs]; simp
  obtain ⟨c,member,same⟩ := List.mem_map.mp inside
  rwa [(Segment.scalar.inj same).2] at member

-- A sequence cut short by an ASCII byte.
theorem fromUtf8_cut (held : run none q = ([],some h)) (ascii : c.toNat < 0x80) (rest : Bytes) :
    fromUtf8 (q++c::rest) = .error ⟨0,some q.length⟩ := by
  have bytes := run_bytes none q
  simp only [held,heldBytes_none,heldBytes_some,List.flatMap_nil,List.nil_append] at bytes
  have reached : check 0 none (q++c::rest) = some ⟨0,some h.bytes.length⟩ := by
    rw [check_quiet held,check,step_ascii _ ascii]
    rfl
  rw [fromUtf8,reached,bytes]

theorem lossy_length (bs : Bytes) : (lossy bs).length ≤ bs.length := by
  have each : ∀ segs : List Segment, (∀ s ∈ segs, s.bytes ≠ []) → segs.length ≤ (segs.flatMap Segment.bytes).length := by
    intro segs nonempty
    induction segs with
    | nil => simp
    | cons s segs ih =>
      have some := List.length_pos_iff.mpr (nonempty s (by simp))
      have rest := ih fun s member => nonempty s (List.mem_cons_of_mem _ member)
      simp only [List.flatMap_cons,List.length_append,List.length_cons]
      omega
  have bound := each (segments bs) fun s member => segments_nonempty member
  rw [segments_bytes] at bound
  simpa [lossy] using bound

theorem encode_append (a b : Text) : encode (a++b) = encode a ++ encode b := by simp [encode]

-- The front of one character, short of the whole.
theorem lossy_cut (whole : String.utf8EncodeChar c = front ++ back) (some : front ≠ []) (more : back ≠ []) : lossy front = [replacement] := by
  have split := run_append none front back
  rw [← whole,run_encodeChar] at split
  have bytes := run_bytes none front
  have quiet : (run none front).1 = [] := by
    rcases List.append_eq_singleton_iff.mp (congrArg Prod.fst split).symm with ⟨none,_⟩ | ⟨one,_⟩
    · exact none
    · rw [one] at bytes
      have lengths := congrArg List.length bytes
      have wholeLengths := congrArg List.length whole
      have left := List.length_pos_iff.mpr more
      simp only [List.flatMap_cons,List.flatMap_nil,Segment.bytes,heldBytes_none,List.nil_append,List.append_nil,List.length_append] at lengths wholeLengths
      omega
  rw [quiet] at bytes
  cases held : (run none front).2 with
  | none =>
    rw [held] at bytes
    exact absurd bytes.symm some
  | some h =>
    rw [lossy,segments,quiet,held]
    rfl

theorem lossy_front (t : Text) (bs : Bytes) : lossy (encode t ++ bs) = t ++ lossy bs := by
  rw [Seam.lossy (.of_closed (by rw [run_encode]) bs),lossy_encode]

-- A cut inside an encoded text is inside one of its characters, or in front of it.
theorem cut_char (inside : n < (encode t).length) : ∃ front c rest, t = front ++ c :: rest ∧
    (encode front).length ≤ n ∧ n < (encode front).length + (String.utf8EncodeChar c).length := by
  induction t generalizing n with
  | nil => exact absurd inside (Nat.not_lt_zero n)
  | cons c t ih =>
    by_cases here : n < (String.utf8EncodeChar c).length
    · exact ⟨[],c,t,rfl,Nat.zero_le n,by rw [show encode [] = [] from rfl]; simpa using here⟩
    · have split : encode (c::t) = String.utf8EncodeChar c ++ encode t := rfl
      rw [split,List.length_append] at inside
      obtain ⟨front,d,rest,rfl,low,high⟩ := ih (n:=n - (String.utf8EncodeChar c).length) (by omega)
      refine ⟨c::front,d,rest,rfl,?_,?_⟩
      · rw [show encode (c::front) = String.utf8EncodeChar c ++ encode front from rfl,List.length_append]
        omega
      · rw [show encode (c::front) = String.utf8EncodeChar c ++ encode front from rfl,List.length_append]
        omega

-- A text that is cut inside its last character.
theorem lossy_take (low : (encode front).length < n) (high : n < (encode front).length + (String.utf8EncodeChar c).length) (rest : Text) :
    lossy ((encode (front ++ c :: rest)).take n) = front ++ [replacement] := by
  have cut : (encode (front ++ c :: rest)).take n = encode front ++ (String.utf8EncodeChar c).take (n - (encode front).length) := by
    rw [encode_append,List.take_append,List.take_of_length_le (Nat.le_of_lt low)]
    change _ ++ (String.utf8EncodeChar c ++ encode rest).take _ = _
    rw [List.take_append_of_le_length (by omega)]
  have some : (String.utf8EncodeChar c).take (n - (encode front).length) ≠ [] := by
    intro none
    have length := congrArg List.length none
    rw [List.length_take,List.length_nil] at length
    omega
  have more : (String.utf8EncodeChar c).drop (n - (encode front).length) ≠ [] := by
    intro none
    have length := congrArg List.length none
    rw [List.length_drop,List.length_nil] at length
    omega
  rw [cut,lossy_front,lossy_cut (List.take_append_drop _ _).symm some more]

-- What is read up to a bound and encoded again is the whole where it is valid and
-- not longer, or where the cut is inside a replacement character at its end.
theorem reencode_iff (n : Nat) (bs : Bytes) : encode (lossy (bs.take n)) = bs ↔ ∃ t, encode t = bs ∧
    (bs.length ≤ n ∨ ∃ front, t = front ++ [replacement] ∧ (encode front).length < n) := by
  constructor
  · intro same
    refine ⟨_,same,?_⟩
    by_cases short : bs.length ≤ n
    · exact .inl short
    · right
      generalize read : lossy (bs.take n) = t at same ⊢
      subst same
      obtain ⟨front,c,rest,rfl,low,high⟩ := cut_char (Nat.lt_of_not_le short)
      rcases Nat.eq_or_lt_of_le low with here | below
      · rw [encode_append,← here,List.take_left',lossy_encode] at read
        · have lengths := congrArg List.length read
          rw [List.length_append,List.length_cons] at lengths
          omega
        · rfl
      · rw [lossy_take below high rest] at read
        exact ⟨front,by rw [read],below⟩
  · rintro ⟨t,rfl,short | ⟨front,rfl,low⟩⟩
    · rw [List.take_of_length_le short,lossy_encode]
    · by_cases short : (encode (front ++ [replacement])).length ≤ n
      · rw [List.take_of_length_le short,lossy_encode]
      · have single : encode [replacement] = String.utf8EncodeChar replacement := List.append_nil _
        rw [encode_append,List.length_append,single] at short
        rw [lossy_take low (by omega) []]

end PrincessIDE.Utf8
