import Mathlib.Algebra.Ring.Nat
import PrincessIDE.Foundation.Overlay
import PrincessIDE.Foundation.Str

namespace PrincessIDE.MonitorDump
open Utf8 Str Overlay

abbrev Byte := BitVec 8

-- An address and the texts behind its colon.
structure Row where
  base : Nat
  tokens : List Text
deriving DecidableEq, Repr

structure Word where
  address : Nat
  value : Nat
  width : Nat
deriving DecidableEq, Repr

def readRowHead (line : Text) : Option Row := do
  let (addressPart,valuesPart) ← splitOnce [':'] line
  let base ← fromStrRadix 16 u64 (trimStartMatches "0x".toList (trim addressPart))
  return ⟨base,splitWhitespace valuesPart⟩

def rows (text : Text) : List Row := (lines text).filterMap fun line => readRowHead (trim line)

def digits (token : Text) : Text := trimStartMatches "0x".toList (trim token)

def tokenWidth (token : Text) : Nat := ((encode (digits token)).length+1)/2

-- The value and the width of a token that is taken for a word.
def readToken (token : Text) : Option (Nat × Nat) :=
  if digits token = [] ∨ ¬ (digits token).all isHexDigit ∨ tokenWidth token > 8 then none
  else (fromStrRadix 16 u64 (digits token)).map fun value => (value,tokenWidth token)

-- An addition of 64-bit numbers, which panics on overflow in a build that
-- checks for it and wraps in one that does not.
def add (overflowChecks : Bool) (a b : Nat) : Option Nat :=
  if a+b < u64 then some (a+b) else if overflowChecks then none else some (a+b-u64)

def readRow (overflowChecks : Bool) : Nat → List Text → Option (List Word)
  | _,[] => some []
  | cursor,token :: rest => match readToken token with
    | none => readRow overflowChecks cursor rest
    | some (value,width) => do
      let next ← add overflowChecks cursor width
      let words ← readRow overflowChecks next rest
      return ⟨cursor,value,width⟩ :: words

def readRows (overflowChecks : Bool) : List Row → Option (List Word)
  | [] => some []
  | row :: rest => do
    let words ← readRow overflowChecks row.base row.tokens
    let more ← readRows overflowChecks rest
    return words ++ more

-- `value.to_le_bytes()[..width]`
def Word.bytes (word : Word) : List Byte := ((List.range 8).map fun i => BitVec.ofNat 8 (word.value/256^i)).take word.width

def stops (overflowChecks : Bool) : List Word → Option (List Nat)
  | [] => some []
  | word :: rest => do
    let stop ← add overflowChecks word.address word.width
    let more ← stops overflowChecks rest
    return stop :: more

-- The slice to be written ends where the sum says; one that starts behind its
-- end is a panic.
def lay (overflowChecks : Bool) (base : Nat) (buf : List Byte) (word : Word) : Option (List Byte) := do
  let offset := word.address - base
  let stop ← add overflowChecks offset word.width
  if stop > buf.length then return buf
  else if offset > stop then none
  else return overlay buf offset word.bytes

def assemble (overflowChecks : Bool) (words : List Word) (start : Nat) : Option (List Byte) :=
  if words = [] then some []
  else do
    let lowest := (words.map Word.address).min?.getD start
    let ends ← stops overflowChecks words
    let highest := ends.max?.getD start
    let base := min lowest start
    let span := highest - base
    if span = 0 ∨ span > 4096 then return []
    else
      let buf ← words.foldlM (lay overflowChecks base) (List.replicate span 0)
      let skip := start - base
      return if skip ≥ buf.length then [] else buf.drop skip

-- No answer is a panic.
def parseMonitorXp (overflowChecks : Bool) (text : Text) (start : Nat) : Option (List Byte) := do
  let words ← readRows overflowChecks (rows text)
  assemble overflowChecks words start

-- What the monitor printed: the tokens of a row stand for the bytes from its
-- address on, two digits for each, whether they can be read or not.
def printedRow : Nat → List Text → List Word
  | _,[] => []
  | address,token :: rest => match readToken token with
    | none => printedRow (address+tokenWidth token) rest
    | some (value,width) => ⟨address,value,width⟩ :: printedRow (address+width) rest

def printed (text : Text) : List Word := (rows text).flatMap fun row => printedRow row.base row.tokens

def Word.stop (word : Word) : Nat := word.address+word.width

def Word.Shows (word : Word) (address : Nat) (byte : Byte) : Prop :=
  word.address ≤ address ∧ word.bytes[address-word.address]? = some byte

def Printed (text : Text) (address : Nat) (byte : Byte) : Prop := ∃ word ∈ printed text, word.Shows address byte

instance (word : Word) (address : Nat) (byte : Byte) : Decidable (word.Shows address byte) := by
  unfold Word.Shows; infer_instance

instance (text : Text) (address : Nat) (byte : Byte) : Decidable (Printed text address byte) := by
  unfold Printed; infer_instance

-- Every byte reported is one printed for its address, and the words it was
-- taken from lie where they were printed.
def Faithful (overflowChecks : Bool) (text : Text) (start : Nat) (bytes : List Byte) : Prop :=
  (∀ k byte, bytes[k]? = some byte → Printed text (start+k) byte) ∧ readRows overflowChecks (rows text) = some (printed text)

-- No word stands behind a token that was rejected, or past the end of the
-- address space.
def StraightFrom (base : Nat) (tokens : List Text) : Prop := ∀ before token after, tokens = before ++ token :: after →
  (readToken token).isSome → (∀ skipped ∈ before, readToken skipped = none → tokenWidth skipped = 0) ∧
    base + (before.map tokenWidth).sum < u64

def Straight (text : Text) : Prop := ∀ row ∈ rows text, StraightFrom row.base row.tokens

-- From the start to the end of the last word there is no hole: a word covers
-- every address, or a zero was printed there.
def Covered (text : Text) (start : Nat) : Prop := ∀ address, start ≤ address →
  (∃ word ∈ printed text, word.stop < u64 ∧ address < word.stop) →
    (∃ word ∈ printed text, word.stop < u64 ∧ word.address ≤ address ∧ address < word.stop) ∨ Printed text address 0

example : parseMonitorXp true "0000000000001000: 0x12 0x34 0x56\r\n".toList 0x1000 = some [0x12,0x34,0x56] := by decide +kernel

variable {words : List Word}

-- A word as a reader of rows makes it.
structure Word.Plain (word : Word) : Prop where
  address : word.address < u64
  wide : 1 ≤ word.width
  narrow : word.width ≤ 8

theorem readToken_some (read : readToken token = some (value,width)) : width = tokenWidth token ∧ 1 ≤ width ∧ width ≤ 8 := by
  unfold readToken at read
  split at read
  · cases read
  · rename_i accepted
    simp only [not_or,Nat.not_lt] at accepted
    simp only [Option.map_eq_some_iff,Prod.mk.injEq] at read
    obtain ⟨v,-,-,rfl⟩ := read
    refine ⟨rfl,?_,accepted.2.2⟩
    cases shown : digits token with
    | nil => exact absurd shown accepted.1
    | cons c rest =>
      have one := String.utf8EncodeChar_ne_nil (c:=c)
      have some := List.length_pos_of_ne_nil one
      simp only [tokenWidth,shown,encode,List.flatMap_cons,List.length_append]
      omega

theorem add_some (added : add checks a b = some c) : (a+b < u64 ∧ c = a+b) ∨ (u64 ≤ a+b ∧ c = a+b-u64) := by
  unfold add at added
  split at added
  · rename_i small
    exact .inl ⟨small,(Option.some.inj added).symm⟩
  · rename_i large
    split at added
    · cases added
    · exact .inr ⟨Nat.le_of_not_lt large,(Option.some.inj added).symm⟩

theorem add_small (small : a+b < u64) : add checks a b = some (a+b) := if_pos small

-- A round of `readRow`, by what became of its token.
theorem readRow_cons (read : readRow checks cursor (token::rest) = some words) :
    (readToken token = none ∧ readRow checks cursor rest = some words) ∨
      ∃ value width next others, readToken token = some (value,width) ∧ add checks cursor width = some next ∧
        readRow checks next rest = some others ∧ words = ⟨cursor,value,width⟩ :: others := by
  rw [readRow] at read
  cases taken : readToken token with
  | none => rw [taken] at read; exact .inl ⟨rfl,read⟩
  | some found =>
    obtain ⟨value,width⟩ := found
    simp only [taken,bind,Option.bind_eq_some_iff] at read
    obtain ⟨next,added,others,later,same⟩ := read
    cases same
    exact .inr ⟨value,width,next,others,rfl,added,later,rfl⟩

theorem next_small (small : cursor < u64) (narrow : width ≤ 8) (added : add checks cursor width = some next) : next < u64 := by
  have bound : u64 = 2^64 := rfl
  rcases add_some added with ⟨_,_⟩ | ⟨_,_⟩ <;> omega

theorem readRow_plain (small : cursor < u64) (read : readRow checks cursor tokens = some words) : ∀ word ∈ words, word.Plain := by
  induction tokens generalizing cursor words with
  | nil => cases read; simp
  | cons token rest ih =>
    rcases readRow_cons read with ⟨_,later⟩ | ⟨value,width,next,others,taken,added,later,rfl⟩
    · exact ih small later
    · obtain ⟨-,wide,narrow⟩ := readToken_some taken
      intro word member
      rcases List.mem_cons.mp member with rfl | other
      · exact ⟨small,wide,narrow⟩
      · exact ih (next_small small narrow added) later word other

-- Behind a reader that fell short of the row nothing is placed right any more.
theorem readRow_behind (short : cursor < address) (small : cursor < u64) (read : readRow checks cursor tokens = some words) :
    words = printedRow address tokens ↔ ∀ token ∈ tokens, readToken token = none := by
  induction tokens generalizing cursor address words with
  | nil => cases read; simp [printedRow]
  | cons token rest ih =>
    rcases readRow_cons read with ⟨rejected,later⟩ | ⟨value,width,next,others,taken,added,later,rfl⟩
    · simp only [printedRow,rejected,List.forall_mem_cons,true_and]
      exact ih (by omega) small later
    · simp only [printedRow,taken,List.cons.injEq,Word.mk.injEq,List.forall_mem_cons,reduceCtorEq,false_and,iff_false]
      omega

theorem straight_nil (base : Nat) : StraightFrom base [] := by
  intro before token after split
  cases before <;> cases split

theorem straight_rejected (rejected : readToken token = none) :
    StraightFrom base (token::rest) ↔ (∀ later ∈ rest, readToken later = none) ∨
      (tokenWidth token = 0 ∧ StraightFrom base rest) := by
  constructor
  · intro straight
    by_cases none : ∀ later ∈ rest, readToken later = .none
    · exact .inl none
    · simp only [not_forall] at none
      obtain ⟨later,member,read⟩ := none
      obtain ⟨before,after,split⟩ := List.append_of_mem member
      have here := straight (token::before) later after (by rw [split]; rfl) (Option.isSome_iff_ne_none.mpr read)
      have zero := here.1 token List.mem_cons_self rejected
      refine .inr ⟨zero,?_⟩
      intro before token' after split read
      have there := straight (token::before) token' after (by rw [split]; rfl) read
      refine ⟨fun skipped member => there.1 skipped (List.mem_cons_of_mem _ member),?_⟩
      simpa [zero] using there.2
  · intro either before later after split read
    cases before with
    | nil =>
      cases split
      rw [rejected] at read
      cases read
    | cons first before =>
      cases split
      rcases either with none | ⟨zero,straight⟩
      · rw [none later (by simp)] at read
        cases read
      · obtain ⟨skips,small⟩ := straight before later after rfl read
        refine ⟨?_,by simpa [zero] using small⟩
        intro skipped member
        rcases List.mem_cons.mp member with rfl | other
        · exact fun _ => zero
        · exact skips skipped other

theorem straight_taken (small : base < u64) (taken : readToken token = some (value,width)) :
    StraightFrom base (token::rest) ↔ StraightFrom (base+width) rest := by
  have wide := (readToken_some taken).1
  constructor
  · intro straight before later after split read
    obtain ⟨skips,inside⟩ := straight (token::before) later after (by rw [split]; rfl) read
    refine ⟨fun skipped member => skips skipped (List.mem_cons_of_mem _ member),?_⟩
    simpa [wide,Nat.add_assoc] using inside
  · intro straight before later after split read
    cases before with
    | nil => exact ⟨by simp,by simpa using small⟩
    | cons first before =>
      cases split
      obtain ⟨skips,inside⟩ := straight before later after rfl read
      refine ⟨?_,by simpa [wide,Nat.add_assoc] using inside⟩
      intro skipped member
      rcases List.mem_cons.mp member with rfl | other
      · intro rejected
        rw [taken] at rejected
        cases rejected
      · exact skips skipped other

-- By induction on the tokens: the cursor is at the address printed until a token
-- is rejected or the address space ends.
theorem readRow_straight (small : cursor < u64) (read : readRow checks cursor tokens = some words) :
    words = printedRow cursor tokens ↔ StraightFrom cursor tokens := by
  induction tokens generalizing cursor words with
  | nil => cases read; simp [printedRow,straight_nil]
  | cons token rest ih =>
    rcases readRow_cons read with ⟨rejected,later⟩ | ⟨value,width,next,others,taken,added,later,rfl⟩
    · rw [straight_rejected rejected]
      simp only [printedRow,rejected]
      rcases Nat.eq_zero_or_pos (tokenWidth token) with zero | some
      · rw [zero,Nat.add_zero,ih small later]
        simp only [true_and]
        refine ⟨Or.inr,fun either => either.elim ?_ id⟩
        intro none before token after split read
        rw [none token (by rw [split]; simp)] at read
        cases read
      · rw [readRow_behind (Nat.lt_add_of_pos_right some) small later]
        refine ⟨Or.inl,fun either => either.elim id ?_⟩
        intro zero
        omega
    · rw [straight_taken small taken]
      simp only [printedRow,taken,List.cons.injEq,true_and]
      obtain ⟨-,wide,narrow⟩ := readToken_some taken
      rcases add_some added with ⟨inside,same⟩ | ⟨beyond,same⟩
      · subst same
        exact ih inside later
      · have bound : u64 = 2^64 := rfl
        rw [readRow_behind (by omega) (by omega) later]
        constructor
        · intro none before token after split read
          rw [none token (by rw [split]; simp)] at read
          cases read
        · intro straight token member
          obtain ⟨before,after,split⟩ := List.append_of_mem member
          by_contra read
          have := (straight before token after split (Option.isSome_iff_ne_none.mpr read)).2
          omega

theorem readRow_length (read : readRow checks cursor tokens = some words) (address : Nat) :
    words.length = (printedRow address tokens).length := by
  induction tokens generalizing cursor address words with
  | nil => cases read; rfl
  | cons token rest ih =>
    rcases readRow_cons read with ⟨rejected,later⟩ | ⟨value,width,next,others,taken,added,later,rfl⟩
    · simp only [printedRow,rejected]
      exact ih later _
    · simp only [printedRow,taken,List.length_cons]
      rw [ih later (address+width)]

theorem rows_base (member : row ∈ rows text) : row.base < u64 := by
  obtain ⟨line,-,read⟩ := List.mem_filterMap.mp member
  simp only [readRowHead,bind,Option.bind_eq_some_iff] at read
  obtain ⟨⟨addressPart,valuesPart⟩,-,base,number,same⟩ := read
  cases same
  exact fromStrRadix_lt (by decide) number

theorem readRows_cons (read : readRows checks (row::rest) = some words) : ∃ first more, readRow checks row.base row.tokens = some first ∧
    readRows checks rest = some more ∧ words = first ++ more := by
  simp only [readRows,bind,Option.bind_eq_some_iff] at read
  obtain ⟨first,here,more,later,same⟩ := read
  cases same
  exact ⟨first,more,here,later,rfl⟩

theorem readRows_plain {rs : List Row} (small : ∀ row ∈ rs, row.base < u64) (read : readRows checks rs = some words) :
    ∀ word ∈ words, word.Plain := by
  induction rs generalizing words with
  | nil => cases read; simp
  | cons row rest ih =>
    obtain ⟨first,more,here,later,rfl⟩ := readRows_cons read
    intro word member
    rcases List.mem_append.mp member with front | back
    · exact readRow_plain (small row List.mem_cons_self) here word front
    · exact ih (fun row member => small row (List.mem_cons_of_mem _ member)) later word back

theorem readRows_straight {rs : List Row} (small : ∀ row ∈ rs, row.base < u64) (read : readRows checks rs = some words) :
    words = rs.flatMap (fun row => printedRow row.base row.tokens) ↔ ∀ row ∈ rs, StraightFrom row.base row.tokens := by
  induction rs generalizing words with
  | nil => cases read; simp
  | cons row rest ih =>
    obtain ⟨first,more,here,later,rfl⟩ := readRows_cons read
    have parts : first ++ more = printedRow row.base row.tokens ++ rest.flatMap (fun row => printedRow row.base row.tokens) ↔
        first = printedRow row.base row.tokens ∧ more = rest.flatMap (fun row => printedRow row.base row.tokens) :=
      ⟨fun same => List.append_inj same (readRow_length here row.base),fun same => by rw [← same.1,← same.2]⟩
    rw [List.flatMap_cons,parts,readRow_straight (small row List.mem_cons_self) here,
      ih (fun row member => small row (List.mem_cons_of_mem _ member)) later,List.forall_mem_cons]

theorem readWords_straight (read : readRows checks (rows text) = some words) : words = printed text ↔ Straight text :=
  readRows_straight (fun _ member => rows_base member) read

theorem stops_some (read : stops checks words = some ends) : ∀ stop, stop ∈ ends ↔ ∃ word ∈ words, add checks word.address word.width = some stop := by
  induction words generalizing ends with
  | nil => cases read; simp
  | cons word rest ih =>
    simp only [stops,bind,Option.bind_eq_some_iff] at read
    obtain ⟨first,added,more,later,same⟩ := read
    cases same
    intro stop
    simp only [List.mem_cons,ih later,exists_eq_or_imp,added,Option.some.injEq]
    exact or_congr_left eq_comm

theorem stops_all (read : stops checks words = some ends) (member : word ∈ words) : ∃ stop ∈ ends, add checks word.address word.width = some stop := by
  induction words generalizing ends with
  | nil => cases member
  | cons first rest ih =>
    simp only [stops,bind,Option.bind_eq_some_iff] at read
    obtain ⟨stop,added,more,later,same⟩ := read
    cases same
    rcases List.mem_cons.mp member with rfl | other
    · exact ⟨stop,List.mem_cons_self,added⟩
    · obtain ⟨found,inside,sum⟩ := ih later other
      exact ⟨found,List.mem_cons_of_mem _ inside,sum⟩

theorem Word.Plain.bytes_length {word : Word} (plain : word.Plain) : word.bytes.length = word.width := by
  have narrow := plain.narrow
  simp only [Word.bytes,List.length_take,List.length_map,List.length_range]
  omega

-- The writes a dump comes to: of the words that end inside the address space.
def writes (base : Nat) (words : List Word) : List (Nat × List Byte) :=
  (words.filter fun word => word.stop < u64).map fun word => (word.address-base,word.bytes)

-- A word is written where it ends inside the address space, and one that does
-- not is left out or ends in a panic.
theorem lay_some (plain : word.Plain) (above : base ≤ word.address) (added : add checks word.address word.width = some stop)
    (inside : stop ≤ highest) (small : highest < u64) (size : buf.length = highest-base) (laid : lay checks base buf word = some out) :
    (word.stop < u64 ∧ Inside buf.length (word.address-base,word.bytes) ∧ out = overlay buf (word.address-base) word.bytes) ∨
      (u64 ≤ word.stop ∧ word.stop-u64 < base ∧ out = buf) := by
  have bound : u64 = 2^64 := rfl
  have address := plain.address
  have narrow := plain.narrow
  have length := plain.bytes_length
  simp only [lay,bind,Option.bind_eq_some_iff] at laid
  obtain ⟨last,sum,laid⟩ := laid
  rw [size] at laid
  rcases add_some added with ⟨fits,same⟩ | ⟨beyond,same⟩
  · subst same
    have whole : last = word.address-base+word.width := by rcases add_some sum with ⟨_,_⟩ | ⟨_,_⟩ <;> omega
    rw [if_neg (by omega),if_neg (by omega)] at laid
    refine .inl ⟨fits,?_,(Option.some.inj laid).symm⟩
    rw [Inside,length,size]
    omega
  · rcases add_some sum with ⟨_,short⟩ | ⟨_,short⟩
    · rw [if_pos (by omega)] at laid
      exact .inr ⟨beyond,by simp only [Word.stop]; omega,(Option.some.inj laid).symm⟩
    · rw [if_neg (by omega),if_pos (by omega)] at laid
      cases laid

theorem layAll_some (plain : ∀ word ∈ words, word.Plain) (above : ∀ word ∈ words, base ≤ word.address)
    (ends : ∀ word ∈ words, ∃ stop ≤ highest, add checks word.address word.width = some stop) (small : highest < u64)
    (size : buf.length = highest-base) (laid : words.foldlM (lay checks base) buf = some out) :
    out = overlays buf (writes base words) ∧ (∀ write ∈ writes base words, Inside buf.length write) ∧
      ∀ word ∈ words, u64 ≤ word.stop → word.stop-u64 < base := by
  induction words generalizing buf with
  | nil => cases laid; simp [writes,overlays]
  | cons word rest ih =>
    simp only [List.foldlM_cons,bind,Option.bind_eq_some_iff] at laid
    obtain ⟨next,here,later⟩ := laid
    obtain ⟨stop,bounded,added⟩ := ends word List.mem_cons_self
    have rest_plain := fun other member => plain other (List.mem_cons_of_mem word member)
    have rest_above := fun other member => above other (List.mem_cons_of_mem word member)
    have rest_ends := fun other member => ends other (List.mem_cons_of_mem word member)
    rcases lay_some (plain word List.mem_cons_self) (above word List.mem_cons_self) added bounded small size here with
      ⟨fits,inside,rfl⟩ | ⟨beyond,low,rfl⟩
    · have kept := overlay_length inside
      obtain ⟨same,all,lows⟩ := ih rest_plain rest_above rest_ends (kept.trans size) later
      have split : writes base (word::rest) = (word.address-base,word.bytes) :: writes base rest := by simp [writes,fits]
      rw [split]
      refine ⟨same,?_,?_⟩
      · rw [kept] at all
        exact List.forall_mem_cons.mpr ⟨inside,all⟩
      · exact List.forall_mem_cons.mpr ⟨fun beyond => absurd fits (Nat.not_lt.mpr beyond),lows⟩
    · obtain ⟨same,all,lows⟩ := ih rest_plain rest_above rest_ends size later
      have split : writes base (word::rest) = writes base rest := by simp [writes,Nat.not_lt.mpr beyond]
      rw [split]
      exact ⟨same,all,List.forall_mem_cons.mpr ⟨fun _ => low,lows⟩⟩

-- What a dump reports, once it reports anything: the addresses from the start to
-- the last end of a word, and at each the byte of a word that covers it, or zero.
structure Reported (words : List Word) (start : Nat) (bytes : List Byte) : Prop where
  range : ∀ address, start ≤ address → (address-start < bytes.length ↔ ∃ word ∈ words, word.stop < u64 ∧ address < word.stop)
  byte : ∀ k byte, bytes[k]? = some byte →
    (∃ word ∈ words, word.stop < u64 ∧ word.Shows (start+k) byte) ∨
      ((∀ word ∈ words, word.stop < u64 → ¬ (word.address ≤ start+k ∧ start+k < word.stop)) ∧ byte = 0)

theorem highest_spec {xs : List Nat} (nonempty : xs ≠ []) (other : Nat) : xs.max?.getD other ∈ xs ∧ ∀ x ∈ xs, x ≤ xs.max?.getD other := by
  cases most : xs.max? with
  | none => exact absurd (List.max?_eq_none_iff.mp most) nonempty
  | some m => exact List.max?_eq_some_iff.mp most

theorem lowest_spec (xs : List Nat) (nonempty : xs ≠ []) (other : Nat) : ∀ x ∈ xs, xs.min?.getD other ≤ x := by
  cases least : xs.min? with
  | none => exact absurd (List.min?_eq_none_iff.mp least) nonempty
  | some m => exact (List.min?_eq_some_iff.mp least).2

-- The buffer behind a report: it spans the addresses from `base` to `highest`.
structure Assembled (words : List Word) (start base highest : Nat) : Prop where
  above : ∀ word ∈ words, base ≤ word.address
  below : base ≤ start
  inside : ∀ write ∈ writes base words, Inside (highest-base) write
  top : ∀ address, base ≤ address → (address < highest ↔ ∃ word ∈ words, word.stop < u64 ∧ address < word.stop)

def zeros (size : Nat) : List Byte := List.replicate size 0

-- The highest end is that of a word inside the address space: a wrapped end
-- would lie below the base.
theorem highest_top (member : last ∈ words) (added : add checks last.address last.width = some highest)
    (bounded : ∀ word ∈ words, ∃ stop ≤ highest, add checks word.address word.width = some stop)
    (lows : ∀ word ∈ words, u64 ≤ word.stop → word.stop-u64 < base) (above : base ≤ address) :
    address < highest ↔ ∃ word ∈ words, word.stop < u64 ∧ address < word.stop := by
  constructor
  · intro short
    have low := lows last member
    refine ⟨last,member,?_⟩
    rcases add_some added with ⟨fits,top⟩ | ⟨wraps,top⟩
    · simp only [Word.stop]
      omega
    · have := low wraps
      simp only [Word.stop] at this ⊢
      omega
  · intro found
    obtain ⟨word,member,fits,short⟩ := found
    obtain ⟨stop,bounded,added⟩ := bounded word member
    have whole : stop = word.stop := Option.some.inj (added.symm.trans (add_small fits))
    omega

theorem assemble_parts (plain : ∀ word ∈ words, word.Plain) (reported : assemble checks words start = some bytes)
    (filled : bytes ≠ []) : ∃ base highest, Assembled words start base highest ∧
      bytes = (overlays (zeros (highest-base)) (writes base words)).drop (start-base) := by
  unfold assemble at reported
  split at reported
  · cases reported
    exact absurd rfl filled
  rename_i nonempty
  simp only [bind,Option.bind_eq_some_iff] at reported
  obtain ⟨ends,stopped,reported⟩ := reported
  obtain ⟨first,inside⟩ := List.exists_mem_of_ne_nil _ nonempty
  obtain ⟨stop,stopMember,-⟩ := stops_all stopped inside
  obtain ⟨top,most⟩ := highest_spec (List.ne_nil_of_mem stopMember) start
  have least := lowest_spec (words.map Word.address) (by simpa using nonempty) start
  generalize (words.map Word.address).min?.getD start = lowest at reported least
  generalize ends.max?.getD start = highest at reported top most
  obtain ⟨last,lastMember,lastStop⟩ := (stops_some stopped highest).mp top
  split at reported
  · cases reported
    exact absurd rfl filled
  simp only [Option.bind_eq_some_iff] at reported
  obtain ⟨buf,laid,reported⟩ := reported
  have bounded : ∀ word ∈ words, ∃ stop ≤ highest, add checks word.address word.width = some stop := by
    intro word member
    obtain ⟨stop,found,added⟩ := stops_all stopped member
    exact ⟨stop,most stop found,added⟩
  have above : ∀ word ∈ words, min lowest start ≤ word.address := fun word member =>
    (Nat.min_le_left _ _).trans (least word.address (List.mem_map_of_mem member))
  have small := next_small (plain last lastMember).address (plain last lastMember).narrow lastStop
  obtain ⟨same,insides,lows⟩ := layAll_some plain above bounded small List.length_replicate laid
  rw [List.length_replicate] at insides
  refine ⟨min lowest start,highest,⟨above,Nat.min_le_right _ _,insides,fun address beyond => highest_top lastMember lastStop bounded lows beyond⟩,?_⟩
  split at reported
  · cases reported
    exact absurd rfl filled
  · cases reported
    rw [same]
    rfl

theorem Assembled.length (assembled : Assembled words start base highest) :
    (overlays (zeros (highest-base)) (writes base words)).length = highest-base := by
  rw [overlays_length _ (by rw [zeros,List.length_replicate]; exact assembled.inside),zeros,List.length_replicate]

theorem Assembled.byte (plain : ∀ word ∈ words, word.Plain) (assembled : Assembled words start base highest) {byte : Byte}
    (found : (overlays (zeros (highest-base)) (writes base words))[address-base]? = some byte) (beyond : base ≤ address) :
    (∃ word ∈ words, word.stop < u64 ∧ word.Shows address byte) ∨
      ((∀ word ∈ words, word.stop < u64 → ¬ (word.address ≤ address ∧ address < word.stop)) ∧ byte = 0) := by
  have place := (List.getElem?_eq_some_iff.mp found).1
  rw [assembled.length] at place
  have size : ∀ write ∈ writes base words, Inside (zeros (highest-base)).length write := by
    rw [zeros,List.length_replicate]
    exact assembled.inside
  rcases overlays_get _ size (address-base) with ⟨write,member,covered,value⟩ | ⟨none,value⟩
  · obtain ⟨word,held,rfl⟩ := List.mem_map.mp member
    obtain ⟨held,fits⟩ := List.mem_filter.mp held
    have above := assembled.above word held
    obtain ⟨low,-⟩ : word.address-base ≤ address-base ∧ _ := covered
    rw [found] at value
    refine .inl ⟨word,held,by simpa using fits,by omega,?_⟩
    rw [value]
    congr 1
    omega
  · rw [found,zeros,List.getElem?_replicate,if_pos place] at value
    refine .inr ⟨?_,Option.some.inj value⟩
    intro word member fits covers
    have above := assembled.above word member
    apply none (word.address-base,word.bytes) (List.mem_map.mpr ⟨word,List.mem_filter.mpr ⟨member,by simpa using fits⟩,rfl⟩)
    simp only [Covers,(plain word member).bytes_length,Word.stop] at covers ⊢
    omega

theorem assemble_reported (plain : ∀ word ∈ words, word.Plain) (reported : assemble checks words start = some bytes)
    (filled : bytes ≠ []) : Reported words start bytes := by
  obtain ⟨base,highest,assembled,rfl⟩ := assemble_parts plain reported filled
  have below := assembled.below
  refine ⟨?_,?_⟩
  · intro address after
    rw [← assembled.top address (below.trans after),List.length_drop,assembled.length]
    omega
  · intro k byte found
    rw [List.getElem?_drop,show start-base+k = start+k-base by omega] at found
    exact assembled.byte plain found (below.trans (Nat.le_add_right _ _))

theorem Word.Shows.covers {word : Word} {address : Nat} {byte : Byte} (plain : word.Plain) (shows : word.Shows address byte) : address < word.stop := by
  have place := (List.getElem?_eq_some_iff.mp shows.2).1
  have low := shows.1
  rw [plain.bytes_length] at place
  simp only [Word.stop]
  omega

theorem printed_iff (plain : ∀ word ∈ printed text, word.Plain) (reported : Reported (printed text) start bytes) :
    (∀ k byte, bytes[k]? = some byte → Printed text (start+k) byte) ↔ Covered text start := by
  constructor
  · intro faithful address after short
    have place := (reported.range address after).mpr short
    have found := List.getElem?_eq_getElem place
    rcases reported.byte _ _ found with ⟨word,member,fits,shows⟩ | ⟨none,zero⟩
    · rw [Nat.add_sub_cancel' after] at shows
      exact .inl ⟨word,member,fits,shows.1,shows.covers (plain word member)⟩
    · have here := faithful _ _ found
      rw [zero,Nat.add_sub_cancel' after] at here
      exact .inr here
  · intro covered k byte found
    rcases reported.byte k byte found with ⟨word,member,_,shows⟩ | ⟨none,rfl⟩
    · exact ⟨word,member,shows⟩
    · have place := (List.getElem?_eq_some_iff.mp found).1
      have short := (reported.range (start+k) (Nat.le_add_right _ _)).mp (by omega)
      rcases covered (start+k) (Nat.le_add_right _ _) short with ⟨word,member,fits,covers⟩ | zero
      · exact absurd covers (none word member fits)
      · exact zero

theorem parse_faithful_iff (overflowChecks : Bool) (text : Text) (start : Nat) (bytes : List Byte)
    (reported : parseMonitorXp overflowChecks text start = some bytes) (filled : bytes ≠ []) :
    Faithful overflowChecks text start bytes ↔ Straight text ∧ Covered text start := by
  simp only [parseMonitorXp,bind,Option.bind_eq_some_iff] at reported
  obtain ⟨words,read,assembled⟩ := reported
  have plain := readRows_plain (fun _ member => rows_base member) read
  rw [Faithful,read,Option.some.injEq,readWords_straight read,and_comm,and_congr_right_iff]
  intro straight
  obtain rfl := (readWords_straight read).mpr straight
  exact printed_iff plain (assemble_reported plain assembled filled)

theorem parse_faithful_words : Faithful true "0000000000001000: 0x3412 0x56
".toList 0x1000 [0x12,0x34,0x56] ↔
    Straight "0000000000001000: 0x3412 0x56
".toList ∧ Covered "0000000000001000: 0x3412 0x56
".toList 0x1000 :=
  parse_faithful_iff true _ 0x1000 [0x12,0x34,0x56] (by decide +kernel) (by decide)

-- A row that cannot be read leaves the address between the other two as a zero.
theorem parse_faithful_hole : ∃ bytes, parseMonitorXp true "1000: 0x12\n1001; 0x34\n1002: 0x56\n".toList 0x1000 = some bytes ∧
    ¬ ∀ k byte, bytes[k]? = some byte → Printed "1000: 0x12\n1001; 0x34\n1002: 0x56\n".toList (0x1000+k) byte := by
  refine ⟨[0x12,0,0x56],by decide +kernel,?_⟩
  intro faithful
  exact absurd (faithful 1 0 rfl) (by decide +kernel)

end PrincessIDE.MonitorDump
