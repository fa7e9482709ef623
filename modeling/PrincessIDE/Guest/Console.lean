import PrincessIDE.Foundation.Words
import Mathlib.Data.List.Forall2

namespace PrincessIDE.Console
open Utf8 Str

-- The fixture kernels' serial console. A C `char` is the character of its code,
-- and a C string is read up to its NUL.
def nul : Char := Char.ofNat 0

def cString (t : Text) : Text := t.takeWhile (· ≠ nul)

-- A string literal of the C sources.
def literal (s : String) : Text := s.toByteArray.data.toList.map fun b => Char.ofNat b.toNat

-- What the UART sends, a byte for each character.
def wire (t : Text) : Bytes := t.map fun c => UInt8.ofNat c.toNat

def serialPutc (c : Char) : Text := if c = '\n' then ['\r','\n'] else [c]

def serialPuts (s : Text) : Text := (cString s).flatMap serialPutc

def lowerDigits : Text := literal "0123456789abcdef"
def upperDigits : Text := literal "0123456789ABCDEF"

-- `while (value != 0)`: the lowest digit first, into a buffer with this much room.
def fill (digits : Text) (base : Nat) : Nat → Nat → Option Text
  | _,0 => some []
  | 0,_+1 => none
  | room+1,value+1 => do
    let digit ← digits[(value+1) % base]?
    let later ← fill digits base room ((value+1)/base)
    return digit :: later

def bufferRoom : Nat := 24

def buffer (digits : Text) (base value : Nat) : Option Text :=
  if value = 0 then some ['0'] else fill digits base bufferRoom value

def emitUint (value : BitVec 64) (base : Nat) (upper : Bool) (width : Nat) (padZero based : Bool) : Option Text := do
  let buf ← buffer (if upper then upperDigits else lowerDigits) base value.toNat
  let total := buf.length + if based then 2 else 0
  let zeros := if padZero && total < width then width-total else 0
  -- The zeros stand in front of the base as well.
  let base := if based then ['0',if upper then 'X' else 'x'] else []
  return List.replicate zeros '0' ++ base ++ buf.reverse

-- The arguments behind the format, each with the width that `va_arg` takes.
inductive VaArg where
  | string (s : Option Text)
  | word (v : BitVec 32)
  | long (v : BitVec 64)

def isDigit (c : Char) : Bool := '0'.toNat ≤ c.toNat && c.toNat ≤ '9'.toNat

def readFlag (p : Text) : Bool × Text := if p.head? = some '0' then (true,p.tail) else (false,p)

-- `none` from here on is behaviour that C leaves undefined: an `int` that
-- overflows, an argument of another width, a read behind the format's end.
def readWidth (width : Nat) : Text → Option (Nat × Text)
  | [] => some (width,[])
  | c :: p => if isDigit c then
      let next := width*10 + (c.toNat - '0'.toNat)
      if next < 2^31 then readWidth next p else none
    else some (width,c :: p)

def readLong : Text → Bool × Text
  | 'l' :: 'l' :: p => (true,p)
  | 'l' :: p => (true,p)
  | p => (false,p)

def takeSigned (isLong : Bool) : List VaArg → Option (Int × List VaArg)
  | .word v :: args => if isLong then none else some (v.toInt,args)
  | .long v :: args => if isLong then some (v.toInt,args) else none
  | _ => none

def takeUnsigned (isLong : Bool) : List VaArg → Option (BitVec 64 × List VaArg)
  | .word v :: args => if isLong then none else some (v.setWidth 64,args)
  | .long v :: args => if isLong then some (v,args) else none
  | _ => none

def printSigned (padZero : Bool) (width : Nat) (isLong : Bool) (args : List VaArg) : Option (Text × List VaArg) := do
  let (v,args) ← takeSigned isLong args
  if v = -(2^63 : Nat) then none
  let number ← emitUint (BitVec.ofNat 64 v.natAbs) 10 false width padZero false
  return ((if v < 0 then serialPutc '-' else []) ++ number,args)

def printUnsigned (base : Nat) (upper padZero : Bool) (width : Nat) (isLong : Bool) (args : List VaArg) : Option (Text × List VaArg) := do
  let (v,args) ← takeUnsigned isLong args
  return (← emitUint v base upper width padZero false,args)

-- `switch (*p)`: what the conversion prints, and the arguments behind its own.
def convert (padZero : Bool) (width : Nat) (isLong : Bool) (c : Char) (args : List VaArg) : Option (Text × List VaArg) :=
  if c = 's' then match args with
    | .string s :: args => some (serialPuts (s.getD (literal "(null)")),args)
    | _ => none
  else if c = 'c' then match args with
    | .word v :: args => some (serialPutc (Char.ofNat (v.toNat % 2^8)),args)
    | _ => none
  else if c = 'd' || c = 'i' then printSigned padZero width isLong args
  else if c = 'u' then printUnsigned 10 false padZero width isLong args
  else if c = 'x' || c = 'X' then printUnsigned 16 (c = 'X') padZero width isLong args
  else if c = 'p' then match args with
    | .long v :: args => (emitUint v 16 false 16 true true).map (·,args)
    | _ => none
  else some (serialPutc '%' ++ serialPutc c,args)

-- What stands behind a `%`: what it prints, the format and the arguments behind it.
def directive (p : Text) (args : List VaArg) : Option (Text × Text × List VaArg) :=
  if p.head? = some '%' then some (serialPutc '%',p.tail,args) else do
    let (padZero,p) := readFlag p
    let (width,p) ← readWidth 0 p
    let (isLong,p) := readLong p
    match p with
    | [] => none
    | c :: p => do
      if c = nul then none
      let (out,args) ← convert padZero width isLong c args
      return (out,p,args)

-- A round for each character the loop stops at.
def printfRounds : Nat → Text → List VaArg → Option Text
  | _,[],_ => some []
  | 0,_ :: _,_ => none
  | n+1,c :: p,args =>
    if c = nul then some []
    else if c ≠ '%' then (printfRounds n p args).map (serialPutc c ++ ·)
    else do
      let (out,p,args) ← directive p args
      let later ← printfRounds n p args
      return out ++ later

def serialPrintf (fmt : Text) (args : List VaArg) : Option Text := printfRounds fmt.length fmt args

-- A format as its pieces, each conversion with the argument it prints.
inductive Integer where
  | int (v : BitVec 32)
  | long (v : BitVec 64)
  | longLong (v : BitVec 64)

inductive Conversion where
  | string (s : Option Text)
  | char (v : BitVec 32)
  | signed (d : Bool) (v : Integer)
  | unsigned (v : Integer)
  | hex (upper : Bool) (v : Integer)
  | pointer (v : BitVec 64)

inductive Piece where
  | text (t : Text)
  | percent
  | conversion (padZero : Bool) (width : Nat) (c : Conversion)

namespace Integer

def marks : Integer → Text
  | .int _ => []
  | .long _ => ['l']
  | .longLong _ => ['l','l']

def isLong : Integer → Bool
  | .int _ => false
  | .long _ | .longLong _ => true

def arg : Integer → VaArg
  | .int v => .word v
  | .long v | .longLong v => .long v

def toNat : Integer → Nat
  | .int v => v.toNat
  | .long v | .longLong v => v.toNat

def toInt : Integer → Int
  | .int v => v.toInt
  | .long v | .longLong v => v.toInt

end Integer

namespace Conversion

def letter : Conversion → Char
  | .string _ => 's'
  | .char _ => 'c'
  | .signed d _ => if d then 'd' else 'i'
  | .unsigned _ => 'u'
  | .hex upper _ => if upper then 'X' else 'x'
  | .pointer _ => 'p'

def marks : Conversion → Text
  | .signed _ v | .unsigned v | .hex _ v => v.marks
  | .string _ | .char _ | .pointer _ => []

def isLong : Conversion → Bool
  | .signed _ v | .unsigned v | .hex _ v => v.isLong
  | .string _ | .char _ | .pointer _ => false

def arg : Conversion → VaArg
  | .string s => .string s
  | .char v => .word v
  | .signed _ v | .unsigned v | .hex _ v => v.arg
  | .pointer v => .long v

end Conversion

-- The digits of a number, with zeros in front where the format asks for them.
def digitsOf (base : Nat) (upper : Bool) (n : Nat) : Text := (Nat.toDigits base n).map fun c => if upper then c.toUpper else c

def numeral (base : Nat) (upper padZero : Bool) (width n : Nat) : Text :=
  (digitsOf base upper n).leftpad (if padZero then width else 0) '0'

def pointerText (v : BitVec 64) : Text := List.replicate (14-(Nat.toDigits 16 v.toNat).length) '0' ++ "0x".toList ++ Nat.toDigits 16 v.toNat

def Conversion.shown (padZero : Bool) (width : Nat) : Conversion → Text
  | .string s => serialPuts (s.getD (literal "(null)"))
  | .char v => serialPutc (Char.ofNat (v.toNat % 2^8))
  | .signed _ v => (if v.toInt < 0 then ['-'] else []) ++ numeral 10 false padZero width v.toInt.natAbs
  | .unsigned v => numeral 10 false padZero width v.toNat
  | .hex upper v => numeral 16 upper padZero width v.toNat
  | .pointer v => pointerText v

namespace Piece

def spelling : Piece → Text
  | .text t => t
  | .percent => ['%','%']
  | .conversion padZero width c => '%' :: ((if padZero then ['0'] else []) ++ (if width = 0 then [] else decimal width) ++ c.marks ++ [c.letter])

def args : Piece → List VaArg
  | .text _ | .percent => []
  | .conversion _ _ c => [c.arg]

def shown : Piece → Text
  | .text t => t.flatMap serialPutc
  | .percent => ['%']
  | .conversion padZero width c => c.shown padZero width

-- No conversion in a text, no width beyond an `int`, and no negation that overflows.
def WellFormed : Piece → Prop
  | .text t => '%' ∉ t ∧ nul ∉ t
  | .percent => True
  | .conversion _ width c => width < 2^31 ∧ match c with
    | .signed _ v => v.toInt ≠ -(2^63 : Nat)
    | _ => True

end Piece

-- The buffer is filled from the lowest digit, and 24 characters are enough.
theorem lowerDigits_get (small : d < 16) : lowerDigits[d]? = some d.digitChar := by
  have each : ∀ d : Fin 16, lowerDigits[d.val]? = some (Nat.digitChar d) := by decide
  exact each ⟨d,small⟩

theorem upperDigits_get (small : d < 16) : upperDigits[d]? = some d.digitChar.toUpper := by
  have each : ∀ d : Fin 16, upperDigits[d.val]? = some (Nat.digitChar d).toUpper := by decide
  exact each ⟨d,small⟩

theorem digits_get (upper : Bool) (small : d < 16) :
    (if upper then upperDigits else lowerDigits)[d]? = some (if upper then d.digitChar.toUpper else d.digitChar) := by
  cases upper with
  | true => exact upperDigits_get small
  | false => exact lowerDigits_get small

theorem fill_digits (upper : Bool) (two : 1 < base) (letters : base ≤ 16) (some : value ≠ 0) (fits : value < base^room) :
    fill (if upper then upperDigits else lowerDigits) base room value = .some (digitsOf base upper value).reverse := by
  induction room generalizing value with
  | zero =>
    simp only [Nat.pow_zero] at fits
    omega
  | succ room ih =>
    obtain ⟨value,rfl⟩ := Nat.exists_eq_succ_of_ne_zero some
    have last : (value+1) % base < 16 := Nat.lt_of_lt_of_le (Nat.mod_lt _ (by omega)) letters
    rw [fill,digits_get upper last]
    by_cases single : value+1 < base
    · have spent : (value+1)/base = 0 := Nat.div_eq_of_lt single
      simp only [spent,fill,digitsOf,Nat.toDigits_of_lt_base single,Nat.mod_eq_of_lt single]
      rfl
    · have more : (value+1)/base ≠ 0 := by
        have := Nat.div_pos (Nat.le_of_not_lt single) (by omega)
        omega
      have within : (value+1)/base < base^room := Nat.div_lt_of_lt_mul (by rwa [Nat.pow_succ,Nat.mul_comm] at fits)
      rw [ih more within]
      simp [digitsOf,Nat.toDigits_of_base_le two (Nat.le_of_not_lt single)]

theorem buffer_digits (upper : Bool) (value : BitVec 64) (kind : base = 10 ∨ base = 16) :
    buffer (if upper then upperDigits else lowerDigits) base value.toNat = some (digitsOf base upper value.toNat).reverse := by
  have two : 1 < base := by omega
  unfold buffer
  by_cases zero : value.toNat = 0
  · have plain : '0'.toUpper = '0' := by decide
    simp [zero,digitsOf,plain]
  · have fits : value.toNat < base^bufferRoom := by
      have small : 2^64 ≤ base^bufferRoom := by rcases kind with rfl | rfl <;> decide
      have := value.isLt
      omega
    rw [if_neg zero]
    exact fill_digits upper two (by omega) zero fits

-- What `emit_uint` sends, whatever the base and the case.
theorem emitUint_digits (value : BitVec 64) (upper : Bool) (width : Nat) (padZero based : Bool) (kind : base = 10 ∨ base = 16) :
    emitUint value base upper width padZero based =
      some (List.replicate (if padZero then width - ((digitsOf base upper value.toNat).length + if based then 2 else 0) else 0) '0' ++
        (if based then ['0',if upper then 'X' else 'x'] else []) ++ digitsOf base upper value.toNat) := by
  have zeros : ∀ total, (if padZero && decide (total < width) then width-total else 0) = if padZero then width-total else 0 := by
    intro total
    cases padZero with
    | false => rfl
    | true =>
      by_cases wide : total < width
      · simp [wide]
      · have none : width-total = 0 := by omega
        simp [wide,none]
  unfold emitUint
  rw [buffer_digits upper value kind,Option.bind_eq_bind,Option.bind_some,List.reverse_reverse,List.length_reverse]
  dsimp only
  rw [zeros]
  rfl

theorem emitUint_numeral (value : BitVec 64) (upper : Bool) (width : Nat) (padZero : Bool) (kind : base = 10 ∨ base = 16) :
    emitUint value base upper width padZero false = some (numeral base upper padZero width value.toNat) := by
  rw [emitUint_digits value upper width padZero false kind,numeral,List.leftpad]
  cases padZero <;> simp

theorem emitUint_pointer (value : BitVec 64) : emitUint value 16 false 16 true true = some (pointerText value) := by
  have zeros : 16 - ((Nat.toDigits 16 value.toNat).length + 2) = 14 - (Nat.toDigits 16 value.toNat).length := by omega
  rw [emitUint_digits value false 16 true true (.inr rfl)]
  simp [digitsOf,pointerText,zeros]

-- The reading of a directive, part by part.
theorem readWidth_stop (stop : isDigit c = false) (width : Nat) (p : Text) : readWidth width (c :: p) = some (width,c :: p) := by
  rw [readWidth,stop]
  rfl

theorem readWidth_digit (small : d < 10) (fits : width*10+d < 2^31) (p : Text) :
    readWidth width (d.digitChar :: p) = readWidth (width*10+d) p := by
  have digit : ∀ d : Fin 10, isDigit (Nat.digitChar d) = true ∧ (Nat.digitChar d).toNat - '0'.toNat = d.val := by decide
  obtain ⟨shape,value⟩ := digit ⟨d,small⟩
  dsimp only at shape value
  rw [readWidth,if_pos shape,value]
  exact if_pos fits

theorem readWidth_decimal (fits : n < 2^31) (p : Text) : readWidth 0 (decimal n ++ p) = readWidth n p := by
  induction n using Nat.strongRecOn generalizing p with
  | ind n ih =>
    by_cases single : n < 10
    · rw [decimal,Nat.toDigits_of_lt_base single]
      have read : readWidth 0 (n.digitChar :: p) = readWidth (0*10+n) p := readWidth_digit single (by omega) p
      rwa [Nat.zero_mul,Nat.zero_add] at read
    · have less : n/10 < n := Nat.div_lt_self (by omega) (by decide)
      have whole : n/10*10 + n%10 = n := Nat.div_add_mod' n 10
      rw [decimal,Nat.toDigits_of_base_le (by decide) (by omega),List.append_assoc]
      apply (ih (n/10) less (by omega) _).trans
      have read : readWidth (n/10) ((n%10).digitChar :: p) = readWidth (n/10*10+n%10) p := readWidth_digit (Nat.mod_lt n (by decide)) (by omega) p
      rwa [whole] at read

theorem decimal_start (some : n ≠ 0) : ∃ c t, decimal n = c :: t ∧ c ≠ '0' ∧ c ≠ '%' := by
  induction n using Nat.strongRecOn with
  | ind n ih =>
    by_cases single : n < 10
    · have each : ∀ d : Fin 10, d.val ≠ 0 → Nat.digitChar d ≠ '0' ∧ Nat.digitChar d ≠ '%' := by decide
      exact ⟨_,[],Nat.toDigits_of_lt_base single,each ⟨n,single⟩ some⟩
    · have less : n/10 < n := Nat.div_lt_self (by omega) (by decide)
      obtain ⟨c,t,front,start⟩ := ih (n/10) less (by omega)
      refine ⟨c,t++[(n%10).digitChar],?_,start⟩
      rw [decimal,Nat.toDigits_of_base_le (by decide) (by omega)]
      exact congrArg (· ++ [(n%10).digitChar]) front

theorem takeSigned_arg (v : Integer) (args : List VaArg) : takeSigned v.isLong (v.arg :: args) = some (v.toInt,args) := by
  cases v <;> rfl

theorem takeUnsigned_arg (v : Integer) (args : List VaArg) :
    ∃ wide : BitVec 64, takeUnsigned v.isLong (v.arg :: args) = some (wide,args) ∧ wide.toNat = v.toNat := by
  cases v with
  | int v =>
    refine ⟨v.setWidth 64,rfl,?_⟩
    have small := v.isLt
    rw [BitVec.toNat_setWidth,Nat.mod_eq_of_lt (by omega)]
    rfl
  | long v | longLong v => exact ⟨v,rfl,rfl⟩

theorem toInt_small (v : Integer) : v.toInt.natAbs ≤ 2^63 := by
  cases v with
  | int v =>
    have low := BitVec.le_toInt v
    have high := BitVec.toInt_lt (x:=v)
    simp only [Integer.toInt]
    omega
  | long v | longLong v =>
    have low := BitVec.le_toInt v
    have high := BitVec.toInt_lt (x:=v)
    simp only [Integer.toInt]
    omega

theorem printSigned_shown {v : Integer} (kept : v.toInt ≠ -(2^63 : Nat)) (padZero : Bool) (width : Nat) (args : List VaArg) :
    printSigned padZero width v.isLong (v.arg :: args) =
      some ((if v.toInt < 0 then ['-'] else []) ++ numeral 10 false padZero width v.toInt.natAbs,args) := by
  have small := toInt_small v
  have value : (BitVec.ofNat 64 v.toInt.natAbs).toNat = v.toInt.natAbs := by
    rw [BitVec.toNat_ofNat,Nat.mod_eq_of_lt (by omega)]
  have number := emitUint_numeral (BitVec.ofNat 64 v.toInt.natAbs) false width padZero (.inl rfl)
  rw [value] at number
  unfold printSigned
  rw [takeSigned_arg,Option.bind_eq_bind,Option.bind_some]
  dsimp only
  rw [if_neg kept,number]
  rfl

theorem printUnsigned_shown (v : Integer) (kind : base = 10 ∨ base = 16) (upper padZero : Bool) (width : Nat) (args : List VaArg) :
    printUnsigned base upper padZero width v.isLong (v.arg :: args) = some (numeral base upper padZero width v.toNat,args) := by
  obtain ⟨wide,taken,value⟩ := takeUnsigned_arg v args
  unfold printUnsigned
  rw [taken,Option.bind_eq_bind,Option.bind_some]
  dsimp only
  rw [emitUint_numeral wide upper width padZero kind,value]
  rfl

theorem convert_shown {c : Conversion} (formed : (Piece.conversion padZero width c).WellFormed) (args : List VaArg) :
    convert padZero width c.isLong c.letter (c.arg :: args) = some (c.shown padZero width,args) := by
  cases c with
  | string s => rfl
  | char v => rfl
  | signed d v =>
    have printed := printSigned_shown formed.2 padZero width args
    cases d <;> exact printed
  | unsigned v => exact printUnsigned_shown v (.inl rfl) false padZero width args
  | hex upper v => cases upper <;> exact printUnsigned_shown v (.inr rfl) _ padZero width args
  | pointer v => exact congrArg (Option.map (·,args)) (emitUint_pointer v)

-- No letter of a conversion is taken for a digit, a mark or the format's end.
theorem letter_plain (c : Conversion) : isDigit c.letter = false ∧ c.letter ≠ 'l' ∧ c.letter ≠ '%' ∧ c.letter ≠ nul := by
  have each : ∀ x ∈ ['s','c','d','i','u','x','X','p'], (!isDigit x && x ≠ 'l' && x ≠ '%' && x ≠ nul) = true := List.all_eq_true.mp (by decide)
  have letters : c.letter ∈ ['s','c','d','i','u','x','X','p'] := by
    cases c with
    | signed d v => cases d <;> simp [Conversion.letter]
    | hex upper v => cases upper <;> simp [Conversion.letter]
    | string | char | unsigned | pointer => simp [Conversion.letter]
  simpa [and_assoc] using each c.letter letters

theorem marks_plain (c : Conversion) (p : Text) : ∃ x rest, c.marks ++ c.letter :: p = x :: rest ∧ isDigit x = false ∧ x ≠ '%' := by
  have plain := letter_plain c
  cases marks : c.marks with
  | nil => exact ⟨c.letter,p,rfl,plain.1,plain.2.2.1⟩
  | cons x more =>
    have long : x = 'l' := by
      cases c with
      | signed d v | unsigned v | hex upper v => cases v <;> cases marks <;> rfl
      | string | char | pointer => cases marks
    subst long
    exact ⟨'l',more ++ c.letter :: p,rfl,by decide,by decide⟩

theorem readLong_letter (other : letter ≠ 'l') (p : Text) : readLong (letter :: p) = (false,letter :: p) := by
  unfold readLong
  split
  · next same => exact absurd (List.cons.inj same).1 other
  · next same => exact absurd (List.cons.inj same).1 other
  · rfl

theorem readLong_one (other : letter ≠ 'l') (p : Text) : readLong ('l' :: letter :: p) = (true,letter :: p) := by
  unfold readLong
  split
  · next same => exact absurd (List.cons.inj (List.cons.inj same).2).1 other
  · next same =>
    obtain ⟨-,rfl⟩ := List.cons.inj same
    rfl
  · next no => exact absurd rfl (no _)

theorem readLong_marks (c : Conversion) (p : Text) : readLong (c.marks ++ c.letter :: p) = (c.isLong,c.letter :: p) := by
  have other := (letter_plain c).2.1
  have number : ∀ v : Integer, readLong (v.marks ++ c.letter :: p) = (v.isLong,c.letter :: p) := by
    intro v
    cases v with
    | int v => exact readLong_letter other p
    | long v => exact readLong_one other p
    | longLong v => rfl
  cases c with
  | signed d v => exact number v
  | unsigned v => exact number v
  | hex upper v => exact number v
  | string | char | pointer => exact readLong_letter other p

-- The width behind the flag: its digits end at the first mark or letter.
theorem readWidth_spelled (fits : width < 2^31) (c : Conversion) (p : Text) :
    readWidth 0 ((if width = 0 then [] else decimal width) ++ (c.marks ++ c.letter :: p)) = some (width,c.marks ++ c.letter :: p) := by
  obtain ⟨x,rest,front,stop,_⟩ := marks_plain c p
  by_cases zero : width = 0
  · rw [if_pos zero,List.nil_append,front,readWidth_stop stop,zero]
  · rw [if_neg zero,readWidth_decimal fits,front,readWidth_stop stop]

theorem unpadded_start (width : Nat) (c : Conversion) (p : Text) :
    ((if width = 0 then [] else decimal width) ++ (c.marks ++ c.letter :: p)).head? ≠ some '%' ∧
    ((if width = 0 then [] else decimal width) ++ (c.marks ++ c.letter :: p)).head? ≠ some '0' := by
  by_cases zero : width = 0
  · obtain ⟨x,rest,front,stop,other⟩ := marks_plain c p
    rw [if_pos zero,List.nil_append,front]
    refine ⟨fun same => other (Option.some.inj same),fun same => ?_⟩
    rw [Option.some.inj same] at stop
    cases stop
  · obtain ⟨x,rest,front,nonzero,other⟩ := decimal_start zero
    rw [if_neg zero,front,List.cons_append]
    exact ⟨fun same => other (Option.some.inj same),fun same => nonzero (Option.some.inj same)⟩

theorem directive_shown {c : Conversion} (formed : (Piece.conversion padZero width c).WellFormed) (p : Text) (args : List VaArg) :
    directive ((if padZero then ['0'] else []) ++ (if width = 0 then [] else decimal width) ++ c.marks ++ [c.letter] ++ p) (c.arg :: args) =
      some (c.shown padZero width,p,args) := by
  have start := unpadded_start width c p
  have read := readWidth_spelled formed.1 c p
  have converted := convert_shown formed args
  have kept := (letter_plain c).2.2.2
  have behind : ∀ t, readFlag t = (padZero,(if width = 0 then [] else decimal width) ++ (c.marks ++ c.letter :: p)) →
      t.head? ≠ some '%' → directive t (c.arg :: args) = some (c.shown padZero width,p,args) := by
    intro t flag other
    unfold directive
    rw [if_neg other,flag]
    dsimp only
    rw [read,Option.bind_eq_bind,Option.bind_some]
    dsimp only
    rw [readLong_marks]
    dsimp only
    rw [if_neg kept,converted]
    rfl
  cases padZero with
  | false =>
    have spelled : (if false = true then ['0'] else []) ++ (if width = 0 then [] else decimal width) ++ c.marks ++ [c.letter] ++ p =
        (if width = 0 then [] else decimal width) ++ (c.marks ++ c.letter :: p) := by simp
    rw [spelled]
    exact behind _ (if_neg start.2) start.1
  | true =>
    have spelled : (if true = true then ['0'] else []) ++ (if width = 0 then [] else decimal width) ++ c.marks ++ [c.letter] ++ p =
        '0' :: ((if width = 0 then [] else decimal width) ++ (c.marks ++ c.letter :: p)) := by simp
    rw [spelled]
    exact behind _ rfl (by simp)

theorem rounds_text (plain : '%' ∉ t ∧ nul ∉ t) (n : Nat) (p : Text) (args : List VaArg) :
    printfRounds (t.length + n) (t ++ p) args = (printfRounds n p args).map (t.flatMap serialPutc ++ ·) := by
  induction t with
  | nil => simp
  | cons c t ih =>
    obtain ⟨percent,ended⟩ := plain
    rw [List.mem_cons,not_or] at percent ended
    have size : (c :: t).length + n = t.length + n + 1 := by
      rw [List.length_cons]
      omega
    rw [size,List.cons_append,printfRounds,if_neg (Ne.symm ended.1),if_pos (Ne.symm percent.1),ih ⟨percent.2,ended.2⟩,Option.map_map]
    simp [Function.comp_def]

theorem rounds_more (n more : Nat) (out : Text) (printed : printfRounds n p args = some out) : printfRounds (n+more) p args = some out := by
  induction n generalizing p args out with
  | zero => cases p with
    | nil => simpa [printfRounds] using printed
    | cons c p => cases printed
  | succ n ih => cases p with
    | nil => simpa [printfRounds] using printed
    | cons c p =>
      have size : n+1+more = n+more+1 := by omega
      rw [size]
      rw [printfRounds] at printed ⊢
      split
      · next ended => rwa [if_pos ended] at printed
      · next kept =>
        rw [if_neg kept] at printed
        split
        · next plain =>
          rw [if_pos plain] at printed
          obtain ⟨later,rest,rfl⟩ := Option.map_eq_some_iff.mp printed
          rw [ih later rest]
          rfl
        · next percent =>
          rw [if_neg percent] at printed
          obtain ⟨⟨shown,p,args⟩,read,rest⟩ := Option.bind_eq_some_iff.mp printed
          dsimp only at rest
          obtain ⟨later,behind,shape⟩ := Option.bind_eq_some_iff.mp rest
          obtain rfl := Option.some.inj shape
          rw [read,Option.bind_eq_bind,Option.bind_some]
          dsimp only
          rw [ih later behind]
          rfl

-- A format prints its pieces one after the other, each conversion its own argument.
theorem rounds_pieces (pieces : List Piece) (formed : ∀ piece ∈ pieces, piece.WellFormed) (extra : List VaArg) :
    printfRounds (pieces.flatMap Piece.spelling).length (pieces.flatMap Piece.spelling) (pieces.flatMap Piece.args ++ extra) =
      some (pieces.flatMap Piece.shown) := by
  induction pieces with
  | nil => rfl
  | cons piece pieces ih =>
    obtain ⟨first,later⟩ := List.forall_mem_cons.mp formed
    have rest := ih later
    simp only [List.flatMap_cons,List.length_append]
    cases piece with
    | text t =>
      simp only [Piece.spelling,Piece.args,Piece.shown,List.nil_append]
      rw [rounds_text first,rest]
      rfl
    | percent =>
      have more := rounds_more _ 1 _ rest
      have one : ∀ p args, directive ('%' :: p) args = some (['%'],p,args) := fun _ _ => rfl
      simp only [Piece.spelling,Piece.args,Piece.shown,List.nil_append,List.length_cons,List.length_nil]
      rw [Nat.add_comm,List.cons_append,List.cons_append,List.nil_append,← Nat.add_assoc,printfRounds,if_neg (by decide),if_neg (by simp),
        one,Option.bind_eq_bind,Option.bind_some]
      dsimp only
      rw [more]
      rfl
    | conversion padZero width c =>
      obtain ⟨further,size⟩ : ∃ further, (Piece.conversion padZero width c).spelling.length = further + 1 := ⟨_,rfl⟩
      have more := rounds_more _ further _ rest
      have one := directive_shown first (pieces.flatMap Piece.spelling) (pieces.flatMap Piece.args ++ extra)
      rw [size,Nat.add_comm,← Nat.add_assoc]
      simp only [Piece.spelling,Piece.args,Piece.shown,List.cons_append,List.nil_append]
      rw [printfRounds,if_neg (by decide),if_neg (by simp),one,Option.bind_eq_bind,Option.bind_some]
      dsimp only
      rw [more]
      rfl

theorem serialPrintf_pieces (pieces : List Piece) (formed : ∀ piece ∈ pieces, piece.WellFormed) :
    serialPrintf (pieces.flatMap Piece.spelling) (pieces.flatMap Piece.args) = some (pieces.flatMap Piece.shown) := by
  have rounds := rounds_pieces pieces formed []
  rwa [List.append_nil] at rounds

-- What is printed of a number reads back as the number, padding and case apart.
theorem digitValue_upper (upper : Bool) (small : d < base) (letters : base ≤ 16) :
    digitValue base (if upper then d.digitChar.toUpper else d.digitChar) = some d := by
  have same : ∀ d : Fin 16, ∀ base : Fin 17, digitValue base (Nat.digitChar d).toUpper = digitValue base (Nat.digitChar d) := by decide
  have plain := digitValue_digitChar small letters
  cases upper with
  | false => exact plain
  | true => exact (same ⟨d,by omega⟩ ⟨base,by omega⟩).trans plain

theorem readDigits_digitsOf (two : 1 < base) (letters : base ≤ 16) (upper : Bool) (small : n < bound) :
    readDigits base bound 0 (digitsOf base upper n) = some n := by
  induction n using Nat.strongRecOn with
  | ind n ih =>
    by_cases single : n < base
    · rw [digitsOf,Nat.toDigits_of_lt_base single]
      simp [readDigits,digitValue_upper upper single letters,small]
    · have less : n/base < n := Nat.div_lt_self (by omega) two
      have front := ih (n/base) less (by omega)
      have last : n % base < base := Nat.mod_lt _ (by omega)
      have whole : n/base*base + n%base = n := Nat.div_add_mod' n base
      rw [digitsOf] at front
      rw [digitsOf,Nat.toDigits_of_base_le two (Nat.le_of_not_lt single),List.map_append,readDigits_append,front]
      simp [readDigits,digitValue_upper upper last letters,whole,small]

theorem fromStrRadix_numeral (kind : base = 10 ∨ base = 16) (upper padZero : Bool) (width : Nat) (small : n < bound) :
    fromStrRadix base bound (numeral base upper padZero width n) = some n := by
  have read : readDigits base bound 0 (numeral base upper padZero width n) = some n := by
    rw [numeral,List.leftpad,readDigits_zeros (by omega) (by omega) (by omega)]
    exact readDigits_digitsOf (by omega) (by omega) upper small
  cases shape : numeral base upper padZero width n with
  | nil =>
    have filled := congrArg List.length shape
    have some := @Nat.length_toDigits_pos base n
    rw [numeral,List.length_leftpad,digitsOf,List.length_map,List.length_nil] at filled
    omega
  | cons c rest =>
    rw [shape] at read
    have digit : c ≠ '+' := by
      intro plus
      have stop : digitValue base '+' = none := by rcases kind with rfl | rfl <;> decide
      rw [plus,readDigits,stop] at read
      cases read
    rw [fromStrRadix,if_neg digit]
    exact read

-- What one piece means, in terms of what a reader makes of its output.
def Shows : Piece → Text → Prop
  | .text t,out => out = t.flatMap serialPutc
  | .percent,out => out = ['%']
  | .conversion _ _ (.string s),out => out = serialPuts (s.getD (literal "(null)"))
  | .conversion _ _ (.char v),out => out = serialPutc (Char.ofNat (v.toNat % 2^8))
  | .conversion padZero width (.signed _ v),out => ∃ digits, out = (if v.toInt < 0 then ['-'] else []) ++ digits ∧
      fromStrRadix 10 u64 digits = some v.toInt.natAbs ∧ (padZero = true → width ≤ digits.length)
  | .conversion padZero width (.unsigned v),out => fromStrRadix 10 u64 out = some v.toNat ∧ (padZero = true → width ≤ out.length)
  | .conversion padZero width (.hex _ v),out => fromStrRadix 16 u64 out = some v.toNat ∧ (padZero = true → width ≤ out.length)
  | .conversion _ _ (.pointer v),out => ∃ zeros, out = List.replicate zeros '0' ++ "0x".toList ++ Nat.toDigits 16 v.toNat ∧ 16 ≤ out.length

theorem numeral_width (base : Nat) (upper : Bool) (width n : Nat) (padded : padZero = true) :
    width ≤ (numeral base upper padZero width n).length := by
  rw [numeral,List.length_leftpad,padded]
  exact Nat.le_max_left _ _

theorem toNat_small (v : Integer) : v.toNat < u64 := by
  cases v with
  | int v => exact Nat.lt_trans v.isLt (by decide)
  | long v | longLong v => exact v.isLt

theorem shown_shows (piece : Piece) : Shows piece piece.shown := by
  cases piece with
  | text t => rfl
  | percent => rfl
  | conversion padZero width c => cases c with
    | string s => rfl
    | char v => rfl
    | signed d v =>
      have small := toInt_small v
      have bound : v.toInt.natAbs < u64 := Nat.lt_of_le_of_lt small (by decide)
      exact ⟨_,rfl,fromStrRadix_numeral (.inl rfl) false padZero width bound,numeral_width 10 false width _⟩
    | unsigned v => exact ⟨fromStrRadix_numeral (.inl rfl) false padZero width (toNat_small v),numeral_width 10 false width _⟩
    | hex upper v => exact ⟨fromStrRadix_numeral (.inr rfl) upper padZero width (toNat_small v),numeral_width 16 upper width _⟩
    | pointer v =>
      refine ⟨_,rfl,?_⟩
      have base : "0x".toList.length = 2 := by decide
      simp only [Piece.shown,Conversion.shown,pointerText,List.length_append,List.length_replicate,base]
      omega

def faultLine : List Piece := [.text (literal "rip=0x"),.conversion true 16 (.hex false (.long 0x1011DD)),.text (literal " n="),
  .conversion false 0 (.signed true (.int (-7))),.text ['\n']]

example : serialPrintf (literal "rip=0x%016lx n=%d\n") [.long 0x1011DD,.word (-7)] = some (literal "rip=0x00000000001011dd n=-7\r\n") := by decide +kernel

end PrincessIDE.Console
