import Mathlib.Algebra.Group.Nat.Defs
import Mathlib.Data.List.TakeWhile
import PrincessIDE.Foundation.Utf8

namespace PrincessIDE.Str
open Utf8

-- The string functions of the Rust standard library on scalar values.
def isWhitespace (c : Char) : Bool :=
  let v := c.toNat
  (9 ≤ v && v ≤ 13) || v == 32 || v == 0x85 || v == 0xA0 || v == 0x1680 || (0x2000 ≤ v && v ≤ 0x200A) ||
    v == 0x2028 || v == 0x2029 || v == 0x202F || v == 0x205F || v == 0x3000

def isAsciiUppercase (c : Char) : Bool := 65 ≤ c.toNat && c.toNat ≤ 90

def toAsciiLowercase (c : Char) : Char := if isAsciiUppercase c then Char.ofNat (c.toNat+32) else c

def eqIgnoreAsciiCase (a b : Text) : Bool := a.map toAsciiLowercase == b.map toAsciiLowercase

def stripPrefix : Text → Text → Option Text
  | [],t => some t
  | _ :: _,[] => none
  | p :: pat,c :: t => if p = c then stripPrefix pat t else none

def startsWith (pat t : Text) : Bool := (stripPrefix pat t).isSome

def splitOnce (pat : Text) : Text → Option (Text × Text)
  | [] => (stripPrefix pat []).map (fun rest => ([],rest))
  | c :: t => match stripPrefix pat (c::t) with
    | some rest => some ([],rest)
    | none => (splitOnce pat t).map (fun found => (c::found.1,found.2))

def contains (pat t : Text) : Bool := (splitOnce pat t).isSome

-- `str::split` for a nonempty pattern: every round removes at least one
-- character, so the length of the text bounds the rounds.
def splitRounds (pat : Text) : Nat → Text → List Text
  | 0,t => [t]
  | n+1,t => match splitOnce pat t with
    | none => [t]
    | some found => found.1 :: splitRounds pat n found.2

def split (pat t : Text) : List Text := splitRounds pat t.length t

def words (word : Text) : Text → List Text
  | [] => if word = [] then [] else [word]
  | c :: t =>
    if isWhitespace c then
      if word = [] then words [] t else word :: words [] t
    else words (word++[c]) t

def splitWhitespace (t : Text) : List Text := words [] t

def trimStart (t : Text) : Text := t.dropWhile isWhitespace
def trimEndMatches (p : Char → Bool) (t : Text) : Text := (t.reverse.dropWhile p).reverse
def trimEnd (t : Text) : Text := trimEndMatches isWhitespace t
def trim (t : Text) : Text := trimEnd (trimStart t)

-- `str::trim_start_matches` for a nonempty pattern: it is taken off as often as
-- it stands there.
def trimStartRounds (pat : Text) : Nat → Text → Text
  | 0,t => t
  | n+1,t => match stripPrefix pat t with
    | some rest => trimStartRounds pat n rest
    | none => t

def trimStartMatches (pat t : Text) : Text := trimStartRounds pat t.length t

def dropReturn (line : Text) : Text := if line.getLast? = some '\r' then line.dropLast else line

-- `str::lines`: a line ends in LF or CRLF; a last line without LF is kept as
-- it is, a trailing CR included.
def linesFrom (line : Text) : Text → List Text
  | [] => if line = [] then [] else [line]
  | c :: t => if c = '\n' then dropReturn line :: linesFrom [] t else linesFrom (line++[c]) t

def lines (t : Text) : List Text := linesFrom [] t

def digitValue (radix : Nat) (c : Char) : Option Nat :=
  let v := c.toNat
  let d := if 48 ≤ v ∧ v ≤ 57 then v-48 else if 97 ≤ v ∧ v ≤ 122 then v-87 else if 65 ≤ v ∧ v ≤ 90 then v-55 else 99
  if d < radix then some d else none

def readDigits (radix bound : Nat) (value : Nat) : Text → Option Nat
  | [] => some value
  | c :: t => match digitValue radix c with
    | none => none
    | some d => if value*radix+d < bound then readDigits radix bound (value*radix+d) t else none

-- `from_str_radix` of an unsigned type with values below `bound`.
def fromStrRadix (radix bound : Nat) (t : Text) : Option Nat :=
  match t with
  | [] => none
  | c :: digits =>
    if c = '+' then if digits = [] then none else readDigits radix bound 0 digits
    else readDigits radix bound 0 (c::digits)

def u16 : Nat := 2^16
def u32 : Nat := 2^32
def u64 : Nat := 2^64

def decimal (n : Nat) : Text := Nat.toDigits 10 n

def isHexDigit (c : Char) : Bool := (digitValue 16 c).isSome

theorem stripPrefix_eq (found : stripPrefix pat t = some rest) : t = pat ++ rest := by
  induction pat generalizing t with
  | nil => simpa [stripPrefix] using found
  | cons p pat ih =>
    cases t with
    | nil => simp [stripPrefix] at found
    | cons c t =>
      simp only [stripPrefix] at found
      split at found
      · subst p; simp [ih found]
      · cases found

@[simp] theorem stripPrefix_append (pat rest : Text) : stripPrefix pat (pat++rest) = some rest := by
  induction pat with
  | nil => simp [stripPrefix]
  | cons p pat ih => simp [stripPrefix,ih]

-- A text starts with one of two patterns at most whose first characters differ.
theorem stripPrefix_other {one other : Text} (apart : (one.head?.any fun p => other.head?.any (p ≠ ·)) = true)
    (found : stripPrefix one t = some rest) : stripPrefix other t = none := by
  cases one with
  | nil => cases apart
  | cons p one => cases other with
    | nil => cases apart
    | cons q other =>
      have differ : p ≠ q := of_decide_eq_true apart
      rw [stripPrefix_eq found,List.cons_append,stripPrefix,if_neg differ.symm]

-- Where a pattern stands nowhere, it neither starts a text nor stands later in it.
theorem splitOnce_quiet (quiet : splitOnce pat (c :: t) = none) : stripPrefix pat (c :: t) = none ∧ splitOnce pat t = none := by
  rw [splitOnce] at quiet
  split at quiet
  · cases quiet
  · next off => exact ⟨off,Option.map_eq_none_iff.mp quiet⟩

theorem splitOnce_eq (found : splitOnce pat t = some (a,rest)) : t = a ++ pat ++ rest := by
  induction t generalizing a with
  | nil =>
    simp only [splitOnce,Option.map_eq_some_iff,Prod.mk.injEq] at found
    obtain ⟨_,stripped,rfl,rfl⟩ := found
    simpa using stripPrefix_eq stripped
  | cons c t ih =>
    simp only [splitOnce] at found
    split at found
    · rename_i stripped
      cases found
      simpa using stripPrefix_eq stripped
    · simp only [Option.map_eq_some_iff,Prod.mk.injEq] at found
      obtain ⟨⟨b,r⟩,later,rfl,rfl⟩ := found
      simp [ih later]

theorem splitOnce_start (pat rest : Text) : splitOnce pat (pat++rest) = some ([],rest) := by
  have here := stripPrefix_append pat rest
  cases whole : pat++rest with
  | nil => rw [whole] at here; simp [splitOnce,here]
  | cons c t => rw [whole] at here; simp [splitOnce,here]

theorem splitOnce_none (absent : c ∉ t) (needed : c ∈ pat) : splitOnce pat t = none := by
  cases found : splitOnce pat t with
  | none => rfl
  | some cut =>
    have inside : c ∈ cut.1 ++ pat ++ cut.2 := by simp [needed]
    rw [← splitOnce_eq found] at inside
    exact absurd inside absent

theorem split_absent (absent : c ∉ t) (needed : c ∈ pat) : split pat t = [t] := by
  unfold split
  cases t.length with
  | zero => rfl
  | succ n => simp only [splitRounds,splitOnce_none absent needed]

-- The first occurrence of a one-character pattern.
theorem splitOnce_char (absent : c ∉ a) (rest : Text) : splitOnce [c] (a++c::rest) = some (a,rest) := by
  induction a with
  | nil => exact splitOnce_start [c] rest
  | cons x a ih =>
    have other : c ≠ x := fun same => absent (by simp [same])
    have later := ih (fun inside => absent (List.mem_cons_of_mem _ inside))
    simp [splitOnce,stripPrefix,other,later]

theorem splitOnce_short (solid : pat ≠ []) (found : splitOnce pat t = some (a,rest)) : rest.length < t.length := by
  have cut := congrArg List.length (splitOnce_eq found)
  have some := List.length_pos_iff.mpr solid
  simp only [List.length_append] at cut
  omega

-- More rounds than the text is long change nothing.
theorem splitRounds_enough (solid : pat ≠ []) (enough : t.length ≤ n) : splitRounds pat n t = split pat t := by
  unfold split
  induction h : t.length using Nat.strong_induction_on generalizing t n with
  | _ length ih =>
    cases found : splitOnce pat t with
    | none => cases n <;> cases length <;> simp [splitRounds,found]
    | some parts =>
      obtain ⟨a,rest⟩ := parts
      have short := splitOnce_short solid found
      obtain ⟨m,rfl⟩ : ∃ m, n = m+1 := ⟨n-1,by omega⟩
      obtain ⟨k,rfl⟩ : ∃ k, length = k+1 := ⟨length-1,by omega⟩
      simp only [splitRounds,found]
      rw [ih rest.length (by omega) (n:=m) (by omega) rfl,ih rest.length (by omega) (n:=k) (by omega) rfl]

theorem split_found (solid : pat ≠ []) (found : splitOnce pat t = some (a,rest)) : split pat t = a :: split pat rest := by
  have short := splitOnce_short solid found
  rw [← splitRounds_enough solid (Nat.le_succ t.length),splitRounds,found]
  dsimp only
  rw [splitRounds_enough solid (by omega)]

theorem split_char (absent : c ∉ a) (rest : Text) : split [c] (a++c::rest) = a :: split [c] rest :=
  split_found (List.cons_ne_nil _ _) (splitOnce_char absent rest)

theorem split_behind (c : Char) (t rest : Text) : split [c] (t++c::rest) = split [c] t ++ split [c] rest := by
  induction h : t.length using Nat.strong_induction_on generalizing t with
  | _ length ih =>
    by_cases inside : c ∈ t
    · obtain ⟨a,later,rfl,absent⟩ := List.eq_append_cons_of_mem inside
      have short : later.length < length := by
        rw [← h,List.length_append,List.length_cons]
        omega
      rw [List.append_assoc,List.cons_append,split_char absent,split_char absent,ih _ short later rfl,List.cons_append]
    · rw [split_char inside,split_absent inside (List.mem_singleton.mpr rfl)]
      rfl

theorem split_ended (c : Char) (t : Text) : split [c] (t++[c]) = split [c] t ++ [[]] := split_behind c t []

-- The parts between the occurrences of a character have none.
theorem split_plain {t part : Text} (member : part ∈ split [c] t) : c ∉ part := by
  induction length : t.length using Nat.strong_induction_on generalizing t with
  | _ n ih =>
    by_cases inside : c ∈ t
    · obtain ⟨a,b,rfl,absent⟩ := List.eq_append_cons_of_mem inside
      rw [split_char absent] at member
      rcases List.mem_cons.mp member with rfl | later
      · exact absent
      · rw [List.length_append,List.length_cons] at length
        exact ih b.length (by omega) later rfl
    · rw [split_absent inside (List.mem_singleton.mpr rfl)] at member
      rw [List.mem_singleton.mp member]
      exact inside

theorem split_none (absent : splitOnce pat t = none) : split pat t = [t] := by
  unfold split
  cases t.length with
  | zero => rfl
  | succ n => simp only [splitRounds,absent]

theorem trimEnd_append (blank : ∀ c ∈ tail, isWhitespace c) (t : Text) : trimEnd (t++tail) = trimEnd t := by
  unfold trimEnd trimEndMatches
  rw [List.reverse_append,List.dropWhile_append_of_pos]
  exact fun c member => blank c (List.mem_reverse.mp member)

theorem trimEnd_solid (solid : isWhitespace c = false) (t : Text) : trimEnd (t++[c]) = t++[c] := by
  simp [trimEnd,trimEndMatches,solid]

theorem trimEnd_behind (solid : isWhitespace c = false) (front t : Text) : trimEnd (front ++ c::t) = front ++ c :: trimEnd t := by
  have stop : (c :: front.reverse).dropWhile isWhitespace = c :: front.reverse := by simp [solid]
  simp only [trimEnd,trimEndMatches,List.reverse_append,List.reverse_cons,List.append_assoc,List.singleton_append,
    List.dropWhile_append]
  split
  · rename_i blank
    rw [stop,List.isEmpty_iff.mp blank]
    simp
  · simp

theorem trimStart_append (blank : ∀ c ∈ front, isWhitespace c) (t : Text) : trimStart (front++t) = trimStart t :=
  List.dropWhile_append_of_pos blank

theorem trimStart_solid (solid : isWhitespace c = false) (t : Text) : trimStart (c::t) = c::t := by
  simp [trimStart,solid]

theorem trimEndMatches_cut (p : Char → Bool) (t : Text) : ∃ tail, t = trimEndMatches p t ++ tail ∧ ∀ c ∈ tail, p c = true := by
  refine ⟨(t.reverse.takeWhile p).reverse,?_,fun c member => List.mem_takeWhile_imp (List.mem_reverse.mp member)⟩
  have cut := congrArg List.reverse (List.takeWhile_append_dropWhile (p:=p) (l:=t.reverse))
  rw [List.reverse_append,List.reverse_reverse] at cut
  exact cut.symm

theorem trimStart_cut (t : Text) : ∃ blanks, t = blanks ++ trimStart t ∧ ∀ c ∈ blanks, isWhitespace c = true :=
  ⟨t.takeWhile isWhitespace,List.takeWhile_append_dropWhile.symm,fun _ member => List.mem_takeWhile_imp member⟩

-- Blanks behind a text go with the trimming.
theorem trim_append (blank : ∀ c ∈ tail, isWhitespace c) (t : Text) : trim (t++tail) = trim t := by
  unfold trim
  by_cases empty : trimStart t = []
  · have all : ∀ c ∈ t, isWhitespace c := List.dropWhile_eq_nil_iff.mp empty
    rw [trimStart_append all,empty]
    have gone : trimStart tail = [] := List.dropWhile_eq_nil_iff.mpr blank
    rw [gone]
  · have cut : trimStart (t++tail) = trimStart t ++ tail := by
      unfold trimStart at empty ⊢
      rw [List.dropWhile_append,if_neg (by simpa using empty)]
    rw [cut,trimEnd_append blank]

theorem trim_cut (t : Text) : ∃ blanks tail, t = blanks ++ trim t ++ tail ∧ ∀ c ∈ blanks, isWhitespace c = true := by
  obtain ⟨blanks,front,blank⟩ := trimStart_cut t
  obtain ⟨tail,back,_⟩ := trimEndMatches_cut isWhitespace (trimStart t)
  exact ⟨blanks,tail,by rw [List.append_assoc]; exact front.trans (congrArg (blanks ++ ·) back),blank⟩

-- The first word stands behind blanks only.
theorem words_first (split : words acc t = w :: ws) :
    ∃ blanks tail, acc ++ t = blanks ++ w ++ tail ∧ (∀ c ∈ blanks, isWhitespace c = true) ∧ (acc ≠ [] → blanks = []) := by
  induction t generalizing acc with
  | nil =>
    simp only [words] at split
    split at split
    · cases split
    · cases split; exact ⟨[],[],by simp,by simp,fun _ => rfl⟩
  | cons c t ih =>
    simp only [words] at split
    split at split
    · rename_i blank
      split at split
      · rename_i empty
        obtain ⟨blanks,tail,cut,all,_⟩ := ih split
        subst acc
        refine ⟨c::blanks,tail,by simpa using cut,?_,fun some => absurd rfl some⟩
        intro x member
        rcases List.mem_cons.mp member with rfl | later
        · exact blank
        · exact all x later
      · cases split; exact ⟨[],c::t,by simp,by simp,fun _ => rfl⟩
    · obtain ⟨blanks,tail,cut,_,none⟩ := ih split
      have empty := none (by simp)
      subst blanks
      exact ⟨[],tail,by simpa using cut,by simp,fun _ => rfl⟩

theorem words_blank (blank : ∀ c ∈ blanks, isWhitespace c = true) (t : Text) : words [] (blanks++t) = words [] t := by
  induction blanks with
  | nil => rfl
  | cons c blanks ih =>
    have first := blank c (by simp)
    simp [words,first,ih fun x member => blank x (List.mem_cons_of_mem _ member)]

theorem words_solid (solid : ∀ c ∈ t, isWhitespace c = false) (some : acc++t ≠ []) : words acc t = [acc++t] := by
  induction t generalizing acc with
  | nil => simp only [List.append_nil] at some; simp [words,some]
  | cons c t ih =>
    have first := solid c (by simp)
    have rest : words (acc++[c]) t = [acc++[c]++t] := ih (fun x member => solid x (List.mem_cons_of_mem _ member)) (by simp)
    simp [words,first,rest]

theorem printable_solid (low : 32 < c.toNat) (high : c.toNat < 0x80) : isWhitespace c = false := by
  simp only [isWhitespace,Bool.or_eq_false_iff,Bool.and_eq_false_iff,decide_eq_false_iff_not,beq_eq_false_iff_ne]
  omega

theorem digitValue_range (value : digitValue radix c = some v) :
    ((48 ≤ c.toNat ∧ c.toNat ≤ 57) ∨ (97 ≤ c.toNat ∧ c.toNat ≤ 122) ∨ (65 ≤ c.toNat ∧ c.toNat ≤ 90) ∨ 99 < radix) ∧ v < radix := by
  simp only [digitValue,Option.ite_none_right_eq_some,Option.some.injEq] at value
  obtain ⟨small,same⟩ := value
  rw [same] at small
  refine ⟨?_,small⟩
  split at same
  · exact .inl ‹_›
  · split at same
    · exact .inr (.inl ‹_›)
    · split at same
      · exact .inr (.inr (.inl ‹_›))
      · exact .inr (.inr (.inr (by omega)))

theorem hexDigit_plain (hex : isHexDigit c = true) :
    isWhitespace c = false ∧ c ≠ ',' ∧ c ≠ '+' ∧ c ≠ '\n' ∧ ∃ v, digitValue 16 c = some v ∧ v < 16 := by
  obtain ⟨v,value⟩ := Option.isSome_iff_exists.mp hex
  obtain ⟨range,small⟩ := digitValue_range value
  refine ⟨printable_solid (by omega) (by omega),?_,?_,?_,v,value,small⟩
  all_goals
    rintro rfl
    simp at range

theorem readDigits_append (a b : Text) :
    readDigits radix bound v (a++b) = (readDigits radix bound v a).bind (fun w => readDigits radix bound w b) := by
  induction a generalizing v with
  | nil => rfl
  | cons c a ih =>
    simp only [List.cons_append,readDigits]
    cases digitValue radix c with
    | none => rfl
    | some d =>
      dsimp only
      split
      · exact ih
      · rfl

theorem readDigits_stopped (stop : digitValue radix c = none) (inside : c ∈ t) : readDigits radix bound v t = none := by
  obtain ⟨front,back,rfl⟩ := List.append_of_mem inside
  rw [readDigits_append]
  cases readDigits radix bound v front with
  | none => rfl
  | some w => rw [Option.bind_some,readDigits,stop]

theorem readDigits_lt (small : value < bound) (read : readDigits radix bound value t = some n) : n < bound := by
  induction t generalizing value with
  | nil => cases read; exact small
  | cons c t ih =>
    rw [readDigits] at read
    split at read
    · cases read
    · split at read
      · rename_i inside
        exact ih inside read
      · cases read

theorem fromStrRadix_stopped (stop : digitValue radix c = none) (sign : c ≠ '+') (inside : c ∈ t) : fromStrRadix radix bound t = none := by
  cases t with
  | nil => rfl
  | cons d t =>
    rw [fromStrRadix]
    split
    · next plus =>
      have later : c ∈ t := (List.mem_cons.mp inside).resolve_left fun same => sign (same.trans plus)
      rw [if_neg (List.ne_nil_of_mem later)]
      exact readDigits_stopped stop later
    · exact readDigits_stopped stop inside

theorem fromStrRadix_lt (positive : 0 < bound) (read : fromStrRadix radix bound t = some n) : n < bound := by
  unfold fromStrRadix at read
  split at read
  · cases read
  · split at read
    · split at read
      · cases read
      · exact readDigits_lt positive read
    · exact readDigits_lt positive read

theorem decimal_isDigit (member : c ∈ decimal n) : 48 ≤ c.toNat ∧ c.toNat ≤ 57 := by
  have digit := Nat.isDigit_of_mem_toDigits (by decide) (by decide) member
  simp only [Char.isDigit,Bool.and_eq_true,decide_eq_true_eq] at digit
  exact digit

theorem decimal_solid (member : c ∈ decimal n) : isWhitespace c = false := by
  have digit := decimal_isDigit member
  simp only [isWhitespace]
  grind

theorem decimal_nonempty (n : Nat) : decimal n ≠ [] := Nat.toDigits_ne_nil

theorem digitValue_digitChar (small : d < radix) (letters : radix ≤ 16) : digitValue radix d.digitChar = some d := by
  have each : ∀ radix : Fin 17, ∀ d : Fin radix, digitValue radix (Nat.digitChar d) = some d.val := by decide
  exact each ⟨radix,by omega⟩ ⟨d,small⟩

theorem readDigits_toDigits (two : 1 < radix) (letters : radix ≤ 16) (small : n < bound) :
    readDigits radix bound 0 (Nat.toDigits radix n) = some n := by
  induction n using Nat.strongRecOn with
  | _ n ih =>
    by_cases single : n < radix
    · rw [Nat.toDigits_of_lt_base single]
      simp [readDigits,digitValue_digitChar single letters,small]
    · have less : n/radix < n := Nat.div_lt_self (by omega) two
      rw [Nat.toDigits_of_base_le two (by omega),readDigits_append,ih (n/radix) less (by omega)]
      have last : n % radix < radix := Nat.mod_lt _ (by omega)
      have whole : n/radix*radix + n%radix = n := Nat.div_add_mod' n radix
      simp [readDigits,digitValue_digitChar last letters,whole,small]

theorem readDigits_decimal (small : n < bound) : readDigits 10 bound 0 (decimal n) = some n :=
  readDigits_toDigits (by decide) (by decide) small

theorem readDigits_zeros (two : 1 < radix) (letters : radix ≤ 16) (positive : 0 < bound) (count : Nat) (t : Text) :
    readDigits radix bound 0 (List.replicate count '0' ++ t) = readDigits radix bound 0 t := by
  have zero : digitValue radix '0' = some 0 := digitValue_digitChar (by omega : 0 < radix) letters
  induction count with
  | zero => rfl
  | succ count ih =>
    rw [List.replicate_succ,List.cons_append,readDigits,zero]
    simpa [positive] using ih

-- `{:0w$x}` and the like: the zeros in front change no value.
theorem leftpad_injective (two : 1 < radix) (letters : radix ≤ 16) (width : Nat)
    (same : (Nat.toDigits radix m).leftpad width '0' = (Nat.toDigits radix n).leftpad width '0') : m = n := by
  have read : ∀ k, k < m+n+1 → readDigits radix (m+n+1) 0 ((Nat.toDigits radix k).leftpad width '0') = some k := by
    intro k small
    rw [List.leftpad,readDigits_zeros two letters (by omega),readDigits_toDigits two letters small]
  have one := read m (by omega)
  rw [same,read n (by omega)] at one
  exact (Option.some.inj one).symm

-- What `{}` prints of an unsigned number, `parse` reads back.
theorem fromStrRadix_decimal (small : n < bound) : fromStrRadix 10 bound (decimal n) = some n := by
  have read := readDigits_decimal small
  cases digits : decimal n with
  | nil => exact absurd digits (decimal_nonempty n)
  | cons c rest =>
    have digit := decimal_isDigit (n:=n) (c:=c) (by simp [digits])
    have unsigned : c ≠ '+' := by rintro rfl; simp at digit
    rw [digits] at read
    simp [fromStrRadix,unsigned,read]

theorem linesFrom_append (line a b : Text) :
    linesFrom line (a ++ '\n' :: b) = linesFrom line (a++['\n']) ++ linesFrom [] b := by
  induction a generalizing line with
  | nil => simp [linesFrom]
  | cons c a ih =>
    simp only [List.cons_append,linesFrom]
    split
    · simp [ih]
    · exact ih _

-- Cutting a text behind a newline cuts its list of lines.
theorem lines_append (ended : a = [] ∨ a.getLast? = some '\n') (b : Text) : lines (a++b) = lines a ++ lines b := by
  rcases ended with rfl | last
  · rfl
  · obtain ⟨front,rfl⟩ := List.getLast?_eq_some_iff.mp last
    have cut := linesFrom_append [] front b
    simpa [lines] using cut

theorem lines_flatMap {f : α → Text} {parts : List α} (ended : ∀ a ∈ parts, f a = [] ∨ (f a).getLast? = some '\n') (last : Text) :
    lines (parts.flatMap f ++ last) = parts.flatMap (fun a => lines (f a)) ++ lines last := by
  induction parts with
  | nil => simp
  | cons a parts ih =>
    have rest := ih fun b member => ended b (List.mem_cons_of_mem _ member)
    simp only [List.flatMap_cons,List.append_assoc]
    rw [lines_append (ended a (by simp)),rest]

theorem dropReturn_infix (line : Text) : ∃ tail, line = dropReturn line ++ tail := by
  unfold dropReturn
  split
  · rename_i last
    obtain ⟨front,rfl⟩ := List.getLast?_eq_some_iff.mp last
    exact ⟨['\r'],by simp⟩
  · exact ⟨[],by simp⟩

theorem linesFrom_infix (plain : '\n' ∉ line) (member : l ∈ linesFrom line t) :
    '\n' ∉ l ∧ ∃ pre post, line++t = pre ++ l ++ post := by
  induction t generalizing line with
  | nil =>
    simp only [linesFrom] at member
    split at member
    · cases member
    · simp only [List.mem_singleton] at member
      subst l; exact ⟨plain,[],[],by simp⟩
  | cons c t ih =>
    simp only [linesFrom] at member
    split at member
    · subst c
      rcases List.mem_cons.mp member with rfl | later
      · obtain ⟨tail,cut⟩ := dropReturn_infix line
        refine ⟨fun inside => plain (by rw [cut]; simp [inside]),[],tail ++ '\n' :: t,?_⟩
        rw [List.nil_append,← List.append_assoc,← cut]
      · obtain ⟨clean,pre,post,eq⟩ := ih (by simp) later
        exact ⟨clean,line ++ '\n' :: pre,post,by simp only [List.nil_append] at eq; simp [eq]⟩
    · have fresh : '\n' ∉ line++[c] := by simp [plain]; tauto
      obtain ⟨clean,pre,post,eq⟩ := ih fresh member
      exact ⟨clean,pre,post,by simpa using eq⟩

theorem lines_within (member : l ∈ lines t) : '\n' ∉ l ∧ ∃ pre post, t = pre ++ l ++ post := by
  simpa [lines] using linesFrom_infix (by simp) (show l ∈ linesFrom [] t from member)

theorem linesFrom_plain (plain : '\n' ∉ t) (rest : Text) : linesFrom line (t++rest) = linesFrom (line++t) rest := by
  induction t generalizing line with
  | nil => rw [List.nil_append,List.append_nil]
  | cons c t ih =>
    have other : c ≠ '\n' := fun same => plain (by simp [same])
    rw [List.cons_append,linesFrom,if_neg other,ih fun inside => plain (List.mem_cons_of_mem _ inside),List.append_assoc]
    rfl

theorem linesFrom_single (plain : '\n' ∉ t) : linesFrom line t = if line++t = [] then [] else [line++t] := by
  have whole := @linesFrom_plain t line plain []
  rwa [List.append_nil] at whole

theorem lines_single (plain : '\n' ∉ t) (some : t ≠ []) : lines t = [t] := by
  simp [lines,linesFrom_single plain,some]

theorem linesFrom_terminated (plain : '\n' ∉ t) : linesFrom line (t++['\n']) = [dropReturn (line++t)] := linesFrom_plain plain ['\n']

theorem lines_terminated (plain : '\n' ∉ t) : lines (t++['\n']) = [dropReturn t] := linesFrom_terminated plain

-- Texts without a newline, each ended by one, are the lines of their whole.
theorem lines_flatten {f : α → Text} {parts : List α} (plain : ∀ a ∈ parts, '\n' ∉ f a) :
    lines (parts.flatMap fun a => f a ++ ['\n']) = parts.map fun a => dropReturn (f a) := by
  have cut : lines ((parts.flatMap fun a => f a ++ ['\n']) ++ []) = (parts.flatMap fun a => lines (f a ++ ['\n'])) ++ lines [] :=
    lines_flatMap (fun a _ => .inr (by simp)) []
  rw [List.append_nil] at cut
  rw [cut,lines,linesFrom,if_pos rfl,List.append_nil,List.map_eq_flatMap]
  apply List.flatMap_congr
  intro a member
  exact lines_terminated (plain a member)

end PrincessIDE.Str
