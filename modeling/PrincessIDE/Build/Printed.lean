import PrincessIDE.Build.Diagnostics
import PrincessIDE.Foundation.Marks
import PrincessIDE.Foundation.Trim

namespace PrincessIDE.Diagnostics
open Utf8 (Text)
open Str Event

-- The severities as the tools write them.
inductive Wording where
  | error
  | fatalError
  | warning
  | note
deriving DecidableEq, Repr

namespace Wording

def text : Wording → Text
  | .error => "error".toList
  | .fatalError => "fatal error".toList
  | .warning => "warning".toList
  | .note => "note".toList

def severity : Wording → DiagnosticSeverity
  | .error => .error
  | .fatalError => .error
  | .warning => .warning
  | .note => .note

def marker (w : Wording) : Text := ": ".toList ++ w.text ++ [':']

end Wording

-- A line, and a column only with one.
structure Place where
  line : UInt32
  col : Option UInt32
deriving DecidableEq, Repr

def Place.text (p : Place) : Text := ':' :: decimal p.line.toNat ++ match p.col with
  | some col => ':' :: decimal col.toNat
  | none => []

-- `file[:line[:col]]: severity: message`
structure Printed where
  file : Text
  place : Option Place
  wording : Wording
  message : Text
deriving DecidableEq, Repr

def Printed.location (d : Printed) : Text := d.file ++ (d.place.map Place.text).getD []

def Printed.text (d : Printed) : Text := d.location ++ (d.wording.marker ++ ' ' :: d.message)

def EndsNumbered (t : Text) : Prop := ∃ front digits, t = front ++ ':' :: digits ∧ digits ≠ [] ∧ digits.all isAsciiDigit = true

-- No marker stands in a text.
def Unmarked (t : Text) : Prop := ∀ m ∈ markers, contains m.1 t = false

theorem marker_listed (w : Wording) : (w.marker,w.severity) ∈ markers := by
  cases w <;> decide

theorem markers_fenced (listed : m ∈ markers) : Fenced ':' m.1 := by
  simp only [markers,List.mem_cons,List.not_mem_nil,or_false] at listed
  rcases listed with rfl | rfl | rfl | rfl
  · exact ⟨" fatal error".toList,rfl,by decide⟩
  · exact ⟨" error".toList,rfl,by decide⟩
  · exact ⟨" warning".toList,rfl,by decide⟩
  · exact ⟨" note".toList,rfl,by decide⟩

theorem markers_spaced (listed : m ∈ markers) : ' ' ∈ m.1 := by
  simp only [markers,List.mem_cons,List.not_mem_nil,or_false] at listed
  rcases listed with rfl | rfl | rfl | rfl <;> decide

-- Where one marker stands no other does.
theorem markers_apart (w : Wording) (listed : m ∈ markers) (other : m ≠ (w.marker,w.severity)) (rest : Text) :
    stripPrefix m.1 (w.marker ++ rest) = none := by
  simp only [markers,List.mem_cons,List.not_mem_nil,or_false] at listed
  rcases listed with rfl | rfl | rfl | rfl <;> cases w
  all_goals first
    | rfl
    | exact absurd rfl other

theorem unmarked_split (unmarked : Unmarked t) (listed : m ∈ markers) : splitOnce m.1 t = none := by
  simpa [contains] using unmarked m listed

theorem earliest_none (none : earliest line ms = none) : ∀ m ∈ ms, splitOnce m.1 line = .none := by
  induction ms with
  | nil => exact fun _ member => (List.not_mem_nil member).elim
  | cons m ms ih =>
    obtain ⟨needle,s⟩ := m
    simp only [earliest] at none
    split at none
    · next here => exact List.forall_mem_cons.mpr ⟨here,ih none⟩
    · cases none
    · split at none <;> cases none

-- The earliest marker is one of the list, and no other of it stands before it.
theorem earliest_found (found : earliest line ms = some (a,rest,severity)) :
    (∃ m ∈ ms, splitOnce m.1 line = some (a,rest) ∧ m.2 = severity) ∧
    ∀ m ∈ ms, ∀ b behind, splitOnce m.1 line = some (b,behind) → a.length ≤ b.length := by
  induction ms generalizing a rest severity with
  | nil => cases found
  | cons m ms ih =>
    obtain ⟨needle,s⟩ := m
    simp only [earliest] at found
    split at found
    · next here =>
      obtain ⟨⟨m,inside,cut⟩,first⟩ := ih found
      refine ⟨⟨m,List.mem_cons_of_mem _ inside,cut⟩,List.forall_mem_cons.mpr ⟨fun b behind other => ?_,first⟩⟩
      rw [here] at other
      cases other
    · next before after here later =>
      cases found
      refine ⟨⟨_,List.mem_cons_self,here,rfl⟩,List.forall_mem_cons.mpr ⟨fun b behind other => ?_,fun m inside b behind other => ?_⟩⟩
      · rw [here] at other
        cases other
        exact Nat.le_refl _
      · rw [earliest_none later m inside] at other
        cases other
    · next before after last here later =>
      obtain ⟨b,behind,s'⟩ := last
      obtain ⟨⟨m,inside,cut⟩,first⟩ := ih later
      split at found
      · next front =>
        cases found
        refine ⟨⟨_,List.mem_cons_self,here,rfl⟩,List.forall_mem_cons.mpr ⟨fun x y other => ?_,fun m inside x y other => ?_⟩⟩
        · rw [here] at other
          cases other
          exact Nat.le_refl _
        · exact Nat.le_trans front (first m inside x y other)
      · next back =>
        cases found
        refine ⟨⟨m,List.mem_cons_of_mem _ inside,cut⟩,List.forall_mem_cons.mpr ⟨fun x y other => ?_,first⟩⟩
        rw [here] at other
        cases other
        exact Nat.le_of_lt (Nat.lt_of_not_le back)

theorem earliest_some (listed : m ∈ ms) (here : splitOnce m.1 line = some found) : ∃ a rest severity, earliest line ms = some (a,rest,severity) := by
  cases first : earliest line ms with
  | none =>
    rw [earliest_none first m listed] at here
    cases here
  | some parts => exact ⟨_,_,_,rfl⟩

-- A marker behind a text without one, with the colon behind it counted in.
theorem earliest_marker (w : Wording) (unmarked : Unmarked (a++[':'])) (rest : Text) :
    earliest (a ++ (w.marker ++ rest)) markers = some (a,rest,w.severity) := by
  have shift : ∀ m ∈ markers, splitOnce m.1 (a ++ (w.marker ++ rest)) =
      (splitOnce m.1 (w.marker ++ rest)).map fun found => (a ++ found.1,found.2) := by
    intro m listed
    exact splitOnce_fenced (markers_fenced listed) (unmarked_split unmarked listed) _
  have own : splitOnce w.marker (a ++ (w.marker ++ rest)) = some (a,rest) := by
    rw [shift _ (marker_listed w),splitOnce_start,Option.map_some,List.append_nil]
  obtain ⟨b,behind,severity,found⟩ := earliest_some (marker_listed w) own
  obtain ⟨⟨m,listed,cut,same⟩,first⟩ := earliest_found found
  have short := first _ (marker_listed w) a rest own
  by_cases mine : m = (w.marker,w.severity)
  · subst mine
    rw [own] at cut
    cases cut
    rw [found,← same]
  · -- any other begins behind this one
    rw [shift m listed] at cut
    obtain ⟨⟨x,y⟩,inside,equal⟩ := Option.map_eq_some_iff.mp cut
    have off := markers_apart w listed mine rest
    rw [show w.marker ++ rest = ':' :: ((w.marker ++ rest).tail) by cases w <;> rfl] at inside off
    rw [splitOnce,off] at inside
    obtain ⟨later,_,behind'⟩ := Option.map_eq_some_iff.mp inside
    cases behind'
    cases equal
    simp only [List.length_append,List.length_cons] at short
    omega

theorem rsplitOnce_char (absent : c ∉ b) (a : Text) : rsplitOnce c (a ++ c :: b) = some (a,b) := by
  have front : c ∉ b.reverse := fun inside => absent (List.mem_reverse.mp inside)
  have cut := splitOnce_char front a.reverse
  rw [rsplitOnce,List.reverse_append,List.reverse_cons,List.append_assoc,List.singleton_append,cut]
  simp

theorem rsplitOnce_eq (found : rsplitOnce c t = some (a,b)) : t = a ++ c :: b := by
  obtain ⟨⟨x,y⟩,cut,same⟩ := Option.map_eq_some_iff.mp found
  cases same
  have whole := congrArg List.reverse (splitOnce_eq cut)
  rw [List.reverse_reverse] at whole
  rw [whole]
  simp

theorem decimal_digits (n : Nat) : (decimal n).all isAsciiDigit = true := by
  refine List.all_eq_true.mpr fun c inside => ?_
  have digit := decimal_isDigit inside
  simp only [isAsciiDigit,Bool.and_eq_true,decide_eq_true_eq]
  exact digit

theorem digits_plain {t : Text} (digits : t.all isAsciiDigit = true) : ':' ∉ t ∧ ' ' ∉ t := by
  constructor
  · intro inside
    exact absurd (List.all_eq_true.mp digits _ inside) (by decide)
  · intro inside
    exact absurd (List.all_eq_true.mp digits _ inside) (by decide)

-- One step of the walk over a number that fits.
theorem walkNumbers_number (n : UInt32) (rounds : Nat) (a : Text) (numbers : List Nat) :
    walkNumbers (rounds+1) (a ++ ':' :: decimal n.toNat) numbers = walkNumbers rounds a (numbers++[n.toNat]) := by
  have digits := decimal_digits n.toNat
  have read : fromStrRadix 10 u32 (decimal n.toNat) = some n.toNat := fromStrRadix_decimal n.toNat_lt
  rw [walkNumbers,rsplitOnce_char (digits_plain digits).1]
  simp [decimal_nonempty,digits,read]

theorem walkNumbers_end (plain : ¬ EndsNumbered a) (rounds : Nat) (numbers : List Nat) : walkNumbers rounds a numbers = some (a,numbers) := by
  cases rounds with
  | zero => rfl
  | succ rounds =>
    rw [walkNumbers]
    split
    · rfl
    · next before tail found =>
      split
      · rfl
      · next number =>
        simp only [Bool.or_eq_true,decide_eq_true_eq,Bool.not_eq_true',not_or,Bool.not_eq_false] at number
        exact absurd ⟨before,tail,rsplitOnce_eq found,number.1,number.2⟩ plain

theorem splitLocation_numbered (named : trim a ≠ []) (walked : walkNumbers 2 t [] = some (a,n :: numbers)) :
    splitLocation t = some (trim a,(n :: numbers).reverse[0]?,(n :: numbers).reverse[1]?) := by
  have some : t ≠ [] := by
    rintro rfl
    cases walked
  rw [splitLocation,if_neg some,walked]
  simp [named]

theorem place_spaceless (p : Place) : ' ' ∉ p.text := by
  have digits : ∀ n, ' ' ∉ decimal n := fun n => (digits_plain (decimal_digits n)).2
  obtain ⟨line,col⟩ := p
  cases col with
  | none => simp [Place.text,digits]
  | some col => simp [Place.text,digits]

-- The walk takes the numbers of a place back, and goes on where it had only a line.
theorem walkNumbers_place (p : Place) (a : Text) : walkNumbers 2 (a ++ p.text) [] = match p.col with
    | some col => some (a,[col.toNat,p.line.toNat])
    | none => walkNumbers 1 a [p.line.toNat] := by
  obtain ⟨line,col⟩ := p
  cases col with
  | none =>
    have whole : a ++ Place.text ⟨line,none⟩ = a ++ ':' :: decimal line.toNat := by simp [Place.text]
    rw [whole,walkNumbers_number]
    rfl
  | some col =>
    have whole : a ++ Place.text ⟨line,some col⟩ = (a ++ ':' :: decimal line.toNat) ++ ':' :: decimal col.toNat := by simp [Place.text]
    rw [whole,walkNumbers_number,walkNumbers_number]
    rfl

theorem splitLocation_place (p : Place) (plain : p.col = none → ¬ EndsNumbered a) (named : trim a ≠ []) :
    splitLocation (a ++ p.text) = some (trim a,some p.line.toNat,p.col.map UInt32.toNat) := by
  have walked := walkNumbers_place p a
  cases col : p.col with
  | none =>
    rw [col,walkNumbers_end (plain col)] at walked
    rw [splitLocation_numbered named walked]
    rfl
  | some c =>
    rw [col] at walked
    rw [splitLocation_numbered named walked]
    rfl

theorem splitLocation_bare (plain : ¬ EndsNumbered a) (spaceless : ' ' ∉ a) (named : trim a ≠ []) :
    splitLocation a = some (trim a,none,none) := by
  have some : a ≠ [] := by
    rintro rfl
    exact named rfl
  have within : ' ' ∉ trim a := by
    obtain ⟨blanks,tail,cut,_⟩ := trim_cut a
    exact fun inside => spaceless (by rw [cut]; simp [inside])
  rw [splitLocation,if_neg some,walkNumbers_end plain]
  simp [named,within]

theorem location_unmarked (d : Printed) (unmarked : Unmarked (d.file++[':'])) : Unmarked (d.location++[':']) := by
  intro m listed
  unfold Printed.location
  cases d.place with
  | none =>
    rw [Option.map_none,Option.getD_none,List.append_nil]
    exact unmarked m listed
  | some p =>
    have behind : splitOnce m.1 (p.text ++ [':']) = none :=
      splitOnce_none (fun inside => (List.mem_append.mp inside).elim (place_spaceless p) (by decide)) (markers_spaced listed)
    have cut : d.file ++ p.text ++ [':'] = d.file ++ ':' :: (p.text ++ [':']).tail := by simp [Place.text]
    rw [Option.map_some,Option.getD_some,contains,cut,splitOnce_fenced (markers_fenced listed) (unmarked_split unmarked listed)]
    rw [show ':' :: (p.text ++ [':']).tail = p.text ++ [':'] by simp [Place.text],behind]
    rfl

-- What one of the tools prints in this form, the parser reads back.
theorem parseLineFor_printed (d : Printed) (unmarked : Unmarked (d.file++[':'])) (said : trim d.message ≠ [])
    (located : splitLocation d.location = some (file,line,col)) (family : ToolFamily) :
    parseLineFor d.text family = some ⟨d.wording.severity,some file,line,col,trim d.message,classifySource (trim d.message) d.text family⟩ := by
  have first := earliest_marker d.wording (location_unmarked d unmarked) (' ' :: d.message)
  have blank : ∀ c ∈ [' '], isWhitespace c = true := fun c here => by rw [List.mem_singleton.mp here]; decide
  have message : trim (' ' :: d.message) = trim d.message := trim_behind blank d.message
  have colon : parseColonForm d.text family =
      some ⟨d.wording.severity,some file,line,col,trim d.message,classifySource (trim d.message) d.text family⟩ := by
    have start : earliest d.text markers = some (d.location,' ' :: d.message,d.wording.severity) := first
    rw [parseColonForm,start]
    change (if trim (' ' :: d.message) = [] then none else _) = _
    rw [message,if_neg said,located]
    rfl
  rw [parseLineFor,colon]
  rfl

def Printed.line (d : Printed) : Option Nat := d.place.map fun p => p.line.toNat
def Printed.col (d : Printed) : Option Nat := d.place.bind fun p => p.col.map UInt32.toNat

theorem walkNumbers_short (walked : walkNumbers rounds t numbers = some (a,found)) : a.length ≤ t.length := by
  induction rounds generalizing t numbers with
  | zero => cases walked; exact Nat.le_refl _
  | succ rounds ih =>
    rw [walkNumbers] at walked
    split at walked
    · cases walked; exact Nat.le_refl _
    · next before tail cut =>
      split at walked
      · cases walked; exact Nat.le_refl _
      · split at walked
        · cases walked
        · have shorter := ih walked
          have length := congrArg List.length (rsplitOnce_eq cut)
          rw [List.length_append,List.length_cons] at length
          omega

-- A location's file is trimmed, not empty, and no longer than the location.
theorem splitLocation_file (located : splitLocation t = some (file,line,col)) : file ≠ [] ∧ trim file = file ∧ file.length ≤ t.length := by
  have each : ∀ a : Text, trim a ≠ [] → a.length ≤ t.length → trim a ≠ [] ∧ trim (trim a) = trim a ∧ (trim a).length ≤ t.length :=
    fun a named short => ⟨named,trim_trim a,Nat.le_trans (trim_short a) short⟩
  unfold splitLocation at located
  split at located
  · cases located
  split at located
  · cases located
  next rest numbers walked =>
    have short := walkNumbers_short walked
    dsimp only at located
    split at located
    · split at located
      · cases located
      · next named =>
        simp only [Bool.or_eq_true,decide_eq_true_eq,not_or] at named
        cases located
        exact each t named.1 (Nat.le_refl _)
    · split at located
      · cases located
      · next named =>
        cases located
        exact each rest named short

-- A name that ends in a colon and digits takes the only number for its column.
theorem splitLocation_plain (p : Place) (bare : p.col = none) (located : splitLocation (a ++ p.text) = some (file,line,none)) : ¬ EndsNumbered a := by
  rintro ⟨front,digits,rfl,some,all⟩
  have walked := walkNumbers_place p (front ++ ':' :: digits)
  rw [bare] at walked
  have number : ¬ (decide (digits = []) || !digits.all isAsciiDigit) = true := by simp [some,all]
  have second : walkNumbers 1 (front ++ ':' :: digits) [p.line.toNat] = (fromStrRadix 10 u32 digits).map fun n => (front,[p.line.toNat,n]) := by
    rw [walkNumbers,rsplitOnce_char (digits_plain all).1]
    dsimp only
    rw [if_neg number]
    cases fromStrRadix 10 u32 digits <;> rfl
  have whole : walkNumbers 2 (front ++ ':' :: digits ++ p.text) [] = (fromStrRadix 10 u32 digits).map fun n => (front,[p.line.toNat,n]) := walked.trans second
  unfold splitLocation at located
  rw [whole] at located
  cases read : fromStrRadix 10 u32 digits with
  | none => rw [read] at located; split at located <;> cases located
  | some n =>
    rw [read] at located
    simp only [Option.map_some,List.cons_ne_nil,if_false,List.reverse_cons,List.reverse_nil,List.nil_append,List.cons_append] at located
    split at located
    · cases located
    · split at located
      · cases located
      · cases located

-- A name and a message that the form itself leaves readable.
structure Readable (d : Printed) : Prop where
  named : d.file ≠ []
  trimmed : trim d.file = d.file
  spaceless : d.place = none → ' ' ∉ d.file
  plain : ¬ EndsNumbered d.file
  said : d.message ≠ []
  whole : trim d.message = d.message

theorem splitLocation_readable (readable : Readable d) : splitLocation d.location = some (d.file,d.line,d.col) := by
  have named : trim d.file ≠ [] := by rw [readable.trimmed]; exact readable.named
  unfold Printed.location Printed.line Printed.col
  cases place : d.place with
  | none =>
    rw [Option.map_none,Option.getD_none,List.append_nil,splitLocation_bare readable.plain (readable.spaceless place) named,readable.trimmed]
    rfl
  | some p =>
    rw [Option.map_some,Option.getD_some,splitLocation_place p (fun _ => readable.plain) named,readable.trimmed]
    rfl

-- The name must not end in a marker up to its last colon either: the colon of the
-- line number would complete it.
theorem parse_printed (readable : Readable d) (unmarked : Unmarked (d.file++[':'])) (family : ToolFamily) :
    ∃ source, parseLineFor d.text family = some ⟨d.wording.severity,some d.file,d.line,d.col,d.message,source⟩ := by
  have said : trim d.message ≠ [] := by rw [readable.whole]; exact readable.said
  have parsed := parseLineFor_printed d unmarked said (splitLocation_readable readable) family
  rw [readable.whole] at parsed
  exact ⟨_,parsed⟩

theorem unnumbered (split : rsplitOnce ':' t = some (a,b)) (other : b.all isAsciiDigit = false) : ¬ EndsNumbered t := by
  rintro ⟨front,digits,same,_,all⟩
  rw [same,rsplitOnce_char (digits_plain all).1] at split
  cases split
  rw [all] at other
  cases other

-- Colons in the name and a marker in the message.
def colonName : Printed := ⟨"c:/w.d/k.c".toList,some ⟨12,some 5⟩,.warning,"x: error: y".toList⟩

theorem parse_printed_colons : ∃ source, parseLineFor colonName.text .gcc = some ⟨.warning,some "c:/w.d/k.c".toList,some 12,some 5,"x: error: y".toList,source⟩ := by
  have cut : rsplitOnce ':' colonName.file = some ("c".toList,"/w.d/k.c".toList) := by decide
  have readable : Readable colonName :=
    ⟨by decide,by decide,fun none => absurd none (by decide),unnumbered cut (by decide),by decide,by decide⟩
  exact parse_printed readable (by unfold Unmarked; decide) .gcc

-- `a: error:5: error: m`
def markedName : Printed := ⟨"a: error".toList,some ⟨5,none⟩,.error,['m']⟩

theorem marker_completed : ¬ ∀ (d : Printed) (family : ToolFamily), Readable d → Unmarked d.file →
    ∃ source, parseLineFor d.text family = some ⟨d.wording.severity,some d.file,d.line,d.col,d.message,source⟩ := by
  intro every
  have cut : rsplitOnce ':' markedName.file = some (['a']," error".toList) := by decide
  have readable : Readable markedName :=
    ⟨by decide,by decide,fun none => absurd none (by decide),unnumbered cut (by decide),by decide,by decide⟩
  obtain ⟨source,parsed⟩ := every markedName .gcc readable (by unfold Unmarked; decide)
  have read : (parseLineFor markedName.text .gcc).map RawDiagnostic.message = some "5: error: m".toList := by decide
  rw [parsed] at read
  have same : markedName.message = "5: error: m".toList := Option.some.inj read
  exact absurd same (by decide)

end PrincessIDE.Diagnostics
