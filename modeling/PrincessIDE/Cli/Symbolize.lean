import PrincessIDE.Foundation.Lexical
import PrincessIDE.Foundation.Trim
import PrincessIDE.Build.Printed
import PrincessIDE.Core.Event

namespace PrincessIDE.Symbolize
open Utf8 (Text)
open Str PrincessIDE.Path Event

def componentText : Component → Text
  | .rootDir => []
  | .curDir => ".".toList
  | .parentDir => "..".toList
  | .normal name => name

-- What is left of a path is the same path however its separators are repeated.
def parent (path : Text) : Option Text := match (components path).getLast? with
  | none => none
  | some .rootDir => none
  | some _ => match (components path).dropLast with
    | [.rootDir] => some "/".toList
    | above => some (['/'].intercalate (above.map componentText))

-- The directory of the image.
def base (elf : Text) : Text := (parent elf).getD ".".toList

-- A relative path of the debug info is resolved next to the image.
def absolutise (file elf : Text) : Text := if isAbsolute file then file else normalize (join (base elf) file)

-- Two lines, the function and then `file:line`.
def parseAddr2line (output elf : Text) : Option SymbolicatedLocation :=
  match (lines output).filter fun line => trim line ≠ [] with
  | symbol :: location :: _ =>
    if trim symbol = "??".toList ∨ trim symbol = [] then none
    else do
      let (file,line) ← Diagnostics.rsplitOnce ':' (trim location)
      let n ← fromStrRadix 10 u32 (trim line)
      if trim file = "??".toList ∨ n = 0 then none else some ⟨trim symbol,absolutise (trim file) elf,n⟩
  | _ => none

-- What `addr2line -f -C` knows of an address; every name stands in its line.
structure Report where
  symbol : Option Text
  file : Option Text
  line : Option Nat
  discriminator : Option Nat
  symbolLine : ∀ name ∈ symbol, '\n' ∉ name
  fileLine : ∀ name ∈ file, '\n' ∉ name
  lineWord : ∀ n ∈ line, n < u32

namespace Report

def unknown : Text := "??".toList

def lineText (line discriminator : Option Nat) : Text := (line.map decimal).getD "?".toList ++
  (discriminator.map fun d => " (discriminator ".toList ++ decimal d ++ ")".toList).getD []

def printed (r : Report) : Text :=
  r.symbol.getD unknown ++ ['\n'] ++ (r.file.getD unknown ++ ':' :: lineText r.line r.discriminator ++ ['\n'])

-- All three parts, of a line that is one.
def known (r : Report) : Option (Text × Text × Nat) := do
  let symbol ← r.symbol
  let file ← r.file
  let line ← r.line
  if line = 0 then none else some (symbol,file,line)

end Report

-- What an address is found to be.
def Exact (r : Report) (elf : Text) (found : Option SymbolicatedLocation) : Prop := match r.known with
  | none => found = none
  | some (symbol,file,line) => found = some ⟨symbol,absolutise file elf,line⟩ ∧ isAbsolute (absolutise file elf) = true

-- When known parts can be read back.
structure Readable (r : Report) (elf symbol file : Text) : Prop where
  bare : r.discriminator = none
  symbolKept : Trimmed symbol ∧ symbol ≠ [] ∧ symbol ≠ Report.unknown
  fileKept : trim file ≠ Report.unknown ∧ absolutise (trim file) elf = absolutise file elf
  absolute : isAbsolute file = true ∨ isAbsolute (base elf) = true

-- The second line's name and its last part are cut at the last colon.
theorem parseAddr2line_lines (symbolLine : '\n' ∉ symbol) (fileLine : '\n' ∉ file) (tailLine : '\n' ∉ tail) (uncut : ':' ∉ tail)
    (trimmed : Trimmed tail) (elf : Text) : parseAddr2line (symbol ++ ['\n'] ++ (file ++ ':' :: tail ++ ['\n'])) elf =
      if trim symbol = Report.unknown ∨ trim symbol = [] then none
      else (fromStrRadix 10 u32 tail).bind fun n =>
        if trim file = Report.unknown ∨ n = 0 then none else some ⟨trim symbol,absolutise (trim file) elf,n⟩ := by
  have plain : '\n' ∉ file ++ ':' :: tail := by
    simp only [List.mem_append,List.mem_cons,not_or]
    exact ⟨fileLine,by decide,tailLine⟩
  have two : lines (symbol ++ ['\n'] ++ (file ++ ':' :: tail ++ ['\n'])) = [dropReturn symbol,dropReturn (file ++ ':' :: tail)] := by
    rw [lines_append (.inr (by simp)),lines_terminated symbolLine,lines_terminated plain]
    rfl
  have location : trim (file ++ ':' :: tail) = trimStart file ++ ':' :: tail := by
    rw [trim,trimStart_ahead (by decide),trimEnd_behind (by decide),trimEnd_of_last trimmed.2]
  have some : trim (dropReturn (file ++ ':' :: tail)) ≠ [] := by
    rw [trim_dropReturn,location]
    simp
  have cut : Diagnostics.rsplitOnce ':' (trimStart file ++ ':' :: tail) = Option.some (trimStart file,tail) := Diagnostics.rsplitOnce_char uncut _
  rw [parseAddr2line,two]
  by_cases blank : trim symbol = []
  · have gone : ¬ trim (dropReturn symbol) ≠ [] := by rw [trim_dropReturn]; exact fun filled => filled blank
    rw [List.filter_cons_of_neg (by simpa using gone),List.filter_cons_of_pos (by simpa using some),List.filter_nil,if_pos (.inr blank)]
  · have first : trim (dropReturn symbol) ≠ [] := by rwa [trim_dropReturn]
    rw [List.filter_cons_of_pos (by simpa using first),List.filter_cons_of_pos (by simpa using some),List.filter_nil]
    simp only [trim_dropReturn,location,cut,Option.bind_eq_bind,Option.bind_some,trimmed.trim_eq,trim_start]
    rfl

namespace Report

theorem shown_solid {line : Option Nat} (member : c ∈ (line.map decimal).getD "?".toList) : isWhitespace c = false ∧ c ≠ ':' ∧ c ≠ '\n' := by
  cases line with
  | none =>
    obtain rfl : c = '?' := List.mem_singleton.mp member
    decide
  | some n =>
    have digit : 48 ≤ c.toNat ∧ c.toNat ≤ 57 := decimal_isDigit member
    refine ⟨decimal_solid member,?_,?_⟩
    all_goals
      rintro rfl
      revert digit
      decide

theorem shown_filled (line : Option Nat) : (line.map decimal).getD "?".toList ≠ [] := by
  cases line with
  | none => exact List.cons_ne_nil _ _
  | some n => exact decimal_nonempty n

theorem lineText_plain {line discriminator : Option Nat} (member : c ∈ lineText line discriminator) : c ≠ ':' ∧ c ≠ '\n' := by
  rcases List.mem_append.mp member with shown | suffix
  · exact (shown_solid shown).2
  · cases discriminator with
    | none => cases suffix
    | some d =>
      rcases List.mem_append.mp suffix with front | last
      · rcases List.mem_append.mp front with word | digits
        · have apart : " (discriminator ".toList.all (fun c => c ≠ ':' && c ≠ '\n') = true := by decide
          simpa using List.all_eq_true.mp apart c word
        · exact (@shown_solid c (some d) digits).2
      · obtain rfl : c = ')' := List.mem_singleton.mp last
        decide

theorem lineText_trimmed (line discriminator : Option Nat) : Trimmed (lineText line discriminator) := by
  constructor
  · intro c first
    rw [lineText,List.head?_append_of_ne_nil _ (shown_filled line)] at first
    exact (shown_solid (List.mem_of_mem_head? first)).1
  · intro c last
    cases discriminator with
    | none =>
      rw [lineText,Option.map_none,Option.getD_none,List.append_nil] at last
      exact (shown_solid (List.mem_of_mem_getLast? last)).1
    | some d =>
      rw [lineText,Option.map_some,Option.getD_some,← List.append_assoc] at last
      obtain rfl : ')' = c := Option.some.inj (List.getLast?_concat.symm.trans last)
      decide

-- A discriminator is a blank in the number, which is then none.
theorem lineText_read {line : Option Nat} (small : ∀ n ∈ line, n < u32) (discriminator : Option Nat) :
    fromStrRadix 10 u32 (lineText line discriminator) = if discriminator = none then line else none := by
  cases discriminator with
  | none =>
    rw [if_pos rfl,lineText,Option.map_none,Option.getD_none,List.append_nil]
    cases line with
    | none => rfl
    | some n => exact fromStrRadix_decimal (small n rfl)
  | some d =>
    rw [if_neg (Option.some_ne_none d)]
    have blank : ' ' ∈ lineText line (some d) := by simp [lineText]
    exact fromStrRadix_stopped (by decide) (by decide) blank

end Report

theorem parseAddr2line_printed (r : Report) (elf : Text) : parseAddr2line r.printed elf =
    if trim (r.symbol.getD Report.unknown) = Report.unknown ∨ trim (r.symbol.getD Report.unknown) = [] ∨ r.discriminator ≠ none then none
    else r.line.bind fun n => if trim (r.file.getD Report.unknown) = Report.unknown ∨ n = 0 then none
      else some ⟨trim (r.symbol.getD Report.unknown),absolutise (trim (r.file.getD Report.unknown)) elf,n⟩ := by
  have unknownLine : '\n' ∉ Report.unknown := by decide
  have symbolLine : '\n' ∉ r.symbol.getD Report.unknown := by
    cases named : r.symbol with
    | none => exact unknownLine
    | some name => exact r.symbolLine name named
  have fileLine : '\n' ∉ r.file.getD Report.unknown := by
    cases named : r.file with
    | none => exact unknownLine
    | some name => exact r.fileLine name named
  rw [Report.printed,parseAddr2line_lines symbolLine fileLine (fun inside => (Report.lineText_plain inside).2 rfl)
    (fun inside => (Report.lineText_plain inside).1 rfl) (Report.lineText_trimmed _ _),Report.lineText_read r.lineWord]
  by_cases bare : r.discriminator = none
  · rw [if_pos bare]
    simp only [bare,ne_eq,not_true,or_false]
  · rw [if_neg bare,Option.bind_none,ite_self,if_pos (.inr (.inr bare))]

theorem join_isAbsolute (relative : isAbsolute path ≠ true) (base : Text) : isAbsolute (join base path) = isAbsolute base := by
  rw [join,if_neg relative]
  cases base with
  | nil => rw [if_pos (.inl rfl),List.nil_append,Bool.eq_false_iff.mpr relative]; rfl
  | cons c base =>
    split
    · rfl
    · rfl

theorem absolutise_absolute (file elf : Text) : isAbsolute (absolutise file elf) = true ↔ isAbsolute file = true ∨ isAbsolute (base elf) = true := by
  rw [absolutise]
  by_cases absolute : isAbsolute file = true
  · rw [if_pos absolute]
    exact ⟨.inl,fun _ => absolute⟩
  · rw [if_neg absolute,normalize_absolute,join_isAbsolute absolute]
    exact (or_iff_right absolute).symm

theorem known_none {r : Report} (none : r.known = Option.none) : r.symbol = Option.none ∨ r.file = Option.none ∨ r.line = Option.none ∨ r.line = some 0 := by
  unfold Report.known at none
  cases symbol : r.symbol with
  | none => exact .inl rfl
  | some name => cases file : r.file with
    | none => exact .inr (.inl rfl)
    | some path => cases line : r.line with
      | none => exact .inr (.inr (.inl rfl))
      | some n =>
        rw [symbol,file,line] at none
        cases n with
        | zero => exact .inr (.inr (.inr rfl))
        | succ n => cases none

theorem known_some {r : Report} (known : r.known = some (symbol,file,line)) : r.symbol = some symbol ∧ r.file = some file ∧ r.line = some line ∧ line ≠ 0 := by
  obtain ⟨name,named,rest⟩ := Option.bind_eq_some_iff.mp known
  obtain ⟨path,placed,rest⟩ := Option.bind_eq_some_iff.mp rest
  obtain ⟨n,numbered,rest⟩ := Option.bind_eq_some_iff.mp rest
  split at rest
  · cases rest
  · next some =>
    cases rest
    exact ⟨named,placed,numbered,some⟩

-- Where a part is not known nothing is found.
theorem unknown_none {r : Report} (none : r.known = Option.none) (elf : Text) : parseAddr2line r.printed elf = Option.none := by
  have same : trim Report.unknown = Report.unknown := by decide
  rw [parseAddr2line_printed]
  rcases known_none none with symbol | file | line | line
  · rw [symbol,Option.getD_none,if_pos (.inl same)]
  · rw [file,Option.getD_none]
    split
    · rfl
    · cases r.line with
      | none => rfl
      | some n => rw [Option.bind_some,if_pos (.inl same)]
  · rw [line,Option.bind_none,ite_self]
  · have no : ∀ path : Text, trim path = Report.unknown ∨ 0 = 0 := fun _ => .inr rfl
    rw [line,Option.bind_some,if_pos (no _),ite_self]

-- Every part of a known place is in the answer, as far as it is not trimmed.
theorem known_place {r : Report} (known : r.known = some (symbol,file,line)) (elf : Text) : parseAddr2line r.printed elf =
    if trim symbol = Report.unknown ∨ trim symbol = [] ∨ r.discriminator ≠ none ∨ trim file = Report.unknown then none
    else some ⟨trim symbol,absolutise (trim file) elf,line⟩ := by
  obtain ⟨named,placed,numbered,some⟩ := known_some known
  rw [parseAddr2line_printed,named,placed,numbered]
  simp only [Option.getD_some,Option.bind_some,some,or_false,← ite_or,or_assoc]

theorem parse_exact_iff (r : Report) (elf : Text) : Exact r elf (parseAddr2line r.printed elf) ↔
    ∀ symbol file line, r.known = some (symbol,file,line) → Readable r elf symbol file := by
  cases known : r.known with
  | none =>
    rw [Exact,known]
    exact ⟨fun _ _ _ _ same => (nomatch same),fun _ => unknown_none known elf⟩
  | some place =>
    obtain ⟨symbol,file,line⟩ := place
    rw [Exact,known,known_place known]
    constructor
    · rintro ⟨found,absolute⟩ _ _ _ same
      cases same
      split at found
      · cases found
      · next plain =>
        simp only [not_or,not_not] at plain
        obtain ⟨named,some,bare,placed⟩ := plain
        simp only [Option.some.injEq,SymbolicatedLocation.mk.injEq,and_true] at found
        have trimmed := found.1
        rw [trimmed] at named some
        exact ⟨bare,⟨trimmed_iff.mpr trimmed,some,named⟩,⟨placed,found.2⟩,(absolutise_absolute file elf).mp absolute⟩
    · intro all
      have readable := all symbol file line rfl
      obtain ⟨trimmed,some,named⟩ := readable.symbolKept
      rw [trimmed.trim_eq,readable.fileKept.2,if_neg]
      · exact ⟨rfl,(absolutise_absolute file elf).mpr readable.absolute⟩
      · simp only [not_or,not_not]
        exact ⟨named,some,readable.bare,readable.fileKept.1⟩

-- The image is a file: an absolute one is in an absolute directory.
theorem base_absolute (absolute : isAbsolute elf = true) (named : fileName elf = some name) : isAbsolute (base elf) = true := by
  obtain ⟨body,shape⟩ : ∃ body, components elf = .rootDir :: body := by
    rw [components,if_pos absolute]
    exact ⟨_,rfl⟩
  unfold fileName at named
  split at named
  · next last =>
    cases body with
    | nil => rw [shape] at last; cases last
    | cons c body =>
      rw [base,parent,last,shape,List.dropLast_cons_cons]
      cases (c :: body).dropLast with
      | nil => rfl
      | cons first above => rfl
  · cases named

-- A line of which several basic blocks were made.
theorem discriminator_unread : ∃ r : Report, ∃ elf,
    r.printed = "kmain\n/w/kernel.c:42 (discriminator 3)\n".toList ∧ parseAddr2line r.printed elf = none ∧
    r.known = some ("kmain".toList,"/w/kernel.c".toList,42) ∧ ¬ Exact r elf (parseAddr2line r.printed elf) := by
  refine ⟨⟨some "kmain".toList,some "/w/kernel.c".toList,some 42,some 3,?_,?_,?_⟩,"/w/build/k.elf".toList,?_⟩
  · rintro _ ⟨⟩
    decide
  · rintro _ ⟨⟩
    decide
  · rintro _ ⟨⟩
    decide
  · refine ⟨by decide +kernel,by decide +kernel,rfl,fun exact => ?_⟩
    have none : parseAddr2line "kmain\n/w/kernel.c:42 (discriminator 3)\n".toList "/w/build/k.elf".toList = none := by decide +kernel
    cases none.symm.trans exact.1

end PrincessIDE.Symbolize
