import PrincessIDE.Build.Printed
import PrincessIDE.Cli.Diagnostics

namespace PrincessIDE.CliDiagnostics
open Utf8 (Text)
open Str Event
open Diagnostics (isAsciiDigit digits_plain decimal_digits endsWith Wording Place Printed EndsNumbered Unmarked)

structure Numeral (t : Text) (n : Nat) : Prop where
  filled : t ≠ []
  digits : t.all isAsciiDigit = true
  read : fromStrRadix 10 u32 t = some n

theorem decimal_numeral (n : UInt32) : Numeral (decimal n.toNat) n.toNat :=
  ⟨decimal_nonempty _,decimal_digits _,fromStrRadix_decimal n.toNat_lt⟩

-- A name as the parser takes it.
def Bare (name : Text) : Prop := name ≠ [] ∧ ' ' ∉ name ∧ '\t' ∉ name

-- What the parts of a line between its colons say: a name, a line number, a column
-- or none, and a word of severity.
inductive Reads : List Text → Text → Nat → Option Nat → DiagnosticSeverity → Prop where
  | line : Bare name → Numeral l n → severityOf (trim word) = some severity → Reads (name :: l :: word :: more) name n none severity
  | column : Bare name → Numeral l n → Numeral c col → severityOf (trim word) = some severity →
      Reads (name :: l :: c :: word :: more) name n (some col) severity

theorem numeral_cut (numeral : Numeral digits n) (behind : Text) : takeNumber (digits ++ ':' :: behind) = some (n,':' :: behind) := by
  have all := List.all_eq_true.mp numeral.digits
  have front : (digits ++ ':' :: behind).takeWhile isAsciiDigit = digits := by
    rw [List.takeWhile_append_of_pos all]
    simp [isAsciiDigit]
  have back : (digits ++ ':' :: behind).dropWhile isAsciiDigit = ':' :: behind := by
    rw [List.dropWhile_append_of_pos all]
    simp [isAsciiDigit]
  unfold takeNumber
  rw [front,back]
  simp [numeral.filled,numeral.read]

theorem takeNumber_numeral (taken : takeNumber t = some (n,rest)) : ∃ digits, Numeral digits n ∧ t = digits ++ rest := by
  unfold takeNumber at taken
  dsimp only at taken
  split at taken
  · cases taken
  · next some =>
    obtain ⟨value,read,same⟩ := Option.map_eq_some_iff.mp taken
    cases same
    exact ⟨_,⟨some,List.all_takeWhile,read⟩,List.takeWhile_append_dropWhile.symm⟩

theorem split_filled (c : Char) (t : Text) : ∃ first more, split [c] t = first :: more := by
  by_cases inside : c ∈ t
  · obtain ⟨a,b,rfl,absent⟩ := List.eq_append_cons_of_mem inside
    exact ⟨a,_,split_char absent b⟩
  · exact ⟨t,[],split_absent inside (List.mem_singleton.mpr rfl)⟩

theorem split_first {t : Text} (parts : split [c] t = a :: more) :
    c ∉ a ∧ (t = a ∧ more = [] ∨ ∃ rest, t = a ++ c :: rest ∧ split [c] rest = more) := by
  by_cases inside : c ∈ t
  · obtain ⟨x,y,rfl,absent⟩ := List.eq_append_cons_of_mem inside
    rw [split_char absent] at parts
    obtain ⟨rfl,later⟩ := List.cons.inj parts
    exact ⟨absent,.inr ⟨y,rfl,later⟩⟩
  · rw [split_absent inside (List.mem_singleton.mpr rfl)] at parts
    obtain ⟨rfl,later⟩ := List.cons.inj parts
    exact ⟨inside,.inl ⟨rfl,later.symm⟩⟩

theorem split_cons {t : Text} (parts : split [c] t = a :: b :: more) : ∃ rest, t = a ++ c :: rest ∧ split [c] rest = b :: more ∧ c ∉ a := by
  obtain ⟨absent,⟨_,none⟩ | ⟨rest,whole,later⟩⟩ := split_first parts
  · cases none
  · exact ⟨rest,whole,later,absent⟩

theorem tokenOf_first (parts : split [':'] rest = word :: more) : (tokenOf (trimStart rest)).1 = trim word := by
  obtain ⟨absent,place⟩ := split_first parts
  have clean : ':' ∉ trimStart word := fun within => absent ((List.dropWhile_suffix _).subset within)
  rcases place with ⟨rfl,_⟩ | ⟨behind,rfl,_⟩
  · have cut : splitOnce ":".toList (trimStart rest) = none := splitOnce_none clean (List.mem_singleton.mpr rfl)
    rw [tokenOf,cut]
    exact trim_start rest
  · have cut : splitOnce ":".toList (trimStart (word ++ ':' :: behind)) = some (trimStart word,behind) := by
      rw [trimStart_ahead (by decide)]
      exact splitOnce_char clean behind
    rw [tokenOf,cut]
    exact trim_start word

theorem severityOf_letter (named : severityOf (c :: t) = some severity) : isAsciiDigit c = false := by
  have each : ∀ word, c :: t = word → ∀ first ∈ word.head?, isAsciiDigit first = false → isAsciiDigit c = false := by
    rintro word rfl first here letter
    cases here
    exact letter
  unfold severityOf at named
  split at named
  · next word => exact word.elim (fun word => each _ word 'e' rfl rfl) fun word => each _ word 'f' rfl rfl
  · split at named
    · next word => exact each _ word 'w' rfl rfl
    · split at named
      · next word => exact each _ word 'n' rfl rfl
      · cases named

theorem digit_solid (digit : isAsciiDigit c = true) : isWhitespace c = false := by
  simp only [isAsciiDigit,Bool.and_eq_true,decide_eq_true_eq] at digit
  exact printable_solid (by omega) (by omega)

theorem trim_digit (digit : isAsciiDigit c = true) (t : Text) : trim (c :: t) = c :: trimEnd t := by
  rw [trim,trimStart_solid (digit_solid digit)]
  exact trimEnd_behind (digit_solid digit) [] t

-- A word of severity does not begin with a digit, so no column is read from it.
theorem word_column (named : severityOf (trim word) = some severity) (parts : split [':'] rest = word :: more) : takeNumber rest = none := by
  have first : ∀ c ∈ rest.head?, isAsciiDigit c = false := by
    intro c here
    cases digit : isAsciiDigit c with
    | false => rfl
    | true =>
      cases word with
      | nil => cases named
      | cons x word =>
        have same : x = c := by
          obtain ⟨_,⟨rfl,_⟩ | ⟨behind,rfl,_⟩⟩ := split_first parts
          all_goals exact Option.some.inj here
        subst same
        rw [trim_digit digit] at named
        rw [severityOf_letter named] at digit
        cases digit
  cases rest with
  | nil => rfl
  | cons c t =>
    have letter := first c rfl
    simp [takeNumber,letter]

theorem digits_word (digits : word.all isAsciiDigit = true) : severityOf (trim word) = none := by
  cases word with
  | nil => rfl
  | cons c t =>
    have digit := List.all_eq_true.mp digits c List.mem_cons_self
    cases named : severityOf (trim (c :: t)) with
    | none => rfl
    | some severity =>
      rw [trim_digit digit] at named
      rw [severityOf_letter named] at digit
      cases digit

theorem bare_iff : (decide (name = []) || name.contains ' ' || name.contains '\t') = false ↔ Bare name := by
  simp [Bare,and_assoc]

theorem parseLocated_sound (parsed : parseLocated line cwd defaultSource = some ⟨severity,some file,some n,col,message,source⟩) :
    ∃ name, Reads (split [':'] line) name n col severity ∧ resolveFile name cwd = file := by
  obtain ⟨name,rest,number,behind,last,found,bare,numbered,second,named,file',line',col'⟩ := located_read parsed
  cases file'
  cases line'
  refine ⟨name,?_,rfl⟩
  have plain := bare_iff.mp bare
  obtain ⟨digits,numeral,cut⟩ := takeNumber_numeral numbered
  have front : split [':'] line = name :: digits :: split [':'] behind := by
    have first : splitOnce [':'] line = some (name,rest) := found
    rw [split_found (List.cons_ne_nil _ _) first,cut,split_char (digits_plain numeral.digits).1]
  rw [front]
  obtain ⟨word,more,parts⟩ := split_filled ':' last
  rw [tokenOf_first parts] at named
  change col = _ at col'
  subst col'
  cases column : takeNumber behind with
  | none =>
    rw [columnOf,column] at second ⊢
    cases second
    rw [parts]
    exact Reads.line plain numeral named
  | some found =>
    obtain ⟨c,after⟩ := found
    rw [columnOf,column] at second ⊢
    dsimp only at second ⊢
    obtain ⟨digits',numeral',cut'⟩ := takeNumber_numeral column
    rw [cut',second,split_char (digits_plain numeral'.digits).1,parts]
    exact Reads.column plain numeral numeral' named

theorem parseLocated_parts (bare : Bare name) (absent : ':' ∉ name) (numeral : Numeral l n) (column : columnOf behind (':' :: behind) = (col,':' :: last))
    (parts : split [':'] last = word :: more) (named : severityOf (trim word) = some severity) (cwd : Text) (defaultSource : DiagnosticSource) :
    ∃ message source, parseLocated (name ++ ':' :: (l ++ ':' :: behind)) cwd defaultSource =
      some ⟨severity,some (resolveFile name cwd),some n,col,message,source⟩ := by
  have cut : splitOnce ":".toList (name ++ ':' :: (l ++ ':' :: behind)) = some (name,l ++ ':' :: behind) := splitOnce_char absent _
  have colon : ∀ t, stripPrefix ":".toList (':' :: t) = some t := fun _ => rfl
  unfold parseLocated
  rw [cut]
  simp only [Option.bind_eq_bind,Option.bind_some,bare_iff.mpr bare,Bool.false_eq_true,if_false,numeral_cut numeral,colon,column,
    tokenOf_first parts,named]
  exact ⟨_,_,rfl⟩

theorem numeral_column (numeral : Numeral c col) (last rest : Text) : columnOf (c ++ ':' :: last) rest = (some col,':' :: last) := by
  rw [columnOf,numeral_cut numeral]

theorem parseLocated_complete (cwd : Text) (defaultSource : DiagnosticSource) (reads : Reads (split [':'] line) name n col severity) :
    ∃ message source, parseLocated line cwd defaultSource = some ⟨severity,some (resolveFile name cwd),some n,col,message,source⟩ := by
  generalize whole : split [':'] line = parts at reads
  cases reads with
  | line bare numeral named =>
    obtain ⟨rest,rfl,second,absent⟩ := split_cons whole
    obtain ⟨behind,rfl,third,_⟩ := split_cons second
    have column : columnOf behind (':' :: behind) = (none,':' :: behind) := by rw [columnOf,word_column named third]
    exact parseLocated_parts bare absent numeral column third named cwd defaultSource
  | column bare numeral numeral' named =>
    obtain ⟨rest,rfl,second,absent⟩ := split_cons whole
    obtain ⟨behind,rfl,third,_⟩ := split_cons second
    obtain ⟨last,rfl,fourth,_⟩ := split_cons third
    exact parseLocated_parts bare absent numeral (numeral_column numeral' last _) fourth named cwd defaultSource

-- The numbers of a place, as they stand between colons.
def numbers (p : Place) : List Text := decimal p.line.toNat :: (p.col.map fun col => decimal col.toNat).toList

theorem numbers_word (inside : word ∈ numbers p) : severityOf (trim word) = none := by
  obtain ⟨line,col⟩ := p
  cases col with
  | none =>
    rw [List.mem_singleton.mp inside]
    exact digits_word (decimal_digits _)
  | some col =>
    rcases List.mem_cons.mp inside with rfl | inside
    · exact digits_word (decimal_digits _)
    · rw [List.mem_singleton.mp inside]
      exact digits_word (decimal_digits _)

theorem Reads.more (reads : Reads parts name n col severity) (behind : List Text) : Reads (parts ++ behind) name n col severity := by
  cases reads with
  | line bare numeral named => exact .line bare numeral named
  | column bare numeral numeral' named => exact .column bare numeral numeral' named

theorem Reads.third (reads : Reads (a :: b :: c :: rest) name n col severity) :
    a = name ∧ Bare name ∧ Numeral b n ∧ (col = none ∧ severityOf (trim c) = some severity ∨
      ∃ k word more, rest = word :: more ∧ col = some k ∧ Numeral c k ∧ severityOf (trim word) = some severity) := by
  cases reads with
  | line bare numeral named => exact ⟨rfl,bare,numeral,.inl ⟨rfl,named⟩⟩
  | column bare numeral numeral' named => exact ⟨rfl,bare,numeral,.inr ⟨_,_,_,rfl,rfl,numeral',named⟩⟩

theorem spaced_digits {t : Text} : ¬ Numeral (' ' :: t) n := by
  intro numeral
  have digit := List.all_eq_true.mp numeral.digits ' ' List.mem_cons_self
  exact absurd digit (by decide)

-- What a name with colons in it says by itself, it says with a place behind it, and
-- it has to say it by itself: a number of the place is no word of severity.
theorem reads_behind (p : Place) (word : Text) (more : List Text)
    (reads : Reads (first :: second :: rest ++ (numbers p ++ (' ' :: word) :: more)) name n (p.col.map UInt32.toNat) severity) :
    Reads (first :: second :: rest) name n (p.col.map UInt32.toNat) severity := by
  have wordless : ∀ t, t ∈ numbers p → severityOf (trim t) ≠ some severity := by
    intro t inside named
    rw [numbers_word inside] at named
    cases named
  cases rest with
  | nil =>
    obtain ⟨_,_,_,⟨_,named⟩ | ⟨k,t,_,same,column,_,named⟩⟩ := reads.third
    · exact absurd named (wordless _ List.mem_cons_self)
    · obtain ⟨line,col⟩ := p
      cases col with
      | none => cases column
      | some col =>
        obtain ⟨here,_⟩ := List.cons.inj same
        rw [← here] at named
        exact absurd named (wordless _ (List.mem_cons_of_mem _ List.mem_cons_self))
  | cons third rest =>
    obtain ⟨rfl,bare,numeral,⟨column,named⟩ | ⟨k,t,_,same,column,numeral',named⟩⟩ := reads.third
    · rw [column]
      exact .line bare numeral named
    · rw [column]
      cases rest with
      | nil =>
        obtain ⟨here,_⟩ := List.cons.inj same
        rw [← here] at named
        exact absurd named (wordless _ List.mem_cons_self)
      | cons fourth rest =>
        obtain ⟨here,_⟩ := List.cons.inj same
        rw [← here] at named
        exact .column bare numeral numeral' named

-- A name without colons says what the place and the word behind it say.
theorem reads_plain (p : Place) (word : Text) (more : List Text) :
    Reads (first :: (numbers p ++ (' ' :: word) :: more)) name p.line.toNat (p.col.map UInt32.toNat) severity ↔
      first = name ∧ Bare name ∧ severityOf (trim (' ' :: word)) = some severity := by
  obtain ⟨line,col⟩ := p
  cases col with
  | none =>
    constructor
    · intro reads
      obtain ⟨same,bare,_,⟨_,named⟩ | ⟨_,_,_,_,_,numeral,_⟩⟩ := reads.third
      · exact ⟨same,bare,named⟩
      · exact absurd numeral spaced_digits
    · rintro ⟨rfl,bare,named⟩
      exact .line bare (decimal_numeral line) named
  | some col =>
    constructor
    · intro reads
      obtain ⟨same,bare,_,⟨none,_⟩ | ⟨_,_,_,tail,_,_,named⟩⟩ := reads.third
      · cases none
      · cases tail
        exact ⟨same,bare,named⟩
    · rintro ⟨rfl,bare,named⟩
      exact .column bare (decimal_numeral line) (decimal_numeral col) named
theorem wording_severity (w : Wording) : severityOf (trim (' ' :: w.text)) = if w = .fatalError then none else some w.severity := by
  cases w <;> decide

theorem wording_absent (w : Wording) : ':' ∉ ' ' :: w.text := by
  cases w <;> decide

-- `file:line[:col]: severity: message`
def located (file : Text) (p : Place) (w : Wording) (message : Text) : Printed := ⟨file,some p,w,message⟩

theorem split_located (file : Text) (p : Place) (w : Wording) (message : Text) :
    ∃ more, split [':'] (located file p w message).text = split [':'] file ++ (numbers p ++ (' ' :: w.text) :: more) := by
  have digits : ∀ n, ':' ∉ decimal n := fun n => (digits_plain (decimal_digits n)).1
  obtain ⟨line,col⟩ := p
  cases col with
  | none =>
    have whole : (located file ⟨line,none⟩ w message).text =
        file ++ ':' :: (decimal line.toNat ++ ':' :: ((' ' :: w.text) ++ ':' :: ' ' :: message)) := by
      simp [located,Printed.text,Printed.location,Place.text,Wording.marker]
    refine ⟨split [':'] (' ' :: message),?_⟩
    rw [whole,split_behind,split_char (digits _),split_char (wording_absent w)]
    rfl
  | some col =>
    have whole : (located file ⟨line,some col⟩ w message).text =
        file ++ ':' :: (decimal line.toNat ++ ':' :: (decimal col.toNat ++ ':' :: ((' ' :: w.text) ++ ':' :: ' ' :: message))) := by
      simp [located,Printed.text,Printed.location,Place.text,Wording.marker]
    refine ⟨split [':'] (' ' :: message),?_⟩
    rw [whole,split_behind,split_char (digits _),split_char (digits _),split_char (wording_absent w)]
    rfl

theorem trimEnd_said (said : trim message ≠ []) : trimEnd (' ' :: message) = ' ' :: trimEnd message := by
  obtain ⟨c,inside,solid⟩ : ∃ c ∈ message, isWhitespace c = false := by
    by_contra none
    push Not at none
    have blank : ∀ c ∈ message, isWhitespace c = true := fun c inside => by simpa using none c inside
    have empty := trim_append blank []
    rw [List.nil_append] at empty
    exact said (empty.trans rfl)
  obtain ⟨front,rest,rfl⟩ := List.append_of_mem inside
  rw [trimEnd_behind solid,← List.cons_append,trimEnd_behind solid]
  rfl

theorem trim_located (named : file ≠ []) (trimmed : trim file = file) (said : trim message ≠ []) (p : Place) (w : Wording) :
    trim (located file p w message).text = (located file p w (trimEnd message)).text := by
  have start : trimStart (located file p w message).text = (located file p w message).text := by
    refine trimStart_of_head fun c first => (trimmed_iff.mpr trimmed).1 c ?_
    cases file with
    | nil => exact absurd rfl named
    | cons x file => exact first
  have whole : ∀ message, (located file p w message).text = (file ++ p.text ++ ": ".toList ++ w.text) ++ ':' :: ' ' :: message := by
    intro message
    simp [located,Printed.text,Printed.location,Wording.marker]
  rw [trim,start,whole,whole,trimEnd_behind (by decide),trimEnd_said said]
-- No tool is named by what a text says before its first colon and blank.
def Unlinked (file : Text) : Prop := ∀ head tail, splitOnce ": ".toList file = some (head,tail) → isLinker (trim head) = false

theorem parseTool_none (found : splitOnce ": ".toList line = some (head,tail)) (linker : isLinker (trim head) = false) (driver : isDriver (trim head) = false)
    (defaultSource : DiagnosticSource) : parseTool line defaultSource = none := by
  unfold parseTool
  rw [found]
  simp [linker,driver]

theorem parseTool_linker (found : splitOnce ": ".toList line = some (head,tail)) (linker : isLinker (trim head) = true)
    (defaultSource : DiagnosticSource) : ∃ d, parseTool line defaultSource = some d := by
  unfold parseTool
  rw [found]
  cases severityOf (toolParts tail).1 <;> simp [linker]

theorem parseTool_nowhere (parsed : parseTool line defaultSource = some d) : d.file = none := by
  obtain ⟨⟨head,tail⟩,_,parsed⟩ := Option.bind_eq_some_iff.mp parsed
  dsimp only at parsed
  split at parsed
  · obtain ⟨_,_,same⟩ := Option.bind_eq_some_iff.mp parsed
    cases same
    rfl
  · cases parsed

theorem driver_colon (inside : ':' ∈ head) : isDriver head = false := by
  have apart : ∀ tool : Text, ':' ∉ tool → head ≠ tool := fun tool absent same => absent (same ▸ inside)
  simp only [isDriver,Bool.or_eq_false_iff,decide_eq_false_iff_not]
  exact ⟨⟨⟨apart _ (by decide),apart _ (by decide)⟩,apart _ (by decide)⟩,apart _ (by decide)⟩

-- No linker's name ends in a colon and a number.
theorem linker_numbered (numbered : EndsNumbered head) : isLinker head = false := by
  obtain ⟨front,digits,rfl,_,all⟩ := numbered
  have apart : ∀ tool : Text, ':' ∉ tool → ∀ c ∈ tool.head?, isAsciiDigit c = false → ∀ more, front ++ ':' :: digits ≠ more ++ tool := by
    intro tool absent c first letter more same
    rcases List.append_eq_append_iff.mp same with ⟨x,_,cut⟩ | ⟨x,_,cut⟩
    · cases x with
      | nil =>
        rw [List.nil_append] at cut
        exact absent (cut ▸ List.mem_cons_self)
      | cons y x =>
        rw [List.cons_append] at cut
        have inside : c ∈ digits := by
          rw [(List.cons.inj cut).2]
          cases tool with
          | nil => cases first
          | cons z tool => cases first; simp
        rw [List.all_eq_true.mp all c inside] at letter
        cases letter
    · exact absent (cut ▸ by simp)
  have ends : ∀ tool : Text, ':' ∉ tool → ∀ c ∈ tool.head?, isAsciiDigit c = false → endsWith tool (front ++ ':' :: digits) = false := by
    intro tool absent c first letter
    cases found : endsWith tool (front ++ ':' :: digits) with
    | false => rfl
    | true =>
      obtain ⟨rest,found⟩ := Option.isSome_iff_exists.mp found
      have whole := congrArg List.reverse (stripPrefix_eq found)
      rw [List.reverse_reverse,List.reverse_append,List.reverse_reverse] at whole
      exact absurd whole (apart tool absent c first letter _)
  simp only [isLinker,Bool.or_eq_false_iff,decide_eq_false_iff_not]
  exact ⟨⟨⟨apart "ld".toList (by decide) 'l' rfl rfl [],ends _ (by decide) '/' rfl rfl⟩,apart "collect2".toList (by decide) 'c' rfl rfl []⟩,
    ends _ (by decide) '/' rfl rfl⟩
theorem trim_numbered (numbered : EndsNumbered t) : EndsNumbered (trim t) := by
  obtain ⟨front,digits,rfl,some,all⟩ := numbered
  refine ⟨trimStart front,digits,?_,some,all⟩
  obtain ⟨init,d,rfl⟩ := (List.eq_nil_or_concat' digits).resolve_left some
  have digit := List.all_eq_true.mp all d (by simp)
  have last := trimEnd_solid (digit_solid digit) (trimStart front ++ ':' :: init)
  rw [trim,trimStart_ahead (by decide)]
  simpa using last

theorem place_numbered (file : Text) (p : Place) : EndsNumbered (file ++ p.text) := by
  obtain ⟨line,col⟩ := p
  cases col with
  | none => exact ⟨file,decimal line.toNat,by simp [Place.text],decimal_nonempty _,decimal_digits _⟩
  | some col => exact ⟨file ++ ':' :: decimal line.toNat,decimal col.toNat,by simp [Place.text],decimal_nonempty _,decimal_digits _⟩

theorem numbered_colon (numbered : EndsNumbered t) : ':' ∈ t := by
  obtain ⟨front,digits,rfl,_⟩ := numbered
  simp

-- The first colon and blank of a line are those of its file name, where it has them.
theorem blank_located (file : Text) (p : Place) (w : Wording) (message : Text) :
    ∃ tail, splitOnce ": ".toList (located file p w message).text = some (match splitOnce ": ".toList file with
      | some found => (found.1,tail)
      | none => (file ++ p.text,tail)) := by
  have whole : (located file p w message).text = (file ++ p.text) ++ ':' :: ' ' :: (w.text ++ [':'] ++ ' ' :: message) := by
    simp [located,Printed.text,Printed.location,Wording.marker]
  cases found : splitOnce ": ".toList file with
  | some parts =>
    obtain ⟨head,rest⟩ := parts
    refine ⟨rest ++ (p.text ++ ':' :: ' ' :: (w.text ++ [':'] ++ ' ' :: message)),?_⟩
    rw [whole,List.append_assoc]
    exact splitOnce_ahead found _
  | none =>
    refine ⟨w.text ++ [':'] ++ ' ' :: message,?_⟩
    rw [whole]
    exact splitOnce_pair (by decide) (splitOnce_pair_none found (Diagnostics.place_spaceless p)) _

theorem tool_located (file : Text) (p : Place) (w : Wording) (message : Text) (defaultSource : DiagnosticSource)
    (colon : ∀ head tail, splitOnce ": ".toList file = some (head,tail) → ':' ∈ head) :
    parseTool (located file p w message).text defaultSource = none ↔ Unlinked file := by
  obtain ⟨tail,first⟩ := blank_located file p w message
  cases found : splitOnce ": ".toList file with
  | none =>
    rw [found] at first
    have numbered := trim_numbered (place_numbered file p)
    refine iff_of_true (parseTool_none first (linker_numbered numbered) (driver_colon (numbered_colon numbered)) defaultSource) ?_
    intro head tail other
    rw [found] at other
    cases other
  | some parts =>
    rw [found] at first
    constructor
    · intro none head tail other
      rw [found] at other
      cases other
      by_contra linker
      obtain ⟨d,parsed⟩ := parseTool_linker first (Bool.not_eq_false _ ▸ linker) defaultSource
      rw [none] at parsed
      cases parsed
    · intro unlinked
      have driver := driver_colon (trim_keeps (by decide) (colon _ _ found))
      exact parseTool_none first (unlinked _ _ found) driver defaultSource

-- The name of a file that reads as a place itself has a colon before any blank.
theorem reads_colon (reads : Reads (split [':'] file) name n col severity) (found : splitOnce ": ".toList file = some (head,tail)) : ':' ∈ head := by
  by_contra absent
  have whole : file = head ++ ':' :: (' ' :: tail) := by rw [splitOnce_eq found]; simp
  have parts := split_char absent (' ' :: tail)
  rw [← whole] at parts
  obtain ⟨second,more,later⟩ := split_filled ':' (' ' :: tail)
  rw [parts,later] at reads
  have spaced : ∃ t, second = ' ' :: t := by
    obtain ⟨_,⟨same,_⟩ | ⟨rest,same,_⟩⟩ := split_first later
    · exact ⟨tail,same.symm⟩
    · cases second with
      | nil => cases same
      | cons x second =>
        rw [List.cons_append] at same
        rw [← (List.cons.inj same).1]
        exact ⟨second,rfl⟩
  obtain ⟨t,rfl⟩ := spaced
  cases reads with
  | line _ numeral _ => exact spaced_digits numeral
  | column _ numeral _ _ => exact spaced_digits numeral
-- Both ways of resolving a name come to the same file: the command line's keeps an
-- absolute name as it stands and knows no file in angle brackets.
def SameFile (cwd file : Text) : Prop :=
  if Path.isAbsolute file = true then Path.normalize file = file
  else startsWith "<".toList file = true → endsWith ">".toList file = true → Path.normalize (Path.join cwd file) = file

theorem same_file (trimmed : trim file = file) (cwd : Text) :
    resolveFile file cwd = (Diagnostics.DiagnosticParser.new cwd).resolve file ↔ SameFile cwd file := by
  unfold resolveFile Diagnostics.DiagnosticParser.resolve SameFile
  rw [trimmed]
  dsimp only [Diagnostics.DiagnosticParser.new]
  by_cases absolute : Path.isAbsolute file = true
  · have named : startsWith "<".toList file = false := by
      cases file with
      | nil => rfl
      | cons c file =>
        simp only [Path.isAbsolute,List.head?_cons,Option.some.injEq,decide_eq_true_eq] at absolute
        rw [absolute]
        rfl
    simp only [if_pos absolute,named,Bool.false_and,Bool.false_eq_true,if_false]
    exact eq_comm
  · simp only [if_neg absolute]
    by_cases pseudo : (startsWith "<".toList file && endsWith ">".toList file) = true
    · rw [if_pos pseudo]
      simp only [Bool.and_eq_true] at pseudo
      exact ⟨fun same _ _ => same,fun same => same pseudo.1 pseudo.2⟩
    · rw [if_neg pseudo]
      simp only [Bool.and_eq_true,not_and] at pseudo
      exact ⟨fun _ front back => absurd back (pseudo front),fun _ => rfl⟩

-- The diagnostic as it was printed, on the side of the build engine.
def EngineReports (d : Printed) : Prop := ∃ message source,
  Diagnostics.parseLine d.text = some ⟨d.wording.severity,some d.file,d.line,d.col,message,source⟩

-- The same on the side of the command line, which resolves the file at once.
def CliReports (cwd : Text) (defaultSource : DiagnosticSource) (d : Printed) : Prop := ∃ message source,
  parseLine d.text cwd defaultSource =
    some ⟨d.wording.severity,some ((Diagnostics.DiagnosticParser.new cwd).resolve d.file),d.line,d.col,message,source⟩

-- What the build engine needs: a name without blanks at its ends and without a marker,
-- and a message.
structure Legible (file : Text) (p : Place) (message : Text) : Prop where
  named : file ≠ []
  trimmed : trim file = file
  plain : p.col = none → ¬ EndsNumbered file
  unmarked : Unmarked (file ++ [':'])
  said : trim message ≠ []

-- What the command line needs beyond it: a name without colons and blanks and a
-- severity of one word, or a name that says the same before its own second colon.
def Agreeable (cwd file : Text) (p : Place) (w : Wording) : Prop :=
  (':' ∉ file ∧ ' ' ∉ file ∧ '\t' ∉ file ∧ w ≠ .fatalError ∧ SameFile cwd file) ∨
  ∃ name, Reads (split [':'] file) name p.line.toNat (p.col.map UInt32.toNat) w.severity ∧
    resolveFile name cwd = (Diagnostics.DiagnosticParser.new cwd).resolve file ∧ Unlinked file

-- Only the form with a marker gives both a file and a line.
theorem colon_form (parsed : Diagnostics.parseLineFor line family = some ⟨severity,some file,some n,col,message,source⟩) :
    ∃ location after, Diagnostics.earliest line Diagnostics.markers = some (location,after,severity) ∧ trim after ≠ [] ∧
      Diagnostics.splitLocation location = some (file,some n,col) := by
  generalize whole : (⟨severity,some file,some n,col,message,source⟩ : Diagnostics.RawDiagnostic) = raw at parsed
  cases Diagnostics.parsed_form parsed with
  | colon first said place =>
    cases whole
    exact ⟨_,_,first,said,place⟩
  | make => cases whole
  | ld => cases whole

theorem marker_long (listed : m ∈ Diagnostics.markers) : 2 ≤ m.1.length := by
  simp only [Diagnostics.markers,List.mem_cons,List.not_mem_nil,or_false] at listed
  rcases listed with rfl | rfl | rfl | rfl <;> decide

theorem engine_reports (file : Text) (p : Place) (w : Wording) (message : Text) :
    EngineReports (located file p w message) ↔ Legible file p message := by
  have text : (located file p w message).text = (file ++ p.text) ++ (w.marker ++ ' ' :: message) := rfl
  have front : ∃ rest, (located file p w message).text = (file ++ [':']) ++ rest := by
    refine ⟨(p.text ++ (w.marker ++ ' ' :: message)).tail,?_⟩
    rw [text]
    simp [Place.text]
  constructor
  · rintro ⟨said,source,parsed⟩
    obtain ⟨location,after,first,spoken,place⟩ := colon_form parsed
    obtain ⟨named,trimmed,short⟩ := Diagnostics.splitLocation_file place
    have unmarked : Unmarked (file ++ [':']) := by
      intro m listed
      by_contra inside
      obtain ⟨⟨a,rest⟩,found⟩ := Option.isSome_iff_exists.mp (Bool.not_eq_false _ ▸ inside)
      obtain ⟨more,whole⟩ := front
      have ahead := splitOnce_ahead found more
      rw [← whole] at ahead
      have before := (Diagnostics.earliest_found first).2 m listed _ _ ahead
      have lengths := congrArg List.length (splitOnce_eq found)
      have long := marker_long listed
      simp only [List.length_append,List.length_singleton] at lengths
      have short : file.length ≤ location.length := short
      omega
    have own := Diagnostics.earliest_marker w (Diagnostics.location_unmarked (located file p w message) unmarked) (' ' :: message)
    change Diagnostics.earliest (located file p w message).text Diagnostics.markers = _ at own
    rw [first] at own
    cases own
    have blank : ∀ c ∈ [' '], isWhitespace c = true := fun c here => by rw [List.mem_singleton.mp here]; decide
    refine ⟨named,trimmed,fun bare => ?_,unmarked,(trim_behind blank message) ▸ spoken⟩
    have col : (located file p w message).col = none := by simp [located,Printed.col,bare]
    rw [col] at place
    exact Diagnostics.splitLocation_plain p bare place
  · rintro ⟨named,trimmed,plain,unmarked,said⟩
    have place := Diagnostics.splitLocation_place p plain (trimmed.symm ▸ named)
    rw [trimmed] at place
    exact ⟨_,_,Diagnostics.parseLineFor_printed (located file p w message) unmarked said place .unknown⟩
theorem cli_reports (legible : Legible file p message) (cwd : Text) (defaultSource : DiagnosticSource) (w : Wording) :
    CliReports cwd defaultSource (located file p w message) ↔ Agreeable cwd file p w := by
  have parsed : parseLine (located file p w message).text cwd defaultSource =
      (parseTool (located file p w (trimEnd message)).text defaultSource).or (parseLocated (located file p w (trimEnd message)).text cwd defaultSource) := by
    unfold parseLine
    rw [trim_lineEnd,trim_located legible.named legible.trimmed legible.said]
    exact if_neg (by simp [located,Printed.text,Printed.location,legible.named])
  obtain ⟨more,parts⟩ := split_located file p w (trimEnd message)
  have line : (located file p w message).line = some p.line.toNat := rfl
  have col : (located file p w message).col = p.col.map UInt32.toNat := rfl
  unfold CliReports
  rw [parsed,line,col]
  constructor
  · rintro ⟨said,source,reported⟩
    rcases Option.or_eq_some_iff.mp reported with tool | ⟨quiet,reported⟩
    · cases parseTool_nowhere tool
    obtain ⟨name,reads,same⟩ := parseLocated_sound reported
    rw [parts] at reads
    obtain ⟨first,rest,filled⟩ := split_filled ':' file
    cases rest with
    | nil =>
      obtain ⟨absent,⟨whole,_⟩ | ⟨_,_,none⟩⟩ := split_first filled
      · subst whole
        rw [filled] at reads
        obtain ⟨rfl,bare,named⟩ := (reads_plain p w.text more).mp reads
        refine .inl ⟨absent,bare.2.1,bare.2.2,?_,(same_file legible.trimmed cwd).mp same⟩
        rintro rfl
        cases named
      · obtain ⟨_,_,some⟩ := split_filled ':' _
        rw [none] at some
        cases some
    | cons second rest =>
      rw [filled] at reads
      have fronted := reads_behind p w.text more reads
      rw [← filled] at fronted
      exact .inr ⟨name,fronted,same,(tool_located file p w _ defaultSource fun _ _ => reads_colon fronted).mp quiet⟩
  · have report : ∀ name, Reads (split [':'] file ++ (numbers p ++ (' ' :: w.text) :: more)) name p.line.toNat (p.col.map UInt32.toNat) w.severity →
        resolveFile name cwd = (Diagnostics.DiagnosticParser.new cwd).resolve file →
        parseTool (located file p w (trimEnd message)).text defaultSource = none →
        ∃ said source, (parseTool (located file p w (trimEnd message)).text defaultSource).or
            (parseLocated (located file p w (trimEnd message)).text cwd defaultSource) =
          some ⟨w.severity,some ((Diagnostics.DiagnosticParser.new cwd).resolve file),some p.line.toNat,p.col.map UInt32.toNat,said,source⟩ := by
      intro name reads same quiet
      rw [← parts] at reads
      obtain ⟨said,source,reported⟩ := parseLocated_complete cwd defaultSource reads
      rw [quiet,Option.none_or,reported,same]
      exact ⟨said,source,rfl⟩
    rintro (⟨colonless,spaceless,tabless,short,same⟩ | ⟨name,reads,same,unlinked⟩)
    · have quiet : splitOnce ": ".toList file = none := splitOnce_none colonless (by decide)
      refine report file ?_ ((same_file legible.trimmed cwd).mpr same) ((tool_located file p w _ defaultSource fun head tail found => ?_).mpr ?_)
      · rw [split_absent colonless (List.mem_singleton.mpr rfl)]
        refine (reads_plain p w.text more).mpr ⟨rfl,⟨legible.named,spaceless,tabless⟩,?_⟩
        rw [wording_severity,if_neg short]
      · rw [quiet] at found
        cases found
      · intro head tail found
        rw [quiet] at found
        cases found
    · exact report name (reads.more _) same ((tool_located file p w _ defaultSource fun _ _ => reads_colon reads).mpr unlinked)

-- A file name, a place, a severity and a message on which both parsers report what
-- was printed.
theorem parsers_agree_iff (cwd : Text) (defaultSource : DiagnosticSource) (file : Text) (p : Place) (w : Wording) (message : Text) :
    (EngineReports (located file p w message) ∧ CliReports cwd defaultSource (located file p w message)) ↔
      Legible file p message ∧ Agreeable cwd file p w := by
  constructor
  · rintro ⟨engine,cli⟩
    have legible := (engine_reports file p w message).mp engine
    exact ⟨legible,(cli_reports legible cwd defaultSource w).mp cli⟩
  · rintro ⟨legible,agreeable⟩
    exact ⟨(engine_reports file p w message).mpr legible,(cli_reports legible cwd defaultSource w).mpr agreeable⟩

-- `k.c:5:3: fatal error: m`: the command line knows `fatal` and no `fatal error`.
def fatal : Printed := located "k.c".toList ⟨5,some 3⟩ .fatalError ['m']

theorem fatal_unreported : EngineReports fatal ∧ ¬ CliReports "/p".toList .gcc fatal := by
  constructor
  · exact ⟨_,_,rfl⟩
  · rintro ⟨_,_,parsed⟩
    have none : parseLine fatal.text "/p".toList .gcc = none := by decide +kernel
    rw [none] at parsed
    cases parsed

end PrincessIDE.CliDiagnostics
