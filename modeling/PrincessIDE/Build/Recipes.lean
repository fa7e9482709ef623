import PrincessIDE.Build.Printed
import PrincessIDE.Foundation.Sticky

namespace PrincessIDE.Diagnostics
open Utf8 (Text)
open Str Event

-- A line as the parser looks at it.
def withoutEnd (line : Text) : Text := trimEndMatches (fun c => c = '\r' || c = '\n') line

-- `file:line` in front of a word, as a whole or up to a colon.
def Located (word : Text) : Prop := ∃ file digits rest, word = file ++ ':' :: (digits ++ rest) ∧ digits ≠ [] ∧
  digits.all isAsciiDigit = true ∧ ∀ c ∈ rest.head?, c = ':'

-- `gcc:`
def MessagePrefix (word : Text) : Prop := word.getLast? = some ':'

-- A line whose first word is the program of a command, not a location or the prefix
-- of a message, and that is no diagnostic itself.
structure Recipe (program : Text → Prop) (line : Text) (family : ToolFamily) : Prop where
  first : ∃ word, (splitWhitespace (withoutEnd line)).head? = some word ∧ program word ∧ ¬ Located word ∧ ¬ MessagePrefix word ∧
    ToolFamily.forProgram word = family
  known : family ≠ .unknown
  quiet : parseLine (withoutEnd line) = none

-- The texts that `classifySource` knows a tool by.
def marks : List Text :=
  ["parser: instruction expected".toList,"use of undeclared identifier".toList,"expected ';' after".toList,
    "incompatible integer to pointer".toList,"each undeclared identifier is reported only once".toList,
    "expected '=' , ',' , ';' , 'asm' or '__attribute__'".toList,"note: expected".toList,"undefined reference to".toList,
    "cannot find entry symbol".toList,"relocation truncated".toList,"final link failed".toList]

-- Neither a text of a line nor its form tells the tool.
structure Unclassified (line : Text) : Prop where
  nasmless : contains "nasm:".toList (line.map toAsciiLowercase) = false ∧ contains "nasm ".toList (line.map toAsciiLowercase) = false
  unmarked : ∀ mark ∈ marks, contains mark line = false
  unlinked : parseLdForm line = none

-- After every line the parser holds the family of the latest recipe, and a diagnostic
-- that tells no tool itself is given to that family.
structure Faithful (program : Text → Prop) (p : DiagnosticParser) (lines : List Text) : Prop where
  held : ∀ before, before <+: lines → Last (Recipe program) p.family before (p.feedLines before).2.family
  attributed : ∀ before line, before ++ [line] <+: lines → Unclassified (withoutEnd line) →
    ∀ family, Last (Recipe program) p.family (before ++ [line]) family →
      ∀ d ∈ ((p.feedLines before).2.feed line).1, d.source = family.defaultSource.getD .gcc

-- The first word stands at the start of the text behind its blanks.
theorem first_start (first : (splitWhitespace t).head? = some word) : startsWith word (trimStart t) = true := by
  obtain ⟨blanks,whole,blank⟩ := trimStart_cut t
  have same : words [] (trimStart t) = splitWhitespace t := by
    have behind := words_blank blank (trimStart t)
    rw [← whole] at behind
    exact behind.symm
  rw [← same] at first
  obtain ⟨more,split⟩ : ∃ more, words [] (trimStart t) = word :: more := by
    cases listed : words [] (trimStart t) with
    | nil => rw [listed] at first; cases first
    | cons x more => rw [listed] at first; cases first; exact ⟨more,rfl⟩
  obtain ⟨front,tail,cut,white,_⟩ := words_first split
  rw [List.nil_append] at cut
  cases front with
  | nil => rw [cut,List.nil_append,startsWith,stripPrefix_append]; rfl
  | cons c front =>
    have solid := trimStart_head (t:=t) (c:=c) (by rw [cut]; rfl)
    rw [white c List.mem_cons_self] at solid
    cases solid

theorem recipe_read (recipe : Recipe program line family) : ToolFamily.fromRecipeLine (withoutEnd line) = some family := by
  obtain ⟨word,first,_,_,_,named⟩ := recipe.first
  unfold ToolFamily.fromRecipeLine
  rw [first]
  simp only [Option.bind_eq_bind,Option.bind_some,first_start first,Bool.not_true,Bool.false_eq_true,if_false,named]
  cases known : family with
  | unknown => exact absurd known recipe.known
  | gcc => rfl
  | clang => rfl
  | ld => rfl
  | nasm => rfl

theorem recipe_unique (one : Recipe program line family) (other : Recipe program line family') : family = family' :=
  Option.some.inj ((recipe_read one).symm.trans (recipe_read other))

theorem recipe_blank (blank : trim t = []) : ToolFamily.fromRecipeLine t = none := by
  have empty : splitWhitespace t = [] := by
    rw [← words_trim,blank]
    rfl
  rw [ToolFamily.fromRecipeLine,empty]
  rfl

-- The parser as it reads a line: with the family of the line, where it names one.
def DiagnosticParser.turned (p : DiagnosticParser) (line : Text) : DiagnosticParser :=
  {p with family:=(ToolFamily.fromRecipeLine (withoutEnd line)).getD p.family}

theorem feed_turned (p : DiagnosticParser) (filled : trim (withoutEnd line) ≠ []) :
    p.feed line = match parseLineFor (withoutEnd line) (p.turned line).family with
      | some raw => ((p.finish raw).toList,{p.turned line with last:=some raw})
      | none =>
        if !isContinuation (trim (withoutEnd line)) then ([],{p.turned line with last:=none})
        else ([],{p.turned line with last:=p.last.map (DiagnosticParser.fold · (trim (withoutEnd line)))}) := by
  unfold DiagnosticParser.feed DiagnosticParser.turned
  rw [show trimEndMatches (fun c => c = '\r' || c = '\n') line = withoutEnd line from rfl]
  dsimp only
  rw [if_neg filled]
  cases ToolFamily.fromRecipeLine (withoutEnd line) <;> rfl

theorem feed_cases (p : DiagnosticParser) (line : Text) :
    trim (withoutEnd line) = [] ∧ p.feed line = ([],p) ∨
    (∃ raw, parseLineFor (withoutEnd line) (p.turned line).family = some raw ∧
      p.feed line = ((p.finish raw).toList,{p.turned line with last:=some raw})) ∨
    ∃ last, parseLineFor (withoutEnd line) (p.turned line).family = none ∧ p.feed line = ([],{p.turned line with last:=last}) := by
  by_cases blank : trim (withoutEnd line) = []
  · exact .inl ⟨blank,if_pos blank⟩
  · refine .inr ?_
    have fed := feed_turned p blank
    split at fed
    · next raw parsed => exact .inl ⟨raw,parsed,fed⟩
    · next parsed =>
      split at fed
      · exact .inr ⟨_,parsed,fed⟩
      · exact .inr ⟨_,parsed,fed⟩

theorem feed_family (p : DiagnosticParser) (line : Text) : (p.feed line).2.family = (ToolFamily.fromRecipeLine (withoutEnd line)).getD p.family := by
  obtain ⟨blank,fed⟩ | ⟨raw,_,fed⟩ | ⟨last,_,fed⟩ := feed_cases p line
  · rw [fed,recipe_blank blank]
    rfl
  · rw [fed]
    rfl
  · rw [fed]
    rfl

theorem feedLines_family (p : DiagnosticParser) (lines : List Text) :
    (p.feedLines lines).2.family = hold (fun line => ToolFamily.fromRecipeLine (withoutEnd line)) p.family lines := by
  induction lines generalizing p with
  | nil => rfl
  | cons line lines ih =>
    rw [DiagnosticParser.feedLines]
    dsimp only
    rw [ih,feed_family]
    rfl

theorem classify_family (nasmless : contains "nasm:".toList (line.map toAsciiLowercase) = false ∧ contains "nasm ".toList (line.map toAsciiLowercase) = false)
    (instruction : contains "parser: instruction expected".toList line = false) (unmarked : ∀ mark ∈ marks, contains mark message = false)
    (family : ToolFamily) : classifySource message line family = family.defaultSource.getD .gcc := by
  simp only [marks,List.forall_mem_cons] at unmarked
  obtain ⟨_,undeclared,expected,pointer,once,expects,note,reference,entry,relocation,link,_⟩ := unmarked
  unfold classifySource
  dsimp only
  rw [nasmless.1,nasmless.2,instruction,undeclared,expected,pointer,once,expects,note,reference,entry,relocation,link]
  cases family <;> rfl

-- What the parser reads from a line that tells no tool comes from the family it holds.
theorem parsed_family (unclassified : Unclassified line) (parsed : parseLineFor line family = some raw) : raw.source = family.defaultSource.getD .gcc := by
  cases parsed_form parsed with
  | @colon location after _ _ _ _ first _ _ =>
    refine classify_family unclassified.nasmless (unclassified.unmarked _ List.mem_cons_self) (fun mark listed => ?_) family
    -- the message is a part of the line
    obtain ⟨m,_,cut,_⟩ := (earliest_found first).1
    obtain ⟨blanks,tail,whole,_⟩ := trim_cut after
    cases inside : contains mark (trim after) with
    | false => rfl
    | true =>
      have within := contains_behind (contains_ahead (contains_behind inside blanks) tail) (location ++ m.1)
      rw [← whole,← splitOnce_eq cut,unclassified.unmarked mark listed] at within
      cases within
  | make => rfl
  | ld linked _ =>
    rw [unclassified.unlinked] at linked
    cases linked

-- The parser holds the family of the latest recipe all along exactly if every other line
-- that it takes for one names the family that it holds.
theorem faithful_iff (program : Text → Prop) (p : DiagnosticParser) (lines : List Text) :
    Faithful program p lines ↔ ∀ before line, before ++ [line] <+: lines → (∀ family, ¬ Recipe program line family) →
      ∀ family, ToolFamily.fromRecipeLine (withoutEnd line) = some family → Last (Recipe program) p.family before family := by
  have holds := hold_last_iff (fun line family => @recipe_read program line family) p.family lines
  constructor
  · intro faithful
    refine holds.mp fun before here => ?_
    have held := faithful.held before here
    rwa [feedLines_family] at held
  · intro named
    have held : ∀ before, before <+: lines → Last (Recipe program) p.family before (p.feedLines before).2.family := by
      intro before here
      rw [feedLines_family]
      exact holds.mpr named before here
    refine ⟨held,fun before line here unclassified family last d reported => ?_⟩
    have after := held _ here
    have same : family = ((p.feedLines before).2.turned line).family := by
      refine Last.unique (fun line _ _ => @recipe_unique program line _ _) last ?_
      rw [feedLines_family,hold_snoc,← feedLines_family] at after
      exact after
    subst same
    obtain ⟨_,fed⟩ | ⟨raw,parsed,fed⟩ | ⟨_,_,fed⟩ := feed_cases (p.feedLines before).2 line
    · rw [fed] at reported
      cases reported
    · rw [fed] at reported
      have finished := Option.mem_toList.mp reported
      unfold DiagnosticParser.finish at finished
      dsimp only at finished
      split at finished
      · cases finished
      · cases finished
        exact parsed_family unclassified parsed
    · rw [fed] at reported
      cases reported

-- `gcc -c clang.c` and what it says about the file.
def misnamed : List Text := ["gcc -c clang.c".toList,"clang.c:5:1: error: x".toList]

theorem misnamed_unfaithful : ¬ Faithful (fun word => word = "gcc".toList) (.new "/p".toList) misnamed := by
  intro faithful
  have held := faithful.held misnamed (List.prefix_refl _)
  have changed : ((DiagnosticParser.new "/p".toList).feedLines misnamed).2.family = .clang := by decide +kernel
  rw [changed] at held
  have echo : Recipe (fun word => word = "gcc".toList) "gcc -c clang.c".toList .gcc := by
    refine ⟨⟨"gcc".toList,by decide,rfl,?_,by unfold MessagePrefix; decide,by decide⟩,by decide,by decide⟩
    rintro ⟨file,digits,rest,whole,_⟩
    have inside : ':' ∈ "gcc".toList := by rw [whole]; simp
    exact absurd inside (by decide)
  have diagnostic : ∀ family, ¬ Recipe (fun word => word = "gcc".toList) "clang.c:5:1: error: x".toList family := by
    intro family recipe
    have quiet := recipe.quiet
    have reported : (parseLine (withoutEnd "clang.c:5:1: error: x".toList)).isSome = true := by decide
    rw [quiet] at reported
    cases reported
  have compiled : Last (Recipe fun word => word = "gcc".toList) .unknown ["gcc -c clang.c".toList] .clang := (Last.silent_iff diagnostic).mp held
  cases Last.unique (fun line _ _ => @recipe_unique _ line _ _) compiled (Last.named echo [])

end PrincessIDE.Diagnostics
