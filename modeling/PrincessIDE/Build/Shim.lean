import PrincessIDE.Build.Clangd
import PrincessIDE.Foundation.Trim

namespace PrincessIDE.Clangd
open Utf8 (Text)
open PrincessIDE.Path JsonText
open Str (startsWith stripPrefix lines trim dropReturn)
open Diagnostics (endsWith)
open BuildBackend (CompileCommand CompileCommands)

-- Flags whose next argument is a value, not a translation unit.
def valueTakingFlags : List Text := ["-o","-MF","-MT","-MQ","-I","-isystem","-include","-x"].map String.toList

-- A run of the shim: `pwd`, the compiler that it stands for, and its arguments.
structure Invocation where
  cwd : Text
  realCc : Text
  args : List Text

def Invocation.argv (i : Invocation) : List Text := i.realCc :: i.args

def escaped (c : Char) : Text := if c = '\\' ∨ c = '"' then ['\\',c] else [c]

def printing (c : Char) : Bool := 0x20 ≤ c.toNat

-- `sed` escapes backslash and double quote; `tr` drops control characters.
def jsonEscape (t : Text) : Text := (t.flatMap escaped).filter printing

-- What the shim writes for a run, but the newline.
def Invocation.record (i : Invocation) : Text :=
  "\x7b\"directory\":\"".toList ++ jsonEscape i.cwd ++ "\",\"arguments\":[\"".toList ++ jsonEscape i.realCc ++ "\"".toList ++
    (i.args.flatMap fun a => ",\"".toList ++ jsonEscape a ++ "\"".toList) ++ "],\"file\":\"\"\x7d".toList

def logOf (runs : List Invocation) : Text := runs.flatMap fun i => i.record ++ ['\n']

section
variable (isFile : Text → Bool)

-- The arguments behind the driver; the flag tells whether the next one is a value.
def scanUnit (cwd : Text) : Bool → List Text → Text
  | _,[] => []
  | true,_ :: rest => scanUnit cwd false rest
  | false,argument :: rest =>
    if startsWith "-".toList argument then scanUnit cwd (valueTakingFlags.contains argument) rest
    else
      let absolute := if isAbsolute argument then argument else join cwd argument
      if isFile absolute then absolute else scanUnit cwd false rest

def translationUnit (arguments : List Text) (cwd : Text) : Text := scanUnit isFile cwd false arguments.tail

def unitEntry (directory : Text) (arguments : List Text) : Option CompileCommand :=
  let file := translationUnit isFile arguments directory
  if file = [] ∨ isFile file = false then none
  else
    let entry : CompileCommand := ⟨directory,arguments,file,none⟩
    if looksLikeCCompilation entry then some entry else none

variable (serde : Serde)

def lineEntry (line : Text) : Option CompileCommand :=
  let line := trim line
  if line = [] then none
  else (serde.fromStr line).bind fun value =>
    let directory := ((value.get "directory").bind Json.asStr).getD []
    let arguments := (((value.get "arguments").bind Json.asArray).map fun argv => argv.filterMap Json.asStr).getD []
    unitEntry isFile directory arguments

-- `ndjson` is what the log holds, if it can be read.
def collect (ndjson : Option Text) (buildCwd : Text) : CompileCommands :=
  let entries := (lines (ndjson.getD [])).foldl (fun entries line => match lineEntry isFile serde line with
    | none => entries
    | some entry => if entries.contains entry then entries else entries ++ [entry]) []
  entries.map fun entry => {entry with directory:=absolutise entry.directory buildCwd}

end

theorem escaped_letter (c : Char) : Spells ((escaped c).filter printing) ([c].filter printing) := by
  by_cases special : c = '\\' ∨ c = '"'
  · rw [escaped,if_pos special]
    rcases special with rfl | rfl <;> exact .cons (.short rfl) .nil
  · rw [escaped,if_neg special]
    by_cases shown : printing c = true
    · rw [List.filter_cons_of_pos shown]
      have plain : plain c = true := by
        obtain ⟨slash,quote⟩ := not_or.mp special
        rw [plain,Bool.and_eq_true,Bool.and_eq_true]
        exact ⟨⟨shown,bne_iff_ne.mpr quote⟩,bne_iff_ne.mpr slash⟩
      exact .cons (.plain plain) .nil
    · rw [List.filter_cons_of_neg shown]
      exact .nil

-- A text is spelled by its escaped form, but for its control characters.
theorem jsonEscape_spells (t : Text) : Spells (jsonEscape t) (t.filter printing) := by
  induction t with
  | nil => exact .nil
  | cons c t ih =>
    have both := (escaped_letter c).append ih
    rwa [jsonEscape,← List.filter_append,← List.flatMap_cons,← List.filter_append] at both

def shown (t : Text) : Text := t.filter printing

def Invocation.value (i : Invocation) : Json := .obj [("directory".toList,.str (shown i.cwd)),
  ("arguments".toList,.arr (i.argv.map fun a => .str (shown a))),("file".toList,.str [])]

def enquote (t : Text) : Text := '"' :: (jsonEscape t ++ ['"'])

theorem enquote_denotes (n : Nat) (t : Text) : Denotes n (enquote t) (.str (shown t)) := by
  have single : ∃ s, Json.str (shown t) = .str s ∧ Quoted (enquote t) s := ⟨_,rfl,_,rfl,jsonEscape_spells t⟩
  cases n with
  | zero => exact single
  | succ n => exact .inl single

theorem name_quoted {name : Text} (solid : name.all plain = true) : Quoted ('"' :: (name ++ ['"'])) name := by
  refine ⟨_,rfl,?_⟩
  induction name with
  | nil => exact .nil
  | cons c name ih =>
    obtain ⟨first,later⟩ := Bool.and_eq_true_iff.mp solid
    exact .cons (.plain first) (ih later)

theorem field_member {P : Text → Json → Prop} {name : Text} (solid : name.all plain = true) (value : P t v) :
    Member P ('"' :: (name ++ ['"']) ++ ':' :: t) (name,v) := by
  refine ⟨'"' :: (name ++ ['"']),[],[],t,?_,name_quoted solid,blank_nil,blank_nil,value⟩
  rfl

theorem record_text (i : Invocation) : i.record = '{' :: (('"' :: ("directory".toList ++ ['"']) ++ ':' :: enquote i.cwd ++
    ',' :: ('"' :: ("arguments".toList ++ ['"']) ++ ':' :: '[' :: (enquote i.realCc ++ i.args.flatMap (fun a => ',' :: enquote a) ++ [']']) ++
    ',' :: ('"' :: ("file".toList ++ ['"']) ++ ':' :: ['"','"']))) ++ ['}']) := by
  have comma : ",\"".toList = [',','"'] := rfl
  have opening : "\x7b\"directory\":\"".toList = '{' :: '"' :: ("directory".toList ++ ['"',':','"']) := by decide +kernel
  have middle : "\",\"arguments\":[\"".toList = '"' :: ',' :: '"' :: ("arguments".toList ++ ['"',':','[','"']) := by decide +kernel
  have closing : "],\"file\":\"\"\x7d".toList = ']' :: ',' :: '"' :: ("file".toList ++ ['"',':','"','"','}']) := by decide +kernel
  have quote : "\"".toList = ['"'] := rfl
  unfold Invocation.record enquote
  simp only [comma,opening,middle,closing,quote,List.append_assoc,List.cons_append,List.nil_append]

-- A recorded line is the JSON text of an object.
theorem record_denotes (i : Invocation) (n : Nat) : Denotes (n+2) i.record i.value := by
  have words : Denotes (n+1) ('[' :: (enquote i.realCc ++ i.args.flatMap (fun a => ',' :: enquote a) ++ [']']))
      (.arr (i.argv.map fun a => .str (shown a))) := by
    refine .inr (.inl ⟨_,rfl,_,rfl,.inr ?_⟩)
    exact joined_items (enquote_denotes n i.realCc) fun a _ => enquote_denotes n a
  have directory := enquote_denotes (n+1) i.cwd
  have file : Denotes (n+1) ['"','"'] (.str []) := .inl ⟨[],rfl,[],rfl,.nil⟩
  refine .inr (.inr ⟨_,rfl,(by decide : (["directory".toList,"arguments".toList,"file".toList] : List Text).Nodup),_,record_text i,.inr ?_⟩)
  have first := field_member (by decide : "directory".toList.all plain = true) directory
  have second := field_member (by decide : "arguments".toList.all plain = true) words
  have third := field_member (by decide : "file".toList.all plain = true) file
  have behind : Items (Member (Denotes (n+1))) _ _ := .last blank_nil third blank_nil
  rw [List.append_nil] at behind
  exact .more blank_nil first blank_nil (.more blank_nil second blank_nil behind)

theorem record_printing (i : Invocation) (inside : c ∈ i.record) : printing c = true := by
  have escape : ∀ {t : Text}, c ∈ jsonEscape t → printing c = true := fun here => (List.mem_filter.mp here).2
  have literal : ∀ s : String, s.toList.all printing = true → c ∈ s.toList → printing c = true :=
    fun s all here => List.all_eq_true.mp all c here
  unfold Invocation.record at inside
  simp only [List.mem_append,List.mem_flatMap] at inside
  rcases inside with ((((((front | cwd) | list) | cc) | quote) | ⟨a,_,(comma | text) | quote⟩) | last)
  · exact literal _ (by decide) front
  · exact escape cwd
  · exact literal _ (by decide) list
  · exact escape cc
  · exact literal _ (by decide) quote
  · exact literal _ (by decide) comma
  · exact escape text
  · exact literal _ (by decide) quote
  · exact literal _ (by decide) last

theorem record_ends (i : Invocation) : ∃ inner, i.record = '{' :: (inner ++ ['}']) := ⟨_,record_text i⟩

theorem record_trimmed (i : Invocation) : trim (dropReturn i.record) = i.record ∧ i.record ≠ [] := by
  obtain ⟨inner,same⟩ := record_ends i
  have last : i.record.getLast? = some '}' := by
    rw [same,← List.cons_append]
    exact List.getLast?_concat
  have kept : dropReturn i.record = i.record := by
    rw [dropReturn,if_neg (by rw [last]; decide)]
  refine ⟨?_,by rw [same]; exact List.cons_ne_nil _ _⟩
  rw [kept]
  refine Str.Trimmed.trim_eq ⟨fun c first => ?_,fun c final => ?_⟩
  · rw [same] at first
    cases first
    decide
  · rw [last] at final
    cases final
    decide

section
variable {isFile : Text → Bool} {serde : Serde}

-- What comes of a run's own line.
def Invocation.entry (isFile : Text → Bool) (i : Invocation) : Option CompileCommand := unitEntry isFile (shown i.cwd) (i.argv.map shown)

theorem lineEntry_record (lawful : serde.Lawful) (i : Invocation) : lineEntry isFile serde (dropReturn i.record) = i.entry isFile := by
  obtain ⟨trimmed,some⟩ := record_trimmed i
  have value := lawful.accepts _ _ (record_denotes i 125)
  have words : (i.argv.map fun a => Json.str (shown a)).filterMap Json.asStr = i.argv.map shown := by
    rw [List.filterMap_map,← List.filterMap_eq_map]
    rfl
  unfold lineEntry
  rw [trimmed]
  dsimp only
  rw [if_neg some,value,Option.bind_some]
  change unitEntry isFile (shown i.cwd) ((i.argv.map fun a => Json.str (shown a)).filterMap Json.asStr) = _
  rw [words]
  rfl

-- The log of many runs gives their entries, each once, in the order of the runs.
theorem collect_log (lawful : serde.Lawful) (runs : List Invocation) (buildCwd : Text) : collect isFile serde (some (logOf runs)) buildCwd =
    (distinct (runs.filterMap (Invocation.entry isFile))).map fun entry => {entry with directory:=absolutise entry.directory buildCwd} := by
  have plain : ∀ i ∈ runs, '\n' ∉ i.record := by
    intro i _ inside
    have low := record_printing i inside
    revert low
    decide
  have each : runs.map (fun i => dropReturn i.record) = lines (logOf runs) := (Str.lines_flatten plain).symm
  unfold collect
  rw [Option.getD_some,← each,List.foldl_map,distinct,List.foldl_filterMap]
  refine congrArg (List.map _) (congrArg (fun step => List.foldl step [] runs) (funext fun entries => funext fun i => ?_))
  rw [lineEntry_record lawful i]
  cases i.entry isFile <;> rfl

end

-- The arguments that are neither flags nor the values of listed flags.
def loose : Bool → List Text → List Text
  | _,[] => []
  | true,_ :: rest => loose false rest
  | false,argument :: rest =>
    if startsWith "-".toList argument then loose (valueTakingFlags.contains argument) rest else argument :: loose false rest

section
variable {isFile : Text → Bool}

theorem scanUnit_find (cwd : Text) (next : Bool) (arguments : List Text) : scanUnit isFile cwd next arguments =
    (((loose next arguments).find? fun word => isFile (join cwd word)).map (join cwd)).getD [] := by
  induction arguments generalizing next with
  | nil => cases next <;> rfl
  | cons argument rest ih =>
    cases next with
    | true => exact ih false
    | false =>
      rw [scanUnit,loose]
      by_cases flag : startsWith "-".toList argument = true
      · rw [if_pos flag,if_pos flag]
        exact ih _
      · have resolved : (if isAbsolute argument then argument else join cwd argument) = join cwd argument := by
          unfold join
          split <;> rfl
        rw [if_neg flag,if_neg flag,resolved,List.find?_cons]
        dsimp only
        cases found : isFile (join cwd argument) with
        | true => rfl
        | false => exact ih false

-- The first loose word that names an existing file is the one that is taken.
theorem scanUnit_iff {next : Bool} {file : Text} (filled : file ≠ []) : scanUnit isFile cwd next arguments = file ↔
    ∃ before word after, loose next arguments = before ++ word :: after ∧ join cwd word = file ∧ isFile file = true ∧
      ∀ w ∈ before, isFile (join cwd w) = false := by
  rw [scanUnit_find]
  constructor
  · intro same
    cases found : (loose next arguments).find? fun word => isFile (join cwd word) with
    | none =>
      rw [found] at same
      exact absurd same.symm filled
    | some word =>
      rw [found] at same
      obtain ⟨here,before,after,cut,early⟩ := List.find?_eq_some_iff_append.mp found
      have named : join cwd word = file := same
      exact ⟨before,word,after,cut,named,named ▸ here,fun w inside => by simpa using early w inside⟩
  · rintro ⟨before,word,after,cut,rfl,here,early⟩
    have found : (loose next arguments).find? (fun word => isFile (join cwd word)) = some word :=
      List.find?_eq_some_iff_append.mpr ⟨here,before,after,cut,fun w inside => by simp [early w inside]⟩
    rw [found]
    rfl

theorem unitEntry_iff {file : Text} (filled : file ≠ []) (flag : hasCompileFlag arguments = true) :
    unitEntry isFile directory arguments = some ⟨directory,arguments,file,none⟩ ↔
      sourceLike file = true ∧ scanUnit isFile directory false arguments.tail = file ∧ isFile file = true := by
  have some : arguments ≠ [] := by
    rintro rfl
    cases flag
  have looks : ∀ named, looksLikeCCompilation ⟨directory,arguments,named,none⟩ = sourceLike named := fun named => by
    rw [looksLikeCCompilation,if_neg some,flag]
    rfl
  unfold unitEntry translationUnit
  dsimp only
  constructor
  · intro made
    split at made
    · cases made
    · next present =>
      split at made
      · next accepted =>
        cases made
        obtain ⟨_,here⟩ := not_or.mp present
        exact ⟨looks _ ▸ accepted,rfl,by simpa using here⟩
      · cases made
  · rintro ⟨source,same,here⟩
    rw [same,if_neg (not_or.mpr ⟨filled,by simp [here]⟩),if_pos ((looks file).trans source)]

end

-- A flag alone, a flag with its value, and an input file, as gcc reads them.
inductive Piece where
  | flag (word : Text)
  | valued (word value : Text)
  | input (word : Text)

def Piece.words : Piece → List Text
  | .flag word => [word]
  | .valued word value => [word,value]
  | .input word => [word]

def Piece.file : Piece → Option Text
  | .input word => some word
  | _ => none

-- The flags that take a separate value in gcc; those that the shim lists are among them.
structure Driver where
  separate : List Text
  listed : ∀ word ∈ valueTakingFlags, word ∈ separate

-- A lone dash stands for the standard input.
def Driver.Proper (driver : Driver) : Piece → Prop
  | .flag word => startsWith "-".toList word = true ∧ word ≠ "-".toList ∧ word ∉ driver.separate
  | .valued word _ => startsWith "-".toList word = true ∧ word ∈ driver.separate
  | .input word => startsWith "-".toList word = false ∨ word = "-".toList

-- A command line that compiles one C or C++ source and nothing else.
structure Driver.CompileLine (driver : Driver) (args : List Text) (source : Text) : Prop where
  read : ∃ pieces : List Piece, args = pieces.flatMap Piece.words ∧ (∀ piece ∈ pieces, driver.Proper piece) ∧
    pieces.filterMap Piece.file = [source] ∧ .flag "-c".toList ∈ pieces
  ending : sourceSuffixes.any (endsWith · source) = true

-- What `pwd` prints.
structure Settled (cwd : Text) : Prop where
  absolute : isAbsolute cwd = true
  normal : normalize cwd = cwd
  printing : ∀ c ∈ cwd, printing c = true

-- The database has one entry for the run, and that is of the source.
def Recorded (i : Invocation) (source : Text) (out : CompileCommands) : Prop :=
  out.filter (fun entry => entry.directory = i.cwd ∧ entry.arguments = i.argv) = [⟨i.cwd,i.argv,join i.cwd source,none⟩]

-- The source is there, has one of the endings that the code knows, and no other
-- file is named by a loose word in front of it.
structure Found (isFile : Text → Bool) (i : Invocation) (source : Text) : Prop where
  present : isFile (join i.cwd source) = true
  ending : sourceLike source = true
  first : ∃ before word after, loose false i.args = before ++ word :: after ∧ join i.cwd word = join i.cwd source ∧
    ∀ w ∈ before, isFile (join i.cwd w) = false

theorem sourceLike_join (filled : base ≠ []) (path : Text) : sourceLike (join base path) = sourceLike path := by
  rw [Bool.eq_iff_iff,sourceLike_suffix,sourceLike_suffix]
  refine exists_congr fun pat => and_congr_right fun listed => join_suffix ?_ filled path
  simp only [List.map_cons,List.map_nil,List.mem_cons,List.not_mem_nil,or_false] at listed
  rcases listed with rfl | rfl | rfl | rfl | rfl <;> decide

theorem shown_plain (plain : ∀ c ∈ t, printing c = true) : shown t = t := List.filter_eq_self.mpr plain

theorem argv_shown {i : Invocation} (plain : ∀ a ∈ i.argv, ∀ c ∈ a, printing c = true) : i.argv.map shown = i.argv :=
  (List.map_congr_left fun a inside => shown_plain (plain a inside)).trans (List.map_id _)

theorem join_filled (filled : base ≠ []) (path : Text) : join base path ≠ [] := by
  unfold join
  split
  · next rooted =>
    rintro rfl
    cases rooted
  · split
    · exact List.append_ne_nil_of_left_ne_nil filled _
    · exact List.append_ne_nil_of_left_ne_nil filled _

theorem hasCompileFlag_of (inside : "-c".toList ∈ arguments) : hasCompileFlag arguments = true :=
  List.any_eq_true.mpr ⟨_,inside,rfl⟩

theorem entry_iff {isFile : Text → Bool} {i : Invocation} (settled : Settled i.cwd) (plain : ∀ a ∈ i.argv, ∀ c ∈ a, printing c = true)
    (line : "-c".toList ∈ i.args) (source : Text) : i.entry isFile = some ⟨i.cwd,i.argv,join i.cwd source,none⟩ ↔ Found isFile i source := by
  have filled : i.cwd ≠ [] := by
    intro none
    have absolute := settled.absolute
    rw [none] at absolute
    cases absolute
  have flag : hasCompileFlag i.argv = true := hasCompileFlag_of (List.mem_cons_of_mem _ line)
  rw [Invocation.entry,shown_plain settled.printing,argv_shown plain,unitEntry_iff (join_filled filled source) flag,sourceLike_join filled]
  change _ ∧ scanUnit isFile i.cwd false i.args = _ ∧ _ ↔ _
  rw [scanUnit_iff (join_filled filled source)]
  constructor
  · rintro ⟨ending,⟨before,word,after,cut,same,_,early⟩,present⟩
    exact ⟨present,ending,before,word,after,cut,same,early⟩
  · rintro ⟨present,ending,before,word,after,cut,same,early⟩
    exact ⟨ending,⟨before,word,after,cut,same,present,early⟩,present⟩

theorem only_one {α : Type} {xs : List α} {o : Option α} (nodup : xs.Nodup) (members : ∀ x, x ∈ xs ↔ o = some x) : xs = o.toList := by
  cases o with
  | none => exact List.eq_nil_iff_forall_not_mem.mpr fun x inside => nomatch (members x).mp inside
  | some a =>
    have all : ∀ x ∈ xs, x = a := fun x inside => (Option.some.inj ((members x).mp inside)).symm
    have here := List.length_pos_of_mem ((members a).mpr rfl)
    have same := List.eq_replicate_of_mem all
    rw [same] at nodup
    have one : xs.length = 1 := Nat.le_antisymm (List.nodup_replicate.mp nodup) here
    rw [same,one]
    rfl

section
variable {isFile : Text → Bool} {serde : Serde} {runs : List Invocation} {i : Invocation} {source : Text}

theorem entry_fields {entry : CompileCommand} (made : i.entry isFile = some entry) : entry.directory = shown i.cwd ∧ entry.arguments = i.argv.map shown := by
  unfold Invocation.entry unitEntry at made
  dsimp only at made
  split at made
  · cases made
  · split at made
    · cases made
      exact ⟨rfl,rfl⟩
    · cases made

-- The directories are those that `pwd` printed.
theorem collect_settled (lawful : serde.Lawful) (settled : ∀ i ∈ runs, Settled i.cwd) (buildCwd : Text) :
    collect isFile serde (some (logOf runs)) buildCwd = distinct (runs.filterMap (Invocation.entry isFile)) := by
  rw [collect_log lawful]
  refine (List.map_congr_left fun entry inside => ?_).trans (List.map_id _)
  obtain ⟨i,run,made⟩ := List.mem_filterMap.mp ((mem_distinct _ _).mp inside)
  have directory : entry.directory = i.cwd := (entry_fields made).1.trans (shown_plain (settled i run).printing)
  have same : absolutise entry.directory buildCwd = entry.directory := by
    rw [directory,absolutise,if_pos (settled i run).absolute,(settled i run).normal]
  rw [same]
  rfl

-- The entries of a run's directory and arguments are what comes of its line.
theorem collect_run (lawful : serde.Lawful) (settled : ∀ i ∈ runs, Settled i.cwd) (inside : i ∈ runs)
    (plain : ∀ a ∈ i.argv, ∀ c ∈ a, printing c = true) (buildCwd : Text) :
    (collect isFile serde (some (logOf runs)) buildCwd).filter (fun entry => entry.directory = i.cwd ∧ entry.arguments = i.argv) =
      (i.entry isFile).toList := by
  have words := argv_shown plain
  rw [collect_settled lawful settled]
  refine only_one ((distinct_nodup _).filter _) fun entry => ?_
  rw [List.mem_filter,mem_distinct,List.mem_filterMap,decide_eq_true_eq]
  constructor
  · rintro ⟨⟨j,run,made⟩,directory,arguments⟩
    obtain ⟨there,words'⟩ := entry_fields made
    have cwd : shown j.cwd = shown i.cwd := by rw [← there,directory,shown_plain (settled i inside).printing]
    have argv : j.argv.map shown = i.argv.map shown := by rw [← words',arguments,words]
    rw [Invocation.entry,← cwd,← argv]
    exact made
  · intro made
    obtain ⟨directory,arguments⟩ := entry_fields made
    exact ⟨⟨i,inside,made⟩,by rw [directory,shown_plain (settled i inside).printing],by rw [arguments,words]⟩

-- A run that compiles one source is recorded as that exactly where the source is found.
theorem collect_iff (lawful : serde.Lawful) (settled : ∀ i ∈ runs, Settled i.cwd) (inside : i ∈ runs)
    (plain : ∀ a ∈ i.argv, ∀ c ∈ a, printing c = true) (driver : Driver) (line : driver.CompileLine i.args source) (buildCwd : Text) :
    Recorded i source (collect isFile serde (some (logOf runs)) buildCwd) ↔ Found isFile i source := by
  have compile : "-c".toList ∈ i.args := by
    obtain ⟨pieces,same,_,_,flag⟩ := line.read
    rw [same]
    exact List.mem_flatMap.mpr ⟨_,flag,List.mem_singleton.mpr rfl⟩
  rw [Recorded,collect_run lawful settled inside plain,← entry_iff (settled i inside) plain compile]
  cases i.entry isFile with
  | none => exact ⟨fun same => (nomatch same),fun same => (nomatch same)⟩
  | some entry => exact ⟨fun same => congrArg some (List.cons.inj same).1,fun same => congrArg Option.toList same⟩

end

-- The words of a piece that are loose where no value is read for a flag.
def Piece.loose : Piece → List Text
  | .flag _ => []
  | .valued word value => if valueTakingFlags.contains word || startsWith "-".toList value then [] else [value]
  | .input word => if startsWith "-".toList word then [] else [word]

-- No flag with a value that the code does not list has a listed flag for its value.
def Aligned (pieces : List Piece) : Prop :=
  ∀ word value, .valued word value ∈ pieces → valueTakingFlags.contains word = true ∨ valueTakingFlags.contains value = false

theorem unlisted {driver : Driver} {word : Text} (other : word ∉ driver.separate) : valueTakingFlags.contains word = false := by
  rw [Bool.eq_false_iff]
  exact fun listed => other (driver.listed word (List.contains_iff_mem.mp listed))

theorem loose_pieces {driver : Driver} {pieces : List Piece} (proper : ∀ piece ∈ pieces, driver.Proper piece) (aligned : Aligned pieces) :
    loose false (pieces.flatMap Piece.words) = pieces.flatMap Piece.loose := by
  induction pieces with
  | nil => rfl
  | cons piece pieces ih =>
    obtain ⟨first,later⟩ := List.forall_mem_cons.mp proper
    have rest := ih later fun word value inside => aligned word value (List.mem_cons_of_mem _ inside)
    rw [List.flatMap_cons,List.flatMap_cons,← rest]
    cases piece with
    | flag word =>
      obtain ⟨dash,_,other⟩ := first
      change (if _ then loose (valueTakingFlags.contains word) _ else _) = _
      rw [if_pos dash,unlisted other]
      rfl
    | valued word value =>
      change (if _ then loose (valueTakingFlags.contains word) (value :: _) else _) = _
      rw [if_pos first.1,Piece.loose]
      rcases aligned word value List.mem_cons_self with listed | other
      · rw [listed]
        rfl
      · cases listed : valueTakingFlags.contains word with
        | true => rfl
        | false =>
          change (if _ then loose (valueTakingFlags.contains value) _ else _) = _
          rw [other]
          cases startsWith "-".toList value <;> rfl
    | input word =>
      change (if _ then loose (valueTakingFlags.contains word) _ else _) = _
      rw [Piece.loose]
      rcases first with plain | rfl
      · rw [plain]
        rfl
      · rfl

-- The source is found if no value in front of it, of a flag that the code does not
-- list, names a file.
theorem found_aligned {driver : Driver} {front back : List Piece} {isFile : Text → Bool} {i : Invocation} {source : Text}
    (proper : ∀ piece ∈ front ++ .input source :: back, driver.Proper piece) (aligned : Aligned (front ++ .input source :: back))
    (args : i.args = (front ++ .input source :: back).flatMap Piece.words) (plain : startsWith "-".toList source = false)
    (alone : front.filterMap Piece.file = []) (present : isFile (join i.cwd source) = true) (ending : sourceLike source = true)
    (absent : ∀ word value, .valued word value ∈ front → valueTakingFlags.contains word = false → isFile (join i.cwd value) = false) :
    Found isFile i source := by
  refine ⟨present,ending,front.flatMap Piece.loose,source,back.flatMap Piece.loose,?_,rfl,fun w inside => ?_⟩
  · rw [args,loose_pieces proper aligned,List.flatMap_append,List.flatMap_cons,Piece.loose,plain]
    rfl
  · obtain ⟨piece,member,loose⟩ := List.mem_flatMap.mp inside
    cases piece with
    | flag word => cases loose
    | valued word value =>
      rw [Piece.loose] at loose
      split at loose
      · cases loose
      · next other =>
        rw [List.mem_singleton.mp loose]
        rw [Bool.or_eq_true,not_or,Bool.not_eq_true] at other
        exact absent word value member other.1
    | input word => exact absurd rfl (List.filterMap_eq_nil_iff.mp alone _ member ▸ Option.some_ne_none word)

def gcc : Driver where
  separate := valueTakingFlags ++ ["-D","-U","-L","-l","-T","-u","-e","-z","-A","-B","-imacros","-iquote","-idirafter","-iprefix",
    "-iwithprefix","-iwithprefixbefore","-isysroot","-imultilib","-Xlinker","-Xassembler","-Xpreprocessor","-aux-info","-dumpbase",
    "-dumpbase-ext","-dumpdir","-wrapper","--param"].map String.toList
  listed _ inside := List.mem_append_left _ inside

def twoFiles (path : Text) : Bool := path = "/w/config.h".toList || path = "/w/main.c".toList

def including (flag : String) : Invocation :=
  ⟨"/w".toList,"gcc".toList,[flag.toList,"config.h".toList,"-c".toList,"main.c".toList]⟩

def includingPieces (flag : String) : List Piece := [.valued flag.toList "config.h".toList,.flag "-c".toList,.input "main.c".toList]

theorem including_line {flag : String} (dash : startsWith "-".toList flag.toList = true) (separate : flag.toList ∈ gcc.separate) :
    gcc.CompileLine (including flag).args "main.c".toList := by
  refine ⟨⟨includingPieces flag,rfl,fun piece inside => ?_,rfl,by simp [includingPieces]⟩,by decide⟩
  simp only [includingPieces,List.mem_cons,List.not_mem_nil,or_false] at inside
  rcases inside with rfl | rfl | rfl
  · exact ⟨dash,separate⟩
  · exact ⟨by decide,by decide,by decide⟩
  · exact .inl (by decide)

theorem root_settled : Settled "/w".toList := ⟨by decide,by decide,fun c inside => List.all_eq_true.mp (by decide : "/w".toList.all printing = true) c inside⟩

theorem include_found : Found twoFiles (including "-include") "main.c".toList :=
  ⟨by decide,by decide,[],"main.c".toList,[],by decide,rfl,fun _ none => (nomatch none)⟩

theorem collect_include : Recorded (including "-include") "main.c".toList (collect twoFiles strings (some (logOf [including "-include"])) "/w".toList) := by
  have plain : ((including "-include").argv.all fun a => a.all printing) = true := by decide
  refine (collect_iff strings_lawful (fun i inside => ?_) List.mem_cons_self (fun a inside c here => ?_) gcc
    (including_line (by decide) (by decide)) "/w".toList).mpr include_found
  · rw [List.mem_singleton.mp inside]
    exact root_settled
  · exact List.all_eq_true.mp (List.all_eq_true.mp plain a inside) c here

-- A file of macros that exists is taken for the source.
theorem macros_taken : gcc.CompileLine (including "-imacros").args "main.c".toList ∧ twoFiles "/w/main.c".toList = true ∧
    ¬ Recorded (including "-imacros") "main.c".toList (collect twoFiles strings (some (logOf [including "-imacros"])) "/w".toList) := by
  refine ⟨including_line (by decide) (by decide),by decide,fun recorded => ?_⟩
  have plain : ((including "-imacros").argv.all fun a => a.all printing) = true := by decide
  have entry : (including "-imacros").entry twoFiles = some ⟨"/w".toList,(including "-imacros").argv,"/w/config.h".toList,none⟩ := by decide
  rw [Recorded,collect_run strings_lawful (fun i inside => List.mem_singleton.mp inside ▸ root_settled) List.mem_cons_self
    (fun a inside c here => List.all_eq_true.mp (List.all_eq_true.mp plain a inside) c here),entry] at recorded
  revert recorded
  decide

end PrincessIDE.Clangd
