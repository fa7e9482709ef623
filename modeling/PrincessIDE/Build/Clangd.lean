import Mathlib.Data.List.Nodup
import PrincessIDE.Build.Plan
import PrincessIDE.Core.JsonText
import PrincessIDE.Foundation.Distinct
import PrincessIDE.Foundation.Keyed
import PrincessIDE.Foundation.Lexical
import PrincessIDE.Foundation.Shell

namespace PrincessIDE.Clangd
open Utf8 (Text)
open Error PrincessIDE.Path JsonText
open Str (startsWith)
open Diagnostics (endsWith endsWith_append endsWith_eq)
open BuildBackend (CompileCommand CompileCommands)

-- The value of a text, the text of a value over many lines, and the complaint
-- about a text that is no list of values.
structure Serde where
  fromStr : Text → Option Json
  toStringPretty : Json → Text
  complaint : Text → Text

-- `serde_json` reads values that are up to 127 deep, and writes what it reads.
structure Serde.Lawful (serde : Serde) : Prop where
  accepts : ∀ t v, Denotes 127 t v → serde.fromStr t = some v
  pretty : ∀ v, Textual 127 v → Denotes 127 (serde.toStringPretty v) v

def entryOf (item : Json) : CompileCommand where
  directory := ((item.get "directory").bind Json.asStr).getD []
  arguments := match item.get "arguments" with
    | some (.arr argv) => argv.filterMap Json.asStr
    | _ => []
  file := ((item.get "file").bind Json.asStr).getD []
  output := (item.get "output").bind Json.asStr

def serialize (entry : CompileCommand) : Json :=
  .obj ([("directory".toList,.str entry.directory),("arguments".toList,.arr (entry.arguments.map .str)),("file".toList,.str entry.file)] ++
    match entry.output with
    | none => []
    | some output => [("output".toList,.str output)])

def absolutise (path base : Text) : Text := normalize (if isAbsolute path then path else join base path)

def hasCompileFlag (arguments : List Text) : Bool := arguments.any fun a => a = "-c".toList || a = "-S".toList || startsWith "-o".toList a

def sourceLike (file : Text) : Bool :=
  endsWith ".c".toList file || endsWith ".cc".toList file || endsWith ".cpp".toList file || endsWith ".cxx".toList file || endsWith ".h".toList file

def looksLikeCCompilation (entry : CompileCommand) : Bool :=
  if entry.arguments = [] then false else hasCompileFlag entry.arguments && sourceLike entry.file

-- The file is resolved against the directory, and that against the build.
def normalised (buildCwd : Text) (entry : CompileCommand) : CompileCommand :=
  let directory := absolutise entry.directory buildCwd
  {entry with directory:=directory,file:=absolutise entry.file directory}

section
variable (serde : Serde)

def fromJson (text : Text) : Except PrincessError CompileCommands := match (serde.fromStr text).bind Json.asArray with
  | some raw => .ok (raw.map entryOf)
  | none => .error (.new .invalidConfig ("compile_commands.json is not valid JSON: ".toList ++ serde.complaint text))

def toJson (entries : CompileCommands) : Text := serde.toStringPretty (.arr (entries.map serialize))

def normaliseBearOutput (raw buildCwd : Text) : Except PrincessError CompileCommands := do
  let parsed ← fromJson serde raw
  pure (parsed.foldl (fun entries entry =>
    if !looksLikeCCompilation entry then entries
    else if entries.contains (normalised buildCwd entry) then entries
    else entries ++ [normalised buildCwd entry]) [])

end

-- The entries that are taken for compilations, one for each item.
def candidates (buildCwd : Text) (items : List Json) : CompileCommands :=
  ((items.map entryOf).filter looksLikeCCompilation).map (normalised buildCwd)

theorem normalise_distinct {serde : Serde} (bear : serde.fromStr raw = some (.arr items)) (buildCwd : Text) :
    normaliseBearOutput serde raw buildCwd = .ok (distinct (candidates buildCwd items)) := by
  have parsed : fromJson serde raw = .ok (items.map entryOf) := by
    rw [fromJson,bear]
    rfl
  rw [normaliseBearOutput,parsed]
  refine congrArg Except.ok ?_
  rw [distinct,candidates]
  generalize items.map entryOf = parsed
  rw [List.foldl_map,List.foldl_filter]
  refine congrArg (fun step => List.foldl step [] parsed) (funext fun entries => funext fun entry => ?_)
  cases looksLikeCCompilation entry <;> rfl

theorem absolutise_absolute (absolute : isAbsolute base = true) (path : Text) : isAbsolute (absolutise path base) = true := by
  rw [absolutise,normalize_absolute]
  split
  · next rooted => exact rooted
  · exact join_absolute absolute path

theorem absolutise_again (absolute : isAbsolute base = true) (path other : Text) : absolutise (absolutise path base) other = absolutise path base := by
  have rooted := absolutise_absolute absolute path
  rw [absolutise,if_pos rooted]
  exact normalize_idempotent _

-- What the code takes for the ending of a source is one of the last name.
theorem sourceLike_suffix : sourceLike file = true ↔ ∃ pat ∈ [".c",".cc",".cpp",".cxx",".h"].map String.toList, pat <:+ file := by
  have ends : ∀ pat, endsWith pat file = true ↔ pat <:+ file := fun pat =>
    ⟨fun found => by obtain ⟨front,rfl⟩ := endsWith_eq found; exact ⟨front,rfl⟩,fun ⟨front,same⟩ => same ▸ endsWith_append pat front⟩
  simp only [sourceLike,Bool.or_eq_true,ends,List.map_cons,List.map_nil,List.mem_cons,List.not_mem_nil,or_false,exists_eq_or_imp,
    exists_eq_left,or_assoc]

theorem sourceLike_absolutise (absolute : isAbsolute base = true) (source : sourceLike file = true) : sourceLike (absolutise file base) = true := by
  obtain ⟨pat,listed,ends⟩ := sourceLike_suffix.mp source
  have plain : '/' ∉ pat ∧ ∃ c, pat.getLast? = some c ∧ c ≠ '.' := by
    simp only [List.map_cons,List.map_nil,List.mem_cons,List.not_mem_nil,or_false] at listed
    rcases listed with rfl | rfl | rfl | rfl | rfl <;> exact ⟨by decide,_,rfl,by decide⟩
  obtain ⟨within,c,last,solid⟩ := plain
  refine sourceLike_suffix.mpr ⟨pat,listed,?_⟩
  by_cases rooted : isAbsolute file = true
  · rw [absolutise,if_pos rooted]
    exact normalize_suffix rooted within last solid ends
  · obtain ⟨front,same⟩ := join_relative rooted base
    rw [absolutise,if_neg rooted]
    exact normalize_suffix (join_absolute absolute file) within last solid (same ▸ List.suffix_append_of_suffix ends)

theorem looksLike_normalised (absolute : isAbsolute buildCwd = true) (looks : looksLikeCCompilation entry = true) :
    looksLikeCCompilation (normalised buildCwd entry) = true := by
  unfold looksLikeCCompilation at looks ⊢
  split at looks
  · cases looks
  · next some =>
    obtain ⟨flag,source⟩ := Bool.and_eq_true_iff.mp looks
    change (if entry.arguments = [] then false else hasCompileFlag entry.arguments && sourceLike (normalised buildCwd entry).file) = true
    rw [if_neg some,flag]
    exact sourceLike_absolutise (absolutise_absolute absolute _) source

theorem normalised_again (absolute : isAbsolute buildCwd = true) (entry : CompileCommand) :
    normalised buildCwd (normalised buildCwd entry) = normalised buildCwd entry := by
  have directory := absolutise_absolute absolute entry.directory
  have same : absolutise (absolutise entry.directory buildCwd) buildCwd = absolutise entry.directory buildCwd := absolutise_again absolute _ _
  change CompileCommand.mk _ _ _ _ = CompileCommand.mk _ _ _ _
  congr 1
  exact absolutise_again directory _ _

theorem strings_back (texts : List Text) : (texts.map Json.str).filterMap Json.asStr = texts := by
  rw [List.filterMap_map]
  exact List.filterMap_some

theorem entryOf_serialize (entry : CompileCommand) : entryOf (serialize entry) = entry := by
  obtain ⟨directory,arguments,file,output⟩ := entry
  have back := strings_back arguments
  cases output with
  | none => change CompileCommand.mk directory ((arguments.map Json.str).filterMap Json.asStr) file none = _; rw [back]
  | some output => change CompileCommand.mk directory ((arguments.map Json.str).filterMap Json.asStr) file (some output) = _; rw [back]

theorem textual_str (n : Nat) (s : Text) : Textual n (.str s) := by
  cases n with
  | zero => exact ⟨s,rfl⟩
  | succ n => exact .inl ⟨s,rfl⟩

theorem serialize_textual (n : Nat) (entry : CompileCommand) : Textual (n+2) (serialize entry) := by
  have list : Textual (n+1) (.arr (entry.arguments.map .str)) := by
    refine .inr (.inl ⟨_,rfl,fun item inside => ?_⟩)
    obtain ⟨s,_,rfl⟩ := List.mem_map.mp inside
    exact textual_str n s
  refine .inr (.inr ⟨_,rfl,?_,?_⟩)
  · cases entry.output with
    | none => exact (by decide : (["directory".toList,"arguments".toList,"file".toList] : List Text).Nodup)
    | some output => exact (by decide : (["directory".toList,"arguments".toList,"file".toList,"output".toList] : List Text).Nodup)
  · intro field inside
    rcases List.mem_append.mp inside with front | last
    · simp only [List.mem_cons,List.not_mem_nil,or_false] at front
      rcases front with rfl | rfl | rfl
      · exact textual_str _ _
      · exact list
      · exact textual_str _ _
    · cases output : entry.output with
      | none => rw [output] at last; cases last
      | some output' =>
        rw [output] at last
        rw [List.mem_singleton.mp last]
        exact textual_str _ _

-- A database is read back from its own text.
theorem fromStr_toJson {serde : Serde} (lawful : serde.Lawful) (entries : CompileCommands) :
    serde.fromStr (toJson serde entries) = some (.arr (entries.map serialize)) := by
  refine lawful.accepts _ _ (lawful.pretty _ (.inr (.inl ⟨_,rfl,fun item inside => ?_⟩)))
  obtain ⟨entry,_,rfl⟩ := List.mem_map.mp inside
  exact serialize_textual 124 entry

-- A database of entries that have their final form stays as it is.
theorem normalise_settled {serde : Serde} (lawful : serde.Lawful) {out : CompileCommands} (nodup : out.Nodup)
    (settled : ∀ entry ∈ out, looksLikeCCompilation entry = true ∧ normalised buildCwd entry = entry) :
    normaliseBearOutput serde (toJson serde out) buildCwd = .ok out := by
  have items : candidates buildCwd (out.map serialize) = out := by
    have back : (out.map serialize).map entryOf = out := by
      rw [List.map_map]
      exact List.map_id'' entryOf_serialize out
    have kept : out.filter looksLikeCCompilation = out := List.filter_eq_self.mpr fun entry inside => (settled entry inside).1
    rw [candidates,back,kept]
    exact (List.map_congr_left fun entry inside => (settled entry inside).2).trans (List.map_id out)
  rw [normalise_distinct (fromStr_toJson lawful out) buildCwd,items,distinct_self nodup]

-- The endings by which gcc knows a C or C++ source.
def sourceSuffixes : List Text := [".c",".i",".ii",".cc",".cp",".cxx",".cpp",".CPP",".c++",".C"].map String.toList

-- The words of an item: its list of arguments, or its shell command where there
-- is no list.
def commandLine (item : Json) : List Text := match item.get "arguments" with
  | some (.arr argv) => argv.filterMap Json.asStr
  | _ => (((item.get "command").bind Json.asStr).bind Shell.words).getD []

-- A C or C++ source that goes further than its preprocessing.
def compiles (item : Json) : Bool :=
  hasCompileFlag (commandLine item) && !(commandLine item).contains "-E".toList && sourceSuffixes.any (endsWith · (entryOf item).file)

def key (entry : CompileCommand) : Text × List Text := (entry.file,entry.arguments)

def wanted (buildCwd : Text) (item : Json) : Text × List Text := ((normalised buildCwd (entryOf item)).file,commandLine item)

structure Normalised (serde : Serde) (buildCwd : Text) (items : List Json) (out : CompileCommands) : Prop where
  absolute : ∀ entry ∈ out, isAbsolute entry.directory = true ∧ isAbsolute entry.file = true
  apart : (out.map key).Nodup
  order : out = distinct ((candidates buildCwd items).filter (· ∈ out))
  complete : ∀ item ∈ items, compiles item = true → wanted buildCwd item ∈ out.map key
  again : normaliseBearOutput serde (toJson serde out) buildCwd = .ok out

-- Items with one file and one list of arguments have the same directory and output.
def Agreeing (buildCwd : Text) (items : List Json) : Prop :=
  ∀ a ∈ candidates buildCwd items, ∀ b ∈ candidates buildCwd items, key a = key b → a = b

-- What compiles is taken for a compilation, or another item that is says the same.
def Recognised (buildCwd : Text) (items : List Json) : Prop :=
  ∀ item ∈ items, compiles item = true → ∃ entry ∈ candidates buildCwd items, key entry = wanted buildCwd item

theorem candidates_settled (absolute : isAbsolute buildCwd = true) (inside : entry ∈ candidates buildCwd items) :
    looksLikeCCompilation entry = true ∧ normalised buildCwd entry = entry := by
  obtain ⟨raw,kept,rfl⟩ := List.mem_map.mp inside
  exact ⟨looksLike_normalised absolute (List.mem_filter.mp kept).2,normalised_again absolute raw⟩

theorem candidates_absolute (absolute : isAbsolute buildCwd = true) (inside : entry ∈ candidates buildCwd items) :
    isAbsolute entry.directory = true ∧ isAbsolute entry.file = true := by
  obtain ⟨raw,_,rfl⟩ := List.mem_map.mp inside
  have directory := absolutise_absolute absolute raw.directory
  exact ⟨directory,absolutise_absolute directory raw.file⟩

theorem distinct_apart {α κ : Type} [DecidableEq α] (key : α → κ) (xs : List α) :
    ((distinct xs).map key).Nodup ↔ ∀ a ∈ xs, ∀ b ∈ xs, key a = key b → a = b := by
  rw [List.nodup_map_iff_inj_on (distinct_nodup xs)]
  simp only [mem_distinct]

-- A database is brought to its form exactly where entries of one file and one list
-- of arguments agree, and each compilation is recognised.
theorem normalise_iff {serde : Serde} (lawful : serde.Lawful) (absolute : isAbsolute buildCwd = true)
    (bear : serde.fromStr raw = some (.arr items)) : ∃ out, normaliseBearOutput serde raw buildCwd = .ok out ∧
    (Normalised serde buildCwd items out ↔ Agreeing buildCwd items ∧ Recognised buildCwd items) := by
  refine ⟨_,normalise_distinct bear buildCwd,?_⟩
  have members := mem_distinct (candidates buildCwd items)
  constructor
  · intro normal
    refine ⟨(distinct_apart key _).mp normal.apart,fun item inside compiling => ?_⟩
    obtain ⟨entry,present,same⟩ := List.mem_map.mp (normal.complete item inside compiling)
    exact ⟨entry,(members entry).mp present,same⟩
  · rintro ⟨agreeing,recognised⟩
    constructor
    · exact fun entry inside => candidates_absolute absolute ((members entry).mp inside)
    · exact (distinct_apart key _).mpr agreeing
    · rw [List.filter_eq_self.mpr]
      exact fun entry inside => decide_eq_true ((members entry).mpr inside)
    · intro item inside compiling
      obtain ⟨entry,present,same⟩ := recognised item inside compiling
      exact List.mem_map.mpr ⟨entry,(members entry).mpr present,same⟩
    · exact normalise_settled lawful (distinct_nodup _) fun entry inside => candidates_settled absolute ((members entry).mp inside)

-- `serde_json` as far as values are made of strings.
def strings : Serde := ⟨parse 127,pretty 127 0,fun _ => []⟩

theorem strings_lawful : strings.Lawful := ⟨fun _ _ => parse_denotes,fun _ textual => pretty_denotes textual 0⟩

def compileItem (output : String) : Json := .obj [("directory".toList,.str "/w".toList),
  ("arguments".toList,.arr [.str "cc".toList,.str "-c".toList,.str "a.c".toList]),("file".toList,.str "a.c".toList),("output".toList,.str output.toList)]

def compiled (output : String) : CompileCommand :=
  ⟨"/w".toList,["cc".toList,"-c".toList,"a.c".toList],"/w/a.c".toList,some output.toList⟩

def once : Text :=
  "[\x7b\"directory\":\"/w\",\"arguments\":[\"cc\",\"-c\",\"a.c\"],\"file\":\"a.c\",\"output\":\"a.o\"\x7d]".toList

def twice : Text :=
  ("[\x7b\"directory\":\"/w\",\"arguments\":[\"cc\",\"-c\",\"a.c\"],\"file\":\"a.c\",\"output\":\"a.o\"\x7d," ++
  "\x7b\"directory\":\"/w\",\"arguments\":[\"cc\",\"-c\",\"a.c\"],\"file\":\"a.c\",\"output\":\"b.o\"\x7d]").toList

theorem normalise_once : ∃ out, normaliseBearOutput strings once "/w".toList = .ok out ∧ Normalised strings "/w".toList [compileItem "a.o"] out := by
  have items : strings.fromStr once = some (.arr [compileItem "a.o"]) := rfl
  have single : candidates "/w".toList [compileItem "a.o"] = [compiled "a.o"] := by decide +kernel
  obtain ⟨out,done,exact_when⟩ := normalise_iff strings_lawful (by decide : isAbsolute "/w".toList = true) items
  refine ⟨out,done,exact_when.mpr ⟨fun a here b there _ => ?_,fun item inside _ => ⟨compiled "a.o",?_,?_⟩⟩⟩
  · rw [single] at here there
    rw [List.mem_singleton.mp here,List.mem_singleton.mp there]
  · rw [single]
    exact List.mem_singleton.mpr rfl
  · rw [List.mem_singleton.mp inside]
    decide +kernel

set_option maxRecDepth 2000 in
-- One compilation with two outputs is there twice.
theorem output_doubles : strings.fromStr twice = some (.arr [compileItem "a.o",compileItem "b.o"]) ∧
    ¬ ∃ out, normaliseBearOutput strings twice "/w".toList = .ok out ∧
      Normalised strings "/w".toList [compileItem "a.o",compileItem "b.o"] out := by
  have items : strings.fromStr twice = some (.arr [compileItem "a.o",compileItem "b.o"]) := rfl
  refine ⟨items,?_⟩
  rintro ⟨out,done,normal⟩
  rw [normalise_distinct items] at done
  cases done
  have pair : candidates "/w".toList [compileItem "a.o",compileItem "b.o"] = [compiled "a.o",compiled "b.o"] := by decide +kernel
  have doubled := normal.apart
  rw [pair] at doubled
  revert doubled
  decide +kernel

end PrincessIDE.Clangd
