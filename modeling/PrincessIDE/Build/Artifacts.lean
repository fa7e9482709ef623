import Mathlib.Data.List.Lex
import PrincessIDE.Build.Finished
import PrincessIDE.Foundation.Sorting

namespace PrincessIDE.Artifacts
open Utf8 Str Error Event Effect Sorting

-- An absolute path without `.`, name by name: `resolve` normalises the root and
-- the declared paths, and the scan only joins names.
abbrev Place := List Bytes

def slash : UInt8 := 47
def dot : UInt8 := 46
def parentName : Bytes := [dot,dot]

def Place.toStringLossy (path : Place) : Text := lossy (if path = [] then [slash] else path.flatMap (slash :: ·))

-- Paths are compared name by name; `..` comes before every other name.
def rank (name : Bytes) : List Nat := if name = parentName then [] else 1 :: name.map UInt8.toNat

def key (path : Place) : List (List Nat) := path.map rank

def fileName (path : Place) : Option Bytes := path.getLast?.filter (· ≠ parentName)

-- The bytes behind the last dot of the name; a dot in front does not count.
def extension (path : Place) : Option Bytes := do
  let name ← fileName path
  match name.reverse.dropWhile (· ≠ dot) with
  | [] => none
  | _ :: before => if before = [] then none else some (name.reverse.takeWhile (· ≠ dot)).reverse

def lowerExtension (path : Place) : Option Text := do
  let bytes ← extension path
  let text ← (fromUtf8 bytes).toOption
  some (text.map toAsciiLowercase)

def kindFromPath (path : Place) : ArtifactKind :=
  let ext := lowerExtension path
  if ext = some "elf".toList then .elf
  else if ext = some "iso".toList then .iso
  else if ext = some "img".toList ∨ ext = some "bin".toList then .image
  else if ext = some "o".toList ∨ ext = some "obj".toList then .object
  else if ext = some "a".toList then .archive
  else .other

def artifactDirs : List Text := ["build".toList,"out".toList,"dist".toList]
def artifactScanDepth : Nat := 3
def artifactExtensions : List Text := ["elf".toList,"iso".toList,"img".toList,"bin".toList]

-- Times are nanoseconds; `TIMESTAMP_SLACK` is one second.
def timestampSlack : Int := 1000000000

-- What `DirEntry::metadata` says; it does not follow a link.
structure Metadata where
  isDir : Bool
  modified : Option Int
deriving DecidableEq, Repr

-- The tree as the scan meets it. An entry, or its metadata, may be unreadable.
structure Disk where
  isFile : Place → Bool
  isDir : Place → Bool
  readDir : Place → Option (List (Option (Bytes × Option Metadata)))
  fileSizeAndHash : Place → Except PrincessError (Nat × Text)

def hasArtifactExtension (path : Place) : Bool := (lowerExtension path).any artifactExtensions.contains

def stale (newerThan : Option Int) (metadata : Metadata) : Bool := match newerThan,metadata.modified with
  | some threshold,some modified => modified + timestampSlack < threshold
  | _,_ => false

def scanEntry (newerThan : Option Int) (below : Place → List Place) (dir : Place) : Option (Bytes × Option Metadata) → List Place
  | some (name,some metadata) =>
    let path := dir++[name]
    if metadata.isDir then below path
    else if !hasArtifactExtension path then []
    else if stale newerThan metadata then []
    else [path]
  | _ => []

def scanDir (disk : Disk) (newerThan : Option Int) : Nat → Place → List Place
  | 0,_ => []
  | depth+1,dir => match disk.readDir dir with
    | none => []
    | some entries => entries.flatMap (scanEntry newerThan (scanDir disk newerThan depth) dir)

def scanned (disk : Disk) (root : Place) (newerThan : Option Int) (name : Text) : List Place :=
  let dir := root++[encode name]
  if disk.isDir dir then scanDir disk newerThan artifactScanDepth dir else []

def gather (disk : Disk) (root : Place) (declared : List Place) (newerThan : Option Int) : List Place :=
  declared.filter disk.isFile ++ artifactDirs.flatMap (scanned disk root newerThan)

-- A file that vanished since the scan is left out.
def artifactOf (disk : Disk) (path : Place) : Option Artifact :=
  if disk.isFile path then match disk.fileSizeAndHash path with
    | .ok (size,sha256) => some ⟨path.toStringLossy,kindFromPath path,size,sha256⟩
    | .error _ => none
  else none

-- The engine and the command line each have this function, body for body.
def collect (disk : Disk) (root : Place) (declared : List Place) (newerThan : Option Int) : List Artifact :=
  (ordered key (gather disk root declared newerThan)).filterMap (artifactOf disk)

def discover := collect
def discoverArtifacts := collect

-- `build.finished` of the engine, behind the build that started at `generation`.
def engineFinished (disk : Disk) (root : Place) (declared : List Place) (generation : Int)
    (status : BuildStatus) (exitCode : Option Int) (durationMs : Nat) : BuildFinishedPayload :=
  ⟨status,exitCode,durationMs,if status = .ok then discover disk root declared (some generation) else []⟩

-- `build.finished` of the command line: it passes no stamp, whatever the status.
def cliFinished (disk : Disk) (root : Place) (declared : List Place)
    (status : BuildStatus) (exitCode : Option Int) (durationMs : Nat) : BuildFinishedPayload :=
  ⟨status,exitCode,durationMs,discoverArtifacts disk root declared none⟩

-- The files that a scan from `dir` reaches, with what their entries say.
inductive Reaches (disk : Disk) : Nat → Place → Place → Metadata → Prop where
  | file (listed : disk.readDir dir = some entries) (entry : some (name,some metadata) ∈ entries) (plain : metadata.isDir = false) :
      Reaches disk (depth+1) dir (dir++[name]) metadata
  | under (listed : disk.readDir dir = some entries) (entry : some (name,some metadata) ∈ entries) (folder : metadata.isDir = true)
      (inside : Reaches disk depth (dir++[name]) path found) : Reaches disk (depth+1) dir path found

structure Recognised (disk : Disk) (root path : Place) (metadata : Metadata) : Prop where
  reached : ∃ name ∈ artifactDirs, disk.isDir (root++[encode name]) = true ∧
    Reaches disk artifactScanDepth (root++[encode name]) path metadata
  product : hasArtifactExtension path = true

-- A file whose time cannot be read counts as written by the build.
def Written (generation : Int) (metadata : Metadata) : Prop :=
  ∀ modified, metadata.modified = some modified → generation ≤ modified + timestampSlack

def Discovered (disk : Disk) (root path : Place) : Prop := ∃ metadata, Recognised disk root path metadata

def Fresh (disk : Disk) (root : Place) (generation : Int) (path : Place) : Prop :=
  ∃ metadata, Recognised disk root path metadata ∧ Written generation metadata

-- A file that is there and can be read.
def Publishable (disk : Disk) (path : Place) : Prop :=
  disk.isFile path = true ∧ ∃ facts, disk.fileSizeAndHash path = .ok facts

def Wanted (disk : Disk) (root : Place) (declared : List Place) (generation : Int) (status : BuildStatus) (path : Place) : Prop :=
  disk.isFile path = true ∧ (path ∈ declared ∨ status = .ok ∧ Fresh disk root generation path)

-- The artifacts of exactly the wanted paths, in the order of the paths, each once.
def Lists (disk : Disk) (wanted : Place → Prop) (artifacts : List Artifact) : Prop :=
  ∃ paths : List Place, paths.Pairwise (key · < key ·) ∧ (∀ path, path ∈ paths ↔ wanted path) ∧
    artifacts = paths.filterMap (artifactOf disk)

-- A successful build leaves no old product behind; a build that failed leaves
-- none, and no declared file either.
def Swept (disk : Disk) (root : Place) (declared : List Place) (generation : Int) (status : BuildStatus) : Prop :=
  ∀ path, Publishable disk path →
    if status = .ok then Discovered disk root path → path ∈ declared ∨ Fresh disk root generation path
    else path ∉ declared ∧ ¬Discovered disk root path

theorem rank_injective : Function.Injective rank := by
  intro a b same
  unfold rank at same
  split at same <;> split at same
  · next first second => rw [first,second]
  · cases same
  · cases same
  · exact List.map_injective_iff.mpr (fun x y => UInt8.toNat_inj.mp) (List.cons.inj same).2

theorem key_injective : Function.Injective key := List.map_injective_iff.mpr rank_injective

theorem mem_scanDir {disk : Disk} {newerThan : Option Int} (depth : Nat) (dir : Place) :
    path ∈ scanDir disk newerThan depth dir ↔
      ∃ metadata, Reaches disk depth dir path metadata ∧ hasArtifactExtension path = true ∧ stale newerThan metadata = false := by
  induction depth generalizing dir with
  | zero => exact ⟨fun inside => (nomatch inside),fun ⟨_,reached,_⟩ => nomatch reached⟩
  | succ depth ih =>
    rw [scanDir]
    constructor
    · intro inside
      split at inside
      · cases inside
      · next entries listed =>
        obtain ⟨entry,there,inside⟩ := List.mem_flatMap.mp inside
        match entry with
        | none => cases inside
        | some (name,none) => cases inside
        | some (name,some metadata) =>
          simp only [scanEntry] at inside
          split at inside
          · next folder =>
            obtain ⟨found,reached,rest⟩ := (ih _).mp inside
            exact ⟨found,.under listed there folder reached,rest⟩
          · next plain =>
            split at inside
            · cases inside
            · next product =>
              split at inside
              · cases inside
              · next new =>
                cases List.mem_singleton.mp inside
                exact ⟨metadata,.file listed there (by simpa using plain),by simpa using product,by simpa using new⟩
    · rintro ⟨found,reached,product,new⟩
      cases reached with
      | file listed entry plain =>
        rw [listed]
        refine List.mem_flatMap.mpr ⟨_,entry,?_⟩
        simp [scanEntry,plain,product,new]
      | under listed entry folder inside =>
        rw [listed]
        refine List.mem_flatMap.mpr ⟨_,entry,?_⟩
        simp only [scanEntry,folder,if_true]
        exact (ih _).mpr ⟨found,inside,product,new⟩

theorem mem_scanned {disk : Disk} {root path : Place} {newerThan : Option Int} :
    path ∈ artifactDirs.flatMap (scanned disk root newerThan) ↔
      ∃ metadata, Recognised disk root path metadata ∧ stale newerThan metadata = false := by
  rw [List.mem_flatMap]
  constructor
  · rintro ⟨name,among,inside⟩
    dsimp only [scanned] at inside
    split at inside
    · next folder =>
      obtain ⟨metadata,reached,product,new⟩ := (mem_scanDir _ _).mp inside
      exact ⟨metadata,⟨⟨name,among,folder,reached⟩,product⟩,new⟩
    · cases inside
  · rintro ⟨metadata,⟨⟨name,among,folder,reached⟩,product⟩,new⟩
    refine ⟨name,among,?_⟩
    rw [scanned,if_pos folder]
    exact (mem_scanDir _ _).mpr ⟨metadata,reached,product,new⟩

theorem stale_none (metadata : Metadata) : stale none metadata = false := rfl

theorem written_iff (generation : Int) (metadata : Metadata) : stale (some generation) metadata = false ↔ Written generation metadata := by
  cases here : metadata.modified with
  | none => simp [stale,Written,here]
  | some modified => simp [stale,Written,here]

theorem mem_gather {disk : Disk} {root path : Place} {declared : List Place} {newerThan : Option Int} :
    path ∈ gather disk root declared newerThan ↔ (path ∈ declared ∧ disk.isFile path = true) ∨
      ∃ metadata, Recognised disk root path metadata ∧ stale newerThan metadata = false := by
  rw [gather,List.mem_append,List.mem_filter,mem_scanned]

theorem mem_gather_any {disk : Disk} {root path : Place} {declared : List Place} :
    path ∈ gather disk root declared none ↔ (path ∈ declared ∧ disk.isFile path = true) ∨ Discovered disk root path := by
  simp only [mem_gather,stale_none,and_true,Discovered]

theorem mem_gather_since {disk : Disk} {root path : Place} {declared : List Place} {generation : Int} :
    path ∈ gather disk root declared (some generation) ↔
      (path ∈ declared ∧ disk.isFile path = true) ∨ Fresh disk root generation path := by
  simp only [mem_gather,written_iff,Fresh]

theorem artifactOf_isSome {disk : Disk} {path : Place} : (artifactOf disk path).isSome = true ↔ Publishable disk path := by
  unfold artifactOf Publishable
  split
  · next file =>
    cases disk.fileSizeAndHash path with
    | ok facts => simp [file]
    | error e => simp [file]
  · next missing => simp [missing]

theorem no_artifacts {disk : Disk} {paths : List Place} :
    paths.filterMap (artifactOf disk) = [] ↔ ∀ path ∈ paths, ¬Publishable disk path := by
  rw [List.filterMap_eq_nil_iff]
  exact forall₂_congr fun path _ => by rw [← artifactOf_isSome,Option.not_isSome_iff_eq_none]

-- What the list holds: its members in order, for any property that they share.
theorem lists_collect {disk : Disk} {root : Place} {declared : List Place} {newerThan : Option Int} {wanted : Place → Prop}
    (members : ∀ path, disk.isFile path = true → (path ∈ gather disk root declared newerThan ↔ wanted path))
    (files : ∀ path, wanted path → disk.isFile path = true) : Lists disk wanted (collect disk root declared newerThan) := by
  refine ⟨(ordered key (gather disk root declared newerThan)).filter disk.isFile,(ordered_ascends key_injective _).filter _,?_,?_⟩
  · intro path
    rw [List.mem_filter,mem_ordered]
    exact ⟨fun ⟨inside,file⟩ => (members path file).mp inside,fun want => ⟨(members path (files path want)).mpr want,files path want⟩⟩
  · exact (filterMap_filter_of_image fun path _ some => (artifactOf_isSome.mp some).1).symm

-- The engine's list behind a build that succeeded.
theorem engine_lists (disk : Disk) (root : Place) (declared : List Place) (generation : Int) (exitCode : Option Int) (durationMs : Nat) :
    Lists disk (Wanted disk root declared generation .ok) (engineFinished disk root declared generation .ok exitCode durationMs).artifacts := by
  refine lists_collect (fun path file => ?_) fun path want => want.1
  rw [mem_gather_since,Wanted]
  simp [file]

-- Two lists that the same function collects agree just if no file that can be
-- published is in one of them only.
theorem collect_eq_iff {disk : Disk} {root : Place} {declared : List Place} {generation : Int} :
    collect disk root declared none = collect disk root declared (some generation) ↔
      ∀ path, Publishable disk path → Discovered disk root path → path ∈ declared ∨ Fresh disk root generation path := by
  have within : ordered key (gather disk root declared (some generation)) ⊆ ordered key (gather disk root declared none) := by
    intro path inside
    rw [mem_ordered,mem_gather_since] at inside
    rw [mem_ordered,mem_gather_any]
    exact inside.imp_right fun ⟨metadata,recognised,_⟩ => ⟨metadata,recognised⟩
  constructor
  · intro same path publishable discovered
    have there : path ∈ ordered key (gather disk root declared none) := (mem_ordered key _).mpr (mem_gather_any.mpr (.inr discovered))
    have inside := holds_images (nodup_of_ascends (ordered_ascends key_injective _)) within (congrArg List.length same).symm there
      (artifactOf_isSome.mpr publishable)
    rw [mem_ordered,mem_gather_since] at inside
    exact inside.imp_left And.left
  · intro swept
    have kept : ((ordered key (gather disk root declared none)).filter fun path => decide (path ∈ gather disk root declared (some generation))) =
        ordered key (gather disk root declared (some generation)) := by
      refine ascends_ext ((ordered_ascends key_injective _).filter _) (ordered_ascends key_injective _) fun path => ?_
      rw [List.mem_filter,decide_eq_true_eq,mem_ordered key (gather disk root declared (some generation))]
      exact ⟨And.right,fun inside => ⟨within ((mem_ordered key _).mpr inside),inside⟩⟩
    rw [collect,collect,← kept]
    refine (filterMap_filter_of_image fun path inside some => decide_eq_true ?_).symm
    have publishable := artifactOf_isSome.mp some
    rw [mem_ordered,mem_gather_any] at inside
    rw [mem_gather_since]
    obtain here | discovered := inside
    · exact .inl here
    · exact (swept path publishable discovered).imp_left fun among => ⟨among,publishable.1⟩

theorem collect_empty_iff {disk : Disk} {root : Place} {declared : List Place} :
    collect disk root declared none = [] ↔ ∀ path, Publishable disk path → path ∉ declared ∧ ¬Discovered disk root path := by
  rw [collect,no_artifacts]
  constructor
  · intro none path publishable
    refine ⟨fun among => none path ?_ publishable,fun discovered => none path ?_ publishable⟩
    · exact (mem_ordered key _).mpr (mem_gather_any.mpr (.inl ⟨among,publishable.1⟩))
    · exact (mem_ordered key _).mpr (mem_gather_any.mpr (.inr discovered))
  · intro swept path inside publishable
    obtain ⟨among,_⟩ | discovered := mem_gather_any.mp ((mem_ordered key _).mp inside)
    · exact (swept path publishable).1 among
    · exact (swept path publishable).2 discovered

-- Both lists are the one of the wanted files.
theorem artifacts_published_iff (disk : Disk) (root : Place) (declared : List Place) (generation : Int)
    (status : BuildStatus) (exitCode : Option Int) (durationMs : Nat) :
    (cliFinished disk root declared status exitCode durationMs).artifacts =
        (engineFinished disk root declared generation status exitCode durationMs).artifacts ∧
      Lists disk (Wanted disk root declared generation status) (engineFinished disk root declared generation status exitCode durationMs).artifacts ↔
      Swept disk root declared generation status := by
  by_cases ok : status = .ok
  · subst ok
    have listed := engine_lists disk root declared generation exitCode durationMs
    simp only [Swept,if_true]
    exact (and_iff_left listed).trans collect_eq_iff
  · simp only [Swept,cliFinished,engineFinished,discoverArtifacts,if_neg ok,← collect_empty_iff]
    refine and_iff_left_of_imp fun empty => ?_
    have none := collect_empty_iff.mp empty
    refine ⟨ordered key (declared.filter disk.isFile),ordered_ascends key_injective _,fun path => ?_,?_⟩
    · rw [mem_ordered,List.mem_filter,Wanted]
      simp [ok,and_comm]
    · refine (no_artifacts.mpr fun path inside publishable => ?_).symm
      rw [mem_ordered,List.mem_filter] at inside
      exact (none path publishable).1 inside.1

-- A text path as the scan takes it.
def placeOf (path : Text) : Place := (Path.components path).filterMap fun
  | .normal name => some (encode name)
  | .parentDir => some parentName
  | _ => none

-- The artifact step of `execute` answers with this list, for a system whose scan
-- is the one above.
theorem artifactStep_lists {sys : BuildBackend.System} (accepts : Accepts sys.sink) {disk : Disk} {generation : Int}
    (scans : ∀ asked root declared, sys.answers asked (.discover root declared) =
      discover disk (placeOf root) (declared.map placeOf) (some generation))
    (plan : BuildBackend.BuildPlan) (dir : Text) (status : BuildStatus) (exitCode : Option Int) (durationMs : Nat) :
    Yields (BuildBackend.MakeBackend.artifactStep sys plan dir status)
      (engineFinished disk (placeOf (BuildBackend.projectFrom sys.currentDir plan dir).root) (plan.declaredArtifacts.map placeOf)
        generation status exitCode durationMs).artifacts := by
  unfold BuildBackend.MakeBackend.artifactStep engineFinished BuildBackend.MakeBackend.noteNoArtifact
  split
  · next ok =>
    have asked : Yields (sys.ask (.discover (BuildBackend.projectFrom sys.currentDir plan dir).root plan.declaredArtifacts))
        (discover disk (placeOf (BuildBackend.projectFrom sys.currentDir plan dir).root) (plan.declaredArtifacts.map placeOf)
          (some generation)) := fun s => congrArg Except.ok (scans s.asked _ _)
    refine asked.bind (.after_sure (.each fun artifact => BuildBackend.emit_sure accepts _) fun _ => .after_sure ?_ fun _ => .pure _)
    split
    · exact BuildBackend.note_sure accepts _
    · exact .pure _
  · exact .pure _

def project : Place := [encode "p".toList]
def oldImage : Place := project ++ [encode "build".toList,encode "old.elf".toList]

-- One image, written at the epoch.
def leftover : Disk where
  isFile path := path = oldImage
  isDir path := path = project ++ [encode "build".toList]
  readDir _ := some [some (encode "old.elf".toList,some ⟨false,some 0⟩)]
  fileSizeAndHash _ := .ok (3,"00".toList)

theorem old_image_published :
    ¬((cliFinished leftover project [] .ok (some 0) 5).artifacts = (engineFinished leftover project [] 2000000000 .ok (some 0) 5).artifacts ∧
      Lists leftover (Wanted leftover project [] 2000000000 .ok) (engineFinished leftover project [] 2000000000 .ok (some 0) 5).artifacts) := by
  intro ⟨same,_⟩
  have claimed : (cliFinished leftover project [] .ok (some 0) 5).artifacts = [⟨"/p/build/old.elf".toList,.elf,3,"00".toList⟩] := by
    decide +kernel
  have none : (engineFinished leftover project [] 2000000000 .ok (some 0) 5).artifacts = [] := by decide +kernel
  rw [claimed,none] at same
  cases same

end PrincessIDE.Artifacts
