import PrincessIDE.Foundation.Firsts
import PrincessIDE.Foundation.Lexical

namespace PrincessIDE.CliEnv
open Utf8 (Text)
open Str PrincessIDE.Path Firsts

-- An `OsString` is a list of units, the bytes of it, of which a colon, a slash
-- and a dot mean something. `split_paths` has one empty entry for no text at all.
def splitPaths (value : Text) : List Text := split [':'] value

-- `std::env::join_paths` refuses an entry with the separator in it.
def stdJoinPaths (parts : List Text) : Option Text := if parts.any (·.contains ':') then none else some ([':'].intercalate parts)

-- Two directories are the same path when they have the same components.
def joinPaths (dirs : List Text) (inherited : Text) : Text :=
  (stdJoinPaths (firsts components [] (dirs ++ splitPaths inherited))).getD inherited

-- What the children are given; a variable that is not given they inherit.
structure ChildEnv where
  path : Text
  ldLibraryPath : Option Text
deriving DecidableEq, Repr

-- The variables as they are inherited, each set or not.
structure Inherited where
  path : Option Text
  ldLibraryPath : Option Text
deriving DecidableEq, Repr

def assemble (pathParts ldParts : List Text) (inherited : Inherited) : ChildEnv :=
  ⟨joinPaths pathParts (inherited.path.getD []),
    if ldParts = [] then none else some (joinPaths ldParts (inherited.ldLibraryPath.getD []))⟩

-- The directories of the workspace toolchain that there are.
def pathDirs (root : Text) : List Text :=
  let toolchain := join root ".toolchain".toList
  let prefixDir := join toolchain "prefix".toList
  [join (join toolchain "cargo".toList) "bin".toList,join prefixDir "usr/lib/llvm-14/bin".toList,join prefixDir "usr/bin".toList,
    join prefixDir "bin".toList,join prefixDir "usr/sbin".toList]

def ldDirs (root : Text) : List Text :=
  let prefixDir := join (join root ".toolchain".toList) "prefix".toList
  ["usr/lib/x86_64-linux-gnu","lib/x86_64-linux-gnu","usr/lib","lib","usr/lib/llvm-14/lib"].map fun dir => join prefixDir dir.toList

def discover (isDir : Text → Bool) (root : Option Text) (inherited : Inherited) : ChildEnv :=
  assemble ((root.map pathDirs).getD [] |>.filter isDir) ((root.map ldDirs).getD [] |>.filter isDir) inherited

-- The directories that a variable lists; one that is not set lists none.
def listed (inherited : Option Text) : List Text := (inherited.map splitPaths).getD []

-- A list that has the first directories and then the others, in their orders,
-- each directory once and no other.
structure Lists (dirs others entries : List Text) : Prop where
  order : ∃ front back, entries = front ++ back ∧ front.Sublist dirs ∧ back.Sublist others ∧
    ∀ dir ∈ dirs, ∃ entry ∈ front, components entry = components dir
  once : (entries.map components).Nodup
  every : ∀ dir ∈ others, ∃ entry ∈ entries, components entry = components dir

-- What the joined path should be.
structure Joined (dirs : List Text) (inherited : Option Text) (value : Text) : Prop where
  lists : Lists dirs (listed inherited) (splitPaths value)
  again : joinPaths dirs value = value

-- The variable is set, or the empty path is asked for; and no directory has the
-- separator in its name.
def Joinable (dirs : List Text) (inherited : Option Text) : Prop := (inherited ≠ none ∨ [] ∈ dirs) ∧ ∀ dir ∈ dirs, ':' ∉ dir

theorem stdJoinPaths_ok (plain : ∀ part ∈ parts, ':' ∉ part) : stdJoinPaths parts = some ([':'].intercalate parts) :=
  if_neg (by simpa using plain)

theorem stdJoinPaths_none (member : part ∈ parts) (bad : ':' ∈ part) : stdJoinPaths parts = none :=
  if_pos (by simpa using ⟨part,member,bad⟩)

theorem splitPaths_plain (member : entry ∈ splitPaths value) : ':' ∉ entry := split_plain member

theorem splitPaths_some (value : Text) : splitPaths value ≠ [] := by
  unfold splitPaths split
  cases value.length with
  | zero => exact List.cons_ne_nil _ _
  | succ n =>
    rw [splitRounds]
    split <;> exact List.cons_ne_nil _ _

theorem splitPaths_join (filled : parts ≠ []) (plain : ∀ part ∈ parts, ':' ∉ part) : splitPaths ([':'].intercalate parts) = parts := by
  cases parts with
  | nil => exact absurd rfl filled
  | cons part parts => exact split_intercalate plain

theorem firsts_entry (member : dir ∈ dirs) : ∃ entry ∈ firsts components [] dirs, components entry = components dir :=
  (firsts_every member).resolve_left List.not_mem_nil

theorem firsts_some (dirs : List Text) (value : Text) : firsts components [] (dirs ++ splitPaths value) ≠ [] := by
  intro none
  obtain ⟨entry,rest,cut⟩ := List.exists_cons_of_ne_nil (splitPaths_some value)
  have inside : entry ∈ dirs ++ splitPaths value := by rw [cut]; simp
  obtain ⟨y,member,_⟩ := firsts_entry inside
  rw [none] at member
  cases member

-- What is between the separators is what is not one.
theorem mem_split {t : Text} : (∃ part ∈ split [d] t, c ∈ part) ↔ c ∈ t ∧ c ≠ d := by
  induction length : t.length using Nat.strongRecOn generalizing t with
  | _ n ih =>
    by_cases here : d ∈ t
    · obtain ⟨front,rest,rfl,absent⟩ := List.eq_append_cons_of_mem here
      simp only [List.length_append,List.length_cons] at length
      have later := @ih rest.length (by omega) rest rfl
      rw [split_char absent,List.exists_mem_cons_iff,later,List.mem_append,List.mem_cons]
      constructor
      · rintro (early | ⟨late,other⟩)
        · exact ⟨.inl early,fun same => absent (same ▸ early)⟩
        · exact ⟨.inr (.inr late),other⟩
      · rintro ⟨early | same | late,other⟩
        · exact .inl early
        · exact absurd same other
        · exact .inr ⟨late,other⟩
    · rw [split_absent here List.mem_cons_self,List.exists_mem_cons_iff]
      simp only [List.not_mem_nil,false_and,exists_false,or_false]
      exact ⟨fun inside => ⟨inside,fun same => here (same ▸ inside)⟩,And.left⟩

theorem normal_part (member : Component.normal name ∈ components path) : name ∈ split "/".toList path := by
  have body : Component.normal name ∈ (split "/".toList path).filterMap component := by
    unfold components at member
    dsimp only at member
    split at member
    · exact (List.mem_cons.mp member).resolve_left (by simp)
    · split at member
      · exact (List.mem_cons.mp member).resolve_left (by simp)
      · exact member
  obtain ⟨part,inside,found⟩ := List.mem_filterMap.mp body
  rw [← (component_normal found).1]
  exact inside

theorem part_component (member : part ∈ split "/".toList path) (found : component part = some c) : c ∈ components path := by
  have body : c ∈ (split "/".toList path).filterMap component := List.mem_filterMap.mpr ⟨part,member,found⟩
  unfold components
  dsimp only
  split
  · exact List.mem_cons_of_mem _ body
  · split
    · exact List.mem_cons_of_mem _ body
    · exact body

-- A colon of a path is a colon of one of its names, so that paths that are the
-- same have one or have none.
theorem components_colon : ':' ∈ path ↔ ∃ name, Component.normal name ∈ components path ∧ ':' ∈ name := by
  constructor
  · intro inside
    obtain ⟨part,member,found⟩ := mem_split.mpr ⟨inside,show ':' ≠ '/' by decide⟩
    have named : component part = some (.normal part) := by
      rw [component,if_neg,if_neg]
      · rintro rfl
        exact absurd found (by decide)
      · rintro (rfl | rfl) <;> exact absurd found (by decide)
    exact ⟨part,part_component member named,found⟩
  · rintro ⟨name,member,found⟩
    exact (mem_split.mp ⟨name,normal_part member,found⟩).1

theorem same_colon (same : components a = components b) : ':' ∈ a ↔ ':' ∈ b := by rw [components_colon,same,← components_colon]

-- Only no text at all has no component.
theorem components_nil (none : components path = []) : path = [] := by
  cases path with
  | nil => rfl
  | cons c rest =>
    have relative : ¬ isAbsolute (c::rest) = true := by
      intro absolute
      rw [components,if_pos absolute] at none
      cases none
    have other : c ≠ '/' := fun same => relative (by rw [same]; rfl)
    obtain ⟨part,parts,cut,filled⟩ : ∃ part parts, split "/".toList (c::rest) = part::parts ∧ part ≠ [] := by
      by_cases here : '/' ∈ c::rest
      · obtain ⟨front,back,whole,absent⟩ := List.eq_append_cons_of_mem here
        rw [whole]
        refine ⟨front,_,split_char absent back,?_⟩
        rintro rfl
        rw [List.nil_append,List.cons.injEq] at whole
        exact other whole.1
      · exact ⟨_,[],split_absent here List.mem_cons_self,List.cons_ne_nil _ _⟩
    by_cases dot : part = ".".toList
    · unfold components at none
      dsimp only at none
      rw [if_neg relative,cut,dot,List.head?_cons,if_pos rfl] at none
      cases none
    · have named : component part ≠ Option.none := by
        rw [component,if_neg (not_or.mpr ⟨filled,dot⟩)]
        split <;> exact Option.some_ne_none _
      obtain ⟨found,here⟩ := Option.ne_none_iff_exists'.mp named
      have first : part ∈ split "/".toList (c::rest) := by
        rw [cut]
        exact List.mem_cons_self
      have member := part_component first here
      rw [none] at member
      cases member

-- With a separator in a directory nothing is joined.
theorem joinPaths_refused (member : dir ∈ dirs) (bad : ':' ∈ dir) (value : Text) : joinPaths dirs value = value := by
  obtain ⟨entry,inside,same⟩ := firsts_entry (List.mem_append_left (splitPaths value) member)
  rw [joinPaths,stdJoinPaths_none inside ((same_colon same).mpr bad)]
  rfl

theorem splitPaths_joined (plain : ∀ dir ∈ dirs, ':' ∉ dir) (value : Text) :
    splitPaths (joinPaths dirs value) = firsts components [] (dirs ++ splitPaths value) := by
  have parts : ∀ part ∈ firsts components [] (dirs ++ splitPaths value), ':' ∉ part := by
    intro part member
    rcases List.mem_append.mp (firsts_sublist.subset member) with dir | entry
    · exact plain part dir
    · exact splitPaths_plain entry
  rw [joinPaths,stdJoinPaths_ok parts,Option.getD_some,splitPaths_join (firsts_some dirs value) parts]

theorem joinPaths_again (dirs : List Text) (value : Text) : joinPaths dirs (joinPaths dirs value) = joinPaths dirs value := by
  by_cases plain : ∀ dir ∈ dirs, ':' ∉ dir
  · have entries := splitPaths_joined plain value
    rw [joinPaths,entries,firsts_again]
    have parts : ∀ part ∈ firsts components [] (dirs ++ splitPaths value), ':' ∉ part := by
      intro part member
      rw [← entries] at member
      exact splitPaths_plain member
    rw [stdJoinPaths_ok parts,Option.getD_some,joinPaths,stdJoinPaths_ok parts,Option.getD_some]
  · simp only [not_forall,not_not] at plain
    obtain ⟨dir,member,bad⟩ := plain
    rw [joinPaths_refused member bad,joinPaths_refused member bad]

theorem firsts_lists (dirs others : List Text) : Lists dirs others (firsts components [] (dirs ++ others)) := by
  have cut : firsts components [] (dirs ++ others) = _ := firsts_append
  refine ⟨⟨_,_,cut,firsts_sublist,firsts_sublist,fun dir member => firsts_entry member⟩,firsts_nodup,fun dir member => ?_⟩
  exact firsts_entry (List.mem_append_right dirs member)

-- The one entry of an empty value is no new directory when it is asked for.
theorem firsts_unset (empty : [] ∈ dirs) : firsts components [] (dirs ++ splitPaths []) = firsts components [] (dirs ++ []) := by
  have known : firsts components ([] ++ (firsts components [] dirs).map components) (splitPaths []) = [] := by
    refine firsts_known fun entry member => ?_
    obtain ⟨y,inside,same⟩ := firsts_entry empty
    obtain rfl : entry = [] := List.mem_singleton.mp member
    rw [List.nil_append,← same]
    exact List.mem_map_of_mem inside
  rw [firsts_append,known,List.append_nil,List.append_nil]

theorem lists_colon (lists : Lists dirs others (splitPaths value)) : ∀ dir ∈ dirs, ':' ∉ dir := by
  intro dir member bad
  obtain ⟨front,back,cut,_,_,every⟩ := lists.order
  obtain ⟨entry,inside,same⟩ := every dir member
  have listed : entry ∈ splitPaths value := by
    rw [cut]
    exact List.mem_append_left _ inside
  exact splitPaths_plain listed ((same_colon same).mpr bad)

-- An unset variable lists no directory, and its value has an empty entry.
theorem lists_unset (lists : Lists dirs [] (splitPaths (joinPaths dirs []))) : [] ∈ dirs := by
  obtain ⟨front,back,cut,early,late,_⟩ := lists.order
  obtain rfl : back = [] := List.sublist_nil.mp late
  rw [List.append_nil] at cut
  rw [splitPaths_joined (lists_colon lists)] at cut
  have blank : [] ∈ dirs ++ splitPaths [] := List.mem_append_right dirs List.mem_cons_self
  obtain ⟨entry,inside,same⟩ := firsts_entry blank
  obtain rfl : entry = [] := components_nil same
  rw [cut] at inside
  exact early.subset inside

theorem joined_iff (dirs : List Text) (inherited : Option Text) :
    Joined dirs inherited (joinPaths dirs (inherited.getD [])) ↔ Joinable dirs inherited := by
  constructor
  · intro joined
    refine ⟨?_,lists_colon joined.lists⟩
    cases inherited with
    | none => exact .inr (lists_unset joined.lists)
    | some value => exact .inl (Option.some_ne_none value)
  · rintro ⟨given,plain⟩
    refine ⟨?_,joinPaths_again dirs _⟩
    rw [splitPaths_joined plain]
    cases inherited with
    | none =>
      have empty : [] ∈ dirs := given.resolve_left fun set => set rfl
      rw [Option.getD_none,firsts_unset empty]
      exact firsts_lists dirs []
    | some value => exact firsts_lists dirs (splitPaths value)

-- Every variable that the children are given.
structure ChildJoined (pathParts ldParts : List Text) (inherited : Inherited) (child : ChildEnv) : Prop where
  path : Joined pathParts inherited.path child.path
  ldLibraryPath : ∀ value, child.ldLibraryPath = some value → Joined ldParts inherited.ldLibraryPath value

theorem childJoined_iff : ChildJoined pathParts ldParts inherited (assemble pathParts ldParts inherited) ↔
    Joined pathParts inherited.path (joinPaths pathParts (inherited.path.getD [])) ∧
      (ldParts ≠ [] → Joined ldParts inherited.ldLibraryPath (joinPaths ldParts (inherited.ldLibraryPath.getD []))) := by
  have ld : (∀ value, (assemble pathParts ldParts inherited).ldLibraryPath = some value → Joined ldParts inherited.ldLibraryPath value) ↔
      (ldParts ≠ [] → Joined ldParts inherited.ldLibraryPath (joinPaths ldParts (inherited.ldLibraryPath.getD []))) := by
    rw [assemble]
    by_cases none : ldParts = []
    · rw [if_pos none]
      exact ⟨fun _ some => absurd none some,fun _ _ found => nomatch found⟩
    · rw [if_neg none]
      exact ⟨fun held _ => held _ rfl,fun held value same => Option.some.inj same ▸ held none⟩
  rw [← ld]
  exact ⟨fun child => ⟨child.path,child.ldLibraryPath⟩,fun ⟨path,value⟩ => ⟨path,value⟩⟩

theorem assemble_joined_iff (pathParts ldParts : List Text) (inherited : Inherited) :
    ChildJoined pathParts ldParts inherited (assemble pathParts ldParts inherited) ↔
      Joinable pathParts inherited.path ∧ (ldParts ≠ [] → Joinable ldParts inherited.ldLibraryPath) := by
  rw [childJoined_iff,joined_iff,joined_iff]

theorem join_filled (filled : path ≠ []) (base : Text) : join base path ≠ [] := by
  unfold join
  split
  · exact filled
  · split
    · exact List.append_ne_nil_of_right_ne_nil base filled
    · exact List.append_ne_nil_of_right_ne_nil base (List.cons_ne_nil _ _)

theorem pathDirs_filled (root : Text) : ∀ dir ∈ pathDirs root, dir ≠ [] := by
  simp only [pathDirs,List.forall_mem_cons,List.not_mem_nil,false_imp_iff,implies_true,and_true]
  exact ⟨join_filled (by decide) _,join_filled (by decide) _,join_filled (by decide) _,join_filled (by decide) _,join_filled (by decide) _⟩

theorem ldDirs_filled (root : Text) : ∀ dir ∈ ldDirs root, dir ≠ [] := by
  intro dir member
  obtain ⟨name,inside,rfl⟩ := List.mem_map.mp member
  refine join_filled (fun empty => ?_) _
  have filled : ∀ name ∈ ["usr/lib/x86_64-linux-gnu","lib/x86_64-linux-gnu","usr/lib","lib","usr/lib/llvm-14/lib"], name.toList ≠ [] := by decide
  exact filled name inside empty

theorem joinable_filled (filled : ∀ dir ∈ dirs, dir ≠ []) : Joinable dirs inherited ↔ inherited ≠ none ∧ ∀ dir ∈ dirs, ':' ∉ dir := by
  have none : [] ∉ dirs := fun empty => filled [] empty rfl
  rw [Joinable,or_iff_left none]

-- A toolchain directory is never the empty path, so that nothing makes up for
-- a variable that is not set.
theorem discover_joined_iff (isDir : Text → Bool) (root : Text) (inherited : Inherited) :
    ChildJoined ((pathDirs root).filter isDir) ((ldDirs root).filter isDir) inherited (discover isDir (some root) inherited) ↔
      (inherited.path ≠ none ∧ ∀ dir ∈ (pathDirs root).filter isDir, ':' ∉ dir) ∧
      ((ldDirs root).filter isDir ≠ [] → inherited.ldLibraryPath ≠ none ∧ ∀ dir ∈ (ldDirs root).filter isDir, ':' ∉ dir) := by
  have paths : ∀ dir ∈ (pathDirs root).filter isDir, dir ≠ [] := fun dir member => pathDirs_filled root dir (List.mem_of_mem_filter member)
  have lds : ∀ dir ∈ (ldDirs root).filter isDir, dir ≠ [] := fun dir member => ldDirs_filled root dir (List.mem_of_mem_filter member)
  rw [← joinable_filled paths,← joinable_filled lds,← joined_iff,← joined_iff]
  exact childJoined_iff

-- `LD_LIBRARY_PATH` is not set: the loader then looks in the current directory.
theorem unset_emptyEntry : (assemble ["/w/usr/bin".toList] ["/w/usr/lib".toList] ⟨some "/bin".toList,none⟩).ldLibraryPath = some "/w/usr/lib:".toList ∧
    [] ∈ splitPaths "/w/usr/lib:".toList ∧ ¬ ChildJoined ["/w/usr/bin".toList] ["/w/usr/lib".toList] ⟨some "/bin".toList,none⟩
      (assemble ["/w/usr/bin".toList] ["/w/usr/lib".toList] ⟨some "/bin".toList,none⟩) := by
  have given : (assemble ["/w/usr/bin".toList] ["/w/usr/lib".toList] ⟨some "/bin".toList,none⟩).ldLibraryPath = some "/w/usr/lib:".toList := by
    decide +kernel
  have entry : [] ∈ splitPaths "/w/usr/lib:".toList := by decide +kernel
  refine ⟨given,entry,fun joined => ?_⟩
  obtain ⟨front,back,cut,early,late,_⟩ := (joined.ldLibraryPath _ given).lists.order
  obtain rfl : back = [] := List.sublist_nil.mp late
  rw [cut,List.append_nil] at entry
  exact absurd (early.subset entry) (by decide)

end PrincessIDE.CliEnv
