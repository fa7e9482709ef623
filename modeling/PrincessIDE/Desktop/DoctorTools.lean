import Mathlib.Data.List.Induction
import Mathlib.Data.List.ModifyLast
import PrincessIDE.Desktop.Doctor
import PrincessIDE.Foundation.Keyed

namespace PrincessIDE.Doctor
open Utf8 (Text)
open Str Keyed

@[ext] structure ToolInfo where
  name : Text
  status : Text
  version : Option Text
  path : Option Text
  available : Bool
  required : Bool
  checks : List Text
deriving DecidableEq

structure Row where
  name : Text
  status : Text
  value : Text
deriving DecidableEq

-- The statuses of a version that is there and is not the wanted one.
def refused (status : Text) : Bool := ["WRONG VER".toList,"TOO OLD".toList,"NO DAP".toList].contains status

def Row.isCheck (row : Row) : Bool :=
  startsWith "version matches /".toList row.value || startsWith "major=".toList row.value || refused row.status

def missing : Text := "MISSING".toList
def ok : Text := "ok".toList

def Row.create (row : Row) : ToolInfo where
  name := row.name
  status := row.status
  version := if row.isCheck || row.status = missing || row.value = [] then none else some row.value
  path := none
  available := row.status = ok
  required := true
  checks := if row.isCheck && row.value ≠ [] then [row.value] else []

def Row.merge (row : Row) (existing : ToolInfo) : ToolInfo where
  name := existing.name
  status := if row.isCheck then existing.status else row.status
  version := if !row.isCheck && existing.version.isNone && row.value ≠ [] then some row.value else existing.version
  path := existing.path
  available := existing.available && !refused row.status && row.status ≠ missing
  required := existing.required
  checks := if row.value = [] then existing.checks else existing.checks ++ [row.value]

def mergeRow (row : Row) (tools : List ToolInfo) : List ToolInfo := upsert Row.name ToolInfo.name Row.create Row.merge row tools

-- The indented line goes to the entry that was made last.
def attachPath (line : Text) (tools : List ToolInfo) : List ToolInfo := tools.modifyLast fun last =>
  if last.path = none ∧ trim line ≠ [] ∧ startsWith ['-'] (trim line) = false ∧ startsWith ['='] (trim line) = false then { last with path := some (trim line) }
  else last

def readLine (tools : List ToolInfo) (line : Text) : List ToolInfo :=
  if trim line = [] then tools
  else if startsWith [' '] line || startsWith ['\t'] line then attachPath line tools
  else match splitToolLine line with
    | none => tools
    | some (name,status,value) => mergeRow ⟨name,status,value⟩ tools

def parseDoctorOutput (stdout : Text) : List ToolInfo := (lines stdout).foldl readLine []

-- A path as it is printed below a row.
structure PathLine where
  indent : Nat
  path : Text
  some : path ≠ []
  trimmed : trim path = path
  single : '\n' ∉ path
  plain : ∀ c ∈ path.head?, c ≠ '-' ∧ c ≠ '='

def PathLine.text (p : PathLine) : Text := List.replicate (p.indent+1) ' ' ++ p.path

-- A row in a line that reads as it, and the path below it where it reports one.
structure Item where
  row : Row
  line : Text
  path : Option PathLine
  single : '\n' ∉ line
  flush : ∀ c ∈ (dropReturn line).head?, c ≠ ' ' ∧ c ≠ '\t'
  reads : splitToolLine (dropReturn line) = some (row.name,row.status,row.value)
  reported : row.isCheck = true → path = none

def Item.texts (i : Item) : List Text := i.line :: (i.path.map PathLine.text).toList

def listing (items : List Item) : Text := (items.flatMap Item.texts).flatMap fun line => line ++ ['\n']

-- No tool is reported twice.
def Single (items : List Item) : Prop := ((items.filter fun i => !i.row.isCheck).map (·.row.name)).Nodup

def names (items : List Item) : List Text := distinct (items.map (·.row.name))

def reportOf (items : List Item) (name : Text) : Option Item := items.find? fun i => i.row.name = name && !i.row.isCheck

-- The path that a tool is reported with.
def pathOf (items : List Item) (name : Text) : Option Text := (reportOf items name).bind fun i => i.path.map PathLine.path

def own (items : List Item) (name : Text) : List Item := items.filter (·.row.name = name)

-- What rows say, where they say something.
def said (rows : List Row) : List Text := (rows.map (·.value)).filter (· ≠ [])

-- The entry of a tool, from its report and its verifications wherever they stand.
def entryOf (items : List Item) (name : Text) : ToolInfo where
  name := name
  status := ((reportOf items name).or (own items name).head?).elim [] (·.row.status)
  version := (reportOf items name).bind fun i => if i.row.status = missing || i.row.value = [] then none else some i.row.value
  path := pathOf items name
  available := (own items name).all (·.row.status = ok)
  required := true
  checks := said (((own items name).map (·.row)).filter Row.isCheck)

-- What holds of every element of a list and those in front of it.
def Throughout (P : List Item → Item → Prop) (items : List Item) : Prop := ∀ front i back, items = front ++ i :: back → P front i

-- Each report comes before the verifications of its tool, or says nothing, and each
-- path below one comes while its tool is the last that has appeared.
structure InOrder (items : List Item) : Prop where
  facts : Throughout (fun front i => i.row.isCheck = false → i.row.name ∈ front.map (·.row.name) → i.row.value = []) items
  paths : Throughout (fun front i => i.path.isSome = true → (names (front ++ [i])).getLast? = some i.row.name) items

def step (tools : List ToolInfo) (i : Item) : List ToolInfo := (i.path.map PathLine.text).toList.foldl (fun tools line => attachPath line tools) (mergeRow i.row tools)

theorem split_solid (reads : splitToolLine line = some (name,status,value)) : trim line ≠ [] := by
  obtain ⟨before,after,found⟩ := split_status reads
  obtain ⟨marker,listed,cut⟩ := List.exists_of_findSome?_eq_some found
  obtain ⟨⟨front,back⟩,here,_⟩ := Option.map_eq_some_iff.mp cut
  obtain ⟨c,head,letter⟩ := marker_head listed back
  have solid : isWhitespace c = false := by
    have all : markerStarts.all (isWhitespace · == false) = true := by decide
    exact eq_of_beq (List.all_eq_true.mp all c letter)
  have inside : c ∈ line := by
    rw [(firstPlace_placed here).whole,List.append_assoc]
    exact List.mem_append_right _ (List.mem_of_mem_head? head)
  exact List.ne_nil_of_mem (trim_keeps solid inside)

theorem startsWith_char (differ : ∀ c ∈ t.head?, c ≠ d) : startsWith [d] t = false := by
  cases t with
  | nil => rfl
  | cons c t =>
    have other : d ≠ c := (differ c rfl).symm
    simp [startsWith,stripPrefix,other]

theorem readLine_row (i : Item) (tools : List ToolInfo) : readLine tools (dropReturn i.line) = mergeRow i.row tools := by
  unfold readLine
  rw [if_neg (split_solid i.reads),startsWith_char fun c first => (i.flush c first).1,startsWith_char fun c first => (i.flush c first).2,i.reads]
  rfl

theorem PathLine.trim_text (p : PathLine) : trim p.text = p.path := by
  unfold PathLine.text
  rw [trim_behind fun c member => (spaces_blank member).1,p.trimmed]

theorem PathLine.dropReturn_text (p : PathLine) : dropReturn p.text = p.text := by
  have last : p.text.getLast? = p.path.getLast? := List.getLast?_append_of_ne_nil _ p.some
  unfold dropReturn
  rw [if_neg]
  intro ended
  have solid := (trimmed_iff.mpr p.trimmed).2 '\r' (last ▸ ended)
  revert solid
  decide

theorem readLine_path (p : PathLine) (tools : List ToolInfo) : readLine tools (dropReturn p.text) = attachPath p.text tools := by
  have blank : startsWith [' '] p.text = true := by
    unfold PathLine.text startsWith
    rw [List.replicate_succ,List.cons_append]
    exact congrArg Option.isSome (stripPrefix_append [' '] _)
  unfold readLine
  rw [p.dropReturn_text,p.trim_text,if_neg p.some,blank]
  rfl

theorem Item.plain (i : Item) : ∀ line ∈ i.texts, '\n' ∉ line := by
  intro line member
  rcases List.mem_cons.mp member with rfl | below
  · exact i.single
  · obtain ⟨p,_,rfl⟩ := Option.map_eq_some_iff.mp (Option.mem_toList.mp below)
    intro inside
    rcases List.mem_append.mp inside with blank | path
    · exact absurd (List.mem_replicate.mp blank).2 (by decide)
    · exact p.single path

theorem texts_step (i : Item) (tools : List ToolInfo) : (i.texts.map dropReturn).foldl readLine tools = step tools i := by
  unfold Item.texts step
  rw [List.map_cons,List.foldl_cons,readLine_row]
  cases i.path with
  | none => rfl
  | some p => exact readLine_path p _

theorem parse_listing (items : List Item) : parseDoctorOutput (listing items) = items.foldl step [] := by
  have each : ∀ tools, ((items.flatMap Item.texts).map dropReturn).foldl readLine tools = items.foldl step tools := by
    intro tools
    induction items generalizing tools with
    | nil => rfl
    | cons i items ih => rw [List.flatMap_cons,List.map_append,List.foldl_append,texts_step,ih,List.foldl_cons]
  have cut : lines (listing items) = (items.flatMap Item.texts).map dropReturn := lines_flatten fun line member => by
    obtain ⟨i,_,inside⟩ := List.mem_flatMap.mp member
    exact i.plain line inside
  unfold parseDoctorOutput
  rw [cut,each]

theorem throughout_snoc {P : List Item → Item → Prop} (items : List Item) (i : Item) : Throughout P (items ++ [i]) ↔ Throughout P items ∧ P items i := by
  constructor
  · intro all
    refine ⟨fun front j back cut => all front j (back ++ [i]) (by rw [cut]; simp),all items i [] rfl⟩
  · rintro ⟨all,last⟩ front j back cut
    rcases List.eq_nil_or_concat' back with rfl | ⟨back,k,rfl⟩
    · obtain ⟨rfl,same⟩ := List.append_inj' cut rfl
      cases same
      exact last
    · rw [← List.cons_append,← List.append_assoc] at cut
      obtain ⟨rfl,_⟩ := List.append_inj' cut rfl
      exact all front j back rfl

def bare (t : ToolInfo) : ToolInfo := { t with path := none }

abbrev Summed (items : List Item) (tools : List ToolInfo) : Prop := Keyed.Summed Row.name ToolInfo.name Row.create Row.merge bare (items.map (·.row)) tools

theorem Summed.merge (summed : Summed items tools) (i : Item) : Summed (items ++ [i]) (mergeRow i.row tools) := by
  have next := Keyed.Summed.upsert summed (fun _ => rfl) (fun _ _ => rfl) (fun _ => rfl) (fun _ _ => rfl) i.row
  unfold Summed
  rw [List.map_append]
  exact next

-- The last entry alone may get a path.
theorem attach_snoc (line : Text) (front : List ToolInfo) (last : ToolInfo) :
    ∃ path, attachPath line (front ++ [last]) = front ++ [{ last with path := path }] := by
  unfold attachPath
  rw [List.modifyLast_concat]
  split
  · exact ⟨_,rfl⟩
  · exact ⟨last.path,rfl⟩

theorem Summed.attach (summed : Summed items tools) (line : Text) : Summed items (attachPath line tools) := by
  rcases List.eq_nil_or_concat' tools with rfl | ⟨front,last,rfl⟩
  · exact summed
  · obtain ⟨path,same⟩ := attach_snoc line front last
    rw [same]
    refine ⟨?_,fun e inside => ?_⟩
    · rw [← summed.names]
      simp
    · rcases List.mem_append.mp inside with early | here
      · exact summed.facts e (List.mem_append_left _ early)
      · rw [List.mem_singleton.mp here]
        exact summed.facts last (List.mem_append_right _ List.mem_cons_self)

theorem tools_summed (items : List Item) : Summed items (items.foldl step []) := by
  induction items using List.reverseRecOn with
  | nil => exact ⟨rfl,fun _ inside => (nomatch inside)⟩
  | append_singleton items i ih =>
    rw [List.foldl_append,List.foldl_cons,List.foldl_nil,step]
    cases i.path with
    | none => exact ih.merge i
    | some p => exact (ih.merge i).attach p.text

theorem Summed.names_eq (summed : Summed items tools) : tools.map ToolInfo.name = names items := by
  rw [summed.names,List.map_map]
  rfl

theorem Single.init (single : Single (items ++ [i])) : Single items := by
  unfold Single at single ⊢
  rw [List.filter_append,List.map_append] at single
  exact (List.nodup_append.mp single).1

theorem Single.fresh (single : Single (items ++ [i])) (report : i.row.isCheck = false) : reportOf items i.row.name = none := by
  unfold reportOf
  rw [List.find?_eq_none]
  intro j inside other
  obtain ⟨same,early⟩ := Bool.and_eq_true_iff.mp other
  unfold Single at single
  rw [List.filter_append,List.map_append,List.filter_cons_of_pos (by rw [report]; rfl)] at single
  refine (List.nodup_append.mp single).2.2 j.row.name (List.mem_map_of_mem (List.mem_filter.mpr ⟨inside,early⟩)) i.row.name ?_ (of_decide_eq_true same)
  exact List.mem_cons_self

theorem Item.report (i : Item) (below : i.path = some p) : i.row.isCheck = false := by
  cases check : i.row.isCheck with
  | false => rfl
  | true => exact absurd (i.reported check) (by rw [below]; exact Option.some_ne_none p)

theorem pathOf_other (items : List Item) (other : i.row.name ≠ name) : pathOf (items ++ [i]) name = pathOf items name := by
  unfold pathOf reportOf
  rw [List.find?_append,List.find?_cons_of_neg (by simp [other]),List.find?_nil,Option.or_none]

theorem pathOf_bare (items : List Item) (none : i.path = none) (name : Text) : pathOf (items ++ [i]) name = pathOf items name := by
  unfold pathOf reportOf
  rw [List.find?_append]
  cases items.find? fun i => i.row.name = name && !i.row.isCheck with
  | some j => rfl
  | none =>
    rw [Option.none_or]
    cases found : [i].find? fun i => i.row.name = name && !i.row.isCheck with
    | none => rfl
    | some j =>
      have same : j = i := List.mem_singleton.mp (List.mem_of_find?_eq_some found)
      rw [Option.bind_some,same,none]
      rfl

theorem pathOf_new (single : Single (items ++ [i])) (below : i.path = some p) : pathOf items i.row.name = none ∧ pathOf (items ++ [i]) i.row.name = some p.path := by
  have report := i.report below
  have fresh := single.fresh report
  unfold pathOf
  rw [fresh]
  refine ⟨rfl,?_⟩
  unfold reportOf at fresh ⊢
  rw [List.find?_append,fresh,List.find?_cons_of_pos (by simp [report]),Option.none_or,Option.bind_some,below]
  rfl

theorem pathOf_known (named : (pathOf items name).isSome = true) (i : Item) : (pathOf (items ++ [i]) name).isSome = true := by
  unfold pathOf reportOf at named ⊢
  rw [List.find?_append]
  cases found : items.find? fun i => i.row.name = name && !i.row.isCheck with
  | none =>
    rw [found] at named
    cases named
  | some j =>
    rw [found] at named
    exact named

theorem attach_path (p : PathLine) (front : List ToolInfo) (last : ToolInfo) (bare : last.path = none) :
    attachPath p.text (front ++ [last]) = front ++ [{ last with path := some p.path }] := by
  have plain : startsWith ['-'] p.path = false ∧ startsWith ['='] p.path = false :=
    ⟨startsWith_char fun c first => (p.plain c first).1,startsWith_char fun c first => (p.plain c first).2⟩
  unfold attachPath
  rw [List.modifyLast_concat,p.trim_text,if_pos ⟨bare,p.some,plain⟩]

-- A row leaves the paths that there are; an entry that it makes has none.
theorem merge_paths (summed : Summed items tools) (placed : ∀ t ∈ tools, t.path = pathOf items t.name) (i : Item) :
    ∀ t ∈ mergeRow i.row tools, t.path = pathOf items t.name := by
  intro t inside
  rcases upsert_mem summed.nodup inside with ⟨old,_⟩ | ⟨old,early,_,rfl⟩ | ⟨fresh,rfl⟩
  · exact placed t old
  · exact placed old early
  · have none : reportOf items i.row.name = none := by
      unfold reportOf
      rw [List.find?_eq_none]
      intro j member same
      rw [summed.names_eq] at fresh
      refine fresh ((mem_distinct _ _).mpr ?_)
      rw [← of_decide_eq_true (Bool.and_eq_true_iff.mp same).1]
      exact List.mem_map_of_mem member
    change Option.none = pathOf items i.row.name
    unfold pathOf
    rw [none]
    rfl

def placed (front : List Item) (i : Item) : Prop := i.path.isSome = true → (names (front ++ [i])).getLast? = some i.row.name

theorem paths_right (single : Single items) (all : Throughout placed items) : ∀ t ∈ items.foldl step [], t.path = pathOf items t.name := by
  induction items using List.reverseRecOn with
  | nil => exact fun _ inside => (nomatch inside)
  | append_singleton items i ih =>
    obtain ⟨early,here⟩ := (throughout_snoc items i).mp all
    have before := merge_paths (tools_summed items) (ih single.init early) i
    have summed := (tools_summed items).merge i
    intro t inside
    rw [List.foldl_append,List.foldl_cons,List.foldl_nil,step] at inside
    cases below : i.path with
    | none =>
      rw [below] at inside
      rw [pathOf_bare items below]
      exact before t inside
    | some p =>
      rw [below] at inside
      obtain ⟨front,last,whole,named⟩ : ∃ front last, mergeRow i.row (items.foldl step []) = front ++ [last] ∧ last.name = i.row.name := by
        have newest := here (by rw [below]; rfl)
        rw [← summed.names_eq,List.getLast?_map] at newest
        obtain ⟨last,found,named⟩ := Option.map_eq_some_iff.mp newest
        obtain ⟨front,whole⟩ := List.getLast?_eq_some_iff.mp found
        exact ⟨front,last,whole,named⟩
      obtain ⟨none,given⟩ := pathOf_new single below
      have unset : last.path = Option.none := by
        rw [before last (by rw [whole]; simp),named,none]
      change t ∈ attachPath p.text (mergeRow i.row (items.foldl step [])) at inside
      rw [whole,attach_path p front last unset] at inside
      rcases List.mem_append.mp inside with early | final
      · have apart : i.row.name ≠ t.name := by
          have nodup := summed.nodup
          rw [whole,List.map_append] at nodup
          exact fun same => (List.nodup_append.mp nodup).2.2 t.name (List.mem_map_of_mem early) last.name (by simp) (named.trans same).symm
        rw [pathOf_other items apart]
        exact before t (by rw [whole]; exact List.mem_append_left _ early)
      · rw [List.mem_singleton.mp final]
        change some p.path = pathOf (items ++ [i]) last.name
        rw [named,given]

-- An entry that is not the last one keeps what it has.
theorem attach_still (line : Text) {tools : List ToolInfo} (inside : t ∈ tools) (other : (tools.map ToolInfo.name).getLast? ≠ some t.name) :
    t ∈ attachPath line tools := by
  rcases List.eq_nil_or_concat' tools with rfl | ⟨front,last,rfl⟩
  · cases inside
  · obtain ⟨path,same⟩ := attach_snoc line front last
    rw [same]
    rcases List.mem_append.mp inside with early | here
    · exact List.mem_append_left _ early
    · rw [List.mem_singleton.mp here] at other
      exact absurd (by simp) other

-- A tool whose path has gone to another one: it is not the last, and stays without.
structure Bereft (items : List Item) (tools : List ToolInfo) (t : ToolInfo) : Prop where
  listed : t ∈ tools
  unset : t.path = none
  passed : (names items).getLast? ≠ some t.name
  reported : (pathOf items t.name).isSome = true

theorem names_snoc (items : List Item) (i : Item) : names (items ++ [i]) = distinct (items.map (·.row.name) ++ [i.row.name]) := by
  unfold names
  rw [List.map_append]
  rfl

theorem names_seen (seen : i.row.name ∈ names items) : names (items ++ [i]) = names items := by
  rw [names_snoc,distinct_seen seen]
  rfl

theorem names_fresh (fresh : i.row.name ∉ names items) : names (items ++ [i]) = names items ++ [i.row.name] := by
  rw [names_snoc,distinct_fresh fresh]
  rfl

theorem step_still (i : Item) (summed : Summed items tools) (inside : t ∈ mergeRow i.row tools) (passed : (names (items ++ [i])).getLast? ≠ some t.name) :
    t ∈ step tools i := by
  unfold step
  cases i.path with
  | none => exact inside
  | some p =>
    refine attach_still p.text inside ?_
    rwa [(summed.merge i).names_eq]

theorem Bereft.step (bereft : Bereft items tools t) (summed : Summed items tools) (i : Item) : ∃ u, Bereft (items ++ [i]) (step tools i) u := by
  have known : t.name ∈ names items := by
    rw [← summed.names_eq]
    exact List.mem_map_of_mem bereft.listed
  have passed : (names (items ++ [i])).getLast? ≠ some t.name := by
    by_cases seen : i.row.name ∈ names items
    · rw [names_seen seen]
      exact bereft.passed
    · rw [names_fresh seen,List.getLast?_append]
      intro same
      have named : i.row.name = t.name := Option.some.inj same
      exact seen (named ▸ known)
  have still : t ∈ mergeRow i.row tools ∨ i.row.merge t ∈ mergeRow i.row tools := upsert_still summed.nodup i.row bereft.listed
  rcases still with same | changed
  · exact ⟨t,step_still i summed same passed,bereft.unset,passed,pathOf_known bereft.reported i⟩
  · exact ⟨i.row.merge t,step_still i summed changed passed,bereft.unset,passed,pathOf_known bereft.reported i⟩

-- By induction from the end: the first path that is misplaced leaves its tool bereft.
theorem paths_wrong (single : Single items) (bad : ¬ Throughout placed items) : ∃ t, Bereft items (items.foldl step []) t := by
  induction items using List.reverseRecOn with
  | nil => exact absurd (fun front i back cut => absurd cut (by simp)) bad
  | append_singleton items i ih =>
    rw [List.foldl_append,List.foldl_cons,List.foldl_nil]
    have summed := tools_summed items
    by_cases all : Throughout placed items
    · obtain ⟨given,passed⟩ : i.path.isSome = true ∧ (names (items ++ [i])).getLast? ≠ some i.row.name :=
        Classical.not_imp.mp fun here => bad ((throughout_snoc items i).mpr ⟨all,here⟩)
      obtain ⟨p,below⟩ := Option.isSome_iff_exists.mp given
      obtain ⟨none,set⟩ := pathOf_new single below
      have known : i.row.name ∈ names items := by
        by_contra fresh
        rw [names_fresh fresh,List.getLast?_append] at passed
        exact passed rfl
      obtain ⟨t,inside,named⟩ : ∃ t ∈ mergeRow i.row (items.foldl step []), t.name = i.row.name := by
        have merged := (summed.merge i).names_eq
        rw [names_seen known] at merged
        exact List.mem_map.mp (merged ▸ known)
      have unset : t.path = Option.none := by
        rw [merge_paths summed (paths_right single.init all) i t inside,named,none]
      exact ⟨t,step_still i summed inside (named ▸ passed),unset,named ▸ passed,by rw [named,set]; rfl⟩
    · obtain ⟨t,bereft⟩ := ih single.init all
      exact bereft.step summed i

theorem said_append (front back : List Row) : said (front ++ back) = said front ++ said back := by
  unfold said
  rw [List.map_append,List.filter_append]

def fold (later : List Row) (entry : ToolInfo) : ToolInfo := later.foldl (fun entry row => row.merge entry) entry

-- What a run of rows does to an entry, field by field.
theorem fold_fixed (later : List Row) (entry : ToolInfo) :
    (fold later entry).name = entry.name ∧ (fold later entry).path = entry.path ∧ (fold later entry).required = entry.required := by
  induction later generalizing entry with
  | nil => exact ⟨rfl,rfl,rfl⟩
  | cons row later ih => exact ih (row.merge entry)

theorem fold_checks (later : List Row) (entry : ToolInfo) : (fold later entry).checks = entry.checks ++ said later := by
  induction later generalizing entry with
  | nil => exact (List.append_nil _).symm
  | cons row later ih =>
    have next : (fold (row :: later) entry).checks = (row.merge entry).checks ++ said later := ih (row.merge entry)
    rw [next]
    by_cases empty : row.value = []
    · simp [Row.merge,said,empty]
    · simp [Row.merge,said,empty]

theorem known_ok (known : status ∈ statusMarkers) : (!refused status && status ≠ missing) = decide (status = ok) := by
  have all : statusMarkers.all (fun s => (!refused s && decide (s ≠ missing)) == decide (s = ok)) = true := by decide
  exact eq_of_beq (List.all_eq_true.mp all status known)

theorem fold_available (known : ∀ row ∈ later, row.status ∈ statusMarkers) (entry : ToolInfo) :
    (fold later entry).available = (entry.available && later.all (·.status = ok)) := by
  induction later generalizing entry with
  | nil => exact (Bool.and_true _).symm
  | cons row later ih =>
    obtain ⟨here,rest⟩ := List.forall_mem_cons.mp known
    have next : (fold (row :: later) entry).available = ((row.merge entry).available && later.all (·.status = ok)) := ih rest (row.merge entry)
    rw [next,List.all_cons,← known_ok here]
    simp [Row.merge,Bool.and_assoc]

theorem fold_quiet (calm : ∀ row ∈ later, row.isCheck = true) (entry : ToolInfo) :
    (fold later entry).status = entry.status ∧ (fold later entry).version = entry.version := by
  induction later generalizing entry with
  | nil => exact ⟨rfl,rfl⟩
  | cons row later ih =>
    obtain ⟨here,rest⟩ := List.forall_mem_cons.mp calm
    obtain ⟨status,version⟩ := ih rest (row.merge entry)
    have same : (row.merge entry).status = entry.status ∧ (row.merge entry).version = entry.version := by simp [Row.merge,here]
    exact ⟨status.trans same.1,version.trans same.2⟩

-- The rows of one tool: each has its name, and a status that is known.
structure Alike (name : Text) (rows : List Row) : Prop where
  named : ∀ row ∈ rows, row.name = name
  known : ∀ row ∈ rows, row.status ∈ statusMarkers

def reported (name : Text) (row : Row) (front back : List Row) : ToolInfo where
  name := name
  status := row.status
  version := if row.status = missing || row.value = [] then none else some row.value
  path := none
  available := (front ++ row :: back).all (·.status = ok)
  required := true
  checks := said (front ++ back)

theorem summary_first (alike : Alike name (row :: back)) (report : row.isCheck = false) (calm : ∀ x ∈ back, x.isCheck = true) :
    summary Row.create Row.merge (row :: back) = some (reported name row [] back) := by
  obtain ⟨status,version⟩ := fold_quiet calm row.create
  obtain ⟨named,path,required⟩ := fold_fixed back row.create
  have available := fold_available (List.forall_mem_cons.mp alike.known).2 row.create
  have checks := fold_checks back row.create
  change some (fold back row.create) = _
  congr 1
  ext1
  · rw [named]
    exact alike.named row List.mem_cons_self
  · exact status
  · rw [version]
    simp [Row.create,reported,report]
  · exact path
  · exact available
  · exact required
  · rw [checks]
    simp [Row.create,reported,report]

theorem said_cons (row : Row) (rows : List Row) : said (row :: rows) = if row.value = [] then said rows else row.value :: said rows := by
  by_cases empty : row.value = []
  · simp [said,empty]
  · simp [said,empty]

-- A report behind a verification puts what it says among the verifications.
theorem summary_later (alike : Alike name (first :: front ++ row :: back)) (check : first.isCheck = true) (report : row.isCheck = false)
    (quiet : ∀ x ∈ front, x.isCheck = true) (calm : ∀ x ∈ back, x.isCheck = true) :
    summary Row.create Row.merge (first :: front ++ row :: back) = some (reported name row (first :: front) back) ↔ row.value = [] := by
  have whole : fold (front ++ row :: back) first.create = fold back (row.merge (fold front first.create)) := by
    unfold fold
    rw [List.foldl_append,List.foldl_cons]
  obtain ⟨_,unset⟩ := fold_quiet quiet first.create
  obtain ⟨status,version⟩ := fold_quiet calm (row.merge (fold front first.create))
  obtain ⟨named,path,required⟩ := fold_fixed (front ++ row :: back) first.create
  have available := fold_available (List.forall_mem_cons.mp alike.known).2 first.create
  have checks : (fold (front ++ row :: back) first.create).checks = said (first :: front ++ row :: back) := by
    rw [fold_checks,List.cons_append,said_cons]
    by_cases empty : first.value = []
    · simp [Row.create,check,empty]
    · simp [Row.create,check,empty]
  change some (fold (front ++ row :: back) first.create) = _ ↔ _
  rw [Option.some_inj]
  constructor
  · intro same
    have listed := checks.symm.trans (congrArg ToolInfo.checks same)
    change said (first :: front ++ row :: back) = said (first :: front ++ back) at listed
    rw [said_append,said_append,List.append_cancel_left_eq,said_cons] at listed
    by_contra some
    rw [if_neg some] at listed
    exact List.cons_ne_self _ _ listed
  · intro empty
    ext1
    · rw [named]
      exact alike.named first List.mem_cons_self
    · rw [whole,status]
      simp [Row.merge,reported,report]
    · rw [whole,version]
      simp only [Row.merge,unset]
      simp [Row.create,reported,report,check,empty]
    · exact path
    · exact available
    · exact required
    · rw [checks,said_append,said_cons row back,if_pos empty,← said_append]
      rfl

theorem summary_report (alike : Alike name (front ++ row :: back)) (report : row.isCheck = false) (quiet : ∀ x ∈ front, x.isCheck = true)
    (calm : ∀ x ∈ back, x.isCheck = true) :
    summary Row.create Row.merge (front ++ row :: back) = some (reported name row front back) ↔ front = [] ∨ row.value = [] := by
  cases front with
  | nil => exact ⟨fun _ => .inl rfl,fun _ => summary_first alike report calm⟩
  | cons first front =>
    obtain ⟨check,quiet⟩ := List.forall_mem_cons.mp quiet
    rw [summary_later alike check report quiet calm]
    simp

theorem summary_checks (alike : Alike name (first :: later)) (calm : ∀ x ∈ first :: later, x.isCheck = true) :
    summary Row.create Row.merge (first :: later) =
      some ⟨name,first.status,none,none,(first :: later).all (·.status = ok),true,said (first :: later)⟩ := by
  obtain ⟨check,quiet⟩ := List.forall_mem_cons.mp calm
  obtain ⟨status,version⟩ := fold_quiet quiet first.create
  obtain ⟨named,path,required⟩ := fold_fixed later first.create
  have available := fold_available (List.forall_mem_cons.mp alike.known).2 first.create
  change some (fold later first.create) = _
  congr 1
  ext1
  · rw [named]
    exact alike.named first List.mem_cons_self
  · exact status
  · rw [version]
    simp [Row.create,check]
  · exact path
  · exact available
  · exact required
  · rw [fold_checks,said_cons]
    by_cases empty : first.value = []
    · simp [Row.create,check,empty]
    · simp [Row.create,check,empty]

theorem split_listed (reads : splitToolLine line = some (name,status,value)) : status ∈ statusMarkers := by
  obtain ⟨before,after,found⟩ := split_status reads
  obtain ⟨marker,listed,cut⟩ := List.exists_of_findSome?_eq_some found
  obtain ⟨_,_,same⟩ := Option.map_eq_some_iff.mp cut
  cases same
  exact listed

theorem own_alike (items : List Item) (name : Text) : Alike name ((own items name).map (·.row)) := by
  constructor
  · intro row inside
    obtain ⟨i,member,rfl⟩ := List.mem_map.mp inside
    exact of_decide_eq_true (List.mem_filter.mp member).2
  · intro row inside
    obtain ⟨i,_,rfl⟩ := List.mem_map.mp inside
    exact split_listed i.reads

theorem own_append (front back : List Item) (name : Text) : own (front ++ back) name = own front name ++ own back name := List.filter_append front back

theorem own_cons (i : Item) (back : List Item) : own (i :: back) i.row.name = i :: own back i.row.name := List.filter_cons_of_pos (by simp)

theorem reportOf_own (items : List Item) (name : Text) : reportOf items name = (own items name).find? fun i => !i.row.isCheck := by
  unfold reportOf own
  rw [List.find?_filter]
  congr 1
  funext i
  rw [Bool.decide_and,Bool.decide_eq_true,Bool.decide_eq_true]

theorem reportOf_some (found : reportOf items name = some i) : i ∈ items ∧ i.row.name = name ∧ i.row.isCheck = false := by
  unfold reportOf at found
  have kept := List.find?_some found
  exact ⟨List.mem_of_find?_eq_some found,by simpa using kept⟩

-- All other rows of a tool that is reported are verifications.
theorem Single.alone (single : Single (front ++ i :: back)) (report : i.row.isCheck = false) :
    (∀ j ∈ own front i.row.name, j.row.isCheck = true) ∧ ∀ j ∈ own back i.row.name, j.row.isCheck = true := by
  unfold Single at single
  rw [List.filter_append,List.filter_cons_of_pos (by rw [report]; rfl),List.map_append,List.map_cons] at single
  obtain ⟨_,behind,apart⟩ := List.nodup_append.mp single
  have listed : ∀ (js : List Item), ∀ j ∈ own js i.row.name, j.row.isCheck = false →
      i.row.name ∈ (js.filter fun i => !i.row.isCheck).map (·.row.name) := fun js j inside other => by
    obtain ⟨member,same⟩ := List.mem_filter.mp inside
    rw [← of_decide_eq_true same]
    exact List.mem_map_of_mem (List.mem_filter.mpr ⟨member,by rw [other]; rfl⟩)
  constructor
  · intro j inside
    by_contra other
    exact apart _ (listed front j inside (Bool.eq_false_iff.mpr other)) _ List.mem_cons_self rfl
  · intro j inside
    by_contra other
    exact (List.nodup_cons.mp behind).1 (listed back j inside (Bool.eq_false_iff.mpr other))

theorem rows_checked {js : List Item} (all : ∀ j ∈ js, j.row.isCheck = true) : ∀ row ∈ js.map (·.row), row.isCheck = true := by
  intro row inside
  obtain ⟨j,member,rfl⟩ := List.mem_map.mp inside
  exact all j member

theorem summary_at (single : Single (front ++ i :: back)) (report : i.row.isCheck = false) :
    summary Row.create Row.merge ((own (front ++ i :: back) i.row.name).map (·.row)) = some (bare (entryOf (front ++ i :: back) i.row.name)) ↔
      (i.row.name ∈ front.map (·.row.name) → i.row.value = []) := by
  obtain ⟨quiet,calm⟩ := single.alone report
  have alike := own_alike (front ++ i :: back) i.row.name
  have cut : own (front ++ i :: back) i.row.name = own front i.row.name ++ i :: own back i.row.name := by rw [own_append,own_cons]
  have found : reportOf (front ++ i :: back) i.row.name = some i := by
    rw [reportOf_own,cut,List.find?_append,List.find?_eq_none.mpr fun j inside => by rw [quiet j inside]; decide,Option.none_or]
    exact List.find?_cons_of_pos (by rw [report]; rfl)
  have entry : bare (entryOf (front ++ i :: back) i.row.name) =
      reported i.row.name i.row ((own front i.row.name).map (·.row)) ((own back i.row.name).map (·.row)) := by
    unfold entryOf bare
    rw [found,cut]
    ext1
    · rfl
    · rfl
    · rfl
    · rfl
    · simp [reported,List.all_append,List.all_map,Function.comp_def]
    · rfl
    · change said (((own front i.row.name ++ i :: own back i.row.name).map (·.row)).filter Row.isCheck) = said _
      rw [List.map_append,List.map_cons,List.filter_append,List.filter_cons_of_neg (by rw [report]; decide),
        List.filter_eq_self.mpr (rows_checked quiet),List.filter_eq_self.mpr (rows_checked calm)]
  have some : (own front i.row.name).map (·.row) = [] ↔ i.row.name ∉ front.map (·.row.name) := by
    rw [List.map_eq_nil_iff,own,List.filter_eq_nil_iff,List.mem_map]
    exact ⟨fun none ⟨j,member,same⟩ => none j member (by simp [same]),fun none j member same => none ⟨j,member,of_decide_eq_true same⟩⟩
  rw [entry,cut,List.map_append,List.map_cons,summary_report (by rw [cut,List.map_append] at alike; exact alike) report
    (rows_checked quiet) (rows_checked calm),some,imp_iff_not_or]

theorem summary_unreported (seen : name ∈ names items) (none : reportOf items name = none) :
    summary Row.create Row.merge ((own items name).map (·.row)) = some (bare (entryOf items name)) := by
  have calm : ∀ j ∈ own items name, j.row.isCheck = true := by
    rw [reportOf_own] at none
    intro j inside
    simpa using List.find?_eq_none.mp none j inside
  have alike := own_alike items name
  have kept : ((own items name).map (·.row)).filter Row.isCheck = (own items name).map (·.row) := List.filter_eq_self.mpr (rows_checked calm)
  cases whole : own items name with
  | nil =>
    obtain ⟨i,member,same⟩ := List.mem_map.mp ((mem_distinct _ _).mp seen)
    have inside : i ∈ own items name := List.mem_filter.mpr ⟨member,decide_eq_true same⟩
    rw [whole] at inside
    cases inside
  | cons first later =>
    rw [whole] at calm alike kept
    rw [List.map_cons,summary_checks alike (rows_checked calm)]
    unfold entryOf bare
    rw [none,whole,kept]
    congr 1
    ext1
    · rfl
    · rfl
    · rfl
    · rfl
    · simp [List.all_map,Function.comp_def]
    · rfl
    · rfl

theorem rows_own (items : List Item) (name : Text) : (items.map (·.row)).filter (·.name = name) = (own items name).map (·.row) := List.filter_map

theorem tool_seen (summed : Summed items tools) (inside : t ∈ tools) : t.name ∈ names items := by
  rw [← summed.names_eq]
  exact List.mem_map_of_mem inside

-- Where the reports are in order an entry is its tool's, but for the path.
theorem facts_right (single : Single items) (ordered : InOrder items) (inside : t ∈ items.foldl step []) : bare t = bare (entryOf items t.name) := by
  have summed := tools_summed items
  have made := summed.facts t inside
  rw [rows_own] at made
  cases found : reportOf items t.name with
  | none => exact Option.some.inj (made.symm.trans (summary_unreported (tool_seen summed inside) found))
  | some i =>
    obtain ⟨member,named,quiet⟩ := reportOf_some found
    obtain ⟨front,back,rfl⟩ := List.append_of_mem member
    have same := (summary_at single quiet).mpr (ordered.facts front i back rfl quiet)
    rw [named] at same
    exact Option.some.inj (made.symm.trans same)

theorem parse_iff (single : Single items) : parseDoctorOutput (listing items) = (names items).map (entryOf items) ↔ InOrder items := by
  have summed := tools_summed items
  rw [parse_listing]
  constructor
  · intro same
    have each : ∀ t ∈ items.foldl step [], t = entryOf items t.name := by
      rw [same]
      rintro t inside
      obtain ⟨name,_,rfl⟩ := List.mem_map.mp inside
      rfl
    refine ⟨fun front i back cut report known => ?_,?_⟩
    · subst cut
      refine (summary_at single report).mp ?_ known
      have listed : i.row.name ∈ names (front ++ i :: back) := (mem_distinct _ _).mpr (List.mem_map_of_mem (List.mem_append_right _ List.mem_cons_self))
      have inside : entryOf (front ++ i :: back) i.row.name ∈ (front ++ i :: back).foldl step [] := by
        rw [same]
        exact List.mem_map_of_mem listed
      rw [← rows_own]
      exact summed.facts _ inside
    · by_contra bad
      obtain ⟨t,inside,unset,_,given⟩ := paths_wrong single bad
      rw [each t inside] at unset
      change pathOf items t.name = none at unset
      rw [unset] at given
      cases given
  · intro ordered
    have each : ∀ t ∈ items.foldl step [], t = entryOf items t.name := by
      intro t inside
      have path := paths_right single ordered.paths t inside
      have facts := facts_right single ordered inside
      calc t = { bare t with path := t.path } := rfl
        _ = { bare (entryOf items t.name) with path := pathOf items t.name } := by rw [facts,path]
        _ = entryOf items t.name := rfl
    rw [← summed.names_eq,List.map_map]
    conv => lhs; rw [← List.map_id (items.foldl step [])]
    exact List.map_congr_left each

def clangdCheck : Item where
  row := ⟨"clangd".toList,ok,"major=16".toList⟩
  line := spaced 16 8 "clangd".toList ok "major=16".toList
  path := none
  single := by decide
  flush := fun c first => by cases first; decide
  reads := by decide +kernel
  reported := fun _ => rfl

def bearReport : Item where
  row := ⟨"bear".toList,ok,"3.1".toList⟩
  line := spaced 18 8 "bear".toList ok "3.1".toList
  path := some ⟨33,"/bin/bear".toList,by decide,by decide,by decide,fun c first => by cases first; decide⟩
  single := by decide
  flush := fun c first => by cases first; decide
  reads := by decide +kernel
  reported := fun check => by revert check; decide

def clangdReport : Item where
  row := ⟨"clangd".toList,ok,"16.0".toList⟩
  line := spaced 16 8 "clangd".toList ok "16.0".toList
  path := some ⟨33,"/bin/clangd".toList,by decide,by decide,by decide,fun c first => by cases first; decide⟩
  single := by decide
  flush := fun c first => by cases first; decide
  reads := by decide +kernel
  reported := fun check => by revert check; decide

theorem parse_bear : parseDoctorOutput (listing [bearReport]) = (names [bearReport]).map (entryOf [bearReport]) := by
  have alone : ∀ front i back, [bearReport] = front ++ i :: back → front = [] ∧ i = bearReport := by
    intro front i back cut
    cases front with
    | nil => exact ⟨rfl,(List.cons.inj cut).1.symm⟩
    | cons j front => exact absurd (List.cons.inj cut).2 (by simp)
  refine (parse_iff (by unfold Single; decide +kernel)).mpr ⟨fun front i back cut _ known => ?_,fun front i back cut _ => ?_⟩
  · obtain ⟨rfl,rfl⟩ := alone front i back cut
    cases known
  · obtain ⟨rfl,rfl⟩ := alone front i back cut
    decide +kernel

-- The report of a tool that has been verified, behind another tool's: its path is
-- lost, and its version listed among its verifications.
theorem report_behind : Single [clangdCheck,bearReport,clangdReport] ∧
    parseDoctorOutput (listing [clangdCheck,bearReport,clangdReport]) ≠
      (names [clangdCheck,bearReport,clangdReport]).map (entryOf [clangdCheck,bearReport,clangdReport]) := by
  constructor
  · unfold Single
    decide +kernel
  · decide +kernel

end PrincessIDE.Doctor
