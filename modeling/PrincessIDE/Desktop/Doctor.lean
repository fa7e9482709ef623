import PrincessIDE.Foundation.Columns
import PrincessIDE.Foundation.Delimited
import PrincessIDE.Foundation.Distinct
import PrincessIDE.Foundation.Trim

namespace PrincessIDE.Doctor
open Utf8 (Text)
open Str

def statusMarkers : List Text := ["WRONG VER".toList,"TOO OLD".toList,"NO DAP".toList,"MISSING".toList,"ok".toList]

-- Blank in front of a marker, and blank, a bracket or nothing behind it.
def asColumn (before after : Text) : Bool :=
  before.getLast?.any isAsciiWhitespace && after.head?.all fun c => isAsciiWhitespace c || c = '('

-- The first marker of the list that the row has at all decides.
def splitToolLine (line : Text) : Option (Text × Text × Text) :=
  match statusMarkers.findSome? fun marker => (firstPlace asColumn marker line).map fun cut => (cut.1,marker,cut.2) with
  | none => none
  | some (before,marker,after) =>
    let name := trim before
    if name = [] ∨ ':' ∈ name then none else some (name,marker,trim after)

-- A row with any number of blanks behind its first two texts.
def spaced (gap pad : Nat) (name status value : Text) : Text :=
  name ++ ' ' :: (List.replicate gap ' ' ++ (status ++ ' ' :: (List.replicate pad ' ' ++ value)))

def column (width : Nat) (t : Text) : Text := t ++ List.replicate (width - t.length) ' '

theorem blank_moved (n : Nat) (t : Text) : List.replicate n ' ' ++ ' ' :: t = ' ' :: (List.replicate n ' ' ++ t) := by
  rw [List.append_cons,← List.replicate_succ',List.replicate_succ,List.cons_append]

-- What doctor.sh prints is one: each of the two fills its column, or overflows it.
theorem printed_spaced (name status value : Text) :
    column 22 name ++ ' ' :: (column 10 status ++ ' ' :: value) = spaced (22 - name.length) (10 - status.length) name status value := by
  simp only [column,spaced,List.append_assoc,blank_moved]

theorem spaced_value (gap pad : Nat) (name status value : Text) : spaced gap pad name status value =
    (name ++ ' ' :: (List.replicate gap ' ' ++ (status ++ List.replicate pad ' '))) ++ ' ' :: value := by
  simp only [spaced,List.append_assoc,List.cons_append,blank_moved]

-- A marker that stands in a text as a word of its own.
def Marked (marker t : Text) : Prop := ∃ before after, Placed asColumn marker t before after

def listedBefore (status : Text) : List Text := statusMarkers.takeWhile (· ≠ status)

theorem markers_unbordered (listed : marker ∈ statusMarkers) : unbordered marker = true :=
  List.all_eq_true.mp (by decide : statusMarkers.all unbordered = true) marker listed

theorem markers_some (listed : marker ∈ statusMarkers) : marker ≠ [] := by
  have all : statusMarkers.all (!·.isEmpty) = true := by decide
  have here := List.all_eq_true.mp all marker listed
  intro empty
  rw [empty] at here
  cases here

theorem place_marker (listed : marker ∈ statusMarkers) (placed : Placed asColumn marker t before after) :
    ∃ b a, firstPlace asColumn marker t = some (b,a) ∧ Placed asColumn marker t b a ∧ b.length ≤ before.length :=
  firstPlace_least (markers_unbordered listed) (markers_some listed) placed

theorem unmarked (listed : marker ∈ statusMarkers) (none : firstPlace asColumn marker t = none) : ¬ Marked marker t := by
  rintro ⟨before,after,placed⟩
  obtain ⟨b,a,found,_⟩ := place_marker listed placed
  rw [none] at found
  cases found

-- The two words of a marker that has two.
def markerWords : List (Text × Text) := [("WRONG".toList,"VER".toList),("TOO".toList,"OLD".toList),("NO".toList,"DAP".toList)]

theorem marker_words (listed : u ++ ' ' :: v ∈ statusMarkers) : (u,v) ∈ markerWords := by
  have all : statusMarkers.all (fun m => (List.range m.length).all fun k => m[k]? ≠ some ' ' || markerWords.contains (m.take k,m.drop (k+1))) = true := by
    decide
  have here := List.all_eq_true.mp (List.all_eq_true.mp all _ listed) u.length (List.mem_range.mpr (by simp))
  simpa using here

def markerStarts : List Char := ['W','T','N','M','o']

def secondStarts : List Char := ['V','O','D']

theorem marker_head (listed : marker ∈ statusMarkers) (t : Text) : ∃ c, (marker ++ t).head? = some c ∧ c ∈ markerStarts := by
  have all : statusMarkers.all (fun m => m.head?.any fun c => markerStarts.contains c) = true := by decide
  have here := List.all_eq_true.mp all marker listed
  cases marker with
  | nil => cases here
  | cons c rest => exact ⟨c,rfl,List.contains_iff_mem.mp here⟩

-- No marker stands in another one, nor ends with the first word of one.
theorem marker_alone (listed : marker ∈ statusMarkers) (known : status ∈ statusMarkers) (whole : status = before ++ marker ++ after) :
    before = [] ∧ marker = status ∧ after = [] := by
  have all : statusMarkers.all (fun s => statusMarkers.all fun m => !contains m s || m = s) = true := by decide
  have here := List.all_eq_true.mp (List.all_eq_true.mp all status known) marker listed
  obtain ⟨gap,rest,found,_⟩ := splitOnce_least status before after whole
  rw [contains,found] at here
  have same : marker = status := by simpa using here
  have lengths := congrArg List.length whole
  rw [same,List.length_append,List.length_append] at lengths
  exact ⟨List.eq_nil_of_length_eq_zero (by omega),same,List.eq_nil_of_length_eq_zero (by omega)⟩

theorem marker_ending (known : before ++ u ∈ statusMarkers) (pair : (u,v) ∈ markerWords) : False := by
  have all : statusMarkers.all (fun s => markerWords.all fun pair => !startsWith pair.1.reverse s.reverse) = true := by decide
  have here := List.all_eq_true.mp (List.all_eq_true.mp all _ known) _ pair
  rw [List.reverse_append,startsWith,stripPrefix_append] at here
  cases here

-- A marker does not start with a blank.
theorem spaces_skipped (listed : marker ∈ statusMarkers) (n : Nat) (whole : List.replicate n ' ' ++ t = x ++ marker ++ a) :
    ∃ y, x = List.replicate n ' ' ++ y ∧ t = y ++ marker ++ a := by
  induction n generalizing x with
  | zero => exact ⟨x,rfl,whole⟩
  | succ n ih =>
    rw [List.replicate_succ,List.cons_append] at whole
    cases x with
    | nil =>
      obtain ⟨c,head,letter⟩ := marker_head listed a
      rw [List.nil_append] at whole
      rw [← whole] at head
      cases head
      exact absurd letter (by decide)
    | cons d x =>
      obtain ⟨rfl,later⟩ := List.cons.inj whole
      obtain ⟨y,rfl,rest⟩ := ih later
      exact ⟨y,rfl,rest⟩

theorem blanks_skipped (listed : marker ∈ statusMarkers) (n : Nat) (whole : ' ' :: (List.replicate n ' ' ++ t) = x ++ marker ++ a) :
    ∃ y, x = ' ' :: (List.replicate n ' ' ++ y) ∧ t = y ++ marker ++ a :=
  spaces_skipped listed (n+1) (t := t) whole

theorem asColumn_behind (front : Text) (counted : asColumn (front ++ w) a = true) : asColumn (' ' :: w) a = true := by
  unfold asColumn at counted ⊢
  obtain ⟨_,behind⟩ := Bool.and_eq_true_iff.mp counted
  cases w with
  | nil =>
    rw [behind]
    rfl
  | cons c w => rwa [List.getLast?_append_of_ne_nil _ (List.cons_ne_nil c w)] at counted

theorem asColumn_cut (counted : asColumn b (more ++ ' ' :: t) = true) : asColumn b more = true := by
  unfold asColumn at counted ⊢
  obtain ⟨front,behind⟩ := Bool.and_eq_true_iff.mp counted
  rw [front]
  cases more with
  | nil => rfl
  | cons c more => exact behind

-- Where a marker can stand in a row: it is the status, or it stands in the value.
theorem row_places (listed : marker ∈ statusMarkers) (known : status ∈ statusMarkers) (free : ¬ Marked marker name)
    (placed : Placed asColumn marker (spaced gap pad name status value) b a) :
    (marker = status ∧ b = name ++ ' ' :: List.replicate gap ' ' ∧ a = ' ' :: (List.replicate pad ' ' ++ value)) ∨
      name.length + gap + 1 < b.length ∧ Marked marker (' ' :: value) := by
  obtain ⟨whole,counted⟩ := placed
  rcases place_cases whole with ⟨more,cut,rfl⟩ | ⟨x,rfl,later⟩ | ⟨u,v,_,_,rfl,later⟩
  · exact absurd ⟨b,more,cut,asColumn_cut counted⟩ free
  · obtain ⟨y,rfl,rest⟩ := blanks_skipped listed gap later
    rcases place_cases rest with ⟨more,cut,rfl⟩ | ⟨z,rfl,last⟩ | ⟨u,v,_,rfl,rfl,_⟩
    · obtain ⟨rfl,same,rfl⟩ := marker_alone listed known cut
      exact .inl ⟨same,by rw [List.append_nil],rfl⟩
    · obtain ⟨w,rfl,value⟩ := blanks_skipped listed pad last
      refine .inr ⟨?_,' ' :: w,a,by rw [value]; rfl,?_⟩
      · simp only [List.length_append,List.length_cons,List.length_replicate]
        omega
      · refine asColumn_behind (name ++ ' ' :: (List.replicate gap ' ' ++ (status ++ ' ' :: List.replicate pad ' '))) ?_
        simpa using counted
    · exact (marker_ending known (marker_words listed)).elim
  · -- behind its blank the marker goes on, and the row with another blank or the status
    have goes : ((v ++ a).head?.any fun c => secondStarts.contains c) = true := by
      have all : markerWords.all (fun pair => pair.2.head?.any fun c => secondStarts.contains c) = true := by decide
      have here := List.all_eq_true.mp all _ (marker_words listed)
      cases v with
      | nil => cases here
      | cons c v => exact here
    rw [← later] at goes
    cases gap with
    | zero =>
      obtain ⟨c,head,letter⟩ := marker_head known (' ' :: (List.replicate pad ' ' ++ value))
      rw [List.replicate_zero,List.nil_append,head] at goes
      have all : markerStarts.all (fun c => !secondStarts.contains c) = true := by decide
      have off := List.all_eq_true.mp all c letter
      rw [Option.any_some] at goes
      rw [goes] at off
      cases off
    | succ gap => cases goes

-- A name of a tool: no colon, and no marker as a word of it.
structure ToolName (name : Text) : Prop where
  plain : ':' ∉ name
  unmarked : ∀ marker ∈ statusMarkers, ¬ Marked marker name

-- What a row has to be to be read back: nothing that trimming takes away, and in the
-- value none of the markers that are looked for before the status.
structure Readable (name status value : Text) : Prop where
  some : name ≠ []
  named : trim name = name
  trimmed : trim value = value
  alone : ∀ marker ∈ listedBefore status, ¬ Marked marker (' ' :: value)

theorem markers_split (known : status ∈ statusMarkers) : ∃ later, statusMarkers = listedBefore status ++ status :: later := by
  have cut := List.takeWhile_append_dropWhile (p := (· ≠ status)) (l := statusMarkers)
  cases rest : statusMarkers.dropWhile (· ≠ status) with
  | nil =>
    have off := List.dropWhile_eq_nil_iff.mp rest status known
    simp at off
  | cons first later =>
    have stop := List.head?_dropWhile_not (· ≠ status) statusMarkers
    rw [rest] at stop cut
    have same : first = status := by simpa using stop
    subst same
    exact ⟨later,cut.symm⟩

theorem listedBefore_listed (earlier : marker ∈ listedBefore status) : marker ∈ statusMarkers ∧ marker ≠ status :=
  ⟨(List.takeWhile_sublist _).mem earlier,by simpa using List.mem_takeWhile_imp earlier⟩

def candidate (line marker : Text) : Option (Text × Text × Text) := (firstPlace asColumn marker line).map fun cut => (cut.1,marker,cut.2)

theorem status_candidate (known : status ∈ statusMarkers) (named : ToolName name) (gap pad : Nat) (value : Text) :
    candidate (spaced gap pad name status value) status =
      some (name ++ ' ' :: List.replicate gap ' ',status,' ' :: (List.replicate pad ' ' ++ value)) := by
  have whole : Placed asColumn status (spaced gap pad name status value) (name ++ ' ' :: List.replicate gap ' ') (' ' :: (List.replicate pad ' ' ++ value)) := by
    refine ⟨by simp [spaced],?_⟩
    unfold asColumn
    rw [List.getLast?_append_of_ne_nil _ (List.cons_ne_nil _ _),← List.replicate_succ,List.getLast?_replicate,if_neg (Nat.succ_ne_zero gap)]
    rfl
  obtain ⟨b,a,found,placed,short⟩ := place_marker known whole
  unfold candidate
  rw [found]
  rcases row_places known known (named.unmarked status known) placed with ⟨_,rfl,rfl⟩ | ⟨long,_⟩
  · rfl
  · simp only [List.length_append,List.length_cons,List.length_replicate] at short
    omega

theorem other_candidate (known : status ∈ statusMarkers) (named : ToolName name) (earlier : marker ∈ listedBefore status) (gap pad : Nat) (value : Text) :
    candidate (spaced gap pad name status value) marker = none ↔ ¬ Marked marker (' ' :: value) := by
  obtain ⟨listed,other⟩ := listedBefore_listed earlier
  unfold candidate
  rw [Option.map_eq_none_iff]
  constructor
  · rintro none ⟨before,after,whole,counted⟩
    cases before with
    | nil => cases counted
    | cons d w =>
      obtain ⟨rfl,inside⟩ := List.cons.inj whole
      have placed : Placed asColumn marker (spaced gap pad name status value)
          ((name ++ ' ' :: (List.replicate gap ' ' ++ (status ++ List.replicate pad ' '))) ++ ' ' :: w) after := by
        refine ⟨by rw [spaced_value,inside]; simp,?_⟩
        unfold asColumn at counted ⊢
        rwa [List.getLast?_append_of_ne_nil _ (List.cons_ne_nil _ _)]
      obtain ⟨b,a,found,_⟩ := place_marker listed placed
      rw [none] at found
      cases found
  · intro free
    exact firstPlace_none fun before after placed => (row_places listed known (named.unmarked marker listed) placed).elim
      (fun same => other same.1) fun inside => free inside.2

-- Without another marker in front the row is cut at its status.
theorem split_alone (known : status ∈ statusMarkers) (named : ToolName name)
    (alone : ∀ marker ∈ listedBefore status, ¬ Marked marker (' ' :: value)) (gap pad : Nat) :
    splitToolLine (spaced gap pad name status value) = if trim name = [] then none else some (trim name,status,trim value) := by
  have first : statusMarkers.findSome? (candidate (spaced gap pad name status value)) =
      some (name ++ ' ' :: List.replicate gap ' ',status,' ' :: (List.replicate pad ' ' ++ value)) := by
    obtain ⟨later,split⟩ := markers_split known
    have none : (listedBefore status).findSome? (candidate (spaced gap pad name status value)) = none :=
      List.findSome?_eq_none_iff.mpr fun marker earlier => (other_candidate known named earlier gap pad value).mpr (alone marker earlier)
    rw [split,List.findSome?_append,none,List.findSome?_cons,status_candidate known named]
    rfl
  have blank : ∀ (n : Nat), ∀ c ∈ ' ' :: List.replicate n ' ', isWhitespace c = true := fun n c member =>
    (spaces_blank (n := n+1) member).1
  have front : trim (name ++ ' ' :: List.replicate gap ' ') = trim name := trim_append (blank gap) name
  have back : trim (' ' :: (List.replicate pad ' ' ++ value)) = trim value := trim_behind (blank pad) value
  have free : ':' ∉ trim name := by
    obtain ⟨blanks,tail,whole,_⟩ := trim_cut name
    intro inside
    exact named.plain (by rw [whole]; simp [inside])
  unfold splitToolLine
  change (match statusMarkers.findSome? (candidate (spaced gap pad name status value)) with | none => none | some (before,marker,after) => _) = _
  rw [first]
  dsimp only
  rw [front,back]
  simp [free]

theorem split_status (split : splitToolLine line = some (name,status,value)) :
    ∃ before after, statusMarkers.findSome? (candidate line) = some (before,status,after) := by
  unfold splitToolLine at split
  change (match statusMarkers.findSome? (candidate line) with | none => none | some (before,marker,after) => _) = _ at split
  cases found : statusMarkers.findSome? (candidate line) with
  | none =>
    rw [found] at split
    cases split
  | some cut =>
    obtain ⟨before,marker,after⟩ := cut
    rw [found] at split
    dsimp only at split
    split at split
    · cases split
    · cases split
      exact ⟨before,after,rfl⟩

theorem split_iff (gap pad : Nat) (named : ToolName name) (known : status ∈ statusMarkers) (value : Text) :
    splitToolLine (spaced gap pad name status value) = some (name,status,value) ↔ Readable name status value := by
  constructor
  · intro split
    have alone : ∀ marker ∈ listedBefore status, ¬ Marked marker (' ' :: value) := by
      intro marker earlier
      rw [← other_candidate known named earlier gap pad value]
      obtain ⟨before,after,found⟩ := split_status split
      obtain ⟨later,markers⟩ := markers_split known
      rw [markers,List.findSome?_append] at found
      cases early : (listedBefore status).findSome? (candidate (spaced gap pad name status value)) with
      | none => exact List.findSome?_eq_none_iff.mp early marker earlier
      | some cut =>
        rw [early] at found
        cases found
        obtain ⟨other,inside,cut⟩ := List.exists_of_findSome?_eq_some early
        obtain ⟨_,_,same⟩ := Option.map_eq_some_iff.mp cut
        cases same
        exact absurd rfl (listedBefore_listed inside).2
    rw [split_alone known named alone] at split
    split at split
    · cases split
    · next some =>
      obtain ⟨trimmed,_,bare⟩ : trim name = name ∧ status = status ∧ trim value = value := by simpa using split
      exact ⟨trimmed ▸ some,trimmed,bare,alone⟩
  · rintro ⟨some,trimmed,bare,alone⟩
    rw [split_alone known named alone,trimmed,bare,if_neg some]

theorem toolName_of (plain : ':' ∉ name) (none : statusMarkers.all (fun marker => firstPlace asColumn marker name = none) = true) : ToolName name :=
  ⟨plain,fun marker listed => unmarked listed (of_decide_eq_true (List.all_eq_true.mp none marker listed))⟩

theorem gcc_named : ToolName "gcc".toList := toolName_of (by decide) (by decide +kernel)

theorem split_gcc : splitToolLine (spaced 19 8 "gcc".toList "ok".toList "12.2.0".toList) = some ("gcc".toList,"ok".toList,"12.2.0".toList) := by
  refine (split_iff 19 8 gcc_named (by decide) _).mpr ⟨by decide,by decide,by decide,fun marker earlier => ?_⟩
  have all : (listedBefore "ok".toList).all (fun marker => firstPlace asColumn marker " 12.2.0".toList = none) = true := by decide +kernel
  exact unmarked (listedBefore_listed earlier).1 (of_decide_eq_true (List.all_eq_true.mp all marker earlier))

-- The version of a tool that is there names a later marker.
theorem value_taken : ToolName "gcc".toList ∧ "ok".toList ∈ statusMarkers ∧
    splitToolLine (spaced 19 8 "gcc".toList "ok".toList "12.2 MISSING docs".toList) ≠ some ("gcc".toList,"ok".toList,"12.2 MISSING docs".toList) :=
  ⟨gcc_named,by decide,by decide +kernel⟩

end PrincessIDE.Doctor
