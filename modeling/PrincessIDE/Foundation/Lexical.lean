import PrincessIDE.Foundation.Path

namespace PrincessIDE.Path
open Utf8 (Text)
open Str

-- What a path means without a look at the disk: whether it starts at the root,
-- how many `..` find no name before them to take off, and the names that are left.
structure Place where
  rooted : Bool
  climbs : Nat
  names : List Text
deriving DecidableEq, Repr

namespace Place

def start : Place := ⟨false,0,[]⟩

def step (place : Place) : Component → Place
  | .rootDir => ⟨true,0,[]⟩
  | .curDir => place
  | .parentDir => if place.names = [] then {place with climbs:=place.climbs+1} else {place with names:=place.names.dropLast}
  | .normal name => {place with names:=place.names++[name]}

-- There is nothing above the root.
def buf (place : Place) : Buf :=
  ⟨place.rooted,(if place.rooted then [] else List.replicate place.climbs "..".toList) ++ place.names⟩

end Place

def place (path : Text) : Place := (components path).foldl Place.step .start

def Buf.written (buf : Buf) : Text := if buf.text = [] then ".".toList else buf.text

-- The lexical normal form: every `..` above the start of a relative path stays.
def lexical (path : Text) : Text := (place path).buf.written

example : lexical "a/../../../b/./c".toList = "../../b/c".toList := by decide +kernel

def Ordinary (name : Text) : Prop := name ≠ [] ∧ name ≠ ".".toList ∧ name ≠ "..".toList ∧ '/' ∉ name

-- What a buffer can hold: names that a path is split into.
def Plain (name : Text) : Prop := name ≠ [] ∧ name ≠ ".".toList ∧ '/' ∉ name

theorem Ordinary.plain (ordinary : Ordinary name) : Plain name := ⟨ordinary.1,ordinary.2.1,ordinary.2.2.2⟩

theorem component_normal (found : component part = some (.normal name)) : part = name ∧ name ≠ [] ∧ name ≠ ".".toList ∧ name ≠ "..".toList := by
  rw [component] at found
  split at found
  · cases found
  · rename_i solid
    split at found
    · cases found
    · rename_i other
      cases found
      exact ⟨rfl,not_or.mp solid |>.1,not_or.mp solid |>.2,other⟩

theorem component_rootDir (part : Text) : component part ≠ some .rootDir := by
  rw [component]
  split
  · intro found; cases found
  · split <;> (intro found; cases found)

theorem component_plain (plain : Plain name) : component name = some (if name = "..".toList then .parentDir else .normal name) := by
  rw [component,if_neg (not_or.mpr ⟨plain.1,plain.2.1⟩)]
  split <;> rfl

-- Where the components of a path come from.
theorem components_body (path : Text) : ∃ head body, components path = head ++ body ∧ (head = [] ∨ head = [.curDir] ∨ head = [.rootDir]) ∧
    (head = [.rootDir] ↔ isAbsolute path = true) ∧ ∀ c ∈ body, c ≠ .rootDir ∧ ∀ name, c = .normal name → Ordinary name := by
  have inner : ∀ c ∈ (split "/".toList path).filterMap component, c ≠ .rootDir ∧ ∀ name, c = .normal name → Ordinary name := by
    intro c member
    obtain ⟨part,inside,found⟩ := List.mem_filterMap.mp member
    refine ⟨?_,?_⟩
    · rintro rfl
      exact component_rootDir part found
    · rintro name rfl
      obtain ⟨rfl,some,dot,dots⟩ := component_normal found
      exact ⟨some,dot,dots,split_plain inside⟩
  rw [components]
  by_cases absolute : isAbsolute path = true
  · exact ⟨[.rootDir],_,by rw [if_pos absolute]; rfl,.inr (.inr rfl),⟨fun _ => absolute,fun _ => rfl⟩,inner⟩
  · by_cases dot : (split "/".toList path).head? = some ".".toList
    · refine ⟨[.curDir],_,by rw [if_neg absolute,if_pos dot]; rfl,.inr (.inl rfl),⟨?_,fun here => absurd here absolute⟩,inner⟩
      intro same
      cases same
    · refine ⟨[],_,by rw [if_neg absolute,if_neg dot]; rfl,.inl rfl,⟨?_,fun here => absurd here absolute⟩,inner⟩
      intro same
      cases same

theorem step_rooted (other : c ≠ .rootDir) (place : Place) : (place.step c).rooted = place.rooted := by
  cases c with
  | rootDir => exact absurd rfl other
  | curDir | normal name => rfl
  | parentDir =>
    rw [Place.step]
    split <;> rfl

theorem steps_rooted {body : List Component} (other : ∀ c ∈ body, c ≠ .rootDir) (place : Place) : (body.foldl Place.step place).rooted = place.rooted := by
  induction body generalizing place with
  | nil => rfl
  | cons c body ih =>
    obtain ⟨first,later⟩ := List.forall_mem_cons.mp other
    rw [List.foldl_cons,ih later,step_rooted first]

theorem step_ordinary (named : ∀ name, c = .normal name → Ordinary name) {place : Place} (held : ∀ name ∈ place.names, Ordinary name) :
    ∀ name ∈ (place.step c).names, Ordinary name := by
  cases c with
  | rootDir => exact List.forall_mem_nil _
  | curDir => exact held
  | normal name => exact List.forall_mem_append.mpr ⟨held,List.forall_mem_singleton.mpr (named name rfl)⟩
  | parentDir =>
    rw [Place.step]
    split
    · exact held
    · exact fun name member => held name (List.dropLast_subset _ member)

theorem steps_ordinary {body : List Component} (named : ∀ c ∈ body, ∀ name, c = .normal name → Ordinary name) {place : Place}
    (held : ∀ name ∈ place.names, Ordinary name) : ∀ name ∈ (body.foldl Place.step place).names, Ordinary name := by
  induction body generalizing place with
  | nil => exact held
  | cons c body ih =>
    obtain ⟨first,later⟩ := List.forall_mem_cons.mp named
    exact ih later (step_ordinary first held)

theorem place_ordinary (path : Text) : ∀ name ∈ (place path).names, Ordinary name := by
  obtain ⟨head,body,split,shape,_,inner⟩ := components_body path
  refine steps_ordinary (fun c member name same => ?_) (List.forall_mem_nil _)
  rw [split] at member
  rcases List.mem_append.mp member with front | inside
  · rcases shape with rfl | rfl | rfl
    · cases front
    · rw [same] at front; cases List.mem_singleton.mp front
    · rw [same] at front; cases List.mem_singleton.mp front
  · exact (inner c inside).2 name same

theorem place_rooted (path : Text) : (place path).rooted = isAbsolute path := by
  obtain ⟨head,body,split,shape,root,inner⟩ := components_body path
  have rest := steps_rooted (fun c member => (inner c member).1)
  rw [place,split,List.foldl_append,rest]
  rcases shape with rfl | rfl | rfl
  · have relative : isAbsolute path ≠ true := fun absolute => List.cons_ne_nil _ _ (root.mpr absolute).symm
    exact (Bool.eq_false_iff.mpr relative).symm
  · have relative : isAbsolute path ≠ true := fun absolute => by cases root.mpr absolute
    exact (Bool.eq_false_iff.mpr relative).symm
  · exact (root.mp rfl).symm

-- Of the `..` that climb, every second one takes off the one before it.
def Place.paired (place : Place) : Buf := ⟨place.rooted,List.replicate (place.climbs % 2) "..".toList ++ place.names⟩

theorem step_paired (place : Place) (c : Component) : place.paired.pushComponent c = (place.step c).paired := by
  cases c with
  | rootDir | curDir => rfl
  | normal name => simp [Buf.pushComponent,Place.step,Place.paired]
  | parentDir =>
    rw [Buf.pushComponent,Place.step]
    by_cases none : place.names = []
    · rw [if_pos none]
      rcases Nat.mod_two_eq_zero_or_one place.climbs with even | odd
      · have next : (place.climbs+1) % 2 = 1 := by omega
        simp [Place.paired,even,next,none]
      · have next : (place.climbs+1) % 2 = 0 := by omega
        simp [Place.paired,odd,next,none]
    · have held : place.paired.names ≠ [] := List.append_ne_nil_of_right_ne_nil _ none
      rw [if_neg none,if_neg held]
      simp [Place.paired,List.dropLast_append_of_ne_nil none]

theorem steps_paired (body : List Component) (place : Place) :
    body.foldl Buf.pushComponent place.paired = (body.foldl Place.step place).paired := by
  induction body generalizing place with
  | nil => rfl
  | cons c body ih => rw [List.foldl_cons,step_paired,ih,List.foldl_cons]

def named (name : Text) : Component := if name = "..".toList then .parentDir else .normal name

theorem component_named (plain : Plain name) : component name = some (named name) := component_plain plain

theorem named_injective : Function.Injective named := by
  intro a b same
  unfold named at same
  split at same
  · split at same
    · exact ‹a = _›.trans ‹b = _›.symm
    · cases same
  · split at same
    · cases same
    · cases same; rfl

theorem split_intercalate {c : Char} {name : Text} {names : List Text} (plain : ∀ n ∈ name::names, c ∉ n) :
    split [c] ([c].intercalate (name::names)) = name::names := by
  induction names generalizing name with
  | nil => rw [List.intercalate_singleton,split_absent (plain name List.mem_cons_self) List.mem_cons_self]
  | cons next names ih =>
    obtain ⟨first,later⟩ := List.forall_mem_cons.mp plain
    rw [List.intercalate_cons_cons,List.append_assoc,List.singleton_append,split_char first,ih later]

theorem filterMap_named {names : List Text} (plain : ∀ name ∈ names, Plain name) : names.filterMap component = names.map named := by
  induction names with
  | nil => rfl
  | cons name names ih =>
    obtain ⟨first,later⟩ := List.forall_mem_cons.mp plain
    rw [List.filterMap_cons_some (component_named first),ih later,List.map_cons]

-- The components of a text that a buffer is written as are its names.
theorem components_written {buf : Buf} (plain : ∀ name ∈ buf.names, Plain name) : components buf.written =
    (if buf.rooted then [.rootDir] else if buf.names = [] then [.curDir] else []) ++ buf.names.map named := by
  obtain ⟨rooted,names⟩ := buf
  have slashes : ∀ name ∈ names, '/' ∉ name := fun name member => (plain name member).2.2
  have body := filterMap_named plain
  cases names with
  | nil => cases rooted <;> decide
  | cons name names =>
    obtain ⟨solid,undotted,slashless⟩ := plain name List.mem_cons_self
    obtain ⟨c,rest,rfl⟩ := List.exists_cons_of_ne_nil solid
    have parts := split_intercalate slashes
    have other : c ≠ '/' := fun same => slashless (same ▸ List.mem_cons_self)
    rw [List.intercalate_cons_cons_left] at parts
    cases rooted with
    | false =>
      have shape : (Buf.mk false ((c::rest)::names)).written = c :: ['/'].intercalate (rest::names) := by
        rw [Buf.written,Buf.text,List.intercalate_cons_cons_left]
        rfl
      have relative : isAbsolute (c :: ['/'].intercalate (rest::names)) ≠ true := by simpa [isAbsolute] using other
      have dotless : (split "/".toList (c :: ['/'].intercalate (rest::names))).head? ≠ some ".".toList := by
        rw [show "/".toList = ['/'] from rfl,parts]
        simpa using undotted
      rw [shape,components,if_neg relative,if_neg dotless,show "/".toList = ['/'] from rfl,parts]
      exact body
    | true =>
      have shape : (Buf.mk true ((c::rest)::names)).written = '/' :: c :: ['/'].intercalate (rest::names) := by
        rw [Buf.written,Buf.text,List.intercalate_cons_cons_left]
        rfl
      have cut : split ['/'] ('/' :: c :: ['/'].intercalate (rest::names)) = [] :: (c::rest)::names := by
        have bare : '/' ∉ ([] : Text) := List.not_mem_nil
        have behind := split_char bare (c :: ['/'].intercalate (rest::names))
        rw [parts] at behind
        exact behind
      rw [shape,components,if_pos rfl,show "/".toList = ['/'] from rfl,cut]
      exact congrArg (Component.rootDir :: ·) body

theorem written_absolute {buf : Buf} (plain : ∀ name ∈ buf.names, Plain name) : isAbsolute buf.written = buf.rooted := by
  obtain ⟨rooted,names⟩ := buf
  cases rooted with
  | true => rfl
  | false =>
    cases names with
    | nil => decide
    | cons name names =>
      obtain ⟨solid,_,slashless⟩ := plain name List.mem_cons_self
      obtain ⟨c,rest,rfl⟩ := List.exists_cons_of_ne_nil solid
      have other : c ≠ '/' := fun same => slashless (same ▸ List.mem_cons_self)
      have shape : (Buf.mk false ((c::rest)::names)).written = c :: ['/'].intercalate (rest::names) := by
        rw [Buf.written,Buf.text,List.intercalate_cons_cons_left]
        rfl
      rw [shape]
      simpa [isAbsolute] using other

theorem named_other (name : Text) : named name ≠ .curDir ∧ named name ≠ .rootDir := by
  unfold named
  split <;> simp

-- Two buffers are not written alike.
theorem written_injective {one other : Buf} (here : ∀ name ∈ one.names, Plain name) (there : ∀ name ∈ other.names, Plain name)
    (same : one.written = other.written) : one = other := by
  have parts := congrArg components same
  have roots := congrArg isAbsolute same
  rw [components_written here,components_written there] at parts
  rw [written_absolute here,written_absolute there] at roots
  obtain ⟨rooted,names⟩ := one
  obtain ⟨rooted',names'⟩ := other
  cases roots
  refine congrArg (Buf.mk rooted) (named_injective.list_map ?_)
  cases rooted with
  | true => exact (List.cons.inj parts).2
  | false =>
    cases names with
    | nil => cases names' with
      | nil => rfl
      | cons name names' => exact absurd (List.cons.inj parts).1.symm (named_other name).1
    | cons name names => cases names' with
      | nil => exact absurd (List.cons.inj parts).1 (named_other name).1
      | cons name' names' => exact parts

theorem dots_plain : Plain "..".toList := ⟨by decide,by decide,by decide⟩

theorem climbs_plain (n : Nat) {names : List Text} (ordinary : ∀ name ∈ names, Ordinary name) :
    ∀ name ∈ List.replicate n "..".toList ++ names, Plain name := by
  intro name member
  rcases List.mem_append.mp member with climb | inside
  · rw [(List.mem_replicate.mp climb).2]
    exact dots_plain
  · exact (ordinary name inside).plain

theorem paired_plain (path : Text) : ∀ name ∈ (place path).paired.names, Plain name := climbs_plain _ (place_ordinary path)

theorem buf_plain (path : Text) : ∀ name ∈ (place path).buf.names, Plain name := by
  rw [Place.buf]
  cases (place path).rooted with
  | true => exact fun name member => (place_ordinary path name member).plain
  | false => exact climbs_plain _ (place_ordinary path)

theorem normalize_paired (path : Text) : normalize path = (place path).paired.written :=
  congrArg Buf.written (steps_paired (components path) .start)

-- A relative path climbs at most once, and a rooted one meets `..` at the root
-- an even number of times.
def Steady (path : Text) : Prop := if isAbsolute path then (place path).climbs % 2 = 0 else (place path).climbs ≤ 1

theorem normalize_lexical (path : Text) : normalize path = lexical path ↔ Steady path := by
  have bufs : normalize path = lexical path ↔ (place path).paired = (place path).buf :=
    ⟨fun same => written_injective (paired_plain path) (buf_plain path) ((normalize_paired path).symm.trans same),
      fun same => (normalize_paired path).trans (congrArg Buf.written same)⟩
  rw [bufs,Place.paired,Place.buf,Steady,← place_rooted]
  cases (place path).rooted with
  | true => simp
  | false =>
    simp only [Buf.mk.injEq,true_and,List.append_cancel_right_eq,Bool.false_eq_true,if_false]
    rw [List.replicate_inj]
    simp only [or_true,and_true]
    omega

theorem steps_normal {names : List Text} (ordinary : ∀ name ∈ names, Ordinary name) (buf : Buf) :
    (names.map named).foldl Buf.pushComponent buf = {buf with names:=buf.names++names} := by
  induction names generalizing buf with
  | nil => simp
  | cons name names ih =>
    obtain ⟨first,later⟩ := List.forall_mem_cons.mp ordinary
    have normal : named name = .normal name := if_neg first.2.2.1
    rw [List.map_cons,List.foldl_cons,normal,ih later]
    simp [Buf.pushComponent]

theorem normalize_idempotent (path : Text) : normalize (normalize path) = normalize path := by
  have names : (place path).paired.names.map named =
      List.replicate ((place path).climbs % 2) Component.parentDir ++ (place path).names.map named := by
    rw [Place.paired,List.map_append,List.map_replicate]
    rfl
  have front : ∀ rooted : Bool, ∀ bare : Prop, ∀ _ : Decidable bare,
      (if rooted then [Component.rootDir] else if bare then [.curDir] else []).foldl Buf.pushComponent .new = ⟨rooted,[]⟩ := by
    intro rooted bare _
    cases rooted with
    | true => rfl
    | false =>
      rw [if_neg Bool.false_ne_true]
      split <;> rfl
  have climb : (List.replicate ((place path).climbs % 2) Component.parentDir).foldl Buf.pushComponent ⟨(place path).rooted,[]⟩ =
      ⟨(place path).rooted,List.replicate ((place path).climbs % 2) "..".toList⟩ := by
    rcases Nat.mod_two_eq_zero_or_one (place path).climbs with even | odd
    · rw [even]
      rfl
    · rw [odd]
      rfl
  have back : (components (place path).paired.written).foldl Buf.pushComponent .new = (place path).paired := by
    rw [components_written (paired_plain path),List.foldl_append,front,names,List.foldl_append]
    exact (congrArg (List.foldl _ · _) climb).trans (steps_normal (place_ordinary path) _)
  rw [normalize_paired path]
  exact congrArg Buf.written back

theorem normalize_absolute (path : Text) : isAbsolute (normalize path) = isAbsolute path := by
  rw [normalize_paired,written_absolute (paired_plain path)]
  exact place_rooted path

-- A rooted normal form has no dots in it if every `..` at the root went in a pair.
theorem normalize_undotted (absolute : isAbsolute path = true) :
    (∀ c ∈ components (normalize path), c ≠ .curDir ∧ c ≠ .parentDir) ↔ (place path).climbs % 2 = 0 := by
  have rooted : (place path).paired.rooted = true := (place_rooted path).trans absolute
  rw [normalize_paired,components_written (paired_plain path),rooted,if_pos rfl]
  rcases Nat.mod_two_eq_zero_or_one (place path).climbs with even | odd
  · refine iff_of_true (fun c member => ?_) even
    rcases List.mem_append.mp member with root | inside
    · rw [List.mem_singleton.mp root]
      exact ⟨by simp,by simp⟩
    · obtain ⟨name,held,rfl⟩ := List.mem_map.mp inside
      rw [Place.paired,even] at held
      have ordinary := place_ordinary path name held
      exact ⟨(named_other name).1,by rw [named,if_neg ordinary.2.2.1]; simp⟩
  · refine iff_of_false (fun clean => ?_) (by omega)
    have member : Component.parentDir ∈ [Component.rootDir] ++ (place path).paired.names.map named := by
      rw [Place.paired,odd]
      exact List.mem_append_right _ List.mem_cons_self
    exact (clean _ member).2 rfl

theorem components_snoc (absolute : isAbsolute path = true) (cut : path = above ++ '/' :: name) (ordinary : Ordinary name) :
    ∃ front, components path = front ++ [.normal name] := by
  have named : component name = some (.normal name) := by
    rw [component_plain ordinary.plain,if_neg ordinary.2.2.1]
  have whole : split "/".toList name = [name] := split_absent ordinary.2.2.2 List.mem_cons_self
  refine ⟨.rootDir :: (split "/".toList above).filterMap component,?_⟩
  change (if isAbsolute path then Component.rootDir :: (split "/".toList path).filterMap component else _) = _
  rw [if_pos absolute,cut]
  change Component.rootDir :: (split ['/'] (above ++ '/' :: name)).filterMap component = _
  rw [split_behind,List.filterMap_append]
  change _ :: (_ ++ (split "/".toList name).filterMap component) = _
  rw [whole,List.filterMap_cons,named]
  rfl

theorem text_snoc (rooted : Bool) (names : List Text) (name : Text) : ∃ front, (Buf.mk rooted (names ++ [name])).text = front ++ name := by
  have joined : ∃ front, ['/'].intercalate (names ++ [name]) = front ++ name := by
    induction names with
    | nil => exact ⟨[],by simp [List.intercalate]⟩
    | cons first names ih =>
      obtain ⟨front,same⟩ := ih
      cases names with
      | nil => exact ⟨first ++ ['/'],by simp [List.intercalate]⟩
      | cons second names =>
        refine ⟨first ++ ['/'] ++ front,?_⟩
        rw [List.append_assoc,← same]
        simp [List.intercalate]
  obtain ⟨front,same⟩ := joined
  exact ⟨_ ++ front,by rw [Buf.text,same,List.append_assoc]⟩

-- The last name of a rooted path stays the last one.
theorem normalize_last (absolute : isAbsolute path = true) (cut : path = above ++ '/' :: name) (ordinary : Ordinary name) :
    ∃ front, normalize path = front ++ name := by
  obtain ⟨front,parts⟩ := components_snoc absolute cut ordinary
  obtain ⟨head,same⟩ := text_snoc (front.foldl Buf.pushComponent .new).rooted (front.foldl Buf.pushComponent .new).names name
  refine ⟨head,?_⟩
  unfold normalize
  rw [parts,List.foldl_append]
  change (if (Buf.mk _ (_ ++ [name])).text = [] then _ else (Buf.mk _ (_ ++ [name])).text) = _
  rw [same,if_neg fun none => ordinary.1 (List.append_eq_nil_iff.mp none).2]

theorem isAbsolute_append (absolute : isAbsolute base = true) (rest : Text) : isAbsolute (base ++ rest) = true := by
  cases base with
  | nil => cases absolute
  | cons c base => exact absolute

theorem join_absolute (absolute : isAbsolute base = true) (path : Text) : isAbsolute (join base path) = true := by
  unfold join
  split
  · next rooted => exact rooted
  · split
    · exact isAbsolute_append absolute path
    · exact isAbsolute_append absolute ('/' :: path)

theorem join_relative (relative : isAbsolute path ≠ true) (base : Text) : ∃ front, join base path = front ++ path := by
  rw [join,if_neg relative]
  split
  · exact ⟨base,rfl⟩
  · exact ⟨base ++ ['/'],by rw [List.append_assoc,List.singleton_append]⟩

theorem last_name (absolute : isAbsolute path = true) : ∃ above name, path = above ++ '/' :: name ∧ '/' ∉ name := by
  have inside : '/' ∈ path.reverse := List.mem_reverse.mpr (List.mem_of_mem_head? (of_decide_eq_true absolute))
  obtain ⟨back,front,cut,plain⟩ := List.eq_append_cons_of_mem inside
  refine ⟨front.reverse,back.reverse,?_,fun later => plain (List.mem_reverse.mp later)⟩
  have turned := congrArg List.reverse cut
  rwa [List.reverse_reverse,List.reverse_append,List.reverse_cons,List.append_assoc] at turned

theorem suffix_name (within : '/' ∉ pat) (above name : Text) : pat <:+ above ++ '/' :: name ↔ pat <:+ name := by
  refine ⟨fun ends => ?_,fun ends => List.suffix_append_of_suffix (ends.trans (List.suffix_cons _ _))⟩
  rcases List.suffix_or_suffix_of_suffix ends (List.suffix_append above ('/' :: name)) with inner | outer
  · rcases List.suffix_cons_iff.mp inner with rfl | inner
    · exact absurd List.mem_cons_self within
    · exact inner
  · exact absurd (outer.subset List.mem_cons_self) within

theorem join_suffix (within : '/' ∉ pat) (filled : base ≠ []) (path : Text) : pat <:+ join base path ↔ pat <:+ path := by
  unfold join
  split
  · exact Iff.rfl
  · split
    · next ended =>
      obtain ⟨front,rfl⟩ := List.getLast?_eq_some_iff.mp (ended.resolve_left filled)
      rw [List.append_assoc]
      exact suffix_name within front path
    · exact suffix_name within base path

-- An ending without a slash that is more than dots is one of the last name.
theorem normalize_suffix (absolute : isAbsolute path = true) (within : '/' ∉ pat) (last : pat.getLast? = some c) (solid : c ≠ '.')
    (ends : pat <:+ path) : pat <:+ normalize path := by
  have filled : pat ≠ [] := by
    rintro rfl
    cases last
  obtain ⟨above,name,cut,plain⟩ := last_name absolute
  have short : pat <:+ name := (suffix_name within above name).mp (cut ▸ ends)
  obtain ⟨stem,rfl⟩ := short
  have final : (stem ++ pat).getLast? = some c := by rw [List.getLast?_append_of_ne_nil _ filled,last]
  have ordinary : Ordinary (stem ++ pat) := by
    refine ⟨fun none => filled (List.append_eq_nil_iff.mp none).2,?_,?_,plain⟩
    · intro dot
      rw [dot] at final
      exact solid (Option.some.inj final).symm
    · intro dots
      rw [dots] at final
      exact solid (Option.some.inj final).symm
  obtain ⟨front,same⟩ := normalize_last absolute cut ordinary
  exact ⟨front ++ stem,by rw [same,List.append_assoc]⟩

end PrincessIDE.Path
