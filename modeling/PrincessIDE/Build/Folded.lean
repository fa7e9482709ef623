import PrincessIDE.Build.Recipes
import PrincessIDE.Foundation.Distinct

namespace PrincessIDE.Diagnostics
open Utf8 (Text)
open Str Event

def firstLine (t : Text) : Text := t.takeWhile (· ≠ '\n')

-- What makes a problem: its severity, its place and the first line of its message.
def key (d : ParsedDiagnostic) : DiagnosticSeverity × Option Text × Option Nat × Option Nat × Text :=
  (d.severity,d.file,d.line,d.col,firstLine d.message)

def familyAt (p : DiagnosticParser) (lines : List Text) : ToolFamily :=
  hold (fun line => ToolFamily.fromRecipeLine (withoutEnd line)) p.family lines

-- The diagnostics that the lines of a text parse to, each by itself.
def lineDiagnostics (p : DiagnosticParser) : List Text → List ParsedDiagnostic
  | [] => []
  | line :: rest => ((parseLineFor (withoutEnd line) (p.turned line).family).bind p.finish).toList ++ lineDiagnostics (p.turned line) rest

-- A blank line, or one that belongs to the diagnostic before it.
def Continues (line : Text) : Prop :=
  trim (withoutEnd line) = [] ∨ parseLine (withoutEnd line) = none ∧ isContinuation (trim (withoutEnd line)) = true

def foldLine (raw : RawDiagnostic) (line : Text) : RawDiagnostic :=
  if trim (withoutEnd line) = [] then raw else DiagnosticParser.fold raw (trim (withoutEnd line))

-- The last diagnostic of a text, when only lines that belong to it follow, with those
-- folded into it.
def Folded (p : DiagnosticParser) (lines : List Text) (folded : RawDiagnostic) : Prop := ∃ before line tail raw,
  lines = before ++ line :: tail ∧ parseLineFor (withoutEnd line) (familyAt p (before ++ [line])) = some raw ∧
    (∀ l ∈ tail, Continues l) ∧ tail.foldl foldLine raw = folded

-- No two that differ beyond their keys.
def Uniform (ds : List ParsedDiagnostic) : Prop := ∀ a ∈ ds, ∀ b ∈ ds, key a = key b → a = b

-- The first diagnostic at the place and of the source of the pending one is an earlier
-- copy of it, or another has its key; and no other that is left has the key of the pending one
-- and is not the same.
def Settles (ds : List ParsedDiagnostic) (pending : ParsedDiagnostic) : Prop := ∃ a d b,
  ds = a ++ d :: b ∧ (∀ x ∈ a, sameProblem x pending = false) ∧ sameProblem d pending = true ∧
    Uniform (a ++ b ++ [pending]) ∧ (key d = key pending ∨ ∃ x ∈ a ++ b, key x = key d)

-- Each problem of a text is reported once.
def Once (p : DiagnosticParser) (text : Text) : Prop := ∀ d ∈ lineDiagnostics p (split "\n".toList text),
  ((p.feedTextDedup text).1.filter (key · = key d)).length = 1

theorem dedup_distinct (ds : List ParsedDiagnostic) : dedup ds = distinct ds := rfl

theorem settle_found (before : ∀ x ∈ a, sameProblem x pending = false) (here : sameProblem d pending = true) (b : List ParsedDiagnostic) :
    settlePending (a ++ d :: b) (some pending) = a ++ b ++ [pending] := by
  have index : (a ++ d :: b).findIdx? (sameProblem · pending) = some a.length := by
    have none : a.findIdx? (sameProblem · pending) = none := List.findIdx?_eq_none_iff.mpr before
    rw [List.findIdx?_append,none,List.findIdx?_cons,if_pos here]
    simp
  unfold settlePending
  dsimp only
  rw [index]
  dsimp only
  rw [List.eraseIdx_append_of_length_le (Nat.le_refl _),Nat.sub_self]
  rfl

theorem settle_absent (absent : ∀ x ∈ out, sameProblem x pending = false) : settlePending out (some pending) = out ++ [pending] := by
  unfold settlePending
  dsimp only
  rw [List.findIdx?_eq_none_iff.mpr absent]

-- The key of the pending one is that of a line, so it asks for nothing more.
theorem settled_once {ds : List ParsedDiagnostic} (known : ∃ d ∈ ds, key d = key pending) :
    (∀ d ∈ ds, ((dedup (settlePending ds (some pending))).filter (key · = key d)).length = 1) ↔ Settles ds pending := by
  have wanted : ∀ out : List ParsedDiagnostic, (∀ d ∈ ds, ((distinct out).filter (key · = key d)).length = 1) ↔
      (∀ d ∈ ds, ∃ x ∈ out, key x = key d) ∧ ∀ x ∈ out, ∀ y ∈ out, (∃ d ∈ ds, key d = key x) → key x = key y → x = y := by
    intro out
    have once := distinct_once key (fun k => ∃ d ∈ ds, key d = k) out
    constructor
    · intro each
      obtain ⟨present,unique⟩ := once.mp fun k ⟨d,inside,same⟩ => same ▸ each d inside
      exact ⟨fun d inside => present _ ⟨d,inside,rfl⟩,unique⟩
    · rintro ⟨present,unique⟩ d inside
      exact once.mpr ⟨fun k ⟨d,inside,same⟩ => same ▸ present d inside,unique⟩ _ ⟨d,inside,rfl⟩
  rw [dedup_distinct,wanted]
  constructor
  · rintro ⟨present,unique⟩
    cases first : ds.find? (sameProblem · pending) with
    | none =>
      -- the line's own diagnostic would have to be the pending one
      have absent : ∀ x ∈ ds, sameProblem x pending = false := fun x inside => by simpa using List.find?_eq_none.mp first x inside
      rw [settle_absent absent] at unique
      obtain ⟨d,inside,same⟩ := known
      have equal := unique d (List.mem_append_left _ inside) pending (by simp) ⟨d,inside,rfl⟩ same
      have stale := absent d inside
      rw [equal] at stale
      simp [sameProblem] at stale
    | some d =>
      obtain ⟨here,a,b,rfl,before⟩ := List.find?_eq_some_iff_append.mp first
      have early : ∀ x ∈ a, sameProblem x pending = false := fun x inside => by simpa using before x inside
      rw [settle_found early here] at present unique
      refine ⟨a,d,b,rfl,early,here,fun x inside y inside' same => unique x inside y inside' ?_ same,?_⟩
      · rcases List.mem_append.mp inside with other | last
        · refine ⟨x,?_,rfl⟩
          rcases List.mem_append.mp other with front | back
          · exact List.mem_append_left _ front
          · exact List.mem_append_right _ (List.mem_cons_of_mem _ back)
        · rw [List.mem_singleton.mp last]
          exact known
      · obtain ⟨x,inside,same⟩ := present d (by simp)
        rcases List.mem_append.mp inside with other | last
        · exact .inr ⟨x,other,same⟩
        · rw [List.mem_singleton.mp last] at same
          exact .inl same.symm
  · rintro ⟨a,d,b,rfl,before,here,uniform,covered⟩
    rw [settle_found before here]
    refine ⟨fun x inside => ?_,fun x inside y inside' _ same => uniform x inside y inside' same⟩
    rcases List.mem_append.mp inside with front | rest
    · exact ⟨x,by simp [front],rfl⟩
    · rcases List.mem_cons.mp rest with rfl | back
      · rcases covered with same | ⟨y,other,same⟩
        · exact ⟨pending,by simp,same.symm⟩
        · exact ⟨y,List.mem_append_left _ other,same⟩
      · exact ⟨x,by simp [back],rfl⟩

theorem unsettled_once (ds : List ParsedDiagnostic) :
    (∀ d ∈ ds, ((dedup (settlePending ds none)).filter (key · = key d)).length = 1) ↔ Uniform ds := by
  rw [dedup_distinct]
  have once := distinct_once key (fun k => ∃ d ∈ ds, key d = k) ds
  constructor
  · intro each a inside b inside' same
    exact (once.mp fun k ⟨d,inside,same⟩ => same ▸ each d inside).2 a inside b inside' ⟨a,inside,rfl⟩ same
  · intro uniform d inside
    exact once.mpr ⟨fun k ⟨d,inside,same⟩ => ⟨d,inside,same⟩,fun a inside b inside' _ same => uniform a inside b inside' same⟩ _ ⟨d,inside,rfl⟩

theorem lineDiagnostics_last (p : DiagnosticParser) (last : Option RawDiagnostic) (lines : List Text) :
    lineDiagnostics {p with last:=last} lines = lineDiagnostics p lines := by
  induction lines generalizing p with
  | nil => rfl
  | cons line lines ih =>
    rw [lineDiagnostics,lineDiagnostics]
    exact congrArg _ (ih (p.turned line))

theorem blank_unparsed (blank : trim t = []) (family : ToolFamily) : parseLineFor t family = none := by
  have solidless : ∀ c, isWhitespace c = false → c ∉ t := fun c solid inside => by
    have kept := trim_keeps solid inside
    rw [blank] at kept
    cases kept
  have colonless : ':' ∉ t := solidless ':' (by decide)
  have unmarked : earliest t markers = none := by
    cases found : earliest t markers with
    | none => rfl
    | some parts =>
      obtain ⟨a,rest,severity⟩ := parts
      obtain ⟨m,listed,cut,_⟩ := (earliest_found found).1
      obtain ⟨mid,shape,_⟩ := (markers_fenced listed).shape
      have needed : ':' ∈ m.1 := by rw [shape]; simp
      rw [splitOnce_none colonless needed] at cut
      cases cut
  have makeless : startsWith "make".toList (trimStart t) = false := by
    cases named : startsWith "make".toList (trimStart t) with
    | false => rfl
    | true =>
      obtain ⟨rest,found⟩ := Option.isSome_iff_exists.mp named
      have inside : 'm' ∈ trimStart t := by rw [stripPrefix_eq found]; exact List.mem_cons_self
      exact absurd ((List.dropWhile_suffix _).subset inside) (solidless 'm' (by decide))
  have programless : splitOnce ":".toList (trimStart t) = none :=
    splitOnce_none (fun inside => colonless ((List.dropWhile_suffix _).subset inside)) (List.mem_singleton.mpr rfl)
  have colon : parseColonForm t family = none := by rw [parseColonForm,unmarked]; rfl
  have make : parseMakeError t family = none := by rw [parseMakeError,makeless]; rfl
  have ld : parseLdForm t = none := by rw [parseLdForm,programless]; rfl
  rw [parseLineFor,colon,make,ld]
  rfl

-- What the parser reports line by line is what the lines parse to.
theorem feedLines_diagnostics (p : DiagnosticParser) (lines : List Text) : (p.feedLines lines).1 = lineDiagnostics p lines := by
  induction lines generalizing p with
  | nil => rfl
  | cons line lines ih =>
    rw [DiagnosticParser.feedLines,lineDiagnostics]
    dsimp only
    rw [ih]
    obtain ⟨blank,fed⟩ | ⟨raw,parsed,fed⟩ | ⟨last,parsed,fed⟩ := feed_cases p line
    · rw [fed,blank_unparsed blank]
      have same : p.turned line = p := by rw [DiagnosticParser.turned,recipe_blank blank]; rfl
      rw [same]
      rfl
    · rw [fed,parsed]
      exact congrArg _ (lineDiagnostics_last _ _ _)
    · rw [fed,parsed]
      exact lineDiagnostics_last _ _ _

theorem feedLines_snoc (p : DiagnosticParser) (lines : List Text) (line : Text) :
    (p.feedLines (lines ++ [line])).2 = ((p.feedLines lines).2.feed line).2 := by
  induction lines generalizing p with
  | nil => rfl
  | cons first lines ih =>
    rw [List.cons_append,DiagnosticParser.feedLines,DiagnosticParser.feedLines]
    exact ih _

theorem turned_family (p : DiagnosticParser) (lines : List Text) (line : Text) :
    ((p.feedLines lines).2.turned line).family = familyAt p (lines ++ [line]) := by
  rw [familyAt,hold_snoc,← feedLines_family]
  rfl

-- Whether a line parses does not depend on the family.
theorem parse_families (t : Text) (f g : ToolFamily) : parseLineFor t f = none → parseLineFor t g = none := by
  have colon : parseColonForm t g = (parseColonForm t f).map fun raw => {raw with source:=classifySource raw.message t g} := by
    unfold parseColonForm
    cases earliest t markers with
    | none => rfl
    | some parts =>
      obtain ⟨location,after,severity⟩ := parts
      simp only [Option.bind_eq_bind,Option.bind_some]
      split
      · rfl
      · cases splitLocation location <;> rfl
  have make : parseMakeError t g = (parseMakeError t f).map fun raw => {raw with source:=g.defaultSource.getD .gcc} := by
    unfold parseMakeError
    split
    · rfl
    · split <;> rfl
  unfold parseLineFor
  rw [colon,make]
  simp only [Option.or_eq_none_iff,Option.map_eq_none_iff]
  exact id

-- The diagnostic of a line is kept until the next, and takes up what continues it.
theorem feed_last (q : DiagnosticParser) (line : Text) (folded : RawDiagnostic) :
    (q.feed line).2.last = some folded ↔ parseLineFor (withoutEnd line) (q.turned line).family = some folded ∨
      (Continues line ∧ ∃ raw, q.last = some raw ∧ foldLine raw line = folded) := by
  have unparsed : Continues line → parseLineFor (withoutEnd line) (q.turned line).family = none := by
    rintro (blank | ⟨none,_⟩)
    · exact blank_unparsed blank _
    · exact parse_families _ _ _ none
  by_cases blank : trim (withoutEnd line) = []
  · have fed : q.feed line = ([],q) := if_pos blank
    have fold : ∀ raw, foldLine raw line = raw := fun raw => if_pos blank
    rw [fed,unparsed (.inl blank)]
    simp [fold,show Continues line from .inl blank]
  · have fold : ∀ raw, foldLine raw line = DiagnosticParser.fold raw (trim (withoutEnd line)) := fun raw => if_neg blank
    rw [feed_turned q blank]
    cases parsed : parseLineFor (withoutEnd line) (q.turned line).family with
    | some raw =>
      have apart : ¬ Continues line := fun continues => by
        rw [unparsed continues] at parsed
        cases parsed
      simp [apart]
    | none =>
      have none : parseLine (withoutEnd line) = .none := parse_families _ _ _ parsed
      cases continues : isContinuation (trim (withoutEnd line)) with
      | true => simp [fold,show Continues line from .inr ⟨none,continues⟩]
      | false =>
        have apart : ¬ Continues line := by
          rintro (empty | ⟨_,same⟩)
          · exact blank empty
          · rw [continues] at same
            cases same
        simp [apart]

theorem folded_snoc (p : DiagnosticParser) (lines : List Text) (line : Text) (folded : RawDiagnostic) :
    Folded p (lines ++ [line]) folded ↔ parseLineFor (withoutEnd line) (familyAt p (lines ++ [line])) = some folded ∨
      (Continues line ∧ ∃ raw, Folded p lines raw ∧ foldLine raw line = folded) := by
  constructor
  · rintro ⟨before,l,tail,raw,whole,parsed,continued,rfl⟩
    obtain ⟨rfl,rfl,rfl⟩ | ⟨front,rfl,rfl⟩ := snoc_cases whole
    · exact .inl parsed
    · refine .inr ⟨continued line (by simp),front.foldl foldLine raw,⟨before,l,front,raw,rfl,parsed,fun x inside => continued x (by simp [inside]),rfl⟩,?_⟩
      rw [List.foldl_append]
      rfl
  · rintro (parsed | ⟨continues,_,⟨before,l,tail,raw,rfl,parsed,continued,rfl⟩,rfl⟩)
    · exact ⟨lines,line,[],folded,rfl,parsed,fun _ none => absurd none List.not_mem_nil,rfl⟩
    · refine ⟨before,l,tail ++ [line],raw,by simp,parsed,fun x inside => ?_,by rw [List.foldl_append]; rfl⟩
      rcases List.mem_append.mp inside with early | last
      · exact continued x early
      · rw [List.mem_singleton.mp last]
        exact continues

theorem feedLines_folded (p : DiagnosticParser) (new : p.last = none) (lines : List Text) (folded : RawDiagnostic) :
    (p.feedLines lines).2.last = some folded ↔ Folded p lines folded := by
  induction lines using List.reverseRecOn generalizing folded with
  | nil =>
    refine iff_of_false (by simp [DiagnosticParser.feedLines,new]) ?_
    rintro ⟨before,line,tail,raw,none,_⟩
    simp at none
  | append_singleton lines line ih => rw [feedLines_snoc,feed_last,folded_snoc,turned_family]; simp only [ih]
theorem lineDiagnostics_member (p : DiagnosticParser) (before tail : List Text)
    (parsed : parseLineFor (withoutEnd line) (familyAt p (before ++ [line])) = some raw) (finished : p.finish raw = some d) :
    d ∈ lineDiagnostics p (before ++ line :: tail) := by
  induction before generalizing p with
  | nil =>
    refine List.mem_append_left _ (Option.mem_toList.mpr ?_)
    have here : parseLineFor (withoutEnd line) (p.turned line).family = some raw := parsed
    rw [here]
    exact finished
  | cons first before ih => exact List.mem_append_right _ (ih (p.turned first) parsed finished)

def rawKey (p : DiagnosticParser) (raw : RawDiagnostic) : DiagnosticSeverity × Option Text × Option Nat × Option Nat × Text :=
  (raw.severity,raw.file.map p.resolve,raw.line,raw.col,firstLine raw.message)

-- A message as the parser takes it from a line.
def Said (raw : RawDiagnostic) : Prop := raw.message ≠ [] ∧ Trimmed raw.message

theorem parsed_said (parsed : parseLineFor t family = some raw) : Said raw := by
  cases parsed_form parsed with
  | @colon _ after _ _ _ _ _ said _ => exact ⟨said,trim_trimmed after⟩
  | make =>
    refine ⟨fun blank => ?_,trim_trimmed t⟩
    rw [blank_unparsed blank] at parsed
    cases parsed
  | @ld _ message _ said => exact ⟨said,trim_trimmed message⟩

theorem said_finish (said : Said raw) (p : DiagnosticParser) :
    ∃ d, p.finish raw = some d ∧ key d = rawKey p raw ∧ d.source = raw.source ∧ d.message = raw.message := by
  unfold DiagnosticParser.finish
  rw [said.2.trim_eq]
  exact ⟨_,if_neg said.1,rfl,rfl,rfl⟩

theorem firstLine_more (t more : Text) : firstLine (t ++ '\n' :: more) = firstLine t := by
  unfold firstLine
  induction t with
  | nil => simp
  | cons c t ih =>
    rw [List.cons_append,List.takeWhile_cons,List.takeWhile_cons,ih]

theorem trimmed_join {t more : Text} (front : Trimmed t) (some : t ≠ []) (back : Trimmed more) (some' : more ≠ []) : Trimmed (t ++ '\n' :: more) := by
  constructor
  · intro c first
    cases t with
    | nil => exact absurd rfl some
    | cons x t => exact front.1 c first
  · intro c last
    obtain ⟨init,x,rfl⟩ := (List.eq_nil_or_concat' more).resolve_left some'
    refine back.2 c ?_
    rw [show t ++ '\n' :: (init ++ [x]) = (t ++ '\n' :: init) ++ [x] by simp,List.getLast?_append] at last
    rw [List.getLast?_append]
    exact last

-- A continuation line changes neither the place of a diagnostic nor the first line of what it says.
theorem foldLine_kept (said : Said raw) (line : Text) (p : DiagnosticParser) : Said (foldLine raw line) ∧ rawKey p (foldLine raw line) = rawKey p raw := by
  unfold foldLine
  split
  · exact ⟨said,rfl⟩
  next some =>
  have each : ∀ source, Said {raw with source:=source,message:=raw.message ++ '\n' :: trim (withoutEnd line)} ∧
      rawKey p {raw with source:=source,message:=raw.message ++ '\n' :: trim (withoutEnd line)} = rawKey p raw := by
    intro source
    refine ⟨⟨by simp,trimmed_join said.2 said.1 (trim_trimmed _) some⟩,?_⟩
    simp only [rawKey,firstLine_more]
  unfold DiagnosticParser.fold
  dsimp only
  split
  · split
    · exact ⟨said,rfl⟩
    · exact each _
  · split
    · exact ⟨said,rfl⟩
    · exact each _

theorem folded_kept (said : Said raw) (tail : List Text) (p : DiagnosticParser) :
    Said (tail.foldl foldLine raw) ∧ rawKey p (tail.foldl foldLine raw) = rawKey p raw := by
  induction tail generalizing raw with
  | nil => exact ⟨said,rfl⟩
  | cons line tail ih =>
    have kept := foldLine_kept said line p
    have rest := ih kept.1
    exact ⟨rest.1,rest.2.trans kept.2⟩
theorem folded_known {lines : List Text} (folded : Folded p lines raw) :
    ∃ pending, p.finish raw = some pending ∧ ∃ d ∈ lineDiagnostics p lines, key d = key pending := by
  obtain ⟨before,line,tail,first,rfl,parsed,_,rfl⟩ := folded
  have said := parsed_said parsed
  obtain ⟨d,finished,own,_⟩ := said_finish said p
  obtain ⟨said',kept⟩ := folded_kept said tail p
  obtain ⟨pending,finished',own',_⟩ := said_finish said' p
  exact ⟨pending,finished',d,lineDiagnostics_member p before tail parsed finished,own.trans (kept.symm.trans own'.symm)⟩

theorem feedLines_cwd (p : DiagnosticParser) (lines : List Text) : (p.feedLines lines).2.cwd = p.cwd := by
  induction lines generalizing p with
  | nil => rfl
  | cons line lines ih =>
    rw [DiagnosticParser.feedLines]
    dsimp only
    rw [ih]
    obtain ⟨_,fed⟩ | ⟨_,_,fed⟩ | ⟨_,_,fed⟩ := feed_cases p line
    all_goals rw [fed]
    all_goals rfl

theorem finish_cwd {p q : DiagnosticParser} (same : p.cwd = q.cwd) (raw : RawDiagnostic) : p.finish raw = q.finish raw := by
  unfold DiagnosticParser.finish
  have resolve : p.resolve = q.resolve := by
    funext file
    unfold DiagnosticParser.resolve
    rw [same]
  rw [resolve]

-- The lines tell their problems apart by the keys, also behind what is folded into the last.
def Tells (p : DiagnosticParser) (lines : List Text) : Prop :=
  (∀ raw pending, Folded p lines raw → p.finish raw = some pending → Settles (lineDiagnostics p lines) pending) ∧
  ((∀ raw, ¬ Folded p lines raw) → Uniform (lineDiagnostics p lines))

theorem once_iff (cwd : Text) (family : ToolFamily) (text : Text) :
    Once ((DiagnosticParser.new cwd).withFamily family) text ↔ Tells ((DiagnosticParser.new cwd).withFamily family) (split "\n".toList text) := by
  generalize new : (DiagnosticParser.new cwd).withFamily family = p
  have fresh : p.last = none := by rw [← new]; rfl
  have result : (p.feedTextDedup text).1 =
      dedup (settlePending (lineDiagnostics p (split "\n".toList text)) ((p.feedLines (split "\n".toList text)).2.last.bind p.finish)) := by
    rw [← feedLines_diagnostics,← funext (finish_cwd (feedLines_cwd p (split "\n".toList text)))]
    rfl
  unfold Once Tells
  rw [result]
  cases last : (p.feedLines (split "\n".toList text)).2.last with
  | none =>
    have unfolded : ∀ raw, ¬ Folded p (split "\n".toList text) raw := fun raw folded => by
      rw [(feedLines_folded p fresh _ raw).mpr folded] at last
      cases last
    refine (unsettled_once _).trans ⟨fun uniform => ⟨fun raw _ folded _ => absurd folded (unfolded raw),fun _ => uniform⟩,fun tells => tells.2 unfolded⟩
  | some raw =>
    have folded := (feedLines_folded p fresh _ raw).mp last
    obtain ⟨pending,finished,known⟩ := folded_known folded
    rw [Option.bind_some,finished,settled_once known]
    constructor
    · refine fun settles => ⟨fun other pending' folded' finished' => ?_,fun none => absurd folded (none raw)⟩
      have same := (feedLines_folded p fresh _ other).mpr folded'
      rw [last] at same
      cases same
      rw [finished] at finished'
      cases finished'
      exact settles
    · exact fun tells => tells.1 raw pending folded finished

-- An error and a note at one place.
def boom : Text := "k.c:1:1: error: boom\nk.c:1:1: note: x\n".toList

theorem boom_lost : ¬ Once ((DiagnosticParser.new "/p".toList).withFamily .gcc) boom := by
  intro once
  have told := once ⟨.error,some "/p/k.c".toList,some 1,some 1,"boom".toList,.gcc⟩ (by decide +kernel)
  exact absurd told (by decide +kernel)

end PrincessIDE.Diagnostics
