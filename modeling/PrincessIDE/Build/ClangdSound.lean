import PrincessIDE.Build.ClangdPassed

namespace PrincessIDE.DotClangd
open Utf8 (Text)
open Str

theorem Flat.rows_flat {f : Flat} (fits : f.whole.Fits top) : ∀ row ∈ f.whole.body, row.Filler ∨ row.Entry := by
  intro row member
  unfold Section.Fits at fits
  cases value : f.whole.value with
  | none =>
    obtain ⟨depth,under⟩ := f.notNested value
    rw [value,under] at fits
    exact (fits row member).imp id And.left
  | scalar gap s =>
    rw [value] at fits
    exact .inl (fits row member)
  | inline gap items =>
    rw [value] at fits
    exact .inl (fits row member)

-- If the first line with the key is the one at the top, it is found out when that
-- is no dictionary.
theorem flat_found {doc : Doc} {f : Flat} (flags : doc.flags = some (.flat f)) (first : ∀ row ∈ doc.before, ¬ row.IsFlags) :
    structureProblems (lines doc.text) ≠ [] := by
  have body := Flat.rows_flat (doc.fits _ flags)
  have rows : doc.rows = doc.before ++ ⟨doc.top,.key flagsName f.whole.value f.whole.tail⟩ :: (f.whole.body ++ doc.after) := by
    rw [Doc.rows,flags,Option.map_some,Option.getD_some,Flags.rows,Section.row,f.named,List.append_assoc,List.cons_append]
  have seen := walk_flat body doc.next
  have own : Row.IsFlags ⟨doc.top,.key flagsName f.whole.value f.whole.tail⟩ := rfl
  rw [lines_text,rows,structureProblems,findSome_rows first,dropWhile_rows first own]
  intro none
  dsimp only at none
  rw [List.drop_one,List.tail_cons,seen] at none
  exact absurd (List.append_eq_nil_iff.mp none).2 (List.cons_ne_nil _ _)

def quoteOrBlank (c : Char) : Bool := isWhitespace c || c = '"'

theorem wildcard_char : quoteOrBlank wildcardMarker = false ∧ wildcardMarker ∉ ['\\','"'] := by decide

theorem allowed_tight : Tight quoteOrBlank allowedWildcard := by
  constructor
  all_goals
    rintro c ⟨⟩
    decide

theorem scalar_tight (s : Scalar) : Tight quoteOrBlank s.text := by
  refine ⟨fun c first => ?_,fun c last => ?_⟩
  · have apart := (s.unquoted c (List.mem_of_mem_head? first)).1
    rw [quoteOrBlank,s.trimmed.1 c first,Bool.false_or,decide_eq_false apart]
  · have apart := (s.unquoted c (List.mem_of_mem_getLast? last)).1
    rw [quoteOrBlank,s.trimmed.2 c last,Bool.false_or,decide_eq_false apart]

-- The value that is looked at of an entry's line is the entry unless it has quotes
-- or a comment in it.
theorem entry_wildcard {s : Scalar} (clean : wildcardProblem (Row.mk indent (.entry gap s tail)).line = none) (wild : wildcardMarker ∈ s.text) :
    s.text = allowedWildcard := by
  obtain ⟨rest,white,shape,cut,blank⟩ := entry_trim indent gap s tail
  have absent : stripPrefix "- ".toList rest = none := by
    cases found : stripPrefix "- ".toList rest with
    | none => rfl
    | some after =>
      refine absurd ⟨after ++ white,?_⟩ (shown_dash gap s tail.shown)
      rw [cut,stripPrefix_eq found,List.append_assoc]
  have value : entryValue (trim (Row.mk indent (.entry gap s tail)).line) = trim (trimMatches (· = '"') rest) := by
    rw [shape,entryValue,trimStartMatches_once (by decide) absent]
  -- everything around the value is blank or a quote
  have around : Around quoteOrBlank (blanks gap ++ s.shown ++ tail.shown) (trim (trimMatches (· = '"') rest)) := by
    have outer : Around quoteOrBlank (blanks gap ++ s.shown ++ tail.shown) rest := by
      refine ⟨[],white,cut,fun _ no => absurd no List.not_mem_nil,fun c member => ?_⟩
      rw [quoteOrBlank,blank c member,Bool.true_or]
    refine outer.trans (((trimMatches_around (· = '"') rest).mono fun c quote => ?_).trans ((trim_around _).mono fun c white => ?_))
    · rw [quoteOrBlank,quote,Bool.or_true]
    · rw [quoteOrBlank,white,Bool.true_or]
  have shown : wildcardMarker ∈ blanks gap ++ s.shown ++ tail.shown := by
    refine List.mem_append_left _ (List.mem_append_right _ ?_)
    unfold Scalar.shown
    cases s.style with
    | plain => exact wild
    | single => exact List.mem_cons_of_mem _ (List.mem_append_left _ wild)
    | double => exact List.mem_cons_of_mem _ (List.mem_append_left _ wild)
  have kept := around.keeps wildcard_char.1 shown
  have allowed : trim (trimMatches (· = '"') rest) = allowedWildcard := by
    by_contra other
    refine absurd clean ?_
    have dash : startsWith "- ".toList (trim (Row.mk indent (.entry gap s tail)).line) = true := by
      rw [shape]
      rfl
    rw [wildcardProblem,dash,value,Bool.not_true,if_neg Bool.false_ne_true,if_neg (List.ne_nil_of_mem kept),if_pos]
    · exact Option.some_ne_none _
    · rw [List.contains_iff_mem.mpr kept,decide_eq_true other]
      rfl
  rw [allowed] at around
  cases comment : tail.comment with
  | some c =>
    have hash : '#' ∈ blanks gap ++ s.shown ++ tail.shown := by
      rw [Tail.shown,comment]
      simp
    exact absurd (around.keeps (by decide) hash) (by decide)
  | none =>
    have ending : ∀ c ∈ tail.shown, quoteOrBlank c = true := by
      intro c member
      rw [Tail.shown,comment,List.append_nil] at member
      rw [quoteOrBlank,blanks_white _ c member,Bool.true_or]
    have gapped : ∀ c ∈ blanks gap, quoteOrBlank c = true := by
      intro c member
      rw [quoteOrBlank,blanks_white _ c member,Bool.true_or]
    have inner : Around quoteOrBlank (blanks gap ++ s.shown ++ tail.shown) s.shown := ⟨_,_,rfl,gapped,ending⟩
    cases style : s.style with
    | single =>
      have quote : '\'' ∈ s.shown := by
        rw [Scalar.shown,style]
        exact List.mem_cons_self
      exact absurd (around.keeps (by decide) (List.mem_append_left _ (List.mem_append_right _ quote))) (by decide)
    | plain =>
      have same : s.shown = s.text := by rw [Scalar.shown,style]
      rw [same] at inner around
      exact inner.unique around (scalar_tight s) allowed_tight s.filled (by decide)
    | double =>
      have same : s.shown = ['"'] ++ s.text ++ ['"'] := by rw [Scalar.shown,style]; rfl
      have quote : ∀ c ∈ ['"'], quoteOrBlank c = true := List.forall_mem_singleton.mpr (by decide)
      have quoted : Around quoteOrBlank s.shown s.text := ⟨['"'],['"'],same,quote,quote⟩
      exact (inner.trans quoted).unique around (scalar_tight s) allowed_tight s.filled (by decide)

-- Every entry is written in a row.
theorem scalar_within (s : Scalar) : s.text <:+: s.shown := by
  unfold Scalar.shown
  cases s.style with
  | plain => exact List.infix_refl _
  | single => exact ⟨['\''],['\''],rfl⟩
  | double => exact ⟨['"'],['"'],rfl⟩

theorem intercalate_within {part : Text} {parts : List Text} (member : part ∈ parts) : part <:+: [','].intercalate parts := by
  induction parts with
  | nil => cases member
  | cons first parts ih =>
    cases parts with
    | nil =>
      refine ⟨[],[],?_⟩
      rw [List.mem_singleton.mp member,List.intercalate_singleton,List.nil_append,List.append_nil]
    | cons next parts =>
      rw [List.intercalate_cons_cons]
      rcases List.mem_cons.mp member with rfl | later
      · exact ⟨[],_,by rw [List.nil_append,List.append_assoc]⟩
      · exact (ih later).trans (List.suffix_append _ _).isInfix

-- What a list can be: rows with entries, or brackets in the row of the key.
theorem Section.list_cases {s : Section} (member : e ∈ s.list) :
    (∃ row ∈ s.body, row.entryText = some e) ∨ ∃ gap items, s.value = .inline gap items ∧ ∃ item ∈ items, item.scalar.text = e := by
  unfold Section.list at member
  cases value : s.value with
  | none => cases under : s.under with
    | list depth =>
      rw [value,under] at member
      exact .inl (List.mem_filterMap.mp member)
    | nested =>
      rw [value,under] at member
      cases member
  | scalar gap s =>
    rw [value] at member
    cases member
  | inline gap items =>
    rw [value] at member
    exact .inr ⟨gap,items,rfl,List.mem_map.mp member⟩

theorem Row.entry_of {row : Row} (entry : row.entryText = some e) : ∃ indent gap s tail, row = ⟨indent,.entry gap s tail⟩ ∧ s.text = e := by
  obtain ⟨indent,content⟩ := row
  cases content with
  | entry gap s tail => exact ⟨indent,gap,s,tail,rfl,Option.some.inj entry⟩
  | blank => cases entry
  | comment c => cases entry
  | key name value tail => cases entry

theorem list_within {s : Section} (member : e ∈ s.list) (indent : Nat) : ∃ row ∈ s.row indent :: s.body, e <:+: row.line := by
  rcases s.list_cases member with ⟨row,inside,entry⟩ | ⟨gap,items,value,item,inside,rfl⟩
  · refine ⟨row,List.mem_cons_of_mem _ inside,?_⟩
    obtain ⟨indent,gap,s,tail,rfl,rfl⟩ := Row.entry_of entry
    refine (scalar_within s).trans ⟨blanks indent ++ '-' :: blanks (gap+1),tail.shown,?_⟩
    simp only [Row.line,Content.shown,List.append_assoc,List.cons_append]
  · refine ⟨_,List.mem_cons_self,?_⟩
    have part : item.scalar.text <:+: item.shown := (scalar_within _).trans ⟨blanks item.before,blanks item.after,rfl⟩
    have listed := part.trans (intercalate_within (List.mem_map_of_mem inside))
    refine listed.trans ⟨blanks indent ++ (s.name.text ++ ':' :: (blanks (gap+1) ++ ['['])),[']'] ++ s.tail.shown,?_⟩
    rw [Section.row,Row.line,Content.shown,value,Value.shown]
    simp only [List.append_assoc,List.cons_append,List.nil_append]

theorem row_within {doc : Doc} (member : row ∈ doc.rows) : row.line <:+: doc.text := by
  obtain ⟨front,back,cut⟩ := List.append_of_mem member
  refine ⟨front.flatMap fun row => row.line ++ doc.ending,doc.ending ++ back.flatMap fun row => row.line ++ doc.ending,?_⟩
  rw [Doc.text,cut,List.flatMap_append,List.flatMap_cons]
  simp only [List.append_assoc]

theorem child_rows {doc : Doc} (found : doc.child name = some s) : ∃ indent, ∀ row ∈ s.row indent :: s.body, row ∈ doc.rows := by
  unfold Doc.child at found
  split at found
  · next d flags =>
    refine ⟨doc.top+d.width,fun row member => ?_⟩
    have inside : row ∈ d.children.flatMap fun s => s.row (doc.top+d.width) :: s.body :=
      List.mem_flatMap.mpr ⟨s,List.mem_of_find?_eq_some found,member⟩
    rw [Doc.rows,flags]
    exact List.mem_append_left _ (List.mem_append_right _ (List.mem_cons_of_mem _ (List.mem_append_right _ inside)))
  · cases found

theorem listed_contains {doc : Doc} (member : e ∈ doc.listOf name) : contains e doc.text = true := by
  unfold Doc.listOf at member
  cases found : doc.child name with
  | none => rw [found] at member; cases member
  | some s =>
    rw [found] at member
    obtain ⟨indent,rows⟩ := child_rows found
    obtain ⟨row,inside,shown⟩ := list_within member indent
    obtain ⟨front,back,whole⟩ := shown.trans (row_within (rows row inside))
    rw [← whole]
    exact contains_within e front back

-- A wildcard in a list of lines is found.
theorem rows_sparing {doc : Doc} {s : Section} (clean : ∀ line ∈ lines doc.text, wildcardProblem line = none) (found : doc.child name = some s)
    (block : ¬ s.IsInline) : Sparing s.list := by
  obtain ⟨indent,rows⟩ := child_rows found
  intro e member wild
  rcases s.list_cases member with ⟨row,inside,entry⟩ | ⟨gap,items,value,_⟩
  · have quiet : wildcardProblem row.line = none := by
      refine clean _ ?_
      rw [lines_text]
      exact List.mem_map_of_mem (rows row (List.mem_cons_of_mem _ inside))
    obtain ⟨indent,gap,s,tail,rfl,rfl⟩ := Row.entry_of entry
    exact entry_wildcard quiet wild
  · refine absurd ?_ block
    rw [Section.IsInline,value]
    trivial

theorem clean_placed {doc : Doc} (clean : Clean doc.text) : Good doc ↔ Placed doc := by
  constructor
  · intro good
    refine ⟨fun _ => good.dictionary,good.target,good.nostdlibinc,good.blacklist,fun s found _ => ?_⟩
    have sparing := good.wildcards
    rw [Doc.remove,Doc.listOf,found] at sparing
    exact sparing
  · intro placed
    have dictionary : doc.IsDictionary := by
      by_cases hidden : doc.flags = none ∨ ∃ row ∈ doc.before, row.IsFlags
      · exact placed.top hidden
      · obtain ⟨some,first⟩ := not_or.mp hidden
        cases flags : doc.flags with
        | none => exact absurd flags some
        | some f => cases f with
          | flat f => exact absurd clean.structured (flat_found flags fun row member own => first ⟨row,member,own⟩)
          | dictionary d =>
            rw [Doc.IsDictionary,flags]
            trivial
    refine ⟨dictionary,placed.target,placed.nostdlibinc,fun inside => ?_,placed.blacklist,?_⟩
    · have found := listed_contains inside
      rw [clean.nostdinc] at found
      cases found
    · unfold Doc.remove Doc.listOf
      cases found : doc.child "Remove".toList with
      | none => exact fun _ no => (nomatch no)
      | some s =>
        by_cases inline : s.IsInline
        · exact placed.inline s found inline
        · exact rows_sparing clean.wildcards found inline

theorem inLine_all (all : t.all (fun c => c ≠ '\n' && c ≠ '\r') = true) : InLine t := by
  intro c member
  simpa using List.all_eq_true.mp all c member

def xcFlag : Scalar := ⟨"-xc".toList,.plain,by decide,⟨by rintro c ⟨⟩; decide,by rintro c ⟨⟩; decide⟩,inLine_all (by decide),
  by simp,fun _ => ⟨by rintro c ⟨⟩; decide,by decide,by decide,by decide,by decide,by decide⟩⟩

def warnFlag : Scalar := ⟨"-W*".toList,.plain,by decide,⟨by rintro c ⟨⟩; decide,by rintro c ⟨⟩; decide⟩,inLine_all (by decide),
  by simp,fun _ => ⟨by rintro c ⟨⟩; decide,by decide,by decide,by decide,by decide,by decide⟩⟩

def remark : Line := ⟨" --target= -nostdlibinc".toList ++ flagBlacklist.flatMap (' ' :: ·),inLine_all (by decide)⟩

def addSection : Section := ⟨⟨"Add".toList,by decide,by simp; decide⟩,.none,⟨0,none⟩,.list 2,[⟨4,.entry 0 xcFlag ⟨0,none⟩⟩,⟨2,.comment remark⟩]⟩

def removeSection : Section := ⟨⟨"Remove".toList,by decide,by simp; decide⟩,.inline 0 [⟨0,warnFlag,0,fun _ => by simp [warnFlag]⟩],⟨0,none⟩,.nested,[]⟩

def remarkDoc : Doc := {
  top:=0
  crlf:=false
  before:=[]
  flags:=some (.dictionary ⟨⟨0,none⟩,[],2,[addSection,removeSection],by simp,by simp,by decide,by decide⟩)
  after:=[]
  fits:=by
    rintro f ⟨⟩ s member
    rcases List.mem_cons.mp member with rfl | last
    · intro row inside
      rcases List.mem_cons.mp inside with rfl | later
      · exact .inr ⟨trivial,rfl⟩
      · exact .inl (List.mem_singleton.mp later ▸ trivial)
    · cases List.mem_singleton.mp last
      exact fun row no => (nomatch no)
  others:=fun row no => (nomatch no)
  next:=fun row no => (nomatch no)}

end PrincessIDE.DotClangd
