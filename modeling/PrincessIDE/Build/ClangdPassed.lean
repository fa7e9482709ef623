import PrincessIDE.Build.ClangdRows

namespace PrincessIDE.DotClangd
open Utf8 (Text)
open Str

theorem Scalar.shown_trimmed (s : Scalar) : Trimmed s.shown := by
  unfold Scalar.shown
  cases s.style with
  | plain => exact s.trimmed
  | single =>
    refine ⟨fun c first => ?_,fun c last => ?_⟩
    · cases first
      decide
    · rw [List.getLast?_concat] at last
      cases last
      decide
  | double =>
    refine ⟨fun c first => ?_,fun c last => ?_⟩
    · cases first
      decide
    · rw [List.getLast?_concat] at last
      cases last
      decide

theorem Scalar.shown_filled (s : Scalar) : s.shown ≠ [] := by
  obtain ⟨c,rest,cut,_⟩ := s.first
  exact cut ▸ List.cons_ne_nil c rest

-- What is left of a comment when the line is trimmed.
def Tail.kept (tail : Tail) : Text := match tail.comment with
  | none => []
  | some c => blanks tail.spaces ++ ' ' :: '#' :: trimEnd c.text

theorem trim_tail {core : Text} (trimmed : Trimmed core) (filled : core ≠ []) (indent : Nat) (tail : Tail) :
    trim (blanks indent ++ (core ++ tail.shown)) = core ++ tail.kept := by
  rw [trim_behind (blanks_white indent)]
  unfold Tail.shown Tail.kept
  cases tail.comment with
  | none =>
    rw [List.append_nil,List.append_nil,trim_append (blanks_white _)]
    exact trimmed.trim_eq
  | some c =>
    obtain ⟨first,rest,rfl⟩ := List.exists_cons_of_ne_nil filled
    have front : first :: rest ++ (blanks tail.spaces ++ ' ' :: '#' :: c.text) = first :: rest ++ (blanks tail.spaces ++ [' ']) ++ '#' :: c.text := by
      simp only [List.append_assoc,List.cons_append,List.nil_append]
    rw [trim,List.cons_append,trimStart_solid (trimmed.1 first rfl),← List.cons_append,front,trimEnd_behind (by decide)]
    simp only [List.append_assoc,List.cons_append,List.nil_append]

theorem kept_colon (core : Text) (tail : Tail) : (core ++ tail.kept).getLast? = some ':' ↔ tail.EndsColon (core.getLast? = some ':') := by
  unfold Tail.kept Tail.EndsColon
  cases tail.comment with
  | none => rw [List.append_nil]
  | some c => cases text : trimEnd c.text with
    | nil => simp [List.getLast?_append,text]
    | cons d rest => simp [List.getLast?_append,text]

-- The part of a row that is not white space or a comment.
def Content.core : Content → Text
  | .key name value _ => name.text ++ ':' :: value.shown
  | .entry gap s _ => '-' :: (blanks (gap+1) ++ s.shown)
  | _ => []

theorem key_trimmed (name : Name) (value : Value) (tail : Tail) : Trimmed (Content.core (.key name value tail)) := by
  obtain ⟨c,rest,cut,solid,_⟩ := name.first
  refine ⟨fun d first => ?_,fun d last => ?_⟩
  · rw [Content.core,cut] at first
    cases first
    exact solid
  · rw [Content.core] at last
    cases value with
    | none =>
      rw [Value.shown,List.getLast?_concat] at last
      cases last
      decide
    | scalar gap s =>
      have same : name.text ++ ':' :: (blanks (gap+1) ++ s.shown) = name.text ++ ':' :: blanks (gap+1) ++ s.shown := by
        simp only [List.append_assoc,List.cons_append]
      rw [Value.shown,same,List.getLast?_append_of_ne_nil _ s.shown_filled] at last
      exact s.shown_trimmed.2 d last
    | inline gap items =>
      rw [Value.shown,← List.cons_append,← List.append_assoc,List.getLast?_concat] at last
      cases last
      decide

theorem entry_trimmed (gap : Nat) (s : Scalar) (tail : Tail) : Trimmed (Content.core (.entry gap s tail)) := by
  refine ⟨fun d first => ?_,fun d last => ?_⟩
  · cases first
    decide
  · rw [Content.core,← List.cons_append,List.getLast?_append_of_ne_nil _ s.shown_filled] at last
    exact s.shown_trimmed.2 d last

theorem Tail.colon_congr (tail : Tail) {a b : Prop} (same : a ↔ b) : tail.EndsColon a ↔ tail.EndsColon b := by
  unfold Tail.EndsColon
  cases tail.comment with
  | none => exact same
  | some c => exact Iff.rfl

theorem Scalar.shown_uncolon (s : Scalar) : s.shown.getLast? ≠ some ':' := by
  unfold Scalar.shown
  cases style : s.style with
  | plain => exact (s.plainly style).2.2.2.2.2
  | single => rw [List.getLast?_concat]; decide
  | double => rw [List.getLast?_concat]; decide

theorem Row.ends_colon {row : Row} (told : ¬ row.Filler) : (trim row.line).getLast? = some ':' ↔ row.EndsColon := by
  obtain ⟨indent,content⟩ := row
  cases content with
  | blank => exact absurd trivial told
  | comment c => exact absurd trivial told
  | key name value tail =>
    have line : (Row.mk indent (.key name value tail)).line = blanks indent ++ (Content.core (.key name value tail) ++ tail.shown) := by
      rw [Row.line,Content.shown,Content.core,List.append_assoc,List.cons_append]
    have filled : Content.core (.key name value tail) ≠ [] := by
      rw [Content.core]
      exact List.append_ne_nil_of_right_ne_nil _ (List.cons_ne_nil _ _)
    rw [line,trim_tail (key_trimmed name value tail) filled,kept_colon]
    refine tail.colon_congr ?_
    rw [Content.core]
    cases value with
    | none => simp [Value.shown]
    | scalar gap s =>
      have last : (name.text ++ ':' :: (blanks (gap+1) ++ s.shown)).getLast? = s.shown.getLast? := by
        rw [← List.cons_append,← List.append_assoc,List.getLast?_append_of_ne_nil _ s.shown_filled]
      rw [Value.shown,last]
      exact ⟨fun colon => absurd colon s.shown_uncolon,fun none => by cases none⟩
    | inline gap items =>
      rw [Value.shown,← List.cons_append,← List.append_assoc,List.getLast?_concat]
      exact ⟨fun colon => absurd colon (by decide),fun none => by cases none⟩
  | entry gap s tail =>
    have line : (Row.mk indent (.entry gap s tail)).line = blanks indent ++ (Content.core (.entry gap s tail) ++ tail.shown) := by
      rw [Row.line,Content.shown,Content.core,List.cons_append]
    rw [line,trim_tail (entry_trimmed gap s tail) (List.cons_ne_nil _ _),kept_colon]
    refine tail.colon_congr ⟨fun colon => s.shown_uncolon ?_,False.elim⟩
    rwa [Content.core,← List.cons_append,List.getLast?_append_of_ne_nil _ s.shown_filled] at colon

theorem Row.trim_told {row : Row} (told : ¬ row.Filler) : (trim row.line = [] || startsWith ['#'] (trim row.line)) = false ∧
    indentOf row.line = row.indent ∧ (startsWith "- ".toList (trim row.line) = true ↔ row.Entry) := by
  obtain ⟨indent,content⟩ := row
  cases content with
  | blank => exact absurd trivial told
  | comment c => exact absurd trivial told
  | key name value tail =>
    have own : (Row.mk indent (.key name value tail)).IsKey := trivial
    obtain ⟨solid,depth⟩ := Row.trim_key own
    refine ⟨solid,depth,?_⟩
    obtain ⟨c,more,cut,blank,_,dash⟩ := name.first
    have line : (Row.mk indent (.key name value tail)).line = blanks indent ++ c :: (more ++ ':' :: (value.shown ++ tail.shown)) := by
      rw [Row.line,Content.shown,cut]
      rfl
    rw [line,trim_blanks blank]
    have other : startsWith "- ".toList (c :: trimEnd (more ++ ':' :: (value.shown ++ tail.shown))) = false := startsWith_apart dash.symm _ _
    rw [other]
    exact ⟨fun dash => absurd dash Bool.false_ne_true,False.elim⟩
  | entry gap s tail =>
    have own : (Row.mk indent (.entry gap s tail)).Entry := trivial
    obtain ⟨solid,depth,dash⟩ := Row.trim_entry own
    exact ⟨solid,depth,⟨fun _ => trivial,fun _ => dash⟩⟩

-- The walk over rows finds no problem and sees a child key.
theorem walk_rows (top : Nat) (seen : Bool) (rows : List Row) :
    (walk top seen (rows.map Row.line)).1 = [] ∧ (walk top seen (rows.map Row.line)).2 = true ↔
      (∀ row ∈ block top rows, row.indent = top+2 → ¬ row.Entry) ∧
        (seen = true ∨ ∃ row ∈ block top rows, row.indent = top+2 ∧ row.EndsColon) := by
  induction rows generalizing seen with
  | nil => simp [walk,block]
  | cons row rows ih =>
    rw [List.map_cons,walk]
    by_cases filler : row.Filler
    · have silent : ¬ row.Entry ∧ ¬ row.EndsColon := by
        obtain ⟨indent,content⟩ := row
        cases content with
        | blank => exact ⟨id,id⟩
        | comment c => exact ⟨id,id⟩
        | key name value tail => exact filler.elim
        | entry gap s tail => exact filler.elim
      have below : block top (row :: rows) = row :: block top rows := List.takeWhile_cons_of_pos (by simp [filler])
      rw [if_pos (Row.trim_filler filler),ih,below]
      simp [silent.1,silent.2]
    · obtain ⟨solid,depth,dash⟩ := Row.trim_told filler
      rw [if_neg (by rw [solid]; decide),depth]
      by_cases shallow : row.indent ≤ top
      · have above : block top (row :: rows) = [] := List.takeWhile_cons_of_neg (by simp [filler,shallow])
        rw [if_pos shallow,above]
        simp
      · have below : block top (row :: rows) = row :: block top rows := List.takeWhile_cons_of_pos (by simp [Nat.lt_of_not_le shallow])
        rw [if_neg shallow,below]
        by_cases direct : row.indent = top+2
        · by_cases entry : row.Entry
          · rw [if_pos (by rw [dash.mpr entry,decide_eq_true direct]; rfl)]
            simp [direct,entry]
          · have plain : startsWith "- ".toList (trim row.line) = false := by
              rw [Bool.eq_false_iff]
              exact fun starts => entry (dash.mp starts)
            rw [if_neg (by rw [plain]; simp),ih]
            simp [direct,entry,Row.ends_colon filler,or_assoc]
        · rw [if_neg (by simp [direct]),ih]
          simp [direct]

theorem Row.flags_key {row : Row} (flags : row.IsFlags) : ∃ value tail, row = ⟨row.indent,.key flagsName value tail⟩ := by
  obtain ⟨indent,content⟩ := row
  cases content with
  | key name value tail =>
    obtain ⟨text,filled,plain⟩ := name
    cases (show text = compileFlags from flags)
    exact ⟨value,tail,rfl⟩
  | blank => exact flags.elim
  | comment c => exact flags.elim
  | entry gap s tail => exact flags.elim

theorem structure_first {before rest : List Row} {flags : Row} (own : flags.IsFlags) (others : ∀ row ∈ before, ¬ row.IsFlags) :
    structureProblems ((before ++ flags :: rest).map Row.line) = [] ↔
      (∀ row ∈ block flags.indent rest, row.indent = flags.indent+2 → ¬ row.Entry) ∧
        ∃ row ∈ block flags.indent rest, row.indent = flags.indent+2 ∧ row.EndsColon := by
  obtain ⟨value,tail,same⟩ := Row.flags_key own
  have found : ((before ++ flags :: rest).map Row.line).findSome? compileFlagsIndent = some flags.indent := by
    rw [same]
    exact findSome_rows others flags.indent value tail rest
  have walked := walk_rows flags.indent false rest
  rw [or_iff_right Bool.false_ne_true] at walked
  rw [structureProblems,found,dropWhile_rows others own,← walked]
  dsimp only
  rw [List.drop_one,List.tail_cons,List.append_eq_nil_iff]
  refine and_congr_right fun _ => ?_
  cases (walk flags.indent false (rest.map Row.line)).2 <;> simp

theorem surveyed_iff (rows : List Row) : structureProblems (rows.map Row.line) = [] ↔ Surveyed rows := by
  constructor
  · intro clean
    cases first : rows.find? fun row => compileFlagsLine row.line with
    | none =>
      have none : (rows.map Row.line).findSome? compileFlagsIndent = none := by
        refine List.findSome?_eq_none_iff.mpr fun line member => ?_
        obtain ⟨row,inside,rfl⟩ := List.mem_map.mp member
        exact compileFlagsIndent_other fun own => List.find?_eq_none.mp first row inside ((compileFlagsLine_row row).mpr own)
      rw [structureProblems,none] at clean
      cases clean
    | some flags =>
      obtain ⟨own,before,rest,rfl,others⟩ := List.find?_eq_some_iff_append.mp first
      have own := (compileFlagsLine_row flags).mp own
      have others : ∀ row ∈ before, ¬ row.IsFlags := by
        intro row member same
        have not := others row member
        rw [(compileFlagsLine_row row).mpr same] at not
        cases not
      exact ⟨before,flags,rest,rfl,own,others,(structure_first own others).mp clean⟩
  · rintro ⟨before,flags,rest,rfl,own,others,found⟩
    exact (structure_first own others).mpr found

def quote (c : Char) : Bool := c = '"'

-- The value that is looked at of an entry without a comment.
def Scalar.looked (s : Scalar) (gap : Nat) : Text := match s.style with
  | .plain => s.text
  | .single => s.shown
  | .double => if gap = 0 then s.text else '"' :: s.text

-- A plain text that begins like an entry would be one.
theorem shown_dash (gap : Nat) (s : Scalar) (more : Text) : ¬ "- ".toList <+: blanks gap ++ s.shown ++ more := by
  rintro ⟨rest,same⟩
  cases gap with
  | succ gap => cases same
  | zero =>
    unfold Scalar.shown at same
    cases style : s.style with
    | single => rw [style] at same; cases same
    | double => rw [style] at same; cases same
    | plain =>
      rw [style] at same
      obtain ⟨_,dash,alone,_⟩ := s.plainly style
      cases text : s.text with
      | nil => exact s.filled text
      | cons c front => cases front with
        | nil =>
          rw [text] at same alone
          cases same
          exact alone rfl
        | cons d front =>
          rw [text] at same dash
          cases same
          exact absurd dash (by rw [Bool.not_eq_false,startsWith_iff]; exact ⟨front,rfl⟩)

theorem shown_stripped (gap : Nat) (s : Scalar) : stripPrefix "- ".toList (blanks gap ++ s.shown) = none := by
  cases found : stripPrefix "- ".toList (blanks gap ++ s.shown) with
  | none => rfl
  | some rest => exact absurd ⟨rest,(stripPrefix_eq found).symm.trans (List.append_nil _).symm⟩ (shown_dash gap s [])

theorem Scalar.unquoted_tight (s : Scalar) : Tight quote s.text := by
  refine ⟨fun c first => ?_,fun c last => ?_⟩
  · exact decide_eq_false (s.unquoted c (List.mem_of_mem_head? first)).1
  · exact decide_eq_false (s.unquoted c (List.mem_of_mem_getLast? last)).1

theorem looked_trim (gap : Nat) (s : Scalar) : trim (trimMatches quote (blanks gap ++ s.shown)) = s.looked gap := by
  have blank : ∀ c ∈ blanks gap, quote c = false := fun c member => by
    rw [(List.mem_replicate.mp member).2]
    decide
  have text : ∀ c ∈ s.text, quote c = false := fun c member => decide_eq_false (s.unquoted c member).1
  unfold Scalar.looked
  cases style : s.style with
  | plain =>
    have shown : s.shown = s.text := by rw [Scalar.shown,style]
    rw [shown,trimMatches_none (List.forall_mem_append.mpr ⟨blank,text⟩),trim_behind (blanks_white gap),s.trimmed.trim_eq]
  | single =>
    have plain : ∀ c ∈ s.shown, quote c = false := by
      rw [Scalar.shown,style]
      exact List.forall_mem_append.mpr ⟨List.forall_mem_cons.mpr ⟨by decide,text⟩,List.forall_mem_singleton.mpr (by decide)⟩
    rw [trimMatches_none (List.forall_mem_append.mpr ⟨blank,plain⟩),trim_behind (blanks_white gap),s.shown_trimmed.trim_eq]
  | double =>
    have shown : s.shown = '"' :: s.text ++ ['"'] := by rw [Scalar.shown,style]
    have one : ∀ c ∈ ['"'], quote c = true := List.forall_mem_singleton.mpr (by decide)
    cases gap with
    | zero =>
      have around : Around quote (blanks 0 ++ s.shown) s.text := ⟨['"'],['"'],by rw [shown]; rfl,one,one⟩
      rw [around.trimMatches_eq s.unquoted_tight s.filled,s.trimmed.trim_eq,if_pos rfl]
    | succ gap =>
      have around : Around quote (blanks (gap+1) ++ s.shown) (blanks (gap+1) ++ '"' :: s.text) :=
        ⟨[],['"'],by rw [shown,List.nil_append,List.append_assoc],fun _ no => (nomatch no),one⟩
      have tight : Tight quote (blanks (gap+1) ++ '"' :: s.text) := by
        refine ⟨fun c first => ?_,fun c last => s.unquoted_tight.2 c ?_⟩
        · cases first
          decide
        · rwa [List.getLast?_append_of_ne_nil _ (List.cons_ne_nil _ _),← List.singleton_append,List.getLast?_append_of_ne_nil _ s.filled] at last
      have left : trimEnd s.text = s.text := trimEnd_of_last s.trimmed.2
      rw [around.trimMatches_eq tight (List.append_ne_nil_of_right_ne_nil _ (List.cons_ne_nil _ _)),trim_blanks (by decide),left,if_neg (Nat.succ_ne_zero gap)]

theorem entryValue_bare (indent gap : Nat) (s : Scalar) {tail : Tail} (bare : tail.comment = none) :
    entryValue (trim (Row.mk indent (.entry gap s tail)).line) = s.looked gap := by
  have line : (Row.mk indent (.entry gap s tail)).line = blanks indent ++ (Content.core (.entry gap s tail) ++ tail.shown) := by
    rw [Row.line,Content.shown,Content.core,List.cons_append]
  have kept : tail.kept = [] := by rw [Tail.kept,bare]
  have core : Content.core (.entry gap s tail) = "- ".toList ++ (blanks gap ++ s.shown) := rfl
  rw [line,trim_tail (entry_trimmed gap s tail) (List.cons_ne_nil _ _),kept,List.append_nil,core,entryValue,
    trimStartMatches_once (by decide) (shown_stripped gap s)]
  exact looked_trim gap s

end PrincessIDE.DotClangd
