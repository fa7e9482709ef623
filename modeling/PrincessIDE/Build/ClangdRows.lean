import PrincessIDE.Build.ClangdDoc

namespace PrincessIDE.DotClangd
open Utf8 (Text)
open Str

theorem blanks_white (n : Nat) : ∀ c ∈ blanks n, isWhitespace c = true := by
  intro c member
  rw [(List.mem_replicate.mp member).2]
  decide

theorem byteLen_append (a b : Text) : byteLen (a ++ b) = byteLen a + byteLen b := by
  rw [byteLen,List.map_append,List.sum_append]
  rfl

theorem byteLen_blanks (n : Nat) : byteLen (blanks n) = n := by
  rw [byteLen,blanks,List.map_replicate,List.sum_replicate_nat]
  exact Nat.mul_one n

theorem trimStart_blanks (solid : isWhitespace c = false) (n : Nat) (t : Text) : trimStart (blanks n ++ c :: t) = c :: t := by
  rw [trimStart_append (blanks_white n),trimStart_solid solid]

theorem trim_blanks (solid : isWhitespace c = false) (n : Nat) (t : Text) : trim (blanks n ++ c :: t) = c :: trimEnd t := by
  rw [trim,trimStart_blanks solid]
  exact trimEnd_behind solid [] t

theorem indentOf_blanks (solid : isWhitespace c = false) (n : Nat) (t : Text) : indentOf (blanks n ++ c :: t) = n := by
  rw [indentOf,trimStart_blanks solid,byteLen_append,byteLen_blanks,Nat.add_sub_cancel_right]

theorem startsWith_apart (apart : c ≠ d) (pat t : Text) : startsWith (c :: pat) (d :: t) = false := by
  rw [startsWith,stripPrefix,if_neg apart]
  rfl

theorem compileFlagsLine_blanks (solid : isWhitespace c = false) (apart : c ≠ 'C') (n : Nat) (t : Text) :
    compileFlagsLine (blanks n ++ c :: t) = false := by
  rw [compileFlagsLine,trimStart_blanks solid]
  have other : startsWith "CompileFlags:".toList (c :: t) = false := startsWith_apart apart.symm _ _
  rw [other,Bool.false_and]

-- What a row's line begins with, and what that says of it.
theorem Name.first (name : Name) : ∃ c rest, name.text = c :: rest ∧ isWhitespace c = false ∧ c ≠ '#' ∧ c ≠ '-' := by
  obtain ⟨c,rest,cut⟩ := List.exists_cons_of_ne_nil name.filled
  have plain := name.plain c (by rw [cut]; exact List.mem_cons_self)
  exact ⟨c,rest,cut,plain.1,plain.2.2.1,plain.2.2.2⟩

theorem startsWith_name (plain : ':' ∉ name) (rest : Text) : startsWith "CompileFlags:".toList (name ++ ':' :: rest) = true ↔ name = compileFlags := by
  have whole : "CompileFlags:".toList = compileFlags ++ [':'] := rfl
  rw [startsWith_iff,whole]
  constructor
  · rintro ⟨more,same⟩
    rw [List.append_assoc,List.singleton_append] at same
    have cut := congrArg (splitOnce [':']) same
    rw [splitOnce_char (by decide),splitOnce_char plain] at cut
    exact (Prod.mk.inj (Option.some.inj cut)).1.symm
  · rintro rfl
    exact ⟨rest,by rw [List.append_assoc,List.singleton_append]⟩

theorem Name.uncut (name : Name) : ':' ∉ name.text := fun inside => (name.plain ':' inside).2.1 rfl

theorem compileFlagsLine_key (n : Nat) (name : Name) (rest : Text) :
    compileFlagsLine (blanks n ++ (name.text ++ ':' :: rest)) = true ↔ name.text = compileFlags := by
  obtain ⟨c,more,cut,solid,hash,_⟩ := name.first
  have start : trimStart (blanks n ++ (name.text ++ ':' :: rest)) = name.text ++ ':' :: rest := by
    rw [cut]
    exact trimStart_blanks solid n _
  have plain : startsWith ['#'] (name.text ++ ':' :: rest) = false := by
    rw [cut]
    exact startsWith_apart hash.symm [] _
  rw [compileFlagsLine,start,plain,Bool.not_false,Bool.and_true,startsWith_name name.uncut]

theorem compileFlagsLine_row (row : Row) : compileFlagsLine row.line = true ↔ row.IsFlags := by
  obtain ⟨indent,content⟩ := row
  cases content with
  | blank =>
    have empty : trimStart (Row.mk indent .blank).line = [] := by
      rw [Row.line,Content.shown,List.append_nil]
      exact List.dropWhile_eq_nil_iff.mpr (blanks_white indent)
    rw [compileFlagsLine,empty]
    exact ⟨fun no => absurd no (by decide),False.elim⟩
  | comment c => exact ⟨fun no => absurd no (by rw [Row.line,Content.shown,compileFlagsLine_blanks (by decide) (by decide)]; decide),False.elim⟩
  | key name value tail => exact compileFlagsLine_key indent name _
  | entry gap s tail => exact ⟨fun no => absurd no (by rw [Row.line,Content.shown,compileFlagsLine_blanks (by decide) (by decide)]; decide),False.elim⟩

theorem trimEnd_key (n : Nat) (name : Name) (rest : Text) :
    trimEnd (blanks n ++ (name.text ++ ':' :: rest)) = blanks n ++ (name.text ++ ':' :: trimEnd rest) := by
  rw [← List.append_assoc,trimEnd_behind (by decide),List.append_assoc]

theorem compileFlagsIndent_other {row : Row} (other : ¬ row.IsFlags) : compileFlagsIndent row.line = none := by
  refine if_neg fun flags => other ?_
  obtain ⟨indent,content⟩ := row
  cases content with
  | blank =>
    have empty : trimEnd (Row.mk indent .blank).line = [] := by
      rw [Row.line,Content.shown,List.append_nil]
      exact trimEnd_append (blanks_white indent) []
    rw [empty] at flags
    exact absurd flags (by decide)
  | comment c =>
    rw [Row.line,Content.shown,trimEnd_behind (by decide),compileFlagsLine_blanks (by decide) (by decide)] at flags
    cases flags
  | key name value tail =>
    rw [Row.line,Content.shown,trimEnd_key] at flags
    exact (compileFlagsLine_key indent name _).mp flags
  | entry gap s tail =>
    rw [Row.line,Content.shown,trimEnd_behind (by decide),compileFlagsLine_blanks (by decide) (by decide)] at flags
    cases flags

theorem compileFlagsIndent_flags (indent : Nat) (value : Value) (tail : Tail) :
    compileFlagsIndent (Row.mk indent (.key flagsName value tail)).line = some indent := by
  rw [Row.line,Content.shown,compileFlagsIndent,trimEnd_key,if_pos ((compileFlagsLine_key indent flagsName _).mpr rfl)]
  exact congrArg some (indentOf_blanks (by decide) indent _)

theorem findSome_rows {before : List Row} (others : ∀ row ∈ before, ¬ row.IsFlags) (indent : Nat) (value : Value) (tail : Tail) (rest : List Row) :
    ((before ++ ⟨indent,.key flagsName value tail⟩ :: rest).map Row.line).findSome? compileFlagsIndent = some indent := by
  induction before with
  | nil => rw [List.nil_append,List.map_cons,List.findSome?_cons,compileFlagsIndent_flags]
  | cons row before ih =>
    rw [List.cons_append,List.map_cons,List.findSome?_cons,compileFlagsIndent_other (others row List.mem_cons_self)]
    exact ih fun other member => others other (List.mem_cons_of_mem _ member)

theorem dropWhile_rows {before : List Row} (others : ∀ row ∈ before, ¬ row.IsFlags) (flags : row.IsFlags) (rest : List Row) :
    ((before ++ row :: rest).map Row.line).dropWhile (fun line => !compileFlagsLine line) = row.line :: rest.map Row.line := by
  rw [List.map_append,List.map_cons]
  refine dropWhile_ahead (fun line member => ?_) ?_ _
  · obtain ⟨other,inside,rfl⟩ := List.mem_map.mp member
    rw [Bool.not_eq_true',Bool.eq_false_iff]
    exact fun found => others other inside ((compileFlagsLine_row other).mp found)
  · rw [(compileFlagsLine_row row).mpr flags]
    rfl

-- What the walk sees of a row.
theorem Row.trim_filler {row : Row} (filler : row.Filler) : (trim row.line = [] || startsWith ['#'] (trim row.line)) = true := by
  obtain ⟨indent,content⟩ := row
  cases content with
  | blank =>
    have empty : trim (Row.mk indent .blank).line = [] := by
      rw [Row.line,Content.shown,List.append_nil]
      exact trim_append (blanks_white indent) []
    rw [empty]
    rfl
  | comment c =>
    rw [Row.line,Content.shown,trim_blanks (by decide)]
    rfl
  | key name value tail => exact filler.elim
  | entry gap s tail => exact filler.elim

theorem Row.trim_key {row : Row} (key : row.IsKey) : (trim row.line = [] || startsWith ['#'] (trim row.line)) = false ∧ indentOf row.line = row.indent := by
  obtain ⟨indent,content⟩ := row
  cases content with
  | key name value tail =>
    obtain ⟨c,more,cut,solid,hash,_⟩ := name.first
    rw [Row.line,Content.shown,cut]
    refine ⟨?_,indentOf_blanks solid indent _⟩
    rw [show (c :: more ++ ':' :: (value.shown ++ tail.shown)) = c :: (more ++ ':' :: (value.shown ++ tail.shown)) from rfl,trim_blanks solid,
      startsWith_apart hash.symm]
    rfl
  | blank => exact key.elim
  | comment c => exact key.elim
  | entry gap s tail => exact key.elim

theorem Scalar.first (s : Scalar) : ∃ c rest, s.shown = c :: rest ∧ isWhitespace c = false := by
  unfold Scalar.shown
  obtain ⟨c,rest,cut⟩ := List.exists_cons_of_ne_nil s.filled
  cases s.style with
  | plain => exact ⟨c,rest,cut,s.trimmed.1 c (by rw [cut]; rfl)⟩
  | single => exact ⟨'\'',_,rfl,by decide⟩
  | double => exact ⟨'"',_,rfl,by decide⟩

-- An entry's line, without what is trimmed off.
theorem entry_trim (indent gap : Nat) (s : Scalar) (tail : Tail) : ∃ rest white, trim (Row.mk indent (.entry gap s tail)).line = "- ".toList ++ rest ∧
    blanks gap ++ s.shown ++ tail.shown = rest ++ white ∧ ∀ c ∈ white, isWhitespace c = true := by
  obtain ⟨c,more,cut,solid⟩ := s.first
  obtain ⟨white,whole,blank⟩ := trimEnd_cut (more ++ tail.shown)
  refine ⟨blanks gap ++ c :: trimEnd (more ++ tail.shown),white,?_,?_,blank⟩
  · have shown : Content.shown (.entry gap s tail) = '-' :: ((' ' :: blanks gap) ++ c :: (more ++ tail.shown)) := by
      rw [Content.shown,cut]
      simp only [blanks,List.replicate_succ,List.append_assoc,List.cons_append]
    rw [Row.line,shown,trim_blanks (by decide),trimEnd_behind solid]
    rfl
  · rw [cut,List.append_assoc,List.append_assoc,List.cons_append,List.cons_append,← whole]

theorem Row.trim_entry {row : Row} (entry : row.Entry) : (trim row.line = [] || startsWith ['#'] (trim row.line)) = false ∧
    indentOf row.line = row.indent ∧ startsWith "- ".toList (trim row.line) = true := by
  obtain ⟨indent,content⟩ := row
  cases content with
  | entry gap s tail =>
    obtain ⟨rest,white,shape,_⟩ := entry_trim indent gap s tail
    rw [shape]
    exact ⟨rfl,indentOf_blanks (by decide) indent _,rfl⟩
  | blank => exact entry.elim
  | comment c => exact entry.elim
  | key name value tail => exact entry.elim

-- Where only entries stand under the key no child key is seen: the walk ends at
-- the next key that is not deeper, if not before.
theorem walk_flat {top : Nat} {rows after : List Row} (flat : ∀ row ∈ rows, row.Filler ∨ row.Entry)
    (next : ∀ row ∈ after.head?, row.IsKey ∧ row.indent = top) : (walk top false ((rows ++ after).map Row.line)).2 = false := by
  induction rows with
  | nil =>
    cases after with
    | nil => rfl
    | cons row after =>
      obtain ⟨key,level⟩ := next row rfl
      obtain ⟨solid,depth⟩ := Row.trim_key key
      rw [List.nil_append,List.map_cons,walk]
      rw [if_neg (by rw [solid]; decide),if_pos (by rw [depth]; exact level.le)]
  | cons row rows ih =>
    have later := ih fun other member => flat other (List.mem_cons_of_mem _ member)
    rw [List.cons_append,List.map_cons,walk]
    rcases flat row List.mem_cons_self with filler | entry
    · rw [if_pos (Row.trim_filler filler)]
      exact later
    · obtain ⟨solid,depth,dash⟩ := Row.trim_entry entry
      rw [if_neg (by rw [solid]; decide),depth,dash]
      by_cases shallow : row.indent ≤ top
      · rw [if_pos shallow]
      · rw [if_neg shallow]
        by_cases direct : row.indent = top+2
        · rw [if_pos (by simp [direct])]
        · rw [if_neg (by simp [direct]),decide_eq_false direct,Bool.false_and,Bool.false_or]
          exact later

-- No line break is written into a row.
def InLine (t : Text) : Prop := ∀ c ∈ t, c ≠ '\n' ∧ c ≠ '\r'

theorem nil_inLine : InLine [] := fun _ no => (nomatch no)

theorem InLine.append (one : InLine a) (two : InLine b) : InLine (a ++ b) := by
  intro c member
  exact (List.mem_append.mp member).elim (one c) (two c)

theorem InLine.cons (apart : c ≠ '\n' ∧ c ≠ '\r') (rest : InLine t) : InLine (c :: t) := by
  intro d member
  rcases List.mem_cons.mp member with rfl | later
  · exact apart
  · exact rest d later

theorem blanks_inLine (n : Nat) : InLine (blanks n) := by
  intro c member
  rw [(List.mem_replicate.mp member).2]
  decide

theorem Scalar.inLine (s : Scalar) : InLine s.shown := by
  unfold Scalar.shown
  cases s.style with
  | plain => exact s.line
  | single => exact .cons (by decide) (InLine.append s.line (.cons (by decide) nil_inLine))
  | double => exact .cons (by decide) (InLine.append s.line (.cons (by decide) nil_inLine))

theorem Tail.inLine (tail : Tail) : InLine tail.shown := by
  unfold Tail.shown
  refine (blanks_inLine _).append ?_
  split
  · exact nil_inLine
  · next c _ => exact .cons (by decide) (.cons (by decide) c.line)

theorem Item.inLine (item : Item) : InLine item.shown := ((blanks_inLine _).append item.scalar.inLine).append (blanks_inLine _)

theorem intercalate_inLine {parts : List Text} (each : ∀ part ∈ parts, InLine part) : InLine ([','].intercalate parts) := by
  induction parts with
  | nil => exact nil_inLine
  | cons part parts ih =>
    have later := ih fun other member => each other (List.mem_cons_of_mem _ member)
    cases parts with
    | nil =>
      rw [List.intercalate_singleton]
      exact each part List.mem_cons_self
    | cons next parts =>
      rw [List.intercalate_cons_cons]
      exact ((each part List.mem_cons_self).append (.cons (by decide) nil_inLine)).append later

theorem Value.inLine (value : Value) : InLine value.shown := by
  cases value with
  | none => exact nil_inLine
  | scalar gap s => exact (blanks_inLine _).append s.inLine
  | inline gap items =>
    have listed : ∀ part ∈ items.map Item.shown, InLine part := by
      intro part member
      obtain ⟨item,_,rfl⟩ := List.mem_map.mp member
      exact item.inLine
    rw [Value.shown]
    exact ((blanks_inLine _).append (.cons (by decide) (intercalate_inLine listed))).append (.cons (by decide) nil_inLine)

theorem Row.inLine (row : Row) : InLine row.line := by
  refine (blanks_inLine _).append ?_
  cases row.content with
  | blank => exact nil_inLine
  | comment c => exact .cons (by decide) c.line
  | key name value tail =>
    have named : InLine name.text := by
      intro c member
      have solid := (name.plain c member).1
      constructor
      all_goals
        rintro rfl
        exact absurd solid (by decide)
    exact named.append (.cons (by decide) (value.inLine.append tail.inLine))
  | entry gap s tail => exact .cons (by decide) (((blanks_inLine _).append s.inLine).append tail.inLine)

-- The lines of a file are those of its rows.
theorem lines_text (doc : Doc) : lines doc.text = doc.rows.map Row.line := by
  have plain : ∀ row ∈ doc.rows, '\n' ∉ row.line ++ if doc.crlf then ['\r'] else [] := by
    intro row _ inside
    rcases List.mem_append.mp inside with here | ending
    · exact (row.inLine _ here).1 rfl
    · split at ending
      · exact absurd (List.mem_singleton.mp ending) (by decide)
      · cases ending
  have cut := lines_flatten plain
  have same : doc.text = doc.rows.flatMap fun row => (row.line ++ if doc.crlf then ['\r'] else []) ++ ['\n'] := by
    unfold Doc.text Doc.ending
    cases doc.crlf <;> simp
  rw [same,cut]
  refine List.map_congr_left fun row _ => ?_
  split
  · exact dropReturn_ended row.line
  · rw [List.append_nil]
    exact dropReturn_plain fun last => (row.inLine _ (List.mem_of_getLast? last)).2 rfl

end PrincessIDE.DotClangd
