import PrincessIDE.Foundation.Columns

namespace PrincessIDE.Str
open Utf8

theorem trimStart_head (first : c ∈ (trimStart t).head?) : isWhitespace c = false := by
  have stop := List.head?_dropWhile_not isWhitespace t
  rw [show List.dropWhile isWhitespace t = trimStart t from rfl,first] at stop
  simpa using stop

theorem trimEndMatches_last (last : c ∈ (trimEndMatches p t).getLast?) : p c = false := by
  unfold trimEndMatches at last
  rw [List.getLast?_reverse] at last
  have stop := List.head?_dropWhile_not p t.reverse
  rw [last] at stop
  simpa using stop

theorem trimEndMatches_of_last (last : ∀ c ∈ t.getLast?, p c = false) : trimEndMatches p t = t := by
  cases List.eq_nil_or_concat' t with
  | inl empty => rw [empty]; rfl
  | inr split =>
    obtain ⟨front,c,rfl⟩ := split
    have stop := last c (by simp)
    simp [trimEndMatches,stop]

theorem trimEnd_last (last : c ∈ (trimEnd t).getLast?) : isWhitespace c = false := trimEndMatches_last last

theorem trimStart_of_head (first : ∀ c ∈ t.head?, isWhitespace c = false) : trimStart t = t := by
  cases t with
  | nil => rfl
  | cons c t => exact trimStart_solid (first c rfl) t

theorem trimEnd_of_last (last : ∀ c ∈ t.getLast?, isWhitespace c = false) : trimEnd t = t := trimEndMatches_of_last last

-- A text without blanks at its ends.
def Trimmed (t : Text) : Prop := (∀ c ∈ t.head?, isWhitespace c = false) ∧ ∀ c ∈ t.getLast?, isWhitespace c = false

theorem Trimmed.trim_eq (trimmed : Trimmed t) : trim t = t := by rw [trim,trimStart_of_head trimmed.1,trimEnd_of_last trimmed.2]

theorem trim_trimmed (t : Text) : Trimmed (trim t) := by
  refine ⟨fun c first => ?_,fun c last => trimEnd_last last⟩
  obtain ⟨tail,cut,_⟩ := trimEnd_cut (trimStart t)
  refine trimStart_head (t:=t) ?_
  rw [cut]
  change (trimEnd (trimStart t)).head? = _ at first
  cases front : trimEnd (trimStart t) with
  | nil => rw [front] at first; cases first
  | cons x xs => rw [front] at first; exact first

theorem trimmed_iff : Trimmed t ↔ trim t = t := ⟨Trimmed.trim_eq,fun same => same ▸ trim_trimmed t⟩

theorem trim_trim (t : Text) : trim (trim t) = trim t := (trim_trimmed t).trim_eq

theorem trim_behind (blank : ∀ c ∈ front, isWhitespace c = true) (t : Text) : trim (front ++ t) = trim t := by
  rw [trim,trim,trimStart_append blank]

theorem dropReturn_plain {t : Text} (last : t.getLast? ≠ some '\r') : dropReturn t = t := if_neg last

theorem dropReturn_ended (t : Text) : dropReturn (t ++ ['\r']) = t := by
  unfold dropReturn
  rw [List.getLast?_concat,if_pos rfl,List.dropLast_concat]

theorem trim_dropReturn (line : Text) : trim (dropReturn line) = trim line := by
  unfold dropReturn
  split
  · next last =>
    obtain ⟨front,rfl⟩ := List.getLast?_eq_some_iff.mp last
    have blank : ∀ c ∈ ['\r'], isWhitespace c = true := List.forall_mem_singleton.mpr (by decide)
    rw [List.dropLast_concat,trim_append blank]
  · rfl

theorem trim_short (t : Text) : (trim t).length ≤ t.length := by
  obtain ⟨blanks,tail,whole,_⟩ := trim_cut t
  have length := congrArg List.length whole
  simp only [List.length_append] at length
  omega

theorem trimStartRounds_other (absent : stripPrefix pat t = none) (n : Nat) : trimStartRounds pat n t = t := by
  cases n with
  | zero => rfl
  | succ n => rw [trimStartRounds,absent]

theorem trimStartMatches_other (absent : stripPrefix pat t = none) : trimStartMatches pat t = t := trimStartRounds_other absent t.length

theorem trimStartMatches_once (solid : pat ≠ []) (absent : stripPrefix pat rest = none) : trimStartMatches pat (pat ++ rest) = rest := by
  obtain ⟨n,long⟩ : ∃ n, (pat ++ rest).length = n+1 :=
    Nat.exists_eq_succ_of_ne_zero fun none => solid (List.append_eq_nil_iff.mp (List.length_eq_zero_iff.mp none)).1
  rw [trimStartMatches,long,trimStartRounds,stripPrefix_append]
  exact trimStartRounds_other absent n

theorem trim_start (t : Text) : trim (trimStart t) = trim t := by
  obtain ⟨blanks,whole,blank⟩ := trimStart_cut t
  have same := trim_behind blank (trimStart t)
  rwa [← whole,eq_comm] at same

theorem trimStart_ahead (solid : isWhitespace c = false) (a b : Text) : trimStart (a ++ c :: b) = trimStart a ++ c :: b := by
  by_cases blank : ∀ c ∈ a, isWhitespace c = true
  · rw [trimStart_append blank,trimStart_solid solid,show trimStart a = [] from List.dropWhile_eq_nil_iff.mpr blank]
    rfl
  · unfold trimStart
    rw [List.dropWhile_append,if_neg]
    rw [List.isEmpty_iff,List.dropWhile_eq_nil_iff]
    exact blank

theorem trim_keeps (solid : isWhitespace c = false) (inside : c ∈ t) : c ∈ trim t := by
  obtain ⟨front,rest,rfl⟩ := List.append_of_mem inside
  rw [trim,trimStart_ahead solid,trimEnd_behind solid]
  simp

-- The characters of a text that are no blanks.
def solids (t : Text) : Text := t.filter fun c => !isWhitespace c

theorem solids_append (a b : Text) : solids (a ++ b) = solids a ++ solids b := List.filter_append a b

theorem solids_nil : solids t = [] ↔ ∀ c ∈ t, isWhitespace c = true := by
  unfold solids
  rw [List.filter_eq_nil_iff]
  simp

theorem solids_trim (t : Text) : solids (trim t) = solids t := by
  obtain ⟨blanks,front,blank⟩ := trimStart_cut t
  obtain ⟨tail,back,white⟩ := trimEnd_cut (trimStart t)
  have whole : t = blanks ++ (trim t ++ tail) := front.trans (congrArg (blanks ++ ·) back)
  have both := congrArg solids whole
  rw [solids_append,solids_append,solids_nil.mpr blank,solids_nil.mpr white,List.nil_append,List.append_nil] at both
  exact both.symm

theorem trim_solids (t : Text) : trim t = [] ↔ solids t = [] := by
  rw [← solids_trim]
  refine ⟨fun empty => by rw [empty]; rfl,fun none => ?_⟩
  cases text : trim t with
  | nil => rfl
  | cons c rest =>
    have solid : isWhitespace c = false := (trim_trimmed t).1 c (by rw [text]; rfl)
    rw [text,solids,List.filter_cons_of_pos (by simp [solid])] at none
    cases none

theorem words_flatten (word t : Text) : (words word t).flatten = word ++ solids t := by
  induction t generalizing word with
  | nil =>
    rw [words]
    split
    · next empty => rw [empty]; rfl
    · rw [List.flatten_singleton]
      exact (List.append_nil word).symm
  | cons c t ih =>
    rw [words]
    by_cases blank : isWhitespace c = true
    · have gone : solids (c :: t) = solids t := List.filter_cons_of_neg (by simpa using blank)
      rw [if_pos blank,gone]
      split
      · next empty => rw [ih,empty]
      · rw [List.flatten_cons,ih,List.nil_append]
    · have kept : solids (c :: t) = c :: solids t := List.filter_cons_of_pos (by simpa using blank)
      rw [if_neg blank,ih,kept,List.append_assoc,List.singleton_append]

theorem words_filled (member : w ∈ words acc t) : w ≠ [] := by
  induction t generalizing acc with
  | nil =>
    rw [words] at member
    split at member
    · cases member
    · next filled => exact List.mem_singleton.mp member ▸ filled
  | cons c t ih =>
    rw [words] at member
    split at member
    · split at member
      · exact ih member
      · next filled =>
        rcases List.mem_cons.mp member with rfl | later
        · exact filled
        · exact ih later
    · exact ih member

end PrincessIDE.Str
