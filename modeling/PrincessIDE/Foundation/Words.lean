import PrincessIDE.Foundation.Str

namespace PrincessIDE.Str
open Utf8

theorem words_gap (blank : isWhitespace c = true) (a b : Text) : words acc (a ++ c :: b) = words acc a ++ words [] b := by
  induction a generalizing acc with
  | nil => by_cases bare : acc = [] <;> simp [words,blank,bare]
  | cons x a ih =>
    rw [List.cons_append,words,words]
    split
    · split <;> simp [ih]
    · exact ih

theorem words_word (solid : ∀ c ∈ a, isWhitespace c = false) (filled : acc ++ a ≠ []) (blank : isWhitespace b = true) (t : Text) :
    words acc (a ++ b :: t) = (acc ++ a) :: words [] t := by
  rw [words_gap blank,words_solid solid filled]
  rfl

-- Words as they follow another one on a line.
def following (row : List Text) : Text := row.flatMap (' ' :: ·)

theorem words_following (solid : ∀ c ∈ w, isWhitespace c = false) (filled : w ≠ [])
    (each : ∀ v ∈ row, v ≠ [] ∧ ∀ c ∈ v, isWhitespace c = false) : splitWhitespace (w ++ following row) = w :: row := by
  have blank : isWhitespace ' ' = true := by decide
  induction row generalizing w with
  | nil =>
    rw [following,List.flatMap_nil,List.append_nil]
    have some : [] ++ w ≠ [] := filled
    exact words_solid solid some
  | cons v row ih =>
    obtain ⟨first,later⟩ := List.forall_mem_cons.mp each
    have some : [] ++ w ≠ [] := filled
    rw [following,List.flatMap_cons,List.cons_append,splitWhitespace,words_word solid some blank,List.nil_append]
    exact congrArg (w :: ·) (ih first.2 first.1 later)

-- A pattern without `c` never reaches across one.
theorem splitOnce_gap (gap : c ∉ pat) (absent : splitOnce pat a = none) (b : Text) :
    splitOnce pat (a ++ c :: b) = (splitOnce pat b).map fun found => (a ++ c :: found.1,found.2) := by
  have some : pat ≠ [] := by
    rintro rfl
    cases a <;> simp [splitOnce,stripPrefix] at absent
  induction a with
  | nil =>
    have off : stripPrefix pat (c :: b) = none := by
      cases found : stripPrefix pat (c :: b) with
      | none => rfl
      | some rest =>
        cases pat with
        | nil => exact absurd rfl some
        | cons p pat =>
          obtain ⟨rfl,_⟩ := List.cons.inj (stripPrefix_eq found)
          exact absurd List.mem_cons_self gap
    rw [List.nil_append,splitOnce,off]
    rfl
  | cons x a ih =>
    obtain ⟨here,later⟩ := splitOnce_quiet absent
    have off : stripPrefix pat (x :: a ++ c :: b) = none := by
      cases found : stripPrefix pat (x :: a ++ c :: b) with
      | none => rfl
      | some rest =>
        rcases List.append_eq_append_iff.mp (stripPrefix_eq found) with ⟨more,split,cut⟩ | ⟨more,split,_⟩
        · cases more with
          | nil =>
            rw [split,List.append_nil] at here
            have whole := stripPrefix_append (x :: a) []
            rw [List.append_nil,here] at whole
            cases whole
          | cons d more =>
            obtain ⟨rfl,_⟩ := List.cons.inj cut
            exact absurd (split ▸ by simp) gap
        · rw [split,stripPrefix_append] at here
          cases here
    rw [List.cons_append] at off ⊢
    rw [splitOnce,off,ih later]
    simp [Function.comp_def]

theorem splitOnce_following (gap : ' ' ∉ pat) (absent : splitOnce pat a = none) (each : ∀ v ∈ row, splitOnce pat v = none) :
    splitOnce pat (a ++ following row) = none := by
  induction row generalizing a with
  | nil => rwa [following,List.flatMap_nil,List.append_nil]
  | cons v row ih =>
    obtain ⟨first,later⟩ := List.forall_mem_cons.mp each
    have tail : splitOnce pat (v ++ following row) = none := ih first later
    rw [following,List.flatMap_cons,List.cons_append,splitOnce_gap gap absent]
    exact congrArg (Option.map _) tail

-- `%0*lx`
def padded (width n : Nat) : Text := (Nat.toDigits 16 n).leftpad width '0'

theorem padded_filled (width n : Nat) : padded width n ≠ [] := by
  simp [padded,List.leftpad,Nat.toDigits_ne_nil]

theorem readDigits_padded (small : n < bound) (width : Nat) : readDigits 16 bound 0 (padded width n) = some n := by
  rw [padded,List.leftpad,readDigits_zeros (by decide) (by decide) (by omega)]
  exact readDigits_toDigits (by decide) (by decide) small

theorem readDigits_hex (read : readDigits 16 bound v t = some n) (member : c ∈ t) : isHexDigit c = true := by
  induction t generalizing v with
  | nil => cases member
  | cons d t ih =>
    rw [readDigits] at read
    split at read
    · cases read
    · rename_i value
      split at read
      · rcases List.mem_cons.mp member with rfl | later
        · rw [isHexDigit,value]
          rfl
        · exact ih read later
      · cases read

theorem padded_hex (member : c ∈ padded width n) : isHexDigit c = true :=
  readDigits_hex (readDigits_padded (Nat.lt_succ_self n) width) member

theorem fromStrRadix_padded (small : n < bound) (width : Nat) : fromStrRadix 16 bound (padded width n) = some n := by
  have read := readDigits_padded small width
  cases digits : padded width n with
  | nil => exact absurd digits (padded_filled width n)
  | cons c rest =>
    have hex : isHexDigit c = true := padded_hex (digits ▸ List.mem_cons_self)
    rw [digits] at read
    rw [fromStrRadix,if_neg (hexDigit_plain hex).2.2.1,read]

end PrincessIDE.Str
