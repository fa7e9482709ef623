import PrincessIDE.Bin.InfoTlb

namespace PrincessIDE.Monitor
open Utf8 Str
open Memory (U64)

def permissionText (range : InfoMemRange) : Text :=
  [if range.user then 'u' else '-',if range.readable then 'r' else '-',if range.writable then 'w' else '-']

-- The fields of a row, whatever its permissions are.
def Fields (line flags : Text) (range : InfoMemRange) : Prop := isAscii (trim line) = true ∧ ∃ first last size,
  splitWhitespace (trim line) = [first ++ '-' :: last,size,flags] ∧ Hex first range.start ∧ Hex last range.stop ∧ Hex size range.size

def MemRow (line : Text) (range : InfoMemRange) : Prop := Fields line (permissionText range) range

def IsRow (line : Text) : Prop := ∃ range, MemRow line range

-- A row but for its permissions: three characters that are not the letters of
-- their places.
def Misflagged (line : Text) : Prop := ∃ flags range, Fields line flags range ∧ flags.length = 3 ∧ ∀ other, flags ≠ permissionText other

def MessageOnly (text : Text) : Prop := (solidLines text).map trim = [pgDisabled]

structure MemExact (quoted : Text → Text) (text : Text) : Prop where
  accepts : ∀ ranges, parseInfoMem quoted text = .ok ranges ↔
    (MessageOnly text ∧ ranges = []) ∨ List.Forall₂ MemRow (solidLines text) ranges
  refuses : ∀ e, parseInfoMem quoted text = .error e → NamesFirst IsRow trim text e

-- The first line that is no row, if there is one, is one that is refused, or the
-- message and nothing else.
def FirstRefused (text : Text) : Prop := ∀ before line later, solidLines text = before ++ line :: later → (∀ row ∈ before, IsRow row) →
  ¬ Misflagged line ∧ (trim line = pgDisabled → before = [] ∧ later = [])

theorem mem_words (field : w ∈ words acc t) (member : c ∈ w) : c ∈ acc ++ t := by
  induction t generalizing acc with
  | nil =>
    simp only [words] at field
    split at field
    · cases field
    · rw [List.mem_singleton.mp field] at member
      simpa using member
  | cons x t ih =>
    simp only [words] at field
    split at field
    · split at field
      · have later := ih field
        exact List.mem_append_right _ (List.mem_cons_of_mem _ (by simpa using later))
      · rcases List.mem_cons.mp field with rfl | further
        · exact List.mem_append_left _ member
        · have later := ih further
          exact List.mem_append_right _ (List.mem_cons_of_mem _ (by simpa using later))
    · simpa using ih field

theorem ascii_length (ascii : isAscii line = true) (field : w ∈ splitWhitespace line) : (encode w).length = w.length := by
  rw [encode_ascii,List.length_map]
  intro c member
  have inside : c ∈ line := by simpa using mem_words field member
  exact of_decide_eq_true (List.all_eq_true.mp ascii c inside)

theorem hex_dashless (hex : Hex t n) : '-' ∉ t := by
  intro inside
  cases hex_digits hex inside

theorem memFlags_text (range : InfoMemRange) : memFlags (permissionText range) = (range.user,range.readable,range.writable) := by
  obtain ⟨start,stop,size,user,readable,writable⟩ := range
  cases user <;> cases readable <;> cases writable <;> rfl

theorem message_fields : splitWhitespace pgDisabled = ["PG".toList,"disabled".toList] := by decide

theorem readMem_iff (quoted : Text → Text) (line : Text) (range : InfoMemRange) : readMem quoted line = .entry range ↔
    ∃ flags, Fields line flags range ∧ flags.length = 3 ∧ memFlags flags = (range.user,range.readable,range.writable) := by
  constructor
  · intro read
    unfold readMem at read
    dsimp only at read
    split at read
    · cases read
    split at read
    · cases read
    rename_i ascii
    split at read
    · cases read
    rename_i short
    split at read
    · cases read
    rename_i startText endText cut
    split at read
    · rename_i start stop one two
      split at read
      · cases read
      rename_i size third
      split at read
      · cases read
      rename_i flags found
      split at read
      · cases read
      rename_i three
      cases read
      have ascii : isAscii (trim line) = true := by simpa using ascii
      obtain ⟨sizeText,second,value⟩ := Option.bind_eq_some_iff.mp third
      have filled : splitWhitespace (trim line) ≠ [] := by
        intro none
        rw [none] at second
        cases second
      obtain ⟨range,rest,shape⟩ := List.exists_cons_of_ne_nil filled
      have whole := three_fields (by rw [shape]; rfl) second found short
      rw [shape] at cut
      have joined : range = startText ++ ['-'] ++ endText := splitOnce_eq cut
      have fields : splitWhitespace (trim line) = [startText ++ '-' :: endText,sizeText,flags] := by
        rw [whole,joined]
        simp
      have member : flags ∈ splitWhitespace (trim line) := by simp [fields]
      refine ⟨flags,⟨ascii,startText,endText,sizeText,fields,(parseHexU64_iff _ _).mp one,(parseHexU64_iff _ _).mp two,
        (parseHexU64_iff _ _).mp value⟩,?_,rfl⟩
      rw [← ascii_length ascii member]
      exact not_not.mp three
    · cases read
  · rintro ⟨flags,⟨ascii,first,last,size,fields,one,two,value⟩,three,bits⟩
    have other : trim line ≠ pgDisabled := by
      intro same
      rw [same] at fields
      exact absurd (congrArg List.length fields) (by rw [message_fields]; simp)
    have member : flags ∈ splitWhitespace (trim line) := by simp [fields]
    have size := ascii_length ascii member
    have dash := splitOnce_char (hex_dashless one) last
    unfold readMem
    dsimp only
    rw [if_neg other,if_neg (by simp [ascii]),fields]
    simp [dash,(parseHexU64_iff _ _).mpr one,(parseHexU64_iff _ _).mpr two,(parseHexU64_iff _ _).mpr value,size,three,bits]

theorem row_entry (quoted : Text → Text) (row : MemRow line range) : readMem quoted line = .entry range :=
  (readMem_iff quoted line range).mpr ⟨permissionText range,row,rfl,memFlags_text range⟩

theorem readMem_off (quoted : Text → Text) : readMem quoted line = .pagingOff ↔ trim line = pgDisabled := by
  constructor
  · intro read
    unfold readMem at read
    dsimp only at read
    split at read
    · assumption
    · repeat' split at read
      all_goals cases read
  · intro message
    unfold readMem
    dsimp only
    rw [if_pos message]

theorem readMem_shown (refused : readMem quoted line = .refused shown reason) : shown = trim line := by
  unfold readMem at refused
  dsimp only at refused
  repeat' split at refused
  all_goals cases refused
  all_goals rfl

-- What is taken in and is no row has the wrong letters.
theorem entry_misflagged (entry : readMem quoted line = .entry range) (other : ¬ IsRow line) : Misflagged line := by
  obtain ⟨flags,fields,three,bits⟩ := (readMem_iff quoted line range).mp entry
  refine ⟨flags,range,fields,three,fun whole same => other ⟨range,?_⟩⟩
  have agree : permissionText whole = permissionText range := by
    rw [same,memFlags_text] at bits
    obtain ⟨user,rest⟩ := Prod.mk.inj bits
    obtain ⟨readable,writable⟩ := Prod.mk.inj rest
    rw [permissionText,permissionText,user,readable,writable]
  rw [same,agree] at fields
  exact fields

theorem misflagged_entry (quoted : Text → Text) (wrong : Misflagged line) : ∃ range, readMem quoted line = .entry range := by
  obtain ⟨flags,range,fields,three,_⟩ := wrong
  refine ⟨⟨range.start,range.stop,range.size,(memFlags flags).1,(memFlags flags).2.1,(memFlags flags).2.2⟩,?_⟩
  exact (readMem_iff quoted line _).mpr ⟨flags,fields,three,rfl⟩

theorem misflagged_other (wrong : Misflagged line) : ¬ IsRow line := by
  obtain ⟨flags,range,⟨_,first,last,size,fields,_⟩,_,none⟩ := wrong
  rintro ⟨row,_,first',last',size',fields',_⟩
  rw [fields] at fields'
  simp only [List.cons.injEq] at fields'
  exact none row fields'.2.2.1

theorem message_other (message : trim line = pgDisabled) : ¬ IsRow line := by
  rintro ⟨range,row⟩
  cases ((readMem_off id).mpr message).symm.trans (row_entry id row)

theorem solid_cut (cut : linesWithOffsets text = linesWithOffsets front ++ (number,offset,line) :: later) (filled : ¬ Blank line) :
    solidLines text = solidLines front ++ line :: solid later := by
  rw [solidLines,cut,solid_append,solid_cons filled]
  rfl

theorem entries_rows (entries : List.Forall₂ (fun line range => readMem quoted line = .entry range) texts ranges)
    (rows : ∀ line ∈ texts, IsRow line) : List.Forall₂ MemRow texts ranges := by
  induction entries with
  | nil => exact .nil
  | cons entry _ ih =>
    obtain ⟨range,row⟩ := rows _ List.mem_cons_self
    cases entry.symm.trans (row_entry quoted row)
    exact .cons row (ih fun line member => rows line (List.mem_cons_of_mem _ member))

-- Where the first line that is no row is refused, what is taken in are rows.
theorem refused_rows (clean : FirstRefused text) (cut : solidLines text = texts ++ rest)
    (entries : List.Forall₂ (fun line range => readMem quoted line = .entry range) texts ranges) : ∀ line ∈ texts, IsRow line := by
  by_contra failing
  obtain ⟨before,line,later,rfl,rows,other⟩ := first_exists failing
  obtain ⟨range,_,entry⟩ := forall₂_left entries (List.mem_append_right before List.mem_cons_self)
  exact (clean before line (later++rest) (by rw [cut]; simp) rows).1 (entry_misflagged entry other)

theorem parse_message (quoted : Text → Text) (message : MessageOnly text) : parseInfoMem quoted text = .ok [] := by
  have inside : ∀ line ∈ solidLines text, trim line = pgDisabled := by
    intro line member
    have there : trim line ∈ (solidLines text).map trim := List.mem_map_of_mem member
    rw [message] at there
    exact List.mem_singleton.mp there
  rcases readLines_cases "info mem".toList (readMem quoted) text with ⟨ranges,_,entries⟩ |
    ⟨front,number,offset,line,later,cut,_,filled,_,⟨_,answer⟩ | ⟨shown,reason,refused,_⟩⟩
  · obtain ⟨line,_⟩ := List.map_eq_singleton_iff.mp message
    have member : line ∈ solidLines text := by simp_all
    obtain ⟨range,_,entry⟩ := forall₂_left entries member
    cases entry.symm.trans ((readMem_off quoted).mpr (inside line member))
  · exact answer
  · have member : line ∈ solidLines text := by rw [solid_cut cut filled]; simp
    cases refused.symm.trans ((readMem_off quoted).mpr (inside line member))

theorem parse_rows (quoted : Text → Text) (rows : List.Forall₂ MemRow (solidLines text) ranges) : parseInfoMem quoted text = .ok ranges :=
  readLines_ok _ (rows.imp fun _ _ row => row_entry quoted row)

-- The first line that is no row either ends the loop with its own error, or the
-- text is accepted.
theorem first_refused (exact : MemExact quoted text) (cut : solidLines text = before ++ line :: later) (rows : ∀ row ∈ before, IsRow row)
    (other : ¬ IsRow line) : (∃ ranges, parseInfoMem quoted text = .ok ranges) ∨ ∃ shown reason, readMem quoted line = .refused shown reason := by
  rcases readLines_cases "info mem".toList (readMem quoted) text with ⟨ranges,answer,_⟩ |
    ⟨front,number,offset,read,rest,place,_,filled,_,⟨_,answer⟩ | ⟨shown,reason,refused,answer⟩⟩
  · exact .inl ⟨ranges,answer⟩
  · exact .inl ⟨[],answer⟩
  · obtain ⟨front',line',rest',place',_,_,filled',other',rows'⟩ := exact.refuses _ answer
    obtain ⟨_,rfl,_⟩ := located_unique place place'
    obtain ⟨_,rfl,_⟩ := first_unique (cut.symm.trans (solid_cut place' filled')) rows other rows' other'
    exact .inr ⟨shown,reason,refused⟩

theorem exact_refused (exact : MemExact quoted text) : FirstRefused text := by
  intro before line later cut rows
  have member : line ∈ solidLines text := by rw [cut]; simp
  have accepted : ¬ IsRow line → (∃ ranges, parseInfoMem quoted text = .ok ranges) → MessageOnly text := by
    rintro other ⟨ranges,parsed⟩
    rcases (exact.accepts ranges).mp parsed with ⟨message,_⟩ | whole
    · exact message
    · obtain ⟨range,_,row⟩ := forall₂_left whole member
      exact absurd ⟨range,row⟩ other
  constructor
  · intro wrong
    obtain ⟨range,entry⟩ := misflagged_entry quoted wrong
    rcases first_refused exact cut rows (misflagged_other wrong) with parsed | ⟨shown,reason,refused⟩
    · have message := accepted (misflagged_other wrong) parsed
      have there : trim line ∈ (solidLines text).map trim := List.mem_map_of_mem member
      rw [message] at there
      cases entry.symm.trans ((readMem_off quoted).mpr (List.mem_singleton.mp there))
    · cases entry.symm.trans refused
  · intro message
    rcases first_refused exact cut rows (message_other message) with parsed | ⟨shown,reason,refused⟩
    · have alone := congrArg List.length (accepted (message_other message) parsed)
      rw [cut] at alone
      simp only [List.length_map,List.length_append,List.length_cons,List.length_nil] at alone
      exact ⟨List.length_eq_zero_iff.mp (by omega),List.length_eq_zero_iff.mp (by omega)⟩
    · cases refused.symm.trans ((readMem_off quoted).mpr message)

theorem refused_exact (quoted : Text → Text) (clean : FirstRefused text) : MemExact quoted text := by
  rcases readLines_cases "info mem".toList (readMem quoted) text with ⟨ranges,answer,entries⟩ |
    ⟨front,number,offset,line,later,place,stands,filled,⟨_,entries⟩,ends⟩
  · have rows := entries_rows entries (refused_rows clean (List.append_nil _).symm entries)
    refine ⟨fun found => ⟨fun parsed => ?_,?_⟩,fun e failed => ?_⟩
    · cases answer.symm.trans parsed
      exact .inr rows
    · rintro (⟨message,rfl⟩ | whole)
      · exact parse_message quoted message
      · exact parse_rows quoted whole
    · cases answer.symm.trans failed
  · have cut := solid_cut place filled
    have rows := refused_rows clean cut entries
    rcases ends with ⟨off,answer⟩ | ⟨shown,reason,refused,answer⟩
    · have said := (readMem_off quoted).mp off
      obtain ⟨none,last⟩ := (clean _ line _ cut rows).2 said
      have message : MessageOnly text := by
        rw [MessageOnly,cut,none,last,List.nil_append,List.map_singleton,said]
      refine ⟨fun found => ⟨fun parsed => ?_,?_⟩,fun e failed => ?_⟩
      · cases answer.symm.trans parsed
        exact .inl ⟨message,rfl⟩
      · rintro (⟨_,rfl⟩ | whole)
        · exact answer
        · exact parse_rows quoted whole
      · cases answer.symm.trans failed
    · have other : ¬ IsRow line := by
        rintro ⟨range,row⟩
        cases refused.symm.trans (row_entry quoted row)
      refine ⟨fun found => ⟨fun parsed => ?_,?_⟩,fun e failed => ?_⟩
      · cases answer.symm.trans parsed
      · rintro (⟨message,rfl⟩ | whole)
        · exact parse_message quoted message
        · exact parse_rows quoted whole
      · cases answer.symm.trans failed
        exact ⟨front,line,later,place,stands,readMem_shown refused,filled,other,rows⟩

-- Ranges are taken in by the grammar, and errors name the first line against it,
-- in exactly the texts whose first such line is refused.
theorem parseInfoMem_exact (quoted : Text → Text) (text : Text) : MemExact quoted text ↔ FirstRefused text :=
  ⟨exact_refused,refused_exact quoted⟩

-- Any three characters pass for permissions, and the message behind a range
-- takes the range back.
theorem letters_unchecked_ranges_dropped :
    ¬ MemExact id "0-1000 1000 xyz".toList ∧ ¬ MemExact id "0-1000 1000 urw\nPG disabled".toList := by
  constructor
  · intro exact
    have parsed : parseInfoMem id "0-1000 1000 xyz".toList = .ok [⟨0,0x1000,0x1000,false,false,false⟩] := by decide +kernel
    rcases (exact.accepts _).mp parsed with ⟨_,none⟩ | whole
    · cases none
    · have one : solidLines "0-1000 1000 xyz".toList = ["0-1000 1000 xyz".toList] := by decide +kernel
      rw [one] at whole
      obtain ⟨⟨_,first,last,size,fields,_⟩,_⟩ := List.forall₂_cons.mp whole
      have cut : splitWhitespace (trim "0-1000 1000 xyz".toList) = ["0-1000".toList,"1000".toList,"xyz".toList] := by decide +kernel
      rw [cut] at fields
      have letters : "xyz".toList = ['-','-','-'] := by simpa [permissionText] using (List.cons.inj (List.cons.inj (List.cons.inj fields).2).2).1
      revert letters
      decide
  · intro exact
    have parsed : parseInfoMem id "0-1000 1000 urw\nPG disabled".toList = .ok [] := by decide +kernel
    have two : (solidLines "0-1000 1000 urw\nPG disabled".toList).length = 2 := by decide +kernel
    rcases (exact.accepts []).mp parsed with ⟨message,_⟩ | whole
    · have alone := congrArg List.length message
      rw [List.length_map,two] at alone
      cases alone
    · have same := whole.length_eq
      rw [two] at same
      cases same

end PrincessIDE.Monitor
