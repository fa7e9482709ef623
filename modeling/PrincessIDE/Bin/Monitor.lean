import PrincessIDE.Foundation.Loop
import PrincessIDE.Foundation.Rows
import PrincessIDE.Bin.GuestMemory

namespace PrincessIDE.Monitor
open Utf8 Str Loop
open Memory (U64)

structure ParseError where
  context : Text
  line : Nat
  byteOffset : Nat
  text : Text
  reason : Text
deriving DecidableEq, Repr

structure InfoMemRange where
  start : U64
  stop : U64
  size : U64
  user : Bool
  readable : Bool
  writable : Bool
deriving DecidableEq, Repr

structure TlbFlags where
  nx : Bool
  global : Bool
  ps : Bool
  dirty : Bool
  accessed : Bool
  pcd : Bool
  pwt : Bool
  user : Bool
  writable : Bool
deriving DecidableEq, Repr

structure InfoTlbEntry where
  virtualAddress : U64
  physicalAddress : U64
  flags : TlbFlags
deriving DecidableEq, Repr

def isHex (text : Text) : Bool := !text.isEmpty && text.all isHexDigit

def parseHexU64 (text : Text) : Option U64 := if isHex text then (fromStrRadix 16 u64 text).map (.ofNat 64) else none
def parseHexU32 (text : Text) : Option (BitVec 32) := if isHex text then (fromStrRadix 16 u32 text).map (.ofNat 32) else none

def isAscii (text : Text) : Bool := text.all fun c => c.toNat < 128

-- What one line that is not blank does to the loop over the lines.
inductive Reading (α : Type) where
  | entry (a : α)
  | pagingOff
  | refused (shown reason : Text)
deriving DecidableEq, Repr

-- One turn of the loops over the lines: a blank line is passed by, so that what
-- is read has a first field.
def readTurn (context : Text) (read : Text → Reading α) (out : List α) (located : Nat × Nat × Text) :
    Turn (List α) (Except ParseError (List α)) :=
  if trim located.2.2 = [] then .next out
  else match read located.2.2 with
    | .entry a => .next (out++[a])
    | .pagingOff => .leave (.ok []) out
    | .refused shown reason => .leave (.error ⟨context,located.1,located.2.1,shown,reason⟩) out

def readLines (context : Text) (read : Text → Reading α) (text : Text) : Except ParseError (List α) :=
  match loop (readTurn context read) [] (linesWithOffsets text) with
  | (some result,_,_) => result
  | (none,out,_) => .ok out

def memFlags (flags : Text) : Bool × Bool × Bool := (flags[0]? == some 'u',flags[1]? == some 'r',flags[2]? == some 'w')

def pgDisabled : Text := "PG disabled".toList

-- The body of the loop of `parse_info_mem`; `quoted` is `{:?}` of a text.
def readMem (quoted : Text → Text) (whole : Text) : Reading InfoMemRange :=
  let line := trim whole
  if line = pgDisabled then .pagingOff
  else if !isAscii line then .refused line "line contains non-ASCII bytes".toList
  else
    let fields := splitWhitespace line
    let range := fields[0]?.getD []
    if fields[3]?.isSome then .refused line "expected exactly 3 whitespace-separated fields".toList
    else match splitOnce ['-'] range with
      | none => .refused line "first field is not a <start>-<end> range".toList
      | some (startText,endText) => match parseHexU64 startText,parseHexU64 endText with
        | some start,some stop => match fields[1]?.bind parseHexU64 with
          | none => .refused line "size field is missing or not hexadecimal".toList
          | some size => match fields[2]? with
            | none => .refused line "permission field is missing".toList
            | some flags =>
              if (encode flags).length ≠ 3 then
                .refused line ("permission field ".toList ++ quoted flags ++ " must be exactly 3 characters".toList)
              else
                let (user,readable,writable) := memFlags flags
                .entry ⟨start,stop,size,user,readable,writable⟩
        | _,_ => .refused line ("range bounds ".toList ++ quoted startText ++ "-".toList ++ quoted endText ++ " are not hexadecimal".toList)

def parseInfoMem (quoted : Text → Text) (text : Text) : Except ParseError (List InfoMemRange) :=
  readLines "info mem".toList (readMem quoted) text

def tlbLetters : Text := ['X','G','P','D','A','C','T','U','W']

-- The loop over the nine positions.
def flagBits : List (Char × Char) → Option (List Bool)
  | [] => some []
  | (actual,letter) :: rest =>
    if actual = letter then (flagBits rest).map (true :: ·)
    else if actual ≠ '-' then none
    else (flagBits rest).map (false :: ·)

def decodeTlbFlags (text : Text) : Option TlbFlags :=
  if text.length ≠ 9 then none
  else match flagBits (text.zip tlbLetters) with
    | some [nx,global,ps,dirty,accessed,pcd,pwt,user,writable] => some ⟨nx,global,ps,dirty,accessed,pcd,pwt,user,writable⟩
    | _ => none

def stripColon (field : Text) : Option Text := if field.getLast? = some ':' then some field.dropLast else none

def readTlb (quoted : Text → Text) (line : Text) : Reading InfoTlbEntry :=
  let fields := splitWhitespace (trim line)
  match fields[0]?,fields[1]?,fields[2]? with
  | some addressField,some physicalField,some flagsField =>
    if fields[3]?.isSome then .refused line "unexpected trailing fields".toList
    else match stripColon addressField with
      | none => .refused line (quoted addressField ++ " is not a \x60<vaddr>:\x60 field".toList)
      | some virtualText => match parseHexU64 virtualText,parseHexU64 physicalField with
        | some virtualAddress,some physicalAddress => match decodeTlbFlags flagsField with
          | none => .refused line ("flag field ".toList ++ quoted flagsField ++
              " must be 9 characters drawn from \x60X G P D A C T U W\x60 positionally with \x60-\x60 for clear".toList)
          | some flags => .entry ⟨virtualAddress,physicalAddress,flags⟩
        | _,_ => .refused line "address fields must be hexadecimal".toList
  | _,none,_ => .refused line "expected \x60<vaddr>: <paddr> <flags>\x60".toList
  | _,_,_ => .refused line "flag field is missing".toList

def parseInfoTlb (quoted : Text → Text) (text : Text) : Except ParseError (List InfoTlbEntry) :=
  readLines "info tlb".toList (readTlb quoted) text

def Blank (line : Text) : Prop := trim line = []

instance (line : Text) : Decidable (Blank line) := inferInstanceAs (Decidable (_ = _))

def solid (rows : List (Nat × Nat × Text)) : List Text := (rows.map fun located => located.2.2).filter fun line => ¬ Blank line

def solidLines (text : Text) : List Text := solid (linesWithOffsets text)

theorem solid_blank (blank : Blank line) : solid ((number,offset,line) :: rows) = solid rows := by
  simp [solid,blank]

theorem solid_cons (filled : ¬ Blank line) : solid ((number,offset,line) :: rows) = line :: solid rows := by
  simp [solid,filled]

section
variable {context : Text} {read : Text → Reading α}

theorem readTurn_blank (blank : Blank located.2.2) : readTurn context read out located = .next out := if_pos blank

theorem readTurn_entry (solid : ¬ Blank located.2.2) (entry : read located.2.2 = .entry a) : readTurn context read out located = .next (out++[a]) := by
  unfold readTurn
  rw [if_neg (show ¬ trim located.2.2 = [] from solid),entry]

theorem readTurn_next (on : readTurn context read out located = .next out') :
    (Blank located.2.2 ∧ out' = out) ∨ (¬ Blank located.2.2 ∧ ∃ a, read located.2.2 = .entry a ∧ out' = out++[a]) := by
  unfold readTurn at on
  split at on
  · cases on
    exact .inl ⟨by assumption,rfl⟩
  · split at on
    · cases on
      exact .inr ⟨by assumption,_,by assumption,rfl⟩
    · cases on
    · cases on

theorem readTurn_leave (left : readTurn context read out located = .leave result out') : ¬ Blank located.2.2 ∧
    ((read located.2.2 = .pagingOff ∧ result = .ok []) ∨
      ∃ shown reason, read located.2.2 = .refused shown reason ∧ result = .error ⟨context,located.1,located.2.1,shown,reason⟩) := by
  unfold readTurn at left
  split at left
  · cases left
  · split at left
    · cases left
    · cases left
      exact ⟨by assumption,.inl ⟨by assumption,rfl⟩⟩
    · cases left
      exact ⟨by assumption,.inr ⟨_,_,by assumption,rfl⟩⟩

-- The loop goes on through lines that are blank or entries, and keeps the entries.
theorem readLines_on (on : goesOn (readTurn context read) out rows = some out') : ∃ entries, out' = out ++ entries ∧
    List.Forall₂ (fun line a => read line = .entry a) (solid rows) entries := by
  induction rows generalizing out with
  | nil =>
    cases on
    exact ⟨[],by simp,.nil⟩
  | cons located rows ih =>
    obtain ⟨number,offset,line⟩ := located
    simp only [goesOn] at on
    cases turn : readTurn context read out (number,offset,line) with
    | leave result s =>
      rw [turn] at on
      cases on
    | next next =>
      rw [turn] at on
      obtain ⟨entries,rfl,all⟩ := ih on
      rcases readTurn_next turn with ⟨blank,rfl⟩ | ⟨filled,a,entry,rfl⟩
      · exact ⟨entries,rfl,by rwa [solid_blank blank]⟩
      · exact ⟨a :: entries,by simp,by rw [solid_cons filled]; exact .cons entry all⟩

theorem readLines_through (context : Text) (all : List.Forall₂ (fun line a => read line = .entry a) (solid rows) entries) (out : List α) :
    goesOn (readTurn context read) out rows = some (out ++ entries) := by
  induction rows generalizing out entries with
  | nil =>
    cases all
    simp [goesOn]
  | cons located rows ih =>
    obtain ⟨number,offset,line⟩ := located
    by_cases blank : Blank line
    · rw [solid_blank blank] at all
      rw [goesOn,readTurn_blank blank]
      exact ih all out
    · rw [solid_cons blank] at all
      cases all with
      | @cons _ a _ entries entry rest =>
        rw [goesOn,readTurn_entry blank entry]
        simpa using ih rest (out++[a])

theorem readLines_ok (context : Text) (all : List.Forall₂ (fun line a => read line = .entry a) (solidLines text) entries) :
    readLines context read text = .ok entries := by
  have through := loop_append (readLines_through context all []) []
  rw [List.append_nil] at through
  rw [readLines,through]
  rfl

-- The ways the loop ends: every line is blank or an entry, or the first that is
-- neither ends it.
theorem readLines_cases (context : Text) (read : Text → Reading α) (text : Text) :
    (∃ entries, readLines context read text = .ok entries ∧ List.Forall₂ (fun line a => read line = .entry a) (solidLines text) entries) ∨
    ∃ front number offset line later, linesWithOffsets text = linesWithOffsets front ++ (number,offset,line) :: later ∧
      Stands text front number offset line ∧ ¬ Blank line ∧
      (∃ entries, List.Forall₂ (fun line a => read line = .entry a) (solidLines front) entries) ∧
      ((read line = .pagingOff ∧ readLines context read text = .ok []) ∨
        ∃ shown reason, read line = .refused shown reason ∧ readLines context read text = .error ⟨context,number,offset,shown,reason⟩) := by
  unfold readLines
  cases whole : loop (readTurn context read) [] (linesWithOffsets text) with
  | mk result rest =>
    obtain ⟨out,rest⟩ := rest
    cases result with
    | none =>
      obtain ⟨entries,same,all⟩ := readLines_on (loop_ended whole)
      exact .inl ⟨entries,congrArg Except.ok same,all⟩
    | some result =>
      obtain ⟨seen,⟨number,offset,line⟩,m,cut,on,last⟩ := loop_left whole
      obtain ⟨front,rfl,stands⟩ := linesWithOffsets_stands cut
      obtain ⟨entries,_,all⟩ := readLines_on on
      obtain ⟨filled,ends⟩ := readTurn_leave last
      exact .inr ⟨front,number,offset,line,rest,cut,stands,filled,⟨entries,all⟩,ends⟩

end

theorem forall₂_left {R : α → β → Prop} (all : List.Forall₂ R xs ys) (member : x ∈ xs) : ∃ y ∈ ys, R x y := by
  induction all with
  | nil => cases member
  | cons first _ ih =>
    rcases List.mem_cons.mp member with rfl | later
    · exact ⟨_,List.mem_cons_self,first⟩
    · obtain ⟨y,inside,related⟩ := ih later
      exact ⟨y,List.mem_cons_of_mem _ inside,related⟩

theorem three_fields {fields : List α} (first : fields[0]? = some a) (second : fields[1]? = some b) (third : fields[2]? = some c)
    (short : ¬ fields[3]?.isSome) : fields = [a,b,c] := by
  rcases fields with _ | ⟨x,_ | ⟨y,_ | ⟨z,_ | ⟨w,rest⟩⟩⟩⟩
  · cases first
  · cases second
  · cases third
  · cases first; cases second; cases third; rfl
  · exact absurd rfl short

-- The first item that is not one of `P` is found in one place only.
theorem first_unique {P : α → Prop} (cut : a ++ x :: b = c ++ y :: d) (front : ∀ z ∈ a, P z) (here : ¬ P x)
    (front' : ∀ z ∈ c, P z) (here' : ¬ P y) : a = c ∧ x = y ∧ b = d := by
  induction a generalizing c with
  | nil =>
    cases c with
    | nil =>
      obtain ⟨same,tail⟩ := List.cons.inj cut
      exact ⟨rfl,same,tail⟩
    | cons z c =>
      obtain ⟨rfl,_⟩ := List.cons.inj cut
      exact absurd (front' x List.mem_cons_self) here
  | cons z a ih =>
    cases c with
    | nil =>
      obtain ⟨rfl,_⟩ := List.cons.inj cut
      exact absurd (front z List.mem_cons_self) here'
    | cons w c =>
      obtain ⟨rfl,tail⟩ := List.cons.inj cut
      obtain ⟨rfl,same,rest⟩ := ih tail (fun v member => front v (List.mem_cons_of_mem _ member))
        fun v member => front' v (List.mem_cons_of_mem _ member)
      exact ⟨rfl,same,rest⟩

theorem first_exists {P : α → Prop} {items : List α} (failing : ¬ ∀ item ∈ items, P item) :
    ∃ a x b, items = a ++ x :: b ∧ (∀ z ∈ a, P z) ∧ ¬ P x := by
  induction items with
  | nil => exact absurd (by simp) failing
  | cons item items ih =>
    by_cases here : P item
    · obtain ⟨a,x,b,rfl,front,out⟩ := ih fun all => failing (by simpa using ⟨here,all⟩)
      exact ⟨item :: a,x,b,rfl,by simpa using ⟨here,front⟩,out⟩
    · exact ⟨[],item,items,rfl,by simp,here⟩

theorem solid_append (a b : List (Nat × Nat × Text)) : solid (a++b) = solid a ++ solid b := by
  simp [solid]

-- Lines of one number are one line.
theorem located_unique (one : linesWithOffsets text = linesWithOffsets front ++ (number,offset,line) :: later)
    (two : linesWithOffsets text = linesWithOffsets front' ++ (number,offset',line') :: later') :
    linesWithOffsets front = linesWithOffsets front' ∧ line = line' ∧ later = later' := by
  have lower : ∀ {before : List (Nat × Nat × Text)} {o : Nat} {l : Text} {rest}, linesWithOffsets text = before ++ (number,o,l) :: rest →
      ∀ z ∈ before, z.1 < number := by
    intro before o l rest cut z member
    have ascends := numbered_ascends 0 0 (splitInclusive text)
    have whole : (before ++ (number,o,l) :: rest).Pairwise fun a b => a.1 < b.1 := cut ▸ ascends
    exact (List.pairwise_append.mp whole).2.2 z member _ List.mem_cons_self
  obtain ⟨same,here,rest⟩ := first_unique (P:=fun z : Nat × Nat × Text => z.1 < number) (one.symm.trans two) (lower one) (Nat.lt_irrefl _)
    (lower two) (Nat.lt_irrefl _)
  cases here
  exact ⟨same,rfl,rest⟩

-- An error at the first line that is neither blank nor a row: its number, its
-- offset and what is shown of it.
def NamesFirst (row : Text → Prop) (shown : Text → Text) (text : Text) (e : ParseError) : Prop :=
  ∃ front line later, linesWithOffsets text = linesWithOffsets front ++ (e.line,e.byteOffset,line) :: later ∧
    Stands text front e.line e.byteOffset line ∧ e.text = shown line ∧ ¬ Blank line ∧ ¬ row line ∧ ∀ before ∈ solidLines front, row before

end PrincessIDE.Monitor
