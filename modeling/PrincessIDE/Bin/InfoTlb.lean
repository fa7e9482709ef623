import PrincessIDE.Foundation.Words
import PrincessIDE.Bin.Monitor
import Mathlib.Data.List.Forall2

namespace PrincessIDE.Monitor
open Utf8 Str
open Memory (U64)

-- Hexadecimal digits of either case and the number below 2^64 they stand for.
def Hex (t : Text) (n : U64) : Prop :=
  ∃ digits : List Nat, digits ≠ [] ∧ t.map (digitValue 16) = digits.map some ∧ Nat.ofDigits 16 digits.reverse = n.toNat

theorem readDigits_iff (t : Text) (v n : Nat) : readDigits 16 bound v t = some n ↔ ∃ digits : List Nat,
    t.map (digitValue 16) = digits.map some ∧ n = v*16^digits.length + Nat.ofDigits 16 digits.reverse ∧ (digits ≠ [] → n < bound) := by
  induction t generalizing v with
  | nil =>
    constructor
    · intro read
      cases read
      exact ⟨[],rfl,by simp,by simp⟩
    · rintro ⟨digits,same,rfl,_⟩
      obtain rfl : digits = [] := by simpa using same
      simp [readDigits]
  | cons c t ih =>
    have shift : ∀ d (rest : List Nat), v*16^(d::rest).length + Nat.ofDigits 16 (d::rest).reverse =
        (v*16+d)*16^rest.length + Nat.ofDigits 16 rest.reverse := by
      intro d rest
      rw [List.reverse_cons,Nat.ofDigits_append,Nat.ofDigits_singleton,List.length_reverse,List.length_cons]
      ring
    have least : ∀ d (rest : List Nat), v*16+d ≤ (v*16+d)*16^rest.length + Nat.ofDigits 16 rest.reverse := by
      intro d rest
      exact Nat.le_add_right_of_le (Nat.le_mul_of_pos_right _ (Nat.pow_pos (by decide)))
    rw [readDigits]
    cases value : digitValue 16 c with
    | none =>
      constructor
      · intro read
        cases read
      · rintro ⟨digits,same,_⟩
        cases digits with
        | nil => cases same
        | cons d rest =>
          rw [List.map_cons,value] at same
          cases same
    | some d =>
      dsimp only
      constructor
      · intro read
        split at read
        · rename_i inside
          obtain ⟨rest,same,rfl,small⟩ := (ih (v*16+d)).mp read
          refine ⟨d::rest,by simp [value,same],(shift d rest).symm,fun _ => ?_⟩
          cases rest with
          | nil => simpa using inside
          | cons _ _ => exact small (List.cons_ne_nil _ _)
        · cases read
      · rintro ⟨digits,same,rfl,small⟩
        cases digits with
        | nil => cases same
        | cons d' rest =>
          rw [List.map_cons,List.map_cons,value] at same
          obtain ⟨one,tail⟩ := List.cons.inj same
          cases one
          have bounded := small (List.cons_ne_nil _ _)
          have first : v*16+d < bound := Nat.lt_of_le_of_lt (least d rest) (shift d rest ▸ bounded)
          rw [if_pos first]
          exact (ih (v*16+d)).mpr ⟨rest,tail,shift d rest,fun _ => bounded⟩

theorem isHex_iff (t : Text) : isHex t = true ↔ ∃ digits : List Nat, digits ≠ [] ∧ t.map (digitValue 16) = digits.map some := by
  constructor
  · intro hex
    simp only [isHex,Bool.and_eq_true,Bool.not_eq_true',List.all_eq_true] at hex
    refine ⟨t.map fun c => (digitValue 16 c).getD 0,by simpa using hex.1,?_⟩
    rw [List.map_map]
    apply List.map_congr_left
    intro c member
    obtain ⟨d,value⟩ := Option.isSome_iff_exists.mp (hex.2 c member)
    simp [value]
  · rintro ⟨digits,some,same⟩
    simp only [isHex,Bool.and_eq_true,Bool.not_eq_true',List.all_eq_true]
    constructor
    · cases t with
      | nil =>
        obtain rfl : digits = [] := by simpa using same
        exact absurd rfl some
      | cons _ _ => rfl
    · intro c member
      have inside : digitValue 16 c ∈ digits.map Option.some := same ▸ List.mem_map_of_mem member
      obtain ⟨d,_,value⟩ := List.mem_map.mp inside
      rw [isHexDigit,← value]
      rfl

theorem isHex_unsigned (hex : isHex (c :: t) = true) : c ≠ '+' := by
  rintro rfl
  cases hex

theorem fromStrRadix_hex (hex : isHex t = true) : fromStrRadix 16 bound t = readDigits 16 bound 0 t := by
  cases t with
  | nil => cases hex
  | cons c t => rw [fromStrRadix,if_neg (isHex_unsigned hex)]

theorem parseHexU64_iff (t : Text) (n : U64) : parseHexU64 t = some n ↔ Hex t n := by
  unfold parseHexU64
  constructor
  · intro parsed
    split at parsed
    · rename_i hex
      rw [fromStrRadix_hex hex] at parsed
      obtain ⟨value,read,rfl⟩ := Option.map_eq_some_iff.mp parsed
      obtain ⟨some,solid,shape⟩ := (isHex_iff t).mp hex
      obtain ⟨digits,same,rfl,small⟩ := (readDigits_iff t 0 value).mp read
      have filled : digits ≠ [] := by
        rintro rfl
        rw [same] at shape
        exact solid (by simpa using shape.symm)
      refine ⟨digits,filled,same,?_⟩
      have bounded : 0*16^digits.length + Nat.ofDigits 16 digits.reverse < 2^64 := small filled
      rw [Nat.zero_mul,Nat.zero_add] at bounded ⊢
      rw [BitVec.toNat_ofNat,Nat.mod_eq_of_lt bounded]
    · cases parsed
  · rintro ⟨digits,filled,same,value⟩
    have hex := (isHex_iff t).mpr ⟨digits,filled,same⟩
    have read : readDigits 16 u64 0 t = some n.toNat :=
      (readDigits_iff t 0 n.toNat).mpr ⟨digits,same,by rw [value]; simp,fun _ => n.isLt⟩
    rw [if_pos hex,fromStrRadix_hex hex,read]
    simp

-- The nine positions of a row: the letter where the flag is set.
def flagText (flags : TlbFlags) : Text :=
  List.zipWith (fun set letter => if set then letter else '-')
    [flags.nx,flags.global,flags.ps,flags.dirty,flags.accessed,flags.pcd,flags.pwt,flags.user,flags.writable] tlbLetters

theorem flagBits_iff {letters : Text} (bare : '-' ∉ letters) (size : t.length = letters.length) (bits : List Bool) :
    flagBits (t.zip letters) = some bits ↔ bits.length = letters.length ∧ t = List.zipWith (fun set letter => if set then letter else '-') bits letters := by
  induction letters generalizing t bits with
  | nil =>
    obtain rfl : t = [] := List.length_eq_zero_iff.mp size
    simp [flagBits,eq_comm]
  | cons letter letters ih =>
    cases t with
    | nil => cases size
    | cons c t =>
      have other : letter ≠ '-' := fun same => bare (by simp [same])
      have rest := fun bits => ih (t:=t) (fun inside => bare (List.mem_cons_of_mem _ inside)) (Nat.succ.inj size) bits
      rw [List.zip_cons_cons,flagBits]
      cases bits with
      | nil =>
        split
        · simp
        · split
          · simp
          · simp
      | cons set bits =>
        rw [List.zipWith_cons_cons,List.cons.injEq,List.length_cons,List.length_cons,Nat.add_right_cancel_iff]
        cases set with
        | true =>
          by_cases here : c = letter
          · simp [here,rest]
          · by_cases dash : c = '-'
            · simp [dash,other.symm]
            · simp [here,dash]
        | false =>
          by_cases here : c = letter
          · simp [here,other]
          · by_cases dash : c = '-'
            · simp [dash,other.symm,rest]
            · simp [here,dash]

theorem decodeTlbFlags_iff (t : Text) (flags : TlbFlags) : decodeTlbFlags t = some flags ↔ t = flagText flags := by
  have bare : '-' ∉ tlbLetters := by decide
  constructor
  · intro decoded
    unfold decodeTlbFlags at decoded
    split at decoded
    · cases decoded
    · rename_i size
      split at decoded
      · rename_i bits
        cases decoded
        exact ((flagBits_iff bare (show t.length = tlbLetters.length from not_not.mp size) _).mp bits).2
      · cases decoded
  · rintro rfl
    have size : (flagText flags).length = tlbLetters.length := rfl
    have bits := (flagBits_iff bare size _).mpr ⟨rfl,rfl⟩
    unfold decodeTlbFlags
    rw [if_neg (by simp [size,tlbLetters]),bits]

-- A row of the listing: the virtual address with its colon, the physical one and
-- the flags, with blanks between them.
def TlbRow (line : Text) (entry : InfoTlbEntry) : Prop := ∃ virtual physical,
  splitWhitespace (trim line) = [virtual ++ [':'],physical,flagText entry.flags] ∧
    Hex virtual entry.virtualAddress ∧ Hex physical entry.physicalAddress

theorem stripColon_iff (field rest : Text) : stripColon field = some rest ↔ field = rest ++ [':'] := by
  unfold stripColon
  constructor
  · intro stripped
    split at stripped
    · rename_i last
      cases stripped
      obtain ⟨front,rfl⟩ := List.getLast?_eq_some_iff.mp last
      simp
    · cases stripped
  · rintro rfl
    simp

theorem readTlb_iff (quoted : Text → Text) (line : Text) (entry : InfoTlbEntry) : readTlb quoted line = .entry entry ↔ TlbRow line entry := by
  constructor
  · intro read
    unfold readTlb at read
    dsimp only at read
    split at read
    · rename_i addressField physicalField flagsField first second third
      split at read
      · cases read
      · rename_i short
        split at read
        · cases read
        · rename_i virtualText colon
          split at read
          · rename_i virtualAddress physicalAddress one two
            split at read
            · cases read
            · rename_i flags decoded
              cases read
              refine ⟨virtualText,physicalField,?_,(parseHexU64_iff _ _).mp one,(parseHexU64_iff _ _).mp two⟩
              rw [← (stripColon_iff _ _).mp colon,← (decodeTlbFlags_iff _ _).mp decoded]
              exact three_fields first second third short
          · cases read
    · cases read
    · cases read
  · rintro ⟨virtual,physical,fields,one,two⟩
    unfold readTlb
    rw [fields]
    simp [(stripColon_iff _ _).mpr rfl,(parseHexU64_iff _ _).mpr one,(parseHexU64_iff _ _).mpr two,(decodeTlbFlags_iff _ _).mpr rfl]

-- What `info tlb` prints of an entry, before the end of the line.
def hex16 (n : U64) : Text := (Nat.toDigits 16 n.toNat).leftpad 16 '0'

def renderTlb (entry : InfoTlbEntry) : Text :=
  hex16 entry.virtualAddress ++ ':' :: ' ' :: (hex16 entry.physicalAddress ++ ' ' :: flagText entry.flags)

def lineEnd (returned : Bool) : Text := if returned then ['\r','\n'] else ['\n']

theorem hex16_reads (n : U64) : Hex (hex16 n) n := by
  have read : readDigits 16 u64 0 (hex16 n) = some n.toNat := readDigits_padded n.isLt 16
  obtain ⟨digits,same,value,_⟩ := (readDigits_iff _ 0 n.toNat).mp read
  refine ⟨digits,?_,same,by rw [value]; simp⟩
  rintro rfl
  have size := congrArg List.length same
  simp [hex16] at size

theorem hex_digits (hex : Hex t n) (member : c ∈ t) : isHexDigit c = true := by
  obtain ⟨digits,_,same,_⟩ := hex
  have inside : digitValue 16 c ∈ digits.map some := same ▸ List.mem_map_of_mem member
  obtain ⟨d,_,value⟩ := List.mem_map.mp inside
  rw [isHexDigit,← value]
  rfl

theorem mem_flagged {bits : List Bool} {letters : Text}
    (member : c ∈ List.zipWith (fun set letter => if set then letter else '-') bits letters) : c = '-' ∨ c ∈ letters := by
  induction letters generalizing bits with
  | nil => simp at member
  | cons letter letters ih =>
    cases bits with
    | nil => cases member
    | cons set bits =>
      rcases List.mem_cons.mp member with rfl | later
      · cases set with
        | true => exact .inr List.mem_cons_self
        | false => exact .inl rfl
      · exact (ih later).imp id (List.mem_cons_of_mem _)

theorem flagText_solid (member : c ∈ flagText flags) : isWhitespace c = false ∧ c ≠ '\n' := by
  have plain : ('-' :: tlbLetters).all (fun letter => !isWhitespace letter && letter != '\n') = true := by decide
  simpa using List.all_eq_true.mp plain c (List.mem_cons.mpr (mem_flagged member))

theorem trim_bare (first : isWhitespace a = false) (last : isWhitespace b = false) (t : Text) : trim (a :: (t ++ [b])) = a :: (t ++ [b]) := by
  rw [trim,trimStart_solid first,← List.cons_append,trimEnd_solid last]

theorem hex16_head (n : U64) : ∃ c rest, hex16 n = c :: rest ∧ isWhitespace c = false := by
  obtain ⟨digits,filled,same,_⟩ := hex16_reads n
  cases shape : hex16 n with
  | nil =>
    rw [shape] at same
    exact absurd (by simpa using same.symm) filled
  | cons c rest => exact ⟨c,rest,rfl,(hexDigit_plain (hex_digits (hex16_reads n) (shape ▸ List.mem_cons_self))).1⟩

theorem renderTlb_row (entry : InfoTlbEntry) : TlbRow (renderTlb entry) entry := by
  have one := hex16_reads entry.virtualAddress
  have two := hex16_reads entry.physicalAddress
  refine ⟨hex16 entry.virtualAddress,hex16 entry.physicalAddress,?_,one,two⟩
  have bare : trim (renderTlb entry) = renderTlb entry := by
    obtain ⟨a,rest,head,first⟩ := hex16_head entry.virtualAddress
    obtain ⟨front,b,tail⟩ : ∃ front b, flagText entry.flags = front ++ [b] := ⟨_,_,(List.dropLast_append_getLast (List.cons_ne_nil _ _)).symm⟩
    have last : isWhitespace b = false := (flagText_solid (c:=b) (by rw [tail]; simp)).1
    have shape : renderTlb entry = a :: ((rest ++ ':' :: ' ' :: (hex16 entry.physicalAddress ++ ' ' :: front)) ++ [b]) := by
      simp [renderTlb,head,tail]
    rw [shape,trim_bare first last]
  have colon : ∀ c ∈ hex16 entry.virtualAddress ++ [':'], isWhitespace c = false := by
    intro c member
    rcases List.mem_append.mp member with digit | colon
    · exact (hexDigit_plain (hex_digits one digit)).1
    · rw [List.mem_singleton.mp colon]
      rfl
  have middle : ∀ c ∈ hex16 entry.physicalAddress, isWhitespace c = false := fun c member => (hexDigit_plain (hex_digits two member)).1
  have filled : hex16 entry.physicalAddress ≠ [] := by
    obtain ⟨c,rest,head,_⟩ := hex16_head entry.physicalAddress
    simp [head]
  have cut : renderTlb entry = (hex16 entry.virtualAddress ++ [':']) ++ ' ' :: (hex16 entry.physicalAddress ++ ' ' :: flagText entry.flags) := by
    simp [renderTlb]
  rw [bare,cut,splitWhitespace,words_word colon (by simp) rfl,words_word middle (by simpa using filled) rfl,
    words_solid (fun c member => (flagText_solid member).1) (List.cons_ne_nil _ _)]
  rfl

theorem renderTlb_plain (entry : InfoTlbEntry) : '\n' ∉ renderTlb entry := by
  intro inside
  have digits : ∀ n, '\n' ∉ hex16 n := fun n member => (hexDigit_plain (hex_digits (hex16_reads n) member)).2.2.2.1 rfl
  simp only [renderTlb,List.mem_append,List.mem_cons] at inside
  rcases inside with digit | colon | blank | digit | blank | flag
  · exact digits _ digit
  · cases colon
  · cases blank
  · exact digits _ digit
  · cases blank
  · exact (flagText_solid flag).2 rfl

def listing (rows : List (InfoTlbEntry × Bool)) : Text := rows.flatMap fun row => renderTlb row.1 ++ lineEnd row.2

theorem renderTlb_ended (entry : InfoTlbEntry) (returned : Bool) : Ended (renderTlb entry ++ lineEnd returned) := by
  have plain := renderTlb_plain entry
  cases returned with
  | true => exact ⟨renderTlb entry ++ ['\r'],by simpa using plain,by simp [lineEnd]⟩
  | false => exact ⟨renderTlb entry,plain,rfl⟩

theorem renderTlb_trimmed (entry : InfoTlbEntry) (returned : Bool) :
    trimEndMatches isEnding (renderTlb entry ++ lineEnd returned) = renderTlb entry := by
  obtain ⟨front,b,tail⟩ : ∃ front b, flagText entry.flags = front ++ [b] := ⟨_,_,(List.dropLast_append_getLast (List.cons_ne_nil _ _)).symm⟩
  have blank := (flagText_solid (c:=b) (by rw [tail]; simp)).1
  have stop : isEnding b = false := by
    cases ending : isEnding b with
    | false => rfl
    | true =>
      simp only [isEnding,Bool.or_eq_true,decide_eq_true_eq] at ending
      rcases ending with rfl | rfl
      · cases blank
      · cases blank
  have all : ∀ c ∈ lineEnd returned, isEnding c = true := by
    rw [← List.all_eq_true]
    cases returned <;> decide
  have shape : renderTlb entry = (hex16 entry.virtualAddress ++ ':' :: ' ' :: (hex16 entry.physicalAddress ++ ' ' :: front)) ++ [b] := by
    simp [renderTlb,tail]
  rw [shape,List.append_assoc]
  exact trimEndMatches_bare all stop _

theorem renderTlb_filled (entry : InfoTlbEntry) : ¬ Blank (renderTlb entry) := by
  obtain ⟨_,_,fields,_⟩ := renderTlb_row entry
  intro blank
  rw [blank] at fields
  cases fields

theorem listing_lines (rows : List (InfoTlbEntry × Bool)) : solidLines (listing rows) = rows.map fun row => renderTlb row.1 := by
  have ended : ∀ row ∈ rows.map fun row => renderTlb row.1 ++ lineEnd row.2, Ended row := by
    intro row member
    obtain ⟨⟨entry,returned⟩,_,rfl⟩ := List.mem_map.mp member
    exact renderTlb_ended entry returned
  have whole : listing rows = (rows.map fun row => renderTlb row.1 ++ lineEnd row.2).flatten := List.flatMap_def
  rw [solidLines,solid,linesWithOffsets,whole,splitInclusive_flatten_ended ended,numbered_texts,List.map_map]
  have trimmed : (trimEndMatches isEnding ∘ fun row : InfoTlbEntry × Bool => renderTlb row.1 ++ lineEnd row.2) = fun row => renderTlb row.1 :=
    funext fun row => renderTlb_trimmed row.1 row.2
  rw [trimmed]
  apply List.filter_eq_self.mpr
  intro line member
  obtain ⟨row,_,rfl⟩ := List.mem_map.mp member
  exact decide_eq_true (renderTlb_filled row.1)

theorem readTlb_shown (refused : readTlb quoted line = .refused shown reason) : shown = line := by
  unfold readTlb at refused
  dsimp only at refused
  repeat' split at refused
  all_goals cases refused
  all_goals rfl

theorem readTlb_reading (quoted : Text → Text) (line : Text) : readTlb quoted line ≠ .pagingOff := by
  intro read
  unfold readTlb at read
  dsimp only at read
  repeat' split at read
  all_goals cases read

theorem forall₂_rows (quoted : Text → Text) {lines : List Text} {entries : List InfoTlbEntry} :
    List.Forall₂ (fun line entry => readTlb quoted line = .entry entry) lines entries ↔ List.Forall₂ TlbRow lines entries :=
  ⟨fun all => all.imp fun line entry => (readTlb_iff quoted line entry).mp,fun all => all.imp fun line entry => (readTlb_iff quoted line entry).mpr⟩

-- What a printed listing gives back, which texts are accepted and what the error
-- of any other names.
theorem parseInfoTlb_exact (quoted : Text → Text) :
    (∀ rows, parseInfoTlb quoted (listing rows) = .ok (rows.map Prod.fst)) ∧
    (∀ text entries, parseInfoTlb quoted text = .ok entries ↔ List.Forall₂ TlbRow (solidLines text) entries) ∧
    ∀ text e, parseInfoTlb quoted text = .error e → NamesFirst (fun line => ∃ entry, TlbRow line entry) id text e := by
  have accepts : ∀ text entries, List.Forall₂ TlbRow (solidLines text) entries → parseInfoTlb quoted text = .ok entries :=
    fun text entries all => readLines_ok _ ((forall₂_rows quoted).mpr all)
  refine ⟨fun rows => ?_,fun text entries => ⟨fun parsed => ?_,accepts text entries⟩,fun text e failed => ?_⟩
  · apply accepts
    rw [listing_lines,List.forall₂_map_left_iff,List.forall₂_map_right_iff]
    exact List.forall₂_same.mpr fun row _ => renderTlb_row row.1
  · rcases readLines_cases "info tlb".toList (readTlb quoted) text with ⟨all,answer,rows⟩ |
      ⟨front,number,offset,line,later,cut,stands,filled,_,⟨off,_⟩ | ⟨shown,reason,refused,answer⟩⟩
    · cases answer.symm.trans parsed
      exact (forall₂_rows quoted).mp rows
    · exact (readTlb_reading quoted line off).elim
    · cases answer.symm.trans parsed
  · rcases readLines_cases "info tlb".toList (readTlb quoted) text with ⟨all,answer,rows⟩ |
      ⟨front,number,offset,line,later,cut,stands,filled,⟨entries,rows⟩,⟨off,_⟩ | ⟨shown,reason,refused,answer⟩⟩
    · cases answer.symm.trans failed
    · exact (readTlb_reading quoted line off).elim
    · cases answer.symm.trans failed
      refine ⟨front,line,later,cut,stands,?_,filled,?_,?_⟩
      · exact readTlb_shown refused
      · rintro ⟨entry,row⟩
        cases refused.symm.trans ((readTlb_iff quoted line entry).mpr row)
      · intro before member
        obtain ⟨entry,_,row⟩ := forall₂_left rows member
        exact ⟨entry,(readTlb_iff quoted before entry).mp row⟩

-- One digit for each address is enough: what is accepted need not be what is printed.
theorem short_row_accepted : ¬ ∀ quoted text entries, parseInfoTlb quoted text = .ok entries →
    (solidLines text).map trim = entries.map renderTlb := by
  intro printed
  have same := printed id "0: 0 ---------".toList [⟨0,0,⟨false,false,false,false,false,false,false,false,false⟩⟩] (by decide +kernel)
  revert same
  decide +kernel

end PrincessIDE.Monitor
