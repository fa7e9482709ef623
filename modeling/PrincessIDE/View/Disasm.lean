import Mathlib.Data.List.ReduceOption
import PrincessIDE.Bin.Disasm
import PrincessIDE.Foundation.Trim

namespace PrincessIDE.DisassemblyView
open Utf8 (Text Bytes)
open Str Memory Disasm
open Event (SourceLocation)

structure DisassemblyInput where
  addr : U64
  bytes : Bytes
  mnemonic : Text
  operands : Text
  source : Option SourceLocation
  symbol : Option Text
deriving DecidableEq, Repr

structure DisassemblyRow where
  addr : U64
  bytes : Bytes
  mnemonic : Text
  operands : Text
  sourceFile : Option Text
  sourceLine : Option Nat
  symbol : Option Text
deriving DecidableEq, Repr

structure DisassemblyModel where
  rows : List DisassemblyRow
  baseAddr : U64
  totalInstructions : Nat
deriving DecidableEq, Repr

-- A pair that is not of two hex digits leaves nothing behind.
def hexPairs : Text → Bytes
  | high :: low :: rest => match digitValue 16 high,digitValue 16 low with
    | some h,some l => .ofNat (h*16+l) :: hexPairs rest
    | _,_ => hexPairs rest
  | _ => []

def hexToBytes (hex : Text) : Bytes := hexPairs (trim hex)

def parseInstructionText (text : Text) : Text × Text :=
  let mnemonic := (trim text).takeWhile fun c => !isWhitespace c
  (mnemonic,trim ((trim text).drop mnemonic.length))

def parseAddress (address : Text) : U64 :=
  (parseHexAddress (trimStartMatches "0X".toList (trimStartMatches "0x".toList address))).getD 0

def DisassemblyInput.fromInstruction (inst : DisassembledInstruction) : DisassemblyInput :=
  let read := parseInstructionText inst.text
  ⟨parseAddress inst.address,hexToBytes inst.bytes,read.1,read.2,inst.source,inst.symbol⟩

def DisassemblyInput.row (input : DisassemblyInput) : DisassemblyRow :=
  ⟨input.addr,input.bytes,input.mnemonic,input.operands,input.source.map (·.file),input.source.map (·.line),input.symbol⟩

def build (inputs : List DisassemblyInput) : DisassemblyModel :=
  let rows := inputs.map DisassemblyInput.row
  ⟨rows,(rows.head?.map (·.addr)).getD 0,rows.length⟩

example : hexToBytes "4889e5".toList = [0x48,0x89,0xe5] := by decide

-- The address of a row is the one that the disassembler shows.
theorem padded_unprefixed (width n : Nat) (pat : Text) (foreign : (pat.any fun c => !isHexDigit c) = true) :
    trimStartMatches pat (padded width n) = padded width n := by
  refine trimStartMatches_other ?_
  cases found : stripPrefix pat (padded width n) with
  | none => rfl
  | some rest =>
    obtain ⟨c,member,other⟩ := List.any_eq_true.mp foreign
    have inside : c ∈ padded width n := stripPrefix_eq found ▸ List.mem_append_left _ member
    rw [padded_hex inside] at other
    cases other

theorem fromInstruction_addr (d : Disassembler) (s : Surroundings) (buffer : Bytes) (base : U64) (i : Instruction) :
    (DisassemblyInput.fromInstruction (d.renderAny s buffer base i)).addr = d.shown i := by
  have written : (d.renderAny s buffer base i).address = padded 16 (d.shown i).toNat := by
    unfold Disassembler.renderAny
    cases i.invalid <;> rfl
  change parseAddress _ = _
  rw [written,parseAddress,padded_unprefixed _ _ _ (by decide),padded_unprefixed _ _ _ (by decide),parseHexAddress_padded]
  rfl

-- The bytes of an instruction, with those that could not be read, as the
-- disassembler writes them.
def byteText : Option UInt8 → Text
  | some byte => padded 2 byte.toNat
  | none => "??".toList

def hexText (bytes : List (Option UInt8)) : Text := bytes.flatMap byteText

-- Reading back finds at every position the byte that was there, and no other.
def InPlace (bytes : List (Option α)) (out : List α) : Prop := ∀ (i : Nat) (a : α), out[i]? = some a ↔ bytes[i]? = some (some a)

def UnreadLast (bytes : List (Option α)) : Prop := bytes.Pairwise fun earlier later => earlier = none → later = none

theorem byteText_some (byte : UInt8) : ∃ high low h l, byteText (some byte) = [high,low] ∧ digitValue 16 high = some h ∧ digitValue 16 low = some l ∧
    h*16+l = byte.toNat := by
  have two : (byteText (some byte)).length = 2 := (byte_hex byte).1
  obtain ⟨high,low,text⟩ := List.length_eq_two.mp two
  have read := readDigits_padded byte.toNat_lt 2
  have written : padded 2 byte.toNat = [high,low] := text
  rw [written,readDigits] at read
  cases first : digitValue 16 high with
  | none => simp [first] at read
  | some h =>
    cases second : digitValue 16 low with
    | none => simp [first,second,readDigits] at read
    | some l =>
      refine ⟨high,low,h,l,text,first,second,?_⟩
      simp only [first,second,readDigits,Nat.zero_mul,Nat.zero_add,Option.ite_none_right_eq_some] at read
      exact Option.some.inj read.2.2

theorem byteText_plain (found : Option UInt8) (member : c ∈ byteText found) : isWhitespace c = false := by
  cases found with
  | none =>
    have solid : ("??".toList.all fun c => !isWhitespace c) = true := by decide
    simpa using List.all_eq_true.mp solid c member
  | some byte => exact (hexDigit_plain (padded_hex member)).1

theorem hexPairs_hexText (bytes : List (Option UInt8)) : hexPairs (hexText bytes) = bytes.reduceOption := by
  induction bytes with
  | nil => rfl
  | cons found bytes ih =>
    cases found with
    | none =>
      change hexPairs ('?' :: '?' :: hexText bytes) = _
      rw [hexPairs,List.reduceOption_cons_of_none]
      exact ih
    | some byte =>
      obtain ⟨high,low,h,l,text,first,second,value⟩ := byteText_some byte
      change hexPairs (byteText (some byte) ++ hexText bytes) = _
      rw [text,List.cons_append,List.cons_append,List.nil_append,hexPairs,first,second,List.reduceOption_cons_of_some,← ih]
      change UInt8.ofNat (h*16+l) :: _ = _
      rw [value,UInt8.ofNat_toNat]

theorem hexToBytes_hexText (bytes : List (Option UInt8)) : hexToBytes (hexText bytes) = bytes.reduceOption := by
  have solid : ∀ c ∈ hexText bytes, isWhitespace c = false := by
    intro c member
    obtain ⟨found,_,inside⟩ := List.mem_flatMap.mp member
    exact byteText_plain found inside
  have trimmed : Trimmed (hexText bytes) :=
    ⟨fun c first => solid c (List.mem_of_mem_head? first),fun c last => solid c (List.mem_of_mem_getLast? last)⟩
  rw [hexToBytes,trimmed.trim_eq,hexPairs_hexText]

-- By induction on the bytes: behind one that could not be read, none was read.
theorem reduceOption_inPlace (bytes : List (Option α)) : InPlace bytes bytes.reduceOption ↔ UnreadLast bytes := by
  induction bytes with
  | nil => exact ⟨fun _ => .nil,fun _ i a => by simp⟩
  | cons found bytes ih =>
    unfold UnreadLast at ih ⊢
    rw [List.pairwise_cons]
    cases found with
    | none =>
      rw [List.reduceOption_cons_of_none]
      constructor
      · intro placed
        have nothing : bytes.reduceOption = [] := by
          cases kept : bytes.reduceOption with
          | nil => rfl
          | cons a rest =>
            rw [kept] at placed
            have first := (placed 0 a).mp rfl
            simp at first
        have unread : ∀ later ∈ bytes, later = none := by
          intro later member
          cases later with
          | none => rfl
          | some a =>
            have kept := List.reduceOption_mem_iff.mpr member
            rw [nothing] at kept
            cases kept
        exact ⟨fun later member _ => unread later member,ih.mp fun i a => ⟨fun here => by simp [nothing] at here,
          fun here => absurd (unread _ (List.mem_of_getElem? here)) (by simp)⟩⟩
      · rintro ⟨unread,_⟩ i a
        have nothing : bytes.reduceOption = [] :=
          List.eq_nil_iff_forall_not_mem.mpr fun a kept => absurd (unread _ (List.reduceOption_mem_iff.mp kept) rfl) (by simp)
        rw [nothing]
        refine ⟨fun here => by simp at here,fun here => ?_⟩
        cases i with
        | zero => simp at here
        | succ i => exact absurd (unread _ (List.mem_of_getElem? here) rfl) (by simp)
    | some b =>
      rw [List.reduceOption_cons_of_some]
      refine ⟨fun placed => ⟨fun _ _ read => (nomatch read),ih.mp fun i a => placed (i+1) a⟩,?_⟩
      rintro ⟨_,rest⟩ i a
      cases i with
      | zero => simp
      | succ i => exact ih.mpr rest i a

theorem instructionBytesAt_hexText (buffer : Bytes) (base : U64) (i : Instruction) : ∃ start, instructionBytesAt buffer base i =
    hexText ((List.range i.len).map fun index => buffer[start+index]?) := by
  refine ⟨if base ≤ i.ip then (i.ip - base).toNat else 0,?_⟩
  rw [hexText,List.flatMap_map]
  rfl

-- A window ends once, so what is behind its end comes last.
theorem window_unreadLast (buffer : List α) (start len : Nat) : UnreadLast ((List.range len).map fun index => buffer[start+index]?) := by
  unfold UnreadLast
  rw [List.pairwise_map]
  refine List.pairwise_lt_range.imp fun before ended => ?_
  rw [List.getElem?_eq_none_iff] at ended ⊢
  omega

-- The texts of the disassembler itself have the bytes that it could not read at
-- their end; in any other text such a byte moves those behind it.
theorem view_bytes_iff (bytes : List (Option UInt8)) : (InPlace bytes (hexToBytes (hexText bytes)) ↔ UnreadLast bytes) ∧
    ∀ buffer base i, ∃ rendered, instructionBytesAt buffer base i = hexText rendered ∧ UnreadLast rendered := by
  refine ⟨?_,fun buffer base i => ?_⟩
  · rw [hexToBytes_hexText]
    exact reduceOption_inPlace bytes
  · obtain ⟨start,text⟩ := instructionBytesAt_hexText buffer base i
    exact ⟨_,text,window_unreadLast buffer start i.len⟩

theorem unread_shifts : hexToBytes "??e5".toList = [0xe5] ∧ ¬ ∀ bytes, InPlace bytes (hexToBytes (hexText bytes)) := by
  have read : hexToBytes (hexText [none,some 0xe5]) = [0xe5] := by decide
  refine ⟨by decide,fun law => ?_⟩
  have shifted := (law [none,some 0xe5] 0 0xe5).mp (by rw [read]; rfl)
  cases shifted

end PrincessIDE.DisassemblyView
