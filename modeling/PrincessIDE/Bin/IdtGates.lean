import PrincessIDE.Bin.Idt
import PrincessIDE.Bin.GuestWrite

namespace PrincessIDE.Descriptor
open Memory Fields

-- A gate as one little-endian number, and its fields at their bits.
def bitsAt (raw : Raw) (place width : Nat) : Nat := leBytes raw / 2^place % 2^width

def isPresent (raw : Raw) : Prop := bitsAt raw 47 1 = 1

def gateType (raw : Raw) : Nat := bitsAt raw 40 4

def GateKind.code : GateKind → Nat
  | interrupt => 0xE
  | trap => 0xF
  | task => 0x5

def KnownType (raw : Raw) : Prop := ∃ kind : GateKind, gateType raw = kind.code

structure Decodes (raw : Raw) (gate : IdtGate) : Prop where
  handler : gate.handler.toNat = bitsAt raw 0 16 + bitsAt raw 48 16 * 2^16 + bitsAt raw 64 32 * 2^32
  selector : gate.selector.toNat = bitsAt raw 16 16
  ist : gate.ist.toNat = bitsAt raw 32 3
  dpl : gate.dpl.toNat = bitsAt raw 45 2
  present : gate.present = true ↔ isPresent raw
  kind : KnownType raw → gate.kind.code = gateType raw

-- The gates of a table as they lie in memory.
def Image [GuestMemory μ] (memory : μ) (base : U64) (table : List Raw) : Prop :=
  ∀ i raw, table[i]? = some raw → raw.length = 16 ∧ GuestMemory.readBytes memory (base + .ofNat 64 (i*16)) 16 = .ok raw

theorem leBytes_append (a b : Raw) : leBytes (a++b) = leBytes a + 256^a.length*leBytes b := by
  rw [leBytes,List.map_append,Nat.ofDigits_append,List.length_map]
  rfl

theorem leBytes_lt (bytes : Raw) : leBytes bytes < 256^bytes.length := by
  have bound := Nat.ofDigits_lt_base_pow_length (b:=256) (by decide) (l:=bytes.map BitVec.toNat) (by
    intro digit member
    obtain ⟨byte,_,rfl⟩ := List.mem_map.mp member
    exact BitVec.isLt _)
  simpa [leBytes] using bound

section
variable {raw : Raw} (size : raw.length = 16)
include size

theorem byte_bits (inside : i < 16) : (raw.getD i 0).toNat = bitsAt raw (8*i) 8 := by
  have here : raw[i]? = some (raw.getD i 0) := by
    rw [List.getD_eq_getElem?_getD,List.getElem?_eq_getElem (by omega)]
    rfl
  rw [bitsAt,Nat.pow_mul]
  exact (digit_at here).symm

theorem halves : leBytes raw = leBytes (raw.take 8) + 2^64*leBytes (raw.drop 8) ∧ leBytes (raw.take 8) < 2^64 ∧ leBytes (raw.drop 8) < 2^64 := by
  have cut := leBytes_append (raw.take 8) (raw.drop 8)
  have low := leBytes_lt (raw.take 8)
  have high := leBytes_lt (raw.drop 8)
  have power : (256:Nat)^8 = 2^64 := by decide
  rw [List.take_append_drop,List.length_take,size,show min 8 16 = 8 from rfl,power] at cut
  rw [List.length_take,size,show min 8 16 = 8 from rfl,power] at low
  rw [List.length_drop,size,power] at high
  exact ⟨cut,low,high⟩

theorem low_word : (BitVec.ofNat 64 (leBytes (raw.take 8))).toNat = leBytes raw % 2^64 := by
  obtain ⟨cut,low,_⟩ := halves size
  rw [BitVec.toNat_ofNat]
  omega

theorem high_word : (BitVec.ofNat 64 (leBytes (raw.drop 8))).toNat = leBytes raw / 2^64 := by
  obtain ⟨cut,low,high⟩ := halves size
  rw [BitVec.toNat_ofNat]
  omega

theorem handler_bits : ((BitVec.ofNat 64 (leBytes (raw.take 8)) &&& (0xFFFF : U64)) |||
      (((BitVec.ofNat 64 (leBytes (raw.take 8)) >>> 48) &&& (0xFFFF : U64)) <<< 16) |||
      ((BitVec.ofNat 64 (leBytes (raw.drop 8)) &&& (0xFFFFFFFF : U64)) <<< 32)).toNat =
    bitsAt raw 0 16 + bitsAt raw 48 16 * 2^16 + bitsAt raw 64 32 * 2^32 := by
  have low := low_word size
  have high := high_word size
  generalize BitVec.ofNat 64 (leBytes (raw.take 8)) = rawLow at low ⊢
  generalize BitVec.ofNat 64 (leBytes (raw.drop 8)) = rawHigh at high ⊢
  have first := bits_toNat rawLow 0xFFFF (w:=16) 0 rfl
  have second := bits_toNat rawLow 0xFFFF (w:=16) 48 rfl
  have third := bits_toNat rawHigh 0xFFFFFFFF (w:=32) 0 rfl
  rw [BitVec.ushiftRight_zero,low] at first
  rw [low] at second
  rw [BitVec.ushiftRight_zero,high] at third
  have inner := join_toNat (n:=64) (s:=16) (first.trans_lt (Nat.mod_lt _ (by decide))) (by rw [second]; omega)
  rw [BitVec.or_comm (rawLow &&& 0xFFFF),BitVec.or_comm,join_toNat (by rw [inner,first,second]; omega) (by rw [third]; omega),
    inner,first,second,third]
  unfold bitsAt
  simp only [Nat.reducePow,Nat.div_one]
  omega

theorem selector_bits : (BitVec.ofNat 16 (leBytes [raw.getD 2 0,raw.getD 3 0])).toNat = bitsAt raw 16 16 := by
  have two : (raw.getD 2 0).toNat = bitsAt raw 16 8 := byte_bits size (by decide)
  have three : (raw.getD 3 0).toNat = bitsAt raw 24 8 := byte_bits size (by decide)
  have both : leBytes [raw.getD 2 0,raw.getD 3 0] = (raw.getD 2 0).toNat + 256*(raw.getD 3 0).toNat := by
    simp [leBytes,Nat.ofDigits_cons]
  rw [BitVec.toNat_ofNat,both,two,three]
  unfold bitsAt
  omega

theorem type_byte : (raw.getD 5 0 &&& (0x0F : BitVec 8)).toNat = gateType raw := by
  have five : (raw.getD 5 0).toNat = bitsAt raw 40 8 := byte_bits size (by decide)
  have low := bits_toNat (raw.getD 5 0) 0x0F (w:=4) 0 rfl
  rw [BitVec.ushiftRight_zero,five] at low
  rw [low,gateType]
  unfold bitsAt
  omega

theorem known_kind (kind : IdtGate.gateKind raw = .ok found) (known : KnownType raw) : found.code = gateType raw := by
  obtain ⟨other,type⟩ := known
  unfold IdtGate.gateKind at kind
  dsimp only at kind
  rw [type_byte size,type] at kind
  rw [type]
  cases other with
  | interrupt => cases kind; rfl
  | trap => cases kind; rfl
  | task => cases kind; rfl

-- A gate is refused for a type that is none of the three, unless it is all zero.
theorem gateKind_refused : (∃ e, IdtGate.gateKind raw = .error e) ↔ ¬ KnownType raw ∧ raw ≠ placeholder := by
  have code : ∀ kind : GateKind, kind.code = 0xE ∨ kind.code = 0xF ∨ kind.code = 0x5 := by
    intro kind
    cases kind <;> decide
  unfold IdtGate.gateKind
  dsimp only
  rw [type_byte size]
  constructor
  · rintro ⟨e,refused⟩
    split at refused
    · cases refused
    · cases refused
    · cases refused
    · rename_i one two three
      split at refused
      · cases refused
      · rename_i filled
        refine ⟨?_,filled⟩
        rintro ⟨kind,type⟩
        rcases code kind with same | same | same
        · exact one (type.trans same)
        · exact two (type.trans same)
        · exact three (type.trans same)
  · rintro ⟨unknown,filled⟩
    split
    · exact absurd ⟨.interrupt,by assumption⟩ unknown
    · exact absurd ⟨.trap,by assumption⟩ unknown
    · exact absurd ⟨.task,by assumption⟩ unknown
    · rw [if_neg filled]
      exact ⟨_,rfl⟩

theorem decode_decodes (decoded : IdtGate.decode index raw = .ok gate) : Decodes raw gate := by
  unfold IdtGate.decode at decoded
  cases kind : IdtGate.gateKind raw with
  | error e =>
    rw [kind] at decoded
    cases decoded
  | ok found =>
    rw [kind] at decoded
    cases decoded
    have four : (raw.getD 4 0).toNat = bitsAt raw 32 8 := byte_bits size (by decide)
    have five : (raw.getD 5 0).toNat = bitsAt raw 40 8 := byte_bits size (by decide)
    refine ⟨handler_bits size,selector_bits size,?_,?_,?_,known_kind size kind⟩
    · have low := bits_toNat (raw.getD 4 0) 0b111 (w:=3) 0 rfl
      rw [BitVec.ushiftRight_zero,four] at low
      refine low.trans ?_
      unfold bitsAt
      omega
    · have part := bits_toNat (raw.getD 5 0) 0b11 (w:=2) 5 rfl
      rw [five] at part
      refine part.trans ?_
      unfold bitsAt
      omega
    · refine decide_eq_true_iff.trans ((flag_iff (raw.getD 5 0) 0x80 (i:=7) rfl).trans ?_)
      rw [five,isPresent]
      unfold bitsAt
      omega

end

theorem decode_kind (kind : IdtGate.gateKind raw = .ok found) (index : Nat) : ∃ gate, IdtGate.decode index raw = .ok gate := by
  rw [IdtGate.decode,kind]
  exact ⟨_,rfl⟩

-- The type of a gate that is not all zero is none of the three.
def Refused (raw : Raw) : Prop := ¬ KnownType raw ∧ raw ≠ placeholder

theorem gateKind_error (refused : IdtGate.gateKind raw = .error e) : ∃ type, e = .invalidGateType type := by
  unfold IdtGate.gateKind at refused
  dsimp only at refused
  split at refused
  · cases refused
  · cases refused
  · cases refused
  · split at refused
    · cases refused
    · cases refused
      exact ⟨_,rfl⟩

theorem present_filled (present : isPresent raw) : raw ≠ placeholder := by
  rintro rfl
  revert present
  unfold isPresent
  decide

section
variable [GuestMemory μ] {memory : μ} {table : List Raw}

theorem readGate_image (image : Image memory base table) (here : table[i]? = some raw) : Idt.readGate memory base i = .ok raw := by
  rw [Idt.readGate,(image i raw here).2]
  rfl

-- Either every gate is taken in, or the read ends at one that is refused: by
-- induction on the gates that are left.
theorem readGates_image (image : Image memory base table) (indices : List Nat) (inside : ∀ i ∈ indices, i < table.length) :
    ((∃ gates, Idt.readGates memory base indices = .ok gates) ∧ ∀ i ∈ indices, ∀ raw, table[i]? = some raw → ¬ Refused raw) ∨
      ((∃ type, Idt.readGates memory base indices = .error (.invalidGateType type)) ∧ ∃ i ∈ indices, ∃ raw, table[i]? = some raw ∧ Refused raw) := by
  induction indices with
  | nil => exact .inl ⟨⟨[],rfl⟩,fun _ none => absurd none List.not_mem_nil⟩
  | cons i rest ih =>
    obtain ⟨raw,here⟩ : ∃ raw, table[i]? = some raw := ⟨_,List.getElem?_eq_getElem (inside i List.mem_cons_self)⟩
    have size := (image i _ here).1
    have bytes := readGate_image image here
    cases kind : IdtGate.gateKind raw with
    | error e =>
      obtain ⟨type,rfl⟩ := gateKind_error kind
      refine .inr ⟨⟨type,?_⟩,i,List.mem_cons_self,raw,here,(gateKind_refused size).mp ⟨_,kind⟩⟩
      rw [Idt.readGates,bytes]
      dsimp only [bind,Except.bind]
      rw [IdtGate.decode,kind]
      rfl
    | ok found =>
      have kept : ¬ Refused raw := by
        intro refused
        obtain ⟨e,failed⟩ := (gateKind_refused size).mpr refused
        cases kind.symm.trans failed
      obtain ⟨gate,decoded⟩ := decode_kind kind i
      rcases ih fun j member => inside j (List.mem_cons_of_mem _ member) with ⟨⟨gates,read⟩,all⟩ | ⟨⟨type,read⟩,j,member,found⟩
      · refine .inl ⟨⟨gate :: gates,?_⟩,?_⟩
        · rw [Idt.readGates,bytes]
          dsimp only [bind,Except.bind]
          rw [decoded,read]
          rfl
        · intro j member other there
          rcases List.mem_cons.mp member with rfl | later
          · cases here.symm.trans there
            exact kept
          · exact all j later other there
      · refine .inr ⟨⟨type,?_⟩,j,List.mem_cons_of_mem _ member,found⟩
        rw [Idt.readGates,bytes]
        dsimp only [bind,Except.bind]
        rw [decoded,read]

theorem read_refused (image : Image memory base table) (whole : table.length = Idt.gateCount limit) :
    (∃ type, Idt.read memory base limit = .error (.invalidGateType type)) ↔ ∃ raw ∈ table, Refused raw := by
  rcases readGates_image image (List.range (Idt.gateCount limit)) (fun i member => whole ▸ List.mem_range.mp member) with
    ⟨⟨gates,read⟩,all⟩ | ⟨⟨type,read⟩,i,_,raw,here,refused⟩
  · constructor
    · rintro ⟨type,failed⟩
      rw [Idt.read,read] at failed
      cases failed
    · rintro ⟨raw,member,refused⟩
      obtain ⟨i,here⟩ := List.mem_iff_getElem?.mp member
      have inside := (List.getElem?_eq_some_iff.mp here).1
      exact absurd refused (all i (List.mem_range.mpr (whole ▸ inside)) raw here)
  · exact ⟨fun _ => ⟨raw,List.mem_of_getElem? here,refused⟩,fun _ => ⟨type,by rw [Idt.read,read]; rfl⟩⟩

theorem read_decodes (image : Image memory base table) (whole : table.length = Idt.gateCount limit)
    (read : Idt.read memory base limit = .ok idt) : List.Forall₂ Decodes table idt.gates := by
  have each := readGates_ok (read_gates read).2
  have count := read_count read
  apply List.forall₂_of_length_eq_of_get (whole.trans count.symm)
  intro i inside inside'
  have both := each.get (i:=i) (by rw [List.length_range]; omega) inside'
  rw [List.get_eq_getElem,List.getElem_range] at both
  obtain ⟨raw,bytes,decoded⟩ := both
  have here := List.getElem?_eq_getElem inside
  cases (readGate_image image here).symm.trans bytes
  exact decode_decodes (image i _ here).1 decoded

end

-- A table of one gate, at the start of RAM.
def gateRam (gate : Raw) : GuestRam := ⟨fun address => gate[address.toNat]?,0x1000⟩

-- An interrupt gate of a higher-half kernel, and a task gate.
def interruptGate : Raw := [0x00,0x10,0x08,0x00,0x01,0x8E,0x00,0x80,0xFF,0xFF,0xFF,0xFF,0x00,0x00,0x00,0x00]
def taskGate : Raw := [0x00,0x00,0x08,0x00,0x00,0x85,0x00,0x00,0x00,0x00,0x00,0x00,0x00,0x00,0x00,0x00]

theorem gateRam_image (gate : Raw) (size : gate.length = 16) (read : GuestMemory.readBytes (gateRam gate) (0 + .ofNat 64 0) 16 = .ok gate) :
    Image (gateRam gate) 0 [gate] := by
  intro i raw here
  cases i with
  | zero =>
    cases here
    exact ⟨size,read⟩
  | succ i => cases here

theorem interruptGate_image : Image (gateRam interruptGate) 0 [interruptGate] := gateRam_image interruptGate rfl (by decide +kernel)

theorem taskGate_image : Image (gateRam taskGate) 0 [taskGate] := gateRam_image taskGate rfl (by decide +kernel)

end PrincessIDE.Descriptor
