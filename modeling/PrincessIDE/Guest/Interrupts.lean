import PrincessIDE.Guest.Boots
import PrincessIDE.Guest.Tables

namespace PrincessIDE.Fixture
open Utf8 Str Memory Overlay Descriptor Fields Serial

-- `struct idt_entry`
structure IdtEntry where
  offsetLow : BitVec 16
  selector : BitVec 16
  ist : BitVec 8
  typeAttr : BitVec 8
  offsetMid : BitVec 16
  offsetHigh : BitVec 32
  zero : BitVec 32
deriving DecidableEq, Repr

namespace IdtEntry

-- The packed structure, byte by byte.
def bytes (e : IdtEntry) : Raw :=
  littleEndian 2 e.offsetLow ++ (littleEndian 2 e.selector ++ (littleEndian 1 e.ist ++ (littleEndian 1 e.typeAttr ++
    (littleEndian 2 e.offsetMid ++ (littleEndian 4 e.offsetHigh ++ littleEndian 4 e.zero)))))

def fields (e : IdtEntry) : List Field :=
  [⟨16,e.offsetLow⟩,⟨16,e.selector⟩,⟨8,e.ist⟩,⟨8,e.typeAttr⟩,⟨16,e.offsetMid⟩,⟨32,e.offsetHigh⟩,⟨32,e.zero⟩]

end IdtEntry

def gateEntry (handler : U64) : IdtEntry where
  offsetLow := (handler &&& 0xFFFF).setWidth 16
  selector := 0x08
  ist := 0
  typeAttr := 0x8E
  offsetMid := ((handler >>> 16) &&& 0xFFFF).setWidth 16
  offsetHigh := ((handler >>> 32) &&& 0xFFFFFFFF).setWidth 32
  zero := 0

def setGate (base vector : Nat) (handler : U64) : List (Nat × Raw) := [(base+16*vector,(gateEntry handler).bytes)]

-- `isr_stub_table`
abbrev Stubs := Fin 32 → U64

def idtInit (base : Nat) (stubs : Stubs) : List (Nat × Raw) :=
  ((List.range' 0 256).flatMap fun i => setGate base i (stubs 6)) ++ (List.range' 0 32).flatMap fun i => setGate base i (stubs (.ofNat 32 i))

def idtr (base : Nat) : DescriptorRegister := ⟨256*16-1,.ofNat 64 base⟩

-- The stub that a vector is sent to.
def stubOf (vector : Nat) : Fin 32 := if vector < 32 then .ofNat 32 vector else 6

theorem bytes_length (e : IdtEntry) : e.bytes.length = 16 := by
  simp only [IdtEntry.bytes,List.length_append,littleEndian_length]

theorem leBytes_whole (n : Nat) (value : BitVec w) (width : w = 8*n) : leBytes (littleEndian n value) = value.toNat := by
  have power : (256:Nat)^n = 2^w := by rw [width]; exact (Nat.pow_mul 2 8 n).symm
  rw [leBytes_littleEndian,power,Nat.mod_eq_of_lt value.isLt]

theorem leBytes_front (n : Nat) (value : BitVec w) (rest : Raw) (width : w = 8*n) :
    leBytes (littleEndian n value ++ rest) = value.toNat + 2^w*leBytes rest := by
  have power : (256:Nat)^n = 2^w := by rw [width]; exact (Nat.pow_mul 2 8 n).symm
  rw [leBytes_append,leBytes_whole n value width,littleEndian_length,power]

theorem leBytes_fields (e : IdtEntry) : leBytes e.bytes = pack e.fields := by
  have last : pack [⟨32,e.zero⟩] = e.zero.toNat := by
    rw [pack,pack,Nat.mul_zero,Nat.add_zero]
  rw [IdtEntry.bytes,leBytes_front 2 _ _ rfl,leBytes_front 2 _ _ rfl,leBytes_front 1 _ _ rfl,leBytes_front 1 _ _ rfl,leBytes_front 2 _ _ rfl,
    leBytes_front 4 _ _ rfl,leBytes_whole 4 _ rfl,← last]
  rfl

theorem entry_bits (e : IdtEntry) (k s : Nat) (field : Field) (found : e.fields[k]? = some field) (place : width (e.fields.take k) = s) :
    bitsAt e.bytes s field.1 = field.2.toNat := by
  rw [bitsAt,leBytes_fields]
  exact pack_field e.fields k s field found place

-- The handler is put into three fields and taken out of them again.
theorem entry_handler (handler : U64) : bitsAt (gateEntry handler).bytes 0 16 + bitsAt (gateEntry handler).bytes 48 16 * 2^16 +
    bitsAt (gateEntry handler).bytes 64 32 * 2^32 = handler.toNat := by
  have low := entry_bits (gateEntry handler) 0 0 _ rfl rfl
  have mid := entry_bits (gateEntry handler) 4 48 _ rfl rfl
  have high := entry_bits (gateEntry handler) 5 64 _ rfl rfl
  have lowBits := bits_toNat handler 0xFFFF (w:=16) 0 rfl
  have midBits := bits_toNat handler 0xFFFF (w:=16) 16 rfl
  have highBits := bits_toNat handler 0xFFFFFFFF (w:=32) 32 rfl
  have small := handler.isLt
  rw [BitVec.ushiftRight_zero] at lowBits
  simp only [gateEntry,BitVec.toNat_setWidth] at low mid high
  rw [lowBits] at low
  rw [midBits] at mid
  rw [highBits] at high
  rw [gateEntry,low,mid,high]
  omega

section
variable (stubs : Stubs)

-- The 256 gates as they lie in memory.
def gateTable : List Raw := (List.range 256).map fun vector => (gateEntry (stubs (stubOf vector))).bytes

theorem gateTable_get (small : vector < 256) : (gateTable stubs)[vector]? = some (gateEntry (stubs (stubOf vector))).bytes := by
  rw [gateTable,List.getElem?_map,List.getElem?_range small]
  rfl

theorem setGate_laid (base vector : Nat) (handler : U64) (place : Nat) :
    lastLaid (setGate base vector handler) place = laid (base+16*vector,(gateEntry handler).bytes) place := lastLaid_single _ _

theorem gates_element (base first rounds : Nat) (handler : Nat → U64) (place : Nat) :
    lastLaid ((List.range' first rounds).flatMap fun i => setGate base i (handler i)) place =
      element base 16 first rounds (fun i => (gateEntry (handler i)).bytes) place :=
  lastLaid_loop first rounds (fun i _ _ => setGate_laid base i (handler i)) (fun _ _ _ => bytes_length _) place

-- The second loop comes over the first 32 gates of the first.
theorem idtInit_lays (base : Nat) (small : vector < 256) : Lays (idtInit base stubs) (base+16*vector) (gateEntry (stubs (stubOf vector))).bytes := by
  have catchAll : Lays ((List.range' 0 256).flatMap fun i => setGate base i (stubs 6)) (base+16*vector) (gateEntry (stubs 6)).bytes := by
    intro k inside
    rw [bytes_length] at inside
    rw [gates_element]
    exact element_at base (Nat.zero_le _) (by omega) inside
  by_cases own : vector < 32
  · have dedicated : Lays ((List.range' 0 32).flatMap fun i => setGate base i (stubs (.ofNat 32 i))) (base+16*vector)
        (gateEntry (stubs (.ofNat 32 vector))).bytes := by
      intro k inside
      rw [bytes_length] at inside
      rw [gates_element base 0 32 fun i => stubs (.ofNat 32 i)]
      exact element_at base (Nat.zero_le _) (by omega) inside
    rw [stubOf,if_pos own]
    exact dedicated.last _
  · have left : Leaves ((List.range' 0 32).flatMap fun i => setGate base i (stubs (.ofNat 32 i))) (base+16*vector) (gateEntry (stubs 6)).bytes.length := by
      intro k _
      rw [gates_element base 0 32 fun i => stubs (.ofNat 32 i)]
      apply element_outside
      omega
    rw [stubOf,if_neg own]
    exact catchAll.kept left

theorem idtInit_leaves (base : Nat) (apart : place+len ≤ base ∨ base+4096 ≤ place) : Leaves (idtInit base stubs) place len := by
  apply Leaves.both
  · intro k inside
    rw [gates_element base 0 256 fun _ => stubs 6]
    apply element_outside
    omega
  · intro k inside
    rw [gates_element base 0 32 fun i => stubs (.ofNat 32 i)]
    apply element_outside
    omega

end

theorem stored_readBytes {first : GuestRam} {stores : List (Nat × Raw)} {data : Raw} (lays : Lays stores place data)
    (inside : place+data.length ≤ first.size.toNat) :
    GuestMemory.readBytes (stored first stores) (.ofNat 64 place) data.length = .ok data := by
  have top := first.size.isLt
  have address : (BitVec.ofNat 64 place).toNat = place := by
    rw [BitVec.toNat_ofNat,Nat.mod_eq_of_lt (by omega)]
  obtain ⟨bytes,read⟩ : ∃ bytes, (stored first stores).readBytes (.ofNat 64 place) data.length = .ok bytes :=
    readBytes_inside (by rw [address,stored_size]; exact inside)
  have same : bytes = data := by
    rw [readBytes_cells read]
    apply List.ext_getElem
    · rw [List.length_map,List.length_range]
    · intro k _ within
      have cell : (stored first stores).bytes (.ofNat 64 (place+k)) = data[k]? := stored_cell lays (by omega) within
      rw [List.getElem_map,List.getElem_range,GuestRam.cell,← BitVec.ofNat_add,cell,List.getElem?_eq_getElem within]
      rfl
  rw [same] at read
  exact read

-- A memory whose stores lay the gates at a base.
theorem gates_image {first : GuestRam} {stores : List (Nat × Raw)} {stubs : Stubs} (room : base+4096 ≤ first.size.toNat)
    (lays : ∀ vector < 256, Lays stores (base+16*vector) (gateEntry (stubs (stubOf vector))).bytes) :
    Image (stored first stores) (.ofNat 64 base) (gateTable stubs) := by
  intro i raw here
  have small : i < 256 := by
    have inside := (List.getElem?_eq_some_iff.mp here).1
    rwa [gateTable,List.length_map,List.length_range] at inside
  rw [gateTable_get stubs small] at here
  obtain rfl := Option.some.inj here
  have size := bytes_length (gateEntry (stubs (stubOf i)))
  have place : base+16*i = base+i*16 := by omega
  have read : GuestMemory.readBytes (stored first stores) (.ofNat 64 (base+16*i)) _ = .ok _ := stored_readBytes (lays i small) (by omega)
  rw [size,place,BitVec.ofNat_add] at read
  exact ⟨size,read⟩

theorem idtInit_image {first : GuestRam} (before : List (Nat × Raw)) (stubs : Stubs) (room : base+4096 ≤ first.size.toNat) :
    Image (stored first (before ++ idtInit base stubs)) (.ofNat 64 base) (gateTable stubs) :=
  gates_image room fun _ small => (idtInit_lays stubs base small).last before

theorem entry_known (handler : U64) : KnownType (gateEntry handler).bytes ∧ gateType (gateEntry handler).bytes = GateKind.interrupt.code ∧
    isPresent (gateEntry handler).bytes ∧ bitsAt (gateEntry handler).bytes 16 16 = 8 ∧ bitsAt (gateEntry handler).bytes 32 3 = 0 ∧
    bitsAt (gateEntry handler).bytes 45 2 = 0 := by
  have type := entry_bits (gateEntry handler) 3 40 _ rfl rfl
  have selector := entry_bits (gateEntry handler) 1 16 _ rfl rfl
  have ist := entry_bits (gateEntry handler) 2 32 _ rfl rfl
  have attr : (gateEntry handler).typeAttr.toNat = 0x8E := rfl
  have none : (gateEntry handler).ist.toNat = 0 := rfl
  have code : (gateEntry handler).selector.toNat = 8 := rfl
  simp only [attr,none,code] at type selector ist
  have interrupt : GateKind.interrupt.code = 14 := rfl
  have kind : gateType (gateEntry handler).bytes = GateKind.interrupt.code := by
    rw [interrupt,gateType]
    unfold bitsAt at type ⊢
    omega
  refine ⟨⟨.interrupt,kind⟩,kind,?_,selector,?_,?_⟩
  · unfold isPresent
    unfold bitsAt at type ⊢
    omega
  · unfold bitsAt at ist ⊢
    omega
  · unfold bitsAt at type ⊢
    omega

-- What the host is to read of a gate that leads to a handler.
structure Installed (gate : IdtGate) (vector : BitVec 8) (handler : U64) : Prop where
  vector : gate.vector = vector
  handler : gate.handler = handler
  selector : gate.selector = 8
  kind : gate.kind = .interrupt
  present : gate.present = true
  dpl : gate.dpl = 0
  ist : gate.ist = 0

theorem installed_decodes (decodes : Decodes (gateEntry handler).bytes gate) (number : gate.vector = vector) : Installed gate vector handler := by
  obtain ⟨known,type,present,selector,ist,dpl⟩ := entry_known handler
  refine ⟨number,?_,?_,?_,decodes.present.mpr present,?_,?_⟩
  · exact BitVec.eq_of_toNat_eq (decodes.handler.trans (entry_handler handler))
  · exact BitVec.eq_of_toNat_eq (decodes.selector.trans selector)
  · have code := (decodes.kind known).trans type
    cases kind : gate.kind with
    | interrupt => rfl
    | trap => rw [kind] at code; exact absurd code (by decide)
    | task => rw [kind] at code; exact absurd code (by decide)
  · exact BitVec.eq_of_toNat_eq (decodes.dpl.trans dpl)
  · exact BitVec.eq_of_toNat_eq (decodes.ist.trans ist)

theorem gates_read [GuestMemory μ] {memory : μ} {base : U64} (image : Image memory base (gateTable stubs)) :
    ∃ idt, Idt.read memory base 4095 = .ok idt ∧ ∀ vector : BitVec 8, ∃ gate, idt.gate vector = some gate ∧
      Installed gate vector (stubs (stubOf vector.toNat)) := by
  have whole : (gateTable stubs).length = Idt.gateCount 4095 := by
    rw [gateTable,List.length_map,List.length_range]
    rfl
  have kept : ∀ raw ∈ gateTable stubs, ¬ Refused raw := by
    intro raw member refused
    obtain ⟨vector,_,rfl⟩ := List.mem_map.mp member
    exact refused.1 (entry_known _).1
  obtain ⟨idt,read⟩ : ∃ idt, Idt.read memory base 4095 = .ok idt := by
    rcases readGates_image image (List.range (Idt.gateCount 4095)) (fun i member => whole ▸ List.mem_range.mp member) with
      ⟨⟨gates,read⟩,_⟩ | ⟨_,i,_,raw,here,refused⟩
    · exact ⟨⟨base,4095,gates⟩,by rw [Idt.read,read]; rfl⟩
    · exact absurd refused (kept raw (List.mem_of_getElem? here))
  refine ⟨idt,read,?_⟩
  intro vector
  have decoded := read_decodes image whole read
  have small := vector.isLt
  have inside : vector.toNat < idt.gates.length := by
    rw [← decoded.length_eq,gateTable,List.length_map,List.length_range]
    exact small
  have here := List.getElem?_eq_getElem inside
  have number := (read_gate read here).2.1
  rw [vectorOf_self] at number
  have entry := gateTable_get stubs small
  obtain ⟨low,value⟩ := List.getElem?_eq_some_iff.mp entry
  have both := decoded.get low inside
  rw [List.get_eq_getElem,List.get_eq_getElem,value] at both
  exact ⟨_,(read_lookup read vector).trans here,installed_decodes both number⟩

-- The registers at the instruction that is interrupted.
structure Cpu where
  rax : U64
  rbx : U64
  rcx : U64
  rdx : U64
  rsi : U64
  rdi : U64
  rbp : U64
  r8 : U64
  r9 : U64
  r10 : U64
  r11 : U64
  r12 : U64
  r13 : U64
  r14 : U64
  r15 : U64
  rip : U64
  cs : U64
  rflags : U64
  rsp : U64
  ss : U64
deriving DecidableEq, Repr

-- What sends the CPU through the IDT. The code is that of an exception that has one.
inductive Cause where
  | exception (vector : Fin 32) (code : U64)
  | interrupt (vector : BitVec 8)
deriving DecidableEq, Repr

-- The exceptions that push an error code.
def errorVectors : List Nat := [8,10,11,12,13,14,17,21,29,30]

namespace Cause

def vector : Cause → Nat
  | exception vector _ => vector
  | interrupt vector => vector.toNat

def pushed : Cause → Option U64
  | exception vector code => if vector.val ∈ errorVectors then some code else none
  | interrupt _ => none

end Cause

-- A stack, with its top first.
def Cpu.interrupted (cpu : Cpu) (cause : Cause) : List U64 := cause.pushed.toList ++ [cpu.rip,cpu.cs,cpu.rflags,cpu.rsp,cpu.ss]

-- The second argument of each `ISR_ENTRY`.
def isrEntries : List Bool := [
  false,false,false,false,false,false,false,false,true,false,true,true,true,true,true,false,
  false,true,false,false,false,true,false,false,false,false,false,false,false,true,true,false]

def isrStub (n : Fin 32) (stack : List U64) : List U64 :=
  let stack := if isrEntries.getD n false then stack else 0 :: stack
  .ofNat 64 n :: stack

def isrCommon (cpu : Cpu) (stack : List U64) : List U64 :=
  [cpu.r15,cpu.r14,cpu.r13,cpu.r12,cpu.r11,cpu.r10,cpu.r9,cpu.r8,cpu.rbp,cpu.rdi,cpu.rsi,cpu.rdx,cpu.rcx,cpu.rbx,cpu.rax].foldl
    (fun stack pushed => pushed :: stack) stack

-- The structure that RDI points to, at the top of the stack.
def frameAt : List U64 → Option ExceptionFrame
  | rax :: rbx :: rcx :: rdx :: rsi :: rdi :: rbp :: r8 :: r9 :: r10 :: r11 :: r12 :: r13 :: r14 :: r15 :: vector :: error :: rip :: cs :: rflags :: _ =>
    some ⟨rax,rbx,rcx,rdx,rsi,rdi,rbp,r8,r9,r10,r11,r12,r13,r14,r15,vector,error,rip,cs,rflags⟩
  | _ => none

-- The CPU's side: the gate at its place in the table, and where it leads.
def fetchGate (ram : GuestRam) (idtr : DescriptorRegister) (vector : Nat) : Option Raw :=
  if vector*16+15 ≤ idtr.limit.toNat then (ram.readBytes (idtr.base + .ofNat 64 (vector*16)) 16).toOption else none

def gateTarget (raw : Raw) : Option U64 :=
  if bitsAt raw 47 1 = 1 ∧ (gateType raw = 0xE ∨ gateType raw = 0xF) then
    some (.ofNat 64 (bitsAt raw 0 16 + bitsAt raw 48 16 * 2^16 + bitsAt raw 64 32 * 2^32))
  else none

def stubAt (stubs : Stubs) (rip : U64) : Option (Fin 32) := (List.finRange 32).find? fun n => stubs n == rip

-- From the cause to the argument of `exception_dispatch`.
def deliver (ram : GuestRam) (idtr : DescriptorRegister) (stubs : Stubs) (cpu : Cpu) (cause : Cause) : Option ExceptionFrame := do
  let gate ← fetchGate ram idtr cause.vector
  let target ← gateTarget gate
  let stub ← stubAt stubs target
  frameAt (isrCommon cpu (isrStub stub (cpu.interrupted cause)))

-- The frame that the stub of a vector makes of what the CPU pushed: where the CPU
-- pushed no error code to a stub that counts on one, every field behind the
-- vector is that of the word above it.
def frameOf (cpu : Cpu) (cause : Cause) : ExceptionFrame :=
  let n := stubOf cause.vector
  let fields := if isrEntries.getD n false && cause.pushed.isNone then (cpu.rip,cpu.cs,cpu.rflags,cpu.rsp)
    else (cause.pushed.getD 0,cpu.rip,cpu.cs,cpu.rflags)
  ⟨cpu.rax,cpu.rbx,cpu.rcx,cpu.rdx,cpu.rsi,cpu.rdi,cpu.rbp,cpu.r8,cpu.r9,cpu.r10,cpu.r11,cpu.r12,cpu.r13,cpu.r14,cpu.r15,
    .ofNat 64 n,fields.1,fields.2.1,fields.2.2.1,fields.2.2.2⟩

-- isr.S knows which exceptions push an error code.
theorem isrEntries_error (n : Fin 32) : isrEntries.getD n false = decide (n.val ∈ errorVectors) := by
  revert n
  decide

theorem isr_frame (cpu : Cpu) (cause : Cause) : frameAt (isrCommon cpu (isrStub (stubOf cause.vector) (cpu.interrupted cause))) = some (frameOf cpu cause) := by
  cases cause with
  | exception vector code =>
    have own : stubOf vector.val = vector := by
      rw [stubOf,if_pos vector.isLt]
      exact Fin.ext (Nat.mod_eq_of_lt vector.isLt)
    have known := isrEntries_error vector
    by_cases pushes : vector.val ∈ errorVectors
    · rw [decide_eq_true pushes] at known
      simp only [Cause.vector,Cpu.interrupted,Cause.pushed,frameOf,isrStub,own,known,if_pos pushes]
      rfl
    · rw [decide_eq_false pushes] at known
      simp only [Cause.vector,Cpu.interrupted,Cause.pushed,frameOf,isrStub,own,known,if_neg pushes]
      rfl
  | interrupt vector =>
    cases counts : isrEntries.getD (stubOf vector.toNat) false with
    | true =>
      simp only [Cause.vector,Cpu.interrupted,Cause.pushed,frameOf,isrStub,counts]
      rfl
    | false =>
      simp only [Cause.vector,Cpu.interrupted,Cause.pushed,frameOf,isrStub,counts]
      rfl

theorem stubAt_own {stubs : Stubs} (distinct : Function.Injective stubs) (n : Fin 32) : stubAt stubs (stubs n) = some n := by
  rw [stubAt,List.find?_eq_some_iff_getElem]
  have place : n.val < (List.finRange 32).length := by
    rw [List.length_finRange]
    exact n.isLt
  refine ⟨beq_self_eq_true _,n.val,place,by rw [List.getElem_finRange]; rfl,?_⟩
  intro j before
  rw [List.getElem_finRange]
  apply Bool.not_eq_true' _ |>.mpr
  apply beq_false_of_ne
  intro same
  have index := congrArg Fin.val (distinct same)
  exact absurd index (Nat.ne_of_lt before)

theorem fetch_image {ram : GuestRam} (image : Image ram (.ofNat 64 base) (gateTable stubs)) (small : vector < 256) :
    fetchGate ram (idtr base) vector = some (gateEntry (stubs (stubOf vector))).bytes := by
  have read := (image vector _ (gateTable_get stubs small)).2
  have limit : (idtr base).limit.toNat = 4095 := rfl
  have bytes : ram.readBytes ((idtr base).base + .ofNat 64 (vector*16)) 16 = .ok (gateEntry (stubs (stubOf vector))).bytes := read
  rw [fetchGate,limit,if_pos (by omega),bytes]
  rfl

theorem entry_target (handler : U64) : gateTarget (gateEntry handler).bytes = some handler := by
  obtain ⟨_,type,present,_⟩ := entry_known handler
  rw [gateTarget,if_pos ⟨present,.inl type⟩,entry_handler,BitVec.ofNat_toNat,BitVec.setWidth_eq]

theorem deliver_image {ram : GuestRam} {stubs : Stubs} (distinct : Function.Injective stubs) (image : Image ram (.ofNat 64 base) (gateTable stubs))
    (cpu : Cpu) (cause : Cause) : deliver ram (idtr base) stubs cpu cause = some (frameOf cpu cause) := by
  have small : cause.vector < 256 := by
    cases cause with
    | exception vector code => exact Nat.lt_trans vector.isLt (by decide)
    | interrupt vector => exact vector.isLt
  rw [deliver,fetch_image image small]
  dsimp only [bind,Option.bind]
  rw [entry_target]
  dsimp only
  rw [stubAt_own distinct]
  exact isr_frame cpu cause

-- The table of `idt_init`, as the host reads it from the IDTR: a gate for every
-- vector, and in it the handler that the CPU goes to.
theorem idtInit_seen (first : GuestRam) (before : List (Nat × Raw)) (stubs : Stubs) (base : Nat) (room : base+4096 ≤ first.size.toNat) :
    ∃ idt, Idt.read (stored first (before ++ idtInit base stubs)) (idtr base).base ((idtr base).limit.setWidth 32) = .ok idt ∧
      ∀ vector : BitVec 8, ∃ gate, idt.gate vector = some gate ∧ Installed gate vector (stubs (stubOf vector.toNat)) ∧
        ∃ raw, fetchGate (stored first (before ++ idtInit base stubs)) (idtr base) vector.toNat = some raw ∧ gateTarget raw = some gate.handler := by
  have image := idtInit_image before stubs room
  have limit : (idtr base).limit.setWidth 32 = 4095 := rfl
  obtain ⟨idt,read,gates⟩ := gates_read image
  refine ⟨idt,by rw [limit]; exact read,?_⟩
  intro vector
  obtain ⟨gate,found,installed⟩ := gates vector
  refine ⟨gate,found,installed,_,fetch_image image vector.isLt,?_⟩
  rw [installed.handler]
  exact entry_target _

-- The fault that the host is to make of a cause.
def causeFault (cpu : Cpu) (cause : Cause) (error : Nat) : RawFault :=
  ⟨some (stubOf cause.vector),Serial.vectorName (stubOf cause.vector),cpu.rip.toNat,hexWord 16 cpu.rip,error,
    some (hexWord 4 cpu.cs),some (hexWord 16 cpu.rflags)⟩

-- No interrupt line is on a vector whose stub counts on an error code.
def Cause.Clear : Cause → Prop
  | .exception _ _ => True
  | .interrupt vector => vector.toNat ∉ errorVectors

theorem frame_clear (cpu : Cpu) {cause : Cause} (clear : cause.Clear) : (frameOf cpu cause).vector = .ofNat 64 (stubOf cause.vector) ∧
    (frameOf cpu cause).error = cause.pushed.getD 0 ∧ (frameOf cpu cause).rip = cpu.rip ∧ (frameOf cpu cause).cs = cpu.cs ∧
    (frameOf cpu cause).rflags = cpu.rflags := by
  have shape : (isrEntries.getD (stubOf cause.vector) false && cause.pushed.isNone) = false := by
    cases cause with
    | exception vector code =>
      have own : stubOf vector.val = vector := by
        rw [stubOf,if_pos vector.isLt]
        exact Fin.ext (Nat.mod_eq_of_lt vector.isLt)
      have known := isrEntries_error vector
      by_cases pushes : vector.val ∈ errorVectors
      · rw [Cause.pushed,if_pos pushes]
        exact Bool.and_false _
      · rw [decide_eq_false pushes] at known
        simp only [Cause.vector,own,known]
        rfl
    | interrupt vector =>
      have known := isrEntries_error (stubOf vector.toNat)
      have other : (stubOf vector.toNat).val ∉ errorVectors := by
        unfold stubOf
        split
        · rename_i small
          have same : (Fin.ofNat 32 vector.toNat).val = vector.toNat := Nat.mod_eq_of_lt small
          rw [same]
          exact clear
        · decide
      rw [decide_eq_false other] at known
      simp only [Cause.vector,known]
      rfl
  simp only [frameOf,shape,Bool.false_eq_true,if_false,and_self]

theorem hostFault_clear (cpu : Cpu) {cause : Cause} (clear : cause.Clear) (error : Nat) :
    hostFault (frameOf cpu cause) error = causeFault cpu cause error := by
  obtain ⟨vector,_,rip,cs,rflags⟩ := frame_clear cpu clear
  have small := (stubOf cause.vector).isLt
  have number : (BitVec.ofNat 64 (stubOf cause.vector).val).toNat % u32 = (stubOf cause.vector).val := by
    have word : u32 = 4294967296 := rfl
    rw [BitVec.toNat_ofNat,word]
    omega
  rw [hostFault,causeFault,vector,rip,cs,rflags,number]

-- The whole way of an exception through the reference kernel: the CPU finds the
-- gate in memory, the stub builds the frame, the dispatcher prints it, and the
-- host makes of the print what the CPU pushed.
theorem exception_seen (first : GuestRam) (before : List (Nat × Raw)) (stubs : Stubs) (distinct : Function.Injective stubs) (base : Nat)
    (room : base+4096 ≤ first.size.toNat) (cpu : Cpu) (cause : Cause) (clear : cause.Clear) (magic info : BitVec 32) (stamp : BuildStamp) :
    ∃ frame out, deliver (stored first (before ++ idtInit base stubs)) (idtr base) stubs cpu cause = some frame ∧
      Console.sent (Refkernel.run magic info stamp frame) = some out ∧
      Attributed out [.banner Refkernel.banner,.fault (causeFault cpu cause (cause.pushed.getD 0).toNat),.panicked]
        (ended Refkernel.banner none (causeFault cpu cause (cause.pushed.getD 0).toNat)) := by
  have delivered := deliver_image distinct (idtInit_image before stubs room) cpu cause
  obtain ⟨smooth,watched⟩ := refkernel_watched magic info stamp (frameOf cpu cause)
  rw [(frame_clear cpu clear).2.1,hostFault_clear cpu clear] at watched
  obtain ⟨out,sent,attributed⟩ := run_attributed smooth watched (Nat.le_of_ble_eq_true rfl)
  exact ⟨_,out,delivered,sent,attributed⟩

-- Stubs one behind the other, from 1 MiB on, and a table in the first page.
def rowOfStubs : Stubs := fun n => .ofNat 64 (0x100000+16*n)

theorem rowOfStubs_distinct : Function.Injective rowOfStubs := by
  intro a b same
  have places := congrArg BitVec.toNat same
  have low := a.isLt
  have low' := b.isLt
  simp only [rowOfStubs,BitVec.toNat_ofNat] at places
  exact Fin.ext (by omega)

theorem idtInit_seen_divide : ∃ idt, Idt.read (stored (blankRam 0x1000) (idtInit 0 rowOfStubs)) 0 4095 = .ok idt ∧
    ∃ gate, idt.gate 0 = some gate ∧ gate.handler = 0x100000 := by
  obtain ⟨idt,read,gates⟩ := idtInit_seen (blankRam 0x1000) [] rowOfStubs 0 (by decide)
  obtain ⟨gate,found,installed,_⟩ := gates 0
  exact ⟨idt,read,gate,found,installed.handler⟩

def probeCpu : Cpu := ⟨0,0,0,0,0,0,0,0,0,0,0,0,0,0,0,0x101234,8,0x10002,0x200000,0x10⟩

theorem exception_seen_page : ∃ out, Attributed out
    [.banner Refkernel.banner,.fault (causeFault probeCpu (.exception 14 2) 2),.panicked]
    (ended Refkernel.banner none (causeFault probeCpu (.exception 14 2) 2)) := by
  obtain ⟨_,out,_,_,attributed⟩ := exception_seen (blankRam 0x1000) [] rowOfStubs rowOfStubs_distinct 0 (by decide) probeCpu (.exception 14 2) trivial
    0x36D76289 0x9500 ⟨0,1,2024,0,0,0⟩
  exact ⟨out,attributed⟩

end PrincessIDE.Fixture
