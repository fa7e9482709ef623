import PrincessIDE.Guest.Lines
import PrincessIDE.Bin.GuestMemory

namespace PrincessIDE.Fixture
open Utf8 Str Memory Console Serial

-- `struct exception_frame`, from the last register pushed to what the CPU pushed.
structure ExceptionFrame where
  rax : U64
  rbx : U64
  rcx : U64
  rdx : U64
  rsi : U64
  rdi : U64
  rbp : U64
  r8 : U64
  r9 : U64
  r10 : U64
  r11 : U64
  r12 : U64
  r13 : U64
  r14 : U64
  r15 : U64
  vector : U64
  error : U64
  rip : U64
  cs : U64
  rflags : U64
deriving DecidableEq, Repr

def vectorName (vector : U64) : Text := match vector.toNat with
  | 0 => literal "#DE divide error"
  | 1 => literal "#DB debug"
  | 2 => literal "NMI"
  | 3 => literal "#BP breakpoint"
  | 4 => literal "#OF overflow"
  | 5 => literal "#BR bound range exceeded"
  | 6 => literal "#UD invalid opcode"
  | 7 => literal "#NM device not available"
  | 8 => literal "#DF double fault"
  | 10 => literal "#TS invalid TSS"
  | 11 => literal "#NP segment not present"
  | 12 => literal "#SS stack-segment fault"
  | 13 => literal "#GP general protection"
  | 14 => literal "#PF page fault"
  | 16 => literal "#MF x87 floating-point"
  | 17 => literal "#AC alignment check"
  | 18 => literal "#MC machine check"
  | 19 => literal "#XM SIMD floating-point"
  | 21 => literal "#CP control protection"
  | _ => literal "unknown exception"

-- `__DATE__` and `__TIME__`
structure BuildStamp where
  month : Fin 12
  day : Nat
  year : Nat
  hour : Nat
  minute : Nat
  second : Nat
deriving DecidableEq, Repr

def monthNames : List String := ["Jan","Feb","Mar","Apr","May","Jun","Jul","Aug","Sep","Oct","Nov","Dec"]

namespace BuildStamp

def date (stamp : BuildStamp) : Text :=
  literal monthNames[stamp.month] ++ ' ' :: (decimal stamp.day).leftpad 2 ' ' ++ ' ' :: (decimal stamp.year).leftpad 4 '0'

def time (stamp : BuildStamp) : Text :=
  (decimal stamp.hour).leftpad 2 '0' ++ ':' :: (decimal stamp.minute).leftpad 2 '0' ++ ':' :: (decimal stamp.second).leftpad 2 '0'

end BuildStamp

def bootName (magic : BitVec 32) : Text :=
  if magic = 0x2BADB002 then literal "multiboot 1"
  else if magic = 0x36D76289 then literal "multiboot 2"
  else literal "unrecognised"

namespace Refkernel

def banner : Text := literal "PrincessIDE reference kernel booted"
def imageMagic : U64 := 0x1DEA0C0FFEE0BEEF

def exceptionDispatch (frame : ExceptionFrame) : List Call := [
  .printf [],
  .printf [lit "[refkernel] EXCEPTION: vector=0x",hexLong 2 frame.vector,lit " (",str (vectorName frame.vector),lit ")"],
  .printf [lit "[refkernel] FAULT_RIP=0x",hexLong 16 frame.rip,lit " cs=0x",hexLong 4 frame.cs,lit " rflags=0x",hexLong 16 frame.rflags,
    lit " error=0x",hexLong 16 frame.error],
  .printf [lit "[refkernel] PANIC: unhandled CPU exception, halting"]]

-- Up to the `ud2` of `refkernel_fault_probe`.
def kernelMain (magic info : BitVec 32) (stamp : BuildStamp) : List Call := [
  .puts banner,
  .printf [lit "[refkernel] multiboot: magic=0x",hexInt 8 magic,lit " info=0x",hexInt 8 info,lit " (",str (bootName magic),lit ")"],
  .printf [lit "[refkernel] cpu: long mode active, identity map 0x0..0x40000000"],
  .printf [lit "[refkernel] build: ",.text stamp.date,lit " ",.text stamp.time],
  .printf [lit "[refkernel] data segment image magic=0x",hexLong 16 imageMagic],
  .printf [lit "[refkernel] idt installed, raising controlled fault in refkernel_fault_probe()"]]

-- The run up to the halt: the exception the CPU raises in the probe is dispatched.
def run (magic info : BitVec 32) (stamp : BuildStamp) (frame : ExceptionFrame) : List Call :=
  kernelMain magic info stamp ++ exceptionDispatch frame

end Refkernel

structure ControlRegisters where
  cr0 : U64
  cr2 : U64
  cr3 : U64
  cr4 : U64
deriving DecidableEq, Repr

-- `struct descriptor_register`
structure DescriptorRegister where
  limit : BitVec 16
  base : U64
deriving DecidableEq, Repr

namespace PagingKernel

def banner : Text := literal "PrincessIDE paging kernel booted"
def imageMagic : U64 := 0x9051DEADBEEFCAFE
def entryAddrMask : U64 := 0x000FFFFFFFFFF000
def unmappedAddr : U64 := 0x0000000000400000

def pteFlag (entry flag : U64) : U64 := if entry &&& flag ≠ 0 then 1 else 0

-- The identity map makes a physical address a pointer; `none` is a load that faults.
def load (ram : GuestRam) (table : U64) (index : Nat) : Option U64 := (ram.readU64 (table + .ofNat 64 (8*index))).toOption

def loadBytes (ram : GuestRam) (address : U64) (len : Nat) : Option (List (BitVec 8)) := (ram.readBytes address len).toOption

def printEntry (label : String) (index : BitVec 32) (entry : U64) : Call :=
  .printf [lit "[pagingkernel] ",str (literal label),lit "[",decInt index,lit "] = 0x",hexLong 16 entry,
    lit " -> phys=0x",hexLong 16 (entry &&& entryAddrMask),lit " P=",decLong (pteFlag entry 1),lit " RW=",decLong (pteFlag entry 2),
    lit " US=",decLong (pteFlag entry 4)]

def gateByte (gate : List (BitVec 8)) (i : Nat) : U64 := (gate.getD i 0).setWidth 64

def gateHandler (gate : List (BitVec 8)) : U64 :=
  gateByte gate 0 ||| (gateByte gate 1 <<< 8) ||| (gateByte gate 6 <<< 16) ||| (gateByte gate 7 <<< 24) |||
    (gateByte gate 8 <<< 32) ||| (gateByte gate 9 <<< 40) ||| (gateByte gate 10 <<< 48) ||| (gateByte gate 11 <<< 56)

def gateSelector (gate : List (BitVec 8)) : BitVec 32 := (gate.getD 2 0).setWidth 32 ||| ((gate.getD 3 0).setWidth 32 <<< 8)

def registerLine (name : String) (register : DescriptorRegister) : Call :=
  .printf [lit name,lit " base=0x",hexLong 16 register.base,lit " limit=0x",hexInt 4 (register.limit.setWidth 32),lit " (",
    decInt (register.limit.setWidth 32 + 1),lit " bytes)"]

def gdtLine (i : Nat) (raw : U64) : Call := .printf [lit "[pagingkernel] GDT[",decInt (.ofNat 32 i),lit "]=0x",hexLong 16 raw]

def gateLine (gate : List (BitVec 8)) : Call :=
  .printf [lit "[pagingkernel] IDT[14] (#PF) handler=0x",hexLong 16 (gateHandler gate),lit " sel=0x",hexInt 4 (gateSelector gate),
    lit " ist=",decInt ((gate.getD 4 0).setWidth 32),lit " type=0x",hexInt 2 ((gate.getD 5 0).setWidth 32)]

def gdtLines (ram : GuestRam) (base : U64) : List Nat → Option (List Call)
  | [] => some []
  | i :: later => do
    let raw ← load ram base i
    let rest ← gdtLines ram base later
    return gdtLine i raw :: rest

def reportDescriptors (ram : GuestRam) (gdtr idtr : DescriptorRegister) : Option (List Call) := do
  let slots ← gdtLines ram gdtr.base (List.range ((gdtr.limit.toNat+1)/8))
  let gate ← loadBytes ram (idtr.base + 14*16) 12
  return registerLine "[pagingkernel] GDTR" gdtr :: registerLine "[pagingkernel] IDTR" idtr :: slots ++ [gateLine gate]

def stateLines (regs : ControlRegisters) : List Call := [
  .puts (literal "[pagingkernel] ---- paging state ----"),
  .printf [lit "[pagingkernel] CR0=0x",hexLong 16 regs.cr0,lit " CR2=0x",hexLong 16 regs.cr2,lit " CR3=0x",hexLong 16 regs.cr3,
    lit " CR4=0x",hexLong 16 regs.cr4]]

def pagingLine (regs : ControlRegisters) : Call :=
  .printf [lit "[pagingkernel] CR0.PG=",decLong ((regs.cr0 >>> 31) &&& 1),lit " CR0.PE=",decLong (regs.cr0 &&& 1),
    lit " CR4.PAE=",decLong ((regs.cr4 >>> 5) &&& 1)]

-- The entries that the report reads, from the live CR3 down.
structure Entries where
  pml4e : U64
  pdpte : U64
  pde0 : U64
  pde1 : U64
  pde2 : U64
  pte0 : U64
  pte510 : U64
  pte511 : U64
deriving DecidableEq, Repr

def readEntries (ram : GuestRam) (cr3 : U64) : Option Entries := do
  let pml4e ← load ram (cr3 &&& entryAddrMask) 0
  let pdpte ← load ram (pml4e &&& entryAddrMask) 0
  let pd := pdpte &&& entryAddrMask
  let pde0 ← load ram pd 0
  let pt := pde0 &&& entryAddrMask
  let pde1 ← load ram pd 1
  let pde2 ← load ram pd 2
  let pte0 ← load ram pt 0
  let pte510 ← load ram pt 510
  let pte511 ← load ram pt 511
  return ⟨pml4e,pdpte,pde0,pde1,pde2,pte0,pte510,pte511⟩

def walkLines (e : Entries) : List Call := [
  .puts (literal "[pagingkernel] ---- CR3 page-table walk ----"),
  printEntry "PML4" 0 e.pml4e,
  printEntry "PDPT" 0 e.pdpte,
  printEntry "PD" 0 e.pde0,
  printEntry "PD" 1 e.pde1,
  printEntry "PD" 2 e.pde2,
  printEntry "PT" 0 e.pte0,
  printEntry "PT" 510 e.pte510,
  printEntry "PT" 511 e.pte511,
  .puts (literal "[pagingkernel] ---- mapping summary ----"),
  .puts (literal "[pagingkernel] map 0x0000000000000000-0x00000000001fffff 4KiB pages RW (PT[0..510]), hole at 0x1ff000"),
  .puts (literal "[pagingkernel] map 0x0000000000200000-0x00000000003fffff 2MiB huge  RW (PD[1])"),
  .puts (literal "[pagingkernel] map 0x0000000000400000-0x00000000005fffff NOT PRESENT    (PD[2] deliberately absent)"),
  .puts (literal "[pagingkernel] map 0x0000000000600000-0x000000003fffffff 2MiB huge  RW (PD[3..511])")]

def enabledLines (regs : ControlRegisters) : List Call := [
  .printf [lit "[pagingkernel] PAGING_ENABLED cr3=0x",hexLong 16 regs.cr3,lit " cr0=0x",hexLong 16 regs.cr0],
  .printf [lit "[pagingkernel] unmapped probe target: 0x",hexLong 16 unmappedAddr,lit " (PD[2] absent)"]]

def pagingReport (ram : GuestRam) (regs : ControlRegisters) (gdtr idtr : DescriptorRegister) : Option (List Call) := do
  let entries ← readEntries ram regs.cr3
  let descriptors ← reportDescriptors ram gdtr idtr
  return stateLines regs ++ pagingLine regs :: walkLines entries ++ descriptors ++ enabledLines regs

def frontLines (magic info : BitVec 32) (stamp : BuildStamp) (idtr : DescriptorRegister) : List Call := [
  .printf [lit "[pagingkernel] multiboot: magic=0x",hexInt 8 magic,lit " info=0x",hexInt 8 info,lit " (",str (bootName magic),lit ")"],
  .printf [lit "[pagingkernel] build: ",.text stamp.date,lit " ",.text stamp.time],
  .printf [lit "[pagingkernel] data segment image magic=0x",hexLong 16 imageMagic],
  .printf [lit "[pagingkernel] IDT installed at 0x",hexLong 16 idtr.base,lit " limit=0x",hexInt 4 (idtr.limit.setWidth 32),
    lit " (#UD + #PF gates ready)"]]

def probeLine : Call :=
  .printf [lit "[pagingkernel] dereferencing deliberately unmapped address 0x",hexLong 16 unmappedAddr,lit " ..."]

-- What the kernel finds in the machine, and what the handler finds after the fault.
structure Machine where
  magic : BitVec 32
  info : BitVec 32
  ram : GuestRam
  regs : ControlRegisters
  gdtr : DescriptorRegister
  idtr : DescriptorRegister
  atFault : ControlRegisters

-- Up to the load of `paging_fault_probe`.
def kernelMain (m : Machine) (stamp : BuildStamp) : Option (List Call) := do
  let report ← pagingReport m.ram m.regs m.gdtr m.idtr
  return .puts banner :: frontLines m.magic m.info stamp m.idtr ++ report ++ [probeLine]

def pageFaultLines (error : U64) (regs : ControlRegisters) : List Call := [
  .printf [lit "[pagingkernel] FAULT_ADDR=0x",hexLong 16 regs.cr2],
  .printf [lit "[pagingkernel] PAGE_FAULT cause=",str (literal (if error &&& 1 ≠ 0 then "protection-violation" else "not-present")),
    lit " access=",str (literal (if error &&& 2 ≠ 0 then "write" else "read")),
    lit " ring=",str (literal (if error &&& 4 ≠ 0 then "user" else "supervisor")),
    lit " rsvd=",decLong ((error >>> 3) &&& 1),lit " instr_fetch=",decLong ((error >>> 4) &&& 1)],
  .printf [lit "[pagingkernel] PAGE_FAULT cr3=0x",hexLong 16 regs.cr3,lit " cr0=0x",hexLong 16 regs.cr0,lit " cr4=0x",hexLong 16 regs.cr4]]

def errorLines (frame : ExceptionFrame) (regs : ControlRegisters) : List Call :=
  .printf [lit "[pagingkernel] FAULT_ERROR=0x",hexLong 16 frame.error] ::
    if frame.vector = 14 then pageFaultLines frame.error regs else []

def exceptionDispatch (frame : ExceptionFrame) (regs : ControlRegisters) : List Call :=
  [.puts [],
    .printf [lit "[pagingkernel] EXCEPTION: vector=0x",hexLong 2 frame.vector,lit " (",str (vectorName frame.vector),lit ")"],
    .printf [lit "[pagingkernel] FAULT_RIP=0x",hexLong 16 frame.rip,lit " cs=0x",hexLong 4 frame.cs,lit " rflags=0x",hexLong 16 frame.rflags]] ++
  errorLines frame regs ++ [.printf [lit "[pagingkernel] PANIC: unhandled CPU exception, halting"]]

def run (m : Machine) (stamp : BuildStamp) (frame : ExceptionFrame) : Option (List Call) :=
  (kernelMain m stamp).map (· ++ exceptionDispatch frame m.atFault)

end PagingKernel
end PrincessIDE.Fixture
