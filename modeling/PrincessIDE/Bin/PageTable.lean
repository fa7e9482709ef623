import PrincessIDE.Bin.GuestMemory
import PrincessIDE.Foundation.Fields
import PrincessIDE.Foundation.Paging

namespace PrincessIDE.PageTable
open Memory

def entryAddressMask : U64 := 0x000FFFFFFFFFF000
def bitPs : U64 := 1 <<< 7
def bitPresent : U64 := 1 <<< 0
def bitNx : U64 := 1 <<< 63

structure Cr0 where
  value : U64
deriving DecidableEq, Repr
def Cr0.pagingEnabled (cr0 : Cr0) : Bool := cr0.value &&& (1 <<< 31) ≠ 0

structure Cr4 where
  value : U64
deriving DecidableEq, Repr
def Cr4.la57 (cr4 : Cr4) : Bool := cr4.value &&& (1 <<< 12) ≠ 0

structure Efer where
  value : U64
deriving DecidableEq, Repr
def Efer.lma (efer : Efer) : Bool := efer.value &&& (1 <<< 10) ≠ 0

structure Cr3 where
  value : U64
deriving DecidableEq, Repr
def Cr3.tableAddress (cr3 : Cr3) : U64 := cr3.value &&& entryAddressMask

inductive Level where
  | pml5 | pml4 | pdpt | pd | pt
deriving DecidableEq, Repr

namespace Level

def indexBits : Level → Nat × Nat
  | pml5 => (56,48)
  | pml4 => (47,39)
  | pdpt => (38,30)
  | pd => (29,21)
  | pt => (20,12)

def hugePageAllowed : Level → Bool
  | pdpt | pd => true
  | _ => false

def hugePageSize : Level → Option U64
  | pdpt => some (1024*1024*1024)
  | pd => some (2*1024*1024)
  | _ => none

theorem hugePageSize_allowed {level : Level} (allowed : level.hugePageAllowed = true) : level.hugePageSize.isSome := by
  cases level <;> first | rfl | cases allowed

end Level

structure PageTableEntry where
  raw : U64
  present : Bool
  writable : Bool
  user : Bool
  pwt : Bool
  pcd : Bool
  accessed : Bool
  dirty : Bool
  pageSize : Bool
  global : Bool
  available : BitVec 8
  addressBits : U64
  reserved : BitVec 16
  protectionKey : BitVec 8
  noExecute : Bool
deriving DecidableEq, Repr

namespace PageTableEntry

def decode (raw : U64) : PageTableEntry where
  raw := raw
  present := raw &&& bitPresent ≠ 0
  writable := raw &&& (1 <<< 1) ≠ 0
  user := raw &&& (1 <<< 2) ≠ 0
  pwt := raw &&& (1 <<< 3) ≠ 0
  pcd := raw &&& (1 <<< 4) ≠ 0
  accessed := raw &&& (1 <<< 5) ≠ 0
  dirty := raw &&& (1 <<< 6) ≠ 0
  pageSize := raw &&& bitPs ≠ 0
  global := raw &&& (1 <<< 8) ≠ 0
  available := ((raw >>> 9) &&& 0b111).setWidth 8
  addressBits := raw &&& entryAddressMask
  reserved := ((raw >>> 52) &&& 0x7F).setWidth 16
  protectionKey := ((raw >>> 59) &&& 0xF).setWidth 8
  noExecute := raw &&& bitNx ≠ 0

def tablePhysicalAddress (entry : PageTableEntry) : U64 := entry.addressBits

def leafPhysicalAddress (entry : PageTableEntry) (level : Level) : Option U64 :=
  if entry.pageSize then some (match level with
    | .pdpt => entry.raw &&& 0x000FFFFFC0000000
    | .pd => entry.raw &&& 0x000FFFFFFFE00000
    | _ => entry.tablePhysicalAddress)
  else none

theorem leafPhysicalAddress_large {entry : PageTableEntry} (large : entry.pageSize = true) (level : Level) :
    (entry.leafPhysicalAddress level).isSome := by
  simp [leafPhysicalAddress,large]

end PageTableEntry

inductive LeafSize where
  | page4K | huge2M | huge1G
deriving DecidableEq, Repr

structure WalkLevel where
  level : Level
  index : BitVec 16
  tableAddress : U64
  entryAddress : U64
  entry : PageTableEntry
deriving DecidableEq, Repr

inductive WalkError where
  | pagingDisabled (cr0 : U64)
  | notLongMode (efer : U64)
  | nonCanonical (address : U64) (bits : Nat)
  | tableNotInRam (level : Level) (address : U64)
  | memory (level : Level) (source : MemoryError)
  | notPresent (level : Level) (index : BitVec 16) (raw : U64)
  | cycle (address : U64) (level : Level)
  | reservedPageSizeBit (level : Level) (raw : U64)
  | leafOutOfRange (address : U64)
deriving DecidableEq, Repr

structure PageTableWalk where
  address : U64
  levels : List WalkLevel
  leafSize : LeafSize
  physicalBase : U64
  pageOffset : U64
  leaf : PageTableEntry
  la57 : Bool
deriving DecidableEq, Repr
def PageTableWalk.physicalAddress (walk : PageTableWalk) : U64 := walk.physicalBase ||| walk.pageOffset

inductive Canonicality where
  | canonical | nonCanonical
deriving DecidableEq, Repr

-- Shifting up and arithmetically down again sign-extends the low `bits` bits.
def canonicality (address : U64) (bits : Nat) : Canonicality :=
  if ¬ (1 ≤ bits ∧ bits ≤ 64) then .canonical
  else if bits-1 ≥ 63 then .canonical
  else if (address <<< (64-bits)).sshiftRight (64-bits) = address then .canonical
  else .nonCanonical

structure Walker (μ : Type) where
  memory : μ
  cr0 : Cr0
  cr4 : Cr4
  efer : Efer

def checkedAdd (a b : U64) : Option U64 := if a.toNat+b.toNat < 2^64 then some (a+b) else none

def tableIndex (address : U64) (level : Level) : BitVec 16 :=
  let (high,low) := level.indexBits
  let width : U64 := 1 <<< (high-low+1)
  ((address >>> low) &&& (width-1)).setWidth 16

namespace Walker
variable [GuestMemory μ]

def new (memory : μ) (cr0 : Cr0) (cr4 : Cr4) (efer : Efer) : Except WalkError (Walker μ) :=
  if !cr0.pagingEnabled then .error (.pagingDisabled cr0.value)
  else if !efer.lma then .error (.notLongMode efer.value)
  else .ok ⟨memory,cr0,cr4,efer⟩

-- The guard on an address the walk is about to use, where the source of memory
-- knows its extent.
def outsideRam (walker : Walker μ) (address : U64) : Bool :=
  (GuestMemory.ramSize walker.memory).isSome && !GuestMemory.isRam walker.memory address

def finish (walker : Walker μ) (address : U64) (levels : List WalkLevel) (leafSize : LeafSize)
    (physicalBase pageOffset : U64) (leaf : PageTableEntry) : Except WalkError PageTableWalk :=
  match checkedAdd physicalBase pageOffset with
  | none => .error (.leafOutOfRange physicalBase)
  | some physical =>
    if walker.outsideRam physical then .error (.leafOutOfRange physical)
    else .ok ⟨address,levels,leafSize,physicalBase,pageOffset,leaf,walker.cr4.la57⟩

-- The loop over the levels from `level` on; `below` are the levels after it,
-- and an entry of the last one that is no large page is the 4 KiB leaf.
def visit (walker : Walker μ) (address : U64) (visited : List U64) (levels : List WalkLevel) (table : U64)
    (level : Level) (below : List Level) : Except WalkError PageTableWalk :=
  if walker.outsideRam table then .error (.tableNotInRam level table)
  else if visited.contains table then .error (.cycle table level)
  else
    let index := tableIndex address level
    let entryAddress := table + index.setWidth 64 * 8
    match GuestMemory.readU64 walker.memory entryAddress with
    | .error source => .error (.memory level source)
    | .ok raw =>
      let entry := PageTableEntry.decode raw
      let levels := levels ++ [⟨level,index,table,entryAddress,entry⟩]
      if large : entry.pageSize then
        if allowed : level.hugePageAllowed then
          let size := level.hugePageSize.get (Level.hugePageSize_allowed allowed)
          let leafSize := if size = 1024*1024*1024 then .huge1G else .huge2M
          let physicalBase := (entry.leafPhysicalAddress level).get (PageTableEntry.leafPhysicalAddress_large large level)
          walker.finish address levels leafSize physicalBase (address &&& (size-1)) entry
        else .error (.reservedPageSizeBit level raw)
      else if !entry.present then .error (.notPresent level index raw)
      else match below with
        | [] => walker.finish address levels .page4K entry.tablePhysicalAddress (address &&& 0xFFF) entry
        | next :: below => visit walker address (visited ++ [table]) levels entry.tablePhysicalAddress next below

def walk (walker : Walker μ) (cr3 : Cr3) (address : U64) : Except WalkError PageTableWalk :=
  let bits := if walker.cr4.la57 then 57 else 48
  if canonicality address bits = .nonCanonical then .error (.nonCanonical address bits)
  else if walker.cr4.la57 then walker.visit address [] [] cr3.tableAddress .pml5 [.pml4,.pdpt,.pd,.pt]
  else walker.visit address [] [] cr3.tableAddress .pml4 [.pdpt,.pd,.pt]

end Walker
-- The height a level has in the architectural translation, and the levels a
-- walk visits after it.
def Level.height : Level → Nat
  | pml5 => 4
  | pml4 => 3
  | pdpt => 2
  | pd => 1
  | pt => 0

def Level.below : Level → List Level
  | pml5 => [pml4,pdpt,pd,pt]
  | pml4 => [pdpt,pd,pt]
  | pdpt => [pd,pt]
  | pd => [pt]
  | pt => []

theorem Level.below_step {level : Level} (high : level.height = rank+1) :
    ∃ next : Level, level.below = next :: next.below ∧ next.height = rank := by
  cases level with
  | pml5 => cases high; exact ⟨.pml4,rfl,rfl⟩
  | pml4 => cases high; exact ⟨.pdpt,rfl,rfl⟩
  | pdpt => cases high; exact ⟨.pd,rfl,rfl⟩
  | pd => cases high; exact ⟨.pt,rfl,rfl⟩
  | pt => cases high

theorem Level.below_last {level : Level} (low : level.height = 0) : level = .pt := by
  cases level <;> first | rfl | cases low

theorem Level.height_inj {a b : Level} (same : a.height = b.height) : a = b := by
  cases a <;> cases b <;> first | rfl | cases same

theorem Level.hugePageAllowed_height (level : Level) :
    level.hugePageAllowed = true ↔ level.height ≠ 0 ∧ level.height ≤ 2 := by
  cases level <;> simp [Level.hugePageAllowed,Level.height]

theorem decode_present (raw : U64) : (PageTableEntry.decode raw).present = Paging.present raw.toNat :=
  Fields.flag_bit raw bitPresent rfl

theorem decode_pageSize (raw : U64) : (PageTableEntry.decode raw).pageSize = Paging.bit7 raw.toNat :=
  Fields.flag_bit raw bitPs rfl

theorem mask_frame (raw : U64) {mask : U64} (small : s ≤ 52) (bits : mask.toNat = 2^52-2^s) :
    (raw &&& mask).toNat = Paging.frame s raw.toNat := by
  rw [BitVec.toNat_and,bits,Paging.frame_eq _ small]

theorem tableIndex_toNat (address : U64) (level : Level) :
    (tableIndex address level).toNat = Paging.index address.toNat level.height := by
  have ninth : ∀ low, (((address >>> low) &&& 511).setWidth 16 : BitVec 16).toNat = address.toNat / 2^low % 512 := by
    intro low
    rw [BitVec.toNat_setWidth,Fields.bits_toNat address 511 low (show (511 : U64).toNat = 2^9-1 by rfl)]
    exact Nat.mod_eq_of_lt (Nat.lt_trans (Nat.mod_lt _ (by decide)) (by decide))
  cases level <;> exact ninth _

theorem canonicality_iff (address : U64) (la57 : Bool) :
    canonicality address (if la57 then 57 else 48) = .nonCanonical ↔
      Paging.canonical address.toNat (12+9*(if la57 then 5 else 4)) = false := by
  have extended : ∀ n, n = 16 ∨ n = 7 → ((address <<< n).sshiftRight n = address ↔
      Paging.canonical address.toNat (64-n) = true) := by
    intro n which
    rw [← BitVec.toInt_inj,BitVec.toInt_sshiftRight,BitVec.toInt_shiftLeft,Int.shiftRight_eq_div_pow,Nat.shiftLeft_eq]
    rcases which with rfl | rfl
    all_goals
      simp only [Paging.canonical,BitVec.toInt_eq_toNat_cond,Int.bmod,Bool.or_eq_true,decide_eq_true_iff]
      have bound := address.isLt
      split <;> split <;> omega
  have eight := extended 16 (.inl rfl)
  have seven := extended 7 (.inr rfl)
  cases la57 with
  | true => by_cases same : (address <<< 7).sshiftRight 7 = address <;> simp_all [canonicality]
  | false => by_cases same : (address <<< 16).sshiftRight 16 = address <;> simp_all [canonicality]

theorem leafPhysicalAddress_frame {raw : U64} (large : (PageTableEntry.decode raw).pageSize = true) {level : Level}
    (allowed : level.hugePageAllowed = true) :
    (((PageTableEntry.decode raw).leafPhysicalAddress level).get
      (PageTableEntry.leafPhysicalAddress_large large level)).toNat = Paging.frame (Paging.offsetBits level.height) raw.toNat := by
  simp only [PageTableEntry.leafPhysicalAddress,large]
  cases level with
  | pdpt => exact mask_frame (s:=30) raw (by decide) rfl
  | pd => exact mask_frame (s:=21) raw (by decide) rfl
  | _ => cases allowed

theorem hugePageSize_mask {level : Level} (large : level.hugePageSize = some size) :
    (size-1).toNat = 2^Paging.offsetBits level.height - 1 := by
  cases level with
  | pdpt =>
    obtain rfl := Option.some.inj large
    decide
  | pd =>
    obtain rfl := Option.some.inj large
    decide
  | _ => cases large

theorem hugePageSize_offset (address : U64) {level : Level} (allowed : level.hugePageAllowed = true) :
    (address &&& (level.hugePageSize.get (Level.hugePageSize_allowed allowed) - 1)).toNat =
      address.toNat % 2^Paging.offsetBits level.height := by
  rw [BitVec.toNat_and,hugePageSize_mask (Option.some_get _).symm,Nat.and_two_pow_sub_one_eq_mod]

-- The machine states the walk is asked about: every table page of the path lies
-- in RAM, no two are the same page, the leaf lies in RAM, and a present entry of
-- the two top levels keeps its reserved bit 7 clear.
structure Mapped (size : Nat) (visits : List Paging.Visit) (outcome : Paging.Outcome) : Prop where
  inRam : ∀ visit ∈ visits, visit.table+4096 ≤ size
  distinct : (visits.map Paging.Visit.table).Nodup
  leafInRam : ∀ address, outcome = .physical address → address < size
  unreserved : ∀ visit ∈ visits, 3 ≤ visit.height → Paging.present visit.entry = true → Paging.bit7 visit.entry = false

-- An entry with P=0 may carry anything; these carry no bit 7.
def Plain (visits : List Paging.Visit) : Prop :=
  ∀ visit ∈ visits, Paging.present visit.entry = false → Paging.bit7 visit.entry = false

-- The path ends at a present 4 KiB entry whose bit 7, the memory type bit, is set.
def PatLeaf (visits : List Paging.Visit) : Prop :=
  ∃ visit ∈ visits, visit.height = 0 ∧ Paging.present visit.entry = true ∧ Paging.bit7 visit.entry = true

-- The answer of the walk that stands for an architectural outcome.
def Answers (result : Except WalkError PageTableWalk) : Paging.Outcome → Prop
  | .generalProtection => ∃ refused bits, result = .error (.nonCanonical refused bits)
  | .notPresent height => ∃ level index raw, result = .error (.notPresent level index raw) ∧ level.height = height
  | .physical address => ∃ walk, result = .ok walk ∧ walk.physicalAddress.toNat = address

section
variable {walker : Walker GuestRam} {address : U64}

theorem outsideRam_inside (inside : table.toNat < walker.memory.size.toNat) : walker.outsideRam table = false := by
  have here := (GuestRam.isRam_iff walker.memory table).mpr inside
  simp [Walker.outsideRam,here]

theorem entry_read (inside : table.toNat+4096 ≤ walker.memory.size.toNat) (level : Level) :
    GuestMemory.readU64 walker.memory (table + (tableIndex address level).setWidth 64 * 8) =
      .ok (.ofNat 64 (Paging.entryAt walker.memory.word address.toNat level.height table.toNat)) := by
  have index := tableIndex_toNat address level
  have small := @Paging.index_lt address.toNat level.height
  have bound := walker.memory.size.isLt
  have place : (table + (tableIndex address level).setWidth 64 * 8).toNat =
      table.toNat + 8*Paging.index address.toNat level.height := by
    rw [BitVec.toNat_add,BitVec.toNat_mul,BitVec.toNat_setWidth,index]
    rw [show (8 : U64).toNat = 8 by rfl]
    omega
  have read := walker.memory.readU64_word (table + (tableIndex address level).setWidth 64 * 8) (by omega)
  rw [place] at read
  exact read

-- A leaf whose frame and offset the two masks took apart.
theorem finish_answers (base : physicalBase.toNat = Paging.frame s entry) (offset : pageOffset.toNat = va % 2^s)
    (small : s ≤ 52) (inside : Paging.frame s entry + va % 2^s < walker.memory.size.toNat) :
    Answers (walker.finish address levels leafSize physicalBase pageOffset leaf)
      (.physical (Paging.frame s entry + va % 2^s)) := by
  have within : va % 2^s < 2^s := Nat.mod_lt _ (Nat.two_pow_pos s)
  have fits := Paging.frame_add_lt entry small within
  have sum : (physicalBase+pageOffset).toNat = Paging.frame s entry + va % 2^s := by
    rw [BitVec.toNat_add,base,offset]
    exact Nat.mod_eq_of_lt (by omega)
  have added : checkedAdd physicalBase pageOffset = some (physicalBase+pageOffset) :=
    if_pos (by rw [base,offset]; omega)
  have inRam : walker.outsideRam (physicalBase+pageOffset) = false := outsideRam_inside (by rw [sum]; exact inside)
  refine ⟨⟨address,levels,leafSize,physicalBase,pageOffset,leaf,walker.cr4.la57⟩,?_,?_⟩
  · simp [Walker.finish,added,inRam]
  · rw [PageTableWalk.physicalAddress,BitVec.toNat_or,base,offset]
    exact Paging.frame_or entry within

-- The loop has passed its guards on a table and read the entry of the address.
structure Reads (walker : Walker GuestRam) (address : U64) (visited : List U64) (table : U64) (level : Level)
    (entry : Nat) : Prop where
  inside : walker.outsideRam table = false
  fresh : table ∉ visited
  read : GuestMemory.readU64 walker.memory (table + (tableIndex address level).setWidth 64 * 8) = .ok (.ofNat 64 entry)
  raw : (BitVec.ofNat 64 entry).toNat = entry
  present : (PageTableEntry.decode (.ofNat 64 entry)).present = Paging.present entry
  large : (PageTableEntry.decode (.ofNat 64 entry)).pageSize = Paging.bit7 entry

theorem reads_entry (read : Paging.entryAt walker.memory.word address.toNat level.height table.toNat = entry)
    (inside : table.toNat+4096 ≤ walker.memory.size.toNat) (fresh : table ∉ visited) :
    Reads walker address visited table level entry := by
  have bound : entry < 2^64 := by
    rw [← read]
    exact GuestRam.word_lt _ _
  have raw : (BitVec.ofNat 64 entry).toNat = entry := Nat.mod_eq_of_lt bound
  refine ⟨outsideRam_inside (by omega),fresh,by rw [entry_read inside level,read],raw,?_,?_⟩
  · rw [decode_present,raw]
  · rw [decode_pageSize,raw]

section
variable (reads : Reads walker address visited table level entry)
include reads

theorem visit_reserved (ps : Paging.bit7 entry = true) (reserved : level.hugePageAllowed = false) :
    ∃ raw, walker.visit address visited levels table level below = .error (.reservedPageSizeBit level raw) := by
  rw [Walker.visit.eq_def]
  simp only [reads.inside,reads.fresh,reads.read,reads.large,ps,reserved,List.contains_eq_mem]
  exact ⟨_,rfl⟩

theorem visit_absent (levels : List WalkLevel) (below : List Level) (ps : Paging.bit7 entry = false) (absent : Paging.present entry = false) :
    ∃ index raw, walker.visit address visited levels table level below = .error (.notPresent level index raw) := by
  rw [Walker.visit.eq_def]
  simp only [reads.inside,reads.fresh,reads.read,reads.large,reads.present,ps,absent,List.contains_eq_mem]
  exact ⟨_,_,rfl⟩

theorem visit_next (levels : List WalkLevel) (ps : Paging.bit7 entry = false) (here : Paging.present entry = true) (next : Level) (rest : List Level) :
    ∃ seen deeper, deeper.toNat = Paging.frame 12 entry ∧
      walker.visit address visited levels table level (next::rest) =
        walker.visit address (visited++[table]) seen deeper next rest := by
  have frame := mask_frame (s:=12) (.ofNat 64 entry) (show 12 ≤ 52 by decide) (show entryAddressMask.toNat = 2^52-2^12 from rfl)
  rw [reads.raw] at frame
  rw [Walker.visit.eq_def]
  simp only [reads.inside,reads.fresh,reads.read,reads.large,reads.present,ps,here,List.contains_eq_mem]
  exact ⟨_,(PageTableEntry.decode (.ofNat 64 entry)).tablePhysicalAddress,frame,rfl⟩

theorem visit_last (ps : Paging.bit7 entry = false) (here : Paging.present entry = true)
    (leafInRam : Paging.frame 12 entry + address.toNat % 2^12 < walker.memory.size.toNat) :
    Answers (walker.visit address visited levels table level [])
      (.physical (Paging.frame 12 entry + address.toNat % 2^12)) := by
  have frame := mask_frame (s:=12) (.ofNat 64 entry) (show 12 ≤ 52 by decide) (show entryAddressMask.toNat = 2^52-2^12 from rfl)
  rw [reads.raw] at frame
  have offset : (address &&& 0xFFF).toNat = address.toNat % 2^12 := by
    rw [BitVec.toNat_and,show (0xFFF : U64).toNat = 2^12-1 by rfl,Nat.and_two_pow_sub_one_eq_mod]
  rw [Walker.visit.eq_def]
  simp only [reads.inside,reads.fresh,reads.read,reads.large,reads.present,ps,here,List.contains_eq_mem]
  exact finish_answers frame offset (by decide) leafInRam

theorem visit_large (levels : List WalkLevel) (below : List Level) (ps : Paging.bit7 entry = true) (allowed : level.hugePageAllowed = true)
    (leafInRam : Paging.frame (Paging.offsetBits level.height) entry +
      address.toNat % 2^Paging.offsetBits level.height < walker.memory.size.toNat) :
    Answers (walker.visit address visited levels table level below) (.physical
      (Paging.frame (Paging.offsetBits level.height) entry + address.toNat % 2^Paging.offsetBits level.height)) := by
  have large : (PageTableEntry.decode (.ofNat 64 entry)).pageSize = true := by rw [reads.large,ps]
  have small : Paging.offsetBits level.height ≤ 52 := by cases level <;> decide
  have base := leafPhysicalAddress_frame large allowed
  rw [reads.raw] at base
  rw [Walker.visit.eq_def]
  simp only [reads.inside,reads.fresh,reads.read,large,allowed,List.contains_eq_mem]
  exact finish_answers base (hugePageSize_offset address allowed) small leafInRam

end

theorem patLeaf_single {entry : Nat} : PatLeaf [⟨rank,table,entry⟩] ↔
    rank = 0 ∧ Paging.present entry = true ∧ Paging.bit7 entry = true := by
  simp [PatLeaf]

theorem patLeaf_cons {entry : Nat} {visits : List Paging.Visit} :
    PatLeaf (⟨rank+1,table,entry⟩ :: visits) ↔ PatLeaf visits := by
  simp [PatLeaf]

theorem visit_first (high : level.height = rank)
    (mapped : Mapped walker.memory.size.toNat (Paging.path walker.memory.word address.toNat rank table.toNat) outcome)
    (apart : ∀ visit ∈ Paging.path walker.memory.word address.toNat rank table.toNat, ∀ seen ∈ visited, seen.toNat ≠ visit.table) :
    ∃ entry, Paging.entryAt walker.memory.word address.toNat rank table.toNat = entry ∧
      ⟨rank,table.toNat,entry⟩ ∈ Paging.path walker.memory.word address.toNat rank table.toNat ∧
      Reads walker address visited table level entry := by
  obtain ⟨entry,read⟩ : ∃ entry, Paging.entryAt walker.memory.word address.toNat rank table.toNat = entry := ⟨_,rfl⟩
  have head := Paging.path_head read
  exact ⟨entry,read,head,reads_entry (by rw [high]; exact read) (mapped.inRam _ head) (fun seen => apart _ head _ seen rfl)⟩

-- One visit: the entry decides, and a table entry hands the question down. By
-- induction on the height; the tables seen so far are none of those ahead.
theorem visit_answers (high : level.height = rank)
    (mapped : Mapped walker.memory.size.toNat (Paging.path walker.memory.word address.toNat rank table.toNat)
      (Paging.translate walker.memory.word address.toNat rank table.toNat))
    (plain : Plain (Paging.path walker.memory.word address.toNat rank table.toNat))
    (apart : ∀ visit ∈ Paging.path walker.memory.word address.toNat rank table.toNat, ∀ seen ∈ visited, seen.toNat ≠ visit.table) :
    (PatLeaf (Paging.path walker.memory.word address.toNat rank table.toNat) →
      ∃ raw, walker.visit address visited levels table level level.below = .error (.reservedPageSizeBit .pt raw)) ∧
    (¬ PatLeaf (Paging.path walker.memory.word address.toNat rank table.toNat) →
      Answers (walker.visit address visited levels table level level.below)
        (Paging.translate walker.memory.word address.toNat rank table.toNat)) := by
  induction rank generalizing level table visited levels with
  | zero =>
    obtain ⟨entry,read,head,reads⟩ := visit_first high mapped apart
    obtain rfl := Level.below_last high
    have single := Paging.path_stop read (.inr (Paging.leaf_zero entry))
    cases here : Paging.present entry with
    | false =>
      have clear := plain _ head here
      obtain ⟨index,raw,stop⟩ := visit_absent reads levels [] clear here
      rw [single,patLeaf_single,Paging.translate_absent read here]
      exact ⟨fun pat => by simp [here] at pat,fun _ => ⟨.pt,index,raw,stop,rfl⟩⟩
    | true =>
      have ends := Paging.translate_leaf read here (Paging.leaf_zero entry)
      rw [single,patLeaf_single,ends]
      constructor
      · exact fun pat => visit_reserved reads pat.2.2 rfl
      · intro other
        exact visit_last reads (by simpa [here] using other) here (mapped.leafInRam _ ends)
  | succ rank ih =>
    obtain ⟨entry,read,head,reads⟩ := visit_first high mapped apart
    cases here : Paging.present entry with
    | false =>
      have clear := plain _ head here
      obtain ⟨index,raw,stop⟩ := visit_absent reads levels level.below clear here
      rw [Paging.path_stop read (.inl here),patLeaf_single,Paging.translate_absent read here]
      exact ⟨fun pat => (Nat.succ_ne_zero _ pat.1).elim,fun _ => ⟨level,index,raw,stop,high⟩⟩
    | true =>
      cases last : Paging.leaf (rank+1) entry with
      | true =>
        have large : Paging.bit7 entry = true ∧ rank+1 ≤ 2 := by simpa [Paging.leaf] using last
        have ends := Paging.translate_leaf read here last
        have allowed : level.hugePageAllowed = true := (Level.hugePageAllowed_height level).mpr ⟨by omega,by omega⟩
        have answer := visit_large reads levels level.below large.1 allowed
        rw [high] at answer
        rw [Paging.path_stop read (.inr last),patLeaf_single,ends]
        exact ⟨fun pat => (Nat.succ_ne_zero _ pat.1).elim,fun _ => answer (mapped.leafInRam _ ends)⟩
      | false =>
        have small : Paging.bit7 entry = false := by
          cases ps : Paging.bit7 entry with
          | false => rfl
          | true =>
            have above : ¬ rank+1 ≤ 2 := by simpa [Paging.leaf,ps] using last
            have clear := mapped.unreserved _ head (by show 3 ≤ rank+1; omega) here
            exact ps.symm.trans clear
        obtain ⟨next,below,lower⟩ := Level.below_step high
        obtain ⟨seen,deeper,place,goesDown⟩ := visit_next reads levels small here next next.below
        have down := Paging.path_table read here last
        have answer := Paging.translate_table read here last
        rw [← place] at down answer
        rw [down,answer] at mapped
        rw [down] at plain apart
        rw [down,patLeaf_cons,answer,below,goesDown]
        have distinct := List.nodup_cons.mp mapped.distinct
        apply ih lower
        · exact ⟨fun visit member => mapped.inRam visit (.tail _ member),distinct.2,mapped.leafInRam,
            fun visit member => mapped.unreserved visit (.tail _ member)⟩
        · exact fun visit member => plain visit (.tail _ member)
        · intro visit member old among
          rcases List.mem_append.mp among with before | this
          · exact apart visit (.tail _ member) old before
          · obtain rfl := List.mem_singleton.mp this
            intro same
            exact distinct.1 (List.mem_map.mpr ⟨visit,member,same.symm⟩)

end

def Cr4.levels (cr4 : Cr4) : Nat := if cr4.la57 then 5 else 4

-- The translation of the architecture for these registers over this image, and
-- the entries it looks at.
def architectural (ram : GuestRam) (cr4 : Cr4) (cr3 : Cr3) (address : U64) : Paging.Outcome :=
  Paging.walk ram.word address.toNat cr4.levels cr3.value.toNat

def architecturalPath (ram : GuestRam) (cr4 : Cr4) (cr3 : Cr3) (address : U64) : List Paging.Visit :=
  Paging.walkPath ram.word address.toNat cr4.levels cr3.value.toNat

theorem root_answers {walker : Walker GuestRam} {address : U64} (level : Level) (cr3 : Cr3)
    (sign : canonicality address bits = .nonCanonical ↔ Paging.canonical address.toNat (12+9*(level.height+1)) = false)
    (mapped : Mapped walker.memory.size.toNat
      (Paging.walkPath walker.memory.word address.toNat (level.height+1) cr3.value.toNat)
      (Paging.walk walker.memory.word address.toNat (level.height+1) cr3.value.toNat))
    (plain : Plain (Paging.walkPath walker.memory.word address.toNat (level.height+1) cr3.value.toNat)) :
    (PatLeaf (Paging.walkPath walker.memory.word address.toNat (level.height+1) cr3.value.toNat) →
      ∃ raw, (if canonicality address bits = .nonCanonical then .error (.nonCanonical address bits)
        else walker.visit address [] [] cr3.tableAddress level level.below) = .error (.reservedPageSizeBit .pt raw)) ∧
    (¬ PatLeaf (Paging.walkPath walker.memory.word address.toNat (level.height+1) cr3.value.toNat) →
      Answers (if canonicality address bits = .nonCanonical then .error (.nonCanonical address bits)
        else walker.visit address [] [] cr3.tableAddress level level.below)
        (Paging.walk walker.memory.word address.toNat (level.height+1) cr3.value.toNat)) := by
  have root : cr3.tableAddress.toNat = Paging.frame 12 cr3.value.toNat := mask_frame cr3.value (by decide) rfl
  cases regular : Paging.canonical address.toNat (12+9*(level.height+1)) with
  | false =>
    rw [if_pos (sign.mpr regular),Paging.walk,Paging.walkPath,regular]
    exact ⟨fun pat => by simp [PatLeaf] at pat,fun _ => ⟨address,bits,rfl⟩⟩
  | true =>
    have canonical : canonicality address bits ≠ .nonCanonical := by
      rw [Ne,sign,regular]
      decide
    rw [Paging.walkPath,if_pos regular,← root] at plain
    rw [Paging.walkPath,Paging.walk,if_pos regular,if_pos regular,← root] at mapped
    rw [if_neg canonical,Paging.walkPath,Paging.walk,if_pos regular,if_pos regular,← root]
    exact visit_answers rfl mapped plain (fun _ _ _ seen => by cases seen)

theorem walk_answers (walker : Walker GuestRam) (cr3 : Cr3) (address : U64)
    (mapped : Mapped walker.memory.size.toNat (architecturalPath walker.memory walker.cr4 cr3 address)
      (architectural walker.memory walker.cr4 cr3 address))
    (plain : Plain (architecturalPath walker.memory walker.cr4 cr3 address)) :
    (PatLeaf (architecturalPath walker.memory walker.cr4 cr3 address) →
      ∃ raw, walker.walk cr3 address = .error (.reservedPageSizeBit .pt raw)) ∧
    (¬ PatLeaf (architecturalPath walker.memory walker.cr4 cr3 address) →
      Answers (walker.walk cr3 address) (architectural walker.memory walker.cr4 cr3 address)) := by
  have sign := canonicality_iff address walker.cr4.la57
  unfold architectural architecturalPath at *
  unfold Walker.walk
  cases five : walker.cr4.la57 with
  | true =>
    have levels : walker.cr4.levels = Level.pml5.height+1 := by simp [Cr4.levels,five,Level.height]
    rw [five] at sign
    rw [levels] at mapped plain ⊢
    exact root_answers .pml5 cr3 sign mapped plain
  | false =>
    have levels : walker.cr4.levels = Level.pml4.height+1 := by simp [Cr4.levels,five,Level.height]
    rw [five] at sign
    rw [levels] at mapped plain ⊢
    exact root_answers .pml4 cr3 sign mapped plain

theorem patLeaf_physical (pat : PatLeaf (architecturalPath ram cr4 cr3 address)) :
    ∃ frame, architectural ram cr4 cr3 address = .physical frame := by
  obtain ⟨visit,member,last,here,-⟩ := pat
  unfold architecturalPath Paging.walkPath at member
  unfold architectural Paging.walk
  split at member
  · rename_i regular
    rw [if_pos regular]
    exact Paging.translate_of_leaf member here (by rw [last]; rfl)
  · cases member

-- The walk is the translation of the architecture but for the 4 KiB entry: its
-- bit 7 is read as a page size that a PTE must not carry.
theorem walk_translates (ram : GuestRam) (cr0 : Cr0) (cr3 : Cr3) (cr4 : Cr4) (efer : Efer) (address : U64)
    (paging : cr0.pagingEnabled = true) (long : efer.lma = true)
    (mapped : Mapped ram.size.toNat (architecturalPath ram cr4 cr3 address) (architectural ram cr4 cr3 address))
    (plain : Plain (architecturalPath ram cr4 cr3 address)) :
    ∃ walker, Walker.new ram cr0 cr4 efer = .ok walker ∧
      (∀ physical : Nat, (∃ walk, walker.walk cr3 address = .ok walk ∧ walk.physicalAddress.toNat = physical) ↔
        architectural ram cr4 cr3 address = .physical physical ∧ ¬ PatLeaf (architecturalPath ram cr4 cr3 address)) ∧
      (∀ level : Level, (∃ index raw, walker.walk cr3 address = .error (.notPresent level index raw)) ↔
        architectural ram cr4 cr3 address = .notPresent level.height) ∧
      ((∃ refused bits, walker.walk cr3 address = .error (.nonCanonical refused bits)) ↔
        architectural ram cr4 cr3 address = .generalProtection) ∧
      ((∃ raw, walker.walk cr3 address = .error (.reservedPageSizeBit .pt raw)) ↔
        PatLeaf (architecturalPath ram cr4 cr3 address)) := by
  refine ⟨⟨ram,cr0,cr4,efer⟩,by simp [Walker.new,paging,long],?_⟩
  obtain ⟨reserved,answers⟩ := walk_answers ⟨ram,cr0,cr4,efer⟩ cr3 address mapped plain
  by_cases pat : PatLeaf (architecturalPath ram cr4 cr3 address)
  · obtain ⟨raw,result⟩ := reserved pat
    obtain ⟨frame,outcome⟩ := patLeaf_physical pat
    simp [result,outcome,pat]
  · have answer := answers pat
    cases outcome : architectural ram cr4 cr3 address with
    | generalProtection =>
      rw [outcome] at answer
      obtain ⟨refused,bits,result⟩ := answer
      simp [result,pat]
    | notPresent height =>
      rw [outcome] at answer
      obtain ⟨level,index,raw,result,high⟩ := answer
      have same : ∀ other : Level, level = other ↔ height = other.height :=
        fun other => ⟨fun same => by rw [← high,same],fun same => Level.height_inj (high.trans same)⟩
      simp [result,pat,same]
    | physical frame =>
      rw [outcome] at answer
      obtain ⟨walk,result,place⟩ := answer
      simp [result,pat,place]

-- Four tables one after the other, every index of the address being zero.
def fourTables (pde pte : Nat) : GuestRam :=
  .ofWords [(0x1000,0x2003),(0x2000,0x3003),(0x3000,pde),(0x4000,pte)] 0x6000

def fourTablesPath (pde pte : Nat) : List Paging.Visit :=
  [⟨3,0x1000,0x2003⟩,⟨2,0x2000,0x3003⟩,⟨1,0x3000,pde⟩,⟨0,0x4000,pte⟩]

theorem walk_translates_page : ∃ walker, Walker.new (fourTables 0x4003 0x5003) ⟨0x80000011⟩ ⟨0x20⟩ ⟨0xd00⟩ = .ok walker ∧
    ∃ walk, walker.walk ⟨0x1000⟩ 0x123 = .ok walk ∧ walk.physicalAddress.toNat = 0x5123 := by
  have path : architecturalPath (fourTables 0x4003 0x5003) ⟨0x20⟩ ⟨0x1000⟩ 0x123 = fourTablesPath 0x4003 0x5003 := by decide
  have ends : architectural (fourTables 0x4003 0x5003) ⟨0x20⟩ ⟨0x1000⟩ 0x123 = .physical 0x5123 := by decide
  obtain ⟨walker,built,answers,-⟩ := walk_translates (fourTables 0x4003 0x5003) ⟨0x80000011⟩ ⟨0x1000⟩ ⟨0x20⟩ ⟨0xd00⟩ 0x123
    (by decide) (by decide)
    (by rw [path,ends]; exact ⟨by decide,by decide,fun _ same => by cases same; decide,by decide⟩)
    (by rw [path]; unfold Plain; decide)
  exact ⟨walker,built,(answers 0x5123).mpr ⟨ends,by rw [path]; unfold PatLeaf; decide⟩⟩

-- Bit 7 of a present PTE is refused, and a PDE with P=0 and bit 7 set is taken
-- for a 2 MiB page.
theorem pat_leaf_refused :
    (Mapped 0x6000 (architecturalPath (fourTables 0x4003 0x5083) ⟨0x20⟩ ⟨0x1000⟩ 0x123)
        (architectural (fourTables 0x4003 0x5083) ⟨0x20⟩ ⟨0x1000⟩ 0x123) ∧
      architectural (fourTables 0x4003 0x5083) ⟨0x20⟩ ⟨0x1000⟩ 0x123 = .physical 0x5123 ∧
      (⟨fourTables 0x4003 0x5083,⟨0x80000011⟩,⟨0x20⟩,⟨0xd00⟩⟩ : Walker GuestRam).walk ⟨0x1000⟩ 0x123 =
        .error (.reservedPageSizeBit .pt 0x5083)) ∧
    (Mapped 0x6000 (architecturalPath (fourTables 0x4082 0x5003) ⟨0x20⟩ ⟨0x1000⟩ 0x123)
        (architectural (fourTables 0x4082 0x5003) ⟨0x20⟩ ⟨0x1000⟩ 0x123) ∧
      architectural (fourTables 0x4082 0x5003) ⟨0x20⟩ ⟨0x1000⟩ 0x123 = .notPresent 1 ∧
      ((⟨fourTables 0x4082 0x5003,⟨0x80000011⟩,⟨0x20⟩,⟨0xd00⟩⟩ : Walker GuestRam).walk ⟨0x1000⟩ 0x123).toOption.map
        PageTableWalk.physicalAddress = some 0x123) := by
  have pat : architecturalPath (fourTables 0x4003 0x5083) ⟨0x20⟩ ⟨0x1000⟩ 0x123 = fourTablesPath 0x4003 0x5083 := by decide
  have patEnds : architectural (fourTables 0x4003 0x5083) ⟨0x20⟩ ⟨0x1000⟩ 0x123 = .physical 0x5123 := by decide
  have swap : architecturalPath (fourTables 0x4082 0x5003) ⟨0x20⟩ ⟨0x1000⟩ 0x123 = (fourTablesPath 0x4082 0x5003).take 3 := by decide
  have swapEnds : architectural (fourTables 0x4082 0x5003) ⟨0x20⟩ ⟨0x1000⟩ 0x123 = .notPresent 1 := by decide
  rw [pat,patEnds,swap,swapEnds]
  exact ⟨⟨⟨by decide,by decide,fun _ same => by cases same; decide,by decide⟩,rfl,by decide +kernel⟩,
    ⟨⟨by decide,by decide,(fun _ same => by cases same),by decide⟩,rfl,by decide +kernel⟩⟩

end PrincessIDE.PageTable
