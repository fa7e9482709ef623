import Mathlib.Tactic.IntervalCases
import PrincessIDE.Bin.GuestMemory
import PrincessIDE.Foundation.Fields

namespace PrincessIDE.Descriptor
open Memory Fields

def bitS : U64 := 1 <<< 44
def bitL : U64 := 1 <<< 53
def bitDb : U64 := 1 <<< 54
def bitG : U64 := 1 <<< 55

inductive DescriptorError where
  | memory (source : MemoryError)
deriving DecidableEq, Repr

inductive CodeDataKind where
  | code | data
deriving DecidableEq, Repr

structure SegmentDescriptor where
  offset : BitVec 16
  raw : U64
  base : BitVec 32
  limit : BitVec 32
  accessed : Bool
  readableWritable : Bool
  directionOrConforming : Bool
  kind : CodeDataKind
  dpl : BitVec 8
  present : Bool
  available : Bool
  longMode : Bool
  defaultSize32 : Bool
  granularity4k : Bool
deriving DecidableEq, Repr

-- The base and the limit that code/data and system descriptors spread over
-- their first slot in the same way.
def baseLow (raw : U64) : BitVec 32 :=
  let baseLow := ((raw >>> 16) &&& 0xFFFF).setWidth 32
  let baseMid := ((raw >>> 32) &&& 0xFF).setWidth 32
  let baseHigh := ((raw >>> 56) &&& 0xFF).setWidth 32
  (baseHigh <<< 24) ||| (baseMid <<< 16) ||| baseLow

def granular4k (raw : U64) : Bool := raw &&& bitG ≠ 0

def effectiveLimit (raw : U64) : BitVec 32 :=
  let limitLow := (raw &&& 0xFFFF).setWidth 32
  let limitHigh := ((raw >>> 48) &&& 0xF).setWidth 32
  let limitField := (limitHigh <<< 16) ||| limitLow
  if granular4k raw then (limitField <<< 12) ||| 0xFFF else limitField

def accessByte (raw : U64) : BitVec 8 := ((raw >>> 40) &&& 0xFF).setWidth 8

def SegmentDescriptor.decode (offset : BitVec 16) (raw : U64) : SegmentDescriptor :=
  let access := accessByte raw
  { offset:=offset
    raw:=raw
    base:=baseLow raw
    limit:=effectiveLimit raw
    accessed:=access &&& 0x01 ≠ 0
    readableWritable:=access &&& 0x02 ≠ 0
    directionOrConforming:=access &&& 0x04 ≠ 0
    kind:=if access &&& 0x08 ≠ 0 then .code else .data
    dpl:=(access >>> 5) &&& 0b11
    present:=access &&& 0x80 ≠ 0
    available:=raw &&& (1 <<< 52) ≠ 0
    longMode:=raw &&& bitL ≠ 0
    defaultSize32:=raw &&& bitDb ≠ 0
    granularity4k:=granular4k raw }

inductive SystemDescriptorType where
  | tss16Available | ldt | tss16Busy | callGate16 | taskGate | interruptGate16 | trapGate16
  | tss64Available | tss64Busy | callGate64 | interruptGate64 | trapGate64
  | reserved (bits : BitVec 8)
deriving DecidableEq, Repr

namespace SystemDescriptorType

def fromBits (bits : BitVec 8) : SystemDescriptorType :=
  match (bits &&& 0xF).toNat with
  | 0x1 => .tss16Available
  | 0x2 => .ldt
  | 0x3 => .tss16Busy
  | 0x4 => .callGate16
  | 0x5 => .taskGate
  | 0x6 => .interruptGate16
  | 0x7 => .trapGate16
  | 0x9 => .tss64Available
  | 0xB => .tss64Busy
  | 0xC => .callGate64
  | 0xE => .interruptGate64
  | 0xF => .trapGate64
  | _ => .reserved (bits &&& 0xF)

def is16Bytes : SystemDescriptorType → Bool
  | .tss64Available | .tss64Busy | .ldt | .callGate64 => true
  | _ => false

end SystemDescriptorType

structure SystemDescriptor where
  offset : BitVec 16
  kind : SystemDescriptorType
  base : U64
  limit : BitVec 32
  dpl : BitVec 8
  present : Bool
  available : Bool
  granularity4k : Bool
  rawLow : U64
  rawHigh : Option U64
deriving DecidableEq, Repr

-- The second slot's contribution is its upper half.
def decodeSystem (offset : BitVec 16) (rawLow : U64) (rawHigh : Option U64) : SystemDescriptor :=
  let access := accessByte rawLow
  let base : U64 := (baseLow rawLow).setWidth 64
  { offset:=offset
    kind:=.fromBits (access &&& 0xF)
    base:=match rawHigh with
      | some high => base ||| ((((high >>> 32) &&& 0xFFFFFFFF).setWidth 32 : BitVec 32).setWidth 64 <<< 32)
      | none => base
    limit:=effectiveLimit rawLow
    dpl:=(access >>> 5) &&& 0b11
    present:=access &&& 0x80 ≠ 0
    available:=rawLow &&& (1 <<< 52) ≠ 0
    granularity4k:=granular4k rawLow
    rawLow:=rawLow
    rawHigh:=rawHigh }

inductive GdtEntry where
  | null (offset : BitVec 16)
  | segment (descriptor : SegmentDescriptor)
  | system (descriptor : SystemDescriptor)
  | highHalf (offset : BitVec 16) (raw : U64) (lowHalfOffset : BitVec 16)
deriving DecidableEq, Repr

def GdtEntry.offset : GdtEntry → BitVec 16
  | .null offset => offset
  | .highHalf offset _ _ => offset
  | .segment descriptor => descriptor.offset
  | .system descriptor => descriptor.offset

structure Gdt where
  base : U64
  limit : BitVec 32
  entries : List GdtEntry
deriving DecidableEq, Repr

namespace Gdt

def slotCount (limit : BitVec 32) : Nat := (limit.toNat+1)/8

def entryForSelector (gdt : Gdt) (selector : BitVec 16) : Option GdtEntry :=
  gdt.entries.find? fun entry => entry.offset == selector &&& ~~~7

def readSlot [GuestMemory μ] (memory : μ) (address : U64) : Except DescriptorError U64 :=
  (GuestMemory.readU64 memory address).mapError .memory

-- The loop of `read`; every round consumes a slot at least.
def readRounds [GuestMemory μ] (memory : μ) (base : U64) (slotCount : Nat) :
    Nat → Nat → List GdtEntry → Except DescriptorError (List GdtEntry)
  | 0,_,entries => .ok entries
  | rounds+1,index,entries =>
    if index < slotCount then do
      let offset := index*8
      let address := base + .ofNat 64 offset
      let raw ← readSlot memory address
      if index = 0 ∧ raw = 0 then readRounds memory base slotCount rounds (index+1) (entries ++ [.null (.ofNat 16 offset)])
      else if raw &&& bitS ≠ 0 then
        readRounds memory base slotCount rounds (index+1) (entries ++ [.segment (.decode (.ofNat 16 offset) raw)])
      else
        let descriptorType := SystemDescriptorType.fromBits (((raw >>> 40) &&& 0xF).setWidth 8)
        if descriptorType.is16Bytes ∧ index+1 < slotCount then
          let high ← readSlot memory (address+8)
          readRounds memory base slotCount rounds (index+2) (entries ++
            [.system (decodeSystem (.ofNat 16 offset) raw (some high)),
              .highHalf (.ofNat 16 (offset+8)) high (.ofNat 16 offset)])
        else
          readRounds memory base slotCount rounds (index+1)
            (entries ++ [.system (decodeSystem (.ofNat 16 offset) raw none)])
    else .ok entries

def read [GuestMemory μ] (memory : μ) (base : U64) (limit : BitVec 32) : Except DescriptorError Gdt := do
  let entries ← readRounds memory base (slotCount limit) (slotCount limit) 0 []
  return ⟨base,limit,entries⟩

-- `tss`
def tss (gdt : Gdt) : Option SystemDescriptor := gdt.entries.findSome? fun entry => match entry with
  | .system descriptor => match descriptor.kind with
    | .tss64Available | .tss64Busy | .tss16Available | .tss16Busy => some descriptor
    | _ => none
  | _ => none

end Gdt

-- The descriptors of the architecture, and the words they are stored as: every
-- field with its width, from bit 0 up.
structure Segment where
  base : BitVec 32
  limit : BitVec 20
  type : BitVec 4
  dpl : BitVec 2
  present : Bool
  available : Bool
  long : Bool
  big : Bool
  granular : Bool
deriving DecidableEq, Repr

inductive SystemType where
  | ldt | tssAvailable | tssBusy
deriving DecidableEq, Repr

def SystemType.bits : SystemType → BitVec 4
  | .ldt => 2
  | .tssAvailable => 9
  | .tssBusy => 11

structure System where
  base : BitVec 64
  limit : BitVec 20
  type : SystemType
  dpl : BitVec 2
  present : Bool
  available : Bool
  granular : Bool
deriving DecidableEq, Repr

-- A limit in bytes, or in pages where `granular` is set.
def byteLimit (limit : BitVec 20) (granular : Bool) : Nat := if granular then limit.toNat*4096+4095 else limit.toNat

def flag (b : Bool) : Field := ⟨1,.ofBool b⟩

def slotFields (base : BitVec 32) (limit : BitVec 20) (type : BitVec 4) (s : Bool) (dpl : BitVec 2)
    (present available long big granular : Bool) : List Field :=
  [⟨16,limit.extractLsb' 0 16⟩,⟨16,base.extractLsb' 0 16⟩,⟨8,base.extractLsb' 16 8⟩,⟨4,type⟩,flag s,⟨2,dpl⟩,flag present,
    ⟨4,limit.extractLsb' 16 4⟩,flag available,flag long,flag big,flag granular,⟨8,base.extractLsb' 24 8⟩]

def Segment.slot (d : Segment) : U64 :=
  .ofNat 64 (pack (slotFields d.base d.limit d.type true d.dpl d.present d.available d.long d.big d.granular))

def System.lowSlot (d : System) : U64 :=
  .ofNat 64 (pack (slotFields (d.base.extractLsb' 0 32) d.limit d.type.bits false d.dpl d.present d.available false false d.granular))

-- Base 63:32 in bits 31:0, and 32 reserved bits.
def System.highSlot (d : System) : U64 := .ofNat 64 (pack [⟨32,d.base.extractLsb' 32 32⟩,⟨32,0⟩])

inductive Architectural where
  | segment (d : Segment)
  | system (d : System)
deriving DecidableEq, Repr

def Architectural.slots : Architectural → List U64
  | .segment d => [d.slot]
  | .system d => [d.lowSlot,d.highSlot]

-- A table with its null descriptor, if it has one.
structure Table where
  null : Bool
  descriptors : List Architectural
deriving DecidableEq, Repr

def Table.slots (table : Table) : List U64 := (if table.null then [0] else []) ++ table.descriptors.flatMap Architectural.slots

def Laid [GuestMemory μ] (memory : μ) (base : U64) (slots : List U64) : Prop :=
  ∀ i raw, slots[i]? = some raw → GuestMemory.readU64 memory (base + .ofNat 64 (i*8)) = .ok raw

-- What a slot with these fields reads at each of their places.
structure Reads (n : Nat) (base : BitVec 32) (limit : BitVec 20) (type : BitVec 4) (s : Bool) (dpl : BitVec 2)
    (present granular : Bool) : Prop where
  limitLow : n / 2^0 % 2^16 = limit.toNat % 2^16
  baseLow : n / 2^16 % 2^16 = base.toNat % 2^16
  baseMid : n / 2^32 % 2^8 = base.toNat / 2^16 % 2^8
  type : n / 2^40 % 2^4 = type.toNat
  s : n / 2^44 % 2 = s.toNat
  dpl : n / 2^45 % 2^2 = dpl.toNat
  present : n / 2^47 % 2 = present.toNat
  limitHigh : n / 2^48 % 2^4 = limit.toNat / 2^16 % 2^4
  granular : n / 2^55 % 2 = granular.toNat
  baseHigh : n / 2^56 % 2^8 = base.toNat / 2^24 % 2^8

theorem flag_toNat (b : Bool) : (BitVec.ofBool b).toNat = b.toNat := by cases b <;> rfl

theorem extract_toNat (x : BitVec n) (s w : Nat) : (x.extractLsb' s w).toNat = x.toNat / 2^s % 2^w := by
  rw [BitVec.extractLsb'_toNat,Nat.shiftRight_eq_div_pow]

theorem slotFields_reads (base : BitVec 32) (limit : BitVec 20) (type : BitVec 4) (s : Bool) (dpl : BitVec 2)
    (present available long big granular : Bool) :
    Reads (pack (slotFields base limit type s dpl present available long big granular)) base limit type s dpl present granular where
  limitLow := (pack_field _ 0 0 ⟨16,_⟩ rfl rfl).trans ((extract_toNat limit 0 16).trans (by simp))
  baseLow := (pack_field _ 1 16 ⟨16,_⟩ rfl rfl).trans ((extract_toNat base 0 16).trans (by simp))
  baseMid := (pack_field _ 2 32 ⟨8,_⟩ rfl rfl).trans (extract_toNat base 16 8)
  type := pack_field _ 3 40 ⟨4,_⟩ rfl rfl
  s := (pack_field _ 4 44 ⟨1,_⟩ rfl rfl).trans (flag_toNat s)
  dpl := pack_field _ 5 45 ⟨2,_⟩ rfl rfl
  present := (pack_field _ 6 47 ⟨1,_⟩ rfl rfl).trans (flag_toNat present)
  limitHigh := (pack_field _ 7 48 ⟨4,_⟩ rfl rfl).trans (extract_toNat limit 16 4)
  granular := (pack_field _ 11 55 ⟨1,_⟩ rfl rfl).trans (flag_toNat granular)
  baseHigh := (pack_field _ 12 56 ⟨8,_⟩ rfl rfl).trans (extract_toNat base 24 8)

variable {raw : U64} {base : BitVec 32} {limit : BitVec 20} {type : BitVec 4} {s present granular : Bool} {dpl : BitVec 2}

theorem part_toNat (raw mask : U64) (place : Nat) (bits : mask.toNat = 2^w-1) (fits : w ≤ m) :
    (((raw >>> place) &&& mask).setWidth m).toNat = raw.toNat / 2^place % 2^w := by
  rw [BitVec.toNat_setWidth,bits_toNat raw mask place bits]
  exact Nat.mod_eq_of_lt (Nat.lt_of_lt_of_le (Nat.mod_lt _ (Nat.two_pow_pos w)) (Nat.pow_le_pow_right (by decide) fits))

theorem baseLow_toNat (reads : Reads raw.toNat base limit type s dpl present granular) : (baseLow raw).toNat = base.toNat := by
  have low := part_toNat (m:=32) raw 0xFFFF (w:=16) 16 rfl (by decide)
  have mid := part_toNat (m:=32) raw 0xFF (w:=8) 32 rfl (by decide)
  have high := part_toNat (m:=32) raw 0xFF (w:=8) 56 rfl (by decide)
  rw [reads.baseLow] at low
  rw [reads.baseMid] at mid
  rw [reads.baseHigh] at high
  have bound := base.isLt
  have inner := join_toNat (n:=32) (s:=16) (low.trans_lt (Nat.mod_lt _ (by decide))) (by rw [mid]; omega)
  rw [baseLow,BitVec.or_assoc,join_toNat (by rw [inner,low,mid]; omega) (by rw [high]; omega),inner,low,mid,high]
  omega

theorem granular4k_eq (reads : Reads raw.toNat base limit type s dpl present granular) : granular4k raw = granular := by
  have here := flag_iff raw bitG (i:=55) rfl
  rw [granular4k,Bool.eq_iff_iff,decide_eq_true_iff,here,reads.granular]
  cases granular <;> decide

theorem effectiveLimit_toNat (reads : Reads raw.toNat base limit type s dpl present granular) :
    (effectiveLimit raw).toNat = byteLimit limit granular := by
  have low := part_toNat (m:=32) raw 0xFFFF (w:=16) 0 rfl (by decide)
  have high := part_toNat (m:=32) raw 0xF (w:=4) 48 rfl (by decide)
  rw [BitVec.ushiftRight_zero,reads.limitLow] at low
  rw [reads.limitHigh] at high
  have bound := limit.isLt
  have field := join_toNat (n:=32) (s:=16) (low.trans_lt (Nat.mod_lt _ (by decide))) (by rw [high]; omega)
  rw [low,high,show limit.toNat/2^16%2^4*2^16+limit.toNat%2^16 = limit.toNat by omega] at field
  rw [effectiveLimit,granular4k_eq reads,byteLimit]
  cases granular with
  | false => exact field
  | true =>
    have low : (0xFFF : BitVec 32).toNat < 2^12 := by decide
    have scaled := join_toNat low (by rw [field]; omega)
    rw [field] at scaled
    exact scaled

theorem accessByte_toNat (raw : U64) : (accessByte raw).toNat = raw.toNat / 2^40 % 2^8 := part_toNat raw 0xFF 40 rfl (by decide)

theorem access_type (reads : Reads raw.toNat base limit type s dpl present granular) : (accessByte raw &&& 0xF).toNat = type.toNat := by
  have here := bits_toNat (accessByte raw) 0xF (w:=4) 0 rfl
  rw [BitVec.ushiftRight_zero] at here
  have there := reads.type
  rw [here,accessByte_toNat]
  omega

theorem access_dpl (reads : Reads raw.toNat base limit type s dpl present granular) :
    ((accessByte raw >>> 5) &&& 0b11).toNat = dpl.toNat := by
  have there := reads.dpl
  rw [bits_toNat (accessByte raw) 0b11 (w:=2) 5 rfl,accessByte_toNat]
  omega

theorem access_flag (raw : U64) {mask : BitVec 8} (small : i < 8) (place : mask.toNat = 2^i) :
    accessByte raw &&& mask ≠ 0 ↔ raw.toNat / 2^(40+i) % 2 = 1 := by
  rw [flag_testBit (accessByte raw) mask place,accessByte_toNat,Nat.testBit_mod_two_pow,Nat.testBit_div_two_pow,
    Nat.add_comm,Nat.testBit_eq_decide_div_mod_eq]
  simp [small]

theorem access_present (reads : Reads raw.toNat base limit type s dpl present granular) :
    decide (accessByte raw &&& 0x80 ≠ 0) = present := by
  rw [Bool.eq_iff_iff,decide_eq_true_iff,access_flag raw (i:=7) (by decide) rfl,show 40+7 = 47 from rfl,reads.present]
  cases present <;> decide

theorem bitS_iff (reads : Reads raw.toNat base limit type s dpl present granular) : raw &&& bitS ≠ 0 ↔ s = true := by
  rw [flag_iff raw bitS (i:=44) rfl,reads.s]
  cases s <;> decide

-- The type field as the decoded parts spell it.
def SegmentDescriptor.typeField (e : SegmentDescriptor) : Nat :=
  e.accessed.toNat + 2*e.readableWritable.toNat + 4*e.directionOrConforming.toNat + 8*(e.kind == .code).toNat

def SystemType.decoded : SystemType → SystemDescriptorType
  | .ldt => .ldt
  | .tssAvailable => .tss64Available
  | .tssBusy => .tss64Busy

def RecoversSegment (d : Segment) (e : SegmentDescriptor) : Prop :=
  e.base = d.base ∧ e.limit.toNat = byteLimit d.limit d.granular ∧ e.typeField = d.type.toNat ∧ e.dpl.toNat = d.dpl.toNat ∧
    e.present = d.present

def RecoversSystem (d : System) (e : SystemDescriptor) : Prop :=
  e.base = d.base ∧ e.limit.toNat = byteLimit d.limit d.granular ∧ e.kind = d.type.decoded ∧ e.dpl.toNat = d.dpl.toNat ∧
    e.present = d.present

-- An entry for every descriptor, and one for the second slot of those that
-- have one.
def RecoversAll : List Architectural → List GdtEntry → Prop
  | [],[] => True
  | .segment d :: rest,.segment e :: entries => RecoversSegment d e ∧ RecoversAll rest entries
  | .system d :: rest,.system e :: .highHalf _ _ _ :: entries => RecoversSystem d e ∧ RecoversAll rest entries
  | _,_ => False

def Recovers (table : Table) : List GdtEntry → Prop
  | .null _ :: entries => table.null = true ∧ RecoversAll table.descriptors entries
  | entries => table.null = false ∧ RecoversAll table.descriptors entries

theorem segment_reads (d : Segment) : Reads d.slot.toNat d.base d.limit d.type true d.dpl d.present d.granular := by
  rw [Segment.slot,word_toNat (n:=64) _ rfl]
  exact slotFields_reads _ _ _ _ _ _ _ _ _ _

theorem system_reads (d : System) :
    Reads d.lowSlot.toNat (d.base.extractLsb' 0 32) d.limit d.type.bits false d.dpl d.present d.granular := by
  rw [System.lowSlot,word_toNat (n:=64) _ rfl]
  exact slotFields_reads _ _ _ _ _ _ _ _ _ _

theorem access_bit (raw : U64) {mask : BitVec 8} (small : i < 8) (place : mask.toNat = 2^i) :
    (decide (accessByte raw &&& mask ≠ 0)).toNat = raw.toNat / 2^(40+i) % 2 := by
  have here := access_flag raw small place
  by_cases set : accessByte raw &&& mask ≠ 0
  · rw [decide_eq_true set,here.mp set]
    rfl
  · have off : raw.toNat / 2^(40+i) % 2 = 0 := Nat.mod_two_ne_one.mp fun on => set (here.mpr on)
    rw [decide_eq_false set,off]
    rfl

theorem segment_recovered (d : Segment) (offset : BitVec 16) : RecoversSegment d (.decode offset d.slot) := by
  have reads := segment_reads d
  refine ⟨BitVec.eq_of_toNat_eq (baseLow_toNat reads),effectiveLimit_toNat reads,?_,access_dpl reads,access_present reads⟩
  have whole := reads.type
  have kind : ((if accessByte d.slot &&& 0x08 ≠ 0 then CodeDataKind.code else .data) == .code).toNat =
      (decide (accessByte d.slot &&& 0x08 ≠ 0)).toNat := by
    by_cases set : accessByte d.slot &&& 0x08 ≠ 0
    · rw [if_pos set,decide_eq_true set]
      rfl
    · rw [if_neg set,decide_eq_false set]
      rfl
  simp only [SegmentDescriptor.typeField,SegmentDescriptor.decode]
  rw [kind,access_bit d.slot (i:=0) (by decide) rfl,access_bit d.slot (i:=1) (by decide) rfl,
    access_bit d.slot (i:=2) (by decide) rfl,access_bit d.slot (i:=3) (by decide) rfl,← whole]
  omega

-- The upper half of the second slot is reserved, and zero.
theorem highSlot_upper (d : System) : (((d.highSlot >>> 32) &&& 0xFFFFFFFF).setWidth 32 : BitVec 32) = 0 := by
  apply BitVec.eq_of_toNat_eq
  rw [part_toNat (w:=32) d.highSlot 0xFFFFFFFF 32 rfl (by decide),System.highSlot,word_toNat (n:=64) _ rfl]
  exact pack_field [⟨32,d.base.extractLsb' 32 32⟩,⟨32,0⟩] 1 32 ⟨32,0⟩ rfl rfl

theorem decodeSystem_base (d : System) (offset : BitVec 16) :
    (decodeSystem offset d.lowSlot (some d.highSlot)).base.toNat = d.base.toNat % 2^32 := by
  have low := baseLow_toNat (system_reads d)
  rw [extract_toNat,Nat.pow_zero,Nat.div_one] at low
  simp only [decodeSystem,highSlot_upper]
  rw [show ((0 : BitVec 32).setWidth 64 : U64) <<< 32 = 0#64 from rfl,BitVec.or_zero,BitVec.toNat_setWidth,low]
  omega

theorem systemType_decoded (bits : BitVec 8) (type : SystemType) (same : bits.toNat = type.bits.toNat) :
    SystemDescriptorType.fromBits bits = type.decoded := by
  obtain rfl : bits = type.bits.setWidth 8 := by
    apply BitVec.eq_of_toNat_eq
    rw [same]
    cases type <;> rfl
  cases type <;> rfl

theorem system_recovered_iff (d : System) (offset : BitVec 16) :
    RecoversSystem d (decodeSystem offset d.lowSlot (some d.highSlot)) ↔ d.base.toNat < 2^32 := by
  have reads := system_reads d
  have base := decodeSystem_base d offset
  constructor
  · intro recovers
    rw [recovers.1] at base
    omega
  · intro small
    refine ⟨BitVec.eq_of_toNat_eq (base.trans (Nat.mod_eq_of_lt small)),effectiveLimit_toNat reads,?_,access_dpl reads,access_present reads⟩
    exact systemType_decoded _ _ (access_type reads)

theorem segment_nonzero (d : Segment) : d.slot ≠ 0 := by
  intro zero
  have set := (bitS_iff (segment_reads d)).mpr rfl
  rw [zero] at set
  exact set rfl

theorem system_nonzero (d : System) : d.lowSlot ≠ 0 := by
  intro zero
  have type := (system_reads d).type
  rw [zero] at type
  cases h : d.type with
  | ldt => rw [h] at type; cases type
  | tssAvailable => rw [h] at type; cases type
  | tssBusy => rw [h] at type; cases type

theorem system_is16Bytes (d : System) : (SystemDescriptorType.fromBits (((d.lowSlot >>> 40) &&& 0xF).setWidth 8)).is16Bytes = true := by
  have type := (part_toNat (m:=8) (w:=4) d.lowSlot 0xF 40 rfl (by decide)).trans (system_reads d).type
  rw [systemType_decoded _ _ type]
  cases d.type <;> rfl

-- The entries the loop makes of descriptors from a slot on.
def decodedFrom : Nat → List Architectural → List GdtEntry
  | _,[] => []
  | index,.segment d :: rest => .segment (.decode (.ofNat 16 (index*8)) d.slot) :: decodedFrom (index+1) rest
  | index,.system d :: rest =>
    .system (decodeSystem (.ofNat 16 (index*8)) d.lowSlot (some d.highSlot)) ::
      .highHalf (.ofNat 16 (index*8+8)) d.highSlot (.ofNat 16 (index*8)) :: decodedFrom (index+2) rest

theorem next_address (base : U64) (index : Nat) : base + .ofNat 64 (index*8) + 8 = base + .ofNat 64 ((index+1)*8) := by
  rw [BitVec.add_assoc,Nat.succ_mul,BitVec.ofNat_add]
  rfl

namespace Gdt
variable [GuestMemory μ] {memory : μ} {base : U64} {slots : List U64}

theorem readSlot_laid (laid : Laid memory base slots) (here : slots[index]? = some raw) :
    readSlot memory (base + .ofNat 64 (index*8)) = .ok raw := by
  rw [readSlot,laid index raw here]
  rfl

theorem slot_at (rest : slots.drop index = front++back) (k : Nat) (inside : k < front.length) : slots[index+k]? = some front[k] := by
  rw [← List.getElem?_drop,rest,List.getElem?_append_left inside,List.getElem?_eq_getElem inside]

theorem slots_after (rest : slots.drop index = front++back) : slots.drop (index+front.length) = back := by
  rw [← List.drop_drop,rest,List.drop_left]

-- One round of the loop, by what it finds in its slot.
theorem round_null (some : 0 < count) (slot : readSlot memory (base + .ofNat 64 (0*8)) = .ok 0) (entries : List GdtEntry) :
    readRounds memory base count (rounds+1) 0 entries = readRounds memory base count rounds 1 (entries ++ [GdtEntry.null 0]) := by
  rw [readRounds,if_pos some]
  simp only [slot,bind,Except.bind]
  rfl

theorem round_segment (more : index < count) (slot : readSlot memory (base + .ofNat 64 (index*8)) = .ok raw) (filled : raw ≠ 0)
    (segment : raw &&& bitS ≠ 0) (entries : List GdtEntry) :
    readRounds memory base count (rounds+1) index entries =
      readRounds memory base count rounds (index+1) (entries ++ [GdtEntry.segment (.decode (.ofNat 16 (index*8)) raw)]) := by
  rw [readRounds,if_pos more]
  simp only [slot,bind,Except.bind]
  rw [if_neg (fun null => filled null.2),if_pos segment]

theorem round_system (more : index+1 < count) (slot : readSlot memory (base + .ofNat 64 (index*8)) = .ok raw)
    (next : readSlot memory (base + .ofNat 64 ((index+1)*8)) = .ok high) (filled : raw ≠ 0) (system : ¬ raw &&& bitS ≠ 0)
    (wide : (SystemDescriptorType.fromBits (((raw >>> 40) &&& 0xF).setWidth 8)).is16Bytes = true) (entries : List GdtEntry) :
    readRounds memory base count (rounds+1) index entries =
      readRounds memory base count rounds (index+2) (entries ++
        [GdtEntry.system (decodeSystem (.ofNat 16 (index*8)) raw (some high)),
          .highHalf (.ofNat 16 (index*8+8)) high (.ofNat 16 (index*8))]) := by
  rw [readRounds,if_pos (Nat.lt_of_succ_lt more)]
  simp only [slot,next_address,next,bind,Except.bind]
  rw [if_neg (fun null => filled null.2),if_neg system,if_pos ⟨wide,more⟩]

-- By induction on the descriptors still ahead, each of which takes one round
-- and one slot or two.
theorem readRounds_decoded (laid : Laid memory base slots) (ds : List Architectural) (ahead : slots.drop index = ds.flatMap Architectural.slots)
    (enough : slots.length ≤ index+rounds) (entries : List GdtEntry) :
    readRounds memory base slots.length rounds index entries = .ok (entries ++ decodedFrom index ds) := by
  induction ds generalizing index rounds entries with
  | nil =>
    have beyond := List.drop_eq_nil_iff.mp ahead
    cases rounds with
    | zero => simp [readRounds,decodedFrom]
    | succ rounds => simp [readRounds,decodedFrom,Nat.not_lt.mpr beyond]
  | cons d ds ih =>
    rw [List.flatMap_cons] at ahead
    have size := congrArg List.length ahead
    rw [List.length_drop,List.length_append] at size
    cases d with
    | segment d =>
      have here : slots[index]? = some d.slot := slot_at ahead 0 Nat.zero_lt_one
      have after : slots.drop (index+1) = _ := slots_after ahead
      have more : index < slots.length := by simp only [Architectural.slots,List.length_singleton] at size; omega
      obtain ⟨rounds,rfl⟩ : ∃ n, rounds = n+1 := ⟨rounds-1,by omega⟩
      rw [round_segment more (readSlot_laid laid here) (segment_nonzero d) ((bitS_iff (segment_reads d)).mpr rfl),
        ih after (by omega),List.append_assoc]
      rfl
    | system d =>
      have low : slots[index]? = some d.lowSlot := slot_at ahead 0 Nat.zero_lt_two
      have high : slots[index+1]? = some d.highSlot := slot_at ahead 1 Nat.one_lt_two
      have after : slots.drop (index+2) = _ := slots_after ahead
      have more : index+1 < slots.length := by simp only [Architectural.slots,List.length_cons,List.length_nil] at size; omega
      have system : ¬ d.lowSlot &&& bitS ≠ 0 := fun set => Bool.noConfusion ((bitS_iff (system_reads d)).mp set)
      obtain ⟨rounds,rfl⟩ : ∃ n, rounds = n+1 := ⟨rounds-1,by omega⟩
      rw [round_system more (readSlot_laid laid low) (readSlot_laid laid high) (system_nonzero d) system (system_is16Bytes d),
        ih after (by omega),List.append_assoc]
      rfl

-- The whole table, with its null descriptor in front.
theorem read_decoded {table : Table} (laid : Laid memory base table.slots) (limit : BitVec 32) (count : slotCount limit = table.slots.length) :
    read memory base limit = .ok ⟨base,limit,(if table.null then [.null 0] else []) ++
      decodedFrom (if table.null then 1 else 0) table.descriptors⟩ := by
  unfold read
  rw [count]
  obtain ⟨null,ds⟩ := table
  cases null with
  | false =>
    have all : readRounds memory base _ _ 0 [] = _ := readRounds_decoded laid ds rfl (Nat.le_add_left _ 0) []
    rw [all]
    rfl
  | true =>
    have here : (Table.slots ⟨true,ds⟩)[0]? = some 0 := rfl
    have size : (Table.slots ⟨true,ds⟩).length = (ds.flatMap Architectural.slots).length+1 := rfl
    have rest : readRounds memory base _ (ds.flatMap Architectural.slots).length 1 [.null 0] = _ :=
      readRounds_decoded laid ds rfl (by omega) [.null 0]
    rw [size] at rest ⊢
    rw [round_null (Nat.zero_lt_succ _) (readSlot_laid laid here),List.nil_append,rest]
    rfl

end Gdt

def Low : Architectural → Prop
  | .segment _ => True
  | .system d => d.base.toNat < 2^32

theorem decodedFrom_recovers (index : Nat) (ds : List Architectural) : RecoversAll ds (decodedFrom index ds) ↔ ∀ d ∈ ds, Low d := by
  induction ds generalizing index with
  | nil => simp [RecoversAll,decodedFrom]
  | cons d ds ih => cases d with
    | segment d => simp [RecoversAll,decodedFrom,ih,segment_recovered,Low]
    | system d => simp [RecoversAll,decodedFrom,ih,system_recovered_iff,Low]

theorem decoded_recovers (table : Table) : Recovers table ((if table.null then [.null 0] else []) ++
    decodedFrom (if table.null then 1 else 0) table.descriptors) ↔ ∀ d ∈ table.descriptors, Low d := by
  obtain ⟨null,ds⟩ := table
  cases null with
  | true => simpa [Recovers] using decodedFrom_recovers 1 ds
  | false =>
    have here := decodedFrom_recovers 0 ds
    cases ds with
    | nil => simpa [Recovers,decodedFrom] using here
    | cons d ds => cases d with
      | segment d => simpa [Recovers,decodedFrom] using here
      | system d => simpa [Recovers,decodedFrom] using here

-- A null descriptor, the code segment of a 64-bit kernel and its task state
-- segment, at physical address 0x1000.
def kernelTable (tss : U64) : Table :=
  ⟨true,[.segment ⟨0,0xFFFFF,10,0,true,false,true,false,true⟩,.system ⟨tss,103,.tssBusy,0,true,false,false⟩]⟩

def tableRam (table : Table) : GuestRam :=
  .ofWords (table.slots.zipIdx.map fun slot => (0x1000+8*slot.2,slot.1.toNat)) 0x10000

theorem kernelTable_laid (high : tss = 0x5000 ∨ tss = 0xFFFF800000005000) :
    Laid (tableRam (kernelTable tss)) 0x1000 (kernelTable tss).slots := by
  intro i raw here
  have small : i < 4 := by
    have inside := (List.getElem?_eq_some_iff.mp here).1
    exact inside
  rcases high with rfl | rfl
  · interval_cases i <;> cases here <;> decide +kernel
  · interval_cases i <;> cases here <;> decide +kernel

end PrincessIDE.Descriptor
