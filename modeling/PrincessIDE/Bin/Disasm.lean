import PrincessIDE.Bin.Source
import PrincessIDE.Core.Event
import PrincessIDE.Foundation.Spans
import PrincessIDE.Foundation.Words

namespace PrincessIDE.Disasm
open Utf8 (Text Bytes encode)
open Str Error Memory Source
open Event (SourceLocation)

inductive Syntax where
  | intel
  | nasm
  | gas
  | objdumpIntel
deriving DecidableEq, Repr

structure DisassemblerOptions where
  outputSyntax : Syntax
  baseOffset : U64
  bytes : Bool
deriving DecidableEq, Repr

structure SegmentInfo where
  fileOffset : U64
  virtualAddress : U64
  fileSize : U64
deriving DecidableEq, Repr

structure DisassembledInstruction where
  address : Text
  bytes : Text
  text : Text
  symbol : Option Text
  source : Option SourceLocation
deriving DecidableEq, Repr

structure SourceRow where
  addresses : LineRange
  instructionCount : Nat
  inlined : Bool
deriving DecidableEq, Repr

structure DisassemblyView where
  instructions : List DisassembledInstruction
  sourceRows : List SourceRow
  requestedAddress : U64
  startAddress : U64
deriving DecidableEq, Repr

-- What the decoder says of an instruction, and what each formatter prints for it.
structure Instruction where
  ip : U64
  len : Nat
  invalid : Bool
  text : Syntax → Text

-- The decoder takes at least a byte and no more than there are, also where it
-- knows no instruction.
structure Decoder where
  next : Bytes → U64 → Instruction
  here : ∀ bytes ip, (next bytes ip).ip = ip
  positive : ∀ bytes ip, 1 ≤ (next bytes ip).len
  within : ∀ bytes ip, bytes ≠ [] → (next bytes ip).len ≤ bytes.length

-- A panic of an addition, where the build checks for overflow.
inductive Failure where
  | error (e : PrincessError)
  | overflow
deriving DecidableEq, Repr

def maxDecodeBytes : Nat := 2^20

structure Disassembler where
  path : Text
  segments : List SegmentInfo
  symbols : List (U64 × U64 × Text)
  lines : LineTable
  options : DisassemblerOptions

-- What surrounds a disassembler: the decoder, the file, and the names.
structure Surroundings where
  decoder : Decoder
  readAt : U64 → Nat → Except PrincessError Bytes
  short : ∀ offset len bytes, readAt offset len = .ok bytes → bytes.length ≤ len
  demangleName : Text → Text
  hex : U64 → Text

def add (checks : Bool) (a b : U64) : Except Failure U64 :=
  if checks && 2^64 ≤ a.toNat + b.toNat then .error .overflow else .ok (a+b)

namespace SegmentInfo

def hasFileBytesForVaddr (s : SegmentInfo) (vaddr : U64) : Bool :=
  s.virtualAddress ≤ vaddr && vaddr.toNat < min (s.virtualAddress.toNat + s.fileSize.toNat) (2^64-1)

def fileOffsetForVaddr (checks : Bool) (s : SegmentInfo) (vaddr : U64) : Option (Except Failure U64) :=
  if s.hasFileBytesForVaddr vaddr then some (add checks s.fileOffset (vaddr - s.virtualAddress)) else none

end SegmentInfo

def instructionsFrom (d : Decoder) : Nat → Bytes → U64 → List Instruction
  | 0,_,_ => []
  | n+1,bytes,ip =>
    if bytes = [] then []
    else
      let i := d.next bytes ip
      i :: instructionsFrom d n (bytes.drop i.len) (ip + .ofNat 64 i.len)

def instructionBytesAt (buffer : Bytes) (base : U64) (i : Instruction) : Text :=
  let start := if base ≤ i.ip then (i.ip - base).toNat else 0
  (List.range i.len).flatMap fun index => match buffer[start+index]? with
    | some byte => padded 2 byte.toNat
    | none => "??".toList

def parseHexAddress (t : Text) : Option U64 := (fromStrRadix 16 u64 t).map (.ofNat 64)

def earlier (a b : U64) : U64 := if a ≤ b then a else b

namespace Disassembler
variable (s : Surroundings) (checks : Bool) (d : Disassembler)

-- The address that is shown for an instruction.
def shown (i : Instruction) : U64 := i.ip - d.options.baseOffset

def symbolAt (address : U64) : Option Text :=
  (d.symbols.find? fun symbol => symbol.1 ≤ address && address < symbol.2.1).map fun symbol => s.demangleName symbol.2.2

def render (buffer : Bytes) (base : U64) (i : Instruction) : DisassembledInstruction :=
  ⟨padded 16 (d.shown i).toNat,if d.options.bytes then instructionBytesAt buffer base i else [],trim (i.text d.options.outputSyntax),
    d.symbolAt s (d.shown i),none⟩

def renderInvalid (buffer : Bytes) (base : U64) (i : Instruction) : DisassembledInstruction :=
  ⟨padded 16 (d.shown i).toNat,instructionBytesAt buffer base i,"(bad)".toList,d.symbolAt s (d.shown i),none⟩

def notMapped (address : U64) : PrincessError :=
  (PrincessError.new .notFound ("address ".toList ++ s.hex address ++ " is not inside any file-backed segment of ".toList ++ d.path)).withDetail
    "a static disassembly can only decode bytes that exist in the file; live/unmapped memory is the debugger's job".toList

def sliceFor (address : U64) : Except Failure (Bytes × U64 × U64) :=
  let target : Option (SegmentInfo × Except Failure U64) :=
    d.segments.findSome? fun segment => (segment.fileOffsetForVaddr checks address).map (segment,·)
  match target with
  | none => .error (.error (d.notMapped s address))
  | some (_,.error e) => .error e
  | some (segment,.ok offset) =>
    let consumed := address - segment.virtualAddress
    let remaining := min (segment.fileSize.toNat - consumed.toNat) maxDecodeBytes
    match s.readAt offset remaining with
    | .error e => .error (.error e)
    | .ok bytes => .ok (bytes,address,offset)

-- The instructions of a run, and the buffer that they were decoded from.
def decoded (address : U64) (count : Nat) : Except Failure (Bytes × List Instruction) :=
  (d.sliceFor s checks address).map fun slice => (slice.1,instructionsFrom s.decoder count slice.1 slice.2.1)

def renderAny (buffer : Bytes) (base : U64) (i : Instruction) : DisassembledInstruction :=
  if i.invalid then d.renderInvalid s buffer base i else d.render s buffer base i

def disassemble (address : U64) (count : Nat) : Except Failure (List DisassembledInstruction) :=
  (d.decoded s checks address count).map fun found => found.2.map (d.renderAny s found.1 address)

end Disassembler

def startOf (instructions : List DisassembledInstruction) (address : U64) : U64 :=
  (instructions.head?.bind fun i => parseHexAddress i.address).getD address

def spanEnd (checks : Bool) (instructions : List DisassembledInstruction) (start : U64) : Except Failure U64 :=
  match instructions.getLast? with
  | some i => add checks ((parseHexAddress i.address).getD start) (.ofNat 64 ((encode i.bytes).length / 2))
  | none => .ok start

-- The part of a segment inside a span, with the addresses that fall into it.
def sourceRow (addresses : List U64) (start stop : U64) (segment : LineRange) : Option SourceRow :=
  if segment.stop ≤ start || stop ≤ segment.start then none
  else
    let clippedStart := later segment.start start
    let clippedEnd := earlier segment.stop stop
    some ⟨{segment with start:=clippedStart,stop:=clippedEnd},(addresses.filter fun a => clippedStart ≤ a && a < clippedEnd).length,
      segment.inlinedInto.isSome⟩

def Disassembler.withSource (s : Surroundings) (checks : Bool) (d : Disassembler) (address : U64) (count : Nat) :
    Except Failure DisassemblyView × Disassembler :=
  match d.disassemble s checks address count with
  | .error e => (.error e,d)
  | .ok instructions =>
    let start := startOf instructions address
    match spanEnd checks instructions start with
    | .error e => (.error e,d)
    | .ok stop =>
      let addresses := instructions.filterMap fun i => parseHexAddress i.address
      if start < stop then match d.lines.segments with
        | (.error e,lines) => (.error (.error e),{d with lines:=lines})
        | (.ok segments,lines) => (.ok ⟨instructions,segments.filterMap (sourceRow addresses start stop),address,start⟩,{d with lines:=lines})
      else (.ok ⟨instructions,[],address,start⟩,d)

-- The bytes that a run of instructions takes.
def extent (instructions : List Instruction) : Nat := (instructions.map Instruction.len).sum

theorem instructionsFrom_succ (d : Decoder) (n : Nat) (bytes : Bytes) (ip : U64) : instructionsFrom d (n+1) bytes ip = if bytes = [] then []
    else d.next bytes ip :: instructionsFrom d n (bytes.drop (d.next bytes ip).len) (ip + .ofNat 64 (d.next bytes ip).len) := rfl

theorem instructions_extent (d : Decoder) (n : Nat) (bytes : Bytes) (ip : U64) : extent (instructionsFrom d n bytes ip) ≤ bytes.length := by
  induction n generalizing bytes ip with
  | zero => exact Nat.zero_le _
  | succ n ih =>
    rw [instructionsFrom_succ]
    split
    · exact Nat.zero_le _
    · next some =>
      have within := d.within bytes ip some
      have later := ih (bytes.drop (d.next bytes ip).len) (ip + .ofNat 64 (d.next bytes ip).len)
      rw [List.length_drop] at later
      change (d.next bytes ip).len + extent _ ≤ _
      omega

theorem instructions_first (first : (instructionsFrom d n bytes ip).head? = some i) : i.ip = ip := by
  cases n with
  | zero => cases first
  | succ n =>
    rw [instructionsFrom_succ] at first
    split at first
    · cases first
    · cases first
      exact d.here bytes ip

-- The last instruction starts where all before it end.
theorem instructions_last (last : (instructionsFrom d n bytes ip).getLast? = some i) :
    i.ip = ip + .ofNat 64 (extent (instructionsFrom d n bytes ip) - i.len) ∧ 1 ≤ i.len ∧ i.len ≤ extent (instructionsFrom d n bytes ip) := by
  induction n generalizing bytes ip with
  | zero => cases last
  | succ n ih =>
    rw [instructionsFrom_succ] at last ⊢
    split at last
    · cases last
    · next some =>
      rw [if_neg some]
      have here := d.here bytes ip
      have positive := d.positive bytes ip
      generalize d.next bytes ip = j at *
      cases rest : instructionsFrom d n (bytes.drop j.len) (ip + .ofNat 64 j.len) with
      | nil =>
        rw [rest] at last
        cases last
        simp [extent,here,positive]
      | cons k ks =>
        rw [rest,List.getLast?_cons_cons,← rest] at last
        obtain ⟨place,wide,inside⟩ := ih last
        rw [rest] at place inside
        have whole : extent (j :: k :: ks) = j.len + extent (k :: ks) := by simp [extent]
        refine ⟨?_,wide,by omega⟩
        rw [place,whole,Nat.add_sub_assoc inside,BitVec.ofNat_add,BitVec.add_assoc]

-- Where the addresses that are shown do not wrap, they are spans of a number line.
theorem instructions_spans (d : Decoder) (base : U64) (n : Nat) (bytes : Bytes) (ip : U64)
    (room : (ip - base).toNat + extent (instructionsFrom d n bytes ip) < 2^64) :
    Spans (fun i : Instruction => (i.ip - base).toNat) Instruction.len (ip - base).toNat (instructionsFrom d n bytes ip) := by
  induction n generalizing bytes ip with
  | zero => exact .nil
  | succ n ih =>
    rw [instructionsFrom_succ] at room ⊢
    split
    · exact .nil
    · next some =>
      rw [if_neg some] at room
      have here := d.here bytes ip
      have positive := d.positive bytes ip
      generalize d.next bytes ip = j at *
      change _ + (j.len + extent _) < _ at room
      have next : (ip + .ofNat 64 j.len - base).toNat = (ip - base).toNat + j.len := by
        have moved : ip + .ofNat 64 j.len - base = (ip - base) + .ofNat 64 j.len := by bv_omega
        rw [moved,BitVec.toNat_add,BitVec.toNat_ofNat]
        omega
      refine .cons (by rw [here]) positive ?_
      rw [← next]
      exact ih _ _ (by rw [next]; omega)

theorem parseHexAddress_padded (address : U64) : parseHexAddress (padded 16 address.toNat) = some address := by
  have read : fromStrRadix 16 u64 (padded 16 address.toNat) = some address.toNat := fromStrRadix_padded address.isLt 16
  rw [parseHexAddress,read,Option.map_some,BitVec.ofNat_toNat,BitVec.setWidth_eq]

theorem byte_hex (byte : UInt8) : (padded 2 byte.toNat).length = 2 ∧ ∀ c ∈ padded 2 byte.toNat, c.toNat < 0x80 := by
  constructor
  · have short : (Nat.toDigits 16 byte.toNat).length ≤ 2 := (Nat.length_toDigits_le_iff (by decide) (by decide)).mpr byte.toNat_lt
    rw [padded,List.length_leftpad]
    exact Nat.max_eq_left short
  · intro c inside
    obtain ⟨v,value⟩ := Option.isSome_iff_exists.mp (padded_hex inside)
    have range := (digitValue_range value).1
    omega

theorem plain_length (plain : ∀ c ∈ t, c.toNat < 0x80) : (encode t).length = t.length := by
  rw [Utf8.encode_ascii plain,List.length_map]

-- Two characters for every byte, whether or not the buffer has it.
theorem instructionBytesAt_length (buffer : Bytes) (base : U64) (i : Instruction) :
    (encode (instructionBytesAt buffer base i)).length = 2 * i.len := by
  have piece : ∀ found : Option UInt8, (encode (match found with
      | some byte => padded 2 byte.toNat
      | none => "??".toList)).length = 2 := fun found => match found with
    | some byte => (plain_length (byte_hex byte).2).trans (byte_hex byte).1
    | none => by decide
  unfold instructionBytesAt
  induction i.len with
  | zero => rfl
  | succ n ih =>
    rw [List.range_succ,List.flatMap_append,Utf8.encode_append,List.length_append,ih,List.flatMap_singleton,piece]
    omega

theorem earlier_min (a b : U64) : (earlier a b).toNat = min a.toNat b.toNat := by
  unfold earlier
  split <;> bv_omega

theorem later_max (a b : U64) : (later a b).toNat = max a.toNat b.toNat := by
  unfold later
  split <;> bv_omega

-- A row is the common part of a segment and the span, where they meet.
theorem sourceRow_iff : sourceRow addresses start stop g = some r ↔ (start < g.stop ∧ g.start < stop) ∧
    r = ⟨{g with start:=later g.start start,stop:=earlier g.stop stop},
      (addresses.filter fun a => later g.start start ≤ a && a < earlier g.stop stop).length,g.inlinedInto.isSome⟩ := by
  unfold sourceRow
  rw [Option.ite_none_left_eq_some,Option.some.injEq,Bool.or_eq_true,decide_eq_true_eq,decide_eq_true_eq,not_or,BitVec.not_le,BitVec.not_le,
    eq_comm (a := r)]

theorem sourceRow_contains (row : sourceRow addresses start stop g = some r) (above : start ≤ a) (below : a < stop) :
    r.addresses.contains a = g.contains a := by
  obtain ⟨_,rfl⟩ := sourceRow_iff.mp row
  rw [Bool.eq_iff_iff,contains_iff,contains_iff,BitVec.le_def,BitVec.lt_def,earlier_min,later_max,BitVec.le_def,BitVec.lt_def]
  bv_omega

theorem sourceRow_apart (none : sourceRow addresses start stop g = none) (above : start ≤ a) (below : a < stop) : g.contains a = false := by
  by_contra held
  obtain ⟨low,high⟩ := contains_iff.mp (Bool.not_eq_false _ ▸ held)
  have meets := (@sourceRow_iff addresses start stop g _).mpr ⟨⟨by bv_omega,by bv_omega⟩,rfl⟩
  rw [none] at meets
  cases meets

-- Inside the span the rows contain an address as often as the segments do.
theorem rows_contain (segments : List LineRange) (above : start ≤ a) (below : a < stop) :
    ((segments.filterMap (sourceRow addresses start stop)).filter (·.addresses.contains a)).length = (segments.filter (·.contains a)).length := by
  induction segments with
  | nil => rfl
  | cons g rest ih =>
    cases row : sourceRow addresses start stop g with
    | none => rw [List.filterMap_cons_none row,List.filter_cons,sourceRow_apart row above below,ih]; rfl
    | some r =>
      rw [List.filterMap_cons_some row,List.filter_cons,List.filter_cons,sourceRow_contains row above below]
      split
      · rw [List.length_cons,List.length_cons,ih]
      · exact ih

section
variable {s : Surroundings} {checks : Bool} {d : Disassembler}

-- The length that the text of an instruction's bytes speaks of.
def Disassembler.measured (d : Disassembler) (i : Instruction) : Nat := if d.options.bytes || i.invalid then i.len else 0

theorem renderAny_address (buffer : Bytes) (base : U64) (i : Instruction) :
    parseHexAddress (d.renderAny s buffer base i).address = some (d.shown i) := by
  have read := parseHexAddress_padded (d.shown i)
  unfold Disassembler.renderAny
  split <;> exact read

theorem renderAny_bytes (buffer : Bytes) (base : U64) (i : Instruction) :
    (encode (d.renderAny s buffer base i).bytes).length / 2 = d.measured i := by
  have whole : (encode (instructionBytesAt buffer base i)).length / 2 = i.len := by
    rw [instructionBytesAt_length]
    omega
  unfold Disassembler.renderAny Disassembler.renderInvalid Disassembler.render Disassembler.measured
  cases i.invalid
  · cases d.options.bytes
    · simp [encode]
    · exact whole
  · rw [Bool.or_true]
    exact whole

theorem rendered_addresses (buffer : Bytes) (base : U64) (run : List Instruction) :
    ((run.map (d.renderAny s buffer base)).filterMap fun i => parseHexAddress i.address) = run.map d.shown := by
  rw [List.filterMap_map,← List.filterMap_eq_map]
  exact congrArg (List.filterMap · run) (funext fun i => renderAny_address buffer base i)

theorem withSource_none (decodes : d.decoded s checks address count = .ok (bytes,[])) :
    (d.withSource s checks address count).1 = .ok ⟨[],[],address,address⟩ := by
  have shows : d.disassemble s checks address count = .ok [] := by rw [Disassembler.disassemble,decodes]; rfl
  unfold Disassembler.withSource
  rw [shows]
  simp [startOf,spanEnd]

-- The rows of a run, from its first address to where its last instruction is
-- taken to end.
theorem withSource_run (decodes : d.decoded s checks address count = .ok (bytes,run)) (first : run.head? = some i) (last : run.getLast? = some k)
    (lines : d.lines.segments.1 = .ok segments) :
    (d.withSource s checks address count).1 = (add checks (d.shown k) (.ofNat 64 (d.measured k))).map fun stop =>
      ⟨run.map (d.renderAny s bytes address),if d.shown i < stop then segments.filterMap (sourceRow (run.map d.shown) (d.shown i) stop) else [],
        address,d.shown i⟩ := by
  have shows : d.disassemble s checks address count = .ok (run.map (d.renderAny s bytes address)) := by rw [Disassembler.disassemble,decodes]; rfl
  have start : startOf (run.map (d.renderAny s bytes address)) address = d.shown i := by
    rw [startOf,List.head?_map,first,Option.map_some,Option.bind_some,renderAny_address]
    rfl
  have ends : spanEnd checks (run.map (d.renderAny s bytes address)) (d.shown i) = add checks (d.shown k) (.ofNat 64 (d.measured k)) := by
    rw [spanEnd,List.getLast?_map,last,Option.map_some]
    dsimp only
    rw [renderAny_address,renderAny_bytes]
    rfl
  unfold Disassembler.withSource
  rw [shows]
  dsimp only
  rw [start,ends,rendered_addresses]
  cases add checks (d.shown k) (.ofNat 64 (d.measured k)) with
  | error e => rfl
  | ok stop =>
    dsimp only
    split
    · next before =>
      cases found : d.lines.segments with
      | mk answer lines' =>
        rw [found] at lines
        cases lines
        simp [Except.map,before]
    · next behind => simp [Except.map,behind]

theorem decoded_run (decodes : d.decoded s checks address count = .ok (bytes,run)) :
    run = instructionsFrom s.decoder count bytes address ∧ extent run ≤ maxDecodeBytes := by
  unfold Disassembler.decoded Disassembler.sliceFor at decodes
  dsimp only at decodes
  split at decodes
  · cases decodes
  · cases decodes
  · next segment offset _ =>
    split at decodes
    · cases decodes
    · next found read =>
      cases decodes
      have short := s.short _ _ found read
      have inside := instructions_extent s.decoder count found address
      exact ⟨rfl,inside.trans (short.trans (Nat.min_le_right _ _))⟩

-- Rows that have every instruction of a run, each once and up to their ends.
structure Whole (d : Disassembler) (run : List Instruction) (rows : List SourceRow) : Prop where
  counted : (rows.map SourceRow.instructionCount).sum = run.length
  owned : ∀ r ∈ rows, r.instructionCount = (run.filter fun i => r.addresses.contains (d.shown i)).length
  placed : ∀ i ∈ run, (rows.filter (·.addresses.contains (d.shown i))).length = 1
  ended : ∀ r ∈ rows, ∃ i, (run.filter fun i => r.addresses.contains (d.shown i)).getLast? = some i ∧
    (d.shown i).toNat + i.len = r.addresses.stop.toNat

-- A line table that has every instruction of a run in one segment, and none cut.
structure Covers (d : Disassembler) (run : List Instruction) (segments : List LineRange) (start stop : Nat) : Prop where
  once : ∀ i ∈ run, (segments.filter (·.contains (d.shown i))).length = 1
  ends : ∀ g ∈ segments, start < g.stop.toNat → g.start.toNat < stop →
    ∃ i ∈ run, g.contains (d.shown i) = true ∧ (d.shown i).toNat + i.len = min g.stop.toNat stop

theorem row_within (row : sourceRow addresses start stop g = some r) (inside : r.addresses.contains a = true) : start ≤ a ∧ a < stop := by
  obtain ⟨_,rfl⟩ := sourceRow_iff.mp row
  rw [contains_iff,BitVec.le_def,BitVec.lt_def,earlier_min,later_max] at inside
  bv_omega

theorem row_counts (run : List Instruction) (row : sourceRow (run.map d.shown) start stop g = some r) :
    r.instructionCount = (run.filter fun i => r.addresses.contains (d.shown i)).length := by
  obtain ⟨_,rfl⟩ := sourceRow_iff.mp row
  dsimp only
  rw [List.filter_map,List.length_map]
  rfl

-- Of a run on a number line the rows are whole exactly where the table covers
-- it: a row has its last instruction where one ends with it.
theorem rows_whole {segments : List LineRange} {start stop : U64}
    (spans : Spans (fun i : Instruction => (d.shown i).toNat) Instruction.len start.toNat run) (wide : stop.toNat = start.toNat + extent run) :
    Whole d run (segments.filterMap (sourceRow (run.map d.shown) start stop)) ↔ Covers d run segments start.toNat stop.toNat := by
  have within : ∀ i ∈ run, start ≤ d.shown i ∧ d.shown i < stop ∧ (d.shown i).toNat + i.len ≤ stop.toNat := fun i inside => by
    have bounds := spans.bounds i inside
    rw [← extent] at bounds
    bv_omega
  have same : ∀ i ∈ run, ((segments.filterMap (sourceRow (run.map d.shown) start stop)).filter (·.addresses.contains (d.shown i))).length =
      (segments.filter (·.contains (d.shown i))).length := fun i inside => rows_contain segments (within i inside).1 (within i inside).2.1
  constructor
  · intro whole
    refine ⟨fun i inside => (same i inside).symm.trans (whole.placed i inside),fun g listed low high => ?_⟩
    have row := (@sourceRow_iff (run.map d.shown) start stop g _).mpr ⟨⟨low,high⟩,rfl⟩
    obtain ⟨i,last,ends⟩ := whole.ended _ (List.mem_filterMap.mpr ⟨g,listed,row⟩)
    obtain ⟨inside,held⟩ := List.mem_filter.mp (List.mem_of_getLast? last)
    rw [sourceRow_contains row (within i inside).1 (within i inside).2.1] at held
    exact ⟨i,inside,held,ends.trans (earlier_min g.stop stop)⟩
  · intro covers
    have owned : ∀ r ∈ segments.filterMap (sourceRow (run.map d.shown) start stop),
        r.instructionCount = (run.filter fun i => r.addresses.contains (d.shown i)).length := fun r listed => by
      obtain ⟨g,_,row⟩ := List.mem_filterMap.mp listed
      exact row_counts run row
    have placed := fun i inside => (same i inside).trans (covers.once i inside)
    refine ⟨?_,owned,placed,fun r listed => ?_⟩
    · rw [List.map_congr_left owned,count_twice (fun (r : SourceRow) (i : Instruction) => r.addresses.contains (d.shown i)),List.map_congr_left placed]
      simp
    · obtain ⟨g,member,row⟩ := List.mem_filterMap.mp listed
      obtain ⟨⟨low,high⟩,made⟩ := sourceRow_iff.mp row
      obtain ⟨i,inside,held,ends⟩ := covers.ends g member low high
      rw [← sourceRow_contains row (within i inside).1 (within i inside).2.1] at held
      have there : i ∈ run.filter fun i => r.addresses.contains (d.shown i) := List.mem_filter.mpr ⟨inside,held⟩
      have stops : r.addresses.stop.toNat = min g.stop.toNat stop.toNat := by
        rw [made]
        exact earlier_min g.stop stop
      obtain ⟨k,last⟩ := Option.ne_none_iff_exists'.mp fun none => List.ne_nil_of_mem there (List.getLast?_eq_none_iff.mp none)
      rcases getLast_behind (spans.ordered.filter _) last there with rfl | behind
      · exact ⟨i,last,ends.trans stops.symm⟩
      · -- An instruction behind it would start where the row ends.
        have beyond := (contains_iff.mp (List.mem_filter.mp (List.mem_of_getLast? last)).2).2
        bv_omega

theorem add_fits (checks : Bool) (fits : a.toNat + b.toNat < 2^64) : add checks a b = .ok (a+b) ∧ (a+b).toNat = a.toNat + b.toNat := by
  constructor
  · rw [add,if_neg]
    simp only [Bool.and_eq_true,decide_eq_true_eq]
    omega
  · exact BitVec.toNat_add_of_lt fits

theorem add_above (sum : add checks a b = .ok c) (above : a < c) : c.toNat = a.toNat + b.toNat ∧ 1 ≤ b.toNat := by
  unfold add at sum
  split at sum
  · cases sum
  · cases sum
    bv_omega

theorem run_spans (decodes : d.decoded s checks address count = .ok (bytes,run)) (first : run.head? = some i)
    (room : (d.shown i).toNat + extent run < 2^64) :
    Spans (fun i : Instruction => (d.shown i).toNat) Instruction.len (d.shown i).toNat run := by
  obtain ⟨rfl,_⟩ := decoded_run decodes
  have start : d.shown i = address - d.options.baseOffset := by rw [Disassembler.shown,instructions_first first]
  rw [start] at room ⊢
  exact instructions_spans s.decoder d.options.baseOffset count bytes address room

theorem last_size (decodes : d.decoded s checks address count = .ok (bytes,run)) (last : run.getLast? = some k) :
    (BitVec.ofNat 64 k.len).toNat = k.len := by
  obtain ⟨rfl,small⟩ := decoded_run decodes
  have inside := (instructions_last last).2.2
  unfold maxDecodeBytes at small
  rw [BitVec.toNat_ofNat]
  omega

-- A span that holds its last address has not wrapped.
theorem run_room (decodes : d.decoded s checks address count = .ok (bytes,run)) (first : run.head? = some i) (last : run.getLast? = some k)
    (ordered : d.shown i ≤ d.shown k) (ends : (d.shown k).toNat + k.len < 2^64) : (d.shown i).toNat + extent run < 2^64 := by
  obtain ⟨rfl,small⟩ := decoded_run decodes
  have start := instructions_first first
  obtain ⟨place,wide,inside⟩ := instructions_last last
  have moved : d.shown k = d.shown i + .ofNat 64 (extent (instructionsFrom s.decoder count bytes address) - k.len) := by
    rw [Disassembler.shown,Disassembler.shown,start,place]
    bv_omega
  generalize extent (instructionsFrom s.decoder count bytes address) = whole at *
  have short : (BitVec.ofNat 64 (whole - k.len)).toNat = whole - k.len := by
    rw [BitVec.toNat_ofNat]
    unfold maxDecodeBytes at small
    omega
  generalize BitVec.ofNat 64 (whole - k.len) = rest at *
  unfold maxDecodeBytes at small
  bv_omega

-- A run whose end can be told, in a table that covers it.
structure Aligned (d : Disassembler) (run : List Instruction) (segments : List LineRange) (i k : Instruction) : Prop where
  known : d.options.bytes = true ∨ k.invalid = true
  room : (d.shown i).toNat + extent run < 2^64
  covered : Covers d run segments (d.shown i).toNat ((d.shown i).toNat + extent run)

theorem measured_known (known : d.options.bytes = true ∨ k.invalid = true) : d.measured k = k.len := by
  rw [Disassembler.measured,if_pos (Bool.or_eq_true_iff.mpr known)]

theorem aligned_whole (decodes : d.decoded s checks address count = .ok (bytes,run)) (first : run.head? = some i) (last : run.getLast? = some k)
    (lines : d.lines.segments.1 = .ok segments) (aligned : Aligned d run segments i k) :
    ∃ view, (d.withSource s checks address count).1 = .ok view ∧ view.instructions = run.map (d.renderAny s bytes address) ∧
      Whole d run view.sourceRows := by
  have spans := run_spans decodes first aligned.room
  have ends : (d.shown k).toNat + k.len = (d.shown i).toNat + extent run := spans.last_end last
  have wide := (spans.bounds k (List.mem_of_getLast? last)).2.1
  have low := (spans.bounds k (List.mem_of_getLast? last)).1
  have room := aligned.room
  have size := last_size decodes last
  obtain ⟨sum,stop⟩ := add_fits checks (by rw [size]; omega : (d.shown k).toNat + (BitVec.ofNat 64 k.len).toNat < 2^64)
  rw [size,ends] at stop
  have shows := withSource_run decodes first last lines
  rw [measured_known aligned.known,sum] at shows
  refine ⟨_,shows,rfl,?_⟩
  dsimp only
  rw [if_pos (by rw [BitVec.lt_def,stop]; omega)]
  refine (rows_whole spans stop).mpr ?_
  rw [stop]
  exact aligned.covered

theorem whole_aligned (decodes : d.decoded s checks address count = .ok (bytes,run)) (first : run.head? = some i) (last : run.getLast? = some k)
    (lines : d.lines.segments.1 = .ok segments) (answers : (d.withSource s checks address count).1 = .ok view)
    (whole : Whole d run view.sourceRows) : Aligned d run segments i k := by
  rw [withSource_run decodes first last lines] at answers
  cases sum : add checks (d.shown k) (.ofNat 64 (d.measured k)) with
  | error e => rw [sum] at answers; cases answers
  | ok stop =>
    rw [sum] at answers
    cases answers
    dsimp only at whole
    have here := whole.placed k (List.mem_of_getLast? last)
    split at whole
    case isFalse behind => rw [if_neg behind] at here; cases here
    case isTrue before =>
      rw [if_pos before] at here
      obtain ⟨r,held⟩ := List.exists_mem_of_length_pos (here ▸ Nat.one_pos)
      obtain ⟨listed,inside⟩ := List.mem_filter.mp held
      obtain ⟨g,_,row⟩ := List.mem_filterMap.mp listed
      obtain ⟨ordered,below⟩ := row_within row inside
      obtain ⟨wide,some⟩ := add_above sum below
      have known : d.options.bytes = true ∨ k.invalid = true := by
        by_contra unknown
        rw [Disassembler.measured,if_neg (fun told => unknown (Bool.or_eq_true_iff.mp told))] at some
        cases some
      rw [measured_known known] at wide
      rw [last_size decodes last] at wide
      have room := run_room decodes first last ordered (by omega)
      have spans := run_spans decodes first room
      have ends : (d.shown k).toNat + k.len = (d.shown i).toNat + extent run := spans.last_end last
      rw [ends] at wide
      refine ⟨known,room,?_⟩
      rw [← wide]
      exact (rows_whole spans wide).mp whole

-- A view has every instruction that was decoded, in rows that are whole.
def Keeps (s : Surroundings) (checks : Bool) (d : Disassembler) (address : U64) (count : Nat) : Prop :=
  ∀ bytes run segments, d.decoded s checks address count = .ok (bytes,run) → d.lines.segments.1 = .ok segments →
    ∃ view, (d.withSource s checks address count).1 = .ok view ∧ view.instructions = run.map (d.renderAny s bytes address) ∧
      Whole d run view.sourceRows

end

def nops : Decoder :=
  ⟨fun _ ip => ⟨ip,1,false,fun _ => "nop".toList⟩,fun _ _ => rfl,fun _ _ => Nat.le_refl 1,fun _ _ some => List.length_pos_iff.mpr some⟩

def nopFile : Surroundings :=
  ⟨nops,fun _ len => .ok (List.replicate len 0x90),fun _ _ _ read => by cases read; exact Nat.le_of_eq List.length_replicate,id,fun _ => []⟩

-- Two instructions of a byte each, in a line of its own each.
def twoNops (bytes : Bool) : Disassembler :=
  ⟨"k.elf".toList,[⟨0x1000,0x1000,2⟩],[],
    tableOf "k.elf".toList [⟨0x1000,1,⟨some "k.c".toList,some 1,none⟩⟩,⟨0x1001,1,⟨some "k.c".toList,some 2,none⟩⟩],⟨.intel,0,bytes⟩⟩

example : [true,false].map (fun bytes => (((twoNops bytes).withSource nopFile true 0x1000 2).1.map fun view =>
    view.sourceRows.map SourceRow.instructionCount)) = [.ok [1,1],.ok [1]] := by rfl

end PrincessIDE.Disasm
