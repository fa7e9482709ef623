import PrincessIDE.Bin.GdtTiles
import Mathlib.Data.List.Forall2
import Mathlib.Data.List.Nodup

namespace PrincessIDE.Descriptor
open Memory Fields

abbrev Raw := List (BitVec 8)

-- The variants of `DescriptorError` that `Idt::read` returns.
inductive IdtError where
  | memory (source : MemoryError)
  | invalidGateType (descriptorType : BitVec 8)
deriving DecidableEq, Repr

inductive GateKind where
  | interrupt | trap | task
deriving DecidableEq, Repr

structure IdtGate where
  vector : BitVec 8
  offset : BitVec 16
  raw : Raw
  present : Bool
  dpl : BitVec 8
  kind : GateKind
  selector : BitVec 16
  ist : BitVec 8
  handler : U64
deriving DecidableEq, Repr

-- `from_le_bytes`
def leBytes (bytes : Raw) : Nat := Nat.ofDigits 256 (bytes.map BitVec.toNat)

def placeholder : Raw := List.replicate 16 0

namespace IdtGate

def isUninstalled (gate : IdtGate) : Bool := gate.raw == placeholder

def gateKind (raw : Raw) : Except IdtError GateKind :=
  let descriptorType := raw.getD 5 0 &&& 0x0F
  match descriptorType.toNat with
  | 0xE => .ok .interrupt
  | 0xF => .ok .trap
  | 0x5 => .ok .task
  | _ => if raw = placeholder then .ok .interrupt else .error (.invalidGateType descriptorType)

-- `u8::try_from(index).unwrap_or(u8::MAX)`
def vectorOf (index : Nat) : BitVec 8 := if index < 256 then .ofNat 8 index else 255

-- One round of the loop of `read`, from the sixteen bytes on.
def decode (index : Nat) (raw : Raw) : Except IdtError IdtGate := do
  let rawLow : U64 := .ofNat 64 (leBytes (raw.take 8))
  let rawHigh : U64 := .ofNat 64 (leBytes (raw.drop 8))
  let typeAttr := raw.getD 5 0
  let kind ← gateKind raw
  let offsetLow := rawLow &&& 0xFFFF
  let offsetMid := (rawLow >>> 48) &&& 0xFFFF
  let offsetHigh := rawHigh &&& 0xFFFFFFFF
  return {
    vector:=vectorOf index
    offset:=.ofNat 16 (index*16)
    raw:=raw
    present:=typeAttr &&& 0x80 ≠ 0
    dpl:=(typeAttr >>> 5) &&& 0b11
    kind:=kind
    selector:=.ofNat 16 (leBytes [raw.getD 2 0,raw.getD 3 0])
    ist:=raw.getD 4 0 &&& 0b111
    handler:=offsetLow ||| (offsetMid <<< 16) ||| (offsetHigh <<< 32) }

end IdtGate

structure Idt where
  base : U64
  limit : BitVec 32
  gates : List IdtGate
deriving DecidableEq, Repr

namespace Idt

def gateCount (limit : BitVec 32) : Nat := (limit.toNat+1)/16

-- `read_bytes` answers with as many bytes as it was asked for.
def readGate [GuestMemory μ] (memory : μ) (base : U64) (index : Nat) : Except IdtError Raw :=
  (GuestMemory.readBytes memory (base + .ofNat 64 (index*16)) 16).mapError .memory

def readGates [GuestMemory μ] (memory : μ) (base : U64) : List Nat → Except IdtError (List IdtGate)
  | [] => .ok []
  | index :: rest => do
    let raw ← readGate memory base index
    let gate ← IdtGate.decode index raw
    let gates ← readGates memory base rest
    return gate :: gates

def read [GuestMemory μ] (memory : μ) (base : U64) (limit : BitVec 32) : Except IdtError Idt := do
  let gates ← readGates memory base (List.range (gateCount limit))
  return ⟨base,limit,gates⟩

def gate (idt : Idt) (vector : BitVec 8) : Option IdtGate := idt.gates.find? fun gate => gate.vector == vector

def userAccessibleVectors (idt : Idt) : List (BitVec 8) :=
  (idt.gates.filter fun gate => gate.present && gate.dpl == 3).map IdtGate.vector

def installedVectors (idt : Idt) : List (BitVec 8) :=
  (idt.gates.filter fun gate => gate.present && !gate.isUninstalled).map IdtGate.vector

end Idt

theorem readGates_ok [GuestMemory μ] {memory : μ} (read : Idt.readGates memory base indices = .ok gates) :
    List.Forall₂ (fun index gate => ∃ raw, Idt.readGate memory base index = .ok raw ∧ IdtGate.decode index raw = .ok gate) indices gates := by
  induction indices generalizing gates with
  | nil =>
    cases read
    exact .nil
  | cons index rest ih =>
    rw [Idt.readGates] at read
    cases bytes : Idt.readGate memory base index with
    | error e =>
      rw [bytes] at read
      cases read
    | ok raw => cases gate : IdtGate.decode index raw with
      | error e =>
        rw [bytes] at read
        dsimp only [bind,Except.bind] at read
        rw [gate] at read
        cases read
      | ok decoded => cases further : Idt.readGates memory base rest with
        | error e =>
          rw [bytes] at read
          dsimp only [bind,Except.bind] at read
          rw [gate,further] at read
          cases read
        | ok more =>
          rw [bytes] at read
          dsimp only [bind,Except.bind] at read
          rw [gate,further] at read
          cases read
          exact .cons ⟨raw,bytes,gate⟩ (ih further)

theorem read_gates [GuestMemory μ] {memory : μ} (read : Idt.read memory base limit = .ok idt) :
    idt.limit = limit ∧ Idt.readGates memory base (List.range (Idt.gateCount limit)) = .ok idt.gates := by
  unfold Idt.read at read
  cases gates : Idt.readGates memory base (List.range (Idt.gateCount limit)) with
  | error e =>
    rw [gates] at read
    cases read
  | ok found =>
    rw [gates] at read
    cases read
    exact ⟨rfl,rfl⟩

theorem decode_fields (decoded : IdtGate.decode index raw = .ok gate) : gate.vector = IdtGate.vectorOf index ∧ gate.offset = .ofNat 16 (index*16) := by
  unfold IdtGate.decode at decoded
  cases kind : IdtGate.gateKind raw with
  | error e =>
    rw [kind] at decoded
    cases decoded
  | ok kind' =>
    rw [kind] at decoded
    cases decoded
    exact ⟨rfl,rfl⟩

-- The gates that were read, each with the vector and the offset of its index.
theorem read_gate [GuestMemory μ] {memory : μ} (read : Idt.read memory base limit = .ok idt) (here : idt.gates[i]? = some gate) :
    i < Idt.gateCount limit ∧ gate.vector = IdtGate.vectorOf i ∧ gate.offset = .ofNat 16 (i*16) := by
  have each := readGates_ok (read_gates read).2
  obtain ⟨inside,value⟩ := List.getElem?_eq_some_iff.mp here
  have less : i < Idt.gateCount limit := by
    have same := each.length_eq
    rw [List.length_range] at same
    omega
  have both := each.get (i:=i) (by rw [List.length_range]; exact less) inside
  rw [List.get_eq_getElem,List.get_eq_getElem,List.getElem_range,value] at both
  obtain ⟨raw,_,decoded⟩ := both
  exact ⟨less,decode_fields decoded⟩

theorem read_count [GuestMemory μ] {memory : μ} (read : Idt.read memory base limit = .ok idt) : idt.gates.length = Idt.gateCount limit := by
  have same := (readGates_ok (read_gates read).2).length_eq
  rw [List.length_range] at same
  exact same.symm

-- What the vector numbers of a table say of its gates.
structure Vectors (idt : Idt) : Prop where
  positions : ∀ i gate, idt.gates[i]? = some gate → (IdtGate.vector gate).toNat = i
  distinct : (idt.gates.map IdtGate.vector).Nodup
  lookup : ∀ vector, idt.gate vector = idt.gates[vector.toNat]? ∧
    ∀ gate, idt.gate vector = some gate → gate.offset.toNat = 16*vector.toNat
  installed : idt.installedVectors.Nodup ∧ ∀ vector, vector ∈ idt.installedVectors ↔
    ∃ gate, idt.gates[vector.toNat]? = some gate ∧ gate.present = true ∧ gate.isUninstalled = false
  userAccessible : idt.userAccessibleVectors.Nodup ∧ ∀ vector, vector ∈ idt.userAccessibleVectors ↔
    ∃ gate, idt.gates[vector.toNat]? = some gate ∧ gate.present = true ∧ gate.dpl = 3

theorem vectorOf_small (small : i < 256) : (IdtGate.vectorOf i).toNat = i := by
  rw [IdtGate.vectorOf,if_pos small,BitVec.toNat_ofNat,Nat.mod_eq_of_lt small]

theorem vectorOf_other (vector : BitVec 8) (before : i < vector.toNat) : IdtGate.vectorOf i ≠ vector := by
  have bound := vector.isLt
  rintro rfl
  rw [vectorOf_small (by omega)] at before
  omega

theorem vectorOf_self (vector : BitVec 8) : IdtGate.vectorOf vector.toNat = vector :=
  BitVec.eq_of_toNat_eq (vectorOf_small vector.isLt)

theorem read_lookup [GuestMemory μ] {memory : μ} (read : Idt.read memory base limit = .ok idt) (vector : BitVec 8) :
    idt.gate vector = idt.gates[vector.toNat]? := by
  apply Search.find?_index
  · intro i gate before here
    obtain ⟨_,same,_⟩ := read_gate read here
    rw [same]
    exact beq_false_of_ne (vectorOf_other vector before)
  · intro gate here
    obtain ⟨_,same,_⟩ := read_gate read here
    rw [same,vectorOf_self]
    exact beq_self_eq_true _

section
variable {gates : List IdtGate} (positions : ∀ i gate, gates[i]? = some gate → (IdtGate.vector gate).toNat = i)
include positions

theorem positions_distinct : (gates.map IdtGate.vector).Nodup := by
  rw [List.nodup_iff_getElem?_ne_getElem?]
  intro i j less inside same
  rw [List.length_map] at inside
  have one := List.getElem?_eq_getElem (Nat.lt_trans less inside)
  have two := List.getElem?_eq_getElem inside
  rw [List.getElem?_map,List.getElem?_map,one,two] at same
  have vectors := congrArg BitVec.toNat (Option.some.inj same)
  rw [positions i _ one,positions j _ two] at vectors
  omega

-- A list of the vectors of some gates, where the vectors are the positions.
theorem listed_vectors (p : IdtGate → Bool) : ((gates.filter p).map IdtGate.vector).Nodup ∧
    ∀ vector, vector ∈ (gates.filter p).map IdtGate.vector ↔ ∃ gate, gates[vector.toNat]? = some gate ∧ p gate = true := by
  refine ⟨(positions_distinct positions).sublist (List.filter_sublist.map _),fun vector => ⟨fun member => ?_,?_⟩⟩
  · obtain ⟨gate,inside,rfl⟩ := List.mem_map.mp member
    obtain ⟨among,holds⟩ := List.mem_filter.mp inside
    obtain ⟨i,here⟩ := List.mem_iff_getElem?.mp among
    exact ⟨gate,by rw [positions i gate here]; exact here,holds⟩
  · rintro ⟨gate,here,holds⟩
    have same : gate.vector = vector := BitVec.eq_of_toNat_eq (positions _ gate here)
    exact List.mem_map.mpr ⟨gate,List.mem_filter.mpr ⟨List.mem_of_getElem? here,holds⟩,same⟩

end

-- The 257th slot has the vector of the one before it.
theorem long_shared [GuestMemory μ] {memory : μ} (read : Idt.read memory base limit = .ok idt) (long : 256 < Idt.gateCount limit) : ¬ Vectors idt := by
  intro vectors
  have here := List.getElem?_eq_getElem (show 256 < idt.gates.length from (read_count read).symm ▸ long)
  have place := vectors.positions 256 _ here
  rw [(read_gate read here).2.1] at place
  cases place

-- The vectors are the positions of the gates exactly where the table has no more
-- gates than there are vectors.
theorem read_vectors_iff [GuestMemory μ] (memory : μ) (base : U64) (limit : BitVec 32) (idt : Idt) (read : Idt.read memory base limit = .ok idt) :
    Vectors idt ↔ limit.toNat < 4111 := by
  constructor
  · intro vectors
    by_contra long
    refine long_shared read ?_ vectors
    rw [Idt.gateCount]
    omega
  · intro small
    have positions : ∀ i gate, idt.gates[i]? = some gate → (IdtGate.vector gate).toNat = i := by
      intro i gate here
      obtain ⟨inside,same,_⟩ := read_gate read here
      rw [Idt.gateCount] at inside
      rw [same,vectorOf_small (by omega)]
    have installed := listed_vectors positions fun gate => gate.present && !gate.isUninstalled
    have user := listed_vectors positions fun gate => gate.present && gate.dpl == 3
    refine ⟨positions,positions_distinct positions,fun vector => ⟨read_lookup read vector,fun gate found => ?_⟩,
      ⟨installed.1,fun vector => ?_⟩,⟨user.1,fun vector => ?_⟩⟩
    · rw [read_lookup read] at found
      have bound := vector.isLt
      rw [(read_gate read found).2.2,BitVec.toNat_ofNat]
      omega
    · refine (installed.2 vector).trans ?_
      simp
    · refine (user.2 vector).trans ?_
      simp

theorem blankRam_gate (size : U64) (inside : i*16+16 ≤ size.toNat) : Idt.readGate (blankRam size) 0 i = .ok placeholder := by
  have bound := size.isLt
  have place := offset_place (by omega : i*16 < 2^64)
  have stop : ¬ min ((0 + BitVec.ofNat 64 (i*16) : U64).toNat+16) (2^64-1) > (blankRam size).size.toNat := by
    rw [place]
    change ¬ min (i*16+16) (2^64-1) > size.toNat
    omega
  have read : GuestMemory.readBytes (blankRam size) (0 + .ofNat 64 (i*16)) 16 = .ok placeholder := by
    change GuestRam.readBytes (blankRam size) (0 + .ofNat 64 (i*16)) 16 = .ok placeholder
    rw [GuestRam.readBytes,if_neg stop]
    rfl
  rw [Idt.readGate,read]
  rfl

-- A table of zeros is read: no gate of it is installed.
theorem blankRam_idt (size : U64) (limit : BitVec 32) (inside : Idt.gateCount limit*16 ≤ size.toNat) :
    ∃ idt, Idt.read (blankRam size) 0 limit = .ok idt := by
  have all : ∀ indices : List Nat, (∀ i ∈ indices, i < Idt.gateCount limit) →
      ∃ gates, Idt.readGates (blankRam size) 0 indices = .ok gates := by
    intro indices less
    induction indices with
    | nil => exact ⟨[],rfl⟩
    | cons i rest ih =>
      obtain ⟨gates,further⟩ := ih fun j member => less j (List.mem_cons_of_mem _ member)
      have here := less i List.mem_cons_self
      rw [Idt.readGates,blankRam_gate size (by omega)]
      dsimp only [bind,Except.bind]
      rw [further]
      exact ⟨_,rfl⟩
  obtain ⟨gates,read⟩ := all (List.range (Idt.gateCount limit)) fun i member => List.mem_range.mp member
  exact ⟨⟨0,limit,gates⟩,by rw [Idt.read,read]; rfl⟩

def twoGates : Idt := ⟨0,31,[0,1].map fun i => ⟨.ofNat 8 i,.ofNat 16 (i*16),placeholder,false,0,.interrupt,0,0,0⟩⟩

theorem read_vectors_iff_two : Idt.read (blankRam 0x1000) 0 31 = .ok twoGates ∧ (Vectors twoGates ↔ (31 : BitVec 32).toNat < 4111) :=
  ⟨by decide +kernel,read_vectors_iff (blankRam 0x1000) 0 31 twoGates (by decide +kernel)⟩

-- A limit of one gate more than there are vectors.
theorem long_idt_shared : ¬ ∀ idt, Idt.read (blankRam 0x2000) 0 4111 = .ok idt → Vectors idt := by
  intro vectors
  obtain ⟨idt,read⟩ := blankRam_idt 0x2000 4111 (by decide)
  exact long_shared read (by decide) (vectors idt read)

end PrincessIDE.Descriptor
