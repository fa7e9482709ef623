import PrincessIDE.Bin.Descriptor
import PrincessIDE.Foundation.Search
import Mathlib.Data.List.Chain

namespace PrincessIDE.Descriptor
open Memory Fields

def GdtEntry.isHighHalf : GdtEntry → Bool
  | .highHalf _ _ _ => true
  | _ => false

-- A system descriptor of a type that takes two slots.
def GdtEntry.isLong : GdtEntry → Bool
  | .system descriptor => descriptor.kind.is16Bytes
  | _ => false

-- What a table that was read says of its slots.
structure Tiles (gdt : Gdt) : Prop where
  count : gdt.entries.length = (gdt.limit.toNat+1)/8
  offsets : ∀ i entry, gdt.entries[i]? = some entry → entry.offset.toNat = 8*i
  highHalves : ∀ i entry, gdt.entries[i]? = some entry →
    (entry.isHighHalf = true ↔ ∃ j before, i = j+1 ∧ gdt.entries[j]? = some before ∧ before.isLong = true)
  lookup : ∀ selector, gdt.entryForSelector selector = gdt.entries[selector.toNat/8]?

-- The entries that one round of the loop appends.
inductive Round (slotCount index : Nat) : List GdtEntry → Prop where
  | null : Round slotCount index [.null (.ofNat 16 (index*8))]
  | segment (raw : U64) : Round slotCount index [.segment (.decode (.ofNat 16 (index*8)) raw)]
  | short (raw : U64) (last : (decodeSystem (.ofNat 16 (index*8)) raw none).kind.is16Bytes = true → slotCount ≤ index+1) :
      Round slotCount index [.system (decodeSystem (.ofNat 16 (index*8)) raw none)]
  | long (raw high : U64) (wide : (decodeSystem (.ofNat 16 (index*8)) raw (some high)).kind.is16Bytes = true) (more : index+1 < slotCount) :
      Round slotCount index [.system (decodeSystem (.ofNat 16 (index*8)) raw (some high)),
        .highHalf (.ofNat 16 (index*8+8)) high (.ofNat 16 (index*8))]

theorem type_bits (raw : U64) : accessByte raw &&& (0xF : BitVec 8) = ((raw >>> 40) &&& (0xF : U64)).setWidth 8 := by
  apply BitVec.eq_of_toNat_eq
  have low := bits_toNat (accessByte raw) 0xF (w:=4) 0 rfl
  have part := part_toNat (m:=8) raw 0xF (w:=4) 40 rfl (by decide)
  rw [BitVec.ushiftRight_zero] at low
  rw [low,part,accessByte_toNat]
  omega

-- One round of the loop: what it appends, and how far it goes.
theorem readRounds_round [GuestMemory μ] {memory : μ} (more : index < slotCount)
    (read : Gdt.readRounds memory base slotCount (rounds+1) index entries = .ok all) : ∃ consumed, Round slotCount index consumed ∧
      Gdt.readRounds memory base slotCount rounds (index+consumed.length) (entries ++ consumed) = .ok all := by
  rw [Gdt.readRounds,if_pos more] at read
  dsimp only [bind,Except.bind] at read
  split at read
  · cases read
  rename_i raw _
  split at read
  · exact ⟨_,.null,read⟩
  split at read
  · exact ⟨_,.segment raw,read⟩
  split at read
  · rename_i wide
    split at read
    · cases read
    · rename_i high _
      refine ⟨_,.long raw high ?_ wide.2,read⟩
      change (SystemDescriptorType.fromBits (accessByte raw &&& 0xF)).is16Bytes = true
      rw [type_bits]
      exact wide.1
  · rename_i narrow
    refine ⟨_,.short raw fun wide => ?_,read⟩
    change (SystemDescriptorType.fromBits (accessByte raw &&& 0xF)).is16Bytes = true at wide
    rw [type_bits] at wide
    by_contra further
    exact narrow ⟨wide,Nat.lt_of_not_le further⟩

-- The entries so far: in their places, and each high half behind a long descriptor.
structure Tiled (entries : List GdtEntry) : Prop where
  offsets : ∀ i entry, entries[i]? = some entry → GdtEntry.offset entry = .ofNat 16 (i*8)
  chain : entries.IsChain fun before entry => entry.isHighHalf = before.isLong
  first : ∀ entry ∈ entries.head?, GdtEntry.isHighHalf entry = false

-- A long descriptor without a high half stands at the end of the table only.
def Settled (slotCount : Nat) (entries : List GdtEntry) : Prop :=
  ∀ entry ∈ entries.getLast?, GdtEntry.isLong entry = true → slotCount ≤ entries.length

theorem tiled_nil : Tiled [] := by
  refine ⟨?_,.nil,?_⟩ <;> simp

theorem tiled_snoc {entry : GdtEntry} (tiled : Tiled entries) (place : entry.offset = .ofNat 16 (entries.length*8))
    (follows : ∀ before ∈ entries.getLast?, entry.isHighHalf = before.isLong) (start : entries = [] → entry.isHighHalf = false) :
    Tiled (entries ++ [entry]) where
  offsets i other here := by
    rcases Nat.lt_trichotomy i entries.length with before | same | beyond
    · rw [List.getElem?_append_left before] at here
      exact tiled.offsets i other here
    · subst same
      rw [List.getElem?_concat_length] at here
      cases here
      exact place
    · rw [List.getElem?_eq_none (by simp; omega)] at here
      cases here
  chain := by
    refine tiled.chain.append (.singleton _) ?_
    intro before member other rest
    cases rest
    exact follows before member
  first := by
    intro other member
    cases entries with
    | nil =>
      cases member
      exact start rfl
    | cons front rest =>
      cases member
      exact tiled.first other rfl

theorem tiled_round (tiled : Tiled entries) (settled : Settled slotCount entries) (more : entries.length < slotCount)
    (round : Round slotCount entries.length consumed) : Tiled (entries ++ consumed) ∧ Settled slotCount (entries ++ consumed) ∧
      entries.length + consumed.length ≤ slotCount ∧ 0 < consumed.length := by
  have behind : ∀ before ∈ entries.getLast?, false = before.isLong := by
    intro before member
    cases long : before.isLong with
    | false => rfl
    | true => exact absurd (settled before member long) (by omega)
  have ends : ∀ entry : GdtEntry, (entry.isLong = true → slotCount ≤ entries.length+1) → Settled slotCount (entries ++ [entry]) := by
    intro entry last other member long
    rw [List.getLast?_concat] at member
    cases member
    rw [List.length_append]
    exact last long
  cases round with
  | null => exact ⟨tiled_snoc tiled rfl behind fun _ => rfl,ends _ (fun no => nomatch no),more,Nat.one_pos⟩
  | segment raw => exact ⟨tiled_snoc tiled rfl behind fun _ => rfl,ends _ (fun no => nomatch no),more,Nat.one_pos⟩
  | short raw last => exact ⟨tiled_snoc tiled rfl behind fun _ => rfl,ends _ last,more,Nat.one_pos⟩
  | long raw high wide further =>
    have low : Tiled (entries ++ [GdtEntry.system (decodeSystem (.ofNat 16 (entries.length*8)) raw (some high))]) :=
      tiled_snoc tiled rfl behind fun _ => rfl
    have both : Tiled (entries ++ [GdtEntry.system (decodeSystem (.ofNat 16 (entries.length*8)) raw (some high))] ++
        [.highHalf (.ofNat 16 (entries.length*8+8)) high (.ofNat 16 (entries.length*8))]) := by
      apply tiled_snoc low
      · rw [List.length_append,List.length_singleton,Nat.succ_mul]
        rfl
      · intro before member
        rw [List.getLast?_concat] at member
        cases member
        exact wide.symm
      · intro none
        simp at none
    rw [List.append_assoc] at both
    refine ⟨both,?_,further,Nat.two_pos⟩
    intro other member long
    have final : some _ = some other := (List.getLast?_append_of_ne_nil entries (List.cons_ne_nil _ _)).symm.trans member
    cases final
    cases long

-- The whole loop, by induction on the rounds: as many as there are slots are enough.
theorem readRounds_tiled [GuestMemory μ] {memory : μ} (tiled : Tiled entries) (settled : Settled slotCount entries)
    (inside : entries.length ≤ slotCount) (enough : slotCount ≤ entries.length + rounds)
    (read : Gdt.readRounds memory base slotCount rounds entries.length entries = .ok all) : Tiled all ∧ all.length = slotCount := by
  induction rounds generalizing entries with
  | zero =>
    cases read
    exact ⟨tiled,by omega⟩
  | succ rounds ih =>
    by_cases more : entries.length < slotCount
    · obtain ⟨consumed,round,rest⟩ := readRounds_round more read
      obtain ⟨tiled',settled',within,some⟩ := tiled_round tiled settled more round
      rw [← List.length_append] at rest within
      exact ih tiled' settled' within (by rw [List.length_append]; omega) rest
    · rw [Gdt.readRounds,if_neg more] at read
      cases read
      exact ⟨tiled,by omega⟩

theorem selector_index (selector : BitVec 16) : selector &&& ~~~(7 : BitVec 16) = .ofNat 16 (selector.toNat/8*8) := by
  have shifted : selector &&& ~~~(7 : BitVec 16) = (selector >>> 3) <<< 3 := by
    apply BitVec.eq_of_getLsbD_eq
    intro i inside
    interval_cases i <;> simp
  rw [shifted]
  apply BitVec.eq_of_toNat_eq
  simp [BitVec.toNat_shiftLeft,Nat.shiftRight_eq_div_pow,Nat.shiftLeft_eq]

theorem tiled_lookup {gdt : Gdt} (tiled : Tiled gdt.entries) (selector : BitVec 16) : gdt.entryForSelector selector = gdt.entries[selector.toNat/8]? := by
  have small := selector.isLt
  rw [Gdt.entryForSelector,selector_index]
  apply Search.find?_index
  · intro i entry before here
    have differ : ¬ GdtEntry.offset entry = .ofNat 16 (selector.toNat/8*8) := by
      rw [tiled.offsets i entry here]
      intro same
      have places := congrArg BitVec.toNat same
      simp only [BitVec.toNat_ofNat] at places
      omega
    exact beq_false_of_ne differ
  · intro entry here
    rw [tiled.offsets _ entry here]
    exact beq_self_eq_true _

theorem tiled_highHalves {entries : List GdtEntry} (tiled : Tiled entries) (here : entries[i]? = some entry) :
    entry.isHighHalf = true ↔ ∃ j before, i = j+1 ∧ entries[j]? = some before ∧ GdtEntry.isLong before = true := by
  cases i with
  | zero =>
    have low := tiled.first entry (by rw [List.head?_eq_getElem?]; exact here)
    rw [low]
    exact ⟨fun no => (nomatch no),fun ⟨j,_,no,_⟩ => (nomatch no)⟩
  | succ j =>
    obtain ⟨inside,value⟩ := List.getElem?_eq_some_iff.mp here
    have step := List.isChain_iff_getElem.mp tiled.chain j inside
    rw [value] at step
    rw [step]
    constructor
    · intro long
      exact ⟨j,_,rfl,List.getElem?_eq_getElem _,long⟩
    · rintro ⟨k,before,same,there,long⟩
      obtain rfl := Nat.succ.inj same
      obtain ⟨_,rfl⟩ := List.getElem?_eq_some_iff.mp there
      exact long

def Readable [GuestMemory μ] (memory : μ) (base : U64) (count : Nat) : Prop :=
  ∀ i, i < count → ∃ raw, GuestMemory.readU64 memory (base + .ofNat 64 (i*8)) = .ok raw

theorem readSlot_readable [GuestMemory μ] {memory : μ} (readable : Readable memory base count) (inside : i < count) :
    ∃ raw, Gdt.readSlot memory (base + .ofNat 64 (i*8)) = .ok raw := by
  obtain ⟨raw,read⟩ := readable i inside
  exact ⟨raw,by rw [Gdt.readSlot,read]; rfl⟩

theorem readRounds_total [GuestMemory μ] {memory : μ} (readable : Readable memory base slotCount) (rounds index : Nat) (entries : List GdtEntry) :
    ∃ all, Gdt.readRounds memory base slotCount rounds index entries = .ok all := by
  induction rounds generalizing index entries with
  | zero => exact ⟨entries,rfl⟩
  | succ rounds ih =>
    rw [Gdt.readRounds]
    by_cases more : index < slotCount
    · obtain ⟨raw,read⟩ := readSlot_readable readable more
      rw [if_pos more]
      dsimp only
      rw [read]
      dsimp only [bind,Except.bind]
      split
      · exact ih _ _
      split
      · exact ih _ _
      split
      · rename_i wide
        obtain ⟨high,read'⟩ := readSlot_readable readable wide.2
        rw [next_address,read']
        exact ih _ _
      · exact ih _ _
    · rw [if_neg more]
      exact ⟨entries,rfl⟩

theorem read_tiled [GuestMemory μ] {memory : μ} (limit : BitVec 32) (readable : Readable memory base (Gdt.slotCount limit)) :
    ∃ gdt, Gdt.read memory base limit = .ok gdt ∧ gdt.limit = limit ∧ Tiled gdt.entries ∧ gdt.entries.length = Gdt.slotCount limit := by
  obtain ⟨entries,rounds⟩ := readRounds_total readable (Gdt.slotCount limit) 0 []
  obtain ⟨tiled,count⟩ := readRounds_tiled tiled_nil (fun _ member => nomatch member) (Nat.zero_le _) (Nat.le_add_left _ _) rounds
  exact ⟨⟨base,limit,entries⟩,by rw [Gdt.read,rounds]; rfl,rfl,tiled,count⟩

-- The slot behind the first 65536 bytes has the offset of the first slot again.
theorem tiled_far {gdt : Gdt} (tiled : Tiled gdt.entries) (far : 8192 < gdt.entries.length) : ¬ Tiles gdt := by
  intro tiles
  have place := tiles.offsets 8192 _ (List.getElem?_eq_getElem far)
  rw [tiled.offsets 8192 _ (List.getElem?_eq_getElem far)] at place
  cases place

def blankRam (size : U64) : GuestRam := ⟨fun _ => none,size⟩

theorem offset_place (small : n < 2^64) : (0 + BitVec.ofNat 64 n : U64).toNat = n := by
  rw [BitVec.toNat_add,BitVec.toNat_ofNat,Nat.add_mod_mod,show (0 : U64).toNat = 0 from rfl,Nat.zero_add,Nat.mod_eq_of_lt small]

theorem blankRam_readable (size : U64) (inside : count*8 ≤ size.toNat) : Readable (blankRam size) 0 count := by
  intro i less
  have bound := size.isLt
  have place := offset_place (by omega : i*8 < 2^64)
  exact ⟨_,(blankRam size).readU64_word _ (by rw [place]; change i*8+8 ≤ size.toNat; omega)⟩

end PrincessIDE.Descriptor
