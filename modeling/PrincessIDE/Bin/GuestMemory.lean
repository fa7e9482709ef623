import PrincessIDE.Foundation.Utf8
import Mathlib.Data.Nat.Bitwise
import Mathlib.Data.Nat.Digits.Defs

namespace PrincessIDE.Memory
open Utf8

abbrev U64 := BitVec 64

inductive MemoryError where
  | notInRam (address : U64)
  | short (address : U64) (wanted got : Nat)
  | source (address : U64) (message : Text)
deriving DecidableEq, Repr

class GuestMemory (μ : Type) where
  readU64 : μ → U64 → Except MemoryError U64
  readBytes : μ → U64 → Nat → Except MemoryError (List (BitVec 8))
  ramSize : μ → Option U64 := fun _ => none
  isRam : μ → U64 → Bool := fun memory address => (ramSize memory).any fun size => address < size

-- An absent byte is inside RAM and reads as zero.
structure GuestRam where
  bytes : U64 → Option (BitVec 8)
  size : U64

namespace GuestRam

def readBytes (ram : GuestRam) (address : U64) (len : Nat) : Except MemoryError (List (BitVec 8)) :=
  let stop := min (address.toNat+len) (2^64-1)
  if stop > ram.size.toNat then
    if ram.size ≤ address then .error (.notInRam address)
    else .error (.short address len (ram.size.toNat-address.toNat))
  else .ok ((List.range len).map fun offset => (ram.bytes (address + .ofNat 64 offset)).getD 0)

def orByte (value : U64) (byte : BitVec 8 × Nat) : U64 :=
  let shifted : U64 := byte.1.setWidth 64 <<< (byte.2*8)
  value ||| shifted

def readU64 (ram : GuestRam) (address : U64) : Except MemoryError U64 := do
  let bytes ← ram.readBytes address 8
  return bytes.zipIdx.foldl orByte 0

instance : GuestMemory GuestRam where
  readU64 := readU64
  readBytes := readBytes
  ramSize ram := some ram.size

-- What the image holds at a physical address, and the little-endian word there.
def byteAt (ram : GuestRam) (address : Nat) : Nat := ((ram.bytes (.ofNat 64 address)).getD 0).toNat

def word (ram : GuestRam) (address : Nat) : Nat :=
  Nat.ofDigits 256 ((List.range 8).map fun k => ram.byteAt (address+k))

-- The image that holds these words and zeros.
def ofWords (words : List (Nat × Nat)) (size : U64) : GuestRam where
  bytes address := (words.lookup (address.toNat/8*8)).map fun word => .ofNat 8 (word / 256^(address.toNat%8))
  size := size

theorem isRam_iff (ram : GuestRam) (address : U64) : GuestMemory.isRam ram address = true ↔ address.toNat < ram.size.toNat := by
  simp [GuestMemory.isRam,BitVec.lt_def]

theorem word_lt (ram : GuestRam) (address : Nat) : ram.word address < 2^64 := by
  have bound := Nat.ofDigits_lt_base_pow_length (b:=256) (by decide)
    (l:=(List.range 8).map fun k => ram.byteAt (address+k)) (by
      intro digit member
      obtain ⟨k,-,rfl⟩ := List.mem_map.mp member
      exact BitVec.isLt _)
  simpa [word] using bound

-- The fold of `read_u64` from the byte of index `k` on: the bytes before it lie
-- below bit `8*k`, so the or is a sum.
theorem assembled (bytes : List (BitVec 8)) (room : k + bytes.length ≤ 8) (low : value.toNat < 256^k) :
    ((bytes.zipIdx k).foldl orByte value).toNat =
      value.toNat + 256^k*Nat.ofDigits 256 (bytes.map BitVec.toNat) := by
  induction bytes generalizing k value with
  | nil => simp
  | cons byte bytes ih =>
    have place : (256:Nat)^k = 2^(k*8) := by rw [show (256:Nat) = 2^8 by rfl,← Nat.pow_mul,Nat.mul_comm]
    have within : byte.toNat*2^(k*8) < 2^64 := by
      have smaller : k*8+8 ≤ 64 := by simp only [List.length_cons] at room; omega
      calc byte.toNat*2^(k*8) < 2^8*2^(k*8) := Nat.mul_lt_mul_of_pos_right byte.isLt (Nat.two_pow_pos _)
        _ = 2^(k*8+8) := by rw [Nat.pow_add,Nat.mul_comm]
        _ ≤ 2^64 := Nat.pow_le_pow_right (by decide) smaller
    have joined : (orByte value (byte,k)).toNat = value.toNat + 256^k*byte.toNat := by
      have narrow : byte.toNat % 2^64 = byte.toNat := Nat.mod_eq_of_lt (by omega)
      rw [place] at low
      rw [orByte,BitVec.toNat_or,BitVec.toNat_shiftLeft,BitVec.toNat_setWidth,narrow,Nat.shiftLeft_eq,
        Nat.mod_eq_of_lt within,Nat.or_comm,Nat.mul_comm byte.toNat,← Nat.two_pow_add_eq_or_of_lt low,place]
      omega
    have next : (orByte value (byte,k)).toNat < 256^(k+1) := by
      rw [joined,Nat.pow_succ]
      have := Nat.mul_le_mul_left (256^k) (Nat.le_of_lt_succ (show byte.toNat < 255+1 from byte.isLt))
      omega
    simp only [List.zipIdx_cons,List.foldl_cons,List.map_cons]
    rw [ih (by simp only [List.length_cons] at room; omega) next,joined,Nat.ofDigits_cons,Nat.pow_succ,Nat.mul_add,
      Nat.mul_assoc,Nat.add_assoc]

theorem readU64_word (ram : GuestRam) (address : U64) (inside : address.toNat+8 ≤ ram.size.toNat) :
    ram.readU64 address = .ok (.ofNat 64 (ram.word address.toNat)) := by
  have stop : ¬ min (address.toNat+8) (2^64-1) > ram.size.toNat := by omega
  rw [readU64,readBytes,if_neg stop]
  apply congrArg Except.ok
  apply BitVec.eq_of_toNat_eq
  rw [assembled _ (by simp) (by simp),BitVec.toNat_ofNat,Nat.mod_eq_of_lt (ram.word_lt _)]
  have same : ∀ k, address + .ofNat 64 k = BitVec.ofNat 64 (address.toNat+k) := by
    intro k
    rw [BitVec.ofNat_add,BitVec.ofNat_toNat,BitVec.setWidth_eq]
  simp [word,byteAt,same,Function.comp_def]

end GuestRam
end PrincessIDE.Memory
