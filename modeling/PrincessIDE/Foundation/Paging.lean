import Mathlib.Data.Nat.Bitwise
import Mathlib.Data.Nat.Digits.Defs
import Mathlib.Data.List.Nodup

namespace PrincessIDE.Paging

-- The x86-64 address translation over the naturals. A table is named by its
-- height: 0 holds the entries of 4 KiB pages, 1 and 2 may hold large pages, 4
-- is the top of five-level paging.
def offsetBits (height : Nat) : Nat := 12+9*height

def index (va height : Nat) : Nat := va / 2^offsetBits height % 512

def present (entry : Nat) : Bool := entry.testBit 0
def bit7 (entry : Nat) : Bool := entry.testBit 7

-- Bits 51:s of an entry, in place.
def frame (s entry : Nat) : Nat := entry % 2^52 / 2^s * 2^s

-- Bit 7 makes an entry a leaf at heights 1 and 2 only; at height 0 every entry
-- is one and the bit selects a memory type.
def leaf (height entry : Nat) : Bool := height == 0 || (bit7 entry && height ≤ 2)

inductive Outcome where
  | generalProtection
  | notPresent (height : Nat)
  | physical (address : Nat)
deriving DecidableEq, Repr

structure Visit where
  height : Nat
  table : Nat
  entry : Nat
deriving DecidableEq, Repr

variable (word : Nat → Nat) (va : Nat)

def entryAt (height table : Nat) : Nat := word (table + 8*index va height)

def translate : Nat → Nat → Outcome
  | height, table =>
    let entry := entryAt word va height table
    if present entry then
      if leaf height entry then .physical (frame (offsetBits height) entry + va % 2^offsetBits height)
      else match height with
        | 0 => .notPresent 0
        | below+1 => translate below (frame 12 entry)
    else .notPresent height

def path : Nat → Nat → List Visit
  | height, table =>
    let entry := entryAt word va height table
    ⟨height,table,entry⟩ :: if present entry && !leaf height entry then
      match height with
      | 0 => []
      | below+1 => path below (frame 12 entry)
    else []

-- Every bit from the sign bit upwards is the same.
def canonical (bits : Nat) : Bool := va < 2^(bits-1) || 2^64-2^(bits-1) ≤ va

def walk (levels root : Nat) : Outcome :=
  if canonical va (12+9*levels) then translate word va (levels-1) (frame 12 root) else .generalProtection

def walkPath (levels root : Nat) : List Visit :=
  if canonical va (12+9*levels) then path word va (levels-1) (frame 12 root) else []

theorem index_lt : index va height < 512 := Nat.mod_lt _ (by decide)

theorem frame_eq (n : Nat) (small : s ≤ 52) : frame s n = n &&& (2^52-2^s) := by
  have mask : (2^52-2^s : Nat) = 2^s*(2^(52-s)-1) := by
    rw [Nat.mul_sub,← Nat.pow_add,Nat.add_sub_cancel' small,Nat.mul_one]
  apply Nat.eq_of_testBit_eq
  intro i
  rw [Nat.testBit_and,mask,Nat.testBit_two_pow_mul,Nat.testBit_two_pow_sub_one,frame,Nat.mul_comm,
    Nat.testBit_two_pow_mul,Nat.testBit_div_two_pow,Nat.testBit_mod_two_pow]
  by_cases low : s ≤ i
  · have shifted : i - s + s = i := Nat.sub_add_cancel low
    have bound : i - s < 52 - s ↔ i < 52 := by omega
    simp [low,shifted,bound,Bool.and_comm]
  · simp [low]

theorem frame_or (n : Nat) (small : offset < 2^s) : frame s n ||| offset = frame s n + offset := by
  rw [frame,Nat.mul_comm]
  exact (Nat.two_pow_add_eq_or_of_lt small _).symm

-- A frame with an offset in it stays below the width of a physical address.
theorem frame_add_lt (n : Nat) (small : s ≤ 52) (within : offset < 2^s) : frame s n + offset < 2^52 := by
  have whole : (2:Nat)^52 = 2^(52-s)*2^s := by rw [← Nat.pow_add,Nat.sub_add_cancel small]
  have below : n % 2^52 / 2^s < 2^(52-s) := by
    apply Nat.div_lt_of_lt_mul
    rw [Nat.mul_comm,← whole]
    exact Nat.mod_lt _ (by decide)
  have next : (n % 2^52 / 2^s + 1)*2^s ≤ 2^(52-s)*2^s := Nat.mul_le_mul_right _ below
  rw [Nat.add_mul,← whole] at next
  rw [frame]
  omega

theorem frame_lt (n : Nat) (small : s ≤ 52) : frame s n < 2^52 := by
  have within := frame_add_lt n small (Nat.two_pow_pos s)
  rwa [Nat.add_zero] at within

variable {word va}

-- One level of either walk.
theorem translate_eq : translate word va height table =
    if present (entryAt word va height table) then
      if leaf height (entryAt word va height table) then
        .physical (frame (offsetBits height) (entryAt word va height table) + va % 2^offsetBits height)
      else match height with
        | 0 => .notPresent 0
        | below+1 => translate word va below (frame 12 (entryAt word va height table))
    else .notPresent height := by
  cases height <;> rfl

theorem path_eq : path word va height table = ⟨height,table,entryAt word va height table⟩ ::
    if present (entryAt word va height table) && !leaf height (entryAt word va height table) then
      match height with
      | 0 => []
      | below+1 => path word va below (frame 12 (entryAt word va height table))
    else [] := by
  cases height <;> rfl

theorem leaf_zero (entry : Nat) : leaf 0 entry = true := rfl

section
variable (read : entryAt word va height table = entry)
include read

theorem translate_absent (absent : present entry = false) : translate word va height table = .notPresent height := by
  rw [translate_eq]
  simp [read,absent]

theorem translate_leaf (here : present entry = true) (last : leaf height entry = true) :
    translate word va height table = .physical (frame (offsetBits height) entry + va % 2^offsetBits height) := by
  rw [translate_eq]
  simp [read,here,last]

theorem path_head : ⟨height,table,entry⟩ ∈ path word va height table := by
  subst read
  rw [path_eq]
  exact .head _

theorem path_stop (stop : present entry = false ∨ leaf height entry = true) :
    path word va height table = [⟨height,table,entry⟩] := by
  rw [path_eq]
  rcases stop with stop | stop <;> simp [read,stop]

end

section
variable (read : entryAt word va (height+1) table = entry) (here : present entry = true) (inner : leaf (height+1) entry = false)
include read here inner

theorem translate_table : translate word va (height+1) table = translate word va height (frame 12 entry) := by
  rw [translate_eq]
  simp [read,here,inner]

theorem path_table : path word va (height+1) table = ⟨height+1,table,entry⟩ :: path word va height (frame 12 entry) := by
  rw [path_eq]
  simp [read,here,inner]

end

-- Only the last entry of a path can be a leaf.
theorem translate_of_leaf (member : visit ∈ path word va height table) (here : present visit.entry = true)
    (last : leaf visit.height visit.entry = true) : ∃ address, translate word va height table = .physical address := by
  induction height generalizing table with
  | zero =>
    obtain ⟨entry,read⟩ : ∃ entry, entryAt word va 0 table = entry := ⟨_,rfl⟩
    rw [path_stop read (.inr (leaf_zero entry)),List.mem_singleton] at member
    subst member
    exact ⟨_,translate_leaf read here last⟩
  | succ height ih =>
    obtain ⟨entry,read⟩ : ∃ entry, entryAt word va (height+1) table = entry := ⟨_,rfl⟩
    by_cases stop : present entry = false ∨ leaf (height+1) entry = true
    · rw [path_stop read stop,List.mem_singleton] at member
      subst member
      exact ⟨_,translate_leaf read here last⟩
    · simp only [not_or,Bool.not_eq_false,Bool.not_eq_true] at stop
      rw [path_table read stop.1 stop.2,List.mem_cons] at member
      rw [translate_table read stop.1 stop.2]
      rcases member with rfl | member
      · exact absurd last (by simp [stop.2])
      · exact ih member

end PrincessIDE.Paging
