import PrincessIDE.Foundation.Paging
import Mathlib.Data.List.Range

namespace PrincessIDE.Paging

structure Page where
  address : Nat
  height : Nat
  entry : Nat
deriving DecidableEq, Repr

def pageBytes (height : Nat) : Nat := 2^offsetBits height

-- The pages behind one entry whose part of the address space begins at `address`.
def entryPages (inner : Nat → Nat → List Page) (height entry address : Nat) : List Page :=
  if present entry then
    if leaf height entry then [⟨address,height,entry⟩] else inner (frame 12 entry) address
  else []

def tablePages (word : Nat → Nat) (inner : Nat → Nat → List Page) (height table base : Nat) : List Page :=
  (List.range 512).flatMap fun i => entryPages inner height (word (table+8*i)) (base + i*pageBytes height)

-- The pages below a table, in the order of its entries.
def pagesBelow (word : Nat → Nat) : Nat → Nat → Nat → List Page
  | 0 => tablePages word (fun _ _ => []) 0
  | below+1 => tablePages word (pagesBelow word below) (below+1)

-- The sign bit of an address of so many bits fills the bits above it.
def signExtend (bits address : Nat) : Nat := if address < 2^(bits-1) then address else address + (2^64-2^bits)

def pages (word : Nat → Nat) (levels root : Nat) : List Page :=
  (pagesBelow word (levels-1) (frame 12 root) 0).map fun page => {page with address:=signExtend (12+9*levels) page.address}

theorem pageBytes_step (height : Nat) : pageBytes (height+1) = 512*pageBytes height := by
  unfold pageBytes offsetBits
  rw [show 12+9*(height+1) = 9+(12+9*height) by omega,Nat.pow_add]

theorem pageBytes_pos (height : Nat) : 0 < pageBytes height := Nat.two_pow_pos _

-- Pages of large bit 7 lie at the two heights above the lowest only.
theorem leaf_low (last : leaf height entry = true) : height ≤ 2 := by
  simp only [leaf,Bool.or_eq_true,beq_iff_eq,Bool.and_eq_true,decide_eq_true_eq] at last
  omega

structure Orderly (inner : Nat → Nat → List Page) (room : Nat) : Prop where
  within : ∀ table base, ∀ page ∈ inner table base, base ≤ page.address ∧ page.address < base+room
  ascends : ∀ table base, (inner table base).Pairwise fun a b => a.address < b.address
  low : ∀ table base, ∀ page ∈ inner table base, page.height ≤ 2

section
variable {word : Nat → Nat} {inner : Nat → Nat → List Page}

theorem entryPages_within (orderly : Orderly inner (pageBytes height)) (member : page ∈ entryPages inner height entry address) :
    address ≤ page.address ∧ page.address < address+pageBytes height := by
  unfold entryPages at member
  split at member
  · split at member
    · rw [List.mem_singleton.mp member]
      exact ⟨Nat.le_refl _,Nat.lt_add_of_pos_right (pageBytes_pos height)⟩
    · exact orderly.within _ _ page member
  · cases member

-- What one table adds: the pages of a slot lie inside it and before those of
-- every later slot.
theorem tablePages_orderly (orderly : Orderly inner (pageBytes height)) : Orderly (tablePages word inner height) (512*pageBytes height) where
  within table base page member := by
    obtain ⟨i,inside,member⟩ := List.mem_flatMap.mp member
    obtain ⟨low,high⟩ := entryPages_within orderly member
    have room : (i+1)*pageBytes height ≤ 512*pageBytes height := Nat.mul_le_mul_right _ (List.mem_range.mp inside)
    rw [Nat.succ_mul] at room
    omega
  ascends table base := by
    apply List.pairwise_flatMap.mpr
    constructor
    · intro i _
      unfold entryPages
      split
      · split
        · exact List.pairwise_singleton _ _
        · exact orderly.ascends _ _
      · exact .nil
    · apply List.pairwise_lt_range.imp
      intro i j earlier a first b second
      have high := (entryPages_within orderly first).2
      have low := (entryPages_within orderly second).1
      have room : (i+1)*pageBytes height ≤ j*pageBytes height := Nat.mul_le_mul_right _ earlier
      rw [Nat.succ_mul] at room
      omega
  low table base page member := by
    obtain ⟨i,_,member⟩ := List.mem_flatMap.mp member
    unfold entryPages at member
    split at member
    · split at member
      · rw [List.mem_singleton.mp member]
        exact leaf_low (by assumption)
      · exact orderly.low _ _ page member
    · cases member

theorem pagesBelow_orderly (word : Nat → Nat) (height : Nat) : Orderly (pagesBelow word height) (pageBytes (height+1)) := by
  induction height with
  | zero =>
    rw [pageBytes_step]
    exact tablePages_orderly ⟨fun _ _ _ member => absurd member List.not_mem_nil,fun _ _ => .nil,fun _ _ _ member => absurd member List.not_mem_nil⟩
  | succ height ih =>
    rw [pageBytes_step]
    exact tablePages_orderly ih

end

theorem signExtend_lt (bits : Nat) (less : a < b) : signExtend bits a < signExtend bits b := by
  unfold signExtend
  split <;> split <;> omega

theorem pages_ascend (word : Nat → Nat) (levels root : Nat) : (pages word levels root).Pairwise fun a b => a.address < b.address :=
  List.pairwise_map.mpr (((pagesBelow_orderly word (levels-1)).ascends _ _).imp fun less => signExtend_lt _ less)

theorem pages_low (member : page ∈ pages word levels root) : page.height ≤ 2 := by
  obtain ⟨plain,inside,rfl⟩ := List.mem_map.mp member
  exact (pagesBelow_orderly word (levels-1)).low _ _ plain inside

end PrincessIDE.Paging
