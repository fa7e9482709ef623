import PrincessIDE.Bin.Monitor
import PrincessIDE.Foundation.Leaves
import Mathlib.Data.List.Chain
import Mathlib.Data.List.Forall2

namespace PrincessIDE.Monitor
open Memory (U64)

inductive TlbGranularity where
  | page4K
  | huge2M
  | huge1G
deriving DecidableEq, Repr

def TlbGranularity.bytes : TlbGranularity → U64
  | page4K => 4096
  | huge2M => 2*1024*1024
  | huge1G => 1024*1024*1024

-- The distance to the next entry that begins above this one.
def inferredStride (entry : InfoTlbEntry) (later : List InfoTlbEntry) : Option U64 :=
  (later.find? fun next => next.virtualAddress > entry.virtualAddress).map fun next => next.virtualAddress - entry.virtualAddress

def granularityOf (entry : InfoTlbEntry) (later : List InfoTlbEntry) : TlbGranularity :=
  if !entry.flags.ps then .page4K
  else match inferredStride entry later with
    | some stride => if stride ≥ TlbGranularity.bytes .huge1G then .huge1G else .huge2M
    | none => .huge2M

def resolveGranularities : List InfoTlbEntry → List TlbGranularity
  | [] => []
  | entry :: later => granularityOf entry later :: resolveGranularities later

-- A row of the listing for a page: its virtual address, and the PS column set for
-- the large ones.
def RowOf (page : Paging.Page) (row : InfoTlbEntry) : Prop :=
  row.virtualAddress.toNat = page.address ∧ row.flags.ps = decide (page.height ≠ 0)

-- A granularity that is no larger than the page.
def Fits (page : Paging.Page) (granularity : TlbGranularity) : Prop := granularity.bytes.toNat ≤ Paging.pageBytes page.height

-- A 2 MiB page has the next page less than 1 GiB above it.
def NextNear (page next : Paging.Page) : Prop :=
  page.height = 1 → next.address < page.address + TlbGranularity.huge1G.bytes.toNat

theorem inferredStride_next (above : entry.virtualAddress.toNat < next.virtualAddress.toNat) (later : List InfoTlbEntry) :
    inferredStride entry (next :: later) = some (next.virtualAddress - entry.virtualAddress) := by
  have here : entry.virtualAddress < next.virtualAddress := BitVec.lt_def.mpr above
  simp [inferredStride,here]

theorem height_cases (low : height ≤ 2) : height = 0 ∨ height = 1 ∨ height = 2 := by omega

theorem fits_last (row : RowOf page entry) (low : page.height ≤ 2) : Fits page (granularityOf entry []) := by
  obtain ⟨_,large⟩ := row
  have alone : inferredStride entry [] = none := rfl
  unfold Fits granularityOf
  rw [alone,large]
  rcases height_cases low with height | height | height <;> rw [height] <;> decide

theorem fits_next (row : RowOf page entry) (low : page.height ≤ 2) (row' : RowOf next entry') (above : page.address < next.address)
    (later : List InfoTlbEntry) : Fits page (granularityOf entry (entry' :: later)) ↔ NextNear page next := by
  obtain ⟨place,large⟩ := row
  have higher : entry.virtualAddress.toNat < entry'.virtualAddress.toNat := by rw [place,row'.1]; exact above
  have stride : (entry'.virtualAddress - entry.virtualAddress).toNat = next.address - page.address := by
    rw [BitVec.toNat_sub_of_le (BitVec.le_def.mpr higher.le),place,row'.1]
  have wide : entry'.virtualAddress - entry.virtualAddress ≥ TlbGranularity.bytes .huge1G ↔
      TlbGranularity.huge1G.bytes.toNat ≤ next.address - page.address := by
    rw [ge_iff_le,BitVec.le_def,stride]
  unfold Fits granularityOf NextNear
  rw [inferredStride_next higher,large]
  rcases height_cases low with height | height | height
  · rw [height,if_pos (by decide)]
    exact ⟨fun _ no => absurd no (by decide),fun _ => by decide⟩
  · rw [height]
    dsimp only
    rw [if_neg (by decide)]
    by_cases far : TlbGranularity.huge1G.bytes.toNat ≤ next.address - page.address
    · rw [if_pos (wide.mpr far)]
      refine ⟨fun fits => absurd fits (by decide),fun near => ?_⟩
      have := near rfl
      omega
    · rw [if_neg fun no => far (wide.mp no)]
      exact ⟨fun _ _ => by omega,fun _ => by decide⟩
  · rw [height]
    refine ⟨fun _ no => absurd no (by decide),fun _ => ?_⟩
    dsimp only
    rw [if_neg (by decide)]
    split <;> decide

theorem resolve_fits {listed : List Paging.Page} (rows : List.Forall₂ RowOf listed entries)
    (ascends : listed.Pairwise fun a b => a.address < b.address) (low : ∀ page ∈ listed, page.height ≤ 2) :
    List.Forall₂ Fits listed (resolveGranularities entries) ↔ listed.IsChain NextNear := by
  induction rows with
  | nil => exact ⟨fun _ => .nil,fun _ => .nil⟩
  | @cons page entry listed entries row rows ih =>
    obtain ⟨first,ascends⟩ := List.pairwise_cons.mp ascends
    have further := ih ascends fun page member => low page (List.mem_cons_of_mem _ member)
    have flat := low page List.mem_cons_self
    rw [resolveGranularities,List.forall₂_cons,further]
    cases rows with
    | nil => exact ⟨fun _ => .singleton _,fun _ => ⟨fits_last row flat,.nil⟩⟩
    | @cons next entry' listed entries row' rows =>
      rw [fits_next row flat row' (first next List.mem_cons_self),List.isChain_cons_cons]

-- The listing of a paging structure: one row for each page, in ascending order.
-- A page is never given more than its size exactly where no 2 MiB page is
-- followed by a hole that reaches 1 GiB above it.
theorem resolveGranularities_fits (word : Nat → Nat) (root : Nat) (la57 : Bool) (entries : List InfoTlbEntry)
    (rows : List.Forall₂ RowOf (Paging.pages word (if la57 then 5 else 4) root) entries) :
    List.Forall₂ Fits (Paging.pages word (if la57 then 5 else 4) root) (resolveGranularities entries) ↔
      (Paging.pages word (if la57 then 5 else 4) root).IsChain NextNear :=
  resolve_fits rows (Paging.pages_ascend _ _ _) fun _ member => Paging.pages_low member

-- Two 2 MiB pages, the first entries of the first two gigabytes, and nothing
-- between them.
def sparseWord (address : Nat) : Nat :=
  ([(0x1000,0x2003),(0x2000,0x3003),(0x2008,0x4003),(0x3000,0x83),(0x4000,0x83)].lookup address).getD 0

def largeRow (address : U64) : InfoTlbEntry := ⟨address,0,⟨false,false,true,false,false,false,false,false,true⟩⟩

theorem sparse_pages : Paging.pages sparseWord 4 0x1000 = [⟨0,1,0x83⟩,⟨0x40000000,1,0x83⟩] := by decide +kernel

theorem sparse_rows : List.Forall₂ RowOf (Paging.pages sparseWord 4 0x1000) [largeRow 0,largeRow 0x40000000] := by
  rw [sparse_pages]
  exact .cons ⟨rfl,rfl⟩ (.cons ⟨rfl,rfl⟩ .nil)

theorem resolveGranularities_fits_sparse : List.Forall₂ RowOf (Paging.pages sparseWord 4 0x1000) [largeRow 0,largeRow 0x40000000] ∧
    (List.Forall₂ Fits (Paging.pages sparseWord 4 0x1000) (resolveGranularities [largeRow 0,largeRow 0x40000000]) ↔
      (Paging.pages sparseWord 4 0x1000).IsChain NextNear) :=
  ⟨sparse_rows,resolveGranularities_fits sparseWord 0x1000 false _ sparse_rows⟩

-- The hole behind the first page passes for a page of 1 GiB.
theorem hole_passes_for_huge : ¬ ∀ word root (la57 : Bool) entries, List.Forall₂ RowOf (Paging.pages word (if la57 then 5 else 4) root) entries →
    List.Forall₂ Fits (Paging.pages word (if la57 then 5 else 4) root) (resolveGranularities entries) := by
  intro fits
  have here := fits sparseWord 0x1000 false _ sparse_rows
  rw [show Paging.pages sparseWord (if false then 5 else 4) 0x1000 = _ from sparse_pages] at here
  have first := (List.forall₂_cons.mp here).1
  revert first
  unfold Fits
  decide

end PrincessIDE.Monitor
