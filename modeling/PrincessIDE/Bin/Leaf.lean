import PrincessIDE.Bin.PageTable

namespace PrincessIDE.PageTable
open Memory

def Efer.nxe (efer : Efer) : Bool := efer.value &&& (1 <<< 11) ≠ 0

def LeafSize.bytes : LeafSize → U64
  | page4K => 4096
  | huge2M => 2*1024*1024
  | huge1G => 1024*1024*1024

namespace PageTableWalk

def effectiveUser (walk : PageTableWalk) : Bool := walk.levels.all fun level => level.entry.user
def effectiveWritable (walk : PageTableWalk) : Bool := walk.levels.all fun level => level.entry.writable
def effectiveNoExecute (walk : PageTableWalk) : Bool := walk.levels.any fun level => level.entry.noExecute
def executable (walk : PageTableWalk) : Bool := !walk.effectiveNoExecute

-- The ends are plain sums: one that overflows panics, or comes to 0 in a build
-- that does not check; it is none here.
def physicalRange (walk : PageTableWalk) : Option (U64 × U64) :=
  (checkedAdd walk.physicalBase walk.leafSize.bytes).map (walk.physicalBase,·)

def virtualBase (walk : PageTableWalk) : U64 := walk.address &&& ~~~(walk.leafSize.bytes - 1)

def virtualRange (walk : PageTableWalk) : Option (U64 × U64) :=
  (checkedAdd walk.virtualBase walk.leafSize.bytes).map (walk.virtualBase,·)

end PageTableWalk

section
variable [GuestMemory μ]

-- The word that memory answers with at a physical address.
def wordOf (memory : μ) (address : Nat) : Nat := match GuestMemory.readU64 memory (.ofNat 64 address) with
  | .ok raw => raw.toNat
  | .error _ => 0

-- The entries of memory that the tables put on the path of an address.
def tablePath (walker : Walker μ) (cr3 : Cr3) (address : U64) : List Paging.Visit :=
  Paging.walkPath (wordOf walker.memory) address.toNat walker.cr4.levels cr3.value.toNat

end

def WalkLevel.visit (l : WalkLevel) : Paging.Visit := ⟨l.level.height,l.tableAddress.toNat,l.entry.raw.toNat⟩

-- What the last entry of a path says of the page.
structure EndsAt (address : U64) (walk : PageTableWalk) (visit : Paging.Visit) : Prop where
  asked : walk.address = address
  low : visit.height ≤ 2
  size : walk.leafSize.bytes.toNat = 2^Paging.offsetBits visit.height
  base : walk.physicalBase.toNat = Paging.frame (Paging.offsetBits visit.height) visit.entry
  offset : walk.pageOffset.toNat = address.toNat % 2^Paging.offsetBits visit.height

-- A walk went along some entries, each of which was decoded, to the last.
structure Traced (address : U64) (walk : PageTableWalk) (steps : List WalkLevel) (path : List Paging.Visit) : Prop where
  visits : steps.map WalkLevel.visit = path
  decoded : ∀ step ∈ steps, step.entry = .decode step.entry.raw
  leaf : ∃ visit, path.getLast? = some visit ∧ EndsAt address walk visit

section
variable [GuestMemory μ] {walker : Walker μ} {address : U64}

theorem finish_ok (done : walker.finish address levels size base offset leaf = .ok walk) :
    walk = ⟨address,levels,size,base,offset,leaf,walker.cr4.la57⟩ := by
  unfold Walker.finish at done
  split at done
  · cases done
  · split at done
    · cases done
    · exact (Except.ok.inj done).symm

def stepAt (table : U64) (level : Level) (address raw : U64) : WalkLevel :=
  ⟨level,tableIndex address level,table,table + (tableIndex address level).setWidth 64 * 8,.decode raw⟩

-- The three ways on from an entry of a walk that comes to its end.
theorem visit_ok (done : walker.visit address visited levels table level below = .ok walk) :
    ∃ raw, GuestMemory.readU64 walker.memory (table + (tableIndex address level).setWidth 64 * 8) = .ok raw ∧
      ((∃ large : (PageTableEntry.decode raw).pageSize = true, ∃ allowed : level.hugePageAllowed = true,
          ∃ leafSize, leafSize = (if level.hugePageSize.get (Level.hugePageSize_allowed allowed) = 1024*1024*1024 then .huge1G else .huge2M) ∧
          walk = ⟨address,levels ++ [stepAt table level address raw],leafSize,
            ((PageTableEntry.decode raw).leafPhysicalAddress level).get (PageTableEntry.leafPhysicalAddress_large large level),
            address &&& (level.hugePageSize.get (Level.hugePageSize_allowed allowed) - 1),.decode raw,walker.cr4.la57⟩) ∨
        ((PageTableEntry.decode raw).pageSize = false ∧ (PageTableEntry.decode raw).present = true ∧ below = [] ∧
          walk = ⟨address,levels ++ [stepAt table level address raw],.page4K,(PageTableEntry.decode raw).tablePhysicalAddress,
            address &&& 0xFFF,.decode raw,walker.cr4.la57⟩) ∨
        ((PageTableEntry.decode raw).pageSize = false ∧ (PageTableEntry.decode raw).present = true ∧ ∃ next rest, below = next :: rest ∧
          walker.visit address (visited ++ [table]) (levels ++ [stepAt table level address raw])
            (PageTableEntry.decode raw).tablePhysicalAddress next rest = .ok walk)) := by
  rw [Walker.visit.eq_def] at done
  split at done
  · cases done
  split at done
  · cases done
  dsimp only at done
  split at done
  · cases done
  rename_i raw read
  refine ⟨raw,read,?_⟩
  split at done
  · rename_i large
    split at done
    · rename_i allowed
      exact .inl ⟨large,allowed,_,rfl,finish_ok done⟩
    · cases done
  · rename_i small
    rw [Bool.not_eq_true] at small
    split at done
    · cases done
    · rename_i here
      have present : (PageTableEntry.decode raw).present = true := by simpa using here
      split at done
      · exact .inr (.inl ⟨small,present,rfl,finish_ok done⟩)
      · exact .inr (.inr ⟨small,present,_,_,rfl,done⟩)

theorem entry_word (low : table.toNat < 2^52)
    (read : GuestMemory.readU64 walker.memory (table + (tableIndex address level).setWidth 64 * 8) = .ok raw) :
    Paging.entryAt (wordOf walker.memory) address.toNat level.height table.toNat = raw.toNat := by
  have index := tableIndex_toNat address level
  have small := @Paging.index_lt address.toNat level.height
  have place : (table + (tableIndex address level).setWidth 64 * 8).toNat =
      table.toNat + 8*Paging.index address.toNat level.height := by
    rw [BitVec.toNat_add,BitVec.toNat_mul,BitVec.toNat_setWidth,index,show (8 : U64).toNat = 8 by rfl]
    omega
  have same : BitVec.ofNat 64 (table.toNat + 8*Paging.index address.toNat level.height) =
      table + (tableIndex address level).setWidth 64 * 8 := by
    rw [← place,BitVec.ofNat_toNat,BitVec.setWidth_eq]
  rw [Paging.entryAt,wordOf,same,read]

theorem stepAt_visit (table : U64) (level : Level) (address raw : U64) :
    (stepAt table level address raw).visit = ⟨level.height,table.toNat,raw.toNat⟩ := rfl

theorem huge_bytes {level : Level} (allowed : level.hugePageAllowed = true) :
    (if level.hugePageSize.get (Level.hugePageSize_allowed allowed) = 1024*1024*1024 then LeafSize.huge1G else .huge2M).bytes.toNat =
      2^Paging.offsetBits level.height := by
  cases level with
  | pdpt => rfl
  | pd => rfl
  | _ => cases allowed

theorem large_ends {levels : List WalkLevel} {la57 : Bool} {raw : U64} (large : (PageTableEntry.decode raw).pageSize = true)
    (allowed : level.hugePageAllowed = true) :
    EndsAt address ⟨address,levels,if level.hugePageSize.get (Level.hugePageSize_allowed allowed) = 1024*1024*1024 then .huge1G else .huge2M,
      ((PageTableEntry.decode raw).leafPhysicalAddress level).get (PageTableEntry.leafPhysicalAddress_large large level),
      address &&& (level.hugePageSize.get (Level.hugePageSize_allowed allowed) - 1),.decode raw,la57⟩
      ⟨level.height,place,raw.toNat⟩ :=
  ⟨rfl,((Level.hugePageAllowed_height level).mp allowed).2,huge_bytes allowed,leafPhysicalAddress_frame large allowed,
    hugePageSize_offset address allowed⟩

theorem small_ends {levels : List WalkLevel} {la57 : Bool} {raw : U64} :
    EndsAt address ⟨address,levels,.page4K,(PageTableEntry.decode raw).tablePhysicalAddress,address &&& 0xFFF,.decode raw,la57⟩
      ⟨0,place,raw.toNat⟩ := by
  refine ⟨rfl,Nat.zero_le 2,rfl,mask_frame (s:=12) raw (by decide) rfl,?_⟩
  rw [BitVec.toNat_and,show (0xFFF : U64).toNat = 2^12-1 by rfl,Nat.and_two_pow_sub_one_eq_mod]
  rfl

-- A walk that comes to its end went along the path of the tables. By induction
-- on the height.
theorem visit_traced (high : level.height = rank) (low : table.toNat < 2^52)
    (done : walker.visit address visited levels table level level.below = .ok walk) : ∃ steps, walk.levels = levels ++ steps ∧
      Traced address walk steps (Paging.path (wordOf walker.memory) address.toNat rank table.toNat) := by
  induction rank generalizing level table visited levels with
  | zero =>
    obtain rfl := Level.below_last high
    obtain ⟨raw,read,⟨_,allowed,_⟩ | ⟨small,_,_,rfl⟩ | ⟨_,_,next,rest,deeper,_⟩⟩ := visit_ok done
    · cases allowed
    · have word := entry_word low read
      rw [high] at word
      refine ⟨[stepAt table .pt address raw],rfl,?_⟩
      rw [Paging.path_stop word (.inr (Paging.leaf_zero _))]
      exact ⟨rfl,fun step member => by rw [List.mem_singleton.mp member]; rfl,_,rfl,small_ends⟩
    · cases deeper
  | succ rank ih =>
    obtain ⟨raw,read,ends⟩ := visit_ok done
    have word := entry_word low read
    rw [high] at word
    rcases ends with ⟨large,allowed,_,rfl,rfl⟩ | ⟨_,_,last,_⟩ | ⟨small,here,next,rest,deeper,done⟩
    · have leaf : Paging.leaf (rank+1) raw.toNat = true := by
        have two := ((Level.hugePageAllowed_height level).mp allowed).2
        have bit := (decode_pageSize raw).symm.trans large
        rw [high] at two
        simp [Paging.leaf,bit,two]
      refine ⟨[stepAt table level address raw],rfl,?_⟩
      rw [Paging.path_stop word (.inr leaf)]
      refine ⟨by rw [List.map_singleton,stepAt_visit,high],fun step member => by rw [List.mem_singleton.mp member]; rfl,_,rfl,?_⟩
      rw [← high]
      exact large_ends large allowed
    · obtain ⟨next,below,_⟩ := Level.below_step high
      cases below.symm.trans last
    · obtain ⟨lower,below,height⟩ := Level.below_step high
      obtain ⟨rfl,rfl⟩ := List.cons.inj (below.symm.trans deeper)
      have inner : Paging.leaf (rank+1) raw.toNat = false := by
        have bit := (decode_pageSize raw).symm.trans small
        simp [Paging.leaf,bit]
      have present := (decode_present raw).symm.trans here
      have place : (PageTableEntry.decode raw).tablePhysicalAddress.toNat = Paging.frame 12 raw.toNat := mask_frame raw (by decide) rfl
      have bound : (PageTableEntry.decode raw).tablePhysicalAddress.toNat < 2^52 := by
        rw [place]
        exact Paging.frame_lt _ (by decide)
      obtain ⟨steps,all,visits,decoded,visit,last,leaf⟩ := ih height bound done
      refine ⟨stepAt table level address raw :: steps,by rw [all,List.append_assoc]; rfl,?_⟩
      rw [Paging.path_table word present inner,← place]
      refine ⟨by rw [List.map_cons,visits,stepAt_visit,high],?_,visit,?_,leaf⟩
      · intro step member
        rcases List.mem_cons.mp member with rfl | later
        · rfl
        · exact decoded step later
      · rw [List.getLast?_cons,last]
        rfl

theorem root_traced (level : Level) (cr3 : Cr3) (sign : canonicality address bits = .nonCanonical ↔
      Paging.canonical address.toNat (12+9*(level.height+1)) = false)
    (done : (if canonicality address bits = .nonCanonical then .error (.nonCanonical address bits)
      else walker.visit address [] [] cr3.tableAddress level level.below) = .ok walk) :
    Traced address walk walk.levels (Paging.walkPath (wordOf walker.memory) address.toNat (level.height+1) cr3.value.toNat) := by
  have root : cr3.tableAddress.toNat = Paging.frame 12 cr3.value.toNat := mask_frame cr3.value (by decide) rfl
  have low : cr3.tableAddress.toNat < 2^52 := by
    rw [root]
    exact Paging.frame_lt _ (by decide)
  split at done
  · cases done
  · rename_i canonical
    rw [sign,Bool.not_eq_false] at canonical
    obtain ⟨steps,all,traced⟩ := visit_traced rfl low done
    rw [Paging.walkPath,if_pos canonical,all,← root]
    exact traced

theorem walk_traced (done : walker.walk cr3 address = .ok walk) : Traced address walk walk.levels (tablePath walker cr3 address) := by
  have sign := canonicality_iff address walker.cr4.la57
  unfold tablePath
  unfold Walker.walk at done
  cases five : walker.cr4.la57 with
  | true =>
    have levels : walker.cr4.levels = Level.pml5.height+1 := by simp [Cr4.levels,five,Level.height]
    rw [five] at sign done
    rw [levels]
    exact root_traced .pml5 cr3 sign done
  | false =>
    have levels : walker.cr4.levels = Level.pml4.height+1 := by simp [Cr4.levels,five,Level.height]
    rw [five] at sign done
    rw [levels]
    exact root_traced .pml4 cr3 sign done

end

-- The size of the page that the tables map an address by, in bits.
def pageBits (path : List Paging.Visit) : Nat := Paging.offsetBits ((path.getLast?.map Paging.Visit.height).getD 0)

-- What the ranges of a walk are to be.
structure Ranged (walk : PageTableWalk) (address : U64) (virtual physical : U64 × U64) : Prop where
  virtualEnds : walk.virtualRange = some virtual
  physicalEnds : walk.physicalRange = some physical
  inVirtual : virtual.1 ≤ address ∧ address < virtual.2
  inPhysical : physical.1 ≤ walk.physicalAddress ∧ walk.physicalAddress < physical.2
  sameSize : virtual.2 - virtual.1 = physical.2 - physical.1
  place : walk.physicalAddress.toNat = walk.physicalBase.toNat + walk.pageOffset.toNat

theorem checkedAdd_some {a b : U64} (fits : a.toNat + b.toNat < 2^64) : checkedAdd a b = some (a+b) := if_pos fits

theorem checkedAdd_none {a b : U64} (past : ¬ a.toNat + b.toNat < 2^64) : checkedAdd a b = none := if_neg past

theorem clearLow_toNat (address : U64) {size : U64} (bits : size.toNat = 2^s) (small : s < 64) :
    (address &&& ~~~(size-1)).toNat = 2^s*(address.toNat / 2^s) := by
  have one : (size-1).toNat = 2^s-1 := by
    have below : (2:Nat)^s < 2^64 := Nat.pow_lt_pow_right (by decide) small
    have positive := Nat.two_pow_pos s
    rw [BitVec.toNat_sub,bits,show (1 : U64).toNat = 1 by rfl]
    omega
  apply Nat.eq_of_testBit_eq
  intro i
  have low : (size-1).getLsbD i = decide (i < s) := by rw [← BitVec.testBit_toNat,one,Nat.testBit_two_pow_sub_one]
  rw [BitVec.testBit_toNat,BitVec.getLsbD_and,BitVec.getLsbD_not,low,Nat.testBit_two_pow_mul,Nat.testBit_div_two_pow,
    BitVec.testBit_toNat]
  by_cases inside : i < s
  · simp [inside]
  · rw [Nat.sub_add_cancel (Nat.le_of_not_lt inside)]
    by_cases wide : i < 64
    · simp [inside,wide,Nat.le_of_not_lt inside]
    · simp [BitVec.getLsbD_of_ge _ _ (Nat.le_of_not_lt wide)]

section
variable {address : U64} {walk : PageTableWalk} {visit : Paging.Visit}

theorem EndsAt.narrow (ends : EndsAt address walk visit) : Paging.offsetBits visit.height ≤ 30 := by
  have low := ends.low
  unfold Paging.offsetBits
  omega

theorem EndsAt.physical (ends : EndsAt address walk visit) :
    walk.physicalAddress.toNat = walk.physicalBase.toNat + walk.pageOffset.toNat := by
  rw [PageTableWalk.physicalAddress,BitVec.toNat_or,ends.base,ends.offset]
  exact Paging.frame_or _ (Nat.mod_lt _ (Nat.two_pow_pos _))

theorem EndsAt.physicalRange (ends : EndsAt address walk visit) :
    walk.physicalRange = some (walk.physicalBase,walk.physicalBase + walk.leafSize.bytes) ∧
      (walk.physicalBase + walk.leafSize.bytes).toNat = walk.physicalBase.toNat + 2^Paging.offsetBits visit.height := by
  have low := Paging.frame_lt visit.entry (Nat.le_trans ends.narrow (by decide : 30 ≤ 52))
  rw [← ends.base] at low
  have size : (2:Nat)^Paging.offsetBits visit.height ≤ 2^30 := Nat.pow_le_pow_right (by decide) ends.narrow
  have fits : walk.physicalBase.toNat + walk.leafSize.bytes.toNat < 2^64 := by rw [ends.size]; omega
  refine ⟨by rw [PageTableWalk.physicalRange,checkedAdd_some fits]; rfl,?_⟩
  rw [BitVec.toNat_add,Nat.mod_eq_of_lt fits,ends.size]

theorem EndsAt.virtualBase (ends : EndsAt address walk visit) :
    walk.virtualBase.toNat = 2^Paging.offsetBits visit.height*(address.toNat / 2^Paging.offsetBits visit.height) := by
  rw [PageTableWalk.virtualBase,ends.asked]
  exact clearLow_toNat address ends.size (Nat.lt_of_le_of_lt ends.narrow (by decide))

-- The last page of the address space ends at 2^64, and no other page does.
theorem EndsAt.last_page (ends : EndsAt address walk visit) :
    walk.virtualBase.toNat + walk.leafSize.bytes.toNat < 2^64 ↔ address.toNat < 2^64 - 2^Paging.offsetBits visit.height := by
  have whole : (2:Nat)^64 = 2^Paging.offsetBits visit.height*2^(64-Paging.offsetBits visit.height) := by
    rw [← Nat.pow_add,Nat.add_sub_cancel' (Nat.le_trans ends.narrow (by decide))]
  rw [ends.virtualBase,ends.size,whole]
  generalize (2:Nat)^(64-Paging.offsetBits visit.height) = pages
  have positive := Nat.two_pow_pos (Paging.offsetBits visit.height)
  generalize (2:Nat)^Paging.offsetBits visit.height = size at positive
  rw [← Nat.mul_succ,Nat.mul_lt_mul_left positive,← Nat.mul_sub_one,Nat.mul_comm size,← Nat.div_lt_iff_lt_mul positive]
  exact Nat.lt_sub_iff_add_lt.symm

end

section
variable [GuestMemory μ] {walker : Walker μ}

theorem walk_ranges_iff {cr3 : Cr3} {address : U64} {walk : PageTableWalk} (done : walker.walk cr3 address = .ok walk) :
    (∃ virtual physical, Ranged walk address virtual physical) ↔ address.toNat < 2^64 - 2^pageBits (tablePath walker cr3 address) := by
  obtain ⟨_,_,visit,last,ends⟩ := walk_traced done
  have bits : pageBits (tablePath walker cr3 address) = Paging.offsetBits visit.height := by rw [pageBits,last]; rfl
  rw [bits,← ends.last_page]
  constructor
  · rintro ⟨virtual,physical,ranged⟩
    by_contra past
    have none := ranged.virtualEnds
    rw [PageTableWalk.virtualRange,checkedAdd_none past] at none
    cases none
  · intro fits
    obtain ⟨range,high⟩ := ends.physicalRange
    have place := ends.physical
    have small : walk.pageOffset.toNat < 2^Paging.offsetBits visit.height := by
      rw [ends.offset]
      exact Nat.mod_lt _ (Nat.two_pow_pos _)
    have bottom := ends.virtualBase
    have split := Nat.div_add_mod address.toNat (2^Paging.offsetBits visit.height)
    have within := Nat.mod_lt address.toNat (Nat.two_pow_pos (Paging.offsetBits visit.height))
    have top : (walk.virtualBase + walk.leafSize.bytes).toNat = walk.virtualBase.toNat + 2^Paging.offsetBits visit.height := by
      rw [BitVec.toNat_add,Nat.mod_eq_of_lt fits,ends.size]
    refine ⟨(walk.virtualBase,_),_,by rw [PageTableWalk.virtualRange,checkedAdd_some fits]; rfl,range,⟨?_,?_⟩,⟨?_,?_⟩,?_,place⟩
    · rw [BitVec.le_def,bottom]
      omega
    · rw [BitVec.lt_def,top,bottom]
      omega
    · rw [BitVec.le_def,place]
      exact Nat.le_add_right _ _
    · rw [BitVec.lt_def,high,place]
      omega
    · change walk.virtualBase + walk.leafSize.bytes - walk.virtualBase = walk.physicalBase + walk.leafSize.bytes - walk.physicalBase
      rw [BitVec.add_comm walk.virtualBase,BitVec.add_comm walk.physicalBase,BitVec.add_sub_cancel,BitVec.add_sub_cancel]

end

-- Tables whose last entries lead down to one page, by way of the last PDE or by
-- the last PTE.
def topTables (pde : Nat) : GuestRam := .ofWords [(0x1ff8,0x2003),(0x2ff8,0x3003),(0x3ff8,pde),(0x4ff8,0x5003),(0x4000,0x5003)] 0x400000

def topWalker (pde : Nat) : Walker GuestRam := ⟨topTables pde,⟨0x80000011⟩,⟨0x20⟩,⟨0xd00⟩⟩

-- The walk of an address, where it comes to its end.
def walkOf (walker : Walker GuestRam) (address : U64) : PageTableWalk :=
  ((walker.walk ⟨0x1000⟩ address).toOption).getD ⟨0,[],.page4K,0,0,.decode 0,false⟩

theorem walk_ranges_below : ∃ virtual physical, Ranged (walkOf (topWalker 0x4003) 0xffffffffffe00123) 0xffffffffffe00123 virtual physical :=
  (walk_ranges_iff (show (topWalker 0x4003).walk ⟨0x1000⟩ 0xffffffffffe00123 = .ok (walkOf (topWalker 0x4003) 0xffffffffffe00123)
    by decide +kernel)).mpr (by decide +kernel)

theorem last_page_overflows : ∃ walk, (topWalker 0x4003).walk ⟨0x1000⟩ 0xffffffffffffff00 = .ok walk ∧
    canonicality 0xffffffffffffff00 48 = .canonical ∧ walk.virtualRange = none ∧
    ¬ ∃ virtual physical, Ranged walk 0xffffffffffffff00 virtual physical := by
  refine ⟨walkOf (topWalker 0x4003) 0xffffffffffffff00,by decide +kernel,by decide +kernel,by decide +kernel,?_⟩
  rintro ⟨virtual,physical,ranged⟩
  have none : (walkOf (topWalker 0x4003) 0xffffffffffffff00).virtualRange = none := by decide +kernel
  cases none.symm.trans ranged.virtualEnds

section
variable [GuestMemory μ] {walker : Walker μ}

-- A step of a decoded path has the rights of its entry.
theorem decode_user (raw : U64) : (PageTableEntry.decode raw).user = raw.toNat.testBit 2 := Fields.flag_bit raw (1 <<< 2) rfl

theorem decode_writable (raw : U64) : (PageTableEntry.decode raw).writable = raw.toNat.testBit 1 := Fields.flag_bit raw (1 <<< 1) rfl

theorem decode_noExecute (raw : U64) : (PageTableEntry.decode raw).noExecute = raw.toNat.testBit 63 := Fields.flag_bit raw bitNx rfl

-- The rights that the processor gives to a path: to read as a user and to write
-- where every entry allows it, and none to execute where one entry forbids it and
-- the processor heeds that bit.
structure Permitted (walk : PageTableWalk) (efer : Efer) (path : List Paging.Visit) : Prop where
  user : walk.effectiveUser = true ↔ ∀ visit ∈ path, visit.entry.testBit 2 = true
  writable : walk.effectiveWritable = true ↔ ∀ visit ∈ path, visit.entry.testBit 1 = true
  executable : walk.executable = false ↔ efer.nxe = true ∧ ∃ visit ∈ path, visit.entry.testBit 63 = true

theorem Traced.effective {steps : List WalkLevel} (traced : Traced address walk steps path) (flag : PageTableEntry → Bool)
    (bit : ∀ raw : U64, flag (.decode raw) = raw.toNat.testBit i) :
    (steps.all (fun step => flag step.entry) = true ↔ ∀ visit ∈ path, visit.entry.testBit i = true) ∧
    (steps.any (fun step => flag step.entry) = true ↔ ∃ visit ∈ path, visit.entry.testBit i = true) := by
  have each : ∀ step ∈ steps, flag step.entry = step.visit.entry.testBit i := fun step member => by
    rw [traced.decoded step member,bit]
    rfl
  rw [← traced.visits,List.all_eq_true,List.any_eq_true,List.forall_mem_map]
  refine ⟨forall₂_congr fun step member => by rw [each step member],?_⟩
  simp only [List.mem_map,exists_exists_and_eq_and]
  exact exists_congr fun step => and_congr_right fun member => by rw [each step member]

theorem walk_permissions_iff {cr3 : Cr3} {address : U64} {walk : PageTableWalk} (done : walker.walk cr3 address = .ok walk) :
    Permitted walk walker.efer (tablePath walker cr3 address) ↔
      walker.efer.nxe = true ∨ ∀ visit ∈ tablePath walker cr3 address, visit.entry.testBit 63 = false := by
  have traced := walk_traced done
  have user := (traced.effective PageTableEntry.user decode_user).1
  have writable := (traced.effective PageTableEntry.writable decode_writable).1
  have never : walk.executable = false ↔ ∃ visit ∈ tablePath walker cr3 address, visit.entry.testBit 63 = true := by
    rw [PageTableWalk.executable,Bool.not_eq_false']
    exact (traced.effective PageTableEntry.noExecute decode_noExecute).2
  constructor
  · intro permitted
    by_cases on : walker.efer.nxe = true
    · exact .inl on
    · refine .inr fun visit member => Bool.eq_false_iff.mpr fun set => on ?_
      exact (permitted.executable.mp (never.mpr ⟨visit,member,set⟩)).1
  · rintro heeds
    refine ⟨user,writable,never.trans ⟨fun set => ⟨?_,set⟩,And.right⟩⟩
    obtain ⟨visit,member,set⟩ := set
    rcases heeds with on | clear
    · exact on
    · exact absurd set (by rw [clear visit member]; exact Bool.false_ne_true)

end

def withEfer (value : U64) : Walker GuestRam := ⟨fourTables 0x4003 0x8000000000005003,⟨0x80000011⟩,⟨0x20⟩,⟨value⟩⟩

theorem walk_permissions_nxe : Permitted (walkOf (withEfer 0xd00) 0x123) ⟨0xd00⟩ (tablePath (withEfer 0xd00) ⟨0x1000⟩ 0x123) :=
  (walk_permissions_iff (show (withEfer 0xd00).walk ⟨0x1000⟩ 0x123 = .ok (walkOf (withEfer 0xd00) 0x123) by decide +kernel)).mpr
    (.inl (by decide))

-- Without EFER.NXE the walk takes a page with bit 63 set for one that cannot be
-- executed.
theorem nx_unheeded : ∃ walk, (withEfer 0x500).walk ⟨0x1000⟩ 0x123 = .ok walk ∧ walk.executable = false ∧
    ¬ Permitted walk ⟨0x500⟩ (tablePath (withEfer 0x500) ⟨0x1000⟩ 0x123) := by
  refine ⟨walkOf (withEfer 0x500) 0x123,by decide +kernel,by decide +kernel,fun permitted => ?_⟩
  exact absurd (permitted.executable.mp (by decide +kernel)).1 (by decide)

end PrincessIDE.PageTable
