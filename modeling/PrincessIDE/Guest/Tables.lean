import PrincessIDE.Guest.Kernels
import PrincessIDE.Bin.IdtGates
import PrincessIDE.Bin.Leaf
import PrincessIDE.Foundation.Stores

namespace PrincessIDE.Fixture
open Memory Overlay Descriptor
open PageTable (Cr0 Cr3 Cr4 Efer Walker Answers Mapped Plain PatLeaf)

-- The bytes that a store of the lowest `n` bytes of a register lays.
def littleEndian (n : Nat) (value : BitVec w) : Raw := (List.range n).map fun k => (value >>> (8*k)).setWidth 8

def stored (first : GuestRam) (stores : List (Nat × Raw)) : GuestRam :=
  {first with bytes:=fun address => (lastLaid stores address.toNat).or (first.bytes address)}

theorem littleEndian_length (n : Nat) (value : BitVec w) : (littleEndian n value).length = n := by
  rw [littleEndian,List.length_map,List.length_range]

theorem leBytes_littleEndian (n : Nat) (value : BitVec w) : leBytes (littleEndian n value) = value.toNat % 256^n := by
  induction n with
  | zero =>
    rw [Nat.pow_zero,Nat.mod_one]
    rfl
  | succ n ih =>
    have cut : littleEndian (n+1) value = littleEndian n value ++ [(value >>> (8*n)).setWidth 8] := by
      rw [littleEndian,List.range_succ,List.map_append]
      rfl
    have power : (2:Nat)^(8*n) = 256^n := Nat.pow_mul 2 8 n
    have last : leBytes [(value >>> (8*n)).setWidth 8] = value.toNat / 256^n % 256 := by
      rw [← power,← Nat.shiftRight_eq_div_pow]
      simp [leBytes]
    rw [cut,leBytes_append,ih,last,littleEndian_length,Nat.mod_pow_succ]

section
variable {first : GuestRam} {stores : List (Nat × Raw)} {data : Raw}

theorem stored_size (first : GuestRam) (stores : List (Nat × Raw)) : (stored first stores).size = first.size := rfl

-- The stores lay `data` at a place, or leave so many bytes there alone.
def Lays (stores : List (Nat × Raw)) (place : Nat) (data : Raw) : Prop := ∀ k < data.length, lastLaid stores (place+k) = data[k]?

def Leaves (stores : List (Nat × Raw)) (place len : Nat) : Prop := ∀ k < len, lastLaid stores (place+k) = none

theorem Lays.last (lays : Lays after place data) (before : List (Nat × Raw)) : Lays (before ++ after) place data := by
  intro k inside
  rw [lastLaid_append,lays k inside,List.getElem?_eq_getElem inside]
  rfl

theorem Lays.kept (lays : Lays before place data) (leaves : Leaves after place data.length) : Lays (before ++ after) place data := by
  intro k inside
  rw [lastLaid_append,leaves k inside,lays k inside]
  rfl

theorem Leaves.both (one : Leaves before place len) (two : Leaves after place len) : Leaves (before ++ after) place len := by
  intro k inside
  rw [lastLaid_append,one k inside,two k inside]
  rfl

theorem stored_cell (lays : Lays stores place data) (inside : place+data.length ≤ 2^64) (within : k < data.length) :
    (stored first stores).bytes (.ofNat 64 (place+k)) = data[k]? := by
  have small : place+k < 2^64 := by omega
  rw [stored]
  dsimp only
  rw [BitVec.toNat_ofNat,Nat.mod_eq_of_lt small,lays k within,List.getElem?_eq_getElem within]
  rfl

theorem stored_word (lays : Lays stores place data) (inside : place+8 ≤ 2^64) (eight : data.length = 8) :
    (stored first stores).word place = leBytes data := by
  have bytes : ((List.range 8).map fun k => (stored first stores).byteAt (place+k)) = data.map BitVec.toNat := by
    apply List.ext_getElem
    · rw [List.length_map,List.length_map,List.length_range,eight]
    · intro k _ within
      rw [List.length_map] at within
      have cell : (stored first stores).bytes (.ofNat 64 (place+k)) = data[k]? := stored_cell lays (by omega) within
      rw [List.getElem?_eq_getElem within] at cell
      rw [List.getElem_map,List.getElem_map,List.getElem_range,GuestRam.byteAt,cell]
      rfl
  rw [GuestRam.word,bytes]
  rfl

end

namespace PagingKernel

def movl (place : Nat) (value : BitVec 32) : Nat × Raw := (place,littleEndian 4 value)

-- Every entry is stored as its low dword and a high dword of zero.
def setEntry (place : Nat) (low : BitVec 32) : List (Nat × Raw) := [movl place low,movl (place+4) 0]

-- `pml4`, `pdpt`, `pd` and `pt`: four aligned pages of `.bss`, one behind the other.
structure Tables where
  pml4 : Nat
  aligned : pml4 % 4096 = 0
  room : pml4+0x4000 ≤ 2^32

namespace Tables

def pdpt (t : Tables) : Nat := t.pml4+0x1000
def pd (t : Tables) : Nat := t.pml4+0x2000
def pt (t : Tables) : Nat := t.pml4+0x3000

-- `rep stosl`
def zeroed (t : Tables) : List (Nat × Raw) := (List.range' 0 4096).flatMap fun i => [movl (t.pml4+4*i) 0]

def linked (t : Tables) : List (Nat × Raw) :=
  setEntry t.pml4 (.ofNat 32 t.pdpt ||| 0x3) ++ setEntry t.pdpt (.ofNat 32 t.pd ||| 0x3) ++ setEntry t.pd (.ofNat 32 t.pt ||| 0x3) ++
  setEntry (t.pd+8) (0x200000 ||| 0x83) ++ setEntry (t.pd+16) 0

-- `.Lfill_pd`
def fillPd (t : Tables) : List (Nat × Raw) :=
  (List.range' 3 509).flatMap fun ecx => setEntry (t.pd+8*ecx) ((BitVec.ofNat 32 ecx <<< 21) ||| 0x83)

-- `.Lfill_pt`
def fillPt (t : Tables) : List (Nat × Raw) :=
  (List.range' 0 511).flatMap fun ecx => setEntry (t.pt+8*ecx) ((BitVec.ofNat 32 ecx <<< 12) ||| 0x3)

def start (t : Tables) : List (Nat × Raw) := t.zeroed ++ t.linked ++ t.fillPd ++ t.fillPt

-- What the stores are to leave in the four tables, taken as one array of entries.
def slot (t : Tables) (i : Nat) : Nat :=
  if i = 0 then t.pdpt+3
  else if i = 512 then t.pd+3
  else if i = 1024 then t.pt+3
  else if i = 1026 then 0
  else if 1024 < i ∧ i < 1536 then (i-1024)*2^21+0x83
  else if 1536 ≤ i ∧ i < 2047 then (i-1536)*2^12+3
  else 0

end Tables

-- The eight bytes of an entry below 4 GiB.
def entryBytes (low : BitVec 32) : Raw := littleEndian 4 low ++ littleEndian 4 (0 : BitVec 32)

theorem entryBytes_length (low : BitVec 32) : (entryBytes low).length = 8 := by
  rw [entryBytes,List.length_append,littleEndian_length,littleEndian_length]

theorem leBytes_entry (low : BitVec 32) : leBytes (entryBytes low) = low.toNat := by
  have small : low.toNat < 256^4 := low.isLt
  have none : (0 : BitVec 32).toNat = 0 := rfl
  rw [entryBytes,leBytes_append,leBytes_littleEndian,leBytes_littleEndian,Nat.mod_eq_of_lt small,none,Nat.zero_mod,Nat.mul_zero,Nat.add_zero]

theorem setEntry_laid (place : Nat) (low : BitVec 32) (other : Nat) :
    lastLaid (setEntry place low) other = laid (place,entryBytes low) other := by
  rw [entryBytes,← lastLaid_beside,littleEndian_length]
  rfl

theorem setEntry_lays (place : Nat) (low : BitVec 32) : Lays (setEntry place low) place (entryBytes low) := by
  intro k _
  rw [setEntry_laid,laid_at]

theorem setEntry_leaves (low : BitVec 32) (apart : other+8 ≤ place ∨ place+8 ≤ other) : Leaves (setEntry place low) other 8 := by
  intro k inside
  rw [setEntry_laid]
  apply laid_outside
  rw [entryBytes_length]
  omega

section
variable {base first rounds : Nat} {low : Nat → BitVec 32}

theorem fill_element (base first rounds : Nat) (low : Nat → BitVec 32) (place : Nat) :
    lastLaid ((List.range' first rounds).flatMap fun i => setEntry (base+8*i) (low i)) place =
      element base 8 first rounds (fun i => entryBytes (low i)) place :=
  lastLaid_loop first rounds (fun i _ _ => setEntry_laid (base+8*i) (low i)) (fun i _ _ => entryBytes_length (low i)) place

theorem fill_lays (start : first ≤ i) (stop : i < first+rounds) :
    Lays ((List.range' first rounds).flatMap fun i => setEntry (base+8*i) (low i)) (base+8*i) (entryBytes (low i)) := by
  intro k inside
  rw [entryBytes_length] at inside
  rw [fill_element]
  exact element_at base start stop inside

theorem fill_leaves (apart : place+8 ≤ base+8*first ∨ base+8*(first+rounds) ≤ place) :
    Leaves ((List.range' first rounds).flatMap fun i => setEntry (base+8*i) (low i)) place 8 := by
  intro k inside
  rw [fill_element]
  apply element_outside
  omega

end

theorem zeroed_lays (t : Tables) (inside : i < 2048) : Lays t.zeroed (t.pml4+8*i) (entryBytes 0) := by
  have dword : ∀ i place, lastLaid [movl (t.pml4+4*i) 0] place = laid (t.pml4+4*i,List.replicate 4 0) place := fun _ _ => lastLaid_single _ _
  have zeros : entryBytes 0 = List.replicate 8 0 := by decide
  intro k within
  rw [entryBytes_length] at within
  obtain ⟨place,half⟩ : t.pml4+8*i+k = t.pml4+4*(2*i+k/4)+k%4 ∧ k%4 < 4 := by omega
  rw [Tables.zeroed,lastLaid_loop 0 4096 (fun i _ _ => dword i) (fun _ _ _ => List.length_replicate ..),place,
    element_at t.pml4 (Nat.zero_le _) (by omega) half,zeros,List.getElem?_replicate_of_lt half,List.getElem?_replicate_of_lt within]

theorem or_low (x m : BitVec 32) (whole : x.toNat % 2^s = 0) (small : m.toNat < 2^s) : (x ||| m).toNat = x.toNat+m.toNat := by
  have shape : x.toNat = 2^s*(x.toNat/2^s) := by
    have parts := Nat.div_add_mod x.toNat (2^s)
    omega
  rw [BitVec.toNat_or,shape]
  exact (Nat.two_pow_add_eq_or_of_lt small _).symm

theorem shifted_toNat (small : i*2^s < 2^32) : (BitVec.ofNat 32 i <<< s).toNat = i*2^s := by
  have low : i < 2^32 := Nat.lt_of_le_of_lt (Nat.le_mul_of_pos_right i (Nat.two_pow_pos s)) small
  rw [BitVec.toNat_shiftLeft,BitVec.toNat_ofNat,Nat.mod_eq_of_lt low,Nat.shiftLeft_eq,Nat.mod_eq_of_lt small]

theorem table_entry (aligned : table % 4096 = 0) (room : table < 2^32) : (BitVec.ofNat 32 table ||| 0x3).toNat = table+3 := by
  have place : (BitVec.ofNat 32 table).toNat = table := by rw [BitVec.toNat_ofNat,Nat.mod_eq_of_lt room]
  have whole : (BitVec.ofNat 32 table).toNat % 2^12 = 0 := by rw [place]; exact aligned
  rw [or_low _ _ whole (by decide),place]
  rfl

theorem page_entry (small : i < 2^20) : ((BitVec.ofNat 32 i <<< 12) ||| 0x3).toNat = i*2^12+3 := by
  have place := @shifted_toNat i 12 (by omega)
  have whole : (BitVec.ofNat 32 i <<< 12).toNat % 2^12 = 0 := by rw [place]; exact Nat.mul_mod_left ..
  rw [or_low _ _ whole (by decide),place]
  rfl

theorem large_entry (small : i < 2^11) : ((BitVec.ofNat 32 i <<< 21) ||| 0x83).toNat = i*2^21+0x83 := by
  have place := @shifted_toNat i 21 (by omega)
  have whole : (BitVec.ofNat 32 i <<< 21).toNat % 2^21 = 0 := by rw [place]; exact Nat.mul_mod_left ..
  rw [or_low _ _ whole (by decide),place]
  rfl

section
variable (t : Tables)

theorem linked_leaves (others : i ≠ 0 ∧ i ≠ 512 ∧ i ≠ 1024 ∧ i ≠ 1025 ∧ i ≠ 1026) : Leaves t.linked (t.pml4+8*i) 8 := by
  unfold Tables.linked Tables.pdpt Tables.pd Tables.pt
  apply Leaves.both
  · apply Leaves.both
    · apply Leaves.both
      · exact Leaves.both (setEntry_leaves _ (by omega)) (setEntry_leaves _ (by omega))
      · exact setEntry_leaves _ (by omega)
    · exact setEntry_leaves _ (by omega)
  · exact setEntry_leaves _ (by omega)

theorem linked_lays : Lays t.linked t.pml4 (entryBytes (.ofNat 32 t.pdpt ||| 0x3)) ∧ Lays t.linked t.pdpt (entryBytes (.ofNat 32 t.pd ||| 0x3)) ∧
    Lays t.linked t.pd (entryBytes (.ofNat 32 t.pt ||| 0x3)) ∧ Lays t.linked (t.pd+8) (entryBytes (0x200000 ||| 0x83)) ∧
    Lays t.linked (t.pd+16) (entryBytes 0) := by
  have kept : ∀ {before place low} value other, Lays before place (entryBytes low) → (place+8 ≤ other ∨ other+8 ≤ place) →
      Lays (before ++ setEntry other value) place (entryBytes low) := by
    intro before place low value other lays apart
    apply lays.kept
    rw [entryBytes_length]
    exact setEntry_leaves value apart
  have orders : t.pml4+8 ≤ t.pdpt ∧ t.pdpt+8 ≤ t.pd := by
    unfold Tables.pdpt Tables.pd
    omega
  refine ⟨?_,?_,?_,?_,?_⟩
  · apply kept _ _ _ (by omega)
    apply kept _ _ _ (by omega)
    apply kept _ _ _ (by omega)
    exact kept _ _ (setEntry_lays _ _) (by omega)
  · apply kept _ _ _ (by omega)
    apply kept _ _ _ (by omega)
    exact kept _ _ ((setEntry_lays _ _).last _) (by omega)
  · apply kept _ _ _ (by omega)
    exact kept _ _ ((setEntry_lays _ _).last _) (by omega)
  · exact kept _ _ ((setEntry_lays _ _).last _) (by omega)
  · exact (setEntry_lays _ _).last _

end

-- Where the two loops come to, and where they do not.
theorem start_kept {t : Tables} {i : Nat} {low : BitVec 32} (lays : Lays (t.zeroed ++ t.linked) (t.pml4+8*i) (entryBytes low))
    (outside : ¬ (1027 ≤ i ∧ i < 1536) ∧ ¬ (1536 ≤ i ∧ i < 2047)) : Lays t.start (t.pml4+8*i) (entryBytes low) := by
  have pd : Leaves t.fillPd (t.pml4+8*i) 8 := by
    apply fill_leaves
    unfold Tables.pd
    omega
  have pt : Leaves t.fillPt (t.pml4+8*i) 8 := by
    apply fill_leaves
    unfold Tables.pt
    omega
  rw [← entryBytes_length low] at pd pt
  exact (lays.kept pd).kept pt

theorem start_large (t : Tables) (low : 3 ≤ i) (high : i < 512) :
    Lays t.start (t.pd+8*i) (entryBytes ((BitVec.ofNat 32 i <<< 21) ||| 0x83)) := by
  have lays : Lays t.fillPd (t.pd+8*i) (entryBytes ((BitVec.ofNat 32 i <<< 21) ||| 0x83)) := fill_lays low high
  have pt : Leaves t.fillPt (t.pd+8*i) 8 := by
    apply fill_leaves
    unfold Tables.pt Tables.pd
    omega
  apply (lays.last _).kept
  rwa [entryBytes_length]

theorem start_page (t : Tables) (high : i < 511) : Lays t.start (t.pt+8*i) (entryBytes ((BitVec.ofNat 32 i <<< 12) ||| 0x3)) := by
  have lays : Lays t.fillPt (t.pt+8*i) (entryBytes ((BitVec.ofNat 32 i <<< 12) ||| 0x3)) := fill_lays (Nat.zero_le i) (by omega)
  exact lays.last _

theorem start_linked (t : Tables) (links : i = 0 ∨ i = 512 ∨ i = 1024 ∨ i = 1025 ∨ i = 1026) :
    ∃ low, Lays t.start (t.pml4+8*i) (entryBytes low) ∧ low.toNat = t.slot i := by
  obtain ⟨pml4,pdpt,pd,huge,hole⟩ := linked_lays t
  have aligned := t.aligned
  have room := t.room
  have outside : ¬ (1027 ≤ i ∧ i < 1536) ∧ ¬ (1536 ≤ i ∧ i < 2047) := by omega
  rcases links with rfl | rfl | rfl | rfl | rfl
  · refine ⟨_,start_kept (pml4.last _) outside,table_entry ?_ ?_⟩
    all_goals
      unfold Tables.pdpt
      omega
  · refine ⟨_,start_kept (pdpt.last _) outside,table_entry ?_ ?_⟩
    all_goals
      unfold Tables.pd
      omega
  · refine ⟨_,start_kept (pd.last _) outside,table_entry ?_ ?_⟩
    all_goals
      unfold Tables.pt
      omega
  · exact ⟨_,start_kept (huge.last _) outside,rfl⟩
  · exact ⟨_,start_kept (hole.last _) outside,rfl⟩

-- Each of the 2048 entries is what it is meant to be, whatever lay there before.
theorem start_lays (t : Tables) (inside : i < 2048) : ∃ low, Lays t.start (t.pml4+8*i) (entryBytes low) ∧ low.toNat = t.slot i := by
  by_cases large : 1027 ≤ i ∧ i < 1536
  · have place : t.pml4+8*i = t.pd+8*(i-1024) := by
      unfold Tables.pd
      omega
    rw [place]
    refine ⟨_,start_large t (by omega) (by omega),?_⟩
    rw [large_entry (by omega),Tables.slot,if_neg (by omega),if_neg (by omega),if_neg (by omega),if_neg (by omega),if_pos (by omega)]
  · by_cases page : 1536 ≤ i ∧ i < 2047
    · have place : t.pml4+8*i = t.pt+8*(i-1536) := by
        unfold Tables.pt
        omega
      rw [place]
      refine ⟨_,start_page t (by omega),?_⟩
      rw [page_entry (by omega),Tables.slot,if_neg (by omega),if_neg (by omega),if_neg (by omega),if_neg (by omega),if_neg (by omega),
        if_pos page]
    · by_cases links : i = 0 ∨ i = 512 ∨ i = 1024 ∨ i = 1025 ∨ i = 1026
      · exact start_linked t links
      · have left := linked_leaves t (i:=i) (by omega)
        rw [← entryBytes_length 0] at left
        refine ⟨_,start_kept ((zeroed_lays t inside).kept left) ⟨large,page⟩,?_⟩
        rw [Tables.slot,if_neg (by omega),if_neg (by omega),if_neg (by omega),if_neg (by omega),if_neg (by omega),if_neg (by omega)]
        rfl

theorem start_word (first : GuestRam) (t : Tables) (inside : i < 2048) : (stored first t.start).word (t.pml4+8*i) = t.slot i := by
  obtain ⟨low,lays,value⟩ := start_lays t inside
  have room := t.room
  rw [stored_word lays (by omega) (entryBytes_length low),leBytes_entry,value]

theorem present_odd (entry : Nat) : Paging.present entry = decide (entry % 2 = 1) := by
  rw [Paging.present,Nat.testBit_zero]

theorem bit7_digit (entry : Nat) : Paging.bit7 entry = decide (entry / 128 % 2 = 1) := by
  rw [Paging.bit7,Nat.testBit_eq_decide_div_mod_eq]

theorem frame_whole (whole : base % 2^s = 0) (low : base < 2^52) (small : flags < 2^s) (fits : s ≤ 52) : Paging.frame s (base+flags) = base := by
  have power : (2:Nat)^52 = 2^s*2^(52-s) := by rw [← Nat.pow_add,Nat.add_sub_cancel' fits]
  have shape : base = 2^s*(base/2^s) := by
    have parts := Nat.div_add_mod base (2^s)
    omega
  have cut : (base+flags)/2^s = base/2^s := by
    rw [shape,Nat.mul_add_div (Nat.two_pow_pos s),Nat.div_eq_of_lt small,Nat.add_zero,← shape]
  have below : base+flags < 2^52 := by
    have next : base/2^s < 2^(52-s) := Nat.div_lt_of_lt_mul (power ▸ low)
    have step := Nat.mul_le_mul_left (2^s) (Nat.succ_le_of_lt next)
    rw [Nat.mul_succ,← power] at step
    omega
  rw [Paging.frame,Nat.mod_eq_of_lt below,cut,Nat.mul_comm]
  exact shape.symm

section
variable (t : Tables) (va : Nat)

-- The entry that a walk of the booted tables reads in the table of a height.
def entryOf (height : Nat) : Nat := t.slot (512*(3-height) + Paging.index va height)

-- What the header of boot.S says of the addresses below 1 GiB, and what is mapped
-- of the others.
def intended (va : Nat) : Paging.Outcome :=
  if va < 2^30 then
    if 0x1FF000 ≤ va ∧ va < 0x200000 then .notPresent 0
    else if 0x400000 ≤ va ∧ va < 0x600000 then .notPresent 1
    else .physical va
  else if va < 2^39 then .notPresent 2
  else if Paging.canonical va 48 then .notPresent 3
  else .generalProtection

def visits : List Paging.Visit :=
  ⟨3,t.pml4,entryOf t va 3⟩ :: if Paging.index va 3 ≠ 0 then [] else
    ⟨2,t.pdpt,entryOf t va 2⟩ :: if Paging.index va 2 ≠ 0 then [] else
      ⟨1,t.pd,entryOf t va 1⟩ :: if Paging.index va 1 ≠ 0 then [] else [⟨0,t.pt,entryOf t va 0⟩]

theorem index_values : Paging.index va 3 = va / 549755813888 % 512 ∧ Paging.index va 2 = va / 1073741824 % 512 ∧
    Paging.index va 1 = va / 2097152 % 512 ∧ Paging.index va 0 = va / 4096 % 512 := ⟨rfl,rfl,rfl,rfl⟩

theorem canonical_range : Paging.canonical va 48 = true ↔ va < 140737488355328 ∨ 18446603336221196288 ≤ va := by
  rw [Paging.canonical,Bool.or_eq_true,decide_eq_true_iff,decide_eq_true_iff]
  exact Iff.rfl

-- An entry is nothing, a pointer to an aligned page or, in the PD, a large page.
theorem slot_cases (i : Nat) : t.slot i = 0 ∨ (∃ page, t.slot i = page*4096+3) ∨ (1024 < i ∧ i < 1536 ∧ t.slot i = (i-1024)*2^21+0x83) := by
  have aligned := t.aligned
  have table : ∀ next, next % 4096 = 0 → ∃ page, next+3 = page*4096+3 := fun next whole => ⟨next/4096,by omega⟩
  unfold Tables.slot Tables.pdpt Tables.pd Tables.pt
  split
  · exact .inr (.inl (table _ (by omega)))
  split
  · exact .inr (.inl (table _ (by omega)))
  split
  · exact .inr (.inl (table _ (by omega)))
  split
  · exact .inl rfl
  split
  · rename_i inside
    exact .inr (.inr ⟨inside.1,inside.2,rfl⟩)
  split
  · exact .inr (.inl ⟨_,rfl⟩)
  · exact .inl rfl

theorem slot_flags (i : Nat) : (Paging.present (t.slot i) = false → Paging.bit7 (t.slot i) = false) ∧
    (i ≤ 1024 ∨ 1536 ≤ i → Paging.bit7 (t.slot i) = false) := by
  rw [present_odd,bit7_digit]
  rcases slot_cases t i with none | ⟨page,pointer⟩ | ⟨low,high,large⟩
  · rw [none]
    exact ⟨fun _ => rfl,fun _ => rfl⟩
  · rw [pointer,decide_eq_false (p:=(page*4096+3)/128%2=1) (by omega)]
    exact ⟨fun _ => rfl,fun _ => rfl⟩
  · rw [large,decide_eq_true (p:=((i-1024)*2^21+0x83)%2=1) (by omega)]
    exact ⟨fun absent => absurd absent (by decide),fun outside => absurd outside (by omega)⟩

-- A walk looks at the four tables in their order, and at none twice.
theorem visits_ahead : visits t va <+: [⟨3,t.pml4,entryOf t va 3⟩,⟨2,t.pdpt,entryOf t va 2⟩,⟨1,t.pd,entryOf t va 1⟩,⟨0,t.pt,entryOf t va 0⟩] := by
  unfold visits
  split
  · exact ⟨_,rfl⟩
  split
  · exact ⟨_,rfl⟩
  split
  · exact ⟨_,rfl⟩
  · exact List.prefix_refl _

theorem visits_each : ∀ visit ∈ visits t va, t.pml4 ≤ visit.table ∧ visit.table+4096 ≤ t.pml4+0x4000 ∧
    (Paging.present visit.entry = false → Paging.bit7 visit.entry = false) ∧ (visit.height ≠ 1 → Paging.bit7 visit.entry = false) := by
  have small : ∀ height, Paging.index va height < 512 := fun _ => Paging.index_lt va
  have two := small 2
  have three := small 3
  intro visit member
  have inside := (visits_ahead t va).subset member
  unfold Tables.pdpt Tables.pd Tables.pt at inside
  simp only [List.mem_cons,List.not_mem_nil,or_false] at inside
  rcases inside with rfl | rfl | rfl | rfl
  · exact ⟨by simp,by simp,(slot_flags t _).1,fun _ => (slot_flags t _).2 (by omega)⟩
  · exact ⟨by simp,by simp,(slot_flags t _).1,fun _ => (slot_flags t _).2 (by omega)⟩
  · exact ⟨by simp,by simp,(slot_flags t _).1,fun other => absurd rfl other⟩
  · exact ⟨by simp,by simp,(slot_flags t _).1,fun _ => (slot_flags t _).2 (by omega)⟩

theorem visits_slot : ∀ visit ∈ visits t va, ∃ i, visit.entry = t.slot i := by
  intro visit member
  have inside := (visits_ahead t va).subset member
  simp only [List.mem_cons,List.not_mem_nil,or_false] at inside
  rcases inside with rfl | rfl | rfl | rfl
  all_goals exact ⟨_,rfl⟩

theorem visits_distinct : ((visits t va).map Paging.Visit.table).Nodup := by
  apply ((visits_ahead t va).sublist.map Paging.Visit.table).nodup
  unfold Tables.pdpt Tables.pd Tables.pt
  simp

theorem intended_physical (outcome : intended va = .physical address) : address = va ∧ va < 2^30 := by
  unfold intended at outcome
  split at outcome
  · rename_i low
    split at outcome
    · cases outcome
    · split at outcome
      · cases outcome
      · cases outcome
        exact ⟨rfl,low⟩
  · split at outcome
    · cases outcome
    · split at outcome
      · cases outcome
      · cases outcome

end

-- One of the two tables that hold one entry, the pointer to the next.
theorem walks_single {word : Nat → Nat} {va height below : Nat} (rank : height = below+1) (high : 2 ≤ height) {table next entry : Nat}
    (read : Paging.entryAt word va height table = entry) (link : Paging.index va height = 0 → entry = next+3)
    (empty : Paging.index va height ≠ 0 → entry = 0) (aligned : next % 2^12 = 0) (low : next < 2^52) :
    Paging.translate word va height table =
      (if Paging.index va height = 0 then Paging.translate word va below next else .notPresent height) ∧
    Paging.path word va height table =
      ⟨height,table,entry⟩ :: if Paging.index va height ≠ 0 then [] else Paging.path word va below next := by
  subst rank
  by_cases zero : Paging.index va (below+1) = 0
  · have here : Paging.present (next+3) = true := by
      rw [present_odd,decide_eq_true_iff]
      omega
    have inner : Paging.leaf (below+1) (next+3) = false := by
      rw [Paging.leaf,bit7_digit,decide_eq_false (by omega)]
      simp
    have base : Paging.frame 12 (next+3) = next := frame_whole aligned low (by decide) (by decide)
    rw [link zero] at read ⊢
    rw [Paging.translate_table read here inner,Paging.path_table read here inner,base,if_pos zero,if_neg (not_not.mpr zero)]
    exact ⟨rfl,rfl⟩
  · rw [empty zero] at read ⊢
    rw [if_neg zero,if_pos zero]
    exact ⟨Paging.translate_absent read rfl,Paging.path_stop read (.inl rfl)⟩

-- The words that a memory holds where the four tables are.
def Holds (t : Tables) (word : Nat → Nat) : Prop := ∀ i < 2048, word (t.pml4+8*i) = t.slot i

section
variable {t : Tables} {word : Nat → Nat} (holds : Holds t word) (va : Nat)
include holds

theorem entry_booted (low : height ≤ 3) (table : t.pml4+0x1000*(3-height) = place) :
    Paging.entryAt word va height place = entryOf t va height := by
  have small := @Paging.index_lt va height
  have here : place + 8*Paging.index va height = t.pml4+8*(512*(3-height)+Paging.index va height) := by omega
  rw [Paging.entryAt,here]
  exact holds _ (by omega)

theorem walks_pt : Paging.translate word va 0 t.pt =
      (if Paging.index va 0 = 511 then .notPresent 0 else .physical (Paging.index va 0*2^12 + va % 2^12)) ∧
    Paging.path word va 0 t.pt = [⟨0,t.pt,entryOf t va 0⟩] := by
  have small := @Paging.index_lt va 0
  have read : Paging.entryAt word va 0 t.pt = entryOf t va 0 := entry_booted holds va (Nat.zero_le 3) rfl
  refine ⟨?_,Paging.path_stop read (.inr (Paging.leaf_zero _))⟩
  split
  · rename_i hole
    have none : entryOf t va 0 = 0 := by
      rw [entryOf,hole]
      rfl
    rw [none] at read
    exact Paging.translate_absent read rfl
  · have page : entryOf t va 0 = Paging.index va 0*2^12+3 := by
      rw [entryOf,Tables.slot,if_neg (by omega),if_neg (by omega),if_neg (by omega),if_neg (by omega),if_neg (by omega),if_pos (by omega)]
      omega
    have here : Paging.present (Paging.index va 0*2^12+3) = true := by
      rw [present_odd,decide_eq_true_iff]
      omega
    have base : Paging.frame 12 (Paging.index va 0*2^12+3) = Paging.index va 0*2^12 :=
      frame_whole (Nat.mul_mod_left ..) (by omega) (by decide) (by decide)
    have bits : Paging.offsetBits 0 = 12 := rfl
    rw [page] at read
    rw [Paging.translate_leaf read here (Paging.leaf_zero _),bits,base]

theorem walks_pd : Paging.translate word va 1 t.pd =
      (if Paging.index va 1 = 0 then if Paging.index va 0 = 511 then .notPresent 0 else .physical (Paging.index va 0*2^12 + va % 2^12)
        else if Paging.index va 1 = 2 then .notPresent 1 else .physical (Paging.index va 1*2^21 + va % 2^21)) ∧
    Paging.path word va 1 t.pd =
      ⟨1,t.pd,entryOf t va 1⟩ :: if Paging.index va 1 ≠ 0 then [] else [⟨0,t.pt,entryOf t va 0⟩] := by
  have small := @Paging.index_lt va 1
  have aligned := t.aligned
  have room := t.room
  have read : Paging.entryAt word va 1 t.pd = entryOf t va 1 := entry_booted holds va (by decide) rfl
  by_cases table : Paging.index va 1 = 0
  · have entry : entryOf t va 1 = t.pt+3 := by
      rw [entryOf,table]
      rfl
    have place : t.pt % 2^12 = 0 ∧ t.pt < 2^52 := by
      unfold Tables.pt
      omega
    have here : Paging.present (t.pt+3) = true := by
      rw [present_odd,decide_eq_true_iff]
      omega
    have inner : Paging.leaf 1 (t.pt+3) = false := by
      rw [Paging.leaf,bit7_digit,decide_eq_false (by omega)]
      rfl
    have base : Paging.frame 12 (t.pt+3) = t.pt := frame_whole place.1 place.2 (by decide) (by decide)
    obtain ⟨ends,steps⟩ := walks_pt holds va
    rw [entry] at read
    rw [Paging.translate_table read here inner,Paging.path_table read here inner,base,ends,steps,entry,if_pos table,if_neg (not_not.mpr table)]
    exact ⟨rfl,rfl⟩
  · rw [if_neg table,if_pos table]
    by_cases hole : Paging.index va 1 = 2
    · have none : entryOf t va 1 = 0 := by
        rw [entryOf,hole]
        rfl
      rw [none] at read ⊢
      rw [if_pos hole]
      exact ⟨Paging.translate_absent read rfl,Paging.path_stop read (.inl rfl)⟩
    · have large : entryOf t va 1 = Paging.index va 1*2^21+0x83 := by
        rw [entryOf,Tables.slot,if_neg (by omega),if_neg (by omega),if_neg (by omega),if_neg (by omega),if_pos (by omega)]
        omega
      have here : Paging.present (Paging.index va 1*2^21+0x83) = true := by
        rw [present_odd,decide_eq_true_iff]
        omega
      have last : Paging.leaf 1 (Paging.index va 1*2^21+0x83) = true := by
        rw [Paging.leaf,bit7_digit,decide_eq_true (by omega)]
        rfl
      have base : Paging.frame 21 (Paging.index va 1*2^21+0x83) = Paging.index va 1*2^21 :=
        frame_whole (Nat.mul_mod_left ..) (by omega) (by decide) (by decide)
      have bits : Paging.offsetBits 1 = 21 := rfl
      rw [large] at read ⊢
      rw [if_neg hole]
      refine ⟨?_,Paging.path_stop read (.inr last)⟩
      rw [Paging.translate_leaf read here last,bits,base]

theorem walks_pml4 : Paging.translate word va 3 t.pml4 =
      (if Paging.index va 3 = 0 then if Paging.index va 2 = 0 then Paging.translate word va 1 t.pd
        else .notPresent 2 else .notPresent 3) ∧
    Paging.path word va 3 t.pml4 = visits t va := by
  have aligned := t.aligned
  have room := t.room
  have pdpt : t.pdpt % 2^12 = 0 ∧ t.pdpt < 2^52 := by
    unfold Tables.pdpt
    omega
  have pd : t.pd % 2^12 = 0 ∧ t.pd < 2^52 := by
    unfold Tables.pd
    omega
  have top : Paging.entryAt word va 3 t.pml4 = entryOf t va 3 := entry_booted holds va (by decide) rfl
  have second : Paging.entryAt word va 2 t.pdpt = entryOf t va 2 := entry_booted holds va (by decide) rfl
  have small := @Paging.index_lt va
  have filled : ∀ height, 2 ≤ height → height ≤ 3 → Paging.index va height ≠ 0 → entryOf t va height = 0 := by
    intro height low high other
    have below := @small height
    rw [entryOf,Tables.slot,if_neg (by omega),if_neg (by omega),if_neg (by omega),if_neg (by omega),if_neg (by omega),if_neg (by omega)]
  obtain ⟨ends,steps⟩ := walks_single rfl (by decide) top (fun zero => by rw [entryOf,zero]; rfl) (filled 3 (by decide) (by decide))
    pdpt.1 pdpt.2
  obtain ⟨inner,further⟩ := walks_single rfl (by decide) second (fun zero => by rw [entryOf,zero]; rfl) (filled 2 (by decide) (by decide))
    pd.1 pd.2
  rw [ends,steps,inner,further,(walks_pd holds va).2]
  exact ⟨rfl,rfl⟩

-- The first GiB: the large pages and the small ones put the parts of an address
-- together again, up to the two holes.
theorem low_walk (low : va < 2^30) : Paging.translate word va 1 t.pd = intended va := by
  obtain ⟨_,_,one,zero⟩ := index_values va
  rw [(walks_pd holds va).1,one,zero,intended,if_pos low]
  by_cases small : va < 0x200000
  · rw [if_pos (by omega)]
    by_cases hole : 0x1FF000 ≤ va
    · rw [if_pos (by omega),if_pos ⟨hole,small⟩]
    · rw [if_neg (by omega),if_neg (by omega),if_neg (by omega)]
      congr 1
      omega
  · rw [if_neg (by omega)]
    by_cases hole : 0x400000 ≤ va ∧ va < 0x600000
    · rw [if_pos (by omega),if_neg (by omega),if_pos hole]
    · rw [if_neg (by omega),if_neg (by omega),if_neg hole]
      congr 1
      omega

theorem walks_root (small : va < 2^64) : Paging.walk word va 4 t.pml4 = intended va ∧
    Paging.walkPath word va 4 t.pml4 = if Paging.canonical va 48 then visits t va else [] := by
  have room := t.room
  have below : t.pml4 < 2^52 := by omega
  have root : Paging.frame 12 (t.pml4+0) = t.pml4 := frame_whole t.aligned below (by decide) (by decide)
  rw [Nat.add_zero] at root
  have bits : 12+9*4 = 48 := rfl
  have top : 4-1 = 3 := rfl
  have range := canonical_range va
  obtain ⟨three,two,_,_⟩ := index_values va
  rw [Paging.walk,Paging.walkPath,bits,top,root,(walks_pml4 holds va).1,(walks_pml4 holds va).2,three,two]
  refine ⟨?_,rfl⟩
  by_cases canonical : Paging.canonical va 48 = true
  · have sides := range.mp canonical
    rw [if_pos canonical]
    by_cases low : va < 2^30
    · rw [if_pos (by omega),if_pos (by omega),low_walk holds va low]
    · rw [intended,if_neg low]
      by_cases second : va < 2^39
      · rw [if_pos (by omega),if_neg (by omega),if_pos second]
      · rw [if_neg (by omega),if_neg second,if_pos canonical]
  · have between := mt range.mpr canonical
    rw [if_neg canonical,intended,if_neg (by omega),if_neg (by omega),if_neg canonical]

end

-- The registers that the loader hands over.
structure Handoff where
  cr0 : BitVec 32
  cr2 : BitVec 32
  cr4 : BitVec 32
  efer : U64
deriving DecidableEq, Repr

namespace Handoff

def regs (h : Handoff) (t : Tables) : ControlRegisters where
  cr0 := (h.cr0 ||| 0x80000001).setWidth 64
  cr2 := h.cr2.setWidth 64
  cr3 := .ofNat 64 t.pml4
  cr4 := (h.cr4 ||| 0x20).setWidth 64

-- The CPU sets EFER.LMA when CR0.PG comes to EFER.LME.
def longEfer (h : Handoff) : Efer := ⟨h.efer ||| 0x100 ||| 0x400⟩

end Handoff

-- The walker that the host makes of the booted machine.
def host (ram : GuestRam) (t : Tables) (h : Handoff) : Walker GuestRam := ⟨ram,⟨(h.regs t).cr0⟩,⟨(h.regs t).cr4⟩,h.longEfer⟩

theorem booted_path {t : Tables} {word : Nat → Nat} (h : Handoff) (flat : h.cr4.getLsbD 12 = false) (address : U64) (holds : Holds t word) :
    Paging.walk word address.toNat (⟨(h.regs t).cr4⟩ : Cr4).levels (h.regs t).cr3.toNat = intended address.toNat ∧
    Paging.walkPath word address.toNat (⟨(h.regs t).cr4⟩ : Cr4).levels (h.regs t).cr3.toNat =
      if Paging.canonical address.toNat 48 then visits t address.toNat else [] := by
  have low := t.room
  have root : (h.regs t).cr3.toNat = t.pml4 := by
    dsimp only [Handoff.regs]
    rw [BitVec.toNat_ofNat,Nat.mod_eq_of_lt (by omega)]
  have la57 : (⟨(h.regs t).cr4⟩ : Cr4).la57 = false := by
    have bit := Fields.flag_bit (h.regs t).cr4 (1 <<< 12) (i:=12) rfl
    rw [Cr4.la57,bit,← BitVec.getLsbD]
    dsimp only [Handoff.regs]
    rw [BitVec.getLsbD_setWidth,BitVec.getLsbD_or,flat]
    rfl
  have levels : (⟨(h.regs t).cr4⟩ : Cr4).levels = 4 := by
    rw [Cr4.levels,la57]
    rfl
  rw [levels,root]
  exact walks_root holds address.toNat address.isLt

section
variable {ram : GuestRam} {t : Tables} (room : t.pml4+0x4000 ≤ ram.size.toNat)
include room

theorem holds_wordOf (words : Holds t ram.word) : Holds t (PageTable.wordOf ram) := by
  intro i inside
  have top := ram.size.isLt
  have place : (BitVec.ofNat 64 (t.pml4+8*i)).toNat = t.pml4+8*i := by
    rw [BitVec.toNat_ofNat,Nat.mod_eq_of_lt (by omega)]
  have read := ram.readU64_word (.ofNat 64 (t.pml4+8*i)) (by rw [place]; omega)
  have found : GuestMemory.readU64 ram (.ofNat 64 (t.pml4+8*i)) = .ok (.ofNat 64 (ram.word (t.pml4+8*i))) := by
    rw [place] at read
    exact read
  rw [PageTable.wordOf,found]
  dsimp only
  rw [BitVec.toNat_ofNat,Nat.mod_eq_of_lt (GuestRam.word_lt _ _),words i inside]

theorem booted_mapped (va : Nat) (inside : ∀ place, intended va = .physical place → place < ram.size.toNat) :
    Mapped ram.size.toNat (visits t va) (intended va) ∧ Plain (visits t va) ∧ ¬ PatLeaf (visits t va) := by
  have each := visits_each t va
  refine ⟨⟨?_,visits_distinct t va,inside,?_⟩,?_,?_⟩
  · intro visit member
    have below := (each visit member).2.1
    omega
  · intro visit member high _
    exact (each visit member).2.2.2 (by omega)
  · intro visit member
    exact (each visit member).2.2.1
  · rintro ⟨visit,member,low,_,set⟩
    rw [(each visit member).2.2.2 (by omega)] at set
    cases set

theorem booted_answers (words : Holds t ram.word) (h : Handoff) (flat : h.cr4.getLsbD 12 = false) (address : U64)
    (inside : ∀ place, intended address.toNat = .physical place → place < ram.size.toNat) :
    Answers ((host ram t h).walk ⟨(h.regs t).cr3⟩ address) (intended address.toNat) := by
  obtain ⟨outcome,path⟩ := booted_path h flat address words
  obtain ⟨mapped,plain,other⟩ := booted_mapped room address.toNat inside
  have along : ∀ P : List Paging.Visit → Prop, P [] → P (visits t address.toNat) →
      P (if Paging.canonical address.toNat 48 then visits t address.toNat else []) := by
    intro P none all
    split
    · exact all
    · exact none
  have empty : Mapped ram.size.toNat [] (intended address.toNat) := ⟨by simp,by simp,inside,by simp⟩
  have answers := PageTable.walk_answers (host ram t h) ⟨(h.regs t).cr3⟩ address
  simp only [host,PageTable.architectural,PageTable.architecturalPath,outcome,path] at answers
  apply (answers (along (Mapped ram.size.toNat · (intended address.toNat)) empty mapped) (along Plain (by simp [Plain]) plain)).2
  exact along (¬ PatLeaf ·) (by simp [PatLeaf]) other

end

theorem slot_bits (t : Tables) (i : Nat) : (t.slot i ≠ 0 → (t.slot i).testBit 1 = true) ∧ (t.slot i).testBit 2 = false := by
  simp only [Nat.testBit_eq_decide_div_mod_eq]
  rcases slot_cases t i with none | ⟨page,pointer⟩ | ⟨low,high,large⟩
  · rw [none]
    exact ⟨fun other => absurd rfl other,rfl⟩
  · rw [pointer]
    exact ⟨fun _ => decide_eq_true (by omega),decide_eq_false (by omega)⟩
  · rw [large]
    exact ⟨fun _ => decide_eq_true (by omega),decide_eq_false (by omega)⟩

theorem slot_filled (t : Tables) (used : i = 0 ∨ i = 512 ∨ (1024 ≤ i ∧ i < 2047 ∧ i ≠ 1026)) : t.slot i ≠ 0 := by
  unfold Tables.slot
  split
  · omega
  split
  · omega
  split
  · omega
  split
  · omega
  split
  · omega
  split
  · omega
  · omega

-- What is mapped is mapped by entries that are there.
theorem visits_present (t : Tables) (physical : intended va = .physical address) : ∀ visit ∈ visits t va, visit.entry ≠ 0 := by
  obtain ⟨_,low⟩ := intended_physical va physical
  obtain ⟨three,two,one,zero⟩ := index_values va
  have first : Paging.index va 3 = 0 := by omega
  have second : Paging.index va 2 = 0 := by omega
  rw [intended,if_pos low] at physical
  intro visit member
  rw [visits,if_neg (not_not.mpr first),if_neg (not_not.mpr second)] at member
  have holes : ¬ (0x1FF000 ≤ va ∧ va < 0x200000) ∧ ¬ (0x400000 ≤ va ∧ va < 0x600000) := by
    constructor
    · intro hole
      rw [if_pos hole] at physical
      cases physical
    · intro hole
      rw [if_neg (by omega),if_pos hole] at physical
      cases physical
  simp only [List.mem_cons] at member
  rcases member with rfl | rfl | rfl | last
  · exact slot_filled t (by omega)
  · exact slot_filled t (by omega)
  · exact slot_filled t (by omega)
  · split at last
    · cases last
    · rw [List.mem_singleton.mp last]
      exact slot_filled t (by omega)

theorem booted_rights {ram : GuestRam} {t : Tables} {h : Handoff} (flat : h.cr4.getLsbD 12 = false) (room : t.pml4+0x4000 ≤ ram.size.toNat)
    (words : Holds t ram.word) {address : U64} (physical : intended address.toNat = .physical place) (done : (host ram t h).walk ⟨(h.regs t).cr3⟩ address = .ok walk) :
    walk.effectiveWritable = true ∧ walk.effectiveUser = false := by
  have traced := PageTable.walk_traced done
  have writable := (traced.effective PageTable.PageTableEntry.writable PageTable.decode_writable).1
  have user := (traced.effective PageTable.PageTableEntry.user PageTable.decode_user).1
  obtain ⟨_,low⟩ := intended_physical _ physical
  have here := (canonical_range address.toNat).mpr (.inl (by omega))
  have steps : PageTable.tablePath (host ram t h) ⟨(h.regs t).cr3⟩ address = if Paging.canonical address.toNat 48 then visits t address.toNat else [] :=
    (booted_path h flat address (holds_wordOf room words)).2
  rw [steps,if_pos here] at writable user
  constructor
  · apply writable.mpr
    intro visit member
    obtain ⟨i,same⟩ := visits_slot t address.toNat visit member
    have there := visits_present t physical visit member
    rw [same] at there ⊢
    exact (slot_bits t i).1 there
  · apply Bool.eq_false_iff.mpr
    intro set
    have top : (entryOf t address.toNat 3).testBit 2 = true := user.mp set ⟨3,t.pml4,entryOf t address.toNat 3⟩ List.mem_cons_self
    rw [entryOf,(slot_bits t _).2] at top
    cases top

theorem host_new (ram : GuestRam) (t : Tables) (h : Handoff) :
    Walker.new ram ⟨(h.regs t).cr0⟩ ⟨(h.regs t).cr4⟩ h.longEfer = .ok (host ram t h) := by
  have paging : (⟨(h.regs t).cr0⟩ : Cr0).pagingEnabled = true := by
    have bit := Fields.flag_bit (h.regs t).cr0 (1 <<< 31) (i:=31) rfl
    rw [Cr0.pagingEnabled,bit,← BitVec.getLsbD]
    dsimp only [Handoff.regs]
    rw [BitVec.getLsbD_setWidth,BitVec.getLsbD_or,Bool.or_comm]
    rfl
  have long : h.longEfer.lma = true := by
    have bit := Fields.flag_bit h.longEfer.value (1 <<< 10) (i:=10) rfl
    rw [Efer.lma,bit,← BitVec.getLsbD]
    dsimp only [Handoff.longEfer]
    rw [BitVec.getLsbD_or,Bool.or_comm]
    rfl
  rw [Walker.new,paging,long]
  rfl

-- The tables of an image that is loaded at 1 MiB.
def lowTables : Tables := ⟨0x107000,rfl,by decide⟩

end PagingKernel
end PrincessIDE.Fixture
