import PrincessIDE.Guest.Interrupts

namespace PrincessIDE.Fixture
open Utf8 Str Memory Overlay Descriptor Serial
open RunBackend Reader
open Event (Accepts)
open PageTable (Answers)

-- No store of a list touches so many bytes at a place.
def Spares (stores : List (Nat × Raw)) (place len : Nat) : Prop :=
  ∀ store ∈ stores, store.1+store.2.length ≤ place ∨ place+len ≤ store.1

theorem Spares.leaves (spares : Spares stores place len) (low : place ≤ other) (high : other+size ≤ place+len) : Leaves stores other size := by
  intro k inside
  induction stores using List.reverseRecOn with
  | nil => rfl
  | append_singleton before store ih =>
    have apart := spares store (List.mem_append_right _ (List.mem_singleton_self _))
    rw [lastLaid_append,lastLaid_single,laid_outside (by omega),Option.none_or]
    exact ih fun store member => spares store (List.mem_append_left _ member)

namespace PagingKernel

section
variable {first : GuestRam} {t : Tables} {more : List (Nat × Raw)}

theorem start_holds (leaves : ∀ i < 2048, Leaves more (t.pml4+8*i) 8) : Holds t (stored first (t.start ++ more)).word := by
  intro i inside
  obtain ⟨low,lays,value⟩ := start_lays t inside
  have room := t.room
  have left := leaves i inside
  rw [← entryBytes_length low] at left
  rw [stored_word (lays.kept left) (by omega) (entryBytes_length low),leBytes_entry,value]

end

theorem load_slot {ram : GuestRam} {t : Tables} (holds : Holds t ram.word) (room : t.pml4+0x4000 ≤ ram.size.toNat) {table : U64}
    (place : table.toNat+8*index = t.pml4+8*i) (small : i < 2048) : load ram table index = some (.ofNat 64 (t.slot i)) := by
  have low := t.room
  have address : (table + .ofNat 64 (8*index)).toNat = t.pml4+8*i := by
    rw [BitVec.toNat_add,BitVec.toNat_ofNat]
    omega
  rw [load,ram.readU64_word _ (by rw [address]; omega),address,holds i small]
  rfl

theorem masked_table (aligned : table % 4096 = 0) (room : table < 2^32) (small : flags < 4096) :
    (BitVec.ofNat 64 (table+flags) &&& entryAddrMask) = .ofNat 64 table := by
  have whole : (BitVec.ofNat 64 (table+flags)).toNat = table+flags := by
    rw [BitVec.toNat_ofNat]
    omega
  have frame : (BitVec.ofNat 64 (table+flags) &&& entryAddrMask).toNat = Paging.frame 12 (BitVec.ofNat 64 (table+flags)).toNat :=
    PageTable.mask_frame _ (by decide) rfl
  rw [whole,frame_whole aligned (by omega) small (by decide)] at frame
  apply BitVec.eq_of_toNat_eq
  rw [frame,BitVec.toNat_ofNat]
  omega

-- The entries that the kernel's own report shows.
def shown (t : Tables) : Entries := ⟨.ofNat 64 (t.slot 0),.ofNat 64 (t.slot 512),.ofNat 64 (t.slot 1024),.ofNat 64 (t.slot 1025),.ofNat 64 (t.slot 1026),
  .ofNat 64 (t.slot 1536),.ofNat 64 (t.slot 2046),.ofNat 64 (t.slot 2047)⟩

theorem readEntries_shown {ram : GuestRam} {t : Tables} (holds : Holds t ram.word) (room : t.pml4+0x4000 ≤ ram.size.toNat) (h : Handoff) :
    readEntries ram (h.regs t).cr3 = some (shown t) := by
  have aligned := t.aligned
  have low := t.room
  have pdptWhole : t.pdpt % 4096 = 0 ∧ t.pdpt < 2^32 := by
    unfold Tables.pdpt
    omega
  have pdWhole : t.pd % 4096 = 0 ∧ t.pd < 2^32 := by
    unfold Tables.pd
    omega
  have ptWhole : t.pt % 4096 = 0 ∧ t.pt < 2^32 := by
    unfold Tables.pt
    omega
  have below : t.pml4 < 2^32 := by omega
  have same : BitVec.ofNat 64 (t.pml4+0) &&& entryAddrMask = .ofNat 64 t.pml4 := masked_table aligned below (by decide)
  have root : (h.regs t).cr3 &&& entryAddrMask = .ofNat 64 t.pml4 := same
  have pdpt : BitVec.ofNat 64 (t.slot 0) &&& entryAddrMask = .ofNat 64 t.pdpt := masked_table pdptWhole.1 pdptWhole.2 (by decide)
  have pd : BitVec.ofNat 64 (t.slot 512) &&& entryAddrMask = .ofNat 64 t.pd := masked_table pdWhole.1 pdWhole.2 (by decide)
  have pt : BitVec.ofNat 64 (t.slot 1024) &&& entryAddrMask = .ofNat 64 t.pt := masked_table ptWhole.1 ptWhole.2 (by decide)
  have loads : ∀ table index i, table+8*index = t.pml4+8*i → i < 2048 → load ram (.ofNat 64 table) index = some (.ofNat 64 (t.slot i)) := by
    intro table index i place small
    apply load_slot holds room _ small
    rw [BitVec.toNat_ofNat]
    omega
  unfold Tables.pdpt at pdpt
  unfold Tables.pd at pd
  unfold Tables.pt at pt
  rw [readEntries,root,loads t.pml4 0 0 rfl (by decide)]
  dsimp only [bind,Option.bind]
  rw [pdpt,loads (t.pml4+0x1000) 0 512 (by omega) (by decide)]
  dsimp only
  rw [pd,loads (t.pml4+0x2000) 0 1024 (by omega) (by decide)]
  dsimp only
  rw [pt,loads (t.pml4+0x2000) 1 1025 (by omega) (by decide)]
  dsimp only
  rw [loads (t.pml4+0x2000) 2 1026 (by omega) (by decide)]
  dsimp only
  rw [loads (t.pml4+0x3000) 0 1536 (by omega) (by decide)]
  dsimp only
  rw [loads (t.pml4+0x3000) 510 2046 (by omega) (by decide)]
  dsimp only
  rw [loads (t.pml4+0x3000) 511 2047 (by omega) (by decide)]
  rfl

-- A report is read off RAM where the GDT and the IDT lie in it.
theorem gdtLines_some (slots : List Nat) (inside : ∀ i ∈ slots, base.toNat+8*i+8 ≤ ram.size.toNat) : ∃ lines, gdtLines ram base slots = some lines := by
  induction slots with
  | nil => exact ⟨[],rfl⟩
  | cons i later ih =>
    obtain ⟨rest,further⟩ := ih fun j member => inside j (List.mem_cons_of_mem _ member)
    have here := inside i List.mem_cons_self
    have top := ram.size.isLt
    have address : (base + .ofNat 64 (8*i)).toNat = base.toNat+8*i := by
      rw [BitVec.toNat_add,BitVec.toNat_ofNat]
      omega
    have read : load ram base i = some (.ofNat 64 (ram.word (base.toNat+8*i))) := by
      rw [load,ram.readU64_word _ (by omega),address]
      rfl
    rw [gdtLines,read]
    dsimp only [bind,Option.bind]
    rw [further]
    exact ⟨_,rfl⟩

-- Where the linker and the loader put what the kernel works with.
structure Layout (size : Nat) (t : Tables) (base : Nat) (gdtr : DescriptorRegister) : Prop where
  tables : t.pml4+0x4000 ≤ size
  idt : base+4096 ≤ size
  gdt : gdtr.base.toNat+gdtr.limit.toNat+1 ≤ size
  apart : base+4096 ≤ t.pml4 ∨ t.pml4+0x4000 ≤ base

section
variable {ram : GuestRam} {t : Tables} {base : Nat} {gdtr : DescriptorRegister} (layout : Layout ram.size.toNat t base gdtr)
include layout

theorem descriptors_some : ∃ lines, reportDescriptors ram gdtr (idtr base) = some lines := by
  have top := ram.size.isLt
  obtain ⟨_,idt,gdt,_⟩ := layout
  have slots : ∀ i ∈ List.range ((gdtr.limit.toNat+1)/8), gdtr.base.toNat+8*i+8 ≤ ram.size.toNat := by
    intro i member
    have below := List.mem_range.mp member
    omega
  obtain ⟨lines,read⟩ := gdtLines_some _ slots
  have address : ((idtr base).base + 14*16).toNat = base+224 := by
    have offset : (14*16 : U64).toNat = 224 := rfl
    have start : (idtr base).base.toNat = base := by
      rw [idtr,BitVec.toNat_ofNat,Nat.mod_eq_of_lt (by omega)]
    rw [BitVec.toNat_add,offset,start,Nat.mod_eq_of_lt (by omega)]
  obtain ⟨gate,bytes⟩ : ∃ gate, ram.readBytes ((idtr base).base + 14*16) 12 = .ok gate := readBytes_inside (by omega)
  rw [reportDescriptors,read]
  dsimp only [bind,Option.bind]
  rw [loadBytes,bytes]
  exact ⟨_,rfl⟩

theorem run_some (holds : Holds t ram.word) (h : Handoff) (magic info : BitVec 32) (stamp : BuildStamp) (atFault : ControlRegisters) (frame : ExceptionFrame) :
    ∃ calls, PagingKernel.run ⟨magic,info,ram,h.regs t,gdtr,idtr base,atFault⟩ stamp frame = some calls := by
  obtain ⟨lines,described⟩ := descriptors_some layout
  rw [PagingKernel.run,kernelMain,pagingReport]
  dsimp only
  rw [readEntries_shown holds layout.tables h]
  dsimp only [bind,Option.bind]
  rw [described]
  exact ⟨_,rfl⟩

end

theorem regs_paging (h : Handoff) (t : Tables) : (h.regs t).cr0.getLsbD 31 = true := by
  dsimp only [Handoff.regs]
  rw [BitVec.getLsbD_setWidth,BitVec.getLsbD_or,Bool.or_comm]
  rfl

-- RAM when the probe runs: the tables, what was stored until the IDT, the IDT and
-- what was stored from then on.
def bootedRam (first : GuestRam) (t : Tables) (base : Nat) (stubs : Stubs) (between after : List (Nat × Raw)) : GuestRam :=
  stored first (t.start ++ (between ++ idtInit base stubs ++ after))

section
variable {first : GuestRam} {t : Tables} {base : Nat} {gdtr : DescriptorRegister} {between after : List (Nat × Raw)} (stubs : Stubs)

theorem booted_holds (layout : Layout first.size.toNat t base gdtr) (fore : Spares between t.pml4 0x4000) (aft : Spares after t.pml4 0x4000) :
    Holds t (bootedRam first t base stubs between after).word := by
  have apart := layout.apart
  apply start_holds
  intro i inside
  apply Leaves.both
  · apply Leaves.both
    · exact fore.leaves (by omega) (by omega)
    · apply idtInit_leaves
      omega
  · exact aft.leaves (by omega) (by omega)

theorem booted_image (layout : Layout first.size.toNat t base gdtr) (aft : Spares after base 4096) :
    Image (bootedRam first t base stubs between after) (.ofNat 64 base) (gateTable stubs) := by
  apply gates_image layout.idt
  intro vector small
  have left : Leaves after (base+16*vector) (gateEntry (stubs (stubOf vector))).bytes.length := by
    rw [bytes_length]
    exact aft.leaves (by omega) (by omega)
  exact (((idtInit_lays stubs base small).last between).kept left).last t.start

end

-- The tables of an image at 1 MiB, its IDT behind them and its GDT before them.
theorem lowLayout : Layout (blankRam 0x8000000).size.toNat lowTables 0x10C000 ⟨39,0x106000⟩ := ⟨by decide,by decide,by decide,by decide⟩

-- The paging kernel from boot.S to the halt, whatever else it stores elsewhere.
-- The probe address is the hole that the host's walker finds there, and the page
-- fault that the CPU raises for it goes through the IDT and the serial port to a
-- host that takes it for confirmed.
theorem probe_seen (first : GuestRam) (t : Tables) (h : Handoff) (flat : h.cr4.getLsbD 12 = false) (stubs : Stubs) (distinct : Function.Injective stubs)
    (base : Nat) (gdtr : DescriptorRegister) (layout : Layout first.size.toNat t base gdtr) (between after : List (Nat × Raw))
    (spared : Spares between t.pml4 0x4000 ∧ Spares after t.pml4 0x4000 ∧ Spares after base 4096)
    (cpu : Cpu) (magic info : BitVec 32) (stamp : BuildStamp) :
    Answers ((host (bootedRam first t base stubs between after) t h).walk ⟨(h.regs t).cr3⟩ unmappedAddr) (.notPresent 1) ∧
    ∃ frame calls out, deliver (bootedRam first t base stubs between after) (idtr base) stubs cpu (.exception 14 0) = some frame ∧
      PagingKernel.run ⟨magic,info,bootedRam first t base stubs between after,h.regs t,gdtr,idtr base,{h.regs t with cr2:=unmappedAddr}⟩
        stamp frame = some calls ∧
      Console.sent calls = some out ∧
      Attributed out [.banner banner,.pagingState true,.fault (causeFault cpu (.exception 14 0) 0),.panicked]
        (ended banner (some true) (causeFault cpu (.exception 14 0) 0)) ∧
      faultGate (some true) (causeFault cpu (.exception 14 0) 0) = .pagingConfirmed := by
  obtain ⟨fore,aft,kept⟩ := spared
  have holds := booted_holds stubs layout fore aft
  have image : Image (bootedRam first t base stubs between after) (.ofNat 64 base) (gateTable stubs) := booted_image stubs layout kept
  have size : (bootedRam first t base stubs between after).size = first.size := stored_size _ _
  generalize bootedRam first t base stubs between after = ram at holds image size ⊢
  rw [← size] at layout
  have hole : intended unmappedAddr.toNat = .notPresent 1 := rfl
  have answers := booted_answers layout.tables holds h flat unmappedAddr (by rw [hole]; intro _ other; cases other)
  rw [hole] at answers
  obtain ⟨calls,ran⟩ := run_some layout holds h magic info stamp {h.regs t with cr2:=unmappedAddr} (frameOf cpu (.exception 14 0))
  obtain ⟨smooth,watched⟩ := pagingkernel_watched ran
  have told := @hostFault_clear cpu (.exception 14 0) trivial 0
  rw [regs_paging,told] at watched
  obtain ⟨out,sent,attributed⟩ := run_attributed smooth watched (Nat.le_of_ble_eq_true rfl)
  exact ⟨answers,_,calls,out,deliver_image distinct image cpu _,ran,sent,attributed,rfl⟩

theorem probe_seen_low : ∃ out, Attributed out [.banner banner,.pagingState true,.fault (causeFault probeCpu (.exception 14 0) 0),.panicked]
    (ended banner (some true) (causeFault probeCpu (.exception 14 0) 0)) := by
  obtain ⟨_,_,_,out,_,_,_,attributed,_⟩ := probe_seen (blankRam 0x8000000) lowTables ⟨0x11,0,0,0⟩ rfl rowOfStubs rowOfStubs_distinct 0x10C000 ⟨39,0x106000⟩
    lowLayout [] [(0x200000,[1,2,3])] ⟨by simp [Spares],by simp [Spares,lowTables],by simp [Spares]⟩ probeCpu 0x36D76289 0x9500 ⟨0,1,2024,0,0,0⟩
  exact ⟨out,attributed⟩

end PagingKernel
end PrincessIDE.Fixture
