import PrincessIDE.Guest.Observed

namespace PrincessIDE.Fixture
open Utf8 Str Memory Console Serial
open RunBackend Reader
open Event (Accepts)

theorem exceptionCall_smooth {front : Text} (plain : (Piece.text front).smooth = true) (v : U64) :
    (Call.printf [.text front,hexLong 2 v,lit " (",Console.str (vectorName v),lit ")"]).smooth = true := by
  have name : (Console.str (vectorName v)).smooth = true := Bool.and_eq_true_iff.mpr ⟨rfl,vectorName_smooth v⟩
  simp only [Call.smooth,List.all_cons,List.all_nil,plain,name]
  rfl

theorem refkernel_report (frame : ExceptionFrame) :
    Report "refkernel".toList frame frame.error.toNat (Refkernel.exceptionDispatch frame) := by
  have front : (literal "[refkernel] FAULT_RIP=0x").flatMap serialPutc = tagged "refkernel".toList (faultPrefix ++ "0x".toList) := by decide
  have raw := lineRaw_error refkernel_tag.fault frame
  rw [← ripCall_error_row _ front frame] at raw
  have nothing : ∀ call ∈ ([] : List Call), Mild call := fun _ none => absurd none List.not_mem_nil
  exact report_dispatch refkernel_tag ⟨rfl,rfl⟩ (exceptionCall_smooth rfl frame.vector)
    (exceptionCall_row _ (by decide) frame.vector) rfl raw rfl nothing rfl (by decide) rfl

theorem mild_pageFault (error : U64) (regs : ControlRegisters) : ∀ call ∈ PagingKernel.pageFaultLines error regs, Mild call := by
  intro call member
  simp only [PagingKernel.pageFaultLines,List.mem_cons,List.not_mem_nil,or_false] at member
  rcases member with rfl | rfl | rfl
  · exact ⟨rfl,rfl⟩
  · split <;> split <;> split
    all_goals exact ⟨rfl,rfl⟩
  · exact ⟨rfl,rfl⟩

theorem pagingkernel_report (frame : ExceptionFrame) (regs : ControlRegisters) :
    Report "pagingkernel".toList frame 0 (PagingKernel.exceptionDispatch frame regs) := by
  have front : (literal "[pagingkernel] FAULT_RIP=0x").flatMap serialPutc = tagged "pagingkernel".toList (faultPrefix ++ "0x".toList) := by decide
  have raw := lineRaw_bare pagingkernel_tag.fault frame
  rw [← ripCall_row _ front frame] at raw
  have mild : ∀ call ∈ PagingKernel.errorLines frame regs, Mild call := by
    intro call member
    rcases List.mem_cons.mp member with rfl | later
    · exact ⟨rfl,rfl⟩
    · split at later
      · exact mild_pageFault frame.error regs call later
      · cases later
  exact report_dispatch pagingkernel_tag ⟨rfl,rfl⟩ (exceptionCall_smooth rfl frame.vector)
    (exceptionCall_row _ (by decide) frame.vector) rfl raw rfl mild rfl (by decide) rfl

-- What the observer knows behind the banner.
def bannered (banner : Text) : SerialObserver := {SerialObserver.new with banner:=some banner}

-- The banner is the first line, and every line up to the next mark is passed over.
theorem watch_banner {banner : Text} (banners : detectBanner banner = some banner) (smooth : (Call.puts banner).smooth = true)
    (silent : (Call.puts banner).silent = true) : feed .new banner = ([.banner banner],bannered banner) := by
  have unmarked := (Call.puts banner).silent_unmarked smooth silent
  have found : feedBanner .new banner = ([.banner banner],bannered banner) := by
    have unseen : SerialObserver.new.banner = none := rfl
    rw [feedBanner,if_pos unseen,banners]
    rfl
  simp only [Call.row] at unmarked
  simp only [feed,found,feedPaging_unmarked unmarked.paging,feedVector_unmarked unmarked.vector,feedFault_unmarked unmarked.fault,
    feedPanic_unmarked unmarked.panicked]
  rfl

theorem refkernel_front (magic info : BitVec 32) (stamp : BuildStamp) :
    ∀ call ∈ (Refkernel.kernelMain magic info stamp).tail, Mild call := by
  intro call member
  simp only [Refkernel.kernelMain,List.tail_cons,List.mem_cons,List.not_mem_nil,or_false] at member
  rcases member with rfl | rfl | rfl | rfl | rfl
  · apply mild_boot [lit "[refkernel] multiboot: magic=0x",hexInt 8 magic,lit " info=0x",hexInt 8 info,lit " ("]
    intro name member
    simp only [List.mem_cons,List.not_mem_nil,or_false] at member
    rcases member with rfl | rfl | rfl
    all_goals exact ⟨rfl,rfl⟩
  · exact ⟨rfl,rfl⟩
  · exact mild_build rfl (List.all_eq_true.mp (by decide)) stamp
  · exact ⟨rfl,rfl⟩
  · exact ⟨rfl,rfl⟩

theorem pagingkernel_front (magic info : BitVec 32) (stamp : BuildStamp) (idtr : DescriptorRegister) :
    ∀ call ∈ PagingKernel.frontLines magic info stamp idtr, Mild call := by
  intro call member
  simp only [PagingKernel.frontLines,List.mem_cons,List.not_mem_nil,or_false] at member
  rcases member with rfl | rfl | rfl | rfl
  · apply mild_boot [lit "[pagingkernel] multiboot: magic=0x",hexInt 8 magic,lit " info=0x",hexInt 8 info,lit " ("]
    intro name member
    simp only [List.mem_cons,List.not_mem_nil,or_false] at member
    rcases member with rfl | rfl | rfl
    all_goals exact ⟨rfl,rfl⟩
  · exact mild_build rfl (List.all_eq_true.mp (by decide)) stamp
  · exact ⟨rfl,rfl⟩
  · exact ⟨rfl,rfl⟩

theorem mild_walk (e : PagingKernel.Entries) : ∀ call ∈ PagingKernel.walkLines e, Mild call := by
  have entry : ∀ label ∈ ["PML4","PDPT","PD","PT"], ∀ index raw, Mild (PagingKernel.printEntry label index raw) := by
    intro label member index raw
    simp only [List.mem_cons,List.not_mem_nil,or_false] at member
    rcases member with rfl | rfl | rfl | rfl
    all_goals exact ⟨rfl,rfl⟩
  intro call member
  simp only [PagingKernel.walkLines,List.mem_cons,List.not_mem_nil,or_false] at member
  rcases member with rfl | rfl | rfl | rfl | rfl | rfl | rfl | rfl | rfl | rfl | rfl | rfl | rfl | rfl
  · exact ⟨rfl,rfl⟩
  · exact entry "PML4" (by simp) _ _
  · exact entry "PDPT" (by simp) _ _
  · exact entry "PD" (by simp) _ _
  · exact entry "PD" (by simp) _ _
  · exact entry "PD" (by simp) _ _
  · exact entry "PT" (by simp) _ _
  · exact entry "PT" (by simp) _ _
  · exact entry "PT" (by simp) _ _
  all_goals exact ⟨rfl,rfl⟩

theorem mild_gdt {base : U64} {lines : List Call} (read : PagingKernel.gdtLines ram base slots = some lines) : ∀ call ∈ lines, Mild call := by
  induction slots generalizing lines with
  | nil =>
    obtain rfl := Option.some.inj read
    exact fun _ none => absurd none List.not_mem_nil
  | cons i later ih =>
    obtain ⟨raw,_,rest⟩ := Option.bind_eq_some_iff.mp read
    obtain ⟨behind,further,shape⟩ := Option.bind_eq_some_iff.mp rest
    obtain rfl := Option.some.inj shape
    intro call member
    rcases List.mem_cons.mp member with rfl | inside
    · exact ⟨rfl,rfl⟩
    · exact ih further call inside

theorem mild_descriptors {lines : List Call} (read : PagingKernel.reportDescriptors ram gdtr idtr = some lines) : ∀ call ∈ lines, Mild call := by
  obtain ⟨slots,gdt,rest⟩ := Option.bind_eq_some_iff.mp read
  obtain ⟨gate,_,shape⟩ := Option.bind_eq_some_iff.mp rest
  obtain rfl := Option.some.inj shape
  intro call member
  simp only [List.cons_append,List.mem_cons,List.mem_append,List.not_mem_nil,or_false] at member
  rcases member with rfl | rfl | inside | rfl
  · exact ⟨rfl,rfl⟩
  · exact ⟨rfl,rfl⟩
  · exact mild_gdt gdt call inside
  · exact ⟨rfl,rfl⟩

theorem mild_state (regs : ControlRegisters) : ∀ call ∈ PagingKernel.stateLines regs ++ PagingKernel.enabledLines regs, Mild call := by
  intro call member
  simp only [PagingKernel.stateLines,PagingKernel.enabledLines,List.cons_append,List.nil_append,List.mem_cons,List.not_mem_nil,or_false] at member
  rcases member with rfl | rfl | rfl | rfl
  all_goals exact ⟨rfl,rfl⟩

-- The fault that a host makes of a frame, with its error code as the host reads it.
def hostFault (frame : ExceptionFrame) (error : Nat) : RawFault :=
  ⟨some (frame.vector.toNat % u32),Serial.vectorName (frame.vector.toNat % u32),frame.rip.toNat,hexWord 16 frame.rip,error,
    some (hexWord 4 frame.cs),some (hexWord 16 frame.rflags)⟩

theorem hostFault_named (frame : ExceptionFrame) (error : Nat) :
    named (readFrame frame error) (frame.vector.toNat % u32,Serial.vectorName (frame.vector.toNat % u32)) = hostFault frame error := rfl

def faultGate (paging : Option Bool) (f : RawFault) : PageFaultGate :=
  gateFor {SerialObserver.new with pagingEnabled:=paging} f

-- What is left of a whole run: the banner, the paging state and the only fault.
def ended (banner : Text) (paging : Option Bool) (f : RawFault) : SerialObserver :=
  ⟨some banner,true,paging,f.vectorNumber.map (·,f.vector),some f,1,some (faultGate paging f)⟩

theorem watch_whole {middle last : List Call} (start : feed .new banner = ([.banner banner],bannered banner))
    (between : watch (bannered banner) (middle.map Call.row) = (seen,{bannered banner with pagingEnabled:=paging}))
    (report : Report kernel frame error last) : watch .new ((.puts banner :: middle ++ last).map Call.row) =
      (.banner banner :: seen ++ [.fault (hostFault frame error),.panicked],ended banner paging (hostFault frame error)) := by
  have known : {bannered banner with pagingEnabled:=paging}.banner ≠ none := by simp [bannered]
  have rest := report.watched {bannered banner with pagingEnabled:=paging} known rfl
  rw [hostFault_named] at rest
  rw [List.map_append,List.map_cons,watch_append,watch]
  simp only [Call.row,start,between,rest]
  rfl

theorem refkernel_watched (magic info : BitVec 32) (stamp : BuildStamp) (frame : ExceptionFrame) :
    (Refkernel.run magic info stamp frame).all Call.smooth = true ∧
    watch .new ((Refkernel.run magic info stamp frame).map Call.row) =
      ([.banner Refkernel.banner,.fault (hostFault frame frame.error.toNat),.panicked],
        ended Refkernel.banner none (hostFault frame frame.error.toNat)) := by
  have report := refkernel_report frame
  have front := refkernel_front magic info stamp
  have start : feed .new Refkernel.banner = ([.banner Refkernel.banner],bannered Refkernel.banner) := watch_banner (by decide) rfl rfl
  have quiet := watch_mild (o:=bannered Refkernel.banner) (by simp [bannered]) front
  constructor
  · have smooth : (Call.puts Refkernel.banner :: (Refkernel.kernelMain magic info stamp).tail ++ Refkernel.exceptionDispatch frame).all Call.smooth = true := by
      rw [List.all_append,List.all_cons,report.smooth,List.all_eq_true.mpr fun call member => (front call member).1]
      rfl
    exact smooth
  · exact watch_whole start quiet report

theorem low_bit (x : U64) : x &&& 1 = .ofNat 64 (x.getLsbD 0).toNat := by
  apply BitVec.eq_of_toNat_eq
  have one : (1 : U64).toNat = 2^1-1 := rfl
  rw [BitVec.toNat_and,one,Nat.and_two_pow_sub_one_eq_mod,BitVec.getLsbD,Nat.testBit_zero]
  rcases Nat.mod_two_eq_zero_or_one x.toNat with even | odd
  · simp [even]
  · simp [odd]

-- The line of the paging state, by the three bits it prints.
def pagingCall (pg pe pae : Bool) : Call :=
  .printf [lit "[pagingkernel] CR0.PG=",decLong (.ofNat 64 pg.toNat),lit " CR0.PE=",decLong (.ofNat 64 pe.toNat),
    lit " CR4.PAE=",decLong (.ofNat 64 pae.toNat)]

theorem pagingLine_bits (regs : ControlRegisters) :
    PagingKernel.pagingLine regs = pagingCall (regs.cr0.getLsbD 31) (regs.cr0.getLsbD 0) (regs.cr4.getLsbD 5) := by
  rw [PagingKernel.pagingLine,low_bit,low_bit,low_bit,BitVec.getLsbD_ushiftRight,BitVec.getLsbD_ushiftRight]
  rfl

theorem feed_pagingCall (known : o.banner ≠ none) (unknown : o.pagingEnabled = none) (pg pe pae : Bool) :
    feed o (pagingCall pg pe pae).row = ([.pagingState pg],{o with pagingEnabled:=some pg}) := by
  have marks : ∀ pg pe pae, contains pagingEnabledMarker (pagingCall pg pe pae).row = pg ∧
      contains pagingDisabledMarker (pagingCall pg pe pae).row = !pg := by decide +kernel
  have lacks : ([exceptionPrefix,faultPrefix,panicPrefix].all fun pat => pat.any (pagingCall pg pe pae).lacks) = true := rfl
  have absent : ∀ pat ∈ [exceptionPrefix,faultPrefix,panicPrefix], splitOnce pat (pagingCall pg pe pae).row = none :=
    fun pat member => call_absent rfl (List.all_eq_true.mp lacks pat member)
  have found : feedPaging o (pagingCall pg pe pae).row = ([.pagingState pg],{o with pagingEnabled:=some pg}) := by
    rw [feedPaging,(marks pg pe pae).1,(marks pg pe pae).2,unknown]
    cases pg <;> rfl
  simp only [feed,feedBanner_known known,found,feedVector_unmarked (absent _ (by simp)),feedFault_unmarked (absent _ (by simp)),
    feedPanic_unmarked (contains_none (absent _ (by simp)))]
  rfl

-- The lines between the banner and the fault: all but the paging state are passed over.
theorem watch_paging {front back : List Call} (frontMild : ∀ call ∈ front, Mild call) (backMild : ∀ call ∈ back, Mild call)
    (banner : Text) (regs : ControlRegisters) : watch (bannered banner) ((front ++ PagingKernel.pagingLine regs :: back).map Call.row) =
      ([.pagingState (regs.cr0.getLsbD 31)],{bannered banner with pagingEnabled:=some (regs.cr0.getLsbD 31)}) := by
  have quiet := watch_mild (o:=bannered banner) (by simp [bannered]) frontMild
  have paging := feed_pagingCall (o:=bannered banner) (by simp [bannered]) rfl (regs.cr0.getLsbD 31) (regs.cr0.getLsbD 0) (regs.cr4.getLsbD 5)
  have later := watch_mild (o:={bannered banner with pagingEnabled:=some (regs.cr0.getLsbD 31)}) (by simp [bannered]) backMild
  rw [List.map_append,List.map_cons,watch_append,quiet,watch,pagingLine_bits,paging,later]
  rfl

theorem pagingkernel_watched (ran : PagingKernel.run m stamp frame = some calls) :
    calls.all Call.smooth = true ∧
    watch .new (calls.map Call.row) =
      ([.banner PagingKernel.banner,.pagingState (m.regs.cr0.getLsbD 31),.fault (hostFault frame 0),.panicked],
        ended PagingKernel.banner (some (m.regs.cr0.getLsbD 31)) (hostFault frame 0)) := by
  obtain ⟨main,booted,rfl⟩ := Option.map_eq_some_iff.mp ran
  obtain ⟨lines,reports,shape⟩ := Option.bind_eq_some_iff.mp booted
  obtain rfl := Option.some.inj shape
  obtain ⟨entries,_,rest⟩ := Option.bind_eq_some_iff.mp reports
  obtain ⟨descriptors,described,shape⟩ := Option.bind_eq_some_iff.mp rest
  obtain rfl := Option.some.inj shape
  have report := pagingkernel_report frame m.atFault
  have state := mild_state m.regs
  have front : ∀ call ∈ PagingKernel.frontLines m.magic m.info stamp m.idtr ++ PagingKernel.stateLines m.regs, Mild call := by
    intro call member
    rcases List.mem_append.mp member with boot | inside
    · exact pagingkernel_front m.magic m.info stamp m.idtr call boot
    · exact state call (List.mem_append_left _ inside)
  have back : ∀ call ∈ PagingKernel.walkLines entries ++ descriptors ++ PagingKernel.enabledLines m.regs ++ [PagingKernel.probeLine], Mild call := by
    intro call member
    simp only [List.mem_append,List.mem_singleton] at member
    rcases member with ((walk | descriptor) | enabled) | rfl
    · exact mild_walk entries call walk
    · exact mild_descriptors described call descriptor
    · exact state call (List.mem_append_right _ enabled)
    · exact ⟨rfl,rfl⟩
  have start : feed .new PagingKernel.banner = ([.banner PagingKernel.banner],bannered PagingKernel.banner) := watch_banner (by decide) rfl rfl
  have whole : Call.puts PagingKernel.banner :: PagingKernel.frontLines m.magic m.info stamp m.idtr ++
      (PagingKernel.stateLines m.regs ++ PagingKernel.pagingLine m.regs :: PagingKernel.walkLines entries ++ descriptors ++
        PagingKernel.enabledLines m.regs) ++ [PagingKernel.probeLine] ++ PagingKernel.exceptionDispatch frame m.atFault =
      .puts PagingKernel.banner :: ((PagingKernel.frontLines m.magic m.info stamp m.idtr ++ PagingKernel.stateLines m.regs) ++
        PagingKernel.pagingLine m.regs :: (PagingKernel.walkLines entries ++ descriptors ++ PagingKernel.enabledLines m.regs ++ [PagingKernel.probeLine])) ++
          PagingKernel.exceptionDispatch frame m.atFault := by simp
  rw [whole]
  constructor
  · rw [List.all_append,List.all_cons,List.all_append,List.all_cons,report.smooth,List.all_eq_true.mpr fun call member => (front call member).1,
      List.all_eq_true.mpr fun call member => (back call member).1]
    rfl
  · exact watch_whole start (watch_paging front back PagingKernel.banner m.regs) report

-- What the host makes of a guest's output: the observer of its lines, and the run
-- backend however the reader of the serial pipe cut the bytes into chunks.
structure Attributed (out : Text) (seen : List SerialObservation) (o : SerialObserver) : Prop where
  watched : watch .new (lines (lossy (wire out))) = (seen,o)
  sent : ∀ sink symbols schedule chunks, Accepts sink → read schedule = wire out → Aligned schedule → Delivers schedule chunks →
    RunBackend.faults sink symbols chunks = (seenFaults seen).map (payloadOf symbols)

theorem found_watch (o : SerialObserver) (rows : List Text) : found o rows = seenFaults (watch o rows).1 := by
  induction rows generalizing o with
  | nil => rfl
  | cons row rows ih =>
    rw [found,watch,ih]
    exact (List.filterMap_append ..).symm

theorem run_attributed {calls : List Call} (smooth : calls.all Call.smooth = true) (watched : watch .new (calls.map Call.row) = (seen,o))
    (few : (seenFaults seen).length ≤ maxFaultEvents) : ∃ out, Console.sent calls = some out ∧ Attributed out seen o := by
  have read := wire_lines smooth
  refine ⟨_,sent_rows smooth,by rw [read,watched],?_⟩
  intro sink symbols schedule chunks accepts whole aligned delivers
  have none : Capped symbols [] .new := ⟨rfl,rfl⟩
  have capped := (lines_capped (calls.map Call.row) none).1
  have start : Tally.new.observer = .new := rfl
  rw [List.nil_append,start,found_watch,watched,List.take_of_length_le few] at capped
  rw [aligned_faults accepts symbols aligned delivers,whole,read]
  exact capped

end PrincessIDE.Fixture
