import PrincessIDE.Bin.GuestMemory
import PrincessIDE.Foundation.Overlay
import Mathlib.Data.List.Induction

namespace PrincessIDE.Memory
open Overlay

namespace GuestRam

def writeByte (ram : GuestRam) (address : U64) (value : BitVec 8) : GuestRam × Except MemoryError Unit :=
  if ram.size ≤ address then (ram,.error (.notInRam address))
  else ({ram with bytes:=fun other => if other = address then some value else ram.bytes other},.ok ())

-- The loop of both longer writes: byte by byte, up to the first that is refused.
def writeFrom (ram : GuestRam) (address : U64) (index : Nat) : List (BitVec 8) → GuestRam × Except MemoryError Unit
  | [] => (ram,.ok ())
  | byte :: rest =>
    match ram.writeByte (address + .ofNat 64 index) byte with
    | (ram,.ok ()) => ram.writeFrom address (index+1) rest
    | (ram,.error refused) => (ram,.error refused)

def writeU64 (ram : GuestRam) (address value : U64) : GuestRam × Except MemoryError Unit :=
  ram.writeFrom address 0 ((List.range 8).map fun index => (value >>> (index*8)).setWidth 8)

def writeBytes (ram : GuestRam) (address : U64) (data : List (BitVec 8)) : GuestRam × Except MemoryError Unit :=
  ram.writeFrom address 0 data

-- What a read finds at an address.
def cell (ram : GuestRam) (address : U64) : BitVec 8 := (ram.bytes address).getD 0

end GuestRam

inductive Write where
  | byte (address : U64) (value : BitVec 8)
  | word (address value : U64)
  | slice (address : U64) (data : List (BitVec 8))
deriving DecidableEq, Repr

namespace Write

def address : Write → U64
  | byte address _ => address
  | word address _ => address
  | slice address _ => address

def data : Write → List (BitVec 8)
  | byte _ value => [value]
  | word _ value => (List.range 8).map fun index => (value >>> (index*8)).setWidth 8
  | slice _ data => data

def perform (ram : GuestRam) : Write → GuestRam × Except MemoryError Unit
  | byte address value => ram.writeByte address value
  | word address value => ram.writeU64 address value
  | slice address data => ram.writeBytes address data

end Write

-- One write of a run, which keeps beside the RAM what was answered with `Ok`.
def record (state : GuestRam × List (Nat × List (BitVec 8))) (write : Write) : GuestRam × List (Nat × List (BitVec 8)) :=
  match write.perform state.1 with
  | (ram,.ok ()) => (ram,state.2 ++ [(write.address.toNat,write.data)])
  | (ram,.error _) => (ram,state.2)

def written (ram : GuestRam) (writes : List Write) : GuestRam × List (Nat × List (BitVec 8)) := writes.foldl record (ram,[])

-- The byte that was last written at an address, or the one that was there first.
def remembered (first : GuestRam) (done : List (Nat × List (BitVec 8))) (address : U64) : BitVec 8 :=
  (lastLaid done address.toNat).getD (first.cell address)

structure Kept (first : GuestRam) (writes : List Write) : Prop where
  slices : ∀ head, head <+: writes → ∀ address len bytes, (written first head).1.readBytes address len = .ok bytes →
    bytes = (List.range len).map fun k => remembered first (written first head).2 (address + .ofNat 64 k)
  words : ∀ head, head <+: writes → ∀ address value, (written first head).1.readU64 address = .ok value →
    ∀ k < 8, (value >>> (k*8)).setWidth 8 = remembered first (written first head).2 (address + .ofNat 64 k)
  readable : ∀ head, head <+: writes → ∀ address len, address.toNat+len ≤ first.size.toNat →
    ∃ bytes, (written first head).1.readBytes address len = .ok bytes
  whole : ∀ head write, head ++ [write] <+: writes → ∀ refused, (write.perform (written first head).1).2 = .error refused →
    ∀ address, (write.perform (written first head).1).1.cell address = (written first head).1.cell address

-- The write stays inside RAM, or what it has inside RAM stands there already.
def Harmless (ram : GuestRam) (write : Write) : Prop :=
  write.address.toNat+write.data.length ≤ ram.size.toNat ∨
    ∀ k byte, write.data[k]? = some byte → write.address.toNat+k < ram.size.toNat → ram.cell (write.address + .ofNat 64 k) = byte

theorem perform_loop (ram : GuestRam) (write : Write) : write.perform ram = ram.writeFrom write.address 0 write.data := by
  cases write with
  | word address value => rfl
  | slice address data => rfl
  | byte address value =>
    have start : address + BitVec.ofNat 64 0 = address := BitVec.add_zero address
    change ram.writeByte address value = ram.writeFrom address 0 [value]
    rw [GuestRam.writeFrom,start]
    unfold GuestRam.writeByte
    by_cases outside : ram.size ≤ address
    · simp only [outside,if_true]
    · simp only [outside,if_false,GuestRam.writeFrom]

-- Where the loop ends and what it leaves: by induction on the bytes, whose
-- addresses stay below 2^64 because those before them lay in RAM.
theorem writeFrom_spec (ram : GuestRam) (address : U64) (index : Nat) (data : List (BitVec 8)) (small : address.toNat+index < 2^64) :
    (ram.writeFrom address index data).1.size = ram.size ∧
    (∀ place, (ram.writeFrom address index data).1.cell place =
      (laid (address.toNat+index,data.take (ram.size.toNat-(address.toNat+index))) place.toNat).getD (ram.cell place)) ∧
    ((ram.writeFrom address index data).2 = .ok () ↔ data = [] ∨ address.toNat+index+data.length ≤ ram.size.toNat) := by
  induction data generalizing index ram with
  | nil => simp [GuestRam.writeFrom,laid]
  | cons byte rest ih =>
    have here : (address + .ofNat 64 index : U64).toNat = address.toNat+index := by
      rw [BitVec.toNat_add,BitVec.toNat_ofNat,Nat.add_mod_mod,Nat.mod_eq_of_lt small]
    have top := ram.size.isLt
    rw [GuestRam.writeFrom]
    unfold GuestRam.writeByte
    by_cases outside : ram.size ≤ address + .ofNat 64 index
    · have above : ram.size.toNat ≤ address.toNat+index := here ▸ BitVec.le_def.mp outside
      simp only [outside,if_true]
      refine ⟨trivial,fun place => ?_,?_⟩
      · rw [Nat.sub_eq_zero_of_le above]
        simp [laid]
      · simp
        omega
    · have below : address.toNat+index < ram.size.toNat := by
        have := mt BitVec.le_def.mpr outside
        omega
      simp only [outside,if_false]
      obtain ⟨size,cells,answer⟩ := ih {ram with bytes:=fun other => if other = address + .ofNat 64 index then some byte else ram.bytes other}
        (index+1) (by omega)
      refine ⟨size,fun place => ?_,?_⟩
      · rw [cells place]
        obtain ⟨room,more⟩ := Nat.exists_eq_add_of_lt below
        have left : ram.size.toNat-(address.toNat+index) = room+1 := by omega
        have left' : ram.size.toNat-(address.toNat+(index+1)) = room := by omega
        dsimp only
        rw [left,left',List.take_succ_cons,laid_cons]
        by_cases same : place = address + .ofNat 64 index
        · subst same
          rw [here,if_pos rfl]
          simp [laid,GuestRam.cell]
        · have apart : ¬ place.toNat = address.toNat+index := fun both => same (BitVec.eq_of_toNat_eq (both.trans here.symm))
          rw [if_neg apart,Nat.add_assoc]
          simp [GuestRam.cell,same]
      · rw [answer,← List.length_eq_zero_iff,← List.length_eq_zero_iff]
        simp only [List.length_cons]
        omega

theorem perform_spec (ram : GuestRam) (write : Write) :
    (write.perform ram).1.size = ram.size ∧
    (∀ place, (write.perform ram).1.cell place =
      (laid (write.address.toNat,write.data.take (ram.size.toNat-write.address.toNat)) place.toNat).getD (ram.cell place)) ∧
    ((write.perform ram).2 = .ok () ↔ write.data = [] ∨ write.address.toNat+write.data.length ≤ ram.size.toNat) := by
  rw [perform_loop]
  exact writeFrom_spec ram write.address 0 write.data write.address.isLt

theorem perform_taken {write : Write} (taken : (write.perform ram).2 = .ok ()) (place : U64) :
    (write.perform ram).1.cell place = (laid (write.address.toNat,write.data) place.toNat).getD (ram.cell place) := by
  obtain ⟨_,cells,answer⟩ := perform_spec ram write
  rw [cells place]
  rcases answer.mp taken with none | inside
  · rw [none,List.take_nil]
  · rw [List.take_of_length_le (by omega)]

-- A refused write leaves RAM as it was exactly where it is harmless.
theorem perform_refused {write : Write} (refused : (write.perform ram).2 = .error e) :
    (∀ place, (write.perform ram).1.cell place = ram.cell place) ↔ Harmless ram write := by
  obtain ⟨_,cells,answer⟩ := perform_spec ram write
  have outside : ¬ (write.data = [] ∨ write.address.toNat+write.data.length ≤ ram.size.toNat) := by
    rw [← answer,refused]
    exact fun same => nomatch same
  have index : ∀ k, write.address.toNat+k < ram.size.toNat → (write.address + .ofNat 64 k : U64).toNat = write.address.toNat+k := by
    intro k inside
    have top := ram.size.isLt
    rw [BitVec.toNat_add,BitVec.toNat_ofNat,Nat.add_mod_mod,Nat.mod_eq_of_lt (by omega)]
  constructor
  · intro same
    refine .inr fun k byte here inside => ?_
    have place := (same (write.address + .ofNat 64 k)).symm.trans (cells _)
    rw [index k inside] at place
    have short : k < ram.size.toNat-write.address.toNat := by omega
    simpa [laid,List.getElem?_take_of_lt short,here] using place
  · intro harmless place
    have there := harmless.resolve_left fun inside => outside (.inr inside)
    rw [cells place]
    unfold laid
    split
    · rename_i low
      cases found : (write.data.take (ram.size.toNat-write.address.toNat))[place.toNat-write.address.toNat]? with
      | none => simp
      | some byte =>
        obtain ⟨here,short⟩ : write.data[place.toNat-write.address.toNat]? = some byte ∧
            place.toNat-write.address.toNat < ram.size.toNat-write.address.toNat := by
          rw [List.getElem?_take] at found
          split at found
          · exact ⟨found,by assumption⟩
          · cases found
        have inside : write.address.toNat+(place.toNat-write.address.toNat) < ram.size.toNat := by omega
        have same := there _ byte here inside
        have spot : write.address + .ofNat 64 (place.toNat-write.address.toNat) = place := by
          apply BitVec.eq_of_toNat_eq
          rw [index _ inside]
          omega
        rw [spot] at same
        exact same.symm
    · rfl

theorem written_snoc (first : GuestRam) (head : List Write) (write : Write) :
    written first (head ++ [write]) = record (written first head) write := by
  simp [written]

theorem record_ok {state : GuestRam × List (Nat × List (BitVec 8))} (taken : (write.perform state.1).2 = .ok ()) :
    record state write = ((write.perform state.1).1,state.2 ++ [(write.address.toNat,write.data)]) := by
  unfold record
  split
  · rename_i same
    rw [same]
  · rename_i same
    rw [same] at taken
    cases taken

theorem record_error {state : GuestRam × List (Nat × List (BitVec 8))} (refused : (write.perform state.1).2 = .error e) :
    record state write = ((write.perform state.1).1,state.2) := by
  unfold record
  split
  · rename_i same
    rw [same] at refused
    cases refused
  · rename_i same
    rw [same]

theorem written_size (first : GuestRam) (writes : List Write) : (written first writes).1.size = first.size := by
  induction writes using List.reverseRecOn with
  | nil => rfl
  | append_singleton head write ih =>
    have kept := (perform_spec (written first head).1 write).1
    rw [written_snoc]
    cases answer : (write.perform (written first head).1).2 with
    | ok _ => rw [record_ok answer,kept,ih]
    | error e => rw [record_error answer,kept,ih]

-- The run lemma: as long as every refused write was harmless, RAM is what was
-- last written.
theorem written_remembers (harmless : ∀ head write, head ++ [write] <+: writes → Harmless (written first head).1 write) (place : U64) :
    (written first writes).1.cell place = remembered first (written first writes).2 place := by
  induction writes using List.reverseRecOn with
  | nil => rfl
  | append_singleton head write ih =>
    have before := ih fun shorter next among => harmless shorter next (among.trans (List.prefix_append head [write]))
    have here := harmless head write (List.prefix_refl _)
    rw [written_snoc]
    cases answer : (write.perform (written first head).1).2 with
    | ok _ =>
      rw [record_ok answer,perform_taken answer,before]
      simp only [remembered,lastLaid_snoc]
      cases laid (write.address.toNat,write.data) place.toNat with
      | none => rfl
      | some byte => rfl
    | error e => rw [record_error answer,(perform_refused answer).mpr here place,before]

theorem digit_at {bytes : List (BitVec 8)} (here : bytes[k]? = some byte) :
    Nat.ofDigits 256 (bytes.map BitVec.toNat) / 256^k % 256 = byte.toNat := by
  induction k generalizing bytes with
  | zero =>
    obtain ⟨rest,rfl⟩ : ∃ rest, bytes = byte :: rest := by
      cases bytes with
      | nil => cases here
      | cons first rest => exact ⟨rest,by simpa using here⟩
    have := byte.isLt
    simp only [List.map_cons,Nat.ofDigits_cons]
    omega
  | succ k ih =>
    cases bytes with
    | nil => cases here
    | cons first rest =>
      have := first.isLt
      have shift : (first.toNat+256*Nat.ofDigits 256 (rest.map BitVec.toNat)) / 256 = Nat.ofDigits 256 (rest.map BitVec.toNat) := by omega
      rw [List.map_cons,Nat.ofDigits_cons,Nat.pow_succ',← Nat.div_div_eq_div_mul,shift]
      exact ih (by simpa using here)

theorem readBytes_cells {ram : GuestRam} (read : ram.readBytes address len = .ok bytes) :
    bytes = (List.range len).map fun k => ram.cell (address + .ofNat 64 k) := by
  unfold GuestRam.readBytes at read
  dsimp only at read
  split at read
  · split at read
    · cases read
    · cases read
  · exact (Except.ok.inj read).symm

theorem readU64_cells {ram : GuestRam} (read : ram.readU64 address = .ok value) (within : k < 8) :
    (value >>> (k*8)).setWidth 8 = ram.cell (address + .ofNat 64 k) := by
  unfold GuestRam.readU64 at read
  cases found : ram.readBytes address 8 with
  | error e =>
    rw [found] at read
    cases read
  | ok bytes =>
    rw [found] at read
    obtain rfl := Except.ok.inj read
    have cells := readBytes_cells found
    have here : bytes[k]? = some (ram.cell (address + .ofNat 64 k)) := by
      rw [cells,List.getElem?_map,List.getElem?_range within]
      rfl
    have whole := @GuestRam.assembled 0 0 bytes (by simp [cells]) (by simp)
    have power : (2:Nat)^(k*8) = 256^k := by rw [show (256:Nat) = 2^8 by rfl,← Nat.pow_mul,Nat.mul_comm]
    apply BitVec.eq_of_toNat_eq
    rw [BitVec.toNat_setWidth,BitVec.toNat_ushiftRight,whole,Nat.shiftRight_eq_div_pow,power]
    simpa using digit_at here

theorem readBytes_inside {ram : GuestRam} (inside : address.toNat+len ≤ ram.size.toNat) : ∃ bytes, ram.readBytes address len = .ok bytes := by
  have stop : ¬ min (address.toNat+len) (2^64-1) > ram.size.toNat := by omega
  exact ⟨_,by rw [GuestRam.readBytes,if_neg stop]⟩

-- Reads give back what was last written, and a refused write leaves RAM alone, in
-- exactly the runs whose writes are harmless where they come.
theorem kept_iff (first : GuestRam) (writes : List Write) :
    Kept first writes ↔ ∀ head write, head ++ [write] <+: writes → Harmless (written first head).1 write := by
  constructor
  · intro kept head write among
    cases answer : (write.perform (written first head).1).2 with
    | error e => exact (perform_refused answer).mp (kept.whole head write among e answer)
    | ok _ =>
      rcases (perform_spec (written first head).1 write).2.2.mp answer with none | inside
      · refine .inr fun k byte here => ?_
        rw [none] at here
        cases here
      · exact .inl inside
  · intro harmless
    have cells : ∀ head, head <+: writes → ∀ place, (written first head).1.cell place = remembered first (written first head).2 place :=
      fun head among => written_remembers fun shorter next more => harmless shorter next (more.trans among)
    refine ⟨?_,?_,?_,?_⟩
    · intro head among address len bytes read
      rw [readBytes_cells read]
      exact List.map_congr_left fun k _ => cells head among _
    · intro head among address value read k within
      rw [readU64_cells read within,cells head among]
    · intro head among address len inside
      exact readBytes_inside (by rwa [written_size])
    · intro head write among e refused
      exact (perform_refused refused).mpr (harmless head write among)

-- Four of the eight bytes of a word lie past the end of a page of RAM; the four
-- before it are overwritten all the same.
theorem straddling_word_torn : ¬ Kept ⟨fun _ => none,0x1000⟩ [.word 0xffc 1] := by
  intro kept
  have same := kept.whole [] (.word 0xffc 1) (List.prefix_refl _) (.notInRam 0x1000) (by rfl) 0xffc
  revert same
  decide

end PrincessIDE.Memory
