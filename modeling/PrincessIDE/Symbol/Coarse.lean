import PrincessIDE.Bin.GuestMemory
import PrincessIDE.Core.Error
import Mathlib.Data.List.Induction

namespace PrincessIDE.Symbol
open Utf8 (Text)
open Error Memory

structure SymbolInfo where
  name : Text
  address : U64
  size : U64
  kind : Text
deriving DecidableEq

structure CoarseLocation where
  symbol : Text
  rawSymbol : Text
  addressStart : U64
  addressEnd : U64
  exact : Bool
deriving DecidableEq

def lastAddress : U64 := .ofNat 64 (2^64-1)

def saturatingAdd (a b : U64) : U64 := if a.toNat + b.toNat < 2^64 then a + b else lastAddress

-- A symbol's size, where a label has the one address it stands at.
def width (size : U64) : U64 := if size = 0 then 1 else size

def covers (address : U64) (s : SymbolInfo) : Bool :=
  if s.size = 0 then address = s.address else s.address ≤ address && address < saturatingAdd s.address s.size

-- The narrowest so far, and of two that are as narrow the one behind.
def narrower (address : U64) (best : Option SymbolInfo) (s : SymbolInfo) : Option SymbolInfo :=
  if covers address s then match best with
    | some prev => if width s.size ≤ width prev.size then some s else some prev
    | none => some s
  else best

def coarseOf (demangle : Text → Text) (s : SymbolInfo) : CoarseLocation :=
  ⟨demangle s.name,s.name,s.address,saturatingAdd s.address (width s.size),false⟩

def coarseLocation (demangle : Text → Text) (readSymbols : Except PrincessError (List SymbolInfo)) (address : U64) :
    Except PrincessError (Option CoarseLocation) :=
  readSymbols.map fun symbols => (symbols.foldl (narrower address) none).map (coarseOf demangle)

-- What a symbol owns, on the naturals.
def Owns (s : SymbolInfo) (address : U64) : Prop :=
  s.address.toNat ≤ address.toNat ∧ address.toNat < s.address.toNat + (width s.size).toNat

theorem saturatingAdd_min (a b : U64) : (saturatingAdd a b).toNat = min (a.toNat + b.toNat) (2^64-1) := by
  have low := a.isLt
  unfold saturatingAdd
  split
  · next fits =>
    rw [BitVec.toNat_add_of_lt fits]
    omega
  · rw [show lastAddress.toNat = 2^64-1 from rfl]
    omega

theorem below_last {address : U64} (inner : address ≠ lastAddress) : address.toNat < 2^64-1 := by
  have bound := address.isLt
  have apart : address.toNat ≠ lastAddress.toNat := fun same => inner (BitVec.eq_of_toNat_eq same)
  rw [show lastAddress.toNat = 2^64-1 from rfl] at apart
  omega

-- Below the last address the check is the ownership.
theorem covers_iff {address : U64} (inner : address ≠ lastAddress) (s : SymbolInfo) : covers address s = true ↔ Owns s address := by
  have low := below_last inner
  unfold covers Owns width
  split
  · next label =>
    rw [decide_eq_true_eq,show (1 : U64).toNat = 1 from rfl,← BitVec.toNat_inj]
    omega
  · rw [Bool.and_eq_true,decide_eq_true_eq,decide_eq_true_eq,BitVec.le_def,BitVec.lt_def,saturatingAdd_min]
    omega

theorem narrower_none (best : Option SymbolInfo) (off : covers address s = false) : narrower address best s = best := by
  unfold narrower
  rw [off]
  exact if_neg Bool.false_ne_true

-- What the walk over the symbols has found: one that is covered, and as narrow as any.
structure Narrowest (address : U64) (seen : List SymbolInfo) (best : SymbolInfo) : Prop where
  listed : best ∈ seen
  covered : covers address best = true
  least : ∀ s ∈ seen, covers address s = true → width best.size ≤ width s.size

theorem narrower_step (here : covers address s = true) (found : ∀ b, best = some b → Narrowest address seen b)
    (missed : best = none → ∀ s ∈ seen, covers address s = false) :
    ∃ b, narrower address best s = some b ∧ Narrowest address (seen ++ [s]) b := by
  have last : s ∈ seen ++ [s] := List.mem_append_right _ List.mem_cons_self
  unfold narrower
  rw [if_pos here]
  cases best with
  | none =>
    refine ⟨s,rfl,last,here,fun t listed covered => ?_⟩
    rcases List.mem_append.mp listed with early | same
    · rw [missed rfl t early] at covered
      cases covered
    · rw [List.mem_singleton.mp same]
      exact BitVec.le_refl _
  | some prev =>
    obtain ⟨listed,covered,least⟩ := found prev rfl
    dsimp only
    by_cases tighter : width s.size ≤ width prev.size
    · refine ⟨s,if_pos tighter,last,here,fun t inside owned => ?_⟩
      rcases List.mem_append.mp inside with early | same
      · exact BitVec.le_trans tighter (least t early owned)
      · rw [List.mem_singleton.mp same]
        exact BitVec.le_refl _
    · refine ⟨prev,if_neg tighter,List.mem_append_left _ listed,covered,fun t inside owned => ?_⟩
      rcases List.mem_append.mp inside with early | same
      · exact least t early owned
      · rw [List.mem_singleton.mp same]
        bv_omega

-- By induction from the end: every symbol is compared with the best before it.
theorem foldl_narrowest (address : U64) (symbols : List SymbolInfo) :
    (∀ b, symbols.foldl (narrower address) none = some b → Narrowest address symbols b) ∧
    (symbols.foldl (narrower address) none = none → ∀ s ∈ symbols, covers address s = false) := by
  induction symbols using List.reverseRecOn with
  | nil => exact ⟨fun b found => (nomatch found),fun _ => List.forall_mem_nil _⟩
  | append_singleton front s ih =>
    obtain ⟨found,missed⟩ := ih
    rw [List.foldl_append,List.foldl_cons,List.foldl_nil]
    cases here : covers address s with
    | true =>
      obtain ⟨b,same,narrowest⟩ := narrower_step here found missed
      rw [same]
      exact ⟨fun c same => Option.some.inj same ▸ narrowest,fun empty => (nomatch empty)⟩
    | false =>
      rw [narrower_none _ here]
      refine ⟨fun b same => ?_,fun empty t listed => ?_⟩
      · obtain ⟨listed,covered,least⟩ := found b same
        refine ⟨List.mem_append_left _ listed,covered,fun t inside owned => ?_⟩
        rcases List.mem_append.mp inside with early | last
        · exact least t early owned
        · rw [List.mem_singleton.mp last,here] at owned
          cases owned
      · rcases List.mem_append.mp listed with early | last
        · exact missed empty t early
        · rw [List.mem_singleton.mp last]
          exact here

-- What an answer should be: there is one exactly if a symbol owns the address, a
-- range around it, and of a symbol than which no other owner is narrower.
structure Answers (symbols : List SymbolInfo) (address : U64) (answer : Option CoarseLocation) : Prop where
  owned : answer.isSome = true ↔ ∃ s ∈ symbols, Owns s address
  around : ∀ c ∈ answer, c.addressStart ≤ address ∧ address < c.addressEnd
  narrowest : ∀ c ∈ answer, ∃ s ∈ symbols, Owns s address ∧ c.rawSymbol = s.name ∧ c.addressStart = s.address ∧
    ∀ t ∈ symbols, Owns t address → (width s.size).toNat ≤ (width t.size).toNat

theorem covers_owns (covered : covers address s = true) : Owns s address := by
  unfold covers at covered
  unfold Owns width
  split at covered
  · next label =>
    rw [if_pos label,of_decide_eq_true covered]
    exact ⟨Nat.le_refl _,Nat.lt_succ_self _⟩
  · next sized =>
    rw [Bool.and_eq_true,decide_eq_true_eq,decide_eq_true_eq,BitVec.le_def,BitVec.lt_def,saturatingAdd_min] at covered
    rw [if_neg sized]
    omega

theorem coarse_owned (demangle : Text → Text) (inner : address ≠ lastAddress) (narrowest : Narrowest address symbols b) :
    Answers symbols address (some (coarseOf demangle b)) := by
  have owns := covers_owns narrowest.covered
  have low := below_last inner
  refine ⟨⟨fun _ => ⟨b,narrowest.listed,owns⟩,fun _ => rfl⟩,?_,?_⟩
  · rintro _ ⟨⟩
    change b.address ≤ address ∧ address < saturatingAdd b.address (width b.size)
    rw [BitVec.le_def,BitVec.lt_def,saturatingAdd_min]
    unfold Owns at owns
    omega
  · rintro _ ⟨⟩
    refine ⟨b,narrowest.listed,owns,rfl,rfl,fun t listed other => ?_⟩
    exact BitVec.le_def.mp (narrowest.least t listed ((covers_iff inner t).mpr other))

theorem coarse_unowned (unowned : ∀ s ∈ symbols, ¬ Owns s address) : Answers symbols address none :=
  ⟨⟨fun given => (nomatch given),fun ⟨s,listed,owns⟩ => absurd owns (unowned s listed)⟩,fun _ given => (nomatch given),fun _ given => (nomatch given)⟩

theorem coarse_location_iff (demangle : Text → Text) (symbols : List SymbolInfo) (address : U64) :
    (∃ answer, coarseLocation demangle (.ok symbols) address = .ok answer ∧ Answers symbols address answer) ↔
      address ≠ lastAddress ∨ ∀ s ∈ symbols, ¬ Owns s address := by
  obtain ⟨found,missed⟩ := foldl_narrowest address symbols
  unfold coarseLocation
  constructor
  · rintro ⟨answer,same,answers⟩
    by_contra both
    obtain ⟨last,owned⟩ := not_or.mp both
    push Not at last owned
    obtain ⟨c,given⟩ := Option.isSome_iff_exists.mp (answers.owned.mpr owned)
    -- no range ends behind the last address
    have beyond := (answers.around c given).2
    have bound := c.addressEnd.isLt
    rw [last,BitVec.lt_def,show lastAddress.toNat = 2^64-1 from rfl] at beyond
    omega
  · intro either
    cases walked : symbols.foldl (narrower address) none with
    | none =>
      refine ⟨_,rfl,?_⟩
      dsimp only
      rw [walked]
      refine coarse_unowned fun s listed owns => ?_
      rcases either with inner | unowned
      · have off := missed walked s listed
        rw [(covers_iff inner s).mpr owns] at off
        cases off
      · exact unowned s listed owns
    | some b =>
      refine ⟨_,rfl,?_⟩
      dsimp only
      rw [walked]
      have narrowest := found b walked
      rcases either with inner | unowned
      · exact coarse_owned demangle inner narrowest
      · exact absurd (covers_owns narrowest.covered) (unowned b narrowest.listed)

-- The last byte of a function that reaches the top of the address space.
def topFunction : SymbolInfo := ⟨"reset".toList,0xFFFFFFFFFFFFFF00,0x100,"FUNC".toList⟩

theorem top_unanswered : ¬ ∃ answer, coarseLocation id (.ok [topFunction]) lastAddress = .ok answer ∧ Answers [topFunction] lastAddress answer := by
  rintro ⟨answer,same,answers⟩
  cases same
  have owned : ∃ s ∈ [topFunction], Owns s lastAddress := ⟨topFunction,List.mem_cons_self,by unfold Owns; decide⟩
  have given := answers.owned.mpr owned
  revert given
  decide

end PrincessIDE.Symbol
