import PrincessIDE.Core.Json
import PrincessIDE.Foundation.Str

namespace PrincessIDE.Serde
open Utf8 Str

-- How the values of a type are written and read. `Fits` are the values that the
-- type has where it is narrower than its model; each of them is read back.
structure Codec (α : Type) where
  write : α → Json
  read : Json → Option α
  Fits : α → Prop
  faithful : ∀ a, Fits a → read (write a) = some a

namespace Codec

def value : Codec Json := ⟨id,some,fun _ => True,fun _ _ => rfl⟩

def text : Codec Text := ⟨.str,Json.asStr,fun _ => True,fun _ _ => rfl⟩

def bool : Codec Bool := ⟨.bool,Json.asBool,fun _ => True,fun _ _ => rfl⟩

def readUnsigned (bound : Nat) : Json → Option Nat
  | .int i => if 0 ≤ i ∧ i < bound then some i.toNat else none
  | _ => none

def unsigned (bound : Nat) : Codec Nat where
  write n := .int n
  read := readUnsigned bound
  Fits n := n < bound
  faithful := by
    intro n small
    rw [readUnsigned,if_pos ⟨Int.natCast_nonneg n,by exact_mod_cast small⟩]
    rfl

def readSigned (bound : Nat) : Json → Option Int
  | .int i => if -bound ≤ i ∧ i < bound then some i else none
  | _ => none

def signed (bound : Nat) : Codec Int where
  write := .int
  read := readSigned bound
  Fits i := -bound ≤ i ∧ i < bound
  faithful _ small := if_pos small

def list (c : Codec α) : Codec (List α) where
  write items := .arr (items.map c.write)
  read v := v.asArray.bind fun items => items.mapM c.read
  Fits items := ∀ a ∈ items, c.Fits a
  faithful := by
    intro items fit
    change (items.map c.write).mapM c.read = some items
    induction items with
    | nil => rfl
    | cons a items ih =>
      have first := c.faithful a (fit a List.mem_cons_self)
      have rest := ih fun b member => fit b (List.mem_cons_of_mem a member)
      simp [first,rest]

-- An enumeration by the texts of its variants.
def named (all : List α) (asStr : α → Text) (known : ∀ a, all.find? (fun b => asStr b = asStr a) = some a) : Codec α where
  write a := .str (asStr a)
  read v := v.asStr.bind fun t => all.find? fun b => asStr b = t
  Fits _ := True
  faithful a _ := known a

end Codec

-- A field of an object. It may be left out when it is written, and has to say
-- what it is when it is not there.
structure Field (α : Type) where
  write : α → Option Json
  read : Option Json → Option α
  Fits : α → Prop
  faithful : ∀ a, Fits a → read (write a) = some a

namespace Field

def required (c : Codec α) : Field α := ⟨fun a => some (c.write a),fun v => v.bind c.read,c.Fits,c.faithful⟩

def defaulted (c : Codec α) (absent : α) : Field α where
  write a := some (c.write a)
  read
    | none => some absent
    | some v => c.read v
  Fits := c.Fits
  faithful := c.faithful

-- `null` and a missing field are both `None`.
def readOption (c : Codec α) : Option Json → Option (Option α)
  | none => some none
  | some .null => some none
  | some v => (c.read v).map some

theorem readOption_some (c : Codec α) (solid : ∀ a, c.write a ≠ .null) (fits : c.Fits a) :
    readOption c (some (c.write a)) = some (some a) := by
  have read : readOption c (some (c.write a)) = (c.read (c.write a)).map some := by
    cases written : c.write a with
    | null => exact absurd written (solid a)
    | bool _ | int _ | float _ | str _ | arr _ | obj _ => rfl
  rw [read,c.faithful a fits]
  rfl

def nullable (c : Codec α) (solid : ∀ a, c.write a ≠ .null) : Field (Option α) where
  write a := some (match a with
    | none => .null
    | some a => c.write a)
  read := readOption c
  Fits a := ∀ x ∈ a, c.Fits x
  faithful := by
    intro a fit
    cases a with
    | none => rfl
    | some a => exact readOption_some c solid (fit a rfl)

-- `skip_serializing_if = "Option::is_none"`
def skipped (c : Codec α) (solid : ∀ a, c.write a ≠ .null) : Field (Option α) where
  write a := a.map c.write
  read := readOption c
  Fits a := ∀ x ∈ a, c.Fits x
  faithful := by
    intro a fit
    cases a with
    | none => rfl
    | some a => exact readOption_some c solid (fit a rfl)

end Field

inductive Fields : Type → Type 1 where
  | nil : Fields Unit
  | cons (name : String) (field : Field α) (rest : Fields β) : Fields (α × β)

namespace Fields

def names : Fields α → List String
  | nil => []
  | cons name _ rest => name :: rest.names

def write : Fields α → α → List (Text × Json)
  | nil,_ => []
  | cons name field rest,(a,b) => (field.write a).toList.map (name.toList,·) ++ rest.write b

def read : Fields α → List (Text × Json) → Option α
  | nil,_ => some ()
  | cons name field rest,rows => do
    let a ← field.read (rows.lookup name.toList)
    let b ← rest.read rows
    pure (a,b)

def Fits : Fields α → α → Prop
  | nil,_ => True
  | cons _ field rest,(a,b) => field.Fits a ∧ rest.Fits b

theorem lookup_write {fields : Fields α} (other : name ∉ fields.names) (a : α) : (fields.write a).lookup name.toList = none := by
  induction fields with
  | nil => rfl
  | cons first field rest ih =>
    obtain ⟨a,b⟩ := a
    obtain ⟨differs,other⟩ := not_or.mp (mt List.mem_cons.mpr other)
    rw [write,List.lookup_append,ih other b]
    cases field.write a <;> simp [String.toList_inj,differs]

-- The rows of a record are read back behind any others of different names.
theorem read_write {fields : Fields α} (apart : fields.names.Nodup) (before : List (Text × Json))
    (unnamed : ∀ name ∈ fields.names, before.lookup name.toList = none) (fits : fields.Fits a) :
    fields.read (before ++ fields.write a) = some a := by
  induction fields generalizing before with
  | nil => rfl
  | cons first field rest ih =>
    obtain ⟨a,b⟩ := a
    obtain ⟨fresh,apart⟩ := List.nodup_cons.mp apart
    have unwritten := unnamed first List.mem_cons_self
    have here : (before ++ ((field.write a).toList.map (first.toList,·) ++ rest.write b)).lookup first.toList = field.write a := by
      rw [List.lookup_append,List.lookup_append,unwritten,lookup_write fresh]
      cases field.write a <;> simp
    have later : rest.read ((before ++ (field.write a).toList.map (first.toList,·)) ++ rest.write b) = some b := by
      apply ih apart
      · intro name inside
        have differs : name ≠ first := fun same => fresh (same ▸ inside)
        rw [List.lookup_append,unnamed name (List.mem_cons_of_mem _ inside)]
        cases field.write a <;> simp [String.toList_inj,differs]
      · exact fits.2
    rw [← List.append_assoc] at here
    rw [write,← List.append_assoc,read,here,field.faithful a fits.1]
    simp only [bind,Option.bind,later]
    rfl

end Fields

-- A structure, by its fields in the order of the source.
def Codec.record (fields : Fields γ) (apart : fields.names.Nodup) (into : γ → α) (out : α → γ)
    (same : ∀ a, into (out a) = a) : Codec α where
  write a := .obj (fields.write (out a))
  read
    | .obj rows => (fields.read rows).map into
    | _ => none
  Fits a := fields.Fits (out a)
  faithful := by
    intro a fits
    have back := Fields.read_write apart [] (fun _ _ => rfl) fits
    rw [List.nil_append] at back
    simp [back,same]

end PrincessIDE.Serde
