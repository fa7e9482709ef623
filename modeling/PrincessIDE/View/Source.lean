import PrincessIDE.Core.Event
import PrincessIDE.Foundation.Groups
import PrincessIDE.Foundation.Str

namespace PrincessIDE.SourceView
open Utf8 (Text)
open Str Event Groups

inductive DiagnosticDisplaySeverity where
  | error
  | warning
  | note
deriving DecidableEq, Repr

def DiagnosticDisplaySeverity.fromSeverity : DiagnosticSeverity → DiagnosticDisplaySeverity
  | .error => .error
  | .warning => .warning
  | .note => .note

structure SourceDiagnostic where
  col : Option UInt32
  severity : DiagnosticDisplaySeverity
  message : Text
deriving DecidableEq, Repr

structure SourceRow where
  lineNo : UInt32
  text : Text
  diagnostics : List SourceDiagnostic
deriving DecidableEq, Repr

structure SourceModel where
  file : Text
  rows : List SourceRow
deriving DecidableEq, Repr

structure DiagnosticInput where
  line : UInt32
  col : Option UInt32
  severity : DiagnosticSeverity
  message : Text
deriving DecidableEq, Repr

def DiagnosticInput.shown (d : DiagnosticInput) : SourceDiagnostic := ⟨d.col,.fromSeverity d.severity,d.message⟩

structure SourceBuilder where
  file : Text
  content : Text
  diagnostics : List DiagnosticInput
deriving DecidableEq, Repr

-- A diagnostic without a column sorts as one of column 0.
def column (d : SourceDiagnostic) : Nat := (d.col.getD 0).toNat

def sortByColumn (ds : List SourceDiagnostic) : List SourceDiagnostic := ds.insertionSort fun a b => column a ≤ column b

-- The rows from index `i` on; each takes the diagnostics of its line out of the map.
def rowsFrom (groups : Table UInt32 SourceDiagnostic) (i : Nat) : List Text → List SourceRow
  | [] => []
  | line :: rest =>
    let lineNo := UInt32.ofNat (i+1)
    ⟨lineNo,line,(get lineNo groups).getD []⟩ :: rowsFrom (remove lineNo groups) (i+1) rest

namespace SourceBuilder

def new (file : Text) : SourceBuilder := ⟨file,[],[]⟩
def withContent (b : SourceBuilder) (content : Text) : SourceBuilder := {b with content:=content}
def withDiagnostics (b : SourceBuilder) (diagnostics : List DiagnosticInput) : SourceBuilder := {b with diagnostics:=diagnostics}

def build (b : SourceBuilder) : SourceModel :=
  let shownLines := if b.content = [] then [] else lines b.content
  let groups := mapValues sortByColumn (collect DiagnosticInput.line DiagnosticInput.shown b.diagnostics)
  ⟨b.file,rowsFrom groups 0 shownLines⟩

end SourceBuilder

-- A row takes what the map has for its number, unless a row before it had the
-- same number. By induction on the lines.
theorem rowsFrom_at (here : (rowsFrom groups i texts)[j]? = some row) :
    row.lineNo = UInt32.ofNat (i+j+1) ∧ texts[j]? = some row.text ∧
    row.diagnostics = if ∃ k < j, UInt32.ofNat (i+k+1) = row.lineNo then [] else (get row.lineNo groups).getD [] := by
  induction texts generalizing groups i j with
  | nil => cases here
  | cons text texts ih =>
    cases j with
    | zero =>
      cases here
      refine ⟨rfl,rfl,?_⟩
      rw [if_neg fun ⟨k,before,_⟩ => Nat.not_lt_zero k before]
    | succ j =>
      obtain ⟨number,same,taken⟩ := ih (i:=i+1) here
      refine ⟨by rw [number]; congr 1; omega,same,?_⟩
      rw [taken,get_remove]
      by_cases first : UInt32.ofNat (i+1) = row.lineNo
      · have earlier : ∃ k < j+1, UInt32.ofNat (i+k+1) = row.lineNo := ⟨0,Nat.succ_pos j,first⟩
        rw [if_pos first.symm,if_pos earlier]
        split <;> rfl
      · have shift : (∃ k < j, UInt32.ofNat (i+1+k+1) = row.lineNo) ↔ ∃ k < j+1, UInt32.ofNat (i+k+1) = row.lineNo := by
          constructor
          · rintro ⟨k,before,equal⟩
            exact ⟨k+1,by omega,by rw [← equal]; congr 1; omega⟩
          · rintro ⟨k,before,equal⟩
            cases k with
            | zero => exact absurd equal first
            | succ k => exact ⟨k,by omega,by rw [← equal]; congr 1; omega⟩
        rw [if_neg (Ne.symm first)]
        simp only [shift]

theorem rowsFrom_texts (groups : Table UInt32 SourceDiagnostic) (i : Nat) (texts : List Text) :
    (rowsFrom groups i texts).map SourceRow.text = texts := by
  induction texts generalizing groups i with
  | nil => rfl
  | cons text texts ih => rw [rowsFrom,List.map_cons,ih]

namespace SourceBuilder

-- What is given for a line, in the order it was given in.
def given (b : SourceBuilder) (line : UInt32) : List SourceDiagnostic := (b.diagnostics.filter (·.line = line)).map DiagnosticInput.shown

theorem build_rows (b : SourceBuilder) :
    b.build.rows = rowsFrom (mapValues sortByColumn (collect DiagnosticInput.line DiagnosticInput.shown b.diagnostics)) 0 (lines b.content) := by
  unfold build
  split
  · next empty => rw [empty]; rfl
  · rfl

theorem get_sorted (b : SourceBuilder) (line : UInt32) :
    (get line (mapValues sortByColumn (collect DiagnosticInput.line DiagnosticInput.shown b.diagnostics))).getD [] = sortByColumn (b.given line) := by
  have found := get_collect DiagnosticInput.line DiagnosticInput.shown line b.diagnostics
  rw [get_mapValues,given,← found]
  cases get line (collect DiagnosticInput.line DiagnosticInput.shown b.diagnostics) <;> rfl

-- What the model shows where: each line of the text has the diagnostics given for
-- it. Line numbers are 32 bits wide, so a row behind the last of them has none,
-- or those of line 0.
structure Shows (b : SourceBuilder) (model : SourceModel) : Prop where
  texts : model.rows.map SourceRow.text = lines b.content
  own : ∀ line : UInt32, 0 < line → line.toNat ≤ (lines b.content).length → ∃ row, model.rows[line.toNat-1]? = some row ∧
    row.lineNo = line ∧ Arranged column (b.given line) row.diagnostics
  beyond : ∀ i row, model.rows[i]? = some row → 2^32 ≤ i+1 →
    row.diagnostics = [] ∨ (row.lineNo = 0 ∧ Arranged column (b.given 0) row.diagnostics)

theorem build_shows (b : SourceBuilder) : b.Shows b.build := by
  have texts : b.build.rows.map SourceRow.text = lines b.content := by rw [build_rows,rowsFrom_texts]
  have count : b.build.rows.length = (lines b.content).length := by rw [← texts,List.length_map]
  refine ⟨texts,fun line first within => ?_,fun i row here far => ?_⟩
  · have positive : 0 < line.toNat := UInt32.lt_iff_toNat_lt.mp first
    have small := line.toNat_lt
    have inside : line.toNat-1 < b.build.rows.length := by omega
    obtain ⟨row,here⟩ : ∃ row, b.build.rows[line.toNat-1]? = some row := ⟨_,List.getElem?_eq_getElem inside⟩
    refine ⟨row,here,?_⟩
    rw [build_rows] at here
    obtain ⟨number,_,taken⟩ := rowsFrom_at here
    have own : row.lineNo = line := by
      rw [number,show 0+(line.toNat-1)+1 = line.toNat by omega,UInt32.ofNat_toNat]
    refine ⟨own,?_⟩
    rw [own] at taken
    have fresh : ¬ ∃ k < line.toNat-1, UInt32.ofNat (0+k+1) = line := by
      rintro ⟨k,before,equal⟩
      have same := congrArg UInt32.toNat equal
      rw [UInt32.toNat_ofNat_of_lt' (by unfold UInt32.size; omega)] at same
      omega
    rw [taken,if_neg fresh,get_sorted]
    exact arranged_insertionSort column _
  · rw [build_rows] at here
    obtain ⟨number,_,taken⟩ := rowsFrom_at here
    by_cases earlier : ∃ k < i, UInt32.ofNat (0+k+1) = row.lineNo
    · rw [if_pos earlier] at taken
      exact .inl taken
    · rw [if_neg earlier,get_sorted] at taken
      have zero : row.lineNo = 0 := by
        by_contra other
        have some : row.lineNo.toNat ≠ 0 := fun none => other (UInt32.toNat_inj.mp none)
        refine earlier ⟨row.lineNo.toNat-1,?_,?_⟩
        · have small := row.lineNo.toNat_lt
          omega
        · rw [show 0+(row.lineNo.toNat-1)+1 = row.lineNo.toNat by omega,UInt32.ofNat_toNat]
      rw [zero] at taken
      rw [taken]
      exact .inr ⟨zero,arranged_insertionSort column _⟩

end SourceBuilder

end PrincessIDE.SourceView
