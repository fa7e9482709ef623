import Mathlib.Data.List.Sort
import PrincessIDE.Bin.GuestMemory
import PrincessIDE.Core.Error
import PrincessIDE.Foundation.Search

namespace PrincessIDE.Source
open Utf8 (Text)
open Error Memory Search

-- What the line program says of a row.
structure Location where
  file : Option Text
  line : Option Nat
  column : Option Nat
deriving DecidableEq, Repr

structure RawRow where
  start : U64
  len : U64
  location : Location
deriving DecidableEq, Repr

-- A row that names a file and a line.
structure Row where
  start : U64
  file : Text
  line : Nat
  column : Option Nat
deriving DecidableEq, Repr

structure LineRange where
  start : U64
  stop : U64
  file : Text
  line : Nat
  column : Option Nat
  inlinedInto : Option Text
deriving DecidableEq, Repr

def LineRange.contains (range : LineRange) (address : U64) : Bool := range.start ≤ address && address < range.stop

def located (row : RawRow) : Option Row := match row.location.file,row.location.line with
  | some file,some line => some ⟨row.start,file,line,row.location.column⟩
  | _,_ => none

-- The rows that the line program gives, up to an error of its decoder.
def readRows (path : Text) : List (Except Text RawRow) → Except PrincessError (List RawRow)
  | [] => .ok []
  | .error err :: _ => .error ((PrincessError.internal ("DWARF line row iterator in ".toList ++ path ++ " failed: ".toList ++ err)).withDetail err)
  | .ok row :: rest => (readRows path rest).map (row :: ·)

-- `sort_by_key`, which keeps the order of rows with one start.
def sortRows (rows : List Row) : List Row := rows.insertionSort fun a b => a.start ≤ b.start

def lastAddress : U64 := .ofNat 64 (2^64-1)

def nextAddress (address : U64) : U64 := if address = lastAddress then lastAddress else address + 1

def later (a b : U64) : U64 := if a ≤ b then b else a

-- A row ends where the next one starts.
def rowEnd (start : U64) (next : Option Row) : U64 :=
  later ((next.map Row.start).getD (nextAddress start)) (nextAddress start)

def extents : List Row → List (Row × U64)
  | [] => []
  | row :: rest => (row,rowEnd row.start rest.head?) :: extents rest

def rangeOf (row : Row) (stop : U64) : LineRange := ⟨row.start,stop,row.file,row.line,row.column,none⟩

-- A row that goes on where a range ends, in the same line.
def continues (previous : LineRange) (row : Row) : Bool :=
  previous.stop == row.start && previous.file == row.file && previous.line == row.line && previous.column == row.column

def pushRow (out : List LineRange) (extent : Row × U64) : List LineRange := match out.getLast? with
  | some previous =>
    if continues previous extent.1 then out.dropLast ++ [{previous with stop:=extent.2}] else out ++ [rangeOf extent.1 extent.2]
  | none => out ++ [rangeOf extent.1 extent.2]

def coalesce (rows : List Row) : List LineRange := (extents rows).foldl pushRow []

def segmentsOf (rows : List RawRow) : List LineRange := coalesce (sortRows (rows.filterMap located))

-- An artifact's line table: the rows its context enumerates, once it could be
-- loaded, and the segments that were built of them.
structure LineTable where
  path : Text
  load : Except PrincessError Unit
  rows : Except Text (List (Except Text RawRow))
  memo : Option (List LineRange)

def enumerateError (path err : Text) : PrincessError :=
  (PrincessError.internal ("cannot enumerate DWARF line rows in ".toList ++ path ++ ": ".toList ++ err)).withDetail err

def LineTable.buildSegments (t : LineTable) : Except PrincessError (List LineRange) := do
  t.load
  let items ← t.rows.mapError (enumerateError t.path)
  let rows ← readRows t.path items
  return segmentsOf rows

def LineTable.segments (t : LineTable) : Except PrincessError (List LineRange) × LineTable := match t.memo with
  | some segments => (.ok segments,t)
  | none => match t.buildSegments with
    | .ok built => (.ok built,{t with memo:=some built})
    | .error e => (.error e,t)

def compareAt (segments : List LineRange) (address : U64) (i : Nat) : Ordering := match segments[i]? with
  | some segment => if address < segment.start then .gt else if segment.stop ≤ address then .lt else .eq
  | none => .gt

def searchSegments (segments : List LineRange) (address : U64) : Option LineRange :=
  match binarySearch (compareAt segments address) segments.length with
  | .ok index => segments[index]?
  | .error _ => none

def LineTable.lineRangeForAddress (t : LineTable) (address : U64) : Except PrincessError (Option LineRange) × LineTable :=
  (t.segments.1.map fun segments => searchSegments segments address,t.segments.2)

-- A table whose line program gives these rows.
def tableOf (path : Text) (rows : List RawRow) : LineTable := ⟨path,.ok (),.ok (rows.map .ok),none⟩

theorem readRows_ok (path : Text) (rows : List RawRow) : readRows path (rows.map .ok) = .ok rows := by
  induction rows with
  | nil => rfl
  | cons row rest ih => rw [List.map_cons,readRows,ih]; rfl

theorem tableOf_segments (path : Text) (rows : List RawRow) : (tableOf path rows).segments.1 = .ok (segmentsOf rows) := by
  have built : (tableOf path rows).buildSegments = .ok (segmentsOf rows) := by
    change ((readRows path (rows.map .ok)).bind fun rows => .ok (segmentsOf rows)) = _
    rw [readRows_ok]
    rfl
  unfold LineTable.segments
  rw [show (tableOf path rows).memo = none from rfl,built]

-- A later query is answered from the same segments.
theorem segments_kept (found : (LineTable.segments t).1 = .ok segments) : (LineTable.segments (LineTable.segments t).2).1 = .ok segments := by
  unfold LineTable.segments at found ⊢
  cases memo : t.memo with
  | some kept =>
    rw [memo] at found
    dsimp only
    rw [memo]
    exact found
  | none =>
    rw [memo] at found
    cases built : t.buildSegments with
    | ok segments => rw [built] at found; exact found
    | error e => rw [built] at found; cases found

-- The ranges from the open one on: it is closed where a row does not go on with it.
def emit (previous : LineRange) : List (Row × U64) → List LineRange
  | [] => [previous]
  | (row,stop) :: rest =>
    if continues previous row then emit {previous with stop:=stop} rest else previous :: emit (rangeOf row stop) rest

theorem emit_cons (previous : LineRange) (row : Row) (stop : U64) (rest : List (Row × U64)) : emit previous ((row,stop) :: rest) =
    if continues previous row then emit {previous with stop:=stop} rest else previous :: emit (rangeOf row stop) rest := rfl

theorem extents_cons (row : Row) (rest : List Row) : extents (row :: rest) = (row,rowEnd row.start rest.head?) :: extents rest := rfl

theorem pushRow_snoc (front : List LineRange) (previous : LineRange) (extent : Row × U64) :
    pushRow (front ++ [previous]) extent = if continues previous extent.1 then front ++ [{previous with stop:=extent.2}]
      else front ++ [previous] ++ [rangeOf extent.1 extent.2] := by
  simp only [pushRow,List.getLast?_concat,List.dropLast_concat]

theorem foldl_emit (front : List LineRange) (previous : LineRange) (rows : List (Row × U64)) :
    rows.foldl pushRow (front ++ [previous]) = front ++ emit previous rows := by
  induction rows generalizing front previous with
  | nil => rfl
  | cons extent rest ih =>
    obtain ⟨row,stop⟩ := extent
    rw [List.foldl_cons,pushRow_snoc,emit_cons]
    by_cases goes : continues previous row = true
    · rw [if_pos goes,if_pos goes,ih]
    · rw [if_neg goes,if_neg goes,ih,List.append_assoc]
      rfl

theorem coalesce_cons (row : Row) (rest : List Row) :
    coalesce (row :: rest) = emit (rangeOf row (rowEnd row.start rest.head?)) (extents rest) :=
  foldl_emit [] _ _

theorem sorted_rows (rows : List Row) : (sortRows rows).Pairwise fun a b => a.start ≤ b.start := by
  have total : Std.Total fun a b : Row => a.start ≤ b.start := ⟨fun a b => BitVec.le_total a.start b.start⟩
  have trans : IsTrans Row fun a b => a.start ≤ b.start := ⟨fun a b c => BitVec.le_trans⟩
  exact List.pairwise_insertionSort _ rows

theorem mem_sortRows {rows : List Row} : row ∈ sortRows rows ↔ row ∈ rows := List.mem_insertionSort _

-- Ends of rows, on the naturals.
theorem lastAddress_top (a : U64) : a ≤ lastAddress := by
  have bound := a.isLt
  rw [BitVec.le_def,show lastAddress.toNat = 2^64-1 from rfl]
  omega

theorem nextAddress_le (a : U64) : a ≤ nextAddress a := by
  unfold nextAddress
  split
  · exact lastAddress_top a
  · rename_i inner
    unfold lastAddress at inner
    bv_omega

theorem nextAddress_lt {a : U64} (inner : a ≠ lastAddress) : a < nextAddress a ∧ ∀ b, a < b → nextAddress a ≤ b := by
  rw [nextAddress,if_neg inner]
  unfold lastAddress at inner
  constructor
  · bv_omega
  · intro b above
    bv_omega

theorem rowEnd_ge (start : U64) (next : Option Row) : start ≤ rowEnd start next := by
  have low := nextAddress_le start
  unfold rowEnd later
  split
  · exact low
  · bv_omega

theorem rowEnd_gt {start : U64} (inner : start ≠ lastAddress) (next : Option Row) : start < rowEnd start next := by
  have low := (nextAddress_lt inner).1
  unfold rowEnd later
  split
  · exact low
  · bv_omega

theorem rowEnd_next {start : U64} {next : Row} (behind : start < next.start) : rowEnd start (some next) = next.start := by
  have inner : start ≠ lastAddress := fun same => by
    have top := lastAddress_top next.start
    rw [← same] at top
    bv_omega
  have low := (nextAddress_lt inner).2 next.start behind
  unfold rowEnd later
  change (if next.start ≤ _ then _ else next.start) = _
  split
  · bv_omega
  · rfl

theorem rowEnd_same {start : U64} {next : Row} (same : start = next.start) : rowEnd start (some next) = nextAddress start := by
  have low := nextAddress_le start
  unfold rowEnd later
  change (if next.start ≤ _ then _ else next.start) = _
  rw [← same,if_pos low]

-- Rows of one file, line and column.
def SameLine (a b : Row) : Prop := a.file = b.file ∧ a.line = b.line ∧ a.column = b.column

-- In the order of the rows none starts where another does, nor at the last
-- address, but for rows there that go on in the line of the row before.
structure Follows (a b : Row) : Prop where
  apart : a.start = b.start → b.start = lastAddress
  last : b.start = lastAddress → SameLine a b

structure Steady (rows : List Row) : Prop where
  first : ∀ row ∈ rows.head?, row.start ≠ lastAddress
  follows : rows.IsChain Follows

-- The open range, once the row it was last made of has been taken in.
structure Opened (previous : LineRange) (row : Row) (next : Option Row) : Prop where
  start : previous.start ≤ row.start
  stop : previous.stop = rowEnd row.start next
  names : previous.file = row.file ∧ previous.line = row.line ∧ previous.column = row.column

theorem rangeOf_opened (row : Row) (next : Option Row) : Opened (rangeOf row (rowEnd row.start next)) row next :=
  ⟨BitVec.le_refl _,rfl,rfl,rfl,rfl⟩

theorem continues_iff : continues previous row = true ↔
    previous.stop = row.start ∧ previous.file = row.file ∧ previous.line = row.line ∧ previous.column = row.column := by
  simp only [continues,Bool.and_eq_true,beq_iff_eq,and_assoc]

theorem Opened.continues_iff (opened : Opened previous row (some next)) :
    continues previous next = true ↔ rowEnd row.start (some next) = next.start ∧ SameLine row next := by
  rw [Source.continues_iff,opened.stop,opened.names.1,opened.names.2.1,opened.names.2.2]
  rfl

theorem Opened.continued (opened : Opened previous row (some next)) (goes : continues previous next = true) (after : Option Row) :
    Opened {previous with stop:=rowEnd next.start after} next after := by
  obtain ⟨ends,names⟩ := Source.continues_iff.mp goes
  refine ⟨?_,rfl,names⟩
  change previous.start ≤ next.start
  rw [← ends,opened.stop]
  exact BitVec.le_trans opened.start (rowEnd_ge _ _)

-- The open range comes out first, and as it is or longer.
theorem emit_head (previous : LineRange) (rows : List Row) : ∃ head tail, emit previous (extents rows) = head :: tail ∧
    head.start = previous.start ∧ (previous.stop ≤ head.stop) := by
  induction rows generalizing previous with
  | nil => exact ⟨previous,[],rfl,rfl,BitVec.le_refl _⟩
  | cons row rest ih =>
    rw [extents_cons,emit_cons]
    by_cases goes : continues previous row = true
    · rw [if_pos goes]
      obtain ⟨head,tail,same,start,stop⟩ := ih {previous with stop:=rowEnd row.start rest.head?}
      refine ⟨head,tail,same,start,BitVec.le_trans ?_ stop⟩
      rw [(continues_iff.mp goes).1]
      exact rowEnd_ge _ _
    · rw [if_neg goes]
      exact ⟨previous,_,rfl,rfl,BitVec.le_refl _⟩

theorem emit_starts {previous : LineRange} (low : ∀ row ∈ rows, previous.start ≤ row.start)
    (ascending : rows.Pairwise fun a b => a.start ≤ b.start) : ∀ s ∈ emit previous (extents rows), previous.start ≤ s.start := by
  induction rows generalizing previous with
  | nil =>
    intro s member
    rw [List.mem_singleton.mp member]
    exact BitVec.le_refl _
  | cons row rest ih =>
    obtain ⟨here,behind⟩ := List.forall_mem_cons.mp low
    obtain ⟨above,ascending⟩ := List.pairwise_cons.mp ascending
    intro s member
    rw [extents_cons,emit_cons] at member
    by_cases goes : continues previous row = true
    · rw [if_pos goes] at member
      exact @ih {previous with stop:=rowEnd row.start rest.head?} behind ascending s member
    · rw [if_neg goes] at member
      rcases List.mem_cons.mp member with rfl | later
      · exact BitVec.le_refl _
      · exact BitVec.le_trans here (@ih (rangeOf row _) above ascending s later)

theorem Follows.end_or_next (follows : Follows row next) (ascends : row.start ≤ next.start) :
    rowEnd row.start (some next) = next.start := by
  by_cases same : row.start = next.start
  · rw [rowEnd_same same,same,nextAddress,if_pos (follows.apart same),follows.apart same]
  · exact rowEnd_next (by bv_omega)

-- Every row of a steady table goes on with the open range or starts behind it.
-- By induction on the rows.
theorem emit_good (opened : Opened previous row rows.head?) (solid : previous.start < previous.stop)
    (ascending : (row :: rows).Pairwise fun a b => a.start ≤ b.start) (steady : (row :: rows).IsChain Follows) :
    (∀ s ∈ emit previous (extents rows), s.start < s.stop) ∧ (emit previous (extents rows)).Pairwise fun a b => a.stop ≤ b.start := by
  induction rows generalizing previous row with
  | nil => exact ⟨fun s member => by rw [List.mem_singleton.mp member]; exact solid,List.pairwise_singleton _ _⟩
  | cons next rest ih =>
    obtain ⟨follows,steady⟩ := List.isChain_cons_cons.mp steady
    obtain ⟨above,ascending⟩ := List.pairwise_cons.mp ascending
    have ends := follows.end_or_next (above next List.mem_cons_self)
    have stop : previous.stop = next.start := opened.stop.trans ends
    rw [extents_cons,emit_cons]
    by_cases goes : continues previous next = true
    · rw [if_pos goes]
      refine ih (opened.continued goes rest.head?) ?_ ascending steady
      have longer := rowEnd_ge next.start rest.head?
      change previous.start < rowEnd next.start rest.head?
      rw [stop] at solid
      bv_omega
    · rw [if_neg goes]
      have inner : next.start ≠ lastAddress := fun last => goes (opened.continues_iff.mpr ⟨ends,follows.last last⟩)
      obtain ⟨solids,apart⟩ := ih (rangeOf_opened next rest.head?) (rowEnd_gt inner _) ascending steady
      refine ⟨List.forall_mem_cons.mpr ⟨solid,solids⟩,List.pairwise_cons.mpr ⟨fun s member => ?_,apart⟩⟩
      rw [stop]
      exact emit_starts (List.pairwise_cons.mp ascending).1 (List.pairwise_cons.mp ascending).2 s member

def Apart (a b : LineRange) : Prop := ∀ address, ¬ (a.contains address = true ∧ b.contains address = true)

theorem contains_iff {range : LineRange} : range.contains address = true ↔ range.start ≤ address ∧ address < range.stop := by
  simp only [LineRange.contains,Bool.and_eq_true,decide_eq_true_eq]

theorem last_empty {range : LineRange} (last : range.start = lastAddress) : ¬ range.start < range.stop := by
  have top := lastAddress_top range.stop
  bv_omega

-- A row that does neither leaves an empty range or two that overlap.
theorem emit_steady (opened : Opened previous row rows.head?) (ascending : (row :: rows).Pairwise fun a b => a.start ≤ b.start)
    (solid : ∀ s ∈ emit previous (extents rows), s.start < s.stop) (apart : (emit previous (extents rows)).Pairwise Apart) :
    (row :: rows).IsChain Follows := by
  induction rows generalizing previous row with
  | nil => exact .singleton _
  | cons next rest ih =>
    obtain ⟨above,ascending⟩ := List.pairwise_cons.mp ascending
    rw [extents_cons,emit_cons] at solid apart
    refine List.isChain_cons_cons.mpr ?_
    by_cases goes : continues previous next = true
    · rw [if_pos goes] at solid apart
      refine ⟨⟨fun same => ?_,fun _ => (opened.continues_iff.mp goes).2⟩,ih (opened.continued goes rest.head?) ascending solid apart⟩
      by_contra inner
      have ends := (opened.continues_iff.mp goes).1
      rw [rowEnd_same same,same] at ends
      have longer := (nextAddress_lt inner).1
      bv_omega
    · rw [if_neg goes] at solid apart
      obtain ⟨here,solids⟩ := List.forall_mem_cons.mp solid
      obtain ⟨others,aparts⟩ := List.pairwise_cons.mp apart
      refine ⟨?_,ih (rangeOf_opened next rest.head?) ascending solids aparts⟩
      obtain ⟨head,tail,same,start,_⟩ := emit_head (rangeOf next (rowEnd next.start rest.head?)) rest
      have member : head ∈ emit (rangeOf next (rowEnd next.start rest.head?)) (extents rest) := by rw [same]; exact List.mem_cons_self
      have inner : next.start ≠ lastAddress := fun last => last_empty (start.trans last) (solids head member)
      refine ⟨fun equal => ?_,fun last => absurd last inner⟩
      have long := (nextAddress_lt inner).1
      have stop : previous.stop = nextAddress next.start := by rw [opened.stop,← equal]; exact rowEnd_same equal
      have low := opened.start
      have some := solids head member
      change head.start = next.start at start
      refine absurd ⟨contains_iff.mpr ?_,contains_iff.mpr ?_⟩ (others head member next.start)
      · rw [stop]
        rw [equal] at low
        exact ⟨low,long⟩
      · rw [start] at some ⊢
        exact ⟨BitVec.le_refl _,some⟩

theorem compareAt_some {segments : List LineRange} {segment : LineRange} (here : segments[i]? = some segment) :
    compareAt segments address i = if address < segment.start then .gt else if segment.stop ≤ address then .lt else .eq := by
  rw [compareAt,here]

theorem compareAt_eq : compareAt segments address i = .eq ↔ ∃ segment, segments[i]? = some segment ∧ segment.contains address = true := by
  cases here : segments[i]? with
  | none => simp [compareAt,here]
  | some segment =>
    rw [compareAt_some here]
    simp only [Option.some.injEq,exists_eq_left',contains_iff]
    split
    · exact ⟨nofun,fun inside => absurd inside.1 (by bv_omega)⟩
    · split
      · exact ⟨nofun,fun inside => absurd inside.2 (by bv_omega)⟩
      · exact ⟨fun _ => by bv_omega,fun _ => rfl⟩

-- Ranges in order, of which no two overlap, are what a binary search needs.
theorem compareAt_parted {segments : List LineRange} (solid : ∀ s ∈ segments, s.start < s.stop)
    (apart : segments.Pairwise fun a b => a.stop ≤ b.start) (address : U64) : Partitioned (compareAt segments address) segments.length := by
  have ordered : ∀ i j, i < j → j < segments.length → ∃ a b, segments[i]? = some a ∧ segments[j]? = some b ∧
      a.start < a.stop ∧ a.stop ≤ b.start ∧ b.start < b.stop := by
    intro i j before inside
    have front : i < segments.length := Nat.lt_trans before inside
    exact ⟨segments[i],segments[j],List.getElem?_eq_getElem front,List.getElem?_eq_getElem inside,solid _ (List.getElem_mem front),
      List.pairwise_iff_getElem.mp apart i j front inside before,solid _ (List.getElem_mem inside)⟩
  constructor
  · intro i j before inside above
    obtain ⟨a,b,first,second,_,_,_⟩ := ordered i j before inside
    rw [compareAt_some first] at above
    rw [compareAt_some second]
    split at above
    · rw [if_pos (by bv_omega)]
    · split at above <;> cases above
  · intro i j before inside below
    obtain ⟨a,b,first,second,_,_,_⟩ := ordered i j before inside
    rw [compareAt_some second] at below
    rw [compareAt_some first]
    split at below
    · cases below
    · split at below
      · rw [if_neg (by bv_omega),if_pos (by bv_omega)]
      · cases below

theorem searchSegments_sound (found : searchSegments segments address = some range) : range ∈ segments ∧ range.contains address = true := by
  unfold searchSegments at found
  split at found
  · rename_i index hit
    obtain ⟨segment,here,covers⟩ := compareAt_eq.mp (binarySearch_sound hit).2
    rw [found] at here
    cases here
    exact ⟨List.mem_of_getElem? found,covers⟩
  · cases found

theorem searchSegments_iff (solid : ∀ s ∈ segments, s.start < s.stop) (apart : segments.Pairwise fun a b => a.stop ≤ b.start) :
    (∃ range, searchSegments segments address = some range) ↔ ∃ s ∈ segments, s.contains address = true := by
  constructor
  · rintro ⟨range,found⟩
    exact ⟨range,searchSegments_sound found⟩
  · rintro ⟨s,member,covers⟩
    obtain ⟨i,inside,rfl⟩ := List.mem_iff_getElem.mp member
    have equal := compareAt_eq.mpr ⟨segments[i],List.getElem?_eq_getElem inside,covers⟩
    obtain ⟨index,hit⟩ := (binarySearch_iff (compareAt_parted solid apart address)).mpr ⟨i,inside,equal⟩
    obtain ⟨within,_⟩ := binarySearch_sound hit
    exact ⟨segments[index],by rw [searchSegments,hit]; exact List.getElem?_eq_getElem within⟩

-- What a table and the look-up in it are to be.
structure Exact (t : LineTable) (segments : List LineRange) : Prop where
  sorted : segments.Pairwise fun a b => a.start ≤ b.start
  solid : ∀ s ∈ segments, s.start < s.stop
  apart : segments.Pairwise Apart
  found : ∀ address, (∃ range, (t.lineRangeForAddress address).1 = .ok (some range)) ↔ ∃ s ∈ segments, s.contains address = true
  covers : ∀ address range, (t.lineRangeForAddress address).1 = .ok (some range) → range ∈ segments ∧ range.contains address = true

theorem tableOf_lookup (path : Text) (rows : List RawRow) (address : U64) :
    ((tableOf path rows).lineRangeForAddress address).1 = .ok (searchSegments (segmentsOf rows) address) := by
  rw [LineTable.lineRangeForAddress,tableOf_segments]
  rfl

theorem coalesce_good (ascending : rows.Pairwise fun a b => a.start ≤ b.start) (steady : Steady rows) :
    (∀ s ∈ coalesce rows, s.start < s.stop) ∧ (coalesce rows).Pairwise fun a b => a.stop ≤ b.start := by
  cases rows with
  | nil => exact ⟨fun _ member => (List.not_mem_nil member).elim,.nil⟩
  | cons row rest =>
    rw [coalesce_cons]
    exact emit_good (rangeOf_opened row rest.head?) (rowEnd_gt (steady.first row rfl) _) ascending steady.follows

theorem coalesce_steady (ascending : rows.Pairwise fun a b => a.start ≤ b.start)
    (solid : ∀ s ∈ coalesce rows, s.start < s.stop) (apart : (coalesce rows).Pairwise Apart) : Steady rows := by
  cases rows with
  | nil => exact ⟨fun _ member => (Option.not_mem_none _ member).elim,.nil⟩
  | cons row rest =>
    rw [coalesce_cons] at solid apart
    refine ⟨fun first same last => ?_,emit_steady (rangeOf_opened row rest.head?) ascending solid apart⟩
    cases same
    obtain ⟨head,tail,whole,start,_⟩ := emit_head (rangeOf row (rowEnd row.start rest.head?)) rest
    exact last_empty (start.trans last) (solid head (by rw [whole]; exact List.mem_cons_self))

theorem segments_exact_iff (path : Text) (rows : List RawRow) :
    (∃ segments, (tableOf path rows).segments.1 = .ok segments ∧ Exact (tableOf path rows) segments) ↔
      Steady (sortRows (rows.filterMap located)) := by
  rw [tableOf_segments]
  simp only [Except.ok.injEq,exists_eq_left']
  constructor
  · intro exact
    exact coalesce_steady (sorted_rows _) exact.solid exact.apart
  · intro steady
    obtain ⟨solid,behind⟩ := coalesce_good (sorted_rows _) steady
    refine ⟨?_,solid,?_,fun address => ?_,fun address range found => ?_⟩
    · refine List.Pairwise.imp_of_mem (fun {a b} first _ after => ?_) behind
      exact BitVec.le_trans (BitVec.le_of_lt (solid a first)) after
    · refine behind.imp fun {a b} after address both => ?_
      rw [contains_iff,contains_iff] at both
      bv_omega
    · rw [tableOf_lookup]
      simp only [Except.ok.injEq]
      exact searchSegments_iff solid behind
    · rw [tableOf_lookup,Except.ok.injEq] at found
      exact searchSegments_sound found

-- Two sequences that start at one address, as functions do that the linker dropped.
def twoSequences : List RawRow := [⟨0x1000,4,⟨some "a.c".toList,some 1,none⟩⟩,⟨0x1000,16,⟨some "b.c".toList,some 2,none⟩⟩]

theorem segments_overlap :
    (segmentsOf twoSequences).map (fun s => (s.start,s.stop,s.line)) = [(0x1000,0x1001,1),(0x1000,0x1001,2)] ∧
    ¬ ∃ segments, (tableOf "k.elf".toList twoSequences).segments.1 = .ok segments ∧ Exact (tableOf "k.elf".toList twoSequences) segments := by
  refine ⟨by decide,?_⟩
  rw [tableOf_segments]
  rintro ⟨segments,same,exact⟩
  cases same
  have apart := exact.apart
  rw [show segmentsOf twoSequences = [⟨0x1000,0x1001,"a.c".toList,1,none,none⟩,⟨0x1000,0x1001,"b.c".toList,2,none,none⟩] by decide] at apart
  exact (List.pairwise_pair.mp apart) 0x1000 (by decide)

-- A range or a row with an address, for a line of a file.
def LineRange.Attributes (range : LineRange) (address : U64) (file : Text) (line : Nat) : Prop :=
  range.contains address = true ∧ range.file = file ∧ range.line = line

def extentCovers (extent : Row × U64) (address : U64) (file : Text) (line : Nat) : Prop :=
  extent.1.start ≤ address ∧ address < extent.2 ∧ extent.1.file = file ∧ extent.1.line = line

def RawRow.Covers (row : RawRow) (address : U64) (file : Text) (line : Nat) : Prop :=
  row.start ≤ address ∧ address.toNat < row.start.toNat + row.len.toNat ∧ row.location.file = some file ∧ row.location.line = some line

theorem extents_grow {rows : List Row} : ∀ e ∈ extents rows, e.1.start ≤ e.2 := by
  induction rows with
  | nil => exact fun _ member => (List.not_mem_nil member).elim
  | cons row rest ih => exact List.forall_mem_cons.mpr ⟨rowEnd_ge _ _,ih⟩

-- Ranges attribute what the rows' extents cover. By induction on the rows.
theorem emit_attributes (low : previous.start ≤ previous.stop) (grow : ∀ e ∈ rows, e.1.start ≤ e.2) :
    (∃ s ∈ emit previous rows, s.Attributes address file line) ↔
      previous.Attributes address file line ∨ ∃ e ∈ rows, extentCovers e address file line := by
  induction rows generalizing previous with
  | nil => simp [emit]
  | cons extent rest ih =>
    obtain ⟨row,stop⟩ := extent
    obtain ⟨here,grow⟩ := List.forall_mem_cons.mp grow
    rw [emit_cons,List.exists_mem_cons_iff]
    by_cases goes : continues previous row = true
    · obtain ⟨ends,names,lines,_⟩ := continues_iff.mp goes
      rw [if_pos goes,ih (BitVec.le_trans (by rwa [ends] at low) here) grow,← or_assoc]
      refine or_congr_left ?_
      simp only [LineRange.Attributes,extentCovers,contains_iff,names,lines]
      dsimp only at here
      constructor
      · rintro ⟨⟨above,below⟩,named⟩
        by_cases front : address < previous.stop
        · exact .inl ⟨⟨above,front⟩,named⟩
        · exact .inr ⟨by bv_omega,below,named⟩
      · rintro (⟨⟨above,below⟩,named⟩ | ⟨above,below,named⟩)
        · exact ⟨⟨above,by bv_omega⟩,named⟩
        · exact ⟨⟨by bv_omega,below⟩,named⟩
    · rw [if_neg goes,List.exists_mem_cons_iff,ih here grow]
      refine or_congr_right (or_congr_left ?_)
      simp only [LineRange.Attributes,extentCovers,contains_iff,rangeOf,and_assoc]

theorem coalesce_attributes (rows : List Row) : (∃ s ∈ coalesce rows, s.Attributes address file line) ↔
    ∃ e ∈ extents rows, extentCovers e address file line := by
  cases rows with
  | nil => exact ⟨fun ⟨_,member,_⟩ => (List.not_mem_nil member).elim,fun ⟨_,member,_⟩ => (List.not_mem_nil member).elim⟩
  | cons row rest =>
    rw [coalesce_cons,emit_attributes (rowEnd_ge _ _) extents_grow,extents_cons,List.exists_mem_cons_iff]
    refine or_congr_left ?_
    simp only [LineRange.Attributes,extentCovers,contains_iff,rangeOf,and_assoc]

theorem mem_extents {rows : List Row} (member : e ∈ extents rows) : e.1 ∈ rows := by
  induction rows with
  | nil => cases member
  | cons row rest ih =>
    rcases List.mem_cons.mp member with rfl | later
    · exact List.mem_cons_self
    · exact List.mem_cons_of_mem _ (ih later)

-- No row starts inside the extent of another.
theorem extents_clear (ascending : rows.Pairwise fun a b => a.start ≤ b.start) :
    ∀ e ∈ extents rows, ∀ other ∈ rows, other.start ≤ e.1.start ∨ e.2 ≤ other.start := by
  induction rows with
  | nil => exact fun _ member => (List.not_mem_nil member).elim
  | cons row rest ih =>
    obtain ⟨above,ascending⟩ := List.pairwise_cons.mp ascending
    intro e member other among
    rcases List.mem_cons.mp member with rfl | later
    · by_cases front : other.start ≤ row.start
      · exact .inl front
      · refine .inr ?_
        have behind : row.start < other.start := by bv_omega
        have inside : other ∈ rest := by
          rcases List.mem_cons.mp among with rfl | inside
          · exact absurd behind (by bv_omega)
          · exact inside
        have inner : row.start ≠ lastAddress := fun same => by
          have top := lastAddress_top other.start
          bv_omega
        have next := (nextAddress_lt inner).2 other.start behind
        change rowEnd row.start rest.head? ≤ other.start
        cases rest with
        | nil => cases inside
        | cons first rest =>
          have start : first.start ≤ other.start := by
            rcases List.mem_cons.mp inside with rfl | after
            · exact BitVec.le_refl _
            · exact (List.pairwise_cons.mp ascending).1 other after
          rw [List.head?_cons,rowEnd,later]
          change (if first.start ≤ _ then _ else first.start) ≤ _
          split
          · exact next
          · exact start
    · rcases List.mem_cons.mp among with rfl | inside
      · exact .inl (above e.1 (mem_extents later))
      · exact ih ascending e later other inside

theorem located_iff {raw : RawRow} : located raw = some row ↔ raw.start = row.start ∧ raw.location.file = some row.file ∧
    raw.location.line = some row.line ∧ raw.location.column = row.column := by
  obtain ⟨start,file,line,column⟩ := row
  unfold located
  split
  · rename_i f l named lines
    rw [named,lines,Option.some.injEq,Row.mk.injEq,Option.some.injEq,Option.some.injEq]
  · rename_i unnamed
    exact ⟨nofun,fun ⟨_,named,lines,_⟩ => (unnamed _ _ named lines).elim⟩

-- One row of the line of this one that starts no later is as long as its extent.
def Reached (rows : List RawRow) (extent : Row × U64) : Prop := ∃ row ∈ rows, row.start ≤ extent.1.start ∧
  extent.2.toNat ≤ row.start.toNat + row.len.toNat ∧ row.location.file = some extent.1.file ∧ row.location.line = some extent.1.line

theorem lines_covered_iff (path : Text) (rows : List RawRow) :
    (∀ segments, (tableOf path rows).segments.1 = .ok segments → ∀ s ∈ segments, ∀ address, s.contains address = true →
      ∃ row ∈ rows, row.Covers address s.file s.line) ↔
    ∀ extent ∈ extents (sortRows (rows.filterMap located)), extent.1.start < extent.2 → Reached rows extent := by
  simp only [tableOf_segments,Except.ok.injEq,forall_eq']
  constructor
  · intro covered extent member long
    -- the last address of the extent
    have last : extentCovers extent (extent.2 - 1) extent.1.file extent.1.line := ⟨by bv_omega,by bv_omega,rfl,rfl⟩
    obtain ⟨s,inside,contains,named,lines⟩ := (coalesce_attributes _).mpr ⟨extent,member,last⟩
    obtain ⟨row,among,low,high,file,line⟩ := covered s inside _ contains
    rw [named] at file
    rw [lines] at line
    have place : (⟨row.start,extent.1.file,extent.1.line,row.location.column⟩ : Row) ∈ sortRows (rows.filterMap located) :=
      mem_sortRows.mpr (List.mem_filterMap.mpr ⟨row,among,located_iff.mpr ⟨rfl,file,line,rfl⟩⟩)
    refine ⟨row,among,?_,by bv_omega,file,line⟩
    rcases extents_clear (sorted_rows _) extent member _ place with before | behind
    · exact before
    · change extent.2 ≤ row.start at behind
      bv_omega
  · intro reached s inside address contains
    obtain ⟨extent,member,low,high,named,lines⟩ := (coalesce_attributes _).mp ⟨s,inside,contains,rfl,rfl⟩
    obtain ⟨row,among,start,long,file,line⟩ := reached extent member (by bv_omega)
    exact ⟨row,among,by bv_omega,by bv_omega,by rw [file,named],by rw [line,lines]⟩

-- Two functions with a hole of 4 KiB between them.
def twoFunctions : List RawRow := [⟨0x1000,16,⟨some "a.c".toList,some 1,none⟩⟩,⟨0x2000,16,⟨some "a.c".toList,some 9,none⟩⟩]

theorem hole_attributed : (segmentsOf twoFunctions).map (fun s => (s.start,s.stop,s.line)) = [(0x1000,0x2000,1),(0x2000,0x2001,9)] ∧
    ¬ ∀ segments, (tableOf "k.elf".toList twoFunctions).segments.1 = .ok segments → ∀ s ∈ segments, ∀ address, s.contains address = true →
      ∃ row ∈ twoFunctions, row.Covers address s.file s.line := by
  refine ⟨by decide,fun covered => ?_⟩
  have here : (⟨0x1000,0x2000,"a.c".toList,1,none,none⟩ : LineRange) ∈ segmentsOf twoFunctions := by decide
  obtain ⟨row,member,low,high,_,line⟩ := covered _ (tableOf_segments _ _) _ here 0x1800 (by decide)
  simp only [twoFunctions,List.mem_cons,List.not_mem_nil,or_false] at member
  rcases member with rfl | rfl
  · exact absurd high (by decide)
  · exact absurd low (by decide)

end PrincessIDE.Source
