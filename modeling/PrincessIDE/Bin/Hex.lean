import Mathlib.Data.List.Infix
import PrincessIDE.Core.Error
import PrincessIDE.Foundation.Lru
import PrincessIDE.Foundation.Steps
import PrincessIDE.Foundation.Str

namespace PrincessIDE.Hex
open Utf8 Str Error

abbrev U64 := BitVec 64

def defaultWindowSize : Nat := 4096
def defaultWindowCapacity : Nat := 256

structure HexWindowOptions where
  windowSize : Nat := defaultWindowSize
  capacity : Nat := defaultWindowCapacity
deriving DecidableEq, Repr

def HexWindowOptions.byteBound (options : HexWindowOptions) : Nat := max options.windowSize 1 * max options.capacity 1

-- The options of a reader, clamped when it was opened.
structure Geometry extends HexWindowOptions where
  wide : 1 ≤ windowSize
  roomy : 1 ≤ capacity
deriving DecidableEq, Repr

def HexWindowOptions.clamped (options : HexWindowOptions) : Geometry where
  windowSize := max options.windowSize 1
  capacity := max options.capacity 1
  wide := Nat.le_max_right _ _
  roomy := Nat.le_max_right _ _

structure ImageStats where
  syscalls : Nat := 0
  hits : Nat := 0
  misses : Nat := 0
  residentWindows : Nat := 0
  residentBytes : Nat := 0
  bytesServed : Nat := 0
  bytesRead : Nat := 0
  shortReads : Nat := 0
deriving DecidableEq, Repr

structure HexLine where
  offset : Nat
  bytes : Bytes
  hex : Text
  ascii : Text
  atEof : Bool
deriving DecidableEq, Repr

-- A file, with a size that `metadata` can report.
@[ext] structure Image where
  bytes : Bytes
  fits : bytes.length < 2^64
deriving DecidableEq, Repr

-- A positioned read.
def Image.readAt (image : Image) (offset wanted : Nat) : Bytes := (image.bytes.drop offset).take wanted

structure HexReader where
  path : Text
  len : Nat
  options : Geometry
  cache : List (Nat × Bytes)
  stats : ImageStats
deriving DecidableEq, Repr

-- The largest capacity a vector of bytes may ask for; above it there is a panic.
def isizeMax : Nat := 2^63-1
def u64Max : Nat := 2^64-1
def bytesPerRow : Nat := 16
-- The size of a `HexLine` in a vector of them.
def hexLineSize : Nat := 88

-- `{byte:02x}`
def hexByte (byte : UInt8) : Text := [Nat.digitChar (byte.toNat/16),Nat.digitChar (byte.toNat%16)]

def isAsciiGraphic (byte : UInt8) : Bool := 0x21 ≤ byte && byte ≤ 0x7E

def gutter (byte : UInt8) : Char := if isAsciiGraphic byte || byte = 0x20 then Char.ofNat byte.toNat else '.'

def renderLine (offset : Nat) (bytes : Bytes) (atEof : Bool) : HexLine :=
  let cells := (List.range 16).map fun index => match bytes[index]? with
    | some byte => (hexByte byte ++ [' '],gutter byte)
    | none => ("?? ".toList,' ')
  { offset:=offset, bytes:=bytes, hex:=trimEnd (cells.flatMap Prod.fst), ascii:=cells.map Prod.snd, atEof:=atEof }

namespace HexReader

def withOptions (path : Text) (image : Image) (options : HexWindowOptions) : HexReader :=
  ⟨path,image.bytes.length,options.clamped,[],{}⟩

def isEmpty (reader : HexReader) : Bool := reader.len == 0

def refreshLen (image : Image) (reader : HexReader) : HexReader := {reader with len:=image.bytes.length}

def statistics (reader : HexReader) : ImageStats :=
  {reader.stats with residentWindows:=reader.cache.length,residentBytes:=reader.cache.length*reader.options.windowSize}

def byteBound (reader : HexReader) : Nat := reader.options.byteBound

def clearCache (reader : HexReader) : HexReader := {reader with cache:=[]}

-- No answer is a panic.
def window (image : Image) (windowIndex : Nat) (reader : HexReader) : Option Bytes × HexReader :=
  match Lru.takeOut windowIndex reader.cache with
  | some (entry,rest) =>
    (some entry.2,{reader with cache:=entry::rest,stats:={reader.stats with hits:=reader.stats.hits+1}})
  | none =>
    let stats := {reader.stats with misses:=reader.stats.misses+1}
    let offset := min (windowIndex*reader.options.windowSize) u64Max
    let wanted := reader.options.windowSize
    if wanted > isizeMax then (none,{reader with stats:=stats})
    else
      let buffer := image.readAt offset wanted
      (some buffer,{reader with
        cache:=Lru.evict reader.options.capacity ((windowIndex,buffer)::reader.cache),
        stats:={stats with syscalls:=stats.syscalls+1,bytesRead:=stats.bytesRead+buffer.length}})

-- The loop of `read_range`, with a bound on its rounds: each one that does not
-- leave it takes a byte at least.
def readRounds (image : Image) (stop : Nat) : Nat → Nat → Bytes → HexReader → Option Bytes × HexReader
  | 0,_,out,reader => (some out,reader)
  | rounds+1,position,out,reader =>
    if position < stop then
      let windowIndex := position / reader.options.windowSize
      match window image windowIndex reader with
      | (none,reader) => (none,reader)
      | (some held,reader) =>
        let within := position - windowIndex*reader.options.windowSize
        let available := held.length - within
        if available = 0 then (some out,{reader with stats:={reader.stats with shortReads:=reader.stats.shortReads+1}})
        else
          let take := min available (stop-position)
          readRounds image stop rounds (position+take) (out ++ (held.drop within).take take) reader
    else (some out,reader)

def served (len : Nat) (out : Bytes) (stats : ImageStats) : ImageStats :=
  {stats with
    bytesServed:=stats.bytesServed+out.length,
    shortReads:=stats.shortReads + if out.length < len then 1 else 0}

def readRange (image : Image) (offset len : U64) (reader : HexReader) : Option Bytes × HexReader :=
  if len.toNat > isizeMax then (none,reader)
  else
    let stop := min (offset.toNat+len.toNat) u64Max
    match readRounds image stop (stop-offset.toNat) offset.toNat [] reader with
    | (none,reader) => (none,reader)
    | (some out,reader) => (some out,{reader with stats:=served len.toNat out reader.stats})

def readExactAt (image : Image) (offset len : U64) (reader : HexReader) : Option (Except PrincessError Bytes) × HexReader :=
  match readRange image offset len reader with
  | (none,reader) => (none,reader)
  | (some bytes,reader) =>
    if bytes.length ≠ len.toNat then
      let message := reader.path ++ ": wanted ".toList ++ decimal len.toNat ++ " bytes at offset ".toList ++
        "0x".toList ++ Nat.toDigits 16 offset.toNat ++ ", only ".toList ++ decimal bytes.length ++ " were available".toList
      let detail := "the image is ".toList ++ decimal reader.len ++
        " bytes long; this is a short read, not corrupt data".toList
      (some (.error ((PrincessError.new .notFound message).withDetail detail)),reader)
    else (some (.ok bytes),reader)

def lineRounds (image : Image) (firstRow : Nat) : Nat → Nat → List HexLine → HexReader → Option (List HexLine) × HexReader
  | 0,_,lines,reader => (some lines,reader)
  | left+1,index,lines,reader =>
    let row := min (firstRow+index) u64Max
    let offset := min (row*bytesPerRow) u64Max
    if offset ≥ reader.len then (some lines,reader)
    else
      let wanted := min (reader.len-offset) bytesPerRow
      match readRange image (.ofNat 64 offset) (.ofNat 64 wanted) reader with
      | (none,reader) => (none,reader)
      | (some bytes,reader) =>
        lineRounds image firstRow left (index+1) (lines ++ [renderLine offset bytes (bytes.length < bytesPerRow)]) reader

def readLines (image : Image) (firstRow rowCount : U64) (reader : HexReader) : Option (List HexLine) × HexReader :=
  if rowCount.toNat*hexLineSize > isizeMax then (none,reader)
  else lineRounds image firstRow.toNat rowCount.toNat 0 [] reader

variable {good : Nat → Bytes → Prop} {image : Image} {reader : HexReader}

-- What a reader is after it served something: the same reader, with windows in
-- its cache that are all good.
structure Carries (good : Nat → Bytes → Prop) (before after : HexReader) : Prop where
  kept : Lru.Keeps after.options.capacity good after.cache
  options : after.options = before.options
  len : after.len = before.len

theorem Carries.refl (kept : Lru.Keeps reader.options.capacity good reader.cache) : Carries good reader reader :=
  ⟨kept,rfl,rfl⟩

theorem Carries.trans (first : Carries good a b) (second : Carries good b c) : Carries good a c :=
  ⟨second.kept,second.options.trans first.options,second.len.trans first.len⟩

def windowAt (image : Image) (size index : Nat) : Bytes := image.readAt (index*size) size

-- A window that is loaded is good.
def Loads (good : Nat → Bytes → Prop) (image : Image) (size : Nat) : Prop :=
  size ≤ isizeMax → ∀ index, index*size ≤ u64Max → good index (windowAt image size index)

theorem window_carries (loads : Loads good image reader.options.windowSize) (inside : index*reader.options.windowSize ≤ u64Max)
    (kept : Lru.Keeps reader.options.capacity good reader.cache) :
    Carries good reader (window image index reader).2 ∧ ∀ held, (window image index reader).1 = some held → good index held := by
  unfold window
  cases found : Lru.takeOut index reader.cache with
  | some pair =>
    obtain ⟨touched,held⟩ := Lru.keeps_touch kept found
    exact ⟨⟨touched,rfl,rfl⟩,fun _ same => Option.some.inj same ▸ held⟩
  | none =>
    dsimp only
    split
    · exact ⟨⟨kept,rfl,rfl⟩,fun _ absent => by cases absent⟩
    · rename_i small
      have fresh := loads (Nat.le_of_not_gt small) index inside
      rw [Nat.min_eq_left inside]
      exact ⟨⟨Lru.keeps_admit kept found fresh,rfl,rfl⟩,fun _ same => Option.some.inj same ▸ fresh⟩

-- A window comes back unless it would have to be loaded and is too wide for it.
theorem window_some (small : reader.options.windowSize ≤ isizeMax) (image : Image) (index : Nat) :
    ∃ held, (window image index reader).1 = some held := by
  unfold window
  cases Lru.takeOut index reader.cache with
  | some pair => exact ⟨_,rfl⟩
  | none => rw [if_neg (Nat.not_lt.mpr small)]; exact ⟨_,rfl⟩

theorem window_panics (wide : isizeMax < reader.options.windowSize) (empty : reader.cache = []) (image : Image) (index : Nat) :
    (window image index reader).1 = none := by
  simp [window,empty,Lru.takeOut,wide]

theorem position_window (reader : HexReader) (inside : position < u64Max) :
    position/reader.options.windowSize*reader.options.windowSize ≤ u64Max :=
  (Nat.div_mul_le_self _ _).trans inside.le

theorem readRounds_carries (loads : Loads good image reader.options.windowSize) (bounded : stop ≤ u64Max)
    (kept : Lru.Keeps reader.options.capacity good reader.cache) (rounds position : Nat) (out : Bytes) :
    Carries good reader (readRounds image stop rounds position out reader).2 := by
  induction rounds generalizing reader position out with
  | zero => exact .refl kept
  | succ rounds ih =>
    rw [readRounds]
    split
    · rename_i more
      have served := (window_carries loads (position_window reader (Nat.lt_of_lt_of_le more bounded)) kept).1
      dsimp only
      generalize window image (position/reader.options.windowSize) reader = answered at served
      obtain ⟨held,after⟩ := answered
      cases held with
      | none => exact served
      | some held =>
        dsimp only at served ⊢
        split
        · exact ⟨served.kept,served.options,served.len⟩
        · exact served.trans (ih (served.options ▸ loads) served.kept _ _)
    · exact .refl kept

theorem readRange_carries (loads : Loads good image reader.options.windowSize)
    (kept : Lru.Keeps reader.options.capacity good reader.cache) (offset len : U64) :
    Carries good reader (readRange image offset len reader).2 := by
  unfold readRange
  split
  · exact .refl kept
  · have served := readRounds_carries loads (Nat.min_le_right (offset.toNat+len.toNat) u64Max) kept
      (min (offset.toNat+len.toNat) u64Max-offset.toNat) offset.toNat []
    dsimp only
    generalize readRounds image _ _ _ _ reader = answered at served
    obtain ⟨out,after⟩ := answered
    cases out with
    | none => exact served
    | some out => exact ⟨served.kept,served.options,served.len⟩

theorem readExactAt_carries (loads : Loads good image reader.options.windowSize)
    (kept : Lru.Keeps reader.options.capacity good reader.cache) (offset len : U64) :
    Carries good reader (readExactAt image offset len reader).2 := by
  have served := readRange_carries loads kept offset len
  unfold readExactAt
  generalize readRange image offset len reader = answered at served
  obtain ⟨out,after⟩ := answered
  cases out with
  | none => exact served
  | some out =>
    dsimp only
    split <;> exact served

theorem lineRounds_carries (loads : Loads good image reader.options.windowSize)
    (kept : Lru.Keeps reader.options.capacity good reader.cache) (firstRow left index : Nat) (lines : List HexLine) :
    Carries good reader (lineRounds image firstRow left index lines reader).2 := by
  induction left generalizing reader index lines with
  | zero => exact .refl kept
  | succ left ih =>
    rw [lineRounds]
    dsimp only
    split
    · exact .refl kept
    · have served := readRange_carries loads kept (.ofNat 64 (min (min (firstRow+index) u64Max*bytesPerRow) u64Max))
        (.ofNat 64 (min (reader.len-min (min (firstRow+index) u64Max*bytesPerRow) u64Max) bytesPerRow))
      generalize readRange image _ _ reader = answered at served
      obtain ⟨out,after⟩ := answered
      cases out with
      | none => exact served
      | some out => exact served.trans (ih (served.options ▸ loads) served.kept _ _)

theorem readLines_carries (loads : Loads good image reader.options.windowSize)
    (kept : Lru.Keeps reader.options.capacity good reader.cache) (firstRow rowCount : U64) :
    Carries good reader (readLines image firstRow rowCount reader).2 := by
  unfold readLines
  split
  · exact .refl kept
  · exact lineRounds_carries loads kept _ _ _ _

-- A window of the file as it is.
def Current (image : Image) (size index : Nat) (held : Bytes) : Prop := held = windowAt image size index

theorem current_loads (image : Image) (size : Nat) : Loads (Current image size) image size := fun _ _ _ => rfl

-- Where the window of a position ends before it, the file does.
theorem window_short (positive : 1 ≤ size) (short : (windowAt image size (position/size)).length ≤ position - position/size*size) :
    image.bytes.length ≤ position := by
  have below := Nat.div_mul_le_self position size
  have above := Nat.lt_div_mul_add (a:=position) positive
  simp only [windowAt,Image.readAt,List.length_take,List.length_drop] at short
  omega

theorem window_slice (room : take ≤ (windowAt image size (position/size)).length - (position - position/size*size)) :
    ((windowAt image size (position/size)).drop (position - position/size*size)).take take = (image.bytes.drop position).take take := by
  have below := Nat.div_mul_le_self position size
  simp only [windowAt,Image.readAt,List.length_take,List.length_drop] at room ⊢
  rw [List.drop_take,List.drop_drop,List.take_take,Nat.add_sub_cancel' below,Nat.min_eq_left (by omega)]

-- With current windows the loop takes what is left of the range, round by round;
-- the bound on the rounds is never what ends it.
theorem readRounds_exact (small : reader.options.windowSize ≤ isizeMax) (bounded : stop ≤ u64Max)
    (kept : Lru.Keeps reader.options.capacity (Current image reader.options.windowSize) reader.cache)
    (position : Nat) (enough : stop - position ≤ rounds) (out : Bytes) :
    (readRounds image stop rounds position out reader).1 = some (out ++ (image.bytes.drop position).take (stop-position)) := by
  induction rounds generalizing reader position out with
  | zero => simp [readRounds,Nat.le_zero.mp enough]
  | succ rounds ih =>
    rw [readRounds]
    split
    · rename_i more
      have served := window_carries (current_loads _ _) (position_window reader (Nat.lt_of_lt_of_le more bounded)) kept
      obtain ⟨held,answers⟩ := window_some small image (position/reader.options.windowSize)
      dsimp only
      generalize window image (position/reader.options.windowSize) reader = answered at served answers
      obtain ⟨answer,after⟩ := answered
      subst answers
      obtain ⟨carries,current⟩ := served
      have same : held = windowAt image reader.options.windowSize (position/reader.options.windowSize) := current held rfl
      subst same
      dsimp only at carries ⊢
      rw [carries.options]
      split
      · rename_i nothing
        have ended := window_short reader.options.wide (Nat.le_of_sub_eq_zero nothing)
        rw [List.drop_eq_nil_of_le ended,List.take_nil,List.append_nil]
      · rename_i something
        have positive := Nat.pos_of_ne_zero something
        generalize taken : min _ (stop-position) = take
        have room := taken ▸ Nat.min_le_left _ _
        have most := taken ▸ Nat.min_le_right _ _
        have least : 0 < take := taken ▸ Nat.lt_min.mpr ⟨positive,Nat.sub_pos_of_lt more⟩
        rw [window_slice room,
          ih (carries.options ▸ small) (carries.options ▸ carries.kept) (position+take) (by omega) _,List.append_assoc]
        congr 2
        rw [show stop-position = take+(stop-(position+take)) by omega,List.take_add,List.drop_drop]
    · rename_i beyond
      rw [Nat.sub_eq_zero_of_le (Nat.le_of_not_lt beyond)]
      simp

-- What a read of the file without a cache returns.
def uncached (image : Image) (offset len : U64) : Bytes :=
  image.bytes.extract offset.toNat (min (offset.toNat+len.toNat) image.bytes.length)

theorem uncached_eq (image : Image) (offset len : U64) :
    uncached image offset len = (image.bytes.drop offset.toNat).take (min (offset.toNat+len.toNat) u64Max - offset.toNat) := by
  have fits := image.fits
  have bound : u64Max = 2^64-1 := rfl
  rw [uncached,List.extract_eq_take_drop,List.take_eq_take_iff,List.length_drop]
  omega

-- The requests a vector can be made for, in a reader whose windows can be.
def Modest (geometry : Geometry) (offset len : U64) : Prop :=
  len.toNat ≤ isizeMax ∧ (offset.toNat < min (offset.toNat+len.toNat) u64Max → geometry.windowSize ≤ isizeMax)

instance (geometry : Geometry) (offset len : U64) : Decidable (Modest geometry offset len) := by
  unfold Modest; infer_instance

theorem readRange_exact {offset len : U64} (modest : Modest reader.options offset len)
    (kept : Lru.Keeps reader.options.capacity (Current image reader.options.windowSize) reader.cache) :
    (readRange image offset len reader).1 = some (uncached image offset len) := by
  rw [readRange,if_neg (Nat.not_lt.mpr modest.1)]
  dsimp only
  rw [uncached_eq]
  by_cases some : offset.toNat < min (offset.toNat+len.toNat) u64Max
  · have exact := readRounds_exact (modest.2 some) (Nat.min_le_right (offset.toNat+len.toNat) u64Max) kept offset.toNat
      (Nat.le_refl _) []
    generalize readRounds image _ _ _ _ reader = answered at exact
    obtain ⟨out,after⟩ := answered
    subst exact
    rfl
  · rw [Nat.sub_eq_zero_of_le (Nat.le_of_not_lt some)]
    simp [readRounds]

-- With nothing cached, a request that is not modest ends in a panic.
theorem readRange_panics {offset len : U64} (immodest : ¬ Modest reader.options offset len)
    (empty : isizeMax < reader.options.windowSize → reader.cache = []) : (readRange image offset len reader).1 = none := by
  unfold readRange
  split
  · rfl
  · rename_i small
    obtain ⟨some,wide⟩ : offset.toNat < min (offset.toNat+len.toNat) u64Max ∧ isizeMax < reader.options.windowSize := by
      by_contra inside
      exact immodest ⟨Nat.le_of_not_gt small,fun some => Nat.le_of_not_gt fun wide => inside ⟨some,wide⟩⟩
    have panics := window_panics wide (empty wide) image (offset.toNat/reader.options.windowSize)
    obtain ⟨rounds,count⟩ : ∃ rounds, min (offset.toNat+len.toNat) u64Max - offset.toNat = rounds+1 :=
      ⟨_,(Nat.succ_pred_eq_of_pos (Nat.sub_pos_of_lt some)).symm⟩
    dsimp only
    rw [count,readRounds,if_pos some]
    dsimp only
    generalize window image (offset.toNat/reader.options.windowSize) reader = answered at panics
    obtain ⟨answer,after⟩ := answered
    subst panics
    rfl

inductive Op where
  | readRange (offset len : U64)
  | readExactAt (offset len : U64)
  | readLines (firstRow rowCount : U64)
  | clearCache
  | refreshLen
deriving DecidableEq, Repr

def perform (image : Image) (reader : HexReader) : Op → HexReader
  | .readRange offset len => (readRange image offset len reader).2
  | .readExactAt offset len => (readExactAt image offset len reader).2
  | .readLines firstRow rowCount => (readLines image firstRow rowCount reader).2
  | .clearCache => clearCache reader
  | .refreshLen => refreshLen image reader

theorem perform_kept (loads : Loads good image reader.options.windowSize)
    (kept : Lru.Keeps reader.options.capacity good reader.cache) (op : Op) :
    Lru.Keeps (perform image reader op).options.capacity good (perform image reader op).cache ∧
      (perform image reader op).options = reader.options := by
  cases op with
  | readRange offset len => exact ⟨(readRange_carries loads kept offset len).kept,(readRange_carries loads kept offset len).options⟩
  | readExactAt offset len =>
    exact ⟨(readExactAt_carries loads kept offset len).kept,(readExactAt_carries loads kept offset len).options⟩
  | readLines firstRow rowCount =>
    exact ⟨(readLines_carries loads kept firstRow rowCount).kept,(readLines_carries loads kept firstRow rowCount).options⟩
  | clearCache => exact ⟨Lru.keeps_nil _ _,rfl⟩
  | refreshLen => exact ⟨kept,rfl⟩

-- The file stays as it is while a reader works on it.
def execute (image : Image) (reader : HexReader) (op : Op) : Option HexReader := some (perform image reader op)

-- No more windows than there is room for, none twice, all of them the file's.
def Sound (image : Image) (reader : HexReader) : Prop :=
  Lru.Keeps reader.options.capacity (Current image reader.options.windowSize) reader.cache

-- The memory bound that `stats` lets a test observe.
theorem resident_bounded (sound : Sound image reader) : reader.statistics.residentBytes ≤ reader.byteBound := by
  have wide := reader.options.wide
  have roomy := reader.options.roomy
  rw [byteBound,HexWindowOptions.byteBound,Nat.max_eq_left wide,Nat.max_eq_left roomy,Nat.mul_comm]
  exact Nat.mul_le_mul_right _ sound.bounded

def Exact (image : Image) (reader : HexReader) (op : Op) (after : HexReader) : Prop :=
  Sound image after ∧ match op with
    | .readRange offset len => (readRange image offset len reader).1 = some (uncached image offset len)
    | _ => True

def Asks (geometry : Geometry) : Op → Prop
  | .readRange offset len => Modest geometry offset len
  | _ => True

-- The windows of a reader whose windows cannot be made for lack of capacity are
-- none, whatever was asked of it.
def Made (image : Image) (size index : Nat) (held : Bytes) : Prop := Current image size index held ∧ size ≤ isizeMax

theorem made_loads (image : Image) (size : Nat) : Loads (Made image size) image size := fun small _ _ => ⟨rfl,small⟩

def Working (image : Image) (geometry : Geometry) (reader : HexReader) : Prop :=
  reader.options = geometry ∧ Lru.Keeps reader.options.capacity (Made image reader.options.windowSize) reader.cache

theorem Working.sound (working : Working image geometry reader) : Sound image reader :=
  working.2.mono fun _ _ made => made.1

theorem Working.empty (working : Working image geometry reader) (wide : isizeMax < reader.options.windowSize) : reader.cache = [] := by
  cases held : reader.cache with
  | nil => rfl
  | cons entry rest =>
    have small := (working.2.faithful entry (by simp [held])).2
    omega

theorem Working.perform (working : Working image geometry reader) (op : Op) : Working image geometry (perform image reader op) := by
  obtain ⟨kept,same⟩ := perform_kept (made_loads image _) working.2 op
  exact ⟨same.trans working.1,same ▸ kept⟩

theorem withOptions_working (path : Text) (image : Image) (options : HexWindowOptions) :
    Working image options.clamped (withOptions path image options) := ⟨rfl,Lru.keeps_nil _ _⟩

theorem exact_iff (working : Working image geometry reader) (op : Op) :
    Exact image reader op (HexReader.perform image reader op) ↔ Asks geometry op := by
  have sound := (working.perform op).sound
  cases op with
  | readRange offset len =>
    simp only [Exact,sound,true_and,Asks]
    constructor
    · intro exact
      by_contra immodest
      rw [readRange_panics (working.1 ▸ immodest) working.empty] at exact
      cases exact
    · intro modest
      exact readRange_exact (working.1 ▸ modest) working.sound
  | readExactAt offset len => exact iff_of_true ⟨sound,trivial⟩ trivial
  | readLines firstRow rowCount => exact iff_of_true ⟨sound,trivial⟩ trivial
  | clearCache => exact iff_of_true ⟨sound,trivial⟩ trivial
  | refreshLen => exact iff_of_true ⟨sound,trivial⟩ trivial

theorem reads_exact_iff (path : Text) (image : Image) (options : HexWindowOptions) (ops : List Op) :
    Steps.Along (execute image) (Exact image) (withOptions path image options) ops ↔
      ∀ op ∈ ops, Asks options.clamped op := by
  rw [← Steps.along_total (fun reader op => ⟨HexReader.perform image reader op,rfl⟩) (withOptions path image options)]
  apply Steps.along_iff (Working image options.clamped) _ _ (withOptions_working path image options)
    (Steps.along_always (P:=fun _ _ _ => True) (fun _ _ _ _ => trivial) _ _)
  · intro reader op after working taken _
    cases taken
    exact exact_iff working op
  · intro reader op after working taken _ _
    cases taken
    exact working.perform op

theorem reads_exact_overflow : ¬ Steps.Along (execute ⟨[1,2,3],by decide⟩) (Exact ⟨[1,2,3],by decide⟩)
    (withOptions [] ⟨[1,2,3],by decide⟩ {}) [.readRange 0 0x8000000000000000] := by
  intro along
  exact absurd along.1.2 (by decide +kernel)

-- A reader of a file that others append to.
structure Watched where
  image : Image
  reader : HexReader
deriving DecidableEq, Repr

inductive Event where
  | op (op : Op)
  | append (bytes : Bytes)
deriving DecidableEq, Repr

def Image.append (image : Image) (bytes : Bytes) : Option Image :=
  if fits : (image.bytes++bytes).length < 2^64 then some ⟨image.bytes++bytes,fits⟩ else none

def watch (path : Text) (image : Image) (options : HexWindowOptions) : Watched := ⟨image,withOptions path image options⟩

def advance (watched : Watched) : Event → Option Watched
  | .op op => some {watched with reader:=perform watched.image watched.reader op}
  | .append bytes => (Image.append watched.image bytes).map fun image => {watched with image:=image}

-- The reader knows the size of the file: its length was taken since the file
-- last grew.
def Refreshed (watched : Watched) : Prop := watched.reader.len = watched.image.bytes.length

instance (watched : Watched) : Decidable (Refreshed watched) := by
  unfold Refreshed; infer_instance

def Answers (watched : Watched) : Prop := ∀ offset len : U64, Modest watched.reader.options offset len →
  (readRange watched.image offset len watched.reader).1 = some (uncached watched.image offset len)

-- A short window past whose end the file has grown.
def Stale (image : Image) (size index : Nat) (held : Bytes) : Prop :=
  held.length < size ∧ index*size+held.length < image.bytes.length

instance (image : Image) (size index : Nat) (held : Bytes) : Decidable (Stale image size index held) := by
  unfold Stale; infer_instance

def Fresh (watched : Watched) : Prop :=
  ∀ entry ∈ watched.reader.cache, ¬ Stale watched.image watched.reader.options.windowSize entry.1 entry.2

-- What was a window once is the front of it from then on.
def Read (image : Image) (size index : Nat) (held : Bytes) : Prop :=
  size ≤ isizeMax ∧ index*size ≤ u64Max ∧ held <+: windowAt image size index

theorem read_loads (image : Image) (size : Nat) : Loads (Read image size) image size :=
  fun small _ inside => ⟨small,inside,List.prefix_refl _⟩

theorem read_current (read : Read image size index held) (fresh : ¬ Stale image size index held) : Current image size index held := by
  have wide : (windowAt image size index).length ≤ held.length := by
    simp only [Stale,windowAt,Image.readAt,List.length_take,List.length_drop] at fresh ⊢
    omega
  exact read.2.2.eq_of_length (Nat.le_antisymm read.2.2.length_le wide)

theorem read_grown (read : Read image size index held) (grown : image.bytes <+: later.bytes) : Read later size index held :=
  ⟨read.1,read.2.1,read.2.2.trans ((grown.drop _).take _)⟩

structure Grown (watched : Watched) : Prop where
  kept : Lru.Keeps watched.reader.options.capacity (Read watched.image watched.reader.options.windowSize) watched.reader.cache
  known : watched.reader.len ≤ watched.image.bytes.length

theorem fresh_answers (grown : Grown watched) (fresh : Fresh watched) : Answers watched := fun _ _ modest =>
  readRange_exact modest (grown.kept.mono fun entry member read => read_current read (fresh entry member))

-- A read that starts where a stale window ends finds that window again, and
-- takes its end for the end of the file.
theorem stale_misses (grown : Grown watched) (member : entry ∈ watched.reader.cache)
    (stale : Stale watched.image watched.reader.options.windowSize entry.1 entry.2) : ¬ Answers watched := by
  intro answers
  have fits := watched.image.fits
  have read := grown.kept.faithful entry member
  have positive := watched.reader.options.wide
  have bound : u64Max = 2^64-1 := rfl
  generalize placed : entry.1*watched.reader.options.windowSize+entry.2.length = position at stale
  have small : position < 2^64-1 := by have := stale.2; omega
  have offset : (BitVec.ofNat 64 position).toNat = position := by rw [BitVec.toNat_ofNat]; omega
  have stop : min (position+1) u64Max = position+1 := by omega
  have index : position/watched.reader.options.windowSize = entry.1 := by
    rw [← placed,Nat.mul_comm,Nat.mul_add_div positive,Nat.div_eq_of_lt stale.1,Nat.add_zero]
  have modest : Modest watched.reader.options (.ofNat 64 position) 1 := ⟨by decide,fun _ => read.1⟩
  obtain ⟨found,rest,taken⟩ : ∃ found rest, Lru.takeOut entry.1 watched.reader.cache = some (found,rest) := by
    cases taken : Lru.takeOut entry.1 watched.reader.cache with
    | none => exact absurd (List.mem_map_of_mem member) (Lru.takeOut_none.mp taken)
    | some pair => exact ⟨pair.1,pair.2,rfl⟩
  have same : found = entry := Lru.takeOut_unique grown.kept.distinct member taken
  subst same
  have ended : found.2.length - (position - found.1*watched.reader.options.windowSize) = 0 := by omega
  have nothing : (readRange watched.image (.ofNat 64 position) 1 watched.reader).1 = some [] := by
    simp [readRange,offset,stop,readRounds,index,window,taken,ended,isizeMax]
  have missing := (answers _ _ modest).symm.trans nothing
  rw [uncached_eq,offset,show (1:U64).toNat = 1 from rfl,stop,Nat.add_sub_cancel_left] at missing
  have size := congrArg List.length (Option.some.inj missing)
  simp only [List.length_take,List.length_drop,List.length_nil] at size
  have := stale.2
  omega

theorem answers_iff (grown : Grown watched) : Answers watched ↔ Fresh watched :=
  ⟨fun answers _ member stale => stale_misses grown member stale answers,fresh_answers grown⟩

theorem current_fresh (current : Current image size index held) : ¬ Stale image size index held := by
  subst current
  simp only [Stale,windowAt,Image.readAt,List.length_take,List.length_drop]
  omega

theorem perform_len (loads : Loads good image reader.options.windowSize)
    (kept : Lru.Keeps reader.options.capacity good reader.cache) {op : Op} (other : op ≠ .refreshLen) :
    (perform image reader op).len = reader.len := by
  cases op with
  | readRange offset len => exact (readRange_carries loads kept offset len).len
  | readExactAt offset len => exact (readExactAt_carries loads kept offset len).len
  | readLines firstRow rowCount => exact (readLines_carries loads kept firstRow rowCount).len
  | clearCache => rfl
  | refreshLen => exact absurd rfl other

theorem perform_grown (grown : Grown watched) (op : Op) :
    Grown {watched with reader:=perform watched.image watched.reader op} := by
  obtain ⟨kept,same⟩ := perform_kept (read_loads _ _) grown.kept op
  refine ⟨same ▸ kept,?_⟩
  by_cases refresh : op = .refreshLen
  · subst refresh
    exact Nat.le_refl _
  · rw [perform_len (read_loads _ _) grown.kept refresh]
    exact grown.known

theorem append_grown (grown : Grown watched) (appended : Image.append watched.image bytes = some later) :
    Grown {watched with image:=later} := by
  unfold Image.append at appended
  split at appended
  · cases appended
    have longer := List.prefix_append watched.image.bytes bytes
    exact ⟨grown.kept.mono fun _ _ read => read_grown read longer,grown.known.trans longer.length_le⟩
  · cases appended

-- Where the windows are fresh an operation leaves them so.
theorem perform_fresh (grown : Grown watched) (fresh : Fresh watched) (op : Op) :
    Fresh {watched with reader:=perform watched.image watched.reader op} := by
  have current := grown.kept.mono fun entry member read => read_current read (fresh entry member)
  obtain ⟨kept,same⟩ := perform_kept (current_loads _ _) current op
  intro entry member
  dsimp only at member ⊢
  rw [same]
  exact current_fresh (kept.faithful entry member)

structure Upheld (watched : Watched) : Prop where
  grown : Grown watched
  fresh : Refreshed watched → Fresh watched

theorem watch_upheld (path : Text) (image : Image) (options : HexWindowOptions) : Upheld (watch path image options) :=
  ⟨⟨Lru.keeps_nil _ _,Nat.le_refl _⟩,fun _ _ member => by cases member⟩

def Refreshes : Event → Prop
  | .op .refreshLen => True
  | _ => False

theorem advance_upheld (upheld : Upheld watched) (taken : advance watched event = some after)
    (clean : Refreshes event → Fresh watched) : Upheld after := by
  cases event with
  | op op =>
    cases taken
    refine ⟨perform_grown upheld.grown op,?_⟩
    intro refreshed
    by_cases refresh : op = .refreshLen
    · subst refresh
      exact clean trivial
    · have before : watched.reader.len = watched.image.bytes.length := by
        rw [← perform_len (read_loads _ _) upheld.grown.kept refresh]
        exact refreshed
      exact perform_fresh upheld.grown (upheld.fresh before) op
  | append bytes =>
    simp only [advance,Option.map_eq_some_iff] at taken
    obtain ⟨later,appended,rfl⟩ := taken
    refine ⟨append_grown upheld.grown appended,?_⟩
    intro refreshed
    have known := upheld.grown.known
    unfold Image.append at appended
    split at appended
    · cases appended
      simp only [Refreshed,List.length_append] at refreshed
      have nothing : bytes = [] := List.eq_nil_of_length_eq_zero (by omega)
      subst nothing
      rw [Image.ext (x:=⟨watched.image.bytes++[],_⟩) (y:=watched.image) (List.append_nil _)]
      exact upheld.fresh (by simp only [Refreshed]; omega)
    · cases appended

-- After a refresh every read is exact again if and only if no window that was
-- short when it was read is still held: the refresh keeps the cache.
theorem refreshed_exact_iff (path : Text) (image : Image) (options : HexWindowOptions) (events : List Event) :
    Steps.Along advance (fun _ _ after => Refreshed after → Answers after) (watch path image options) events ↔
      Steps.Along advance (fun watched event _ => Refreshes event → Fresh watched) (watch path image options) events := by
  apply Steps.along_iff Upheld _ _ (watch_upheld path image options)
    (Steps.along_always (P:=fun _ _ _ => True) (fun _ _ _ _ => trivial) _ _)
  · intro watched event after upheld taken _
    constructor
    · intro answers refreshes
      match event with
      | .op .refreshLen =>
        cases taken
        exact (answers_iff (perform_grown upheld.grown .refreshLen)).mp (answers rfl)
    · intro clean refreshed
      have later := advance_upheld upheld taken clean
      exact fresh_answers later.grown (later.fresh refreshed)
  · intro watched event after upheld taken _ clean
    exact advance_upheld upheld taken clean

-- Three bytes of a window of four are read, then a fourth is appended.
theorem refreshed_exact_stale : ¬ Steps.Along advance (fun _ _ after => Refreshed after → Answers after)
    (watch [] ⟨[1,2,3],by decide⟩ {windowSize:=4,capacity:=1})
    [.op (.readRange 0 3),.append [4],.op .refreshLen] := by
  intro along
  have answers := along.2.2.1 (by decide +kernel)
  exact absurd (answers 0 4 (by decide +kernel)) (by decide +kernel)

end HexReader
end PrincessIDE.Hex
