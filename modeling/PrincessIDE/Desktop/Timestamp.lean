import PrincessIDE.Core.Envelope
import PrincessIDE.Foundation.Calendar

namespace PrincessIDE.Timestamp
open Utf8 (Text Bytes encode fromUtf8)
open Str Calendar Event

-- The arithmetic of the code, which panics where a result is out of range.
def i64 (n : Int) : Option Int := if -2^63 ≤ n ∧ n < 2^63 then some n else none

def sub (a b : Nat) : Option Nat := if b ≤ a then some (a-b) else none

-- What the era is the quotient of: the division rounds towards zero.
def dividend (z : Int) : Option Int := if 0 ≤ z then some z else i64 (z-146096)

def civilFromDays (z : Int) : Option Date := do
  let z ← i64 (z+719468)
  let era := (← dividend z).tdiv 146097
  let doe := ((← i64 (z - (← i64 (era*146097)))) % 2^64).toNat
  let yoe := (← sub ((← sub doe (doe/1460)) + doe/36524) (doe/146096)) / 365
  let y ← i64 (yoe + (← i64 (era*400)))
  let doy ← sub doe (← sub (365*yoe + yoe/4) (yoe/100))
  let mp := (5*doy+2)/153
  let d := ((← sub doy ((153*mp+2)/5)) + 1) % 2^32
  let m := if mp < 10 then mp+3 else mp-9
  return ⟨if m ≤ 2 then y+1 else y,m,d⟩

example : civilFromDays 19723 = some ⟨2024,1,1⟩ := by decide +kernel

theorem i64_ok (low : -2^63 ≤ n) (high : n < 2^63) : i64 n = some n := if_pos ⟨low,high⟩

theorem sub_ok (le : b ≤ a) : sub a b = some (a-b) := if_pos le

-- The days of an era of 400 years in front of one of its years, which begin
-- with March.
def marchYear (n : Nat) : Nat := 365*n + n/4 - n/100 + n/400

def yoeDays (doe : Nat) : Nat := doe - doe/1460 + doe/36524 - doe/146096

theorem yoeDays_mono (le : a ≤ b) (inside : b < 146097) : yoeDays a ≤ yoeDays b := by
  unfold yoeDays
  have centuries : a/36524 ≤ b/36524 := Nat.div_le_div_right le
  have first : a - a/1460 ≤ b - b/1460 := by omega
  by_cases last : b = 146096
  · subst last
    omega
  · have early : b/146096 = 0 := by omega
    omega

-- The first and the last day of each of the 400 years.
theorem yoeDays_ends : ∀ n < 400, 365*n ≤ yoeDays (marchYear n) ∧ yoeDays (marchYear (n+1) - 1) < 365*(n+1) := by
  decide +kernel

-- The year of the era that the formula finds is the one that a day is in.
theorem yoe_year (inside : doe < 146097) :
    yoeDays doe / 365 < 400 ∧ marchYear (yoeDays doe / 365) ≤ doe ∧ doe < marchYear (yoeDays doe / 365 + 1) := by
  generalize year : yoeDays doe / 365 = n
  have low : 365*n ≤ yoeDays doe := by omega
  have high : yoeDays doe < 365*(n+1) := by omega
  have last := yoeDays_mono (Nat.le_of_lt_succ inside) (by decide)
  have ends : yoeDays 146096 < 365*400 := by decide
  have small : n < 400 := by omega
  refine ⟨small,?_,?_⟩
  · by_contra before
    cases n with
    | zero => exact before (Nat.zero_le doe)
    | succ n =>
      have bound := (yoeDays_ends n (by omega)).2
      have inner : marchYear (n+1) - 1 < 146097 := by
        unfold marchYear
        omega
      have fewer := yoeDays_mono (show doe ≤ marchYear (n+1) - 1 by omega) inner
      omega
  · by_contra behind
    by_cases final : n = 399
    · subst final
      have whole : marchYear (399+1) = 146097 := by decide
      omega
    · have bound := (yoeDays_ends (n+1) (by omega)).1
      have more := yoeDays_mono (show marchYear (n+1) ≤ doe by omega) inside
      omega

def monthIndex (doy : Nat) : Nat := (5*doy+2)/153

def monthOf (doy : Nat) : Nat := if monthIndex doy < 10 then monthIndex doy + 3 else monthIndex doy - 9

def dayOf (doy : Nat) : Nat := doy - (153*monthIndex doy + 2)/5 + 1

-- A year from March on has ten months of one year of the calendar and two of
-- the next.
theorem month_spec : ∀ before after : Bool, ∀ doy < 366, doy < yearLength after →
    (153*monthIndex doy + 2)/5 ≤ doy ∧ 1 ≤ monthOf doy ∧ monthOf doy ≤ 12 ∧ dayOf doy ≤ 31 ∧
    if monthOf doy ≤ 2 then dayOf doy ≤ monthLength after (monthOf doy) ∧ daysBeforeMonth after (monthOf doy) + (dayOf doy - 1) + 306 = doy
    else dayOf doy ≤ monthLength before (monthOf doy) ∧
      daysBeforeMonth before (monthOf doy) + (dayOf doy - 1) + 306 = yearLength before + doy := by
  decide +kernel

-- The date that is so many days behind the first of March of the year 0.
def fromMarch (z : Int) : Date :=
  let doe := (z % 146097).toNat
  let n := yoeDays doe / 365
  let doy := doe - marchYear n
  let y := n + z / 146097 * 400
  ⟨if monthOf doy ≤ 2 then y+1 else y,monthOf doy,dayOf doy⟩

theorem marchYear_count {n : Nat} (era : Int) (small : n ≤ 400) : daysBeforeYear (n + era*400 + 1) = era*146097 + marchYear n := by
  unfold daysBeforeYear marchYear
  omega

theorem marchYear_length {n : Nat} (era : Int) (small : n < 400) :
    marchYear n + yearLength (leapYear (n + era*400 + 1)) = marchYear (n+1) := by
  have year := marchYear_count era (Nat.le_of_lt small)
  have next := marchYear_count (n:=n+1) era small
  have moved := daysBeforeYear_succ (n + era*400 + 1)
  rw [year] at moved
  rw [show ((n+1 : Nat) : Int) + era*400 + 1 = n + era*400 + 1 + 1 by omega,moved] at next
  omega

theorem fromMarch_spec (z : Int) : (fromMarch z).Valid ∧ (fromMarch z).count = z - 306 := by
  have inside : (z % 146097).toNat < 146097 := by omega
  have cut : z = z / 146097 * 146097 + (z % 146097).toNat := by omega
  unfold fromMarch
  generalize (z % 146097).toNat = doe at inside cut
  generalize z / 146097 = era at cut
  obtain ⟨small,low,high⟩ := yoe_year inside
  dsimp only
  generalize yoeDays doe / 365 = n at small low high
  have length := marchYear_length era small
  have start := marchYear_count era (Nat.le_of_lt small)
  have moved := daysBeforeYear_succ (n + era*400)
  generalize year : (n : Int) + era*400 = y at length start moved
  have early : doe - marchYear n < yearLength (leapYear (y+1)) := by omega
  have bound := yearLength_le (leapYear (y+1))
  obtain ⟨_,first,december,_,days⟩ := month_spec (leapYear y) (leapYear (y+1)) (doe - marchYear n) (by omega) early
  have positive : 1 ≤ dayOf (doe - marchYear n) := Nat.le_add_left 1 _
  by_cases winter : monthOf (doe - marchYear n) ≤ 2
  · rw [if_pos winter] at days ⊢
    refine ⟨⟨first,december,positive,days.1⟩,?_⟩
    unfold Date.count Date.dayOfYear
    dsimp only
    omega
  · rw [if_neg winter] at days ⊢
    refine ⟨⟨first,december,positive,days.1⟩,?_⟩
    unfold Date.count Date.dayOfYear
    dsimp only
    omega

theorem dividend_era (low : -2^63+719468 ≤ w) : ∃ shifted, dividend w = some shifted ∧ shifted.tdiv 146097 = w / 146097 := by
  have one : Int.sign 146097 = 1 := rfl
  unfold dividend
  split
  · refine ⟨w,rfl,?_⟩
    rw [Int.tdiv_eq_ediv,if_pos (Or.inl ‹_›)]
    omega
  · refine ⟨w-146096,i64_ok (by omega) (by omega),?_⟩
    rw [Int.tdiv_eq_ediv,one]
    split <;> omega

theorem civilFromDays_eq (low : -2^63 ≤ z) (high : z+719468 < 2^63) : civilFromDays z = some (fromMarch (z+719468)) := by
  unfold civilFromDays
  rw [i64_ok (by omega) high]
  have low : -2^63+719468 ≤ z+719468 := by omega
  generalize z+719468 = w at high low
  obtain ⟨shifted,found,era⟩ := dividend_era low
  have inside : (w % 146097).toNat < 146097 := by omega
  have doe : ((w - w/146097*146097) % 2^64).toNat = (w % 146097).toNat := by omega
  obtain ⟨small,first,behind⟩ := yoe_year inside
  have product : i64 (w/146097*146097) = some (w/146097*146097) := i64_ok (by omega) (by omega)
  have rest : i64 (w - w/146097*146097) = some (w - w/146097*146097) := i64_ok (by omega) (by omega)
  simp only [Option.bind_eq_bind,Option.bind_some,found,era,product,rest,doe]
  unfold fromMarch
  dsimp only
  generalize (w % 146097).toNat = doe at inside small first behind
  have days : sub (doe - doe/1460 + doe/36524) (doe/146096) = some (yoeDays doe) := sub_ok (by omega)
  simp only [sub_ok (show doe/1460 ≤ doe by omega),days,Option.bind_some]
  generalize yoeDays doe / 365 = n at small first behind
  have years : 365*n + n/4 - n/100 = marchYear n := by
    unfold marchYear
    omega
  have left : sub (365*n + n/4) (n/100) = some (marchYear n) := by rw [sub_ok (by omega),years]
  have length := marchYear_length 0 small
  have span := yearLength_le (leapYear (n + 0*400 + 1))
  have eras : i64 (w/146097*400) = some (w/146097*400) := i64_ok (by omega) (by omega)
  have year : i64 (n + w/146097*400) = some (n + w/146097*400) := i64_ok (by omega) (by omega)
  simp only [eras,year,left,sub_ok first,Option.bind_some]
  generalize doy : doe - marchYear n = k
  obtain ⟨enough,_,_,short,_⟩ := month_spec true true k (by omega) (by rw [yearLength,if_pos rfl]; omega)
  unfold monthIndex at enough
  have day : (k - (153*((5*k+2)/153) + 2)/5 + 1) % 2^32 = dayOf k := by
    refine Nat.mod_eq_of_lt (Nat.lt_of_le_of_lt short (by decide))
  simp only [sub_ok enough,Option.bind_some,day]
  rfl

-- Decimals with zeros in front up to a width, in which a sign counts.
def paddedDecimal (width n : Nat) : Text := (decimal n).leftpad width '0'

def paddedYear (y : Int) : Text := if y < 0 then '-' :: paddedDecimal 3 y.natAbs else paddedDecimal 4 y.toNat

-- The seconds and nanoseconds since the epoch, or none for a clock in front of it.
def durationSinceEpoch (now : DateTime) : Nat × Nat := if now.seconds < 0 then (0,0) else (now.seconds.toNat,now.nanos)

def dateText (date : Date) : Text := paddedYear date.year ++ '-' :: (paddedDecimal 2 date.month ++ '-' :: paddedDecimal 2 date.day)

def timeText (sod millis : Nat) : Text := paddedDecimal 2 (sod/3600) ++ ':' :: (paddedDecimal 2 (sod % 3600 / 60) ++
  ':' :: (paddedDecimal 2 (sod % 60) ++ '.' :: paddedDecimal 3 millis))

def nowIso8601 (now : DateTime) : Option Text := do
  let secs : Int := Int.bmod (durationSinceEpoch now).1 (2^64)
  let millis := (durationSinceEpoch now).2 / 1000000
  let date ← civilFromDays (secs / 86400)
  return dateText date ++ 'T' :: (timeText (secs % 86400).toNat millis ++ ['Z'])

-- `&t[start..stop]` by bytes.
def slice (t : Text) (start stop : Nat) : Option Text :=
  if stop ≤ (encode t).length then (fromUtf8 (((encode t).drop start).take (stop-start))).toOption else none

def parseI32 : Text → Option Int
  | '-' :: digits => if digits = [] then none else (readDigits 10 (2^31+1) 0 digits).map fun n => -n
  | t => (fromStrRadix 10 (2^31) t).map Int.ofNat

-- `with_ymd_and_hms` of the time library, unwrapped, and adding milliseconds.
structure Utc where
  withYmdAndHms : Int → Nat → Nat → Nat → Nat → Nat → Option DateTime
  addMillis : DateTime → Nat → Option DateTime

def parseTimestamp (utc : Utc) (ts : Text) : Option DateTime := do
  let datePart ← slice ts 0 10
  let timePart ← slice ts 11 23
  let parts := split ['-'] datePart
  let year := (parseI32 (← parts[0]?)).getD 2026
  let month := (fromStrRadix 10 u32 (← parts[1]?)).getD 1
  let day := (fromStrRadix 10 u32 (← parts[2]?)).getD 1
  let timeParts := split [':'] timePart
  let hour := (fromStrRadix 10 u32 (← timeParts[0]?)).getD 0
  let min := (fromStrRadix 10 u32 (← timeParts[1]?)).getD 0
  let secMs := split ['.'] (← timeParts[2]?)
  let sec := (fromStrRadix 10 u32 (← secMs[0]?)).getD 0
  let ms := (secMs[1]?.bind (fromStrRadix 10 u32)).getD 0
  utc.addMillis (← utc.withYmdAndHms year month day hour min sec) ms

-- What the library is documented to do in the years that it has: it makes the
-- instant of a valid date and time, and adds milliseconds to a whole second.
structure Utc.Documented (utc : Utc) : Prop where
  instant : ∀ (date : Date) (hour min sec : Nat), date.Valid → -262143 ≤ date.year → date.year ≤ 262142 → hour < 24 → min < 60 → sec < 60 →
    utc.withYmdAndHms date.year date.month date.day hour min sec = some ⟨date.sinceEpoch*86400 + hour*3600 + min*60 + sec,0⟩
  millis : ∀ (seconds : Int) (ms : Nat), ms < 1000 → utc.addMillis ⟨seconds,0⟩ ms = some ⟨seconds,ms*1000000⟩

theorem slice_ascii (ascii : ∀ c ∈ t, c.toNat < 0x80) (inside : stop ≤ t.length) (start : Nat) :
    slice t start stop = some ((t.drop start).take (stop-start)) := by
  have bytes : (encode t).length = t.length := by rw [Utf8.encode_ascii ascii,List.length_map]
  have part : ((encode t).drop start).take (stop-start) = encode ((t.drop start).take (stop-start)) := by
    have kept : ∀ c ∈ (t.drop start).take (stop-start), c.toNat < 0x80 := fun c member => ascii c (List.mem_of_mem_drop (List.mem_of_mem_take member))
    rw [Utf8.encode_ascii ascii,Utf8.encode_ascii kept,List.map_take,List.map_drop]
  rw [slice,if_pos (by omega),part,Utf8.fromUtf8_encode]
  rfl

theorem paddedDecimal_digits (member : c ∈ paddedDecimal width n) : 48 ≤ c.toNat ∧ c.toNat ≤ 57 := by
  rw [paddedDecimal,List.leftpad,List.mem_append] at member
  rcases member with zero | digit
  · rw [List.eq_of_mem_replicate zero]
    decide
  · exact decimal_isDigit digit

theorem paddedDecimal_length (width : Nat) (positive : 1 ≤ width) (small : n < 10^width) : (paddedDecimal width n).length = width := by
  have short : (decimal n).length ≤ width := (Nat.length_toDigits_le_iff (by decide) positive).mpr small
  rw [paddedDecimal,List.length_leftpad]
  exact Nat.max_eq_left short

theorem paddedDecimal_read (small : n < bound) (width : Nat) : fromStrRadix 10 bound (paddedDecimal width n) = some n := by
  have read : readDigits 10 bound 0 (paddedDecimal width n) = some n := by
    rw [paddedDecimal,List.leftpad,readDigits_zeros (by decide) (by decide) (by omega)]
    exact readDigits_decimal small
  cases digits : paddedDecimal width n with
  | nil =>
    have some : paddedDecimal width n ≠ [] := by simp [paddedDecimal,List.leftpad,decimal_nonempty]
    exact absurd digits some
  | cons c rest =>
    have digit := paddedDecimal_digits (digits ▸ List.mem_cons_self : c ∈ paddedDecimal width n)
    have unsigned : c ≠ '+' := by
      rintro rfl
      exact absurd digit.1 (by decide)
    rw [digits] at read
    rw [fromStrRadix,if_neg unsigned,read]

theorem paddedDecimal_plain (width n : Nat) (mark : c.toNat < 48 ∨ 57 < c.toNat) : c ∉ paddedDecimal width n := fun member => by
  have digit := paddedDecimal_digits member
  omega

theorem paddedYear_eq (positive : 0 ≤ y) : paddedYear y = paddedDecimal 4 y.toNat := if_neg (by omega)

theorem parseI32_padded (small : n < 2^31) (width : Nat) : parseI32 (paddedDecimal width n) = some (n : Int) := by
  have read := paddedDecimal_read small width
  unfold parseI32
  split
  · rename_i digits whole
    have member : '-' ∈ paddedDecimal width n := whole ▸ List.mem_cons_self
    exact absurd member (paddedDecimal_plain width n (by decide))
  · rw [read]
    rfl

theorem dateText_split (positive : 0 ≤ date.year) :
    split ['-'] (dateText date) = [paddedDecimal 4 date.year.toNat,paddedDecimal 2 date.month,paddedDecimal 2 date.day] := by
  have plain : ∀ width n, '-' ∉ paddedDecimal width n := fun width n => paddedDecimal_plain width n (by decide)
  rw [dateText,paddedYear_eq positive,split_char (plain _ _),split_char (plain _ _),split_absent (plain _ _) List.mem_cons_self]

theorem timeText_split (sod millis : Nat) : split [':'] (timeText sod millis) = [paddedDecimal 2 (sod/3600),paddedDecimal 2 (sod % 3600 / 60),
    paddedDecimal 2 (sod % 60) ++ '.' :: paddedDecimal 3 millis] := by
  have plain : ∀ width n, ':' ∉ paddedDecimal width n := fun width n => paddedDecimal_plain width n (by decide)
  have last : ':' ∉ paddedDecimal 2 (sod % 60) ++ '.' :: paddedDecimal 3 millis := by
    simp only [List.mem_append,List.mem_cons,not_or]
    exact ⟨plain _ _,by decide,plain _ _⟩
  rw [timeText,split_char (plain _ _),split_char (plain _ _),split_absent last List.mem_cons_self]

theorem secondText_split (sec millis : Nat) :
    split ['.'] (paddedDecimal 2 sec ++ '.' :: paddedDecimal 3 millis) = [paddedDecimal 2 sec,paddedDecimal 3 millis] := by
  have plain : ∀ width n, '.' ∉ paddedDecimal width n := fun width n => paddedDecimal_plain width n (by decide)
  rw [split_char (plain _ _),split_absent (plain _ _) List.mem_cons_self]

-- Where the date and the time of a text stand.
theorem stamp_slices (positive : 0 ≤ date.year) (century : date.year < 10000) (valid : date.Valid) (day : sod < 86400) (small : millis < 1000) :
    slice (dateText date ++ 'T' :: (timeText sod millis ++ ['Z'])) 0 10 = some (dateText date) ∧
    slice (dateText date ++ 'T' :: (timeText sod millis ++ ['Z'])) 11 23 = some (timeText sod millis) := by
  have digits : ∀ width n, ∀ c ∈ paddedDecimal width n, c.toNat < 0x80 := by
    intro width n c member
    have digit := paddedDecimal_digits member
    omega
  have dateLength : (dateText date).length = 10 := by
    have last := Nat.le_trans valid.last (monthLength_le _ _)
    have december := valid.december
    rw [dateText,paddedYear_eq positive]
    simp only [List.length_append,List.length_cons]
    rw [paddedDecimal_length 4 (by decide) (by omega),paddedDecimal_length 2 (by decide) (by omega),
      paddedDecimal_length 2 (by decide) (by omega)]
  have timeLength : (timeText sod millis).length = 12 := by
    rw [timeText]
    simp only [List.length_append,List.length_cons]
    rw [paddedDecimal_length 2 (by decide) (by omega),paddedDecimal_length 2 (by decide) (by omega),
      paddedDecimal_length 2 (by decide) (by omega),paddedDecimal_length 3 (by decide) (by omega)]
  have ascii : ∀ c ∈ dateText date ++ 'T' :: (timeText sod millis ++ ['Z']), c.toNat < 0x80 := by
    intro c member
    rw [dateText,timeText,paddedYear_eq positive] at member
    simp only [List.mem_append,List.mem_cons,List.not_mem_nil,or_false] at member
    rcases member with (y | rfl | m | rfl | d) | rfl | (h | rfl | m | rfl | s | rfl | ms) | rfl
    all_goals first | decide | exact digits _ _ _ ‹_›
  have whole : (dateText date ++ 'T' :: (timeText sod millis ++ ['Z'])).length = 24 := by
    simp only [List.length_append,List.length_cons,List.length_nil]
    omega
  rw [slice_ascii ascii (by omega),slice_ascii ascii (by omega)]
  constructor
  · rw [List.drop_zero,← dateLength,Nat.sub_zero,List.take_left]
  · rw [show dateText date ++ 'T' :: (timeText sod millis ++ ['Z']) = (dateText date ++ ['T']) ++ (timeText sod millis ++ ['Z']) by simp,
      show 11 = (dateText date ++ ['T']).length by simp [dateLength],List.drop_left,show 23 - (dateText date ++ ['T']).length =
        (timeText sod millis).length by simp [dateLength,timeLength],List.take_left]

theorem parseTimestamp_stamp (utc : Utc) (documented : utc.Documented) (valid : date.Valid) (positive : 0 ≤ date.year)
    (century : date.year < 10000) (day : sod < 86400) (small : millis < 1000) :
    parseTimestamp utc (dateText date ++ 'T' :: (timeText sod millis ++ ['Z'])) =
      some ⟨date.sinceEpoch*86400 + sod,millis*1000000⟩ := by
  obtain ⟨dateSlice,timeSlice⟩ := stamp_slices positive century valid day small
  have last := Nat.le_trans valid.last (monthLength_le _ _)
  have december := valid.december
  have u32 : u32 = 4294967296 := by decide
  have year : parseI32 (paddedDecimal 4 date.year.toNat) = some date.year := by
    rw [parseI32_padded (by omega)]
    exact congrArg some (Int.toNat_of_nonneg positive)
  have instant := documented.instant date (sod/3600) (sod % 3600 / 60) (sod % 60) valid (by omega) (by omega) (by omega) (by omega) (by omega)
  unfold parseTimestamp
  simp only [dateSlice,timeSlice,Option.bind_eq_bind,Option.bind_some,dateText_split positive,timeText_split,
    List.getElem?_cons_zero,List.getElem?_cons_succ,secondText_split,year,Option.getD_some,
    paddedDecimal_read (show date.month < Str.u32 by omega),paddedDecimal_read (show date.day < Str.u32 by omega),
    paddedDecimal_read (show sod/3600 < Str.u32 by omega),paddedDecimal_read (show sod % 3600 / 60 < Str.u32 by omega),
    paddedDecimal_read (show sod % 60 < Str.u32 by omega),paddedDecimal_read (show millis < Str.u32 by omega),instant,
    documented.millis _ millis small]
  have seconds : date.sinceEpoch*86400 + ((sod/3600 : Nat) : Int)*3600 + ((sod % 3600 / 60 : Nat) : Int)*60 + ((sod % 60 : Nat) : Int) =
      date.sinceEpoch*86400 + sod := by omega
  rw [seconds]

-- A time of the years from 1970 to 9999 comes back from its text, to the
-- millisecond.
theorem nowIso8601_parsed (utc : Utc) (documented : utc.Documented) (now : DateTime) (from_ : 0 ≤ now.seconds)
    (until_ : now.seconds < 253402300800) (proper : now.nanos < 1000000000) :
    ∃ text, nowIso8601 now = some text ∧ parseTimestamp utc text = some now.truncated := by
  have since : durationSinceEpoch now = (now.seconds.toNat,now.nanos) := if_neg (by omega)
  have whole : Int.bmod (now.seconds.toNat : Int) (2^64) = now.seconds := by
    rw [Int.toNat_of_nonneg from_]
    exact Int.bmod_eq_of_le (by omega) (by omega)
  obtain ⟨valid,count⟩ := fromMarch_spec (now.seconds/86400 + 719468)
  have found : civilFromDays (now.seconds/86400) = some (fromMarch (now.seconds/86400 + 719468)) :=
    civilFromDays_eq (by omega) (by omega)
  generalize fromMarch (now.seconds/86400 + 719468) = date at valid count found
  have early : (1970 : Int) ≤ date.year := by
    rw [Date.year_iff valid,show daysBeforeYear 1970 = 719162 by decide,count]
    omega
  have late : ¬ (10000 : Int) ≤ date.year := by
    rw [Date.year_iff valid,show daysBeforeYear 10000 = 3652059 by decide,count]
    omega
  have written : nowIso8601 now = some (dateText date ++ 'T' :: (timeText (now.seconds % 86400).toNat (now.nanos/1000000) ++ ['Z'])) := by
    unfold nowIso8601
    simp only [since,whole,found,Option.bind_eq_bind,Option.bind_some]
    rfl
  refine ⟨_,written,?_⟩
  rw [parseTimestamp_stamp utc documented valid (by omega) (by omega) (by omega) (by omega)]
  have epochCount : epoch.count = 719162 := by decide
  have seconds : date.sinceEpoch*86400 + (now.seconds % 86400).toNat = now.seconds := by
    unfold Date.sinceEpoch
    omega
  rw [seconds]
  rfl

-- Every number of a day that the arithmetic can take is the count of the valid
-- date that comes out, and the next number gives the next date.
theorem civilFromDays_spec (low : -2^63 ≤ z) (high : z < 2^63) :
    ((civilFromDays z).isSome ↔ z + 719468 < 2^63) ∧ ∀ date, civilFromDays z = some date →
      date.Valid ∧ date.sinceEpoch = z ∧ ∀ after, civilFromDays (z+1) = some after → after = date.next := by
  have fails : ∀ y : Int, -2^63 ≤ y → ¬ y + 719468 < 2^63 → civilFromDays y = none := by
    intro y low large
    have large : i64 (y+719468) = none := if_neg (by omega)
    unfold civilFromDays
    rw [large]
    rfl
  have epochCount : epoch.count = 719162 := by decide
  by_cases range : z + 719468 < 2^63
  · obtain ⟨valid,count⟩ := fromMarch_spec (z+719468)
    refine ⟨⟨fun _ => range,fun _ => by rw [civilFromDays_eq low range]; rfl⟩,fun date found => ?_⟩
    rw [civilFromDays_eq low range] at found
    cases found
    refine ⟨valid,by unfold Date.sinceEpoch; omega,fun after later => ?_⟩
    by_cases next : z + 1 + 719468 < 2^63
    · obtain ⟨validNext,countNext⟩ := fromMarch_spec (z+1+719468)
      rw [civilFromDays_eq (by omega) next] at later
      cases later
      refine Date.count_injective validNext (Date.next_valid valid) ?_
      rw [countNext,Date.next_count valid,count]
      omega
    · rw [fails _ (by omega) next] at later
      cases later
  · rw [fails z low range]
    exact ⟨⟨fun some => (nomatch some),fun less => absurd less range⟩,fun _ found => (nomatch found)⟩

theorem days_and_stamps (utc : Utc) (documented : utc.Documented) :
    (∀ z : Int, -2^63 ≤ z → z < 2^63 → ((civilFromDays z).isSome ↔ z + 719468 < 2^63) ∧ ∀ date, civilFromDays z = some date →
      date.Valid ∧ date.sinceEpoch = z ∧ ∀ after, civilFromDays (z+1) = some after → after = date.next) ∧
    ∀ now : DateTime, 0 ≤ now.seconds → now.seconds < 253402300800 → now.nanos < 1000000000 →
      ∃ text, nowIso8601 now = some text ∧ parseTimestamp utc text = some now.truncated :=
  ⟨fun _ low high => civilFromDays_spec low high,fun now => nowIso8601_parsed utc documented now⟩

-- The library on the dates and times that there are.
def plainUtc : Utc :=
  ⟨fun year month day hour min sec => some ⟨(Date.mk year month day).sinceEpoch*86400 + hour*3600 + min*60 + sec,0⟩,
    fun t ms => some ⟨t.seconds,t.nanos + ms*1000000⟩⟩

theorem days_and_stamps_plain : plainUtc.Documented ∧ civilFromDays (-1) = some ⟨1969,12,31⟩ ∧
    ∃ text, nowIso8601 ⟨1777982400,123456789⟩ = some text ∧ parseTimestamp plainUtc text = some ⟨1777982400,123000000⟩ := by
  have documented : plainUtc.Documented := ⟨fun _ _ _ _ _ _ _ _ _ _ => rfl,fun _ ms _ => by simp [plainUtc]⟩
  have laws := days_and_stamps plainUtc documented
  exact ⟨documented,by decide +kernel,laws.2 ⟨1777982400,123456789⟩ (by decide) (by decide) (by decide)⟩

end PrincessIDE.Timestamp
