import Mathlib.Algebra.GroupWithZero.Nat
import Mathlib.Data.Int.Notation

namespace PrincessIDE.Calendar

-- The proleptic Gregorian calendar: a year 0 is in front of the year 1.
structure Date where
  year : Int
  month : Nat
  day : Nat
deriving DecidableEq, Repr

def leapYear (y : Int) : Bool := y % 4 = 0 && (y % 100 ≠ 0 || y % 400 = 0)

def monthLength (leap : Bool) (month : Nat) : Nat :=
  if month = 2 then if leap then 29 else 28
  else if month = 4 ∨ month = 6 ∨ month = 9 ∨ month = 11 then 30 else 31

def yearLength (leap : Bool) : Nat := if leap then 366 else 365

def daysBeforeMonth (leap : Bool) (month : Nat) : Nat := ((List.range (month-1)).map fun i => monthLength leap (i+1)).sum

-- The days from the first of the year 1 on.
def daysBeforeYear (y : Int) : Int := 365*(y-1) + (y-1)/4 - (y-1)/100 + (y-1)/400

namespace Date
variable (d : Date)

def length : Nat := monthLength (leapYear d.year) d.month

structure Valid : Prop where
  january : 1 ≤ d.month
  december : d.month ≤ 12
  first : 1 ≤ d.day
  last : d.day ≤ d.length

def dayOfYear : Nat := daysBeforeMonth (leapYear d.year) d.month + (d.day-1)

def count : Int := daysBeforeYear d.year + d.dayOfYear

-- The day behind a day.
def next : Date :=
  if d.day < d.length then ⟨d.year,d.month,d.day+1⟩
  else if d.month < 12 then ⟨d.year,d.month+1,1⟩
  else ⟨d.year+1,1,1⟩

end Date

def epoch : Date := ⟨1970,1,1⟩

def Date.sinceEpoch (d : Date) : Int := d.count - epoch.count

theorem yearLength_le (leap : Bool) : yearLength leap ≤ 366 := by cases leap <;> decide

theorem leapYear_spec (y : Int) : (leapYear y = true ↔ y % 4 = 0 ∧ (y % 100 ≠ 0 ∨ y % 400 = 0)) := by
  simp [leapYear]

theorem daysBeforeYear_succ (y : Int) : daysBeforeYear (y+1) = daysBeforeYear y + yearLength (leapYear y) := by
  unfold daysBeforeYear yearLength
  by_cases leap : leapYear y = true
  · have rule := (leapYear_spec y).mp leap
    rw [if_pos leap]
    omega
  · have rule := mt (leapYear_spec y).mpr leap
    rw [if_neg leap]
    omega

theorem daysBeforeYear_lt (before : y < z) : daysBeforeYear y + yearLength (leapYear y) ≤ daysBeforeYear z := by
  have grows : ∀ n : Nat, daysBeforeYear (y+1) ≤ daysBeforeYear (y+1+n) := by
    intro n
    induction n with
    | zero => simp
    | succ n ih =>
      have step := daysBeforeYear_succ (y+1+n)
      push_cast
      rw [← Int.add_assoc,step]
      omega
  have later := grows (z-(y+1)).toNat
  rw [show y+1+((z-(y+1)).toNat : Int) = z by omega] at later
  rwa [← daysBeforeYear_succ]

theorem daysBeforeMonth_succ (leap : Bool) (positive : 1 ≤ month) :
    daysBeforeMonth leap (month+1) = daysBeforeMonth leap month + monthLength leap month := by
  obtain ⟨m,rfl⟩ : ∃ m, month = m+1 := ⟨month-1,by omega⟩
  simp [daysBeforeMonth,List.range_succ]

theorem monthLength_positive (leap : Bool) (month : Nat) : 28 ≤ monthLength leap month := by
  unfold monthLength
  split
  · split <;> decide
  · split <;> decide

theorem monthLength_le (leap : Bool) (month : Nat) : monthLength leap month ≤ 31 := by
  unfold monthLength
  split
  · split <;> decide
  · split <;> decide

theorem daysBeforeMonth_lt (leap : Bool) (positive : 1 ≤ month) (before : month < later) :
    daysBeforeMonth leap month + monthLength leap month ≤ daysBeforeMonth leap later := by
  induction later with
  | zero => omega
  | succ m ih =>
    rw [daysBeforeMonth_succ leap (by omega)]
    rcases Nat.lt_succ_iff_lt_or_eq.mp before with less | same
    · exact Nat.le_add_right_of_le (ih less)
    · subst same
      exact Nat.le_refl _

-- Twelve months make a year.
theorem year_months (leap : Bool) : daysBeforeMonth leap 13 = yearLength leap := by
  cases leap <;> decide

namespace Date
variable {d e : Date}

theorem dayOfYear_lt (valid : d.Valid) : d.dayOfYear < yearLength (leapYear d.year) := by
  have last := valid.last
  have first := valid.first
  have inside := daysBeforeMonth_lt (leapYear d.year) valid.january (Nat.lt_succ_of_le valid.december)
  rw [year_months] at inside
  unfold Date.length at last
  unfold dayOfYear
  omega

theorem next_valid (valid : d.Valid) : d.next.Valid := by
  have last := valid.last
  unfold next
  split
  · rename_i inside
    exact ⟨valid.january,valid.december,Nat.le_add_left 1 _,inside⟩
  · split
    · rename_i early
      exact ⟨Nat.le_add_left 1 _,early,Nat.le_refl 1,Nat.le_trans (show 1 ≤ 28 by decide) (monthLength_positive _ _)⟩
    · exact ⟨Nat.le_refl 1,show 1 ≤ 12 by decide,Nat.le_refl 1,Nat.le_trans (show 1 ≤ 28 by decide) (monthLength_positive _ _)⟩

-- The next day is one day later: in the month, behind its end, or behind the
-- end of the year.
theorem next_count (valid : d.Valid) : d.next.count = d.count + 1 := by
  have first := valid.first
  have last := valid.last
  unfold next
  split
  · have moved : (⟨d.year,d.month,d.day+1⟩ : Date).dayOfYear = d.dayOfYear + 1 := by
      unfold dayOfYear
      dsimp only
      omega
    unfold count
    rw [moved]
    push_cast
    omega
  · rename_i ended
    have whole : d.day = d.length := by omega
    split
    · have moved : (⟨d.year,d.month+1,1⟩ : Date).dayOfYear = d.dayOfYear + 1 := by
        unfold dayOfYear
        dsimp only
        rw [daysBeforeMonth_succ _ valid.january]
        unfold Date.length at whole
        omega
      unfold count
      rw [moved]
      push_cast
      omega
    · rename_i late
      have december : d.month = 12 := by
        have bound := valid.december
        omega
      have whole_year : d.dayOfYear + 1 = yearLength (leapYear d.year) := by
        have year := daysBeforeMonth_succ (leapYear d.year) (show 1 ≤ 12 by decide)
        rw [year_months] at year
        unfold dayOfYear
        unfold Date.length at whole
        rw [december] at whole ⊢
        omega
      have moved : (⟨d.year+1,1,1⟩ : Date).dayOfYear = 0 := rfl
      unfold count
      rw [moved]
      dsimp only
      rw [daysBeforeYear_succ,← whole_year]
      push_cast
      omega

theorem year_iff (valid : d.Valid) (y : Int) : y ≤ d.year ↔ daysBeforeYear y ≤ d.count := by
  have inside := dayOfYear_lt valid
  unfold count
  constructor
  · intro le
    rcases Int.lt_or_eq_of_le le with less | same
    · have apart := daysBeforeYear_lt less
      omega
    · rw [same]
      omega
  · intro reached
    by_cases less : d.year < y
    · have apart := daysBeforeYear_lt less
      omega
    · omega

theorem dayOfYear_injective (valid : d.Valid) (other : e.Valid) (year : d.year = e.year) (same : d.dayOfYear = e.dayOfYear) : d = e := by
  obtain ⟨y,m,a⟩ := d
  obtain ⟨z,n,b⟩ := e
  dsimp only at year
  subst year
  have lastA := valid.last
  have lastB := other.last
  have firstA := valid.first
  have firstB := other.first
  unfold dayOfYear at same
  unfold Date.length at lastA lastB
  dsimp only at same lastA lastB firstA firstB
  rcases Nat.lt_trichotomy m n with less | months | less
  · have apart := daysBeforeMonth_lt (leapYear y) valid.january less
    dsimp only at apart
    omega
  · subst months
    have days : a = b := by omega
    rw [days]
  · have apart := daysBeforeMonth_lt (leapYear y) other.january less
    dsimp only at apart
    omega

-- A day is known from its count.
theorem count_injective (valid : d.Valid) (other : e.Valid) (same : d.count = e.count) : d = e := by
  have inside := dayOfYear_lt valid
  have insideOther := dayOfYear_lt other
  unfold count at same
  have years : d.year = e.year := by
    rcases Int.lt_trichotomy d.year e.year with less | years | less
    · have apart := daysBeforeYear_lt less
      omega
    · exact years
    · have apart := daysBeforeYear_lt less
      omega
  rw [years] at same
  exact dayOfYear_injective valid other years (by omega)

end Date

end PrincessIDE.Calendar
