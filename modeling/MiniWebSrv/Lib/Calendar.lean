import Mathlib.Algebra.GroupWithZero.Nat
import Mathlib.Data.List.GetD

/-! # The proleptic Gregorian calendar

Days are numbered from the first of January 1970. A day has a year, a month and a day of the
month, which count from zero; the correspondence with the numbers is one to one in both
directions, for the days before the epoch as well.
-/

namespace Calendar

/-! ## Stretches in a row -/

/-- The stretch of these lengths which a position lies in, and its offset there. -/
def locate : List Nat → Nat → Nat × Nat
  | [], pos => (0, pos)
  | len :: lens, pos =>
      if pos < len then (0, pos) else ((locate lens (pos - len)).1 + 1, (locate lens (pos - len)).2)

theorem locate_spec {lens : List Nat} {pos : Nat} (inside : pos < lens.sum) :
    (locate lens pos).2 < lens.getD (locate lens pos).1 0 ∧
      (lens.take (locate lens pos).1).sum + (locate lens pos).2 = pos := by
  induction lens generalizing pos with
  | nil => exact absurd inside (Nat.not_lt_zero pos)
  | cons len lens ih =>
      rw [List.sum_cons] at inside
      rw [locate]
      split
      · rename_i here
        exact ⟨here, Nat.zero_add pos⟩
      · obtain ⟨below, whole⟩ := @ih (pos - len) (by omega)
        refine ⟨below, ?_⟩
        rw [List.take_succ_cons, List.sum_cons]
        omega

/-- The offset in a stretch leads back to it. -/
theorem locate_sum {lens : List Nat} {i off : Nat} (inside : off < lens.getD i 0) :
    locate lens ((lens.take i).sum + off) = (i, off) := by
  induction lens generalizing i with
  | nil => exact absurd inside (Nat.not_lt_zero off)
  | cons len lens ih =>
      cases i with
      | zero =>
          rw [List.getD_cons_zero] at inside
          rw [List.take_zero, List.sum_nil, Nat.zero_add, locate, if_pos inside]
      | succ i =>
          rw [List.getD_cons_succ] at inside
          rw [List.take_succ_cons, List.sum_cons, locate, if_neg (by omega)]
          rw [show len + (lens.take i).sum + off - len = (lens.take i).sum + off by omega, ih inside]

/-- Where a position has an offset, the stretch is there and begins before the whole ends. -/
theorem sum_take_add_lt {lens : List Nat} {i off : Nat} (inside : off < lens.getD i 0) :
    (lens.take i).sum + off < lens.sum := by
  induction lens generalizing i with
  | nil => exact absurd inside (Nat.not_lt_zero off)
  | cons len lens ih =>
      cases i with
      | zero =>
          rw [List.getD_cons_zero] at inside
          rw [List.take_zero, List.sum_nil, List.sum_cons]
          omega
      | succ i =>
          rw [List.getD_cons_succ] at inside
          have rest := ih inside
          rw [List.take_succ_cons, List.sum_cons, List.sum_cons]
          omega

theorem sum_take_succ (lens : List Nat) (i : Nat) :
    (lens.take (i + 1)).sum = (lens.take i).sum + lens.getD i 0 := by
  rw [List.take_add_one, List.sum_append, List.getD_eq_getElem?_getD]
  cases lens[i]? with
  | none => rfl
  | some len => rw [Option.toList_some, List.sum_singleton, Option.getD_some]

/-! ## Years -/

def isLeap (year : Int) : Bool := year % 4 = 0 ∧ (year % 100 ≠ 0 ∨ year % 400 = 0)

def daysInYear (year : Int) : Nat := if isLeap year then 366 else 365

/-- The leap years from the year 1 to this one. -/
def leapsThrough (year : Int) : Int := year / 4 - year / 100 + year / 400

/-- The number of the first of January. -/
def daysBeforeYear (year : Int) : Int :=
  365 * (year - 1970) + (leapsThrough (year - 1) - leapsThrough 1969)

/-- A year has its leap day in the count of those after it. -/
theorem daysBeforeYear_succ (year : Int) :
    daysBeforeYear (year + 1) = daysBeforeYear year + daysInYear year := by
  unfold daysBeforeYear leapsThrough daysInYear
  by_cases leap : isLeap year
  all_goals
    rw [isLeap, decide_eq_true_eq] at leap
    simp only [isLeap, decide_eq_true_eq]
  · rw [if_pos leap]
    omega
  · rw [if_neg leap]
    omega

theorem daysBeforeYear_mono {y z : Int} (before : y ≤ z) : daysBeforeYear y ≤ daysBeforeYear z := by
  unfold daysBeforeYear leapsThrough
  omega

/-- The year of a day: that of the average length, or the one before or behind it. -/
def yearOf (day : Int) : Int :=
  let year := 1970 + day * 400 / 146097
  if day < daysBeforeYear year then year - 1
  else if daysBeforeYear (year + 1) ≤ day then year + 1
  else year

/-- The average length of a year is that of 400 years, which have 146097 days. -/
theorem daysBeforeYear_average (day : Int) :
    daysBeforeYear (1970 + day * 400 / 146097 - 1) ≤ day ∧
      day < daysBeforeYear (1970 + day * 400 / 146097 + 2) := by
  unfold daysBeforeYear leapsThrough
  constructor
  · omega
  · omega

theorem yearOf_spec (day : Int) :
    daysBeforeYear (yearOf day) ≤ day ∧ day < daysBeforeYear (yearOf day + 1) := by
  obtain ⟨begins, ends⟩ := daysBeforeYear_average day
  simp only [yearOf]
  split
  · rename_i early
    exact ⟨begins, by rwa [Int.sub_add_cancel]⟩
  · rename_i later
    split
    · rename_i late
      exact ⟨late, by rwa [Int.add_assoc]⟩
    · rename_i same
      exact ⟨Int.not_lt.mp later, Int.not_le.mp same⟩

/-- No other year has the day. -/
theorem yearOf_unique {day year : Int} (begun : daysBeforeYear year ≤ day)
    (ended : day < daysBeforeYear (year + 1)) : yearOf day = year := by
  obtain ⟨begins, ends⟩ := yearOf_spec day
  rcases Int.lt_trichotomy (yearOf day) year with before | same | behind
  · have := daysBeforeYear_mono (y := yearOf day + 1) (z := year) (by omega)
    omega
  · exact same
  · have := daysBeforeYear_mono (y := year + 1) (z := yearOf day) (by omega)
    omega

/-! ## Dates -/

def monthLengths (year : Int) : List Nat :=
  [31, if isLeap year then 29 else 28, 31, 30, 31, 30, 31, 31, 30, 31, 30, 31]

theorem sum_monthLengths (year : Int) : (monthLengths year).sum = daysInYear year := by
  unfold monthLengths daysInYear
  split
  all_goals decide

/-- A day of a month of a year, both of which count from zero. -/
@[ext]
structure Date where
  year : Int
  month : Nat
  day : Nat
  inside : day < (monthLengths year).getD month 0

namespace Date

theorem month_lt (date : Date) : date.month < 12 := by
  apply Nat.lt_of_not_le
  intro beyond
  have inside := date.inside
  rw [List.getD_eq_default _ _ (by simpa [monthLengths] using beyond)] at inside
  exact Nat.not_lt_zero _ inside

theorem day_lt (date : Date) : date.day < 31 := by
  have inside := date.inside
  have longest : ∀ len ∈ monthLengths date.year, len ≤ 31 := by
    intro len found
    simp only [monthLengths, List.mem_cons, List.not_mem_nil, or_false] at found
    split at found <;> omega
  have found : (monthLengths date.year).getD date.month 0 ∈ monthLengths date.year := by
    rw [List.getD_eq_getElem _ _ (by simpa [monthLengths] using date.month_lt)]
    exact List.getElem_mem _
  exact Nat.lt_of_lt_of_le inside (longest _ found)

def dayOfYear (date : Date) : Nat := ((monthLengths date.year).take date.month).sum + date.day

def dayNumber (date : Date) : Int := daysBeforeYear date.year + date.dayOfYear

theorem dayOfYear_lt (date : Date) : date.dayOfYear < daysInYear date.year := by
  rw [← sum_monthLengths]
  exact sum_take_add_lt date.inside

/-- The place of a day in its year. -/
theorem rest_of_year (day : Int) :
    (day - daysBeforeYear (yearOf day)).toNat < (monthLengths (yearOf day)).sum := by
  obtain ⟨begins, ends⟩ := yearOf_spec day
  rw [daysBeforeYear_succ] at ends
  rw [sum_monthLengths]
  omega

def ofDayNumber (day : Int) : Date where
  year := yearOf day
  month := (locate (monthLengths (yearOf day)) (day - daysBeforeYear (yearOf day)).toNat).1
  day := (locate (monthLengths (yearOf day)) (day - daysBeforeYear (yearOf day)).toNat).2
  inside := (locate_spec (rest_of_year day)).1

theorem dayNumber_ofDayNumber (day : Int) : (ofDayNumber day).dayNumber = day := by
  have begins := (yearOf_spec day).1
  have whole := (locate_spec (rest_of_year day)).2
  simp only [dayNumber, dayOfYear, ofDayNumber, whole]
  omega

theorem ofDayNumber_dayNumber (date : Date) : ofDayNumber date.dayNumber = date := by
  have inside := date.dayOfYear_lt
  have year : yearOf date.dayNumber = date.year := by
    apply yearOf_unique
    · rw [dayNumber]
      omega
    · rw [daysBeforeYear_succ, dayNumber]
      omega
  have rest : (date.dayNumber - daysBeforeYear date.year).toNat = date.dayOfYear := by
    rw [dayNumber]
    omega
  apply Date.ext
  · exact year
  · simp only [ofDayNumber, year, rest, dayOfYear, locate_sum date.inside]
  · simp only [ofDayNumber, year, rest, dayOfYear, locate_sum date.inside]

end Date

end Calendar
