import Mathlib.Logic.Function.Iterate
import Mathlib.Tactic.IntervalCases

/-!
# ProcFS.Lib.Calendar — the proleptic Gregorian calendar

A date is a year, a month and a day that the month has. The day after a date is found by
counting up; `dayNumber` counts the days from the first of March of the year 0, with years
that begin in March, so that the leap day is the last day of its year. It grows by one from
a date to the next and no two dates have the same number.

* `monthStart_succ`: a month ends where the next one begins.
* `eq_iterate_tomorrow_iff`: which date is so many days after another.
-/

namespace ProcFS.Lib

/-! ## Dates -/

/-- Every fourth year, but of the hundredth ones only every fourth. -/
def isLeap (year : ℤ) : Bool := year % 4 = 0 && (year % 100 ≠ 0 || year % 400 = 0)

def daysInMonth (year : ℤ) (month : ℕ) : ℕ :=
  if month = 2 then if isLeap year then 29 else 28
  else if month = 4 ∨ month = 6 ∨ month = 9 ∨ month = 11 then 30
  else 31

@[ext] structure Date where
  year : ℤ
  month : ℕ
  day : ℕ
  month_pos : 1 ≤ month
  month_le : month ≤ 12
  day_pos : 1 ≤ day
  day_le : day ≤ daysInMonth year month
deriving DecidableEq

namespace Date

theorem one_le_daysInMonth (year : ℤ) (month : ℕ) : 1 ≤ daysInMonth year month := by
  unfold daysInMonth
  split
  · split <;> decide
  · split <;> decide

def newYear (year : ℤ) : Date :=
  ⟨year, 1, 1, Nat.le_refl 1, by decide, Nat.le_refl 1, one_le_daysInMonth year 1⟩

def tomorrow (d : Date) : Date :=
  if hday : d.day < daysInMonth d.year d.month then
    ⟨d.year, d.month, d.day + 1, d.month_pos, d.month_le, Nat.le_add_left 1 d.day, hday⟩
  else if hmonth : d.month < 12 then
    ⟨d.year, d.month + 1, 1, Nat.le_add_left 1 d.month, hmonth, Nat.le_refl 1,
      one_le_daysInMonth d.year (d.month + 1)⟩
  else
    ⟨d.year + 1, 1, 1, Nat.le_refl 1, by decide, Nat.le_refl 1, one_le_daysInMonth (d.year + 1) 1⟩

/-! ## Counting days -/

/-- The months before a month in a year that begins in March. -/
def monthIndex (month : ℕ) : ℕ := (month + 9) % 12

/-- The year of a date if years begin in March. -/
def marchYear (d : Date) : ℤ := if d.month ≤ 2 then d.year - 1 else d.year

/-- The days before the first of March of a year. -/
def daysBefore (year : ℤ) : ℤ := 365 * year + year / 4 - year / 100 + year / 400

/-- The days before a month in a year that begins in March. -/
def monthStart (index : ℕ) : ℕ := (153 * index + 2) / 5

/-- The days between the first of March before a date and the date. -/
def dayOfYear (d : Date) : ℕ := monthStart (monthIndex d.month) + d.day - 1

/-- The days between the first of March of the year 0 and a date. -/
def dayNumber (d : Date) : ℤ := daysBefore d.marchYear + d.dayOfYear

/-- A month ends where the next one begins. -/
theorem monthStart_succ {month : ℕ} (hpos : 1 ≤ month) (hle : month ≤ 12) (hne : month ≠ 2)
    (year : ℤ) :
    monthStart (monthIndex month + 1) = monthStart (monthIndex month) + daysInMonth year month := by
  unfold daysInMonth
  rw [if_neg hne]
  interval_cases month <;> first | contradiction | rfl

/-- The year ends with February. -/
theorem daysBefore_february (year : ℤ) :
    daysBefore year = daysBefore (year - 1) + monthStart (monthIndex 2) + daysInMonth year 2 := by
  have hstart : monthStart (monthIndex 2) = 337 := rfl
  rw [hstart, daysInMonth, if_pos rfl]
  unfold daysBefore
  cases hleap : isLeap year <;>
    simp only [isLeap, Bool.and_eq_true, Bool.or_eq_true, decide_eq_true_eq, Bool.and_eq_false_iff,
      Bool.or_eq_false_iff, decide_eq_false_iff_not] at hleap <;> simp <;> omega

theorem dayNumber_tomorrow (d : Date) : d.tomorrow.dayNumber = d.dayNumber + 1 := by
  obtain ⟨year, month, day, hpos, hle, hday, hdays⟩ := d
  unfold tomorrow
  split
  · unfold dayNumber dayOfYear marchYear
    simp only
    omega
  · rename_i hlast
    simp only at hlast
    have hend : day = daysInMonth year month := by omega
    split
    · rename_i hmonth
      by_cases hfeb : month = 2
      · -- the first of March
        have hyear := daysBefore_february year
        subst hfeb
        have hmarch : monthStart (monthIndex (2 + 1)) = 0 := rfl
        simp only [dayNumber, dayOfYear, marchYear, hend, hmarch, Nat.le_refl, if_true,
          Nat.reduceLeDiff, Nat.reduceAdd, if_false]
        omega
      · have hstart := monthStart_succ hpos hle hfeb year
        have hindex : monthIndex (month + 1) = monthIndex month + 1 := by
          simp only at hmonth
          unfold monthIndex
          omega
        have hyear : (month + 1 ≤ 2) = (month ≤ 2) := by
          rw [eq_iff_iff]
          omega
        simp only [dayNumber, dayOfYear, marchYear, hindex, hstart, hyear]
        omega
    · -- the first of January
      rename_i hmonth
      have hdec : month = 12 := by
        simp only at hmonth
        omega
      subst hdec
      have hdays' : daysInMonth year 12 = 31 := rfl
      have hdecember : monthStart (monthIndex 12) = 275 := rfl
      have hjanuary : monthStart (monthIndex 1) = 306 := rfl
      simp only [dayNumber, dayOfYear, marchYear, hend, hdays', hdecember, hjanuary,
        Nat.one_le_ofNat, if_true, Nat.reduceLeDiff, if_false, Int.add_sub_cancel]
      omega

theorem dayNumber_iterate (d : Date) (n : ℕ) :
    (tomorrow^[n] d).dayNumber = d.dayNumber + n := by
  induction n with
  | zero => exact (Int.add_zero _).symm
  | succ n ih =>
    rw [Function.iterate_succ_apply', dayNumber_tomorrow, ih]
    omega

/-! ## No two dates have the same number -/

theorem monthIndex_lt (month : ℕ) : monthIndex month < 12 := Nat.mod_lt _ (by decide)

theorem monthStart_mono {i j : ℕ} (h : i ≤ j) : monthStart i ≤ monthStart j := by
  unfold monthStart
  omega

/-- A date lies before the month after. -/
theorem dayOfYear_lt_monthStart (d : Date) (h : d.month ≠ 2) :
    d.dayOfYear < monthStart (monthIndex d.month + 1) := by
  have hle := d.day_le
  have hpos := d.day_pos
  rw [monthStart_succ d.month_pos d.month_le h d.year]
  unfold dayOfYear
  omega

theorem monthStart_le_dayOfYear (d : Date) : monthStart (monthIndex d.month) ≤ d.dayOfYear := by
  have hpos := d.day_pos
  unfold dayOfYear
  omega

/-- A date lies before the year after. -/
theorem dayNumber_lt (d : Date) : d.dayNumber < daysBefore (d.marchYear + 1) := by
  unfold dayNumber
  by_cases hfeb : d.month = 2
  · have hyear := daysBefore_february d.year
    have hle := d.day_le
    have hpos := d.day_pos
    have hmarch : d.marchYear = d.year - 1 := by
      rw [marchYear, if_pos (by omega)]
    rw [hfeb] at hle
    rw [hmarch, Int.sub_add_cancel, hyear, dayOfYear, hfeb]
    omega
  · have hlt := d.dayOfYear_lt_monthStart hfeb
    have hindex : monthIndex d.month + 1 ≤ 11 := by
      have hpos := d.month_pos
      have hle := d.month_le
      unfold monthIndex
      omega
    have hstart : monthStart (monthIndex d.month + 1) ≤ 337 := monthStart_mono hindex
    unfold daysBefore
    omega

theorem dayOfYear_le (d : Date) : d.dayOfYear ≤ 365 := by
  have hlt := d.dayNumber_lt
  unfold dayNumber daysBefore at hlt
  omega

theorem daysBefore_mono {y z : ℤ} (h : y ≤ z) : daysBefore y ≤ daysBefore z := by
  unfold daysBefore
  omega

theorem marchYear_le {d e : Date} (h : d.dayNumber = e.dayNumber) : d.marchYear ≤ e.marchYear := by
  by_contra hlt
  have hend := e.dayNumber_lt
  have hmono := daysBefore_mono (show e.marchYear + 1 ≤ d.marchYear by omega)
  unfold dayNumber at h hend
  omega

theorem monthIndex_le {d e : Date} (h : d.dayOfYear = e.dayOfYear) :
    monthIndex d.month ≤ monthIndex e.month := by
  by_contra hlt
  have hindex := monthIndex_lt d.month
  have hfeb : e.month ≠ 2 := by
    intro hfeb
    rw [hfeb, show monthIndex 2 = 11 from rfl] at hlt
    omega
  have hend := e.dayOfYear_lt_monthStart hfeb
  have hstart := d.monthStart_le_dayOfYear
  have hmono := monthStart_mono (show monthIndex e.month + 1 ≤ monthIndex d.month by omega)
  omega

theorem dayNumber_injective : Function.Injective dayNumber := by
  intro d e h
  -- the year first, then the month, then the day
  have hyear : d.marchYear = e.marchYear :=
    Int.le_antisymm (marchYear_le h) (marchYear_le h.symm)
  have hday : d.dayOfYear = e.dayOfYear := by
    unfold dayNumber at h
    rw [hyear] at h
    omega
  have hindex : monthIndex d.month = monthIndex e.month :=
    Nat.le_antisymm (monthIndex_le hday) (monthIndex_le hday.symm)
  have hmonth : d.month = e.month := by
    have hd := d.month_pos
    have hd' := d.month_le
    have he := e.month_pos
    have he' := e.month_le
    unfold monthIndex at hindex
    omega
  ext
  · unfold marchYear at hyear
    rw [hmonth] at hyear
    split at hyear <;> omega
  · exact hmonth
  · have hd := d.day_pos
    have he := e.day_pos
    unfold dayOfYear at hday
    rw [hmonth] at hday
    omega

/-- A date is the one that many days after another if its number says so. -/
theorem eq_iterate_tomorrow_iff {d e : Date} {n : ℕ} :
    e = tomorrow^[n] d ↔ e.dayNumber = d.dayNumber + n := by
  constructor
  · rintro rfl
    exact dayNumber_iterate d n
  · intro h
    exact dayNumber_injective (h.trans (dayNumber_iterate d n).symm)

end Date

end ProcFS.Lib
