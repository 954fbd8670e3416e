import ProcFS.CopyData
import ProcFS.Lib.Calendar
import ProcFS.Lib.CInt
import ProcFS.Lib.Printf

/-!
# ProcFS.Data.Rtc — the date of `/proc/rtc`

The seconds since 1970 become a date by division: of the days into eras of 400 years, of the
days of an era into years that begin in March, of the days of a year into months. All
divisions are integer ones, and the constants in them are chosen so that the quotient is the
number of whole years or months.

* `yearOfEra`: the quotient for the years.
* `monthOfYear`: the quotient for the months.
* `civilOf_eq`: the date of a day, without an overflow.
* `rtcTime_correct`: the date and the time that are printed.
-/

namespace ProcFS.Data

open Lib (Date IntType padLeft)
open Lib.IntType (int32 int64 uint64)

/-! ## The computation -/

structure RtcTime where
  hour : ℤ
  min : ℤ
  sec : ℤ
  year : ℤ
  month : ℤ
  day : ℤ
deriving DecidableEq, Repr

/-- `era` and `doe`. There is no result if a value overflows, here and below. -/
def splitEra (days : ℤ) : Option (ℤ × ℤ) := do
  let z ← int64.add (← int64.conv days) 719468
  let era := (← if 0 ≤ z then some z else int64.sub z 146096).tdiv 146097
  let doe ← uint64.conv (← int64.sub z (← int64.mul era 146097))
  return (era, doe)

/-- `yoe` and `doy`. -/
def splitYear (doe : ℤ) : Option (ℤ × ℤ) := do
  let yoe := (← uint64.sub (← uint64.add (← uint64.sub doe (doe / 1460)) (doe / 36524))
    (doe / 146096)) / 365
  let doy ← uint64.sub doe
    (← uint64.sub (← uint64.add (← uint64.mul 365 yoe) (yoe / 4)) (yoe / 100))
  return (yoe, doy)

/-- `month` and `day`. -/
def splitMonth (doy : ℤ) : Option (ℤ × ℤ) := do
  let mp := (← uint64.add (← uint64.mul 5 doy) 2) / 153
  let day ← int32.conv
    (← uint64.add (← uint64.sub doy ((← uint64.add (← uint64.mul 153 mp) 2) / 5)) 1)
  let month ← (if mp < 10 then uint64.add mp 3 else uint64.sub mp 9) >>= int32.conv
  return (month, day)

/-- The part of `procfs_dortc` from the days since 1970 on: year, month and day. -/
def civilOf (days : ℤ) : Option (ℤ × ℤ × ℤ) := do
  let (era, doe) ← splitEra days
  let (yoe, doy) ← splitYear doe
  let year ← int64.add (← int64.conv yoe) (← int64.mul era 400)
  let (month, day) ← splitMonth doy
  let year ← int64.add year (if month ≤ 2 then 1 else 0)
  return (year, month, day)

/-- The values that `procfs_dortc` computes from the seconds. -/
def rtcTime (secs : UInt64) : Option RtcTime := do
  let sod := (secs.toNat : ℤ) % 86400
  let hour ← int32.conv (sod / 3600)
  let min ← int32.conv (sod % 3600 / 60)
  let sec ← int32.conv (sod % 60)
  let (year, month, day) ← civilOf ((secs.toNat : ℤ) / 86400)
  return ⟨hour, min, sec, year, month, day⟩

/-- `%0wd` for a number that is not negative. -/
def fmtPadded (w : ℕ) (n : ℤ) : CString := padLeft 48 w (fmtNat n.toNat)

def RtcTime.text (t : RtcTime) : CString :=
  cstr "rtc_time\t: " ++ fmtPadded 2 t.hour ++ cstr ":" ++ fmtPadded 2 t.min ++ cstr ":" ++
    fmtPadded 2 t.sec ++ cstr "\n" ++
  cstr "rtc_date\t: " ++ fmtPadded 4 t.year ++ cstr "-" ++ fmtPadded 2 t.month ++ cstr "-" ++
    fmtPadded 2 t.day ++ cstr "\n" ++
  cstr "alrm_time\t: **:**:**\n" ++
  cstr "alrm_date\t: ****-**-**\n" ++
  cstr "alarm_IRQ\t: no\n" ++
  cstr "alrm_pending\t: no\n" ++
  cstr "update IRQ enabled\t: no\n" ++
  cstr "periodic IRQ enabled\t: no\n" ++
  cstr "periodic IRQ frequency\t: 0\n" ++
  cstr "max user IRQ frequency\t: 64\n" ++
  cstr "24hr\t\t: yes\n" ++
  cstr "batt_status\t: okay\n"

/-- `procfs_dortc`; `sbufNew` tells whether the buffer was allocated. -/
def procfsDortc (sbufNew : Bool) (secs : UInt64) (uio : Uio) : Option (CString × CopyOut) := do
  let t ← rtcTime secs
  if sbufNew then
    return (t.text, procfsCopyData false (Int32.ofNat t.text.length) uio)
  else
    return ([], ⟨some .ENOMEM, [], uio⟩)

/-! ## Years of an era -/

/-- What is divided by 365 to get the years of an era. -/
def leaplessDays (doe : ℤ) : ℤ := doe - doe / 1460 + doe / 36524 - doe / 146096

/-- The days before a year of an era, if years begin in March. -/
def eraDays (yoe : ℤ) : ℤ := 365 * yoe + yoe / 4 - yoe / 100

theorem leaplessDays_mono {doe doe' : ℤ} (h : doe ≤ doe') :
    leaplessDays doe ≤ leaplessDays doe' := by
  refine monotone_int_of_le_succ (fun n => ?_) h
  unfold leaplessDays
  omega

/-- The first day of a year counts for the year. -/
theorem le_leaplessDays {yoe : ℤ} (hmin : 0 ≤ yoe) (hmax : yoe < 400) :
    365 * yoe ≤ leaplessDays (eraDays yoe) := by
  have hcentury : eraDays yoe / 36524 = yoe / 100 := by
    unfold eraDays
    omega
  have hera : eraDays yoe / 146096 = 0 := by
    unfold eraDays
    omega
  have hfour : eraDays yoe / 1460 ≤ yoe / 4 := by
    unfold eraDays
    omega
  rw [leaplessDays, hcentury, hera]
  unfold eraDays at hfour ⊢
  omega

/-- The last day of a year does not count for the next one. -/
theorem leaplessDays_lt {yoe : ℤ} (hmin : 0 ≤ yoe) (hmax : yoe < 399) :
    leaplessDays (eraDays (yoe + 1) - 1) < 365 * (yoe + 1) := by
  have hcentury : (eraDays (yoe + 1) - 1) / 36524 = yoe / 100 := by
    unfold eraDays
    omega
  have hera : (eraDays (yoe + 1) - 1) / 146096 = 0 := by
    unfold eraDays
    omega
  have hfour : (yoe + 1) / 4 ≤ (eraDays (yoe + 1) - 1) / 1460 := by
    unfold eraDays
    omega
  rw [leaplessDays, hcentury, hera]
  unfold eraDays at hfour ⊢
  omega

/-- The quotient is the number of whole years. -/
theorem yearOfEra {doe : ℤ} (hmin : 0 ≤ doe) (hmax : doe < 146097) :
    0 ≤ leaplessDays doe / 365 ∧ leaplessDays doe / 365 < 400 ∧
      eraDays (leaplessDays doe / 365) ≤ doe ∧
      (leaplessDays doe / 365 < 399 → doe < eraDays (leaplessDays doe / 365 + 1)) := by
  have hzero : leaplessDays 0 ≤ leaplessDays doe := leaplessDays_mono hmin
  have hlast : leaplessDays doe ≤ leaplessDays 146096 := leaplessDays_mono (by omega)
  rw [show leaplessDays 0 = 0 from rfl] at hzero
  rw [show leaplessDays 146096 = 145999 from rfl] at hlast
  obtain ⟨yoe, hyoe⟩ : ∃ yoe, yoe = leaplessDays doe / 365 := ⟨_, rfl⟩
  rw [← hyoe]
  refine ⟨by omega, by omega, ?_, fun hyear => ?_⟩
  · by_contra hlt
    by_cases hfirst : yoe = 0
    · rw [hfirst, show eraDays 0 = 0 from rfl] at hlt
      omega
    · -- the day would lie in the year before
      have hbefore := @leaplessDays_lt (yoe - 1) (by omega) (by omega)
      rw [Int.sub_add_cancel] at hbefore
      have hmono := leaplessDays_mono (show doe ≤ eraDays yoe - 1 by omega)
      omega
  · by_contra hge
    have hafter := @le_leaplessDays (yoe + 1) (by omega) (by omega)
    have hmono := leaplessDays_mono (show eraDays (yoe + 1) ≤ doe by omega)
    omega

/-! ## The date -/

/-- The years of an era are those of the calendar. -/
theorem daysBefore_era {era yoe : ℤ} (hmin : 0 ≤ yoe) (hmax : yoe < 400) :
    Date.daysBefore (yoe + era * 400) = era * 146097 + eraDays yoe := by
  unfold Date.daysBefore eraDays
  omega

/-- The division by 153 gives the number of whole months. -/
theorem monthOfYear {doy : ℕ} (h : doy ≤ 365) :
    (5 * doy + 2) / 153 < 12 ∧ Date.monthStart ((5 * doy + 2) / 153) ≤ doy ∧
      doy < Date.monthStart ((5 * doy + 2) / 153 + 1) := by
  unfold Date.monthStart
  omega

/-- The day of a year that begins in March is a date. -/
theorem exists_date {y : ℤ} {doy mp month : ℕ}
    (hdoy : Date.daysBefore y + doy < Date.daysBefore (y + 1)) (hmp : mp = (5 * doy + 2) / 153)
    (hmonth : month = if mp < 10 then mp + 3 else mp - 9) :
    ∃ d : Date, d.year = (if month ≤ 2 then y + 1 else y) ∧ d.month = month ∧
      d.day = doy - Date.monthStart mp + 1 ∧ d.marchYear = y ∧ d.dayOfYear = doy := by
  have hyear := Date.daysBefore_february (y + 1)
  rw [Int.add_sub_cancel, show Date.monthStart (Date.monthIndex 2) = 337 from rfl] at hyear
  have hfeb : Lib.daysInMonth (y + 1) 2 ≤ 29 := by
    rw [Lib.daysInMonth, if_pos rfl]
    split <;> decide
  obtain ⟨hlt, hstart, hend⟩ := @monthOfYear doy (by omega)
  rw [← hmp] at hlt hstart hend
  have hindex : Date.monthIndex month = mp := by
    unfold Date.monthIndex
    split at hmonth <;> omega
  have hpos : 1 ≤ month := by
    split at hmonth <;> omega
  have hle : month ≤ 12 := by
    split at hmonth <;> omega
  have hday : doy - Date.monthStart mp + 1 ≤
      Lib.daysInMonth (if month ≤ 2 then y + 1 else y) month := by
    by_cases htwo : month = 2
    · -- in February the year decides
      have heleven : mp = 11 := by rw [← hindex, htwo]; rfl
      rw [htwo, if_pos (Nat.le_refl 2), heleven, show Date.monthStart 11 = 337 from rfl]
      omega
    · have hnext := Date.monthStart_succ hpos hle htwo (if month ≤ 2 then y + 1 else y)
      rw [hindex] at hnext
      omega
  refine ⟨⟨_, month, _, hpos, hle, Nat.le_add_left 1 _, hday⟩, rfl, rfl, rfl, ?_, ?_⟩
  · simp only [Date.marchYear]
    split <;> omega
  · simp only [Date.dayOfYear, hindex]
    omega

section Split

open Lib.IntType (int32_bind int64_bind uint64_bind)

theorem splitEra_eq {days : ℤ} (hmin : 0 ≤ days) (hmax : days < 2 ^ 62) :
    splitEra days = some ((days + 719468) / 146097, (days + 719468) % 146097) := by
  have hdiv : (days + 719468).tdiv 146097 = (days + 719468) / 146097 :=
    Int.tdiv_eq_ediv_of_nonneg (by omega)
  have hmod : days + 719468 - (days + 719468) / 146097 * 146097 = (days + 719468) % 146097 := by
    omega
  simp only [splitEra, IntType.add, IntType.sub, IntType.mul, Option.bind_eq_bind]
  rw [int64_bind hmin (by omega), int64_bind (by omega) (by omega), if_pos (by omega),
    Option.bind_some, hdiv, int64_bind (by omega) (by omega), hmod,
    int64_bind (by omega) (by omega), uint64_bind (by omega) (by omega)]
  rfl

theorem splitYear_eq {doe : ℤ} (hmin : 0 ≤ doe) (hmax : doe < 146097) :
    splitYear doe = some (leaplessDays doe / 365, doe - eraDays (leaplessDays doe / 365)) := by
  obtain ⟨hyear, hyear', hstart, -⟩ := yearOfEra hmin hmax
  have hsum : leaplessDays doe = doe - doe / 1460 + doe / 36524 - doe / 146096 := rfl
  have hdays : eraDays (leaplessDays doe / 365) = 365 * (leaplessDays doe / 365) +
      leaplessDays doe / 365 / 4 - leaplessDays doe / 365 / 100 := rfl
  simp only [splitYear, IntType.add, IntType.sub, IntType.mul, Option.bind_eq_bind]
  rw [uint64_bind (by omega) (by omega), uint64_bind (by omega) (by omega), ← hsum,
    uint64_bind (by omega) (by omega), uint64_bind (by omega) (by omega),
    uint64_bind (by omega) (by omega), ← hdays, uint64_bind (by omega) (by omega),
    uint64_bind (by omega) (by omega)]
  rfl

theorem splitMonth_eq {doy : ℕ} (h : doy ≤ 365) {mp month : ℕ} (hmp : mp = (5 * doy + 2) / 153)
    (hmonth : month = if mp < 10 then mp + 3 else mp - 9) :
    splitMonth doy = some ((month : ℤ), ((doy - Date.monthStart mp + 1 : ℕ) : ℤ)) := by
  obtain ⟨hlt, hstart, -⟩ := monthOfYear h
  rw [← hmp] at hlt hstart
  have hindex : (5 * (doy : ℤ) + 2) / 153 = mp := by omega
  have hdays : (153 * (mp : ℤ) + 2) / 5 = Date.monthStart mp := by
    unfold Date.monthStart
    omega
  have hday : ((doy - Date.monthStart mp + 1 : ℕ) : ℤ) = (doy : ℤ) - Date.monthStart mp + 1 := by
    omega
  simp only [splitMonth, IntType.add, IntType.sub, IntType.mul, Option.bind_eq_bind]
  rw [uint64_bind (by omega) (by omega), uint64_bind (by omega) (by omega), hindex,
    uint64_bind (by omega) (by omega), uint64_bind (by omega) (by omega), hdays,
    uint64_bind (by omega) (by omega), uint64_bind (by omega) (by omega),
    int32_bind (by omega) (by omega), hday]
  by_cases hten : mp < 10
  · rw [if_pos hten] at hmonth
    rw [if_pos (by omega), uint64_bind (by omega) (by omega), int32_bind (by omega) (by omega),
      show (mp : ℤ) + 3 = month by omega]
    rfl
  · rw [if_neg hten] at hmonth
    rw [if_neg (by omega), uint64_bind (by omega) (by omega), int32_bind (by omega) (by omega),
      show (mp : ℤ) - 9 = month by omega]
    rfl

/-- The date that is computed is that of the day, and nothing overflows on the way. -/
theorem civilOf_eq {days : ℤ} (hmin : 0 ≤ days) (hmax : days < 2 ^ 62) :
    ∃ d : Date, civilOf days = some (d.year, (d.month : ℤ), (d.day : ℤ)) ∧
      d.dayNumber = days + 719468 := by
  obtain ⟨era, hera⟩ : ∃ era, era = (days + 719468) / 146097 := ⟨_, rfl⟩
  obtain ⟨doe, hdoe⟩ : ∃ doe, doe = (days + 719468) % 146097 := ⟨_, rfl⟩
  obtain ⟨yoe, hyoe⟩ : ∃ yoe, yoe = leaplessDays doe / 365 := ⟨_, rfl⟩
  obtain ⟨hyoe_min, hyoe_max, hstart, hend⟩ := @yearOfEra doe (by omega) (by omega)
  rw [← hyoe] at hyoe_min hyoe_max hstart hend
  obtain ⟨doy, hdoy⟩ := Int.eq_ofNat_of_zero_le (show 0 ≤ doe - eraDays yoe by omega)
  -- the day lies before the next year, be it in the same era or the first of the next
  have hyear : Date.daysBefore (yoe + era * 400) + doy <
      Date.daysBefore (yoe + era * 400 + 1) := by
    rw [daysBefore_era hyoe_min hyoe_max]
    by_cases hlast : yoe < 399
    · rw [show yoe + era * 400 + 1 = yoe + 1 + era * 400 by omega,
        daysBefore_era (by omega) (by omega)]
      have hlt := hend hlast
      omega
    · rw [show yoe + era * 400 + 1 = 0 + (era + 1) * 400 by omega,
        daysBefore_era (Int.le_refl 0) (by decide), show eraDays 0 = 0 from rfl]
      omega
  obtain ⟨d, hdyear, hdmonth, hdday, hmarch, hdoy'⟩ := exists_date hyear rfl rfl
  have hmonths := @splitMonth_eq doy (by rw [← hdoy']; exact d.dayOfYear_le) _ _ rfl rfl
  rw [← hdmonth, ← hdday] at hmonths
  rw [← hdmonth] at hdyear
  have hadd : yoe + era * 400 + (if (d.month : ℤ) ≤ 2 then 1 else 0) = d.year := by
    rw [hdyear]
    split <;> split <;> omega
  refine ⟨d, ?_, ?_⟩
  · simp only [civilOf, IntType.add, IntType.mul, Option.bind_eq_bind]
    rw [splitEra_eq hmin hmax, Option.bind_some, ← hera, ← hdoe, splitYear_eq (by omega) (by omega),
      Option.bind_some, ← hyoe, hdoy, int64_bind (by omega) (by omega),
      int64_bind (by omega) (by omega), int64_bind (by omega) (by omega), hmonths, Option.bind_some,
      hadd, int64_bind (by omega) (by omega)]
    rfl
  · rw [Date.dayNumber, hmarch, hdoy', daysBefore_era hyoe_min hyoe_max]
    omega

def epoch : Date := Date.newYear 1970

theorem epoch_dayNumber : epoch.dayNumber = 719468 := by decide

/-- For every number of seconds nothing overflows. The date that is printed is a date of the
calendar, the one so many days after the first of January 1970 as there are whole days in
the seconds; the time of day is a time of day and makes up the other seconds. -/
theorem rtcTime_correct (secs : UInt64) :
    ∃ (t : RtcTime) (d : Date), rtcTime secs = some t ∧
      (t.year = d.year ∧ t.month = d.month ∧ t.day = d.day) ∧
      d = Date.tomorrow^[secs.toNat / 86400] epoch ∧
      (0 ≤ t.hour ∧ t.hour < 24) ∧ (0 ≤ t.min ∧ t.min < 60) ∧ (0 ≤ t.sec ∧ t.sec < 60) ∧
      t.hour * 3600 + t.min * 60 + t.sec = (secs.toNat % 86400 : ℕ) := by
  have hsecs := secs.toNat_lt
  obtain ⟨n, hn⟩ : ∃ n, n = secs.toNat := ⟨_, rfl⟩
  rw [← hn] at hsecs ⊢
  obtain ⟨d, hcivil, hnumber⟩ := @civilOf_eq ((n : ℤ) / 86400) (by omega) (by omega)
  have htime : rtcTime secs = some ⟨(n : ℤ) % 86400 / 3600, (n : ℤ) % 86400 % 3600 / 60,
      (n : ℤ) % 86400 % 60, d.year, d.month, d.day⟩ := by
    simp only [rtcTime, Option.bind_eq_bind, ← hn]
    rw [int32_bind (by omega) (by omega), int32_bind (by omega) (by omega),
      int32_bind (by omega) (by omega), hcivil]
    rfl
  refine ⟨_, d, htime, ⟨rfl, rfl, rfl⟩, ?_, ⟨by simp only; omega, by simp only; omega⟩,
    ⟨by simp only; omega, by simp only; omega⟩, ⟨by simp only; omega, by simp only; omega⟩,
    by simp only; omega⟩
  rw [Date.eq_iterate_tomorrow_iff, hnumber, epoch_dayNumber]
  omega

/-- A leap day. -/
example : (rtcTime 951782400).map (fun t => (t.year, t.month, t.day)) = some (2000, 2, 29) := by
  decide

end Split

end ProcFS.Data
