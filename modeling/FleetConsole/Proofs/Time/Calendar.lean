import FleetConsole.Time.Calendar
import Mathlib.Tactic.SplitIfs
import Mathlib.Tactic.ByContra

/-!
# Day numbers and dates

Every day number has a date, which is valid and has that day number again (`isValid_ofDays`,
`toDays_ofDays`). In a cycle of four hundred years the year is found by a division that corrects for
leap days in advance; `yearOfCycle_spec` says that it gives the year in which the day lies. Within a
year the months from March on are found in the same way, which is a matter of 366 days.
-/

namespace FleetConsole.Date

/-! ### The year of a cycle -/

/-- How many days of a cycle come before one of its years. -/
def yearStart (y : Nat) : Nat := 365 * y + y / 4 - y / 100

/-- The last year of a cycle is a day longer than the others of its kind. -/
theorem yearOfCycle_spec {n y : Nat} (hn : n < 146097)
    (hy : y = (n - n / 1460 + n / 36524 - n / 146096) / 365) :
    y < 400 ∧ yearStart y ≤ n ∧ n < yearStart (y + 1) + if y = 399 then 1 else 0 := by
  by_cases hlast : n = 146096
  · subst hlast hy
    decide
  -- The day is split into centuries `c` and the rest, and the year into centuries, fours and the
  -- rest; with these in place everything is linear.
  obtain ⟨c, m, hc, hm, rfl⟩ : ∃ c m, c < 4 ∧ m < 36524 ∧ n = 36524 * c + m :=
    ⟨n / 36524, n % 36524, by omega, by omega, by omega⟩
  have hfours : (36524 * c + m) / 1460 = 25 * c + (24 * c + m) / 1460 := by omega
  have hcenturies : (36524 * c + m) / 36524 = c := by omega
  have hcycles : (36524 * c + m) / 146096 = 0 := by omega
  rw [hfours, hcenturies, hcycles] at hy
  generalize hk : (24 * c + m) / 1460 = k at hy
  obtain ⟨q, s, hs, hyear⟩ : ∃ q s, s < 4 ∧ y = 100 * c + (4 * q + s) :=
    ⟨(y - 100 * c) / 4, (y - 100 * c) % 4, by omega, by omega⟩
  have hq : q ≤ 24 ∧ q ≤ k ∧ k ≤ q + 1 ∧ (s < 3 → k ≤ q) := by omega
  clear hfours hcenturies hcycles
  have hstart : yearStart y = 36524 * c + 365 * (4 * q + s) + q := by
    rw [yearStart]
    omega
  have hnext : yearStart (y + 1) = 36524 * c + 365 * (4 * q + s + 1) +
      (if s = 3 then q + 1 else q) - if q = 24 ∧ s = 3 then 1 else 0 := by
    rw [yearStart]
    split_ifs <;> omega
  rw [hstart, hnext]
  refine ⟨by omega, by omega, ?_⟩
  split_ifs <;> omega

theorem yearStart_succ_le (y : Nat) : yearStart (y + 1) ≤ yearStart y + 366 := by
  simp only [yearStart]
  omega

/-- A year of a cycle that has a day more is followed by one with a leap day, because the years of a
cycle begin in March. -/
theorem isLeapYear_of_long {y : Nat} (cycle : Int)
    (hlong : yearStart y + 365 < yearStart (y + 1) + if y = 399 then 1 else 0) (hy : y < 400) :
    isLeapYear (y + 1 + cycle * 400) = true := by
  have hfour : (y + 1) % 4 = 0 ∧ ((y + 1) % 100 ≠ 0 ∨ y = 399) := by
    simp only [yearStart] at hlong
    split_ifs at hlong with hlast
    · omega
    · omega
  rw [isLeapYear, decide_eq_true_iff]
  omega

/-! ### The months of a year -/

/-- The month that is so many months after March. -/
def monthAfterMarch (n : Nat) : Nat := if n < 10 then n + 3 else n - 9

theorem monthAfterMarch_spec : ∀ n < 12, 1 ≤ monthAfterMarch n ∧ monthAfterMarch n ≤ 12 ∧
    (monthAfterMarch n + 9) % 12 = n := by
  decide

/-- The months that begin in March have 31 and 30 days in turn, but for one pair; the last one ends
with the year. -/
theorem monthOfYear_spec : ∀ n < 366,
    (5 * n + 2) / 153 ≤ 11 ∧ (153 * ((5 * n + 2) / 153) + 2) / 5 ≤ n ∧
    n - (153 * ((5 * n + 2) / 153) + 2) / 5 + 1 ≤
      daysInMonth (if n = 365 then 2000 else 2001) (monthAfterMarch ((5 * n + 2) / 153)) := by
  decide +kernel

theorem daysInMonth_congr {year other : Int} (month : Nat)
    (hleap : isLeapYear year = isLeapYear other) :
    daysInMonth year month = daysInMonth other month := by
  rw [daysInMonth, daysInMonth, hleap]

/-- In a year without a leap day no month has more days than in another year. -/
theorem daysInMonth_common_le (year : Int) (month : Nat) :
    daysInMonth 2001 month ≤ daysInMonth year month := by
  have hcommon : ¬isLeapYear 2001 = true := by decide
  rw [daysInMonth, daysInMonth, if_neg hcommon]
  split_ifs <;> decide

/-! ### Dates from day numbers -/

/-- The date that is so many days after the first of March of a year of a cycle. -/
def ofCycle (cycle : Int) (y d : Nat) : Date :=
  let march := (5 * d + 2) / 153
  let month := monthAfterMarch march
  let year := (y : Int) + cycle * 400
  ⟨if month ≤ 2 then year + 1 else year, month, d - (153 * march + 2) / 5 + 1⟩

/-- A day of a year of a cycle; the last day of a leap year exists only in some of them. -/
structure IsDayOfCycle (y d : Nat) : Prop where
  year : y < 400
  day : d < 366
  long : d = 365 → yearStart y + 365 < yearStart (y + 1) + if y = 399 then 1 else 0

theorem ofDays_eq_ofCycle (days : Int) : ∃ (cycle : Int) (y d : Nat), IsDayOfCycle y d ∧
    days + 719468 = cycle * 146097 + (yearStart y + d : Nat) ∧
    ofDays days = ofCycle cycle y d := by
  obtain ⟨n, hn⟩ : ∃ n, n = ((days + 719468) % 146097).toNat := ⟨_, rfl⟩
  obtain ⟨y, hy⟩ : ∃ y, y = (n - n / 1460 + n / 36524 - n / 146096) / 365 := ⟨_, rfl⟩
  obtain ⟨hyear, hstart, hend⟩ := yearOfCycle_spec (by omega) hy
  have hlength := yearStart_succ_le y
  refine ⟨(days + 719468) / 146097, y, n - yearStart y, ⟨hyear, ?_, ?_⟩, ?_, ?_⟩
  · have hlast : y = 399 → n < 146097 ∧ yearStart y = 145731 := by
      rintro rfl
      exact ⟨by omega, by decide⟩
    split_ifs at hend <;> omega
  · omega
  · omega
  · rw [hy, hn]
    rfl

/-- The day number of a date from the year that began in March and the months since then. -/
theorem toDays_eq (date : Date) (year : Int) (march : Nat)
    (hyear : (if date.month ≤ 2 then date.year - 1 else date.year) = year)
    (hmarch : (date.month + 9) % 12 = march) :
    toDays date = 365 * year + year / 4 - year / 100 + year / 400 +
      ((153 * march + 2) / 5 + date.day - 1 : Nat) - 719468 := by
  simp only [toDays]
  rw [hyear, hmarch]
  omega

theorem toDays_ofCycle {y d : Nat} (hday : IsDayOfCycle y d) (cycle : Int) :
    toDays (ofCycle cycle y d) = cycle * 146097 + (yearStart y + d : Nat) - 719468 := by
  obtain ⟨hmarch, hmonth, -⟩ := monthOfYear_spec d hday.day
  have hyear := hday.year
  rw [toDays_eq _ (y + cycle * 400) ((5 * d + 2) / 153)]
  · simp only [ofCycle, yearStart]
    omega
  · simp only [ofCycle]
    split_ifs <;> omega
  · exact (monthAfterMarch_spec ((5 * d + 2) / 153) (by omega)).2.2

theorem toDays_ofDays (days : Int) : toDays (ofDays days) = days := by
  obtain ⟨cycle, y, d, hday, hdays, heq⟩ := ofDays_eq_ofCycle days
  rw [heq, toDays_ofCycle hday]
  omega

theorem isValid_ofCycle {y d : Nat} (hday : IsDayOfCycle y d) (cycle : Int) :
    isValid (ofCycle cycle y d) = true := by
  obtain ⟨hmarch, hmonth, hlength⟩ := monthOfYear_spec d hday.day
  obtain ⟨hfirst, hlast, -⟩ := monthAfterMarch_spec ((5 * d + 2) / 153) (by omega)
  have hfits : (ofCycle cycle y d).day ≤
      daysInMonth (ofCycle cycle y d).year (ofCycle cycle y d).month := by
    simp only [ofCycle]
    apply Nat.le_trans hlength
    split_ifs with hd hearly hearly
    · -- The day after all others is the last of February in a leap year.
      have hleap := isLeapYear_of_long cycle (hday.long hd) hday.year
      rw [show (y : Int) + cycle * 400 + 1 = y + 1 + cycle * 400 by omega]
      have hsame : isLeapYear 2000 = isLeapYear (y + 1 + cycle * 400) := by
        rw [hleap]
        decide
      exact Nat.le_of_eq (daysInMonth_congr _ hsame)
    · subst hd
      exact absurd (by decide) hearly
    · exact daysInMonth_common_le _ _
    · exact daysInMonth_common_le _ _
  rw [isValid, decide_eq_true_iff]
  exact ⟨hfirst, hlast, Nat.le_add_left _ _, hfits⟩

theorem isValid_ofDays (days : Int) : isValid (ofDays days) = true := by
  obtain ⟨cycle, y, d, hday, -, heq⟩ := ofDays_eq_ofCycle days
  rw [heq]
  exact isValid_ofCycle hday cycle

example : ofDays 11016 = ⟨2000, 2, 29⟩ ∧ ofDays (-25509) = ⟨1900, 2, 28⟩ := by decide

/-! ### Years in order -/

/-- The first of January of a year. -/
def newYear (year : Int) : Date := ⟨year, 1, 1⟩

theorem toDays_newYear (year : Int) : toDays (newYear year) =
    365 * (year - 1) + (year - 1) / 4 - (year - 1) / 100 + (year - 1) / 400 + 306 - 719468 :=
  toDays_eq (newYear year) (year - 1) 10 rfl rfl

theorem toDays_newYear_le {first later : Int} (hle : first ≤ later) :
    toDays (newYear first) ≤ toDays (newYear later) := by
  rw [toDays_newYear, toDays_newYear]
  omega

/-- A date lies between the beginning of its year and the beginning of the next one. -/
theorem toDays_bounds {date : Date} (hvalid : isValid date = true) :
    toDays (newYear date.year) ≤ toDays date ∧
      toDays date < toDays (newYear (date.year + 1)) := by
  rw [isValid, decide_eq_true_iff] at hvalid
  obtain ⟨hfirst, hlast, hday, hlength⟩ := hvalid
  have hmonth : daysInMonth date.year date.month ≤ if date.month = 2 then 29 else 31 := by
    rw [daysInMonth]
    split_ifs <;> omega
  rw [toDays_newYear, toDays_newYear, toDays_eq date _ _ rfl rfl]
  split_ifs at hmonth ⊢ <;> omega

theorem year_le_of_toDays_lt {date : Date} (hvalid : isValid date = true) {year : Int}
    (hlt : toDays date < toDays (newYear (year + 1))) : date.year ≤ year := by
  have hbegin := (toDays_bounds hvalid).1
  by_contra hlater
  have hle := toDays_newYear_le (show year + 1 ≤ date.year by omega)
  omega

theorem le_year_of_toDays_le {date : Date} (hvalid : isValid date = true) {year : Int}
    (hle : toDays (newYear year) ≤ toDays date) : year ≤ date.year := by
  have hend := (toDays_bounds hvalid).2
  by_contra hearlier
  have hbefore := toDays_newYear_le (show date.year + 1 ≤ year by omega)
  omega

end FleetConsole.Date
