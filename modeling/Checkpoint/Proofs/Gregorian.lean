import Mathlib.Data.Int.Init
import Mathlib.Order.Monotone.Basic
import Mathlib.Tactic.IntervalCases
import Checkpoint.Calendar

/-! # The Gregorian calendar

Days counted as the calendar has them: years of 365 or 366 days, months of 28 to 31. The date of a
day is the one date of the calendar to which there are as many days from 1970-01-01. -/
namespace Checkpoint

/-! ## The rule -/

/-- Every fourth year is a leap year, but of the years that end a century only every fourth. -/
def IsLeap (year : Int) : Prop := year % 4 = 0 ∧ (year % 100 ≠ 0 ∨ year % 400 = 0)

instance (year : Int) : Decidable (IsLeap year) := inferInstanceAs (Decidable (_ ∧ _))

def yearLength (year : Int) : Nat := if IsLeap year then 366 else 365

/-- The days of a month, of which January is the first. -/
def monthLength (year : Int) : (month : Nat) → Nat
  | 2 => if IsLeap year then 29 else 28
  | 4 | 6 | 9 | 11 => 30
  | _ => 31

/-- The days of so many years from the first on. -/
def daysOfYears : (first : Int) → (count : Nat) → Nat
  | _, 0 => 0
  | first, count + 1 => yearLength first + daysOfYears (first + 1) count

/-- The days from the start of 1970 to the start of a year, negative if it comes before. -/
def daysBeforeYear (year : Int) : Int :=
  if 1970 ≤ year then daysOfYears 1970 (year - 1970).toNat
  else -daysOfYears year (1970 - year).toNat

/-- The days of a year before a month. -/
def daysBeforeMonth (year : Int) : (month : Nat) → Nat
  | 0 | 1 => 0
  | month + 2 => daysBeforeMonth year (month + 1) + monthLength year (month + 1)

namespace Date

/-- There is such a day. -/
structure Valid (d : Date) : Prop where
  month_pos : 1 ≤ d.month
  month_le : d.month ≤ 12
  day_pos : 1 ≤ d.day
  day_le : d.day ≤ monthLength d.year d.month

/-- The days from 1970-01-01 to a date. -/
def toDays (d : Date) : Int :=
  daysBeforeYear d.year + daysBeforeMonth d.year d.month + (d.day - 1)

/-- Dates are ordered by their years, then by their months, then by their days. -/
def Before (d e : Date) : Prop :=
  d.year < e.year ∨ d.year = e.year ∧
    (d.month < e.month ∨ d.month = e.month ∧ d.day < e.day)

end Date

/-! ## Years -/

theorem daysOfYears_succ (first : Int) (count : Nat) :
    daysOfYears first (count + 1) = daysOfYears first count + yearLength (first + count) := by
  induction count generalizing first with
  | zero => simp [daysOfYears]
  | succ count ih =>
    have hyear : first + 1 + (count : Int) = first + (count + 1 : Nat) := by omega
    rw [daysOfYears, ih, daysOfYears, hyear, Nat.add_assoc]

theorem daysBeforeYear_succ (year : Int) :
    daysBeforeYear (year + 1) = daysBeforeYear year + yearLength year := by
  unfold daysBeforeYear
  by_cases h : 1970 ≤ year
  · have hcount : (year + 1 - 1970).toNat = (year - 1970).toNat + 1 := by omega
    have hyear : 1970 + ((year - 1970).toNat : Int) = year := by omega
    rw [if_pos h, if_pos (by omega), hcount, daysOfYears_succ, hyear, Int.natCast_add]
  · have hcount : (1970 - year).toNat = (1970 - (year + 1)).toNat + 1 := by omega
    rw [if_neg h, hcount, daysOfYears]
    by_cases h' : 1970 ≤ year + 1
    · have hlast : year + 1 = 1970 := by omega
      rw [hlast]
      simp [daysOfYears]
    · rw [if_neg h']
      omega

/-- A year has one day more if it completes four years, one less if it completes a century, and one
more if it completes four centuries. -/
theorem yearLength_eq (year : Int) : (yearLength year : Int) =
    365 + (year / 4 - (year - 1) / 4) - (year / 100 - (year - 1) / 100) +
      (year / 400 - (year - 1) / 400) := by
  unfold yearLength
  by_cases h : IsLeap year
  · rw [if_pos h]
    unfold IsLeap at h
    omega
  · rw [if_neg h]
    unfold IsLeap at h
    omega

/-- The years before a year have 365 days each, and so many leap days. -/
theorem daysBeforeYear_eq (year : Int) : daysBeforeYear year =
    365 * (year - 1970) + (year - 1) / 4 - (year - 1) / 100 + (year - 1) / 400 - 477 := by
  induction year using Int.inductionOn' (b := 1970) with
  | zero => decide
  | succ year _ ih =>
    rw [daysBeforeYear_succ, ih, yearLength_eq]
    omega
  | pred year _ ih =>
    have hs := daysBeforeYear_succ (year - 1)
    rw [Int.sub_add_cancel, yearLength_eq] at hs
    omega

/-! ## Days of an era

An era starts with the 1st of March of a year that is a multiple of 400. It is divided into
centuries of 36,524 days, these into fours of years of 1,461 days, and these into years of 365 days;
the leap day of an era, of a century or of four years is left over at its end. -/

/-- A day of an era: the year of it, counted in centuries, fours and single years, and the day of
that year. -/
structure EraDay where
  century : Nat
  four : Nat
  year : Nat
  day : Nat

namespace EraDay

/-- The days of the era before it. -/
def count (d : EraDay) : Nat := 36524 * d.century + 1461 * d.four + 365 * d.year + d.day

def yearOfEra (d : EraDay) : Nat := 100 * d.century + 4 * d.four + d.year

/-- A year has 366 days if it is the last of four years, and also of a century only if this is the
last of the era. -/
structure Valid (d : EraDay) : Prop where
  century : d.century < 4
  four : d.four < 25
  year : d.year < 4
  day : d.day < 366
  leapDay : d.day = 365 → d.year = 3 ∧ (d.four < 24 ∨ d.century = 3)

theorem exists_count {n : Nat} (h : n < 146097) : ∃ d : EraDay, d.Valid ∧ d.count = n := by
  obtain ⟨century, m, hm, hc, hlast⟩ : ∃ century m, 36524 * century + m = n ∧ century < 4 ∧
      (m < 36524 ∨ m = 36524 ∧ century = 3) :=
    ⟨min 3 (n / 36524), n - 36524 * min 3 (n / 36524), by omega, by omega, by omega⟩
  obtain ⟨four, k, hk, hf, hleft⟩ : ∃ four k, 1461 * four + k = m ∧ four < 25 ∧ k < 1461 :=
    ⟨m / 1461, m % 1461, by omega, by omega, by omega⟩
  obtain ⟨year, day, hd, hy, hday⟩ : ∃ year day, 365 * year + day = k ∧ year < 4 ∧
      (day < 365 ∨ day = 365 ∧ year = 3) :=
    ⟨min 3 (k / 365), k - 365 * min 3 (k / 365), by omega, by omega, by omega⟩
  have hdays : 36524 * century + 1461 * four + 365 * year + day = n := by omega
  exact ⟨⟨century, four, year, day⟩,
    ⟨hc, hf, hy, by dsimp only; omega, by dsimp only; omega⟩, hdays⟩

variable {d : EraDay}

/-- A day is taken away for every leap day that has passed, and one that has not passed yet does no
harm. -/
theorem yearOfEra_eq (h : d.Valid) :
    (d.count - d.count / 1460 + d.count / 36524 - d.count / 146096) / 365 = d.yearOfEra := by
  obtain ⟨century, four, year, day⟩ := d
  obtain ⟨hc, hf, hy, hd, hl⟩ := h
  dsimp only at hc hf hy hd hl
  dsimp only [count, yearOfEra]
  obtain ⟨n, hn⟩ : ∃ n, 36524 * century + 1461 * four + 365 * year + day = n := ⟨_, rfl⟩
  rw [hn]
  have hfours : n / 1460 = 25 * century + four ∨
      n / 1460 = 25 * century + four + 1 ∧ 1460 ≤ 24 * century + four + 365 * year + day := by
    omega
  have hcenturies : n / 36524 = century ∧ n / 146096 = 0 ∨ n = 146096 ∧ century = 3 := by
    have hm : 1461 * four + 365 * year + day < 36524 ∨
        1461 * four + 365 * year + day = 36524 ∧ century = 3 := by omega
    omega
  rcases hcenturies with ⟨hcentury, hera⟩ | ⟨rfl, rfl⟩
  · rw [hcentury, hera, Nat.div_eq_iff (by decide)]
    rcases hfours with hq | ⟨hq, hday⟩
    · -- no day is taken away too early, so this is none of the leap days
      have hleap : day < 365 := by omega
      omega
    · have hlate : year = 3 ∧ 1 ≤ day := by omega
      omega
  · -- the last day of the era
    have hlast : four = 24 ∧ year = 3 := by omega
    rw [hlast.1, hlast.2]

/-- What is left of a day is the day of its year. -/
theorem day_eq (h : d.Valid) :
    d.count - (365 * d.yearOfEra + d.yearOfEra / 4 - d.yearOfEra / 100) = d.day := by
  obtain ⟨century, four, year, day⟩ := d
  obtain ⟨hc, hf, hy, -, -⟩ := h
  dsimp only at hc hf hy
  dsimp only [count, yearOfEra]
  have hfours : (100 * century + 4 * four + year) / 4 = 25 * century + four := by omega
  have hcenturies : (100 * century + 4 * four + year) / 100 = century := by omega
  rw [hfours, hcenturies]
  omega

/-- The year that ends in February after a leap day is a leap year. -/
theorem isLeap_of_day (h : d.Valid) (hd : d.day = 365) (era : Int) :
    IsLeap (d.yearOfEra + 400 * era + 1) := by
  obtain ⟨hy, hlast⟩ := h.leapDay hd
  have hc := h.century
  have hf := h.four
  unfold IsLeap yearOfEra
  omega

/-- There are 306 days from March to the end of a year. -/
theorem daysBeforeYear_march (h : d.Valid) (era : Int) :
    daysBeforeYear (d.yearOfEra + 400 * era + 1) + d.day - 306 =
      146097 * era + d.count - 719468 := by
  obtain ⟨century, four, year, day⟩ := d
  obtain ⟨hc, hf, hy, -, -⟩ := h
  dsimp only at hc hf hy
  rw [daysBeforeYear_eq, Int.add_sub_cancel]
  dsimp only [count, yearOfEra]
  obtain ⟨n, hn⟩ : ∃ n : Int, ((100 * century + 4 * four + year : Nat) : Int) + 400 * era = n :=
    ⟨_, rfl⟩
  have hfours : n / 4 = 100 * era + 25 * century + four := by omega
  have hcenturies : n / 100 = 4 * era + century := by omega
  have heras : n / 400 = era := by omega
  rw [hn, hfours, hcenturies, heras]
  omega

end EraDay

/-! ## Months of a year from March to February -/

/-- The days before a month, of which March is the first and numbered from 0. -/
def marchStart (month : Nat) : Nat := (153 * month + 2) / 5

theorem daysBeforeMonth_of_lt (year : Int) {month : Nat} (h : month < 10) :
    daysBeforeMonth year (month + 3) + 306 = yearLength year + marchStart month := by
  interval_cases month <;> by_cases hl : IsLeap year <;>
    simp [daysBeforeMonth, monthLength, yearLength, marchStart, hl]

theorem daysBeforeMonth_of_ge (year : Int) {month : Nat} (h : 10 ≤ month) (h' : month < 12) :
    daysBeforeMonth year (month - 9) + 306 = marchStart month := by
  interval_cases month <;> rfl

theorem monthLength_of_lt (year : Int) {month : Nat} (h : month < 10) :
    monthLength year (month + 3) + marchStart month = marchStart (month + 1) := by
  interval_cases month <;> rfl

/-- The month in which a day of such a year lies. -/
def marchMonth (day : Nat) : Nat := (5 * day + 2) / 153

theorem marchStart_le (day : Nat) : marchStart (marchMonth day) ≤ day := by
  unfold marchStart marchMonth
  omega

theorem lt_marchStart (day : Nat) : day < marchStart (marchMonth day + 1) := by
  unfold marchStart marchMonth
  omega

namespace EraDay

variable {d : EraDay} {era : Int}

/-- The date of a day of an era. Months are counted from March on, so the last two are the first of
the next year. -/
def date (era : Int) (d : EraDay) : Date :=
  if marchMonth d.day < 10 then
    ⟨d.yearOfEra + 400 * era, marchMonth d.day + 3, d.day - marchStart (marchMonth d.day) + 1⟩
  else
    ⟨d.yearOfEra + 400 * era + 1, marchMonth d.day - 9, d.day - marchStart (marchMonth d.day) + 1⟩

theorem valid_date (h : d.Valid) (era : Int) : (d.date era).Valid := by
  have hle := marchStart_le d.day
  have hlt := lt_marchStart d.day
  have hday := h.day
  unfold date
  split
  · rename_i hm
    have hlength := monthLength_of_lt (d.yearOfEra + 400 * era) hm
    constructor <;> dsimp only <;> omega
  · rename_i hm
    have hmonth : marchMonth d.day = 10 ∨ marchMonth d.day = 11 := by
      unfold marchMonth at hm ⊢
      omega
    rcases hmonth with hmonth | hmonth
    · rw [hmonth] at hle hlt ⊢
      refine ⟨Nat.le_refl 1, (by decide : 1 ≤ 12), Nat.le_add_left .., ?_⟩
      change d.day - marchStart 10 + 1 ≤ 31
      unfold marchStart at hle hlt ⊢
      omega
    · rw [hmonth] at hle ⊢
      refine ⟨(by decide : 1 ≤ 2), (by decide : 2 ≤ 12), Nat.le_add_left .., ?_⟩
      change d.day - 337 + 1 ≤ if IsLeap (d.yearOfEra + 400 * era + 1) then 29 else 28
      split
      · omega
      · rename_i hleap
        have hne : d.day ≠ 365 := fun hd => hleap (isLeap_of_day h hd era)
        omega

theorem toDays_date (h : d.Valid) (era : Int) :
    (d.date era).toDays = 146097 * era + d.count - 719468 := by
  have hle := marchStart_le d.day
  have hday := h.day
  rw [← daysBeforeYear_march h]
  unfold date Date.toDays
  split
  · rename_i hm
    have hmonths := daysBeforeMonth_of_lt (d.yearOfEra + 400 * era) hm
    rw [daysBeforeYear_succ]
    dsimp only
    omega
  · rename_i hm
    have hm' : marchMonth d.day < 12 := by
      unfold marchMonth
      omega
    have hmonths :=
      daysBeforeMonth_of_ge (d.yearOfEra + 400 * era + 1) (Nat.le_of_not_lt hm) hm'
    dsimp only
    omega

/-- The day of an era is found in the number of days from the start of the first one. -/
theorem ofDays_eq (h : d.Valid) (era : Int) :
    Date.ofDays (146097 * era + d.count - 719468) = d.date era := by
  have hcount : d.count < 146097 := by
    obtain ⟨hc, hf, hy, hd, hl⟩ := h
    unfold count
    omega
  have hz : 146097 * era + (d.count : Int) - 719468 + 719468 = 146097 * era + d.count := by omega
  have hera : Int.fdiv (146097 * era + d.count) 146097 = era := by
    rw [Int.fdiv_eq_ediv_of_nonneg _ (by decide)]
    omega
  have hday : (Int.fmod (146097 * era + d.count) 146097).toNat = d.count := by
    rw [Int.fmod_eq_emod_of_nonneg _ (by decide)]
    omega
  unfold Date.ofDays date marchStart marchMonth
  simp only [hz, hera, hday, yearOfEra_eq h, day_eq h, Int.mul_comm era]
  split
  · rw [if_neg (by omega), Int.add_zero]
  · rw [if_pos (by have := h.day; omega)]

end EraDay

namespace Date

theorem exists_eraDay (days : Int) :
    ∃ era : Int, ∃ d : EraDay, d.Valid ∧ days = 146097 * era + d.count - 719468 := by
  obtain ⟨d, hd, hcount⟩ := @EraDay.exists_count ((days + 719468) % 146097).toNat (by omega)
  exact ⟨(days + 719468) / 146097, d, hd, by omega⟩

/-- The date of a day is in the calendar. -/
theorem valid_ofDays (days : Int) : (ofDays days).Valid := by
  obtain ⟨era, d, hd, rfl⟩ := exists_eraDay days
  rw [EraDay.ofDays_eq hd]
  exact EraDay.valid_date hd era

/-- There are as many days to the date of a day. -/
theorem toDays_ofDays (days : Int) : (ofDays days).toDays = days := by
  obtain ⟨era, d, hd, rfl⟩ := exists_eraDay days
  rw [EraDay.ofDays_eq hd]
  exact EraDay.toDays_date hd era

/-! ## The order of dates -/

theorem daysBeforeMonth_succ (year : Int) {month : Nat} (h : 1 ≤ month) :
    daysBeforeMonth year (month + 1) = daysBeforeMonth year month + monthLength year month := by
  obtain ⟨month, rfl⟩ := Nat.exists_eq_add_of_le' h
  rfl

theorem monotone_daysBeforeMonth (year : Int) : Monotone (daysBeforeMonth year) := by
  refine monotone_nat_of_le_succ fun month => ?_
  cases month with
  | zero => exact Nat.le_refl _
  | succ month => exact Nat.le_add_right _ _

theorem daysBeforeYear_le {year later : Int} (h : year ≤ later) :
    daysBeforeYear year ≤ daysBeforeYear later := by
  refine monotone_int_of_le_succ (fun year => ?_) h
  rw [daysBeforeYear_succ]
  omega

/-- The last day of the last month is the last of the year. -/
theorem daysBeforeMonth_add_le (year : Int) {month : Nat} (h : 1 ≤ month) (h' : month ≤ 12) :
    daysBeforeMonth year month + monthLength year month ≤ yearLength year := by
  rw [← daysBeforeMonth_succ year h]
  refine Nat.le_trans (monotone_daysBeforeMonth year (Nat.succ_le_succ h')) ?_
  by_cases hl : IsLeap year <;> simp [daysBeforeMonth, monthLength, yearLength, hl]

/-- More days pass to the later of two dates of the calendar. -/
theorem toDays_lt_of_before {d e : Date} (hd : d.Valid) (he : e.Valid) (h : d.Before e) :
    d.toDays < e.toDays := by
  have hpos := he.day_pos
  have hle := hd.day_le
  unfold toDays
  rcases h with hyear | ⟨hyear, hmonth | ⟨hmonth, hday⟩⟩
  · have hyears := daysBeforeYear_le (Int.add_one_le_of_lt hyear)
    have hmonths := daysBeforeMonth_add_le d.year hd.month_pos hd.month_le
    rw [daysBeforeYear_succ] at hyears
    omega
  · have hmonths := monotone_daysBeforeMonth d.year (Nat.succ_le_of_lt hmonth)
    rw [Nat.succ_eq_add_one, daysBeforeMonth_succ _ hd.month_pos] at hmonths
    rw [← hyear]
    omega
  · rw [← hyear, ← hmonth]
    omega

/-- Of two dates that differ, one is before the other. -/
theorem before_trichotomy (d e : Date) : d.Before e ∨ d = e ∨ e.Before d := by
  obtain ⟨year, month, day⟩ := d
  obtain ⟨year', month', day'⟩ := e
  simp only [Before, Date.mk.injEq]
  omega

end Date

end Checkpoint
