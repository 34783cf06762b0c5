import Mathlib.Tactic.IntervalCases
import TenantRegistry.Proofs.Time.Calendar

/-!
Days counted year by year and month by month.

A date's number is the days of the years before it, of the months before it in its year, and its
day: it needs the lengths of the months and nothing else of the calendar. Days since 1970 and that
count are one, `dayNumber_ofDays`, and what a day since 1970 becomes is a date that the calendar
has, `ofDays_valid`.
-/

namespace TenantRegistry.Date

/-- Days of a year before one of its months; before a thirteenth, all of them. -/
def daysBeforeMonth (year : Int) (month : Nat) : Nat :=
  ((List.range' 1 (month - 1)).map (daysInMonth year)).sum

/-- Days of the years from zero on before one of them. -/
def daysBeforeYear (year : Nat) : Nat :=
  ((List.range year).map fun y : Nat => daysBeforeMonth y 13).sum

/-- Days from the first of January of year zero to a date. -/
def dayNumber (d : Date) : Nat :=
  daysBeforeYear d.year.toNat + daysBeforeMonth d.year d.month + (d.day - 1)

def leapDays (year : Int) : Nat :=
  if isLeap year then 1 else 0

/-! ## Months -/

theorem daysInMonth_february (year : Int) : daysInMonth year 2 = 28 + leapDays year := by
  simp only [daysInMonth, leapDays, if_true]
  split <;> rfl

theorem daysBeforeMonth_january (year : Int) : daysBeforeMonth year 1 = 0 :=
  rfl

theorem daysBeforeMonth_succ (year : Int) {month : Nat} (h : 1 ≤ month) :
    daysBeforeMonth year (month + 1) = daysBeforeMonth year month + daysInMonth year month := by
  obtain ⟨m, rfl⟩ : ∃ m, month = m + 1 := ⟨month - 1, by omega⟩
  simp only [daysBeforeMonth, Nat.add_sub_cancel, List.range'_concat, List.map_append,
    List.map_cons, List.map_nil, List.sum_append, List.sum_cons, List.sum_nil]
  rw [show 1 + 1 * m = m + 1 by omega, Nat.add_zero]

theorem daysBeforeMonth_february (year : Int) : daysBeforeMonth year 2 = 31 := by
  rw [daysBeforeMonth_succ year (by decide), daysBeforeMonth_january]
  rfl

/-- The months from March on, the first of them with number zero. -/
theorem daysBeforeMonth_march (year : Int) {month : Nat} (h : month ≤ 10) :
    daysBeforeMonth year (month + 3) = 59 + leapDays year + (153 * month + 2) / 5 := by
  induction month with
  | zero =>
    rw [daysBeforeMonth_succ year (by decide), daysBeforeMonth_february, daysInMonth_february]
    omega
  | succ m ih =>
    rw [show m + 1 + 3 = m + 3 + 1 by omega, daysBeforeMonth_succ year (by omega), ih (by omega)]
    have hm : m ≤ 9 := by omega
    interval_cases m <;> simp [daysInMonth]

/-! ## Years -/

theorem length_months (year : Int) : daysBeforeMonth year 13 = 365 + leapDays year := by
  rw [daysBeforeMonth_march year (Nat.le_refl 10)]
  omega

theorem yearStart_succ_eq (year : Int) :
    yearStart (year + 1) = yearStart year + 365 + leapDays (year + 1) := by
  rw [yearStart_succ, leapDays]
  split <;> omega

/-- The first of January lies 306 days after the first of March before it. -/
theorem daysBeforeYear_eq (year : Nat) :
    (daysBeforeYear year : Int) = yearStart (year - 1) + 366 := by
  induction year with
  | zero => rfl
  | succ y ih =>
    have hsum : daysBeforeYear (y + 1) = daysBeforeYear y + daysBeforeMonth y 13 := by
      simp only [daysBeforeYear, List.range_succ, List.map_append, List.sum_append, List.map_cons,
        List.map_nil, List.sum_cons, List.sum_nil, Nat.add_zero]
    have hstart := yearStart_succ_eq (y - 1)
    rw [Int.sub_add_cancel] at hstart
    rw [hsum, length_months]
    push_cast
    rw [Int.add_sub_cancel]
    omega

theorem dayNumber_epoch : (dayNumber ⟨1970, 1, 1⟩ : Int) = epoch + 60 := by
  have hyears := daysBeforeYear_eq 1970
  have hstart : yearStart ((1970 : Nat) - 1) + 366 = epoch + 60 := rfl
  simp only [dayNumber, daysBeforeMonth_january, show (1970 : Int).toNat = 1970 from rfl,
    Nat.add_zero, Nat.sub_self]
  rw [hyears, hstart]

/-! ## Dates -/

/-- The month of a day of a year that starts in March, counted from zero. -/
theorem exists_month {t : Int} (h0 : 0 ≤ t) (h : t ≤ 365) :
    ∃ m : Nat, (m : Int) = (5 * t + 2) / 153 ∧ m ≤ 11 ∧
      (153 * (m : Int) + 2) / 5 ≤ t ∧ t < (153 * (m : Int) + 155) / 5 :=
  ⟨((5 * t + 2) / 153).toNat, by omega, by omega, by omega, by omega⟩

theorem dayNumber_ofMarch {year t : Int} (hyear : 0 ≤ (ofMarch year t).year) (h0 : 0 ≤ t)
    (h : t ≤ 365) : ((ofMarch year t).dayNumber : Int) = yearStart year + t + 60 := by
  obtain ⟨m, hm, hm11, hlow, hhigh⟩ := exists_month h0 h
  unfold ofMarch at hyear ⊢
  simp only [← hm] at hyear ⊢
  split at hyear
  · next hspring =>
    obtain ⟨y, rfl⟩ : ∃ y : Nat, year = y := ⟨year.toNat, (Int.toNat_of_nonneg hyear).symm⟩
    have hstart := daysBeforeYear_eq y
    have hnext := yearStart_succ_eq (y - 1)
    have hmonths := daysBeforeMonth_march y (show m ≤ 10 by omega)
    rw [Int.sub_add_cancel] at hnext
    simp only [if_pos hspring, dayNumber, Int.toNat_natCast,
      show ((m : Int) + 3).toNat = m + 3 by omega, hmonths]
    omega
  · -- January and February end such a year.
    next hwinter =>
    obtain ⟨y, hy⟩ : ∃ y : Nat, year + 1 = y :=
      ⟨(year + 1).toNat, (Int.toNat_of_nonneg hyear).symm⟩
    have hstart := daysBeforeYear_eq y
    rw [← hy, Int.add_sub_cancel] at hstart
    simp only [if_neg hwinter, dayNumber, hy, Int.toNat_natCast]
    obtain rfl | rfl : m = 10 ∨ m = 11 := by omega
    · rw [show (((10 : Nat) : Int) - 9).toNat = 1 by rfl, daysBeforeMonth_january]
      omega
    · rw [show (((11 : Nat) : Int) - 9).toNat = 2 by rfl, daysBeforeMonth_february]
      omega

theorem ofMarch_valid {year t : Int} (h0 : 0 ≤ t) (h : t < 365 + leapDays (year + 1)) :
    (ofMarch year t).IsValid := by
  have hleap : leapDays (year + 1) ≤ 1 := by
    unfold leapDays
    split <;> decide
  obtain ⟨m, hm, hm11, hlow, hhigh⟩ := exists_month h0 (show t ≤ 365 by omega)
  unfold ofMarch
  simp only [← hm]
  by_cases hfebruary : m = 11
  · subst hfebruary
    simp [IsValid, daysInMonth_february]
    omega
  · interval_cases m <;> simp [IsValid, daysInMonth] <;> omega

/-- What a day since 1970 becomes is a date that the calendar has. -/
theorem ofDays_valid (days : Int) : (ofDays days).IsValid := by
  obtain ⟨year, t, hdays, h0, hnext, heq⟩ := exists_march days
  rw [yearStart_succ_eq] at hnext
  rw [heq]
  exact ofMarch_valid h0 (by omega)

/-- Days since 1970 are the days counted one year and one month after the other. -/
theorem dayNumber_ofDays {days : Int} (h : 0 ≤ (ofDays days).year) :
    ((ofDays days).dayNumber : Int) = days + dayNumber ⟨1970, 1, 1⟩ := by
  obtain ⟨year, t, hdays, h0, hnext, heq⟩ := exists_march days
  have hlen := length_year year
  rw [heq] at h ⊢
  rw [dayNumber_ofMarch h h0 (by omega), dayNumber_epoch]
  omega

/-- A day lies after the first of January of its year and before that of the next. -/
theorem year_bounds (days : Int) :
    yearStart ((ofDays days).year - 1) + 366 ≤ days + dayNumber ⟨1970, 1, 1⟩ ∧
      days + dayNumber ⟨1970, 1, 1⟩ < yearStart (ofDays days).year + 366 := by
  obtain ⟨year, t, hdays, h0, hnext, heq⟩ := exists_march days
  have hlen := length_year year
  have hprevious := length_year (year - 1)
  rw [Int.sub_add_cancel] at hprevious
  obtain ⟨m, hm, hm11, hlow, hhigh⟩ := exists_month h0 (show t ≤ 365 by omega)
  rw [heq, dayNumber_epoch]
  unfold ofMarch
  simp only [← hm]
  split
  · dsimp only
    omega
  · dsimp only
    rw [Int.add_sub_cancel]
    omega

/-- The days from the first of January of one year to that of another are those of the years from
the one to the other. -/
theorem year_between (days : Int) {y z : Nat}
    (hlow : (daysBeforeYear y : Int) ≤ days + dayNumber ⟨1970, 1, 1⟩)
    (hhigh : days + dayNumber ⟨1970, 1, 1⟩ < daysBeforeYear z) :
    (y : Int) ≤ (ofDays days).year ∧ (ofDays days).year < z := by
  obtain ⟨hafter, hbefore⟩ := year_bounds days
  rw [daysBeforeYear_eq] at hlow hhigh
  generalize (ofDays days).year = year at hafter hbefore ⊢
  constructor
  · by_contra hlt
    have hmono : yearStart year ≤ yearStart (y - 1) := by
      unfold yearStart
      omega
    omega
  · by_contra hge
    have hmono : yearStart (z - 1) ≤ yearStart (year - 1) := by
      unfold yearStart
      omega
    omega

end TenantRegistry.Date
