import TenantRegistry.Time.Date

/-!
The calendar that days are counted in.

A day lies in one year that starts in March, `exists_march`, and has its number `t` there. From
the year and that number the date follows; it is a later date for a later day, `ofDays_before`.
-/

namespace TenantRegistry.Date

/-- Days from the first of March of year zero to that of another year. -/
def yearStart (year : Int) : Int :=
  365 * year + year / 4 - year / 100 + year / 400

/-- The date with some number, counted from zero, in a year that starts in March. -/
def ofMarch (year t : Int) : Date :=
  let month := (5 * t + 2) / 153
  let day := t - (153 * month + 2) / 5 + 1
  if month < 10 then ⟨year, (month + 3).toNat, day.toNat⟩
  else ⟨year + 1, (month - 9).toNat, day.toNat⟩

/-- A day of a cycle by its century, four-year period, year and number in it. The last day of the
last century, and that of the last year of a period, are leap days. -/
theorem exists_partOfCycle {d : Int} (h0 : 0 ≤ d) (h1 : d < 146097) :
    ∃ c q a t : Int, d = 36524 * c + 1461 * q + 365 * a + t ∧ 0 ≤ c ∧ c ≤ 3 ∧ 0 ≤ q ∧ q ≤ 24 ∧
      0 ≤ a ∧ a ≤ 3 ∧ 0 ≤ t ∧ (t < 365 ∨ (t = 365 ∧ a = 3 ∧ (q < 24 ∨ c = 3))) := by
  obtain ⟨c, r, hd, hc0, hc3, hr0, hr⟩ : ∃ c r : Int, d = 36524 * c + r ∧ 0 ≤ c ∧ c ≤ 3 ∧
      0 ≤ r ∧ (r < 36524 ∨ (r = 36524 ∧ c = 3)) := by
    by_cases hlast : d = 146096
    · exact ⟨3, 36524, by omega⟩
    · exact ⟨d / 36524, d % 36524, by omega⟩
  obtain ⟨q, s, hq, hq0, hq24, hs0, hs⟩ : ∃ q s : Int, r = 1461 * q + s ∧ 0 ≤ q ∧ q ≤ 24 ∧
      0 ≤ s ∧ (s < 1460 ∨ (s = 1460 ∧ (q < 24 ∨ c = 3))) :=
    ⟨r / 1461, r % 1461, by omega⟩
  by_cases hleap : s = 1460
  · exact ⟨c, q, 3, 365, by omega⟩
  · exact ⟨c, q, s / 365, s % 365, by omega⟩

theorem yearOfCycle_eq {d c q a t : Int} (hd : d = 36524 * c + 1461 * q + 365 * a + t)
    (hc0 : 0 ≤ c) (hc : c ≤ 3) (hq0 : 0 ≤ q) (hq : q ≤ 24) (ha0 : 0 ≤ a) (ha : a ≤ 3) (ht0 : 0 ≤ t)
    (ht : t < 365 ∨ (t = 365 ∧ a = 3 ∧ (q < 24 ∨ c = 3))) :
    (d - d / 1460 + d / 36524 - d / 146096) / 365 = 100 * c + 4 * q + a := by
  have hcentury : d / 36524 - d / 146096 = c := by
    by_cases hlast : d = 146096
    · subst hlast; omega
    · have hrest : 1461 * q + 365 * a + t < 36524 := by omega
      have hquot : d / 36524 = c := by omega
      have hcycle : d / 146096 = 0 := by omega
      omega
  -- The leap days before `d`, and `d` itself if it is one, make up the whole quotient.
  obtain ⟨leap, hleap, hbounds⟩ : ∃ leap : Int, d / 1460 = 25 * c + q + leap ∧
      ((leap = 0 ∧ t < 365) ∨ (leap = 1 ∧ 1 ≤ t)) := by
    by_cases hbig : 24 * c + q + 365 * a + t < 1460
    · exact ⟨0, by omega, by omega⟩
    · exact ⟨1, by omega, by omega⟩
  have hsum : d - d / 1460 + d / 36524 - d / 146096 =
      365 * (100 * c + 4 * q + a) + (t - leap) := by omega
  rw [hsum]
  omega

/-! ## Years -/

theorem isLeap_iff (year : Int) :
    isLeap year = true ↔ year % 4 = 0 ∧ (year % 100 ≠ 0 ∨ year % 400 = 0) := by
  simp [isLeap]

theorem yearStart_succ (year : Int) :
    yearStart (year + 1) = yearStart year + if isLeap (year + 1) then 366 else 365 := by
  unfold yearStart
  split
  · next h =>
    rw [isLeap_iff] at h
    omega
  · next h =>
    rw [isLeap_iff] at h
    omega

theorem length_year (year : Int) :
    yearStart year + 365 ≤ yearStart (year + 1) ∧ yearStart (year + 1) ≤ yearStart year + 366 := by
  rw [yearStart_succ]
  split <;> omega

theorem yearStart_le {y z : Int} (h : y < z) : yearStart (y + 1) ≤ yearStart z := by
  unfold yearStart
  omega

theorem dayOfYear_eq {d c q a t : Int} (hd : d = 36524 * c + 1461 * q + 365 * a + t)
    (hq0 : 0 ≤ q) (hq : q ≤ 24) (ha0 : 0 ≤ a) (ha : a ≤ 3) :
    d - (365 * (100 * c + 4 * q + a) + (100 * c + 4 * q + a) / 4 - (100 * c + 4 * q + a) / 100) =
      t := by
  have h4 : (100 * c + 4 * q + a) / 4 = 25 * c + q := by omega
  have h100 : (100 * c + 4 * q + a) / 100 = c := by omega
  rw [h4, h100]
  omega

/-- The start of a year that is given by its cycle and its place in it. -/
theorem yearStart_eq {c q a : Int} (cycle : Int) (hc0 : 0 ≤ c) (hc : c ≤ 3) (hq0 : 0 ≤ q)
    (hq : q ≤ 24) (ha0 : 0 ≤ a) (ha : a ≤ 3) :
    yearStart (100 * c + 4 * q + a + cycle * 400) =
      146097 * cycle + 36524 * c + 1461 * q + 365 * a := by
  have h4 : (100 * c + 4 * q + a + cycle * 400) / 4 = 25 * c + q + 100 * cycle := by omega
  have h100 : (100 * c + 4 * q + a + cycle * 400) / 100 = c + 4 * cycle := by omega
  have h400 : (100 * c + 4 * q + a + cycle * 400) / 400 = cycle := by omega
  unfold yearStart
  rw [h4, h100, h400]
  omega

/-- Every day has a number `t` in some year that starts in March. -/
theorem exists_march (days : Int) :
    ∃ year t : Int, days + epoch = yearStart year + t ∧ 0 ≤ t ∧
      days + epoch < yearStart (year + 1) ∧ ofDays days = ofMarch year t := by
  obtain ⟨n, hn⟩ : ∃ n, n = days + epoch := ⟨_, rfl⟩
  obtain ⟨cycle, hcycle⟩ : ∃ cycle, cycle = n / 146097 := ⟨_, rfl⟩
  obtain ⟨d, hd⟩ : ∃ d, d = n % 146097 := ⟨_, rfl⟩
  have hsplit : n = 146097 * cycle + d := by omega
  obtain ⟨c, q, a, t, hparts, hc0, hc, hq0, hq, ha0, ha, ht0, ht⟩ :=
    exists_partOfCycle (show 0 ≤ d by omega) (by omega)
  have hstart := yearStart_eq cycle hc0 hc hq0 hq ha0 ha
  have hnext : n < yearStart (100 * c + 4 * q + a + cycle * 400 + 1) := by
    rcases ht with ht | ⟨_, rfl, hleap⟩
    · have hlen := length_year (100 * c + 4 * q + a + cycle * 400)
      omega
    · rw [yearStart_succ, if_pos ((isLeap_iff _).mpr (by omega))]
      omega
  refine ⟨100 * c + 4 * q + a + cycle * 400, t, by omega, ht0, hn ▸ hnext, ?_⟩
  unfold ofDays ofMarch
  simp only [← hn, ← hd, ← hcycle, yearOfCycle_eq hparts hc0 hc hq0 hq ha0 ha ht0 ht,
    dayOfYear_eq hparts hq0 hq ha0 ha]

/-! ## The order of dates -/

/-- Earlier by year, month and day. -/
def Before (d e : Date) : Prop :=
  d.year < e.year ∨ d.year = e.year ∧
    (d.month < e.month ∨ d.month = e.month ∧ d.day < e.day)

theorem ofMarch_before {y z t u : Int} (ht0 : 0 ≤ t) (ht : t ≤ 365) (hu0 : 0 ≤ u) (hu : u ≤ 365)
    (h : y < z ∨ (y = z ∧ t < u)) : (ofMarch y t).Before (ofMarch z u) := by
  obtain ⟨m, hm⟩ : ∃ m, m = (5 * t + 2) / 153 := ⟨_, rfl⟩
  obtain ⟨n, hn⟩ : ∃ n, n = (5 * u + 2) / 153 := ⟨_, rfl⟩
  have hm0 : 0 ≤ m ∧ m ≤ 11 := by omega
  have hn0 : 0 ≤ n ∧ n ≤ 11 := by omega
  unfold ofMarch Before
  simp only [← hm, ← hn]
  rcases h with h | ⟨rfl, h⟩
  · split <;> split <;> (dsimp only; omega)
  · -- Within a year the month decides, and within a month the day.
    have hle : m ≤ n := by omega
    by_cases heq : m = n
    · subst heq
      have hday : t - (153 * m + 2) / 5 + 1 < u - (153 * m + 2) / 5 + 1 := by omega
      have hpos : 1 ≤ t - (153 * m + 2) / 5 + 1 := by omega
      split <;> (dsimp only; omega)
    · split <;> split <;> (dsimp only; omega)

/-- A later day has a later date. -/
theorem ofDays_before {m n : Int} (h : m < n) : (ofDays m).Before (ofDays n) := by
  obtain ⟨y, t, hm, ht0, hmnext, heqm⟩ := exists_march m
  obtain ⟨z, u, hn, hu0, hnnext, heqn⟩ := exists_march n
  have hy := length_year y
  have hz := length_year z
  rw [heqm, heqn]
  refine ofMarch_before ht0 (by omega) hu0 (by omega) ?_
  rcases Int.lt_trichotomy y z with hlt | rfl | hgt
  · exact .inl hlt
  · exact .inr ⟨rfl, by omega⟩
  · have hle := yearStart_le hgt
    omega

/-- A date has at most two digits for its month and for its day. -/
theorem ofDays_bounds (days : Int) :
    1 ≤ (ofDays days).month ∧ (ofDays days).month ≤ 12 ∧
      1 ≤ (ofDays days).day ∧ (ofDays days).day ≤ 31 := by
  obtain ⟨y, t, hn, ht0, hnext, heq⟩ := exists_march days
  have hlen := length_year y
  have ht : t ≤ 365 := by omega
  clear hnext hn hlen
  obtain ⟨m, hm⟩ : ∃ m, m = (5 * t + 2) / 153 := ⟨_, rfl⟩
  rw [heq]
  unfold ofMarch
  simp only [← hm]
  split <;> (dsimp only; omega)

end TenantRegistry.Date
