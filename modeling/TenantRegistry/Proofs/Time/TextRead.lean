import TenantRegistry.Proofs.Text.OctetOrder
import TenantRegistry.Proofs.Time.DayNumber
import TenantRegistry.Proofs.Time.TextOrder

/-!
Texts of instants name dates and times of the calendar.

A moment is a date and a time of day, and its seconds since 1970 are counted by the lengths of
the months and days alone. The text of an instant of the years 0 to 9999 is read as the moment
whose seconds are the instant's, with the second after it in a leap second, and the texts compare
as the instants do: `text_faithful`.
-/

namespace TenantRegistry

/-! ## Moments -/

/-- A date and a time of day. -/
structure Moment where
  date : Date
  hour : Nat
  minute : Nat
  second : Nat
  deriving DecidableEq, Repr

namespace Moment

/-- A date that the calendar has and a time that a clock shows, outside a leap second. -/
def IsValid (m : Moment) : Prop :=
  m.date.IsValid ∧ m.hour ≤ 23 ∧ m.minute ≤ 59 ∧ m.second ≤ 59

/-- Seconds since 1970, for a date from year zero on. -/
def seconds (m : Moment) : Int :=
  ((m.date.dayNumber : Int) - Date.dayNumber ⟨1970, 1, 1⟩) * 86400 +
    (m.hour * 3600 + m.minute * 60 + m.second : Nat)

/-- The first second of a year. -/
def newYear (year : Nat) : Moment :=
  ⟨⟨year, 1, 1⟩, 0, 0, 0⟩

/-- A number of some width, and what follows it. -/
def field? (width : Nat) (cs : List Char) : Option (Nat × List Char) := do
  some (← Number.ofDigits? 10 (cs.take width), cs.drop width)

/-- What follows a separator. -/
def mark? (mark : Char) : List Char → Option (List Char)
  | [] => none
  | c :: rest => if c = mark then some rest else none

/-- Reads `YYYY-MM-DDTHH:MM:SSZ`. -/
def ofText? (text : String) : Option Moment := do
  let (year, rest) ← field? 4 text.toList
  let (month, rest) ← field? 2 (← mark? '-' rest)
  let (day, rest) ← field? 2 (← mark? '-' rest)
  let (hour, rest) ← field? 2 (← mark? 'T' rest)
  let (minute, rest) ← field? 2 (← mark? ':' rest)
  let (second, rest) ← field? 2 (← mark? ':' rest)
  if rest = ['Z'] then some ⟨⟨year, month, day⟩, hour, minute, second⟩ else none

example : ofText? "2000-02-29T23:59:60Z" = some ⟨⟨2000, 2, 29⟩, 23, 59, 60⟩ := by decide
example : ofText? "2000-02-29 23:59:60Z" = none := by decide

end Moment

namespace Timestamp

/-! ## Reading fields -/

theorem digitValue?_digitChar : ∀ d < 10, Number.digitValue? 10 (Nat.digitChar d) = some d := by
  decide

theorem digitsOnto_append {base n m : Nat} {cs ds : List Char}
    (h : Number.digitsOnto base n cs = some m) :
    Number.digitsOnto base n (cs ++ ds) = Number.digitsOnto base m ds := by
  induction cs generalizing n with
  | nil =>
    cases h
    rfl
  | cons c cs ih =>
    simp only [List.cons_append, Number.digitsOnto] at h ⊢
    obtain ⟨d, hd, hrest⟩ := Option.bind_eq_some_iff.mp h
    rw [hd]
    exact ih hrest

theorem length_padded {width n : Nat} (hwidth : 0 < width) (h : n < 10 ^ width) :
    (padded width n).length = width := by
  induction width, hwidth using Nat.le_induction generalizing n with
  | base => rw [padded_one (by omega)]; rfl
  | succ w hw ih => rw [padded_succ hw, List.length_append, ih (by omega)]; rfl

theorem ofDigits?_padded {width n : Nat} (hwidth : 0 < width) (h : n < 10 ^ width) :
    Number.ofDigits? 10 (padded width n) = some n := by
  have hne : (padded width n).isEmpty = false := by
    rw [List.isEmpty_eq_false_iff, ← List.length_pos_iff, length_padded hwidth h]
    exact hwidth
  rw [Number.ofDigits?, hne, if_neg (by decide)]
  clear hne
  induction width, hwidth using Nat.le_induction generalizing n with
  | base =>
    rw [padded_one (by omega), Number.digitsOnto, digitValue?_digitChar n (by omega)]
    simp [Number.digitsOnto]
  | succ w hw ih =>
    rw [padded_succ hw, digitsOnto_append (ih (n := n / 10) (by omega)), Number.digitsOnto,
      digitValue?_digitChar (n % 10) (by omega)]
    show some (n / 10 * 10 + n % 10) = some n
    rw [Nat.div_add_mod']

theorem field?_padded {width n : Nat} (hwidth : 0 < width) (h : n < 10 ^ width) (cs : List Char) :
    Moment.field? width (padded width n ++ cs) = some (n, cs) := by
  have hlength := length_padded hwidth h
  rw [Moment.field?, List.take_left' hlength, List.drop_left' hlength, ofDigits?_padded hwidth h]
  rfl

/-! ## Instants -/

/-- From the first second of year 0 to the last of year 9999. -/
def InFourDigitYears (t : Timestamp) : Prop :=
  (Moment.newYear 0).seconds ≤ t.seconds ∧ t.seconds < (Moment.newYear 10000).seconds

/-- The date and time of the whole second. -/
def moment (t : Timestamp) : Moment :=
  ⟨t.date, t.secondOfDay / 3600, t.secondOfDay / 60 % 60, t.secondOfDay % 60⟩

theorem seconds_newYear (year : Nat) :
    (Moment.newYear year).seconds =
      ((Date.daysBeforeYear year : Int) - Date.dayNumber ⟨1970, 1, 1⟩) * 86400 := by
  have hfirst : Date.dayNumber ⟨year, 1, 1⟩ = Date.daysBeforeYear year := by
    simp only [Date.dayNumber, Date.daysBeforeMonth_january, Int.toNat_natCast, Nat.add_zero,
      Nat.sub_self]
  simp only [Moment.seconds, Moment.newYear, hfirst]
  omega

theorem inFourDigitYears_iff {t : Timestamp} :
    t.InFourDigitYears ↔ -62167219200 ≤ t.seconds ∧ t.seconds < 253402300800 := by
  have hlast : (Date.daysBeforeYear 10000 : Int) = 3652425 := Date.daysBeforeYear_eq 10000
  have hfirst : Date.daysBeforeYear 0 = 0 := rfl
  have hepoch : (Date.dayNumber ⟨1970, 1, 1⟩ : Int) = 719528 := Date.dayNumber_epoch
  rw [InFourDigitYears, seconds_newYear, seconds_newYear, hlast, hfirst, hepoch]
  rfl

theorem InFourDigitYears.year {t : Timestamp} (h : t.InFourDigitYears) :
    0 ≤ t.date.year ∧ t.date.year ≤ 9999 := by
  obtain ⟨hlow, hhigh⟩ := h
  rw [seconds_newYear] at hlow hhigh
  have hyears := Date.year_between (t.seconds / 86400) (y := 0) (z := 10000) (by omega) (by omega)
  unfold date
  omega

theorem moment_valid (t : Timestamp) : t.moment.IsValid := by
  have hsecond := secondOfDay_lt t
  refine ⟨Date.ofDays_valid _, ?_, ?_, ?_⟩ <;> simp only [moment] <;> omega

/-- The seconds counted along the calendar are those of the instant. -/
theorem seconds_moment {t : Timestamp} (h : 0 ≤ t.date.year) : t.moment.seconds = t.seconds := by
  have hday : ((t.date.dayNumber : Int)) = t.seconds / 86400 + Date.dayNumber ⟨1970, 1, 1⟩ :=
    Date.dayNumber_ofDays h
  have htime : (t.secondOfDay : Int) = t.seconds % 86400 := by
    unfold secondOfDay
    omega
  have hsum : t.secondOfDay / 3600 * 3600 + t.secondOfDay / 60 % 60 * 60 + t.secondOfDay % 60 =
      t.secondOfDay := by omega
  simp only [Moment.seconds, moment, hsum, hday, htime]
  omega

theorem second_le (t : Timestamp) : t.second ≤ 60 := by
  have hleap := leap_le_one t
  rw [second_eq]
  omega

/-- Every field but the year has two digits. -/
theorem date_lt (t : Timestamp) : t.date.month < 10 ^ 2 ∧ t.date.day < 10 ^ 2 := by
  have hdate := Date.ofDays_bounds (t.seconds / 86400)
  unfold date
  omega

section FourDigits

variable {t : Timestamp} (h : 0 ≤ t.date.year ∧ t.date.year ≤ 9999)

include h

theorem toList_text : t.text.toList =
    padded 4 t.date.year.toNat ++ '-' :: (padded 2 t.date.month ++ '-' :: (padded 2 t.date.day ++
      'T' :: (padded 2 (t.secondOfDay / 3600) ++ ':' :: (padded 2 (t.secondOfDay / 60 % 60) ++
        ':' :: (padded 2 t.second ++ ['Z']))))) := by
  unfold text chars yearText
  rw [String.toList_ofList, if_pos h]
  simp only [List.append_assoc, List.cons_append]

theorem length_text : t.text.length = 20 := by
  obtain ⟨hmonth, hday⟩ := date_lt t
  have htime := secondOfDay_lt t
  have hsecond := second_le t
  have htwo {n : Nat} (hn : n < 10 ^ 2) : (padded 2 n).length = 2 := length_padded (by decide) hn
  rw [← String.length_toList, toList_text h]
  simp only [List.length_append, List.length_cons, List.length_nil]
  rw [length_padded (by decide) (by omega), htwo hmonth, htwo hday, htwo (by omega),
    htwo (by omega), htwo (by omega)]

/-- The text is read as the date and time of the whole second, or the second after in a leap
second. -/
theorem ofText?_text : Moment.ofText? t.text =
    some { t.moment with second := t.moment.second + t.leap } := by
  obtain ⟨hmonth, hday⟩ := date_lt t
  have htime := secondOfDay_lt t
  have hsecond := second_le t
  have htwo {n : Nat} (hn : n < 10 ^ 2) (cs : List Char) :
      Moment.field? 2 (padded 2 n ++ cs) = some (n, cs) := field?_padded (by decide) hn cs
  have hmark (c : Char) (cs : List Char) : Moment.mark? c (c :: cs) = some cs := if_pos rfl
  have hyear : (t.date.year.toNat : Int) = t.date.year := Int.toNat_of_nonneg h.1
  simp only [Moment.ofText?, toList_text h, hmark, Option.bind_eq_bind, Option.bind_some,
    field?_padded (show 0 < 4 by decide) (show t.date.year.toNat < 10 ^ 4 by omega),
    htwo hmonth, htwo hday, htwo (show t.secondOfDay / 3600 < 10 ^ 2 by omega),
    htwo (show t.secondOfDay / 60 % 60 < 10 ^ 2 by omega),
    htwo (show t.second < 10 ^ 2 by omega), if_true, hyear]
  rfl

end FourDigits

/-- Whole seconds have the same text only if they are the same. -/
theorem text_ofClock_inj {s t : Timestamp} (hs : 0 ≤ s.date.year ∧ s.date.year ≤ 9999)
    (ht : 0 ≤ t.date.year ∧ t.date.year ≤ 9999) (h : (ofClock s).text = (ofClock t).text) :
    s.seconds = t.seconds := by
  have hread : some (ofClock s).moment = some (ofClock t).moment := by
    calc some (ofClock s).moment = Moment.ofText? (ofClock s).text :=
          (ofText?_text (t := ofClock s) hs).symm
      _ = Moment.ofText? (ofClock t).text := by rw [h]
      _ = some (ofClock t).moment := ofText?_text (t := ofClock t) ht
  calc s.seconds = (ofClock s).moment.seconds := (seconds_moment (t := ofClock s) hs.1).symm
    _ = (ofClock t).moment.seconds := by rw [Option.some.inj hread]
    _ = t.seconds := seconds_moment (t := ofClock t) ht.1

/-- Outside a leap second the text of an instant of the years 0 to 9999 is read as the date and
time that lies as many seconds after 1970, in a leap second as the second after it; and the texts
of two instants compare, octet by octet, as the instants do. -/
theorem text_faithful {s t : Timestamp} (hs : s.InFourDigitYears) (ht : t.InFourDigitYears) :
    (∃ m : Moment, m.IsValid ∧ m.seconds = s.seconds ∧ s.text.length = 20 ∧
      (s.nanos < 1000000000 → Moment.ofText? s.text = some m) ∧
      (1000000000 ≤ s.nanos →
        Moment.ofText? s.text = some { m with second := m.second + 1 } ∧
        (s.seconds % 60 = 59 → m.second + 1 = 60))) ∧
    (Utf8.ofString s.text < Utf8.ofString t.text → s.order t = .lt) ∧
    (s.order t ≠ .gt → Utf8.ofString s.text ≤ Utf8.ofString t.text) ∧
    (Utf8.ofString (ofClock s).text < Utf8.ofString (ofClock t).text ↔
      (ofClock s).order (ofClock t) = .lt) ∧
    ((ofClock s).text = (ofClock t).text ↔ s.seconds = t.seconds) := by
  have hread := ofText?_text hs.year
  have hle : s.order t ≠ .gt → Utf8.ofString s.text ≤ Utf8.ofString t.text := fun h =>
    Utf8.ofString_le_iff.mpr (text_le_of_order hs.year ht.year h)
  refine ⟨⟨s.moment, moment_valid s, seconds_moment hs.year.1, length_text hs.year, ?_, ?_⟩,
    ?_, hle, ?_, ?_⟩
  · intro hnanos
    rw [hread, leap, if_neg (by omega)]
    rfl
  · intro hnanos
    rw [hread, leap, if_pos hnanos]
    refine ⟨rfl, fun hlast => ?_⟩
    show s.secondOfDay % 60 + 1 = 60
    unfold secondOfDay
    omega
  · exact fun hlt => order_of_text_lt hs.year ht.year (Utf8.ofString_lt_iff.mp hlt)
  · rw [Utf8.ofString_lt_iff]
    refine ⟨order_of_text_lt (s := ofClock s) (t := ofClock t) hs.year ht.year, fun horder => ?_⟩
    have hseconds : s.seconds < t.seconds := by
      rcases order_eq_lt_iff.mp horder with hlt | ⟨_, hnanos⟩
      · exact hlt
      · exact absurd hnanos (Nat.lt_irrefl 0)
    refine lt_of_le_of_ne (text_le_text rfl rfl hs.year ht.year (le_of_lt hseconds)) fun heq => ?_
    exact absurd (text_ofClock_inj hs.year ht.year heq) (by omega)
  · refine ⟨text_ofClock_inj hs.year ht.year, fun hseconds => ?_⟩
    rw [ofClock, hseconds]
    rfl

/-- The leap second that ended 2016 and a second of the last days before 1970. -/
theorem text_faithful_leap_second :
    InFourDigitYears ⟨1483228799, 1500000000⟩ ∧ InFourDigitYears ⟨-86401, 999999999⟩ ∧
      text ⟨1483228799, 1500000000⟩ = "2016-12-31T23:59:60Z" ∧
      text ⟨-86401, 999999999⟩ = "1969-12-30T23:59:59Z" ∧
      Utf8.ofString (text ⟨-86401, 999999999⟩) ≤ Utf8.ofString (text ⟨1483228799, 1500000000⟩) := by
  have hleap : InFourDigitYears ⟨1483228799, 1500000000⟩ := inFourDigitYears_iff.mpr (by decide)
  have hearly : InFourDigitYears ⟨-86401, 999999999⟩ := inFourDigitYears_iff.mpr (by decide)
  exact ⟨hleap, hearly, by decide +kernel, by decide +kernel,
    (text_faithful hearly hleap).2.2.1 (by decide)⟩

end Timestamp
end TenantRegistry
