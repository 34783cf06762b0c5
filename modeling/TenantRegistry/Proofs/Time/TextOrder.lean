import Mathlib.Data.String.Basic
import Mathlib.Order.Lattice
import TenantRegistry.Proofs.Time.Calendar
import TenantRegistry.Time.Timestamp

/-!
Texts of instants compare as the instants do.

A text of an instant is a row of fields of fixed width with the same separators between them, so
texts compare by the first field that differs, `padded_append_le`. For instants of the years 0 to
9999 that is the order of time, `text_le_of_order`, and for whole seconds of them nothing but the
second is compared, `text_le_text`.
-/

namespace TenantRegistry.Timestamp

/-! ## Fields -/

theorem padded_succ {width : Nat} (h : 0 < width) (n : Nat) :
    padded (width + 1) n = padded width (n / 10) ++ [Nat.digitChar (n % 10)] := by
  unfold padded
  by_cases hn : n < 10
  · have hzero : n / 10 = 0 := by omega
    obtain ⟨w, rfl⟩ : ∃ w, width = w + 1 := ⟨width - 1, by omega⟩
    rw [hzero, Nat.toDigits_zero, Nat.toDigits_of_lt_base hn, Nat.mod_eq_of_lt hn]
    simp [List.replicate_succ']
  · rw [Nat.toDigits_of_base_le (by decide) (by omega)]
    simp [List.append_assoc]

theorem padded_one {n : Nat} (h : n < 10) : padded 1 n = [Nat.digitChar n] := by
  unfold padded
  rw [Nat.toDigits_of_lt_base h]
  rfl

theorem digitChar_lt : ∀ n < 10, ∀ m < n, Nat.digitChar m < Nat.digitChar n := by
  decide

theorem digitChar_cons_le {m n : Nat} {xs ys : List Char} (hn : n < 10)
    (h : m < n ∨ m = n ∧ xs ≤ ys) : Nat.digitChar m :: xs ≤ Nat.digitChar n :: ys := by
  rcases h with h | ⟨rfl, h⟩
  · have hlt : Nat.digitChar m :: xs < Nat.digitChar n :: ys :=
      List.cons_lt_cons_iff.mpr (.inl (digitChar_lt n hn m h))
    exact le_of_lt hlt
  · exact List.cons_le_cons _ h

/-- Texts that start with fields of one width compare by these and then by what follows. -/
theorem padded_append_le {width m n : Nat} {xs ys : List Char} (hwidth : 0 < width)
    (hm : m < 10 ^ width) (hn : n < 10 ^ width) (h : m < n ∨ m = n ∧ xs ≤ ys) :
    padded width m ++ xs ≤ padded width n ++ ys := by
  induction width, hwidth using Nat.le_induction generalizing m n xs ys with
  | base =>
    rw [padded_one (by omega), padded_one (by omega)]
    exact digitChar_cons_le (by omega) h
  | succ w hw ih =>
    rw [padded_succ hw, padded_succ hw, List.append_assoc, List.append_assoc]
    -- The last digits go over to what follows the fields.
    refine ih (by omega) (by omega) ?_
    by_cases hlt : m / 10 < n / 10
    · exact .inl hlt
    · refine .inr ⟨by omega, digitChar_cons_le (by omega) ?_⟩
      rcases h with h | ⟨rfl, h⟩
      · exact .inl (by omega)
      · exact .inr ⟨rfl, h⟩

/-! ## Instants -/

theorem secondOfDay_lt (t : Timestamp) : t.secondOfDay < 86400 := by
  unfold secondOfDay
  omega

/-- One in a leap second, which adds itself to the second of its minute. -/
def leap (t : Timestamp) : Nat :=
  if 1000000000 ≤ t.nanos then 1 else 0

theorem leap_le_one (t : Timestamp) : t.leap ≤ 1 := by
  unfold leap
  split <;> omega

theorem leap_le_leap {s t : Timestamp} (h : s.nanos ≤ t.nanos) : s.leap ≤ t.leap := by
  unfold leap
  split <;> split <;> omega

theorem second_eq (t : Timestamp) : t.second = t.secondOfDay % 60 + t.leap :=
  rfl

/-- An instant is not after another if its second is earlier, or the same with no larger
fraction. -/
theorem order_ne_gt_iff {s t : Timestamp} :
    s.order t ≠ .gt ↔ s.seconds < t.seconds ∨ s.seconds = t.seconds ∧ s.nanos ≤ t.nanos := by
  unfold order
  rcases Int.lt_trichotomy s.seconds t.seconds with hlt | heq | hgt
  · simp [compare_lt_iff_lt.mpr hlt, hlt]
  · simp [heq, compare_le_iff_le]
  · rw [compare_gt_iff_gt.mpr hgt]
    simp
    omega

theorem order_eq_lt_iff {s t : Timestamp} :
    s.order t = .lt ↔ s.seconds < t.seconds ∨ s.seconds = t.seconds ∧ s.nanos < t.nanos := by
  unfold order
  rcases Int.lt_trichotomy s.seconds t.seconds with hlt | heq | hgt
  · simp [compare_lt_iff_lt.mpr hlt, hlt]
  · simp [heq, compare_lt_iff_lt]
  · rw [compare_gt_iff_gt.mpr hgt]
    simp
    omega

/-- The order of the fields of a text, from the year to the second. -/
theorem fields_le {s t : Timestamp}
    (h : s.seconds < t.seconds ∨ s.seconds = t.seconds ∧ s.nanos ≤ t.nanos) :
    s.date.Before t.date ∨ s.date = t.date ∧
      (s.secondOfDay < t.secondOfDay ∨ s.secondOfDay = t.secondOfDay ∧ s.leap ≤ t.leap) := by
  unfold date secondOfDay
  rcases h with h | ⟨hseconds, hnanos⟩
  · by_cases hday : s.seconds / 86400 < t.seconds / 86400
    · exact .inl (Date.ofDays_before hday)
    · have heq : s.seconds / 86400 = t.seconds / 86400 := by omega
      exact .inr ⟨by rw [heq], .inl (by omega)⟩
  · rw [hseconds]
    exact .inr ⟨rfl, .inr ⟨rfl, leap_le_leap hnanos⟩⟩

/-- Two dates as texts, with something after them. -/
theorem dateChars_le {d e : Date} {xs ys : List Char} (hdy : 0 ≤ d.year ∧ d.year ≤ 9999)
    (hey : 0 ≤ e.year ∧ e.year ≤ 9999) (hdm : d.month ≤ 12) (hem : e.month ≤ 12) (hdd : d.day ≤ 31)
    (hed : e.day ≤ 31) (h : d.Before e ∨ d = e ∧ xs ≤ ys) :
    padded 4 d.year.toNat ++ '-' :: (padded 2 d.month ++ '-' :: (padded 2 d.day ++ xs)) ≤
      padded 4 e.year.toNat ++ '-' :: (padded 2 e.month ++ '-' :: (padded 2 e.day ++ ys)) := by
  -- At each field either it decides, or it is the same and what follows does.
  refine padded_append_le (by decide) (by omega) (by omega) ?_
  rcases h with (hyear | ⟨hyear, hmonth⟩) | ⟨rfl, hxs⟩
  · exact .inl (by omega)
  · refine .inr ⟨by rw [hyear], List.cons_le_cons _ ?_⟩
    refine padded_append_le (by decide) (by omega) (by omega) ?_
    rcases hmonth with hmonth | ⟨hmonth, hday⟩
    · exact .inl hmonth
    · refine .inr ⟨hmonth, List.cons_le_cons _ ?_⟩
      exact padded_append_le (by decide) (by omega) (by omega) (.inl hday)
  · refine .inr ⟨rfl, List.cons_le_cons _ ?_⟩
    refine padded_append_le (by decide) (by omega) (by omega) (.inr ⟨rfl, List.cons_le_cons _ ?_⟩)
    exact padded_append_le (by decide) (by omega) (by omega) (.inr ⟨rfl, hxs⟩)

/-- Two times of a day as texts, each with a leap second or without. -/
theorem timeChars_le {a b i j : Nat} (hb : b < 86400) (hi : i ≤ 1) (hj : j ≤ 1)
    (h : a < b ∨ a = b ∧ i ≤ j) :
    padded 2 (a / 3600) ++
        ':' :: (padded 2 (a / 60 % 60) ++ ':' :: (padded 2 (a % 60 + i) ++ ['Z'])) ≤
      padded 2 (b / 3600) ++
        ':' :: (padded 2 (b / 60 % 60) ++ ':' :: (padded 2 (b % 60 + j) ++ ['Z'])) := by
  refine padded_append_le (by decide) (by omega) (by omega) ?_
  by_cases hhour : a / 3600 < b / 3600
  · exact .inl hhour
  refine .inr ⟨by omega, List.cons_le_cons _ ?_⟩
  refine padded_append_le (by decide) (by omega) (by omega) ?_
  by_cases hminute : a / 60 % 60 < b / 60 % 60
  · exact .inl hminute
  refine .inr ⟨by omega, List.cons_le_cons _ ?_⟩
  refine padded_append_le (by decide) (by omega) (by omega) ?_
  by_cases hsecond : a % 60 + i < b % 60 + j
  · exact .inl hsecond
  · exact .inr ⟨by omega, le_refl _⟩

/-- Instants of the years 0 to 9999 compare as their texts, leap seconds and fractions included. -/
theorem text_le_of_order {s t : Timestamp} (hsy : 0 ≤ s.date.year ∧ s.date.year ≤ 9999)
    (hty : 0 ≤ t.date.year ∧ t.date.year ≤ 9999) (h : s.order t ≠ .gt) : s.text ≤ t.text := by
  have hsd := Date.ofDays_bounds (s.seconds / 86400)
  have htd := Date.ofDays_bounds (t.seconds / 86400)
  rw [String.le_iff_toList_le]
  unfold text chars yearText
  rw [String.toList_ofList, String.toList_ofList, if_pos hsy, if_pos hty, second_eq, second_eq]
  simp only [List.append_assoc, List.cons_append]
  refine dateChars_le hsy hty hsd.2.1 htd.2.1 hsd.2.2.2 htd.2.2.2 ?_
  rcases fields_le (order_ne_gt_iff.mp h) with hbefore | ⟨hdate, htime⟩
  · exact .inl hbefore
  · refine .inr ⟨hdate, List.cons_le_cons _ ?_⟩
    exact timeChars_le (secondOfDay_lt t) (leap_le_one s) (leap_le_one t) htime

/-- The instant with the smaller text is the earlier one. -/
theorem order_of_text_lt {s t : Timestamp} (hsy : 0 ≤ s.date.year ∧ s.date.year ≤ 9999)
    (hty : 0 ≤ t.date.year ∧ t.date.year ≤ 9999) (h : s.text < t.text) : s.order t = .lt := by
  by_contra hnot
  have hle : t.order s ≠ .gt := by
    rw [order_eq_lt_iff] at hnot
    rw [order_ne_gt_iff]
    omega
  exact not_le.mpr h (text_le_of_order hty hsy hle)

/-- Whole seconds of the years 0 to 9999 compare as their texts. -/
theorem text_le_text {s t : Timestamp} (hs : s.nanos = 0) (ht : t.nanos = 0)
    (hsy : 0 ≤ s.date.year ∧ s.date.year ≤ 9999) (hty : 0 ≤ t.date.year ∧ t.date.year ≤ 9999)
    (h : s.seconds ≤ t.seconds) : s.text ≤ t.text :=
  text_le_of_order hsy hty (order_ne_gt_iff.mpr (by omega))

end TenantRegistry.Timestamp
