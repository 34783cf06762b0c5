import Mathlib.Logic.Basic
import TenantRegistry.Number.Setting

/-!
The numbers of settings are those that their texts write.

What a text writes is said by its digits alone, without the reader. A number is read from a text
exactly if the text writes it and it is below the bound: `naturalBelow?_eq_some_iff`.
-/

namespace TenantRegistry.Number

/-- A decimal digit of ASCII. -/
def IsDigit (c : Char) : Prop :=
  '0' ≤ c ∧ c ≤ '9'

/-- A text writes a natural number: one or more decimal digits, a plus sign before them or not,
and nothing else. -/
def Writes (s : String) (n : Nat) : Prop :=
  ∃ digits : List Char, digits ≠ [] ∧ (∀ c ∈ digits, IsDigit c) ∧
    (s.toList = digits ∨ s.toList = '+' :: digits) ∧ Nat.ofDigitChars 10 digits 0 = n

theorem digitValue?_ten_eq_some_iff {c : Char} {d : Nat} :
    digitValue? 10 c = some d ↔ IsDigit c ∧ c.toNat - '0'.toNat = d := by
  unfold digitValue? IsDigit
  split
  · next h =>
    have hhigh : c.toNat ≤ '0'.toNat + 9 := h.2
    rw [if_pos (by omega), Option.some_inj, and_iff_right h]
  · next h =>
    -- The other digits are worth ten and more.
    rw [if_neg, iff_false_left (by simp), not_and]
    · exact fun h' => absurd h' h
    · split
      · omega
      · split <;> omega

theorem digitsOnto_ten_eq_some_iff {cs : List Char} {m n : Nat} :
    digitsOnto 10 m cs = some n ↔ (∀ c ∈ cs, IsDigit c) ∧ Nat.ofDigitChars 10 cs m = n := by
  induction cs generalizing m with
  | nil => simp [digitsOnto]
  | cons c rest ih =>
    simp only [digitsOnto, Option.bind_eq_bind, Option.bind_eq_some_iff,
      digitValue?_ten_eq_some_iff, ih, List.forall_mem_cons, Nat.ofDigitChars_cons,
      Nat.mul_comm 10 m]
    constructor
    · rintro ⟨d, ⟨hc, rfl⟩, hrest, heq⟩
      exact ⟨⟨hc, hrest⟩, heq⟩
    · rintro ⟨⟨hc, hrest⟩, heq⟩
      exact ⟨_, ⟨hc, rfl⟩, hrest, heq⟩

theorem ofDigits?_ten_eq_some_iff {cs : List Char} {n : Nat} :
    ofDigits? 10 cs = some n ↔
      cs ≠ [] ∧ (∀ c ∈ cs, IsDigit c) ∧ Nat.ofDigitChars 10 cs 0 = n := by
  rw [← digitsOnto_ten_eq_some_iff, ofDigits?]
  cases cs <;> simp

/-- What is read is what is written, if it is below the bound. -/
theorem naturalBelow?_eq_some_iff {bound n : Nat} {s : String} :
    naturalBelow? bound s = some n ↔ Writes s n ∧ n < bound := by
  have hplus : ¬ IsDigit '+' := fun h => absurd h.1 (by decide)
  simp only [naturalBelow?, Option.filter_eq_some_iff, ofDigits?_ten_eq_some_iff,
    decide_eq_true_eq, Writes]
  refine and_congr_left fun _ => ?_
  split
  · next rest hs =>
    rw [hs]
    constructor
    · rintro ⟨hne, hdigits, heq⟩
      exact ⟨rest, hne, hdigits, .inr rfl, heq⟩
    · rintro ⟨digits, hne, hdigits, rfl | hrest, heq⟩
      · exact absurd (hdigits '+' List.mem_cons_self) hplus
      · cases hrest
        exact ⟨hne, hdigits, heq⟩
  · next hs =>
    constructor
    · rintro ⟨hne, hdigits, heq⟩
      exact ⟨s.toList, hne, hdigits, .inl rfl, heq⟩
    · rintro ⟨digits, hne, hdigits, rfl | hrest, heq⟩
      · exact ⟨hne, hdigits, heq⟩
      · exact absurd hrest (hs digits)

end TenantRegistry.Number
