import Mathlib.Data.List.TakeWhile
import TenantRegistry.Json.Written

/-!
The grammar of JSON texts, and how its numbers and strings are read.

The rules are those of RFC 8259, each a predicate on the characters that it derives. A run that is
read as a number or a string is one of the grammar (`number_of_takeNumber`, `chars_of_stringRest`),
and every number and string of the grammar is read to its end (`Number.exists_takeNumber`,
`Chars.exists_stringRest`).
-/

namespace TenantRegistry.Json.Grammar

/-! ## The grammar -/

/-- Insignificant space. -/
def Space (cs : List Char) : Prop :=
  ∀ c ∈ cs, c = ' ' ∨ c = '\t' ∨ c = '\n' ∨ c = '\r'

/-- One or more digits. -/
def Digits (cs : List Char) : Prop :=
  cs ≠ [] ∧ ∀ c ∈ cs, c.isDigit = true

/-- The digits before the point: a zero alone, or digits that start with another one. -/
inductive Whole : List Char → Prop
  | zero : Whole ['0']
  | digits {c : Char} {cs : List Char} : c ≠ '0' → Digits (c :: cs) → Whole (c :: cs)

inductive Fraction : List Char → Prop
  | absent : Fraction []
  | places {cs : List Char} : Digits cs → Fraction ('.' :: cs)

/-- The sign that an exponent may have. -/
inductive Sign : List Char → Prop
  | absent : Sign []
  | plus : Sign ['+']
  | minus : Sign ['-']

inductive Exponent : List Char → Prop
  | absent : Exponent []
  | power {e : Char} {sign cs : List Char} : e = 'e' ∨ e = 'E' → Sign sign → Digits cs →
      Exponent (e :: (sign ++ cs))

/-- A number without its sign. -/
inductive Unsigned : List Char → Prop
  | mk {whole fraction exponent : List Char} : Whole whole → Fraction fraction →
      Exponent exponent → Unsigned (whole ++ (fraction ++ exponent))

inductive Number : List Char → Prop
  | positive {cs : List Char} : Unsigned cs → Number cs
  | negative {cs : List Char} : Unsigned cs → Number ('-' :: cs)

def IsHexDigit (c : Char) : Prop :=
  c.isDigit = true ∨ ('a' ≤ c ∧ c ≤ 'f') ∨ ('A' ≤ c ∧ c ≤ 'F')

/-- One character of a string as it is written. Any four hexadecimal digits make an escape, be they
half of a surrogate pair. -/
inductive Element : List Char → Prop
  | unescaped {c : Char} : c ≠ '"' → c ≠ '\\' → 0x20 ≤ c.toNat → Element [c]
  | escaped {c : Char} : c ∈ ['"', '\\', '/', 'b', 'f', 'n', 'r', 't'] → Element ['\\', c]
  | hex {a b c d : Char} : IsHexDigit a → IsHexDigit b → IsHexDigit c → IsHexDigit d →
      Element ['\\', 'u', a, b, c, d]

/-- What stands between the quotes of a string. -/
inductive Chars : List Char → Prop
  | nil : Chars []
  | cons {e cs : List Char} : Element e → Chars cs → Chars (e ++ cs)

inductive Text : List Char → Prop
  | mk {cs : List Char} : Chars cs → Text ('"' :: (cs ++ ['"']))

mutual

inductive Value : List Char → Prop
  | word {w : String} : w ∈ ["null", "true", "false"] → Value w.toList
  | number {cs : List Char} : Number cs → Value cs
  | string {cs : List Char} : Text cs → Value cs
  | emptyArray {a : List Char} : Space a → Value ('[' :: (a ++ [']']))
  | array {a v more : List Char} : Space a → Value v → MoreItems more →
      Value ('[' :: (a ++ (v ++ (more ++ [']']))))
  | emptyObject {a : List Char} : Space a → Value ('\x7b' :: (a ++ ['\x7d']))
  | object {a m more : List Char} : Space a → Member m → MoreMembers more →
      Value ('\x7b' :: (a ++ (m ++ (more ++ ['\x7d']))))

/-- The items after one, each behind a comma, up to the closing bracket. -/
inductive MoreItems : List Char → Prop
  | done {a : List Char} : Space a → MoreItems a
  | more {a b v more : List Char} : Space a → Space b → Value v → MoreItems more →
      MoreItems (a ++ ',' :: (b ++ (v ++ more)))

/-- A key, a colon and a value. -/
inductive Member : List Char → Prop
  | mk {k a b v : List Char} : Text k → Space a → Space b → Value v →
      Member (k ++ (a ++ ':' :: (b ++ v)))

/-- The entries after one, each behind a comma, up to the closing brace. -/
inductive MoreMembers : List Char → Prop
  | done {a : List Char} : Space a → MoreMembers a
  | more {a b m more : List Char} : Space a → Space b → Member m → MoreMembers more →
      MoreMembers (a ++ ',' :: (b ++ (m ++ more)))

end

/-- A whole text: one value with space around it, and nothing else. -/
inductive Document : List Char → Prop
  | mk {a v b : List Char} : Space a → Value v → Space b → Document (a ++ (v ++ b))

/-! ## Space -/

open Written

theorem isSpace_iff {c : Char} : isSpace c = true ↔ c = ' ' ∨ c = '\t' ∨ c = '\n' ∨ c = '\r' := by
  simp [isSpace, or_assoc]

theorem Space.nil : Space [] :=
  fun _ h => by cases h

theorem Space.append {a b : List Char} (ha : Space a) (hb : Space b) : Space (a ++ b) := by
  intro c hc
  rcases List.mem_append.mp hc with h | h
  · exact ha c h
  · exact hb c h

theorem skipSpace_of_not_space {c : Char} (h : isSpace c = false) (cs : List Char) :
    skipSpace (c :: cs) = c :: cs := by
  simp [skipSpace, h]

theorem skipSpace_append {a : List Char} (h : Space a) (cs : List Char) :
    skipSpace (a ++ cs) = skipSpace cs :=
  List.dropWhile_append_of_pos fun c hc => isSpace_iff.mpr (h c hc)

/-- What is skipped is space, and what is left does not start with space. -/
theorem exists_skipSpace (cs : List Char) : ∃ a, cs = a ++ skipSpace cs ∧ Space a := by
  refine ⟨cs.takeWhile isSpace, List.takeWhile_append_dropWhile.symm, fun c hc => ?_⟩
  exact isSpace_iff.mp (List.mem_takeWhile_imp hc)

theorem exists_of_skipSpace {cs rest : List Char} (h : skipSpace cs = rest) :
    ∃ a, cs = a ++ rest ∧ Space a := by
  subst h
  exact exists_skipSpace cs

theorem skipSpace_eq_nil {cs : List Char} : (skipSpace cs).isEmpty = true ↔ Space cs := by
  rw [List.isEmpty_iff, skipSpace, List.dropWhile_eq_nil_iff]
  exact forall₂_congr fun c _ => isSpace_iff

/-! ## Numbers -/

/-- What does not go on with a number. -/
def EndsNumber (rest : List Char) : Prop :=
  ∀ c ∈ rest.head?, c.isDigit = false ∧ c ≠ '.' ∧ c ≠ 'e' ∧ c ≠ 'E'

theorem endsNumber_cons {c : Char} (h : c = ',' ∨ c = ']' ∨ c = '\x7d') (cs : List Char) :
    EndsNumber (c :: cs) := by
  intro c' hc'
  cases hc'
  rcases h with rfl | rfl | rfl <;> decide

theorem ne_of_isDigit {c d : Char} (hc : c.isDigit = true) (hd : d.isDigit = false) : c ≠ d := by
  rintro rfl
  rw [hc] at hd
  cases hd

/-- What follows a run of digits to its end. -/
def NoDigit (rest : List Char) : Prop :=
  ∀ c ∈ rest.head?, c.isDigit = false

theorem takeWhile_isDigit {cs rest : List Char} (h : ∀ c ∈ cs, c.isDigit = true)
    (hrest : NoDigit rest) :
    (cs ++ rest).takeWhile Char.isDigit = cs ∧ (cs ++ rest).dropWhile Char.isDigit = rest := by
  rw [List.takeWhile_append_of_pos h, List.dropWhile_append_of_pos h]
  cases rest with
  | nil => simp
  | cons c rest => simp [hrest c rfl]

theorem digits_takeWhile {cs : List Char} (h : (cs.takeWhile Char.isDigit).isEmpty = false) :
    Digits (cs.takeWhile Char.isDigit) :=
  ⟨by simpa using h, fun _ hc => List.mem_takeWhile_imp hc⟩

theorem whole_of_takeWhole {cs w rest : List Char} (h : takeWhole cs = some (w, rest)) :
    Whole w ∧ cs = w ++ rest := by
  unfold takeWhole at h
  split at h
  · cases h; exact ⟨.zero, rfl⟩
  · next c cs hzero =>
    split at h
    · next hdigit =>
      cases h
      rw [List.takeWhile_append_dropWhile]
      refine ⟨?_, rfl⟩
      rw [List.takeWhile_cons, if_pos hdigit]
      refine .digits hzero ⟨by simp, ?_⟩
      rw [List.forall_mem_cons]
      exact ⟨hdigit, fun _ hd => List.mem_takeWhile_imp hd⟩
    · cases h
  · cases h

theorem fraction_of_takePlaces {cs p rest : List Char} (h : takePlaces cs = some (p, rest)) :
    ∃ f, Fraction f ∧ cs = f ++ rest := by
  unfold takePlaces at h
  split at h
  · next cs =>
    dsimp only at h
    split at h
    · cases h
    · next hempty =>
      cases h
      have hdigits := digits_takeWhile (Bool.eq_false_iff.mpr hempty)
      refine ⟨'.' :: cs.takeWhile Char.isDigit, .places hdigits, ?_⟩
      rw [List.cons_append, List.takeWhile_append_dropWhile]
  · cases h; exact ⟨[], .absent, rfl⟩

theorem exponent_of_digits {e : Char} {sign cs rest : List Char} {negative : Bool}
    {x : Option (Bool × List Char)} (he : e = 'e' ∨ e = 'E') (hsign : Sign sign)
    (h : (if (cs.takeWhile Char.isDigit).isEmpty then none
      else some (some (negative, cs.takeWhile Char.isDigit), cs.dropWhile Char.isDigit)) =
        some (x, rest)) : ∃ v, Exponent v ∧ e :: (sign ++ cs) = v ++ rest := by
  split at h
  · cases h
  · next hempty =>
    cases h
    refine ⟨_, .power he hsign (digits_takeWhile (by simpa using hempty)), ?_⟩
    rw [List.cons_append, List.append_assoc, List.takeWhile_append_dropWhile]

theorem exponent_of_takeExponent {cs rest : List Char} {x : Option (Bool × List Char)}
    (h : takeExponent cs = some (x, rest)) : ∃ e, Exponent e ∧ cs = e ++ rest := by
  cases cs with
  | nil => cases h; exact ⟨[], .absent, rfl⟩
  | cons c cs =>
    simp only [takeExponent] at h
    split at h
    · next he =>
      split at h
      · exact exponent_of_digits he .plus h
      · exact exponent_of_digits he .minus h
      · exact exponent_of_digits he .absent h
    · cases h; exact ⟨[], .absent, rfl⟩

theorem number_of_takeNumber {cs rest : List Char} {n : NumberText}
    (h : takeNumber cs = some (n, rest)) : ∃ v, Number v ∧ cs = v ++ rest := by
  unfold takeNumber at h
  -- Whatever the sign, the rest is read as an unsigned number.
  split at h
  next negative tail hsign =>
  simp only [Option.bind_eq_bind, Option.bind_eq_some_iff] at h
  obtain ⟨⟨w, rest₁⟩, hwhole, ⟨p, rest₂⟩, hplaces, ⟨x, rest₃⟩, hexponent, heq⟩ := h
  cases heq
  obtain ⟨hw, rfl⟩ := whole_of_takeWhole hwhole
  obtain ⟨f, hf, rfl⟩ := fraction_of_takePlaces hplaces
  obtain ⟨e, he, rfl⟩ := exponent_of_takeExponent hexponent
  have hunsigned : Unsigned (w ++ (f ++ e)) := .mk hw hf he
  split at hsign
  · cases hsign
    exact ⟨_, .negative hunsigned, by simp only [List.cons_append, List.append_assoc]⟩
  · cases hsign
    exact ⟨_, .positive hunsigned, by simp only [List.append_assoc]⟩

theorem Whole.takeWhole {w rest : List Char} (h : Whole w) (hrest : NoDigit rest) :
    takeWhole (w ++ rest) = some (w, rest) := by
  cases h with
  | zero => rfl
  | @digits c cs hc hdigits =>
    obtain ⟨htake, hdrop⟩ := takeWhile_isDigit hdigits.2 hrest
    unfold Written.takeWhole
    split
    · next heq => cases heq; exact absurd rfl hc
    · next heq =>
      cases heq
      rw [if_pos (hdigits.2 _ List.mem_cons_self), htake, hdrop]
    · next heq => cases heq

theorem Digits.exists_cons {cs : List Char} (h : Digits cs) :
    ∃ c rest, cs = c :: rest ∧ c.isDigit = true := by
  obtain ⟨c, rest, rfl⟩ := List.exists_cons_of_ne_nil h.1
  exact ⟨c, rest, rfl, h.2 c List.mem_cons_self⟩

theorem takePlaces_of_ne {rest : List Char} (h : ∀ c ∈ rest.head?, c ≠ '.') :
    takePlaces rest = some ([], rest) := by
  unfold takePlaces
  split
  · exact absurd rfl (h '.' rfl)
  · rfl

theorem takePlaces_digits {cs rest : List Char} (h : Digits cs) (hdigit : NoDigit rest) :
    takePlaces ('.' :: cs ++ rest) = some (cs, rest) := by
  obtain ⟨htake, hdrop⟩ := takeWhile_isDigit h.2 hdigit
  simp only [List.cons_append, takePlaces, htake, hdrop]
  rw [if_neg (by simpa using h.1)]

theorem takeExponent_of_endsNumber {rest : List Char} (h : EndsNumber rest) :
    takeExponent rest = some (none, rest) := by
  cases rest with
  | nil => rfl
  | cons c rest =>
    obtain ⟨_, _, he, hE⟩ := h c rfl
    have hnot : ¬ (c = 'e' ∨ c = 'E') := not_or.mpr ⟨he, hE⟩
    simp only [takeExponent, if_neg hnot]

/-- An exponent is read with its digits, and as negative only behind a minus. -/
theorem takeExponent_digits {e : Char} {cs rest : List Char} (he : e = 'e' ∨ e = 'E')
    (h : Digits cs) (hdigit : NoDigit rest) :
    takeExponent (e :: (cs ++ rest)) = some (some (false, cs), rest) ∧
      takeExponent (e :: '+' :: (cs ++ rest)) = some (some (false, cs), rest) ∧
      takeExponent (e :: '-' :: (cs ++ rest)) = some (some (true, cs), rest) := by
  obtain ⟨htake, hdrop⟩ := takeWhile_isDigit h.2 hdigit
  obtain ⟨d, ds, rfl, hd⟩ := h.exists_cons
  have hplus : d ≠ '+' := ne_of_isDigit hd rfl
  have hminus : d ≠ '-' := ne_of_isDigit hd rfl
  simp only [List.cons_append] at htake hdrop
  refine ⟨?_, ?_, ?_⟩ <;> simp [takeExponent, he, htake, hdrop, hplus, hminus]

theorem Fraction.exists_takePlaces {f rest : List Char} (h : Fraction f) (hdigit : NoDigit rest)
    (hpoint : ∀ c ∈ rest.head?, c ≠ '.') : ∃ p, takePlaces (f ++ rest) = some (p, rest) := by
  cases h with
  | absent => exact ⟨_, takePlaces_of_ne hpoint⟩
  | places hdigits => exact ⟨_, takePlaces_digits hdigits hdigit⟩

theorem Exponent.exists_takeExponent {e rest : List Char} (h : Exponent e)
    (hrest : EndsNumber rest) : ∃ x, takeExponent (e ++ rest) = some (x, rest) := by
  cases h with
  | absent => exact ⟨none, takeExponent_of_endsNumber hrest⟩
  | power hc hsign hdigits =>
    obtain ⟨hnone, hplus, hminus⟩ := takeExponent_digits hc hdigits fun c hc => (hrest c hc).1
    simp only [List.cons_append, List.append_assoc]
    cases hsign with
    | absent => exact ⟨_, hnone⟩
    | plus => exact ⟨_, hplus⟩
    | minus => exact ⟨_, hminus⟩

theorem Exponent.head {e : List Char} (h : Exponent e) :
    e = [] ∨ ∃ cs, e = 'e' :: cs ∨ e = 'E' :: cs := by
  cases h with
  | absent => exact .inl rfl
  | power hc _ _ =>
    rcases hc with rfl | rfl
    · exact .inr ⟨_, .inl rfl⟩
    · exact .inr ⟨_, .inr rfl⟩

theorem Fraction.head {f : List Char} (h : Fraction f) : f = [] ∨ ∃ cs, f = '.' :: cs := by
  cases h with
  | absent => exact .inl rfl
  | places _ => exact .inr ⟨_, rfl⟩

/-- Neither digits nor a point follow an exponent that is left out or written. -/
theorem Exponent.append_head {e rest : List Char} (h : Exponent e) (hrest : EndsNumber rest) :
    ∀ c ∈ (e ++ rest).head?, c.isDigit = false ∧ c ≠ '.' := by
  rcases h.head with rfl | ⟨cs, rfl | rfl⟩
  · exact fun c hc => ⟨(hrest c hc).1, (hrest c hc).2.1⟩
  · rintro c ⟨⟩; decide
  · rintro c ⟨⟩; decide

theorem Unsigned.exists_cons {cs : List Char} (h : Unsigned cs) :
    ∃ c rest, cs = c :: rest ∧ c.isDigit = true := by
  obtain ⟨hw, hf, he⟩ := h
  cases hw with
  | zero => exact ⟨'0', _, rfl, rfl⟩
  | @digits c cs hc hdigits => exact ⟨c, _, rfl, hdigits.2 c List.mem_cons_self⟩

theorem Unsigned.head_ne_minus {cs : List Char} (h : Unsigned cs) (rest : List Char) :
    ∀ c ∈ (cs ++ rest).head?, c ≠ '-' := by
  obtain ⟨c, tail, rfl, hc⟩ := h.exists_cons
  rintro c' ⟨⟩
  exact ne_of_isDigit hc rfl

/-- What follows the digits of a number before its point does not go on with them. -/
theorem Fraction.noDigit_append {f e rest : List Char} (hf : Fraction f) (he : Exponent e)
    (hrest : EndsNumber rest) : NoDigit (f ++ (e ++ rest)) := by
  rcases hf.head with rfl | ⟨cs, rfl⟩
  · exact fun c hc => (he.append_head hrest c hc).1
  · rintro c ⟨⟩
    rfl

/-- A number is read from its digits, its places and its exponent, with a minus and without. -/
theorem takeNumber_of_parts {cs afterWhole afterPlaces rest w p : List Char}
    {x : Option (Bool × List Char)} (hminus : ∀ c ∈ cs.head?, c ≠ '-')
    (hwhole : takeWhole cs = some (w, afterWhole))
    (hplaces : takePlaces afterWhole = some (p, afterPlaces))
    (hexponent : takeExponent afterPlaces = some (x, rest)) :
    takeNumber cs = some (⟨false, w, p, x⟩, rest) ∧
      takeNumber ('-' :: cs) = some (⟨true, w, p, x⟩, rest) := by
  constructor
  · cases cs with
    | nil => cases hwhole
    | cons c cs =>
      have hc : c ≠ '-' := hminus c rfl
      simp [takeNumber, hc, hwhole, hplaces, hexponent]
  · simp [takeNumber, hwhole, hplaces, hexponent]

/-- A number is read to its end, if what follows does not go on with it. -/
theorem Number.exists_takeNumber {cs rest : List Char} (h : Number cs) (hrest : EndsNumber rest) :
    ∃ n, takeNumber (cs ++ rest) = some (n, rest) := by
  have hread {cs : List Char} (hcs : Unsigned cs) : ∃ n n', takeNumber (cs ++ rest) =
      some (n, rest) ∧ takeNumber ('-' :: (cs ++ rest)) = some (n', rest) := by
    have hminus := hcs.head_ne_minus rest
    obtain ⟨hw, hf, he⟩ := hcs
    have hhead := he.append_head hrest
    obtain ⟨p, hplaces⟩ :=
      hf.exists_takePlaces (fun c hc => (hhead c hc).1) fun c hc => (hhead c hc).2
    obtain ⟨x, hexponent⟩ := he.exists_takeExponent hrest
    have hwhole := hw.takeWhole (hf.noDigit_append he hrest)
    simp only [List.append_assoc] at hminus ⊢
    obtain ⟨hpositive, hnegative⟩ := takeNumber_of_parts hminus hwhole hplaces hexponent
    exact ⟨_, _, hpositive, hnegative⟩
  cases h with
  | positive hcs =>
    obtain ⟨n, -, hn, -⟩ := hread hcs
    exact ⟨n, hn⟩
  | negative hcs =>
    obtain ⟨-, n, -, hn⟩ := hread hcs
    exact ⟨n, hn⟩

theorem Number.exists_cons {cs : List Char} (h : Number cs) :
    ∃ c rest, cs = c :: rest ∧ (c.isDigit = true ∨ c = '-') := by
  cases h with
  | positive hcs =>
    obtain ⟨c, rest, rfl, hc⟩ := hcs.exists_cons
    exact ⟨c, rest, rfl, .inl hc⟩
  | negative _ => exact ⟨'-', _, rfl, .inr rfl⟩

/-! ## Strings -/

/-- The place of a character in a range is less than the size of the range. -/
theorem toNat_sub_lt {c low high : Char} (size : Nat) (h : low ≤ c ∧ c ≤ high)
    (hsize : high.toNat < low.toNat + size) : c.toNat - low.toNat < size := by
  have hlow : low.toNat ≤ c.toNat := h.1
  have hhigh : c.toNat ≤ high.toNat := h.2
  omega

theorem exists_digitValue?_iff {c : Char} :
    (∃ n, TenantRegistry.Number.digitValue? 16 c = some n) ↔ IsHexDigit c := by
  have hdigit : c.isDigit = true ↔ '0' ≤ c ∧ c ≤ '9' := by
    simp [Char.isDigit, Char.le_def]
  unfold TenantRegistry.Number.digitValue? IsHexDigit
  rw [hdigit]
  split
  · next h =>
    have hlt := toNat_sub_lt 10 h (by decide)
    exact ⟨fun _ => .inl h, fun _ => ⟨_, if_pos (by omega)⟩⟩
  · next h =>
    split
    · next ha =>
      have hlt := toNat_sub_lt 6 ha (by decide)
      exact ⟨fun _ => .inr (.inl ha), fun _ => ⟨_, if_pos (by omega)⟩⟩
    · next ha =>
      split
      · next hA =>
        have hlt := toNat_sub_lt 6 hA (by decide)
        exact ⟨fun _ => .inr (.inr hA), fun _ => ⟨_, if_pos (by omega)⟩⟩
      · next hA => simp [h, ha, hA]

theorem exists_hex4?_iff {a b c d : Char} :
    (∃ n, hex4? a b c d = some n) ↔
      IsHexDigit a ∧ IsHexDigit b ∧ IsHexDigit c ∧ IsHexDigit d := by
  simp only [hex4?, TenantRegistry.Number.ofDigits?, TenantRegistry.Number.digitsOnto,
    List.isEmpty_cons, Bool.false_eq_true, if_false, Option.bind_eq_bind,
    Option.bind_eq_some_iff, ← exists_digitValue?_iff]
  constructor
  · rintro ⟨n, x, hx, y, hy, z, hz, w, hw, _⟩
    exact ⟨⟨x, hx⟩, ⟨y, hy⟩, ⟨z, hz⟩, ⟨w, hw⟩⟩
  · rintro ⟨⟨x, hx⟩, ⟨y, hy⟩, ⟨z, hz⟩, ⟨w, hw⟩⟩
    exact ⟨_, x, hx, y, hy, z, hz, w, hw, rfl⟩

theorem element_of_hex4? {a b c d : Char} {n : Nat} (h : hex4? a b c d = some n) :
    Element ['\\', 'u', a, b, c, d] := by
  obtain ⟨ha, hb, hc, hd⟩ := exists_hex4?_iff.mp ⟨n, h⟩
  exact .hex ha hb hc hd

theorem exists_simpleEscape?_iff {c : Char} :
    (∃ d, simpleEscape? c = some d) ↔ c ∈ ['"', '\\', '/', 'b', 'f', 'n', 'r', 't'] := by
  unfold simpleEscape?
  split <;> simp_all

/-- The second escape of a pair is one of four hexadecimal digits. -/
theorem exists_of_pair? {n : Nat} {cs rest : List Char} {p : Char}
    (h : pair? n cs = some (p, rest)) :
    ∃ a b c d m, cs = '\\' :: 'u' :: a :: b :: c :: d :: rest ∧ hex4? a b c d = some m := by
  unfold pair? at h
  split at h
  · next a b c d tail =>
    split at h
    · next m hm =>
      split at h
      · obtain ⟨-, rfl⟩ := Prod.mk.inj (Option.some.inj h)
        exact ⟨a, b, c, d, m, rfl, hm⟩
      · cases h
    · cases h
  · cases h

theorem exists_of_prepend {c : Char} {r : Option (Option (List Char) × List Char)}
    {s : Option (List Char)} {rest : List Char} (h : stringRest.prepend c r = some (s, rest)) :
    ∃ s', r = some (s', rest) := by
  obtain ⟨⟨s', rest'⟩, hr, heq⟩ := Option.map_eq_some_iff.mp h
  cases heq
  exact ⟨s', hr⟩

theorem stringRest_plain {c : Char} (hquote : c ≠ '"') (hslash : c ≠ '\\') (h : ¬ c.toNat < 32)
    (b : Char) (budget rest : List Char) :
    stringRest (b :: budget) (c :: rest) = stringRest.prepend c (stringRest budget rest) := by
  rw [stringRest.eq_def]
  split
  · next heq => cases heq
  · next heq =>
    cases heq
    split
    · next heq => cases heq
    · next heq => cases heq; exact absurd rfl hquote
    · next heq => cases heq; exact absurd rfl hslash
    · next heq => cases heq; exact absurd rfl hslash
    · next heq =>
      cases heq
      rw [if_neg]
      simpa [hslash] using h

/-- What is read up to a closing quote is made of elements. -/
theorem chars_of_stringRest {budget cs rest : List Char} {s : Option (List Char)}
    (h : stringRest budget cs = some (s, rest)) : ∃ v, Chars v ∧ cs = v ++ '"' :: rest := by
  induction budget generalizing cs s with
  | nil => cases h
  | cons _ budget ih =>
    unfold stringRest at h
    split at h
    · cases h
    · cases h; exact ⟨[], .nil, rfl⟩
    · next a b c d tail =>
      split at h
      · cases h
      · next n hn =>
        have helement := element_of_hex4? hn
        split at h
        · next p after hpair =>
          obtain ⟨s', hs⟩ := exists_of_prepend h
          obtain ⟨v, hv, rfl⟩ := ih hs
          obtain ⟨a', b', c', d', m, rfl, hm⟩ := exists_of_pair? hpair
          exact ⟨_, .cons helement (.cons (element_of_hex4? hm) hv), rfl⟩
        · split at h
          · obtain ⟨⟨s', rest'⟩, hs, heq⟩ := Option.map_eq_some_iff.mp h
            cases heq
            obtain ⟨v, hv, rfl⟩ := ih hs
            exact ⟨_, .cons helement hv, rfl⟩
          · obtain ⟨s', hs⟩ := exists_of_prepend h
            obtain ⟨v, hv, rfl⟩ := ih hs
            exact ⟨_, .cons helement hv, rfl⟩
    · next c tail _ =>
      split at h
      · next d hd =>
        obtain ⟨s', hs⟩ := exists_of_prepend h
        obtain ⟨v, hv, rfl⟩ := ih hs
        exact ⟨_, .cons (.escaped (exists_simpleEscape?_iff.mp ⟨d, hd⟩)) hv, rfl⟩
      · cases h
    · next c tail hquote _ _ =>
      split at h
      · cases h
      · next hplain =>
        obtain ⟨s', hs⟩ := exists_of_prepend h
        obtain ⟨v, hv, rfl⟩ := ih hs
        simp only [Bool.or_eq_true, decide_eq_true_eq, beq_iff_eq, not_or, not_lt] at hplain
        exact ⟨_, .cons (.unescaped hquote hplain.2 hplain.1) hv, rfl⟩

theorem exists_map {α β : Type} {r : Option (α × List Char)} {rest : List Char}
    (h : ∃ x, r = some (x, rest)) {f : α × List Char → β × List Char} (hf : ∀ p, (f p).2 = p.2) :
    ∃ y, r.map f = some (y, rest) := by
  obtain ⟨x, rfl⟩ := h
  exact ⟨(f (x, rest)).1, congrArg some (Prod.ext rfl (hf _))⟩

theorem exists_stringRest_simple {c b : Char} {budget cs rest : List Char}
    (hc : c ∈ ['"', '\\', '/', 'b', 'f', 'n', 'r', 't'])
    (h : ∃ s, stringRest budget cs = some (s, rest)) :
    ∃ s, stringRest (b :: budget) ('\\' :: c :: cs) = some (s, rest) := by
  obtain ⟨d, hd⟩ := exists_simpleEscape?_iff.mpr hc
  have hu : c ≠ 'u' := by
    rintro rfl
    exact absurd hc (by decide)
  unfold stringRest
  split
  · next heq => cases heq
  · next heq => cases heq
  · next heq => cases heq; exact absurd rfl hu
  · next heq =>
    cases heq
    rw [hd]
    exact exists_map h fun _ => rfl
  · next hne heq => cases heq; exact absurd rfl (hne _ _ rfl)

/-- Where the text between quotes starts like an escape of four digits, the escape is its first
element. -/
theorem Chars.of_hex_head {a b c d : Char} {v rest after : List Char} (h : Chars v)
    (heq : v ++ '"' :: rest = '\\' :: 'u' :: a :: b :: c :: d :: after) :
    ∃ v', Chars v' ∧ after = v' ++ '"' :: rest ∧ v'.length + 6 = v.length := by
  cases h with
  | nil => cases heq
  | @cons e cs he hcs =>
    cases he <;> simp only [List.cons_append, List.nil_append, List.cons.injEq] at heq
    case unescaped hslash _ => exact absurd heq.1 hslash
    case escaped hc => exact absurd (heq.2.1 ▸ hc) (by decide)
    case hex => exact ⟨cs, hcs, heq.2.2.2.2.2.2.symm, by simp⟩

/-- Every string of the grammar is read to its closing quote. -/
theorem Chars.exists_stringRest {v budget rest : List Char} (h : Chars v)
    (hbudget : v.length < budget.length) :
    ∃ s, stringRest budget (v ++ '"' :: rest) = some (s, rest) := by
  -- Two escapes are read at once where they are a pair, so the induction is on the length.
  induction hlen : v.length using Nat.strongRecOn generalizing v budget with
  | ind n ih =>
    subst hlen
    obtain ⟨b, budget, rfl⟩ := List.exists_cons_of_length_pos (Nat.zero_lt_of_lt hbudget)
    rw [List.length_cons] at hbudget
    cases h with
    | nil => exact ⟨some [], rfl⟩
    | @cons e cs he hcs =>
      simp only [List.length_append] at hbudget ih
      cases he with
      | @unescaped c hquote hslash hle =>
        simp only [List.length_cons, List.length_nil] at hbudget ih
        rw [List.singleton_append, List.cons_append, stringRest_plain hquote hslash (by omega)]
        exact exists_map (ih _ (by omega) hcs (by omega) rfl) fun _ => rfl
      | @escaped c hc =>
        simp only [List.length_cons, List.length_nil] at hbudget ih
        simp only [List.cons_append, List.nil_append]
        exact exists_stringRest_simple hc (ih _ (by omega) hcs (by omega) rfl)
      | @hex a b c d ha hb hc hd =>
        simp only [List.length_cons, List.length_nil] at hbudget ih
        obtain ⟨n, hn⟩ := exists_hex4?_iff.mpr ⟨ha, hb, hc, hd⟩
        have hlength : cs.length < budget.length := by omega
        have hrest := ih _ (by omega) hcs hlength rfl
        simp only [List.cons_append, List.nil_append, stringRest, hn]
        split
        · next p after hpair =>
          obtain ⟨a', b', c', d', m, heq, -⟩ := exists_of_pair? hpair
          obtain ⟨cs', hcs', rfl, hlength⟩ := hcs.of_hex_head heq
          exact exists_map (ih _ (by omega) hcs' (by omega) rfl) fun _ => rfl
        · split
          · exact exists_map hrest fun _ => rfl
          · exact exists_map hrest fun _ => rfl

theorem text_of_takeString {cs rest : List Char} {s : Option String}
    (h : takeString cs = some (s, rest)) : ∃ v, Text v ∧ '"' :: cs = v ++ rest := by
  obtain ⟨⟨s', rest'⟩, hs, heq⟩ := Option.map_eq_some_iff.mp h
  cases heq
  obtain ⟨v, hv, rfl⟩ := chars_of_stringRest hs
  exact ⟨_, .mk hv, by simp⟩

theorem Chars.exists_takeString {v : List Char} (h : Chars v) (rest : List Char) :
    ∃ s, takeString (v ++ '"' :: rest) = some (s, rest) :=
  exists_map (h.exists_stringRest (by simp only [List.length_append, List.length_cons]; omega))
    fun _ => rfl

end TenantRegistry.Json.Grammar
