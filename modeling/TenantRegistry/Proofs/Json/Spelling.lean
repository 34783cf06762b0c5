import TenantRegistry.Proofs.Json.WellFormed

/-!
What JSON texts write.

The rules of the grammar once more, each with what the characters that it derives write: which
characters a string has, whatever their escapes, and the digits of a number. Lone halves of
surrogate pairs write nothing. A text is read as what it writes: `ofText?_of_document`.
-/

namespace TenantRegistry.Json.Spelling

open Written
open Grammar (Space Digits Whole NoDigit EndsNumber)
open Number (IsHexDigit)
open Utf16 (isLead isTrail)

/-! ## The rules -/

/-- What the characters after a backslash stand for. -/
def escapes : List (Char × Char) :=
  [('"', '"'), ('\\', '\\'), ('/', '/'), ('b', '\x08'), ('f', '\x0c'), ('n', '\n'), ('r', '\r'),
    ('t', '\t')]

/-- The number that four hexadecimal digits write. -/
def IsCode (a b c d : Char) (n : Nat) : Prop :=
  ∃ i j k l, IsHexDigit a i ∧ IsHexDigit b j ∧ IsHexDigit c k ∧ IsHexDigit d l ∧
    n = ((i * 16 + j) * 16 + k) * 16 + l

/-- One character of a string: as itself, as an escape, as its code or as a surrogate pair. -/
inductive Element : (text : List Char) → Char → Prop
  | unescaped {c : Char} : c ≠ '"' → c ≠ '\\' → 0x20 ≤ c.toNat → Element [c] c
  | escaped {mark c : Char} : (mark, c) ∈ escapes → Element ['\\', mark] c
  | code {a b c d : Char} {n : Nat} : IsCode a b c d n → n < 0xD800 ∨ 0xE000 ≤ n →
      Element ['\\', 'u', a, b, c, d] (Char.ofNat n)
  | pair {a b c d e f g h : Char} {lead trail : Nat} : IsCode a b c d lead → IsCode e f g h trail →
      0xD800 ≤ lead ∧ lead < 0xDC00 → 0xDC00 ≤ trail ∧ trail < 0xE000 →
      Element ['\\', 'u', a, b, c, d, '\\', 'u', e, f, g, h]
        (Char.ofNat (0x10000 + (lead - 0xD800) * 0x400 + (trail - 0xDC00)))

/-- What stands between the quotes of a string. -/
inductive Chars : (text : List Char) → List Char → Prop
  | nil : Chars [] []
  | cons {e v cs : List Char} {c : Char} : Element e c → Chars v cs → Chars (e ++ v) (c :: cs)

inductive Text : (text : List Char) → String → Prop
  | mk {v cs : List Char} : Chars v cs → Text ('"' :: (v ++ ['"'])) (String.ofList cs)

/-- The places of a number. -/
inductive Fraction : (text : List Char) → List Char → Prop
  | absent : Fraction [] []
  | places {cs : List Char} : Digits cs → Fraction ('.' :: cs) cs

/-- The sign of an exponent, and whether it is negative. -/
inductive Sign : (text : List Char) → Bool → Prop
  | absent : Sign [] false
  | plus : Sign ['+'] false
  | minus : Sign ['-'] true

inductive Exponent : (text : List Char) → Option (Bool × List Char) → Prop
  | absent : Exponent [] none
  | power {e : Char} {sign cs : List Char} {negative : Bool} : e = 'e' ∨ e = 'E' →
      Sign sign negative → Digits cs → Exponent (e :: (sign ++ cs)) (some (negative, cs))

inductive Number : (text : List Char) → NumberText → Prop
  | positive {w f e places : List Char} {exponent : Option (Bool × List Char)} : Whole w →
      Fraction f places → Exponent e exponent →
      Number (w ++ (f ++ e)) ⟨false, w, places, exponent⟩
  | negative {w f e places : List Char} {exponent : Option (Bool × List Char)} : Whole w →
      Fraction f places → Exponent e exponent →
      Number ('-' :: (w ++ (f ++ e))) ⟨true, w, places, exponent⟩

mutual

inductive Value : (text : List Char) → Written → Prop
  | null : Value "null".toList .null
  | true : Value "true".toList (.bool true)
  | false : Value "false".toList (.bool false)
  | number {cs : List Char} {n : NumberText} : Number cs n → Value cs (.number n)
  | string {cs : List Char} {s : String} : Text cs s → Value cs (.string (some s))
  | emptyArray {a : List Char} : Space a → Value ('[' :: (a ++ [']'])) (.array [])
  | array {a v more : List Char} {w : Written} {ws : List Written} : Space a → Value v w →
      MoreItems more ws → Value ('[' :: (a ++ (v ++ (more ++ [']'])))) (.array (w :: ws))
  | emptyObject {a : List Char} : Space a → Value ('\x7b' :: (a ++ ['\x7d'])) (.object [])
  | object {a m more : List Char} {e : Option String × Written}
      {es : List (Option String × Written)} : Space a → Member m e → MoreMembers more es →
      Value ('\x7b' :: (a ++ (m ++ (more ++ ['\x7d'])))) (.object (e :: es))

/-- The items after one, each behind a comma, up to the closing bracket. -/
inductive MoreItems : (text : List Char) → List Written → Prop
  | done {a : List Char} : Space a → MoreItems a []
  | more {a b v more : List Char} {w : Written} {ws : List Written} : Space a → Space b →
      Value v w → MoreItems more ws → MoreItems (a ++ ',' :: (b ++ (v ++ more))) (w :: ws)

/-- A key, a colon and a value. -/
inductive Member : (text : List Char) → Option String × Written → Prop
  | mk {t a b v : List Char} {k : String} {w : Written} : Text t k → Space a → Space b →
      Value v w → Member (t ++ (a ++ ':' :: (b ++ v))) (some k, w)

/-- The entries after one, each behind a comma, up to the closing brace. -/
inductive MoreMembers : (text : List Char) → List (Option String × Written) → Prop
  | done {a : List Char} : Space a → MoreMembers a []
  | more {a b m more : List Char} {e : Option String × Written}
      {es : List (Option String × Written)} : Space a → Space b → Member m e →
      MoreMembers more es → MoreMembers (a ++ ',' :: (b ++ (m ++ more))) (e :: es)

end

/-- A whole text: one value with space around it, and nothing else. -/
inductive Document : (text : List Char) → Written → Prop
  | mk {a v b : List Char} {w : Written} : Space a → Value v w → Space b →
      Document (a ++ (v ++ b)) w

/-! ## Strings -/

theorem IsCode.hex4? {a b c d : Char} {n : Nat} (h : IsCode a b c d n) :
    hex4? a b c d = some n := by
  obtain ⟨i, j, k, l, ha, hb, hc, hd, rfl⟩ := h
  simp [Written.hex4?, TenantRegistry.Number.ofDigits?, TenantRegistry.Number.digitsOnto,
    ha.digitValue?, hb.digitValue?, hc.digitValue?, hd.digitValue?]

theorem pair?_of_not_lead {n : Nat} (h : isLead n = false) (cs : List Char) :
    pair? n cs = none := by
  unfold pair?
  split
  · split
    · rw [h]; rfl
    · rfl
  · rfl

/-- Reading an element spends one unit of the budget. -/
theorem Element.stringRest {e : List Char} {c : Char} (h : Element e c) (b : Char)
    (budget rest : List Char) :
    stringRest (b :: budget) (e ++ rest) = stringRest.prepend c (stringRest budget rest) := by
  cases h with
  | unescaped hquote hslash hcode => exact Grammar.stringRest_plain hquote hslash (by omega) b budget rest
  | escaped hmark =>
    simp only [escapes, List.mem_cons, Prod.mk.injEq, List.not_mem_nil, or_false] at hmark
    rcases hmark with ⟨rfl, rfl⟩ | ⟨rfl, rfl⟩ | ⟨rfl, rfl⟩ | ⟨rfl, rfl⟩ | ⟨rfl, rfl⟩ | ⟨rfl, rfl⟩ |
      ⟨rfl, rfl⟩ | ⟨rfl, rfl⟩ <;> rfl
  | @code a b' c d n hn hcode =>
    have hlead : isLead n = false := by
      simp only [isLead, Bool.and_eq_false_iff, decide_eq_false_iff_not]
      omega
    have htrail : isTrail n = false := by
      simp only [isTrail, Bool.and_eq_false_iff, decide_eq_false_iff_not]
      omega
    simp only [List.cons_append, List.nil_append, Written.stringRest, hn.hex4?,
      pair?_of_not_lead hlead, hlead, htrail]
    rfl
  | @pair a b' c d e f g h lead trail hlead htrail hleads htrails =>
    have hpair : pair? lead ('\\' :: 'u' :: e :: f :: g :: h :: rest) =
        some (Utf16.pair lead trail, rest) := by
      simp [pair?, htrail.hex4?, isLead, isTrail, hleads, htrails]
    simp only [List.cons_append, List.nil_append, Written.stringRest, hlead.hex4?, hpair]
    rfl

theorem Element.length_pos {e : List Char} {c : Char} (h : Element e c) : 0 < e.length := by
  cases h <;> simp

theorem Chars.length_le {v cs : List Char} (h : Chars v cs) : cs.length ≤ v.length := by
  induction h with
  | nil => exact le_rfl
  | cons he _ ih =>
    have hpos := he.length_pos
    rw [List.length_cons, List.length_append]
    omega

theorem Chars.stringRest {v cs budget : List Char} (h : Chars v cs)
    (hbudget : cs.length < budget.length) (rest : List Char) :
    stringRest budget (v ++ '"' :: rest) = some (some cs, rest) := by
  induction h generalizing budget with
  | nil =>
    obtain ⟨b, budget, rfl⟩ := List.exists_cons_of_length_pos (Nat.zero_lt_of_lt hbudget)
    rfl
  | cons he _ ih =>
    obtain ⟨b, budget, rfl⟩ := List.exists_cons_of_length_pos (Nat.zero_lt_of_lt hbudget)
    rw [List.append_assoc, he.stringRest, ih (Nat.lt_of_succ_lt_succ hbudget)]
    rfl

theorem Chars.takeString {v cs : List Char} (h : Chars v cs) (rest : List Char) :
    takeString (v ++ '"' :: rest) = some (some (String.ofList cs), rest) := by
  have hlength := h.length_le
  rw [Written.takeString, h.stringRest (by rw [List.length_append, List.length_cons]; omega)]
  rfl

/-! ## Numbers -/

theorem Fraction.takePlaces {f places rest : List Char} (h : Fraction f places)
    (hdigit : NoDigit rest) (hpoint : ∀ c ∈ rest.head?, c ≠ '.') :
    takePlaces (f ++ rest) = some (places, rest) := by
  cases h with
  | absent => exact Grammar.takePlaces_of_ne hpoint
  | places hdigits => exact Grammar.takePlaces_digits hdigits hdigit

theorem Exponent.takeExponent {e rest : List Char} {x : Option (Bool × List Char)}
    (h : Exponent e x) (hrest : EndsNumber rest) : takeExponent (e ++ rest) = some (x, rest) := by
  cases h with
  | absent => exact Grammar.takeExponent_of_endsNumber hrest
  | power hc hsign hdigits =>
    obtain ⟨hnone, hplus, hminus⟩ :=
      Grammar.takeExponent_digits hc hdigits fun c hc => (hrest c hc).1
    simp only [List.cons_append, List.append_assoc]
    cases hsign with
    | absent => exact hnone
    | plus => exact hplus
    | minus => exact hminus

/-! ## The grammar again -/

theorem hexDigit_grammar {c : Char} {n : Nat} (h : IsHexDigit c n) : Grammar.IsHexDigit c :=
  Grammar.exists_digitValue?_iff.mp ⟨n, h.digitValue?⟩

theorem IsCode.grammar {a b c d : Char} {n : Nat} (h : IsCode a b c d n) :
    Grammar.Element ['\\', 'u', a, b, c, d] := by
  obtain ⟨i, j, k, l, ha, hb, hc, hd, -⟩ := h
  exact .hex (hexDigit_grammar ha) (hexDigit_grammar hb) (hexDigit_grammar hc) (hexDigit_grammar hd)

theorem Chars.grammar {v cs : List Char} (h : Chars v cs) : Grammar.Chars v := by
  induction h with
  | nil => exact .nil
  | cons he _ ih =>
    cases he with
    | unescaped hquote hslash hcode => exact .cons (.unescaped hquote hslash hcode) ih
    | @escaped mark c hmark =>
      refine .cons (.escaped ?_) ih
      exact List.mem_map_of_mem (f := Prod.fst) hmark
    | code hn _ => exact .cons hn.grammar ih
    | pair hlead htrail _ _ =>
      have hchars := Grammar.Chars.cons hlead.grammar (.cons htrail.grammar ih)
      exact hchars

theorem Text.grammar {v : List Char} {s : String} (h : Text v s) : Grammar.Text v :=
  let ⟨hchars⟩ := h
  .mk hchars.grammar

theorem Fraction.grammar {f places : List Char} (h : Fraction f places) : Grammar.Fraction f := by
  cases h with
  | absent => exact .absent
  | places hdigits => exact .places hdigits

theorem Exponent.grammar {e : List Char} {x : Option (Bool × List Char)} (h : Exponent e x) :
    Grammar.Exponent e := by
  cases h with
  | absent => exact .absent
  | power he hsign hdigits =>
    cases hsign with
    | absent => exact .power he .absent hdigits
    | plus => exact .power he .plus hdigits
    | minus => exact .power he .minus hdigits

theorem Number.grammar {v : List Char} {n : NumberText} (h : Number v n) : Grammar.Number v := by
  cases h with
  | positive hw hf he => exact .positive (.mk hw hf.grammar he.grammar)
  | negative hw hf he => exact .negative (.mk hw hf.grammar he.grammar)

mutual

theorem Value.grammar : ∀ {v : List Char} {w : Written}, Value v w → Grammar.Value v
  | _, _, .null => .word List.mem_cons_self
  | _, _, .true => .word (by decide)
  | _, _, .false => .word (by decide)
  | _, _, .number h => .number h.grammar
  | _, _, .string h => .string h.grammar
  | _, _, .emptyArray ha => .emptyArray ha
  | _, _, .array ha hv hmore => .array ha hv.grammar hmore.grammar
  | _, _, .emptyObject ha => .emptyObject ha
  | _, _, .object ha hm hmore => .object ha hm.grammar hmore.grammar

theorem MoreItems.grammar : ∀ {more : List Char} {ws : List Written}, MoreItems more ws →
    Grammar.MoreItems more
  | _, _, .done ha => .done ha
  | _, _, .more ha hb hv hmore => .more ha hb hv.grammar hmore.grammar

theorem Member.grammar : ∀ {m : List Char} {e : Option String × Written}, Member m e →
    Grammar.Member m
  | _, _, .mk hk ha hb hv => .mk hk.grammar ha hb hv.grammar

theorem MoreMembers.grammar : ∀ {more : List Char} {es : List (Option String × Written)},
    MoreMembers more es → Grammar.MoreMembers more
  | _, _, .done ha => .done ha
  | _, _, .more ha hb hm hmore => .more ha hb hm.grammar hmore.grammar

end

/-! ## Reading values -/

/-- A number is read as what it writes, if what follows does not go on with it. -/
theorem Number.takeNumber {v rest : List Char} {n : NumberText} (h : Number v n)
    (hrest : EndsNumber rest) : takeNumber (v ++ rest) = some (n, rest) := by
  have hread {w f e places : List Char} {x : Option (Bool × List Char)} (hw : Whole w)
      (hf : Fraction f places) (he : Exponent e x) :
      Written.takeNumber (w ++ (f ++ e) ++ rest) = some (⟨false, w, places, x⟩, rest) ∧
        Written.takeNumber ('-' :: (w ++ (f ++ e) ++ rest)) =
          some (⟨true, w, places, x⟩, rest) := by
    have hhead := he.grammar.append_head hrest
    have hminus := (Grammar.Unsigned.mk hw hf.grammar he.grammar).head_ne_minus rest
    have hwhole := hw.takeWhole (hf.grammar.noDigit_append he.grammar hrest)
    simp only [List.append_assoc] at hminus ⊢
    exact Grammar.takeNumber_of_parts hminus hwhole
      (hf.takePlaces (fun c hc => (hhead c hc).1) fun c hc => (hhead c hc).2)
      (he.takeExponent hrest)
  cases h with
  | positive hw hf he => exact (hread hw hf he).1
  | negative hw hf he => exact (hread hw hf he).2

mutual

theorem Value.takeValue : ∀ {v rest : List Char} {w : Written} (fuel : Nat), Value v w →
    EndsNumber rest → 2 * v.length ≤ fuel → takeValue fuel (v ++ rest) = some (w, rest)
  | v, rest, w, 0, h, _, hfuel => by
    obtain ⟨c, cs, rfl, -⟩ := h.grammar.exists_cons
    rw [List.length_cons] at hfuel
    omega
  | _, rest, _, fuel + 1, .null, _, _ => rfl
  | _, rest, _, fuel + 1, .true, _, _ => rfl
  | _, rest, _, fuel + 1, .false, _, _ => rfl
  | _, rest, _, fuel + 1, .number h, hrest, _ =>
    Grammar.takeValue_of_takeNumber h.grammar (h.takeNumber hrest)
  | _, rest, _, fuel + 1, .string h, _, _ => by
    obtain ⟨h⟩ := h
    exact Grammar.takeValue_of_takeString (h.takeString rest)
  | _, rest, _, fuel + 1, .emptyArray ha, _, _ => Grammar.takeValue_emptyArray ha
  | _, rest, _, fuel + 1, @Value.array a v more w ws ha hv hmore, _, hfuel => by
    simp only [List.length_cons, List.length_append, List.length_nil] at hfuel
    have hx := hv.takeValue fuel (hmore.grammar.endsNumber rest) (by omega)
    have hxs := hmore.takeItems rest fuel (by omega)
    exact Grammar.takeValue_array ha hv.grammar hx hxs
  | _, rest, _, fuel + 1, .emptyObject ha, _, _ => Grammar.takeValue_emptyObject ha
  | _, rest, _, fuel + 1, @Value.object a m more e es ha hm hmore, _, hfuel => by
    simp only [List.length_cons, List.length_append, List.length_nil] at hfuel
    have hx := hm.takeEntry fuel (hmore.grammar.endsNumber rest) (by omega)
    have hxs := hmore.takeEntries rest fuel (by omega)
    exact Grammar.takeValue_object ha hm.grammar hx hxs

theorem MoreItems.takeItems : ∀ {more : List Char} {ws : List Written} (rest : List Char)
    (fuel : Nat), MoreItems more ws → 2 * (more.length + 1) ≤ fuel →
      takeItems fuel (more ++ ']' :: rest) = some (ws, rest)
  | _, _, rest, 0, _, hfuel => by omega
  | _, _, rest, fuel + 1, .done ha, _ => Grammar.takeItems_done ha
  | _, _, rest, fuel + 1, @MoreItems.more _ _ v more w ws ha hb hv hmore, hfuel => by
    simp only [List.length_cons, List.length_append] at hfuel
    have hx := hv.takeValue fuel (hmore.grammar.endsNumber rest) (by omega)
    have hxs := hmore.takeItems rest fuel (by omega)
    exact Grammar.takeItems_more ha hb hx hxs

theorem Member.takeEntry : ∀ {m rest : List Char} {e : Option String × Written} (fuel : Nat),
    Member m e → EndsNumber rest → 2 * m.length ≤ fuel →
      takeEntry fuel (m ++ rest) = some (e, rest)
  | _, rest, _, 0, h, _, hfuel => by
    obtain ⟨cs, rfl⟩ := h.grammar.exists_cons
    rw [List.length_cons] at hfuel
    omega
  | _, rest, _, fuel + 1, @Member.mk _ a b v _ _ hk ha hb hv, hrest, hfuel => by
    simp only [List.length_cons, List.length_append] at hfuel
    have hx := hv.takeValue fuel hrest (by omega)
    obtain ⟨hk⟩ := hk
    exact Grammar.takeEntry_of_takeString ha hb (hk.takeString (a ++ ':' :: (b ++ (v ++ rest)))) hx

theorem MoreMembers.takeEntries : ∀ {more : List Char} {es : List (Option String × Written)}
    (rest : List Char) (fuel : Nat), MoreMembers more es → 2 * (more.length + 1) ≤ fuel →
      takeEntries fuel (more ++ '\x7d' :: rest) = some (es, rest)
  | _, _, rest, 0, _, hfuel => by omega
  | _, _, rest, fuel + 1, .done ha, _ => Grammar.takeEntries_done ha
  | _, _, rest, fuel + 1, @MoreMembers.more _ _ m more e es ha hb hm hmore, hfuel => by
    simp only [List.length_cons, List.length_append] at hfuel
    have hx := hm.takeEntry fuel (hmore.grammar.endsNumber rest) (by omega)
    have hxs := hmore.takeEntries rest fuel (by omega)
    exact Grammar.takeEntries_more ha hb hx hxs

end

/-! ## Whole texts -/

/-- A text is read as what it writes. -/
theorem ofText?_of_document {cs : List Char} {w : Written} (h : Document cs w) :
    ofText? cs = some w := by
  obtain ⟨ha, hv, hb⟩ := h
  rename_i a v b
  have hends : EndsNumber b := by
    have hnone : EndsNumber [] := fun c hc => by cases hc
    simpa using Grammar.endsNumber_space hb hnone
  have hread := hv.takeValue (2 * (a ++ (v ++ b)).length + 2) hends
    (by simp only [List.length_append]; omega)
  have hempty : skipSpace b = [] := List.isEmpty_iff.mp (Grammar.skipSpace_eq_nil.mpr hb)
  rw [ofText?, Grammar.takeValue_space ha, hread]
  simp [hempty]

end TenantRegistry.Json.Spelling
