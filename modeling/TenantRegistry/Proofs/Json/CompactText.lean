import TenantRegistry.Proofs.Json.Spelling

/-!
Compact texts are read as they were written.

A quoted string spells the string, and the decimal text of an integer the integer. So the compact
text of a value without floats spells the value, its entries in their order, and is read as that:
`ofText?_compact`.
-/

namespace TenantRegistry.Json

open Written

/-! ## Values as written -/

/-- An integer as it is written. -/
def NumberText.ofInt (n : Int) : NumberText :=
  ⟨decide (n < 0), Nat.toDigits 10 n.natAbs, [], none⟩

mutual

/-- No number of a value is a float. -/
def isFloatFree : Json → Bool
  | .null => true
  | .bool _ => true
  | .number (.integer _) => true
  | .number (.float _) => false
  | .string _ => true
  | .array items => itemsFloatFree items
  | .object entries => entriesFloatFree entries

def itemsFloatFree : List Json → Bool
  | [] => true
  | x :: xs => x.isFloatFree && itemsFloatFree xs

def entriesFloatFree : List (String × Json) → Bool
  | [] => true
  | (_, v) :: rest => v.isFloatFree && entriesFloatFree rest

end

mutual

/-- A value as its compact text writes it. Of floats nothing is said. -/
def written : Json → Written
  | .null => .null
  | .bool b => .bool b
  | .number (.integer n) => .number (.ofInt n)
  | .number (.float _) => .null
  | .string s => .string (some s)
  | .array items => .array (writtenItems items)
  | .object entries => .object (writtenEntries entries)

def writtenItems : List Json → List Written
  | [] => []
  | x :: xs => x.written :: writtenItems xs

def writtenEntries : List (String × Json) → List (Option String × Written)
  | [] => []
  | (k, v) :: rest => (some k, v.written) :: writtenEntries rest

end

namespace Spelling

open Grammar (Space Whole)
open TenantRegistry.Number (IsHexDigit)

/-! ## Strings -/

theorem isHexDigit_digitChar {n : Nat} (h : n < 16) : IsHexDigit (Nat.digitChar n) n :=
  ⟨h, .inl rfl⟩

theorem element_escape (c : Char) : Element (escape c) c := by
  unfold escape
  repeat' split
  -- Only the last two cases depend on the character.
  all_goals first | (subst_vars; exact .escaped (by simp [escapes])) | skip
  · next h =>
    have hcode : IsCode '0' '0' (Nat.digitChar (c.toNat / 16)) (Nat.digitChar (c.toNat % 16))
        c.toNat :=
      ⟨0, 0, c.toNat / 16, c.toNat % 16, isHexDigit_digitChar (by omega),
        isHexDigit_digitChar (by omega), isHexDigit_digitChar (by omega),
        isHexDigit_digitChar (by omega), by omega⟩
    have helement := Element.code hcode (.inl (by omega))
    rwa [Char.ofNat_toNat] at helement
  · next hquote hslash _ _ _ _ _ h => exact .unescaped hquote hslash (by omega)

theorem chars_flatMap_escape (cs : List Char) : Chars (cs.flatMap escape) cs := by
  induction cs with
  | nil => exact .nil
  | cons c cs ih =>
    rw [List.flatMap_cons]
    exact .cons (element_escape c) ih

theorem text_quote (s : String) : Text (quote s) s := by
  have htext := Text.mk (chars_flatMap_escape s.toList)
  rwa [String.ofList_toList] at htext

/-! ## Numbers -/

theorem isDigit_of_mem {n : Nat} {c : Char} (h : c ∈ Nat.toDigits 10 n) : c.isDigit = true :=
  Nat.isDigit_of_mem_toDigits (by decide) (by decide) h

theorem digitChar_ne_zero : ∀ n < 10, 0 < n → Nat.digitChar n ≠ '0' := by
  decide

theorem head_toDigits {n : Nat} (h : 0 < n) : ∃ c cs, Nat.toDigits 10 n = c :: cs ∧ c ≠ '0' := by
  induction n using Nat.strongRecOn with
  | ind n ih =>
    by_cases hn : n < 10
    · exact ⟨_, [], Nat.toDigits_of_lt_base hn, digitChar_ne_zero n hn h⟩
    · obtain ⟨c, cs, hdigits, hc⟩ := ih (n / 10) (by omega) (by omega)
      refine ⟨c, cs ++ [Nat.digitChar (n % 10)], ?_, hc⟩
      rw [Nat.toDigits_of_base_le (by decide) (by omega), hdigits, List.cons_append]

theorem whole_toDigits (n : Nat) : Whole (Nat.toDigits 10 n) := by
  by_cases hn : n = 0
  · subst hn
    exact .zero
  · obtain ⟨c, cs, hdigits, hc⟩ := head_toDigits (Nat.pos_of_ne_zero hn)
    rw [hdigits]
    refine .digits hc ⟨List.cons_ne_nil c cs, fun d hd => ?_⟩
    rw [← hdigits] at hd
    exact isDigit_of_mem hd

theorem number_decimal (n : Int) : Number (TenantRegistry.Number.decimal n) (.ofInt n) := by
  have hwhole := whole_toDigits n.natAbs
  unfold TenantRegistry.Number.decimal NumberText.ofInt
  split
  · next hneg =>
    have hnumber := Number.negative hwhole .absent .absent
    simpa [hneg] using hnumber
  · next hneg =>
    have hnumber := Number.positive hwhole .absent .absent
    simpa [hneg] using hnumber

/-! ## Values -/

theorem member_quote {v : List Char} {w : Written} (k : String) (h : Value v w) :
    Member (quote k ++ ':' :: v) (some k, w) :=
  .mk (text_quote k) Space.nil Space.nil h

mutual

theorem value_compact : ∀ (j : Json), j.isFloatFree = true → Value j.compact j.written
  | .null, _ => .null
  | .bool true, _ => .true
  | .bool false, _ => .false
  | .number (.integer n), _ => .number (number_decimal n)
  | .number (.float x), h => by cases h
  | .string s, _ => .string (text_quote s)
  | .array [], _ => .emptyArray Space.nil
  | .array (x :: xs), h => by
    rw [isFloatFree, itemsFloatFree, Bool.and_eq_true] at h
    obtain ⟨more, hmore, hitems⟩ := moreItems_compactItems xs h.2
    rw [compact, hitems]
    exact .array Space.nil (value_compact x h.1) hmore
  | .object [], _ => .emptyObject Space.nil
  | .object ((k, v) :: rest), h => by
    rw [isFloatFree, entriesFloatFree, Bool.and_eq_true] at h
    obtain ⟨more, hmore, hentries⟩ := moreMembers_compactEntries rest h.2
    have hvalue := Value.object Space.nil (member_quote k (value_compact v h.1)) hmore
    rw [compact, hentries, written, writtenEntries]
    simpa using hvalue

theorem moreItems_compactItems : ∀ (xs : List Json), itemsFloatFree xs = true →
    ∃ more, MoreItems more (writtenItems xs) ∧ compactItems xs = more ++ [']']
  | [], _ => ⟨[], .done Space.nil, rfl⟩
  | x :: xs, h => by
    rw [itemsFloatFree, Bool.and_eq_true] at h
    obtain ⟨more, hmore, hitems⟩ := moreItems_compactItems xs h.2
    refine ⟨_, .more Space.nil Space.nil (value_compact x h.1) hmore, ?_⟩
    rw [compactItems, hitems]
    simp

theorem moreMembers_compactEntries : ∀ (es : List (String × Json)), entriesFloatFree es = true →
    ∃ more, MoreMembers more (writtenEntries es) ∧ compactEntries es = more ++ ['\x7d']
  | [], _ => ⟨[], .done Space.nil, rfl⟩
  | (k, v) :: rest, h => by
    rw [entriesFloatFree, Bool.and_eq_true] at h
    obtain ⟨more, hmore, hentries⟩ := moreMembers_compactEntries rest h.2
    refine ⟨_, .more Space.nil Space.nil (member_quote k (value_compact v h.1)) hmore, ?_⟩
    rw [compactEntries, hentries]
    simp

end

/-- The compact text of a value without floats writes the value. -/
theorem document_compact {j : Json} (h : j.isFloatFree = true) : Document j.compact j.written := by
  have hdocument := Document.mk Space.nil (value_compact j h) Space.nil
  simpa using hdocument

end Spelling

/-- The compact text of a value without floats is read as the value. -/
theorem ofText?_compact {j : Json} (h : j.isFloatFree = true) :
    ofText? (compact j) = some j.written :=
  Spelling.ofText?_of_document (Spelling.document_compact h)

end TenantRegistry.Json
