import Mathlib.Data.String.Basic
import Mathlib.Order.Lattice
import TenantRegistry.Text.Utf8

/-!
Texts compare as their octets do.

UTF-8 keeps the order of code points: the first octet of a character grows with it, and where the
first octets are the same the later ones decide. So the order of texts by characters and their
order by octets are one, `ofString_le_iff`.
-/

namespace TenantRegistry.Utf8

theorem octet_cons_lt {m n : Nat} {xs ys : List UInt8} (hn : n < 256)
    (h : m < n ∨ m = n ∧ xs < ys) : m.toUInt8 :: xs < n.toUInt8 :: ys := by
  rcases h with h | ⟨rfl, h⟩
  · refine List.cons_lt_cons_iff.mpr (.inl ?_)
    rw [UInt8.lt_iff_toNat_lt]
    show m % 256 < n % 256
    omega
  · exact List.cons_lt_cons_iff.mpr (.inr ⟨rfl, h⟩)

/-- The later octets of two characters, from the last digit of 64 on. -/
theorem tail_lt {m n : Nat} (h : m % 64 < n % 64) (xs ys : List UInt8) :
    (0x80 + m % 64).toUInt8 :: xs < (0x80 + n % 64).toUInt8 :: ys :=
  octet_cons_lt (by omega) (.inl (by omega))

/-- A smaller character has the smaller octets, whatever follows. -/
theorem encodeChar_append_lt {c d : Char} (h : c < d) (xs ys : List UInt8) :
    encodeChar c ++ xs < encodeChar d ++ ys := by
  have hlt : c.toNat < d.toNat := h
  have hvalid : d.toNat < 0x110000 := by
    rcases d.valid with hd | ⟨_, hd⟩
    · exact Nat.lt_trans hd (by decide)
    · exact hd
  unfold encodeChar
  generalize c.toNat = m at hlt ⊢
  generalize d.toNat = n at hlt hvalid ⊢
  -- A character of fewer octets has the smaller first one; of as many, its digits compare.
  by_cases h1 : n < 0x80
  · simp only [if_pos h1, if_pos (hlt.trans h1)]
    exact octet_cons_lt (by omega) (.inl hlt)
  simp only [if_neg h1]
  by_cases h2 : n < 0x800
  · simp only [if_pos h2, if_pos (hlt.trans h2)]
    split
    · exact octet_cons_lt (by omega) (.inl (by omega))
    · refine octet_cons_lt (by omega) ?_
      by_cases hhigh : m / 64 < n / 64
      · exact .inl (by omega)
      · exact .inr ⟨by omega, tail_lt (by omega) _ _⟩
  simp only [if_neg h2]
  by_cases h3 : n < 0x10000
  · simp only [if_pos h3, if_pos (hlt.trans h3)]
    split
    · exact octet_cons_lt (by omega) (.inl (by omega))
    split
    · exact octet_cons_lt (by omega) (.inl (by omega))
    · refine octet_cons_lt (by omega) ?_
      by_cases hhigh : m / 4096 < n / 4096
      · exact .inl (by omega)
      refine .inr ⟨by omega, octet_cons_lt (by omega) ?_⟩
      by_cases hmiddle : m / 64 < n / 64
      · exact .inl (by omega)
      · exact .inr ⟨by omega, tail_lt (by omega) _ _⟩
  simp only [if_neg h3]
  split
  · exact octet_cons_lt (by omega) (.inl (by omega))
  split
  · exact octet_cons_lt (by omega) (.inl (by omega))
  split
  · exact octet_cons_lt (by omega) (.inl (by omega))
  · refine octet_cons_lt (by omega) ?_
    by_cases hhigh : m / 262144 < n / 262144
    · exact .inl (by omega)
    refine .inr ⟨by omega, octet_cons_lt (by omega) ?_⟩
    by_cases hupper : m / 4096 < n / 4096
    · exact .inl (by omega)
    refine .inr ⟨by omega, octet_cons_lt (by omega) ?_⟩
    by_cases hmiddle : m / 64 < n / 64
    · exact .inl (by omega)
    · exact .inr ⟨by omega, tail_lt (by omega) _ _⟩

theorem encodeChar_ne_nil (c : Char) : encodeChar c ≠ [] := by
  simp only [encodeChar]
  split
  · exact List.cons_ne_nil _ _
  split
  · exact List.cons_ne_nil _ _
  split <;> exact List.cons_ne_nil _ _

theorem append_lt_append_left {xs ys : List UInt8} (h : xs < ys) (zs : List UInt8) :
    zs ++ xs < zs ++ ys := by
  induction zs with
  | nil => exact h
  | cons z rest ih => exact List.cons_lt_cons_iff.mpr (.inr ⟨rfl, ih⟩)

theorem encode_lt {cs ds : List Char} (h : cs < ds) : encode cs < encode ds := by
  induction cs generalizing ds with
  | nil =>
    cases ds with
    | nil => exact absurd h (lt_irrefl _)
    | cons d rest =>
      show [] < encodeChar d ++ encode rest
      cases henc : encodeChar d with
      | nil => exact absurd henc (encodeChar_ne_nil d)
      | cons b bs => exact List.nil_lt_cons _ _
  | cons c cs ih =>
    cases ds with
    | nil => exact absurd h (List.not_lt_nil _)
    | cons d ds =>
      show encodeChar c ++ encode cs < encodeChar d ++ encode ds
      rcases List.cons_lt_cons_iff.mp h with hcd | ⟨rfl, hrest⟩
      · exact encodeChar_append_lt hcd _ _
      · exact append_lt_append_left (ih hrest) _

theorem ofString_lt {s t : String} (h : s < t) : ofString s < ofString t :=
  encode_lt (String.lt_iff_toList_lt.mp h)

theorem ofString_le_iff {s t : String} : ofString s ≤ ofString t ↔ s ≤ t := by
  constructor
  · intro h
    by_contra hnot
    exact h (ofString_lt (not_le.mp hnot))
  · intro h
    rcases lt_or_eq_of_le h with hlt | rfl
    · exact List.le_of_lt (ofString_lt hlt)
    · exact List.le_refl _

theorem ofString_lt_iff {s t : String} : ofString s < ofString t ↔ s < t :=
  ⟨fun h => not_le.mp fun hle => ofString_le_iff.mpr hle h, ofString_lt⟩

end TenantRegistry.Utf8
