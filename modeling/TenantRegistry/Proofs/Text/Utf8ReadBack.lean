import Mathlib
import TenantRegistry.Text.Utf8

/-!
UTF-8 is read back: `decode_encode`.

A character is written by one to four octets, and reading takes exactly these, whatever follows
them. The range that a first octet leaves for the second one excludes nothing that is written,
since no character is a surrogate or above U+10FFFF.
-/

namespace TenantRegistry.Utf8

/-! ## Octets of a character -/

/-- Each octet after the first adds six bits. -/
theorem tails_succ {n low high payload taken d : Nat} (hd : d < 64) (hlow : low ≤ 0x80 + d)
    (hhigh : 0x80 + d ≤ high) (rest : List UInt8) :
    tails (n + 1) low high payload taken ((0x80 + d).toUInt8 :: rest) =
      tails n 0x80 0xBF (payload * 64 + d) (taken + 1) rest := by
  have hoctet : (0x80 + d).toUInt8.toNat = 0x80 + d := by
    rw [UInt8.toNat_ofNat']
    omega
  have hbits : (0x80 + d) % 64 = d := by omega
  rw [tails, hoctet, if_pos ⟨hlow, hhigh⟩, hbits]

theorem lead?_of_one {q : Nat} (h : q < 0x80) : lead? q = some ⟨0, q, 0x80, 0xBF⟩ := by
  rw [lead?, if_pos h]

theorem lead?_of_two {q : Nat} (hlow : 2 ≤ q) (hhigh : q < 32) :
    lead? (0xC0 + q) = some ⟨1, q, 0x80, 0xBF⟩ := by
  rw [lead?, if_neg (by omega), if_neg (by omega), if_pos (by omega), Nat.add_sub_cancel_left]

theorem lead?_of_three {q : Nat} (h : q < 16) :
    lead? (0xE0 + q) =
      some ⟨2, q, if q = 0 then 0xA0 else 0x80, if q = 0xD then 0x9F else 0xBF⟩ := by
  interval_cases q <;> rfl

theorem lead?_of_four {q : Nat} (h : q ≤ 4) :
    lead? (0xF0 + q) =
      some ⟨3, q, if q = 0 then 0x90 else 0x80, if q = 4 then 0x8F else 0xBF⟩ := by
  interval_cases q <;> rfl

theorem decodeChar_of_lead {n count payload low high : Nat} (hn : n < 256)
    (hl : lead? n = some ⟨count, payload, low, high⟩) (rest : List UInt8) :
    decodeChar n.toUInt8 rest =
      (tails count low high payload 1 rest).map fun (n, rest) => (Char.ofNat n, rest) := by
  have hoctet : n.toUInt8.toNat = n := by
    rw [UInt8.toNat_ofNat']
    omega
  rw [decodeChar, hoctet, hl]

/-- Reading takes the octets of a character and gives the character. -/
theorem decodeChar_encodeChar (c : Char) (rest : List UInt8) :
    ∃ b bs, encodeChar c = b :: bs ∧ decodeChar b (bs ++ rest) = .ok (c, rest) := by
  have hvalid : c.toNat < 0xD800 ∨ 0xDFFF < c.toNat ∧ c.toNat < 0x110000 := c.valid
  unfold encodeChar
  by_cases hone : c.toNat < 0x80
  · rw [if_pos hone]
    refine ⟨_, _, rfl, ?_⟩
    rw [decodeChar_of_lead (by omega) (lead?_of_one hone)]
    simp only [tails, List.nil_append, Except.map, Char.ofNat_toNat]
  by_cases htwo : c.toNat < 0x800
  · rw [if_neg hone, if_pos htwo]
    refine ⟨_, _, rfl, ?_⟩
    have hcode : c.toNat / 64 * 64 + c.toNat % 64 = c.toNat := by omega
    rw [decodeChar_of_lead (by omega) (lead?_of_two (by omega) (by omega)), List.cons_append,
      tails_succ (by omega) (by omega) (by omega), hcode]
    simp only [tails, List.nil_append, Except.map, Char.ofNat_toNat]
  by_cases hthree : c.toNat < 0x10000
  · rw [if_neg hone, if_neg htwo, if_pos hthree]
    refine ⟨_, _, rfl, ?_⟩
    have hcode : (c.toNat / 4096 * 64 + c.toNat / 64 % 64) * 64 + c.toNat % 64 = c.toNat := by
      omega
    rw [decodeChar_of_lead (by omega) (lead?_of_three (by omega)), List.cons_append,
      tails_succ (by omega) (by split <;> omega) (by split <;> omega),
      List.cons_append, tails_succ (by omega) (by omega) (by omega), hcode]
    simp only [tails, List.nil_append, Except.map, Char.ofNat_toNat]
  · rw [if_neg hone, if_neg htwo, if_neg hthree]
    refine ⟨_, _, rfl, ?_⟩
    have hcode : ((c.toNat / 262144 * 64 + c.toNat / 4096 % 64) * 64 + c.toNat / 64 % 64) * 64 +
        c.toNat % 64 = c.toNat := by
      omega
    rw [decodeChar_of_lead (by omega) (lead?_of_four (by omega)), List.cons_append,
      tails_succ (by omega) (by split <;> omega) (by split <;> omega),
      List.cons_append, tails_succ (by omega) (by omega) (by omega), List.cons_append,
      tails_succ (by omega) (by omega) (by omega), hcode]
    simp only [tails, List.nil_append, Except.map, Char.ofNat_toNat]

/-! ## Octets of a text -/

theorem encode_cons (c : Char) (cs : List Char) : encode (c :: cs) = encodeChar c ++ encode cs :=
  List.flatMap_cons

theorem decodeFrom_encode (cs : List Char) {fuel : Nat} (position : Nat)
    (hfuel : (encode cs).length ≤ fuel) : decodeFrom fuel position (encode cs) = .ok cs := by
  induction cs generalizing fuel position with
  | nil => rw [encode, List.flatMap_nil, decodeFrom]
  | cons c cs ih =>
    obtain ⟨b, bs, hoctets, hread⟩ := decodeChar_encodeChar c (encode cs)
    rw [encode_cons, hoctets, List.cons_append] at hfuel ⊢
    obtain ⟨fuel, rfl⟩ : ∃ rest, fuel = rest + 1 := Nat.exists_eq_succ_of_ne_zero (by
      rw [List.length_cons] at hfuel
      omega)
    have hrest : (encode cs).length ≤ fuel := by
      rw [List.length_cons, List.length_append] at hfuel
      omega
    rw [decodeFrom, hread]
    simp only [ih _ hrest]
    rfl

/-- The octets of a text are read as the text. -/
theorem decode_encode (cs : List Char) : decode (encode cs) = .ok cs :=
  decodeFrom_encode cs 0 le_rfl

theorem toString?_ofString (s : String) : toString? (ofString s) = some s := by
  rw [toString?, ofString, decode_encode]
  simp only [String.ofList_toList]

/-! ## ASCII -/

variable {cs : List Char}

theorem encode_of_lt (h : ∀ c ∈ cs, c.toNat < 0x80) : encode cs = cs.map (·.toNat.toUInt8) := by
  rw [encode, List.map_eq_flatMap]
  exact List.flatMap_congr fun c hc => by rw [encodeChar, if_pos (h c hc)]

end TenantRegistry.Utf8
