import Mathlib
import TenantRegistry.Tenant
import TenantRegistry.Text.Pieces
import TenantRegistry.Proofs.Text.Trimmed
import TenantRegistry.Proofs.Text.Utf8ReadBack

/-!
The language of tenant headers.

What makes a tenant is said of the octets of a header as they are received: its name in any case,
the blanks around its value, and an ID between them. A tenant is read from headers exactly if they
submit one in this sense; a refusal says whether there was a tenant header at all. An ID has no
character that separates tenants or parts of a path, and is read from a header of its own as itself.
Main statement: `submitted_tenants`.
-/

namespace TenantRegistry.Tenant

/-! ## The language -/

/-- An octet writes a character; letters have two cases. -/
def WritesChar (b : UInt8) (c : Char) : Prop :=
  b.toNat = c.toNat ∨ 'a' ≤ c ∧ c ≤ 'z' ∧ b.toNat + 32 = c.toNat

/-- The header is `X-Scope-OrgID`, its letters in any case. -/
def IsTenantHeader (h : Header) : Prop :=
  List.Forall₂ WritesChar h.name "x-scope-orgid".toList

/-- A space or a tab. -/
def IsBlankOctet (b : UInt8) : Prop :=
  b = 0x20 ∨ b = 0x09

/-- A visible character of ASCII, a space or a tab. -/
def IsPlainOctet (b : UInt8) : Prop :=
  (0x21 ≤ b.toNat ∧ b.toNat ≤ 0x7E) ∨ IsBlankOctet b

/-- `core` is what is left of a value without the blanks at its ends. -/
def IsCore (value core : List UInt8) : Prop :=
  ∃ before after, value = before ++ core ++ after ∧ (∀ b ∈ before ++ after, IsBlankOctet b) ∧
    (∀ b ∈ core.head?, ¬ IsBlankOctet b) ∧ ∀ b ∈ core.getLast?, ¬ IsBlankOctet b

/-- An ASCII letter, a digit, or one of eight marks. -/
def IsIdChar (c : Char) : Prop :=
  ('a' ≤ c ∧ c ≤ 'z') ∨ ('A' ≤ c ∧ c ≤ 'Z') ∨ ('0' ≤ c ∧ c ≤ '9') ∨
    c ∈ ['!', '-', '_', '.', '*', '\'', '(', ')']

/-- An ID of a tenant. -/
structure IsId (t : String) : Prop where
  length : 1 ≤ t.length ∧ t.length ≤ 150
  chars : ∀ c ∈ t.toList, IsIdChar c
  ne_dot : t ≠ "."
  ne_dots : t ≠ ".."

/-- Exactly one of the headers is a tenant header, all octets of its value are plain, and what is
left of it without the blanks at its ends is the ID `t`. -/
def Submits (headers : List Header) (t : String) : Prop :=
  ∃ earlier h later, headers = earlier ++ h :: later ∧ IsTenantHeader h ∧
    (∀ other ∈ earlier ++ later, ¬ IsTenantHeader other) ∧ (∀ b ∈ h.value, IsPlainOctet b) ∧
    IsCore h.value (Utf8.ofString t) ∧ IsId t

/-- What separates the tenants of a list or the parts of a path, a query or a header. -/
def separators : List Char :=
  ['|', '/', '\\', ',', ';', ':', '&', '=', '?', '#', '%', ' ', '\t']

/-! ## Names of headers -/

theorem toNat_toLower (c : Char) :
    c.toLower.toNat = if 65 ≤ c.toNat ∧ c.toNat ≤ 90 then c.toNat + 32 else c.toNat := by
  unfold Char.toLower
  have hcode : c.val.toNat = c.toNat := rfl
  have hiff : (c.val ≥ 'A'.val ∧ c.val ≤ 'Z'.val) ↔ 65 ≤ c.toNat ∧ c.toNat ≤ 90 := by
    rw [ge_iff_le, UInt32.le_iff_toNat_le, UInt32.le_iff_toNat_le]
    rfl
  split
  · next h =>
    rw [if_pos (hiff.mp h)]
    obtain ⟨hlow, hhigh⟩ := hiff.mp h
    show (c.val + ('a'.val - 'A'.val)).toNat = c.toNat + 32
    rw [UInt32.toNat_add, hcode]
    show (c.toNat + 32) % 4294967296 = c.toNat + 32
    omega
  · next h => rw [if_neg fun hrange => h (hiff.mpr hrange)]

theorem toNat_octetChar (b : UInt8) : (octetChar b).toNat = b.toNat := by
  have hvalid : b.toNat.isValidChar := .inl (by have := b.toNat_lt; omega)
  rw [octetChar, Char.ofNat, dif_pos hvalid]
  rfl

/-- A character that is no capital letter is what an octet is in lower case exactly if the octet
writes it. -/
theorem lower_octetChar_eq_iff {b : UInt8} {c : Char} (hc : ¬ (65 ≤ c.toNat ∧ c.toNat ≤ 90)) :
    (octetChar b).toLower = c ↔ WritesChar b c := by
  have hletter : ('a' ≤ c ∧ c ≤ 'z') ↔ 97 ≤ c.toNat ∧ c.toNat ≤ 122 := Iff.rfl
  rw [← Char.toNat_inj, toNat_toLower, toNat_octetChar, WritesChar, ← and_assoc, hletter]
  split <;> omega

theorem forall₂_iff_of_mem {α β : Type} {R S : α → β → Prop} {xs : List α} {ys : List β}
    (h : ∀ x, ∀ y ∈ ys, (R x y ↔ S x y)) : List.Forall₂ R xs ys ↔ List.Forall₂ S xs ys := by
  induction ys generalizing xs with
  | nil => rw [List.forall₂_nil_right_iff, List.forall₂_nil_right_iff]
  | cons y ys ih =>
    cases xs with
    | nil => simp
    | cons x xs =>
      rw [List.forall₂_cons, List.forall₂_cons, h x y List.mem_cons_self,
        ih fun x y hy => h x y (List.mem_cons_of_mem _ hy)]

theorem isTenantHeader_iff {h : Header} :
    (lowerOctets h.name == headerName.toList) = true ↔ IsTenantHeader h := by
  have hlower : ∀ c ∈ headerName.toList, ¬ (65 ≤ c.toNat ∧ c.toNat ≤ 90) := by
    simp [headerName]
  rw [beq_iff_eq, ← List.forall₂_eq_eq_eq, lowerOctets, List.forall₂_map_left_iff]
  exact forall₂_iff_of_mem fun b c hc => lower_octetChar_eq_iff (hlower c hc)

/-- There is one value exactly if there is one tenant header. -/
theorem values_eq_singleton_iff {headers : List Header} {value : List UInt8} :
    values headers = [value] ↔ ∃ earlier h later, headers = earlier ++ h :: later ∧
      IsTenantHeader h ∧ (∀ other ∈ earlier ++ later, ¬ IsTenantHeader other) ∧
      h.value = value := by
  simp only [values, List.map_eq_singleton_iff, List.filter_eq_cons_iff, List.filter_eq_nil_iff,
    isTenantHeader_iff, List.forall_mem_append]
  constructor
  · rintro ⟨h, ⟨earlier, later, heq, hearlier, hh, hlater⟩, hvalue⟩
    exact ⟨earlier, h, later, heq, hh, ⟨hearlier, hlater⟩, hvalue⟩
  · rintro ⟨earlier, h, later, heq, hh, ⟨hearlier, hlater⟩, hvalue⟩
    exact ⟨h, ⟨earlier, later, heq, hearlier, hh, hlater⟩, hvalue⟩

theorem values_eq_nil_iff {headers : List Header} :
    values headers = [] ↔ ∀ h ∈ headers, ¬ IsTenantHeader h := by
  simp only [values, List.map_eq_nil_iff, List.filter_eq_nil_iff, isTenantHeader_iff]

/-! ## Values of headers -/

theorem isReadable_iff {b : UInt8} : isReadable b = true ↔ IsPlainOctet b := by
  simp only [isReadable, IsPlainOctet, IsBlankOctet, Bool.or_eq_true, Bool.and_eq_true,
    beq_iff_eq, decide_eq_true_eq, UInt8.le_iff_toNat_le, UInt8.lt_iff_toNat_lt,
    ← UInt8.toNat_inj, UInt8.reduceToNat]
  omega

theorem isBlank_octetChar_iff {b : UInt8} (h : IsPlainOctet b) :
    Text.isBlank (octetChar b) = true ↔ IsBlankOctet b := by
  have hcases : ∀ b : UInt8, isReadable b = true →
      (Text.isBlank (octetChar b) = true ↔ b = 0x20 ∨ b = 0x09) := by decide +kernel
  exact hcases b (isReadable_iff.mpr h)

/-! ## IDs -/

theorem isTenantChar_iff {c : Char} : isTenantChar c = true ↔ IsIdChar c := by
  have hmarks : "!-_.*'()".toList = ['!', '-', '_', '.', '*', '\'', '(', ')'] := by decide
  simp only [isTenantChar, IsIdChar, hmarks, Char.isAlphanum, Char.isAlpha, Char.isUpper,
    Char.isLower, Char.isDigit, Bool.or_eq_true, Bool.and_eq_true, decide_eq_true_eq,
    List.contains_iff_mem, ge_iff_le, Char.le_def]
  tauto

theorem toNat_of_isIdChar {c : Char} (h : IsIdChar c) : 0x21 ≤ c.toNat ∧ c.toNat ≤ 0x7A := by
  have hrange {low high : Char} (hlow : low ≤ c) (hhigh : c ≤ high) :
      low.toNat ≤ c.toNat ∧ c.toNat ≤ high.toNat :=
    ⟨hlow, hhigh⟩
  rcases h with ⟨hlow, hhigh⟩ | ⟨hlow, hhigh⟩ | ⟨hlow, hhigh⟩ | hmark
  · obtain ⟨hlow, hhigh⟩ := hrange hlow hhigh
    exact ⟨le_trans (by decide) hlow, le_trans hhigh (by decide)⟩
  · obtain ⟨hlow, hhigh⟩ := hrange hlow hhigh
    exact ⟨le_trans (by decide) hlow, le_trans hhigh (by decide)⟩
  · obtain ⟨hlow, hhigh⟩ := hrange hlow hhigh
    exact ⟨le_trans (by decide) hlow, le_trans hhigh (by decide)⟩
  · simp only [List.mem_cons, List.not_mem_nil, or_false] at hmark
    rcases hmark with rfl | rfl | rfl | rfl | rfl | rfl | rfl | rfl <;> decide

theorem not_mem_separators_of_isIdChar {c : Char} (h : IsIdChar c) : c ∉ separators := by
  intro hsep
  simp only [separators, List.mem_cons, List.not_mem_nil, or_false] at hsep
  unfold IsIdChar at h
  rcases hsep with rfl | rfl | rfl | rfl | rfl | rfl | rfl | rfl | rfl | rfl | rfl | rfl | rfl <;>
    exact absurd h (by decide)

theorem isValid_iff {cs : List Char} : isValid cs = true ↔ IsId (String.ofList cs) := by
  have hdot : String.ofList cs ≠ "." ↔ cs ≠ ['.'] := by
    rw [ne_eq, ne_eq, ← String.toList_inj, String.toList_ofList]
    rfl
  have hdots : String.ofList cs ≠ ".." ↔ cs ≠ ['.', '.'] := by
    rw [ne_eq, ne_eq, ← String.toList_inj, String.toList_ofList]
    rfl
  have hmax : decide (cs.length ≤ maxLength) = true ↔ cs.length ≤ 150 := decide_eq_true_iff
  simp only [isValid, hmax, Bool.and_eq_true, Bool.not_eq_true', List.isEmpty_eq_false_iff,
    bne_iff_ne, List.all_eq_true, isTenantChar_iff, ← List.length_pos_iff]
  constructor
  · rintro ⟨⟨⟨⟨hpos, hmax⟩, hne⟩, hne'⟩, hchars⟩
    exact ⟨by rw [String.length_ofList]; exact ⟨hpos, hmax⟩,
      by rwa [String.toList_ofList], hdot.mpr hne, hdots.mpr hne'⟩
  · rintro ⟨hlength, hchars, hne, hne'⟩
    rw [String.length_ofList] at hlength
    rw [String.toList_ofList] at hchars
    exact ⟨⟨⟨hlength, hdot.mp hne⟩, hdots.mp hne'⟩, hchars⟩

/-! ## Octets of ASCII characters -/

theorem map_octetChar_encode {cs : List Char} (h : ∀ c ∈ cs, c.toNat < 0x80) :
    (Utf8.encode cs).map octetChar = cs := by
  have hback : ∀ c ∈ cs, octetChar c.toNat.toUInt8 = c := fun c hc => by
    have hoctet : c.toNat.toUInt8.toNat = c.toNat := by
      have := h c hc
      rw [UInt8.toNat_ofNat']
      omega
    rw [octetChar, hoctet, Char.ofNat_toNat]
  rw [Utf8.encode_of_lt h, List.map_map]
  exact (List.map_congr_left hback).trans (List.map_id cs)

theorem octetChar_injective : Function.Injective octetChar := fun b b' h =>
  UInt8.toNat_inj.mp (by rw [← toNat_octetChar, ← toNat_octetChar, h])

theorem forall_isBlank_map_iff {octets : List UInt8} (h : ∀ b ∈ octets, IsPlainOctet b) :
    (∀ c ∈ octets.map octetChar, Text.isBlank c = true) ↔ ∀ b ∈ octets, IsBlankOctet b := by
  rw [List.forall_mem_map]
  exact forall₂_congr fun b hb => isBlank_octetChar_iff (h b hb)

theorem forall_not_isBlank_map_iff {octet : Option UInt8} (h : ∀ b ∈ octet, IsPlainOctet b) :
    (∀ c ∈ octet.map octetChar, Text.isBlank c = false) ↔ ∀ b ∈ octet, ¬ IsBlankOctet b := by
  cases octet with
  | none => simp
  | some b => simp [← isBlank_octetChar_iff (h b rfl)]

/-- What is left of a value by trimming its characters is its core. -/
theorem isCore_iff {value core : List UInt8} (hplain : ∀ b ∈ value, IsPlainOctet b)
    (hne : core ≠ []) :
    IsCore value core ↔ Text.trimBy Text.isBlank (value.map octetChar) = core.map octetChar := by
  constructor
  · rintro ⟨before, after, rfl, hends, hhead, hlast⟩
    obtain ⟨⟨hbefore, hcore⟩, hafter⟩ := by simpa only [List.forall_mem_append] using hplain
    rw [List.map_append, List.map_append]
    refine Text.trimBy_append ?_ ?_ ?_ (by simpa using hne)
    · rw [← List.map_append]
      exact (forall_isBlank_map_iff (List.forall_mem_append.mpr ⟨hbefore, hafter⟩)).mpr hends
    · rw [List.head?_map]
      exact (forall_not_isBlank_map_iff fun b hb => hcore b (List.mem_of_mem_head? hb)).mpr hhead
    · rw [List.getLast?_map]
      exact (forall_not_isBlank_map_iff fun b hb => hcore b (List.mem_of_mem_getLast? hb)).mpr hlast
  · intro htrim
    obtain ⟨before, after, hvalue, hends, hhead, hlast⟩ :=
      Text.exists_trimBy Text.isBlank (value.map octetChar)
    rw [htrim] at hvalue hhead hlast
    obtain ⟨front, after, rfl, hfront, rfl⟩ := List.map_eq_append_iff.mp hvalue
    obtain ⟨before, core', rfl, rfl, hcore'⟩ := List.map_eq_append_iff.mp hfront
    obtain rfl : core' = core := octetChar_injective.list_map hcore'
    obtain ⟨⟨hbefore, hcore⟩, hafter⟩ := by simpa only [List.forall_mem_append] using hplain
    rw [← List.map_append] at hends
    rw [List.head?_map] at hhead
    rw [List.getLast?_map] at hlast
    exact ⟨before, after, rfl,
      (forall_isBlank_map_iff (List.forall_mem_append.mpr ⟨hbefore, hafter⟩)).mp hends,
      (forall_not_isBlank_map_iff fun b hb => hcore b (List.mem_of_mem_head? hb)).mp hhead,
      (forall_not_isBlank_map_iff fun b hb => hcore b (List.mem_of_mem_getLast? hb)).mp hlast⟩

/-! ## The tenant of a request -/

/-- There is one tenant header, and its value without blanks around it is the tenant `t`. -/
def Named (headers : List Header) (t : String) : Prop :=
  ∃ value cs, values headers = [value] ∧ valueText? value = some cs ∧
    isValid cs = true ∧ t = String.ofList cs

theorem ofHeaders_eq_ok_iff {headers : List Header} {uri t : String} :
    ofHeaders headers uri = .ok t ↔ Named headers t := by
  unfold ofHeaders Named
  constructor
  · intro h
    split at h
    · cases h
    · next value hvalues =>
      split at h
      · next cs hcs =>
        split at h
        · next hvalid => cases h; exact ⟨value, cs, hvalues, hcs, hvalid, rfl⟩
        · cases h
      · cases h
    · cases h
  · rintro ⟨value, cs, hvalues, hcs, hvalid, rfl⟩
    simp only [hvalues, hcs, hvalid, if_true]

theorem Named.unique {headers : List Header} {t t' : String} (h : Named headers t)
    (h' : Named headers t') : t = t' := by
  have hok : ofHeaders headers "" = .ok t := ofHeaders_eq_ok_iff.mpr h
  have hok' : ofHeaders headers "" = .ok t' := ofHeaders_eq_ok_iff.mpr h'
  exact Except.ok.inj (hok.symm.trans hok')

/-! ## Tenants that are submitted -/

theorem IsId.map_octetChar {t : String} (h : IsId t) :
    (Utf8.ofString t).map octetChar = t.toList :=
  map_octetChar_encode fun c hc => by
    have := toNat_of_isIdChar (h.chars c hc)
    omega

theorem IsId.ofString_ne_nil {t : String} (h : IsId t) : Utf8.ofString t ≠ [] := by
  have hlength : 0 < (Utf8.ofString t).length := by
    rw [← List.length_map octetChar, h.map_octetChar, String.length_toList]
    exact h.length.1
  exact List.ne_nil_of_length_pos hlength

/-- An ID is written with visible characters. -/
theorem IsId.visible {t : String} (h : IsId t) :
    ∀ b ∈ Utf8.ofString t, 0x21 ≤ b.toNat ∧ b.toNat ≤ 0x7E := by
  intro b hb
  have hmem : octetChar b ∈ t.toList := by
    rw [← h.map_octetChar]
    exact List.mem_map_of_mem hb
  have hcode := toNat_of_isIdChar (h.chars _ hmem)
  rw [toNat_octetChar] at hcode
  omega

theorem valueText?_eq_some_iff {value : List UInt8} {cs : List Char} :
    valueText? value = some cs ↔ (∀ b ∈ value, IsPlainOctet b) ∧
      Text.trimBy Text.isBlank (value.map octetChar) = cs := by
  simp [valueText?, List.all_eq_true, isReadable_iff]

/-- The tenant of headers is the one that they submit. -/
theorem named_iff_submits {headers : List Header} {t : String} :
    Named headers t ↔ Submits headers t := by
  constructor
  · rintro ⟨value, cs, hvalues, htext, hvalid, rfl⟩
    obtain ⟨earlier, h, later, heq, hh, hothers, rfl⟩ := values_eq_singleton_iff.mp hvalues
    obtain ⟨hplain, htrim⟩ := valueText?_eq_some_iff.mp htext
    have hid := isValid_iff.mp hvalid
    refine ⟨earlier, h, later, heq, hh, hothers, hplain, ?_, hid⟩
    rw [isCore_iff hplain hid.ofString_ne_nil, hid.map_octetChar, htrim, String.toList_ofList]
  · rintro ⟨earlier, h, later, heq, hh, hothers, hplain, hcore, hid⟩
    rw [isCore_iff hplain hid.ofString_ne_nil, hid.map_octetChar] at hcore
    refine ⟨h.value, t.toList, values_eq_singleton_iff.mpr ⟨earlier, h, later, heq, hh, hothers, rfl⟩,
      valueText?_eq_some_iff.mpr ⟨hplain, hcore⟩, isValid_iff.mpr ?_, String.ofList_toList.symm⟩
    rwa [String.ofList_toList]

example : Submits [⟨Utf8.ofString "X-Scope-OrgID", Utf8.ofString " acme-1\t"⟩] "acme-1" :=
  named_iff_submits.mp ((@ofHeaders_eq_ok_iff _ "/" _).mp (by decide +kernel))

/-- An ID is submitted by a header with nothing else in it. -/
theorem IsId.submits {t : String} (h : IsId t) {name : List UInt8}
    (hname : IsTenantHeader ⟨name, Utf8.ofString t⟩) : Submits [⟨name, Utf8.ofString t⟩] t := by
  have hnotBlank : ∀ b ∈ Utf8.ofString t, ¬ IsBlankOctet b := by
    rintro b hb (rfl | rfl)
    · exact absurd (h.visible _ hb).1 (by decide)
    · exact absurd (h.visible _ hb).1 (by decide)
  refine ⟨[], _, [], rfl, hname, by simp, fun b hb => .inl (h.visible b hb), ?_, h⟩
  exact ⟨[], [], by simp, by simp, fun b hb => hnotBlank b (List.mem_of_mem_head? hb),
    fun b hb => hnotBlank b (List.mem_of_mem_getLast? hb)⟩

/-- Headers that submit no tenant are refused, with a different problem if none of them is a tenant
header. -/
theorem ofHeaders_of_not_submits {headers : List Header} (uri : String)
    (h : ∀ t, ¬ Submits headers t) :
    ofHeaders headers uri =
      .error (.tenant (if values headers = [] then .missing else .invalid) uri) := by
  have hnone : ∀ t, ofHeaders headers uri ≠ .ok t := fun t hok =>
    h t (named_iff_submits.mp (ofHeaders_eq_ok_iff.mp hok))
  unfold ofHeaders at hnone ⊢
  split
  · next hnil => rw [if_pos hnil]
  · next value hone =>
    rw [if_neg (by simp [hone])]
    simp only [hone] at hnone
    split
    · next cs htext =>
      simp only [htext] at hnone
      split
      · next hvalid => exact absurd (by rw [if_pos hvalid]) (hnone (String.ofList cs))
      · rfl
    · rfl
  · next hnil _ => rw [if_neg hnil]

/-- Which headers are those of a tenant, and what is said of any others; what a tenant is read from
alone, and that it is in one piece. -/
theorem submitted_tenants (headers : List Header) (uri : String) :
    (∀ t, ofHeaders headers uri = .ok t ↔ Submits headers t) ∧
    (∀ e, ofHeaders headers uri = .error e →
      ((∀ h ∈ headers, ¬ IsTenantHeader h) ∧
        e.message = "missing tenant ID in request to " ++ uri) ∨
      ((∃ h ∈ headers, IsTenantHeader h) ∧
        e.message = "invalid tenant ID in request to " ++ uri)) ∧
    (∀ t, ofHeaders headers uri = .ok t →
      (∀ name uri', IsTenantHeader ⟨name, Utf8.ofString t⟩ →
        ofHeaders [⟨name, Utf8.ofString t⟩] uri' = .ok t) ∧
      Text.pieces (· ∈ separators) t.toList = [t.toList] ∧ (∀ c ∈ t.toList, c ∉ separators) ∧
      t ≠ "." ∧ t ≠ "..") := by
  have hok : ∀ headers uri t, ofHeaders headers uri = .ok t ↔ Submits headers t :=
    fun headers uri t => ofHeaders_eq_ok_iff.trans named_iff_submits
  refine ⟨hok headers uri, fun e he => ?_, fun t ht => ?_⟩
  · have hnone : ∀ t, ¬ Submits headers t := fun t ht => by
      rw [(hok headers uri t).mpr ht] at he
      cases he
    rw [ofHeaders_of_not_submits uri hnone] at he
    obtain rfl := Except.error.inj he
    by_cases hnil : values headers = []
    · rw [if_pos hnil]
      exact .inl ⟨values_eq_nil_iff.mp hnil, rfl⟩
    · rw [if_neg hnil]
      refine .inr ⟨?_, rfl⟩
      rw [values_eq_nil_iff] at hnil
      push Not at hnil
      exact hnil
  · obtain ⟨earlier, h, later, -, -, -, -, -, hid⟩ := (hok headers uri t).mp ht
    have hsep : ∀ c ∈ t.toList, c ∉ separators := fun c hc =>
      not_mem_separators_of_isIdChar (hid.chars c hc)
    exact ⟨fun name uri' hname => (hok _ uri' t).mpr (hid.submits hname),
      Text.pieces_of_forall_not fun c hc => decide_eq_false (hsep c hc), hsep, hid.ne_dot,
      hid.ne_dots⟩

end TenantRegistry.Tenant
