import Mathlib
import TenantRegistry.Proofs.Text.Utf8ReadBack
import TenantRegistry.Proofs.Web.Routing
import TenantRegistry.Web.App

/-!
Names in paths.

A segment encodes some octets if every octet is there as itself or as `%` and two hexadecimal
digits. Whatever octets there are, a segment can encode them, and none of them gets in the way: the
target that the segment is part of is a path and nothing else, the segment is what the path names,
and reading it gives the octets back (`itemName_of_encodes`, `names_of_encodes`).
-/

namespace TenantRegistry.Web

namespace Percent

open Number (IsHexDigit)

/-! ## Encoding -/

/-- A visible ASCII character with no meaning of its own in a path. -/
def IsLiteral (c : Char) : Prop :=
  (0x21 ≤ c.toNat ∧ c.toNat ≤ 0x7E) ∧ c ∉ ['%', '/', '?', '#']

/-- A segment writes each octet as itself or as `%` and two digits. -/
inductive Encodes : (octets : List UInt8) → (segment : List Char) → Prop
  | nil : Encodes [] []
  | literal {c : Char} {octets : List UInt8} {segment : List Char} (hc : IsLiteral c)
      (h : Encodes octets segment) : Encodes (c.toNat.toUInt8 :: octets) (c :: segment)
  | octet {b : UInt8} {high low : Char} {octets : List UInt8} {segment : List Char}
      (hhigh : IsHexDigit high (b.toNat / 16)) (hlow : IsHexDigit low (b.toNat % 16))
      (h : Encodes octets segment) : Encodes (b :: octets) ('%' :: high :: low :: segment)

variable {octets : List UInt8} {segment : List Char}

/-- All octets can be encoded. -/
theorem encodes_flatMap (octets : List UInt8) : Encodes octets (octets.flatMap encodeOctet) := by
  induction octets with
  | nil => exact .nil
  | cons b octets ih =>
    have hlt := b.toNat_lt
    exact .octet ⟨by omega, .inr rfl⟩ ⟨by omega, .inr rfl⟩ ih

theorem Encodes.ne_nil (h : Encodes octets segment) (hne : octets ≠ []) : segment ≠ [] := by
  cases h with
  | nil => exact absurd rfl hne
  | literal => exact List.cons_ne_nil _ _
  | octet => exact List.cons_ne_nil _ _

theorem plain_of_isHexDigit {c : Char} {n : Nat} (h : IsHexDigit c n) :
    c.toNat < 0x80 ∧ c ∉ ['/', '?', '#'] := by
  have hdigits : ∀ n < 16, (n.digitChar.toNat < 0x80 ∧ n.digitChar ∉ ['/', '?', '#']) ∧
      n.digitChar.toUpper.toNat < 0x80 ∧ n.digitChar.toUpper ∉ ['/', '?', '#'] := by
    decide +kernel
  obtain ⟨hn, rfl | rfl⟩ := h
  · exact (hdigits n hn).1
  · exact (hdigits n hn).2

theorem toNat_octet {c : Char} (h : c.toNat < 0x80) : c.toNat.toUInt8.toNat = c.toNat := by
  rw [UInt8.toNat_ofNat']
  omega

theorem hexValue?_of_isHexDigit {c : Char} {n : Nat} (h : IsHexDigit c n) :
    hexValue? c.toNat.toUInt8 = some n := by
  rw [hexValue?, toNat_octet (plain_of_isHexDigit h).1, Char.ofNat_toNat, h.digitValue?]

theorem IsLiteral.plain {c : Char} (h : IsLiteral c) : c.toNat < 0x80 ∧ c ∉ ['/', '?', '#'] :=
  ⟨by have := h.1; omega, fun hc => h.2 (List.mem_cons_of_mem _ hc)⟩

/-- A segment is ASCII without a slash, a question mark or a hash. -/
theorem Encodes.plain (h : Encodes octets segment) :
    ∀ c ∈ segment, c.toNat < 0x80 ∧ c ∉ ['/', '?', '#'] := by
  induction h with
  | nil => exact fun c hc => absurd hc List.not_mem_nil
  | literal hc _ ih => exact List.forall_mem_cons.mpr ⟨hc.plain, ih⟩
  | octet hhigh hlow _ ih =>
    rw [List.forall_mem_cons, List.forall_mem_cons, List.forall_mem_cons]
    exact ⟨by decide, plain_of_isHexDigit hhigh, plain_of_isHexDigit hlow, ih⟩

/-! ## Decoding -/

theorem decode_cons_of_ne {b : UInt8} (h : b ≠ 0x25) (rest : List UInt8) :
    decode (b :: rest) = b :: decode rest := by
  match rest with
  | [] => rfl
  | [c] => rfl
  | c :: d :: rest => rw [decode, if_neg h]

theorem decode_octet {high low : UInt8} {m n : Nat} (hhigh : hexValue? high = some m)
    (hlow : hexValue? low = some n) (rest : List UInt8) :
    decode (0x25 :: high :: low :: rest) = (16 * m + n).toUInt8 :: decode rest := by
  rw [decode, if_pos rfl, hhigh, hlow]

/-- A segment is read as the octets that it encodes. -/
theorem Encodes.decode_eq (h : Encodes octets segment) : decode (Utf8.encode segment) = octets := by
  rw [Utf8.encode_of_lt fun c hc => (h.plain c hc).1]
  induction h with
  | nil => rfl
  | @literal c octets segment hc _ ih =>
    have hne : c.toNat.toUInt8 ≠ 0x25 := by
      intro heq
      have hcode := toNat_octet hc.plain.1
      rw [heq] at hcode
      have hpercent : c = '%' := Char.toNat_inj.mp hcode.symm
      exact hc.2 (hpercent ▸ List.mem_cons_self)
    rw [List.map_cons, decode_cons_of_ne hne, ih]
  | @octet b high low octets segment hhigh hlow _ ih =>
    have hcode : 16 * (b.toNat / 16) + b.toNat % 16 = b.toNat := by omega
    show decode (0x25 :: high.toNat.toUInt8 :: low.toNat.toUInt8 :: segment.map _) = _
    rw [decode_octet (hexValue?_of_isHexDigit hhigh) (hexValue?_of_isHexDigit hlow), hcode, ih]
    simp

end Percent

open Percent (Encodes)

/-- A segment that encodes the octets of a name is read as the name. -/
theorem App.itemName_of_encodes {name : String} {segment : List Char}
    (h : Encodes (Utf8.ofString name) segment) : App.itemName segment = .ok name := by
  rw [App.itemName, h.decode_eq, Utf8.toString?_ofString]

/-! ## Targets -/

/-- A target that starts with a slash and has no query and no fragment is its own path. -/
theorem Target.path_of_plain {cs : List Char} (hslash : cs.head? = some '/')
    (hplain : ∀ c ∈ cs, c ∉ ['?', '#']) : (Target.ofChars cs).path = cs := by
  have htake : ∀ mark ∈ ['?', '#'], cs.takeWhile (· ≠ mark) = cs := fun mark hmark =>
    List.takeWhile_eq_self_iff.mpr fun c hc =>
      decide_eq_true (ne_of_mem_of_not_mem hmark (hplain c hc)).symm
  have hscheme : Target.splitScheme? cs = none := by
    obtain ⟨rest, rfl⟩ := List.head?_eq_some_iff.mp hslash
    rfl
  unfold Target.ofChars
  simp only [htake '#' (by simp), hscheme, if_pos hslash, htake '?' (by simp)]

/-- The targets for an item: the path of its collection, a slash, a segment for its name and
possibly a slash at the end. -/
def itemUris (k : Kind) (segment : List Char) : List String :=
  [Route.collectionPath k ++ "/" ++ String.ofList segment,
    Route.collectionPath k ++ "/" ++ String.ofList segment ++ "/"]

/-- A target for an item names the item and nothing else. -/
theorem names_of_encodes {k : Kind} {octets : List UInt8} {segment : List Char} {uri : String}
    (h : Encodes octets segment) (hne : octets ≠ []) (huri : uri ∈ itemUris k segment) :
    Route.Names k (Target.ofString uri).path (.item segment) := by
  have hslash : '/' ∉ segment := fun hmem => (h.plain _ hmem).2 List.mem_cons_self
  have hbase : (Route.collectionPath k).toList.head? = some '/' ∧
      ∀ c ∈ (Route.collectionPath k).toList, c ∉ ['?', '#'] := by
    cases k <;> simp [Route.collectionPath]
  have hpath : ∀ tail : List Char, (∀ c ∈ tail, c ∉ ['?', '#']) →
      (Target.ofChars ((Route.collectionPath k).toList ++ tail)).path =
        (Route.collectionPath k).toList ++ tail := fun tail htail =>
    Target.path_of_plain (by rw [List.head?_append, hbase.1]; rfl)
      (List.forall_mem_append.mpr ⟨hbase.2, htail⟩)
  have hsegment : ∀ c ∈ segment, c ∉ ['?', '#'] := fun c hc hmark =>
    (h.plain c hc).2 (List.mem_cons_of_mem _ hmark)
  simp only [itemUris, List.mem_cons, List.not_mem_nil, or_false] at huri
  rcases huri with rfl | rfl
  · have hchars : (Route.collectionPath k ++ "/" ++ String.ofList segment).toList =
        (Route.collectionPath k).toList ++ '/' :: segment := by
      simp
    rw [Target.ofString, hchars, hpath _ (List.forall_mem_cons.mpr ⟨by decide, hsegment⟩)]
    exact .item (h.ne_nil hne) hslash
  · have hchars : (Route.collectionPath k ++ "/" ++ String.ofList segment ++ "/").toList =
        (Route.collectionPath k).toList ++ '/' :: (segment ++ ['/']) := by
      simp
    rw [Target.ofString, hchars, hpath _ (List.forall_mem_cons.mpr ⟨by decide,
      List.forall_mem_append.mpr ⟨hsegment, by simp⟩⟩)]
    exact .itemSlash hslash

end TenantRegistry.Web
