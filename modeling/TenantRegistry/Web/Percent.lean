import TenantRegistry.Number.Basic
import TenantRegistry.Text.Utf8

/-!
Percent-encoding: an octet as `%` and two hexadecimal digits.
-/

namespace TenantRegistry.Web.Percent

def hexDigit (n : Nat) : Char :=
  (Nat.digitChar n).toUpper

def encodeOctet (b : UInt8) : List Char :=
  ['%', hexDigit (b.toNat / 16), hexDigit (b.toNat % 16)]

/-- Characters with those that `p` holds of percent-encoded. -/
def encodeWhere (p : Char → Bool) (cs : List Char) : List Char :=
  cs.flatMap fun c => if p c then (Utf8.encodeChar c).flatMap encodeOctet else [c]

/-- The value of the hexadecimal digit that an octet is. -/
def hexValue? (b : UInt8) : Option Nat :=
  Number.digitValue? 16 (Char.ofNat b.toNat)

/-- Octets with every encoded octet decoded. A `%` without two digits stands for itself. -/
def decode : List UInt8 → List UInt8
  | [] => []
  | [b] => [b]
  | [b, c] => [b, c]
  | b :: c :: d :: rest =>
    if b = 0x25 then
      match hexValue? c, hexValue? d with
      | some high, some low => (16 * high + low).toUInt8 :: decode rest
      | _, _ => b :: decode (c :: d :: rest)
    else b :: decode (c :: d :: rest)

example : String.ofList (encodeWhere (!·.isAlphanum) ['a', 'é', '/']) = "a%C3%A9%2F" := by
  decide +kernel
example : decode (Utf8.ofString "%41%zz%4") = Utf8.ofString "A%zz%4" := by decide +kernel

end TenantRegistry.Web.Percent
