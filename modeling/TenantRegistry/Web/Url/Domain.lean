import TenantRegistry.Text.LowerCase
import TenantRegistry.Text.Pieces
import TenantRegistry.Web.Url.Punycode

/-!
Domain names in ASCII.

Which names there are and how they are written depends on tables of Unicode: what each character
is mapped to, how marks are composed, where letters of both directions may stand. So a conversion
is a parameter of whatever reads hosts, `ToAscii`. The one here, `toAscii?`, does without tables.
Letters are taken in lower case, wide forms as the ASCII characters they stand for and the
ideographic full stops as dots; characters without a width count for nothing. A label with other
than ASCII characters is then written in Punycode, after `xn--`. A label that is written so
already must be the form of such a label.
-/

namespace TenantRegistry.Web.Domain

/-- A conversion of domain names to ASCII. None for what is no domain name. -/
abbrev ToAscii := List Char → Option (List Char)

/-- A character that counts for nothing: soft hyphen, zero-width space, word joiner, byte order
mark, variation selectors. -/
def isIgnored (n : Nat) : Bool :=
  n == 0xAD || n == 0x200B || n == 0x2060 || n == 0xFEFF || (0xFE00 ≤ n && n ≤ 0xFE0F)

/-- A character that stands for a dot between labels. -/
def isDot (n : Nat) : Bool :=
  n == 0x3002 || n == 0xFF0E || n == 0xFF61

/-- What a character stands for in a domain name. -/
def mapChar (c : Char) : List Char :=
  let n := c.toNat
  if isIgnored n then []
  else if isDot n then ['.']
  else if 0xFF01 ≤ n ∧ n ≤ 0xFF5E then [(Char.ofNat (n - 0xFEE0)).toLower]
  else [Text.lowerChar c]

/-- An ASCII character that ends a host or may not be in one. -/
def isForbiddenBasic (c : Char) : Bool :=
  c.toNat ≤ 0x20 || c.toNat == 0x7F || "%#/:<>?@[\\]^|".toList.contains c

/-- A character that no domain name has: controls, spaces, marks of direction, characters of
private use, and what is no character. -/
def isForbidden (c : Char) : Bool :=
  let n := c.toNat
  if n < 0x80 then isForbiddenBasic c
  else
    n ≤ 0xA0 || n == 0x1680 || (0x2000 ≤ n && n ≤ 0x200F) || (0x2028 ≤ n && n ≤ 0x202F) ||
      (0x205F ≤ n && n ≤ 0x206F) || n == 0x3000 || (0xE000 ≤ n && n ≤ 0xF8FF) ||
      (0xFDD0 ≤ n && n ≤ 0xFDEF) || (0xFFF0 ≤ n && n ≤ 0xFFFF) || n % 0x10000 ≥ 0xFFFE ||
      0xE0000 ≤ n

/-- The start of a label in Punycode. -/
def encodedMark : List Char := ['x', 'n', '-', '-']

/-- A label that `encoded` may stand for: not in ASCII and as a label is after mapping. -/
def decodedLabel? (encoded : List Char) : Option (List Char) := do
  let label ← Punycode.decode? encoded
  if label.any (!Punycode.isBasic ·) && !label.any isForbidden && !label.contains '.' &&
      label.flatMap mapChar == label && Punycode.encode label == encoded then
    some label
  else none

/-- A mapped label in ASCII. -/
def labelToAscii? (label : List Char) : Option (List Char) :=
  if label.any isForbidden then none
  else if encodedMark.isPrefixOf label then (decodedLabel? (label.drop 4)).map fun _ => label
  else if label.all Punycode.isBasic then some label
  else some (encodedMark ++ Punycode.encode label)

/-- A domain name in ASCII, as far as it can be told without tables. -/
def toAscii? : ToAscii := fun name => do
  let labels ← (Text.pieces (· == '.') (name.flatMap mapChar)).mapM labelToAscii?
  return ['.'].intercalate labels

example : toAscii? "É.Example".toList = some "xn--9ca.example".toList := by decide +kernel
example : toAscii? "xn--9ca".toList = some "xn--9ca".toList := by decide +kernel
example : toAscii? "xn--".toList = none := by decide +kernel
example : toAscii? "ex<ample".toList = none := by decide +kernel
example : toAscii? "a。b".toList = some "a.b".toList := by decide +kernel

end TenantRegistry.Web.Domain
