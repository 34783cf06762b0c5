/-!
White space: the characters of Unicode's White_Space property, and trimming.
-/

namespace TenantRegistry.Text

/-- A character with the White_Space property. -/
def isBlank (c : Char) : Bool :=
  let n := c.toNat
  (9 ≤ n && n ≤ 13) || n == 0x20 || n == 0x85 || n == 0xA0 || n == 0x1680 ||
    (0x2000 ≤ n && n ≤ 0x200A) || n == 0x2028 || n == 0x2029 || n == 0x202F || n == 0x205F ||
    n == 0x3000

/-- `cs` without what `p` holds of at either end. -/
def trimBy (p : Char → Bool) (cs : List Char) : List Char :=
  ((cs.dropWhile p).reverse.dropWhile p).reverse

example : trimBy isBlank "\u00a0 a b\u2003\n".toList = ['a', ' ', 'b'] := by decide +kernel

end TenantRegistry.Text
