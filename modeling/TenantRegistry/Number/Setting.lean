import TenantRegistry.Number.Basic

/-!
Natural numbers as settings and options write them.
-/

namespace TenantRegistry.Number

/-- The number that decimal digits write, a plus sign before them or not, if it is below
`bound`. -/
def naturalBelow? (bound : Nat) (s : String) : Option Nat :=
  let digits := match s.toList with
    | '+' :: rest => rest
    | cs => cs
  (ofDigits? 10 digits).filter (· < bound)

example : naturalBelow? 256 "+0255" = some 255 := by decide +kernel
example : naturalBelow? 256 "256" = none := by decide +kernel
example : naturalBelow? 256 "+" = none := by decide +kernel

end TenantRegistry.Number
