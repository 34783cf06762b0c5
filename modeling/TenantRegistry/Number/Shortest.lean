import TenantRegistry.Number.Binary64

/-!
The shortest decimal text of a binary64 number.

Every finite number has an interval of reals that round to it, its ends included when the
significand is even. `shortest` gives the fewest digits that name a point of that interval: it
looks at the number's two neighbours on coarser and coarser decimal grids and takes the
coarsest grid that hits, of two hits the nearer one. `Layout` then places point and exponent.
-/

namespace TenantRegistry.Binary64

/-- `digits * 10 ^ exponent`, a positive decimal number. -/
structure Decimal where
  digits : Nat
  exponent : Int
  deriving DecidableEq, Repr

/-- The ends of the rounding interval of a finite number and the number itself, all three in
units of `2 ^ (exponent - 2)`. Below a power of two the neighbour is half as far away. -/
def interval (x : Binary64) : Nat × Nat × Nat :=
  let m := x.significand
  let low := if x.fraction = 0 ∧ 1 < x.exponentField then 4 * m - 1 else 4 * m - 2
  (low, 4 * m, 4 * m + 2)

/-- The point of the grid of step `10 ^ k` that reads back as `x` and is nearest to it. Of two
points equally near the even one is taken. -/
def gridPoint? (x : Binary64) (k : Int) : Option Nat :=
  let (low, mid, high) := x.interval
  let e := x.exponent - 2
  let num := Nat.pow 2 e.toNat * Nat.pow 10 (-k).toNat
  let den := Nat.pow 2 (-e).toNat * Nat.pow 10 k.toNat
  let inside (c : Nat) : Bool :=
    if x.significand % 2 = 0 then low * num ≤ c * den && c * den ≤ high * num
    else low * num < c * den && c * den < high * num
  let q := mid * num / den
  let below := inside q
  let above := inside (q + 1)
  let down := mid * num - q * den
  let up := (q + 1) * den - mid * num
  if below && above then
    some (if down < up ∨ (down = up ∧ q % 2 = 0) then q else q + 1)
  else if below then some q
  else if above then some (q + 1)
  else none

/-- The first grid that hits, from step `10 ^ k` down. -/
def searchGrid (x : Binary64) : (fuel : Nat) → (k : Int) → Decimal
  | 0, k => ⟨0, k⟩
  | fuel + 1, k =>
    match x.gridPoint? k with
    | some c => ⟨c, k⟩
    | none => searchGrid x fuel (k - 1)

/-- The shortest decimal that reads back as the positive finite number `x`. Seventeen digits
always suffice, and the search starts at most three places above the first one. -/
def shortest (x : Binary64) : Decimal :=
  let top : Int := (x.significand.log2 + x.exponent + 1) * 30103 / 100000 + 2
  searchGrid x 24 top

/-- How the digits of a number are laid out: where the point may stand relative to the first
digit for the number to be written without exponent, and the sign of a positive exponent. -/
structure Layout where
  plain : Int → Bool
  plusSign : Bool

/-- `n` zeros. -/
def zeros (n : Nat) : List Char :=
  List.replicate n '0'

/-- Digits with the point after the first `point` places, always with a digit on both sides. -/
def positional (digits : List Char) (point : Int) : List Char :=
  if point ≤ 0 then
    "0.".toList ++ zeros (-point).toNat ++ digits
  else if digits.length ≤ point.toNat then
    digits ++ zeros (point.toNat - digits.length) ++ ".0".toList
  else
    digits.take point.toNat ++ '.' :: digits.drop point.toNat

/-- Digits with the point after the first one and an exponent. -/
def scientific (plusSign : Bool) (digits : List Char) (point : Int) : List Char :=
  let mantissa := match digits with
    | [] => []
    | [d] => [d]
    | d :: ds => d :: '.' :: ds
  let sign := if point ≤ 0 then ['-'] else if plusSign then ['+'] else []
  mantissa ++ 'e' :: sign ++ Nat.toDigits 10 (point - 1).natAbs

/-- The text of a finite number under a layout. -/
def write (x : Binary64) (l : Layout) : List Char :=
  let sign := if x.negative then ['-'] else []
  if x.isZero then
    sign ++ "0.0".toList
  else
    let d := x.shortest
    let digits := Nat.toDigits 10 d.digits
    let point := digits.length + d.exponent
    sign ++ (if l.plain point then positional digits point else scientific l.plusSign digits point)

/-- Without exponent from `0.00001` to below `10 ^ 16`, as documents write numbers. -/
def plainRange (point : Int) : Bool :=
  -5 < point && point ≤ 16

example : String.ofList ((ofDecimal false 15 (-1)).write ⟨plainRange, false⟩) = "1.5" := by
  decide +kernel
example : String.ofList ((ofDecimal false 1 16).write ⟨plainRange, true⟩) = "1e+16" := by
  decide +kernel
example : String.ofList ((ofDecimal true 5 (-324)).write ⟨plainRange, false⟩) = "-5e-324" := by
  decide +kernel
example : String.ofList ((ofDecimal false 1 (-5)).write ⟨plainRange, false⟩) = "0.00001" := by
  decide +kernel

end TenantRegistry.Binary64
