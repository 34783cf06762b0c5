import TenantRegistry.Json.Written

/-!
From JSON texts to values.

Not every well-formed text is a value: halves of surrogate pairs, numbers beyond the range of a
binary64 and nesting beyond 127 collections are refused. An object may also stand for another
text: see `rawKey`.

Integers of 64 bits are kept exactly. Any other number is read in two roundings: as many
leading digits as fit into 64 bits, and then their product or quotient with a power of ten.
-/

namespace TenantRegistry.Json

/-- The largest integer that is kept exactly. -/
def maxNatural : Nat := Nat.pow 2 64 - 1

/-- Reads digits onto a number as long as it does not exceed `maxNatural`, and the digits that
are left. -/
def significand : (soFar : Nat) → List Char → Nat × List Char
  | n, [] => (n, [])
  | n, c :: rest =>
    let next := n * 10 + (c.toNat - '0'.toNat)
    if maxNatural < next then (n, c :: rest) else significand next rest

/-- A power of ten up to `10 ^ 308`, rounded. -/
def powerOfTen (k : Nat) : Binary64 :=
  Binary64.ofDecimal false 1 k

/-- `x` times a power of ten. None if that is out of range. Powers below `10 ^ -308` are taken
in several steps. -/
def scale : (fuel : Nat) → Binary64 → Int → Option Binary64
  | 0, x, _ => some x
  | fuel + 1, x, k =>
    if k.natAbs ≤ 308 then
      if 0 ≤ k then
        let y := x.mul (powerOfTen k.natAbs)
        if y.isFinite then some y else none
      else some (x.div (powerOfTen k.natAbs))
    else if x.isZero then some x
    else if 0 ≤ k then none
    else scale fuel (x.div (powerOfTen 308)) (k + 308)

/-- The largest exponent that is read as a number. -/
def maxExponent : Nat := Nat.pow 2 31 - 1

namespace NumberText

/-- The leading digits, and the power of ten that goes with them without the exponent. -/
def leading (n : NumberText) : Nat × Int :=
  let (m, left) := significand 0 n.whole
  let (m, unread) := significand m n.places
  (m, left.length - (n.places.length - unread.length : Nat))

/-- The float that a number writes. None if it is out of range. -/
def float? (n : NumberText) : Option Binary64 := do
  let (m, k) := n.leading
  let x := Binary64.ofInt m
  let y ← match n.exponent with
    | none => scale 8 x k
    | some (negative, digits) => do
      let e := (Number.ofDigits? 10 digits).getD 0
      if maxExponent < e then
        if m = 0 ∨ negative then some (.zero false) else none
      else scale 8 x (if negative then k - e else k + e)
  return if n.negative then y.neg else y

/-- The integer that a number writes, if it is one of 64 bits. A negative zero is none. -/
def integer? (n : NumberText) : Option Int :=
  match n.places, n.exponent, significand 0 n.whole with
  | [], none, (m, []) =>
    if n.negative then
      if 0 < m ∧ m ≤ Nat.pow 2 63 then some (-m) else none
    else some m
  | _, _, _ => none

def number? (n : NumberText) : Option Number :=
  match n.integer? with
  | some i => some (.integer i)
  | none => n.float?.map .float

end NumberText

/-- An object whose first key is this one stands for the value of the text under it. -/
def rawKey : String := "$serde_json::private::RawValue"

namespace Written

mutual

/-- The value of a text, where collections may be nested `depth` deep and `reread` reads the text
that an object stands for. -/
def value? (reread : String → Option Json) : (depth : Nat) → Written → Option Json
  | _, .null => some .null
  | _, .bool b => some (.bool b)
  | _, .number n => n.number?.map .number
  | _, .string s => s.map .string
  | 0, .array _ => none
  | depth + 1, .array items => do return .array (← items? reread depth items)
  | 0, .object _ => none
  | depth + 1, .object entries =>
    match entries with
    | (some k, v) :: rest =>
      if k = rawKey then
        match v, rest with
        | .string (some s), [] => reread s
        | _, _ => none
      else do return Json.ofEntries (← entries? reread depth ((some k, v) :: rest))
    | entries => do return Json.ofEntries (← entries? reread depth entries)

def items? (reread : String → Option Json) : (depth : Nat) → List Written → Option (List Json)
  | _, [] => some []
  | depth, w :: rest => do return (← value? reread depth w) :: (← items? reread depth rest)

def entries? (reread : String → Option Json) : (depth : Nat) → List (Option String × Written) →
    Option (List (String × Json))
  | _, [] => some []
  | depth, (k, w) :: rest => do
    let k ← k
    let v ← value? reread depth w
    return (k, v) :: (← entries? reread depth rest)

end

end Written

/-- How deep the collections of a value may be nested. -/
def depthLimit : Nat := 127

/-- The value of a text, with one unit of fuel per text within a text. -/
def ofTextWithin : (fuel : Nat) → String → Option Json
  | 0, _ => none
  | fuel + 1, s => do (← Written.ofText? s.toList).value? (ofTextWithin fuel) depthLimit

/-- The value of a text that an object stands for. A text within a text is shorter. -/
def reread (s : String) : Option Json :=
  ofTextWithin (s.length + 1) s

/-- The object that a text writes; at the top of a text `rawKey` is a key like any other. -/
def objectOfText? (s : String) : Option (List (String × Json)) := do
  match ← Written.ofText? s.toList with
  | .object entries =>
    match Json.ofEntries (← Written.entries? reread (depthLimit - 1) entries) with
    | .object entries => some entries
    | _ => none
  | _ => none

end TenantRegistry.Json
