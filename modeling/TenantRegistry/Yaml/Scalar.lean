import TenantRegistry.Number.Basic
import TenantRegistry.Yaml.Node.Basic

/-!
What plain scalars mean: null, a truth value, a number or a text.

The rules are those of the core schema. A run of digits that starts with a zero is a text, and
so is a number too large for a binary64. An integer beyond 64 bits is recognised as one but is
nobody's value.
-/

namespace TenantRegistry.Yaml

/-- The meaning of a scalar. -/
inductive Scalar where
  | null
  | bool (b : Bool)
  | number (n : Number)
  /-- An integer that 128 bits hold and 64 do not. -/
  | wide (n : Int)
  | text (s : String)
  deriving Repr

namespace Scalar

def isNull (s : String) : Bool :=
  s == "null" || s == "Null" || s == "NULL" || s == "~"

def bool? (s : String) : Option Bool :=
  if s = "true" ∨ s = "True" ∨ s = "TRUE" then some true
  else if s = "false" ∨ s = "False" ∨ s = "FALSE" then some false
  else none

/-- What follows `mark` in `cs`, if it starts `cs`. -/
def after? : (mark : List Char) → (cs : List Char) → Option (List Char)
  | [], cs => some cs
  | _ :: _, [] => none
  | m :: mark, c :: cs => if m = c then after? mark cs else none

/-- Past a leading plus sign. -/
def dropPlus (cs : List Char) : List Char :=
  match cs with
  | '+' :: rest => rest
  | _ => cs

def startsWithSign : List Char → Bool
  | c :: _ => c == '+' || c == '-'
  | [] => false

/-- Digits after a leading zero, with or without a sign: never a number. -/
def hasLeadingZero (cs : List Char) : Bool :=
  let cs := match cs with
    | '+' :: rest => rest
    | '-' :: rest => rest
    | _ => cs
  match cs with
  | '0' :: c :: rest => (c :: rest).all Char.isDigit
  | _ => false

/-- The bases that have a mark of their own. -/
def markedBases : List (List Char × Nat) :=
  [("0x".toList, 16), ("0o".toList, 8), ("0b".toList, 2)]

/-- A number after the mark of its base. -/
def marked? (cs : List Char) : Option Nat :=
  markedBases.findSome? fun (mark, base) => do Number.ofDigits? base (← after? mark cs)

/-- An integer from zero on, with or without a plus sign. -/
def natural? (cs : List Char) : Option Nat :=
  let digits := dropPlus cs
  match marked? digits with
  | some n => some n
  | none => if startsWithSign digits || hasLeadingZero cs then none else Number.ofDigits? 10 digits

/-- An integer with a minus sign. -/
def negative? (cs : List Char) : Option Int :=
  match cs with
  | '-' :: rest =>
    match marked? rest with
    | some n => some (-n)
    | none => if hasLeadingZero cs then none else (Number.ofDigits? 10 rest).map fun n => -(n : Int)
  | _ => none

/-- An integer: one of 64 bits, or a wide one. -/
def integer? (cs : List Char) : Option Scalar :=
  match natural? cs, negative? cs with
  | some n, _ =>
    if n < Nat.pow 2 64 then some (.number (.integer n))
    else if n < Nat.pow 2 128 then some (.wide n)
    else none
  | none, some n =>
    if -(Nat.pow 2 63 : Int) ≤ n then some (.number (.integer n))
    else if -(Nat.pow 2 127 : Int) ≤ n then some (.wide n)
    else none
  | none, none => none

/-- A whole exponent with its sign. -/
def exponent? (cs : List Char) : Option Int :=
  match cs with
  | '+' :: rest => (Number.ofDigits? 10 rest).map Int.ofNat
  | '-' :: rest => (Number.ofDigits? 10 rest).map fun n => -(n : Int)
  | _ => (Number.ofDigits? 10 cs).map Int.ofNat

/-- A decimal number without sign: digits with at most one point among or beside them and
maybe an exponent. -/
def decimal? (negative : Bool) (cs : List Char) : Option Binary64 := do
  let whole := cs.takeWhile Char.isDigit
  let rest := cs.dropWhile Char.isDigit
  let (places, rest) := match rest with
    | '.' :: rest => (rest.takeWhile Char.isDigit, rest.dropWhile Char.isDigit)
    | _ => ([], rest)
  let digits ← Number.ofDigits? 10 (whole ++ places)
  let exponent ← match rest with
    | [] => some 0
    | c :: rest => if c = 'e' ∨ c = 'E' then exponent? rest else none
  return Binary64.ofDecimal negative digits (exponent - places.length)

/-- A binary64 number or one of the names of those that are not finite. -/
def float? (cs : List Char) : Option Binary64 :=
  let unsigned := dropPlus cs
  if unsigned.length < cs.length ∧ startsWithSign unsigned then none
  else
    let name := String.ofList cs
    let positive := String.ofList unsigned
    if positive = ".inf" ∨ positive = ".Inf" ∨ positive = ".INF" then some (.infinity false)
    else if name = "-.inf" ∨ name = "-.Inf" ∨ name = "-.INF" then some (.infinity true)
    else if name = ".nan" ∨ name = ".NaN" ∨ name = ".NAN" then some .nan
    else
      let x? := match unsigned with
        | '-' :: rest => decimal? true rest
        | _ => decimal? false unsigned
      x?.filter (·.isFinite)

/-- The meaning of a plain scalar without tag. -/
def ofPlain (s : String) : Scalar :=
  if s.isEmpty || isNull s then .null
  else
    match bool? s with
    | some b => .bool b
    | none =>
      match integer? s.toList with
      | some n => n
      | none =>
        if hasLeadingZero s.toList then .text s
        else
          match float? s.toList with
          | some x => .number (.float x)
          | none => .text s

/-- Why a scalar cannot be what its tag says: the kind of value that was expected. -/
abbrev Unfit := String

/-- The meaning of a scalar. The tags of the core schema force a kind of value, an
application's tag leaves a plain scalar its meaning, and any other tag makes it a text. `tagged`
says that the tag is already spoken for. -/
def ofNode (tagged : Bool) (tag : Option Tag) (style : ScalarStyle) (s : String) :
    Except Unfit Scalar :=
  let untagged := if style = .plain then ofPlain s else .text s
  match tag with
  | none => .ok untagged
  | some tag =>
    if tagged then .ok untagged
    else if tag = Tag.core "bool" then
      match bool? s with
      | some b => .ok (.bool b)
      | none => .error "a boolean"
    else if tag = Tag.core "int" then
      match integer? s.toList with
      | some n => .ok n
      | none => .error "an integer"
    else if tag = Tag.core "float" then
      match float? s.toList with
      | some x => .ok (.number (.float x))
      | none => .error "a float"
    else if tag = Tag.core "null" then
      if isNull s then .ok .null else .error "null"
    else if tag.isLocal then .ok untagged
    else .ok (.text s)

end Scalar
end TenantRegistry.Yaml
