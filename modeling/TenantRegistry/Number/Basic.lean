import TenantRegistry.Number.Shortest

/-!
The numbers of documents: integers and binary64 numbers, which stay apart even where they have
the same value. Also here: reading digits.
-/

namespace TenantRegistry

inductive Number where
  | integer (n : Int)
  | float (x : Binary64)
  deriving DecidableEq, Repr

namespace Number

/-- Equal numbers, where no number equals itself and the two zeros are one. -/
def same : Number → Number → Bool
  | .integer m, .integer n => m == n
  | .float x, .float y => x.same y
  | _, _ => false

def isFinite : Number → Bool
  | .integer _ => true
  | .float x => x.isFinite

/-- The decimal digits of an integer with its sign. -/
def decimal (n : Int) : List Char :=
  if n < 0 then '-' :: Nat.toDigits 10 n.natAbs else Nat.toDigits 10 n.natAbs

/-- The value of a digit in bases up to sixteen. -/
def digitValue? (base : Nat) (c : Char) : Option Nat :=
  let value :=
    if '0' ≤ c ∧ c ≤ '9' then c.toNat - '0'.toNat
    else if 'a' ≤ c ∧ c ≤ 'f' then c.toNat - 'a'.toNat + 10
    else if 'A' ≤ c ∧ c ≤ 'F' then c.toNat - 'A'.toNat + 10
    else base
  if value < base then some value else none

/-- A hexadecimal digit in either case, and its value. -/
def IsHexDigit (c : Char) (n : Nat) : Prop :=
  n < 16 ∧ (c = n.digitChar ∨ c = n.digitChar.toUpper)

theorem IsHexDigit.digitValue? {c : Char} {n : Nat} (h : IsHexDigit c n) :
    digitValue? 16 c = some n := by
  have hdigits : ∀ n < 16, Number.digitValue? 16 n.digitChar = some n ∧
      Number.digitValue? 16 n.digitChar.toUpper = some n := by decide
  obtain ⟨hn, rfl | rfl⟩ := h
  · exact (hdigits n hn).1
  · exact (hdigits n hn).2

/-- Reads digits onto a number; none if one is no digit. -/
def digitsOnto (base : Nat) : (soFar : Nat) → List Char → Option Nat
  | soFar, [] => some soFar
  | soFar, c :: rest => do digitsOnto base (soFar * base + (← digitValue? base c)) rest

/-- The number that one or more digits write. -/
def ofDigits? (base : Nat) (cs : List Char) : Option Nat :=
  if cs.isEmpty then none else digitsOnto base 0 cs

end Number
end TenantRegistry
