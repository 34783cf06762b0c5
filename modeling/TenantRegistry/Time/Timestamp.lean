import TenantRegistry.Number.Basic
import TenantRegistry.Time.Date

/-!
Instants of UTC and their text, such as `2021-03-04T05:06:07Z`.

The text names the whole second. In a leap second, whose fraction runs on past one, it names
second 60. Years outside four digits carry a sign.
-/

namespace TenantRegistry

/-- Whole seconds since 1970 and a fraction in nanoseconds; in a leap second the fraction is
one second or more. -/
structure Timestamp where
  seconds : Int
  nanos : Nat
  deriving DecidableEq, Repr

namespace Timestamp

/-- The timestamp of a clock reading, which keeps whole seconds only. -/
def ofClock (t : Timestamp) : Timestamp :=
  ⟨t.seconds, 0⟩

/-- Earlier, the same or later. -/
def order (s t : Timestamp) : Ordering :=
  (compare s.seconds t.seconds).then (compare s.nanos t.nanos)

/-- `n` in decimal, with at least `width` digits. -/
def padded (width n : Nat) : List Char :=
  let digits := Nat.toDigits 10 n
  List.replicate (width - digits.length) '0' ++ digits

def yearText (year : Int) : List Char :=
  if 0 ≤ year ∧ year ≤ 9999 then padded 4 year.toNat
  else (if year < 0 then '-' else '+') :: padded 4 year.natAbs

def date (t : Timestamp) : Date :=
  Date.ofDays (t.seconds / 86400)

/-- Seconds since midnight. -/
def secondOfDay (t : Timestamp) : Nat :=
  (t.seconds % 86400).toNat

/-- The second of the minute, which is 60 in a leap second. -/
def second (t : Timestamp) : Nat :=
  t.secondOfDay % 60 + if 1000000000 ≤ t.nanos then 1 else 0

def chars (t : Timestamp) : List Char :=
  yearText t.date.year ++ '-' :: padded 2 t.date.month ++ '-' :: padded 2 t.date.day ++
    'T' :: padded 2 (t.secondOfDay / 3600) ++ ':' :: padded 2 (t.secondOfDay / 60 % 60) ++
    ':' :: padded 2 t.second ++ ['Z']

def text (t : Timestamp) : String :=
  String.ofList t.chars

/-- Seconds from 1970 to 2000. -/
def millennium : Int := 946684800

/-- Whole microseconds since 1970, a fraction of one being dropped towards the year 2000, from
which databases count. -/
def micros (t : Timestamp) : Int :=
  let nanos := (t.seconds - millennium) * 1000000000 + t.nanos
  millennium * 1000000 + nanos.tdiv 1000

/-- The instant some microseconds after 1970. -/
def ofMicros (n : Int) : Timestamp :=
  ⟨n / 1000000, (n % 1000000).toNat * 1000⟩

example : text ⟨1614834367, 0⟩ = "2021-03-04T05:06:07Z" := by decide +kernel
example : micros ⟨1, 1999⟩ = 1000002 := by decide
example : text ⟨1483228799, 1500000000⟩ = "2016-12-31T23:59:60Z" := by decide +kernel

end Timestamp
end TenantRegistry
