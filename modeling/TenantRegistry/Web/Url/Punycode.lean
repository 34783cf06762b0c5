/-!
Punycode (RFC 3492): labels of any characters in ASCII.

The ASCII characters of a label come first, then a hyphen, then where and which the others are,
as differences in a number system of base 36 whose digits have thresholds that adapt.
-/

namespace TenantRegistry.Web.Punycode

def isBasic (c : Char) : Bool :=
  c.toNat < 0x80

def digitChar (d : Nat) : Char :=
  if d < 26 then Char.ofNat ('a'.toNat + d) else Char.ofNat ('0'.toNat + (d - 26))

def digitValue? (c : Char) : Option Nat :=
  if c.isLower then some (c.toNat - 'a'.toNat)
  else if c.isUpper then some (c.toNat - 'A'.toNat)
  else if c.isDigit then some (c.toNat - '0'.toNat + 26)
  else none

/-- The threshold of the digit at position `k`, which goes up in steps of 36. -/
def threshold (k bias : Nat) : Nat :=
  min 26 (max 1 (k - bias))

/-- The bias that a difference leads to: `delta` shrunk below 456 in steps. -/
def biasOf : (fuel k delta : Nat) → Nat
  | 0, k, _ => k
  | fuel + 1, k, delta =>
    if 455 < delta then biasOf fuel (k + 36) (delta / 35) else k + 36 * delta / (delta + 38)

/-- The bias after a difference, when `points` characters are placed. -/
def adapt (delta points : Nat) (isFirst : Bool) : Nat :=
  let delta := if isFirst then delta / 700 else delta / 2
  let delta := delta + delta / points
  biasOf (delta + 1) 0 delta

/-- The digits of a difference, from position `k` on. -/
def digits : (fuel bias k delta : Nat) → List Char
  | 0, _, _, _ => []
  | fuel + 1, bias, k, delta =>
    let t := threshold k bias
    if delta < t then [digitChar delta]
    else
      digitChar (t + (delta - t) % (36 - t)) :: digits fuel bias (k + 36) ((delta - t) / (36 - t))

/-- A label half encoded: the difference so far, the bias, and how many characters are placed. -/
structure State where
  delta : Nat
  bias : Nat
  placed : Nat
  output : List Char

/-- Looks at a character of the label while code point `point` is being placed. -/
def State.see (basics point : Nat) (s : State) (c : Char) : State :=
  if c.toNat < point then { s with delta := s.delta + 1 }
  else if c.toNat = point then
    ⟨0, adapt s.delta (s.placed + 1) (s.placed == basics), s.placed + 1,
      s.output ++ digits (s.delta + 1) s.bias 36 s.delta⟩
  else s

/-- Places code points in ascending order, `next` being the least that can come. -/
def place (label : List Char) (basics : Nat) : (next : Nat) → List Nat → State → State
  | _, [], s => s
  | next, point :: rest, s =>
    let s := { s with delta := s.delta + (point - next) * (s.placed + 1) }
    let s := label.foldl (State.see basics point) s
    place label basics (point + 1) rest { s with delta := s.delta + 1 }

/-- Puts a number into an ascending list, once. -/
def insertOnce (n : Nat) : List Nat → List Nat
  | [] => [n]
  | m :: rest => if n < m then n :: m :: rest else if n = m then m :: rest else m :: insertOnce n rest

def encode (label : List Char) : List Char :=
  let basic := label.filter isBasic
  let points := (label.filter (!isBasic ·)).foldl (fun acc c => insertOnce c.toNat acc) []
  let start := if basic.isEmpty then [] else basic ++ ['-']
  (place label basic.length 128 points ⟨0, 72, basic.length, start⟩).output

/-- A difference read from digits onto `value`, and the digits that are left. -/
def takeDelta (bias : Nat) : (k weight value : Nat) → List Char → Option (Nat × List Char)
  | _, _, _, [] => none
  | k, weight, value, c :: rest => do
    let d ← digitValue? c
    let t := threshold k bias
    let value := value + d * weight
    if d < t then return (value, rest) else takeDelta bias (k + 36) (weight * (36 - t)) value rest

/-- Puts the characters that digits stand for into `placed`; one unit of fuel per character. -/
def decodeFrom : (fuel point index bias : Nat) → (placed : List Char) → List Char →
    Option (List Char)
  | _, _, _, _, placed, [] => some placed
  | 0, _, _, _, _, _ => none
  | fuel + 1, point, index, bias, placed, cs => do
    let (delta, rest) ← takeDelta bias 36 1 0 cs
    let count := placed.length + 1
    let slot := index + delta
    let point := point + slot / count
    let c := Char.ofNat point
    if c.toNat ≠ point then none
    else
      decodeFrom fuel point (slot % count + 1) (adapt delta count (index == 0))
        (placed.take (slot % count) ++ c :: placed.drop (slot % count)) rest

/-- The characters before the last hyphen and those after it; none before if there is none. -/
def split (cs : List Char) : List Char × List Char :=
  let last := cs.reverse.takeWhile (· ≠ '-')
  (cs.take (cs.length - last.length - 1), last.reverse)

def decode? (cs : List Char) : Option (List Char) :=
  let (basic, rest) := split cs
  if basic.all isBasic then decodeFrom rest.length 128 0 72 basic rest else none

example : String.ofList (encode ['é']) = "9ca" := by decide +kernel
example : String.ofList (encode "bücher".toList) = "bcher-kva" := by decide +kernel
example : String.ofList (encode "他们为什么不说中文".toList) = "ihqwcrb4cv8a8dqg056pqjye" := by
  decide +kernel
example : decode? "bcher-kva".toList = some "bücher".toList := by decide +kernel
example : decode? "ihqwcrb4cv8a8dqg056pqjye".toList = some "他们为什么不说中文".toList := by
  decide +kernel

end TenantRegistry.Web.Punycode
