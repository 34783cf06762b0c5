/-!
UTF-16: octets read as characters.

A character is one code unit of two octets or a pair of surrogates. `decodeLossy` reads any octets,
with one U+FFFD for each fault: a surrogate without the other half of its pair, and at the end what
is less than a whole unit or pair.
-/

namespace TenantRegistry.Utf16

def isLead (n : Nat) : Bool := 0xD800 ≤ n && n < 0xDC00

def isTrail (n : Nat) : Bool := 0xDC00 ≤ n && n < 0xE000

/-- The character of a surrogate pair. -/
def pair (lead trail : Nat) : Char :=
  Char.ofNat (0x10000 + (lead - 0xD800) * 0x400 + (trail - 0xDC00))

/-- Which end of a code unit its first octet is. -/
inductive Endian where
  | big
  | little
  deriving DecidableEq, Repr

/-- The code unit of two octets. -/
def Endian.unit (e : Endian) (a b : UInt8) : Nat :=
  match e with
  | .big => a.toNat * 0x100 + b.toNat
  | .little => b.toNat * 0x100 + a.toNat

/-- The characters of any octets; each fault reads as one U+FFFD. -/
def decodeLossy (e : Endian) : List UInt8 → List Char
  | [] => []
  | [_] => ['\uFFFD']
  | a :: b :: rest =>
    let n := e.unit a b
    if isLead n then
      match rest with
      | c :: d :: later =>
        let trail := e.unit c d
        if isTrail trail then pair n trail :: decodeLossy e later
        else '\uFFFD' :: decodeLossy e (c :: d :: later)
      | _ => ['\uFFFD']
    else if isTrail n then '\uFFFD' :: decodeLossy e rest
    else Char.ofNat n :: decodeLossy e rest

example : decodeLossy .little [0x61, 0x00, 0x3D, 0xD8, 0x00, 0xDE] = ['a', '😀'] := by decide
example : decodeLossy .big [0xDC, 0x00, 0xD8, 0x3D, 0x00, 0x61, 0xD8, 0x3D, 0xDE] =
    ['\uFFFD', '\uFFFD', 'a', '\uFFFD'] := by decide

end TenantRegistry.Utf16
