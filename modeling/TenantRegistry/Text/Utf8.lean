/-!
UTF-8: characters as octets and back.

`encode` writes characters as octets. `decode` reads them back and, where the octets are no
UTF-8, says at which octet the first fault starts and how many octets it spans. `decodeLossy`
reads any octets, with one U+FFFD for each fault.
-/

namespace TenantRegistry.Utf8

/-- One character as octets: one to four, the later ones in `80-BF`. -/
def encodeChar (c : Char) : List UInt8 :=
  let n := c.toNat
  if n < 0x80 then
    [n.toUInt8]
  else if n < 0x800 then
    [(0xC0 + n / 64).toUInt8, (0x80 + n % 64).toUInt8]
  else if n < 0x10000 then
    [(0xE0 + n / 4096).toUInt8, (0x80 + n / 64 % 64).toUInt8, (0x80 + n % 64).toUInt8]
  else
    [(0xF0 + n / 262144).toUInt8, (0x80 + n / 4096 % 64).toUInt8, (0x80 + n / 64 % 64).toUInt8,
      (0x80 + n % 64).toUInt8]

def encode (cs : List Char) : List UInt8 :=
  cs.flatMap encodeChar

/-- The octets of a text. -/
def ofString (s : String) : List UInt8 :=
  encode s.toList

/-- What the first octet of a character promises: how many octets follow, the payload it
carries itself, and the range of the second octet. The range excludes overlong forms,
surrogates and everything above U+10FFFF. -/
structure Lead where
  tails : Nat
  payload : Nat
  low : Nat
  high : Nat

/-- The promise of a first octet, none for an octet that starts no character. -/
def lead? (b : Nat) : Option Lead :=
  if b < 0x80 then some ⟨0, b, 0x80, 0xBF⟩
  else if b < 0xC2 then none
  else if b < 0xE0 then some ⟨1, b - 0xC0, 0x80, 0xBF⟩
  else if b = 0xE0 then some ⟨2, 0, 0xA0, 0xBF⟩
  else if b = 0xED then some ⟨2, 0xD, 0x80, 0x9F⟩
  else if b < 0xF0 then some ⟨2, b - 0xE0, 0x80, 0xBF⟩
  else if b = 0xF0 then some ⟨3, 0, 0x90, 0xBF⟩
  else if b < 0xF4 then some ⟨3, b - 0xF0, 0x80, 0xBF⟩
  else if b = 0xF4 then some ⟨3, 4, 0x80, 0x8F⟩
  else none

/-- How octets fail to be a character: `span` octets can never become one, or the octets stop
in the middle of one. -/
inductive Misfit where
  | invalid (span : Nat)
  | incomplete
  deriving DecidableEq, Repr

/-- Reads `n` more octets onto `payload`, the next one in `low..high` and the later ones in
`80..BF`; `taken` octets of the character are already read. -/
def tails : (n low high payload taken : Nat) → List UInt8 → Except Misfit (Nat × List UInt8)
  | 0, _, _, payload, _, rest => .ok (payload, rest)
  | _ + 1, _, _, _, _, [] => .error .incomplete
  | n + 1, low, high, payload, taken, b :: rest =>
    if low ≤ b.toNat ∧ b.toNat ≤ high then
      tails n 0x80 0xBF (payload * 64 + b.toNat % 64) (taken + 1) rest
    else
      .error (.invalid taken)

/-- The character that starts with octet `b`, and the octets after it. -/
def decodeChar (b : UInt8) (rest : List UInt8) : Except Misfit (Char × List UInt8) :=
  match lead? b.toNat with
  | none => .error (.invalid 1)
  | some l => (tails l.tails l.low l.high l.payload 1 rest).map fun (n, rest) => (Char.ofNat n, rest)

/-- The first fault of some octets. -/
structure Fault where
  position : Nat
  misfit : Misfit
  deriving DecidableEq, Repr

def Fault.message (f : Fault) : String :=
  match f.misfit with
  | .invalid span =>
    "invalid utf-8 sequence of " ++ toString span ++ " bytes from index " ++ toString f.position
  | .incomplete => "incomplete utf-8 byte sequence from index " ++ toString f.position

/-- `decode` from octet number `position` on, with one unit of fuel per character. -/
def decodeFrom : (fuel position : Nat) → List UInt8 → Except Fault (List Char)
  | _, _, [] => .ok []
  | 0, position, _ :: _ => .error ⟨position, .incomplete⟩
  | fuel + 1, position, b :: rest =>
    match decodeChar b rest with
    | .error misfit => .error ⟨position, misfit⟩
    | .ok (c, rest') => do
      let cs ← decodeFrom fuel (position + c.utf8Size) rest'
      return c :: cs

/-- The characters of some octets, or their first fault. -/
def decode (octets : List UInt8) : Except Fault (List Char) :=
  decodeFrom octets.length 0 octets

/-- The text of some octets, if they are UTF-8. -/
def toString? (octets : List UInt8) : Option String :=
  match decode octets with
  | .ok cs => some (String.ofList cs)
  | .error _ => none

/-- `decodeLossy` with one unit of fuel per character or fault. -/
def decodeLossyFrom : Nat → List UInt8 → List Char
  | 0, _ => []
  | _, [] => []
  | fuel + 1, b :: rest =>
    match decodeChar b rest with
    | .ok (c, rest') => c :: decodeLossyFrom fuel rest'
    | .error (.invalid span) => '\uFFFD' :: decodeLossyFrom fuel ((b :: rest).drop span)
    | .error .incomplete => ['\uFFFD']

/-- The characters of any octets; each fault reads as one U+FFFD. -/
def decodeLossy (octets : List UInt8) : List Char :=
  decodeLossyFrom octets.length octets

example : encode ['a', 'é', '€', '😀'] =
    [0x61, 0xC3, 0xA9, 0xE2, 0x82, 0xAC, 0xF0, 0x9F, 0x98, 0x80] := by decide
example : decode [0x61, 0xC3, 0xA9, 0xF0, 0x9F, 0x98, 0x80] = .ok ['a', 'é', '😀'] := by rfl
example : decode [0x61, 0xED, 0xA0, 0x80] = .error ⟨1, .invalid 1⟩ := by rfl
example : decode [0x61, 0xE2, 0x82] = .error ⟨1, .incomplete⟩ := by rfl
example : decodeLossy [0xE2, 0x82, 0x28, 0xFF] = ['\uFFFD', '(', '\uFFFD'] := by rfl

end TenantRegistry.Utf8
