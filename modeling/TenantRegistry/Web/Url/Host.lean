import TenantRegistry.Web.Percent
import TenantRegistry.Web.Url.Domain
import TenantRegistry.Web.Url.Problem

/-!
Hosts of URLs: domain names and addresses.

A name whose last label is a number must be an IPv4 address, in which each part is decimal,
octal or hexadecimal and the last part fills what is left. A host in brackets is an IPv6
address. The host of a scheme without a grammar of its own is kept as it is. The conversion of
domain names to ASCII is a parameter.
-/

namespace TenantRegistry.Web

inductive Host where
  /-- A name, percent-encoded where it has no form in ASCII. -/
  | name (chars : List Char)
  | ipv4 (address : Nat)
  /-- An IPv6 address as its eight pieces. -/
  | ipv6 (pieces : List Nat)
  deriving DecidableEq, Repr

namespace Host

/-- What a part of an IPv4 address is worth. None if it is no number. -/
def ipv4Part? (cs : List Char) : Option Nat :=
  let value (base : Nat) (digits : List Char) : Option Nat :=
    if digits.isEmpty then some 0 else Number.ofDigits? base digits
  match cs with
  | '0' :: 'x' :: rest => value 16 rest
  | '0' :: 'X' :: rest => value 16 rest
  | '0' :: c :: rest => value 8 (c :: rest)
  | cs => Number.ofDigits? 10 cs

/-- The labels of a name without the empty one after a final dot. -/
def addressParts (name : List Char) : List (List Char) :=
  let parts := Text.pieces (· == '.') name
  if parts.getLast? = some [] then parts.dropLast else parts

/-- The last label is a number, so that the name must be an address. -/
def endsInNumber (name : List Char) : Bool :=
  match (addressParts name).getLast? with
  | some last => (!last.isEmpty && last.all Char.isDigit) || (ipv4Part? last).isSome
  | none => false

/-- The address that parts give: all but the last are one octet each. -/
def ofIpv4Parts : (places : Nat) → List Nat → Option Nat
  | _, [] => none
  | 0, _ => none
  | places + 1, [last] => if last < Nat.pow 256 (places + 1) then some last else none
  | places + 1, part :: rest => do
    if part < 256 then return part * Nat.pow 256 places + (← ofIpv4Parts places rest) else none

def ipv4? (name : List Char) : Option Nat := do
  ofIpv4Parts 4 (← (addressParts name).mapM ipv4Part?)

/-- A piece of an IPv6 address: up to four hexadecimal digits. -/
def ipv6Piece? (cs : List Char) : Option Nat :=
  if cs.length ≤ 4 then Number.ofDigits? 16 cs else none

/-- An octet in decimal without leading zeros. -/
def octet? (cs : List Char) : Option Nat := do
  let n ← Number.ofDigits? 10 cs
  if n < 256 ∧ (cs.length = 1 ∨ cs.head? ≠ some '0') then some n else none

/-- The two pieces that an IPv4 address at the end writes. -/
def ipv6Tail? (cs : List Char) : Option (List Nat) := do
  match ← (Text.pieces (· == '.') cs).mapM octet? with
  | [a, b, c, d] => some [256 * a + b, 256 * c + d]
  | _ => none

/-- The pieces between colons, of which the last may be an IPv4 address. -/
def ipv6Pieces? : List (List Char) → Option (List Nat)
  | [] => some []
  | [last] =>
    if last.contains '.' then ipv6Tail? last else (ipv6Piece? last).map fun n => [n]
  | piece :: rest => do return (← ipv6Piece? piece) :: (← ipv6Pieces? rest)

/-- The pieces on one side of a double colon; none if there is nothing. -/
def ipv6Side? (cs : List Char) : Option (List Nat) :=
  if cs.isEmpty then some [] else ipv6Pieces? (Text.pieces (· == ':') cs)

/-- What is before the first double colon and what is after it. -/
def splitDoubleColon : List Char → Option (List Char × List Char)
  | ':' :: ':' :: rest => some ([], rest)
  | c :: rest => (splitDoubleColon rest).map fun (before, after) => (c :: before, after)
  | [] => none

/-- The eight pieces of an IPv6 address. A double colon stands for one or more zeros. -/
def ipv6? (cs : List Char) : Option (List Nat) := do
  match splitDoubleColon cs with
  | some (before, after) =>
    let front ← if before.contains '.' then none else ipv6Side? before
    let back ← ipv6Side? after
    if front.length + back.length < 8 then
      some (front ++ List.replicate (8 - front.length - back.length) 0 ++ back)
    else none
  | none =>
    let pieces ← ipv6Side? cs
    if pieces.length = 8 then some pieces else none

/-- The host that is in brackets from the first character on. -/
def ofBrackets (cs : List Char) : Except UrlProblem Host :=
  if cs.getLast? = some ']' then
    match ipv6? (cs.drop 1).dropLast with
    | some pieces => .ok (.ipv6 pieces)
    | none => .error .ipv6
  else .error .ipv6

/-- The host of a scheme with domain names. -/
def ofChars (toAscii : Domain.ToAscii) (cs : List Char) : Except UrlProblem Host :=
  if cs.head? = some '[' then ofBrackets cs
  else
    match toAscii (Utf8.decodeLossy (Percent.decode (Utf8.encode cs))) with
    | none => .error .domainName
    | some [] => .error .emptyHost
    | some domain =>
      if endsInNumber domain then
        match ipv4? domain with
        | some address => .ok (.ipv4 address)
        | none => .error .ipv4
      else .ok (.name domain)

/-- A control character, or one beyond ASCII. -/
def isControl (c : Char) : Bool :=
  c.toNat < 0x20 || 0x7F ≤ c.toNat

/-- A character that no host may have. -/
def isForbidden (c : Char) : Bool :=
  c.toNat == 0 || "\t\n\r #/:<>?@[\\]^|".toList.contains c

/-- The host of a scheme without domain names. -/
def ofPlain (cs : List Char) : Except UrlProblem Host :=
  if cs.head? = some '[' then ofBrackets cs
  else if cs.any isForbidden then .error .hostCharacter
  else .ok (.name (Percent.encodeWhere isControl cs))

/-- The position and the length of the first longest run of zeros, from `position` on. -/
def longestZeros : (position : Nat) → List Nat → Nat × Nat
  | _, [] => (0, 0)
  | position, n :: rest =>
    let here := ((n :: rest).takeWhile (· == 0)).length
    let later := longestZeros (position + 1) rest
    if here = 0 ∨ here < later.2 then later else (position, here)

def joinPieces (pieces : List Nat) : List Char :=
  [':'].intercalate (pieces.map (Nat.toDigits 16))

/-- An IPv6 address, its longest run of zeros as a double colon. -/
def ipv6Text (pieces : List Nat) : List Char :=
  let (position, count) := longestZeros 0 pieces
  if count < 2 then joinPieces pieces
  else joinPieces (pieces.take position) ++ ':' :: ':' :: joinPieces (pieces.drop (position + count))

def ipv4Text (address : Nat) : List Char :=
  ['.'].intercalate
    ([address / Nat.pow 256 3, address / Nat.pow 256 2 % 256, address / 256 % 256, address % 256].map
      (Nat.toDigits 10))

def chars : Host → List Char
  | .name cs => cs
  | .ipv4 address => ipv4Text address
  | .ipv6 pieces => '[' :: ipv6Text pieces ++ [']']

example : (ofChars Domain.toAscii? "0x7f.1".toList).toOption = some (.ipv4 0x7F000001) := by decide +kernel
example : (ofChars Domain.toAscii? "256.1.1.1".toList).toOption = none := by decide +kernel
example : (ofChars Domain.toAscii? "[1:0:0:2::FFFF:1.2.3.4]".toList).toOption =
    some (.ipv6 [1, 0, 0, 2, 0, 0xFFFF, 0x102, 0x304]) := by decide +kernel
example : (ofChars Domain.toAscii? "[::1".toList).toOption = none := by decide +kernel
example : ipv4Text 0x7F000001 = "127.0.0.1".toList := by decide +kernel
example : ipv6Text [1, 0, 0, 2, 0, 0xFFFF, 0, 0] = "1::2:0:ffff:0:0".toList := by decide +kernel
example : ipv6Text [1, 0, 0, 2, 0, 0, 0, 9] = "1:0:0:2::9".toList := by decide +kernel

end Host
end TenantRegistry.Web
