import TenantRegistry.Failure
import TenantRegistry.Text.Blank

/-!
The tenant of a request: the value of its one tenant header.

A tenant is a name of 1 to 150 letters, digits and marks, and neither `.` nor `..`. Nothing in
it separates several tenants or parts of a path.
-/

namespace TenantRegistry

/-- A header as it was received. -/
structure Header where
  name : List UInt8
  value : List UInt8
  deriving DecidableEq, Repr

/-- An octet as the character of its code. -/
def octetChar (b : UInt8) : Char :=
  Char.ofNat b.toNat

/-- The octets of an ASCII name, with letters in lower case. -/
def lowerOctets (octets : List UInt8) : List Char :=
  octets.map fun b => (octetChar b).toLower

namespace Tenant

/-- The name of the tenant header, which is compared without case. -/
def headerName : String := "x-scope-orgid"

def maxLength : Nat := 150

/-- The characters of tenants. -/
def isTenantChar (c : Char) : Bool :=
  c.isAlphanum || "!-_.*'()".toList.contains c

def isValid (cs : List Char) : Bool :=
  !cs.isEmpty && cs.length ≤ maxLength && cs != ['.'] && cs != ['.', '.'] && cs.all isTenantChar

/-- An octet that a readable header value may hold: visible ASCII, space or tab. -/
def isReadable (b : UInt8) : Bool :=
  b == 9 || (32 ≤ b && b < 127)

/-- The text of a header value without blanks at its ends. None if an octet is not readable. -/
def valueText? (value : List UInt8) : Option (List Char) :=
  if value.all isReadable then some (Text.trimBy Text.isBlank (value.map octetChar)) else none

/-- The values of the tenant headers. -/
def values (headers : List Header) : List (List UInt8) :=
  (headers.filter fun h => lowerOctets h.name == headerName.toList).map (·.value)

/-- The tenant of a request for `uri`. -/
def ofHeaders (headers : List Header) (uri : String) : Except RequestError String :=
  match values headers with
  | [] => .error (.tenant .missing uri)
  | [value] =>
    match valueText? value with
    | some cs => if isValid cs then .ok (String.ofList cs) else .error (.tenant .invalid uri)
    | none => .error (.tenant .invalid uri)
  | _ => .error (.tenant .invalid uri)

end Tenant
end TenantRegistry
