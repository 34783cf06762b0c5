import TenantRegistry.Failure
import TenantRegistry.Text.Quoted
import TenantRegistry.Web.Url

/-!
Addresses of SQL databases: URLs whose query holds options of the connection.

Only what is wrong with an address is of interest here. Of several things the first counts: the
URL, its parts in their order, the options in theirs. Unknown options are passed over.
-/

namespace TenantRegistry.Sql.Address

open Web

/-- What is wrong with a whole number of an option, if anything. -/
def numberProblem? (bound : Nat) (s : List Char) : Option String :=
  let digits := match s with
    | '+' :: d :: rest => d :: rest
    | cs => cs
  if s.isEmpty then some "cannot parse integer from empty string"
  else
    match Number.ofDigits? 10 digits with
    | none => some "invalid digit found in string"
    | some n => if n < bound then none else some "number too large to fit in target type"

/-- The ways to secure a connection. -/
def sslModes : List String :=
  ["disable", "allow", "prefer", "require", "verify-ca", "verify-full"]

def configuration (detail : String) : String :=
  "error with configuration: " ++ detail

def sslModeProblem? (value : List Char) : Option String :=
  if sslModes.contains (String.ofList (value.map Char.toLower)) then none
  else
    some (configuration ("unknown value " ++ Text.quote (String.ofList value) ++ " for `ssl_mode`"))

def addressProblem? (value : List Char) : Option String :=
  if (Host.ipv6Tail? value).isSome || (Host.ipv6? value).isSome then none
  else some "invalid IP address syntax"

def optionProblem? (name value : List Char) : Option String :=
  if name = "sslmode".toList ∨ name = "ssl-mode".toList then sslModeProblem? value
  else if name = "statement-cache-capacity".toList then numberProblem? (Nat.pow 2 64) value
  else if name = "port".toList then numberProblem? (Nat.pow 2 16) value
  else if name = "hostaddr".toList then addressProblem? value
  else none

/-- A name or value of a query: a plus stands for a space, and encoded octets are decoded. -/
def queryText (cs : List Char) : List Char :=
  let cs := cs.map fun c => if c = '+' then ' ' else c
  Utf8.decodeLossy (Percent.decode (Utf8.encode cs))

/-- The options of a query. -/
def options (query : List Char) : List (List Char × List Char) :=
  ((Text.pieces (· == '&') query).filter (!·.isEmpty)).map fun piece =>
    let (name, value) := Url.cut (· == '=') piece
    (queryText name, queryText (value.getD []))

/-- What is wrong with the text that a part encodes. -/
def textProblem? (part : List Char) : Option String :=
  match Utf8.decode (Percent.decode (Utf8.encode part)) with
  | .ok _ => none
  | .error fault => some fault.message

/-- The parts of a URL that are names: host, user, password and database. -/
def nameParts (url : Url) : List (List Char) :=
  (match url.authority with
    | some a => [a.host.chars, a.username, a.password]
    | none => []) ++
    [Url.pathText url.authority.isSome url.path]

/-- What is wrong with an address. -/
def problem? (address : String) (toAscii : Domain.ToAscii := Domain.toAscii?) :
    Option StoreError :=
  let detail := match Url.ofString address toAscii with
    | .error problem => some problem.message
    | .ok url =>
      ((nameParts url).findSome? textProblem?).or
        ((options (url.query.getD [])).findSome? fun (name, value) => optionProblem? name value)
  detail.map fun detail => .sql (configuration detail)

example : problem? "nope" = some (.sql "error with configuration: relative URL without a base") := by
  decide +kernel
example : problem? "postgres://h/db?sslmode=Require&port=5432" = none := by decide +kernel

end TenantRegistry.Sql.Address
