import TenantRegistry.Kind

/-!
Routes: which resource a path names and what methods it has.

Each kind has a collection and items under it, both with or without a final slash. The name of
an item is one segment of the path, percent-encoded, and may be empty only before a final slash.
Requests are counted under a kind that is told without looking at the rest of the path.
-/

namespace TenantRegistry.Web

/-- What can be asked for under the path of a kind. -/
inductive Resource where
  | collection
  /-- An item, its name as the path writes it. -/
  | item (segment : List Char)
  deriving DecidableEq, Repr

inductive Route where
  | health
  | metrics
  | records (k : Kind) (resource : Resource)
  deriving DecidableEq, Repr

/-- What a request does with the records of a kind. -/
inductive Action where
  | list
  | write
  | get (segment : List Char)
  | delete (segment : List Char)
  deriving DecidableEq, Repr

/-- What a method does with a resource, if it has the method. -/
def Resource.action? : Resource → (method : String) → Option Action
  | .collection, method =>
    if method = "GET" ∨ method = "HEAD" then some .list
    else if method = "POST" then some .write
    else none
  | .item segment, method =>
    if method = "GET" ∨ method = "HEAD" then some (.get segment)
    else if method = "DELETE" then some (.delete segment)
    else none

/-- The methods of a resource. -/
def Resource.methods : Resource → String
  | .collection => "GET,HEAD,POST"
  | .item _ => "GET,HEAD,DELETE"

namespace Route

/-- The path of a kind's collection. -/
def basePath (k : Kind) : List Char :=
  "/api/v1/".toList ++ k.plural.toList

/-- What follows the path of a collection, as a resource. -/
def resource? : List Char → Option Resource
  | [] => some .collection
  | ['/'] => some .collection
  | '/' :: rest =>
    match rest.dropWhile (· ≠ '/') with
    | [] => some (.item rest)
    | ['/'] => some (.item (rest.takeWhile (· ≠ '/')))
    | _ => none
  | _ => none

/-- The route of a path below the collection of a kind. -/
def under? (k : Kind) (path : List Char) : Option Route :=
  if (basePath k).isPrefixOf path then
    (resource? (path.drop (basePath k).length)).map (.records k)
  else none

def ofPath? (path : List Char) : Option Route :=
  if path = "/health".toList then some .health
  else if path = "/metrics".toList then some .metrics
  else (under? .credential path).or (under? .exporter path)

/-- The kind that a path is counted under, which its first characters tell. -/
def kindLabel (path : List Char) : String :=
  if (basePath .credential).isPrefixOf path then Kind.credential.name
  else if (basePath .exporter).isPrefixOf path then Kind.exporter.name
  else "unknown"

example : ofPath? "/api/v1/credentials/".toList = some (.records .credential .collection) := by
  decide +kernel
example : ofPath? "/api/v1/exporters/a%2Fb/".toList =
    some (.records .exporter (.item "a%2Fb".toList)) := by decide +kernel
example : ofPath? "/api/v1/exporters//".toList = some (.records .exporter (.item [])) := by
  decide +kernel
example : ofPath? "/api/v1/exportersx".toList = none := by decide +kernel

end Route
end TenantRegistry.Web
