import TenantRegistry.Record.Basic

/-!
The columns in which tables keep records. Both stores with tables name them alike, and the table
of a kind has the name of the kind.
-/

namespace TenantRegistry.Column

/-- The columns of a payload. -/
def payload : Kind → List String
  | .credential => ["value"]
  | .exporter => ["credential", "config"]

/-- The columns of a payload that are read back. -/
def view : Kind → List String
  | .credential => []
  | .exporter => ["credential", "config"]

/-- All columns of a table, the tenant first. -/
def all (k : Kind) : List String :=
  ["tenant", "name", "type"] ++ payload k ++ ["created_at", "updated_at"]

/-- The columns that are read back. -/
def read (k : Kind) : List String :=
  ["name", "type"] ++ view k ++ ["created_at", "updated_at"]

end TenantRegistry.Column

namespace TenantRegistry

/-- What the columns of a payload hold. -/
def Payload.cells : {k : Kind} → Payload k → List (Option String)
  | _, .credential value => [some value]
  | _, .exporter reference config => [reference, some config]

end TenantRegistry
