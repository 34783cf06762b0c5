import TenantRegistry.Kind
import TenantRegistry.Time.Timestamp
import TenantRegistry.Yaml.Tree.Basic

/-!
Credentials and exporters on their way from a request to the store and back.

Both kinds have a name, a type and times; what a kind has beyond that is its content as
submitted, its payload as stored and its view as read back. The secret of a credential is
written and never read back.
-/

namespace TenantRegistry

/-- What a submitted record of a kind has beside its name and type. -/
inductive Content : Kind → Type where
  | credential (value : Yaml.Tree) : Content .credential
  | exporter (reference : Option String) (config : Yaml.Tree) : Content .exporter

/-- What is stored beside name, type and times. -/
inductive Payload : Kind → Type where
  | credential (value : String) : Payload .credential
  | exporter (reference : Option String) (config : String) : Payload .exporter
  deriving DecidableEq, Repr

/-- What is read back beside name, type and times. -/
inductive View : Kind → Type where
  | credential : View .credential
  | exporter (reference : Option String) (config : String) : View .exporter
  deriving DecidableEq, Repr

def Payload.view : {k : Kind} → Payload k → View k
  | _, .credential _ => .credential
  | _, .exporter reference config => .exporter reference config

/-- A record as submitted; the type is empty if it was left out. -/
structure Submission (k : Kind) where
  name : String
  type : String
  content : Content k

/-- A record to be stored under a new name. -/
structure Insert (k : Kind) where
  name : String
  type : String
  payload : Payload k
  createdAt : Timestamp
  updatedAt : Timestamp
  deriving DecidableEq, Repr

/-- New content for a stored name. -/
structure Update (k : Kind) where
  name : String
  payload : Payload k
  updatedAt : Timestamp
  deriving DecidableEq, Repr

/-- A record as it is read back. -/
structure Row (k : Kind) where
  name : String
  type : String
  view : View k
  createdAt : String
  updatedAt : String
  deriving DecidableEq, Repr

end TenantRegistry
