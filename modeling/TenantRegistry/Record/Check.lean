import TenantRegistry.Record.Basic
import TenantRegistry.Record.Credential
import TenantRegistry.Record.Exporter

/-!
From submitted records to what is stored.

A record needs a name, and content that its type accepts. A new record also needs a type, which
only an exporter is asked for, since no credential has content that an empty type accepts. A stored
record keeps its type, which is the one its new content is checked against if the record names none.
-/

namespace TenantRegistry

/-- What all records of one request share. -/
structure BatchContext where
  now : Timestamp
  maxDepth : Nat
  deriving DecidableEq, Repr

/-- The payload of some content under a name and a type. An empty reference is none. -/
def Content.payload {k : Kind} (c : Content k) (name type : String) (maxDepth : Nat) :
    Except RequestError (Payload k) :=
  match c with
  | .credential value => (Credential.validate name type value).map .credential
  | .exporter reference config =>
    (Exporter.encode name maxDepth config).map (.exporter (reference.filter (· ≠ "")))

namespace Submission

variable {k : Kind}

def requireName (s : Submission k) : Except RequestError Unit :=
  if s.name = "" then .error (.shape k "" "is missing a name") else .ok ()

/-- Asks a new exporter for its type. -/
def requireType (s : Submission k) : Except RequestError Unit :=
  match k with
  | .credential => .ok ()
  | .exporter =>
    if s.type = "" then .error (.shape .exporter s.name "is missing a type") else .ok ()

/-- The record as a new one. -/
def toInsert (s : Submission k) (ctx : BatchContext) : Except RequestError (Insert k) := do
  s.requireName
  let payload ← s.content.payload s.name s.type ctx.maxDepth
  s.requireType
  return ⟨s.name, s.type, payload, ctx.now, ctx.now⟩

/-- The record as new content for a stored one of type `current`. -/
def toUpdate (s : Submission k) (current : String) (ctx : BatchContext) :
    Except RequestError (Update k) := do
  s.requireName
  let type := if s.type = "" then current else s.type
  let payload ← s.content.payload s.name type ctx.maxDepth
  return ⟨s.name, payload, ctx.now⟩

end Submission
end TenantRegistry
