import TenantRegistry.Failure
import TenantRegistry.Yaml.Tree.Printer

/-!
Answers to HTTP requests: documents as a YAML stream, failures as a line of text.
-/

namespace TenantRegistry.Web

structure Response where
  status : Nat
  contentType : Option String
  /-- The methods of the resource, if the request's method is none of them. -/
  allow : Option String
  body : String
  deriving DecidableEq, Repr

namespace Response

def yamlType : String := "application/yaml"

def textType : String := "text/plain; charset=utf-8"

def text (status : Nat) (body : String) : Response :=
  ⟨status, some textType, none, body⟩

/-- A response without content. -/
def empty (status : Nat) : Response :=
  ⟨status, none, none, ""⟩

/-- A failure: its message and a line feed. -/
def failure (status : FailureStatus) (message : String) : Response :=
  text status.number (message ++ "\n")

def ofError (e : RequestError) : Response :=
  failure e.status e.message

/-- Documents as a stream. What cannot be written is a failure of the server. -/
def documents (docs : List Yaml.Tree) : Response :=
  match Yaml.Tree.renderAll docs with
  | some body => ⟨200, some yamlType, none, String.ofList body⟩
  | none => failure .internal "Failed to encode response"

end Response
end TenantRegistry.Web
