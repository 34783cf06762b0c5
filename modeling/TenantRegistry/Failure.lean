import TenantRegistry.Kind

/-!
Why a request fails, and what a client is told.

A failure is either the request's fault or the store's. Its message is the body of the answer,
its status the status; a store that finds a name taken makes a conflict.
-/

namespace TenantRegistry

/-- Why a store call fails. -/
inductive StoreError where
  /-- The name is taken. -/
  | conflict (detail : String)
  | backend (detail : String)
  /-- The store was not reached. -/
  | http (detail : String)
  | sql (detail : String)
  /-- The store's answer makes no sense. -/
  | decode (detail : String)
  deriving DecidableEq, Repr

namespace StoreError

def message : StoreError → String
  | .conflict detail => "conflict: " ++ detail
  | .backend detail => detail
  | .http detail => "HTTP client error: " ++ detail
  | .sql detail => detail
  | .decode detail => "unexpected response: " ++ detail

def isConflict : StoreError → Bool
  | .conflict _ => true
  | _ => false

end StoreError

/-- What is wrong with the tenant of a request. -/
inductive TenantProblem where
  | missing
  | invalid
  deriving DecidableEq, Repr

def TenantProblem.name : TenantProblem → String
  | .missing => "missing"
  | .invalid => "invalid"

/-- The credential types there are, as a message lists them. -/
def supportedTypes : String := "aws-key or gcp-service-account"

/-- Why a request fails. -/
inductive RequestError where
  | tenant (problem : TenantProblem) (uri : String)
  /-- Record number `index` of the body cannot be read. -/
  | decode (kind : Kind) (index : Nat) (detail : String)
  | shape (kind : Kind) (name detail : String)
  | unsupportedType (kind : Kind) (found : String)
  | typeChange (kind : Kind) (name current attempted : String)
  | emptyBatch (kind : Kind)
  | notFound (kind : Kind) (owner name : String)
  /-- A store call failed; `action` says which. -/
  | store (action : String) (cause : StoreError)
  deriving DecidableEq, Repr

/-- The status of an answer to a failed request. -/
inductive FailureStatus where
  | badRequest
  | notFound
  | conflict
  | internal
  deriving DecidableEq, Repr

namespace FailureStatus

def number : FailureStatus → Nat
  | .badRequest => 400
  | .notFound => 404
  | .conflict => 409
  | .internal => 500

/-- The name of the status in logs. -/
def code : FailureStatus → String
  | .badRequest => "BAD_REQUEST"
  | .notFound => "NOT_FOUND"
  | .conflict => "CONFLICT"
  | .internal => "INTERNAL_SERVER_ERROR"

end FailureStatus

namespace RequestError

def message : RequestError → String
  | .tenant problem uri => problem.name ++ " tenant ID in request to " ++ uri
  | .decode kind index detail =>
    "Decoding " ++ kind.name ++ " input at index=" ++ toString index ++ " failed: " ++ detail
  | .shape kind name detail => kind.name ++ " '" ++ name ++ "' " ++ detail
  | .unsupportedType kind found =>
    "unsupported " ++ kind.name ++ " type: " ++ found ++ " (expected " ++ supportedTypes ++ ")"
  | .typeChange kind name current attempted =>
    kind.name ++ " '" ++ name ++ "' type cannot be updated (current=" ++ current ++ ", updated=" ++
      attempted ++ ")"
  | .emptyBatch kind => "Missing " ++ kind.name ++ " YAML data in request body"
  | .notFound kind owner name => kind.name ++ " not found: " ++ owner ++ "/" ++ name
  | .store action cause => action ++ " failed: " ++ cause.message

/-- The request itself is at fault, not the store. -/
def isClientError : RequestError → Bool
  | .store .. => false
  | _ => true

def status : RequestError → FailureStatus
  | .notFound .. => .notFound
  | .store _ cause => if cause.isConflict then .conflict else .internal
  | _ => .badRequest

end RequestError
end TenantRegistry
