import TenantRegistry.Failure
import TenantRegistry.Json.Reader
import TenantRegistry.Yaml.Tree.Basic

/-!
The two types of credentials and what their values must be.

An `aws-key` is a mapping with exactly two string fields and is stored as a JSON object. A
`gcp-service-account` is the text of a key file, which must be JSON and is stored as it is.
-/

namespace TenantRegistry.Credential

open Yaml (Tree)

inductive CredentialType where
  | awsKey
  | gcpServiceAccount
  deriving DecidableEq, Repr

/-- The type with a name. -/
def type? (name : String) : Except RequestError CredentialType :=
  if name = "aws-key" then .ok .awsKey
  else if name = "gcp-service-account" then .ok .gcpServiceAccount
  else .error (.unsupportedType .credential name)

def keyIdField : String := "AWS_ACCESS_KEY_ID"

def secretField : String := "AWS_SECRET_ACCESS_KEY"

/-- The text of a string, whatever its tag. -/
def stringOf? (t : Tree) : Option String :=
  match t.untagged with
  | .string s => some s
  | _ => none

/-- The value under a string key. -/
def field? (key : String) (entries : List (Tree × Tree)) : Option Tree :=
  (entries.find? fun (k, _) => k.same (.string key)).map (·.2)

/-- The two fields of an `aws-key`, or what is wrong with it. -/
def awsFields (value : Tree) : Except String (String × String) :=
  match value with
  | .mapping entries =>
    if entries.length ≠ 2 then .error "wrong size"
    else
      match field? keyIdField entries, field? secretField entries with
      | some keyId, some secret =>
        match stringOf? keyId, stringOf? secret with
        | some keyId, some secret => .ok (keyId, secret)
        | _, _ => .error "non-string fields"
      | _, _ => .error "missing fields"
  | _ => .error "expected a map"

/-- The object that an `aws-key` is stored as. -/
def awsPayload (keyId secret : String) : Json :=
  .object [(keyIdField, .string keyId), (secretField, .string secret)]

def awsShape (reason : String) : String :=
  "value must contain YAML string fields: " ++ keyIdField ++ " and " ++ secretField ++ " (" ++
    reason ++ ")"

/-- The payload of a credential with this value. -/
def CredentialType.payload (type : CredentialType) (name : String) (value : Tree) :
    Except RequestError String :=
  match type with
  | .awsKey =>
    match awsFields value with
    | .ok (keyId, secret) => .ok (awsPayload keyId secret).text
    | .error reason => .error (.shape .credential name (awsShape reason))
  | .gcpServiceAccount =>
    match value with
    | .string text =>
      if Json.isWellFormed text then .ok text
      else .error (.shape .credential name "value is not a valid JSON string")
    | _ => .error (.shape .credential name "value must be a JSON string")

/-- Checks a value against the type with the given name. -/
def validate (name typeName : String) (value : Tree) : Except RequestError String := do
  (← type? typeName).payload name value

end TenantRegistry.Credential
