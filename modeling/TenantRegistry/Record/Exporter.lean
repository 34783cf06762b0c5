import TenantRegistry.Failure
import TenantRegistry.Json.Reader
import TenantRegistry.Yaml.Tree.Normalize

/-!
The configuration of an exporter: a YAML mapping that is stored as JSON text and expanded again
when it is shown.
-/

namespace TenantRegistry.Exporter

open Yaml (Tree)

/-- The text that a configuration is stored as. It must be a mapping, tagged or not. -/
def encode (name : String) (maxDepth : Nat) (config : Tree) : Except RequestError String :=
  match config.untagged with
  | .mapping _ =>
    match config.normalize maxDepth with
    | .ok json => .ok json.text
    | .error e =>
      .error (.shape .exporter name ("config could not be encoded as JSON: " ++ e.message))
  | _ => .error (.shape .exporter name "config is invalid (must be YAML map)")

/-- The only key of a configuration that could not be expanded. -/
def unexpandedKey : String := "json"

/-- The object that a stored configuration writes. Any other text is shown whole under one
key. -/
def expand (stored : String) : List (String × Json) :=
  match Json.objectOfText? stored with
  | some entries => entries
  | none => [(unexpandedKey, .string stored)]

end TenantRegistry.Exporter
