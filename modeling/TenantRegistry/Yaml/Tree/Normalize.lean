import TenantRegistry.Json.Basic
import TenantRegistry.Yaml.Tree.Basic

/-!
From YAML values to JSON values.

JSON has no tags, only string keys, no number that is not finite and, here, no more nesting than
a given depth. Tags are dropped; the first node in document order that JSON cannot hold is the
error.
-/

namespace TenantRegistry.Yaml

/-- Why a tree has no JSON form. -/
inductive NormalizeError where
  | nonStringKey (key : String)
  | nonFiniteNumber (number : String)
  | tooDeep (maxDepth : Nat)
  deriving DecidableEq, Repr

def NormalizeError.message : NormalizeError → String
  | .nonStringKey key => "map keys must be strings (found " ++ key ++ ")"
  | .nonFiniteNumber number => "number " ++ number ++ " cannot be represented in JSON"
  | .tooDeep maxDepth => "nesting exceeds maximum depth of " ++ toString maxDepth

namespace Tree

/-- A tag as it is shown. -/
def tagText (tag : String) : String :=
  "!" ++ tag

/-- A key in a message. -/
def describe : Tree → String
  | .null => "null"
  | .bool b => toString b
  | .number n => String.ofList (numberText n)
  | .string s => s
  | .sequence _ => "a sequence"
  | .mapping _ => "a mapping"
  | .tagged tag value => tagText tag ++ " " ++ value.describe

mutual

/-- The JSON form of a tree under `depth` collections. -/
def normalizeAt (maxDepth depth : Nat) : Tree → Except NormalizeError Json
  | .null => .ok .null
  | .bool b => .ok (.bool b)
  | .number n =>
    if n.isFinite then .ok (.number n) else .error (.nonFiniteNumber (String.ofList (numberText n)))
  | .string s => .ok (.string s)
  | .sequence items =>
    if maxDepth ≤ depth then .error (.tooDeep maxDepth)
    else (normalizeItems maxDepth (depth + 1) items).map .array
  | .mapping entries =>
    if maxDepth ≤ depth then .error (.tooDeep maxDepth)
    else (normalizeEntries maxDepth (depth + 1) entries).map Json.ofEntries
  | .tagged _ value => normalizeAt maxDepth depth value

def normalizeItems (maxDepth depth : Nat) : List Tree → Except NormalizeError (List Json)
  | [] => .ok []
  | t :: rest => do
    let j ← normalizeAt maxDepth depth t
    return j :: (← normalizeItems maxDepth depth rest)

def normalizeEntries (maxDepth depth : Nat) : List (Tree × Tree) →
    Except NormalizeError (List (String × Json))
  | [] => .ok []
  | (k, v) :: rest =>
    match k with
    | .string key => do
      let j ← normalizeAt maxDepth depth v
      return (key, j) :: (← normalizeEntries maxDepth depth rest)
    | k => .error (.nonStringKey k.describe)

end

/-- The JSON form of a tree whose collections are nested at most `maxDepth` deep. -/
def normalize (t : Tree) (maxDepth : Nat) : Except NormalizeError Json :=
  normalizeAt maxDepth 0 t

end Tree
end TenantRegistry.Yaml
