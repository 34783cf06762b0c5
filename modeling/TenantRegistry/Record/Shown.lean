import TenantRegistry.Record.Basic
import TenantRegistry.Record.Exporter
import TenantRegistry.Yaml.Tree.Printer

/-!
The documents in which clients see what is stored and what a write has done.

Fields without content are left out. A credential shows nothing of its value, and an exporter
shows its configuration as a tree.
-/

namespace TenantRegistry

open Yaml (Tree)

mutual

/-- A JSON value as a YAML value. -/
def Json.toTree : Json → Tree
  | .null => .null
  | .bool b => .bool b
  | .number n => .number n
  | .string s => .string s
  | .array items => .sequence (Json.toTrees items)
  | .object entries => .mapping (Json.toEntries entries)

def Json.toTrees : List Json → List Tree
  | [] => []
  | j :: rest => j.toTree :: Json.toTrees rest

def Json.toEntries : List (String × Json) → List (Tree × Tree)
  | [] => []
  | (k, v) :: rest => (.string k, v.toTree) :: Json.toEntries rest

end

/-- A text field, unless it is empty. -/
def textField (name value : String) : List (Tree × Tree) :=
  if value = "" then [] else [(.string name, .string value)]

/-- What a kind shows beside name, type and times. -/
def View.fields : {k : Kind} → View k → List (Tree × Tree)
  | _, .credential => []
  | _, .exporter reference config =>
    textField "credential" (reference.getD "") ++
      [(.string "config", .mapping (Json.toEntries (Exporter.expand config)))]

/-- The document of a stored record. -/
def Row.shown {k : Kind} (r : Row k) : Tree :=
  .mapping ((.string "name", .string r.name) :: textField "type" r.type ++ r.view.fields ++
    textField "created_at" r.createdAt ++ textField "updated_at" r.updatedAt)

/-- The names that a write has inserted and updated. -/
structure Summary where
  inserted : List String
  updated : List String
  deriving DecidableEq, Repr

def Summary.shown (s : Summary) : Tree :=
  .mapping [(.string "inserted", .sequence (s.inserted.map .string)),
    (.string "updated", .sequence (s.updated.map .string))]

end TenantRegistry
