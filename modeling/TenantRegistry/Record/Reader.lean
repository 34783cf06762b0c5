import TenantRegistry.Record.Basic
import TenantRegistry.Yaml.Tree.Reader

/-!
From documents to submitted records.

A record is a mapping with the fields of its kind, each at most once and no other. Name and
content must be there; the type may be left out and an exporter's credential may also be null.
Text fields take any scalar as it is written. A document that is empty or null is no record.
-/

namespace TenantRegistry

open Yaml

/-- The fields of records. Each kind calls its content by a name of its own. -/
inductive Field where
  | name
  | type
  | reference
  | content
  deriving DecidableEq, Repr

namespace Kind

/-- The name of the content field. -/
def contentField : Kind → String
  | .credential => "value"
  | .exporter => "config"

/-- The fields of a kind with their names, in the order messages list them. -/
def fields : Kind → List (String × Field)
  | .credential => [("name", .name), ("type", .type), ("value", .content)]
  | .exporter => [("name", .name), ("type", .type), ("credential", .reference), ("config", .content)]

/-- What a message calls a record. -/
def recordName : Kind → String
  | .credential => "struct CredentialSubmission"
  | .exporter => "struct ExporterSubmission"

end Kind

/-- The fields of a record that are read so far. -/
structure Draft where
  name : Option String := none
  type : Option String := none
  reference : Option (Option String) := none
  content : Option Tree := none

namespace Draft

def has (d : Draft) : Field → Bool
  | .name => d.name.isSome
  | .type => d.type.isSome
  | .reference => d.reference.isSome
  | .content => d.content.isSome

/-- The content of a kind, as far as the fields give it. -/
def contentOf (d : Draft) (t : Tree) : (k : Kind) → Content k
  | .credential => .credential t
  | .exporter => .exporter (d.reference.getD none) t

/-- The record, if name and content are there. -/
def finish (d : Draft) (k : Kind) : Except Complaint (Submission k) :=
  match d.name, d.content with
  | some name, some t => .ok ⟨name, d.type.getD "", d.contentOf t k⟩
  | none, _ => .error (.missingField "name")
  | _, none => .error (.missingField k.contentField)

end Draft

namespace Read

open Yaml.Read

/-- What a scalar is found to be where something else is expected. -/
def scalarMismatch {α : Type} (props : Properties) (style : ScalarStyle) (text : String)
    (expected : String) : Read α :=
  match Scalar.ofNode false props.tag style text with
  | .ok s => fail (.mismatch (.scalar s) expected)
  | .error unfit => fail (.unfit text unfit)

/-- The text of a scalar that is no alias. -/
def plainText (expected : String) (path : Path) : Node → Read String
  | .scalar _ _ text => return text
  | .sequence props _ => within path props.mark (fail (.mismatch .sequence expected))
  | .mapping props _ => within path props.mark (fail (.mismatch .mapping expected))
  | .alias .. | .fault => fail .malformed

/-- The text of a scalar as it is written. -/
def text (scope : Scope) (expected : String) (path : Path) : Node → Read String
  | .alias mark anchor => within path mark do
    plainText expected (.alias path) (← follow scope anchor)
  | n => plainText expected path n

/-- A node stands for nothing: it is plain and either empty or null. The null tag fits only a
null. -/
def isAbsent : Node → Except Complaint Bool
  | .scalar props style text =>
    if style ≠ .plain then .ok false
    else
      match props.tag with
      | none => .ok (text.isEmpty || Scalar.isNull text)
      | some tag =>
        if tag = Tag.core "null" then
          if Scalar.isNull text then .ok true else .error (.unfit text "null")
        else .ok false
  | _ => .ok false

/-- What `reader` reads, unless the node stands for nothing. -/
def optional {α : Type} (scope : Scope) (reader : Path → Node → Read α) (path : Path) (n : Node) :
    Read (Option α) := do
  let (path, n) ← match n with
    | .alias _ anchor => do pure (Path.alias path, ← follow scope anchor)
    | n => pure (path, n)
  match n, isAbsent n with
  | .fault, _ => fail .malformed
  | _, .error c => fail c
  | _, .ok true => return none
  | _, .ok false => return some (← reader path n)

/-- Reads the value of a field into a draft. -/
def field (scope : Scope) (path : Path) (d : Draft) (n : Node) : Field → Read Draft
  | .name => do return { d with name := some (← text scope "a string" path n) }
  | .type => do return { d with type := some (← text scope "a string" path n) }
  | .reference => do
    return { d with reference := some (← optional scope (text scope "a string") path n) }
  | .content => do return { d with content := some (← tree scope (depthLimit - 1) false path n) }

/-- Reads the entries of a record into a draft. -/
def draft (scope : Scope) (k : Kind) (path : Path) : Draft → List (Node × Node) → Read Draft
  | d, [] => return d
  | d, (key, value) :: rest => do
    let name ← match key with
      | .fault => fail .malformed
      | key => text scope "field identifier" path key
    match k.fields.find? (·.1 == name) with
    | none =>
      within path (keyMark scope key) (fail (.unknownField name (k.fields.map (·.1))))
    | some (name, f) =>
      if d.has f then fail (.duplicateField name)
      else draft scope k path (← field scope (valuePath path key) d value f) rest
where
  /-- Where the text of a key stands. -/
  keyMark (scope : Scope) : Node → Mark
    | .scalar props _ _ => props.mark
    | .alias _ anchor =>
      match scope.anchored.find? (·.1 == anchor) with
      | some (_, .scalar props _ _) => props.mark
      | _ => Mark.start
    | _ => Mark.start

/-- A record. A tagged scalar without text is a record without fields. -/
def record (scope : Scope) (k : Kind) (path : Path) : Node → Read (Submission k)
  | .mapping props entries => within path props.mark do
    finish (← draft scope k path {} entries)
  | .sequence props _ => within path props.mark (fail (.mismatch .sequence k.recordName))
  | .scalar props style text => within path props.mark do
    if style = .plain ∧ text.isEmpty then finish {}
    else scalarMismatch props style text k.recordName
  | .alias .. | .fault => fail .malformed
where
  finish (d : Draft) : Read (Submission k) :=
    match d.finish k with
    | .ok s => return s
    | .error c => fail c

end Read

/-- The record of a document, if it has one. -/
def Submission.ofDocument (k : Kind) (d : Document) : Except ReadError (Option (Submission k)) :=
  d.read fun scope => Read.optional scope (Read.record scope k)

end TenantRegistry
