import TenantRegistry.Json.Reader
import TenantRegistry.Store.Call
import TenantRegistry.Text.Utf16
import TenantRegistry.Text.Utf8
import TenantRegistry.Web.Status

/-!
What a GraphQL endpoint's reply says about a call.

A reply is an envelope with data and errors. Any error fails the call, whatever the data; a
violated constraint is a conflict. Without errors there must be data, which has to fit the call.

A record is written as an object, whose unknown fields count for nothing, or as the array of its
fields in order.
-/

namespace TenantRegistry.Graphql

open Json (Written)

/-- How octets are read as a text. -/
abbrev Charset := List UInt8 → List Char

/-- A reply as it arrives. Its charset is the one that its content type names, or UTF-8 if it names
none that is known. -/
structure Reply where
  status : Nat
  charset : Charset
  body : List UInt8

/-- The text of a body. A byte order mark at its start is no part of it and overrides the
charset. -/
def Reply.text (r : Reply) : List Char :=
  match r.body with
  | 0xEF :: 0xBB :: 0xBF :: rest => Utf8.decodeLossy rest
  | 0xFE :: 0xFF :: rest => Utf16.decodeLossy .big rest
  | 0xFF :: 0xFE :: rest => Utf16.decodeLossy .little rest
  | body => r.charset body

example : Reply.text ⟨200, Utf8.decodeLossy, [0xFF, 0xFE, 0x7B, 0x00, 0x7D, 0x00]⟩ =
    ['\x7b', '\x7d'] := by decide

namespace Written

/-- The values under a name. -/
def under (name : String) (entries : List (Option String × Written)) : List Written :=
  (entries.filter (·.1 == some name)).map (·.2)

/-- What a record has in the fields with these names; of an array, the first `least` may not be
missing. -/
def fields? (names : List String) (least : Nat) : Written → Option (List (Option Written))
  | .array items =>
    if least ≤ items.length ∧ items.length ≤ names.length then
      some (items.map some ++ List.replicate (names.length - items.length) none)
    else none
  | .object entries =>
    if entries.all (·.1.isSome) ∧ names.all fun name => (under name entries).length ≤ 1 then
      some (names.map fun name => (under name entries).head?)
    else none
  | _ => none

def text? : Option Written → Option String
  | some (.string s) => s
  | _ => none

/-- What may be null or missing. -/
def optional? {α : Type} (read : Written → Option α) : Option Written → Option (Option α)
  | none => some none
  | some .null => some none
  | some w => (read w).map some

/-- The items of an array. -/
def list? {α : Type} (read : Written → Option α) : Option Written → Option (List α)
  | some (.array items) => items.mapM read
  | _ => none

/-- A stored JSON text: a string holds the text itself, any other value is written out. -/
def jsonText? (depth : Nat) (w : Option Written) : Option String := do
  match ← (← w).value? Json.reread depth with
  | .string s => return s
  | value => return value.text

end Written

open Graphql.Written

/-- The collections that a row is part of, itself included, when it is an item of a list. -/
def listedRowDepth : Nat := 4

/-- The collections that a row is part of, itself included, when it stands alone. -/
def singleRowDepth : Nat := 3

/-- The row that a record writes as part of `depth` collections. -/
def row? (k : Kind) (depth : Nat) (w : Written) : Option (Row k) :=
  match k with
  | .credential => do
    match ← fields? ["name", "type", "created_at", "updated_at"] 4 w with
    | [name, type, createdAt, updatedAt] =>
      return ⟨← text? name, ← text? type, .credential, ← text? createdAt, ← text? updatedAt⟩
    | _ => none
  | .exporter => do
    match ← fields? ["name", "type", "credential", "config", "created_at", "updated_at"] 6 w with
    | [name, type, reference, config, createdAt, updatedAt] =>
      return ⟨← text? name, ← text? type,
        .exporter (← optional? (fun w => text? (some w)) reference)
          (← jsonText? (Json.depthLimit - depth) config),
        ← text? createdAt, ← text? updatedAt⟩
    | _ => none

/-- What the only field of some data holds. -/
def field? {α : Type} (name : String) (read : Option Written → Option α) (data : Written) :
    Option α := do
  match ← fields? [name] 1 data with
  | [w] => read w
  | _ => none

/-- The answer to a call that some data are. -/
def data? {k : Kind} : (c : Call k) → Written → Option c.Reply
  | .list _, data => field? k.name (list? (row? k listedRowDepth)) data
  | .get .., data => field? (k.name ++ "_by_pk") (optional? (row? k singleRowDepth)) data
  | .insert .., _ => some ()
  | .update .., _ => some ()
  | .delete .., data =>
    field? ("delete_" ++ k.name ++ "_by_pk") (optional? (row? k singleRowDepth)) data

/-- An error of a reply. -/
structure Problem where
  message : String
  code : Option String
  deriving DecidableEq, Repr

def extensions? (w : Written) : Option (Option String) := do
  match ← fields? ["code"] 1 w with
  | [code] => optional? (fun w => text? (some w)) code
  | _ => none

def problem? (w : Written) : Option Problem := do
  match ← fields? ["message", "extensions"] 1 w with
  | [message, extensions] =>
    return ⟨← text? message, (← optional? extensions? extensions).join⟩
  | _ => none

/-- The code of a violated constraint. -/
def constraintViolation : String := "constraint-violation"

/-- The failure that some errors make. -/
def failure (problems : List Problem) : StoreError :=
  let message := "; ".intercalate (problems.map (·.message))
  if problems.any (·.code == some constraintViolation) then .conflict message
  else .backend message

/-- The data of an envelope and its errors, which may be left out. -/
def envelope? {k : Kind} (c : Call k) (w : Written) :
    Option (Option c.Reply × List Problem) := do
  match ← fields? ["data", "errors"] 1 w with
  | [data, errors] =>
    let data ← optional? (data? c) data
    let problems ← match errors with
      | none => some []
      | errors => list? problem? errors
    return (data, problems)
  | _ => none

/-- What a body says about a call. -/
def answerOf {k : Kind} (c : Call k) (body : List Char) : c.Answer :=
  match (Written.ofText? body).bind (envelope? c) with
  | some (data, []) =>
    match data with
    | some reply => .ok reply
    | none => .error (.backend "GraphQL response contained no data")
  | some (_, problems) => .error (failure problems)
  | none => .error (.decode "the reply does not fit the call")

/-- What a reply says about a call. -/
def Reply.answer {k : Kind} (r : Reply) (c : Call k) : c.Answer :=
  if Web.Status.isSuccess r.status then answerOf c r.text
  else
    .error (.backend ("GraphQL endpoint returned " ++ Web.Status.text r.status ++ ": " ++
      String.ofList r.text))

end TenantRegistry.Graphql
