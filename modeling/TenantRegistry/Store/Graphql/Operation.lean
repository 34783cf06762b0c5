import TenantRegistry.Json.Basic
import TenantRegistry.Store.Call
import TenantRegistry.Store.Column

/-!
The GraphQL operations that carry out store calls.

An operation asks for one field and is the same for all calls of a verb on a kind. What a call
is about travels in the variables.
-/

namespace TenantRegistry.Graphql

/-- The value of an argument: a variable, or an object of such values. -/
inductive Argument where
  | reference (variableName : String)
  | object (entries : List (String × Argument))

namespace Argument

def isReference : Argument → Bool
  | .reference _ => true
  | .object _ => false

mutual

def text : Argument → String
  | .reference name => "$" ++ name
  | .object entries => "\x7b" ++ ", ".intercalate (texts entries) ++ "\x7d"

def texts : List (String × Argument) → List String
  | [] => []
  | (name, value) :: rest => (name ++ ": " ++ value.text) :: texts rest

end

/-- An object that binds each name to the variable of that name. -/
def ofVariables (names : List String) : Argument :=
  .object (names.map fun name => (name, .reference name))

/-- A condition: each of these columns equals the variable of its name. -/
def equals (names : List String) : Argument :=
  .object (names.map fun name => (name, .object [("_eq", .reference name)]))

end Argument

inductive Keyword where
  | query
  | mutation
  deriving DecidableEq, Repr

def Keyword.text : Keyword → String
  | .query => "query"
  | .mutation => "mutation"

/-- An operation with one field. -/
structure Operation where
  keyword : Keyword
  title : String
  /-- The variables with their types. -/
  parameters : List (String × String)
  field : String
  arguments : List (String × Argument)
  /-- What is asked for of the field. -/
  selection : List String

namespace Operation

/-- Names in braces. -/
def block (names : List String) : String :=
  "\x7b " ++ " ".intercalate names ++ " \x7d"

/-- The arguments of a field. Several stand on lines of their own if one is an object. -/
def argumentsText (arguments : List (String × Argument)) : String :=
  if arguments.length ≤ 1 || arguments.all (·.2.isReference) then
    "(" ++ ", ".intercalate (Argument.texts arguments) ++ ")"
  else
    "(\n    " ++ ",\n    ".intercalate (Argument.texts arguments) ++ "\n  )"

def text (o : Operation) : String :=
  "\n" ++ o.keyword.text ++ " " ++ o.title ++ "(" ++
    ", ".intercalate (o.parameters.map fun (name, type) => "$" ++ name ++ ": " ++ type) ++
    ") \x7b\n  " ++ o.field ++ argumentsText o.arguments ++ " " ++ block o.selection ++ "\n\x7d"

end Operation

/-- The name of a kind in titles. -/
def title : Kind → String
  | .credential => "Credential"
  | .exporter => "Exporter"

/-- The type of the variable for a column of a payload. -/
def payloadType (column : String) : String :=
  if column = "credential" then "String" else "json!"

def tenantParameter : String × String := ("tenant", "String!")

def nameParameter : String × String := ("name", "String!")

/-- The operation of a verb on a kind. -/
def operation (k : Kind) : Verb → Operation
  | .list =>
    ⟨.query, "List" ++ title k ++ "s", [tenantParameter], k.name,
      [("where", .equals ["tenant"])], Column.read k⟩
  | .get =>
    ⟨.query, "Get" ++ title k, [tenantParameter, nameParameter], k.name ++ "_by_pk",
      [("tenant", .reference "tenant"), ("name", .reference "name")], Column.read k⟩
  | .insert =>
    ⟨.mutation, "Create" ++ title k ++ "s",
      [(k.plural, "[" ++ k.name ++ "_insert_input!]!")], "insert_" ++ k.name,
      [("objects", .reference k.plural)], ["affected_rows"]⟩
  | .update =>
    ⟨.mutation, "Update" ++ title k,
      [tenantParameter, nameParameter] ++
        (Column.payload k).map (fun column => (column, payloadType column)) ++
        [("updated_at", "timestamptz!")],
      "update_" ++ k.name,
      [("where", .equals ["tenant", "name"]),
        ("_set", .ofVariables (Column.payload k ++ ["updated_at"]))],
      ["affected_rows"]⟩
  | .delete =>
    ⟨.mutation, "Delete" ++ title k, [tenantParameter, nameParameter],
      "delete_" ++ k.name ++ "_by_pk",
      [("tenant", .reference "tenant"), ("name", .reference "name")], Column.read k⟩

/-- A text, or null. -/
def optionalText : Option String → Json
  | some s => .string s
  | none => .null

/-- The columns of a payload with what they hold. -/
def payloadEntries {k : Kind} (p : Payload k) : List (String × Json) :=
  (Column.payload k).zip (p.cells.map optionalText)

/-- A record to be inserted, as an object. -/
def insertObject {k : Kind} (tenant : String) (i : Insert k) : Json :=
  .ofEntries ([("tenant", .string tenant), ("name", .string i.name), ("type", .string i.type)] ++
    payloadEntries i.payload ++
    [("created_at", .string i.createdAt.text), ("updated_at", .string i.updatedAt.text)])

/-- The values of the variables for a call. -/
def values {k : Kind} : Call k → List (String × Json)
  | .list tenant => [("tenant", .string tenant)]
  | .get tenant name => [("tenant", .string tenant), ("name", .string name)]
  | .insert tenant rows => [(k.plural, .array (rows.map (insertObject tenant)))]
  | .update tenant u =>
    [("tenant", .string tenant), ("name", .string u.name)] ++ payloadEntries u.payload ++
      [("updated_at", .string u.updatedAt.text)]
  | .delete tenant name => [("tenant", .string tenant), ("name", .string name)]

/-- What is posted for a call. -/
structure Query where
  text : String
  values : Json

def Query.ofCall {k : Kind} (c : Call k) : Query :=
  ⟨(operation k c.verb).text, .ofEntries (Graphql.values c)⟩

/-- The body of the request that posts a query. -/
def Query.body (q : Query) : Json :=
  .ofEntries [("query", .string q.text), ("variables", q.values)]

end TenantRegistry.Graphql
