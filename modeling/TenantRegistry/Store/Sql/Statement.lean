import TenantRegistry.Store.Call
import TenantRegistry.Store.Column

/-!
The SQL statements that carry out store calls.

A statement is the same for all calls of a verb on a kind, an insert apart, which depends on the
number of rows. What a call is about travels in the parameters, numbered from one: the tenant is
the first and the name, where there is one, the second.
-/

namespace TenantRegistry.Sql

/-- A column and the number of a parameter. -/
structure Binding where
  column : String
  parameter : Nat
  deriving DecidableEq, Repr

inductive Statement where
  /-- Rows in which the columns equal their parameters, perhaps in ascending order of a column. -/
  | select (table : String) (columns : List String) (conditions : List Binding)
      (order : Option String)
  /-- New rows, whose cells are the parameters one after another. -/
  | insert (table : String) (columns : List String) (rows : Nat)
  | update (table : String) (changes conditions : List Binding)
  /-- Removes rows and returns the columns of each. -/
  | delete (table : String) (conditions : List Binding) (columns : List String)
  /-- A table with columns and their types, unless there is one. -/
  | createTable (table : String) (columns : List (String × String)) (key : List String)
  deriving DecidableEq, Repr

namespace Statement

def commas (texts : List String) : String :=
  ", ".intercalate texts

def placeholder (n : Nat) : String :=
  "$" ++ toString n

def bindingText (b : Binding) : String :=
  b.column ++ " = " ++ placeholder b.parameter

def whereText (conditions : List Binding) : String :=
  " WHERE " ++ " AND ".intercalate (conditions.map bindingText)

/-- A row of `width` placeholders after `before` others. -/
def tuple (width before : Nat) : String :=
  "(" ++ commas ((List.range width).map fun j => placeholder (before + j + 1)) ++ ")"

def text : Statement → String
  | .select table columns conditions order =>
    "SELECT " ++ commas columns ++ " FROM " ++ table ++ whereText conditions ++
      match order with
      | some column => " ORDER BY " ++ column
      | none => ""
  | .insert table columns rows =>
    "INSERT INTO " ++ table ++ " (" ++ commas columns ++ ") VALUES " ++
      commas ((List.range rows).map fun i => tuple columns.length (columns.length * i))
  | .update table changes conditions =>
    "UPDATE " ++ table ++ " SET " ++ commas (changes.map bindingText) ++ whereText conditions
  | .delete table conditions columns =>
    "DELETE FROM " ++ table ++ whereText conditions ++ " RETURNING " ++ commas columns
  | .createTable table columns key =>
    "\nCREATE TABLE IF NOT EXISTS " ++ table ++ " (\n" ++
      String.join (columns.map fun (name, type) => "    " ++ name ++ " " ++ type ++ ",\n") ++
      "    PRIMARY KEY (" ++ commas key ++ ")\n)"

end Statement

/-- Columns bound to the parameters from `first` on. -/
def bindingsFrom : (first : Nat) → List String → List Binding
  | _, [] => []
  | first, column :: rest => ⟨column, first⟩ :: bindingsFrom (first + 1) rest

/-- The statement of a verb on a kind, `rows` being how many rows an insert has. -/
def statement (k : Kind) (rows : Nat) : Verb → Statement
  | .list => .select k.name (Column.read k) (bindingsFrom 1 ["tenant"]) (some "name")
  | .get => .select k.name (Column.read k) (bindingsFrom 1 ["tenant", "name"]) none
  | .insert => .insert k.name (Column.all k) rows
  | .update =>
    .update k.name (bindingsFrom 3 (Column.payload k ++ ["updated_at"]))
      (bindingsFrom 1 ["tenant", "name"])
  | .delete => .delete k.name (bindingsFrom 1 ["tenant", "name"]) (Column.read k)

/-- What a cell or a parameter holds. -/
inductive Cell where
  | null
  | text (s : String)
  /-- An instant in microseconds since 1970. -/
  | micros (n : Int)
  deriving DecidableEq, Repr

def Cell.ofOptional : Option String → Cell
  | some s => .text s
  | none => .null

/-- A time as a cell, which has whole microseconds. -/
def Cell.ofTime (t : Timestamp) : Cell :=
  .micros t.micros

/-- The cells of a row to be inserted, in the order of the columns. -/
def insertCells {k : Kind} (tenant : String) (i : Insert k) : List Cell :=
  [.text tenant, .text i.name, .text i.type] ++ i.payload.cells.map .ofOptional ++
    [.ofTime i.createdAt, .ofTime i.updatedAt]

/-- The parameters of a call. -/
def parameters {k : Kind} : Call k → List Cell
  | .list tenant => [.text tenant]
  | .get tenant name => [.text tenant, .text name]
  | .insert tenant rows => rows.flatMap (insertCells tenant)
  | .update tenant u =>
    [.text tenant, .text u.name] ++ u.payload.cells.map .ofOptional ++ [.ofTime u.updatedAt]
  | .delete tenant name => [.text tenant, .text name]

/-- A statement with its parameters. -/
structure Command where
  statement : Statement
  parameters : List Cell
  deriving DecidableEq, Repr

/-- How many rows a call inserts. -/
def rowCount {k : Kind} : Call k → Nat
  | .insert _ rows => rows.length
  | _ => 0

/-- The command of a call. -/
def Command.ofCall {k : Kind} (c : Call k) : Command :=
  ⟨Sql.statement k (rowCount c) c.verb, Sql.parameters c⟩

/-! ## Tables -/

/-- The type of a column. -/
def columnType (k : Kind) (column : String) : String :=
  if column = "created_at" ∨ column = "updated_at" then "TIMESTAMPTZ NOT NULL"
  else if k = .exporter ∧ column = "credential" then "TEXT"
  else "TEXT NOT NULL"

/-- Creates the table of a kind. -/
def createTable (k : Kind) : Statement :=
  .createTable k.name ((Column.all k).map fun column => (column, columnType k column))
    ["tenant", "name"]

/-- Creates the tables of both kinds. -/
def schema : List Statement :=
  [createTable .credential, createTable .exporter]

end TenantRegistry.Sql
