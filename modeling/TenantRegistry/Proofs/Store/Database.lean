import Mathlib.Logic.Function.Basic
import TenantRegistry.Store.Sql
import TenantRegistry.Text.Utf8

/-!
What a database does with the statements of store calls.

A relation has typed columns, a primary key and rows. A statement that names an unknown column or
comes with the wrong number of parameters is refused. Rows that a write leaves behind must fit the
types of their columns and differ in their keys, else the write is refused as a whole and changes
nothing. A text column holds any text, a time column whole microseconds, and texts are in order of
their octets.
-/

namespace TenantRegistry.Sql

/-! ## Rows -/

/-- A row of a table: its columns with their cells. -/
abbrev Record : Type :=
  List (String × Cell)

/-- The cell of a column, which is null where the row has none. -/
def Record.cell (row : Record) (column : String) : Cell :=
  (row.lookup column).getD .null

def Record.project (columns : List String) (row : Record) : List Cell :=
  columns.map row.cell

namespace Cell

/-- Whether a column of a type can hold the cell. -/
def fits (type : String) : Cell → Bool
  | .text _ => type == "TEXT" || type == "TEXT NOT NULL"
  | .micros _ => type == "TIMESTAMPTZ NOT NULL"
  | .null => type == "TEXT"

/-- The order of cells: texts by their octets, times by the clock, nulls last. -/
def le : Cell → Cell → Bool
  | .text s, .text t => decide (Utf8.ofString s ≤ Utf8.ofString t)
  | .micros m, .micros n => decide (m ≤ n)
  | .text _, _ => true
  | .micros _, .text _ => false
  | .micros _, .null => true
  | .null, .null => true
  | .null, _ => false

end Cell

/-- The parameter of a binding; parameters are numbered from one. -/
def Binding.value (parameters : List Cell) (b : Binding) : Cell :=
  parameters[b.parameter - 1]?.getD .null

/-- Each bound column holds its parameter. Null equals nothing, not even null. -/
def Record.satisfies (parameters : List Cell) (conditions : List Binding) (row : Record) : Bool :=
  conditions.all fun b => row.cell b.column != .null && row.cell b.column == b.value parameters

/-- The row with the bound columns set to their parameters. -/
def Record.changed (parameters : List Cell) (changes : List Binding) (row : Record) : Record :=
  row.map fun (column, cell) =>
    (column, ((changes.find? (·.column == column)).map (·.value parameters)).getD cell)

/-- Rows in ascending order of a column, if one is given. -/
def inOrder : Option String → List Record → List Record
  | some column, rows => rows.mergeSort fun a b => (a.cell column).le (b.cell column)
  | none, rows => rows

/-- The cells of some rows, one row after the other. -/
def tuples (width : Nat) : (rows : Nat) → List Cell → List (List Cell)
  | 0, _ => []
  | rows + 1, cells => cells.take width :: tuples width rows (cells.drop width)

/-! ## Statements -/

namespace Statement

def table : Statement → String
  | .select table .. => table
  | .insert table .. => table
  | .update table .. => table
  | .delete table .. => table
  | .createTable table .. => table

/-- The columns that a statement on a table names. -/
def columns : Statement → List String
  | .select _ columns conditions order => columns ++ conditions.map (·.column) ++ order.toList
  | .insert _ columns _ => columns
  | .update _ changes conditions => (changes ++ conditions).map (·.column)
  | .delete _ conditions columns => columns ++ conditions.map (·.column)
  | .createTable .. => []

/-- How many parameters a statement takes: as many as the highest number it names. -/
def arity : Statement → Nat
  | .select _ _ conditions _ => highest conditions
  | .insert _ columns rows => columns.length * rows
  | .update _ changes conditions => highest (changes ++ conditions)
  | .delete _ conditions _ => highest conditions
  | .createTable .. => 0
where
  highest (bindings : List Binding) : Nat :=
    bindings.foldr (fun b n => max b.parameter n) 0

end Statement

/-! ## Relations -/

/-- A table: its columns with their types, the columns of its key, and its rows. -/
structure Relation where
  columns : List (String × String)
  key : List String
  rows : List Record

namespace Relation

/-- A row with a cell in every column, null where none is given. -/
def complete (r : Relation) (cells : Record) : Record :=
  r.columns.map fun (column, _) => (column, cells.cell column)

def wellTyped (r : Relation) (row : Record) : Bool :=
  r.columns.all fun (column, type) => (row.cell column).fits type

/-- The relation with other rows, if these fit its columns and differ in their keys. -/
def withRows (r : Relation) (rows : List Record) : Except Problem Relation :=
  if ¬ rows.all r.wellTyped then
    .error (.refused "23502" "null value violates not-null constraint")
  else if ¬ (rows.map (Record.project r.key)).Nodup then
    .error (.refused uniqueViolation "duplicate key value violates unique constraint")
  else .ok { r with rows }

/-- The rows that a statement returns, and the relation after it. -/
def carryOut (r : Relation) (parameters : List Cell) :
    Statement → Except Problem (List (List Cell) × Relation)
  | .select _ columns conditions order =>
    let found := r.rows.filter (Record.satisfies parameters conditions)
    .ok ((inOrder order found).map (Record.project columns), r)
  | .insert _ columns rows => do
    let new := (tuples columns.length rows parameters).map fun cells =>
      r.complete (columns.zip cells)
    return ([], ← r.withRows (r.rows ++ new))
  | .update _ changes conditions => do
    let rows := r.rows.map fun row =>
      if row.satisfies parameters conditions then row.changed parameters changes else row
    return ([], ← r.withRows rows)
  | .delete _ conditions columns =>
    let found := r.rows.filter (Record.satisfies parameters conditions)
    let left := r.rows.filter fun row => !row.satisfies parameters conditions
    .ok (found.map (Record.project columns), { r with rows := left })
  | .createTable .. => .ok ([], r)

/-- A command on a table that there is. -/
def execute (r : Relation) (c : Command) : Except Problem (List (List Cell) × Relation) :=
  if ¬ c.statement.columns.all fun column => r.columns.any (·.1 == column) then
    .error (.refused "42703" "column does not exist")
  else if c.statement.arity ≠ c.parameters.length then
    .error (.refused "08P01" "wrong number of parameters")
  else r.carryOut c.parameters c.statement

end Relation

/-! ## Databases -/

/-- The tables by their names. -/
abbrev Database : Type :=
  String → Option Relation

namespace Database

/-- A database without tables. -/
def empty : Database := fun _ => none

/-- Carries out a command. One that fails changes nothing. -/
def execute (c : Command) : StateM Database Outcome := fun db =>
  match c.statement, db c.statement.table with
  | .createTable table columns key, none =>
    (.ok [], Function.update db table (some ⟨columns, key, []⟩))
  | .createTable .., some _ => (.ok [], db)
  | _, none => (.error (.refused "42P01" "relation does not exist"), db)
  | statement, some r =>
    match r.execute c with
    | .ok (rows, r') => (.ok rows, Function.update db statement.table (some r'))
    | .error p => (.error p, db)

end Database
end TenantRegistry.Sql
