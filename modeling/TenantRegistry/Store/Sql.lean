import TenantRegistry.Store.Sql.Statement

/-!
The store in an SQL database: every call is one statement, but for an insert of no rows, which
is none.

The database is a parameter, `execute`: it gives the rows of a command or why it failed. A
unique key that is violated by a write is a conflict.
-/

namespace TenantRegistry.Sql

/-- Why a command fails. -/
inductive Problem where
  /-- The database refuses it, with an SQLSTATE. -/
  | refused (state detail : String)
  | other (detail : String)
  deriving DecidableEq, Repr

/-- The SQLSTATE of a violated unique key. -/
def uniqueViolation : String := "23505"

namespace Problem

def storeError : Problem → StoreError
  | .refused _ detail => .sql ("error returned from database: " ++ detail)
  | .other detail => .sql detail

/-- The failure of a write. -/
def writeError : Problem → StoreError
  | .refused state detail =>
    if state = uniqueViolation then .conflict detail
    else (Problem.refused state detail).storeError
  | .other detail => (Problem.other detail).storeError

end Problem

/-- A cell of a row as what its column must hold. -/
def column {α : Type} (name : String) (read : Cell → Option α) (cell : Option Cell) :
    Except Problem α :=
  match cell.bind read with
  | some a => .ok a
  | none =>
    .error (.other ("error occurred while decoding column " ++ "\"" ++ name ++
      "\": unexpected null; try decoding as an `Option`"))

def text? : Cell → Option String
  | .text s => some s
  | _ => none

def optionalText? : Cell → Option (Option String)
  | .text s => some (some s)
  | .null => some none
  | _ => none

/-- The text of a time, which names the whole second. -/
def timeText? : Cell → Option String
  | .micros n => some (Timestamp.ofMicros n).text
  | _ => none

/-- A row as a record. -/
def row (k : Kind) (cells : List Cell) : Except Problem (Row k) :=
  match k with
  | .credential => do
    return ⟨← column "name" text? cells[0]?, ← column "type" text? cells[1]?, .credential,
      ← column "created_at" timeText? cells[2]?, ← column "updated_at" timeText? cells[3]?⟩
  | .exporter => do
    let name ← column "name" text? cells[0]?
    let type ← column "type" text? cells[1]?
    let reference ← column "credential" optionalText? cells[2]?
    let config ← column "config" text? cells[3]?
    return ⟨name, type, .exporter reference config, ← column "created_at" timeText? cells[4]?,
      ← column "updated_at" timeText? cells[5]?⟩

/-- The first of some rows. -/
def firstRow (k : Kind) (rows : List (List Cell)) : Except Problem (Option (Row k)) :=
  match rows with
  | [] => .ok none
  | cells :: _ => (row k cells).map some

/-- What a command yields: rows, or a failure. -/
abbrev Outcome : Type :=
  Except Problem (List (List Cell))

/-- What an outcome says about a call. -/
def answer {k : Kind} (o : Outcome) : (c : Call k) → c.Answer
  | .list _ => (o.bind fun rows => rows.mapM (row k)).mapError Problem.storeError
  | .get .. => (o.bind (firstRow k)).mapError Problem.storeError
  | .insert .. => (o.map fun _ => ()).mapError Problem.writeError
  | .update .. => (o.map fun _ => ()).mapError Problem.writeError
  | .delete .. => (o.bind (firstRow k)).mapError Problem.storeError

/-- A call that needs no statement. -/
def isIdle {k : Kind} : Call k → Bool
  | .insert _ rows => rows.isEmpty
  | _ => false

/-- The store in a database. -/
def store {m : Type → Type} [Monad m] (execute : Command → m Outcome) : Store m := fun _ c => do
  if isIdle c then return answer (.ok []) c
  else return answer (← execute (.ofCall c)) c

/-- Creates what tables there are not, one after the other. -/
def ensureSchema {m : Type → Type} [Monad m] (execute : Command → m Outcome) :
    m (Except StoreError Unit) :=
  go schema
where
  go : List Statement → m (Except StoreError Unit)
    | [] => return .ok ()
    | s :: rest => do
      match ← execute ⟨s, []⟩ with
      | .ok _ => go rest
      | .error p => return .error p.storeError

end TenantRegistry.Sql
