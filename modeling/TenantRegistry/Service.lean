import TenantRegistry.Batch
import TenantRegistry.Record.Shown
import TenantRegistry.Store.Call

/-!
What a client can ask for: to list, get, delete or write the resources of a tenant.

A write lists what is stored, checks the whole batch against it, inserts all new records with
one call and then makes the updates one by one. A failing call ends the request; what earlier
calls have written stays.
-/

namespace TenantRegistry.Service

variable {k : Kind}

/-- A request: store calls that end with a result or a failure. -/
abbrev Request (k : Kind) (α : Type) : Type :=
  ExceptT RequestError (Dialogue k) α

/-- A store call whose failure fails the request; `action` names the call. -/
def call (action : String) (c : Call k) : Request k c.Reply :=
  ExceptT.mk do
    match ← Dialogue.call c with
    | .ok r => return .ok r
    | .error e => return .error (.store action e)

/-- What was asked for must be there. -/
def found (tenant name : String) (r : Option (Row k)) : Request k (Row k) :=
  match r with
  | some row => return row
  | none => throw (.notFound k tenant name)

def list (tenant : String) : Request k (List (Row k)) :=
  call ("Listing " ++ k.plural ++ " for tenant " ++ tenant) (.list tenant)

def get (tenant name : String) : Request k (Row k) := do
  found tenant name (← call ("Getting " ++ k.name ++ " " ++ name) (.get tenant name))

def delete (tenant name : String) : Request k (Row k) := do
  found tenant name (← call ("Deleting " ++ k.name ++ " " ++ name) (.delete tenant name))

/-- The type of a name among some rows, the last row of a name counting. -/
def typeIn (rows : List (Row k)) (name : String) : Option String :=
  (rows.reverse.find? (·.name == name)).map (·.type)

/-- Makes updates one by one. -/
def update (tenant : String) : List (Update k) → Request k Unit
  | [] => return ()
  | u :: rest => do
    call ("Updating " ++ k.name ++ " " ++ u.name) (.update tenant u)
    update tenant rest

/-- Stores new records with one call, if there are any. -/
def insert (tenant : String) (rows : List (Insert k)) : Request k Unit :=
  if rows.isEmpty then return ()
  else call ("Creating " ++ toString rows.length ++ " " ++ k.plural) (.insert tenant rows)

/-- Carries out a plan. -/
def commit (tenant : String) (p : Plan k) : Request k Summary := do
  insert tenant p.inserts
  update tenant p.updates
  return ⟨p.inserts.map (·.name), p.updates.map (·.name)⟩

/-- Writes a batch of records. -/
def writeRecords (tenant : String) (ctx : BatchContext)
    (records : List (Except RequestError (Submission k))) : Request k Summary := do
  let stored ← list tenant
  let plan ← reconcile (typeIn stored) ctx records
  commit tenant plan

/-- Writes the records of a request's body. -/
def write (tenant body : String) (ctx : BatchContext) : Request k Summary :=
  writeRecords tenant ctx (decodeBatch k body)

end TenantRegistry.Service
