import TenantRegistry.Store.Call

/-!
The store that keeps everything in memory: per kind one table, in the order of tenant and name.

Main operations: `find?`, `put`, `remove` on a table, and `answer`, which carries out a call.
A tenant and a name together are taken at most once; an insert that would take a key twice
changes nothing.
-/

namespace TenantRegistry.Memory

variable {k : Kind}

/-- What is stored under a key. -/
structure Stored (k : Kind) where
  name : String
  type : String
  payload : Payload k
  createdAt : String
  updatedAt : String
  deriving DecidableEq, Repr

/-- Tenant and name. -/
structure Key where
  tenant : String
  name : String
  deriving DecidableEq, Repr

/-- The order of keys: by tenant, then by name. -/
def Key.before (a b : Key) : Bool :=
  a.tenant < b.tenant || (a.tenant == b.tenant && decide (a.name < b.name))

/-- The rows of a kind with their keys, in order. -/
abbrev Table (k : Kind) : Type :=
  List (Key × Stored k)

namespace Table

def find? (t : Table k) (key : Key) : Option (Stored k) :=
  (List.find? (·.1 == key) t).map (·.2)

/-- Puts a row where its key belongs, in place of one with the same key. -/
def put (key : Key) (row : Stored k) : Table k → Table k
  | [] => [(key, row)]
  | (other, old) :: rest =>
    if key = other then (key, row) :: rest
    else if key.before other then (key, row) :: (other, old) :: rest
    else (other, old) :: put key row rest

def remove (t : Table k) (key : Key) : Table k :=
  t.filter (·.1 != key)

end Table

/-- A stored row as it is read back. -/
def Stored.row (s : Stored k) : Row k :=
  ⟨s.name, s.type, s.payload.view, s.createdAt, s.updatedAt⟩

def Stored.ofInsert (i : Insert k) : Stored k :=
  ⟨i.name, i.type, i.payload, i.createdAt.text, i.updatedAt.text⟩

/-- The row with new content; name, type and creation stay. -/
def Stored.updated (s : Stored k) (u : Update k) : Stored k :=
  { s with payload := u.payload, updatedAt := u.updatedAt.text }

/-- The rows of a tenant. -/
def rowsOf (t : Table k) (tenant : String) : List (Row k) :=
  (t.filter (·.1.tenant == tenant)).map (·.2.row)

/-- The first of some names that is taken, in the table or by an earlier one of them. -/
def firstTaken (t : Table k) (tenant : String) : (seen : List String) → List String → Option String
  | _, [] => none
  | seen, name :: rest =>
    if (t.find? ⟨tenant, name⟩).isSome || seen.contains name then some name
    else firstTaken t tenant (name :: seen) rest

def putAll (tenant : String) (rows : List (Insert k)) (t : Table k) : Table k :=
  rows.foldl (fun t i => t.put ⟨tenant, i.name⟩ (.ofInsert i)) t

/-- Carries out a call: the answer and the table after it. -/
def answer (t : Table k) : (c : Call k) → c.Answer × Table k
  | .list tenant => (.ok (rowsOf t tenant), t)
  | .get tenant name => (.ok ((t.find? ⟨tenant, name⟩).map (·.row)), t)
  | .insert tenant rows =>
    match firstTaken t tenant [] (rows.map (·.name)) with
    | some name =>
      (.error (.conflict ("duplicate key for tenant " ++ tenant ++ " and name " ++ name)), t)
    | none => (.ok (), putAll tenant rows t)
  | .update tenant u =>
    match t.find? ⟨tenant, u.name⟩ with
    | some s => (.ok (), t.put ⟨tenant, u.name⟩ (s.updated u))
    | none => (.ok (), t)
  | .delete tenant name =>
    (.ok ((t.find? ⟨tenant, name⟩).map (·.row)), t.remove ⟨tenant, name⟩)

/-- The tables of both kinds. -/
structure State where
  credentials : Table .credential
  exporters : Table .exporter
  deriving DecidableEq, Repr

namespace State

def empty : State := ⟨[], []⟩

def table (s : State) : (k : Kind) → Table k
  | .credential => s.credentials
  | .exporter => s.exporters

def withTable (s : State) : {k : Kind} → Table k → State
  | .credential, t => { s with credentials := t }
  | .exporter, t => { s with exporters := t }

end State

/-- The memory store: calls change the table of their kind. -/
def store : Store (StateM State) := fun k c s =>
  let (r, t) := answer (s.table k) c
  (r, s.withTable t)

end TenantRegistry.Memory
