import TenantRegistry.Record.Check
import TenantRegistry.Record.Reader

/-!
A batch of submitted records and the plan made of it.

Records whose names are stored become updates, all others inserts, both in the order of
submission. The first record that cannot be read or is refused fails the whole batch.
-/

namespace TenantRegistry

variable {k : Kind}

/-- The records that some documents hold, `index` records having come before. Nothing follows
the first one that cannot be read. -/
def recordsOf (k : Kind) : (index : Nat) → List Yaml.Document →
    List (Except RequestError (Submission k))
  | _, [] => []
  | index, d :: rest =>
    match Submission.ofDocument k d with
    | .ok (some s) => .ok s :: recordsOf k (index + 1) rest
    | .ok none => recordsOf k index rest
    | .error e => [.error (.decode k index e.message)]

/-- The records that the body of a request holds. -/
def decodeBatch (k : Kind) (body : String) : List (Except RequestError (Submission k)) :=
  recordsOf k 0 (Yaml.Document.ofText body)

/-- What a batch writes: first all new records at once, then the updates one by one. -/
structure Plan (k : Kind) where
  inserts : List (Insert k)
  updates : List (Update k)
  deriving DecidableEq, Repr

namespace Plan

def size (p : Plan k) : Nat :=
  p.inserts.length + p.updates.length

def isEmpty (p : Plan k) : Bool :=
  p.size == 0

end Plan

/-- A record that is accepted, as what it becomes. -/
inductive Step (k : Kind) where
  | insert (i : Insert k)
  | update (u : Update k)
  deriving DecidableEq, Repr

/-- What a record becomes, given the types of the stored names. A refusal of its content comes
before a change of its type. -/
def Submission.step (s : Submission k) (stored : String → Option String) (ctx : BatchContext) :
    Except RequestError (Step k) :=
  match stored s.name with
  | none => (s.toInsert ctx).map .insert
  | some current => do
    let u ← s.toUpdate current ctx
    if s.type ≠ "" ∧ s.type ≠ current then
      throw (.typeChange k s.name current s.type)
    return .update u

/-- The steps of a batch, up to its first failure. -/
def steps (stored : String → Option String) (ctx : BatchContext) :
    List (Except RequestError (Submission k)) → Except RequestError (List (Step k))
  | [] => .ok []
  | r :: rest => do
    let s ← (← r).step stored ctx
    return s :: (← steps stored ctx rest)

/-- The plan that some steps make. -/
def Plan.ofSteps (steps : List (Step k)) : Plan k where
  inserts := steps.filterMap fun
    | .insert i => some i
    | .update _ => none
  updates := steps.filterMap fun
    | .update u => some u
    | .insert _ => none

/-- The plan of a batch. A batch without records is refused. -/
def reconcile (stored : String → Option String) (ctx : BatchContext)
    (records : List (Except RequestError (Submission k))) : Except RequestError (Plan k) := do
  let plan := Plan.ofSteps (← steps stored ctx records)
  if plan.isEmpty then
    throw (.emptyBatch k)
  return plan

end TenantRegistry
