import TenantRegistry.Failure
import TenantRegistry.Record.Basic

/-!
Store calls and dialogues with a store.

A store answers five calls, each within a tenant and each a step of its own: list, get, insert,
update and delete. A dialogue is a program that makes such calls and goes on with their answers;
it says nothing about the store, so it can be run against any.
-/

namespace TenantRegistry

/-- What a call does. -/
inductive Verb where
  | list
  | get
  | insert
  | update
  | delete
  deriving DecidableEq, Repr

/-- A call on the records of a kind. -/
inductive Call (k : Kind) where
  | list (tenant : String)
  | get (tenant name : String)
  /-- Stores all rows or none. -/
  | insert (tenant : String) (rows : List (Insert k))
  | update (tenant : String) (update : Update k)
  /-- Removes a row and returns it. -/
  | delete (tenant name : String)
  deriving DecidableEq, Repr

namespace Call

variable {k : Kind}

/-- What a call is answered with when it succeeds. -/
def Reply : Call k → Type
  | .list _ => List (Row k)
  | .get .. => Option (Row k)
  | .insert .. => Unit
  | .update .. => Unit
  | .delete .. => Option (Row k)

/-- The answer to a call. -/
abbrev Answer (c : Call k) : Type :=
  Except StoreError c.Reply

def verb : Call k → Verb
  | .list _ => .list
  | .get .. => .get
  | .insert .. => .insert
  | .update .. => .update
  | .delete .. => .delete

def tenant : Call k → String
  | .list t => t
  | .get t _ => t
  | .insert t _ => t
  | .update t _ => t
  | .delete t _ => t

end Call

/-- A program that ends with a value after some store calls. -/
inductive Dialogue (k : Kind) (α : Type) where
  | done (a : α)
  | ask (c : Call k) (next : c.Answer → Dialogue k α)

namespace Dialogue

variable {k : Kind} {α β : Type}

/-- One dialogue after another. -/
def bind : Dialogue k α → (α → Dialogue k β) → Dialogue k β
  | .done a, f => f a
  | .ask c next, f => .ask c fun r => (next r).bind f

instance : Monad (Dialogue k) where
  pure := .done
  bind := bind

/-- A single call. -/
def call (c : Call k) : Dialogue k c.Answer :=
  .ask c .done

/-- Runs a dialogue against a store. -/
def run {m : Type → Type} [Monad m] (store : (c : Call k) → m c.Answer) : Dialogue k α → m α
  | .done a => pure a
  | .ask c next => do (next (← store c)).run store

end Dialogue

/-- A store of both kinds, its calls being actions of `m`. -/
abbrev Store (m : Type → Type) : Type :=
  (k : Kind) → (c : Call k) → m c.Answer

end TenantRegistry
