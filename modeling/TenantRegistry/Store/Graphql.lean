import TenantRegistry.Store.Graphql.Operation
import TenantRegistry.Store.Graphql.Reply
import TenantRegistry.Web.Url

/-!
The store behind a GraphQL endpoint: every call is one posted query.

The network is a parameter, `post`: it gives the reply to a query, or none if no reply came.
-/

namespace TenantRegistry.Graphql

/-- Where queries are posted, and the secret that goes with them. -/
structure Endpoint where
  url : Web.Url
  secret : String
  deriving DecidableEq, Repr

/-- The header that carries the secret. -/
def secretHeader : String := "x-hasura-admin-secret"

/-- A text that a header may carry: tabs, and no other control characters. -/
def isHeaderValue (s : String) : Bool :=
  s.toList.all fun c => c == '\t' || (0x20 ≤ c.toNat && c.toNat != 0x7F)

/-- The endpoint's address as requests name it, without name and password. -/
def Endpoint.address (e : Endpoint) : String :=
  let authority := e.url.authority.map fun a => { a with username := [], password := [] }
  { e.url with authority }.text

/-- Why no request can be made, if none can. -/
def Endpoint.problem? (e : Endpoint) : Option StoreError :=
  if !isHeaderValue e.secret then some (.http "builder error")
  else if e.url.scheme ≠ "http".toList ∧ e.url.scheme ≠ "https".toList then
    some (.http ("builder error for url (" ++ e.address ++ ")"))
  else none

/-- The failure of a call that got no reply. -/
def Endpoint.unreachable (e : Endpoint) : StoreError :=
  .http ("error sending request for url (" ++ e.address ++ ")")

/-- The store behind an endpoint. -/
def store {m : Type → Type} [Monad m] (e : Endpoint) (post : Query → m (Option Reply)) : Store m :=
  fun _ c =>
    match e.problem? with
    | some problem => return .error problem
    | none => do
      match ← post (.ofCall c) with
      | some reply => return reply.answer c
      | none => return .error e.unreachable

end TenantRegistry.Graphql
