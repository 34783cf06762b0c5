import TenantRegistry.Settings
import TenantRegistry.Store.Sql
import TenantRegistry.Store.Sql.Address

/-!
Starting up: from settings to a store that is ready.

The network is a parameter, and so is the conversion of domain names to ASCII. A database must be
reached and have its tables before the store is ready; an endpoint is not asked for anything until
the first call.
-/

namespace TenantRegistry

/-- What is outside of the program. -/
structure Network (m : Type → Type) where
  /-- Posts a query: its body is `Graphql.Query.body`, and the endpoint's secret is in the header
  `Graphql.secretHeader`. None if no reply came. -/
  post : Graphql.Endpoint → Graphql.Query → m (Option Graphql.Reply)
  /-- Connects to a database, or says why that failed. -/
  connect : (address : String) → m (Except Sql.Problem Unit)
  execute : Sql.Command → m Sql.Outcome

/-- Why the program does not start. -/
inductive StartupError where
  | settings (e : SettingsError)
  | store (e : StoreError)
  deriving DecidableEq, Repr

def StartupError.message : StartupError → String
  | .settings e => e.message
  | .store e => "Failed to initialize store: " ++ e.message

variable {m : Type → Type} [Monad m]

/-- Connects to a database and creates its tables. -/
def Network.openDatabase (net : Network m) (address : String)
    (toAscii : Web.Domain.ToAscii := Web.Domain.toAscii?) : m (Except StoreError Unit) := do
  match Sql.Address.problem? address toAscii with
  | some e => return .error e
  | none =>
    match ← net.connect address with
    | .error p => return .error p.storeError
    | .ok () => Sql.ensureSchema net.execute

/-- The store that the settings choose, made ready. `memory` is the one that needs no network. -/
def Settings.openStore (s : Settings) (memory : Store m) (net : Network m)
    (toAscii : Web.Domain.ToAscii := Web.Domain.toAscii?) :
    m (Except StartupError (Store m)) := do
  match s.target toAscii with
  | .error e => return .error (.settings e)
  | .ok (.graphql endpoint _) => return .ok (Graphql.store endpoint (net.post endpoint))
  | .ok (.postgres address _) =>
    match ← net.openDatabase address toAscii with
    | .error e => return .error (.store e)
    | .ok () => return .ok (Sql.store net.execute)
  | .ok .memory => return .ok memory

end TenantRegistry
