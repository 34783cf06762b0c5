import TenantRegistry.Number.Setting
import TenantRegistry.Store.Graphql

/-!
The settings of the program and where they come from.

One environment variable chooses a preset, the others replace single settings of it. Numbers
that cannot be read keep the preset, and an empty text is as good as none. What the chosen store
needs is checked apart, by `Settings.target`, and looks at the settings of that store alone.
-/

namespace TenantRegistry

/-- What a setting may have wrong. -/
inductive SettingsError where
  | unknownBackend (found : String)
  /-- A variable without which the store cannot be used. -/
  | missing (name : String)
  | invalidEndpoint (value : String) (problem : Web.UrlProblem)
  | invalid (detail : String)
  deriving DecidableEq, Repr

def SettingsError.message : SettingsError → String
  | .unknownBackend found =>
    "Unknown STORE_BACKEND '" ++ found ++ "' (expected graphql, postgres or memory)"
  | .missing name => "Missing configuration: " ++ name
  | .invalidEndpoint value problem =>
    "Invalid GRAPHQL_ENDPOINT '" ++ value ++ "': " ++ problem.message
  | .invalid detail => "Invalid configuration: " ++ detail

/-- The kinds of stores. -/
inductive Backend where
  | graphql
  | postgres
  | memory
  deriving DecidableEq, Repr

namespace Backend

def name : Backend → String
  | .graphql => "graphql"
  | .postgres => "postgres"
  | .memory => "memory"

/-- The names that a kind of store goes by. -/
def ofName? (name : String) : Option Backend :=
  if name = "graphql" ∨ name = "hasura" then some .graphql
  else if name = "postgres" ∨ name = "postgresql" then some .postgres
  else if name = "memory" then some .memory
  else none

/-- The kind of store that a text names, whatever white space is around it and in whatever
letter case. -/
def ofText (s : String) : Except SettingsError Backend :=
  let name := String.ofList ((Text.trimBy Text.isBlank s.toList).map Char.toLower)
  match ofName? name with
  | some b => .ok b
  | none => .error (.unknownBackend s)

end Backend

/-- Where the program runs. -/
inductive Stage where
  | development
  | staging
  | production
  deriving DecidableEq, Repr

namespace Stage

def name : Stage → String
  | .development => "Development"
  | .staging => "Staging"
  | .production => "Production"

/-- The stage that a text names; any other text is development. -/
def ofText (s : Option String) : Stage :=
  if s = some "production" ∨ s = some "prod" then .production
  else if s = some "staging" ∨ s = some "stage" then .staging
  else .development

end Stage

structure Settings where
  stage : Stage
  backend : Backend
  endpoint : Option String
  secret : Option String
  /-- Seconds to wait for a reply. -/
  timeout : Nat
  databaseUrl : Option String
  maxConnections : Nat
  /-- The octets that the body of a request may have. -/
  maxBody : Nat
  /-- How deep collections of a value may be nested. -/
  maxDepth : Nat
  deriving DecidableEq, Repr

namespace Settings

/-- The variables that settings come from. -/
def variableNames : List String :=
  ["APP_ENV", "STORE_BACKEND", "GRAPHQL_ENDPOINT", "HASURA_GRAPHQL_ADMIN_SECRET",
    "GRAPHQL_REQUEST_TIMEOUT_SECS", "DATABASE_URL", "DATABASE_MAX_CONNECTIONS",
    "API_MAX_REQUEST_SIZE_BYTES", "DOCUMENT_MAX_DEPTH"]

/-- The settings of a stage. -/
def preset : Stage → Settings
  | .development => ⟨.development, .graphql, none, none, 30, none, 10, 10 * Nat.pow 2 20, 64⟩
  | .staging => ⟨.staging, .graphql, none, none, 10, none, 20, 5 * Nat.pow 2 20, 48⟩
  | .production => ⟨.production, .graphql, none, none, 5, none, 50, 2 * Nat.pow 2 20, 32⟩

/-- A text that is not empty. -/
def nonEmpty (s : Option String) : Option String :=
  s.filter (· ≠ "")

/-- The number of a variable, `default` if it cannot be read. -/
def number (bound default : Nat) (s : Option String) : Nat :=
  (s.bind (Number.naturalBelow? bound)).getD default

/-- The settings for an environment, `lookup` being the texts of its variables. -/
def ofEnvironment (lookup : String → Option String) : Except SettingsError Settings := do
  let base := preset (Stage.ofText (lookup "APP_ENV"))
  let backend ← match lookup "STORE_BACKEND" with
    | some s => Backend.ofText s
    | none => .ok base.backend
  return {
    stage := base.stage
    backend
    endpoint := nonEmpty (lookup "GRAPHQL_ENDPOINT")
    secret := nonEmpty (lookup "HASURA_GRAPHQL_ADMIN_SECRET")
    timeout := number (Nat.pow 2 64) base.timeout (lookup "GRAPHQL_REQUEST_TIMEOUT_SECS")
    databaseUrl := nonEmpty (lookup "DATABASE_URL")
    maxConnections := number (Nat.pow 2 32) base.maxConnections (lookup "DATABASE_MAX_CONNECTIONS")
    maxBody := number (Nat.pow 2 64) base.maxBody (lookup "API_MAX_REQUEST_SIZE_BYTES")
    maxDepth := number (Nat.pow 2 64) base.maxDepth (lookup "DOCUMENT_MAX_DEPTH") }

/-- The settings as they may be shown: neither the secret nor the database's address, which may
hold a password. -/
def shown (s : Settings) : Json :=
  let text : Option String → Json
    | some s => .string s
    | none => .null
  .ofEntries [
    ("environment", .string s.stage.name),
    ("store", .ofEntries [
      ("backend", .string s.backend.name),
      ("graphql_endpoint", text s.endpoint),
      ("request_timeout_secs", .number (.integer s.timeout)),
      ("max_connections", .number (.integer s.maxConnections))]),
    ("api", .ofEntries [("max_request_size_bytes", .number (.integer s.maxBody))]),
    ("document", .ofEntries [("max_depth", .number (.integer s.maxDepth))])]

/-- The endpoint where none is set. -/
def defaultEndpoint : String := "http://localhost:8080/v1/graphql"

end Settings

/-- A store with all that it needs. -/
inductive StoreTarget where
  | graphql (endpoint : Graphql.Endpoint) (timeout : Nat)
  | postgres (databaseUrl : String) (maxConnections : Nat)
  | memory
  deriving DecidableEq, Repr

/-- A setting that must be there. -/
def required (name : String) (s : Option String) : Except SettingsError String :=
  match s with
  | some s => .ok s
  | none => .error (.missing name)

/-- The store that the settings choose. -/
def Settings.target (s : Settings) (toAscii : Web.Domain.ToAscii := Web.Domain.toAscii?) :
    Except SettingsError StoreTarget := do
  if s.maxDepth = 0 then
    throw (.invalid "DOCUMENT_MAX_DEPTH must be at least 1")
  match s.backend with
  | .graphql =>
    let endpoint := s.endpoint.getD defaultEndpoint
    let url ← (Web.Url.ofString endpoint toAscii).mapError (.invalidEndpoint endpoint)
    let secret ← required "HASURA_GRAPHQL_ADMIN_SECRET" s.secret
    return .graphql ⟨url, secret⟩ s.timeout
  | .postgres =>
    let databaseUrl ← required "DATABASE_URL" s.databaseUrl
    if s.maxConnections = 0 then
      throw (.invalid "DATABASE_MAX_CONNECTIONS must be at least 1")
    return .postgres databaseUrl s.maxConnections
  | .memory => return .memory

end TenantRegistry
