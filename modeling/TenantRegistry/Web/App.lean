import TenantRegistry.Service
import TenantRegistry.Tenant
import TenantRegistry.Text.Utf8
import TenantRegistry.Web.Metrics
import TenantRegistry.Web.Percent
import TenantRegistry.Web.Response
import TenantRegistry.Web.Route
import TenantRegistry.Web.Target

/-!
The application: from a request to its response and the store calls in between.

Requests for records need a tenant, also those with a method that there is not, and are all
counted. What they do with the store is a dialogue, so that the same application runs on any
store.
-/

namespace TenantRegistry.Web

structure Request where
  method : String
  uri : String
  headers : List Header
  body : List UInt8
  now : Timestamp
  deriving DecidableEq, Repr

/-- What requests may ask for. -/
structure Limits where
  /-- The octets that a body may have. -/
  maxBody : Nat
  /-- How deep collections of a value may be nested. -/
  maxDepth : Nat
  deriving DecidableEq, Repr

namespace App

variable {k : Kind}

/-- The response to a request that ends with documents or a failure. -/
def respond (r : Service.Request k (List Yaml.Tree)) : Dialogue k Response := do
  match ← r.run with
  | .ok docs => return .documents docs
  | .error e => return .ofError e

/-- The text of a body, or the response to a body that is refused. -/
def bodyText (limits : Limits) (body : List UInt8) : Except Response String :=
  if limits.maxBody < body.length then
    .error (.text 413 "Failed to buffer the request body: length limit exceeded")
  else
    match Utf8.decode body with
    | .ok cs => .ok (String.ofList cs)
    | .error fault =>
      .error (.text 400 ("Request body didn't contain valid UTF-8: " ++ fault.message))

/-- The name that a segment of a path encodes, or the response to a name that is no text. -/
def itemName (segment : List Char) : Except Response String :=
  match Utf8.toString? (Percent.decode (Utf8.encode segment)) with
  | some name => .ok name
  | none => .error (.text 400 "Invalid URL: Invalid UTF-8 in `name`")

/-- Goes on with a value, unless a response is due already. -/
def orRespond {α : Type} (r : Except Response α) (next : α → Dialogue k Response) :
    Dialogue k Response :=
  match r with
  | .ok a => next a
  | .error response => .done response

/-- Carries out an action for a tenant. -/
def act (limits : Limits) (tenant : String) (r : Request) : Action → Dialogue k Response
  | .list => respond do return (← Service.list tenant).map Row.shown
  | .write =>
    orRespond (bodyText limits r.body) fun body =>
      respond do return [(← Service.write (k := k) tenant body ⟨r.now, limits.maxDepth⟩).shown]
  | .get segment =>
    orRespond (itemName segment) fun name =>
      respond do return [(← Service.get (k := k) tenant name).shown]
  | .delete segment =>
    orRespond (itemName segment) fun name =>
      respond do return [(← Service.delete (k := k) tenant name).shown]

/-- A response as its method wants it: `HEAD` wants no body. -/
def forMethod (method : String) (response : Response) : Response :=
  if method = "HEAD" then { response with body := "" } else response

theorem status_forMethod (method : String) (response : Response) :
    (forMethod method response).status = response.status := by
  unfold forMethod
  split <;> rfl

/-- Says which methods there are. -/
def allowing (methods : String) (response : Response) : Response :=
  { response with allow := some methods }

/-- The response to a request for records. -/
def records (limits : Limits) (r : Request) (resource : Resource) : Dialogue k Response :=
  let tenant := Tenant.ofHeaders r.headers (String.ofList (Target.ofString r.uri).text)
  match resource.action? r.method, tenant with
  | none, .ok _ => .done (allowing resource.methods (.empty 405))
  | none, .error e => .done (allowing resource.methods (.ofError e))
  | some _, .error e => .done (.ofError e)
  | some action, .ok tenant => act limits tenant r action

/-- The response of a resource with nothing but a text to get. -/
def page (method : String) (response : Response) : Response :=
  if method = "GET" ∨ method = "HEAD" then response
  else allowing "GET,HEAD" (.empty 405)

def metricsType : String := "text/plain; version=0.0.4; charset=utf-8"

/-- Answers a request, `metrics` being the counts so far. -/
def handle {m : Type → Type} [Monad m] (store : Store m) (limits : Limits) (metrics : Metrics)
    (r : Request) : m (Response × Metrics) :=
  let path := (Target.ofString r.uri).path
  match Route.ofPath? path with
  | none => return (.empty 404, metrics)
  | some .health => return (forMethod r.method (page r.method (.text 200 "ok\n")), metrics)
  | some .metrics =>
    let response : Response := ⟨200, some metricsType, none, metrics.text⟩
    return (forMethod r.method (page r.method response), metrics)
  | some (.records k resource) => do
    let response ← Dialogue.run (store k) (records limits r resource)
    return (forMethod r.method response,
      metrics.count ⟨Route.kindLabel path, r.method⟩ response.status)

/-- Answers requests one after the other. -/
def handleAll {m : Type → Type} [Monad m] (store : Store m) (limits : Limits) :
    Metrics → List Request → m (List Response × Metrics)
  | metrics, [] => return ([], metrics)
  | metrics, r :: rest => do
    let (response, metrics) ← handle store limits metrics r
    let (responses, metrics) ← handleAll store limits metrics rest
    return (response :: responses, metrics)

end App
end TenantRegistry.Web
