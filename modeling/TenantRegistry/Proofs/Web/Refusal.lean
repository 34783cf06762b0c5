import Mathlib
import TenantRegistry.Proofs.Service.Performed
import TenantRegistry.Proofs.Web.TenantHeader
import TenantRegistry.Proofs.Yaml.Rendered
import TenantRegistry.Web.App

/-!
What requests leave of the memory store.

A request for records without a tenant is refused before it comes to the store. Any other one is
answered with 200 if it has done what it was to do; that its answer can be written is never in
question, since nothing that clients see has a tag. So a request that is answered with anything else
has left the store alone. Main statement: `refused_leaves_store`.
-/

namespace TenantRegistry

/-! ## Runs of dialogues -/

variable {k : Kind} {σ : Type}

/-- A store that notes its calls on either kind. -/
def noted (store : Store (StateM σ)) : Store (StateM (σ × List ((k : Kind) × Call k))) :=
  fun k c (s, calls) =>
    let (r, s') := store k c s
    (r, (s', calls ++ [⟨k, c⟩]))

/-- Nothing changes by taking notes. -/
theorem Dialogue.run_noted {α : Type} (store : Store (StateM σ)) (d : Dialogue k α) (s : σ)
    (calls : List ((k : Kind) × Call k)) :
    (d.run (noted store k) (s, calls)).1 = (d.run (store k) s).1 ∧
      (d.run (noted store k) (s, calls)).2.1 = (d.run (store k) s).2 := by
  induction d generalizing s calls with
  | done a => exact ⟨rfl, rfl⟩
  | ask c next ih => exact ih (store k c s).1 (store k c s).2 (calls ++ [⟨k, c⟩])

theorem Dialogue.run_bind {α β : Type} (store : (c : Call k) → StateM σ c.Answer)
    (d : Dialogue k α) (f : α → Dialogue k β) (s : σ) :
    (d.bind f).run store s = (f (d.run store s).1).run store (d.run store s).2 := by
  induction d generalizing s with
  | done a => rfl
  | ask c next ih => exact ih (store c s).1 (store c s).2

namespace Memory

theorem Reachable.run {α : Type} {s : State} (hs : Reachable s) (d : Dialogue k α) :
    Reachable (d.run (store k) s).2 := by
  induction d generalizing s with
  | done a => exact hs
  | ask c next ih => exact ih (store k c s).1 (hs.call c)

end Memory

namespace Web

open Memory (State Reachable Within Intact perform)

/-! ## Statuses -/

theorem Response.status_documents {docs : List Yaml.Tree} (h : ∀ t ∈ docs, t.isUntagged = true) :
    (Response.documents docs).status = 200 := by
  obtain ⟨body, hbody⟩ := Yaml.Tree.exists_renderAll h
  unfold Response.documents
  rw [hbody]

/-- A refusal for want of a tenant. -/
theorem Response.status_of_no_tenant {headers : List Header} {uri : String} {e : RequestError}
    (h : Tenant.ofHeaders headers uri = .error e) : (Response.ofError e).status = 400 := by
  unfold Tenant.ofHeaders at h
  split at h
  · cases h; rfl
  · split at h
    · split at h
      · cases h
      · cases h; rfl
    · cases h; rfl
  · cases h; rfl

/-! ## Requests for records -/

/-- A response with the state that it leaves: what was refused has changed nothing, and all that has
changed is of one tenant and one kind. -/
structure Settled (k : Kind) (tenant : String) (before : State) (result : Response × State) :
    Prop where
  within : Within k tenant before result.2
  of_status : result.1.status ≠ 200 → result.2 = before

theorem settled_same {tenant : String} {s : State} (response : Response) :
    Settled k tenant s (response, s) :=
  ⟨.refl k tenant s, fun _ => rfl⟩

theorem run_respond {α : Type} (r : Service.Request k α) (docs : α → List Yaml.Tree) (s : State) :
    Dialogue.run (Memory.store k) (App.respond do return docs (← r)) s =
      (match (perform r s).1 with
        | .ok a => .documents (docs a)
        | .error e => .ofError e, (perform r s).2) := by
  show Dialogue.run (Memory.store k) (Dialogue.bind (Dialogue.bind r.run _) _) s = _
  rw [Dialogue.run_bind, Dialogue.run_bind]
  unfold perform
  cases (Dialogue.run (Memory.store k) r.run s).1 <;> rfl

theorem settled_respond {α : Type} {r : Service.Request k α} {docs : α → List Yaml.Tree}
    {tenant : String} {s : State} (h : Intact r tenant s)
    (hdocs : ∀ a, ∀ t ∈ docs a, t.isUntagged = true) :
    Settled k tenant s
      (Dialogue.run (Memory.store k) (App.respond do return docs (← r)) s) := by
  rw [run_respond]
  refine ⟨h.within, fun hstatus => ?_⟩
  dsimp only at hstatus ⊢
  split at hstatus
  · next a _ => exact absurd (Response.status_documents (hdocs a)) hstatus
  · next e herror => exact h.of_error e herror

theorem settled_orRespond {α : Type} {x : Except Response α} {next : α → Dialogue k Response}
    {tenant : String} {s : State}
    (h : ∀ a, Settled k tenant s (Dialogue.run (Memory.store k) (next a) s)) :
    Settled k tenant s (Dialogue.run (Memory.store k) (App.orRespond x next) s) := by
  cases x with
  | ok a => exact h a
  | error response => exact settled_same response

theorem settled_act {s : State} (hs : Reachable s) (limits : Limits) (tenant : String)
    (r : Request) (action : Action) :
    Settled k tenant s (Dialogue.run (Memory.store k) (App.act limits tenant r action) s) := by
  cases action with
  | list =>
    refine settled_respond (Memory.intact_list tenant s) fun rows t ht => ?_
    obtain ⟨row, _, rfl⟩ := List.mem_map.mp ht
    exact row.isUntagged_shown
  | write =>
    refine settled_orRespond fun body => ?_
    refine settled_respond (Memory.intact_write hs tenant body _) fun names t ht => ?_
    cases List.mem_singleton.mp ht
    exact names.isUntagged_shown
  | get segment =>
    refine settled_orRespond fun name => ?_
    refine settled_respond (Memory.intact_get tenant name s) fun row t ht => ?_
    cases List.mem_singleton.mp ht
    exact row.isUntagged_shown
  | delete segment =>
    refine settled_orRespond fun name => ?_
    refine settled_respond (Memory.intact_delete tenant name s) fun row t ht => ?_
    cases List.mem_singleton.mp ht
    exact row.isUntagged_shown

/-- What is done with a resource by a method that only reads. -/
theorem reading_of_action {resource : Resource} {method : String} {action : Action}
    (haction : resource.action? method = some action) (h : method = "GET" ∨ method = "HEAD") :
    action = .list ∨ ∃ segment, action = .get segment := by
  cases resource with
  | collection =>
    simp only [Resource.action?, if_pos h] at haction
    exact .inl (Option.some.inj haction).symm
  | item segment =>
    simp only [Resource.action?, if_pos h] at haction
    exact .inr ⟨segment, (Option.some.inj haction).symm⟩

theorem run_act_reading {action : Action} (h : action = .list ∨ ∃ segment, action = .get segment)
    (limits : Limits) (tenant : String) (r : Request) (s : State) :
    (Dialogue.run (Memory.store k) (App.act limits tenant r action) s).2 = s := by
  rcases h with rfl | ⟨segment, rfl⟩
  · unfold App.act
    rw [run_respond, Memory.perform_list]
  · show (Dialogue.run (Memory.store k) (App.orRespond (App.itemName segment) fun name =>
      App.respond do return [(← Service.get (k := k) tenant name).shown]) s).2 = s
    cases App.itemName segment with
    | error response => rfl
    | ok name =>
      show (Dialogue.run (Memory.store k) (App.respond do
        return [(← Service.get (k := k) tenant name).shown]) s).2 = s
      rw [run_respond, Memory.perform_get]

/-- A request for records without a tenant comes to its end without any call. -/
theorem records_without_tenant (limits : Limits) {r : Request} (resource : Resource)
    (h : ¬ ∃ t, Tenant.Named r.headers t) :
    ∃ response : Response, (App.records limits r resource : Dialogue k Response) = .done response ∧
      response.status = 400 := by
  unfold App.records
  cases htenant : Tenant.ofHeaders r.headers (String.ofList (Target.ofString r.uri).text) with
  | ok t => exact absurd ⟨t, Tenant.ofHeaders_eq_ok_iff.mp htenant⟩ h
  | error e =>
    have hstatus := Response.status_of_no_tenant htenant
    cases resource.action? r.method with
    | none => exact ⟨_, rfl, hstatus⟩
    | some action => exact ⟨_, rfl, hstatus⟩

/-- A request for records of a tenant is refused for its method, or does what it asks for. -/
theorem records_with_tenant (limits : Limits) {r : Request} (resource : Resource) {t : String}
    (h : Tenant.Named r.headers t) :
    (∃ response, (App.records limits r resource : Dialogue k Response) = .done response) ∨
      ∃ action, resource.action? r.method = some action ∧
        (App.records limits r resource : Dialogue k Response) = App.act limits t r action := by
  unfold App.records
  rw [Tenant.ofHeaders_eq_ok_iff.mpr h]
  cases resource.action? r.method with
  | none => exact .inl ⟨_, rfl⟩
  | some action => exact .inr ⟨action, rfl, rfl⟩

/-- A tenant's request for records has changed nothing unless it is answered with 200, and never
does if its method only reads. -/
theorem settled_records {s : State} (hs : Reachable s) (limits : Limits) {r : Request}
    (resource : Resource) {t : String} (h : Tenant.Named r.headers t) :
    let result := Dialogue.run (Memory.store k) (App.records limits r resource) s
    Settled k t s result ∧ (r.method = "GET" ∨ r.method = "HEAD" → result.2 = s) := by
  intro result
  rcases records_with_tenant (k := k) limits resource h with
    ⟨response, hdone⟩ | ⟨action, haction, hact⟩
  · have hresult : result = (response, s) := by
      show Dialogue.run (Memory.store k) (App.records limits r resource) s = _
      rw [hdone]
      rfl
    rw [hresult]
    exact ⟨settled_same response, fun _ => rfl⟩
  · have hresult : result = Dialogue.run (Memory.store k) (App.act limits t r action) s := by
      show Dialogue.run (Memory.store k) (App.records limits r resource) s = _
      rw [hact]
    rw [hresult]
    exact ⟨settled_act hs limits t r action,
      fun hmethod => run_act_reading (reading_of_action haction hmethod) limits t r s⟩

/-! ## All requests -/

section Handle

variable {limits : Limits} {metrics : Metrics} {r : Request}

variable (limits metrics) in
theorem handle_records (store : Store (StateM σ)) {resource : Resource}
    (h : Route.ofPath? (Target.ofString r.uri).path = some (.records k resource)) (s : σ) :
    (App.handle store limits metrics r s).1.1 =
        App.forMethod r.method (Dialogue.run (store k) (App.records limits r resource) s).1 ∧
      (App.handle store limits metrics r s).2 =
        (Dialogue.run (store k) (App.records limits r resource) s).2 := by
  unfold App.handle
  rw [h]
  exact ⟨rfl, rfl⟩

theorem handle_other (store : Store (StateM σ))
    (h : ∀ k resource, Route.ofPath? (Target.ofString r.uri).path ≠ some (.records k resource))
    (s : σ) : (App.handle store limits metrics r s).2 = s := by
  unfold App.handle
  cases hroute : Route.ofPath? (Target.ofString r.uri).path with
  | none => rfl
  | some route =>
    cases route with
    | health => rfl
    | metrics => rfl
    | records k resource => exact absurd hroute (h k resource)

theorem reachable_handle {s : State} (hs : Reachable s) :
    Reachable (App.handle Memory.store limits metrics r s).2 := by
  by_cases h : ∃ k resource, Route.ofPath? (Target.ofString r.uri).path = some (.records k resource)
  · obtain ⟨k, resource, hroute⟩ := h
    rw [(handle_records limits metrics Memory.store hroute s).2]
    exact hs.run _
  · rw [handle_other Memory.store (fun k resource hroute => h ⟨k, resource, hroute⟩) s]
    exact hs

theorem reachable_handleAll {s : State} (hs : Reachable s) (metrics : Metrics)
    (requests : List Request) :
    Reachable (App.handleAll Memory.store limits metrics requests s).2 := by
  induction requests generalizing s metrics with
  | nil => exact hs
  | cons r rest ih =>
    exact ih (reachable_handle hs) (App.handle Memory.store limits metrics r s).1.2

/-- A request for records without a tenant is refused before the first call. -/
theorem handle_without_tenant {s : State} {calls : List ((k : Kind) × Call k)} {resource : Resource}
    (hroute : Route.ofPath? (Target.ofString r.uri).path = some (.records k resource))
    (h : ¬ ∃ t, Tenant.Named r.headers t) :
    (App.handle (noted Memory.store) limits metrics r (s, calls)).1.1.status = 400 ∧
      (App.handle (noted Memory.store) limits metrics r (s, calls)).2 = (s, calls) := by
  obtain ⟨hresponse, hafter⟩ :=
    handle_records limits metrics (noted Memory.store) hroute (s, calls)
  obtain ⟨refusal, hdone, hstatus⟩ := records_without_tenant (k := k) limits resource h
  rw [hdone] at hresponse hafter
  rw [hresponse, App.status_forMethod]
  exact ⟨hstatus, hafter⟩

/-- What holds of a tenant's request for records holds of the request as it is handled. -/
theorem handle_with_tenant {s : State} (hs : Reachable s) {calls : List ((k : Kind) × Call k)}
    {resource : Resource} {t : String}
    (hroute : Route.ofPath? (Target.ofString r.uri).path = some (.records k resource))
    (h : Tenant.Named r.headers t) :
    let result := App.handle (noted Memory.store) limits metrics r (s, calls)
    Settled k t s (result.1.1, result.2.1) ∧
      (r.method = "GET" ∨ r.method = "HEAD" → result.2.1 = s) := by
  intro result
  obtain ⟨hresponse, hafter⟩ :=
    handle_records limits metrics (noted Memory.store) hroute (s, calls)
  obtain ⟨hnoted, hstate⟩ := Dialogue.run_noted Memory.store
    (App.records limits r resource : Dialogue k Response) s calls
  obtain ⟨hsettled, hreading⟩ := settled_records (k := k) hs limits resource h
  have hend : result.2.1 = (Dialogue.run (Memory.store k) (App.records limits r resource) s).2 :=
    (congrArg Prod.fst hafter).trans hstate
  have hstatus : result.1.1.status =
      (Dialogue.run (Memory.store k) (App.records limits r resource) s).1.status := by
    rw [← hnoted]
    exact (congrArg Response.status hresponse).trans (App.status_forMethod r.method _)
  refine ⟨⟨?_, fun hrefused => ?_⟩, fun hmethod => ?_⟩
  · rw [hend]
    exact hsettled.within
  · rw [hend]
    exact hsettled.of_status (hstatus ▸ hrefused)
  · rw [hend]
    exact hreading hmethod

end Handle

/-- After whatever requests there were, a request for records that does not come with exactly one
valid tenant is answered with 400 and makes no store call. A request leaves both tables as they were
if it is answered with anything but 200, if its method is `GET` or `HEAD`, or if it is for nothing
that has records. In any case a tenant's request leaves the other kind and all other tenants
alone. -/
theorem refused_leaves_store (limits : Limits) (earlier : List Request) (metrics : Metrics)
    (r : Request) :
    let before := (App.handleAll Memory.store limits .empty earlier State.empty).2
    let result := App.handle (noted Memory.store) limits metrics r (before, [])
    let response := result.1.1
    let after := result.2.1
    let calls := result.2.2
    let route := Route.ofPath? (Target.ofString r.uri).path
    (∀ k resource, route = some (.records k resource) → (¬ ∃ t, Tenant.Named r.headers t) →
      response.status = 400 ∧ calls = []) ∧
    (response.status ≠ 200 → after = before) ∧
    (r.method = "GET" ∨ r.method = "HEAD" → after = before) ∧
    ((∀ k resource, route ≠ some (.records k resource)) → after = before) ∧
    ∀ k resource t, route = some (.records k resource) → Tenant.Named r.headers t →
      (∀ other, other ≠ k → after.table other = before.table other) ∧
      ∀ other, other ≠ t → (after.table k).ofTenant other = (before.table k).ofTenant other := by
  intro before result response after calls route
  have hs : Reachable before := reachable_handleAll .empty .empty earlier
  by_cases hroute : ∃ k resource, route = some (.records k resource)
  · obtain ⟨k, resource, hroute⟩ := hroute
    by_cases htenant : ∃ t, Tenant.Named r.headers t
    · obtain ⟨t, ht⟩ := htenant
      obtain ⟨hsettled, hreading⟩ : Settled k t before (response, after) ∧
        (r.method = "GET" ∨ r.method = "HEAD" → after = before) := handle_with_tenant hs hroute ht
      refine ⟨fun _ _ _ hnone => absurd ⟨t, ht⟩ hnone, hsettled.of_status, hreading,
        fun hother => absurd hroute (hother k resource), ?_⟩
      intro k' resource' t' hroute' ht'
      cases hroute.symm.trans hroute'
      -- There is one tenant header, so it names one tenant.
      cases ht.unique ht'
      exact ⟨hsettled.within.kinds, hsettled.within.tenants⟩
    · obtain ⟨hstatus, hsame⟩ : response.status = 400 ∧ result.2 = (before, []) :=
        handle_without_tenant hroute htenant
      have hend : after = before := congrArg Prod.fst hsame
      exact ⟨fun _ _ _ _ => ⟨hstatus, congrArg Prod.snd hsame⟩, fun _ => hend, fun _ => hend,
        fun _ => hend, fun _ _ t _ ht => absurd ⟨t, ht⟩ htenant⟩
  · have hnone : ∀ k resource, route ≠ some (.records k resource) :=
      fun k resource h => hroute ⟨k, resource, h⟩
    have hresult : result.2 = (before, []) := handle_other (noted Memory.store) hnone (before, [])
    have hend : after = before := congrArg Prod.fst hresult
    exact ⟨fun k resource h => absurd h (hnone k resource), fun _ => hend, fun _ => hend,
      fun _ => hend, fun k resource _ h => absurd h (hnone k resource)⟩

end Web
end TenantRegistry
