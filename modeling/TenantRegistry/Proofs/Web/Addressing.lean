import Mathlib
import TenantRegistry.Proofs.Web.EncodedName
import TenantRegistry.Proofs.Web.Refusal

/-!
What can be created can be addressed.

A resource of the memory store is found, and deleted, under every target that encodes its name,
whatever the name is: names are not restricted when they are written, and nothing in a name takes
the request elsewhere (`addresses_of_find?`). Main statement, for the names that the answer to a
write lists: `created_addressable`.
-/

namespace TenantRegistry

variable {k : Kind}

/-! ## Rows of written names -/

namespace Memory

/-- A name that a write lists is not empty and has a row after the write. -/
theorem exists_row_of_written {s after : State} (hs : Reachable s) {tenant body name : String}
    {ctx : BatchContext} {summary : Summary}
    (h : perform (Service.write tenant body ctx : Service.Request k Summary) s =
      (.ok summary, after))
    (hname : name ∈ summary.inserted ++ summary.updated) :
    name ≠ "" ∧ ∃ row, (after.table k).find? ⟨tenant, name⟩ = some row := by
  rw [perform_write hs] at h
  cases hplan : reconcile (storedType (s.table k) tenant) ctx (decodeBatch k body) with
  | error e =>
    rw [hplan] at h
    cases h
  | ok p =>
    rw [hplan] at h
    obtain ⟨batch, -, -, hplanned⟩ := reconcile_eq_ok_iff.mp hplan
    rcases run_script (Service.summary p) tenant p s with ⟨hrun, hnodup⟩ | ⟨⟨e, hrun⟩, -⟩
    · obtain ⟨hsummary, rfl⟩ := Prod.mk.inj (hrun.symm.trans h)
      obtain rfl := Except.ok.inj hsummary
      rw [State.table_withTable]
      rcases List.mem_append.mp hname with hname | hname
      · obtain ⟨i, hi, rfl⟩ := List.mem_map.mp hname
        obtain ⟨x, hx, hnew, hins⟩ := hplanned.of_mem_inserts hi
        rw [Submission.name_of_toInsert hins]
        obtain ⟨_, -, hrow⟩ :=
          find?_committed_new hplanned hnodup hx (Option.map_eq_none_iff.mp hnew)
        exact ⟨(Submission.toInsert_eq_ok hins).1, _, hrow⟩
      · obtain ⟨u, hu, rfl⟩ := List.mem_map.mp hname
        obtain ⟨x, -, current, htype, hupd, -⟩ := hplanned.of_mem_updates hu
        rw [Submission.name_of_toUpdate hupd]
        obtain ⟨old, hold, -⟩ := Option.map_eq_some_iff.mp htype
        have hkept : (putAll tenant p.inserts (s.table k)).find? ⟨tenant, x.name⟩ = some old := by
          rw [find?_putAll_of_not_mem, hold]
          rintro i hi heq
          have hnone := find?_of_mem_inserts hplanned hi
          rw [heq, hold] at hnone
          cases hnone
        obtain ⟨row, hrow, -⟩ := exists_find?_updateAll tenant p.updates hkept
        exact ⟨(Submission.toUpdate_eq_ok hupd).1, row, hrow⟩
    · cases congrArg Prod.fst (hrun.symm.trans h)

end Memory

namespace Web

open Memory (State Reachable Stored Key perform)
open Percent (Encodes)

/-! ## Requests of a tenant -/

/-- A request that a tenant sends with a method to a target. -/
structure SentBy (tenant method uri : String) (r : Request) : Prop where
  tenant : Tenant.Named r.headers tenant
  method : r.method = method
  uri : r.uri = uri

section Handle

variable (limits : Limits) (metrics : Metrics) (s : State) {r : Request}
  {tenant method uri : String} (hr : SentBy tenant method uri r) {resource : Resource}
  (hnames : Route.Names k (Target.ofString uri).path resource) {action : Action}
  (haction : resource.action? method = some action) (hmethod : method ≠ "HEAD")

include hr hnames haction hmethod

/-- What a tenant asks for with any method but `HEAD` is done, and its answer given in full. -/
theorem handle_action :
    (App.handle Memory.store limits metrics r s).1.1 =
        (Dialogue.run (Memory.store k) (App.act limits tenant r action) s).1 ∧
      (App.handle Memory.store limits metrics r s).2 =
        (Dialogue.run (Memory.store k) (App.act limits tenant r action) s).2 := by
  obtain ⟨htenant, rfl, rfl⟩ := hr
  obtain ⟨hresponse, hafter⟩ := handle_records limits metrics Memory.store
    (Route.ofPath?_eq_records_iff.mpr hnames) s
  have hrecords : (App.records limits r resource : Dialogue k Response) =
      App.act limits tenant r action := by
    unfold App.records
    rw [haction, Tenant.ofHeaders_eq_ok_iff.mpr htenant]
  rw [hrecords] at hresponse hafter
  rw [App.forMethod, if_neg hmethod] at hresponse
  exact ⟨hresponse, hafter⟩

/-- The answer to a request and the state after it, by what the store makes of it. -/
theorem handle_request {α : Type} {request : Service.Request k α} {docs : α → List Yaml.Tree}
    (hact : App.act limits tenant r action = App.respond do return docs (← request)) :
    (App.handle Memory.store limits metrics r s).1.1 =
        (match (perform request s).1 with
          | .ok a => .documents (docs a)
          | .error e => .ofError e) ∧
      (App.handle Memory.store limits metrics r s).2 = (perform request s).2 := by
  obtain ⟨hresponse, hafter⟩ := handle_action limits metrics s hr hnames haction hmethod
  rw [hact, run_respond request docs] at hresponse hafter
  exact ⟨hresponse, hafter⟩

end Handle

/-- A single document is always a good answer. -/
theorem status_row (row : Row k) : (Response.documents [row.shown]).status = 200 :=
  Response.status_documents fun t ht => by
    cases List.mem_singleton.mp ht
    exact row.isUntagged_shown

/-! ## Requests for an item -/

/-- A target addresses a row of a state: its tenant gets the row from there as the only document,
deletes that row and no other there, and does not find it again. -/
structure Addresses (limits : Limits) (uri : String) (key : Key) (row : Stored k) (s : State) :
    Prop where
  get : ∀ r metrics, SentBy key.tenant "GET" uri r →
    let result := App.handle Memory.store limits metrics r s
    result.1.1.status = 200 ∧ result.1.1 = .documents [row.row.shown] ∧ result.2 = s
  delete : ∀ r metrics, SentBy key.tenant "DELETE" uri r →
    let result := App.handle Memory.store limits metrics r s
    result.1.1.status = 200 ∧ result.1.1 = .documents [row.row.shown] ∧
      (result.2.table k).find? key = none ∧
      (∀ other, other ≠ key → (result.2.table k).find? other = (s.table k).find? other) ∧
      ∀ other, other ≠ k → result.2.table other = s.table other
  gone : ∀ r metrics r' metrics', SentBy key.tenant "DELETE" uri r →
    SentBy key.tenant "GET" uri r' →
    let after := (App.handle Memory.store limits metrics r s).2
    let result := App.handle Memory.store limits metrics' r' after
    result.1.1.status = 404 ∧ result.1.1 = .ofError (.notFound k key.tenant key.name) ∧
      result.2 = after

section Item

variable {name uri tenant : String} {segment : List Char}

theorem ofString_ne_nil (hne : name ≠ "") : Utf8.ofString name ≠ [] := by
  intro hnil
  have hname := Utf8.toString?_ofString name
  rw [hnil] at hname
  exact hne (Option.some.inj hname).symm

/-- A target for an item and what is asked for with a method that items have. -/
theorem names_item (hencodes : Encodes (Utf8.ofString name) segment) (hne : name ≠ "")
    (huri : uri ∈ itemUris k segment) :
    Route.Names k (Target.ofString uri).path (.item segment) :=
  names_of_encodes hencodes (ofString_ne_nil hne) huri

variable (limits : Limits) (metrics : Metrics) (s : State) {r : Request}
  (hencodes : Encodes (Utf8.ofString name) segment) (hne : name ≠ "")
  (huri : uri ∈ itemUris k segment)

include hencodes hne huri

theorem handle_get (hr : SentBy tenant "GET" uri r) :
    (App.handle Memory.store limits metrics r s).1.1 =
        (match (s.table k).find? ⟨tenant, name⟩ with
          | some row => .documents [row.row.shown]
          | none => .ofError (.notFound k tenant name)) ∧
      (App.handle Memory.store limits metrics r s).2 = s := by
  have hact : App.act limits tenant r (.get segment) =
      App.respond do return [(← Service.get (k := k) tenant name).shown] := by
    rw [App.act, App.itemName_of_encodes hencodes]
    rfl
  obtain ⟨hresponse, hafter⟩ := handle_request limits metrics s hr
    (names_item hencodes hne huri) rfl (by decide) hact
  rw [Memory.perform_get] at hresponse hafter
  refine ⟨hresponse.trans ?_, hafter⟩
  cases (s.table k).find? ⟨tenant, name⟩ <;> rfl

theorem handle_delete (hr : SentBy tenant "DELETE" uri r) {row : Stored k}
    (hrow : (s.table k).find? ⟨tenant, name⟩ = some row) :
    (App.handle Memory.store limits metrics r s).1.1 = .documents [row.row.shown] ∧
      (App.handle Memory.store limits metrics r s).2 =
        s.withTable ((s.table k).remove ⟨tenant, name⟩) := by
  have hact : App.act limits tenant r (.delete segment) =
      App.respond do return [(← Service.delete (k := k) tenant name).shown] := by
    rw [App.act, App.itemName_of_encodes hencodes]
    rfl
  obtain ⟨hresponse, hafter⟩ := handle_request limits metrics s hr
    (names_item hencodes hne huri) rfl (by decide) hact
  rw [Memory.perform_delete, hrow] at hresponse hafter
  exact ⟨hresponse, hafter⟩

/-- A row is addressed by all targets that encode its name. -/
theorem addresses_of_find? {row : Stored k} (hrow : (s.table k).find? ⟨tenant, name⟩ = some row) :
    Addresses limits uri ⟨tenant, name⟩ row s := by
  have hremoved : ∀ other, ((s.table k).remove ⟨tenant, name⟩).find? other =
      if (⟨tenant, name⟩ : Key) = other then none else (s.table k).find? other :=
    Memory.Table.find?_remove (s.table k) ⟨tenant, name⟩
  constructor
  · intro r metrics hr result
    obtain ⟨hresponse, hafter⟩ := handle_get limits metrics s hencodes hne huri hr
    rw [hrow] at hresponse
    exact ⟨hresponse ▸ status_row row.row, hresponse, hafter⟩
  · intro r metrics hr result
    obtain ⟨hresponse, hafter⟩ := handle_delete limits metrics s hencodes hne huri hr hrow
    have htable : result.2.table k = (s.table k).remove ⟨tenant, name⟩ := by
      rw [show result.2 = _ from hafter, Memory.State.table_withTable]
    refine ⟨hresponse ▸ status_row row.row, hresponse, ?_, fun other hother => ?_,
      fun other hother => ?_⟩
    · rw [htable, hremoved, if_pos rfl]
    · rw [htable, hremoved, if_neg (Ne.symm hother)]
    · rw [show result.2 = _ from hafter]
      exact Memory.State.table_withTable_of_ne s _ hother
  · intro r metrics r' metrics' hr hr' after result
    obtain ⟨-, hafter⟩ := handle_delete limits metrics s hencodes hne huri hr hrow
    have hnone : (after.table k).find? ⟨tenant, name⟩ = none := by
      rw [show after = _ from hafter, Memory.State.table_withTable, hremoved, if_pos rfl]
    obtain ⟨hresponse, hstate⟩ := handle_get limits metrics' after hencodes hne huri hr'
    rw [hnone] at hresponse
    refine ⟨?_, hresponse, hstate⟩
    rw [show result.1.1 = _ from hresponse]
    rfl

end Item

/-! ## Written names -/

theorem status_of_bodyText {limits : Limits} {body : List UInt8} {response : Response}
    (h : App.bodyText limits body = .error response) : response.status ≠ 200 := by
  unfold App.bodyText at h
  split at h
  · cases h
    exact (by decide : 413 ≠ 200)
  · split at h
    · cases h
    · cases h
      exact (by decide : 400 ≠ 200)

theorem status_ofError (e : RequestError) : (Response.ofError e).status ≠ 200 := by
  show e.status.number ≠ 200
  cases e.status <;> decide

section Write

variable (limits : Limits) (metrics : Metrics) (s : State) {r : Request} {tenant uri : String}
  (hr : SentBy tenant "POST" uri r) (hnames : Route.Names k (Target.ofString uri).path .collection)

include hr hnames

theorem handle_write {body : String} (hbody : App.bodyText limits r.body = .ok body) :
    let written := perform (Service.write tenant body ⟨r.now, limits.maxDepth⟩ :
      Service.Request k Summary) s
    (App.handle Memory.store limits metrics r s).1.1 =
        (match written.1 with
          | .ok summary => .documents [summary.shown]
          | .error e => .ofError e) ∧
      (App.handle Memory.store limits metrics r s).2 = written.2 := by
  have hact : App.act limits tenant r .write = App.respond do
      return [(← Service.write (k := k) tenant body ⟨r.now, limits.maxDepth⟩).shown] := by
    rw [App.act, hbody]
    rfl
  obtain ⟨hresponse, hafter⟩ := handle_request limits metrics s hr hnames rfl (by decide) hact
  refine ⟨hresponse.trans ?_, hafter⟩
  cases (perform (Service.write tenant body ⟨r.now, limits.maxDepth⟩ :
    Service.Request k Summary) s).1 <;> rfl

/-- A write that is answered with 200 has been carried out, and its answer is its summary. -/
theorem exists_summary (hok : (App.handle Memory.store limits metrics r s).1.1.status = 200) :
    ∃ body summary, App.bodyText limits r.body = .ok body ∧
      perform (Service.write tenant body ⟨r.now, limits.maxDepth⟩ : Service.Request k Summary) s =
        (.ok summary, (App.handle Memory.store limits metrics r s).2) ∧
      (App.handle Memory.store limits metrics r s).1.1 = .documents [summary.shown] := by
  cases hbody : App.bodyText limits r.body with
  | error response =>
    obtain ⟨hresponse, -⟩ := handle_action limits metrics s hr hnames rfl (by decide)
    rw [App.act, hbody] at hresponse
    rw [hresponse] at hok
    exact absurd hok (status_of_bodyText hbody)
  | ok body =>
    obtain ⟨hresponse, hafter⟩ := handle_write limits metrics s hr hnames hbody
    cases hresult : (perform (Service.write tenant body ⟨r.now, limits.maxDepth⟩ :
        Service.Request k Summary) s).1 with
    | error e =>
      rw [hresponse, hresult] at hok
      exact absurd hok (status_ofError e)
    | ok summary =>
      rw [hresult] at hresponse
      exact ⟨body, summary, rfl, Prod.ext hresult hafter.symm, hresponse⟩

end Write

/-- Each name that the answer to a write lists can be encoded, and each target that encodes it
addresses the row of that name. -/
theorem created_addressable {s : State} (hs : Reachable s) (limits : Limits) (metrics : Metrics)
    {r : Request} {tenant uri : String} (hr : SentBy tenant "POST" uri r)
    (hnames : Route.Names k (Target.ofString uri).path .collection)
    (hok : (App.handle Memory.store limits metrics r s).1.1.status = 200) :
    let result := App.handle Memory.store limits metrics r s
    ∃ body summary, App.bodyText limits r.body = .ok body ∧
      perform (Service.write tenant body ⟨r.now, limits.maxDepth⟩ : Service.Request k Summary) s =
        (.ok summary, result.2) ∧
      result.1.1 = .documents [summary.shown] ∧
      ∀ name ∈ summary.inserted ++ summary.updated, name ≠ "" ∧
        (∃ segment, Encodes (Utf8.ofString name) segment) ∧
        ∃ row, (result.2.table k).find? ⟨tenant, name⟩ = some row ∧ row.name = name ∧
          ∀ segment, Encodes (Utf8.ofString name) segment → ∀ uri ∈ itemUris k segment,
            Addresses limits uri ⟨tenant, name⟩ row result.2 := by
  intro result
  obtain ⟨body, summary, hbody, hperform, hresponse⟩ :=
    exists_summary limits metrics s hr hnames hok
  refine ⟨body, summary, hbody, hperform, hresponse, fun name hname => ?_⟩
  obtain ⟨hne, row, hrow⟩ := Memory.exists_row_of_written hs hperform hname
  have hafter : Reachable result.2 := reachable_handle hs
  exact ⟨hne, ⟨_, Percent.encodes_flatMap _⟩, row, hrow, (hafter.proper k).name_of_find? hrow,
    fun segment hencodes uri huri =>
      addresses_of_find? limits result.2 hencodes hne huri hrow⟩

/-- Two dots and everything that means something in a path, a URL or a line. -/
def oddName : String := "..%/?#\n"

def oddBody : String := "name: \"..%/?#\\n\"\ntype: loki\nconfig: \x7b\x7d"

def oddPost : Request :=
  ⟨"POST", "/api/v1/exporters", [⟨Utf8.ofString "X-Scope-OrgID", Utf8.ofString "t"⟩],
    Utf8.ofString oddBody, ⟨5, 0⟩⟩

theorem sentBy_oddPost : SentBy "t" "POST" "/api/v1/exporters" oddPost :=
  ⟨(@Tenant.ofHeaders_eq_ok_iff _ "/" _).mp (by decide +kernel), rfl, rfl⟩

theorem names_exporters :
    Route.Names .exporter (Target.ofString "/api/v1/exporters").path .collection :=
  Route.ofPath?_eq_records_iff.mp (by decide +kernel)

set_option maxRecDepth 100000 in
theorem perform_oddBody :
    (perform (Service.write "t" oddBody ⟨⟨5, 0⟩, 8⟩ : Service.Request .exporter Summary)
      .empty).1 = .ok ⟨[oddName], []⟩ := by
  cbv

set_option maxRecDepth 100000 in
theorem bodyText_oddPost : App.bodyText ⟨1000, 8⟩ oddPost.body = .ok oddBody := by
  cbv

theorem status_oddPost :
    (App.handle Memory.store ⟨1000, 8⟩ .empty oddPost .empty).1.1.status = 200 := by
  obtain ⟨hresponse, -⟩ :=
    handle_write ⟨1000, 8⟩ .empty .empty sentBy_oddPost names_exporters bodyText_oddPost
  have hresult : (perform (Service.write "t" oddBody ⟨oddPost.now, 8⟩ :
      Service.Request .exporter Summary) .empty).1 = .ok ⟨[oddName], []⟩ :=
    perform_oddBody
  rw [hresponse, hresult]
  exact Response.status_documents (List.forall_mem_singleton.mpr (Summary.isUntagged_shown _))

theorem created_addressable_odd_name :
    (App.handle Memory.store ⟨1000, 8⟩ .empty oddPost .empty).1.1.status = 200 ∧
      ∃ row : Stored .exporter, row.name = oddName ∧
        Addresses ⟨1000, 8⟩ "/api/v1/exporters/%2E%2E%25%2F%3F%23%0A/" ⟨"t", oddName⟩ row
          (App.handle Memory.store ⟨1000, 8⟩ .empty oddPost .empty).2 := by
  obtain ⟨body, summary, hbody, hperform, -, hall⟩ := created_addressable .empty ⟨1000, 8⟩ .empty
    sentBy_oddPost names_exporters status_oddPost
  obtain rfl := Except.ok.inj (hbody.symm.trans bodyText_oddPost)
  obtain rfl := Except.ok.inj ((congrArg Prod.fst hperform).symm.trans perform_oddBody)
  obtain ⟨-, -, row, -, hname, haddresses⟩ := hall oddName List.mem_cons_self
  exact ⟨status_oddPost, row, hname, haddresses _ (Percent.encodes_flatMap _) _ (by decide +kernel)⟩

end Web
end TenantRegistry
