import TenantRegistry.Proofs.Batch.Planned
import TenantRegistry.Proofs.Record.Payload
import TenantRegistry.Proofs.Service.Script

/-!
The operations of the service, and which calls they may make.

`Respects` says that a dialogue keeps to a rule for its calls, whatever the answers are; the rule
may look at what has been answered before. `Operation.respects` goes through the service once, for
any rule. Operations keep to two: `Justified` says that new rows are checked, that new content is
checked against a type that a listing has shown, and that a delete comes first; and no call is for
another tenant.
-/

namespace TenantRegistry

variable {k : Kind}

/-! ## Operations -/

/-- What a client asks for, a write with the reading of the clock and the nesting it may have. -/
inductive Action (k : Kind) where
  | list
  | get (name : String)
  | delete (name : String)
  | write (body : String) (clock : Timestamp) (maxDepth : Nat)

namespace Action

/-- What an action ends with when it succeeds. -/
def Result : Action k → Type
  | .list => List (Row k)
  | .get _ => Row k
  | .delete _ => Row k
  | .write .. => Summary

def request (tenant : String) : (a : Action k) → Service.Request k a.Result
  | .list => Service.list tenant
  | .get name => Service.get tenant name
  | .delete name => Service.delete tenant name
  | .write body clock maxDepth => Service.write tenant body ⟨.ofClock clock, maxDepth⟩

/-- The reading of the clock that an action takes. -/
def clock? : Action k → Option Timestamp
  | .write _ clock _ => some clock
  | _ => none

end Action

/-- An action with the kind and the tenant it is for. -/
structure Operation where
  kind : Kind
  tenant : String
  action : Action kind

namespace Operation

def dialogue (op : Operation) : Dialogue op.kind (Except RequestError op.action.Result) :=
  (op.action.request op.tenant).run

/-- Carries out operations one after the other. -/
def runAll {m : Type → Type} [Monad m] (store : Store m) : List Operation → m Unit
  | [] => return ()
  | op :: rest => do
    let _ ← op.dialogue.run (store op.kind)
    runAll store rest

end Operation

/-! ## Rules for the calls of a dialogue -/

/-- All calls that a dialogue makes after those of a log are as the rule allows. -/
inductive Dialogue.Respects {α : Type} (rule : List (Exchange k) → Call k → Prop) :
    List (Exchange k) → Dialogue k α → Prop
  | done (log : List (Exchange k)) (a : α) : Respects rule log (.done a)
  | ask {log : List (Exchange k)} {c : Call k} {next : c.Answer → Dialogue k α} :
      rule log c → (∀ r, Respects rule (log ++ [⟨c, r⟩]) (next r)) →
      Respects rule log (.ask c next)

/-- What the allowed calls keep, the whole dialogue keeps. -/
theorem Dialogue.Respects.run {α σ : Type} {rule : List (Exchange k) → Call k → Prop}
    {store : (c : Call k) → StateM σ c.Answer} {I : List (Exchange k) → σ → Prop}
    (hstep : ∀ log c s, rule log c → I log s →
      I (log ++ [⟨c, (store c s).1⟩]) (store c s).2)
    {d : Dialogue k α} {log : List (Exchange k)} {s : σ} (hd : d.Respects rule log) (hs : I log s) :
    ∃ log', I log' (Dialogue.run store d s).2 := by
  induction hd generalizing s with
  | done log a => exact ⟨log, hs⟩
  | @ask log c next hrule _ ih => exact ih (store c s).1 (hstep log c s hrule hs)

theorem respects_follow {α : Type} {rule : List (Exchange k) → Call k → Prop} (a : α)
    {calls : List (Call k)} {log : List (Exchange k)}
    (h : ∀ c ∈ calls, ∀ more, rule (log ++ more) c) :
    (Service.follow a calls).Respects rule log := by
  induction calls generalizing log with
  | nil => exact .done log _
  | cons c rest ih =>
    have hfirst := h c List.mem_cons_self []
    rw [List.append_nil] at hfirst
    refine .ask hfirst fun r => ?_
    cases r with
    | error e => exact .done _ _
    | ok r =>
      refine ih fun c' hc' more => ?_
      rw [List.append_assoc]
      exact h c' (List.mem_cons_of_mem _ hc') _

/-! ## The rule of operations -/

/-- A call that an operation may make after those of a log: rows to be inserted are new at the time
of the clock and fit their types, and new content fits the type that was listed for its name. -/
def Justified (clock? : Option Timestamp) (log : List (Exchange k)) : Call k → Prop
  | .list _ => True
  | .get .. => True
  | .delete .. => log = []
  | .insert _ rows => ∃ clock ∈ clock?, ∀ i ∈ rows, i.name ≠ "" ∧ i.payload.Fits i.type ∧
      i.createdAt = .ofClock clock ∧ i.updatedAt = .ofClock clock
  | .update tenant u => ∃ clock ∈ clock?, u.updatedAt = .ofClock clock ∧
      ∃ rows type, ⟨.list tenant, .ok rows⟩ ∈ log ∧ Service.typeIn rows u.name = some type ∧
        (type ≠ "" → u.payload.Fits type)

theorem fits_of_toInsert {s : Submission k} {i : Insert k} {ctx : BatchContext}
    (h : s.toInsert ctx = .ok i) :
    i.name ≠ "" ∧ i.payload.Fits i.type ∧ i.createdAt = ctx.now ∧ i.updatedAt = ctx.now := by
  obtain ⟨hname, htype, p, hp, rfl⟩ := Submission.toInsert_eq_ok h
  exact ⟨hname, Content.fits_of_payload htype hp, rfl, rfl⟩

theorem fits_of_toUpdate {s : Submission k} {u : Update k} {current : String} {ctx : BatchContext}
    (h : s.toUpdate current ctx = .ok u) (htype : s.type = "" ∨ s.type = current) :
    u.updatedAt = ctx.now ∧ (current ≠ "" → u.payload.Fits current) := by
  obtain ⟨_, p, hp, rfl⟩ := Submission.toUpdate_eq_ok h
  refine ⟨rfl, fun hcurrent => ?_⟩
  have hschema : (if s.type = "" then current else s.type) = current := by
    rcases htype with h | h <;> simp [h]
  rw [hschema] at hp
  exact Content.fits_of_payload hcurrent hp

theorem justified_script {tenant : String} {clock : Timestamp} {maxDepth : Nat}
    {rows : List (Row k)} {batch : List (Submission k)} {p : Plan k}
    (h : Planned (Service.typeIn rows) ⟨.ofClock clock, maxDepth⟩ batch p.inserts p.updates)
    {c : Call k} (hc : c ∈ Service.script tenant p) (more : List (Exchange k)) :
    Justified (some clock) (⟨.list tenant, .ok rows⟩ :: more) c := by
  rcases List.mem_append.mp hc with hc | hc
  · have hinsert : c = .insert tenant p.inserts := by
      split at hc
      · cases hc
      · exact List.mem_singleton.mp hc
    subst hinsert
    refine ⟨clock, rfl, fun i hi => ?_⟩
    obtain ⟨x, _, _, hx⟩ := h.of_mem_inserts hi
    exact fits_of_toInsert hx
  · obtain ⟨u, hu, rfl⟩ := List.mem_map.mp hc
    obtain ⟨x, _, current, hcurrent, hx, htype⟩ := h.of_mem_updates hu
    obtain ⟨hnow, hfits⟩ := fits_of_toUpdate hx htype
    refine ⟨clock, rfl, hnow, rows, current, List.mem_cons_self, ?_, hfits⟩
    rw [Submission.name_of_toUpdate hx, hcurrent]

theorem respects_found {rule : List (Exchange k) → Call k → Prop} (tenant name : String)
    (r : Option (Row k)) (log : List (Exchange k)) :
    (Service.found tenant name r).run.Respects rule log := by
  cases r <;> exact .done log _

theorem respects_write {rule : List (Exchange k) → Call k → Prop} {tenant body : String}
    {ctx : BatchContext} (hlist : rule [] (.list tenant))
    (hscript : ∀ rows p, reconcile (Service.typeIn rows) ctx (decodeBatch k body) = .ok p →
      ∀ c ∈ Service.script tenant p, ∀ more, rule (⟨.list tenant, .ok rows⟩ :: more) c) :
    (Service.write (k := k) tenant body ctx).run.Respects rule [] := by
  rw [Service.write_run]
  refine .ask hlist fun r => ?_
  cases r with
  | error e => exact .done _ _
  | ok rows =>
    dsimp only [Service.written]
    split
    · next p hplan => exact respects_follow _ (hscript rows p hplan)
    · exact .done _ _

/-- A rule holds of an operation if it allows the call that each action begins with, and all calls
of a plan once the rows are listed that the plan was made from. -/
theorem Operation.respects (op : Operation) {rule : List (Exchange op.kind) → Call op.kind → Prop}
    (hlist : rule [] (.list op.tenant)) (hget : ∀ name, rule [] (.get op.tenant name))
    (hdelete : ∀ name, rule [] (.delete op.tenant name))
    (hscript : ∀ body clock maxDepth rows p, op.action = .write body clock maxDepth →
      reconcile (Service.typeIn rows) ⟨.ofClock clock, maxDepth⟩ (decodeBatch op.kind body) =
        .ok p →
      ∀ c ∈ Service.script op.tenant p, ∀ more, rule (⟨.list op.tenant, .ok rows⟩ :: more) c) :
    op.dialogue.Respects rule [] := by
  obtain ⟨k, tenant, action⟩ := op
  unfold dialogue
  cases action with
  | list =>
    refine .ask hlist fun r => ?_
    cases r <;> exact .done _ _
  | get name =>
    refine .ask (hget name) fun r => ?_
    cases r with
    | error e => exact .done _ _
    | ok r => exact respects_found tenant name r _
  | delete name =>
    refine .ask (hdelete name) fun r => ?_
    cases r with
    | error e => exact .done _ _
    | ok r => exact respects_found tenant name r _
  | write body clock maxDepth =>
    exact respects_write hlist fun rows p hplan => hscript body clock maxDepth rows p rfl hplan

/-- The calls of an operation are justified by its clock and by what it has seen. -/
theorem Operation.respects_justified (op : Operation) :
    op.dialogue.Respects (Justified op.action.clock?) [] := by
  refine op.respects trivial (fun _ => trivial) (fun _ => rfl) ?_
  intro body clock maxDepth rows p haction hplan c hc more
  obtain ⟨_, _, _, hplanned⟩ := reconcile_eq_ok_iff.mp hplan
  rw [haction]
  exact justified_script hplanned hc more

theorem Service.tenant_of_mem_script {tenant : String} {p : Plan k} {c : Call k}
    (h : c ∈ script tenant p) : c.tenant = tenant := by
  rcases mem_script h with ⟨_, rfl⟩ | ⟨u, _, rfl⟩ <;> rfl

/-- An operation calls for its own tenant only. -/
theorem Operation.respects_tenant (op : Operation) :
    op.dialogue.Respects (fun _ c => c.tenant = op.tenant) [] :=
  op.respects rfl (fun _ => rfl) (fun _ => rfl)
    fun _ _ _ _ _ _ _ _ hc _ => Service.tenant_of_mem_script hc

end TenantRegistry
