import TenantRegistry.Proofs.Batch.Planned
import TenantRegistry.Proofs.Service.Script

/-!
Which calls a write makes of any store.

The store is any state machine: its answers may depend on all it has been asked, and any call may
fail. `logged` notes every call with its answer. `Follows` is what the log of a script may look
like: all calls succeed, or the log ends with the first one that fails. Main statement:
`write_calls_in_order`.
-/

namespace TenantRegistry

variable {k : Kind} {σ : Type}

/-- A store that notes its calls, the last one last. -/
def logged (store : (c : Call k) → StateM σ c.Answer) (c : Call k) :
    StateM (σ × List (Exchange k)) c.Answer :=
  fun (s, log) =>
    let (r, s') := store c s
    (r, (s', log ++ [⟨c, r⟩]))

/-- The log of calls made one after the other up to the first that fails, and that failure. -/
inductive Follows : List (Call k) → List (Exchange k) → Option (Call k × StoreError) → Prop
  | done : Follows [] [] none
  | stopped {c : Call k} {rest : List (Call k)} {e : StoreError} :
      Follows (c :: rest) [⟨c, .error e⟩] (some (c, e))
  | next {c : Call k} {rest : List (Call k)} {r : c.Reply} {log : List (Exchange k)}
      {failure : Option (Call k × StoreError)} :
      Follows rest log failure → Follows (c :: rest) (⟨c, .ok r⟩ :: log) failure

namespace Service

/-- What a request ends with after its calls: `a`, or the failure of a call. -/
def outcome {α : Type} (a : α) : Option (Call k × StoreError) → Except RequestError α
  | none => .ok a
  | some (c, e) => .error (.store c.action e)

theorem run_logged_ask {α : Type} (store : (c : Call k) → StateM σ c.Answer) (c : Call k)
    (next : c.Answer → Dialogue k α) (s : σ) (log : List (Exchange k)) :
    Dialogue.run (logged store) (.ask c next) (s, log) =
      Dialogue.run (logged store) (next (store c s).1)
        ((store c s).2, log ++ [⟨c, (store c s).1⟩]) := rfl

theorem run_follow {α : Type} (store : (c : Call k) → StateM σ c.Answer) (a : α)
    (calls : List (Call k)) (s : σ) (before : List (Exchange k)) :
    ∃ s' log failure, Follows calls log failure ∧
      Dialogue.run (logged store) (follow a calls) (s, before) =
        (outcome a failure, (s', before ++ log)) := by
  induction calls generalizing s before with
  | nil => exact ⟨s, [], none, .done, by rw [List.append_nil]; rfl⟩
  | cons c rest ih =>
    unfold follow
    rw [run_logged_ask]
    cases hanswer : (store c s).1 with
    | error e => exact ⟨(store c s).2, [⟨c, .error e⟩], some (c, e), .stopped, rfl⟩
    | ok r =>
      -- The rest of the script runs on with this call at the end of its log.
      obtain ⟨s', log, failure, hfollows, hrun⟩ := ih (store c s).2 (before ++ [⟨c, .ok r⟩])
      refine ⟨s', ⟨c, .ok r⟩ :: log, failure, .next hfollows, ?_⟩
      rw [List.append_assoc] at hrun
      exact hrun

/-- A write lists what is stored, and makes no other call unless that succeeds and every record of
the batch can be read and is accepted. Then its calls are those of the plan in order, up to the
first that fails. Its result is the failure of that call, or the names that were passed to the
calls. -/
theorem write_calls_in_order (store : (c : Call k) → StateM σ c.Answer) (s : σ)
    (tenant body : String) (ctx : BatchContext) :
    ∃ (listing : Except StoreError (List (Row k))) (log : List (Exchange k))
      (result : Except RequestError Summary) (s' : σ),
      Dialogue.run (logged store) (write tenant body ctx).run (s, []) =
        (result, (s', ⟨.list tenant, listing⟩ :: log)) ∧
      match listing with
      | .error e =>
        log = [] ∧ result = .error (.store ("Listing " ++ k.plural ++ " for tenant " ++ tenant) e)
      | .ok rows =>
        ((∃ p, reconcile (typeIn rows) ctx (decodeBatch k body) = .ok p) ↔
          decodeBatch k body ≠ [] ∧ ∀ r ∈ decodeBatch k body,
            ∃ x : Submission k, r = .ok x ∧ x.Accepted (typeIn rows) ctx) ∧
        match reconcile (typeIn rows) ctx (decodeBatch k body) with
        | .error e => log = [] ∧ result = .error e
        | .ok p =>
          (∃ subs, decodeBatch k body = subs.map .ok ∧
            Planned (typeIn rows) ctx subs p.inserts p.updates) ∧
          ∃ failure, Follows (script tenant p) log failure ∧
            result = outcome (summary p) failure := by
  rw [write_run, run_logged_ask]
  cases hlisting : (store (.list tenant) s).1 with
  | error e => exact ⟨.error e, [], _, (store (.list tenant) s).2, rfl, rfl, rfl⟩
  | ok rows =>
    dsimp only [written]
    cases hplan : reconcile (typeIn rows) ctx (decodeBatch k body) with
    | error e =>
      refine ⟨.ok rows, [], _, (store (.list tenant) s).2, rfl, ?_⟩
      exact ⟨reconcile_ok_iff_accepted, by rw [hplan]; exact ⟨rfl, rfl⟩⟩
    | ok p =>
      obtain ⟨s', log, failure, hfollows, hrun⟩ := run_follow store (summary p) (script tenant p)
        (store (.list tenant) s).2 [⟨.list tenant, .ok rows⟩]
      refine ⟨.ok rows, log, _, s', hrun, reconcile_ok_iff_accepted, ?_⟩
      obtain ⟨subs, hsubs, _, hplanned⟩ := reconcile_eq_ok_iff.mp hplan
      rw [hplan]
      exact ⟨⟨subs, hsubs, hplanned⟩, failure, hfollows, rfl⟩

end Service
end TenantRegistry
