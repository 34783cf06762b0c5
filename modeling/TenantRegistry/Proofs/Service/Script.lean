import TenantRegistry.Service

/-!
A write as a list of calls.

Once the listing is answered, what a write still does is settled: either nothing, or to make the
calls of a script one after the other and to end at the first that fails. `write_run` says so of
the write itself; what holds of its calls can then be shown by induction on the script.
-/

namespace TenantRegistry

variable {k : Kind}

/-- What the failure of a call is reported as. -/
def Call.action : Call k → String
  | .list tenant => "Listing " ++ k.plural ++ " for tenant " ++ tenant
  | .get _ name => "Getting " ++ k.name ++ " " ++ name
  | .insert _ rows => "Creating " ++ toString rows.length ++ " " ++ k.plural
  | .update _ u => "Updating " ++ k.name ++ " " ++ u.name
  | .delete _ name => "Deleting " ++ k.name ++ " " ++ name

/-- A call with its answer. -/
structure Exchange (k : Kind) where
  call : Call k
  answer : call.Answer

namespace Service

/-- Makes calls one after the other, and ends with `a` if none fails. -/
def follow {α : Type} (a : α) : List (Call k) → Dialogue k (Except RequestError α)
  | [] => .done (.ok a)
  | c :: rest => .ask c fun
    | .ok _ => follow a rest
    | .error e => .done (.error (.store c.action e))

/-- The calls of a plan: one insert of all new records, if there are any, and then the updates. -/
def script (tenant : String) (p : Plan k) : List (Call k) :=
  (if p.inserts.isEmpty then [] else [.insert tenant p.inserts]) ++ p.updates.map (.update tenant)

/-- The names in a plan. -/
def summary (p : Plan k) : Summary :=
  ⟨p.inserts.map (·.name), p.updates.map (·.name)⟩

/-- What a write does once it knows what is stored. -/
def written (tenant : String) (ctx : BatchContext)
    (records : List (Except RequestError (Submission k))) (stored : List (Row k)) :
    Dialogue k (Except RequestError Summary) :=
  match reconcile (typeIn stored) ctx records with
  | .ok p => follow (summary p) (script tenant p)
  | .error e => .done (.error e)

theorem mem_script {tenant : String} {p : Plan k} {c : Call k} (h : c ∈ script tenant p) :
    (p.inserts ≠ [] ∧ c = .insert tenant p.inserts) ∨ ∃ u ∈ p.updates, c = .update tenant u := by
  rcases List.mem_append.mp h with hc | hc
  · split at hc
    · cases hc
    · next hne => exact .inl ⟨by simpa using hne, List.mem_singleton.mp hc⟩
  · obtain ⟨u, hu, rfl⟩ := List.mem_map.mp hc
    exact .inr ⟨u, hu, rfl⟩

/-- An insert comes before all other calls of a script. -/
theorem eq_nil_of_script {tenant owner : String} {p : Plan k} {before after : List (Call k)}
    {rows : List (Insert k)} (h : script tenant p = before ++ .insert owner rows :: after) :
    before = [] := by
  cases before with
  | nil => rfl
  | cons first rest =>
    have hmem : .insert owner rows ∈ p.updates.map (Call.update tenant) := by
      unfold script at h
      split at h
      · rw [List.nil_append] at h
        rw [h]
        simp
      · rw [List.singleton_append, List.cons_append] at h
        rw [(List.cons.inj h).2]
        simp
    obtain ⟨u, _, heq⟩ := List.mem_map.mp hmem
    cases heq

/-! ## The write is its script -/

theorem run_call_bind {α : Type} (action : String) (c : Call k) (f : c.Reply → Request k α) :
    ExceptT.run (call action c >>= f) = Dialogue.ask c fun
      | .ok r => (f r).run
      | .error e => .done (.error (.store action e)) := by
  refine congrArg (Dialogue.ask c) (funext fun r => ?_)
  cases r <;> rfl

theorem run_lift_bind {α β : Type} (r : Except RequestError α) (f : α → Request k β) :
    ExceptT.run ((liftM r : Request k α) >>= f) = match r with
      | .ok a => (f a).run
      | .error e => .done (.error e) := by
  cases r <;> rfl

theorem update_run {α : Type} (tenant : String) (updates : List (Update k)) (a : α) :
    ExceptT.run (update tenant updates >>= fun _ => (return a : Request k α)) =
      follow a (updates.map (.update tenant)) := by
  induction updates with
  | nil => rfl
  | cons u rest ih =>
    refine congrArg (Dialogue.ask (.update tenant u)) (funext fun r => ?_)
    cases r with
    | error e => rfl
    | ok r => exact ih

theorem commit_run (tenant : String) (p : Plan k) :
    (commit tenant p).run = follow (summary p) (script tenant p) := by
  unfold commit insert script
  cases hempty : p.inserts.isEmpty with
  | true => exact update_run tenant p.updates (summary p)
  | false =>
    refine congrArg (Dialogue.ask (.insert tenant p.inserts)) (funext fun r => ?_)
    cases r with
    | error e => rfl
    | ok r => exact update_run tenant p.updates (summary p)

theorem write_run (tenant body : String) (ctx : BatchContext) :
    (write tenant body ctx : Request k Summary).run = Dialogue.ask (.list tenant) fun
      | .ok rows => written tenant ctx (decodeBatch k body) rows
      | .error e => .done (.error (.store (Call.action (k := k) (.list tenant)) e)) := by
  refine (run_call_bind _ (.list tenant) fun stored : List (Row k) =>
    liftM (reconcile (typeIn stored) ctx (decodeBatch k body)) >>= commit tenant).trans ?_
  refine congrArg (Dialogue.ask (.list tenant)) (funext fun r => ?_)
  cases r with
  | error e => rfl
  | ok rows =>
    -- The plan is made without any call, so that its failure ends the write here.
    dsimp only
    rw [run_lift_bind]
    unfold written
    split
    · next p hplan => rw [hplan]; exact commit_run tenant p
    · next e hplan => rw [hplan]

end Service
end TenantRegistry
