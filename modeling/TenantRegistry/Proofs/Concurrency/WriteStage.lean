import TenantRegistry.Proofs.Concurrency.Interleaving

/-!
How far a write has come, whatever runs beside it on the memory store.

The store fails no listing and no update, and an insert only with a conflict. So a write is before
its listing, it has been refused, it is on its way through the script of its plan, or its insert
was in conflict; `writeStage_run` says that it is at one of these stages at every point of every
run.
-/

namespace TenantRegistry.Memory

variable {k : Kind} {tenant body : String} {ctx : BatchContext}

/-- The log of a write and what it still does. -/
inductive WriteStage (tenant body : String) (ctx : BatchContext) :
    List (Exchange k) → Dialogue k (Except RequestError Summary) → Prop
  | unlisted : WriteStage tenant body ctx [] (Service.write tenant body ctx).run
  | refused {rows : List (Row k)} {e : RequestError} :
      reconcile (Service.typeIn rows) ctx (decodeBatch k body) = .error e →
      WriteStage tenant body ctx [⟨.list tenant, .ok rows⟩] (.done (.error e))
  | committing {rows : List (Row k)} {p : Plan k} {made : List (Exchange k)}
      {rest : List (Call k)} :
      reconcile (Service.typeIn rows) ctx (decodeBatch k body) = .ok p →
      Service.script tenant p = made.map (·.call) ++ rest →
      WriteStage tenant body ctx (⟨.list tenant, .ok rows⟩ :: made)
        (Service.follow (Service.summary p) rest)
  | conflicted {rows : List (Row k)} {p : Plan k} {detail : String} :
      reconcile (Service.typeIn rows) ctx (decodeBatch k body) = .ok p →
      WriteStage tenant body ctx
        [⟨.list tenant, .ok rows⟩, ⟨.insert tenant p.inserts, .error (.conflict detail)⟩]
        (.done (.error (.store (Call.action (.insert tenant p.inserts)) (.conflict detail))))

namespace WriteStage

theorem listed {rows : List (Row k)} :
    WriteStage tenant body ctx [⟨.list tenant, .ok rows⟩]
      (Service.written tenant ctx (decodeBatch k body) rows) := by
  unfold Service.written
  split
  · next p hplan => exact .committing hplan rfl
  · next e hplan => exact .refused hplan

/-- The call that a write makes next takes it to its next stage. -/
theorem answered {log : List (Exchange k)} {c : Call k}
    {next : c.Answer → Dialogue k (Except RequestError Summary)}
    (h : WriteStage tenant body ctx log (.ask c next)) (s : State) :
    WriteStage tenant body ctx (log ++ [⟨c, (store k c s).1⟩]) (next (store k c s).1) := by
  generalize hrest : Dialogue.ask c next = d at h
  cases h with
  | unlisted =>
    rw [Service.write_run] at hrest
    cases hrest
    exact listed
  | refused => cases hrest
  | conflicted => cases hrest
  | @committing rows p made rest hplan hscript =>
    cases rest with
    | nil => cases hrest
    | cons c' rest =>
      cases hrest
      have hmem : c ∈ Service.script tenant p := by rw [hscript]; simp
      -- A call that succeeds leaves one call less to make.
      have hnext : ∀ r : c.Reply, WriteStage tenant body ctx
          (⟨.list tenant, .ok rows⟩ :: made ++ [⟨c, .ok r⟩])
          (Service.follow (Service.summary p) rest) :=
        fun r => .committing hplan (by rw [hscript]; simp)
      rcases Service.mem_script hmem with ⟨_, rfl⟩ | ⟨u, _, rfl⟩
      · have hfirst : made = [] := List.map_eq_nil_iff.mp (Service.eq_nil_of_script hscript)
        subst hfirst
        rcases store_insert_cases s tenant p.inserts with ⟨detail, heq⟩ | hok
        · rw [heq]; exact .conflicted hplan
        · rw [hok]; exact hnext ()
      · rw [store_apply, answer_update_fst]
        exact hnext ()

/-- A call of a write is its listing or the next one of its script. -/
theorem of_ask {log : List (Exchange k)} {c : Call k}
    {next : c.Answer → Dialogue k (Except RequestError Summary)}
    (h : WriteStage tenant body ctx log (.ask c next)) :
    (c = .list tenant ∧ log = []) ∨
      ∃ (rows : List (Row k)) (p : Plan k) (made : List (Exchange k)) (rest : List (Call k)),
        log = ⟨.list tenant, .ok rows⟩ :: made ∧
        reconcile (Service.typeIn rows) ctx (decodeBatch k body) = .ok p ∧
        Service.script tenant p = made.map (·.call) ++ c :: rest := by
  generalize hrest : Dialogue.ask c next = d at h
  cases h with
  | unlisted =>
    rw [Service.write_run] at hrest
    cases hrest
    exact .inl ⟨rfl, rfl⟩
  | refused => cases hrest
  | conflicted => cases hrest
  | @committing rows p made rest hplan hscript =>
    cases rest with
    | nil => cases hrest
    | cons c' rest =>
      cases hrest
      exact .inr ⟨rows, p, made, rest, rfl, hplan, hscript⟩

/-- A write ends at its first call that fails. -/
theorem next_error {log : List (Exchange k)} {c : Call k}
    {next : c.Answer → Dialogue k (Except RequestError Summary)}
    (h : WriteStage tenant body ctx log (.ask c next)) (e : StoreError) :
    next (.error e) = .done (.error (.store c.action e)) := by
  generalize hrest : Dialogue.ask c next = d at h
  cases h with
  | unlisted =>
    rw [Service.write_run] at hrest
    cases hrest
    rfl
  | refused => cases hrest
  | conflicted => cases hrest
  | @committing rows p made rest =>
    cases rest with
    | nil => cases hrest
    | cons c' rest => cases hrest; rfl

theorem of_update {log : List (Exchange k)} {owner : String} {u : Update k}
    {next : Except StoreError Unit → Dialogue k (Except RequestError Summary)}
    (h : WriteStage tenant body ctx log (.ask (.update owner u) next)) :
    owner = tenant ∧ ∃ (rows : List (Row k)) (p : Plan k), ⟨.list tenant, .ok rows⟩ ∈ log ∧
      reconcile (Service.typeIn rows) ctx (decodeBatch k body) = .ok p ∧ u ∈ p.updates := by
  rcases h.of_ask with ⟨hcall, _⟩ | ⟨rows, p, made, rest, rfl, hplan, hscript⟩
  · cases hcall
  · have hmem : Call.update owner u ∈ Service.script tenant p := by rw [hscript]; simp
    rcases Service.mem_script hmem with ⟨_, hcall⟩ | ⟨_, hu, hcall⟩
    · cases hcall
    · cases hcall
      exact ⟨rfl, rows, p, List.mem_cons_self, hplan, hu⟩

/-- An insert is the first call after the listing. -/
theorem of_insert {log : List (Exchange k)} {owner : String} {rows : List (Insert k)}
    {next : Except StoreError Unit → Dialogue k (Except RequestError Summary)}
    (h : WriteStage tenant body ctx log (.ask (.insert owner rows) next)) :
    owner = tenant ∧ ∃ listed : List (Row k), log = [⟨.list tenant, .ok listed⟩] := by
  rcases h.of_ask with ⟨hcall, _⟩ | ⟨listed, p, made, rest, rfl, hplan, hscript⟩
  · cases hcall
  · have hfirst : made = [] := List.map_eq_nil_iff.mp (Service.eq_nil_of_script hscript)
    have hmem : Call.insert owner rows ∈ Service.script tenant p := by rw [hscript]; simp
    rcases Service.mem_script hmem with ⟨_, hcall⟩ | ⟨_, _, hcall⟩
    · cases hcall
      exact ⟨rfl, listed, by rw [hfirst]⟩
    · cases hcall

/-- A write fails before its first update call, or it ends with the names of its plan after all
calls of the script. -/
theorem done_cases {log : List (Exchange k)} {result : Except RequestError Summary}
    (h : WriteStage tenant body ctx log (.done result)) :
    (∃ e, result = .error e ∧ ∀ owner u, Call.update owner u ∉ log.map (·.call)) ∨
      ∃ p, result = .ok (Service.summary p) ∧
        log.map (·.call) = .list tenant :: Service.script tenant p := by
  generalize hrest : Dialogue.done result = d at h
  cases h with
  | unlisted => rw [Service.write_run] at hrest; cases hrest
  | refused => cases hrest; exact .inl ⟨_, rfl, by simp⟩
  | conflicted => cases hrest; exact .inl ⟨_, rfl, by simp⟩
  | @committing rows p made rest hplan hscript =>
    cases rest with
    | cons c rest => cases hrest
    | nil =>
      cases hrest
      exact .inr ⟨p, rfl, by rw [hscript]; simp⟩

/-- A write that has made an update call does not fail any more. -/
theorem ok_of_update {log : List (Exchange k)} {result : Except RequestError Summary}
    (h : WriteStage tenant body ctx log (.done result)) {owner : String} {u : Update k}
    (hu : Call.update owner u ∈ log.map (·.call)) :
    ∃ names, result = .ok names ∧ u.name ∈ names.updated := by
  rcases h.done_cases with ⟨_, _, hnone⟩ | ⟨p, rfl, hlog⟩
  · exact absurd hu (hnone owner u)
  · rw [hlog] at hu
    rcases List.mem_cons.mp hu with hcall | hu
    · cases hcall
    · rcases Service.mem_script hu with ⟨_, hcall⟩ | ⟨_, hu, hcall⟩
      · cases hcall
      · cases hcall
        exact ⟨_, rfl, List.mem_map_of_mem hu⟩

/-- Every name that a write says it has updated is that of an update call it has made. -/
theorem exists_update {log : List (Exchange k)} {names : Summary} {n : String}
    (h : WriteStage tenant body ctx log (.done (.ok names))) (hn : n ∈ names.updated) :
    ∃ u : Update k, Call.update tenant u ∈ log.map (·.call) ∧ u.name = n := by
  rcases h.done_cases with ⟨_, herror, _⟩ | ⟨p, hok, hlog⟩
  · cases herror
  · cases hok
    obtain ⟨u, hu, rfl⟩ := List.mem_map.mp hn
    refine ⟨u, ?_, rfl⟩
    rw [hlog]
    exact List.mem_cons_of_mem _ (List.mem_append_right _ (List.mem_map_of_mem hu))

end WriteStage

/-- A write is at one of its stages. -/
def Task.Staged : Task → Prop
  | ⟨⟨_, tenant, .write body clock maxDepth⟩, rest, log⟩ =>
    WriteStage tenant body ⟨.ofClock clock, maxDepth⟩ log rest
  | _ => True

/-- At every point of every run a write is at one of its stages. -/
theorem System.writeStage_run {ops : List Operation} {schedule : List Nat} {i : Nat}
    {clock : Timestamp} {maxDepth : Nat} {rest : Dialogue k (Except RequestError Summary)}
    {log : List (Exchange k)} (h : ((start ops).run schedule).tasks[i]? =
      some ⟨⟨k, tenant, .write body clock maxDepth⟩, rest, log⟩) :
    WriteStage tenant body ⟨.ofClock clock, maxDepth⟩ log rest := by
  have hstart : ∀ op, (Task.start op).Staged := by
    rintro ⟨k, tenant, action⟩
    cases action with
    | write body clock maxDepth => exact .unlisted
    | _ => trivial
  refine forall_tasks_run hstart ?_ ops schedule h
  rintro ⟨k, tenant, action⟩ c next log s hstage
  cases action with
  | write body clock maxDepth => exact WriteStage.answered hstage s
  | _ => trivial

end TenantRegistry.Memory
