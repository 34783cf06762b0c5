import TenantRegistry.Proofs.Concurrency.ValueAndType
import TenantRegistry.Proofs.Concurrency.WriteStage

/-!
What became of the updates that a write reports, while requests interleave.

An update of a row that is not there changes nothing and succeeds. So a write may report an update
that nobody will ever see: `reported_update_can_be_lost`. The only way to that is that the row was
listed and a call removed it before the update came: `update_applied_or_removed`.
-/

namespace TenantRegistry.Memory.System

variable {k : Kind}

/-- The step of task `i` finds the row under a key and leaves it with the content and the time of
an update. -/
def Applies (y : System) (i : Nat) (key : Key) (u : Update k) : Prop :=
  ∃ old, (y.state.table k).find? key = some old ∧ ((y.step i).state.table k).find? key =
    some { old with payload := u.payload, updatedAt := u.updatedAt.text }

/-- The step of task `i` finds no row under a key and changes nothing. -/
def Misses (k : Kind) (y : System) (i : Nat) (key : Key) : Prop :=
  (y.state.table k).find? key = none ∧ (y.step i).state = y.state

/-- A call has removed the row under a key after a listing had shown it to task `i`. -/
def RemovedSinceListed (k : Kind) (ops : List Operation) (schedule : List Nat) (i : Nat)
    (key : Key) : Prop :=
  ∃ (listed : List (Row k)) (before : List Nat) (j : Nat) (after : List Nat),
    schedule = before ++ j :: after ∧
    ((start ops).run before).Answered i (⟨.list key.tenant, .ok listed⟩ : Exchange k) ∧
    (Service.typeIn listed key.name).isSome ∧ ((start ops).run before).Removes k j key

/-- An update call applies its update, or it misses. -/
theorem Calls.applies_or_misses {y : System} {i : Nat} {tenant : String} {u : Update k}
    (h : y.Calls i (.update tenant u)) :
    y.Applies i ⟨tenant, u.name⟩ u ∨ y.Misses k i ⟨tenant, u.name⟩ := by
  obtain ⟨hstate, _⟩ := h.step
  rw [store_apply] at hstate
  cases hrow : (y.state.table k).find? ⟨tenant, u.name⟩ with
  | none =>
    refine .inr ⟨hrow, hstate.trans ?_⟩
    simp only [answer, hrow, State.withTable_table]
  | some old =>
    refine .inl ⟨old, hrow, ?_⟩
    rw [hstate, State.table_withTable, find?_answer_update, if_pos rfl, hrow]
    rfl

/-- A write makes an update that it has from a record of its body, checked against the type that
was listed for its name. -/
def PlannedUpdate (ops : List Operation) (schedule : List Nat) (i : Nat) (tenant body : String)
    (ctx : BatchContext) (u : Update k) : Prop :=
  ∃ (listed : List (Row k)) (x : Submission k) (current : String),
    ((start ops).run schedule).Answered i (⟨.list tenant, .ok listed⟩ : Exchange k) ∧
    .ok x ∈ decodeBatch k body ∧ x.name = u.name ∧
    Service.typeIn listed u.name = some current ∧ x.toUpdate current ctx = .ok u

theorem PlannedUpdate.updatedAt_eq {ops : List Operation} {schedule : List Nat} {i : Nat}
    {tenant body : String} {ctx : BatchContext} {u : Update k}
    (h : PlannedUpdate ops schedule i tenant body ctx u) : u.updatedAt = ctx.now := by
  obtain ⟨_, _, _, _, _, _, _, hupd⟩ := h
  obtain ⟨_, _, _, rfl⟩ := Submission.toUpdate_eq_ok hupd
  rfl

section Write

variable {ops : List Operation} {schedule : List Nat} {i : Nat} {tenant body : String}
  {clock : Timestamp} {maxDepth : Nat}

theorem planned_of_calls {next : Except StoreError Unit → Dialogue k (Except RequestError Summary)}
    {log : List (Exchange k)} {owner : String} {u : Update k}
    (h : ((start ops).run schedule).tasks[i]? =
      some ⟨⟨k, tenant, .write body clock maxDepth⟩, .ask (.update owner u) next, log⟩) :
    owner = tenant ∧ PlannedUpdate ops schedule i tenant body ⟨.ofClock clock, maxDepth⟩ u := by
  obtain ⟨howner, listed, p, hlisted, hplan, hu⟩ := (writeStage_run h).of_update
  obtain ⟨batch, hbatch, _, hplanned⟩ := reconcile_eq_ok_iff.mp hplan
  obtain ⟨x, hx, current, hcurrent, hupd, _⟩ := hplanned.of_mem_updates hu
  have hname := Submission.name_of_toUpdate hupd
  refine ⟨howner, listed, x, current, ⟨_, _, _, log, h, hlisted⟩, ?_, hname.symm, ?_, hupd⟩
  · rw [hbatch]
    exact List.mem_map_of_mem hx
  · rw [hname]
    exact hcurrent

/-- An update call that misses comes after a call that has removed what was listed. -/
theorem PlannedUpdate.removed_of_misses {ctx : BatchContext} {u : Update k}
    (h : PlannedUpdate ops schedule i tenant body ctx u)
    (hmiss : ((start ops).run schedule).Misses k i ⟨tenant, u.name⟩) :
    RemovedSinceListed k ops schedule i ⟨tenant, u.name⟩ := by
  obtain ⟨listed, x, current, hlisted, _, _, hcurrent, _⟩ := h
  have htype : Service.typeIn listed (⟨tenant, u.name⟩ : Key).name = some current := hcurrent
  rcases listed_or_removed hlisted htype with ⟨row, hrow, _⟩ | hremoved
  · cases hmiss.1.symm.trans hrow
  · obtain ⟨before, j, after, hschedule, hseen, hremoves⟩ := hremoved
    exact ⟨listed, before, j, after, hschedule, hseen, by rw [hcurrent]; rfl, hremoves⟩

/-- Every update call of a write leaves the submitted content at the time of the request, unless a
call has removed the row since it was listed. Either way the write ends with the name among those
it has updated, and it has made such a call for every name there. -/
theorem update_applied_or_removed {result : Except RequestError Summary} {log : List (Exchange k)}
    (h : ((start ops).run schedule).tasks[i]? =
      some ⟨⟨k, tenant, .write body clock maxDepth⟩, .done result, log⟩) :
    (∀ before after owner (u : Update k), schedule = before ++ i :: after →
      ((start ops).run before).Calls i (.update owner u) →
      owner = tenant ∧ (∃ names, result = .ok names ∧ u.name ∈ names.updated) ∧
      PlannedUpdate ops before i tenant body ⟨.ofClock clock, maxDepth⟩ u ∧
      u.updatedAt = .ofClock clock ∧
      (((start ops).run before).Applies i ⟨tenant, u.name⟩ u ∨
        ((start ops).run before).Misses k i ⟨tenant, u.name⟩ ∧
          RemovedSinceListed k ops before i ⟨tenant, u.name⟩)) ∧
    ∀ names, result = .ok names → ∀ n ∈ names.updated, ∃ before after, ∃ u : Update k,
      schedule = before ++ i :: after ∧ ((start ops).run before).Calls i (.update tenant u) ∧
      u.name = n := by
  have hend := writeStage_run h
  refine ⟨fun before after owner u hschedule hcalls => ?_, ?_⟩
  · have hanswered := hcalls.step.2.run after
    rw [← run_snoc, ← run_append, List.append_assoc, List.singleton_append, ← hschedule]
      at hanswered
    obtain ⟨_, _, _, _, hlast, hlog⟩ := hanswered
    cases h.symm.trans hlast
    have hresult := hend.ok_of_update (List.mem_map_of_mem hlog)
    have heffect := hcalls.applies_or_misses
    obtain ⟨_, _, next, earlier, htask⟩ := hcalls
    cases (op_of_task htask).symm.trans (op_of_task h)
    obtain ⟨rfl, hplanned⟩ := planned_of_calls htask
    exact ⟨rfl, hresult, hplanned, hplanned.updatedAt_eq,
      heffect.imp_right fun hmiss => ⟨hmiss, hplanned.removed_of_misses hmiss⟩⟩
  · rintro names rfl n hn
    obtain ⟨u, hu, hname⟩ := hend.exists_update hn
    obtain ⟨e, he, hcall⟩ := List.mem_map.mp hu
    obtain ⟨before, after, hschedule, hcalls, _⟩ :=
      exists_call_of_answered ⟨tenant, _, _, log, h, he⟩
    rw [hcall] at hcalls
    exact ⟨before, after, u, hschedule, hcalls, hname⟩

end Write

/-! ## A lost update -/

def accountWrite (seconds : Int) : Operation :=
  ⟨.credential, "t", .write serviceAccountBody ⟨seconds, 0⟩ 8⟩

/-- A credential is written twice and deleted. -/
def vanishing : List Operation :=
  [accountWrite 10, accountWrite 20, ⟨.credential, "t", .delete "c"⟩]

/-- The second write lists the row, and makes its update when the row is deleted. -/
def vanishingSchedule : List Nat := [0, 0, 1, 2, 1]

def secondUpdate : Update .credential :=
  ⟨"c", .credential "\x7b\x7d", ⟨20, 0⟩⟩

/-- A write of the service account, its body read. -/
def accountTask (seconds : Int) : Task where
  op := accountWrite seconds
  rest := (Service.writeRecords (k := .credential) "t" ⟨⟨seconds, 0⟩, 8⟩
    [.ok ⟨"c", "gcp-service-account", .credential (.string "\x7b\x7d")⟩]).run
  log := []

theorem start_accountWrite (seconds : Int) :
    Task.start (accountWrite seconds) = accountTask seconds := by
  simp only [Task.start, accountWrite, Operation.dialogue, Action.request, Service.write,
    decodeBatch_serviceAccountBody]
  rfl

theorem start_vanishing : start vanishing = ⟨.empty, [accountTask 10, accountTask 20,
    .start ⟨.credential, "t", .delete "c"⟩]⟩ := by
  simp only [start, vanishing, List.map_cons, List.map_nil, start_accountWrite]

theorem ended_vanishing : ∃ log, ((start vanishing).run vanishingSchedule).tasks[1]? =
    some ⟨accountWrite 20, .done (.ok ⟨[], ["c"]⟩), log⟩ := by
  rw [start_vanishing]
  exact ⟨_, rfl⟩

theorem calls_vanishing :
    ((start vanishing).run [0, 0, 1, 2]).Calls 1 (.update "t" secondUpdate) := by
  rw [start_vanishing]
  exact ⟨_, _, _, _, rfl⟩

theorem gone_vanishing : ((start vanishing).run [0, 0, 1, 2]).state.credentials = [] := by
  rw [start_vanishing]
  rfl

/-- A write may report an update that has found no row. -/
theorem reported_update_can_be_lost : ¬ ∀ (ops : List Operation) (schedule : List Nat) (i : Nat)
    (k : Kind) (tenant body : String) (clock : Timestamp) (maxDepth : Nat) (names : Summary)
    (log : List (Exchange k)), ((start ops).run schedule).tasks[i]? =
      some ⟨⟨k, tenant, .write body clock maxDepth⟩, .done (.ok names), log⟩ →
    ∀ before after (u : Update k), schedule = before ++ i :: after →
      ((start ops).run before).Calls i (.update tenant u) → u.name ∈ names.updated →
      ((start ops).run before).Applies i ⟨tenant, u.name⟩ u := by
  intro h
  obtain ⟨log, hended⟩ := ended_vanishing
  obtain ⟨old, hold, _⟩ := h vanishing vanishingSchedule 1 .credential "t" _ _ _ _ log hended
    [0, 0, 1, 2] [] secondUpdate rfl calls_vanishing (List.mem_singleton_self _)
  have hnone : (((start vanishing).run [0, 0, 1, 2]).state.table .credential).find?
      ⟨"t", secondUpdate.name⟩ = none := by
    rw [State.table, gone_vanishing]
    rfl
  cases hnone.symm.trans hold

/-- The second write of the lost update: it misses, and a call has removed the row since. -/
theorem update_applied_or_removed_vanishing :
    (∃ log, ((start vanishing).run vanishingSchedule).tasks[1]? =
      some ⟨accountWrite 20, .done (.ok ⟨[], ["c"]⟩), log⟩) ∧
      RemovedSinceListed .credential vanishing [0, 0, 1, 2] 1 ⟨"t", "c"⟩ := by
  obtain ⟨log, hended⟩ := ended_vanishing
  refine ⟨⟨log, hended⟩, ?_⟩
  obtain ⟨_, _, _, _, happlies | ⟨_, hremoved⟩⟩ :=
    (update_applied_or_removed hended).1 [0, 0, 1, 2] [] "t" secondUpdate rfl calls_vanishing
  · obtain ⟨old, hold, _⟩ := happlies
    rw [State.table, gone_vanishing] at hold
    cases hold
  · exact hremoved

end TenantRegistry.Memory.System
