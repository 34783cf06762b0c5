import Mathlib.Data.List.Induction
import TenantRegistry.Proofs.Service.Operation
import TenantRegistry.Proofs.Store.Answers

/-!
Operations that run at the same time on one memory store.

A store call is a single step; between two calls of one operation any other may make some of
its own. A schedule says which one is next, so what holds after every schedule holds at every point
of every interleaving. The facts used about runs are these: what any answer keeps of a task holds
of it at every point (`forall_tasks_run`), so it keeps to the rule of its operation; what it was
answered it was answered by some step of the schedule (`exists_call_of_answered`); and a row stays
what it was created as until a call removes it (`later_or_removed`), so what was listed is still
stored unless a call has removed it since (`listed_or_removed`).
-/

namespace TenantRegistry.Memory

variable {k : Kind}

/-- A row as it may be later: its content may be new, what it was created with is not. -/
structure Stored.Later (new old : Stored k) : Prop where
  name_eq : new.name = old.name
  type_eq : new.type = old.type
  createdAt_eq : new.createdAt = old.createdAt

theorem Stored.Later.trans {a b c : Stored k} (hab : a.Later b) (hbc : b.Later c) : a.Later c :=
  ⟨hab.name_eq.trans hbc.name_eq, hab.type_eq.trans hbc.type_eq,
    hab.createdAt_eq.trans hbc.createdAt_eq⟩

/-- An operation at work: what it still does, and the calls it has made. -/
structure Task where
  op : Operation
  rest : Dialogue op.kind (Except RequestError op.action.Result)
  log : List (Exchange op.kind)

/-- An operation that has not made any call yet. -/
def Task.start (op : Operation) : Task :=
  ⟨op, op.dialogue, []⟩

/-- A store and the operations at work on it. -/
structure System where
  state : State
  tasks : List Task

namespace System

def start (ops : List Operation) : System :=
  ⟨.empty, ops.map Task.start⟩

/-- The system after the next call of task `i`, if it has one. -/
def step (y : System) (i : Nat) : System :=
  match y.tasks[i]? with
  | some ⟨op, .ask c next, log⟩ =>
    ⟨(store op.kind c y.state).2, y.tasks.set i
      ⟨op, next (store op.kind c y.state).1, log ++ [⟨c, (store op.kind c y.state).1⟩]⟩⟩
  | _ => y

def run (y : System) (schedule : List Nat) : System :=
  schedule.foldl step y

/-- Task `i` makes the call `c` next. -/
def Calls (y : System) (i : Nat) (c : Call k) : Prop :=
  ∃ tenant action next log, y.tasks[i]? = some ⟨⟨k, tenant, action⟩, .ask c next, log⟩

/-- Task `i` makes the call next that takes the row under a key away. -/
def Removes (k : Kind) (y : System) (i : Nat) (key : Key) : Prop :=
  y.Calls i (.delete key.tenant key.name : Call k) ∧
    ∃ row, (y.state.table k).find? key = some row

/-- Task `i` has made a call and got its answer. -/
def Answered (y : System) (i : Nat) (e : Exchange k) : Prop :=
  ∃ tenant action rest log, y.tasks[i]? = some ⟨⟨k, tenant, action⟩, rest, log⟩ ∧ e ∈ log

theorem run_append (y : System) (before after : List Nat) :
    y.run (before ++ after) = (y.run before).run after :=
  List.foldl_append

theorem run_snoc (y : System) (schedule : List Nat) (i : Nat) :
    y.run (schedule ++ [i]) = (y.run schedule).step i :=
  run_append y schedule [i]

/-! ## One step -/

theorem step_of_ask {y : System} {i : Nat} {op : Operation} {c : Call op.kind}
    {next : c.Answer → Dialogue op.kind (Except RequestError op.action.Result)}
    {log : List (Exchange op.kind)} (h : y.tasks[i]? = some ⟨op, .ask c next, log⟩) :
    y.step i = ⟨(store op.kind c y.state).2, y.tasks.set i
      ⟨op, next (store op.kind c y.state).1, log ++ [⟨c, (store op.kind c y.state).1⟩]⟩⟩ := by
  unfold step
  rw [h]

theorem step_of_none {y : System} {i : Nat} (h : y.tasks[i]? = none) : y.step i = y := by
  unfold step
  rw [h]

theorem step_of_done {y : System} {i : Nat} {op : Operation}
    {r : Except RequestError op.action.Result} {log : List (Exchange op.kind)}
    (h : y.tasks[i]? = some ⟨op, .done r, log⟩) : y.step i = y := by
  unfold step
  rw [h]

/-- A step does nothing, or it is a call of its task. -/
theorem step_cases (y : System) (i : Nat) :
    y.step i = y ∨ ∃ (k : Kind) (tenant : String) (action : Action k) (c : Call k)
      (next : c.Answer → Dialogue k (Except RequestError action.Result)) (log : List (Exchange k)),
      y.tasks[i]? = some ⟨⟨k, tenant, action⟩, .ask c next, log⟩ ∧
      y.step i = ⟨(store k c y.state).2, y.tasks.set i ⟨⟨k, tenant, action⟩,
        next (store k c y.state).1, log ++ [⟨c, (store k c y.state).1⟩]⟩⟩ := by
  cases htask : y.tasks[i]? with
  | none => exact .inl (step_of_none htask)
  | some t =>
    obtain ⟨⟨k, tenant, action⟩, rest, log⟩ := t
    cases rest with
    | done r => exact .inl (step_of_done htask)
    | ask c next => exact .inr ⟨k, tenant, action, c, next, log, rfl, step_of_ask htask⟩

theorem getElem?_set_cases {tasks : List Task} {i j : Nat} {t t' : Task}
    (h : (tasks.set i t')[j]? = some t) : (j = i ∧ t = t') ∨ (j ≠ i ∧ tasks[j]? = some t) := by
  rw [List.getElem?_set] at h
  split at h
  · next hij =>
    split at h
    · exact .inl ⟨hij.symm, (Option.some.inj h).symm⟩
    · cases h
  · next hij => exact .inr ⟨fun heq => hij heq.symm, h⟩

/-- What a step does to the row under a key is what a call of its task does, or nothing. -/
theorem row_step (y : System) (i : Nat) (key : Key) :
    ((y.step i).state.table k).find? key = (y.state.table k).find? key ∨
      ∃ c : Call k, y.Calls i c ∧
        RowStep c key ((y.state.table k).find? key) (((y.step i).state.table k).find? key) := by
  rcases step_cases y i with heq | ⟨k', tenant, action, c, next, log, htask, heq⟩
  · rw [heq]; exact .inl rfl
  · rw [heq, store_apply]
    -- A call changes the table of its own kind only.
    by_cases hk : k = k'
    · subst hk
      right
      refine ⟨c, ⟨tenant, action, next, log, htask⟩, ?_⟩
      rw [State.table_withTable]
      exact rowStep_answer _ c key
    · left
      rw [State.table_withTable_of_ne _ _ hk]

/-- A step answers its own task's call and no other. -/
theorem answered_step {y : System} {i j : Nat} {e : Exchange k} (h : (y.step i).Answered j e) :
    y.Answered j e ∨ (j = i ∧ y.Calls i e.call ∧ e.answer = (store k e.call y.state).1) := by
  rcases step_cases y i with heq | ⟨k', tenant', action', c, next, log', htask, heq⟩
  · rw [heq] at h; exact .inl h
  · obtain ⟨tenant, action, rest, log, hj, he⟩ := h
    rw [heq] at hj
    rcases getElem?_set_cases hj with ⟨rfl, hsame⟩ | ⟨_, hold⟩
    · cases hsame
      rcases List.mem_append.mp he with he | he
      · exact .inl ⟨_, _, _, _, htask, he⟩
      · cases List.mem_singleton.mp he
        exact .inr ⟨rfl, ⟨_, _, _, _, htask⟩, rfl⟩
    · exact .inl ⟨tenant, action, rest, log, hold, he⟩

theorem Calls.step {y : System} {i : Nat} {c : Call k} (h : y.Calls i c) :
    (y.step i).state = (store k c y.state).2 ∧
      (y.step i).Answered i ⟨c, (store k c y.state).1⟩ := by
  obtain ⟨tenant, action, next, log, htask⟩ := h
  have hlen : i < y.tasks.length := (List.getElem?_eq_some_iff.mp htask).1
  rw [step_of_ask htask]
  refine ⟨rfl, tenant, action, _, log ++ [⟨c, (store k c y.state).1⟩],
    List.getElem?_set_self hlen, ?_⟩
  exact List.mem_append_right _ (List.mem_singleton_self _)

theorem Answered.step {y : System} {i : Nat} {e : Exchange k} (h : y.Answered i e) (j : Nat) :
    (y.step j).Answered i e := by
  obtain ⟨tenant, action, rest, log, hi, he⟩ := h
  rcases step_cases y j with heq | ⟨k', tenant', action', c, next, log', hj, heq⟩
  · rw [heq]; exact ⟨tenant, action, rest, log, hi, he⟩
  · rw [heq]
    by_cases hij : i = j
    · subst hij
      have hlen : i < y.tasks.length := (List.getElem?_eq_some_iff.mp hi).1
      cases hi.symm.trans hj
      exact ⟨_, _, _, _, List.getElem?_set_self hlen, List.mem_append_left _ he⟩
    · refine ⟨tenant, action, rest, log, ?_, he⟩
      rw [List.getElem?_set_ne (fun hji => hij hji.symm)]
      exact hi

/-! ## Runs -/

theorem Answered.run {y : System} {i : Nat} {e : Exchange k} (h : y.Answered i e)
    (schedule : List Nat) : (y.run schedule).Answered i e := by
  induction schedule generalizing y with
  | nil => exact h
  | cons j rest ih => exact ih (h.step j)

theorem ops_step (y : System) (i : Nat) : (y.step i).tasks.map (·.op) = y.tasks.map (·.op) := by
  rcases step_cases y i with heq | ⟨k, tenant, action, c, next, log, htask, heq⟩
  · rw [heq]
  · rw [heq]
    obtain ⟨hlen, hget⟩ := List.getElem?_eq_some_iff.mp htask
    refine List.ext_getElem (by simp) fun j hj hj' => ?_
    simp only [List.getElem_map, List.getElem_set]
    split
    · next hij => subst hij; rw [hget]
    · rfl

/-- The tasks are at work on the operations, in the same order. -/
theorem ops_run (ops : List Operation) (schedule : List Nat) :
    ((start ops).run schedule).tasks.map (·.op) = ops := by
  induction schedule using List.reverseRecOn with
  | nil => simp [run, start, Task.start, Function.comp_def]
  | append_singleton schedule j ih => rw [run_snoc, ops_step, ih]

theorem op_of_task {ops : List Operation} {schedule : List Nat} {i : Nat} {t : Task}
    (h : ((start ops).run schedule).tasks[i]? = some t) : ops[i]? = some t.op := by
  have hop := congrArg (·[i]?) (ops_run ops schedule)
  simp only [List.getElem?_map, h, Option.map_some] at hop
  exact hop.symm

/-- A task that has ended stays as it is. -/
theorem ended_run {y : System} {i : Nat} {op : Operation}
    {r : Except RequestError op.action.Result} {log : List (Exchange op.kind)}
    (h : y.tasks[i]? = some ⟨op, .done r, log⟩) (schedule : List Nat) :
    (y.run schedule).tasks[i]? = some ⟨op, .done r, log⟩ := by
  induction schedule generalizing y with
  | nil => exact h
  | cons j rest ih =>
    refine ih ?_
    rcases step_cases y j with heq | ⟨_, _, _, _, _, _, hj, heq⟩
    · rw [heq]; exact h
    · rw [heq]
      by_cases hij : j = i
      · subst hij
        cases h.symm.trans hj
      · rw [List.getElem?_set_ne hij]
        exact h

theorem reachable_run (ops : List Operation) (schedule : List Nat) :
    Reachable ((start ops).run schedule).state := by
  induction schedule using List.reverseRecOn with
  | nil => exact .empty
  | append_singleton schedule j ih =>
    rw [run_snoc]
    rcases step_cases ((start ops).run schedule) j with heq | ⟨k, _, _, c, _, _, _, heq⟩
    · rw [heq]; exact ih
    · rw [heq]; exact ih.call c

/-- What holds of a task before its first call, and still holds after any call whatever the store
held then, holds of every task at every point. -/
theorem forall_tasks_run {P : Task → Prop} (hstart : ∀ op, P (.start op))
    (hcall : ∀ (op : Operation) (c : Call op.kind)
      (next : c.Answer → Dialogue op.kind (Except RequestError op.action.Result))
      (log : List (Exchange op.kind)) (s : State), P ⟨op, .ask c next, log⟩ →
      P ⟨op, next (store op.kind c s).1, log ++ [⟨c, (store op.kind c s).1⟩]⟩)
    (ops : List Operation) (schedule : List Nat) {i : Nat} {t : Task}
    (h : ((start ops).run schedule).tasks[i]? = some t) : P t := by
  induction schedule using List.reverseRecOn generalizing i t with
  | nil =>
    obtain ⟨op, _, rfl⟩ := List.mem_map.mp (List.mem_of_getElem? h)
    exact hstart op
  | append_singleton schedule j ih =>
    rw [run_snoc] at h
    rcases step_cases ((start ops).run schedule) j with
      heq | ⟨k, tenant, action, c, next, log, htask, heq⟩
    · rw [heq] at h; exact ih h
    · rw [heq] at h
      rcases getElem?_set_cases h with ⟨_, rfl⟩ | ⟨_, hold⟩
      · exact hcall ⟨k, tenant, action⟩ c next log _ (ih htask)
      · exact ih hold

/-- A task keeps to a rule that its operation keeps to. -/
theorem respects_run {rule : (op : Operation) → List (Exchange op.kind) → Call op.kind → Prop}
    (hrule : ∀ op : Operation, op.dialogue.Respects (rule op) []) (ops : List Operation)
    (schedule : List Nat) {i : Nat} {t : Task}
    (h : ((start ops).run schedule).tasks[i]? = some t) : t.rest.Respects (rule t.op) t.log := by
  refine forall_tasks_run (P := fun t => t.rest.Respects (rule t.op) t.log) hrule ?_ ops schedule h
  intro op c next log s hrest
  -- The task was at its call, and the rule holds after any answer to it.
  cases hrest with
  | ask _ hnext => exact hnext _

theorem justified_of_calls {ops : List Operation} {schedule : List Nat} {i : Nat} {c : Call k}
    (h : ((start ops).run schedule).Calls i c) :
    ∃ clock? log, Justified clock? log c ∧
      ∀ e ∈ log, ((start ops).run schedule).Answered i e := by
  obtain ⟨tenant, action, next, log, htask⟩ := h
  cases respects_run Operation.respects_justified ops schedule htask with
  | ask hrule _ => exact ⟨_, log, hrule, fun e he => ⟨tenant, action, _, log, htask, he⟩⟩

theorem fits_of_calls_insert {ops : List Operation} {schedule : List Nat} {i : Nat}
    {tenant : String} {rows : List (Insert k)} {x : Insert k}
    (h : ((start ops).run schedule).Calls i (.insert tenant rows)) (hx : x ∈ rows) :
    x.payload.Fits x.type := by
  obtain ⟨_, _, ⟨_, _, hall⟩, _⟩ := justified_of_calls h
  exact (hall x hx).2.1

/-- What a task has been answered, a step of the schedule has answered it. -/
theorem exists_call_of_answered {ops : List Operation} {schedule : List Nat} {i : Nat}
    {e : Exchange k} (h : ((start ops).run schedule).Answered i e) :
    ∃ before after, schedule = before ++ i :: after ∧ ((start ops).run before).Calls i e.call ∧
      e.answer = (store k e.call ((start ops).run before).state).1 := by
  induction schedule using List.reverseRecOn with
  | nil =>
    obtain ⟨tenant, action, rest, log, htask, he⟩ := h
    obtain ⟨op, _, heq⟩ := List.mem_map.mp (List.mem_of_getElem? htask)
    cases heq
    exact absurd he List.not_mem_nil
  | append_singleton schedule j ih =>
    rw [run_snoc] at h
    rcases answered_step h with h | ⟨rfl, hcalls, hanswer⟩
    · obtain ⟨before, after, rfl, hcalls, hanswer⟩ := ih h
      exact ⟨before, after ++ [j], by simp, hcalls, hanswer⟩
    · exact ⟨schedule, [], rfl, hcalls, hanswer⟩

/-- What a row has been created with stays until a call removes it. -/
theorem later_or_removed {y : System} {key : Key} {row : Stored k} (schedule : List Nat)
    (h : (y.state.table k).find? key = some row) :
    (∃ row', ((y.run schedule).state.table k).find? key = some row' ∧ row'.Later row) ∨
      ∃ before i after, schedule = before ++ i :: after ∧ (y.run before).Removes k i key := by
  induction schedule generalizing y row with
  | nil => exact .inl ⟨row, h, rfl, rfl, rfl⟩
  | cons i rest ih =>
    have hnext : (∃ row', ((y.step i).state.table k).find? key = some row' ∧ row'.Later row) ∨
        y.Removes k i key := by
      rcases y.row_step i key with hsame | ⟨c, hcalls, hstep⟩
      · exact .inl ⟨row, hsame.trans h, rfl, rfl, rfl⟩
      · rw [h] at hstep
        generalize ((y.step i).state.table k).find? key = new at hstep ⊢
        cases hstep with
        | kept => exact .inl ⟨row, rfl, rfl, rfl, rfl⟩
        | updated => exact .inl ⟨_, rfl, rfl, rfl, rfl⟩
        | deleted _ hcall hkey =>
          subst hcall hkey
          exact .inr ⟨hcalls, row, h⟩
    rcases hnext with ⟨row', hrow', hlater⟩ | hremoves
    · rcases ih hrow' with ⟨row'', hrow'', hlater'⟩ | ⟨before, j, after, rfl, hremoves⟩
      · exact .inl ⟨row'', hrow'', hlater'.trans hlater⟩
      · exact .inr ⟨i :: before, j, after, rfl, hremoves⟩
    · exact .inr ⟨[], i, rest, rfl, hremoves⟩

/-! ## Listings -/

/-- When a listing was answered, the types in it were those of stored rows. -/
theorem exists_listing {ops : List Operation} {schedule : List Nat} {i : Nat}
    {tenant name type : String} {listed : List (Row k)}
    (h : ((start ops).run schedule).Answered i (⟨.list tenant, .ok listed⟩ : Exchange k))
    (htype : Service.typeIn listed name = some type) :
    ∃ before after, schedule = before ++ after ∧
      ((start ops).run before).Answered i (⟨.list tenant, .ok listed⟩ : Exchange k) ∧
      ∃ row, (((start ops).run before).state.table k).find? ⟨tenant, name⟩ = some row ∧
        row.type = type := by
  obtain ⟨before, after, rfl, hcalls, hanswer⟩ := exists_call_of_answered h
  have hproper := (reachable_run ops before).proper k
  obtain ⟨hstate, hanswered⟩ := hcalls.step
  have hlisted : listed = rowsOf (((start ops).run before).state.table k) tenant :=
    Except.ok.inj hanswer
  refine ⟨before ++ [i], after, by rw [List.append_assoc]; rfl, ?_, ?_⟩
  · rw [run_snoc]
    rw [← hanswer] at hanswered
    exact hanswered
  · -- The listing has changed nothing, so its rows are those of the state after it, too.
    have hsame : (store k (.list tenant) ((start ops).run before).state).2 =
        ((start ops).run before).state := State.withTable_table _
    rw [run_snoc, hstate, hsame]
    rw [hlisted, hproper.typeIn_rowsOf] at htype
    exact Option.map_eq_some_iff.mp htype

/-- A type that was listed is still stored, unless a call has removed the row since. -/
theorem listed_or_removed {ops : List Operation} {schedule : List Nat} {i : Nat} {key : Key}
    {type : String} {listed : List (Row k)}
    (h : ((start ops).run schedule).Answered i (⟨.list key.tenant, .ok listed⟩ : Exchange k))
    (htype : Service.typeIn listed key.name = some type) :
    (∃ row, (((start ops).run schedule).state.table k).find? key = some row ∧ row.type = type) ∨
      ∃ before j after, schedule = before ++ j :: after ∧
        ((start ops).run before).Answered i (⟨.list key.tenant, .ok listed⟩ : Exchange k) ∧
        ((start ops).run before).Removes k j key := by
  obtain ⟨before, after, rfl, hanswered, row, hrow, rfl⟩ := exists_listing h htype
  rw [run_append]
  rcases later_or_removed after hrow with
    ⟨row', hrow', hlater⟩ | ⟨first, j, rest, rfl, hremoves⟩
  · exact .inl ⟨row', hrow', hlater.type_eq⟩
  · refine .inr ⟨before ++ first, j, rest, by rw [List.append_assoc], ?_, ?_⟩
    · rw [run_append]; exact hanswered.run first
    · rw [run_append]; exact hremoves

end System
end TenantRegistry.Memory
