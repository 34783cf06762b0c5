import Mathlib
import TenantRegistry.Proofs.Concurrency.WriteStage

/-!
Creations that race, while requests interleave.

An insert call checks all its names and stores all its rows in one step. So of several inserts of a
name only one goes through until the row is removed again, and a request whose insert finds a name
taken ends there, without having written anything. What a row was created with stays until a call
removes it. Main statement: `one_create_wins`.
-/

namespace TenantRegistry.Memory.System

variable {k : Kind}

/-- The next call of task `i` is an insert of some rows that goes through. -/
def Inserts (y : System) (i : Nat) (tenant : String) (rows : List (Insert k)) : Prop :=
  y.Calls i (.insert tenant rows) ∧ (store k (.insert tenant rows) y.state).1 = .ok ()

/-- The next call of task `i` is an insert of some rows that is refused. -/
def InsertFails (y : System) (i : Nat) (tenant : String) (rows : List (Insert k)) : Prop :=
  y.Calls i (.insert tenant rows) ∧ (store k (.insert tenant rows) y.state).1 ≠ .ok ()

/-! ## Inserts that go through -/

theorem Inserts.find? {y : System} {i : Nat} {tenant : String} {rows : List (Insert k)}
    (h : y.Inserts i tenant rows) {x : Insert k} (hx : x ∈ rows) :
    (y.state.table k).find? ⟨tenant, x.name⟩ = none ∧
      ((y.step i).state.table k).find? ⟨tenant, x.name⟩ = some (.ofInsert x) := by
  obtain ⟨hcalls, hok⟩ := h
  rw [hcalls.step.1]
  rw [store_apply] at hok ⊢
  rcases answer_insert_cases (y.state.table k) tenant rows with
    ⟨detail, heq⟩ | ⟨heq, hfree, hnodup⟩
  · rw [heq] at hok
    cases hok
  · rw [heq, State.table_withTable]
    exact ⟨hfree x hx, find?_putAll_of_mem hnodup hx _⟩

/-- A row that an insert has stored stays what it was created as until a call removes it. -/
theorem Inserts.frozen {y : System} {i : Nat} {tenant : String} {rows : List (Insert k)}
    (h : y.Inserts i tenant rows) {x : Insert k} (hx : x ∈ rows) (later : List Nat) :
    (∃ row, ((y.run (i :: later)).state.table k).find? ⟨tenant, x.name⟩ = some row ∧
        row.Later (.ofInsert x)) ∨
      ∃ first j rest, later = first ++ j :: rest ∧
        (y.run (i :: first)).Removes k j ⟨tenant, x.name⟩ :=
  later_or_removed (y := y.step i) later (h.find? hx).2

/-- Between two inserts of a name that go through, a call removes it. -/
theorem Inserts.removed_between {y : System} {i j : Nat} {tenant name : String}
    {rows rows' : List (Insert k)} {between : List Nat} (h : y.Inserts i tenant rows)
    (hname : name ∈ rows.map (·.name)) (h' : (y.run (i :: between)).Inserts j tenant rows')
    (hname' : name ∈ rows'.map (·.name)) :
    ∃ first r rest, between = first ++ r :: rest ∧
      (y.run (i :: first)).Removes k r ⟨tenant, name⟩ := by
  obtain ⟨x, hx, rfl⟩ := List.mem_map.mp hname
  obtain ⟨x', hx', heq⟩ := List.mem_map.mp hname'
  rcases h.frozen hx between with ⟨row, hrow, _⟩ | hremoved
  · have hfree := (h'.find? hx').1
    rw [heq] at hfree
    cases hfree.symm.trans hrow
  · exact hremoved

/-! ## Inserts that are refused -/

/-- Only writes insert. -/
theorem write_of_calls_insert {ops : List Operation} {schedule : List Nat} {i : Nat}
    {tenant : String} {rows : List (Insert k)}
    (h : ((start ops).run schedule).Calls i (.insert tenant rows)) :
    ∃ body clock maxDepth next, ∃ listed : List (Row k),
      ((start ops).run schedule).tasks[i]? = some ⟨⟨k, tenant, .write body clock maxDepth⟩,
        .ask (.insert tenant rows) next, [⟨.list tenant, .ok listed⟩]⟩ := by
  obtain ⟨owner, action, next, log, htask⟩ := h
  cases action with
  | write body clock maxDepth =>
    obtain ⟨rfl, listed, rfl⟩ := (writeStage_run htask).of_insert
    exact ⟨body, clock, maxDepth, next, listed, htask⟩
  | _ =>
    cases respects_run Operation.respects_justified ops schedule htask with
    | ask hrule _ =>
      obtain ⟨_, hclock, _⟩ := hrule
      cases hclock

section Loser

variable {ops : List Operation} {before : List Nat} {i : Nat} {tenant : String}
  {rows : List (Insert k)}

/-- A write whose insert is refused ends there with the conflict. -/
theorem InsertFails.ended (h : ((start ops).run before).InsertFails i tenant rows)
    (after : List Nat) : ∃ body clock maxDepth detail, ∃ listed : List (Row k),
      ((start ops).run (before ++ i :: after)).tasks[i]? =
        some ⟨⟨k, tenant, .write body clock maxDepth⟩,
          .done (.error (.store (Call.insert tenant rows).action (.conflict detail))),
          [⟨.list tenant, .ok listed⟩, ⟨.insert tenant rows, .error (.conflict detail)⟩]⟩ := by
  obtain ⟨hcalls, hfails⟩ := h
  obtain ⟨body, clock, maxDepth, next, listed, htask⟩ := write_of_calls_insert hcalls
  rcases store_insert_cases ((start ops).run before).state tenant rows with
    ⟨detail, heq⟩ | hok
  · refine ⟨body, clock, maxDepth, detail, listed, ?_⟩
    rw [run_append]
    refine ended_run (y := ((start ops).run before).step i) ?_ after
    have hlen : i < ((start ops).run before).tasks.length := (List.getElem?_eq_some_iff.mp htask).1
    rw [step_of_ask htask]
    simp only [heq, (writeStage_run htask).next_error, List.singleton_append]
    exact List.getElem?_set_self hlen
  · exact absurd hok hfails

/-- A write whose insert is refused changes nothing in all its steps. -/
theorem InsertFails.unchanged (h : ((start ops).run before).InsertFails i tenant rows)
    {after first rest : List Nat} (hsplit : before ++ i :: after = first ++ i :: rest) :
    (((start ops).run first).step i).state = ((start ops).run first).state := by
  obtain ⟨body, clock, maxDepth, detail, listed, hended⟩ := h.ended after
  rw [hsplit] at hended
  rcases step_cases ((start ops).run first) i with
    heq | ⟨k', owner, action, c, next, log, htask, heq⟩
  · rw [heq]
  · cases (op_of_task htask).symm.trans (op_of_task hended)
    have hcalls : ((start ops).run first).Calls i c := ⟨_, _, next, log, htask⟩
    obtain ⟨hstate, hanswered⟩ := hcalls.step
    -- The call is among those of the final log, and none of these has changed anything.
    have hlast := hanswered.run rest
    rw [← run_snoc, ← run_append, List.append_assoc, List.singleton_append] at hlast
    obtain ⟨_, _, _, _, hlast, hmem⟩ := hlast
    cases hended.symm.trans hlast
    rw [hstate]
    rcases List.mem_cons.mp hmem with hlist | hinsert
    · cases hlist
      exact State.withTable_table _
    · generalize hr : (store k c ((start ops).run first).state).1 = r at hinsert
      cases List.mem_singleton.mp hinsert
      rcases store_insert_cases ((start ops).run first).state tenant rows with ⟨_, hno⟩ | hok
      · rw [hno]
      · cases hr.symm.trans hok

end Loser

/-- However requests interleave, a row keeps its name, its type and its creation until a call
removes it; between two inserts of a name that go through it is removed; and a write whose insert
is refused ends with a conflict and has changed nothing. -/
theorem one_create_wins (ops : List Operation) (tenant : String) :
    (∀ (before : List Nat) (i : Nat) (rows : List (Insert k)) (x : Insert k) (later : List Nat),
      ((start ops).run before).Inserts i tenant rows → x ∈ rows →
      (∃ row, (((start ops).run (before ++ i :: later)).state.table k).find? ⟨tenant, x.name⟩ =
        some row ∧ row.name = x.name ∧ row.type = x.type ∧ row.createdAt = x.createdAt.text) ∨
      ∃ first j rest, later = first ++ j :: rest ∧
        ((start ops).run (before ++ i :: first)).Removes k j ⟨tenant, x.name⟩) ∧
    (∀ (before : List Nat) (i : Nat) (between : List Nat) (j : Nat) (rows rows' : List (Insert k))
      (name : String), ((start ops).run before).Inserts i tenant rows →
      name ∈ rows.map (·.name) →
      ((start ops).run (before ++ i :: between)).Inserts j tenant rows' →
      name ∈ rows'.map (·.name) →
      ∃ first r rest, between = first ++ r :: rest ∧
        ((start ops).run (before ++ i :: first)).Removes k r ⟨tenant, name⟩) ∧
    ∀ (before : List Nat) (i : Nat) (after : List Nat) (rows : List (Insert k)),
      ((start ops).run before).InsertFails i tenant rows →
      (∃ body clock maxDepth log, ∃ e : RequestError,
        ((start ops).run (before ++ i :: after)).tasks[i]? =
          some ⟨⟨k, tenant, .write body clock maxDepth⟩, .done (.error e), log⟩ ∧
        (∃ detail, e = .store ("Creating " ++ toString rows.length ++ " " ++ k.plural)
          (.conflict detail)) ∧ e.status.number = 409) ∧
      ∀ first rest, before ++ i :: after = first ++ i :: rest →
        (((start ops).run first).step i).state = ((start ops).run first).state := by
  refine ⟨?_, ?_, fun before i after rows h =>
    ⟨?_, fun first rest hsplit => h.unchanged hsplit⟩⟩
  · intro before i rows x later h hx
    simp only [run_append]
    rcases h.frozen hx later with ⟨row, hrow, hlater⟩ | hremoved
    · exact .inl ⟨row, hrow, hlater.name_eq, hlater.type_eq, hlater.createdAt_eq⟩
    · exact .inr hremoved
  · intro before i between j rows rows' name h hn h' hn'
    simp only [run_append] at h' ⊢
    exact h.removed_between hn h' hn'
  · obtain ⟨body, clock, maxDepth, detail, listed, hended⟩ := h.ended after
    exact ⟨body, clock, maxDepth, _, _, hended, ⟨detail, rfl⟩, rfl⟩

/-! ## A race -/

def lokiBody : String := "name: e\ntype: loki\nconfig: \x7b\x7d"

set_option maxRecDepth 100000 in
theorem decodeBatch_lokiBody : decodeBatch .exporter lokiBody =
    [.ok ⟨"e", "loki", .exporter none (.mapping [])⟩] := by
  cbv

def lokiWrite (seconds : Int) : Operation :=
  ⟨.exporter, "t", .write lokiBody ⟨seconds, 0⟩ 8⟩

/-- Two requests create an exporter, it is deleted, and a third one creates it again. -/
def rivals : List Operation :=
  [lokiWrite 10, lokiWrite 20, ⟨.exporter, "t", .delete "e"⟩, lokiWrite 30]

/-- A write of the exporter, its body read. -/
def lokiTask (seconds : Int) : Task where
  op := lokiWrite seconds
  rest := (Service.writeRecords (k := .exporter) "t" ⟨⟨seconds, 0⟩, 8⟩
    [.ok ⟨"e", "loki", .exporter none (.mapping [])⟩]).run
  log := []

def lokiRow (seconds : Int) : Insert .exporter :=
  ⟨"e", "loki", .exporter none "\x7b\x7d", ⟨seconds, 0⟩, ⟨seconds, 0⟩⟩

theorem start_lokiWrite (seconds : Int) : Task.start (lokiWrite seconds) = lokiTask seconds := by
  simp only [Task.start, lokiWrite, Operation.dialogue, Action.request, Service.write,
    decodeBatch_lokiBody]
  rfl

theorem start_rivals : start rivals = ⟨.empty, [lokiTask 10, lokiTask 20,
    .start ⟨.exporter, "t", .delete "e"⟩, lokiTask 30]⟩ := by
  simp only [start, rivals, List.map_cons, List.map_nil, start_lokiWrite]

theorem first_inserts : ((start rivals).run [0, 1]).Inserts 0 "t" [lokiRow 10] := by
  rw [start_rivals]
  exact ⟨⟨_, _, _, _, rfl⟩, rfl⟩

theorem second_fails : ((start rivals).run [0, 1, 0]).InsertFails 1 "t" [lokiRow 20] := by
  rw [start_rivals]
  exact ⟨⟨_, _, _, _, rfl⟩, nofun⟩

theorem third_inserts :
    ((start rivals).run [0, 1, 0, 1, 2, 3]).Inserts 3 "t" [lokiRow 30] := by
  rw [start_rivals]
  exact ⟨⟨_, _, _, _, rfl⟩, rfl⟩

/-- The first creation stays while the second one fails, and is removed before the third. -/
theorem one_create_wins_rivals :
    ((start rivals).run [0, 1]).Inserts 0 "t" [lokiRow 10] ∧
    ((start rivals).run [0, 1, 0]).InsertFails 1 "t" [lokiRow 20] ∧
    ((start rivals).run [0, 1, 0, 1, 2, 3]).Inserts 3 "t" [lokiRow 30] ∧
    ((∃ row, (((start rivals).run [0, 1, 0, 1]).state.table .exporter).find? ⟨"t", "e"⟩ =
        some row ∧ row.name = "e" ∧ row.type = "loki" ∧
        row.createdAt = (Timestamp.mk 10 0).text) ∨
      ∃ first j rest, [1] = first ++ j :: rest ∧
        ((start rivals).run ([0, 1] ++ 0 :: first)).Removes .exporter j ⟨"t", "e"⟩) ∧
    (∃ first r rest, [1, 2, 3] = first ++ r :: rest ∧
      ((start rivals).run ([0, 1] ++ 0 :: first)).Removes .exporter r ⟨"t", "e"⟩) ∧
    (∃ body clock maxDepth log, ∃ e : RequestError,
      ((start rivals).run [0, 1, 0, 1]).tasks[1]? =
        some ⟨⟨.exporter, "t", .write body clock maxDepth⟩, .done (.error e), log⟩ ∧
      (∃ detail, e = .store "Creating 1 exporters" (.conflict detail)) ∧ e.status.number = 409) ∧
    (((start rivals).run [0, 1, 0]).step 1).state = ((start rivals).run [0, 1, 0]).state := by
  obtain ⟨hfrozen, hbetween, hloser⟩ := one_create_wins (k := .exporter) rivals "t"
  obtain ⟨hended, hunchanged⟩ := hloser [0, 1, 0] 1 [] [lokiRow 20] second_fails
  refine ⟨first_inserts, second_fails, third_inserts, ?_, ?_, hended, ?_⟩
  · exact hfrozen [0, 1] 0 [lokiRow 10] (lokiRow 10) [1] first_inserts (List.mem_singleton_self _)
  · exact hbetween [0, 1] 0 [1, 2, 3] 3 [lokiRow 10] [lokiRow 30] "e" first_inserts
      (List.mem_singleton_self _) third_inserts (List.mem_singleton_self _)
  · exact hunchanged [0, 1, 0] [] rfl

end TenantRegistry.Memory.System
