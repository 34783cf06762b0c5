import Mathlib
import TenantRegistry.Proofs.Batch.Planned
import TenantRegistry.Proofs.Service.Script
import TenantRegistry.Proofs.Store.Answers

/-!
A write on the memory store, when no other request comes between its calls.

The write goes through exactly for a batch that is `Acceptable` for what is stored, and what it
then makes of the table is `Updated`, which is stated of the two tables as maps and knows no plan
and no calls. A write that does not go through leaves everything as it was. Main statement:
`write_on_memory`.
-/

namespace TenantRegistry

variable {k : Kind}

namespace Memory

/-- The result of a request that runs alone, and the state after it. -/
def perform {α : Type} (r : Service.Request k α) (s : State) : Except RequestError α × State :=
  Dialogue.run (store k) r.run s

/-- The type that is stored under a name. -/
def storedType (t : Table k) (tenant name : String) : Option String :=
  (t.find? ⟨tenant, name⟩).map (·.type)

/-- A batch that goes through: it has a record, every record can be read and is accepted, and
only records with a stored name share their name. -/
structure Acceptable (t : Table k) (tenant : String) (ctx : BatchContext)
    (records : List (Except RequestError (Submission k))) : Prop where
  nonempty : records ≠ []
  accepted : ∀ r ∈ records, ∃ x : Submission k, r = .ok x ∧ x.Accepted (storedType t tenant) ctx
  fresh : records.Pairwise fun r r' => ∀ x x' : Submission k, r = .ok x → r' = .ok x' →
    x.name = x'.name → (t.find? ⟨tenant, x.name⟩).isSome

/-- What a batch makes of a table: new names get rows, stored names the content of their last
record, and no other key is touched. -/
structure Updated (before after : Table k) (tenant : String) (ctx : BatchContext)
    (batch : List (Submission k)) : Prop where
  inserted : ∀ x ∈ batch, before.find? ⟨tenant, x.name⟩ = none →
    ∃ i, x.toInsert ctx = .ok i ∧ after.find? ⟨tenant, x.name⟩ =
      some ⟨x.name, x.type, i.payload, ctx.now.text, ctx.now.text⟩
  updated : ∀ first x last, batch = first ++ x :: last → (∀ y ∈ last, y.name ≠ x.name) →
    ∀ old, before.find? ⟨tenant, x.name⟩ = some old →
      ∃ u, x.toUpdate old.type ctx = .ok u ∧ after.find? ⟨tenant, x.name⟩ =
        some { old with payload := u.payload, updatedAt := ctx.now.text }
  others : ∀ key : Key, (key.tenant = tenant → ∀ x ∈ batch, x.name ≠ key.name) →
    after.find? key = before.find? key

/-! ## Running the script of a plan -/

theorem run_ask {α : Type} (c : Call k) (next : c.Answer → Dialogue k α) (s : State) :
    Dialogue.run (store k) (.ask c next) s =
      Dialogue.run (store k) (next (answer (s.table k) c).1)
        (s.withTable (answer (s.table k) c).2) := rfl

theorem run_updates {α : Type} (a : α) (tenant : String) (updates : List (Update k)) (s : State) :
    Dialogue.run (store k) (Service.follow a (updates.map (.update tenant))) s =
      (.ok a, s.withTable (updateAll tenant updates (s.table k))) := by
  induction updates generalizing s with
  | nil => simp only [updateAll, List.foldl_nil, State.withTable_table]; rfl
  | cons u rest ih =>
    rw [List.map_cons, Service.follow, run_ask, answer_update_fst]
    have hrest := ih (s.withTable (answer (s.table k) (.update tenant u)).2)
    rw [State.table_withTable, State.withTable_withTable] at hrest
    exact hrest

/-- The table after all calls of a plan. -/
def committed (tenant : String) (p : Plan k) (t : Table k) : Table k :=
  updateAll tenant p.updates (putAll tenant p.inserts t)

/-- A plan is carried out as a whole, or nothing of it if its insert finds a name taken. -/
theorem run_script {α : Type} (a : α) (tenant : String) (p : Plan k) (s : State) :
    (Dialogue.run (store k) (Service.follow a (Service.script tenant p)) s =
        (.ok a, s.withTable (committed tenant p (s.table k))) ∧
      (p.inserts.map (·.name)).Nodup) ∨
    (∃ e, Dialogue.run (store k) (Service.follow a (Service.script tenant p)) s = (.error e, s)) ∧
      ¬ ((p.inserts.map (·.name)).Nodup ∧
        ∀ i ∈ p.inserts, (s.table k).find? ⟨tenant, i.name⟩ = none) := by
  unfold Service.script committed
  cases hempty : p.inserts with
  | nil => exact .inl ⟨run_updates a tenant p.updates s, List.nodup_nil⟩
  | cons i rest =>
    rw [List.isEmpty_cons, if_neg Bool.false_ne_true, List.singleton_append, Service.follow,
      run_ask]
    rcases answer_insert_cases (s.table k) tenant (i :: rest) with
      ⟨detail, heq⟩ | ⟨heq, hfree, hnodup⟩
    · refine .inr ⟨⟨_, by rw [heq, State.withTable_table]; rfl⟩, fun ⟨hnodup, hfree⟩ => ?_⟩
      have hok := heq.symm.trans (answer_insert_of_free hfree hnodup)
      cases congrArg Prod.fst hok
    · -- Once the insert has gone through, no update can fail.
      refine .inl ⟨?_, hnodup⟩
      have hrest := run_updates a tenant p.updates
        (s.withTable (putAll tenant (i :: rest) (s.table k)))
      rw [State.table_withTable, State.withTable_withTable] at hrest
      rw [heq]
      exact hrest

/-! ## The plan of a batch as a change of the table -/

theorem nodup_insert_names_iff {t : Table k} {tenant : String} {ctx : BatchContext}
    {batch : List (Submission k)} {p : Plan k}
    (h : Planned (storedType t tenant) ctx batch p.inserts p.updates) :
    (p.inserts.map (·.name)).Nodup ↔
      (batch.map (Except.ok (ε := RequestError))).Pairwise fun r r' =>
        ∀ x x' : Submission k, r = .ok x → r' = .ok x' → x.name = x'.name →
          (t.find? ⟨tenant, x.name⟩).isSome := by
  rw [h.insert_names, List.Nodup, List.pairwise_filter, List.pairwise_map, List.pairwise_map]
  refine ⟨fun hp => hp.imp ?_, fun hp => hp.imp ?_⟩
  · rintro x y hxy _ _ ⟨rfl⟩ ⟨rfl⟩ heq
    by_contra hnone
    have hx : t.find? ⟨tenant, x.name⟩ = none := by simpa using hnone
    have hnew : (storedType t tenant x.name).isNone = true := by simp [storedType, hx]
    exact hxy hnew (heq ▸ hnew) heq
  · intro x y hxy hx _ heq
    have hsome := hxy x y rfl rfl heq
    simp only [storedType, Option.isNone_map, Option.isNone_iff_eq_none] at hx
    rw [hx] at hsome
    cases hsome

section Committed

variable {t : Table k} {tenant : String} {ctx : BatchContext} {batch : List (Submission k)}
  {p : Plan k}

theorem find?_of_mem_inserts (h : Planned (storedType t tenant) ctx batch p.inserts p.updates)
    {i : Insert k} (hi : i ∈ p.inserts) : t.find? ⟨tenant, i.name⟩ = none :=
  Option.map_eq_none_iff.mp (h.not_stored_of_mem_inserts hi)

theorem find?_of_mem_updates (h : Planned (storedType t tenant) ctx batch p.inserts p.updates)
    {u : Update k} (hu : u ∈ p.updates) :
    (t.find? ⟨tenant, u.name⟩).isSome ∧ ∃ x ∈ batch, x.name = u.name := by
  obtain ⟨x, hx, current, htype, hupd, _⟩ := h.of_mem_updates hu
  have hname := Submission.name_of_toUpdate hupd
  obtain ⟨row, hrow, _⟩ := Option.map_eq_some_iff.mp htype
  exact ⟨by rw [hname, hrow]; rfl, x, hx, hname.symm⟩

/-- A new name gets the row of its insert, and no update comes near it. -/
theorem find?_committed_new (h : Planned (storedType t tenant) ctx batch p.inserts p.updates)
    (hnodup : (p.inserts.map (·.name)).Nodup) {x : Submission k} (hx : x ∈ batch)
    (hnew : t.find? ⟨tenant, x.name⟩ = none) :
    ∃ i, x.toInsert ctx = .ok i ∧ (committed tenant p t).find? ⟨tenant, x.name⟩ =
      some ⟨x.name, x.type, i.payload, ctx.now.text, ctx.now.text⟩ := by
  obtain ⟨i, hi, hins⟩ := h.exists_insert hx (by rw [storedType, hnew]; rfl)
  refine ⟨i, hins, ?_⟩
  have hkept : ∀ u ∈ p.updates, (⟨tenant, u.name⟩ : Key) ≠ ⟨tenant, x.name⟩ := by
    intro u hu heq
    have hsome := (find?_of_mem_updates h hu).1
    rw [heq, hnew] at hsome
    cases hsome
  obtain ⟨_, _, payload, _, rfl⟩ := Submission.toInsert_eq_ok hins
  calc (committed tenant p t).find? ⟨tenant, x.name⟩
      = (putAll tenant p.inserts t).find? ⟨tenant, x.name⟩ := find?_updateAll_of_not_mem hkept _
    _ = some ⟨x.name, x.type, payload, ctx.now.text, ctx.now.text⟩ :=
        find?_putAll_of_mem hnodup hi t

/-- A stored name gets the content of its last record. -/
theorem find?_committed_stored {first last : List (Submission k)} {x : Submission k}
    (h : Planned (storedType t tenant) ctx (first ++ x :: last) p.inserts p.updates)
    (hlast : ∀ y ∈ last, y.name ≠ x.name) {old : Stored k}
    (hold : t.find? ⟨tenant, x.name⟩ = some old) :
    ∃ u, x.toUpdate old.type ctx = .ok u ∧ (committed tenant p t).find? ⟨tenant, x.name⟩ =
      some { old with payload := u.payload, updatedAt := ctx.now.text } := by
  have htype : storedType t tenant x.name = some old.type := by rw [storedType, hold]; rfl
  obtain ⟨us, u, vs, hupdates, hupd, hvs⟩ := h.split_updates htype
  have hname := Submission.name_of_toUpdate hupd
  refine ⟨u, hupd, ?_⟩
  have hbefore : (putAll tenant p.inserts t).find? ⟨tenant, u.name⟩ = some old := by
    rw [find?_putAll_of_not_mem, hname, hold]
    intro i hi heq
    have hnone := find?_of_mem_inserts h hi
    rw [heq, hname, hold] at hnone
    cases hnone
  have hafter : ∀ v ∈ vs, v.name ≠ u.name := by
    intro v hv heq
    obtain ⟨y, hy, hvy⟩ := hvs v hv
    exact hlast y hy (hvy.symm.trans (heq.trans hname))
  obtain ⟨_, payload, _, rfl⟩ := Submission.toUpdate_eq_ok hupd
  rw [committed, hupdates]
  exact find?_updateAll_last hbefore hafter

theorem find?_committed_other (h : Planned (storedType t tenant) ctx batch p.inserts p.updates)
    {key : Key} (hkey : key.tenant = tenant → ∀ x ∈ batch, x.name ≠ key.name) :
    (committed tenant p t).find? key = t.find? key := by
  rw [committed, find?_updateAll_of_not_mem, find?_putAll_of_not_mem]
  · rintro i hi rfl
    obtain ⟨x, hx, _, hins⟩ := h.of_mem_inserts hi
    exact hkey rfl x hx (Submission.name_of_toInsert hins).symm
  · rintro u hu rfl
    obtain ⟨_, x, hx, hname⟩ := find?_of_mem_updates h hu
    exact hkey rfl x hx hname

theorem updated_committed (h : Planned (storedType t tenant) ctx batch p.inserts p.updates)
    (hnodup : (p.inserts.map (·.name)).Nodup) :
    Updated t (committed tenant p t) tenant ctx batch where
  inserted _ hx hnew := find?_committed_new h hnodup hx hnew
  updated _ _ _ hbatch hlast _ hold := find?_committed_stored (hbatch ▸ h) hlast hold
  others _ hkey := find?_committed_other h hkey

end Committed

/-! ## The whole write -/

theorem perform_write {s : State} (hs : Reachable s) (tenant body : String) (ctx : BatchContext) :
    perform (Service.write tenant body ctx : Service.Request k Summary) s =
      match reconcile (storedType (s.table k) tenant) ctx (decodeBatch k body) with
      | .ok p =>
        Dialogue.run (store k) (Service.follow (Service.summary p) (Service.script tenant p)) s
      | .error e => (.error e, s) := by
  have htypes : Service.typeIn (rowsOf (s.table k) tenant) = storedType (s.table k) tenant :=
    funext fun name => (hs.proper k).typeIn_rowsOf tenant name
  rw [perform, Service.write_run, run_ask]
  simp only [answer, State.withTable_table, Service.written, htypes]
  cases reconcile (storedType (s.table k) tenant) ctx (decodeBatch k body) <;> rfl

/-- A write on the memory store succeeds exactly for an acceptable batch. If it fails, nothing has
changed; if it succeeds, the table of its kind is updated, the other one is as before, and the
summary has the names of the batch in its order, the new ones and the stored ones. -/
theorem write_on_memory {s : State} (hs : Reachable s) (tenant body : String)
    (ctx : BatchContext) :
    let result := perform (Service.write tenant body ctx : Service.Request k Summary) s
    ((∃ names, result.1 = .ok names) ↔
      Acceptable (s.table k) tenant ctx (decodeBatch k body)) ∧
    (∀ e, result.1 = .error e → result.2 = s) ∧
    ∀ names, result.1 = .ok names → ∃ batch, decodeBatch k body = batch.map .ok ∧
      Updated (s.table k) (result.2.table k) tenant ctx batch ∧
      (∀ other, other ≠ k → result.2.table other = s.table other) ∧
      names.inserted = (batch.map (·.name)).filter
        (fun n => ((s.table k).find? ⟨tenant, n⟩).isNone) ∧
      names.updated = (batch.map (·.name)).filter
        (fun n => ((s.table k).find? ⟨tenant, n⟩).isSome) := by
  dsimp only
  rw [perform_write hs]
  cases hplan : reconcile (storedType (s.table k) tenant) ctx (decodeBatch k body) with
  | error e =>
    refine ⟨iff_of_false (by rintro ⟨_, ⟨⟩⟩) fun hacc => ?_, fun _ _ => rfl, by rintro _ ⟨⟩⟩
    obtain ⟨p, hp⟩ := reconcile_ok_iff_accepted.mpr ⟨hacc.nonempty, hacc.accepted⟩
    rw [hplan] at hp
    cases hp
  | ok p =>
    obtain ⟨batch, hbatch, _, hplanned⟩ := reconcile_eq_ok_iff.mp hplan
    obtain ⟨hne, haccepted⟩ := reconcile_ok_iff_accepted.mp ⟨p, hplan⟩
    have hfresh := nodup_insert_names_iff hplanned
    rw [← hbatch] at hfresh
    dsimp only
    rcases run_script (Service.summary p) tenant p s with ⟨hrun, hnodup⟩ | ⟨⟨e, hrun⟩, htaken⟩
    · rw [hrun]
      refine ⟨iff_of_true ⟨_, rfl⟩ ⟨hne, haccepted, hfresh.mp hnodup⟩, by rintro _ ⟨⟩, ?_⟩
      rintro _ ⟨rfl⟩
      refine ⟨batch, hbatch, ?_, fun other hother => State.table_withTable_of_ne s _ hother, ?_, ?_⟩
      · rw [State.table_withTable]
        exact updated_committed hplanned hnodup
      · simpa only [Service.summary, storedType, Option.isNone_map] using hplanned.insert_names
      · simpa only [Service.summary, storedType, Option.isSome_map] using hplanned.update_names
    · rw [hrun]
      refine ⟨iff_of_false (by rintro ⟨_, ⟨⟩⟩) fun hacc => ?_, fun _ _ => rfl, by rintro _ ⟨⟩⟩
      exact htaken ⟨hfresh.mpr hacc.fresh, fun i hi => find?_of_mem_inserts hplanned hi⟩

/-- An exporter `a` of tenant `t`. -/
def oneExporter : State :=
  (store .exporter (.insert "t" [⟨"a", "cloud", .exporter none "{}", ⟨0, 0⟩, ⟨0, 0⟩⟩]) .empty).2

/-- New content for `a` twice, without its type, and a new name in between. -/
def laterBatch : String :=
  "name: a\nconfig: \x7b\x7d\n---\nname: b\ntype: loki\nconfig: \x7b\x7d\n---\n" ++
    "name: a\nconfig: \x7b\x7d"

set_option maxRecDepth 100000 in
theorem write_on_memory_later_batch :
    Reachable oneExporter ∧
      Acceptable (oneExporter.table .exporter) "t" ⟨⟨5, 0⟩, 8⟩ (decodeBatch .exporter laterBatch) :=
  have hs : Reachable oneExporter := .call _ .empty
  ⟨hs, (write_on_memory hs "t" laterBatch ⟨⟨5, 0⟩, 8⟩).1.mp ⟨⟨["b"], ["a", "a"]⟩, by cbv⟩⟩

end Memory
end TenantRegistry
