import Mathlib
import TenantRegistry.Proofs.Service.CallOrder
import TenantRegistry.Proofs.Service.StoredRows
import TenantRegistry.Proofs.Service.WriteOnMemory

/-!
A write that is submitted again after it was broken off.

Nothing of a write is taken back when one of its calls fails. What an attempt leaves behind is
either nothing, or all its inserts and the first few of its updates (`attempt_cases`). In the
second case every record of the batch has a stored row of its own type (`Underway`), so the batch is
planned again with updates only, and these put every row where an undisturbed write would have put
it. Main statement: `resubmission_converges`.
-/

namespace TenantRegistry

variable {k : Kind}

/-- A call that was answered with an error. -/
def Exchange.Failed (x : Exchange k) : Prop :=
  ∃ e, x.answer = .error e

/-! ## A record at another time -/

namespace Submission

variable {s : Submission k} {ctx : BatchContext}

/-- The time has no say in what is accepted. -/
theorem toInsert_later {i : Insert k} (h : s.toInsert ctx = .ok i) (now : Timestamp) :
    s.toInsert ⟨now, ctx.maxDepth⟩ = .ok ⟨s.name, s.type, i.payload, now, now⟩ := by
  obtain ⟨hname, htype, p, hp, rfl⟩ := toInsert_eq_ok h
  exact toInsert_of_payload hname htype hp

theorem toUpdate_later {current : String} {u : Update k} (h : s.toUpdate current ctx = .ok u)
    (now : Timestamp) : s.toUpdate current ⟨now, ctx.maxDepth⟩ = .ok ⟨s.name, u.payload, now⟩ := by
  obtain ⟨hname, p, hp, rfl⟩ := toUpdate_eq_ok h
  exact toUpdate_of_payload hname hp

/-- A record that was new has the same content once it is stored. -/
theorem toUpdate_of_toInsert {i : Insert k} (h : s.toInsert ctx = .ok i) (now : Timestamp) :
    s.toUpdate s.type ⟨now, ctx.maxDepth⟩ = .ok ⟨s.name, i.payload, now⟩ := by
  obtain ⟨hname, htype, p, hp, rfl⟩ := toInsert_eq_ok h
  refine toUpdate_of_payload hname ?_
  rw [if_neg htype]
  exact hp

end Submission

namespace Memory

/-! ## Acceptable batches and their plans -/

theorem batch_unique {records : List (Except RequestError (Submission k))}
    {batch batch' : List (Submission k)} (h : records = batch.map .ok)
    (h' : records = batch'.map .ok) : batch = batch' := by
  refine List.map_injective_iff.mpr (fun x y heq => ?_) (h.symm.trans h')
  exact Except.ok.inj heq

theorem acceptable_iff {t : Table k} {tenant : String} {ctx : BatchContext}
    {records : List (Except RequestError (Submission k))} :
    Acceptable t tenant ctx records ↔
      ∃ p, reconcile (storedType t tenant) ctx records = .ok p ∧
        (p.inserts.map (·.name)).Nodup := by
  constructor
  · intro h
    obtain ⟨p, hp⟩ := reconcile_ok_iff_accepted.mpr ⟨h.nonempty, h.accepted⟩
    obtain ⟨batch, rfl, _, hplanned⟩ := reconcile_eq_ok_iff.mp hp
    exact ⟨p, hp, (nodup_insert_names_iff hplanned).mpr h.fresh⟩
  · rintro ⟨p, hp, hnodup⟩
    obtain ⟨hne, haccepted⟩ := reconcile_ok_iff_accepted.mp ⟨p, hp⟩
    obtain ⟨batch, rfl, _, hplanned⟩ := reconcile_eq_ok_iff.mp hp
    exact ⟨hne, haccepted, (nodup_insert_names_iff hplanned).mp hnodup⟩

/-- The time has no say in what is acceptable. -/
theorem Acceptable.later {t : Table k} {tenant : String} {ctx : BatchContext}
    {records : List (Except RequestError (Submission k))} (h : Acceptable t tenant ctx records)
    (now : Timestamp) : Acceptable t tenant ⟨now, ctx.maxDepth⟩ records := by
  refine ⟨h.nonempty, fun r hr => ?_, h.fresh⟩
  obtain ⟨x, rfl, haccepted⟩ := h.accepted r hr
  refine ⟨x, rfl, ?_⟩
  unfold Submission.Accepted at haccepted ⊢
  split
  · next hnew =>
    rw [hnew] at haccepted
    obtain ⟨i, hi⟩ := haccepted
    exact ⟨_, Submission.toInsert_later hi now⟩
  · next current hstored =>
    rw [hstored] at haccepted
    obtain ⟨⟨u, hu⟩, htype⟩ := haccepted
    exact ⟨⟨_, Submission.toUpdate_later hu now⟩, htype⟩

/-- An undisturbed write of an acceptable batch goes through. -/
theorem perform_write_acceptable {s : State} (hs : Reachable s) {tenant body : String}
    {ctx : BatchContext} {batch : List (Submission k)} (hbatch : decodeBatch k body = batch.map .ok)
    (h : Acceptable (s.table k) tenant ctx (decodeBatch k body)) :
    ∃ (names : Summary) (t : Table k),
      perform (Service.write tenant body ctx : Service.Request k Summary) s =
        (.ok names, s.withTable t) ∧
      Updated (s.table k) t tenant ctx batch ∧
      names.inserted = (batch.map (·.name)).filter
        (fun n => (storedType (s.table k) tenant n).isNone) ∧
      names.updated = (batch.map (·.name)).filter
        (fun n => (storedType (s.table k) tenant n).isSome) := by
  obtain ⟨p, hp, hnodup⟩ := acceptable_iff.mp h
  obtain ⟨batch', hbatch', _, hplanned⟩ := reconcile_eq_ok_iff.mp hp
  cases batch_unique hbatch hbatch'
  refine ⟨Service.summary p, committed tenant p (s.table k), ?_, updated_committed hplanned hnodup,
    hplanned.insert_names, hplanned.update_names⟩
  rw [perform_write hs, hp]
  dsimp only
  rcases run_script (Service.summary p) tenant p s with ⟨hrun, _⟩ | ⟨_, htaken⟩
  · exact hrun
  · exact absurd ⟨hnodup, fun i hi => find?_of_mem_inserts hplanned hi⟩ htaken

/-! ## An attempt -/

/-- What a write leaves behind: the store and the calls it has made. -/
structure Attempt (k : Kind) where
  state : State
  log : List (Exchange k)

/-- A write of which any call may fail, `fails` having an error for its number. -/
def attempt (fails : Nat → Option StoreError) (tenant body : String) (ctx : BatchContext)
    (s : State) : Attempt k :=
  let (_, ((s', _), log)) :=
    Dialogue.run (logged (faulty fails k)) (Service.write tenant body ctx).run ((s, 0), [])
  ⟨s', log⟩

/-- No call before the updates has failed. -/
def Attempt.PastInsert (a : Attempt k) : Prop :=
  ∀ x ∈ a.log, x.Failed → x.call.verb = .update

theorem run_faulty_updates {α : Type} (fails : Nat → Option StoreError) (a : α) (tenant : String)
    (updates : List (Update k)) (s : State) (n : Nat) (log : List (Exchange k)) :
    ∃ made left, updates = made ++ left ∧
      (Dialogue.run (logged (faulty fails k)) (Service.follow a (updates.map (.update tenant)))
        ((s, n), log)).2.1.1 = s.withTable (updateAll tenant made (s.table k)) := by
  induction updates generalizing s n log with
  | nil => exact ⟨[], [], rfl, (State.withTable_table s).symm⟩
  | cons u rest ih =>
    rw [List.map_cons, Service.follow, Service.run_logged_ask]
    cases hfails : fails n with
    | some e =>
      rw [faulty_of_error hfails]
      exact ⟨[], u :: rest, rfl, (State.withTable_table s).symm⟩
    | none =>
      rw [faulty_of_none hfails]
      dsimp only
      rw [answer_update_fst]
      obtain ⟨made, left, rfl, hrun⟩ := ih (s.withTable (answer (s.table k) (.update tenant u)).2)
        (n + 1) (log ++ [⟨.update tenant u, .ok ()⟩])
      refine ⟨u :: made, left, rfl, hrun.trans ?_⟩
      rw [State.table_withTable, State.withTable_withTable]
      rfl

/-- An attempt leaves nothing behind, and then a call before the updates has failed, or it leaves
all its inserts and some of its updates. -/
theorem attempt_cases {s : State} (hs : Reachable s) {tenant body : String} {ctx : BatchContext}
    {p : Plan k}
    (hp : reconcile (storedType (s.table k) tenant) ctx (decodeBatch k body) = .ok p)
    (hfree : ∀ i ∈ p.inserts, (s.table k).find? ⟨tenant, i.name⟩ = none)
    (hnodup : (p.inserts.map (·.name)).Nodup) (fails : Nat → Option StoreError) :
    ((attempt fails tenant body ctx s : Attempt k).state = s ∧
      ¬ (attempt fails tenant body ctx s : Attempt k).PastInsert) ∨
    ∃ made left, p.updates = made ++ left ∧ (attempt fails tenant body ctx s : Attempt k).state =
      s.withTable (updateAll tenant made (putAll tenant p.inserts (s.table k))) := by
  have htypes : Service.typeIn (rowsOf (s.table k) tenant) = storedType (s.table k) tenant :=
    funext fun name => (hs.proper k).typeIn_rowsOf tenant name
  unfold attempt
  rw [Service.write_run, Service.run_logged_ask]
  cases hlist : fails 0 with
  | some e =>
    rw [faulty_of_error hlist]
    refine .inl ⟨rfl, fun hpast => ?_⟩
    cases hpast ⟨.list tenant, .error e⟩ (List.mem_singleton_self _) ⟨e, rfl⟩
  | none =>
    rw [faulty_of_none hlist]
    simp only [answer, State.withTable_table, Service.written, htypes, hp, Service.script]
    cases hinserts : p.inserts with
    | nil =>
      obtain ⟨made, left, hupdates, hrun⟩ := run_faulty_updates fails (Service.summary p) tenant
        p.updates s 1 [⟨.list tenant, .ok (rowsOf (s.table k) tenant)⟩]
      exact .inr ⟨made, left, hupdates, hrun⟩
    | cons i rest =>
      rw [hinserts] at hfree hnodup
      rw [List.isEmpty_cons, if_neg Bool.false_ne_true, List.singleton_append, Service.follow,
        Service.run_logged_ask]
      cases hinsert : fails 1 with
      | some e =>
        rw [faulty_of_error hinsert]
        refine .inl ⟨rfl, fun hpast => ?_⟩
        cases hpast ⟨.insert tenant (i :: rest), .error e⟩
          (List.mem_append_right _ (List.mem_singleton_self _)) ⟨e, rfl⟩
      | none =>
        rw [faulty_of_none hinsert]
        dsimp only
        rw [answer_insert_of_free hfree hnodup]
        obtain ⟨made, left, hupdates, hrun⟩ := run_faulty_updates fails (Service.summary p) tenant
          p.updates (s.withTable (putAll tenant (i :: rest) (s.table k))) 2
          [⟨.list tenant, .ok (rowsOf (s.table k) tenant)⟩, ⟨.insert tenant (i :: rest), .ok ()⟩]
        refine .inr ⟨made, left, hupdates, hrun.trans ?_⟩
        rw [State.table_withTable, State.withTable_withTable]

/-! ## What an attempt leaves of a batch -/

/-- Rows that any update makes the same. -/
def Stored.Similar (a b : Stored k) : Prop :=
  ∀ u : Update k, a.updated u = b.updated u

theorem Stored.Similar.type_eq {a b : Stored k} (h : a.Similar b) (u : Update k) :
    a.type = b.type := by
  have htype : (a.updated u).type = (b.updated u).type := by rw [h u]
  exact htype

/-- Every record of a batch has a row: a new name that of its insert, a stored one the row it had,
and either may have been updated since. No other key is touched. -/
structure Underway (before mid : Table k) (tenant : String) (ctx : BatchContext)
    (batch : List (Submission k)) : Prop where
  inserted : ∀ x ∈ batch, before.find? ⟨tenant, x.name⟩ = none →
    ∃ i row, x.toInsert ctx = .ok i ∧ mid.find? ⟨tenant, x.name⟩ = some row ∧
      row.Similar (.ofInsert i)
  stored : ∀ x ∈ batch, ∀ old, before.find? ⟨tenant, x.name⟩ = some old →
    ∃ row, mid.find? ⟨tenant, x.name⟩ = some row ∧ row.Similar old
  others : ∀ key : Key, (key.tenant = tenant → ∀ x ∈ batch, x.name ≠ key.name) →
    mid.find? key = before.find? key

theorem underway_updateAll {t : Table k} {tenant : String} {ctx : BatchContext}
    {batch : List (Submission k)} {p : Plan k} {made left : List (Update k)}
    (h : Planned (storedType t tenant) ctx batch p.inserts p.updates)
    (hnodup : (p.inserts.map (·.name)).Nodup) (hupdates : p.updates = made ++ left) :
    Underway t (updateAll tenant made (putAll tenant p.inserts t)) tenant ctx batch where
  inserted x hx hnew := by
    obtain ⟨i, hi, hins⟩ := h.exists_insert hx (by rw [storedType, hnew]; rfl)
    have hput : (putAll tenant p.inserts t).find? ⟨tenant, i.name⟩ = some (.ofInsert i) :=
      find?_putAll_of_mem hnodup hi t
    rw [Submission.name_of_toInsert hins] at hput
    obtain ⟨row, hrow, hsimilar⟩ := exists_find?_updateAll tenant made hput
    exact ⟨i, row, hins, hrow, hsimilar⟩
  stored x hx old hold := by
    have hput : (putAll tenant p.inserts t).find? ⟨tenant, x.name⟩ = some old := by
      rw [find?_putAll_of_not_mem, hold]
      intro i hi heq
      have hnone := find?_of_mem_inserts h hi
      rw [heq, hold] at hnone
      cases hnone
    exact exists_find?_updateAll tenant made hput
  others key hkey := by
    rw [find?_updateAll_of_not_mem, find?_putAll_of_not_mem]
    · rintro i hi rfl
      obtain ⟨x, hx, _, hins⟩ := h.of_mem_inserts hi
      exact hkey rfl x hx (Submission.name_of_toInsert hins).symm
    · rintro u hu rfl
      obtain ⟨_, x, hx, hname⟩ := find?_of_mem_updates h (hupdates ▸ List.mem_append_left left hu)
      exact hkey rfl x hx hname

section Underway

variable {before mid : Table k} {tenant : String} {first : Timestamp} {maxDepth : Nat}
  {batch : List (Submission k)}

/-- A record that was accepted is accepted again, as new content for the row it now has. -/
theorem Underway.toUpdate (h : Underway before mid tenant ⟨first, maxDepth⟩ batch)
    {x : Submission k} (hx : x ∈ batch)
    (haccepted : x.Accepted (storedType before tenant) ⟨first, maxDepth⟩) (later : Timestamp) :
    ∃ row u, mid.find? ⟨tenant, x.name⟩ = some row ∧
      x.toUpdate row.type ⟨later, maxDepth⟩ = .ok u ∧ (x.type = "" ∨ x.type = row.type) := by
  unfold Submission.Accepted at haccepted
  cases hbefore : before.find? ⟨tenant, x.name⟩ with
  | none =>
    obtain ⟨i, row, hins, hrow, hsimilar⟩ := h.inserted x hx hbefore
    have htype : row.type = x.type := by
      obtain ⟨_, _, p, _, rfl⟩ := Submission.toInsert_eq_ok hins
      exact hsimilar.type_eq ⟨x.name, p, later⟩
    refine ⟨row, ⟨x.name, i.payload, later⟩, hrow, ?_, .inr htype.symm⟩
    rw [htype]
    exact Submission.toUpdate_of_toInsert hins later
  | some old =>
    obtain ⟨row, hrow, hsimilar⟩ := h.stored x hx old hbefore
    rw [storedType, hbefore] at haccepted
    obtain ⟨⟨u, hu⟩, htype⟩ := haccepted
    have hsame : row.type = old.type := hsimilar.type_eq u
    refine ⟨row, ⟨x.name, u.payload, later⟩, hrow, ?_, hsame ▸ htype⟩
    rw [hsame]
    exact Submission.toUpdate_later hu later

/-- The batch is acceptable again. -/
theorem Underway.acceptable (h : Underway before mid tenant ⟨first, maxDepth⟩ batch)
    (hbatch : Acceptable before tenant ⟨first, maxDepth⟩ (batch.map .ok)) (later : Timestamp) :
    Acceptable mid tenant ⟨later, maxDepth⟩ (batch.map .ok) := by
  have hrow : ∀ x ∈ batch, ∃ row u, mid.find? ⟨tenant, x.name⟩ = some row ∧
      x.toUpdate row.type ⟨later, maxDepth⟩ = .ok u ∧ (x.type = "" ∨ x.type = row.type) := by
    intro x hx
    obtain ⟨_, heq, haccepted⟩ := hbatch.accepted (.ok x) (List.mem_map_of_mem hx)
    cases heq
    exact h.toUpdate hx haccepted later
  refine ⟨hbatch.nonempty, fun r hr => ?_, ?_⟩
  · obtain ⟨x, hx, rfl⟩ := List.mem_map.mp hr
    obtain ⟨row, u, hrow, hu, htype⟩ := hrow x hx
    refine ⟨x, rfl, ?_⟩
    unfold Submission.Accepted storedType
    rw [hrow]
    exact ⟨⟨u, hu⟩, htype⟩
  · refine List.pairwise_of_forall_mem_list fun r hr r' _ x _ heq _ _ => ?_
    obtain ⟨y, hy, rfl⟩ := List.mem_map.mp hr
    cases heq
    obtain ⟨row, _, hrow, _⟩ := hrow x hy
    rw [hrow]
    rfl

end Underway

theorem reachable_underway {s : State} (hs : Reachable s) {tenant : String}
    {inserts : List (Insert k)}
    (hfree : ∀ i ∈ inserts, (s.table k).find? ⟨tenant, i.name⟩ = none)
    (hnodup : (inserts.map (·.name)).Nodup) (made : List (Update k)) :
    Reachable (s.withTable (updateAll tenant made (putAll tenant inserts (s.table k)))) := by
  induction made using List.reverseRecOn with
  | nil =>
    have hcall := hs.call (.insert tenant inserts)
    rw [store_apply, answer_insert_of_free hfree hnodup] at hcall
    exact hcall
  | append_singleton made u ih =>
    have hcall := ih.call (.update tenant u)
    rw [store_apply, State.table_withTable, State.withTable_withTable] at hcall
    rw [updateAll_append]
    exact hcall

/-- An attempt to write an acceptable batch leaves nothing behind, and then a call before the
updates has failed, or a row for every record. -/
theorem attempt_underway {s : State} (hs : Reachable s) {tenant body : String} {ctx : BatchContext}
    {batch : List (Submission k)} (hbatch : decodeBatch k body = batch.map .ok)
    (h : Acceptable (s.table k) tenant ctx (batch.map .ok)) (fails : Nat → Option StoreError)
    {a : Attempt k} (ha : a = attempt fails tenant body ctx s) :
    (a.state = s ∧ ¬ a.PastInsert) ∨
      (Reachable a.state ∧ Underway (s.table k) (a.state.table k) tenant ctx batch ∧
        ∀ other, other ≠ k → a.state.table other = s.table other) := by
  obtain ⟨p, hp, hnodup⟩ := acceptable_iff.mp h
  obtain ⟨batch', hbatch', _, hplanned⟩ := reconcile_eq_ok_iff.mp hp
  cases batch_unique rfl hbatch'
  have hfree : ∀ i ∈ p.inserts, (s.table k).find? ⟨tenant, i.name⟩ = none :=
    fun i hi => find?_of_mem_inserts hplanned hi
  subst ha
  rcases attempt_cases hs (hbatch ▸ hp) hfree hnodup fails with
    hnothing | ⟨made, left, hsplit, hstate⟩
  · exact .inl hnothing
  · right
    rw [hstate, State.table_withTable]
    exact ⟨reachable_underway hs hfree hnodup made, underway_updateAll hplanned hnodup hsplit,
      fun other hother => State.table_withTable_of_ne s _ hother⟩

/-! ## The second write -/

/-- A key that has a row after an attempt and had none before. -/
def added (before mid : Table k) (key : Key) : Bool :=
  (before.find? key).isNone && (mid.find? key).isSome

/-- A row that was created at another time. -/
def Stored.createdOn (row : Stored k) (t : Timestamp) : Stored k :=
  { row with createdAt := t.text }

/-- The last record with a name. -/
theorem exists_last_of_name {batch : List (Submission k)} {name : String}
    (h : ∃ x ∈ batch, x.name = name) :
    ∃ front x back, batch = front ++ x :: back ∧ x.name = name ∧ ∀ y ∈ back, y.name ≠ name := by
  induction batch with
  | nil => obtain ⟨x, hx, _⟩ := h; cases hx
  | cons first rest ih =>
    by_cases hrest : ∃ x ∈ rest, x.name = name
    · obtain ⟨front, x, back, rfl, hname, hback⟩ := ih hrest
      exact ⟨first :: front, x, back, rfl, hname, hback⟩
    · obtain ⟨x, hx, hname⟩ := h
      rcases List.mem_cons.mp hx with rfl | hx
      · exact ⟨[], x, rest, rfl, hname, fun y hy heq => hrest ⟨y, hy, heq⟩⟩
      · exact absurd ⟨x, hx, hname⟩ hrest

/-- The second write ends with the rows of an undisturbed one, but for the creation of those that
the attempt had added. -/
theorem Underway.find?_again {before mid again undisturbed : Table k} {tenant : String}
    {first later : Timestamp} {maxDepth : Nat} {batch : List (Submission k)}
    (hmid : Underway before mid tenant ⟨first, maxDepth⟩ batch)
    (hagain : Updated mid again tenant ⟨later, maxDepth⟩ batch)
    (hundisturbed : Updated before undisturbed tenant ⟨later, maxDepth⟩ batch) (key : Key) :
    again.find? key = (undisturbed.find? key).map fun row =>
      if added before mid key then row.createdOn first else row := by
  unfold added
  by_cases hkey : key.tenant = tenant ∧ ∃ x ∈ batch, x.name = key.name
  · obtain ⟨tenant', name⟩ := key
    obtain ⟨rfl, hname⟩ := hkey
    obtain ⟨front, x, back, hsplit, rfl, hlast⟩ := exists_last_of_name hname
    have hx : x ∈ batch := by rw [hsplit]; simp
    cases hbefore : before.find? ⟨tenant', x.name⟩ with
    | none =>
      obtain ⟨i, row, hins, hrow, hsimilar⟩ := hmid.inserted x hx hbefore
      obtain ⟨i', hins', hnew⟩ := hundisturbed.inserted x hx hbefore
      obtain ⟨u, hu, hupdated⟩ := hagain.updated front x back hsplit hlast row hrow
      -- Both writes accept the record with the content it had in the attempt.
      cases hins'.symm.trans (Submission.toInsert_later hins later)
      obtain ⟨_, _, _, _, rfl⟩ := Submission.toInsert_eq_ok hins
      have htype : row.type = x.type := hsimilar.type_eq u
      rw [htype] at hu
      cases hu.symm.trans (Submission.toUpdate_of_toInsert hins later)
      rw [hupdated, hnew, hrow]
      exact congrArg some (hsimilar ⟨x.name, _, later⟩)
    | some old =>
      obtain ⟨row, hrow, hsimilar⟩ := hmid.stored x hx old hbefore
      obtain ⟨u, hu, hupdated⟩ := hagain.updated front x back hsplit hlast row hrow
      obtain ⟨u', hu', hupdated'⟩ := hundisturbed.updated front x back hsplit hlast old hbefore
      have htype : row.type = old.type := hsimilar.type_eq u
      rw [htype] at hu
      cases hu.symm.trans hu'
      rw [hupdated, hupdated']
      exact congrArg some (hsimilar ⟨x.name, u.payload, later⟩)
  · have hother : key.tenant = tenant → ∀ x ∈ batch, x.name ≠ key.name :=
      fun htenant x hx hname => hkey ⟨htenant, x, hx, hname⟩
    rw [hagain.others key hother, hundisturbed.others key hother, hmid.others key hother]
    cases hbefore : before.find? key <;> rfl

/-- What is written again is stored by now, so the second write has only updates. -/
theorem Underway.perform_write_again {before : Table k} {s : State} (hs : Reachable s)
    {tenant body : String} {first : Timestamp} {maxDepth : Nat} {batch : List (Submission k)}
    (hunder : Underway before (s.table k) tenant ⟨first, maxDepth⟩ batch)
    (hbatch : decodeBatch k body = batch.map .ok)
    (h : Acceptable before tenant ⟨first, maxDepth⟩ (batch.map .ok)) (later : Timestamp) :
    ∃ t : Table k,
      perform (Service.write tenant body ⟨later, maxDepth⟩ : Service.Request k Summary) s =
        (.ok ⟨[], batch.map (·.name)⟩, s.withTable t) ∧
      Updated (s.table k) t tenant ⟨later, maxDepth⟩ batch := by
  have hagain : Acceptable (s.table k) tenant ⟨later, maxDepth⟩ (decodeBatch k body) :=
    hbatch ▸ hunder.acceptable h later
  obtain ⟨names, t, hperform, hupdated, hinserted, hall⟩ :=
    perform_write_acceptable hs hbatch hagain
  have hstored : ∀ n ∈ batch.map (·.name), (storedType (s.table k) tenant n).isSome := by
    intro n hn
    obtain ⟨x, hx, rfl⟩ := List.mem_map.mp hn
    obtain ⟨_, heq, haccepted⟩ := h.accepted (.ok x) (List.mem_map_of_mem hx)
    cases heq
    obtain ⟨row, _, hrow, _⟩ := hunder.toUpdate hx haccepted later
    rw [storedType, hrow]
    rfl
  have hnames : names = ⟨[], batch.map (·.name)⟩ := by
    obtain ⟨inserted, updated⟩ := names
    rw [Summary.mk.injEq]
    refine ⟨hinserted.trans (List.filter_eq_nil_iff.mpr fun n hn hnone => ?_),
      hall.trans (List.filter_eq_self.mpr hstored)⟩
    have hsome := hstored n hn
    rw [Option.isNone_iff_eq_none.mp hnone] at hsome
    cases hsome
  exact ⟨t, hnames ▸ hperform, hupdated⟩

/-- A batch that would go through is written, whichever calls of the write fail, and is then written
again without any failure. The second write goes through, and its rows are those of one undisturbed
write at its time, but for the creation of the rows that the attempt had added. If the attempt was
past its insert, the second write has only updates, one for every record in the order of the
batch. -/
theorem resubmission_converges {s : State} (hs : Reachable s) {tenant body : String}
    {first : Timestamp} {maxDepth : Nat}
    (h : Acceptable (s.table k) tenant ⟨first, maxDepth⟩ (decodeBatch k body))
    (fails : Nat → Option StoreError) (later : Timestamp) :
    let attempted : Attempt k := attempt fails tenant body ⟨first, maxDepth⟩ s
    let write : Service.Request k Summary := Service.write tenant body ⟨later, maxDepth⟩
    let again := perform write attempted.state
    let undisturbed := perform write s
    (∃ names, undisturbed.1 = .ok names) ∧
    (∃ (batch : List (Submission k)) (names : Summary),
      decodeBatch k body = batch.map .ok ∧ again.1 = .ok names ∧
        (attempted.PastInsert → names.inserted = [] ∧ names.updated = batch.map (·.name))) ∧
    (∀ key, (again.2.table k).find? key = ((undisturbed.2.table k).find? key).map fun row =>
      if added (s.table k) (attempted.state.table k) key then row.createdOn first else row) ∧
    ∀ other, other ≠ k → again.2.table other = undisturbed.2.table other := by
  intro attempted write again undisturbed
  obtain ⟨_, hp, _⟩ := acceptable_iff.mp h
  obtain ⟨batch, hbatch, _, _⟩ := reconcile_eq_ok_iff.mp hp
  have hbatched : Acceptable (s.table k) tenant ⟨first, maxDepth⟩ (batch.map .ok) := hbatch ▸ h
  obtain ⟨names, t, hundisturbed, hupdated, _⟩ :=
    perform_write_acceptable hs hbatch (h.later later)
  have hund : undisturbed = (.ok names, s.withTable t) := hundisturbed
  rcases attempt_underway hs hbatch hbatched fails (a := attempted) rfl with
    ⟨hstate, hnot⟩ | ⟨hreachable, hunder, hothers⟩
  · -- Nothing was left behind, so the second write is the undisturbed one.
    have hsame : again = undisturbed := by
      show perform write attempted.state = perform write s
      rw [hstate]
    refine ⟨⟨names, by rw [hund]⟩, ⟨batch, names, hbatch, by rw [hsame, hund], ?_⟩, ?_, ?_⟩
    · exact fun hpast => absurd hpast hnot
    · intro key
      rw [hsame, hstate]
      cases hrow : (s.table k).find? key <;> simp [added, hrow]
    · exact fun other _ => by rw [hsame]
  · obtain ⟨t', hperform, hupdated'⟩ :=
      hunder.perform_write_again hreachable hbatch hbatched later
    have hag : again = (.ok ⟨[], batch.map (·.name)⟩, attempted.state.withTable t') := hperform
    refine ⟨⟨names, by rw [hund]⟩, ⟨batch, _, hbatch, by rw [hag], fun _ => ⟨rfl, rfl⟩⟩, ?_, ?_⟩
    · intro key
      rw [hag, hund, State.table_withTable, State.table_withTable]
      exact hunder.find?_again hupdated' hupdated key
    · intro other hother
      rw [hag, hund, State.table_withTable_of_ne _ _ hother, State.table_withTable_of_ne _ _ hother]
      exact hothers other hother

set_option maxRecDepth 100000 in
theorem decodeBatch_laterBatch : decodeBatch .exporter laterBatch =
    [.ok ⟨"a", "", .exporter none (.mapping [])⟩, .ok ⟨"b", "loki", .exporter none (.mapping [])⟩,
      .ok ⟨"a", "", .exporter none (.mapping [])⟩] := by
  cbv

/-- The second update of a write fails, its fourth call. -/
def secondUpdate (n : Nat) : Option StoreError :=
  if n = 3 then some (.backend "down") else none

/-- The batch that adds `b` and twice updates `a`, broken off before the second update. -/
def brokenOff : Attempt .exporter :=
  attempt secondUpdate "t" laterBatch ⟨⟨5, 0⟩, 8⟩ oneExporter

theorem brokenOff_pastInsert : brokenOff.PastInsert := by
  unfold brokenOff attempt Service.write
  rw [decodeBatch_laterBatch]
  intro x hx hfailed
  rcases hx with _ | ⟨_, _ | ⟨_, _ | ⟨_, _ | ⟨_, ⟨⟩⟩⟩⟩⟩
  · obtain ⟨e, he⟩ := hfailed
    cases he
  · obtain ⟨e, he⟩ := hfailed
    cases he
  · rfl
  · rfl

/-- Written again, the batch is all updates. -/
theorem resubmission_converges_after_first_update :
    Reachable oneExporter ∧
    Acceptable (oneExporter.table .exporter) "t" ⟨⟨5, 0⟩, 8⟩ (decodeBatch .exporter laterBatch) ∧
    (perform (Service.write "t" laterBatch ⟨⟨9, 0⟩, 8⟩ : Service.Request .exporter Summary)
      brokenOff.state).1 = .ok ⟨[], ["a", "b", "a"]⟩ := by
  have hs : Reachable oneExporter := .call _ .empty
  have hacceptable : Acceptable (oneExporter.table .exporter) "t" ⟨⟨5, 0⟩, 8⟩
      (decodeBatch .exporter laterBatch) := by
    rw [acceptable_iff, decodeBatch_laterBatch]
    exact ⟨_, rfl, by decide⟩
  obtain ⟨_, ⟨batch, names, hbatch, hok, hnames⟩, _⟩ :=
    resubmission_converges hs hacceptable secondUpdate ⟨9, 0⟩
  obtain ⟨hinserted, hupdated⟩ := hnames brokenOff_pastInsert
  have heq : names = ⟨[], ["a", "b", "a"]⟩ := by
    have hlater : decodeBatch .exporter laterBatch = [_, _, _].map .ok := decodeBatch_laterBatch
    cases batch_unique hbatch hlater
    obtain ⟨inserted, updated⟩ := names
    rw [Summary.mk.injEq]
    exact ⟨hinserted, hupdated⟩
  exact ⟨hs, hacceptable, heq ▸ hok⟩

end Memory
end TenantRegistry
