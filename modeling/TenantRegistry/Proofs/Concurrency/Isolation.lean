import TenantRegistry.Proofs.Concurrency.Interleaving
import TenantRegistry.Proofs.Store.TenantRows

/-!
Tenants do not see each other, and neither do the two kinds.

From a run on one store all operations but those of one tenant on one kind are taken out, and from
its schedule all their steps. What is left runs as before: each operation is answered the same and
ends with the same result, and the tenant's rows end up the same (`isolated`). A step of an
operation that stays is made by the same call on the tenant's rows alone (`Confined.step_own`), and
a step of any other changes none of these rows (`Confined.step_other`).
-/

namespace TenantRegistry

/-- The operation is one of a tenant on a kind. -/
def Operation.isOf (k : Kind) (tenant : String) (op : Operation) : Bool :=
  op.kind = k && op.tenant = tenant

namespace Memory

variable {k : Kind} {tenant : String}

/-! ## Places in what is left of a list -/

section Places

variable {α : Type} {p : α → Bool} {l : List α} {i : Nat} {a b : α}

theorem exists_split_at (h : l[i]? = some a) :
    ∃ before after, l = before ++ a :: after ∧ before.length = i := by
  obtain ⟨hlen, rfl⟩ := List.getElem?_eq_some_iff.mp h
  refine ⟨l.take i, l.drop (i + 1), ?_, List.length_take_of_le (Nat.le_of_lt hlen)⟩
  rw [← List.drop_eq_getElem_cons hlen, List.take_append_drop]

theorem getElem?_filter_place (h : l[i]? = some a) (ha : p a = true) :
    (l.filter p)[(l.take i).countP p]? = some a := by
  obtain ⟨before, after, rfl, rfl⟩ := exists_split_at h
  rw [List.take_left, List.filter_append, List.filter_cons_of_pos ha, List.countP_eq_length_filter,
    List.getElem?_append_right (Nat.le_refl _), Nat.sub_self, List.getElem?_cons_zero]

theorem filter_set_place (h : l[i]? = some a) (ha : p a = true) (hb : p b = true) :
    (l.set i b).filter p = (l.filter p).set ((l.take i).countP p) b := by
  obtain ⟨before, after, rfl, rfl⟩ := exists_split_at h
  rw [List.take_left, List.countP_eq_length_filter, List.set_append_right _ _ (Nat.le_refl _),
    Nat.sub_self, List.set_cons_zero, List.filter_append, List.filter_append,
    List.filter_cons_of_pos ha, List.filter_cons_of_pos hb,
    List.set_append_right _ _ (Nat.le_refl _), Nat.sub_self, List.set_cons_zero]

theorem filter_set_of_not (h : l[i]? = some a) (ha : ¬ p a = true) (hb : ¬ p b = true) :
    (l.set i b).filter p = l.filter p := by
  obtain ⟨before, after, rfl, rfl⟩ := exists_split_at h
  rw [List.set_append_right _ _ (Nat.le_refl _), Nat.sub_self, List.set_cons_zero,
    List.filter_append, List.filter_append, List.filter_cons_of_neg ha, List.filter_cons_of_neg hb]

end Places

namespace System

/-- The place of operation `i` among those that `p` keeps. -/
def place (p : Operation → Bool) (ops : List Operation) (i : Nat) : Nat :=
  (ops.take i).countP p

/-- The steps of the operations that `p` keeps, for a run of these alone. -/
def keptSteps (p : Operation → Bool) (ops : List Operation) (schedule : List Nat) : List Nat :=
  (schedule.filter fun i => ops[i]?.any p).map (place p ops)

/-! ## One step -/

/-- `z` is what is left of `y` when only the operations of a tenant on a kind are there. -/
structure Confined (k : Kind) (tenant : String) (z y : System) : Prop where
  tasks_eq : z.tasks = y.tasks.filter fun t => t.op.isOf k tenant
  table_eq : z.state.table k = (y.state.table k).ofTenant tenant

theorem place_tasks (p : Operation → Bool) (y : System) (i : Nat) :
    place p (y.tasks.map (·.op)) i = (y.tasks.take i).countP fun t => p t.op := by
  unfold place
  rw [← List.map_take, List.countP_map]
  rfl

/-- A step of an operation that stays is one of it among those that stay. -/
theorem Confined.step_own {z y : System} {i : Nat} {t : Task} (h : Confined k tenant z y)
    (hproper : (y.state.table k).Proper) (htask : y.tasks[i]? = some t)
    (hown : t.op.isOf k tenant = true)
    (hcalls : t.rest.Respects (fun _ c => c.tenant = t.op.tenant) t.log) :
    Confined k tenant (z.step (place (·.isOf k tenant) (y.tasks.map (·.op)) i)) (y.step i) := by
  rw [place_tasks]
  have hz : z.tasks[(y.tasks.take i).countP fun t => t.op.isOf k tenant]? = some t := by
    rw [h.tasks_eq]
    exact getElem?_filter_place htask hown
  obtain ⟨⟨k', owner, action⟩, rest, log⟩ := t
  obtain ⟨rfl, rfl⟩ : k' = k ∧ owner = tenant := by simpa [Operation.isOf] using hown
  cases rest with
  | done r => rw [step_of_done htask, step_of_done hz]; exact h
  | ask c next =>
    cases hcalls with
    | ask hc _ =>
      have hanswer := answer_ofTenant hproper c
      rw [show c.tenant = owner from hc, ← h.table_eq] at hanswer
      have hsame : (store k' c z.state).1 = (store k' c y.state).1 := by
        rw [store_apply, store_apply, hanswer]
      rw [step_of_ask htask, step_of_ask hz]
      refine ⟨?_, ?_⟩
      · rw [hsame, h.tasks_eq]
        exact (filter_set_place htask hown hown).symm
      · rw [store_apply, store_apply, State.table_withTable, State.table_withTable, hanswer]

/-- A step of any other operation is none at all. -/
theorem Confined.step_other {z y : System} {i : Nat} {t : Task} (h : Confined k tenant z y)
    (htask : y.tasks[i]? = some t) (hother : ¬ t.op.isOf k tenant = true)
    (hcalls : t.rest.Respects (fun _ c => c.tenant = t.op.tenant) t.log) :
    Confined k tenant z (y.step i) := by
  obtain ⟨⟨k', owner, action⟩, rest, log⟩ := t
  cases rest with
  | done r => rw [step_of_done htask]; exact h
  | ask c next =>
    cases hcalls with
    | ask hc _ =>
      rw [step_of_ask htask]
      refine ⟨?_, ?_⟩
      · rw [h.tasks_eq]
        exact (filter_set_of_not htask hother hother).symm
      · rw [h.table_eq, store_apply]
        by_cases hk : k = k'
        · subst hk
          have hne : c.tenant ≠ tenant := by
            rw [show c.tenant = owner from hc]
            simpa [Operation.isOf] using hother
          rw [State.table_withTable, ofTenant_answer_of_ne _ hne]
        · rw [State.table_withTable_of_ne _ _ hk]

/-! ## Runs -/

theorem keptSteps_snoc (p : Operation → Bool) (ops : List Operation) (schedule : List Nat)
    (i : Nat) : keptSteps p ops (schedule ++ [i]) =
      keptSteps p ops schedule ++ if ops[i]?.any p then [place p ops i] else [] := by
  unfold keptSteps
  rw [List.filter_append, List.map_append, List.filter_cons, List.filter_nil]
  split <;> rfl

example : keptSteps (·.isOf .credential "t")
    [⟨.exporter, "t", .list⟩, ⟨.credential, "t", .list⟩, ⟨.credential, "u", .list⟩,
      ⟨.credential, "t", .get "n"⟩] [0, 3, 1, 2, 3] = [1, 0, 1] := by
  decide

theorem confined_run (k : Kind) (tenant : String) (ops : List Operation) (schedule : List Nat) :
    Confined k tenant
      ((start (ops.filter (·.isOf k tenant))).run (keptSteps (·.isOf k tenant) ops schedule))
      ((start ops).run schedule) := by
  induction schedule using List.reverseRecOn with
  | nil =>
    refine ⟨?_, ?_⟩
    · simp only [keptSteps, List.filter_nil, List.map_nil, run, List.foldl_nil, start,
        List.filter_map]
      rfl
    · cases k <;> rfl
  | append_singleton schedule i ih =>
    have hop : ops[i]? = ((start ops).run schedule).tasks[i]?.map (·.op) := by
      rw [← List.getElem?_map, ops_run]
    rw [run_snoc, keptSteps_snoc, run_append, hop]
    cases htask : ((start ops).run schedule).tasks[i]? with
    | none =>
      rw [step_of_none htask]
      exact ih
    | some t =>
      have hcalls := respects_run Operation.respects_tenant ops schedule htask
      rw [Option.map_some, Option.any_some]
      by_cases hown : t.op.isOf k tenant = true
      · rw [if_pos hown]
        have hstep := ih.step_own ((reachable_run ops schedule).proper k) htask hown hcalls
        rw [ops_run] at hstep
        exact hstep
      · rw [if_neg hown]
        exact ih.step_other htask hown hcalls

/-- However operations interleave, those of one tenant on one kind are answered and end as if there
were no others, and leave the same rows. -/
theorem isolated (k : Kind) (tenant : String) (ops : List Operation) (schedule : List Nat) :
    ((start (ops.filter (·.isOf k tenant))).run
        (keptSteps (·.isOf k tenant) ops schedule)).tasks =
      ((start ops).run schedule).tasks.filter (·.op.isOf k tenant) ∧
    ((start (ops.filter (·.isOf k tenant))).run
        (keptSteps (·.isOf k tenant) ops schedule)).state.table k =
      (((start ops).run schedule).state.table k).ofTenant tenant :=
  ⟨(confined_run k tenant ops schedule).tasks_eq, (confined_run k tenant ops schedule).table_eq⟩

end System
end Memory
end TenantRegistry
