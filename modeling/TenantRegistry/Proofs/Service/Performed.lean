import Mathlib
import TenantRegistry.Proofs.Service.WriteOnMemory
import TenantRegistry.Proofs.Store.TenantRows

/-!
What each request does to the memory store when it runs alone.

For every request there is one lemma with its result and the state after it. Two things hold of all
of them: what fails has changed nothing (`Intact`), and whatever is changed belongs to the tenant
and the kind of the request (`Within`).
-/

namespace TenantRegistry.Memory

variable {k : Kind}

/-- A state that differs from an earlier one in rows of one kind and one tenant only. -/
structure Within (k : Kind) (tenant : String) (before after : State) : Prop where
  kinds : ∀ other, other ≠ k → after.table other = before.table other
  tenants : ∀ other, other ≠ tenant →
    (after.table k).ofTenant other = (before.table k).ofTenant other

theorem Within.refl (k : Kind) (tenant : String) (s : State) : Within k tenant s s :=
  ⟨fun _ _ => rfl, fun _ _ => rfl⟩

theorem within_withTable {s : State} {tenant : String} {t : Table k}
    (h : ∀ other, other ≠ tenant → t.ofTenant other = (s.table k).ofTenant other) :
    Within k tenant s (s.withTable t) where
  kinds _ hother := State.table_withTable_of_ne s t hother
  tenants other hother := by
    rw [State.table_withTable]
    exact h other hother

/-- A request that runs alone for a tenant: it stays within its kind and tenant, and if it fails it
has changed nothing. -/
structure Intact {α : Type} (r : Service.Request k α) (tenant : String) (s : State) : Prop where
  within : Within k tenant s (perform r s).2
  of_error : ∀ e, (perform r s).1 = .error e → (perform r s).2 = s

/-! ## Reading -/

theorem perform_list (tenant : String) (s : State) :
    perform (Service.list tenant : Service.Request k (List (Row k))) s =
      (.ok (rowsOf (s.table k) tenant), s) := by
  show (_, s.withTable (s.table k)) = _
  rw [State.withTable_table]
  rfl

theorem perform_get (tenant name : String) (s : State) :
    perform (Service.get tenant name : Service.Request k (Row k)) s =
      (match (s.table k).find? ⟨tenant, name⟩ with
        | some row => .ok row.row
        | none => .error (.notFound k tenant name), s) := by
  unfold perform Service.get
  rw [Service.run_call_bind, run_ask]
  simp only [answer, State.withTable_table]
  cases (s.table k).find? ⟨tenant, name⟩ <;> rfl

/-! ## Deleting -/

theorem Table.remove_of_find?_none {t : Table k} {key : Key} (h : t.find? key = none) :
    t.remove key = t := by
  refine List.filter_eq_self.mpr fun e he => ?_
  have hne : e.1 ≠ key := by
    rintro rfl
    unfold Table.find? at h
    rw [Option.map_eq_none_iff, List.find?_eq_none] at h
    exact absurd (beq_self_eq_true e.1) (h e he)
  simpa using hne

theorem perform_delete (tenant name : String) (s : State) :
    perform (Service.delete tenant name : Service.Request k (Row k)) s =
      match (s.table k).find? ⟨tenant, name⟩ with
      | some row => (.ok row.row, s.withTable ((s.table k).remove ⟨tenant, name⟩))
      | none => (.error (.notFound k tenant name), s) := by
  unfold perform Service.delete
  rw [Service.run_call_bind, run_ask]
  cases hrow : (s.table k).find? ⟨tenant, name⟩ with
  | some row =>
    simp only [answer, hrow]
    rfl
  | none =>
    simp only [answer, hrow, Table.remove_of_find?_none hrow, State.withTable_table]
    rfl

/-! ## Writing -/

theorem ofTenant_updateAll_of_ne (t : Table k) {tenant other : String} (h : other ≠ tenant)
    (updates : List (Update k)) :
    (updateAll tenant updates t).ofTenant other = t.ofTenant other := by
  induction updates generalizing t with
  | nil => rfl
  | cons u rest ih =>
    have hstep := ofTenant_answer_of_ne t (c := .update tenant u) (Ne.symm h)
    exact (ih _).trans hstep

/-- A write fails and changes nothing, or all of its plan is carried out. -/
theorem perform_write_cases {s : State} (hs : Reachable s) (tenant body : String)
    (ctx : BatchContext) :
    (∃ e, perform (Service.write tenant body ctx : Service.Request k Summary) s = (.error e, s)) ∨
    ∃ p, perform (Service.write tenant body ctx : Service.Request k Summary) s =
      (.ok (Service.summary p), s.withTable (committed tenant p (s.table k))) := by
  rw [perform_write hs]
  split
  · next p hp =>
    rcases run_script (Service.summary p) tenant p s with ⟨hrun, _⟩ | ⟨⟨e, hrun⟩, _⟩
    · exact .inr ⟨p, hrun⟩
    · exact .inl ⟨e, hrun⟩
  · next e _ => exact .inl ⟨e, rfl⟩

/-! ## All requests -/

theorem intact_list (tenant : String) (s : State) :
    Intact (Service.list tenant : Service.Request k (List (Row k))) tenant s := by
  constructor <;> rw [perform_list]
  · exact .refl k tenant s
  · exact fun _ _ => rfl

theorem intact_get (tenant name : String) (s : State) :
    Intact (Service.get tenant name : Service.Request k (Row k)) tenant s := by
  constructor <;> rw [perform_get]
  · exact .refl k tenant s
  · exact fun _ _ => rfl

theorem intact_delete (tenant name : String) (s : State) :
    Intact (Service.delete tenant name : Service.Request k (Row k)) tenant s := by
  constructor <;> rw [perform_delete] <;> split
  · next row _ =>
    refine within_withTable fun other hother => ?_
    have hkey : (⟨tenant, name⟩ : Key).tenant ≠ other := Ne.symm hother
    exact Table.ofTenant_remove_of_ne _ hkey
  · exact .refl k tenant s
  · rintro _ ⟨⟩
  · exact fun _ _ => rfl

theorem intact_write {s : State} (hs : Reachable s) (tenant body : String) (ctx : BatchContext) :
    Intact (Service.write tenant body ctx : Service.Request k Summary) tenant s := by
  rcases perform_write_cases hs tenant body ctx with ⟨e, hperform⟩ | ⟨p, hperform⟩
  · constructor <;> rw [hperform]
    · exact .refl k tenant s
    · exact fun _ _ => rfl
  · constructor <;> rw [hperform]
    · refine within_withTable fun other hother => ?_
      rw [committed, ofTenant_updateAll_of_ne _ hother,
        ofTenant_putAll_of_ne _ (Ne.symm hother)]
    · rintro _ ⟨⟩

end TenantRegistry.Memory
