import TenantRegistry.Proofs.Store.Answers

/-!
The rows of one tenant as a table of their own.

What a call for the tenant reads and changes is all in there, so these rows alone give the same
answer, and change in the same way (`answer_ofTenant`). A call for another tenant leaves them as
they are (`ofTenant_answer_of_ne`).
-/

namespace TenantRegistry.Memory

variable {k : Kind}

namespace Table

/-- The part of a table that holds the rows of a tenant. -/
def ofTenant (t : Table k) (tenant : String) : Table k :=
  t.filter (·.1.tenant == tenant)

theorem ofTenant_cons_self {e : Key × Stored k} {tenant : String} (h : e.1.tenant = tenant)
    (t : Table k) : ofTenant (e :: t) tenant = e :: t.ofTenant tenant := by
  simp [ofTenant, h]

theorem ofTenant_cons_of_ne {e : Key × Stored k} {tenant : String} (h : e.1.tenant ≠ tenant)
    (t : Table k) : ofTenant (e :: t) tenant = t.ofTenant tenant := by
  simp [ofTenant, h]

/-! ## What is found -/

theorem find?_ofTenant (t : Table k) (tenant name : String) :
    (t.ofTenant tenant).find? ⟨tenant, name⟩ = t.find? ⟨tenant, name⟩ := by
  induction t with
  | nil => rfl
  | cons e rest ih =>
    by_cases h : e.1.tenant = tenant
    · rw [ofTenant_cons_self h, find?_cons, find?_cons, ih]
    · have hkey : e.1 ≠ ⟨tenant, name⟩ := fun heq => h (by rw [heq])
      rw [ofTenant_cons_of_ne h, find?_cons, if_neg hkey, ih]

theorem rowsOf_ofTenant (t : Table k) (tenant : String) :
    rowsOf (t.ofTenant tenant) tenant = rowsOf t tenant := by
  unfold rowsOf ofTenant
  rw [List.filter_filter]
  simp only [Bool.and_self]

/-! ## Changes -/

theorem put_of_before {t : Table k} {key : Key} (row : Stored k)
    (h : ∀ e ∈ t, key.before e.1 = true) : t.put key row = (key, row) :: t := by
  cases t with
  | nil => rfl
  | cons e rest =>
    have hfirst := h e List.mem_cons_self
    simp only [put, if_neg (Key.ne_of_before hfirst), hfirst, if_true]

/-- A row of the tenant has its place among the others of the tenant. -/
theorem ofTenant_put {t : Table k} (h : t.Pairwise fun a b => a.1.before b.1 = true) (key : Key)
    (row : Stored k) :
    (t.put key row).ofTenant key.tenant = (t.ofTenant key.tenant).put key row := by
  induction t with
  | nil => exact ofTenant_cons_self rfl []
  | cons e rest ih =>
    obtain ⟨hfirst, hrest⟩ := List.pairwise_cons.mp h
    by_cases heq : key = e.1
    · rw [ofTenant_cons_self (by rw [heq])]
      simp only [put, if_pos heq]
      exact ofTenant_cons_self rfl rest
    · by_cases hlt : key.before e.1 = true
      · -- All rows of the table come after the new one, those of the tenant among them.
        have hall : ∀ x ∈ e :: rest, key.before x.1 = true := by
          intro x hx
          rcases List.mem_cons.mp hx with rfl | hx
          · exact hlt
          · exact Key.before_trans hlt (hfirst x hx)
        have hown : ∀ x ∈ ofTenant (e :: rest) key.tenant, key.before x.1 = true :=
          fun x hx => hall x (List.mem_of_mem_filter hx)
        rw [put_of_before row hall, put_of_before row hown]
        exact ofTenant_cons_self rfl _
      · have hput : put key row (e :: rest) = e :: put key row rest := by
          simp only [put, if_neg heq, if_neg hlt]
        rw [hput]
        by_cases htenant : e.1.tenant = key.tenant
        · rw [ofTenant_cons_self htenant, ofTenant_cons_self htenant, ih hrest]
          simp only [put, if_neg heq, if_neg hlt]
        · rw [ofTenant_cons_of_ne htenant, ofTenant_cons_of_ne htenant, ih hrest]

theorem ofTenant_put_of_ne (t : Table k) {key : Key} {tenant : String} (h : key.tenant ≠ tenant)
    (row : Stored k) : (t.put key row).ofTenant tenant = t.ofTenant tenant := by
  induction t with
  | nil => exact ofTenant_cons_of_ne h []
  | cons e rest ih =>
    simp only [put]
    split
    · next heq => rw [ofTenant_cons_of_ne h, ofTenant_cons_of_ne (heq ▸ h)]
    · split
      · rw [ofTenant_cons_of_ne h]
      · by_cases htenant : e.1.tenant = tenant
        · rw [ofTenant_cons_self htenant, ofTenant_cons_self htenant, ih]
        · rw [ofTenant_cons_of_ne htenant, ofTenant_cons_of_ne htenant, ih]

theorem ofTenant_remove (t : Table k) (key : Key) (tenant : String) :
    (t.remove key).ofTenant tenant = (t.ofTenant tenant).remove key :=
  List.filter_comm _ _ t

theorem ofTenant_remove_of_ne (t : Table k) {key : Key} {tenant : String}
    (h : key.tenant ≠ tenant) : (t.remove key).ofTenant tenant = t.ofTenant tenant := by
  rw [ofTenant_remove]
  refine List.filter_eq_self.mpr fun e he => ?_
  have htenant : e.1.tenant = tenant := by simpa using (List.mem_filter.mp he).2
  have hne : e.1 ≠ key := fun heq => h (heq ▸ htenant)
  simpa using hne

end Table

open Table

/-! ## Calls -/

theorem firstTaken_ofTenant (t : Table k) (tenant : String) (seen names : List String) :
    firstTaken (t.ofTenant tenant) tenant seen names = firstTaken t tenant seen names := by
  induction names generalizing seen with
  | nil => rfl
  | cons name rest ih => simp only [firstTaken, find?_ofTenant, ih]

theorem ofTenant_putAll {t : Table k} (h : t.Proper) (tenant : String) (rows : List (Insert k)) :
    (putAll tenant rows t).ofTenant tenant = putAll tenant rows (t.ofTenant tenant) := by
  induction rows generalizing t with
  | nil => rfl
  | cons i rest ih =>
    have hput := ofTenant_put h.ordered ⟨tenant, i.name⟩ (.ofInsert i)
    rw [putAll_cons, putAll_cons, ih (h.put rfl), hput]

theorem ofTenant_putAll_of_ne (t : Table k) {tenant other : String} (h : other ≠ tenant)
    (rows : List (Insert k)) :
    (putAll other rows t).ofTenant tenant = t.ofTenant tenant := by
  induction rows generalizing t with
  | nil => rfl
  | cons i rest ih => rw [putAll_cons, ih, ofTenant_put_of_ne t h]

/-- A call is answered by the rows of its tenant alone, and changes them as it changes the table. -/
theorem answer_ofTenant {t : Table k} (h : t.Proper) (c : Call k) :
    answer (t.ofTenant c.tenant) c = ((answer t c).1, (answer t c).2.ofTenant c.tenant) := by
  cases c with
  | list tenant => simp only [answer, Call.tenant, rowsOf_ofTenant]
  | get tenant name => simp only [answer, Call.tenant, find?_ofTenant]
  | insert tenant rows =>
    simp only [answer, Call.tenant, firstTaken_ofTenant]
    split
    · rfl
    · rw [ofTenant_putAll h]
  | update tenant u =>
    simp only [answer, Call.tenant, find?_ofTenant]
    split
    · next s hs => rw [← ofTenant_put h.ordered]
    · rfl
  | delete tenant name => simp only [answer, Call.tenant, find?_ofTenant, ofTenant_remove]

/-- A call leaves the rows of other tenants as they are. -/
theorem ofTenant_answer_of_ne (t : Table k) {c : Call k} {tenant : String} (h : c.tenant ≠ tenant) :
    (answer t c).2.ofTenant tenant = t.ofTenant tenant := by
  cases c with
  | list other => rfl
  | get other name => rfl
  | insert other rows =>
    simp only [answer]
    split
    · rfl
    · exact ofTenant_putAll_of_ne t h rows
  | update other u =>
    simp only [answer]
    split
    · exact ofTenant_put_of_ne t h _
    · rfl
  | delete other name => exact ofTenant_remove_of_ne t h

end TenantRegistry.Memory
