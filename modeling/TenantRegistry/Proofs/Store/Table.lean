import Mathlib.Data.String.Basic
import TenantRegistry.Service
import TenantRegistry.Store.Memory

/-!
Tables as maps from keys to rows.

`find?_put` and `find?_remove` say what the two changes of a table do to what is found in it; they
hold of any table. `Proper` is what the changes keep besides: keys in strict order, so that none
is there twice, and every row under its own name. In a proper table the list of a tenant's rows
shows what is found, see `typeIn_rowsOf`.
-/

namespace TenantRegistry.Memory

variable {k : Kind}

/-! ## The order of keys -/

theorem Key.before_iff {a b : Key} :
    a.before b = true ↔ a.tenant < b.tenant ∨ (a.tenant = b.tenant ∧ a.name < b.name) := by
  simp only [Key.before, Bool.or_eq_true, Bool.and_eq_true, decide_eq_true_eq, beq_iff_eq]

theorem Key.ne_of_before {a b : Key} (h : a.before b = true) : a ≠ b := by
  rintro rfl
  rcases Key.before_iff.mp h with ht | ⟨_, hn⟩
  · exact lt_irrefl _ ht
  · exact lt_irrefl _ hn

theorem Key.before_trans {a b c : Key} (hab : a.before b = true) (hbc : b.before c = true) :
    a.before c = true := by
  rw [Key.before_iff] at hab hbc ⊢
  rcases hab with hab | ⟨hab, hn⟩
  · rcases hbc with hbc | ⟨hbc, _⟩
    · exact .inl (lt_trans hab hbc)
    · exact .inl (hbc ▸ hab)
  · rcases hbc with hbc | ⟨hbc, hn'⟩
    · exact .inl (hab ▸ hbc)
    · exact .inr ⟨hab.trans hbc, lt_trans hn hn'⟩

theorem Key.before_of_not_before {a b : Key} (hne : a ≠ b) (h : ¬ a.before b = true) :
    b.before a = true := by
  rw [Key.before_iff] at h ⊢
  rcases lt_trichotomy a.tenant b.tenant with ht | ht | ht
  · exact absurd (.inl ht) h
  · rcases lt_trichotomy a.name b.name with hn | hn | hn
    · exact absurd (.inr ⟨ht, hn⟩) h
    · exact absurd (by cases a; cases b; simp_all) hne
    · exact .inr ⟨ht.symm, hn⟩
  · exact .inl ht

namespace Table

/-! ## What is found -/

theorem find?_nil (key : Key) : find? ([] : Table k) key = none := rfl

theorem find?_cons (e : Key × Stored k) (t : Table k) (key : Key) :
    find? (e :: t) key = if e.1 = key then some e.2 else find? t key := by
  by_cases h : e.1 = key
  · simp [find?, h]
  · simp [find?, h, beq_eq_false_iff_ne.mpr h]

theorem find?_put (t : Table k) (key other : Key) (row : Stored k) :
    (t.put key row).find? other = if key = other then some row else t.find? other := by
  induction t with
  | nil => simp only [put, find?_cons]
  | cons e rest ih =>
    simp only [put]
    split
    · next h => simp only [find?_cons, ← h]; split <;> rfl
    · next hne =>
      split
      · simp only [find?_cons]
      · simp only [find?_cons, ih]
        by_cases h : key = other
        · rw [if_neg (fun he => hne (h.trans he.symm)), if_pos h, if_pos h]
        · simp only [if_neg h]

theorem find?_put_self (t : Table k) (key : Key) (row : Stored k) :
    (t.put key row).find? key = some row := by
  rw [find?_put, if_pos rfl]

theorem find?_put_of_ne (t : Table k) {key other : Key} (row : Stored k) (h : key ≠ other) :
    (t.put key row).find? other = t.find? other := by
  rw [find?_put, if_neg h]

theorem find?_remove (t : Table k) (key other : Key) :
    (t.remove key).find? other = if key = other then none else t.find? other := by
  induction t with
  | nil => simp [remove, find?_nil]
  | cons e rest ih =>
    have hrest : (remove rest key).find? other =
        if key = other then none else find? rest other := ih
    by_cases he : e.1 = key
    · have hcut : remove (e :: rest) key = remove rest key := by simp [remove, he]
      rw [hcut, hrest, find?_cons]
      split
      · rfl
      · next hne => rw [if_neg (fun h => hne (he.symm.trans h))]
    · have hkeep : remove (e :: rest) key = e :: remove rest key := by simp [remove, he]
      rw [hkeep, find?_cons, hrest, find?_cons]
      by_cases h : key = other
      · rw [if_pos h, if_neg (fun h' => he (h'.trans h.symm)), if_pos h]
      · rw [if_neg h, if_neg h]

theorem mem_of_find? {t : Table k} {key : Key} {row : Stored k} (h : t.find? key = some row) :
    (key, row) ∈ t := by
  induction t with
  | nil => cases h
  | cons e rest ih =>
    rw [find?_cons] at h
    split at h
    · next he => cases h; exact he ▸ List.mem_cons_self
    · exact List.mem_cons_of_mem _ (ih h)

/-! ## Proper tables -/

/-- Keys in strict order, and each row under its own name. -/
structure Proper (t : Table k) : Prop where
  ordered : t.Pairwise fun a b => a.1.before b.1 = true
  named : ∀ e ∈ t, e.2.name = e.1.name

theorem proper_nil : Proper ([] : Table k) :=
  ⟨.nil, by simp⟩

theorem mem_put {t : Table k} {key : Key} {row : Stored k} {e : Key × Stored k}
    (h : e ∈ t.put key row) : e = (key, row) ∨ e ∈ t := by
  induction t with
  | nil => simpa [put] using h
  | cons first rest ih =>
    simp only [put] at h
    split at h
    · rcases List.mem_cons.mp h with h | h
      · exact .inl h
      · exact .inr (List.mem_cons_of_mem _ h)
    · split at h
      · exact List.mem_cons.mp h
      · rcases List.mem_cons.mp h with h | h
        · exact .inr (h ▸ List.mem_cons_self)
        · exact (ih h).imp_right (List.mem_cons_of_mem _)

theorem Proper.tail {e : Key × Stored k} {t : Table k} (h : Proper (e :: t)) : Proper t :=
  ⟨h.ordered.tail, fun x hx => h.named x (List.mem_cons_of_mem _ hx)⟩

theorem ordered_put {t : Table k} (key : Key) (row : Stored k)
    (h : t.Pairwise fun a b => a.1.before b.1 = true) :
    (t.put key row).Pairwise fun a b => a.1.before b.1 = true := by
  induction t with
  | nil => exact List.pairwise_singleton _ _
  | cons e rest ih =>
    obtain ⟨hfirst, hrest⟩ := List.pairwise_cons.mp h
    simp only [put]
    split
    · next heq => exact .cons (fun x hx => heq ▸ hfirst x hx) hrest
    · next hne =>
      split
      · next hlt =>
        refine .cons (fun x hx => ?_) h
        rcases List.mem_cons.mp hx with rfl | hx
        · exact hlt
        · exact Key.before_trans hlt (hfirst x hx)
      · next hnlt =>
        refine .cons (fun x hx => ?_) (ih hrest)
        rcases mem_put hx with rfl | hx
        · exact Key.before_of_not_before hne hnlt
        · exact hfirst x hx

theorem Proper.put {t : Table k} (h : Proper t) {key : Key} {row : Stored k}
    (hname : row.name = key.name) : Proper (t.put key row) := by
  refine ⟨ordered_put key row h.ordered, fun e he => ?_⟩
  rcases mem_put he with rfl | he
  · exact hname
  · exact h.named e he

theorem Proper.remove {t : Table k} (h : Proper t) (key : Key) : Proper (t.remove key) :=
  ⟨h.ordered.filter _, fun e he => h.named e (List.mem_of_mem_filter he)⟩

theorem Proper.find?_of_mem {t : Table k} (h : Proper t) {e : Key × Stored k} (he : e ∈ t) :
    t.find? e.1 = some e.2 := by
  induction t with
  | nil => cases he
  | cons first rest ih =>
    rw [find?_cons]
    rcases List.mem_cons.mp he with rfl | he
    · rw [if_pos rfl]
    · have hlt := (List.pairwise_cons.mp h.ordered).1 e he
      rw [if_neg (Key.ne_of_before hlt), ih h.tail he]

theorem Proper.name_of_find? {t : Table k} (h : Proper t) {key : Key} {row : Stored k}
    (hrow : t.find? key = some row) : row.name = key.name :=
  h.named (key, row) (mem_of_find? hrow)

/-! ## Whole tables -/

/-- A new row joins the others. -/
theorem perm_put {t : Table k} {key : Key} (h : t.find? key = none) (row : Stored k) :
    (t.put key row).Perm ((key, row) :: t) := by
  induction t with
  | nil => exact .refl _
  | cons e rest ih =>
    rw [find?_cons] at h
    split at h
    · cases h
    · next hne =>
      simp only [put, if_neg (Ne.symm hne)]
      split
      · exact .refl _
      · exact ((ih h).cons e).trans (.swap _ _ _)

/-- A row that is there is replaced in its place. -/
theorem put_eq_map {t : Table k} (h : t.Pairwise fun a b => a.1.before b.1 = true) {key : Key}
    (hkey : ∃ e ∈ t, e.1 = key) (row : Stored k) :
    t.put key row = t.map fun e => if e.1 = key then (key, row) else e := by
  induction t with
  | nil => simp at hkey
  | cons e rest ih =>
    obtain ⟨hfirst, hrest⟩ := List.pairwise_cons.mp h
    by_cases heq : e.1 = key
    · have hothers : (rest.map fun x => if x.1 = key then (key, row) else x) = rest := by
        refine (List.map_congr_left fun x hx => if_neg fun hx' => ?_).trans (List.map_id rest)
        exact Key.ne_of_before (hfirst x hx) (heq.trans hx'.symm)
      simp only [put, if_pos heq.symm, List.map_cons, if_pos heq, hothers]
    · obtain ⟨x, hx, hxkey⟩ := hkey
      have hx : x ∈ rest := by
        rcases List.mem_cons.mp hx with rfl | hx
        · exact absurd hxkey heq
        · exact hx
      have hnot : ¬ key.before e.1 = true := fun hbefore =>
        Key.ne_of_before (Key.before_trans hbefore (hxkey ▸ hfirst x hx)) rfl
      simp only [put, if_neg (Ne.symm heq), if_neg hnot, List.map_cons, if_neg heq]
      rw [ih hrest ⟨x, hx, hxkey⟩]

/-! ## The rows of a tenant -/

theorem Proper.mem_rowsOf {t : Table k} (h : Proper t) {tenant : String} {r : Row k} :
    r ∈ rowsOf t tenant ↔ ∃ s, t.find? ⟨tenant, r.name⟩ = some s ∧ s.row = r := by
  constructor
  · intro hr
    obtain ⟨e, he, rfl⟩ := List.mem_map.mp hr
    obtain ⟨hmem, htenant⟩ := List.mem_filter.mp he
    have hkey : (⟨tenant, e.2.row.name⟩ : Key) = e.1 := by
      have ht : e.1.tenant = tenant := by simpa using htenant
      have hn : e.2.row.name = e.1.name := h.named e hmem
      rw [hn, ← ht]
    exact ⟨e.2, by rw [hkey]; exact h.find?_of_mem hmem, rfl⟩
  · rintro ⟨s, hs, rfl⟩
    refine List.mem_map.mpr ⟨(⟨tenant, s.row.name⟩, s), ?_, rfl⟩
    exact List.mem_filter.mpr ⟨mem_of_find? hs, by simp⟩

/-- The types that a listing shows are those of the rows that are found. -/
theorem Proper.typeIn_rowsOf {t : Table k} (h : Proper t) (tenant name : String) :
    Service.typeIn (rowsOf t tenant) name = (t.find? ⟨tenant, name⟩).map (·.type) := by
  unfold Service.typeIn
  cases hfound : (rowsOf t tenant).reverse.find? (·.name == name) with
  | none =>
    have hnone := List.find?_eq_none.mp hfound
    cases hs : t.find? ⟨tenant, name⟩ with
    | none => rfl
    | some s =>
      have hn : s.row.name = name := h.name_of_find? hs
      have hmem : s.row ∈ rowsOf t tenant := h.mem_rowsOf.mpr ⟨s, by rw [hn]; exact hs, rfl⟩
      exact absurd (by simp [hn]) (hnone s.row (List.mem_reverse.mpr hmem))
  | some r =>
    have hn : r.name = name := by simpa using List.find?_some hfound
    obtain ⟨s, hs, rfl⟩ := h.mem_rowsOf.mp (List.mem_reverse.mp (List.mem_of_find?_eq_some hfound))
    rw [hn] at hs
    rw [hs]
    rfl

end Table
end TenantRegistry.Memory
