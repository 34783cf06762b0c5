import TenantRegistry.Proofs.Store.Table

/-!
What the calls do to the memory store.

`rowStep_answer` says everything that a call can do to the row under a key: keep it, insert it
where there was none, give it new content, or delete it. The rest is about whole calls: an insert
succeeds exactly when none of its names is taken, and then puts all its rows; updates leave the
content of the last one. `Reachable` are the states that calls lead to; their tables are proper.
-/

namespace TenantRegistry.Memory

variable {k : Kind}

/-! ## Inserts -/

theorem firstTaken_eq_none_iff {t : Table k} {tenant : String} {seen names : List String} :
    firstTaken t tenant seen names = none ↔
      (∀ n ∈ names, t.find? ⟨tenant, n⟩ = none ∧ n ∉ seen) ∧ names.Nodup := by
  induction names generalizing seen with
  | nil => simp [firstTaken]
  | cons name rest ih =>
    simp only [firstTaken]
    split
    · next h =>
      refine iff_of_false (by simp) (fun ⟨hfree, _⟩ => ?_)
      obtain ⟨hnone, hseen⟩ := hfree name List.mem_cons_self
      simp [hnone, hseen] at h
    · next h =>
      simp only [Bool.or_eq_true, not_or, Bool.not_eq_true, Option.isSome_eq_false_iff,
        Option.isNone_iff_eq_none, List.contains_eq_mem, decide_eq_false_iff_not] at h
      rw [ih]
      -- The name joins those that are seen, so the rest is free of it exactly if it has no repeat.
      constructor
      · rintro ⟨hfree, hnodup⟩
        have hnot : name ∉ rest := fun hmem => (hfree name hmem).2 List.mem_cons_self
        refine ⟨fun n hn => ?_, List.nodup_cons.mpr ⟨hnot, hnodup⟩⟩
        rcases List.mem_cons.mp hn with rfl | hn
        · exact h
        · exact ⟨(hfree n hn).1, fun hs => (hfree n hn).2 (List.mem_cons_of_mem _ hs)⟩
      · rintro ⟨hfree, hnodup⟩
        obtain ⟨hnot, hrest⟩ := List.nodup_cons.mp hnodup
        refine ⟨fun n hn => ⟨(hfree n (List.mem_cons_of_mem _ hn)).1, fun hs => ?_⟩, hrest⟩
        rcases List.mem_cons.mp hs with rfl | hs
        · exact hnot hn
        · exact (hfree n (List.mem_cons_of_mem _ hn)).2 hs

theorem putAll_cons (tenant : String) (i : Insert k) (rows : List (Insert k)) (t : Table k) :
    putAll tenant (i :: rows) t = putAll tenant rows (t.put ⟨tenant, i.name⟩ (.ofInsert i)) := rfl

theorem find?_putAll_of_not_mem {tenant : String} {rows : List (Insert k)} {key : Key}
    (h : ∀ i ∈ rows, (⟨tenant, i.name⟩ : Key) ≠ key) (t : Table k) :
    (putAll tenant rows t).find? key = t.find? key := by
  induction rows generalizing t with
  | nil => rfl
  | cons i rest ih =>
    rw [putAll_cons, ih (fun x hx => h x (List.mem_cons_of_mem _ hx)),
      Table.find?_put_of_ne t _ (h i List.mem_cons_self)]

theorem find?_putAll_of_mem {tenant : String} {rows : List (Insert k)} {i : Insert k}
    (hnodup : (rows.map (·.name)).Nodup) (hi : i ∈ rows) (t : Table k) :
    (putAll tenant rows t).find? ⟨tenant, i.name⟩ = some (.ofInsert i) := by
  induction rows generalizing t with
  | nil => cases hi
  | cons first rest ih =>
    obtain ⟨hfirst, hrest⟩ := List.nodup_cons.mp hnodup
    rw [putAll_cons]
    rcases List.mem_cons.mp hi with rfl | hi
    · rw [find?_putAll_of_not_mem ?_, Table.find?_put_self]
      intro x hx heq
      have hname : x.name = i.name := by simpa using heq
      exact hfirst (List.mem_map.mpr ⟨x, hx, hname⟩)
    · exact ih hrest hi _

theorem Table.Proper.putAll {t : Table k} (h : t.Proper) (tenant : String)
    (rows : List (Insert k)) : (putAll tenant rows t).Proper := by
  induction rows generalizing t with
  | nil => exact h
  | cons i rest ih => exact ih (h.put rfl)

/-- New rows join the others. -/
theorem perm_putAll {t : Table k} {tenant : String} {rows : List (Insert k)}
    (hfree : ∀ i ∈ rows, t.find? ⟨tenant, i.name⟩ = none) (hnodup : (rows.map (·.name)).Nodup) :
    (putAll tenant rows t).Perm (t ++ rows.map fun i => (⟨tenant, i.name⟩, .ofInsert i)) := by
  induction rows generalizing t with
  | nil => rw [List.map_nil, List.append_nil]; exact .refl _
  | cons i rest ih =>
    obtain ⟨hnot, hrest⟩ := List.nodup_cons.mp hnodup
    rw [putAll_cons]
    refine (ih (fun x hx => ?_) hrest).trans ?_
    · have hne : (⟨tenant, i.name⟩ : Key) ≠ ⟨tenant, x.name⟩ := fun heq =>
        hnot (List.mem_map.mpr ⟨x, hx, (Key.mk.inj heq).2.symm⟩)
      rw [Table.find?_put_of_ne _ _ hne]
      exact hfree x (List.mem_cons_of_mem _ hx)
    · have hput := Table.perm_put (hfree i List.mem_cons_self) (.ofInsert i)
      exact (hput.append_right _).trans List.perm_middle.symm

/-! ## Single calls -/

theorem answer_insert_of_free {t : Table k} {tenant : String} {rows : List (Insert k)}
    (hfree : ∀ i ∈ rows, t.find? ⟨tenant, i.name⟩ = none) (hnodup : (rows.map (·.name)).Nodup) :
    answer t (.insert tenant rows) = (.ok (), putAll tenant rows t) := by
  have h : firstTaken t tenant [] (rows.map (·.name)) = none :=
    firstTaken_eq_none_iff.mpr ⟨by simpa using hfree, hnodup⟩
  simp only [answer, h]

/-- An insert either finds a name taken and changes nothing, or all its names are new. -/
theorem answer_insert_cases (t : Table k) (tenant : String) (rows : List (Insert k)) :
    (∃ detail, answer t (.insert tenant rows) = (.error (.conflict detail), t)) ∨
    (answer t (.insert tenant rows) = (.ok (), putAll tenant rows t) ∧
      (∀ i ∈ rows, t.find? ⟨tenant, i.name⟩ = none) ∧ (rows.map (·.name)).Nodup) := by
  cases h : firstTaken t tenant [] (rows.map (·.name)) with
  | some name =>
    exact .inl ⟨"duplicate key for tenant " ++ tenant ++ " and name " ++ name, by
      simp only [answer, h]⟩
  | none =>
    obtain ⟨hfree, hnodup⟩ := firstTaken_eq_none_iff.mp h
    exact .inr ⟨by simp only [answer, h], by simpa using hfree, hnodup⟩

theorem answer_update_fst (t : Table k) (tenant : String) (u : Update k) :
    (answer t (.update tenant u)).1 = .ok () := by
  simp only [answer]
  split <;> rfl

theorem find?_answer_update (t : Table k) (tenant : String) (u : Update k) (key : Key) :
    (answer t (.update tenant u)).2.find? key =
      if (⟨tenant, u.name⟩ : Key) = key then (t.find? key).map (·.updated u)
      else t.find? key := by
  simp only [answer]
  split
  · next s hs =>
    rw [Table.find?_put]
    split
    · next h => rw [← h, hs]; rfl
    · rfl
  · next hs =>
    split
    · next h => rw [← h, hs]; rfl
    · rfl

/-- In a proper table an update touches the row under its key alone. -/
theorem answer_update_snd {t : Table k} (h : t.Proper) (tenant : String) (u : Update k) :
    (answer t (.update tenant u)).2 =
      t.map fun e => if e.1 = ⟨tenant, u.name⟩ then (e.1, e.2.updated u) else e := by
  simp only [answer]
  cases hs : t.find? ⟨tenant, u.name⟩ with
  | none =>
    refine ((List.map_congr_left fun e he => if_neg fun hkey => ?_).trans (List.map_id t)).symm
    have hrow := h.find?_of_mem he
    rw [hkey, hs] at hrow
    cases hrow
  | some s =>
    refine (Table.put_eq_map h.ordered ⟨_, Table.mem_of_find? hs, rfl⟩ _).trans ?_
    refine List.map_congr_left fun e he => ?_
    split
    · next hkey =>
      have hrow := h.find?_of_mem he
      rw [hkey, hs] at hrow
      rw [hkey, Option.some.inj hrow]
    · rfl

theorem Table.Proper.answer {t : Table k} (h : t.Proper) (c : Call k) :
    (answer t c).2.Proper := by
  cases c with
  | list tenant => exact h
  | get tenant name => exact h
  | insert tenant rows =>
    rcases answer_insert_cases t tenant rows with ⟨_, heq⟩ | ⟨heq, _⟩
    · rw [heq]; exact h
    · rw [heq]; exact h.putAll tenant rows
  | update tenant u =>
    simp only [Memory.answer]
    split
    · next s hs =>
      have hname : (s.updated u).name = u.name := h.name_of_find? hs
      exact h.put hname
    · exact h
  | delete tenant name => exact h.remove _

/-- What a call may do to the row under a key. -/
inductive RowStep (c : Call k) (key : Key) : Option (Stored k) → Option (Stored k) → Prop
  | kept (old : Option (Stored k)) : RowStep c key old old
  | inserted {tenant : String} {rows : List (Insert k)} {i : Insert k} :
      c = .insert tenant rows → i ∈ rows → key = ⟨tenant, i.name⟩ →
      RowStep c key none (some (.ofInsert i))
  | updated {tenant : String} {u : Update k} (old : Stored k) :
      c = .update tenant u → key = ⟨tenant, u.name⟩ →
      RowStep c key (some old) (some (old.updated u))
  | deleted {tenant name : String} (old : Option (Stored k)) :
      c = .delete tenant name → key = ⟨tenant, name⟩ → RowStep c key old none

theorem rowStep_answer (t : Table k) (c : Call k) (key : Key) :
    RowStep c key (t.find? key) ((answer t c).2.find? key) := by
  cases c with
  | list tenant => exact .kept _
  | get tenant name => exact .kept _
  | insert tenant rows =>
    rcases answer_insert_cases t tenant rows with ⟨_, heq⟩ | ⟨heq, hfree, hnodup⟩
    · rw [heq]; exact .kept _
    · rw [heq]
      by_cases hmem : ∃ i ∈ rows, (⟨tenant, i.name⟩ : Key) = key
      · obtain ⟨i, hi, rfl⟩ := hmem
        rw [hfree i hi, find?_putAll_of_mem hnodup hi]
        exact .inserted rfl hi rfl
      · rw [find?_putAll_of_not_mem (fun i hi heq => hmem ⟨i, hi, heq⟩)]
        exact .kept _
  | update tenant u =>
    rw [find?_answer_update]
    split
    · next h =>
      cases hs : t.find? key with
      | none => exact .kept none
      | some s => exact .updated s rfl h.symm
    · exact .kept _
  | delete tenant name =>
    have h : (answer t (.delete tenant name)).2 = t.remove ⟨tenant, name⟩ := rfl
    rw [h, Table.find?_remove]
    split
    · next h => exact .deleted _ rfl h.symm
    · exact .kept _

/-! ## Updates one after the other -/

/-- The table after some updates. -/
def updateAll (tenant : String) (updates : List (Update k)) (t : Table k) : Table k :=
  updates.foldl (fun t u => (answer t (.update tenant u)).2) t

theorem updateAll_append (tenant : String) (us vs : List (Update k)) (t : Table k) :
    updateAll tenant (us ++ vs) t = updateAll tenant vs (updateAll tenant us t) :=
  List.foldl_append

theorem find?_updateAll_of_not_mem {tenant : String} {updates : List (Update k)} {key : Key}
    (h : ∀ u ∈ updates, (⟨tenant, u.name⟩ : Key) ≠ key) (t : Table k) :
    (updateAll tenant updates t).find? key = t.find? key := by
  induction updates generalizing t with
  | nil => rfl
  | cons u rest ih =>
    have hrest := ih (fun x hx => h x (List.mem_cons_of_mem _ hx)) (answer t (.update tenant u)).2
    rw [find?_answer_update, if_neg (h u List.mem_cons_self)] at hrest
    exact hrest

/-- A row that has been updated differs from the one before only in what any further update
replaces. -/
theorem exists_find?_updateAll (tenant : String) (updates : List (Update k)) {key : Key}
    {t : Table k} {s : Stored k} (h : t.find? key = some s) :
    ∃ s', (updateAll tenant updates t).find? key = some s' ∧ ∀ u, s'.updated u = s.updated u := by
  induction updates generalizing t s with
  | nil => exact ⟨s, h, fun _ => rfl⟩
  | cons u rest ih =>
    have hstep := find?_answer_update t tenant u key
    rw [h] at hstep
    split at hstep
    · obtain ⟨s', hs', hupd⟩ := ih hstep
      exact ⟨s', hs', fun v => (hupd v).trans rfl⟩
    · exact ih hstep

/-- The last update of a name decides. -/
theorem find?_updateAll_last {tenant : String} {before after : List (Update k)} {u : Update k}
    {t : Table k} {s : Stored k} (h : t.find? ⟨tenant, u.name⟩ = some s)
    (hlast : ∀ x ∈ after, x.name ≠ u.name) :
    (updateAll tenant (before ++ u :: after) t).find? ⟨tenant, u.name⟩ = some (s.updated u) := by
  obtain ⟨s', hs', hupd⟩ := exists_find?_updateAll tenant before h
  rw [updateAll_append]
  have hafter : ∀ x ∈ after, (⟨tenant, x.name⟩ : Key) ≠ ⟨tenant, u.name⟩ :=
    fun x hx heq => hlast x hx (by simpa using heq)
  calc (updateAll tenant (u :: after) (updateAll tenant before t)).find? ⟨tenant, u.name⟩
      = (answer (updateAll tenant before t) (.update tenant u)).2.find? ⟨tenant, u.name⟩ :=
        find?_updateAll_of_not_mem hafter _
    _ = some (s.updated u) := by
        rw [find?_answer_update, if_pos rfl, hs', Option.map_some, hupd]

/-! ## States -/

namespace State

@[simp]
theorem table_withTable (s : State) (t : Table k) : (s.withTable t).table k = t := by
  cases k <;> rfl

theorem table_withTable_of_ne (s : State) (t : Table k) {other : Kind} (h : other ≠ k) :
    (s.withTable t).table other = s.table other := by
  cases k <;> cases other <;> first | rfl | exact absurd rfl h

@[simp]
theorem withTable_withTable (s : State) (t u : Table k) :
    (s.withTable t).withTable u = s.withTable u := by
  cases k <;> rfl

@[simp]
theorem withTable_table (s : State) : s.withTable (s.table k) = s := by
  cases k <;> rfl

end State

theorem store_apply (c : Call k) (s : State) :
    store k c s = ((answer (s.table k) c).1, s.withTable (answer (s.table k) c).2) := rfl

/-- An insert fails with a conflict and changes nothing, or all its names are new and it goes
through. -/
theorem store_insert_taken_or_free (s : State) (tenant : String) (rows : List (Insert k)) :
    (∃ detail, store k (.insert tenant rows) s = (.error (.conflict detail), s)) ∨
    (store k (.insert tenant rows) s = (.ok (), s.withTable (putAll tenant rows (s.table k))) ∧
      (∀ i ∈ rows, (s.table k).find? ⟨tenant, i.name⟩ = none) ∧ (rows.map (·.name)).Nodup) := by
  rw [store_apply]
  rcases answer_insert_cases (s.table k) tenant rows with ⟨detail, heq⟩ | ⟨heq, hfree⟩
  · exact .inl ⟨detail, by rw [heq, State.withTable_table]⟩
  · exact .inr ⟨by rw [heq], hfree⟩

/-- An insert fails with a conflict and changes nothing, or it goes through. -/
theorem store_insert_cases (s : State) (tenant : String) (rows : List (Insert k)) :
    (∃ detail, store k (.insert tenant rows) s = (.error (.conflict detail), s)) ∨
      (store k (.insert tenant rows) s).1 = .ok () :=
  (store_insert_taken_or_free s tenant rows).imp_right fun h => congrArg Prod.fst h.1

/-- The states that calls lead to from the empty one. -/
inductive Reachable : State → Prop
  | empty : Reachable .empty
  | call {s : State} {k : Kind} (c : Call k) : Reachable s → Reachable (store k c s).2

theorem Reachable.proper {s : State} (h : Reachable s) (k : Kind) : (s.table k).Proper := by
  induction h with
  | empty => cases k <;> exact Table.proper_nil
  | @call s k' c _ ih =>
    rw [store_apply]
    by_cases hk : k = k'
    · subst hk
      rw [State.table_withTable]
      exact ih.answer c
    · rw [State.table_withTable_of_ne _ _ hk]
      exact ih

end TenantRegistry.Memory
