import Mathlib.Data.List.Induction
import Mathlib.Data.List.Nodup
import Mathlib.Data.String.Basic
import TenantRegistry.Json.Basic

/-!
Objects as insertions build them.

Whatever is inserted in whatever order, the keys come out in strict order (`exists_ofEntries`). If
no key comes twice, nothing is lost: the entries of the object are those that were inserted, so two
lists of entries make the same object exactly if one is the other in another order
(`ofEntries_eq_iff`). Otherwise the last entry of each key is left
(`ofEntries_of_isObjectOf`).
-/

namespace TenantRegistry.Json

/-! ## One insertion -/

theorem mem_insert {key : String} {value : Json} {entries : List (String × Json)}
    {e : String × Json} (h : e ∈ insert key value entries) : e = (key, value) ∨ e ∈ entries := by
  induction entries with
  | nil => simpa [insert] using h
  | cons first rest ih =>
    simp only [insert] at h
    split at h
    · rcases List.mem_cons.mp h with h | h
      · exact .inl h
      · exact .inr (List.mem_cons_of_mem _ h)
    · split at h
      · exact List.mem_cons.mp h
      · rcases List.mem_cons.mp h with h | h
        · exact .inr (h ▸ List.mem_cons_self)
        · exact (ih h).imp_right (List.mem_cons_of_mem _)

theorem ordered_insert {entries : List (String × Json)} (key : String) (value : Json)
    (h : entries.Pairwise fun a b => a.1 < b.1) :
    (insert key value entries).Pairwise fun a b => a.1 < b.1 := by
  induction entries with
  | nil => exact List.pairwise_singleton _ _
  | cons e rest ih =>
    obtain ⟨hfirst, hrest⟩ := List.pairwise_cons.mp h
    simp only [insert]
    split
    · next heq => exact .cons (fun x hx => heq ▸ hfirst x hx) hrest
    · next hne =>
      split
      · next hlt =>
        refine .cons (fun x hx => ?_) h
        rcases List.mem_cons.mp hx with rfl | hx
        · exact hlt
        · exact lt_trans hlt (hfirst x hx)
      · next hnlt =>
        refine .cons (fun x hx => ?_) (ih hrest)
        rcases mem_insert hx with rfl | hx
        · exact lt_of_le_of_ne (not_lt.mp hnlt) (Ne.symm hne)
        · exact hfirst x hx

theorem mem_keys_insert {key other : String} {value : Json} {entries : List (String × Json)} :
    other ∈ (insert key value entries).map (·.1) ↔ other = key ∨ other ∈ entries.map (·.1) := by
  induction entries with
  | nil => simp [insert]
  | cons e rest ih =>
    simp only [insert]
    split
    · next heq => simp [heq]
    · split
      · simp
      · simp only [List.map_cons, List.mem_cons, ih]
        tauto

theorem perm_insert {key : String} {entries : List (String × Json)}
    (h : key ∉ entries.map (·.1)) (value : Json) :
    (insert key value entries).Perm ((key, value) :: entries) := by
  induction entries with
  | nil => exact .refl _
  | cons e rest ih =>
    rw [List.map_cons, List.mem_cons, not_or] at h
    obtain ⟨hne, hrest⟩ := h
    simp only [insert, if_neg hne]
    split
    · exact .refl _
    · exact ((ih hrest).cons e).trans (.swap _ _ _)

/-! ## All insertions -/

/-- The entries after some more insertions. -/
def insertAll (acc entries : List (String × Json)) : List (String × Json) :=
  entries.foldl (fun acc e => insert e.1 e.2 acc) acc

theorem ofEntries_eq (entries : List (String × Json)) :
    ofEntries entries = .object (insertAll [] entries) := rfl

theorem ordered_insertAll {acc : List (String × Json)} (entries : List (String × Json))
    (h : acc.Pairwise fun a b => a.1 < b.1) :
    (insertAll acc entries).Pairwise fun a b => a.1 < b.1 := by
  induction entries generalizing acc with
  | nil => exact h
  | cons e rest ih => exact ih (ordered_insert e.1 e.2 h)

theorem exists_ofEntries (entries : List (String × Json)) :
    ∃ es : List (String × Json), ofEntries entries = .object es ∧
      es.Pairwise fun a b => a.1 < b.1 :=
  ⟨_, rfl, ordered_insertAll entries .nil⟩

theorem mem_keys_insertAll {acc entries : List (String × Json)} {key : String} :
    key ∈ (insertAll acc entries).map (·.1) ↔
      key ∈ acc.map (·.1) ∨ key ∈ entries.map (·.1) := by
  induction entries generalizing acc with
  | nil => simp [insertAll]
  | cons e rest ih =>
    show key ∈ (insertAll (insert e.1 e.2 acc) rest).map (·.1) ↔ _
    rw [ih, mem_keys_insert, List.map_cons, List.mem_cons]
    tauto

theorem perm_insertAll {acc entries : List (String × Json)}
    (h : ((acc ++ entries).map (·.1)).Nodup) : (insertAll acc entries).Perm (acc ++ entries) := by
  induction entries generalizing acc with
  | nil => rw [List.append_nil]; exact .refl _
  | cons e rest ih =>
    have hmiddle : ((acc ++ e :: rest).map (·.1)).Perm (((e :: acc) ++ rest).map (·.1)) :=
      List.perm_middle.map _
    have hnew : e.1 ∉ acc.map (·.1) := by
      have hnodup := hmiddle.nodup_iff.mp h
      rw [List.cons_append, List.map_cons, List.map_append, List.nodup_cons] at hnodup
      exact fun hmem => hnodup.1 (List.mem_append_left _ hmem)
    have hinsert : (insert e.1 e.2 acc).Perm (e :: acc) := perm_insert hnew e.2
    have happend : (insert e.1 e.2 acc ++ rest).Perm (acc ++ e :: rest) :=
      (hinsert.append_right rest).trans List.perm_middle.symm
    exact (ih ((happend.map _).nodup_iff.mpr h)).trans happend

/-- If no key comes twice, an object keeps all its entries. -/
theorem perm_ofEntries {entries es : List (String × Json)} (h : (entries.map (·.1)).Nodup)
    (heq : ofEntries entries = .object es) : es.Perm entries := by
  rw [ofEntries_eq] at heq
  cases heq
  exact perm_insertAll h

theorem eq_of_perm_of_ordered {es es' : List (String × Json)}
    (h : es.Pairwise fun a b => a.1 < b.1) (h' : es'.Pairwise fun a b => a.1 < b.1)
    (hperm : es.Perm es') : es = es' :=
  hperm.eq_of_pairwise (fun _ _ _ _ hab hba => absurd hab (lt_asymm hba)) h h'

/-- Entries in order make the object they are. -/
theorem ofEntries_of_ordered {entries : List (String × Json)}
    (h : entries.Pairwise fun a b => a.1 < b.1) : ofEntries entries = .object entries := by
  have hnodup : (entries.map (·.1)).Nodup := List.pairwise_map.mpr (h.imp ne_of_lt)
  obtain ⟨es, heq, hordered⟩ := exists_ofEntries entries
  rw [heq, eq_of_perm_of_ordered hordered h (perm_ofEntries hnodup heq)]

/-- Two lists of entries make the same object exactly if they differ in order alone. -/
theorem ofEntries_eq_iff {entries entries' : List (String × Json)}
    (h : (entries.map (·.1)).Nodup) (h' : (entries'.map (·.1)).Nodup) :
    ofEntries entries = ofEntries entries' ↔ entries.Perm entries' := by
  obtain ⟨es, heq, hordered⟩ := exists_ofEntries entries
  obtain ⟨es', heq', hordered'⟩ := exists_ofEntries entries'
  have hperm := perm_ofEntries h heq
  have hperm' := perm_ofEntries h' heq'
  rw [heq, heq', Json.object.injEq]
  constructor
  · rintro rfl
    exact hperm.symm.trans hperm'
  · intro hentries
    exact eq_of_perm_of_ordered hordered hordered' ((hperm.trans hentries).trans hperm'.symm)

/-! ## Objects of entries -/

/-- The object that some entries make: each key in its place, with the value of its last entry. -/
structure IsObjectOf (entries fields : List (String × Json)) : Prop where
  ordered : fields.Pairwise fun a b => a.1 < b.1
  last : ∀ k v, (k, v) ∈ fields ↔
    ∃ earlier later, entries = earlier ++ (k, v) :: later ∧ k ∉ later.map (·.1)

theorem mem_insert_iff {key k : String} {value v : Json} {entries : List (String × Json)}
    (h : entries.Pairwise fun a b => a.1 < b.1) :
    (k, v) ∈ insert key value entries ↔
      k = key ∧ v = value ∨ k ≠ key ∧ (k, v) ∈ entries := by
  induction entries with
  | nil => simp [insert]
  | cons e rest ih =>
    obtain ⟨k', v'⟩ := e
    obtain ⟨hfirst, hrest⟩ := List.pairwise_cons.mp h
    have hlater : (k, v) ∈ rest → k' < k := hfirst (k, v)
    simp only [insert]
    split
    · next heq => grind
    · next hne =>
      split
      · next hlt =>
        have hafter : (k, v) ∈ rest → key < k := fun hmem => lt_trans hlt (hlater hmem)
        grind
      · grind

/-- The last entry of a key, after one more entry. -/
theorem last_concat_iff {key k : String} {value v : Json} {entries : List (String × Json)} :
    (∃ earlier later, entries ++ [(key, value)] = earlier ++ (k, v) :: later ∧
        k ∉ later.map (·.1)) ↔
      k = key ∧ v = value ∨ k ≠ key ∧
        ∃ earlier later, entries = earlier ++ (k, v) :: later ∧ k ∉ later.map (·.1) := by
  constructor
  · rintro ⟨earlier, later, heq, hlater⟩
    rcases List.eq_nil_or_concat later with rfl | ⟨later, e, rfl⟩
    · obtain ⟨-, hlast⟩ := List.append_inj' heq rfl
      obtain ⟨rfl, rfl⟩ := Prod.mk.inj (List.singleton_inj.mp hlast)
      exact .inl ⟨rfl, rfl⟩
    · rw [List.concat_eq_append, ← List.cons_append, ← List.append_assoc] at heq
      obtain ⟨hentries, hlast⟩ := List.append_inj' heq rfl
      rw [List.concat_eq_append, List.map_append, List.mem_append, not_or,
        ← List.singleton_inj.mp hlast] at hlater
      exact .inr ⟨fun hk => hlater.2 (List.mem_singleton.mpr hk), earlier, later, hentries,
        hlater.1⟩
  · rintro (⟨rfl, rfl⟩ | ⟨hne, earlier, later, rfl, hlater⟩)
    · exact ⟨entries, [], rfl, List.not_mem_nil⟩
    · refine ⟨earlier, later ++ [(key, value)], by simp, ?_⟩
      rw [List.map_append, List.mem_append, not_or]
      exact ⟨hlater, fun hk => hne (List.mem_singleton.mp hk)⟩

theorem isObjectOf_insertAll (entries : List (String × Json)) :
    IsObjectOf entries (insertAll [] entries) := by
  refine ⟨ordered_insertAll entries .nil, ?_⟩
  induction entries using List.reverseRecOn with
  | nil => simp [insertAll]
  | append_singleton entries e ih =>
    obtain ⟨key, value⟩ := e
    intro k v
    have hstep : insertAll [] (entries ++ [(key, value)]) =
        insert key value (insertAll [] entries) := by
      rw [insertAll, List.foldl_append]
      rfl
    rw [hstep, mem_insert_iff (ordered_insertAll entries .nil), ih k v, last_concat_iff]

theorem IsObjectOf.unique {entries fields fields' : List (String × Json)}
    (h : IsObjectOf entries fields) (h' : IsObjectOf entries fields') : fields = fields' := by
  have hnodup {es : List (String × Json)} (hes : es.Pairwise fun a b => a.1 < b.1) : es.Nodup :=
    hes.imp fun hlt heq => absurd (heq ▸ hlt) (lt_irrefl _)
  refine eq_of_perm_of_ordered h.ordered h'.ordered ?_
  rw [List.perm_ext_iff_of_nodup (hnodup h.ordered) (hnodup h'.ordered)]
  rintro ⟨k, v⟩
  rw [h.last, h'.last]

theorem ofEntries_of_isObjectOf {entries fields : List (String × Json)}
    (h : IsObjectOf entries fields) : ofEntries entries = .object fields := by
  rw [ofEntries_eq, (isObjectOf_insertAll entries).unique h]

/-- Entries in order are the object they make. -/
theorem isObjectOf_of_ordered {fields : List (String × Json)}
    (h : fields.Pairwise fun a b => a.1 < b.1) : IsObjectOf fields fields := by
  have hself : insertAll [] fields = fields := by
    have heq := ofEntries_of_ordered h
    rw [ofEntries_eq] at heq
    exact Json.object.inj heq
  have hobject := isObjectOf_insertAll fields
  rwa [hself] at hobject

end TenantRegistry.Json
