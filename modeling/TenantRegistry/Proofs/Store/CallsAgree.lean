import TenantRegistry.Proofs.Store.Answers
import TenantRegistry.Proofs.Text.OctetOrder

/-!
The five calls of the memory store agree with one another.

A listing is the measure of the other four. In every reachable state a tenant's rows are listed
once each, in the order of the octets of their names; a get finds what is listed, an insert goes
through exactly if none of its names is listed or given twice and adds its rows to the listing, an
update changes the content of one row and a delete takes out the row that a get gives:
`calls_agree`. Deleting what was inserted leaves the state as it was (`deleteAll_inserted`).
-/

namespace TenantRegistry.Memory

variable {k : Kind}

/-- An insert of a tenant's rows has led from one state to another: the rows have their places in
the table of their kind and in the listing, and nothing else is changed. -/
structure Inserted (tenant : String) (rows : List (Insert k)) (s s' : State) : Prop where
  table : (s'.table k).Perm (s.table k ++ rows.map fun i => (⟨tenant, i.name⟩, .ofInsert i))
  listed : (rowsOf (s'.table k) tenant).Perm
    (rowsOf (s.table k) tenant ++ rows.map fun i => (Stored.ofInsert i).row)
  sorted : (rowsOf (s'.table k) tenant).Pairwise fun a b =>
    Utf8.ofString a.name < Utf8.ofString b.name
  otherTenants : ∀ other ≠ tenant, rowsOf (s'.table k) other = rowsOf (s.table k) other
  otherKind : ∀ other ≠ k, s'.table other = s.table other

/-- The state after deletes of some names. -/
def deleteAll (k : Kind) (tenant : String) (names : List String) (s : State) : State :=
  names.foldl (fun s name => (store k (.delete tenant name) s).2) s

/-- What the five calls on a kind say of a state, and do to it, fits together. -/
structure CallsAgree (s : State) (k : Kind) : Prop where
  /-- A listing has the rows of the tenant and no others, each once, in the order of their names. -/
  list : ∀ tenant, store k (.list tenant) s = (.ok (rowsOf (s.table k) tenant), s) ∧
    (∀ r, r ∈ rowsOf (s.table k) tenant ↔
      ∃ stored, ((⟨tenant, r.name⟩ : Key), stored) ∈ s.table k ∧ stored.row = r) ∧
    (rowsOf (s.table k) tenant).Pairwise fun a b => Utf8.ofString a.name < Utf8.ofString b.name
  /-- A get gives the listed row of the name. -/
  get : ∀ tenant name, ∃ found, store k (.get tenant name) s = (.ok found, s) ∧
    ∀ r, found = some r ↔ r ∈ rowsOf (s.table k) tenant ∧ r.name = name
  /-- An insert goes through exactly if no name is listed or given twice; else nothing changes. -/
  insert : ∀ tenant (rows : List (Insert k)),
    ((store k (.insert tenant rows) s).1 = .ok () ↔
      (∀ i ∈ rows, ∀ r ∈ rowsOf (s.table k) tenant, r.name ≠ i.name) ∧
        (rows.map (·.name)).Nodup) ∧
    ((store k (.insert tenant rows) s).1 = .ok () ∧
        Inserted tenant rows s (store k (.insert tenant rows) s).2 ∨
      ∃ detail, store k (.insert tenant rows) s = (.error (.conflict detail), s))
  /-- An update changes payload and time of update of the row with its name, and nothing if there is
  none. -/
  update : ∀ tenant (u : Update k),
    store k (.update tenant u) s = (.ok (), s.withTable ((s.table k).map fun e =>
      if e.1 = ⟨tenant, u.name⟩ then
        (e.1, { e.2 with payload := u.payload, updatedAt := u.updatedAt.text })
      else e)) ∧
    ((∀ r ∈ rowsOf (s.table k) tenant, r.name ≠ u.name) →
      store k (.update tenant u) s = (.ok (), s))
  /-- A delete gives what a get gives and takes that row out. -/
  delete : ∀ tenant name, ∃ found, store k (.get tenant name) s = (.ok found, s) ∧
    store k (.delete tenant name) s =
      (.ok found, s.withTable ((s.table k).filter (·.1 ≠ ⟨tenant, name⟩))) ∧
    (store k (.get tenant name) (store k (.delete tenant name) s).2).1 = .ok none
  /-- What was inserted and is deleted again, in whatever order, leaves no trace. -/
  restore : ∀ tenant (rows : List (Insert k)) names,
    (store k (.insert tenant rows) s).1 = .ok () → names.Perm (rows.map (·.name)) →
      deleteAll k tenant names (store k (.insert tenant rows) s).2 = s

/-! ## Listings -/

namespace Table

theorem Proper.mem_rowsOf_iff_mem {t : Table k} (h : t.Proper) {tenant : String} {r : Row k} :
    r ∈ rowsOf t tenant ↔ ∃ stored, ((⟨tenant, r.name⟩ : Key), stored) ∈ t ∧ stored.row = r := by
  rw [h.mem_rowsOf]
  refine exists_congr fun stored => and_congr_left fun _ => ⟨mem_of_find?, fun hmem => ?_⟩
  exact h.find?_of_mem hmem

/-- The rows of a tenant are in the order of the octets of their names. -/
theorem Proper.rowsOf_sorted {t : Table k} (h : t.Proper) (tenant : String) :
    (rowsOf t tenant).Pairwise fun a b => Utf8.ofString a.name < Utf8.ofString b.name := by
  refine List.pairwise_map.mpr ((h.ordered.filter _).imp_of_mem fun {a b} ha hb hab => ?_)
  obtain ⟨hma, hta⟩ := List.mem_filter.mp ha
  obtain ⟨hmb, htb⟩ := List.mem_filter.mp hb
  have htenant : a.1.tenant = b.1.tenant :=
    (beq_iff_eq.mp hta).trans (beq_iff_eq.mp htb).symm
  show Utf8.ofString a.2.name < Utf8.ofString b.2.name
  rw [h.named a hma, h.named b hmb]
  rcases Key.before_iff.mp hab with hlt | ⟨_, hlt⟩
  · exact absurd (htenant ▸ hlt) (lt_irrefl _)
  · exact Utf8.ofString_lt hlt

/-- A name is free exactly if no row with it is listed. -/
theorem Proper.find?_eq_none_iff {t : Table k} (h : t.Proper) {tenant name : String} :
    t.find? ⟨tenant, name⟩ = none ↔ ∀ r ∈ rowsOf t tenant, r.name ≠ name := by
  constructor
  · rintro hnone r hr rfl
    obtain ⟨stored, hstored, -⟩ := h.mem_rowsOf.mp hr
    rw [hnone] at hstored
    cases hstored
  · intro hall
    cases hfound : t.find? ⟨tenant, name⟩ with
    | none => rfl
    | some stored =>
      have hname : stored.row.name = name := h.name_of_find? hfound
      have hlisted : stored.row ∈ rowsOf t tenant :=
        h.mem_rowsOf.mpr ⟨stored, by rw [hname]; exact hfound, rfl⟩
      exact absurd hname (hall _ hlisted)

/-- A get finds the listed row of the name. -/
theorem Proper.find?_map_row_eq_some_iff {t : Table k} (h : t.Proper) {tenant name : String}
    {r : Row k} :
    (t.find? ⟨tenant, name⟩).map (·.row) = some r ↔ r ∈ rowsOf t tenant ∧ r.name = name := by
  rw [Option.map_eq_some_iff, h.mem_rowsOf]
  constructor
  · rintro ⟨stored, hstored, rfl⟩
    have hname : stored.row.name = name := h.name_of_find? hstored
    exact ⟨⟨stored, by rw [hname]; exact hstored, rfl⟩, hname⟩
  · rintro ⟨hlisted, rfl⟩
    exact hlisted

/-- Proper tables with the same entries are the same. -/
theorem Proper.eq_of_perm {t u : Table k} (ht : t.Proper) (hu : u.Proper) (h : t.Perm u) :
    t = u := by
  refine h.eq_of_pairwise (fun a b _ _ hab hba => ?_) ht.ordered hu.ordered
  exact absurd rfl (Key.ne_of_before (Key.before_trans hab hba))

end Table

/-! ## Inserts -/

theorem rowsOf_append (t u : Table k) (tenant : String) :
    rowsOf (t ++ u) tenant = rowsOf t tenant ++ rowsOf u tenant := by
  rw [rowsOf, List.filter_append, List.map_append]
  rfl

theorem rowsOf_inserts (tenant : String) (rows : List (Insert k)) :
    rowsOf (rows.map fun i => (⟨tenant, i.name⟩, .ofInsert i)) tenant =
      rows.map fun i => (Stored.ofInsert i).row := by
  rw [rowsOf, List.filter_eq_self.mpr, List.map_map]
  · rfl
  · intro e he
    obtain ⟨i, -, rfl⟩ := List.mem_map.mp he
    exact beq_self_eq_true tenant

theorem rowsOf_inserts_of_ne {tenant other : String} (h : other ≠ tenant)
    (rows : List (Insert k)) :
    rowsOf (rows.map fun i => (⟨tenant, i.name⟩, .ofInsert i)) other = [] := by
  rw [rowsOf, List.filter_eq_nil_iff.mpr, List.map_nil]
  intro e he
  obtain ⟨i, -, rfl⟩ := List.mem_map.mp he
  simpa using h.symm

theorem rowsOf_perm {t u : Table k} (h : t.Perm u) (tenant : String) :
    (rowsOf t tenant).Perm (rowsOf u tenant) :=
  (h.filter _).map _

/-- Listings with the same rows have them in the same order. -/
theorem rowsOf_eq_of_perm {t u : Table k} (ht : t.Proper) {tenant : String}
    (h : (rowsOf t tenant).Perm (rowsOf u tenant)) (hu : u.Proper) :
    rowsOf t tenant = rowsOf u tenant := by
  refine h.eq_of_pairwise (fun a b _ _ hab hba => ?_) (ht.rowsOf_sorted tenant)
    (hu.rowsOf_sorted tenant)
  exact absurd (List.lt_trans hab hba) (List.lt_irrefl _)

theorem inserted_putAll {s : State} (h : (s.table k).Proper) {tenant : String}
    {rows : List (Insert k)} (hfree : ∀ i ∈ rows, (s.table k).find? ⟨tenant, i.name⟩ = none)
    (hnodup : (rows.map (·.name)).Nodup) :
    Inserted tenant rows s (s.withTable (putAll tenant rows (s.table k))) := by
  have hperm := perm_putAll hfree hnodup
  have hproper := h.putAll tenant rows
  constructor
  · rw [State.table_withTable]
    exact hperm
  · have hlisted := rowsOf_perm hperm tenant
    rw [rowsOf_append, rowsOf_inserts] at hlisted
    rw [State.table_withTable]
    exact hlisted
  · rw [State.table_withTable]
    exact hproper.rowsOf_sorted tenant
  · intro other hother
    have hlisted := rowsOf_perm hperm other
    rw [rowsOf_append, rowsOf_inserts_of_ne hother, List.append_nil] at hlisted
    rw [State.table_withTable]
    exact rowsOf_eq_of_perm hproper hlisted h
  · exact fun other hother => s.table_withTable_of_ne _ hother

/-! ## Deletes -/

theorem store_delete (s : State) (tenant name : String) :
    store k (.delete tenant name) s =
      (.ok (((s.table k).find? ⟨tenant, name⟩).map (·.row)),
        s.withTable ((s.table k).filter (·.1 ≠ ⟨tenant, name⟩))) := by
  have hfilter : (s.table k).remove ⟨tenant, name⟩ =
      (s.table k).filter (·.1 ≠ ⟨tenant, name⟩) :=
    List.filter_congr fun e _ => by rw [Bool.eq_iff_iff, bne_iff_ne, decide_eq_true_iff]
  rw [store_apply, ← hfilter]
  rfl

/-- Deletes take out the rows with their names. -/
theorem deleteAll_eq (tenant : String) (names : List String) (s : State) :
    deleteAll k tenant names s = s.withTable
      ((s.table k).filter fun e => ¬ (e.1.tenant = tenant ∧ e.1.name ∈ names)) := by
  induction names generalizing s with
  | nil => simp [deleteAll]
  | cons name rest ih =>
    have hcons : deleteAll k tenant (name :: rest) s =
        deleteAll k tenant rest (store k (.delete tenant name) s).2 := rfl
    rw [hcons, ih, store_delete, State.table_withTable, State.withTable_withTable,
      List.filter_filter]
    refine congrArg s.withTable (List.filter_congr fun e _ => ?_)
    obtain ⟨⟨tenant', name'⟩, stored⟩ := e
    rw [Bool.eq_iff_iff]
    simp only [Bool.and_eq_true, decide_eq_true_eq, ne_eq, Key.mk.injEq, List.mem_cons]
    tauto

/-- Deleting what was inserted leaves the state as it was. -/
theorem deleteAll_inserted {s : State} (h : (s.table k).Proper) {tenant : String}
    {rows : List (Insert k)} {names : List String}
    (hfree : ∀ i ∈ rows, (s.table k).find? ⟨tenant, i.name⟩ = none)
    (hnodup : (rows.map (·.name)).Nodup) (hnames : names.Perm (rows.map (·.name))) :
    deleteAll k tenant names (s.withTable (putAll tenant rows (s.table k))) = s := by
  rw [deleteAll_eq, State.table_withTable, State.withTable_withTable]
  suffices hsame : (putAll tenant rows (s.table k)).filter
      (fun e => ¬ (e.1.tenant = tenant ∧ e.1.name ∈ names)) = s.table k by
    rw [hsame, State.withTable_table]
  have hproper := h.putAll tenant rows
  have hkept : (s.table k).filter (fun e => ¬ (e.1.tenant = tenant ∧ e.1.name ∈ names)) =
      s.table k := by
    refine List.filter_eq_self.mpr fun e he => decide_eq_true ?_
    rintro ⟨htenant, hname⟩
    obtain ⟨i, hi, heq⟩ := List.mem_map.mp (hnames.mem_iff.mp hname)
    have hkey : (⟨tenant, i.name⟩ : Key) = e.1 := by rw [← htenant, heq]
    have hfound := hfree i hi
    rw [hkey, h.find?_of_mem he] at hfound
    cases hfound
  have hgone : (rows.map fun i => ((⟨tenant, i.name⟩ : Key), Stored.ofInsert i)).filter
      (fun e => ¬ (e.1.tenant = tenant ∧ e.1.name ∈ names)) = [] := by
    refine List.filter_eq_nil_iff.mpr fun e he => ?_
    obtain ⟨i, hi, rfl⟩ := List.mem_map.mp he
    have hname : i.name ∈ names := hnames.mem_iff.mpr (List.mem_map_of_mem hi)
    simpa using hname
  have hperm := (perm_putAll hfree hnodup).filter
    fun e => ¬ (e.1.tenant = tenant ∧ e.1.name ∈ names)
  rw [List.filter_append, hkept, hgone, List.append_nil] at hperm
  refine Table.Proper.eq_of_perm ⟨hproper.ordered.filter _, fun e he => ?_⟩ h hperm
  exact hproper.named e (List.mem_of_mem_filter he)

/-! ## The calls together -/

theorem store_list (s : State) (tenant : String) :
    store k (.list tenant) s = (.ok (rowsOf (s.table k) tenant), s) := by
  rw [store_apply]
  exact congrArg (Prod.mk _) s.withTable_table

theorem store_get (s : State) (tenant name : String) :
    store k (.get tenant name) s = (.ok (((s.table k).find? ⟨tenant, name⟩).map (·.row)), s) := by
  rw [store_apply]
  exact congrArg (Prod.mk _) s.withTable_table

theorem store_update {s : State} (h : (s.table k).Proper) (tenant : String) (u : Update k) :
    store k (.update tenant u) s = (.ok (), s.withTable ((s.table k).map fun e =>
      if e.1 = ⟨tenant, u.name⟩ then (e.1, e.2.updated u) else e)) := by
  rw [store_apply, answer_update_fst, answer_update_snd h]

/-- An update without a row changes nothing. -/
theorem store_update_of_none {s : State} {tenant : String} {u : Update k}
    (h : (s.table k).find? ⟨tenant, u.name⟩ = none) :
    store k (.update tenant u) s = (.ok (), s) := by
  rw [store_apply]
  simp only [answer, h, State.withTable_table]

theorem find?_filter_ne (t : Table k) (key : Key) :
    Table.find? (t.filter (·.1 ≠ key)) key = none := by
  cases hfound : Table.find? (t.filter (·.1 ≠ key)) key with
  | none => rfl
  | some stored => simpa using (List.mem_filter.mp (Table.mem_of_find? hfound)).2

/-- In every reachable state the five calls on a kind agree. -/
theorem calls_agree {s : State} (h : Reachable s) (k : Kind) : CallsAgree s k := by
  have hproper := h.proper k
  constructor
  case list =>
    exact fun tenant => ⟨store_list s tenant, fun r => hproper.mem_rowsOf_iff_mem,
      hproper.rowsOf_sorted tenant⟩
  case get =>
    exact fun tenant name => ⟨_, store_get s tenant name, fun r =>
      hproper.find?_map_row_eq_some_iff⟩
  case insert =>
    intro tenant rows
    have hfree : (∀ i ∈ rows, (s.table k).find? ⟨tenant, i.name⟩ = none) ↔
        ∀ i ∈ rows, ∀ r ∈ rowsOf (s.table k) tenant, r.name ≠ i.name :=
      forall₂_congr fun i _ => hproper.find?_eq_none_iff
    rw [← hfree]
    rcases store_insert_taken_or_free s tenant rows with ⟨detail, htaken⟩ | ⟨hok, hnew, hnodup⟩
    · refine ⟨iff_of_false ?_ ?_, .inr ⟨detail, htaken⟩⟩
      · rw [htaken]
        nofun
      · rintro ⟨hnew, hnodup⟩
        rw [store_apply, answer_insert_of_free hnew hnodup] at htaken
        cases htaken
    · rw [hok]
      exact ⟨iff_of_true rfl ⟨hnew, hnodup⟩, .inl ⟨rfl, inserted_putAll hproper hnew hnodup⟩⟩
  case update =>
    exact fun tenant u => ⟨store_update hproper tenant u, fun hnone =>
      store_update_of_none (hproper.find?_eq_none_iff.mpr hnone)⟩
  case delete =>
    intro tenant name
    refine ⟨_, store_get s tenant name, store_delete s tenant name, ?_⟩
    rw [store_delete, store_get, State.table_withTable, find?_filter_ne]
    rfl
  case restore =>
    intro tenant rows names hok hnames
    rcases store_insert_taken_or_free s tenant rows with ⟨detail, htaken⟩ | ⟨hthrough, hnew, hnodup⟩
    · rw [htaken] at hok
      cases hok
    · rw [hthrough]
      exact deleteAll_inserted hproper hnew hnodup hnames

/-! ## An example -/

def plainExporter (name : String) : Insert .exporter :=
  ⟨name, "loki", .exporter none "{}", .ofClock ⟨5, 0⟩, .ofClock ⟨5, 0⟩⟩

/-- Two tenants have an exporter of one name, and one of them another one. -/
def sharedName : State :=
  (store .exporter (.insert "u" [plainExporter "a"])
    (store .exporter (.insert "t" [plainExporter "b", plainExporter "a"]) .empty).2).2

/-- The calls agree where two tenants share a name; the listing is in order. -/
theorem calls_agree_shared_name :
    Reachable sharedName ∧
    (rowsOf (sharedName.table .exporter) "t").map (·.name) = ["a", "b"] ∧
    (rowsOf (sharedName.table .exporter) "u").map (·.name) = ["a"] ∧
    CallsAgree sharedName .exporter := by
  have hreachable : Reachable sharedName := .call _ (.call _ .empty)
  exact ⟨hreachable, by decide, by decide, calls_agree hreachable .exporter⟩

end TenantRegistry.Memory
