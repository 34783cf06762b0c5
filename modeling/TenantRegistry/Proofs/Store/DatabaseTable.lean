import Mathlib.Data.List.Nodup
import TenantRegistry.Proofs.Store.Answers
import TenantRegistry.Proofs.Store.Database
import TenantRegistry.Proofs.Text.OctetOrder

/-!
The table of a kind in a database.

Its rows are the records of entries, an entry being a tenant with a row as it was last written.
Every command of a store call is one that the relation carries out, and what it does to the
relation is said of the entries: `execute_list`, `execute_get`, `execute_insert`,
`execute_update`, `execute_delete`. Times of whole seconds come back as they were written.
-/

namespace TenantRegistry.Sql

open Memory (Key Stored Table)

variable {k : Kind}

/-! ## Times in cells -/

theorem micros_of_whole (seconds : Int) :
    (⟨seconds, 0⟩ : Timestamp).micros = seconds * 1000000 := by
  have hnanos : ∀ n : Int, n * 1000000000 + ((0 : Nat) : Int) = 1000 * (n * 1000000) := by
    intro n
    rw [Int.natCast_zero]
    omega
  simp only [Timestamp.micros, hnanos]
  rw [Int.mul_tdiv_cancel_left _ (by decide), Int.sub_mul, Int.add_comm, Int.sub_add_cancel]

/-- A whole second comes back from a cell as it went in. -/
theorem ofMicros_micros {t : Timestamp} (h : t.nanos = 0) : Timestamp.ofMicros t.micros = t := by
  obtain ⟨seconds, nanos⟩ := t
  have hnanos : nanos = 0 := h
  subst hnanos
  rw [micros_of_whole, Timestamp.ofMicros, Timestamp.mk.injEq]
  omega

theorem timeText?_ofTime {t : Timestamp} (h : t.nanos = 0) :
    timeText? (.ofTime t) = some t.text := by
  simp only [Cell.ofTime, timeText?, ofMicros_micros h]

/-! ## Entries -/

/-- A row as it was written last, with its tenant. -/
structure Entry (k : Kind) where
  tenant : String
  written : Insert k

/-- A key in the database. -/
def keyCells (key : Key) : List Cell :=
  [.text key.tenant, .text key.name]

theorem keyCells_injective : Function.Injective keyCells := by
  rintro ⟨tenant, name⟩ ⟨tenant', name'⟩ h
  simpa [keyCells] using h

namespace Entry

def key (e : Entry k) : Key :=
  ⟨e.tenant, e.written.name⟩

/-- The row in memory. -/
def stored (e : Entry k) : Key × Stored k :=
  (e.key, .ofInsert e.written)

/-- The row in the database. -/
def record (e : Entry k) : Record :=
  (Column.all k).zip (insertCells e.tenant e.written)

/-- Its times are whole seconds. -/
def Whole (e : Entry k) : Prop :=
  e.written.createdAt.nanos = 0 ∧ e.written.updatedAt.nanos = 0

def updated (e : Entry k) (u : Update k) : Entry k :=
  { e with written := { e.written with payload := u.payload, updatedAt := u.updatedAt } }

theorem cell_tenant (e : Entry k) : e.record.cell "tenant" = .text e.tenant := by
  cases k <;> rfl

theorem cell_name (e : Entry k) : e.record.cell "name" = .text e.written.name := by
  cases k <;> rfl

theorem project_key (e : Entry k) : e.record.project ["tenant", "name"] = keyCells e.key := by
  cases k <;> rfl

theorem satisfies_tenant (e : Entry k) (tenant : String) :
    e.record.satisfies [.text tenant] (bindingsFrom 1 ["tenant"]) = (e.tenant == tenant) := by
  rw [Bool.eq_iff_iff]
  simp [Record.satisfies, bindingsFrom, Binding.value, cell_tenant]

theorem satisfies_key (e : Entry k) (tenant name : String) (rest : List Cell) :
    e.record.satisfies (.text tenant :: .text name :: rest) (bindingsFrom 1 ["tenant", "name"]) =
      (e.key == ⟨tenant, name⟩) := by
  rw [Bool.eq_iff_iff]
  simp [Record.satisfies, bindingsFrom, Binding.value, cell_tenant, cell_name, key]

/-- What is read of a record is what memory shows. -/
theorem row_project {e : Entry k} (h : e.Whole) :
    row k (e.record.project (Column.read k)) = .ok (Stored.ofInsert e.written).row := by
  obtain ⟨tenant, name, type, payload, created, updated⟩ := e
  have hc : timeText? (.ofTime created) = some created.text := timeText?_ofTime h.1
  have hu : timeText? (.ofTime updated) = some updated.text := timeText?_ofTime h.2
  cases payload with
  | credential value =>
    show row .credential [.text name, .text type, .ofTime created, .ofTime updated] = _
    simp [row, column, text?, hc, hu]
    rfl
  | exporter reference config =>
    show row .exporter [.text name, .text type, .ofOptional reference, .text config,
      .ofTime created, .ofTime updated] = _
    cases reference <;> simp [row, column, text?, optionalText?, Cell.ofOptional, hc, hu] <;> rfl

/-- An update sets exactly what it brings. -/
theorem changed_record (e : Entry k) (tenant : String) (u : Update k) :
    e.record.changed (parameters (.update tenant u))
      (bindingsFrom 3 (Column.payload k ++ ["updated_at"])) = (e.updated u).record := by
  obtain ⟨owner, name, type, payload, created, updated⟩ := e
  obtain ⟨target, new, now⟩ := u
  cases payload <;> cases new <;> rfl

end Entry

/-! ## Relations -/

/-- The relation of a kind with the records of some entries. -/
def relationOf (entries : List (Entry k)) : Relation :=
  ⟨(Column.all k).map fun column => (column, columnType k column), ["tenant", "name"],
    entries.map Entry.record⟩

theorem wellTyped_record (entries : List (Entry k)) (e : Entry k) :
    (relationOf entries).wellTyped e.record = true := by
  obtain ⟨tenant, name, type, payload, created, updated⟩ := e
  cases payload with
  | credential value => rfl
  | exporter reference config => cases reference <;> rfl

theorem complete_insertCells (entries : List (Entry k)) (tenant : String) (i : Insert k) :
    (relationOf entries).complete ((Column.all k).zip (insertCells tenant i)) =
      (⟨tenant, i⟩ : Entry k).record := by
  obtain ⟨name, type, payload, created, updated⟩ := i
  cases payload <;> rfl

theorem keys_records (entries : List (Entry k)) :
    ((entries.map Entry.record).map (Record.project ["tenant", "name"])).Nodup ↔
      (entries.map Entry.key).Nodup := by
  rw [← List.nodup_map_iff keyCells_injective, List.map_map, List.map_map]
  rw [List.map_congr_left fun e _ => e.project_key]
  rfl

/-- Entries can be written into a relation exactly if no two of them have one key. -/
theorem withRows_of_nodup {entries written : List (Entry k)}
    (h : (written.map Entry.key).Nodup) :
    (relationOf entries).withRows (written.map Entry.record) = .ok (relationOf written) := by
  have htyped : (written.map Entry.record).all (relationOf entries).wellTyped = true := by
    rw [List.all_map]
    exact List.all_eq_true.mpr fun e _ => wellTyped_record entries e
  have hkeys : ((written.map Entry.record).map (Record.project (relationOf entries).key)).Nodup :=
    (keys_records written).mpr h
  rw [Relation.withRows, if_neg (not_not.mpr htyped), if_neg (not_not.mpr hkeys)]
  rfl

theorem withRows_of_not_nodup {entries written : List (Entry k)}
    (h : ¬ (written.map Entry.key).Nodup) :
    ∃ detail, (relationOf entries).withRows (written.map Entry.record) =
      .error (.refused uniqueViolation detail) := by
  have htyped : (written.map Entry.record).all (relationOf entries).wellTyped = true := by
    rw [List.all_map]
    exact List.all_eq_true.mpr fun e _ => wellTyped_record entries e
  have hkeys :
      ¬ ((written.map Entry.record).map (Record.project (relationOf entries).key)).Nodup :=
    fun hn => h ((keys_records written).mp hn)
  rw [Relation.withRows, if_neg (not_not.mpr htyped), if_pos hkeys]
  exact ⟨_, rfl⟩

/-! ## Commands -/

theorem length_insertCells (tenant : String) (i : Insert k) :
    (insertCells tenant i).length = (Column.all k).length := by
  obtain ⟨name, type, payload, created, updated⟩ := i
  cases payload <;> rfl

/-- The parameters of an insert come apart into its rows. -/
theorem tuples_insertCells (tenant : String) (rows : List (Insert k)) :
    tuples (Column.all k).length rows.length (rows.flatMap (insertCells tenant)) =
      rows.map (insertCells tenant) := by
  induction rows with
  | nil => rfl
  | cons i rest ih =>
    rw [List.flatMap_cons, List.length_cons, tuples, ← length_insertCells tenant i,
      List.take_left, List.drop_left, length_insertCells, ih, List.map_cons]

theorem length_parameters_insert (tenant : String) (rows : List (Insert k)) :
    (rows.flatMap (insertCells tenant)).length = (Column.all k).length * rows.length := by
  induction rows with
  | nil => rfl
  | cons i rest ih =>
    rw [List.flatMap_cons, List.length_append, length_insertCells, ih, List.length_cons,
      Nat.mul_succ, Nat.add_comm]

/-- The command of a call names columns there are and comes with the parameters it takes. -/
theorem execute_ofCall (entries : List (Entry k)) (c : Call k) :
    (relationOf entries).execute (.ofCall c) =
      (relationOf entries).carryOut (parameters c) (statement k (rowCount c) c.verb) := by
  have hcolumns : (Command.ofCall c).statement.columns.all
      (fun column => (relationOf entries).columns.any (·.1 == column)) = true := by
    cases k <;> cases c <;> rfl
  have harity : (Command.ofCall c).statement.arity = (Command.ofCall c).parameters.length := by
    cases c with
    | insert tenant rows => exact (length_parameters_insert tenant rows).symm
    | update tenant u =>
      obtain ⟨name, payload, now⟩ := u
      cases payload <;> rfl
    | list | get | delete => cases k <;> rfl
  rw [Relation.execute, if_neg (not_not.mpr hcolumns), if_neg (not_not.mpr harity)]
  rfl

/-! ## What commands do -/

/-- Entries by name. -/
def byName (a b : Entry k) : Bool :=
  decide (a.written.name ≤ b.written.name)

/-- What is read of an entry. -/
def Entry.shown (e : Entry k) : List Cell :=
  e.record.project (Column.read k)

theorem filter_tenant (entries : List (Entry k)) (tenant : String) :
    (relationOf entries).rows.filter
        (Record.satisfies [.text tenant] (bindingsFrom 1 ["tenant"])) =
      (entries.filter (·.tenant == tenant)).map Entry.record := by
  rw [relationOf, List.filter_map]
  exact congrArg _ (List.filter_congr fun e _ => e.satisfies_tenant tenant)

theorem filter_key (entries : List (Entry k)) (tenant name : String) :
    (relationOf entries).rows.filter
        (Record.satisfies [.text tenant, .text name] (bindingsFrom 1 ["tenant", "name"])) =
      (entries.filter (·.key == ⟨tenant, name⟩)).map Entry.record := by
  rw [relationOf, List.filter_map]
  exact congrArg _ (List.filter_congr fun e _ => e.satisfies_key tenant name [])

theorem filter_not_key (entries : List (Entry k)) (tenant name : String) :
    (relationOf entries).rows.filter (fun row => !Record.satisfies [.text tenant, .text name]
        (bindingsFrom 1 ["tenant", "name"]) row) =
      (entries.filter (·.key != ⟨tenant, name⟩)).map Entry.record := by
  rw [relationOf, List.filter_map]
  exact congrArg _ (List.filter_congr fun e _ => congrArg _ (e.satisfies_key tenant name []))

theorem inOrder_name (entries : List (Entry k)) :
    inOrder (some "name") (entries.map Entry.record) =
      (entries.mergeSort byName).map Entry.record := by
  refine (List.map_mergeSort fun a _ b _ => ?_).symm
  rw [Entry.cell_name, Entry.cell_name, byName, Cell.le, decide_eq_decide, Utf8.ofString_le_iff]

theorem execute_list (entries : List (Entry k)) (tenant : String) :
    (relationOf entries).execute (.ofCall (.list tenant : Call k)) =
      .ok (((entries.filter (·.tenant == tenant)).mergeSort byName).map Entry.shown,
        relationOf entries) := by
  simp only [execute_ofCall, parameters, Call.verb, statement, Relation.carryOut, filter_tenant,
    inOrder_name, List.map_map]
  rfl

theorem execute_get (entries : List (Entry k)) (tenant name : String) :
    (relationOf entries).execute (.ofCall (.get tenant name : Call k)) =
      .ok ((entries.filter (·.key == ⟨tenant, name⟩)).map Entry.shown, relationOf entries) := by
  simp only [execute_ofCall, parameters, Call.verb, statement, Relation.carryOut, filter_key,
    inOrder, List.map_map]
  rfl

theorem execute_delete (entries : List (Entry k)) (tenant name : String) :
    (relationOf entries).execute (.ofCall (.delete tenant name : Call k)) =
      .ok ((entries.filter (·.key == ⟨tenant, name⟩)).map Entry.shown,
        relationOf (entries.filter (·.key != ⟨tenant, name⟩))) := by
  simp only [execute_ofCall, parameters, Call.verb, statement, Relation.carryOut, filter_key,
    filter_not_key, List.map_map]
  rfl

/-- What an update makes of the entry under its key. -/
def change (key : Key) (u : Update k) (e : Entry k) : Entry k :=
  if e.key = key then e.updated u else e

theorem key_change (key : Key) (u : Update k) : Entry.key ∘ change key u = Entry.key := by
  funext e
  simp only [Function.comp_apply, change]
  split <;> rfl

theorem map_change (entries : List (Entry k)) (tenant : String) (u : Update k) :
    (relationOf entries).rows.map (fun row =>
        if row.satisfies (parameters (.update tenant u)) (bindingsFrom 1 ["tenant", "name"])
        then row.changed (parameters (.update tenant u))
          (bindingsFrom 3 (Column.payload k ++ ["updated_at"]))
        else row) =
      (entries.map (change ⟨tenant, u.name⟩ u)).map Entry.record := by
  rw [relationOf, List.map_map, List.map_map]
  refine List.map_congr_left fun e _ => ?_
  have hkey : e.record.satisfies (parameters (.update tenant u))
      (bindingsFrom 1 ["tenant", "name"]) = (e.key == ⟨tenant, u.name⟩) :=
    e.satisfies_key tenant u.name _
  simp only [Function.comp_apply, hkey, beq_iff_eq, Entry.changed_record, change]
  split <;> rfl

theorem execute_update {entries : List (Entry k)} (h : (entries.map Entry.key).Nodup)
    (tenant : String) (u : Update k) :
    (relationOf entries).execute (.ofCall (.update tenant u)) =
      .ok ([], relationOf (entries.map (change ⟨tenant, u.name⟩ u))) := by
  have hkeys : ((entries.map (change ⟨tenant, u.name⟩ u)).map Entry.key).Nodup := by
    rw [List.map_map, key_change]
    exact h
  simp only [execute_ofCall, Call.verb, statement, Relation.carryOut, map_change,
    withRows_of_nodup hkeys]
  rfl

theorem execute_insert (entries : List (Entry k)) (tenant : String) (rows : List (Insert k)) :
    (relationOf entries).execute (.ofCall (.insert tenant rows)) =
      ((relationOf entries).withRows ((entries ++ rows.map (Entry.mk tenant)).map Entry.record)).map
        fun r => ([], r) := by
  have hnew : (rows.map (insertCells tenant)).map
      (fun cells => (relationOf entries).complete ((Column.all k).zip cells)) =
        (rows.map (Entry.mk tenant)).map Entry.record := by
    rw [List.map_map, List.map_map]
    exact List.map_congr_left fun i _ => complete_insertCells entries tenant i
  simp only [execute_ofCall, parameters, rowCount, Call.verb, statement, Relation.carryOut,
    tuples_insertCells, hnew, List.map_append]
  rfl

end TenantRegistry.Sql
