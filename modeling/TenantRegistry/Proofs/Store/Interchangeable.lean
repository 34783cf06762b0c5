import TenantRegistry.Proofs.Service.Script
import TenantRegistry.Proofs.Store.DatabaseTable

/-!
The memory store and the store in a database answer alike.

`Mirrors` ties the rows of a table in memory to the entries of a relation: they are the same rows,
in whatever order. One call keeps this and is answered alike (`carried`), so a run of calls of both
kinds, from no rows on, is answered alike throughout: `interchangeable`.
-/

namespace TenantRegistry

/-- The times of a call are readings of a clock. -/
def Call.Clocked {k : Kind} : Call k → Prop
  | .insert _ rows => ∀ i ∈ rows, ∃ created updated : Timestamp,
      i.createdAt = .ofClock created ∧ i.updatedAt = .ofClock updated
  | .update _ u => ∃ updated : Timestamp, u.updatedAt = .ofClock updated
  | _ => True

namespace Sql

open Memory (Key Stored Table State rowsOf putAll)

variable {k : Kind}

/-! ## One table -/

/-- The entries are the rows of the table, and their times are whole seconds. -/
structure Mirrors (entries : List (Entry k)) (t : Table k) : Prop where
  whole : ∀ e ∈ entries, e.Whole
  same : (entries.map Entry.stored).Perm t
  proper : t.Proper

theorem mirrors_nil : Mirrors ([] : List (Entry k)) [] :=
  ⟨by simp, .nil, Table.proper_nil⟩

section

variable {entries : List (Entry k)} {t : Table k}

theorem Mirrors.stored_mem (h : Mirrors entries t) {e : Entry k} (he : e ∈ entries) :
    e.stored ∈ t :=
  h.same.mem_iff.mp (List.mem_map_of_mem he)

theorem Mirrors.nodup (h : Mirrors entries t) : (entries.map Entry.key).Nodup := by
  have hkeys : (entries.map Entry.key).Perm (t.map (·.1)) := by
    have hmap := h.same.map (·.1)
    rwa [List.map_map] at hmap
  refine hkeys.nodup_iff.mpr ?_
  exact List.pairwise_map.mpr (h.proper.ordered.imp Memory.Key.ne_of_before)

/-- The row under a key is that of the entry with the key. -/
theorem Mirrors.find? (h : Mirrors entries t) (key : Key) :
    t.find? key = (entries.find? (·.key == key)).map fun e => .ofInsert e.written := by
  cases hfound : entries.find? (·.key == key) with
  | some e =>
    have hkey : e.key = key := by simpa using List.find?_some hfound
    have hrow := h.proper.find?_of_mem (h.stored_mem (List.mem_of_find?_eq_some hfound))
    exact hkey ▸ hrow
  | none =>
    cases hrow : t.find? key with
    | none => rfl
    | some row =>
      obtain ⟨e, he, heq⟩ := List.mem_map.mp (h.same.mem_iff.mpr (Table.mem_of_find? hrow))
      have hkey : e.key = key := congrArg Prod.fst heq
      exact absurd (by simpa using hkey) (List.find?_eq_none.mp hfound e he)

/-! ## What is read -/

theorem mapM_shown (h : ∀ e ∈ entries, e.Whole) :
    (entries.map Entry.shown).mapM (row k) =
      .ok (entries.map fun e => (Stored.ofInsert e.written).row) := by
  induction entries with
  | nil => rfl
  | cons e rest ih =>
    have hrest := ih fun x hx => h x (List.mem_cons_of_mem _ hx)
    rw [List.map_cons, List.mapM_cons, Entry.shown, Entry.row_project (h e List.mem_cons_self),
      hrest]
    rfl

theorem firstRow_shown (h : ∀ e ∈ entries, e.Whole) :
    firstRow k (entries.map Entry.shown) =
      .ok (entries.head?.map fun e => (Stored.ofInsert e.written).row) := by
  cases entries with
  | nil => rfl
  | cons e rest =>
    show (row k e.shown).map some = _
    rw [Entry.shown, Entry.row_project (h e List.mem_cons_self)]
    rfl

/-- The entry under a key, read back, is the row in memory. -/
theorem Mirrors.firstRow (h : Mirrors entries t) (key : Key) :
    firstRow k ((entries.filter (·.key == key)).map Entry.shown) =
      .ok ((t.find? key).map (·.row)) := by
  rw [firstRow_shown fun e he => h.whole e (List.mem_of_mem_filter he), List.head?_filter,
    h.find? key, Option.map_map]
  rfl

theorem pairwise_byName (entries : List (Entry k)) :
    (entries.mergeSort byName).Pairwise fun a b => a.written.name ≤ b.written.name := by
  have hsorted : (entries.mergeSort byName).Pairwise fun a b => byName a b = true := by
    refine List.pairwise_mergeSort (fun a b c hab hbc => ?_) (fun a b => ?_) entries
    · simp only [byName, decide_eq_true_eq] at hab hbc ⊢
      exact le_trans hab hbc
    · simp only [byName, Bool.or_eq_true, decide_eq_true_eq]
      exact le_total _ _
  exact hsorted.imp of_decide_eq_true

/-- The entries of a tenant by name are the rows of the tenant as the table has them. -/
theorem Mirrors.sorted (h : Mirrors entries t) (tenant : String) :
    ((entries.filter (·.tenant == tenant)).mergeSort byName).map Entry.stored =
      t.filter (·.1.tenant == tenant) := by
  have hperm : (((entries.filter (·.tenant == tenant)).mergeSort byName).map Entry.stored).Perm
      (t.filter (·.1.tenant == tenant)) := by
    have hsort := List.mergeSort_perm (entries.filter (·.tenant == tenant)) byName
    have hfilter := h.same.filter (·.1.tenant == tenant)
    rw [List.filter_map] at hfilter
    exact (hsort.map Entry.stored).trans hfilter
  have htenant : ∀ e ∈ t.filter (·.1.tenant == tenant), e ∈ t ∧ e.1.tenant = tenant := by
    intro e he
    obtain ⟨hmem, heq⟩ := List.mem_filter.mp he
    exact ⟨hmem, by simpa using heq⟩
  have hnames : (t.filter (·.1.tenant == tenant)).Pairwise fun a b => a.1.name ≤ b.1.name := by
    refine (h.proper.ordered.filter _).imp_of_mem fun {a b} ha hb hab => ?_
    rcases Memory.Key.before_iff.mp hab with hlt | ⟨_, hlt⟩
    · rw [(htenant a ha).2, (htenant b hb).2] at hlt
      exact absurd hlt (lt_irrefl _)
    · exact le_of_lt hlt
  refine hperm.eq_of_pairwise (fun a b ha hb hab hba => ?_)
    (List.pairwise_map.mpr (pairwise_byName _)) hnames
  -- One name within one tenant is one key, and a key has one row.
  obtain ⟨hta, htenanta⟩ := htenant a (hperm.mem_iff.mp ha)
  obtain ⟨htb, htenantb⟩ := htenant b hb
  have hname : a.1.name = b.1.name := le_antisymm hab hba
  have hkey : a.1 = b.1 := by
    show Key.mk a.1.tenant a.1.name = Key.mk b.1.tenant b.1.name
    rw [htenanta, htenantb, hname]
  have hrow := h.proper.find?_of_mem hta
  rw [hkey, h.proper.find?_of_mem htb] at hrow
  exact Prod.ext hkey (Option.some.inj hrow).symm

/-- What is read of the entries of a tenant is what memory lists. -/
theorem Mirrors.mapM (h : Mirrors entries t) (tenant : String) :
    ((((entries.filter (·.tenant == tenant)).mergeSort byName).map Entry.shown).mapM (row k)) =
      .ok (rowsOf t tenant) := by
  rw [mapM_shown, rowsOf, ← h.sorted, List.map_map]
  · rfl
  · intro e he
    exact h.whole e (List.mem_of_mem_filter ((List.mergeSort_perm _ _).mem_iff.mp he))

/-! ## What is written -/

theorem stored_change (key : Key) (u : Update k) :
    Entry.stored ∘ change key u =
      (fun e => if e.1 = key then (e.1, e.2.updated u) else e) ∘ Entry.stored := by
  funext e
  show (if e.key = key then e.updated u else e).stored = if e.key = key then _ else _
  split <;> rfl

/-! ## Calls -/

/-- A call on a relation and on a table in memory: it goes through with the same reply, or a key is
taken and nothing changes. -/
inductive Carried (entries : List (Entry k)) (t : Table k) (c : Call k) : Prop
  | through {rows : List (List Cell)} {after : List (Entry k)} {reply : c.Reply} :
      (relationOf entries).execute (.ofCall c) = .ok (rows, relationOf after) →
      answer (.ok rows) c = .ok reply → (Memory.answer t c).1 = .ok reply →
      Mirrors after (Memory.answer t c).2 → Carried entries t c
  | taken {p : Problem} {detail detail' : String} :
      (relationOf entries).execute (.ofCall c) = .error p →
      answer (.error p) c = .error (.conflict detail) →
      Memory.answer t c = (.error (.conflict detail'), t) → Carried entries t c

theorem carried_list (h : Mirrors entries t) (tenant : String) :
    Carried entries t (.list tenant) := by
  refine .through (execute_list entries tenant) ?_ rfl h
  exact congrArg (Except.mapError Problem.storeError) (h.mapM tenant)

theorem carried_get (h : Mirrors entries t) (tenant name : String) :
    Carried entries t (.get tenant name) := by
  refine .through (execute_get entries tenant name) ?_ rfl h
  exact congrArg (Except.mapError Problem.storeError) (h.firstRow ⟨tenant, name⟩)

theorem carried_delete (h : Mirrors entries t) (tenant name : String) :
    Carried entries t (.delete tenant name) := by
  refine .through (execute_delete entries tenant name) ?_ rfl ⟨fun e he => ?_, ?_, ?_⟩
  · exact congrArg (Except.mapError Problem.storeError) (h.firstRow ⟨tenant, name⟩)
  · exact h.whole e (List.mem_of_mem_filter he)
  · have hsame := h.same.filter (·.1 != ⟨tenant, name⟩)
    rw [List.filter_map] at hsame
    exact hsame
  · exact h.proper.remove _

theorem carried_update (h : Mirrors entries t) (tenant : String) {u : Update k}
    (hu : (Call.update tenant u).Clocked) : Carried entries t (.update tenant u) := by
  refine .through (execute_update h.nodup tenant u) rfl (Memory.answer_update_fst t tenant u)
    ⟨fun e he => ?_, ?_, h.proper.answer _⟩
  · obtain ⟨old, hold, rfl⟩ := List.mem_map.mp he
    obtain ⟨updated, hupdated⟩ := hu
    unfold change
    split
    · exact ⟨(h.whole old hold).1, congrArg Timestamp.nanos hupdated⟩
    · exact h.whole old hold
  · have hsame := h.same.map fun e : Key × Stored k =>
      if e.1 = ⟨tenant, u.name⟩ then (e.1, e.2.updated u) else e
    rw [List.map_map] at hsame
    rw [Memory.answer_update_snd h.proper, List.map_map, stored_change]
    exact hsame

/-- The keys of some entries and of new ones differ exactly if all new names are free and differ. -/
theorem nodup_append_iff (h : Mirrors entries t) (tenant : String) (rows : List (Insert k)) :
    ((entries ++ rows.map (Entry.mk tenant)).map Entry.key).Nodup ↔
      (∀ i ∈ rows, t.find? ⟨tenant, i.name⟩ = none) ∧ (rows.map (·.name)).Nodup := by
  have hkeys : (rows.map (Entry.mk tenant)).map Entry.key =
      (rows.map (·.name)).map (Key.mk tenant) := by
    rw [List.map_map, List.map_map]
    rfl
  have hinjective : Function.Injective (Key.mk tenant) := fun _ _ heq => (Key.mk.inj heq).2
  have hfree : (∀ a ∈ entries.map Entry.key, ∀ b ∈ (rows.map (·.name)).map (Key.mk tenant), a ≠ b) ↔
      ∀ i ∈ rows, t.find? ⟨tenant, i.name⟩ = none := by
    simp only [h.find?, Option.map_eq_none_iff, List.find?_eq_none, List.forall_mem_map, beq_iff_eq]
    exact ⟨fun hall i hi e he => hall e he i hi, fun hall e he i hi => hall i hi e he⟩
  rw [List.map_append, List.nodup_append, hkeys, hfree, List.nodup_map_iff hinjective]
  exact ⟨fun ⟨_, hnodup, hnone⟩ => ⟨hnone, hnodup⟩, fun ⟨hnone, hnodup⟩ => ⟨h.nodup, hnodup, hnone⟩⟩

theorem carried_insert (h : Mirrors entries t) (tenant : String) {rows : List (Insert k)}
    (hrows : (Call.insert tenant rows).Clocked) : Carried entries t (.insert tenant rows) := by
  have hexecute := execute_insert entries tenant rows
  rcases Memory.answer_insert_cases t tenant rows with ⟨detail', htaken⟩ | ⟨hfree, hnew⟩
  · have hnot : ¬ ((entries ++ rows.map (Entry.mk tenant)).map Entry.key).Nodup := by
      intro hn
      obtain ⟨hfree, hnodup⟩ := (nodup_append_iff h tenant rows).mp hn
      rw [Memory.answer_insert_of_free hfree hnodup] at htaken
      cases htaken
    obtain ⟨detail, hrefused⟩ : ∃ detail, (relationOf entries).withRows
        ((entries ++ rows.map (Entry.mk tenant)).map Entry.record) =
          .error (.refused uniqueViolation detail) := withRows_of_not_nodup hnot
    rw [hrefused] at hexecute
    exact .taken hexecute rfl htaken
  · rw [withRows_of_nodup ((nodup_append_iff h tenant rows).mpr hnew)] at hexecute
    refine .through hexecute rfl (congrArg Prod.fst hfree) ⟨fun e he => ?_, ?_, h.proper.answer _⟩
    · rcases List.mem_append.mp he with he | he
      · exact h.whole e he
      · obtain ⟨i, hi, rfl⟩ := List.mem_map.mp he
        obtain ⟨_, _, hcreated, hupdated⟩ := hrows i hi
        exact ⟨congrArg Timestamp.nanos hcreated, congrArg Timestamp.nanos hupdated⟩
    · rw [hfree, List.map_append, List.map_map]
      exact (h.same.append_right _).trans (Memory.perm_putAll hnew.1 hnew.2).symm

theorem carried (h : Mirrors entries t) {c : Call k} (hc : c.Clocked) : Carried entries t c := by
  cases c with
  | list tenant => exact carried_list h tenant
  | get tenant name => exact carried_get h tenant name
  | insert tenant rows => exact carried_insert h tenant hc
  | update tenant u => exact carried_update h tenant hc
  | delete tenant name => exact carried_delete h tenant name

end

/-! ## Both tables -/

/-- The tables of the database mirror those in memory. -/
def Mirrored (s : State) (db : Database) : Prop :=
  ∀ k, ∃ entries : List (Entry k), db k.name = some (relationOf entries) ∧
    Mirrors entries (s.table k)

/-- The schema makes two tables without rows. -/
theorem exists_ensureSchema : ∃ db, ensureSchema Database.execute Database.empty = (.ok (), db) ∧
    Mirrored .empty db := by
  refine ⟨_, rfl, fun k => ⟨[], ?_, ?_⟩⟩
  · cases k <;> rfl
  · cases k <;> exact mirrors_nil

theorem Database.execute_ofCall {db : Database} {r : Relation} (c : Call k)
    (h : db k.name = some r) :
    Database.execute (.ofCall c) db =
      match r.execute (.ofCall c) with
      | .ok (rows, r') => (.ok rows, Function.update db k.name (some r'))
      | .error p => (.error p, db) := by
  have htable : (Command.ofCall c).statement.table = k.name := by cases c <;> rfl
  rw [Database.execute, htable, h]
  cases c <;> rfl

theorem Mirrored.update {s : State} {db : Database} (h : Mirrored s db) {t : Table k}
    {entries : List (Entry k)} (hentries : Mirrors entries t) :
    Mirrored (s.withTable t) (Function.update db k.name (some (relationOf entries))) := by
  intro other
  by_cases hother : other = k
  · subst hother
    exact ⟨entries, Function.update_self .., by rwa [State.table_withTable]⟩
  · have hname : other.name ≠ k.name := by
      cases other <;> cases k <;> first | decide | exact absurd rfl hother
    obtain ⟨others, hdb, hmirrors⟩ := h other
    exact ⟨others, by rwa [Function.update_of_ne hname],
      by rwa [State.table_withTable_of_ne _ _ hother]⟩

/-- Answers that a client cannot tell apart but by the detail of a conflict. -/
inductive SameAnswer {c : Call k} : c.Answer → c.Answer → Prop
  | ok (reply : c.Reply) : SameAnswer (.ok reply) (.ok reply)
  | conflict (detail detail' : String) :
      SameAnswer (.error (.conflict detail)) (.error (.conflict detail'))

theorem answer_idle {t : Table k} {c : Call k} (h : isIdle c = true) :
    ∃ reply, answer (.ok []) c = .ok reply ∧ Memory.answer t c = (.ok reply, t) := by
  cases c with
  | insert tenant rows =>
    have hrows : rows = [] := List.isEmpty_iff.mp h
    subst hrows
    exact ⟨(), rfl, rfl⟩
  | list | get | update | delete => cases h

theorem store_of_idle {c : Call k} (h : isIdle c = true) (db : Database) :
    store Database.execute k c db = (answer (.ok []) c, db) := by
  rw [store, if_pos h]
  rfl

theorem store_of_not_idle {c : Call k} (h : isIdle c = false) (db : Database) :
    store Database.execute k c db =
      (answer (Database.execute (.ofCall c) db).1 c, (Database.execute (.ofCall c) db).2) := by
  rw [store, if_neg (Bool.not_eq_true _ ▸ h)]
  rfl

/-- One call is answered alike, and the tables stay mirrored. -/
theorem Mirrored.call {s : State} {db : Database} (h : Mirrored s db) {c : Call k}
    (hc : c.Clocked) :
    SameAnswer (Memory.store k c s).1 (store Database.execute k c db).1 ∧
      Mirrored (Memory.store k c s).2 (store Database.execute k c db).2 := by
  rw [Memory.store_apply]
  cases hidle : isIdle c with
  | true =>
    obtain ⟨reply, hreply, hmemory⟩ := answer_idle (t := s.table k) hidle
    rw [store_of_idle hidle, hreply, hmemory, State.withTable_table]
    exact ⟨.ok reply, h⟩
  | false =>
    obtain ⟨entries, hdb, hmirrors⟩ := h k
    rw [store_of_not_idle hidle, Database.execute_ofCall c hdb]
    cases carried hmirrors hc with
    | through hexecute hanswer hmemory hafter =>
      rw [hexecute, hmemory]
      simp only [hanswer]
      exact ⟨.ok _, h.update hafter⟩
    | taken hexecute hanswer hmemory =>
      rw [hexecute, hmemory, State.withTable_table]
      simp only [hanswer]
      exact ⟨.conflict _ _, h⟩

/-! ## Runs -/

/-- Makes calls of either kind one after the other. -/
def exchanges {m : Type → Type} [Monad m] (store : Store m) :
    List ((k : Kind) × Call k) → m (List ((k : Kind) × Exchange k))
  | [] => return []
  | ⟨k, c⟩ :: rest => do
    let a ← store k c
    return ⟨k, c, a⟩ :: (← exchanges store rest)

/-- One call with the same answer. -/
inductive SameExchange : (k : Kind) × Exchange k → (k : Kind) × Exchange k → Prop
  | same {k : Kind} {c : Call k} {a b : c.Answer} :
      SameAnswer a b → SameExchange ⟨k, c, a⟩ ⟨k, c, b⟩

theorem Mirrored.run {s : State} {db : Database} (h : Mirrored s db)
    {calls : List ((k : Kind) × Call k)} (hcalls : ∀ c ∈ calls, c.2.Clocked) :
    List.Forall₂ SameExchange (exchanges Memory.store calls s).1
      (exchanges (store Database.execute) calls db).1 := by
  induction calls generalizing s db with
  | nil => exact .nil
  | cons c rest ih =>
    obtain ⟨hsame, hafter⟩ := h.call (hcalls c List.mem_cons_self)
    exact .cons (.same hsame) (ih hafter fun x hx => hcalls x (List.mem_cons_of_mem _ hx))

/-- The memory store and the store in a database are interchangeable. -/
theorem interchangeable (calls : List ((k : Kind) × Call k)) (h : ∀ c ∈ calls, c.2.Clocked) :
    ∃ db, ensureSchema Database.execute Database.empty = (.ok (), db) ∧
      List.Forall₂ SameExchange (exchanges Memory.store calls .empty).1
        (exchanges (store Database.execute) calls db).1 := by
  obtain ⟨db, hschema, hmirrored⟩ := exists_ensureSchema
  exact ⟨db, hschema, hmirrored.run h⟩

/-! ### An example -/

def created : List (Insert .exporter) :=
  [⟨"b", "loki", .exporter none "{}", .ofClock ⟨5, 250⟩, .ofClock ⟨5, 250⟩⟩,
    ⟨"a", "loki", .exporter (some "c") "{}", .ofClock ⟨5, 250⟩, .ofClock ⟨5, 250⟩⟩]

def createdAgain : List (Insert .exporter) :=
  [⟨"c", "loki", .exporter none "{}", .ofClock ⟨6, 0⟩, .ofClock ⟨6, 0⟩⟩,
    ⟨"a", "loki", .exporter none "{}", .ofClock ⟨6, 0⟩, .ofClock ⟨6, 0⟩⟩]

def renewed : Update .exporter :=
  ⟨"a", .exporter none "[]", .ofClock ⟨7, 999⟩⟩

/-- Two exporters are created, one of them once more, which is a conflict. It is updated then, and
the other is deleted. -/
def handful : List ((k : Kind) × Call k) :=
  [⟨.exporter, .insert "t" created⟩, ⟨.credential, .insert "t" []⟩,
    ⟨.exporter, .insert "t" createdAgain⟩, ⟨.exporter, .update "t" renewed⟩,
    ⟨.exporter, .list "t"⟩, ⟨.exporter, .delete "t" "b"⟩, ⟨.exporter, .get "t" "b"⟩]

theorem handful_clocked : ∀ c ∈ handful, c.2.Clocked := by
  simp only [handful, created, createdAgain, renewed, List.forall_mem_cons, Call.Clocked]
  exact ⟨⟨⟨_, _, rfl, rfl⟩, ⟨_, _, rfl, rfl⟩, by simp⟩, by simp,
    ⟨⟨_, _, rfl, rfl⟩, ⟨_, _, rfl, rfl⟩, by simp⟩, ⟨_, rfl⟩, trivial, trivial, trivial, by simp⟩

/-- The database answers the handful of calls as memory does. -/
theorem interchangeable_handful : (∀ c ∈ handful, c.2.Clocked) ∧
    ∃ db, ensureSchema Database.execute Database.empty = (.ok (), db) ∧
      List.Forall₂ SameExchange
        [⟨.exporter, .insert "t" created, .ok ()⟩, ⟨.credential, .insert "t" [], .ok ()⟩,
          ⟨.exporter, .insert "t" createdAgain,
            .error (.conflict "duplicate key for tenant t and name a")⟩,
          ⟨.exporter, .update "t" renewed, .ok ()⟩,
          ⟨.exporter, .list "t", .ok [
            ⟨"a", "loki", .exporter none "[]", "1970-01-01T00:00:05Z", "1970-01-01T00:00:07Z"⟩,
            ⟨"b", "loki", .exporter none "{}", "1970-01-01T00:00:05Z", "1970-01-01T00:00:05Z"⟩]⟩,
          ⟨.exporter, .delete "t" "b", .ok (some
            ⟨"b", "loki", .exporter none "{}", "1970-01-01T00:00:05Z", "1970-01-01T00:00:05Z"⟩)⟩,
          ⟨.exporter, .get "t" "b", .ok none⟩]
        (exchanges (store Database.execute) handful db).1 :=
  ⟨handful_clocked, interchangeable handful handful_clocked⟩

end Sql
end TenantRegistry
