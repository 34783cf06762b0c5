import Mathlib.Data.List.Forall2
import TenantRegistry.Proofs.Json.Entries
import TenantRegistry.Proofs.Store.CallText
import TenantRegistry.Store.Graphql

/-!
What the store behind a GraphQL endpoint sends.

The text of a query is that of its verb and kind; all data are values of variables. Read off the
text, a variable stands where a column of its name is compared or set (`Scoped`), or is the list
of objects to insert, each with the tenant of the call (`ScopedInsert`).
-/

namespace TenantRegistry.Graphql

open CallText

variable {k : Kind}

/-! ## Data as values -/

/-- A datum as a value. -/
def valueOf : Datum → Json
  | .text s => .string s
  | .absent => .null
  | .time t => .string t.text

def entriesOf (data : List (String × Datum)) : List (String × Json) :=
  data.map fun (column, datum) => (column, valueOf datum)

/-- An object holds some data, each column once, and nothing else. -/
def Holds (object : Json) (data : List (String × Datum)) : Prop :=
  ∃ entries, object = .object entries ∧ entries.Perm (entriesOf data) ∧
    (entries.map (·.1)).Nodup

theorem payloadEntries_eq (p : Payload k) : payloadEntries p = entriesOf p.data := by
  cases p with
  | credential value => rfl
  | exporter reference config => cases reference <;> rfl

theorem map_entriesOf (data : List (String × Datum)) :
    (entriesOf data).map (·.1) = data.map (·.1) := by
  rw [entriesOf, List.map_map]
  rfl

theorem holds_ofEntries {data : List (String × Datum)} (h : (data.map (·.1)).Nodup) :
    Holds (.ofEntries (entriesOf data)) data := by
  have hnodup : ((entriesOf data).map (·.1)).Nodup := by rwa [map_entriesOf]
  obtain ⟨entries, heq, -⟩ := Json.exists_ofEntries (entriesOf data)
  have hperm := Json.perm_ofEntries hnodup heq
  exact ⟨entries, heq, hperm, (hperm.map _).nodup_iff.mpr hnodup⟩

/-! ## Reading queries -/

/-- The variables that the head of a query declares, before its first brace. -/
def declared (text : String) : List String :=
  (words (text.toList.takeWhile (· != '\x7b'))).filterMap placeholder?

/-- What the field of a query is asked for: names with variables before `_set`. -/
def conditions (text : String) : List (String × String) :=
  references ((words (text.toList.dropWhile (· != '\x7b'))).takeWhile (· != "_set".toList))

/-- What the field of a query sets: names with variables from `_set` on. -/
def assignments (text : String) : List (String × String) :=
  references ((words (text.toList.dropWhile (· != '\x7b'))).dropWhile (· != "_set".toList))

/-- Columns with the variables of their names. -/
def named (columns : List String) : List (String × String) :=
  columns.map fun column => (column, column)

/-- A query has no choice of conditions: all that it names must hold. -/
def Conjunctive (text : String) : Prop :=
  ∀ word ∈ ["_or", "_not"], word.toList ∉ words text.toList

/-- A query on stored rows carries a call: it compares the tenant, and the name if there is one,
with the variables of these names, sets columns to the variables of their names, and the variables
are what the call says. -/
structure Scoped (c : Call k) (q : Query) : Prop where
  declared : declared q.text = (c.key ++ c.changes).map (·.1)
  conditions : conditions q.text = named (c.key.map (·.1))
  conjunctive : Conjunctive q.text
  assignments : assignments q.text = named (c.changes.map (·.1))
  values : Holds q.values (c.key ++ c.changes)

/-- A query for new rows carries them: its one variable is the list of objects to insert, one for
each row with what the row holds, the tenant of the call among it. -/
structure ScopedInsert (tenant : String) (rows : List (Insert k)) (q : Query) : Prop where
  declared : declared q.text = [k.plural]
  conditions : conditions q.text = [("objects", k.plural)]
  assignments : assignments q.text = []
  values : ∃ objects, q.values = .object [(k.plural, .array objects)] ∧
    List.Forall₂ (fun row object => Holds object (row.data tenant)) rows objects

/-! ## Texts of queries -/

theorem toList_argumentsText (arguments : List (String × Argument)) :
    (Operation.argumentsText arguments).toList =
      if arguments.length ≤ 1 || arguments.all (·.2.isReference) then
        "(".toList ++ ", ".toList.intercalate ((Argument.texts arguments).map String.toList) ++
          ")".toList
      else
        "(\n    ".toList ++
          ",\n    ".toList.intercalate ((Argument.texts arguments).map String.toList) ++
          "\n  )".toList := by
  unfold Operation.argumentsText
  generalize "(" = first, ")" = second, "(\n    " = third, "\n  )" = fourth
  split <;> simp only [String.toList_append, String.toList_intercalate]

theorem toList_text (o : Operation) :
    o.text.toList = "\n".toList ++ o.keyword.text.toList ++ " ".toList ++ o.title.toList ++
      "(".toList ++ ", ".toList.intercalate ((o.parameters.map fun (name, type) =>
        "$" ++ name ++ ": " ++ type).map String.toList) ++ ") \x7b\n  ".toList ++
      o.field.toList ++ (Operation.argumentsText o.arguments).toList ++ " ".toList ++
      (Operation.block o.selection).toList ++ "\n\x7d".toList := by
  unfold Operation.text
  generalize "\n" = first, " " = second, "(" = third, ") \x7b\n  " = fourth, "\n\x7d" = fifth
  simp only [String.toList_append, String.toList_intercalate]

/-- The text of a query on stored rows names the columns of its verb, and no others, each with
the variable of its name. -/
theorem named_operation {k : Kind} {verb : Verb} (h : verb ≠ .insert) :
    declared (operation k verb).text = verb.keyColumns ++ verb.changedColumns k ∧
      conditions (operation k verb).text = named verb.keyColumns ∧
      Conjunctive (operation k verb).text ∧
      assignments (operation k verb).text = named (verb.changedColumns k) := by
  unfold declared conditions Conjunctive assignments
  rw [toList_text, toList_argumentsText]
  cases verb with
  | insert => contradiction
  | list | get | update | delete => cases k <;> decide +kernel

theorem named_insert (k : Kind) :
    declared (operation k .insert).text = [k.plural] ∧
      conditions (operation k .insert).text = [("objects", k.plural)] ∧
      assignments (operation k .insert).text = [] := by
  unfold declared conditions assignments
  rw [toList_text, toList_argumentsText]
  cases k <;> decide +kernel

/-! ## Queries of calls -/

theorem values_eq {c : Call k} (h : c.verb ≠ .insert) :
    values c = entriesOf (c.key ++ c.changes) := by
  cases c with
  | insert => contradiction
  | update tenant u =>
    simp only [values, Call.key, Call.changes, payloadEntries_eq, entriesOf, List.map_append]
    rfl
  | _ => rfl

theorem nodup_columns (k : Kind) (verb : Verb) :
    (verb.keyColumns ++ verb.changedColumns k).Nodup := by
  cases k <;> cases verb <;> decide +kernel

theorem scoped_ofCall {c : Call k} (h : c.verb ≠ .insert) : Scoped c (.ofCall c) := by
  have hcolumns : (c.key ++ c.changes).map (·.1) =
      c.verb.keyColumns ++ c.verb.changedColumns k := by
    rw [List.map_append, Call.map_key, Call.map_changes]
  obtain ⟨hdeclared, hconditions, hconjunctive, hassignments⟩ := named_operation h
  constructor
  · rw [hcolumns, ← hdeclared]; rfl
  · rw [Call.map_key, ← hconditions]; rfl
  · exact hconjunctive
  · rw [Call.map_changes, ← hassignments]; rfl
  · rw [Query.ofCall, values_eq h]
    exact holds_ofEntries (by rw [hcolumns]; exact nodup_columns k c.verb)

theorem holds_insertObject (tenant : String) (i : Insert k) :
    Holds (insertObject tenant i) (i.data tenant) := by
  have hentries : insertObject tenant i = .ofEntries (entriesOf (i.data tenant)) := by
    simp only [insertObject, Insert.data, payloadEntries_eq, entriesOf, List.map_append]
    rfl
  rw [hentries]
  refine holds_ofEntries ?_
  rw [Insert.map_data]
  cases k <;> decide +kernel

theorem scopedInsert_ofCall (tenant : String) (rows : List (Insert k)) :
    ScopedInsert tenant rows (.ofCall (.insert tenant rows)) where
  declared := (named_insert k).1
  conditions := (named_insert k).2.1
  assignments := (named_insert k).2.2
  values := ⟨rows.map (insertObject tenant), rfl,
    List.forall₂_map_right_iff.mpr (List.forall₂_same.mpr fun i _ => holds_insertObject tenant i)⟩

end TenantRegistry.Graphql
