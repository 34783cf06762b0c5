import TenantRegistry.Proofs.Store.CallText
import TenantRegistry.Proofs.Store.DatabaseTable

/-!
What the store in a database sends.

The text of a statement depends on what is done to which kind of resource and, for an insert, on
the number of rows; all data are parameters. Read off the text, every placeholder stands for the
column that its parameter belongs to, and the tenant is the one of the call (`Scoped`,
`ScopedInsert`).
-/

namespace TenantRegistry.Sql

open CallText

variable {k : Kind}

/-- A datum as a parameter. -/
def cellOf : Datum → Cell
  | .text s => .text s
  | .absent => .null
  | .time t => .ofTime t

/-! ## Reading statements -/

/-- What a statement asks of the rows it is about: columns with placeholders after `WHERE`. -/
def conditions (text : String) : List (String × String) :=
  references ((words text.toList).dropWhile (· != "WHERE".toList))

/-- What a statement sets: columns with placeholders before `WHERE`. -/
def assignments (text : String) : List (String × String) :=
  references ((words text.toList).takeWhile (· != "WHERE".toList))

/-- Columns with the numbers from `first` on. -/
def numbered (first : Nat) (columns : List String) : List (String × String) :=
  (columns.zipIdx first).map fun (column, n) => (column, toString n)

/-- A statement has no choice of conditions: all that it names must hold. -/
def Conjunctive (text : String) : Prop :=
  ∀ word ∈ ["OR", "NOT"], word.toList ∉ words text.toList

/-- A command on stored rows carries a call: the parameters from the first on are the tenant, the
name if there is one, and what is set, each named so in the text. -/
structure Scoped (c : Call k) (command : Command) : Prop where
  conditions : conditions command.statement.text = numbered 1 (c.key.map (·.1))
  conjunctive : Conjunctive command.statement.text
  assignments : assignments command.statement.text = numbered 3 (c.changes.map (·.1))
  parameters : command.parameters = (c.key ++ c.changes).map (cellOf ·.2)

/-- The placeholders of a row, `row` rows having come before. -/
def rowPlaceholders (width row : Nat) : List String :=
  (List.range width).map fun j => "$" ++ toString (width * row + j + 1)

/-- A command for new rows carries them: after the columns the text has a list of placeholders for
each row, all numbered in order, and the parameter in the place of a column is what the row holds
there, the tenant being that of the call in every row. -/
structure ScopedInsert (tenant : String) (rows : List (Insert k)) (command : Command) : Prop where
  lists : lists command.statement.text.toList =
    Column.all k :: (List.range rows.length).map (rowPlaceholders (Column.all k).length)
  length : command.parameters.length = (Column.all k).length * rows.length
  parameter : ∀ {i j : Nat} {row : Insert k} {column : String}, rows[i]? = some row →
    (Column.all k)[j]? = some column → ∃ datum, (column, datum) ∈ row.data tenant ∧
      command.parameters[(Column.all k).length * i + j]? = some (cellOf datum)
  tenant : ∀ {i : Nat} {row : Insert k}, rows[i]? = some row →
    command.parameters[(Column.all k).length * i]? = some (.text tenant)

/-! ## Texts of statements -/

namespace Statement

theorem toList_commas (texts : List String) :
    (commas texts).toList = [',', ' '].intercalate (texts.map String.toList) := by
  rw [commas, String.toList_intercalate]
  rfl

-- The literals are made variables first: `String.toList_append` is tried on each of them.

theorem toList_text_select (table : String) (columns : List String) (conditions : List Binding)
    (order : Option String) :
    (text (.select table columns conditions order)).toList =
      "SELECT ".toList ++ (commas columns).toList ++ " FROM ".toList ++ table.toList ++
        (whereText conditions).toList ++ (order.elim "" (" ORDER BY " ++ ·)).toList := by
  unfold text
  generalize "SELECT " = first, " FROM " = second
  cases order <;> simp only [Option.elim, String.toList_append]

theorem toList_text_insert (table : String) (columns : List String) (rows : Nat) :
    (text (.insert table columns rows)).toList =
      "INSERT INTO ".toList ++ table.toList ++ " (".toList ++ (commas columns).toList ++
        ") VALUES ".toList ++ (commas ((List.range rows).map fun i =>
          tuple columns.length (columns.length * i))).toList := by
  unfold text
  generalize "INSERT INTO " = first, " (" = second, ") VALUES " = third
  simp only [String.toList_append]

theorem toList_text_update (table : String) (changes conditions : List Binding) :
    (text (.update table changes conditions)).toList =
      "UPDATE ".toList ++ table.toList ++ " SET ".toList ++
        (commas (changes.map bindingText)).toList ++ (whereText conditions).toList := by
  unfold text
  generalize "UPDATE " = first, " SET " = second
  simp only [String.toList_append]

theorem toList_text_delete (table : String) (conditions : List Binding) (columns : List String) :
    (text (.delete table conditions columns)).toList =
      "DELETE FROM ".toList ++ table.toList ++ (whereText conditions).toList ++
        " RETURNING ".toList ++ (commas columns).toList := by
  unfold text
  generalize "DELETE FROM " = first, " RETURNING " = second
  simp only [String.toList_append]

theorem toList_tuple (width before : Nat) :
    (tuple width before).toList =
      '(' :: [',', ' '].intercalate
        (((List.range width).map fun j => placeholder (before + j + 1)).map String.toList) ++
          [')'] := by
  rw [tuple, String.toList_append, String.toList_append, toList_commas]
  rfl

end Statement

/-! ## Commands on stored rows -/

/-- The text of a statement on stored rows names the columns of its verb, and no others, with
the parameters in order. -/
theorem named_statement {k : Kind} {verb : Verb} (h : verb ≠ .insert) :
    conditions (statement k 0 verb).text = numbered 1 verb.keyColumns ∧
      Conjunctive (statement k 0 verb).text ∧
      assignments (statement k 0 verb).text = numbered 3 (verb.changedColumns k) := by
  unfold conditions Conjunctive assignments
  cases verb with
  | insert => contradiction
  | list | get =>
    rw [statement, Statement.toList_text_select]
    cases k <;> decide +kernel
  | update =>
    rw [statement, Statement.toList_text_update]
    cases k <;> decide +kernel
  | delete =>
    rw [statement, Statement.toList_text_delete]
    cases k <;> decide +kernel

theorem cells_data (p : Payload k) : p.cells.map .ofOptional = p.data.map (cellOf ·.2) := by
  cases p with
  | credential value => rfl
  | exporter reference config => cases reference <;> rfl

theorem parameters_eq {c : Call k} (h : c.verb ≠ .insert) :
    parameters c = (c.key ++ c.changes).map (cellOf ·.2) := by
  cases c with
  | insert => contradiction
  | update tenant u =>
    simp only [parameters, Call.key, Call.changes, cells_data, List.map_append]
    rfl
  | _ => rfl

theorem scoped_ofCall {c : Call k} (h : c.verb ≠ .insert) : Scoped c (.ofCall c) := by
  have hstatement : (Command.ofCall c).statement = statement k 0 c.verb := by
    cases c with
    | insert => contradiction
    | _ => rfl
  obtain ⟨hconditions, hconjunctive, hassignments⟩ := named_statement h
  constructor
  · rw [hstatement, hconditions, Call.map_key]
  · rwa [hstatement]
  · rw [hstatement, hassignments, Call.map_changes]
  · exact parameters_eq h

/-! ## Commands for new rows -/

theorem isItem_placeholder (n : Nat) : IsItem ("$" ++ toString n).toList := by
  have hchars : ("$" ++ toString n).toList = '$' :: Nat.toDigits 10 n := by
    simp
  rw [hchars]
  constructor
  · simp
  · intro c hc
    rcases List.mem_cons.mp hc with rfl | hc
    · decide
    · have hdigit := Nat.isDigit_of_mem_toDigits (by decide) (by decide) hc
      refine ⟨?_, ?_, ?_⟩ <;> rintro rfl <;> cases hdigit

theorem isItem_column {k : Kind} : ∀ column ∈ Column.all k, IsItem column.toList := by
  cases k <;> decide +kernel

theorem toList_rowPlaceholders (width row : Nat) :
    (Statement.tuple width (width * row)).toList =
      '(' :: [',', ' '].intercalate ((rowPlaceholders width row).map String.toList) ++ [')'] :=
  Statement.toList_tuple width (width * row)

theorem isItem_of_mem_rowPlaceholders {width row : Nat} :
    ∀ p ∈ rowPlaceholders width row, IsItem p.toList := by
  intro p hp
  obtain ⟨j, -, rfl⟩ := List.mem_map.mp hp
  exact isItem_placeholder _

/-- What is in the first brackets of an insert. -/
def columnList (k : Kind) : List Char :=
  [',', ' '].intercalate ((Column.all k).map String.toList)

/-- What is in the brackets of a row. -/
def rowList (k : Kind) (row : Nat) : List Char :=
  [',', ' '].intercalate ((rowPlaceholders (Column.all k).length row).map String.toList)

theorem toList_insert (k : Kind) (rows : Nat) :
    (statement k rows .insert).text.toList =
      ("INSERT INTO ".toList ++ k.name.toList ++ [' ']) ++ '(' ::
        (columnList k ++ ')' :: " VALUES ".toList ++ [',', ' '].intercalate
          (((List.range rows).map (rowList k)).map fun inside => '(' :: inside ++ [')'])) := by
  rw [statement, Statement.toList_text_insert, Statement.toList_commas, Statement.toList_commas,
    List.map_map, List.map_map]
  simp only [Function.comp_def, toList_rowPlaceholders, List.append_assoc]
  rfl

theorem length_columns_pos (k : Kind) : 0 < (Column.all k).length := by
  cases k <;> decide

theorem items_columnList (k : Kind) : items (columnList k) = Column.all k :=
  items_intercalate (List.ne_nil_of_length_pos (length_columns_pos k)) isItem_column 0

theorem items_rowList (k : Kind) (row : Nat) :
    items (rowList k row) = rowPlaceholders (Column.all k).length row := by
  have hne : rowPlaceholders (Column.all k).length row ≠ [] := by
    simpa [rowPlaceholders] using (length_columns_pos k).ne'
  exact items_intercalate hne isItem_of_mem_rowPlaceholders 0

theorem not_bracket_columnList : ∀ c ∈ columnList k, c ≠ '(' ∧ c ≠ ')' :=
  fun _ => not_bracket_of_mem isItem_column

theorem not_bracket_rowList {row : Nat} : ∀ c ∈ rowList k row, c ≠ '(' ∧ c ≠ ')' :=
  fun _ => not_bracket_of_mem isItem_of_mem_rowPlaceholders

/-- After the columns the text of an insert has a list of placeholders for each row. -/
theorem lists_insert (k : Kind) (rows : Nat) :
    lists (statement k rows .insert).text.toList =
      Column.all k :: (List.range rows).map (rowPlaceholders (Column.all k).length) := by
  have hbefore : ∀ c ∈ "INSERT INTO ".toList ++ k.name.toList ++ [' '], (c == '(') = false := by
    have hany : ("INSERT INTO ".toList ++ k.name.toList ++ [' ']).any (· == '(') = false := by
      cases k <;> decide +kernel
    exact fun c hc => Bool.eq_false_iff.mpr (List.any_eq_false.mp hany c hc)
  have hbetween : ∀ c ∈ columnList k ++ ')' :: " VALUES ".toList, c ≠ '(' := by
    have hany : (')' :: " VALUES ".toList).any (· == '(') = false := by decide +kernel
    intro c hc
    rcases List.mem_append.mp hc with hc | hc
    · exact (not_bracket_columnList c hc).1
    · exact fun heq => List.any_eq_false.mp hany c hc (beq_iff_eq.mpr heq)
  have hrows : ∀ inside ∈ (List.range rows).map (rowList k), ∀ c ∈ inside, c ≠ '(' ∧ c ≠ ')' := by
    intro inside hinside
    obtain ⟨i, -, rfl⟩ := List.mem_map.mp hinside
    exact not_bracket_rowList
  rw [lists, toList_insert, pieces_append hbefore rfl, List.tail_cons,
    insides_intercalate hrows hbetween,
    takeWhile_bracket fun c hc => (not_bracket_columnList c hc).2, List.map_cons, items_columnList, List.map_map]
  exact congrArg _ (List.map_congr_left fun i _ => items_rowList k i)

theorem insertCells_eq (tenant : String) (i : Insert k) :
    insertCells tenant i = (i.data tenant).map (cellOf ·.2) := by
  simp only [insertCells, Insert.data, cells_data, List.map_append]
  rfl

/-- Of parts of one width one after the other, an index finds the part and the place in it. -/
theorem getElem?_flatMap {α β : Type} {f : α → List β} {width : Nat}
    (h : ∀ x, (f x).length = width) (xs : List α) {i j : Nat} (hj : j < width) :
    (xs.flatMap f)[width * i + j]? = xs[i]?.bind fun x => (f x)[j]? := by
  induction xs generalizing i with
  | nil => simp
  | cons x rest ih =>
    rw [List.flatMap_cons]
    cases i with
    | zero => rw [Nat.mul_zero, Nat.zero_add, List.getElem?_append_left (by rwa [h])]; rfl
    | succ i =>
      have hindex : width * (i + 1) + j - (f x).length = width * i + j := by
        rw [h, Nat.mul_succ]
        omega
      rw [List.getElem?_append_right (by rw [h, Nat.mul_succ]; omega), hindex, ih]
      rfl

theorem getElem?_parameters_insert (tenant : String) {rows : List (Insert k)} {i j : Nat}
    {row : Insert k} {column : String} (hrow : rows[i]? = some row)
    (hcolumn : (Column.all k)[j]? = some column) :
    ∃ datum, (row.data tenant)[j]? = some (column, datum) ∧
      (parameters (.insert tenant rows))[(Column.all k).length * i + j]? =
        some (cellOf datum) := by
  have hj : j < (Column.all k).length := (List.getElem?_eq_some_iff.mp hcolumn).1
  rw [← Insert.map_data tenant row, List.getElem?_map, Option.map_eq_some_iff] at hcolumn
  obtain ⟨⟨column, datum⟩, hdatum, rfl⟩ := hcolumn
  refine ⟨datum, hdatum, ?_⟩
  rw [parameters, getElem?_flatMap (length_insertCells tenant) rows hj, hrow, Option.bind_some,
    insertCells_eq, List.getElem?_map, hdatum]
  rfl

theorem scopedInsert_ofCall (tenant : String) (rows : List (Insert k)) :
    ScopedInsert tenant rows (.ofCall (.insert tenant rows)) where
  lists := lists_insert k rows.length
  length := length_parameters_insert tenant rows
  parameter hrow hcolumn := by
    obtain ⟨datum, hdatum, hparameter⟩ := getElem?_parameters_insert tenant hrow hcolumn
    exact ⟨datum, List.mem_of_getElem? hdatum, hparameter⟩
  tenant {i row} hrow := by
    have hfirst : (Column.all k)[0]? = some "tenant" := rfl
    obtain ⟨datum, hdatum, hparameter⟩ := getElem?_parameters_insert tenant hrow hfirst
    cases hdatum
    exact hparameter

end TenantRegistry.Sql
