import TenantRegistry.Proofs.Json.ObjectText
import TenantRegistry.Proofs.Record.ConfigReadsBack
import TenantRegistry.Proofs.Store.ReplyClassified
import TenantRegistry.Proofs.Store.ScopedQuery
import TenantRegistry.Record.Shown

/-!
The configurations of exporters in replies, as strings and as trees.

A string is the stored text itself, and a tree stands for its compact text. An object is shown as
the same document in both forms, and anything but an object as a whole under one key:
`config_column`. A tree has to fit into its reply, though, and all entries of a text have to be
values, also those that are replaced: `config_forms_differ`.
-/

namespace TenantRegistry.Graphql

open Json (Written)
open Yaml (Tree)

/-! ## Rows -/

/-- The columns of an exporter's row but for the configuration. -/
structure Columns where
  name : String
  type : String
  reference : Option String
  createdAt : String
  updatedAt : String

namespace Columns

/-- The row with a stored text as its configuration. -/
def row (c : Columns) (stored : String) : Row .exporter :=
  ⟨c.name, c.type, .exporter c.reference stored, c.createdAt, c.updatedAt⟩

/-- The document with an object as the configuration. -/
def document (c : Columns) (fields : List (String × Json)) : Tree :=
  .mapping ((.string "name", .string c.name) :: textField "type" c.type ++
    (textField "credential" (c.reference.getD "") ++
      [(.string "config", .mapping (Json.toEntries fields))]) ++
    textField "created_at" c.createdAt ++ textField "updated_at" c.updatedAt)

/-- The object of a row has these columns, and `tree` as its configuration. -/
structure Has (c : Columns) (tree : Written) (entries : List (Option String × Written)) :
    Prop where
  proper : Proper entries
  name : (some "name", .string (some c.name)) ∈ entries
  type : (some "type", .string (some c.type)) ∈ entries
  reference : Optional IsText entries "credential" c.reference
  config : (some "config", tree) ∈ entries
  createdAt : (some "created_at", .string (some c.createdAt)) ∈ entries
  updatedAt : (some "updated_at", .string (some c.updatedAt)) ∈ entries

theorem shown_row (c : Columns) (stored : String) :
    (c.row stored).shown = c.document (Exporter.expand stored) := rfl

end Columns

section

variable {c : Columns} {depth : Nat} {tree : Written} {entries : List (Option String × Written)}

theorem row?_of_has {value : Json} (h : c.Has tree entries)
    (hvalue : tree.value? Json.reread (Json.depthLimit - depth) = some value) :
    row? .exporter depth (.object entries) = some (c.row (rowText value)) :=
  row?_of_isRow (.exporter h.proper h.name h.type h.reference h.config ⟨value, hvalue, rfl⟩
    h.createdAt h.updatedAt)

/-- Without a value for its configuration there is no row. -/
theorem row?_eq_none (h : c.Has tree entries)
    (hvalue : tree.value? Json.reread (Json.depthLimit - depth) = none) :
    row? .exporter depth (.object entries) = none := by
  have hreference := h.proper.optional?_eq h.reference fun _ _ => text?_of_isText
  simp only [row?, h.proper.fields?_eq, List.map_cons, List.map_nil, Option.bind_eq_bind,
    Option.bind_some, h.proper.text?_eq h.name, h.proper.text?_eq h.type,
    h.proper.head?_under h.config, hreference, Written.jsonText?, hvalue, Option.bind_none]

end

/-! ## Configurations -/

/-- Rows with this configuration are read with this stored text, whatever their other columns. -/
def Keeps (depth : Nat) (tree : Written) (stored : String) : Prop :=
  ∀ (c : Columns) (entries : List (Option String × Written)), c.Has tree entries →
    row? .exporter depth (.object entries) = some (c.row stored)

/-- Rows with this configuration are shown with this object, whatever their other columns. -/
def Shows (depth : Nat) (tree : Written) (fields : List (String × Json)) : Prop :=
  ∀ (c : Columns) (entries : List (Option String × Written)), c.Has tree entries →
    ∃ row, row? .exporter depth (.object entries) = some row ∧ row.shown = c.document fields

theorem Keeps.shows {depth : Nat} {tree : Written} {stored : String}
    {fields : List (String × Json)} (h : Keeps depth tree stored)
    (hfields : Exporter.expand stored = fields) : Shows depth tree fields := by
  intro c entries hc
  exact ⟨_, h c entries hc, by rw [c.shown_row, hfields]⟩

theorem keeps_string (depth : Nat) (stored : String) :
    Keeps depth (.string (some stored)) stored := by
  intro c entries hc
  exact row?_of_has hc (by rw [Json.Written.value?, Option.map_some])

theorem keeps_of_denotes {depth : Nat} {tree : Written} {value : Json}
    (h : Json.Denotes (Json.depthLimit - depth) tree value) : Keeps depth tree (rowText value) := by
  intro c entries hc
  exact row?_of_has hc (Json.value?_of_denotes h)

theorem rowText_of_ne {value : Json} (h : ∀ s, value ≠ .string s) : rowText value = value.text := by
  cases value with
  | string s => exact absurd rfl (h s)
  | null | bool | number | array | object => rfl

theorem expand_of_isTextOf {text : String} {fields : List (String × Json)}
    (h : Json.IsTextOf text fields) : Exporter.expand text = fields := by
  rw [Exporter.expand, Json.objectOfText?_of_isTextOf h]

theorem expand_of_not_writesObject {text : String} (h : ¬ Json.WritesObject text.toList) :
    Exporter.expand text = [("json", .string text)] := by
  rw [Exporter.expand, Json.objectOfText?_of_not_writesObject h, Exporter.unexpandedKey]

/-- An object with some data holds the configuration among them as the string of its text. -/
theorem mem_config_of_holds {object : Json} {data : List (String × Datum)} {stored : String}
    (h : Holds object data) (hdata : ("config", .text stored) ∈ data) :
    ∃ entries, object = .object entries ∧ ("config", .string stored) ∈ entries := by
  obtain ⟨entries, rfl, hperm, -⟩ := h
  refine ⟨entries, rfl, hperm.mem_iff.mpr ?_⟩
  exact List.mem_map_of_mem hdata

theorem mem_config_data {p : Payload .exporter} {reference : Option String} {stored : String}
    (h : p = .exporter reference stored) : ("config", Datum.text stored) ∈ p.data := by
  subst h
  exact List.mem_cons_of_mem _ List.mem_cons_self

/-- The configuration column in replies, where a row and what is around it are `depth`
collections. -/
structure ConfigColumn (depth : Nat) : Prop where
  /-- A string is the stored text, unchanged. -/
  verbatim : ∀ stored : String, Keeps depth (.string (some stored)) stored
  /-- As such a string an insert sends the text that it stores, -/
  inserted : ∀ (tenant : String) (rows : List (Insert .exporter)),
    ∃ objects, (Query.ofCall (.insert tenant rows)).values =
        .object [("exporters", .array objects)] ∧
      List.Forall₂ (fun i object => ∀ reference stored, i.payload = .exporter reference stored →
        ∃ entries, object = .object entries ∧ ("config", .string stored) ∈ entries) rows objects
  /-- and so does an update. -/
  updated : ∀ (tenant : String) (u : Update .exporter) (reference : Option String)
    (stored : String), u.payload = .exporter reference stored →
    ∃ entries, (Query.ofCall (.update tenant u)).values = .object entries ∧
      ("config", .string stored) ∈ entries
  /-- An object is shown as it is by every text of it, -/
  texts : ∀ (fields : List (String × Json)) (text : String), Json.IsTextOf text fields →
    Shows depth (.string (some text)) fields
  /-- of which its compact text is one, -/
  compact : ∀ fields : List (String × Json), (Json.object fields).Kept Json.depthLimit →
    Json.entriesLiteral fields = true → Json.IsTextOf (Json.object fields).text fields
  /-- and by every tree of it that fits into the reply, which stands for the compact text. -/
  trees : ∀ (fields : List (String × Json)) (tree : Written),
    (Json.object fields).Kept Json.depthLimit → Json.entriesLiteral fields = true →
    Json.Denotes (Json.depthLimit - depth) tree (.object fields) →
    Keeps depth tree (Json.object fields).text ∧ Shows depth tree fields
  /-- A text that is no object is shown whole. -/
  otherTexts : ∀ text : String, ¬ Json.WritesObject text.toList →
    Shows depth (.string (some text)) [("json", .string text)]
  /-- So is the compact text of a tree that is no object, and no string. -/
  otherTrees : ∀ (tree : Written) (value : Json),
    Json.Denotes (Json.depthLimit - depth) tree value → (∀ s, value ≠ .string s) →
    (∀ fields, value ≠ .object fields) →
    Keeps depth tree value.text ∧ Shows depth tree [("json", .string value.text)]

/-- Strings and trees in the configuration column mean the same. -/
theorem config_column (depth : Nat) : ConfigColumn depth where
  verbatim := keeps_string depth
  inserted tenant rows := by
    obtain ⟨objects, hvalues, hobjects⟩ := (scopedInsert_ofCall tenant rows).values
    refine ⟨objects, hvalues, hobjects.imp fun i object h reference stored hpayload => ?_⟩
    refine mem_config_of_holds h ?_
    have hmem := mem_config_data hpayload
    simp [Insert.data, hmem]
  updated tenant u reference stored hpayload := by
    have hverb : (Call.update tenant u).verb ≠ .insert := by simp [Call.verb]
    have hscoped : Scoped (.update tenant u) (.ofCall (.update tenant u)) := scoped_ofCall hverb
    refine mem_config_of_holds hscoped.values ?_
    have hmem := mem_config_data hpayload
    simp [Call.changes, hmem]
  texts fields text h := (keeps_string depth text).shows (expand_of_isTextOf h)
  compact fields hkept hliteral := Json.isTextOf_text hkept hliteral
  trees fields tree hkept hliteral h := by
    have hkeeps : Keeps depth tree (Json.object fields).text := keeps_of_denotes h
    exact ⟨hkeeps, hkeeps.shows (expand_of_isTextOf (Json.isTextOf_text hkept hliteral))⟩
  otherTexts text h := (keeps_string depth text).shows (expand_of_not_writesObject h)
  otherTrees tree value h hstring hobject := by
    have hkeeps := keeps_of_denotes h
    rw [rowText_of_ne hstring] at hkeeps
    exact ⟨hkeeps,
      hkeeps.shows (expand_of_not_writesObject (Json.not_writesObject_text hobject))⟩

/-- A text with two entries under one key, which is written in two ways. -/
def repeatedText : String :=
  "\x7b\"x\":0, \"\\u0078\":1\x7d"

theorem document_repeatedText : Json.Spelling.Document repeatedText.toList
    (.object [(some "x", .number (.ofInt 0)), (some "x", .number (.ofInt 1))]) := by
  have hnil : Json.Grammar.Space [] := Json.Grammar.Space.nil
  have hspace : Json.Grammar.Space [' '] := by simp [Json.Grammar.Space]
  have hcode : Json.Spelling.IsCode '0' '0' '7' '8' 'x'.toNat :=
    ⟨0, 0, 7, 8, Json.Spelling.isHexDigit_digitChar (by decide),
      Json.Spelling.isHexDigit_digitChar (by decide), Json.Spelling.isHexDigit_digitChar (by decide),
      Json.Spelling.isHexDigit_digitChar (by decide), rfl⟩
  have hx : Json.Spelling.Text ['"', '\\', 'u', '0', '0', '7', '8', '"'] "x" :=
    .mk (.cons (.code hcode (by decide)) .nil)
  have hzero : Json.Spelling.Member ['"', 'x', '"', ':', '0'] (some "x", .number (.ofInt 0)) :=
    Json.Spelling.member_quote "x" (.number (Json.Spelling.number_decimal 0))
  have hone : Json.Spelling.Member ['"', '\\', 'u', '0', '0', '7', '8', '"', ':', '1']
      (some "x", .number (.ofInt 1)) :=
    .mk hx hnil hnil (.number (Json.Spelling.number_decimal 1))
  exact .mk hnil (.object hnil hzero (.more hnil hspace hone (.done hnil))) hnil

/-- In a list of rows, the text of an object with a repeated key and a tree of the object are shown
alike. -/
theorem config_column_repeated :
    Shows listedRowDepth (.string (some repeatedText)) [("x", .number (.integer 1))] ∧
      Shows listedRowDepth (.object [(some "x", .number (.ofInt 1))])
        [("x", .number (.integer 1))] := by
  have hkept : (Json.object [("x", .number (.integer 1))]).Kept Json.depthLimit :=
    ⟨List.pairwise_singleton _ _, ⟨by decide, by decide⟩, trivial⟩
  have htext : Json.IsTextOf repeatedText [("x", .number (.integer 1))] :=
    ⟨_, _, document_repeatedText,
      .cons (.number (Json.number?_ofInt ⟨by decide, by decide⟩))
        (.cons (.number (Json.number?_ofInt ⟨by decide, by decide⟩)) .nil),
      Json.isObjectOf_insertAll _⟩
  have htree : Json.Denotes (Json.depthLimit - listedRowDepth)
      (.object [(some "x", .number (.ofInt 1))]) (.object [("x", .number (.integer 1))]) :=
    Json.denotes_written (.object [("x", .number (.integer 1))])
      ⟨List.pairwise_singleton _ _, ⟨by decide, by decide⟩, trivial⟩ rfl
  have hcolumn := config_column listedRowDepth
  exact ⟨hcolumn.texts _ _ htext, (hcolumn.trees _ _ hkept rfl htree).2⟩

/-! ## Where the forms differ -/

/-- The object of a row that has these columns. -/
def Columns.entries (c : Columns) (tree : Written) : List (Option String × Written) :=
  [(some "name", .string (some c.name)), (some "type", .string (some c.type)),
    (some "credential", c.reference.elim .null fun s => .string (some s)), (some "config", tree),
    (some "created_at", .string (some c.createdAt)),
    (some "updated_at", .string (some c.updatedAt))]

theorem Columns.has_entries (c : Columns) (tree : Written) : c.Has tree (c.entries tree) where
  proper := ⟨by simp [entries], by simp [entries]⟩
  name := by simp [entries]
  type := by simp [entries]
  reference := by
    obtain ⟨name, type, reference, createdAt, updatedAt⟩ := c
    cases reference with
    | none => exact .null (by simp [entries])
    | some s => exact .given (w := .string (some s)) (by simp [entries]) nofun rfl
  config := by simp [entries]
  createdAt := by simp [entries]
  updatedAt := by simp [entries]

/-- An empty array in `n` others. -/
def arrays : (n : Nat) → Json
  | 0 => .array []
  | n + 1 => .array [arrays n]

theorem kept_arrays {n depth : Nat} (h : n < depth) : (arrays n).Kept depth := by
  induction n generalizing depth with
  | zero =>
    obtain ⟨depth, rfl⟩ : ∃ d, depth = d + 1 := ⟨depth - 1, by omega⟩
    trivial
  | succ n ih =>
    obtain ⟨depth, rfl⟩ : ∃ d, depth = d + 1 := ⟨depth - 1, by omega⟩
    exact ⟨ih (Nat.lt_of_succ_lt_succ h), trivial⟩

theorem isLiteral_arrays (n : Nat) : (arrays n).isLiteral = true := by
  induction n with
  | zero => rfl
  | succ n ih => simp [arrays, Json.isLiteral, Json.itemsLiteral, ih]

theorem value?_arrays {reread : String → Option Json} {n depth : Nat} (h : depth ≤ n) :
    (arrays n).written.value? reread depth = none := by
  induction n generalizing depth with
  | zero =>
    rw [Nat.le_zero.mp h]
    rfl
  | succ n ih =>
    cases depth with
    | zero => rfl
    | succ depth =>
      simp [arrays, Json.written, Json.writtenItems, Json.Written.value?, Json.Written.items?,
        ih (Nat.le_of_succ_le_succ h)]

/-- Entries of which one is nested too deep are none. -/
theorem entries?_arrays {reread : String → Option Json} {n depth : Nat} (h : depth ≤ n)
    (key : String) (rest : List (String × Json)) :
    Json.Written.entries? reread depth (Json.writtenEntries ((key, arrays n) :: rest)) = none := by
  simp [Json.writtenEntries, Json.Written.entries?, value?_arrays h]

theorem value?_object_arrays {reread : String → Option Json} {n depth : Nat} (h : depth ≤ n + 1) :
    (Json.object [("a", arrays n)]).written.value? reread depth = none := by
  cases depth with
  | zero => rfl
  | succ depth =>
    have hkey : "a" ≠ Json.rawKey := by decide
    have hentries : Json.Written.entries? reread depth (Json.writtenEntries [("a", arrays n)]) =
        none := entries?_arrays (Nat.le_of_succ_le_succ h) "a" []
    rw [Json.writtenEntries] at hentries
    simp only [Json.written, Json.writtenEntries, Json.Written.value?, if_neg hkey] at hentries ⊢
    rw [hentries]
    rfl

/-- A number beyond the range of a binary64: `1e999`. -/
def tooLarge : Json.NumberText :=
  ⟨false, ['1'], [], some (false, ['9', '9', '9'])⟩

theorem number?_tooLarge : tooLarge.number? = none := by
  decide +kernel

/-- Two entries under one key, of which the first is nested 127 deep. -/
def replaced : List (String × Json) :=
  [("a", arrays 126), ("a", .number (.integer 1))]

theorem isObjectOf_replaced : Json.IsObjectOf replaced [("a", .number (.integer 1))] :=
  Json.isObjectOf_insertAll replaced

theorem objectOfText?_replaced : Json.objectOfText? (Json.object replaced).text = none := by
  have hfree : (Json.object replaced).isFloatFree = true := by decide +kernel
  have hread := Json.ofText?_compact hfree
  rw [Json.written] at hread
  have hentries : Json.Written.entries? Json.reread (Json.depthLimit - 1)
      (Json.writtenEntries replaced) = none := entries?_arrays (by decide) _ _
  simp only [Json.objectOfText?, Json.text, String.toList_ofList, hread, Option.bind_eq_bind,
    Option.bind_some, hentries, Option.bind_none]

/-- The columns of some exporter. -/
def someColumns : Columns :=
  ⟨"e", "loki", none, "t", "t"⟩

/-- A tree is not read if it is nested too deep for the reply around it, though its text is shown
as the object that it is; nor is a tree with a number out of range. A text with a value that is
nested too deep is no object, though its last entries are one. And an object that starts with
`Json.rawKey` is shown as the value of another text. -/
theorem config_forms_differ :
    (Json.object [("a", arrays 123)]).Kept Json.depthLimit ∧
    Shows singleRowDepth (.string (some (Json.object [("a", arrays 123)]).text))
      [("a", arrays 123)] ∧
    row? .exporter singleRowDepth
      (.object (someColumns.entries (Json.object [("a", arrays 123)]).written)) = none ∧
    row? .exporter singleRowDepth (.object (someColumns.entries (.number tooLarge))) = none ∧
    Json.Spelling.Document (Json.object replaced).text.toList (Json.object replaced).written ∧
    Json.IsObjectOf replaced [("a", .number (.integer 1))] ∧
    Exporter.expand (Json.object replaced).text = [("json", .string (Json.object replaced).text)] ∧
    Exporter.expand (Json.object [("a", .object [(Json.rawKey, .string "[1]")])]).text =
      [("a", .array [.number (.integer 1)])] := by
  have hkept : (Json.object [("a", arrays 123)]).Kept Json.depthLimit :=
    ⟨List.pairwise_singleton _ _, kept_arrays (by decide), trivial⟩
  have hliteral : Json.entriesLiteral [("a", arrays 123)] = true := by
    rw [Json.entriesLiteral, isLiteral_arrays]
    rfl
  refine ⟨hkept, ?_, ?_, ?_, ?_, isObjectOf_replaced, ?_, ?_⟩
  · exact (keeps_string _ _).shows (expand_of_isTextOf (Json.isTextOf_text hkept hliteral))
  · exact row?_eq_none (someColumns.has_entries _) (value?_object_arrays (by decide))
  · refine row?_eq_none (someColumns.has_entries _) ?_
    rw [Json.Written.value?, number?_tooLarge, Option.map_none]
  · rw [Json.text, String.toList_ofList]
    exact Json.Spelling.document_compact (by decide +kernel)
  · rw [Exporter.expand, objectOfText?_replaced, Exporter.unexpandedKey]
  · have hone : (Json.array [.number (.integer 1)]).Kept Json.depthLimit :=
      ⟨⟨by decide, by decide⟩, trivial⟩
    have htext : "[1]" = (Json.array [.number (.integer 1)]).text := rfl
    rw [htext, Exporter.expand_rawKey hone rfl]

end TenantRegistry.Graphql
