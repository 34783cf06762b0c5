import Mathlib
import TenantRegistry.Proofs.Batch.Planned
import TenantRegistry.Proofs.Record.ContentRead
import TenantRegistry.Proofs.Record.Payload
import TenantRegistry.Proofs.Yaml.NormalForm

/-!
Configurations of exporters, from the body of a write to the document that shows them.

A configuration without floats is stored as the compact text of its JSON form. The text is expanded
into that form again exactly if no object in it starts with `Json.rawKey`, and two configurations
are stored as one text exactly if they are the same up to tags and the order of mappings:
`config_reads_back`.
-/

namespace TenantRegistry

open Yaml (Tree)

/-- The record is accepted, as a new one or for a stored one, and its configuration is stored as a
text. -/
def Submission.StoresConfig (s : Submission .exporter) (ctx : BatchContext) (stored : String) :
    Prop :=
  (∃ i reference, s.toInsert ctx = .ok i ∧ i.payload = .exporter reference stored) ∨
    ∃ current u reference, s.toUpdate current ctx = .ok u ∧ u.payload = .exporter reference stored

namespace Exporter

theorem encode_of_payload {c : Content .exporter} {name type stored : String} {maxDepth : Nat}
    {reference : Option String}
    (h : c.payload name type maxDepth = .ok (.exporter reference stored)) :
    encode name maxDepth c.tree = .ok stored := by
  cases c with
  | exporter submitted config =>
    obtain ⟨_, hencode, heq⟩ := Tree.exists_of_map_eq_ok h
    cases heq
    exact hencode

theorem encode_of_storesConfig {s : Submission .exporter} {ctx : BatchContext} {stored : String}
    (h : s.StoresConfig ctx stored) : encode s.name ctx.maxDepth s.content.tree = .ok stored := by
  rcases h with ⟨i, reference, hi, hpayload⟩ | ⟨current, u, reference, hu, hpayload⟩
  · obtain ⟨_, _, p, hp, rfl⟩ := Submission.toInsert_eq_ok hi
    cases hpayload
    exact encode_of_payload hp
  · obtain ⟨_, p, hp, rfl⟩ := Submission.toUpdate_eq_ok hu
    cases hpayload
    exact encode_of_payload hp

theorem exists_of_encode {name stored : String} {maxDepth : Nat} {config : Tree}
    (h : encode name maxDepth config = .ok stored) :
    ∃ entries, config.normalize maxDepth = .ok (.object entries) ∧
      stored = (Json.object entries).text := by
  unfold encode at h
  split at h
  · next entries hmap =>
    split at h
    · next json hjson =>
      cases h
      obtain ⟨es, rfl⟩ := Tree.exists_normalizeAt hmap hjson
      exact ⟨_, hjson, rfl⟩
    · cases h
  · cases h

/-- What is known of a configuration without floats that is stored. -/
theorem exists_form {body : String} {s : Submission .exporter} {ctx : BatchContext}
    {stored : String} (hs : .ok s ∈ decodeBatch .exporter body)
    (hfloat : s.content.tree.isFloatFree = true) (h : s.StoresConfig ctx stored) :
    ∃ entries, s.content.tree.normalize ctx.maxDepth = .ok (.object entries) ∧
      stored = (Json.object entries).text ∧
      Tree.Form Json.depthLimit s.content.tree.stripped (.object entries) := by
  obtain ⟨entries, hnormalize, htext⟩ := exists_of_encode (encode_of_storesConfig h)
  refine ⟨entries, hnormalize, htext, ?_⟩
  exact Tree.form_of_normalizeAt s.content.tree (asRead_of_decodeBatch hs) hfloat hnormalize

theorem expand_of_literal {entries : List (String × Json)}
    (h : (Json.object entries).Kept Json.depthLimit)
    (hliteral : Json.entriesLiteral entries = true) :
    expand (Json.object entries).text = entries := by
  rw [expand, (Json.objectOfText?_text_iff h).mpr hliteral]

theorem expand_ne_of_not_literal {entries : List (String × Json)}
    (h : (Json.object entries).Kept Json.depthLimit)
    (hliteral : ¬ Json.entriesLiteral entries = true) :
    expand (Json.object entries).text ≠ entries := by
  unfold expand
  split
  · next es hes =>
    rintro rfl
    exact hliteral ((Json.objectOfText?_text_iff h).mp hes)
  · rintro heq
    -- A text under the one key that is left is literal.
    rw [← heq] at hliteral
    exact hliteral rfl

/-- A configuration without floats is stored as the text of its JSON form. It is expanded into that
form again exactly if no object in it starts with `Json.rawKey`; and another one is stored as the
same text exactly if the two are the same but for tags and the order of mappings. -/
theorem config_reads_back {body : String} {s : Submission .exporter} {ctx : BatchContext}
    {stored : String} (hs : .ok s ∈ decodeBatch .exporter body)
    (hfloat : s.content.tree.isFloatFree = true) (h : s.StoresConfig ctx stored) :
    (∃ entries, s.content.tree.normalize ctx.maxDepth = .ok (.object entries) ∧
      stored = (Json.object entries).text ∧
      (Json.entriesLiteral entries = true → Json.objectOfText? stored = some entries) ∧
      (expand stored = entries ↔ Json.entriesLiteral entries = true)) ∧
    ∀ {body' : String} {s' : Submission .exporter} {ctx' : BatchContext} {stored' : String},
      .ok s' ∈ decodeBatch .exporter body' → s'.content.tree.isFloatFree = true →
      s'.StoresConfig ctx' stored' →
        (stored = stored' ↔ s.content.tree.stripped.same s'.content.tree.stripped = true) := by
  obtain ⟨entries, hnormalize, htext, hform⟩ := exists_form hs hfloat h
  have hkept := Tree.kept_of_form hform
  refine ⟨⟨entries, hnormalize, htext, fun hliteral => ?_, ?_⟩, ?_⟩
  · rw [htext]
    exact (Json.objectOfText?_text_iff hkept).mpr hliteral
  · rw [htext]
    exact ⟨fun heq => not_not.mp fun hnot => expand_ne_of_not_literal hkept hnot heq,
      expand_of_literal hkept⟩
  · intro body' s' ctx' stored' hs' hfloat' h'
    obtain ⟨entries', _, htext', hform'⟩ := exists_form hs' hfloat' h'
    have hkept' := Tree.kept_of_form hform'
    rw [← Tree.form_eq_iff hform hform', htext, htext']
    have hfree := Json.isFloatFree_of_kept _ hkept
    have hfree' := Json.isFloatFree_of_kept _ hkept'
    exact ⟨Json.eq_of_text_eq hfree hfree', fun heq => by rw [heq]⟩

/-! ## Two configurations -/

/-- The properties of a node without anchor or tag. -/
def propsAt (index line column : Nat) : Yaml.Properties :=
  ⟨⟨index, line, column⟩, none, none⟩

def listBody : String :=
  "name: e\ntype: loki\nconfig:\n b: -1\n a: [x, 'y']"

def listDocument : Yaml.Document where
  root := .mapping (propsAt 0 0 0)
    [(.scalar (propsAt 0 0 0) .plain "name", .scalar (propsAt 6 0 6) .plain "e"),
      (.scalar (propsAt 8 1 0) .plain "type", .scalar (propsAt 14 1 6) .plain "loki"),
      (.scalar (propsAt 19 2 0) .plain "config", .mapping (propsAt 28 3 1)
        [(.scalar (propsAt 28 3 1) .plain "b", .scalar (propsAt 31 3 4) .plain "-1"),
          (.scalar (propsAt 35 4 1) .plain "a", .sequence (propsAt 38 4 4)
            [.scalar (propsAt 39 4 5) .plain "x", .scalar (propsAt 42 4 8) .singleQuoted "y"])])]
  size := 16
  faulty := false

def listRecord : Submission .exporter :=
  ⟨"e", "loki", .exporter none (.mapping [(.string "b", .number (.integer (-1))),
    (.string "a", .sequence [.string "x", .string "y"])])⟩

set_option maxRecDepth 100000 in
theorem ofText_listBody : Yaml.Document.ofText listBody = [listDocument] := by
  cbv

theorem decodeBatch_listBody : decodeBatch .exporter listBody = [.ok listRecord] := by
  have hread : Submission.ofDocument .exporter listDocument = .ok (some listRecord) := rfl
  simp only [decodeBatch, ofText_listBody, recordsOf, hread]

/-- A body with `Json.rawKey` in its configuration. -/
def rawBody : String :=
  "name: e\ntype: loki\nconfig:\n a:\n  $serde_json::private::RawValue: '[1]'"

def rawDocument : Yaml.Document where
  root := .mapping (propsAt 0 0 0)
    [(.scalar (propsAt 0 0 0) .plain "name", .scalar (propsAt 6 0 6) .plain "e"),
      (.scalar (propsAt 8 1 0) .plain "type", .scalar (propsAt 14 1 6) .plain "loki"),
      (.scalar (propsAt 19 2 0) .plain "config", .mapping (propsAt 28 3 1)
        [(.scalar (propsAt 28 3 1) .plain "a", .mapping (propsAt 33 4 2)
          [(.scalar (propsAt 33 4 2) .plain "$serde_json::private::RawValue",
            .scalar (propsAt 65 4 34) .singleQuoted "[1]")])])]
  size := 14
  faulty := false

def rawRecord : Submission .exporter :=
  ⟨"e", "loki", .exporter none
    (.mapping [(.string "a", .mapping [(.string Json.rawKey, .string "[1]")])])⟩

set_option maxRecDepth 100000 in
theorem ofText_rawBody : Yaml.Document.ofText rawBody = [rawDocument] := by
  cbv

theorem decodeBatch_rawBody : decodeBatch .exporter rawBody = [.ok rawRecord] := by
  have hread : Submission.ofDocument .exporter rawDocument = .ok (some rawRecord) := rfl
  simp only [decodeBatch, ofText_rawBody, recordsOf, hread]

def shortly : BatchContext :=
  ⟨⟨10, 0⟩, 8⟩

/-- What is stored of `listRecord`. -/
def listText : String :=
  "\x7b\"a\":[\"x\",\"y\"],\"b\":-1\x7d"

/-- What is stored of `rawRecord`. -/
def rawText : String :=
  "\x7b\"a\":\x7b\"$serde_json::private::RawValue\":\"[1]\"\x7d\x7d"

theorem storesConfig_listRecord : listRecord.StoresConfig shortly listText :=
  .inl ⟨_, _, rfl, rfl⟩

theorem storesConfig_rawRecord : rawRecord.StoresConfig shortly rawText :=
  .inl ⟨_, _, rfl, rfl⟩

/-- The one configuration is read back; the other one is stored as another text. -/
theorem config_reads_back_lists :
    (∃ entries, listRecord.content.tree.normalize 8 = .ok (.object entries) ∧
      listText = (Json.object entries).text ∧ expand listText = entries) ∧
    listText ≠ rawText := by
  obtain ⟨⟨entries, hnormalize, htext, _, hexpand⟩, hother⟩ :=
    config_reads_back (by rw [decodeBatch_listBody]; exact .head _) rfl storesConfig_listRecord
  refine ⟨⟨entries, hnormalize, htext, hexpand.mpr ?_⟩, ?_⟩
  · cases hnormalize
    decide
  · have hraw := hother (by rw [decodeBatch_rawBody]; exact .head _) rfl storesConfig_rawRecord
    exact fun heq => absurd (hraw.mp heq) (by decide)

/-- An object that holds the text of a literal value under `Json.rawKey` alone is expanded into the
value. -/
theorem expand_rawKey {key : String} {j : Json} (h : j.Kept Json.depthLimit)
    (hliteral : j.isLiteral = true) :
    expand (Json.object [(key, .object [(Json.rawKey, .string j.text)])]).text = [(key, j)] := by
  rw [expand, Json.objectOfText?_rawKey h hliteral]

/-- A configuration in which an object has the one key `Json.rawKey` is expanded into what the text
under the key writes. -/
theorem config_of_rawKey :
    .ok rawRecord ∈ decodeBatch .exporter rawBody ∧
    rawRecord.content.tree.isFloatFree = true ∧
    rawRecord.StoresConfig shortly rawText ∧
    rawRecord.content.tree.normalize 8 =
      .ok (.object [("a", .object [(Json.rawKey, .string "[1]")])]) ∧
    expand rawText = [("a", .array [.number (.integer 1)])] := by
  have htext : rawText = (Json.object [("a", .object [(Json.rawKey,
      .string (Json.array [.number (.integer 1)]).text)])]).text := rfl
  have hkept : (Json.array [.number (.integer 1)]).Kept Json.depthLimit :=
    ⟨⟨by decide, by decide⟩, trivial⟩
  refine ⟨?_, rfl, storesConfig_rawRecord, rfl, ?_⟩
  · rw [decodeBatch_rawBody]
    exact .head _
  · rw [htext, expand_rawKey hkept rfl]

end Exporter
end TenantRegistry
