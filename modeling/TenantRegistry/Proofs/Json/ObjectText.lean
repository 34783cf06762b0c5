import TenantRegistry.Proofs.Json.ReadBack
import TenantRegistry.Proofs.Yaml.WrittenLines

/-!
Which texts write objects.

`IsTextOf` says which texts write an object: the last entry of a key counts, whatever the order of
the entries, but all of them must be values. A text of an object is read as the object
(`objectOfText?_of_isTextOf`), its compact text among them (`isTextOf_text`), and no object is read
from a text that writes none (`objectOfText?_of_not_writesObject`).
-/

namespace TenantRegistry.Json

open Written

/-! ## Texts of objects -/

/-- A text writes entries that make an object. All of them have to be values, also those that
later ones replace. At the top `rawKey` is a key like any other. -/
def IsTextOf (text : String) (fields : List (String × Json)) : Prop :=
  ∃ ws entries, Spelling.Document text.toList (.object ws) ∧
    DenotesEntries (depthLimit - 1) ws entries ∧ IsObjectOf entries fields

theorem objectOfText?_of_isTextOf {text : String} {fields : List (String × Json)}
    (h : IsTextOf text fields) : objectOfText? text = some fields := by
  obtain ⟨ws, entries, hdocument, hentries, hobject⟩ := h
  simp only [objectOfText?, Spelling.ofText?_of_document hdocument, Option.bind_eq_bind,
    Option.bind_some, entries?_of_denotes hentries, ofEntries_of_isObjectOf hobject]

theorem isTextOf_text {fields : List (String × Json)} (h : (Json.object fields).Kept depthLimit)
    (hliteral : entriesLiteral fields = true) : IsTextOf (Json.object fields).text fields := by
  have hfree := isFloatFree_of_kept _ h
  obtain ⟨hordered, hkept⟩ : (fields.Pairwise fun a b => a.1 < b.1) ∧
      KeptEntries (depthLimit - 1) fields := h
  refine ⟨writtenEntries fields, fields, ?_, denotesEntries_written fields hkept hliteral,
    isObjectOf_of_ordered hordered⟩
  rw [text, String.toList_ofList]
  exact Spelling.document_compact hfree

/-! ## Other texts -/

/-- A text that is an object, whatever stands in it. -/
def WritesObject (cs : List Char) : Prop :=
  ∃ a v b, cs = a ++ (v ++ b) ∧ Grammar.Space a ∧ Grammar.Value v ∧ Grammar.Space b ∧
    v.head? = some '\x7b'

theorem head?_of_takeValue_object {fuel : Nat} {cs rest : List Char}
    {ws : List (Option String × Written)} (h : takeValue fuel cs = some (.object ws, rest)) :
    (skipSpace cs).head? = some '\x7b' := by
  cases fuel with
  | zero => cases h
  | succ fuel =>
    unfold takeValue at h
    split at h
    · cases h
    · next c tail hskip =>
      rw [hskip, List.head?_cons]
      by_contra hc
      rw [if_neg fun heq => hc (congrArg some heq)] at h
      -- Whatever else a value starts with, it is no object.
      split at h
      · split at h
        · cases h
        · simp [Option.bind_eq_some_iff] at h
      · split at h
        · simp [Option.bind_eq_some_iff] at h
        · split at h
          · simp [takeWord] at h
          · split at h
            · simp [takeWord] at h
            · split at h
              · simp [takeWord] at h
              · simp [Option.bind_eq_some_iff] at h

theorem writesObject_of_ofText? {cs : List Char} {ws : List (Option String × Written)}
    (h : ofText? cs = some (.object ws)) : WritesObject cs := by
  simp only [ofText?, Option.bind_eq_bind, Option.bind_eq_some_iff] at h
  obtain ⟨⟨w, rest⟩, hvalue, hend⟩ := h
  split at hend
  · next hempty =>
    cases hend
    have hhead := head?_of_takeValue_object hvalue
    obtain ⟨a, v, rfl, ha, hv⟩ := Grammar.value_of_takeValue hvalue
    obtain ⟨c, tail, rfl, hc, -⟩ := hv.exists_cons
    rw [Grammar.skipSpace_append ha, List.cons_append, Grammar.skipSpace_of_not_space hc] at hhead
    exact ⟨a, _, rest, rfl, ha, hv, Grammar.skipSpace_eq_nil.mp hempty, hhead⟩
  · cases hend

/-- No object is read from a text that writes none. -/
theorem objectOfText?_of_not_writesObject {text : String} (h : ¬ WritesObject text.toList) :
    objectOfText? text = none := by
  rw [Option.eq_none_iff_forall_ne_some]
  intro fields hfields
  simp only [objectOfText?, Option.bind_eq_bind, Option.bind_eq_some_iff] at hfields
  obtain ⟨w, hw, hfields⟩ := hfields
  cases w with
  | object ws => exact h (writesObject_of_ofText? hw)
  | null | bool | number | string | array => cases hfields

theorem WritesObject.head {cs : List Char} (h : WritesObject cs) :
    ∃ c ∈ cs.head?, isSpace c = true ∨ c = '\x7b' := by
  obtain ⟨a, v, b, rfl, ha, -, -, hv⟩ := h
  cases a with
  | nil =>
    obtain ⟨tail, rfl⟩ := List.head?_eq_some_iff.mp hv
    exact ⟨_, rfl, .inr rfl⟩
  | cons c a => exact ⟨c, rfl, .inl (Grammar.isSpace_iff.mpr (ha c List.mem_cons_self))⟩

theorem isNumberChar_of_mem_write {x : Binary64} {l : Binary64.Layout} {c : Char}
    (h : c ∈ x.write l) : Yaml.isNumberChar c = true := by
  obtain ⟨sign, body, hwrite, hsign, hbody⟩ := Yaml.exists_signed_write x l
  rw [hwrite, List.mem_append] at h
  rcases h with h | h
  · rcases hsign with rfl | rfl
    · cases h
    · rw [List.mem_singleton.mp h]; rfl
  · exact hbody.1 c h

theorem not_brace_of_isNumberChar {c : Char} (h : Yaml.isNumberChar c = true) :
    isSpace c = false ∧ c ≠ '\x7b' := by
  rw [Yaml.isNumberChar, Bool.or_eq_true] at h
  rcases h with h | h
  · have hne : ∀ d, d.isDigit = false → c ≠ d := fun d hd => Grammar.ne_of_isDigit h hd
    exact ⟨by simp [isSpace, hne ' ' rfl, hne '\t' rfl, hne '\n' rfl, hne '\r' rfl], hne _ rfl⟩
  · have hmarks : ".e+-infa".toList = ['.', 'e', '+', '-', 'i', 'n', 'f', 'a'] := by decide
    simp only [hmarks, List.contains_iff_mem, List.mem_cons, List.not_mem_nil, or_false] at h
    rcases h with rfl | rfl | rfl | rfl | rfl | rfl | rfl | rfl <;> decide

theorem head_compact {j : Json} (h : ∀ fields, j ≠ .object fields) :
    ∀ c ∈ (compact j).head?, isSpace c = false ∧ c ≠ '\x7b' := by
  intro c hc
  cases j with
  | null => cases hc; decide
  | bool b => cases b <;> (cases hc; decide)
  | number n =>
    cases n with
    | integer n =>
      obtain ⟨d, tail, hdecimal, hd⟩ := (Spelling.number_decimal n).grammar.exists_cons
      rw [compact, numberText, hdecimal] at hc
      cases hc
      rcases hd with hd | rfl
      · exact not_brace_of_isNumberChar (Yaml.isNumberChar_of_isDigit hd)
      · decide
    | float x =>
      rw [compact, numberText] at hc
      split at hc
      · exact not_brace_of_isNumberChar (isNumberChar_of_mem_write (List.mem_of_mem_head? hc))
      · cases hc; decide
  | string s => cases hc; decide
  | array items => cases items <;> (cases hc; decide)
  | object fields => exact absurd rfl (h fields)

/-- The compact text of anything else writes no object. -/
theorem not_writesObject_text {j : Json} (h : ∀ fields, j ≠ .object fields) :
    ¬ WritesObject j.text.toList := by
  rw [text, String.toList_ofList]
  intro hwrites
  obtain ⟨c, hc, hstart⟩ := hwrites.head
  obtain ⟨hspace, hbrace⟩ := head_compact h c hc
  rcases hstart with hstart | hstart
  · rw [hspace] at hstart; cases hstart
  · exact hbrace hstart

end TenantRegistry.Json
