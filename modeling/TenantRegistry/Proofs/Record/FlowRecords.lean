import Mathlib
import TenantRegistry.Batch
import TenantRegistry.Proofs.Yaml.FlowTokens
import TenantRegistry.Proofs.Yaml.Prefix.Documents

/-!
Exporters written as mappings in braces, one document each.

The body is any number of documents `--- {"name":"...","type":"loki","config":{}}`. It is read
as the records of these names, in their order: `decodeBatch_recordsText`. Each record takes the
scanner from rest to rest and the reader from one document to the next, so the lists are read by
induction.
-/

namespace TenantRegistry.Yaml

variable {w rest : List Char} {m : Mark}

/-! ## Texts and their tokens -/

/-- A field with a text in quotes, another one following. -/
def fieldText (field text rest : List Char) : List Char :=
  quoted field ++ ':' :: (quoted text ++ ',' :: rest)

def fieldKinds (field text : List Char) : List TokenKind :=
  [.key, .scalar .doubleQuoted field, .value, .scalar .doubleQuoted text, .flowEntry]

def configField : List Char :=
  ['c', 'o', 'n', 'f', 'i', 'g']

/-- An empty configuration, which ends its record. -/
def configText (rest : List Char) : List Char :=
  quoted configField ++ ':' :: '\x7b' :: '\x7d' :: '\x7d' :: rest

def configKinds : List TokenKind :=
  [.key, .scalar .doubleQuoted configField, .value, .flowMappingStart, .flowMappingEnd,
    .flowMappingEnd]

/-- The document of a loki exporter with an empty configuration, and what follows it. -/
def recordText (name rest : List Char) : List Char :=
  '\n' :: '-' :: '-' :: '-' :: ' ' :: '\x7b' :: fieldText ['n', 'a', 'm', 'e'] name
    (fieldText ['t', 'y', 'p', 'e'] ['l', 'o', 'k', 'i'] (configText rest))

def recordKinds (name : List Char) : List TokenKind :=
  [.documentStart, .flowMappingStart] ++ (fieldKinds ['n', 'a', 'm', 'e'] name ++
    (fieldKinds ['t', 'y', 'p', 'e'] ['l', 'o', 'k', 'i'] ++ configKinds))

/-- Records one after the other. -/
def recordsText : List (List Char) → List Char
  | [] => []
  | name :: names => recordText name (recordsText names)

namespace Scanner

theorem column_along (m : Mark) (n : Nat) : (m.along (n + 1)).column ≠ 0 :=
  Nat.succ_ne_zero _

theorem column_next (m : Mark) (width : Nat) : (m.next width).column ≠ 0 :=
  Nat.succ_ne_zero _

theorem releases_field (released : Nat) {field text : List Char} (rest : List Char)
    (hm : m.column ≠ 0) (hfield : ∀ c ∈ field, IsLetter c) (hlength : field.length ≤ 1022)
    (htext : ∀ c ∈ text, IsLetter c) :
    ∃ m₁ : Mark, m₁.column ≠ 0 ∧
      Releases 9 (resting (fieldText field text rest) m 1 true released)
        (fieldKinds field text) (resting rest m₁ 1 true (released + 5)) :=
  ⟨_, column_next _ _, (releases_key hm hfield hlength).trans
    ((releases_quoted (column_along _ _) htext).trans (releases_comma (column_along _ _)))⟩

theorem releases_config (released : Nat) (rest : List Char) (hm : m.column ≠ 0) :
    ∃ m₁, Releases 11 (resting (configText rest) m 1 true released) configKinds
      (resting rest m₁ 0 false (released + 6)) :=
  ⟨_, (releases_key hm (isLetter_of_mem configField rfl) (by decide)).trans
    ((releases_openBrace (column_along _ _)).trans
      ((releases_closeBrace (column_next _ _)).trans (releases_closeBrace (column_next _ _))))⟩

theorem releases_record (m : Mark) (keyAllowed : Bool) (released : Nat) (rest : List Char)
    (hw : ∀ c ∈ w, IsLetter c) :
    ∃ m₁, Releases 33 (resting (recordText w rest) m 0 keyAllowed released) (recordKinds w)
      (resting rest m₁ 0 false (released + 18)) := by
  obtain ⟨m₁, hm₁, hname⟩ := releases_field (released + 2)
    (fieldText ['t', 'y', 'p', 'e'] ['l', 'o', 'k', 'i'] (configText rest))
    (column_along ((m.newLine 1).along 3) 1) (isLetter_of_mem ['n', 'a', 'm', 'e'] rfl)
    (by decide) hw
  obtain ⟨m₂, hm₂, htype⟩ := releases_field (released + 7) (configText rest) hm₁
    (isLetter_of_mem ['t', 'y', 'p', 'e'] rfl) (by decide)
    (isLetter_of_mem ['l', 'o', 'k', 'i'] rfl)
  obtain ⟨m₃, hend⟩ := releases_config (released + 12) rest hm₂
  exact ⟨m₃, (releases_documentStart.trans releases_spaceBrace).trans
    (hname.trans (htype.trans hend))⟩

theorem releaseAll_records {names : List (List Char)} (m : Mark) (keyAllowed : Bool)
    (released : Nat) (hnames : ∀ name ∈ names, ∀ c ∈ name, IsLetter c) :
    ∃ tokens : List Token, tokens.map (·.kind) = names.flatMap recordKinds ++ [.streamEnd] ∧
      ∀ fuel, (resting (recordsText names) m 0 keyAllowed released).releaseAll
        (fuel + (33 * names.length + 2)) = (tokens, false) := by
  induction names generalizing m keyAllowed released with
  | nil =>
    obtain ⟨t, hkind, hrun⟩ := releaseAll_end m keyAllowed released
    exact ⟨[t], by simp [hkind], hrun⟩
  | cons name names ih =>
    obtain ⟨hname, hnames⟩ := List.forall_mem_cons.mp hnames
    obtain ⟨m₁, tokens, hkinds, hrun⟩ :=
      releases_record m keyAllowed released (recordsText names) hname
    obtain ⟨later, hlater, hend⟩ := ih m₁ false (released + 18) hnames
    refine ⟨tokens ++ later, ?_, fun fuel => ?_⟩
    · rw [List.map_append, hkinds, hlater, List.flatMap_cons, List.append_assoc]
    · have hfuel : fuel + (33 * (name :: names).length + 2) =
          fuel + (33 * names.length + 2) + 33 := by
        rw [List.length_cons]
        omega
      rw [hfuel, recordsText, hrun, hend]

end Scanner

/-! ## Nodes -/

/-- Tokens of known kinds, wherever they stand. -/
theorem exists_marks {tokens : List Token} {kinds : List TokenKind}
    (h : tokens.map (·.kind) = kinds) : ∃ marks : Nat → Mark × Mark,
      tokens = kinds.mapIdx fun i kind => ⟨(marks i).1, (marks i).2, kind⟩ := by
  subst h
  refine ⟨fun i => (tokens[i]?.map fun t => (t.start, t.stop)).getD (.start, .start), ?_⟩
  refine List.ext_getElem (by simp) fun i hi _ => ?_
  simp [hi]

def recordDocument (marks : Nat → Mark × Mark) (name : List Char) : Document where
  root := .mapping ⟨(marks 1).1, none, none⟩
    [(.scalar ⟨(marks 3).1, none, none⟩ .doubleQuoted "name",
        .scalar ⟨(marks 5).1, none, none⟩ .doubleQuoted (String.ofList name)),
      (.scalar ⟨(marks 8).1, none, none⟩ .doubleQuoted "type",
        .scalar ⟨(marks 10).1, none, none⟩ .doubleQuoted "loki"),
      (.scalar ⟨(marks 13).1, none, none⟩ .doubleQuoted "config",
        .mapping ⟨(marks 15).1, none, none⟩ [])]
  size := 9
  faulty := false

/-- The tokens of a record after its `---`. -/
def contentTokens (marks : Nat → Mark × Mark) (name : List Char) : List Token :=
  let token (i : Nat) (kind : TokenKind) : Token := ⟨(marks i).1, (marks i).2, kind⟩
  let text (i : Nat) (cs : List Char) : Token := token i (.scalar .doubleQuoted cs)
  [token 1 .flowMappingStart,
    token 2 .key, text 3 ['n', 'a', 'm', 'e'], token 4 .value, text 5 name, token 6 .flowEntry,
    token 7 .key, text 8 ['t', 'y', 'p', 'e'], token 9 .value, text 10 ['l', 'o', 'k', 'i'],
    token 11 .flowEntry,
    token 12 .key, text 13 configField, token 14 .value, token 15 .flowMappingStart,
    token 16 .flowMappingEnd, token 17 .flowMappingEnd]

theorem run_content (marks : Nat → Mark × Mark) (name : List Char) (rest : List Token)
    (handles : List (List Char × List UInt8)) (fuel : Nat) :
    (Reader.explicitContent (fuel + 20)).run ⟨contentTokens marks name ++ rest, handles, [], 0⟩ =
      ((recordDocument marks name).root, ⟨rest, handles, [], 9⟩) := by
  rfl

theorem laterDocuments_record {marks : Nat → Mark × Mark} {t : Token} {rest : List Token}
    (fuel : Nat) :
    Reader.laterDocuments (fuel + 1)
        ((recordKinds w).mapIdx (fun i kind => ⟨(marks i).1, (marks i).2, kind⟩) ++ t :: rest) =
      recordDocument marks w :: Reader.laterDocuments fuel (t :: rest) := by
  have htokens : (recordKinds w).mapIdx (fun i kind => ⟨(marks i).1, (marks i).2, kind⟩) =
      ⟨(marks 0).1, (marks 0).2, .documentStart⟩ :: contentTokens marks w := by
    simp only [recordKinds, fieldKinds, configKinds, List.cons_append, List.nil_append,
      List.mapIdx_cons, List.mapIdx_nil]
    rfl
  have hdocument : Reader.document Reader.standardHandles (contentTokens marks w ++ t :: rest)
      Reader.explicitContent = (recordDocument marks w, t :: rest) := by
    have hfuel : 4 * (contentTokens marks w ++ t :: rest).length + 4 =
        4 * (t :: rest).length + 52 + 20 := by
      rw [List.length_append, Nat.mul_add]
      show 4 * 17 + _ + 4 = _
      omega
    rw [Reader.document, hfuel, run_content]
    rfl
  have hdirectives : Reader.directives [] false (Reader.skipEnds
      (⟨(marks 0).1, (marks 0).2, .documentStart⟩ :: (contentTokens marks w ++ t :: rest))) =
        some (Reader.standardHandles, ⟨(marks 0).1, (marks 0).2, .documentStart⟩ ::
          (contentTokens marks w ++ t :: rest)) := rfl
  rw [htokens, List.cons_append, Reader.laterDocuments_of_start hdirectives, hdocument]
  rfl

end TenantRegistry.Yaml

namespace TenantRegistry

open Yaml

/-- A loki exporter with an empty configuration. -/
def emptyLoki (name : String) : Submission .exporter :=
  ⟨name, "loki", .exporter none (.mapping [])⟩

theorem ofDocument_record (marks : Nat → Mark × Mark) (name : List Char) :
    Submission.ofDocument .exporter (recordDocument marks name) =
      .ok (some (emptyLoki (String.ofList name))) := by
  rfl

/-- Documents of such records hold the records in their order. -/
theorem recordsOf_records {names : List (List Char)} {tokens : List Token} (index fuel : Nat)
    (hkinds : tokens.map (·.kind) = names.flatMap recordKinds ++ [.streamEnd]) :
    recordsOf .exporter index (Reader.laterDocuments (fuel + names.length + 1) tokens) =
      names.map fun name => .ok (emptyLoki (String.ofList name)) := by
  induction names generalizing tokens index with
  | nil =>
    obtain ⟨⟨m, stop, kind⟩, later, rfl, rfl, -⟩ := List.map_eq_cons_iff.mp hkinds
    rfl
  | cons name names ih =>
    rw [List.flatMap_cons, List.append_assoc] at hkinds
    obtain ⟨first, later, rfl, hfirst, hlater⟩ := List.map_eq_append_iff.mp hkinds
    obtain ⟨marks, rfl⟩ := exists_marks hfirst
    obtain ⟨t, rest, rfl⟩ : ∃ t rest, later = t :: rest := by
      cases later with
      | nil => simp at hlater
      | cons t rest => exact ⟨t, rest, rfl⟩
    rw [List.length_cons, show fuel + (names.length + 1) + 1 = fuel + names.length + 1 + 1 by omega,
      laterDocuments_record, recordsOf, ofDocument_record, List.map_cons]
    exact congrArg _ (ih (index + 1) hlater)

/-! ## Whole bodies -/

/-- The characters of such bodies are printable ones of ASCII and line feeds. -/
def isPlainChar (c : Char) : Bool :=
  c == '\n' || decide (0x20 ≤ c.toNat ∧ c.toNat ≤ 0x7E)

theorem isPlainChar_of_isAlphanum {c : Char} (h : c.isAlphanum = true) : isPlainChar c = true := by
  have hrange : 0x20 ≤ c.toNat ∧ c.toNat ≤ 0x7E := by
    have hcode := code_of_isAlphanum h
    omega
  rw [isPlainChar, decide_eq_true hrange, Bool.or_true]

theorem isAllowedChar_of_isPlainChar {c : Char} (h : isPlainChar c = true) :
    isAllowedChar c = true := by
  rcases Bool.or_eq_true_iff.mp h with h | h
  · rw [beq_iff_eq.mp h]
    rfl
  · simp [isAllowedChar, of_decide_eq_true h]

theorem toNat_lt_of_isPlainChar {c : Char} (h : isPlainChar c = true) : c.toNat < 0x80 := by
  rcases Bool.or_eq_true_iff.mp h with h | h
  · rw [beq_iff_eq.mp h]
    decide
  · have hrange := of_decide_eq_true h
    omega

theorem all_recordText (name rest : List Char) :
    (recordText name rest).all isPlainChar = (name.all isPlainChar && rest.all isPlainChar) := by
  simp [recordText, fieldText, configText, configField, quoted, isPlainChar]

theorem isPlainChar_of_mem_recordsText {names : List (List Char)}
    (h : ∀ name ∈ names, name.all Char.isAlphanum = true) :
    ∀ c ∈ recordsText names, isPlainChar c = true := by
  refine List.all_eq_true.mp ?_
  induction names with
  | nil => rfl
  | cons name names ih =>
    obtain ⟨hname, hnames⟩ := List.forall_mem_cons.mp h
    rw [recordsText, all_recordText, ih hnames, Bool.and_true]
    exact List.all_eq_true.mpr fun c hc =>
      isPlainChar_of_isAlphanum (List.all_eq_true.mp hname c hc)

theorem length_recordText (name rest : List Char) :
    (recordText name rest).length = name.length + rest.length + 42 := by
  simp [recordText, fieldText, configText, configField, quoted]
  omega

theorem length_recordsText (names : List (List Char)) :
    (recordsText names).length = names.flatten.length + 42 * names.length := by
  induction names with
  | nil => rfl
  | cons name names ih =>
    rw [recordsText, length_recordText, ih, List.flatten_cons, List.length_append, List.length_cons]
    omega

theorem length_flatMap_recordKinds (names : List (List Char)) :
    (names.flatMap recordKinds).length = 18 * names.length := by
  induction names with
  | nil => rfl
  | cons name names ih =>
    rw [List.flatMap_cons, List.length_append, ih, List.length_cons]
    show 18 + _ = _
    omega

/-- The tokens of such a body, of which nothing is faulty. -/
theorem ofText_recordsText {names : List (List Char)}
    (h : ∀ name ∈ names, name.all Char.isAlphanum = true) :
    ∃ tokens : List Token, tokens.map (·.kind) = names.flatMap recordKinds ++ [.streamEnd] ∧
      Token.ofText (recordsText names) = (tokens, false) := by
  obtain ⟨tokens, hkinds, hrun⟩ := Scanner.releaseAll_records Mark.start true 0
    fun name hname => isLetter_of_mem name (h name hname)
  refine ⟨tokens, hkinds, ?_⟩
  have hsource : Source.ofText (recordsText names) = ⟨recordsText names, false⟩ :=
    Source.ofText_of_allowed fun c hc =>
      isAllowedChar_of_isPlainChar (isPlainChar_of_mem_recordsText h c hc)
  obtain ⟨fuel, hfuel⟩ : ∃ fuel, 6 * (recordsText names).length + 10 =
      fuel + (33 * names.length + 2) := by
    have hlength := length_recordsText names
    exact ⟨6 * (recordsText names).length + 8 - 33 * names.length, by omega⟩
  rw [Token.ofText, hsource]
  show (Scanner.resting (recordsText names) Mark.start 0 true 0).releaseAll
    (6 * (recordsText names).length + 10) = _
  rw [hfuel, hrun]

/-- A body of such records is read as these records. -/
theorem decodeBatch_recordsText {names : List (List Char)} (hne : names ≠ [])
    (h : ∀ name ∈ names, name.all Char.isAlphanum = true) :
    decodeBatch .exporter (String.ofList (recordsText names)) =
      names.map fun name => .ok (emptyLoki (String.ofList name)) := by
  obtain ⟨tokens, hkinds, htokens⟩ := ofText_recordsText h
  obtain ⟨fuel, hfuel⟩ : ∃ fuel, tokens.length = fuel + names.length := by
    have hlength := congrArg List.length hkinds
    rw [List.length_map, List.length_append, length_flatMap_recordKinds] at hlength
    exact ⟨tokens.length - names.length, by omega⟩
  obtain ⟨name, others, rfl⟩ := List.exists_cons_of_ne_nil hne
  obtain ⟨⟨m, stop, kind⟩, later, rfl, rfl, -⟩ := List.map_eq_cons_iff.mp hkinds
  rw [← recordsOf_records 0 fuel hkinds, ← hfuel, decodeBatch, Document.ofText,
    String.toList_ofList, htokens]
  rfl

end TenantRegistry
