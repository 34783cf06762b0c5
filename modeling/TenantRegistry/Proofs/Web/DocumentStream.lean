import Mathlib.Data.List.Forall2
import TenantRegistry.Proofs.Yaml.DocumentEnds
import TenantRegistry.Proofs.Yaml.Rendered
import TenantRegistry.Proofs.Yaml.StreamCut
import TenantRegistry.Web.Response

/-!
A response with documents, cut where it was put together.

No line of a document begins with `---`, so a reader who takes for line breaks what YAML does
finds exactly the documents that were written, whatever strings they hold: `documents_cut`. One
who knows line feeds alone may miss a separator after a document that ends otherwise.
-/

namespace TenantRegistry.Yaml.Tree

open ScalarText (endsWith)

variable {p : Char → Bool}

theorem renderAll_eq {ts : List Tree} {texts : List (List Char)}
    (h : List.Forall₂ (fun t text => t.render = some text) ts texts) :
    renderAll ts = some (separator.intercalate texts) := by
  induction h with
  | nil => rfl
  | cons ht hrest ih =>
    cases hrest with
    | nil => rw [renderAll, ht, List.intercalate_singleton]
    | cons =>
      rw [renderAll, ht, ih, List.intercalate_cons_cons]
      · rfl
      · exact nofun

theorem isDocument_of_render (hp : BreaksLines p) {t : Tree} {text : List Char}
    (h : t.render = some text) : IsDocument p text where
  nonempty := by
    rintro rfl
    cases getLast?_render h
  noMarker := not_marker_prefix_of_render hp h

theorem endsWith_render {t : Tree} {text : List Char} (h : t.render = some text) :
    endsWith p text = p t.closing := by
  rw [endsWith, getLast?_render h]
  rfl

end TenantRegistry.Yaml.Tree

/-! ## Documents that clients see -/

namespace TenantRegistry

open Yaml

/-- A document that clients see. -/
inductive ShownDocument where
  | row {k : Kind} (r : Row k)
  | summary (s : Summary)

/-- Nothing but a line feed comes after a time without one. -/
theorem Row.closing_shown {k : Kind} (r : Row k) (hne : r.updatedAt ≠ "")
    (hlineFeed : '\n' ∉ r.updatedAt.toList) : r.shown.closing = '\n' := by
  have hform : ScalarText.form false r.updatedAt ≠ .literal :=
    fun h => hlineFeed (ScalarText.literal_of_form h).1
  have hlast : r.shown.ownEnd? = none := by
    have hend : Tree.literalEnd? r.updatedAt = none := if_neg hform
    rw [Row.shown, textField.eq_def "updated_at", if_neg hne, Tree.ownEnd?_mapping_append]
    exact hend
  rw [Tree.closing, hlast]
  rfl

namespace ShownDocument

def tree : ShownDocument → Tree
  | .row r => r.shown
  | .summary s => s.shown

theorem isUntagged_tree (d : ShownDocument) : d.tree.isUntagged = true := by
  cases d with
  | row r => exact r.isUntagged_shown
  | summary s => exact s.isUntagged_shown

theorem exists_texts (docs : List ShownDocument) :
    ∃ texts, List.Forall₂ (fun d text => d.tree.render = some text) docs texts := by
  induction docs with
  | nil => exact ⟨[], .nil⟩
  | cons d rest ih =>
    obtain ⟨text, htext⟩ := Tree.exists_render d.isUntagged_tree
    obtain ⟨texts, htexts⟩ := ih
    exact ⟨text :: texts, .cons htext htexts⟩

theorem forall_isDocument {p : Char → Bool} (hp : BreaksLines p) {docs : List ShownDocument}
    {texts : List (List Char)}
    (h : List.Forall₂ (fun d text => d.tree.render = some text) docs texts) :
    ∀ text ∈ texts, IsDocument p text := by
  induction h with
  | nil => simp
  | cons ht _ ih => exact List.forall_mem_cons.mpr ⟨Tree.isDocument_of_render hp ht, ih⟩

/-- The texts that end with a break are those of the documents that do. -/
theorem forall_dropLast_iff {p : Char → Bool} {docs : List ShownDocument} {texts : List (List Char)}
    (h : List.Forall₂ (fun d text => d.tree.render = some text) docs texts) :
    (∀ text ∈ texts.dropLast, ScalarText.endsWith p text = true) ↔
      ∀ d ∈ docs.dropLast, p d.tree.closing = true := by
  induction h with
  | nil => simp
  | cons ht hrest ih =>
    cases hrest with
    | nil => simp
    | cons =>
      rw [List.dropLast_cons_cons, List.dropLast_cons_cons, List.forall_mem_cons,
        List.forall_mem_cons, ih, Tree.endsWith_render ht]

end ShownDocument

/-! ## Responses -/

namespace Web.Response

/-- A response with documents has one text for each, in order. A text ends with its `closing` line
break, and no line of it begins with `---`, whatever a reader takes for line breaks; a reader that
takes all that YAML does gets the texts back by cutting at lines that are `---`. One that knows
line feeds alone does so exactly if all texts but the last end with a line feed, as those of rows
do whose last time has none. -/
theorem documents_cut (docs : List ShownDocument) :
    ∃ texts, List.Forall₂ (fun d text => d.tree.render = some text ∧
        text.getLast? = some d.tree.closing ∧
        d.tree.closing ∈ ['\n', '\u2028', '\u2029']) docs texts ∧
      (∀ text ∈ texts, ∀ p, BreaksLines p → ∀ line ∈ lines p text, ¬ marker <+: line) ∧
      documents (docs.map ShownDocument.tree) =
        ⟨200, some yamlType, none, String.ofList (separator.intercalate texts)⟩ ∧
      documentsOf isBreakChar (separator.intercalate texts) = texts ∧
      (documentsOf (· == '\n') (separator.intercalate texts) = texts ↔
        ∀ d ∈ docs.dropLast, d.tree.closing = '\n') ∧
      (∀ (k : Kind) (r : Row k), r.updatedAt ≠ "" → '\n' ∉ r.updatedAt.toList →
        (ShownDocument.row r).tree.closing = '\n') := by
  obtain ⟨texts, htexts⟩ := ShownDocument.exists_texts docs
  have hdocuments : ∀ {p}, BreaksLines p → ∀ text ∈ texts, IsDocument p text :=
    fun hp => ShownDocument.forall_isDocument hp htexts
  refine ⟨texts, htexts.imp fun d text hd =>
      ⟨hd, Tree.getLast?_render hd, d.tree.closing_mem⟩,
    fun text htext p hp => (hdocuments hp text htext).noMarker, ?_, ?_, ?_,
    fun k r => r.closing_shown⟩
  · rw [documents, Tree.renderAll_eq (List.forall₂_map_left_iff.mpr htexts)]
  · rw [documentsOf_intercalate breaksLines_isBreakChar (hdocuments breaksLines_isBreakChar),
      ShownDocument.forall_dropLast_iff htexts]
    exact fun d _ => d.tree.isBreakChar_closing
  · rw [documentsOf_intercalate breaksLines_lineFeed (hdocuments breaksLines_lineFeed),
      ShownDocument.forall_dropLast_iff htexts]
    simp only [beq_iff_eq]

/-- A name that ends with a line feed and U+2028. -/
def hidingName : String := "a\n\u2028"

/-- Two credentials without type and times, the first under that name. -/
def twoCredentials : List ShownDocument :=
  [.row (⟨hidingName, "", .credential, "", ""⟩ : Row .credential),
    .row (⟨"b", "", .credential, "", ""⟩ : Row .credential)]

theorem documents_cut_credentials :
    ∃ texts, List.Forall₂ (fun d text => d.tree.render = some text) twoCredentials texts ∧
      (∀ text ∈ texts, ∀ line ∈ lines (· == '\n') text, ¬ marker <+: line) ∧
      documentsOf isBreakChar (separator.intercalate texts) = texts ∧
      documentsOf (· == '\n') (separator.intercalate texts) ≠ texts ∧
      (ShownDocument.row
        (⟨hidingName, "", .credential, "", "2000"⟩ : Row .credential)).tree.closing = '\n' := by
  obtain ⟨texts, htexts, hlines, -, hcut, hlineFeed, hrow⟩ := documents_cut twoCredentials
  refine ⟨texts, htexts.imp fun _ _ h => h.1, fun text htext =>
    hlines text htext _ breaksLines_lineFeed, hcut, fun heq => ?_,
    hrow .credential _ (by decide) (by decide)⟩
  have hclosing := hlineFeed.mp heq _ (List.mem_cons_self ..)
  revert hclosing
  decide +kernel

/-- The text of a document may end without a line feed, and the separator after it is then no line
of its own to a reader that knows line feeds alone. -/
theorem documents_hide_boundary :
    documents (twoCredentials.map ShownDocument.tree) =
        ⟨200, some yamlType, none, "name: |+\n  a\n\u2028---\nname: b\n"⟩ ∧
      documentsOf (· == '\n') "name: |+\n  a\n\u2028---\nname: b\n".toList =
        ["name: |+\n  a\n\u2028---\nname: b\n".toList] ∧
      documents [(ShownDocument.summary ⟨[], [hidingName]⟩).tree] =
        ⟨200, some yamlType, none, "inserted: []\nupdated:\n- |+\n  a\n\u2028"⟩ := by
  decide +kernel

end Web.Response
end TenantRegistry
