import TenantRegistry.Batch
import TenantRegistry.Proofs.Yaml.TreeRead

/-!
The content of records as it is read.

The content of a record is one tree of its document, below the record itself, which takes one of the
collections that may be nested: `asRead_of_decodeBatch`.
-/

namespace TenantRegistry

open Yaml (Tree Node Path Scope Properties)
open Yaml.Read (Yields fail yields_pure yields_fail yields_fail_bind yields_true)

/-- The tree that a content is made of. -/
def Content.tree : {k : Kind} → Content k → Tree
  | _, .credential value => value
  | _, .exporter _ config => config

variable {k : Kind}

theorem Draft.tree_contentOf (d : Draft) (t : Tree) (k : Kind) : (d.contentOf t k).tree = t := by
  cases k <;> rfl

namespace Read

/-- The content that a draft has so far. -/
def ContentAsRead (d : Draft) : Prop :=
  ∀ t ∈ d.content, Tree.AsRead (Yaml.Read.depthLimit - 1) t

theorem field_yields (scope : Scope) (path : Path) {d : Draft} (h : ContentAsRead d) (n : Node)
    (f : Field) : Yields (field scope path d n f) ContentAsRead := by
  cases f with
  | name => exact (yields_true _).bind fun _ _ => yields_pure h
  | type => exact (yields_true _).bind fun _ _ => yields_pure h
  | reference => exact (yields_true _).bind fun _ _ => yields_pure h
  | content =>
    refine (Yaml.Read.tree_yields scope _ false path n).bind fun t ht => yields_pure ?_
    intro t' ht'
    cases ht'
    exact ht

theorem draft_yields (scope : Scope) (k : Kind) (path : Path) {d : Draft} (h : ContentAsRead d)
    (entries : List (Node × Node)) : Yields (draft scope k path d entries) ContentAsRead := by
  induction entries generalizing d with
  | nil => exact yields_pure h
  | cons entry rest ih =>
    obtain ⟨key, value⟩ := entry
    unfold draft
    dsimp only
    split
    · exact yields_fail_bind _ _
    · refine (yields_true _).bind fun name _ => ?_
      split
      · exact (yields_fail _).within _ _
      · split
        · exact yields_fail _
        · exact (field_yields scope _ h value _).bind fun d hd => ih hd

theorem finish_yields {d : Draft} (h : ContentAsRead d) :
    Yields (record.finish k d) fun s => s.content.tree.AsRead (Yaml.Read.depthLimit - 1) := by
  unfold record.finish
  split
  · next s hs =>
    unfold Draft.finish at hs
    split at hs
    · next name t _ hcontent =>
      cases hs
      refine yields_pure ?_
      rw [Draft.tree_contentOf]
      exact h t hcontent
    · cases hs
    · cases hs
  · exact yields_fail _

theorem contentAsRead_empty : ContentAsRead {} := by
  intro t ht
  cases ht

theorem record_yields (scope : Scope) (k : Kind) (path : Path) (n : Node) :
    Yields (record scope k path n) fun s =>
      s.content.tree.AsRead (Yaml.Read.depthLimit - 1) := by
  match n with
  | .mapping props entries =>
    refine Yields.within ?_ _ _
    exact (draft_yields scope k path contentAsRead_empty entries).bind fun d hd =>
      finish_yields hd
  | .sequence props children => exact (yields_fail _).within _ _
  | .scalar props style text =>
    refine Yields.within ?_ _ _
    split
    · exact finish_yields contentAsRead_empty
    · unfold scalarMismatch
      split <;> exact yields_fail _
  | .alias .. => exact yields_fail _
  | .fault => exact yields_fail _

theorem optional_yields {α : Type} {P : α → Prop} {reader : Path → Node → Yaml.Read α}
    (h : ∀ path n, Yields (reader path n) P) (scope : Scope) (path : Path) (n : Node) :
    Yields (optional scope reader path n) fun o => ∀ a ∈ o, P a := by
  unfold optional
  dsimp only
  split
  on_goal 1 => refine (yields_true _).bind fun _ _ => ?_
  -- Whether or not the node is an alias, what is read is the node that it stands for.
  all_goals
    refine (yields_true _).bind fun x _ => ?_
    split
    · exact yields_fail _
    · exact yields_fail _
    · exact yields_pure (fun a ha => by cases ha)
    · exact (h _ _).bind fun a ha => yields_pure (fun b hb => by cases hb; exact ha)

end Read

theorem asRead_of_ofDocument {d : Yaml.Document} {s : Submission k}
    (h : Submission.ofDocument k d = .ok (some s)) :
    s.content.tree.AsRead (Yaml.Read.depthLimit - 1) :=
  Yaml.Document.of_read (fun scope path n =>
    Read.optional_yields (Read.record_yields scope k) scope path n) h s rfl

theorem asRead_of_mem_recordsOf {index : Nat} {docs : List Yaml.Document} {s : Submission k}
    (h : .ok s ∈ recordsOf k index docs) : s.content.tree.AsRead (Yaml.Read.depthLimit - 1) := by
  induction docs generalizing index with
  | nil => cases h
  | cons d rest ih =>
    unfold recordsOf at h
    split at h
    · next s' hs' =>
      rcases List.mem_cons.mp h with heq | h
      · cases heq
        exact asRead_of_ofDocument hs'
      · exact ih h
    · exact ih h
    · rcases List.mem_singleton.mp h with heq
      cases heq

/-- The content of a record is read where one collection less may be nested than in a document. -/
theorem asRead_of_decodeBatch {body : String} {s : Submission k}
    (h : .ok s ∈ decodeBatch k body) : s.content.tree.AsRead (Yaml.Read.depthLimit - 1) :=
  asRead_of_mem_recordsOf h

end TenantRegistry
