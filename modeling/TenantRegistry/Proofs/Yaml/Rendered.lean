import TenantRegistry.Record.Shown

/-!
What can be written as a document.

Only a tag directly on a tagged value has no written form, so a tree without tags has one:
`isSome_renderAll`. The documents that clients see are such trees.
-/

namespace TenantRegistry.Yaml.Tree

mutual

/-- There is no tag anywhere in a tree. -/
def isUntagged : Tree → Bool
  | .sequence items => itemsUntagged items
  | .mapping entries => entriesUntagged entries
  | .tagged .. => false
  | _ => true

def itemsUntagged : List Tree → Bool
  | [] => true
  | t :: rest => t.isUntagged && itemsUntagged rest

def entriesUntagged : List (Tree × Tree) → Bool
  | [] => true
  | (k, v) :: rest => k.isUntagged && v.isUntagged && entriesUntagged rest

end

theorem itemsUntagged_iff {items : List Tree} :
    itemsUntagged items = true ↔ ∀ t ∈ items, t.isUntagged = true := by
  induction items with
  | nil => simp [itemsUntagged]
  | cons t rest ih => simp [itemsUntagged, ih]

theorem entriesUntagged_append (xs ys : List (Tree × Tree)) :
    entriesUntagged (xs ++ ys) = (entriesUntagged xs && entriesUntagged ys) := by
  induction xs with
  | nil => rfl
  | cons e rest ih => simp only [List.cons_append, entriesUntagged, ih, Bool.and_assoc]

/-! ## Writing -/

mutual

theorem exists_write : ∀ (t : Tree) (indent : Option Nat) (p : Place), t.isUntagged = true →
    ∃ out, write indent p t = some out
  | .null, _, _, _ => ⟨_, rfl⟩
  | .bool _, _, _, _ => ⟨_, rfl⟩
  | .number _, _, _, _ => ⟨_, rfl⟩
  | .string _, _, _, _ => ⟨_, rfl⟩
  | .sequence [], _, _, _ => ⟨_, rfl⟩
  | .sequence (t :: ts), indent, p, h => by
    simp only [isUntagged, itemsUntagged, Bool.and_eq_true] at h
    obtain ⟨first, hfirst⟩ := exists_write t
      (some (if p.inMapping && !p.sameLine then indent.getD 0 else deeper indent)) .item h.1
    obtain ⟨rest, hrest⟩ := exists_writeItems ts
      (if p.inMapping && !p.sameLine then indent.getD 0 else deeper indent) first.ended h.2
    simp only [write, hfirst, Option.bind_eq_bind, Option.bind_some, hrest]
    exact ⟨_, rfl⟩
  | .mapping [], _, _, _ => ⟨_, rfl⟩
  | .mapping ((k, v) :: rest), indent, p, h => by
    simp only [isUntagged, entriesUntagged, Bool.and_eq_true] at h
    obtain ⟨⟨hk, hv⟩, hrest⟩ := h
    obtain ⟨key, hkey⟩ := exists_write k (some (deeper indent)) (keyPlace k) hk
    obtain ⟨value, hvalue⟩ := exists_write v (some (deeper indent)) (valuePlace k) hv
    obtain ⟨others, hothers⟩ := exists_writeEntries rest (deeper indent)
      (Output.entry k.isSimpleKey (deeper indent) key value).ended hrest
    simp only [write, hkey, hvalue, Option.bind_eq_bind, Option.bind_some, hothers]
    exact ⟨_, rfl⟩

theorem exists_writeItems : ∀ (ts : List Tree) (indent : Nat) (ended : Bool),
    itemsUntagged ts = true → ∃ out, writeItems indent ended ts = some out
  | [], _, _, _ => ⟨_, rfl⟩
  | t :: ts, indent, ended, h => by
    simp only [itemsUntagged, Bool.and_eq_true] at h
    obtain ⟨first, hfirst⟩ := exists_write t (some indent) .item h.1
    obtain ⟨rest, hrest⟩ := exists_writeItems ts indent first.ended h.2
    simp only [writeItems, hfirst, Option.bind_eq_bind, Option.bind_some, hrest]
    exact ⟨_, rfl⟩

theorem exists_writeEntries : ∀ (es : List (Tree × Tree)) (indent : Nat) (ended : Bool),
    entriesUntagged es = true → ∃ out, writeEntries indent ended es = some out
  | [], _, _, _ => ⟨_, rfl⟩
  | (k, v) :: rest, indent, ended, h => by
    simp only [entriesUntagged, Bool.and_eq_true] at h
    obtain ⟨⟨hk, hv⟩, hrest⟩ := h
    obtain ⟨key, hkey⟩ := exists_write k (some indent) (keyPlace k) hk
    obtain ⟨value, hvalue⟩ := exists_write v (some indent) (valuePlace k) hv
    obtain ⟨others, hothers⟩ := exists_writeEntries rest indent
      (Output.entry k.isSimpleKey indent key value).ended hrest
    simp only [writeEntries, hkey, hvalue, Option.bind_eq_bind, Option.bind_some, hothers]
    exact ⟨_, rfl⟩

end

theorem exists_render {t : Tree} (h : t.isUntagged = true) : ∃ cs, t.render = some cs := by
  obtain ⟨out, hout⟩ := exists_write t none .start h
  unfold render
  rw [hout]
  exact ⟨_, rfl⟩

/-- Trees without tags can be written as a stream. -/
theorem exists_renderAll {ts : List Tree} (h : ∀ t ∈ ts, t.isUntagged = true) :
    ∃ cs, renderAll ts = some cs := by
  induction ts with
  | nil => exact ⟨[], rfl⟩
  | cons t rest ih =>
    obtain ⟨ht, hrest⟩ := List.forall_mem_cons.mp h
    obtain ⟨first, hfirst⟩ := exists_render ht
    cases rest with
    | nil => exact ⟨first, hfirst⟩
    | cons t' rest =>
      obtain ⟨others, hothers⟩ := ih hrest
      unfold renderAll
      rw [hfirst, hothers]
      exact ⟨_, rfl⟩

end TenantRegistry.Yaml.Tree

/-! ## What clients see -/

namespace TenantRegistry

open Yaml.Tree

mutual

theorem Json.isUntagged_toTree : ∀ j : Json, j.toTree.isUntagged = true
  | .null => rfl
  | .bool _ => rfl
  | .number _ => rfl
  | .string _ => rfl
  | .array items => Json.itemsUntagged_toTrees items
  | .object entries => Json.entriesUntagged_toEntries entries

theorem Json.itemsUntagged_toTrees : ∀ items : List Json, itemsUntagged (Json.toTrees items) = true
  | [] => rfl
  | j :: rest => by
    simp only [Json.toTrees, itemsUntagged, Json.isUntagged_toTree j,
      Json.itemsUntagged_toTrees rest, Bool.and_self]

theorem Json.entriesUntagged_toEntries : ∀ entries : List (String × Json),
    entriesUntagged (Json.toEntries entries) = true
  | [] => rfl
  | (k, v) :: rest => by
    simp only [Json.toEntries, entriesUntagged, isUntagged, Json.isUntagged_toTree v,
      Json.entriesUntagged_toEntries rest, Bool.and_self]

end

theorem entriesUntagged_textField (name value : String) :
    entriesUntagged (textField name value) = true := by
  unfold textField
  split <;> rfl

theorem View.entriesUntagged_fields {k : Kind} (v : View k) : entriesUntagged v.fields = true := by
  cases v with
  | credential => rfl
  | exporter reference config =>
    simp only [View.fields, entriesUntagged_append, entriesUntagged_textField, entriesUntagged,
      isUntagged, Json.entriesUntagged_toEntries, Bool.and_self]

theorem Row.isUntagged_shown {k : Kind} (r : Row k) : r.shown.isUntagged = true := by
  simp only [Row.shown, isUntagged, List.cons_append, entriesUntagged, entriesUntagged_append,
    entriesUntagged_textField, View.entriesUntagged_fields, Bool.and_self]

theorem Summary.isUntagged_shown (s : Summary) : s.shown.isUntagged = true := by
  have hnames : ∀ names : List String, itemsUntagged (names.map .string) = true := by
    intro names
    refine itemsUntagged_iff.mpr fun t ht => ?_
    obtain ⟨name, _, rfl⟩ := List.mem_map.mp ht
    rfl
  simp only [Summary.shown, isUntagged, entriesUntagged, hnames, Bool.and_self]

end TenantRegistry
