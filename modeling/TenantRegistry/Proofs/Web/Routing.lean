import Mathlib
import TenantRegistry.Web.Route

/-!
What paths name: `ofPath?_eq_records_iff`.

A kind's collection has its path with or without a final slash, and so has every item under it.
The paths of different resources are different, and what a path is counted under is the kind of
what it names.
-/

namespace TenantRegistry.Web.Route

variable {k : Kind} {path rest : List Char} {resource : Resource}

/-- The path of a kind's collection, in full. -/
def collectionPath : Kind → String
  | .credential => "/api/v1/credentials"
  | .exporter => "/api/v1/exporters"

/-- The four forms of a path that names a resource of a kind. A segment has no slash in it, and is
empty at most before a final slash. -/
inductive Names (k : Kind) : (path : List Char) → Resource → Prop
  | collection : Names k (collectionPath k).toList .collection
  | collectionSlash : Names k ((collectionPath k).toList ++ ['/']) .collection
  | item {segment : List Char} (hne : segment ≠ []) (hslash : '/' ∉ segment) :
    Names k ((collectionPath k).toList ++ '/' :: segment) (.item segment)
  | itemSlash {segment : List Char} (hslash : '/' ∉ segment) :
    Names k ((collectionPath k).toList ++ '/' :: (segment ++ ['/'])) (.item segment)

/-! ## Below a collection -/

theorem basePath_eq (k : Kind) : basePath k = (collectionPath k).toList := by
  cases k <;> decide +kernel

theorem takeWhile_append_slash {segment : List Char} (hslash : '/' ∉ segment) (tail : List Char) :
    (segment ++ tail).takeWhile (· ≠ '/') = segment ++ tail.takeWhile (· ≠ '/') :=
  List.takeWhile_append_of_pos fun _ hc => decide_eq_true (ne_of_mem_of_not_mem hc hslash)

theorem dropWhile_append_slash {segment : List Char} (hslash : '/' ∉ segment) (tail : List Char) :
    (segment ++ tail).dropWhile (· ≠ '/') = tail.dropWhile (· ≠ '/') :=
  List.dropWhile_append_of_pos fun _ hc => decide_eq_true (ne_of_mem_of_not_mem hc hslash)

theorem slash_not_mem_takeWhile (cs : List Char) : '/' ∉ cs.takeWhile (· ≠ '/') := fun h => by
  simpa using List.mem_takeWhile_imp h

/-- What may follow the path of a collection. -/
theorem resource?_eq_some_iff :
    resource? rest = some resource ↔
      (rest = [] ∨ rest = ['/']) ∧ resource = .collection ∨
      ∃ segment, '/' ∉ segment ∧ resource = .item segment ∧
        (segment ≠ [] ∧ rest = '/' :: segment ∨ rest = '/' :: (segment ++ ['/'])) := by
  constructor
  · intro h
    unfold resource? at h
    split at h
    · cases h
      exact .inl ⟨.inl rfl, rfl⟩
    · cases h
      exact .inl ⟨.inr rfl, rfl⟩
    · next rest hne =>
      have hsplit := List.takeWhile_append_dropWhile (p := (decide <| · ≠ '/')) (l := rest)
      have hslash := slash_not_mem_takeWhile rest
      split at h
      · next hdrop =>
        cases h
        rw [hdrop, List.append_nil] at hsplit
        rw [hsplit] at hslash
        exact .inr ⟨rest, hslash, rfl, .inl ⟨fun hnil => hne (by rw [hnil]), rfl⟩⟩
      · next hdrop =>
        cases h
        rw [hdrop] at hsplit
        exact .inr ⟨_, hslash, rfl, .inr (by rw [hsplit])⟩
      · cases h
    · cases h
  · rintro (⟨rfl | rfl, rfl⟩ | ⟨segment, hslash, rfl, ⟨hne, rfl⟩ | rfl⟩)
    · rfl
    · rfl
    · have hdrop := dropWhile_append_slash hslash []
      rw [List.append_nil] at hdrop
      obtain ⟨c, segment, rfl⟩ := List.exists_cons_of_ne_nil hne
      simp only [resource?, hdrop, List.dropWhile_nil]
    · have hdrop := dropWhile_append_slash hslash ['/']
      have htake := takeWhile_append_slash hslash ['/']
      cases segment with
      | nil => rfl
      | cons c segment =>
        rw [List.cons_append] at hdrop htake ⊢
        simp only [resource?, hdrop, htake]
        simp

/-- A path below the collection of a kind. -/
theorem under?_eq_some_iff {route : Route} :
    under? k path = some route ↔
      ∃ rest resource, path = (collectionPath k).toList ++ rest ∧ resource? rest = some resource ∧
        route = .records k resource := by
  rw [under?, basePath_eq]
  constructor
  · intro h
    split at h
    · next hstart =>
      obtain ⟨rest, rfl⟩ := List.isPrefixOf_iff_prefix.mp hstart
      rw [List.drop_left] at h
      obtain ⟨resource, hresource, rfl⟩ := Option.map_eq_some_iff.mp h
      exact ⟨rest, resource, rfl, hresource, rfl⟩
    · cases h
  · rintro ⟨rest, resource, rfl, hresource, rfl⟩
    rw [if_pos (List.isPrefixOf_iff_prefix.mpr ⟨rest, rfl⟩), List.drop_left, hresource]
    rfl

/-! ## All paths -/

/-- Paths below different collections are different. -/
theorem collectionPath_append_ne {k' : Kind} (h : k ≠ k') (rest rest' : List Char) :
    (collectionPath k).toList ++ rest ≠ (collectionPath k').toList ++ rest' := by
  have hmark : ∀ k rest, ((collectionPath k).toList ++ rest)[8]? =
      some (match k with | .credential => 'c' | .exporter => 'e') := by
    intro k rest
    rw [List.getElem?_append_left (by cases k <;> decide +kernel)]
    cases k <;> decide +kernel
  intro heq
  have hmarks := congrArg (·[8]?) heq
  simp only [hmark, Option.some.injEq] at hmarks
  cases k <;> cases k' <;> simp_all

theorem names_iff_under? :
    Names k path resource ↔ under? k path = some (.records k resource) := by
  rw [under?_eq_some_iff]
  constructor
  · rintro (_ | _ | ⟨hne, hslash⟩ | hslash)
    · exact ⟨[], _, (List.append_nil _).symm, rfl, rfl⟩
    · exact ⟨['/'], _, rfl, rfl, rfl⟩
    · exact ⟨_, _, rfl, resource?_eq_some_iff.mpr (.inr ⟨_, hslash, rfl, .inl ⟨hne, rfl⟩⟩), rfl⟩
    · exact ⟨_, _, rfl, resource?_eq_some_iff.mpr (.inr ⟨_, hslash, rfl, .inr rfl⟩), rfl⟩
  · rintro ⟨rest, resource, rfl, hresource, heq⟩
    obtain ⟨-, rfl⟩ := Route.records.inj heq
    obtain ⟨rfl | rfl, rfl⟩ | ⟨segment, hslash, rfl, ⟨hne, rfl⟩ | rfl⟩ :=
      resource?_eq_some_iff.mp hresource
    · rw [List.append_nil]
      exact .collection
    · exact .collectionSlash
    · exact .item hne hslash
    · exact .itemSlash hslash

theorem Names.exists_rest (h : Names k path resource) :
    ∃ rest, path = (collectionPath k).toList ++ rest :=
  let ⟨rest, _, heq, _⟩ := under?_eq_some_iff.mp (names_iff_under?.mp h)
  ⟨rest, heq⟩

theorem Names.under?_of_ne {k' : Kind} (h : Names k path resource) (hk : k' ≠ k) :
    under? k' path = none := by
  obtain ⟨rest, rfl⟩ := h.exists_rest
  refine Option.eq_none_iff_forall_ne_some.mpr fun route hroute => ?_
  obtain ⟨rest', _, heq, _⟩ := under?_eq_some_iff.mp hroute
  exact collectionPath_append_ne hk rest' rest heq.symm

theorem Names.not_page (h : Names k path resource) :
    path ≠ "/health".toList ∧ path ≠ "/metrics".toList := by
  obtain ⟨rest, rfl⟩ := h.exists_rest
  have hmark : ((collectionPath k).toList ++ rest)[1]? = some 'a' := by
    rw [List.getElem?_append_left (by cases k <;> decide +kernel)]
    cases k <;> decide +kernel
  constructor
  · intro heq
    rw [heq] at hmark
    exact absurd hmark (by decide +kernel)
  · intro heq
    rw [heq] at hmark
    exact absurd hmark (by decide +kernel)

/-- A path has the route of what it names. -/
theorem ofPath?_eq_records_iff :
    ofPath? path = some (.records k resource) ↔ Names k path resource := by
  constructor
  · intro h
    unfold ofPath? at h
    split at h
    · cases h
    · split at h
      · cases h
      · have hunder : ∃ k', under? k' path = some (.records k resource) := by
          rcases Option.or_eq_some_iff.mp h with h | ⟨-, h⟩
          · exact ⟨.credential, h⟩
          · exact ⟨.exporter, h⟩
        obtain ⟨k', hunder⟩ := hunder
        obtain ⟨-, _, -, -, heq⟩ := under?_eq_some_iff.mp hunder
        obtain ⟨rfl, -⟩ := Route.records.inj heq
        exact names_iff_under?.mpr hunder
  · intro h
    have hunder := names_iff_under?.mp h
    rw [ofPath?, if_neg h.not_page.1, if_neg h.not_page.2]
    cases k with
    | credential => rw [hunder, Option.some_or]
    | exporter => rw [h.under?_of_ne (by decide), Option.none_or, hunder]

/-- A path names at most one resource, of one kind. -/
theorem Names.unique {k' : Kind} {resource' : Resource} (h : Names k path resource)
    (h' : Names k' path resource') : k = k' ∧ resource = resource' := by
  have heq := (ofPath?_eq_records_iff.mpr h).symm.trans (ofPath?_eq_records_iff.mpr h')
  exact Route.records.inj (Option.some.inj heq)

/-- A path is counted under the kind of what it names. -/
theorem Names.kindLabel (h : Names k path resource) : kindLabel path = k.name := by
  obtain ⟨rest, rfl⟩ := h.exists_rest
  have hstart : ∀ k', (basePath k').isPrefixOf ((collectionPath k).toList ++ rest) = true ↔
      k' = k := by
    intro k'
    rw [List.isPrefixOf_iff_prefix, basePath_eq]
    constructor
    · rintro ⟨rest', heq⟩
      by_contra hk
      exact collectionPath_append_ne hk rest' rest heq
    · rintro rfl
      exact ⟨rest, rfl⟩
  unfold Route.kindLabel
  cases k with
  | credential => rw [if_pos ((hstart _).mpr rfl)]
  | exporter =>
    have hother : ¬ (basePath .credential).isPrefixOf
        ((collectionPath .exporter).toList ++ rest) = true := fun hother => by
      cases (hstart .credential).mp hother
    rw [if_neg hother, if_pos ((hstart _).mpr rfl)]

end TenantRegistry.Web.Route
