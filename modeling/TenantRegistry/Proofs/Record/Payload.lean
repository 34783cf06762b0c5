import TenantRegistry.Proofs.Json.CompactText
import TenantRegistry.Proofs.Json.Entries
import TenantRegistry.Record.Check

/-!
What accepted content is stored as.

`Payload.Fits` says of a payload what its type promises. Content that is accepted under a type
becomes a payload that fits that type: `Content.fits_of_payload`. An exporter's configuration is
stored as the text of a proper object, whose keys are in strict order.
-/

namespace TenantRegistry

/-! ## Objects -/

/-- A tree that is a mapping, tagged or not, becomes an object. -/
theorem Yaml.Tree.exists_normalizeAt {t : Tree} {entries : List (Tree × Tree)} {j : Json}
    {maxDepth depth : Nat} (hmap : t.untagged = .mapping entries)
    (h : t.normalizeAt maxDepth depth = .ok j) : ∃ es, j = Json.ofEntries es := by
  induction t using Tree.untagged.induct with
  | case1 tag value ih =>
    unfold Tree.untagged at hmap
    unfold normalizeAt at h
    exact ih hmap h
  | case2 t hne =>
    have ht : t = .mapping entries := by
      unfold Tree.untagged at hmap
      split at hmap
      · next tag value => exact absurd rfl (hne tag value)
      · exact hmap
    subst ht
    unfold normalizeAt at h
    split at h
    · cases h
    · cases hes : normalizeEntries maxDepth (depth + 1) entries with
      | error e => rw [hes] at h; cases h
      | ok es => rw [hes] at h; cases h; exact ⟨es, rfl⟩

/-! ## Payloads -/

/-- The text of an object with the two fields of an `aws-key`, both strings, and no other. -/
def Credential.IsAwsText (value : String) : Prop :=
  ∃ keyId secret : String, Json.Written.ofText? value.toList = some (.object
    [(some keyIdField, .string (some keyId)), (some secretField, .string (some secret))])

/-- The compact text of an object. -/
def Exporter.IsConfigText (config : String) : Prop :=
  ∃ entries : List (String × Json), (entries.Pairwise fun a b => a.1 < b.1) ∧
    config = (Json.object entries).text

/-- What a type promises of the payload that is stored with it. -/
def Payload.Fits {k : Kind} (p : Payload k) (type : String) : Prop :=
  match p with
  | .credential value =>
    (type = "aws-key" ∧ Credential.IsAwsText value) ∨
      (type = "gcp-service-account" ∧ Json.isWellFormed value = true)
  | .exporter reference config =>
    type ≠ "" ∧ reference ≠ some "" ∧ Exporter.IsConfigText config

namespace Credential

theorem isAwsText_awsPayload (keyId secret : String) :
    IsAwsText (awsPayload keyId secret).text := by
  refine ⟨keyId, secret, ?_⟩
  rw [Json.text, String.toList_ofList]
  exact Json.ofText?_compact rfl

theorem isWellFormed_of_isAwsText {value : String} (h : IsAwsText value) :
    Json.isWellFormed value = true := by
  obtain ⟨keyId, secret, h⟩ := h
  rw [Json.isWellFormed, h]
  rfl

theorem fits_of_validate {name type stored : String} {value : Yaml.Tree}
    (h : validate name type value = .ok stored) : (Payload.credential stored).Fits type := by
  unfold validate type? at h
  split at h
  · next haws =>
    refine .inl ⟨haws, ?_⟩
    simp only [bind, Except.bind, CredentialType.payload] at h
    split at h
    · next keyId secret _ => cases h; exact isAwsText_awsPayload keyId secret
    · cases h
  · split at h
    · next hgcp =>
      refine .inr ⟨hgcp, ?_⟩
      simp only [bind, Except.bind, CredentialType.payload] at h
      split at h
      · split at h
        · next hjson => cases h; exact hjson
        · cases h
      · cases h
    · cases h

end Credential

theorem Exporter.isConfigText_of_encode {name stored : String} {maxDepth : Nat}
    {config : Yaml.Tree} (h : encode name maxDepth config = .ok stored) : IsConfigText stored := by
  unfold encode at h
  split at h
  · next entries hmap =>
    split at h
    · next json hjson =>
      cases h
      obtain ⟨es, rfl⟩ := Yaml.Tree.exists_normalizeAt hmap hjson
      obtain ⟨sorted, heq, hordered⟩ := Json.exists_ofEntries es
      exact ⟨sorted, hordered, by rw [heq]⟩
    · cases h
  · cases h

/-- Content that a type accepts becomes a payload that fits the type. -/
theorem Content.fits_of_payload {k : Kind} {c : Content k} {name type : String} {maxDepth : Nat}
    {p : Payload k} (htype : type ≠ "") (h : c.payload name type maxDepth = .ok p) :
    p.Fits type := by
  cases c with
  | credential value =>
    have hmap : (Credential.validate name type value).map .credential = .ok p := h
    cases hvalue : Credential.validate name type value with
    | error e => rw [hvalue] at hmap; cases hmap
    | ok stored => rw [hvalue] at hmap; cases hmap; exact Credential.fits_of_validate hvalue
  | exporter reference config =>
    have hmap : (Exporter.encode name maxDepth config).map
        (.exporter (reference.filter (· ≠ ""))) = .ok p := h
    cases hconfig : Exporter.encode name maxDepth config with
    | error e => rw [hconfig] at hmap; cases hmap
    | ok stored =>
      rw [hconfig] at hmap
      cases hmap
      refine ⟨htype, ?_, Exporter.isConfigText_of_encode hconfig⟩
      intro hempty
      have hkept := (Option.filter_eq_some_iff.mp hempty).2
      simp at hkept

theorem Payload.Fits.type_ne_empty {k : Kind} {p : Payload k} {type : String} (h : p.Fits type) :
    type ≠ "" := by
  cases p with
  | credential value => rcases h with ⟨rfl, _⟩ | ⟨rfl, _⟩ <;> decide
  | exporter reference config => exact h.1

theorem Payload.Fits.credential_type {p : Payload .credential} {type : String} (h : p.Fits type) :
    type = "aws-key" ∨ type = "gcp-service-account" := by
  cases p with
  | credential value => exact h.imp And.left And.left

/-- Whatever its type, the value of a credential is JSON. -/
theorem Payload.Fits.isWellFormed {value type : String} (h : (Payload.credential value).Fits type) :
    Json.isWellFormed value = true := by
  rcases h with ⟨_, haws⟩ | ⟨_, hjson⟩
  · exact Credential.isWellFormed_of_isAwsText haws
  · exact hjson

/-- What fits any type would do for a service account. -/
theorem Payload.Fits.serviceAccount {p : Payload .credential} {type : String} (h : p.Fits type) :
    p.Fits "gcp-service-account" := by
  cases p with
  | credential value => exact .inr ⟨rfl, h.isWellFormed⟩

end TenantRegistry
