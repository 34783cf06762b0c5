import TenantRegistry.Proofs.Json.ReadBack
import TenantRegistry.Proofs.Json.WellFormed
import TenantRegistry.Record.Credential

/-!
Which values credentials may have, and what is stored of them.

`IsKeyPair` says what an `aws-key` is as a YAML value, and `IsKeyFile` what a `gcp-service-account`
is. An `aws-key` is written anew when it is stored, a key file is kept to the letter.
-/

namespace TenantRegistry.Credential

open Yaml (Tree)

/-! ## Key pairs -/

/-- A value is a key pair: a mapping without a tag of its own that has the two fields and no other,
in either order. A tag on one of the two strings says nothing. -/
inductive IsKeyPair (keyId secret : String) : Tree → Prop
  | keyIdFirst {a b : Tree} : a.untagged = .string keyId → b.untagged = .string secret →
      IsKeyPair keyId secret (.mapping [(.string keyIdField, a), (.string secretField, b)])
  | secretFirst {a b : Tree} : a.untagged = .string keyId → b.untagged = .string secret →
      IsKeyPair keyId secret (.mapping [(.string secretField, b), (.string keyIdField, a)])

theorem keyIdField_ne_secretField : keyIdField ≠ secretField := by
  decide

theorem same_string_iff {t : Tree} {s : String} : t.same (.string s) = true ↔ t = .string s := by
  cases t <;> simp [Tree.same]

theorem stringOf?_eq_some_iff {t : Tree} {s : String} :
    stringOf? t = some s ↔ t.untagged = .string s := by
  unfold stringOf?
  split
  · next s' h => rw [h, Option.some_inj, Tree.string.injEq]
  · next hne => exact ⟨fun h => (by cases h), fun h => absurd h (hne s)⟩

/-- A field of two entries is the value of the first one with its key. -/
theorem field?_pair {key : String} {k k' a b v : Tree} :
    field? key [(k, a), (k', b)] = some v ↔
      (k = .string key ∧ a = v) ∨ (k ≠ .string key ∧ k' = .string key ∧ b = v) := by
  have hself : (Tree.string key).same (.string key) = true := same_string_iff.mpr rfl
  by_cases hk : k = .string key
  · subst hk
    simp [field?, List.find?, hself]
  · have hother : k.same (.string key) = false := by
      simpa using fun h => hk (same_string_iff.mp h)
    by_cases hk' : k' = .string key
    · subst hk'
      simp [field?, List.find?, hother, hself, hk]
    · have hother' : k'.same (.string key) = false := by
        simpa using fun h => hk' (same_string_iff.mp h)
      simp [field?, List.find?, hother, hother', hk, hk']

/-- The fields that are found are those of a key pair. -/
theorem awsFields_eq_ok_iff {value : Tree} {keyId secret : String} :
    awsFields value = .ok (keyId, secret) ↔ IsKeyPair keyId secret value := by
  constructor
  · intro h
    unfold awsFields at h
    split at h
    · next entries =>
      split at h
      · cases h
      · next hlength =>
        obtain ⟨⟨k, a⟩, ⟨k', b⟩, rfl⟩ := List.length_eq_two.mp (not_not.mp hlength)
        split at h
        · next x y hx hy =>
          split at h
          · next hid hsecret =>
            cases h
            rw [stringOf?_eq_some_iff] at hid hsecret
            rcases field?_pair.mp hx with ⟨rfl, rfl⟩ | ⟨_, rfl, rfl⟩ <;>
              rcases field?_pair.mp hy with ⟨hkey, rfl⟩ | ⟨hkey, hkey', rfl⟩
            · exact absurd (Tree.string.inj hkey) keyIdField_ne_secretField
            · subst hkey'; exact .keyIdFirst hid hsecret
            · subst hkey; exact .secretFirst hid hsecret
            · exact absurd (Tree.string.inj hkey') keyIdField_ne_secretField
          · cases h
        · cases h
    · cases h
  · have hne : Tree.string secretField ≠ .string keyIdField := by
      simpa using keyIdField_ne_secretField.symm
    have hne' : Tree.string keyIdField ≠ .string secretField := hne.symm
    rintro (⟨ha, hb⟩ | ⟨ha, hb⟩)
    all_goals
      rw [← stringOf?_eq_some_iff] at ha hb
      simp only [awsFields, List.length_cons, List.length_nil, ne_eq, not_true_eq_false, if_false]
    · rw [field?_pair.mpr (.inl ⟨rfl, rfl⟩), field?_pair.mpr (.inr ⟨hne', rfl, rfl⟩)]
      simp only [ha, hb]
    · rw [field?_pair.mpr (.inr ⟨hne, rfl, rfl⟩), field?_pair.mpr (.inl ⟨rfl, rfl⟩)]
      simp only [ha, hb]

/-- What can be wrong with the value of an `aws-key`. -/
def awsFaults : List String :=
  ["expected a map", "wrong size", "missing fields", "non-string fields"]

theorem mem_awsFaults {value : Tree} {reason : String} (h : awsFields value = .error reason) :
    reason ∈ awsFaults := by
  unfold awsFields at h
  split at h
  · split at h
    · cases h; decide
    · split at h
      · split at h
        · cases h
        · cases h; decide
      · cases h; decide
  · cases h; decide

theorem validate_awsKey (name : String) (value : Tree) :
    validate name "aws-key" value = CredentialType.awsKey.payload name value :=
  rfl

/-- A value is accepted as an `aws-key` exactly if it is a key pair, and is stored as its object. -/
theorem validate_awsKey_eq_ok_iff {name stored : String} {value : Tree} :
    validate name "aws-key" value = .ok stored ↔
      ∃ keyId secret, IsKeyPair keyId secret value ∧ stored = (awsPayload keyId secret).text := by
  simp only [validate_awsKey, CredentialType.payload, ← awsFields_eq_ok_iff]
  cases hfields : awsFields value with
  | error reason =>
    exact ⟨fun h => (by cases h), fun ⟨_, _, h, _⟩ => (by cases h)⟩
  | ok fields =>
    obtain ⟨keyId, secret⟩ := fields
    constructor
    · intro h
      cases h
      exact ⟨keyId, secret, rfl, rfl⟩
    · rintro ⟨_, _, h, rfl⟩
      cases h
      rfl

theorem exists_fault_of_not_keyPair {value : Tree}
    (h : ∀ keyId secret, ¬ IsKeyPair keyId secret value) (name : String) :
    ∃ reason ∈ awsFaults,
      validate name "aws-key" value = .error (.shape .credential name (awsShape reason)) := by
  cases hfields : awsFields value with
  | error reason =>
    refine ⟨reason, mem_awsFaults hfields, ?_⟩
    simp only [validate_awsKey, CredentialType.payload, hfields]
  | ok fields => exact absurd (awsFields_eq_ok_iff.mp hfields) (h _ _)

/-- The order of the two entries says nothing, not even where they are refused. -/
theorem awsFields_swap (a b : Tree) :
    awsFields (.mapping [(.string keyIdField, a), (.string secretField, b)]) =
      awsFields (.mapping [(.string secretField, b), (.string keyIdField, a)]) := by
  have hne : Tree.string secretField ≠ .string keyIdField := by
    simpa using keyIdField_ne_secretField.symm
  simp only [awsFields, List.length_cons, List.length_nil, ne_eq, not_true_eq_false, if_false]
  rw [field?_pair.mpr (.inl ⟨rfl, rfl⟩), field?_pair.mpr (.inr ⟨hne.symm, rfl, rfl⟩),
    field?_pair.mpr (.inr ⟨hne, rfl, rfl⟩), field?_pair.mpr (.inl ⟨rfl, rfl⟩)]

theorem kept_awsPayload (keyId secret : String) :
    (awsPayload keyId secret).Kept Json.depthLimit := by
  refine ⟨?_, ?_⟩
  · refine .cons (fun e he => ?_) (List.pairwise_singleton _ _)
    rw [List.mem_singleton.mp he]
    show keyIdField < secretField
    decide
  · simp [Json.KeptEntries, Json.Kept]

/-- The object of a key pair reads back from its text, its two strings as they were. -/
theorem objectOfText?_awsPayload (keyId secret : String) :
    Json.objectOfText? (awsPayload keyId secret).text =
      some [(keyIdField, .string keyId), (secretField, .string secret)] := by
  refine (Json.objectOfText?_text_iff (kept_awsPayload keyId secret)).mpr ?_
  simp [Json.entriesLiteral, Json.isLiteral]

/-- Distinct key pairs have distinct texts. -/
theorem awsPayload_text_inj {keyId secret keyId' secret' : String}
    (h : (awsPayload keyId secret).text = (awsPayload keyId' secret').text) :
    keyId = keyId' ∧ secret = secret' := by
  have hread := objectOfText?_awsPayload keyId secret
  rw [h, objectOfText?_awsPayload] at hread
  simp only [Option.some.injEq, List.cons.injEq, Prod.mk.injEq, Json.string.injEq, true_and,
    and_true] at hread
  exact ⟨hread.1.symm, hread.2.symm⟩

/-- An `aws-key` is accepted exactly if it is a key pair. What is stored is the text of an object
with its two fields and no other, which hold the strings as they were submitted; so distinct key
pairs are stored as distinct texts, and the order of the entries says nothing. Any other value is
refused for its shape, the credential being named. -/
theorem key_pair_lossless (name : String) :
    (∀ value, (∃ stored, validate name "aws-key" value = .ok stored) ↔
      ∃ keyId secret, IsKeyPair keyId secret value) ∧
    (∀ value stored, validate name "aws-key" value = .ok stored →
      ∃ keyId secret, IsKeyPair keyId secret value ∧
        Json.Written.ofText? stored.toList = some (.object
          [(some keyIdField, .string (some keyId)), (some secretField, .string (some secret))]) ∧
        Json.objectOfText? stored =
          some [(keyIdField, .string keyId), (secretField, .string secret)]) ∧
    (∀ value value' stored keyId secret keyId' secret',
      validate name "aws-key" value = .ok stored → validate name "aws-key" value' = .ok stored →
      IsKeyPair keyId secret value → IsKeyPair keyId' secret' value' →
        keyId = keyId' ∧ secret = secret') ∧
    (∀ a b,
      validate name "aws-key" (.mapping [(.string keyIdField, a), (.string secretField, b)]) =
        validate name "aws-key" (.mapping [(.string secretField, b), (.string keyIdField, a)])) ∧
    ∀ value, (∀ keyId secret, ¬ IsKeyPair keyId secret value) → ∃ reason ∈ awsFaults,
      validate name "aws-key" value = .error (.shape .credential name (awsShape reason)) := by
  refine ⟨fun value => ?_, fun value stored h => ?_, ?_, fun a b => ?_,
    fun value h => exists_fault_of_not_keyPair h name⟩
  · constructor
    · rintro ⟨stored, h⟩
      obtain ⟨keyId, secret, hpair, -⟩ := validate_awsKey_eq_ok_iff.mp h
      exact ⟨keyId, secret, hpair⟩
    · rintro ⟨keyId, secret, hpair⟩
      exact ⟨_, validate_awsKey_eq_ok_iff.mpr ⟨keyId, secret, hpair, rfl⟩⟩
  · obtain ⟨keyId, secret, hpair, rfl⟩ := validate_awsKey_eq_ok_iff.mp h
    exact ⟨keyId, secret, hpair, Json.ofText?_text (kept_awsPayload keyId secret),
      objectOfText?_awsPayload keyId secret⟩
  · intro value value' stored keyId secret keyId' secret' h h' hpair hpair'
    obtain ⟨k, s, hks, rfl⟩ := validate_awsKey_eq_ok_iff.mp h
    obtain ⟨k', s', hks', heq⟩ := validate_awsKey_eq_ok_iff.mp h'
    obtain ⟨rfl, rfl⟩ := awsPayload_text_inj heq
    -- A value is the key pair of one pair of strings only.
    have hfields := (awsFields_eq_ok_iff.mpr hks).symm.trans (awsFields_eq_ok_iff.mpr hpair)
    have hfields' := (awsFields_eq_ok_iff.mpr hks').symm.trans (awsFields_eq_ok_iff.mpr hpair')
    cases hfields
    cases hfields'
    exact ⟨rfl, rfl⟩
  · simp only [validate_awsKey, CredentialType.payload, awsFields_swap]

/-- A key pair with its secret first, tagged, and made of characters that JSON escapes. -/
def escapedPair : Tree :=
  .mapping [(.string secretField, .tagged "s" (.string "\"\\\x01")),
    (.string keyIdField, .string "id")]

theorem key_pair_lossless_escaped :
    IsKeyPair "id" "\"\\\x01" escapedPair ∧
    (∃ stored, validate "c" "aws-key" escapedPair = .ok stored ∧
      Json.objectOfText? stored =
        some [(keyIdField, .string "id"), (secretField, .string "\"\\\x01")]) ∧
    ∃ reason ∈ awsFaults, validate "c" "aws-key" (.tagged "t" escapedPair) =
      .error (.shape .credential "c" (awsShape reason)) := by
  obtain ⟨haccepted, hstored, -, -, hrefused⟩ := key_pair_lossless "c"
  have hpair : IsKeyPair "id" "\"\\\x01" escapedPair := .secretFirst (by simp [Tree.untagged])
    (by simp [Tree.untagged])
  refine ⟨hpair, ?_, hrefused _ fun keyId secret h => by cases h⟩
  obtain ⟨stored, h⟩ := (haccepted escapedPair).mpr ⟨_, _, hpair⟩
  obtain ⟨keyId, secret, hpair', -, hobject⟩ := hstored escapedPair stored h
  have hfields := (awsFields_eq_ok_iff.mpr hpair').symm.trans (awsFields_eq_ok_iff.mpr hpair)
  cases hfields
  exact ⟨stored, h, hobject⟩

/-! ## Key files -/

/-- A value is a key file with this text: a string without a tag that is JSON. -/
def IsKeyFile (text : String) (value : Tree) : Prop :=
  value = .string text ∧ Json.Grammar.Document text.toList

/-- What can be wrong with the value of a `gcp-service-account`. -/
def keyFileFaults : List String :=
  ["value must be a JSON string", "value is not a valid JSON string"]

theorem payload_keyFile_eq_ok_iff {name stored : String} {value : Tree} :
    CredentialType.gcpServiceAccount.payload name value = .ok stored ↔ IsKeyFile stored value := by
  unfold CredentialType.payload IsKeyFile
  rw [← Json.isWellFormed_iff]
  dsimp only
  constructor
  · intro h
    split at h
    · split at h
      · next hread => cases h; exact ⟨rfl, hread⟩
      · cases h
    · cases h
  · rintro ⟨rfl, hread⟩
    exact if_pos hread

theorem mem_keyFileFaults {name : String} {value : Tree} {e : RequestError}
    (h : CredentialType.gcpServiceAccount.payload name value = .error e) :
    ∃ reason ∈ keyFileFaults, e = .shape .credential name reason := by
  unfold CredentialType.payload at h
  dsimp only at h
  split at h
  · split at h
    · cases h
    · cases h; exact ⟨_, by decide, rfl⟩
  · cases h; exact ⟨_, by decide, rfl⟩

/-- A `gcp-service-account` is accepted exactly if it is a key file, and is stored as it is. Any
other value is refused for its shape, the credential being named. -/
theorem key_file_unchanged (name : String) (value : Tree) :
    (∀ stored, validate name "gcp-service-account" value = .ok stored ↔ IsKeyFile stored value) ∧
    ((∃ text, IsKeyFile text value) ∨ ∃ reason ∈ keyFileFaults,
      validate name "gcp-service-account" value = .error (.shape .credential name reason)) := by
  have hpayload : validate name "gcp-service-account" value =
      CredentialType.gcpServiceAccount.payload name value := rfl
  rw [hpayload]
  refine ⟨fun stored => payload_keyFile_eq_ok_iff, ?_⟩
  cases hread : CredentialType.gcpServiceAccount.payload name value with
  | ok text => exact .inl ⟨text, payload_keyFile_eq_ok_iff.mp hread⟩
  | error e =>
    obtain ⟨reason, hmem, rfl⟩ := mem_keyFileFaults hread
    exact .inr ⟨reason, hmem, rfl⟩

end TenantRegistry.Credential
