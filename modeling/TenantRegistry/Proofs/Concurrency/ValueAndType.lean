import Mathlib
import TenantRegistry.Proofs.Concurrency.Interleaving

/-!
Whether a stored value of a credential fits the stored type while requests interleave.

No lock is held between the listing of a write and its updates, and an update goes by the name
alone. So a checked value can reach a row of another type, created after the one that was listed
was deleted: `value_need_not_fit`. That is the only way for a row not to fit, and even then its
value is JSON: `credential_fits_or_overtaken`.
-/

namespace TenantRegistry.Memory.System

variable {k : Kind}

/-! ## Types -/

theorem credential_type {ops : List Operation} {schedule : List Nat} {key : Key}
    {row : Stored .credential}
    (h : (((start ops).run schedule).state.table .credential).find? key = some row) :
    row.type = "aws-key" ∨ row.type = "gcp-service-account" := by
  induction schedule using List.reverseRecOn generalizing row with
  | nil => cases h
  | append_singleton schedule i ih =>
    rw [run_snoc] at h
    rcases row_step ((start ops).run schedule) i key with hsame | ⟨c, hcalls, hstep⟩
    · exact ih (hsame.symm.trans h)
    · rw [h] at hstep
      generalize hold : (((start ops).run schedule).state.table .credential).find? key = old
        at hstep
      cases hstep with
      | kept => exact ih hold
      | updated old =>
        have htype := ih hold
        exact htype
      | inserted hcall hx _ =>
        subst hcall
        exact (fits_of_calls_insert hcalls hx).credential_type

/-! ## Values -/

/-- The next call of task `i` is an update with content for a service account that it has been
shown under the key, and that was deleted since. -/
structure Overtaken (ops : List Operation) (before : List Nat) (i : Nat) (key : Key)
    (u : Update .credential) : Prop where
  calls : ((start ops).run before).Calls i (.update key.tenant u)
  name_eq : u.name = key.name
  deleted : ∃ listed earlier j later, before = earlier ++ j :: later ∧
    ((start ops).run earlier).Answered i
      (⟨.list key.tenant, .ok listed⟩ : Exchange .credential) ∧
    Service.typeIn listed key.name = some "gcp-service-account" ∧
    ((start ops).run earlier).Calls j (.delete key.tenant key.name : Call .credential)

/-- An overtaken update has given a row its content, and nothing has changed the row since. -/
def LeftByOvertaken (ops : List Operation) (schedule : List Nat) (key : Key)
    (row : Stored .credential) : Prop :=
  ∃ before i after u, schedule = before ++ i :: after ∧ Overtaken ops before i key u ∧
    row.payload = u.payload ∧ ∀ more, more <+: after →
      ((start ops).run (before ++ i :: more)).state.credentials.find? key = some row

theorem LeftByOvertaken.snoc {ops : List Operation} {schedule : List Nat} {key : Key}
    {row : Stored .credential} (h : LeftByOvertaken ops schedule key row) {j : Nat}
    (hrow : ((start ops).run (schedule ++ [j])).state.credentials.find? key = some row) :
    LeftByOvertaken ops (schedule ++ [j]) key row := by
  obtain ⟨before, i, after, u, rfl, hovertaken, hpayload, hsince⟩ := h
  refine ⟨before, i, after ++ [j], u, by simp, hovertaken, hpayload, fun more hmore => ?_⟩
  rcases List.prefix_concat_iff.mp hmore with rfl | hmore
  · simpa using hrow
  · exact hsince more hmore

/-- An update leaves content that fits, unless it has been overtaken. -/
theorem update_fits_or_overtaken {ops : List Operation} {schedule : List Nat} {i : Nat} {key : Key}
    {u : Update .credential} {old : Stored .credential}
    (hcalls : ((start ops).run schedule).Calls i (.update key.tenant u))
    (hname : u.name = key.name)
    (hold : (((start ops).run schedule).state.table .credential).find? key = some old) :
    u.payload.Fits old.type ∨ old.type = "aws-key" ∧
      u.payload.Fits "gcp-service-account" ∧ Overtaken ops schedule i key u := by
  obtain ⟨_, log, ⟨_, _, _, listed, type, hmem, htype, hfits⟩, hanswered⟩ :=
    justified_of_calls hcalls
  have hlisted := hanswered _ hmem
  rw [hname] at htype
  obtain ⟨before, _, _, _, shown, hshown, hsame⟩ := exists_listing hlisted htype
  have hlistedType : type = "aws-key" ∨ type = "gcp-service-account" := by
    rw [← hsame]
    exact credential_type hshown
  have hcontent : u.payload.Fits type := by
    refine hfits ?_
    rcases hlistedType with rfl | rfl <;> decide
  rcases credential_type hold with haws | hgcp
  · rcases hlistedType with rfl | rfl
    · exact .inl (haws ▸ hcontent)
    · refine .inr ⟨haws, hcontent, hcalls, hname, ?_⟩
      rcases listed_or_removed hlisted htype with ⟨row, hrow, hrowType⟩ | hdeleted
      · -- The row that was listed is still there, so its type is both.
        cases hold.symm.trans hrow
        rw [haws] at hrowType
        exact absurd hrowType (by decide)
      · obtain ⟨earlier, j, later, heq, hseen, hdelete, _⟩ := hdeleted
        exact ⟨listed, earlier, j, later, heq, hseen, htype, hdelete⟩
  · rw [hgcp]
    exact .inl hcontent.serviceAccount

theorem fits_or_left_by_overtaken {ops : List Operation} {schedule : List Nat} {key : Key}
    {row : Stored .credential}
    (h : (((start ops).run schedule).state.table .credential).find? key = some row) :
    row.payload.Fits row.type ∨ row.type = "aws-key" ∧
      row.payload.Fits "gcp-service-account" ∧ LeftByOvertaken ops schedule key row := by
  induction schedule using List.reverseRecOn generalizing row with
  | nil => cases h
  | append_singleton schedule i ih =>
    have hnow := h
    have hkept : (((start ops).run schedule).state.table .credential).find? key = some row →
        row.payload.Fits row.type ∨ row.type = "aws-key" ∧
          row.payload.Fits "gcp-service-account" ∧
          LeftByOvertaken ops (schedule ++ [i]) key row := by
      intro hbefore
      rcases ih hbefore with hfits | ⟨haws, hgcp, hleft⟩
      · exact .inl hfits
      · exact .inr ⟨haws, hgcp, hleft.snoc hnow⟩
    rw [run_snoc] at h
    rcases row_step ((start ops).run schedule) i key with hsame | ⟨c, hcalls, hstep⟩
    · exact hkept (hsame.symm.trans h)
    · rw [h] at hstep
      generalize hold : (((start ops).run schedule).state.table .credential).find? key = old
        at hstep
      cases hstep with
      | kept => exact hkept hold
      | inserted hcall hx _ =>
        subst hcall
        exact .inl (fits_of_calls_insert hcalls hx)
      | @updated tenant u old hcall hkey =>
        subst hcall hkey
        rcases update_fits_or_overtaken hcalls rfl hold with hfits | ⟨haws, hgcp, hovertaken⟩
        · exact .inl hfits
        · refine .inr ⟨haws, hgcp, schedule, i, [], u, rfl, hovertaken, rfl, fun more hmore => ?_⟩
          rw [List.prefix_nil.mp hmore]
          exact hnow

/-- However requests interleave, every stored value of a credential is JSON, and one of type
`aws-key` is an object with the two fields, unless it was left by an overtaken update. -/
theorem credential_fits_or_overtaken (ops : List Operation) (schedule : List Nat) {key : Key}
    {row : Stored .credential} (h : (key, row) ∈ ((start ops).run schedule).state.credentials) :
    ∃ value, row.payload = .credential value ∧ Json.isWellFormed value = true ∧
      (row.type = "gcp-service-account" ∨ row.type = "aws-key" ∧
        (Credential.IsAwsText value ∨ LeftByOvertaken ops schedule key row)) := by
  have hproper := (reachable_run ops schedule).proper .credential
  have hrow := hproper.find?_of_mem h
  have hshown := fits_or_left_by_overtaken hrow
  have htype := credential_type hrow
  obtain ⟨name, type, payload, createdAt, updatedAt⟩ := row
  cases payload with
  | credential value =>
    rcases hshown with hfits | ⟨haws, hgcp, hleft⟩
    · refine ⟨value, rfl, hfits.isWellFormed, ?_⟩
      rcases hfits with ⟨haws, hvalue⟩ | ⟨hgcp, _⟩
      · exact .inr ⟨haws, .inl hvalue⟩
      · exact .inl hgcp
    · exact ⟨value, rfl, hgcp.isWellFormed, .inr ⟨haws, .inr hleft⟩⟩

/-! ## A race -/

def serviceAccountBody : String :=
  "name: c\ntype: gcp-service-account\nvalue: '\x7b\x7d'"

def awsKeyBody : String :=
  "name: c\ntype: aws-key\nvalue: \x7b'AWS_ACCESS_KEY_ID': 'i', 'AWS_SECRET_ACCESS_KEY': 's'\x7d"

/-- A service account is written twice, deleted, and its name is taken by an `aws-key`. -/
def race : List Operation :=
  [⟨.credential, "t", .write serviceAccountBody ⟨10, 0⟩ 8⟩,
    ⟨.credential, "t", .write serviceAccountBody ⟨20, 0⟩ 8⟩,
    ⟨.credential, "t", .delete "c"⟩,
    ⟨.credential, "t", .write awsKeyBody ⟨30, 0⟩ 8⟩]

/-- The second write lists the first one's row and makes its update at the very end. -/
def raceSchedule : List Nat := [0, 0, 1, 2, 3, 3, 1]

/-- What the race leaves. -/
def raced : Stored .credential :=
  ⟨"c", "aws-key", .credential "\x7b\x7d", "1970-01-01T00:00:30Z", "1970-01-01T00:00:20Z"⟩

set_option maxRecDepth 100000 in
theorem decodeBatch_serviceAccountBody : decodeBatch .credential serviceAccountBody =
    [.ok ⟨"c", "gcp-service-account", .credential (.string "\x7b\x7d")⟩] := by
  cbv

/-- A scalar without anchor or tag. -/
def scalarAt (index line column : Nat) (style : Yaml.ScalarStyle) (text : String) : Yaml.Node :=
  .scalar ⟨⟨index, line, column⟩, none, none⟩ style text

def awsKeyDocument : Yaml.Document where
  root := .mapping ⟨⟨0, 0, 0⟩, none, none⟩
    [(scalarAt 0 0 0 .plain "name", scalarAt 6 0 6 .plain "c"),
      (scalarAt 8 1 0 .plain "type", scalarAt 14 1 6 .plain "aws-key"),
      (scalarAt 22 2 0 .plain "value", .mapping ⟨⟨29, 2, 7⟩, none, none⟩
        [(scalarAt 30 2 8 .singleQuoted "AWS_ACCESS_KEY_ID", scalarAt 51 2 29 .singleQuoted "i"),
          (scalarAt 56 2 34 .singleQuoted "AWS_SECRET_ACCESS_KEY",
            scalarAt 81 2 59 .singleQuoted "s")])]
  size := 13
  faulty := false

set_option maxRecDepth 100000 in
theorem ofText_awsKeyBody : Yaml.Document.ofText awsKeyBody = [awsKeyDocument] := by
  cbv

theorem decodeBatch_awsKeyBody : decodeBatch .credential awsKeyBody =
    [.ok ⟨"c", "aws-key", .credential (.mapping [(.string "AWS_ACCESS_KEY_ID", .string "i"),
      (.string "AWS_SECRET_ACCESS_KEY", .string "s")])⟩] := by
  have hread : Submission.ofDocument .credential awsKeyDocument =
      .ok (some ⟨"c", "aws-key", .credential (.mapping
        [(.string "AWS_ACCESS_KEY_ID", .string "i"),
          (.string "AWS_SECRET_ACCESS_KEY", .string "s")])⟩) := rfl
  simp only [decodeBatch, ofText_awsKeyBody, recordsOf, hread]

set_option maxRecDepth 100000 in
theorem credentials_race :
    ((start race).run raceSchedule).state.credentials = [(⟨"t", "c"⟩, raced)] := by
  simp only [race, start, List.map_cons, List.map_nil, Task.start, Operation.dialogue,
    Action.request, Service.write, decodeBatch_serviceAccountBody, decodeBatch_awsKeyBody]
  cbv

theorem not_isAwsText_raced : ¬ Credential.IsAwsText "\x7b\x7d" := by
  rintro ⟨keyId, secret, h⟩
  have hread : Json.Written.ofText? "\x7b\x7d".toList = some (.object []) := rfl
  cases hread.symm.trans h

theorem mem_raced :
    (⟨"t", "c"⟩, raced) ∈ ((start race).run raceSchedule).state.credentials := by
  rw [credentials_race]
  exact List.mem_singleton_self _

theorem value_need_not_fit : ¬ ∀ (ops : List Operation) (schedule : List Nat) (key : Key)
    (row : Stored .credential), (key, row) ∈ ((start ops).run schedule).state.credentials →
      ∃ value, row.payload = .credential value ∧
        (row.type = "aws-key" → Credential.IsAwsText value) ∧
        (row.type = "gcp-service-account" → Json.isWellFormed value = true) := by
  intro h
  obtain ⟨value, hpayload, haws, _⟩ := h race raceSchedule _ _ mem_raced
  cases hpayload
  exact not_isAwsText_raced (haws rfl)

/-- The row that the race leaves was left by an overtaken update. -/
theorem race_left_by_overtaken : LeftByOvertaken race raceSchedule ⟨"t", "c"⟩ raced := by
  obtain ⟨value, hpayload, _, hgcp | ⟨_, haws | hleft⟩⟩ :=
    credential_fits_or_overtaken race raceSchedule mem_raced
  · exact absurd hgcp (by decide)
  · cases hpayload
    exact absurd haws not_isAwsText_raced
  · exact hleft

end TenantRegistry.Memory.System
