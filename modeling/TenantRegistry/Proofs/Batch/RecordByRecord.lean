import Mathlib
import TenantRegistry.Proofs.Batch.FirstFailure
import TenantRegistry.Proofs.Record.StrictReading
import TenantRegistry.Proofs.Yaml.Prefix.Documents

/-!
A body read record by record.

`records_first`: the records of a body that ends with a line are the first ones of the body that
goes on with a line `---` and any text. What is wrong in that text counts from there on, and a
record before it that is refused is what the batch fails with. The text may hold a forbidden
character, but not in a portion that reading the records takes in: such a portion is refused as a
whole, and the records with it (`decodeBatch_controlAhead`).
-/

namespace TenantRegistry

open Yaml (Document)

variable {k : Kind}

theorem recordsOf_append {index : Nat} {before : List Document} {rs : List (Submission k)}
    (h : recordsOf k index before = rs.map .ok) (after : List Document) :
    recordsOf k index (before ++ after) =
      rs.map .ok ++ recordsOf k (index + rs.length) after := by
  induction before generalizing index rs with
  | nil =>
    obtain rfl : rs = [] := List.map_eq_nil_iff.mp h.symm
    rfl
  | cons d rest ih =>
    rw [List.cons_append, recordsOf]
    rw [recordsOf] at h
    cases hd : Submission.ofDocument k d with
    | error e =>
      rw [hd] at h
      cases rs <;> cases h
    | ok o =>
      rw [hd] at h
      cases o with
      | none => exact ih h
      | some s =>
        cases rs with
        | nil => cases h
        | cons s' rs =>
          obtain ⟨hs, hrest⟩ := List.cons.inj h
          cases hs
          dsimp only
          rw [ih hrest, List.length_cons, Nat.add_assoc, Nat.add_comm 1]
          rfl

/-- Records come from documents that are not malformed. -/
theorem not_faulty_of_records {index : Nat} {documents : List Document} {rs : List (Submission k)}
    (h : recordsOf k index documents = rs.map .ok) : ∀ d ∈ documents, d.faulty = false := by
  induction documents generalizing index rs with
  | nil => nofun
  | cons d rest ih =>
    rw [recordsOf] at h
    cases hd : Submission.ofDocument k d with
    | error e =>
      rw [hd] at h
      cases rs <;> cases h
    | ok o =>
      rw [hd] at h
      refine List.forall_mem_cons.mpr ⟨(ofDocument_eq_ok_iff.mp hd).1, ?_⟩
      cases o with
      | none => exact ih h
      | some s =>
        cases rs with
        | nil => cases h
        | cons s' rs => exact ih (List.cons.inj h).2

theorem records_of_void (m : Yaml.Mark) : recordsOf k 0 [.void m] = [] := by
  cases k <;> rfl

theorem FirstFailure.append {stored : String → Option String} {ctx : BatchContext}
    {records : List (Except RequestError (Submission k))} {e : RequestError}
    (h : FirstFailure stored ctx records e) (later : List (Except RequestError (Submission k))) :
    FirstFailure stored ctx (records ++ later) e := by
  obtain ⟨before, r, after, rfl, haccepted, hfails⟩ := h
  exact ⟨before, r, after ++ later, by rw [List.append_assoc]; rfl, haccepted, hfails⟩

/-- The records of a body that ends with a line come first in the body that goes on with a line
`---` and any text, if reading goes beyond that line. An error in that text has the index of a later
record, and a refusal of one of the records is what the batch fails with. -/
theorem records_first (k : Kind) {b s : String} {rs : List (Submission k)}
    (hlines : b = "" ∨ b.toList.getLast? = some '\n') (hrs : decodeBatch k b = rs.map .ok)
    (hread : Yaml.Source.ReadsBeyond (b ++ "---\n").length (b ++ "---\n" ++ s).toList) :
    (∃ later : List (Submission k),
      decodeBatch k (b ++ "---\n" ++ s) = (rs ++ later).map .ok ∨
      ∃ message, decodeBatch k (b ++ "---\n" ++ s) =
        (rs ++ later).map .ok ++ [.error (.decode k (rs ++ later).length message)]) ∧
    ∀ stored ctx e, rs ≠ [] → reconcile stored ctx (decodeBatch k b) = .error e →
      reconcile stored ctx (decodeBatch k (b ++ "---\n" ++ s)) = .error e := by
  have hsplit : (b ++ "---\n" ++ s).toList = b.toList ++ Yaml.separated s.toList := by
    simp [Yaml.separated]
  have hlength : (b ++ "---\n").length = b.toList.length + 4 := by
    rw [String.length_append, String.length_toList]
    rfl
  have hends : b.toList = [] ∨ Yaml.EndsLine b.toList := hlines.imp_left fun h => by rw [h]; rfl
  rw [hsplit, hlength] at hread
  have hparted := Yaml.Token.ofText_parted hends hread
  rw [← hsplit] at hparted
  have hwhole : ∃ more, decodeBatch k (b ++ "---\n" ++ s) =
      rs.map .ok ++ recordsOf k rs.length more := by
    rcases Document.ofText_parted hparted (not_faulty_of_records hrs) with
      ⟨m, hvoid⟩ | ⟨more, hmore⟩
    · rw [decodeBatch, hvoid, records_of_void] at hrs
      obtain rfl : rs = [] := List.map_eq_nil_iff.mp hrs.symm
      exact ⟨_, rfl⟩
    · refine ⟨more, ?_⟩
      rw [decodeBatch, hmore, recordsOf_append hrs, Nat.zero_add]
  obtain ⟨more, hmore⟩ := hwhole
  rw [hmore]
  refine ⟨?_, fun stored ctx e hne herror => ?_⟩
  · obtain ⟨later, hlater | ⟨message, hlater⟩⟩ := recordsOf_ends (k := k) rs.length more
    · exact ⟨later, .inl (by rw [hlater, List.map_append])⟩
    · refine ⟨later, .inr ⟨message, ?_⟩⟩
      rw [hlater, List.map_append, List.length_append, List.append_assoc]
  · rw [hrs, reconcile_eq_error_iff] at herror
    rw [reconcile_eq_error_iff]
    rcases herror with ⟨hnil, -⟩ | hfirst
    · exact absurd (List.map_eq_nil_iff.mp hnil) hne
    · exact .inr (hfirst.append _)

/-! ## A record before a syntax error -/

def recordBody : String :=
  "name: a\nvalue: x\n"

/-- A new record without a type. -/
def typelessRecord : Submission .credential :=
  ⟨"a", "", .credential (.string "x")⟩

def recordDocument : Document where
  root := .mapping (untaggedAt 0 0 0 none)
    [(.scalar (untaggedAt 0 0 0 none) .plain "name", .scalar (untaggedAt 6 0 6 none) .plain "a"),
      (.scalar (untaggedAt 8 1 0 none) .plain "value", .scalar (untaggedAt 15 1 7 none) .plain "x")]
  size := 6
  faulty := false

set_option maxRecDepth 100000 in
theorem ofText_recordBody : Document.ofText recordBody = [recordDocument] := by
  cbv

theorem decodeBatch_recordBody : decodeBatch .credential recordBody = [.ok typelessRecord] := by
  rw [decodeBatch, ofText_recordBody]
  rfl

/-- The record is refused for its missing type. The bracket after it is wrong as well, but later. -/
theorem records_first_typeless :
    decodeBatch .credential recordBody = [.ok typelessRecord] ∧
    Yaml.Source.ReadsBeyond (recordBody ++ "---\n").length (recordBody ++ "---\n" ++ "]").toList ∧
    (∃ later : List (Submission .credential),
      decodeBatch .credential (recordBody ++ "---\n" ++ "]") =
        ([typelessRecord] ++ later).map .ok ∨
      ∃ message, decodeBatch .credential (recordBody ++ "---\n" ++ "]") =
        ([typelessRecord] ++ later).map .ok ++
          [.error (.decode .credential ([typelessRecord] ++ later).length message)]) ∧
    reconcile (fun _ => none) ⟨⟨0, 0⟩, 8⟩
        (decodeBatch .credential (recordBody ++ "---\n" ++ "]")) =
      .error (.unsupportedType .credential "") := by
  have hread : Yaml.Source.ReadsBeyond (recordBody ++ "---\n").length
      (recordBody ++ "---\n" ++ "]").toList := by
    decide
  have hrecord : decodeBatch .credential recordBody = [typelessRecord].map .ok :=
    decodeBatch_recordBody
  have hfirst := records_first .credential (.inr rfl) hrecord hread
  refine ⟨decodeBatch_recordBody, hread, hfirst.1, hfirst.2 _ _ _ (List.cons_ne_nil _ _) ?_⟩
  rw [decodeBatch_recordBody]
  rfl

/-! ## A record before a control character -/

set_option maxRecDepth 100000 in
theorem ofText_controlAhead :
    Document.ofText (recordBody ++ "---\n" ++ "\x01") = [⟨.fault, 0, true⟩] := by
  cbv

/-- A control character after the line `---` makes a record before that line unreadable. -/
theorem decodeBatch_controlAhead :
    decodeBatch .credential recordBody = [.ok typelessRecord] ∧
    decodeBatch .credential (recordBody ++ "---\n" ++ "\x01") =
      [.error (.decode .credential 0 "malformed YAML")] := by
  refine ⟨decodeBatch_recordBody, ?_⟩
  rw [decodeBatch, ofText_controlAhead]
  rfl

end TenantRegistry
