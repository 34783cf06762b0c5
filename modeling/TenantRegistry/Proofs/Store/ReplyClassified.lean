import Mathlib
import TenantRegistry.Proofs.Json.WellFormed
import TenantRegistry.Proofs.Service.Script
import TenantRegistry.Store.Graphql

/-!
What the replies of a GraphQL endpoint mean.

The shapes of replies are relations between what a text writes and what that stands for: rows,
data, errors and the envelope of both. A reply of such a shape is answered by what it stands for:
errors before data, a conflict before any other failure, and no data only where the data say so.
`replies_classified` has that for every call and reply, and for the requests that make the calls.
-/

namespace TenantRegistry.Graphql

open Json (Written)

variable {k : Kind}

/-! ## The shapes of replies -/

/-- The entries of an object whose keys are texts, none of them repeated. -/
structure Proper (entries : List (Option String × Written)) : Prop where
  texts : ∀ e ∈ entries, e.1.isSome = true
  distinct : (entries.map (·.1)).Nodup

/-- What an object has under a name that may be missing or null. -/
inductive Optional {α : Type} (Reads : Written → α → Prop)
    (entries : List (Option String × Written)) (name : String) : Option α → Prop
  | missing : (∀ w, (some name, w) ∉ entries) → Optional Reads entries name none
  | null : (some name, .null) ∈ entries → Optional Reads entries name none
  | given {w : Written} {a : α} : (some name, w) ∈ entries → w ≠ .null → Reads w a →
      Optional Reads entries name (some a)

def IsText (w : Written) (s : String) : Prop :=
  w = .string (some s)

/-- The JSON text in a row: a string is the text itself, and any other value is written out. -/
def rowText : Json → String
  | .string s => s
  | value => value.text

/-- A tree that a value can be read from, with the text that a row has of it. -/
def IsConfig (depth : Nat) (w : Written) (text : String) : Prop :=
  ∃ value, w.value? Json.reread (Json.depthLimit - depth) = some value ∧ text = rowText value

/-- The object of a row; `depth` counts the collections around its fields. -/
inductive IsRow (depth : Nat) : (k : Kind) → Written → Row k → Prop
  | credential {entries : List (Option String × Written)} {name type created updated : String} :
      Proper entries →
      (some "name", .string (some name)) ∈ entries →
      (some "type", .string (some type)) ∈ entries →
      (some "created_at", .string (some created)) ∈ entries →
      (some "updated_at", .string (some updated)) ∈ entries →
      IsRow depth .credential (.object entries) ⟨name, type, .credential, created, updated⟩
  | exporter {entries : List (Option String × Written)} {name type created updated : String}
      {reference : Option String} {tree : Written} {config : String} :
      Proper entries →
      (some "name", .string (some name)) ∈ entries →
      (some "type", .string (some type)) ∈ entries →
      Optional IsText entries "credential" reference →
      (some "config", tree) ∈ entries → IsConfig depth tree config →
      (some "created_at", .string (some created)) ∈ entries →
      (some "updated_at", .string (some updated)) ∈ entries →
      IsRow depth .exporter (.object entries)
        ⟨name, type, .exporter reference config, created, updated⟩

/-- Data of the shape of a call, and the answer that they are. Of what was inserted or updated
they say nothing that counts. -/
def IsData : (c : Call k) → Written → c.Reply → Prop
  | .list _, w, rows => ∃ entries items, w = .object entries ∧ Proper entries ∧
      (some k.name, .array items) ∈ entries ∧ List.Forall₂ (IsRow listedRowDepth k) items rows
  | .get .., w, row => ∃ entries, w = .object entries ∧ Proper entries ∧
      Optional (IsRow singleRowDepth k) entries (k.name ++ "_by_pk") row
  | .insert .., _, _ => True
  | .update .., _, _ => True
  | .delete .., w, row => ∃ entries, w = .object entries ∧ Proper entries ∧
      Optional (IsRow singleRowDepth k) entries ("delete_" ++ k.name ++ "_by_pk") row

def IsExtensions (w : Written) (code : Option String) : Prop :=
  ∃ entries, w = .object entries ∧ Proper entries ∧ Optional IsText entries "code" code

/-- An error object: a message, and extensions that may have a code. -/
def IsProblem (w : Written) (p : Problem) : Prop :=
  ∃ entries extensions, w = .object entries ∧ Proper entries ∧
    (some "message", .string (some p.message)) ∈ entries ∧
    Optional IsExtensions entries "extensions" extensions ∧ p.code = extensions.join

/-- An envelope of data, which may be missing or null, and errors, which may be missing. -/
def IsEnvelope (c : Call k) (w : Written) (data : Option c.Reply) (problems : List Problem) :
    Prop :=
  ∃ entries, w = .object entries ∧ Proper entries ∧ Optional (IsData c) entries "data" data ∧
    ((∀ e, (some "errors", e) ∉ entries) ∧ problems = [] ∨
      ∃ items, (some "errors", .array items) ∈ entries ∧ List.Forall₂ IsProblem items problems)

/-! ## Reading fields -/

section Fields

variable {entries : List (Option String × Written)} {name : String}

theorem mem_under {w : Written} : w ∈ Written.under name entries ↔ (some name, w) ∈ entries := by
  unfold Written.under
  rw [List.mem_map]
  constructor
  · rintro ⟨⟨key, w⟩, hmem, rfl⟩
    obtain ⟨hin, hkey⟩ := List.mem_filter.mp hmem
    have hname : key = some name := eq_of_beq hkey
    exact hname ▸ hin
  · intro hin
    exact ⟨(some name, w), List.mem_filter.mpr ⟨hin, beq_self_eq_true _⟩, rfl⟩

theorem Proper.length_under_le (h : Proper entries) (name : String) :
    (Written.under name entries).length ≤ 1 := by
  unfold Written.under
  rw [List.length_map, ← List.countP_eq_length_filter]
  have hcount : (entries.map (·.1)).count (some name) ≤ 1 :=
    List.nodup_iff_count_le_one.mp h.distinct _
  rwa [List.count, List.countP_map] at hcount

theorem head?_under_of_mem {w : Written} (hin : (some name, w) ∈ entries)
    (hlength : (Written.under name entries).length ≤ 1) :
    (Written.under name entries).head? = some w := by
  have hmem := mem_under.mpr hin
  cases hunder : Written.under name entries with
  | nil =>
    rw [hunder] at hmem
    cases hmem
  | cons x rest =>
    rw [hunder] at hmem hlength
    have hrest : rest = [] :=
      List.length_eq_zero_iff.mp (Nat.le_zero.mp (Nat.le_of_succ_le_succ hlength))
    rw [hrest] at hmem
    rw [List.mem_singleton.mp hmem, List.head?_cons]

theorem Proper.head?_under {w : Written} (h : Proper entries) (hin : (some name, w) ∈ entries) :
    (Written.under name entries).head? = some w :=
  head?_under_of_mem hin (h.length_under_le name)

theorem head?_under_of_missing (h : ∀ w, (some name, w) ∉ entries) :
    (Written.under name entries).head? = none := by
  rw [List.head?_eq_none_iff, List.eq_nil_iff_forall_not_mem]
  exact fun w hmem => h w (mem_under.mp hmem)

/-- The fields of an object without repeated keys. -/
theorem Proper.fields?_eq (h : Proper entries) (names : List String) (least : Nat) :
    Written.fields? names least (.object entries) =
      some (names.map fun name => (Written.under name entries).head?) := by
  refine if_pos ⟨List.all_eq_true.mpr h.texts, List.all_eq_true.mpr fun name _ => ?_⟩
  exact decide_eq_true (h.length_under_le name)

theorem Proper.text?_eq {s : String} (h : Proper entries)
    (hin : (some name, .string (some s)) ∈ entries) :
    Written.text? (Written.under name entries).head? = some s := by
  rw [h.head?_under hin]
  rfl

theorem optional?_of_ne_null {α : Type} (read : Written → Option α) {w : Written}
    (h : w ≠ .null) : Written.optional? read (some w) = (read w).map some := by
  cases w with
  | null => exact absurd rfl h
  | bool | number | string | array | object => rfl

theorem Proper.optional?_eq {α : Type} {Reads : Written → α → Prop} {read : Written → Option α}
    {a : Option α} (h : Proper entries) (ha : Optional Reads entries name a)
    (hread : ∀ w a, Reads w a → read w = some a) :
    Written.optional? read (Written.under name entries).head? = some a := by
  cases ha with
  | missing hmissing => rw [head?_under_of_missing hmissing]; rfl
  | null hnull => rw [h.head?_under hnull]; rfl
  | given hin hne hreads =>
    rw [h.head?_under hin, optional?_of_ne_null read hne, hread _ _ hreads]
    rfl

end Fields

/-! ## Reading shapes -/

theorem mapM_of_forall₂ {α β : Type} {R : α → β → Prop} {f : α → Option β} {xs : List α}
    {ys : List β} (h : List.Forall₂ R xs ys) (hf : ∀ x y, R x y → f x = some y) :
    xs.mapM f = some ys := by
  induction h with
  | nil => rfl
  | cons hxy _ ih =>
    rw [List.mapM_cons, hf _ _ hxy, ih]
    rfl

theorem text?_of_isText {w : Written} {s : String} (h : IsText w s) :
    Written.text? (some w) = some s := by
  rw [h]
  rfl

theorem jsonText?_of_isConfig {depth : Nat} {w : Written} {text : String}
    (h : IsConfig depth w text) :
    Written.jsonText? (Json.depthLimit - depth) (some w) = some text := by
  obtain ⟨value, hvalue, rfl⟩ := h
  simp only [Written.jsonText?, Option.bind_eq_bind, Option.bind_some, hvalue]
  cases value <;> rfl

theorem row?_of_isRow {depth : Nat} {w : Written} {row : Row k} (h : IsRow depth k w row) :
    row? k depth w = some row := by
  cases h with
  | credential h hname htype hcreated hupdated =>
    simp only [row?, h.fields?_eq, List.map_cons, List.map_nil, Option.bind_eq_bind,
      Option.bind_some, h.text?_eq hname, h.text?_eq htype, h.text?_eq hcreated,
      h.text?_eq hupdated]
    rfl
  | exporter h hname htype hreference htree hconfig hcreated hupdated =>
    have hread := h.optional?_eq hreference fun _ _ => text?_of_isText
    simp only [row?, h.fields?_eq, List.map_cons, List.map_nil, Option.bind_eq_bind,
      Option.bind_some, h.text?_eq hname, h.text?_eq htype, h.text?_eq hcreated,
      h.text?_eq hupdated, h.head?_under htree, jsonText?_of_isConfig hconfig, hread]
    rfl

theorem Proper.field?_eq {α : Type} {entries : List (Option String × Written)} {name : String}
    (h : Proper entries) (read : Option Written → Option α) :
    field? name read (.object entries) = read (Written.under name entries).head? := by
  simp only [field?, h.fields?_eq, List.map_cons, List.map_nil, Option.bind_eq_bind,
    Option.bind_some]

theorem data?_of_isData {c : Call k} {w : Written} {reply : c.Reply} (h : IsData c w reply) :
    data? c w = some reply := by
  cases c with
  | list tenant =>
    obtain ⟨entries, items, rfl, hproper, hin, hrows⟩ := h
    refine (hproper.field?_eq _).trans ?_
    rw [hproper.head?_under hin]
    exact mapM_of_forall₂ hrows fun _ _ => row?_of_isRow
  | get tenant name =>
    obtain ⟨entries, rfl, hproper, hrow⟩ := h
    exact (hproper.field?_eq _).trans (hproper.optional?_eq hrow fun _ _ => row?_of_isRow)
  | insert tenant rows => rfl
  | update tenant u => rfl
  | delete tenant name =>
    obtain ⟨entries, rfl, hproper, hrow⟩ := h
    exact (hproper.field?_eq _).trans (hproper.optional?_eq hrow fun _ _ => row?_of_isRow)

theorem extensions?_of_isExtensions {w : Written} {code : Option String}
    (h : IsExtensions w code) : extensions? w = some code := by
  obtain ⟨entries, rfl, hproper, hcode⟩ := h
  simp only [extensions?, hproper.fields?_eq, List.map_cons, List.map_nil, Option.bind_eq_bind,
    Option.bind_some]
  exact hproper.optional?_eq hcode fun _ _ => text?_of_isText

theorem problem?_of_isProblem {w : Written} {p : Problem} (h : IsProblem w p) :
    problem? w = some p := by
  obtain ⟨entries, extensions, rfl, hproper, hmessage, hextensions, hcode⟩ := h
  have hread := hproper.optional?_eq hextensions fun _ _ => extensions?_of_isExtensions
  simp only [problem?, hproper.fields?_eq, List.map_cons, List.map_nil, Option.bind_eq_bind,
    Option.bind_some, hproper.text?_eq hmessage, hread]
  rw [← hcode]
  rfl

theorem envelope?_of_isEnvelope {c : Call k} {w : Written} {data : Option c.Reply}
    {problems : List Problem} (h : IsEnvelope c w data problems) :
    envelope? c w = some (data, problems) := by
  obtain ⟨entries, rfl, hproper, hdata, herrors⟩ := h
  have hread := hproper.optional?_eq hdata fun _ _ => data?_of_isData
  simp only [envelope?, hproper.fields?_eq, List.map_cons, List.map_nil, Option.bind_eq_bind,
    Option.bind_some, hread]
  rcases herrors with ⟨hmissing, rfl⟩ | ⟨items, hin, hproblems⟩
  · rw [head?_under_of_missing hmissing]
    rfl
  · rw [hproper.head?_under hin]
    simp only [Written.list?, mapM_of_forall₂ hproblems fun _ _ => problem?_of_isProblem]
    rfl

/-! ## Errors in any envelope -/

theorem fields?_object {names : List String} {least : Nat}
    {entries : List (Option String × Written)} {fields : List (Option Written)}
    (h : Written.fields? names least (.object entries) = some fields) :
    fields = names.map (fun name => (Written.under name entries).head?) ∧
      ∀ name ∈ names, (Written.under name entries).length ≤ 1 := by
  simp only [Written.fields?] at h
  split at h
  · next hfields =>
    cases h
    exact ⟨rfl, fun name hname => of_decide_eq_true (List.all_eq_true.mp hfields.2 name hname)⟩
  · cases h

/-- Errors that are anything but an empty list leave the envelope with errors, if with anything. -/
theorem problems_ne_nil {c : Call k} {entries : List (Option String × Written)} {errors : Written}
    {data : Option c.Reply} {problems : List Problem} (hin : (some "errors", errors) ∈ entries)
    (hne : errors ≠ .array []) (h : envelope? c (.object entries) = some (data, problems)) :
    problems ≠ [] := by
  rintro rfl
  simp only [envelope?, Option.bind_eq_bind, Option.bind_eq_some_iff] at h
  obtain ⟨fields, hfields, hread⟩ := h
  obtain ⟨rfl, hlength⟩ := fields?_object hfields
  have hhead := head?_under_of_mem hin (hlength "errors" (by simp))
  simp only [List.map_cons, List.map_nil, hhead, Option.bind_eq_some_iff] at hread
  obtain ⟨_, _, problems, hproblems, heq⟩ := hread
  cases heq
  cases errors with
  | array items =>
    cases items with
    | nil => exact hne rfl
    | cons x rest =>
      simp only [Written.list?, List.mapM_cons, Option.bind_eq_bind, Option.bind_eq_some_iff]
        at hproblems
      obtain ⟨_, _, _, _, heq⟩ := hproblems
      cases heq
  | null | bool | number | string | object => cases hproblems

/-! ## Answers -/

/-- A reply of success whose body writes `w`. -/
structure Says (r : Reply) (w : Written) : Prop where
  status : 200 ≤ r.status ∧ r.status < 300
  body : Json.Written.ofText? r.text = some w

theorem isSuccess_iff {status : Nat} :
    Web.Status.isSuccess status = true ↔ 200 ≤ status ∧ status < 300 := by
  simp [Web.Status.isSuccess]

theorem answer_of_status {r : Reply} (h : 200 ≤ r.status ∧ r.status < 300) (c : Call k) :
    r.answer c = answerOf c r.text :=
  if_pos (isSuccess_iff.mpr h)

section Answers

variable {r : Reply} {w : Written} {c : Call k} {data : Option c.Reply} {problems : List Problem}

theorem Says.answer_of_problems (h : Says r w) (hw : IsEnvelope c w data problems)
    (hne : problems ≠ []) : r.answer c = .error (failure problems) := by
  rw [answer_of_status h.status, answerOf, h.body, Option.bind_some, envelope?_of_isEnvelope hw]
  cases problems with
  | nil => exact absurd rfl hne
  | cons problem others => cases data <;> rfl

theorem Says.answer_of_data (h : Says r w) (hw : IsEnvelope c w data []) :
    r.answer c = data.elim (.error (.backend "GraphQL response contained no data")) .ok := by
  rw [answer_of_status h.status, answerOf, h.body, Option.bind_some, envelope?_of_isEnvelope hw]
  cases data <;> rfl

end Answers

theorem failure_conflict {problems : List Problem}
    (h : ∃ p ∈ problems, p.code = some "constraint-violation") :
    failure problems = .conflict ("; ".intercalate (problems.map (·.message))) := by
  obtain ⟨p, hp, hcode⟩ := h
  exact if_pos (List.any_eq_true.mpr ⟨p, hp, by rw [hcode]; rfl⟩)

theorem failure_backend {problems : List Problem}
    (h : ∀ p ∈ problems, p.code ≠ some "constraint-violation") :
    failure problems = .backend ("; ".intercalate (problems.map (·.message))) := by
  refine if_neg fun hany => ?_
  obtain ⟨p, hp, hcode⟩ := List.any_eq_true.mp hany
  exact h p hp (beq_iff_eq.mp hcode)

/-- Errors that are anything but an empty list fail every call, well-formed or not. -/
theorem exists_error {r : Reply} {entries : List (Option String × Written)} {errors : Written}
    (hbody : Json.Written.ofText? r.text = some (.object entries))
    (hin : (some "errors", errors) ∈ entries) (hne : errors ≠ .array []) (c : Call k) :
    ∃ cause, r.answer c = .error cause := by
  unfold Reply.answer
  split
  · rw [answerOf, hbody, Option.bind_some]
    match henvelope : envelope? c (.object entries) with
    | none => exact ⟨_, rfl⟩
    | some (data, []) => exact absurd rfl (problems_ne_nil hin hne henvelope)
    | some (data, problem :: others) => exact ⟨_, rfl⟩
  · exact ⟨_, rfl⟩

/-! ## Requests -/

/-- What a request comes to when queries are replied to with `post`. -/
def requested {α : Type} (e : Endpoint) (post : Query → Option Reply)
    (request : Service.Request k α) : Except RequestError α :=
  Id.run (Dialogue.run (store e (fun query => pure (post query)) k) request.run)

theorem requested_call_bind {α : Type} {e : Endpoint} {post : Query → Option Reply} {r : Reply}
    {c : Call k} (he : e.problem? = none) (hpost : post (.ofCall c) = some r) (action : String)
    (f : c.Reply → Service.Request k α) :
    requested e post (Service.call action c >>= f) = match r.answer c with
      | .ok reply => requested e post (f reply)
      | .error cause => .error (.store action cause) := by
  have hstore : store (m := Id) e (fun query => pure (post query)) k c = pure (r.answer c) := by
    simp only [store, he, pure_bind, hpost]
  unfold requested
  rw [Service.run_call_bind, Dialogue.run, hstore]
  cases r.answer c <;> rfl

/-! ## All replies -/

/-- What a reply means for the calls on a kind, and for the requests that make them. -/
structure Classified (k : Kind) (r : Reply) : Prop where
  /-- Whatever its body, a reply without success is a failure of the backend. -/
  refused : ¬ (200 ≤ r.status ∧ r.status < 300) → ∀ c : Call k,
    ∃ detail, r.answer c = .error (.backend detail)
  /-- A body that is no JSON text makes no sense. -/
  unreadable : 200 ≤ r.status ∧ r.status < 300 → ¬ Json.Grammar.Document r.text → ∀ c : Call k,
    ∃ detail, r.answer c = .error (.decode detail)
  /-- A violated constraint anywhere among the errors is a conflict, whatever the data. -/
  conflict : ∀ (c : Call k) (w : Written) (data : Option c.Reply) (problems : List Problem),
    Says r w → IsEnvelope c w data problems →
    (∃ p ∈ problems, p.code = some "constraint-violation") →
    r.answer c = .error (.conflict ("; ".intercalate (problems.map (·.message))))
  /-- Any other errors are a failure of the backend, whatever the data. -/
  backend : ∀ (c : Call k) (w : Written) (data : Option c.Reply) (problems : List Problem),
    Says r w → IsEnvelope c w data problems → problems ≠ [] →
    (∀ p ∈ problems, p.code ≠ some "constraint-violation") →
    r.answer c = .error (.backend ("; ".intercalate (problems.map (·.message))))
  /-- Without errors the data are the answer. -/
  answered : ∀ (c : Call k) (w : Written) (reply : c.Reply),
    Says r w → IsEnvelope c w (some reply) [] → r.answer c = .ok reply
  /-- Without errors there must be data. -/
  empty : ∀ (c : Call k) (w : Written), Says r w → IsEnvelope c w none [] →
    ∃ detail, r.answer c = .error (.backend detail)
  /-- A row that is null or missing is not found. -/
  notFound : ∀ (e : Endpoint) (post : Query → Option Reply) (tenant name : String) (w : Written),
    e.problem? = none → Says r w →
    (post (.ofCall (.get tenant name : Call k)) = some r →
      IsEnvelope (.get tenant name : Call k) w (some none) [] →
      requested e post (Service.get tenant name : Service.Request k (Row k)) =
        .error (.notFound k tenant name)) ∧
    (post (.ofCall (.delete tenant name : Call k)) = some r →
      IsEnvelope (.delete tenant name : Call k) w (some none) [] →
      requested e post (Service.delete tenant name : Service.Request k (Row k)) =
        .error (.notFound k tenant name))
  /-- Errors that are anything but an empty list, well-formed or not, fail the call and with it the
  request, as a failure of the store. -/
  reported : ∀ (entries : List (Option String × Written)) (errors : Written),
    Json.Written.ofText? r.text = some (.object entries) → (some "errors", errors) ∈ entries →
    errors ≠ .array [] →
    ∀ (c : Call k) (e : Endpoint) (post : Query → Option Reply), e.problem? = none →
      post (.ofCall c) = some r → ∃ cause, r.answer c = .error cause ∧
        ∀ (α : Type) (action : String) (next : c.Reply → Service.Request k α),
          requested e post (Service.call action c >>= next) = .error (.store action cause)

/-- Every reply, to each of the five calls on either kind, is classified by its status, its errors
and its data, in this order. -/
theorem replies_classified (k : Kind) (r : Reply) : Classified k r where
  refused hstatus c := ⟨_, if_neg fun hsuccess => hstatus (isSuccess_iff.mp hsuccess)⟩
  unreadable hstatus hbody c := by
    have hnone : Json.Written.ofText? r.text = none := by
      rw [← Option.not_isSome_iff_eq_none]
      exact fun hsome => hbody (Json.Grammar.document_iff.mp hsome)
    rw [answer_of_status hstatus, answerOf, hnone]
    exact ⟨_, rfl⟩
  conflict c w data problems hshape hw hcode := by
    obtain ⟨p, hp, _⟩ := id hcode
    rw [hshape.answer_of_problems hw (List.ne_nil_of_mem hp), failure_conflict hcode]
  backend c w data problems hshape hw hne hcode := by
    rw [hshape.answer_of_problems hw hne, failure_backend hcode]
  answered c w reply hshape hw := hshape.answer_of_data hw
  empty c w hshape hw := ⟨_, hshape.answer_of_data hw⟩
  notFound e post tenant name w he hshape := by
    refine ⟨fun hpost hw => ?_, fun hpost hw => ?_⟩
    · unfold Service.get
      rw [requested_call_bind he hpost, hshape.answer_of_data hw]
      rfl
    · unfold Service.delete
      rw [requested_call_bind he hpost, hshape.answer_of_data hw]
      rfl
  reported entries errors hbody hin hne c e post he hpost := by
    obtain ⟨cause, hcause⟩ := exists_error hbody hin hne c
    refine ⟨cause, hcause, fun α action next => ?_⟩
    rw [requested_call_bind he hpost, hcause]

/-- Rows beside two errors, of which the second is a violated constraint. -/
def partialReply : Reply :=
  ⟨200, Utf8.decodeLossy, Utf8.ofString ("\x7b\"data\":\x7b\"credential\":[]\x7d,\"errors\":[" ++
    "\x7b\"message\":\"first\"\x7d," ++
    "\x7b\"message\":\"second\",\"extensions\":\x7b\"code\":\"constraint-violation\"\x7d\x7d]\x7d")⟩

def firstError : List (Option String × Written) :=
  [(some "message", .string (some "first"))]

def constraintExtensions : List (Option String × Written) :=
  [(some "code", .string (some "constraint-violation"))]

def secondError : List (Option String × Written) :=
  [(some "message", .string (some "second")), (some "extensions", .object constraintExtensions)]

def partialEnvelope : List (Option String × Written) :=
  [(some "data", .object [(some "credential", .array [])]),
    (some "errors", .array [.object firstError, .object secondError])]

theorem says_partialReply : Says partialReply (.object partialEnvelope) where
  status := by decide
  body := by cbv

theorem replies_classified_partial :
    Says partialReply (.object partialEnvelope) ∧
      partialReply.answer (.list "t" : Call .credential) = .error (.conflict "first; second") := by
  have hfirst : IsProblem (.object firstError) ⟨"first", none⟩ :=
    ⟨_, none, rfl, ⟨by decide, by decide⟩, .head _, .missing (by simp [firstError]), rfl⟩
  have hcode : Optional IsText constraintExtensions "code" (some "constraint-violation") :=
    .given (.head _) nofun rfl
  have hsecond : IsProblem (.object secondError) ⟨"second", some "constraint-violation"⟩ :=
    ⟨_, some (some "constraint-violation"), rfl, ⟨by decide, by decide⟩, .head _,
      .given (.tail _ (.head _)) nofun ⟨_, rfl, ⟨by decide, by decide⟩, hcode⟩, rfl⟩
  have hdata :
      IsData (.list "t" : Call .credential) (.object [(some "credential", .array [])]) [] :=
    ⟨_, [], rfl, ⟨by decide, by decide⟩, .head _, .nil⟩
  have henvelope : IsEnvelope (.list "t" : Call .credential) (.object partialEnvelope) (some [])
      [⟨"first", none⟩, ⟨"second", some "constraint-violation"⟩] :=
    ⟨_, rfl, ⟨by decide, by decide⟩, .given (.head _) nofun hdata,
      .inr ⟨_, .tail _ (.head _), .cons hfirst (.cons hsecond .nil)⟩⟩
  exact ⟨says_partialReply, (replies_classified .credential partialReply).conflict _ _ _ _
    says_partialReply henvelope ⟨_, .tail _ (.head _), rfl⟩⟩

end TenantRegistry.Graphql
