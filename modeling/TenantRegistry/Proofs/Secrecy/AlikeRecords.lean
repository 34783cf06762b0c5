import Mathlib.Data.List.Forall2
import TenantRegistry.Proofs.Secrecy.Redaction

/-!
Records that differ in nothing but a secret.

Two values are alike when they are texts that are both JSON or both not, or mappings with the same
keys, whose values are equal or texts. Nothing else of a value decides whether its record is
accepted, and no refusal quotes it. So batches of alike records lead to plans that are the same once
redacted, or fail with the same error (`map_redacted_reconcile`).
-/

namespace TenantRegistry

variable {k : Kind}

/-! ## Two computations that may fail -/

/-- What `f` and `g` keep is the same of both computations if it is so step by step. -/
theorem map_bind_congr {ε α β γ δ : Type} {f : α → γ} {g : β → δ} {r r' : Except ε α}
    {m m' : α → Except ε β} (hr : r.map f = r'.map f)
    (hm : ∀ a a', f a = f a' → (m a).map g = (m' a').map g) :
    (r >>= m).map g = (r' >>= m').map g := by
  cases r with
  | error e =>
    cases r' with
    | error e' => cases hr; rfl
    | ok a' => cases hr
  | ok a =>
    cases r' with
    | error e' => cases hr
    | ok a' => exact hm a a' (Except.ok.inj hr)

theorem map_bind_same {ε α β δ : Type} {g : β → δ} {r : Except ε α} {m m' : α → Except ε β}
    (hm : ∀ a, (m a).map g = (m' a).map g) : (r >>= m).map g = (r >>= m').map g := by
  refine map_bind_congr (f := id) rfl fun a a' h => ?_
  cases h
  exact hm a

/-! ## Values -/

namespace Credential

open Yaml (Tree)

/-- The value under a key of a mapping. -/
def valueAt? (key : Tree) (entries : List (Tree × Tree)) : Option Tree :=
  (entries.find? (·.1.same key)).map (·.2)

theorem field?_eq (key : String) (entries : List (Tree × Tree)) :
    field? key entries = valueAt? (.string key) entries := rfl

/-- What is under a key in two mappings: nothing, equal values, or two texts. -/
inductive AlikeEntries : Option Tree → Option Tree → Prop
  | none : AlikeEntries none none
  | equal (v : Tree) : AlikeEntries (some v) (some v)
  | same {v w : Tree} : v.same w = true → AlikeEntries (some v) (some w)
  | strings (s t : String) : AlikeEntries (some (.string s)) (some (.string t))

/-- Values that differ in nothing but a secret. -/
inductive AlikeValues : Tree → Tree → Prop
  | equal (v : Tree) : AlikeValues v v
  | strings {s t : String} :
      Json.isWellFormed s = Json.isWellFormed t → AlikeValues (.string s) (.string t)
  | mappings {xs ys : List (Tree × Tree)} :
      xs.length = ys.length → (∀ key, AlikeEntries (valueAt? key xs) (valueAt? key ys)) →
      AlikeValues (.mapping xs) (.mapping ys)

theorem valueAt?_cons (key : Tree) (e : Tree × Tree) (rest : List (Tree × Tree)) :
    valueAt? key (e :: rest) = if e.1.same key then some e.2 else valueAt? key rest := by
  unfold valueAt?
  rw [List.find?_cons]
  cases e.1.same key <;> rfl

/-- Mappings are alike if their entries are, one after the other. -/
theorem AlikeValues.of_entries {xs ys : List (Tree × Tree)}
    (h : List.Forall₂ (fun e e' => e.1 = e'.1 ∧ AlikeEntries (some e.2) (some e'.2)) xs ys) :
    AlikeValues (.mapping xs) (.mapping ys) := by
  refine .mappings h.length_eq fun key => ?_
  induction h with
  | nil => exact .none
  | cons hfirst _ ih =>
    rw [valueAt?_cons, valueAt?_cons, hfirst.1]
    split
    · exact hfirst.2
    · exact ih

/-- The value is a string, whatever its tag. -/
def isText (t : Tree) : Bool :=
  (stringOf? t).isSome

theorem isText_of_same {a b : Tree} (h : a.same b = true) : isText a = isText b := by
  unfold isText stringOf?
  fun_induction Tree.untagged a generalizing b with
  | case1 tag value ih =>
    cases b with
    | tagged tag' value' =>
      simp only [Tree.same, Bool.and_eq_true] at h
      exact ih (b := value') h.2
    | _ => cases h
  | case2 t hne =>
    -- Trees that are the same begin with the same constructor, here not that of a tag.
    cases t <;> cases b <;> first | rfl | cases h | exact (hne _ _ rfl).elim

theorem AlikeEntries.map_isText {x y : Option Tree} (h : AlikeEntries x y) :
    x.map isText = y.map isText := by
  cases h with
  | same h => exact congrArg some (isText_of_same h)
  | _ => rfl

/-- Whether a mapping is an `aws-key`, and what is wrong with it, shows in its size and in which
fields are texts. -/
theorem map_awsFields (entries : List (Tree × Tree)) :
    (awsFields (.mapping entries)).map (fun _ => ()) =
      if entries.length ≠ 2 then .error "wrong size"
      else
        match (field? keyIdField entries).map isText, (field? secretField entries).map isText with
        | some true, some true => .ok ()
        | some _, some _ => .error "non-string fields"
        | _, _ => .error "missing fields" := by
  simp only [awsFields]
  split
  · rfl
  · cases field? keyIdField entries with
    | none => rfl
    | some keyId =>
      cases field? secretField entries with
      | none => cases hkeyId : isText keyId <;> simp only [Option.map_some, hkeyId] <;> rfl
      | some secret =>
        simp only [Option.map_some, isText]
        cases stringOf? keyId <;> cases stringOf? secret <;> rfl

theorem AlikeValues.map_awsFields {v w : Tree} (h : AlikeValues v w) :
    (awsFields v).map (fun _ => ()) = (awsFields w).map fun _ => () := by
  cases h with
  | equal => rfl
  | strings => rfl
  | mappings hlen hall =>
    have hkeyId := (hall (.string keyIdField)).map_isText
    have hsecret := (hall (.string secretField)).map_isText
    simp only [Credential.map_awsFields, hlen, field?_eq, hkeyId, hsecret]

theorem AlikeValues.map_payload {v w : Tree} (h : AlikeValues v w) (type : CredentialType)
    (name : String) :
    (type.payload name v).map (fun _ => ()) = (type.payload name w).map fun _ => () := by
  cases type with
  | awsKey =>
    have hfields := h.map_awsFields
    simp only [CredentialType.payload]
    cases hv : awsFields v <;> cases hw : awsFields w <;> rw [hv, hw] at hfields <;>
      cases hfields <;> rfl
  | gcpServiceAccount =>
    cases h with
    | equal => rfl
    | strings hsame =>
      simp only [CredentialType.payload, hsame]
      split <;> rfl
    | mappings => rfl

theorem AlikeValues.map_validate {v w : Tree} (h : AlikeValues v w) (name type : String) :
    (validate name type v).map (fun _ => ()) = (validate name type w).map fun _ => () :=
  map_bind_same fun credentialType => h.map_payload credentialType name

end Credential

/-! ## Records -/

/-- Content that differs in nothing but a secret. -/
inductive Content.Alike : {k : Kind} → Content k → Content k → Prop
  | same {k : Kind} (c : Content k) : Content.Alike c c
  | credential {v w : Yaml.Tree} :
      Credential.AlikeValues v w → Content.Alike (.credential v) (.credential w)

structure Submission.Alike (s s' : Submission k) : Prop where
  name_eq : s.name = s'.name
  type_eq : s.type = s'.type
  content : s.content.Alike s'.content

/-- What is read of two bodies at the same place: the same failure, or alike records. -/
inductive AlikeReads : Except RequestError (Submission k) → Except RequestError (Submission k) →
    Prop
  | error (e : RequestError) : AlikeReads (.error e) (.error e)
  | ok {s s' : Submission k} : s.Alike s' → AlikeReads (.ok s) (.ok s')

def Step.redacted : Step k → Step k
  | .insert i => .insert i.redacted
  | .update u => .update u.redacted

theorem Content.Alike.map_redacted {c c' : Content k} (h : c.Alike c') (name type : String)
    (maxDepth : Nat) :
    (c.payload name type maxDepth).map (·.redacted) =
      (c'.payload name type maxDepth).map (·.redacted) := by
  cases h with
  | same => rfl
  | credential h =>
    -- Once the value is redacted, all that is left of a payload is that there is one.
    have hunit (r : Except RequestError String) :
        (r.map Payload.credential).map (·.redacted) =
          (r.map fun _ => ()).map fun _ => .credential "" := by
      cases r <;> rfl
    simp only [payload]
    rw [hunit, hunit, h.map_validate]

namespace Submission

variable {s s' : Submission k}

theorem Alike.map_toInsert (h : s.Alike s') (ctx : BatchContext) :
    (s.toInsert ctx).map (·.redacted) = (s'.toInsert ctx).map (·.redacted) := by
  obtain ⟨name, type, content⟩ := s
  obtain ⟨name', type', content'⟩ := s'
  obtain ⟨hname, htype, hcontent⟩ := h
  cases hname
  cases htype
  refine map_bind_same fun _ => ?_
  refine map_bind_congr (hcontent.map_redacted name type ctx.maxDepth) fun p p' hp => ?_
  have hasked : requireType ⟨name, type, content'⟩ = requireType ⟨name, type, content⟩ := by
    cases k <;> rfl
  rw [hasked]
  refine map_bind_same fun _ => ?_
  exact congrArg (fun p => Except.ok (Insert.mk name type p ctx.now ctx.now)) hp

theorem Alike.map_toUpdate (h : s.Alike s') (current : String) (ctx : BatchContext) :
    (s.toUpdate current ctx).map (·.redacted) = (s'.toUpdate current ctx).map (·.redacted) := by
  obtain ⟨name, type, content⟩ := s
  obtain ⟨name', type', content'⟩ := s'
  obtain ⟨hname, htype, hcontent⟩ := h
  cases hname
  cases htype
  refine map_bind_same fun _ => ?_
  refine map_bind_congr (hcontent.map_redacted name _ ctx.maxDepth) fun p p' hp => ?_
  exact congrArg (fun p => Except.ok (Update.mk name p ctx.now)) hp

theorem Alike.map_step (h : s.Alike s') (stored : String → Option String) (ctx : BatchContext) :
    (s.step stored ctx).map (·.redacted) = (s'.step stored ctx).map (·.redacted) := by
  unfold step
  rw [h.name_eq]
  split
  · have hinsert (r : Except RequestError (Insert k)) :
        (r.map Step.insert).map (·.redacted) = (r.map (·.redacted)).map Step.insert := by
      cases r <;> rfl
    rw [hinsert, hinsert, h.map_toInsert]
  · next current _ =>
    refine map_bind_congr (h.map_toUpdate current ctx) fun u u' hu => ?_
    rw [h.type_eq]
    split
    · rfl
    · exact congrArg (fun u => Except.ok (Step.update u)) hu

end Submission

/-! ## Batches -/

theorem redacted_ofSteps (ss : List (Step k)) :
    (Plan.ofSteps ss).redacted = Plan.ofSteps (ss.map (·.redacted)) := by
  induction ss with
  | nil => rfl
  | cons s rest ih =>
    simp only [Plan.redacted, Plan.ofSteps, Plan.mk.injEq] at ih
    cases s <;> simp [Plan.redacted, Plan.ofSteps, Step.redacted, ih]

theorem isEmpty_redacted (p : Plan k) : p.redacted.isEmpty = p.isEmpty := by
  simp only [Plan.isEmpty, Plan.size, Plan.redacted, List.length_map]

variable {records records' : List (Except RequestError (Submission k))}

theorem steps_ok_cons (s : Submission k) (rest : List (Except RequestError (Submission k)))
    (stored : String → Option String) (ctx : BatchContext) :
    steps stored ctx (.ok s :: rest) = (do
      let st ← s.step stored ctx
      let ss ← steps stored ctx rest
      return st :: ss) := rfl

theorem map_redacted_steps (h : List.Forall₂ AlikeReads records records')
    (stored : String → Option String) (ctx : BatchContext) :
    (steps stored ctx records).map (·.map (·.redacted)) =
      (steps stored ctx records').map (·.map (·.redacted)) := by
  induction h with
  | nil => rfl
  | cons hfirst _ ih =>
    cases hfirst with
    | error e => rfl
    | ok hsame =>
      rw [steps_ok_cons, steps_ok_cons]
      refine map_bind_congr (hsame.map_step stored ctx) fun st st' hst => ?_
      refine map_bind_congr ih fun ss ss' hss => ?_
      exact congrArg Except.ok (congrArg₂ List.cons hst hss)

/-- Alike batches have the same plan without the secrets, or fail the same. -/
theorem map_redacted_reconcile (h : List.Forall₂ AlikeReads records records')
    (stored : String → Option String) (ctx : BatchContext) :
    (reconcile stored ctx records).map (·.redacted) =
      (reconcile stored ctx records').map (·.redacted) := by
  refine map_bind_congr (map_redacted_steps h stored ctx) fun ss ss' hss => ?_
  have hplan : (Plan.ofSteps ss).redacted = (Plan.ofSteps ss').redacted := by
    rw [redacted_ofSteps, redacted_ofSteps, hss]
  dsimp only
  rw [← isEmpty_redacted, ← isEmpty_redacted (Plan.ofSteps ss'), hplan]
  split
  · rfl
  · exact congrArg Except.ok hplan

end TenantRegistry
