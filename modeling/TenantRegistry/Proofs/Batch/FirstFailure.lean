import TenantRegistry.Proofs.Batch.Planned

/-!
What a batch becomes, and what it fails with.

`Refused` says why a single record is refused, one reason coming before the other. A plan is the
image of its records, each in its place (`Plan.ImageOf`); a batch without a plan fails with the
failure of its first record that has one. The main statement is `reconcile_meaning`.
-/

namespace TenantRegistry

variable {k : Kind} {stored : String → Option String} {ctx : BatchContext}

/-! ## Records that are refused -/

namespace Submission

/-- The type that the content of a record is checked against: its own, or else the stored one. -/
def checkedType (s : Submission k) (stored : String → Option String) : String :=
  if s.type = "" then (stored s.name).getD "" else s.type

/-- Why a record is refused. A missing name comes before content that does not fit, and that before
a new record without a type and a stored one under another type. -/
inductive Refused (stored : String → Option String) (ctx : BatchContext) (s : Submission k) :
    RequestError → Prop
  | noName : s.name = "" → Refused stored ctx s (.shape k "" "is missing a name")
  | content {e : RequestError} : s.name ≠ "" →
      s.content.payload s.name (s.checkedType stored) ctx.maxDepth = .error e →
      Refused stored ctx s e
  | noType {p : Payload k} : s.name ≠ "" →
      s.content.payload s.name (s.checkedType stored) ctx.maxDepth = .ok p →
      stored s.name = none → s.type = "" →
      Refused stored ctx s (.shape k s.name "is missing a type")
  | typeChange {p : Payload k} {current : String} : s.name ≠ "" →
      s.content.payload s.name (s.checkedType stored) ctx.maxDepth = .ok p →
      stored s.name = some current → s.type ≠ "" → s.type ≠ current →
      Refused stored ctx s (.typeChange k s.name current s.type)

theorem checkedType_of_new {s : Submission k} (h : stored s.name = none) :
    s.checkedType stored = s.type := by
  unfold checkedType
  split
  · next hempty => rw [h, hempty]; rfl
  · rfl

theorem checkedType_of_stored {s : Submission k} {current : String}
    (h : stored s.name = some current) :
    s.checkedType stored = if s.type = "" then current else s.type := by
  rw [checkedType, h]
  rfl

theorem accepted_iff {s : Submission k} :
    s.Accepted stored ctx ↔ ∃ st, s.step stored ctx = .ok st := by
  unfold Accepted
  constructor
  · intro h
    split at h
    · next hnew =>
      obtain ⟨i, hi⟩ := h
      exact ⟨_, step_insert hnew hi⟩
    · next current hold =>
      obtain ⟨⟨u, hu⟩, ht⟩ := h
      exact ⟨_, step_update hold hu ht⟩
  · rintro ⟨st, hst⟩
    rcases step_eq_ok hst with ⟨i, hnew, hi, _⟩ | ⟨current, u, hold, hu, ht, _⟩
    · rw [hnew]; exact ⟨i, hi⟩
    · rw [hold]; exact ⟨⟨u, hu⟩, ht⟩

theorem Refused.step {s : Submission k} {e : RequestError} (h : s.Refused stored ctx e) :
    s.step stored ctx = .error e := by
  cases h with
  | noName hname =>
    unfold Submission.step
    split <;> simp only [toInsert, toUpdate, requireName, if_pos hname] <;> rfl
  | content hname hp =>
    unfold Submission.step
    split
    · next hnew =>
      rw [checkedType_of_new hnew] at hp
      simp only [toInsert, requireName, if_neg hname, hp]
      rfl
    · next current hold =>
      rw [checkedType_of_stored hold] at hp
      simp only [toUpdate, requireName, if_neg hname, hp]
      rfl
  | noType hname hp hnew htype =>
    rw [checkedType_of_new hnew] at hp
    unfold Submission.step
    rw [hnew]
    simp only [toInsert, requireName, requireType_of_payload hp, if_neg hname, if_pos htype, hp]
    rfl
  | typeChange hname hp hold htype hother =>
    rw [checkedType_of_stored hold] at hp
    unfold Submission.step
    rw [hold]
    simp only [toUpdate_of_payload hname hp, if_pos (And.intro htype hother)]
    rfl

theorem accepted_or_refused (s : Submission k) (stored : String → Option String)
    (ctx : BatchContext) : s.Accepted stored ctx ∨ ∃ e, s.Refused stored ctx e := by
  by_cases hname : s.name = ""
  · exact .inr ⟨_, .noName hname⟩
  cases hp : s.content.payload s.name (s.checkedType stored) ctx.maxDepth with
  | error e => exact .inr ⟨e, .content hname hp⟩
  | ok p =>
    unfold Accepted
    cases hs : stored s.name with
    | none =>
      by_cases htype : s.type = ""
      · exact .inr ⟨_, .noType hname hp hs htype⟩
      · rw [checkedType_of_new hs] at hp
        exact .inl ⟨_, toInsert_of_payload hname htype hp⟩
    | some current =>
      by_cases ht : s.type = "" ∨ s.type = current
      · rw [checkedType_of_stored hs] at hp
        exact .inl ⟨⟨_, toUpdate_of_payload hname hp⟩, ht⟩
      · obtain ⟨htype, hother⟩ := not_or.mp ht
        exact .inr ⟨_, .typeChange hname hp hs htype hother⟩

/-- A record fails with the reason for which it is refused. -/
theorem step_eq_error_iff {s : Submission k} {e : RequestError} :
    s.step stored ctx = .error e ↔ s.Refused stored ctx e := by
  refine ⟨fun h => ?_, Refused.step⟩
  rcases s.accepted_or_refused stored ctx with hacc | ⟨e', he'⟩
  · obtain ⟨st, hst⟩ := accepted_iff.mp hacc
    cases h.symm.trans hst
  · cases h.symm.trans he'.step
    exact he'

end Submission

/-! ## The first failure -/

/-- What an element of a batch fails with: it cannot be read, or its record is refused. -/
inductive FailsWith (stored : String → Option String) (ctx : BatchContext) :
    Except RequestError (Submission k) → RequestError → Prop
  | unreadable (e : RequestError) : FailsWith stored ctx (.error e) e
  | refused {s : Submission k} {e : RequestError} : s.Refused stored ctx e →
      FailsWith stored ctx (.ok s) e

/-- `e` is the failure of the first element that fails. -/
def FirstFailure (stored : String → Option String) (ctx : BatchContext)
    (records : List (Except RequestError (Submission k))) (e : RequestError) : Prop :=
  ∃ (before : List (Submission k)) (r : Except RequestError (Submission k))
    (after : List (Except RequestError (Submission k))), records = before.map .ok ++ r :: after ∧
      (∀ s ∈ before, s.Accepted stored ctx) ∧ FailsWith stored ctx r e

theorem FirstFailure.steps {records : List (Except RequestError (Submission k))} {e : RequestError}
    (h : FirstFailure stored ctx records e) : steps stored ctx records = .error e := by
  obtain ⟨before, r, after, rfl, hbefore, hr⟩ := h
  induction before with
  | nil =>
    cases hr with
    | unreadable e => rfl
    | refused hs => simp only [List.map_nil, List.nil_append, TenantRegistry.steps, bind,
        Except.bind, hs.step]
  | cons s rest ih =>
    obtain ⟨hs, hrest⟩ := List.forall_mem_cons.mp hbefore
    obtain ⟨st, hst⟩ := Submission.accepted_iff.mp hs
    simp only [List.map_cons, List.cons_append, TenantRegistry.steps, bind, Except.bind, hst,
      ih hrest]

theorem firstFailure_of_steps {records : List (Except RequestError (Submission k))}
    {e : RequestError} (h : steps stored ctx records = .error e) :
    FirstFailure stored ctx records e := by
  induction records with
  | nil => cases h
  | cons r rest ih =>
    cases r with
    | error e' =>
      cases h
      exact ⟨[], _, rest, rfl, by simp, .unreadable e⟩
    | ok s =>
      cases hst : s.step stored ctx with
      | error e' =>
        simp only [steps, bind, Except.bind, hst] at h
        cases h
        exact ⟨[], _, rest, rfl, by simp, .refused (Submission.step_eq_error_iff.mp hst)⟩
      | ok st =>
        cases hss : steps stored ctx rest with
        | ok ss => rw [steps_cons hst hss] at h; cases h
        | error e' =>
          simp only [steps, bind, Except.bind, hst, hss] at h
          cases h
          obtain ⟨before, r, after, rfl, hbefore, hr⟩ := ih hss
          refine ⟨s :: before, r, after, rfl, ?_, hr⟩
          exact List.forall_mem_cons.mpr ⟨Submission.accepted_iff.mpr ⟨st, hst⟩, hbefore⟩

/-- A batch fails for want of records or with its first failure. -/
theorem reconcile_eq_error_iff {records : List (Except RequestError (Submission k))}
    {e : RequestError} :
    reconcile stored ctx records = .error e ↔
      (records = [] ∧ e = .emptyBatch k) ∨ FirstFailure stored ctx records e := by
  constructor
  · intro h
    cases hss : steps stored ctx records with
    | error e' =>
      rw [reconcile, hss] at h
      cases h
      exact .inr (firstFailure_of_steps hss)
    | ok ss =>
      -- All records are accepted, so there is none: any other batch has a plan.
      obtain ⟨subs, rfl, hplan⟩ := planned_of_steps hss
      by_cases hsubs : subs = []
      · subst hsubs
        cases h
        exact .inl ⟨rfl, rfl⟩
      · have hok := reconcile_eq_ok_iff.mpr ⟨subs, rfl, hsubs, hplan⟩
        cases h.symm.trans hok
  · rintro (⟨rfl, rfl⟩ | h)
    · rfl
    · rw [reconcile, h.steps]
      rfl

/-! ## The plan -/

/-- A plan is the image of its records: those with new names as inserts and those with stored names
as updates, both in order. -/
structure Plan.ImageOf (stored : String → Option String) (ctx : BatchContext)
    (subs : List (Submission k)) (p : Plan k) : Prop where
  inserts : p.inserts.map .ok =
    (subs.filter fun s => (stored s.name).isNone).map (·.toInsert ctx)
  updates : p.updates.map .ok =
    subs.filterMap fun s => (stored s.name).map fun current => s.toUpdate current ctx

theorem Planned.imageOf {subs : List (Submission k)} {inserts : List (Insert k)}
    {updates : List (Update k)} (h : Planned stored ctx subs inserts updates) :
    Plan.ImageOf stored ctx subs ⟨inserts, updates⟩ := by
  induction h with
  | nil => exact ⟨rfl, rfl⟩
  | insert hs hi _ ih =>
    exact ⟨by simp [hs, hi, ih.inserts], by simpa [hs] using ih.updates⟩
  | update hs hu _ _ ih =>
    exact ⟨by simpa [hs] using ih.inserts, by simp [hs, hu, ih.updates]⟩

theorem ok_map_injective {α ε : Type} {xs ys : List α}
    (h : xs.map (Except.ok (ε := ε)) = ys.map .ok) : xs = ys :=
  (List.map_inj_right fun _ _ => Except.ok.inj).mp h

theorem Plan.ImageOf.planned {subs : List (Submission k)} {p : Plan k}
    (h : p.ImageOf stored ctx subs) (hacc : ∀ s ∈ subs, s.Accepted stored ctx) :
    Planned stored ctx subs p.inserts p.updates := by
  obtain ⟨inserts, updates, hplan⟩ := Planned.exists_of_accepted hacc
  have himage := hplan.imageOf
  rw [ok_map_injective (h.inserts.trans himage.inserts.symm),
    ok_map_injective (h.updates.trans himage.updates.symm)]
  exact hplan

/-- All times of a plan are one time. -/
def Plan.StampedAt (now : Timestamp) (p : Plan k) : Prop :=
  (∀ i ∈ p.inserts, i.createdAt = now ∧ i.updatedAt = now) ∧ ∀ u ∈ p.updates, u.updatedAt = now

theorem Planned.stampedAt {subs : List (Submission k)} {inserts : List (Insert k)}
    {updates : List (Update k)} (h : Planned stored ctx subs inserts updates) :
    Plan.StampedAt ctx.now ⟨inserts, updates⟩ := by
  constructor
  · intro i hi
    obtain ⟨s, _, _, hs⟩ := h.of_mem_inserts hi
    obtain ⟨_, _, p, _, rfl⟩ := Submission.toInsert_eq_ok hs
    exact ⟨rfl, rfl⟩
  · intro u hu
    obtain ⟨s, _, current, _, hs, _⟩ := h.of_mem_updates hu
    obtain ⟨_, p, _, rfl⟩ := Submission.toUpdate_eq_ok hs
    rfl

/-- What a batch becomes. It has a plan exactly if it has a record and all its records can be read
and are accepted; the plan is their image, holds as many entries as there are records, carries one
time, and leaves the types of stored names alone. A batch without a plan has no record, or fails
with its first failure. -/
theorem reconcile_meaning (stored : String → Option String) (ctx : BatchContext)
    (records : List (Except RequestError (Submission k))) :
    ((∃ p, reconcile stored ctx records = .ok p) ↔
      records ≠ [] ∧ ∀ r ∈ records, ∃ s : Submission k, r = .ok s ∧ s.Accepted stored ctx) ∧
    (∀ p, reconcile stored ctx records = .ok p ↔
      ∃ subs, records = subs.map .ok ∧ subs ≠ [] ∧ (∀ s ∈ subs, s.Accepted stored ctx) ∧
        p.ImageOf stored ctx subs) ∧
    (∀ p, reconcile stored ctx records = .ok p →
      p.size = records.length ∧ p.StampedAt ctx.now ∧
        ∀ u ∈ p.updates, ∃ s : Submission k, .ok s ∈ records ∧ s.name = u.name ∧
          ∃ current, stored u.name = some current ∧ (s.type = "" ∨ s.type = current)) ∧
    ∀ e, reconcile stored ctx records = .error e ↔
      (records = [] ∧ e = .emptyBatch k) ∨ FirstFailure stored ctx records e := by
  refine ⟨reconcile_ok_iff_accepted, fun p => ?_, fun p hp => ?_, fun e => reconcile_eq_error_iff⟩
  · rw [reconcile_eq_ok_iff]
    constructor
    · rintro ⟨subs, hrecords, hne, hplan⟩
      exact ⟨subs, hrecords, hne, hplan.accepted, hplan.imageOf⟩
    · rintro ⟨subs, hrecords, hne, hacc, himage⟩
      exact ⟨subs, hrecords, hne, himage.planned hacc⟩
  · obtain ⟨subs, rfl, _, hplan⟩ := reconcile_eq_ok_iff.mp hp
    refine ⟨?_, hplan.stampedAt, fun u hu => ?_⟩
    · rw [List.length_map]
      exact hplan.length_eq
    · obtain ⟨s, hs, current, hold, hupdate, ht⟩ := hplan.of_mem_updates hu
      have hname := Submission.name_of_toUpdate hupdate
      exact ⟨s, List.mem_map_of_mem hs, hname.symm, current, hname ▸ hold, ht⟩

/-! ## A batch of a new and a stored exporter -/

/-- One exporter is stored. -/
def storedStackdriver (name : String) : Option String :=
  if name = "sd" then some "stackdriver" else none

def newCloudwatch : Submission .exporter :=
  ⟨"cw", "cloudwatch", .exporter (some "aws-prod") (.mapping [])⟩

/-- A record of the stored exporter that leaves its type out. -/
def typelessStackdriver : Submission .exporter :=
  ⟨"sd", "", .exporter (some "") (.mapping [])⟩

def mixedContext : BatchContext :=
  ⟨⟨0, 0⟩, 8⟩

def mixedPlan : Plan .exporter where
  inserts := [⟨"cw", "cloudwatch", .exporter (some "aws-prod") "\x7b\x7d", ⟨0, 0⟩, ⟨0, 0⟩⟩]
  updates := [⟨"sd", .exporter none "\x7b\x7d", ⟨0, 0⟩⟩]

theorem reconcile_mixed :
    reconcile storedStackdriver mixedContext [.ok typelessStackdriver, .ok newCloudwatch] =
      .ok mixedPlan := by
  rfl

/-- The plan has as many entries as the batch records, and the record without a type keeps the
stored one. -/
theorem reconcile_meaning_mixed :
    reconcile storedStackdriver mixedContext [.ok typelessStackdriver, .ok newCloudwatch] =
      .ok mixedPlan ∧
    mixedPlan.size = 2 ∧ mixedPlan.StampedAt ⟨0, 0⟩ ∧
    storedStackdriver "sd" = some "stackdriver" :=
  have hmeaning := (reconcile_meaning storedStackdriver mixedContext
    [.ok typelessStackdriver, .ok newCloudwatch]).2.2.1 mixedPlan reconcile_mixed
  ⟨reconcile_mixed, hmeaning.1, hmeaning.2.1, rfl⟩

end TenantRegistry
