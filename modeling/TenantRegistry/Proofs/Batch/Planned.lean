import TenantRegistry.Batch

/-!
When a batch is accepted, and what its plan holds.

`Accepted` says when a single record is: its content fits, and a stored name keeps its type.
`Planned` relates the records of a batch to the inserts and updates of its plan, one record at a
time; `reconcile_eq_ok_iff` shows that these are the plans that `reconcile` makes, and
`reconcile_ok_iff_accepted` that it makes one exactly for a batch of accepted records.
-/

namespace TenantRegistry

variable {k : Kind} {stored : String → Option String} {ctx : BatchContext}

/-! ## Records -/

/-- No value of a credential fits the empty type. -/
theorem Content.type_ne_empty_of_payload {c : Content .credential} {name type : String}
    {maxDepth : Nat} {p : Payload .credential} (h : c.payload name type maxDepth = .ok p) :
    type ≠ "" := by
  rintro rfl
  cases c with
  | credential value => cases h

namespace Submission

/-- Where the content fits, the check for a type comes to the same for both kinds. -/
theorem requireType_of_payload {s : Submission k} {p : Payload k}
    (hp : s.content.payload s.name s.type ctx.maxDepth = .ok p) :
    s.requireType = if s.type = "" then .error (.shape k s.name "is missing a type") else .ok () := by
  cases k with
  | credential => exact (if_neg (Content.type_ne_empty_of_payload hp)).symm
  | exporter => rfl

theorem toInsert_eq_ok {s : Submission k} {i : Insert k} (h : s.toInsert ctx = .ok i) :
    s.name ≠ "" ∧ s.type ≠ "" ∧
      ∃ p, s.content.payload s.name s.type ctx.maxDepth = .ok p ∧
        i = ⟨s.name, s.type, p, ctx.now, ctx.now⟩ := by
  unfold toInsert requireName at h
  split at h
  · cases h
  · next hname =>
    cases hp : s.content.payload s.name s.type ctx.maxDepth with
    | error e => rw [hp] at h; cases h
    | ok p =>
      simp only [hp, requireType_of_payload hp] at h
      by_cases htype : s.type = ""
      · rw [if_pos htype] at h; cases h
      · rw [if_neg htype] at h; cases h; exact ⟨hname, htype, p, rfl, rfl⟩

theorem toUpdate_eq_ok {s : Submission k} {current : String} {u : Update k}
    (h : s.toUpdate current ctx = .ok u) :
    s.name ≠ "" ∧
      ∃ p, s.content.payload s.name (if s.type = "" then current else s.type) ctx.maxDepth = .ok p ∧
        u = ⟨s.name, p, ctx.now⟩ := by
  unfold toUpdate requireName at h
  split at h
  · cases h
  · next hname =>
    cases hp : s.content.payload s.name (if s.type = "" then current else s.type) ctx.maxDepth with
    | error e => simp only [hp] at h; cases h
    | ok p => simp only [hp] at h; cases h; exact ⟨hname, p, rfl, rfl⟩

theorem toInsert_of_payload {s : Submission k} {p : Payload k} (hname : s.name ≠ "")
    (htype : s.type ≠ "") (hp : s.content.payload s.name s.type ctx.maxDepth = .ok p) :
    s.toInsert ctx = .ok ⟨s.name, s.type, p, ctx.now, ctx.now⟩ := by
  simp only [toInsert, requireName, requireType_of_payload hp, if_neg hname, if_neg htype, hp]
  rfl

theorem toUpdate_of_payload {s : Submission k} {current : String} {p : Payload k}
    (hname : s.name ≠ "")
    (hp : s.content.payload s.name (if s.type = "" then current else s.type) ctx.maxDepth = .ok p) :
    s.toUpdate current ctx = .ok ⟨s.name, p, ctx.now⟩ := by
  simp only [toUpdate, requireName, if_neg hname, hp]
  rfl

theorem name_of_toInsert {s : Submission k} {i : Insert k} (h : s.toInsert ctx = .ok i) :
    i.name = s.name := by
  obtain ⟨_, _, p, _, rfl⟩ := toInsert_eq_ok h
  rfl

theorem name_of_toUpdate {s : Submission k} {current : String} {u : Update k}
    (h : s.toUpdate current ctx = .ok u) : u.name = s.name := by
  obtain ⟨_, p, _, rfl⟩ := toUpdate_eq_ok h
  rfl

/-- A record is accepted: as a new one, or as new content for a stored one whose type it leaves
alone. -/
def Accepted (s : Submission k) (stored : String → Option String) (ctx : BatchContext) : Prop :=
  match stored s.name with
  | none => ∃ i, s.toInsert ctx = .ok i
  | some current => (∃ u, s.toUpdate current ctx = .ok u) ∧ (s.type = "" ∨ s.type = current)

theorem step_insert {s : Submission k} {i : Insert k} (hs : stored s.name = none)
    (hi : s.toInsert ctx = .ok i) : s.step stored ctx = .ok (.insert i) := by
  unfold step
  rw [hs, hi]
  rfl

theorem step_update {s : Submission k} {current : String} {u : Update k}
    (hs : stored s.name = some current) (hu : s.toUpdate current ctx = .ok u)
    (ht : s.type = "" ∨ s.type = current) : s.step stored ctx = .ok (.update u) := by
  unfold step
  have hsame : ¬ (s.type ≠ "" ∧ s.type ≠ current) := fun h => ht.elim h.1 h.2
  rw [hs]
  simp only [hu, if_neg hsame]
  rfl

theorem step_eq_ok {s : Submission k} {st : Step k} (h : s.step stored ctx = .ok st) :
    (∃ i, stored s.name = none ∧ s.toInsert ctx = .ok i ∧ st = .insert i) ∨
    (∃ current u, stored s.name = some current ∧ s.toUpdate current ctx = .ok u ∧
      (s.type = "" ∨ s.type = current) ∧ st = .update u) := by
  unfold step at h
  split at h
  · next hs =>
    cases hi : s.toInsert ctx with
    | error e => rw [hi] at h; cases h
    | ok i => rw [hi] at h; cases h; exact .inl ⟨i, hs, rfl, rfl⟩
  · next current hs =>
    cases hu : s.toUpdate current ctx with
    | error e => rw [hu] at h; cases h
    | ok u =>
      by_cases ht : s.type ≠ "" ∧ s.type ≠ current
      · simp only [hu, if_pos ht] at h
        cases h
      · simp only [hu, if_neg ht] at h
        cases h
        exact .inr ⟨current, u, hs, hu, Decidable.or_iff_not_not_and_not.mpr ht, rfl⟩

end Submission

/-! ## Plans -/

/-- The inserts and updates that records become, in the order of the records. -/
inductive Planned (stored : String → Option String) (ctx : BatchContext) :
    List (Submission k) → List (Insert k) → List (Update k) → Prop
  | nil : Planned stored ctx [] [] []
  | insert {s : Submission k} {i : Insert k} {subs : List (Submission k)}
      {inserts : List (Insert k)} {updates : List (Update k)} :
      stored s.name = none → s.toInsert ctx = .ok i → Planned stored ctx subs inserts updates →
      Planned stored ctx (s :: subs) (i :: inserts) updates
  | update {s : Submission k} {u : Update k} {current : String} {subs : List (Submission k)}
      {inserts : List (Insert k)} {updates : List (Update k)} :
      stored s.name = some current → s.toUpdate current ctx = .ok u →
      (s.type = "" ∨ s.type = current) → Planned stored ctx subs inserts updates →
      Planned stored ctx (s :: subs) inserts (u :: updates)

theorem steps_cons {s : Submission k} {rest : List (Except RequestError (Submission k))}
    {st : Step k} {ss : List (Step k)} (hst : s.step stored ctx = .ok st)
    (hss : steps stored ctx rest = .ok ss) : steps stored ctx (.ok s :: rest) = .ok (st :: ss) := by
  simp only [steps, bind, Except.bind, hst, hss]
  rfl

theorem Planned.exists_steps {subs : List (Submission k)} {inserts : List (Insert k)}
    {updates : List (Update k)} (h : Planned stored ctx subs inserts updates) :
    ∃ ss, steps stored ctx (subs.map .ok) = .ok ss ∧ Plan.ofSteps ss = ⟨inserts, updates⟩ := by
  induction h with
  | nil => exact ⟨[], rfl, rfl⟩
  | insert hs hi _ ih =>
    obtain ⟨ss, hss, hplan⟩ := ih
    cases hplan
    exact ⟨_, steps_cons (Submission.step_insert hs hi) hss, rfl⟩
  | update hs hu ht _ ih =>
    obtain ⟨ss, hss, hplan⟩ := ih
    cases hplan
    exact ⟨_, steps_cons (Submission.step_update hs hu ht) hss, rfl⟩

theorem planned_of_steps {records : List (Except RequestError (Submission k))}
    {ss : List (Step k)} (h : steps stored ctx records = .ok ss) :
    ∃ subs, records = subs.map .ok ∧
      Planned stored ctx subs (Plan.ofSteps ss).inserts (Plan.ofSteps ss).updates := by
  induction records generalizing ss with
  | nil => cases h; exact ⟨[], rfl, .nil⟩
  | cons r rest ih =>
    cases r with
    | error e => cases h
    | ok s =>
      cases hst : s.step stored ctx with
      | error e => simp only [steps, bind, Except.bind, hst] at h; cases h
      | ok st =>
        cases hss : steps stored ctx rest with
        | error e => simp only [steps, bind, Except.bind, hst, hss] at h; cases h
        | ok ss' =>
          rw [steps_cons hst hss] at h
          cases h
          obtain ⟨subs, rfl, hplan⟩ := ih hss
          refine ⟨s :: subs, rfl, ?_⟩
          rcases Submission.step_eq_ok hst with ⟨i, hs, hi, rfl⟩ | ⟨current, u, hs, hu, ht, rfl⟩
          · exact .insert hs hi hplan
          · exact .update hs hu ht hplan

theorem Planned.length_eq {subs : List (Submission k)} {inserts : List (Insert k)}
    {updates : List (Update k)} (h : Planned stored ctx subs inserts updates) :
    inserts.length + updates.length = subs.length := by
  induction h with
  | nil => rfl
  | insert _ _ _ ih => simp only [List.length_cons]; omega
  | update _ _ _ _ ih => simp only [List.length_cons]; omega

/-- The plans that are made: of at least one record, all of them readable. -/
theorem reconcile_eq_ok_iff {records : List (Except RequestError (Submission k))} {p : Plan k} :
    reconcile stored ctx records = .ok p ↔
      ∃ subs, records = subs.map .ok ∧ subs ≠ [] ∧ Planned stored ctx subs p.inserts p.updates := by
  constructor
  · intro h
    unfold reconcile at h
    cases hss : steps stored ctx records with
    | error e => rw [hss] at h; cases h
    | ok ss =>
      obtain ⟨subs, hsubs, hplan⟩ := planned_of_steps hss
      rw [hss] at h
      by_cases hempty : (Plan.ofSteps ss).isEmpty = true
      · simp only [bind, Except.bind, hempty, if_true] at h
        cases h
      · simp only [bind, Except.bind, hempty] at h
        cases h
        refine ⟨subs, hsubs, ?_, hplan⟩
        rintro rfl
        have hlen := hplan.length_eq
        exact hempty (by simpa [Plan.isEmpty, Plan.size] using hlen)
  · rintro ⟨subs, rfl, hne, hplan⟩
    obtain ⟨ss, hss, hofSteps⟩ := hplan.exists_steps
    have hlen := hplan.length_eq
    have hpos : subs.length ≠ 0 := fun h => hne (List.length_eq_zero_iff.mp h)
    have hnonempty : ¬ (Plan.ofSteps ss).isEmpty = true := by
      rw [hofSteps]
      simp only [Plan.isEmpty, Plan.size, beq_iff_eq]
      omega
    unfold reconcile
    simp only [hss, bind, Except.bind, hnonempty]
    rw [hofSteps]
    rfl

/-! ## What a plan holds -/

namespace Planned

variable {subs : List (Submission k)} {inserts : List (Insert k)} {updates : List (Update k)}

theorem accepted (h : Planned stored ctx subs inserts updates) :
    ∀ s ∈ subs, s.Accepted stored ctx := by
  induction h with
  | nil => simp
  | insert hs hi _ ih =>
    refine List.forall_mem_cons.mpr ⟨?_, ih⟩
    unfold Submission.Accepted
    rw [hs]
    exact ⟨_, hi⟩
  | update hs hu ht _ ih =>
    refine List.forall_mem_cons.mpr ⟨?_, ih⟩
    unfold Submission.Accepted
    rw [hs]
    exact ⟨⟨_, hu⟩, ht⟩

theorem exists_of_accepted (h : ∀ s ∈ subs, s.Accepted stored ctx) :
    ∃ inserts updates, Planned stored ctx subs inserts updates := by
  induction subs with
  | nil => exact ⟨[], [], .nil⟩
  | cons s rest ih =>
    obtain ⟨hs, hrest⟩ := List.forall_mem_cons.mp h
    obtain ⟨inserts, updates, hplan⟩ := ih hrest
    unfold Submission.Accepted at hs
    split at hs
    · next hnew =>
      obtain ⟨i, hi⟩ := hs
      exact ⟨i :: inserts, updates, .insert hnew hi hplan⟩
    · next current hold =>
      obtain ⟨⟨u, hu⟩, ht⟩ := hs
      exact ⟨inserts, u :: updates, .update hold hu ht hplan⟩

theorem insert_names (h : Planned stored ctx subs inserts updates) :
    inserts.map (·.name) = (subs.map (·.name)).filter fun n => (stored n).isNone := by
  induction h with
  | nil => rfl
  | insert hs hi _ ih => simp [hs, ih, Submission.name_of_toInsert hi]
  | update hs _ _ _ ih => simp [hs, ih]

theorem update_names (h : Planned stored ctx subs inserts updates) :
    updates.map (·.name) = (subs.map (·.name)).filter fun n => (stored n).isSome := by
  induction h with
  | nil => rfl
  | insert hs _ _ ih => simp [hs, ih]
  | update hs hu _ _ ih => simp [hs, ih, Submission.name_of_toUpdate hu]

theorem exists_insert (h : Planned stored ctx subs inserts updates) {s : Submission k}
    (hs : s ∈ subs) (hnew : stored s.name = none) : ∃ i ∈ inserts, s.toInsert ctx = .ok i := by
  induction h with
  | nil => cases hs
  | insert _ hi _ ih =>
    rcases List.mem_cons.mp hs with rfl | hs
    · exact ⟨_, List.mem_cons_self, hi⟩
    · obtain ⟨i, hmem, hi⟩ := ih hs
      exact ⟨i, List.mem_cons_of_mem _ hmem, hi⟩
  | update hold _ _ _ ih =>
    rcases List.mem_cons.mp hs with rfl | hs
    · rw [hnew] at hold; cases hold
    · exact ih hs

theorem of_mem_inserts (h : Planned stored ctx subs inserts updates) {i : Insert k}
    (hi : i ∈ inserts) : ∃ s ∈ subs, stored s.name = none ∧ s.toInsert ctx = .ok i := by
  induction h with
  | nil => cases hi
  | insert hs hins _ ih =>
    rcases List.mem_cons.mp hi with rfl | hi
    · exact ⟨_, List.mem_cons_self, hs, hins⟩
    · obtain ⟨s, hmem, hs⟩ := ih hi
      exact ⟨s, List.mem_cons_of_mem _ hmem, hs⟩
  | update _ _ _ _ ih =>
    obtain ⟨s, hmem, hs⟩ := ih hi
    exact ⟨s, List.mem_cons_of_mem _ hmem, hs⟩

theorem not_stored_of_mem_inserts (h : Planned stored ctx subs inserts updates) {i : Insert k}
    (hi : i ∈ inserts) : stored i.name = none := by
  obtain ⟨s, _, hnew, hins⟩ := h.of_mem_inserts hi
  rw [Submission.name_of_toInsert hins]
  exact hnew

theorem of_mem_updates (h : Planned stored ctx subs inserts updates) {u : Update k}
    (hu : u ∈ updates) :
    ∃ s ∈ subs, ∃ current, stored s.name = some current ∧ s.toUpdate current ctx = .ok u ∧
      (s.type = "" ∨ s.type = current) := by
  induction h with
  | nil => cases hu
  | insert _ _ _ ih =>
    obtain ⟨s, hmem, hs⟩ := ih hu
    exact ⟨s, List.mem_cons_of_mem _ hmem, hs⟩
  | update hs hupd ht _ ih =>
    rcases List.mem_cons.mp hu with rfl | hu
    · exact ⟨_, List.mem_cons_self, _, hs, hupd, ht⟩
    · obtain ⟨s, hmem, hs⟩ := ih hu
      exact ⟨s, List.mem_cons_of_mem _ hmem, hs⟩

/-- The update of a record stands before those of the records after it. -/
theorem split_updates {before after : List (Submission k)} {s : Submission k} {current : String}
    (h : Planned stored ctx (before ++ s :: after) inserts updates)
    (hs : stored s.name = some current) :
    ∃ first u last, updates = first ++ u :: last ∧ s.toUpdate current ctx = .ok u ∧
      ∀ v ∈ last, ∃ x ∈ after, v.name = x.name := by
  induction before generalizing inserts updates with
  | nil =>
    cases h with
    | insert hnew => rw [hs] at hnew; cases hnew
    | update hold hu _ hplan =>
      -- This is the record itself, and all that is planned after it comes from `after`.
      cases hs.symm.trans hold
      refine ⟨[], _, _, rfl, hu, fun v hv => ?_⟩
      obtain ⟨x, hx, _, _, hv, _⟩ := hplan.of_mem_updates hv
      exact ⟨x, hx, Submission.name_of_toUpdate hv⟩
  | cons x rest ih =>
    cases h with
    | insert _ _ hplan => exact ih hplan
    | update _ _ _ hplan =>
      obtain ⟨first, u, last, rfl, hu, hlast⟩ := ih hplan
      exact ⟨_ :: first, u, last, rfl, hu, hlast⟩

end Planned

/-- Records that can all be read are those of a list of submissions. -/
theorem exists_eq_map_ok {records : List (Except RequestError (Submission k))}
    (h : ∀ r ∈ records, ∃ s : Submission k, r = .ok s) :
    ∃ subs : List (Submission k), records = subs.map .ok := by
  induction records with
  | nil => exact ⟨[], rfl⟩
  | cons r rest ih =>
    obtain ⟨⟨s, rfl⟩, hrest⟩ := List.forall_mem_cons.mp h
    obtain ⟨subs, rfl⟩ := ih hrest
    exact ⟨s :: subs, rfl⟩

/-- A batch is planned exactly if it has a record and all its records can be read and are
accepted. -/
theorem reconcile_ok_iff_accepted {records : List (Except RequestError (Submission k))} :
    (∃ p, reconcile stored ctx records = .ok p) ↔
      records ≠ [] ∧ ∀ r ∈ records, ∃ s : Submission k, r = .ok s ∧ s.Accepted stored ctx := by
  constructor
  · rintro ⟨p, hp⟩
    obtain ⟨subs, rfl, hne, hplan⟩ := reconcile_eq_ok_iff.mp hp
    refine ⟨by simpa using hne, fun r hr => ?_⟩
    obtain ⟨s, hs, rfl⟩ := List.mem_map.mp hr
    exact ⟨s, rfl, hplan.accepted s hs⟩
  · rintro ⟨hne, hall⟩
    have hread : ∀ r ∈ records, ∃ s : Submission k, r = .ok s := by
      intro r hr
      obtain ⟨s, heq, _⟩ := hall r hr
      exact ⟨s, heq⟩
    obtain ⟨subs, rfl⟩ := exists_eq_map_ok hread
    have hsubs : ∀ s ∈ subs, s.Accepted stored ctx := by
      intro s hs
      obtain ⟨_, heq, hacc⟩ := hall (.ok s) (List.mem_map_of_mem hs)
      cases heq
      exact hacc
    obtain ⟨inserts, updates, hplan⟩ := Planned.exists_of_accepted hsubs
    exact ⟨⟨inserts, updates⟩, reconcile_eq_ok_iff.mpr ⟨subs, rfl, by simpa using hne, hplan⟩⟩

end TenantRegistry
