import Mathlib
import TenantRegistry.Proofs.Web.Routing
import TenantRegistry.Web.App

/-!
Requests are counted exactly.

Of a run of requests, each one whose path names a resource is counted once, under the kind of the
resource and its method, and once more with its status if that is an error. It does not matter what
came of the request, nor which store there is. No other request counts. Main statement:
`counted_exactly`.
-/

namespace TenantRegistry.Web

/-! ## Tallies of lists -/

namespace Tally

variable {α : Type} [DecidableEq α] {t : Tally α} {a b : α} {n : Nat}

/-- Each thing counted has one entry, and only such things have entries. -/
structure Proper (t : Tally α) : Prop where
  nodup : (t.map (·.1)).Nodup
  pos : ∀ p ∈ t, p.2 ≠ 0

theorem map_fst_bump :
    (bump a t).map (·.1) = if a ∈ t.map (·.1) then t.map (·.1) else t.map (·.1) ++ [a] := by
  induction t with
  | nil => rfl
  | cons p rest ih =>
    obtain ⟨b, n⟩ := p
    by_cases hb : b = a
    · simp [bump, hb]
    · rw [bump, if_neg hb, List.map_cons, ih, List.map_cons]
      simp only [List.mem_cons, Ne.symm hb, false_or]
      split <;> rfl

theorem Proper.bump (h : Proper t) (a : α) : Proper (bump a t) := by
  constructor
  · rw [map_fst_bump]
    split
    · exact h.nodup
    · next hnew => exact h.nodup.append (List.nodup_singleton a) (by simpa using hnew)
  · have hpos := h.pos
    clear h
    induction t with
    | nil => simp [Tally.bump]
    | cons p rest ih =>
      obtain ⟨b, n⟩ := p
      obtain ⟨hn, hrest⟩ := List.forall_mem_cons.mp hpos
      unfold Tally.bump
      split
      · exact List.forall_mem_cons.mpr ⟨Nat.succ_ne_zero n, hrest⟩
      · exact List.forall_mem_cons.mpr ⟨hn, ih hrest⟩

theorem sum_bump (t : Tally α) (a : α) :
    ((bump a t).map (·.2)).sum = (t.map (·.2)).sum + 1 := by
  induction t with
  | nil => rfl
  | cons p rest ih =>
    obtain ⟨b, n⟩ := p
    unfold bump
    split
    · simp only [List.map_cons, List.sum_cons]
      omega
    · simp only [List.map_cons, List.sum_cons, ih]
      omega

/-- The entries of a proper tally are what it has counted. -/
theorem Proper.mem_iff (h : Proper t) : (a, n) ∈ t ↔ n ≠ 0 ∧ n = t.get a := by
  induction t with
  | nil => simp [get]
  | cons p rest ih =>
    obtain ⟨b, m⟩ := p
    obtain ⟨hnew, hnodup⟩ := List.nodup_cons.mp h.nodup
    obtain ⟨hm, hpos⟩ := List.forall_mem_cons.mp h.pos
    rw [List.mem_cons, ih ⟨hnodup, hpos⟩, Prod.mk.injEq]
    by_cases hb : b = a
    · subst hb
      have hnone : get rest b = 0 := by
        rw [get, List.find?_eq_none.mpr fun p hp hpb =>
          hnew (List.mem_map.mpr ⟨p, hp, of_decide_eq_true hpb⟩)]
        rfl
      have hhead : get ((b, m) :: rest) b = m := by simp [get]
      rw [hnone, hhead]
      constructor
      · rintro (⟨-, rfl⟩ | ⟨hn, hzero⟩)
        · exact ⟨hm, rfl⟩
        · exact absurd hzero hn
      · rintro ⟨-, rfl⟩
        exact .inl ⟨rfl, rfl⟩
    · have hskip : get ((b, m) :: rest) a = get rest a := by simp [get, hb]
      rw [hskip]
      simp [Ne.symm hb]

/-- Counts the things of a list, one after the other. -/
def bumpAll (t : Tally α) (as : List α) : Tally α :=
  as.foldl (fun t a => bump a t) t

theorem bumpAll_spec (h : Proper t) (as : List α) :
    Proper (bumpAll t as) ∧ (∀ a, (bumpAll t as).get a = t.get a + as.count a) ∧
      ((bumpAll t as).map (·.2)).sum = (t.map (·.2)).sum + as.length := by
  induction as generalizing t with
  | nil => exact ⟨h, fun a => rfl, rfl⟩
  | cons b as ih =>
    obtain ⟨hproper, hget, hsum⟩ := ih (h.bump b)
    refine ⟨hproper, fun a => ?_, ?_⟩
    · rw [bumpAll, List.foldl_cons, ← bumpAll, hget, get_bump, List.count_cons]
      simp only [beq_iff_eq]
      omega
    · rw [bumpAll, List.foldl_cons, ← bumpAll, hsum, sum_bump, List.length_cons]
      omega

/-- The counts of a list from nothing on: an entry for each of its things says how often it is
there. -/
theorem bumpAll_nil (as : List α) :
    (∀ a, (bumpAll [] as).get a = as.count a) ∧
      (∀ a n, (a, n) ∈ bumpAll [] as ↔ n ≠ 0 ∧ n = (bumpAll [] as).get a ∧ a ∈ as) ∧
      ((bumpAll [] as).map (·.2)).sum = as.length := by
  obtain ⟨hproper, hget, hsum⟩ := bumpAll_spec (t := []) ⟨List.nodup_nil, by simp⟩ as
  have hcount : ∀ a, (bumpAll [] as).get a = as.count a := fun a =>
    (hget a).trans (Nat.zero_add _)
  refine ⟨hcount, fun a n => ?_, hsum.trans (Nat.zero_add _)⟩
  refine hproper.mem_iff.trans (and_congr_right fun hn => iff_self_and.mpr fun heq => ?_)
  rw [hcount] at heq
  exact List.count_pos_iff.mp (by omega)

end Tally

/-! ## What requests count as -/

/-- A request with the method `method` for a resource of the kind `k`, whatever resource it is. -/
def Asks (k : Kind) (method : String) (r : Request) : Prop :=
  r.method = method ∧ ∃ resource, Route.Names k (Target.ofString r.uri).path resource

/-- What a request is counted under, if it names a resource. -/
def labels? (r : Request) : Option RequestLabels :=
  match Route.ofPath? (Target.ofString r.uri).path with
  | some (.records k _) => some ⟨k.name, r.method⟩
  | _ => none

/-- What an answered request is counted under besides, if its status is an error. -/
def errorLabels? (p : Request × Response) : Option ErrorLabels :=
  if Metrics.isError p.2.status then (labels? p.1).map (⟨·, p.2.status⟩) else none

theorem labels?_eq_some_iff {r : Request} {label : RequestLabels} :
    labels? r = some label ↔ ∃ k, Asks k label.method r ∧ k.name = label.kind := by
  unfold labels?
  constructor
  · intro h
    split at h
    · next k resource hroute =>
      cases h
      exact ⟨k, ⟨rfl, resource, Route.ofPath?_eq_records_iff.mp hroute⟩, rfl⟩
    · cases h
  · rintro ⟨k, ⟨hmethod, resource, hnames⟩, hkind⟩
    rw [Route.ofPath?_eq_records_iff.mpr hnames]
    simp only [hmethod, hkind]

theorem Kind.name_injective : Function.Injective Kind.name := by
  intro k k' h
  cases k <;> cases k' <;> first | rfl | exact absurd h (by decide)

theorem labels?_eq_some_kind_iff {r : Request} {k : Kind} {method : String} :
    labels? r = some ⟨k.name, method⟩ ↔ Asks k method r := by
  rw [labels?_eq_some_iff]
  constructor
  · rintro ⟨k', h, hk⟩
    obtain rfl := Kind.name_injective hk
    exact h
  · exact fun h => ⟨k, h, rfl⟩

instance (k : Kind) (method : String) : DecidablePred (Asks k method) := fun _ =>
  decidable_of_iff _ labels?_eq_some_kind_iff

theorem errorLabels?_eq_some_iff {p : Request × Response} {k : Kind} {method : String}
    {status : Nat} :
    errorLabels? p = some ⟨⟨k.name, method⟩, status⟩ ↔
      (400 ≤ status ∧ status < 600) ∧ Asks k method p.1 ∧ p.2.status = status := by
  have herror : Metrics.isError p.2.status = true ↔ 400 ≤ p.2.status ∧ p.2.status < 600 := by
    simp [Metrics.isError]
  rw [errorLabels?, ← labels?_eq_some_kind_iff]
  split
  · next h =>
    simp only [Option.map_eq_some_iff, ErrorLabels.mk.injEq]
    constructor
    · rintro ⟨label, hlabel, rfl, rfl⟩
      exact ⟨herror.mp h, hlabel, rfl⟩
    · rintro ⟨-, hlabel, hstatus⟩
      exact ⟨_, hlabel, rfl, hstatus⟩
  · next h =>
    refine iff_of_false (by simp) fun ⟨hstatus, _, heq⟩ => h (herror.mpr ?_)
    rwa [heq]

/-! ## Steps and runs -/

/-- The counts after some requests have been answered. -/
def Metrics.after (m : Metrics) (log : List (Request × Response)) : Metrics :=
  ⟨m.requests.bumpAll (log.filterMap (labels? ·.1)), m.errors.bumpAll (log.filterMap errorLabels?)⟩

namespace Metrics

variable {m : Metrics} {r : Request}

theorem after_cons (m : Metrics) (p : Request × Response) (log : List (Request × Response)) :
    m.after (p :: log) = (m.after [p]).after log := by
  unfold after Tally.bumpAll
  simp only [List.filterMap_cons, List.filterMap_nil]
  cases labels? p.1 <;> cases errorLabels? p <;> rfl

theorem after_of_labels?_eq_none (h : labels? r = none) (response : Response) :
    m.after [(r, response)] = m := by
  simp [after, Tally.bumpAll, errorLabels?, h]

theorem after_of_labels?_eq_some {label : RequestLabels} (h : labels? r = some label)
    (response : Response) : m.after [(r, response)] = m.count label response.status := by
  unfold after count
  simp only [List.filterMap_cons, List.filterMap_nil, errorLabels?, h]
  by_cases herror : isError response.status = true
  · rw [if_pos herror, if_pos herror]
    rfl
  · rw [if_neg herror, if_neg herror]
    rfl

end Metrics

section Run

variable {σ : Type} (store : Store (StateM σ)) (limits : Limits)

/-- What a request adds to the counts depends on it and its response alone. -/
theorem handle_counts (metrics : Metrics) (r : Request) (s : σ) :
    (App.handle store limits metrics r s).1.2 =
      metrics.after [(r, (App.handle store limits metrics r s).1.1)] := by
  cases hroute : Route.ofPath? (Target.ofString r.uri).path with
  | none =>
    rw [Metrics.after_of_labels?_eq_none (by rw [labels?, hroute]), App.handle, hroute]
    rfl
  | some route =>
    cases route with
    | health =>
      rw [Metrics.after_of_labels?_eq_none (by rw [labels?, hroute]), App.handle, hroute]
      rfl
    | metrics =>
      rw [Metrics.after_of_labels?_eq_none (by rw [labels?, hroute]), App.handle, hroute]
      rfl
    | records k resource =>
      have hlabels : labels? r = some ⟨k.name, r.method⟩ := by rw [labels?, hroute]
      have hkind := (Route.ofPath?_eq_records_iff.mp hroute).kindLabel
      rw [Metrics.after_of_labels?_eq_some hlabels, App.handle, hroute]
      show Metrics.count metrics ⟨Route.kindLabel _, r.method⟩ _ =
        Metrics.count metrics _ (App.forMethod r.method _).status
      rw [hkind, App.status_forMethod]

/-- What a run of requests adds to the counts is what its requests add. -/
theorem handleAll_counts (requests : List Request) (metrics : Metrics) (s : σ) :
    let run := (App.handleAll store limits metrics requests s).1
    run.1.length = requests.length ∧ run.2 = metrics.after (requests.zip run.1) := by
  induction requests generalizing metrics s with
  | nil => exact ⟨rfl, rfl⟩
  | cons r rest ih =>
    obtain ⟨hlength, hcounts⟩ := ih (App.handle store limits metrics r s).1.2
      (App.handle store limits metrics r s).2
    have hstep log := congrArg (Metrics.after · log) (handle_counts store limits metrics r s)
    exact ⟨congrArg (· + 1) hlength, (hcounts.trans (hstep _)).trans (Metrics.after_cons ..).symm⟩

/-! ## Exact counts -/

/-- Counts that are right for some requests and their responses. -/
structure Metrics.Exact (m : Metrics) (requests : List Request) (responses : List Response) :
    Prop where
  requests_get : ∀ k method,
    m.requests.get ⟨Kind.name k, method⟩ = requests.countP (Asks k method ·)
  errors_get : ∀ k method status,
    m.errors.get ⟨⟨Kind.name k, method⟩, status⟩ =
      if 400 ≤ status ∧ status < 600 then
        (requests.zip responses).countP fun p => Asks k method p.1 ∧ p.2.status = status
      else 0
  /-- There are no counters but these. -/
  requests_mem : ∀ label n, (label, n) ∈ m.requests →
    n ≠ 0 ∧ n = m.requests.get label ∧ ∃ k : Kind, label.kind = k.name
  errors_mem : ∀ label n, (label, n) ∈ m.errors →
    n ≠ 0 ∧ n = m.errors.get label ∧ ∃ k : Kind, label.request.kind = k.name
  /-- No request is counted twice. -/
  total : (m.requests.map (·.2)).sum =
    requests.countP fun r => Asks .credential r.method r ∨ Asks .exporter r.method r

theorem count_labels (requests : List Request) (k : Kind) (method : String) :
    (requests.filterMap labels?).count ⟨k.name, method⟩ =
      requests.countP (Asks k method ·) := by
  rw [List.count_filterMap]
  exact List.countP_congr fun r _ => by
    rw [beq_iff_eq, decide_eq_true_eq, labels?_eq_some_kind_iff]

theorem count_errorLabels (log : List (Request × Response)) (k : Kind) (method : String)
    (status : Nat) :
    (log.filterMap errorLabels?).count ⟨⟨k.name, method⟩, status⟩ =
      if 400 ≤ status ∧ status < 600 then
        log.countP fun p => Asks k method p.1 ∧ p.2.status = status
      else 0 := by
  rw [List.count_filterMap]
  split
  · next herror =>
    exact List.countP_congr fun p _ => by
      rw [beq_iff_eq, decide_eq_true_eq, errorLabels?_eq_some_iff, and_iff_right herror]
  · next herror =>
    refine List.countP_eq_zero.mpr fun p _ => ?_
    rw [beq_iff_eq, errorLabels?_eq_some_iff]
    exact fun h => herror h.1

theorem length_labels (requests : List Request) :
    (requests.filterMap labels?).length =
      requests.countP fun r => Asks .credential r.method r ∨ Asks .exporter r.method r := by
  rw [List.length_filterMap_eq_countP]
  refine List.countP_congr fun r _ => ?_
  rw [Option.isSome_iff_exists, decide_eq_true_eq]
  constructor
  · rintro ⟨label, hlabel⟩
    obtain ⟨k, ⟨hmethod, hnames⟩, -⟩ := labels?_eq_some_iff.mp hlabel
    cases k with
    | credential => exact .inl ⟨rfl, hnames⟩
    | exporter => exact .inr ⟨rfl, hnames⟩
  · rintro (h | h)
    · exact ⟨_, labels?_eq_some_kind_iff.mpr h⟩
    · exact ⟨_, labels?_eq_some_kind_iff.mpr h⟩

theorem kind_of_mem_labels {requests : List Request} {label : RequestLabels}
    (h : label ∈ requests.filterMap labels?) : ∃ k : Kind, label.kind = k.name := by
  obtain ⟨r, -, hr⟩ := List.mem_filterMap.mp h
  obtain ⟨k, -, hk⟩ := labels?_eq_some_iff.mp hr
  exact ⟨k, hk.symm⟩

theorem kind_of_mem_errorLabels {log : List (Request × Response)} {label : ErrorLabels}
    (h : label ∈ log.filterMap errorLabels?) : ∃ k : Kind, label.request.kind = k.name := by
  obtain ⟨p, -, hp⟩ := List.mem_filterMap.mp h
  unfold errorLabels? at hp
  split at hp
  · obtain ⟨label, hlabel, rfl⟩ := Option.map_eq_some_iff.mp hp
    obtain ⟨k, -, hk⟩ := labels?_eq_some_iff.mp hlabel
    exact ⟨k, hk.symm⟩
  · cases hp

theorem exact_after {requests : List Request} {responses : List Response}
    (hlength : responses.length = requests.length) :
    (Metrics.empty.after (requests.zip responses)).Exact requests responses := by
  have hlabels : (requests.zip responses).filterMap (labels? ·.1) = requests.filterMap labels? := by
    rw [← Function.comp_def, ← List.filterMap_map, List.map_fst_zip hlength.ge]
  obtain ⟨hget, hmem, hsum⟩ := Tally.bumpAll_nil (requests.filterMap labels?)
  obtain ⟨hget', hmem', -⟩ :=
    Tally.bumpAll_nil ((requests.zip responses).filterMap errorLabels?)
  unfold Metrics.after
  rw [hlabels]
  refine ⟨fun k method => ?_, fun k method status => ?_, fun label n h => ?_,
    fun label n h => ?_, ?_⟩
  · exact (hget _).trans (count_labels requests k method)
  · exact (hget' _).trans (count_errorLabels _ k method status)
  · obtain ⟨hn, heq, hlabel⟩ := (hmem label n).mp h
    exact ⟨hn, heq, kind_of_mem_labels hlabel⟩
  · obtain ⟨hn, heq, hlabel⟩ := (hmem' label n).mp h
    exact ⟨hn, heq, kind_of_mem_errorLabels hlabel⟩
  · exact hsum.trans (length_labels requests)

/-- Things of one class with different values are no more than the things of the class. -/
theorem sum_countP_le {α : Type} (p : α → Prop) [DecidablePred p] (f : α → Nat)
    (values : Finset Nat) (as : List α) :
    ∑ v ∈ values, as.countP (fun a => p a ∧ f a = v) ≤ as.countP p := by
  induction as with
  | nil => simp
  | cons a as ih =>
    have hone : ∑ v ∈ values, (if p a ∧ f a = v then 1 else 0) ≤ if p a then 1 else 0 := by
      by_cases ha : p a
      · simp only [ha, true_and, Finset.sum_ite_eq, if_true]
        split <;> omega
      · simp [ha]
    simp only [List.countP_cons, decide_eq_true_eq, Finset.sum_add_distrib]
    exact Nat.add_le_add ih hone

theorem Metrics.Exact.sum_errors_le {m : Metrics} {requests : List Request}
    {responses : List Response} (h : m.Exact requests responses)
    (hlength : responses.length = requests.length) (k : Kind) (method : String)
    (statuses : Finset Nat) :
    ∑ status ∈ statuses, m.errors.get ⟨⟨k.name, method⟩, status⟩ ≤
      m.requests.get ⟨k.name, method⟩ := by
  have hfst : (requests.zip responses).countP (fun p => Asks k method p.1) =
      requests.countP (Asks k method ·) := by
    conv_rhs => rw [← List.map_fst_zip hlength.ge, List.countP_map]
    rfl
  calc ∑ status ∈ statuses, m.errors.get ⟨⟨k.name, method⟩, status⟩
      ≤ ∑ status ∈ statuses, (requests.zip responses).countP
          (fun p => Asks k method p.1 ∧ p.2.status = status) := by
        refine Finset.sum_le_sum fun status _ => ?_
        rw [h.errors_get]
        split
        · exact le_rfl
        · exact Nat.zero_le _
    _ ≤ (requests.zip responses).countP (fun p => Asks k method p.1) :=
        sum_countP_le (fun p : Request × Response => Asks k method p.1) (fun p => p.2.status)
          statuses (requests.zip responses)
    _ = m.requests.get ⟨k.name, method⟩ := hfst.trans (h.requests_get k method).symm

/-- From the start on, the counts of an application are exact for the requests that it has
answered, so that there are never more errors than requests; requests for anything but resources
leave them alone. -/
theorem counted_exactly (requests : List Request) (s : σ) :
    let run := (App.handleAll store limits .empty requests s).1
    run.1.length = requests.length ∧ run.2.Exact requests run.1 ∧
      (∀ k method (statuses : Finset Nat),
        ∑ status ∈ statuses, run.2.errors.get ⟨⟨Kind.name k, method⟩, status⟩ ≤
          run.2.requests.get ⟨Kind.name k, method⟩) ∧
      ∀ r metrics s, (∀ k, ¬ Asks k r.method r) →
        (App.handle store limits metrics r s).1.2 = metrics := by
  intro run
  obtain ⟨hlength, hcounts⟩ : run.1.length = requests.length ∧
      run.2 = Metrics.empty.after (requests.zip run.1) :=
    handleAll_counts store limits requests .empty s
  have hexact : run.2.Exact requests run.1 := by
    have hafter := exact_after hlength
    rwa [← hcounts] at hafter
  refine ⟨hlength, hexact, hexact.sum_errors_le hlength, fun r metrics s hnone => ?_⟩
  have hlabels : labels? r = none := Option.eq_none_iff_forall_ne_some.mpr fun label hlabel => by
    obtain ⟨k, ⟨-, hnames⟩, -⟩ := labels?_eq_some_iff.mp hlabel
    exact hnone k ⟨rfl, hnames⟩
  rw [handle_counts, Metrics.after_of_labels?_eq_none hlabels]

end Run

end TenantRegistry.Web
