import Mathlib
import TenantRegistry.Proofs.Service.Operation
import TenantRegistry.Proofs.Store.Answers
import TenantRegistry.Proofs.Time.TextOrder

/-!
What every row has that operations have stored, one operation after the other.

Any store call may fail instead of acting, `faulty`. `Sound` is what is kept of each row. An update
is checked against a type that was listed before, so it is kept together with `Seen`: what a
request has listed is still there. Main statement: `stored_rows_sound`.
-/

namespace TenantRegistry.Memory

variable {k : Kind}

/-- The memory store where a call fails without acting if `fails` has an error for its number. -/
def faulty (fails : Nat → Option StoreError) : Store (StateM (State × Nat)) := fun k c (s, n) =>
  match fails n with
  | some e => (.error e, (s, n + 1))
  | none => ((store k c s).1, ((store k c s).2, n + 1))

theorem faulty_of_error {fails : Nat → Option StoreError} {s : State × Nat} {e : StoreError}
    (h : fails s.2 = some e) (c : Call k) : faulty fails k c s = (.error e, (s.1, s.2 + 1)) := by
  simp only [faulty, h]

theorem faulty_of_none {fails : Nat → Option StoreError} {s : State × Nat}
    (h : fails s.2 = none) (c : Call k) :
    faulty fails k c s = ((answer (s.1.table k) c).1,
      (s.1.withTable (answer (s.1.table k) c).2, s.2 + 1)) := by
  simp only [faulty, h, store_apply]

/-- A clock that never went backwards. -/
def Forward (clocks : List Timestamp) : Prop :=
  clocks.Pairwise fun s t => s.order t ≠ .gt

/-- What a stored row has, given the readings of the clock so far. -/
structure Sound (clocks : List Timestamp) (key : Key) (row : Stored k) : Prop where
  name_ne_empty : key.name ≠ ""
  fits : row.payload.Fits row.type
  times : ∃ created ∈ clocks, ∃ updated ∈ clocks,
    row.createdAt = (Timestamp.ofClock created).text ∧
    row.updatedAt = (Timestamp.ofClock updated).text ∧
    (Forward clocks → created.seconds ≤ updated.seconds)

def AllSound (clocks : List Timestamp) (s : State) : Prop :=
  ∀ (k : Kind) (key : Key) (row : Stored k), (s.table k).find? key = some row →
    Sound clocks key row

/-- Every type that a log has listed is still stored. -/
def Seen (log : List (Exchange k)) (t : Table k) : Prop :=
  ∀ tenant rows, ⟨.list tenant, .ok rows⟩ ∈ log → ∀ name type,
    Service.typeIn rows name = some type →
      ∃ row, t.find? ⟨tenant, name⟩ = some row ∧ row.type = type

/-! ## One call -/

theorem seconds_le_of_order {s t : Timestamp} (h : s.order t ≠ .gt) : s.seconds ≤ t.seconds := by
  rcases Timestamp.order_ne_gt_iff.mp h with hlt | ⟨heq, _⟩
  · exact le_of_lt hlt
  · exact le_of_eq heq

theorem Forward.le_last {before : List Timestamp} {last t : Timestamp}
    (h : Forward (before ++ [last])) (ht : t ∈ before ++ [last]) : t.seconds ≤ last.seconds := by
  rcases List.mem_append.mp ht with ht | ht
  · have hcross := (List.pairwise_append.mp h).2.2
    exact seconds_le_of_order (hcross t ht last (List.mem_singleton_self _))
  · exact le_of_eq (by rw [List.mem_singleton.mp ht])

theorem Sound.later {clocks more : List Timestamp} {key : Key} {row : Stored k}
    (h : Sound clocks key row) : Sound (clocks ++ more) key row := by
  obtain ⟨created, hcreated, updated, hupdated, hctext, hutext, hle⟩ := h.times
  refine ⟨h.name_ne_empty, h.fits, created, List.mem_append_left _ hcreated, updated,
    List.mem_append_left _ hupdated, hctext, hutext, fun hforward => hle ?_⟩
  exact (List.pairwise_append.mp hforward).1

/-- A justified call leaves sound rows. -/
theorem Sound.step {before : List Timestamp} {clock? : Option Timestamp}
    {log : List (Exchange k)} {t : Table k} {c : Call k} {key : Key} {row : Stored k}
    (hrows : ∀ row, t.find? key = some row → Sound (before ++ clock?.toList) key row)
    (hseen : Seen log t) (hc : Justified clock? log c)
    (hrow : (answer t c).2.find? key = some row) : Sound (before ++ clock?.toList) key row := by
  have hstep := rowStep_answer t c key
  rw [hrow] at hstep
  generalize hold : t.find? key = old at hstep
  cases hstep with
  | kept => exact hrows row hold
  | @inserted tenant rows i hcall hi hkey =>
    subst hcall hkey
    obtain ⟨clock, rfl, hall⟩ := hc
    obtain ⟨hname, hfits, hcreated, hupdated⟩ := hall i hi
    have hmem : clock ∈ before ++ [clock] := List.mem_append_right _ (List.mem_singleton_self _)
    exact ⟨hname, hfits, clock, hmem, clock, hmem, by rw [← hcreated]; rfl,
      by rw [← hupdated]; rfl, fun _ => le_refl _⟩
  | @updated tenant u old hcall hkey =>
    subst hcall hkey
    obtain ⟨clock, rfl, hupdated, listed, type, hlisted, htype, hfits⟩ := hc
    obtain ⟨row', hrow', hsame⟩ := hseen tenant listed hlisted u.name type htype
    have hsound := hrows old hold
    -- The type that was checked against is the stored one: what was listed is still there.
    have heq : old = row' := Option.some.inj (hold.symm.trans hrow')
    rw [← heq] at hsame
    have htype' : type ≠ "" := hsame ▸ hsound.fits.type_ne_empty
    obtain ⟨created, hcreated, _, _, hctext, _, _⟩ := hsound.times
    have hmem : clock ∈ before ++ [clock] := List.mem_append_right _ (List.mem_singleton_self _)
    refine ⟨hsound.name_ne_empty, ?_, created, hcreated, clock, hmem, hctext,
      by rw [← hupdated]; rfl, fun hforward => hforward.le_last hcreated⟩
    have hnew : u.payload.Fits old.type := hsame ▸ hfits htype'
    exact hnew

theorem Seen.append_of_error {log : List (Exchange k)} {t : Table k} (h : Seen log t) (c : Call k)
    (e : StoreError) : Seen (log ++ [⟨c, .error e⟩]) t := by
  intro tenant rows hmem
  rcases List.mem_append.mp hmem with hmem | hmem
  · exact h tenant rows hmem
  · cases List.mem_singleton.mp hmem

/-- What a request has listed stays listed through its own calls. -/
theorem Seen.step {clock? : Option Timestamp} {log : List (Exchange k)} {t : Table k}
    (ht : t.Proper) (h : Seen log t) {c : Call k} (hc : Justified clock? log c) :
    Seen (log ++ [⟨c, (answer t c).1⟩]) (answer t c).2 := by
  intro tenant rows hmem name type htype
  rcases List.mem_append.mp hmem with hbefore | hlast
  · obtain ⟨row, hrow, hsame⟩ := h tenant rows hbefore name type htype
    have hstep := rowStep_answer t c ⟨tenant, name⟩
    rw [hrow] at hstep
    generalize (answer t c).2.find? ⟨tenant, name⟩ = new at hstep ⊢
    cases hstep with
    | kept => exact ⟨row, rfl, hsame⟩
    | updated => exact ⟨_, rfl, hsame⟩
    | deleted _ hcall =>
      -- An operation that deletes has listed nothing before.
      subst hcall
      have hempty : log = [] := hc
      subst hempty
      exact absurd hbefore List.not_mem_nil
  · have hcall := List.mem_singleton.mp hlast
    cases c with
    | list tenant' =>
      cases hcall
      rw [ht.typeIn_rowsOf] at htype
      exact Option.map_eq_some_iff.mp htype
    | _ => cases hcall

/-! ## Runs -/

/-- What holds of the store while an operation is at work that has made the calls of a log. -/
structure During (clocks : List Timestamp) (log : List (Exchange k)) (s : State) : Prop where
  reachable : Reachable s
  sound : AllSound clocks s
  seen : Seen log (s.table k)

theorem During.faulty {before : List Timestamp} {clock? : Option Timestamp}
    (fails : Nat → Option StoreError) {log : List (Exchange k)} {c : Call k} {s : State × Nat}
    (h : During (before ++ clock?.toList) log s.1) (hc : Justified clock? log c) :
    During (before ++ clock?.toList) (log ++ [⟨c, (faulty fails k c s).1⟩])
      (faulty fails k c s).2.1 := by
  cases hfails : fails s.2 with
  | some e =>
    rw [faulty_of_error hfails]
    exact ⟨h.reachable, h.sound, h.seen.append_of_error c e⟩
  | none =>
    rw [faulty_of_none hfails]
    refine ⟨h.reachable.call c, fun k' key row hrow => ?_, ?_⟩
    · by_cases hk : k' = k
      · subst hk
        rw [State.table_withTable] at hrow
        exact Sound.step (h.sound k' key) h.seen hc hrow
      · rw [State.table_withTable_of_ne _ _ hk] at hrow
        exact h.sound k' key row hrow
    · rw [State.table_withTable]
      exact h.seen.step (h.reachable.proper k) hc

theorem runAll_sound (fails : Nat → Option StoreError) (ops : List Operation)
    {before : List Timestamp} {s : State × Nat} (hs : Reachable s.1)
    (hsound : AllSound before s.1) :
    Reachable (Operation.runAll (faulty fails) ops s).2.1 ∧
      AllSound (before ++ ops.filterMap (·.action.clock?))
        (Operation.runAll (faulty fails) ops s).2.1 := by
  induction ops generalizing before s with
  | nil => exact ⟨hs, by rw [List.filterMap_nil, List.append_nil]; exact hsound⟩
  | cons op rest ih =>
    have hstart : During (before ++ op.action.clock?.toList) ([] : List (Exchange op.kind)) s.1 :=
      ⟨hs, fun k key row hrow => (hsound k key row hrow).later,
        fun _ _ hmem => absurd hmem List.not_mem_nil⟩
    have hcall : ∀ (log : List (Exchange op.kind)) (c : Call op.kind) (s : State × Nat),
        Justified op.action.clock? log c → During (before ++ op.action.clock?.toList) log s.1 →
        During (before ++ op.action.clock?.toList) (log ++ [⟨c, (faulty fails op.kind c s).1⟩])
          (faulty fails op.kind c s).2.1 := fun _ _ _ hc h => h.faulty fails hc
    obtain ⟨_, hend⟩ := op.respects_justified.run hcall hstart
    -- What the operation has listed is of no use to the next one, which starts with an empty log.
    obtain ⟨hreachable, hall⟩ := ih hend.reachable hend.sound
    refine ⟨hreachable, ?_⟩
    have hclocks : before ++ (op :: rest).filterMap (·.action.clock?) =
        before ++ op.action.clock?.toList ++ rest.filterMap (·.action.clock?) := by
      cases hclock : op.action.clock? <;> simp [hclock]
    rw [hclocks]
    exact hall

/-- Whatever operations ran, and whichever of their calls failed, every stored row has the name of
its key, a payload that fits its type, and two instants as its times, in their order if the clock
was. -/
theorem stored_rows_sound (fails : Nat → Option StoreError) (ops : List Operation) {key : Key}
    {row : Stored k}
    (h : (key, row) ∈ (Operation.runAll (faulty fails) ops (.empty, 0)).2.1.table k) :
    row.name = key.name ∧ row.name ≠ "" ∧ row.payload.Fits row.type ∧
    ∃ created updated : Timestamp, created.nanos = 0 ∧ updated.nanos = 0 ∧
      row.createdAt = created.text ∧ row.updatedAt = updated.text ∧
      (Forward (ops.filterMap (·.action.clock?)) → created.seconds ≤ updated.seconds ∧
        ((∀ t ∈ ops.filterMap (·.action.clock?), 0 ≤ t.date.year ∧ t.date.year ≤ 9999) →
          row.createdAt ≤ row.updatedAt)) := by
  have hempty : AllSound [] State.empty := by
    intro k key row hrow
    cases k <;> cases hrow
  obtain ⟨hreachable, hall⟩ :=
    runAll_sound fails ops (show Reachable (State.empty, 0).1 from .empty) hempty
  have hproper := hreachable.proper k
  have hname := hproper.named _ h
  have hsound := hall k key row (hproper.find?_of_mem h)
  obtain ⟨created, hcreated, updated, hupdated, hctext, hutext, hle⟩ := hsound.times
  refine ⟨hname, hname ▸ hsound.name_ne_empty, hsound.fits, .ofClock created, .ofClock updated,
    rfl, rfl, hctext, hutext, fun hforward => ⟨hle hforward, fun hyears => ?_⟩⟩
  rw [hctext, hutext]
  exact Timestamp.text_le_text rfl rfl (hyears created hcreated) (hyears updated hupdated)
    (hle hforward)

/-- A service account that is written three times. -/
def threeWrites : List Operation :=
  let body := "name: c\ntype: gcp-service-account\nvalue: '\x7b\x7d'"
  [⟨.credential, "t", .write body ⟨1000, 5⟩ 8⟩, ⟨.credential, "t", .write body ⟨2000, 0⟩ 8⟩,
    ⟨.credential, "t", .write body ⟨3000, 7⟩ 8⟩]

/-- The listing of the second write fails. -/
def secondListing (n : Nat) : Option StoreError :=
  if n = 2 then some (.backend "down") else none

def thrice : Stored .credential :=
  ⟨"c", "gcp-service-account", .credential "\x7b\x7d", "1970-01-01T00:16:40Z",
    "1970-01-01T00:50:00Z"⟩

set_option maxRecDepth 100000 in
theorem stored_rows_sound_three_writes :
    (⟨"t", "c"⟩, thrice) ∈
        (Operation.runAll (faulty secondListing) threeWrites (.empty, 0)).2.1.table .credential ∧
      thrice.payload.Fits thrice.type ∧ thrice.createdAt ≤ thrice.updatedAt := by
  have hrow : (⟨"t", "c"⟩, thrice) ∈
      (Operation.runAll (faulty secondListing) threeWrites (.empty, 0)).2.1.table .credential := by
    have hrun : (Operation.runAll (faulty secondListing) threeWrites (.empty, 0)).2.1.table
        .credential = [(⟨"t", "c"⟩, thrice)] := by cbv
    rw [hrun]
    exact List.mem_singleton_self _
  obtain ⟨_, _, hfits, _, _, _, _, _, _, htimes⟩ := stored_rows_sound secondListing threeWrites hrow
  have hforward : Forward (threeWrites.filterMap (·.action.clock?)) := by
    unfold Forward
    decide
  refine ⟨hrow, hfits, (htimes hforward).2 ?_⟩
  decide

end TenantRegistry.Memory
