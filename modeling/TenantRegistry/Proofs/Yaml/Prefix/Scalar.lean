import TenantRegistry.Proofs.Yaml.Prefix.Cursor
import TenantRegistry.Yaml.Token.Block
import TenantRegistry.Yaml.Token.Plain
import TenantRegistry.Yaml.Token.Quoted

/-!
Scalars of a text, read in a longer one.

A scalar that is read to its end in the short text is the same in the text that goes on with a line
`---`: a plain scalar ends at that line as it does at the end, a quoted one has its closing quote,
and the lines of a block scalar are indented.
-/

namespace TenantRegistry.Yaml

open Cursor

variable {s : List Char}

/-! ## Plain scalars -/

namespace Plain

theorem run_before {flow : Bool} {budget budget' : List Char} {c d : Cursor} {text : List Char}
    (h : c.Inside) (hb : c.rest.length ≤ budget.length) (hb' : c.rest.length ≤ budget'.length)
    (hrun : run flow budget c = some (text, d)) :
    run flow budget' (c.before s) = some (text, d.before s) ∧ c.Along d := by
  induction budget generalizing budget' c text with
  | nil => exact absurd (List.length_eq_zero_iff.mp (Nat.le_zero.mp hb)) h.ne_nil
  | cons b budget ih =>
    obtain ⟨b', budget', rfl⟩ := List.exists_cons_of_length_pos
      (Nat.lt_of_lt_of_le (List.length_pos_iff.mpr h.ne_nil) hb')
    obtain ⟨x, r, m, rfl, htail⟩ := h.cases
    rw [run] at hrun
    rw [before_cons, run]
    dsimp only at hrun ⊢
    refine same_branch hrun (fun _ hrun => ?_) fun hgap hrun => ?_
    · cases hrun
      exact ⟨rfl, .refl h⟩
    have hx : x ≠ '\n' := by rintro rfl; exact hgap rfl
    have hr := htail hx
    rw [atGap_append hr.ne_nil, head?_append hr.ne_nil]
    refine same_branch hrun (fun _ hrun => ?_) fun _ hrun => ?_
    · cases hrun
    refine same_branch hrun (fun _ hrun => ?_) fun _ hrun => ?_
    · cases hrun
      exact ⟨rfl, .refl h⟩
    simp only [Option.bind_eq_bind, Option.bind_eq_some_iff] at hrun
    obtain ⟨⟨text', e⟩, hnext, heq⟩ := hrun
    cases heq
    have halong := along_skip h rfl hx
    obtain ⟨hlong, hd⟩ := ih halong.inside (Nat.le_of_succ_le_succ hb)
      (Nat.le_of_succ_le_succ hb') hnext
    rw [← before_cons, skip_before (c := ⟨x :: r, m⟩) rfl, hlong]
    exact ⟨rfl, halong.trans hd⟩

/-- At the end of the short text nothing more is read, in either text. -/
theorem runs_of_atEnd {flow : Bool} {indent : Int} {gap : Gap} {stop : Mark} {c : Cursor}
    (h : c.AtEnd) (budget : List Char) :
    runs flow indent budget gap stop c = some (⟨[], stop, gap⟩, c) ∧
    runs flow indent budget gap stop (c.before s) = some (⟨[], stop, gap⟩, c.before s) := by
  cases budget with
  | nil => exact ⟨rfl, rfl⟩
  | cons b budget =>
    constructor
    · obtain ⟨rest, m⟩ := c
      obtain ⟨rfl, -⟩ := h
      simp [runs, run, atDocumentMark, atChar, atBlank, atBreak]
    · rw [runs]
      simp only [atDocumentMark_of_atEnd h, Bool.true_or, if_true]
      rfl

theorem runs_before {flow : Bool} {indent : Int} {budget budget' : List Char} {gap : Gap}
    {stop : Mark} {c d : Cursor} {e : Extent} (h : c.Inside ∨ c.AtEnd)
    (hb : c.rest.length ≤ budget.length) (hb' : c.rest.length ≤ budget'.length)
    (hruns : runs flow indent budget gap stop c = some (e, d)) :
    runs flow indent budget' gap stop (c.before s) = some (e, d.before s) ∧ c.Leads d := by
  induction budget generalizing budget' gap stop c e with
  | nil =>
    have hend := h.resolve_left fun h => h.ne_nil (List.length_eq_zero_iff.mp (Nat.le_zero.mp hb))
    cases hruns
    exact ⟨(runs_of_atEnd hend budget').2, .refl h⟩
  | cons b budget ih =>
    rcases h with h | h
    · obtain ⟨b', budget', rfl⟩ := List.exists_cons_of_length_pos
        (Nat.lt_of_lt_of_le (List.length_pos_iff.mpr h.ne_nil) hb')
      rw [runs] at hruns ⊢
      rw [atDocumentMark_before (by decide) h, atDocumentMark_before (by decide) h, before_rest,
        atChar_append h.ne_nil]
      refine same_branch hruns (fun _ hruns => ?_) fun _ hruns => ?_
      · cases hruns
        exact ⟨rfl, .refl (.inl h)⟩
      obtain ⟨⟨text, after⟩, hrun, hruns⟩ := Option.bind_eq_some_iff.mp hruns
      obtain ⟨hlong, halong⟩ := run_before h (Nat.le_refl _) (length_le_before c s) hrun
      dsimp only at hruns
      suffices hrest : _ = some (e, d.before s) ∧ after.Leads d from
        ⟨Option.bind_eq_some_iff.mpr ⟨_, hlong, hrest.1⟩, halong.leads.trans hrest.2⟩
      simp only [before_mark, before_rest, atBlank_append halong.inside.ne_nil,
        atBreak_append halong.inside.ne_nil]
      generalize (if text.isEmpty = true then (⟨[], stop, gap⟩ : Extent)
        else ⟨gap.text ++ text, after.mark, Gap.empty false⟩) = here at hruns ⊢
      refine same_branch hruns (fun hgap hruns => ?_) fun _ hruns => ?_
      · obtain ⟨⟨gap', after'⟩, hread, hruns⟩ := Option.bind_eq_some_iff.mp hruns
        obtain ⟨hlong', hleads, hlength⟩ := Gap.read_before (.inl halong.inside) (Nat.le_refl _)
          (length_le_before after s) hread
        have hshort : after'.rest.length < c.rest.length :=
          Nat.lt_of_lt_of_le (hlength hgap) halong.length
        suffices hrest : _ = some (e, d.before s) ∧ after'.Leads d from
          ⟨Option.bind_eq_some_iff.mpr ⟨_, hlong', hrest.1⟩, hleads.trans hrest.2⟩
        dsimp only at hruns ⊢
        rw [before_mark]
        refine same_branch hruns (fun _ hruns => ?_) fun _ hruns => ?_
        · cases hruns
          exact ⟨rfl, .refl hleads.whole⟩
        obtain ⟨⟨later, after''⟩, hlater, heq⟩ := Option.bind_eq_some_iff.mp hruns
        cases heq
        obtain ⟨hlong'', hleads'⟩ := ih hleads.whole
          (Nat.le_of_lt_succ (Nat.lt_of_lt_of_le hshort hb))
          (Nat.le_of_lt_succ (Nat.lt_of_lt_of_le hshort hb')) hlater
        exact ⟨Option.bind_eq_some_iff.mpr ⟨_, hlong'', rfl⟩, hleads'⟩
      cases hruns
      exact ⟨rfl, .refl (.inl halong.inside)⟩
    · rw [(runs_of_atEnd (s := s) h (b :: budget)).1] at hruns
      cases hruns
      exact ⟨(runs_of_atEnd h budget').2, .refl (.inr h)⟩

theorem scan_before {flow : Bool} {indent : Int} {c d : Cursor} {t : Token} {broken : Bool}
    (h : c.Inside) (hscan : scan flow indent c = some (t, broken, d)) :
    scan flow indent (c.before s) = some (t, broken, d.before s) ∧ c.Leads d := by
  obtain ⟨⟨e, after⟩, hruns, heq⟩ := Option.bind_eq_some_iff.mp hscan
  cases heq
  obtain ⟨hlong, hleads⟩ := runs_before (.inl h) (Nat.le_refl _) (length_le_before c s) hruns
  exact ⟨Option.bind_eq_some_iff.mpr ⟨_, hlong, rfl⟩, hleads⟩

end Plain

/-! ## Quoted scalars -/

namespace QuotedScalar

theorem hexNumber?_append {n soFar v : Nat} {cs : List Char} (h : hexNumber? n soFar cs = some v)
    (tail : List Char) :
    hexNumber? n soFar (cs ++ tail) = some v ∧ n ≤ cs.length ∧ '\n' ∉ cs.take n := by
  induction n generalizing soFar cs with
  | zero => exact ⟨by cases cs <;> exact h, Nat.zero_le _, by simp⟩
  | succ n ih =>
    cases cs with
    | nil => cases h
    | cons x cs =>
      obtain ⟨digit, hdigit, hrest⟩ := Option.bind_eq_some_iff.mp h
      obtain ⟨hlong, hlength, hline⟩ := ih hrest
      have hx : x ≠ '\n' := by rintro rfl; cases hdigit
      refine ⟨Option.bind_eq_some_iff.mpr ⟨digit, hdigit, hlong⟩, Nat.succ_le_succ hlength, ?_⟩
      rw [List.take_succ_cons, List.mem_cons]
      exact fun hmem => hmem.elim (fun heq => hx heq.symm) hline

/-- An escape in a line ends on it. -/
theorem escape?_before {c d : Cursor} {x y v : Char} {r : List Char} (h : c.Inside)
    (hrest : c.rest = x :: y :: r) (hx : x ≠ '\n') (hy : y ≠ '\n')
    (hescape : escape? c = some (v, d)) :
    escape? (c.before s) = some (v, d.before s) ∧ c.Along d ∧ d.rest.length < c.rest.length := by
  have hbefore : (c.before s).rest = x :: y :: (r ++ separated s) := by rw [before_rest, hrest]; rfl
  -- Either form of escape is a number of characters, none of them a line feed.
  have hskip : ∀ {n : Nat}, n ≤ r.length → '\n' ∉ r.take n →
      (c.before s).skipMany (2 + n) = (c.skipMany (2 + n)).before s ∧ c.Along (c.skipMany (2 + n)) ∧
        (c.skipMany (2 + n)).rest.length < c.rest.length := by
    intro n hn hline
    refine ⟨skipMany_before ?_, along_skipMany h ?_, ?_⟩
    · rw [hrest, List.length_cons, List.length_cons]; omega
    · rw [hrest, Nat.add_comm, List.take_succ_cons, List.take_succ_cons]
      simpa [hx.symm, hy.symm] using hline
    · rw [skipMany_rest, List.length_drop, hrest, List.length_cons]; omega
  unfold escape? at hescape ⊢
  rw [hrest] at hescape
  rw [hbefore]
  dsimp only at hescape ⊢
  cases hsimple : simpleEscape? y with
  | some v' =>
    rw [hsimple] at hescape
    cases hescape
    obtain ⟨hlong, hd⟩ := hskip (Nat.zero_le _) (by simp)
    exact ⟨congrArg _ (congrArg _ hlong), hd⟩
  | none =>
    rw [hsimple] at hescape
    obtain ⟨digits, hdigits, hescape⟩ := Option.bind_eq_some_iff.mp hescape
    obtain ⟨n, hn, hescape⟩ := Option.bind_eq_some_iff.mp hescape
    obtain ⟨hlong, hlength, hline⟩ := hexNumber?_append hn (separated s)
    split at hescape
    · next hvalid =>
      cases hescape
      obtain ⟨hskipped, hd⟩ := hskip hlength hline
      refine ⟨Option.bind_eq_some_iff.mpr ⟨digits, hdigits,
        Option.bind_eq_some_iff.mpr ⟨n, hlong, ?_⟩⟩, hd⟩
      rw [if_pos hvalid, hskipped]
    · cases hescape

theorem run_before {single : Bool} {budget budget' : List Char} {c d : Cursor} {text : List Char}
    {escaped : Bool} (h : c.Inside) (hb : c.rest.length ≤ budget.length)
    (hb' : c.rest.length ≤ budget'.length) (hrun : run single budget c = some (text, escaped, d)) :
    run single budget' (c.before s) = some (text, escaped, d.before s) ∧ c.Leads d := by
  induction budget generalizing budget' c text escaped with
  | nil => exact absurd (List.length_eq_zero_iff.mp (Nat.le_zero.mp hb)) h.ne_nil
  | cons b budget ih =>
    obtain ⟨b', budget', rfl⟩ := List.exists_cons_of_length_pos
      (Nat.lt_of_lt_of_le (List.length_pos_iff.mpr h.ne_nil) hb')
    obtain ⟨x, r, m, rfl, htail⟩ := h.cases
    -- What is read next is read from a place further on in the line.
    have hnext : ∀ {e : Cursor} {f : List Char → List Char}, Along ⟨x :: r, m⟩ e →
        e.rest.length ≤ r.length →
        (run single budget e >>= fun y => some (f y.1, y.2.1, y.2.2)) = some (text, escaped, d) →
          (run single budget' (e.before s) >>= fun y => some (f y.1, y.2.1, y.2.2)) =
            some (text, escaped, d.before s) ∧ Leads ⟨x :: r, m⟩ d := by
      intro e f he hlength hread
      obtain ⟨⟨text', escaped', d'⟩, hrest, heq⟩ := Option.bind_eq_some_iff.mp hread
      cases heq
      obtain ⟨hlong, hd⟩ := ih he.inside (hlength.trans (Nat.le_of_succ_le_succ hb))
        (hlength.trans (Nat.le_of_succ_le_succ hb')) hrest
      exact ⟨Option.bind_eq_some_iff.mpr ⟨_, hlong, rfl⟩, he.leads.trans hd⟩
    rw [run] at hrun
    rw [before_cons, run]
    dsimp only at hrun ⊢
    rw [← before_cons]
    refine same_branch hrun (fun _ hrun => ?_) fun hgap hrun => ?_
    · cases hrun
      exact ⟨rfl, .refl (.inl h)⟩
    have hx : x ≠ '\n' := by rintro rfl; exact hgap rfl
    have hr := htail hx
    have hskip := skip_before (s := s) (c := ⟨x :: r, m⟩) rfl
    have halong := along_skip h rfl hx
    refine same_branch hrun (fun _ hrun => ?_) fun _ hrun => ?_
    · -- In single quotes two of them stand for one, and one ends the run.
      rw [atChar_append hr.ne_nil]
      refine same_branch hrun (fun _ hrun => ?_) fun _ hrun => ?_
      · refine same_branch hrun (fun htwo hrun => ?_) fun _ hrun => ?_
        · obtain ⟨y, r, rfl⟩ := List.exists_cons_of_ne_nil hr.ne_nil
          have hy : '\'' = y := beq_iff_eq.mp htwo
          have htake : '\n' ∉ (x :: y :: r).take 2 := by simp [hx.symm, ← hy]
          rw [skipMany_before (c := ⟨x :: y :: r, m⟩) (by simp)]
          refine hnext (f := List.cons '\'') (along_skipMany h htake) ?_ hrun
          rw [skipMany_rest]
          simp
        cases hrun
        exact ⟨rfl, .refl (.inl h)⟩
      rw [hskip]
      exact hnext (f := List.cons x) halong (Nat.le_refl _) hrun
    -- In double quotes one ends the run, and a backslash starts an escape or escapes a break.
    refine same_branch hrun (fun _ hrun => ?_) fun _ hrun => ?_
    · cases hrun
      exact ⟨rfl, .refl (.inl h)⟩
    refine same_branch hrun (fun _ hrun => ?_) fun _ hrun => ?_
    · rw [atBreak_append hr.ne_nil]
      refine same_branch hrun (fun _ hrun => ?_) fun hbreak hrun => ?_
      · cases hrun
        rw [hskip, skipBreak, takeBreak_before halong.inside]
        exact ⟨rfl, halong.leads.trans (leads_takeBreak halong.inside)⟩
      obtain ⟨y, r, rfl⟩ := List.exists_cons_of_ne_nil hr.ne_nil
      have hy : y ≠ '\n' := by rintro rfl; exact hbreak rfl
      obtain ⟨⟨v, e⟩, hescaped, hrun⟩ := Option.bind_eq_some_iff.mp hrun
      obtain ⟨hlong, hd, hlength⟩ := escape?_before (s := s) h rfl hx hy hescaped
      obtain ⟨hrest, hleads⟩ := hnext (f := List.cons v) hd (Nat.le_of_lt_succ hlength) hrun
      exact ⟨Option.bind_eq_some_iff.mpr ⟨_, hlong, hrest⟩, hleads⟩
    rw [hskip]
    exact hnext (f := List.cons x) halong (Nat.le_refl _) hrun

/-- Reading up to the closing quote, which the short text has. -/
theorem runs_before {single : Bool} {quote : Char} {budget budget' : List Char} {c d : Cursor}
    {text : List Char} (hquote : quote ≠ '-') (hline : quote ≠ '\n') (h : c.Inside ∨ c.AtEnd)
    (hb : budget.length ≤ budget'.length) (hruns : runs single quote budget c = some (text, d)) :
    runs single quote budget' (c.before s) = some (text, d.before s) ∧ c.Leads d := by
  induction budget generalizing budget' c text with
  | nil => cases hruns
  | cons b budget ih =>
    obtain ⟨b', budget', rfl⟩ := List.exists_cons_of_length_pos (Nat.zero_lt_of_lt hb)
    rw [runs] at hruns ⊢
    split at hruns
    · cases hruns
    · next hgo =>
      have hinside : c.Inside := h.resolve_right fun hend => hgo (by simp [hend.1])
      have hempty : (c.rest ++ separated s).isEmpty = c.rest.isEmpty := by
        obtain ⟨x, r, m, rfl, -⟩ := hinside.cases
        rfl
      rw [atDocumentMark_before (by decide) hinside, atDocumentMark_before (by decide) hinside,
        before_rest, hempty, if_neg hgo]
      obtain ⟨⟨text', escaped, after⟩, hrun, hruns⟩ := Option.bind_eq_some_iff.mp hruns
      obtain ⟨hlong, hafter⟩ := run_before hinside (Nat.le_refl _) (length_le_before c s) hrun
      have hclose : atChar quote (after.rest ++ separated s) = atChar quote after.rest := by
        rcases hafter.whole with hin | hend
        · exact atChar_append hin.ne_nil quote _
        · rw [hend.1]
          exact beq_eq_false_iff_ne.mpr hquote
      suffices hrest : _ = some (text, d.before s) ∧ after.Leads d from
        ⟨Option.bind_eq_some_iff.mpr ⟨_, hlong, hrest.1⟩, hafter.trans hrest.2⟩
      dsimp only at hruns ⊢
      rw [before_rest, hclose]
      refine same_branch hruns (fun hend hruns => ?_) fun _ hruns => ?_
      · cases hruns
        have hin : after.Inside := hafter.whole.resolve_right fun hend' => by
          rw [hend'.1] at hend
          cases hend
        obtain ⟨hskip, halong⟩ := skip_atChar (s := s) hin hline hend
        exact ⟨by rw [hskip]; rfl, halong.leads⟩
      obtain ⟨⟨gap, after'⟩, hgap, hruns⟩ := Option.bind_eq_some_iff.mp hruns
      obtain ⟨⟨later, after''⟩, hlater, heq⟩ := Option.bind_eq_some_iff.mp hruns
      cases heq
      obtain ⟨hlong', hleads, -⟩ := Gap.read_before hafter.whole (Nat.le_refl _)
        (length_le_before after s) hgap
      obtain ⟨hlong'', hleads'⟩ := ih hleads.whole (Nat.le_of_succ_le_succ hb) hlater
      exact ⟨Option.bind_eq_some_iff.mpr ⟨_, hlong', Option.bind_eq_some_iff.mpr
        ⟨_, hlong'', rfl⟩⟩, hleads.trans hleads'⟩

theorem scan_before {single : Bool} {c d : Cursor} {t : Token} {x : Char} {r : List Char}
    (h : c.Inside) (hrest : c.rest = x :: r) (hx : x ≠ '\n') (hscan : scan single c = some (t, d)) :
    scan single (c.before s) = some (t, d.before s) ∧ c.Leads d := by
  have hquote : (if single then '\'' else '"') ≠ '-' ∧ (if single then '\'' else '"') ≠ '\n' := by
    cases single <;> decide
  have halong := along_skip h hrest hx
  obtain ⟨⟨text, after⟩, hruns, heq⟩ := Option.bind_eq_some_iff.mp hscan
  cases heq
  obtain ⟨hlong, hleads⟩ := runs_before (s := s) hquote.1 hquote.2 (.inl halong.inside)
    (length_le_before c s) hruns
  refine ⟨Option.bind_eq_some_iff.mpr ⟨(text, d.before s), ?_, rfl⟩, halong.leads.trans hleads⟩
  rw [skip_before hrest]
  exact hlong

end QuotedScalar

/-! ## Block scalars -/

namespace BlockScalar

theorem increment_before {c d : Cursor} {n : Option Nat} (h : c.Inside)
    (hinc : increment c = some (n, d)) :
    increment (c.before s) = some (n, d.before s) ∧ c.Along d ∧ ∀ k ∈ n, 0 < k := by
  obtain ⟨x, r, m, rfl, -⟩ := h.cases
  rw [before_cons]
  unfold increment at hinc ⊢
  dsimp only at hinc ⊢
  split at hinc
  · next hdigit =>
    split at hinc
    · cases hinc
    · next hzero =>
      cases hinc
      have hx : x ≠ '\n' := by rintro rfl; cases hdigit
      rw [if_pos hdigit, if_neg hzero, ← before_cons, skip_before rfl]
      refine ⟨rfl, along_skip h rfl hx, fun k hk => ?_⟩
      cases hk
      have hlow : '0'.toNat ≤ x.toNat := by
        simp only [Char.isDigit, Bool.and_eq_true, decide_eq_true_eq] at hdigit
        exact hdigit.1
      have hne : x.toNat ≠ '0'.toNat := fun heq => hzero (Char.toNat_inj.mp heq)
      omega
  · next hdigit =>
    cases hinc
    rw [if_neg hdigit]
    exact ⟨rfl, .refl h, fun k hk => by cases hk⟩

theorem chomping_before {c : Cursor} (h : c.Inside) :
    chomping (c.before s) = ((chomping c).1, (chomping c).2.before s) ∧
      c.Along (chomping c).2 := by
  unfold chomping
  rw [before_rest, head?_append h.ne_nil]
  cases hnext : c.rest.head? >>= chomping? with
  | none => exact ⟨rfl, .refl h⟩
  | some o =>
    obtain ⟨x, hhead, hx⟩ := Option.bind_eq_some_iff.mp hnext
    obtain ⟨r, hrest⟩ := List.head?_eq_some_iff.mp hhead
    have hne : x ≠ '\n' := by rintro rfl; cases hx
    rw [skip_before hrest]
    exact ⟨rfl, along_skip h hrest hne⟩

theorem header_before {c d : Cursor} {o : Chomping} {n : Option Nat} (h : c.Inside)
    (hheader : header c = some (o, n, d)) :
    header (c.before s) = some (o, n, d.before s) ∧ c.Along d ∧ ∀ k ∈ n, 0 < k := by
  obtain ⟨hlong, halong⟩ := chomping_before (s := s) h
  unfold header at hheader ⊢
  rw [hlong]
  generalize chomping c = first at hheader halong
  obtain ⟨o', e⟩ := first
  cases o' with
  | some o' =>
    dsimp only at hheader ⊢
    obtain ⟨⟨n', e'⟩, hinc, heq⟩ := Option.bind_eq_some_iff.mp hheader
    cases heq
    obtain ⟨hlong', halong', hpos⟩ := increment_before (s := s) halong.inside hinc
    exact ⟨Option.bind_eq_some_iff.mpr ⟨_, hlong', rfl⟩, halong.trans halong', hpos⟩
  | none =>
    dsimp only at hheader ⊢
    obtain ⟨⟨n', e'⟩, hinc, hrest⟩ := Option.bind_eq_some_iff.mp hheader
    obtain ⟨hlong', halong', hpos⟩ := increment_before (s := s) halong.inside hinc
    suffices hsuff : _ = some (o, n, d.before s) ∧ e'.Along d ∧ ∀ k ∈ n, 0 < k from
      ⟨Option.bind_eq_some_iff.mpr ⟨_, hlong', hsuff.1⟩, (halong.trans halong').trans hsuff.2.1,
        hsuff.2.2⟩
    dsimp only at hrest ⊢
    refine same_branch hrest (fun _ hrest => ?_) fun _ hrest => ?_
    · obtain ⟨hlong'', halong''⟩ := chomping_before (s := s) halong'.inside
      rw [hlong'']
      cases hrest
      exact ⟨rfl, halong'', hpos⟩
    cases hrest
    exact ⟨rfl, .refl halong'.inside, fun k hk => by cases hk⟩

theorem emptyLines_of_not {indent : Option Nat} {budget : List Char} {deepest : Nat} {c : Cursor}
    (hblank : atBlank c.rest = false) (hbreak : atBreak c.rest = false) :
    emptyLines indent budget deepest c = some ([], max deepest c.mark.column, c) := by
  cases budget with
  | nil => rfl
  | cons b budget =>
    obtain ⟨rest, m⟩ := c
    cases rest with
    | nil => rfl
    | cons x r =>
      have hbreak : isBreakChar x = false := hbreak
      obtain ⟨hspace, htab⟩ := Bool.or_eq_false_iff.mp (show isBlankChar x = false from hblank)
      simp only [emptyLines, hspace, htab, hbreak, Bool.and_false, Bool.false_eq_true, if_false]

/-- One character of empty lines. -/
theorem emptyLines_cons (indent : Option Nat) (b : Char) (budget : List Char) (deepest : Nat)
    (x : Char) (r : List Char) (m : Mark) :
    emptyLines indent (b :: budget) deepest ⟨x :: r, m⟩ =
      if indent.all (m.column < ·) && x == ' ' then
        emptyLines indent budget deepest (skip ⟨x :: r, m⟩)
      else if indent.all (m.column < ·) && x == '\t' then none
      else if isBreakChar x then
        (emptyLines indent budget (max deepest m.column) (takeBreak ⟨x :: r, m⟩).2).bind fun e =>
          some ((takeBreak ⟨x :: r, m⟩).1 ++ e.1, e.2)
      else some ([], max deepest m.column, ⟨x :: r, m⟩) := by
  cases indent <;> rfl

/-- Where the short text ends, empty lines end in both. -/
theorem emptyLines_of_nil (s : List Char) {indent : Option Nat} (budget : List Char) (deepest : Nat)
    {c : Cursor} (h : c.rest = []) :
    emptyLines indent budget deepest c = some ([], max deepest c.mark.column, c) ∧
      emptyLines indent budget deepest (c.before s) =
        some ([], max deepest c.mark.column, c.before s) := by
  refine ⟨emptyLines_of_not ?_ ?_, emptyLines_of_not ?_ ?_⟩
  · rw [h]; rfl
  · rw [h]; rfl
  · rw [before_rest, h]; rfl
  · rw [before_rest, h]; rfl

/-- Empty lines are the same in the long text, also where they end with the short one. -/
theorem emptyLines_before {indent : Option Nat} {budget budget' : List Char}
    {deepest deepest' : Nat} {c d : Cursor} {text : List Char} (h : c.Inside ∨ c.AtEnd)
    (hb : c.rest.length ≤ budget.length) (hb' : c.rest.length ≤ budget'.length)
    (hread : emptyLines indent budget deepest c = some (text, deepest', d)) :
    emptyLines indent budget' deepest (c.before s) = some (text, deepest', d.before s) ∧
      c.Leads d := by
  induction budget generalizing budget' deepest c text with
  | nil =>
    have hrest : c.rest = [] := List.length_eq_zero_iff.mp (Nat.le_zero.mp hb)
    cases hread
    exact ⟨(emptyLines_of_nil s budget' deepest hrest).2, .refl h⟩
  | cons b budget ih =>
    rcases h with h | h
    · obtain ⟨x, r, m, rfl, -⟩ := h.cases
      obtain ⟨b', budget', rfl⟩ := List.exists_cons_of_length_pos (Nat.zero_lt_of_lt hb')
      have hr := Nat.le_of_succ_le_succ hb
      have hr' := Nat.le_of_succ_le_succ hb'
      rw [emptyLines_cons] at hread
      rw [before_cons, emptyLines_cons, ← before_cons]
      refine same_branch hread (fun hspace hread => ?_) fun _ hread => ?_
      · have hx : x ≠ '\n' := by
          rintro rfl
          cases (Bool.and_eq_true_iff.mp hspace).2
        have hskip := along_skip h rfl hx
        obtain ⟨hlong, hd⟩ := ih (.inl hskip.inside) hr hr' hread
        rw [skip_before rfl]
        exact ⟨hlong, hskip.leads.trans hd⟩
      refine same_branch hread (fun _ hread => ?_) fun _ hread => ?_
      · cases hread
      refine same_branch hread (fun hbreak hread => ?_) fun _ hread => ?_
      · have hleads := leads_takeBreak h
        have hlength := Nat.le_of_lt_succ (takeBreak_length h hbreak)
        obtain ⟨⟨breaks, deepest'', e⟩, hrest, heq⟩ := Option.bind_eq_some_iff.mp hread
        cases heq
        obtain ⟨hlong, hd⟩ := ih hleads.whole (hlength.trans hr) (hlength.trans hr') hrest
        rw [takeBreak_before h]
        exact ⟨Option.bind_eq_some_iff.mpr ⟨_, hlong, rfl⟩, hleads.trans hd⟩
      cases hread
      exact ⟨rfl, .refl (.inl h)⟩
    · rw [(emptyLines_of_nil s _ deepest h.1).1] at hread
      cases hread
      exact ⟨(emptyLines_of_nil s budget' deepest h.1).2, .refl (.inr h)⟩

theorem lines_of_not {literal : Bool} {indent : Nat} {budget : List Char} {e : LineEnd} {c : Cursor}
    (h : c.mark.column = indent → c.rest = []) :
    lines literal indent budget e c = some ([], e, c) := by
  cases budget with
  | nil => rfl
  | cons b budget => rw [lines, if_neg fun hand => hand.2 (h hand.1)]

/-- The lines of a block scalar are indented, so the line `---` is none of them. -/
theorem lines_before {literal : Bool} {indent : Nat} {budget budget' : List Char} {e e' : LineEnd}
    {c d : Cursor} {text : List Char} (hindent : 0 < indent) (h : c.Inside ∨ c.AtEnd)
    (hb : c.rest.length ≤ budget.length) (hb' : c.rest.length ≤ budget'.length)
    (hread : lines literal indent budget e c = some (text, e', d)) :
    lines literal indent budget' e (c.before s) = some (text, e', d.before s) ∧ c.Leads d := by
  induction budget generalizing budget' e c text with
  | nil =>
    have hend := h.resolve_left fun h => h.ne_nil (List.length_eq_zero_iff.mp (Nat.le_zero.mp hb))
    cases hread
    exact ⟨lines_of_not fun hcolumn => absurd (hend.2.symm.trans hcolumn) hindent.ne, .refl h⟩
  | cons b budget ih =>
    rcases h with h | h
    · obtain ⟨b', budget', rfl⟩ := List.exists_cons_of_length_pos
        (Nat.lt_of_lt_of_le (List.length_pos_iff.mpr h.ne_nil) hb')
      have hne : (c.before s).rest ≠ [] := by simp [h.ne_nil]
      rw [lines] at hread ⊢
      rw [before_mark]
      by_cases hline : c.mark.column = indent
      · rw [if_pos ⟨hline, h.ne_nil⟩] at hread
        rw [if_pos ⟨hline, hne⟩]
        dsimp only at hread ⊢
        rw [takeWhile_before h (by decide), before_rest, atBlank_append h.ne_nil]
        have halong : c.Along (c.takeWhile (!isBreakChar ·)).2 := along_takeWhile h (by decide)
        have hbroken := atBreak_takeWhile h
        generalize c.takeWhile (!isBreakChar ·) = first at hread halong hbroken
        obtain ⟨line, after⟩ := first
        have hbreak := leads_takeBreak halong.inside
        have hshort : after.takeBreak.2.rest.length < c.rest.length :=
          (takeBreak_length halong.inside hbroken).trans_le halong.length
        dsimp only at hread ⊢
        rw [takeBreak_before halong.inside]
        generalize after.takeBreak = second at hread hbreak hshort
        obtain ⟨first, after'⟩ := second
        obtain ⟨⟨further, deepest, after₂⟩, hempty, hread⟩ := Option.bind_eq_some_iff.mp hread
        obtain ⟨⟨text', last, after₃⟩, hrest, heq⟩ := Option.bind_eq_some_iff.mp hread
        cases heq
        obtain ⟨hlong, hleads⟩ := emptyLines_before (s := s) hbreak.whole (Nat.le_refl _)
          (length_le_before after' s) hempty
        have hlength := Nat.lt_of_le_of_lt hleads.length hshort
        obtain ⟨hlong', hleads'⟩ := ih hleads.whole (Nat.le_of_lt_succ (hlength.trans_le hb))
          (Nat.le_of_lt_succ (hlength.trans_le hb')) hrest
        exact ⟨Option.bind_eq_some_iff.mpr ⟨_, hlong, Option.bind_eq_some_iff.mpr ⟨_, hlong', rfl⟩⟩,
          halong.leads.trans (hbreak.trans (hleads.trans hleads'))⟩
      · rw [if_neg fun hand => hline hand.1] at hread ⊢
        cases hread
        exact ⟨rfl, .refl (.inl h)⟩
    · rw [lines_of_not fun _ => h.1] at hread
      cases hread
      exact ⟨lines_of_not fun hcolumn => absurd (h.2.symm.trans hcolumn) hindent.ne,
        .refl (.inr h)⟩

theorem scan_before {literal : Bool} {parent : Int} {c d : Cursor} {t : Token} {x : Char}
    {r : List Char} (h : c.Inside) (hrest : c.rest = x :: r) (hx : x ≠ '\n')
    (hscan : scan literal parent c = some (t, d)) :
    scan literal parent (c.before s) = some (t, d.before s) ∧ c.Leads d := by
  have halong := along_skip h hrest hx
  unfold scan at hscan ⊢
  rw [skip_before hrest]
  obtain ⟨⟨chomp, digit, c₁⟩, hheader, hscan⟩ := Option.bind_eq_some_iff.mp hscan
  obtain ⟨hlong, halong', hpos⟩ := header_before (s := s) halong.inside hheader
  obtain ⟨c₂, hline, hscan⟩ := Option.bind_eq_some_iff.mp hscan
  obtain ⟨hlong', hleads⟩ := skipLineEnd?_before (s := s) halong'.inside hline
  obtain ⟨⟨further, deepest, c₃⟩, hempty, hscan⟩ := Option.bind_eq_some_iff.mp hscan
  obtain ⟨hlong₂, hleads₂⟩ := emptyLines_before (s := s) hleads.whole (Nat.le_refl _)
    (length_le_before c₂ s) hempty
  obtain ⟨⟨text, last, c₄⟩, hlines, heq⟩ := Option.bind_eq_some_iff.mp hscan
  cases heq
  have hindent : 0 < (digit.map fun n => (if 0 ≤ parent then parent + n else n).toNat).getD
      (max deepest (max (parent + 1) 1).toNat) := by
    -- Whether it is given or found, the indentation is not zero.
    cases digit with
    | none =>
      change 0 < max deepest (max (parent + 1) 1).toNat
      omega
    | some n =>
      have hn := hpos n rfl
      change 0 < (if 0 ≤ parent then parent + n else (n : Int)).toNat
      split <;> omega
  obtain ⟨hlong₃, hleads₃⟩ := lines_before (s := s) hindent hleads₂.whole (Nat.le_refl _)
    (length_le_before c₃ s) hlines
  exact ⟨Option.bind_eq_some_iff.mpr ⟨_, hlong, Option.bind_eq_some_iff.mpr ⟨_, hlong',
    Option.bind_eq_some_iff.mpr ⟨_, hlong₂, Option.bind_eq_some_iff.mpr ⟨_, hlong₃, rfl⟩⟩⟩⟩,
    (halong.trans halong').leads.trans (hleads.trans (hleads₂.trans hleads₃))⟩

end BlockScalar

end TenantRegistry.Yaml
