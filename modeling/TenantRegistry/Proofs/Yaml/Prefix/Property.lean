import TenantRegistry.Proofs.Yaml.Prefix.Scalar
import TenantRegistry.Yaml.Token.Property

/-!
Anchors, tags and directives of a text, read in a longer one.

Each of them ends on its line, so the line `---` that follows the short text is out of reach.
-/

namespace TenantRegistry.Yaml.Property

open Cursor

variable {s : List Char} {c d : Cursor}

theorem word_before (h : c.Inside) :
    word (c.before s) = ((word c).1, (word c).2.before s) ∧ c.Along (word c).2 :=
  ⟨takeWhile_before h (by decide), along_takeWhile h (by decide)⟩

theorem endsName_before (h : c.Inside) : endsName (c.before s) = endsName c := by
  rw [endsName, endsName, before_rest, atGap_append h.ne_nil, head?_append h.ne_nil]

theorem scanName_before {kind : List Char → TokenKind} {t : Token} {x : Char} {r : List Char}
    (h : c.Inside) (hrest : c.rest = x :: r) (hx : x ≠ '\n')
    (hscan : scanName kind c = some (t, d)) :
    scanName kind (c.before s) = some (t, d.before s) ∧ c.Along d := by
  have halong := along_skip h hrest hx
  obtain ⟨hlong, hword⟩ := word_before (s := s) halong.inside
  unfold scanName at hscan ⊢
  rw [skip_before hrest, hlong]
  generalize word c.skip = first at hscan hword
  obtain ⟨name, after⟩ := first
  dsimp only at hscan ⊢
  rw [endsName_before hword.inside]
  split at hscan
  · cases hscan
  · next hends =>
    cases hscan
    rw [if_neg hends]
    exact ⟨rfl, halong.trans hword⟩

/-! ## Tags -/

theorem escapedOctet?_before {n : Nat} (h : c.Inside) (hread : escapedOctet? c = some (n, d)) :
    escapedOctet? (c.before s) = some (n, d.before s) ∧ c.Along d ∧
      d.rest.length < c.rest.length := by
  obtain ⟨x, r, m, rfl, -⟩ := h.cases
  unfold escapedOctet? at hread
  split at hread
  · next r' heq =>
    cases heq
    obtain ⟨n', hn, heq⟩ := Option.bind_eq_some_iff.mp hread
    cases heq
    obtain ⟨hlong, hlength, hline⟩ := QuotedScalar.hexNumber?_append hn (separated s)
    have htake : '\n' ∉ ('%' :: r).take (1 + 2) := by
      rw [Nat.add_comm, List.take_succ_cons, List.mem_cons]
      exact fun hmem => hmem.elim (by decide) hline
    refine ⟨Option.bind_eq_some_iff.mpr ⟨n, hlong, ?_⟩, along_skipMany h htake, ?_⟩
    · rw [skipMany_before (Nat.succ_le_succ hlength)]
      rfl
    · rw [skipMany_rest, List.length_drop, List.length_cons]
      omega
  · cases hread

theorem escapedTail_before {n : Nat} {octets : List UInt8} (h : c.Inside)
    (hread : escapedTail n c = some (octets, d)) :
    escapedTail n (c.before s) = some (octets, d.before s) ∧ c.Along d := by
  induction n generalizing c octets with
  | zero =>
    cases hread
    exact ⟨rfl, .refl h⟩
  | succ n ih =>
    obtain ⟨⟨b, e⟩, hoctet, hread⟩ := Option.bind_eq_some_iff.mp hread
    obtain ⟨hlong, halong, -⟩ := escapedOctet?_before (s := s) h hoctet
    dsimp only at hread
    split at hread
    · cases hread
    · next hcontinues =>
      obtain ⟨⟨later, e'⟩, hlater, heq⟩ := Option.bind_eq_some_iff.mp hread
      cases heq
      obtain ⟨hlong', halong'⟩ := ih halong.inside hlater
      refine ⟨Option.bind_eq_some_iff.mpr ⟨_, hlong, ?_⟩, halong.trans halong'⟩
      dsimp only
      rw [if_neg hcontinues]
      exact Option.bind_eq_some_iff.mpr ⟨_, hlong', rfl⟩

theorem escapedChar_before {octets : List UInt8} (h : c.Inside)
    (hread : escapedChar c = some (octets, d)) :
    escapedChar (c.before s) = some (octets, d.before s) ∧ c.Along d ∧
      d.rest.length < c.rest.length := by
  obtain ⟨⟨b, e⟩, hoctet, hread⟩ := Option.bind_eq_some_iff.mp hread
  obtain ⟨n, hn, hread⟩ := Option.bind_eq_some_iff.mp hread
  obtain ⟨⟨later, e'⟩, hlater, heq⟩ := Option.bind_eq_some_iff.mp hread
  cases heq
  obtain ⟨hlong, halong, hlength⟩ := escapedOctet?_before (s := s) h hoctet
  obtain ⟨hlong', halong'⟩ := escapedTail_before (s := s) halong.inside hlater
  exact ⟨Option.bind_eq_some_iff.mpr ⟨_, hlong, Option.bind_eq_some_iff.mpr ⟨_, hn,
    Option.bind_eq_some_iff.mpr ⟨_, hlong', rfl⟩⟩⟩, halong.trans halong',
    halong'.length.trans_lt hlength⟩

theorem isTagChar_lineFeed (brackets : Bool) : isTagChar brackets '\n' = false := by
  cases brackets <;> decide

theorem tagChars_before {brackets : Bool} {budget budget' : List Char} {octets : List UInt8}
    (h : c.Inside) (hb : c.rest.length ≤ budget.length) (hb' : c.rest.length ≤ budget'.length)
    (hread : tagChars brackets budget c = some (octets, d)) :
    tagChars brackets budget' (c.before s) = some (octets, d.before s) ∧ c.Along d := by
  induction budget generalizing budget' c octets with
  | nil => exact absurd (List.length_eq_zero_iff.mp (Nat.le_zero.mp hb)) h.ne_nil
  | cons b budget ih =>
    obtain ⟨x, r, m, rfl, -⟩ := h.cases
    obtain ⟨b', budget', rfl⟩ := List.exists_cons_of_length_pos (Nat.zero_lt_of_lt hb')
    have hr := Nat.le_of_succ_le_succ hb
    have hr' := Nat.le_of_succ_le_succ hb'
    rw [tagChars] at hread
    rw [before_cons, tagChars]
    dsimp only at hread ⊢
    rw [← before_cons]
    refine same_branch hread (fun _ hread => ?_) fun _ hread => ?_
    · obtain ⟨⟨first, e⟩, hfirst, hread⟩ := Option.bind_eq_some_iff.mp hread
      obtain ⟨⟨later, e'⟩, hlater, heq⟩ := Option.bind_eq_some_iff.mp hread
      cases heq
      obtain ⟨hlong, halong, hlength⟩ := escapedChar_before (s := s) h hfirst
      obtain ⟨hlong', halong'⟩ := ih halong.inside ((Nat.le_of_lt_succ hlength).trans hr)
        ((Nat.le_of_lt_succ hlength).trans hr') hlater
      exact ⟨Option.bind_eq_some_iff.mpr ⟨_, hlong, Option.bind_eq_some_iff.mpr ⟨_, hlong', rfl⟩⟩,
        halong.trans halong'⟩
    refine same_branch hread (fun htag hread => ?_) fun _ hread => ?_
    · obtain ⟨⟨later, e⟩, hlater, heq⟩ := Option.bind_eq_some_iff.mp hread
      cases heq
      have hx : x ≠ '\n' := by
        rintro rfl
        rw [isTagChar_lineFeed] at htag
        cases htag
      have halong := along_skip h rfl hx
      obtain ⟨hlong, halong'⟩ := ih halong.inside hr hr' hlater
      rw [skip_before rfl]
      exact ⟨Option.bind_eq_some_iff.mpr ⟨_, hlong, rfl⟩, halong.trans halong'⟩
    cases hread
    exact ⟨rfl, .refl h⟩

theorem someTagChars_before {brackets : Bool} {octets : List UInt8} (h : c.Inside)
    (hread : someTagChars brackets c = some (octets, d)) :
    someTagChars brackets (c.before s) = some (octets, d.before s) ∧ c.Along d := by
  obtain ⟨⟨all, e⟩, hall, hread⟩ := Option.bind_eq_some_iff.mp hread
  obtain ⟨hlong, halong⟩ := tagChars_before h (Nat.le_refl _) (length_le_before c s) hall
  dsimp only at hread
  split at hread
  · cases hread
  · next hsome =>
    cases hread
    refine ⟨Option.bind_eq_some_iff.mpr ⟨_, hlong, ?_⟩, halong⟩
    dsimp only
    rw [if_neg hsome]
    rfl

theorem handle_before {name : List Char} (h : c.Inside) (hread : handle c = some (name, d)) :
    handle (c.before s) = some (name, d.before s) ∧ c.Along d := by
  unfold handle at hread ⊢
  dsimp only at hread ⊢
  rw [before_rest, atChar_append h.ne_nil]
  split at hread
  · cases hread
  · next hmark =>
    rw [if_neg hmark]
    obtain ⟨hskip, halong⟩ := skip_atChar (s := s) (x := '!') h (by decide) (by simpa using hmark)
    obtain ⟨hlong, hword⟩ := word_before (s := s) halong.inside
    rw [hskip, hlong]
    generalize word c.skip = first at hread hword
    obtain ⟨text, after⟩ := first
    dsimp only at hread ⊢
    rw [before_rest, atChar_append hword.inside.ne_nil]
    refine same_branch hread (fun hclosed hread => ?_) fun _ hread => ?_
    · cases hread
      obtain ⟨hskip', halong'⟩ := skip_atChar (s := s) hword.inside (by decide) hclosed
      rw [hskip']
      exact ⟨rfl, (halong.trans hword).trans halong'⟩
    cases hread
    exact ⟨rfl, halong.trans hword⟩

theorem tagParts_before {name : List Char} {suffix : List UInt8} {x : Char} {r : List Char}
    (h : c.Inside) (hrest : c.rest = x :: r) (hx : x ≠ '\n')
    (hread : tagParts c = some (name, suffix, d)) :
    tagParts (c.before s) = some (name, suffix, d.before s) ∧ c.Along d := by
  have hr : EndsLine r := by
    rw [Inside, hrest] at h
    exact h.tail hx
  obtain ⟨y, r, rfl⟩ := List.exists_cons_of_ne_nil hr.ne_nil
  have hbefore : (c.before s).rest = x :: y :: (r ++ separated s) := by rw [before_rest, hrest]; rfl
  unfold tagParts at hread ⊢
  rw [hrest] at hread
  rw [hbefore]
  by_cases hy : y = '<'
  · subst hy
    dsimp only at hread ⊢
    have htake : '\n' ∉ c.rest.take 2 := by simp [hrest, hx.symm]
    have halong := along_skipMany h htake
    rw [skipMany_before (by simp [hrest])]
    obtain ⟨⟨octets, e⟩, hoctets, hread⟩ := Option.bind_eq_some_iff.mp hread
    obtain ⟨hlong, halong'⟩ := someTagChars_before (s := s) halong.inside hoctets
    dsimp only at hread
    split at hread
    · cases hread
    · next hclosed =>
      cases hread
      obtain ⟨hskip, hend⟩ := skip_atChar (s := s) (x := '>') halong'.inside (by decide)
        (by simpa using hclosed)
      refine ⟨Option.bind_eq_some_iff.mpr ⟨_, hlong, ?_⟩, (halong.trans halong').trans hend⟩
      dsimp only
      rw [before_rest, atChar_append halong'.inside.ne_nil, if_neg hclosed, hskip]
      rfl
  · split at hread
    · next heq => cases heq; exact absurd rfl hy
    · split
      · next heq => cases heq; exact absurd rfl hy
      · obtain ⟨⟨first, e⟩, hfirst, hread⟩ := Option.bind_eq_some_iff.mp hread
        obtain ⟨hlong, halong⟩ := handle_before (s := s) h hfirst
        suffices hsuff : _ = some (name, suffix, d.before s) ∧ e.Along d from
          ⟨Option.bind_eq_some_iff.mpr ⟨_, hlong, hsuff.1⟩, halong.trans hsuff.2⟩
        dsimp only at hread ⊢
        refine same_branch hread (fun _ hread => ?_) fun _ hread => ?_
        · obtain ⟨⟨octets, e'⟩, hoctets, heq⟩ := Option.bind_eq_some_iff.mp hread
          cases heq
          obtain ⟨hlong', halong'⟩ := someTagChars_before (s := s) halong.inside hoctets
          exact ⟨Option.bind_eq_some_iff.mpr ⟨_, hlong', rfl⟩, halong'⟩
        obtain ⟨⟨octets, e'⟩, hoctets, hread⟩ := Option.bind_eq_some_iff.mp hread
        obtain ⟨hlong', halong'⟩ := tagChars_before halong.inside (Nat.le_refl _)
          (length_le_before e s) hoctets
        suffices hsuff : _ = some (name, suffix, d.before s) ∧ e'.Along d from
          ⟨Option.bind_eq_some_iff.mpr ⟨_, hlong', hsuff.1⟩, halong'.trans hsuff.2⟩
        dsimp only at hread ⊢
        refine same_branch hread (fun _ hread => ?_) fun _ hread => ?_
        · cases hread
          exact ⟨rfl, .refl halong'.inside⟩
        cases hread
        exact ⟨rfl, .refl halong'.inside⟩

theorem scanTag_before {flow : Bool} {t : Token} {x : Char} {r : List Char} (h : c.Inside)
    (hrest : c.rest = x :: r) (hx : x ≠ '\n') (hscan : scanTag flow c = some (t, d)) :
    scanTag flow (c.before s) = some (t, d.before s) ∧ c.Along d := by
  obtain ⟨⟨name, suffix, e⟩, hparts, hscan⟩ := Option.bind_eq_some_iff.mp hscan
  obtain ⟨hlong, halong⟩ := tagParts_before (s := s) h hrest hx hparts
  dsimp only at hscan
  split at hscan
  · next hends =>
    cases hscan
    refine ⟨Option.bind_eq_some_iff.mpr ⟨_, hlong, ?_⟩, halong⟩
    dsimp only
    rw [before_rest, atGap_append halong.inside.ne_nil, atChar_append halong.inside.ne_nil,
      if_pos hends]
    rfl
  · cases hscan

/-! ## Directives -/

theorem versionNumber_before {n : Nat} (h : c.Inside) (hread : versionNumber c = some (n, d)) :
    versionNumber (c.before s) = some (n, d.before s) ∧ c.Along d := by
  unfold versionNumber at hread ⊢
  have halong : c.Along (c.takeWhile Char.isDigit).2 := along_takeWhile h (by decide)
  rw [takeWhile_before h (by decide)]
  generalize c.takeWhile Char.isDigit = first at hread halong
  obtain ⟨digits, e⟩ := first
  dsimp only at hread ⊢
  split at hread
  · cases hread
  · next hdigits =>
    cases hread
    rw [if_neg hdigits]
    exact ⟨rfl, halong⟩

theorem version_before {v : Nat × Nat} (h : c.Inside) (hread : version c = some (v, d)) :
    version (c.before s) = some (v, d.before s) ∧ c.Along d := by
  unfold version at hread ⊢
  have hblank : c.Along (c.skipWhile isBlankChar) := along_skipWhile h (by decide)
  rw [skipWhile_before h (by decide)]
  obtain ⟨⟨major, e⟩, hmajor, hread⟩ := Option.bind_eq_some_iff.mp hread
  obtain ⟨hlong, halong⟩ := versionNumber_before (s := s) hblank.inside hmajor
  dsimp only at hread
  split at hread
  · cases hread
  · next hpoint =>
    obtain ⟨⟨minor, e'⟩, hminor, heq⟩ := Option.bind_eq_some_iff.mp hread
    cases heq
    obtain ⟨hskip, hpast⟩ := skip_atChar (s := s) (x := '.') halong.inside (by decide)
      (by simpa using hpoint)
    obtain ⟨hlong', halong'⟩ := versionNumber_before (s := s) hpast.inside hminor
    refine ⟨Option.bind_eq_some_iff.mpr ⟨_, hlong, ?_⟩,
      hblank.trans (halong.trans (hpast.trans halong'))⟩
    dsimp only
    rw [before_rest, atChar_append halong.inside.ne_nil, if_neg hpoint, hskip]
    exact Option.bind_eq_some_iff.mpr ⟨_, hlong', rfl⟩

theorem tagDirective_before {name : List Char} {octets : List UInt8} (h : c.Inside)
    (hread : tagDirective c = some (name, octets, d)) :
    tagDirective (c.before s) = some (name, octets, d.before s) ∧ c.Along d := by
  unfold tagDirective at hread ⊢
  have hblank : c.Along (c.skipWhile isBlankChar) := along_skipWhile h (by decide)
  rw [skipWhile_before h (by decide)]
  obtain ⟨⟨first, e⟩, hfirst, hread⟩ := Option.bind_eq_some_iff.mp hread
  obtain ⟨hlong, halong⟩ := handle_before (s := s) hblank.inside hfirst
  suffices hsuff : _ = some (name, octets, d.before s) ∧ e.Along d from
    ⟨Option.bind_eq_some_iff.mpr ⟨_, hlong, hsuff.1⟩, hblank.trans (halong.trans hsuff.2)⟩
  dsimp only at hread ⊢
  split at hread
  · cases hread
  · next hnamed =>
    rw [if_neg hnamed]
    split at hread
    · cases hread
    · next hgap =>
      rw [before_rest, atBlank_append halong.inside.ne_nil, if_neg hgap,
        skipWhile_before halong.inside (by decide)]
      have hblank' : e.Along (e.skipWhile isBlankChar) := along_skipWhile halong.inside (by decide)
      obtain ⟨⟨octets', e'⟩, hoctets, hread⟩ := Option.bind_eq_some_iff.mp hread
      obtain ⟨hlong', halong'⟩ := someTagChars_before (s := s) hblank'.inside hoctets
      dsimp only at hread
      split at hread
      · cases hread
      · next hends =>
        cases hread
        refine ⟨Option.bind_eq_some_iff.mpr ⟨_, hlong', ?_⟩, hblank'.trans halong'⟩
        dsimp only
        rw [before_rest, atGap_append halong'.inside.ne_nil, if_neg hends]
        rfl

/-- What a directive says, and the rest of its line. -/
theorem scanDirective_before {t : Token} {x : Char} {r : List Char} (h : c.Inside)
    (hrest : c.rest = x :: r) (hx : x ≠ '\n') (hscan : scanDirective c = some (t, d)) :
    scanDirective (c.before s) = some (t, d.before s) ∧ c.Leads d := by
  have halong := along_skip h hrest hx
  obtain ⟨hlong, hword⟩ := word_before (s := s) halong.inside
  unfold scanDirective at hscan ⊢
  rw [skip_before hrest, hlong]
  generalize word c.skip = first at hscan hword
  obtain ⟨name, e⟩ := first
  suffices hsuff : _ = some (t, d.before s) ∧ e.Leads d from
    ⟨hsuff.1, (halong.trans hword).leads.trans hsuff.2⟩
  dsimp only at hscan ⊢
  split at hscan
  · cases hscan
  · next hends =>
    rw [before_rest, atGap_append hword.inside.ne_nil, if_neg hends]
    refine same_branch hscan (fun _ hscan => ?_) fun _ hscan => ?_
    · obtain ⟨⟨v, e'⟩, hv, hscan⟩ := Option.bind_eq_some_iff.mp hscan
      obtain ⟨⟨kind, e''⟩, hkind, hscan⟩ := Option.bind_eq_some_iff.mp hscan
      cases hkind
      obtain ⟨line, hline, heq⟩ := Option.bind_eq_some_iff.mp hscan
      cases heq
      obtain ⟨hlong', halong'⟩ := version_before (s := s) hword.inside hv
      obtain ⟨hlong'', hleads⟩ := skipLineEnd?_before (s := s) halong'.inside hline
      exact ⟨Option.bind_eq_some_iff.mpr ⟨_, hlong', Option.bind_eq_some_iff.mpr ⟨_, rfl,
        Option.bind_eq_some_iff.mpr ⟨_, hlong'', rfl⟩⟩⟩, halong'.leads.trans hleads⟩
    refine same_branch hscan (fun _ hscan => ?_) fun _ hscan => ?_
    · obtain ⟨⟨name', octets, e'⟩, hv, hscan⟩ := Option.bind_eq_some_iff.mp hscan
      obtain ⟨⟨kind, e''⟩, hkind, hscan⟩ := Option.bind_eq_some_iff.mp hscan
      cases hkind
      obtain ⟨line, hline, heq⟩ := Option.bind_eq_some_iff.mp hscan
      cases heq
      obtain ⟨hlong', halong'⟩ := tagDirective_before (s := s) hword.inside hv
      obtain ⟨hlong'', hleads⟩ := skipLineEnd?_before (s := s) halong'.inside hline
      exact ⟨Option.bind_eq_some_iff.mpr ⟨_, hlong', Option.bind_eq_some_iff.mpr ⟨_, rfl,
        Option.bind_eq_some_iff.mpr ⟨_, hlong'', rfl⟩⟩⟩, halong'.leads.trans hleads⟩
    cases hscan

end TenantRegistry.Yaml.Property
