import TenantRegistry.Proofs.Yaml.Prefix.Tokens

/-!
Tokens of mappings in braces.

A scanner that reads on needs a step for each token it reads and for each that it releases
(`Releases`). Between brackets it comes to rest after each brace, comma and value: no key is
possible there and nothing is pending. Each token takes it from one such state to the next,
whatever the text goes on with.
-/

namespace TenantRegistry.Yaml

variable {w rest : List Char} {m : Mark}

/-! ## Words in quotes -/

/-- A character of one octet that stands for itself between double quotes. -/
def IsLetter (c : Char) : Prop :=
  isBlankChar c = false ∧ isBreakChar c = false ∧ c ≠ '"' ∧ c ≠ '\\' ∧ c.utf8Size = 1

theorem code_of_isAlphanum {c : Char} (h : c.isAlphanum = true) :
    0x30 ≤ c.toNat ∧ c.toNat ≤ 0x7A := by
  rcases Bool.or_eq_true_iff.mp h with h | hdigit
  · rcases Bool.or_eq_true_iff.mp h with hupper | hlower
    · have hcode : 0x41 ≤ c.toNat ∧ c.toNat ≤ 0x5A := of_decide_eq_true hupper
      omega
    · have hcode : 0x61 ≤ c.toNat ∧ c.toNat ≤ 0x7A :=
        (Bool.and_eq_true_iff.mp hlower).imp of_decide_eq_true of_decide_eq_true
      omega
  · have hcode : 0x30 ≤ c.toNat ∧ c.toNat ≤ 0x39 :=
      (Bool.and_eq_true_iff.mp hdigit).imp of_decide_eq_true of_decide_eq_true
    omega

theorem utf8Size_of_isAlphanum {c : Char} (h : c.isAlphanum = true) : c.utf8Size = 1 :=
  Char.utf8Size_eq_one_iff.mpr (Nat.le_trans (code_of_isAlphanum h).2 (by decide))

theorem isLetter_of_isAlphanum {c : Char} (h : c.isAlphanum = true) : IsLetter c := by
  have hne (d : Char) (hd : d.isAlphanum = false) : c ≠ d := by
    rintro rfl
    rw [h] at hd
    cases hd
  refine ⟨?_, ?_, hne _ (by decide), hne _ (by decide), utf8Size_of_isAlphanum h⟩
  · simp only [isBlankChar, beq_eq_false_iff_ne.mpr (hne ' ' (by decide)),
      beq_eq_false_iff_ne.mpr (hne '\t' (by decide)), Bool.or_self]
  · simp only [isBreakChar, beq_eq_false_iff_ne.mpr (hne '\n' (by decide)),
      beq_eq_false_iff_ne.mpr (hne '\r' (by decide)),
      beq_eq_false_iff_ne.mpr (hne '\u0085' (by decide)),
      beq_eq_false_iff_ne.mpr (hne '\u2028' (by decide)),
      beq_eq_false_iff_ne.mpr (hne '\u2029' (by decide)), Bool.or_self]

/-- Letters and digits only. -/
theorem isLetter_of_mem (cs : List Char) (h : cs.all Char.isAlphanum = true) :
    ∀ c ∈ cs, IsLetter c :=
  fun c hc => isLetter_of_isAlphanum (List.all_eq_true.mp h c hc)

/-- The position some characters of one octet each later on the same line. -/
def Mark.along (m : Mark) (n : Nat) : Mark :=
  ⟨m.index + n, m.line, m.column + n⟩

theorem Mark.along_next (m : Mark) (n : Nat) : (m.next 1).along n = m.along (n + 1) := by
  simp only [Mark.along, Mark.next, Nat.add_assoc, Nat.add_comm 1]

/-- A word with its quotes. -/
def quoted (w : List Char) : List Char :=
  '"' :: (w ++ ['"'])

namespace QuotedScalar

theorem run_letters {budget : List Char} (hw : ∀ c ∈ w, IsLetter c)
    (hbudget : w.length < budget.length) :
    run false budget ⟨w ++ '"' :: rest, m⟩ = some (w, false, ⟨'"' :: rest, m.along w.length⟩) := by
  induction w generalizing m budget with
  | nil =>
    cases budget with
    | nil => cases hbudget
    | cons b budget => rfl
  | cons c w ih =>
    cases budget with
    | nil => cases hbudget
    | cons b budget =>
      obtain ⟨hc, hw⟩ := List.forall_mem_cons.mp hw
      obtain ⟨hblank, hbreak, hquote, hescape, hwidth⟩ := hc
      have hlater : run false budget ⟨w ++ '"' :: rest, m.next 1⟩ = _ :=
        ih hw (Nat.lt_of_succ_lt_succ hbudget)
      simp only [run, List.cons_append, hblank, hbreak, beq_eq_false_iff_ne.mpr hquote,
        beq_eq_false_iff_ne.mpr hescape, Bool.or_self, Bool.false_eq_true, if_false,
        Cursor.skip, nextWidth, hwidth, List.tail_cons, hlater, Option.bind_eq_bind,
        Option.bind_some]
      rw [Mark.along_next]
      rfl

theorem scan_quoted (hw : ∀ c ∈ w, IsLetter c) :
    scan false ⟨quoted w ++ rest, m⟩ =
      some (⟨m, m.along (w.length + 2), .scalar .doubleQuoted w⟩,
        ⟨rest, m.along (w.length + 2)⟩) := by
  have hsplit : quoted w ++ rest = '"' :: (w ++ '"' :: rest) := by simp [quoted]
  have hrun : run false (w ++ '"' :: rest) ⟨w ++ '"' :: rest, m.next 1⟩ = _ :=
    run_letters hw (by simp)
  have hopen (c : Char) : Cursor.atDocumentMark c ⟨w ++ '"' :: rest, m.next 1⟩ = false := by
    simp [Cursor.atDocumentMark, Mark.next]
  have hempty : (w ++ '"' :: rest).isEmpty = false := by simp
  have hskip : Cursor.skip ⟨'"' :: (w ++ '"' :: rest), m⟩ = ⟨w ++ '"' :: rest, m.next 1⟩ := rfl
  rw [hsplit]
  simp only [scan, hskip, runs, hopen, hempty, hrun, Bool.or_self,
    Bool.false_eq_true, if_false, Option.bind_eq_bind, Option.bind_some, atChar, beq_self_eq_true,
    if_true]
  rw [Mark.along_next]
  rfl

end QuotedScalar

namespace Scanner

/-! ## Runs -/

/-- With a budget of `n` steps more, a state releases tokens of these kinds and goes on from another
state. -/
def Releases (n : Nat) (s : Scanner) (kinds : List TokenKind) (s' : Scanner) : Prop :=
  ∃ tokens : List Token, tokens.map (·.kind) = kinds ∧ ∀ fuel, s.releaseAll (fuel + n) =
    (tokens ++ (s'.releaseAll fuel).1, (s'.releaseAll fuel).2)

section Runs

variable {s s₁ s₂ : Scanner} {kinds kinds' : List TokenKind} {n n' : Nat}

theorem Releases.trans (h : Releases n s kinds s₁) (h' : Releases n' s₁ kinds' s₂) :
    Releases (n' + n) s (kinds ++ kinds') s₂ := by
  obtain ⟨tokens, rfl, hrun⟩ := h
  obtain ⟨tokens', rfl, hrun'⟩ := h'
  refine ⟨tokens ++ tokens', List.map_append, fun fuel => ?_⟩
  rw [← Nat.add_assoc, hrun, hrun', List.append_assoc]

theorem releases_fetch (hpending : s.pending = []) (hfetch : s.fetch = some s₁) :
    Releases 1 s [] s₁ := by
  refine ⟨[], rfl, fun fuel => ?_⟩
  rw [releaseAll]
  simp only [hpending, hfetch]
  rfl

/-- As long as a key may be put before the first token, the next one is read first. -/
theorem releases_open (hpending : s.pending ≠ []) (hdrop : s.dropStale = some s)
    (hopen : s.isOpen = true) (hfetch : s.fetch = some s₁) : Releases 1 s [] s₁ := by
  refine ⟨[], rfl, fun fuel => ?_⟩
  rw [releaseAll]
  split
  · next h => exact absurd h hpending
  · simp only [hdrop, hopen, if_true, hfetch]
    rfl

theorem releases_first {t : Token} {later : List Token} (hkeys : s.NoKeys)
    (hpending : s.pending = t :: later) (hkind : t.kind ≠ .streamEnd) :
    Releases 1 s [t.kind] { s with pending := later, released := s.released + 1 } := by
  refine ⟨[t], rfl, fun fuel => ?_⟩
  rw [releaseAll]
  simp only [hpending, hkeys.dropStale, hkeys.isOpen, Bool.false_eq_true, if_false, if_neg hkind]
  rfl

end Runs

/-! ## States at rest -/

/-- Within some brackets and no block, with no key to come and all tokens released. -/
def resting (rest : List Char) (m : Mark) (flow : Nat) (keyAllowed : Bool) (released : Nat) :
    Scanner where
  cursor := ⟨rest, m⟩
  flow
  indent := -1
  indents := []
  keyAllowed
  keys := List.replicate (flow + 1) none
  released
  pending := []
  faulty := false

variable {flow released : Nat} {keyAllowed : Bool}

theorem noKeys_of_keys {s : Scanner} {n : Nat} (h : s.keys = List.replicate n none) : s.NoKeys := by
  intro k hk
  rw [h] at hk
  cases List.eq_of_mem_replicate hk

/-- A character that no gap and no order mark has. -/
def IsTokenChar (c : Char) : Prop :=
  isBlankChar c = false ∧ isBreakChar c = false ∧ c ≠ '#' ∧ c ≠ '\uFEFF'

instance (c : Char) : Decidable (IsTokenChar c) :=
  inferInstanceAs (Decidable (_ ∧ _))

theorem isStarved_of_whole {s : Scanner} (h : s.faulty = false) (need : Nat) :
    s.isStarved need = false := by
  simp [isStarved, h]

theorem unindent_of_no_block {s : Scanner} (h : s.indents = []) (column : Int) :
    s.unindent column = s := by
  unfold unindent
  rw [h]
  split <;> rfl

theorem skipOrderMark_of_not {s : Scanner} (h : ∀ x ∈ s.cursor.rest.head?, x ≠ '\uFEFF') :
    s.skipOrderMark = s := by
  refine if_neg fun hmark => ?_
  have hnext := (Bool.and_eq_true_iff.mp hmark).2
  cases hrest : s.cursor.rest with
  | nil => rw [hrest] at hnext; cases hnext
  | cons x r =>
    rw [hrest] at hnext
    exact h x (by rw [hrest]; rfl) (eq_of_beq hnext).symm

/-- Where no block is open and no key is overdue, a token is read from its first character. -/
theorem fetch_of_dispatch {s s₁ : Scanner} {c : Char} (hrest : s.cursor.rest = c :: rest)
    (hc : IsTokenChar c) (hdrop : s.dropStale = some s) (hindents : s.indents = [])
    (hwhole : s.faulty = false) (hstep : s.dispatch c rest = some s₁)
    (hwhole₁ : s₁.faulty = false) : s.fetch = some s₁ := by
  obtain ⟨hblank, hbreak, hcomment, horder⟩ := hc
  have hhead : ∀ x ∈ s.cursor.rest.head?, x = c := by
    rw [hrest]
    exact fun x hx => (Option.some.inj hx).symm
  have hmark := skipOrderMark_of_not fun x hx => (hhead x hx).symm ▸ horder
  have hgap (budget : List Char) : skipGap budget s = s :=
    skipGap_of_not fun x hx => (hhead x hx).symm ▸ ⟨hblank, hbreak, hcomment⟩
  simp only [fetch, hmark, hgap, isStarved_of_whole hwhole, Bool.false_eq_true, if_false, hdrop,
    Option.bind_eq_bind, Option.bind_some, unindent_of_no_block hindents, hrest, hstep,
    isStarved_of_whole hwhole₁]
  rfl

theorem fetch_of_end {s : Scanner} (hrest : s.cursor.rest = []) (hdrop : s.dropStale = some s)
    (hindents : s.indents = []) (hwhole : s.faulty = false) : s.fetch = s.streamEnd := by
  have hmark : s.skipOrderMark = s := skipOrderMark_of_not (by rw [hrest]; nofun)
  have hgap (budget : List Char) : skipGap budget s = s := skipGap_of_not (by rw [hrest]; nofun)
  simp only [fetch, hmark, hgap, isStarved_of_whole hwhole, Bool.false_eq_true, if_false, hdrop,
    Option.bind_eq_bind, Option.bind_some, unindent_of_no_block hindents, hrest]

/-- A character that is skipped before a token. -/
theorem fetch_of_gap {s s₁ : Scanner} (hskip : skipGap s.cursor.rest s = skipGap s₁.cursor.rest s₁)
    (hs : ∀ x ∈ s.cursor.rest.head?, x ≠ '\uFEFF')
    (hs₁ : ∀ x ∈ s₁.cursor.rest.head?, x ≠ '\uFEFF') : s.fetch = s₁.fetch := by
  unfold fetch
  rw [skipOrderMark_of_not hs, skipOrderMark_of_not hs₁]
  simp only [hskip]

/-! ## Tokens in brackets -/

/-- A token that is released as soon as it is read, no key being possible. -/
theorem releases_token {c : Char} {rest₁ : List Char} {m₁ : Mark} {flow₁ : Nat} {keyAllowed₁ : Bool}
    {t : Token} (hc : IsTokenChar c) (hkind : t.kind ≠ .streamEnd)
    (hstep : (resting (c :: rest) m flow keyAllowed released).dispatch c rest =
      some { resting rest₁ m₁ flow₁ keyAllowed₁ released with pending := [t] }) :
    Releases 2 (resting (c :: rest) m flow keyAllowed released) [t.kind]
      (resting rest₁ m₁ flow₁ keyAllowed₁ (released + 1)) :=
  (releases_fetch rfl (fetch_of_dispatch rfl hc (noKeys_of_keys rfl).dropStale rfl rfl hstep
    rfl)).trans (releases_first (noKeys_of_keys rfl) rfl hkind)

section Column

variable {s : Scanner} (h : s.cursor.mark.column ≠ 0)

include h

theorem atDocumentMark_of_column (c : Char) : s.cursor.atDocumentMark c = false := by
  simp [Cursor.atDocumentMark, h]

theorem dispatch_openBrace : s.dispatch '\x7b' rest = s.openFlow .flowMappingStart := by
  simp [dispatch, atDocumentMark_of_column h]

theorem dispatch_closeBrace : s.dispatch '\x7d' rest = s.closeFlow .flowMappingEnd := by
  simp [dispatch, atDocumentMark_of_column h]

theorem dispatch_comma : s.dispatch ',' rest = s.flowEntry := by
  simp [dispatch, atDocumentMark_of_column h]

theorem dispatch_quote : s.dispatch '"' rest = s.keyToken (QuotedScalar.scan false) := by
  simp [dispatch, atDocumentMark_of_column h]

theorem dispatch_colon (hflow : s.inFlow = true) : s.dispatch ':' rest = s.mappingValue := by
  simp [dispatch, atDocumentMark_of_column h, hflow]

end Column

theorem releases_openBrace (hm : m.column ≠ 0) :
    Releases 2 (resting ('\x7b' :: rest) m flow false released) [.flowMappingStart]
      (resting rest (m.next 1) (flow + 1) true (released + 1)) :=
  releases_token (t := ⟨m, m.next 1, .flowMappingStart⟩) (by decide) nofun (dispatch_openBrace hm)

theorem releases_closeBrace (hm : m.column ≠ 0) :
    Releases 2 (resting ('\x7d' :: rest) m (flow + 1) keyAllowed released) [.flowMappingEnd]
      (resting rest (m.next 1) flow false (released + 1)) :=
  releases_token (t := ⟨m, m.next 1, .flowMappingEnd⟩) (by decide) nofun (dispatch_closeBrace hm)

theorem releases_comma (hm : m.column ≠ 0) :
    Releases 2 (resting (',' :: rest) m (flow + 1) keyAllowed released) [.flowEntry]
      (resting rest (m.next 1) (flow + 1) true (released + 1)) :=
  releases_token (t := ⟨m, m.next 1, .flowEntry⟩) (by decide) nofun (dispatch_comma hm)

theorem keyToken_of_scan {scan : Cursor → Option (Token × Cursor)} {s : Scanner} (s₁ : Scanner)
    {t : Token} {after : Cursor} (hsave : s.saveKey = some s₁)
    (hscan : scan s₁.cursor = some (t, after)) :
    s.keyToken scan = some { s₁.push t with cursor := after, keyAllowed := false } := by
  simp only [keyToken, hsave, hscan, Option.bind_eq_bind, Option.bind_some]
  rfl

/-- A word in quotes where no key may start. -/
theorem releases_quoted (hm : m.column ≠ 0) (hw : ∀ c ∈ w, IsLetter c) :
    Releases 2 (resting (quoted w ++ rest) m flow false released) [.scalar .doubleQuoted w]
      (resting rest (m.along (w.length + 2)) flow false (released + 1)) :=
  releases_token (c := '"') (t := ⟨m, m.along (w.length + 2), .scalar .doubleQuoted w⟩)
    (by decide) nofun
    ((dispatch_quote hm).trans (keyToken_of_scan (resting (quoted w ++ rest) m flow false released)
      rfl (QuotedScalar.scan_quoted hw)))

/-- After a word in quotes that may be a key. -/
def expecting (rest : List Char) (m : Mark) (w : List Char) (flow released : Nat) : Scanner :=
  { resting rest (m.along (w.length + 2)) (flow + 1) false released with
    keys := some ⟨false, released, m⟩ :: List.replicate (flow + 1) none
    pending := [⟨m, m.along (w.length + 2), .scalar .doubleQuoted w⟩] }

theorem dropStale_expecting (hlength : w.length ≤ 1022) :
    (expecting rest m w flow released).dropStale = some (expecting rest m w flow released) := by
  refine dropStale_eq_some_iff.mpr ⟨fun k hk _ => ?_, ?_⟩
  · rcases List.mem_cons.mp hk with heq | hk
    · cases heq
      rfl
    · cases List.eq_of_mem_replicate hk
  · have hfresh : isStale (m.along (w.length + 2)) ⟨false, released, m⟩ = false := by
      simp [isStale, Mark.along]
      omega
    have hkeys : (expecting rest m w flow released).keys.map
        (Option.filter (!isStale (expecting rest m w flow released).cursor.mark ·)) =
          (expecting rest m w flow released).keys := by
      show Option.filter _ (some _) :: (List.replicate (flow + 1) none).map _ = _
      rw [List.map_replicate]
      show (if (!isStale (m.along (w.length + 2)) ⟨false, released, m⟩) = true
        then _ else _) :: _ = _
      rw [hfresh]
      rfl
    rw [hkeys]

/-- A key in quotes with its colon. -/
theorem releases_key (hm : m.column ≠ 0) (hw : ∀ c ∈ w, IsLetter c) (hlength : w.length ≤ 1022) :
    Releases 5 (resting (quoted w ++ ':' :: rest) m (flow + 1) true released)
      [.key, .scalar .doubleQuoted w, .value]
      (resting rest (m.along (w.length + 3)) (flow + 1) false (released + 3)) := by
  have hcolumn : (m.along (w.length + 2)).column ≠ 0 := by
    simp [Mark.along]
  have hword : Releases 1 (resting (quoted w ++ ':' :: rest) m (flow + 1) true released) []
      (expecting (':' :: rest) m w flow released) := by
    refine releases_fetch rfl (fetch_of_dispatch (c := '"') rfl (by decide)
      (noKeys_of_keys rfl).dropStale rfl rfl ((dispatch_quote hm).trans ?_) rfl)
    exact keyToken_of_scan { resting (quoted w ++ ':' :: rest) m (flow + 1) true released with
      keys := some ⟨false, released, m⟩ :: List.replicate (flow + 1) none } rfl
      (QuotedScalar.scan_quoted hw)
  let after (pending : List Token) (released : Nat) : Scanner :=
    { resting rest (m.along (w.length + 3)) (flow + 1) false released with pending := pending }
  let key : Token := ⟨m, m, .key⟩
  let scalar : Token := ⟨m, m.along (w.length + 2), .scalar .doubleQuoted w⟩
  let value : Token := ⟨m.along (w.length + 2), m.along (w.length + 3), .value⟩
  have hcolon : Releases 1 (expecting (':' :: rest) m w flow released) []
      (after [key, scalar, value] released) := by
    have hopen : (expecting (':' :: rest) m w flow released).isOpen = true := by
      simp [isOpen, expecting, resting]
    refine releases_open (List.cons_ne_nil _ _) (dropStale_expecting hlength) hopen
      (fetch_of_dispatch (c := ':') rfl (by decide) (dropStale_expecting hlength) rfl rfl
        ((dispatch_colon hcolumn rfl).trans ?_) rfl)
    simp only [mappingValue, expecting, insert, openBlock, resting, Nat.sub_self]
    rfl
  have hnoKeys (pending : List Token) (released : Nat) : (after pending released).NoKeys :=
    noKeys_of_keys rfl
  have hfirst := releases_first (hnoKeys [key, scalar, value] released) rfl nofun
  have hsecond := releases_first (hnoKeys [scalar, value] (released + 1)) rfl nofun
  have hthird := releases_first (hnoKeys [value] (released + 2)) rfl nofun
  exact hword.trans (hcolon.trans (hfirst.trans (hsecond.trans hthird)))

/-! ## Documents -/

theorem Releases.of_fetch {n : Nat} {s s₁ s₂ : Scanner} {kinds : List TokenKind}
    (h : Releases n s₁ kinds s₂) (hpending : s.pending = []) (hpending₁ : s₁.pending = [])
    (hfetch : s.fetch = s₁.fetch) : Releases n s kinds s₂ := by
  obtain ⟨tokens, hkinds, hrun⟩ := h
  refine ⟨tokens, hkinds, fun fuel => ?_⟩
  rw [← hrun]
  cases fuel + n with
  | zero => rfl
  | succ fuel => simp only [releaseAll, hpending, hpending₁, hfetch]

/-- A line `---` that goes on after a space. -/
theorem releases_documentStart :
    Releases 2 (resting ('\n' :: '-' :: '-' :: '-' :: ' ' :: rest) m 0 keyAllowed released)
      [.documentStart]
      (resting (' ' :: rest) ((m.newLine 1).along 3) 0 false (released + 1)) := by
  have hgap : (resting ('\n' :: '-' :: '-' :: '-' :: ' ' :: rest) m 0 keyAllowed released).fetch =
      (resting ('-' :: '-' :: '-' :: ' ' :: rest) (m.newLine 1) 0 true released).fetch := by
    refine fetch_of_gap ?_ (by simp [resting]) (by simp [resting])
    cases keyAllowed <;> rfl
  exact (releases_token (c := '-') (t := ⟨m.newLine 1, (m.newLine 1).along 3, .documentStart⟩)
    (by decide) nofun rfl).of_fetch rfl rfl hgap

theorem releases_spaceBrace :
    Releases 2 (resting (' ' :: '\x7b' :: rest) m 0 false released) [.flowMappingStart]
      (resting rest (m.along 2) 1 true (released + 1)) := by
  have hgap : (resting (' ' :: '\x7b' :: rest) m 0 false released).fetch =
      (resting ('\x7b' :: rest) (m.next 1) 0 false released).fetch :=
    fetch_of_gap rfl (by simp [resting]) (by simp [resting])
  exact (releases_openBrace (m := m.next 1) (Nat.succ_ne_zero _)).of_fetch rfl rfl hgap

/-- The end of the text. -/
theorem releaseAll_end (m : Mark) (keyAllowed : Bool) (released : Nat) :
    ∃ t : Token, t.kind = .streamEnd ∧ ∀ fuel,
      (resting [] m 0 keyAllowed released).releaseAll (fuel + 2) = ([t], false) := by
  let last : Mark := if m.column = 0 then m else ⟨m.index, m.line + 1, 0⟩
  let ended : Scanner :=
    { resting [] last 0 false released with pending := [⟨last, last, .streamEnd⟩] }
  have hkeys : ended.NoKeys := noKeys_of_keys rfl
  have hfetch : (resting [] m 0 keyAllowed released).fetch = some ended :=
    fetch_of_end rfl (noKeys_of_keys rfl).dropStale rfl rfl
  have hlast (fuel : Nat) : ended.releaseAll (fuel + 1) = ([⟨last, last, .streamEnd⟩], false) := by
    simp only [releaseAll, hkeys.dropStale, hkeys.isOpen, Bool.false_eq_true, if_false]
    rfl
  obtain ⟨tokens, hnone, hrun⟩ := releases_fetch rfl hfetch
  obtain rfl := List.map_eq_nil_iff.mp hnone
  exact ⟨_, rfl, fun fuel => (hrun (fuel + 1)).trans (by rw [hlast]; rfl)⟩

end Scanner

end TenantRegistry.Yaml
