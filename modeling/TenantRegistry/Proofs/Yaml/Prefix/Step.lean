import TenantRegistry.Proofs.Yaml.Prefix.Property
import TenantRegistry.Yaml.Token.Scan

/-!
One token of a text, read in a longer one.

`Scanner.before` is a state of reading the short text as one of reading the long text. What changes
only keys and collections commutes with it, and so does what reads a gap or a token, as long as the
short text has a character to start with.
-/

namespace TenantRegistry.Yaml.Scanner

open Cursor

variable {tail : List Char} {flag : Bool} {s s₁ s₂ : Scanner}

/-- A state of reading the short text as one of reading the long text, which may break off at a
forbidden character. -/
def before (tail : List Char) (flag : Bool) (s : Scanner) : Scanner :=
  { s with cursor := s.cursor.before tail, faulty := flag }

@[simp] theorem before_cursor : (s.before tail flag).cursor = s.cursor.before tail := rfl

@[simp] theorem before_keys : (s.before tail flag).keys = s.keys := rfl

@[simp] theorem before_pending : (s.before tail flag).pending = s.pending := rfl

@[simp] theorem before_keyAllowed : (s.before tail flag).keyAllowed = s.keyAllowed := rfl

@[simp] theorem before_indent : (s.before tail flag).indent = s.indent := rfl

@[simp] theorem before_inFlow : (s.before tail flag).inFlow = s.inFlow := rfl

variable (tail flag)

/-! ## Keys and collections -/

/-- The place stays, and no possible key is new but one that starts there. -/
structure Stays (s s₁ : Scanner) : Prop where
  cursor : s₁.cursor = s.cursor
  keys : ∀ k, some k ∈ s₁.keys → some k ∈ s.keys ∨ k.mark = s.cursor.mark

theorem Stays.trans (h : s.Stays s₁) (h' : s₁.Stays s₂) : s.Stays s₂ where
  cursor := h'.cursor.trans h.cursor
  keys k hk := by
    rcases h'.keys k hk with hk | hk
    · exact h.keys k hk
    · exact .inr (hk.trans (congrArg Cursor.mark h.cursor))

theorem Stays.of_eq (hcursor : s₁.cursor = s.cursor) (hkeys : s₁.keys = s.keys) : s.Stays s₁ :=
  ⟨hcursor, fun _ hk => .inl (hkeys ▸ hk)⟩

theorem openBlock_before (s : Scanner) (column : Nat) (number : Option Nat) (kind : TokenKind)
    (m : Mark) :
    (s.before tail flag).openBlock column number kind m =
      (s.openBlock column number kind m).before tail flag ∧
    s.Stays (s.openBlock column number kind m) := by
  unfold openBlock
  rw [before_inFlow, before_indent]
  split
  · cases number <;> exact ⟨rfl, .of_eq rfl rfl⟩
  · exact ⟨rfl, .of_eq rfl rfl⟩

theorem closeBlocks_before (s : Scanner) (column : Int) (indents : List Int) :
    closeBlocks column indents (s.before tail flag) =
      (closeBlocks column indents s).before tail flag ∧
    s.Stays (closeBlocks column indents s) := by
  induction indents generalizing s with
  | nil => exact ⟨rfl, .of_eq rfl rfl⟩
  | cons outer rest ih =>
    rw [closeBlocks, closeBlocks, before_indent]
    split
    · obtain ⟨hlong, hstays⟩ :=
        ih { s.pushMark s.cursor.mark .blockEnd with indent := outer, indents := rest }
      exact ⟨hlong, ⟨hstays.cursor, hstays.keys⟩⟩
    · exact ⟨rfl, .of_eq rfl rfl⟩

theorem unindent_before (s : Scanner) (column : Int) :
    unindent column (s.before tail flag) = (unindent column s).before tail flag ∧
      s.Stays (unindent column s) := by
  unfold unindent
  rw [before_inFlow]
  split
  · exact ⟨rfl, .of_eq rfl rfl⟩
  · exact closeBlocks_before tail flag s column s.indents

theorem dropKey_before (h : s.dropKey = some s₁) :
    (s.before tail flag).dropKey = some (s₁.before tail flag) ∧ s.Stays s₁ := by
  unfold dropKey at h ⊢
  rw [before_keys]
  split at h
  · next k keys heq =>
    split at h
    · cases h
    · next hfree =>
      cases h
      rw [if_neg hfree]
      refine ⟨rfl, rfl, fun k' hk => .inl ?_⟩
      rw [heq]
      exact List.mem_cons_of_mem _ ((List.mem_cons.mp hk).resolve_left nofun)
  · cases h
    exact ⟨rfl, .of_eq rfl rfl⟩

theorem saveKey_before (h : s.saveKey = some s₁) :
    (s.before tail flag).saveKey = some (s₁.before tail flag) ∧ s.Stays s₁ := by
  unfold saveKey at h ⊢
  rw [before_keyAllowed]
  split at h
  · next hallowed =>
    obtain ⟨s₂, hdrop, heq⟩ := Option.bind_eq_some_iff.mp h
    cases heq
    obtain ⟨hlong, hstays⟩ := dropKey_before tail flag hdrop
    rw [if_pos hallowed]
    refine ⟨Option.bind_eq_some_iff.mpr ⟨_, hlong, rfl⟩, hstays.cursor, fun k hk => ?_⟩
    rcases List.mem_cons.mp hk with hk | hk
    · cases hk
      exact .inr (congrArg Cursor.mark hstays.cursor)
    · exact hstays.keys k (List.mem_of_mem_tail hk)
  · next hallowed =>
    cases h
    rw [if_neg hallowed]
    exact ⟨rfl, .of_eq rfl rfl⟩

/-- Stale keys are gone, and none of them had to be a key. -/
theorem dropStale_eq_some_iff : s.dropStale = some s₁ ↔
    (∀ k, some k ∈ s.keys → isStale s.cursor.mark k = true → k.required = false) ∧
      s₁ = { s with keys := s.keys.map (Option.filter (!isStale s.cursor.mark ·)) } := by
  have hkeys : (s.keys.map fun k => if k.any (isStale s.cursor.mark) then none else k) =
      s.keys.map (Option.filter (!isStale s.cursor.mark ·)) := by
    refine List.map_congr_left fun k _ => ?_
    cases k with
    | none => rfl
    | some k => cases hk : isStale s.cursor.mark k <;> simp [hk, Option.filter]
  unfold dropStale
  dsimp only
  rw [hkeys]
  split
  · next hrequired =>
    obtain ⟨k, hk, hboth⟩ := List.any_eq_true.mp hrequired
    obtain ⟨hstale, hrequired⟩ := Bool.and_eq_true_iff.mp hboth
    cases k with
    | none => cases hstale
    | some k => exact ⟨nofun, fun h => Bool.noConfusion ((h.1 k hk hstale).symm.trans hrequired)⟩
  · next hfree =>
    refine ⟨fun h => ⟨fun k hk hstale => ?_, (Option.some.inj h).symm⟩, fun h => by rw [h.2]; rfl⟩
    exact Bool.eq_false_iff.mpr fun hrequired => hfree <|
      List.any_eq_true.mpr ⟨some k, hk, Bool.and_eq_true_iff.mpr ⟨hstale, hrequired⟩⟩

theorem dropStale_before (h : s.dropStale = some s₁) :
    (s.before tail flag).dropStale = some (s₁.before tail flag) ∧ s.Stays s₁ := by
  obtain ⟨hfree, rfl⟩ := dropStale_eq_some_iff.mp h
  refine ⟨dropStale_eq_some_iff.mpr ⟨hfree, rfl⟩, rfl, fun k hk => .inl ?_⟩
  obtain ⟨k', hk', heq⟩ := List.mem_map.mp hk
  obtain ⟨rfl, -⟩ := Option.filter_eq_some_iff.mp heq
  exact hk'

/-! ## Gaps -/

theorem skipOrderMark_before (h : s.cursor.Inside ∨ s.cursor.AtEnd) :
    (s.before tail flag).skipOrderMark = s.skipOrderMark.before tail flag ∧
      s.cursor.Leads s.skipOrderMark.cursor ∧ s.skipOrderMark.keys = s.keys := by
  have hnext : atChar '\uFEFF' (s.cursor.before tail).rest = atChar '\uFEFF' s.cursor.rest := by
    rcases h with h | h
    · exact atChar_append h.ne_nil _ _
    · rw [before_rest, h.1]; rfl
  unfold skipOrderMark
  rw [before_cursor, before_mark, hnext]
  split
  · next hmark =>
    have hmark := (Bool.and_eq_true_iff.mp hmark).2
    have hin : s.cursor.Inside := h.resolve_right fun hend => by rw [hend.1] at hmark; cases hmark
    obtain ⟨hskip, halong⟩ := skip_atChar (s := tail) hin (by decide) hmark
    rw [hskip]
    exact ⟨rfl, halong.leads, rfl⟩
  · exact ⟨rfl, .refl h, rfl⟩

theorem skipGap_of_not {budget : List Char}
    (h : ∀ x ∈ s.cursor.rest.head?, isBlankChar x = false ∧ isBreakChar x = false ∧ x ≠ '#') :
    skipGap budget s = s := by
  cases budget with
  | nil => rfl
  | cons b budget =>
    rw [skipGap]
    split
    · rfl
    · next x r hrest =>
      rw [hrest] at h
      obtain ⟨hblank, hbreak, hcomment⟩ := h x rfl
      obtain ⟨hspace, htab⟩ := Bool.or_eq_false_iff.mp hblank
      simp only [hspace, htab, hbreak, beq_eq_false_iff_ne.mpr hcomment, Bool.false_or,
        Bool.false_and, Bool.false_eq_true, if_false]

theorem skipGap_of_atEnd (h : s.cursor.AtEnd) (budget : List Char) :
    skipGap budget (s.before tail flag) = s.before tail flag := by
  refine skipGap_of_not ?_
  rw [before_cursor, before_rest, h.1]
  intro x hx
  cases hx
  decide

/-- What is skipped between tokens of the short text is skipped in the long one. -/
theorem skipGap_before {budget budget' : List Char} (h : s.cursor.Inside ∨ s.cursor.AtEnd)
    (hb : s.cursor.rest.length ≤ budget.length) (hb' : s.cursor.rest.length ≤ budget'.length) :
    skipGap budget' (s.before tail flag) = (skipGap budget s).before tail flag ∧
      s.cursor.Leads (skipGap budget s).cursor ∧ (skipGap budget s).keys = s.keys ∧
      ∀ x ∈ (skipGap budget s).cursor.rest.head?, isBreakChar x = false := by
  induction budget generalizing budget' s with
  | nil =>
    have hend := h.resolve_left fun h => h.ne_nil (List.length_eq_zero_iff.mp (Nat.le_zero.mp hb))
    rw [skipGap_of_atEnd tail flag hend]
    exact ⟨rfl, .refl h, rfl, by rw [skipGap, hend.1]; nofun⟩
  | cons b budget ih =>
    rcases h with h | h
    · obtain ⟨b', budget', rfl⟩ := List.exists_cons_of_length_pos
        (Nat.lt_of_lt_of_le (List.length_pos_iff.mpr h.ne_nil) hb')
      obtain ⟨x, r, hrest⟩ := List.exists_cons_of_ne_nil h.ne_nil
      have hlong : (s.before tail flag).cursor.rest = x :: (r ++ separated tail) := by
        rw [before_cursor, before_rest, hrest]
        rfl
      -- What is read next is read from a place that the first character leads to.
      have hnext : ∀ s' : Scanner, s.cursor.Leads s'.cursor → s'.keys = s.keys →
          s'.cursor.rest.length < s.cursor.rest.length →
            skipGap budget' (s'.before tail flag) = (skipGap budget s').before tail flag ∧
              s.cursor.Leads (skipGap budget s').cursor ∧ (skipGap budget s').keys = s.keys ∧
              ∀ x ∈ (skipGap budget s').cursor.rest.head?, isBreakChar x = false := by
        intro s' hleads hkeys hlength
        obtain ⟨heq, hleads', hkeys', hhead⟩ := ih hleads.whole
          (Nat.le_of_lt_succ (hlength.trans_le hb)) (Nat.le_of_lt_succ (hlength.trans_le hb'))
        exact ⟨heq, hleads.trans hleads', hkeys'.trans hkeys, hhead⟩
      have htail : s.cursor.skip.rest.length < s.cursor.rest.length := by simp [skip, hrest]
      rw [skipGap, skipGap, hlong, hrest]
      dsimp only
      rw [before_inFlow, before_keyAllowed, before_cursor]
      split
      · next hblank =>
        have hx : x ≠ '\n' := by rintro rfl; cases hblank
        rw [skip_before hrest]
        exact hnext { s with cursor := s.cursor.skip } (along_skip h hrest hx).leads rfl htail
      · split
        · next hcomment =>
          rw [skipLine_before h]
          refine hnext { s with cursor := s.cursor.skipLine } (along_skipLine h).leads rfl
            (skipWhile_length hrest ?_)
          rw [beq_iff_eq.mp hcomment]
          decide
        · split
          · next hbreak =>
            have hskip : (s.cursor.before tail).skipBreak = s.cursor.skipBreak.before tail := by
              rw [skipBreak, takeBreak_before h]
              rfl
            rw [hskip]
            refine hnext { s with
              cursor := s.cursor.skipBreak, keyAllowed := s.keyAllowed || !s.inFlow }
              (leads_takeBreak h) rfl (takeBreak_length h ?_)
            rw [hrest]
            exact hbreak
          · next hbreak =>
            refine ⟨rfl, .refl (.inl h), rfl, fun y hy => ?_⟩
            rw [hrest] at hy
            cases hy
            exact Bool.eq_false_iff.mpr hbreak
    · rw [skipGap_of_atEnd tail flag h, skipGap_of_not (by rw [h.1]; nofun)]
      exact ⟨rfl, .refl (.inr h), rfl, by rw [h.1]; nofun⟩

/-! ## One token -/

/-- A character that starts a token is next. -/
structure AtToken (s : Scanner) (x : Char) (r : List Char) : Prop where
  rest : s.cursor.rest = x :: r
  char : x ≠ '\n'
  inside : s.cursor.Inside

/-- A token is read. A possible key that is new starts where it does. -/
structure Advances (s s₁ : Scanner) : Prop where
  leads : s.cursor.Leads s₁.cursor
  keys : ∀ k, some k ∈ s₁.keys → some k ∈ s.keys ∨ k.mark = s.cursor.mark

theorem AtToken.stays {x : Char} {r : List Char} (h : s.AtToken x r) (hstays : s.Stays s₁) :
    s₁.AtToken x r where
  rest := by rw [hstays.cursor]; exact h.rest
  char := h.char
  inside := by rw [hstays.cursor]; exact h.inside

theorem Stays.advances {c : Cursor} (h : s.Stays s₁) (hleads : s₁.cursor.Leads c)
    (hcursor : s₂.cursor = c) (hkeys : ∀ k, some k ∈ s₂.keys → some k ∈ s₁.keys) :
    s.Advances s₂ where
  leads := by rw [hcursor, ← h.cursor]; exact hleads
  keys k hk := h.keys k (hkeys k hk)

theorem Stays.then_advances (h : s.Stays s₁) (h' : s₁.Advances s₂) : s.Advances s₂ where
  leads := h.cursor ▸ h'.leads
  keys k hk := by
    rcases h'.keys k hk with hk | hk
    · exact h.keys k hk
    · exact .inr (hk.trans (congrArg Cursor.mark h.cursor))

/-- A step that is taken in the short text is taken in the long one. -/
def Shared (step : Scanner → Option Scanner) (s : Scanner) : Prop :=
  ∀ s₁, step s = some s₁ →
    step (s.before tail flag) = some (s₁.before tail flag) ∧ s.Advances s₁

theorem take_before {n : Nat} (kind : TokenKind) (hn : n ≤ s.cursor.rest.length) :
    (s.before tail flag).take n kind = (s.take n kind).before tail flag := by
  unfold take
  rw [before_cursor, skipMany_before hn]
  rfl

variable {x : Char} {r : List Char}

theorem AtToken.take_one (h : s.AtToken x r) (kind : TokenKind) :
    (s.before tail flag).take 1 kind = (s.take 1 kind).before tail flag ∧
      s.cursor.Leads (s.take 1 kind).cursor :=
  ⟨take_before tail flag kind (by simp [h.rest]), (along_skip h.inside h.rest h.char).leads⟩

theorem shared_directive (h : s.AtToken x r) : Shared tail flag directive s := by
  intro s₁ hstep
  obtain ⟨hunindent, hstays⟩ := unindent_before tail flag s (-1)
  obtain ⟨s₂, hdrop, hstep⟩ := Option.bind_eq_some_iff.mp hstep
  obtain ⟨hlong, hstays'⟩ := dropKey_before tail flag hdrop
  obtain ⟨⟨t, after⟩, hscan, heq⟩ := Option.bind_eq_some_iff.mp hstep
  cases heq
  have hstays := hstays.trans hstays'
  have hat := h.stays hstays
  obtain ⟨hlong', hleads⟩ := Property.scanDirective_before (s := tail) hat.inside hat.rest hat.char
    hscan
  refine ⟨?_, hstays.advances hleads rfl fun _ => id⟩
  rw [directive, hunindent]
  exact Option.bind_eq_some_iff.mpr ⟨_, hlong, Option.bind_eq_some_iff.mpr ⟨_, hlong', rfl⟩⟩

theorem shared_documentMark {y : Char} (kind : TokenKind) (h : s.AtToken x r) (hy : y ≠ '\n')
    (hmark : s.cursor.atDocumentMark y = true) : Shared tail flag (documentMark kind) s := by
  intro s₁ hstep
  obtain ⟨hunindent, hstays⟩ := unindent_before tail flag s (-1)
  obtain ⟨s₂, hdrop, heq⟩ := Option.bind_eq_some_iff.mp hstep
  cases heq
  obtain ⟨hlong, hstays'⟩ := dropKey_before tail flag hdrop
  have hstays := hstays.trans hstays'
  have htake : s₂.cursor.rest.take 3 = [y, y, y] := by
    rw [hstays.cursor]
    exact take_of_atDocumentMark hmark
  have hlength : 3 ≤ s₂.cursor.rest.length := by
    have htaken := congrArg List.length htake
    simp only [List.length_take, List.length_cons, List.length_nil] at htaken
    omega
  have halong := along_skipMany (h.stays hstays).inside (n := 3) (by simp [htake, hy.symm])
  refine ⟨?_, hstays.advances halong.leads rfl fun _ => id⟩
  rw [documentMark, hunindent]
  refine Option.bind_eq_some_iff.mpr ⟨_, hlong, ?_⟩
  rw [take_before tail flag kind hlength]
  rfl

theorem shared_openFlow (kind : TokenKind) (h : s.AtToken x r) :
    Shared tail flag (openFlow kind) s := by
  intro s₁ hstep
  obtain ⟨s₂, hsave, heq⟩ := Option.bind_eq_some_iff.mp hstep
  cases heq
  obtain ⟨hlong, hstays⟩ := saveKey_before tail flag hsave
  obtain ⟨htake, hleads⟩ := (h.stays hstays).take_one tail flag kind
  refine ⟨Option.bind_eq_some_iff.mpr ⟨_, hlong, ?_⟩, hstays.advances hleads rfl ?_⟩
  · rw [htake]
    rfl
  · exact fun k hk => (List.mem_cons.mp hk).resolve_left nofun

theorem shared_closeFlow (kind : TokenKind) (h : s.AtToken x r) :
    Shared tail flag (closeFlow kind) s := by
  intro s₁ hstep
  obtain ⟨s₂, hdrop, hstep⟩ := Option.bind_eq_some_iff.mp hstep
  obtain ⟨hlong, hstays⟩ := dropKey_before tail flag hdrop
  have hclosed : ∃ s₃,
      (if s₂.inFlow then { s₂ with flow := s₂.flow - 1, keys := s₂.keys.tail } else s₂) = s₃ ∧
      (let l := s₂.before tail flag
        if l.inFlow then { l with flow := l.flow - 1, keys := l.keys.tail } else l) =
          s₃.before tail flag ∧ s₂.Stays s₃ := by
    dsimp only
    rw [before_inFlow]
    split
    · exact ⟨_, rfl, rfl, rfl, fun k hk => .inl (List.mem_of_mem_tail hk)⟩
    · exact ⟨_, rfl, rfl, .of_eq rfl rfl⟩
  obtain ⟨s₃, heq, heq', hstays'⟩ := hclosed
  dsimp only at hstep
  rw [heq] at hstep
  cases hstep
  have hstays := hstays.trans hstays'
  obtain ⟨htake, hleads⟩ := (h.stays hstays).take_one tail flag kind
  refine ⟨Option.bind_eq_some_iff.mpr ⟨_, hlong, ?_⟩, hstays.advances hleads rfl fun _ => id⟩
  dsimp only at heq' ⊢
  rw [heq', htake]
  rfl

theorem shared_flowEntry (h : s.AtToken x r) : Shared tail flag flowEntry s := by
  intro s₁ hstep
  obtain ⟨s₂, hdrop, heq⟩ := Option.bind_eq_some_iff.mp hstep
  cases heq
  obtain ⟨hlong, hstays⟩ := dropKey_before tail flag hdrop
  obtain ⟨htake, hleads⟩ := (h.stays hstays).take_one tail flag .flowEntry
  refine ⟨Option.bind_eq_some_iff.mpr ⟨_, hlong, ?_⟩, hstays.advances hleads rfl fun _ => id⟩
  rw [htake]
  rfl

/-- A mark that may open a block collection where it stands. -/
theorem AtToken.opened (h : s.AtToken x r) {opening : TokenKind} (kind : TokenKind)
    (hdrop : (s.openBlock s.cursor.mark.column none opening s.cursor.mark).dropKey = some s₁) :
    ((s.before tail flag).openBlock s.cursor.mark.column none opening s.cursor.mark).dropKey =
        some (s₁.before tail flag) ∧
      (s₁.before tail flag).take 1 kind = (s₁.take 1 kind).before tail flag ∧
      s.Advances (s₁.take 1 kind) := by
  obtain ⟨hopen, hstays⟩ := openBlock_before tail flag s s.cursor.mark.column none opening
    s.cursor.mark
  obtain ⟨hlong, hstays'⟩ := dropKey_before tail flag hdrop
  have hstays := hstays.trans hstays'
  obtain ⟨htake, hleads⟩ := (h.stays hstays).take_one tail flag kind
  rw [← hopen] at hlong
  exact ⟨hlong, htake, hstays.advances hleads rfl fun _ => id⟩

theorem shared_blockEntry (h : s.AtToken x r) : Shared tail flag blockEntry s := by
  intro s₁ hstep
  unfold blockEntry at hstep ⊢
  rw [before_inFlow, before_keyAllowed]
  split at hstep
  · cases hstep
  · next hallowed =>
    rw [if_neg hallowed]
    obtain ⟨s₂, hdrop, heq⟩ := Option.bind_eq_some_iff.mp hstep
    cases heq
    obtain ⟨hlong, htake, hadvances⟩ := h.opened tail flag .blockEntry hdrop
    refine ⟨Option.bind_eq_some_iff.mpr ⟨_, hlong, ?_⟩, hadvances.leads, hadvances.keys⟩
    rw [htake]
    rfl

theorem shared_explicitKey (h : s.AtToken x r) : Shared tail flag explicitKey s := by
  intro s₁ hstep
  unfold explicitKey at hstep ⊢
  rw [before_inFlow, before_keyAllowed]
  split at hstep
  · cases hstep
  · next hallowed =>
    rw [if_neg hallowed]
    obtain ⟨s₂, hdrop, heq⟩ := Option.bind_eq_some_iff.mp hstep
    cases heq
    obtain ⟨hlong, htake, hadvances⟩ := h.opened tail flag .key hdrop
    refine ⟨Option.bind_eq_some_iff.mpr ⟨_, hlong, ?_⟩, hadvances.leads, hadvances.keys⟩
    rw [htake]
    rfl

theorem shared_keyToken {scan : Cursor → Option (Token × Cursor)}
    (hscan : ∀ {t : Token} {d : Cursor}, scan s.cursor = some (t, d) →
      scan (s.cursor.before tail) = some (t, d.before tail) ∧ s.cursor.Leads d) :
    Shared tail flag (keyToken scan) s := by
  intro s₁ hstep
  obtain ⟨s₂, hsave, hstep⟩ := Option.bind_eq_some_iff.mp hstep
  obtain ⟨⟨t, after⟩, hread, heq⟩ := Option.bind_eq_some_iff.mp hstep
  cases heq
  obtain ⟨hlong, hstays⟩ := saveKey_before tail flag hsave
  rw [hstays.cursor] at hread
  obtain ⟨hlong', hleads⟩ := hscan hread
  rw [← hstays.cursor] at hlong' hleads
  exact ⟨Option.bind_eq_some_iff.mpr ⟨_, hlong, Option.bind_eq_some_iff.mpr ⟨_, hlong', rfl⟩⟩,
    hstays.advances hleads rfl fun _ => id⟩

theorem shared_name (kind : List Char → TokenKind) (h : s.AtToken x r) :
    Shared tail flag (keyToken (Property.scanName kind)) s :=
  shared_keyToken tail flag fun hread =>
    (Property.scanName_before h.inside h.rest h.char hread).imp_right Along.leads

theorem shared_tag (flow : Bool) (h : s.AtToken x r) :
    Shared tail flag (keyToken (Property.scanTag flow)) s :=
  shared_keyToken tail flag fun hread =>
    (Property.scanTag_before h.inside h.rest h.char hread).imp_right Along.leads

theorem shared_quoted (single : Bool) (h : s.AtToken x r) :
    Shared tail flag (keyToken (QuotedScalar.scan single)) s :=
  shared_keyToken tail flag (QuotedScalar.scan_before h.inside h.rest h.char)

theorem shared_blockScalar (literal : Bool) (h : s.AtToken x r) :
    Shared tail flag (blockScalar literal) s := by
  intro s₁ hstep
  obtain ⟨s₂, hdrop, hstep⟩ := Option.bind_eq_some_iff.mp hstep
  obtain ⟨⟨t, after⟩, hread, heq⟩ := Option.bind_eq_some_iff.mp hstep
  cases heq
  obtain ⟨hlong, hstays⟩ := dropKey_before tail flag hdrop
  have hat := h.stays hstays
  obtain ⟨hlong', hleads⟩ := BlockScalar.scan_before (s := tail) hat.inside hat.rest hat.char hread
  exact ⟨Option.bind_eq_some_iff.mpr ⟨_, hlong, Option.bind_eq_some_iff.mpr ⟨_, hlong', rfl⟩⟩,
    hstays.advances hleads rfl fun _ => id⟩

theorem shared_plainScalar (h : s.AtToken x r) : Shared tail flag plainScalar s := by
  intro s₁ hstep
  obtain ⟨s₂, hsave, hstep⟩ := Option.bind_eq_some_iff.mp hstep
  obtain ⟨⟨t, broken, after⟩, hread, heq⟩ := Option.bind_eq_some_iff.mp hstep
  cases heq
  obtain ⟨hlong, hstays⟩ := saveKey_before tail flag hsave
  obtain ⟨hlong', hleads⟩ := Plain.scan_before (s := tail) (h.stays hstays).inside hread
  exact ⟨Option.bind_eq_some_iff.mpr ⟨_, hlong, Option.bind_eq_some_iff.mpr ⟨_, hlong', rfl⟩⟩,
    hstays.advances hleads rfl fun _ => id⟩

theorem shared_mappingValue (h : s.AtToken x r) : Shared tail flag mappingValue s := by
  intro s₁ hstep
  unfold mappingValue at hstep ⊢
  rw [before_keys]
  split at hstep
  · next k keys heq =>
    cases hstep
    -- The key goes before the token, which changes neither the place nor the keys.
    obtain ⟨hopen, hstays⟩ := openBlock_before tail flag
      (s.insert k.number ⟨k.mark, k.mark, .key⟩) k.mark.column (some k.number) .blockMappingStart
      k.mark
    generalize openBlock (s.insert k.number ⟨k.mark, k.mark, .key⟩) k.mark.column (some k.number)
      .blockMappingStart k.mark = s₂ at hopen hstays
    have hstays : s.Stays { s₂ with keys := none :: keys, keyAllowed := false } := by
      refine ⟨hstays.cursor, fun k' hk => .inl ?_⟩
      rw [heq]
      exact List.mem_cons_of_mem _ ((List.mem_cons.mp hk).resolve_left nofun)
    obtain ⟨htake, hleads⟩ := (h.stays hstays).take_one tail flag .value
    refine ⟨congrArg some ?_, hstays.advances hleads rfl fun _ => id⟩
    exact (congrArg (fun o : Scanner =>
      { o with keys := none :: keys, keyAllowed := false }.take 1 .value) hopen).trans htake
  · rw [before_inFlow, before_keyAllowed]
    split at hstep
    · cases hstep
    · next hallowed =>
      cases hstep
      obtain ⟨hopen, hstays⟩ := openBlock_before tail flag s s.cursor.mark.column none
        .blockMappingStart s.cursor.mark
      generalize s.openBlock s.cursor.mark.column none .blockMappingStart s.cursor.mark = s₂
        at hopen hstays
      have hstays : s.Stays { s₂ with keyAllowed := !s₂.inFlow } := ⟨hstays.cursor, hstays.keys⟩
      obtain ⟨htake, hleads⟩ := (h.stays hstays).take_one tail flag .value
      rw [if_neg hallowed]
      refine ⟨congrArg some ?_, hstays.advances hleads rfl fun _ => id⟩
      exact (congrArg (fun o : Scanner =>
        { o with keyAllowed := !o.inFlow }.take 1 .value) hopen).trans htake

theorem startsPlain_before {tail r : List Char} (flow : Bool) (hr : r ≠ []) :
    startsPlain flow x (r ++ tail) = startsPlain flow x r := by
  rw [startsPlain, startsPlain, atGap_append hr, atBlank_append hr]

/-- The token that is next in the short text is next in the long one. -/
theorem shared_dispatch (h : s.AtToken x r) (hstep : s.dispatch x r = some s₁) :
    (s.before tail flag).dispatch x (r ++ separated tail) = some (s₁.before tail flag) ∧
      s.Advances s₁ := by
  have hr : r ≠ [] := by
    have hin := h.inside
    rw [Inside, h.rest] at hin
    exact (hin.tail h.char).ne_nil
  unfold dispatch at hstep ⊢
  dsimp only at hstep ⊢
  rw [before_cursor, atDocumentMark_before (by decide) h.inside,
    atDocumentMark_before (by decide) h.inside, before_mark, before_inFlow, atGap_append hr,
    startsPlain_before _ hr]
  refine same_branch hstep (fun _ => shared_directive tail flag h s₁) fun _ hstep => ?_
  refine same_branch hstep
    (fun hmark => shared_documentMark tail flag .documentStart h (by decide) hmark s₁)
    fun _ hstep => ?_
  refine same_branch hstep
    (fun hmark => shared_documentMark tail flag .documentEnd h (by decide) hmark s₁)
    fun _ hstep => ?_
  refine same_branch hstep (fun _ => shared_openFlow tail flag _ h s₁) fun _ hstep => ?_
  refine same_branch hstep (fun _ => shared_openFlow tail flag _ h s₁) fun _ hstep => ?_
  refine same_branch hstep (fun _ => shared_closeFlow tail flag _ h s₁) fun _ hstep => ?_
  refine same_branch hstep (fun _ => shared_closeFlow tail flag _ h s₁) fun _ hstep => ?_
  refine same_branch hstep (fun _ => shared_flowEntry tail flag h s₁) fun _ hstep => ?_
  refine same_branch hstep (fun _ => shared_blockEntry tail flag h s₁) fun _ hstep => ?_
  refine same_branch hstep (fun _ => shared_explicitKey tail flag h s₁) fun _ hstep => ?_
  refine same_branch hstep (fun _ => shared_mappingValue tail flag h s₁) fun _ hstep => ?_
  refine same_branch hstep (fun _ => shared_name tail flag _ h s₁) fun _ hstep => ?_
  refine same_branch hstep (fun _ => shared_name tail flag _ h s₁) fun _ hstep => ?_
  refine same_branch hstep (fun _ => shared_tag tail flag _ h s₁) fun _ hstep => ?_
  refine same_branch hstep (fun _ => shared_blockScalar tail flag _ h s₁) fun _ hstep => ?_
  refine same_branch hstep (fun _ => shared_blockScalar tail flag _ h s₁) fun _ hstep => ?_
  refine same_branch hstep (fun _ => shared_quoted tail flag _ h s₁) fun _ hstep => ?_
  refine same_branch hstep (fun _ => shared_quoted tail flag _ h s₁) fun _ hstep => ?_
  exact same_branch hstep (fun _ => shared_plainScalar tail flag h s₁) fun _ hstep => by
    cases hstep

end TenantRegistry.Yaml.Scanner
