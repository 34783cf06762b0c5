import TenantRegistry.Proofs.Yaml.Prefix.Step

/-!
Tokens of a text, read in a longer one.

Up to the end of the short text both have the same tokens. There the short text has the end of the
stream and the long one the start of a document, at the same place (`Scanner.Parts`). No possible
key is left from the lines before, so neither of the two waits for a colon to come.
-/

namespace TenantRegistry.Yaml

/-- The tokens of the short text are the first ones of the long text, but that its end is the start
of a document there. -/
inductive Parted : List Token → List Token → Prop
  | cut (later : List Token) : Parted [] later
  | ends (m stop : Mark) (later : List Token) :
    Parted [⟨m, m, .streamEnd⟩] (⟨m, stop, .documentStart⟩ :: later)
  | cons (t : Token) {short long : List Token} : Parted short long → Parted (t :: short) (t :: long)

namespace Scanner

open Cursor

variable (tail : List Char) (flag : Bool) {s s₁ : Scanner}

/-! ## The end of the short text -/

/-- The place is one of a text that ends with a line, and possible keys are on lines that have been
read. At the end of the text their lines are past. -/
structure Known (s : Scanner) : Prop where
  place : s.cursor.Inside ∨ s.cursor.AtEnd
  keys : ∀ k, some k ∈ s.keys → k.mark.line ≤ s.cursor.mark.line ∧
    (s.cursor.AtEnd → k.mark.line < s.cursor.mark.line)

theorem Known.leads (h : s.Known) (hleads : s.cursor.Leads s₁.cursor) (hkeys : s₁.keys = s.keys) :
    s₁.Known where
  place := hleads.whole
  keys k hk := by
    rw [hkeys] at hk
    obtain ⟨hline, hlast⟩ := h.keys k hk
    refine ⟨hline.trans hleads.line, fun hend => ?_⟩
    rcases hleads.place with hin | ⟨-, hstart | hpast⟩
    · exact absurd hend.1 hin.ne_nil
    · exact (hlast hstart).trans_le hleads.line
    · exact hline.trans_lt hpast

theorem Advances.known (h : s.Known) (hin : s.cursor.Inside) (hadvances : s.Advances s₁) :
    s₁.Known where
  place := hadvances.leads.whole
  keys k hk := by
    have hline : k.mark.line ≤ s.cursor.mark.line := by
      rcases hadvances.keys k hk with hk | hk
      · exact (h.keys k hk).1
      · rw [hk]
    refine ⟨hline.trans hadvances.leads.line, fun hend => ?_⟩
    rcases hadvances.leads.place with hin' | ⟨-, hstart | hpast⟩
    · exact absurd hend.1 hin'.ne_nil
    · exact absurd hstart.1 hin.ne_nil
    · exact hline.trans_lt hpast

/-- No key is possible. -/
def NoKeys (s : Scanner) : Prop :=
  ∀ k, some k ∉ s.keys

theorem NoKeys.dropKey (h : s.NoKeys) : s.dropKey = some s := by
  unfold Scanner.dropKey
  split
  · next k keys heq => exact absurd (heq ▸ List.mem_cons_self) (h k)
  · rfl

theorem NoKeys.dropStale (h : s.NoKeys) : s.dropStale = some s := by
  refine dropStale_eq_some_iff.mpr ⟨fun k hk => absurd hk (h k), ?_⟩
  have hkeys : s.keys.map (Option.filter (!isStale s.cursor.mark ·)) = s.keys.map id := by
    refine List.map_congr_left fun k hk => ?_
    cases k with
    | none => rfl
    | some k => exact absurd hk (h k)
  rw [hkeys, List.map_id]

theorem NoKeys.isOpen (h : s.NoKeys) : s.isOpen = false := by
  refine List.any_eq_false.mpr fun k hk => ?_
  cases k with
  | none => exact Bool.false_ne_true
  | some k => exact absurd hk (h k)

theorem Known.noKeys (h : s.Known) (hend : s.cursor.AtEnd) (hdrop : s.dropStale = some s₁) :
    s₁.NoKeys := by
  obtain ⟨-, rfl⟩ := dropStale_eq_some_iff.mp hdrop
  intro k hk
  obtain ⟨k', hk', heq⟩ := List.mem_map.mp hk
  obtain ⟨rfl, hfresh⟩ := Option.filter_eq_some_iff.mp heq
  have hstale : isStale s.cursor.mark k = true := by
    simp [isStale, (h.keys k hk').2 hend]
  rw [hstale] at hfresh
  cases hfresh

theorem closeBlocks_keys (s : Scanner) (column : Int) (indents : List Int) :
    (closeBlocks column indents s).keys = s.keys := by
  induction indents generalizing s with
  | nil => rfl
  | cons outer rest ih =>
    rw [closeBlocks]
    split
    · exact ih _
    · rfl

theorem NoKeys.unindent (h : s.NoKeys) (column : Int) : (s.unindent column).NoKeys := by
  unfold Scanner.unindent
  split
  · exact h
  · rw [NoKeys, closeBlocks_keys]
    exact h

/-- Where the short text ends, both texts have the same tokens, and then the one has its end and the
other the start of a document. -/
structure Parts (s l : Scanner) : Prop where
  tokens : ∃ before m stop, s.pending = before ++ [⟨m, m, .streamEnd⟩] ∧
    l.pending = before ++ [⟨m, stop, .documentStart⟩]
  noKeys : s.NoKeys
  noKeys' : l.NoKeys

/-- Without possible keys, the end of the short text is the start of a document in the long one. -/
theorem documentMark_of_atEnd (h : s.NoKeys) (hend : s.cursor.AtEnd)
    (hstep : s.streamEnd = some s₁) :
    ∃ l, (s.before tail flag).documentMark .documentStart = some l ∧
      l.cursor.rest = '\n' :: tail ∧ l.faulty = flag ∧ Parts s₁ l := by
  have hclosed := h.unindent (-1)
  obtain ⟨hunindent, hstays⟩ := unindent_before tail flag s (-1)
  have hrest : (unindent (-1) s).cursor.rest = [] := hstays.cursor ▸ hend.1
  have hmark : (unindent (-1) s).cursor.mark = s.cursor.mark := by rw [hstays.cursor]
  unfold streamEnd at hstep
  dsimp only at hstep
  rw [if_pos hend.2] at hstep
  generalize unindent (-1) s = s₂ at *
  have hdrop : ((s.before tail flag).unindent (-1)).dropKey = some (s₂.before tail flag) := by
    rw [hunindent]
    exact NoKeys.dropKey (s := s₂.before tail flag) hclosed
  refine ⟨_, Option.bind_eq_some_iff.mpr ⟨_, hdrop, rfl⟩, ?_, rfl, ?_⟩
  · change ((s₂.cursor.before tail).skipMany 3).rest = '\n' :: tail
    rw [skipMany_rest, before_rest, hrest]
    rfl
  · obtain ⟨s₃, hkeep, heq⟩ := Option.bind_eq_some_iff.mp hstep
    obtain rfl : s₂ = s₃ := Option.some.inj (hclosed.dropKey.symm.trans hkeep)
    cases heq
    exact ⟨⟨s₂.pending, s.cursor.mark, _, rfl, by rw [← hmark]; rfl⟩, hclosed, hclosed⟩

theorem isStarved_before {need : Nat} (h : need ≤ 4) :
    (s.before tail flag).isStarved need = false := by
  have hlength : ¬ (s.cursor.rest ++ separated tail).length < need := by
    simp only [List.length_append, separated, List.length_cons]
    omega
  rw [isStarved, before_cursor, before_rest, decide_eq_false hlength, Bool.and_false]

theorem dispatch_of_atEnd (hflag : flag = true → tail ≠ []) (h : s.NoKeys)
    (hend : s.cursor.AtEnd) (hstep : s.streamEnd = some s₁) :
    ∃ l, (s.before tail flag).dispatch '-' ('-' :: '-' :: '\n' :: tail) = some l ∧
      l.isStarved 2 = false ∧ Parts s₁ l := by
  obtain ⟨l, hmark, hrest, hfaulty, hparts⟩ := documentMark_of_atEnd tail flag h hend hstep
  refine ⟨l, ?_, ?_, hparts⟩
  · have hpercent : ('-' == '%') = false := rfl
    rw [dispatch, hpercent, Bool.and_false, if_neg Bool.false_ne_true, before_cursor,
      if_pos (atDocumentMark_of_atEnd hend), hmark]
  · rw [isStarved, hrest, hfaulty]
    cases flag with
    | false => rfl
    | true =>
      have htail : 0 < tail.length := List.length_pos_iff.mpr (hflag rfl)
      simp only [List.length_cons, Bool.true_and, decide_eq_false_iff_not]
      omega

/-- The next token is the same in both texts, up to the end of the short one. -/
theorem fetch_before (hflag : flag = true → tail ≠ []) (h : s.Known) (hfetch : s.fetch = some s₁) :
    ((s.before tail flag).fetch = some (s₁.before tail flag) ∧ s₁.Known) ∨
      ∃ l, (s.before tail flag).fetch = some l ∧ Parts s₁ l := by
  obtain ⟨hmark, hleads, hkeys⟩ := skipOrderMark_before tail flag h.place
  have hknown := h.leads hleads hkeys
  unfold fetch at hfetch ⊢
  dsimp only at hfetch ⊢
  rw [hmark]
  generalize s.skipOrderMark = g at hfetch hknown
  obtain ⟨hgap, hleads', hkeys', hhead⟩ := skipGap_before tail flag hknown.place (Nat.le_refl _)
    (length_le_before g.cursor tail)
  have hknown := hknown.leads hleads' hkeys'
  rw [before_cursor, hgap]
  generalize skipGap g.cursor.rest g = g at hfetch hknown hhead
  rw [isStarved_before tail flag (Nat.le_refl _)]
  split at hfetch
  · cases hfetch
  obtain ⟨s₂, hdrop, hfetch⟩ := Option.bind_eq_some_iff.mp hfetch
  obtain ⟨hlong, hstays⟩ := dropStale_before tail flag hdrop
  obtain ⟨hunindent, hstays'⟩ := unindent_before tail flag s₂ s₂.cursor.mark.column
  suffices hsuff : (_ = some (s₁.before tail flag) ∧ s₁.Known) ∨ ∃ l, _ = some l ∧ Parts s₁ l from
    hsuff.imp (fun hsame => ⟨Option.bind_eq_some_iff.mpr ⟨_, hlong, hsame.1⟩, hsame.2⟩)
      fun ⟨l, hl, hparts⟩ => ⟨l, Option.bind_eq_some_iff.mpr ⟨_, hlong, hl⟩, hparts⟩
  rw [before_cursor, before_mark, hunindent]
  rcases hknown.place with hin | hend
  · left
    obtain ⟨x, r, hrest⟩ := List.exists_cons_of_ne_nil hin.ne_nil
    have hx : x ≠ '\n' := by
      rintro rfl
      rw [hrest] at hhead
      cases hhead _ rfl
    have hstays := hstays.trans hstays'
    have hat : (s₂.unindent s₂.cursor.mark.column).AtToken x r :=
      AtToken.stays ⟨hrest, hx, hin⟩ hstays
    generalize s₂.unindent s₂.cursor.mark.column = s₃ at hfetch hat hstays
    have hbefore : (s₃.before tail flag).cursor.rest = x :: (r ++ separated tail) := by
      rw [before_cursor, before_rest, hat.rest]
      rfl
    rw [hat.rest] at hfetch
    rw [hbefore]
    obtain ⟨s₄, hdispatch, hfetch⟩ := Option.bind_eq_some_iff.mp hfetch
    split at hfetch
    · cases hfetch
    cases hfetch
    obtain ⟨hlong', hadvances⟩ := shared_dispatch tail flag hat hdispatch
    refine ⟨Option.bind_eq_some_iff.mpr ⟨_, hlong', ?_⟩, ?_⟩
    · rw [isStarved_before tail flag (by decide)]
      rfl
    · exact (hstays.then_advances hadvances).known hknown hin
  · right
    have hno := (hknown.noKeys hend hdrop).unindent s₂.cursor.mark.column
    have hend : (s₂.unindent s₂.cursor.mark.column).cursor.AtEnd := by
      rw [hstays'.cursor, hstays.cursor]
      exact hend
    generalize s₂.unindent s₂.cursor.mark.column = s₃ at hfetch hno hend
    have hbefore : (s₃.before tail flag).cursor.rest = '-' :: '-' :: '-' :: '\n' :: tail := by
      rw [before_cursor, before_rest, hend.1]
      rfl
    rw [hend.1] at hfetch
    rw [hbefore]
    obtain ⟨l, hdispatch, hstarved, hparts⟩ := dispatch_of_atEnd tail flag hflag hno hend hfetch
    refine ⟨l, Option.bind_eq_some_iff.mpr ⟨_, hdispatch, ?_⟩, hparts⟩
    rw [hstarved]
    rfl

/-! ## All tokens -/

theorem releaseAll_parts {l : Scanner} {fuel fuel' : Nat} (h : Parts s l) (hfuel : fuel ≤ fuel') :
    Parted (releaseAll fuel s).1 (releaseAll fuel' l).1 := by
  obtain ⟨⟨before, m, stop, hshort, hlong⟩, hno, hno'⟩ := h
  induction before generalizing s l fuel fuel' with
  | nil =>
    cases fuel with
    | zero => exact .cut _
    | succ fuel =>
      obtain ⟨fuel', rfl⟩ := Nat.exists_eq_add_of_le' (Nat.one_le_of_lt hfuel)
      rw [releaseAll, releaseAll]
      simp only [hshort, hlong, hno.dropStale, hno'.dropStale, hno.isOpen, hno'.isOpen,
        List.nil_append, Bool.false_eq_true, if_false, if_true, reduceCtorEq]
      exact .ends ..
  | cons t before ih =>
    cases fuel with
    | zero => exact .cut _
    | succ fuel =>
      obtain ⟨fuel', rfl⟩ := Nat.exists_eq_add_of_le' (Nat.one_le_of_lt hfuel)
      rw [releaseAll, releaseAll]
      simp only [hshort, hlong, hno.dropStale, hno'.dropStale, hno.isOpen, hno'.isOpen,
        List.cons_append, Bool.false_eq_true, if_false]
      split
      · exact .cons t (.cut _)
      · exact .cons t (ih (Nat.le_of_succ_le_succ hfuel) hno hno' rfl rfl)

theorem Known.dropStale (h : s.Known) (hdrop : s.dropStale = some s₁) : s₁.Known := by
  obtain ⟨-, rfl⟩ := dropStale_eq_some_iff.mp hdrop
  refine ⟨h.place, fun k hk => h.keys k ?_⟩
  obtain ⟨k', hk', heq⟩ := List.mem_map.mp hk
  obtain ⟨rfl, -⟩ := Option.filter_eq_some_iff.mp heq
  exact hk'

/-- The tokens of the short text are those that the long text starts with. -/
theorem releaseAll_before {fuel fuel' : Nat} (hflag : flag = true → tail ≠ []) (h : s.Known)
    (hfuel : fuel ≤ fuel') :
    Parted (releaseAll fuel s).1 (releaseAll fuel' (s.before tail flag)).1 := by
  induction fuel generalizing s fuel' with
  | zero => exact .cut _
  | succ fuel ih =>
    obtain ⟨fuel', rfl⟩ := Nat.exists_eq_add_of_le' (Nat.one_le_of_lt hfuel)
    have hfuel := Nat.le_of_succ_le_succ hfuel
    have hfetched : ∀ {s s₁ : Scanner}, s.Known → s.fetch = some s₁ →
        ∃ l, (s.before tail flag).fetch = some l ∧
          Parted (releaseAll fuel s₁).1 (releaseAll fuel' l).1 := by
      intro s s₁ h hfetch
      rcases fetch_before tail flag hflag h hfetch with ⟨hlong, hknown⟩ | ⟨l, hlong, hparts⟩
      · exact ⟨_, hlong, ih hknown hfuel⟩
      · exact ⟨l, hlong, releaseAll_parts hparts hfuel⟩
    rw [releaseAll, releaseAll, before_pending]
    cases hpending : s.pending with
    | nil =>
      cases hfetch : s.fetch with
      | none => exact .cut _
      | some s₁ =>
        obtain ⟨l, hlong, hparted⟩ := hfetched h hfetch
        rw [hlong]
        exact hparted
    | cons t later =>
      dsimp only
      cases hdrop : s.dropStale with
      | none => exact .cut _
      | some s₁ =>
        rw [(dropStale_before tail flag hdrop).1]
        have hknown := h.dropStale hdrop
        have hopen : (s₁.before tail flag).isOpen = s₁.isOpen := rfl
        dsimp only
        rw [hopen]
        split
        · cases hfetch : s₁.fetch with
          | none => exact .cut _
          | some s₂ =>
            obtain ⟨l, hlong, hparted⟩ := hfetched hknown hfetch
            rw [hlong]
            exact hparted
        · split
          · exact .cons t (.cut _)
          · exact .cons t (ih (s := { s₁ with pending := later, released := s₁.released + 1 })
              ⟨hknown.place, hknown.keys⟩ hfuel)

end Scanner

/-! ## Whole texts -/

namespace Source

variable {cs portion : List Char} {room : Nat}

/-- What can be read of a text are its first characters, or all of them if none is forbidden. -/
theorem read_isPrefix (room : Nat) (portion cs : List Char) :
    (read room portion cs).text <+: portion.reverse ++ cs ∧
      ((read room portion cs).faulty = false →
        (read room portion cs).text = portion.reverse ++ cs) := by
  induction cs generalizing room portion with
  | nil => simp [read]
  | cons c rest ih =>
    rw [read]
    split
    · split
      · simpa using ih (room - c.utf8Size) (c :: portion)
      · exact ⟨List.nil_prefix, nofun⟩
    · split
      · obtain ⟨hinitial, hwhole⟩ := ih (portionSize - c.utf8Size) [c]
        exact ⟨(List.prefix_append_right_inj _).mpr hinitial, fun hfaulty =>
          congrArg (portion.reverse ++ ·) (hwhole hfaulty)⟩
      · exact ⟨List.prefix_append _ _, nofun⟩

theorem allowed_of_read (h : ∀ c ∈ portion, isAllowedChar c = true) :
    ∀ c ∈ (read room portion cs).text, isAllowedChar c = true := by
  induction cs generalizing room portion with
  | nil => simpa [read] using h
  | cons c rest ih =>
    rw [read]
    split
    · split
      · next hc => exact ih (List.forall_mem_cons.mpr ⟨hc, h⟩)
      · nofun
    · split
      · next hc =>
        refine List.forall_mem_append.mpr ⟨fun d hd => h d (List.mem_reverse.mp hd), ih ?_⟩
        exact List.forall_mem_singleton.mpr hc
      · exact fun d hd => h d (List.mem_reverse.mp hd)

theorem read_of_allowed (h : ∀ c ∈ cs, isAllowedChar c = true) :
    (read room portion cs).faulty = false := by
  induction cs generalizing room portion with
  | nil => rfl
  | cons c rest ih =>
    obtain ⟨hc, hrest⟩ := List.forall_mem_cons.mp h
    rw [read, if_pos hc, if_pos hc]
    split
    · exact ih hrest
    · exact ih hrest

theorem ofText_of_allowed (h : ∀ c ∈ cs, isAllowedChar c = true) : ofText cs = ⟨cs, false⟩ := by
  have hfaulty : (ofText cs).faulty = false := read_of_allowed h
  have htext : (ofText cs).text = cs := (read_isPrefix portionSize [] cs).2 hfaulty
  calc ofText cs
    _ = ⟨(ofText cs).text, (ofText cs).faulty⟩ := rfl
    _ = ⟨cs, false⟩ := by rw [htext, hfaulty]

/-- Reading goes beyond the first `n` characters: if the text holds a forbidden character, the
portion with the first one starts after more than `n` characters. -/
def ReadsBeyond (n : Nat) (cs : List Char) : Prop :=
  (ofText cs).faulty = true → n < (ofText cs).text.length

instance (n : Nat) (cs : List Char) : Decidable (ReadsBeyond n cs) :=
  inferInstanceAs (Decidable (_ → _))

/-- A text that is read beyond some first characters has no forbidden one among them. What follows
them is read whole, or up to a place that is not its start. -/
theorem ofText_append {before cs : List Char} (h : ReadsBeyond before.length (before ++ cs)) :
    (∀ c ∈ before, isAllowedChar c = true) ∧
      ∃ tail flag, ofText (before ++ cs) = ⟨before ++ tail, flag⟩ ∧ (flag = true → tail ≠ []) := by
  have hallowed : ∀ c ∈ (ofText (before ++ cs)).text, isAllowedChar c = true :=
    allowed_of_read nofun
  obtain ⟨hinitial, hwhole⟩ := read_isPrefix portionSize [] (before ++ cs)
  unfold ReadsBeyond at h
  change (ofText (before ++ cs)).text <+: before ++ cs at hinitial
  change (ofText (before ++ cs)).faulty = false →
    (ofText (before ++ cs)).text = before ++ cs at hwhole
  generalize ofText (before ++ cs) = source at *
  obtain ⟨text, flag⟩ := source
  have hbefore : before <+: text := by
    cases flag with
    | false =>
      have htext : text = before ++ cs := hwhole rfl
      exact htext ▸ List.prefix_append before cs
    | true =>
      exact List.prefix_of_prefix_length_le (List.prefix_append before cs) hinitial (h rfl).le
  obtain ⟨tail, rfl⟩ := hbefore
  refine ⟨fun c hc => hallowed c (List.mem_append_left _ hc), tail, flag, rfl, ?_⟩
  rintro hflag rfl
  have hlength := h hflag
  simp at hlength

end Source

/-- The tokens of a text that ends with a line are the first ones of the text that goes on with a
line `---`, if that is read beyond this line. -/
theorem Token.ofText_parted {before cs : List Char} (hlines : before = [] ∨ EndsLine before)
    (h : Source.ReadsBeyond (before.length + 4) (before ++ separated cs)) :
    Parted (Token.ofText before).1 (Token.ofText (before ++ separated cs)).1 := by
  have hsplit : before ++ separated cs = (before ++ ['-', '-', '-', '\n']) ++ cs := by
    simp [separated]
  rw [hsplit] at h ⊢
  have hlength : (before ++ ['-', '-', '-', '\n']).length = before.length + 4 := List.length_append
  rw [← hlength] at h
  obtain ⟨hallowed, tail, flag, hlong, hflag⟩ := Source.ofText_append h
  have hshort : Source.ofText before = ⟨before, false⟩ :=
    Source.ofText_of_allowed fun c hc => hallowed c (List.mem_append_left _ hc)
  have hinitial : Scanner.ofSource ⟨(before ++ ['-', '-', '-', '\n']) ++ tail, flag⟩ =
      (Scanner.ofSource ⟨before, false⟩).before tail flag := by
    simp [Scanner.ofSource, Scanner.before, Cursor.before, separated]
  have hknown : (Scanner.ofSource ⟨before, false⟩).Known := by
    refine ⟨hlines.symm.imp_right fun hnil => ⟨hnil, rfl⟩, fun k hk => ?_⟩
    cases List.mem_singleton.mp hk
  unfold Token.ofText
  dsimp only
  rw [hlong, hshort, hinitial]
  exact Scanner.releaseAll_before tail flag hflag hknown
    (by simp only [List.length_append]; omega)

end TenantRegistry.Yaml
