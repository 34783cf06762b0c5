import TenantRegistry.Proofs.Json.Grammar

/-!
Which texts are JSON.

Reading derives a value from what it takes off a text, and takes every value of the grammar off a
text that goes on with anything but more of a number. So a text is well-formed exactly if the
grammar derives it: `isWellFormed_iff`.
-/

namespace TenantRegistry.Json.Grammar

open Written

/-! ## What is read is derived -/

theorem eq_append_of_takeWord {word : String} {value w : Written} {cs rest : List Char}
    (h : takeWord word value cs = some (w, rest)) : cs = word.toList ++ rest := by
  unfold takeWord at h
  split at h
  · next hprefix =>
    cases h
    rw [List.isPrefixOf_iff_prefix] at hprefix
    obtain ⟨tail, rfl⟩ := hprefix
    rw [← String.length_toList, List.drop_left]
  · cases h

mutual

theorem value_of_takeValue : ∀ {fuel : Nat} {cs rest : List Char} {w : Written},
    takeValue fuel cs = some (w, rest) → ∃ a v, cs = a ++ (v ++ rest) ∧ Space a ∧ Value v
  | 0, cs, rest, w, h => by cases h
  | fuel + 1, cs, rest, w, h => by
    unfold takeValue at h
    split at h
    · cases h
    · next c tail hskip =>
      obtain ⟨a, rfl, ha⟩ := exists_of_skipSpace hskip
      refine ⟨a, ?_⟩
      suffices ∃ v, c :: tail = v ++ rest ∧ Value v by
        obtain ⟨v, htail, hv⟩ := this
        exact ⟨v, by rw [htail], ha, hv⟩
      split at h
      · next hc =>
        subst hc
        split at h
        · next after hend =>
          obtain ⟨b, rfl, hb⟩ := exists_of_skipSpace hend
          cases h
          exact ⟨_, by simp, .emptyObject hb⟩
        · next hend =>
          obtain ⟨b, hrest, hb⟩ := exists_skipSpace tail
          simp only [Option.bind_eq_bind, Option.bind_eq_some_iff] at h
          obtain ⟨⟨e, after⟩, hentry, ⟨es, after'⟩, hentries, heq⟩ := h
          cases heq
          obtain ⟨b', m, hm, hb', hmember⟩ := member_of_takeEntry hentry
          obtain ⟨more, rfl, hmore⟩ := more_of_takeEntries hentries
          refine ⟨_, ?_, .object (hb.append hb') hmember hmore⟩
          rw [hrest, hm]
          simp only [List.cons_append, List.append_assoc, List.nil_append]
      · split at h
        · next hc =>
          subst hc
          split at h
          · next after hend =>
            obtain ⟨b, rfl, hb⟩ := exists_of_skipSpace hend
            cases h
            exact ⟨_, by simp, .emptyArray hb⟩
          · next hend =>
            obtain ⟨b, hrest, hb⟩ := exists_skipSpace tail
            simp only [Option.bind_eq_bind, Option.bind_eq_some_iff] at h
            obtain ⟨⟨x, after⟩, hread, ⟨xs, after'⟩, hitems, heq⟩ := h
            cases heq
            obtain ⟨b', v, hv, hb', hvalue⟩ := value_of_takeValue hread
            obtain ⟨more, rfl, hmore⟩ := more_of_takeItems hitems
            refine ⟨_, ?_, .array (hb.append hb') hvalue hmore⟩
            rw [hrest, hv]
            simp only [List.cons_append, List.append_assoc, List.nil_append]
        · split at h
          · next hc =>
            subst hc
            obtain ⟨⟨s, after⟩, hstring, heq⟩ := Option.bind_eq_some_iff.mp h
            cases heq
            obtain ⟨v, hv, htail⟩ := text_of_takeString hstring
            exact ⟨v, htail, .string hv⟩
          · split at h
            · exact ⟨_, eq_append_of_takeWord h, .word (by decide)⟩
            · split at h
              · exact ⟨_, eq_append_of_takeWord h, .word (by decide)⟩
              · split at h
                · exact ⟨_, eq_append_of_takeWord h, .word (by decide)⟩
                · obtain ⟨⟨n, after⟩, hnumber, heq⟩ := Option.bind_eq_some_iff.mp h
                  cases heq
                  obtain ⟨v, hv, htail⟩ := number_of_takeNumber hnumber
                  exact ⟨v, htail, .number hv⟩

theorem more_of_takeItems : ∀ {fuel : Nat} {cs rest : List Char} {ws : List Written},
    takeItems fuel cs = some (ws, rest) → ∃ more, cs = more ++ ']' :: rest ∧ MoreItems more
  | 0, cs, rest, w, h => by cases h
  | fuel + 1, cs, rest, w, h => by
    unfold takeItems at h
    split at h
    · next hskip =>
      obtain ⟨a, rfl, ha⟩ := exists_of_skipSpace hskip
      cases h
      exact ⟨a, rfl, .done ha⟩
    · next tail hskip =>
      obtain ⟨a, rfl, ha⟩ := exists_of_skipSpace hskip
      simp only [Option.bind_eq_bind, Option.bind_eq_some_iff] at h
      obtain ⟨⟨x, after⟩, hvalue, ⟨xs, after'⟩, hitems, heq⟩ := h
      cases heq
      obtain ⟨b, v, rfl, hb, hv⟩ := value_of_takeValue hvalue
      obtain ⟨more, rfl, hmore⟩ := more_of_takeItems hitems
      exact ⟨_, by simp, .more ha hb hv hmore⟩
    · cases h

theorem member_of_takeEntry : ∀ {fuel : Nat} {cs rest : List Char} {e : Option String × Written},
    takeEntry fuel cs = some (e, rest) → ∃ a m, cs = a ++ (m ++ rest) ∧ Space a ∧ Member m
  | 0, cs, rest, e, h => by cases h
  | fuel + 1, cs, rest, e, h => by
    unfold takeEntry at h
    split at h
    · next tail hskip =>
      obtain ⟨a, rfl, ha⟩ := exists_of_skipSpace hskip
      simp only [Option.bind_eq_bind, Option.bind_eq_some_iff] at h
      obtain ⟨⟨k, after⟩, hkey, h⟩ := h
      obtain ⟨k', hk', hsplit⟩ := text_of_takeString hkey
      dsimp only at h
      split at h
      · next tail' hcolon =>
        obtain ⟨b, rfl, hb⟩ := exists_of_skipSpace hcolon
        simp only [Option.bind_eq_some_iff] at h
        obtain ⟨⟨v, after'⟩, hvalue, heq⟩ := h
        cases heq
        obtain ⟨b', v', rfl, hb', hv⟩ := value_of_takeValue hvalue
        exact ⟨a, _, by rw [hsplit]; simp, ha, .mk hk' hb hb' hv⟩
      · cases h
    · cases h

theorem more_of_takeEntries : ∀ {fuel : Nat} {cs rest : List Char}
    {es : List (Option String × Written)}, takeEntries fuel cs = some (es, rest) →
      ∃ more, cs = more ++ '\x7d' :: rest ∧ MoreMembers more
  | 0, cs, rest, w, h => by cases h
  | fuel + 1, cs, rest, w, h => by
    unfold takeEntries at h
    split at h
    · next hskip =>
      obtain ⟨a, rfl, ha⟩ := exists_of_skipSpace hskip
      cases h
      exact ⟨a, rfl, .done ha⟩
    · next tail hskip =>
      obtain ⟨a, rfl, ha⟩ := exists_of_skipSpace hskip
      simp only [Option.bind_eq_bind, Option.bind_eq_some_iff] at h
      obtain ⟨⟨x, after⟩, hentry, ⟨xs, after'⟩, hentries, heq⟩ := h
      cases heq
      obtain ⟨b, m, rfl, hb, hm⟩ := member_of_takeEntry hentry
      obtain ⟨more, rfl, hmore⟩ := more_of_takeEntries hentries
      exact ⟨_, by simp, .more ha hb hm hmore⟩
    · cases h

end

/-! ## Starts and ends -/

/-- A value starts neither with space nor with a bracket or brace that closes. -/
theorem Value.exists_cons {v : List Char} (h : Value v) :
    ∃ c cs, v = c :: cs ∧ isSpace c = false ∧ c ≠ ']' := by
  cases h with
  | word h =>
    simp only [List.mem_cons, List.not_mem_nil, or_false] at h
    rcases h with rfl | rfl | rfl
    · exact ⟨'n', _, rfl, by decide, by decide⟩
    · exact ⟨'t', _, rfl, by decide, by decide⟩
    · exact ⟨'f', _, rfl, by decide, by decide⟩
  | number h =>
    obtain ⟨c, cs, rfl, hc | rfl⟩ := h.exists_cons
    · have hne : ∀ d, d.isDigit = false → c ≠ d := fun d hd => ne_of_isDigit hc hd
      refine ⟨c, cs, rfl, ?_, hne _ rfl⟩
      simp [isSpace, hne ' ' rfl, hne '\t' rfl, hne '\n' rfl, hne '\r' rfl]
    · exact ⟨'-', cs, rfl, by decide, by decide⟩
  | string h => cases h; exact ⟨'"', _, rfl, by decide, by decide⟩
  | emptyArray _ => exact ⟨'[', _, rfl, by decide, by decide⟩
  | array _ _ _ => exact ⟨'[', _, rfl, by decide, by decide⟩
  | emptyObject _ => exact ⟨'\x7b', _, rfl, by decide, by decide⟩
  | object _ _ _ => exact ⟨'\x7b', _, rfl, by decide, by decide⟩

theorem Member.exists_cons {m : List Char} (h : Member m) : ∃ cs, m = '"' :: cs := by
  cases h with
  | mk hk _ _ _ => cases hk; exact ⟨_, rfl⟩

theorem endsNumber_space {a cs : List Char} (ha : Space a) (hcs : EndsNumber cs) :
    EndsNumber (a ++ cs) := by
  cases a with
  | nil => exact hcs
  | cons c a =>
    rintro c' ⟨⟩
    rcases ha c List.mem_cons_self with rfl | rfl | rfl | rfl <;> decide

theorem MoreItems.endsNumber {more : List Char} (h : MoreItems more) (rest : List Char) :
    EndsNumber (more ++ ']' :: rest) := by
  cases h with
  | done ha => exact endsNumber_space ha (endsNumber_cons (.inr (.inl rfl)) _)
  | more ha _ _ _ =>
    rw [List.append_assoc]
    exact endsNumber_space ha (endsNumber_cons (.inl rfl) _)

theorem MoreMembers.endsNumber {more : List Char} (h : MoreMembers more) (rest : List Char) :
    EndsNumber (more ++ '\x7d' :: rest) := by
  cases h with
  | done ha => exact endsNumber_space ha (endsNumber_cons (.inr (.inr rfl)) _)
  | more ha _ _ _ =>
    rw [List.append_assoc]
    exact endsNumber_space ha (endsNumber_cons (.inl rfl) _)

/-- Space before a value is passed over. -/
theorem takeValue_space {a : List Char} (h : Space a) (fuel : Nat) (cs : List Char) :
    takeValue fuel (a ++ cs) = takeValue fuel cs := by
  cases fuel with
  | zero => rfl
  | succ fuel => rw [takeValue, takeValue, skipSpace_append h]

theorem takeEntry_space {a : List Char} (h : Space a) (fuel : Nat) (cs : List Char) :
    takeEntry fuel (a ++ cs) = takeEntry fuel cs := by
  cases fuel with
  | zero => rfl
  | succ fuel => rw [takeEntry, takeEntry, skipSpace_append h]

/-! ## Reading by one rule -/

section

variable {a b v m more rest : List Char} {fuel : Nat} {w : Written} {ws : List Written}
  {e : Option String × Written} {es : List (Option String × Written)}

theorem takeValue_of_takeNumber {n : NumberText} (h : Number v)
    (hn : takeNumber (v ++ rest) = some (n, rest)) :
    takeValue (fuel + 1) (v ++ rest) = some (.number n, rest) := by
  obtain ⟨c, cs, rfl, hc⟩ := h.exists_cons
  have hne : ∀ d, d.isDigit = false → d ≠ '-' → c ≠ d := by
    intro d hd hminus
    rcases hc with hc | rfl
    · exact ne_of_isDigit hc hd
    · exact hminus.symm
  have hspace : isSpace c = false := by
    simp [isSpace, hne ' ' rfl, hne '\t' rfl, hne '\n' rfl, hne '\r' rfl]
  rw [List.cons_append] at hn ⊢
  rw [takeValue, skipSpace_of_not_space hspace]
  simp [hne '\x7b' rfl, hne '[' rfl, hne '"' rfl, hne 'n' rfl, hne 't' rfl, hne 'f' rfl, hn]

theorem takeValue_of_takeString {s : Option String}
    (h : takeString (v ++ '"' :: rest) = some (s, rest)) :
    takeValue (fuel + 1) ('"' :: (v ++ ['"']) ++ rest) = some (.string s, rest) := by
  rw [List.cons_append, List.append_assoc, takeValue, skipSpace_of_not_space (by decide)]
  simp [h]

theorem takeValue_emptyArray (ha : Space a) :
    takeValue (fuel + 1) ('[' :: (a ++ [']']) ++ rest) = some (.array [], rest) := by
  have hend : skipSpace (']' :: rest) = ']' :: rest := skipSpace_of_not_space (by decide) _
  rw [List.cons_append, List.append_assoc, takeValue, skipSpace_of_not_space (by decide)]
  simp [skipSpace_append ha, hend]

theorem takeValue_array (ha : Space a) (hv : Value v)
    (hx : takeValue fuel (v ++ (more ++ ']' :: rest)) = some (w, more ++ ']' :: rest))
    (hxs : takeItems fuel (more ++ ']' :: rest) = some (ws, rest)) :
    takeValue (fuel + 1) ('[' :: (a ++ (v ++ (more ++ [']']))) ++ rest) =
      some (.array (w :: ws), rest) := by
  -- The head of the first item has to be in sight for the reader to see that there is one.
  obtain ⟨c, cs, rfl, hspace, hc⟩ := hv.exists_cons
  rw [List.cons_append] at hx
  simp only [List.cons_append, List.append_assoc, List.nil_append]
  rw [takeValue, skipSpace_of_not_space (by decide)]
  simp [skipSpace_append ha, skipSpace_of_not_space hspace, hc, hx, hxs]

theorem takeValue_emptyObject (ha : Space a) :
    takeValue (fuel + 1) ('\x7b' :: (a ++ ['\x7d']) ++ rest) = some (.object [], rest) := by
  have hend : skipSpace ('\x7d' :: rest) = '\x7d' :: rest := skipSpace_of_not_space (by decide) _
  rw [List.cons_append, List.append_assoc, takeValue, skipSpace_of_not_space (by decide)]
  simp [skipSpace_append ha, hend]

theorem takeValue_object (ha : Space a) (hm : Member m)
    (hx : takeEntry fuel (m ++ (more ++ '\x7d' :: rest)) = some (e, more ++ '\x7d' :: rest))
    (hxs : takeEntries fuel (more ++ '\x7d' :: rest) = some (es, rest)) :
    takeValue (fuel + 1) ('\x7b' :: (a ++ (m ++ (more ++ ['\x7d']))) ++ rest) =
      some (.object (e :: es), rest) := by
  obtain ⟨cs, rfl⟩ := hm.exists_cons
  rw [List.cons_append] at hx
  simp only [List.cons_append, List.append_assoc, List.nil_append]
  rw [takeValue, skipSpace_of_not_space (by decide)]
  simp [skipSpace_append ha, skipSpace_of_not_space, isSpace, hx, hxs]

theorem takeItems_done (ha : Space a) :
    takeItems (fuel + 1) (a ++ ']' :: rest) = some ([], rest) := by
  rw [takeItems, skipSpace_append ha, skipSpace_of_not_space (by decide)]
  rfl

theorem takeItems_more (ha : Space a) (hb : Space b)
    (hx : takeValue fuel (v ++ (more ++ ']' :: rest)) = some (w, more ++ ']' :: rest))
    (hxs : takeItems fuel (more ++ ']' :: rest) = some (ws, rest)) :
    takeItems (fuel + 1) (a ++ ',' :: (b ++ (v ++ more)) ++ ']' :: rest) =
      some (w :: ws, rest) := by
  simp only [List.cons_append, List.append_assoc]
  rw [takeItems, skipSpace_append ha, skipSpace_of_not_space (by decide)]
  simp [takeValue_space hb, hx, hxs]

theorem takeEntry_of_takeString {k : Option String} {cs : List Char} (ha : Space a) (hb : Space b)
    (hk : takeString (cs ++ '"' :: (a ++ ':' :: (b ++ (v ++ rest)))) =
      some (k, a ++ ':' :: (b ++ (v ++ rest))))
    (hx : takeValue fuel (v ++ rest) = some (w, rest)) :
    takeEntry (fuel + 1) ('"' :: (cs ++ ['"']) ++ (a ++ ':' :: (b ++ v)) ++ rest) =
      some ((k, w), rest) := by
  have hcolon : ∀ cs, skipSpace (':' :: cs) = ':' :: cs := skipSpace_of_not_space (by decide)
  simp only [List.cons_append, List.append_assoc, List.nil_append]
  rw [takeEntry, skipSpace_of_not_space (by decide)]
  simp [hk, skipSpace_append ha, hcolon, takeValue_space hb, hx]

theorem takeEntries_done (ha : Space a) :
    takeEntries (fuel + 1) (a ++ '\x7d' :: rest) = some ([], rest) := by
  rw [takeEntries, skipSpace_append ha, skipSpace_of_not_space (by decide)]
  rfl

theorem takeEntries_more (ha : Space a) (hb : Space b)
    (hx : takeEntry fuel (m ++ (more ++ '\x7d' :: rest)) = some (e, more ++ '\x7d' :: rest))
    (hxs : takeEntries fuel (more ++ '\x7d' :: rest) = some (es, rest)) :
    takeEntries (fuel + 1) (a ++ ',' :: (b ++ (m ++ more)) ++ '\x7d' :: rest) =
      some (e :: es, rest) := by
  simp only [List.cons_append, List.append_assoc]
  rw [takeEntries, skipSpace_append ha, skipSpace_of_not_space (by decide)]
  simp [takeEntry_space hb, hx, hxs]

end

/-! ## What is derived is read -/

mutual

theorem Value.exists_takeValue : ∀ {v rest : List Char} (fuel : Nat), Value v →
    EndsNumber rest → 2 * v.length ≤ fuel → ∃ w, takeValue fuel (v ++ rest) = some (w, rest)
  | v, rest, 0, h, _, hfuel => by
    obtain ⟨c, cs, rfl, -⟩ := h.exists_cons
    rw [List.length_cons] at hfuel
    omega
  | _, rest, fuel + 1, .word h, _, _ => by
    simp only [List.mem_cons, List.not_mem_nil, or_false] at h
    rcases h with rfl | rfl | rfl <;> exact ⟨_, rfl⟩
  | _, rest, fuel + 1, .number h, hrest, _ => by
    obtain ⟨n, hn⟩ := h.exists_takeNumber hrest
    exact ⟨_, takeValue_of_takeNumber h hn⟩
  | _, rest, fuel + 1, .string h, _, _ => by
    obtain ⟨h⟩ := h
    obtain ⟨s, hs⟩ := h.exists_takeString rest
    exact ⟨_, takeValue_of_takeString hs⟩
  | _, rest, fuel + 1, .emptyArray ha, _, _ => ⟨_, takeValue_emptyArray ha⟩
  | _, rest, fuel + 1, @Value.array a v more ha hv hmore, _, hfuel => by
    simp only [List.length_cons, List.length_append, List.length_nil] at hfuel
    obtain ⟨x, hx⟩ := hv.exists_takeValue fuel (hmore.endsNumber rest) (by omega)
    obtain ⟨xs, hxs⟩ := hmore.exists_takeItems rest fuel (by omega)
    exact ⟨_, takeValue_array ha hv hx hxs⟩
  | _, rest, fuel + 1, .emptyObject ha, _, _ => ⟨_, takeValue_emptyObject ha⟩
  | _, rest, fuel + 1, @Value.object a m more ha hm hmore, _, hfuel => by
    simp only [List.length_cons, List.length_append, List.length_nil] at hfuel
    obtain ⟨x, hx⟩ := hm.exists_takeEntry fuel (hmore.endsNumber rest) (by omega)
    obtain ⟨xs, hxs⟩ := hmore.exists_takeEntries rest fuel (by omega)
    exact ⟨_, takeValue_object ha hm hx hxs⟩

theorem MoreItems.exists_takeItems : ∀ {more : List Char} (rest : List Char) (fuel : Nat),
    MoreItems more → 2 * (more.length + 1) ≤ fuel →
      ∃ ws, takeItems fuel (more ++ ']' :: rest) = some (ws, rest)
  | _, rest, 0, _, hfuel => by omega
  | _, rest, fuel + 1, .done ha, _ => ⟨_, takeItems_done ha⟩
  | _, rest, fuel + 1, @MoreItems.more _ _ v more ha hb hv hmore, hfuel => by
    simp only [List.length_cons, List.length_append] at hfuel
    obtain ⟨x, hx⟩ := hv.exists_takeValue fuel (hmore.endsNumber rest) (by omega)
    obtain ⟨xs, hxs⟩ := hmore.exists_takeItems rest fuel (by omega)
    exact ⟨_, takeItems_more ha hb hx hxs⟩

theorem Member.exists_takeEntry : ∀ {m rest : List Char} (fuel : Nat), Member m →
    EndsNumber rest → 2 * m.length ≤ fuel → ∃ e, takeEntry fuel (m ++ rest) = some (e, rest)
  | _, rest, 0, h, _, hfuel => by
    obtain ⟨cs, rfl⟩ := h.exists_cons
    rw [List.length_cons] at hfuel
    omega
  | _, rest, fuel + 1, @Member.mk _ a b v hk ha hb hv, hrest, hfuel => by
    simp only [List.length_cons, List.length_append] at hfuel
    obtain ⟨x, hx⟩ := hv.exists_takeValue fuel hrest (by omega)
    obtain ⟨hk⟩ := hk
    obtain ⟨k, hk⟩ := hk.exists_takeString (a ++ ':' :: (b ++ (v ++ rest)))
    exact ⟨_, takeEntry_of_takeString ha hb hk hx⟩

theorem MoreMembers.exists_takeEntries : ∀ {more : List Char} (rest : List Char) (fuel : Nat),
    MoreMembers more → 2 * (more.length + 1) ≤ fuel →
      ∃ es, takeEntries fuel (more ++ '\x7d' :: rest) = some (es, rest)
  | _, rest, 0, _, hfuel => by omega
  | _, rest, fuel + 1, .done ha, _ => ⟨_, takeEntries_done ha⟩
  | _, rest, fuel + 1, @MoreMembers.more _ _ m more ha hb hm hmore, hfuel => by
    simp only [List.length_cons, List.length_append] at hfuel
    obtain ⟨x, hx⟩ := hm.exists_takeEntry fuel (hmore.endsNumber rest) (by omega)
    obtain ⟨xs, hxs⟩ := hmore.exists_takeEntries rest fuel (by omega)
    exact ⟨_, takeEntries_more ha hb hx hxs⟩

end

/-! ## Whole texts -/

/-- A text is read exactly if the grammar derives it. -/
theorem document_iff {cs : List Char} : (ofText? cs).isSome = true ↔ Document cs := by
  unfold ofText?
  constructor
  · intro h
    obtain ⟨w, hw⟩ := Option.isSome_iff_exists.mp h
    simp only [Option.bind_eq_bind, Option.bind_eq_some_iff] at hw
    obtain ⟨⟨v, rest⟩, hvalue, hend⟩ := hw
    obtain ⟨a, v', rfl, ha, hv⟩ := value_of_takeValue hvalue
    split at hend
    · next hempty => exact .mk ha hv (skipSpace_eq_nil.mp hempty)
    · cases hend
  · rintro ⟨ha, hv, hb⟩
    rename_i a v b
    have hends : EndsNumber b := by
      have hnone : EndsNumber [] := fun c hc => by cases hc
      simpa using endsNumber_space hb hnone
    obtain ⟨w, hw⟩ := hv.exists_takeValue (2 * (a ++ (v ++ b)).length + 2) hends
      (by simp only [List.length_append]; omega)
    have hempty : skipSpace b = [] := List.isEmpty_iff.mp (skipSpace_eq_nil.mpr hb)
    rw [takeValue_space ha, hw]
    simp [hempty]

end Grammar

theorem isWellFormed_iff {s : String} : isWellFormed s = true ↔ Grammar.Document s.toList :=
  Grammar.document_iff

/-- Neither the size of a number nor half a surrogate pair matters, but a byte-order mark does. -/
example : isWellFormed " [-1e999, \"\\ud800\"]\n" = true ∧ isWellFormed "\uFEFF{}" = false := by
  decide

end TenantRegistry.Json
