import Mathlib.Data.List.TakeWhile
import TenantRegistry.Yaml.Token.Basic

/-!
Places in a text, seen in a longer one.

A text that is empty or ends with a line feed goes on with a line `---` and more. `Cursor.before` is
a place of the short text as a place of the long one. Whatever reads on from there finds the same
characters until the short text ends, and that it ends at the start of a line. So a reader that gets
through in the short text does the same in the long one; `Leads` says where it may stop, and `Along`
where it stops if it stays on its line.
-/

namespace TenantRegistry.Yaml

/-- A line `---` and the text after it. -/
def separated (s : List Char) : List Char :=
  '-' :: '-' :: '-' :: '\n' :: s

/-- A text whose last character is a line feed. -/
def EndsLine (cs : List Char) : Prop :=
  cs.getLast? = some '\n'

theorem EndsLine.ne_nil {cs : List Char} (h : EndsLine cs) : cs ≠ [] := by
  rintro rfl
  cases h

theorem EndsLine.tail {c : Char} {cs : List Char} (h : EndsLine (c :: cs)) (hc : c ≠ '\n') :
    EndsLine cs := by
  cases cs with
  | nil => exact absurd (Option.some.inj h) hc
  | cons d cs => rwa [EndsLine, List.getLast?_cons_cons] at h

theorem EndsLine.drop {cs : List Char} (h : EndsLine cs) {n : Nat} (hn : '\n' ∉ cs.take n) :
    EndsLine (cs.drop n) := by
  have hsplit : (cs.take n ++ cs.drop n).getLast? = some '\n' := by rwa [List.take_append_drop]
  rw [List.getLast?_append] at hsplit
  cases hdrop : (cs.drop n).getLast? with
  | some c => rw [hdrop] at hsplit; exact hdrop.trans hsplit
  | none =>
    rw [hdrop] at hsplit
    exact absurd (List.mem_of_getLast? hsplit) hn

/-- What a conditional gives in the short text it gives in the long one, if its branches do. -/
theorem same_branch {α : Type} {p q : Prop} [Decidable p] {x y x' y' : Option α} {a b : α}
    (h : (if p then x else y) = some a) (hpos : p → x = some a → x' = some b ∧ q)
    (hneg : ¬ p → y = some a → y' = some b ∧ q) : (if p then x' else y') = some b ∧ q := by
  split
  · next hp =>
    rw [if_pos hp] at h
    exact hpos hp h
  · next hp =>
    rw [if_neg hp] at h
    exact hneg hp h

namespace Cursor

variable {s : List Char}

/-- A place of a text, in the text that goes on with a line `---` and `s`. -/
def before (s : List Char) (c : Cursor) : Cursor :=
  ⟨c.rest ++ separated s, c.mark⟩

@[simp] theorem before_mark (c : Cursor) : (c.before s).mark = c.mark := rfl

@[simp] theorem before_rest (c : Cursor) : (c.before s).rest = c.rest ++ separated s := rfl

theorem before_cons (x : Char) (r : List Char) (m : Mark) :
    before s ⟨x :: r, m⟩ = ⟨x :: (r ++ separated s), m⟩ := rfl

theorem length_le_before (c : Cursor) (s : List Char) :
    c.rest.length ≤ (c.before s).rest.length := by
  simp

/-- There is text to come, and it ends with a line feed. -/
def Inside (c : Cursor) : Prop :=
  EndsLine c.rest

/-- The end of a text, at the start of a line. -/
def AtEnd (c : Cursor) : Prop :=
  c.rest = [] ∧ c.mark.column = 0

/-- A reader that starts at `c` may stop at `d`. If it comes to the end, it passes a line break. -/
structure Leads (c d : Cursor) : Prop where
  line : c.mark.line ≤ d.mark.line
  length : d.rest.length ≤ c.rest.length
  place : d.Inside ∨ d.AtEnd ∧ (c.AtEnd ∨ c.mark.line < d.mark.line)

/-- A reader that starts at `c` stops at `d` on the same line, before the line ends. -/
structure Along (c d : Cursor) : Prop where
  line : d.mark.line = c.mark.line
  length : d.rest.length ≤ c.rest.length
  inside : d.Inside

variable {c d e : Cursor}

theorem Along.leads (h : c.Along d) : c.Leads d :=
  ⟨Nat.le_of_eq h.line.symm, h.length, .inl h.inside⟩

theorem Along.refl (h : c.Inside) : c.Along c :=
  ⟨rfl, Nat.le_refl _, h⟩

theorem Along.trans (h : c.Along d) (h' : d.Along e) : c.Along e :=
  ⟨h'.line.trans h.line, Nat.le_trans h'.length h.length, h'.inside⟩

theorem Leads.whole (h : c.Leads d) : d.Inside ∨ d.AtEnd :=
  h.place.imp_right And.left

theorem Leads.refl (h : c.Inside ∨ c.AtEnd) : c.Leads c :=
  ⟨Nat.le_refl _, Nat.le_refl _, h.imp_right fun h => ⟨h, .inl h⟩⟩

theorem Leads.trans (h : c.Leads d) (h' : d.Leads e) : c.Leads e := by
  refine ⟨Nat.le_trans h.line h'.line, Nat.le_trans h'.length h.length, ?_⟩
  rcases h'.place with hinside | ⟨hend, hd | hline⟩
  · exact .inl hinside
  · -- The end is reached before `e`.
    rcases h.place with hinside | ⟨-, hc | hline⟩
    · exact absurd hd.1 hinside.ne_nil
    · exact .inr ⟨hend, .inl hc⟩
    · exact .inr ⟨hend, .inr (Nat.lt_of_lt_of_le hline h'.line)⟩
  · exact .inr ⟨hend, .inr (Nat.lt_of_le_of_lt h.line hline)⟩

/-- The next character of a place inside. If it is no line feed there is more to come. -/
theorem Inside.cases (h : c.Inside) :
    ∃ x r m, c = ⟨x :: r, m⟩ ∧ (x ≠ '\n' → EndsLine r) := by
  obtain ⟨rest, m⟩ := c
  obtain ⟨x, r, rfl⟩ : ∃ x r, rest = x :: r := List.exists_cons_of_ne_nil h.ne_nil
  exact ⟨x, r, m, rfl, fun hx => EndsLine.tail h hx⟩

/-! ## One character or several -/

theorem skip_before {x : Char} {r : List Char} (h : c.rest = x :: r) :
    (c.before s).skip = c.skip.before s := by
  simp [skip, before, h, nextWidth]

theorem along_skip {x : Char} {r : List Char} (h : c.Inside) (hrest : c.rest = x :: r)
    (hx : x ≠ '\n') : c.Along c.skip where
  line := rfl
  length := by simp [skip]
  inside := by
    rw [Inside, hrest] at h
    simpa [Inside, skip, hrest] using h.tail hx

theorem skipMany_rest (n : Nat) (c : Cursor) : (c.skipMany n).rest = c.rest.drop n := by
  induction n generalizing c with
  | zero => rfl
  | succ n ih => rw [skipMany, ih, skip, List.drop_tail]

theorem skipMany_line (n : Nat) (c : Cursor) : (c.skipMany n).mark.line = c.mark.line := by
  induction n generalizing c with
  | zero => rfl
  | succ n ih => rw [skipMany, ih]; rfl

theorem skipMany_before {n : Nat} (h : n ≤ c.rest.length) :
    (c.before s).skipMany n = (c.skipMany n).before s := by
  induction n generalizing c with
  | zero => rfl
  | succ n ih =>
    obtain ⟨x, r, hrest⟩ := List.exists_cons_of_length_pos (by omega : 0 < c.rest.length)
    rw [skipMany, skipMany, skip_before hrest]
    refine ih ?_
    rw [hrest, List.length_cons] at h
    simp only [skip, hrest, List.tail_cons]
    omega

theorem along_skipMany {n : Nat} (h : c.Inside) (hn : '\n' ∉ c.rest.take n) :
    c.Along (c.skipMany n) where
  line := skipMany_line n c
  length := by rw [skipMany_rest, List.length_drop]; omega
  inside := by rw [Inside, skipMany_rest]; exact h.drop hn

/-! ## Runs -/

theorem takeWhile_append {p : Char → Bool} {cs : List Char} (h : EndsLine cs) (hp : p '\n' = false)
    (tail : List Char) : (cs ++ tail).takeWhile p = cs.takeWhile p := by
  rw [List.takeWhile_append, if_neg]
  intro hlength
  -- A run as long as the text holds the line feed at its end.
  have hrun : cs.takeWhile p = cs := (List.takeWhile_prefix p).eq_of_length hlength
  have hmem : '\n' ∈ cs.takeWhile p := by
    rw [hrun]
    exact List.mem_of_getLast? h
  rw [List.mem_takeWhile_imp hmem] at hp
  cases hp

theorem takeWhile_before {p : Char → Bool} (h : c.Inside) (hp : p '\n' = false) :
    (c.before s).takeWhile p = ((c.takeWhile p).1, (c.takeWhile p).2.before s) := by
  simp only [takeWhile, before_rest, takeWhile_append h hp]
  rw [skipMany_before (List.takeWhile_prefix p).length_le]

theorem along_takeWhile {p : Char → Bool} (h : c.Inside) (hp : p '\n' = false) :
    c.Along (c.takeWhile p).2 := by
  refine along_skipMany h ?_
  rw [List.prefix_iff_eq_take.mp (List.takeWhile_prefix p) |>.symm]
  intro hmem
  rw [List.mem_takeWhile_imp hmem] at hp
  cases hp

theorem skipWhile_before {p : Char → Bool} (h : c.Inside) (hp : p '\n' = false) :
    (c.before s).skipWhile p = (c.skipWhile p).before s := by
  rw [skipWhile, takeWhile_before h hp]
  rfl

theorem along_skipWhile {p : Char → Bool} (h : c.Inside) (hp : p '\n' = false) :
    c.Along (c.skipWhile p) :=
  along_takeWhile h hp

theorem skipWhile_length {p : Char → Bool} {x : Char} {r : List Char} (hrest : c.rest = x :: r)
    (hx : p x = true) : (c.skipWhile p).rest.length < c.rest.length := by
  rw [skipWhile, takeWhile, skipMany_rest, List.length_drop, hrest, List.takeWhile_cons_of_pos hx,
    List.length_cons, List.length_cons]
  omega

theorem skipLine_before (h : c.Inside) : (c.before s).skipLine = c.skipLine.before s :=
  skipWhile_before h (by decide)

theorem along_skipLine (h : c.Inside) : c.Along c.skipLine :=
  along_skipWhile h (by decide)

/-- What follows a run does not go on with it. -/
theorem head_takeWhile {p : Char → Bool} : ∀ x ∈ (c.takeWhile p).2.rest.head?, p x = false := by
  intro x hx
  have hdrop : (c.takeWhile p).2.rest = c.rest.dropWhile p := by
    rw [takeWhile, skipMany_rest]
    have hsplit : c.rest.takeWhile p ++ c.rest.dropWhile p = c.rest :=
      List.takeWhile_append_dropWhile
    calc c.rest.drop (c.rest.takeWhile p).length
      _ = (c.rest.takeWhile p ++ c.rest.dropWhile p).drop (c.rest.takeWhile p).length := by
        rw [hsplit]
      _ = c.rest.dropWhile p := List.drop_left
  have hhead := List.head?_dropWhile_not p c.rest
  rw [hdrop, Option.mem_def] at hx
  rwa [hx] at hhead

/-- What follows the rest of a line is its break. -/
theorem atBreak_takeWhile (h : c.Inside) :
    atBreak (c.takeWhile (!isBreakChar ·)).2.rest = true := by
  have hhead := head_takeWhile (c := c) (p := (!isBreakChar ·))
  have halong : c.Along (c.takeWhile (!isBreakChar ·)).2 := along_takeWhile h (by decide)
  obtain ⟨x, r, hrest⟩ := List.exists_cons_of_ne_nil halong.inside.ne_nil
  rw [hrest] at hhead ⊢
  simpa [atBreak] using hhead x rfl

/-! ## Line breaks -/

/-- A break that is no CR with a line feed behind it. -/
theorem takeBreak_cons {x : Char} {r : List Char} {m : Mark} (h : x = '\r' → r.head? ≠ some '\n') :
    takeBreak ⟨x :: r, m⟩ =
      if x == '\u2028' || x == '\u2029' then ([x], ⟨r, m.newLine x.utf8Size⟩)
      else if isBreakChar x then (['\n'], ⟨r, m.newLine x.utf8Size⟩) else ([], ⟨x :: r, m⟩) := by
  unfold takeBreak
  split
  · next heq =>
    cases heq
    exact absurd rfl (h rfl)
  · next heq => cases heq; rfl
  · next heq => cases heq

theorem takeBreak_before (h : c.Inside) :
    (c.before s).takeBreak = (c.takeBreak.1, c.takeBreak.2.before s) := by
  obtain ⟨x, r, m, rfl, htail⟩ := h.cases
  by_cases hcr : x = '\r' ∧ r.head? = some '\n'
  · obtain ⟨rfl, hr⟩ := hcr
    cases r with
    | nil => cases hr
    | cons y r => cases hr; rfl
  · rw [before_cons, takeBreak_cons, takeBreak_cons]
    · split
      · rfl
      · split <;> rfl
    · exact fun hx hr => hcr ⟨hx, hr⟩
    · -- After a CR the short text has more, so the next character is the same in both.
      intro hx hr
      have hne : r ≠ [] := (htail (by rw [hx]; decide)).ne_nil
      obtain ⟨y, r', rfl⟩ := List.exists_cons_of_ne_nil hne
      exact hcr ⟨hx, hr⟩

/-- A break is passed to the start of the next line; without one nothing is read. -/
theorem takeBreak_cases (h : c.Inside) :
    (atBreak c.rest = false ∧ c.takeBreak = ([], c)) ∨
    (atBreak c.rest = true ∧ ∃ text r width, c.takeBreak = (text, ⟨r, c.mark.newLine width⟩) ∧
      (r = [] ∨ EndsLine r) ∧ r.length < c.rest.length) := by
  obtain ⟨x, r, m, rfl, htail⟩ := h.cases
  by_cases hcr : x = '\r' ∧ r.head? = some '\n'
  · obtain ⟨rfl, hr⟩ := hcr
    obtain ⟨y, r, rfl⟩ := List.exists_cons_of_ne_nil (htail (by decide)).ne_nil
    cases hr
    refine .inr ⟨by rfl, ['\n'], r, 2, rfl, ?_, by simp only [List.length_cons]; omega⟩
    cases r with
    | nil => exact .inl rfl
    | cons z r =>
      refine .inr ?_
      have hend := htail (by decide)
      rwa [EndsLine, List.getLast?_cons_cons] at hend
  · rw [takeBreak_cons fun hx hr => hcr ⟨hx, hr⟩]
    have hr : r = [] ∨ EndsLine r := by
      cases r with
      | nil => exact .inl rfl
      | cons y r =>
        refine .inr ?_
        have hend : EndsLine (x :: y :: r) := h
        rwa [EndsLine, List.getLast?_cons_cons] at hend
    split
    · next hx =>
      refine .inr ⟨?_, [x], r, x.utf8Size, rfl, hr, Nat.lt_succ_self _⟩
      rw [Bool.or_eq_true, beq_iff_eq, beq_iff_eq] at hx
      rcases hx with rfl | rfl <;> rfl
    · split
      · next hbreak => exact .inr ⟨hbreak, ['\n'], r, x.utf8Size, rfl, hr, Nat.lt_succ_self _⟩
      · next hbreak => exact .inl ⟨by simpa [atBreak] using hbreak, rfl⟩

theorem leads_takeBreak (h : c.Inside) : c.Leads c.takeBreak.2 := by
  rcases takeBreak_cases h with ⟨-, heq⟩ | ⟨-, text, r, width, heq, hr, hlength⟩
  · rw [heq]
    exact .refl (.inl h)
  · rw [heq]
    have hline : c.mark.line < (c.mark.newLine width).line := Nat.lt_succ_self _
    exact ⟨hline.le, hlength.le, hr.symm.imp_right fun hr => ⟨⟨hr, rfl⟩, .inr hline⟩⟩

theorem takeBreak_length (h : c.Inside) (hbreak : atBreak c.rest = true) :
    c.takeBreak.2.rest.length < c.rest.length := by
  rcases takeBreak_cases h with ⟨hnone, -⟩ | ⟨-, text, r, width, heq, -, hlength⟩
  · rw [hbreak] at hnone
    cases hnone
  · rw [heq]
    exact hlength

/-! ## What is next -/

theorem atGap_append {cs : List Char} (h : cs ≠ []) (tail : List Char) :
    atGap (cs ++ tail) = atGap cs := by
  obtain ⟨x, r, rfl⟩ := List.exists_cons_of_ne_nil h
  rfl

theorem atBlank_append {cs : List Char} (h : cs ≠ []) (tail : List Char) :
    atBlank (cs ++ tail) = atBlank cs := by
  obtain ⟨x, r, rfl⟩ := List.exists_cons_of_ne_nil h
  rfl

theorem atBreak_append {cs : List Char} (h : cs ≠ []) (tail : List Char) :
    atBreak (cs ++ tail) = atBreak cs := by
  obtain ⟨x, r, rfl⟩ := List.exists_cons_of_ne_nil h
  rfl

theorem atLineEnd_append {cs : List Char} (h : cs ≠ []) (tail : List Char) :
    atLineEnd (cs ++ tail) = atLineEnd cs := by
  obtain ⟨x, r, rfl⟩ := List.exists_cons_of_ne_nil h
  rfl

theorem head?_append {cs : List Char} (h : cs ≠ []) (tail : List Char) :
    (cs ++ tail).head? = cs.head? := by
  obtain ⟨x, r, rfl⟩ := List.exists_cons_of_ne_nil h
  rfl

theorem atChar_append {cs : List Char} (h : cs ≠ []) (c : Char) (tail : List Char) :
    atChar c (cs ++ tail) = atChar c cs := by
  obtain ⟨x, r, rfl⟩ := List.exists_cons_of_ne_nil h
  rfl

/-- A character that is next and no line feed is passed on its line. -/
theorem skip_atChar {x : Char} (h : c.Inside) (hx : x ≠ '\n') (hnext : atChar x c.rest = true) :
    (c.before s).skip = c.skip.before s ∧ c.Along c.skip := by
  obtain ⟨y, r, hrest⟩ := List.exists_cons_of_ne_nil h.ne_nil
  rw [hrest] at hnext
  obtain rfl : x = y := beq_iff_eq.mp hnext
  exact ⟨skip_before hrest, along_skip h hrest hx⟩

/-- A document mark that starts in the short text ends there too, at the line feed at the latest. -/
theorem atDocumentMark_before {x : Char} (hx : x ≠ '\n') (h : c.Inside) :
    (c.before s).atDocumentMark x = c.atDocumentMark x := by
  obtain ⟨rest, m⟩ := c
  have hne : ('\n' == x) = false := beq_eq_false_iff_ne.mpr hx.symm
  match rest, h with
  | [], h => exact absurd rfl h.ne_nil
  | [a], h =>
    obtain rfl : a = '\n' := Option.some.inj h
    simp only [atDocumentMark, before, separated, List.cons_append, List.nil_append, hne,
      Bool.false_and]
  | [a, b], h =>
    obtain rfl : b = '\n' := Option.some.inj h
    simp only [atDocumentMark, before, separated, List.cons_append, List.nil_append, hne,
      Bool.false_and, Bool.and_false]
  | [a, b, d], h =>
    obtain rfl : d = '\n' := Option.some.inj h
    simp only [atDocumentMark, before, separated, List.cons_append, List.nil_append, hne,
      Bool.false_and, Bool.and_false]
  | a :: b :: d :: e :: rest, h => rfl

theorem take_of_atDocumentMark {x : Char} (h : c.atDocumentMark x = true) :
    c.rest.take 3 = [x, x, x] := by
  unfold atDocumentMark at h
  obtain ⟨-, h⟩ := Bool.and_eq_true_iff.mp h
  split at h
  · next heq =>
    simp only [Bool.and_eq_true, beq_iff_eq] at h
    rw [heq, h.1.1.1, h.1.1.2, h.1.2]
    rfl
  · cases h

/-- The line after the short text starts with a document mark. -/
theorem atDocumentMark_of_atEnd (h : c.AtEnd) : (c.before s).atDocumentMark '-' = true := by
  obtain ⟨rest, m⟩ := c
  obtain ⟨rfl, hcolumn⟩ := h
  dsimp only at hcolumn
  simp [atDocumentMark, before, separated, hcolumn, atGap, isBreakChar]

/-- The rest of a line without content ends with the line feed in the short text. -/
theorem skipLineEnd?_before (h : c.Inside) (hskip : c.skipLineEnd? = some d) :
    (c.before s).skipLineEnd? = some (d.before s) ∧ c.Leads d := by
  unfold skipLineEnd? at hskip ⊢
  dsimp only at hskip ⊢
  have halong : c.Along (c.skipWhile isBlankChar) := along_skipWhile h (by decide)
  rw [skipWhile_before h (by decide)]
  generalize c.skipWhile isBlankChar = e at hskip halong
  rw [before_rest, atChar_append halong.inside.ne_nil]
  have hcomment : ∃ e', (if atChar '#' e.rest = true then e.skipLine else e) = e' ∧
      (if atChar '#' e.rest = true then (e.before s).skipLine else e.before s) = e'.before s ∧
        c.Along e' := by
    split
    · exact ⟨_, rfl, skipLine_before halong.inside, halong.trans (along_skipLine halong.inside)⟩
    · exact ⟨_, rfl, rfl, halong⟩
  obtain ⟨e', heq, heq', halong'⟩ := hcomment
  rw [heq] at hskip
  rw [heq', before_rest, atLineEnd_append halong'.inside.ne_nil]
  split at hskip
  · next hend =>
    cases hskip
    rw [if_pos hend]
    refine ⟨?_, halong'.leads.trans (leads_takeBreak halong'.inside)⟩
    rw [skipBreak, takeBreak_before halong'.inside]
    rfl
  · cases hskip

end Cursor

open Cursor

/-! ## Gaps -/

theorem Gap.read_of_not {indent : Int} {budget : List Char} {g : Gap} {c : Cursor}
    (hblank : atBlank c.rest = false) (hbreak : atBreak c.rest = false) :
    Gap.read indent budget g c = some (g, c) := by
  cases budget with
  | nil => rfl
  | cons b budget =>
    obtain ⟨rest, m⟩ := c
    cases rest with
    | nil => rfl
    | cons x r =>
      have hblank : isBlankChar x = false := hblank
      have hbreak : isBreakChar x = false := hbreak
      simp only [Gap.read, hblank, hbreak, Bool.false_eq_true, if_false]

/-- Where the short text ends, a gap ends in both. -/
theorem Gap.read_of_nil (s : List Char) {indent : Int} (budget : List Char) (g : Gap) {c : Cursor}
    (h : c.rest = []) :
    Gap.read indent budget g c = some (g, c) ∧
      Gap.read indent budget g (c.before s) = some (g, c.before s) := by
  refine ⟨Gap.read_of_not ?_ ?_, Gap.read_of_not ?_ ?_⟩
  · rw [h]; rfl
  · rw [h]; rfl
  · rw [before_rest, h]; rfl
  · rw [before_rest, h]; rfl

/-- A gap is the same in the long text, also where it ends with the short one. It is not empty if a
blank or a break comes next. -/
theorem Gap.read_before {s : List Char} {indent : Int} {budget budget' : List Char} {g g' : Gap}
    {c d : Cursor} (h : c.Inside ∨ c.AtEnd) (hb : c.rest.length ≤ budget.length)
    (hb' : c.rest.length ≤ budget'.length) (hread : Gap.read indent budget g c = some (g', d)) :
    Gap.read indent budget' g (c.before s) = some (g', d.before s) ∧ c.Leads d ∧
      ((atBlank c.rest || atBreak c.rest) = true → d.rest.length < c.rest.length) := by
  induction budget generalizing budget' g c with
  | nil =>
    have hrest : c.rest = [] := List.length_eq_zero_iff.mp (Nat.le_zero.mp hb)
    cases hread
    exact ⟨(Gap.read_of_nil s budget' _ hrest).2, .refl h, by rw [hrest]; nofun⟩
  | cons b budget ih =>
    rcases h with h | h
    · obtain ⟨x, r, m, rfl, -⟩ := h.cases
      obtain ⟨b', budget', rfl⟩ := List.exists_cons_of_length_pos (Nat.zero_lt_of_lt hb')
      -- What is read next is read from a place that the first character leads to.
      have hnext : ∀ {e : Cursor} {g₁ : Gap}, Leads ⟨x :: r, m⟩ e → e.rest.length ≤ r.length →
          Gap.read indent budget g₁ e = some (g', d) →
            Gap.read indent budget' g₁ (e.before s) = some (g', d.before s) ∧
              Leads ⟨x :: r, m⟩ d ∧ ((atBlank (x :: r) || atBreak (x :: r)) = true →
                d.rest.length < (x :: r).length) := by
        intro e g₁ he hlength hread
        obtain ⟨hlong, hd, -⟩ := ih he.whole (hlength.trans (Nat.le_of_succ_le_succ hb))
          (hlength.trans (Nat.le_of_succ_le_succ hb')) hread
        exact ⟨hlong, he.trans hd, fun _ => Nat.lt_succ_of_le (hd.length.trans hlength)⟩
      rw [Gap.read] at hread
      rw [before_cons, Gap.read]
      dsimp only at hread ⊢
      refine same_branch hread (fun hblank hread => ?_) fun hblank hread => ?_
      · have hx : x ≠ '\n' := by rintro rfl; cases hblank
        have hskip := (along_skip h rfl hx).leads
        refine same_branch hread (fun _ hread => ?_) fun _ => hnext hskip (Nat.le_refl _)
        exact same_branch hread (fun _ htab => nomatch htab) fun _ => hnext hskip (Nat.le_refl _)
      refine same_branch hread (fun hbreak hread => ?_) fun hbreak hread => ?_
      · have hleads := leads_takeBreak h
        have hlength := Nat.le_of_lt_succ (takeBreak_length h hbreak)
        rw [← before_cons, takeBreak_before h]
        exact same_branch hread (fun _ => hnext hleads hlength) fun _ => hnext hleads hlength
      cases hread
      refine ⟨rfl, .refl (.inl h), fun hgap => ?_⟩
      rcases Bool.or_eq_true_iff.mp hgap with hgap | hgap
      · exact absurd hgap hblank
      · exact absurd hgap hbreak
    · rw [(Gap.read_of_nil s _ g h.1).1] at hread
      cases hread
      exact ⟨(Gap.read_of_nil s budget' _ h.1).2, .refl (.inr h), by rw [h.1]; nofun⟩

end TenantRegistry.Yaml
