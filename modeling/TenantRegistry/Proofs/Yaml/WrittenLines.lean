import TenantRegistry.Proofs.Yaml.LineStarts

/-!
No line of a written value begins with `---`, whatever strings it holds.

Scalars are written so that no line begins with three dashes: plain ones have no line breaks and
do not begin so themselves, the later lines of others are indented, or their breaks escaped.
Collections add single dashes, spaces and the signs of entries. `reaches_write` is by induction on
the value.
-/

namespace TenantRegistry.Yaml

open LineStart

variable {p : Char → Bool} {s : LineStart}

/-! ## Numbers -/

/-- The characters of numbers. -/
def isNumberChar (c : Char) : Bool :=
  c.isDigit || ".e+-infa".toList.contains c

/-- A number without its sign. -/
def Unsigned (cs : List Char) : Prop :=
  (∀ c ∈ cs, isNumberChar c = true) ∧ cs.head? ≠ some '-'

instance (cs : List Char) : Decidable (Unsigned cs) :=
  decidable_of_iff (cs.all isNumberChar = true ∧ cs.head? ≠ some '-')
    (and_congr List.all_eq_true Iff.rfl)

theorem isNumberChar_of_isDigit {c : Char} (h : c.isDigit = true) : isNumberChar c = true := by
  rw [isNumberChar, h, Bool.true_or]

theorem forall_isDigit_toDigits (n : Nat) : ∀ c ∈ Nat.toDigits 10 n, c.isDigit = true :=
  fun _ => Nat.isDigit_of_mem_toDigits (by decide) (by decide)

theorem forall_isDigit_zeros (n : Nat) : ∀ c ∈ Binary64.zeros n, c.isDigit = true := by
  intro c hc
  rw [List.eq_of_mem_replicate hc]
  rfl

namespace Unsigned

theorem cons {c : Char} {cs : List Char} (hc : isNumberChar c = true) (hdash : c ≠ '-')
    (h : ∀ d ∈ cs, isNumberChar d = true) : Unsigned (c :: cs) :=
  ⟨List.forall_mem_cons.mpr ⟨hc, h⟩, by simpa using hdash⟩

theorem append {digits cs : List Char} (h : ∀ c ∈ digits, c.isDigit = true) (hcs : Unsigned cs) :
    Unsigned (digits ++ cs) := by
  cases digits with
  | nil => exact hcs
  | cons d rest =>
    obtain ⟨hd, hrest⟩ := List.forall_mem_cons.mp h
    refine .cons (isNumberChar_of_isDigit hd) (by rintro rfl; cases hd) fun c hc => ?_
    rcases List.mem_append.mp hc with hc | hc
    · exact isNumberChar_of_isDigit (hrest c hc)
    · exact hcs.1 c hc

theorem of_digits {digits : List Char} (h : ∀ c ∈ digits, c.isDigit = true) : Unsigned digits := by
  rw [← List.append_nil digits]
  exact append h (by decide)

theorem positional {digits : List Char} (h : ∀ c ∈ digits, c.isDigit = true) (point : Int) :
    Unsigned (Binary64.positional digits point) := by
  unfold Binary64.positional
  split
  · rw [List.append_assoc]
    refine .cons rfl (by decide) (List.forall_mem_cons.mpr ⟨rfl, fun c hc => ?_⟩)
    exact (append (forall_isDigit_zeros _) (of_digits h)).1 c hc
  · split
    · rw [List.append_assoc]
      exact append h (append (forall_isDigit_zeros _) (by decide))
    · refine append (fun c hc => h c (List.mem_of_mem_take hc)) (.cons rfl (by decide) ?_)
      exact (of_digits fun c hc => h c (List.mem_of_mem_drop hc)).1

theorem scientific (plusSign : Bool) {digits : List Char} (h : ∀ c ∈ digits, c.isDigit = true)
    (point : Int) : Unsigned (Binary64.scientific plusSign digits point) := by
  have hexponent : Unsigned ('e' ::
      (if point ≤ 0 then ['-'] else if plusSign then ['+'] else []) ++
        Nat.toDigits 10 (point - 1).natAbs) := by
    refine .cons rfl (by decide) fun c hc => ?_
    rcases List.mem_append.mp hc with hc | hc
    · split at hc
      · rw [List.mem_singleton.mp hc]; rfl
      · split at hc
        · rw [List.mem_singleton.mp hc]; rfl
        · cases hc
    · exact isNumberChar_of_isDigit (forall_isDigit_toDigits _ c hc)
  unfold Binary64.scientific
  rw [List.append_assoc]
  match digits, h with
  | [], _ => exact hexponent
  | [d], h => exact append h hexponent
  | d :: e :: ds, h =>
    obtain ⟨hd, hds⟩ := List.forall_mem_cons.mp h
    have hpoint := cons (c := '.') rfl (by decide) (append hds hexponent).1
    exact (append (by simpa using hd) hpoint : Unsigned ([d] ++ _))

end Unsigned

theorem exists_signed_write (x : Binary64) (l : Binary64.Layout) :
    ∃ sign body, x.write l = sign ++ body ∧ (sign = [] ∨ sign = ['-']) ∧ Unsigned body := by
  have hsign : ∀ b : Bool, (if b then ['-'] else []) = [] ∨ (if b then ['-'] else []) = ['-'] := by
    decide
  by_cases hzero : x.isZero = true
  · exact ⟨_, "0.0".toList, by rw [Binary64.write, if_pos hzero], hsign x.negative, by decide⟩
  · refine ⟨_, _, by rw [Binary64.write, if_neg hzero], hsign x.negative, ?_⟩
    split
    · exact .positional (forall_isDigit_toDigits _) _
    · exact .scientific _ (forall_isDigit_toDigits _) _

/-- A number is written with a sign if need be, and then without. -/
theorem exists_numberText (n : Number) :
    ∃ sign body, Tree.numberText n = sign ++ body ∧ (sign = [] ∨ sign = ['-']) ∧ Unsigned body := by
  cases n with
  | integer n =>
    have hdigits := Unsigned.of_digits (forall_isDigit_toDigits n.natAbs)
    rw [Tree.numberText, Number.decimal]
    split
    · exact ⟨['-'], _, rfl, .inr rfl, hdigits⟩
    · exact ⟨[], _, rfl, .inl rfl, hdigits⟩
  | float x =>
    rw [Tree.numberText, Tree.floatText]
    split
    · exact ⟨[], _, rfl, .inl rfl, by decide⟩
    · split
      · exact exists_signed_write x _
      · split
        · exact ⟨['-'], ".inf".toList, rfl, .inr rfl, by decide⟩
        · exact ⟨[], _, rfl, .inl rfl, by decide⟩

theorem not_marker_prefix_of_unsigned {sign body : List Char} (hsign : sign = [] ∨ sign = ['-'])
    (h : Unsigned body) : ¬ marker <+: sign ++ body := by
  cases body with
  | nil => rcases hsign with rfl | rfl <;> simp [marker]
  | cons c rest =>
    have hc : c ≠ '-' := fun heq => h.2 (congrArg some heq)
    rcases hsign with rfl | rfl <;> simp [marker, hc.symm]

theorem BreaksLines.reaches_number (hp : BreaksLines p) (hs : Fresh s) (n : Number) :
    Reaches p s (Tree.numberText n) fun _ => True := by
  obtain ⟨sign, body, heq, hsign, hbody⟩ := exists_numberText n
  rw [heq]
  refine hp.reaches_of_not_marker (fun c hc => ?_) (not_marker_prefix_of_unsigned hsign hbody) hs
  rcases List.mem_append.mp hc with hc | hc
  · rcases hsign with rfl | rfl
    · cases hc
    · rw [List.mem_singleton.mp hc]; rfl
  · exact not_break_of (hbody.1 c hc) (by decide)

/-! ## Octets and escapes -/

theorem exists_digitChar_of_mem_toDigits {n : Nat} {c : Char} (h : c ∈ Nat.toDigits 16 n) :
    ∃ d < 16, c = Nat.digitChar d := by
  induction n using Nat.strongRecOn with
  | ind n ih =>
    rw [Nat.toDigits_eq_if (by decide)] at h
    split at h
    · next hn => exact ⟨n, hn, List.mem_singleton.mp h⟩
    · next hn =>
      rcases List.mem_append.mp h with h | h
      · exact ih (n / 16) (by omega) h
      · exact ⟨n % 16, Nat.mod_lt _ (by decide), List.mem_singleton.mp h⟩

theorem not_break_hexUpper {width n : Nat} :
    ∀ c ∈ Text.hexUpper width n, isBreakChar c = false := by
  have hdigit : ∀ d < 16, isBreakChar (Nat.digitChar d).toUpper = false := by decide
  intro c hc
  rcases List.mem_append.mp hc with hc | hc
  · rw [List.eq_of_mem_replicate hc]; rfl
  · obtain ⟨e, he, rfl⟩ := List.mem_map.mp hc
    obtain ⟨d, hd, rfl⟩ := exists_digitChar_of_mem_toDigits he
    exact hdigit d hd

theorem not_break_escape {c : Char} : ∀ e ∈ ScalarText.escape c, isBreakChar e = false := by
  intro e he
  unfold ScalarText.escape at he
  split at he
  · next l hl =>
    have hletter : isBreakChar l = false := by
      unfold ScalarText.escapeLetter? at hl
      split at hl <;> cases hl <;> rfl
    simp only [List.mem_cons, List.not_mem_nil, or_false] at he
    rcases he with rfl | rfl
    · rfl
    · exact hletter
  · next hnone =>
    -- A line break has a letter of its own.
    have hc : isBreakChar c = false := by
      refine not_break_of (q := fun c => (ScalarText.escapeLetter? c).isNone) ?_ (by decide)
      rw [hnone]
      rfl
    split at he
    · rw [List.mem_singleton.mp he]
      exact hc
    · split at he <;> [skip; split at he] <;>
      · simp only [List.mem_cons] at he
        rcases he with rfl | rfl | he
        · rfl
        · rfl
        · exact not_break_hexUpper e he

theorem not_break_writeTag (tag : String) : ∀ c ∈ Tree.writeTag tag, isBreakChar c = false := by
  have hcontent : ∀ c ∈ Tree.tagContent tag, isBreakChar c = false := by
    intro c hc
    obtain ⟨d, -, hc⟩ := List.mem_flatMap.mp hc
    split at hc
    · next hd =>
      rw [List.mem_singleton.mp hc]
      exact not_break_of hd (by decide)
    · obtain ⟨b, -, hc⟩ := List.mem_flatMap.mp hc
      rcases List.mem_cons.mp hc with rfl | hc
      · rfl
      · exact not_break_hexUpper c hc
  have hopen : ∀ c ∈ "!<".toList, isBreakChar c = false := forall_not_break (by decide)
  intro c hc
  unfold Tree.writeTag at hc
  split at hc
  · simp only [List.mem_append, List.mem_singleton] at hc
    rcases hc with (hc | hc) | rfl
    · exact hopen c hc
    · exact hcontent c hc
    · rfl
  · rcases List.mem_cons.mp hc with rfl | hc
    · rfl
    · exact hcontent c hc

/-! ## Scalars -/

namespace ScalarText

theorem plainAllowed_of_form {simpleKey : Bool} {text : String}
    (h : form simpleKey text = .plain) : plainAllowed text.toList = true := by
  simp only [form] at h
  split at h
  · split at h <;> cases h
  · split at h
    · cases h
    · split at h
      · next hplain => exact (Bool.and_eq_true_iff.mp hplain).2
      · split at h <;> cases h

theorem literal_of_form {simpleKey : Bool} {text : String} (h : form simpleKey text = .literal) :
    '\n' ∈ text.toList ∧ literalAllowed text.toList = true := by
  simp only [form] at h
  split at h
  · next hlineFeed =>
    split at h
    · next hallowed =>
      exact ⟨by simpa using hlineFeed, (Bool.and_eq_true_iff.mp hallowed).1⟩
    · cases h
  · split at h
    · cases h
    · split at h
      · cases h
      · split at h <;> cases h

theorem not_break_of_plainAllowed {cs : List Char} (h : plainAllowed cs = true) :
    ∀ c ∈ cs, isBreakChar c = false := by
  have hsingle : isMultiline cs = false := by
    simp only [plainAllowed, Bool.and_eq_true, Bool.not_eq_true', Bool.or_eq_false_iff] at h
    exact h.1.1.2
  simpa [isMultiline] using hsingle

theorem not_marker_prefix_of_plainAllowed {cs : List Char} (h : plainAllowed cs = true) :
    ¬ marker <+: cs := by
  have hindicator : hasIndicator cs = false := by
    simp only [plainAllowed, Bool.and_eq_true, Bool.not_eq_true', Bool.or_eq_false_iff] at h
    exact h.1.2
  intro hmarker
  rw [← List.isPrefixOf_iff_prefix] at hmarker
  unfold marker at hmarker
  simp [hasIndicator, hmarker] at hindicator

theorem not_break_literalHints (cs : List Char) :
    ∀ c ∈ literalHints cs, isBreakChar c = false := by
  intro c hc
  have hhint : c = '2' ∨ c = '-' ∨ c = '+' := by
    unfold literalHints at hc
    rcases List.mem_append.mp hc with hc | hc
    · split at hc <;> simp_all
    · split at hc
      · split at hc
        · simp_all
        · split at hc
          · simp_all
          · split at hc <;> simp_all
      · simp_all
  rcases hhint with rfl | rfl | rfl <;> rfl

end ScalarText

namespace BreaksLines

open ScalarText

/-- The indentation of a text that goes on after a break. -/
theorem reaches_afterBreak (hp : BreaksLines p) {indent : Nat} (hindent : 0 < indent)
    {afterBreak : Bool} (hs : afterBreak = false → s = inside) :
    Reaches p s (if afterBreak then spaces indent else []) (· = inside) := by
  cases afterBreak with
  | true => exact hp.reaches_indent hindent
  | false => exact .nil (hs rfl)

theorem reaches_singleInside (hp : BreaksLines p) {indent : Nat} (hindent : 0 < indent)
    {cs : List Char} {afterBreak : Bool} (hs : afterBreak = false → s = inside) :
    Reaches p s (singleInside indent afterBreak cs) (· = inside) := by
  induction cs generalizing s afterBreak with
  | nil => exact hp.reaches_afterBreak hindent hs
  | cons c rest ih =>
    unfold singleInside
    split
    · next hc => exact .cons (step_of_ne (ne_dash_of_isBreakChar hc)) (ih nofun)
    · next hc =>
      rw [List.append_assoc]
      refine (hp.reaches_afterBreak hindent hs).append ?_
      rintro s' rfl
      refine (hp.reaches_unbroken ?_).append fun s' hs' => ih fun _ => hs'
      rw [Bool.not_eq_true] at hc
      split <;> simp_all

theorem reaches_literalLines (hp : BreaksLines p) {indent : Nat} (hindent : 0 < indent)
    {cs : List Char} {afterBreak : Bool} (hfresh : Fresh s) (hs : afterBreak = false → s = inside) :
    Reaches p s (literalLines indent afterBreak cs) Fresh := by
  induction cs generalizing s afterBreak with
  | nil => exact .nil hfresh
  | cons c rest ih =>
    unfold literalLines
    split
    · next hc => exact .cons (step_of_ne (ne_dash_of_isBreakChar hc)) (ih (fresh_ite _) nofun)
    · next hc =>
      refine (hp.reaches_afterBreak hindent hs).append ?_
      rintro s' rfl
      rw [Bool.not_eq_true] at hc
      refine .cons (step_inside p c) ?_
      rw [hp.eq_false hc]
      exact ih (.inr rfl) fun _ => rfl

/-- A scalar after an indentation. -/
theorem reaches_scalar (hp : BreaksLines p) (hs : Fresh s) {indent : Nat} (hindent : 0 < indent)
    (simpleKey : Bool) (text : String) :
    Reaches p s (ScalarText.write (form simpleKey text) indent text.toList).1
      fun s' =>
        (ScalarText.write (form simpleKey text) indent text.toList).2 = true → Fresh s' := by
  cases hform : form simpleKey text with
  | plain =>
    have hplain := plainAllowed_of_form hform
    exact (hp.reaches_of_not_marker (not_break_of_plainAllowed hplain)
      (not_marker_prefix_of_plainAllowed hplain) hs).mono fun _ _ => nofun
  | single =>
    refine hp.reaches_cons (by decide) rfl ?_
    refine (hp.reaches_singleInside hindent fun _ => rfl).append fun s' hs' => ?_
    exact hp.reaches_cons (by decide) rfl (.nil nofun)
  | double =>
    refine hp.reaches_cons (by decide) rfl ?_
    refine (hp.reaches_unbroken fun c hc => ?_).mono fun _ _ => nofun
    rcases List.mem_append.mp hc with hc | hc
    · obtain ⟨d, -, hc⟩ := List.mem_flatMap.mp hc
      exact not_break_escape c hc
    · rw [List.mem_singleton.mp hc]; rfl
  | literal =>
    refine hp.reaches_cons (by decide) rfl ?_
    refine (hp.reaches_unbroken (not_break_literalHints _)).append fun s' hs' => ?_
    refine hp.reaches_lineFeed ?_
    refine Reaches.mono ?_ fun _ hfresh _ => hfresh
    exact hp.reaches_literalLines hindent (.inl rfl) nofun

end BreaksLines

/-! ## Values -/

namespace Tree

-- A key such as `--` leaves dashes on its line. What follows output that does not end with a break
-- is a colon or a line feed, so the state of the line does not matter then.

/-- Output may come where a line has begun so, and after it the line has no dashes so far, if the
output says that it ends with a break. -/
def Continues (p : Char → Bool) (s : LineStart) (out : Output) : Prop :=
  Reaches p s out.text fun s' => out.ended = true → Fresh s'

/-- A value may come where a line has begun so: its place puts a space first, or the line has no
dashes so far. -/
def Place.Admits (pl : Place) (s : LineStart) : Prop :=
  pl.space = false → Fresh s

theorem reaches_lead (hp : BreaksLines p) {pl : Place} (hs : pl.Admits s) :
    Reaches p s (lead pl) Fresh := by
  unfold lead
  split
  · exact hp.reaches_cons (by decide) rfl (.nil (.inr rfl))
  · next hspace => exact .nil (hs (by simpa using hspace))

theorem reaches_newLine (hp : BreaksLines p) {ended : Bool} (hs : ended = true → Fresh s)
    (indent : Nat) : Reaches p s (Output.newLine ended indent) Fresh := by
  unfold Output.newLine
  cases ended with
  | true => exact hp.reaches_spaces (hs rfl) indent
  | false => exact hp.reaches_lineFeed (hp.reaches_spaces (.inl rfl) indent)

theorem reaches_blockLead (hp : BreaksLines p) {pl : Place} (hs : pl.Admits s) (indent : Nat) :
    Reaches p s (blockLead pl indent) Fresh := by
  unfold blockLead
  split
  · exact reaches_lead hp hs
  · exact hp.reaches_lineFeed (hp.reaches_spaces (.inl rfl) indent)

/-- A text on the line that a place leads to. -/
theorem continues_line (hp : BreaksLines p) {pl : Place} (hs : pl.Admits s) {cs : List Char}
    (hbreak : cs.any isBreakChar = false) (hmarker : ¬ marker <+: cs) :
    Continues p s (.line (lead pl ++ cs)) :=
  (reaches_lead hp hs).append fun _ hfresh =>
    (hp.reaches_of_not_marker (forall_not_break hbreak) hmarker hfresh).mono fun _ _ => nofun

theorem reaches_writeTag (hp : BreaksLines p) (tag : String) :
    Reaches p s (writeTag tag) (· = inside) := by
  have hbreak := not_break_writeTag tag
  obtain ⟨rest, hrest⟩ : ∃ rest, writeTag tag = '!' :: rest := by
    unfold writeTag
    split <;> exact ⟨_, rfl⟩
  rw [hrest] at hbreak ⊢
  exact hp.reaches_cons (by decide) rfl
    (hp.reaches_unbroken (List.forall_mem_cons.mp hbreak).2)

/-- The dash of an item. -/
theorem reaches_dash (hp : BreaksLines p) (hs : Fresh s) {cs : List Char} {Q : LineStart → Prop}
    (h : ∀ s', Reaches p s' cs Q) : Reaches p s ('-' :: cs) Q := by
  have hdash : p '-' = false := hp.eq_false rfl
  rcases hs with rfl | rfl
  · exact .cons (by simp [step, hdash]) (h .dash)
  · exact .cons (step_inside p '-') (h _)

theorem continues_entry (hp : BreaksLines p) {k : Tree} {key value : Output} (indent : Nat)
    (hs : Fresh s) (hkey : ∀ s', (keyPlace k).Admits s' → Continues p s' key)
    (hvalue : ∀ s', Continues p s' value) :
    Continues p s (Output.entry k.isSimpleKey indent key value) := by
  unfold Output.entry
  split
  · refine (hkey s fun _ => hs).append fun s' _ => ?_
    exact hp.reaches_cons (by decide) rfl (hvalue _)
  · refine Reaches.append (Reaches.append ?_ fun _ hended => reaches_newLine hp hended indent) ?_
    · exact hp.reaches_cons (by decide) rfl (hkey _ fun _ => .inr rfl)
    · exact fun _ _ => hp.reaches_cons (by decide) rfl (hvalue _)

theorem admits_valuePlace (k : Tree) (s : LineStart) : (valuePlace k).Admits s := by
  unfold valuePlace
  split <;> exact nofun

/-- What is written of a tagged value. -/
theorem write_tagged {indent : Option Nat} {pl : Place} {tag : String} {value : Tree}
    {out : Output} (h : write indent pl (.tagged tag value) = some out) :
    ∃ inner, write indent pl.tagged value = some inner ∧
      out = ⟨lead pl ++ writeTag tag ++ inner.text, inner.ended⟩ := by
  cases value with
  | tagged => simp [write] at h
  | _ =>
    rw [write] at h
    · obtain ⟨inner, hinner, hout⟩ := Option.bind_eq_some_iff.mp h
      cases hout
      exact ⟨inner, hinner, rfl⟩
    · exact nofun

mutual

/-- A value that follows a dash follows a space too, so its own dashes do not come after that
one. -/
theorem continues_write (hp : BreaksLines p) : ∀ (t : Tree) (indent : Option Nat) (pl : Place)
    {s : LineStart} {out : Output}, write indent pl t = some out → pl.Admits s → Continues p s out
  | .null, _, _, _, _, h, hs => by
    cases h
    exact continues_line hp hs (by decide) (by decide)
  | .bool b, _, _, _, _, h, hs => by
    cases h
    exact continues_line hp hs (by cases b <;> decide) (by cases b <;> decide)
  | .number n, _, _, _, _, h, hs => by
    cases h
    exact (reaches_lead hp hs).append fun _ hfresh =>
      (hp.reaches_number hfresh n).mono fun _ _ => nofun
  | .string text, indent, pl, _, _, h, hs => by
    cases h
    exact (reaches_lead hp hs).append fun _ hfresh =>
      hp.reaches_scalar hfresh (Nat.succ_pos _) pl.simpleKey text
  | .sequence [], _, _, _, _, h, hs => by
    cases h
    exact continues_line hp hs (by decide) (by decide)
  | .sequence (t :: ts), indent, pl, _, _, h, hs => by
    simp only [write, Option.bind_eq_bind, Option.bind_eq_some_iff] at h
    obtain ⟨first, hfirst, rest, hrest, hout⟩ := h
    cases hout
    refine Reaches.append ?_ fun _ hended => continues_writeItems hp ts _ hrest hended
    exact (reaches_blockLead hp hs _).append fun _ hfresh =>
      reaches_dash hp hfresh fun _ => continues_write hp t _ _ hfirst nofun
  | .mapping [], _, _, _, _, h, hs => by
    cases h
    exact continues_line hp hs (by decide) (by decide)
  | .mapping ((k, v) :: es), indent, pl, _, _, h, hs => by
    simp only [write, Option.bind_eq_bind, Option.bind_eq_some_iff] at h
    obtain ⟨key, hkey, value, hvalue, rest, hrest, hout⟩ := h
    cases hout
    refine Reaches.append ?_ fun _ hended => continues_writeEntries hp es _ hrest hended
    exact (reaches_blockLead hp hs _).append fun _ hfresh =>
      continues_entry hp _ hfresh (fun _ => continues_write hp k _ _ hkey)
        fun _ => continues_write hp v _ _ hvalue (admits_valuePlace k _)
  | .tagged tag value, indent, pl, _, _, h, hs => by
    obtain ⟨inner, hinner, rfl⟩ := write_tagged h
    refine Reaches.append ((reaches_lead hp hs).append fun _ _ => reaches_writeTag hp tag) ?_
    exact fun _ _ => continues_write hp value indent pl.tagged hinner nofun

theorem continues_writeItems (hp : BreaksLines p) : ∀ (ts : List Tree) (indent : Nat)
    {ended : Bool} {s : LineStart} {out : Output}, writeItems indent ended ts = some out →
      (ended = true → Fresh s) → Continues p s out
  | [], _, _, _, _, h, hs => by
    cases h
    exact .nil hs
  | t :: ts, indent, _, _, _, h, hs => by
    simp only [writeItems, Option.bind_eq_bind, Option.bind_eq_some_iff] at h
    obtain ⟨first, hfirst, rest, hrest, hout⟩ := h
    cases hout
    refine Reaches.append ?_ fun _ hended => continues_writeItems hp ts _ hrest hended
    exact (reaches_newLine hp hs _).append fun _ hfresh =>
      reaches_dash hp hfresh fun _ => continues_write hp t _ _ hfirst nofun

theorem continues_writeEntries (hp : BreaksLines p) : ∀ (es : List (Tree × Tree)) (indent : Nat)
    {ended : Bool} {s : LineStart} {out : Output}, writeEntries indent ended es = some out →
      (ended = true → Fresh s) → Continues p s out
  | [], _, _, _, _, h, hs => by
    cases h
    exact .nil hs
  | (k, v) :: es, indent, _, _, _, h, hs => by
    simp only [writeEntries, Option.bind_eq_bind, Option.bind_eq_some_iff] at h
    obtain ⟨key, hkey, value, hvalue, rest, hrest, hout⟩ := h
    cases hout
    refine Reaches.append ?_ fun _ hended => continues_writeEntries hp es _ hrest hended
    exact (reaches_newLine hp hs _).append fun _ hfresh =>
      continues_entry hp _ hfresh (fun _ => continues_write hp k _ _ hkey)
        fun _ => continues_write hp v _ _ hvalue (admits_valuePlace k _)

end

/-- No line of a document begins with `---`, however much is taken for a line break. -/
theorem not_marker_prefix_of_render (hp : BreaksLines p) {t : Tree} {cs : List Char}
    (h : t.render = some cs) : ∀ line ∈ lines p cs, ¬ marker <+: line := by
  obtain ⟨out, hout, hcs⟩ := Option.bind_eq_some_iff.mp h
  obtain ⟨s', hscan, -⟩ := continues_write hp t none .start hout fun _ => .inl rfl
  cases hcs
  split
  · exact not_marker_prefix_of_scan hp hscan
  · have hlineFeed : scan p s' ['\n'] = some start := by simp [scan, step, hp.lineFeed]
    exact not_marker_prefix_of_scan hp (by rw [scan_append, hscan, Option.bind_some, hlineFeed])

end Tree
end TenantRegistry.Yaml
