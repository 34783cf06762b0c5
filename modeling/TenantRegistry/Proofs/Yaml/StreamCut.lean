import TenantRegistry.Proofs.Yaml.LineStarts

/-!
Cutting a stream at its lines that are `---`.

`documentsOf_intercalate`: texts without a line that begins with `---`, put together with that
line between them, come apart into the same texts exactly if each but the last ends with a line
break.
-/

namespace TenantRegistry.Yaml

open ScalarText (endsWith)

variable {p : Char → Bool}

/-! ## Lines of parts -/

theorem flatten_lines (p : Char → Bool) (cs : List Char) : (lines p cs).flatten = cs := by
  induction cs with
  | nil => rfl
  | cons c rest ih =>
    rw [lines]
    split
    · simp [ih]
    · cases hlines : lines p rest with
      | nil => rw [hlines] at ih; simp [← ih]
      | cons line others => rw [hlines] at ih; simp [← ih]

theorem lines_ne_nil {cs : List Char} (h : cs ≠ []) : lines p cs ≠ [] := by
  intro hlines
  have hflatten := flatten_lines p cs
  rw [hlines] at hflatten
  exact h hflatten.symm

theorem endsWith_cons {q : Char → Bool} {c : Char} {rest : List Char} (h : rest ≠ []) :
    endsWith q (c :: rest) = endsWith q rest := by
  cases rest with
  | nil => contradiction
  | cons d rest => rw [endsWith, endsWith, List.getLast?_cons_cons]

theorem endsWith_append {q : Char → Bool} {xs ys : List Char} (h : ys ≠ []) :
    endsWith q (xs ++ ys) = endsWith q ys := by
  rw [endsWith, endsWith, List.getLast?_append_of_ne_nil xs h]

/-- After a line break the lines are those of what follows. -/
theorem lines_append {xs : List Char} (h : endsWith p xs = true) (ys : List Char) :
    lines p (xs ++ ys) = lines p xs ++ lines p ys := by
  induction xs with
  | nil => cases h
  | cons c rest ih =>
    rw [List.cons_append, lines, lines]
    by_cases hrest : rest = []
    · subst hrest
      have hc : p c = true := h
      rw [if_pos hc, if_pos hc]
      rfl
    · have htail := ih ((endsWith_cons hrest).symm.trans h)
      have hnonempty : lines p rest ≠ [] := lines_ne_nil hrest
      rw [htail]
      split
      · rfl
      · cases hlines : lines p rest with
        | nil => contradiction
        | cons line others => rfl

/-- All lines but the last end with a line break. -/
theorem endsWith_of_mem_dropLast (cs : List Char) :
    ∀ line ∈ (lines p cs).dropLast, endsWith p line = true := by
  induction cs with
  | nil => simp [lines]
  | cons c rest ih =>
    rw [lines]
    cases hlines : lines p rest with
    | nil => split <;> simp
    | cons line others =>
      rw [hlines] at ih
      split
      · next hc => exact List.forall_mem_cons.mpr ⟨hc, ih⟩
      · cases others with
        | nil => simp
        | cons next others =>
          obtain ⟨hline, hothers⟩ := List.forall_mem_cons.mp ih
          have hnonempty : line ≠ [] := by
            rintro rfl
            cases hline
          exact List.forall_mem_cons.mpr ⟨(endsWith_cons hnonempty).trans hline, hothers⟩

/-! ## Cutting -/

/-- What stands between two documents. -/
def separator : List Char := marker ++ ['\n']

/-- A line that is `---`, but for its break. -/
def isMarkerLine (p : Char → Bool) (line : List Char) : Bool :=
  line.takeWhile (fun c => !p c) == marker

/-- The documents of a stream: what stands between its lines that are `---`. -/
def documentsOf (p : Char → Bool) (stream : List Char) : List (List Char) :=
  if stream = [] then []
  else ((lines p stream).splitOnP (isMarkerLine p)).map List.flatten

theorem isMarkerLine_separator (hp : BreaksLines p) : isMarkerLine p separator = true := by
  have hdash : p '-' = false := hp.eq_false rfl
  simp [isMarkerLine, separator, marker, hdash, hp.lineFeed]

theorem lines_separator (hp : BreaksLines p) : lines p separator = [separator] := by
  have hdash : p '-' = false := hp.eq_false rfl
  simp [lines, separator, marker, hdash, hp.lineFeed]

theorem not_isMarkerLine {line : List Char} (h : ¬ marker <+: line) :
    isMarkerLine p line = false := by
  rw [isMarkerLine, beq_eq_false_iff_ne]
  intro heq
  exact h (heq ▸ List.takeWhile_prefix _)

/-- Text that can stand in a stream: it has no line that begins as a separator does. -/
structure IsDocument (p : Char → Bool) (text : List Char) : Prop where
  nonempty : text ≠ []
  noMarker : ∀ line ∈ lines p text, ¬ marker <+: line

theorem IsDocument.noMarkerLine {text : List Char} (h : IsDocument p text) :
    ∀ line ∈ lines p text, isMarkerLine p line = false :=
  fun line hline => not_isMarkerLine (h.noMarker line hline)

theorem documentsOf_single {text : List Char} (h : IsDocument p text) :
    documentsOf p text = [text] := by
  rw [documentsOf, if_neg h.nonempty, List.splitOnP_eq_singleton h.noMarkerLine, List.map_singleton,
    flatten_lines]

/-- A document that ends with a line break is cut off before the separator. -/
theorem documentsOf_append (hp : BreaksLines p) {text rest : List Char} (h : IsDocument p text)
    (hended : endsWith p text = true) (hrest : rest ≠ []) :
    documentsOf p (text ++ separator ++ rest) = text :: documentsOf p rest := by
  have hseparator : endsWith p separator = true := hp.lineFeed
  have hlines : lines p (text ++ separator ++ rest) =
      lines p text ++ separator :: lines p rest := by
    rw [List.append_assoc, lines_append hended, lines_append hseparator, lines_separator hp]
    rfl
  rw [documentsOf, documentsOf, if_neg (by simp [hrest]), if_neg hrest, hlines,
    List.splitOnP_append_cons_of_forall_mem h.noMarkerLine _ (isMarkerLine_separator hp),
    List.map_cons, flatten_lines]

/-- Before a line where a list is cut comes the first part. -/
theorem exists_of_splitOnP {α : Type} {q : α → Bool} {xs first second : List α}
    {others : List (List α)} (h : xs.splitOnP q = first :: second :: others) :
    ∃ x ys, xs = first ++ x :: ys := by
  induction xs generalizing first with
  | nil => cases h
  | cons x rest ih =>
    rw [List.splitOnP_cons_eq_if_modifyHead] at h
    split at h
    · obtain ⟨rfl, -⟩ := List.cons.inj h
      exact ⟨x, rest, rfl⟩
    · cases hrest : rest.splitOnP q with
      | nil => exact absurd hrest (List.splitOnP_ne_nil q rest)
      | cons first' others' =>
        rw [hrest, List.modifyHead_cons] at h
        obtain ⟨rfl, rfl⟩ := List.cons.inj h
        obtain ⟨y, ys, rfl⟩ := ih hrest
        exact ⟨y, ys, rfl⟩

theorem endsWith_flatten {parts : List (List Char)} (h : ∀ part ∈ parts, endsWith p part = true)
    (hne : parts ≠ []) : endsWith p parts.flatten = true := by
  induction parts with
  | nil => contradiction
  | cons part rest ih =>
    obtain ⟨hpart, hrest⟩ := List.forall_mem_cons.mp h
    by_cases hnil : rest = []
    · subst hnil
      simpa using hpart
    · have hlater := ih hrest hnil
      have hnonempty : rest.flatten ≠ [] := by
        intro hflatten
        rw [hflatten] at hlater
        cases hlater
      rw [List.flatten_cons, endsWith_append hnonempty, hlater]

/-- What is cut off before others ends with a line break. -/
theorem endsWith_of_documentsOf {stream text next : List Char} {others : List (List Char)}
    (h : documentsOf p stream = text :: next :: others) (hnonempty : text ≠ []) :
    endsWith p text = true := by
  unfold documentsOf at h
  split at h
  · cases h
  · obtain ⟨first, rest, hsplit, rfl, hrest⟩ := List.map_eq_cons_iff.mp h
    obtain ⟨second, rest, rfl, -, -⟩ := List.map_eq_cons_iff.mp hrest
    obtain ⟨line, ys, hlines⟩ := exists_of_splitOnP hsplit
    refine endsWith_flatten (fun part hpart => ?_) ?_
    · refine endsWith_of_mem_dropLast stream part ?_
      rw [hlines, List.dropLast_append_of_ne_nil (List.cons_ne_nil line ys)]
      exact List.mem_append_left _ hpart
    · rintro rfl
      exact hnonempty rfl

/-- A stream is cut into the documents it was put together from exactly if each of them but the
last ends with a line break. -/
theorem documentsOf_intercalate (hp : BreaksLines p) {texts : List (List Char)}
    (h : ∀ text ∈ texts, IsDocument p text) :
    documentsOf p (separator.intercalate texts) = texts ↔
      ∀ text ∈ texts.dropLast, endsWith p text = true := by
  induction texts with
  | nil => simp [documentsOf]
  | cons text rest ih =>
    obtain ⟨htext, hrest⟩ := List.forall_mem_cons.mp h
    cases rest with
    | nil => simp [documentsOf_single htext]
    | cons next others =>
      have hnonempty : separator.intercalate (next :: others) ≠ [] := by
        cases others with
        | nil => simpa using (hrest next (by simp)).nonempty
        | cons => simp [(hrest next (by simp)).nonempty]
      rw [List.intercalate_cons_cons, List.dropLast_cons_cons, List.forall_mem_cons, ← ih hrest]
      constructor
      · intro hcut
        have hended := endsWith_of_documentsOf hcut htext.nonempty
        rw [documentsOf_append hp htext hended hnonempty] at hcut
        exact ⟨hended, (List.cons.inj hcut).2⟩
      · rintro ⟨hended, hcut⟩
        rw [documentsOf_append hp htext hended hnonempty, hcut]

end TenantRegistry.Yaml
