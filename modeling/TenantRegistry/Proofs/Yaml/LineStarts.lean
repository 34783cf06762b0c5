import Mathlib.Data.List.Basic
import TenantRegistry.Yaml.Tree.Printer

/-!
How the lines of a text begin.

A text is followed character by character with a `LineStart`, which is lost once a line begins with
three dashes; then no line of the text does, if the end is reached (`not_marker_prefix_of_scan`).
`Reaches` says so of a part of a text, and parts come together with `Reaches.append`. What ends a
line may be a line feed alone or more of the characters that YAML takes for line breaks.
-/

namespace TenantRegistry.Yaml

/-- The line between two documents of a stream. -/
def marker : List Char := ['-', '-', '-']

/-- The lines of a text, each with the break that ends it. -/
def lines (p : Char → Bool) : List Char → List (List Char)
  | [] => []
  | c :: rest =>
    if p c then [c] :: lines p rest
    else (c :: (lines p rest).headD []) :: (lines p rest).tail

/-- A reader's line breaks: line feeds, and perhaps more of what YAML takes for line breaks. -/
structure BreaksLines (p : Char → Bool) : Prop where
  lineFeed : p '\n' = true
  isBreak : ∀ {c : Char}, p c = true → isBreakChar c = true

theorem breaksLines_lineFeed : BreaksLines (· == '\n') :=
  ⟨rfl, fun h => by rw [beq_iff_eq.mp h]; rfl⟩

theorem breaksLines_isBreakChar : BreaksLines isBreakChar :=
  ⟨rfl, id⟩

theorem forall_not_break {cs : List Char} (h : cs.any isBreakChar = false) :
    ∀ c ∈ cs, isBreakChar c = false :=
  fun c hc => Bool.eq_false_iff.mpr (List.any_eq_false.mp h c hc)

theorem ne_dash_of_isBreakChar {c : Char} (h : isBreakChar c = true) : c ≠ '-' := by
  rintro rfl
  cases h

/-- How a line has begun: with up to two dashes and nothing else so far, or in another way. -/
inductive LineStart where
  | start
  | dash
  | dashes
  | inside
  deriving DecidableEq

namespace LineStart

variable {p : Char → Bool} {s : LineStart} {P Q : LineStart → Prop}

/-- The next character. A third dash at the beginning of a line is a failure. -/
def step (p : Char → Bool) (s : LineStart) (c : Char) : Option LineStart :=
  if p c then some start
  else if c = '-' then
    match s with
    | start => some dash
    | dash => some dashes
    | dashes => none
    | inside => some inside
  else some inside

/-- Reads a text that goes on with a line. -/
def scan (p : Char → Bool) : LineStart → List Char → Option LineStart
  | s, [] => some s
  | s, c :: rest => (step p s c).bind fun s => scan p s rest

theorem scan_append (s : LineStart) (xs ys : List Char) :
    scan p s (xs ++ ys) = (scan p s xs).bind fun s => scan p s ys := by
  induction xs generalizing s with
  | nil => rfl
  | cons c rest ih => simp only [List.cons_append, scan, ih, Option.bind_assoc]

/-! ## Lines -/

/-- What would have to come for a line to begin with three dashes. -/
def missing : LineStart → Option (List Char)
  | start => some ['-', '-', '-']
  | dash => some ['-', '-']
  | dashes => some ['-']
  | inside => none

/-- The first line is the one that has begun, and it must not go on with the dashes that miss. -/
theorem not_missing_prefix_of_scan (hp : BreaksLines p) {cs : List Char} {s' : LineStart}
    (h : scan p s cs = some s') :
    (∀ dashes ∈ s.missing, ¬ dashes <+: (lines p cs).headD []) ∧
      ∀ line ∈ (lines p cs).tail, ¬ marker <+: line := by
  induction cs generalizing s with
  | nil => cases s <;> simp [lines, missing]
  | cons c rest ih =>
    obtain ⟨next, hstep, hnext⟩ := Option.bind_eq_some_iff.mp h
    obtain ⟨hfirst, hothers⟩ := ih hnext
    unfold step at hstep
    split at hstep
    · next hc =>
      have hdash : c ≠ '-' := ne_dash_of_isBreakChar (hp.isBreak hc)
      cases hstep
      rw [lines, if_pos hc]
      refine ⟨?_, ?_⟩
      · cases s <;> simp [missing, hdash.symm]
      · cases hlines : lines p rest with
        | nil => simp
        | cons line others =>
          rw [hlines] at hfirst hothers
          exact List.forall_mem_cons.mpr ⟨hfirst marker rfl, hothers⟩
    · next hc =>
      rw [lines, if_neg hc]
      refine ⟨?_, hothers⟩
      split at hstep
      · next hdash =>
        subst hdash
        cases s with
        | start | dash =>
          cases hstep
          simpa [missing] using hfirst
        | dashes => cases hstep
        | inside => simp [missing]
      · next hdash => cases s <;> simp [missing, Ne.symm hdash]

/-- No line of a text that is read from a line's start on begins with three dashes. -/
theorem not_marker_prefix_of_scan (hp : BreaksLines p) {cs : List Char} {s' : LineStart}
    (h : scan p .start cs = some s') : ∀ line ∈ lines p cs, ¬ marker <+: line := by
  obtain ⟨hfirst, hothers⟩ := not_missing_prefix_of_scan hp h
  cases hlines : lines p cs with
  | nil => simp
  | cons line others =>
    rw [hlines] at hfirst hothers
    exact List.forall_mem_cons.mpr ⟨hfirst marker rfl, hothers⟩

/-! ## Parts of texts -/

/-- A text leads from one state of a line to another that `Q` holds of. -/
def Reaches (p : Char → Bool) (s : LineStart) (cs : List Char) (Q : LineStart → Prop) : Prop :=
  ∃ s', scan p s cs = some s' ∧ Q s'

/-- No dashes so far. -/
def Fresh (s : LineStart) : Prop :=
  s = start ∨ s = inside

namespace Reaches

theorem nil (h : Q s) : Reaches p s [] Q :=
  ⟨s, rfl, h⟩

theorem mono {cs : List Char} (h : Reaches p s cs P) (hPQ : ∀ s', P s' → Q s') :
    Reaches p s cs Q :=
  let ⟨s', hscan, hs'⟩ := h
  ⟨s', hscan, hPQ s' hs'⟩

theorem append {xs ys : List Char} (h : Reaches p s xs P)
    (hrest : ∀ s', P s' → Reaches p s' ys Q) : Reaches p s (xs ++ ys) Q := by
  obtain ⟨s', hxs, hs'⟩ := h
  obtain ⟨s'', hys, hs''⟩ := hrest s' hs'
  refine ⟨s'', ?_, hs''⟩
  rw [scan_append, hxs, Option.bind_some, hys]

theorem cons {c : Char} {rest : List Char} {next : LineStart} (hstep : step p s c = some next)
    (h : Reaches p next rest Q) : Reaches p s (c :: rest) Q := by
  obtain ⟨s', hscan, hs'⟩ := h
  exact ⟨s', by rw [scan, hstep, Option.bind_some, hscan], hs'⟩

end Reaches

theorem step_of_ne {c : Char} (hc : c ≠ '-') :
    step p s c = some (if p c then start else inside) := by
  unfold step
  split <;> simp

theorem step_inside (p : Char → Bool) (c : Char) :
    step p inside c = some (if p c then start else inside) := by
  unfold step
  split <;> simp

theorem fresh_ite (b : Bool) : Fresh (if b then start else inside) := by
  cases b
  · exact .inr rfl
  · exact .inl rfl

end LineStart

open LineStart

/-- A character of a class that has none of the line breaks. -/
theorem not_break_of {q : Char → Bool} {c : Char} (hc : q c = true)
    (hq : "\n\r\u0085\u2028\u2029".toList.any q = false) : isBreakChar c = false := by
  cases hbreak : isBreakChar c with
  | false => rfl
  | true =>
    have hmem : c ∈ "\n\r\u0085\u2028\u2029".toList := by
      simpa [isBreakChar, or_assoc] using hbreak
    rw [List.any_eq_false] at hq
    exact absurd hc (hq c hmem)

namespace BreaksLines

variable {p : Char → Bool} {s : LineStart} {Q : LineStart → Prop}

theorem eq_false (hp : BreaksLines p) {c : Char} (hc : isBreakChar c = false) : p c = false := by
  cases h : p c with
  | false => rfl
  | true => rw [hp.isBreak h] at hc; cases hc

/-- Text without breaks stays on a line that has begun. -/
theorem reaches_unbroken (hp : BreaksLines p) {cs : List Char}
    (h : ∀ c ∈ cs, isBreakChar c = false) : Reaches p inside cs (· = inside) := by
  induction cs with
  | nil => exact .nil rfl
  | cons c rest ih =>
    obtain ⟨hc, hrest⟩ := List.forall_mem_cons.mp h
    refine .cons ?_ (ih hrest)
    rw [step_inside, hp.eq_false hc]
    rfl

/-- A character that is no dash and no break begins a line for good. -/
theorem reaches_cons (hp : BreaksLines p) {c : Char} {rest : List Char} (hc : c ≠ '-')
    (hbreak : isBreakChar c = false) (h : Reaches p inside rest Q) :
    Reaches p s (c :: rest) Q :=
  .cons (by rw [step_of_ne hc, hp.eq_false hbreak]; rfl) h

theorem reaches_lineFeed (hp : BreaksLines p) {rest : List Char} (h : Reaches p start rest Q) :
    Reaches p s ('\n' :: rest) Q :=
  .cons (by simp [step, hp.lineFeed]) h

/-- Text without breaks that does not complete three dashes. -/
theorem reaches_line (hp : BreaksLines p) {cs : List Char} (h : ∀ c ∈ cs, isBreakChar c = false)
    (hmissing : ∀ dashes ∈ s.missing, ¬ dashes <+: cs) : Reaches p s cs fun _ => True := by
  induction cs generalizing s with
  | nil => exact .nil trivial
  | cons c rest ih =>
    obtain ⟨hc, hrest⟩ := List.forall_mem_cons.mp h
    by_cases hdash : c = '-'
    · subst hdash
      have hstep := hp.eq_false hc
      cases s with
      | start | dash =>
        exact .cons (by simp only [step, hstep]; rfl) (ih hrest (by simpa [missing] using hmissing))
      | dashes => simp [missing] at hmissing
      | inside => exact .cons (by simp only [step, hstep]; rfl) (ih hrest (by simp [missing]))
    · exact hp.reaches_cons hdash hc ((hp.reaches_unbroken hrest).mono fun _ _ => trivial)

/-- Text without breaks that does not begin with three dashes, where a line has none so far. -/
theorem reaches_of_not_marker (hp : BreaksLines p) {cs : List Char}
    (h : ∀ c ∈ cs, isBreakChar c = false) (hmarker : ¬ marker <+: cs) (hs : Fresh s) :
    Reaches p s cs fun _ => True := by
  refine hp.reaches_line h ?_
  rcases hs with rfl | rfl
  · intro dashes hdashes
    cases hdashes
    exact hmarker
  · simp [missing]

/-- An indentation, whatever came before on the line. -/
theorem reaches_indent (hp : BreaksLines p) {n : Nat} (hn : 0 < n) :
    Reaches p s (ScalarText.spaces n) (· = inside) := by
  cases n with
  | zero => cases hn
  | succ n =>
    refine hp.reaches_cons (by decide) rfl (hp.reaches_unbroken fun c hc => ?_)
    rw [List.eq_of_mem_replicate hc]
    rfl

theorem reaches_spaces (hp : BreaksLines p) (hs : Fresh s) (n : Nat) :
    Reaches p s (ScalarText.spaces n) Fresh := by
  cases n with
  | zero => exact .nil hs
  | succ n => exact (hp.reaches_indent n.succ_pos).mono fun _ => .inr

end BreaksLines
end TenantRegistry.Yaml
